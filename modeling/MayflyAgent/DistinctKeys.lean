import MayflyAgent.BundleRendering

/-!
Keys that are trusted twice. Validation compares the public keys of an envelope as texts,
while sshd goes by algorithm and blob only. An accepted bundle therefore has a key twice
exactly if its envelope spells one key in two ways.
-/
namespace MayflyAgent.DistinctKeys

open RustText Bundles BundleValidation TrustedCa BundleRendering

/-- The keys have different material, and no blob stands in two lines of the rendering. -/
structure TrustsOnce (bundle : CaBundle) : Prop where
  material : bundle.keys.Pairwise fun a b => ¬ SameMaterial a.publicKey b.publicKey
  rendered : ∀ parsed, TrustedCaKeys.parse (renderTrustedUserCaKeys bundle) = .ok parsed →
    parsed.keys.Pairwise fun a b => a.keyData ≠ b.keyData

/-- Received texts that `public_keys_equal` takes for one key are one text. -/
def SpelledOnce (raw : CaBundleResponse) : Prop :=
  ∀ a ∈ raw.keys, ∀ b ∈ raw.keys, publicKeysEqual a.publicKey b.publicKey = true →
    a.publicKey = b.publicKey

instance decidableSpelledOnce (raw : CaBundleResponse) : Decidable (SpelledOnce raw) :=
  inferInstanceAs (Decidable (∀ a ∈ raw.keys, ∀ b ∈ raw.keys,
    publicKeysEqual a.publicKey b.publicKey = true → a.publicKey = b.publicKey))

theorem distinct_material_iff {ext : Crypto} {raw : CaBundleResponse} {now : Time}
    {pin : Option Text} {bundle : CaBundle} (h : fromResponse ext raw now pin = .ok bundle) :
    (bundle.keys.Pairwise fun a b => ¬ SameMaterial a.publicKey b.publicKey) ↔ SpelledOnce raw := by
  obtain ⟨hvalid, hcarries⟩ := fromResponse_sound h
  have hsymm : Std.Symm fun a b : CaBundleKey => ¬ SameMaterial a.publicKey b.publicKey :=
    ⟨fun _ _ hab hba => hab hba.symm⟩
  constructor
  · intro hdistinct a ha b hb hequal
    by_contra hspelled
    have hne : a ≠ b := fun hab => hspelled (congrArg CaBundleKey.publicKey hab)
    exact hdistinct.forall (hcarries.members.mem_iff.mpr ha) (hcarries.members.mem_iff.mpr hb)
      hne ((publicKeysEqual_iff _ _).mp hequal)
  · intro hspelled
    have hreceived : raw.keys.Pairwise fun a b => ¬ SameMaterial a.publicKey b.publicKey := by
      refine hvalid.distinctKeys.imp_of_mem fun {a b} ha hb hne hsame => hne ?_
      exact hspelled a ha b hb ((publicKeysEqual_iff _ _).mpr hsame)
    exact (hcarries.members.pairwise_iff (hsymm.symm _ _)).mpr hreceived

/-- Keys whose lines hold one blob have the same material. -/
theorem sameMaterial_of_keyData {a b : CaBundleKey} (ha : Renderable a) (hb : Renderable b)
    (h : (trustedKey a).keyData = (trustedKey b).keyData) :
    SameMaterial a.publicKey b.publicKey := by
  obtain ⟨blob, rest, hfields, _⟩ := ha.publicKey
  obtain ⟨blob', rest', hfields', _⟩ := hb.publicKey
  obtain rfl : blob = blob' := by simpa [trustedKey, hfields, hfields'] using h
  exact ⟨(text "ssh-ed25519", blob), material_eq_some.mpr ⟨rest, hfields⟩,
    material_eq_some.mpr ⟨rest', hfields'⟩⟩

/-- An accepted bundle trusts every key once exactly if the envelope spells every key once. -/
theorem trusts_once_iff (ext : Crypto)
    (hline : ∀ line, validateEd25519PublicKey ext line = .ok () →
      ∃ blob rest, splitWhitespace line = text "ssh-ed25519" :: blob :: rest ∧ PaddedBase64 blob)
    {raw : CaBundleResponse} {now : Time} {pin : Option Text} {bundle : CaBundle}
    (h : fromResponse ext raw now pin = .ok bundle) : TrustsOnce bundle ↔ SpelledOnce raw := by
  refine ⟨fun honce => (distinct_material_iff h).mp honce.material, fun hspelled => ?_⟩
  have hdistinct := (distinct_material_iff h).mpr hspelled
  refine ⟨hdistinct, fun parsed hparsed => ?_⟩
  have hrenderable := accepted_renderable hline h
  rw [accepted_parses hline h] at hparsed
  obtain rfl := Except.ok.inj hparsed
  refine List.pairwise_map.mpr (hdistinct.imp_of_mem fun {a b} ha hb hne hdata => hne ?_)
  exact sameMaterial_of_keyData (hrenderable a ha) (hrenderable b hb) hdata

theorem trusts_once_iff_golden : TrustsOnce golden.bundle :=
  (trusts_once_iff sampleCrypto sampleCrypto_lines golden_accepted).mpr (by decide +kernel)

def twin : Sample where
  generation := 44
  keys := [⟨text "ca-01", opensshLine ca01 (text "ca-01")⟩,
    ⟨text "ca-02", opensshLine ca01 (text "ca-02")⟩]
  digest := 0xce990577b0701cd31f77668180c4e56dccdd54a37849b28e60020b972d7277ab
  signature := 0x33c51700c74b3a2ac7f7edfefae1c73b972af12ed7056e76f0a227d237701e32 * 2 ^ 256 +
    0x0b43f80e245956bd8c0a29f92a65c8614ac1cc3c33a425160e84eb5df753680b
  signer := golden.signer

def twinCrypto : Crypto :=
  { sampleCrypto with
    sha256 := fun b =>
      if b = encodeUtf8 (canonicalJson twin.generation twin.keys) then bigEndian 32 twin.digest
      else sampleCrypto.sha256 b
    base64Decode := fun t =>
      if t = twin.signatureText then some (bigEndian 64 twin.signature).toList
      else sampleCrypto.base64Decode t
    verifyStrict := fun key payload sig =>
      key == bigEndian 32 twin.signer && sig == bigEndian 64 twin.signature &&
        payload == encodeUtf8 (receivedPayload twin.response) ||
      sampleCrypto.verifyStrict key payload sig }

theorem twin_accepted : fromResponse twinCrypto twin.response sampleNow none = .ok twin.bundle := by
  decide +kernel

/-- Two comments make two trusted keys out of one. -/
theorem twin_trusted_twice :
    ∃ raw now pin bundle, fromResponse twinCrypto raw now pin = .ok bundle ∧
      ¬ TrustsOnce bundle := by
  refine ⟨_, _, _, _, twin_accepted, fun honce => ?_⟩
  have hspelled := (distinct_material_iff twin_accepted).mp honce.material
  exact absurd hspelled (by decide +kernel)

end MayflyAgent.DistinctKeys
