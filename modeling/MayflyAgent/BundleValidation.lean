import MayflyAgent.BundleEncoding

/-!
What `fromResponse` accepts. The validator is a sequence of checks on the received
fields, with defaults for the missing ones, sorted copies of the keys and a digest
of the sorted list. ValidEnvelope states the same rules on the envelope as it was
received, with duplicates excluded over all pairs, and Carries says which bundle
an accepted envelope becomes.
-/
namespace MayflyAgent.BundleValidation

open RustText Words KeyedSort Checks Errors Bundles BundleEncoding

/-- The accumulated difference is zero exactly when it was and no pair differs. -/
theorem xorScan_eq_zero (pairs : List (UInt8 × UInt8)) (diff : UInt8) :
    pairs.foldl (fun diff (x, y) => diff ||| (x ^^^ y)) diff = 0 ↔
      diff = 0 ∧ ∀ p ∈ pairs, p.1 = p.2 := by
  induction pairs generalizing diff with
  | nil => simp
  | cons p pairs ih =>
    rw [List.foldl_cons, ih, List.forall_mem_cons, UInt8.or_eq_zero_iff, UInt8.xor_eq_zero_iff,
      and_assoc]

theorem fingerprintsEqual_iff (a b : Text) : fingerprintsEqual a b = true ↔ a = b := by
  rw [← encodeUtf8_injective.eq_iff]
  unfold fingerprintsEqual
  simp only
  split
  · rename_i hlength
    simp only [Bool.false_eq_true, false_iff]
    exact fun heq => hlength (congrArg List.length heq)
  · rename_i hlength
    rw [beq_iff_eq, xorScan_eq_zero]
    constructor
    · rintro ⟨_, hpairs⟩
      have heq := not_not.mp hlength
      apply List.ext_getElem heq
      intro i ha hb
      exact hpairs (_, _) (List.mem_iff_getElem.mpr ⟨i, by simp [ha, hb], List.getElem_zip⟩)
    · intro heq
      refine ⟨rfl, fun p hp => ?_⟩
      rw [heq] at hp
      obtain ⟨i, hi, rfl⟩ := List.mem_iff_getElem.mp hp
      rw [List.getElem_zip]

/-- Two lines with the same algorithm and the same blob. -/
def SameMaterial (a b : Text) : Prop := ∃ m, material a = some m ∧ material b = some m

theorem publicKeysEqual_iff (a b : Text) : publicKeysEqual a b = true ↔ SameMaterial a b := by
  unfold publicKeysEqual SameMaterial
  split
  · rename_i x y ha hb
    rw [ha, hb, beq_iff_eq]
    constructor
    · rintro rfl
      exact ⟨x, rfl, rfl⟩
    · rintro ⟨m, hx, hy⟩
      exact Option.some.inj (hx.trans hy.symm)
  · rename_i h
    simp only [Bool.false_eq_true, false_iff, not_exists]
    exact fun m hm => h m m hm.1 hm.2

theorem material_eq_some {s : Text} {m : Text × Text} :
    material s = some m ↔ ∃ rest, splitWhitespace s = m.1 :: m.2 :: rest := by
  unfold material
  split
  · rename_i algo blob rest h
    rw [h]
    simp [Prod.ext_iff]
  · rename_i h
    simp only [reduceCtorEq, false_iff, not_exists]
    exact fun rest heq => h _ _ _ heq

theorem SameMaterial.symm {a b : Text} (h : SameMaterial a b) : SameMaterial b a := by
  obtain ⟨m, ha, hb⟩ := h
  exact ⟨m, hb, ha⟩

theorem SameMaterial.trans {a b c : Text} (hab : SameMaterial a b) (hbc : SameMaterial b c) :
    SameMaterial a c := by
  obtain ⟨m, ha, hb⟩ := hab
  obtain ⟨m', hb', hc⟩ := hbc
  obtain rfl : m = m' := Option.some.inj (hb.symm.trans hb')
  exact ⟨m, ha, hc⟩

theorem sameMaterial_trimText {key other : Text} :
    SameMaterial (trimText key) other ↔ SameMaterial key other := by
  simp only [SameMaterial, material, splitWhitespace_trimText]

structure ValidKeyId (keyId : Text) : Prop where
  nonempty : 1 ≤ keyId.length
  short : keyId.length ≤ 64
  printable : ∀ c ∈ keyId, isAsciiGraphic c = true

theorem validateKeyId_eq_ok {keyId : Text} : validateKeyId keyId = .ok () ↔ ValidKeyId keyId := by
  have hgraphic : (keyId.any fun c => isWhitespace c || isControl c || !isAsciiGraphic c) = false ↔
      ∀ c ∈ keyId, isAsciiGraphic c = true := by
    rw [List.any_eq_false]
    refine forall₂_congr fun c _ => ?_
    cases h : isAsciiGraphic c with
    | true => simp [isWhitespace_graphic h, isControl_graphic h]
    | false => simp
  have hascii : (∀ c ∈ keyId, isAsciiGraphic c = true) → byteLength keyId = keyId.length := by
    intro h
    refine byteLength_ascii fun c hc => ?_
    have := h c hc
    simp only [isAsciiGraphic, Bool.and_eq_true, decide_eq_true_eq] at this
    omega
  rw [validateKeyId, check_bind_eq_ok, rejectIf_eq_ok, rejectIf_eq_ok, Bool.not_eq_true, hgraphic,
    not_or, Bool.not_eq_true, List.isEmpty_eq_false_iff, maxKeyIdLen]
  constructor
  · rintro ⟨⟨hne, hlen⟩, hall⟩
    rw [hascii hall] at hlen
    exact ⟨List.length_pos_iff.mpr hne, by omega, hall⟩
  · intro h
    rw [hascii h.printable]
    exact ⟨⟨List.length_pos_iff.mp h.nonempty, Nat.not_lt.mpr h.short⟩, h.printable⟩

theorem validateKey_eq_ok {ext : Crypto} {key : CaBundleKey} :
    validateKey ext key = .ok () ↔
      ValidKeyId key.keyId ∧ validateEd25519PublicKey ext key.publicKey = .ok () := by
  rw [validateKey, check_bind_eq_ok, validateKeyId_eq_ok, mapError_eq_ok]

def SignatureVerifies (ext : Crypto) (payload : Bytes) (signature signingKey : Text) : Prop :=
  ∃ key sig, ext.fromOpenssh signingKey = some (.ed25519 key) ∧
    ext.verifyingKeyFromBytes key = true ∧
    ext.base64Decode (trimText signature) = some (Vector.toList sig) ∧
    ext.verifyStrict key payload sig = true

theorem signatureBytes_eq_some {b : Bytes} {sig : Vector UInt8 64} :
    signatureBytes b = some sig ↔ b = sig.toList := by
  unfold signatureBytes
  split
  · rename_i h
    rw [Option.some.injEq]
    constructor
    · rintro rfl
      rfl
    · rintro rfl
      rfl
  · rename_i h
    simp only [reduceCtorEq, false_iff]
    rintro rfl
    exact h (by simp)

theorem ed25519Bytes_eq_some {key : KeyData} {bytes : Vector UInt8 32} :
    ed25519Bytes key = some bytes ↔ key = .ed25519 bytes := by
  cases key <;> simp [ed25519Bytes]

theorem verifySignature_eq_ok {ext : Crypto} {payload : Bytes} {signature signingKey : Text} :
    verifySignature ext payload signature signingKey = .ok () ↔
      SignatureVerifies ext payload signature signingKey := by
  simp only [verifySignature, okOr_bind_eq_ok, check_bind_eq_ok, rejectIf_eq_ok,
    ed25519Bytes_eq_some, signatureBytes_eq_some, Bool.not_eq_false, SignatureVerifies]
  constructor
  · rintro ⟨_, hopenssh, key, rfl, hkey, _, hbase64, sig, rfl, hverify⟩
    exact ⟨key, sig, hopenssh, hkey, hbase64, hverify⟩
  · rintro ⟨key, sig, hopenssh, hkey, hbase64, hverify⟩
    exact ⟨_, hopenssh, key, rfl, hkey, _, hbase64, sig, rfl, hverify⟩

theorem checkPin_eq_ok {pin : Option Text} {signingKey : Text} :
    checkPin pin signingKey = .ok () ↔ ∀ expected ∈ pin, SameMaterial expected signingKey := by
  cases pin with
  | none => simp [checkPin]
  | some expected =>
    simp only [checkPin, rejectIf_eq_ok, Bool.not_eq_false, publicKeysEqual_iff,
      Option.mem_some_iff, forall_eq']

/-- What the signature of an envelope is computed over. -/
def receivedPayload (raw : CaBundleResponse) : Text :=
  canonicalSigningPayload (raw.bundleVersion.getD 0) (raw.generation.getD 0)
    (raw.fingerprint.getD []) (raw.createdAt.getD []) (raw.expiresAt.getD []) raw.keys

structure ValidEnvelope (ext : Crypto) (raw : CaBundleResponse) (now : Time)
    (pin : Option Text) : Prop where
  version : raw.bundleVersion = some 1
  algorithm : raw.signatureAlgorithm = some (text "ssh-ed25519")
  signingKey : ∃ key ∈ raw.bundleSigningPublicKey, validateEd25519PublicKey ext key = .ok () ∧
    (∀ expected ∈ pin, SameMaterial expected key) ∧
    SignatureVerifies ext (encodeUtf8 (receivedPayload raw)) (raw.signature.getD []) key
  generation : ∃ generation ∈ raw.generation, 1 ≤ generation
  nonempty : 1 ≤ raw.keys.length
  bounded : raw.keys.length ≤ 64
  keyIds : ∀ key ∈ raw.keys, ValidKeyId key.keyId
  publicKeys : ∀ key ∈ raw.keys, validateEd25519PublicKey ext key.publicKey = .ok ()
  distinctIds : raw.keys.Pairwise fun a b => a.keyId ≠ b.keyId
  distinctKeys : raw.keys.Pairwise fun a b => a.publicKey ≠ b.publicKey
  fingerprint : ∃ fingerprint ∈ raw.fingerprint, trimText fingerprint ≠ [] ∧
    fingerprint = computeFingerprint ext (raw.generation.getD 0) raw.keys
  window : ∃ created expires, ext.parseRfc3339 (raw.createdAt.getD []) = some created ∧
    ext.parseRfc3339 (raw.expiresAt.getD []) = some expires ∧ created < expires ∧
    created - 60 * nanosPerSecond ≤ now ∧ now < expires

/-- A valid envelope is valid under every pin with the material of its key. -/
theorem ValidEnvelope.repin {ext : Crypto} {raw : CaBundleResponse} {now : Time}
    {pin pin' : Option Text} (h : ValidEnvelope ext raw now pin)
    (hpin : ∀ key ∈ raw.bundleSigningPublicKey, ∀ expected ∈ pin', SameMaterial expected key) :
    ValidEnvelope ext raw now pin' := by
  obtain ⟨key, hkey, hline, _, hsignature⟩ := h.signingKey
  exact { h with signingKey := ⟨key, hkey, hline, hpin key hkey, hsignature⟩ }

/-- The bundle an accepted envelope becomes. -/
structure Carries (ext : Crypto) (raw : CaBundleResponse) (bundle : CaBundle) : Prop where
  version : bundle.bundleVersion = 1
  generation : raw.generation = some bundle.generation
  fingerprint : raw.fingerprint = some bundle.fingerprint
  computed : bundle.fingerprint = computeFingerprint ext bundle.generation bundle.keys
  keys : bundle.keys = sortByKeyId raw.keys
  members : bundle.keys.Perm raw.keys
  increasing : bundle.keys.Pairwise fun a b => a.keyId < b.keyId
  createdAt : ext.parseRfc3339 (raw.createdAt.getD []) = some bundle.createdAt
  expiresAt : ext.parseRfc3339 (raw.expiresAt.getD []) = some bundle.expiresAt
  signingKey : raw.bundleSigningPublicKey = some bundle.signingPublicKey

theorem canonicalJson_sortByKeyId (generation : UInt64) (keys : List CaBundleKey) :
    canonicalJson generation (sortByKeyId keys) = canonicalJson generation keys :=
  (canonicalJson_eq_iff _ _ _ _).mpr ⟨rfl, sortByKey_sortByKey CaBundleKey.keyId keys⟩

theorem computeFingerprint_sortByKeyId (ext : Crypto) (generation : UInt64)
    (keys : List CaBundleKey) :
    computeFingerprint ext generation (sortByKeyId keys) =
      computeFingerprint ext generation keys := by
  rw [computeFingerprint, canonicalJson_sortByKeyId]
  rfl

/-- A value that differs from the default was received. -/
private theorem received {α : Type} {o : Option α} {d a : α} (h : o.getD d = a) (hne : a ≠ d) :
    o = some a := by
  cases o with
  | none => exact absurd h.symm hne
  | some b => exact congrArg some h

theorem nodup_map_iff {α β : Type} {f : α → β} {l : List α} :
    (l.map f).Nodup ↔ l.Pairwise fun a b => f a ≠ f b := List.pairwise_map

theorem hasEqualNeighbours_sortByKeyId (keys : List CaBundleKey) :
    hasEqualNeighbours CaBundleKey.keyId (sortByKeyId keys) = false ↔
      (keys.map CaBundleKey.keyId).Nodup :=
  hasEqualNeighbours_sortByKey CaBundleKey.keyId keys

theorem sortByKeyId_increasing {keys : List CaBundleKey}
    (h : (keys.map CaBundleKey.keyId).Nodup) :
    (sortByKeyId keys).Pairwise fun a b => a.keyId < b.keyId :=
  (hasEqualNeighbours_sorted CaBundleKey.keyId
    (sortByKey_pairwise CaBundleKey.keyId keys)).mp ((hasEqualNeighbours_sortByKeyId keys).mpr h)

theorem fromResponse_sound {ext : Crypto} {raw : CaBundleResponse} {now : Time}
    {pin : Option Text} {bundle : CaBundle} (h : fromResponse ext raw now pin = .ok bundle) :
    ValidEnvelope ext raw now pin ∧ Carries ext raw bundle := by
  simp only [fromResponse, okOr_bind_eq_ok, check_bind_eq_ok, rejectIf_eq_ok, pure_eq_ok,
    checkPin_eq_ok, verifySignature_eq_ok, checkAll_eq_ok, validateKey_eq_ok, not_not,
    not_or, Bool.not_eq_true, Bool.not_eq_false, fingerprintsEqual_iff,
    hasEqualNeighbours_sortByKeyId, hasEqualNeighbours_sortByKey, List.map_id,
    computeFingerprint_sortByKeyId] at h
  obtain ⟨version, hversion, rfl, halgorithm, ⟨hblank, hline⟩, hpin, hfingerprint, hsignature,
    hgeneration, hmin, hmax, hkeys, hids, hpublic, hcomputed, created, hcreated, expires,
    hexpires, horder, hexpired, hskew, rfl⟩ := h
  have hkey := received rfl fun h => hblank (by rw [h]; rfl)
  have hgen := received rfl hgeneration
  have hfp := received rfl fun h => hfingerprint (by rw [h]; rfl)
  constructor
  · exact {
      version := hversion
      algorithm := received halgorithm (by decide +kernel)
      signingKey := ⟨_, hkey, hline, hpin, by simpa [receivedPayload, hversion] using hsignature⟩
      generation := ⟨_, hgen, Nat.pos_of_ne_zero fun h => hgeneration (UInt64.toNat_inj.mp h)⟩
      nonempty := Nat.not_lt.mp hmin
      bounded := Nat.not_lt.mp hmax
      keyIds := fun k hk => (hkeys k hk).1
      publicKeys := fun k hk => (hkeys k hk).2
      distinctIds := nodup_map_iff.mp hids
      distinctKeys := nodup_map_iff.mp hpublic
      fingerprint := ⟨_, hfp, hfingerprint, hcomputed.symm⟩
      window := ⟨created, expires, hcreated, hexpires, not_le.mp horder,
        Int.sub_le_of_sub_le (not_lt.mp hskew), not_le.mp hexpired⟩
    }
  · exact {
      version := rfl
      generation := hgen
      fingerprint := hfp.trans (congrArg some hcomputed.symm)
      computed := (computeFingerprint_sortByKeyId _ _ _).symm
      keys := rfl
      members := sortByKey_perm CaBundleKey.keyId raw.keys
      increasing := sortByKeyId_increasing hids
      createdAt := hcreated
      expiresAt := hexpires
      signingKey := hkey
    }

/-- What the signing key of an accepted bundle is known to be. -/
theorem fromResponse_authentic {ext : Crypto} {raw : CaBundleResponse} {now : Time}
    {pin : Option Text} {bundle : CaBundle} (h : fromResponse ext raw now pin = .ok bundle) :
    trimText bundle.signingPublicKey ≠ [] ∧
      (∀ expected ∈ pin, SameMaterial expected bundle.signingPublicKey) ∧
      SignatureVerifies ext (encodeUtf8 (receivedPayload raw)) (raw.signature.getD [])
        bundle.signingPublicKey := by
  obtain ⟨hvalid, hcarries⟩ := fromResponse_sound h
  obtain ⟨key, hkey, _, hpin, hsignature⟩ := hvalid.signingKey
  obtain rfl : key = bundle.signingPublicKey :=
    Option.some.inj ((Option.mem_def.mp hkey).symm.trans hcarries.signingKey)
  refine ⟨?_, hpin, hsignature⟩
  simp only [fromResponse, okOr_bind_eq_ok, check_bind_eq_ok, rejectIf_eq_ok, not_or] at h
  obtain ⟨_, _, _, _, ⟨hblank, _⟩, _⟩ := h
  rwa [hcarries.signingKey] at hblank

/-- A pin only ever restricts what is accepted. -/
theorem fromResponse_unpinned {ext : Crypto} {raw : CaBundleResponse} {now : Time}
    {pin : Option Text} {bundle : CaBundle} (h : fromResponse ext raw now pin = .ok bundle) :
    fromResponse ext raw now none = .ok bundle := by
  simp only [fromResponse, okOr_bind_eq_ok, check_bind_eq_ok] at h ⊢
  obtain ⟨version, hversion, hsupported, halgorithm, hline, _, hrest⟩ := h
  exact ⟨version, hversion, hsupported, halgorithm, hline, rfl, hrest⟩

/-- The check of the received key for blankness adds nothing when no blank text
passes for an Ed25519 line. -/
theorem fromResponse_complete {ext : Crypto}
    (hblank : ∀ line, validateEd25519PublicKey ext line = .ok () → trimText line ≠ [])
    {raw : CaBundleResponse} {now : Time} {pin : Option Text}
    (h : ValidEnvelope ext raw now pin) : ∃ bundle, fromResponse ext raw now pin = .ok bundle := by
  obtain ⟨key, hkey, hline, hpin, hsignature⟩ := h.signingKey
  obtain ⟨generation, hgen, hpos⟩ := h.generation
  obtain ⟨fingerprint, hfp, hfingerprint, hcomputed⟩ := h.fingerprint
  obtain ⟨created, expires, hcreated, hexpires, horder, hskew, hexpired⟩ := h.window
  have hkeyBlank : trimText key ≠ [] := hblank key hline
  have hgeneration : generation ≠ 0 := by
    rintro rfl
    exact absurd hpos (by decide)
  simp only [Option.mem_def] at hkey hgen hfp
  simp only [receivedPayload, h.version, hgen, hfp, Option.getD_some] at hsignature hcomputed
  simp only [fromResponse, okOr_bind_eq_ok, check_bind_eq_ok, rejectIf_eq_ok, pure_eq_ok,
    checkPin_eq_ok, verifySignature_eq_ok, checkAll_eq_ok, validateKey_eq_ok, not_not,
    not_or, Bool.not_eq_true, Bool.not_eq_false, fingerprintsEqual_iff,
    hasEqualNeighbours_sortByKeyId, hasEqualNeighbours_sortByKey, List.map_id,
    computeFingerprint_sortByKeyId, hkey, hgen, hfp, h.algorithm, Option.getD_some]
  exact ⟨_, 1, h.version, rfl, rfl, ⟨hkeyBlank, hline⟩, hpin, hfingerprint, hsignature,
    hgeneration, Nat.not_lt.mpr h.nonempty, Nat.not_lt.mpr h.bounded,
    fun k hk => ⟨h.keyIds k hk, h.publicKeys k hk⟩, nodup_map_iff.mpr h.distinctIds,
    nodup_map_iff.mpr h.distinctKeys, hcomputed.symm, created, hcreated, expires, hexpires,
    not_le.mpr horder, not_le.mpr hexpired, not_lt.mpr (Int.sub_le_of_sub_le hskew), rfl⟩

/-- An envelope is accepted exactly when it is valid, as the bundle it carries. -/
theorem fromResponse_accepts_valid (ext : Crypto)
    (hblank : ∀ line, trimText line = [] → ext.fromOpenssh line = none)
    (raw : CaBundleResponse) (now : Time) (pin : Option Text) :
    ((∃ bundle, fromResponse ext raw now pin = .ok bundle) ↔ ValidEnvelope ext raw now pin) ∧
      ∀ bundle, fromResponse ext raw now pin = .ok bundle → Carries ext raw bundle := by
  refine ⟨⟨?_, fromResponse_complete ?_⟩, fun bundle h => (fromResponse_sound h).2⟩
  · rintro ⟨bundle, h⟩
    exact (fromResponse_sound h).1
  · intro line hline htrim
    simp [validateEd25519PublicKey, hblank line htrim] at hline

/-! Signed bundles: the one of the protocol vectors, an older one of the same signer
and one of another signer, with functions that answer on them as the real ones do. -/

def bigEndian (n value : Nat) : Vector UInt8 n :=
  Vector.ofFn fun i => UInt8.ofNat (value >>> (8 * (n - 1 - i)))

def base64Digit (i : Nat) : Char :=
  if i < 26 then Char.ofNat (65 + i)
  else if i < 52 then Char.ofNat (71 + i)
  else if i < 62 then Char.ofNat (i - 4)
  else if i = 62 then '+' else '/'

/-- A number of `6 * count` bits in base64, without padding. -/
def sextets (count value : Nat) : Text :=
  (List.range count).map fun i => base64Digit (value / 64 ^ (count - 1 - i) % 64)

/-- The blob is the algorithm and the key, each behind its length. -/
def opensshLine (key : Nat) (comment : Text) : Text :=
  text "ssh-ed25519" ++ ' ' ::
    (sextets 68 (0x0000000b7373682d6564323535313900000020 * 2 ^ 256 + key) ++ ' ' :: comment)

structure Sample where
  generation : UInt64
  keys : List CaBundleKey
  digest : Nat
  signature : Nat
  signer : Nat

def Sample.signatureText (s : Sample) : Text := sextets 86 (s.signature * 16) ++ text "=="

def Sample.fingerprint (s : Sample) : Text :=
  text "sha256:" ++ hexEncode (bigEndian 32 s.digest).toList

def Sample.signingKey (s : Sample) : Text := opensshLine s.signer (text "bundle-signing")

def Sample.response (s : Sample) : CaBundleResponse where
  bundleVersion := some 1
  generation := some s.generation
  fingerprint := some s.fingerprint
  createdAt := some (text "2026-01-01T00:00:00Z")
  expiresAt := some (text "2026-02-01T00:00:00Z")
  keys := s.keys
  signatureAlgorithm := some (text "ssh-ed25519")
  signature := some s.signatureText
  bundleSigningPublicKey := some s.signingKey

def Sample.bundle (s : Sample) : CaBundle where
  bundleVersion := 1
  generation := s.generation
  fingerprint := s.fingerprint
  createdAt := 1767225600 * nanosPerSecond
  expiresAt := 1769904000 * nanosPerSecond
  keys := s.keys
  signingPublicKey := s.signingKey

def ca01 : Nat := 0x8a88e3dd7409f195fd52db2d3cba5d72ca6709bf1d94121bf3748801b40f6f5c

def ca02 : Nat := 0x8139770ea87d175f56a35466c34c7ecccb8d8a91b4ee37a25df60f5b8fc9b394

def ca09 : Nat := 0x43a72e714401762df66b68c26dfbdf2682aaec9f2474eca4613e424a0fbafd3c

def golden : Sample where
  generation := 42
  keys := [⟨text "ca-01", opensshLine ca01 (text "ca-01")⟩,
    ⟨text "ca-02", opensshLine ca02 (text "ca-02")⟩]
  digest := 0x1b932dea3b97e300d8477414f3eefcf51a7e935044aa719476e8a6c0c6099b24
  signature := 0x1674971ab82d854531423ee134f6d3fa84520358838ff01805803f9bccdaf423 * 2 ^ 256 +
    0x847ad167be1ab851d3f051e3ef470b93e30150d73025eb2043c10eda764de900
  signer := 0xea4a6c63e29c520abef5507b132ec5f9954776aebebe7b92421eea691446d22c

def older : Sample where
  generation := 41
  keys := [⟨text "ca-01", opensshLine ca01 (text "ca-01")⟩]
  digest := 0xcb45035f15035115e8588e943c92dabd605598374b5ca8a631caddfb24ee2eb8
  signature := 0xaeacd50036fe7dd12efe17f1a68704bacbe75556bf8ed8deab4c8a7baa8ecb28 * 2 ^ 256 +
    0x63c9def35b785334850fb1e118576de20e0ae4fb463ec245346a68298bd1140b
  signer := 0xea4a6c63e29c520abef5507b132ec5f9954776aebebe7b92421eea691446d22c

def foreign : Sample where
  generation := 43
  keys := [⟨text "ca-09", opensshLine ca09 (text "ca-09")⟩]
  digest := 0xaaa04bfc6c70a6174b341007086a28dd05f0df6255c62c0ad5062ecd4449fb95
  signature := 0xbdaf5948f666f893422cd94a0ec8a3630c8e843b232f2b705fcaa238a90cdd4c * 2 ^ 256 +
    0x53b27282a072dc95b692364de9b25bb0b3bebbaa129322b7dc26f9c52fc79502
  signer := 0xfd1724385aa0c75b64fb78cd602fa1d991fdebf76b13c58ed702eac835e9f618

def samples : List Sample := [golden, older, foreign]

def sampleKeys : List Nat := [ca01, ca02, ca09, golden.signer, foreign.signer]

/-- 15 January 2026, inside the window of every sample. -/
def sampleNow : Time := 1768435200 * nanosPerSecond

/-- The hashed texts: fingerprint payloads, the empty body and an acknowledgement. -/
def digests : List (Bytes × Nat) :=
  (samples.map fun s => (encodeUtf8 (canonicalJson s.generation s.keys), s.digest)) ++
    [([], 0xe3b0c44298fc1c149afbf4c8996fb92427ae41e4649b934ca495991b7852b855),
      (encodeUtf8 (text "\x7b\"generation\":42,\"fingerprint\":\"" ++ golden.fingerprint ++
          text "\",\"status\":\"applied\"\x7d"),
        0x77344ef0f433feea13b2f84077fb6e4a1445bb064f9d16b0037f48e2c25c5550)]

def sampleCrypto : Crypto where
  sha256 b := bigEndian 32 ((digests.lookup b).getD 0)
  fromOpenssh line :=
    (sampleKeys.find? fun key => (opensshLine key []).isPrefixOf line).map fun key =>
      .ed25519 (bigEndian 32 key)
  verifyingKeyFromBytes key := sampleKeys.any fun known => key == bigEndian 32 known
  base64Decode t :=
    (samples.find? fun s => t == s.signatureText).map fun s => (bigEndian 64 s.signature).toList
  verifyStrict key payload sig := samples.any fun s =>
    key == bigEndian 32 s.signer && sig == bigEndian 64 s.signature &&
      payload == encodeUtf8 (receivedPayload s.response)
  parseRfc3339 t :=
    [(text "2026-01-01T00:00:00Z", 1767225600 * nanosPerSecond),
      (text "2026-02-01T00:00:00Z", 1769904000 * nanosPerSecond)].lookup t

theorem mem_sextets {count value : Nat} {c : Char} (h : c ∈ sextets count value) :
    ∃ i < 64, c = base64Digit i := by
  obtain ⟨i, _, rfl⟩ := List.mem_map.mp h
  exact ⟨_, Nat.mod_lt _ (by decide), rfl⟩

theorem base64Digit_graphic : ∀ i < 64, isAsciiGraphic (base64Digit i) = true := by decide

theorem opensshLine_fields (key : Nat) (comment : Text) :
    splitWhitespace (opensshLine key comment) = text "ssh-ed25519" ::
      sextets 68 (0x0000000b7373682d6564323535313900000020 * 2 ^ 256 + key) ::
      splitWhitespace comment := by
  have halgorithm : ∀ c ∈ text "ssh-ed25519", isWhitespace c = false := fun c hc =>
    isWhitespace_graphic (List.all_eq_true.mp (by decide +kernel) c hc)
  unfold splitWhitespace opensshLine
  rw [fields_word_append (by decide +kernel) halgorithm (by decide),
    fields_word_append (List.ne_nil_of_length_pos (by simp [sextets])) _ (by decide)]
  intro c hc
  obtain ⟨i, hi, rfl⟩ := mem_sextets hc
  exact isWhitespace_graphic (base64Digit_graphic i hi)

/-- An accepted line starts with a known key. -/
theorem sampleCrypto_line {line : Text} {key : KeyData}
    (h : sampleCrypto.fromOpenssh line = some key) :
    ∃ known comment, line = opensshLine known comment := by
  obtain ⟨known, hfind, _⟩ := Option.map_eq_some_iff.mp h
  have hprefix := List.find?_some hfind
  obtain ⟨comment, heq⟩ := List.isPrefixOf_iff_prefix.mp hprefix
  exact ⟨known, comment, by rw [← heq]; simp [opensshLine]⟩

theorem sampleCrypto_blank (line : Text) (h : trimText line = []) :
    sampleCrypto.fromOpenssh line = none := by
  cases hkey : sampleCrypto.fromOpenssh line with
  | none => rfl
  | some key =>
    obtain ⟨known, comment, rfl⟩ := sampleCrypto_line hkey
    have hfields := opensshLine_fields known comment
    rw [← splitWhitespace_trimText, h] at hfields
    cases hfields

theorem golden_accepted : fromResponse sampleCrypto golden.response sampleNow
    (some golden.signingKey) = .ok golden.bundle := by decide +kernel

theorem older_accepted : fromResponse sampleCrypto older.response sampleNow
    (some golden.signingKey) = .ok older.bundle := by decide +kernel

theorem foreign_accepted : fromResponse sampleCrypto foreign.response sampleNow none =
    .ok foreign.bundle := by decide +kernel

theorem fromResponse_accepts_valid_golden :
    ValidEnvelope sampleCrypto golden.response sampleNow (some golden.signingKey) ∧
      Carries sampleCrypto golden.response golden.bundle := by
  have h := fromResponse_accepts_valid sampleCrypto sampleCrypto_blank golden.response sampleNow
    (some golden.signingKey)
  exact ⟨h.1.mp ⟨golden.bundle, golden_accepted⟩, h.2 golden.bundle golden_accepted⟩

end MayflyAgent.BundleValidation
