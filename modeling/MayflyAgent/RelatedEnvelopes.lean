import MayflyAgent.BundleValidation

/-!
What `fromResponse` makes of two envelopes that agree in part. Envelopes with the same keys in
another order are accepted together, as the same bundle. The validator is an authentication
followed by a reading of the content, and envelopes that agree on what comes before the signature
and both fail it are rejected with one error, whatever they contain.
-/
namespace MayflyAgent.RelatedEnvelopes

open RustText KeyedSort Checks Errors Bundles BundleEncoding BundleValidation

/-- Two envelopes with the same fields and the same keys, in any order. -/
structure SameUpToKeyOrder (raw raw' : CaBundleResponse) : Prop where
  fields : raw' = { raw with keys := raw'.keys }
  keys : raw.keys.Perm raw'.keys

theorem SameUpToKeyOrder.symm {raw raw' : CaBundleResponse} (h : SameUpToKeyOrder raw raw') :
    SameUpToKeyOrder raw' raw := by
  refine ⟨?_, h.keys.symm⟩
  rw [h.fields]

theorem sortByKeyId_perm {keys keys' : List CaBundleKey} (h : keys.Perm keys')
    (hids : (keys.map CaBundleKey.keyId).Nodup) : sortByKeyId keys = sortByKeyId keys' :=
  sortByKey_eq_of_perm CaBundleKey.keyId h hids

/-- Distinct key ids are among the rules, so the sorted list of an accepted envelope does not
depend on the order received, and neither does what is signed or digested. -/
theorem fromResponse_reordered {ext : Crypto} {raw raw' : CaBundleResponse} {now : Time}
    {pin : Option Text} {bundle : CaBundle} (hsame : SameUpToKeyOrder raw raw')
    (h : fromResponse ext raw now pin = .ok bundle) :
    fromResponse ext raw' now pin = .ok bundle := by
  have hids : (raw.keys.map CaBundleKey.keyId).Nodup :=
    nodup_map_iff.mpr (fromResponse_sound h).1.distinctIds
  have hsort := sortByKeyId_perm hsame.keys hids
  have hpayload := fun version generation fingerprint created expires =>
    (canonicalSigningPayload_eq_iff version version generation generation fingerprint fingerprint
      created created expires expires raw.keys raw'.keys).mpr ⟨rfl, rfl, rfl, rfl, rfl, hsort⟩
  rw [hsame.fields]
  simp only [fromResponse, okOr_bind_eq_ok, check_bind_eq_ok, rejectIf_eq_ok, pure_eq_ok,
    checkAll_eq_ok, Bool.not_eq_true, hasEqualNeighbours_sortByKeyId,
    hasEqualNeighbours_sortByKey, List.map_id, computeFingerprint_sortByKeyId, ← hpayload,
    ← hsort, ← hsame.keys.length_eq, ← hsame.keys.mem_iff,
    ← (hsame.keys.map CaBundleKey.publicKey).nodup_iff] at h ⊢
  exact h

/-- The order of the keys in a response is irrelevant. -/
theorem key_order_irrelevant (ext : Crypto) (raw raw' : CaBundleResponse)
    (hsame : SameUpToKeyOrder raw raw') (now : Time) (pin : Option Text) :
    ((∃ bundle, fromResponse ext raw now pin = .ok bundle) ↔
      ∃ bundle, fromResponse ext raw' now pin = .ok bundle) ∧
    ∀ bundle bundle', fromResponse ext raw now pin = .ok bundle →
      fromResponse ext raw' now pin = .ok bundle' →
        bundle = bundle' ∧ renderTrustedUserCaKeys bundle = renderTrustedUserCaKeys bundle' := by
  constructor
  · constructor
    · rintro ⟨bundle, h⟩
      exact ⟨bundle, fromResponse_reordered hsame h⟩
    · rintro ⟨bundle, h⟩
      exact ⟨bundle, fromResponse_reordered hsame.symm h⟩
  · intro bundle bundle' h h'
    obtain rfl : bundle = bundle' :=
      Except.ok.inj ((fromResponse_reordered hsame h).symm.trans h')
    exact ⟨rfl, rfl⟩

/-- The vectors' bundle as a server could send it, last key first. -/
theorem key_order_irrelevant_golden :
    ∃ bundle, fromResponse sampleCrypto { golden.response with keys := golden.keys.reverse }
      sampleNow (some golden.signingKey) = .ok bundle :=
  (key_order_irrelevant sampleCrypto golden.response
    { golden.response with keys := golden.keys.reverse }
    ⟨rfl, (List.reverse_perm golden.keys).symm⟩ sampleNow (some golden.signingKey)).1.mp
    ⟨golden.bundle, golden_accepted⟩

/-- Everything checked in front of the signature: no generation, time or key is among it. -/
def checkHeader (ext : Crypto) (bundleVersion : Option UInt32) (algorithm signingKey : Option Text)
    (blankFingerprint : Prop) [Decidable blankFingerprint] (pin : Option Text) :
    Except CaBundleError UInt32 := do
  let version ← okOr bundleVersion .unsupportedVersion
  rejectIf (version ≠ supportedBundleVersion) .unsupportedVersion
  rejectIf (algorithm.getD [] ≠ Bundles.signatureAlgorithm) .unsupportedSignatureAlgorithm
  rejectIf (trimText (signingKey.getD []) = [] ∨
    validateEd25519PublicKey ext (signingKey.getD []) ≠ .ok ()) .signatureInvalid
  checkPin pin (signingKey.getD [])
  rejectIf blankFingerprint .missingFingerprint
  pure version

/-- Everything checked behind the signature. -/
def readContent (ext : Crypto) (raw : CaBundleResponse) (now : Time) (version : UInt32) :
    Except CaBundleError CaBundle := do
  rejectIf (raw.generation.getD 0 = 0) .missingGeneration
  rejectIf (raw.keys.length < minKeys) .empty
  rejectIf (raw.keys.length > maxKeys) .tooManyKeys
  checkAll (validateKey ext) raw.keys
  rejectIf (hasEqualNeighbours CaBundleKey.keyId (sortByKeyId raw.keys) = true) .duplicateKeyId
  rejectIf (hasEqualNeighbours id (sortByKey id (raw.keys.map CaBundleKey.publicKey)) = true)
    .duplicatePublicKey
  let computed := computeFingerprint ext (raw.generation.getD 0) (sortByKeyId raw.keys)
  rejectIf (fingerprintsEqual computed (raw.fingerprint.getD []) = false) .fingerprintMismatch
  let createdAt ← okOr (ext.parseRfc3339 (raw.createdAt.getD [])) .invalidTimestamp
  let expiresAt ← okOr (ext.parseRfc3339 (raw.expiresAt.getD [])) .invalidTimestamp
  rejectIf (expiresAt ≤ createdAt) .invalidTimestamp
  rejectIf (now ≥ expiresAt) .expired
  rejectIf (createdAt - now > clockSkewGrace) .notYetValid
  pure {
    bundleVersion := version
    generation := raw.generation.getD 0
    fingerprint := computed
    createdAt := createdAt
    expiresAt := expiresAt
    keys := sortByKeyId raw.keys
    signingPublicKey := raw.bundleSigningPublicKey.getD []
  }

def envelopeHeader (ext : Crypto) (raw : CaBundleResponse) (pin : Option Text) :
    Except CaBundleError UInt32 :=
  checkHeader ext raw.bundleVersion raw.signatureAlgorithm raw.bundleSigningPublicKey
    (trimText (raw.fingerprint.getD []) = []) pin

def envelopeSignature (ext : Crypto) (raw : CaBundleResponse) (version : UInt32) :
    Except CaBundleError Unit :=
  verifySignature ext (encodeUtf8 (canonicalSigningPayload version (raw.generation.getD 0)
    (raw.fingerprint.getD []) (raw.createdAt.getD []) (raw.expiresAt.getD []) raw.keys))
    (raw.signature.getD []) (raw.bundleSigningPublicKey.getD [])

theorem fromResponse_stages (ext : Crypto) (raw : CaBundleResponse) (now : Time)
    (pin : Option Text) :
    fromResponse ext raw now pin = envelopeHeader ext raw pin >>= fun version =>
      envelopeSignature ext raw version >>= fun _ => readContent ext raw now version := by
  simp only [envelopeHeader, checkHeader, bind_assoc, pure_bind]
  rfl

/-- The signature of the envelope verifies under the key in it. -/
def Authenticated (ext : Crypto) (raw : CaBundleResponse) : Prop :=
  raw.bundleVersion.isSome ∧ SignatureVerifies ext (encodeUtf8 (receivedPayload raw))
    (raw.signature.getD []) (raw.bundleSigningPublicKey.getD [])

theorem checkHeader_eq_ok {ext : Crypto} {bundleVersion : Option UInt32}
    {algorithm signingKey : Option Text} {blankFingerprint : Prop} [Decidable blankFingerprint]
    {pin : Option Text} {version : UInt32}
    (h : checkHeader ext bundleVersion algorithm signingKey blankFingerprint pin = .ok version) :
    bundleVersion = some version ∧
      ∀ expected ∈ pin, SameMaterial expected (signingKey.getD []) := by
  simp only [checkHeader, okOr_bind_eq_ok, check_bind_eq_ok, pure_eq_ok, checkPin_eq_ok] at h
  obtain ⟨_, hversion, _, _, _, hpin, _, rfl⟩ := h
  exact ⟨hversion, hpin⟩

theorem envelopeSignature_eq_ok {ext : Crypto} {raw : CaBundleResponse} {version : UInt32}
    (hversion : raw.bundleVersion = some version)
    (h : envelopeSignature ext raw version = .ok ()) : Authenticated ext raw := by
  refine ⟨by rw [hversion]; rfl, ?_⟩
  rw [envelopeSignature, verifySignature_eq_ok] at h
  rwa [receivedPayload, hversion]

/-- Whatever is wrong with a signature, the error is the same. -/
theorem verifySignature_error {ext : Crypto} {payload : Bytes} {signature signingKey : Text}
    {e : CaBundleError} (h : verifySignature ext payload signature signingKey = .error e) :
    e = .signatureInvalid := by
  by_contra hne
  have hother := Ne.symm hne
  refine bind_ne_error (okOr_ne_error hother) (fun _ => ?_) h
  refine bind_ne_error (okOr_ne_error hother) fun _ => ?_
  refine bind_ne_error (rejectIf_ne_error hother) fun _ => ?_
  refine bind_ne_error (okOr_ne_error hother) fun _ => ?_
  refine bind_ne_error (okOr_ne_error hother) fun _ => ?_
  exact rejectIf_ne_error hother

/-- The header and the signature are all that is read of an unauthenticated envelope. -/
theorem fromResponse_unauthenticated {ext : Crypto} {raw : CaBundleResponse} {now : Time}
    {pin : Option Text} (h : ¬ Authenticated ext raw) :
    fromResponse ext raw now pin =
      envelopeHeader ext raw pin >>= fun _ => .error .signatureInvalid := by
  rw [fromResponse_stages]
  cases hheader : envelopeHeader ext raw pin with
  | error e => rfl
  | ok version =>
    cases hsignature : envelopeSignature ext raw version with
    | error e =>
      obtain rfl := verifySignature_error hsignature
      exact congrArg (· >>= fun _ => readContent ext raw now version) hsignature
    | ok u => exact absurd (envelopeSignature_eq_ok (checkHeader_eq_ok hheader).1 hsignature) h

/-- The errors that tell something about the content of a bundle. -/
def aboutContent : CaBundleError → Bool
  | .missingGeneration | .empty | .tooManyKeys | .invalidKey | .duplicateKeyId
  | .duplicatePublicKey | .fingerprintMismatch | .invalidTimestamp | .expired | .notYetValid => true
  | .missingFingerprint | .unsupportedVersion | .unsupportedSignatureAlgorithm
  | .signatureInvalid | .signingKeyMismatch | .generationRegressed => false

theorem checkPin_ne_error {pin : Option Text} {signingKey : Text} {e : CaBundleError}
    (h : CaBundleError.signingKeyMismatch ≠ e) : checkPin pin signingKey ≠ .error e := by
  cases pin with
  | none => exact nofun
  | some expected => exact rejectIf_ne_error h

theorem envelopeHeader_ne_error {ext : Crypto} {raw : CaBundleResponse} {pin : Option Text}
    {e : CaBundleError} (h : aboutContent e = true) : envelopeHeader ext raw pin ≠ .error e := by
  have hother : ∀ e', aboutContent e' = false → e' ≠ e := by
    rintro e' he' rfl
    rw [h] at he'
    cases he'
  refine bind_ne_error (okOr_ne_error (hother _ rfl)) fun _ => ?_
  refine bind_ne_error (rejectIf_ne_error (hother _ rfl)) fun _ => ?_
  refine bind_ne_error (rejectIf_ne_error (hother _ rfl)) fun _ => ?_
  refine bind_ne_error (rejectIf_ne_error (hother _ rfl)) fun _ => ?_
  refine bind_ne_error (checkPin_ne_error (hother _ rfl)) fun _ => ?_
  exact bind_ne_error (rejectIf_ne_error (hother _ rfl)) fun _ => pure_ne_error

/-- Two envelopes that cannot be told apart in front of the signature. -/
structure SameHeader (raw raw' : CaBundleResponse) : Prop where
  version : raw.bundleVersion = raw'.bundleVersion
  algorithm : raw.signatureAlgorithm = raw'.signatureAlgorithm
  signingKey : raw.bundleSigningPublicKey = raw'.bundleSigningPublicKey
  fingerprint : trimText (raw.fingerprint.getD []) = [] ↔ trimText (raw'.fingerprint.getD []) = []

theorem SameHeader.envelopeHeader {raw raw' : CaBundleResponse} (h : SameHeader raw raw')
    (ext : Crypto) (pin : Option Text) :
    envelopeHeader ext raw pin = envelopeHeader ext raw' pin := by
  simp only [RelatedEnvelopes.envelopeHeader, checkHeader, rejectIf, h.version, h.algorithm,
    h.signingKey, h.fingerprint]

/-- Nothing unauthenticated is interpreted: without a verified signature the error is a function
of the header, and errors about the content mean that the signature verified under a pinned key. -/
theorem content_read_only_when_authenticated (ext : Crypto) (now : Time) (pin : Option Text) :
    (∀ raw raw', SameHeader raw raw' → ¬ Authenticated ext raw → ¬ Authenticated ext raw' →
      ∃ e, fromResponse ext raw now pin = .error e ∧ fromResponse ext raw' now pin = .error e) ∧
    ∀ raw e, fromResponse ext raw now pin = .error e → aboutContent e = true →
      Authenticated ext raw ∧
        ∀ expected ∈ pin, SameMaterial expected (raw.bundleSigningPublicKey.getD []) := by
  constructor
  · intro raw raw' hsame hraw hraw'
    rw [fromResponse_unauthenticated hraw, fromResponse_unauthenticated hraw',
      hsame.envelopeHeader ext pin]
    cases envelopeHeader ext raw' pin with
    | error e => exact ⟨e, rfl, rfl⟩
    | ok version => exact ⟨.signatureInvalid, rfl, rfl⟩
  · intro raw e h hcontent
    constructor
    · by_contra hraw
      rw [fromResponse_unauthenticated hraw] at h
      refine bind_ne_error (envelopeHeader_ne_error hcontent) (fun _ herror => ?_) h
      obtain rfl := Except.error.inj herror
      cases hcontent
    · rw [fromResponse_stages] at h
      cases hheader : envelopeHeader ext raw pin with
      | error e' =>
        rw [hheader] at h
        obtain rfl := Except.error.inj h
        exact absurd hheader (envelopeHeader_ne_error hcontent)
      | ok version => exact (checkHeader_eq_ok hheader).2

/-- The vectors' bundle with another generation and with a key taken out: one error. A month
later the bundle is expired, which is said because its signature still verifies. -/
theorem content_read_only_when_authenticated_golden :
    (∃ e, fromResponse sampleCrypto { golden.response with generation := some 0 } sampleNow
        (some golden.signingKey) = .error e ∧
      fromResponse sampleCrypto { golden.response with keys := [] } sampleNow
        (some golden.signingKey) = .error e) ∧
    Authenticated sampleCrypto golden.response := by
  have h := content_read_only_when_authenticated sampleCrypto
  constructor
  · refine (h sampleNow (some golden.signingKey)).1 _ _ ⟨rfl, rfl, rfl, Iff.rfl⟩ ?_ ?_
    · exact fun hverified => absurd (verifySignature_eq_ok.mpr hverified.2) (by decide +kernel)
    · exact fun hverified => absurd (verifySignature_eq_ok.mpr hverified.2) (by decide +kernel)
  · exact ((h (sampleNow + 2678400 * nanosPerSecond) none).2 golden.response .expired
      (by decide +kernel) rfl).1

end MayflyAgent.RelatedEnvelopes
