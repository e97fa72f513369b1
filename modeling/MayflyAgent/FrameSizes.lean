import MayflyAgent.BundleRendering
import MayflyAgent.Helper
import Mathlib.Data.Nat.Digits.Defs

/-!
How large an apply request gets. A rendered file has four header lines and at most sixty-four key
lines, and JSON makes at most two bytes of a character in them. So a rendering takes up a small
part of a frame, whatever the public keys it was made from look like.
-/
namespace MayflyAgent.FrameSizes

open RustText Programs Checks Errors Bundles BundleEncoding BundleValidation TrustedCa
open BundleRendering Helper

/-- The bytes of a text in a JSON string. -/
def escapedBytes (s : Text) : Nat := byteLength (jsonEscape s)

/-- The characters of a base64 blob, a number or a digest. -/
def Plain (word : Text) : Prop := ∀ c ∈ word, isAsciiGraphic c = true ∧ c ≠ '"' ∧ c ≠ '\\'

theorem byteLength_append (s t : Text) : byteLength (s ++ t) = byteLength s + byteLength t := by
  rw [byteLength, encodeUtf8_append, List.length_append]
  rfl

theorem escapedBytes_append (s t : Text) :
    escapedBytes (s ++ t) = escapedBytes s + escapedBytes t := by
  rw [escapedBytes, jsonEscape, List.flatMap_append, byteLength_append]
  rfl

theorem escapedBytes_flatMap_le {α : Type} {f : α → Text} {bound : Nat} {l : List α}
    (h : ∀ a ∈ l, escapedBytes (f a) ≤ bound) :
    escapedBytes (l.flatMap f) ≤ l.length * bound := by
  induction l with
  | nil => exact Nat.zero_le _
  | cons a l ih =>
    have hhead := h a (List.mem_cons_self ..)
    have htail := ih fun b hb => h b (List.mem_cons_of_mem _ hb)
    rw [List.flatMap_cons, escapedBytes_append, List.length_cons, Nat.add_mul]
    omega

theorem graphic_bounds {c : Char} (h : isAsciiGraphic c = true) :
    33 ≤ c.toNat ∧ c.toNat ≤ 126 := by
  simpa only [isAsciiGraphic, Bool.and_eq_true, decide_eq_true_eq] using h

theorem escapedBytes_plain {word : Text} (h : Plain word) : escapedBytes word = word.length := by
  have hself : jsonEscape word = word := by
    induction word with
    | nil => rfl
    | cons c word ih =>
      obtain ⟨⟨hgraphic, hquote, hslash⟩, hrest⟩ := List.forall_mem_cons.mp h
      have hlow := (graphic_bounds hgraphic).1
      rw [jsonEscape] at ih ⊢
      rw [List.flatMap_cons, ih hrest, escapeChar_printable (by omega) hquote hslash]
      rfl
  rw [escapedBytes, hself, byteLength_ascii]
  intro c hc
  have hhigh := (graphic_bounds (h c hc).1).2
  omega

theorem escapedBytes_singleton {c : Char} (h : isAsciiGraphic c = true) :
    escapedBytes [c] ≤ 2 := by
  by_cases hquote : c = '"'
  · subst hquote
    decide
  by_cases hslash : c = '\\'
  · subst hslash
    decide
  have hplain : Plain [c] := List.forall_mem_singleton.mpr ⟨h, hquote, hslash⟩
  rw [escapedBytes_plain hplain]
  exact Nat.le_succ 1

/-- Only quotes and backslashes grow, by one byte each. -/
theorem escapedBytes_printable {word : Text} (h : Printable word) :
    escapedBytes word ≤ 2 * word.length := by
  have hchars : escapedBytes (word.flatMap fun c => [c]) ≤ word.length * 2 :=
    escapedBytes_flatMap_le fun c hc => escapedBytes_singleton (h c hc)
  rw [List.flatMap_singleton'] at hchars
  omega

theorem plain_decimal (n : Nat) : Plain (decimal n) := by
  intro c hc
  have hdigit := isDigit_decimal hc
  refine ⟨isAsciiGraphic_digit hdigit, ?_, ?_⟩
  all_goals
    rintro rfl
    exact absurd hdigit (by decide)

theorem escapedBytes_decimal (n : UInt64) : escapedBytes (decimal n.toNat) ≤ 20 := by
  rw [escapedBytes_plain (plain_decimal _)]
  have hlt := n.toNat_lt
  exact Nat.toDigits_length 10 _ 20 (by omega) (by omega)

theorem plain_base64 {blob : Text} (h : PaddedBase64 blob) : Plain blob := by
  have hgraphic := h.graphic
  obtain ⟨body, padding, rfl, _, hbody, _, _⟩ := h
  intro c hc
  refine ⟨hgraphic c hc, ?_, ?_⟩
  all_goals
    rintro rfl
    rcases List.mem_append.mp hc with hletter | hpad
    · exact absurd (hbody _ hletter) (by decide)
    · exact absurd (List.eq_of_mem_replicate hpad) (by decide)

theorem length_hexEncode (b : Bytes) : (hexEncode b).length = 2 * b.length := by
  simp [hexEncode, Nat.mul_comm]

/-- A digest in hexadecimal behind its prefix. -/
theorem escapedBytes_fingerprint (ext : Crypto) (generation : UInt64) (keys : List CaBundleKey) :
    escapedBytes (computeFingerprint ext generation keys) ≤ 2 * 71 := by
  have hbound := escapedBytes_printable (computeFingerprint_printable ext generation keys)
  have hprefix : fingerprintPrefix.length = 7 := by decide +kernel
  have hlength : (computeFingerprint ext generation keys).length = 71 := by
    rw [computeFingerprint, List.length_append, length_hexEncode, Vector.length_toList, hprefix]
  rwa [hlength] at hbound

/-- The longest rendered line: the algorithm, a blob, the prefix of the comment and a key id of
quotes, with the escaped line feed. -/
theorem escapedBytes_keyLine {key : CaBundleKey} (hid : ValidKeyId key.keyId)
    (hblob : ∃ blob rest, splitWhitespace key.publicKey = text "ssh-ed25519" :: blob :: rest ∧
      PaddedBase64 blob ∧ blob.length = 68) :
    escapedBytes (renderKeyLine key ++ ['\n']) ≤ 218 := by
  obtain ⟨blob, rest, hfields, hpadded, hlength⟩ := hblob
  have hline : renderKeyLine key =
      text "ssh-ed25519" ++ [' '] ++ blob ++ text " mayfly:" ++ key.keyId := by
    simp [renderKeyLine, hfields]
  have halgorithm : escapedBytes (text "ssh-ed25519") = 11 := by decide +kernel
  have hspace : escapedBytes [' '] = 1 := by decide +kernel
  have hprefix : escapedBytes (text " mayfly:") = 8 := by decide +kernel
  have hfeed : escapedBytes ['\n'] = 2 := by decide +kernel
  have hkeyId := escapedBytes_printable hid.printable
  have hshort := hid.short
  rw [hline]
  simp only [escapedBytes_append, escapedBytes_plain (plain_base64 hpadded), hlength, halgorithm,
    hspace, hprefix, hfeed]
  omega

section Accepted

variable {ext : Crypto}
  (hline : ∀ line, validateEd25519PublicKey ext line = .ok () →
    ∃ blob rest, splitWhitespace line = text "ssh-ed25519" :: blob :: rest ∧
      PaddedBase64 blob ∧ blob.length = 68)
  {raw : CaBundleResponse} {now : Time} {pin : Option Text} {bundle : CaBundle}

include hline

/-- Sixty-four lines and the header. -/
theorem escapedBytes_rendering (h : fromResponse ext raw now pin = .ok bundle) :
    escapedBytes (renderTrustedUserCaKeys bundle) ≤ 14400 := by
  obtain ⟨hvalid, hcarries⟩ := fromResponse_sound h
  have hkeys : escapedBytes (bundle.keys.flatMap fun key => renderKeyLine key ++ ['\n']) ≤
      bundle.keys.length * 218 := by
    refine escapedBytes_flatMap_le fun key hkey => ?_
    have hmem : key ∈ raw.keys := hcarries.members.mem_iff.mp hkey
    exact escapedBytes_keyLine (hvalid.keyIds key hmem) (hline _ (hvalid.publicKeys key hmem))
  have hcount : bundle.keys.length ≤ 64 := hcarries.members.length_eq ▸ hvalid.bounded
  have hversion : escapedBytes (decimal bundle.bundleVersion.toNat) = 1 := by
    rw [hcarries.version]
    decide +kernel
  have hgeneration := escapedBytes_decimal bundle.generation
  have hfingerprint := escapedBytes_fingerprint ext bundle.generation bundle.keys
  rw [← hcarries.computed] at hfingerprint
  have hmanaged : escapedBytes (text "# Managed by mayfly-agent. DO NOT EDIT.\n") = 41 := by
    decide +kernel
  have hversionName : escapedBytes (text "# bundle_version: ") = 18 := by decide +kernel
  have hgenerationName : escapedBytes (text "# generation: ") = 14 := by decide +kernel
  have hfingerprintName : escapedBytes (text "# fingerprint: ") = 15 := by decide +kernel
  have hfeed : escapedBytes ['\n'] = 2 := by decide +kernel
  simp only [renderTrustedUserCaKeys, escapedBytes_append, hversion, hmanaged, hversionName,
    hgenerationName, hfingerprintName, hfeed]
  omega

end Accepted

theorem byteLength_jsonString (s : Text) : byteLength (jsonString s) = escapedBytes s + 2 := by
  have hquote : byteLength ['"'] = 1 := by decide
  have hsplit : jsonString s = ['"'] ++ (jsonEscape s ++ ['"']) := rfl
  rw [hsplit, byteLength_append, byteLength_append, hquote, escapedBytes]
  omega

/-- The parts of an apply request around its two strings. -/
theorem length_encodedApply (token content : Text) :
    (encodeUtf8 (requestJson (Request.apply token content))).length =
      escapedBytes token + escapedBytes content + 75 := by
  have hstart : byteLength (text "\x7b\"protocol_version\":" ++ decimal protocolVersion.toNat ++
      text ",\"token\":") = 30 := by decide +kernel
  have hmiddle : byteLength (text ",\"op\":" ++ jsonString Operation.applyTrustedCaKeys.name) =
      29 := by decide +kernel
  have hcontent : byteLength (text ",\"content\":") = 11 := by decide +kernel
  have hclose : byteLength ['\x7d'] = 1 := by decide +kernel
  change byteLength (text "\x7b\"protocol_version\":" ++ decimal protocolVersion.toNat ++
    text ",\"token\":" ++ jsonString token ++ text ",\"op\":" ++
    jsonString Operation.applyTrustedCaKeys.name ++ (text ",\"content\":" ++ jsonString content) ++
    ['\x7d']) = _
  simp only [byteLength_append, byteLength_jsonString] at hstart hmiddle ⊢
  omega

/-- A body within the limit is not refused for its size, wherever it is written to. -/
theorem writeFrame_fits {W : Type} {env : Environment helperSignature W} {body : Bytes}
    (h : body.length ≤ maxBodyBytes) : Avoids env .helperProtocol (writeFrame body) := by
  have hfits : tryFromU32 body.length = some (UInt32.ofNat body.length) := by
    have hsmall : maxBodyBytes < 2 ^ 32 := by decide
    exact if_pos (by omega)
  have hwrite : ∀ bytes, Avoids env .helperProtocol (writeAll bytes) := fun bytes =>
    avoids_perform_bind fun _ _ _ _ => avoids_ofExcept (okOr_ne_error nofun)
  rw [writeFrame, if_neg (Nat.not_lt.mpr h), hfits]
  refine Avoids.bind (avoids_ofExcept nofun) fun len => ?_
  refine Avoids.bind (hwrite _) fun _ => Avoids.bind (hwrite _) fun _ => ?_
  exact avoids_perform_bind fun _ _ _ _ => avoids_ofExcept (okOr_ne_error nofun)

/-- Every accepted bundle fits the frame of the helper, next to any token of up to a million
bytes. -/
theorem accepted_bundle_fits_frame (ext : Crypto)
    (hline : ∀ line, validateEd25519PublicKey ext line = .ok () →
      ∃ blob rest, splitWhitespace line = text "ssh-ed25519" :: blob :: rest ∧
        PaddedBase64 blob ∧ blob.length = 68)
    (raw : CaBundleResponse) (now : Time) (pin : Option Text) (bundle : CaBundle)
    (h : fromResponse ext raw now pin = .ok bundle) :
    byteLength (jsonString (renderTrustedUserCaKeys bundle)) ≤ 32 * 1024 ∧
    ∀ token, byteLength (jsonEscape token) ≤ 1000000 → ∃ body,
      encodeRequest compactJson (Request.apply token (renderTrustedUserCaKeys bundle)) = .ok body ∧
      body.length ≤ maxBodyBytes ∧
      ∀ (W : Type) (env : Environment helperSignature W),
        Avoids env .helperProtocol (writeFrame body) := by
  have hrendering := escapedBytes_rendering hline h
  refine ⟨?_, fun token htoken => ⟨_, rfl, ?_⟩⟩
  · rw [byteLength_jsonString]
    omega
  have hbody : (encodeUtf8 (requestJson (Request.apply token
      (renderTrustedUserCaKeys bundle)))).length ≤ maxBodyBytes := by
    rw [length_encodedApply, escapedBytes, maxBodyBytes]
    omega
  exact ⟨hbody, fun W env => writeFrame_fits hbody⟩

theorem sampleCrypto_blobs (line : Text)
    (h : validateEd25519PublicKey sampleCrypto line = .ok ()) :
    ∃ blob rest, splitWhitespace line = text "ssh-ed25519" :: blob :: rest ∧
      PaddedBase64 blob ∧ blob.length = 68 := by
  obtain ⟨blob, rest, hfields, hpadded⟩ := sampleCrypto_lines line h
  obtain ⟨known, comment, rfl⟩ := sampleCrypto_validated h
  have hsame := hfields.symm.trans (opensshLine_fields known comment)
  obtain ⟨hblob, _⟩ := List.cons.inj (List.cons.inj hsame).2
  exact ⟨blob, rest, hfields, hpadded, by simp [hblob, sextets]⟩

theorem accepted_bundle_fits_frame_golden :
    byteLength (jsonString (renderTrustedUserCaKeys golden.bundle)) ≤ 32 * 1024 ∧ ∃ body,
      encodeRequest compactJson
        (Request.apply (text "mayfly-token") (renderTrustedUserCaKeys golden.bundle)) = .ok body ∧
      body.length ≤ maxBodyBytes := by
  obtain ⟨hrendering, hfits⟩ := accepted_bundle_fits_frame sampleCrypto sampleCrypto_blobs
    golden.response sampleNow (some golden.signingKey) golden.bundle golden_accepted
  obtain ⟨body, hencoded, hlength, _⟩ := hfits (text "mayfly-token") (by decide +kernel)
  exact ⟨hrendering, body, hencoded, hlength⟩

end MayflyAgent.FrameSizes
