import MayflyAgent.Bundles

/-!
The canonical encodings can be read in one way only. An escaped character tells
where it ends, an escaped string ends at the first bare quote, a number at the
first symbol that is not a digit, and the keys array at its bracket. What a
signature or a fingerprint covers is therefore one list of keys, up to the order
that sorting by key id removes.
-/
namespace MayflyAgent.BundleEncoding

open RustText Codes KeyedSort Bundles

def hexValue (c : Char) : Nat := if c.isDigit then c.toNat - 48 else c.toNat - 87

/-- One escaped character in front of any text. -/
def readEscaped : Text → Option (Char × Text)
  | '\\' :: 'u' :: a :: b :: c :: d :: rest =>
    some (Char.ofNat (((hexValue a * 16 + hexValue b) * 16 + hexValue c) * 16 + hexValue d), rest)
  | '\\' :: 'n' :: rest => some ('\n', rest)
  | '\\' :: 'r' :: rest => some ('\r', rest)
  | '\\' :: 't' :: rest => some ('\t', rest)
  | '\\' :: 'b' :: rest => some (Char.ofNat 0x08, rest)
  | '\\' :: 'f' :: rest => some (Char.ofNat 0x0c, rest)
  | '\\' :: c :: rest => some (c, rest)
  | c :: rest => some (c, rest)
  | [] => none

private theorem readEscaped_control (rest : Text) (n : Nat) (hn : n < 32) :
    readEscaped (escapeChar (Char.ofNat n) ++ rest) = some (Char.ofNat n, rest) := by
  interval_cases n <;> rfl

theorem escapeChar_printable {c : Char} (hc : 32 ≤ c.toNat) (hquote : c ≠ '"')
    (hslash : c ≠ '\\') : escapeChar c = [c] := by
  have hn : c ≠ '\n' := fun h => absurd (h ▸ hc) (by decide)
  have hr : c ≠ '\r' := fun h => absurd (h ▸ hc) (by decide)
  have ht : c ≠ '\t' := fun h => absurd (h ▸ hc) (by decide)
  have hb : c ≠ Char.ofNat 0x08 := fun h => absurd (h ▸ hc) (by decide)
  have hf : c ≠ Char.ofNat 0x0c := fun h => absurd (h ▸ hc) (by decide)
  simp only [escapeChar, hquote, hslash, hn, hr, ht, hb, hf, if_false, Nat.not_lt.mpr hc]

theorem readEscaped_escapeChar (c : Char) (rest : Text) :
    readEscaped (escapeChar c ++ rest) = some (c, rest) := by
  by_cases hc : c.toNat < 32
  · have h := readEscaped_control rest c.toNat hc
    rwa [Char.ofNat_toNat] at h
  by_cases hquote : c = '"'
  · subst hquote
    rfl
  by_cases hslash : c = '\\'
  · subst hslash
    rfl
  rw [escapeChar_printable (by omega) hquote hslash]
  unfold readEscaped
  split <;> simp_all

theorem escapeChar_delimited : Delimited escapeChar :=
  delimited_of_read readEscaped readEscaped_escapeChar

private theorem escapeChar_head_control (n : Nat) (hn : n < 32) :
    ∃ x rest, escapeChar (Char.ofNat n) = x :: rest ∧ x ≠ '"' := by
  interval_cases n <;> exact ⟨_, _, rfl, by decide⟩

/-- A bare quote never starts an escaped character. -/
theorem escapeChar_head (c : Char) : ∃ x rest, escapeChar c = x :: rest ∧ x ≠ '"' := by
  by_cases hc : c.toNat < 32
  · have h := escapeChar_head_control c.toNat hc
    rwa [Char.ofNat_toNat] at h
  by_cases hquote : c = '"'
  · subst hquote
    exact ⟨_, _, rfl, by decide⟩
  by_cases hslash : c = '\\'
  · subst hslash
    exact ⟨_, _, rfl, by decide⟩
  exact ⟨c, [], escapeChar_printable (by omega) hquote hslash, hquote⟩

theorem jsonEscape_delimited : Delimited fun s => jsonEscape s ++ ['"'] :=
  escapeChar_delimited.list escapeChar_head

/-- An escaped string in front of a separator that starts with its closing quote. -/
theorem jsonEscape_closed {s t r u sep : Text} (hsep : sep.head? = some '"')
    (h : jsonEscape s ++ (sep ++ r) = jsonEscape t ++ (sep ++ u)) : s = t ∧ r = u := by
  obtain ⟨rest, rfl⟩ := List.head?_eq_some_iff.mp hsep
  obtain ⟨hst, hrest⟩ := jsonEscape_delimited s t (rest ++ r) (rest ++ u) (by simpa using h)
  exact ⟨hst, List.append_cancel_left hrest⟩

theorem decimal_closed {m n : Nat} {r u sep : Text} (hsep : sep.head? = some ',')
    (h : decimal m ++ (sep ++ r) = decimal n ++ (sep ++ u)) : m = n ∧ r = u := by
  obtain ⟨rest, rfl⟩ := List.head?_eq_some_iff.mp hsep
  have hcomma : Delimited fun n => decimal n ++ [','] := decimal_delimited (by decide)
  obtain ⟨hmn, hrest⟩ := hcomma m n (rest ++ r) (rest ++ u) (by simpa using h)
  exact ⟨hmn, List.append_cancel_left hrest⟩

theorem keyObject_delimited : Delimited keyObject := by
  intro a b r s h
  simp only [keyObject, List.append_assoc] at h
  obtain ⟨hid, h⟩ := jsonEscape_closed (by decide +kernel) (List.append_cancel_left h)
  obtain ⟨hkey, h⟩ := jsonEscape_closed (by decide +kernel) h
  refine ⟨?_, h⟩
  cases a
  cases b
  rw [CaBundleKey.mk.injEq]
  exact ⟨hid, hkey⟩

/-- From the second key on, every object comes after a comma. -/
private theorem zipIdx_objects (sorted : List CaBundleKey) (k : Nat) (hk : 0 < k) :
    ((sorted.zipIdx k).flatMap fun (key, i) => (if i > 0 then [','] else []) ++ keyObject key) =
      sorted.flatMap fun key => ',' :: keyObject key := by
  induction sorted generalizing k with
  | nil => rfl
  | cons key sorted ih =>
    rw [List.zipIdx_cons, List.flatMap_cons, List.flatMap_cons, ih (k + 1) (by omega)]
    simp [hk]

theorem appendKeysArray_eq (sorted : List CaBundleKey) :
    appendKeysArray sorted = '[' :: (separated ',' keyObject sorted ++ [']']) := by
  cases sorted with
  | nil => rfl
  | cons key sorted =>
    simp only [appendKeysArray, List.zipIdx_cons, List.flatMap_cons, separated]
    rw [zipIdx_objects sorted (0 + 1) (by omega)]
    simp

theorem appendKeysArray_delimited : Delimited appendKeysArray := by
  have hhead : ∀ key, ∃ x rest, keyObject key = x :: rest ∧ x ≠ ']' := by
    intro key
    refine ⟨'{', (keyObject key).tail, ?_, by decide⟩
    simp [keyObject, text]
  have hitems := keyObject_delimited.separated ',' hhead (by decide)
  intro a b r s h
  rw [appendKeysArray_eq, appendKeysArray_eq] at h
  exact hitems a b r s (List.cons.inj h).2

theorem canonicalJson_eq_iff (generation generation' : UInt64) (keys keys' : List CaBundleKey) :
    canonicalJson generation keys = canonicalJson generation' keys' ↔
      generation = generation' ∧ sortByKeyId keys = sortByKeyId keys' := by
  constructor
  · intro h
    simp only [canonicalJson, List.append_assoc] at h
    obtain ⟨hgeneration, h⟩ := decimal_closed (by decide +kernel) (List.append_cancel_left h)
    obtain ⟨hkeys, _⟩ := appendKeysArray_delimited _ _ _ _ h
    exact ⟨UInt64.toNat_inj.mp hgeneration, hkeys⟩
  · rintro ⟨rfl, hkeys⟩
    simp only [canonicalJson, hkeys]

theorem canonicalSigningPayload_eq_iff (bundleVersion bundleVersion' : UInt32)
    (generation generation' : UInt64) (fingerprint fingerprint' createdAt createdAt' : Text)
    (expiresAt expiresAt' : Text) (keys keys' : List CaBundleKey) :
    canonicalSigningPayload bundleVersion generation fingerprint createdAt expiresAt keys =
        canonicalSigningPayload bundleVersion' generation' fingerprint' createdAt' expiresAt'
          keys' ↔
      bundleVersion = bundleVersion' ∧ generation = generation' ∧ fingerprint = fingerprint' ∧
        createdAt = createdAt' ∧ expiresAt = expiresAt' ∧
        sortByKeyId keys = sortByKeyId keys' := by
  constructor
  · intro h
    simp only [canonicalSigningPayload, List.append_assoc] at h
    obtain ⟨hversion, h⟩ := decimal_closed (by decide +kernel) (List.append_cancel_left h)
    obtain ⟨hcreated, h⟩ := jsonEscape_closed (by decide +kernel) h
    obtain ⟨hexpires, h⟩ := jsonEscape_closed (by decide +kernel) h
    obtain ⟨hfingerprint, h⟩ := jsonEscape_closed (by decide +kernel) h
    obtain ⟨hgeneration, h⟩ := decimal_closed (by decide +kernel) h
    obtain ⟨hkeys, _⟩ := appendKeysArray_delimited _ _ _ _ h
    exact ⟨UInt32.toNat_inj.mp hversion, UInt64.toNat_inj.mp hgeneration, hfingerprint,
      hcreated, hexpires, hkeys⟩
  · rintro ⟨rfl, rfl, rfl, rfl, rfl, hkeys⟩
    simp only [canonicalSigningPayload, hkeys]

theorem sortByKeyId_eq_of_members {keys keys' : List CaBundleKey}
    (hkeys : (keys.map CaBundleKey.keyId).Nodup) (hkeys' : (keys'.map CaBundleKey.keyId).Nodup)
    (hmem : ∀ key, key ∈ keys ↔ key ∈ keys') : sortByKeyId keys = sortByKeyId keys' := by
  have hperm : keys.Perm keys' :=
    (List.perm_ext_iff_of_nodup hkeys.of_map hkeys'.of_map).mpr hmem
  exact sortByKey_eq_of_perm CaBundleKey.keyId hperm hkeys

/-- Equal signed texts and equal fingerprinted texts come from equal envelopes, up to
the sorting of the keys; distinct key ids make the texts depend on the set of keys. -/
theorem canonical_encodings_unambiguous :
    (∀ (v v' : UInt32) (g g' : UInt64) (f f' c c' e e' : Text) (ks ks' : List CaBundleKey),
      canonicalSigningPayload v g f c e ks = canonicalSigningPayload v' g' f' c' e' ks' ↔
        v = v' ∧ g = g' ∧ f = f' ∧ c = c' ∧ e = e' ∧ sortByKeyId ks = sortByKeyId ks') ∧
    (∀ (g g' : UInt64) (ks ks' : List CaBundleKey),
      canonicalJson g ks = canonicalJson g' ks' ↔
        g = g' ∧ sortByKeyId ks = sortByKeyId ks') ∧
    ∀ (v : UInt32) (g : UInt64) (f c e : Text) (ks ks' : List CaBundleKey),
      (ks.map CaBundleKey.keyId).Nodup → (ks'.map CaBundleKey.keyId).Nodup →
      (∀ key, key ∈ ks ↔ key ∈ ks') →
        canonicalSigningPayload v g f c e ks = canonicalSigningPayload v g f c e ks' ∧
          canonicalJson g ks = canonicalJson g ks' := by
  refine ⟨?_, canonicalJson_eq_iff, ?_⟩
  · intro v v' g g' f f' c c' e e' ks ks'
    exact canonicalSigningPayload_eq_iff v v' g g' f f' c c' e e' ks ks'
  · intro v g f c e ks ks' hks hks' hmem
    have hsort := sortByKeyId_eq_of_members hks hks' hmem
    refine ⟨?_, (canonicalJson_eq_iff g g ks ks').mpr ⟨rfl, hsort⟩⟩
    exact (canonicalSigningPayload_eq_iff v v g g f f c c e e ks ks').mpr
      ⟨rfl, rfl, rfl, rfl, rfl, hsort⟩

/-- Two keys in either order, one of them with an id that imitates the layout. -/
theorem canonical_encodings_unambiguous_swap :
    let a : CaBundleKey := ⟨text "ca-02\",\"public_key\":\"", text "ssh-ed25519 BBBB"⟩
    let b : CaBundleKey := ⟨text "ca-01", text "ssh-ed25519 AAAA"⟩
    canonicalSigningPayload 1 42 [] [] [] [a, b] = canonicalSigningPayload 1 42 [] [] [] [b, a] ∧
      canonicalJson 42 [a, b] = canonicalJson 42 [b, a] := by
  intro a b
  apply canonical_encodings_unambiguous.2.2
  · decide +kernel
  · decide +kernel
  · intro key
    simp only [List.mem_cons, List.not_mem_nil, or_false]
    exact or_comm

end MayflyAgent.BundleEncoding
