import MayflyAgent.Words
import MayflyAgent.Codes
import Mathlib.Data.Char
import Mathlib.Tactic.IntervalCases
import Mathlib.Tactic.NormNum

/-!
Rust strings and byte vectors. A string is the list of its characters, a byte
vector the list of its bytes; UTF-8 goes back and forth between them. The
character classes, the number formats and the number parser are those of the
standard library and of the hex crate.
-/
namespace MayflyAgent.RustText

open Words Codes

abbrev Text := List Char

abbrev Bytes := List UInt8

/-- The characters of a string literal. -/
@[irreducible] def text (literal : String) : Text := literal.toList

/-- `char::is_whitespace`: the Unicode property White_Space. -/
def isWhitespace (c : Char) : Bool :=
  (9 ≤ c.toNat && c.toNat ≤ 13) || c.toNat == 32 || c.toNat == 0x85 || c.toNat == 0xa0 ||
    c.toNat == 0x1680 || (0x2000 ≤ c.toNat && c.toNat ≤ 0x200a) || c.toNat == 0x2028 ||
    c.toNat == 0x2029 || c.toNat == 0x202f || c.toNat == 0x205f || c.toNat == 0x3000

/-- `char::is_control`: the Unicode category Cc. -/
def isControl (c : Char) : Bool := c.toNat < 32 || (127 ≤ c.toNat && c.toNat < 160)

/-- `char::is_ascii_graphic`. -/
def isAsciiGraphic (c : Char) : Bool := 33 ≤ c.toNat && c.toNat ≤ 126

def trimText (s : Text) : Text := trim isWhitespace s

def splitWhitespace (s : Text) : List Text := fields isWhitespace s

/-- `str::as_bytes`. -/
def encodeUtf8 (s : Text) : Bytes := s.flatMap String.utf8EncodeChar

/-- `String::from_utf8`. -/
def decodeUtf8 (b : Bytes) : Option Text := b.toByteArray.utf8Decode?.map Array.toList

/-- `str::len` counts bytes. -/
def byteLength (s : Text) : Nat := (encodeUtf8 s).length

/-- `to_string` of an unsigned integer. -/
def decimal (n : Nat) : Text := Nat.toDigits 10 n

/-- `str::parse::<u64>`: an optional plus sign, then digits that fit. -/
def parseU64 (s : Text) : Option UInt64 :=
  let digits := match s with
    | '+' :: rest => rest
    | _ => s
  if digits.isEmpty || !digits.all Char.isDigit then none
  else if Nat.ofDigitChars 10 digits 0 < 2 ^ 64 then
    some (UInt64.ofNat (Nat.ofDigitChars 10 digits 0))
  else none

/-- `hex::encode`: two lowercase digits a byte. -/
def hexEncode (b : Bytes) : Text :=
  b.flatMap fun x => [Nat.digitChar (x.toNat / 16), Nat.digitChar (x.toNat % 16)]

/-- The format `{:04x}`. -/
def lowerHex4 (n : Nat) : Text := (Nat.toDigits 16 n).leftpad 4 '0'

theorem decodeUtf8_encodeUtf8 (s : Text) : decodeUtf8 (encodeUtf8 s) = some s := by
  have h := List.utf8Decode?_utf8Encode (l := s)
  rw [List.utf8Encode] at h
  rw [decodeUtf8, encodeUtf8, h]
  rfl

theorem encodeUtf8_injective : Function.Injective encodeUtf8 := by
  intro s t h
  have hdecode := congrArg decodeUtf8 h
  simpa [decodeUtf8_encodeUtf8] using hdecode

theorem encodeUtf8_append (s t : Text) : encodeUtf8 (s ++ t) = encodeUtf8 s ++ encodeUtf8 t :=
  List.flatMap_append

/-- ASCII characters are their own single byte. -/
theorem encodeUtf8_ascii {s : Text} (h : ∀ c ∈ s, c.toNat < 128) :
    encodeUtf8 s = s.map fun c => UInt8.ofNat c.toNat := by
  induction s with
  | nil => rfl
  | cons c s ih =>
    have hc : c.val.toNat ≤ 0x7f := Nat.le_of_lt_succ (h c (List.mem_cons_self ..))
    have htail := ih fun d hd => h d (List.mem_cons_of_mem _ hd)
    rw [encodeUtf8] at htail ⊢
    rw [List.flatMap_cons, List.map_cons, htail, String.utf8EncodeChar, if_pos hc]
    rfl

theorem byteLength_ascii {s : Text} (h : ∀ c ∈ s, c.toNat < 128) : byteLength s = s.length := by
  rw [byteLength, encodeUtf8_ascii h, List.length_map]

theorem trimText_newline (s : Text) : trimText (s ++ ['\n']) = trimText s :=
  trim_concat_sep s (by decide)

theorem splitWhitespace_trimText (s : Text) :
    splitWhitespace (trimText s) = splitWhitespace s := fields_trim s

theorem trimText_eq_self {s : Text} (h : ∀ c ∈ s, isWhitespace c = false) : trimText s = s := by
  apply trim_eq_self
  · exact fun c hc => h c (List.mem_of_mem_head? hc)
  · exact fun c hc => h c (List.mem_of_mem_getLast? hc)

theorem isDigit_decimal {n : Nat} {c : Char} (h : c ∈ decimal n) : c.isDigit = true :=
  Nat.isDigit_of_mem_toDigits (by decide) (by decide) h

theorem toNat_of_isDigit {c : Char} (h : c.isDigit = true) : 48 ≤ c.toNat ∧ c.toNat ≤ 57 := by
  simp only [Char.isDigit, Bool.and_eq_true, decide_eq_true_eq] at h
  exact ⟨UInt32.le_iff_toNat_le.mp h.1, UInt32.le_iff_toNat_le.mp h.2⟩

theorem isWhitespace_graphic {c : Char} (h : isAsciiGraphic c = true) :
    isWhitespace c = false := by
  simp only [isAsciiGraphic, Bool.and_eq_true, decide_eq_true_eq] at h
  simp only [isWhitespace, Bool.or_eq_false_iff, Bool.and_eq_false_iff, decide_eq_false_iff_not,
    beq_eq_false_iff_ne]
  omega

theorem isControl_graphic {c : Char} (h : isAsciiGraphic c = true) : isControl c = false := by
  simp only [isAsciiGraphic, Bool.and_eq_true, decide_eq_true_eq] at h
  simp only [isControl, Bool.or_eq_false_iff, Bool.and_eq_false_iff, decide_eq_false_iff_not]
  omega

theorem isAsciiGraphic_digit {c : Char} (h : c.isDigit = true) : isAsciiGraphic c = true := by
  have := toNat_of_isDigit h
  simp only [isAsciiGraphic, Bool.and_eq_true, decide_eq_true_eq]
  omega

theorem decimal_injective : Function.Injective decimal := by
  intro m n h
  have hdigits := congrArg (fun l => Nat.ofDigitChars 10 l 0) h
  simpa [decimal, Nat.ofDigitChars_ten_toDigits] using hdigits

theorem decimal_ne_nil (n : Nat) : decimal n ≠ [] := Nat.toDigits_ne_nil

/-- Decimal numbers followed by a symbol that is not a digit can be read back. -/
theorem decimal_delimited {stop : Char} (h : stop.isDigit = false) :
    Delimited fun n => decimal n ++ [stop] := by
  apply delimited_stop decimal_injective
  intro n hmem
  rw [isDigit_decimal hmem] at h
  exact Bool.noConfusion h

theorem trimText_decimal (n : Nat) : trimText (decimal n) = decimal n :=
  trimText_eq_self fun _ hc => isWhitespace_graphic (isAsciiGraphic_digit (isDigit_decimal hc))

theorem parseU64_decimal (g : UInt64) : parseU64 (decimal g.toNat) = some g := by
  have hplus : ∀ rest, decimal g.toNat ≠ '+' :: rest := by
    intro rest h
    have := isDigit_decimal (n := g.toNat) (c := '+') (by rw [h]; exact List.mem_cons_self ..)
    exact absurd this (by decide)
  have hall : (decimal g.toNat).all Char.isDigit = true :=
    List.all_eq_true.mpr fun c hc => isDigit_decimal hc
  have hempty : (decimal g.toNat).isEmpty = false :=
    List.isEmpty_eq_false_iff.mpr (decimal_ne_nil _)
  have hvalue : Nat.ofDigitChars 10 (decimal g.toNat) 0 = g.toNat :=
    Nat.ofDigitChars_ten_toDigits
  unfold parseU64
  split
  · rename_i rest h
    exact absurd h (hplus rest)
  · simp only [hempty, hall, hvalue, Bool.not_true, Bool.or_self, Bool.false_eq_true, if_false]
    rw [if_pos g.toNat_lt, UInt64.ofNat_toNat]

private theorem digitChar_lt_sixteen : ∀ n, n < 16 →
    isAsciiGraphic (Nat.digitChar n) = true ∧
      ∀ m, m < 16 → Nat.digitChar m = Nat.digitChar n → m = n := by decide

theorem isAsciiGraphic_hexEncode {b : Bytes} {c : Char} (h : c ∈ hexEncode b) :
    isAsciiGraphic c = true := by
  simp only [hexEncode, List.mem_flatMap, List.mem_cons, List.not_mem_nil, or_false] at h
  obtain ⟨x, _, rfl | rfl⟩ := h
  · have := x.toNat_lt
    exact (digitChar_lt_sixteen _ (by omega)).1
  · exact (digitChar_lt_sixteen _ (by omega)).1

theorem hexEncode_injective : Function.Injective hexEncode := by
  intro a
  induction a with
  | nil =>
    intro b h
    cases b with
    | nil => rfl
    | cons y b => simp [hexEncode] at h
  | cons x a ih =>
    intro b h
    cases b with
    | nil => simp [hexEncode] at h
    | cons y b =>
      simp only [hexEncode, List.flatMap_cons, List.cons_append, List.nil_append,
        List.cons.injEq] at h
      obtain ⟨hhigh, hlow, hrest⟩ := h
      have hx := x.toNat_lt
      have hy := y.toNat_lt
      have h1 := (digitChar_lt_sixteen (y.toNat / 16) (by omega)).2 (x.toNat / 16) (by omega) hhigh
      have h2 := (digitChar_lt_sixteen (y.toNat % 16) (by omega)).2 (x.toNat % 16) (by omega) hlow
      have hxy : x = y := UInt8.toNat_inj.mp (by omega)
      rw [hxy, ih hrest]

/-! `str::lines`: pieces ending with a line feed, without it and without a
carriage return right before it; the last piece may lack the line feed. -/

def stripCarriageReturn (line : Text) : Text :=
  if line.getLast? = some '\r' then line.dropLast else line

def linesFrom : Text → Text → List Text
  | piece, [] => if piece.isEmpty then [] else [piece]
  | piece, c :: rest =>
    if c = '\n' then stripCarriageReturn piece :: linesFrom [] rest
    else linesFrom (piece ++ [c]) rest

def lines (s : Text) : List Text := linesFrom [] s

private theorem linesFrom_append (piece line rest : Text) (h : '\n' ∉ line) :
    linesFrom piece (line ++ '\n' :: rest) =
      stripCarriageReturn (piece ++ line) :: lines rest := by
  induction line generalizing piece with
  | nil => simp [linesFrom, lines]
  | cons c line ih =>
    simp only [List.mem_cons, not_or] at h
    have hc : c ≠ '\n' := Ne.symm h.1
    rw [List.cons_append, linesFrom, if_neg hc, ih _ h.2, List.append_assoc]
    rfl

theorem lines_line {line : Text} (rest : Text) (h : '\n' ∉ line)
    (hcr : line.getLast? ≠ some '\r') : lines (line ++ '\n' :: rest) = line :: lines rest := by
  rw [lines, linesFrom_append [] line rest h, List.nil_append, stripCarriageReturn, if_neg hcr]

/-- A text of whole lines falls back into these lines. -/
theorem lines_flatMap (pieces : List Text)
    (h : ∀ line ∈ pieces, ∀ c ∈ line, isControl c = false) :
    lines (pieces.flatMap fun line => line ++ ['\n']) = pieces := by
  induction pieces with
  | nil => rfl
  | cons line pieces ih =>
    have hline := h line (List.mem_cons_self ..)
    have hfeed : '\n' ∉ line := fun hmem => absurd (hline _ hmem) (by decide)
    have hreturn : line.getLast? ≠ some '\r' := fun hlast =>
      absurd (hline _ (List.mem_of_mem_getLast? hlast)) (by decide)
    rw [List.flatMap_cons, List.append_assoc, List.singleton_append, lines_line _ hfeed hreturn,
      ih fun l hl => h l (List.mem_cons_of_mem _ hl)]

end MayflyAgent.RustText
