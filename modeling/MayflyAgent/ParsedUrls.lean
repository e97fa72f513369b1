import MayflyAgent.Configs

/-!
What is relied on of the URL parser of the HTTP client, which reads the schemes `http` and `https`
as browsers do. The parser itself is a parameter, and what it takes for the host or for the path of
a text is its own affair. Only what a slash at the end of a text means to it is used.
-/
namespace MayflyAgent.ParsedUrls

open RustText
open Enrollment (stripPrefix)
open Configs (stripPrefix_eq_some)

structure ParsedUrl where
  scheme : Text
  host : Option Text
  path : Text
  query : Option Text
  fragment : Option Text
  deriving DecidableEq

/-- Text at the end of a URL belongs to the last of its parts. -/
def ParsedUrl.extend (u : ParsedUrl) (s : Text) : ParsedUrl :=
  match u.fragment, u.query with
  | some fragment, _ => { u with fragment := some (fragment ++ s) }
  | none, some query => { u with query := some (query ++ s) }
  | none, none => { u with path := u.path ++ s }

theorem extend_scheme (u : ParsedUrl) (s : Text) : (u.extend s).scheme = u.scheme := by
  unfold ParsedUrl.extend
  split <;> rfl

theorem extend_host (u : ParsedUrl) (s : Text) : (u.extend s).host = u.host := by
  unfold ParsedUrl.extend
  split <;> rfl

/-- A URL that ends with its path. -/
def ParsedUrl.EndsWithPath (u : ParsedUrl) : Prop := u.query = none ∧ u.fragment = none

theorem extend_path {u : ParsedUrl} (s : Text) (h : u.EndsWithPath) :
    (u.extend s).path = u.path ++ s := by
  unfold ParsedUrl.extend
  rw [h.1, h.2]

/-- Behind a query or a fragment nothing reaches the path. -/
theorem extend_same_path {u : ParsedUrl} (s : Text) (h : ¬ u.EndsWithPath) :
    (u.extend s).path = u.path := by
  unfold ParsedUrl.extend
  split
  · rfl
  · rfl
  · rename_i hfragment hquery
    exact absurd ⟨hquery, hfragment⟩ h

def IsHttp (url : Text) : Prop := ∃ rest, url = text "https:" ++ rest ∨ url = text "http:" ++ rest

theorem IsHttp.append {url : Text} (h : IsHttp url) (s : Text) : IsHttp (url ++ s) := by
  obtain ⟨rest, rfl | rfl⟩ := h
  · exact ⟨rest ++ s, Or.inl (List.append_assoc ..)⟩
  · exact ⟨rest ++ s, Or.inr (List.append_assoc ..)⟩

/-- Characters that no part behind the host escapes, and no dots, which a path resolves. -/
def isPlain (c : Char) : Bool := c == '/' || c == '-' || c.isLower || c.isDigit

/-- How the parser deals with slashes. Those in front of the host are read over, and the first one
behind it ends it. -/
structure ReadsUrls (parse : Text → Option ParsedUrl) : Prop where
  /-- A slash at the end of a URL stands behind its host, so text behind the slash goes to the last
  part. -/
  append : ∀ t u s, IsHttp t → (∀ c ∈ s, isPlain c = true) → parse (t ++ ['/']) = some u →
    parse (t ++ '/' :: s) = some (u.extend s)
  /-- A path that is longer than what stands behind a slash begins with that slash or in front of
  it, and the host is in front of both. -/
  cut : ∀ t v s, IsHttp t → (∀ c ∈ s, isPlain c = true) → parse (t ++ '/' :: s) = some v →
    s.length < v.path.length → ∃ u, parse (t ++ ['/']) = some u
  /-- The scheme and the host do not depend on a slash at the end. -/
  slash : ∀ t u, IsHttp t → parse (t ++ ['/']) = some u →
    ∃ v, parse t = some v ∧ v.scheme = u.scheme ∧ v.host = u.host
  host : ∀ t u, IsHttp t → parse t = some u → ∃ name, u.host = some name ∧ name ≠ []

/-! A parser for plain URLs with the scheme `https`, which reads these as the HTTP client does. -/

/-- What is more than a host, a port and a path. -/
def isReserved (c : Char) : Bool := c == '?' || c == '#' || c == '\\' || c == '@' || c == '['

def sampleHost (rest : Text) : Text :=
  (rest.takeWhile fun c => c != '/').takeWhile fun c => c != ':'

def samplePath (rest : Text) : Text :=
  match rest.dropWhile fun c => c != '/' with
  | [] => ['/']
  | path => path

def sampleUrl (rest : Text) : ParsedUrl where
  scheme := text "https"
  host := some (sampleHost rest)
  path := samplePath rest
  query := none
  fragment := none

def sampleParse (url : Text) : Option ParsedUrl :=
  (stripPrefix (text "https://") url).bind fun rest =>
    if rest.any isReserved = true ∨ sampleHost rest = [] then none else some (sampleUrl rest)

theorem sampleParse_eq_some {url : Text} {u : ParsedUrl} :
    sampleParse url = some u ↔ ∃ rest, url = text "https://" ++ rest ∧
      rest.any isReserved = false ∧ sampleHost rest ≠ [] ∧ u = sampleUrl rest := by
  unfold sampleParse
  rw [Option.bind_eq_some_iff]
  refine exists_congr fun rest => and_congr stripPrefix_eq_some ?_
  split
  · rename_i hbad
    refine iff_of_false nofun fun ⟨hplain, hhost, _⟩ => ?_
    rcases hbad with hreserved | hnone
    · exact absurd (hplain.symm.trans hreserved) nofun
    · exact hhost hnone
  · rename_i hgood
    obtain ⟨hplain, hhost⟩ := not_or.mp hgood
    refine ⟨fun h => ⟨Bool.eq_false_iff.mpr hplain, hhost, (Option.some.inj h).symm⟩, ?_⟩
    rintro ⟨_, _, rfl⟩
    rfl

theorem sampleHost_slash (r s : Text) : sampleHost (r ++ '/' :: s) = sampleHost r := by
  have htake : (r ++ '/' :: s).takeWhile (fun c => c != '/') =
      r.takeWhile fun c => c != '/' := by
    rw [List.takeWhile_append]
    split
    · rename_i hlength
      rw [List.takeWhile_cons_of_neg (by decide), List.append_nil]
      exact ((List.takeWhile_prefix _).eq_of_length hlength).symm
    · rfl
  rw [sampleHost, sampleHost, htake]

theorem samplePath_slash (r s : Text) :
    samplePath (r ++ '/' :: s) = samplePath (r ++ ['/']) ++ s := by
  have hdrop : ∀ s, (r ++ '/' :: s).dropWhile (fun c => c != '/') =
      (r.dropWhile fun c => c != '/') ++ '/' :: s := by
    intro s
    rw [List.dropWhile_append]
    split
    · rename_i hempty
      rw [List.isEmpty_iff.mp hempty, List.dropWhile_cons_of_neg (by decide), List.nil_append]
    · rfl
  unfold samplePath
  rw [hdrop, hdrop]
  cases r.dropWhile fun c => c != '/' with
  | nil => rfl
  | cons c tail => simp

theorem samplePath_length {rest : Text} (h : sampleHost rest ≠ []) :
    (samplePath rest).length ≤ rest.length := by
  unfold samplePath
  split
  · refine List.length_pos_iff.mpr fun hnil => h ?_
    rw [hnil]
    rfl
  · exact (List.dropWhile_suffix _).length_le

theorem plain_reserved {s : Text} (h : ∀ c ∈ s, isPlain c = true) : s.any isReserved = false := by
  refine List.any_eq_false.mpr fun c hc hreserved => ?_
  have hplain := h c hc
  simp only [isReserved, Bool.or_eq_true, beq_iff_eq] at hreserved
  rcases hreserved with (((rfl | rfl) | rfl) | rfl) | rfl <;> exact absurd hplain (by decide)

/-- A slash that the sample parser accepts at the end of a URL stands behind the scheme. -/
theorem sampleParse_slash {t : Text} {u : ParsedUrl} (h : sampleParse (t ++ ['/']) = some u) :
    ∃ r, t = text "https://" ++ r ∧ r.any isReserved = false ∧ sampleHost r ≠ [] ∧
      u = sampleUrl (r ++ ['/']) := by
  obtain ⟨rest, hurl, hplain, hhost, rfl⟩ := sampleParse_eq_some.mp h
  rcases List.append_eq_append_iff.mp hurl with ⟨gap, _, hslash⟩ | ⟨r, rfl, rfl⟩
  · exfalso
    cases gap with
    | nil =>
      obtain rfl : ['/'] = rest := hslash
      exact hhost rfl
    | cons c gap =>
      obtain rfl : rest = [] := by
        have hempty := (List.cons.inj hslash).2
        exact (List.append_eq_nil_iff.mp hempty.symm).2
      exact hhost rfl
  · rw [List.any_append, Bool.or_eq_false_iff] at hplain
    rw [sampleHost_slash] at hhost
    exact ⟨r, rfl, hplain.1, hhost, rfl⟩

theorem sampleParse_reads : ReadsUrls sampleParse where
  append := by
    intro t u s _ hs h
    obtain ⟨r, rfl, hplain, hhost, rfl⟩ := sampleParse_slash h
    refine sampleParse_eq_some.mpr ⟨r ++ '/' :: s, List.append_assoc .., ?_, ?_, ?_⟩
    · rw [List.any_append, List.any_cons, hplain, plain_reserved hs]
      rfl
    · rwa [sampleHost_slash]
    · simp only [sampleUrl, ParsedUrl.extend, sampleHost_slash, samplePath_slash r s]
  cut := by
    intro t v s _ hs h hlength
    obtain ⟨rest, hurl, hplain, hhost, rfl⟩ := sampleParse_eq_some.mp h
    rcases List.append_eq_append_iff.mp hurl with ⟨gap, hscheme, hslash⟩ | ⟨r, rfl, rfl⟩
    · -- The host is part of what was appended, so the path is shorter.
      exfalso
      have hpath : (samplePath rest).length ≤ rest.length := samplePath_length hhost
      have hlonger : s.length < (samplePath rest).length := hlength
      have hsum := congrArg List.length hslash
      rw [List.length_append, List.length_cons] at hsum
      have hgap : gap = [] := List.length_eq_zero_iff.mp (by omega)
      subst hgap
      have hrest : '/' :: s = rest := hslash
      exact hhost (hrest ▸ rfl)
    · rw [List.any_append, Bool.or_eq_false_iff] at hplain
      rw [sampleHost_slash] at hhost
      refine ⟨_, sampleParse_eq_some.mpr ⟨r ++ ['/'], List.append_assoc .., ?_, ?_, rfl⟩⟩
      · rw [List.any_append, hplain.1]
        rfl
      · rwa [sampleHost_slash]
  slash := by
    intro t u _ h
    obtain ⟨r, rfl, hplain, hhost, rfl⟩ := sampleParse_slash h
    refine ⟨_, sampleParse_eq_some.mpr ⟨r, rfl, hplain, hhost, rfl⟩, rfl, ?_⟩
    simp only [sampleUrl, sampleHost_slash]
  host := by
    intro t u _ h
    obtain ⟨rest, _, _, hhost, rfl⟩ := sampleParse_eq_some.mp h
    exact ⟨_, rfl, hhost⟩

end MayflyAgent.ParsedUrls
