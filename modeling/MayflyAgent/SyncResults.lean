import MayflyAgent.SyncCourses

/-!
What the result of a pass says about the state files. An apply that was concluded has
stored its records. Where writes succeed and clock readings can be formatted, an error is
never the fault of a write: it comes before the decision or from the helper.
-/
namespace MayflyAgent.SyncResults

open RustText Programs Checks Errors Bundles BundleValidation TrustedCa StateFiles CaSync
open SyncPasses SyncCourses

variable {W : Type} (s : CaSyncService)
variable {env : Environment syncSignature W} {dir : W → StateDir} (henv : Respects env dir)
variable {w w' : W} {trace : List (SyncEvent W)}

include henv in
theorem secureWrite_ok {file : StateFile} {contents : Bytes}
    (h : Exec env (secureWrite file contents modePublic).run w trace (some (.ok ())) w') :
    dir w' = (dir w).install file contents ∧
      ∃ answer, trace = [writeEvent w w' file contents answer] := by
  rcases exec_secureWrite henv h with ⟨_, hnone, _⟩ | ⟨answer, htrace, hresult, hmove⟩
  · cases hnone
  rcases hresult with hnone | hsome
  · cases hnone
  obtain rfl := Option.some.inj hsome
  rcases hmove with hinstall | ⟨⟨_, herror⟩, _⟩
  · exact ⟨hinstall, _, htrace⟩
  · cases herror

include henv in
/-- What follows a confirmed apply stores the generation and the fingerprint. -/
theorem persistAfterApply_ok {bundle : CaBundle} {file : StateFile}
    (h : Exec env (s.persistAfterApply bundle).run w trace (some (.ok ())) w')
    (hfile : IsRecord file) : dir w' file = .regular (recordLine bundle file) := by
  have hcontents : ∀ e ∈ trace, ∀ contents mode, e.op = .secureWrite file contents mode →
      contents = recordLine bundle file := by
    intro e he contents mode hop
    have hstoring := h.event_calls (calls_persistAfterApply s bundle) e he
    rw [hop] at hstoring
    exact storing_record s hstoring hfile
  have hwritten : ∃ v v' answer, writeEvent v v' file (recordLine bundle file) answer ∈ trace ∧
      dir v' file = .regular (recordLine bundle file) := by
    obtain ⟨_, t₁, r₁, u₁, rfl, hgeneration, hstore⟩ := exec_action_bind_ok h
    obtain ⟨_, t₂, r₂, u₂, rfl, hfingerprint, hstore⟩ := exec_action_bind_ok hstore
    rcases hfile with rfl | rfl
    · obtain ⟨hdir, answer, rfl⟩ := secureWrite_ok henv hgeneration
      exact ⟨w, u₁, answer, by simp [recordLine], by rw [hdir]; exact install_same ..⟩
    · obtain ⟨hdir, answer, rfl⟩ := secureWrite_ok henv hfingerprint
      exact ⟨u₁, u₂, answer, by simp [recordLine], by rw [hdir]; exact install_same ..⟩
  obtain ⟨v, v', answer, hmem, hafter⟩ := hwritten
  exact written_sticks henv h hcontents hmem hafter

include henv in
/-- A concluded apply has stored its generation and its fingerprint. -/
theorem conclude_ok {bundle : CaBundle} {outcome : SyncOutcome} {file : StateFile}
    (h : Exec env (conclude s bundle).run w trace (some (.ok outcome)) w')
    (hfile : IsRecord file) : dir w' file = .regular (recordLine bundle file) := by
  obtain ⟨_, t, t', u, rfl, hstore, hrest⟩ := exec_action_bind_ok h
  obtain ⟨_, t₁, t₂, u₁, rfl, hack, hdone⟩ := exec_action_bind_ok hrest
  obtain ⟨_, rfl, _⟩ := exec_pure hdone
  rw [acknowledging_files henv hack (hack.event_calls (calls_acknowledge s _))]
  exact persistAfterApply_ok s henv hstore hfile

theorem acknowledge_error {report : AckReport} {e : Error}
    (h : Exec env (s.acknowledge report).run w trace (some (.error e)) w') : False := by
  rcases exec_action_bind_error h with h | ⟨_, _, _, _, _, _, h⟩
  · rcases exec_attempt h with ⟨hnone, _⟩ | ⟨_, hnone | hok, _⟩
    · cases hnone
    · cases hnone
    · cases hok
  · obtain ⟨_, _, hnone | hok⟩ := exec_pure h
    · cases hnone
    · cases hok

include henv in
theorem persistPin_error {bundle : CaBundle} {e : Error}
    (h : Exec env (s.persistPinIfNeeded bundle).run w trace (some (.error e)) w')
    (hreadable : dir w .signingKey ≠ .unreadable) : ¬ Clean s trace := by
  intro hclean
  rcases exec_persistPin s henv h with ⟨_, _, hnone | ⟨hok, _⟩ | ⟨_, _, hunreadable⟩⟩ |
    ⟨_, _, v, first, answer, rfl, _, hnone | hanswer, _⟩
  · cases hnone
  · cases hok
  · exact hreadable hunreadable
  · cases hnone
  · have hok := hclean.writes _ _ _ _ _ (List.mem_append_right first (List.mem_singleton_self _))
    rw [hok] at hanswer
    cases hanswer

include henv in
/-- With working writes an apply that was confirmed is concluded. -/
theorem conclude_error {bundle : CaBundle} {e : Error}
    (h : Exec env (conclude s bundle).run w trace (some (.error e)) w')
    (hreadable : dir w .signingKey ≠ .unreadable) : ¬ Clean s trace := by
  intro hclean
  rcases exec_action_bind_error h with h | ⟨_, _, _, _, rfl, _, h⟩
  · rcases exec_action_bind_error h with h | ⟨_, t₁, r₁, u₁, rfl, hgeneration, h⟩
    · exact secureWrite_clean s henv h hclean
    rcases exec_action_bind_error h with h | ⟨_, t₂, r₂, u₂, rfl, hfingerprint, h⟩
    · exact secureWrite_clean s henv h (hclean.append s).2
    have hpin : dir u₂ .signingKey ≠ .unreadable := by
      rw [(secureWrite_ok henv hfingerprint).1, install_other _ _ (by decide),
        (secureWrite_ok henv hgeneration).1, install_other _ _ (by decide)]
      exact hreadable
    have hrest := ((hclean.append s).2.append s).2
    rcases exec_action_bind_error h with h | ⟨_, t₃, r₃, u₃, rfl, _, h⟩
    · exact persistPin_error s henv h hpin hrest
    · exact writeTimestamp_clean s henv h (hrest.append s).2
  · rcases exec_action_bind_error h with h | ⟨_, _, _, _, _, _, h⟩
    · exact acknowledge_error s h
    · obtain ⟨_, _, hnone | hok⟩ := exec_pure h
      · cases hnone
      · cases hok

include henv in
theorem notModified_error {persisted : PersistedState} {e : Error}
    (h : Exec env (settle s persisted .notModified).run w trace (some (.error e)) w') :
    ¬ Clean s trace := by
  intro hclean
  rcases exec_action_bind_error h with h | ⟨_, _, _, _, _, _, h⟩
  · exact writeTimestamp_clean s henv h hclean
  · obtain ⟨_, _, hnone | hok⟩ := exec_pure h
    · cases hnone
    · cases hok

include henv in
theorem unchanged_error {persisted : PersistedState} {bundle : CaBundle} {e : Error}
    (h : Exec env (settle s persisted (.unchanged bundle)).run w trace (some (.error e)) w')
    (hreadable : dir w .signingKey ≠ .unreadable) : ¬ Clean s trace := by
  intro hclean
  rcases exec_action_bind_error h with h | ⟨_, _, _, _, rfl, _, h⟩
  · exact persistPin_error s henv h hreadable hclean
  rcases exec_action_bind_error h with h | ⟨_, _, _, _, _, _, h⟩
  · exact writeTimestamp_clean s henv h (hclean.append s).2
  · obtain ⟨_, _, hnone | hok⟩ := exec_pure h
    · cases hnone
    · cases hok

theorem load_readable {d : StateDir} {persisted : PersistedState} (h : d.load = .ok persisted) :
    d .signingKey ≠ .unreadable := by
  intro hunreadable
  have hread := (load_eq_ok.mp h).2.2
  rw [StateDir.readString, hunreadable] at hread
  cases hread

theorem decides_readable {head : List (SyncEvent W)} {v : W} {persisted : PersistedState}
    {response : HttpResponse} {decision : Decision}
    (h : Decides s env dir w head v persisted response decision) :
    dir v .signingKey ≠ .unreadable := by
  rw [h.files .signingKey (by decide)]
  exact load_readable h.load

include henv in
/-- With working writes a complete pass is quiet, or has concluded what was confirmed. -/
theorem complete_concludes {result : Option (Except Error SyncOutcome)}
    (h : Exec env s.synchronize.run w trace result w') (hclean : Clean s trace)
    (hcomplete : result ≠ none) :
    Quiet trace ∨ ∃ head rest v v' persisted response bundle outcome,
      trace = head ++ applyEvent v v' (renderTrustedUserCaKeys bundle) (.ok .applied) :: rest ∧
      Decides s env dir w head v persisted response (.apply bundle) ∧
      env v (.apply (renderTrustedUserCaKeys bundle)) (.ok .applied) v' ∧
      (∀ e ∈ rest, IsStoring s bundle e.op) ∧ result = some (.ok outcome) ∧
      Exec env (conclude s bundle).run v' rest (some (.ok outcome)) w' := by
  rcases (exec_course s henv h).confirms with hquiet | ⟨head, rest, v, v', persisted, response,
    bundle, rfl, hdecides, hmoves, hops, hconclude⟩
  · exact Or.inl hquiet
  right
  cases result with
  | none => exact absurd rfl hcomplete
  | some result =>
    cases result with
    | ok outcome =>
      exact ⟨head, rest, v, v', persisted, response, bundle, outcome, rfl, hdecides, hmoves, hops,
        rfl, hconclude⟩
    | error e =>
      have hreadable := decides_readable s hdecides
      rw [← henv _ _ _ _ hmoves] at hreadable
      exact absurd ((hclean.append s).2.tail s)
        (conclude_error s henv hconclude hreadable)

include henv in
theorem error_quiet {e : Error}
    (h : Exec env s.synchronize.run w trace (some (.error e)) w') (hclean : Clean s trace) :
    Quiet trace := by
  rcases complete_concludes s henv h hclean (by simp) with
    hquiet | ⟨_, _, _, _, _, _, _, _, _, _, _, _, hok, _⟩
  · exact hquiet
  · cases hok

include henv in
/-- A pass with working writes that fails has only recorded its attempt. -/
theorem error_keeps_files {e : Error}
    (h : Exec env s.synchronize.run w trace (some (.error e)) w') (hclean : Clean s trace)
    {file : StateFile} (hfile : file ≠ .lastSync) : dir w' file = dir w file := by
  have hquiet := error_quiet s henv h hclean
  cases exec_course s henv h with
  | failed ops files => exact files file hfile
  | notModified decides ops settles =>
    exact absurd (hclean.append s).2 (notModified_error s henv settles)
  | unchanged decides ops settles =>
    exact absurd (hclean.append s).2 (unchanged_error s henv settles (decides_readable s decides))
  | unasked decides => exact decides.files file hfile
  | applied decides moves ops concludes =>
    exact absurd ⟨_, _, List.mem_append_right _ (List.mem_cons_self ..)⟩ (hquiet.unconfirmed _)
  | declined decides moves refuses ops files =>
    rw [files, henv _ _ _ _ moves]
    exact decides.files file hfile

/-- The outcome of a pass that settled its decision. -/
def Reports (persisted : PersistedState) : Decision → SyncOutcome → Prop
  | .notModified, outcome => outcome = .notModified (persisted.generation.getD 0)
  | .unchanged bundle, outcome => outcome = .unchanged bundle.generation
  | .apply bundle, outcome =>
    ∃ acknowledged, outcome = .updated bundle.generation bundle.fingerprint acknowledged

/-- An apply that was settled well was confirmed and concluded. -/
theorem settle_apply_ok {persisted : PersistedState} {bundle : CaBundle} {outcome : SyncOutcome}
    (h : Exec env (settle s persisted (.apply bundle)).run w trace (some (.ok outcome)) w') :
    ∃ v rest, trace = applyEvent w v (renderTrustedUserCaKeys bundle) (.ok .applied) :: rest ∧
      Exec env (conclude s bundle).run v rest (some (.ok outcome)) w' := by
  rcases exec_settle_apply s h with
    ⟨_, _, hnone | ⟨_, herror, _⟩⟩ | ⟨v, rest, answer, rfl, hanswered⟩
  · cases hnone
  · cases herror
  by_cases hconfirmed : answer = .ok .applied
  · subst hconfirmed
    exact ⟨v, rest, rfl, hanswered⟩
  · obtain ⟨_, hnone | ⟨_, herror⟩⟩ := exec_answered_refused s hconfirmed hanswered
    · cases hnone
    · cases herror

theorem settle_reports {persisted : PersistedState} {decision : Decision} {outcome : SyncOutcome}
    (h : Exec env (settle s persisted decision).run w trace (some (.ok outcome)) w') :
    Reports persisted decision outcome := by
  have hpure : ∀ {reported : SyncOutcome} {t v v'},
      Exec env (pure reported : SyncAction SyncOutcome).run v t (some (.ok outcome)) v' →
      outcome = reported := by
    intro reported t v v' h
    obtain ⟨_, _, hnone | hok⟩ := exec_pure h
    · cases hnone
    · exact Except.ok.inj (Option.some.inj hok)
  cases decision with
  | notModified =>
    obtain ⟨_, _, _, _, _, _, hdone⟩ := exec_action_bind_ok h
    exact hpure hdone
  | unchanged bundle =>
    obtain ⟨_, _, _, _, _, _, h⟩ := exec_action_bind_ok h
    obtain ⟨_, _, _, _, _, _, hdone⟩ := exec_action_bind_ok h
    exact hpure hdone
  | apply bundle =>
    obtain ⟨_, _, _, h⟩ := settle_apply_ok s h
    obtain ⟨_, _, _, _, _, _, h⟩ := exec_action_bind_ok h
    obtain ⟨acknowledged, _, _, _, _, _, hdone⟩ := exec_action_bind_ok h
    exact ⟨acknowledged, hpure hdone⟩

include henv in
/-- A pass that succeeded has settled a decision and reports it. -/
theorem ok_settles {outcome : SyncOutcome}
    (h : Exec env s.synchronize.run w trace (some (.ok outcome)) w') :
    ∃ head rest v persisted response decision, trace = head ++ rest ∧
      Decides s env dir w head v persisted response decision ∧
      Exec env (settle s persisted decision).run v rest (some (.ok outcome)) w' ∧
      Reports persisted decision outcome := by
  rw [synchronize_eq] at h
  obtain ⟨⟨persisted, decision⟩, head, rest, v, rfl, hsurvey, hsettle⟩ := exec_action_bind_ok h
  obtain ⟨response, hdecides⟩ := survey_decides s henv hsurvey
  exact ⟨head, rest, v, persisted, response, decision, rfl, hdecides, hsettle,
    settle_reports s hsettle⟩

include henv in
/-- A pass that reports an update has stored the records of a bundle it applied. -/
theorem updated_stored {generation : UInt64} {fingerprint : Text} {acknowledged : Bool}
    (h : Exec env s.synchronize.run w trace
      (some (.ok (.updated generation fingerprint acknowledged))) w') :
    ∃ bundle, Applied s trace bundle ∧ bundle.generation = generation ∧
      bundle.fingerprint = fingerprint ∧
      ∀ file, IsRecord file → dir w' file = .regular (recordLine bundle file) := by
  obtain ⟨head, rest, v, persisted, response, decision, rfl, hdecides, hsettle, hreports⟩ :=
    ok_settles s henv h
  cases decision with
  | notModified => cases hreports
  | unchanged bundle => cases hreports
  | apply bundle =>
    obtain ⟨_, hreported⟩ := hreports
    obtain ⟨rfl, rfl, _⟩ := SyncOutcome.updated.inj hreported
    obtain ⟨v', rest, rfl, hconclude⟩ := settle_apply_ok s hsettle
    exact ⟨bundle, hdecides.applied s rest, rfl, rfl,
      fun file hfile => conclude_ok s henv hconclude hfile⟩

theorem refused_mono {persisted : PersistedState} {response : HttpResponse}
    {trace trace' : List (SyncEvent W)} (h : Refused s persisted response trace)
    (hsub : ∀ e ∈ trace, e ∈ trace') : Refused s persisted response trace' := by
  rcases h with hstatus | hraw | ⟨raw, v, now, v', e, hsuccess, hraw, hnow, hbundle⟩ | hregressed
  · exact Or.inl hstatus
  · exact Or.inr (Or.inl hraw)
  · exact Or.inr (Or.inr (Or.inl ⟨raw, v, now, v', e, hsuccess, hraw, hsub _ hnow, hbundle⟩))
  · obtain ⟨bundle, v, now, v', hnow, haccepts, hlower⟩ := hregressed
    exact Or.inr (Or.inr (Or.inr ⟨bundle, v, now, v', hsub _ hnow, haccepts, hlower⟩))

/-- The files, the keypair, the server, the response, the rendering or the helper. -/
inductive Obstacle (dir : W → StateDir) (w : W) (trace : List (SyncEvent W)) : Prop
  | unloadable (e : Error) (h : (dir w).load = .error e)
  | unsigned (message : Bytes) (h : s.client.sign message = none)
  | unanswered {v v' : W} {request : HttpRequest} {e : Error}
      (h : getEvent v v' request (.error e) ∈ trace)
  | refused {v v' : W} {persisted : PersistedState} {response : HttpResponse}
      {signed : SignedHeaders} (load : (dir w).load = .ok persisted)
      (fetched :
        getEvent v v' (s.bundleRequest signed persisted.fingerprint) (.ok response) ∈ trace)
      (h : Refused s persisted response trace)
  | unparsed {pin : Option Text} {bundle : CaBundle} {e : Error}
      (offered : Offered s trace pin bundle)
      (h : TrustedCaKeys.parse (renderTrustedUserCaKeys bundle) = .error e)
  | unapplied {v v' : W} {contents : Text} {answer : Except Error BundleApplyOutcome}
      (asked : applyEvent v v' contents answer ∈ trace) (h : answer ≠ .ok .applied)

include henv in
theorem survey_error {e : Error}
    (h : Exec env (survey s).run w trace (some (.error e)) w') (hclean : Clean s trace) :
    Obstacle s dir w trace := by
  rcases exec_action_bind_error h with h | ⟨persisted, t₁, r₁, u₁, rfl, hload, h⟩
  · obtain ⟨_, hnone | hloaded⟩ := reads_loadState henv _ _ _ _ h
    · cases hnone
    · exact Obstacle.unloadable e (Option.some.inj hloaded).symm
  obtain ⟨_, hnone | hloaded⟩ := reads_loadState henv _ _ _ _ hload
  · cases hnone
  have hpersisted := (Option.some.inj hloaded).symm
  rcases exec_action_bind_error h with h | ⟨response, t₂, r₂, u₂, rfl, hfetch, h⟩
  · rcases exec_fetchBundle s h with ⟨_, hnone | ⟨_, _, message, hmessage⟩⟩ |
      ⟨first, signed, v, answer, rfl, _, hnone | hanswer⟩
    · cases hnone
    · exact Obstacle.unsigned message hmessage
    · cases hnone
    · obtain rfl := Option.some.inj hanswer
      exact Obstacle.unanswered
        (List.mem_append_right _ (List.mem_append_right _ (List.mem_singleton_self _)))
  have hrest := ((hclean.append s).2.append s).2
  rcases exec_action_bind_error h with h | ⟨_, t₃, r₃, u₃, rfl, _, h⟩
  · exact absurd hrest (writeTimestamp_clean s henv h)
  rcases exec_action_bind_error h with h | ⟨_, _, _, _, _, _, h⟩
  · obtain ⟨_, hnone | ⟨_, _, hrefused⟩ | ⟨_, hok, _⟩⟩ := exec_decideOn s h
    · cases hnone
    · obtain ⟨first, signed, v, rfl, _⟩ := fetchBundle_ok s hfetch
      have hget := List.mem_append_right first (List.mem_singleton_self
        (getEvent v u₂ (s.bundleRequest signed persisted.fingerprint) (.ok response)))
      exact Obstacle.refused hpersisted (List.mem_append_right _ (List.mem_append_left _ hget))
        (refused_mono s hrefused fun e he => by simp [he])
    · cases hok
  · obtain ⟨_, _, hnone | hok⟩ := exec_pure h
    · cases hnone
    · cases hok

include henv in
/-- A pass with working writes fails on one of the obstacles only. -/
theorem error_obstacle {e : Error}
    (h : Exec env s.synchronize.run w trace (some (.error e)) w') (hclean : Clean s trace) :
    Obstacle s dir w trace := by
  have hquiet := error_quiet s henv h hclean
  cases exec_course s henv h with
  | failed ops files run => exact survey_error s henv run hclean
  | notModified decides ops settles =>
    exact absurd (hclean.append s).2 (notModified_error s henv settles)
  | unchanged decides ops settles =>
    exact absurd (hclean.append s).2 (unchanged_error s henv settles (decides_readable s decides))
  | unasked decides hresult =>
    rcases hresult with hnone | ⟨e, _, hparse⟩
    · cases hnone
    · exact Obstacle.unparsed decides.offered hparse
  | applied decides moves ops concludes =>
    exact absurd ⟨_, _, List.mem_append_right _ (List.mem_cons_self ..)⟩ (hquiet.unconfirmed _)
  | declined decides moves refuses =>
    exact Obstacle.unapplied (List.mem_append_right _ (List.mem_cons_self ..)) refuses

end MayflyAgent.SyncResults
