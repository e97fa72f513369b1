import MayflyAgent.SuccessfulPasses

/-!
A pass that receives again what an earlier pass succeeded with. The records and the pin that the
earlier pass left are read back as the values of the bundle, under three rules: a decimal number,
a trimmed text, and a line compared by its key material. So the bundle is accepted again and is
no news: the pass changes none of these files, and neither the helper nor the server hears of it.
-/
namespace MayflyAgent.Resynchronization

open RustText Programs Checks Errors Bundles BundleValidation TrustedCa StateFiles CaSync
open SyncPasses SyncCourses SyncProgress SyncRuns SyncResults Acknowledgements SuccessfulPasses

variable (s : CaSyncService)

/-- The bundle may be accepted at this time. -/
def InWindow (bundle : CaBundle) (now : Time) : Prop :=
  bundle.createdAt - 60 * nanosPerSecond ≤ now ∧ now < bundle.expiresAt

/-- An accepted envelope is accepted again inside its window, under any pin with its key. -/
theorem fromResponse_again {ext : Crypto} {raw : CaBundleResponse} {now now' : Time}
    {pin pin' : Option Text} {bundle : CaBundle} (h : fromResponse ext raw now pin = .ok bundle)
    (hwindow : InWindow bundle now')
    (hpin : ∀ expected ∈ pin', SameMaterial expected bundle.signingPublicKey) :
    fromResponse ext raw now' pin' = .ok bundle := by
  simp only [fromResponse, okOr_bind_eq_ok, check_bind_eq_ok, rejectIf_eq_ok, pure_eq_ok,
    checkPin_eq_ok] at h ⊢
  obtain ⟨version, hversion, hsupported, halgorithm, hline, _, hfingerprint, hsignature,
    hgeneration, hmin, hmax, hkeys, hids, hpublic, hcomputed, created, hcreated, expires,
    hexpires, horder, _, _, rfl⟩ := h
  exact ⟨version, hversion, hsupported, halgorithm, hline, hpin, hfingerprint, hsignature,
    hgeneration, hmin, hmax, hkeys, hids, hpublic, hcomputed, created, hcreated, expires,
    hexpires, horder, not_le.mpr hwindow.2, not_lt.mpr (Int.sub_le_of_sub_le hwindow.1), rfl⟩

/-- The state that a success with the bundle leaves: the next pass takes the bundle for known. -/
structure Knows (dir : StateDir) (bundle : CaBundle) : Prop where
  generation : dir.readGeneration = .ok (some bundle.generation)
  fingerprint : dir.readString .fingerprint = .ok (some bundle.fingerprint)
  pin : ∃ signingKey, dir.readString .signingKey = .ok signingKey ∧
    ∀ expected ∈ s.pinnedSigningKey.or signingKey, SameMaterial expected bundle.signingPublicKey
  present : s.pinnedSigningKey ≠ none ∨ dir .signingKey ≠ .missing

theorem Knows.load {dir : StateDir} {bundle : CaBundle} (h : Knows s dir bundle)
    {persisted : PersistedState} (hload : dir.load = .ok persisted) :
    persisted.generation = some bundle.generation ∧
      persisted.fingerprint = some bundle.fingerprint ∧
      ∀ expected ∈ s.expectedSigningKey persisted,
        SameMaterial expected bundle.signingPublicKey := by
  obtain ⟨hgeneration, hfingerprint, hkey⟩ := load_eq_ok.mp hload
  obtain ⟨signingKey, hread, hpin⟩ := h.pin
  obtain rfl : signingKey = persisted.signingKey := Except.ok.inj (hread.symm.trans hkey)
  exact ⟨Except.ok.inj (hgeneration.symm.trans h.generation),
    Except.ok.inj (hfingerprint.symm.trans h.fingerprint), hpin⟩

theorem succeeds_knows
    (hline : ∀ line, validateEd25519PublicKey s.client.toCrypto line = .ok () →
      ∃ fields, material line = some fields) {q : SyncPass StateDir} {bundle : CaBundle}
    (h : Exec hostile s.synchronize.run q.before q.trace q.result q.after)
    (hsucceeds : SucceedsWith s q bundle) :
    Knows s q.after bundle ∧
      ∀ response, Reaches q response → ∃ now pin, Accepts s now response pin bundle := by
  obtain ⟨head, rest, v, persisted, response, decision, outcome, hdecides, hdecision, hsettle,
    hreceived⟩ := succeeds_settles s h hsucceeds
  obtain ⟨now, haccepts⟩ := decides_accepts s hdecides hdecision
  refine ⟨?_, fun received hreaches => ⟨now, _, hreceived received hreaches ▸ haccepts⟩⟩
  obtain ⟨hgeneration, hfingerprint⟩ := success_recorded s hdecides hdecision hsettle
  obtain ⟨_, raw, _, hbundle⟩ := haccepts
  have hexpected := (fromResponse_authentic hbundle).2.1
  by_cases hkept : s.pinnedSigningKey ≠ none ∨ q.before .signingKey ≠ .missing
  · -- the pin file is as it was when the bundle was accepted
    have hfile : q.after .signingKey = q.before .signingKey :=
      (pin_kept s hostile_respects h hkept).1
    refine ⟨hgeneration, hfingerprint, ⟨persisted.signingKey, ?_, hexpected⟩, ?_⟩
    · rw [StateDir.readString, hfile]
      exact (load_eq_ok.mp hdecides.load).2.2
    · rwa [hfile]
  · simp only [not_or, not_not] at hkept
    obtain ⟨hnone, hmissing⟩ := hkept
    obtain ⟨pin, hread, hmaterial⟩ := success_pins s hline hnone hdecides hdecision hsettle hmissing
    refine ⟨hgeneration, hfingerprint, ⟨some pin, hread, ?_⟩, Or.inr fun hmissing' => ?_⟩
    · intro expected hexpected
      rw [hnone, Option.none_or] at hexpected
      obtain rfl := Option.some.inj hexpected
      exact hmaterial
    · rw [readString_missing hmissing'] at hread
      cases hread

/-- The reading by which a response is judged: the one behind the record of the attempt. -/
def JudgedAt (trace : List (SyncEvent StateDir)) (now : Time) : Prop :=
  ∃ first u u' contents answer v v' rest,
    trace = first ++ writeEvent u u' .lastSync contents answer :: ⟨v, .now, now, v'⟩ :: rest

/-- A known bundle is decided to be unchanged. -/
theorem decides_unchanged {q : SyncPass StateDir} {head : List (SyncEvent StateDir)}
    {v : StateDir} {persisted : PersistedState} {response : HttpResponse} {decision : Decision}
    {bundle : CaBundle} {accepted : Time} {pin : Option Text} (hknows : Knows s q.before bundle)
    (haccepts : Accepts s accepted response pin bundle)
    (h : Decides s hostile id q.before head v persisted response decision) :
    decision = .unchanged bundle := by
  obtain ⟨hgeneration, hfingerprint, _⟩ := hknows.load s h.load
  have hdecided := h.decided
  cases decision with
  | notModified =>
    have hstatus : response.status = statusNotModified := hdecided
    have hsuccess := haccepts.1
    rw [hstatus] at hsuccess
    exact absurd hsuccess (by decide)
  | unchanged decided =>
    obtain ⟨_, hjudged⟩ := hdecided.1.accepts
    exact congrArg Decision.unchanged (accepts_unique s hjudged haccepts)
  | apply decided =>
    obtain ⟨_, hjudged⟩ := hdecided.1.accepts
    obtain rfl := accepts_unique s hjudged haccepts
    exact absurd ⟨hgeneration, hfingerprint⟩ hdecided.2.2

theorem writeTimestamp_ok {w w' : StateDir} {trace : List (SyncEvent StateDir)} {file : StateFile}
    (h : Exec hostile (s.writeTimestamp file).run w trace (some (.ok ())) w') :
    ∃ first u u' contents answer, trace = first ++ [writeEvent u u' file contents answer] := by
  rcases exec_perform_bind h with ⟨_, hnone, _⟩ | ⟨t, v, rest, rfl, _, h⟩
  · cases hnone
  cases hstamp : s.client.formatRfc3339 t with
  | none =>
    rw [hstamp, okOr, ofExcept_error_bind] at h
    obtain ⟨_, _, hnone | herror⟩ := exec_throw h
    · cases hnone
    · cases herror
  | some stamp =>
    rw [hstamp, okOr, ofExcept_ok_bind] at h
    obtain ⟨_, answer, rfl⟩ := secureWrite_ok hostile_respects h
    exact ⟨[⟨w, .now, t, v⟩], v, w', _, answer, rfl⟩

/-- Deciding on a known bundle inside its window does not fail. -/
theorem decideOn_again {w w' : StateDir} {trace : List (SyncEvent StateDir)}
    {persisted : PersistedState} {response : HttpResponse} {accepted : Time} {pin : Option Text}
    {bundle : CaBundle} {e : Error} (haccepts : Accepts s accepted response pin bundle)
    (hgeneration : persisted.generation = some bundle.generation)
    (hfingerprint : persisted.fingerprint = some bundle.fingerprint)
    (hpin : ∀ expected ∈ s.expectedSigningKey persisted,
      SameMaterial expected bundle.signingPublicKey)
    (h : Exec hostile (decideOn s persisted response).run w trace (some (.error e)) w') :
    ∃ now v rest, trace = ⟨w, .now, now, v⟩ :: rest ∧ ¬ InWindow bundle now := by
  obtain ⟨hsuccess, raw, hraw, hbundle⟩ := haccepts
  have hstatus : response.status ≠ statusNotModified := by
    intro hstatus
    rw [hstatus] at hsuccess
    exact absurd hsuccess (by decide)
  rw [decideOn, if_neg hstatus, if_neg (by simp [hsuccess]), fromJson, hraw, ofExcept_ok_bind] at h
  rcases exec_perform_bind h with ⟨_, hnone, _⟩ | ⟨now, v, rest, rfl, _, h⟩
  · cases hnone
  refine ⟨now, v, rest, rfl, fun hwindow => ?_⟩
  have hregressed : ¬ CaSyncService.regressed persisted bundle = true := by
    rw [CaSyncService.regressed, hgeneration]
    simp
  rw [fromResponse_again hbundle hwindow hpin, mapError_ok, ofExcept_ok_bind, if_neg hregressed,
    if_pos ⟨hgeneration, hfingerprint⟩] at h
  obtain ⟨_, _, hnone | hok⟩ := exec_pure h
  · cases hnone
  · cases hok

/-- A fetch that received the response returns it. -/
theorem fetchBundle_received {w w' x x' : StateDir} {trace : List (SyncEvent StateDir)}
    {fingerprint : Option Text} {response : HttpResponse} {result : Except Error HttpResponse}
    {request : HttpRequest}
    (h : Exec hostile (s.fetchBundle fingerprint).run w trace (some result) w')
    (hget : getEvent x x' request (.ok response) ∈ trace) : result = .ok response := by
  rcases exec_fetchBundle s h with
    ⟨hsigning, _⟩ | ⟨first, signed, v, answer, rfl, hsigning, hresult⟩
  · exact absurd hget (getEvent_notMem (by simp [IsSigning]) hsigning)
  rcases hresult with hnone | hsome
  · cases hnone
  obtain rfl := Option.some.inj hsome
  rcases List.mem_append.mp hget with hget | hget
  · exact absurd hget (getEvent_notMem (by simp [IsSigning]) hsigning)
  · cases List.mem_singleton.mp hget
    rfl

/-- With working writes, surveying a known bundle inside its window does not fail. -/
theorem survey_again {w w' : StateDir} {trace : List (SyncEvent StateDir)} {response : HttpResponse}
    {accepted : Time} {pin : Option Text} {bundle : CaBundle} {e : Error}
    (hknows : Knows s w bundle) (haccepts : Accepts s accepted response pin bundle)
    (hreaches : ∃ v v' request, getEvent v v' request (.ok response) ∈ trace)
    (hwindow : ∀ now, JudgedAt trace now → InWindow bundle now)
    (h : Exec hostile (survey s).run w trace (some (.error e)) w') : ¬ Clean s trace := by
  intro hclean
  obtain ⟨x, x', request, hget⟩ := hreaches
  obtain ⟨signingKey, hread, _⟩ := hknows.pin
  have hloads : w.load = .ok ⟨some bundle.generation, some bundle.fingerprint, signingKey⟩ :=
    load_eq_ok.mpr ⟨hknows.generation, hknows.fingerprint, hread⟩
  rcases exec_action_bind_error h with h | ⟨persisted, t₁, r₁, u₁, rfl, hload, h⟩
  · obtain ⟨_, hnone | hloaded⟩ := reads_loadState hostile_respects _ _ _ _ h
    · cases hnone
    · rw [id, hloads] at hloaded
      cases hloaded
  have hfetched := (List.mem_append.mp hget).resolve_left
    (getEvent_notMem (by simp [IsRead]) (hload.event_calls calls_loadState))
  obtain ⟨_, hnone | hloaded⟩ := reads_loadState hostile_respects _ _ _ _ hload
  · cases hnone
  obtain ⟨hgeneration, hfingerprint, hpin⟩ := hknows.load s (Option.some.inj hloaded).symm
  rcases exec_action_bind_error h with h | ⟨received, t₂, r₂, u₂, rfl, hfetch, h⟩
  · cases fetchBundle_received s h hfetched
  rcases exec_action_bind_error h with h | ⟨_, t₃, r₃, u₃, rfl, hstamp, h⟩
  · exact writeTimestamp_clean s hostile_respects h ((hclean.append s).2.append s).2
  rcases exec_action_bind_error h with hdecide | ⟨_, t₄, r₄, u₄, rfl, _, h⟩
  · rcases List.mem_append.mp hfetched with hfetched | hfetched
    · obtain rfl := Except.ok.inj (fetchBundle_received s hfetch hfetched)
      obtain ⟨first, u, u', contents, answer, rfl⟩ := writeTimestamp_ok s hstamp
      obtain ⟨now, v, rest, rfl, houtside⟩ :=
        decideOn_again s haccepts hgeneration hfingerprint hpin hdecide
      exact houtside (hwindow now
        ⟨t₁ ++ (t₂ ++ first), u, u', contents, answer, u₃, v, rest, by simp⟩)
    · rcases List.mem_append.mp hfetched with hfetched | hfetched
      · exact getEvent_notMem (by simp [IsStamp])
          (hstamp.event_calls (calls_writeTimestamp s .lastSync)) hfetched
      · exact getEvent_notMem (P := fun op => op = .now) (by simp) (exec_decideOn s hdecide).1
          hfetched
  · obtain ⟨_, _, hnone | hok⟩ := exec_pure h
    · cases hnone
    · cases hok

/-- A pass that receives a known bundle again has surveyed it without an end, or decides that
nothing changed. -/
theorem known_course {q : SyncPass StateDir} {bundle : CaBundle} {response : HttpResponse}
    {accepted : Time} {pin : Option Text} (hknows : Knows s q.before bundle)
    (haccepts : Accepts s accepted response pin bundle)
    (hreaches : Reaches q response) (hwindow : ∀ now, JudgedAt q.trace now → InWindow bundle now)
    (h : Exec hostile s.synchronize.run q.before q.trace q.result q.after) :
    ((∀ e ∈ q.trace, IsSurveying e.op) ∧ (Clean s q.trace → q.result = none)) ∨
    ∃ head tail v persisted response, q.trace = head ++ tail ∧
      Decides s hostile id q.before head v persisted response (.unchanged bundle) ∧
      (∀ e ∈ tail, IsPinning s bundle e.op) ∧
      Exec hostile (settle s persisted (.unchanged bundle)).run v tail q.result q.after := by
  have hunchanged : ∀ {head rest : List (SyncEvent StateDir)} {v : StateDir}
      {persisted : PersistedState} {received : HttpResponse} {decision : Decision},
      Decides s hostile id q.before head v persisted received decision → q.trace = head ++ rest →
      (∀ e ∈ rest, ∀ request, e.op ≠ .get request) → decision = .unchanged bundle := by
    intro head rest v persisted received decision hdecides htrace hrest
    obtain ⟨x, x', request, hget⟩ := hreaches
    rw [htrace] at hget
    obtain rfl := hdecides.response_eq s hrest hget
    exact decides_unchanged s hknows haccepts hdecides
  obtain ⟨before, trace, result, after⟩ := q
  cases exec_course s hostile_respects h with
  | killed ops => exact Or.inl ⟨ops, fun _ => rfl⟩
  | failed ops files run =>
    exact Or.inl ⟨ops, fun hclean =>
      absurd hclean (survey_again s hknows haccepts hreaches hwindow run)⟩
  | notModified decides ops =>
    cases hunchanged decides rfl fun e he request hop => by
      have hstamp := ops e he
      rw [hop] at hstamp
      exact hstamp
  | unchanged decides ops settles =>
    cases hunchanged decides rfl fun e he request hop => by
      have hpinning := ops e he
      rw [hop] at hpinning
      exact hpinning
    exact Or.inr ⟨_, _, _, _, _, rfl, decides, ops, settles⟩
  | unasked decides =>
    cases hunchanged decides (List.append_nil _).symm fun _ he => by cases he
  | applied decides moves ops =>
    cases hunchanged decides rfl (asking_not_get fun e he => storing_not_get s (ops e he))
  | declined decides moves refuses ops =>
    cases hunchanged decides rfl (asking_not_get fun e he request hop => by
      have hacknowledging := ops e he
      rw [hop] at hacknowledging
      exact hacknowledging)

/-- Re-synchronising is idempotent: a pass that receives again the response of a successful one,
read inside the window of the bundle, asks nobody to apply or to note anything and changes neither
the records nor the pin; unless it is cut short or a write fails, it reports no change. -/
theorem resynchronizing_idempotent
    (hline : ∀ line, validateEd25519PublicKey s.client.toCrypto line = .ok () →
      ∃ fields, material line = some fields) {q again : SyncPass StateDir} {bundle : CaBundle}
    {response : HttpResponse}
    (h : Exec hostile s.synchronize.run q.before q.trace q.result q.after)
    (hsucceeds : SucceedsWith s q bundle) (hreaches : Reaches q response)
    (hagain : Exec hostile s.synchronize.run q.after again.trace again.result again.after)
    (hreceives : Reaches again response)
    (hwindow : ∀ now, JudgedAt again.trace now → InWindow bundle now) :
    (∀ e ∈ again.trace, isApply e.op = false ∧ isPost e.op = false) ∧
      (∀ file, IsRecord file ∨ file = .signingKey → again.after file = q.after file) ∧
      (Clean s again.trace → again.result ≠ none →
        again.result = some (.ok (.unchanged bundle.generation))) := by
  obtain ⟨hknows, haccepted⟩ := succeeds_knows s hline h hsucceeds
  obtain ⟨now, pin, haccepts⟩ := haccepted response hreaches
  have hcourse := known_course s (q := ⟨q.after, again.trace, again.result, again.after⟩) hknows
    haccepts hreceives hwindow hagain
  have hops : ∀ e ∈ again.trace, IsSurveying e.op ∨ IsPinning s bundle e.op := by
    rcases hcourse with ⟨hsurveying, _⟩ | ⟨head, tail, v, persisted, received, htrace, hdecides,
      hpinning, _⟩
    · exact fun e he => Or.inl (hsurveying e he)
    · intro e he
      rw [htrace] at he
      exact (List.mem_append.mp he).imp (hdecides.ops e) (hpinning e)
  have hquiet : ∀ e ∈ again.trace, IsQuiet e.op := fun e he =>
    (hops e he).elim surveying_quiet (pinning_quiet s)
  refine ⟨fun e he => ⟨quiet_not_apply (hquiet e he), ?_⟩, ?_, ?_⟩
  · have hop := hops e he
    cases hpost : e.op with
    | post request =>
      rw [hpost] at hop
      exact (hop.elim id id : False).elim
    | _ => rfl
  · rintro file (hrecord | rfl)
    · refine file_unwritten hostile_respects hagain file fun e he contents mode hop => ?_
      have hwrite := hquiet e he
      rw [hop] at hwrite
      exact hwrite hrecord
    · exact (pin_kept s hostile_respects hagain hknows.present).1
  · intro hclean hcomplete
    rcases hcourse with ⟨_, hkilled⟩ | ⟨head, tail, v, persisted, received, htrace, hdecides, _,
      hsettle⟩
    · exact absurd (hkilled hclean) hcomplete
    dsimp only at hsettle
    cases hresult : again.result with
    | none => exact absurd hresult hcomplete
    | some result =>
      rw [hresult] at hsettle
      cases result with
      | ok outcome =>
        have hreports : outcome = .unchanged bundle.generation := settle_reports s hsettle
        rw [hreports]
      | error e =>
        dsimp only at htrace
        rw [htrace] at hclean
        exact absurd (hclean.append s).2
          (unchanged_error s hostile_respects hsettle (decides_readable s hdecides))

theorem resynchronizing_idempotent_golden :
    (goldenScript.pass (goldenScript.pass StateDir.empty).after).result =
      some (.ok (.unchanged 42)) := by
  have hfirst : (goldenScript.pass StateDir.empty).result =
        some (.ok (.updated 42 golden.fingerprint true)) ∧
      (goldenScript.pass StateDir.empty).trace.any asksBundle = true := by
    decide +kernel
  have hsecond : (goldenScript.pass (goldenScript.pass StateDir.empty).after).result ≠ none ∧
      (goldenScript.pass (goldenScript.pass StateDir.empty).after).trace.any
        asksBundle = true := by
    decide +kernel
  have hwindow : ∀ now, JudgedAt (goldenScript.pass (goldenScript.pass StateDir.empty).after).trace
      now → InWindow golden.bundle now := by
    rintro now ⟨first, u, u', contents, answer, v, v', rest, htrace⟩
    have hevent := (goldenScript.exec _).event_env ⟨v, .now, now, v'⟩ (by rw [htrace]; simp)
    obtain rfl : sampleNow = now := (Prod.mk.inj (Option.some.inj hevent)).1
    exact ⟨by decide, by decide⟩
  exact (resynchronizing_idempotent _ sampleService_lines (goldenScript.hostile _)
    (golden_succeeds hfirst.1) (Script.reaches rfl hfirst.2) (goldenScript.hostile _)
    (Script.reaches rfl hsecond.2) hwindow).2.2 (goldenScript.clean _) hsecond.1

end MayflyAgent.Resynchronization
