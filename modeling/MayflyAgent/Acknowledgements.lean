import MayflyAgent.SyncRuns
import MayflyAgent.SyncResults

/-!
Acknowledgements. A pass posts at most once, as its last call, and only after it has
settled what the helper answered: a confirmed apply whose records are stored, or a
rollback that left the records alone. An acknowledgement that got lost is not made up
for, since a later pass finds the bundle recorded and posts nothing.
-/
namespace MayflyAgent.Acknowledgements

open RustText Programs Checks Errors Bundles BundleValidation TrustedCa StateFiles CaSync
open SyncPasses SyncCourses SyncProgress SyncResults SyncRuns

variable {W : Type} (s : CaSyncService)

def isPost : SyncOp → Bool
  | .post _ => true
  | _ => false

/-- The request of `try_acknowledge`. -/
def ackRequest (signed : SignedHeaders) (body : Bytes) : HttpRequest where
  url := joinUrl s.serverUrl caBundleAckPath
  headers := signingHeaders signed ++ [(text "content-type", text "application/json")]
  body := body

/-- The call posts this report. -/
def Acknowledges (op : SyncOp) (report : AckReport) : Prop :=
  ∃ signed body, s.client.ackToJson report = some body ∧ op = .post (ackRequest s signed body)

def Unposted (trace : List (SyncEvent W)) : Prop := ∀ e ∈ trace, isPost e.op = false

theorem Unposted.append {first second : List (SyncEvent W)} (hfirst : Unposted first)
    (hsecond : Unposted second) : Unposted (first ++ second) := by
  intro e he
  rcases List.mem_append.mp he with he | he
  · exact hfirst e he
  · exact hsecond e he

theorem Unposted.asked {head rest : List (SyncEvent W)} {v v' : W} {contents : Text}
    {answer : Except Error BundleApplyOutcome} (hhead : Unposted head) (hrest : Unposted rest) :
    Unposted (head ++ applyEvent v v' contents answer :: rest) := by
  refine hhead.append fun e he => ?_
  rcases List.mem_cons.mp he with rfl | he
  · rfl
  · exact hrest e he

theorem unposted_of_ops {P : SyncOp → Prop} {trace : List (SyncEvent W)}
    (htrace : ∀ e ∈ trace, P e.op) (hP : ∀ request, ¬ P (.post request)) : Unposted trace := by
  intro e he
  have hop := htrace e he
  cases hpost : e.op with
  | post request =>
    rw [hpost] at hop
    exact absurd hop (hP request)
  | _ => rfl

/-- Nothing is posted, or the last call posts this report. -/
def PostsLast (report : AckReport) (trace : List (SyncEvent W)) : Prop :=
  Unposted trace ∨
    ∃ first e, trace = first ++ [e] ∧ Unposted first ∧ Acknowledges s e.op report

section Executions

variable {env : Environment syncSignature W} {dir : W → StateDir} (henv : Respects env dir)
variable {w w' : W} {trace : List (SyncEvent W)}

theorem exec_tryAcknowledge {report : AckReport} {result : Option (Except Error Unit)}
    (h : Exec env (s.tryAcknowledge report).run w trace result w') : PostsLast s report trace := by
  have hsigning := calls_sign s (text "POST") caBundleAckPath
  unfold CaSyncService.tryAcknowledge at h
  cases hbody : s.client.ackToJson report with
  | none =>
    rw [hbody, okOr, ofExcept_error_bind] at h
    obtain ⟨rfl, _⟩ := exec_throw h
    exact Or.inl (by simp [Unposted])
  | some body =>
    rw [hbody, okOr, ofExcept_ok_bind] at h
    have hnone : ∀ request, ¬ IsSigning (.post request) := fun _ => id
    rcases exec_action_bind h with
      ⟨_, hsign⟩ | ⟨_, _, hsign⟩ | ⟨signed, first, second, _, rfl, hsign, hpost⟩
    · exact Or.inl (unposted_of_ops (hsign.event_calls (hsigning body)) hnone)
    · exact Or.inl (unposted_of_ops (hsign.event_calls (hsigning body)) hnone)
    have hfirst := unposted_of_ops (hsign.event_calls (hsigning body)) hnone
    simp only [transportPost] at hpost
    rcases exec_perform_bind hpost with ⟨rfl, _⟩ | ⟨answer, _, rest, rfl, _, hrest⟩
    · exact Or.inl (by simpa using hfirst)
    · have hdone : rest = [] := by
        cases answer with
        | ok response => exact (exec_ofExcept hrest).1
        | error e => exact (exec_throw hrest).1
      subst hdone
      exact Or.inr ⟨first, _, rfl, hfirst, signed, body, hbody, rfl⟩

theorem exec_acknowledge {report : AckReport} {result : Option (Except Error Bool)}
    (h : Exec env (s.acknowledge report).run w trace result w') : PostsLast s report trace := by
  have hattempt : ∀ {trace r v}, Exec env (s.tryAcknowledge report).attempt.run w trace r v →
      PostsLast s report trace := by
    intro trace r v h
    rcases exec_attempt h with ⟨_, h⟩ | ⟨_, _, h⟩
    · exact exec_tryAcknowledge s h
    · exact exec_tryAcknowledge s h
  rcases exec_action_bind h with ⟨_, h⟩ | ⟨_, _, h⟩ | ⟨_, first, second, _, rfl, hfirst, h⟩
  · exact hattempt h
  · exact hattempt h
  · obtain ⟨rfl, _⟩ := exec_pure h
    rw [List.append_nil]
    exact hattempt hfirst

/-- A pass that acknowledges makes no further call and ends as announced. -/
theorem exec_acknowledge_bind {report : AckReport} {k : Bool → Except Error SyncOutcome}
    {result : Option (Except Error SyncOutcome)}
    (h : Exec env (s.acknowledge report >>= fun acknowledged =>
      Action.ofExcept (k acknowledged)).run w trace result w') :
    PostsLast s report trace ∧ (∀ e ∈ trace, IsAcknowledging e.op) ∧
      (result = none ∨ ∃ acknowledged, result = some (k acknowledged)) := by
  have hcalls := calls_acknowledge s report
  rcases exec_action_bind h with
    ⟨rfl, hack⟩ | ⟨_, _, hack⟩ | ⟨acknowledged, first, second, _, rfl, hack, hdone⟩
  · exact ⟨exec_acknowledge s hack, hack.event_calls hcalls, Or.inl rfl⟩
  · exact (acknowledge_error s hack).elim
  · obtain ⟨rfl, _, hresult⟩ := exec_ofExcept hdone
    rw [List.append_nil]
    exact ⟨exec_acknowledge s hack, hack.event_calls hcalls,
      hresult.imp id fun hr => ⟨acknowledged, hr⟩⟩

theorem calls_persistAfterApply_unposted (bundle : CaBundle) :
    (s.persistAfterApply bundle).run.Calls fun op => isPost op = false := by
  have hpinning : ∀ op, IsPinning s bundle op → isPost op = false := by
    intro op hop
    cases op <;> first | rfl | exact absurd hop not_false
  refine calls_bind (calls_bind (calls_perform rfl) fun _ => trivial) fun _ => ?_
  refine calls_bind (calls_bind (calls_perform rfl) fun _ => trivial) fun _ => ?_
  refine calls_bind ((calls_persistPin s bundle).mono hpinning) fun _ => ?_
  exact (calls_lastSuccess s bundle).mono hpinning

/-- The bundle was offered, and the helper took its rendering back. -/
structure RolledBack (trace : List (SyncEvent W)) (bundle : CaBundle) : Prop where
  offered : ∃ pin, Offered s trace pin bundle
  answered : ∃ v v', applyEvent v v' (renderTrustedUserCaKeys bundle) (.ok .rolledBack) ∈ trace

/-- What a POST rests on: the calls before it, the files it is made over, and the results
that the pass can still have. -/
inductive Grounds (dir : W → StateDir) (w : W) (first : List (SyncEvent W)) (v : W) (op : SyncOp)
    (result : Option (Except Error SyncOutcome)) : Prop
  | applied {bundle : CaBundle}
      (posts : Acknowledges s op (CaSyncService.appliedReport bundle))
      (applied : Applied s first bundle)
      (files : ∀ file, IsRecord file → dir v file = .regular (recordLine bundle file))
      (hresult : result = none ∨ ∃ acknowledged,
        result = some (.ok (.updated bundle.generation bundle.fingerprint acknowledged)))
  | rolledBack {bundle : CaBundle}
      (posts : Acknowledges s op (CaSyncService.rollbackReport bundle))
      (rolled : RolledBack s first bundle)
      (files : ∀ file, IsRecord file → dir v file = dir w file)
      (hresult : result = none ∨ result = some (.error .caReloadFailed))

include henv in
/-- A confirmed apply is acknowledged over its stored records. -/
theorem exec_conclude {bundle : CaBundle} {result : Option (Except Error SyncOutcome)}
    (h : Exec env (conclude s bundle).run w trace result w') :
    Unposted trace ∨
    ∃ first e, trace = first ++ [e] ∧ Unposted first ∧
      Acknowledges s e.op (CaSyncService.appliedReport bundle) ∧
      (∀ file, IsRecord file → dir e.before file = .regular (recordLine bundle file)) ∧
      dir w' = dir e.before ∧ (result = none ∨ ∃ acknowledged,
        result = some (.ok (.updated bundle.generation bundle.fingerprint acknowledged))) := by
  have hstoring := calls_persistAfterApply_unposted s bundle
  rcases exec_action_bind h with ⟨_, hstore⟩ | ⟨_, _, hstore⟩ | ⟨_, t₁, t₂, u, rfl, hstore, hack⟩
  · exact Or.inl (hstore.event_calls hstoring)
  · exact Or.inl (hstore.event_calls hstoring)
  have hfirst : Unposted t₁ := hstore.event_calls hstoring
  obtain ⟨hposts, hops, hresult⟩ := exec_acknowledge_bind s
    (k := fun acknowledged => .ok (.updated bundle.generation bundle.fingerprint acknowledged)) hack
  rcases hposts with hunposted | ⟨first, e, rfl, hsigning, hposts⟩
  · exact Or.inl (hfirst.append hunposted)
  obtain ⟨hbefore, q, hafter⟩ := hack.cut_event
  have hdir : dir e.before = dir u := acknowledging_files henv hbefore fun x hx =>
    hops x (List.mem_append_left _ hx)
  refine Or.inr ⟨t₁ ++ first, e, by simp, hfirst.append hsigning, hposts, ?_, ?_, hresult⟩
  · intro file hfile
    rw [hdir]
    exact persistAfterApply_ok s henv hstore hfile
  · rw [hdir]
    exact acknowledging_files henv hack hops

include henv in
/-- Only a rollback is acknowledged where nothing was confirmed. -/
theorem exec_refused {bundle : CaBundle} {answer : Except Error BundleApplyOutcome}
    {result : Option (Except Error SyncOutcome)} (hrefuses : answer ≠ .ok .applied)
    (h : Exec env (answered s bundle answer).run w trace result w') :
    Unposted trace ∨
    answer = .ok .rolledBack ∧ ∃ first e, trace = first ++ [e] ∧ Unposted first ∧
      Acknowledges s e.op (CaSyncService.rollbackReport bundle) ∧ dir e.before = dir w ∧
      dir w' = dir w ∧ (result = none ∨ result = some (.error .caReloadFailed)) := by
  match answer, hrefuses, h with
  | .ok .applied, hrefuses, _ => exact absurd rfl hrefuses
  | .error e, _, h =>
    obtain ⟨rfl, _⟩ := exec_throw h
    exact Or.inl (by simp [Unposted])
  | .ok .rolledBack, _, h =>
    rw [answered] at h
    obtain ⟨hposts, hops, hresult⟩ := exec_acknowledge_bind s
      (k := fun _ => .error .caReloadFailed) h
    rcases hposts with hunposted | ⟨first, e, rfl, hfirst, hposts⟩
    · exact Or.inl hunposted
    have hbefore := acknowledging_files henv h.cut_event.1 fun x hx =>
      hops x (List.mem_append_left _ hx)
    exact Or.inr ⟨rfl, first, e, rfl, hfirst, hposts, hbefore,
      acknowledging_files henv h hops, by simpa using hresult⟩

/-- A pass posts nothing, or it has asked the helper and goes by its answer. -/
theorem course_asked {result : Option (Except Error SyncOutcome)}
    (h : Course s env dir w trace result w') :
    Unposted trace ∨ ∃ head rest v v' persisted response bundle answer,
      trace = head ++ applyEvent v v' (renderTrustedUserCaKeys bundle) answer :: rest ∧
      Decides s env dir w head v persisted response (.apply bundle) ∧
      env v (.apply (renderTrustedUserCaKeys bundle)) answer v' ∧
      Exec env (answered s bundle answer).run v' rest result w' := by
  have hsurveying : ∀ {head : List (SyncEvent W)}, (∀ e ∈ head, IsSurveying e.op) →
      Unposted head := fun hops => unposted_of_ops hops fun _ => id
  cases h with
  | killed ops => exact Or.inl (hsurveying ops)
  | failed ops => exact Or.inl (hsurveying ops)
  | notModified decides ops =>
    exact Or.inl ((hsurveying decides.ops).append (unposted_of_ops ops fun _ => id))
  | unchanged decides ops =>
    exact Or.inl ((hsurveying decides.ops).append (unposted_of_ops ops fun _ => id))
  | unasked decides => exact Or.inl (hsurveying decides.ops)
  | applied decides moves ops concludes =>
    exact Or.inr ⟨_, _, _, _, _, _, _, _, rfl, decides, moves, concludes⟩
  | declined decides moves refuses ops files hresult settles =>
    exact Or.inr ⟨_, _, _, _, _, _, _, _, rfl, decides, moves, settles⟩

include henv in
/-- A pass posts nothing, or its last call is a POST that rests on what the pass did. -/
theorem exec_posts {result : Option (Except Error SyncOutcome)}
    (h : Exec env s.synchronize.run w trace result w') :
    Unposted trace ∨
    ∃ first e, trace = first ++ [e] ∧ Unposted first ∧ dir w' = dir e.before ∧
      Grounds s dir w first e.before e.op result := by
  rcases course_asked s (exec_course s henv h) with hunposted | ⟨head, rest, v, v', persisted,
    response, bundle, answer, rfl, hdecides, hmoves, hsettles⟩
  · exact Or.inl hunposted
  have hhead : Unposted head := unposted_of_ops hdecides.ops fun _ => id
  by_cases hconfirmed : answer = .ok .applied
  · subst hconfirmed
    rcases exec_conclude s henv hsettles with
      hunposted | ⟨first, e, rfl, hfirst, hposts, hfiles, hdir, hresult⟩
    · exact Or.inl (hhead.asked hunposted)
    · refine Or.inr ⟨head ++ applyEvent v v' (renderTrustedUserCaKeys bundle) (.ok .applied) ::
        first, e, by simp, hhead.asked hfirst, hdir, ?_⟩
      exact Grounds.applied hposts (hdecides.applied s first) hfiles hresult
  · rcases exec_refused s henv hconfirmed hsettles with
      hunposted | ⟨rfl, first, e, rfl, hfirst, hposts, hbefore, hafter, hresult⟩
    · exact Or.inl (hhead.asked hunposted)
    refine Or.inr ⟨head ++ applyEvent v v' (renderTrustedUserCaKeys bundle) (.ok .rolledBack) ::
      first, e, by simp, hhead.asked hfirst, hafter.trans hbefore.symm, ?_⟩
    refine Grounds.rolledBack hposts
      ⟨⟨_, (hdecides.offered s).append s _⟩, v, v', by simp⟩ ?_ hresult
    intro file hfile
    rw [hbefore, henv _ _ _ _ hmoves]
    refine hdecides.files file ?_
    rintro rfl
    simp [IsRecord] at hfile

end Executions

/-- What a fingerprint file holds after an apply reads as the fingerprint of the bundle. -/
theorem readString_applied {trace : List (SyncEvent W)} {bundle : CaBundle} {dir : StateDir}
    (h : Applied s trace bundle)
    (hfile : dir .fingerprint = .regular (recordLine bundle .fingerprint)) :
    dir.readString .fingerprint = .ok (some bundle.fingerprint) := by
  obtain ⟨_, hoffered⟩ := h.offered
  obtain ⟨_, _, _, _, _, _, _, _, _, hbundle⟩ := hoffered.received
  have hcomputed := (fromResponse_sound hbundle).2.computed
  simp only [recordLine, hcomputed] at hfile
  rw [hcomputed]
  exact readString_fingerprint hfile

section Passes

variable {d d' : StateDir} {passes : List (SyncPass StateDir)}

theorem Unposted.countP_snoc {first : List (SyncEvent W)} {e : SyncEvent W} (h : Unposted first) :
    (first ++ [e]).countP (fun e => isPost e.op) ≤ 1 := by
  rw [List.countP_append, List.countP_eq_zero.mpr fun x hx => by simp [h x hx], Nat.zero_add]
  exact List.countP_le_length

/-- Every POST is the last call of its pass and acknowledges an apply that this pass has stored,
or a rollback that left the records alone. -/
theorem acknowledges_safely (h : Run hostile s.synchronize.run d passes d') :
    ∀ q ∈ passes, q.trace.countP (fun e => isPost e.op) ≤ 1 ∧
      ∀ e ∈ q.trace, isPost e.op = true →
        ∃ first, q.trace = first ++ [e] ∧ q.after = e.before ∧
          ((∃ bundle, Acknowledges s e.op (CaSyncService.appliedReport bundle) ∧
              Applied s first bundle ∧
              e.before.readGeneration = .ok (some bundle.generation) ∧
              e.before.readString .fingerprint = .ok (some bundle.fingerprint) ∧
              (q.result = none ∨ ∃ acknowledged, q.result =
                some (.ok (.updated bundle.generation bundle.fingerprint acknowledged)))) ∨
            ∃ bundle, Acknowledges s e.op (CaSyncService.rollbackReport bundle) ∧
              RolledBack s first bundle ∧
              (∀ file, IsRecord file → q.after file = q.before file) ∧
              (q.result = none ∨ q.result = some (.error .caReloadFailed))) := by
  have hexec := (h.invariant (I := fun _ => True) (C := fun _ => True)
    (fun _ _ _ _ => trivial) (fun _ _ => trivial) trivial).2
  intro q hq
  rcases exec_posts s hostile_respects (hexec q hq).2 with
    hunposted | ⟨first, last, htrace, hfirst, hafter, hgrounds⟩
  · constructor
    · rw [List.countP_eq_zero.mpr fun e he => by simp [hunposted e he]]
      exact Nat.zero_le 1
    · intro e he hpost
      rw [hunposted e he] at hpost
      cases hpost
  rw [htrace]
  refine ⟨hfirst.countP_snoc, fun e he hpost => ?_⟩
  obtain rfl : e = last := by
    rcases List.mem_append.mp he with he | he
    · rw [hfirst e he] at hpost
      cases hpost
    · exact List.mem_singleton.mp he
  refine ⟨first, rfl, hafter, ?_⟩
  cases hgrounds with
  | applied posts applied files hresult =>
    exact Or.inl ⟨_, posts, applied, readGeneration_recordLine (files .generation (Or.inl rfl)),
      readString_applied s applied (files .fingerprint (Or.inr rfl)), hresult⟩
  | rolledBack posts rolled files hresult =>
    refine Or.inr ⟨_, posts, rolled, fun file hfile => ?_, hresult⟩
    have hsame : q.after = e.before := hafter
    rw [hsame]
    exact files file hfile

/-- What the server answers to the GET and to the POST, and what the helper does. -/
structure Script where
  get : Except Error HttpResponse
  post : Except Error HttpResponse
  apply : Except Error BundleApplyOutcome

def Script.answer (c : Script) (dir : StateDir) : (op : SyncOp) → Option (op.Answer × StateDir)
  | .read file => some (readEntry (dir file), dir)
  | .secureWrite file contents _ => some (.ok (), dir.install file contents)
  | .now => some (sampleNow, dir)
  | .randomBytes => some (Vector.replicate 16 0, dir)
  | .get _ => some (c.get, dir)
  | .post _ => some (c.post, dir)
  | .apply _ => some (c.apply, dir)

/-- A pass of a service without an operator pin. -/
def Script.pass (c : Script) (dir : StateDir) : SyncPass StateDir :=
  let played := play (S := syncSignature) c.answer (sampleService none).synchronize.run dir
  ⟨dir, played.1, played.2.1, played.2.2⟩

theorem Script.exec (c : Script) (dir : StateDir) :
    Exec (fun v op answer v' => c.answer v op = some (answer, v'))
      (sampleService none).synchronize.run dir (c.pass dir).trace (c.pass dir).result
      (c.pass dir).after :=
  exec_play (fun _ _ _ _ => id) _ dir

theorem Script.hostile (c : Script) (dir : StateDir) :
    Exec SyncRuns.hostile (sampleService none).synchronize.run dir (c.pass dir).trace
      (c.pass dir).result (c.pass dir).after := by
  refine (c.exec dir).mono fun v op answer v' hanswer => ?_
  cases op <;> obtain ⟨rfl, rfl⟩ := Prod.mk.inj (Option.some.inj hanswer)
  case read => exact ⟨rfl, rfl⟩
  case secureWrite => exact Or.inl rfl
  all_goals rfl

theorem Script.run (c : Script) {dir : StateDir}
    (h : Run SyncRuns.hostile (sampleService none).synchronize.run (c.pass dir).after passes d') :
    Run SyncRuns.hostile (sampleService none).synchronize.run dir (c.pass dir :: passes) d' :=
  Run.cons (c.hostile dir) h

theorem Script.get_eq {c : Script} {dir v v' : StateDir} {request : HttpRequest}
    {answer : Except Error HttpResponse} (h : getEvent v v' request answer ∈ (c.pass dir).trace) :
    answer = c.get := (Prod.mk.inj (Option.some.inj ((c.exec dir).event_env _ h))).1.symm

/-- The server offers the golden bundle, and everything works. -/
def goldenScript : Script :=
  { get := .ok ⟨200, sampleBody golden⟩, post := .ok ⟨200, []⟩, apply := .ok .applied }

theorem acknowledges_safely_golden :
    ∃ e ∈ (goldenScript.pass StateDir.empty).trace, ∃ bundle first,
      (goldenScript.pass StateDir.empty).trace = first ++ [e] ∧
      Acknowledges (sampleService none) e.op (CaSyncService.appliedReport bundle) ∧
      Applied (sampleService none) first bundle := by
  have hposted : (goldenScript.pass StateDir.empty).trace.any (fun e => isPost e.op) = true := by
    decide +kernel
  obtain ⟨e, he, hpost⟩ := List.any_eq_true.mp hposted
  obtain ⟨first, htrace, _, ⟨bundle, hposts, happlied, _⟩ | ⟨_, _, ⟨_, v, v', hmem⟩, _⟩⟩ :=
    (acknowledges_safely _ (goldenScript.run (Run.nil _)) _
      (List.mem_singleton_self _)).2 e he hpost
  · exact ⟨e, he, bundle, first, htrace, hposts, happlied⟩
  · have hanswer := (goldenScript.exec StateDir.empty).event_env _
      (htrace ▸ List.mem_append_left _ hmem)
    cases (Prod.mk.inj (Option.some.inj hanswer)).1

/-- The GET of the pass was answered. -/
def Reaches (q : SyncPass StateDir) (response : HttpResponse) : Prop :=
  ∃ v v' request, getEvent v v' request (.ok response) ∈ q.trace

/-- A 304, or a 200 with the bundle of this generation and fingerprint. -/
def Repeats (response : HttpResponse) (generation : UInt64) (fingerprint : Text) : Prop :=
  response.status = statusNotModified ∨
    response.status = 200 ∧ ∃ raw, s.client.bundleFromJson response.body = some raw ∧
      raw.generation = some generation ∧ raw.fingerprint = some fingerprint

/-- An earlier pass updated to this bundle without being heard, and this one is the next that
reaches the server and is offered the same again. -/
def LostAcknowledgement (passes : List (SyncPass StateDir)) (q : SyncPass StateDir)
    (generation : UInt64) (fingerprint : Text) : Prop :=
  ∃ earlier o between later, passes = earlier ++ o :: (between ++ q :: later) ∧
    o.result = some (.ok (.updated generation fingerprint false)) ∧
    (∀ p ∈ between, ∀ response, ¬ Reaches p response) ∧
    ∃ response, Reaches q response ∧ Repeats s response generation fingerprint

/-- The pass completes, its writes succeed and what it posts is received. -/
structure Unhindered (q : SyncPass StateDir) : Prop where
  complete : q.result ≠ none
  clean : Clean s q.trace
  delivered : ∀ v v' request answer,
    (⟨v, .post request, answer, v'⟩ : SyncEvent StateDir) ∈ q.trace →
    ∃ response, answer = .ok response ∧ isSuccess response.status = true

/-- The report that a pass owes for an update to this generation and fingerprint. -/
def owedReport (generation : UInt64) (fingerprint : Text) : AckReport where
  generation := generation
  fingerprint := fingerprint
  status := text "applied"
  reason := none

/-- What was lost is posted as soon as nothing hinders it. -/
def RetriesLost (passes : List (SyncPass StateDir)) : Prop :=
  ∀ q generation fingerprint, LostAcknowledgement s passes q generation fingerprint →
    Unhindered s q → ∃ e ∈ q.trace, Acknowledges s e.op (owedReport generation fingerprint)

theorem decides_reaches {w w' v : StateDir} {head tail : List (SyncEvent StateDir)}
    {persisted : PersistedState} {response : HttpResponse} {decision : Decision}
    {result : Option (Except Error SyncOutcome)}
    (h : Decides s hostile id w head v persisted response decision) :
    Reaches ⟨w, head ++ tail, result, w'⟩ response := by
  obtain ⟨u, u', signed, hget⟩ := h.fetched
  exact ⟨u, u', _, List.mem_append_left _ hget⟩

/-- A pass that no answer reached leaves everything but the record of its attempt. -/
theorem unreached_files {q : SyncPass StateDir}
    (h : Exec hostile s.synchronize.run q.before q.trace q.result q.after)
    (hunreached : ∀ response, ¬ Reaches q response) {file : StateFile} (hfile : file ≠ .lastSync) :
    q.after file = q.before file := by
  obtain ⟨before, trace, result, after⟩ := q
  cases exec_course s hostile_respects h with
  | killed ops files => exact files file hfile
  | failed ops files => exact files file hfile
  | unasked decides => exact decides.files file hfile
  | notModified decides => exact absurd (decides_reaches s decides) (hunreached _)
  | unchanged decides => exact absurd (decides_reaches s decides) (hunreached _)
  | applied decides => exact absurd (decides_reaches s decides) (hunreached _)
  | declined decides => exact absurd (decides_reaches s decides) (hunreached _)

theorem unreached_run (h : Run hostile s.synchronize.run d passes d')
    (hunreached : ∀ p ∈ passes, ∀ response, ¬ Reaches p response) {file : StateFile}
    (hfile : file ≠ .lastSync) : d' file = d file :=
  (h.invariant (I := fun v => v file = d file)
    (fun _ hexec hC hbefore => (unreached_files s hexec hC hfile).trans hbefore)
    hunreached rfl).1

theorem calls_answered_not_get (bundle : CaBundle) (answer : Except Error BundleApplyOutcome) :
    (answered s bundle answer).run.Calls fun op : SyncOp => ∀ request, op ≠ .get request := by
  match answer with
  | .ok .applied => exact (calls_conclude s bundle).mono fun op => storing_not_get s
  | .ok .rolledBack =>
    refine calls_bind ((calls_acknowledge s _).mono fun op hop request hget => ?_) fun _ => trivial
    rw [hget] at hop
    exact hop
  | .error e => trivial

/-- Nothing is posted by a pass that finds the offered bundle recorded. -/
theorem repeated_unposted {q : SyncPass StateDir} {bundle : CaBundle} {response : HttpResponse}
    (h : Exec hostile s.synchronize.run q.before q.trace q.result q.after)
    (hgeneration : q.before.readGeneration = .ok (some bundle.generation))
    (hfingerprint : q.before.readString .fingerprint = .ok (some bundle.fingerprint))
    (hreaches : Reaches q response)
    (hrepeats : Repeats s response bundle.generation bundle.fingerprint) : Unposted q.trace := by
  rcases course_asked s (exec_course s hostile_respects h) with hunposted | ⟨head, rest, v, v',
    persisted, received, offered, answer, htrace, hdecides, _, hanswered⟩
  · exact hunposted
  exfalso
  obtain ⟨u, u', request, hget⟩ := hreaches
  rw [htrace] at hget
  obtain rfl := hdecides.response_eq s (asking_not_get
    (hanswered.event_calls (calls_answered_not_get s offered answer))) hget
  obtain ⟨hjudged, _, hdiffers⟩ := hdecides.decided
  obtain ⟨_, hsuccess, raw, hraw, haccepted⟩ := hjudged.accepts
  rcases hrepeats with hstatus | ⟨_, raw', hraw', hsame⟩
  · rw [hstatus] at hsuccess
    exact absurd hsuccess (by decide)
  obtain rfl : raw = raw' := Option.some.inj (hraw.symm.trans hraw')
  have hcarries := (fromResponse_sound haccepted).2
  obtain ⟨hloaded, hloaded', _⟩ := load_eq_ok.mp hdecides.load
  apply hdiffers
  rw [← Except.ok.inj (hgeneration.symm.trans hloaded),
    ← Except.ok.inj (hfingerprint.symm.trans hloaded'), ← hsame.1, ← hsame.2]
  exact ⟨hcarries.generation, hcarries.fingerprint⟩

theorem lost_unposted (h : Run hostile s.synchronize.run d passes d') {q : SyncPass StateDir}
    {generation : UInt64} {fingerprint : Text}
    (hlost : LostAcknowledgement s passes q generation fingerprint) : Unposted q.trace := by
  obtain ⟨earlier, o, between, later, rfl, hupdated, hunreached, response, hreaches, hrepeats⟩ :=
    hlost
  obtain ⟨_, _, hrun⟩ := h.split
  cases hrun with
  | @cons _ _ _ trace result _ hfirst hrun =>
    obtain ⟨_, hbetween, hrun⟩ := hrun.split
    cases hrun with
    | cons hexec _ =>
      obtain rfl := hupdated
      obtain ⟨bundle, happlied, rfl, rfl, hfiles⟩ := updated_stored s hostile_respects hfirst
      have hkept : ∀ file, IsRecord file → _ = Entry.regular (recordLine bundle file) :=
        fun file hfile => (unreached_run s hbetween hunreached (by
          rintro rfl
          simp [IsRecord] at hfile)).trans (hfiles file hfile)
      exact repeated_unposted s hexec (readGeneration_recordLine (hkept .generation (Or.inl rfl)))
        (readString_applied s happlied (hkept .fingerprint (Or.inr rfl))) hreaches hrepeats

/-- An acknowledgement that got lost is never posted by the pass that is offered the same bundle
again. -/
theorem lost_never_retried (h : Run hostile s.synchronize.run d passes d') {q : SyncPass StateDir}
    {generation : UInt64} {fingerprint : Text}
    (hlost : LostAcknowledgement s passes q generation fingerprint) :
    ¬ ∃ e ∈ q.trace, Acknowledges s e.op (owedReport generation fingerprint) := by
  rintro ⟨e, he, signed, body, _, hop⟩
  have hunposted := lost_unposted s h hlost e he
  rw [hop] at hunposted
  cases hunposted

/-- The server takes the golden bundle's acknowledgement for an outage, and then has no news. -/
def unheard : SyncPass StateDir :=
  Script.pass { get := .ok ⟨200, sampleBody golden⟩, post := .ok ⟨503, []⟩, apply := .ok .applied }
    StateDir.empty

def current : Script := { get := .ok ⟨304, []⟩, post := .ok ⟨200, []⟩, apply := .ok .applied }

theorem unheard_run :
    Run hostile (sampleService none).synchronize.run StateDir.empty
      [unheard, current.pass unheard.after] (current.pass unheard.after).after :=
  Script.run _ (current.run (Run.nil _))

def asksBundle (e : SyncEvent StateDir) : Bool := e.op matches .get _

theorem Script.reaches {c : Script} {dir : StateDir} {response : HttpResponse}
    (hget : c.get = .ok response)
    (h : (c.pass dir).trace.any asksBundle = true) :
    Reaches (c.pass dir) response := by
  obtain ⟨⟨v, op, answer, v'⟩, he, hop⟩ := List.any_eq_true.mp h
  cases op with
  | get request =>
    obtain rfl := (Script.get_eq he).trans hget
    exact ⟨v, v', request, he⟩
  | _ => cases hop

theorem unheard_played :
    unheard.result = some (.ok (.updated 42 golden.fingerprint false)) ∧
      (current.pass unheard.after).result.isSome = true ∧
      (current.pass unheard.after).trace.any asksBundle = true := by
  decide +kernel

theorem unheard_lost :
    LostAcknowledgement (sampleService none) [unheard, current.pass unheard.after]
      (current.pass unheard.after) 42 golden.fingerprint := by
  obtain ⟨hupdated, _, hreaches⟩ := unheard_played
  exact ⟨[], unheard, [], [], rfl, hupdated, by simp, _, Script.reaches rfl hreaches, Or.inl rfl⟩

theorem lost_never_retried_unheard :
    ¬ ∃ e ∈ (current.pass unheard.after).trace,
      Acknowledges (sampleService none) e.op (owedReport 42 golden.fingerprint) :=
  lost_never_retried _ unheard_run unheard_lost

theorem Script.clean (c : Script) (dir : StateDir) :
    Clean (sampleService none) (c.pass dir).trace where
  writes := fun _ _ _ _ _ he =>
    (Prod.mk.inj (Option.some.inj ((c.exec dir).event_env _ he))).1.symm
  clock := fun _ _ t he => by
    obtain rfl : sampleNow = t :=
      (Prod.mk.inj (Option.some.inj ((c.exec dir).event_env _ he))).1
    simp [(sampleService_capable none).stamp]

/-- A 503 to the acknowledgement of generation 42 is followed by a 304, and nothing is posted. -/
theorem lost_not_retried :
    ∃ passes d', Run hostile (sampleService none).synchronize.run StateDir.empty passes d' ∧
      ¬ RetriesLost (sampleService none) passes := by
  refine ⟨_, _, unheard_run, fun hretries => ?_⟩
  have hcomplete : (current.pass unheard.after).result ≠ none :=
    Option.isSome_iff_ne_none.mp unheard_played.2.1
  have hunhindered : Unhindered (sampleService none) (current.pass unheard.after) := by
    refine ⟨hcomplete, current.clean _, fun v v' request answer he => ⟨⟨200, []⟩, ?_, by decide⟩⟩
    exact (Prod.mk.inj (Option.some.inj ((current.exec _).event_env _ he))).1.symm
  obtain ⟨e, he, signed, body, _, hop⟩ := hretries _ _ _ unheard_lost hunhindered
  have hunposted := lost_unposted _ unheard_run unheard_lost e he
  rw [hop] at hunposted
  cases hunposted

end Passes

end MayflyAgent.Acknowledgements
