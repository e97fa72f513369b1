import MayflyAgent.SyncPasses

/-!
The courses a pass can take, from the survey to the last write. A pass hands at most
one body to the helper: the rendering of the bundle it has just been offered. Only
after the helper confirmed it does the pass touch the generation and the fingerprint.
-/
namespace MayflyAgent.SyncCourses

open RustText Programs Checks Errors Bundles BundleValidation TrustedCa StateFiles CaSync
open SyncPasses

variable {W : Type} (s : CaSyncService)

/-- The helper confirmed an apply of these contents. -/
def Confirmed (trace : List (SyncEvent W)) (contents : Text) : Prop :=
  ∃ v v', applyEvent v v' contents (.ok .applied) ∈ trace

/-- A GET was answered with the bundle, which validation accepts under the pin by a reading of the
clock behind the answer. -/
def Offered (trace : List (SyncEvent W)) (pin : Option Text) (bundle : CaBundle) : Prop :=
  ∃ front u now u' rest v v' request response,
    trace = front ++ clockEvent u u' now :: rest ∧
    getEvent v v' request (.ok response) ∈ front ∧ Accepts s now response pin bundle

theorem Offered.append {first : List (SyncEvent W)} {pin : Option Text} {bundle : CaBundle}
    (h : Offered s first pin bundle) (rest : List (SyncEvent W)) :
    Offered s (first ++ rest) pin bundle := by
  obtain ⟨front, u, now, u', between, v, v', request, response, rfl, hget, haccepts⟩ := h
  refine ⟨front, u, now, u', between ++ rest, v, v', request, response, ?_, hget, haccepts⟩
  rw [List.append_assoc, List.cons_append]

/-- An offered bundle was received. -/
theorem Offered.received {trace : List (SyncEvent W)} {pin : Option Text} {bundle : CaBundle}
    (h : Offered s trace pin bundle) : ∃ now v v' request response,
      getEvent v v' request (.ok response) ∈ trace ∧ Accepts s now response pin bundle := by
  obtain ⟨front, u, now, u', rest, v, v', request, response, rfl, hget, haccepts⟩ := h
  exact ⟨now, v, v', request, response, List.mem_append_left _ hget, haccepts⟩

/-- What was received in front of the last reading of the clock and is accepted by it, is
offered. -/
theorem offered_of_judged {trace : List (SyncEvent W)} {v v' : W} {request : HttpRequest}
    {response : HttpResponse} {pin : Option Text} {bundle : CaBundle}
    (hget : getEvent v v' request (.ok response) ∈ trace)
    (h : Judged s trace response pin bundle) : Offered s trace pin bundle := by
  obtain ⟨first, u, now, u', rfl, haccepts⟩ := h
  refine ⟨first, u, now, u', [], v, v', request, response, rfl, ?_, haccepts⟩
  rcases List.mem_append.mp hget with hget | hget
  · exact hget
  · cases List.mem_singleton.mp hget

/-- The bundle was offered and its rendering applied. -/
structure Applied (trace : List (SyncEvent W)) (bundle : CaBundle) : Prop where
  offered : ∃ pin, Offered s trace pin bundle
  confirmed : Confirmed trace (renderTrustedUserCaKeys bundle)

theorem Applied.append {first : List (SyncEvent W)} {bundle : CaBundle} (h : Applied s first bundle)
    (rest : List (SyncEvent W)) : Applied s (first ++ rest) bundle := by
  obtain ⟨⟨pin, hoffered⟩, u, u', hconfirmed⟩ := h
  exact ⟨⟨pin, hoffered.append s rest⟩, u, u', List.mem_append_left _ hconfirmed⟩

/-- A survey that ran to a decision, and what it left untouched. -/
structure Decides (env : Environment syncSignature W) (dir : W → StateDir) (w : W)
    (head : List (SyncEvent W)) (v : W) (persisted : PersistedState) (response : HttpResponse)
    (decision : Decision) : Prop extends
    Surveyed s dir w head persisted response decision where
  ops : ∀ e ∈ head, IsSurveying e.op
  files : ∀ file, file ≠ .lastSync → dir v file = dir w file
  run : Exec env (survey s).run w head (some (.ok (persisted, decision))) v

inductive Course (env : Environment syncSignature W) (dir : W → StateDir) (w : W) :
    List (SyncEvent W) → Option (Except Error SyncOutcome) → W → Prop
  | killed {trace : List (SyncEvent W)} {w' : W} (ops : ∀ e ∈ trace, IsSurveying e.op)
      (files : ∀ file, file ≠ .lastSync → dir w' file = dir w file) :
      Course env dir w trace none w'
  | failed {trace : List (SyncEvent W)} {w' : W} {e : Error}
      {result : Option (Except Error SyncOutcome)} (ops : ∀ e ∈ trace, IsSurveying e.op)
      (files : ∀ file, file ≠ .lastSync → dir w' file = dir w file)
      (run : Exec env (survey s).run w trace (some (.error e)) w')
      (hresult : result = none ∨ result = some (.error e)) :
      Course env dir w trace result w'
  | notModified {head tail : List (SyncEvent W)} {v w' : W} {persisted : PersistedState}
      {response : HttpResponse} {result : Option (Except Error SyncOutcome)}
      (decides : Decides s env dir w head v persisted response .notModified)
      (ops : ∀ e ∈ tail, IsStamp .lastSuccess e.op)
      (settles : Exec env (settle s persisted .notModified).run v tail result w') :
      Course env dir w (head ++ tail) result w'
  | unchanged {head tail : List (SyncEvent W)} {v w' : W} {persisted : PersistedState}
      {response : HttpResponse} {bundle : CaBundle} {result : Option (Except Error SyncOutcome)}
      (decides : Decides s env dir w head v persisted response (.unchanged bundle))
      (ops : ∀ e ∈ tail, IsPinning s bundle e.op)
      (settles : Exec env (settle s persisted (.unchanged bundle)).run v tail result w') :
      Course env dir w (head ++ tail) result w'
  | unasked {head : List (SyncEvent W)} {w' : W} {persisted : PersistedState}
      {response : HttpResponse} {bundle : CaBundle} {result : Option (Except Error SyncOutcome)}
      (decides : Decides s env dir w head w' persisted response (.apply bundle))
      (hresult : result = none ∨ ∃ e, result = some (.error e) ∧
        TrustedCaKeys.parse (renderTrustedUserCaKeys bundle) = .error e) :
      Course env dir w head result w'
  | applied {head rest : List (SyncEvent W)} {v v' w' : W} {persisted : PersistedState}
      {response : HttpResponse} {bundle : CaBundle} {result : Option (Except Error SyncOutcome)}
      (decides : Decides s env dir w head v persisted response (.apply bundle))
      (moves : env v (.apply (renderTrustedUserCaKeys bundle)) (.ok .applied) v')
      (ops : ∀ e ∈ rest, IsStoring s bundle e.op)
      (concludes : Exec env (conclude s bundle).run v' rest result w') :
      Course env dir w
        (head ++ applyEvent v v' (renderTrustedUserCaKeys bundle) (.ok .applied) :: rest) result w'
  | declined {head rest : List (SyncEvent W)} {v v' w' : W} {persisted : PersistedState}
      {response : HttpResponse} {bundle : CaBundle} {result : Option (Except Error SyncOutcome)}
      {answer : Except Error BundleApplyOutcome}
      (decides : Decides s env dir w head v persisted response (.apply bundle))
      (moves : env v (.apply (renderTrustedUserCaKeys bundle)) answer v')
      (refuses : answer ≠ .ok .applied)
      (ops : ∀ e ∈ rest, IsAcknowledging e.op)
      (files : dir w' = dir v')
      (hresult : result = none ∨ ∃ e, result = some (.error e))
      (settles : Exec env (answered s bundle answer).run v' rest result w') :
      Course env dir w
        (head ++ applyEvent v v' (renderTrustedUserCaKeys bundle) answer :: rest) result w'

section Courses

variable {env : Environment syncSignature W} {dir : W → StateDir} (henv : Respects env dir)
variable {w w' : W} {trace : List (SyncEvent W)}

include henv in
/-- Surveying writes no file but the record of the attempt. -/
theorem survey_files {α : Type} {p : Program syncSignature α} {result : Option α}
    (h : Exec env p w trace result w') (hops : ∀ e ∈ trace, IsSurveying e.op)
    {file : StateFile} (hfile : file ≠ .lastSync) : dir w' file = dir w file := by
  refine file_unwritten henv h file fun e he contents mode hop => hfile ?_
  have hsurveying := hops e he
  rw [hop] at hsurveying
  exact hsurveying

theorem calls_settle_notModified (persisted : PersistedState) :
    (settle s persisted .notModified).run.Calls (IsStamp .lastSuccess) :=
  calls_bind (calls_writeTimestamp s _) fun _ => trivial

theorem calls_settle_unchanged (persisted : PersistedState) (bundle : CaBundle) :
    (settle s persisted (.unchanged bundle)).run.Calls (IsPinning s bundle) :=
  calls_bind (calls_persistPin s bundle) fun _ =>
    calls_bind (calls_lastSuccess s bundle) fun _ => trivial

include henv in
theorem acknowledging_files {α : Type} {p : Program syncSignature α} {result : Option α}
    (h : Exec env p w trace result w') (hops : ∀ e ∈ trace, IsAcknowledging e.op) :
    dir w' = dir w := by
  refine files_unwritten henv h fun e he file contents mode hop => ?_
  have hacknowledging := hops e he
  rw [hop] at hacknowledging
  exact hacknowledging

include henv in
theorem survey_decides {persisted : PersistedState} {decision : Decision}
    (h : Exec env (survey s).run w trace (some (.ok (persisted, decision))) w') :
    ∃ response, Decides s env dir w trace w' persisted response decision := by
  have hops := h.event_calls (calls_survey s)
  obtain ⟨response, hsurveyed⟩ := exec_survey s henv h
  exact ⟨response, { hsurveyed with
    ops := hops
    files := fun file hfile => survey_files henv h hops hfile
    run := h }⟩

include henv in
/-- Every execution of a pass takes one of the courses. -/
theorem exec_course {result : Option (Except Error SyncOutcome)}
    (h : Exec env s.synchronize.run w trace result w') : Course s env dir w trace result w' := by
  rw [synchronize_eq] at h
  rcases exec_action_bind h with
    ⟨rfl, hkill⟩ | ⟨e, hresult, herror⟩ |
    ⟨⟨persisted, decision⟩, head, tail, v, rfl, hhead, hsettle⟩
  · have hops := hkill.event_calls (calls_survey s)
    exact Course.killed hops fun file hfile => survey_files henv hkill hops hfile
  · have hops := herror.event_calls (calls_survey s)
    exact Course.failed hops (fun file hfile => survey_files henv herror hops hfile) herror hresult
  obtain ⟨response, hdecides⟩ := survey_decides s henv hhead
  cases decision with
  | notModified =>
    exact Course.notModified hdecides (hsettle.event_calls (calls_settle_notModified s _)) hsettle
  | unchanged bundle =>
    exact Course.unchanged hdecides (hsettle.event_calls (calls_settle_unchanged s _ _)) hsettle
  | apply bundle =>
    rcases exec_settle_apply s hsettle with ⟨rfl, rfl, hresult⟩ | ⟨v', rest, answer, rfl, hrest⟩
    · rw [List.append_nil]
      exact Course.unasked hdecides hresult
    have hmoves := hsettle.event_env _ (List.mem_cons_self ..)
    by_cases hconfirmed : answer = .ok .applied
    · subst hconfirmed
      exact Course.applied hdecides hmoves (hrest.event_calls (calls_conclude s bundle)) hrest
    · obtain ⟨hack, hresult⟩ := exec_answered_refused s hconfirmed hrest
      exact Course.declined hdecides hmoves hconfirmed hack (acknowledging_files henv hrest hack)
        hresult hrest

end Courses

theorem carries_unique {ext : Crypto} {raw : CaBundleResponse} {b c : CaBundle}
    (hb : Carries ext raw b) (hc : Carries ext raw c) : b = c := by
  obtain ⟨version, generation, fingerprint, created, expires, keys, signingKey⟩ := b
  obtain ⟨version', generation', fingerprint', created', expires', keys', signingKey'⟩ := c
  have hversion : version = version' := hb.version.trans hc.version.symm
  have hgeneration : generation = generation' :=
    Option.some.inj (hb.generation.symm.trans hc.generation)
  have hfingerprint : fingerprint = fingerprint' :=
    Option.some.inj (hb.fingerprint.symm.trans hc.fingerprint)
  have hcreated : created = created' := Option.some.inj (hb.createdAt.symm.trans hc.createdAt)
  have hexpires : expires = expires' := Option.some.inj (hb.expiresAt.symm.trans hc.expiresAt)
  have hkeys : keys = keys' := hb.keys.trans hc.keys.symm
  have hkey : signingKey = signingKey' := Option.some.inj (hb.signingKey.symm.trans hc.signingKey)
  rw [hversion, hgeneration, hfingerprint, hcreated, hexpires, hkeys, hkey]

theorem accepts_unique {response : HttpResponse} {pin pin' : Option Text} {b c : CaBundle}
    {now now' : Time} (hb : Accepts s now response pin b) (hc : Accepts s now' response pin' c) :
    b = c := by
  obtain ⟨_, raw, hraw, hb⟩ := hb
  obtain ⟨_, raw', hraw', hc⟩ := hc
  obtain rfl : raw = raw' := Option.some.inj (hraw.symm.trans hraw')
  exact carries_unique (fromResponse_sound hb).2 (fromResponse_sound hc).2

def isApply : SyncOp → Bool
  | .apply _ => true
  | _ => false

/-- The files that are written only once the helper confirmed. -/
def IsRecord (file : StateFile) : Prop := file = .generation ∨ file = .fingerprint

/-- The contents such a file gets. -/
def recordLine (bundle : CaBundle) : StateFile → Bytes
  | .generation => storedLine (decimal bundle.generation.toNat)
  | _ => storedLine bundle.fingerprint

/-- A call that neither asks the helper nor writes a record. -/
def IsQuiet : SyncOp → Prop
  | .secureWrite file _ _ => ¬ IsRecord file
  | .apply _ => False
  | _ => True

/-- Nothing was confirmed and no record was written. -/
structure Quiet (trace : List (SyncEvent W)) : Prop where
  unconfirmed : ∀ contents, ¬ Confirmed trace contents
  unrecorded : ∀ e ∈ trace, ∀ file contents mode, IsRecord file →
    e.op ≠ .secureWrite file contents mode

section Exclusions

variable {trace : List (SyncEvent W)} {bundle : CaBundle} {op : SyncOp}

theorem surveying_quiet (h : IsSurveying op) : IsQuiet op := by
  cases op with
  | secureWrite file contents mode =>
    obtain rfl : file = .lastSync := h
    simp [IsQuiet, IsRecord]
  | apply contents => exact h
  | _ => trivial

theorem stamp_quiet (h : IsStamp .lastSuccess op) : IsQuiet op := by
  cases op with
  | secureWrite file contents mode =>
    obtain rfl : file = .lastSuccess := h
    simp [IsQuiet, IsRecord]
  | apply contents => exact h
  | _ => trivial

theorem pinning_quiet (h : IsPinning s bundle op) : IsQuiet op := by
  cases op with
  | secureWrite file contents mode =>
    cases file <;> first | exact absurd h not_false | simp [IsQuiet, IsRecord]
  | apply contents => exact h
  | _ => trivial

theorem acknowledging_quiet (h : IsAcknowledging op) : IsQuiet op := by
  cases op with
  | secureWrite file contents mode => exact absurd h not_false
  | apply contents => exact h
  | _ => trivial

theorem quiet_not_apply (h : IsQuiet op) : isApply op = false := by
  cases op <;> first | rfl | exact absurd h not_false

theorem storing_not_apply (h : IsStoring s bundle op) : isApply op = false := by
  cases op <;> first | rfl | exact absurd h not_false

theorem storing_not_get (h : IsStoring s bundle op) (request : HttpRequest) :
    op ≠ .get request := by
  rintro rfl
  exact h

theorem storing_record {file : StateFile} {contents : Bytes} {mode : UInt32}
    (h : IsStoring s bundle (.secureWrite file contents mode)) (hfile : IsRecord file) :
    contents = recordLine bundle file := by
  rcases hfile with rfl | rfl <;> exact h

theorem quiet_of_ops (h : ∀ e ∈ trace, IsQuiet e.op) : Quiet trace := by
  constructor
  · rintro contents ⟨v, v', hmem⟩
    exact h _ hmem
  · intro e he file contents mode hfile hop
    have hwrite := h e he
    rw [hop] at hwrite
    exact hwrite hfile

/-- An answer other than a confirmation leaves a trace quiet. -/
theorem quiet_of_refusal {head rest : List (SyncEvent W)} {v v' : W} {contents : Text}
    {answer : Except Error BundleApplyOutcome} (hhead : ∀ e ∈ head, IsQuiet e.op)
    (hrest : ∀ e ∈ rest, IsQuiet e.op) (hrefuses : answer ≠ .ok .applied) :
    Quiet (head ++ applyEvent v v' contents answer :: rest) := by
  have hsplit : ∀ {P : SyncEvent W → Prop}, P (applyEvent v v' contents answer) →
      (∀ e, IsQuiet e.op → P e) → ∀ e ∈ head ++ applyEvent v v' contents answer :: rest, P e := by
    intro P hevent hquiet e he
    rcases List.mem_append.mp he with he | he
    · exact hquiet e (hhead e he)
    · rcases List.mem_cons.mp he with rfl | he
      · exact hevent
      · exact hquiet e (hrest e he)
  constructor
  · rintro other ⟨u, u', hmem⟩
    refine hsplit (P := fun e => e ≠ applyEvent u u' other (.ok .applied)) ?_ ?_ _ hmem rfl
    · intro heq
      cases heq
      exact hrefuses rfl
    · rintro e hquiet rfl
      exact hquiet
  · refine hsplit ?_ fun e hquiet file contents mode hfile hop => ?_
    · intro file contents mode _ hop
      cases hop
    · rw [hop] at hquiet
      exact hquiet hfile

end Exclusions

section Courses

variable {env : Environment syncSignature W} {dir : W → StateDir} {w w' : W}
variable {trace : List (SyncEvent W)} {result : Option (Except Error SyncOutcome)}

theorem quiet_append {head tail : List (SyncEvent W)}
    (hhead : ∀ e ∈ head, IsSurveying e.op) (htail : ∀ e ∈ tail, IsQuiet e.op) :
    ∀ e ∈ head ++ tail, IsQuiet e.op := by
  intro e he
  rcases List.mem_append.mp he with he | he
  · exact surveying_quiet (hhead e he)
  · exact htail e he

/-- Either the helper is never asked, or it is asked once, for the decided bundle. -/
theorem Course.asks (h : Course s env dir w trace result w') :
    (∀ e ∈ trace, IsQuiet e.op) ∨
    ∃ head rest v v' answer persisted response bundle,
      trace = head ++ applyEvent v v' (renderTrustedUserCaKeys bundle) answer :: rest ∧
      Decides s env dir w head v persisted response (.apply bundle) ∧
      ∀ e ∈ rest, isApply e.op = false := by
  cases h with
  | killed ops => exact Or.inl fun e he => surveying_quiet (ops e he)
  | failed ops => exact Or.inl fun e he => surveying_quiet (ops e he)
  | notModified decides ops =>
    exact Or.inl (quiet_append decides.ops fun e he => stamp_quiet (ops e he))
  | unchanged decides ops =>
    exact Or.inl (quiet_append decides.ops fun e he => pinning_quiet s (ops e he))
  | unasked decides => exact Or.inl fun e he => surveying_quiet (decides.ops e he)
  | applied decides moves ops =>
    exact Or.inr ⟨_, _, _, _, _, _, _, _, rfl, decides, fun e he => storing_not_apply s (ops e he)⟩
  | declined decides moves refuses ops =>
    exact Or.inr ⟨_, _, _, _, _, _, _, _, rfl, decides, fun e he =>
      quiet_not_apply (acknowledging_quiet (ops e he))⟩

/-- Either the pass was quiet, or the helper confirmed and the pass went on to conclude. -/
theorem Course.confirms (h : Course s env dir w trace result w') :
    Quiet trace ∨
    ∃ head rest v v' persisted response bundle,
      trace = head ++ applyEvent v v' (renderTrustedUserCaKeys bundle) (.ok .applied) :: rest ∧
      Decides s env dir w head v persisted response (.apply bundle) ∧
      env v (.apply (renderTrustedUserCaKeys bundle)) (.ok .applied) v' ∧
      (∀ e ∈ rest, IsStoring s bundle e.op) ∧
      Exec env (conclude s bundle).run v' rest result w' := by
  cases h with
  | killed ops => exact Or.inl (quiet_of_ops fun e he => surveying_quiet (ops e he))
  | failed ops => exact Or.inl (quiet_of_ops fun e he => surveying_quiet (ops e he))
  | notModified decides ops =>
    exact Or.inl (quiet_of_ops (quiet_append decides.ops fun e he => stamp_quiet (ops e he)))
  | unchanged decides ops =>
    exact Or.inl (quiet_of_ops (quiet_append decides.ops fun e he => pinning_quiet s (ops e he)))
  | unasked decides => exact Or.inl (quiet_of_ops fun e he => surveying_quiet (decides.ops e he))
  | applied decides moves ops concludes =>
    exact Or.inr ⟨_, _, _, _, _, _, _, rfl, decides, moves, ops, concludes⟩
  | declined decides moves refuses ops =>
    exact Or.inl (quiet_of_refusal (fun e he => surveying_quiet (decides.ops e he))
      (fun e he => acknowledging_quiet (ops e he)) refuses)

/-- The response that was decided on offers the bundle that it is accepted as. -/
theorem Decides.offers {head : List (SyncEvent W)} {v : W} {persisted : PersistedState}
    {response : HttpResponse} {decision : Decision} {bundle : CaBundle}
    (h : Decides s env dir w head v persisted response decision)
    (hjudged : Judged s head response (s.expectedSigningKey persisted) bundle) :
    Offered s head (s.expectedSigningKey persisted) bundle := by
  obtain ⟨u, u', signed, hmem⟩ := h.fetched
  exact offered_of_judged s hmem hjudged

theorem Decides.offered {head : List (SyncEvent W)} {v : W} {persisted : PersistedState}
    {response : HttpResponse} {bundle : CaBundle}
    (h : Decides s env dir w head v persisted response (.apply bundle)) :
    Offered s head (s.expectedSigningKey persisted) bundle := h.offers s h.decided.1

/-- A decision for a bundle and a confirmation make it an applied one. -/
theorem Decides.applied {head : List (SyncEvent W)} {v v' : W} {persisted : PersistedState}
    {response : HttpResponse} {bundle : CaBundle}
    (h : Decides s env dir w head v persisted response (.apply bundle))
    (rest : List (SyncEvent W)) :
    Applied s (head ++ applyEvent v v' (renderTrustedUserCaKeys bundle) (.ok .applied) :: rest)
      bundle :=
  ⟨⟨_, (h.offered s).append s _⟩, v, v', List.mem_append_right _ (List.mem_cons_self ..)⟩

/-- The response that was decided on is the only one the pass received. -/
theorem Decides.response_eq {head rest : List (SyncEvent W)} {v x x' : W}
    {persisted : PersistedState} {response received : HttpResponse} {decision : Decision}
    {request : HttpRequest} (h : Decides s env dir w head v persisted response decision)
    (hrest : ∀ e ∈ rest, ∀ request, e.op ≠ .get request)
    (hget : getEvent x x' request (.ok received) ∈ head ++ rest) : received = response := by
  rcases List.mem_append.mp hget with hget | hget
  · exact Except.ok.inj (h.only _ _ _ _ hget)
  · exact absurd rfl (hrest _ hget request)

theorem asking_not_get {rest : List (SyncEvent W)} {v v' : W} {contents : Text}
    {answer : Except Error BundleApplyOutcome}
    (hrest : ∀ e ∈ rest, ∀ request, e.op ≠ .get request) :
    ∀ e ∈ applyEvent v v' contents answer :: rest, ∀ request, e.op ≠ .get request := by
  intro e he request hop
  rcases List.mem_cons.mp he with rfl | he
  · cases hop
  · exact hrest e he request hop

/-- The bundle that was decided on is the only one the pass can have applied. -/
theorem Decides.applied_eq {head rest : List (SyncEvent W)} {v v' : W}
    {persisted : PersistedState} {response : HttpResponse} {decided bundle : CaBundle}
    {contents : Text} {answer : Except Error BundleApplyOutcome}
    (h : Decides s env dir w head v persisted response (.apply decided))
    (hops : ∀ e ∈ rest, IsStoring s decided e.op)
    (hbundle : Applied s (head ++ applyEvent v v' contents answer :: rest) bundle) :
    bundle = decided := by
  obtain ⟨pin, hoffered⟩ := hbundle.offered
  obtain ⟨now, u, u', request, received, hget, haccepts⟩ := hoffered.received
  obtain rfl := h.response_eq s (asking_not_get fun e he => storing_not_get s (hops e he)) hget
  obtain ⟨_, hdecided⟩ := h.decided.1.accepts
  exact accepts_unique s haccepts hdecided

/-- The bundle that a pass applied is the one it concluded with. -/
theorem Course.of_applied {bundle : CaBundle} (h : Course s env dir w trace result w')
    (hbundle : Applied s trace bundle) :
    ∃ head rest v v' persisted response,
      trace = head ++ applyEvent v v' (renderTrustedUserCaKeys bundle) (.ok .applied) :: rest ∧
      Decides s env dir w head v persisted response (.apply bundle) ∧
      (∀ e ∈ rest, IsStoring s bundle e.op) ∧
      Exec env (conclude s bundle).run v' rest result w' := by
  rcases h.confirms with hquiet | ⟨head, rest, v, v', persisted, response, other, rfl, hdecides, _,
    hops, hconclude⟩
  · exact absurd hbundle.confirmed (hquiet.unconfirmed _)
  obtain rfl := hdecides.applied_eq s hops hbundle
  exact ⟨head, rest, v, v', persisted, response, rfl, hdecides, hops, hconclude⟩

theorem Course.applied_unique {b c : CaBundle} (h : Course s env dir w trace result w')
    (hb : Applied s trace b) (hc : Applied s trace c) : b = c := by
  obtain ⟨head, rest, v, v', persisted, response, rfl, hdecides, hops, _⟩ := h.of_applied s hb
  exact (hdecides.applied_eq s hops hc).symm

end Courses

/-- What stands neither in front of an element nor in its place stands behind it. -/
theorem split_behind {α : Type} {first rest head tail : List α} {a e : α}
    (heq : first ++ e :: rest = head ++ a :: tail) (hhead : e ∉ head) (hne : e ≠ a) :
    ∃ mid, first = head ++ a :: mid ∧ e ∈ tail := by
  rcases split_append heq with ⟨mid, rfl, _⟩ | ⟨mid, rfl, hmid⟩
  · exact absurd (by simp) hhead
  · cases mid with
    | nil => exact absurd (List.cons.inj hmid).1.symm hne
    | cons x mid =>
      obtain ⟨rfl, rfl⟩ := List.cons.inj hmid
      exact ⟨mid, rfl, by simp⟩

/-- Where just one element of a list has a property, the list splits there in one way only. -/
theorem split_only {α : Type} {p : α → Bool} {first rest head tail : List α} {a e : α}
    (heq : first ++ e :: rest = head ++ a :: tail) (hhead : ∀ x ∈ head, p x = false)
    (htail : ∀ x ∈ tail, p x = false) (he : p e = true) : e = a ∧ first = head := by
  rcases split_append heq with ⟨mid, rfl, _⟩ | ⟨mid, rfl, hmid⟩
  · rw [hhead e (by simp)] at he
    cases he
  · cases mid with
    | nil => exact ⟨(List.cons.inj hmid).1.symm, List.append_nil head⟩
    | cons x mid =>
      obtain ⟨_, rfl⟩ := List.cons.inj hmid
      rw [htail e (by simp)] at he
      cases he

section Files

variable {env : Environment syncSignature W} {dir : W → StateDir} (henv : Respects env dir)
variable {w w' : W} {trace : List (SyncEvent W)}

include henv in
/-- A file that is only written with fixed contents holds these or what it held. -/
theorem file_written {α : Type} {p : Program syncSignature α} {result : Option α}
    (h : Exec env p w trace result w') (file : StateFile) (stored : Bytes)
    (hops : ∀ e ∈ trace, ∀ contents mode, e.op = .secureWrite file contents mode →
      contents = stored) :
    ∀ e ∈ trace, dir e.after file = dir e.before file ∨ dir e.after file = .regular stored := by
  intro e he
  rcases (henv _ _ _ _ (h.event_env e he)).file file with hsame | ⟨contents, mode, hop, hafter⟩
  · exact Or.inl hsame
  · rw [hops e he contents mode hop] at hafter
    exact Or.inr hafter

include henv in
/-- Once such a file has been written, it stays. -/
theorem written_sticks {α : Type} {p : Program syncSignature α} {result : Option α}
    (h : Exec env p w trace result w') {file : StateFile} {stored : Bytes}
    (hops : ∀ e ∈ trace, ∀ contents mode, e.op = .secureWrite file contents mode →
      contents = stored) {e : SyncEvent W} (he : e ∈ trace)
    (hafter : dir e.after file = .regular stored) : dir w' file = .regular stored := by
  have hwritten := file_written henv h file stored hops
  have hsticks := h.relates_around
    (R := fun u v => dir u file = .regular stored → dir v file = .regular stored) ?_ ?_ ?_ e he
  · exact hsticks.2 hafter
  · exact fun _ => id
  · exact fun _ _ _ huv hvx hu => hvx (huv hu)
  · intro e he hbefore
    rcases hwritten e he with hsame | hnew
    · exact hsame.trans hbefore
    · exact hnew

/-- The number in the generation file does not go down. -/
def GenerationLe (d d' : StateDir) : Prop :=
  ∀ g, d.readGeneration = .ok (some g) → ∃ g', d'.readGeneration = .ok (some g') ∧ g ≤ g'

theorem GenerationLe.refl (d : StateDir) : GenerationLe d d := fun g hg => ⟨g, hg, UInt64.le_refl g⟩

theorem GenerationLe.trans {d₁ d₂ d₃ : StateDir} (h : GenerationLe d₁ d₂)
    (h' : GenerationLe d₂ d₃) : GenerationLe d₁ d₃ := by
  intro g hg
  obtain ⟨g₂, hg₂, hle⟩ := h g hg
  obtain ⟨g₃, hg₃, hle'⟩ := h' g₂ hg₂
  exact ⟨g₃, hg₃, UInt64.le_trans hle hle'⟩

theorem GenerationLe.of_same {d d' : StateDir} (h : d' .generation = d .generation) :
    GenerationLe d d' := by
  intro g hg
  refine ⟨g, ?_, UInt64.le_refl g⟩
  rw [StateDir.readGeneration, h]
  exact hg

theorem readGeneration_recordLine {d : StateDir} {bundle : CaBundle}
    (h : d .generation = .regular (recordLine bundle .generation)) :
    d.readGeneration = .ok (some bundle.generation) := readGeneration_storedLine h

theorem fingerprint_graphic (ext : Crypto) (generation : UInt64) (keys : List CaBundleKey) :
    ∀ c ∈ computeFingerprint ext generation keys, isAsciiGraphic c = true := by
  have hprefix : ∀ c ∈ fingerprintPrefix, isAsciiGraphic c = true :=
    List.all_eq_true.mp (by decide +kernel)
  intro c hc
  rcases List.mem_append.mp hc with hc | hc
  · exact hprefix c hc
  · exact isAsciiGraphic_hexEncode hc

/-- A fingerprint is read back as it was stored. -/
theorem readString_fingerprint {d : StateDir} {ext : Crypto} {generation : UInt64}
    {keys : List CaBundleKey}
    (h : d .fingerprint = .regular (storedLine (computeFingerprint ext generation keys))) :
    d.readString .fingerprint = .ok (some (computeFingerprint ext generation keys)) := by
  have htrim : trimText (computeFingerprint ext generation keys) =
      computeFingerprint ext generation keys := trimText_eq_self fun c hc =>
    isWhitespace_graphic (fingerprint_graphic ext generation keys c hc)
  have hread := readString_storedLine h (by
    rw [htrim]
    exact List.append_ne_nil_of_left_ne_nil (by decide +kernel) _)
  rwa [htrim] at hread

/-- What is loaded from the generation file bounds the bundle that may be applied. -/
theorem Decides.generation_le {head : List (SyncEvent W)} {v : W} {persisted : PersistedState}
    {response : HttpResponse} {bundle : CaBundle} {g : UInt64}
    (h : Decides s env dir w head v persisted response (.apply bundle))
    (hg : (dir w).readGeneration = .ok (some g)) : g ≤ bundle.generation := by
  have hload := (load_eq_ok.mp h.load).1
  exact h.decided.2.1 g (Except.ok.inj (hload.symm.trans hg))

include henv in
theorem generation_after_apply {bundle : CaBundle} {α : Type} {p : Program syncSignature α}
    {result : Option α} (h : Exec env p w trace result w')
    (hops : ∀ e ∈ trace, IsStoring s bundle e.op)
    (hle : ∀ g, (dir w).readGeneration = .ok (some g) → g ≤ bundle.generation) :
    ∀ e ∈ trace, GenerationLe (dir e.before) (dir e.after) := by
  have hwritten := file_written henv h .generation (recordLine bundle .generation)
    fun e he contents mode hop => by
      have hstoring := hops e he
      rw [hop] at hstoring
      exact storing_record s hstoring (Or.inl rfl)
  have hbound := (h.invariant (I := fun v => ∀ g, (dir v).readGeneration = .ok (some g) →
    g ≤ bundle.generation) ?_ hle).2
  · intro e he
    rcases hwritten e he with hsame | hstored
    · exact GenerationLe.of_same hsame
    · exact fun g hg => ⟨_, readGeneration_recordLine hstored, (hbound e he).1 g hg⟩
  · intro e he hbefore g hg
    rcases hwritten e he with hsame | hstored
    · rw [StateDir.readGeneration, hsame] at hg
      exact hbefore g hg
    · rw [readGeneration_recordLine hstored] at hg
      cases hg
      exact UInt64.le_refl _

include henv in
/-- No event of a pass lowers the recorded generation. -/
theorem generation_mono {result : Option (Except Error SyncOutcome)}
    (h : Exec env s.synchronize.run w trace result w') :
    ∀ e ∈ trace, GenerationLe (dir e.before) (dir e.after) := by
  have hsame : ∀ e ∈ trace, (∀ contents mode, e.op ≠ .secureWrite .generation contents mode) →
      GenerationLe (dir e.before) (dir e.after) := by
    intro e he hop
    rcases (henv _ _ _ _ (h.event_env e he)).file .generation with hfile | ⟨c, m, hwrite, _⟩
    · exact GenerationLe.of_same hfile
    · exact absurd hwrite (hop c m)
  rcases (exec_course s henv h).confirms with hquiet | ⟨head, rest, v, v', persisted, response,
    bundle, rfl, hdecides, hmoves, hops, hconclude⟩
  · intro e he
    exact hsame e he fun contents mode => hquiet.unrecorded e he _ contents mode (Or.inl rfl)
  intro e he
  rcases List.mem_append.mp he with hhead | htail
  · refine hsame e he fun contents mode hop => ?_
    have hsurveying := hdecides.ops e hhead
    rw [hop] at hsurveying
    cases hsurveying
  rcases List.mem_cons.mp htail with rfl | hrest
  · exact hsame _ he fun contents mode hop => by cases hop
  · refine generation_after_apply s henv hconclude hops ?_ e hrest
    intro g hg
    have hdir : dir v' = dir v := henv _ _ _ _ hmoves
    rw [StateDir.readGeneration, hdir, hdecides.files .generation (by decide)] at hg
    exact hdecides.generation_le s hg

include henv in
/-- A record is written only behind the confirmation of the bundle it records. -/
theorem record_follows_apply {first rest : List (SyncEvent W)} {v v' : W} {file : StateFile}
    {contents : Bytes} {mode : UInt32} {answer : Except Error Unit}
    {result : Option (Except Error SyncOutcome)}
    (h : Exec env s.synchronize.run w
      (first ++ ⟨v, .secureWrite file contents mode, answer, v'⟩ :: rest) result w')
    (hfile : IsRecord file) :
    ∃ bundle, Applied s first bundle ∧ contents = recordLine bundle file := by
  rcases (exec_course s henv h).confirms with hquiet | ⟨head, tail, u, u', persisted, response,
    bundle, heq, hdecides, _, hops, _⟩
  · exact absurd rfl (hquiet.unrecorded _ (List.mem_append_right _ (List.mem_cons_self ..))
      file contents mode hfile)
  have hhead : (⟨v, .secureWrite file contents mode, answer, v'⟩ : SyncEvent W) ∉ head := by
    intro hmem
    obtain rfl : file = .lastSync := hdecides.ops _ hmem
    simp [IsRecord] at hfile
  obtain ⟨mid, rfl, htail⟩ := split_behind heq hhead (by rintro ⟨⟩)
  exact ⟨bundle, hdecides.applied s _, storing_record s (hops _ htail) hfile⟩

/-- The pin is written only where there is none. -/
def PinsOnce (dir : W → StateDir) (e : SyncEvent W) : Prop :=
  ∀ contents mode, e.op = .secureWrite .signingKey contents mode →
    s.pinnedSigningKey = none ∧ dir e.before .signingKey = .missing

theorem pinsOnce_of_other {Q : SyncOp → Prop}
    (hQ : ∀ contents mode, ¬ Q (.secureWrite .signingKey contents mode)) (e : SyncEvent W)
    (he : Q e.op) : PinsOnce s dir e := by
  intro contents mode hop
  rw [hop] at he
  exact absurd he (hQ contents mode)

include henv in
theorem each_persistPin (bundle : CaBundle) :
    Each env (s.persistPinIfNeeded bundle).run (PinsOnce s dir) := by
  intro w trace result w' h e he
  have hread : ∀ e : SyncEvent W, IsRead e.op → PinsOnce s dir e :=
    pinsOnce_of_other s fun _ _ => id
  rcases exec_persistPin s henv h with ⟨_, hreads, _⟩ |
    ⟨hpin, hmissing, v, first, answer, rfl, hreads, _, _⟩
  · exact hread e (hreads e he)
  · rcases List.mem_append.mp he with he | he
    · exact hread e (hreads e he)
    · obtain rfl := List.mem_singleton.mp he
      obtain ⟨hfirst, _⟩ := h.cut_event
      have hsame := file_unwritten henv hfirst .signingKey fun e he contents mode hop => by
        have hreading := hreads e he
        rw [hop] at hreading
        exact hreading
      exact fun _ _ _ => ⟨hpin, hsame.trans hmissing⟩

include henv in
theorem each_conclude (bundle : CaBundle) :
    Each env (conclude s bundle).run (PinsOnce s dir) := by
  have hrecord : ∀ file contents, file ≠ .signingKey →
      Each env (secureWrite file contents modePublic).run (PinsOnce s dir) := by
    intro file contents hfile
    refine each_of_calls (Q := fun op : SyncOp => op = .secureWrite file contents modePublic)
      (calls_bind (calls_perform rfl) fun _ => trivial) (pinsOnce_of_other s ?_)
    intro _ _ heq
    exact hfile (SyncOp.secureWrite.inj heq).1.symm
  refine Each.action_bind ?_ fun _ => Each.action_bind ?_ fun _ => ?_
  · refine Each.action_bind (hrecord _ _ (by decide)) fun _ => ?_
    refine Each.action_bind (hrecord _ _ (by decide)) fun _ => ?_
    refine Each.action_bind (each_persistPin s henv bundle) fun _ => ?_
    exact each_of_calls (calls_writeTimestamp s .lastSuccess)
      (pinsOnce_of_other s (by simp [IsStamp]))
  · exact each_of_calls (calls_acknowledge s _)
      (pinsOnce_of_other s (by simp [IsAcknowledging, IsSigning]))
  · exact each_of_calls (Q := fun _ => False) trivial fun _ h => h.elim

include henv in
theorem each_synchronize : Each env s.synchronize.run (PinsOnce s dir) := by
  rw [synchronize_eq]
  refine Each.action_bind (each_of_calls (calls_survey s)
    (pinsOnce_of_other s (by simp [IsSurveying]))) fun decided => ?_
  obtain ⟨persisted, decision⟩ := decided
  have hstamp : Each env (s.writeTimestamp .lastSuccess).run (PinsOnce s dir) :=
    each_of_calls (calls_writeTimestamp s _) (pinsOnce_of_other s (by simp [IsStamp]))
  have hdone : ∀ {α : Type} (r : Except Error α), Each env (Action.ofExcept r : SyncAction α).run
      (PinsOnce s dir) := fun _ => each_of_calls (Q := fun _ => False) trivial fun _ h => h.elim
  cases decision with
  | notModified => exact Each.action_bind hstamp fun _ => hdone (.ok _)
  | unchanged bundle =>
    refine Each.action_bind (each_persistPin s henv bundle) fun _ => ?_
    exact Each.action_bind hstamp fun _ => hdone (.ok _)
  | apply bundle =>
    refine Each.action_bind ?_ fun outcome => ?_
    · refine each_of_calls (Q := fun op : SyncOp => isApply op = true)
        (calls_bind trivial fun _ => calls_bind (calls_perform rfl) fun _ => trivial)
        (pinsOnce_of_other s ?_)
      intro _ _ happly
      cases happly
    · cases outcome with
      | applied => exact each_conclude s henv bundle
      | rolledBack =>
        refine Each.action_bind (each_of_calls (calls_acknowledge s _)
          (pinsOnce_of_other s (by simp [IsAcknowledging, IsSigning]))) fun _ => ?_
        exact hdone (.error _)

include henv in
/-- A pin that is there, or that the operator provisioned, is never written over. -/
theorem pin_kept {result : Option (Except Error SyncOutcome)}
    (h : Exec env s.synchronize.run w trace result w')
    (hpin : s.pinnedSigningKey ≠ none ∨ dir w .signingKey ≠ .missing) :
    dir w' .signingKey = dir w .signingKey ∧
      ∀ e ∈ trace, dir e.before .signingKey = dir w .signingKey ∧
        dir e.after .signingKey = dir w .signingKey := by
  refine h.invariant (I := fun v => dir v .signingKey = dir w .signingKey) ?_ rfl
  intro e he hbefore
  rcases (henv _ _ _ _ (h.event_env e he)).file .signingKey with hsame | ⟨c, m, hop, _⟩
  · exact hsame.trans hbefore
  · obtain ⟨hnone, hmissing⟩ := each_synchronize s henv _ _ _ _ h e he c m hop
    rcases hpin with hpin | hpin
    · exact absurd hnone hpin
    · exact absurd (hbefore.symm.trans hmissing) hpin

/-- What goes into the pin file is the key of an offered bundle. -/
theorem pin_contents {result : Option (Except Error SyncOutcome)}
    (h : Course s env dir w trace result w') :
    ∀ e ∈ trace, ∀ contents mode, e.op = .secureWrite .signingKey contents mode →
      ∃ pin bundle, Offered s trace pin bundle ∧
        contents = storedLine bundle.signingPublicKey := by
  intro e he contents mode hop
  have hsurveying : ¬ IsSurveying e.op := by
    rw [hop]
    simp [IsSurveying]
  cases h with
  | killed ops => exact absurd (ops e he) hsurveying
  | failed ops => exact absurd (ops e he) hsurveying
  | unasked decides => exact absurd (decides.ops e he) hsurveying
  | notModified decides ops =>
    rcases List.mem_append.mp he with he | he
    · exact absurd (decides.ops e he) hsurveying
    · have hstamp := ops e he
      rw [hop] at hstamp
      cases hstamp
  | unchanged decides ops =>
    rcases List.mem_append.mp he with he | he
    · exact absurd (decides.ops e he) hsurveying
    · have hpinning := ops e he
      rw [hop] at hpinning
      exact ⟨_, _, (decides.offers s decides.decided.1).append s _, hpinning.2⟩
  | applied decides moves ops =>
    rcases List.mem_append.mp he with he | he
    · exact absurd (decides.ops e he) hsurveying
    rcases List.mem_cons.mp he with rfl | he
    · cases hop
    · have hstoring := ops e he
      rw [hop] at hstoring
      exact ⟨_, _, (decides.offered s).append s _, hstoring.2⟩
  | declined decides moves refuses ops =>
    rcases List.mem_append.mp he with he | he
    · exact absurd (decides.ops e he) hsurveying
    rcases List.mem_cons.mp he with rfl | he
    · cases hop
    · have hacknowledging := ops e he
      rw [hop] at hacknowledging
      exact absurd hacknowledging not_false

/-- The pin file holds the line of a key. -/
def Pinned (dir : StateDir) (key : Text) : Prop :=
  dir .signingKey = .regular (storedLine key) ∧ trimText key ≠ []

theorem Pinned.present {dir : StateDir} {key : Text} (h : Pinned dir key) :
    dir .signingKey ≠ .missing := by
  rw [h.1]
  exact Entry.noConfusion

/-- The pin file is missing or holds a key. -/
def PinFile (dir : StateDir) : Prop := dir .signingKey = .missing ∨ ∃ key, Pinned dir key

include henv in
theorem pinFile_pass {result : Option (Except Error SyncOutcome)}
    (h : Exec env s.synchronize.run w trace result w') (hbefore : PinFile (dir w)) :
    PinFile (dir w') ∧ ∀ e ∈ trace, PinFile (dir e.before) ∧ PinFile (dir e.after) := by
  refine h.invariant (I := fun v => PinFile (dir v)) (fun e he hpin => ?_) hbefore
  rcases (henv _ _ _ _ (h.event_env e he)).file .signingKey with
    hsame | ⟨contents, mode, hop, hafter⟩
  · rcases hpin with hmissing | ⟨key, hkey, hne⟩
    · exact Or.inl (hsame.trans hmissing)
    · exact Or.inr ⟨key, hsame.trans hkey, hne⟩
  · obtain ⟨_, bundle, hoffered, rfl⟩ :=
      pin_contents s (exec_course s henv h) e he contents mode hop
    obtain ⟨_, _, _, _, _, _, _, _, _, hbundle⟩ := hoffered.received
    exact Or.inr ⟨bundle.signingPublicKey, hafter, (fromResponse_authentic hbundle).1⟩

/-- In a pass that applied a bundle, its key is the only one that can become the pin. -/
theorem pin_contents_applied {bundle : CaBundle} {result : Option (Except Error SyncOutcome)}
    (h : Course s env dir w trace result w') (hbundle : Applied s trace bundle) :
    ∀ e ∈ trace, ∀ contents mode, e.op = .secureWrite .signingKey contents mode →
      contents = storedLine bundle.signingPublicKey := by
  intro e he contents mode hop
  obtain ⟨head, rest, v, v', persisted, response, rfl, hdecides, hops, _⟩ := h.of_applied s hbundle
  rcases List.mem_append.mp he with he | he
  · have hsurveying := hdecides.ops e he
    rw [hop] at hsurveying
    cases hsurveying
  rcases List.mem_cons.mp he with rfl | he
  · cases hop
  · have hstoring := hops e he
    rw [hop] at hstoring
    exact hstoring.2

end Files

end MayflyAgent.SyncCourses
