import MayflyAgent.Acknowledgements
import MayflyAgent.HonestServer

/-!
What a successful pass says about the agent: whether anything was ever applied, and
whose bundles it accepts from then on. A response that reports no change is taken at
its word, also when there is nothing that could have stayed the same; and a pin file
that holds only blanks counts as a pin for the writer but not for the reader.
-/
namespace MayflyAgent.SuccessfulPasses

open RustText Programs Checks Errors Bundles BundleValidation TrustedCa StateFiles CaSync
open BundleRendering SyncPasses SyncCourses SyncProgress SyncResults SyncRuns HonestServer
open Acknowledgements

variable (s : CaSyncService) {d d' : StateDir} {passes : List (SyncPass StateDir)}

/-- A 304 answers a request that named the fingerprint it holds. -/
def Conditional (q : SyncPass StateDir) : Prop :=
  ∀ v v' request response, getEvent v v' request (.ok response) ∈ q.trace →
    response.status = statusNotModified → requestTag request ≠ none

/-- Some bundle was applied in these passes. -/
def AppliedIn (passes : List (SyncPass StateDir)) : Prop :=
  ∃ p ∈ passes, ∃ bundle, Applied s p.trace bundle

/-- Passes succeed, and success is recorded, only behind a confirmed apply. -/
def SuccessFollowsApply (passes : List (SyncPass StateDir)) : Prop :=
  ∀ earlier q later, passes = earlier ++ q :: later →
    (∀ outcome, q.result = some (.ok outcome) → AppliedIn s (earlier ++ [q])) ∧
    ∀ first v v' contents mode answer rest,
      q.trace = first ++ ⟨v, .secureWrite .lastSuccess contents mode, answer, v'⟩ :: rest →
      AppliedIn s earlier ∨ ∃ bundle, Applied s first bundle

/-- The directory has neither a generation nor a fingerprint. -/
def Unrecorded (dir : StateDir) : Prop := ∀ file, IsRecord file → dir file = .missing

theorem unrecorded_pass {q : SyncPass StateDir}
    (h : Exec hostile s.synchronize.run q.before q.trace q.result q.after)
    (hnone : ∀ bundle, ¬ Applied s q.trace bundle) (hbefore : Unrecorded q.before) :
    Unrecorded q.after := by
  intro file hfile
  rw [← hbefore file hfile]
  refine file_unwritten hostile_respects h file fun e he contents mode hop => ?_
  obtain ⟨first, rest, htrace⟩ := List.append_of_mem he
  obtain ⟨v, op, answer, v'⟩ := e
  obtain rfl := hop
  rw [htrace] at h hnone
  obtain ⟨bundle, happlied, _⟩ := record_follows_apply s hostile_respects h hfile
  exact hnone bundle (happlied.append s _)

theorem unrecorded_run (h : Run hostile s.synchronize.run d passes d')
    (hnone : ¬ AppliedIn s passes) (hd : Unrecorded d) : Unrecorded d' :=
  (h.invariant (I := Unrecorded) (C := fun q => ∀ bundle, ¬ Applied s q.trace bundle)
    (fun _ hexec hC hbefore => unrecorded_pass s hexec hC hbefore)
    (fun q hq bundle happlied => hnone ⟨q, hq, bundle, happlied⟩) hd).1

/-- Without records, only an apply can be decided on. -/
theorem unrecorded_decides {q : SyncPass StateDir} {head rest : List (SyncEvent StateDir)}
    {v : StateDir} {persisted : PersistedState} {response : HttpResponse} {decision : Decision}
    (h : Decides s hostile id q.before head v persisted response decision)
    (htrace : q.trace = head ++ rest) (hconditional : Conditional q)
    (hbefore : Unrecorded q.before) : ∃ bundle, decision = .apply bundle := by
  obtain ⟨hgeneration, hfingerprint, _⟩ := load_eq_ok.mp h.load
  rw [id, readGeneration_missing (hbefore .generation (Or.inl rfl))] at hgeneration
  rw [id, readString_missing (hbefore .fingerprint (Or.inr rfl))] at hfingerprint
  cases decision with
  | apply bundle => exact ⟨bundle, rfl⟩
  | unchanged bundle =>
    have hrecorded := h.decided.2.1
    rw [← Except.ok.inj hgeneration] at hrecorded
    cases hrecorded
  | notModified =>
    obtain ⟨u, u', signed, hget⟩ := h.fetched
    have htag := hconditional u u' _ _ (htrace ▸ List.mem_append_left rest hget) h.decided
    rw [requestTag_bundleRequest, ← Except.ok.inj hfingerprint] at htag
    exact absurd rfl htag

/-- A success is recorded behind an apply, when the pass could decide on nothing else. -/
theorem lastSuccess_follows_apply {q : SyncPass StateDir} {first rest : List (SyncEvent StateDir)}
    {v v' : StateDir} {contents : Bytes} {mode : UInt32} {answer : Except Error Unit}
    (h : Exec hostile s.synchronize.run q.before q.trace q.result q.after)
    (hconditional : Conditional q) (hbefore : Unrecorded q.before)
    (htrace : q.trace = first ++ ⟨v, .secureWrite .lastSuccess contents mode, answer, v'⟩ :: rest) :
    ∃ bundle, Applied s first bundle := by
  have hmem : (⟨v, .secureWrite .lastSuccess contents mode, answer, v'⟩ : SyncEvent StateDir) ∈
      q.trace := htrace ▸ List.mem_append_right _ (List.mem_cons_self ..)
  have hsurveying : ∀ {head : List (SyncEvent StateDir)}, (∀ e ∈ head, IsSurveying e.op) →
      (⟨v, .secureWrite .lastSuccess contents mode, answer, v'⟩ : SyncEvent StateDir) ∉ head := by
    intro head hops he
    cases hops _ he
  have happlies : ∀ {head tail : List (SyncEvent StateDir)} {u : StateDir}
      {persisted : PersistedState} {response : HttpResponse} {decision : Decision},
      Decides s hostile id q.before head u persisted response decision → q.trace = head ++ tail →
      ∃ bundle, decision = .apply bundle :=
    fun hdecides heq => unrecorded_decides s hdecides heq hconditional hbefore
  obtain ⟨before, trace, result, after⟩ := q
  cases pass_course s h with
  | killed ops => exact absurd hmem (hsurveying ops)
  | failed ops => exact absurd hmem (hsurveying ops)
  | unasked decides => exact absurd hmem (hsurveying decides.ops)
  | notModified decides =>
    obtain ⟨_, hdecision⟩ := happlies decides rfl
    cases hdecision
  | unchanged decides =>
    obtain ⟨_, hdecision⟩ := happlies decides rfl
    cases hdecision
  | @applied head tail u u' _ persisted response bundle _ decides moves ops concludes =>
    obtain ⟨mid, rfl, _⟩ := split_behind htrace.symm (hsurveying decides.ops) (by rintro ⟨⟩)
    exact ⟨bundle, decides.applied s mid⟩
  | declined decides moves refuses ops =>
    obtain ⟨mid, rfl, htail⟩ := split_behind htrace.symm (hsurveying decides.ops) (by rintro ⟨⟩)
    exact absurd (ops _ htail) not_false

/-- From an empty directory, every success is that of an applied bundle, as long as the server
answers 304 to requests with a fingerprint only. -/
theorem success_follows_apply (h : Run hostile s.synchronize.run StateDir.empty passes d')
    (hconditional : ∀ q ∈ passes, Conditional q) : SuccessFollowsApply s passes := by
  rintro earlier q later rfl
  obtain ⟨w₁, hearlier, hlater⟩ := h.split
  have hq := hconditional q (List.mem_append_right _ (List.mem_cons_self ..))
  by_cases happlied : AppliedIn s earlier
  · obtain ⟨p, hp, hbundle⟩ := happlied
    exact ⟨fun _ _ => ⟨p, List.mem_append_left _ hp, hbundle⟩,
      fun _ _ _ _ _ _ _ _ => Or.inl ⟨p, hp, hbundle⟩⟩
  have hbefore := unrecorded_run s hearlier happlied fun _ _ => rfl
  cases hlater with
  | @cons _ _ _ trace result _ hexec _ =>
    constructor
    · rintro outcome rfl
      obtain ⟨head, rest, v, persisted, response, decision, rfl, hdecides, hsettle, _⟩ :=
        ok_settles s hostile_respects hexec
      obtain ⟨bundle, rfl⟩ := unrecorded_decides s (q := ⟨w₁, head ++ rest, _, _⟩) hdecides rfl hq
        hbefore
      obtain ⟨v', rest, rfl, _⟩ := settle_apply_ok s hsettle
      exact ⟨_, List.mem_append_right _ (List.mem_singleton_self _), bundle,
        hdecides.applied s rest⟩
    · intro first v v' contents mode answer rest htrace
      exact Or.inr (lastSuccess_follows_apply s hexec hq hbefore htrace)

theorem success_follows_apply_golden :
    SuccessFollowsApply (sampleService none) [goldenScript.pass StateDir.empty] := by
  refine success_follows_apply _ (goldenScript.run (Run.nil _)) fun q hq => ?_
  obtain rfl := List.mem_singleton.mp hq
  intro v v' request response hget hstatus
  have hresponse := Except.ok.inj (Script.get_eq hget)
  rw [hresponse] at hstatus
  exact absurd hstatus (by decide)

/-- A new agent whose first request is answered with a 304 reports success. -/
theorem success_without_apply :
    ∃ passes d', Run hostile (sampleService none).synchronize.run StateDir.empty passes d' ∧
      ¬ SuccessFollowsApply (sampleService none) passes := by
  refine ⟨_, _, current.run (Run.nil _), fun hsuccess => ?_⟩
  have hplayed : (current.pass StateDir.empty).result = some (.ok (.notModified 0)) ∧
      (current.pass StateDir.empty).trace.all (fun e => !isApply e.op) = true := by decide +kernel
  obtain ⟨p, hp, bundle, happlied⟩ := (hsuccess [] _ [] rfl).1 _ hplayed.1
  obtain rfl := List.mem_singleton.mp hp
  obtain ⟨v, v', hmem⟩ := happlied.confirmed
  exact absurd (List.all_eq_true.mp hplayed.2 _ hmem) (by simp [applyEvent, isApply])

/-- The pass succeeded with this bundle. -/
def SucceedsWith (q : SyncPass StateDir) (bundle : CaBundle) : Prop :=
  (∃ pin, Offered s q.trace pin bundle) ∧ ∃ outcome, q.result = some (.ok outcome) ∧
    (outcome = .unchanged bundle.generation ∨
      ∃ acknowledged, outcome = .updated bundle.generation bundle.fingerprint acknowledged)

/-- The state loads, and what it loads expects the material of the key. -/
def Expects (dir : StateDir) (key : Text) : Prop :=
  ∃ persisted pin, dir.load = .ok persisted ∧ s.expectedSigningKey persisted = some pin ∧
    SameMaterial pin key

/-- The key is expected now, and from now on no bundle of another signer is accepted. -/
def Binds (dir : StateDir) (key : Text) : Prop :=
  Expects s dir key ∧ ∀ passes d', Run hostile s.synchronize.run dir passes d' → ∀ q ∈ passes,
    ∀ persisted now response bundle, q.before.load = .ok persisted →
      Accepts s now response (s.expectedSigningKey persisted) bundle →
      SameMaterial key bundle.signingPublicKey

/-- The pin file is missing or can be read as a key. -/
def PinUsable (dir : StateDir) : Prop :=
  dir .signingKey = .missing ∨ ∃ key, dir.readString .signingKey = .ok (some key)

theorem persistPin_ok {w w' : StateDir} {trace : List (SyncEvent StateDir)} {bundle : CaBundle}
    (hnone : s.pinnedSigningKey = none)
    (h : Exec hostile (s.persistPinIfNeeded bundle).run w trace (some (.ok ())) w')
    (hmissing : w .signingKey = .missing) :
    w' .signingKey = .regular (storedLine bundle.signingPublicKey) := by
  rcases exec_persistPin s hostile_respects h with ⟨_, _, hresult⟩ | ⟨_, _, v, first, answer, _, _,
    hresult, hmove⟩
  · rcases hresult with hnone' | ⟨_, hpin | ⟨bytes, hbytes⟩⟩ | ⟨herror, _⟩
    · cases hnone'
    · exact absurd hnone hpin
    · exact absurd (hmissing.symm.trans hbytes) Entry.noConfusion
    · cases herror
  · rcases hresult with hnone' | hanswer
    · cases hnone'
    obtain rfl := Option.some.inj hanswer
    rcases hmove with hinstall | ⟨⟨_, herror⟩, _⟩
    · rw [show w' = _ from hinstall]
      exact install_same ..
    · cases herror

/-- Success with a bundle fills a missing pin file. -/
theorem settle_pins {w w' : StateDir} {trace : List (SyncEvent StateDir)} {bundle : CaBundle}
    {persisted : PersistedState} {decision : Decision} {outcome : SyncOutcome}
    (hnone : s.pinnedSigningKey = none)
    (hdecision : decision = .unchanged bundle ∨ decision = .apply bundle)
    (h : Exec hostile (settle s persisted decision).run w trace (some (.ok outcome)) w')
    (hmissing : w .signingKey = .missing) :
    w' .signingKey = .regular (storedLine bundle.signingPublicKey) := by
  have hstamp : ∀ {t u u'},
      Exec hostile (s.writeTimestamp .lastSuccess).run u t (some (.ok ())) u' →
      u' .signingKey = u .signingKey := by
    intro t u u' h
    refine file_unwritten hostile_respects h .signingKey fun e he contents mode hop => ?_
    have hstamp := h.event_calls (calls_writeTimestamp s .lastSuccess) e he
    rw [hop] at hstamp
    cases hstamp
  rcases hdecision with rfl | rfl
  · obtain ⟨_, t₁, r₁, u₁, rfl, hpin, h⟩ := exec_action_bind_ok h
    obtain ⟨_, t₂, r₂, u₂, rfl, hsuccess, h⟩ := exec_action_bind_ok h
    obtain ⟨_, rfl, _⟩ := exec_pure h
    rw [hstamp hsuccess]
    exact persistPin_ok s hnone hpin hmissing
  · obtain ⟨v, rest, rfl, hconclude⟩ := settle_apply_ok s h
    obtain rfl : v = w := h.event_env _ (List.mem_cons_self ..)
    obtain ⟨_, t₁, r₁, u₁, rfl, hstore, hrest⟩ := exec_action_bind_ok hconclude
    obtain ⟨_, t₂, r₂, u₂, rfl, hack, hdone⟩ := exec_action_bind_ok hrest
    obtain ⟨_, rfl, _⟩ := exec_pure hdone
    rw [show w' = u₁ from acknowledging_files hostile_respects hack
      (hack.event_calls (calls_acknowledge s _))]
    obtain ⟨_, _, _, v₁, rfl, hgeneration, hstore⟩ := exec_action_bind_ok hstore
    obtain ⟨_, _, _, v₂, rfl, hfingerprint, hstore⟩ := exec_action_bind_ok hstore
    obtain ⟨_, _, _, v₃, rfl, hpin, hsuccess⟩ := exec_action_bind_ok hstore
    rw [hstamp hsuccess]
    refine persistPin_ok s hnone hpin ?_
    rw [show v₂ = _ from (secureWrite_ok hostile_respects hfingerprint).1,
      id, install_other _ _ (by decide),
      show v₁ = _ from (secureWrite_ok hostile_respects hgeneration).1,
      id, install_other _ _ (by decide)]
    exact hmissing

/-- A pass that succeeds has settled its decision on the one response it received. -/
theorem ok_receives {q : SyncPass StateDir} {outcome : SyncOutcome}
    (h : Exec hostile s.synchronize.run q.before q.trace (some (.ok outcome)) q.after) :
    ∃ head rest v persisted response decision,
      Decides s hostile id q.before head v persisted response decision ∧
      Exec hostile (settle s persisted decision).run v rest (some (.ok outcome)) q.after ∧
      Reports persisted decision outcome ∧
      ∀ received, Reaches q received → received = response := by
  obtain ⟨head, rest, v, persisted, response, decision, htrace, hdecides, hsettle, hreports⟩ :=
    ok_settles s hostile_respects h
  refine ⟨head, rest, v, persisted, response, decision, hdecides, hsettle, hreports, ?_⟩
  rintro received ⟨x, x', request, hget⟩
  rw [htrace] at hget
  refine hdecides.response_eq s ?_ hget
  cases decision with
  | notModified =>
    intro e he request hop
    have hstamp := hsettle.event_calls (calls_settle_notModified s persisted) e he
    rw [hop] at hstamp
    exact hstamp
  | unchanged decided =>
    intro e he request hop
    have hpinning := hsettle.event_calls (calls_settle_unchanged s persisted decided) e he
    rw [hop] at hpinning
    exact hpinning
  | apply decided =>
    obtain ⟨v', rest, rfl, hconclude⟩ := settle_apply_ok s hsettle
    exact asking_not_get fun e he =>
      storing_not_get s (hconclude.event_calls (calls_conclude s decided) e he)

/-- The bundle that a pass succeeded with is the one it decided on and settled. -/
theorem succeeds_settles {q : SyncPass StateDir} {bundle : CaBundle}
    (h : Exec hostile s.synchronize.run q.before q.trace q.result q.after)
    (hsucceeds : SucceedsWith s q bundle) :
    ∃ head rest v persisted response decision outcome,
      Decides s hostile id q.before head v persisted response decision ∧
      (decision = .unchanged bundle ∨ decision = .apply bundle) ∧
      Exec hostile (settle s persisted decision).run v rest (some (.ok outcome)) q.after ∧
      ∀ received, Reaches q received → received = response := by
  obtain ⟨⟨pin, hoffered⟩, outcome, hresult, hreported⟩ := hsucceeds
  obtain ⟨_, x, x', request, received, hget, haccepts⟩ := hoffered.received
  rw [hresult] at h
  obtain ⟨head, rest, v, persisted, response, decision, hdecides, hsettle, hreports, hreceived⟩ :=
    ok_receives s h
  obtain rfl := hreceived received ⟨x, x', request, hget⟩
  refine ⟨head, rest, v, persisted, received, decision, outcome, hdecides, ?_, hsettle, hreceived⟩
  cases decision with
  | notModified =>
    obtain rfl := hreports
    rcases hreported with hother | ⟨_, hother⟩ <;> cases hother
  | unchanged decided =>
    obtain ⟨_, hdecided⟩ := hdecides.decided.1.accepts
    exact Or.inl (congrArg Decision.unchanged (accepts_unique s hdecided haccepts))
  | apply decided =>
    obtain ⟨_, hdecided⟩ := hdecides.decided.1.accepts
    exact Or.inr (congrArg Decision.apply (accepts_unique s hdecided haccepts))

/-- What a success leaves is read back as the generation and the fingerprint of its bundle. -/
theorem success_recorded {w v w' : StateDir} {head rest : List (SyncEvent StateDir)}
    {persisted : PersistedState} {response : HttpResponse} {decision : Decision}
    {bundle : CaBundle} {outcome : SyncOutcome}
    (h : Decides s hostile id w head v persisted response decision)
    (hdecision : decision = .unchanged bundle ∨ decision = .apply bundle)
    (hsettle : Exec hostile (settle s persisted decision).run v rest (some (.ok outcome)) w') :
    w'.readGeneration = .ok (some bundle.generation) ∧
      w'.readString .fingerprint = .ok (some bundle.fingerprint) := by
  rcases hdecision with rfl | rfl
  · have hkept : ∀ file, IsRecord file → w' file = w file := by
      intro file hfile
      have hsettled : w' file = v file := file_unwritten hostile_respects hsettle file
        fun e he contents mode hop => by
          have hpinning := hsettle.event_calls (calls_settle_unchanged s persisted bundle) e he
          rw [hop] at hpinning
          exact pinning_quiet s hpinning hfile
      exact hsettled.trans (h.files file (by rintro rfl; simp [IsRecord] at hfile))
    obtain ⟨hgeneration, hfingerprint, _⟩ := load_eq_ok.mp h.load
    rw [h.decided.2.1] at hgeneration
    rw [h.decided.2.2] at hfingerprint
    rw [StateDir.readGeneration, hkept .generation (Or.inl rfl), StateDir.readString,
      hkept .fingerprint (Or.inr rfl)]
    exact ⟨hgeneration, hfingerprint⟩
  · obtain ⟨v', rest, rfl, hconclude⟩ := settle_apply_ok s hsettle
    have hstored : ∀ file, IsRecord file → w' file = .regular (recordLine bundle file) :=
      fun _ hfile => conclude_ok s hostile_respects hconclude hfile
    have happlied : Applied s (head ++ applyEvent v v' (renderTrustedUserCaKeys bundle)
        (.ok .applied) :: rest) bundle := h.applied s rest
    exact ⟨readGeneration_recordLine (hstored .generation (Or.inl rfl)),
      readString_applied s happlied (hstored .fingerprint (Or.inr rfl))⟩

/-- A decision for a bundle is one for a bundle that was accepted. -/
theorem decides_accepts {w v : StateDir} {head : List (SyncEvent StateDir)}
    {persisted : PersistedState} {response : HttpResponse} {decision : Decision}
    {bundle : CaBundle} (h : Decides s hostile id w head v persisted response decision)
    (hdecision : decision = .unchanged bundle ∨ decision = .apply bundle) :
    ∃ now, Accepts s now response (s.expectedSigningKey persisted) bundle := by
  rcases hdecision with rfl | rfl
  · exact h.decided.1.accepts
  · exact h.decided.1.accepts

/-- A success that finds no pin file leaves one that is read as the key of its bundle. -/
theorem success_pins
    (hline : ∀ line, validateEd25519PublicKey s.client.toCrypto line = .ok () →
      ∃ fields, material line = some fields)
    (hnone : s.pinnedSigningKey = none) {w v w' : StateDir} {head rest : List (SyncEvent StateDir)}
    {persisted : PersistedState} {response : HttpResponse} {decision : Decision}
    {bundle : CaBundle} {outcome : SyncOutcome}
    (h : Decides s hostile id w head v persisted response decision)
    (hdecision : decision = .unchanged bundle ∨ decision = .apply bundle)
    (hsettle : Exec hostile (settle s persisted decision).run v rest (some (.ok outcome)) w')
    (hmissing : w .signingKey = .missing) :
    ∃ pin, w'.readString .signingKey = .ok (some pin) ∧
      SameMaterial pin bundle.signingPublicKey := by
  have hmissing' : v .signingKey = .missing := (h.files _ (by decide)).trans hmissing
  have hfile := settle_pins s hnone hdecision hsettle hmissing'
  obtain ⟨_, _, raw, _, hbundle⟩ := decides_accepts s h hdecision
  obtain ⟨hvalid, hcarries⟩ := fromResponse_sound hbundle
  obtain ⟨key, hkey, haccepted, _⟩ := hvalid.signingKey
  obtain rfl := Option.some.inj ((Option.mem_def.mp hkey).symm.trans hcarries.signingKey)
  obtain ⟨fields, hfields⟩ := hline _ haccepted
  refine ⟨_, readString_storedLine hfile (fromResponse_authentic hbundle).1, ?_⟩
  exact sameMaterial_trimText.mpr ⟨fields, hfields, hfields⟩

theorem readString_some {dir : StateDir} {file : StateFile} {value : Text}
    (h : dir.readString file = .ok (some value)) :
    value ≠ [] ∧ ∃ bytes t, dir file = .regular bytes ∧ decodeUtf8 bytes = some t ∧
      trimText t = value := by
  unfold StateDir.readString at h
  cases hfile : dir file with
  | missing =>
    rw [hfile] at h
    cases h
  | unreadable =>
    rw [hfile] at h
    cases h
  | regular bytes =>
    rw [hfile] at h
    simp only [readEntry, stringOf, optionalOf, bind, Except.bind] at h
    cases hdecoded : decodeUtf8 bytes with
    | none =>
      rw [hdecoded] at h
      cases h
    | some t =>
      simp only [hdecoded] at h
      split at h
      · cases h
      · rename_i hne
        obtain rfl := Option.some.inj (Except.ok.inj h)
        exact ⟨hne, bytes, t, rfl, hdecoded, rfl⟩

/-- A key that is expected binds all later passes. -/
theorem expects_binds {dir : StateDir} {key : Text} (hnone : s.pinnedSigningKey = none)
    (h : Expects s dir key) : Binds s dir key := by
  refine ⟨h, fun passes d' hrun q hq persisted now response bundle hload haccepts => ?_⟩
  obtain ⟨loaded, pin, hloaded, hpin, hmaterial⟩ := h
  have hkey : loaded.signingKey = some pin := by
    rwa [CaSyncService.expectedSigningKey, hnone] at hpin
  have hestablished : EstablishedPin s dir pin := by
    have hread := (load_eq_ok.mp hloaded).2.2
    rw [hkey] at hread
    obtain ⟨hne, bytes, t, hfile⟩ := readString_some hread
    exact Or.inr ⟨hnone, hne, bytes, t, hfile⟩
  have hbefore := ((established_run s hrun hestablished).2 q hq).1.1
  rw [expectedSigningKey_established s hbefore hload] at haccepts
  obtain ⟨_, raw, _, hbundle⟩ := haccepts
  exact hmaterial.symm.trans ((fromResponse_authentic hbundle).2.1 pin rfl)

theorem pin_file_kept {q : SyncPass StateDir}
    (h : Exec hostile s.synchronize.run q.before q.trace q.result q.after)
    (hpresent : q.before .signingKey ≠ .missing) :
    q.after.readString .signingKey = q.before.readString .signingKey := by
  rw [StateDir.readString, StateDir.readString,
    show q.after .signingKey = _ from (pin_kept s hostile_respects h (Or.inr hpresent)).1, id]

/-- What is expected after a pass was expected before, or there was no pin file. -/
theorem binds_usable (hnone : s.pinnedSigningKey = none) {q : SyncPass StateDir} {key : Text}
    (h : Exec hostile s.synchronize.run q.before q.trace q.result q.after)
    (hbinds : Binds s q.after key) : PinUsable q.before := by
  obtain ⟨⟨persisted, pin, hload, hpin, _⟩, _⟩ := hbinds
  by_cases hmissing : q.before .signingKey = .missing
  · exact Or.inl hmissing
  rw [CaSyncService.expectedSigningKey, hnone, Option.none_or] at hpin
  have hread := (load_eq_ok.mp hload).2.2
  rw [pin_file_kept s h hmissing, hpin] at hread
  exact Or.inr ⟨pin, hread⟩

/-- A pass that succeeds with a bundle binds the agent to its signer, exactly if the pin file was
missing or held a key. -/
theorem pin_established_iff
    (hline : ∀ line, validateEd25519PublicKey s.client.toCrypto line = .ok () →
      ∃ fields, material line = some fields)
    (hnone : s.pinnedSigningKey = none) {q : SyncPass StateDir} {bundle : CaBundle}
    (h : Exec hostile s.synchronize.run q.before q.trace q.result q.after)
    (hsucceeds : SucceedsWith s q bundle) :
    Binds s q.after bundle.signingPublicKey ↔ PinUsable q.before := by
  refine ⟨binds_usable s hnone h, fun husable => ?_⟩
  obtain ⟨head, rest, v, persisted, response, decision, outcome, hdecides, hdecision, hsettle, _⟩ :=
    succeeds_settles s h hsucceeds
  obtain ⟨hgeneration, hfingerprint⟩ := success_recorded s hdecides hdecision hsettle
  have hkey : ∃ pin, q.after.readString .signingKey = .ok (some pin) ∧
      SameMaterial pin bundle.signingPublicKey := by
    rcases husable with hmissing | ⟨pin, hread⟩
    · exact success_pins s hline hnone hdecides hdecision hsettle hmissing
    · obtain ⟨_, _, raw, _, hbundle⟩ := decides_accepts s hdecides hdecision
      have hpresent : q.before .signingKey ≠ .missing := by
        intro hmissing
        rw [readString_missing hmissing] at hread
        cases hread
      refine ⟨pin, (pin_file_kept s h hpresent).trans hread, ?_⟩
      have hloaded : persisted.signingKey = some pin :=
        Except.ok.inj ((load_eq_ok.mp hdecides.load).2.2.symm.trans hread)
      rw [CaSyncService.expectedSigningKey, hnone, hloaded] at hbundle
      exact (fromResponse_authentic hbundle).2.1 pin rfl
  obtain ⟨pin, hread, hmaterial⟩ := hkey
  have hexpects : Expects s q.after bundle.signingPublicKey := by
    refine ⟨⟨_, _, some pin⟩, pin,
      load_eq_ok.mpr ⟨hgeneration, hfingerprint, hread⟩, ?_, hmaterial⟩
    rw [CaSyncService.expectedSigningKey, hnone]
    rfl
  exact expects_binds s hnone hexpects

theorem sampleService_lines (line : Text)
    (hline : validateEd25519PublicKey (sampleService none).client.toCrypto line = .ok ()) :
    ∃ fields, material line = some fields := by
  obtain ⟨blob, rest, hfields, _⟩ := sampleCrypto_lines line
    (by simpa only [sampleService, sampleClient] using hline)
  exact ⟨(_, _), material_eq_some.mpr ⟨rest, hfields⟩⟩

theorem golden_succeeds {dir : StateDir}
    (hresult : (goldenScript.pass dir).result =
      some (.ok (.updated 42 golden.fingerprint true))) :
    SucceedsWith (sampleService none) (goldenScript.pass dir) golden.bundle := by
  have hgolden : Accepts (sampleService none) sampleNow ⟨200, sampleBody golden⟩ none
      golden.bundle := by
    refine ⟨by decide, golden.response, ?_, ?_⟩
    · simpa only [sampleService, sampleClient] using sampleBody_golden
    · simpa only [sampleService, sampleClient] using fromResponse_unpinned golden_accepted
  obtain ⟨bundle, happlied, _⟩ := updated_stored _ hostile_respects
    (hresult ▸ goldenScript.hostile dir)
  obtain ⟨pin, hoffered⟩ := happlied.offered
  obtain ⟨now, v, v', request, response, hget, haccepts⟩ := hoffered.received
  obtain rfl : response = ⟨200, sampleBody golden⟩ := Except.ok.inj (Script.get_eq hget)
  obtain rfl := accepts_unique _ haccepts hgolden
  exact ⟨⟨pin, hoffered⟩, _, hresult, Or.inr ⟨true, rfl⟩⟩

theorem pin_established_iff_golden :
    Binds (sampleService none) (goldenScript.pass StateDir.empty).after golden.signingKey := by
  have hsucceeds : SucceedsWith (sampleService none) (goldenScript.pass StateDir.empty)
      golden.bundle := golden_succeeds (by decide +kernel)
  exact (pin_established_iff _ sampleService_lines rfl (goldenScript.hostile _) hsucceeds).mpr
    (Or.inl rfl)

def blankPin : StateDir := StateDir.empty.install .signingKey (encodeUtf8 ['\n'])

/-- An update over a pin file with nothing but a newline leaves the agent without a pin. -/
theorem blank_pin_stays :
    ∃ q bundle,
      Exec hostile (sampleService none).synchronize.run q.before q.trace q.result q.after ∧
      SucceedsWith (sampleService none) q bundle ∧
      ¬ Binds (sampleService none) q.after bundle.signingPublicKey := by
  refine ⟨goldenScript.pass blankPin, golden.bundle, goldenScript.hostile _,
    golden_succeeds (by decide +kernel), fun hbinds => ?_⟩
  have hblank : blankPin.readString .signingKey = .ok none := by decide +kernel
  rcases binds_usable _ rfl (goldenScript.hostile _) hbinds with hmissing | ⟨key, hread⟩
  · exact absurd (show blankPin .signingKey = .missing from hmissing) (by decide)
  · cases hblank.symm.trans hread

end MayflyAgent.SuccessfulPasses
