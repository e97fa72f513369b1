import MayflyAgent.Acknowledgements
import MayflyAgent.HelperExchanges

/-!
Passes whose applies go through the helper client, for any bytes that the helper sends back. The
client goes by one of the two status fields of a response, so only a response whose fields
contradict each other makes a pass advance that the helper did not confirm.
-/
namespace MayflyAgent.HelperOutcomes

open RustText Programs Errors Framing Bundles BundleValidation TrustedCa StateFiles CaSync
open SyncPasses SyncCourses SyncProgress SyncResults SyncRuns Acknowledgements
open Helper HelperStreams HelperExchanges

variable (a : HelperBundleApplier) (bytes : Bytes)

/-- The response that the bytes of the helper hold. -/
def received : Option Response := (firstBody bytes).bind a.responseFromJson

/-- The state files behave, an apply results in what the client makes of a helper that sends these
bytes, and everything else is answered at will. -/
def helped : Environment syncSignature StateDir := fun dir op answer dir' =>
  FileMoves dir dir' op answer ∧
    match op, answer with
    | .apply contents, answer =>
      ∃ peer : Peer, peer.reply = bytes ∧ (exchange a peer contents).1 = some answer
    | _, _ => True

theorem helped_respects : Respects (helped a bytes) id := fun _ _ _ _ h => h.1

/-- Both status fields say that the host trusts the bundle. -/
def Confirms (response : Response) : Prop :=
  response.ok = true ∧ response.outcome ∈ [Outcome.ok, Outcome.applied, Outcome.notModified]

/-- The response succeeds by one status field and fails by the other. -/
def Contradictory (response : Response) : Prop :=
  response.ok = true ∧ response.outcome ∈ [Outcome.rolledBack, Outcome.unhealthy]

def OnlyRollbacks (s : CaSyncService) (trace : List (SyncEvent StateDir)) : Prop :=
  ∀ e ∈ trace, isPost e.op = true →
    ∃ bundle, Acknowledges s e.op (CaSyncService.rollbackReport bundle)

/-- Unless the bytes hold a confirmation, no pass advances the generation or acknowledges more
than a rollback. -/
def AdvancesConfirmed : Prop :=
  ∀ (s : CaSyncService) (d : StateDir) (trace : List (SyncEvent StateDir))
    (result : Option (Except Error SyncOutcome)) (d' : StateDir),
    Exec (helped a bytes) s.synchronize.run d trace result d' →
    ¬ (∃ response, received a bytes = some response ∧ Confirms response) →
    d' .generation = d .generation ∧ OnlyRollbacks s trace

variable {a bytes}

theorem confirms_or_contradictory {response : Response} (h : response.ok = true) :
    Confirms response ∨ Contradictory response := by
  unfold Confirms Contradictory
  cases response.outcome <;> simp [h]

theorem bundleOutcome_applied {response : Response}
    (h : HelperClient.bundleOutcome response = .ok .applied) : response.ok = true := by
  unfold HelperClient.bundleOutcome at h
  split_ifs at h with hok hdetail houtcome
  · exact hok
  · cases h

/-- An apply is only confirmed by a response that says ok. -/
theorem exchange_applied {peer : Peer} {contents : Text}
    (h : (exchange a peer contents).1 = some (.ok .applied)) :
    ∃ response, reply a peer = some response ∧ response.ok = true := by
  by_cases hsends : ∃ token, Sends peer contents token
  · obtain ⟨token, hsends⟩ := hsends
    obtain ⟨result, incoming, hexchange, hmaps, hlost⟩ := exchange_sends a hsends
    rw [hexchange] at h
    have hresult := Option.some.inj h
    cases hreply : reply a peer with
    | none =>
      obtain ⟨e, herror⟩ := hlost hreply
      rw [herror] at hresult
      cases hresult
    | some response =>
      rw [hmaps response hreply] at hresult
      exact ⟨response, rfl, bundleOutcome_applied hresult⟩
  · obtain ⟨e, wire, hexchange, _⟩ := exchange_fails a hsends
    rw [hexchange] at h
    cases Option.some.inj h

theorem applied_received {s : CaSyncService} {d d' : StateDir}
    {trace first : List (SyncEvent StateDir)} {result : Option (Except Error SyncOutcome)}
    {bundle : CaBundle} (h : Exec (helped a bytes) s.synchronize.run d trace result d')
    (hfirst : ∀ e ∈ first, e ∈ trace) (happlied : Applied s first bundle) :
    ∃ response, received a bytes = some response ∧ response.ok = true := by
  obtain ⟨v, v', hmem⟩ := happlied.confirmed
  obtain ⟨_, peer, rfl, hexchange⟩ := h.event_env _ (hfirst _ hmem)
  exact exchange_applied hexchange

theorem advancesConfirmed_of_consistent
    (h : ¬ ∃ response, received a bytes = some response ∧ Contradictory response) :
    AdvancesConfirmed a bytes := by
  intro s d trace result d' hexec hunconfirmed
  have hnone : ∀ first bundle, (∀ e ∈ first, e ∈ trace) → ¬ Applied s first bundle := by
    intro first bundle hfirst happlied
    obtain ⟨response, hreceived, hok⟩ := applied_received hexec hfirst happlied
    rcases confirms_or_contradictory hok with hconfirms | hcontradictory
    · exact hunconfirmed ⟨response, hreceived, hconfirms⟩
    · exact h ⟨response, hreceived, hcontradictory⟩
  constructor
  · refine file_unwritten (helped_respects a bytes) hexec .generation
      fun e he contents mode hop => ?_
    obtain ⟨first, rest, htrace⟩ := List.append_of_mem he
    obtain ⟨v, op, answer, v'⟩ := e
    obtain rfl := hop
    obtain ⟨bundle, happlied, _⟩ := record_follows_apply s (helped_respects a bytes)
      (htrace ▸ hexec) (Or.inl rfl)
    exact hnone first bundle (fun e he => htrace ▸ List.mem_append_left _ he) happlied
  · rcases exec_posts s (helped_respects a bytes) hexec with
      hunposted | ⟨first, last, htrace, hfirst, _, hgrounds⟩
    · intro e he hpost
      rw [hunposted e he] at hpost
      cases hpost
    intro e he hpost
    rw [htrace] at he
    rcases List.mem_append.mp he with he | he
    · rw [hfirst e he] at hpost
      cases hpost
    obtain rfl := List.mem_singleton.mp he
    cases hgrounds with
    | applied posts happlied files hresult =>
      exact absurd happlied
        (hnone first _ fun e he => htrace ▸ List.mem_append_left _ he)
    | @rolledBack bundle posts rolled files hresult => exact ⟨bundle, posts⟩

/-- A helper that takes everything and sends these bytes. -/
def willing (bytes : Bytes) : Peer :=
  { Peer.boundless with tokenFile := some (text "capability\n"), reply := bytes }

theorem willing_sends {contents : Text}
    (h : (applyBody contents (text "capability\n")).length ≤ maxBodyBytes) :
    Sends (willing bytes) contents (text "capability\n") :=
  ⟨⟨rfl, rfl, rfl, h, rfl⟩, rfl⟩

theorem golden_played :
    (goldenScript.pass StateDir.empty).result = some (.ok (.updated 42 golden.fingerprint true)) ∧
      (goldenScript.pass StateDir.empty).trace.all (fun e => match e.op with
        | .apply contents =>
          decide ((applyBody contents (text "capability\n")).length ≤ maxBodyBytes)
        | _ => true) = true := by
  decide +kernel

theorem golden_helped {response : Response} (hreceived : received a bytes = some response)
    (hok : response.ok = true) :
    Exec (helped a bytes) (sampleService none).synchronize.run StateDir.empty
      (goldenScript.pass StateDir.empty).trace (goldenScript.pass StateDir.empty).result
      (goldenScript.pass StateDir.empty).after := by
  have hexec := goldenScript.hostile StateDir.empty
  refine hexec.of_events fun e he => ⟨hexec.event_env e he, ?_⟩
  have hscript := (goldenScript.exec StateDir.empty).event_env e he
  have hfits := List.all_eq_true.mp golden_played.2 e he
  obtain ⟨v, op, answer, v'⟩ := e
  cases op with
  | apply contents =>
    obtain rfl : Except.ok BundleApplyOutcome.applied = answer :=
      (Prod.mk.inj (Option.some.inj hscript)).1
    have hsends : Sends (willing bytes) contents (text "capability\n") :=
      willing_sends (of_decide_eq_true hfits)
    obtain ⟨result, incoming, hexchange, hmaps, _⟩ := exchange_sends a hsends
    refine ⟨willing bytes, rfl, ?_⟩
    rw [hexchange, hmaps response hreceived, HelperClient.bundleOutcome, if_pos hok]
    rfl
  | _ => trivial

theorem contradictory_advances {response : Response} (hreceived : received a bytes = some response)
    (hcontradictory : Contradictory response) : ¬ AdvancesConfirmed a bytes := by
  intro hadvances
  have hexec := golden_helped hreceived hcontradictory.1
  have hunconfirmed : ¬ ∃ response, received a bytes = some response ∧ Confirms response := by
    rintro ⟨other, hother, _, houtcome⟩
    obtain rfl := Option.some.inj (hreceived.symm.trans hother)
    obtain ⟨_, hfails⟩ := hcontradictory
    cases hcase : response.outcome <;> simp [hcase] at houtcome hfails
  obtain ⟨hunchanged, _⟩ := hadvances _ _ _ _ _ hexec hunconfirmed
  rw [golden_played.1] at hexec
  obtain ⟨bundle, _, _, _, hfiles⟩ := updated_stored _ (helped_respects a bytes) hexec
  have hstored := hfiles .generation (Or.inl rfl)
  rw [id_eq, hunchanged] at hstored
  cases hstored

/-- Only a confirmed outcome advances the generation, whatever the state, exactly for the bytes
that do not hold a contradictory response. -/
theorem advances_confirmed_iff (a : HelperBundleApplier) (bytes : Bytes) :
    AdvancesConfirmed a bytes ↔
      ¬ ∃ response, received a bytes = some response ∧ Contradictory response := by
  constructor
  · rintro hadvances ⟨response, hreceived, hcontradictory⟩
    exact contradictory_advances hreceived hcontradictory hadvances
  · exact advancesConfirmed_of_consistent

/-- The body of a response that says ok and rolled back. -/
def contradiction : Bytes := encodeUtf8 (text "\x7b\"ok\":true,\"outcome\":\"rolled_back\"\x7d")

def contradictionFromJson (body : Bytes) : Option Response :=
  if body = contradiction then some ⟨true, .rolledBack, none, none⟩ else none

/-- A rollback with ok = true is recorded and acknowledged as applied. -/
theorem rollback_advances :
    ¬ AdvancesConfirmed (sampleApplier contradictionFromJson) (frame 4 contradiction) := by
  have hbody : firstBody (frame 4 contradiction) = some contradiction :=
    firstBody_eq_some.mpr ⟨[], (List.append_nil _).symm, by decide +kernel⟩
  have hreceived : received (sampleApplier contradictionFromJson) (frame 4 contradiction) =
      some ⟨true, .rolledBack, none, none⟩ := by
    rw [received, hbody]
    exact if_pos rfl
  exact contradictory_advances hreceived ⟨rfl, by decide⟩

end MayflyAgent.HelperOutcomes
