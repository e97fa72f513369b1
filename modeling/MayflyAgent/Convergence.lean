import MayflyAgent.HonestServer

/-!
A pass against an honest server keeps host and files linked, wherever it is interrupted,
and when it succeeds the host has the bundle the server held as it answered. A pass without
faults succeeds, so the host catches up as soon as the faults stop.
-/
namespace MayflyAgent.Convergence

open RustText Programs Checks Errors Bundles BundleEncoding BundleValidation TrustedCa
open StateFiles CaSync SyncPasses SyncCourses SyncProgress SyncResults BundleRendering HonestServer

section Replies

variable {s : CaSyncService} {key : Text} {server : Server} {signed : SignedHeaders}
variable {fingerprint : Option Text} {response : HttpResponse}

theorem quoted_injective : Function.Injective quoted := by
  intro a b h
  exact List.append_cancel_right (List.cons.inj h).2

/-- Not modified is answered to the current fingerprint only. -/
theorem replies_notModified
    (h : Replies s.client key server (s.bundleRequest signed fingerprint) response)
    (hstatus : response.status = statusNotModified) :
    fingerprint = some (server.current.fingerprint s.client.toCrypto) := by
  unfold Replies at h
  split at h
  · rename_i htag
    rw [requestTag_bundleRequest] at htag
    obtain ⟨tag, rfl, heq⟩ := Option.map_eq_some_iff.mp htag
    rw [quoted_injective heq]
  · rw [h.1] at hstatus
    exact absurd hstatus (by decide)

/-- Any other answer is a success with the envelope of the current bundle. -/
theorem replies_success {request : HttpRequest} (h : Replies s.client key server request response)
    (hstatus : response.status ≠ statusNotModified) :
    response.status = 200 ∧ ∃ raw, s.client.bundleFromJson response.body = some raw ∧
      Describes s.client.toCrypto key server.current raw := by
  unfold Replies at h
  split at h
  · exact absurd h hstatus
  · exact h

theorem success_modified (h : isSuccess response.status = true) :
    response.status ≠ statusNotModified := by
  intro hstatus
  rw [hstatus] at h
  exact absurd h (by decide)

/-- The bundle that validation makes of a response is the current one. -/
theorem replies_accepts {request : HttpRequest} {now : Time} {pin : Option Text} {bundle : CaBundle}
    (h : Replies s.client key server request response)
    (haccepts : Accepts s now response pin bundle) :
    Mirrors s.client.toCrypto server.current bundle ∧ bundle.signingPublicKey = key ∧
      trimText key ≠ [] := by
  obtain ⟨hsuccess, raw, hraw, hbundle⟩ := haccepts
  obtain ⟨_, raw', hraw', hdescribes⟩ := replies_success h (success_modified hsuccess)
  obtain rfl : raw = raw' := Option.some.inj (hraw.symm.trans hraw')
  obtain ⟨hmirrors, hkey⟩ := mirrors_of_carries key (fromResponse_sound hbundle).2 hdescribes
  refine ⟨hmirrors, hkey, ?_⟩
  rw [← hkey]
  exact (fromResponse_authentic hbundle).1

end Replies

section Passes

variable {s : CaSyncService} {key : Text} {w w' : ServedWorld}
variable {trace : List (SyncEvent ServedWorld)}

/-- What the pass knows once it has come to a decision, on the answer it got in `u`. -/
structure Informed (s : CaSyncService) (key : Text) (w : ServedWorld)
    (head : List (SyncEvent ServedWorld)) (v : ServedWorld) (persisted : PersistedState)
    (response : HttpResponse) (u : ServedWorld) : Prop where
  fetched : ∃ u' request, getEvent u u' request (.ok response) ∈ head
  later : Rotates u.server v.server
  linked : Linked s.client.toCrypto key u.server v
  host : v.host = w.host
  notModified : response.status = statusNotModified →
    persisted.fingerprint = some (u.server.current.fingerprint s.client.toCrypto)
  accepted : ∀ now pin bundle, Accepts s now response pin bundle →
    Mirrors s.client.toCrypto u.server.current bundle ∧ bundle.signingPublicKey = key ∧
      trimText key ≠ []
  known : persisted.fingerprint = some (u.server.current.fingerprint s.client.toCrypto) →
    CollisionFree s.client.toCrypto u.server →
      w.host = some (u.server.current.body s.client.toCrypto)

theorem surveying_pin {op : SyncOp} (h : IsSurveying op) (contents : Bytes) (mode : UInt32) :
    op ≠ .secureWrite .signingKey contents mode := by
  rintro rfl
  cases h

theorem decides_informed {head : List (SyncEvent ServedWorld)} {v : ServedWorld}
    {persisted : PersistedState} {response : HttpResponse} {decision : Decision}
    (h : Decides s (honest s.client key) ServedWorld.dir w head v persisted response decision)
    (hw : Linked s.client.toCrypto key w.server w) :
    ∃ u, Informed s key w head v persisted response u := by
  obtain ⟨u, u', signed, hget⟩ := h.fetched
  obtain ⟨hearlier, hlater⟩ := (exec_rotates h.run).2 _ hget
  have hreplies : Replies s.client key u.server (s.bundleRequest signed persisted.fingerprint)
      response := by
    rcases (h.run.event_env _ hget).2.2.1 with ⟨_, herror⟩ | ⟨received, hok, hreplies⟩
    · cases herror
    · rwa [Except.ok.inj hok]
  have hlinked : Linked s.client.toCrypto key u.server w := hw.rotates hearlier
  obtain ⟨hhead, hhost⟩ := linked_quiet h.run (fun e he => surveying_quiet (h.ops e he))
    (fun e he contents mode hop => absurd hop (surveying_pin (h.ops e he) contents mode)) hlinked
  refine ⟨u, ⟨⟨u', _, hget⟩, hlater, hhead, hhost, replies_notModified hreplies,
    fun now pin bundle => replies_accepts hreplies, fun hknown hfree => ?_⟩⟩
  exact hlinked.up_to_date hfree (by rw [(load_eq_ok.mp h.load).2.1, hknown])

/-- The host has the bundle the server held when it answered the pass. -/
def UpToDate (s : CaSyncService) (trace : List (SyncEvent ServedWorld)) (w' : ServedWorld) :
    Prop :=
  ∃ u u' request response, getEvent u u' request (.ok response) ∈ trace ∧
    w'.host = some (u.server.current.body s.client.toCrypto)

/-- Quiet calls behind a decision keep what the pass knows. -/
theorem Informed.quiet {head tail : List (SyncEvent ServedWorld)} {v u : ServedWorld}
    {persisted : PersistedState} {response : HttpResponse} {α : Type}
    {p : Program syncSignature α} {result : Option α}
    (h : Informed s key w head v persisted response u)
    (htail : Exec (honest s.client key) p v tail result w') (hops : ∀ e ∈ tail, IsQuiet e.op)
    (hpin : ∀ e ∈ tail, ∀ contents mode, e.op = .secureWrite .signingKey contents mode →
      contents = storedLine key ∧ trimText key ≠ []) :
    Linked s.client.toCrypto key w'.server w' ∧ Rotates u.server w'.server ∧
      (persisted.fingerprint = some (u.server.current.fingerprint s.client.toCrypto) →
        CollisionFree s.client.toCrypto w'.server → UpToDate s (head ++ tail) w') := by
  obtain ⟨hlinked, hhost⟩ := linked_quiet htail hops hpin h.linked
  have hrotates := h.later.trans (exec_rotates htail).1
  refine ⟨hlinked.rotates hrotates, hrotates, fun hfingerprint hfree => ?_⟩
  obtain ⟨u', request, hget⟩ := h.fetched
  refine ⟨u, u', request, response, List.mem_append_left _ hget, ?_⟩
  rw [hhost, h.host]
  exact h.known hfingerprint (hfree.earlier hrotates)

theorem not_succeeded {result : Option (Except Error SyncOutcome)}
    (h : result = none ∨ ∃ e, result = some (.error e)) (outcome : SyncOutcome) :
    result ≠ some (.ok outcome) := by
  rintro rfl
  rcases h with hnone | ⟨e, herror⟩
  · cases hnone
  · cases herror

/-- A pass keeps the link, however it ends, and a success means that the host is up to date. -/
theorem linked_pass {result : Option (Except Error SyncOutcome)}
    (h : Exec (honest s.client key) s.synchronize.run w trace result w')
    (hw : Linked s.client.toCrypto key w.server w) :
    Linked s.client.toCrypto key w'.server w' ∧ (CollisionFree s.client.toCrypto w'.server →
      ∀ outcome, result = some (.ok outcome) → UpToDate s trace w') := by
  have hsurvey : (∀ e ∈ trace, IsSurveying e.op) → Linked s.client.toCrypto key w'.server w' := by
    intro hops
    refine Linked.rotates ?_ (exec_rotates h).1
    exact (linked_quiet h (fun e he => surveying_quiet (hops e he)) (fun e he contents mode hop =>
      absurd hop (surveying_pin (hops e he) contents mode)) hw).1
  cases exec_course s (honest_respects s key) h with
  | killed ops => exact ⟨hsurvey ops, by simp⟩
  | failed ops files run hresult =>
    refine ⟨hsurvey ops, fun _ outcome hok => ?_⟩
    exact absurd hok (not_succeeded (hresult.imp id fun herror => ⟨_, herror⟩) outcome)
  | unasked decides hresult =>
    refine ⟨hsurvey decides.ops, fun _ outcome hok => ?_⟩
    exact absurd hok (not_succeeded (hresult.imp id fun ⟨e, herror, _⟩ => ⟨e, herror⟩) outcome)
  | @notModified head tail v _ persisted response _ decides ops settles =>
    obtain ⟨u, hu⟩ := decides_informed decides hw
    have hpin : ∀ e ∈ tail, ∀ contents mode, e.op = .secureWrite .signingKey contents mode →
        contents = storedLine key ∧ trimText key ≠ [] := by
      intro e he contents mode hop
      have hstamp := ops e he
      rw [hop] at hstamp
      cases hstamp
    obtain ⟨hlinked, _, hknown⟩ := hu.quiet settles (fun e he => stamp_quiet (ops e he)) hpin
    exact ⟨hlinked, fun hfree _ _ => hknown (hu.notModified decides.decided) hfree⟩
  | @unchanged head tail v _ persisted response bundle _ decides ops settles =>
    obtain ⟨u, hu⟩ := decides_informed decides hw
    obtain ⟨hjudged, _, hfingerprint⟩ := decides.decided
    obtain ⟨_, haccepts⟩ := hjudged.accepts
    obtain ⟨hmirrors, hkey, hne⟩ := hu.accepted _ _ _ haccepts
    have hpin : ∀ e ∈ tail, ∀ contents mode, e.op = .secureWrite .signingKey contents mode →
        contents = storedLine key ∧ trimText key ≠ [] := by
      intro e he contents mode hop
      have hpinning := ops e he
      rw [hop] at hpinning
      exact ⟨hpinning.2.trans (congrArg storedLine hkey), hne⟩
    obtain ⟨hlinked, _, hknown⟩ := hu.quiet settles (fun e he => pinning_quiet s (ops e he)) hpin
    refine ⟨hlinked, fun hfree _ _ => hknown ?_ hfree⟩
    rw [hfingerprint, hmirrors.fingerprint]
  | @applied head rest v v' _ persisted response bundle _ decides moves ops concludes =>
    obtain ⟨u, hu⟩ := decides_informed decides hw
    obtain ⟨_, haccepts⟩ := decides.decided.1.accepts
    obtain ⟨hmirrors, hkey⟩ := hu.accepted _ _ _ haccepts
    have hhost : v'.host = some (u.server.current.body s.client.toCrypto) := by
      rw [← hmirrors.body]
      rcases moves.2.1 with ⟨_, hafter⟩ | ⟨hanswer, _⟩ | ⟨⟨_, hanswer⟩, _⟩
      · exact hafter
      · cases hanswer
      · cases hanswer
    obtain ⟨hlinked, hafter⟩ := linked_storing concludes ops hmirrors hkey
      (linked_apply moves hmirrors.body hu.linked) hhost
    have hrotates := hu.later.trans (Rotates.trans moves.2.2.2 (exec_rotates concludes).1)
    refine ⟨hlinked.rotates hrotates, fun _ _ _ => ?_⟩
    obtain ⟨u', request, hget⟩ := hu.fetched
    exact ⟨u, u', request, response, List.mem_append_left _ hget, hafter⟩
  | @declined head rest v v' _ persisted response bundle _ answer decides moves refuses ops files
      hresult =>
    obtain ⟨u, hu⟩ := decides_informed decides hw
    obtain ⟨_, haccepts⟩ := decides.decided.1.accepts
    obtain ⟨hmirrors, _⟩ := hu.accepted _ _ _ haccepts
    have hasked := linked_apply moves hmirrors.body hu.linked
    obtain ⟨p, hrest⟩ := h.cut_event.2
    have hpin : ∀ e ∈ rest, ∀ contents mode, e.op = .secureWrite .signingKey contents mode →
        contents = storedLine key ∧ trimText key ≠ [] := by
      intro e he contents mode hop
      have hacknowledging := ops e he
      rw [hop] at hacknowledging
      exact absurd hacknowledging not_false
    obtain ⟨hlinked, _⟩ :=
      linked_quiet hrest (fun e he => acknowledging_quiet (ops e he)) hpin hasked
    have hrotates := hu.later.trans (Rotates.trans moves.2.2.2 (exec_rotates hrest).1)
    exact ⟨hlinked.rotates hrotates,
      fun _ outcome hok => absurd hok (not_succeeded hresult outcome)⟩

end Passes

/-- Nothing fails during the pass, the helper confirms what it is asked, and the bundle that
the server answers with is valid whenever the pass looks at the clock. -/
structure FaultFree (s : CaSyncService) (key : Text)
    (trace : List (SyncEvent ServedWorld)) : Prop extends Clean s trace where
  signs : ∀ message, s.client.sign message ≠ none
  answered : ∀ v v' request answer, getEvent v v' request answer ∈ trace →
    ∃ response, answer = .ok response
  valid : ∀ v v' request response raw, getEvent v v' request (.ok response) ∈ trace →
    s.client.bundleFromJson response.body = some raw →
      Describes s.client.toCrypto key v.server.current raw →
        ∀ u t u', (⟨u, .now, t, u'⟩ : SyncEvent ServedWorld) ∈ trace →
          ValidEnvelope s.client.toCrypto raw t (some key)
  obeyed : ∀ v v' contents answer, applyEvent v v' contents answer ∈ trace →
    answer = .ok .applied

section FaultFreePasses

variable {s : CaSyncService} {key : Text} {w w' : ServedWorld}
variable {trace : List (SyncEvent ServedWorld)}
variable (hline : ∀ line, validateEd25519PublicKey s.client.toCrypto line = .ok () →
  ∃ blob rest, splitWhitespace line = text "ssh-ed25519" :: blob :: rest ∧ PaddedBase64 blob)

include hline in
/-- With the operator's pin, a stored pin or none at all, the envelope of the server is
accepted when it is valid. -/
theorem expected_accepts (hpin : s.pinnedSigningKey = none ∨ s.pinnedSigningKey = some key)
    {persisted : PersistedState} (hstored : ∀ pin, persisted.signingKey = some pin →
      pin = trimText key)
    {server : Server} {raw : CaBundleResponse} {now : Time}
    (hraw : Describes s.client.toCrypto key server.current raw)
    (hvalid : ValidEnvelope s.client.toCrypto raw now (some key)) :
    ∃ bundle, fromResponse s.client.toCrypto raw now (s.expectedSigningKey persisted) =
      .ok bundle := by
  have hself : SameMaterial key key := by
    obtain ⟨received, hreceived, _, hsame, _⟩ := hvalid.signingKey
    obtain rfl : key = received := Option.some.inj (hraw.signingKey.symm.trans hreceived)
    exact hsame key rfl
  refine fromResponse_complete (validated_nonblank hline)
    (hvalid.repin fun received hreceived expected hexpected => ?_)
  obtain rfl : key = received := Option.some.inj (hraw.signingKey.symm.trans hreceived)
  rcases hpin with hnone | hsome
  · rw [CaSyncService.expectedSigningKey, hnone, Option.none_or] at hexpected
    rw [hstored expected hexpected]
    exact sameMaterial_trimText.mpr hself
  · rw [CaSyncService.expectedSigningKey, hsome, Option.some_or] at hexpected
    rwa [← Option.some.inj hexpected]

include hline in
/-- No obstacle stands in the way of a pass without faults. -/
theorem faultFree_unobstructed (hpin : s.pinnedSigningKey = none ∨ s.pinnedSigningKey = some key)
    {result : Option (Except Error SyncOutcome)}
    (h : Exec (honest s.client key) s.synchronize.run w trace result w')
    (hw : Linked s.client.toCrypto key w.server w) (hfree : FaultFree s key trace) :
    ¬ Obstacle s ServedWorld.dir w trace := by
  intro hobstacle
  cases hobstacle with
  | unloadable e hload =>
    obtain ⟨persisted, hok, _⟩ := hw.loads
    rw [hok] at hload
    cases hload
  | unsigned message hnone => exact hfree.signs message hnone
  | unanswered herror =>
    obtain ⟨response, hok⟩ := hfree.answered _ _ _ _ herror
    cases hok
  | unparsed offered hparse =>
    obtain ⟨_, _, _, _, _, _, _, _, _, accepted⟩ := offered.received
    rw [accepted_parses hline accepted] at hparse
    cases hparse
  | unapplied asked hrefused => exact hrefused (hfree.obeyed _ _ _ _ asked)
  | @refused v v' persisted response signed load fetched hrefused =>
    have hearlier : Rotates w.server v.server := ((exec_rotates h).2 _ fetched).1
    obtain ⟨loaded, hload, hle, hstored⟩ := (hw.rotates hearlier).loads
    obtain rfl : loaded = persisted := Except.ok.inj (hload.symm.trans load)
    have hreplies : Replies s.client key v.server (s.bundleRequest signed loaded.fingerprint)
        response := by
      rcases (h.event_env _ fetched).2.2.1 with ⟨_, herror⟩ | ⟨received, hok, hreplies⟩
      · cases herror
      · rwa [Except.ok.inj hok]
    have hmodified : response.status ≠ statusNotModified := by
      rcases hrefused with ⟨hstatus, _⟩ | ⟨hsuccess, _⟩ | ⟨_, _, _, _, _, hsuccess, _⟩ |
        ⟨_, _, _, _, _, haccepts, _⟩
      · exact hstatus
      · exact success_modified hsuccess
      · exact success_modified hsuccess
      · exact success_modified haccepts.1
    obtain ⟨hstatus, raw, hraw, hdescribes⟩ := replies_success hreplies hmodified
    rcases hrefused with ⟨_, hfailed⟩ | ⟨_, hnone⟩ | ⟨raw', u, now, u', e, _, hraw', hnow, herror⟩ |
      ⟨bundle, _, _, _, _, haccepts, hregressed⟩
    · rw [hstatus] at hfailed
      exact absurd hfailed (by decide)
    · rw [hraw] at hnone
      cases hnone
    · obtain rfl : raw = raw' := Option.some.inj (hraw.symm.trans hraw')
      have hvalid := hfree.valid _ _ _ _ _ fetched hraw hdescribes _ _ _ hnow
      obtain ⟨bundle, hok⟩ := expected_accepts hline hpin hstored hdescribes hvalid
      rw [hok] at herror
      cases herror
    · obtain ⟨hmirrors, _⟩ := replies_accepts hreplies haccepts
      unfold CaSyncService.regressed at hregressed
      split at hregressed
      · rename_i prev hprev
        have hbelow := hle prev hprev
        rw [← hmirrors.generation] at hbelow
        exact absurd (of_decide_eq_true hregressed) (UInt64.not_lt.mpr hbelow)
      · cases hregressed

include hline in
theorem faultFree_ok (hpin : s.pinnedSigningKey = none ∨ s.pinnedSigningKey = some key)
    {result : Option (Except Error SyncOutcome)}
    (h : Exec (honest s.client key) s.synchronize.run w trace result w')
    (hcomplete : result ≠ none) (hw : Linked s.client.toCrypto key w.server w)
    (hfree : FaultFree s key trace) : ∃ outcome, result = some (.ok outcome) := by
  match result, hcomplete with
  | some (.ok outcome), _ => exact ⟨outcome, rfl⟩
  | some (.error e), _ =>
    exact absurd (error_obstacle s (honest_respects s key) h hfree.toClean)
      (faultFree_unobstructed hline hpin h hw hfree)

end FaultFreePasses

section Runs

variable (s : CaSyncService) (key : Text)

theorem linked_run {server : Server} {passes : List ServedPass} {w' : ServedWorld}
    (h : Run (honest s.client key) s.synchronize.run ⟨StateDir.empty, none, server⟩ passes w') :
    ∀ q ∈ passes, Linked s.client.toCrypto key q.before.server q.before ∧
      Exec (honest s.client key) s.synchronize.run q.before q.trace q.result q.after :=
  (Run.invariant (I := fun w => Linked s.client.toCrypto key w.server w) (C := fun _ => True)
    (fun _ hexec _ hw => (linked_pass hexec hw).1) h (fun _ _ => trivial) (linked_empty key)).2

theorem run_rotates {w : ServedWorld} {passes : List ServedPass} {w' : ServedWorld}
    (h : Run (honest s.client key) s.synchronize.run w passes w') :
    ∀ q ∈ passes, Rotates q.after.server w'.server := by
  intro q hq
  obtain ⟨earlier, later, rfl⟩ := List.append_of_mem hq
  obtain ⟨_, _, hlater⟩ := h.split
  cases hlater with
  | cons hexec hrest =>
    refine hrest.relates (R := fun u v => Rotates u.server v.server) (fun v => Rotates.refl _) ?_ ?_
    · exact fun _ _ _ huv hvx => huv.trans hvx
    · exact fun p hp e he => (hp.event_env e he).2.2.2

/-- A pass that succeeds leaves the host with the bundle the server held as it answered, and a
pass without faults succeeds, whatever happened before: without a rotation meanwhile the host
then has the bundle of the server. -/
theorem converges_with_honest_server
    (hline : ∀ line, validateEd25519PublicKey s.client.toCrypto line = .ok () →
      ∃ blob rest, splitWhitespace line = text "ssh-ed25519" :: blob :: rest ∧ PaddedBase64 blob)
    (hpin : s.pinnedSigningKey = none ∨ s.pinnedSigningKey = some key)
    {server : Server} {passes : List ServedPass} {w' : ServedWorld}
    (h : Run (honest s.client key) s.synchronize.run ⟨StateDir.empty, none, server⟩ passes w')
    (hcollision : CollisionFree s.client.toCrypto w'.server) :
    ∀ q ∈ passes, (∀ outcome, q.result = some (.ok outcome) → UpToDate s q.trace q.after) ∧
      (q.result ≠ none → FaultFree s key q.trace →
        (∃ outcome, q.result = some (.ok outcome)) ∧ (q.after.server = q.before.server →
          q.after.host = some (q.after.server.current.body s.client.toCrypto))) := by
  intro q hq
  obtain ⟨hlinked, hexec⟩ := linked_run s key h q hq
  have hfresh := (linked_pass hexec hlinked).2 (hcollision.earlier (run_rotates s key h q hq))
  refine ⟨hfresh, fun hcomplete hfree => ?_⟩
  obtain ⟨outcome, hok⟩ := faultFree_ok hline hpin hexec hcomplete hlinked hfree
  refine ⟨⟨outcome, hok⟩, fun hsame => ?_⟩
  obtain ⟨u, u', request, response, hget, hhost⟩ := hfresh outcome hok
  obtain ⟨hearlier, hlater⟩ := (exec_rotates hexec).2 _ hget
  rw [← hsame] at hearlier
  have hcurrent : q.after.server.current = u.server.current := hearlier.current_eq hlater
  rw [hhost, hcurrent]

end Runs

def goldenHeld : Held := { generation := golden.generation, keys := golden.keys }

def goldenServer : Server where
  current := goldenHeld
  past := []
  descending := List.pairwise_singleton _ _

theorem golden_describes :
    Describes sampleCrypto golden.signingKey goldenHeld golden.response := by
  obtain ⟨_, hfingerprint, _, hcomputed⟩ := (fromResponse_sound golden_accepted).1.fingerprint
  exact ⟨rfl, rfl, (Option.mem_def.mp hfingerprint).trans (congrArg some hcomputed), rfl⟩

/-- The answers of such a pass. -/
def Smooth : (op : SyncOp) → op.Answer → Prop
  | .secureWrite _ _ _, answer => answer = Except.ok ()
  | .now, t => t = sampleNow
  | .get _, answer => answer = Except.ok ⟨200, sampleBody golden⟩
  | .apply _, answer => answer = Except.ok BundleApplyOutcome.applied
  | _, _ => True

def smooth : Environment syncSignature ServedWorld := fun w op answer w' =>
  honest sampleClient golden.signingKey w op answer w' ∧ Smooth op answer ∧ w'.server = w.server

theorem smooth_working : Working smooth ServedWorld.dir sampleNow
    (fun w file contents => { w with dir := w.dir.install file contents })
    (fun w contents => { w with host := some contents }) where
  read := fun _ _ => ⟨⟨⟨rfl, rfl⟩, rfl, trivial, Rotates.refl _⟩, trivial, rfl⟩
  write := fun _ _ _ _ => ⟨⟨Or.inl rfl, rfl, trivial, Rotates.refl _⟩, rfl, rfl⟩
  clock := fun _ => ⟨⟨rfl, rfl, trivial, Rotates.refl _⟩, rfl, rfl⟩
  random := fun _ => ⟨⟨rfl, rfl, trivial, Rotates.refl _⟩, trivial, rfl⟩
  post := fun _ _ => ⟨⟨rfl, rfl, trivial, Rotates.refl _⟩, trivial, rfl⟩
  apply := fun _ _ => ⟨⟨rfl, Or.inl ⟨rfl, rfl⟩, trivial, Rotates.refl _⟩, rfl, rfl⟩
  dir_put := fun _ _ _ => rfl
  dir_obey := fun _ _ => rfl

theorem smooth_faultFree {w w' : ServedWorld} {trace : List (SyncEvent ServedWorld)} {α : Type}
    {p : Program syncSignature α} {result : Option α} (h : Exec smooth p w trace result w') :
    FaultFree (sampleService none) golden.signingKey trace where
  writes := fun _ _ _ _ _ he => (h.event_env _ he).2.1
  clock := by
    intro v v' t he
    obtain rfl : t = sampleNow := (h.event_env _ he).2.1
    simp [(sampleService_capable none).stamp]
  signs := by
    intro message
    obtain ⟨signature, hsignature⟩ := (sampleService_capable none).sign message
    simp [hsignature]
  answered := fun _ _ _ _ he => ⟨_, (h.event_env _ he).2.1⟩
  valid := by
    intro v v' request response raw he hraw _ u t u' hnow
    obtain rfl : response = ⟨200, sampleBody golden⟩ := Except.ok.inj (h.event_env _ he).2.1
    obtain rfl : t = sampleNow := (h.event_env _ hnow).2.1
    obtain rfl : golden.response = raw := Option.some.inj (sampleBody_golden.symm.trans hraw)
    exact (fromResponse_sound golden_accepted).1
  obeyed := fun _ _ _ _ he => (h.event_env _ he).2.1

theorem converges_with_honest_server_golden :
    ∃ q : ServedPass, FaultFree (sampleService none) golden.signingKey q.trace ∧
      (∃ outcome, q.result = some (.ok outcome)) ∧ q.before.host = none ∧
      q.after.host = some (goldenHeld.body sampleCrypto) := by
  obtain ⟨trace, outcome, w', hexec, _⟩ := golden_pass smooth_working
    (w := ⟨StateDir.empty, none, goldenServer⟩) (load_unstored rfl rfl rfl) rfl fun signed => by
      refine ⟨⟨rfl, rfl, Or.inr ⟨_, rfl, ?_⟩, Rotates.refl _⟩, rfl, rfl⟩
      rw [Replies, requestTag_bundleRequest]
      exact ⟨rfl, golden.response, sampleBody_golden, golden_describes⟩
  have hserver : w'.server = goldenServer :=
    hexec.frame ServedWorld.server fun e he => (hexec.event_env e he).2.2
  have hfree := smooth_faultFree hexec
  have hcollision : CollisionFree sampleCrypto w'.server := by
    rw [hserver]
    intro x hx y hy _
    rw [List.mem_singleton.mp hx, List.mem_singleton.mp hy]
  obtain ⟨_, hconverges⟩ := converges_with_honest_server (sampleService none) golden.signingKey
    sampleCrypto_lines (Or.inl rfl) (Run.single (hexec.mono fun _ _ _ _ h => h.1)) hcollision _
    (List.mem_singleton_self _)
  obtain ⟨hok, hhost⟩ := hconverges (by simp) hfree
  refine ⟨_, hfree, hok, rfl, (hhost hserver).trans ?_⟩
  rw [hserver]
  rfl

end MayflyAgent.Convergence
