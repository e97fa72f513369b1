import MayflyAgent.SyncResults
import MayflyAgent.SyncProgress

/-!
Runs on a machine whose writes succeed and whose helper is honest: the file that sshd
trusts is replaced exactly when the helper says so. The state files then tell the last
bundle that was applied, the host has its rendering, and a pass that fails leaves both
alone.
-/
namespace MayflyAgent.HonestHost

open RustText Programs Checks Errors Bundles BundleValidation TrustedCa StateFiles CaSync
open SyncPasses SyncCourses SyncProgress SyncResults

/-- The state files, and the body that sshd trusts. -/
structure HostWorld where
  dir : StateDir
  host : Option Text

def HostWorld.initial : HostWorld := { dir := StateDir.empty, host := none }

/-- The body that the host trusts once an apply was answered. -/
def hostAfter (host : Option Text) (contents : Text) :
    Except Error BundleApplyOutcome → Option Text
  | .ok .applied => some contents
  | _ => host

/-- Writes succeed, clock readings can be formatted, and the host changes exactly on an apply
that is confirmed. -/
def reliable (client : Client) (w : HostWorld) :
    (op : SyncOp) → op.Answer → HostWorld → Prop
  | .read file, answer, w' => answer = readEntry (w.dir file) ∧ w' = w
  | .secureWrite file contents _, answer, w' =>
    answer = Except.ok () ∧ w' = { w with dir := w.dir.install file contents }
  | .now, t, w' => client.formatRfc3339 t ≠ none ∧ w' = w
  | .apply contents, answer, w' => w' = { w with host := hostAfter w.host contents answer }
  | _, _, w' => w' = w

abbrev HostPass := Pass syncSignature HostWorld (Except Error SyncOutcome)

variable (s : CaSyncService)

theorem reliable_respects : Respects (reliable s.client) HostWorld.dir := by
  intro w op answer w' h
  cases op with
  | read file =>
    obtain ⟨rfl, rfl⟩ := h
    exact ⟨rfl, rfl⟩
  | secureWrite file contents mode =>
    obtain ⟨rfl, rfl⟩ := h
    exact Or.inl rfl
  | now =>
    obtain ⟨_, rfl⟩ := h
    rfl
  | apply contents =>
    obtain rfl : w' = { w with host := hostAfter w.host contents answer } := h
    rfl
  | randomBytes => exact congrArg HostWorld.dir h
  | get request => exact congrArg HostWorld.dir h
  | post request => exact congrArg HostWorld.dir h

section Executions

variable {w w' : HostWorld} {trace : List (SyncEvent HostWorld)}

theorem reliable_clean {α : Type} {p : Program syncSignature α} {result : Option α}
    (h : Exec (reliable s.client) p w trace result w') : Clean s trace where
  writes := fun _ _ _ _ _ he => (h.event_env _ he).1
  clock := fun _ _ _ he => (h.event_env _ he).1

/-- Without a confirmation the host stays what it is. -/
theorem host_unconfirmed {α : Type} {p : Program syncSignature α} {result : Option α}
    (h : Exec (reliable s.client) p w trace result w')
    (hnone : ∀ contents, ¬ Confirmed trace contents) : w'.host = w.host := by
  refine h.frame HostWorld.host fun e he => ?_
  have hmove := h.event_env e he
  obtain ⟨v, op, answer, v'⟩ := e
  cases op with
  | read file => rw [hmove.2]
  | secureWrite file contents mode => rw [hmove.2]
  | now => rw [hmove.2]
  | randomBytes => rw [show v' = v from hmove]
  | get request => rw [show v' = v from hmove]
  | post request => rw [show v' = v from hmove]
  | apply contents =>
    have hrefused : answer ≠ Except.ok BundleApplyOutcome.applied := by
      rintro rfl
      exact hnone contents ⟨v, v', he⟩
    rw [show v' = { v with host := hostAfter v.host contents answer } from hmove]
    match answer, hrefused with
    | .ok .rolledBack, _ => rfl
    | .error _, _ => rfl
    | .ok .applied, hrefused => exact absurd rfl hrefused

end Executions

/-- The last bundle that a pass of the run applied. -/
def LastApplied (passes : List HostPass) : Option CaBundle → Prop
  | none => ∀ q ∈ passes, ∀ contents, ¬ Confirmed q.trace contents
  | some bundle => ∃ earlier q later, passes = earlier ++ q :: later ∧
      Applied s q.trace bundle ∧ ∀ r ∈ later, ∀ contents, ¬ Confirmed r.trace contents

/-- Reading the state back gives the persisted values, whenever it is read completely. -/
def LoadsAs (w : HostWorld) (persisted : PersistedState) : Prop :=
  ∀ trace result w', Exec (reliable s.client) loadState.run w trace (some result) w' →
    result = .ok persisted

/-- Records and host are those of the given bundle. -/
structure Agrees (w : HostWorld) (last : Option CaBundle) : Prop where
  records : ∀ file, IsRecord file → w.dir file =
    last.elim .missing fun bundle => .regular (recordLine bundle file)
  host : w.host = last.map renderTrustedUserCaKeys
  computed : ∀ bundle ∈ last, bundle.fingerprint =
    computeFingerprint s.client.toCrypto bundle.generation bundle.keys
  pin : PinFile w.dir

theorem agrees_initial : Agrees s HostWorld.initial none :=
  ⟨fun _ _ => rfl, rfl, fun _ h => by simp at h, Or.inl rfl⟩

theorem Agrees.loads {w : HostWorld} {last : Option CaBundle} (h : Agrees s w last) :
    ∃ key, LoadsAs s w { generation := last.map CaBundle.generation
                         fingerprint := last.map CaBundle.fingerprint
                         signingKey := key } := by
  have hgeneration : w.dir.readGeneration = .ok (last.map CaBundle.generation) := by
    cases last with
    | none => exact readGeneration_missing (h.records .generation (Or.inl rfl))
    | some bundle => exact readGeneration_recordLine (h.records .generation (Or.inl rfl))
  have hfingerprint : w.dir.readString .fingerprint = .ok (last.map CaBundle.fingerprint) := by
    cases last with
    | none => exact readString_missing (h.records .fingerprint (Or.inr rfl))
    | some bundle =>
      have hrecord := h.records .fingerprint (Or.inr rfl)
      simp only [Option.elim_some, recordLine, h.computed bundle rfl] at hrecord
      rw [readString_fingerprint hrecord, Option.map_some, ← h.computed bundle rfl]
  have hkey : ∃ key, w.dir.readString .signingKey = .ok key := by
    rcases h.pin with hmissing | ⟨key, hfile, hne⟩
    · exact ⟨_, readString_missing hmissing⟩
    · exact ⟨_, readString_storedLine hfile hne⟩
  obtain ⟨key, hkey⟩ := hkey
  refine ⟨key, fun trace result w' hexec => ?_⟩
  obtain ⟨_, hnone | hsome⟩ := reads_loadState (reliable_respects s) _ _ _ _ hexec
  · cases hnone
  · rw [Option.some.inj hsome]
    exact load_eq_ok.mpr ⟨hgeneration, hfingerprint, hkey⟩

/-- One complete pass applies nothing and changes nothing, or moves on to the bundle it applied. -/
theorem agrees_pass {q : HostPass} {last : Option CaBundle}
    (h : Exec (reliable s.client) s.synchronize.run q.before q.trace q.result q.after)
    (hcomplete : q.result ≠ none) (hbefore : Agrees s q.before last) :
    ((∀ contents, ¬ Confirmed q.trace contents) ∧ Agrees s q.after last) ∨
      ∃ bundle, Applied s q.trace bundle ∧ Agrees s q.after (some bundle) := by
  have hpin := (pinFile_pass s (reliable_respects s) h hbefore.pin).1
  rcases complete_concludes s (reliable_respects s) h (reliable_clean s h) hcomplete with
    hquiet | ⟨head, rest, v, v', persisted, response, bundle, outcome, htrace, hdecides, hmoves,
      hops, _, hconclude⟩
  · refine Or.inl ⟨hquiet.unconfirmed, fun file hfile => ?_, ?_, hbefore.computed, hpin⟩
    · rw [file_unwritten (reliable_respects s) h file fun e he contents mode =>
        hquiet.unrecorded e he file contents mode hfile]
      exact hbefore.records file hfile
    · rw [host_unconfirmed s h hquiet.unconfirmed]
      exact hbefore.host
  right
  obtain ⟨_, _, raw, _, hbundle⟩ := hdecides.decided.1.accepts
  have hhost : q.after.host = some (renderTrustedUserCaKeys bundle) := by
    have hrest : ∀ contents, ¬ Confirmed rest contents := by
      rintro contents ⟨x, x', hmem⟩
      cases storing_not_apply s (hops _ hmem)
    rw [host_unconfirmed s hconclude hrest]
    exact congrArg HostWorld.host (show v' = _ from hmoves)
  refine ⟨bundle, htrace ▸ hdecides.applied s rest,
    ⟨fun file hfile => conclude_ok s (reliable_respects s) hconclude hfile, hhost, ?_, hpin⟩⟩
  intro other hother
  obtain rfl := Option.some.inj hother
  exact (fromResponse_sound hbundle).2.computed

/-- A pass that confirmed nothing leaves the last bundle what it was. -/
theorem LastApplied.append {passes : List HostPass} {q : HostPass} {last : Option CaBundle}
    (h : LastApplied s passes last) (hq : ∀ contents, ¬ Confirmed q.trace contents) :
    LastApplied s (passes ++ [q]) last := by
  have hsnoc : ∀ {qs : List HostPass}, (∀ r ∈ qs, ∀ contents, ¬ Confirmed r.trace contents) →
      ∀ r ∈ qs ++ [q], ∀ contents, ¬ Confirmed r.trace contents := by
    intro qs hqs r hr
    rcases List.mem_append.mp hr with hr | hr
    · exact hqs r hr
    · rwa [List.mem_singleton.mp hr]
  cases last with
  | none => exact hsnoc h
  | some bundle =>
    obtain ⟨earlier, p, later, rfl, happlied, hlater⟩ := h
    exact ⟨earlier, p, later ++ [q], by simp, happlied, hsnoc hlater⟩

/-- After a run of complete passes the records and the host are those of the last bundle. -/
theorem agrees_run {passes : List HostPass} {w' : HostWorld}
    (h : Run (reliable s.client) s.synchronize.run HostWorld.initial passes w')
    (hcomplete : ∀ q ∈ passes, q.result ≠ none) :
    ∃ last, LastApplied s passes last ∧ Agrees s w' last := by
  induction passes using List.reverseRecOn generalizing w' with
  | nil =>
    cases h
    exact ⟨none, by simp [LastApplied], agrees_initial s⟩
  | append_singleton passes q ih =>
    obtain ⟨w₁, hpasses, hlast⟩ := h.split
    obtain ⟨last, happlied, hagrees⟩ := ih hpasses fun q hq =>
      hcomplete q (List.mem_append_left _ hq)
    obtain ⟨rfl, rfl, hexec⟩ := hlast.of_single
    have hq := hcomplete q (List.mem_append_right _ (List.mem_singleton_self _))
    rcases agrees_pass s hexec hq hagrees with ⟨hnone, hafter⟩ | ⟨bundle, hbundle, hafter⟩
    · exact ⟨last, happlied.append s hnone, hafter⟩
    · exact ⟨some bundle, ⟨passes, q, [], rfl, hbundle, by simp⟩, hafter⟩

/-- After each pass, loading the state gives the generation and the fingerprint of the last
bundle that was applied and the host has its rendering; a failed pass has changed nothing but
the record of its attempt. -/
theorem state_agrees_with_host {passes : List HostPass} {w' : HostWorld}
    (h : Run (reliable s.client) s.synchronize.run HostWorld.initial passes w')
    (hcomplete : ∀ q ∈ passes, q.result ≠ none) :
    ∀ earlier q later, passes = earlier ++ q :: later →
      (∃ last key, LastApplied s (earlier ++ [q]) last ∧
        LoadsAs s q.after { generation := last.map CaBundle.generation
                            fingerprint := last.map CaBundle.fingerprint
                            signingKey := key } ∧
        q.after.host = last.map renderTrustedUserCaKeys) ∧
      ∀ e, q.result = some (.error e) → q.after.host = q.before.host ∧
        ∀ file, file ≠ .lastSync → q.after.dir file = q.before.dir file := by
  intro earlier q later hpasses
  rw [hpasses, List.append_cons] at h
  obtain ⟨w₁, hearlier, _⟩ := h.split
  obtain ⟨w₂, _, hlast⟩ := hearlier.split
  obtain ⟨rfl, rfl, hexec⟩ := hlast.of_single
  have hcomplete' : ∀ p ∈ earlier ++ [q], p.result ≠ none := by
    intro p hp
    apply hcomplete p
    rw [hpasses, List.append_cons]
    exact List.mem_append_left _ hp
  obtain ⟨last, happlied, hagrees⟩ := agrees_run s hearlier hcomplete'
  obtain ⟨key, hloads⟩ := hagrees.loads
  refine ⟨⟨last, key, happlied, hloads, hagrees.host⟩, fun e herror => ?_⟩
  rw [herror] at hexec
  have hclean := reliable_clean s hexec
  have hquiet := error_quiet s (reliable_respects s) hexec hclean
  exact ⟨host_unconfirmed s hexec hquiet.unconfirmed,
    fun file hfile => error_keeps_files s (reliable_respects s) hexec hclean hfile⟩

theorem reliable_working {client : Client} {now : Time} (h : client.formatRfc3339 now ≠ none) :
    Working (reliable client) HostWorld.dir now
      (fun w file contents => { w with dir := w.dir.install file contents })
      (fun w contents => { w with host := some contents }) where
  read := fun _ _ => ⟨rfl, rfl⟩
  write := fun _ _ _ _ => ⟨rfl, rfl⟩
  clock := fun _ => ⟨h, rfl⟩
  random := fun _ => rfl
  post := fun _ _ => rfl
  apply := fun _ _ => rfl
  dir_put := fun _ _ _ => rfl
  dir_obey := fun _ _ => rfl

theorem state_agrees_with_host_golden :
    ∃ q : HostPass, Applied (sampleService none) q.trace golden.bundle ∧
      ∃ last, LastApplied (sampleService none) [q] last ∧
        q.after.host = last.map renderTrustedUserCaKeys := by
  have hclock : (sampleService none).client.formatRfc3339 sampleNow ≠ none := by
    simp [(sampleService_capable none).stamp]
  obtain ⟨trace, outcome, w', hexec, happlied, _⟩ := golden_pass
    (reliable_working hclock)
    (w := HostWorld.initial) (load_unstored rfl rfl rfl) rfl fun _ => rfl
  obtain ⟨⟨last, _, hlast, _, hhost⟩, _⟩ := state_agrees_with_host (sampleService none)
    (Run.single hexec) (by simp) [] _ [] rfl
  exact ⟨_, happlied, last, hlast, hhost⟩

end MayflyAgent.HonestHost
