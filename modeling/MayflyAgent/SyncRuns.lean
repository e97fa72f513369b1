import MayflyAgent.SyncProgress

/-!
Runs of synchronization passes against any server, helper and clock, with any write
failing and any pass killed. Only the state files keep to rules: a failed write leaves
the old or the new contents. The recorded generation never goes down in such runs and an
established pin authenticates every applied file. The order of applied generations and the
trust in the first signer hold as long as the writes behind a confirmed apply take effect.
-/
namespace MayflyAgent.SyncRuns

open RustText Programs Checks Errors Bundles BundleValidation TrustedCa StateFiles CaSync
open SyncPasses SyncCourses SyncProgress

/-- Every answer is possible that the state files allow. -/
def hostile : Environment syncSignature StateDir :=
  fun dir op answer dir' => FileMoves dir dir' op answer

theorem hostile_respects : Respects hostile id := fun _ _ _ _ h => h

abbrev SyncPass (W : Type) := Pass syncSignature W (Except Error SyncOutcome)

variable (s : CaSyncService) {d d' : StateDir} {passes : List (SyncPass StateDir)}

theorem pass_course {q : SyncPass StateDir}
    (h : Exec hostile s.synchronize.run q.before q.trace q.result q.after) :
    Course s hostile id q.before q.trace q.result q.after := exec_course s hostile_respects h

theorem pass_generation_mono {q : SyncPass StateDir}
    (h : Exec hostile s.synchronize.run q.before q.trace q.result q.after) :
    ∀ e ∈ q.trace, GenerationLe e.before e.after := generation_mono s hostile_respects h

theorem hostile_working (now : Time) :
    Working hostile id now StateDir.install fun dir _ => dir where
  read := fun _ _ => ⟨rfl, rfl⟩
  write := fun _ _ _ _ => Or.inl rfl
  clock := fun _ => rfl
  random := fun _ => rfl
  post := fun _ _ => rfl
  apply := fun _ _ => rfl
  dir_put := fun _ _ _ => rfl
  dir_obey := fun _ _ => rfl

/-- What an agent leaves that was killed right after its first apply. -/
def attempted : StateDir := StateDir.empty.install .lastSync sampleStamp

theorem golden_run :
    ∃ q : SyncPass StateDir, q.before = StateDir.empty ∧
      Exec hostile (sampleService none).synchronize.run q.before q.trace q.result q.after ∧
      Applied (sampleService none) q.trace golden.bundle ∧
      (∃ v v' answer, v' .generation = .regular (recordLine golden.bundle .generation) ∧
        writeEvent v v' .generation (recordLine golden.bundle .generation) answer ∈ q.trace) ∧
      ∃ v v' answer, v' .signingKey = .regular (storedLine golden.bundle.signingPublicKey) ∧
        writeEvent v v' .signingKey (storedLine golden.bundle.signingPublicKey) answer ∈
          q.trace := by
  obtain ⟨trace, outcome, d', hexec, hrest⟩ := golden_pass (hostile_working sampleNow)
    (w := StateDir.empty) (load_unstored rfl rfl rfl) rfl fun _ => rfl
  exact ⟨⟨StateDir.empty, trace, some (.ok outcome), d'⟩, rfl, hexec, hrest⟩

/-- Records follow confirmed applies, and the recorded generation never goes down. -/
theorem records_follow_applies (h : Run hostile s.synchronize.run d passes d') :
    (∀ q ∈ passes, ∀ first rest v v' file contents mode answer,
      q.trace = first ++ ⟨v, .secureWrite file contents mode, answer, v'⟩ :: rest →
      IsRecord file → ∃ bundle, Applied s first bundle ∧ contents = recordLine bundle file) ∧
    (worlds passes ++ [d']).Pairwise GenerationLe := by
  have hexec := (h.invariant (I := fun _ => True) (C := fun _ => True)
    (fun _ _ _ _ => trivial) (fun _ _ => trivial) trivial).2
  constructor
  · intro q hq first rest v v' file contents mode answer htrace hfile
    have hpass := (hexec q hq).2
    rw [htrace] at hpass
    exact record_follows_apply s hostile_respects hpass hfile
  · exact (h.ordered GenerationLe.refl (fun _ _ _ => GenerationLe.trans)
      fun q hq => pass_generation_mono s hq).1

theorem records_follow_applies_golden :
    ∃ q : SyncPass StateDir, Applied (sampleService none) q.trace golden.bundle ∧
      (worlds [q] ++ [q.after]).Pairwise GenerationLe := by
  obtain ⟨q, _, hexec, happlied, _⟩ := golden_run
  exact ⟨q, happlied, (records_follow_applies _ (Run.single hexec)).2⟩

/-- The operator provisioned the pin, or the pin file holds it as its trimmed text. -/
def EstablishedPin (d : StateDir) (pin : Text) : Prop :=
  s.pinnedSigningKey = some pin ∨
    s.pinnedSigningKey = none ∧ pin ≠ [] ∧ ∃ bytes t, d .signingKey = .regular bytes ∧
      decodeUtf8 bytes = some t ∧ trimText t = pin

/-- The contents render a bundle of a response that was received, then validated under the pin by
the reading of the clock that ends the trace, and signed by a key with the material of the pin. -/
def Authentic (pin : Text) (trace : List (SyncEvent StateDir)) (contents : Text) : Prop :=
  ∃ first u now u' v v' request response raw bundle,
    trace = first ++ [clockEvent u u' now] ∧
    getEvent v v' request (.ok response) ∈ first ∧
    s.client.bundleFromJson response.body = some raw ∧
    fromResponse s.client.toCrypto raw now (some pin) = .ok bundle ∧
    SignatureVerifies s.client.toCrypto (encodeUtf8 (receivedPayload raw))
      (raw.signature.getD []) bundle.signingPublicKey ∧
    SameMaterial pin bundle.signingPublicKey ∧ contents = renderTrustedUserCaKeys bundle

theorem readString_regular {file : StateFile} {bytes : Bytes} {t : Text}
    (hfile : d file = .regular bytes) (ht : decodeUtf8 bytes = some t) (hne : trimText t ≠ []) :
    d.readString file = .ok (some (trimText t)) := by
  rw [StateDir.readString, hfile]
  simp only [readEntry, stringOf, optionalOf, bind, Except.bind, ht, if_neg hne]

theorem expectedSigningKey_established {pin : Text} {persisted : PersistedState}
    (h : EstablishedPin s d pin) (hload : d.load = .ok persisted) :
    s.expectedSigningKey persisted = some pin := by
  rcases h with hoperator | ⟨hnone, hne, bytes, t, hfile, ht, rfl⟩
  · rw [CaSyncService.expectedSigningKey, hoperator]
    rfl
  · have hread := (load_eq_ok.mp hload).2.2
    rw [readString_regular hfile ht hne] at hread
    rw [CaSyncService.expectedSigningKey, hnone, ← Except.ok.inj hread]
    rfl

theorem established_of_pinned {key : Text} (hoperator : s.pinnedSigningKey = none)
    (h : Pinned d key) : EstablishedPin s d (trimText key) :=
  Or.inr ⟨hoperator, h.2, storedLine key, key ++ ['\n'], h.1, decodeUtf8_encodeUtf8 _,
    trimText_newline key⟩

/-- A pass changes neither the pin nor the fact that it is established. -/
theorem established_pass {pin : Text} {q : SyncPass StateDir}
    (h : Exec hostile s.synchronize.run q.before q.trace q.result q.after)
    (hpin : EstablishedPin s q.before pin) :
    EstablishedPin s q.after pin ∧ q.after .signingKey = q.before .signingKey ∧
      ∀ e ∈ q.trace, e.before .signingKey = q.before .signingKey ∧
        e.after .signingKey = q.before .signingKey := by
  have hpresent : s.pinnedSigningKey ≠ none ∨ q.before .signingKey ≠ .missing := by
    rcases hpin with hoperator | ⟨_, _, _, _, hfile, _⟩
    · exact Or.inl (by simp [hoperator])
    · exact Or.inr (by simp [hfile])
  obtain ⟨hafter, hevents⟩ := pin_kept s hostile_respects h hpresent
  refine ⟨?_, hafter, hevents⟩
  rcases hpin with hoperator | ⟨hnone, hne, bytes, t, hfile, ht⟩
  · exact Or.inl hoperator
  · exact Or.inr ⟨hnone, hne, bytes, t, hafter.trans hfile, ht⟩

theorem established_run {pin : Text} (h : Run hostile s.synchronize.run d passes d')
    (hpin : EstablishedPin s d pin) :
    (EstablishedPin s d' pin ∧ d' .signingKey = d .signingKey) ∧
      ∀ q ∈ passes, (EstablishedPin s q.before pin ∧ q.before .signingKey = d .signingKey) ∧
        Exec hostile s.synchronize.run q.before q.trace q.result q.after := by
  refine h.invariant (I := fun v => EstablishedPin s v pin ∧ v .signingKey = d .signingKey)
    (C := fun _ => True) (fun q hq _ hbefore => ?_) (fun _ _ => trivial) ⟨hpin, rfl⟩
  obtain ⟨hafter, hfile, _⟩ := established_pass s hq hbefore.1
  exact ⟨hafter, hfile.trans hbefore.2⟩

/-- A decision to apply, under an established pin, was prepared by authentic contents. -/
theorem decides_authentic {pin : Text} {w v : StateDir} {head : List (SyncEvent StateDir)}
    {persisted : PersistedState} {response : HttpResponse} {bundle : CaBundle}
    (h : Decides s hostile id w head v persisted response (.apply bundle))
    (hpin : EstablishedPin s w pin) :
    Authentic s pin head (renderTrustedUserCaKeys bundle) := by
  obtain ⟨x, x', signed, hget⟩ := h.fetched
  obtain ⟨first, u, now, u', rfl, _, raw, hraw, hbundle⟩ := h.decided.1
  rw [expectedSigningKey_established s hpin h.load] at hbundle
  obtain ⟨_, hmaterial, hsignature⟩ := fromResponse_authentic hbundle
  refine ⟨first, u, now, u', x, x', s.bundleRequest signed persisted.fingerprint, response, raw,
    bundle, rfl, ?_, hraw, hbundle, hsignature, hmaterial pin rfl, rfl⟩
  rcases List.mem_append.mp hget with hget | hget
  · exact hget
  · cases List.mem_singleton.mp hget

/-- What a single pass hands to the helper under an established pin. -/
theorem pass_authentic {pin : Text} {q : SyncPass StateDir}
    (h : Exec hostile s.synchronize.run q.before q.trace q.result q.after)
    (hpin : EstablishedPin s q.before pin) :
    (∀ first v v' contents answer rest,
      q.trace = first ++ applyEvent v v' contents answer :: rest → Authentic s pin first contents) ∧
    q.trace.countP (fun e => isApply e.op) ≤ 1 := by
  rcases (pass_course s h).asks with hquiet | ⟨head, rest, u, u', answer, persisted, response,
    bundle, htrace, hdecides, hrest⟩
  · constructor
    · intro first v v' contents answer rest htrace
      have hmem := htrace ▸ List.mem_append_right first (List.mem_cons_self ..)
      exact absurd (hquiet _ hmem) not_false
    · rw [List.countP_eq_zero.mpr fun e he => by simp [quiet_not_apply (hquiet e he)]]
      exact Nat.zero_le 1
  have hhead : ∀ e ∈ head, isApply e.op = false :=
    fun e he => quiet_not_apply (surveying_quiet (hdecides.ops e he))
  constructor
  · intro first v v' contents other tail hsplit
    rw [htrace] at hsplit
    obtain ⟨hevent, hfirst⟩ := split_only (p := fun e => isApply e.op) hsplit.symm hhead hrest rfl
    cases hevent
    rw [hfirst]
    exact decides_authentic s hdecides hpin
  · rw [htrace, List.countP_append, List.countP_cons,
      List.countP_eq_zero.mpr fun e he => by simp [hhead e he],
      List.countP_eq_zero.mpr fun e he => by simp [hrest e he]]
    simp [applyEvent, isApply]

/-- Under an established pin every applied file is authentic, no pass asks the helper twice,
and the pin stays what it is. -/
theorem applies_authentic {pin : Text} (h : Run hostile s.synchronize.run d passes d')
    (hpin : EstablishedPin s d pin) :
    d' .signingKey = d .signingKey ∧
    ∀ q ∈ passes, (∀ first v v' contents answer rest,
        q.trace = first ++ applyEvent v v' contents answer :: rest →
        Authentic s pin first contents) ∧
      q.trace.countP (fun e => isApply e.op) ≤ 1 ∧
      q.before .signingKey = d .signingKey ∧
      ∀ e ∈ q.trace, e.before .signingKey = d .signingKey ∧
        e.after .signingKey = d .signingKey := by
  obtain ⟨⟨_, hend⟩, hpasses⟩ := established_run s h hpin
  refine ⟨hend, fun q hq => ?_⟩
  obtain ⟨⟨hestablished, hfile⟩, hexec⟩ := hpasses q hq
  obtain ⟨hauthentic, hcount⟩ := pass_authentic s hexec hestablished
  obtain ⟨_, _, hevents⟩ := established_pass s hexec hestablished
  rw [hfile] at hevents
  exact ⟨hauthentic, hcount, hfile, hevents⟩

/-- An agent with the golden key for an operator pin applies the golden bundle. -/
theorem applies_authentic_golden :
    ∃ (q : SyncPass StateDir) (first rest : List (SyncEvent StateDir)),
      (∃ v v' answer,
        q.trace = first ++ applyEvent v v' (renderTrustedUserCaKeys golden.bundle) answer :: rest) ∧
      Authentic (sampleService (some golden.signingKey)) golden.signingKey first
        (renderTrustedUserCaKeys golden.bundle) := by
  obtain ⟨head, happlied, happlies⟩ := sample_applies (hostile_working sampleNow)
    (w := StateDir.empty) (load_unstored rfl rfl rfl) (fun _ => rfl) sampleBody_golden
    golden_accepted
  have hexec := happlies [] none _ (Exec.killed _ _)
  have hauthentic := (applies_authentic _ (Run.single hexec) (Or.inl rfl)).2 _
    (List.mem_singleton_self _)
  let asked := sampleApply StateDir.install (fun dir _ => dir) StateDir.empty golden
  exact ⟨⟨StateDir.empty, head ++ [asked], none, asked.after⟩, head, [],
    ⟨asked.before, asked.after, .ok .applied, rfl⟩, hauthentic.1 head _ _ _ _ [] rfl⟩

/-- No bundle that was applied is older than one applied before it. -/
def NeverOlder (passes : List (SyncPass StateDir)) : Prop :=
  passes.Pairwise fun o q => ∀ b c, Applied s o.trace b → Applied s q.trace c →
    b.generation ≤ c.generation

/-- What the pass applied, the generation file says: it did before, or the write of the
generation was made and took effect. -/
def GenerationStored (q : SyncPass StateDir) : Prop :=
  ∀ bundle, Applied s q.trace bundle →
    q.before.readGeneration = .ok (some bundle.generation) ∨
    ∃ v v' answer,
      writeEvent v v' .generation (recordLine bundle .generation) answer ∈ q.trace ∧
      v' .generation = .regular (recordLine bundle .generation)

/-- The agent is killed before it stores generation 42, and generation 41 is replayed. -/
theorem older_after_kill :
    ∃ passes d', Run hostile (sampleService (some golden.signingKey)).synchronize.run
      StateDir.empty passes d' ∧ ¬ NeverOlder (sampleService (some golden.signingKey)) passes := by
  obtain ⟨head, happlied, happlies⟩ := sample_applies (hostile_working sampleNow)
    (w := StateDir.empty) (load_unstored rfl rfl rfl) (fun _ => rfl) sampleBody_golden
    golden_accepted
  obtain ⟨head', happlied', happlies'⟩ := sample_applies (hostile_working sampleNow)
    (w := attempted) (load_unstored rfl rfl rfl) (fun _ => rfl) sampleBody_older older_accepted
  have hfirst := happlies [] none _ (Exec.killed _ _)
  have hsecond := happlies' [] none _ (Exec.killed _ _)
  refine ⟨_, _, Run.cons hfirst (Run.single hsecond), fun hordered => ?_⟩
  have hle := List.rel_of_pairwise_cons hordered (List.mem_singleton_self _) _ _
    (happlied []) (happlied' [])
  exact absurd hle (by decide)

/-- The generation file holds at least the generation of every bundle the pass applied. -/
def Covers (q : SyncPass StateDir) (dir : StateDir) : Prop :=
  ∀ bundle, Applied s q.trace bundle →
    ∃ g, dir.readGeneration = .ok (some g) ∧ bundle.generation ≤ g

theorem Covers.mono {q : SyncPass StateDir} {dir dir' : StateDir} (h : Covers s q dir)
    (hle : GenerationLe dir dir') : Covers s q dir' := by
  intro bundle hbundle
  obtain ⟨g, hg, hbound⟩ := h bundle hbundle
  obtain ⟨g', hg', hle'⟩ := hle g hg
  exact ⟨g', hg', UInt64.le_trans hbound hle'⟩

theorem pass_generation_le {q : SyncPass StateDir}
    (h : Exec hostile s.synchronize.run q.before q.trace q.result q.after) :
    GenerationLe q.before q.after :=
  h.relates GenerationLe.refl (fun _ _ _ => GenerationLe.trans) (pass_generation_mono s h)

theorem covers_of_stored {q : SyncPass StateDir}
    (h : Exec hostile s.synchronize.run q.before q.trace q.result q.after)
    (hstored : GenerationStored s q) : Covers s q q.after := by
  intro bundle hbundle
  rcases hstored bundle hbundle with hbefore | ⟨v, v', answer, hmem, hfile⟩
  · exact pass_generation_le s h _ hbefore
  · have hafter := (h.relates_around GenerationLe.refl (fun _ _ _ => GenerationLe.trans)
      (pass_generation_mono s h) _ hmem).2
    exact hafter _ (readGeneration_recordLine hfile)

/-- A bundle is applied only at or above the generation that the file holds. -/
theorem applied_above {q : SyncPass StateDir} {bundle : CaBundle} {g : UInt64}
    (h : Exec hostile s.synchronize.run q.before q.trace q.result q.after)
    (hbundle : Applied s q.trace bundle) (hg : q.before.readGeneration = .ok (some g)) :
    g ≤ bundle.generation := by
  obtain ⟨_, _, _, _, _, _, _, hdecides, _, _⟩ := (pass_course s h).of_applied s hbundle
  exact hdecides.generation_le s hg

/-- The host is never downgraded in runs that store every applied generation. -/
theorem never_older_of_stored (h : Run hostile s.synchronize.run d passes d')
    (hstored : ∀ q ∈ passes, GenerationStored s q) : NeverOlder s passes := by
  refine h.pairwise (I := fun _ => True) (K := Covers s) (fun _ _ _ _ => trivial) ?_ ?_ ?_
    hstored trivial
  · intro q hq hC _
    exact covers_of_stored s hq hC
  · intro o q hq _ _ hcovers
    exact hcovers.mono s (pass_generation_le s hq)
  · intro o q hq _ _ hcovers b c hb hc
    obtain ⟨g, hg, hbound⟩ := hcovers b hb
    exact UInt64.le_trans hbound (applied_above s hq hc hg)

theorem never_older_of_stored_golden :
    ∃ q : SyncPass StateDir, Applied (sampleService none) q.trace golden.bundle ∧
      NeverOlder (sampleService none) [q] := by
  obtain ⟨q, _, hexec, happlied, ⟨v, v', answer, hfile, hmem⟩, _⟩ := golden_run
  refine ⟨q, happlied, never_older_of_stored _ (Run.single hexec) fun p hp bundle hbundle => ?_⟩
  obtain rfl := List.mem_singleton.mp hp
  obtain rfl := (pass_course _ hexec).applied_unique _ hbundle happlied
  exact Or.inr ⟨v, v', answer, hmem, hfile⟩

/-- All applied bundles carry the same key material. -/
def OneSigner (passes : List (SyncPass StateDir)) : Prop :=
  passes.Pairwise fun o q => ∀ b c, Applied s o.trace b → Applied s q.trace c →
    SameMaterial b.signingPublicKey c.signingPublicKey

/-- Where the pass applied a bundle, there was a pin before, or the write of the pin was
made and took effect. -/
def PinStored (q : SyncPass StateDir) : Prop :=
  ∀ bundle, Applied s q.trace bundle →
    q.before .signingKey ≠ .missing ∨
    ∃ v v' answer,
      writeEvent v v' .signingKey (storedLine bundle.signingPublicKey) answer ∈ q.trace ∧
      v' .signingKey = .regular (storedLine bundle.signingPublicKey)

/-- The agent is killed before it stores the pin, and another signer is trusted next. -/
theorem second_signer_after_kill :
    ∃ passes d', Run hostile (sampleService none).synchronize.run StateDir.empty passes d' ∧
      ¬ OneSigner (sampleService none) passes := by
  obtain ⟨head, happlied, happlies⟩ := sample_applies (hostile_working sampleNow)
    (w := StateDir.empty) (load_unstored rfl rfl rfl) (fun _ => rfl) sampleBody_golden
    (fromResponse_unpinned golden_accepted)
  obtain ⟨head', happlied', happlies'⟩ := sample_applies (hostile_working sampleNow)
    (w := attempted) (load_unstored rfl rfl rfl) (fun _ => rfl) sampleBody_foreign foreign_accepted
  have hfirst := happlies [] none _ (Exec.killed _ _)
  have hsecond := happlies' [] none _ (Exec.killed _ _)
  refine ⟨_, _, Run.cons hfirst (Run.single hsecond), fun hone => ?_⟩
  have hsame := List.rel_of_pairwise_cons hone (List.mem_singleton_self _) _ _
    (happlied []) (happlied' [])
  rw [← publicKeysEqual_iff] at hsame
  exact absurd hsame (by decide +kernel)

theorem pinned_pass {q : SyncPass StateDir} {key : Text}
    (h : Exec hostile s.synchronize.run q.before q.trace q.result q.after)
    (hkey : Pinned q.before key) : Pinned q.after key := by
  obtain ⟨hafter, _⟩ := pin_kept s hostile_respects h (Or.inr hkey.present)
  exact ⟨hafter.trans hkey.1, hkey.2⟩

/-- Without an operator pin, the key in the pin file decides who may sign. -/
theorem applied_under_pin (hnone : s.pinnedSigningKey = none) {q : SyncPass StateDir}
    {key : Text} {bundle : CaBundle}
    (h : Exec hostile s.synchronize.run q.before q.trace q.result q.after)
    (hkey : Pinned q.before key) (hbundle : Applied s q.trace bundle) :
    SameMaterial key bundle.signingPublicKey := by
  obtain ⟨_, _, _, _, persisted, _, _, hdecides, _, _⟩ := (pass_course s h).of_applied s hbundle
  have hread := (load_eq_ok.mp hdecides.load).2.2
  have hpin : persisted.signingKey = some (trimText key) :=
    Except.ok.inj (hread.symm.trans (readString_storedLine hkey.1 hkey.2))
  obtain ⟨_, _, _, _, hbundle⟩ := hdecides.decided.1.accepts
  have hexpected : s.expectedSigningKey persisted = some (trimText key) := by
    rw [CaSyncService.expectedSigningKey, hnone, hpin]
    rfl
  rw [hexpected] at hbundle
  exact sameMaterial_trimText.mp ((fromResponse_authentic hbundle).2.1 _ rfl)

/-- Every bundle the pass applied was signed with the key in the pin file. -/
def PinnedTo (q : SyncPass StateDir) (dir : StateDir) : Prop :=
  ∀ bundle, Applied s q.trace bundle → ∃ key, Pinned dir key ∧
    (key = bundle.signingPublicKey ∨ SameMaterial key bundle.signingPublicKey)

theorem pinnedTo_of_stored (hnone : s.pinnedSigningKey = none) {q : SyncPass StateDir}
    (h : Exec hostile s.synchronize.run q.before q.trace q.result q.after)
    (hstored : PinStored s q) (hbefore : PinFile q.before) : PinnedTo s q q.after := by
  intro bundle hbundle
  rcases hstored bundle hbundle with hpresent | ⟨v, v', answer, hmem, hfile⟩
  · obtain ⟨key, hkey⟩ := hbefore.resolve_left hpresent
    exact ⟨key, pinned_pass s h hkey, Or.inr (applied_under_pin s hnone h hkey hbundle)⟩
  · obtain ⟨_, _, _, _, _, _, _, hdecides, _, _⟩ := (pass_course s h).of_applied s hbundle
    obtain ⟨_, _, _, _, haccepted⟩ := hdecides.decided.1.accepts
    have hafter := written_sticks hostile_respects h
      (pin_contents_applied s (pass_course s h) hbundle) hmem hfile
    exact ⟨_, ⟨hafter, (fromResponse_authentic haccepted).1⟩, Or.inl rfl⟩

/-- From an empty pin file on, everything applied has one signer in runs that store the pin
of the first one. -/
theorem one_signer_of_stored (hnone : s.pinnedSigningKey = none)
    (hmissing : d .signingKey = .missing) (h : Run hostile s.synchronize.run d passes d')
    (hstored : ∀ q ∈ passes, PinStored s q) : OneSigner s passes := by
  refine h.pairwise (I := PinFile) (K := PinnedTo s) ?_ ?_ ?_ ?_ hstored (Or.inl hmissing)
  · intro q hq _ hbefore
    exact (pinFile_pass s hostile_respects hq hbefore).1
  · intro q hq hC hbefore
    exact pinnedTo_of_stored s hnone hq hC hbefore
  · intro o q hq _ _ hpinned b hb
    obtain ⟨key, hkey, hmaterial⟩ := hpinned b hb
    exact ⟨key, pinned_pass s hq hkey, hmaterial⟩
  · intro o q hq _ _ hpinned b c hb hc
    obtain ⟨key, hkey, rfl | hmaterial⟩ := hpinned b hb
    · exact applied_under_pin s hnone hq hkey hc
    · exact hmaterial.symm.trans (applied_under_pin s hnone hq hkey hc)

theorem one_signer_of_stored_golden :
    ∃ q : SyncPass StateDir, Applied (sampleService none) q.trace golden.bundle ∧
      OneSigner (sampleService none) [q] := by
  obtain ⟨q, hbefore, hexec, happlied, _, v, v', answer, hfile, hmem⟩ := golden_run
  have hmissing : q.before .signingKey = .missing := by rw [hbefore]; rfl
  refine ⟨q, happlied,
    one_signer_of_stored _ rfl hmissing (Run.single hexec) fun p hp bundle hbundle => ?_⟩
  obtain rfl := List.mem_singleton.mp hp
  obtain rfl := (pass_course _ hexec).applied_unique _ hbundle happlied
  exact Or.inr ⟨v, v', answer, hmem, hfile⟩

end MayflyAgent.SyncRuns
