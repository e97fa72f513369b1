import MayflyAgent.Handlers

/-!
Which calls a program makes at most, and in which order. Some calls carry a label. A program keeps
to a list of labels when those of its calls are a sublist of it, whatever is answered. It winds down
when this holds of what is left of it once a condition on the world holds, which then holds for
good. A check that tells of the condition is what makes a loop wind down.
-/
namespace MayflyAgent.Programs

open Program Budgets

variable {S T : Signature} {W α β ε σ κ : Type}

/-- The labels of the calls of a trace, in their order. -/
def labels (label : S.Op → Option κ) (trace : List (Event S W)) : List κ :=
  trace.filterMap fun e => label e.op

/-- Whatever is answered, the labels of the calls are among these, in this order. -/
def KeepsTo (label : S.Op → Option κ) : Program S α → List κ → Prop
  | done _, _ => True
  | call op next, allowed => ∃ left, ((label op).toList ++ left).Sublist allowed ∧
      ∀ answer, KeepsTo label (next answer) left
  | running, _ => True

section Keeping

variable {label : S.Op → Option κ} {allowed allowed' total : List κ}

theorem labels_append (first second : List (Event S W)) :
    labels label (first ++ second) = labels label first ++ labels label second :=
  List.filterMap_append

theorem labels_cons (e : Event S W) (rest : List (Event S W)) :
    labels label (e :: rest) = (label e.op).toList ++ labels label rest := by
  unfold labels
  rw [List.filterMap_cons]
  cases label e.op <;> rfl

theorem KeepsTo.mono {p : Program S α} (h : KeepsTo label p allowed)
    (hallowed : allowed.Sublist allowed') : KeepsTo label p allowed' := by
  cases p with
  | done a => trivial
  | call op next =>
    obtain ⟨left, hleft, hnext⟩ := h
    exact ⟨left, hleft.trans hallowed, hnext⟩
  | running => trivial

/-- Where no call carries a label, there is nothing to keep to. -/
theorem keepsTo_of_calls {p : Program S α} (h : p.Calls fun op => label op = none) :
    KeepsTo label p [] := by
  induction p with
  | done a => trivial
  | call op next ih =>
    refine ⟨[], ?_, fun answer => ih answer (h.2 answer)⟩
    rw [h.1]
    exact List.Sublist.refl _
  | running => trivial

/-- The second part may go by the results of the first. -/
theorem KeepsTo.bind_yields {P : α → Prop} {p : Program S α} {f : α → Program S β}
    (hp : KeepsTo label p allowed) (hyields : Yields P p)
    (hf : ∀ a, P a → KeepsTo label (f a) allowed') :
    KeepsTo label (p >>= f) (allowed ++ allowed') := by
  induction p generalizing allowed with
  | done a => exact (hf a hyields).mono (List.sublist_append_right _ _)
  | call op next ih =>
    obtain ⟨left, hleft, hnext⟩ := hp
    refine ⟨left ++ allowed', ?_, fun answer => ih answer (hnext answer) (hyields answer)⟩
    rw [← List.append_assoc]
    exact hleft.append_right _
  | running => trivial

theorem KeepsTo.bind {p : Program S α} {f : α → Program S β} (hp : KeepsTo label p allowed)
    (hf : ∀ a, KeepsTo label (f a) allowed') : KeepsTo label (p >>= f) (allowed ++ allowed') :=
  hp.bind_yields (yields_of_all (fun _ => trivial) p) fun a _ => hf a

theorem KeepsTo.andThen {x : Action S ε α} {f : α → Action S ε β}
    (hx : KeepsTo label x.run allowed) (hf : ∀ a, KeepsTo label (f a).run allowed') :
    KeepsTo label (x >>= f).run (allowed ++ allowed') := by
  rw [run_bind]
  refine hx.bind fun r => ?_
  cases r with
  | ok a => exact hf a
  | error e => trivial

theorem KeepsTo.attempt {x : Action S ε α} (hx : KeepsTo label x.run allowed) :
    KeepsTo label x.attempt.run allowed := by
  have hdone : ∀ r : Except ε α,
      KeepsTo label (done (Except.ok r) : Program S (Except ε (Except ε α))) [] := fun _ => trivial
  have h := hx.bind hdone
  rwa [List.append_nil] at h

theorem keepsTo_perform (op : S.Op) :
    KeepsTo label (Action.perform op : Action S ε (S.Answer op)).run (label op).toList :=
  ⟨[], by rw [List.append_nil], fun _ => trivial⟩

theorem keepsTo_ofExcept (r : Except ε α) :
    KeepsTo label (Action.ofExcept r : Action S ε α).run [] := trivial

theorem keepsTo_pure (a : α) : KeepsTo label (pure a : Action S ε α).run [] := trivial

/-- An execution of such a program keeps to the list as well. -/
theorem KeepsTo.labels_sublist {env : Environment S W} {p : Program S α} {w w' : W}
    {trace : List (Event S W)} {result : Option α} (h : KeepsTo label p allowed)
    (hexec : Exec env p w trace result w') : (labels label trace).Sublist allowed := by
  induction hexec generalizing allowed with
  | finished a w => exact List.nil_sublist _
  | killed p w => exact List.nil_sublist _
  | step _ _ ih =>
    obtain ⟨left, hleft, hnext⟩ := h
    rw [labels_cons]
    exact ((ih (hnext _)).append_left _).trans hleft

theorem KeepsTo.inl {label : (S.sum T).Op → Option κ} {p : Program S α}
    (h : KeepsTo (fun op => label (.inl op)) p allowed) : KeepsTo label p.inl allowed := by
  induction p generalizing allowed with
  | done a => trivial
  | call op next ih =>
    obtain ⟨left, hleft, hnext⟩ := h
    exact ⟨left, hleft, fun answer => ih answer (hnext answer)⟩
  | running => trivial

theorem KeepsTo.inr {label : (S.sum T).Op → Option κ} {p : Program T α}
    (h : KeepsTo (fun op => label (.inr op)) p allowed) : KeepsTo label p.inr allowed := by
  induction p generalizing allowed with
  | done a => trivial
  | call op next ih =>
    obtain ⟨left, hleft, hnext⟩ := h
    exact ⟨left, hleft, fun answer => ih answer (hnext answer)⟩
  | running => trivial

end Keeping

/-- Once the world is stopped, the labels of the calls are among `behind` if it was so from the
start, and among `during` from the call on that stopped it. -/
structure WindsTo (env : Environment S W) (label : S.Op → Option κ) (stopped : W → Prop)
    (behind during : List κ) (p : Program S α) : Prop where
  behind : ∀ w trace result w', stopped w → Exec env p w trace result w' →
    (labels label trace).Sublist behind
  during : ∀ w past e rest result w', Exec env p w (past ++ e :: rest) result w' →
    stopped e.after → (labels label (e :: rest)).Sublist during

section Winding

variable {env : Environment S W} {label : S.Op → Option κ} {stopped : W → Prop}
  {behind during behind' during' total : List κ}

theorem KeepsTo.winds {p : Program S α} (h : KeepsTo label p total) :
    WindsTo env label stopped total total p where
  behind _ _ _ _ _ hexec := h.labels_sublist hexec
  during w past e rest result w' hexec _ := by
    have hall := h.labels_sublist hexec
    rw [labels_append] at hall
    exact (List.sublist_append_right _ _).trans hall

theorem winds_done (a : α) : WindsTo env label stopped [] [] (done a : Program S α) := by
  have hkeeps : KeepsTo label (done a : Program S α) [] := trivial
  exact hkeeps.winds

theorem winds_running : WindsTo env label stopped [] [] (running : Program S α) := by
  have hkeeps : KeepsTo label (running : Program S α) [] := trivial
  exact hkeeps.winds

theorem WindsTo.mono {p : Program S α} (h : WindsTo env label stopped behind during p)
    (hbehind : behind.Sublist behind') (hduring : during.Sublist during') :
    WindsTo env label stopped behind' during' p where
  behind w trace result w' hw hexec := (h.behind w trace result w' hw hexec).trans hbehind
  during w past e rest result w' hexec he :=
    (h.during w past e rest result w' hexec he).trans hduring

/-- Where the world is once stopped, it stays so. -/
theorem exec_stopped (hkept : ∀ w op answer w', env w op answer w' → stopped w → stopped w')
    {p : Program S α} {past rest : List (Event S W)} {e : Event S W} {w w' : W}
    {result : Option α} (h : Exec env p w (past ++ e :: rest) result w') (he : stopped e.after) :
    stopped w' := by
  obtain ⟨q, v, _, hrest⟩ := exec_leads h
  cases hrest with
  | step _ hrest =>
    exact (hrest.invariant (fun e he hw => hkept _ _ _ _ (hrest.event_env e he) hw) he).1

/-- Behind the first part the second winds down as if it had been stopped from its start. -/
theorem WindsTo.bind (hkept : ∀ w op answer w', env w op answer w' → stopped w → stopped w')
    {p : Program S α} {f : α → Program S β} (hp : WindsTo env label stopped behind during p)
    (hf : ∀ a, WindsTo env label stopped behind' during' (f a))
    (htotal : (during ++ behind').Sublist total) (htotal' : during'.Sublist total) :
    WindsTo env label stopped (behind ++ behind') total (p >>= f) where
  behind w trace result w' hw hexec := by
    rcases exec_bind hexec with ⟨_, hkill⟩ | ⟨a, first, second, w₁, rfl, hfirst, hsecond⟩
    · exact (hp.behind _ _ _ _ hw hkill).trans (List.sublist_append_left _ _)
    · have hw₁ := (hfirst.invariant (I := stopped)
        (fun e he h => hkept _ _ _ _ (hfirst.event_env e he) h) hw).1
      rw [labels_append]
      exact (hp.behind _ _ _ _ hw hfirst).append ((hf a).behind _ _ _ _ hw₁ hsecond)
  during w past e rest result w' hexec he := by
    rcases exec_bind hexec with ⟨_, hkill⟩ | ⟨a, first, second, w₁, htrace, hfirst, hsecond⟩
    · exact (hp.during _ _ _ _ _ _ hkill he).trans ((List.sublist_append_left _ _).trans htotal)
    · rcases split_append htrace with ⟨middle, rfl, rfl⟩ | ⟨middle, rfl, rfl⟩
      · have hw₁ := exec_stopped hkept hfirst he
        show (labels label (e :: middle ++ second)).Sublist total
        rw [labels_append]
        exact ((hp.during _ _ _ _ _ _ hfirst he).append
          ((hf a).behind _ _ _ _ hw₁ hsecond)).trans htotal
      · exact ((hf a).during _ _ _ _ _ _ hsecond he).trans htotal'

/-- A check that sees the world stopped decides what a stopped world still gets to. -/
theorem winds_check {op : S.Op} (hop : label op = none) {seen : S.Answer op → Prop}
    (hseen : ∀ w answer w', env w op answer w' → stopped w → stopped w' ∧ seen answer)
    {next : S.Answer op → Program S α}
    (hend : ∀ answer, seen answer → WindsTo env label stopped behind total (next answer))
    (hgo : ∀ answer, WindsTo env label stopped total total (next answer)) :
    WindsTo env label stopped behind total (call op next) where
  behind w trace result w' hw hexec := by
    rcases exec_call hexec with ⟨rfl, _, _⟩ | ⟨answer, w₁, rest, rfl, henv, hrest⟩
    · exact List.nil_sublist _
    · obtain ⟨hw₁, hanswer⟩ := hseen w answer w₁ henv hw
      rw [labels_cons, hop]
      exact (hend answer hanswer).behind _ _ _ _ hw₁ hrest
  during w past e rest result w' hexec he := by
    cases past with
    | nil =>
      cases hexec with
      | step _ hrest =>
        rw [labels_cons, hop]
        exact (hgo _).behind _ _ _ _ he hrest
    | cons first past =>
      cases hexec with
      | step _ hrest => exact (hgo _).during _ _ _ _ _ _ hrest he

theorem WindsTo.andThen
    (hkept : ∀ w op answer w', env w op answer w' → stopped w → stopped w')
    {x : Action S ε α} {f : α → Action S ε β}
    (hx : WindsTo env label stopped behind during x.run)
    (hf : ∀ a, WindsTo env label stopped behind' during' (f a).run)
    (htotal : (during ++ behind').Sublist total) (htotal' : during'.Sublist total) :
    WindsTo env label stopped (behind ++ behind') total (x >>= f).run := by
  rw [run_bind]
  refine hx.bind hkept (fun r => ?_) htotal htotal'
  cases r with
  | ok a => exact hf a
  | error e => exact (winds_done _).mono (List.nil_sublist _) (List.nil_sublist _)

/-- Behind the end of a program nothing more is called. -/
theorem WindsTo.last (hkept : ∀ w op answer w', env w op answer w' → stopped w → stopped w')
    {p : Program S α} {g : α → β} (h : WindsTo env label stopped behind during p) :
    WindsTo env label stopped behind during (p >>= fun a => done (g a)) := by
  have hlast : WindsTo env label stopped (behind ++ []) during (p >>= fun a => done (g a)) :=
    h.bind hkept (fun a => winds_done (g a)) (by rw [List.append_nil]) (List.nil_sublist _)
  rwa [List.append_nil] at hlast

/-- The rule for handled actions. -/
theorem WindsTo.handle_bind
    (hkept : ∀ w op answer w', env w op answer w' → stopped w → stopped w')
    {S' : Signature} {h : Handler S' S σ} {x : Action S' ε α} {f : α → Action S' ε β} {s : σ}
    (hx : WindsTo env label stopped behind during (handle h x.run s))
    (hf : ∀ a s', WindsTo env label stopped behind' during' (handle h (f a).run s'))
    (htotal : (during ++ behind').Sublist total) (htotal' : during'.Sublist total) :
    WindsTo env label stopped (behind ++ behind') total (handle h (x >>= f).run s) := by
  rw [run_bind, Programs.handle_bind]
  refine hx.bind hkept (fun r => ?_) htotal htotal'
  obtain ⟨r, s'⟩ := r
  cases r with
  | ok a => exact hf a s'
  | error e => exact (winds_done _).mono (List.nil_sublist _) (List.nil_sublist _)

end Winding

section Sums

variable {env : Environment (S.sum T) W} {label : (S.sum T).Op → Option κ} {stopped : W → Prop}
  {behind during : List κ}

theorem labels_inl (inner : List (Event S W)) :
    labels label (inner.map (Event.inl (T := T))) = labels (fun op => label (.inl op)) inner :=
  List.filterMap_map ..

theorem labels_inr (inner : List (Event T W)) :
    labels label (inner.map (Event.inr (S := S))) = labels (fun op => label (.inr op)) inner :=
  List.filterMap_map ..

theorem WindsTo.inl {p : Program S α}
    (h : WindsTo (fun v op answer v' => env v (.inl op) answer v') (fun op => label (.inl op))
      stopped behind during p) : WindsTo env label stopped behind during p.inl where
  behind w trace result w' hw hexec := by
    obtain ⟨inner, rfl, hinner⟩ := exec_inl hexec
    rw [labels_inl]
    exact h.behind w inner result w' hw hinner
  during w past e rest result w' hexec he := by
    obtain ⟨inner, htrace, hinner⟩ := exec_inl hexec
    obtain ⟨past, tail, rfl, rfl, htail⟩ := List.map_eq_append_iff.mp htrace.symm
    obtain ⟨e, rest, rfl, rfl, rfl⟩ := List.map_eq_cons_iff.mp htail
    have hlabels := h.during w past e rest result w' hinner he
    rwa [← labels_inl (T := T)] at hlabels

theorem WindsTo.inr {p : Program T α}
    (h : WindsTo (fun v op answer v' => env v (.inr op) answer v') (fun op => label (.inr op))
      stopped behind during p) : WindsTo env label stopped behind during p.inr where
  behind w trace result w' hw hexec := by
    obtain ⟨inner, rfl, hinner⟩ := exec_inr hexec
    rw [labels_inr]
    exact h.behind w inner result w' hw hinner
  during w past e rest result w' hexec he := by
    obtain ⟨inner, htrace, hinner⟩ := exec_inr hexec
    obtain ⟨past, tail, rfl, rfl, htail⟩ := List.map_eq_append_iff.mp htrace.symm
    obtain ⟨e, rest, rfl, rfl, rfl⟩ := List.map_eq_cons_iff.mp htail
    have hlabels := h.during w past e rest result w' hinner he
    rwa [← labels_inr (S := S)] at hlabels

end Sums

section Handled

variable {label : T.Op → Option κ} {h : Handler S T σ} {allowed allowed' : List κ}

theorem KeepsTo.handle_perform {op : S.Op} {s : σ} (hop : KeepsTo label (h s op) allowed) :
    KeepsTo label (handle h (Action.perform op : Action S ε (S.Answer op)).run s) allowed := by
  have hdone : ∀ r : S.Answer op × σ,
      KeepsTo label (done (Except.ok r.1, r.2) : Program T (Except ε (S.Answer op) × σ)) [] :=
    fun _ => trivial
  have hlast := hop.bind hdone
  rwa [List.append_nil] at hlast

theorem KeepsTo.handle_bind {x : Action S ε α} {f : α → Action S ε β} {P : α → Prop} {s : σ}
    (hx : KeepsTo label (handle h x.run s) allowed) (hyields : YieldsOk P x)
    (hf : ∀ a s', P a → KeepsTo label (handle h (f a).run s') allowed') :
    KeepsTo label (handle h (x >>= f).run s) (allowed ++ allowed') := by
  have hhandled : ∀ {p : Program S (Except ε α)} {R : Except ε α → Prop} {s : σ}, Yields R p →
      Yields (fun r => R r.1) (handle h p s) := by
    intro p R s hp
    induction p generalizing s with
    | done a => exact hp
    | call op next ih =>
      exact (yields_of_all (fun _ => trivial) (h s op)).bind fun r _ => ih r.1 (hp r.1)
    | running => trivial
  rw [run_bind, Programs.handle_bind]
  refine hx.bind_yields (hhandled hyields) fun r hr => ?_
  obtain ⟨r, s'⟩ := r
  cases r with
  | ok a => exact hf a s' (hr a rfl)
  | error e => trivial

end Handled

end MayflyAgent.Programs
