import Optiflow.Lib.Interleave

/-!
# What a thread has done

The steps of a thread are scattered over the trace of a run.  `Machine.Recalls` reads a program together
with the steps that its thread has taken so far: every call and every answer is justified by them.
`Reaches.recalls` is the induction over runs; `Reaches.call_recalls` speaks of a single step of the
trace, whose thread took its earlier steps before it.  `Machine.Took` are the steps that a thread can
have taken in any surroundings; the threads of a run have taken such steps (`Reaches.took`).
`Machine.Recounts` speaks of these steps together with what is left of the program (`Recounts.took`).

`Reaches.of_trace` cuts a run at one of its steps, and `Reaches.explained` reads along a trace what
accounts for the stores that its steps found.
-/

universe u

namespace Interleave

/-- The step is one of the request. -/
def Step.IsOf {S Q O V : Type} {E : Type → Type u} (q : Q) : Step S Q O V E → Prop
  | .start _ q' => q' = q
  | .call _ q' _ _ _ => q' = q
  | .env _ _ => False

namespace Machine

variable {S Q R O V : Type} {E : Type → Type u} {sys : Machine S Q R O V E}
  {sch : Schedule S Q R O V E} {c₀ c c' : Config S Q R O V E}

/-- The cut of a run at a step: the configuration the step was taken in and the one it led to. -/
theorem Reaches.of_trace (h : sys.Reaches sch c₀ c) (h₀ : c₀.trace = [])
    {newer older : List (Step S Q O V E)} {st : Step S Q O V E} (hc : c.trace = newer ++ st :: older) :
    ∃ c₁ m c₂, sys.Reaches sch c₀ c₁ ∧ sys.next c₁ m = some c₂ ∧ c₁.trace = older ∧
      c₂.trace = st :: older ∧ c₁.store = st.before := by
  induction h generalizing newer with
  | refl =>
    rw [h₀] at hc
    exact absurd hc (by simp)
  | @move d d' m hr _ hn ih =>
    obtain ⟨st', htrace, hbefore⟩ : ∃ st', d'.trace = st' :: d.trace ∧ d.store = st'.before := by
      obtain ⟨q, s, -, -, rfl⟩ | ⟨i, o, q, α, e, k, a, s, -, -, -, rfl⟩ | ⟨v, s, -, -, rfl⟩ :=
        next_cases hn
      all_goals exact ⟨_, rfl, rfl⟩
    rw [htrace] at hc
    cases newer with
    | nil =>
      obtain ⟨rfl, rfl⟩ := List.cons.inj hc
      exact ⟨d, m, d', hr, hn, rfl, htrace, hbefore⟩
    | cons x newer => exact ih (List.cons.inj hc).2

/-- A call in the trace was made by a thread. -/
theorem exists_thread_of_call {m : Move Q O V} (hn : sys.next c m = some c') {s : S} {q : Q} {o : O}
    {α : Type} {e : E α} {a : α} {older : List (Step S Q O V E)}
    (hc : c'.trace = .call s q o e a :: older) :
    ∃ k s', (⟨q, .call e k⟩ : Thread Q E R) ∈ c.threads ∧ sys.exec o e c.store = some (a, s') := by
  obtain ⟨q', s', -, -, rfl⟩ | ⟨i, o', q', α', e', k, a', s', -, hth, hx, rfl⟩ | ⟨v, s', -, -, rfl⟩ :=
    next_cases hn
  · cases hc
  · cases hc
    exact ⟨k, s', List.mem_of_getElem? hth, hx⟩
  · cases hc

variable (sys) in
/-- Every call is `P` and every answer `Φ`, given what the thread has done, the newest step first. -/
def Recalls (P : Q → List (Step S Q O V E) → {α : Type} → E α → Prop)
    (Φ : Q → List (Step S Q O V E) → R → Prop) (q : Q) : Prog E R → List (Step S Q O V E) → Prop
  | .ret r, hist => Φ q hist r
  | .call e k, hist => P q hist e ∧ ∀ o a s s', sys.exec o e s = some (a, s') →
      Recalls P Φ q (k a) (.call s q o e a :: hist)

variable {P : Q → List (Step S Q O V E) → {α : Type} → E α → Prop}
  {Φ : Q → List (Step S Q O V E) → R → Prop} {s₀ : S}

/-- Calls that need no justification. -/
theorem recalls_of_makes {q : Q} {p : Prog E R} (h : p.Makes fun e => ∀ hist, P q hist e)
    (hΦ : ∀ hist r, Φ q hist r) (hist : List (Step S Q O V E)) : sys.Recalls P Φ q p hist := by
  induction p generalizing hist with
  | ret r => exact hΦ hist r
  | call e k ih => exact ⟨h.1 hist, fun o a s _ _ => ih a (h.2 a) _⟩

/-- Code of such calls, before a program that is justified by whatever has been done. -/
theorem recalls_over {q : Q} {φ : {β : Type} → E β → Prop} {ρ : R → Prop} {α : Type} {x : Code E R α}
    (h : x.Over φ ρ) (hφ : ∀ {β : Type} (e : E β), φ e → ∀ hist, P q hist e)
    (hρ : ∀ r, ρ r → ∀ hist, Φ q hist r) {k : α → Prog E R}
    (hk : ∀ a hist, sys.Recalls P Φ q (k a) hist) (hist : List (Step S Q O V E)) :
    sys.Recalls P Φ q (x k) hist :=
  h (fun p => ∀ hist, sys.Recalls P Φ q p hist)
    (fun e _ he hk hist => ⟨hφ e he hist, fun _ a _ _ _ => hk a _⟩) hρ k hk hist

/-- Each thread has a history, a part of the trace, that justifies what is left of its program. -/
theorem Reaches.recalls (h : sys.Reaches sch (.init s₀) c)
    (hstart : ∀ q s s', sys.launch q s = some s' →
      sys.Recalls P Φ q (sys.handler q) [.start s q]) :
    ∀ th ∈ c.threads, ∃ hist, hist.Sublist c.trace ∧ sys.Recalls P Φ th.origin th.prog hist := by
  refine h.induct (C := fun _ => True) (I := fun c => ∀ th ∈ c.threads, ∃ hist,
    hist.Sublist c.trace ∧ sys.Recalls P Φ th.origin th.prog hist)
    (fun _ hth => absurd hth List.not_mem_nil) (fun _ _ => trivial) ?_
  intro c m c' ih _ hn _ th hth
  have older : ∀ st, th ∈ c.threads →
      ∃ hist, hist.Sublist (st :: c.trace) ∧ sys.Recalls P Φ th.origin th.prog hist := by
    intro st hmem
    obtain ⟨hist, hsub, hrec⟩ := ih th hmem
    exact ⟨hist, hsub.cons st, hrec⟩
  obtain ⟨q, s, -, hq, rfl⟩ | ⟨i, o, q, α, e, k, a, s, -, hi, hx, rfl⟩ | ⟨v, s, -, -, rfl⟩ :=
    next_cases hn
  · rcases List.mem_append.1 hth with hth | hth
    · exact older _ hth
    · obtain rfl := List.mem_singleton.1 hth
      exact ⟨[.start c.store q], (List.nil_sublist _).cons_cons _, hstart q _ _ hq⟩
  · rcases List.mem_or_eq_of_mem_set hth with hth | rfl
    · exact older _ hth
    · obtain ⟨hist, hsub, -, hk⟩ := ih _ (List.mem_of_getElem? hi)
      exact ⟨_, hsub.cons_cons _, hk o a _ s hx⟩
  · exact older _ hth

variable (sys) in
/-- The steps that a thread can have taken, whatever else changes the store, the newest first, and what is
then left of its program. -/
inductive Took (q : Q) (p : Prog E R) : List (Step S Q O V E) → Prog E R → Prop
  | start : Took q p [] p
  | call {hist : List (Step S Q O V E)} {α : Type} {e : E α} {k : α → Prog E R} {o : O} {a : α}
      {s s' : S} : Took q p hist (.call e k) → sys.exec o e s = some (a, s') →
      Took q p (.call s q o e a :: hist) (k a)

/-- What justifies a program justifies all that it can come to. -/
theorem Recalls.took {q : Q} {p p' : Prog E R} {hist : List (Step S Q O V E)}
    (hr : sys.Recalls P Φ q p []) (h : sys.Took q p hist p') : sys.Recalls P Φ q p' hist := by
  induction h with
  | start => exact hr
  | call _ hx ih => exact ih.2 _ _ _ _ hx

variable (sys) in
/-- `T` holds of whatever the thread has done with what is then left of its program. -/
def Recounts (T : List (Step S Q O V E) → Prog E R → Prop) (q : Q) :
    Prog E R → List (Step S Q O V E) → Prop
  | .ret r, hist => T hist (.ret r)
  | .call e k, hist => T hist (.call e k) ∧ ∀ o a s s', sys.exec o e s = some (a, s') →
      Recounts T q (k a) (.call s q o e a :: hist)

theorem Recounts.here {T : List (Step S Q O V E) → Prog E R → Prop} {q : Q} {p : Prog E R}
    {hist : List (Step S Q O V E)} (h : sys.Recounts T q p hist) : T hist p := by
  cases p with
  | ret r => exact h
  | call e k => exact h.1

theorem Recounts.took {T : List (Step S Q O V E) → Prog E R → Prop} {q : Q} {p p' : Prog E R}
    {hist : List (Step S Q O V E)} (hr : sys.Recounts T q p []) (h : sys.Took q p hist p') :
    T hist p' := by
  have key : sys.Recounts T q p' hist := by
    induction h with
    | start => exact hr
    | call _ hx ih => exact ih.2 _ _ _ _ hx
  exact key.here

/-- The threads of a run have taken such steps. -/
theorem Reaches.took (h : sys.Reaches sch (.init s₀) c) : ∀ th ∈ c.threads, ∃ hist,
    hist.Sublist c.trace ∧ sys.Took th.origin (sys.handler th.origin) hist th.prog := by
  refine h.induct (C := fun _ => True) (I := fun c => ∀ th ∈ c.threads, ∃ hist,
    hist.Sublist c.trace ∧ sys.Took th.origin (sys.handler th.origin) hist th.prog)
    (fun _ hth => absurd hth List.not_mem_nil) (fun _ _ => trivial) ?_
  intro c m c' ih _ hn _ th hth
  have older : ∀ st, th ∈ c.threads → ∃ hist, hist.Sublist (st :: c.trace) ∧
      sys.Took th.origin (sys.handler th.origin) hist th.prog := by
    intro st hmem
    obtain ⟨hist, hsub, htook⟩ := ih th hmem
    exact ⟨hist, hsub.cons st, htook⟩
  obtain ⟨q, s, -, -, rfl⟩ | ⟨i, o, q, α, e, k, a, s, -, hi, hx, rfl⟩ | ⟨v, s, -, -, rfl⟩ :=
    next_cases hn
  · rcases List.mem_append.1 hth with hth | hth
    · exact older _ hth
    · obtain rfl := List.mem_singleton.1 hth
      exact ⟨[], List.nil_sublist _, .start⟩
  · rcases List.mem_or_eq_of_mem_set hth with hth | rfl
    · exact older _ hth
    · obtain ⟨hist, hsub, htook⟩ := ih _ (List.mem_of_getElem? hi)
      exact ⟨_, hsub.cons_cons _, htook.call hx⟩
  · exact older _ hth

/-- A call in the trace is the next one of a thread that has taken steps before it. -/
theorem Reaches.call_took (h : sys.Reaches sch (.init s₀) c)
    {newer older : List (Step S Q O V E)} {s : S} {q : Q} {o : O} {α : Type} {e : E α} {a : α}
    (hc : c.trace = newer ++ .call s q o e a :: older) :
    ∃ hist k, hist.Sublist older ∧ sys.Took q (sys.handler q) hist (.call e k) := by
  obtain ⟨c₁, m, c₂, hr, hn, rfl, hc₂, -⟩ := h.of_trace rfl hc
  obtain ⟨k, s', hth, -⟩ := exists_thread_of_call hn hc₂
  obtain ⟨hist, hsub, htook⟩ := hr.took _ hth
  exact ⟨hist, k, hsub, htook⟩

/-- A call in the trace is justified by steps before it. -/
theorem Reaches.call_recalls (h : sys.Reaches sch (.init s₀) c)
    (hstart : ∀ q s s', sys.launch q s = some s' →
      sys.Recalls P Φ q (sys.handler q) [.start s q])
    {newer older : List (Step S Q O V E)} {s : S} {q : Q} {o : O} {α : Type} {e : E α} {a : α}
    (hc : c.trace = newer ++ .call s q o e a :: older) :
    (∃ hist, hist.Sublist older ∧ P q hist e) ∧ ∃ s', sys.exec o e s = some (a, s') := by
  obtain ⟨c₁, m, c₂, hr, hn, rfl, hc₂, hbefore⟩ := h.of_trace rfl hc
  obtain ⟨k, s', hth, hx⟩ := exists_thread_of_call hn hc₂
  obtain ⟨hist, hsub, hP, -⟩ := hr.recalls hstart _ hth
  have hs : c₁.store = s := hbefore
  exact ⟨⟨hist, hsub, hP⟩, s', hs ▸ hx⟩

/-- What holds at the end of every run held when a step of the trace was taken. -/
theorem Reaches.at_step {K : List (Step S Q O V E) → S → Prop} (h : sys.Reaches sch (.init s₀) c)
    (hK : ∀ c, sys.Reaches sch (.init s₀) c → K c.trace c.store) {st : Step S Q O V E}
    (hst : st ∈ c.trace) : ∃ older, st :: older <:+ c.trace ∧ K older st.before := by
  obtain ⟨newer, older, hc⟩ := List.append_of_mem hst
  obtain ⟨c₁, m, c₂, hr, -, rfl, -, hbefore⟩ := h.of_trace rfl hc
  exact ⟨c₁.trace, ⟨newer, hc.symm⟩, hbefore ▸ hK c₁ hr⟩

/-- **A trace explains its stores.**  `K past s` says that the steps `past` account for the store `s`.  A
call keeps this when what justifies it does, and when the trace before each step of the thread's history
accounts for the store that the step found. -/
theorem Reaches.explained {K : List (Step S Q O V E) → S → Prop} (h : sys.Reaches sch (.init s₀) c)
    (hrec : ∀ q s s', sys.launch q s = some s' → sys.Recalls P Φ q (sys.handler q) [.start s q])
    (h₀ : K [] s₀)
    (hstart : ∀ {past q s s'}, K past s → sys.launch q s = some s' → K (.start s q :: past) s')
    (hcall : ∀ {past hist : List (Step S Q O V E)} {q o} {α : Type} {e : E α} {a s s'}, K past s →
      (∀ st ∈ hist, ∃ before, st :: before <:+ past ∧ K before st.before) → P q hist e →
      sys.exec o e s = some (a, s') → K (.call s q o e a :: past) s')
    (henv : ∀ {past v s s'}, K past s → sys.env v s = some s' → K (.env s v :: past) s') :
    K c.trace c.store := by
  have key : sys.Reaches sch (.init s₀) c ∧ K c.trace c.store ∧
      ∀ st past, st :: past <:+ c.trace → K past st.before := by
    refine h.induct (C := fun _ => True) (I := fun c => sys.Reaches sch (.init s₀) c ∧
      K c.trace c.store ∧ ∀ st past, st :: past <:+ c.trace → K past st.before)
      ⟨.refl, h₀, fun st past hsub => absurd (List.suffix_nil.1 hsub) (List.cons_ne_nil _ _)⟩ (fun _ _ => trivial) ?_
    rintro c m c' ⟨hr, hK, hpast⟩ hm hn -
    have hr' := hr.move m hm hn
    have grow : ∀ st : Step S Q O V E, K c.trace st.before → ∀ st' past,
        st' :: past <:+ st :: c.trace → K past st'.before := by
      intro st hst st' past hsub
      obtain heq | hsub := List.suffix_cons_iff.1 hsub
      · obtain ⟨rfl, rfl⟩ := List.cons.inj heq
        exact hst
      · exact hpast st' past hsub
    obtain ⟨q, s, -, hq, rfl⟩ | ⟨i, o, q, α, e, k, a, s, -, hi, hx, rfl⟩ | ⟨v, s, -, hv, rfl⟩ :=
      next_cases hn
    · exact ⟨hr', hstart hK hq, grow _ hK⟩
    · obtain ⟨⟨hist, hsub, hP⟩, -⟩ := hr'.call_recalls hrec (List.nil_append _).symm
      refine ⟨hr', hcall hK (fun st hst => ?_) hP hx, grow _ hK⟩
      obtain ⟨newer, before, hsplit⟩ := List.append_of_mem (hsub.subset hst)
      have hsuffix : st :: before <:+ c.trace := ⟨newer, hsplit.symm⟩
      exact ⟨before, hsuffix, hpast st before hsuffix⟩
    · exact ⟨hr', henv hK hv, grow _ hK⟩
  exact key.2.1

end Machine

end Interleave
