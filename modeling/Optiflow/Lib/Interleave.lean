import Mathlib.Data.List.Basic
import Mathlib.Logic.Relation

/-!
# Handlers as resumptions, and the runs of a pool of them

A request handler is a program that issues one atomic call at a time to a shared store and goes on
with the answer (`Prog`).  `Code` is the same program in continuation-passing form, so that a
handler can be written with `do` and can answer early (`Code.exit`).

A `Machine` says what a request's program is, when the environment may start it, what one call does
to the store (with an oracle for everything the store does not determine) and what the environment
does by itself.  A `Config` is a store, the threads started so far and the trace of the steps taken;
`Machine.next` makes one move and `Machine.Reaches` is the set of configurations that a schedule
reaches.  Two schedules matter: `anySchedule` interleaves the calls of all threads freely, and
`sequential` starts a request only when every earlier one has answered.
-/

universe u

namespace Interleave

variable {S Q R O V : Type} {E : Type → Type u}

/-! ## Programs -/

/-- A program cut at its atomic calls: it has answered, or it waits for the answer to a call. -/
inductive Prog (E : Type → Type u) (R : Type) : Type (max 1 u)
  | ret (r : R)
  | call {α : Type} (e : E α) (next : α → Prog E R)

namespace Prog

/-- The program has answered. -/
def isDone : Prog E R → Bool
  | .ret _ => true
  | .call _ _ => false

@[simp] theorem isDone_ret (r : R) : (Prog.ret r : Prog E R).isDone = true := rfl

@[simp] theorem isDone_call {α : Type} (e : E α) (k : α → Prog E R) :
    (Prog.call e k).isDone = false := rfl

/-- Every call that the program may make is one of the kind, whatever the earlier calls answer. -/
def Makes (φ : {α : Type} → E α → Prop) : Prog E R → Prop
  | .ret _ => True
  | .call e k => φ e ∧ ∀ a, Makes φ (k a)

theorem Makes.mono {φ ψ : {α : Type} → E α → Prop} {p : Prog E R} (h : p.Makes φ)
    (hφ : ∀ {α : Type} (e : E α), φ e → ψ e) : p.Makes ψ := by
  induction p with
  | ret r => trivial
  | call e k ih => exact ⟨hφ e h.1, fun a => ih a (h.2 a)⟩

theorem makes_of_forall {φ : {α : Type} → E α → Prop} (h : ∀ {α : Type} (e : E α), φ e) (p : Prog E R) :
    p.Makes φ := by
  induction p with
  | ret r => trivial
  | call e k ih => exact ⟨h e, ih⟩

end Prog

/-- Code of a handler: what is left to do is a parameter, so that `exit` can drop it. -/
def Code (E : Type → Type u) (R α : Type) : Type (max 1 u) := (α → Prog E R) → Prog E R

namespace Code

variable {α β : Type}

instance : Monad (Code E R) where
  pure a := fun k => k a
  bind x f := fun k => x fun a => f a k

/-- One atomic call. -/
def call (e : E α) : Code E R α := fun k => .call e k

/-- Answer now, whatever the rest of the handler would have done. -/
def exit (r : R) : Code E R α := fun _ => .ret r

/-- The program of a complete handler. -/
def run (c : Code E R R) : Prog E R := c .ret

@[simp] theorem pure_apply (a : α) (k : α → Prog E R) : (pure a : Code E R α) k = k a := rfl

@[simp] theorem bind_apply (x : Code E R α) (f : α → Code E R β) (k : β → Prog E R) :
    (x >>= f) k = x fun a => f a k := rfl

@[simp] theorem call_apply (e : E α) (k : α → Prog E R) : (call e : Code E R α) k = .call e k := rfl

@[simp] theorem exit_apply (r : R) (k : α → Prog E R) : (exit r : Code E R α) k = .ret r := rfl

@[simp] theorem run_def (c : Code E R R) : c.run = c .ret := rfl

@[simp] theorem ite_run (p : Prop) [Decidable p] (x y : Code E R α) (k : α → Prog E R) :
    (if p then x else y) k = if p then x k else y k := by
  split <;> rfl

/-- The code makes only calls in `φ` and exits only with answers in `ρ`: what such calls and answers
keep, from the leaves up, the code keeps. -/
def Over (φ : {β : Type} → E β → Prop) (ρ : R → Prop) (c : Code E R α) : Prop :=
  ∀ P : Prog E R → Prop, (∀ {β : Type} (e : E β) (k : β → Prog E R), φ e → (∀ b, P (k b)) →
    P (.call e k)) → (∀ r, ρ r → P (.ret r)) → ∀ k, (∀ a, P (k a)) → P (c k)

section Over

variable {φ : {β : Type} → E β → Prop} {ρ : R → Prop}

theorem over_pure (a : α) : (pure a : Code E R α).Over φ ρ := fun _ _ _ _ hk => hk a

theorem over_exit {r : R} (h : ρ r) : (exit r : Code E R α).Over φ ρ := fun _ _ hr _ _ => hr r h

theorem over_call {e : E α} (h : φ e) : (call e : Code E R α).Over φ ρ :=
  fun _ he _ k hk => he e k h hk

theorem over_bind {x : Code E R α} {f : α → Code E R β} (hx : x.Over φ ρ)
    (hf : ∀ a, (f a).Over φ ρ) : (x >>= f).Over φ ρ :=
  fun P he hr k hk => hx P he hr _ fun a => hf a P he hr k hk

theorem over_ite {p : Prop} [Decidable p] {x y : Code E R α} (hx : x.Over φ ρ) (hy : y.Over φ ρ) :
    (if p then x else y).Over φ ρ := by
  split
  · exact hx
  · exact hy

theorem Over.mono {φ' : {β : Type} → E β → Prop} {ρ' : R → Prop} {c : Code E R α}
    (h : c.Over φ ρ) (hφ : ∀ {β : Type} (e : E β), φ e → φ' e) (hρ : ∀ r, ρ r → ρ' r) :
    c.Over φ' ρ' :=
  fun P he hr => h P (fun e k hφe => he e k (hφ e hφe)) fun r hρr => hr r (hρ r hρr)

/-- The calls of the code, and then those of the rest. -/
theorem Over.makes {c : Code E R α} (h : c.Over φ ρ) {k : α → Prog E R}
    (hk : ∀ a, (k a).Makes φ) : (c k).Makes φ :=
  h (Prog.Makes φ) (fun _ _ he hk => ⟨he, hk⟩) (fun _ _ => trivial) k hk

end Over

end Code

/-! ## Machines and their moves -/

/-- What is run: the program of each request, the environment's condition for starting it (with what
the start itself does to the store), the effect of a call, and the environment's own moves.  A call
or a move that is `none` cannot happen. -/
structure Machine (S Q R O V : Type) (E : Type → Type u) where
  handler : Q → Prog E R
  launch : Q → S → Option S
  exec : {α : Type} → O → E α → S → Option (α × S)
  env : V → S → Option S

/-- A request and what is left of its program. -/
structure Thread (Q : Type) (E : Type → Type u) (R : Type) where
  origin : Q
  prog : Prog E R

/-- One step of a run, with the store it was taken in. -/
inductive Step (S Q O V : Type) (E : Type → Type u) : Type (max 1 u)
  | start (before : S) (origin : Q)
  | call {α : Type} (before : S) (origin : Q) (oracle : O) (stmt : E α) (answer : α)
  | env (before : S) (move : V)

/-- The store that a step was taken in. -/
def Step.before : Step S Q O V E → S
  | .start s _ => s
  | .call s _ _ _ _ => s
  | .env s _ => s

/-- The shared store, every thread started so far, and the steps taken, the newest first. -/
structure Config (S Q R O V : Type) (E : Type → Type u) where
  store : S
  threads : List (Thread Q E R)
  trace : List (Step S Q O V E)

/-- What the scheduler can do next. -/
inductive Move (Q O V : Type)
  | start (q : Q)
  | step (i : ℕ) (o : O)
  | env (v : V)

/-- A store with no thread. -/
def Config.init (s : S) : Config S Q R O V E := ⟨s, [], []⟩

/-- The stores that a run has passed, the newest first. -/
def Config.stores (c : Config S Q R O V E) : List S := c.store :: c.trace.map Step.before

/-- Every thread has answered. -/
def Config.quiet (c : Config S Q R O V E) : Bool := c.threads.all fun th => th.prog.isDone

namespace Machine

variable (sys : Machine S Q R O V E)

/-- The configuration after one move, if the move can be made. -/
def next (c : Config S Q R O V E) : Move Q O V → Option (Config S Q R O V E)
  | .start q =>
    (sys.launch q c.store).map fun s =>
      ⟨s, c.threads ++ [⟨q, sys.handler q⟩], .start c.store q :: c.trace⟩
  | .step i o =>
    match c.threads[i]? with
    | some ⟨q, .call e k⟩ =>
      (sys.exec o e c.store).map fun r =>
        ⟨r.2, c.threads.set i ⟨q, k r.1⟩, .call c.store q o e r.1 :: c.trace⟩
    | _ => none
  | .env v => (sys.env v c.store).map fun s => ⟨s, c.threads, .env c.store v :: c.trace⟩

/-- A schedule may refuse a move. -/
abbrev Schedule (S Q R O V : Type) (E : Type → Type u) := Config S Q R O V E → Move Q O V → Bool

/-- Every interleaving. -/
def anySchedule : Schedule S Q R O V E := fun _ _ => true

/-- Requests one at a time: the environment waits until every thread has answered. -/
def sequential : Schedule S Q R O V E
  | _, .step _ _ => true
  | c, _ => c.quiet

/-- The configurations reached from `c₀` under a schedule. -/
inductive Reaches (sch : Schedule S Q R O V E) (c₀ : Config S Q R O V E) :
    Config S Q R O V E → Prop
  | refl : Reaches sch c₀ c₀
  | move {c c' : Config S Q R O V E} (m : Move Q O V) :
      Reaches sch c₀ c → sch c m = true → sys.next c m = some c' → Reaches sch c₀ c'

/-- The program run to its end with nothing in between. -/
def alone (o : O) : Prog E R → S → Option (R × S)
  | .ret r, s => some (r, s)
  | .call e k, s => (sys.exec o e s).bind fun r => alone o (k r.1) r.2

@[simp] theorem alone_call {α : Type} (o : O) (e : E α) (k : α → Prog E R) (s : S) :
    sys.alone o (.call e k) s = (sys.exec o e s).bind fun r => sys.alone o (k r.1) r.2 := rfl

/-- The moves of a list, one after the other. -/
def runMoves (sch : Schedule S Q R O V E) :
    List (Move Q O V) → Config S Q R O V E → Option (Config S Q R O V E)
  | [], c => some c
  | m :: ms, c => if sch c m then (sys.next c m).bind (runMoves sch ms) else none

variable {sys} {sch : Schedule S Q R O V E} {c₀ c c' : Config S Q R O V E}

/-- **What one move does**: the environment starts a request, a thread makes a call, or the
environment moves. -/
theorem next_cases {m : Move Q O V} (h : sys.next c m = some c') :
    (∃ q s, m = .start q ∧ sys.launch q c.store = some s ∧
      c' = ⟨s, c.threads ++ [⟨q, sys.handler q⟩], .start c.store q :: c.trace⟩) ∨
    (∃ (i : ℕ) (o : O) (q : Q) (α : Type) (e : E α) (k : α → Prog E R) (a : α) (s : S),
      m = .step i o ∧ c.threads[i]? = some ⟨q, .call e k⟩ ∧ sys.exec o e c.store = some (a, s) ∧
      c' = ⟨s, c.threads.set i ⟨q, k a⟩, .call c.store q o e a :: c.trace⟩) ∨
    (∃ v s, m = .env v ∧ sys.env v c.store = some s ∧
      c' = ⟨s, c.threads, .env c.store v :: c.trace⟩) := by
  cases m with
  | start q =>
    simp only [next, Option.map_eq_some_iff] at h
    obtain ⟨s, hs, rfl⟩ := h
    exact Or.inl ⟨q, s, rfl, hs, rfl⟩
  | step i o =>
    simp only [next] at h
    split at h
    · next q α e k hi =>
      obtain ⟨⟨a, s⟩, ha, rfl⟩ := Option.map_eq_some_iff.1 h
      exact Or.inr (Or.inl ⟨i, o, q, α, e, k, a, s, rfl, hi, ha, rfl⟩)
    · cases h
  | env v =>
    simp only [next, Option.map_eq_some_iff] at h
    obtain ⟨s, hs, rfl⟩ := h
    exact Or.inr (Or.inr ⟨v, s, rfl, hs, rfl⟩)

theorem Reaches.trans {c₁ c₂ : Config S Q R O V E} (h₁ : sys.Reaches sch c₀ c₁)
    (h₂ : sys.Reaches sch c₁ c₂) : sys.Reaches sch c₀ c₂ := by
  induction h₂ with
  | refl => exact h₁
  | move m _ hm hn ih => exact .move m ih hm hn

/-- A run under a schedule is one under every schedule that allows more. -/
theorem Reaches.relax {sch' : Schedule S Q R O V E} (h : sys.Reaches sch c₀ c)
    (hsch : ∀ c m, sch c m = true → sch' c m = true) : sys.Reaches sch' c₀ c := by
  induction h with
  | refl => exact .refl
  | move m _ hm hn ih => exact .move m ih (hsch _ m hm) hn

/-- A run under any schedule is one of the interleavings. -/
theorem Reaches.any (h : sys.Reaches sch c₀ c) : sys.Reaches anySchedule c₀ c :=
  h.relax fun _ _ _ => rfl

/-- A list of moves that can be made is a run. -/
theorem reaches_of_runMoves {ms : List (Move Q O V)} (h : sys.runMoves sch ms c = some c') :
    sys.Reaches sch c c' := by
  induction ms generalizing c with
  | nil =>
    obtain rfl := Option.some.inj h
    exact .refl
  | cons m ms ih =>
    simp only [runMoves] at h
    split at h
    · next hm =>
      obtain ⟨c₁, h₁, h₂⟩ := Option.bind_eq_some_iff.1 h
      exact (Reaches.move m .refl hm h₁).trans (ih h₂)
    · cases h

variable (sys sch c) in
/-- A test that the end of a list of moves passes is passed by a configuration that is reached. -/
theorem exists_reaches (P : Config S Q R O V E → Bool) (ms : List (Move Q O V))
    (h : (sys.runMoves sch ms c).elim false P = true) : ∃ c', sys.Reaches sch c c' ∧ P c' = true := by
  cases hc : sys.runMoves sch ms c with
  | none =>
    rw [hc] at h
    cases h
  | some c' =>
    rw [hc] at h
    exact ⟨c', reaches_of_runMoves hc, h⟩

/-- The trace only grows. -/
theorem Reaches.trace_suffix (h : sys.Reaches sch c₀ c) : c₀.trace <:+ c.trace := by
  induction h with
  | refl => exact List.suffix_refl _
  | move m _ _ hn ih =>
    obtain ⟨q, s, -, -, rfl⟩ | ⟨i, o, q, α, e, k, a, s, -, -, -, rfl⟩ | ⟨v, s, -, -, rfl⟩ :=
      next_cases hn
    all_goals exact ih.trans (List.suffix_cons _ _)

/-! ## Invariants of configurations -/

/-- A property of configurations that every move keeps, given that the step it records meets
`C`, holds after every run whose steps all meet `C`. -/
theorem Reaches.induct {I : Config S Q R O V E → Prop} {C : Step S Q O V E → Prop}
    (h : sys.Reaches sch c₀ c) (h₀ : I c₀) (hc : ∀ st ∈ c.trace, C st)
    (hstep : ∀ c m c', I c → sch c m = true → sys.next c m = some c' →
      (∀ st ∈ c'.trace, C st) → I c') : I c := by
  induction h with
  | refl => exact h₀
  | move m hr hm hn ih =>
    refine hstep _ m _ (ih fun st hst => hc st ?_) hm hn hc
    exact (Reaches.move m .refl hm hn).trace_suffix.subset hst

/-- Only what the schedule lets start has started. -/
theorem Reaches.starts {P : Q → Prop} {s₀ : S} (h : sys.Reaches sch (.init s₀) c)
    (hP : ∀ c q, sch c (.start q) = true → P q) {s : S} {q : Q} (hq : .start s q ∈ c.trace) : P q := by
  have key : ∀ s q, .start s q ∈ c.trace → P q := by
    refine h.induct (C := fun _ => True) (I := fun c => ∀ s q, .start s q ∈ c.trace → P q)
      (fun _ _ h => absurd h List.not_mem_nil) (fun _ _ => trivial) ?_
    rintro c m c' ih hm hn - s q hq
    obtain ⟨q', s', rfl, -, rfl⟩ | ⟨i, o, q', α, e, k, a, s', -, -, -, rfl⟩ | ⟨v, s', -, -, rfl⟩ :=
      next_cases hn
    · rcases List.mem_cons.1 hq with hq | hq
      · cases hq
        exact hP _ _ hm
      · exact ih s q hq
    · exact ih s q (by simpa using hq)
    · exact ih s q (by simpa using hq)
  exact key s q hq

/-- A property of the store that every step keeps. -/
theorem Reaches.store {I : S → Prop} (h : sys.Reaches sch c₀ c) (h₀ : I c₀.store)
    (hstart : ∀ {q s s'}, I s → sys.launch q s = some s' → I s')
    (hcall : ∀ {o} {α : Type} {e : E α} {a s s'}, I s → sys.exec o e s = some (a, s') → I s')
    (henv : ∀ {v s s'}, I s → sys.env v s = some s' → I s') : I c.store := by
  refine h.induct (C := fun _ => True) (I := fun c => I c.store) h₀ (fun _ _ => trivial) ?_
  rintro c m c' hi - hn -
  obtain ⟨q, s, -, ha, rfl⟩ | ⟨i, o, q, α, e, k, a, s, -, -, ha, rfl⟩ | ⟨v, s, -, hv, rfl⟩ :=
    next_cases hn
  · exact hstart hi ha
  · exact hcall hi ha
  · exact henv hi hv

end Machine

end Interleave
