import Optiflow.Lib.Interleave

/-!
# Windows

Between a check and the call that it protects, a program relies on a fact about the store.  A
`Window` names the calls that are made on the strength of a fact; a thread whose next call is one of
them is inside the window.  A schedule leaves the window `undisturbed` when no move ends the fact
while another thread is inside.  If programs only enter the window when the fact holds (`Enters`),
then the fact is `Held` at every call of the window (`held_of_reaches`).
-/

universe u

namespace Interleave

open Machine

variable {S Q R O V : Type} {E : Type → Type u} {sys : Machine S Q R O V E}

/-- The move is one of thread `j`. -/
def Move.isBy (j : ℕ) : Move Q O V → Bool
  | .step i _ => i = j
  | _ => false

/-- The calls of a window, and what they rely on. -/
structure Window (sys : Machine S Q R O V E) where
  inside : Q → {α : Type} → E α → Bool
  holds : S → Bool

namespace Window

variable (W : Window sys)

/-- The next call of the thread is one of the window's. -/
def has (th : Thread Q E R) : Bool :=
  match th.prog with
  | .ret _ => false
  | .call e _ => W.inside th.origin e

/-- A thread other than the one that moves is inside the window. -/
def busy (c : Config S Q R O V E) (m : Move Q O V) : Bool :=
  c.threads.zipIdx.any fun th => W.has th.1 && !m.isBy th.2

/-- No move ends the fact while another thread is inside the window. -/
def undisturbed : Schedule S Q R O V E := fun c m =>
  match sys.next c m with
  | none => true
  | some c' => !(W.holds c.store && W.busy c m) || W.holds c'.store

/-- Run from `s`, the program enters the window only when the fact holds, and may count on the fact
as long as it is inside.  `I` is what is known of the store at any time. -/
def Enters (I : S → Prop) (q : Q) : Prog E R → S → Prop
  | .ret _, _ => True
  | .call e k, s => (W.inside q e = true → W.holds s = true) ∧
      ∀ t o a t', I t → (W.inside q e = true → W.holds t = true) → sys.exec o e t = some (a, t') →
        Enters I q (k a) t'

/-- The fact holds when a call of the window is made. -/
def Held : Step S Q O V E → Prop
  | .call s q _ e _ => W.inside q e = true → W.holds s = true
  | _ => True

variable {W} {I : S → Prop} {q : Q} {s t : S}

theorem enters_ret (r : R) : W.Enters I q (.ret r) s := trivial

/-- A call outside the window. -/
theorem enters_call {α : Type} {e : E α} {k : α → Prog E R} (he : W.inside q e = false)
    (h : ∀ t o a t', I t → sys.exec o e t = some (a, t') → W.Enters I q (k a) t') :
    W.Enters I q (.call e k) s :=
  ⟨fun h => absurd h (by simp [he]), fun t o a t' ht _ hx => h t o a t' ht hx⟩

/-- A read inside the window. -/
theorem enters_read {α : Type} {e : E α} {k : α → Prog E R} (he : W.inside q e = true)
    (hs : W.holds s = true) (hread : ∀ {t o a t'}, sys.exec o e t = some (a, t') → t' = t)
    (h : ∀ a t, W.holds t = true → W.Enters I q (k a) t) : W.Enters I q (.call e k) s := by
  refine ⟨fun _ => hs, fun t o a t' _ ht hx => ?_⟩
  obtain rfl := hread hx
  exact h a t' (ht he)

/-- A request whose calls are all outside the window. -/
theorem enters_of_outside (h : ∀ {α : Type} (e : E α), W.inside q e = false) (p : Prog E R) :
    W.Enters I q p s := by
  induction p generalizing s with
  | ret r => exact enters_ret r
  | call e k ih => exact enters_call (h e) fun _ _ a _ _ _ => ih a

/-- A thread that is not inside, or still has the fact, is where it was. -/
theorem Enters.move {p : Prog E R} (h : W.Enters I q p s)
    (ht : W.has ⟨q, p⟩ = true → W.holds s = true → W.holds t = true) : W.Enters I q p t := by
  cases p with
  | ret r => exact enters_ret r
  | call e k => exact ⟨fun he => ht he (h.1 he), h.2⟩

/-- What an undisturbed move leaves to a thread that does not make it. -/
theorem holds_of_undisturbed {c c' : Config S Q R O V E} {m : Move Q O V}
    (h : W.undisturbed c m = true) (hn : sys.next c m = some c') {j : ℕ} {th : Thread Q E R}
    (hj : c.threads[j]? = some th) (hm : m.isBy j = false) (hth : W.has th = true)
    (hs : W.holds c.store = true) : W.holds c'.store = true := by
  have hbusy : W.busy c m = true :=
    List.any_eq_true.2 ⟨(th, j), List.mk_mem_zipIdx_iff_getElem?.2 hj, by simp [hth, hm]⟩
  simpa [undisturbed, hn, hs, hbusy] using h

variable {sch : Schedule S Q R O V E} {s₀ : S} {c : Config S Q R O V E}

/-- **The fact is held** at every call of the window, along every undisturbed run. -/
theorem held_of_reaches (hsch : ∀ c m, sch c m = true → W.undisturbed c m = true)
    (hI : ∀ c, sys.Reaches sch (.init s₀) c → I c.store)
    (hq : ∀ q s, W.Enters I q (sys.handler q) s) (h : sys.Reaches sch (.init s₀) c) :
    ∀ st ∈ c.trace, W.Held st := by
  have key : (∀ (j : ℕ) (th : Thread Q E R), c.threads[j]? = some th →
      W.Enters I th.origin th.prog c.store) ∧ ∀ st ∈ c.trace, W.Held st := by
    induction h with
    | refl => exact ⟨fun j th hj => by simp [Config.init] at hj, fun _ hst => absurd hst List.not_mem_nil⟩
    | @move c c' m hr hm hn ih =>
      obtain ⟨henters, hheld⟩ := ih
      -- A thread that does not move keeps its place, whatever the move does to the store.
      have hother : ∀ (j : ℕ) (th : Thread Q E R), c.threads[j]? = some th → m.isBy j = false →
          W.Enters I th.origin th.prog c'.store := fun j th hj hby =>
        (henters j th hj).move (holds_of_undisturbed (hsch c m hm) hn hj hby)
      obtain ⟨q, s, rfl, -, rfl⟩ | ⟨i, o, q, α, e, k, a, s, rfl, hth, ha, rfl⟩ | ⟨v, s, rfl, -, rfl⟩ :=
        next_cases hn
      · refine ⟨fun j th hj => ?_, List.forall_mem_cons.2 ⟨trivial, hheld⟩⟩
        dsimp only at hj
        rw [List.getElem?_append] at hj
        split at hj
        · exact hother j th hj rfl
        · obtain rfl := List.mem_singleton.1 (List.mem_of_getElem? hj)
          exact hq q s
      · have hmine := henters i _ hth
        refine ⟨fun j th hj => ?_, List.forall_mem_cons.2 ⟨hmine.1, hheld⟩⟩
        dsimp only at hj
        rw [List.getElem?_set] at hj
        by_cases hij : i = j
        · simp only [if_pos hij] at hj
          split at hj
          · obtain rfl := Option.some.inj hj
            exact hmine.2 c.store o a s (hI c hr) hmine.1 ha
          · cases hj
        · rw [if_neg hij] at hj
          exact hother j th hj (by simp [Move.isBy, hij])
      · exact ⟨fun j th hj => hother j th hj rfl, List.forall_mem_cons.2 ⟨trivial, hheld⟩⟩
  exact key.2

end Window

end Interleave
