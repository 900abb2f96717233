import Optiflow.Lib.Alone
import Mathlib.Data.Option.Basic

/-!
# Two runs of one program

A program is run from two stores with the same oracles.  When each call is answered alike in stores that
are alike, and leaves them alike, the two runs make the same calls and end with the same answer
(`play_alike`).  `A` says when two stores are alike, `φ` is what a call must meet in either of them, and
`N` says that a list of oracles can still be used in a store.

Both calls may also be impossible, so results are related by `Option.Rel`, which the operations of
`Option` keep.
-/

universe u

/-! ## Related options -/

namespace OptionRel

variable {α β γ δ : Type*} {A : α → β → Prop} {B : γ → δ → Prop} {x : Option α} {y : Option β}

theorem bind {f : α → Option γ} {g : β → Option δ} (h : Option.Rel A x y)
    (hfg : ∀ a b, A a b → Option.Rel B (f a) (g b)) : Option.Rel B (x.bind f) (y.bind g) := by
  cases h with
  | none => exact .none
  | some h => exact hfg _ _ h

theorem map {f : α → γ} {g : β → δ} (h : Option.Rel A x y) (hfg : ∀ a b, A a b → B (f a) (g b)) :
    Option.Rel B (x.map f) (y.map g) := by
  cases h with
  | none => exact .none
  | some h => exact .some (hfg _ _ h)

/-- Related options have equal images under functions that agree on what is related. -/
theorem map_eq {f : α → γ} {g : β → γ} (h : Option.Rel A x y) (hfg : ∀ a b, A a b → f a = g b) :
    x.map f = y.map g := by
  cases h with
  | none => rfl
  | some h => exact congrArg some (hfg _ _ h)

/-- Folds of steps that keep a relation. -/
theorem foldlM {A : α → β → Prop} {f : α → γ → Option α} {g : β → γ → Option β}
    (h : ∀ a b c, A a b → Option.Rel A (f a c) (g b c)) :
    ∀ (l : List γ) (a : α) (b : β), A a b → Option.Rel A (l.foldlM f a) (l.foldlM g b)
  | [], _, _, hab => .some hab
  | c :: l, a, b, hab => by
    rw [List.foldlM_cons, List.foldlM_cons]
    exact bind (h a b c hab) fun a' b' => foldlM h l a' b'

end OptionRel

/-! ## Runs in step -/

namespace Interleave

namespace Machine

variable {S Q R O V : Type} {E : Type → Type u} {sys : Machine S Q R O V E}
  {φ : {α : Type} → E α → S → Prop} {A : S → S → Prop} {N : List O → S → Prop}

/-- **Two runs in step**: from stores that are alike, with the same oracles. -/
theorem play_alike
    (hstep : ∀ {o os} {α : Type} {e : E α} {s t}, φ e s → φ e t → A s t → N (o :: os) s →
      N (o :: os) t → Option.Rel (fun x y => x.1 = y.1 ∧ A x.2 y.2) (sys.exec o e s) (sys.exec o e t))
    (hleft : ∀ {o os} {α : Type} {e : E α} {a s s'}, φ e s → N (o :: os) s →
      sys.exec o e s = some (a, s') → N os s')
    {q : Q} {p : Prog E R} {os : List O} {s t : S} (hs : sys.Meets φ p s) (ht : sys.Meets φ p t)
    (hA : A s t) (hN : N os s) (hN' : N os t) :
    Option.Rel (fun x y => x.2.1 = y.2.1 ∧ A x.2.2 y.2.2) (sys.play q os p s) (sys.play q os p t) := by
  induction p generalizing os s t with
  | ret r =>
    simp only [play]
    exact .some ⟨rfl, hA⟩
  | @call α e k ih =>
    cases os with
    | nil => exact .none
    | cons o os =>
      have hrel := hstep hs.1 ht.1 hA hN hN'
      simp only [play]
      generalize hx : sys.exec o e s = x at hrel ⊢
      generalize hy : sys.exec o e t = y at hrel ⊢
      cases hrel with
      | none => exact .none
      | @some x y hrel =>
        obtain ⟨a, s'⟩ := x
        obtain ⟨b, t'⟩ := y
        obtain ⟨rfl, hA'⟩ : a = b ∧ A s' t' := hrel
        have hrest := ih a (hs.2 o a s' hx) (ht.2 o a t' hy) hA' (hleft hs.1 hN hx) (hleft ht.1 hN' hy)
        exact OptionRel.map hrest fun _ _ h => h

end Machine

end Interleave
