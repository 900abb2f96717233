import Optiflow.Lib.RelyGuarantee
import Optiflow.Lib.Window

/-!
# Watches

A `Window` protects one fact for all threads.  A `Watch` says for each thread, from what it does next,
what a move of anybody else must keep; `standing` is what every move must keep.  A schedule leaves the
watch `undisturbed` when its moves keep all this.  An outline that is valid over another one under a
watch (`Outline.ValidOver`) may count on what the watch keeps between two calls of a thread, and holds
along every undisturbed run (`Outline.ValidOver.good`).
-/

universe u

namespace Interleave

open Machine

variable {S Q R O V : Type} {E : Type → Type u} {sys : Machine S Q R O V E}

/-- What the moves of others must keep for a thread, and what every move must keep. -/
structure Watch (sys : Machine S Q R O V E) where
  kept : Thread Q E R → S → S → Bool
  standing : S → S → Bool
  refl : ∀ th s, kept th s s = true
  trans : ∀ {th s t u}, kept th s t = true → kept th t u = true → kept th s u = true

namespace Watch

variable (W : Watch sys)

/-- Every move keeps what the other threads and the watch itself count on. -/
def undisturbed : Schedule S Q R O V E := fun c m =>
  match sys.next c m with
  | none => true
  | some c' => W.standing c.store c'.store &&
      c.threads.zipIdx.all fun th => m.isBy th.2 || W.kept th.1 c.store c'.store

/-- A fact about a thread and the store is not ended by others. -/
def ofFact (sys : Machine S Q R O V E) (fact : Thread Q E R → S → Bool) : Watch sys where
  kept th s t := !fact th s || fact th t
  standing _ _ := true
  refl th s := by cases fact th s <;> rfl
  trans {th s t u} h h' := by
    cases hs : fact th s with
    | false => rfl
    | true =>
      have ht : fact th t = true := by simpa [hs] using h
      simpa [ht] using h'

/-- What a thread sees of the store is not changed by others. -/
def ofView {β : Type} [DecidableEq β] (sys : Machine S Q R O V E) (view : Thread Q E R → S → β) :
    Watch sys where
  kept th s t := view th s = view th t
  standing _ _ := true
  refl _ _ := decide_eq_true rfl
  trans h h' := decide_eq_true ((of_decide_eq_true h).trans (of_decide_eq_true h'))

variable {W} {c c' : Config S Q R O V E} {m : Move Q O V}

theorem kept_of_undisturbed (h : W.undisturbed c m = true) (hn : sys.next c m = some c') {j : ℕ}
    {th : Thread Q E R} (hj : c.threads[j]? = some th) (hm : m.isBy j = false) :
    W.kept th c.store c'.store = true := by
  simp only [undisturbed, hn, Bool.and_eq_true, List.all_eq_true] at h
  simpa [hm] using h.2 (th, j) (List.mk_mem_zipIdx_iff_getElem?.2 hj)

theorem standing_of_undisturbed (h : W.undisturbed c m = true) (hn : sys.next c m = some c') :
    W.standing c.store c'.store = true := by
  simp only [undisturbed, hn, Bool.and_eq_true] at h
  exact h.1

theorem ofView_kept {β : Type} [DecidableEq β] {view : Thread Q E R → S → β} {th : Thread Q E R} {s t : S}
    (h : (ofView sys view).kept th s t = true) : view th s = view th t :=
  of_decide_eq_true h

theorem ofFact_kept {fact : Thread Q E R → S → Bool} {th : Thread Q E R} {s t : S}
    (h : (ofFact sys fact).kept th s t = true) (hs : fact th s = true) : fact th t = true := by
  simpa [ofFact, hs] using h

end Watch

namespace Outline

/-- What is known of the store `t` at a thread's next call, when it was `s` after the last one: others
have moved along both outlines and have kept what the watch asks for. -/
structure Interference (L P : Outline sys) (W : Watch sys) (th : Thread Q E R) (s t : S) : Prop where
  base : P.rely s t
  rely : L.rely s t
  kept : W.kept th s t = true
  baseInv : P.inv t
  inv : L.inv t

/-- With such interference before each call, the program makes its calls under `pre` and answers with
`post`; `P` is taken to hold. -/
def SafeOver (L P : Outline sys) (W : Watch sys) (q : Q) : Prog E R → S → Prop
  | .ret r, _ => L.post q r
  | .call e k, s => ∀ t, L.Interference P W ⟨q, .call e k⟩ s t → P.pre q e t →
      L.pre q e t ∧ ∀ o a t', P.cond (.call t q o e a) → L.cond (.call t q o e a) →
        sys.exec o e t = some (a, t') → P.inv t' → L.inv t' → SafeOver L P W q (k a) t'

/-- The proof obligations of an outline `L` over a valid outline `P`, under a watch. -/
structure ValidOver (L P : Outline sys) (W : Watch sys) : Prop where
  rely_refl : ∀ s, L.rely s s
  rely_trans : ∀ {s t u}, L.rely s t → L.rely t u → L.rely s u
  start : ∀ {q s s'}, L.cond (.start s q) → P.inv s → L.inv s → W.standing s s' = true →
    sys.launch q s = some s' → P.inv s' → L.inv s' ∧ L.rely s s'
  safe : ∀ {q s s'}, L.cond (.start s q) → P.inv s → L.inv s → sys.launch q s = some s' →
    P.inv s' → L.inv s' → L.SafeOver P W q (sys.handler q) s'
  call : ∀ {q o} {α : Type} {e : E α} {a s s'}, P.inv s → L.inv s → P.pre q e s → L.pre q e s →
    L.cond (.call s q o e a) → W.standing s s' = true → sys.exec o e s = some (a, s') → P.inv s' →
      L.inv s' ∧ L.rely s s'
  env : ∀ {v s s'}, L.cond (.env s v) → P.inv s → L.inv s → W.standing s s' = true →
    sys.env v s = some s' → P.inv s' → L.inv s' ∧ L.rely s s'

/-- The call of a step was made under `pre`. -/
def Made (L : Outline sys) : Step S Q O V E → Prop
  | .call s q _ e _ => L.pre q e s
  | _ => True

variable {L P : Outline sys} {W : Watch sys} {q : Q} {s t : S} {p : Prog E R}

/-- Safety survives the interference that it allows for. -/
theorem ValidOver.safe_of_rely (hL : L.ValidOver P W) (hP : P.Valid) (h : L.SafeOver P W q p s)
    (hPst : P.rely s t) (hst : L.rely s t) (hkept : W.kept ⟨q, p⟩ s t = true) :
    L.SafeOver P W q p t := by
  cases p with
  | ret r => exact h
  | call e k =>
    exact fun u hu => h u ⟨hP.rely_trans hPst hu.base, hL.rely_trans hst hu.rely,
      W.trans hkept hu.kept, hu.baseInv, hu.inv⟩

/-- An outline that asks no more of a request's calls than the one below. -/
theorem safeOver_of_pre (hpre : ∀ {α : Type} (e : E α) s, P.pre q e s → L.pre q e s)
    (hpost : ∀ r, L.post q r) (p : Prog E R) (s : S) : L.SafeOver P W q p s := by
  induction p generalizing s with
  | ret r => exact hpost r
  | call e k ih => exact fun t _ hP => ⟨hpre e t hP, fun _ a t' _ _ _ _ _ => ih a t'⟩

/-- Code of such calls; what follows may assume nothing of the store. -/
theorem safeOver_over {φ : {α : Type} → E α → Prop} {ρ : R → Prop} {β : Type} {c : Code E R β}
    (hc : c.Over φ ρ) (hpre : ∀ {α : Type} (e : E α) s, φ e → P.pre q e s → L.pre q e s)
    (hpost : ∀ r, L.post q r) {k : β → Prog E R} (h : ∀ a s, L.SafeOver P W q (k a) s) (s : S) :
    L.SafeOver P W q (c k) s :=
  hc (fun p => ∀ s, L.SafeOver P W q p s)
    (fun e _ he hk _ t _ hP => ⟨hpre e t he hP, fun _ a t' _ _ _ _ _ => hk a t'⟩)
    (fun r _ _ => hpost r) k h s

variable {sch : Schedule S Q R O V E} {s₀ : S} {c : Config S Q R O V E}

/-- **The rule**: along every undisturbed run, the outline over the valid one holds, and every call was
made under its `pre`. -/
theorem ValidOver.good (hL : L.ValidOver P W) (hP : P.Valid) (h : sys.Reaches sch (.init s₀) c)
    (hsch : ∀ c m, sch c m = true → W.undisturbed c m = true) (hP₀ : P.inv s₀) (hL₀ : L.inv s₀)
    (hPc : ∀ st ∈ c.trace, P.cond st) (hLc : ∀ st ∈ c.trace, L.cond st) :
    L.inv c.store ∧ (∀ th ∈ c.threads, L.SafeOver P W th.origin th.prog c.store) ∧
      ∀ st ∈ c.trace, L.Made st := by
  have key : P.Good c ∧ L.inv c.store ∧ (∀ th ∈ c.threads, L.SafeOver P W th.origin th.prog c.store) ∧
      ∀ st ∈ c.trace, L.Made st := by
    refine h.induct (C := fun st => P.cond st ∧ L.cond st)
      (I := fun c => P.Good c ∧ L.inv c.store ∧
        (∀ th ∈ c.threads, L.SafeOver P W th.origin th.prog c.store) ∧ ∀ st ∈ c.trace, L.Made st)
      ⟨good_init hP₀, hL₀, fun _ hth => absurd hth List.not_mem_nil,
        fun _ hst => absurd hst List.not_mem_nil⟩ (fun st hst => ⟨hPc st hst, hLc st hst⟩) ?_
    rintro c m c' ⟨hPg, hi, hs, hmade⟩ hm hn hc'
    have hPg' : P.Good c' := hP.good_next hPg hn fun st hst => (hc' st hst).1
    have hstanding := Watch.standing_of_undisturbed (hsch c m hm) hn
    have hkept : ∀ (j : ℕ) (th : Thread Q E R), c.threads[j]? = some th → m.isBy j = false →
        W.kept th c.store c'.store = true := fun j th hj hby =>
      Watch.kept_of_undisturbed (hsch c m hm) hn hj hby
    obtain ⟨q, s, rfl, ha, rfl⟩ | ⟨i, o, q, α, e, k, a, s, rfl, hth, ha, rfl⟩ | ⟨v, s, rfl, hv, rfl⟩ :=
      next_cases hn
    · obtain ⟨hPq, hq⟩ := hc' _ List.mem_cons_self
      obtain ⟨hi', hr⟩ := hL.start hq hPg.1 hi hstanding ha hPg'.1
      refine ⟨hPg', hi', fun th hth => ?_, List.forall_mem_cons.2 ⟨trivial, hmade⟩⟩
      rcases List.mem_append.1 hth with hth | hth
      · obtain ⟨j, hj⟩ := List.mem_iff_getElem?.1 hth
        exact hL.safe_of_rely hP (hs th hth) (hP.start hPq hPg.1 ha).2 hr (hkept j th hj rfl)
      · obtain rfl := List.mem_singleton.1 hth
        exact hL.safe hq hPg.1 hi ha hPg'.1 hi'
    · obtain ⟨hPq, hq⟩ := hc' _ List.mem_cons_self
      have hmem := List.mem_of_getElem? hth
      obtain ⟨hPpre, -⟩ := hPg.2 _ hmem c.store (hP.rely_refl _) hPg.1
      obtain ⟨hpre, hk⟩ := hs _ hmem c.store
        ⟨hP.rely_refl _, hL.rely_refl _, W.refl _ _, hPg.1, hi⟩ hPpre
      obtain ⟨hi', hr⟩ := hL.call hPg.1 hi hPpre hpre hq hstanding ha hPg'.1
      refine ⟨hPg', hi', fun th hth' => ?_, List.forall_mem_cons.2 ⟨hpre, hmade⟩⟩
      obtain ⟨j, hj⟩ := List.mem_iff_getElem?.1 hth'
      dsimp only at hj
      rw [List.getElem?_set] at hj
      by_cases hij : i = j
      · simp only [if_pos hij] at hj
        split at hj
        · obtain rfl := Option.some.inj hj
          exact hk o a s hPq hq ha hPg'.1 hi'
        · cases hj
      · rw [if_neg hij] at hj
        exact hL.safe_of_rely hP (hs th (List.mem_of_getElem? hj)) (hP.call hPg.1 hPpre hPq ha).2 hr
          (hkept j th hj (by simp [Move.isBy, hij]))
    · obtain ⟨hPq, hq⟩ := hc' _ List.mem_cons_self
      obtain ⟨hi', hr⟩ := hL.env hq hPg.1 hi hstanding hv hPg'.1
      refine ⟨hPg', hi', fun th hth => ?_, List.forall_mem_cons.2 ⟨trivial, hmade⟩⟩
      obtain ⟨j, hj⟩ := List.mem_iff_getElem?.1 hth
      exact hL.safe_of_rely hP (hs th hth) (hP.env hPq hPg.1 hv).2 hr (hkept j th hj rfl)
  exact key.2

end Outline

end Interleave
