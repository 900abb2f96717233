import Optiflow.Lib.Interleave
import Mathlib.Algebra.BigOperators.Group.List.Basic
import Mathlib.Algebra.Order.BigOperators.Group.List

/-!
# Rely/guarantee outlines

An `Outline` is an invariant of the store, a relation that every step respects (`rely`), what a
thread knows when it makes a call (`pre`), what an answer means (`post`) and a condition on steps
(`cond`).  `Outline.Safe` reads a program against an outline: before each call the store may move
along `rely`.  When the outline is `Valid`, every run whose steps all meet `cond` stays `Good`
(`Outline.Valid.good`): the invariant holds and every thread is safe.  `Outline.Valid.carry` then
carries any further property of trace and store that single steps keep.

`Outline.SeqValid` is the same for the sequential schedule, where nothing moves between the calls of
a thread.
-/

universe u

namespace Interleave

open Machine

variable {S Q R O V : Type} {E : Type → Type u} {sys : Machine S Q R O V E}

/-- The assertions of a rely/guarantee proof. -/
structure Outline (sys : Machine S Q R O V E) where
  inv : S → Prop
  rely : S → S → Prop
  pre : Q → {α : Type} → E α → S → Prop
  post : Q → R → Prop
  cond : Step S Q O V E → Prop

namespace Outline

variable (L : Outline sys)

/-- Run from `s` with interference along `rely` before each call, the program makes its calls under
`pre` and answers with `post`. -/
def Safe (q : Q) : Prog E R → S → Prop
  | .ret r, _ => L.post q r
  | .call e k, s => ∀ t, L.rely s t → L.inv t → L.pre q e t ∧
      ∀ o a t', L.cond (.call t q o e a) → sys.exec o e t = some (a, t') → L.inv t' →
        Safe q (k a) t'

/-- The invariant holds and every thread is safe. -/
def Good (c : Config S Q R O V E) : Prop :=
  L.inv c.store ∧ ∀ th ∈ c.threads, L.Safe th.origin th.prog c.store

/-- The proof obligations of an outline. -/
structure Valid : Prop where
  rely_refl : ∀ s, L.rely s s
  rely_trans : ∀ {s t u}, L.rely s t → L.rely t u → L.rely s u
  start : ∀ {q s s'}, L.cond (.start s q) → L.inv s → sys.launch q s = some s' →
    L.inv s' ∧ L.rely s s'
  safe : ∀ {q s s'}, L.cond (.start s q) → L.inv s → sys.launch q s = some s' → L.inv s' →
    L.Safe q (sys.handler q) s'
  call : ∀ {q o} {α : Type} {e : E α} {a s s'}, L.inv s → L.pre q e s →
    L.cond (.call s q o e a) → sys.exec o e s = some (a, s') → L.inv s' ∧ L.rely s s'
  env : ∀ {v s s'}, L.cond (.env s v) → L.inv s → sys.env v s = some s' → L.inv s' ∧ L.rely s s'

variable {L}

/-- Safety survives the interference it allows for. -/
theorem Valid.safe_of_rely (hL : L.Valid) {q : Q} {p : Prog E R} {s t : S} (h : L.Safe q p s)
    (hst : L.rely s t) : L.Safe q p t := by
  cases p with
  | ret r => exact h
  | call e k => exact fun u htu hu => h u (hL.rely_trans hst htu) hu

theorem good_init {s : S} (h : L.inv s) : L.Good (Config.init s) :=
  ⟨h, fun _ hth => absurd hth List.not_mem_nil⟩

variable {sch : Schedule S Q R O V E} {c₀ c c' : Config S Q R O V E}

/-- One move from a good configuration: what the step is, and that the result is good. -/
theorem Valid.good_next (hL : L.Valid) {m : Move Q O V} (hg : L.Good c) (hn : sys.next c m = some c')
    (hc : ∀ st ∈ c'.trace, L.cond st) : L.Good c' := by
  obtain ⟨hi, hs⟩ := hg
  obtain ⟨q, s, -, ha, rfl⟩ | ⟨i, o, q, α, e, k, a, s, -, hth, ha, rfl⟩ | ⟨v, s, -, hv, rfl⟩ :=
    next_cases hn
  · have hq : L.cond (.start c.store q) := hc _ List.mem_cons_self
    obtain ⟨hi', hr⟩ := hL.start hq hi ha
    refine ⟨hi', fun th hth => ?_⟩
    rcases List.mem_append.1 hth with hth | hth
    · exact hL.safe_of_rely (hs th hth) hr
    · obtain rfl := List.mem_singleton.1 hth
      exact hL.safe hq hi ha hi'
  · have hq : L.cond (.call c.store q o e a) := hc _ List.mem_cons_self
    have hmine := hs _ (List.mem_of_getElem? hth)
    obtain ⟨hpre, hk⟩ := hmine c.store (hL.rely_refl _) hi
    obtain ⟨hi', hr⟩ := hL.call hi hpre hq ha
    refine ⟨hi', fun th hth' => ?_⟩
    rcases List.mem_or_eq_of_mem_set hth' with hth' | rfl
    · exact hL.safe_of_rely (hs th hth') hr
    · exact hk o a s hq ha hi'
  · obtain ⟨hi', hr⟩ := hL.env (hc _ List.mem_cons_self) hi hv
    exact ⟨hi', fun th hth => hL.safe_of_rely (hs th hth) hr⟩

/-- **The rely/guarantee rule**: a valid outline holds along every run that meets its condition. -/
theorem Valid.good (hL : L.Valid) (h : sys.Reaches sch c₀ c) (h₀ : L.Good c₀)
    (hc : ∀ st ∈ c.trace, L.cond st) : L.Good c :=
  h.induct h₀ hc fun _ _ _ hg _ hn hc' => hL.good_next hg hn hc'

/-- A property of trace and store that single steps keep, under what a valid outline says of them,
holds along every run that meets the condition. -/
theorem Valid.carry (hL : L.Valid) {J : List (Step S Q O V E) → S → Prop}
    (h : sys.Reaches sch c₀ c) (h₀ : L.Good c₀) (hc : ∀ st ∈ c.trace, L.cond st)
    (hJ₀ : J c₀.trace c₀.store)
    (hstart : ∀ {tr q s s'}, J tr s → L.inv s → L.cond (.start s q) → sys.launch q s = some s' →
      J (.start s q :: tr) s')
    (hcall : ∀ {tr q o} {α : Type} {e : E α} {a s s'}, J tr s → L.inv s → L.pre q e s →
      L.cond (.call s q o e a) → sys.exec o e s = some (a, s') → J (.call s q o e a :: tr) s')
    (henv : ∀ {tr v s s'}, J tr s → L.inv s → L.cond (.env s v) → sys.env v s = some s' →
      J (.env s v :: tr) s') : J c.trace c.store := by
  have key : L.Good c ∧ J c.trace c.store := by
    refine h.induct (I := fun c => L.Good c ∧ J c.trace c.store) ⟨h₀, hJ₀⟩ hc ?_
    rintro c m c' ⟨hg, hJ⟩ - hn hc'
    refine ⟨hL.good_next hg hn hc', ?_⟩
    obtain ⟨q, s, -, ha, rfl⟩ | ⟨i, o, q, α, e, k, a, s, -, hth, ha, rfl⟩ | ⟨v, s, -, hv, rfl⟩ :=
      next_cases hn
    · exact hstart hJ hg.1 (hc' _ List.mem_cons_self) ha
    · obtain ⟨hpre, -⟩ := hg.2 _ (List.mem_of_getElem? hth) c.store (hL.rely_refl _) hg.1
      exact hcall hJ hg.1 hpre (hc' _ List.mem_cons_self) ha
    · exact henv hJ hg.1 (hc' _ List.mem_cons_self) hv
  exact key.2

/-- A further invariant of the store, under a further condition `C` on the steps. -/
theorem Valid.always (hL : L.Valid) {I : S → Prop} {C : Step S Q O V E → Prop} {s₀ : S}
    (h : sys.Reaches sch (.init s₀) c) (h₀ : L.inv s₀) (hI : I s₀) (hc : ∀ st ∈ c.trace, L.cond st)
    (hC : ∀ st ∈ c.trace, C st)
    (hstart : ∀ {q s s'}, C (.start s q) → L.inv s → I s → sys.launch q s = some s' → I s')
    (hcall : ∀ {q o} {α : Type} {e : E α} {a s s'}, C (.call s q o e a) → L.inv s → L.pre q e s →
      I s → sys.exec o e s = some (a, s') → I s')
    (henv : ∀ {v s s'}, C (.env s v) → L.inv s → I s → sys.env v s = some s' → I s') :
    I c.store := by
  have key := hL.carry (J := fun tr s => (∀ st ∈ tr, C st) → I s) h (good_init h₀) hc (fun _ => hI)
    ?_ ?_ ?_
  · exact key hC
  · exact fun hJ hi _ ha hC' => hstart (hC' _ List.mem_cons_self) hi
      (hJ fun st hst => hC' st (List.mem_cons_of_mem _ hst)) ha
  · exact fun hJ hi hp _ ha hC' => hcall (hC' _ List.mem_cons_self) hi hp
      (hJ fun st hst => hC' st (List.mem_cons_of_mem _ hst)) ha
  · exact fun hJ hi _ ha hC' => henv (hC' _ List.mem_cons_self) hi
      (hJ fun st hst => hC' st (List.mem_cons_of_mem _ hst)) ha

/-- What a step establishes of the store after it, and every later step keeps, holds at the end of
the run.  `C` is a further condition on the steps. -/
theorem Valid.since (hL : L.Valid) {K : Step S Q O V E → S → Prop} {C : Step S Q O V E → Prop} {s₀ : S}
    (h : sys.Reaches sch (.init s₀) c) (h₀ : L.inv s₀) (hc : ∀ st ∈ c.trace, L.cond st)
    (hC : ∀ st ∈ c.trace, C st)
    (hstart : ∀ {q s s'}, C (.start s q) → L.inv s → L.cond (.start s q) → sys.launch q s = some s' →
      K (.start s q) s' ∧ ∀ st, K st s → K st s')
    (hcall : ∀ {q o} {α : Type} {e : E α} {a s s'}, C (.call s q o e a) → L.inv s → L.pre q e s →
      L.cond (.call s q o e a) → sys.exec o e s = some (a, s') →
      K (.call s q o e a) s' ∧ ∀ st, K st s → K st s')
    (henv : ∀ {v s s'}, C (.env s v) → L.inv s → L.cond (.env s v) → sys.env v s = some s' →
      K (.env s v) s' ∧ ∀ st, K st s → K st s') : ∀ st ∈ c.trace, K st c.store := by
  have key := hL.carry (J := fun tr s => (∀ st ∈ tr, C st) → ∀ st ∈ tr, K st s) h (good_init h₀) hc
    (fun _ _ hst => absurd hst List.not_mem_nil) ?_ ?_ ?_
  · exact key hC
  · rintro tr q s s' hJ hi hq ha hC' st hst
    obtain ⟨hnew, hold⟩ := hstart (hC' _ List.mem_cons_self) hi hq ha
    rcases List.mem_cons.1 hst with rfl | hst
    · exact hnew
    · exact hold st (hJ (fun st hst => hC' st (List.mem_cons_of_mem _ hst)) st hst)
  · rintro tr q o α e a s s' hJ hi hp hq ha hC' st hst
    obtain ⟨hnew, hold⟩ := hcall (hC' _ List.mem_cons_self) hi hp hq ha
    rcases List.mem_cons.1 hst with rfl | hst
    · exact hnew
    · exact hold st (hJ (fun st hst => hC' st (List.mem_cons_of_mem _ hst)) st hst)
  · rintro tr v s s' hJ hi hq ha hC' st hst
    obtain ⟨hnew, hold⟩ := henv (hC' _ List.mem_cons_self) hi hq ha
    rcases List.mem_cons.1 hst with rfl | hst
    · exact hnew
    · exact hold st (hJ (fun st hst => hC' st (List.mem_cons_of_mem _ hst)) st hst)

/-- Where an invariant of the store survives a step exactly when the step meets `C`, it holds all along
a run exactly when every step meets `C`. -/
theorem Valid.always_iff (hL : L.Valid) {I : S → Prop} {C : Step S Q O V E → Prop} {s₀ : S}
    (h : sys.Reaches sch (.init s₀) c) (h₀ : L.inv s₀) (hI : I s₀) (hc : ∀ st ∈ c.trace, L.cond st)
    (hstart : ∀ {q s s'}, I s → L.inv s → L.cond (.start s q) → sys.launch q s = some s' →
      (I s' ↔ C (.start s q)))
    (hcall : ∀ {q o} {α : Type} {e : E α} {a s s'}, I s → L.inv s → L.pre q e s →
      L.cond (.call s q o e a) → sys.exec o e s = some (a, s') → (I s' ↔ C (.call s q o e a)))
    (henv : ∀ {v s s'}, I s → L.inv s → L.cond (.env s v) → sys.env v s = some s' →
      (I s' ↔ C (.env s v))) : (∀ s ∈ c.stores, I s) ↔ ∀ st ∈ c.trace, C st := by
  have grow : ∀ {tr : List (Step S Q O V E)} {st : Step S Q O V E} {s'},
      ((∀ x ∈ st.before :: tr.map Step.before, I x) ↔ ∀ st ∈ tr, C st) →
      (I st.before → (I s' ↔ C st)) →
      ((∀ x ∈ s' :: (st :: tr).map Step.before, I x) ↔ ∀ st' ∈ st :: tr, C st') := by
    intro tr st s' hJ hst
    rw [List.forall_mem_cons, List.forall_mem_cons, List.map_cons, ← hJ]
    exact and_congr_left fun hall => hst (hall _ List.mem_cons_self)
  refine hL.carry (J := fun tr s => (∀ x ∈ s :: tr.map Step.before, I x) ↔ ∀ st ∈ tr, C st) h
    (good_init h₀) hc ?_ ?_ ?_ ?_
  · exact iff_of_true (fun x hx => List.mem_singleton.1 hx ▸ hI) fun _ hst =>
      absurd hst List.not_mem_nil
  · exact fun hJ hi hq ha => grow hJ fun hs => hstart hs hi hq ha
  · exact fun hJ hi hp hq ha => grow hJ fun hs => hcall hs hi hp hq ha
  · exact fun hJ hi hq ha => grow hJ fun hs => henv hs hi hq ha

/-! ## Which calls are made -/

section Calls

variable {φ : Q → {α : Type} → E α → Prop} {C : Step S Q O V E → Prop}

/-- The outline that only says which calls a request makes. -/
def calls (sys : Machine S Q R O V E) (φ : Q → {α : Type} → E α → Prop)
    (C : Step S Q O V E → Prop) : Outline sys where
  inv _ := True
  rely _ _ := True
  pre q _ e _ := φ q e
  post _ _ := True
  cond := C

theorem calls_valid (h : ∀ {q s}, C (.start s q) → ∀ s', (calls sys φ C).Safe q (sys.handler q) s') :
    (calls sys φ C).Valid where
  rely_refl _ := trivial
  rely_trans _ _ := trivial
  start _ _ _ := ⟨trivial, trivial⟩
  safe hq _ _ _ := h hq _
  call _ _ _ _ := ⟨trivial, trivial⟩
  env _ _ _ := ⟨trivial, trivial⟩

/-- Code over calls of the kind. -/
theorem safe_of_over {q : Q} {c : Code E R R} (hc : c.Over (φ q) fun _ => True) (s : S) :
    (calls sys φ C).Safe q c.run s :=
  hc (fun p => ∀ s, (calls sys φ C).Safe q p s)
    (fun _ _ he hk _ _ _ _ => ⟨he, fun _ a t' _ _ _ => hk a t'⟩) (fun _ _ _ => trivial) .ret
    (fun _ _ => trivial) s

end Calls

/-! ## Two outlines at once -/

/-- What two outlines say together. -/
def inf (L L' : Outline sys) : Outline sys where
  inv s := L.inv s ∧ L'.inv s
  rely s t := L.rely s t ∧ L'.rely s t
  pre q _ e s := L.pre q e s ∧ L'.pre q e s
  post q r := L.post q r ∧ L'.post q r
  cond st := L.cond st ∧ L'.cond st

theorem Safe.inf {L L' : Outline sys} {q : Q} {p : Prog E R} {s : S} (h : L.Safe q p s)
    (h' : L'.Safe q p s) : (L.inf L').Safe q p s := by
  induction p generalizing s with
  | ret r => exact ⟨h, h'⟩
  | call e k ih =>
    rintro t ⟨hst, hst'⟩ ⟨ht, ht'⟩
    obtain ⟨hpre, hk⟩ := h t hst ht
    obtain ⟨hpre', hk'⟩ := h' t hst' ht'
    refine ⟨⟨hpre, hpre'⟩, ?_⟩
    rintro o a u ⟨hc, hc'⟩ hx ⟨hu, hu'⟩
    exact ih a (hk o a u hc hx hu) (hk' o a u hc' hx hu')

/-- An outline that asks nothing of a request's calls and answers. -/
theorem safe_of_trivial {q : Q} (hpre : ∀ {α : Type} (e : E α) s, L.pre q e s)
    (hpost : ∀ r, L.post q r) (p : Prog E R) (s : S) : L.Safe q p s := by
  induction p generalizing s with
  | ret r => exact hpost r
  | call e k ih => exact fun t _ _ => ⟨hpre e t, fun _ a u _ _ _ => ih a u⟩

/-! ## One request at a time -/

/-- The obligations when requests run one at a time: a step need not respect `rely`, which only says
what a thread may assume of the store between its own calls. -/
structure SeqValid (L : Outline sys) : Prop where
  rely_refl : ∀ s, L.rely s s
  start : ∀ {q s s'}, L.cond (.start s q) → L.inv s → sys.launch q s = some s' → L.inv s'
  safe : ∀ {q s s'}, L.cond (.start s q) → L.inv s → sys.launch q s = some s' → L.inv s' →
    L.Safe q (sys.handler q) s'
  call : ∀ {q o} {α : Type} {e : E α} {a s s'}, L.inv s → L.pre q e s →
    L.cond (.call s q o e a) → sys.exec o e s = some (a, s') → L.inv s'
  env : ∀ {v s s'}, L.cond (.env s v) → L.inv s → sys.env v s = some s' → L.inv s'

/-- Of any two threads, one has answered. -/
def OneRunning (c : Config S Q R O V E) : Prop :=
  ∀ (i j : ℕ) (th th' : Thread Q E R), i ≠ j → c.threads[i]? = some th → c.threads[j]? = some th' →
    th.prog.isDone = true ∨ th'.prog.isDone = true

/-- An answered thread is safe in every store. -/
theorem safe_of_isDone {q : Q} {p : Prog E R} {s t : S} (h : L.Safe q p s) (hd : p.isDone = true) :
    L.Safe q p t := by
  cases p with
  | ret r => exact h
  | call e k => cases hd

theorem oneRunning_next {m : Move Q O V} (h : OneRunning c) (hm : sequential c m = true)
    (hn : sys.next c m = some c') : OneRunning c' := by
  obtain ⟨q, s, rfl, -, rfl⟩ | ⟨i, o, q, α, e, k, a, s, rfl, hi, -, rfl⟩ | ⟨v, s, rfl, -, rfl⟩ :=
    next_cases hn
  · have hall : ∀ th ∈ c.threads, th.prog.isDone = true := List.all_eq_true.1 hm
    intro i j th th' hij hth hth'
    rw [List.getElem?_append] at hth hth'
    split at hth
    · exact Or.inl (hall th (List.mem_of_getElem? hth))
    · split at hth'
      · exact Or.inr (hall th' (List.mem_of_getElem? hth'))
      · have hi := (List.getElem?_eq_some_iff.1 hth).1
        have hj := (List.getElem?_eq_some_iff.1 hth').1
        simp only [List.length_singleton] at hi hj
        omega
  · intro j j' th th' hjj hth hth'
    rw [List.getElem?_set] at hth hth'
    by_cases hj : i = j
    · subst hj
      rw [if_neg hjj] at hth'
      rcases h i j' _ _ hjj hi hth' with hd | hd
      · cases hd
      · exact Or.inr hd
    · rw [if_neg hj] at hth
      by_cases hj' : i = j'
      · subst hj'
        rcases h i j _ _ hj hi hth with hd | hd
        · cases hd
        · exact Or.inl hd
      · rw [if_neg hj'] at hth'
        exact h j j' th th' hjj hth hth'
  · exact h

/-- **The sequential rule**: with requests one at a time, an outline that is valid call by call holds
along every run that meets its condition. -/
theorem SeqValid.good (hL : L.SeqValid) (h : sys.Reaches sequential c₀ c) (h₀ : L.Good c₀)
    (h₁ : OneRunning c₀) (hc : ∀ st ∈ c.trace, L.cond st) : L.Good c := by
  have key : L.Good c ∧ OneRunning c := by
    refine h.induct (I := fun c => L.Good c ∧ OneRunning c) ⟨h₀, h₁⟩ hc ?_
    rintro c m c' ⟨⟨hi, hs⟩, hone⟩ hm hn hc'
    refine ⟨?_, oneRunning_next hone hm hn⟩
    obtain ⟨q, s, rfl, ha, rfl⟩ | ⟨i, o, q, α, e, k, a, s, rfl, hth, ha, rfl⟩ | ⟨v, s, rfl, hv, rfl⟩ :=
      next_cases hn
    · have hq : L.cond (.start c.store q) := hc' _ List.mem_cons_self
      have hall : ∀ th ∈ c.threads, th.prog.isDone = true := List.all_eq_true.1 hm
      have hi' := hL.start hq hi ha
      refine ⟨hi', fun th hth => ?_⟩
      rcases List.mem_append.1 hth with hth | hth
      · exact safe_of_isDone (hs th hth) (hall th hth)
      · obtain rfl := List.mem_singleton.1 hth
        exact hL.safe hq hi ha hi'
    · have hq : L.cond (.call c.store q o e a) := hc' _ List.mem_cons_self
      obtain ⟨hpre, hk⟩ := hs _ (List.mem_of_getElem? hth) c.store (hL.rely_refl _) hi
      have hi' := hL.call hi hpre hq ha
      refine ⟨hi', fun th hth' => ?_⟩
      obtain ⟨j, hj⟩ := List.mem_iff_getElem?.1 hth'
      simp only [List.getElem?_set] at hj
      split at hj
      · split at hj
        · obtain rfl := Option.some.inj hj
          exact hk o a s hq ha hi'
        · cases hj
      · next hij =>
        rcases hone i j _ _ hij hth hj with hd | hd
        · cases hd
        · exact safe_of_isDone (hs th (List.mem_of_getElem? hj)) hd
    · have hall : ∀ th ∈ c.threads, th.prog.isDone = true := List.all_eq_true.1 hm
      exact ⟨hL.env (hc' _ List.mem_cons_self) hi hv, fun th hth =>
        safe_of_isDone (hs th hth) (hall th hth)⟩
  exact key.1

theorem oneRunning_init (s : S) : OneRunning (Config.init s : Config S Q R O V E) := by
  intro i j th th' _ h
  simp [Config.init] at h

end Outline

end Interleave
