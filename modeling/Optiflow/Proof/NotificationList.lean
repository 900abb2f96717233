import Optiflow.Model.NotificationCache

/-!
# Entries of the notification list

A push does not look whether a fetch has brought its notification already, an answer replaces the list
whatever was pushed since the server read its rows, and a rollback puts back a whole list.  For every
step from a state that is reached without such an accident, `notifications_kept_iff` says when the step
doubles an entry, loses one, or takes back more than its own write.
-/

namespace Optiflow

namespace NotificationCache

open NotifySvc

variable {user : UUID} {s s' : State} {e : Event}

/-- The ids in the cached list. -/
def State.ids (s : State) : List UUID := (s.cache.getD []).map Notification.id

/-! ## What a step should keep -/

/-- The list after a mutation has failed, when only its own write is taken back; another mutation of the
same notification that has succeeded keeps its write. -/
def Mutation.takeBack (x : Mutation) (l : List Notification) : List Notification :=
  match x.previous with
  | none => l
  | some previous => if x.overtaken then l else readFlag.restore x.id previous l

/-- The step leaves no two entries with one id, loses no notification that was pushed, and takes back no
more than the write of the mutation that fails in it. -/
structure Kept (s : State) (e : Event) (s' : State) : Prop where
  nodup : s'.ids.Nodup
  pushed : ∀ id ∈ s.pushed, id ∈ s.ids → id ∈ s'.ids
  reverted : ∀ m, e = .failed m → s'.cache = s.cache.map (s.mutations m).takeBack

/-- A push brings an id that is not in the list; an answer has every id that was pushed; and when a
mutation fails, the list differs from its `previous` at most in the flag of its own notification, and not
in that when it was overtaken. -/
def harmless (s : State) : Event → Bool
  | .pushed n => n.id ∉ s.ids
  | .arrived f => s.pushed.all fun id => id ∈ ((s.fetches f).answer.getD []).map Notification.id
  | .failed m =>
    let x := s.mutations m
    match x.previous, s.cache with
    | none, _ => true
    | some _, none => false
    | some previous, some l =>
      if x.overtaken then l = previous
      else readFlag.put x.id true l = readFlag.put x.id true previous
  | _ => true

/-! ## Steps -/

section Fields

theorem markRead_eq_put (id : UUID) (l : List Notification) : markRead id l = readFlag.put id true l :=
  rfl

theorem previous_setMutation {m m' : ℕ} {x : Mutation} {l : List Notification}
    (h : ((s.setMutation m x).mutations m').previous = some l) :
    x.previous = some l ∨ (s.mutations m').previous = some l := by
  by_cases hm : m' = m
  · subst hm
    simp only [State.setMutation, Function.update_self] at h
    exact Or.inl h
  · simp only [State.setMutation, Function.update_of_ne hm] at h
    exact Or.inr h

theorem answer_setFetch {f f' : ℕ} {x : Fetch} {a : List Notification}
    (h : ((s.setFetch f x).fetches f').answer = some a) :
    x.answer = some a ∨ (s.fetches f').answer = some a := by
  by_cases hf : f' = f
  · subst hf
    simp only [State.setFetch, Function.update_self] at h
    exact Or.inl h
  · simp only [State.setFetch, Function.update_of_ne hf] at h
    exact Or.inr h

theorem id_notification {req : InternalNotifyRequest} {id : UUID} {now : Time} {n : Notification}
    (h : req.notification id now = some n) : n.id = id := by
  unfold InternalNotifyRequest.notification at h
  obtain ⟨-, ⟨⟩⟩ := Option.ite_none_left_eq_some.1 h
  rfl

end Fields

/-- What a step does to the list and to what can become the list later. -/
structure Effect (user : UUID) (s : State) (e : Event) (s' : State) : Prop where
  cache : s'.cache = match e with
    | .pushed n => some (prepend n s.cache)
    | .arrived f => (s.fetches f).answer
    | .optimistic m => s.cache.map (markRead (s.mutations m).id)
    | .failed m => (s.mutations m).previous.or s.cache
    | _ => s.cache
  pushed : s'.pushed = match e with
    | .pushed n => n.id :: s.pushed
    | _ => s.pushed
  previous : ∀ m l, (s'.mutations m).previous = some l →
    (∃ m', (s.mutations m').previous = some l) ∨ s.cache = some l
  answer : ∀ f a, (s'.fetches f).answer = some a →
    (∃ f', (s.fetches f').answer = some a) ∨ listing user s.rows a = true
  rows : (s.rows.map Notification.id).Nodup → (s'.rows.map Notification.id).Nodup

theorem effect (hs : step user s e = some s') : Effect user s e s' := by
  have hprevious : ∀ m l, (s.mutations m).previous = some l →
      (∃ m', (s.mutations m').previous = some l) ∨ s.cache = some l :=
    fun m _ hl => Or.inl ⟨m, hl⟩
  have hanswer : ∀ f a, (s.fetches f).answer = some a →
      (∃ f', (s.fetches f').answer = some a) ∨ listing user s.rows a = true :=
    fun f _ ha => Or.inl ⟨f, ha⟩
  cases e with
  | internalNotify req id now =>
    obtain ⟨hid, hs⟩ := Option.ite_none_left_eq_some.1 hs
    obtain ⟨n, hn, rfl⟩ := Option.map_eq_some_iff.1 hs
    refine ⟨rfl, rfl, hprevious, hanswer, fun hrows => ?_⟩
    rw [← id_notification hn] at hid
    exact List.nodup_cons.2 ⟨hid, hrows⟩
  | pushed n =>
    obtain ⟨-, ⟨⟩⟩ := Option.ite_none_right_eq_some.1 hs
    exact ⟨rfl, rfl, hprevious, hanswer, id⟩
  | fetch =>
    obtain rfl := Option.some.inj hs
    refine ⟨rfl, rfl, hprevious, fun f a ha => ?_, id⟩
    obtain ha | ha := answer_setFetch ha
    · cases ha
    · exact hanswer f a ha
  | listed f answer =>
    obtain ⟨hguard, ⟨⟩⟩ := Option.ite_none_right_eq_some.1 hs
    refine ⟨rfl, rfl, hprevious, fun f' a ha => ?_, id⟩
    obtain ha | ha := answer_setFetch ha
    · obtain rfl := Option.some.inj ha
      exact Or.inr (Bool.and_eq_true_iff.1 hguard).2
    · exact hanswer f' a ha
  | arrived f =>
    dsimp only [step] at hs
    split at hs
    · next answer hf =>
      obtain rfl := Option.some.inj hs
      have hanswered : some answer = (s.fetches f).answer := by rw [hf]
      refine ⟨hanswered, rfl, hprevious, fun f' a ha => ?_, id⟩
      obtain ha | ha := answer_setFetch ha
      · exact hanswer f a (hanswered.symm.trans ha)
      · exact hanswer f' a ha
    · cases hs
  | mutate id =>
    obtain rfl := Option.some.inj hs
    refine ⟨rfl, rfl, fun m l hl => ?_, hanswer, fun hrows => hrows⟩
    obtain hl | hl := previous_setMutation hl
    · cases hl
    · exact hprevious m l hl
  | optimistic m =>
    obtain ⟨-, ⟨⟩⟩ := Option.ite_none_right_eq_some.1 hs
    refine ⟨rfl, rfl, fun m' l hl => ?_, hanswer, id⟩
    obtain hl | hl := previous_setMutation hl
    · exact Or.inr hl
    · exact hprevious m' l hl
  | markedRead m =>
    obtain ⟨-, ⟨⟩⟩ := Option.ite_none_right_eq_some.1 hs
    refine ⟨rfl, rfl, fun m' l hl => ?_, hanswer, fun hrows => ?_⟩
    · obtain hl | hl := previous_setMutation hl
      · exact hprevious m l hl
      · exact hprevious m' l hl
    · dsimp only
      rw [markRead_eq_put, Keyed.Field.keys_put]
      exact hrows
  | succeeded m =>
    obtain ⟨-, ⟨⟩⟩ := Option.ite_none_right_eq_some.1 hs
    refine ⟨rfl, rfl, fun m' l hl => ?_, hanswer, id⟩
    simp only [State.succeed] at hl
    split at hl
    · exact hprevious m l hl
    · split at hl <;> exact hprevious m' l hl
  | failed m =>
    obtain ⟨-, ⟨⟩⟩ := Option.ite_none_right_eq_some.1 hs
    unfold State.onError
    dsimp only
    split
    · next previous hm =>
      have hor : some previous = (s.mutations m).previous.or s.cache := by rw [hm, Option.some_or]
      refine ⟨hor, rfl, fun m' l hl => ?_, hanswer, id⟩
      obtain hl | hl := previous_setMutation hl
      · exact hprevious m l hl
      · exact hprevious m' l hl
    · next hm =>
      have hor : s.cache = (s.mutations m).previous.or s.cache := by rw [hm, Option.none_or]
      refine ⟨hor, rfl, fun m' l hl => ?_, hanswer, id⟩
      obtain hl | hl := previous_setMutation hl
      · exact hprevious m l hl
      · exact hprevious m' l hl

theorem nodup_of_listing {rows answer : List Notification} (hrows : (rows.map Notification.id).Nodup)
    (h : listing user rows answer = true) : (answer.map Notification.id).Nodup := by
  simp only [listing, Bool.and_eq_true, decide_eq_true_eq, List.all_eq_true, List.mem_filter] at h
  obtain ⟨⟨⟨⟨hnodup, hown⟩, -⟩, -⟩, -⟩ := h
  refine hnodup.map_on ?_
  intro x hx y hy hxy
  exact List.inj_on_of_nodup_map hrows (hown x hx).1 (hown y hy).1 hxy

/-! ## Every step -/

/-- No list that the cache has held, or can come to hold, has two entries with one id, and the cache has
all that was pushed. -/
structure State.Inv (s : State) : Prop where
  nodup : s.ids.Nodup
  pushed : ∀ id ∈ s.pushed, id ∈ s.ids
  rows : (s.rows.map Notification.id).Nodup
  answer : ∀ f a, (s.fetches f).answer = some a → (a.map Notification.id).Nodup
  previous : ∀ m l, (s.mutations m).previous = some l → (l.map Notification.id).Nodup

theorem inv_start : State.start.Inv where
  nodup := List.nodup_nil
  pushed id h := by cases h
  rows := List.nodup_nil
  answer f a h := by cases h
  previous m l h := by cases h

theorem Mutation.keys_takeBack (x : Mutation) (l : List Notification) :
    (x.takeBack l).map Notification.id = l.map Notification.id := by
  unfold Mutation.takeBack
  split
  · rfl
  · split
    · rfl
    · exact Keyed.Field.keys_restore

/-- A step that does not fail a mutation and leaves the ids as they are. -/
theorem kept_of_ids (h : s.Inv) (hids : s'.ids = s.ids) (he : ∀ m, e ≠ .failed m) : Kept s e s' where
  nodup := by
    rw [hids]
    exact h.nodup
  pushed id _ hid := by
    rw [hids]
    exact hid
  reverted m hm := absurd hm (he m)

theorem kept_pushed_iff (h : s.Inv) {n : Notification} (hs : step user s (.pushed n) = some s') :
    Kept s (.pushed n) s' ↔ n.id ∉ s.ids := by
  have hids : s'.ids = n.id :: s.ids := by
    unfold State.ids
    rw [(effect hs).cache]
    cases s.cache <;> rfl
  constructor
  · intro hkept
    have := hkept.nodup
    rw [hids] at this
    exact (List.nodup_cons.1 this).1
  · intro hnew
    refine ⟨?_, fun id _ hid => ?_, fun m hm => by cases hm⟩
    · rw [hids]
      exact List.nodup_cons.2 ⟨hnew, h.nodup⟩
    · rw [hids]
      exact List.mem_cons_of_mem _ hid

theorem kept_arrived_iff (h : s.Inv) {f : ℕ} (hs : step user s (.arrived f) = some s') :
    Kept s (.arrived f) s' ↔
      ∀ id ∈ s.pushed, id ∈ ((s.fetches f).answer.getD []).map Notification.id := by
  have hids : s'.ids = ((s.fetches f).answer.getD []).map Notification.id := by
    unfold State.ids
    rw [(effect hs).cache]
  rw [← hids]
  constructor
  · intro hkept id hid
    exact hkept.pushed id hid (h.pushed id hid)
  · intro hall
    refine ⟨?_, fun id hid _ => hall id hid, fun m hm => by cases hm⟩
    rw [hids]
    cases ha : (s.fetches f).answer with
    | none => exact List.nodup_nil
    | some a => exact h.answer f a ha

/-- What a rollback takes back is decided by how the list differs from `previous`. -/
theorem kept_failed_iff (h : s.Inv) {m : ℕ} (hs : step user s (.failed m) = some s') :
    Kept s (.failed m) s' ↔ harmless s (.failed m) = true := by
  have hcache : s'.cache = (s.mutations m).previous.or s.cache := (effect hs).cache
  have hreverted : Kept s (.failed m) s' ↔ s'.cache = s.cache.map (s.mutations m).takeBack := by
    refine ⟨fun hkept => hkept.reverted m rfl, fun heq => ?_⟩
    have hids : s'.ids = s.ids := by
      unfold State.ids
      rw [heq]
      cases s.cache with
      | none => rfl
      | some l => exact Mutation.keys_takeBack _ l
    refine ⟨?_, fun id _ hid => ?_, fun m' hm => ?_⟩
    · rw [hids]
      exact h.nodup
    · rw [hids]
      exact hid
    · obtain rfl := Event.failed.inj hm
      exact heq
  rw [hreverted, hcache]
  cases hp : (s.mutations m).previous with
  | none =>
    have htakeBack : (s.mutations m).takeBack = id := by
      funext l
      simp only [Mutation.takeBack, hp, id]
    simp [harmless, hp, htakeBack]
  | some previous =>
    cases hl : s.cache with
    | none => simp [harmless, hp, hl]
    | some l =>
      simp only [harmless, hp, hl, Mutation.takeBack, Option.some_or, Option.map_some,
        Option.some.injEq]
      by_cases htaken : (s.mutations m).overtaken = true
      · simp [htaken, eq_comm]
      · simp only [htaken, if_false, Bool.false_eq_true, decide_eq_true_eq]
        rw [eq_comm]
        exact Keyed.Field.restore_eq_iff true (h.previous m previous hp)

/-- A step from such a state keeps the list exactly when it is harmless. -/
theorem kept_iff (h : s.Inv) (hs : step user s e = some s') :
    Kept s e s' ↔ harmless s e = true := by
  have hsame : s'.ids = s.ids → (∀ m, e ≠ .failed m) → harmless s e = true →
      (Kept s e s' ↔ harmless s e = true) :=
    fun hids he hharmless => iff_of_true (kept_of_ids h hids he) hharmless
  cases e with
  | pushed n => simpa [harmless] using kept_pushed_iff h hs
  | arrived f => simpa [harmless] using kept_arrived_iff h hs
  | failed m => exact kept_failed_iff h hs
  | optimistic m =>
    refine hsame ?_ (by simp) rfl
    unfold State.ids
    rw [(effect hs).cache]
    cases s.cache with
    | none => rfl
    | some l =>
      have hkeys : (readFlag.put (s.mutations m).id true l).map Notification.id =
          l.map Notification.id := Keyed.Field.keys_put
      exact hkeys
  | internalNotify req id now | fetch | listed f answer | mutate id | markedRead m | succeeded m =>
    refine hsame ?_ (by simp) rfl
    unfold State.ids
    rw [(effect hs).cache]

theorem inv_step (h : s.Inv) (hC : harmless s e = true) (hs : step user s e = some s') : s'.Inv := by
  have hkept := (kept_iff h hs).2 hC
  have heffect := effect hs
  refine ⟨hkept.nodup, fun id hid => ?_, heffect.rows h.rows, fun f a ha => ?_, fun m l hl => ?_⟩
  · rw [heffect.pushed] at hid
    cases e with
    | pushed n =>
      obtain rfl | hid := List.mem_cons.1 hid
      · unfold State.ids
        rw [heffect.cache]
        cases s.cache <;> exact List.mem_cons_self
      · exact hkept.pushed id hid (h.pushed id hid)
    | _ => exact hkept.pushed id hid (h.pushed id hid)
  · obtain ⟨f', ha⟩ | hlisting := heffect.answer f a ha
    · exact h.answer f' a ha
    · exact nodup_of_listing h.rows hlisting
  · obtain ⟨m', hl⟩ | hl := heffect.previous m l hl
    · exact h.previous m' l hl
    · have hnodup := h.nodup
      rw [State.ids, hl] at hnodup
      exact hnodup

theorem inv_run {es : List Event}
    (h : (client user).Reaches (fun s e => harmless s e = true) .start es s) : s.Inv :=
  h.invariant (I := fun _ s => s.Inv) inv_start fun _ _ _ _ hI hC hs => inv_step hI hC hs

/-- In every run whose steps are harmless the list has no two entries with one id and all that was
pushed into it, and every further step keeps it exactly when it is harmless too. -/
theorem notifications_kept_iff {es : List Event} {s : State}
    (h : (client user).Reaches (fun s e => harmless s e = true) .start es s) :
    s.ids.Nodup ∧ (∀ id ∈ s.pushed, id ∈ s.ids) ∧
    ∀ e s', step user s e = some s' → (Kept s e s' ↔ harmless s e = true) :=
  ⟨(inv_run h).nodup, (inv_run h).pushed, fun _ _ hs => kept_iff (inv_run h) hs⟩

/-! ### Runs -/

/-- A request that notifies the user 1, and the rows it makes. -/
def notice : InternalNotifyRequest := ⟨1, lit "share", lit "Shared", lit "A file was shared", none⟩

def row (id : UUID) : Notification :=
  ⟨id, 1, .share, lit "Shared", lit "A file was shared", none, false, 0⟩

/-- A fetch, a push and a mutation; its failure takes back its own flag. -/
theorem notifications_kept_push :
    ∃ s, (client 1).Reaches (fun s e => harmless s e = true) .start
        [.optimistic 0, .mutate 7, .pushed (row 8), .internalNotify notice 8 0, .arrived 0,
          .listed 0 [row 7], .fetch, .internalNotify notice 7 0] s ∧
      (s.ids.Nodup ∧ ∀ id ∈ s.pushed, id ∈ s.ids) ∧
      ∃ s', step 1 s (.failed 0) = some s' ∧ Kept s (.failed 0) s' := by
  obtain ⟨s, hs, hP⟩ := (client 1).exists_reaches harmless .start
    [.internalNotify notice 7 0, .fetch, .listed 0 [row 7], .arrived 0, .internalNotify notice 8 0,
      .pushed (row 8), .mutate 7, .optimistic 0]
    (fun s => (step 1 s (.failed 0)).isSome && harmless s (.failed 0)) (by decide +kernel)
  obtain ⟨hsome, hharmless⟩ := Bool.and_eq_true_iff.1 hP
  obtain ⟨s', hstep⟩ := Option.isSome_iff_exists.1 hsome
  obtain ⟨hnodup, hpushed, hkept⟩ := notifications_kept_iff hs
  exact ⟨s, hs, ⟨hnodup, hpushed⟩, s', hstep, (hkept _ _ hstep).2 hharmless⟩

/-- A push after the fetch that has brought its notification; an answer that was read before the
notification was created; and the failure of one of two mutations, after the other has succeeded. -/
theorem entries_doubled_and_lost :
    (∃ s, (client 1).Reaches System.Any .start
        [.pushed (row 7), .arrived 0, .listed 0 [row 7], .fetch, .internalNotify notice 7 0] s ∧
      s.ids = [7, 7]) ∧
    (∃ s, (client 1).Reaches System.Any .start
        [.arrived 0, .pushed (row 7), .internalNotify notice 7 0, .listed 0 [], .fetch] s ∧
      s.pushed = [7] ∧ s.ids = []) ∧
    ∃ s, (client 1).Reaches System.Any .start
        [.failed 0, .succeeded 1, .markedRead 1, .optimistic 1, .mutate 8, .optimistic 0, .mutate 7,
          .arrived 0, .listed 0 [row 7, row 8], .fetch, .internalNotify notice 8 0,
          .internalNotify notice 7 0] s ∧
      (s.mutations 1).id = 8 ∧ (s.mutations 1).phase = .succeeded ∧
      s.cache = some [row 7, row 8] ∧ (row 8).read = false := by
  refine ⟨?_, ?_, ?_⟩
  · obtain ⟨s, hs, hP⟩ := (client 1).exists_reaches (fun _ _ => true) .start
      [.internalNotify notice 7 0, .fetch, .listed 0 [row 7], .arrived 0, .pushed (row 7)]
      (fun s => s.ids = [7, 7]) (by decide +kernel)
    exact ⟨s, hs.mono fun _ _ _ => trivial, of_decide_eq_true hP⟩
  · obtain ⟨s, hs, hP⟩ := (client 1).exists_reaches (fun _ _ => true) .start
      [.fetch, .listed 0 [], .internalNotify notice 7 0, .pushed (row 7), .arrived 0]
      (fun s => s.pushed = [7] ∧ s.ids = []) (by decide +kernel)
    exact ⟨s, hs.mono fun _ _ _ => trivial, of_decide_eq_true hP⟩
  · obtain ⟨s, hs, hP⟩ := (client 1).exists_reaches (fun _ _ => true) .start
      [.internalNotify notice 7 0, .internalNotify notice 8 0, .fetch, .listed 0 [row 7, row 8],
        .arrived 0, .mutate 7, .optimistic 0, .mutate 8, .optimistic 1, .markedRead 1, .succeeded 1,
        .failed 0]
      (fun s => (s.mutations 1).id = 8 ∧ (s.mutations 1).phase = .succeeded ∧
        s.cache = some [row 7, row 8] ∧ (row 8).read = false) (by decide +kernel)
    exact ⟨s, hs.mono fun _ _ _ => trivial, of_decide_eq_true hP⟩

end NotificationCache

end Optiflow
