import Optiflow.Model.Hub

/-!
# Fan-out of notifications

Over all runs of any number of replicas: the map of connections is what has been registered and not
unregistered, what the replicas write is what their copies of it say, and no replica is handed a
notification twice (`notification_fanout_exact`).
-/

namespace Optiflow

namespace NotifySvc

variable {ρ κ : Type} [DecidableEq ρ] [DecidableEq κ]

/-! ## What a run has done -/

/-- Whether the pair is registered after an event. -/
def Event.registers (r : ρ) (userID : UUID) (c : κ) : Event ρ κ → Bool → Bool
  | .register r' userID' c', b => (r' = r ∧ userID' = userID ∧ c' = c) || b
  | .unregister r' userID' c', b => !(r' = r ∧ userID' = userID ∧ c' = c) && b
  | _, b => b

/-- The pair has been registered and not unregistered since; the newest event comes first. -/
def registered (r : ρ) (userID : UUID) (c : κ) (es : List (Event ρ κ)) : Bool :=
  es.foldr (Event.registers r userID c) false

theorem register_mem_of_registered {r : ρ} {userID : UUID} {c : κ}
    {es : List (Event ρ κ)} (h : registered r userID c es = true) : .register r userID c ∈ es := by
  induction es with
  | nil => cases h
  | cons e es ih =>
    cases e with
    | register r' userID' c' =>
      obtain h | h := Bool.or_eq_true_iff.1 h
      · obtain ⟨rfl, rfl, rfl⟩ := of_decide_eq_true h
        exact List.mem_cons_self
      · exact List.mem_cons_of_mem _ (ih h)
    | unregister r' userID' c' => exact List.mem_cons_of_mem _ (ih (Bool.and_eq_true_iff.1 h).2)
    | _ => exact List.mem_cons_of_mem _ (ih h)

/-- The message that a replica delivers in an event, with the connections that it copies. -/
def Event.delivery? (r : ρ) : Event ρ κ → Option (Envelope × List κ)
  | .snapshot r' env conns => if r' = r then some (env, conns) else none
  | _ => none

def deliveries (r : ρ) (es : List (Event ρ κ)) : List (Envelope × List κ) :=
  es.filterMap (Event.delivery? r)

omit [DecidableEq κ] in
theorem deliveries_cons (r : ρ) (e : Event ρ κ) (es : List (Event ρ κ)) :
    deliveries r (e :: es) = (e.delivery? r).toList ++ deliveries r es := by
  rw [deliveries, List.filterMap_cons]
  cases e.delivery? r <;> rfl

/-- The write that a replica tries in an event. -/
def Event.attempt? (r : ρ) : Event ρ κ → Option (κ × Notification)
  | .write r' c n => if r' = r then some (c, n) else none
  | _ => none

def attempts (r : ρ) (es : List (Event ρ κ)) : List (κ × Notification) :=
  es.filterMap (Event.attempt? r)

omit [DecidableEq κ] in
theorem attempts_cons (r : ρ) (e : Event ρ κ) (es : List (Event ρ κ)) :
    attempts r (e :: es) = (e.attempt? r).toList ++ attempts r es := by
  rw [attempts, List.filterMap_cons]
  cases e.attempt? r <;> rfl

/-- The writes of a delivery. -/
def pieces (d : Envelope × List κ) : List (κ × Notification) :=
  d.2.map fun c => (c, d.1.notification)

/-- The writes that the loop still has to try. -/
def Loop.owed : Loop κ → List (κ × Notification)
  | .writing env conns => pieces (env, conns)
  | _ => []

/-- The notification that the loop has received. -/
def Loop.held : Loop κ → List Envelope
  | .received env => [env]
  | _ => []

section Loop

variable {env : Envelope} {conns : List κ}

omit [DecidableEq κ]

@[simp] theorem held_waiting : (.waiting : Loop κ).held = [] := rfl

@[simp] theorem held_received : (.received env : Loop κ).held = [env] := rfl

@[simp] theorem held_writing : (Loop.writing env conns).held = [] := rfl

@[simp] theorem held_ite : (if conns = [] then Loop.waiting else .writing env conns).held = [] := by
  split <;> rfl

@[simp] theorem owed_waiting : (.waiting : Loop κ).owed = [] := rfl

@[simp] theorem owed_received : (.received env : Loop κ).owed = [] := rfl

@[simp] theorem owed_writing : (Loop.writing env conns).owed = pieces (env, conns) := rfl

@[simp] theorem owed_ite : (if conns = [] then Loop.waiting else .writing env conns).owed =
    pieces (env, conns) := by
  cases conns <;> rfl

end Loop

/-! ## The map -/

section Conns

variable {conns : Conns κ} {userID userID' : UUID} {c c' : κ}

theorem Conns.mem_get_register : c' ∈ (conns.register userID c).get userID' ↔
    (userID = userID' ∧ c = c') ∨ c' ∈ conns.get userID' := by
  unfold Conns.register Conns.get
  by_cases hu : userID' = userID
  · subst hu
    cases h : conns userID' with
    | none => simp [eq_comm]
    | some inner => simp [h, eq_comm]
  · have hne : ¬userID = userID' := fun h => hu h.symm
    cases h : conns userID <;> simp [hu, hne]

theorem Conns.mem_get_unregister : c' ∈ (conns.unregister userID c).get userID' ↔
    ¬(userID = userID' ∧ c = c') ∧ c' ∈ conns.get userID' := by
  unfold Conns.unregister Conns.get
  by_cases hu : userID' = userID
  · subst hu
    cases h : conns userID' with
    | none => simp
    | some inner =>
      by_cases hempty : (inner.erase c).card = 0
      · have hmem : c' ∉ inner.erase c := by simp [Finset.card_eq_zero.1 hempty]
        simp only [Finset.mem_erase, not_and_or, not_not] at hmem
        simp [hempty]
        tauto
      · simp [hempty, eq_comm]
  · have hne : ¬userID = userID' := fun h => hu h.symm
    simp only [hne, false_and, not_false_eq_true, true_and]
    split <;> simp [hu]

theorem Conns.register_ne_empty (h : ∀ u, conns u ≠ some ∅) (u : UUID) :
    conns.register userID c u ≠ some ∅ := by
  unfold Conns.register
  by_cases hu : u = userID
  · subst hu
    cases hc : conns u <;> simp [hc]
  · cases hc : conns userID <;> simp [hu, h u]

theorem Conns.unregister_ne_empty (h : ∀ u, conns u ≠ some ∅) (u : UUID) :
    conns.unregister userID c u ≠ some ∅ := by
  unfold Conns.unregister
  by_cases hu : u = userID
  · subst hu
    cases hc : conns u with
    | none => simp [Conns.get]
    | some inner =>
      by_cases hempty : (inner.erase c).card = 0
      · simp [Conns.get, hempty]
      · have hne : inner.erase c ≠ ∅ := fun he => hempty (by rw [he, Finset.card_empty])
        simpa [Conns.get, hempty] using hne
  · split <;> simp [hu, h u]
end Conns

/-! ## Steps -/

section Steps

variable {s s' : State ρ κ} {r r' : ρ} {x : Replica κ} {env : Envelope}

theorem step_internalNotify {req : InternalNotifyRequest} {id : UUID} {now : Time}
    (h : step s (.internalNotify req id now) = some s') : id ∉ s.ids ∧
      ∃ n, req.notification id now = some n ∧ s' =
        { s with ids := id :: s.ids, publishing := ⟨req.userID, n⟩ :: s.publishing } := by
  simp only [step] at h
  split at h
  · cases h
  · next hid =>
    obtain ⟨n, hn, rfl⟩ := Option.map_eq_some_iff.1 h
    exact ⟨hid, n, hn, rfl⟩

theorem step_publish (h : step s (.publish env) = some s') : env ∈ s.publishing ∧ s' =
    { s with publishing := s.publishing.erase env, replica := fun r => (s.replica r).hand env } := by
  simp only [step] at h
  split at h
  · next henv => exact ⟨henv, (Option.some.inj h).symm⟩
  · cases h

theorem step_publishFails (h : step s (.publishFails env) = some s') :
    env ∈ s.publishing ∧ s' = { s with publishing := s.publishing.erase env } := by
  simp only [step] at h
  split at h
  · next henv => exact ⟨henv, (Option.some.inj h).symm⟩
  · cases h

theorem step_receive (h : step s (.receive r env) = some s') :
    (s.replica r).loop = .waiting ∧ env ∈ (s.replica r).inbox ∧ s' = s.set r
      { s.replica r with inbox := (s.replica r).inbox.erase env, loop := .received env } := by
  simp only [step] at h
  split at h
  · next hguard => exact ⟨hguard.1, hguard.2, (Option.some.inj h).symm⟩
  · cases h

theorem step_snapshot {conns : List κ} (h : step s (.snapshot r env conns) = some s') :
    (s.replica r).loop = .received env ∧ conns.Nodup ∧
      conns.toFinset = (s.replica r).conns.get env.userID ∧ s' = s.set r
        { s.replica r with loop := if conns = [] then .waiting else .writing env conns } := by
  simp only [step] at h
  split at h
  · next hguard => exact ⟨hguard.1, hguard.2.1, hguard.2.2, (Option.some.inj h).symm⟩
  · cases h

theorem step_write {c : κ} {n : Notification} (h : step s (.write r c n) = some s') :
    ∃ env conns, (s.replica r).loop = .writing env (c :: conns) ∧ env.notification = n ∧
      s'.replica = Function.update s.replica r
        { s.replica r with loop := if conns = [] then .waiting else .writing env conns } ∧
      s'.ids = s.ids ∧ s'.publishing = s.publishing ∧
      s'.written = if c ∈ (s.replica r).closed then s.written else ⟨r, c, n⟩ :: s.written := by
  simp only [step] at h
  split at h
  · next env c' conns hloop =>
    split at h
    · next hguard =>
      obtain ⟨rfl, hn⟩ := hguard
      obtain rfl := Option.some.inj h
      refine ⟨env, conns, hloop, hn, ?_⟩
      split <;> exact ⟨rfl, rfl, rfl, rfl⟩
    · cases h
  · cases h

/-! ### What an event changes at a replica -/

/-- The loop after the next write. -/
def Loop.next : Loop κ → Loop κ
  | .writing env (_ :: conns) => if conns = [] then .waiting else .writing env conns
  | loop => loop

/-- What an event makes of the replica `r`. -/
def Event.effect (r : ρ) (e : Event ρ κ) (x : Replica κ) : Replica κ :=
  match e with
  | .register r' userID c => if r' = r then { x with conns := x.conns.register userID c } else x
  | .unregister r' userID c => if r' = r then { x with conns := x.conns.unregister userID c } else x
  | .closed r' c => if r' = r then { x with closed := insert c x.closed } else x
  | .subscribe r' => if r' = r then { x with subscribed := true } else x
  | .publish env => x.hand env
  | .receive r' env =>
    if r' = r then { x with inbox := x.inbox.erase env, loop := .received env } else x
  | .snapshot r' env conns =>
    if r' = r then { x with loop := if conns = [] then .waiting else .writing env conns } else x
  | .write r' _ _ => if r' = r then { x with loop := x.loop.next } else x
  | .internalNotify _ _ _ | .publishFails _ => x

theorem effect_conns (r : ρ) (e : Event ρ κ) (x : Replica κ) : (e.effect r x).conns = match e with
    | .register r' userID c => if r' = r then x.conns.register userID c else x.conns
    | .unregister r' userID c => if r' = r then x.conns.unregister userID c else x.conns
    | _ => x.conns := by
  cases e with
  | publish env =>
    simp only [Event.effect, Replica.hand]
    split <;> rfl
  | internalNotify _ _ _ | publishFails _ => rfl
  | _ =>
    simp only [Event.effect]
    split <;> rfl

theorem effect_closed (r : ρ) (e : Event ρ κ) (x : Replica κ) : (e.effect r x).closed = match e with
    | .closed r' c => if r' = r then insert c x.closed else x.closed
    | _ => x.closed := by
  cases e with
  | publish env =>
    simp only [Event.effect, Replica.hand]
    split <;> rfl
  | internalNotify _ _ _ | publishFails _ => rfl
  | _ =>
    simp only [Event.effect]
    split <;> rfl

theorem effect_loop (r : ρ) (e : Event ρ κ) (x : Replica κ) : (e.effect r x).loop = match e with
    | .receive r' env => if r' = r then .received env else x.loop
    | .snapshot r' env conns =>
      if r' = r then (if conns = [] then .waiting else .writing env conns) else x.loop
    | .write r' _ _ => if r' = r then x.loop.next else x.loop
    | _ => x.loop := by
  cases e with
  | publish env =>
    simp only [Event.effect, Replica.hand]
    split <;> rfl
  | internalNotify _ _ _ | publishFails _ => rfl
  | _ =>
    simp only [Event.effect]
    split <;> rfl

omit [DecidableEq κ] in
theorem replica_set {x y : Replica κ} (h : r' = r → x = y) :
    (s.set r' x).replica r = if r' = r then y else s.replica r := by
  by_cases hr : r' = r
  · rw [if_pos hr, ← h hr, hr]
    exact Function.update_self ..
  · rw [if_neg hr]
    exact Function.update_of_ne (Ne.symm hr) ..

theorem step_replica {e : Event ρ κ} (h : step s e = some s') (r : ρ) :
    s'.replica r = e.effect r (s.replica r) := by
  cases e with
  | register r' userID c =>
    obtain rfl := Option.some.inj h
    exact replica_set fun hr => by rw [hr]
  | unregister r' userID c =>
    obtain rfl := Option.some.inj h
    exact replica_set fun hr => by rw [hr]
  | closed r' c =>
    obtain rfl := Option.some.inj h
    exact replica_set fun hr => by rw [hr]
  | subscribe r' =>
    obtain rfl := Option.some.inj h
    exact replica_set fun hr => by rw [hr]
  | internalNotify req id now =>
    obtain ⟨-, n, -, rfl⟩ := step_internalNotify h
    rfl
  | publish env =>
    obtain ⟨-, rfl⟩ := step_publish h
    rfl
  | publishFails env =>
    obtain ⟨-, rfl⟩ := step_publishFails h
    rfl
  | receive r' env =>
    obtain ⟨-, -, rfl⟩ := step_receive h
    exact replica_set fun hr => by rw [hr]
  | snapshot r' env conns =>
    obtain ⟨-, -, -, rfl⟩ := step_snapshot h
    exact replica_set fun hr => by rw [hr]
  | write r' c n =>
    obtain ⟨env, conns, hloop, -, hrep, -⟩ := step_write h
    rw [hrep, Function.update_apply]
    simp only [Event.effect, eq_comm (a := r)]
    split
    · next hr =>
      subst hr
      rw [hloop]
      rfl
    · rfl

end Steps

/-! ## The map over a run -/

/-- The map holds what is registered, and no empty inner map. -/
structure MapExact (es : List (Event ρ κ)) (s : State ρ κ) : Prop where
  exact : ∀ r userID c, c ∈ (s.replica r).conns.get userID ↔ registered r userID c es = true
  inner : ∀ r userID, (s.replica r).conns userID ≠ some ∅

theorem MapExact.step {es : List (Event ρ κ)} {s s' : State ρ κ} {e : Event ρ κ}
    (h : MapExact es s) (hs : step s e = some s') : MapExact (e :: es) s' := by
  constructor
  · intro r userID c
    rw [step_replica hs r, effect_conns]
    have ih := h.exact r userID c
    cases e with
    | register r' userID' c' =>
      show _ ↔ (decide (r' = r ∧ userID' = userID ∧ c' = c) || registered r userID c es) = true
      by_cases hr : r' = r
      · simp [hr, Conns.mem_get_register, ih]
      · simp [hr, ih]
    | unregister r' userID' c' =>
      show _ ↔ (!decide (r' = r ∧ userID' = userID ∧ c' = c) && registered r userID c es) = true
      by_cases hr : r' = r
      · simp only [hr, if_true, Conns.mem_get_unregister, ih, true_and, Bool.and_eq_true,
          Bool.not_eq_true', decide_eq_false_iff_not]
      · simp [hr, ih]
    | _ => exact ih
  · intro r userID
    rw [step_replica hs r, effect_conns]
    cases e with
    | register r' userID' c' =>
      dsimp only
      split
      · exact Conns.register_ne_empty (h.inner r) userID
      · exact h.inner r userID
    | unregister r' userID' c' =>
      dsimp only
      split
      · exact Conns.unregister_ne_empty (h.inner r) userID
      · exact h.inner r userID
    | _ => exact h.inner r userID

/-! ## The way of a notification -/

section Flow

variable {es : List (Event ρ κ)} {s s' : State ρ κ} {e : Event ρ κ} {r : ρ} {env env' : Envelope}

/-- How often a message is on its way to a replica or delivered by it. -/
def flow (r : ρ) (es : List (Event ρ κ)) (s : State ρ κ) (env : Envelope) : ℕ :=
  s.publishing.count env + (s.replica r).inbox.count env + (s.replica r).loop.held.count env +
    ((deliveries r es).map Prod.fst).count env

/-- The message that a request creates. -/
def Event.created? : Event ρ κ → Option Envelope
  | .internalNotify req id now => (req.notification id now).map fun n => ⟨req.userID, n⟩
  | _ => none

theorem notification_eq {req : InternalNotifyRequest} {id : UUID} {now : Time} {n : Notification}
    (h : req.notification id now = some n) : n.id = id ∧ n.userID = req.userID := by
  unfold InternalNotifyRequest.notification at h
  split at h
  · cases h
  · obtain rfl := Option.some.inj h
    exact ⟨rfl, rfl⟩

/-- No step but the creation of a message adds one. -/
theorem flow_step (hs : step s e = some s') (es : List (Event ρ κ)) (r : ρ) (env : Envelope) :
    flow r (e :: es) s' env ≤ flow r es s env + if e.created? = some env then 1 else 0 := by
  have hrep := step_replica hs r
  cases e with
  | internalNotify req id now =>
    obtain ⟨-, n, hn, rfl⟩ := step_internalNotify hs
    have hcount : (⟨req.userID, n⟩ :: s.publishing).count env = s.publishing.count env +
        if (Event.internalNotify req id now : Event ρ κ).created? = some env then 1 else 0 := by
      simp [Event.created?, hn, List.count_cons]
    show (⟨req.userID, n⟩ :: s.publishing).count env + _ + _ + _ ≤ _
    rw [hcount]
    rw [deliveries_cons]
    unfold flow
    simp only [Event.delivery?, Option.toList_none, List.nil_append]
    omega
  | publish env' =>
    obtain ⟨henv, rfl⟩ := step_publish hs
    have hpos := List.count_pos_iff.2 henv
    refine le_trans ?_ (Nat.le_add_right _ _)
    show (s.publishing.erase env').count env + ((s.replica r).hand env').inbox.count env +
      ((s.replica r).hand env').loop.held.count env + _ ≤ _
    rw [deliveries_cons]
    unfold Replica.hand flow
    by_cases hsub : (s.replica r).subscribed
    · by_cases heq : env' = env
      · subst heq
        simp [hsub, Event.delivery?]
        omega
      · simp [hsub, heq, Event.delivery?, List.count_erase]
    · simp [hsub, Event.delivery?, List.count_erase]
  | publishFails env' =>
    obtain ⟨henv, rfl⟩ := step_publishFails hs
    refine le_trans ?_ (Nat.le_add_right _ _)
    unfold flow
    rw [deliveries_cons]
    simp [Event.delivery?, List.count_erase]
  | receive r' env' =>
    obtain ⟨hloop, henv, rfl⟩ := step_receive hs
    refine le_trans ?_ (Nat.le_add_right _ _)
    have hpos := List.count_pos_iff.2 henv
    unfold flow
    rw [hrep, deliveries_cons]
    by_cases hr : r' = r
    · subst hr
      by_cases heq : env' = env
      · subst heq
        simp [Event.effect, Event.delivery?, State.set, hloop]
        omega
      · simp [Event.effect, Event.delivery?, State.set, hloop, heq, List.count_erase]
    · simp [Event.effect, Event.delivery?, State.set, hr]
  | snapshot r' env' conns =>
    obtain ⟨hloop, -, -, rfl⟩ := step_snapshot hs
    refine le_trans ?_ (Nat.le_add_right _ _)
    unfold flow
    rw [hrep, deliveries_cons]
    by_cases hr : r' = r
    · subst hr
      simp [Event.effect, Event.delivery?, State.set, hloop, List.count_cons]
      omega
    · simp [Event.effect, Event.delivery?, State.set, hr]
  | write r' c n =>
    obtain ⟨env', conns, hloop, -, -, -, hpub, -⟩ := step_write hs
    refine le_trans ?_ (Nat.le_add_right _ _)
    unfold flow
    rw [hrep, hpub, deliveries_cons]
    by_cases hr : r' = r
    · subst hr
      simp [Event.effect, Event.delivery?, hloop, Loop.next]
    · simp [Event.effect, Event.delivery?, hr]
  | register r' _ _ | unregister r' _ _ | closed r' _ | subscribe r' =>
    obtain rfl := Option.some.inj hs
    refine le_trans ?_ (Nat.le_add_right _ _)
    unfold flow
    rw [hrep, deliveries_cons]
    by_cases hr : r' = r <;> simp [Event.effect, Event.delivery?, State.set, hr]

/-- Messages on their way are known and are for the user of their notification, and no message comes to a
replica twice. -/
structure HandedOnce (es : List (Event ρ κ)) (s : State ρ κ) : Prop where
  known : ∀ r env, 0 < flow r es s env → env.notification.id ∈ s.ids
  user : ∀ r env, 0 < flow r es s env → env.notification.userID = env.userID
  once : ∀ r env, flow r es s env ≤ 1
  distinct : ∀ r env env', 0 < flow r es s env → 0 < flow r es s env' →
    env.notification.id = env'.notification.id → env = env'

theorem step_ids (hs : step s e = some s') {id : UUID} (h : id ∈ s.ids) : id ∈ s'.ids := by
  cases e with
  | internalNotify req id' now =>
    obtain ⟨-, n, -, rfl⟩ := step_internalNotify hs
    exact List.mem_cons_of_mem _ h
  | publish env =>
    obtain ⟨-, rfl⟩ := step_publish hs
    exact h
  | publishFails env =>
    obtain ⟨-, rfl⟩ := step_publishFails hs
    exact h
  | receive r env =>
    obtain ⟨-, -, rfl⟩ := step_receive hs
    exact h
  | snapshot r env conns =>
    obtain ⟨-, -, -, rfl⟩ := step_snapshot hs
    exact h
  | write r c n =>
    obtain ⟨-, -, -, -, -, hids, -⟩ := step_write hs
    rwa [hids]
  | _ =>
    obtain rfl := Option.some.inj hs
    exact h

/-- A message that is created has a new id. -/
theorem created_spec (hs : step s e = some s') (he : e.created? = some env) :
    env.notification.id ∉ s.ids ∧ env.notification.id ∈ s'.ids ∧
      env.notification.userID = env.userID := by
  cases e with
  | internalNotify req id now =>
    obtain ⟨hid, n, hn, rfl⟩ := step_internalNotify hs
    obtain ⟨rfl, huser⟩ := notification_eq hn
    simp only [Event.created?, hn, Option.map_some, Option.some.injEq] at he
    subst he
    exact ⟨hid, List.mem_cons_self, huser⟩
  | _ => cases he

theorem HandedOnce.step (h : HandedOnce es s) (hs : step s e = some s') : HandedOnce (e :: es) s' := by
  -- What flows after the step is new or has flowed before.
  have hflow : ∀ r env, 0 < flow r (e :: es) s' env → e.created? = some env ∨ 0 < flow r es s env := by
    intro r env hpos
    have hle := flow_step hs es r env
    by_cases he : e.created? = some env
    · exact Or.inl he
    · rw [if_neg he] at hle
      exact Or.inr (by omega)
  have hnew : ∀ env, e.created? = some env → ∀ r env', 0 < flow r es s env' →
      env.notification.id ≠ env'.notification.id := fun env he r env' hpos heq =>
    (created_spec hs he).1 (heq ▸ h.known r env' hpos)
  refine ⟨fun r env hpos => ?_, fun r env hpos => ?_, fun r env => ?_, fun r env env' hpos hpos' hid => ?_⟩
  · obtain he | hold := hflow r env hpos
    · exact (created_spec hs he).2.1
    · exact step_ids hs (h.known r env hold)
  · obtain he | hold := hflow r env hpos
    · exact (created_spec hs he).2.2
    · exact h.user r env hold
  · have hle := flow_step hs es r env
    have honce := h.once r env
    by_cases he : e.created? = some env
    · rw [if_pos he] at hle
      have hzero : ¬0 < flow r es s env := fun hold => hnew env he r env hold rfl
      omega
    · rw [if_neg he] at hle
      omega
  · obtain he | hold := hflow r env hpos
    · obtain he' | hold' := hflow r env' hpos'
      · exact Option.some.inj (he.symm.trans he')
      · exact absurd hid (hnew env he r env' hold')
    · obtain he' | hold' := hflow r env' hpos'
      · exact absurd hid.symm (hnew env' he' r env hold)
      · exact h.distinct r env env' hold hold' hid

end Flow

/-! ## Writes -/

section Writes

variable {es : List (Event ρ κ)} {s s' : State ρ κ} {e : Event ρ κ} {r : ρ}

/-- A replica tries the writes of its deliveries, and those to connections that have not ended succeed. -/
structure WritesExact (es : List (Event ρ κ)) (s : State ρ κ) : Prop where
  tried : ∀ r x, ((deliveries r es).flatMap pieces).count x =
    (attempts r es).count x + (s.replica r).loop.owed.count x
  closed : ∀ r c, c ∈ (s.replica r).closed ↔ .closed r c ∈ es
  written : ∀ r c n, s.written.count ⟨r, c, n⟩ ≤ (attempts r es).count (c, n) ∧
    (c ∉ (s.replica r).closed → s.written.count ⟨r, c, n⟩ = (attempts r es).count (c, n))

/-- Only a write writes. -/
theorem step_written (hs : step s e = some s') (he : ∀ r c n, e ≠ .write r c n) :
    s'.written = s.written := by
  cases e with
  | internalNotify req id' now =>
    obtain ⟨-, n, -, rfl⟩ := step_internalNotify hs
    rfl
  | publish env =>
    obtain ⟨-, rfl⟩ := step_publish hs
    rfl
  | publishFails env =>
    obtain ⟨-, rfl⟩ := step_publishFails hs
    rfl
  | receive r env =>
    obtain ⟨-, -, rfl⟩ := step_receive hs
    rfl
  | snapshot r env conns =>
    obtain ⟨-, -, -, rfl⟩ := step_snapshot hs
    rfl
  | write r c n => exact absurd rfl (he r c n)
  | _ =>
    obtain rfl := Option.some.inj hs
    rfl

theorem tried_step (hs : step s e = some s') (r : ρ) (x : κ × Notification)
    (ih : ((deliveries r es).flatMap pieces).count x =
      (attempts r es).count x + (s.replica r).loop.owed.count x) :
    ((deliveries r (e :: es)).flatMap pieces).count x =
      (attempts r (e :: es)).count x + (s'.replica r).loop.owed.count x := by
  rw [step_replica hs, effect_loop, deliveries_cons, attempts_cons]
  cases e with
  | snapshot r' env conns =>
    obtain ⟨hloop, -⟩ := step_snapshot hs
    by_cases hr : r' = r
    · subst hr
      simp [Event.delivery?, Event.attempt?, hloop] at ih ⊢
      omega
    · simpa [Event.delivery?, Event.attempt?, hr] using ih
  | write r' c n =>
    obtain ⟨env, conns, hloop, rfl, -⟩ := step_write hs
    by_cases hr : r' = r
    · subst hr
      simp [Event.delivery?, Event.attempt?, hloop, Loop.next, pieces, List.count_cons] at ih ⊢
      omega
    · simpa [Event.delivery?, Event.attempt?, hr] using ih
  | receive r' env =>
    obtain ⟨hloop, -⟩ := step_receive hs
    by_cases hr : r' = r
    · subst hr
      simpa [Event.delivery?, Event.attempt?, hloop] using ih
    · simpa [Event.delivery?, Event.attempt?, hr] using ih
  | _ => exact ih

/-- Whether another write has been written does not matter. -/
theorem count_written_of_ne {w w' : Written ρ κ} (h : w' ≠ w) {ws : List (Written ρ κ)} {p : Prop}
    [Decidable p] : (if p then ws else w' :: ws).count w = ws.count w := by
  split
  · rfl
  · exact List.count_cons_of_ne h

theorem WritesExact.step (h : WritesExact es s) (hs : step s e = some s') :
    WritesExact (e :: es) s' := by
  have hrep := step_replica hs
  refine ⟨fun r x => tried_step hs r x (h.tried r x), fun r c => ?_, fun r c n => ?_⟩
  · have ih := h.closed r c
    rw [hrep, effect_closed, List.mem_cons]
    cases e with
    | closed r' c' =>
      by_cases hr : r' = r
      · simp [hr, ih]
      · simp [hr, Ne.symm hr, ih]
    | _ => simpa using ih
  · have ih := h.written r c n
    rw [hrep, effect_closed, attempts_cons]
    cases e with
    | write r' c' n' =>
      obtain ⟨env, conns, -, -, -, -, -, hwritten⟩ := step_write hs
      rw [hwritten]
      by_cases hr : r' = r
      · subst hr
        by_cases hx : c' = c ∧ n' = n
        · obtain ⟨rfl, rfl⟩ := hx
          by_cases hclosed : c' ∈ (s.replica r').closed
          · simp only [hclosed, if_true, Event.attempt?, Option.toList_some, List.singleton_append,
              List.count_cons_self, not_true_eq_false, false_implies, and_true]
            omega
          · simp [hclosed, Event.attempt?, ih.2 hclosed]
        · have hne : (c', n') ≠ (c, n) := fun heq => hx (Prod.mk.inj heq)
          have hne' : (⟨r', c', n'⟩ : Written ρ κ) ≠ ⟨r', c, n⟩ := fun heq => by
            cases heq
            exact hx ⟨rfl, rfl⟩
          rw [count_written_of_ne hne']
          simpa [Event.attempt?, List.count_cons_of_ne hne] using ih
      · have hne : (⟨r', c', n'⟩ : Written ρ κ) ≠ ⟨r, c, n⟩ := fun heq => by
          cases heq
          exact hr rfl
        rw [count_written_of_ne hne]
        simpa [Event.attempt?, hr] using ih
    | closed r' c' =>
      rw [step_written hs fun _ _ _ h => by cases h]
      refine ⟨ih.1, fun hc => ih.2 fun hold => hc ?_⟩
      show c ∈ if r' = r then insert c' (s.replica r).closed else (s.replica r).closed
      split
      · exact Finset.mem_insert_of_mem hold
      · exact hold
    | _ =>
      rw [step_written hs fun _ _ _ h => by cases h]
      exact ih

end Writes

/-! ## Fan-out -/

section FanOut

variable {es newer older : List (Event ρ κ)} {s : State ρ κ} {r : ρ} {env : Envelope} {conns : List κ}
  {c : κ}

/-- The property, of a run with the events `es` that has come to `s`. -/
structure FanOutExact (es : List (Event ρ κ)) (s : State ρ κ) : Prop where
  /-- A connection that is registered when its replica copies the connections for a message is written
  the notification once, or its turn is still to come, unless it ends. -/
  exactlyOnce : ∀ r env conns newer older, es = newer ++ .snapshot r env conns :: older → ∀ c,
    registered r env.userID c older = true → .closed r c ∉ es →
    s.written.count ⟨r, c, env.notification⟩ +
      (s.replica r).loop.owed.count (c, env.notification) = 1
  /-- A replica can finish its delivery by itself. -/
  finishes : ∀ r, ∃ es' s', (hubs ρ κ).Reaches System.Any s es' s' ∧
    (∀ e ∈ es', ∃ c n, e = .write r c n) ∧ (s'.replica r).loop.owed = []
  /-- No connection is written a notification twice. -/
  atMostOnce : ∀ w, s.written.count w ≤ 1
  /-- What is written to a connection is a notification of a user for whom the connection was registered
  when its replica copied the connections. -/
  ownUser : ∀ w ∈ s.written, ∃ env conns newer older,
    es = newer ++ .snapshot w.replica env conns :: older ∧ env.notification = w.notification ∧
    registered w.replica w.notification.userID w.conn older = true
  /-- So a connection that is only registered for one user is only written notifications of that user. -/
  noOther : ∀ r c userID, (∀ u, .register r u c ∈ es → u = userID) →
    ∀ n, ⟨r, c, n⟩ ∈ s.written → n.userID = userID
  /-- The map holds the pairs that are registered, and no empty inner map. -/
  mapExact : MapExact es s

/-! ### Deliveries -/

omit [DecidableEq κ] in
theorem mem_pieces {d : Envelope × List κ} {n : Notification} :
    (c, n) ∈ pieces d ↔ c ∈ d.2 ∧ n = d.1.notification := by
  simp [pieces, eq_comm]

theorem count_pieces_le {d : Envelope × List κ} {n : Notification} (hd : d.2.Nodup) :
    (pieces d).count (c, n) ≤ if n = d.1.notification then 1 else 0 := by
  split
  · exact List.nodup_iff_count_le_one.1 (hd.map fun _ _ h => (Prod.mk.inj h).1) _
  · next hn => exact Nat.le_of_eq (List.count_eq_zero.2 fun h => hn (mem_pieces.1 h).2)

/-- Deliveries of different notifications write each of them to a connection once. -/
theorem count_flatMap_pieces_le {ds : List (Envelope × List κ)} {n : Notification}
    (hids : (ds.map fun d => d.1.notification.id).Nodup) (hnodup : ∀ d ∈ ds, d.2.Nodup) :
    (ds.flatMap pieces).count (c, n) ≤ 1 ∧
      (n.id ∉ ds.map (fun d => d.1.notification.id) → (ds.flatMap pieces).count (c, n) = 0) := by
  induction ds with
  | nil => simp
  | cons d ds ih =>
    obtain ⟨hd, hds⟩ := List.nodup_cons.1 hids
    obtain ⟨hle, hzero⟩ := ih hds fun d hd => hnodup d (List.mem_cons_of_mem _ hd)
    have hpiece := @count_pieces_le _ _ c d n (hnodup d List.mem_cons_self)
    rw [List.flatMap_cons, List.count_append]
    by_cases hn : n = d.1.notification
    · rw [if_pos hn] at hpiece
      have htail := hzero (hn ▸ hd)
      refine ⟨by omega, fun hnot => absurd ?_ hnot⟩
      rw [hn]
      exact List.mem_cons_self
    · rw [if_neg hn] at hpiece
      refine ⟨by omega, fun hnot => ?_⟩
      have htail := hzero fun h => hnot (List.mem_cons_of_mem _ h)
      omega

omit [DecidableEq κ] in
theorem mem_deliveries : (env, conns) ∈ deliveries r es ↔ .snapshot r env conns ∈ es := by
  rw [deliveries, List.mem_filterMap]
  constructor
  · rintro ⟨e, he, hd⟩
    cases e with
    | snapshot r' env' conns' =>
      simp only [Event.delivery?] at hd
      split at hd
      · next hr =>
        cases hd
        exact hr ▸ he
      · cases hd
    | _ => cases hd
  · exact fun h => ⟨_, h, by simp [Event.delivery?]⟩

/-! ### Runs -/

theorem mapExact_of_reaches (h : (hubs ρ κ).Reaches System.Any State.start es s) : MapExact es s :=
  h.invariant ⟨fun _ _ _ => by simp [State.start, Conns.get, registered], fun _ _ h => by cases h⟩
    fun _ _ _ _ ih _ hs => ih.step hs

theorem handedOnce_of_reaches (h : (hubs ρ κ).Reaches System.Any State.start es s) :
    HandedOnce es s := by
  have hzero : ∀ r env, flow r ([] : List (Event ρ κ)) State.start env = 0 := fun _ _ => rfl
  refine h.invariant ⟨?_, ?_, ?_, ?_⟩ fun _ _ _ _ ih _ hs => ih.step hs
  · exact fun r env hpos => absurd hpos (by simp [hzero])
  · exact fun r env hpos => absurd hpos (by simp [hzero])
  · exact fun r env => by simp [hzero]
  · exact fun r env env' hpos => absurd hpos (by simp [hzero])

theorem writesExact_of_reaches (h : (hubs ρ κ).Reaches System.Any State.start es s) :
    WritesExact es s :=
  h.invariant ⟨fun _ _ => rfl, fun _ _ => by simp [State.start],
      fun _ _ _ => ⟨Nat.le_refl 0, fun _ => rfl⟩⟩
    fun _ _ _ _ ih _ hs => ih.step hs

/-- What a replica copies. -/
theorem snapshot_spec
    (h : (hubs ρ κ).Reaches System.Any State.start (newer ++ .snapshot r env conns :: older) s) :
    conns.Nodup ∧ (∀ c, c ∈ conns ↔ registered r env.userID c older = true) ∧
      env.notification.userID = env.userID := by
  obtain ⟨t, t', ht, -, hstep, -⟩ := h.cut
  obtain ⟨hloop, hnodup, hset, -⟩ := step_snapshot hstep
  refine ⟨hnodup, fun c => ?_, ?_⟩
  · rw [← (mapExact_of_reaches ht).exact, ← hset, List.mem_toFinset]
  · refine (handedOnce_of_reaches ht).user r env ?_
    simp only [flow, hloop, held_received, List.count_singleton_self]
    omega

/-- The deliveries of a replica are of different notifications, each to different connections. -/
theorem deliveries_distinct (h : (hubs ρ κ).Reaches System.Any State.start es s) (r : ρ) :
    ((deliveries r es).map fun d => d.1.notification.id).Nodup ∧ ∀ d ∈ deliveries r es, d.2.Nodup := by
  have honce := handedOnce_of_reaches h
  constructor
  · have hnodup : ((deliveries r es).map Prod.fst).Nodup :=
      List.nodup_iff_count_le_one.2 fun env =>
        le_trans (Nat.le_add_left _ _) (honce.once r env)
    have hpos : ∀ env ∈ (deliveries r es).map Prod.fst, 0 < flow r es s env := fun env henv =>
      lt_of_lt_of_le (List.count_pos_iff.2 henv) (Nat.le_add_left _ _)
    have hmap := List.Nodup.map_on (f := fun env : Envelope => env.notification.id)
      (fun env henv env' henv' => honce.distinct r env env' (hpos env henv) (hpos env' henv')) hnodup
    rwa [List.map_map] at hmap
  · rintro ⟨env, conns⟩ hd
    obtain ⟨newer, older, rfl⟩ := List.append_of_mem (mem_deliveries.1 hd)
    exact (snapshot_spec h).1

/-- A delivery comes to an end when its replica goes on. -/
theorem exists_finished (s : State ρ κ) (r : ρ) : ∃ es' s', (hubs ρ κ).Reaches System.Any s es' s' ∧
    (∀ e ∈ es', ∃ c n, e = .write r c n) ∧ (s'.replica r).loop.owed = [] := by
  generalize hlen : (s.replica r).loop.owed.length = n
  induction n generalizing s with
  | zero => exact ⟨[], s, .refl, by simp, List.length_eq_zero_iff.1 hlen⟩
  | succ n ih =>
    cases hloop : (s.replica r).loop with
    | waiting => simp [hloop] at hlen
    | received env => simp [hloop] at hlen
    | writing env conns =>
      cases conns with
      | nil => simp [hloop, pieces] at hlen
      | cons c conns =>
        have hs : ∃ s', step s (.write r c env.notification) = some s' := by simp [step, hloop]
        obtain ⟨s', hs⟩ := hs
        have hnext : (s'.replica r).loop.owed = pieces (env, conns) := by
          rw [step_replica hs r]
          simp [Event.effect, hloop, Loop.next]
        have hlen' : (s'.replica r).loop.owed.length = n := by
          rw [hloop, owed_writing] at hlen
          rw [hnext]
          simpa [pieces] using hlen
        obtain ⟨es', t, ht, hwrites, howed⟩ := ih s' hlen'
        have hfirst : (hubs ρ κ).Reaches System.Any s [.write r c env.notification] s' :=
          .step .refl trivial hs
        refine ⟨es' ++ [.write r c env.notification], t, hfirst.trans ht, fun e he => ?_, howed⟩
        obtain he | he := List.mem_append.1 he
        · exact hwrites e he
        · exact ⟨c, env.notification, List.mem_singleton.1 he⟩

/-- **Fan-out is exact**, in every run of any number of replicas. -/
theorem notification_fanout_exact (h : (hubs ρ κ).Reaches System.Any State.start es s) :
    FanOutExact es s := by
  have hwrites := writesExact_of_reaches h
  have hown : ∀ w ∈ s.written, ∃ env conns newer older,
      es = newer ++ .snapshot w.replica env conns :: older ∧ env.notification = w.notification ∧
      registered w.replica w.notification.userID w.conn older = true := by
    rintro ⟨r, c, n⟩ hw
    have hpos := List.count_pos_iff.2 hw
    have htried := hwrites.tried r (c, n)
    have hwritten := (hwrites.written r c n).1
    have hmem : (c, n) ∈ (deliveries r es).flatMap pieces := List.count_pos_iff.1 (by omega)
    obtain ⟨⟨env, conns⟩, hd, hpiece⟩ := List.mem_flatMap.1 hmem
    obtain ⟨hc, rfl⟩ := mem_pieces.1 hpiece
    obtain ⟨newer, older, rfl⟩ := List.append_of_mem (mem_deliveries.1 hd)
    obtain ⟨-, hconns, huser⟩ := snapshot_spec h
    refine ⟨env, conns, newer, older, rfl, rfl, ?_⟩
    rw [huser]
    exact (hconns c).1 hc
  refine ⟨?_, exists_finished s, ?_, hown, ?_, mapExact_of_reaches h⟩
  · rintro r env conns newer older rfl c hc hopen
    obtain ⟨hnodup, hconns, -⟩ := snapshot_spec h
    obtain ⟨hids, hall⟩ := deliveries_distinct h r
    have hclosed : c ∉ (s.replica r).closed := fun hmem => hopen ((hwrites.closed r c).1 hmem)
    have htried := hwrites.tried r (c, env.notification)
    have hle := (@count_flatMap_pieces_le κ _ c _ env.notification hids hall).1
    have hpos : 0 < ((deliveries r (newer ++ .snapshot r env conns :: older)).flatMap pieces).count
        (c, env.notification) := by
      refine List.count_pos_iff.2 (List.mem_flatMap.2 ⟨(env, conns), mem_deliveries.2 (by simp), ?_⟩)
      exact mem_pieces.2 ⟨(hconns c).2 hc, rfl⟩
    rw [(hwrites.written r c env.notification).2 hclosed]
    omega
  · rintro ⟨r, c, n⟩
    obtain ⟨hids, hall⟩ := deliveries_distinct h r
    have hle := (@count_flatMap_pieces_le κ _ c _ n hids hall).1
    have htried := hwrites.tried r (c, n)
    have hwritten := (hwrites.written r c n).1
    omega
  · intro r c userID honly n hw
    obtain ⟨env, conns, newer, older, rfl, -, hreg⟩ := hown _ hw
    exact honly _ (List.mem_append_right _ (List.mem_cons_of_mem _ (register_mem_of_registered hreg)))

/-! ### Two replicas -/

/-- A request that notifies the user 1. -/
def greeting : InternalNotifyRequest := ⟨1, lit "share", lit "Shared", lit "A file was shared", none⟩

/-- The user has a connection to each of two replicas, and another user one to the first.  The second
replica publishes; a connection is registered after the first has copied the map. -/
theorem notification_fanout_exact_two :
    ∃ (es : List (Event ℕ ℕ)) (s : State ℕ ℕ), (hubs ℕ ℕ).Reaches System.Any State.start es s ∧
      s.written.length = 2 ∧ FanOutExact es s := by
  obtain ⟨n, hn⟩ : ∃ n, greeting.notification 100 0 = some n := ⟨_, rfl⟩
  obtain ⟨s, hs, hP⟩ := (hubs ℕ ℕ).exists_reaches (fun _ _ => true) State.start
    [.subscribe 0, .subscribe 1, .register 0 1 10, .register 0 2 11, .register 1 1 12,
      .internalNotify greeting 100 0, .publish ⟨1, n⟩, .receive 0 ⟨1, n⟩, .snapshot 0 ⟨1, n⟩ [10],
      .register 0 1 13, .write 0 10 n, .receive 1 ⟨1, n⟩, .unregister 0 1 10, .snapshot 1 ⟨1, n⟩ [12],
      .write 1 12 n] (fun s => s.written.length = 2) (by
        obtain rfl := Option.some.inj hn
        decide)
  have h := hs.mono (D := System.Any) fun _ _ _ => trivial
  exact ⟨_, s, h, of_decide_eq_true hP, notification_fanout_exact h⟩

end FanOut

end NotifySvc

end Optiflow
