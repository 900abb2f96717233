import Optiflow.Proof.Notifications

/-!
# The hub under the requests

Every run of notify-svc's requests is one of the hub's model: what `internalNotify` does is the hub's
events, in the same order, and the envelopes that are still to be published are those of the requests
that have created their row and not yet called `publish` (`requests_run_hub`).  So what holds of every
run of the hubs holds of the notifications that are created by requests.
-/

namespace Optiflow

open Interleave

namespace NotifySvc

/-! ## The events of a run -/

/-- The envelope that a program is about to publish. -/
def publishes? : Prog Stmt Reply → Option Envelope
  | .call (.publish env) _ => some env
  | _ => none

section Events

variable (ρ κ : Type)

/-- What the hub's model sees of a step. -/
def hubEvent : ServiceStep → Option (Event ρ κ)
  | .call _ (.internalNotify _ body) _ (.create _) (.ok n) =>
    (decodeInternalNotify body).map fun req => .internalNotify req n.id n.createdAt
  | .call _ _ _ (.publish env) true => some (.publish env)
  | .call _ _ _ (.publish env) false => some (.publishFails env)
  | _ => none

end Events

/-! ## The programs -/

/-- The row that a request inserts is the one that it publishes next, and it publishes nothing else. -/
def Hands (q : Request) : {α : Type} → Stmt α → (α → Prog Stmt Reply) → Prop
  | _, .create m, k => ∃ secret body req, q = .internalNotify secret body ∧
      decodeInternalNotify body = some req ∧
      (∀ id now, req.notification id now = some (inserted m id now)) ∧
      (∀ e, publishes? (k (.error e)) = none) ∧ ∀ n, publishes? (k (.ok n)) = some ⟨req.userID, n⟩
  | _, _, k => ∀ a, publishes? (k a) = none

/-- All calls of a program are of that kind. -/
def Announces (q : Request) : Prog Stmt Reply → Prop
  | .ret _ => True
  | .call e k => Hands q e k ∧ ∀ a, Announces q (k a)

theorem publishes?_error (status : ℕ) (message : String) :
    publishes? (.ret (ErrorReply.error status message)) = none := rfl

section Programs

variable {internalSecret : GoString} {q : Request}

theorem announces_answer (status : ℕ) (message : String) :
    Announces q (.ret (ErrorReply.error status message)) := trivial

theorem announces_listNotifications (userID : UUID) :
    Announces q (listNotifications userID .ret) := by
  refine ⟨fun a => ?_, fun a => ?_⟩
  · exact Early.foundOr (P := fun p => publishes? p = none) publishes?_error fun _ _ => rfl
  · exact Early.foundOr (P := Announces q) announces_answer fun _ _ => trivial

theorem announces_markRead (userID : UUID) (id : GoString) :
    Announces q (markRead userID id .ret) := by
  refine Early.parseID (P := Announces q) announces_answer fun id _ => ⟨fun a => ?_, fun a => ?_⟩
  · exact Early.foundOr (P := fun p => publishes? p = none) publishes?_error fun _ _ =>
      Early.failIf (P := fun p => publishes? p = none) publishes?_error fun _ => rfl
  · exact Early.foundOr (P := Announces q) announces_answer fun _ _ =>
      Early.failIf (P := Announces q) announces_answer fun _ => trivial

theorem announces_internalNotify (secret body : GoString) :
    Announces (.internalNotify secret body) (internalNotify internalSecret secret body .ret) := by
  refine Early.failIf (P := Announces _) announces_answer fun _ => ?_
  refine Early.decodeBody (P := Announces _) announces_answer fun req hreq => ?_
  refine Early.failIf (P := Announces _) announces_answer fun hvalid => ⟨?_, fun a => ?_⟩
  · refine ⟨secret, body, req, rfl, hreq, fun id now => ?_, fun _ => rfl, fun n => rfl⟩
    rw [InternalNotifyRequest.notification, if_neg hvalid]
    rfl
  · exact Early.foundOr (P := Announces _) announces_answer fun n _ =>
      ⟨fun _ => rfl, fun _ => trivial⟩

theorem announces_handler (q : Request) : Announces q ((machine internalSecret).handler q) := by
  cases q with
  | listNotifications userID => exact announces_listNotifications userID
  | markRead userID id => exact announces_markRead userID id
  | internalNotify secret body => exact announces_internalNotify secret body

/-- A request does not begin by publishing. -/
theorem publishes?_handler (q : Request) :
    publishes? ((machine internalSecret).handler q) = none := by
  cases q with
  | listNotifications userID => rfl
  | markRead userID id =>
    exact Early.parseID (P := fun p => publishes? p = none) publishes?_error fun _ _ => rfl
  | internalNotify secret body =>
    refine Early.failIf (P := fun p => publishes? p = none) publishes?_error fun _ => ?_
    refine Early.decodeBody (P := fun p => publishes? p = none) publishes?_error fun _ _ => ?_
    exact Early.failIf (P := fun p => publishes? p = none) publishes?_error fun _ => rfl

end Programs

/-! ## The simulation -/

/-- How many threads are about to publish the envelope. -/
def publishers (env : Envelope) (threads : List (Thread Request Stmt Reply)) : ℕ :=
  threads.countP fun th => publishes? th.prog = some env

variable {ρ κ : Type} [DecidableEq ρ] [DecidableEq κ]

/-- The hub's state that goes with a configuration of the requests. -/
structure Follows (c : Service) (s : State ρ κ) : Prop where
  ids : s.ids = c.store.notifications.births.map Notification.id
  publishing : ∀ env, s.publishing.count env = publishers env c.threads

section Simulation

variable {internalSecret : GoString} {c : Service} {s : State ρ κ}

/-- The publishers after a thread has gone on. -/
theorem publishers_set {threads : List (Thread Request Stmt Reply)} {i : ℕ}
    {th t : Thread Request Stmt Reply} (hi : threads[i]? = some th) (env : Envelope) :
    publishers env (threads.set i t) + (decide (publishes? th.prog = some env)).toNat =
      publishers env threads + (decide (publishes? t.prog = some env)).toNat := by
  obtain ⟨hlt, hget⟩ := List.getElem?_eq_some_iff.1 hi
  have hpos : publishes? th.prog = some env → 0 < publishers env threads := fun h =>
    List.countP_pos_iff.2 ⟨th, List.mem_of_getElem? hi, decide_eq_true h⟩
  unfold publishers at hpos ⊢
  rw [List.countP_set hlt, hget]
  by_cases h : publishes? th.prog = some env <;> by_cases h' : publishes? t.prog = some env <;>
    simp only [h, h', decide_true, decide_false, if_true, Bool.false_eq_true, if_false,
      Bool.toNat_true, Bool.toNat_false, forall_const] at hpos ⊢ <;> omega

omit [DecidableEq ρ] [DecidableEq κ] in
/-- A call that the hub does not see. -/
theorem Follows.quiet (h : Follows c s) {st : Store} {i : ℕ} {q : Request} {p p' : Prog Stmt Reply}
    {tr : List ServiceStep} (hi : c.threads[i]? = some ⟨q, p⟩) (hp : publishes? p = none)
    (hp' : publishes? p' = none) (hst : st.notifications.births = c.store.notifications.births) :
    Follows (⟨st, c.threads.set i ⟨q, p'⟩, tr⟩ : Service) s := by
  refine ⟨by rw [h.ids, hst], fun env => ?_⟩
  have hset := publishers_set (t := ⟨q, p'⟩) hi env
  simp only [hp, hp', reduceCtorEq, decide_false, Bool.toNat_false, Nat.add_zero] at hset
  rw [h.publishing, hset]

/-- The INSERT of a request is an `internalNotify` of the hub. -/
theorem Follows.create (h : Follows c s) {o : Oracle} {i : ℕ} {q : Request} {m : Notification}
    {k : Except DbError Notification → Prog Stmt Reply}
    (hi : c.threads[i]? = some ⟨q, .call (.create m) k⟩) (hhands : Hands q (.create m) k)
    (hu : ¬c.store.notifications.Used (key (inserted m o.uuid c.store.now))) {tr : List ServiceStep} :
    ∃ e s', hubEvent ρ κ (.call c.store q o (.create m) (.ok (inserted m o.uuid c.store.now))) = some e ∧
      (hubs ρ κ).step s e = some s' ∧
      Follows (⟨{ c.store with notifications := c.store.notifications.insert _ hu },
        c.threads.set i ⟨q, k (.ok (inserted m o.uuid c.store.now))⟩, tr⟩ : Service) s' := by
  obtain ⟨secret, body, req, rfl, hreq, hnotification, -, hok⟩ := hhands
  have hfresh : o.uuid ∉ s.ids := by
    rw [h.ids]
    exact hu
  refine ⟨.internalNotify req o.uuid c.store.now,
    { s with
      ids := o.uuid :: s.ids
      publishing := ⟨req.userID, inserted m o.uuid c.store.now⟩ :: s.publishing }, ?_, ?_, ?_, ?_⟩
  · simp only [hubEvent, hreq, Option.map_some]
    rfl
  · simp only [hubs, step, if_neg hfresh, hnotification, Option.map_some]
  · rw [h.ids]
    rfl
  · intro env
    have hset := publishers_set
      (t := ⟨.internalNotify secret body, k (.ok (inserted m o.uuid c.store.now))⟩) hi env
    rw [hok] at hset
    simp only [publishes?, reduceCtorEq, decide_false, Bool.toNat_false, Nat.add_zero] at hset
    rw [List.count_cons, h.publishing, hset]
    by_cases henv : (⟨req.userID, inserted m o.uuid c.store.now⟩ : Envelope) = env
    · simp [henv]
    · simp [henv]

/-- A `publish` of a request is one of the hub. -/
theorem Follows.publish (h : Follows c s) {o : Oracle} {i : ℕ} {q : Request} {env : Envelope}
    {k : Bool → Prog Stmt Reply} (hi : c.threads[i]? = some ⟨q, .call (.publish env) k⟩)
    (hhands : Hands q (.publish env) k) {a : Bool} {st : Store}
    (hst : st.notifications.births = c.store.notifications.births) {tr : List ServiceStep} :
    ∃ e s', hubEvent ρ κ (.call c.store q o (.publish env) a) = some e ∧
      (hubs ρ κ).step s e = some s' ∧
      Follows (⟨st, c.threads.set i ⟨q, k a⟩, tr⟩ : Service) s' := by
  have hmem : env ∈ s.publishing := by
    refine List.count_pos_iff.1 ((h.publishing env).symm ▸ ?_)
    exact List.countP_pos_iff.2 ⟨_, List.mem_of_getElem? hi, decide_eq_true rfl⟩
  have hpublishing : ∀ env', (s.publishing.erase env).count env' =
      publishers env' (c.threads.set i ⟨q, k a⟩) := by
    intro env'
    have hset := publishers_set (t := ⟨q, k a⟩) hi env'
    rw [show publishes? (k a) = none from hhands a] at hset
    simp only [publishes?, reduceCtorEq, decide_false, Bool.toNat_false, Nat.add_zero,
      Option.some.injEq] at hset
    rw [List.count_erase, h.publishing, ← hset]
    by_cases henv : env = env'
    · simp [henv]
    · simp [henv]
  cases a with
  | true =>
    refine ⟨.publish env, _, by cases q <;> rfl, if_pos hmem, by rw [hst]; exact h.ids, hpublishing⟩
  | false =>
    refine ⟨.publishFails env, _, by cases q <;> rfl, if_pos hmem, by rw [hst]; exact h.ids,
      hpublishing⟩

end Simulation

/-! ## Every run -/

section Run

variable {internalSecret : GoString} {c : Service} {i : ℕ} {q : Request} {o : Oracle} {α : Type}
  {e : Stmt α} {k : α → Prog Stmt Reply} {a : α} {st : Store}

variable (ρ κ) in
/-- The hub has come as far as the requests. -/
def Simulated (c : Service) : Prop :=
  ∃ s, (hubs ρ κ).Reaches System.Any .start (c.trace.filterMap (hubEvent ρ κ)) s ∧ Follows c s

/-- One call of a request. -/
theorem Simulated.call (h : Simulated ρ κ c) (hi : c.threads[i]? = some ⟨q, .call e k⟩)
    (hhands : Hands q e k) (hx : exec o e c.store = some (a, st)) :
    Simulated ρ κ ⟨st, c.threads.set i ⟨q, k a⟩, .call c.store q o e a :: c.trace⟩ := by
  obtain ⟨s, hs, hfollows⟩ := h
  -- A call that the hub sees takes it one step on, and any other leaves it where it is.
  have seen : (∃ ev s', hubEvent ρ κ (.call c.store q o e a) = some ev ∧
      (hubs ρ κ).step s ev = some s' ∧
      Follows (⟨st, c.threads.set i ⟨q, k a⟩, .call c.store q o e a :: c.trace⟩ : Service) s') →
      Simulated ρ κ ⟨st, c.threads.set i ⟨q, k a⟩, .call c.store q o e a :: c.trace⟩ := by
    rintro ⟨ev, s', hev, hstep, hfollows'⟩
    refine ⟨s', ?_, hfollows'⟩
    rw [List.filterMap_cons_some hev]
    exact .step hs trivial hstep
  have unseen : hubEvent ρ κ (.call c.store q o e a) = none → publishes? (.call e k) = none →
      publishes? (k a) = none → st.notifications.births = c.store.notifications.births →
      Simulated ρ κ ⟨st, c.threads.set i ⟨q, k a⟩, .call c.store q o e a :: c.trace⟩ := by
    intro hev hp hp' hst
    refine ⟨s, ?_, hfollows.quiet hi hp hp' hst⟩
    rw [List.filterMap_cons_none hev]
    exact hs
  cases e with
  | notifications userID =>
    obtain ⟨rfl, -⟩ := exec_notifications hx
    exact unseen (by cases q <;> rfl) rfl (hhands a) rfl
  | setRead id userID =>
    obtain ⟨-, rfl⟩ | ⟨-, rfl⟩ := exec_setRead hx
    · exact unseen (by cases q <;> rfl) rfl (hhands a) rfl
    · exact unseen (by cases q <;> rfl) rfl (hhands a) rfl
  | create m =>
    obtain ⟨rfl, rfl⟩ | ⟨hu, rfl, rfl⟩ := exec_create hx
    · obtain ⟨secret, body, req, rfl, -, -, herror, -⟩ := hhands
      exact unseen rfl rfl (herror _) rfl
    · exact seen (hfollows.create hi hhands hu)
  | publish env =>
    have hst : st.notifications.births = c.store.notifications.births := by
      rw [(exec_publish hx).1]
    exact seen (hfollows.publish hi hhands hst)

end Run

variable (ρ κ) in
/-- **The hub under the requests**: what the requests of a run have done is a run of the hubs; the ids
that the hub has seen are those of the rows, and the envelopes that it has still to publish are those of
the requests that are about to. -/
theorem requests_run_hub (internalSecret : GoString) {c : Service}
    (h : (machine internalSecret).Reaches Machine.anySchedule (.init .fresh) c) :
    ∃ s : State ρ κ, (hubs ρ κ).Reaches System.Any .start (c.trace.filterMap (hubEvent ρ κ)) s ∧
      s.ids = c.store.notifications.births.map Notification.id ∧
      ∀ env, s.publishing.count env = c.threads.countP fun th => publishes? th.prog = some env := by
  have key : (∀ th ∈ c.threads, Announces th.origin th.prog) ∧ Simulated ρ κ c := by
    refine h.induct (C := fun _ => True)
      (I := fun c => (∀ th ∈ c.threads, Announces th.origin th.prog) ∧ Simulated ρ κ c)
      ⟨fun _ hth => absurd hth List.not_mem_nil, .start, .refl, rfl, fun _ => rfl⟩
      (fun _ _ => trivial) ?_
    rintro c m c' ⟨hann, hsim⟩ - hn -
    obtain ⟨q, s, -, hq, rfl⟩ | ⟨i, o, q, α, e, k, a, s, -, hi, hx, rfl⟩ | ⟨v, s, -, hv, rfl⟩ :=
      Machine.next_cases hn
    · obtain ⟨t, ht, hfollows⟩ := hsim
      obtain rfl := Option.some.inj hq
      refine ⟨fun th hth => ?_, t, ht, hfollows.ids, fun env => ?_⟩
      · rcases List.mem_append.1 hth with hth | hth
        · exact hann th hth
        · exact List.mem_singleton.1 hth ▸ announces_handler q
      · rw [hfollows.publishing, publishers, publishers, List.countP_append, List.countP_singleton,
          publishes?_handler]
        rfl
    · obtain ⟨hhands, hk⟩ := hann _ (List.mem_of_getElem? hi)
      refine ⟨fun th hth => ?_, hsim.call hi hhands hx⟩
      rcases List.mem_or_eq_of_mem_set hth with hth | rfl
      · exact hann th hth
      · exact hk a
    · obtain ⟨t, ht, hfollows⟩ := hsim
      obtain rfl := Option.some.inj hv
      exact ⟨hann, t, ht, hfollows.ids, hfollows.publishing⟩
  obtain ⟨s, hs, hfollows⟩ := key.2
  exact ⟨s, hs, hfollows.ids, hfollows.publishing⟩

/-- A request that has created its row, with the envelope at the hub. -/
theorem requests_run_hub_created : ∃ (c : Service) (s : State Bool ℕ),
    (machine (lit "s")).Reaches Machine.anySchedule (.init .fresh) c ∧
    (hubs Bool ℕ).Reaches System.Any .start (c.trace.filterMap (hubEvent Bool ℕ)) s ∧
    s.ids = [7] ∧ s.publishing.count ⟨1, ready⟩ = 1 := by
  obtain ⟨c, hc, hP⟩ := Machine.exists_reaches (machine (lit "s")) Machine.anySchedule (.init .fresh)
    (fun c => c.store.notifications.births.map Notification.id = [7] &&
      (c.threads.countP fun th => publishes? th.prog = some ⟨1, ready⟩) = 1)
    (sendAndRead.take 3) (by decide +kernel)
  obtain ⟨hids, hcount⟩ := by simpa only [Bool.and_eq_true, decide_eq_true_eq] using hP
  obtain ⟨s, hs, hids', hcount'⟩ := requests_run_hub Bool ℕ (lit "s") hc
  exact ⟨c, s, hc, hs, hids'.trans hids, (hcount' _).trans hcount⟩

end NotifySvc

end Optiflow
