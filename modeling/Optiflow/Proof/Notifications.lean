import Optiflow.Lib.History
import Optiflow.Lib.Later
import Optiflow.Model.Notifications
import Optiflow.Proof.Answers

/-!
# Notifications are kept

The rows of notify-svc are what its accepted requests have made them: a row for every notification that
a service with the secret has sent, unchanged except for the flag that its owner has set since
(`notifications_kept`).  Whoever asks for the list after a notification was answered 201 gets it, unless
fifty others are at least as new (`notification_listed`).
-/

namespace Optiflow

open Interleave

namespace NotifySvc

/-! ## What is asked for -/

/-- The notification that a request asks for, as the row with this id and time. -/
def asked (internalSecret secret body : GoString) (id : UUID) (now : Time) : Option Notification :=
  if secret = internalSecret then (decodeInternalNotify body).bind fun req => req.notification id now
  else none

/-- Which calls a request makes. -/
def Asks (internalSecret : GoString) (q : Request) : {α : Type} → Stmt α → Prop
  | _, .notifications _ => True
  | _, .setRead id userID => ∃ text, q = .markRead userID text ∧ UUID.parse text = some id
  | _, .create n => ∃ secret body, q = .internalNotify secret body ∧
      ∀ id now, asked internalSecret secret body id now = some (inserted n id now)
  | _, .publish _ => True

section Handlers

variable {internalSecret : GoString} {C : ServiceStep → Prop} {s : Store} {q : Request}

/-- The outline that says which calls a request makes. -/
abbrev asks (internalSecret : GoString) (C : ServiceStep → Prop) : Outline (machine internalSecret) :=
  Outline.calls (machine internalSecret) (Asks internalSecret) C

theorem asks_answer (status : ℕ) (message : String) :
    (asks internalSecret C).post q (.error status message) := trivial

theorem asks_listNotifications {userID : UUID} : (asks internalSecret C).Safe
    (.listNotifications userID) (listNotifications userID .ret) s :=
  fun _ _ _ => ⟨trivial, fun _ _ _ _ _ _ => safe_foundOr asks_answer fun _ _ => trivial⟩

theorem asks_markRead {userID : UUID} {id : GoString} : (asks internalSecret C).Safe
    (.markRead userID id) (markRead userID id .ret) s := by
  refine safe_parseID asks_answer fun n hid _ _ _ => ⟨⟨id, rfl, hid⟩, fun _ _ _ _ _ _ => ?_⟩
  exact safe_foundOr asks_answer fun _ _ => safe_failIf asks_answer fun _ => trivial

theorem asks_internalNotify {secret body : GoString} : (asks internalSecret C).Safe
    (.internalNotify secret body) (internalNotify internalSecret secret body .ret) s := by
  refine safe_failIf asks_answer fun hsecret => safe_decodeBody asks_answer fun req hreq => ?_
  refine safe_failIf asks_answer fun hvalid _ _ _ => ⟨⟨secret, body, rfl, fun id now => ?_⟩, ?_⟩
  · rw [asked, if_pos (not_not.1 hsecret), hreq, Option.bind_some, InternalNotifyRequest.notification,
      if_neg hvalid]
    rfl
  · exact fun _ _ _ _ _ _ => safe_foundOr asks_answer fun n _ _ _ _ =>
      ⟨trivial, fun _ _ _ _ _ _ => trivial⟩

theorem asks_valid (internalSecret : GoString) : (asks internalSecret fun _ => True).Valid := by
  refine Outline.calls_valid fun {q _} _ s => ?_
  cases q with
  | listNotifications userID => exact asks_listNotifications
  | markRead userID id => exact asks_markRead
  | internalNotify secret body => exact asks_internalNotify

end Handlers

/-! ## The rows and the requests -/

/-- Whether a call is the INSERT. -/
def Stmt.isCreate {α : Type} : Stmt α → Bool
  | .create _ => true
  | _ => false

/-- Whether a call is the UPDATE. -/
def Stmt.isSetRead {α : Type} : Stmt α → Bool
  | .setRead _ _ => true
  | _ => false

/-- The step creates the row for a request that was allowed to ask for it. -/
def Creates (internalSecret : GoString) (n : Notification) : ServiceStep → Prop
  | .call _ (.internalNotify secret body) _ (.create _) a => a = .ok n ∧
      asked internalSecret secret body n.id n.createdAt = some n
  | _ => False

/-- The step sets the flag of the row for its owner. -/
def setsRead (n : Notification) : ServiceStep → Bool
  | .call _ (.markRead userID id) _ (.setRead _ _) (.ok _) =>
    userID = n.userID && UUID.parse id = some n.id
  | _ => false

/-- The row as the steps since its creation have left it. -/
def Notification.after (n : Notification) (newer : List ServiceStep) : Notification :=
  { n with read := newer.any (setsRead n) }

/-- The rows that the steps of a trace have made, the newest step of which comes first. -/
def Made (internalSecret : GoString) (tr : List ServiceStep) (n : Notification) : Prop :=
  ∃ newer older st n₀, tr = newer ++ st :: older ∧ Creates internalSecret n₀ st ∧ n = n₀.after newer

section Rows

variable {internalSecret : GoString} {tr : List ServiceStep} {st : ServiceStep} {n : Notification}
  {s s' : Store} {q : Request} {o : Oracle}

/-- What one step adds to what a trace has made. -/
theorem made_cons : Made internalSecret (st :: tr) n ↔
    (∃ n₀, Creates internalSecret n₀ st ∧ n = n₀.after []) ∨
      ∃ newer older st' n₀, tr = newer ++ st' :: older ∧ Creates internalSecret n₀ st' ∧
        n = n₀.after (st :: newer) := by
  constructor
  · rintro ⟨newer, older, st', n₀, htr, hcreates, rfl⟩
    cases newer with
    | nil =>
      obtain ⟨rfl, rfl⟩ := List.cons.inj htr
      exact Or.inl ⟨n₀, hcreates, rfl⟩
    | cons x newer =>
      obtain ⟨rfl, rfl⟩ := List.cons.inj htr
      exact Or.inr ⟨newer, older, st', n₀, rfl, hcreates, rfl⟩
  · rintro (⟨n₀, hcreates, rfl⟩ | ⟨newer, older, st', n₀, rfl, hcreates, rfl⟩)
    · exact ⟨[], tr, st, n₀, rfl, hcreates, rfl⟩
    · exact ⟨st :: newer, older, st', n₀, rfl, hcreates, rfl⟩

/-- A step that neither creates a row nor sets a flag. -/
theorem made_cons_of_quiet (hst : ∀ n, ¬Creates internalSecret n st) (hread : ∀ n, setsRead n st = false) :
    Made internalSecret (st :: tr) n ↔ Made internalSecret tr n := by
  rw [made_cons]
  refine (or_iff_right fun ⟨n₀, hn₀, _⟩ => hst n₀ hn₀).trans ?_
  simp only [Made, Notification.after, List.any_cons, hread, Bool.false_or]

/-- Only an INSERT creates a row. -/
theorem not_creates {α : Type} {e : Stmt α} {a : α} (he : e.isCreate = false) :
    ¬Creates internalSecret n (.call s q o e a) := by
  cases e with
  | create m => cases he
  | _ => cases q <;> exact id

/-- Only an UPDATE that is answered sets a flag. -/
theorem setsRead_eq_false {α : Type} {e : Stmt α} {a : α} (he : e.isSetRead = false) :
    setsRead n (.call s q o e a) = false := by
  cases e with
  | setRead id userID => cases he
  | _ => cases q <;> rfl

theorem creates_of_create {m n₀ : Notification} (hpre : Asks internalSecret q (.create m))
    (hn₀ : n₀ = inserted m o.uuid s.now) :
    Creates internalSecret n₀ (.call s q o (.create m) (.ok n₀)) := by
  obtain ⟨secret, body, rfl, hasked⟩ := hpre
  exact ⟨rfl, hn₀ ▸ hasked o.uuid s.now⟩

theorem setsRead_eq {id userID : UUID} {k : ℕ} (hpre : Asks internalSecret q (.setRead id userID))
    (n : Notification) : setsRead n (.call s q o (.setRead id userID) (.ok k)) =
      (decide (n.id = id) && decide (n.userID = userID)) := by
  obtain ⟨text, rfl, hid⟩ := hpre
  simp only [setsRead, hid, Option.some.injEq]
  rw [Bool.and_comm]
  simp only [eq_comm]

/-- An UPDATE after the others. -/
theorem after_setRead {id userID : UUID} (hpre : Asks internalSecret q (.setRead id userID)) (k : ℕ)
    (n₀ : Notification) (newer : List ServiceStep) :
    n₀.after (.call s q o (.setRead id userID) (.ok k) :: newer) =
      if decide ((n₀.after newer).id = id ∧ (n₀.after newer).userID = userID) = true then
        seen (n₀.after newer)
      else n₀.after newer := by
  have hstep := setsRead_eq (s := s) (o := o) (k := k) hpre n₀
  by_cases hp : (n₀.after newer).id = id ∧ (n₀.after newer).userID = userID
  · rw [decide_eq_true (show n₀.id = id from hp.1), decide_eq_true (show n₀.userID = userID from hp.2),
      Bool.true_and] at hstep
    rw [if_pos (decide_eq_true hp), Notification.after, List.any_cons, hstep, Bool.true_or]
    rfl
  · rw [← Bool.decide_and, decide_eq_false (show ¬(n₀.id = id ∧ n₀.userID = userID) from hp)] at hstep
    rw [if_neg fun hdec => hp (of_decide_eq_true hdec), Notification.after, List.any_cons, hstep, Bool.false_or]
    rfl

/-- One call keeps the rows in step with the trace. -/
theorem made_call {α : Type} {e : Stmt α} {a : α} (h : ∀ n, n ∈ s.notifications ↔ Made internalSecret tr n)
    (hpre : Asks internalSecret q e) (hx : exec o e s = some (a, s')) :
    n ∈ s'.notifications ↔ Made internalSecret (.call s q o e a :: tr) n := by
  cases e with
  | notifications userID =>
    obtain ⟨rfl, -⟩ := exec_notifications hx
    exact (h n).trans (made_cons_of_quiet (fun _ => not_creates rfl) fun _ => setsRead_eq_false rfl).symm
  | setRead id userID =>
    obtain ⟨rfl, rfl⟩ | ⟨rfl, rfl⟩ := exec_setRead hx
    · have hfails : ∀ n, setsRead n (.call s' q o (.setRead id userID) (.error .other)) = false :=
        fun _ => by cases q <;> rfl
      exact (h n).trans (made_cons_of_quiet (fun _ => not_creates rfl) hfails).symm
    · rw [made_cons, Table.mem_modify key_seen]
      refine Iff.trans ?_ (or_iff_right fun ⟨n₀, hn₀, _⟩ => not_creates rfl hn₀).symm
      constructor
      · rintro ⟨m, hm, rfl⟩
        obtain ⟨newer, older, st', n₀, htr, hcreates, rfl⟩ := (h m).1 hm
        exact ⟨newer, older, st', n₀, htr, hcreates, (after_setRead hpre _ _ _).symm⟩
      · rintro ⟨newer, older, st', n₀, htr, hcreates, rfl⟩
        exact ⟨n₀.after newer, (h _).2 ⟨newer, older, st', n₀, htr, hcreates, rfl⟩,
          after_setRead hpre _ _ _⟩
  | create m =>
    obtain ⟨rfl, rfl⟩ | ⟨hu, rfl, rfl⟩ := exec_create hx
    · refine (h n).trans (made_cons_of_quiet (fun n₀ hc => ?_) fun _ => setsRead_eq_false rfl).symm
      obtain ⟨secret, body, rfl, -⟩ := hpre
      cases hc.1
    · have hnew := creates_of_create (s := s) (o := o) hpre rfl
      rw [made_cons, Table.mem_insert]
      refine or_congr ⟨?_, ?_⟩ ?_
      · rintro rfl
        exact ⟨_, hnew, rfl⟩
      · rintro ⟨n₀, hn₀, rfl⟩
        obtain ⟨secret, body, rfl, -⟩ := hpre
        obtain rfl := Except.ok.inj hn₀.1
        rfl
      · rw [h n]
        simp only [Made, Notification.after, List.any_cons, setsRead_eq_false (e := .create m) rfl,
          Bool.false_or]
  | publish env =>
    rw [(exec_publish hx).1]
    exact (h n).trans (made_cons_of_quiet (fun _ => not_creates rfl) fun _ => setsRead_eq_false rfl).symm

end Rows

/-- **Notifications are kept**: in every state of every interleaving, the rows are those that requests
with the secret have asked for, each with the flag that its owner has set since, or not. -/
theorem notifications_kept (internalSecret : GoString) {c : Service}
    (h : (machine internalSecret).Reaches Machine.anySchedule (.init .fresh) c) (n : Notification) :
    n ∈ c.store.notifications ↔ ∃ newer older st n₀, c.trace = newer ++ st :: older ∧
      Creates internalSecret n₀ st ∧ n = { n₀ with read := newer.any (setsRead n₀) } := by
  have key : ∀ n, n ∈ c.store.notifications ↔ Made internalSecret c.trace n := by
    refine (asks_valid internalSecret).carry
      (J := fun tr s => ∀ n, n ∈ s.notifications ↔ Made internalSecret tr n) h
      (Outline.good_init trivial) (fun _ _ => trivial) (fun n => ?_) ?_ ?_ ?_
    · refine iff_of_false Table.not_mem_empty ?_
      rintro ⟨newer, older, st, n₀, htr, -⟩
      exact absurd htr (by simp [Config.init])
    · intro tr q s s' hJ _ _ hq n
      obtain rfl := Option.some.inj hq
      exact (hJ n).trans (made_cons_of_quiet (fun _ => id) fun _ => rfl).symm
    · exact fun hJ _ hpre _ hx n => made_call hJ hpre hx
    · intro tr now s s' hJ _ _ hv n
      obtain rfl := Option.some.inj hv
      exact (hJ n).trans (made_cons_of_quiet (fun _ => id) fun _ => rfl).symm
  exact key n

/-! ### A picture -/

def noticeBody : GoString :=
  (PushRequest.marshal ⟨1, NotificationType.storage.value, lit "Ready", lit "a.png is ready", none⟩)

def ready : Notification := ⟨7, 1, .storage, lit "Ready", lit "a.png is ready", none, false, 5⟩

/-- A service sends a notification, and its user reads it. -/
def sendAndRead : List (Move Request Oracle Time) :=
  [.env 5, .start (.internalNotify (lit "s") noticeBody), .step 0 { uuid := 7 }, .step 0 {},
    .start (.markRead 1 (UUID.string 7)), .step 1 {}]

theorem notifications_kept_read : ∃ c : Service,
    (machine (lit "s")).Reaches Machine.anySchedule (.init .fresh) c ∧ seen ready ∈ c.store.notifications ∧
    ∃ newer older st n₀, c.trace = newer ++ st :: older ∧ Creates (lit "s") n₀ st ∧
      seen ready = { n₀ with read := newer.any (setsRead n₀) } := by
  obtain ⟨c, hc, hP⟩ := Machine.exists_reaches (machine (lit "s")) Machine.anySchedule (.init .fresh)
    (fun c => c.store.notifications.rows.contains (seen ready)) sendAndRead (by decide +kernel)
  have hmem : seen ready ∈ c.store.notifications := List.contains_iff_mem.1 hP
  exact ⟨c, hc, hmem, (notifications_kept (lit "s") hc (seen ready)).1 hmem⟩

/-! ## Later lists -/

/-- The notification has a row, with its flag set if `b` says so. -/
def Kept (n : Notification) (b : Bool) (rows : Table Notification) : Prop :=
  ∃ read, { n with read := read } ∈ rows ∧ (b = true → read = true)

/-- A list that has the notification, or fifty others that are at least as new. -/
def Lists (n : Notification) (b : Bool) (l : List Notification) : Prop :=
  (∃ read, { n with read := read } ∈ l ∧ (b = true → read = true)) ∨
    l.length = NotificationCache.listLimit ∧ ∀ m ∈ l, n.createdAt ≤ m.createdAt

section Lists

variable {internalSecret : GoString} {n : Notification} {b : Bool} {s s' : Store} {o : Oracle}

theorem kept_of_mem {m : Notification} {rows : Table Notification} (h : m ∈ rows) :
    Kept m m.read rows := ⟨m.read, h, id⟩

theorem kept_exec {α : Type} {e : Stmt α} {a : α} (h : Kept n b s.notifications)
    (hx : exec o e s = some (a, s')) : Kept n b s'.notifications := by
  obtain ⟨read, hm, hread⟩ := h
  cases e with
  | notifications userID =>
    obtain ⟨rfl, -⟩ := exec_notifications hx
    exact ⟨read, hm, hread⟩
  | setRead id userID =>
    obtain ⟨-, rfl⟩ | ⟨-, rfl⟩ := exec_setRead hx
    · exact ⟨read, hm, hread⟩
    · have hmem := (Table.mem_modify key_seen (p := fun n => n.id = id ∧ n.userID = userID)).2
        ⟨_, hm, rfl⟩
      split at hmem
      · exact ⟨true, hmem, fun _ => rfl⟩
      · exact ⟨read, hmem, hread⟩
  | create m' =>
    obtain ⟨-, rfl⟩ | ⟨hu, -, rfl⟩ := exec_create hx
    · exact ⟨read, hm, hread⟩
    · exact ⟨read, (Table.mem_insert hu).2 (Or.inr hm), hread⟩
  | publish env =>
    rw [(exec_publish hx).1]
    exact ⟨read, hm, hread⟩

theorem kept_keeps :
    (machine internalSecret).Keeps (fun s => Kept n b s.notifications) fun _ _ => True where
  refl _ := trivial
  trans _ _ := trivial
  start hq hs := by
    obtain rfl := Option.some.inj hq
    exact ⟨hs, trivial⟩
  call hx hs := ⟨kept_exec hs hx, trivial⟩
  env hv hs := by
    obtain rfl := Option.some.inj hv
    exact ⟨hs, trivial⟩

/-- A possible answer has a row of the user, or is full of rows that are at least as new. -/
theorem mem_of_listing {userID : UUID} {rows l : List Notification}
    (h : NotificationCache.listing userID rows l = true) {m : Notification} (hm : m ∈ rows)
    (huser : m.userID = userID) :
    m ∈ l ∨ l.length = NotificationCache.listLimit ∧ ∀ x ∈ l, m.createdAt ≤ x.createdAt := by
  simp only [NotificationCache.listing, Bool.and_eq_true, decide_eq_true_eq, List.all_eq_true,
    Bool.or_eq_true] at h
  obtain ⟨⟨⟨⟨hnodup, hown⟩, hlen⟩, -⟩, hnewest⟩ := h
  have hmem : m ∈ rows.filter fun x => x.userID = userID :=
    List.mem_filter.2 ⟨hm, decide_eq_true huser⟩
  by_cases hl : m ∈ l
  · exact Or.inl hl
  refine Or.inr ⟨?_, (hnewest m hmem).resolve_left hl⟩
  -- A list that is not full has all the rows of the user.
  have hlt : l.length < (rows.filter fun x => x.userID = userID).length := by
    have hsub : (m :: l).Subperm (rows.filter fun x => x.userID = userID) :=
      (List.nodup_cons.2 ⟨hl, hnodup⟩).subperm (List.cons_subset.2 ⟨hmem, fun x hx => hown x hx⟩)
    exact hsub.length_le
  omega

/-- Whoever asks for the user's list gets the notification. -/
def listed (internalSecret : GoString) (n : Notification) (b : Bool) : Outline (machine internalSecret) :=
  .standing _ (fun s => Kept n b s.notifications) (fun _ _ => True) fun q r =>
    q = .listNotifications n.userID → ∀ l, r = .notifications l → Lists n b l

theorem listed_handler (q : Request) (s : Store) :
    (listed internalSecret n b).Safe q ((machine internalSecret).handler q) s := by
  by_cases hq : q = .listNotifications n.userID
  · subst hq
    refine fun t _ ⟨read, hm, hread⟩ => ⟨trivial, fun o a t' _ hx _ => ?_⟩
    rw [machine_exec] at hx
    obtain ⟨rfl, hlisting⟩ := exec_notifications hx
    have answer : ∀ status message, (listed internalSecret n b).post
        (.listNotifications n.userID) (ErrorReply.error status message) :=
      fun _ _ _ _ hl => nomatch hl
    refine safe_foundOr answer fun l hl _ l' hl' => ?_
    obtain rfl := Reply.notifications.inj hl'
    rcases mem_of_listing (hlisting l hl) hm rfl with hmem | hfull
    · exact Or.inl ⟨read, hmem, hread⟩
    · exact Or.inr hfull
  · exact Outline.safe_of_trivial (fun _ _ => trivial) (fun _ h => absurd h hq) _ _

/-! ### What an answer says of the store -/

/-- What a thread has done when it answers. -/
def Answered : Request → List ServiceStep → Reply → Prop
  | q, hist, .created n => ∃ s o m, .call s q o (.create m) (.ok n) ∈ hist
  | .markRead userID text, hist, .noContent => ∃ s o id k, UUID.parse text = some id ∧
      .call s (.markRead userID text) o (.setRead id userID) (.ok (k + 1)) ∈ hist
  | _, _, _ => True

theorem answered_handler (q : Request) (hist : List ServiceStep) :
    (machine internalSecret).Recalls (fun _ _ _ _ => True) Answered q
      ((machine internalSecret).handler q) hist := by
  have answer : ∀ (hist : List ServiceStep) (status : ℕ) (message : String),
      (machine internalSecret).Recalls (fun _ _ _ _ => True) Answered q
        (.ret (ErrorReply.error status message)) hist := fun _ _ _ => by cases q <;> trivial
  cases q with
  | listNotifications userID =>
    refine ⟨trivial, fun o a s s' _ => ?_⟩
    exact Early.foundOr (P := fun p => Machine.Recalls _ _ _ _ p _) (answer _) fun _ _ => trivial
  | markRead userID text =>
    refine Early.parseID (P := fun p => Machine.Recalls _ _ _ _ p hist) (answer hist) fun id hid => ?_
    refine ⟨trivial, fun o a s s' _ => ?_⟩
    refine Early.foundOr (P := fun p => Machine.Recalls _ _ _ _ p _) (answer _) fun k hk => ?_
    subst hk
    refine Early.failIf (P := fun p => Machine.Recalls _ _ _ _ p _) (answer _) fun hne => ?_
    obtain ⟨k, rfl⟩ := Nat.exists_eq_succ_of_ne_zero hne
    exact ⟨s, o, id, k, hid, List.mem_cons_self⟩
  | internalNotify secret body =>
    refine Early.failIf (P := fun p => Machine.Recalls _ _ _ _ p hist) (answer hist) fun _ => ?_
    refine Early.decodeBody (P := fun p => Machine.Recalls _ _ _ _ p hist) (answer hist) fun req _ => ?_
    refine Early.failIf (P := fun p => Machine.Recalls _ _ _ _ p hist) (answer hist) fun _ => ?_
    refine ⟨trivial, fun o a s s' _ => ?_⟩
    refine Early.foundOr (P := fun p => Machine.Recalls _ _ _ _ p _) (answer _) fun n hn => ?_
    subst hn
    refine ⟨trivial, fun _ _ _ _ _ => ?_⟩
    exact ⟨s, o, _, List.mem_cons_of_mem _ List.mem_cons_self⟩

/-- What a step has left in the table. -/
def Left : ServiceStep → Table Notification → Prop
  | .call _ _ _ (.create _) (.ok n), rows => Kept n false rows
  | .call _ _ _ (.setRead id _) (.ok (_ + 1)), rows => ∃ m, m.id = id ∧ Kept m true rows
  | _, _ => True

theorem left_exec {st : ServiceStep} {α : Type} {e : Stmt α} {a : α} (h : Left st s.notifications)
    (hx : exec o e s = some (a, s')) : Left st s'.notifications := by
  match st, h with
  | .call _ _ _ (.create _) (.ok _), h => exact kept_exec h hx
  | .call _ _ _ (.setRead _ _) (.ok (_ + 1)), h =>
    obtain ⟨m, hid, h⟩ := h
    exact ⟨m, hid, kept_exec h hx⟩
  | .call _ _ _ (.create _) (.error _), _ | .call _ _ _ (.setRead _ _) (.error _), _
  | .call _ _ _ (.setRead _ _) (.ok 0), _ | .call _ _ _ (.notifications _) _, _
  | .call _ _ _ (.publish _) _, _ | .start _ _, _ | .env _ _, _ => trivial

theorem left_call {q : Request} {α : Type} {e : Stmt α} {a : α} (hx : exec o e s = some (a, s')) :
    Left (.call s q o e a) s'.notifications := by
  cases e with
  | create m =>
    obtain ⟨rfl, rfl⟩ | ⟨hu, rfl, rfl⟩ := exec_create hx
    · trivial
    · exact kept_of_mem ((Table.mem_insert hu).2 (Or.inl rfl))
  | setRead id userID =>
    obtain ⟨rfl, rfl⟩ | ⟨rfl, rfl⟩ := exec_setRead hx
    · trivial
    · generalize hk : s.notifications.rows.countP _ = k
      cases k with
      | zero => trivial
      | succ k =>
        obtain ⟨r, hr, hp⟩ := List.countP_pos_iff.1 (Nat.lt_of_lt_of_eq k.succ_pos hk.symm)
        refine ⟨seen r, (of_decide_eq_true hp).1, kept_of_mem (m := seen r) ?_⟩
        exact (Table.mem_modify key_seen).2 ⟨r, hr, (if_pos hp).symm⟩
  | _ => trivial

/-- What the steps of a run have left is there at its end. -/
theorem left_always {c : Service}
    (h : (machine internalSecret).Reaches Machine.anySchedule (.init .fresh) c) :
    ∀ st ∈ c.trace, Left st c.store.notifications := by
  refine (asks_valid internalSecret).since (K := fun st s => Left st s.notifications)
    (C := fun _ => True) h trivial (fun _ _ => trivial) (fun _ _ => trivial) ?_ ?_ ?_
  · intro q s s' _ _ _ hq
    obtain rfl := Option.some.inj hq
    exact ⟨trivial, fun _ hst => hst⟩
  · exact fun _ _ _ _ hx => ⟨left_call hx, fun _ hst => left_exec hst hx⟩
  · intro now s s' _ _ _ hv
    obtain rfl := Option.some.inj hv
    exact ⟨trivial, fun _ hst => hst⟩

/-- A notification that was answered 201 has a row, and its flag is set once its owner was answered 204
for it. -/
theorem kept_of_answered {c : Service}
    (h : (machine internalSecret).Reaches Machine.anySchedule (.init .fresh) c)
    (hn : ∃ q, ⟨q, .ret (.created n)⟩ ∈ c.threads)
    (hb : b = true → ∃ text, UUID.parse text = some n.id ∧
      ⟨.markRead n.userID text, .ret .noContent⟩ ∈ c.threads) : Kept n b c.store.notifications := by
  have hrecalls := h.recalls fun q s s' _ => answered_handler q [.start s q]
  obtain ⟨q, hth⟩ := hn
  obtain ⟨hist, hsub, hanswered⟩ := hrecalls _ hth
  obtain ⟨s, o, m, hst⟩ : ∃ s o m, .call s q o (.create m) (.ok n) ∈ hist := by
    cases q <;> exact hanswered
  obtain ⟨read, hrow, -⟩ := left_always h _ (hsub.subset hst)
  refine ⟨read, hrow, fun htrue => ?_⟩
  obtain ⟨text, hid, hth⟩ := hb htrue
  obtain ⟨hist, hsub, s, o, id, k, hid', hst⟩ := hrecalls _ hth
  obtain rfl := Option.some.inj (hid.symm.trans hid')
  obtain ⟨m, hm, read', hrow', hread'⟩ := left_always h _ (hsub.subset hst)
  have hsame := Table.eq_of_key hrow hrow' hm.symm
  exact (congrArg Notification.read hsame).trans (hread' rfl)

end Lists

/-- **A notification is listed**: when it was answered 201 before its user's request for the list began,
the list has it, and as read if its user was answered 204 for it by then; or the list has fifty others
that are at least as new. -/
theorem notification_listed (internalSecret : GoString) {c c' : Service} {n : Notification}
    (h : (machine internalSecret).Reaches Machine.anySchedule (.init .fresh) c)
    (h' : (machine internalSecret).Reaches Machine.anySchedule c c')
    (hn : ∃ q, ⟨q, .ret (.created n)⟩ ∈ c.threads) {j : ℕ} {l : List Notification}
    (hj : c.threads.length ≤ j)
    (hl : c'.threads[j]? = some ⟨.listNotifications n.userID, .ret (.notifications l)⟩) :
    (∃ read, { n with read := read } ∈ l ∧ ((∃ text, UUID.parse text = some n.id ∧
        ⟨.markRead n.userID text, .ret .noContent⟩ ∈ c.threads) → read = true)) ∨
      l.length = NotificationCache.listLimit ∧ ∀ m ∈ l, n.createdAt ≤ m.createdAt := by
  by_cases hb : ∃ text, UUID.parse text = some n.id ∧
      ⟨.markRead n.userID text, .ret .noContent⟩ ∈ c.threads
  · have hkept : Kept n true c.store.notifications := kept_of_answered h hn fun _ => hb
    rcases kept_keeps.later (fun q s _ => listed_handler q s) h' hkept hj hl rfl l rfl with
      ⟨read, hrow, hread⟩ | hfull
    · exact Or.inl ⟨read, hrow, fun _ => hread rfl⟩
    · exact Or.inr hfull
  · have hkept : Kept n false c.store.notifications := kept_of_answered h hn fun hfalse => nomatch hfalse
    rcases kept_keeps.later (fun q s _ => listed_handler q s) h' hkept hj hl rfl l rfl with
      ⟨read, hrow, -⟩ | hfull
    · exact Or.inl ⟨read, hrow, fun hread => absurd hread hb⟩
    · exact Or.inr hfull

/-- The thread has answered the request so. -/
def answers (q : Request) (r : Reply) (th : Thread Request Stmt Reply) : Bool :=
  th.origin = q && match th.prog with
    | .ret r' => r' = r
    | .call _ _ => false

theorem eq_of_answers {q : Request} {r : Reply} {th : Thread Request Stmt Reply}
    (h : answers q r th = true) : th = ⟨q, .ret r⟩ := by
  obtain ⟨q', p⟩ := th
  cases p with
  | ret r' =>
    obtain ⟨rfl, rfl⟩ : q' = q ∧ r' = r := by simpa [answers] using h
    rfl
  | call e k => simp [answers] at h

/-- The user asks for the list after that, and it has the notification as read. -/
theorem notification_listed_read : ∃ c c' : Service,
    (machine (lit "s")).Reaches Machine.anySchedule (.init .fresh) c ∧
    (machine (lit "s")).Reaches Machine.anySchedule c c' ∧
    c'.threads[2]? = some ⟨.listNotifications 1, .ret (.notifications [seen ready])⟩ ∧
    ((∃ read, { ready with read := read } ∈ [seen ready] ∧ ((∃ text, UUID.parse text = some ready.id ∧
        ⟨.markRead 1 text, .ret .noContent⟩ ∈ c.threads) → read = true)) ∨
      [seen ready].length = NotificationCache.listLimit ∧
        ∀ m ∈ [seen ready], ready.createdAt ≤ m.createdAt) := by
  let P' : Service → Bool := fun c' => c'.threads[2]?.any
    (answers (.listNotifications 1) (.notifications [seen ready]))
  let ms : List (Move Request Oracle Time) :=
    [.start (.listNotifications 1), .step 2 { listed := [seen ready] }]
  obtain ⟨c, hc, hP⟩ := Machine.exists_reaches (machine (lit "s")) Machine.anySchedule (.init .fresh)
    (fun c => (c.threads.length = 2 && c.threads.any (answers (.internalNotify (lit "s") noticeBody)
        (.created ready))) &&
      ((machine (lit "s")).runMoves Machine.anySchedule ms c).elim false P')
    sendAndRead (by decide +kernel)
  obtain ⟨⟨hlen, hcreated⟩, hrun⟩ := by simpa only [Bool.and_eq_true, decide_eq_true_eq] using hP
  obtain ⟨c', hc', hP'⟩ := Machine.exists_reaches (machine (lit "s")) Machine.anySchedule c P' ms hrun
  obtain ⟨th, hth, hanswers⟩ := List.any_eq_true.1 hcreated
  obtain rfl := eq_of_answers hanswers
  obtain ⟨th', hth', hanswers'⟩ := (Option.any_eq_true _ _).1 hP'
  obtain rfl := eq_of_answers hanswers'
  exact ⟨c, c', hc, hc', hth',
    notification_listed (lit "s") hc hc' ⟨_, hth⟩ (Nat.le_of_eq hlen) hth'⟩

end NotifySvc

end Optiflow
