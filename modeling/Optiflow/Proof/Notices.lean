import Optiflow.Lib.History
import Optiflow.Lib.Ledger
import Optiflow.Proof.Deliveries
import Optiflow.Proof.Messages

/-!
# What the workers tell

A worker tells the owner of a file how its task ended.  What it tells has been done before, the one it
tells owns the file, and notify-svc makes a row of it (`notices_true`).  A task is told about at most
once for each time that it came into the queue (`notices_le`).
-/

namespace Optiflow

open Interleave Code Workers

/-! ## What has been done before -/

/-- The steps of a delivery before it tells the owner, and what it goes on with: the row of the file was
written as the message says, and then read.  An attempt that has failed tells only when it is the last,
which archives the message; whether its write got through does not matter. -/
structure Told (worker : Worker) (msg : Message) (hist : List ServiceStep) (k : Bool → Prog Stmt Reply)
    (userID : UUID) (title messageFmt name : GoString) : Prop where
  type : msg.task.type = worker.handles
  steps : ∃ s o file s' o' u a rest, hist =
      .call s (.deliver worker msg) o (.query (.fileByID msg.task.payload.fileID)) (.ok file) ::
      .call s' (.deliver worker msg) o' (.write (.updateFile msg.task.payload.fileID u)) a :: rest ∧
    file.userID = userID ∧ file.name = name ∧
    ((title = readyTitle worker ∧ messageFmt = readyText worker ∧ u = finishedUpdates msg.task ∧
        a = .ok () ∧ ∀ b, k b = .ret (.processed none)) ∨
      (title = failedTitle ∧ messageFmt = failedText worker ∧ u = failedUpdates ∧
        ∃ err, terminal msg err = true ∧ ∀ b, k b =
          .call (.broker (.archive msg)) fun _ => .ret (.processed (some err))))

/-- A delivery that is about to tell. -/
def TellsTruly (worker : Worker) (msg : Message) (hist : List ServiceStep) : Prog Stmt Reply → Prop
  | .call (.tool (.notify userID title messageFmt name)) k =>
    Told worker msg hist k userID title messageFmt name
  | _ => True

section Telling

variable {deps : Deps} {worker : Worker} {msg : Message} {hist : List ServiceStep} {tools : Tools}

/-- Reading a delivery with the steps that it has taken. -/
abbrev Telling (deps : Deps) (worker : Worker) (msg : Message) (p : Prog Stmt Reply)
    (hist : List ServiceStep) : Prop :=
  (services deps).Recounts (TellsTruly worker msg) (.deliver worker msg) p hist

theorem telling_quiet {α : Type} (e : Stmt α) (k : α → Prog Stmt Reply) (he : e.quiet)
    (h : ∀ a hist, Telling deps worker msg (k a) hist) (hist : List ServiceStep) :
    Telling deps worker msg (.call e k) hist := by
  refine ⟨?_, fun o a s s' _ => h a _⟩
  cases e with
  | tool t =>
    cases t with
    | notify userID title messageFmt name => exact he.elim
    | _ => trivial
  | _ => trivial

/-- The look-up before a notification finds the file that it is about. -/
theorem telling_notifyUser {title messageFmt : GoString} {k : Unit → Prog Stmt Reply}
    (htold : ∀ s o file, Told worker msg (.call s (.deliver worker msg) o
      (.query (.fileByID msg.task.payload.fileID)) (.ok file) :: hist) (fun _ => k ()) file.userID title
      messageFmt file.name) (h : ∀ hist, Telling deps worker msg (k ()) hist) :
    Telling deps worker msg (notifyUser tools msg.task.payload.fileID title messageFmt k) hist := by
  refine notifyUser_rule (P := fun p => Telling deps worker msg p hist) (h hist)
    fun K herror hok => ⟨trivial, fun o a s s' _ => ?_⟩
  cases a with
  | error e => exact herror e ▸ h _
  | ok file =>
    rw [hok file]
    exact ⟨htold s o file, fun _ _ _ _ _ => h _⟩

theorem telling_deliver : Telling deps worker msg (deliver tools worker msg .ret) hist := by
  have hfail : ∀ err hist, Telling deps worker msg (handleTaskError tools worker msg err fun _ =>
      settle msg err fun _ => .ret (.processed (some err))) hist := by
    intro err hist
    have hsettle : ∀ hist, Telling deps worker msg
        (settle msg err fun _ => .ret (.processed (some err))) hist := by
      intro hist
      unfold settle
      rw [Code.ite_run]
      split
      · exact ⟨trivial, fun _ _ _ _ _ => trivial⟩
      · exact ⟨trivial, fun _ _ _ _ _ => trivial⟩
    refine handleTaskError_rule (P := fun p => Telling deps worker msg p hist) (hsettle hist)
      fun hterminal htype K hK => ⟨trivial, fun o a s s' _ => ?_⟩
    rw [hK a]
    refine telling_notifyUser (fun s₁ o₁ file => ⟨htype, s₁, o₁, file, s, o, failedUpdates, a, hist, rfl,
      rfl, rfl, Or.inr ⟨rfl, rfl, rfl, err, hterminal, fun _ => ?_⟩⟩) hsettle
    unfold settle
    rw [if_pos hterminal]
    rfl
  refine processTask_rule (P := fun p => ∀ hist, Telling deps worker msg p hist) telling_quiet hfail
    ?_ hist
  intro htype K herror hok hist
  refine ⟨trivial, fun o a s s' _ => ?_⟩
  cases a with
  | error e => exact herror e _
  | ok _ =>
    rw [hok]
    exact telling_notifyUser (fun s₁ o₁ file => ⟨htype, s₁, o₁, file, s, o, _, .ok (), hist, rfl, rfl, rfl,
      Or.inl ⟨rfl, rfl, rfl, rfl, fun _ => rfl⟩⟩) fun _ => trivial

end Telling

/-! ## Notifications and the queue -/

/-- A notification about the task. -/
def tellsTask (task : Task) : ServiceStep → Bool
  | .call _ (.deliver _ msg) _ (.tool (.notify _ _ _ _)) _ => msg.task = task
  | _ => false

/-- A delivery of the task puts it back. -/
def retriesTask (task : Task) : ServiceStep → Bool
  | .call _ (.deliver _ msg) _ (.broker (.retry _)) _ => msg.task = task
  | _ => false

def Request.delivers (task : Task) : Request → Bool
  | .deliver _ msg => msg.task = task
  | _ => false

def startsTask (task : Task) : ServiceStep → Bool
  | .start _ q => q.delivers task
  | _ => false

section Counting

variable {deps : Deps} {worker : Worker} {msg : Message} {task : Task} {tools : Tools} {q : Request}

/-- A program with the right to tell or to put back once, if `b`. -/
abbrev Spends (deps : Deps) (task : Task) (q : Request) (b : Bool) (p : Prog Stmt Reply) : Prop :=
  Solvent (services deps) (fun _ _ => false) (fun st => tellsTask task st || retriesTask task st)
    (startsTask task) q b p

theorem spends_quiet {α : Type} (e : Stmt α) (k : α → Prog Stmt Reply) (he : e.quiet) {b : Bool}
    (h : ∀ a, Spends deps task q b (k a)) : Spends deps task q b (.call e k) := by
  refine solvent_free (fun s o a => ?_) (fun s o a => rfl) fun s o a s' _ => h a
  cases e with
  | tool t =>
    cases t with
    | notify userID title messageFmt name => exact he.elim
    | _ => cases q <;> rfl
  | broker b => exact he.elim
  | _ => cases q <;> rfl

theorem spends_ret {r : Reply} {b : Bool} : Spends deps task q b (.ret r) := solvent_ret rfl

theorem spends_settle {err : TaskError} {r : Reply} {b : Bool} (h : terminal msg err = false → b = true) :
    Spends deps task q b (settle msg err fun _ => .ret r) := by
  unfold settle
  rw [Code.ite_run]
  split
  · exact solvent_free (fun s o a => by cases q <;> rfl) (fun _ _ _ => rfl) fun _ _ _ _ _ => spends_ret
  · next hterminal => exact fun _ _ _ _ _ => ⟨fun _ => h (by simpa using hterminal), spends_ret⟩

theorem spends_notifyUser {fileID : UUID} {title messageFmt : GoString} {k : Unit → Prog Stmt Reply}
    (h : ∀ b, Spends deps task q b (k ())) :
    Spends deps task q true (notifyUser tools fileID title messageFmt k) := by
  refine notifyUser_rule (P := Spends deps task q true) (h true) fun K herror hok => ?_
  refine solvent_free (fun s o a => by cases q <;> rfl) (fun _ _ _ => rfl) fun s o a s' _ => ?_
  cases a with
  | error e => exact herror e ▸ h true
  | ok file => exact hok file ▸ fun _ _ _ _ _ => ⟨fun _ => rfl, h _⟩

/-- A write to the row costs nothing. -/
theorem spends_write {w : Write Unit} {K : Except DbError Unit → Prog Stmt Reply}
    (h : ∀ a, Spends deps task q true (K a)) : Spends deps task q true (.call (.write w) K) :=
  solvent_free (fun s o a => by cases q <;> rfl) (fun _ _ _ => rfl) fun _ _ a _ _ => h a

/-- A delivery tells the owner, or puts its message back, or neither. -/
theorem spends_deliver : Spends deps task q true (deliver tools worker msg .ret) := by
  have hfail : ∀ err, Spends deps task q true (handleTaskError tools worker msg err fun _ =>
      settle msg err fun _ => .ret (.processed (some err))) := by
    intro err
    refine handleTaskError_rule (P := Spends deps task q true) (spends_settle fun _ => rfl)
      fun hterminal _ K hK => spends_write fun a => ?_
    rw [hK a]
    exact spends_notifyUser fun b => spends_settle fun h => by rw [hterminal] at h; cases h
  refine processTask_rule (P := Spends deps task q true) (fun e k he h => spends_quiet e k he h) hfail ?_
  intro _ K herror hok
  refine spends_write fun a => ?_
  cases a with
  | error e => exact herror e
  | ok _ => exact hok ▸ spends_notifyUser fun _ => spends_ret

variable (deps task) in
theorem spends_handler (q : Request) (s : Store) :
    Spends deps task q (startsTask task (.start s q)) ((services deps).handler q) := by
  have free : (∀ worker msg, q = .deliver worker msg → msg.task ≠ task) → ∀ b,
      Spends deps task q b ((services deps).handler q) := by
    intro hq b
    refine solvent_of_free (fun s o e a => ?_) (fun _ => rfl) _
    cases q with
    | deliver worker msg =>
      have hne := hq worker msg rfl
      have htells : tellsTask task (.call s (.deliver worker msg) o e a) = false := by
        unfold tellsTask
        split <;> simp_all
      have hretries : retriesTask task (.call s (.deliver worker msg) o e a) = false := by
        unfold retriesTask
        split <;> simp_all
      rw [htells, hretries]
      rfl
    | _ => rfl
  cases q with
  | deliver worker msg =>
    by_cases ht : msg.task = task
    · have hstart : startsTask task (.start s (.deliver worker msg)) = true := decide_eq_true ht
      rw [hstart]
      exact spends_deliver
    · refine free (fun worker' msg' hq => ?_) _
      cases hq
      exact ht
  | _ => exact free (fun _ _ hq => by cases hq) _

/-! ### Messages that wait -/

/-- The message that the call puts back. -/
def Stmt.retried? {α : Type} : Stmt α → Option Message
  | .broker (.retry msg) => some msg
  | _ => none

/-- How many messages of a task wait. -/
def Store.waitingFor (task : Task) (s : Store) : ℕ := s.broker.waiting.countP fun m => m.task = task

variable {α : Type} {s s' : Store} {o : Oracle} {e : Stmt α} {a : α}

theorem waitingFor_exec (hx : exec o e s = some (a, s')) :
    s'.waitingFor task = s.waitingFor task + (e.retried?.elim 0 fun m => (decide (m.task = task)).toNat) +
      (addsTask task (.call s q o e a)).toNat := by
  cases e with
  | broker b =>
    obtain ⟨rfl, rfl⟩ := Prod.mk.inj (Option.some.inj hx)
    cases b with
    | enqueue t =>
      by_cases hfails : o.fails = true
      · simp [BrokerStmt.run, hfails, Store.waitingFor, Stmt.retried?, addsTask]
      · by_cases ht : t = task <;>
          simp [BrokerStmt.run, hfails, Store.waitingFor, Stmt.retried?, addsTask, ht]
    | retry m =>
      by_cases ht : m.task = task <;>
        simp [BrokerStmt.run, Store.waitingFor, Stmt.retried?, addsTask, ht]
    | archive m => rfl
  | write w =>
    obtain ⟨db', -, rfl⟩ := exec_write hx
    rfl
  | newUUID =>
    simp only [exec] at hx
    split at hx
    · cases hx
    · obtain ⟨-, rfl⟩ := Prod.mk.inj (Option.some.inj hx)
      rfl
  | _ =>
    obtain ⟨-, rfl⟩ := Prod.mk.inj (Option.some.inj hx)
    rfl

theorem retried?_of_settled? {m : Message} (h : e.settled? = some m) :
    e.retried? = none ∨ e.retried? = some m := by
  cases e with
  | broker b =>
    cases b with
    | retry m' => exact Or.inr h
    | _ => exact Or.inl rfl
  | _ => exact Or.inl rfl

theorem retried?_of_settled?_none (h : e.settled? = none) : e.retried? = none := by
  cases e with
  | broker b =>
    cases b with
    | retry m => cases h
    | _ => rfl
  | _ => rfl

theorem retriesTask_eq_false (h : e.retried? = none) : retriesTask task (.call s q o e a) = false := by
  cases e with
  | broker b =>
    cases b with
    | retry m => cases h
    | _ => cases q <;> rfl
  | _ => cases q <;> rfl

theorem retriesTask_eq {m : Message} (h : e.retried? = some m) :
    retriesTask task (.call s (.deliver worker msg) o e a) = decide (msg.task = task) := by
  cases e with
  | broker b =>
    cases b with
    | retry m => rfl
    | _ => cases h
  | _ => cases h

/-- How the messages of a task come to wait; each delivery has had one. -/
def waits (deps : Deps) (task : Task) : Custody (services deps) where
  shape := Settling
  held q _ := (q.delivers task).toNat
  stored s := s.waitingFor task
  made st := (addsTask task st).toNat + (retriesTask task st).toNat

variable (deps task) in
theorem waits_valid : (waits deps task).Valid where
  start {q s s'} hq := by
    refine ⟨settling_handler _, ?_⟩
    show s'.waitingFor task + (q.delivers task).toNat = s.waitingFor task + 0
    obtain ⟨-, -, -, -, ⟨hbroker, hne⟩ | ⟨worker, msg, rfl, hm, hbroker⟩⟩ := launch_cases hq
    · rw [Store.waitingFor, hbroker]
      cases q with
      | deliver worker msg => exact absurd rfl (hne worker msg)
      | _ => rfl
    · have hwaiting := (List.perm_cons_erase hm).countP_eq fun m => decide (m.task = task)
      rw [List.countP_cons] at hwaiting
      rw [Store.waitingFor, Store.waitingFor, hbroker, hwaiting]
      by_cases ht : msg.task = task <;> simp [Request.delivers, ht]
  call {q o α e k a s s'} h hx := by
    refine ⟨(custody_call task h hx).1, ?_⟩
    show s'.waitingFor task + (q.delivers task).toNat = s.waitingFor task + (q.delivers task).toNat +
      ((addsTask task (.call s q o e a)).toNat + (retriesTask task (.call s q o e a)).toNat)
    rw [waitingFor_exec (q := q) hx]
    have quiet : e.retried? = none → s.waitingFor task +
        (e.retried?.elim 0 fun m => (decide (m.task = task)).toNat) +
        (addsTask task (.call s q o e a)).toNat + (q.delivers task).toNat =
        s.waitingFor task + (q.delivers task).toNat + ((addsTask task (.call s q o e a)).toNat +
          (retriesTask task (.call s q o e a)).toNat) := by
      intro he
      rw [retriesTask_eq_false he, he]
      simp only [Option.elim_none, Bool.toNat_false]
      omega
    by_cases hq : ∀ worker msg, q ≠ .deliver worker msg
    · exact quiet (retried?_of_settled?_none (h.2 hq).1)
    · obtain ⟨worker, msg, rfl⟩ : ∃ worker msg, q = .deliver worker msg := by simpa using hq
      obtain (⟨he, -⟩ | ⟨he, -⟩) | ⟨err, hp⟩ := h.1 worker msg rfl
      · obtain hnone | hsome := retried?_of_settled? he
        · exact quiet hnone
        · rw [retriesTask_eq hsome, hsome, Option.elim_some]
          omega
      · exact quiet (retried?_of_settled?_none he)
      · cases hp
  env {v s s'} hv := by
    show s'.waitingFor task = s.waitingFor task + ((addsTask task (.env s v)).toNat + 0)
    rw [services_env] at hv
    cases v with
    | redeliver msg =>
      simp only [EnvMove.run] at hv
      split at hv
      · obtain rfl := Option.some.inj hv
        by_cases ht : msg.task = task <;> simp [Store.waitingFor, addsTask, ht]
      · cases hv
    | _ =>
      simp only [EnvMove.run] at hv
      split at hv
      · obtain rfl := Option.some.inj hv
        rfl
      · cases hv

/-- How many deliveries of a task there are. -/
def deliveries (deps : Deps) (task : Task) : Custody (services deps) where
  shape _ _ := True
  held q _ := (q.delivers task).toNat
  stored _ := 0
  made st := (startsTask task st).toNat

variable (deps task) in
theorem deliveries_valid : (deliveries deps task).Valid where
  start _ := ⟨trivial, rfl⟩
  call _ _ := ⟨trivial, by simp only [deliveries, startsTask, Bool.toNat_false]; omega⟩
  env _ := rfl

end Counting

theorem not_tells_of_retries {task : Task} {st : ServiceStep} (h : retriesTask task st = true) :
    tellsTask task st = false := by
  unfold retriesTask at h
  split at h
  · rfl
  · cases h

theorem countP_add_countP {ι : Type*} {p q : ι → Bool} (h : ∀ x, q x = true → p x = false)
    (l : List ι) : l.countP p + l.countP q = l.countP fun x => p x || q x := by
  induction l with
  | nil => rfl
  | cons x l ih =>
    rw [List.countP_cons, List.countP_cons, List.countP_cons, ← ih]
    cases hq : q x with
    | true =>
      simp only [h x hq, Bool.false_or, Bool.false_eq_true, if_true, if_false]
      omega
    | false =>
      simp only [Bool.or_false, Bool.false_eq_true, if_false]
      omega

/-- **Nobody is told too often**: in every state of every interleaving, the notifications about a task
and its messages that still wait are together at most as many as the times that the task was enqueued
or delivered again. -/
theorem notices_le (deps : Deps) (users : Table User) {c : Services}
    (h : (services deps).Reaches Machine.anySchedule (start (Store.fresh users)) c) (task : Task) :
    c.trace.countP (tellsTask task) + c.store.broker.waiting.countP (fun m => m.task = task) ≤
      c.trace.countP (addsTask task) := by
  have hwaits := (waits_valid deps task).conserved h
  have hstarts := (deliveries_valid deps task).conserved h
  have hspends : c.trace.countP (tellsTask task) + c.trace.countP (retriesTask task) ≤
      c.trace.countP (startsTask task) := by
    rw [countP_add_countP fun st => not_tells_of_retries]
    exact (Nat.le_add_left _ _).trans (earned_add_costs_le_pays (fun _ _ => rfl) (fun _ _ => rfl)
      (fun _ q s _ => spends_handler deps task q s) h)
  simp only [waits, deliveries, Custody.heldBy, sum_map_toNat, List.sum_map_add] at hwaits hstarts
  have hfresh : (Store.fresh users).waitingFor task = 0 := rfl
  have hwaiting : c.store.waitingFor task = c.store.broker.waiting.countP fun m => m.task = task := rfl
  omega

/-! ### A picture -/

/-- The workers tell notify-svc. -/
def tellingDeps : Deps := { plainDeps with tools := { plainDeps.tools with notifies := true } }

/-- Alice uploads an image, its thumbnail is made, and she is told. -/
def tellImage : List (Move Request Oracle EnvMove) :=
  uploadImage ++ [.start (.deliver .image imageMessage), .step 2 {}, .step 2 {}, .step 2 {}, .step 2 {},
    .step 2 {}, .step 2 {}]

theorem notices_le_image : ∃ c : Services,
    (services tellingDeps).Reaches Machine.anySchedule (start (Store.fresh aliceOnly)) c ∧
    c.trace.countP (tellsTask imageMessage.task) = 1 ∧
    c.store.broker.waiting.countP (fun m => m.task = imageMessage.task) = 0 := by
  obtain ⟨c, hc, hP⟩ := Machine.exists_reaches (services tellingDeps) Machine.anySchedule
    (start (Store.fresh aliceOnly)) (fun c => c.trace.countP (tellsTask imageMessage.task) = 1 &&
      c.trace.countP (addsTask imageMessage.task) = 1) tellImage (by decide)
  simp only [Bool.and_eq_true, decide_eq_true_eq] at hP
  have hle := notices_le tellingDeps aliceOnly hc imageMessage.task
  exact ⟨c, hc, hP.1, by omega⟩

/-! ## Who is told -/

section Owner

variable {worker : Worker} {msg : Message} {hist : List ServiceStep} {k : Bool → Prog Stmt Reply}
  {userID : UUID} {title messageFmt name : GoString}

theorem Told.ascii (h : Told worker msg hist k userID title messageFmt name) :
    (Ascii title ∧ title ≠ []) ∧ Ascii messageFmt ∧ messageFmt ≠ [] := by
  have hready : ∀ worker, (Ascii (readyTitle worker) ∧ readyTitle worker ≠ []) ∧
      Ascii (readyText worker) ∧ readyText worker ≠ [] := by
    intro worker
    cases worker <;> decide
  have hfailed : ∀ worker, (Ascii failedTitle ∧ failedTitle ≠ []) ∧
      Ascii (failedText worker) ∧ failedText worker ≠ [] := by
    intro worker
    cases worker <;> decide
  obtain ⟨-, -, -, -, -, -, -, -, -, -, -, ⟨rfl, rfl, -⟩ | ⟨rfl, rfl, -⟩⟩ := h.steps
  · exact hready worker
  · exact hfailed worker

/-- What a run has learned from a step: the row that was read is known, and so is the task of a worker
that has written. -/
def Learned : ServiceStep → Store → Prop
  | .call _ _ _ (.query (.fileByID id)) (.ok f), t => FileKnown t f ∧ f.id = id
  | .call _ (.deliver _ msg) _ (.write (.updateFile _ _)) _, t => TaskKnown t msg.task
  | _, _ => True

end Owner

theorem Learned.mono {s t : Store} (hgrow : Grows s t) {st : ServiceStep} (h : Learned st s) :
    Learned st t := by
  cases st with
  | call s₀ q o e a =>
    cases e with
    | query qy =>
      cases qy with
      | fileByID id =>
        cases a with
        | ok f => exact ⟨h.1.mono hgrow, h.2⟩
        | error e => trivial
      | _ => trivial
    | write w =>
      cases w with
      | updateFile id u =>
        cases q with
        | deliver worker msg => exact TaskKnown.mono hgrow h
        | _ => trivial
      | _ => cases q <;> trivial
    | _ => cases q <;> trivial
  | _ => trivial

theorem learned_exec {deps : Deps} {q : Request} {α : Type} {e : Stmt α} {o : Oracle} {a : α}
    {s s' : Store} (hs : WellFormed s) (hpre : (provenance deps).pre q e s)
    (hx : exec o e s = some (a, s')) : Learned (.call s q o e a) s' := by
  have hgrow := exec_grows hx
  cases e with
  | query qy =>
    obtain ⟨rfl, rfl⟩ := exec_query hx
    cases qy with
    | fileByID id =>
      cases ha : (Query.fileByID id).run o s'.db with
      | ok f =>
        obtain ⟨hf, hid⟩ := Query.fileByID_ok ha
        exact ⟨hs.file f hf, hid⟩
      | error e => trivial
    | _ => trivial
  | write w =>
    cases w with
    | updateFile id u =>
      cases q with
      | deliver worker msg =>
        obtain ⟨worker', msg', hq, hupdate⟩ := hpre
        cases hq
        exact hupdate.1.mono hgrow
      | _ => trivial
    | _ => cases q <;> trivial
  | _ => cases q <;> trivial

theorem learned_always (deps : Deps) (users : Table User) {c : Services}
    (h : (services deps).Reaches Machine.anySchedule (start (Store.fresh users)) c) :
    ∀ st ∈ c.trace, Learned st c.store := by
  refine (provenance_valid deps).since (K := Learned) (C := fun _ => True) h (wellFormed_fresh users)
    (fun _ _ => trivial) (fun _ _ => trivial) ?_ ?_ ?_
  · exact fun _ _ _ hq => ⟨trivial, fun _ => Learned.mono (.of_db_eq (launch_cases hq).1)⟩
  · exact fun _ hs hpre _ hx => ⟨learned_exec hs hpre hx, fun _ => Learned.mono (exec_grows hx)⟩
  · exact fun _ _ _ hv => ⟨trivial, fun _ => Learned.mono (.of_db_eq (env_cases hv).1)⟩

/-- **A notification is true, goes to the owner and gets through**: before a delivery tells anybody it has
written the row of the file as the title says, and a failure only on its last attempt, and has read the
file under the name that the message gives; the user is the one who owns the file that the task was made
for, and what is pushed becomes that user's notification at notify-svc. -/
theorem notices_true (deps : Deps) (users : Table User) {c : Services}
    (h : (services deps).Reaches Machine.anySchedule (start (Store.fresh users)) c)
    {newer older : List ServiceStep} {s : Store} {worker : Worker} {msg : Message} {o : Oracle}
    {userID : UUID} {title messageFmt name : GoString} {a : Bool}
    (hc : c.trace = newer ++
      .call s (.deliver worker msg) o (.tool (.notify userID title messageFmt name)) a :: older) :
    (∃ hist k, hist.Sublist older ∧
      (services deps).Took (.deliver worker msg) ((services deps).handler (.deliver worker msg)) hist
        (.call (.tool (.notify userID title messageFmt name)) k) ∧
      Told worker msg hist k userID title messageFmt name) ∧
    (∃ b ∈ c.store.db.files.births, b.userID = userID ∧ UploadSvc.processingTask b = some msg.task) ∧
    ∀ isPrint id now, userID ≠ 0 →
      (NotifySvc.decodeInternalNotify (pushRequest isPrint userID title messageFmt name).marshal).bind
        (fun req => req.notification id now) =
      some ⟨id, userID, .storage, title, Fmt.sprintf isPrint name messageFmt, none, false, now⟩ := by
  obtain ⟨hist, k, hsub, htook⟩ := h.call_took hc
  have htold : Told worker msg hist k userID title messageFmt name :=
    Machine.Recounts.took (T := TellsTruly worker msg) telling_deliver htook
  have hlearned : ∀ st ∈ hist, Learned st c.store := fun st hst => learned_always deps users h st
    (hc ▸ List.mem_append_right _ (List.mem_cons_of_mem _ (hsub.subset hst)))
  refine ⟨⟨hist, k, hsub, htook, htold⟩, ?_, fun isPrint id now hid => ?_⟩
  · obtain ⟨s, o, file, s', o', u, a, rest, rfl, huser, -, -⟩ := htold.steps
    obtain ⟨b, hb, htask⟩ : TaskKnown c.store msg.task :=
      hlearned _ (List.mem_cons_of_mem _ List.mem_cons_self)
    obtain ⟨⟨b', hb', hident⟩, hid⟩ := hlearned _ List.mem_cons_self
    refine ⟨b, hb, ?_, htask⟩
    have hkey : b'.id = b.id := (congrArg File.Identity.id hident).trans
      (hid.trans (fileID_processingTask htask))
    rw [Table.eq_of_birth hb hb' hkey.symm, ← huser]
    exact congrArg File.Identity.userID hident
  · obtain ⟨⟨htitle, hne⟩, htext, htextne⟩ := htold.ascii
    exact push_arrives isPrint name hid htitle hne htext htextne id now

/-- The step tells Alice of her thumbnail. -/
def tellsAlice : ServiceStep → Bool
  | .call _ (.deliver .image msg) _ (.tool (.notify userID title messageFmt name)) _ =>
    msg = imageMessage && userID = 1 && title = readyTitle .image && messageFmt = readyText .image &&
      name = lit "a.png"
  | _ => false

theorem notices_true_image : ∃ c : Services,
    (services tellingDeps).Reaches Machine.anySchedule (start (Store.fresh aliceOnly)) c ∧
    ∃ newer older s o a, c.trace = newer ++ .call s (.deliver .image imageMessage) o
        (.tool (.notify 1 (readyTitle .image) (readyText .image) (lit "a.png"))) a :: older ∧
      ∃ hist k, hist.Sublist older ∧
        Told .image imageMessage hist k 1 (readyTitle .image) (readyText .image) (lit "a.png") := by
  obtain ⟨c, hc, hP⟩ := Machine.exists_reaches (services tellingDeps) Machine.anySchedule
    (start (Store.fresh aliceOnly)) (fun c => c.trace.any tellsAlice) tellImage (by decide)
  obtain ⟨st, hst, htells⟩ := List.any_eq_true.1 hP
  unfold tellsAlice at htells
  split at htells
  · next s msg o userID title messageFmt name a =>
    simp only [Bool.and_eq_true, decide_eq_true_eq] at htells
    obtain ⟨⟨⟨⟨rfl, rfl⟩, rfl⟩, rfl⟩, rfl⟩ := htells
    obtain ⟨newer, older, htrace⟩ := List.append_of_mem hst
    obtain ⟨⟨hist, k, hsub, -, htold⟩, -⟩ := notices_true tellingDeps aliceOnly hc htrace
    exact ⟨c, hc, newer, older, s, o, a, htrace, hist, k, hsub, htold⟩
  · cases htells

end Optiflow
