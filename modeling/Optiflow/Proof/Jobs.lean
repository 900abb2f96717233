import Optiflow.Proof.KnownCalls
import Optiflow.Proof.Runs
import Optiflow.Proof.Rows

/-!
# Processing files and their jobs

A file row with status `processing` waits for a worker.  `HasJob` says that something still works
towards that: a message in the queue, a delivery under way, or a request between writing the row and
enqueueing its task.

The argument is about what is left of each program.  A delivery *owes* its file while every path
through it settles the file's row or puts the message back into the queue (`Owes`).  It owes it from
the start, unless it is the last attempt and the worker does not know the task's type: then nothing
marks the row (`lastAttemptHandled`).  A producer enqueues right after it has left a row in status
`processing` (`EnqueuesNext`).
-/

namespace Optiflow

open Interleave Code UploadSvc Workers

/-! ## The property -/

/-- The program's next call enqueues a task for the file. -/
def AboutToEnqueue (x : UUID) : Prog Stmt Reply → Prop
  | .call (.broker (.enqueue task)) _ => task.payload.fileID = x
  | _ => False

/-- The request is one that enqueues tasks. -/
def Produces : Request → Prop
  | .complete _ _ => True
  | .finishTusUpload _ => True
  | _ => False

/-- Something still works on the file: a message that waits, a delivery that has not ended, or a
`complete` or `finishTusUpload` that is about to enqueue. -/
def HasJob (c : Services) (x : UUID) : Prop :=
  (∃ m ∈ c.store.broker.waiting, m.task.payload.fileID = x) ∨
  (∃ th ∈ c.threads, th.prog.isDone = false ∧
    ∃ worker msg, th.origin = .deliver worker msg ∧ msg.task.payload.fileID = x) ∨
  (∃ th ∈ c.threads, Produces th.origin ∧ AboutToEnqueue x th.prog)

/-- Enqueueing a task and updating a row succeed. -/
def jobsSucceed : ServiceStep → Bool
  | .call _ _ o (.broker (.enqueue _)) _ => !o.fails
  | .call _ _ o (.write (.updateFile _ _)) _ => !o.fails
  | _ => true

/-- The last attempt of a task goes to a worker that handles its type. -/
def lastAttemptHandled : ServiceStep → Bool
  | .start _ (.deliver worker msg) =>
    msg.task.type = worker.handles || msg.retried < msg.task.maxRetry
  | _ => true

/-- A rename or move does not write `processing` over another status. -/
def renameKeepsProcessing : ServiceStep → Bool
  | .call s (.updateFile _ _ _) _ (.write (.saveFile f)) _ =>
    f.status ≠ .processing ||
      s.db.files.rows.any fun g => g.id = f.id && g.status = .processing
  | _ => true

/-! ## What one call does to processing rows -/

section Calls

variable {α : Type} {e : Stmt α} {o : Oracle} {s s' : Store} {a : α} {x : UUID}

/-- The call with this answer may have left the row `x` in status `processing`. -/
def LeavesProcessing (x : UUID) : {α : Type} → Stmt α → α → Prop
  | _, .write (.createFile _), .ok f => f.id = x ∧ f.status = .processing
  | _, .write (.presignVersion _ _ _), .ok f => f.id = x ∧ f.status = .processing
  | _, .write (.saveFile f), .ok () => f.id = x ∧ f.status = .processing
  | _, .write (.updateFile id u), .ok () => id = x ∧ u.status = .processing
  | _, _, _ => False

/-- A row in status `processing` had it before, or the call has set it. -/
theorem processing_cases (hx : exec o e s = some (a, s')) {f : File} (hf : f ∈ s'.db.files)
    (hp : f.status = .processing) :
    (∃ g ∈ s.db.files, g.id = f.id ∧ g.status = .processing) ∨ LeavesProcessing f.id e a := by
  obtain ⟨g, hg, b, rfl⟩ | hw := file_cases hx hf
  · exact Or.inl ⟨g, hg, rfl, hp⟩
  · right
    cases e with
    | write w =>
      cases w with
      | createFile mk =>
        cases a with
        | error e => exact hw
        | ok g => exact ⟨congrArg File.id hw.1.symm, hw.1 ▸ hp⟩
      | presignVersion userID root mk =>
        cases a with
        | error e => exact hw
        | ok g => exact ⟨congrArg File.id hw.1.symm, hw.1 ▸ hp⟩
      | saveFile g =>
        cases a with
        | error e => exact hw
        | ok _ =>
          obtain rfl : f = s.db.savedRow g := hw
          exact ⟨(DB.id_savedRow g).symm, (DB.status_savedRow g).symm.trans hp⟩
      | updateFile id u =>
        cases a with
        | error e => exact hw
        | ok _ =>
          obtain ⟨g, -, rfl, rfl⟩ := hw
          exact ⟨rfl, hp⟩
      | _ => cases a <;> exact hw
    | _ => exact hw

/-- The call settles the row `x`, or puts a message for it back into the queue. -/
def Releases (x : UUID) : {α : Type} → Stmt α → Prop
  | _, .write (.updateFile id u) => id = x ∧ u.status ≠ .processing
  | _, .broker (.retry msg) => msg.task.payload.fileID = x
  | _, _ => False

theorem releases_exec (h : Releases x e) {q : Request}
    (hj : jobsSucceed (.call s q o e a) = true) (hx : exec o e s = some (a, s')) :
    (∃ m ∈ s'.broker.waiting, m.task.payload.fileID = x) ∨
      ∀ f ∈ s'.db.files, f.id = x → f.status ≠ .processing := by
  cases e with
  | write w =>
    obtain ⟨db', hw, rfl⟩ := exec_write hx
    cases w with
    | updateFile id u =>
      obtain ⟨rfl, hu⟩ := h
      have hok : o.fails = false := by simpa [jobsSucceed] using hj
      obtain ⟨rfl, -⟩ | ⟨-, rfl⟩ := Write.updateFile_cases hw
      · simp [Write.run, Write.commit, hok] at hw
      · refine Or.inr fun f hf hid => ?_
        obtain ⟨g, -, rfl⟩ := DB.mem_updateFile.1 hf
        split at hid
        · next hg =>
          rw [if_pos hg]
          exact hu
        · next hg => exact absurd hid hg
    | _ => exact h.elim
  | broker b =>
    simp only [exec, Option.some.injEq, Prod.mk.injEq] at hx
    obtain ⟨-, rfl⟩ := hx
    cases b with
    | retry msg =>
      exact Or.inl ⟨{ msg with retried := msg.retried + 1 },
        List.mem_append_right _ (List.mem_singleton_self _), h⟩
    | _ => exact h.elim
  | _ => exact h.elim

/-- No call takes a message out of the queue. -/
theorem waiting_exec (hx : exec o e s = some (a, s')) {m : Message} (hm : m ∈ s.broker.waiting) :
    m ∈ s'.broker.waiting := by
  cases e with
  | broker b =>
    simp only [exec, Option.some.injEq, Prod.mk.injEq] at hx
    obtain ⟨-, rfl⟩ := hx
    cases b with
    | enqueue task =>
      simp only [BrokerStmt.run]
      split
      · exact hm
      · exact List.mem_append_left _ hm
    | retry msg => exact List.mem_append_left _ hm
    | archive msg => exact hm
  | write w =>
    obtain ⟨db', -, rfl⟩ := exec_write hx
    exact hm
  | newUUID =>
    simp only [exec] at hx
    split at hx
    · cases hx
    · simp only [Option.some.injEq, Prod.mk.injEq] at hx
      obtain ⟨-, rfl⟩ := hx
      exact hm
  | _ =>
    simp only [exec, Option.some.injEq, Prod.mk.injEq] at hx
    obtain ⟨-, rfl⟩ := hx
    exact hm

/-- An enqueue that succeeds leaves a message. -/
theorem enqueue_exec {task : Task} {ok : Bool} {q : Request}
    (hj : jobsSucceed (.call s q o (.broker (.enqueue task)) ok) = true)
    (hx : exec o (.broker (.enqueue task)) s = some (ok, s')) :
    ∃ m ∈ s'.broker.waiting, m.task.payload.fileID = task.payload.fileID := by
  have hok : o.fails = false := by simpa [jobsSucceed] using hj
  simp only [exec, BrokerStmt.run, hok, Option.some.injEq, Prod.mk.injEq] at hx
  obtain ⟨-, rfl⟩ := hx
  exact ⟨⟨task, 0⟩, List.mem_append_right _ (List.mem_singleton_self _), rfl⟩

end Calls

/-! ## Deliveries owe their file -/

/-- Every path through what is left of the program settles the row `x` or puts a message for it back
into the queue. -/
def Owes (x : UUID) : Prog Stmt Reply → Prop
  | .ret _ => False
  | .call e k => Releases x e ∨ ∀ a, Owes x (k a)

section Owes

variable {α : Type} {x : UUID} {tools : Tools} {worker : Worker} {msg : Message}

/-- Code that does not answer leaves the debt to what follows. -/
theorem owes_over (c : Handler α) (hc : Passing true c) {k : α → Prog Stmt Reply}
    (h : ∀ a, Owes x (k a)) : Owes x (c k) :=
  hc (Owes x) (fun _ _ _ hk => Or.inr hk) (fun _ hr => hr.elim) k h

theorem owes_updateFile {u : FileUpdates} (hu : u.status ≠ .processing)
    {k : Except DbError Unit → Prog Stmt Reply} : Owes x (write (.updateFile x u) k) :=
  Or.inl ⟨rfl, hu⟩

variable {k : Option TaskError → Prog Stmt Reply}

theorem owes_handleImageThumbnail {payload : Payload} (h : ∀ err, Owes payload.fileID (k (some err))) :
    Owes payload.fileID (handleImageThumbnail tools payload k) := by
  refine owes_over (bucket _) (over_bucket _ fun _ => rfl) fun opened => ?_
  cases opened with
  | false => exact h _
  | true =>
    refine owes_over (bucket _) (over_bucket _ fun _ => rfl) fun original => ?_
    cases original with
    | none => exact h _
    | some original =>
      refine thumbnail_cases (P := Owes payload.fileID) (fun _ => ?_) (fun _ => ?_) fun body _ => ?_
      · exact h _
      · exact h _
      · refine owes_over (bucket _) (over_bucket _ fun _ => rfl) fun stored => ?_
        cases stored with
        | false => exact h _
        | true => exact owes_updateFile FileStatus.noConfusion

theorem owes_publish {payload : Payload} {poster : Bytes} {files : List (GoString × Bytes)}
    {master : Bytes} (h : ∀ err, Owes payload.fileID (k (some err))) :
    Owes payload.fileID (publish tools payload poster files master k) := by
  refine owes_over (uploadFile _ _ _) (passing_uploadFile _ _ _) fun stored => ?_
  cases stored with
  | false => exact h _
  | true =>
    refine owes_over (uploadRenditionFiles _ _) (passing_uploadRenditionFiles _ _) fun stored => ?_
    cases stored with
    | false => exact h _
    | true =>
      refine owes_over (bucket _) (over_bucket _ fun _ => rfl) fun stored => ?_
      cases stored with
      | false => exact h _
      | true => exact owes_updateFile FileStatus.noConfusion

theorem owes_transcode {payload : Payload} (h : ∀ err, Owes payload.fileID (k (some err))) :
    Owes payload.fileID (transcode tools payload k) := by
  refine owes_over (tool _) (over_tool _) fun ok => ?_
  cases ok with
  | false => exact h _
  | true =>
    refine owes_over (downloadOriginal _) (passing_downloadOriginal _) fun input => ?_
    cases input with
    | error message => exact h _
    | ok input =>
      refine owes_over (Workers.probeDimensions _ _) (passing_probeDimensions _ _) fun dimensions => ?_
      cases dimensions with
      | none => exact h _
      | some dimensions =>
        refine owes_over (Workers.probeDuration _ _) (passing_probeDuration _ _) fun ok => ?_
        cases ok with
        | false => exact h _
        | true =>
          refine owes_over (tool _) (over_tool _) fun ok => ?_
          cases ok with
          | false => exact h _
          | true =>
            refine owes_over (tool _) (over_tool _) fun poster => ?_
            cases poster with
            | none => exact h _
            | some poster =>
              refine owes_over (transcodeRenditions _) (passing_transcodeRenditions _) fun files => ?_
              cases files with
              | none => exact h _
              | some files => exact owes_publish h

/-- An attempt that fails goes on with an error; the error of a worker that does not know the type is
an ordinary one. -/
theorem owes_processTask {task : Task} (h : ∀ err, task.type = worker.handles ∨ err.skipRetry = false →
    Owes task.payload.fileID (k (some err))) :
    Owes task.payload.fileID (processTask tools worker task k) := by
  unfold processTask
  rw [Code.ite_run]
  split
  · next htype =>
    cases worker with
    | image => exact owes_handleImageThumbnail fun err => h err (Or.inl htype)
    | video => exact owes_transcode fun err => h err (Or.inl htype)
  · exact h _ (Or.inr rfl)

/-- **A delivery owes its file**, unless it is the last attempt and goes to the wrong worker. -/
theorem owes_deliver (h : msg.task.type = worker.handles ∨ msg.retried < msg.task.maxRetry) :
    Owes msg.task.payload.fileID (deliver tools worker msg .ret) := by
  refine owes_processTask fun err herr => ?_
  show Owes _ (handleTaskError tools worker msg err fun _ => settle msg err _)
  unfold handleTaskError settle
  simp only [Code.ite_run]
  by_cases ht : terminal msg err = true
  · rw [if_pos ht]
    have htype : msg.task.type = worker.handles := by
      rcases herr with htype | hskip
      · exact htype
      · refine h.resolve_right fun hlt => ?_
        simp only [terminal, hskip, Bool.false_or, decide_eq_true_eq] at ht
        omega
    rw [if_pos htype]
    exact owes_updateFile FileStatus.noConfusion
  · rw [if_neg ht, if_neg ht]
    exact Or.inl rfl

end Owes

/-! ## Producers enqueue next -/

/-- Whenever a call leaves a row in status `processing`, the next call enqueues a task for it. -/
def EnqueuesNext : Prog Stmt Reply → Prop
  | .ret _ => True
  | .call e k => ∀ o s a s', exec o e s = some (a, s') →
      (∀ x, LeavesProcessing x e a → AboutToEnqueue x (k a)) ∧ EnqueuesNext (k a)

section Producers

variable {α : Type}

theorem not_leavesProcessing_of_plain {e : Stmt α} (he : Plain true e) {a : α} {x : UUID} :
    ¬LeavesProcessing x e a := by
  cases e with
  | write w => exact he.elim
  | _ => exact fun h => h

theorem enqueuesNext_over (c : Handler α) (hc : Inert true c) {k : α → Prog Stmt Reply}
    (h : ∀ a, EnqueuesNext (k a)) : EnqueuesNext (c k) :=
  hc EnqueuesNext (fun _ _ he hk _ _ a _ _ =>
    ⟨fun _ hx => absurd hx (not_leavesProcessing_of_plain he), hk a⟩) (fun _ _ => trivial) k h

/-- An image or a video has a task. -/
theorem aboutToEnqueue_enqueueOrLog {f : File} (h : (f.isImage || f.isVideo) = true)
    (k : Unit → Prog Stmt Reply) : AboutToEnqueue f.id (enqueueOrLog (processingTask f) k) := by
  unfold processingTask
  by_cases hi : f.isImage = true
  · rw [if_pos hi]
    rfl
  · have hv : f.isVideo = true := by simpa [hi] using h
    rw [if_neg hi, if_pos hv]
    rfl

theorem enqueuesNext_enqueueOrLog {task : Option Task} {k : Unit → Prog Stmt Reply}
    (h : EnqueuesNext (k ())) : EnqueuesNext (enqueueOrLog task k) := by
  cases task with
  | none => exact h
  | some task => exact fun _ _ _ _ _ => ⟨fun _ hx => hx.elim, h⟩

theorem enqueuesNext_complete (userID : UUID) (id : GoString) :
    EnqueuesNext (complete userID id .ret) := by
  refine enqueuesNext_over (parseID _ _) (silent_parseID _ _).over fun id => ?_
  refine enqueuesNext_over (query _) (over_query _) fun a => ?_
  refine enqueuesNext_over (found _ _ _) (silent_found _).over fun file => ?_
  refine enqueuesNext_over (failIf _ _ _) (silent_failIf _ _ _).over fun _ => ?_
  refine enqueuesNext_over (bucket _) (over_bucket _ fun _ => rfl) fun size => ?_
  cases size with
  | none => trivial
  | some size =>
    rintro o s a s' -
    refine ⟨fun x hx => ?_, ?_⟩
    · cases a with
      | error e => exact hx.elim
      | ok u =>
        obtain ⟨rfl, hp⟩ := hx
        refine aboutToEnqueue_enqueueOrLog (f := completed file size) ?_ _
        simp only [completed] at hp
        split at hp
        · assumption
        · cases hp
    · refine enqueuesNext_over (foundOr _ _ _) (silent_foundOr _).over fun _ => ?_
      exact enqueuesNext_enqueueOrLog trivial

theorem enqueuesNext_finishTusUpload (upload : Upload) :
    EnqueuesNext (finishTusUpload upload .ret) := by
  unfold finishTusUpload
  cases UUID.parse (upload.metaData.get (lit "user_id")) with
  | none => trivial
  | some userID =>
    refine enqueuesNext_over (exitIf _ _) (over_ite (over_exit trivial) (over_pure ())) fun _ => ?_
    refine enqueuesNext_over (staging _) (over_staging _ rfl) fun body => ?_
    cases body with
    | none => trivial
    | some body =>
      rintro o s fileID s' -
      refine ⟨fun _ hx => hx.elim, ?_⟩
      refine enqueuesNext_over (bucket _) (over_bucket _ fun _ => rfl) fun stored => ?_
      refine enqueuesNext_over (exitIf _ _) (over_ite (over_exit trivial) (over_pure ())) fun _ => ?_
      rintro o s a s' hx
      obtain ⟨db', hw, -⟩ := exec_write hx
      refine ⟨fun x hx => ?_, ?_⟩
      · obtain ⟨rfl, -⟩ | ⟨-, -, -, rfl, -⟩ := Write.createFile_cases hw
        · exact hx.elim
        · obtain ⟨rfl, hp⟩ := hx
          refine aboutToEnqueue_enqueueOrLog ?_ _
          simp only [File.columnDefaults, tusFile] at hp
          split at hp
          · assumption
          · cases hp
      · cases a with
        | error e => trivial
        | ok file =>
          refine enqueuesNext_enqueueOrLog ?_
          exact enqueuesNext_over (staging _) (over_staging _ rfl) fun _ =>
            enqueuesNext_over (staging _) (over_staging _ rfl) fun _ => trivial

theorem enqueuesNext_handler {deps : Deps} {q : Request} (hq : Produces q) :
    EnqueuesNext (q.handler deps .ret) := by
  cases q with
  | complete userID id => exact enqueuesNext_complete userID id
  | finishTusUpload upload => exact enqueuesNext_finishTusUpload upload
  | _ => exact hq.elim

end Producers

/-! ## The invariant -/

/-- The thread will settle the row `x`, or is about to enqueue a task for it. -/
def Tends (x : UUID) (th : Thread Request Stmt Reply) : Prop :=
  ((∃ worker msg, th.origin = .deliver worker msg ∧ msg.task.payload.fileID = x) ∧ Owes x th.prog) ∨
    (Produces th.origin ∧ AboutToEnqueue x th.prog)

/-- A message waits for the row, or a thread tends it. -/
def Tended (c : Services) (x : UUID) : Prop :=
  (∃ m ∈ c.store.broker.waiting, m.task.payload.fileID = x) ∨ ∃ th ∈ c.threads, Tends x th

/-- The invariant of runs. -/
structure JobsInv (c : Services) : Prop where
  tended : ∀ f ∈ c.store.db.files, f.status = .processing → Tended c f.id
  producers : ∀ th ∈ c.threads, Produces th.origin → EnqueuesNext th.prog

theorem not_isDone_of_owes {x : UUID} {p : Prog Stmt Reply} (h : Owes x p) : p.isDone = false := by
  cases p with
  | ret r => exact h.elim
  | call e k => rfl

theorem Tended.hasJob {c : Services} {x : UUID} (h : Tended c x) : HasJob c x := by
  obtain h | ⟨th, hth, ⟨⟨worker, msg, hq, hid⟩, howes⟩ | hnext⟩ := h
  · exact Or.inl h
  · exact Or.inr (Or.inl ⟨th, hth, not_isDone_of_owes howes, worker, msg, hq, hid⟩)
  · exact Or.inr (Or.inr ⟨th, hth, hnext⟩)

section Steps

variable {deps : Deps} {c : Services} {s' : Store}

/-- Starting a delivery takes its message; from then on the delivery owes the file. -/
theorem JobsInv.start (h : JobsInv c) {q : Request} (hq : q.launch c.store = some s')
    (hlast : lastAttemptHandled (.start c.store q) = true) :
    JobsInv ⟨s', c.threads ++ [⟨q, q.handler deps .ret⟩], .start c.store q :: c.trace⟩ := by
  obtain ⟨hdb, -, -, -, hb⟩ := launch_cases hq
  refine ⟨fun f hf hp => ?_, fun th hth hpr => ?_⟩
  · change f ∈ s'.db.files at hf
    rw [hdb] at hf
    obtain ⟨m, hm, hid⟩ | ⟨th, hth, ht⟩ := h.tended f hf hp
    · obtain ⟨hb, -⟩ | ⟨worker, msg, rfl, -, hb⟩ := hb
      · exact Or.inl ⟨m, hb ▸ hm, hid⟩
      · by_cases hmm : m = msg
        · subst hmm
          have hlast : m.task.type = worker.handles ∨ m.retried < m.task.maxRetry := by
            simpa [lastAttemptHandled] using hlast
          refine Or.inr ⟨_, List.mem_append_right _ (List.mem_singleton_self _), Or.inl ?_⟩
          exact ⟨⟨worker, m, rfl, hid⟩, hid ▸ owes_deliver hlast⟩
        · refine Or.inl ⟨m, ?_, hid⟩
          show m ∈ s'.broker.waiting
          rw [hb]
          exact (List.mem_erase_of_ne hmm).2 hm
    · exact Or.inr ⟨th, List.mem_append_left _ hth, ht⟩
  · rcases List.mem_append.1 hth with hth | hth
    · exact h.producers th hth hpr
    · obtain rfl := List.mem_singleton.1 hth
      exact enqueuesNext_handler hpr

theorem JobsInv.env (h : JobsInv c) {v : EnvMove} (hv : v.run c.store = some s') :
    JobsInv ⟨s', c.threads, .env c.store v :: c.trace⟩ := by
  obtain ⟨hdb, -, -, hw⟩ := env_cases hv
  refine ⟨fun f hf hp => ?_, h.producers⟩
  change f ∈ s'.db.files at hf
  rw [hdb] at hf
  obtain ⟨m, hm, hid⟩ | ht := h.tended f hf hp
  · refine Or.inl ⟨m, ?_, hid⟩
    show m ∈ s'.broker.waiting
    obtain hw | ⟨msg, -, hw⟩ := hw
    · rwa [hw]
    · rw [hw]
      exact List.mem_append_left _ hm
  · exact Or.inr ht

variable {i : ℕ} {o : Oracle} {q : Request} {α : Type} {e : Stmt α} {k : α → Prog Stmt Reply} {a : α}

/-- After a call of a thread that tends the row, the row is settled, a message waits, or the thread
still tends it. -/
theorem Tends.call {x : UUID} (h : Tends x ⟨q, .call e k⟩)
    (hj : jobsSucceed (.call c.store q o e a) = true) (hx : exec o e c.store = some (a, s')) :
    ((∃ m ∈ s'.broker.waiting, m.task.payload.fileID = x) ∨
      ∀ f ∈ s'.db.files, f.id = x → f.status ≠ .processing) ∨ Tends x ⟨q, k a⟩ := by
  obtain ⟨hq, hrel | hall⟩ | ⟨-, hnext⟩ := h
  · exact Or.inl (releases_exec hrel hj hx)
  · exact Or.inr (Or.inl ⟨hq, hall a⟩)
  · cases e with
    | broker b =>
      cases b with
      | enqueue task =>
        obtain ⟨m, hm, hid⟩ := enqueue_exec hj hx
        exact Or.inl (Or.inl ⟨m, hm, hid.trans hnext⟩)
      | _ => exact hnext.elim
    | _ => exact hnext.elim

/-- Which requests may leave a row in status `processing` that did not have it. -/
theorem produces_of_leavesProcessing {s : Store} {f : File} (hpre : CallKnown s q e)
    (hx : exec o e s = some (a, s')) (hr : renameKeepsProcessing (.call s q o e a) = true)
    (hold : ¬∃ g ∈ s.db.files, g.id = f.id ∧ g.status = .processing)
    (hl : LeavesProcessing f.id e a) : Produces q := by
  cases e with
  | write w =>
    obtain ⟨db', hw, -⟩ := exec_write hx
    cases w with
    | createFile mk =>
      obtain ⟨rfl, -⟩ | ⟨-, -, -, rfl, -⟩ := Write.createFile_cases hw
      · exact hl.elim
      · obtain ⟨-, -, ⟨hpresigned, -⟩ | ⟨upload, rfl, -⟩⟩ := hpre o.uuid
        · cases hpresigned.pending.symm.trans hl.2
        · trivial
    | presignVersion userID root mk =>
      obtain ⟨rfl, -⟩ | ⟨-, -, -, rfl, -⟩ := Write.presignVersion_cases hw
      · exact hl.elim
      · obtain ⟨-, -, -, -, hpresigned⟩ := hpre.2.2 o.uuid
        cases hpresigned.pending.symm.trans hl.2
    | saveFile f₀ =>
      obtain ⟨⟨userID, id, rfl⟩ | ⟨userID, id, body, rfl⟩, -⟩ := hpre
      · trivial
      · cases a with
        | error e => exact hl.elim
        | ok u =>
          obtain ⟨hid, hp⟩ := hl
          refine absurd ?_ hold
          simpa [renameKeepsProcessing, hp, hid, Table.mem_def] using hr
    | updateFile id u =>
      obtain ⟨worker, msg, -, -, -, -, rfl | rfl⟩ := hpre
      all_goals cases a with
        | error e => exact hl.elim
        | ok _ =>
          have hp := hl.2
          simp [failedUpdates] at hp
    | _ => cases a <;> exact hl.elim
  | _ => exact hl.elim

theorem JobsInv.call (h : JobsInv c) (hth : c.threads[i]? = some ⟨q, .call e k⟩)
    (hpre : CallKnown c.store q e) (hx : exec o e c.store = some (a, s'))
    (hj : jobsSucceed (.call c.store q o e a) = true)
    (hr : renameKeepsProcessing (.call c.store q o e a) = true) :
    JobsInv ⟨s', c.threads.set i ⟨q, k a⟩, .call c.store q o e a :: c.trace⟩ := by
  obtain ⟨hi, hith⟩ := List.getElem?_eq_some_iff.1 hth
  have hmem : (⟨q, .call e k⟩ : Thread Request Stmt Reply) ∈ c.threads := List.mem_of_getElem? hth
  have hnew : (⟨q, k a⟩ : Thread Request Stmt Reply) ∈ c.threads.set i ⟨q, k a⟩ :=
    List.mem_set hi _
  have hsound : Produces q → (∀ x, LeavesProcessing x e a → AboutToEnqueue x (k a)) ∧
      EnqueuesNext (k a) := fun hq => h.producers _ hmem hq o c.store a s' hx
  refine ⟨fun f hf hp => ?_, fun th hth' hpr => ?_⟩
  · by_cases hold : ∃ g ∈ c.store.db.files, g.id = f.id ∧ g.status = .processing
    · obtain ⟨g, hg, hid, hgp⟩ := hold
      obtain ⟨m, hm, hmid⟩ | ⟨th, hth', ht⟩ := hid ▸ h.tended g hg hgp
      · exact Or.inl ⟨m, waiting_exec hx hm, hmid⟩
      · obtain ⟨j, hj'⟩ := List.mem_iff_getElem?.1 hth'
        by_cases hij : i = j
        · subst hij
          obtain rfl := Option.some.inj (hth.symm.trans hj')
          obtain (hw | hsettled) | ht := ht.call hj hx
          · exact Or.inl hw
          · exact absurd hp (hsettled f hf rfl)
          · exact Or.inr ⟨_, hnew, ht⟩
        · refine Or.inr ⟨th, List.mem_iff_getElem?.2 ⟨j, ?_⟩, ht⟩
          rw [List.getElem?_set_ne hij]
          exact hj'
    · have hl := (processing_cases hx hf hp).resolve_left hold
      have hq := produces_of_leavesProcessing hpre hx hr hold hl
      exact Or.inr ⟨_, hnew, Or.inr ⟨hq, (hsound hq).1 _ hl⟩⟩
  · rcases List.mem_or_eq_of_mem_set hth' with hth' | rfl
    · exact h.producers th hth' hpr
    · exact (hsound hpr).2

end Steps

/-! ## Every run -/

/-- **Processing files have a job**: in every run in which enqueues and row updates succeed, the last
attempt of each task goes to the worker that handles its type, and no rename writes `processing` over
another status. -/
theorem processing_hasJob (deps : Deps) (users : Table User) {c : Services}
    (h : (services deps).Reaches Machine.anySchedule (start (Store.fresh users)) c)
    (hjobs : ∀ st ∈ c.trace, jobsSucceed st = true)
    (hlast : ∀ st ∈ c.trace, lastAttemptHandled st = true)
    (hrename : ∀ st ∈ c.trace, renameKeepsProcessing st = true) :
    ∀ f ∈ c.store.db.files, f.status = .processing → HasJob c f.id := by
  have hP := provenance_valid deps
  suffices key : (provenance deps).Good c ∧ JobsInv c from
    fun f hf hp => (key.2.tended f hf hp).hasJob
  refine h.induct (I := fun c => (provenance deps).Good c ∧ JobsInv c)
    (C := fun st => jobsSucceed st = true ∧ lastAttemptHandled st = true ∧
      renameKeepsProcessing st = true) ⟨Outline.good_init (wellFormed_fresh users), ?_⟩
    (fun st hst => ⟨hjobs st hst, hlast st hst, hrename st hst⟩) ?_
  · exact ⟨fun f hf => absurd hf Table.not_mem_empty, fun th hth => absurd hth List.not_mem_nil⟩
  · rintro c m c' ⟨hg, hinv⟩ - hn hc'
    refine ⟨hP.good_next hg hn fun _ _ => trivial, ?_⟩
    obtain ⟨q, s, -, ha, rfl⟩ | ⟨i, o, q, α, e, k, a, s, -, hth, ha, rfl⟩ | ⟨v, s, -, hv, rfl⟩ :=
      Machine.next_cases hn
    · exact hinv.start ha (hc' _ List.mem_cons_self).2.1
    · obtain ⟨hpre, -⟩ := hg.2 _ (List.mem_of_getElem? hth) c.store (Grows.refl _) hg.1
      obtain ⟨hj, -, hr⟩ := hc' _ List.mem_cons_self
      exact hinv.call hth hpre ha hj hr
    · exact hinv.env hv

/-! ### A video and the image worker -/

/-- Alice uploads a video; the last move writes its row. -/
def uploadVideo : List (Move Request Oracle EnvMove) :=
  [.start (.presign 1 (some ⟨lit "v.mp4", 3, lit "video/mp4", none⟩)),
    .step 0 {}, .step 0 {}, .step 0 { uuid := 100 }, .step 0 {}, .step 0 {},
    .env (.put (storageKey 1 100 (lit "v.mp4")) [1, 2, 3]),
    .start (.complete 1 (text 100)), .step 1 {}, .step 1 {}, .step 1 {}]

/-- The message of the video's task. -/
def videoMessage (retried : ℕ) : Message :=
  ⟨newVideoTranscodeTask ⟨100, storageKey 1 100 (lit "v.mp4")⟩, retried⟩

/-- The first attempt goes to the wrong worker, which puts the task back. -/
theorem processing_hasJob_uploadVideo :
    ∃ c : Services, (services plainDeps).Reaches Machine.anySchedule
      (start (Store.fresh aliceOnly)) c ∧
      (c.store.db.files.rows.any fun f => f.status = .processing) = true ∧
      ∀ f ∈ c.store.db.files, f.status = .processing → HasJob c f.id := by
  obtain ⟨c, hc, hP⟩ := exists_run Machine.anySchedule
    (uploadVideo ++ [.step 1 {}, .start (.deliver .image (videoMessage 0)), .step 2 {}])
    (fun c => (c.store.db.files.rows.any fun f => f.status = .processing) &&
      c.trace.all fun st => jobsSucceed st && (lastAttemptHandled st && renameKeepsProcessing st))
    (by decide)
  simp only [Bool.and_eq_true, List.all_eq_true] at hP
  exact ⟨c, hc, hP.1, processing_hasJob plainDeps aliceOnly hc (fun st hst => (hP.2 st hst).1)
    (fun st hst => (hP.2 st hst).2.1) fun st hst => (hP.2 st hst).2.2⟩

/-- Nothing works on a file when every thread has answered and the queue is empty. -/
theorem not_hasJob_of_quiet {c : Services} {x : UUID} (hq : c.quiet = true)
    (hw : c.store.broker.waiting = []) : ¬HasJob c x := by
  have hdone : ∀ th ∈ c.threads, th.prog.isDone = true := List.all_eq_true.1 hq
  rintro (⟨m, hm, -⟩ | ⟨th, hth, hrun, -⟩ | ⟨th, hth, -, hnext⟩)
  · rw [hw] at hm
    cases hm
  · rw [hdone th hth] at hrun
    cases hrun
  · have := hdone th hth
    cases hp : th.prog with
    | ret r =>
      rw [hp] at hnext
      exact hnext
    | call e k =>
      rw [hp] at this
      cases this

/-- All three attempts go to the image worker: the task is archived and the row stays `processing`. -/
theorem processing_without_job :
    ∃ c : Services, (services plainDeps).Reaches Machine.anySchedule
      (start (Store.fresh aliceOnly)) c ∧ (∀ st ∈ c.trace, succeeds st = true) ∧
      ∃ f ∈ c.store.db.files, f.status = .processing ∧ ¬HasJob c f.id := by
  obtain ⟨c, hc, hP⟩ := exists_run Machine.anySchedule
    (uploadVideo ++ [.step 1 {}, .start (.deliver .image (videoMessage 0)), .step 2 {},
      .start (.deliver .image (videoMessage 1)), .step 3 {},
      .start (.deliver .image (videoMessage 2)), .step 4 {}])
    (fun c => c.trace.all succeeds && (c.quiet && (c.store.broker.waiting.isEmpty &&
      c.store.db.files.rows.any fun f => f.status = .processing)))
    (by decide)
  simp only [Bool.and_eq_true, List.all_eq_true, List.any_eq_true, List.isEmpty_iff,
    decide_eq_true_eq] at hP
  obtain ⟨hs, hq, hw, f, hf, hp⟩ := hP
  exact ⟨c, hc, hs, f, hf, hp, not_hasJob_of_quiet hq hw⟩

end Optiflow
