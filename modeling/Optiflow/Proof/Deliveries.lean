import Optiflow.Lib.Custody
import Optiflow.Proof.Finished

/-!
# Deliveries

A delivery works quietly until it writes to the row of its file or settles its message.  The rules here
read a delivery for any property of programs that quiet calls keep (`quiet`): `processTask_rule` for the
attempt, `handleTaskError_rule` and `notifyUser_rule` for what follows it.  With them every task is
accounted for: it waits, or a delivery has it, or it was archived, or it was processed, once for each
time that it was enqueued or delivered again (`tasks_conserved`).
-/

namespace Optiflow

open Interleave Code UploadSvc ApiSvc Workers

/-! ## Quiet calls -/

/-- A call that reads, stores an object or runs a tool, and tells nobody. -/
def Stmt.quiet {α : Type} : Stmt α → Prop
  | .query _ => True
  | .bucket _ => True
  | .tool (.notify _ _ _ _) => False
  | .tool _ => True
  | _ => False

/-- Code of quiet calls that does not answer. -/
abbrev Quiet {α : Type} (c : Handler α) : Prop := c.Over Stmt.quiet fun _ => False

section Pieces

variable {tools : Tools}

theorem quiet_bucket {α : Type} (b : BucketStmt α) : Quiet (bucket b) := over_call trivial

theorem quiet_system (what : String) : Quiet (tool (.system what)) := over_call trivial

theorem quiet_downloadOriginal (key : GoString) : Quiet (downloadOriginal key) := by
  refine over_bind (over_call trivial) fun _ => over_ite (over_pure _) ?_
  refine over_bind (over_call trivial) fun _ => over_ite (over_pure _) ?_
  refine over_bind (over_call trivial) fun a => ?_
  cases a <;> exact over_pure _

theorem quiet_probeDimensions (input : Bytes) : Quiet (Workers.probeDimensions tools input) :=
  over_bind (over_call trivial) fun _ => over_ite (over_pure _) (over_pure _)

theorem quiet_probeDuration (input : Bytes) : Quiet (Workers.probeDuration tools input) :=
  over_bind (over_call trivial) fun _ => over_ite (over_pure _) (over_pure _)

theorem quiet_uploadFile (key : GoString) (body : Bytes) (contentType : GoString) :
    Quiet (uploadFile key body contentType) :=
  over_bind (over_call trivial) fun _ => over_ite (over_pure _) (over_call trivial)

theorem quiet_uploadEntries (directory : GoString) :
    ∀ entries : List (GoString × Bytes), Quiet (uploadEntries directory entries)
  | [] => over_pure _
  | _ :: entries => over_bind (quiet_uploadFile _ _ _) fun _ =>
      over_ite (over_pure _) (quiet_uploadEntries directory entries)

theorem quiet_uploadRenditionFiles (files : List (GoString × Bytes)) (directory : GoString) :
    Quiet (uploadRenditionFiles files directory) :=
  over_bind (over_call trivial) fun _ => over_ite (over_pure _) (quiet_uploadEntries _ _)

end Pieces

/-! ## Reading a delivery -/

/-- The title of the notification that a task was finished. -/
def readyTitle : Worker → GoString
  | .image => lit "Thumbnail ready"
  | .video => lit "Video ready"

def readyText : Worker → GoString
  | .image => lit "Your thumbnail for %q is ready."
  | .video => lit "Your video %q finished processing."

/-- The title of the notification that a task was given up. -/
def failedTitle : GoString := lit "Processing failed"

def failedText : Worker → GoString
  | .image => lit "We couldn't generate a thumbnail for %q."
  | .video => lit "We couldn't process your video %q."

section Rules

variable {tools : Tools} {worker : Worker} {msg : Message} {task : Task} {P : Prog Stmt Reply → Prop}
  (quiet : ∀ {α : Type} (e : Stmt α) (k : α → Prog Stmt Reply), e.quiet → (∀ a, P (k a)) →
    P (.call e k))
include quiet

/-- Code of quiet calls. -/
theorem quiet_rule {α : Type} (c : Handler α) (hc : Quiet c) {k : α → Prog Stmt Reply}
    (h : ∀ a, P (k a)) : P (c k) :=
  hc P quiet (fun _ hr => hr.elim) k h

variable {k : Option TaskError → Prog Stmt Reply} (hfail : ∀ err, P (k (some err)))
  (hready : task.type = worker.handles → ∀ K : Except DbError Unit → Prog Stmt Reply,
    (∀ e, P (K (.error e))) →
    K (.ok ()) = notifyUser tools task.payload.fileID (readyTitle worker) (readyText worker)
      (fun _ => k none) →
    P (.call (.write (.updateFile task.payload.fileID (finishedUpdates task))) K))
include hfail hready

theorem handleImageThumbnail_rule (hw : worker = .image) (htype : task.type = worker.handles) :
    P (handleImageThumbnail tools task.payload k) := by
  subst hw
  refine quiet_rule quiet (bucket _) (quiet_bucket _) fun opened => ?_
  cases opened with
  | false => exact hfail _
  | true =>
    refine quiet_rule quiet (bucket _) (quiet_bucket _) fun original => ?_
    cases original with
    | none => exact hfail _
    | some original =>
      refine thumbnail_cases (fun _ => hfail _) (fun _ => hfail _) fun body _ => ?_
      refine quiet_rule quiet (bucket _) (quiet_bucket _) fun stored => ?_
      cases stored with
      | false => exact hfail _
      | true =>
        have hupdates : finishedUpdates task = thumbnailUpdates task.payload.fileID := by
          simp only [finishedUpdates, show task.type = .imageThumbnail from htype]
        have := hready htype
        rw [hupdates] at this
        exact this _ (fun _ => hfail _) rfl

theorem publish_rule (hw : worker = .video) (htype : task.type = worker.handles)
    {poster master : Bytes} {files : List (GoString × Bytes)} :
    P (publish tools task.payload poster files master k) := by
  subst hw
  refine quiet_rule quiet (uploadFile _ _ _) (quiet_uploadFile _ _ _) fun stored => ?_
  cases stored with
  | false => exact hfail _
  | true =>
    refine quiet_rule quiet (uploadRenditionFiles _ _) (quiet_uploadRenditionFiles _ _) fun stored => ?_
    cases stored with
    | false => exact hfail _
    | true =>
      refine quiet_rule quiet (bucket _) (quiet_bucket _) fun stored => ?_
      cases stored with
      | false => exact hfail _
      | true =>
        have hupdates : finishedUpdates task = transcodeUpdates task.payload.fileID := by
          simp only [finishedUpdates, show task.type = .videoTranscode from htype]
        have := hready htype
        rw [hupdates] at this
        exact this _ (fun _ => hfail _) rfl

theorem transcode_rule (hw : worker = .video) (htype : task.type = worker.handles) :
    P (transcode tools task.payload k) := by
  refine quiet_rule quiet (tool _) (quiet_system _) fun ok => ?_
  cases ok with
  | false => exact hfail _
  | true =>
    refine quiet_rule quiet (downloadOriginal _) (quiet_downloadOriginal _) fun input => ?_
    cases input with
    | error message => exact hfail _
    | ok input =>
      refine quiet_rule quiet (Workers.probeDimensions _ _) (quiet_probeDimensions _) fun dims => ?_
      cases dims with
      | none => exact hfail _
      | some dims =>
        refine quiet_rule quiet (Workers.probeDuration _ _) (quiet_probeDuration _) fun ok => ?_
        cases ok with
        | false => exact hfail _
        | true =>
          refine quiet_rule quiet (tool _) (quiet_system _) fun ok => ?_
          cases ok with
          | false => exact hfail _
          | true =>
            refine quiet_rule quiet (tool .extractPoster) (over_call trivial) fun poster => ?_
            cases poster with
            | none => exact hfail _
            | some poster =>
              refine quiet_rule quiet (transcodeRenditions _)
                (over_transcodeRenditions (fun _ => trivial) _) fun files => ?_
              cases files with
              | none => exact hfail _
              | some files => exact publish_rule quiet hfail hready hw htype

/-- **An attempt** works quietly until it fails, or makes the row of the file ready and tells its owner. -/
theorem processTask_rule : P (processTask tools worker task k) := by
  unfold processTask
  rw [Code.ite_run]
  split
  · next htype =>
    cases worker with
    | image => exact handleImageThumbnail_rule quiet hfail hready rfl htype
    | video => exact transcode_rule quiet hfail hready rfl htype
  · exact hfail _

omit quiet hfail hready

/-- A notification: the row of the file is looked up, and its owner is told. -/
theorem notifyUser_rule {fileID : UUID} {title messageFmt : GoString} {k : Unit → Prog Stmt Reply}
    (hskip : P (k ())) (htell : ∀ K : Except DbError File → Prog Stmt Reply,
      (∀ e, K (.error e) = k ()) →
      (∀ file, K (.ok file) =
        .call (.tool (.notify file.userID title messageFmt file.name)) fun _ => k ()) →
      P (.call (.query (.fileByID fileID)) K)) : P (notifyUser tools fileID title messageFmt k) := by
  unfold notifyUser
  rw [Code.ite_run]
  split
  · exact htell _ (fun _ => rfl) fun _ => rfl
  · exact hskip

/-- After an error nothing happens, or else the row is marked and its owner told. -/
theorem handleTaskError_rule {err : TaskError} {k : Unit → Prog Stmt Reply} (hmild : P (k ()))
    (hfatal : terminal msg err = true → msg.task.type = worker.handles →
      ∀ K : Except DbError Unit → Prog Stmt Reply,
      (∀ a, K a = notifyUser tools msg.task.payload.fileID failedTitle (failedText worker) k) →
      P (.call (.write (.updateFile msg.task.payload.fileID failedUpdates)) K)) :
    P (handleTaskError tools worker msg err k) := by
  unfold handleTaskError
  rw [Code.ite_run]
  split
  · next hterminal =>
    rw [Code.ite_run]
    split
    · next htype =>
      refine hfatal hterminal htype _ fun _ => ?_
      cases worker <;> rfl
    · exact hmild
  · exact hmild

end Rules

/-! ## Who has a task -/

/-- The message that the call settles: it is put back, or archived. -/
def Stmt.settled? {α : Type} : Stmt α → Option Message
  | .broker (.retry msg) => some msg
  | .broker (.archive msg) => some msg
  | _ => none

/-- A delivery that has its message until it settles it, or for good when the task was processed. -/
def Holding (msg : Message) : Prog Stmt Reply → Prop
  | .ret r => r = .processed none
  | .call e k => (e.settled? = some msg ∧ ∀ a, ∃ err, k a = .ret (.processed (some err))) ∨
      e.settled? = none ∧ ∀ a, Holding msg (k a)

/-- The thread is a delivery of the task and has not given it back. -/
def holdsTask (task : Task) (th : Thread Request Stmt Reply) : Bool :=
  match th.origin, th.prog with
  | .deliver _ _, .ret (.processed (some _)) => false
  | .deliver _ msg, _ => msg.task = task
  | _, _ => false

/-- The step puts the task into the queue from outside: a call of `Enqueue` that is answered, or a
message that is delivered again. -/
def addsTask (task : Task) : ServiceStep → Bool
  | .call _ _ _ (.broker (.enqueue t)) queued => queued && t = task
  | .env _ (.redeliver msg) => msg.task = task
  | _ => false

/-- The messages of a task that wait or are archived. -/
def Store.messages (task : Task) (s : Store) : ℕ :=
  (s.broker.waiting ++ s.broker.archived).countP fun m => m.task = task

section Custody

variable {deps : Deps} {q : Request} {s s' : Store} {task : Task} {msg : Message} {worker : Worker}
  {tools : Tools} {α : Type}

theorem messages_congr (h : s'.broker = s.broker) : s'.messages task = s.messages task := by
  rw [Store.messages, h]
  rfl

variable (q task) in
/-- A call adds what it settles and what it enqueues. -/
theorem messages_exec {o : Oracle} {e : Stmt α} {a : α} (hx : exec o e s = some (a, s')) :
    s'.messages task = s.messages task + (e.settled?.elim 0 fun m => (decide (m.task = task)).toNat) +
      (addsTask task (.call s q o e a)).toNat := by
  cases e with
  | broker b =>
    obtain ⟨rfl, rfl⟩ := Prod.mk.inj (Option.some.inj hx)
    cases b with
    | enqueue t =>
      by_cases hfails : o.fails = true
      · simp [BrokerStmt.run, hfails, Store.messages, Stmt.settled?, addsTask]
      · simp only [BrokerStmt.run, hfails, Bool.false_eq_true, if_false, Store.messages,
          List.countP_append, List.countP_singleton, Stmt.settled?, Option.elim_none, addsTask,
          Bool.true_and]
        by_cases ht : t = task
        · simp only [ht, decide_true, if_true, Bool.toNat_true]
          omega
        · simp [ht]
    | retry m =>
      simp only [BrokerStmt.run, Store.messages, List.countP_append, List.countP_singleton,
        Stmt.settled?, Option.elim_some, addsTask]
      by_cases ht : m.task = task
      · simp only [ht, decide_true, if_true, Bool.toNat_true, Bool.toNat_false]
        omega
      · simp [ht]
    | archive m =>
      simp only [BrokerStmt.run, Store.messages, List.countP_append, List.countP_cons,
        Stmt.settled?, Option.elim_some, addsTask]
      by_cases ht : m.task = task
      · simp only [ht, decide_true, if_true, Bool.toNat_true, Bool.toNat_false]
        omega
      · simp [ht]
  | write w =>
    obtain ⟨db', -, rfl⟩ := exec_write hx
    rfl
  | newUUID =>
    simp only [exec] at hx
    split at hx
    · cases hx
    · obtain ⟨-, rfl⟩ := Prod.mk.inj (Option.some.inj hx)
      rfl
  | _ =>
    obtain ⟨-, rfl⟩ := Prod.mk.inj (Option.some.inj hx)
    rfl

/-! ### Deliveries -/

theorem settled?_of_quiet {e : Stmt α} (h : e.quiet) : e.settled? = none := by
  cases e with
  | broker b => exact h.elim
  | _ => rfl

theorem holding_quiet (e : Stmt α) (k : α → Prog Stmt Reply) (he : e.quiet)
    (h : ∀ a, Holding msg (k a)) : Holding msg (.call e k) :=
  Or.inr ⟨settled?_of_quiet he, h⟩

theorem holding_notifyUser {fileID : UUID} {title messageFmt : GoString} {k : Unit → Prog Stmt Reply}
    (h : Holding msg (k ())) : Holding msg (notifyUser tools fileID title messageFmt k) := by
  refine notifyUser_rule h fun K herror hok => Or.inr ⟨rfl, fun a => ?_⟩
  cases a with
  | error e => exact herror e ▸ h
  | ok file => exact hok file ▸ Or.inr ⟨rfl, fun _ => h⟩

theorem holding_deliver : Holding msg (deliver tools worker msg .ret) := by
  have hfail : ∀ err, Holding msg (handleTaskError tools worker msg err fun _ =>
      settle msg err fun _ => .ret (.processed (some err))) := by
    intro err
    have hsettle : Holding msg (settle msg err fun _ => .ret (.processed (some err))) := by
      unfold settle
      rw [Code.ite_run]
      split
      · exact Or.inl ⟨rfl, fun _ => ⟨err, rfl⟩⟩
      · exact Or.inl ⟨rfl, fun _ => ⟨err, rfl⟩⟩
    refine handleTaskError_rule hsettle fun _ _ K hK => Or.inr ⟨rfl, fun a => ?_⟩
    exact hK a ▸ holding_notifyUser hsettle
  refine processTask_rule holding_quiet hfail fun _ K herror hok => Or.inr ⟨rfl, fun a => ?_⟩
  cases a with
  | error e => exact herror e
  | ok _ => exact hok ▸ holding_notifyUser rfl

/-! ### Other requests -/

/-- Code that settles no message, and may answer early. -/
abbrev Serves (c : Handler α) : Prop := c.Over (fun e => e.settled? = none) fun _ => True

theorem Plain.settled?_eq_none {puts : Bool} {e : Stmt α} (h : Plain puts e) : e.settled? = none := by
  cases e with
  | broker b => exact h.elim
  | _ => rfl

theorem Inert.serves {puts : Bool} {c : Handler α} (h : Inert puts c) : Serves c :=
  h.mono (fun _ he => he.settled?_eq_none) fun _ hr => hr

theorem Looks.serves {c : Handler α} (h : Looks c) : Serves c := (h.inert : Inert true c).serves

theorem serves_write (w : Write α) : Serves (write w) := over_call rfl

theorem serves_staging (st : StagingStmt α) : Serves (staging st) := over_call rfl

theorem serves_enqueueOrLog (task : Option Task) : Serves (enqueueOrLog task) := by
  cases task with
  | none => exact over_pure ()
  | some task => exact over_bind (over_call rfl) fun _ => over_pure ()

theorem serves_presign (userID : UUID) (body : Option PresignRequest) : Serves (presign userID body) := by
  refine over_bind (silent_decodeBody _).over fun req => over_bind (silent_failIf _ _ _).over fun _ => ?_
  refine over_bind (reads_checkQuota _ _).looks.serves fun a => ?_
  refine over_bind (silent_orQuotaError _).over fun _ => ?_
  refine over_bind (reads_ownedFolderID _ _).looks.serves fun folderID => ?_
  refine over_bind (serves_write _) fun a => over_bind (silent_foundOr a).over fun file => ?_
  exact (inert_presignUpload file).serves

theorem serves_complete (userID : UUID) (id : GoString) : Serves (complete userID id) := by
  refine over_bind (silent_parseID _ _).over fun fileID => over_bind (over_call rfl) fun a => ?_
  refine over_bind (silent_found a).over fun file => over_bind (silent_failIf _ _ _).over fun _ => ?_
  refine over_bind (over_call rfl) fun size => ?_
  cases size with
  | none => exact (silent_fail _ _).over
  | some size =>
    refine over_bind (serves_write _) fun a => over_bind (silent_foundOr a).over fun _ => ?_
    exact over_bind (serves_enqueueOrLog _) fun _ => over_pure _

theorem serves_presignVersion (userID : UUID) (id : GoString) (body : Option PresignVersionRequest) :
    Serves (presignVersion userID id body) := by
  refine over_bind (silent_parseID _ _).over fun fileID => over_bind (silent_decodeBody _).over fun req => ?_
  refine over_bind (silent_failIf _ _ _).over fun _ => over_bind (over_call rfl) fun a => ?_
  refine over_bind (silent_found a).over fun anyVersion => ?_
  refine over_bind (reads_checkQuota _ _).looks.serves fun a => ?_
  refine over_bind (silent_orQuotaError _).over fun _ => over_bind (over_call rfl) fun a => ?_
  refine over_bind (silent_foundOr a).over fun current => over_bind (over_call rfl) fun a => ?_
  refine over_bind (silent_foundOr a).over fun maxVersion => over_bind (serves_write _) fun a => ?_
  exact over_bind (silent_foundOr a).over fun file => (inert_presignUpload file).serves

theorem serves_tusPreCreate (userID : Option UUID) (upload : Upload) :
    Serves (tusPreCreate userID upload) := by
  cases userID with
  | none => exact over_exit trivial
  | some userID =>
    refine over_bind (over_ite (over_exit trivial) (over_pure ())) fun _ => ?_
    refine over_bind (reads_tusCheckFolder _ _).looks.serves fun _ => ?_
    refine over_bind (reads_checkQuota _ _).looks.serves fun a => ?_
    match a with
    | .error (.exceeded message) => exact over_exit trivial
    | .error .other => exact over_exit trivial
    | .ok () => exact over_bind (serves_staging _) fun _ => over_pure _

theorem serves_finishTusUpload (upload : Upload) : Serves (finishTusUpload upload) := by
  unfold finishTusUpload
  cases UUID.parse (upload.metaData.get (lit "user_id")) with
  | none => exact over_exit trivial
  | some userID =>
    refine over_bind (over_ite (over_exit trivial) (over_pure ())) fun _ => ?_
    refine over_bind (serves_staging _) fun body => ?_
    cases body with
    | none => exact over_pure _
    | some body =>
      refine over_bind (over_call rfl) fun fileID => over_bind (over_call rfl) fun stored => ?_
      refine over_bind (over_ite (over_exit trivial) (over_pure ())) fun _ => ?_
      refine over_bind (serves_write _) fun a => ?_
      cases a with
      | error e => exact over_pure _
      | ok file =>
        refine over_bind (serves_enqueueOrLog _) fun _ => over_bind (serves_staging _) fun _ => ?_
        exact over_bind (serves_staging _) fun _ => over_pure _

theorem serves_shareDownloadURL (verify : GoString → GoString → Bool) (token : GoString)
    (body : Option GoString) : Serves (shareDownloadURL verify token body) := by
  refine over_bind (looks_resolveActiveShare token).serves fun a => ?_
  refine over_bind (silent_found a).over fun share => ?_
  refine over_bind (silent_checkPassword _ _ _).over fun _ => over_bind (over_call rfl) fun a => ?_
  refine over_bind (silent_foundOr a).over fun file => over_bind (silent_failIf _ _ _).over fun _ => ?_
  refine over_bind (over_call rfl) fun url => ?_
  cases url with
  | none => exact (silent_fail _ _).over
  | some url =>
    exact over_bind (serves_write _) fun _ => over_bind (over_call rfl) fun _ => over_pure _

theorem serves_createFolder (userID : UUID) (body : Option FolderRequest) :
    Serves (createFolder userID body) := by
  refine over_bind (silent_decodeBody _).over fun req => over_bind (silent_failIf _ _ _).over fun _ => ?_
  refine over_bind (reads_ownedParentID _ _).looks.serves fun parentID => ?_
  exact over_bind (serves_write _) fun a => over_bind (silent_foundOr a).over fun _ => over_pure _

theorem serves_updateFolder (userID : UUID) (id : GoString) (body : Option FolderRequest) (steps : ℕ) :
    Serves (updateFolder userID id body steps) := by
  refine over_bind (silent_parseID _ _).over fun folderID => over_bind (over_call rfl) fun a => ?_
  refine over_bind (silent_foundOr a).over fun folder => over_bind (silent_decodeBody _).over fun req => ?_
  refine over_bind (reads_moveFolder _ _ _ _ _).looks.serves fun folder => ?_
  exact over_bind (serves_write _) fun a => over_bind (silent_foundOr a).over fun _ => over_pure _

theorem serves_updateFile (userID : UUID) (id : GoString) (body : Option FileUpdateRequest) :
    Serves (updateFile userID id body) := by
  refine over_bind (silent_parseID _ _).over fun fileID => over_bind (over_call rfl) fun a => ?_
  refine over_bind (silent_foundOr a).over fun file => over_bind (silent_decodeBody _).over fun req => ?_
  refine over_bind (silent_renameFile _ _).over fun file => ?_
  refine over_bind (reads_moveFile _ _ _).looks.serves fun file => ?_
  exact over_bind (serves_write _) fun a => over_bind (silent_foundOr a).over fun _ => over_pure _

theorem serves_cleanupFiles (files : List File) : Serves (cleanupFiles files) :=
  ((passing_cleanupFiles files).inert : Inert false (cleanupFiles files)).serves

theorem serves_deleteFile (userID : UUID) (id : GoString) : Serves (deleteFile userID id) := by
  refine over_bind (silent_parseID _ _).over fun fileID => over_bind (over_call rfl) fun a => ?_
  refine over_bind (silent_foundOr a).over fun file => over_bind (serves_write _) fun a => ?_
  exact over_bind (silent_foundOr a).over fun _ => over_bind (serves_cleanupFiles _) fun _ => over_pure _

theorem serves_deleteFolder (userID : UUID) (id : GoString) : Serves (deleteFolder userID id) := by
  refine over_bind (silent_parseID _ _).over fun folderID => over_bind (over_call rfl) fun a => ?_
  refine over_bind (silent_foundOr a).over fun _ => over_bind (serves_write _) fun a => ?_
  exact over_bind (silent_foundOr a).over fun _ => over_bind (serves_cleanupFiles _) fun _ => over_pure _

theorem serves_restoreFileVersion (userID : UUID) (id versionID : GoString) :
    Serves (restoreFileVersion userID id versionID) := by
  refine over_bind (silent_parseID _ _).over fun fileID => over_bind (silent_parseID _ _).over fun target => ?_
  refine over_bind (over_call rfl) fun a => over_bind (silent_foundOr a).over fun file => ?_
  refine over_bind (over_call rfl) fun a => over_bind (silent_found a).over fun target => ?_
  refine over_bind (silent_failIf _ _ _).over fun _ => over_bind (serves_write _) fun a => ?_
  exact over_bind (silent_foundOr a).over fun _ => over_pure _

theorem serves_createShare (userID : UUID) (id : GoString) (req : ShareCreateRequest) :
    Serves (createShare userID id req) := by
  refine over_bind (silent_parseID _ _).over fun fileID => over_bind (over_call rfl) fun a => ?_
  refine over_bind (silent_foundOr a).over fun file => over_bind (over_call rfl) fun generated => ?_
  refine over_bind (silent_failIf _ _ _).over fun _ => ?_
  refine over_bind (reads_shareExpiry userID _).looks.serves fun expiresAt => ?_
  refine over_bind (reads_shareLimit userID _).looks.serves fun limit => ?_
  refine over_bind (asks_sharePasswordHash userID _).looks.serves fun hash => ?_
  exact over_bind (serves_write _) fun a => over_bind (silent_foundOr a).over fun _ => over_pure _

theorem serves_deleteShare (userID : UUID) (id : GoString) : Serves (deleteShare userID id) := by
  refine over_bind (silent_parseID _ _).over fun shareID => over_bind (serves_write _) fun a => ?_
  refine over_bind (silent_foundOr a).over fun affected => over_bind (silent_failIf _ _ _).over fun _ => ?_
  exact over_pure _

theorem serves_handler (hq : ∀ worker msg, q ≠ .deliver worker msg) : Serves (q.handler deps) := by
  by_cases hlooks : q.looks = true
  · exact (looks_handler hlooks).serves
  cases q with
  | presign userID body => exact serves_presign userID body
  | complete userID id => exact serves_complete userID id
  | presignVersion userID id body => exact serves_presignVersion userID id body
  | tusPreCreate userID upload => exact serves_tusPreCreate userID upload
  | finishTusUpload upload => exact serves_finishTusUpload upload
  | shareDownloadURL token body => exact serves_shareDownloadURL deps.verifyPassword token body
  | createFolder userID body => exact serves_createFolder userID body
  | updateFolder userID id body steps => exact serves_updateFolder userID id body steps
  | deleteFolder userID id => exact serves_deleteFolder userID id
  | updateFile userID id body => exact serves_updateFile userID id body
  | deleteFile userID id => exact serves_deleteFile userID id
  | restoreFileVersion userID id versionID => exact serves_restoreFileVersion userID id versionID
  | createShare userID id req => exact serves_createShare userID id req
  | deleteShare userID id => exact serves_deleteShare userID id
  | deliver worker msg => exact absurd rfl (hq worker msg)
  | _ => exact absurd rfl hlooks

/-! ### The accounts -/

/-- What is left of a request's program: a delivery has its message or has settled it, and no other
request settles one. -/
def Settling (q : Request) (p : Prog Stmt Reply) : Prop :=
  (∀ worker msg, q = .deliver worker msg →
    Holding msg p ∨ ∃ err, p = .ret (.processed (some err))) ∧
  ((∀ worker msg, q ≠ .deliver worker msg) → p.Makes fun e => e.settled? = none)

/-- Who has the messages of a task. -/
def custody (deps : Deps) (task : Task) : Custody (services deps) where
  shape := Settling
  held q p := (holdsTask task ⟨q, p⟩).toNat
  stored s := s.messages task
  made st := (addsTask task st).toNat

theorem holdsTask_of_holding {p : Prog Stmt Reply} (h : Holding msg p) :
    holdsTask task ⟨.deliver worker msg, p⟩ = decide (msg.task = task) := by
  cases p with
  | ret r =>
    obtain rfl : r = .processed none := h
    rfl
  | call e k => rfl

theorem holdsTask_of_ne {p : Prog Stmt Reply} (hq : ∀ worker msg, q ≠ .deliver worker msg) :
    holdsTask task ⟨q, p⟩ = false := by
  cases q with
  | deliver worker msg => exact absurd rfl (hq worker msg)
  | _ => cases p <;> rfl

theorem settling_handler (q : Request) : Settling q ((services deps).handler q) := by
  refine ⟨?_, fun hq => (serves_handler hq).makes fun _ => trivial⟩
  rintro worker msg rfl
  exact Or.inl holding_deliver

theorem custody_start (hq : q.launch s = some s') :
    s'.messages task + (holdsTask task ⟨q, (services deps).handler q⟩).toNat = s.messages task := by
  obtain ⟨-, -, -, -, ⟨hbroker, hne⟩ | ⟨worker, msg, rfl, hm, hbroker⟩⟩ := launch_cases hq
  · rw [messages_congr hbroker, holdsTask_of_ne hne]
    rfl
  · have hholds : holdsTask task ⟨.deliver worker msg, (services deps).handler (.deliver worker msg)⟩ =
        decide (msg.task = task) := holdsTask_of_holding holding_deliver
    have hwaiting := (List.perm_cons_erase hm).countP_eq fun m => decide (m.task = task)
    rw [List.countP_cons] at hwaiting
    rw [hholds, Store.messages, Store.messages, hbroker]
    simp only [List.countP_append, hwaiting]
    by_cases ht : msg.task = task
    · simp only [ht, decide_true, if_true, Bool.toNat_true]
      omega
    · simp [ht]

variable (task) in
theorem custody_call {o : Oracle} {e : Stmt α} {k : α → Prog Stmt Reply} {a : α}
    (h : Settling q (.call e k)) (hx : exec o e s = some (a, s')) :
    Settling q (k a) ∧ s'.messages task + (holdsTask task ⟨q, k a⟩).toNat =
      s.messages task + (holdsTask task ⟨q, .call e k⟩).toNat +
        (addsTask task (.call s q o e a)).toNat := by
  have hmessages := messages_exec q task hx
  by_cases hq : ∀ worker msg, q ≠ .deliver worker msg
  · obtain ⟨he, hk⟩ := h.2 hq
    refine ⟨⟨fun worker msg h => absurd h (hq worker msg), fun _ => hk a⟩, ?_⟩
    rw [hmessages, he, holdsTask_of_ne hq, holdsTask_of_ne hq]
    rfl
  · obtain ⟨worker, msg, rfl⟩ : ∃ worker msg, q = .deliver worker msg := by
      simpa using hq
    obtain (⟨he, hk⟩ | ⟨he, hk⟩) | ⟨err, hp⟩ := h.1 worker msg rfl
    · obtain ⟨err, hret⟩ := hk a
      refine ⟨⟨fun _ _ _ => Or.inr ⟨err, hret⟩, fun hne => absurd rfl (hne worker msg)⟩, ?_⟩
      have hdone : holdsTask task ⟨.deliver worker msg, k a⟩ = false := by
        rw [hret]
        rfl
      have hhad : holdsTask task ⟨.deliver worker msg, .call e k⟩ = decide (msg.task = task) := rfl
      rw [hmessages, he, hdone, hhad, Option.elim_some]
      simp only [Bool.toNat_false]
      omega
    · refine ⟨⟨fun _ _ h' => ?_, fun hne => absurd rfl (hne worker msg)⟩, ?_⟩
      · cases h'
        exact Or.inl (hk a)
      · have hhad : holdsTask task ⟨.deliver worker msg, .call e k⟩ = decide (msg.task = task) := rfl
        rw [hmessages, he, holdsTask_of_holding (hk a), hhad, Option.elim_none]
        omega
    · cases hp

theorem custody_env {v : EnvMove} (hv : v.run s = some s') :
    s'.messages task = s.messages task + (addsTask task (.env s v)).toNat := by
  cases v with
  | redeliver msg =>
    simp only [EnvMove.run] at hv
    split at hv
    · obtain rfl := Option.some.inj hv
      simp only [Store.messages, List.countP_append, List.countP_singleton, addsTask]
      by_cases ht : msg.task = task
      · simp only [ht, decide_true, if_true, Bool.toNat_true]
        omega
      · simp [ht]
    · cases hv
  | _ =>
    simp only [EnvMove.run] at hv
    split at hv
    · obtain rfl := Option.some.inj hv
      rfl
    · cases hv

theorem custody_valid (deps : Deps) (task : Task) : (custody deps task).Valid where
  start hq := ⟨settling_handler _, (custody_start hq).trans (Nat.add_zero _).symm⟩
  call h hx := custody_call task h hx
  env hv := custody_env hv

end Custody

/-- **No task is lost and none is duplicated**: in every state of every interleaving, the messages of a
task that wait or were archived and the deliveries that have not given theirs back are as many as the
times that the task was enqueued or delivered again. -/
theorem tasks_conserved (deps : Deps) (users : Table User) {c : Services}
    (h : (services deps).Reaches Machine.anySchedule (start (Store.fresh users)) c) (task : Task) :
    (c.store.broker.waiting ++ c.store.broker.archived).countP (fun m => m.task = task) +
        c.threads.countP (holdsTask task) = c.trace.countP (addsTask task) := by
  have hconserved := (custody_valid deps task).conserved h
  simp only [custody, Custody.heldBy, sum_map_toNat] at hconserved
  exact hconserved.trans (Nat.zero_add _)

/-- The task of an image, after the wrong worker has put it back and Redis has delivered it again. -/
theorem tasks_conserved_image : ∃ c : Services,
    (services plainDeps).Reaches Machine.anySchedule (start (Store.fresh aliceOnly)) c ∧
    (c.store.broker.waiting ++ c.store.broker.archived).countP
        (fun m => m.task = imageMessage.task) + c.threads.countP (holdsTask imageMessage.task) = 2 := by
  obtain ⟨c, hc, hP⟩ := exists_run Machine.anySchedule
    (uploadImage ++ [.start (.deliver .video imageMessage), .step 2 {}, .env (.redeliver imageMessage)])
    (fun c => c.trace.countP (addsTask imageMessage.task) = 2) (by decide)
  refine ⟨c, hc, (tasks_conserved plainDeps aliceOnly hc imageMessage.task).trans ?_⟩
  simpa using hP

end Optiflow
