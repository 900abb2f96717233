import Optiflow.Lib.Assoc
import Optiflow.Lib.Interleave
import Optiflow.Model.Database
import Optiflow.Model.Hls

/-!
# The store and the calls on it

Everything the services share: the database, the bucket, the task broker, the staging directory of
resumable uploads, and the clock.  A `Stmt` is one call that a handler makes; `exec` is its effect.
Each kind of call changes one part of the store, so what it leaves alone can be read off `exec`.
-/

namespace Optiflow

/-! ## The bucket -/

/-- Stored objects, and the presigned PUT URLs with their expiry. -/
structure Bucket where
  objects : List (GoString × Bytes)
  presignedPuts : List (GoString × Time)

/-- A presigned URL. -/
structure PresignedURL where
  key : GoString
  expiresAt : Time
deriving DecidableEq

namespace Bucket

def object? (b : Bucket) (key : GoString) : Option Bytes := b.objects.lookup key

def put (b : Bucket) (key : GoString) (body : Bytes) : Bucket :=
  { b with objects := (key, body) :: b.objects.filter fun o => o.1 ≠ key }

def remove (b : Bucket) (key : GoString) : Bucket :=
  { b with objects := b.objects.filter fun o => o.1 ≠ key }

variable {b : Bucket} {key key' : GoString} {body : Bytes}

theorem object?_put : (b.put key body).object? key = some body := List.lookup_cons_self

theorem object?_put_ne (h : key' ≠ key) : (b.put key body).object? key' = b.object? key' := by
  have hne : (key' == key) = false := by simpa using h
  simp only [object?, put, List.lookup_cons, hne]
  exact Assoc.lookup_filter_ne h

theorem object?_remove : (b.remove key).object? key = none := Assoc.lookup_filter_self

theorem object?_remove_ne (h : key' ≠ key) : (b.remove key).object? key' = b.object? key' :=
  Assoc.lookup_filter_ne h

end Bucket

/-- The calls of `storage.Client`.  `getObject` opens the object without reading it, `readObject`
reads what was opened. -/
inductive BucketStmt : Type → Type
  | presignedPutURL (key : GoString) (expiry : Time) : BucketStmt (Option PresignedURL)
  | presignedGetURL (key : GoString) (expiry : Time) : BucketStmt (Option PresignedURL)
  | statObject (key : GoString) : BucketStmt (Option Int64)
  | getObject (key : GoString) : BucketStmt Bool
  | readObject (key : GoString) : BucketStmt (Option Bytes)
  | putObject (key : GoString) (body : Bytes) (size : Int64) (contentType : GoString) : BucketStmt Bool
  | removeObject (key : GoString) : BucketStmt Bool
  | listObjects (keyPrefix : GoString) : BucketStmt (Option (List GoString))

/-- The bytes that a PUT of a declared size takes from a body: none when the body is too short. -/
def takeDeclared (body : Bytes) (size : Int64) : Option Bytes :=
  if size.toInt < 0 then some body
  else if body.length < size.toInt.toNat then none
  else some (body.take size.toInt.toNat)

def BucketStmt.run {α : Type} (o : Oracle) (now : Time) : BucketStmt α → Bucket → α × Bucket
  | .presignedPutURL key expiry, b =>
    if o.fails then (none, b)
    else (some ⟨key, now + expiry⟩, { b with presignedPuts := (key, now + expiry) :: b.presignedPuts })
  | .presignedGetURL key expiry, b => (if o.fails then none else some ⟨key, now + expiry⟩, b)
  | .statObject key, b =>
    (if o.fails then none else (b.object? key).map fun body => Int64.ofNat body.length, b)
  | .getObject _, b => (!o.fails, b)
  | .readObject key, b => (if o.fails then none else b.object? key, b)
  | .putObject key body size _, b =>
    match if o.fails then none else takeDeclared body size with
    | none => (false, b)
    | some body => (true, b.put key body)
  | .removeObject key, b => if o.fails then (false, b) else (true, b.remove key)
  | .listObjects keyPrefix, b =>
    (if o.fails then none else some ((b.objects.map Prod.fst).filter keyPrefix.isPrefixOf), b)

/-! ## The task broker -/

inductive TaskType
  | imageThumbnail
  | videoTranscode
deriving DecidableEq

/-- `ImageThumbnailPayload` and `VideoTranscodePayload`, which have the same fields. -/
structure Payload where
  fileID : UUID
  storageKey : GoString
deriving DecidableEq

structure Task where
  type : TaskType
  payload : Payload
  maxRetry : ℕ
deriving DecidableEq

def newImageThumbnailTask (payload : Payload) : Task := ⟨.imageThumbnail, payload, 5⟩

def newVideoTranscodeTask (payload : Payload) : Task := ⟨.videoTranscode, payload, 2⟩

/-- A task in the queue, with the number of its retries so far. -/
structure Message where
  task : Task
  retried : ℕ
deriving DecidableEq

/-- The queue named `default`: messages that are pending or scheduled for a retry, the archive, and
every delivery made so far. -/
structure Broker where
  waiting : List Message
  archived : List Message
  delivered : List Message

/-- What the client and the server side of asynq do with a message. -/
inductive BrokerStmt : Type → Type
  | enqueue (task : Task) : BrokerStmt Bool
  | retry (msg : Message) : BrokerStmt Unit
  | archive (msg : Message) : BrokerStmt Unit

def BrokerStmt.run {α : Type} (o : Oracle) : BrokerStmt α → Broker → α × Broker
  | .enqueue task, b =>
    if o.fails then (false, b) else (true, { b with waiting := b.waiting ++ [⟨task, 0⟩] })
  | .retry msg, b => ((), { b with waiting := b.waiting ++ [{ msg with retried := msg.retried + 1 }] })
  | .archive msg, b => ((), { b with archived := msg :: b.archived })

/-! ## Resumable uploads -/

/-- The metadata of an upload: a Go map. -/
abbrev MetaData := List (GoString × GoString)

/-- A missing key reads as the empty string. -/
def MetaData.get (m : MetaData) (k : GoString) : GoString := (m.lookup k).getD []

def MetaData.set (m : MetaData) (k v : GoString) : MetaData := (k, v) :: m.filter fun e => e.1 ≠ k

theorem MetaData.get_set {m : MetaData} {k v : GoString} : (m.set k v).get k = v := by
  simp [MetaData.get, MetaData.set]

theorem MetaData.get_set_ne {m : MetaData} {k k' v : GoString} (h : k' ≠ k) :
    (m.set k v).get k' = m.get k' := by
  have hne : (k' == k) = false := by simpa using h
  simp only [MetaData.get, MetaData.set, List.lookup_cons, hne]
  rw [Assoc.lookup_filter_ne h]

/-- `tusdhandler.FileInfo`; `path` is the storage path that the filestore chose. -/
structure Upload where
  id : GoString
  size : Int64
  sizeIsDeferred : Bool
  metaData : MetaData
  path : GoString
deriving DecidableEq

/-- Uploads that wait for their bytes, uploads whose bytes are complete and not yet handled, and the
files of the staging directory. -/
structure Staging where
  accepted : List Upload
  completed : List Upload
  files : List (GoString × Bytes)

/-- What the services do with the staging directory; `create` is what tusd does with an upload that
the hook has let pass. -/
inductive StagingStmt : Type → Type
  | create (upload : Upload) : StagingStmt Unit
  | openFile (path : GoString) : StagingStmt (Option Bytes)
  | removeFile (path : GoString) : StagingStmt Bool

def StagingStmt.run {α : Type} (o : Oracle) : StagingStmt α → Staging → α × Staging
  | .create upload, st =>
    ((), { st with
      accepted := upload :: st.accepted
      files := (upload.path, []) :: (upload.path ++ lit ".info", []) :: st.files })
  | .openFile path, st => (if o.fails then none else st.files.lookup path, st)
  | .removeFile path, st =>
    if o.fails then (false, st)
    else (true, { st with files := st.files.filter fun f => f.1 ≠ path })

/-! ## External programs -/

/-- The calls to the operating system, to bcrypt, to ffmpeg and to notify-svc. -/
inductive ToolStmt : Type → Type
  | system (what : String) : ToolStmt Bool
  | extractPoster : ToolStmt (Option Bytes)
  | transcodeRendition (r : Rendition) : ToolStmt (Option (Bytes × List Bytes))
  | notify (userID : UUID) (title messageFmt name : GoString) : ToolStmt Bool
  | hashPassword (password : GoString) : ToolStmt (Option GoString)

def ToolStmt.run {α : Type} (o : Oracle) : ToolStmt α → α
  | .system _ => !o.fails
  | .extractPoster => if o.fails then none else some o.output
  | .transcodeRendition _ => if o.fails then none else some (o.output, o.segments)
  | .notify _ _ _ _ => !o.fails
  -- The salt is random.
  | .hashPassword _ => if o.fails then none else some o.output

/-! ## The store -/

structure Store where
  db : DB
  bucket : Bucket
  broker : Broker
  staging : Staging
  issued : List UUID
  now : Time

def Store.empty : Store :=
  ⟨.empty, ⟨[], []⟩, ⟨[], [], []⟩, ⟨[], [], []⟩, [], 0⟩

/-- One call of a handler. -/
inductive Stmt : Type → Type 1
  | query {α : Type} (q : Query α) : Stmt (Except DbError α)
  | write {α : Type} (w : Write α) : Stmt (Except DbError α)
  | bucket {α : Type} (b : BucketStmt α) : Stmt α
  | broker {α : Type} (b : BrokerStmt α) : Stmt α
  | staging {α : Type} (s : StagingStmt α) : Stmt α
  | tool {α : Type} (t : ToolStmt α) : Stmt α
  | now : Stmt Time
  | newUUID : Stmt UUID

/-- The answer of a call and the store after it.  `none`: the call does not return, or the oracle is
one that cannot occur. -/
def exec {α : Type} (o : Oracle) : Stmt α → Store → Option (α × Store)
  | .query q, s => some (q.run o s.db, s)
  | .write w, s => (w.run o s.issued s.db).map fun r => (r.1, { s with db := r.2 })
  | .bucket b, s => let r := b.run o s.now s.bucket; some (r.1, { s with bucket := r.2 })
  | .broker b, s => let r := b.run o s.broker; some (r.1, { s with broker := r.2 })
  | .staging st, s => let r := st.run o s.staging; some (r.1, { s with staging := r.2 })
  | .tool t, s => some (t.run o, s)
  | .now, s => some (s.now, s)
  | .newUUID, s =>
    -- `uuid.New` does not repeat an id.
    if o.uuid ∈ s.issued ∨ s.db.files.Used o.uuid then none
    else some (o.uuid, { s with issued := o.uuid :: s.issued })

end Optiflow
