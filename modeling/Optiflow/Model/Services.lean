import Optiflow.Model.UploadSvc
import Optiflow.Model.ApiSvc
import Optiflow.Model.Workers

/-!
# The services as one machine

Every request to upload-svc and api-svc, every finished resumable upload and every delivery of a task
is a `Request`; `services` is the machine that runs them over one `Store`.  The environment starts
requests, moves the clock, uses presigned PUT URLs, sends the bytes of accepted uploads, and may
deliver a task again.
-/

namespace Optiflow

open Interleave

/-- What the services are built on. -/
structure Deps where
  tools : Workers.Tools
  verifyPassword : GoString → GoString → Bool

/-- A request with the user that the middleware authenticated, or a job. -/
inductive Request
  | presign (userID : UUID) (body : Option UploadSvc.PresignRequest)
  | complete (userID : UUID) (id : GoString)
  | presignVersion (userID : UUID) (id : GoString) (body : Option UploadSvc.PresignVersionRequest)
  | tusPreCreate (userID : Option UUID) (upload : Upload)
  | finishTusUpload (upload : Upload)
  | shareDownloadURL (token : GoString) (body : Option GoString)
  | listFiles (userID : UUID) (folderParam : GoString)
  | listFolders (userID : UUID) (parentParam : GoString)
  | createFolder (userID : UUID) (body : Option ApiSvc.FolderRequest)
  | updateFolder (userID : UUID) (id : GoString) (body : Option ApiSvc.FolderRequest) (steps : ℕ)
  | deleteFolder (userID : UUID) (id : GoString)
  | updateFile (userID : UUID) (id : GoString) (body : Option ApiSvc.FileUpdateRequest)
  | deleteFile (userID : UUID) (id : GoString)
  | restoreFileVersion (userID : UUID) (id versionID : GoString)
  | downloadURL (userID : UUID) (id variant : GoString)
  | hlsAsset (userID : UUID) (id asset : GoString)
  | getFolder (userID : UUID) (id : GoString)
  | getFile (userID : UUID) (id : GoString)
  | fileStats (userID : UUID)
  | listFileVersions (userID : UUID) (id : GoString)
  | createShare (userID : UUID) (id : GoString) (req : ApiSvc.ShareCreateRequest)
  | listFileShares (userID : UUID) (id : GoString)
  | listShares (userID : UUID)
  | deleteShare (userID : UUID) (id : GoString)
  | getPublicShare (token : GoString)
  | deliver (worker : Workers.Worker) (msg : Message)

/-- The handler of a request. -/
def Request.handler (deps : Deps) : Request → Handler Reply
  | .presign userID body => UploadSvc.presign userID body
  | .complete userID id => UploadSvc.complete userID id
  | .presignVersion userID id body => UploadSvc.presignVersion userID id body
  | .tusPreCreate userID upload => UploadSvc.tusPreCreate userID upload
  | .finishTusUpload upload => UploadSvc.finishTusUpload upload
  | .shareDownloadURL token body => UploadSvc.shareDownloadURL deps.verifyPassword token body
  | .listFiles userID folderParam => ApiSvc.listFiles userID folderParam
  | .listFolders userID parentParam => ApiSvc.listFolders userID parentParam
  | .createFolder userID body => ApiSvc.createFolder userID body
  | .updateFolder userID id body steps => ApiSvc.updateFolder userID id body steps
  | .deleteFolder userID id => ApiSvc.deleteFolder userID id
  | .updateFile userID id body => ApiSvc.updateFile userID id body
  | .deleteFile userID id => ApiSvc.deleteFile userID id
  | .restoreFileVersion userID id versionID => ApiSvc.restoreFileVersion userID id versionID
  | .downloadURL userID id variant => UploadSvc.downloadURL userID id variant
  | .hlsAsset userID id asset => UploadSvc.hlsAsset userID id asset
  | .getFolder userID id => ApiSvc.getFolder userID id
  | .getFile userID id => ApiSvc.getFile userID id
  | .fileStats userID => ApiSvc.fileStats userID
  | .listFileVersions userID id => ApiSvc.listFileVersions userID id
  | .createShare userID id req => ApiSvc.createShare userID id req
  | .listFileShares userID id => ApiSvc.listFileShares userID id
  | .listShares userID => ApiSvc.listShares userID
  | .deleteShare userID id => ApiSvc.deleteShare userID id
  | .getPublicShare token => ApiSvc.getPublicShare token
  | .deliver worker msg => Workers.deliver deps.tools worker msg

/-- Starting a job takes it off its queue; a request needs nothing. -/
def Request.launch : Request → Store → Option Store
  | .finishTusUpload upload, s =>
    if upload ∈ s.staging.completed then
      some { s with staging.completed := s.staging.completed.erase upload }
    else none
  | .deliver _ msg, s =>
    if msg ∈ s.broker.waiting then
      some { s with
        broker.waiting := s.broker.waiting.erase msg
        broker.delivered := msg :: s.broker.delivered }
    else none
  | _, s => some s

/-- A move of the environment. -/
inductive EnvMove
  | tick (now : Time)
  | put (key : GoString) (body : Bytes)
  | receive (upload : Upload) (body : Bytes)
  | redeliver (msg : Message)

/-- What the environment does to the store.  The clock is monotone, a PUT needs a presigned URL that
has not expired, and a complete upload has the length it declared, unless that was deferred. -/
def EnvMove.run : EnvMove → Store → Option Store
  | .tick now, s => if s.now ≤ now then some { s with now := now } else none
  | .put key body, s =>
    if s.bucket.presignedPuts.any fun p => p.1 = key && s.now ≤ p.2 then
      some { s with bucket := s.bucket.put key body }
    else none
  | .receive upload body, s =>
    if upload ∈ s.staging.accepted ∧ (upload.sizeIsDeferred ∨ upload.size.toInt = body.length) then
      some { s with staging :=
        { accepted := s.staging.accepted.erase upload
          completed := { upload with size := Int64.ofNat body.length } :: s.staging.completed
          files := (upload.path, body) :: s.staging.files.filter fun f => f.1 ≠ upload.path } }
    else none
  | .redeliver msg, s =>
    if msg ∈ s.broker.delivered then some { s with broker.waiting := s.broker.waiting ++ [msg] }
    else none

/-- upload-svc, api-svc and both workers. -/
def services (deps : Deps) : Machine Store Request Reply Oracle EnvMove Stmt where
  handler q := (q.handler deps).run
  launch := Request.launch
  exec := exec
  env := EnvMove.run

@[simp] theorem services_handler (deps : Deps) (q : Request) :
    (services deps).handler q = q.handler deps .ret := rfl

@[simp] theorem services_launch (deps : Deps) : (services deps).launch = Request.launch := rfl

@[simp] theorem services_exec (deps : Deps) {α : Type} (o : Oracle) (e : Stmt α) (s : Store) :
    (services deps).exec o e s = exec o e s := rfl

@[simp] theorem services_env (deps : Deps) : (services deps).env = EnvMove.run := rfl

/-- A configuration of the services. -/
abbrev Services := Config Store Request Reply Oracle EnvMove Stmt

/-- A step of the services. -/
abbrev ServiceStep := Step Store Request Oracle EnvMove Stmt

end Optiflow
