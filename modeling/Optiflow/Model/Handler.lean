import Optiflow.Model.Statement

/-!
# Handlers and their replies

A handler is code over the calls of `Stmt` that ends in a `Reply`.  Texts of errors are the source's;
where the source only logs an error, the model has nothing.
-/

universe u

namespace Optiflow

open Interleave

/-- The error of a task handler; `skipRetry` says that it wraps `asynq.SkipRetry`. -/
structure TaskError where
  skipRetry : Bool
  message : String
deriving DecidableEq

/-- `folderResponse`. -/
structure FolderResponse where
  folder : Folder
  children : List Folder
  files : List File
deriving DecidableEq

/-- `fileStatsResponse`; a map is its entries. -/
structure FileStatsResponse where
  totalFiles : ℕ
  totalBytes : Int64
  statusCounts : List (FileStatus × ℕ)
  typeCounts : List (GoString × ℕ)
deriving DecidableEq

/-- `shareResponse`. -/
structure ShareResponse where
  share : Share
  fileName : GoString
  requiresPassword : Bool
deriving DecidableEq

/-- `publicShareResponse`. -/
structure PublicShareResponse where
  fileName : GoString
  sizeBytes : Int64
  mimeType : GoString
  requiresPassword : Bool
  hasThumbnail : Bool
deriving DecidableEq

/-- What a request is answered with.  `finished` and `processed` end the jobs that nobody waits for;
`running` is a request whose loop has not ended within the bound of the run. -/
inductive Reply
  | error (status : ℕ) (message : String)
  | presigned (fileID : UUID) (uploadURL : PresignedURL) (expiresAt : Time)
  | file (f : File)
  | files (fs : List File)
  | folder (status : ℕ) (f : Folder)
  | folders (fs : List Folder)
  | folderContents (resp : FolderResponse)
  | stats (resp : FileStatsResponse)
  | share (resp : ShareResponse)
  | shares (resp : List ShareResponse)
  | publicShare (resp : PublicShareResponse)
  | asset (contentType : GoString) (body : Bytes)
  | downloadURL (url : PresignedURL) (expiresAt : Time)
  | noContent
  | tusRejected (code message : String) (status : ℕ)
  | tusAccepted
  | finished
  | processed (err : Option TaskError)
  | running
deriving DecidableEq

abbrev Handler (α : Type) := Code Stmt Reply α

section

variable {α : Type}

def query (q : Query α) : Handler (Except DbError α) := Code.call (.query q)

def write (w : Write α) : Handler (Except DbError α) := Code.call (.write w)

def bucket (b : BucketStmt α) : Handler α := Code.call (.bucket b)

def broker (b : BrokerStmt α) : Handler α := Code.call (.broker b)

def staging (s : StagingStmt α) : Handler α := Code.call (.staging s)

def tool (t : ToolStmt α) : Handler α := Code.call (.tool t)

/-- `time.Now()`. -/
def timeNow : Handler Time := Code.call .now

/-- `uuid.New()`. -/
def newUUID : Handler UUID := Code.call .newUUID

end

/-! ## Early answers -/

/-- Replies among which are the errors of `httpx.WriteError`. -/
class ErrorReply (R : Type) where
  error : ℕ → String → R

instance : ErrorReply Reply := ⟨Reply.error⟩

section

variable {E : Type → Type u} {R α : Type}

/-- Return early. -/
def exitIf (p : Prop) [Decidable p] (reply : R) : Code E R Unit :=
  if p then Code.exit reply else pure ()

variable [ErrorReply R]

/-- `httpx.WriteError` and return. -/
def fail (status : ℕ) (message : String) : Code E R α := Code.exit (ErrorReply.error status message)

/-- A check that is answered with an error. -/
def failIf (p : Prop) [Decidable p] (status : ℕ) (message : String) : Code E R Unit :=
  exitIf p (ErrorReply.error status message)

/-- `uuid.Parse`, answering 400 to a text that is not an id. -/
def parseID (text : GoString) (message : String) : Code E R UUID :=
  match UUID.parse text with
  | some id => pure id
  | none => fail 400 message

/-- Decode a JSON body; `none` is a body that does not decode. -/
def decodeBody (body : Option α) : Code E R α :=
  match body with
  | some req => pure req
  | none => fail 400 "invalid request body"

/-- The row a lookup found; a missing row is answered with 404, another error with 500. -/
def found (missing internal : String) : Except DbError α → Code E R α
  | .ok a => pure a
  | .error .recordNotFound => fail 404 missing
  | .error .other => fail 500 internal

/-- The row a lookup found, where the source does not tell the errors apart. -/
def foundOr (status : ℕ) (message : String) : Except DbError α → Code E R α
  | .ok a => pure a
  | .error _ => fail status message

end

end Optiflow
