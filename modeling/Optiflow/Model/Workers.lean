import Optiflow.Model.GoPath
import Optiflow.Model.Handler

/-!
# The workers

`image-worker` and `video-worker` are two servers on the same queue, each with a mux that knows one
task type.  `deliver` is what a server does with one delivery: the handler, then on an error the
server's error handler and asynq's own bookkeeping.
-/

namespace Optiflow

open Interleave

namespace Workers

/-- The two servers. -/
inductive Worker
  | image
  | video
deriving DecidableEq

/-- The task type that a server's mux has a handler for. -/
def Worker.handles : Worker → TaskType
  | .image => .imageThumbnail
  | .video => .videoTranscode

/-- What `imaging.Decode`, `Fit` and `Encode` make of a body. -/
inductive Thumbnail
  | undecodable
  | unencodable
  | jpeg (body : Bytes)

/-- What the workers are built on: whether notify-svc is configured, the image library, and ffprobe
on a completely downloaded file. -/
structure Tools where
  notifies : Bool
  thumbnail : Bytes → Thumbnail
  probeDimensions : Bytes → Option (ℤ × ℤ)
  probeDuration : Bytes → Bool

/-- An ordinary error, after which asynq retries. -/
def retryable (message : String) : Option TaskError := some ⟨false, message⟩

/-- An error that wraps `asynq.SkipRetry`. -/
def skipRetry (message : String) : Option TaskError := some ⟨true, message⟩

variable (tools : Tools)

/-- Look up the owner and push a notification; failures are only logged. -/
def notifyUser (fileID : UUID) (title messageFmt : GoString) : Handler Unit := do
  if tools.notifies then
    match ← query (.fileByID fileID) with
    | .error _ => pure ()
    | .ok file =>
      let _ ← tool (.notify file.userID title messageFmt file.name)

/-! ## image-worker -/

/-- `thumbnails/<file>.jpg`. -/
def thumbnailKey (fileID : UUID) : GoString :=
  lit "thumbnails/" ++ UUID.string fileID ++ lit ".jpg"

/-- The columns that a finished thumbnail sets. -/
def thumbnailUpdates (fileID : UUID) : FileUpdates :=
  { thumbnailKey := some (thumbnailKey fileID), status := .ready }

def handleImageThumbnail (payload : Payload) : Handler (Option TaskError) := do
  if !(← bucket (.getObject payload.storageKey)) then
    return retryable "fetching original object"
  else
    match ← bucket (.readObject payload.storageKey) with
    | none => return skipRetry "decoding image"
    | some original =>
      match tools.thumbnail original with
      | .undecodable => return skipRetry "decoding image"
      | .unencodable => return retryable "encoding thumbnail"
      | .jpeg body =>
        if !(← bucket (.putObject (thumbnailKey payload.fileID) body (Int64.ofNat body.length)
            (lit "image/jpeg"))) then
          return retryable "uploading thumbnail"
        else
          match ← write (.updateFile payload.fileID (thumbnailUpdates payload.fileID)) with
          | .error _ => return retryable "updating file record"
          | .ok () =>
            notifyUser tools payload.fileID (lit "Thumbnail ready")
              (lit "Your thumbnail for %q is ready.")
            return none

/-! ## video-worker -/

/-- `hls/<file>`. -/
def hlsDirectory (fileID : UUID) : GoString := lit "hls/" ++ UUID.string fileID

def posterKey (fileID : UUID) : GoString := hlsDirectory fileID ++ lit "/poster.jpg"

def masterKey (fileID : UUID) : GoString := hlsDirectory fileID ++ lit "/master.m3u8"

/-- The columns that a finished transcode sets. -/
def transcodeUpdates (fileID : UUID) : FileUpdates :=
  { thumbnailKey := some (posterKey fileID)
    playlistKey := some (masterKey fileID)
    status := .ready }

/-- Fetch the original into a local file. -/
def downloadOriginal (storageKey : GoString) : Handler (Except String Bytes) := do
  if !(← bucket (.getObject storageKey)) then return .error "fetching original object"
  else if !(← tool (.system "create temp file")) then return .error "creating local temp file"
  else
    match ← bucket (.readObject storageKey) with
    | none => return .error "downloading original object"
    | some original => return .ok original

/-- `%03d`. -/
def decimal3 (n : ℕ) : GoString :=
  let d := decimal n
  List.replicate (3 - d.length) 48 ++ d

/-- The files that ffmpeg writes for a rendition: its playlist and its segments. -/
def renditionFiles (r : Rendition) (playlist : Bytes) (segments : List Bytes) :
    List (GoString × Bytes) :=
  (r.name ++ lit ".m3u8", playlist) ::
    segments.mapIdx fun i body => (r.name ++ lit "_" ++ decimal3 i ++ lit ".ts", body)

/-- One ffmpeg run for each rendition. -/
def transcodeRenditions : List Rendition → Handler (Option (List (GoString × Bytes)))
  | [] => return some []
  | r :: rs => do
    match ← tool (.transcodeRendition r) with
    | none => return none
    | some (playlist, segments) =>
      match ← transcodeRenditions rs with
      | none => return none
      | some files => return some (renditionFiles r playlist segments ++ files)

/-- Open a local file and store it. -/
def uploadFile (key : GoString) (body : Bytes) (contentType : GoString) : Handler Bool := do
  if !(← tool (.system "open")) then return false
  else bucket (.putObject key body (Int64.ofNat body.length) contentType)

/-- The content type of a playlist or a segment. -/
def entryContentType (name : GoString) : GoString :=
  if GoPath.ext name = lit ".m3u8" then lit "application/vnd.apple.mpegurl" else lit "video/mp2t"

def uploadEntries (directory : GoString) : List (GoString × Bytes) → Handler Bool
  | [] => return true
  | entry :: entries => do
    if !(← uploadFile (directory ++ lit "/" ++ entry.1) entry.2 (entryContentType entry.1)) then
      return false
    else uploadEntries directory entries

/-- Store every playlist and segment, in the order in which `os.ReadDir` lists them. -/
def uploadRenditionFiles (files : List (GoString × Bytes)) (directory : GoString) :
    Handler Bool := do
  if !(← tool (.system "read output dir")) then return false
  else uploadEntries directory (files.insertionSort fun f g => f.1 ≤ g.1)

/-- The last part of a transcode: everything is encoded, store it and update the row. -/
def publish (payload : Payload) (poster : Bytes) (files : List (GoString × Bytes))
    (master : Bytes) : Handler (Option TaskError) := do
  if !(← uploadFile (posterKey payload.fileID) poster (lit "image/jpeg")) then
    return retryable "uploading poster"
  else if !(← uploadRenditionFiles files (hlsDirectory payload.fileID)) then
    return retryable "uploading rendition files"
  else if !(← bucket (.putObject (masterKey payload.fileID) master (Int64.ofNat master.length)
      (lit "application/vnd.apple.mpegurl"))) then
    return retryable "uploading master playlist"
  else
    match ← write (.updateFile payload.fileID (transcodeUpdates payload.fileID)) with
    | .error _ => return retryable "updating file record"
    | .ok () =>
      notifyUser tools payload.fileID (lit "Video ready") (lit "Your video %q finished processing.")
      return none

/-- ffprobe for the dimensions; a failure is final. -/
def probeDimensions (input : Bytes) : Handler (Option (ℤ × ℤ)) := do
  if !(← tool (.system "ffprobe dimensions")) then return none
  else return tools.probeDimensions input

/-- ffprobe for the duration; a failure is final. -/
def probeDuration (input : Bytes) : Handler Bool := do
  if !(← tool (.system "ffprobe duration")) then return false
  else return tools.probeDuration input

/-- Encode a probed source. -/
def encode (payload : Payload) (srcWidth srcHeight : ℤ) : Handler (Option TaskError) := do
  if !(← tool (.system "create output dir")) then return retryable "creating output dir"
  else
    match ← tool .extractPoster with
    | none => return retryable "extracting poster"
    | some poster =>
      let renditions := selectRenditions srcHeight
      match ← transcodeRenditions renditions with
      | none => return retryable "transcoding"
      | some files =>
        publish tools payload poster files (buildMasterPlaylist renditions srcWidth srcHeight)

def transcode (payload : Payload) : Handler (Option TaskError) := do
  if !(← tool (.system "create temp dir")) then return retryable "creating temp dir"
  else
    match ← downloadOriginal payload.storageKey with
    | .error message => return retryable message
    | .ok input =>
      match ← probeDimensions tools input with
      | none => return skipRetry "ffprobe dimensions"
      | some (srcWidth, srcHeight) =>
        if !(← probeDuration tools input) then return skipRetry "ffprobe duration"
        else encode tools payload srcWidth srcHeight

/-! ## Deliveries -/

/-- The mux: a type without a handler is an ordinary error. -/
def processTask (worker : Worker) (task : Task) : Handler (Option TaskError) :=
  if task.type = worker.handles then
    match worker with
    | .image => handleImageThumbnail tools task.payload
    | .video => transcode tools task.payload
  else return retryable "handler not found for task"

/-- The attempts that asynq gives up on. -/
def terminal (msg : Message) (err : TaskError) : Bool :=
  err.skipRetry || msg.retried ≥ msg.task.maxRetry

/-- What a failed job sets. -/
def failedUpdates : FileUpdates := { status := .failed }

/-- The error handler of both servers: each marks the row of its own task type, on the last attempt. -/
def handleTaskError (worker : Worker) (msg : Message) (err : TaskError) : Handler Unit := do
  if terminal msg err then
    if msg.task.type = worker.handles then
      let _ ← write (.updateFile msg.task.payload.fileID failedUpdates)
      notifyUser tools msg.task.payload.fileID (lit "Processing failed") (match worker with
        | .image => lit "We couldn't generate a thumbnail for %q."
        | .video => lit "We couldn't process your video %q.")

/-- asynq after a failed attempt: it archives the message when the error wraps `SkipRetry` or the
retries are used up, and schedules a retry otherwise. -/
def settle (msg : Message) (err : TaskError) : Handler Unit :=
  if terminal msg err then broker (.archive msg) else broker (.retry msg)

/-- One delivery. -/
def deliver (worker : Worker) (msg : Message) : Handler Reply := do
  match ← processTask tools worker msg.task with
  | none => return .processed none
  | some err =>
    handleTaskError tools worker msg err
    settle msg err
    return .processed (some err)

end Workers

end Optiflow
