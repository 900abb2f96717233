import Optiflow.Model.GoPath
import Optiflow.Model.Handler

/-!
# upload-svc

`checkQuota`, `presign`, `complete`, `presignVersion`, the hooks of the resumable uploads,
`downloadURL`, `hlsAsset` and `shareDownloadURL`.
-/

namespace Optiflow

open Interleave

def presignExpiry : Time := 15 * minute

def downloadExpiry : Time := 15 * minute

namespace UploadSvc

/-! ## Quota -/

/-- `errQuotaExceeded` with its text, or an error of the database. -/
inductive QuotaError
  | exceeded (message : String)
  | other

def checkQuota (userID : UUID) (incomingBytes : Int64) : Handler (Except QuotaError Unit) := do
  match ← query (.storageQuota userID) with
  | .error _ => return .error .other
  | .ok storageQuotaBytes =>
    match ← query (.sumSizes userID) with
    | .error _ => return .error .other
    | .ok used =>
      if used + incomingBytes > storageQuotaBytes then
        return .error (.exceeded ("storage quota exceeded: " ++ toString used.toInt ++ " of " ++
          toString storageQuotaBytes.toInt ++ " bytes used, this upload needs " ++
          toString incomingBytes.toInt ++ " more"))
      else
        return .ok ()

/-- What `presign` and `presignVersion` do with the outcome of `checkQuota`. -/
def orQuotaError : Except QuotaError Unit → Handler Unit
  | .ok () => pure ()
  | .error (.exceeded message) => fail 413 message
  | .error .other => fail 500 "could not start upload"

/-! ## Uploads by presigned URL -/

/-- `users/<user>/<file>/<name>`. -/
def storageKey (userID fileID : UUID) (name : GoString) : GoString :=
  lit "users/" ++ UUID.string userID ++ lit "/" ++ UUID.string fileID ++ lit "/" ++ name

structure PresignRequest where
  name : GoString
  sizeBytes : Int64
  mimeType : GoString
  folderID : Option GoString

/-- The answer of `presign` and `presignVersion`: a URL for the new row's object. -/
def presignUpload (file : File) : Handler Reply := do
  match ← bucket (.presignedPutURL file.storageKey presignExpiry) with
  | none => fail 500 "could not start upload"
  | some uploadURL =>
    let now ← timeNow
    return .presigned file.id uploadURL (now + presignExpiry)

/-- The folder that a request names: none, or one that the user owns. -/
def ownedFolderID (userID : UUID) : Option GoString → Handler (Option UUID)
  | none | some [] => pure none
  | some text => do
    let id ← parseID text "invalid folder_id"
    let _ ← foundOr 400 "folder not found" (← query (.folder id userID))
    pure (some id)

def presign (userID : UUID) (body : Option PresignRequest) : Handler Reply := do
  let req ← decodeBody body
  failIf (req.name = [] ∨ req.sizeBytes ≤ 0 ∨ req.mimeType = []) 400
    "name, size_bytes, and mime_type are required"
  orQuotaError (← checkQuota userID req.sizeBytes)
  let folderID ← ownedFolderID userID req.folderID
  let file ← foundOr 500 "could not start upload" (← write (.createFile fun fileID =>
    { id := fileID
      name := req.name
      userID := userID
      folderID := folderID
      storageKey := storageKey userID fileID req.name
      sizeBytes := req.sizeBytes
      mimeType := req.mimeType
      status := .pending
      version := 1 }))
  presignUpload file

/-- The task for a file: images get a thumbnail, videos are transcoded. -/
def processingTask (file : File) : Option Task :=
  if file.isImage then some (newImageThumbnailTask ⟨file.id, file.storageKey⟩)
  else if file.isVideo then some (newVideoTranscodeTask ⟨file.id, file.storageKey⟩)
  else none

/-- `enqueueOrLog`: a failure is only logged. -/
def enqueueOrLog : Option Task → Handler Unit
  | none => pure ()
  | some task => do let _ ← broker (.enqueue task)

/-- The row that `complete` writes: the size is the bucket's, not the one declared. -/
def completed (file : File) (size : Int64) : File :=
  { file with
    sizeBytes := size
    status := if file.isImage || file.isVideo then .processing else .ready }

def complete (userID : UUID) (id : GoString) : Handler Reply := do
  let id ← parseID id "invalid file id"
  let file ← found "file not found" "could not complete upload" (← query (.file id userID))
  failIf (file.status ≠ .pending) 409 "upload already completed"
  match ← bucket (.statObject file.storageKey) with
  | none => fail 400 "upload not found in storage — retry the upload"
  | some size =>
    let file := completed file size
    foundOr 500 "could not complete upload" (← write (.saveFile file))
    enqueueOrLog (processingTask file)
    return .file file

/-! ## Downloads -/

/-- The key that a download asks for. -/
def downloadKey (file : File) (variant : GoString) : Handler GoString :=
  if variant = lit "thumbnail" then
    match file.thumbnailKey with
    | none => fail 404 "no thumbnail available for this file"
    | some key => pure key
  else do
    failIf (file.status = .pending) 409 "file has not finished uploading yet"
    pure file.storageKey

def downloadURL (userID : UUID) (id variant : GoString) : Handler Reply := do
  let id ← parseID id "invalid file id"
  let file ← found "file not found" "could not build download url" (← query (.file id userID))
  let key ← downloadKey file variant
  match ← bucket (.presignedGetURL key downloadExpiry) with
  | none => fail 500 "could not build download url"
  | some url =>
    let now ← timeNow
    return .downloadURL url (now + downloadExpiry)

/-- The content type of a playlist, a segment, anything else. -/
def assetType (path : GoString) : GoString :=
  if GoPath.ext path = lit ".m3u8" then lit "application/vnd.apple.mpegurl"
  else if GoPath.ext path = lit ".ts" then lit "video/mp2t"
  else lit "application/octet-stream"

/-- `hls/<file>/<asset>`; the path is cleaned. -/
def assetKey (fileID : UUID) (path : GoString) : GoString :=
  lit "hls/" ++ UUID.string fileID ++ path

/-- Stream one asset.  The status is sent before the object is read, so a read that fails leaves an
empty body. -/
def hlsAsset (userID : UUID) (id asset : GoString) : Handler Reply := do
  let id ← parseID id "invalid file id"
  let file ← found "file not found" "could not load video" (← query (.file id userID))
  failIf (file.playlistKey = none) 404 "no hls playlist for this file"
  let cleaned := GoPath.cleanRooted asset
  failIf (cleaned = lit "/" ∨ lit ".." <:+: cleaned) 400 "invalid asset path"
  let key := assetKey file.id cleaned
  let opened ← bucket (.getObject key)
  failIf (opened = false) 404 "asset not found"
  let body ← bucket (.readObject key)
  return .asset (assetType cleaned) (body.getD [])

/-! ## Versions -/

structure PresignVersionRequest where
  sizeBytes : Int64
  mimeType : GoString

def presignVersion (userID : UUID) (id : GoString) (body : Option PresignVersionRequest) :
    Handler Reply := do
  let id ← parseID id "invalid file id"
  let req ← decodeBody body
  failIf (req.sizeBytes ≤ 0 ∨ req.mimeType = []) 400 "size_bytes and mime_type are required"
  let anyVersion ← found "file not found" "could not start upload" (← query (.file id userID))
  let root := anyVersion.lineageRootID
  orQuotaError (← checkQuota userID req.sizeBytes)
  let current ← foundOr 500 "could not start upload" (← query (.currentVersion userID root))
  let maxVersion ← foundOr 500 "could not start upload" (← query (.maxVersion userID root))
  let file ← foundOr 500 "could not start upload"
    (← write (.presignVersion userID root fun newFileID =>
      { id := newFileID
        name := current.name
        userID := userID
        folderID := current.folderID
        storageKey := storageKey userID newFileID current.name
        sizeBytes := req.sizeBytes
        mimeType := req.mimeType
        status := .pending
        version := maxVersion + 1
        parentID := some root
        isCurrent := true }))
  presignUpload file

/-! ## Resumable uploads -/

/-- `firstNonEmpty`. -/
def firstNonEmpty (values : List GoString) : GoString := (values.find? (· ≠ [])).getD []

/-- `tusdhandler.NewError`. -/
def tusReject {α : Type} (code message : String) (status : ℕ) : Handler α :=
  Code.exit (.tusRejected code message status)

/-- The check of the `folder_id` metadata. -/
def tusCheckFolder (userID : UUID) (text : GoString) : Handler Unit :=
  if text = [] then pure ()
  else
    match UUID.parse text with
    | none => tusReject "ERR_INVALID_METADATA" "invalid folder_id" 400
    | some folderID => do
      match ← query (.folder folderID userID) with
      | .error _ => tusReject "ERR_INVALID_METADATA" "folder not found" 400
      | .ok _ => pure ()

/-- The hook that runs before tusd accepts an upload; tusd then creates the upload with the metadata
that the hook returns. -/
def tusPreCreate (userID : Option UUID) (upload : Upload) : Handler Reply :=
  match userID with
  | none => tusReject "ERR_UNAUTHENTICATED" "missing authenticated user" 401
  | some userID => do
    let name := firstNonEmpty
      [upload.metaData.get (lit "filename"), upload.metaData.get (lit "name")]
    exitIf (name = []) (.tusRejected "ERR_INVALID_METADATA" "filename metadata is required" 400)
    tusCheckFolder userID (upload.metaData.get (lit "folder_id"))
    match ← checkQuota userID upload.size with
    | .error (.exceeded message) => tusReject "ERR_QUOTA_EXCEEDED" message 413
    | .error .other => tusReject "ERR_INTERNAL" "could not start upload" 500
    | .ok () =>
      let metaData := upload.metaData.set (lit "user_id") (UUID.string userID)
      staging (.create { upload with metaData := metaData })
      return .tusAccepted

/-- The MIME type of a finished upload. -/
def tusMimeType (upload : Upload) : GoString :=
  let fileType := upload.metaData.get (lit "filetype")
  if fileType = [] then lit "application/octet-stream" else fileType

/-- The folder of a finished upload: a text that is not an id counts as none. -/
def tusFolderID (upload : Upload) : Option UUID :=
  let text := upload.metaData.get (lit "folder_id")
  if text = [] then none else UUID.parse text

/-- The row of a finished upload. -/
def tusFile (upload : Upload) (userID fileID : UUID) : File :=
  let name := firstNonEmpty
    [upload.metaData.get (lit "filename"), upload.metaData.get (lit "name"), upload.id]
  let mimeType := tusMimeType upload
  { id := fileID
    name := name
    userID := userID
    folderID := tusFolderID upload
    storageKey := storageKey userID fileID name
    sizeBytes := upload.size
    mimeType := mimeType
    status :=
      if (lit "image/").isPrefixOf mimeType || (lit "video/").isPrefixOf mimeType then .processing
      else .ready
    version := 1
    isCurrent := true }

/-- What happens to an upload whose bytes are complete.  Nobody waits for the outcome: an error is
logged and the upload is left where it is. -/
def finishTusUpload (upload : Upload) : Handler Reply :=
  match UUID.parse (upload.metaData.get (lit "user_id")) with
  | none => Code.exit .finished
  | some userID => do
    exitIf (upload.path = []) .finished
    match ← staging (.openFile upload.path) with
    | none => return .finished
    | some body =>
      let fileID ← newUUID
      let file := tusFile upload userID fileID
      exitIf (!(← bucket (.putObject file.storageKey body upload.size file.mimeType))) .finished
      match ← write (.createFile fun _ => file) with
      | .error _ => return .finished
      | .ok file =>
        enqueueOrLog (processingTask file)
        let _ ← staging (.removeFile upload.path)
        let _ ← staging (.removeFile (upload.path ++ lit ".info"))
        return .finished

/-! ## Shares -/

/-- A share by its token, unless it has expired or reached its limit.  The clock is only read when the
share expires. -/
def resolveActiveShare (token : GoString) : Handler (Except DbError Share) := do
  match ← query (.share token) with
  | .error e => return .error e
  | .ok share =>
    match share.expiresAt with
    | none => return limit share
    | some expiresAt =>
      let now ← timeNow
      return if now > expiresAt then .error .recordNotFound else limit share
where
  limit (share : Share) : Except DbError Share :=
    match share.maxDownloads with
    | none => .ok share
    | some maxDownloads =>
      if share.downloadCount ≥ maxDownloads then .error .recordNotFound else .ok share

/-- The password check; the body is only read when there is a password.  `verify` is
`bcrypt.CompareHashAndPassword`. -/
def checkPassword (verify : GoString → GoString → Bool) (body : Option GoString) :
    Option GoString → Handler Unit
  | none => pure ()
  | some hash => do
    let password ← decodeBody body
    failIf (!verify hash password) 401 "incorrect password"

def shareDownloadURL (verify : GoString → GoString → Bool) (token : GoString)
    (body : Option GoString) : Handler Reply := do
  let share ← found "share link not found or expired" "could not resolve share"
    (← resolveActiveShare token)
  checkPassword verify body share.passwordHash
  let file ← foundOr 404 "shared file no longer exists" (← query (.fileByID share.fileID))
  failIf (file.status ≠ .ready) 409 "file is not ready for download"
  match ← bucket (.presignedGetURL file.storageKey downloadExpiry) with
  | none => fail 500 "could not build download url"
  | some url =>
    let _ ← write (.incrementDownloads share.id)
    let now ← timeNow
    return .downloadURL url (now + downloadExpiry)

end UploadSvc

end Optiflow
