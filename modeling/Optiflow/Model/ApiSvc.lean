import Optiflow.Model.UploadSvc

/-!
# api-svc

Folders, files, versions and share links: the listings that make up browsing, and the handlers that
create, move, rename, restore, share and delete.
-/

namespace Optiflow

open Interleave

namespace ApiSvc

def resolveOwnedFile (userID fileID : UUID) : Handler (Except DbError File) :=
  query (.file fileID userID)

def resolveOwnedFolder (userID folderID : UUID) : Handler (Except DbError Folder) :=
  query (.folder folderID userID)

/-! ## Listings -/

/-- An id in the query string; the empty text is an absent one. -/
def queryID (text : GoString) (message : String) : Handler (Option UUID) :=
  if text = [] then pure none
  else do
    let id ← parseID text message
    pure (some id)

def listFiles (userID : UUID) (folderParam : GoString) : Handler Reply := do
  let folderID ← queryID folderParam "invalid folder_id"
  let files ← foundOr 500 "could not list files" (← query (.files userID folderID))
  return .files files

def listFolders (userID : UUID) (parentParam : GoString) : Handler Reply := do
  let parentID ← queryID parentParam "invalid parent_id"
  let folders ← foundOr 500 "could not list folders" (← query (.folders userID parentID))
  return .folders folders

def getFolder (userID : UUID) (id : GoString) : Handler Reply := do
  let id ← parseID id "invalid folder id"
  let folder ← foundOr 404 "folder not found" (← resolveOwnedFolder userID id)
  let children ← foundOr 500 "could not load folder" (← query (.folders userID (some id)))
  let files ← foundOr 500 "could not load folder" (← query (.files userID (some id)))
  return .folderContents ⟨folder, children, files⟩

def getFile (userID : UUID) (id : GoString) : Handler Reply := do
  let id ← parseID id "invalid file id"
  let file ← foundOr 404 "file not found" (← resolveOwnedFile userID id)
  return .file file

def listFileVersions (userID : UUID) (id : GoString) : Handler Reply := do
  let id ← parseID id "invalid file id"
  let file ← foundOr 404 "file not found" (← resolveOwnedFile userID id)
  let versions ← foundOr 500 "could not list versions"
    (← query (.versions userID file.lineageRootID))
  return .files versions

/-! ## Stats -/

def categorizeMime (mimeType : GoString) : GoString :=
  if (lit "image/").isPrefixOf mimeType then lit "Images"
  else if (lit "video/").isPrefixOf mimeType then lit "Video"
  else if (lit "audio/").isPrefixOf mimeType then lit "Audio"
  else if lit "pdf" <:+: mimeType ∨ lit "word" <:+: mimeType ∨ lit "document" <:+: mimeType then
    lit "Documents"
  else lit "Other"

/-- `m[k]++`. -/
def increment {κ : Type} [DecidableEq κ] (k : κ) : List (κ × ℕ) → List (κ × ℕ)
  | [] => [(k, 1)]
  | e :: m => if e.1 = k then (k, e.2 + 1) :: m else e :: increment k m

/-- One file more in the totals. -/
def FileStatsResponse.add (resp : FileStatsResponse) (f : File) : FileStatsResponse where
  totalFiles := resp.totalFiles + 1
  totalBytes := resp.totalBytes + f.sizeBytes
  statusCounts := increment f.status resp.statusCounts
  typeCounts := increment (categorizeMime f.mimeType) resp.typeCounts

def fileStats (userID : UUID) : Handler Reply := do
  let files ← foundOr 500 "could not load stats" (← query (.allFiles userID))
  return .stats (files.foldl FileStatsResponse.add ⟨0, 0, [], []⟩)

/-! ## Folders -/

structure FolderRequest where
  name : GoString
  parentID : Option GoString

/-- The parent that a new folder asks for. -/
def ownedParentID (userID : UUID) : Option GoString → Handler (Option UUID)
  | none => pure none
  | some text => do
    let parentID ← parseID text "invalid parent_id"
    let _ ← foundOr 400 "parent folder not found" (← resolveOwnedFolder userID parentID)
    pure (some parentID)

def createFolder (userID : UUID) (body : Option FolderRequest) : Handler Reply := do
  let req ← decodeBody body
  failIf (req.name = []) 400 "name is required"
  let parentID ← ownedParentID userID req.parentID
  let folder ← foundOr 500 "could not create folder"
    (← write (.createFolder req.name userID parentID))
  return .folder 201 folder

/-- Whether `current` is the folder itself or one of its descendants: the walk up from `current`, one
SELECT for each step.  The source's loop has no bound; here it stops, unanswered, after `steps`. -/
def isDescendant (userID folderID : UUID) : ℕ → UUID → Handler (Except DbError Bool)
  | 0, _ => Code.exit .running
  | steps + 1, current =>
    if current = folderID then pure (.ok true)
    else do
      match ← query (.folderParent current userID) with
      | .error .recordNotFound => pure (.ok false)
      | .error .other => pure (.error .other)
      | .ok none => pure (.ok false)
      | .ok (some parentID) => isDescendant userID folderID steps parentID

/-- The folder with the parent that a request asks for, after the checks of a move. -/
def moveFolder (userID id : UUID) (steps : ℕ) (folder : Folder) : Option GoString → Handler Folder
  | none => pure folder
  | some [] => pure { folder with parentID := none }
  | some text => do
    let parentID ← parseID text "invalid parent_id"
    let _ ← foundOr 400 "parent folder not found" (← resolveOwnedFolder userID parentID)
    let cyclic ← foundOr 500 "could not move folder"
      (← isDescendant userID id steps parentID)
    failIf (cyclic = true) 400 "cannot move a folder into itself or one of its descendants"
    pure { folder with parentID := some parentID }

def updateFolder (userID : UUID) (id : GoString) (body : Option FolderRequest) (steps : ℕ) :
    Handler Reply := do
  let id ← parseID id "invalid folder id"
  let folder ← foundOr 404 "folder not found" (← resolveOwnedFolder userID id)
  let req ← decodeBody body
  let folder := if req.name ≠ [] then { folder with name := req.name } else folder
  let folder ← moveFolder userID id steps folder req.parentID
  foundOr 500 "could not update folder" (← write (.saveFolder folder))
  return .folder 200 folder

/-! ## Files -/

structure FileUpdateRequest where
  name : Option GoString
  folderID : Option GoString

/-- The file with the name that a request asks for. -/
def renameFile (file : File) : Option GoString → Handler File
  | none => pure file
  | some [] => fail 400 "name cannot be empty"
  | some name => pure { file with name := name }

/-- The file in the folder that a request asks for; the empty text is the root. -/
def moveFile (userID : UUID) (file : File) : Option GoString → Handler File
  | none => pure file
  | some [] => pure { file with folderID := none }
  | some text => do
    let folderID ← parseID text "invalid folder_id"
    let _ ← foundOr 400 "folder not found" (← resolveOwnedFolder userID folderID)
    pure { file with folderID := some folderID }

def updateFile (userID : UUID) (id : GoString) (body : Option FileUpdateRequest) :
    Handler Reply := do
  let id ← parseID id "invalid file id"
  let file ← foundOr 404 "file not found" (← resolveOwnedFile userID id)
  let req ← decodeBody body
  let file ← renameFile file req.name
  let file ← moveFile userID file req.folderID
  foundOr 500 "could not update file" (← write (.saveFile file))
  return .file file

/-- `hls/<file>/`. -/
def hlsPrefix (fileID : UUID) : GoString := lit "hls/" ++ UUID.string fileID ++ lit "/"

/-- Remove every object; failures are only logged. -/
def removeObjects : List GoString → Handler Unit
  | [] => pure ()
  | key :: keys => do
    let _ ← bucket (.removeObject key)
    removeObjects keys

/-- Remove the objects of a file: the original, the thumbnail, and everything under its hls prefix. -/
def cleanupFileObjects (file : File) : Handler Unit := do
  let keys := file.storageKey :: file.thumbnailKey.toList
  if file.playlistKey.isSome then
    match ← bucket (.listObjects (hlsPrefix file.id)) with
    | none => removeObjects keys
    | some hlsKeys => removeObjects (keys ++ hlsKeys)
  else removeObjects keys

def cleanupFiles : List File → Handler Unit
  | [] => pure ()
  | file :: files => do
    cleanupFileObjects file
    cleanupFiles files

def deleteFile (userID : UUID) (id : GoString) : Handler Reply := do
  let id ← parseID id "invalid file id"
  let file ← foundOr 404 "file not found" (← resolveOwnedFile userID id)
  let versions ← foundOr 500 "could not delete file"
    (← write (.deleteFile userID file.lineageRootID))
  cleanupFiles versions
  return .noContent

def deleteFolder (userID : UUID) (id : GoString) : Handler Reply := do
  let id ← parseID id "invalid folder id"
  let _ ← foundOr 404 "folder not found" (← resolveOwnedFolder userID id)
  let versions ← foundOr 500 "could not delete folder" (← write (.deleteFolder userID id))
  cleanupFiles versions
  return .noContent

/-! ## Versions -/

def restoreFileVersion (userID : UUID) (id versionID : GoString) : Handler Reply := do
  let id ← parseID id "invalid file id"
  let versionID ← parseID versionID "invalid version id"
  let file ← foundOr 404 "file not found" (← resolveOwnedFile userID id)
  let root := file.lineageRootID
  let target ← found "version not found" "could not restore version"
    (← query (.file versionID userID))
  failIf (target.lineageRootID ≠ root) 400 "version does not belong to this file"
  foundOr 500 "could not restore version" (← write (.restoreVersion userID root target.id))
  return .file { target with isCurrent := true }

/-! ## Share links -/

/-- What `Decode` has left in the struct; its error is ignored. -/
structure ShareCreateRequest where
  expiresInHours : Option Int64
  password : Option GoString
  maxDownloads : Option Int64

def toShareResponse (share : Share) (fileName : GoString) : ShareResponse :=
  ⟨share, fileName, share.passwordHash.isSome⟩

def shareExpiry : Option Int64 → Handler (Option Time)
  | none => pure none
  | some hours => do
    failIf (hours ≤ 0) 400 "expires_in_hours must be positive"
    let now ← timeNow
    -- `time.Duration(hours) * time.Hour` may overflow.
    pure (some (now + (hours * 3600000000000).toInt))

def shareLimit : Option Int64 → Handler (Option ℤ)
  | none => pure none
  | some maxDownloads => do
    failIf (maxDownloads ≤ 0) 400 "max_downloads must be positive"
    pure (some maxDownloads.toInt)

def sharePasswordHash : Option GoString → Handler (Option GoString)
  | none | some [] => pure none
  | some password => do
    match ← tool (.hashPassword password) with
    | none => fail 500 "could not create share"
    | some hash => pure (some hash)

/-- The token is random; it is drawn by the write, and here only whether the drawing fails. -/
def createShare (userID : UUID) (id : GoString) (req : ShareCreateRequest) : Handler Reply := do
  let fileID ← parseID id "invalid file id"
  let file ← foundOr 404 "file not found" (← resolveOwnedFile userID fileID)
  let generated ← tool (.system "generate share token")
  failIf (generated = false) 500 "could not create share"
  let expiresAt ← shareExpiry req.expiresInHours
  let maxDownloads ← shareLimit req.maxDownloads
  let passwordHash ← sharePasswordHash req.password
  let share ← foundOr 500 "could not create share"
    (← write (.createShare file.id userID passwordHash expiresAt maxDownloads))
  return .share (toShareResponse share file.name)

def listFileShares (userID : UUID) (id : GoString) : Handler Reply := do
  let fileID ← parseID id "invalid file id"
  let file ← foundOr 404 "file not found" (← resolveOwnedFile userID fileID)
  let shares ← foundOr 500 "could not list shares" (← query (.fileShares fileID userID))
  return .shares (shares.map fun share => toShareResponse share file.name)

/-- The names of the shared files, each looked up once; no look-up has a user filter. -/
def shareResponses : List Share → List (UUID × GoString) → Handler (List ShareResponse)
  | [], _ => pure []
  | share :: shares, fileNames => do
    match fileNames.lookup share.fileID with
    | some name =>
      let rest ← shareResponses shares fileNames
      pure (toShareResponse share name :: rest)
    | none =>
      let name := match ← query (.fileByID share.fileID) with
        | .ok file => file.name
        | .error _ => lit "(deleted file)"
      let rest ← shareResponses shares ((share.fileID, name) :: fileNames)
      pure (toShareResponse share name :: rest)

def listShares (userID : UUID) : Handler Reply := do
  let shares ← foundOr 500 "could not list shares" (← query (.shares userID))
  let resp ← shareResponses shares []
  return .shares resp

def deleteShare (userID : UUID) (id : GoString) : Handler Reply := do
  let id ← parseID id "invalid share id"
  let affected ← foundOr 500 "could not delete share" (← write (.deleteShare id userID))
  failIf (affected = 0) 404 "share not found"
  return .noContent

/-- What a share link shows to anybody.  `resolveActiveShare` is the same in both services. -/
def getPublicShare (token : GoString) : Handler Reply := do
  let share ← found "share link not found or expired" "could not resolve share"
    (← UploadSvc.resolveActiveShare token)
  let file ← foundOr 404 "shared file no longer exists" (← query (.fileByID share.fileID))
  return .publicShare ⟨file.name, file.sizeBytes, file.mimeType, share.passwordHash.isSome,
    file.thumbnailKey.isSome⟩

end ApiSvc

end Optiflow
