import Optiflow.Model.Models
import Mathlib.Data.List.Sort

/-!
# Queries and writes

The statements that the handlers issue, by name: each `Query` is one SELECT, each `Write` is one
statement or one transaction.  `Query.eval` and `Write.commit` say what they answer and store when
nothing fails; a query or write that fails answers with an error and stores nothing
(`Query.run`, `Write.run`).
-/

namespace Optiflow

/-- The tables that upload-svc, api-svc and the workers share, and the tokens of the share links that
were deleted. -/
structure DB where
  users : Table User
  folders : Table Folder
  files : Table File
  shares : Table Share
  revokedTokens : List GoString := []

def DB.empty : DB := ⟨.empty, .empty, .empty, .empty, []⟩

/-- `gorm.ErrRecordNotFound`, or any other error. -/
inductive DbError
  | recordNotFound
  | other
deriving DecidableEq

/-- What the environment decides about a step: whether the call fails, the id that `uuid.New` or
`gen_random_uuid` draws, the token of a share, how deep a transaction may recurse, and what an external
tool wrote. -/
structure Oracle where
  fails : Bool := false
  uuid : UUID := 0
  token : GoString := []
  fuel : ℕ := 0
  output : Bytes := []
  segments : List Bytes := []
deriving DecidableEq

/-! ## Rows of a lineage, a level, a user -/

namespace DB

/-- `user_id = ? AND (id = ? OR parent_id = ?)`. -/
def inLineage (userID root : UUID) (f : File) : Bool :=
  f.userID = userID && (f.id = root || f.parentID = some root)

/-- Every version of the logical file rooted at `root`, newest first. -/
def lineageFiles (db : DB) (userID root : UUID) : List File :=
  (db.files.rows.filter (inLineage userID root)).insertionSort fun f g => g.version ≤ f.version

/-- The folders of one level. -/
def childFolders (db : DB) (userID : UUID) (parentID : Option UUID) : List Folder :=
  db.folders.rows.filter fun f => f.userID = userID && f.parentID = parentID

/-- The current files of one level. -/
def currentFiles (db : DB) (userID : UUID) (folderID : Option UUID) : List File :=
  db.files.rows.filter fun f => f.userID = userID && f.isCurrent && f.folderID = folderID

/-- The share links that a user has made, newest first: rows are in the order of their creation. -/
def userShares (db : DB) (userID : UUID) : List Share :=
  (db.shares.rows.filter fun s => s.userID = userID).reverse

/-- The bytes that a user's rows declare. -/
def usedBytes (db : DB) (userID : UUID) : ℤ :=
  db.files.sumOf fun f => if f.userID = userID then f.sizeBytes.toInt else 0

end DB

/-! ## Queries -/

/-- One SELECT. -/
inductive Query : Type → Type
  | storageQuota (userID : UUID) : Query Int64
  | sumSizes (userID : UUID) : Query Int64
  | folder (id userID : UUID) : Query Folder
  | folderParent (id userID : UUID) : Query (Option UUID)
  | folders (userID : UUID) (parentID : Option UUID) : Query (List Folder)
  | file (id userID : UUID) : Query File
  | fileByID (id : UUID) : Query File
  | files (userID : UUID) (folderID : Option UUID) : Query (List File)
  | currentVersion (userID root : UUID) : Query File
  | maxVersion (userID root : UUID) : Query ℕ
  | versions (userID root : UUID) : Query (List File)
  | allFiles (userID : UUID) : Query (List File)
  | share (token : GoString) : Query Share
  | shares (userID : UUID) : Query (List Share)
  | fileShares (fileID userID : UUID) : Query (List Share)

/-- `First`: the matching row with the least primary key; no row is an error. -/
def firstOrNotFound {ρ : Type} [Keyed ρ UUID] (t : Table ρ) (p : ρ → Bool) : Except DbError ρ :=
  match t.first BitVec.toNat p with
  | some r => .ok r
  | none => .error .recordNotFound

theorem mem_of_firstOrNotFound {ρ : Type} [Keyed ρ UUID] {t : Table ρ} {p : ρ → Bool} {r : ρ}
    (h : firstOrNotFound t p = .ok r) : r ∈ t ∧ p r = true := by
  unfold firstOrNotFound at h
  split at h
  · next hr => exact Except.ok.inj h ▸ Table.mem_of_first hr
  · cases h

theorem firstOrNotFound_of_mem {ρ : Type} [Keyed ρ UUID] {t : Table ρ} {p : ρ → Bool} {r : ρ}
    (h : r ∈ t) (hp : p r = true) : ∃ r', firstOrNotFound t p = .ok r' := by
  obtain ⟨r', hr'⟩ := Table.exists_first BitVec.toNat h hp
  exact ⟨r', by rw [firstOrNotFound, hr']⟩

/-- A row is found by a condition that implies its key. -/
theorem firstOrNotFound_of_key {ρ : Type} [Keyed ρ UUID] {t : Table ρ} {p : ρ → Bool} {r : ρ}
    (h : r ∈ t) (hp : p r = true) (hkey : ∀ r', p r' = true → key r' = key r) :
    firstOrNotFound t p = .ok r := by
  obtain ⟨r', hr'⟩ := firstOrNotFound_of_mem h hp
  obtain ⟨hmem, hp'⟩ := mem_of_firstOrNotFound hr'
  rw [hr', Table.eq_of_key hmem h (hkey r' hp')]

theorem firstOrNotFound_eq_error {ρ : Type} [Keyed ρ UUID] {t : Table ρ} {p : ρ → Bool}
    (h : ∀ r ∈ t, p r = false) : firstOrNotFound t p = .error .recordNotFound := by
  rw [firstOrNotFound, Table.first_eq_none.2 h]

namespace Query

def eval {α : Type} : Query α → DB → Except DbError α
  | .storageQuota userID, db =>
    (firstOrNotFound db.users fun u => u.id = userID).map User.storageQuotaBytes
  | .sumSizes userID, db =>
    -- The sum is a NUMERIC; scanning it into an int64 fails when it does not fit.
    let used := db.usedBytes userID
    if -2 ^ 63 ≤ used ∧ used < 2 ^ 63 then .ok (Int64.ofInt used) else .error .other
  | .folder id userID, db => firstOrNotFound db.folders fun f => f.id = id && f.userID = userID
  | .folderParent id userID, db =>
    (firstOrNotFound db.folders fun f => f.id = id && f.userID = userID).map Folder.parentID
  | .folders userID parentID, db =>
    .ok ((db.childFolders userID parentID).insertionSort fun f g => f.name ≤ g.name)
  | .file id userID, db => firstOrNotFound db.files fun f => f.id = id && f.userID = userID
  | .fileByID id, db => firstOrNotFound db.files fun f => f.id = id
  | .files userID folderID, db =>
    .ok ((db.currentFiles userID folderID).insertionSort fun f g => f.name ≤ g.name)
  | .currentVersion userID root, db =>
    firstOrNotFound db.files fun f => DB.inLineage userID root f && f.isCurrent
  | .maxVersion userID root, db =>
    .ok (((db.files.rows.filter (DB.inLineage userID root)).map File.version).foldr max 0)
  | .versions userID root, db => .ok (db.lineageFiles userID root)
  | .allFiles userID, db => .ok (db.files.rows.filter fun f => f.userID = userID)
  | .share token, db => firstOrNotFound db.shares fun s => s.token = token
  | .shares userID, db => .ok (db.userShares userID)
  | .fileShares fileID userID, db => .ok ((db.userShares userID).filter fun s => s.fileID = fileID)

def run {α : Type} (o : Oracle) (q : Query α) (db : DB) : Except DbError α :=
  if o.fails then .error .other else q.eval db

end Query

/-! ## Writes -/

/-- The columns of an `Updates` on a file row; `none` is not in the map. -/
structure FileUpdates where
  thumbnailKey : Option GoString := none
  playlistKey : Option GoString := none
  status : FileStatus
deriving DecidableEq

def FileUpdates.apply (u : FileUpdates) (f : File) : File :=
  { f with
    thumbnailKey := u.thumbnailKey <|> f.thumbnailKey
    playlistKey := u.playlistKey <|> f.playlistKey
    status := u.status }

theorem FileUpdates.key_apply (u : FileUpdates) (f : File) : key (u.apply f) = key f := rfl

/-- The row with its `is_current` set. -/
def File.withCurrent (b : Bool) (f : File) : File := { f with isCurrent := b }

theorem File.key_withCurrent (b : Bool) (f : File) : key (f.withCurrent b) = key f := rfl

/-- The row with one more download. -/
def Share.downloaded (s : Share) : Share := { s with downloadCount := s.downloadCount + 1 }

theorem Share.key_downloaded (s : Share) : key s.downloaded = key s := rfl

/-- One writing statement, or one transaction.  An id that is drawn right before the INSERT is drawn
by the write, which gets the struct built from it. -/
inductive Write : Type → Type
  | createFile (mk : UUID → File) : Write File
  | presignVersion (userID root : UUID) (mk : UUID → File) : Write File
  | saveFile (f : File) : Write Unit
  | restoreVersion (userID root targetID : UUID) : Write Unit
  | deleteFile (userID root : UUID) : Write (List File)
  | updateFile (id : UUID) (u : FileUpdates) : Write Unit
  | createFolder (name : GoString) (userID : UUID) (parentID : Option UUID) : Write Folder
  | saveFolder (f : Folder) : Write Unit
  | deleteFolder (userID folderID : UUID) : Write (List File)
  | incrementDownloads (id : UUID) : Write Unit
  | createShare (fileID userID : UUID) (passwordHash : Option GoString) (expiresAt : Option Time)
      (maxDownloads : Option ℤ) : Write Share
  | deleteShare (id userID : UUID) : Write ℕ

namespace DB

/-- `tx.Create(&file)`: a repeated primary key is an error. -/
def insertFile (db : DB) (f : File) : Except DbError DB :=
  if h : db.files.Used (key f) then .error .other
  else .ok { db with files := db.files.insert f h }

/-- The row that `db.Save(&file)` leaves: the struct, or what an INSERT makes of it. -/
def savedRow (db : DB) (f : File) : File :=
  if (db.files.get? f.id).isSome then f else f.columnDefaults

/-- `db.Save(&file)`: UPDATE of every column, and an INSERT when that touches no row. -/
def saveFile (db : DB) (f : File) : DB := { db with files := db.files.save (db.savedRow f) }

/-- `UPDATE files SET is_current = false` on a lineage. -/
def supersede (db : DB) (userID root : UUID) : DB :=
  { db with
    files := db.files.modify (inLineage userID root) (File.withCurrent false)
      (File.key_withCurrent false) }

/-- `UPDATE files SET is_current = true` on a row. -/
def setCurrent (db : DB) (id : UUID) : DB :=
  { db with
    files := db.files.modify (fun f => f.id = id) (File.withCurrent true)
      (File.key_withCurrent true) }

/-- `Updates` on a row. -/
def updateFile (db : DB) (id : UUID) (u : FileUpdates) : DB :=
  { db with files := db.files.modify (fun f => f.id = id) u.apply u.key_apply }

/-- Delete share links. -/
def deleteShares (db : DB) (p : Share → Bool) : DB :=
  { db with
    shares := db.shares.delete p
    revokedTokens := (db.shares.rows.filter p).map Share.token ++ db.revokedTokens }

/-- Delete files and their shares. -/
def deleteFiles (db : DB) (userID : UUID) (ids : List UUID) : DB :=
  { db.deleteShares (fun s => s.fileID ∈ ids && s.userID = userID) with
    files := db.files.delete fun f => f.id ∈ ids && f.userID = userID }

/-- Delete one folder row. -/
def deleteFolderRow (db : DB) (userID folderID : UUID) : DB :=
  { db with folders := db.folders.delete fun f => f.id = folderID && f.userID = userID }

/-- `download_count = download_count + 1`. -/
def incrementDownloads (db : DB) (id : UUID) : DB :=
  { db with
    shares := db.shares.modify (fun s => s.id = id) Share.downloaded Share.key_downloaded }

/-- Whether a share link has or had the token. -/
def tokenUsed (db : DB) (token : GoString) : Bool :=
  db.shares.rows.any (fun s => s.token = token) || db.revokedTokens.contains token

/-- `id = ? AND user_id = ?`. -/
def ownedShare (id userID : UUID) (s : Share) : Bool := s.id = id && s.userID = userID

/-- Delete a folder, its descendants and every version of the current files in them.  The source's
recursion has no bound: it does not return when `fuel` never suffices. -/
def deleteFolderTree : ℕ → DB → UUID → UUID → Option (List File × DB)
  | 0, _, _, _ => none
  | fuel + 1, db, userID, folderID => do
    let children := db.childFolders userID (some folderID)
    let (deleted, db) ← children.foldlM (fun (acc : List File × DB) child => do
      let (childDeleted, db) ← deleteFolderTree fuel acc.2 userID child.id
      return (acc.1 ++ childDeleted, db)) ([], db)
    let versions := (db.currentFiles userID (some folderID)).flatMap fun f =>
      db.lineageFiles userID f.lineageRootID
    let fileIDs := versions.map File.id
    let db := if 0 < fileIDs.length then db.deleteFiles userID fileIDs else db
    return (deleted ++ versions, db.deleteFolderRow userID folderID)

end DB

namespace Write

/-- What a write answers and stores when no statement of it fails.  Drawn ids are fresh: neither used
by a row nor `issued` before; so are the tokens of shares.  `none` means that the write does not return. -/
def commit {α : Type} (o : Oracle) (issued : List UUID) :
    Write α → DB → Option (Except DbError α × DB)
  | .createFile mk, db =>
    if o.uuid ∈ issued ∨ db.files.Used o.uuid then none
    else
      let f := (mk o.uuid).columnDefaults
      match db.insertFile f with
      | .error e => some (.error e, db)
      | .ok db' => some (.ok f, db')
  | .presignVersion userID root mk, db =>
    if o.uuid ∈ issued ∨ db.files.Used o.uuid then none
    else
      let f := (mk o.uuid).columnDefaults
      match (db.supersede userID root).insertFile f with
      | .error e => some (.error e, db)
      | .ok db' => some (.ok f, db')
  | .saveFile f, db => some (.ok (), db.saveFile f)
  | .restoreVersion userID root targetID, db =>
    some (.ok (), (db.supersede userID root).setCurrent targetID)
  | .deleteFile userID root, db =>
    let versions := db.lineageFiles userID root
    some (.ok versions, db.deleteFiles userID (versions.map File.id))
  | .updateFile id u, db => some (.ok (), db.updateFile id u)
  | .createFolder name userID parentID, db =>
    let folder : Folder := ⟨o.uuid, name, userID, parentID⟩
    if h : db.folders.Used (key folder) then none
    else some (.ok folder, { db with folders := db.folders.insert folder h })
  | .saveFolder f, db => some (.ok (), { db with folders := db.folders.save f })
  | .deleteFolder userID folderID, db =>
    (db.deleteFolderTree o.fuel userID folderID).map fun r => (.ok r.1, r.2)
  | .incrementDownloads id, db => some (.ok (), db.incrementDownloads id)
  | .createShare fileID userID passwordHash expiresAt maxDownloads, db =>
    let share : Share := ⟨o.uuid, fileID, userID, o.token, passwordHash, expiresAt, maxDownloads, 0⟩
    if h : db.shares.Used (key share) then none
    else if db.tokenUsed share.token then none
    else some (.ok share, { db with shares := db.shares.insert share h })
  | .deleteShare id userID, db =>
    -- The number of rows affected.
    some (.ok (db.shares.rows.countP (DB.ownedShare id userID)),
      db.deleteShares (DB.ownedShare id userID))

/-- A failing statement rolls the write back. -/
def run {α : Type} (o : Oracle) (issued : List UUID) (w : Write α) (db : DB) :
    Option (Except DbError α × DB) :=
  if o.fails then some (.error .other, db) else w.commit o issued db

end Write

end Optiflow
