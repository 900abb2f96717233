import Optiflow.Lib.Table
import Optiflow.Model.Uuid
import Mathlib.Order.Basic

/-!
# The rows of the database

One structure for each model of `internal/models`, with the columns that the modelled code reads or
writes; `created_at` and `updated_at` are left out.  `File.columnDefaults` is what an INSERT makes of a
struct: GORM leaves a zero field with a `default` tag to the database.
-/

namespace Optiflow

/-- Nanoseconds. -/
abbrev Time := ℤ

def minute : Time := 60 * 1000000000

/-- `models.User`. -/
structure User where
  id : UUID
  email : GoString
  passwordHash : GoString
  name : GoString
  storageQuotaBytes : Int64
deriving DecidableEq

/-- `models.Folder`. -/
structure Folder where
  id : UUID
  name : GoString
  userID : UUID
  parentID : Option UUID
deriving DecidableEq

/-- `models.FileStatus`. -/
inductive FileStatus
  | pending
  | processing
  | ready
  | failed
deriving DecidableEq

/-- `models.File`. -/
structure File where
  id : UUID
  name : GoString
  userID : UUID
  folderID : Option UUID
  storageKey : GoString
  sizeBytes : Int64
  mimeType : GoString
  status : FileStatus
  thumbnailKey : Option GoString := none
  playlistKey : Option GoString := none
  version : ℕ
  parentID : Option UUID := none
  isCurrent : Bool := false
deriving DecidableEq

/-- `models.Share`. -/
structure Share where
  id : UUID
  fileID : UUID
  userID : UUID
  token : GoString
  passwordHash : Option GoString
  expiresAt : Option Time
  maxDownloads : Option ℤ
  downloadCount : ℤ
deriving DecidableEq

/-- `models.PasswordResetToken`. -/
structure PasswordResetToken where
  id : UUID
  userID : UUID
  tokenHash : GoString
  expiresAt : Time
  used : Bool
deriving DecidableEq

instance : Keyed User UUID := ⟨User.id⟩
instance : Keyed Folder UUID := ⟨Folder.id⟩
instance : Keyed File UUID := ⟨File.id⟩
instance : Keyed Share UUID := ⟨Share.id⟩
instance : Keyed PasswordResetToken UUID := ⟨PasswordResetToken.id⟩

@[simp] theorem key_user (u : User) : key u = u.id := rfl
@[simp] theorem key_folder (f : Folder) : key f = f.id := rfl
@[simp] theorem key_file (f : File) : key f = f.id := rfl
@[simp] theorem key_share (s : Share) : key s = s.id := rfl
@[simp] theorem key_resetToken (t : PasswordResetToken) : key t = t.id := rfl

namespace File

/-- What an INSERT stores: `version` and `is_current` have a default other than the zero value. -/
def columnDefaults (f : File) : File :=
  { f with version := if f.version = 0 then 1 else f.version, isCurrent := true }

@[simp] theorem id_columnDefaults (f : File) : f.columnDefaults.id = f.id := rfl

@[simp] theorem isCurrent_columnDefaults (f : File) : f.columnDefaults.isCurrent = true := rfl

theorem version_columnDefaults_ne_zero (f : File) : f.columnDefaults.version ≠ 0 := by
  simp only [columnDefaults]
  split
  · exact Nat.one_ne_zero
  · assumption

/-- `strings.HasPrefix(mimeType, "image/")`. -/
def isImage (f : File) : Bool := (lit "image/").isPrefixOf f.mimeType

/-- `strings.HasPrefix(mimeType, "video/")`. -/
def isVideo (f : File) : Bool := (lit "video/").isPrefixOf f.mimeType

/-- The id that ties the versions of a logical file together. -/
def lineageRootID (f : File) : UUID := f.parentID.getD f.id

/-- The columns that no statement of the services changes once the row exists. -/
structure Identity where
  id : UUID
  userID : UUID
  storageKey : GoString
  mimeType : GoString
  version : ℕ
  parentID : Option UUID
deriving DecidableEq

def identity (f : File) : Identity :=
  ⟨f.id, f.userID, f.storageKey, f.mimeType, f.version, f.parentID⟩

end File

end Optiflow
