import Optiflow.Lib.Part
import Optiflow.Proof.Links

/-!
# One user's calls

What a request of one user may call (`CallOwn`): it reads, writes and removes only what is the user's,
also where a statement follows an id without a user filter.  Such a call leaves what is of others alone
(`CallOwn.apart`).
-/

namespace Optiflow

open Interleave UploadSvc ApiSvc

/-- The row is the user's. -/
def ofUser {ρ : Type} (owner : ρ → UUID) (userID : UUID) (r : ρ) : Bool := owner r = userID

theorem ofUser_iff {ρ : Type} {owner : ρ → UUID} {userID : UUID} {r : ρ} :
    ofUser owner userID r = true ↔ owner r = userID := decide_eq_true_iff

/-! ## What is called -/

/-- The keys of the objects of a file. -/
def File.HasKey (f : File) (key : GoString) : Prop :=
  key = f.storageKey ∨ f.thumbnailKey = some key ∨ hlsPrefix f.id <+: key

theorem FileLinked.owns {s : Store} {f : File} (h : FileLinked s f) {key : GoString}
    (hkey : f.HasKey key) : Owns f.id key := by
  obtain rfl | hkey | hkey := hkey
  · exact h.original
  · exact h.thumbnail key hkey
  · exact owns_of_hlsPrefix hkey

/-- No file of another user has the id. -/
def DB.NoOther (db : DB) (userID id : UUID) : Prop := ∀ f ∈ db.files, f.id = id → f.userID = userID

/-- What a user's request may write. -/
def WriteOwn (s : Store) (userID : UUID) {α : Type} : Write α → Prop
  | .createFile mk => ∀ id, (mk id).userID = userID ∧
      ((mk id).id = id ∨ (mk id).id ∈ s.issued ∧ ¬s.db.files.Used (mk id).id)
  | .presignVersion u _ mk => u = userID ∧ ∀ id, (mk id).userID = userID ∧ (mk id).id = id
  | .saveFile f => f.userID = userID ∧ ∃ r ∈ s.db.files, r.id = f.id ∧ r.userID = userID
  | .restoreVersion u _ targetID => u = userID ∧ s.db.NoOther userID targetID
  | .deleteFile u _ => u = userID
  | .updateFile _ _ => False
  | .createFolder _ u _ => u = userID
  | .saveFolder f => f.userID = userID ∧ ∃ r ∈ s.db.folders, r.id = f.id ∧ r.userID = userID
  | .deleteFolder u _ => u = userID
  | .incrementDownloads _ => False
  | .createShare _ u _ _ _ => u = userID
  | .deleteShare _ u => u = userID

/-- What a user's request may do to the bucket; `files` are the user's when the request starts. -/
def BucketOwn (files : List File) (s : Store) (userID : UUID) {α : Type} : BucketStmt α → Prop
  | .statObject key => ∃ f ∈ files, f.HasKey key
  | .readObject key => ∃ f ∈ files, f.HasKey key
  | .listObjects keyPrefix => ∃ f ∈ files, keyPrefix = hlsPrefix f.id
  | .putObject key _ _ _ => ∃ id, Owns id key ∧ s.db.NoOther userID id
  | .removeObject key => ∃ id, Owns id key ∧ s.db.NoOther userID id
  | _ => True

/-- What a user's request may call; `files` are the user's and `paths` are those of the user's uploads
when the request starts. -/
def CallOwn (files : List File) (paths : List GoString) (userID : UUID) {α : Type} :
    Stmt α → Store → Prop
  | .query (.fileByID id), s => s.db.NoOther userID id
  | .query q, _ => q.isOf userID
  | .write w, s => WriteOwn s userID w
  | .bucket b, s => BucketOwn files s userID b
  | .staging (.create u), _ => u.user = some userID
  | .staging (.openFile path), _ => path ∈ paths
  | _, _ => True

/-! ## What is of others -/

/-- The rows of others are the same. -/
structure DB.SameOthers (userID : UUID) (db db' : DB) : Prop where
  users : db'.users = db.users
  folders : Table.SameOutside (ofUser Folder.userID userID) db.folders db'.folders
  files : Table.SameOutside (ofUser File.userID userID) db.files db'.files
  shares : Table.SameOutside (ofUser Share.userID userID) db.shares db'.shares

namespace DB

variable {db db' : DB} {userID : UUID}

theorem SameOthers.refl (userID : UUID) (db : DB) : SameOthers userID db db :=
  ⟨rfl, .refl _ _, .refl _ _, .refl _ _⟩

theorem SameOthers.trans {a b c : DB} (h : SameOthers userID a b) (h' : SameOthers userID b c) :
    SameOthers userID a c :=
  ⟨h'.users.trans h.users, h.folders.trans h'.folders, h.files.trans h'.files, h.shares.trans h'.shares⟩

theorem sameOthers_deleteShares {p : Share → Bool} (hp : ∀ s, p s = true → s.userID = userID) :
    SameOthers userID db (db.deleteShares p) :=
  ⟨rfl, .refl _ _, .refl _ _, Table.sameOutside_delete fun s hs => ofUser_iff.2 (hp s hs)⟩

theorem sameOthers_deleteFiles (ids : List UUID) : SameOthers userID db (db.deleteFiles userID ids) where
  users := rfl
  folders := .refl _ _
  files := Table.sameOutside_delete fun f hf => by
    rw [Bool.and_eq_true, decide_eq_true_iff, decide_eq_true_iff] at hf
    exact ofUser_iff.2 hf.2
  shares := Table.sameOutside_delete fun s hs => by
    rw [Bool.and_eq_true, decide_eq_true_iff, decide_eq_true_iff] at hs
    exact ofUser_iff.2 hs.2

theorem sameOthers_deleteFolderRow (folderID : UUID) :
    SameOthers userID db (db.deleteFolderRow userID folderID) where
  users := rfl
  folders := Table.sameOutside_delete fun f hf => by
    rw [Bool.and_eq_true, decide_eq_true_iff, decide_eq_true_iff] at hf
    exact ofUser_iff.2 hf.2
  files := .refl _ _
  shares := .refl _ _

theorem sameOthers_deleteLevel (folderID : UUID) :
    SameOthers userID db (db.deleteLevel userID folderID) :=
  (sameOthers_deleteFiles _).trans (sameOthers_deleteFolderRow _)

/-- A folder tree is deleted with files and folders of its user only. -/
theorem sameOthers_deleteFolderTree {fuel : ℕ} {folderID : UUID} {versions : List File}
    (h : db.deleteFolderTree fuel userID folderID = some (versions, db')) :
    SameOthers userID db db' ∧ ∀ f ∈ versions, f.userID = userID := by
  refine deleteFolderTree_rule (R := fun a l b => SameOthers userID a b ∧ ∀ f ∈ l, f.userID = userID)
    (fun a => ⟨.refl _ _, fun _ hf => absurd hf List.not_mem_nil⟩) (fun hab hbc => ?_)
    (fun a folderID => ?_) h
  · exact ⟨hab.1.trans hbc.1, List.forall_mem_append.2 ⟨hab.2, hbc.2⟩⟩
  · exact ⟨sameOthers_deleteLevel folderID, fun f hf => (mem_filesIn hf).2⟩

theorem sameOthers_supersede (root : UUID) : SameOthers userID db (db.supersede userID root) where
  users := rfl
  folders := .refl _ _
  files := Table.sameOutside_modify (File.key_withCurrent false) fun _ _ hin =>
    ⟨ofUser_iff.2 (inLineage_iff.1 hin).1, ofUser_iff.2 (inLineage_iff.1 hin).1⟩
  shares := .refl _ _

/-- The second update of a restore has no user filter. -/
theorem sameOthers_setCurrent {id : UUID} (h : db.NoOther userID id) :
    SameOthers userID db (db.setCurrent id) where
  users := rfl
  folders := .refl _ _
  files := Table.sameOutside_modify (File.key_withCurrent true) fun f hf hid =>
    ⟨ofUser_iff.2 (h f hf (of_decide_eq_true hid)), ofUser_iff.2 (h f hf (of_decide_eq_true hid))⟩
  shares := .refl _ _

/-- Neither does a save. -/
theorem sameOthers_saveFile {f r : File} (hf : f.userID = userID) (hr : r ∈ db.files) (hid : r.id = f.id)
    (huser : r.userID = userID) : SameOthers userID db (db.saveFile f) where
  users := rfl
  folders := .refl _ _
  files := by
    unfold saveFile
    rw [savedRow_of_mem hr hid]
    exact Table.sameOutside_save hr hid (ofUser_iff.2 huser) (ofUser_iff.2 hf)
  shares := .refl _ _

theorem NoOther.supersede {id root : UUID} (h : db.NoOther userID id) :
    (db.supersede userID root).NoOther userID id := by
  intro f hf hid
  obtain ⟨g, hg, rfl⟩ := mem_supersede.1 hf
  split
  · next hin => exact (inLineage_iff.1 hin).1
  · next hin => exact h g hg (by rwa [if_neg hin] at hid)

end DB

section Apart

variable {s s' t u : Store} {userID : UUID} {α : Type} {o : Oracle} {files : List File}
  {paths : List GoString}

theorem WriteOwn.sameOthers {w : Write α} {a : Except DbError α} {db' : DB} (h : WriteOwn s userID w)
    (hw : w.run o s.issued s.db = some (a, db')) : s.db.SameOthers userID db' := by
  cases w with
  | createFile mk =>
    obtain ⟨-, rfl⟩ | ⟨hu, -, -, -, rfl⟩ := Write.createFile_cases hw
    · exact .refl _ _
    · exact ⟨rfl, .refl _ _, Table.sameOutside_insert hu (ofUser_iff.2 (h o.uuid).1), .refl _ _⟩
  | presignVersion u root mk =>
    obtain ⟨rfl, hmk⟩ := h
    obtain ⟨-, rfl⟩ | ⟨hu, -, -, -, rfl⟩ := Write.presignVersion_cases hw
    · exact .refl _ _
    · refine (DB.sameOthers_supersede root).trans ⟨rfl, .refl _ _, ?_, .refl _ _⟩
      exact Table.sameOutside_insert hu (ofUser_iff.2 (hmk o.uuid).1)
  | saveFile f =>
    obtain ⟨hf, r, hr, hid, huser⟩ := h
    obtain ⟨-, rfl⟩ | ⟨-, rfl⟩ := Write.saveFile_cases hw
    · exact .refl _ _
    · exact DB.sameOthers_saveFile hf hr hid huser
  | restoreVersion u root targetID =>
    obtain ⟨rfl, hother⟩ := h
    obtain ⟨-, rfl⟩ | ⟨-, rfl⟩ := Write.restoreVersion_cases hw
    · exact .refl _ _
    · exact (DB.sameOthers_supersede root).trans (DB.sameOthers_setCurrent hother.supersede)
  | deleteFile u root =>
    obtain rfl : u = userID := h
    obtain ⟨-, rfl⟩ | ⟨-, rfl⟩ := Write.deleteFile_cases hw
    · exact .refl _ _
    · exact DB.sameOthers_deleteFiles _
  | updateFile id u => exact h.elim
  | createFolder name u parentID =>
    obtain rfl : u = userID := h
    obtain ⟨-, rfl⟩ | ⟨hu, -, rfl⟩ := Write.createFolder_cases hw
    · exact .refl _ _
    · exact ⟨rfl, Table.sameOutside_insert hu (ofUser_iff.2 rfl), .refl _ _, .refl _ _⟩
  | saveFolder f =>
    obtain ⟨hf, r, hr, hid, huser⟩ := h
    obtain ⟨-, rfl⟩ | ⟨-, rfl⟩ := Write.saveFolder_cases hw
    · exact .refl _ _
    · exact ⟨rfl, Table.sameOutside_save hr hid (ofUser_iff.2 huser) (ofUser_iff.2 hf), .refl _ _,
        .refl _ _⟩
  | deleteFolder u folderID =>
    obtain rfl : u = userID := h
    obtain ⟨-, rfl⟩ | ⟨versions, -, hd⟩ := Write.deleteFolder_cases hw
    · exact .refl _ _
    · exact (DB.sameOthers_deleteFolderTree hd).1
  | incrementDownloads id => exact h.elim
  | createShare fileID u passwordHash expiresAt maxDownloads =>
    obtain rfl : u = userID := h
    obtain ⟨-, rfl⟩ | ⟨share, rfl, hu, -, -, rfl⟩ := Write.createShare_cases hw
    · exact .refl _ _
    · exact ⟨rfl, .refl _ _, .refl _ _, Table.sameOutside_insert hu (ofUser_iff.2 rfl)⟩
  | deleteShare id u =>
    obtain rfl : u = userID := h
    obtain ⟨-, rfl⟩ | ⟨-, rfl⟩ := Write.deleteShare_cases hw
    · exact .refl _ _
    · refine DB.sameOthers_deleteShares fun sh hsh => ?_
      simp only [DB.ownedShare, Bool.and_eq_true, decide_eq_true_eq] at hsh
      exact hsh.2

/-- The rows and the objects of others are the same, and new uploads are the user's. -/
structure Apart (userID : UUID) (s t : Store) : Prop where
  db : s.db.SameOthers userID t.db
  object : ∀ f ∈ s.db.files, f.userID ≠ userID → ∀ key, Owns f.id key →
    t.bucket.object? key = s.bucket.object? key
  upload : ∀ u ∈ t.staging.accepted, u ∈ s.staging.accepted ∨ u.user = some userID

theorem Apart.refl (userID : UUID) (s : Store) : Apart userID s s :=
  ⟨.refl _ _, fun _ _ _ _ _ => rfl, fun _ hu => Or.inl hu⟩

theorem Apart.trans (h : Apart userID s t) (h' : Apart userID t u) : Apart userID s u := by
  refine ⟨h.db.trans h'.db, fun f hf hne key hkey => ?_, fun x hx => ?_⟩
  · have hother : ofUser File.userID userID f = false := by
      simpa [ofUser] using hne
    rw [h'.object f ((h.db.files f hother).2 hf) hne key hkey, h.object f hf hne key hkey]
  · obtain hx | hx := h'.upload x hx
    · exact h.upload x hx
    · exact Or.inr hx

/-- A key of a file that is no other user's is not one of another user's file. -/
theorem key_ne_of_noOther {id : UUID} {key key' : GoString} {f : File} (hid : s.db.NoOther userID id)
    (hkey : Owns id key) (hf : f ∈ s.db.files) (hne : f.userID ≠ userID) (hkey' : Owns f.id key') :
    key' ≠ key := by
  rintro rfl
  exact hne (hid f hf (hkey'.id_eq hkey))

theorem BucketOwn.object {b : BucketStmt α} (h : BucketOwn files s userID b) {f : File}
    (hf : f ∈ s.db.files) (hne : f.userID ≠ userID) {key : GoString} (hkey : Owns f.id key) :
    (b.run o s.now s.bucket).2.object? key = s.bucket.object? key := by
  cases b with
  | presignedPutURL k expiry =>
    simp only [BucketStmt.run]
    split <;> rfl
  | putObject k body size contentType =>
    obtain ⟨id, hk, hid⟩ := h
    have hne' := key_ne_of_noOther hid hk hf hne hkey
    simp only [BucketStmt.run]
    split
    · rfl
    · exact Bucket.object?_put_ne hne'
  | removeObject k =>
    obtain ⟨id, hk, hid⟩ := h
    have hne' := key_ne_of_noOther hid hk hf hne hkey
    simp only [BucketStmt.run]
    split
    · rfl
    · exact Bucket.object?_remove_ne hne'
  | _ => rfl

/-- **A user's call leaves what is of others alone.** -/
theorem CallOwn.apart {e : Stmt α} {a : α} (h : CallOwn files paths userID e s)
    (hx : exec o e s = some (a, s')) : Apart userID s s' := by
  cases e with
  | write w =>
    obtain ⟨db', hw, rfl⟩ := exec_write hx
    exact ⟨WriteOwn.sameOthers h hw, fun _ _ _ _ _ => rfl, fun _ hu => Or.inl hu⟩
  | bucket b =>
    obtain ⟨-, rfl⟩ := Prod.mk.inj (Option.some.inj hx)
    exact ⟨.refl _ _, fun f hf hne key hkey => BucketOwn.object h hf hne hkey, fun _ hu => Or.inl hu⟩
  | staging st =>
    obtain ⟨-, rfl⟩ := Prod.mk.inj (Option.some.inj hx)
    refine ⟨.refl _ _, fun _ _ _ _ _ => rfl, fun u hu => ?_⟩
    cases st with
    | create upload =>
      rcases List.mem_cons.1 hu with rfl | hu
      · exact Or.inr h
      · exact Or.inl hu
    | openFile path => exact Or.inl hu
    | removeFile path =>
      simp only [StagingStmt.run] at hu
      split at hu <;> exact Or.inl hu
  | newUUID =>
    simp only [exec] at hx
    split at hx
    · cases hx
    · obtain ⟨-, rfl⟩ := Prod.mk.inj (Option.some.inj hx)
      exact ⟨.refl _ _, fun _ _ _ _ _ => rfl, fun _ hu => Or.inl hu⟩
  | _ =>
    obtain ⟨-, rfl⟩ := Prod.mk.inj (Option.some.inj hx)
    exact ⟨.refl _ _, fun _ _ _ _ _ => rfl, fun _ hu => Or.inl hu⟩

end Apart

end Optiflow
