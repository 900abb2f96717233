import Optiflow.Lib.TwoRuns
import Optiflow.Proof.OwnCalls

/-!
# Stores that agree on one user

In stores that agree on what is a user's, and with ids and tokens that are new in both, a call of the
user's request is answered alike and leaves them so (`CallOwn.exec_alike`).
-/

namespace Optiflow

open Interleave UploadSvc ApiSvc

/-! ## Two databases -/

/-- The rows of the user are the same. -/
structure DB.Alike (userID : UUID) (db db' : DB) : Prop where
  users : db.users.part (ofUser User.id userID) = db'.users.part (ofUser User.id userID)
  folders : db.folders.part (ofUser Folder.userID userID) = db'.folders.part (ofUser Folder.userID userID)
  files : db.files.part (ofUser File.userID userID) = db'.files.part (ofUser File.userID userID)
  shares : db.shares.part (ofUser Share.userID userID) = db'.shares.part (ofUser Share.userID userID)

theorem firstOrNotFound_congr {ρ : Type} [Keyed ρ UUID] {p q : ρ → Bool} {t t' : Table ρ}
    (hpart : t.part p = t'.part p) (h : ∀ r ∈ t, q r = true → p r = true)
    (h' : ∀ r ∈ t', q r = true → p r = true) : firstOrNotFound t q = firstOrNotFound t' q := by
  rw [firstOrNotFound, firstOrNotFound, Table.first_congr hpart h h']

namespace DB.Alike

variable {db db' : DB} {userID : UUID}

/-- What is selected of the user's files. -/
theorem filter_files (h : Alike userID db db') {q : File → Bool}
    (hq : ∀ f, q f = true → f.userID = userID) :
    db.files.rows.filter q = db'.files.rows.filter q :=
  Table.filter_congr h.files (fun f _ hf => ofUser_iff.2 (hq f hf)) fun f _ hf => ofUser_iff.2 (hq f hf)

theorem first_file (h : Alike userID db db') {q : File → Bool} (hq : ∀ f, q f = true → f.userID = userID) :
    firstOrNotFound db.files q = firstOrNotFound db'.files q :=
  firstOrNotFound_congr h.files (fun f _ hf => ofUser_iff.2 (hq f hf)) fun f _ hf =>
    ofUser_iff.2 (hq f hf)

theorem filter_folders (h : Alike userID db db') {q : Folder → Bool}
    (hq : ∀ f, q f = true → f.userID = userID) :
    db.folders.rows.filter q = db'.folders.rows.filter q :=
  Table.filter_congr h.folders (fun f _ hf => ofUser_iff.2 (hq f hf)) fun f _ hf => ofUser_iff.2 (hq f hf)

theorem first_folder (h : Alike userID db db') {q : Folder → Bool}
    (hq : ∀ f, q f = true → f.userID = userID) :
    firstOrNotFound db.folders q = firstOrNotFound db'.folders q :=
  firstOrNotFound_congr h.folders (fun f _ hf => ofUser_iff.2 (hq f hf)) fun f _ hf =>
    ofUser_iff.2 (hq f hf)

theorem lineageFiles (h : Alike userID db db') (root : UUID) :
    db.lineageFiles userID root = db'.lineageFiles userID root := by
  rw [DB.lineageFiles, DB.lineageFiles, h.filter_files fun f hf => (inLineage_iff.1 hf).1]

theorem childFolders (h : Alike userID db db') (parentID : Option UUID) :
    db.childFolders userID parentID = db'.childFolders userID parentID :=
  h.filter_folders fun f hf => by
    rw [Bool.and_eq_true, decide_eq_true_iff] at hf
    exact hf.1

theorem currentFiles (h : Alike userID db db') (folderID : Option UUID) :
    db.currentFiles userID folderID = db'.currentFiles userID folderID :=
  h.filter_files fun f hf => by
    rw [Bool.and_eq_true, Bool.and_eq_true, decide_eq_true_iff] at hf
    exact hf.1.1

theorem userShares (h : Alike userID db db') : db.userShares userID = db'.userShares userID := by
  have hrows : db.shares.rows.filter (ofUser Share.userID userID) =
      db'.shares.rows.filter (ofUser Share.userID userID) := h.shares
  exact congrArg List.reverse hrows

theorem usedBytes (h : Alike userID db db') : db.usedBytes userID = db'.usedBytes userID := by
  have hzero : ∀ f : File, ofUser File.userID userID f = false →
      (if f.userID = userID then f.sizeBytes.toInt else 0) = 0 := fun f hf =>
    if_neg fun huser => by
      rw [ofUser_iff.2 huser] at hf
      cases hf
  rw [DB.usedBytes, DB.usedBytes, Table.sumOf_part hzero, Table.sumOf_part hzero, h.files]

/-- A query about the user is answered alike. -/
theorem eval {α : Type} {q : Query α} (h : Alike userID db db') (hq : q.isOf userID) :
    q.eval db = q.eval db' := by
  cases q with
  | storageQuota u =>
    obtain rfl : u = userID := hq
    simp only [Query.eval]
    rw [firstOrNotFound_congr (q := fun x : User => x.id = u) h.users (fun _ _ hx => hx) fun _ _ hx => hx]
  | sumSizes u =>
    obtain rfl : u = userID := hq
    simp only [Query.eval, h.usedBytes]
  | folder id u =>
    obtain rfl : u = userID := hq
    exact h.first_folder fun f hf => by simpa using (Bool.and_eq_true_iff.1 hf).2
  | folderParent id u =>
    obtain rfl : u = userID := hq
    simp only [Query.eval]
    rw [h.first_folder fun f hf => by simpa using (Bool.and_eq_true_iff.1 hf).2]
  | folders u parentID =>
    obtain rfl : u = userID := hq
    simp only [Query.eval, h.childFolders]
  | file id u =>
    obtain rfl : u = userID := hq
    exact h.first_file fun f hf => by simpa using (Bool.and_eq_true_iff.1 hf).2
  | files u folderID =>
    obtain rfl : u = userID := hq
    simp only [Query.eval, h.currentFiles]
  | currentVersion u root =>
    obtain rfl : u = userID := hq
    exact h.first_file fun f hf => (inLineage_iff.1 (Bool.and_eq_true_iff.1 hf).1).1
  | maxVersion u root =>
    obtain rfl : u = userID := hq
    simp only [Query.eval]
    rw [h.filter_files fun f hf => (inLineage_iff.1 hf).1]
  | versions u root =>
    obtain rfl : u = userID := hq
    simp only [Query.eval, h.lineageFiles]
  | allFiles u =>
    obtain rfl : u = userID := hq
    simp only [Query.eval]
    rw [h.filter_files fun f hf => by simpa using hf]
  | shares u =>
    obtain rfl : u = userID := hq
    simp only [Query.eval, h.userShares]
  | fileShares fileID u =>
    obtain rfl : u = userID := hq
    simp only [Query.eval, h.userShares]
  | fileByID id => exact hq.elim
  | share token => exact hq.elim

/-- So is the look-up of an id that no other user has. -/
theorem eval_fileByID (h : Alike userID db db') {id : UUID} (hid : db.NoOther userID id)
    (hid' : db'.NoOther userID id) : (Query.fileByID id).eval db = (Query.fileByID id).eval db' :=
  firstOrNotFound_congr h.files (fun f hf hfid => ofUser_iff.2 (hid f hf (of_decide_eq_true hfid)))
    fun f hf hfid => ofUser_iff.2 (hid' f hf (of_decide_eq_true hfid))

/-! ### Writes -/

theorem insertFile {f : File} (h : Alike userID db db') (hu : ¬db.files.Used (key f))
    (hu' : ¬db'.files.Used (key f)) (hf : f.userID = userID) :
    Alike userID { db with files := db.files.insert f hu }
      { db' with files := db'.files.insert f hu' } where
  users := h.users
  folders := h.folders
  files := by
    rw [Table.part_insert hu (ofUser_iff.2 hf), Table.part_insert hu' (ofUser_iff.2 hf), h.files]
  shares := h.shares

theorem insertFolder {f : Folder} (h : Alike userID db db') (hu : ¬db.folders.Used (key f))
    (hu' : ¬db'.folders.Used (key f)) (hf : f.userID = userID) :
    Alike userID { db with folders := db.folders.insert f hu }
      { db' with folders := db'.folders.insert f hu' } where
  users := h.users
  folders := by
    rw [Table.part_insert hu (ofUser_iff.2 hf), Table.part_insert hu' (ofUser_iff.2 hf), h.folders]
  files := h.files
  shares := h.shares

theorem insertShare {sh : Share} (h : Alike userID db db') (hu : ¬db.shares.Used (key sh))
    (hu' : ¬db'.shares.Used (key sh)) (hsh : sh.userID = userID) :
    Alike userID { db with shares := db.shares.insert sh hu }
      { db' with shares := db'.shares.insert sh hu' } where
  users := h.users
  folders := h.folders
  files := h.files
  shares := by
    rw [Table.part_insert hu (ofUser_iff.2 hsh), Table.part_insert hu' (ofUser_iff.2 hsh), h.shares]

theorem supersede (h : Alike userID db db') (root : UUID) :
    Alike userID (db.supersede userID root) (db'.supersede userID root) where
  users := h.users
  folders := h.folders
  files := by
    have hin : ∀ f : File, DB.inLineage userID root f = true →
        ofUser File.userID userID f = true ∧ ofUser File.userID userID (f.withCurrent false) = true :=
      fun f hf => ⟨ofUser_iff.2 (inLineage_iff.1 hf).1, ofUser_iff.2 (inLineage_iff.1 hf).1⟩
    unfold DB.supersede
    rw [Table.part_modify _ fun f _ => hin f, Table.part_modify _ fun f _ => hin f, h.files]
  shares := h.shares

theorem setCurrent (h : Alike userID db db') {id : UUID} (hid : db.NoOther userID id)
    (hid' : db'.NoOther userID id) : Alike userID (db.setCurrent id) (db'.setCurrent id) where
  users := h.users
  folders := h.folders
  files := by
    have hin : ∀ {d : DB}, d.NoOther userID id → ∀ f ∈ d.files, decide (f.id = id) = true →
        ofUser File.userID userID f = true ∧ ofUser File.userID userID (f.withCurrent true) = true :=
      fun hd f hf hfid => ⟨ofUser_iff.2 (hd f hf (of_decide_eq_true hfid)),
        ofUser_iff.2 (hd f hf (of_decide_eq_true hfid))⟩
    unfold DB.setCurrent
    rw [Table.part_modify _ (hin hid), Table.part_modify _ (hin hid'), h.files]
  shares := h.shares

theorem saveFile (h : Alike userID db db') {f r r' : File} (hf : f.userID = userID) (hr : r ∈ db.files)
    (hid : r.id = f.id) (huser : r.userID = userID) (hr' : r' ∈ db'.files) (hid' : r'.id = f.id)
    (huser' : r'.userID = userID) : Alike userID (db.saveFile f) (db'.saveFile f) where
  users := h.users
  folders := h.folders
  files := by
    unfold DB.saveFile
    rw [savedRow_of_mem hr hid, savedRow_of_mem hr' hid',
      Table.part_save hr hid (ofUser_iff.2 huser) (ofUser_iff.2 hf),
      Table.part_save hr' hid' (ofUser_iff.2 huser') (ofUser_iff.2 hf), h.files]
  shares := h.shares

theorem saveFolder (h : Alike userID db db') {f r r' : Folder} (hf : f.userID = userID)
    (hr : r ∈ db.folders) (hid : r.id = f.id) (huser : r.userID = userID) (hr' : r' ∈ db'.folders)
    (hid' : r'.id = f.id) (huser' : r'.userID = userID) :
    Alike userID { db with folders := db.folders.save f } { db' with folders := db'.folders.save f } where
  users := h.users
  folders := by
    rw [Table.part_save hr hid (ofUser_iff.2 huser) (ofUser_iff.2 hf),
      Table.part_save hr' hid' (ofUser_iff.2 huser') (ofUser_iff.2 hf), h.folders]
  files := h.files
  shares := h.shares

theorem deleteShares (h : Alike userID db db') (p : Share → Bool) :
    Alike userID (db.deleteShares p) (db'.deleteShares p) where
  users := h.users
  folders := h.folders
  files := h.files
  shares := by
    unfold DB.deleteShares
    rw [Table.part_delete, Table.part_delete, h.shares]

theorem deleteFiles (h : Alike userID db db') (u : UUID) (ids : List UUID) :
    Alike userID (db.deleteFiles u ids) (db'.deleteFiles u ids) where
  users := h.users
  folders := h.folders
  files := by
    unfold DB.deleteFiles
    rw [Table.part_delete, Table.part_delete, h.files]
  shares := (h.deleteShares _).shares

theorem deleteFolderRow (h : Alike userID db db') (u folderID : UUID) :
    Alike userID (db.deleteFolderRow u folderID) (db'.deleteFolderRow u folderID) where
  users := h.users
  folders := by
    unfold DB.deleteFolderRow
    rw [Table.part_delete, Table.part_delete, h.folders]
  files := h.files
  shares := h.shares

theorem deleteFolderTree (h : Alike userID db db') (fuel : ℕ) (folderID : UUID) :
    Option.Rel (fun x y => x.1 = y.1 ∧ Alike userID x.2 y.2) (db.deleteFolderTree fuel userID folderID)
      (db'.deleteFolderTree fuel userID folderID) := by
  induction fuel generalizing db db' folderID with
  | zero => exact .none
  | succ fuel ih =>
    rw [DB.deleteFolderTree_succ, DB.deleteFolderTree_succ, h.childFolders]
    refine OptionRel.bind (A := fun x y : List File × DB => x.1 = y.1 ∧ Alike userID x.2 y.2)
      (OptionRel.foldlM (fun x y child hxy => ?_) _ _ _ ⟨rfl, h⟩) fun x y hxy => .some ?_
    · refine OptionRel.bind (ih hxy.2 child.id) fun d d' hd => .some ⟨?_, hd.2⟩
      rw [hxy.1, hd.1]
    · obtain ⟨hdeleted, hdb⟩ := hxy
      have hversions : x.2.filesIn userID folderID = y.2.filesIn userID folderID := by
        unfold DB.filesIn
        rw [hdb.currentFiles]
        exact List.flatMap_congr fun f _ => hdb.lineageFiles _
      refine ⟨by rw [hdeleted, hversions], Alike.deleteFolderRow ?_ _ _⟩
      rw [hversions]
      exact hdb.deleteFiles _ _

end DB.Alike

/-! ## Fresh draws -/

/-- The id and the token that the oracle draws are new. -/
structure Oracle.New (o : Oracle) (s : Store) : Prop where
  issued : o.uuid ∉ s.issued
  file : ¬s.db.files.Used o.uuid
  folder : ¬s.db.folders.Used o.uuid
  share : ¬s.db.shares.Used o.uuid
  token : s.db.tokenUsed o.token = false

/-- The oracles draw ids and tokens that are new, and no two draw the same. -/
def Fresh (os : List Oracle) (s : Store) : Prop :=
  (∀ o ∈ os, o.New s) ∧ os.Pairwise fun o o' => o.uuid ≠ o'.uuid ∧ o.token ≠ o'.token

section Draws

variable {s s' : Store} {userID : UUID} {α : Type} {o x : Oracle} {files : List File}
  {paths : List GoString}

/-- What a row that is inserted does to the keys that were ever used. -/
theorem not_used_insert {ρ : Type} [Keyed ρ UUID] {r : ρ} {t : Table ρ} {id : UUID} (h : ¬t.Used (key r))
    (hid : ¬t.Used id) (hne : key r ≠ id) : ¬(t.insert r h).Used id := by
  intro hused
  obtain ⟨b, hb, rfl⟩ := Table.used_iff.1 hused
  rcases List.mem_cons.1 hb with rfl | hb
  · exact hne rfl
  · exact hid (Table.used_iff.2 ⟨b, hb, rfl⟩)

theorem not_used_of_births {ρ : Type} [Keyed ρ UUID] {t t' : Table ρ} {id : UUID} (h : ¬t.Used id)
    (hb : t'.births = t.births) : ¬t'.Used id := by
  rwa [Table.Used, hb]

theorem Oracle.New.shrinks {db' : DB} (h : x.New s) (hd : s.db.Shrinks db') :
    x.New { s with db := db' } :=
  ⟨h.issued, not_used_of_births h.file hd.file_births, not_used_of_births h.folder hd.folder_births,
    not_used_of_births h.share hd.share_births, (hd.tokens _).trans h.token⟩

theorem WriteOwn.new {w : Write α} {a : Except DbError α} {db' : DB} (h : WriteOwn s userID w)
    (hw : w.run o s.issued s.db = some (a, db')) (hx : x.New s) (hid : o.uuid ≠ x.uuid)
    (htoken : o.token ≠ x.token) : x.New { s with db := db' } := by
  cases w with
  | createFile mk =>
    obtain ⟨-, rfl⟩ | ⟨hu, -, -, -, rfl⟩ := Write.createFile_cases hw
    · exact hx
    · refine ⟨hx.issued, not_used_insert hu hx.file fun he => ?_, hx.folder, hx.share, hx.token⟩
      have he : (mk o.uuid).id = x.uuid := he
      obtain hmk | ⟨hmk, -⟩ := (h o.uuid).2
      · exact hid (hmk ▸ he)
      · exact hx.issued (he ▸ hmk)
  | presignVersion u root mk =>
    obtain ⟨-, rfl⟩ | ⟨hu, -, -, -, rfl⟩ := Write.presignVersion_cases hw
    · exact hx
    · refine ⟨hx.issued, not_used_insert hu hx.file fun he => ?_, hx.folder, hx.share, hx.token⟩
      have he : (mk o.uuid).id = x.uuid := he
      exact hid ((h.2 o.uuid).2 ▸ he)
  | saveFile f =>
    obtain ⟨-, r, hr, hrid, -⟩ := h
    obtain ⟨-, rfl⟩ | ⟨-, rfl⟩ := Write.saveFile_cases hw
    · exact hx
    · have hused : s.db.files.Used (key (s.db.savedRow f)) := by
        rw [key_file, DB.id_savedRow, ← hrid]
        exact Table.used_of_mem hr
      exact ⟨hx.issued, not_used_of_births hx.file (Table.births_save hused), hx.folder, hx.share,
        hx.token⟩
  | restoreVersion u root targetID =>
    obtain ⟨-, rfl⟩ | ⟨-, rfl⟩ := Write.restoreVersion_cases hw
    · exact hx
    · exact ⟨hx.issued, hx.file, hx.folder, hx.share, hx.token⟩
  | deleteFile u root =>
    obtain ⟨-, rfl⟩ | ⟨-, rfl⟩ := Write.deleteFile_cases hw
    · exact hx
    · exact hx.shrinks (DB.shrinks_deleteFiles _ _ _)
  | updateFile id u => exact h.elim
  | createFolder name u parentID =>
    obtain ⟨-, rfl⟩ | ⟨hu, -, rfl⟩ := Write.createFolder_cases hw
    · exact hx
    · exact ⟨hx.issued, hx.file, not_used_insert hu hx.folder hid, hx.share, hx.token⟩
  | saveFolder f =>
    obtain ⟨-, r, hr, hrid, -⟩ := h
    obtain ⟨-, rfl⟩ | ⟨-, rfl⟩ := Write.saveFolder_cases hw
    · exact hx
    · have hused : s.db.folders.Used (key f) := by
        rw [key_folder, ← hrid]
        exact Table.used_of_mem hr
      exact ⟨hx.issued, hx.file, not_used_of_births hx.folder (Table.births_save hused), hx.share,
        hx.token⟩
  | deleteFolder u folderID =>
    obtain ⟨-, rfl⟩ | ⟨versions, -, hd⟩ := Write.deleteFolder_cases hw
    · exact hx
    · exact hx.shrinks (DB.shrinks_deleteFolderTree hd)
  | incrementDownloads id => exact h.elim
  | createShare fileID u passwordHash expiresAt maxDownloads =>
    obtain ⟨-, rfl⟩ | ⟨share, rfl, hu, -, -, rfl⟩ := Write.createShare_cases hw
    · exact hx
    · refine ⟨hx.issued, hx.file, hx.folder, not_used_insert hu hx.share hid, ?_⟩
      have hunused : ¬s.db.tokenUsed x.token = true := by simp [hx.token]
      rw [DB.tokenUsed_iff] at hunused
      rw [← Bool.not_eq_true, DB.tokenUsed_iff]
      rintro (⟨sh, hsh, he⟩ | hrevoked)
      · rcases (Table.mem_insert hu).1 hsh with rfl | hsh
        · exact htoken he
        · exact hunused (Or.inl ⟨sh, hsh, he⟩)
      · exact hunused (Or.inr hrevoked)
  | deleteShare id u =>
    obtain ⟨-, rfl⟩ | ⟨-, rfl⟩ := Write.deleteShare_cases hw
    · exact hx
    · exact hx.shrinks (DB.shrinks_deleteShares _ _)

theorem CallOwn.new {e : Stmt α} {a : α} (h : CallOwn files paths userID e s)
    (hx : exec o e s = some (a, s')) (hnew : x.New s) (hid : o.uuid ≠ x.uuid)
    (htoken : o.token ≠ x.token) : x.New s' := by
  cases e with
  | write w =>
    obtain ⟨db', hw, rfl⟩ := exec_write hx
    exact WriteOwn.new h hw hnew hid htoken
  | newUUID =>
    simp only [exec] at hx
    split at hx
    · cases hx
    · obtain ⟨-, rfl⟩ := Prod.mk.inj (Option.some.inj hx)
      refine ⟨fun hmem => ?_, hnew.file, hnew.folder, hnew.share, hnew.token⟩
      rcases List.mem_cons.1 hmem with he | hmem
      · exact hid he.symm
      · exact hnew.issued hmem
  | _ =>
    obtain ⟨-, rfl⟩ := Prod.mk.inj (Option.some.inj hx)
    exact ⟨hnew.issued, hnew.file, hnew.folder, hnew.share, hnew.token⟩

/-- Draws that are left are fresh after a user's call. -/
theorem CallOwn.fresh {e : Stmt α} {a : α} {os : List Oracle} (h : CallOwn files paths userID e s)
    (hx : exec o e s = some (a, s')) (hfresh : Fresh (o :: os) s) : Fresh os s' := by
  obtain ⟨hnew, hpair⟩ := hfresh
  obtain ⟨hne, hpair⟩ := List.pairwise_cons.1 hpair
  exact ⟨fun x hxmem => h.new hx (hnew x (List.mem_cons_of_mem _ hxmem)) (hne x hxmem).1 (hne x hxmem).2,
    hpair⟩

end Draws

/-! ## Two stores -/

namespace Bucket

/-- What a listing of the prefix shows. -/
def list (b : Bucket) (keyPrefix : GoString) : List GoString :=
  (b.objects.map Prod.fst).filter keyPrefix.isPrefixOf

variable {b b' : Bucket} {key : GoString} {body : Bytes} {keyPrefix : GoString}

theorem list_put : (b.put key body).list keyPrefix =
    if keyPrefix.isPrefixOf key then key :: (b.list keyPrefix).filter (· ≠ key)
    else (b.list keyPrefix).filter (· ≠ key) := by
  have hmap : (b.objects.filter fun x => x.1 ≠ key).map Prod.fst =
      (b.objects.map Prod.fst).filter (· ≠ key) := by
    rw [List.filter_map]
    rfl
  have hcomm : ((b.objects.map Prod.fst).filter (· ≠ key)).filter keyPrefix.isPrefixOf =
      (b.list keyPrefix).filter (· ≠ key) := by
    rw [list, List.filter_filter, List.filter_filter]
    exact List.filter_congr fun _ _ => Bool.and_comm _ _
  rw [list, put, List.map_cons, hmap]
  split
  · next h => rw [List.filter_cons_of_pos h, hcomm]
  · next h => rw [List.filter_cons_of_neg h, hcomm]

theorem list_remove : (b.remove key).list keyPrefix = (b.list keyPrefix).filter (· ≠ key) := by
  have hmap : (b.objects.filter fun x => x.1 ≠ key).map Prod.fst =
      (b.objects.map Prod.fst).filter (· ≠ key) := by
    rw [List.filter_map]
    rfl
  rw [list, remove, hmap, list, List.filter_filter, List.filter_filter]
  exact List.filter_congr fun _ _ => Bool.and_comm _ _

theorem object?_put_congr {k : GoString} (h : b.object? k = b'.object? k) :
    (b.put key body).object? k = (b'.put key body).object? k := by
  by_cases hk : k = key
  · rw [hk, object?_put, object?_put]
  · rw [object?_put_ne hk, object?_put_ne hk, h]

theorem object?_remove_congr {k : GoString} (h : b.object? k = b'.object? k) :
    (b.remove key).object? k = (b'.remove key).object? k := by
  by_cases hk : k = key
  · rw [hk, object?_remove, object?_remove]
  · rw [object?_remove_ne hk, object?_remove_ne hk, h]

end Bucket

/-- The user's rows are the same, and so are the objects of `files` and what is staged under `paths`. -/
structure Alike (files : List File) (paths : List GoString) (userID : UUID) (s t : Store) : Prop where
  now : s.now = t.now
  db : s.db.Alike userID t.db
  object : ∀ f ∈ files, ∀ key, f.HasKey key → s.bucket.object? key = t.bucket.object? key
  listing : ∀ f ∈ files, s.bucket.list (hlsPrefix f.id) = t.bucket.list (hlsPrefix f.id)
  staged : ∀ path ∈ paths, s.staging.files.lookup path = t.staging.files.lookup path

section Alike

variable {s t : Store} {userID : UUID} {α : Type} {o : Oracle} {files : List File}
  {paths : List GoString}

theorem DB.Alike.insertFile_ok {db : DB} {f : File} (hu : ¬db.files.Used (key f)) :
    db.insertFile f = .ok { db with files := db.files.insert f hu } := dif_neg hu

/-- A user's write is answered alike. -/
theorem WriteOwn.run_alike {w : Write α} (hs : WriteOwn s userID w) (ht : WriteOwn t userID w)
    (h : s.db.Alike userID t.db) (hns : o.New s) (hnt : o.New t) :
    Option.Rel (fun x y => x.1 = y.1 ∧ DB.Alike userID x.2 y.2) (w.run o s.issued s.db)
      (w.run o t.issued t.db) := by
  unfold Write.run
  split
  · exact .some ⟨rfl, h⟩
  have hdraw : ∀ {u : Store}, o.New u → ¬(o.uuid ∈ u.issued ∨ u.db.files.Used o.uuid) :=
    fun hu => not_or.2 ⟨hu.issued, hu.file⟩
  cases w with
  | createFile mk =>
    have hused : ∀ {u : Store}, WriteOwn u userID (.createFile mk) → o.New u →
        ¬u.db.files.Used (key (mk o.uuid).columnDefaults) := by
      intro u hu hnew
      obtain hid | ⟨-, hid⟩ := (hu o.uuid).2
      · rw [key_file, File.id_columnDefaults, hid]
        exact hnew.file
      · exact hid
    simp only [Write.commit, if_neg (hdraw hns), if_neg (hdraw hnt),
      DB.Alike.insertFile_ok (hused hs hns), DB.Alike.insertFile_ok (hused ht hnt)]
    exact .some ⟨rfl, h.insertFile _ _ (hs o.uuid).1⟩
  | presignVersion u root mk =>
    obtain ⟨rfl, hmk⟩ := hs
    have hused : ∀ {x : Store}, o.New x →
        ¬(x.db.supersede u root).files.Used (key (mk o.uuid).columnDefaults) := by
      intro x hnew
      rw [key_file, File.id_columnDefaults, (hmk o.uuid).2]
      exact hnew.file
    simp only [Write.commit, if_neg (hdraw hns), if_neg (hdraw hnt),
      DB.Alike.insertFile_ok (hused hns), DB.Alike.insertFile_ok (hused hnt)]
    exact .some ⟨rfl, (h.supersede root).insertFile _ _ (hmk o.uuid).1⟩
  | saveFile f =>
    obtain ⟨hf, r, hr, hid, huser⟩ := hs
    obtain ⟨-, r', hr', hid', huser'⟩ := ht
    exact .some ⟨rfl, h.saveFile hf hr hid huser hr' hid' huser'⟩
  | restoreVersion u root targetID =>
    obtain ⟨rfl, hid⟩ := hs
    exact .some ⟨rfl, (h.supersede root).setCurrent hid.supersede ht.2.supersede⟩
  | deleteFile u root =>
    obtain rfl : u = userID := hs
    simp only [Write.commit, h.lineageFiles]
    exact .some ⟨rfl, h.deleteFiles _ _⟩
  | updateFile id u => exact hs.elim
  | createFolder name u parentID =>
    simp only [Write.commit, key_folder, dif_neg hns.folder, dif_neg hnt.folder]
    exact .some ⟨rfl, h.insertFolder _ _ hs⟩
  | saveFolder f =>
    obtain ⟨hf, r, hr, hid, huser⟩ := hs
    obtain ⟨-, r', hr', hid', huser'⟩ := ht
    exact .some ⟨rfl, h.saveFolder hf hr hid huser hr' hid' huser'⟩
  | deleteFolder u folderID =>
    obtain rfl : u = userID := hs
    refine OptionRel.map (h.deleteFolderTree o.fuel folderID) fun x y hxy => ?_
    exact ⟨congrArg Except.ok hxy.1, hxy.2⟩
  | incrementDownloads id => exact hs.elim
  | createShare fileID u passwordHash expiresAt maxDownloads =>
    simp only [Write.commit, key_share, dif_neg hns.share, dif_neg hnt.share, hns.token, hnt.token,
      Bool.false_eq_true, if_false]
    exact .some ⟨rfl, h.insertShare _ _ hs⟩
  | deleteShare id u =>
    obtain rfl : u = userID := hs
    have hcount : ∀ db : DB, db.shares.rows.countP (DB.ownedShare id u) =
        ((db.shares.part (ofUser Share.userID u)).filter (DB.ownedShare id u)).length := by
      intro db
      rw [List.countP_eq_length_filter, Table.filter_part fun sh _ hsh => ?_]
      exact ofUser_iff.2 (of_decide_eq_true (Bool.and_eq_true_iff.1 hsh).2)
    simp only [Write.commit, hcount, h.shares]
    exact .some ⟨rfl, h.deleteShares _⟩

/-- So is a call to the bucket. -/
theorem BucketOwn.run_alike {b : BucketStmt α} (hb : BucketOwn files s userID b)
    (h : Alike files paths userID s t) :
    (b.run o s.now s.bucket).1 = (b.run o t.now t.bucket).1 ∧
      Alike files paths userID { s with bucket := (b.run o s.now s.bucket).2 }
        { t with bucket := (b.run o t.now t.bucket).2 } := by
  cases b with
  | presignedPutURL key expiry =>
    simp only [BucketStmt.run]
    split
    · exact ⟨rfl, h.now, h.db, h.object, h.listing, h.staged⟩
    · exact ⟨by rw [h.now], h.now, h.db, h.object, h.listing, h.staged⟩
  | presignedGetURL key expiry =>
    simp only [BucketStmt.run]
    exact ⟨by rw [h.now], h.now, h.db, h.object, h.listing, h.staged⟩
  | statObject key =>
    obtain ⟨f, hf, hkey⟩ := hb
    simp only [BucketStmt.run]
    exact ⟨by rw [h.object f hf key hkey], h.now, h.db, h.object, h.listing, h.staged⟩
  | getObject key =>
    simp only [BucketStmt.run]
    exact ⟨trivial, h.now, h.db, h.object, h.listing, h.staged⟩
  | readObject key =>
    obtain ⟨f, hf, hkey⟩ := hb
    simp only [BucketStmt.run]
    exact ⟨by rw [h.object f hf key hkey], h.now, h.db, h.object, h.listing, h.staged⟩
  | putObject key body size contentType =>
    simp only [BucketStmt.run]
    split
    · exact ⟨rfl, h.now, h.db, h.object, h.listing, h.staged⟩
    · refine ⟨rfl, h.now, h.db, fun f hf k hk => Bucket.object?_put_congr (h.object f hf k hk),
        fun f hf => ?_, h.staged⟩
      rw [Bucket.list_put, Bucket.list_put, h.listing f hf]
  | removeObject key =>
    simp only [BucketStmt.run]
    split
    · exact ⟨rfl, h.now, h.db, h.object, h.listing, h.staged⟩
    · refine ⟨rfl, h.now, h.db, fun f hf k hk => Bucket.object?_remove_congr (h.object f hf k hk),
        fun f hf => ?_, h.staged⟩
      rw [Bucket.list_remove, Bucket.list_remove, h.listing f hf]
  | listObjects keyPrefix =>
    obtain ⟨f, hf, rfl⟩ := hb
    have hlist := h.listing f hf
    simp only [Bucket.list] at hlist
    simp only [BucketStmt.run, hlist]
    exact ⟨trivial, h.now, h.db, h.object, h.listing, h.staged⟩

/-- What is staged under a path, after a file has been removed. -/
theorem lookup_removed_congr {l l' : List (GoString × Bytes)} {path removed : GoString}
    (h : l.lookup path = l'.lookup path) :
    (l.filter fun f => f.1 ≠ removed).lookup path = (l'.filter fun f => f.1 ≠ removed).lookup path := by
  by_cases hp : path = removed
  · rw [hp, Assoc.lookup_filter_self, Assoc.lookup_filter_self]
  · rw [Assoc.lookup_filter_ne hp, Assoc.lookup_filter_ne hp, h]

theorem staging_run_alike {st : StagingStmt α} (hst : CallOwn files paths userID (.staging st) s)
    (h : Alike files paths userID s t) :
    (st.run o s.staging).1 = (st.run o t.staging).1 ∧
      Alike files paths userID { s with staging := (st.run o s.staging).2 }
        { t with staging := (st.run o t.staging).2 } := by
  cases st with
  | create upload =>
    refine ⟨rfl, h.now, h.db, h.object, h.listing, fun path hpath => ?_⟩
    simp only [StagingStmt.run, List.lookup_cons]
    rw [h.staged path hpath]
  | openFile path =>
    simp only [StagingStmt.run]
    exact ⟨by rw [h.staged path hst], h.now, h.db, h.object, h.listing, h.staged⟩
  | removeFile path =>
    simp only [StagingStmt.run]
    split
    · exact ⟨rfl, h.now, h.db, h.object, h.listing, h.staged⟩
    · exact ⟨rfl, h.now, h.db, h.object, h.listing, fun p hp => lookup_removed_congr (h.staged p hp)⟩

/-- **A user's call is answered alike in stores that agree on what is the user's.** -/
theorem CallOwn.exec_alike {e : Stmt α} {os : List Oracle} (hs : CallOwn files paths userID e s)
    (ht : CallOwn files paths userID e t) (h : Alike files paths userID s t) (hfs : Fresh (o :: os) s)
    (hft : Fresh (o :: os) t) :
    Option.Rel (fun x y => x.1 = y.1 ∧ Alike files paths userID x.2 y.2) (exec o e s) (exec o e t) := by
  have hns := hfs.1 o List.mem_cons_self
  have hnt := hft.1 o List.mem_cons_self
  cases e with
  | query q =>
    have heval : q.eval s.db = q.eval t.db := by
      cases q with
      | fileByID id => exact h.db.eval_fileByID hs ht
      | _ => exact h.db.eval hs
    refine .some ⟨?_, h⟩
    show q.run o s.db = q.run o t.db
    rw [Query.run, Query.run, heval]
  | write w =>
    refine OptionRel.map (WriteOwn.run_alike hs ht h.db hns hnt) fun x y hxy => ?_
    exact ⟨hxy.1, h.now, hxy.2, h.object, h.listing, h.staged⟩
  | bucket b => exact .some (BucketOwn.run_alike hs h)
  | broker b =>
    refine .some ⟨?_, h.now, h.db, h.object, h.listing, h.staged⟩
    cases b with
    | enqueue task =>
      simp only [BrokerStmt.run]
      split <;> rfl
    | _ => rfl
  | staging st => exact .some (staging_run_alike hs h)
  | tool e => exact .some ⟨rfl, h⟩
  | now => exact .some ⟨h.now, h⟩
  | newUUID =>
    simp only [exec, if_neg (not_or.2 ⟨hns.issued, hns.file⟩), if_neg (not_or.2 ⟨hnt.issued, hnt.file⟩)]
    exact .some ⟨rfl, h.now, h.db, h.object, h.listing, h.staged⟩

end Alike

end Optiflow
