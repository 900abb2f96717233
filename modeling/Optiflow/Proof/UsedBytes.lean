import Optiflow.Lib.MachineInt
import Optiflow.Proof.Sizes

/-!
# The bytes of a user

What a user's rows declare, as an exact sum.  A row that is made adds to it, deletes take away from it,
and all other writes leave it alone: when a row that is made fits the quota, the sum stays within
(`usedBytes_write_le`).
-/

namespace Optiflow

open Interleave

/-- The size fits the quota, next to the rows of the user. -/
def DB.fits (db : DB) (u : User) (n : Int64) : Bool :=
  db.usedBytes u.id + n.toInt ≤ u.storageQuotaBytes.toInt

/-- A row of the user that a write makes fits the quota.  A save makes a row if there is none. -/
def Write.Fits {α : Type} (u : User) (db : DB) : Write α → Prop
  | .createFile mk => ∀ id, (mk id).userID = u.id → db.fits u (mk id).sizeBytes = true
  | .presignVersion _ _ mk => ∀ id, (mk id).userID = u.id → db.fits u (mk id).sizeBytes = true
  | .saveFile f => f.userID = u.id →
      (∃ r ∈ db.files, r.id = f.id) ∨ db.fits u f.sizeBytes = true
  | _ => True

/-! ## The sum of a user's rows -/

section Sum

variable {db : DB} {userID : UUID}

/-- The bytes that a row counts for. -/
def File.bytesOf (userID : UUID) (f : File) : ℤ := if f.userID = userID then f.sizeBytes.toInt else 0

theorem DB.usedBytes_eq : db.usedBytes userID = db.files.sumOf (File.bytesOf userID) := rfl

theorem Query.eval_storageQuota {u : User} (hu : u ∈ db.users) :
    (Query.storageQuota u.id).eval db = .ok u.storageQuotaBytes := by
  have hfirst : firstOrNotFound db.users (fun v => v.id = u.id) = .ok u :=
    firstOrNotFound_of_key hu (by simp) fun v hv => by simpa using hv
  rw [Query.eval, hfirst]
  rfl

/-- A sum that was scanned is exact. -/
theorem Query.toInt_of_sumSizes {used : Int64} (h : (Query.sumSizes userID).eval db = .ok used) :
    used.toInt = db.usedBytes userID := by
  simp only [Query.eval] at h
  split at h
  · next hrange => rw [← Except.ok.inj h, Int64.toInt_ofInt_of_le hrange.1 hrange.2]
  · cases h

/-- What the test of `checkQuota` says, in exact numbers. -/
theorem DB.fits_of_test {u : User} {n used : Int64} (hused : used.toInt = db.usedBytes u.id)
    (hge : -2 ^ 63 ≤ db.usedBytes u.id + n.toInt) (hlt : db.usedBytes u.id + n.toInt < 2 ^ 63)
    (h : ¬used + n > u.storageQuotaBytes) : db.fits u n = true := by
  rw [← hused] at hge hlt
  rw [gt_iff_lt, Int64.lt_iff_toInt_lt, not_lt, Int64.toInt_add_eq_iff.2 ⟨hge, hlt⟩, hused] at h
  exact decide_eq_true h

theorem DB.usedBytes_nonneg (h : ∀ f ∈ db.files, 0 ≤ f.sizeBytes.toInt) (userID : UUID) :
    0 ≤ db.usedBytes userID := by
  refine List.sum_nonneg fun x hx => ?_
  obtain ⟨f, hf, rfl⟩ := List.mem_map.1 hx
  split
  · exact h f hf
  · exact le_refl 0

/-- Rows whose owner and size stay. -/
theorem usedBytes_modify {p : File → Bool} {g : File → File} (hg : ∀ r, key (g r) = key r)
    (huser : ∀ f, (g f).userID = f.userID) (hsize : ∀ f, (g f).sizeBytes = f.sizeBytes) :
    (db.files.modify p g hg).sumOf (File.bytesOf userID) = db.usedBytes userID :=
  Table.sumOf_modify fun f => by simp only [File.bytesOf, huser, hsize]

theorem usedBytes_supersede (owner root : UUID) :
    (db.supersede owner root).usedBytes userID = db.usedBytes userID :=
  usedBytes_modify (File.key_withCurrent false) (fun _ => rfl) fun _ => rfl

theorem usedBytes_setCurrent (id : UUID) : (db.setCurrent id).usedBytes userID = db.usedBytes userID :=
  usedBytes_modify (File.key_withCurrent true) (fun _ => rfl) fun _ => rfl

theorem usedBytes_updateFile (id : UUID) (u : FileUpdates) :
    (db.updateFile id u).usedBytes userID = db.usedBytes userID :=
  usedBytes_modify u.key_apply (fun _ => rfl) fun _ => rfl

/-- Deleting rows does not add bytes. -/
theorem usedBytes_delete_le {p : File → Bool} (h : ∀ f ∈ db.files, 0 ≤ f.sizeBytes.toInt) :
    (db.files.delete p).sumOf (File.bytesOf userID) ≤ db.usedBytes userID := by
  refine Table.sumOf_delete_le fun f hf => ?_
  unfold File.bytesOf
  split
  · exact h f hf
  · exact le_refl 0

theorem usedBytes_deleteLevel_le {owner folderID : UUID} (h : ∀ f ∈ db.files, 0 ≤ f.sizeBytes.toInt) :
    (db.deleteLevel owner folderID).usedBytes userID ≤ db.usedBytes userID :=
  usedBytes_delete_le h

theorem usedBytes_deleteFolderTree_le {fuel : ℕ} {db' : DB} {owner folderID : UUID}
    {versions : List File} (h : ∀ f ∈ db.files, 0 ≤ f.sizeBytes.toInt)
    (hd : db.deleteFolderTree fuel owner folderID = some (versions, db')) :
    db'.usedBytes userID ≤ db.usedBytes userID := by
  -- The bytes only go down; sizes stay what they are.
  refine (DB.deleteFolderTree_rule (R := fun a _ b => (∀ f ∈ a.files, 0 ≤ f.sizeBytes.toInt) →
    b.usedBytes userID ≤ a.usedBytes userID ∧ ∀ f ∈ b.files, 0 ≤ f.sizeBytes.toInt)
    (fun a ha => ⟨le_refl _, ha⟩) (fun hab hbc ha => ?_) (fun a folderID ha => ?_) hd h).1
  · exact ⟨((hbc (hab ha).2).1).trans (hab ha).1, (hbc (hab ha).2).2⟩
  · exact ⟨usedBytes_deleteLevel_le ha,
      fun f hf => ha f ((DB.shrinks_deleteLevel a owner folderID).files f hf)⟩

end Sum

/-! ## The writes -/

section Writes

variable {s : Store} {q : Request} {α : Type} {o : Oracle} {db' : DB}

/-- No write touches the accounts. -/
theorem Write.run_users {w : Write α} {a : Except DbError α}
    (hrun : w.run o s.issued s.db = some (a, db')) : db'.users = s.db.users := by
  cases w with
  | createFile mk =>
    obtain ⟨-, rfl⟩ | ⟨hu, -, -, -, rfl⟩ := Write.createFile_cases hrun <;> rfl
  | presignVersion userID root mk =>
    obtain ⟨-, rfl⟩ | ⟨hu, -, -, -, rfl⟩ := Write.presignVersion_cases hrun <;> rfl
  | saveFile f => obtain ⟨-, rfl⟩ | ⟨-, rfl⟩ := Write.saveFile_cases hrun <;> rfl
  | restoreVersion userID root targetID =>
    obtain ⟨-, rfl⟩ | ⟨-, rfl⟩ := Write.restoreVersion_cases hrun <;> rfl
  | deleteFile userID root => obtain ⟨-, rfl⟩ | ⟨-, rfl⟩ := Write.deleteFile_cases hrun <;> rfl
  | updateFile id u => obtain ⟨-, rfl⟩ | ⟨-, rfl⟩ := Write.updateFile_cases hrun <;> rfl
  | createFolder name userID parentID =>
    obtain ⟨-, rfl⟩ | ⟨hu, -, rfl⟩ := Write.createFolder_cases hrun <;> rfl
  | saveFolder f => obtain ⟨-, rfl⟩ | ⟨-, rfl⟩ := Write.saveFolder_cases hrun <;> rfl
  | deleteFolder userID folderID =>
    obtain ⟨-, rfl⟩ | ⟨versions, -, hd⟩ := Write.deleteFolder_cases hrun
    · rfl
    · exact (DB.shrinks_deleteFolderTree hd).users
  | incrementDownloads id =>
    obtain ⟨-, rfl⟩ | ⟨-, rfl⟩ := Write.incrementDownloads_cases hrun <;> rfl
  | createShare fileID userID passwordHash expiresAt maxDownloads =>
    obtain ⟨-, rfl⟩ | ⟨share, -, hu, -, -, rfl⟩ := Write.createShare_cases hrun <;> rfl
  | deleteShare id userID =>
    obtain ⟨-, rfl⟩ | ⟨-, rfl⟩ := Write.deleteShare_cases hrun <;> rfl

theorem Sized.row_nonneg (h : Sized s) {f : File} (hf : f ∈ s.db.files) : 0 ≤ f.sizeBytes.toInt := by
  obtain ⟨b, hb, -, hsize, -⟩ := h.row f hf
  exact hsize ▸ h.nonneg b hb

/-- A row that fits. -/
theorem DB.usedBytes_add_bytesOf_le {u : User} {f : File}
    (hle : s.db.usedBytes u.id ≤ u.storageQuotaBytes.toInt)
    (hfits : f.userID = u.id → s.db.fits u f.sizeBytes = true) :
    s.db.usedBytes u.id + f.bytesOf u.id ≤ u.storageQuotaBytes.toInt := by
  unfold File.bytesOf
  split
  · next huser => exact of_decide_eq_true (hfits huser)
  · omega

/-- What is saved has the size that its file was born with. -/
theorem sizeKnown_of_save {f : File} (hw : WriteKnown s q (.saveFile f))
    (hcall : CallSized s q (.write (.saveFile f))) : SizeKnown s f := by
  obtain ⟨⟨userID, id, rfl⟩ | ⟨userID, id, body, rfl⟩, -⟩ := hw <;> exact hcall

/-- **One write** keeps a user's rows within the quota. -/
theorem usedBytes_write_le {u : User} (hs : WellFormed s) (hz : Sized s) {w : Write α}
    {a : Except DbError α} (hw : WriteKnown s q w) (hcall : CallSized s q (.write w))
    (hle : s.db.usedBytes u.id ≤ u.storageQuotaBytes.toInt) (hfits : w.Fits u s.db)
    (hrun : w.run o s.issued s.db = some (a, db')) :
    db'.usedBytes u.id ≤ u.storageQuotaBytes.toInt := by
  cases w with
  | createFile mk =>
    obtain ⟨-, rfl⟩ | ⟨-, -, -, rfl, rfl⟩ := Write.createFile_cases hrun
    · exact hle
    · rw [DB.usedBytes_eq, Table.sumOf_insert]
      exact DB.usedBytes_add_bytesOf_le hle (hfits o.uuid)
  | presignVersion userID root mk =>
    obtain ⟨-, rfl⟩ | ⟨-, -, -, rfl, rfl⟩ := Write.presignVersion_cases hrun
    · exact hle
    · rw [DB.usedBytes_eq, Table.sumOf_insert]
      rw [← DB.usedBytes_eq, usedBytes_supersede]
      exact DB.usedBytes_add_bytesOf_le hle (hfits o.uuid)
  | saveFile f =>
    obtain ⟨-, rfl⟩ | ⟨rfl, rfl⟩ := Write.saveFile_cases hrun
    · exact hle
    · by_cases hrow : ∃ r ∈ s.db.files, r.id = f.id
      · -- The row that is there has the same owner and size.
        obtain ⟨r, hr, hid⟩ := hrow
        have hident := (hs.file r hr).identity_eq hw.2 hid
        obtain ⟨b, hb, hbid, hbsize, -⟩ := hz.row r hr
        obtain ⟨b', hb', hbid', hbsize', -⟩ := sizeKnown_of_save hw hcall
        obtain rfl : b = b' := Table.eq_of_birth hb hb' (hbid.trans (hid.trans hbid'.symm))
        have hbytes : r.bytesOf u.id = f.bytesOf u.id := by
          have huser : r.userID = f.userID := congrArg File.Identity.userID hident
          simp only [File.bytesOf, huser, ← hbsize, hbsize']
        rw [DB.usedBytes_eq, DB.saveFile, DB.savedRow_of_mem hr hid]
        rw [Table.sumOf_save hr hid hbytes]
        exact hle
      · have hnew : ∀ g ∈ s.db.files, g.id ≠ f.id := fun g hg he => hrow ⟨g, hg, he⟩
        have hbytes : (s.db.savedRow f).bytesOf u.id = f.bytesOf u.id := by
          obtain he | he := s.db.savedRow_eq f
          · rw [he]
          · rw [he]
            rfl
        rw [DB.usedBytes_eq, DB.saveFile, Table.sumOf_save_new (by simpa using hnew), hbytes]
        exact DB.usedBytes_add_bytesOf_le hle fun huser => (hfits huser).resolve_left hrow
  | restoreVersion userID root targetID =>
    obtain ⟨-, rfl⟩ | ⟨-, rfl⟩ := Write.restoreVersion_cases hrun
    · exact hle
    · rw [usedBytes_setCurrent, usedBytes_supersede]
      exact hle
  | deleteFile userID root =>
    obtain ⟨-, rfl⟩ | ⟨-, rfl⟩ := Write.deleteFile_cases hrun
    · exact hle
    · exact le_trans (usedBytes_delete_le fun f hf => hz.row_nonneg hf) hle
  | updateFile id v =>
    obtain ⟨-, rfl⟩ | ⟨-, rfl⟩ := Write.updateFile_cases hrun
    · exact hle
    · rw [usedBytes_updateFile]
      exact hle
  | deleteFolder userID folderID =>
    obtain ⟨-, rfl⟩ | ⟨versions, -, hd⟩ := Write.deleteFolder_cases hrun
    · exact hle
    · exact le_trans (usedBytes_deleteFolderTree_le (fun f hf => hz.row_nonneg hf) hd) hle
  | _ =>
    obtain ⟨folders, shares, tokens, rfl⟩ := Write.leaves_files rfl hrun
    exact hle

end Writes

end Optiflow
