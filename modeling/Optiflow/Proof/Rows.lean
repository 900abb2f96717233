import Optiflow.Proof.Growth

/-!
# Where a row comes from

After a call, each row of `files` is one that was there, up to its `is_current`, or one that the call
wrote (`file_cases`), and so is each birth (`birth_cases`).  A row of `folders` was there or was written
too (`folder_cases`), and a row of `shares` was there, up to its count, or was made
(`Write.share_cases`).
-/

namespace Optiflow

open Interleave

variable {α : Type} {e : Stmt α} {o : Oracle} {s s' : Store} {a : α} {f : File}

/-- The call with this answer wrote the row `f`. -/
def Wrote (s : Store) (f : File) : {α : Type} → Stmt α → α → Prop
  | _, .write (.createFile _), .ok g => f = g ∧ ¬s.db.files.Used f.id
  | _, .write (.presignVersion _ _ _), .ok g => f = g ∧ ¬s.db.files.Used f.id
  | _, .write (.saveFile g), .ok () => f = s.db.savedRow g
  | _, .write (.updateFile id u), .ok () => ∃ g ∈ s.db.files, g.id = id ∧ f = u.apply g
  | _, _, _ => False

theorem file_cases (hx : exec o e s = some (a, s')) (hf : f ∈ s'.db.files) :
    (∃ g ∈ s.db.files, ∃ b, f = g.withCurrent b) ∨ Wrote s f e a := by
  have same : f ∈ s.db.files → (∃ g ∈ s.db.files, ∃ b, f = g.withCurrent b) ∨ Wrote s f e a :=
    fun h => Or.inl ⟨f, h, f.isCurrent, rfl⟩
  cases e with
  | write w =>
    obtain ⟨db', hw, rfl⟩ := exec_write hx
    cases w with
    | createFile mk =>
      obtain ⟨-, rfl⟩ | ⟨hu, -, -, rfl, rfl⟩ := Write.createFile_cases hw
      · exact same hf
      · rcases (Table.mem_insert hu).1 hf with rfl | hf
        · exact Or.inr ⟨rfl, hu⟩
        · exact same hf
    | presignVersion userID root mk =>
      obtain ⟨-, rfl⟩ | ⟨hu, -, -, rfl, rfl⟩ := Write.presignVersion_cases hw
      · exact same hf
      · rcases (Table.mem_insert hu).1 hf with rfl | hf
        · exact Or.inr ⟨rfl, hu⟩
        · obtain ⟨g, hg, rfl⟩ := DB.mem_supersede.1 hf
          split
          · exact Or.inl ⟨g, hg, false, rfl⟩
          · exact Or.inl ⟨g, hg, g.isCurrent, rfl⟩
    | saveFile g =>
      obtain ⟨-, rfl⟩ | ⟨rfl, rfl⟩ := Write.saveFile_cases hw
      · exact same hf
      · rcases DB.mem_saveFile.1 hf with hf | ⟨hf, -⟩
        · exact Or.inr hf
        · exact same hf
    | restoreVersion userID root targetID =>
      obtain ⟨-, rfl⟩ | ⟨-, rfl⟩ := Write.restoreVersion_cases hw
      · exact same hf
      · obtain ⟨g, hg, rfl⟩ := DB.mem_setCurrent.1 hf
        obtain ⟨h, hh, hgh⟩ := DB.mem_supersede.1 hg
        have hcur : ∃ b, g = h.withCurrent b := by
          rw [hgh]
          split
          · exact ⟨false, rfl⟩
          · exact ⟨h.isCurrent, rfl⟩
        obtain ⟨b, rfl⟩ := hcur
        refine Or.inl ⟨h, hh, ?_⟩
        split
        · exact ⟨true, rfl⟩
        · exact ⟨b, rfl⟩
    | deleteFile userID root =>
      obtain ⟨-, rfl⟩ | ⟨-, rfl⟩ := Write.deleteFile_cases hw
      · exact same hf
      · exact same (DB.mem_deleteFiles.1 hf).1
    | updateFile id u =>
      obtain ⟨-, rfl⟩ | ⟨rfl, rfl⟩ := Write.updateFile_cases hw
      · exact same hf
      · obtain ⟨g, hg, rfl⟩ := DB.mem_updateFile.1 hf
        split
        · next hid => exact Or.inr ⟨g, hg, hid, rfl⟩
        · exact Or.inl ⟨g, hg, g.isCurrent, rfl⟩
    | deleteFolder userID folderID =>
      obtain ⟨-, rfl⟩ | ⟨versions, -, hd⟩ := Write.deleteFolder_cases hw
      · exact same hf
      · exact same ((DB.shrinks_deleteFolderTree hd).files f hf)
    | _ =>
      obtain ⟨folders, shares, tokens, rfl⟩ := Write.leaves_files rfl hw
      exact same hf
  | _ =>
    rw [exec_db rfl hx] at hf
    exact same hf

/-- A new birth is a row that the call wrote. -/
theorem birth_cases {b : File} (hx : exec o e s = some (a, s')) (hb : b ∈ s'.db.files.births) :
    b ∈ s.db.files.births ∨ Wrote s b e a := by
  cases e with
  | write w =>
    obtain ⟨db', hw, rfl⟩ := exec_write hx
    cases w with
    | createFile mk =>
      obtain ⟨-, rfl⟩ | ⟨hu, -, -, rfl, rfl⟩ := Write.createFile_cases hw
      · exact Or.inl hb
      · rcases List.mem_cons.1 hb with rfl | hb
        · exact Or.inr ⟨rfl, hu⟩
        · exact Or.inl hb
    | presignVersion userID root mk =>
      obtain ⟨-, rfl⟩ | ⟨hu, -, -, rfl, rfl⟩ := Write.presignVersion_cases hw
      · exact Or.inl hb
      · rcases List.mem_cons.1 hb with rfl | hb
        · exact Or.inr ⟨rfl, hu⟩
        · exact Or.inl hb
    | saveFile g =>
      obtain ⟨-, rfl⟩ | ⟨rfl, rfl⟩ := Write.saveFile_cases hw
      · exact Or.inl hb
      · by_cases hu : s.db.files.Used (key (s.db.savedRow g))
        · exact Or.inl (Table.births_save hu ▸ hb)
        · have hbirths : (s.db.saveFile g).files.births = s.db.savedRow g :: s.db.files.births :=
            if_neg hu
          rcases List.mem_cons.1 (hbirths ▸ hb) with rfl | hb
          · exact Or.inr rfl
          · exact Or.inl hb
    | restoreVersion userID root targetID =>
      obtain ⟨-, rfl⟩ | ⟨-, rfl⟩ := Write.restoreVersion_cases hw <;> exact Or.inl hb
    | deleteFile userID root =>
      obtain ⟨-, rfl⟩ | ⟨-, rfl⟩ := Write.deleteFile_cases hw <;> exact Or.inl hb
    | updateFile id u =>
      obtain ⟨-, rfl⟩ | ⟨rfl, rfl⟩ := Write.updateFile_cases hw <;> exact Or.inl hb
    | deleteFolder userID folderID =>
      obtain ⟨-, rfl⟩ | ⟨versions, -, hd⟩ := Write.deleteFolder_cases hw
      · exact Or.inl hb
      · exact Or.inl ((DB.shrinks_deleteFolderTree hd).file_births ▸ hb)
    | _ =>
      obtain ⟨folders, shares, tokens, rfl⟩ := Write.leaves_files rfl hw
      exact Or.inl hb
  | _ =>
    rw [exec_db rfl hx] at hb
    exact Or.inl hb

/-- The call with this answer wrote the folder `f`. -/
def WroteFolder (s : Store) (f : Folder) : {α : Type} → Stmt α → α → Prop
  | _, .write (.createFolder _ _ parentID), .ok _ =>
    f.parentID = parentID ∧ ¬s.db.folders.Used f.id
  | _, .write (.saveFolder g), .ok () => f = g
  | _, _, _ => False

theorem folder_cases {f : Folder} (hx : exec o e s = some (a, s')) (hf : f ∈ s'.db.folders) :
    f ∈ s.db.folders ∨ WroteFolder s f e a := by
  cases e with
  | write w =>
    obtain ⟨db', hw, rfl⟩ := exec_write hx
    cases w with
    | createFolder name userID parentID =>
      obtain ⟨-, rfl⟩ | ⟨hu, rfl, rfl⟩ := Write.createFolder_cases hw
      · exact Or.inl hf
      · rcases (Table.mem_insert hu).1 hf with rfl | hf
        · exact Or.inr ⟨rfl, hu⟩
        · exact Or.inl hf
    | saveFolder g =>
      obtain ⟨-, rfl⟩ | ⟨rfl, rfl⟩ := Write.saveFolder_cases hw
      · exact Or.inl hf
      · rcases Table.mem_save.1 hf with rfl | ⟨hf, -⟩
        · exact Or.inr rfl
        · exact Or.inl hf
    | deleteFolder userID folderID =>
      obtain ⟨-, rfl⟩ | ⟨versions, -, hd⟩ := Write.deleteFolder_cases hw
      · exact Or.inl hf
      · exact Or.inl ((DB.shrinks_deleteFolderTree hd).folders f hf)
    | _ =>
      obtain ⟨files, shares, tokens, rfl⟩ := Write.leaves_folders rfl hw
      exact Or.inl hf
  | _ =>
    rw [exec_db rfl hx] at hf
    exact Or.inl hf

/-- The write makes the share. -/
def Write.Makes (sh : Share) : {β : Type} → Write β → Prop
  | _, .createShare fileID userID _ _ _ => sh.fileID = fileID ∧ sh.userID = userID
  | _, _ => False

/-- After a write, every share is one that was there before, or was counted up, or was made and has a
new id and a new token. -/
theorem Write.share_cases {w : Write α} {issued : List UUID} {db db' : DB} {a : Except DbError α}
    (h : w.run o issued db = some (a, db')) {x : Share} (hx : x ∈ db'.shares) :
    (∃ y ∈ db.shares, x = y ∨ x = y.downloaded) ∨
      ¬db.shares.Used x.id ∧ db.tokenUsed x.token = false ∧ w.Makes x := by
  have same : x ∈ db.shares → (∃ y ∈ db.shares, x = y ∨ x = y.downloaded) ∨
      ¬db.shares.Used x.id ∧ db.tokenUsed x.token = false ∧ w.Makes x :=
    fun h => Or.inl ⟨x, h, Or.inl rfl⟩
  cases w with
  | deleteFile userID root =>
    obtain ⟨-, rfl⟩ | ⟨-, rfl⟩ := Write.deleteFile_cases h
    · exact same hx
    · exact same ((DB.shrinks_deleteFiles _ _ _).shares x hx)
  | deleteFolder userID folderID =>
    obtain ⟨-, rfl⟩ | ⟨versions, -, hd⟩ := Write.deleteFolder_cases h
    · exact same hx
    · exact same ((DB.shrinks_deleteFolderTree hd).shares x hx)
  | incrementDownloads id =>
    obtain ⟨-, rfl⟩ | ⟨-, rfl⟩ := Write.incrementDownloads_cases h
    · exact same hx
    · obtain ⟨y, hy, rfl⟩ := DB.mem_incrementDownloads.1 hx
      split
      · exact Or.inl ⟨y, hy, Or.inr rfl⟩
      · exact Or.inl ⟨y, hy, Or.inl rfl⟩
  | createShare fileID userID passwordHash expiresAt maxDownloads =>
    obtain ⟨-, rfl⟩ | ⟨share, rfl, hu, htoken, -, rfl⟩ := Write.createShare_cases h
    · exact same hx
    · rcases (Table.mem_insert hu).1 hx with rfl | hx
      · exact Or.inr ⟨hu, htoken, rfl, rfl⟩
      · exact same hx
  | deleteShare id userID =>
    obtain ⟨-, rfl⟩ | ⟨-, rfl⟩ := Write.deleteShare_cases h
    · exact same hx
    · exact same (DB.mem_deleteShares.1 hx).1
  | _ =>
    obtain ⟨files, folders, rfl⟩ := Write.leaves_shares rfl h
    exact same hx

end Optiflow
