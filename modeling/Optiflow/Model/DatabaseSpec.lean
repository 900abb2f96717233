import Optiflow.Model.Statement

/-!
# What queries and writes do

One lemma for each statement that the proofs reason about: what a row that a query found is, and what
the tables are after a write.  A write that answers with an error has changed nothing.
-/

namespace Optiflow

/-! ## Queries -/

namespace Query

variable {o : Oracle} {db : DB}

theorem run_cases {α : Type} {q : Query α} {a : Except DbError α} (h : q.run o db = a) :
    a = .error .other ∨ a = q.eval db := by
  unfold run at h
  split at h
  · exact Or.inl h.symm
  · exact Or.inr h.symm

theorem eval_of_ok {α : Type} {q : Query α} {a : α} (h : q.run o db = .ok a) : q.eval db = .ok a := by
  rcases run_cases h with h | h
  · cases h
  · exact h.symm

theorem file_ok {id userID : UUID} {f : File} (h : (Query.file id userID).run o db = .ok f) :
    f ∈ db.files ∧ f.id = id ∧ f.userID = userID := by
  obtain ⟨hf, hp⟩ := mem_of_firstOrNotFound (eval_of_ok h)
  simp only [Bool.and_eq_true, decide_eq_true_eq] at hp
  exact ⟨hf, hp⟩

theorem eval_file_of_mem {f : File} (hf : f ∈ db.files) :
    (Query.file f.id f.userID).eval db = .ok f :=
  firstOrNotFound_of_key hf (by simp) fun g hg => by simpa using (Bool.and_eq_true_iff.1 hg).1

theorem eval_folder_of_mem {f : Folder} (hf : f ∈ db.folders) :
    (Query.folder f.id f.userID).eval db = .ok f :=
  firstOrNotFound_of_key hf (by simp) fun g hg => by simpa using (Bool.and_eq_true_iff.1 hg).1

theorem folder_ok {id userID : UUID} {f : Folder} (h : (Query.folder id userID).run o db = .ok f) :
    f ∈ db.folders ∧ f.id = id ∧ f.userID = userID := by
  obtain ⟨hf, hp⟩ := mem_of_firstOrNotFound (eval_of_ok h)
  simp only [Bool.and_eq_true, decide_eq_true_eq] at hp
  exact ⟨hf, hp⟩

theorem folderParent_ok {id userID : UUID} {p : Option UUID}
    (h : (Query.folderParent id userID).run o db = .ok p) :
    ∃ f ∈ db.folders, f.id = id ∧ f.userID = userID ∧ f.parentID = p := by
  have h := eval_of_ok h
  simp only [eval] at h
  cases hf : firstOrNotFound db.folders fun f => f.id = id && f.userID = userID with
  | error e =>
    rw [hf] at h
    cases h
  | ok f =>
    rw [hf] at h
    obtain ⟨hmem, hp⟩ := mem_of_firstOrNotFound hf
    simp only [Bool.and_eq_true, decide_eq_true_eq] at hp
    exact ⟨f, hmem, hp.1, hp.2, Except.ok.inj h⟩

/-- A folder that is not found is not there. -/
theorem folderParent_notFound {id userID : UUID}
    (h : (Query.folderParent id userID).run o db = .error .recordNotFound) {f : Folder}
    (hf : f ∈ db.folders) (hid : f.id = id) : f.userID ≠ userID := by
  intro huser
  obtain ⟨r, hr⟩ := firstOrNotFound_of_mem (p := fun f => f.id = id && f.userID = userID) hf
    (by simp [hid, huser])
  rcases run_cases h with h | h
  · cases h
  · rw [eval, hr] at h
    cases h

theorem currentVersion_ok {userID root : UUID} {f : File}
    (h : (Query.currentVersion userID root).run o db = .ok f) :
    f ∈ db.files ∧ DB.inLineage userID root f = true ∧ f.isCurrent = true := by
  obtain ⟨hf, hp⟩ := mem_of_firstOrNotFound (eval_of_ok h)
  simp only [Bool.and_eq_true] at hp
  exact ⟨hf, hp⟩

/-- The highest version bounds every version. -/
theorem maxVersion_ok {userID root : UUID} {n : ℕ}
    (h : (Query.maxVersion userID root).run o db = .ok n) {f : File} (hf : f ∈ db.files)
    (hin : DB.inLineage userID root f = true) : f.version ≤ n := by
  obtain rfl : (((db.files.rows.filter (DB.inLineage userID root)).map File.version).foldr max 0) = n :=
    Except.ok.inj (eval_of_ok h)
  have hmem : f.version ∈ (db.files.rows.filter (DB.inLineage userID root)).map File.version :=
    List.mem_map_of_mem (List.mem_filter.2 ⟨hf, hin⟩)
  generalize (db.files.rows.filter (DB.inLineage userID root)).map File.version = l at hmem
  induction l with
  | nil => cases hmem
  | cons v l ih =>
    rw [List.foldr_cons]
    rcases List.mem_cons.1 hmem with rfl | hmem
    · exact le_max_left _ _
    · exact le_trans (ih hmem) (le_max_right _ _)

theorem share_ok {token : GoString} {sh : Share} (h : (Query.share token).run o db = .ok sh) :
    sh ∈ db.shares ∧ sh.token = token := by
  obtain ⟨hs, hp⟩ := mem_of_firstOrNotFound (eval_of_ok h)
  exact ⟨hs, by simpa using hp⟩

theorem fileByID_ok {id : UUID} {f : File} (h : (Query.fileByID id).run o db = .ok f) :
    f ∈ db.files ∧ f.id = id := by
  obtain ⟨hf, hp⟩ := mem_of_firstOrNotFound (eval_of_ok h)
  exact ⟨hf, by simpa using hp⟩

end Query

/-! ## Writes -/

/-- `user_id = ? AND (id = ? OR parent_id = ?)`, as a proposition. -/
theorem DB.inLineage_iff {userID root : UUID} {f : File} :
    DB.inLineage userID root f = true ↔ f.userID = userID ∧ (f.id = root ∨ f.parentID = some root) := by
  simp [DB.inLineage]

namespace Write

variable {o : Oracle} {issued : List UUID} {db db' : DB}

/-- The outcomes of a write that cannot go wrong by itself. -/
theorem run_total {α : Type} {w : Write α} {a : Except DbError α} {r : α} {d : DB}
    (hw : w.commit o issued db = some (.ok r, d)) (h : w.run o issued db = some (a, db')) :
    (a = .error .other ∧ db' = db) ∨ (a = .ok r ∧ db' = d) := by
  unfold run at h
  split at h
  · simp only [Option.some.injEq, Prod.mk.injEq] at h
    exact Or.inl ⟨h.1.symm, h.2.symm⟩
  · rw [hw] at h
    simp only [Option.some.injEq, Prod.mk.injEq] at h
    exact Or.inr ⟨h.1.symm, h.2.symm⟩

theorem saveFile_cases {f : File} {a : Except DbError Unit}
    (h : (Write.saveFile f).run o issued db = some (a, db')) :
    (a = .error .other ∧ db' = db) ∨ (a = .ok () ∧ db' = db.saveFile f) :=
  run_total rfl h

theorem restoreVersion_cases {userID root targetID : UUID} {a : Except DbError Unit}
    (h : (Write.restoreVersion userID root targetID).run o issued db = some (a, db')) :
    (a = .error .other ∧ db' = db) ∨
      (a = .ok () ∧ db' = (db.supersede userID root).setCurrent targetID) :=
  run_total rfl h

theorem deleteFile_cases {userID root : UUID} {a : Except DbError (List File)}
    (h : (Write.deleteFile userID root).run o issued db = some (a, db')) :
    (a = .error .other ∧ db' = db) ∨ (a = .ok (db.lineageFiles userID root) ∧
      db' = db.deleteFiles userID ((db.lineageFiles userID root).map File.id)) :=
  run_total rfl h

theorem updateFile_cases {id : UUID} {u : FileUpdates} {a : Except DbError Unit}
    (h : (Write.updateFile id u).run o issued db = some (a, db')) :
    (a = .error .other ∧ db' = db) ∨ (a = .ok () ∧ db' = db.updateFile id u) :=
  run_total rfl h

theorem saveFolder_cases {f : Folder} {a : Except DbError Unit}
    (h : (Write.saveFolder f).run o issued db = some (a, db')) :
    (a = .error .other ∧ db' = db) ∨
      (a = .ok () ∧ db' = { db with folders := db.folders.save f }) :=
  run_total rfl h

theorem incrementDownloads_cases {id : UUID} {a : Except DbError Unit}
    (h : (Write.incrementDownloads id).run o issued db = some (a, db')) :
    (a = .error .other ∧ db' = db) ∨ (a = .ok () ∧ db' = db.incrementDownloads id) :=
  run_total rfl h

theorem deleteShare_cases {id userID : UUID} {a : Except DbError ℕ}
    (h : (Write.deleteShare id userID).run o issued db = some (a, db')) :
    (a = .error .other ∧ db' = db) ∨
      (a = .ok (db.shares.rows.countP (DB.ownedShare id userID)) ∧
        db' = db.deleteShares (DB.ownedShare id userID)) :=
  run_total rfl h

theorem createShare_run {fileID userID : UUID} {passwordHash : Option GoString}
    {expiresAt : Option Time} {maxDownloads : Option ℤ} (hfails : o.fails = false)
    (hnew : ¬db.shares.Used o.uuid) (htoken : db.tokenUsed o.token = false) :
    ∃ share db', (Write.createShare fileID userID passwordHash expiresAt maxDownloads).run o issued db =
      some (.ok share, db') := by
  simp only [run, commit, hfails, htoken, Bool.false_eq_true, if_false]
  exact ⟨_, _, dif_neg hnew⟩

theorem createShare_cases {fileID userID : UUID} {passwordHash : Option GoString}
    {expiresAt : Option Time} {maxDownloads : Option ℤ} {a : Except DbError Share}
    (h : (Write.createShare fileID userID passwordHash expiresAt maxDownloads).run o issued db =
      some (a, db')) :
    (a = .error .other ∧ db' = db) ∨ ∃ share : Share,
      share = ⟨o.uuid, fileID, userID, o.token, passwordHash, expiresAt, maxDownloads, 0⟩ ∧
      ∃ hf : ¬db.shares.Used (key share), db.tokenUsed o.token = false ∧ a = .ok share ∧
        db' = { db with shares := db.shares.insert share hf } := by
  unfold run at h
  split at h
  · simp only [Option.some.injEq, Prod.mk.injEq] at h
    exact Or.inl ⟨h.1.symm, h.2.symm⟩
  · simp only [commit] at h
    split at h
    · cases h
    · next hf =>
      split at h
      · cases h
      · next htoken =>
        simp only [Option.some.injEq, Prod.mk.injEq] at h
        exact Or.inr ⟨_, rfl, hf, by simpa using htoken, h.1.symm, h.2.symm⟩

/-- Inserting a file row: a repeated key is an error. -/
theorem insertFile_ok {f : File} (h : db.insertFile f = .ok db') :
    ∃ hf : ¬db.files.Used (key f), db' = { db with files := db.files.insert f hf } := by
  unfold DB.insertFile at h
  split at h
  · cases h
  · next hf => exact ⟨hf, (Except.ok.inj h).symm⟩

theorem createFile_cases {mk : UUID → File} {a : Except DbError File}
    (h : (Write.createFile mk).run o issued db = some (a, db')) :
    (a = .error .other ∧ db' = db) ∨
      (∃ hf : ¬db.files.Used (key (mk o.uuid).columnDefaults),
        o.uuid ∉ issued ∧ ¬db.files.Used o.uuid ∧ a = .ok (mk o.uuid).columnDefaults ∧
        db' = { db with files := db.files.insert (mk o.uuid).columnDefaults hf }) := by
  unfold run at h
  split at h
  · simp only [Option.some.injEq, Prod.mk.injEq] at h
    exact Or.inl ⟨h.1.symm, h.2.symm⟩
  · simp only [commit] at h
    split at h
    · cases h
    · next hfresh =>
      rw [not_or] at hfresh
      split at h
      · next e he =>
        simp only [Option.some.injEq, Prod.mk.injEq] at h
        obtain rfl : e = .other := by
          unfold DB.insertFile at he
          split at he <;> cases he
          rfl
        exact Or.inl ⟨h.1.symm, h.2.symm⟩
      · next d hd =>
        simp only [Option.some.injEq, Prod.mk.injEq] at h
        obtain ⟨hf, rfl⟩ := insertFile_ok hd
        exact Or.inr ⟨hf, hfresh.1, hfresh.2, h.1.symm, h.2.symm⟩

/-- Without a failure, a row with a fresh id is inserted. -/
theorem createFile_ok {mk : UUID → File} {a : Except DbError File} (hfails : o.fails = false)
    (hfresh : ¬db.files.Used (mk o.uuid).id)
    (h : (Write.createFile mk).run o issued db = some (a, db')) :
    a = .ok (mk o.uuid).columnDefaults ∧
      db' = { db with files := db.files.insert (mk o.uuid).columnDefaults hfresh } := by
  have hinsert : db.insertFile (mk o.uuid).columnDefaults =
      .ok { db with files := db.files.insert (mk o.uuid).columnDefaults hfresh } := dif_neg hfresh
  simp only [run, hfails, Bool.false_eq_true, if_false, commit, hinsert] at h
  split at h
  · cases h
  · simp only [Option.some.injEq, Prod.mk.injEq] at h
    exact ⟨h.1.symm, h.2.symm⟩

theorem presignVersion_cases {userID root : UUID} {mk : UUID → File} {a : Except DbError File}
    (h : (Write.presignVersion userID root mk).run o issued db = some (a, db')) :
    (a = .error .other ∧ db' = db) ∨
      (∃ hf : ¬(db.supersede userID root).files.Used (key (mk o.uuid).columnDefaults),
        o.uuid ∉ issued ∧ ¬db.files.Used o.uuid ∧ a = .ok (mk o.uuid).columnDefaults ∧
        db' = { db.supersede userID root with
          files := (db.supersede userID root).files.insert (mk o.uuid).columnDefaults hf }) := by
  unfold run at h
  split at h
  · simp only [Option.some.injEq, Prod.mk.injEq] at h
    exact Or.inl ⟨h.1.symm, h.2.symm⟩
  · simp only [commit] at h
    split at h
    · cases h
    · next hfresh =>
      rw [not_or] at hfresh
      split at h
      · next e he =>
        simp only [Option.some.injEq, Prod.mk.injEq] at h
        obtain rfl : e = .other := by
          unfold DB.insertFile at he
          split at he <;> cases he
          rfl
        exact Or.inl ⟨h.1.symm, h.2.symm⟩
      · next d hd =>
        simp only [Option.some.injEq, Prod.mk.injEq] at h
        obtain ⟨hf, rfl⟩ := insertFile_ok hd
        exact Or.inr ⟨hf, hfresh.1, hfresh.2, h.1.symm, h.2.symm⟩

/-- Without a failure, a new version with a fresh id is inserted. -/
theorem presignVersion_ok {userID root : UUID} {mk : UUID → File} {a : Except DbError File}
    (hfails : o.fails = false) (hid : (mk o.uuid).id = o.uuid)
    (h : (Write.presignVersion userID root mk).run o issued db = some (a, db')) :
    a = .ok (mk o.uuid).columnDefaults := by
  simp only [run, hfails, Bool.false_eq_true, if_false, commit] at h
  split at h
  · cases h
  · next hfresh =>
    have hu : ¬(db.supersede userID root).files.Used (key (mk o.uuid).columnDefaults) := by
      show ¬db.files.Used (mk o.uuid).columnDefaults.id
      rw [File.id_columnDefaults, hid]
      exact (not_or.1 hfresh).2
    simp only [DB.insertFile, dif_neg hu, Option.some.injEq, Prod.mk.injEq] at h
    exact h.1.symm

theorem createFolder_cases {name : GoString} {userID : UUID} {parentID : Option UUID}
    {a : Except DbError Folder}
    (h : (Write.createFolder name userID parentID).run o issued db = some (a, db')) :
    (a = .error .other ∧ db' = db) ∨
      (∃ hf : ¬db.folders.Used (key (⟨o.uuid, name, userID, parentID⟩ : Folder)),
        a = .ok ⟨o.uuid, name, userID, parentID⟩ ∧
        db' = { db with folders := db.folders.insert ⟨o.uuid, name, userID, parentID⟩ hf }) := by
  unfold run at h
  split at h
  · simp only [Option.some.injEq, Prod.mk.injEq] at h
    exact Or.inl ⟨h.1.symm, h.2.symm⟩
  · simp only [commit] at h
    split at h
    · cases h
    · next hf =>
      simp only [Option.some.injEq, Prod.mk.injEq] at h
      exact Or.inr ⟨hf, h.1.symm, h.2.symm⟩

theorem deleteFolder_cases {userID folderID : UUID} {a : Except DbError (List File)}
    (h : (Write.deleteFolder userID folderID).run o issued db = some (a, db')) :
    (a = .error .other ∧ db' = db) ∨ (∃ versions, a = .ok versions ∧
      db.deleteFolderTree o.fuel userID folderID = some (versions, db')) := by
  unfold run at h
  split at h
  · simp only [Option.some.injEq, Prod.mk.injEq] at h
    exact Or.inl ⟨h.1.symm, h.2.symm⟩
  · simp only [commit, Option.map_eq_some_iff, Prod.mk.injEq] at h
    obtain ⟨⟨versions, d⟩, hd, rfl, rfl⟩ := h
    exact Or.inr ⟨versions, rfl, hd⟩

/-! ### What a write leaves alone -/

/-- The write changes rows of files. -/
def changesFiles {α : Type} : Write α → Bool
  | .createFolder _ _ _ => false
  | .saveFolder _ => false
  | .incrementDownloads _ => false
  | .createShare _ _ _ _ _ => false
  | .deleteShare _ _ => false
  | _ => true

/-- The write changes rows of folders. -/
def changesFolders {α : Type} : Write α → Bool
  | .createFolder _ _ _ => true
  | .saveFolder _ => true
  | .deleteFolder _ _ => true
  | _ => false

/-- The write changes rows of shares. -/
def changesShares {α : Type} : Write α → Bool
  | .deleteFile _ _ => true
  | .deleteFolder _ _ => true
  | .incrementDownloads _ => true
  | .createShare _ _ _ _ _ => true
  | .deleteShare _ _ => true
  | _ => false

/-- The write deletes rows of files. -/
def deletesFiles {α : Type} : Write α → Bool
  | .deleteFile _ _ => true
  | .deleteFolder _ _ => true
  | _ => false

section Frames

variable {α : Type} {w : Write α} {a : Except DbError α}

theorem leaves_files (hw : w.changesFiles = false) (h : w.run o issued db = some (a, db')) :
    ∃ folders shares tokens,
      db' = { db with folders := folders, shares := shares, revokedTokens := tokens } := by
  cases w with
  | createFolder name userID parentID =>
    obtain ⟨-, rfl⟩ | ⟨hu, -, rfl⟩ := createFolder_cases h
    all_goals exact ⟨_, _, _, rfl⟩
  | saveFolder f =>
    obtain ⟨-, rfl⟩ | ⟨-, rfl⟩ := saveFolder_cases h
    all_goals exact ⟨_, _, _, rfl⟩
  | incrementDownloads id =>
    obtain ⟨-, rfl⟩ | ⟨-, rfl⟩ := incrementDownloads_cases h
    all_goals exact ⟨_, _, _, rfl⟩
  | createShare fileID userID passwordHash expiresAt maxDownloads =>
    obtain ⟨-, rfl⟩ | ⟨share, -, hu, -, -, rfl⟩ := createShare_cases h
    all_goals exact ⟨_, _, _, rfl⟩
  | deleteShare id userID =>
    obtain ⟨-, rfl⟩ | ⟨-, rfl⟩ := deleteShare_cases h
    all_goals exact ⟨_, _, _, rfl⟩
  | _ => cases hw

theorem leaves_folders (hw : w.changesFolders = false) (h : w.run o issued db = some (a, db')) :
    ∃ files shares tokens,
      db' = { db with files := files, shares := shares, revokedTokens := tokens } := by
  cases w with
  | createFile mk =>
    obtain ⟨-, rfl⟩ | ⟨hu, -, -, -, rfl⟩ := createFile_cases h
    all_goals exact ⟨_, _, _, rfl⟩
  | presignVersion userID root mk =>
    obtain ⟨-, rfl⟩ | ⟨hu, -, -, -, rfl⟩ := presignVersion_cases h
    all_goals exact ⟨_, _, _, rfl⟩
  | saveFile f =>
    obtain ⟨-, rfl⟩ | ⟨-, rfl⟩ := saveFile_cases h
    all_goals exact ⟨_, _, _, rfl⟩
  | restoreVersion userID root targetID =>
    obtain ⟨-, rfl⟩ | ⟨-, rfl⟩ := restoreVersion_cases h
    all_goals exact ⟨_, _, _, rfl⟩
  | deleteFile userID root =>
    obtain ⟨-, rfl⟩ | ⟨-, rfl⟩ := deleteFile_cases h
    all_goals exact ⟨_, _, _, rfl⟩
  | updateFile id u =>
    obtain ⟨-, rfl⟩ | ⟨-, rfl⟩ := updateFile_cases h
    all_goals exact ⟨_, _, _, rfl⟩
  | incrementDownloads id =>
    obtain ⟨-, rfl⟩ | ⟨-, rfl⟩ := incrementDownloads_cases h
    all_goals exact ⟨_, _, _, rfl⟩
  | createShare fileID userID passwordHash expiresAt maxDownloads =>
    obtain ⟨-, rfl⟩ | ⟨share, -, hu, -, -, rfl⟩ := createShare_cases h
    all_goals exact ⟨_, _, _, rfl⟩
  | deleteShare id userID =>
    obtain ⟨-, rfl⟩ | ⟨-, rfl⟩ := deleteShare_cases h
    all_goals exact ⟨_, _, _, rfl⟩
  | _ => cases hw

theorem leaves_shares (hw : w.changesShares = false) (h : w.run o issued db = some (a, db')) :
    ∃ files folders, db' = { db with files := files, folders := folders } := by
  cases w with
  | createFile mk =>
    obtain ⟨-, rfl⟩ | ⟨hu, -, -, -, rfl⟩ := createFile_cases h
    all_goals exact ⟨_, _, rfl⟩
  | presignVersion userID root mk =>
    obtain ⟨-, rfl⟩ | ⟨hu, -, -, -, rfl⟩ := presignVersion_cases h
    all_goals exact ⟨_, _, rfl⟩
  | saveFile f =>
    obtain ⟨-, rfl⟩ | ⟨-, rfl⟩ := saveFile_cases h
    all_goals exact ⟨_, _, rfl⟩
  | restoreVersion userID root targetID =>
    obtain ⟨-, rfl⟩ | ⟨-, rfl⟩ := restoreVersion_cases h
    all_goals exact ⟨_, _, rfl⟩
  | updateFile id u =>
    obtain ⟨-, rfl⟩ | ⟨-, rfl⟩ := updateFile_cases h
    all_goals exact ⟨_, _, rfl⟩
  | createFolder name userID parentID =>
    obtain ⟨-, rfl⟩ | ⟨hu, -, rfl⟩ := createFolder_cases h
    all_goals exact ⟨_, _, rfl⟩
  | saveFolder f =>
    obtain ⟨-, rfl⟩ | ⟨-, rfl⟩ := saveFolder_cases h
    all_goals exact ⟨_, _, rfl⟩
  | _ => cases hw

end Frames

end Write

/-! ## Tables after a write -/

namespace DB

variable {db db' : DB}

theorem savedRow_eq (f : File) : db.savedRow f = f ∨ db.savedRow f = f.columnDefaults := by
  unfold savedRow
  split
  · exact Or.inl rfl
  · exact Or.inr rfl

@[simp] theorem id_savedRow (f : File) : (db.savedRow f).id = f.id := by
  unfold savedRow
  split <;> rfl

@[simp] theorem status_savedRow (f : File) : (db.savedRow f).status = f.status := by
  unfold savedRow
  split <;> rfl

@[simp] theorem thumbnailKey_savedRow (f : File) : (db.savedRow f).thumbnailKey = f.thumbnailKey := by
  unfold savedRow
  split <;> rfl

@[simp] theorem playlistKey_savedRow (f : File) : (db.savedRow f).playlistKey = f.playlistKey := by
  unfold savedRow
  split <;> rfl

/-- A save over an existing row. -/
theorem savedRow_of_mem {f r : File} (hr : r ∈ db.files) (hid : r.id = f.id) :
    db.savedRow f = f := by
  unfold savedRow
  rw [← hid, ← key_file r, Table.get?_of_mem hr]
  rfl

theorem mem_saveFile {f g : File} :
    g ∈ (db.saveFile f).files ↔ g = db.savedRow f ∨ (g ∈ db.files ∧ g.id ≠ f.id) := by
  unfold saveFile
  rw [Table.mem_save, key_file, key_file, id_savedRow]

theorem mem_supersede {userID root : UUID} {g : File} :
    g ∈ (db.supersede userID root).files ↔
      ∃ f ∈ db.files, g = if inLineage userID root f then f.withCurrent false else f :=
  Table.mem_modify (File.key_withCurrent false)

theorem mem_setCurrent {id : UUID} {g : File} :
    g ∈ (db.setCurrent id).files ↔
      ∃ f ∈ db.files, g = if f.id = id then f.withCurrent true else f := by
  refine (Table.mem_modify (File.key_withCurrent true)).trans ?_
  simp only [decide_eq_true_eq]

theorem mem_updateFile {id : UUID} {u : FileUpdates} {g : File} :
    g ∈ (db.updateFile id u).files ↔ ∃ f ∈ db.files, g = if f.id = id then u.apply f else f := by
  refine (Table.mem_modify u.key_apply).trans ?_
  simp only [decide_eq_true_eq]

theorem mem_incrementDownloads {id : UUID} {g : Share} :
    g ∈ (db.incrementDownloads id).shares ↔
      ∃ f ∈ db.shares, g = if f.id = id then f.downloaded else f := by
  refine (Table.mem_modify Share.key_downloaded).trans ?_
  simp only [decide_eq_true_eq]

theorem mem_deleteFiles {userID : UUID} {ids : List UUID} {g : File} :
    g ∈ (db.deleteFiles userID ids).files ↔ g ∈ db.files ∧ ¬(g.id ∈ ids ∧ g.userID = userID) := by
  unfold deleteFiles
  simp only [Table.mem_delete, Bool.and_eq_false_iff, decide_eq_false_iff_not, not_and_or]

theorem mem_deleteFolderRow {userID folderID : UUID} {g : Folder} :
    g ∈ (db.deleteFolderRow userID folderID).folders ↔
      g ∈ db.folders ∧ ¬(g.id = folderID ∧ g.userID = userID) := by
  unfold deleteFolderRow
  simp only [Table.mem_delete, Bool.and_eq_false_iff, decide_eq_false_iff_not, not_and_or]

theorem mem_deleteShares {p : Share → Bool} {s : Share} :
    s ∈ (db.deleteShares p).shares ↔ s ∈ db.shares ∧ p s = false := Table.mem_delete

theorem tokenUsed_iff {token : GoString} :
    db.tokenUsed token = true ↔ (∃ s ∈ db.shares, s.token = token) ∨ token ∈ db.revokedTokens := by
  simp [tokenUsed, List.any_eq_true, Table.mem_def]

/-- The token of a deleted link stays used. -/
theorem tokenUsed_deleteShares {p : Share → Bool} {token : GoString} :
    (db.deleteShares p).tokenUsed token = db.tokenUsed token := by
  rw [Bool.eq_iff_iff, tokenUsed_iff, tokenUsed_iff]
  constructor
  · rintro (⟨s, hs, rfl⟩ | h)
    · exact Or.inl ⟨s, (mem_deleteShares.1 hs).1, rfl⟩
    · rcases List.mem_append.1 h with h | h
      · obtain ⟨s, hs, rfl⟩ := List.mem_map.1 h
        exact Or.inl ⟨s, (List.mem_filter.1 hs).1, rfl⟩
      · exact Or.inr h
  · rintro (⟨s, hs, rfl⟩ | h)
    · cases hp : p s with
      | true =>
        exact Or.inr (List.mem_append_left _ (List.mem_map_of_mem (List.mem_filter.2 ⟨hs, hp⟩)))
      | false => exact Or.inl ⟨s, mem_deleteShares.2 ⟨hs, hp⟩, rfl⟩
    · exact Or.inr (List.mem_append_right _ h)

theorem mem_lineageFiles {userID root : UUID} {g : File} :
    g ∈ db.lineageFiles userID root ↔ g ∈ db.files ∧ inLineage userID root g = true := by
  simp [lineageFiles, List.mem_insertionSort, List.mem_filter, Table.mem_def]

theorem nodup_lineageFiles (userID root : UUID) : (db.lineageFiles userID root).Nodup :=
  (List.perm_insertionSort _ _).nodup_iff.2 ((List.Nodup.of_map _ db.files.nodup).filter _)

end DB

/-- A write that deletes no file keeps the id of every row. -/
theorem Write.keeps_ids {α : Type} {w : Write α} {o : Oracle} {issued : List UUID}
    {a : Except DbError α} {db db' : DB} (hw : w.deletesFiles = false)
    (h : w.run o issued db = some (a, db')) {r : File} (hr : r ∈ db.files) :
    ∃ f ∈ db'.files, f.id = r.id := by
  have same : ∃ f ∈ db.files, f.id = r.id := ⟨r, hr, rfl⟩
  cases w with
  | createFile mk =>
    obtain ⟨-, rfl⟩ | ⟨hu, -, -, -, rfl⟩ := Write.createFile_cases h
    · exact same
    · exact ⟨r, (Table.mem_insert hu).2 (Or.inr hr), rfl⟩
  | presignVersion userID root mk =>
    obtain ⟨-, rfl⟩ | ⟨hu, -, -, -, rfl⟩ := Write.presignVersion_cases h
    · exact same
    · refine ⟨_, (Table.mem_insert hu).2 (Or.inr (DB.mem_supersede.2 ⟨r, hr, rfl⟩)), ?_⟩
      split <;> rfl
  | saveFile f =>
    obtain ⟨-, rfl⟩ | ⟨-, rfl⟩ := Write.saveFile_cases h
    · exact same
    · by_cases hid : r.id = f.id
      · exact ⟨_, DB.mem_saveFile.2 (Or.inl rfl), (DB.id_savedRow f).trans hid.symm⟩
      · exact ⟨r, DB.mem_saveFile.2 (Or.inr ⟨hr, hid⟩), rfl⟩
  | restoreVersion userID root targetID =>
    obtain ⟨-, rfl⟩ | ⟨-, rfl⟩ := Write.restoreVersion_cases h
    · exact same
    · refine ⟨_, DB.mem_setCurrent.2 ⟨_, DB.mem_supersede.2 ⟨r, hr, rfl⟩, rfl⟩, ?_⟩
      split <;> split <;> rfl
  | updateFile id u =>
    obtain ⟨-, rfl⟩ | ⟨-, rfl⟩ := Write.updateFile_cases h
    · exact same
    · refine ⟨_, DB.mem_updateFile.2 ⟨r, hr, rfl⟩, ?_⟩
      split <;> rfl
  | deleteFile userID root => cases hw
  | deleteFolder userID folderID => cases hw
  | _ =>
    obtain ⟨folders, shares, tokens, rfl⟩ := Write.leaves_files rfl h
    exact same

end Optiflow
