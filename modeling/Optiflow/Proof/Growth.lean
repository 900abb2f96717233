import Optiflow.Model.DatabaseSpec

/-!
# Births only grow

No call forgets a key that a table has ever had (`exec_grows`), so what is known of a row's birth
stays known.  `deleteFolderTree` in addition only removes rows (`DB.Shrinks`).
-/

namespace Optiflow

/-- A fold of partial steps keeps a reflexive and transitive relation that each step keeps. -/
theorem foldlM_rel {α β : Type} {R : β → β → Prop} (hrefl : ∀ b, R b b)
    (htrans : ∀ {a b c}, R a b → R b c → R a c) {f : β → α → Option β}
    (hf : ∀ {b a b'}, f b a = some b' → R b b') :
    ∀ {l : List α} {b b' : β}, l.foldlM f b = some b' → R b b'
  | [], b, b', h => by
    obtain rfl := Option.some.inj h
    exact hrefl b
  | a :: l, b, b', h => by
    rw [List.foldlM_cons] at h
    obtain ⟨b₁, h₁, h₂⟩ := Option.bind_eq_some_iff.1 h
    exact htrans (hf h₁) (foldlM_rel hrefl htrans hf h₂)

namespace DB

/-- Rows only go away; births, users and the tokens that were used stay. -/
structure Shrinks (db db' : DB) : Prop where
  files : ∀ f ∈ db'.files, f ∈ db.files
  folders : ∀ f ∈ db'.folders, f ∈ db.folders
  shares : ∀ s ∈ db'.shares, s ∈ db.shares
  file_births : db'.files.births = db.files.births
  folder_births : db'.folders.births = db.folders.births
  share_births : db'.shares.births = db.shares.births
  users : db'.users = db.users
  tokens : ∀ token, db'.tokenUsed token = db.tokenUsed token

theorem Shrinks.refl (db : DB) : Shrinks db db :=
  ⟨fun _ h => h, fun _ h => h, fun _ h => h, rfl, rfl, rfl, rfl, fun _ => rfl⟩

theorem Shrinks.trans {a b c : DB} (h : Shrinks a b) (h' : Shrinks b c) : Shrinks a c :=
  ⟨fun f hf => h.files f (h'.files f hf), fun f hf => h.folders f (h'.folders f hf),
    fun s hs => h.shares s (h'.shares s hs), h'.file_births.trans h.file_births,
    h'.folder_births.trans h.folder_births, h'.share_births.trans h.share_births,
    h'.users.trans h.users, fun token => (h'.tokens token).trans (h.tokens token)⟩

theorem shrinks_deleteFiles (db : DB) (userID : UUID) (ids : List UUID) :
    Shrinks db (db.deleteFiles userID ids) :=
  ⟨fun _ hf => (mem_deleteFiles.1 hf).1, fun _ hf => hf, fun _ hs => (mem_deleteShares.1 hs).1,
    rfl, rfl, rfl, rfl, fun _ => tokenUsed_deleteShares⟩

theorem shrinks_deleteFolderRow (db : DB) (userID folderID : UUID) :
    Shrinks db (db.deleteFolderRow userID folderID) :=
  ⟨fun _ hf => hf, fun _ hf => (mem_deleteFolderRow.1 hf).1, fun _ hs => hs, rfl, rfl, rfl, rfl,
    fun _ => rfl⟩

theorem shrinks_deleteShares (db : DB) (p : Share → Bool) : Shrinks db (db.deleteShares p) :=
  ⟨fun _ hf => hf, fun _ hf => hf, fun _ hs => (mem_deleteShares.1 hs).1, rfl, rfl, rfl, rfl,
    fun _ => tokenUsed_deleteShares⟩

theorem deleteFiles_nil (db : DB) (userID : UUID) : db.deleteFiles userID [] = db := by
  simp [deleteFiles, deleteShares, Table.delete]

/-- The files that are current in a folder, with all their versions. -/
def filesIn (db : DB) (userID folderID : UUID) : List File :=
  (db.currentFiles userID (some folderID)).flatMap fun f => db.lineageFiles userID f.lineageRootID

/-- One level of `deleteFolderTree`, when nothing is left below the folder. -/
def deleteLevel (db : DB) (userID folderID : UUID) : DB :=
  (db.deleteFiles userID ((db.filesIn userID folderID).map File.id)).deleteFolderRow userID folderID

/-- The code does not delete an empty list of ids. -/
theorem deleteLevel_eq (db : DB) (userID folderID : UUID) : db.deleteLevel userID folderID =
    (if 0 < ((db.filesIn userID folderID).map File.id).length then
      db.deleteFiles userID ((db.filesIn userID folderID).map File.id) else db).deleteFolderRow
        userID folderID := by
  split
  · rfl
  · next hlen =>
    rw [deleteLevel, List.eq_nil_of_length_eq_zero (Nat.eq_zero_of_not_pos hlen), deleteFiles_nil]

theorem mem_deleteLevel {db : DB} {userID folderID : UUID} {f : Folder} :
    f ∈ (db.deleteLevel userID folderID).folders ↔
      f ∈ db.folders ∧ ¬(f.id = folderID ∧ f.userID = userID) := mem_deleteFolderRow

/-- `deleteFolderTree` folder by folder. -/
theorem deleteFolderTree_succ (fuel : ℕ) (db : DB) (userID folderID : UUID) :
    db.deleteFolderTree (fuel + 1) userID folderID =
      ((db.childFolders userID (some folderID)).foldlM (fun (acc : List File × DB) child =>
        (acc.2.deleteFolderTree fuel userID child.id).bind fun d => some (acc.1 ++ d.1, d.2))
          ([], db)).bind fun r =>
        some (r.1 ++ r.2.filesIn userID folderID, r.2.deleteLevel userID folderID) := by
  simp only [deleteLevel_eq]
  rfl

/-- **The recursion of `deleteFolderTree`**: what holds of each level, and of one deletion after another,
holds of the whole. -/
theorem deleteFolderTree_rule {userID : UUID} {R : DB → List File → DB → Prop}
    (hrefl : ∀ db, R db [] db) (htrans : ∀ {a b c l l'}, R a l b → R b l' c → R a (l ++ l') c)
    (hlevel : ∀ db folderID, R db (db.filesIn userID folderID) (db.deleteLevel userID folderID))
    {fuel : ℕ} {db db' : DB} {folderID : UUID} {versions : List File}
    (h : db.deleteFolderTree fuel userID folderID = some (versions, db')) : R db versions db' := by
  induction fuel generalizing db db' folderID versions with
  | zero => cases h
  | succ fuel ih =>
    rw [deleteFolderTree_succ] at h
    obtain ⟨⟨deleted, db₁⟩, hfold, h⟩ := Option.bind_eq_some_iff.1 h
    obtain ⟨rfl, rfl⟩ := Prod.mk.inj (Option.some.inj h)
    -- The children append what they have deleted.
    obtain ⟨more, hmore, h₁⟩ : ∃ more, deleted = [] ++ more ∧ R db more db₁ :=
      foldlM_rel (R := fun x y : List File × DB => ∃ more, y.1 = x.1 ++ more ∧ R x.2 more y.2)
        (fun x => ⟨[], (List.append_nil _).symm, hrefl x.2⟩)
        (fun ⟨l, hl, hr⟩ ⟨l', hl', hr'⟩ =>
          ⟨l ++ l', by rw [hl', hl, List.append_assoc], htrans hr hr'⟩)
        (fun {x child y} hstep => by
          simp only [Option.bind_eq_some_iff] at hstep
          obtain ⟨⟨d, db₂⟩, hrec, hy⟩ := hstep
          obtain rfl := Option.some.inj hy
          exact ⟨d, rfl, ih hrec⟩) hfold
    rw [List.nil_append] at hmore
    rw [hmore]
    exact htrans h₁ (hlevel db₁ folderID)

theorem shrinks_deleteLevel (db : DB) (userID folderID : UUID) :
    Shrinks db (db.deleteLevel userID folderID) :=
  (shrinks_deleteFiles _ _ _).trans (shrinks_deleteFolderRow _ _ _)

theorem shrinks_deleteFolderTree {fuel : ℕ} {db db' : DB} {userID folderID : UUID}
    {versions : List File} (h : db.deleteFolderTree fuel userID folderID = some (versions, db')) :
    Shrinks db db' :=
  deleteFolderTree_rule (R := fun a _ b => Shrinks a b) .refl (fun h h' => h.trans h')
    (fun db folderID => shrinks_deleteLevel db userID folderID) h

theorem mem_filesIn {db : DB} {userID folderID : UUID} {f : File}
    (h : f ∈ db.filesIn userID folderID) : f ∈ db.files ∧ f.userID = userID := by
  obtain ⟨c, -, hf⟩ := List.mem_flatMap.1 h
  obtain ⟨hmem, hin⟩ := mem_lineageFiles.1 hf
  exact ⟨hmem, (inLineage_iff.1 hin).1⟩

/-! ### What a delete answers -/

/-- The file rows that go away are those of the list. -/
structure Removes (db : DB) (removed : List File) (db' : DB) : Prop where
  mem : ∀ f ∈ removed, f ∈ db.files
  files : ∀ f, f ∈ db'.files ↔ f ∈ db.files ∧ f ∉ removed

theorem Removes.refl (db : DB) : db.Removes [] db :=
  ⟨fun _ hf => absurd hf List.not_mem_nil, fun f => by simp⟩

theorem Removes.trans {a b c : DB} {l l' : List File} (h : a.Removes l b) (h' : b.Removes l' c) :
    a.Removes (l ++ l') c := by
  refine ⟨fun f hf => ?_, fun f => ?_⟩
  · rcases List.mem_append.1 hf with hf | hf
    · exact h.mem f hf
    · exact ((h.files f).1 (h'.mem f hf)).1
  · rw [h'.files, h.files, List.mem_append, not_or, and_assoc]

/-- No row is left under a removed id. -/
theorem Removes.gone {db db' : DB} {removed : List File} (h : db.Removes removed db') {f g : File}
    (hf : f ∈ removed) (hg : g ∈ db'.files) : g.id ≠ f.id := by
  intro hid
  obtain ⟨hgdb, hgone⟩ := (h.files g).1 hg
  exact hgone (Table.eq_of_key hgdb (h.mem f hf) hid ▸ hf)

theorem removes_deleteFiles {db : DB} {userID : UUID} {removed : List File}
    (h : ∀ f ∈ removed, f ∈ db.files ∧ f.userID = userID) :
    db.Removes removed (db.deleteFiles userID (removed.map File.id)) := by
  refine ⟨fun f hf => (h f hf).1, fun f => ?_⟩
  rw [mem_deleteFiles]
  refine and_congr_right fun hf => not_congr ⟨?_, fun hmem => ?_⟩
  · rintro ⟨hid, -⟩
    obtain ⟨g, hg, hgid⟩ := List.mem_map.1 hid
    exact Table.eq_of_key hf (h g hg).1 hgid.symm ▸ hg
  · exact ⟨List.mem_map_of_mem hmem, (h f hmem).2⟩

/-- A deleted lineage. -/
theorem removes_deleteFile {db : DB} (userID root : UUID) : db.Removes (db.lineageFiles userID root)
    (db.deleteFiles userID ((db.lineageFiles userID root).map File.id)) :=
  removes_deleteFiles fun f hf => by
    obtain ⟨hmem, hin⟩ := mem_lineageFiles.1 hf
    exact ⟨hmem, (inLineage_iff.1 hin).1⟩

theorem removes_deleteLevel (db : DB) (userID folderID : UUID) :
    db.Removes (db.filesIn userID folderID) (db.deleteLevel userID folderID) := by
  -- The row of the folder itself is no file row.
  have hdel : db.Removes (db.filesIn userID folderID)
      (db.deleteFiles userID ((db.filesIn userID folderID).map File.id)) :=
    removes_deleteFiles fun f hf => mem_filesIn hf
  exact ⟨hdel.mem, hdel.files⟩

theorem removes_deleteFolderTree {fuel : ℕ} {db db' : DB} {userID folderID : UUID}
    {versions : List File} (h : db.deleteFolderTree fuel userID folderID = some (versions, db')) :
    db.Removes versions db' :=
  deleteFolderTree_rule .refl (fun h h' => h.trans h')
    (fun db folderID => removes_deleteLevel db userID folderID) h

end DB

/-! ## Growth -/

/-- Every key of `s` is a key of `t`, with the same birth. -/
structure Grows (s t : Store) : Prop where
  files : s.db.files.births ⊆ t.db.files.births
  folders : s.db.folders.births ⊆ t.db.folders.births
  shares : s.db.shares.births ⊆ t.db.shares.births

theorem Grows.refl (s : Store) : Grows s s :=
  ⟨List.Subset.refl _, List.Subset.refl _, List.Subset.refl _⟩

theorem Grows.trans {s t u : Store} (h : Grows s t) (h' : Grows t u) : Grows s u :=
  ⟨List.Subset.trans h.files h'.files, List.Subset.trans h.folders h'.folders,
    List.Subset.trans h.shares h'.shares⟩

/-- A store whose database is the same has grown. -/
theorem Grows.of_db_eq {s t : Store} (h : t.db = s.db) : Grows s t :=
  ⟨h ▸ List.Subset.refl _, h ▸ List.Subset.refl _, h ▸ List.Subset.refl _⟩

theorem DB.Shrinks.grows {s : Store} {db' : DB} (h : s.db.Shrinks db') : Grows s { s with db := db' } :=
  ⟨h.file_births ▸ List.Subset.refl _, h.folder_births ▸ List.Subset.refl _,
    h.share_births ▸ List.Subset.refl _⟩

theorem Write.run_grows {α : Type} {w : Write α} {o : Oracle} {s : Store} {a : Except DbError α}
    {db' : DB} (h : w.run o s.issued s.db = some (a, db')) : Grows s { s with db := db' } := by
  have same : db' = s.db → Grows s { s with db := db' } := fun h => .of_db_eq h
  cases w with
  | createFile mk =>
    obtain ⟨-, h⟩ | ⟨hf, -, -, -, rfl⟩ := createFile_cases h
    · exact same h
    · exact ⟨List.subset_cons_self _ _, List.Subset.refl _, List.Subset.refl _⟩
  | presignVersion userID root mk =>
    obtain ⟨-, h⟩ | ⟨hf, -, -, -, rfl⟩ := presignVersion_cases h
    · exact same h
    · exact ⟨List.subset_cons_self _ _, List.Subset.refl _, List.Subset.refl _⟩
  | saveFile f =>
    obtain ⟨-, h⟩ | ⟨-, rfl⟩ := saveFile_cases h
    · exact same h
    · exact ⟨Table.births_subset_save, List.Subset.refl _, List.Subset.refl _⟩
  | restoreVersion userID root targetID =>
    obtain ⟨-, h⟩ | ⟨-, rfl⟩ := restoreVersion_cases h
    · exact same h
    · exact ⟨List.Subset.refl _, List.Subset.refl _, List.Subset.refl _⟩
  | deleteFile userID root =>
    obtain ⟨-, h⟩ | ⟨-, rfl⟩ := deleteFile_cases h
    · exact same h
    · exact (DB.shrinks_deleteFiles _ _ _).grows
  | updateFile id u =>
    obtain ⟨-, h⟩ | ⟨-, rfl⟩ := updateFile_cases h
    · exact same h
    · exact ⟨List.Subset.refl _, List.Subset.refl _, List.Subset.refl _⟩
  | createFolder name userID parentID =>
    obtain ⟨-, h⟩ | ⟨hf, -, rfl⟩ := createFolder_cases h
    · exact same h
    · exact ⟨List.Subset.refl _, List.subset_cons_self _ _, List.Subset.refl _⟩
  | saveFolder f =>
    obtain ⟨-, h⟩ | ⟨-, rfl⟩ := saveFolder_cases h
    · exact same h
    · exact ⟨List.Subset.refl _, Table.births_subset_save, List.Subset.refl _⟩
  | deleteFolder userID folderID =>
    obtain ⟨-, h⟩ | ⟨versions, -, h⟩ := deleteFolder_cases h
    · exact same h
    · exact (DB.shrinks_deleteFolderTree h).grows
  | incrementDownloads id =>
    obtain ⟨-, h⟩ | ⟨-, rfl⟩ := incrementDownloads_cases h
    · exact same h
    · exact ⟨List.Subset.refl _, List.Subset.refl _, List.Subset.refl _⟩
  | createShare fileID userID passwordHash expiresAt maxDownloads =>
    obtain ⟨-, h⟩ | ⟨share, -, hf, -, -, rfl⟩ := createShare_cases h
    · exact same h
    · exact ⟨List.Subset.refl _, List.Subset.refl _, List.subset_cons_self _ _⟩
  | deleteShare id userID =>
    obtain ⟨-, h⟩ | ⟨-, rfl⟩ := deleteShare_cases h
    · exact same h
    · exact (DB.shrinks_deleteShares _ _).grows

/-- Whether a call writes to the database. -/
def Stmt.isWrite {α : Type} : Stmt α → Bool
  | .write _ => true
  | _ => false

/-- A call that is not a write leaves the database alone. -/
theorem exec_db {α : Type} {e : Stmt α} {o : Oracle} {s s' : Store} {a : α}
    (he : e.isWrite = false) (h : exec o e s = some (a, s')) : s'.db = s.db := by
  cases e with
  | write w => cases he
  | newUUID =>
    simp only [exec] at h
    split at h
    · cases h
    · simp only [Option.some.injEq, Prod.mk.injEq] at h
      rw [← h.2]
  | _ =>
    simp only [exec, Option.some.injEq, Prod.mk.injEq] at h
    rw [← h.2]

theorem exec_write {α : Type} {w : Write α} {o : Oracle} {s s' : Store} {a : Except DbError α}
    (h : exec o (.write w) s = some (a, s')) :
    ∃ db', w.run o s.issued s.db = some (a, db') ∧ s' = { s with db := db' } := by
  simp only [exec, Option.map_eq_some_iff, Prod.mk.injEq] at h
  obtain ⟨⟨a', db'⟩, hw, rfl, rfl⟩ := h
  exact ⟨db', hw, rfl⟩

theorem exec_query {α : Type} {q : Query α} {o : Oracle} {s s' : Store} {a : Except DbError α}
    (h : exec o (.query q) s = some (a, s')) : a = q.run o s.db ∧ s' = s := by
  simp only [exec, Option.some.injEq, Prod.mk.injEq] at h
  exact ⟨h.1.symm, h.2.symm⟩

theorem exec_grows {α : Type} {e : Stmt α} {o : Oracle} {s s' : Store} {a : α}
    (h : exec o e s = some (a, s')) : Grows s s' := by
  cases e with
  | write w =>
    obtain ⟨db', hw, rfl⟩ := exec_write h
    exact Write.run_grows hw
  | _ => exact .of_db_eq (exec_db rfl h)

end Optiflow
