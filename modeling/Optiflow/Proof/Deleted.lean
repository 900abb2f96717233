import Optiflow.Proof.Rows
import Optiflow.Proof.Tidy

/-!
# Deleted rows

A delete removes whole lineages, or a subtree of folders with theirs, in one transaction.  A request
that has read a row before may write afterwards: `Save` inserts a row that is gone, and a new version
or a new folder may point at one.  When each such write still finds the row that it relies on, nothing
that was deleted comes back (`deletion_final`).
-/

namespace Optiflow

open Interleave UploadSvc ApiSvc

/-! ## The property -/

/-- The database before and after a step. -/
def change : ServiceStep → DB × DB
  | .call s _ o e _ => (s.db, ((exec o e s).map fun r => r.2.db).getD s.db)
  | .start s _ => (s.db, s.db)
  | .env s _ => (s.db, s.db)

/-- The file rows that a step removes. -/
def removedFiles (st : ServiceStep) : List File := (change st).1.files.minus (change st).2.files

/-- The folder rows that a step removes. -/
def removedFolders (st : ServiceStep) : List Folder := (change st).1.folders.minus (change st).2.folders

/-- The folder rows that a step makes. -/
def madeFolders (st : ServiceStep) : List Folder := (change st).2.folders.minus (change st).1.folders

/-- What was removed does not come back: no row has a removed id or belongs to a removed lineage, and
no folder is made under a removed one. -/
structure DeletionFinal (c : Services) : Prop where
  files : ∀ st ∈ c.trace, ∀ r ∈ removedFiles st, ∀ f ∈ c.store.db.files,
    f.id ≠ r.id ∧ f.parentID ≠ some r.id ∧ f.lineageRootID ≠ r.lineageRootID
  folders : ∀ st ∈ c.trace, ∀ r ∈ removedFolders st, ∀ f ∈ c.store.db.folders, f.id ≠ r.id
  newFolders : c.trace.Pairwise fun later earlier =>
    ∀ r ∈ removedFolders earlier, ∀ f ∈ madeFolders later, f.parentID ≠ some r.id

/-- A save finds its row. -/
def saveFindsRow : ServiceStep → Bool
  | .call s _ _ (.write (.saveFile f)) (.ok _) => s.db.files.rows.any fun g => g.id = f.id
  | .call s _ _ (.write (.saveFolder f)) (.ok _) => s.db.folders.rows.any fun g => g.id = f.id
  | _ => true

/-- The transaction of a new version finds a version. -/
def newVersionFindsLineage : ServiceStep → Bool
  | .call s _ _ (.write (.presignVersion userID root _)) (.ok _) =>
    s.db.files.rows.any (DB.inLineage userID root)
  | _ => true

/-- A new folder finds its parent. -/
def createFindsParent : ServiceStep → Bool
  | .call s _ _ (.write (.createFolder _ userID parentID)) (.ok _) => s.db.hasFolder userID parentID
  | _ => true

/-- A saved folder finds its parent. -/
def moveFindsParent : ServiceStep → Bool
  | .call s _ _ (.write (.saveFolder f)) (.ok _) => s.db.hasFolder f.userID f.parentID
  | _ => true

/-! ## What a delete removes -/

/-- Files go away by whole lineages. -/
structure DB.LeavesWhole (db db' : DB) : Prop extends DB.Shrinks db db' where
  whole : ∀ f ∈ db.files, ∀ g ∈ db'.files, f.lineage = g.lineage → f ∈ db'.files

theorem DB.LeavesWhole.refl (db : DB) : db.LeavesWhole db := ⟨.refl db, fun _ hf _ _ _ => hf⟩

theorem DB.LeavesWhole.trans {a b c : DB} (h : a.LeavesWhole b) (h' : b.LeavesWhole c) :
    a.LeavesWhole c :=
  ⟨h.toShrinks.trans h'.toShrinks, fun f hf g hg hfg =>
    h'.whole f (h.whole f hf g (h'.toShrinks.files g hg) hfg) g hg hfg⟩

section Deletes

variable {s : Store} {userID folderID : UUID}

theorem DB.leavesWhole_deleteFiles {db : DB} {ids : List UUID}
    (hwhole : ∀ f ∈ db.files, ∀ g ∈ db.files, f.lineage = g.lineage →
      f.id ∈ ids ∧ f.userID = userID → g.id ∈ ids ∧ g.userID = userID) :
    db.LeavesWhole (db.deleteFiles userID ids) := by
  refine ⟨DB.shrinks_deleteFiles _ _ _, fun f hf g hg hfg => DB.mem_deleteFiles.2 ⟨hf, fun hdel => ?_⟩⟩
  obtain ⟨hgmem, hgone⟩ := DB.mem_deleteFiles.1 hg
  exact hgone (hwhole f hf g hgmem hfg hdel)

/-- Deleting a folder removes whole lineages. -/
theorem DB.leavesWhole_deleteFolderTree {fuel : ℕ} {db db' : DB} {versions : List File}
    (hs : WellFormed { s with db := db })
    (h : db.deleteFolderTree fuel userID folderID = some (versions, db')) : db.LeavesWhole db' := by
  refine DB.deleteFolderTree_rule
    (R := fun a _ b => WellFormed { s with db := a } → a.LeavesWhole b) (fun a _ => .refl a)
    (fun hab hbc ha => ?_) (fun a folderID ha => ?_) h hs
  · exact (hab ha).trans (hbc (ha.shrinks (hab ha).toShrinks))
  · have hrow : ∀ d : DB, d.LeavesWhole (d.deleteFolderRow userID folderID) := fun d =>
      ⟨DB.shrinks_deleteFolderRow _ _ _, fun _ hf _ _ _ => hf⟩
    have hfiles : a.LeavesWhole (a.deleteFiles userID ((a.filesIn userID folderID).map File.id)) :=
      DB.leavesWhole_deleteFiles fun f hf g hg hfg hdel => ha.versions_closed hf hg hfg hdel.1
    exact hfiles.trans (hrow _)

/-- Every folder lies in one that exists. -/
def DB.NoOrphans (db : DB) : Prop := ∀ f ∈ db.folders, db.hasFolder f.userID f.parentID = true

/-- Deleting a folder leaves no folder behind in it. -/
theorem DB.NoOrphans.deleteFolderTree {fuel : ℕ} {db db' : DB} {versions : List File} (h : db.NoOrphans)
    (hd : db.deleteFolderTree fuel userID folderID = some (versions, db')) :
    db'.NoOrphans ∧ ∀ f ∈ db'.folders, f.id = folderID → f.userID ≠ userID := by
  induction fuel generalizing db db' folderID versions with
  | zero => cases hd
  | succ fuel ih =>
    rw [DB.deleteFolderTree_succ] at hd
    obtain ⟨⟨deleted, db₁⟩, hfold, hd⟩ := Option.bind_eq_some_iff.1 hd
    obtain ⟨-, rfl⟩ := Prod.mk.inj (Option.some.inj hd)
    have hdone := foldlM_done
      (P := fun acc : List File × DB => acc.2.NoOrphans ∧ db.Shrinks acc.2)
      (D := fun (c : Folder) (acc : List File × DB) =>
        ∀ f ∈ acc.2.folders, f.id = c.id → f.userID ≠ userID)
      (l := db.childFolders userID (some folderID)) ?_ (b := ([], db)) ⟨h, .refl db⟩ hfold
    · obtain ⟨⟨h₁, hshrinks⟩, hchildren, -⟩ := hdone
      refine ⟨fun f hf => ?_, fun f hf hid huser => (DB.mem_deleteLevel.1 hf).2 ⟨hid, huser⟩⟩
      obtain ⟨hf, -⟩ := DB.mem_deleteLevel.1 hf
      refine DB.hasFolder_mono (h₁ f hf) fun p hp hpuser hfp => ?_
      refine ⟨p, DB.mem_deleteLevel.2 ⟨hp, ?_⟩, rfl, rfl⟩
      -- A folder in the deleted one is a child, and those are gone.
      rintro ⟨hpid, hpu⟩
      have hfuser : f.userID = userID := hpuser.symm.trans hpu
      refine hchildren f (List.mem_filter.2 ⟨hshrinks.folders f hf, ?_⟩) f hf rfl hfuser
      simp [hfuser, hfp, hpid]
    · rintro acc acc' c - ⟨hacc, hshrinks⟩ hstep
      simp only [Option.bind_eq_some_iff] at hstep
      obtain ⟨⟨childDeleted, db₂⟩, hrec, hstep⟩ := hstep
      obtain rfl := Option.some.inj hstep
      have hstepShrinks := DB.shrinks_deleteFolderTree hrec
      obtain ⟨horphans, hgone⟩ := ih hacc hrec
      exact ⟨⟨horphans, hshrinks.trans hstepShrinks⟩, hgone,
        fun x hx f hf => hx f (hstepShrinks.folders f hf)⟩

end Deletes

/-! ## What stays gone -/

/-- No row is left of the lineages that a step removed. -/
def FilesGone (st : ServiceStep) (s : Store) : Prop :=
  ∀ r ∈ removedFiles st, FileKnown s r ∧ ∀ f ∈ s.db.files, f.lineageRootID ≠ r.lineageRootID

/-- No row is left of the folders that a step removed. -/
def FoldersGone (st : ServiceStep) (s : Store) : Prop :=
  ∀ r ∈ removedFolders st, s.db.folders.Used r.id ∧ ∀ f ∈ s.db.folders, f.id ≠ r.id

section Calls

variable {s s' : Store} {q : Request} {α : Type} {e : Stmt α} {o : Oracle} {a : α} {st : ServiceStep}

theorem change_call (hx : exec o e s = some (a, s')) :
    change (.call s q o e a) = (s.db, s'.db) := by
  simp only [change, hx, Option.map_some, Option.getD_some]

theorem FilesGone.congr {t : Store} (h : FilesGone st s) (hdb : t.db = s.db) : FilesGone st t := by
  simpa only [FilesGone, FileKnown, hdb] using h

theorem FoldersGone.congr {t : Store} (h : FoldersGone st s) (hdb : t.db = s.db) :
    FoldersGone st t := by
  simpa only [FoldersGone, hdb] using h

/-- Files with the same lineage root are of one lineage. -/
theorem WellFormed.lineage_eq (hs : WellFormed s) {f g : File} (hf : FileKnown s f)
    (hg : FileKnown s g) (h : f.lineageRootID = g.lineageRootID) : f.lineage = g.lineage := by
  obtain ⟨b, hb, hid, -, huser⟩ := hs.rootKnown hf
  obtain ⟨b', hb', hid', -, huser'⟩ := hs.rootKnown hg
  obtain rfl : b = b' := Table.eq_of_birth hb hb' (hid.trans (h.trans hid'.symm))
  rw [File.lineage, File.lineage, h, ← huser, ← huser']

/-- A call keeps the ids of the file rows, or removes whole lineages. -/
theorem ids_kept_or_whole (hs : WellFormed s) (hw : CallKnown s q e)
    (hx : exec o e s = some (a, s')) :
    (∀ r ∈ s.db.files, ∃ f ∈ s'.db.files, f.id = r.id) ∨ s.db.LeavesWhole s'.db := by
  cases e with
  | write w =>
    obtain ⟨db', hrun, rfl⟩ := exec_write hx
    cases w with
    | deleteFile userID root =>
      obtain ⟨-, rfl⟩ | ⟨-, rfl⟩ := Write.deleteFile_cases hrun
      · exact Or.inr (.refl _)
      · exact Or.inr (DB.leavesWhole_deleteFiles fun f hf g hg hfg hdel =>
          hw.2.lineageFiles_closed hs hf hg hfg hdel.1)
    | deleteFolder userID folderID =>
      obtain ⟨-, rfl⟩ | ⟨versions, -, hd⟩ := Write.deleteFolder_cases hrun
      · exact Or.inr (.refl _)
      · exact Or.inr (DB.leavesWhole_deleteFolderTree hs hd)
    | _ => exact Or.inl fun r => Write.keeps_ids rfl hrun
  | _ =>
    rw [exec_db rfl hx]
    exact Or.inr (.refl _)

/-- After a delete, nothing is left of what it removed. -/
theorem filesGone_call (hs : WellFormed s) (hw : CallKnown s q e) (hx : exec o e s = some (a, s')) :
    FilesGone (.call s q o e a) s' := by
  intro r hr
  rw [removedFiles, change_call hx, Table.mem_minus] at hr
  obtain ⟨hr, hgone⟩ := hr
  refine ⟨(hs.file r hr).mono (exec_grows hx), fun f hf hroot => ?_⟩
  obtain hkept | hwhole := ids_kept_or_whole hs hw hx
  · obtain ⟨g, hg, hid⟩ := hkept r hr
    exact hgone g hg hid
  · have hfs := hwhole.toShrinks.files f hf
    have hlineage := hs.lineage_eq (hs.file r hr) (hs.file f hfs) hroot.symm
    exact hgone r (hwhole.whole r hr f hf hlineage) rfl

theorem foldersGone_call (hx : exec o e s = some (a, s')) : FoldersGone (.call s q o e a) s' := by
  intro r hr
  rw [removedFolders, change_call hx, Table.mem_minus] at hr
  exact ⟨(Table.used_of_mem hr.1).mono (exec_grows hx).folders, hr.2⟩

/-- No call brings a removed lineage back when saves and new versions find what they rely on. -/
theorem FilesGone.call (h : FilesGone st s) (hs : WellFormed s) (hw : CallKnown s q e)
    (hsave : saveFindsRow (.call s q o e a) = true)
    (hversion : newVersionFindsLineage (.call s q o e a) = true)
    (hx : exec o e s = some (a, s')) : FilesGone st s' := by
  intro r hr
  obtain ⟨hknown, hgone⟩ := h r hr
  refine ⟨hknown.mono (exec_grows hx), fun f hf hroot => ?_⟩
  obtain ⟨g, hg, b, rfl⟩ | hwrote := file_cases hx hf
  · exact hgone g hg hroot
  · cases e with
    | write w =>
      cases w with
      | createFile mk =>
        cases a with
        | error e => exact hwrote.elim
        | ok g =>
          -- The new row is its own root, under an id that no root had.
          obtain ⟨rfl, hu⟩ := hwrote
          obtain ⟨db', hrun, rfl⟩ := exec_write hx
          obtain ⟨ha, -⟩ | ⟨-, -, -, ha, -⟩ := Write.createFile_cases hrun
          · cases ha
          · have hp : f.parentID = none := by
              rw [Except.ok.inj ha]
              exact (hw o.uuid).1
            rw [File.lineageRootID, hp, Option.getD_none] at hroot
            obtain ⟨b, hb, hid, -⟩ := hs.rootKnown hknown
            exact hu (hroot ▸ Table.used_iff.2 ⟨b, hb, hid⟩)
      | presignVersion userID root mk =>
        cases a with
        | error e => exact hwrote.elim
        | ok g =>
          obtain ⟨rfl, -⟩ := hwrote
          obtain ⟨db', hrun, rfl⟩ := exec_write hx
          obtain ⟨ha, -⟩ | ⟨-, -, -, ha, -⟩ := Write.presignVersion_cases hrun
          · cases ha
          · obtain ⟨-, hrootKnown, hmk⟩ := hw
            have hfroot : f.lineageRootID = root := by
              rw [Except.ok.inj ha]
              show ((mk o.uuid).parentID).getD _ = root
              rw [(hmk o.uuid).2.2.1, Option.getD_some]
            obtain ⟨v, hv, hin⟩ := List.any_eq_true.1 hversion
            have hlineage := (hrootKnown.inLineage_iff (hs.file v hv)).1 hin
            have hvroot : v.lineageRootID = root := congrArg Prod.snd hlineage
            exact hgone v hv (hvroot.trans (hfroot.symm.trans hroot))
      | saveFile g =>
        cases a with
        | error e => exact hwrote.elim
        | ok u =>
          obtain rfl : f = s.db.savedRow g := hwrote
          obtain ⟨v, hv, hid⟩ := List.any_eq_true.1 hsave
          simp only [decide_eq_true_eq] at hid
          rw [DB.savedRow_of_mem hv hid] at hroot
          have hident := (hs.file v hv).identity_eq hw.2 hid
          exact hgone v hv ((lineageRootID_congr hident).trans hroot)
      | updateFile id u =>
        cases a with
        | error e => exact hwrote.elim
        | ok x =>
          obtain ⟨g, hg, -, rfl⟩ := hwrote
          exact hgone g hg hroot
      | _ => exact hwrote.elim
    | _ => exact hwrote.elim

theorem FoldersGone.call (h : FoldersGone st s) (hsave : saveFindsRow (.call s q o e a) = true)
    (hx : exec o e s = some (a, s')) : FoldersGone st s' := by
  intro r hr
  obtain ⟨hused, hgone⟩ := h r hr
  refine ⟨hused.mono (exec_grows hx).folders, fun f hf hid => ?_⟩
  obtain hf | hwrote := folder_cases hx hf
  · exact hgone f hf hid
  · cases e with
    | write w =>
      cases w with
      | createFolder name userID parentID =>
        cases a with
        | error e => exact hwrote.elim
        | ok g => exact hwrote.2 (hid ▸ hused)
      | saveFolder g =>
        cases a with
        | error e => exact hwrote.elim
        | ok u =>
          obtain rfl : f = g := hwrote
          obtain ⟨v, hv, hvf⟩ := List.any_eq_true.1 hsave
          simp only [decide_eq_true_eq] at hvf
          exact hgone v hv (hvf.trans hid)
      | _ => exact hwrote.elim
    | _ => exact hwrote.elim

/-- A folder is made in one that is there. -/
theorem parent_of_made (hsave : saveFindsRow (.call s q o e a) = true)
    (hcreate : createFindsParent (.call s q o e a) = true) (hx : exec o e s = some (a, s')) {f : Folder}
    (hf : f ∈ madeFolders (.call s q o e a)) {p : UUID} (hp : f.parentID = some p) :
    ∃ g ∈ s.db.folders, g.id = p := by
  rw [madeFolders, change_call hx, Table.mem_minus] at hf
  obtain ⟨hf, hnew⟩ := hf
  obtain hf | hwrote := folder_cases hx hf
  · exact absurd rfl (hnew f hf)
  · cases e with
    | write w =>
      cases w with
      | createFolder name userID parentID =>
        cases a with
        | error e => exact hwrote.elim
        | ok g =>
          obtain rfl : parentID = some p := hwrote.1.symm.trans hp
          obtain ⟨x, hx, hid, -⟩ := DB.hasFolder_some.1 hcreate
          exact ⟨x, hx, hid⟩
      | saveFolder g =>
        cases a with
        | error e => exact hwrote.elim
        | ok u =>
          obtain rfl : f = g := hwrote
          obtain ⟨v, hv, hvf⟩ := List.any_eq_true.1 hsave
          simp only [decide_eq_true_eq] at hvf
          exact absurd hvf (hnew v hv)
      | _ => exact hwrote.elim
    | _ => exact hwrote.elim

/-- Every folder stays in one that exists when new and saved folders find their parents. -/
theorem DB.NoOrphans.write {w : Write α} {a : Except DbError α} {db' : DB} (h : s.db.NoOrphans)
    (hs : WellFormed s) (hw : WriteKnown s q w)
    (hcreate : createFindsParent (.call s q o (.write w) a) = true)
    (hmove : moveFindsParent (.call s q o (.write w) a) = true)
    (hrun : w.run o s.issued s.db = some (a, db')) : db'.NoOrphans := by
  cases w with
  | createFolder name userID parentID =>
    obtain ⟨-, rfl⟩ | ⟨hu, rfl, rfl⟩ := Write.createFolder_cases hrun
    · exact h
    · have hmono : ∀ user id, s.db.hasFolder user id = true →
          ({ s.db with folders := s.db.folders.insert _ hu } : DB).hasFolder user id = true :=
        fun user id hid => DB.hasFolder_mono hid fun f hf _ _ =>
          ⟨f, (Table.mem_insert hu).2 (Or.inr hf), rfl, rfl⟩
      intro f hf
      rcases (Table.mem_insert hu).1 hf with rfl | hf
      · exact hmono _ _ hcreate
      · exact hmono _ _ (h f hf)
  | saveFolder g =>
    obtain ⟨-, rfl⟩ | ⟨rfl, rfl⟩ := Write.saveFolder_cases hrun
    · exact h
    · have hmono : ∀ user id, s.db.hasFolder user id = true →
          ({ s.db with folders := s.db.folders.save g } : DB).hasFolder user id = true := by
        refine fun user id hid => DB.hasFolder_mono hid fun f hf _ _ => ?_
        by_cases hfg : f.id = g.id
        · -- The owner of an id does not change.
          obtain ⟨b, hb, hbid, hbuser⟩ := (hs.folder f hf).1
          obtain ⟨b', hb', hbid', hbuser'⟩ := hw.2.1
          obtain rfl : b = b' := Table.eq_of_birth hb hb' (hbid.trans (hfg.trans hbid'.symm))
          exact ⟨g, Table.mem_save.2 (Or.inl rfl), hfg.symm, hbuser'.symm.trans hbuser⟩
        · exact ⟨f, Table.mem_save.2 (Or.inr ⟨hf, hfg⟩), rfl, rfl⟩
      intro f hf
      rcases Table.mem_save.1 hf with rfl | ⟨hf, -⟩
      · exact hmono _ _ hmove
      · exact hmono _ _ (h f hf)
  | deleteFolder userID folderID =>
    obtain ⟨-, rfl⟩ | ⟨versions, -, hd⟩ := Write.deleteFolder_cases hrun
    · exact h
    · exact (h.deleteFolderTree hd).1
  | _ =>
    obtain ⟨files, shares, tokens, rfl⟩ := Write.leaves_folders rfl hrun
    exact h

end Calls

/-! ## Every run -/

section Runs

variable {deps : Deps} {users : Table User} {c : Services}

/-- What the steps of a trace removed is gone, and no folder was made in it. -/
def AllGone (tr : List ServiceStep) (s : Store) : Prop :=
  (∀ st ∈ tr, FilesGone st s ∧ FoldersGone st s) ∧ tr.Pairwise fun later earlier =>
    ∀ r ∈ removedFolders earlier, ∀ f ∈ madeFolders later, f.parentID ≠ some r.id

theorem minus_self {ρ : Type} [Keyed ρ UUID] (t : Table ρ) : t.minus t = [] :=
  List.eq_nil_iff_forall_not_mem.2 fun r hr => (Table.mem_minus.1 hr).2 r (Table.mem_minus.1 hr).1 rfl

/-- A step that leaves the database alone. -/
theorem AllGone.unchanged {tr : List ServiceStep} {st : ServiceStep} {s s' : Store} (h : AllGone tr s)
    (hst : (change st).2 = (change st).1) (hdb : s'.db = s.db) : AllGone (st :: tr) s' := by
  obtain ⟨hgone, hpairs⟩ := h
  refine ⟨fun st' hst' => ?_, List.pairwise_cons.2 ⟨fun st' _ r _ f hf => ?_, hpairs⟩⟩
  · rcases List.mem_cons.1 hst' with rfl | hst'
    · constructor
      · intro r hr
        rw [removedFiles, hst, minus_self] at hr
        cases hr
      · intro r hr
        rw [removedFolders, hst, minus_self] at hr
        cases hr
    · exact ⟨(hgone st' hst').1.congr hdb, (hgone st' hst').2.congr hdb⟩
  · rw [madeFolders, hst, minus_self] at hf
    cases hf

theorem allGone_always (h : (services deps).Reaches Machine.anySchedule (start (Store.fresh users)) c)
    (hsave : ∀ st ∈ c.trace, saveFindsRow st = true)
    (hversion : ∀ st ∈ c.trace, newVersionFindsLineage st = true)
    (hcreate : ∀ st ∈ c.trace, createFindsParent st = true) : AllGone c.trace c.store := by
  have key := (provenance_valid deps).carry
    (J := fun tr s => (∀ st ∈ tr, saveFindsRow st = true ∧ newVersionFindsLineage st = true ∧
      createFindsParent st = true) → AllGone tr s)
    h (Outline.good_init (wellFormed_fresh users)) (fun _ _ => trivial) ?_ ?_ ?_ ?_
  · exact key fun st hst => ⟨hsave st hst, hversion st hst, hcreate st hst⟩
  · exact fun _ => ⟨fun _ hst => absurd hst List.not_mem_nil, List.Pairwise.nil⟩
  · intro tr q s s' hJ _ _ hq hC
    rw [services_launch] at hq
    exact (hJ fun st hst => hC st (List.mem_cons_of_mem _ hst)).unchanged rfl (launch_cases hq).1
  · intro tr q o α e a s s' hJ hs hw _ hx hC
    rw [services_exec] at hx
    obtain ⟨hgone, hpairs⟩ := hJ fun st hst => hC st (List.mem_cons_of_mem _ hst)
    obtain ⟨hc, hv, hp⟩ := hC _ List.mem_cons_self
    refine ⟨fun st hst => ?_, List.pairwise_cons.2 ⟨fun st hst r hr f hf hfr => ?_, hpairs⟩⟩
    · rcases List.mem_cons.1 hst with rfl | hst
      · exact ⟨filesGone_call hs hw hx, foldersGone_call hx⟩
      · exact ⟨(hgone st hst).1.call hs hw hc hv hx, (hgone st hst).2.call hc hx⟩
    · obtain ⟨g, hg, hid⟩ := parent_of_made hc hp hx hf hfr
      exact ((hgone st hst).2 r hr).2 g hg hid
  · intro tr v s s' hJ _ _ hv hC
    rw [services_env] at hv
    exact (hJ fun st hst => hC st (List.mem_cons_of_mem _ hst)).unchanged rfl (env_cases hv).1

/-- **Deletion is final**: in every run in which each save finds its row, each new version its lineage
and each new folder its parent.  When saved folders find their parents as well, no folder is left or
put under a removed one. -/
theorem deletion_final (deps : Deps) (users : Table User) {c : Services}
    (h : (services deps).Reaches Machine.anySchedule (start (Store.fresh users)) c)
    (hsave : ∀ st ∈ c.trace, saveFindsRow st = true)
    (hversion : ∀ st ∈ c.trace, newVersionFindsLineage st = true)
    (hcreate : ∀ st ∈ c.trace, createFindsParent st = true) :
    DeletionFinal c ∧ ((∀ st ∈ c.trace, moveFindsParent st = true) →
      ∀ st ∈ c.trace, ∀ r ∈ removedFolders st, ∀ f ∈ c.store.db.folders, f.parentID ≠ some r.id) := by
  have hs : WellFormed c.store := ((provenance_valid deps).good h
    (Outline.good_init (wellFormed_fresh users)) fun _ _ => trivial).1
  obtain ⟨hgone, hnew⟩ := allGone_always h hsave hversion hcreate
  refine ⟨⟨fun st hst r hr f hf => ?_, fun st hst r hr => ((hgone st hst).2 r hr).2, hnew⟩,
    fun hmove st hst r hr f hf hfr => ?_⟩
  · obtain ⟨hknown, hroots⟩ := (hgone st hst).1 r hr
    refine ⟨fun hid => hroots f hf ?_, fun hp => hroots f hf ?_, hroots f hf⟩
    · exact lineageRootID_congr ((hs.file f hf).identity_eq hknown hid)
    · -- A row that others name as their parent is a lineage root.
      obtain ⟨b, hb, hbf⟩ := hs.file f hf
      have hbp : b.parentID = some r.id := (congrArg File.Identity.parentID hbf).trans hp
      obtain ⟨x, hx, hxid, hxp, -⟩ := hs.root b hb r.id hbp
      have hxr := FileKnown.identity_eq ⟨x, hx, rfl⟩ hknown hxid
      have hrp : r.parentID = none := (congrArg File.Identity.parentID hxr).symm.trans hxp
      simp only [File.lineageRootID, hp, hrp, Option.getD_some, Option.getD_none]
  · have h₀ : (Store.fresh users).db.NoOrphans := fun _ hf => absurd hf Table.not_mem_empty
    obtain ⟨-, horphans⟩ := db_always deps users
      (C := fun st => createFindsParent st = true ∧ moveFindsParent st = true) h h₀
      (fun st hst => ⟨hcreate st hst, hmove st hst⟩)
      fun hc hs hw hinv hrun => hinv.write hs hw hc.1 hc.2 hrun
    obtain ⟨g, hg, hid, -⟩ := DB.hasFolder_some.1 (hfr ▸ horphans f hf)
    exact ((hgone st hst).2 r hr).2 g hg hid

end Runs

/-! ### A file and a folder deleted -/

/-- Alice has a folder with a text and a folder in it. -/
def uploadToTree : List (Move Request Oracle EnvMove) :=
  [.start (.createFolder 1 (some ⟨lit "A", none⟩)), .step 0 { uuid := 200 },
    .start (.createFolder 1 (some ⟨lit "B", some (text 200)⟩)), .step 1 {}, .step 1 { uuid := 201 },
    .start (.presign 1 (some ⟨lit "a.txt", 3, lit "text/plain", some (text 200)⟩)),
    .step 2 {}, .step 2 {}, .step 2 {}, .step 2 { uuid := 100 }, .step 2 {}, .step 2 {}]

/-- A rename is done before the folder is deleted, and a restore comes too late. -/
theorem deletion_final_deleteFolder :
    ∃ c : Services, (services plainDeps).Reaches Machine.anySchedule
      (start (Store.fresh aliceOnly)) c ∧ c.store.db.files.rows = [] ∧ c.store.db.folders.rows = [] ∧
      (c.trace.any fun st => (removedFiles st).length = 1 && (removedFolders st).length = 2) = true ∧
      DeletionFinal c := by
  obtain ⟨c, hc, hP⟩ := exists_run Machine.anySchedule
    (uploadToTree ++ [.start (.updateFile 1 (text 100) (some ⟨some (lit "b.txt"), none⟩)),
      .start (.restoreFileVersion 1 (text 100) (text 100)), .start (.deleteFolder 1 (text 200)),
      .step 3 {}, .step 4 {}, .step 4 {}, .step 3 {}, .step 5 {}, .step 5 { fuel := 3 },
      .step 4 {}])
    (fun c => c.store.db.files.rows = [] && (c.store.db.folders.rows = [] &&
      ((c.trace.any fun st => (removedFiles st).length = 1 && (removedFolders st).length = 2) &&
      c.trace.all fun st => saveFindsRow st && (newVersionFindsLineage st && createFindsParent st))))
    (by decide)
  simp only [Bool.and_eq_true, List.all_eq_true, decide_eq_true_eq] at hP
  obtain ⟨hfiles, hfolders, hremoved, hC⟩ := hP
  exact ⟨c, hc, hfiles, hfolders, by simpa using hremoved, (deletion_final plainDeps aliceOnly hc
    (fun st hst => (hC st hst).1) (fun st hst => (hC st hst).2.1) fun st hst => (hC st hst).2.2).1⟩

/-- A rename has read its row before the delete and saves it afterwards. -/
theorem deleted_returns :
    ∃ c : Services, (services plainDeps).Reaches Machine.anySchedule
      (start (Store.fresh aliceOnly)) c ∧ (∀ st ∈ c.trace, succeeds st = true) ∧
      ¬DeletionFinal c := by
  obtain ⟨c, hc, hP⟩ := exists_run Machine.anySchedule
    (uploadToTree ++ [.start (.updateFile 1 (text 100) (some ⟨some (lit "b.txt"), none⟩)),
      .step 3 {}, .start (.deleteFile 1 (text 100)), .step 4 {}, .step 4 {}, .step 4 {}, .step 3 {}])
    (fun c => c.trace.all succeeds && c.trace.any fun st => (removedFiles st).any fun r =>
      c.store.db.files.rows.any fun f => f.id = r.id)
    (by decide)
  simp only [Bool.and_eq_true, List.all_eq_true, List.any_eq_true, decide_eq_true_eq] at hP
  obtain ⟨hs, st, hst, r, hr, f, hf, hid⟩ := hP
  exact ⟨c, hc, hs, fun hfinal => (hfinal.files st hst r hr f hf).1 hid⟩

end Optiflow
