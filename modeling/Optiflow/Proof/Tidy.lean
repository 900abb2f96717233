import Optiflow.Proof.Folders
import Optiflow.Proof.Lineages

/-!
# A tidy tree

What browsing relies on, as an invariant of the database: lineages are in shape, the folder graph is
grounded, and every folder and every current file lies in a folder of its user that exists
(`DB.Tidy`).  When requests run one at a time each of them keeps it, with two exceptions: restoring a
version whose folder is gone, and finishing a resumable upload whose folder is gone
(`restoredFolderHere`, `finishedFolderHere`).
-/

namespace Optiflow

open Interleave Family ParentGraph UploadSvc ApiSvc

/-! ## The invariant -/

/-- The folder is none, or a folder row of the user. -/
def DB.hasFolder (db : DB) (userID : UUID) : Option UUID → Bool
  | none => true
  | some id => db.folders.rows.any fun f => f.id = id && f.userID = userID

structure DB.Tidy (db : DB) : Prop where
  lineages : db.Lineages
  grounded : ∀ z, Grounded db.parentOf z
  parents : ∀ f ∈ db.folders, db.hasFolder f.userID f.parentID = true
  files : ∀ f ∈ db.files, f.isCurrent = true → db.hasFolder f.userID f.folderID = true

/-- A restored version lies in a folder that exists. -/
def restoredFolderHere : ServiceStep → Bool
  | .call s _ _ (.write (.restoreVersion userID _ targetID)) _ =>
    s.db.files.rows.all fun g => g.id ≠ targetID || s.db.hasFolder userID g.folderID
  | _ => true

/-- A finished resumable upload goes to a folder that exists. -/
def finishedFolderHere : ServiceStep → Bool
  | .call s (.finishTusUpload _) o (.write (.createFile mk)) _ =>
    s.db.hasFolder (mk o.uuid).userID (mk o.uuid).folderID
  | _ => true

namespace DB

variable {db db' : DB}

@[simp] theorem hasFolder_none (userID : UUID) : db.hasFolder userID none = true := rfl

theorem hasFolder_some {userID id : UUID} :
    db.hasFolder userID (some id) = true ↔ ∃ f ∈ db.folders, f.id = id ∧ f.userID = userID := by
  simp [hasFolder, Table.mem_def]

/-- Folders that stay keep what lies in them in place. -/
theorem hasFolder_mono {userID : UUID} {folderID : Option UUID}
    (h : db.hasFolder userID folderID = true)
    (hf : ∀ f ∈ db.folders, f.userID = userID → folderID = some f.id →
      ∃ g ∈ db'.folders, g.id = f.id ∧ g.userID = f.userID) :
    db'.hasFolder userID folderID = true := by
  cases folderID with
  | none => rfl
  | some id =>
    obtain ⟨f, hmem, rfl, rfl⟩ := hasFolder_some.1 h
    exact hasFolder_some.2 (hf f hmem rfl rfl)

/-- Deleting whole lineages. -/
theorem Lineages.deleteFiles (h : db.Lineages) {userID : UUID} {ids : List UUID}
    (hwhole : ∀ f ∈ db.files, ∀ g ∈ db.files, f.lineage = g.lineage →
      f.id ∈ ids ∧ f.userID = userID → g.id ∈ ids ∧ g.userID = userID) :
    (db.deleteFiles userID ids).Lineages := by
  refine h.sep (fun f hf => (mem_deleteFiles.1 hf).1) fun f hf g hg hfg => ?_
  obtain ⟨hgmem, hgone⟩ := mem_deleteFiles.1 hg
  exact mem_deleteFiles.2 ⟨hf, fun hfdel => hgone (hwhole f hf g hgmem hfg hfdel)⟩

end DB

section Lineage

variable {s : Store} {userID root : UUID}

/-- The rows listed for a lineage are closed under the lineage. -/
theorem RootKnown.lineageFiles_closed (hroot : RootKnown s userID root) (hs : WellFormed s)
    {f g : File} (hf : f ∈ s.db.files) (hg : g ∈ s.db.files) (hfg : f.lineage = g.lineage)
    (hid : f.id ∈ (s.db.lineageFiles userID root).map File.id) :
    g.id ∈ (s.db.lineageFiles userID root).map File.id ∧ g.userID = userID := by
  obtain ⟨f', hf', hff'⟩ := List.mem_map.1 hid
  obtain ⟨hmem, hin⟩ := DB.mem_lineageFiles.1 hf'
  obtain rfl : f' = f := Table.eq_of_key hmem hf hff'
  have hgl := hfg.symm.trans ((hroot.inLineage_iff (hs.file f' hf)).1 hin)
  have hgin := (hroot.inLineage_iff (hs.file g hg)).2 hgl
  exact ⟨List.mem_map_of_mem (DB.mem_lineageFiles.2 ⟨hg, hgin⟩), congrArg Prod.fst hgl⟩

/-- The versions of the current files of a folder are closed under lineages. -/
theorem WellFormed.versions_closed (hs : WellFormed s) {folderID : Option UUID} {f g : File}
    (hf : f ∈ s.db.files) (hg : g ∈ s.db.files) (hfg : f.lineage = g.lineage)
    (hid : f.id ∈ ((s.db.currentFiles userID folderID).flatMap fun c =>
      s.db.lineageFiles userID c.lineageRootID).map File.id) :
    g.id ∈ ((s.db.currentFiles userID folderID).flatMap fun c =>
      s.db.lineageFiles userID c.lineageRootID).map File.id ∧ g.userID = userID := by
  rw [List.map_flatMap, List.mem_flatMap] at hid ⊢
  obtain ⟨c, hc, hid⟩ := hid
  have hcmem := List.mem_filter.1 hc
  simp only [Bool.and_eq_true, decide_eq_true_eq] at hcmem
  have hroot := hs.rootKnown (hs.file c hcmem.1)
  rw [hcmem.2.1.1] at hroot
  obtain ⟨hgid, hguser⟩ := hroot.lineageFiles_closed hs hf hg hfg hid
  exact ⟨⟨c, hc, hgid⟩, hguser⟩

end Lineage

/-! ## Deleting a folder -/

/-- A fold of partial steps: what holds all along, and what each member leaves done. -/
theorem foldlM_done {α β : Type} {P : β → Prop} {D : α → β → Prop} {f : β → α → Option β} :
    ∀ {l : List α}, (∀ b b', ∀ a ∈ l, P b → f b a = some b' → P b' ∧ D a b' ∧ ∀ x, D x b → D x b') →
      ∀ {b b' : β}, P b → l.foldlM f b = some b' →
        P b' ∧ (∀ a ∈ l, D a b') ∧ ∀ x, D x b → D x b'
  | [], _, b, b', hb, h => by
    obtain rfl := Option.some.inj h
    exact ⟨hb, fun _ ha => absurd ha List.not_mem_nil, fun _ hx => hx⟩
  | a :: l, hstep, b, b', hb, h => by
    rw [List.foldlM_cons] at h
    obtain ⟨b₁, h₁, h₂⟩ := Option.bind_eq_some_iff.1 h
    obtain ⟨hb₁, hdone, hold⟩ := hstep b b₁ a List.mem_cons_self hb h₁
    obtain ⟨hb', hall, hkeep⟩ :=
      foldlM_done (fun b b' x hx => hstep b b' x (List.mem_cons_of_mem _ hx)) hb₁ h₂
    refine ⟨hb', fun x hx => ?_, fun x hx => hkeep x (hold x hx)⟩
    rcases List.mem_cons.1 hx with rfl | hx
    · exact hkeep x hdone
    · exact hall x hx

section DeleteFolder

variable {s : Store} {db db' : DB} {userID folderID : UUID}

/-- The last part of `deleteFolderTree`: the folder has no subfolder left, the lineages of the current
files in it are deleted, and then the folder. -/
theorem DB.Tidy.deleteFolder (hs : WellFormed { s with db := db }) (h : db.Tidy)
    (howner : ∀ f ∈ db.folders, f.id = folderID → f.userID = userID)
    (hchild : ∀ f ∈ db.folders, f.parentID ≠ some folderID) :
    (db.deleteLevel userID folderID).Tidy := by
  set ids := (db.filesIn userID folderID).map File.id with hids
  have hfiles : ∀ f, f ∈ (db.deleteLevel userID folderID).files ↔
      f ∈ db.files ∧ ¬(f.id ∈ ids ∧ f.userID = userID) := fun _ => DB.mem_deleteFiles
  have hwhole : ∀ f ∈ db.files, ∀ g ∈ db.files, f.lineage = g.lineage →
      f.id ∈ ids ∧ f.userID = userID → g.id ∈ ids ∧ g.userID = userID :=
    fun f hf g hg hfg hdel => hs.versions_closed hf hg hfg hdel.1
  have hlineages : (db.deleteLevel userID folderID).Lineages := h.lineages.deleteFiles hwhole
  -- No current file is left in the folder.
  have hempty : ∀ f ∈ (db.deleteLevel userID folderID).files, f.isCurrent = true →
      f.folderID ≠ some folderID := by
    intro f hf hcur hfolder
    obtain ⟨hf, hgone⟩ := (hfiles f).1 hf
    obtain ⟨x, hx, hxid, hxuser⟩ := DB.hasFolder_some.1 (hfolder ▸ h.files f hf hcur)
    have huser : f.userID = userID := hxuser.symm.trans (howner x hx hxid)
    have hroot := hs.rootKnown (hs.file f hf)
    rw [huser] at hroot
    have hin : DB.inLineage userID f.lineageRootID f = true :=
      (hroot.inLineage_iff (hs.file f hf)).2 (by rw [File.lineage, huser])
    have hcurrent : f ∈ db.currentFiles userID (some folderID) :=
      List.mem_filter.2 ⟨hf, by simp [huser, hcur, hfolder]⟩
    refine hgone ⟨?_, huser⟩
    rw [hids, DB.filesIn, List.map_flatMap, List.mem_flatMap]
    exact ⟨f, hcurrent, List.mem_map_of_mem (DB.mem_lineageFiles.2 ⟨hf, hin⟩)⟩
  have hmem : ∀ f, f ∈ (db.deleteLevel userID folderID).folders ↔
      f ∈ db.folders ∧ f.id ≠ folderID := by
    intro f
    rw [DB.mem_deleteLevel]
    refine and_congr_right fun hf => ?_
    rw [not_and]
    exact ⟨fun hne hid => hne hid (howner f hf hid), fun hne hid => absurd hid hne⟩
  -- What lies elsewhere keeps its folder.
  have hkeep : ∀ user id, db.hasFolder user id = true → id ≠ some folderID →
      (db.deleteLevel userID folderID).hasFolder user id = true := by
    intro user id hid hne
    refine DB.hasFolder_mono hid fun f hf _ hfid => ⟨f, (hmem f).2 ⟨hf, fun he => hne ?_⟩, rfl, rfl⟩
    rw [hfid, he]
  refine ⟨hlineages, fun z => (h.grounded z).mono fun a b hab => ?_, fun f hf => ?_, fun f hf hcur => ?_⟩
  · obtain ⟨f, hf, hfa, hfb⟩ := DB.parentOf_eq_some.1 hab
    exact DB.parentOf_eq_some.2 ⟨f, ((hmem f).1 hf).1, hfa, hfb⟩
  · obtain ⟨hf, -⟩ := (hmem f).1 hf
    exact hkeep _ _ (h.parents f hf) (hchild f hf)
  · exact hkeep _ _ (h.files f ((hfiles f).1 hf).1 hcur) (hempty f hf hcur)

/-- Deleting a folder with everything below it. -/
theorem DB.Tidy.deleteFolderTree {fuel : ℕ} {versions : List File}
    (hs : WellFormed { s with db := db }) (h : db.Tidy)
    (howner : ∀ f ∈ db.folders, f.id = folderID → f.userID = userID)
    (hd : db.deleteFolderTree fuel userID folderID = some (versions, db')) :
    db'.Tidy ∧ ∀ f ∈ db'.folders, f.id ≠ folderID := by
  induction fuel generalizing db db' folderID versions with
  | zero => cases hd
  | succ fuel ih =>
    rw [DB.deleteFolderTree_succ] at hd
    obtain ⟨⟨deleted, db₁⟩, hfold, hd⟩ := Option.bind_eq_some_iff.1 hd
    obtain ⟨-, rfl⟩ := Prod.mk.inj (Option.some.inj hd)
    -- Each child leaves a tidy tree without its own row.
    have hdone := foldlM_done
      (P := fun acc : List File × DB => acc.2.Tidy ∧ db.Shrinks acc.2)
      (D := fun (c : Folder) (acc : List File × DB) => ∀ f ∈ acc.2.folders, f.id ≠ c.id)
      (l := db.childFolders userID (some folderID)) ?_ (b := ([], db)) ⟨h, .refl db⟩ hfold
    · obtain ⟨⟨h₁, hshrinks⟩, hchildren, -⟩ := hdone
      have hs₁ : WellFormed { s with db := db₁ } := hs.shrinks hshrinks
      have howner₁ : ∀ f ∈ db₁.folders, f.id = folderID → f.userID = userID :=
        fun f hf => howner f (hshrinks.folders f hf)
      refine ⟨h₁.deleteFolder hs₁ howner₁ fun f hf hp => ?_, fun f hf hid => ?_⟩
      · have hfdb := hshrinks.folders f hf
        obtain ⟨x, hx, hxid, hxuser⟩ := DB.hasFolder_some.1 (hp ▸ h.parents f hfdb)
        have huser : f.userID = userID := hxuser.symm.trans (howner x hx hxid)
        exact hchildren f (List.mem_filter.2 ⟨hfdb, by simp [huser, hp]⟩) f hf rfl
      · obtain ⟨hf, hgone⟩ := DB.mem_deleteLevel.1 hf
        exact hgone ⟨hid, howner₁ f hf hid⟩
    · rintro acc acc' c hc ⟨hacc, hshrinks⟩ hstep
      simp only [Option.bind_eq_some_iff] at hstep
      obtain ⟨⟨childDeleted, db₂⟩, hrec, hstep⟩ := hstep
      obtain rfl := Option.some.inj hstep
      obtain ⟨hcmem, hcp⟩ := List.mem_filter.1 hc
      simp only [Bool.and_eq_true, decide_eq_true_eq] at hcp
      have hstepShrinks := DB.shrinks_deleteFolderTree hrec
      have hcowner : ∀ f ∈ acc.2.folders, f.id = c.id → f.userID = userID := by
        intro f hf hid
        rw [Table.eq_of_key (hshrinks.folders f hf) hcmem hid]
        exact hcp.1
      obtain ⟨htidy, hgone⟩ := ih (hs.shrinks hshrinks) hacc hcowner hrec
      exact ⟨⟨htidy, hshrinks.trans hstepShrinks⟩, hgone,
        fun x hx f hf => hx f (hstepShrinks.folders f hf)⟩

end DeleteFolder

end Optiflow
