import Optiflow.Model.DeleteFolder
import Optiflow.Proof.Moves
import Optiflow.Proof.Growth
import Optiflow.Proof.OwnCalls
import Mathlib.Data.List.Nodup

/-!
# Deleting a folder

`deleteFolderTree` walks down the folders of a user and deletes, folder by folder, every version of the
files that are current there.  On a forest of folders and flat lineages it removes the subtree, the
lineages whose current row lies in it and their shares, and nothing else, and answers with each removed
row once (`folder_deletion_exact`).

What an unfinished deletion has removed is described by the set `X` of folder ids that it is done with
(`DB.Cut`).  The deletion of a folder adds the ids of its subtree to `X`.
-/

namespace Optiflow

open Interleave ParentGraph

/-! ## What is removed -/

/-- The folder is `folderID`, or reached from it through folders of the user. -/
def DB.InSubtree (db : DB) (userID folderID id : UUID) : Prop := Climbs (db.ownParent userID) id folderID

/-- Versions point at a root, a lineage belongs to one user, and one of its rows is current. -/
structure DB.FlatLineages (db : DB) : Prop where
  flat : ∀ f ∈ db.files, ∀ g ∈ db.files, f.parentID = some g.id → g.parentID = none
  user : ∀ f ∈ db.files, ∀ g ∈ db.files, f.lineageRootID = g.lineageRootID → f.userID = g.userID
  current : ∀ f ∈ db.files,
    ∃! g, g ∈ db.files ∧ g.lineageRootID = f.lineageRootID ∧ g.isCurrent = true

/-- The current row of the file's lineage is the user's and lies in one of the folders `X`. -/
def DB.GoesWith (db : DB) (userID : UUID) (X : UUID → Prop) (f : File) : Prop :=
  ∃ g ∈ db.files, g.userID = userID ∧ g.isCurrent = true ∧ g.lineageRootID = f.lineageRootID ∧
    ∃ x, g.folderID = some x ∧ X x

/-- `db'` is `db` without the user's folders `X` and what goes with them. -/
structure DB.Cut (db : DB) (userID : UUID) (X : UUID → Prop) (db' : DB) : Prop where
  users : db'.users = db.users
  folders : ∀ f, f ∈ db'.folders ↔ f ∈ db.folders ∧ ¬(f.userID = userID ∧ X f.id)
  files : ∀ f, f ∈ db'.files ↔ f ∈ db.files ∧ ¬db.GoesWith userID X f
  shares : ∀ sh, sh ∈ db'.shares ↔
    sh ∈ db.shares ∧ ¬∃ f ∈ db.files, f.id = sh.fileID ∧ db.GoesWith userID X f

/-- The list has each file that goes with `Y` and not with `X`, once. -/
structure DB.Collects (db : DB) (userID : UUID) (X Y : UUID → Prop) (l : List File) : Prop where
  nodup : l.Nodup
  mem : ∀ f, f ∈ l ↔ f ∈ db.files ∧ db.GoesWith userID Y f ∧ ¬db.GoesWith userID X f

namespace DB

variable {db db₁ db₂ : DB} {userID folderID : UUID} {X Y Z : UUID → Prop} {f g : File}

theorem GoesWith.mono (h : db.GoesWith userID X f) (hXY : ∀ x, X x → Y x) : db.GoesWith userID Y f := by
  obtain ⟨g, hg, huser, hcur, hroot, x, hx, hX⟩ := h
  exact ⟨g, hg, huser, hcur, hroot, x, hx, hXY x hX⟩

theorem GoesWith.congr (h : db.GoesWith userID X f) (hroot : f.lineageRootID = g.lineageRootID) :
    db.GoesWith userID X g := by
  obtain ⟨c, hc, huser, hcur, hcroot, hx⟩ := h
  exact ⟨c, hc, huser, hcur, hcroot.trans hroot, hx⟩

theorem Cut.empty (db : DB) (userID : UUID) : db.Cut userID (fun _ => False) db := by
  have hnone : ∀ f, ¬db.GoesWith userID (fun _ => False) f := fun _ ⟨_, _, _, _, _, _, _, h⟩ => h
  exact ⟨rfl, fun f => by simp, fun f => by simp [hnone], fun sh => by simp [hnone]⟩

theorem Collects.nil : db.Collects userID X X [] :=
  ⟨List.nodup_nil, fun _ => iff_of_false List.not_mem_nil fun h => h.2.2 h.2.1⟩

theorem Collects.append {l l' : List File} (h : db.Collects userID X Y l) (h' : db.Collects userID Y Z l')
    (hXY : ∀ x, X x → Y x) (hYZ : ∀ x, Y x → Z x) : db.Collects userID X Z (l ++ l') := by
  refine ⟨List.nodup_append'.2 ⟨h.nodup, h'.nodup, fun f hf hf' => ?_⟩, fun f => ?_⟩
  · exact ((h'.mem f).1 hf').2.2 ((h.mem f).1 hf).2.1
  · rw [List.mem_append, h.mem, h'.mem]
    constructor
    · rintro (⟨hf, hy, hx⟩ | ⟨hf, hz, hy⟩)
      · exact ⟨hf, hy.mono hYZ, hx⟩
      · exact ⟨hf, hz, fun hx => hy (hx.mono hXY)⟩
    · rintro ⟨hf, hz, hx⟩
      by_cases hy : db.GoesWith userID Y f
      · exact Or.inl ⟨hf, hy, hx⟩
      · exact Or.inr ⟨hf, hz, hy⟩

/-- In flat lineages the SELECT of a lineage finds the rows with that root. -/
theorem FlatLineages.inLineage_iff (h : db.FlatLineages) (hf : f ∈ db.files) (hg : g ∈ db.files)
    (huser : g.userID = userID) :
    inLineage userID g.lineageRootID f = true ↔ f.lineageRootID = g.lineageRootID := by
  rw [Optiflow.DB.inLineage_iff]
  constructor
  · rintro ⟨-, hid | hparent⟩
    · cases hp : g.parentID with
      | none =>
        have hroot : g.lineageRootID = g.id := by rw [File.lineageRootID, hp, Option.getD_none]
        rw [Table.eq_of_key hf hg (hid.trans hroot)]
      | some p =>
        have hroot : g.lineageRootID = p := by rw [File.lineageRootID, hp, Option.getD_some]
        have hfp : f.parentID = none := h.flat g hg f hf (by rw [hp, hid, hroot])
        rw [← hid, File.lineageRootID, hfp, Option.getD_none]
    · rw [File.lineageRootID, hparent, Option.getD_some]
  · intro hroot
    refine ⟨(h.user f hf g hg hroot).trans huser, ?_⟩
    rw [← hroot, File.lineageRootID]
    cases f.parentID with
    | none => exact Or.inl rfl
    | some p => exact Or.inr rfl

/-! ## One folder -/

theorem mem_currentFiles {folderID : Option UUID} : f ∈ db.currentFiles userID folderID ↔
    f ∈ db.files ∧ f.userID = userID ∧ f.isCurrent = true ∧ f.folderID = folderID := by
  refine List.mem_filter.trans (and_congr_right fun _ => ?_)
  simp [and_assoc]

/-- Once the folders `X` are gone, the files in one more folder are those that go with it. -/
theorem collects_filesIn (hl : db.FlatLineages) (hcut : db.Cut userID X db₁) (folderID : UUID) :
    db.Collects userID X (fun x => X x ∨ x = folderID) (db₁.filesIn userID folderID) := by
  have hmem : ∀ f, f ∈ db₁.filesIn userID folderID ↔ f ∈ db₁.files ∧ ∃ g ∈ db₁.files,
      g.userID = userID ∧ g.isCurrent = true ∧ g.folderID = some folderID ∧
        f.lineageRootID = g.lineageRootID := by
    intro f
    simp only [filesIn, List.mem_flatMap, mem_currentFiles, mem_lineageFiles]
    constructor
    · rintro ⟨g, ⟨hg, huser, hcur, hfolder⟩, hf, hin⟩
      exact ⟨hf, g, hg, huser, hcur, hfolder,
        (hl.inLineage_iff ((hcut.files f).1 hf).1 ((hcut.files g).1 hg).1 huser).1 hin⟩
    · rintro ⟨hf, g, hg, huser, hcur, hfolder, hroot⟩
      exact ⟨g, ⟨hg, huser, hcur, hfolder⟩, hf,
        (hl.inLineage_iff ((hcut.files f).1 hf).1 ((hcut.files g).1 hg).1 huser).2 hroot⟩
  refine ⟨?_, fun f => (hmem f).trans ⟨?_, ?_⟩⟩
  · -- Two current files of one lineage are the same.
    refine List.nodup_flatMap.2 ⟨fun g _ => ?_, ?_⟩
    · exact nodup_lineageFiles _ _
    · refine ((List.Nodup.of_map _ db₁.files.nodup).filter _).imp_of_mem
        fun {g g'} hg hg' hne f hf hf' => hne ?_
      obtain ⟨hg, huser, hcur, -⟩ := mem_currentFiles.1 hg
      obtain ⟨hg', huser', hcur', -⟩ := mem_currentFiles.1 hg'
      obtain ⟨hf, hin⟩ := mem_lineageFiles.1 hf
      obtain ⟨-, hin'⟩ := mem_lineageFiles.1 hf'
      have hf := ((hcut.files f).1 hf).1
      have hg := ((hcut.files g).1 hg).1
      have hg' := ((hcut.files g').1 hg').1
      rw [hl.inLineage_iff hf hg huser] at hin
      rw [hl.inLineage_iff hf hg' huser'] at hin'
      exact (hl.current f hf).unique ⟨hg, hin.symm, hcur⟩ ⟨hg', hin'.symm, hcur'⟩
  · rintro ⟨hf, g, hg, huser, hcur, hfolder, hroot⟩
    obtain ⟨hf, hX⟩ := (hcut.files f).1 hf
    exact ⟨hf, ⟨g, ((hcut.files g).1 hg).1, huser, hcur, hroot.symm, folderID, hfolder, Or.inr rfl⟩, hX⟩
  · rintro ⟨hf, ⟨g, hg, huser, hcur, hroot, x, hx, hxX | rfl⟩, hX⟩
    · exact absurd ⟨g, hg, huser, hcur, hroot, x, hx, hxX⟩ hX
    · refine ⟨(hcut.files f).2 ⟨hf, hX⟩, g, (hcut.files g).2 ⟨hg, fun h => hX (h.congr hroot)⟩, huser,
        hcur, hx, hroot.symm⟩

/-- The folder's own files and row are deleted. -/
theorem Cut.folder (hl : db.FlatLineages)
    (hshares : ∀ sh ∈ db.shares, ∀ f ∈ db.files, sh.fileID = f.id → sh.userID = f.userID)
    (hcut : db.Cut userID X db₁) (folderID : UUID) :
    db.Cut userID (fun x => X x ∨ x = folderID) (db₁.deleteLevel userID folderID) := by
  have hlists := collects_filesIn hl hcut folderID
  have hmono : ∀ f, db.GoesWith userID X f → db.GoesWith userID (fun x => X x ∨ x = folderID) f :=
    fun f h => h.mono fun x => Or.inl
  refine ⟨hcut.users, fun f => ?_, fun f => ?_, fun sh => ?_⟩
  · rw [mem_deleteLevel, hcut.folders]
    tauto
  · rw [(removes_deleteLevel db₁ userID folderID).files, hcut.files, hlists.mem]
    have := hmono f
    tauto
  · show sh ∈ (db₁.deleteShares _).shares ↔ _
    rw [mem_deleteShares, hcut.shares]
    rw [Bool.and_eq_false_iff, decide_eq_false_iff_not, decide_eq_false_iff_not, ← not_and_or, and_assoc,
      ← not_or]
    refine and_congr_right fun hsh => not_congr ⟨?_, ?_⟩
    · rintro (⟨f, hf, hid, hX⟩ | ⟨hmem, -⟩)
      · exact ⟨f, hf, hid, hmono f hX⟩
      · obtain ⟨f, hf, hid⟩ := List.mem_map.1 hmem
        obtain ⟨hf, hY, -⟩ := (hlists.mem f).1 hf
        exact ⟨f, hf, hid, hY⟩
    · rintro ⟨f, hf, hid, hY⟩
      by_cases hX : db.GoesWith userID X f
      · exact Or.inl ⟨f, hf, hid, hX⟩
      · have hmem := (hlists.mem f).2 ⟨hf, hY, hX⟩
        exact Or.inr ⟨List.mem_map.2 ⟨f, hmem, hid⟩,
          (hshares sh hsh f hf hid.symm).trans (mem_filesIn hmem).2⟩

/-! ## The tree -/

/-- Whoever climbs into `X` is in `X`. -/
def Down (db : DB) (userID : UUID) (X : UUID → Prop) : Prop :=
  ∀ x y, db.ownParent userID x = some y → X y → X x

theorem Down.climbs (h : db.Down userID X) {x y : UUID} (hxy : Climbs (db.ownParent userID) x y)
    (hy : X y) : X x := by
  induction hxy using Relation.ReflTransGen.head_induction_on with
  | refl => exact hy
  | head hab _ ih => exact h _ _ hab ih

theorem Down.add (h : db.Down userID X) (folderID : UUID) :
    db.Down userID fun x => X x ∨ db.InSubtree userID folderID x := by
  rintro x y hxy (hy | hy)
  · exact Or.inl (h x y hxy hy)
  · exact Or.inr (.head hxy hy)

/-- What the deletion of one folder does, on a database that other folders have gone from. -/
def DeletesSubtree (db : DB) (userID : UUID) (fuel : ℕ) : Prop :=
  ∀ X, db.Down userID X → ∀ db₁, db.Cut userID X db₁ → ∀ folderID deleted db₂,
    db₁.deleteFolderTree fuel userID folderID = some (deleted, db₂) →
      db.Cut userID (fun x => X x ∨ db.InSubtree userID folderID x) db₂ ∧
      db.Collects userID X (fun x => X x ∨ db.InSubtree userID folderID x) deleted

/-- The loop over the children adds their subtrees. -/
theorem deletesSubtree_children {fuel : ℕ} (ih : db.DeletesSubtree userID fuel) (l : List Folder) :
    ∀ X, db.Down userID X → ∀ db₁, db.Cut userID X db₁ → ∀ acc r,
      l.foldlM (fun (acc : List File × DB) child => (acc.2.deleteFolderTree fuel userID child.id).bind
        fun d => some (acc.1 ++ d.1, d.2)) (acc, db₁) = some r →
      ∃ more, r.1 = acc ++ more ∧
        db.Down userID (fun x => X x ∨ ∃ c ∈ l, db.InSubtree userID c.id x) ∧
        db.Cut userID (fun x => X x ∨ ∃ c ∈ l, db.InSubtree userID c.id x) r.2 ∧
        db.Collects userID X (fun x => X x ∨ ∃ c ∈ l, db.InSubtree userID c.id x) more := by
  induction l with
  | nil =>
    intro X hdown db₁ hcut acc r h
    obtain rfl := Option.some.inj h
    have hX : (fun x => X x ∨ ∃ c ∈ ([] : List Folder), db.InSubtree userID c.id x) = X := by
      funext x
      simp
    rw [hX]
    exact ⟨[], (List.append_nil acc).symm, hdown, hcut, .nil⟩
  | cons c l ihl =>
    intro X hdown db₁ hcut acc r h
    rw [List.foldlM_cons] at h
    obtain ⟨y, hy, h⟩ := Option.bind_eq_some_iff.1 h
    obtain ⟨d, hd, hy⟩ := Option.bind_eq_some_iff.1 hy
    obtain rfl := Option.some.inj hy
    obtain ⟨hcut', hlists⟩ := ih X hdown db₁ hcut c.id d.1 d.2 hd
    obtain ⟨more, hmore, hdown', hcut'', hlists'⟩ := ihl _ (hdown.add c.id) d.2 hcut' _ r h
    have hX : (fun x => (X x ∨ db.InSubtree userID c.id x) ∨ ∃ c ∈ l, db.InSubtree userID c.id x) =
        fun x => X x ∨ ∃ c' ∈ c :: l, db.InSubtree userID c'.id x := by
      funext x
      simp [or_assoc]
    rw [hX] at hdown' hcut'' hlists'
    refine ⟨d.1 ++ more, by rw [hmore, List.append_assoc], hdown', hcut'', ?_⟩
    refine hlists.append hlists' (fun x => Or.inl) fun x hx => ?_
    rw [← congrFun hX x]
    exact Or.inl hx

/-- Below a folder is what is below its children that are left, and what was gone already. -/
theorem inSubtree_children (hdown : db.Down userID X) (hcut : db.Cut userID X db₁) (folderID x : UUID) :
    ((X x ∨ ∃ c ∈ db₁.childFolders userID (some folderID), db.InSubtree userID c.id x) ∨ x = folderID) ↔
      X x ∨ db.InSubtree userID folderID x := by
  have hchild : ∀ c, c ∈ db₁.childFolders userID (some folderID) ↔
      c ∈ db₁.folders ∧ c.userID = userID ∧ c.parentID = some folderID := fun c =>
    List.mem_filter.trans (and_congr_right fun _ => by simp)
  constructor
  · rintro ((hx | ⟨c, hc, hx⟩) | rfl)
    · exact Or.inl hx
    · obtain ⟨hc, huser, hp⟩ := (hchild c).1 hc
      have hup := ownParent_of_mem ((hcut.folders c).1 hc).1 huser
      exact Or.inr (Relation.ReflTransGen.tail hx (hup.trans hp))
    · exact Or.inr .refl
  · rintro (hx | hx)
    · exact Or.inl (Or.inl hx)
    · obtain rfl | ⟨y, hxy, hy⟩ := Relation.ReflTransGen.cases_tail hx
      · exact Or.inr rfl
      · obtain ⟨c, hc, rfl, huser, hp⟩ := ownParent_eq_some.1 hy
        by_cases hX : X c.id
        · exact Or.inl (Or.inl (hdown.climbs hxy hX))
        · have hc := (hcut.folders c).2 ⟨hc, fun h => hX h.2⟩
          exact Or.inl (Or.inr ⟨c, (hchild c).2 ⟨hc, huser, hp⟩, hxy⟩)

/-- **The deletion of a folder adds its subtree.** -/
theorem deletesSubtree (hl : db.FlatLineages)
    (hshares : ∀ sh ∈ db.shares, ∀ f ∈ db.files, sh.fileID = f.id → sh.userID = f.userID) (fuel : ℕ) :
    db.DeletesSubtree userID fuel := by
  induction fuel with
  | zero => exact fun _ _ _ _ _ _ _ h => by cases h
  | succ fuel ih =>
    intro X hdown db₁ hcut folderID deleted db₂ h
    rw [deleteFolderTree_succ] at h
    obtain ⟨r, hfold, h⟩ := Option.bind_eq_some_iff.1 h
    obtain ⟨more, hmore, -, hcut', hlists⟩ := deletesSubtree_children ih _ X hdown db₁ hcut [] r hfold
    have hX := funext fun x => propext (inSubtree_children hdown hcut folderID x)
    have hfiles := collects_filesIn hl hcut' folderID
    have hrow := hcut'.folder hl hshares folderID
    rw [hX] at hfiles hrow
    obtain ⟨rfl, rfl⟩ := Prod.mk.inj (Option.some.inj h)
    refine ⟨hrow, ?_⟩
    rw [hmore, List.nil_append]
    refine hlists.append hfiles (fun x => Or.inl) fun x hx => ?_
    rw [← congrFun hX x]
    exact Or.inl hx

end DB

/-! ## The transaction -/

/-- What is left after a folder of the user is deleted, and what the deletion answers. -/
structure DB.SubtreeDeleted (db : DB) (userID folderID : UUID) (deleted : List File) (db' : DB) :
    Prop where
  folders : ∀ f, f ∈ db'.folders ↔
    f ∈ db.folders ∧ ¬(f.userID = userID ∧ db.InSubtree userID folderID f.id)
  files : ∀ f, f ∈ db'.files ↔
    f ∈ db.files ∧ ¬db.GoesWith userID (db.InSubtree userID folderID) f
  shares : ∀ sh, sh ∈ db'.shares ↔ sh ∈ db.shares ∧ ¬∃ f ∈ deleted, f.id = sh.fileID
  others : db.SameOthers userID db'
  nodup : deleted.Nodup
  mem : ∀ f, f ∈ deleted ↔ f ∈ db.files ∧ f ∉ db'.files

theorem DB.subtreeDeleted {db db' : DB} {userID folderID : UUID} (hl : db.FlatLineages)
    (hshares : ∀ sh ∈ db.shares, ∀ f ∈ db.files, sh.fileID = f.id → sh.userID = f.userID) {fuel : ℕ}
    {deleted : List File} (h : db.deleteFolderTree fuel userID folderID = some (deleted, db')) :
    db.SubtreeDeleted userID folderID deleted db' := by
  obtain ⟨hcut, hlists⟩ := deletesSubtree hl hshares fuel (fun _ => False) (fun _ _ _ h => h) db
    (.empty db userID) folderID deleted db' h
  have hX : (fun x => False ∨ db.InSubtree userID folderID x) = db.InSubtree userID folderID :=
    funext fun _ => false_or _
  rw [hX] at hcut hlists
  have hnone : ∀ f, ¬db.GoesWith userID (fun _ => False) f := fun _ ⟨_, _, _, _, _, _, _, h⟩ => h
  have hmem : ∀ f, f ∈ deleted ↔ f ∈ db.files ∧ db.GoesWith userID (db.InSubtree userID folderID) f :=
    fun f => by rw [hlists.mem, and_iff_left (hnone f)]
  refine ⟨hcut.folders, hcut.files, fun sh => ?_, (sameOthers_deleteFolderTree h).1, hlists.nodup,
    fun f => ?_⟩
  · rw [hcut.shares]
    refine and_congr_right fun _ => not_congr ⟨?_, ?_⟩
    · rintro ⟨f, hf, hid, hgoes⟩
      exact ⟨f, (hmem f).2 ⟨hf, hgoes⟩, hid⟩
    · rintro ⟨f, hf, hid⟩
      exact ⟨f, ((hmem f).1 hf).1, hid, ((hmem f).1 hf).2⟩
  · rw [hmem, hcut.files]
    tauto

/-- If a call is the deletion of a folder, it fails. -/
def folderDeleteFails : ServiceStep → Bool
  | .call _ _ o (.write (.deleteFolder _ _)) _ => o.fails
  | _ => true

/-- The write of the services' machine is this transaction: it fails when a statement does. -/
theorem deleteFolder_run_of_recursive {fault : ℕ → Option DbError} {fuel m : ℕ} {userID folderID : UUID}
    {db db' : DB} {issued : List UUID} {r : Except DbError (List File)}
    (hends : (db.deleteFolderTree fuel userID folderID).isSome = true)
    (h : ApiSvc.deleteFolderRecursive fault fuel userID folderID db = some (r, m, db')) :
    ∃ o, (Write.deleteFolder userID folderID).run o issued db =
      some (r.mapError fun _ => .other, db') := by
  obtain ⟨⟨deleted, after⟩, hd⟩ := Option.isSome_iff_exists.1 hends
  obtain ⟨r', m', t, hrun, hok, hfail⟩ :=
    (ApiSvc.does_deleteFolderTree userID fuel folderID).transaction fault hd
  obtain ⟨rfl, rfl, rfl⟩ : r' = r ∧ m' = m ∧ t = db' := by
    simpa using hrun.symm.trans h
  by_cases hnone : ∀ i < m', fault i = none
  · obtain ⟨rfl, rfl⟩ := hok hnone
    exact ⟨{ fuel := fuel }, by simp [Write.run, Write.commit, hd, Except.mapError]⟩
  · simp only [not_forall] at hnone
    obtain ⟨i, hi, hfault⟩ := hnone
    obtain ⟨⟨e, rfl⟩, rfl⟩ := hfail ⟨i, hi, hfault⟩
    exact ⟨{ fails := true }, rfl⟩

section Request

variable {deps : Deps} {s : Store} {q : Request}

/-- Removing objects leaves the database alone, and goes on. -/
theorem alone_cleanupFiles {C : ServiceStep → Prop} {versions : List File} {k : Unit → Prog Stmt Reply}
    {Ψ : Reply → Store → Prop} (h : ∀ t : Store, t.db = s.db → Alone deps C q (k ()) t Ψ) :
    Alone deps C q (ApiSvc.cleanupFiles versions k) s Ψ := by
  have hpassing : Passing false (ApiSvc.cleanupFiles versions) := passing_cleanupFiles versions
  exact alone_over _ hpassing (fun _ _ hr => hr.elim) fun _ => h

/-- A deletion that is answered with 204 has deleted the subtree, any other answer leaves all as it was. -/
def LeavesSubtree (s : Store) (userID folderID : UUID) (r : Reply) (t : Store) : Prop :=
  (r = .noContent ∧ ∃ deleted, s.db.SubtreeDeleted userID folderID deleted t.db) ∨
    (r ≠ .noContent ∧ t = s)

theorem alone_deleteFolder {userID folderID : UUID} {id : GoString} (hid : UUID.parse id = some folderID)
    (hl : s.db.FlatLineages)
    (hshares : ∀ sh ∈ s.db.shares, ∀ f ∈ s.db.files, sh.fileID = f.id → sh.userID = f.userID) :
    Alone deps (fun _ => True) q (ApiSvc.deleteFolder userID id .ret) s
      (LeavesSubtree s userID folderID) := by
  have herror : ∀ status message, LeavesSubtree s userID folderID (.error status message) s :=
    fun _ _ => Or.inr ⟨by simp, rfl⟩
  simp only [ApiSvc.deleteFolder, Code.bind_apply, Code.pure_apply]
  rw [parseID_apply hid]
  refine alone_query fun o _ => ?_
  refine Early.foundOr (P := fun p => Alone deps (fun _ => True) q p s (LeavesSubtree s userID folderID))
    herror fun _ _ => ?_
  refine alone_write fun o' a db' _ hw => ?_
  obtain ⟨rfl, rfl⟩ | ⟨deleted, rfl, hd⟩ := Write.deleteFolder_cases hw
  · exact herror _ _
  · refine alone_cleanupFiles fun t ht => Or.inl ⟨rfl, deleted, ?_⟩
    rw [ht]
    exact DB.subtreeDeleted hl hshares hd

/-- A deletion whose transaction fails is not answered with 204. -/
theorem alone_deleteFolder_fails (userID : UUID) (id : GoString) :
    Alone deps (fun st => folderDeleteFails st = true) q (ApiSvc.deleteFolder userID id .ret) s
      fun r _ => r ≠ .noContent := by
  have herror : ∀ status message, Alone deps (fun st => folderDeleteFails st = true) q
      (.ret (Reply.error status message)) s fun r _ => r ≠ .noContent := fun _ _ h => by cases h
  refine Early.parseID (P := fun p => Alone deps _ q p s fun r _ => r ≠ .noContent) herror
    fun folderID _ => alone_query fun o _ => ?_
  refine Early.foundOr (P := fun p => Alone deps _ q p s fun r _ => r ≠ .noContent) herror fun _ _ => ?_
  refine alone_write fun o' a db' ho hw => ?_
  have hfails : o'.fails = true := ho
  rw [Write.run, if_pos hfails] at hw
  obtain ⟨rfl, rfl⟩ := Prod.mk.inj (Option.some.inj hw)
  exact fun h => by cases h

end Request

/-- **Deleting a folder removes exactly its subtree.**  The folders of the user have no cycle, lineages
are flat, and shares belong to the users of their files.  The transaction ends whatever statements
fail: with the subtree deleted when none does, and else with an error and the tables as they were; this
is what the write of the services' machine does.  A request that is not answered with 204 has changed
nothing. -/
theorem folder_deletion_exact (deps : Deps) {s : Store} {userID folderID : UUID}
    (hforest : Acyclic (s.db.ownParent userID)) (hl : s.db.FlatLineages)
    (hshares : ∀ sh ∈ s.db.shares, ∀ f ∈ s.db.files, sh.fileID = f.id → sh.userID = f.userID) :
    (∃ n, ∀ fuel, n ≤ fuel → ∀ fault, ∃ r m db',
      ApiSvc.deleteFolderRecursive fault fuel userID folderID s.db = some (r, m, db') ∧
      ((∀ i < m, fault i = none) →
        ∃ deleted, r = .ok deleted ∧ s.db.SubtreeDeleted userID folderID deleted db') ∧
      ((∃ i < m, fault i ≠ none) → (∃ e, r = .error e) ∧ db' = s.db) ∧
      ∀ issued, ∃ o, (Write.deleteFolder userID folderID).run o issued s.db =
        some (r.mapError fun _ => .other, db')) ∧
    ∀ id tr r t, UUID.parse id = some folderID →
      (services deps).Finishes (.deleteFolder userID id)
        ((services deps).handler (.deleteFolder userID id)) s tr r t →
      LeavesSubtree s userID folderID r t ∧
        ((∀ st ∈ tr, folderDeleteFails st = true) → r ≠ .noContent) := by
  refine ⟨?_, fun id tr r t hid hrun => ?_⟩
  · obtain ⟨n, hn⟩ := deleteFolderTree_ends hforest.grounded folderID
    refine ⟨n, fun fuel hfuel fault => ?_⟩
    obtain ⟨⟨deleted, db'⟩, hd⟩ := Option.isSome_iff_exists.1 (hn fuel hfuel _ (.refl _))
    obtain ⟨r, m, t, hrun, hok, hfail⟩ :=
      (ApiSvc.does_deleteFolderTree userID fuel folderID).transaction fault hd
    refine ⟨r, m, t, hrun, fun hnone => ?_, hfail, fun issued =>
      deleteFolder_run_of_recursive (Option.isSome_iff_exists.2 ⟨_, hd⟩) hrun⟩
    obtain ⟨rfl, rfl⟩ := hok hnone
    exact ⟨deleted, rfl, DB.subtreeDeleted hl hshares hd⟩
  · exact ⟨hrun.of_ends (alone_deleteFolder hid hl hshares) fun _ _ => trivial,
      hrun.of_ends (alone_deleteFolder_fails userID id)⟩

/-! ### A file that has moved down -/

/-- The first version lies in the outer folder, the current one in the inner folder. -/
def movedVersion (id : UUID) (parentID : Option UUID) (folderID : UUID) (version : ℕ) (isCurrent : Bool) :
    File where
  id := id
  name := lit "a.txt"
  userID := 1
  folderID := some folderID
  storageKey := UploadSvc.storageKey 1 id (lit "a.txt")
  sizeBytes := 3
  mimeType := lit "text/plain"
  status := .ready
  version := version
  isCurrent := isCurrent
  parentID := parentID

def movedVersions : List File :=
  [movedVersion 100 none 200 1 false, movedVersion 101 (some 100) 201 2 true]

def movedStore : Store :=
  { nestedStore with
    db :=
      { nestedStore.db with
        files := ⟨movedVersions, movedVersions, by decide, by decide, by decide⟩ } }

theorem movedStore_flat : movedStore.db.FlatLineages where
  flat := show ∀ f ∈ movedVersions, ∀ g ∈ movedVersions, f.parentID = some g.id → g.parentID = none by
    decide
  user := show ∀ f ∈ movedVersions, ∀ g ∈ movedVersions, f.lineageRootID = g.lineageRootID →
    f.userID = g.userID by decide
  current f hf := by
    have hroot : ∀ g ∈ movedVersions, g.lineageRootID = 100 := by decide
    have hcur : ∀ g ∈ movedVersions, g.isCurrent = true → g = movedVersion 101 (some 100) 201 2 true := by
      decide
    have hmem : movedVersion 101 (some 100) 201 2 true ∈ movedVersions := by decide
    exact ⟨_, ⟨hmem, (hroot f hf).symm, rfl⟩, fun g hg => hcur g hg.1 hg.2.2⟩

/-- The inner folder goes with both versions. -/
theorem folder_deletion_exact_moved :
    ∃ fuel m deleted db', ApiSvc.deleteFolderRecursive (fun _ => none) fuel 1 201 movedStore.db =
        some (.ok deleted, m, db') ∧ movedStore.db.SubtreeDeleted 1 201 deleted db' := by
  obtain ⟨⟨n, hn⟩, -⟩ := @folder_deletion_exact plainDeps movedStore 1 201 nestedStore_acyclic
    movedStore_flat fun _ h => absurd h List.not_mem_nil
  obtain ⟨r, m, db', hrun, hok, -⟩ := hn n le_rfl fun _ => none
  obtain ⟨deleted, rfl, hdeleted⟩ := hok fun _ _ => rfl
  exact ⟨n, m, deleted, db', hrun, hdeleted⟩

end Optiflow
