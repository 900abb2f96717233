import Optiflow.Lib.Family
import Optiflow.Proof.KnownCalls
import Optiflow.Proof.Rows
import Optiflow.Proof.Runs

/-!
# Version lineages

The versions of a logical file form a lineage.  One of them should be current, and their numbers
should differ.  Both rest on what requests have read outside their transactions: the `is_current` of
the struct that a save writes back, and the highest version from which a new one is numbered.  A run
without deletions in which nobody else changes these between read and write keeps every lineage in
shape (`lineages_keep_shape`).
-/

namespace Optiflow

open Interleave Family ApiSvc UploadSvc

/-! ## The property -/

/-- Exactly one row of the lineage is current, and no two rows have the same version. -/
structure DB.LineageShape (db : DB) (userID root : UUID) : Prop where
  current : ∃! f, f ∈ db.lineageFiles userID root ∧ f.isCurrent = true
  versions : ((db.lineageFiles userID root).map File.version).Nodup

/-- Nothing is deleted. -/
def deletesNothing : ServiceStep → Bool
  | .call _ _ _ (.write (.deleteFile _ _)) _ => false
  | .call _ _ _ (.write (.deleteFolder _ _)) _ => false
  | _ => true

/-- The `is_current` of a row. -/
def DB.isCurrent? (db : DB) (id : UUID) : Option Bool := (db.files.get? id).map File.isCurrent

/-- What a request has read and is still to use: `updateFile` and `complete`, between their SELECT and
their save, the `is_current` of the row, and `presignVersion`, between its last SELECT and its
transaction, the highest version of the lineage. -/
def lineageView (th : Thread Request Stmt Reply) (s : Store) : Option Bool × Option ℕ :=
  match th.origin, th.prog with
  | .updateFile _ id _, .call (.query (.folder _ _)) _ => ((UUID.parse id).bind s.db.isCurrent?, none)
  | .complete _ id, .call (.bucket (.statObject _)) _ => ((UUID.parse id).bind s.db.isCurrent?, none)
  | _, .call (.write (.saveFile f)) _ => (s.db.isCurrent? f.id, none)
  | _, .call (.write (.presignVersion userID root _)) _ =>
    (none, ((Query.maxVersion userID root).eval s.db).toOption)
  | _, _ => (none, none)

/-- Nobody else changes what a request has read and is still to use. -/
def lineageWatch (deps : Deps) : Watch (services deps) := .ofView (services deps) lineageView

/-! ## Lineages as families -/

/-- The user and the lineage root of a row. -/
def File.lineage (f : File) : UUID × UUID := (f.userID, f.lineageRootID)

/-- The rows, as families of versions. -/
def DB.Lineages (db : DB) : Prop :=
  Shaped File.lineage File.version (fun f => f.isCurrent = true) {f | f ∈ db.files}

theorem lineage_congr {f g : File} (h : f.identity = g.identity) : f.lineage = g.lineage := by
  have huser : f.userID = g.userID := congrArg File.Identity.userID h
  simp only [File.lineage, huser, lineageRootID_congr h]

variable {s : Store}

/-- The rows that the statements select by user and root are those of the lineage. -/
theorem RootKnown.inLineage_iff {userID root : UUID} (h : RootKnown s userID root) {f : File}
    (hf : FileKnown s f) : DB.inLineage userID root f = true ↔ f.lineage = (userID, root) := by
  obtain ⟨r, hr, rfl, hrp, -⟩ := h
  obtain ⟨b, hb, hbf⟩ := hf
  have hparent : b.parentID = f.parentID := congrArg File.Identity.parentID hbf
  have hid : b.id = f.id := congrArg File.Identity.id hbf
  rw [DB.inLineage_iff, File.lineage, Prod.mk.injEq]
  refine and_congr_right fun _ => ⟨?_, fun h => ?_⟩
  · rintro (h | h)
    · obtain rfl : b = r := Table.eq_of_birth hb hr (hid.trans h)
      simp only [File.lineageRootID, ← hparent, hrp, Option.getD_none, h]
    · simp [File.lineageRootID, h]
  · cases hp : f.parentID with
    | none =>
      rw [File.lineageRootID, hp] at h
      exact Or.inl h
    | some p =>
      rw [File.lineageRootID, hp] at h
      exact Or.inr (congrArg some h)

/-- Every row of a lineage that is in shape. -/
theorem DB.Lineages.lineageShape (h : s.db.Lineages) (hs : WellFormed s) {f : File}
    (hf : f ∈ s.db.files) : s.db.LineageShape f.userID f.lineageRootID := by
  have hroot := hs.rootKnown (hs.file f hf)
  have hmem : ∀ g, g ∈ s.db.lineageFiles f.userID f.lineageRootID ↔
      g ∈ s.db.files ∧ g.lineage = f.lineage := fun g => by
    rw [DB.mem_lineageFiles]
    exact and_congr_right fun hg => hroot.inLineage_iff (hs.file g hg)
  constructor
  · obtain ⟨g, ⟨hg, hgf, hcur⟩, huniq⟩ := h.current f hf
    refine ⟨g, ⟨(hmem g).2 ⟨hg, hgf⟩, hcur⟩, ?_⟩
    rintro x ⟨hx, hxcur⟩
    obtain ⟨hx, hxf⟩ := (hmem x).1 hx
    exact huniq x ⟨hx, hxf, hxcur⟩
  · refine List.Nodup.map_on (fun x hx y hy hxy => ?_) (DB.nodup_lineageFiles _ _)
    obtain ⟨hx, hxf⟩ := (hmem x).1 hx
    obtain ⟨hy, hyf⟩ := (hmem y).1 hy
    exact h.injective x hx y hy (hxf.trans hyf.symm) hxy

/-! ## The writes -/

/-- Every file that was born still has its row. -/
def DB.AllPresent (db : DB) : Prop := ∀ b ∈ db.files.births, ∃ f ∈ db.files, f.id = b.id

/-- The row under the id of a known file has its identity. -/
theorem DB.AllPresent.exists_row (h : s.db.AllPresent) (hs : WellFormed s) {f : File}
    (hf : FileKnown s f) :
    ∃ r ∈ s.db.files, r.id = f.id ∧ r.identity = f.identity := by
  obtain ⟨b, hb, hbf⟩ := hf
  obtain ⟨r, hr, hrb⟩ := h b hb
  have hid : r.id = f.id := hrb.trans (congrArg File.Identity.id hbf)
  exact ⟨r, hr, hid, (hs.file r hr).identity_eq ⟨b, hb, hbf⟩ hid⟩

section Writes

variable {db : DB}

/-- The rows after a change of the rows one by one. -/
theorem rows_eq_image {files : Table File} {φ : File → File}
    (h : ∀ g, g ∈ files ↔ ∃ f ∈ db.files, g = φ f) :
    {g | g ∈ files} = φ '' {f | f ∈ db.files} := by
  ext g
  simp only [Set.mem_ofPred_eq, h, Set.mem_image, eq_comm]

/-- A new logical file is a new lineage. -/
theorem DB.Lineages.createFile (h : s.db.Lineages) (hs : WellFormed s) {f : File}
    (hu : ¬s.db.files.Used (key f)) (hp : f.parentID = none) (hcur : f.isCurrent = true) :
    Shaped File.lineage File.version (fun f => f.isCurrent = true)
      {g | g ∈ s.db.files.insert f hu} := by
  have hrows : {g | g ∈ s.db.files.insert f hu} = insert f {g | g ∈ s.db.files} := by
    ext g
    exact Table.mem_insert hu
  rw [hrows]
  refine h.insert hcur fun g hg he => hu ?_
  have hroot : g.lineageRootID = f.id := by
    have hfid : f.lineageRootID = f.id := by simp [File.lineageRootID, hp]
    exact (congrArg Prod.snd he).trans hfid
  have hknown := hs.rootKnown (hs.file g hg)
  rw [hroot] at hknown
  obtain ⟨b, hb, hid, -⟩ := hknown
  exact Table.used_iff.2 ⟨b, hb, hid⟩

/-- A new version becomes the current one. -/
theorem DB.Lineages.presignVersion (h : s.db.Lineages) (hs : WellFormed s) {userID root : UUID}
    (hroot : RootKnown s userID root) {f : File}
    (hu : ¬(s.db.supersede userID root).files.Used (key f)) (huser : f.userID = userID)
    (hp : f.parentID = some root) (hcur : f.isCurrent = true)
    (hver : ∀ g ∈ s.db.files, DB.inLineage userID root g = true → g.version < f.version) :
    Shaped File.lineage File.version (fun f => f.isCurrent = true)
      {g | g ∈ (s.db.supersede userID root).files.insert f hu} := by
  have hrows : {g | g ∈ (s.db.supersede userID root).files.insert f hu} =
      insert f ((fun g => if DB.inLineage userID root g then g.withCurrent false else g) ''
        {g | g ∈ s.db.files}) := by
    rw [← rows_eq_image fun g => DB.mem_supersede]
    ext g
    exact Table.mem_insert hu
  have hlineage : f.lineage = (userID, root) := by
    rw [File.lineage, huser, File.lineageRootID, hp]
    rfl
  rw [hrows]
  refine h.succeed hcur (fun g _ => ?_) (fun g _ => ?_) (fun g hg he => ?_) fun g hg he => ?_
  · split <;> rfl
  · split <;> rfl
  · have hin := (hroot.inLineage_iff (hs.file g hg)).2 (he.trans hlineage)
    rw [if_pos hin]
    exact ⟨Bool.false_ne_true, (hver g hg hin).ne⟩
  · have hin : ¬DB.inLineage userID root g = true := fun hin =>
      he (((hroot.inLineage_iff (hs.file g hg)).1 hin).trans hlineage.symm)
    rw [if_neg hin]

/-- The row under a known id of a lineage belongs to it. -/
theorem VersionKnown.lineage {userID root id : UUID} (h : VersionKnown s userID root id)
    (hs : WellFormed s) {t : File} (ht : t ∈ s.db.files) (hid : t.id = id) :
    t.lineage = (userID, root) := by
  obtain ⟨b, hb, hbid, hbuser, hbroot⟩ := h
  have hident := (hs.file t ht).identity_eq ⟨b, hb, rfl⟩ (hid.trans hbid.symm)
  rw [lineage_congr hident, File.lineage, hbuser, hbroot]

/-- A restored version becomes the current one. -/
theorem DB.Lineages.restoreVersion (h : s.db.Lineages) (hs : WellFormed s) {userID root targetID : UUID}
    (hroot : RootKnown s userID root) {t : File} (ht : t ∈ s.db.files) (hid : t.id = targetID)
    (hlineage : t.lineage = (userID, root)) :
    ((s.db.supersede userID root).setCurrent targetID).Lineages := by
  have hrows : {g | g ∈ ((s.db.supersede userID root).setCurrent targetID).files} =
      (fun g => if g.id = targetID then g.withCurrent true
        else if DB.inLineage userID root g then g.withCurrent false else g) ''
        {g | g ∈ s.db.files} := by
    refine rows_eq_image fun g => DB.mem_setCurrent.trans ⟨?_, ?_⟩
    · rintro ⟨x, hx, rfl⟩
      obtain ⟨f, hf, rfl⟩ := DB.mem_supersede.1 hx
      refine ⟨f, hf, ?_⟩
      by_cases hin : DB.inLineage userID root f = true
      · rw [if_pos hin]
        rfl
      · rw [if_neg hin]
    · rintro ⟨f, hf, rfl⟩
      refine ⟨_, DB.mem_supersede.2 ⟨f, hf, rfl⟩, ?_⟩
      by_cases hin : DB.inLineage userID root f = true
      · rw [if_pos hin]
        rfl
      · rw [if_neg hin]
  rw [DB.Lineages, hrows]
  refine h.refocus ht (fun g _ => ?_) (fun g _ => ?_) (fun g hg he => ?_) fun g hg he => ?_
  · split
    · rfl
    · split <;> rfl
  · split
    · rfl
    · split <;> rfl
  · have hin := (hroot.inLineage_iff (hs.file g hg)).2 (he.trans hlineage)
    by_cases hgid : g.id = targetID
    · rw [if_pos hgid]
      exact iff_of_true rfl (Table.eq_of_key hg ht (hgid.trans hid.symm))
    · rw [if_neg hgid, if_pos hin]
      exact iff_of_false Bool.false_ne_true fun he => hgid (he ▸ hid)
  · have hgid : ¬g.id = targetID := fun hgid =>
      he (congrArg File.lineage (Table.eq_of_key hg ht (hgid.trans hid.symm)))
    have hin : ¬DB.inLineage userID root g = true := fun hin =>
      he (((hroot.inLineage_iff (hs.file g hg)).1 hin).trans hlineage.symm)
    rw [if_neg hgid, if_neg hin]

/-- A save over a row with the same identity and the same `is_current`. -/
theorem DB.Lineages.saveFile (h : db.Lineages) {f r : File} (hr : r ∈ db.files) (hid : r.id = f.id)
    (hident : r.identity = f.identity) (hcur : r.isCurrent = f.isCurrent) :
    (db.saveFile f).Lineages := by
  have hrows : {g | g ∈ (db.saveFile f).files} =
      (fun g => if g.id = f.id then f else g) '' {g | g ∈ db.files} := by
    refine rows_eq_image fun g => DB.mem_saveFile.trans ?_
    rw [DB.savedRow_of_mem hr hid]
    constructor
    · rintro (rfl | ⟨hg, hne⟩)
      · exact ⟨r, hr, (if_pos hid).symm⟩
      · exact ⟨g, hg, (if_neg hne).symm⟩
    · rintro ⟨x, hx, rfl⟩
      split
      · exact Or.inl rfl
      · next hne => exact Or.inr ⟨hx, hne⟩
  have hsame : ∀ g ∈ db.files, g.id = f.id → r = g := fun g hg hgid =>
    Table.eq_of_key hr hg (hid.trans hgid.symm)
  rw [DB.Lineages, hrows]
  refine h.image (fun g hg => ?_) (fun g hg => ?_) fun g hg => ?_
  · split
    · next hgid => rw [← hsame g hg hgid, lineage_congr hident]
    · rfl
  · split
    · next hgid =>
      rw [← hsame g hg hgid]
      exact (congrArg File.Identity.version hident).symm
    · rfl
  · split
    · next hgid => rw [← hsame g hg hgid, hcur]
    · rfl

/-- A worker's update. -/
theorem DB.Lineages.updateFile (h : db.Lineages) (id : UUID) (u : FileUpdates) :
    (db.updateFile id u).Lineages := by
  rw [DB.Lineages, rows_eq_image fun g => DB.mem_updateFile]
  refine h.image (fun g _ => ?_) (fun g _ => ?_) fun g _ => ?_
  · split <;> rfl
  · split <;> rfl
  · split <;> rfl

end Writes

/-! ## Every run -/

/-- Rows that are changed one by one stay present. -/
theorem DB.AllPresent.modify {db db' : DB} (h : db.AllPresent)
    (hb : db'.files.births = db.files.births)
    (hf : ∀ f ∈ db.files, ∃ g ∈ db'.files, g.id = f.id) : db'.AllPresent := by
  intro b hmem
  rw [hb] at hmem
  obtain ⟨f, hfm, hfb⟩ := h b hmem
  obtain ⟨g, hg, hgf⟩ := hf f hfm
  exact ⟨g, hg, hgf.trans hfb⟩

/-- The invariant of a run without deletes. -/
structure LineagesInv (db : DB) : Prop where
  lineages : db.Lineages
  present : db.AllPresent

/-- A save writes the `is_current` that the row has, and a new version is numbered above the others. -/
def KeepsShape (db : DB) {α : Type} : Stmt α → Prop
  | .write (.saveFile f) => ∀ g ∈ db.files, g.id = f.id → g.isCurrent = f.isCurrent
  | .write (.presignVersion userID root mk) => ∀ id, ∀ g ∈ db.files,
      DB.inLineage userID root g = true → g.version < (mk id).version
  | _ => True

section Calls

variable {q : Request} {α : Type} {o : Oracle} {db' : DB}

theorem LineagesInv.write (h : LineagesInv s.db) (hs : WellFormed s) {w : Write α}
    {a : Except DbError α} (hw : WriteKnown s q w) (hrun : w.run o s.issued s.db = some (a, db'))
    (hdel : deletesNothing (.call s q o (.write w) a) = true) (hkeeps : KeepsShape s.db (.write w)) :
    LineagesInv db' := by
  cases w with
  | createFile mk =>
    obtain ⟨-, rfl⟩ | ⟨hu, -, -, -, rfl⟩ := Write.createFile_cases hrun
    · exact h
    · refine ⟨h.lineages.createFile hs hu (hw o.uuid).1 rfl, fun b hb => ?_⟩
      rcases List.mem_cons.1 hb with rfl | hb
      · exact ⟨_, (Table.mem_insert hu).2 (Or.inl rfl), rfl⟩
      · obtain ⟨f, hf, hfb⟩ := h.present b hb
        exact ⟨f, (Table.mem_insert hu).2 (Or.inr hf), hfb⟩
  | presignVersion userID root mk =>
    obtain ⟨-, rfl⟩ | ⟨hu, -, -, -, rfl⟩ := Write.presignVersion_cases hrun
    · exact h
    · obtain ⟨-, hroot, hmk⟩ := hw
      obtain ⟨-, huser, hp, hne, -⟩ := hmk o.uuid
      refine ⟨h.lineages.presignVersion hs hroot hu huser hp rfl fun g hg hin => ?_, fun b hb => ?_⟩
      · have hlt := hkeeps o.uuid g hg hin
        simpa [File.columnDefaults, hne] using hlt
      · rcases List.mem_cons.1 hb with rfl | hb
        · exact ⟨_, (Table.mem_insert hu).2 (Or.inl rfl), rfl⟩
        · obtain ⟨f, hf, hfb⟩ := h.present b hb
          refine ⟨_, (Table.mem_insert hu).2 (Or.inr (DB.mem_supersede.2 ⟨f, hf, rfl⟩)), ?_⟩
          rw [← hfb]
          split <;> rfl
  | saveFile f =>
    obtain ⟨-, rfl⟩ | ⟨-, rfl⟩ := Write.saveFile_cases hrun
    · exact h
    · obtain ⟨r, hr, hid, hident⟩ := h.present.exists_row hs hw.2
      refine ⟨h.lineages.saveFile hr hid hident (hkeeps r hr hid),
        h.present.modify ?_ fun _ => Write.keeps_ids rfl hrun⟩
      exact Table.births_save (by rw [key_file, DB.id_savedRow]; exact hw.2.used)
  | restoreVersion userID root targetID =>
    obtain ⟨-, rfl⟩ | ⟨-, rfl⟩ := Write.restoreVersion_cases hrun
    · exact h
    · obtain ⟨-, hroot, hversion⟩ := hw
      obtain ⟨b, hb, hbid, -⟩ := id hversion
      obtain ⟨t, ht, hid⟩ := h.present b hb
      have htid := hid.trans hbid
      exact ⟨h.lineages.restoreVersion hs hroot ht htid (hversion.lineage hs ht htid),
        h.present.modify rfl fun _ => Write.keeps_ids rfl hrun⟩
  | deleteFile userID root => cases hdel
  | updateFile id u =>
    obtain ⟨-, rfl⟩ | ⟨-, rfl⟩ := Write.updateFile_cases hrun
    · exact h
    · exact ⟨h.lineages.updateFile id u, h.present.modify rfl fun _ => Write.keeps_ids rfl hrun⟩
  | deleteFolder userID folderID => cases hdel
  | _ =>
    obtain ⟨folders, shares, tokens, rfl⟩ := Write.leaves_files rfl hrun
    exact ⟨h.lineages, h.present⟩

end Calls

/-! ## Requests under the watch -/

/-- The outline of the lineages. -/
def versioning (deps : Deps) : Outline (services deps) where
  inv s := LineagesInv s.db
  rely _ _ := True
  pre _ _ e s := KeepsShape s.db e
  post _ _ := True
  cond st := deletesNothing st = true

section Watched

variable {deps : Deps} {q : Request}

/-- Reading a program against `versioning`. -/
abbrev Versioning (deps : Deps) (q : Request) (p : Prog Stmt Reply) (s : Store) : Prop :=
  (versioning deps).SafeOver (provenance deps) (lineageWatch deps) q p s

/-- What others have left as it was by the next call. -/
theorem view_of_interference {p : Prog Stmt Reply} {t : Store}
    (ht : (versioning deps).Interference (provenance deps) (lineageWatch deps) ⟨q, p⟩ s t) :
    lineageView ⟨q, p⟩ s = lineageView ⟨q, p⟩ t := Watch.ofView_kept ht.kept

theorem DB.isCurrent?_of_mem {db : DB} {f : File} (hf : f ∈ db.files) :
    db.isCurrent? f.id = some f.isCurrent := by
  rw [DB.isCurrent?, ← key_file, Table.get?_of_mem hf]
  rfl

/-- Code that writes nothing. -/
theorem versioning_over {α : Type} {c : Handler α} (hc : Inert true c) {k : α → Prog Stmt Reply}
    (h : ∀ a t, Versioning deps q (k a) t) (s : Store) : Versioning deps q (c k) s := by
  refine Outline.safeOver_over hc (fun e _ he _ => ?_) (fun _ => trivial) h s
  cases e with
  | write w => exact he.elim
  | _ => trivial

/-- A save with the `is_current` that was read. -/
theorem versioning_saveFile {f : File} (hs : s.db.isCurrent? f.id = some f.isCurrent)
    {k : Except DbError Unit → Prog Stmt Reply} (h : ∀ a t, Versioning deps q (k a) t) :
    Versioning deps q (write (.saveFile f) k) s := by
  refine watched_write (fun t ht _ g hg hid => ?_) fun a t _ _ _ => h a _
  have hview := congrArg Prod.fst (view_of_interference ht)
  have hread : s.db.isCurrent? f.id = t.db.isCurrent? f.id := by
    cases q <;> exact hview
  rw [hs, ← hid, DB.isCurrent?_of_mem hg] at hread
  exact (Option.some.inj hread).symm

theorem versioning_updateFile (userID : UUID) (text : GoString) (body : Option FileUpdateRequest) :
    Versioning deps (.updateFile userID text body) (updateFile userID text body .ret) s := by
  have answer : ∀ t, ∀ (status : ℕ) (message : String),
      Versioning deps (.updateFile userID text body) (.ret (.error status message)) t :=
    fun _ _ _ => trivial
  refine Early.parseID (P := fun p => Versioning deps _ p s) (answer s) fun id hid => ?_
  refine watched_query (fun _ _ _ => trivial) fun o t _ _ => ?_
  refine Early.foundOr (P := fun p => Versioning deps _ p t) (answer t) fun r hr => ?_
  refine Early.decodeBody (P := fun p => Versioning deps _ p t) (answer t) fun req _ => ?_
  obtain ⟨hmem, hrid, -⟩ := Query.file_ok hr
  have hread : t.db.isCurrent? id = some r.isCurrent := hrid ▸ DB.isCurrent?_of_mem hmem
  have finish : ∀ f (u : Store), u.db.isCurrent? id = some r.isCurrent → f.id = id →
      f.isCurrent = r.isCurrent → Versioning deps (.updateFile userID text body)
        (write (.saveFile f) fun a => foundOr 500 "could not update file" a fun _ => .ret (.file f)) u :=
    fun f u hu hfid hcur => versioning_saveFile (by rw [hfid, hu, hcur]) fun a v =>
      Early.foundOr (P := fun p => Versioning deps _ p v) (answer v) fun _ _ => trivial
  -- The name does not matter: every renamed row is moved alike.
  have move : ∀ f : File, f.id = id → f.isCurrent = r.isCurrent →
      Versioning deps (.updateFile userID text body) (moveFile userID f req.folderID fun f =>
        write (.saveFile f) fun a => foundOr 500 "could not update file" a fun _ => .ret (.file f)) t := by
    intro f hfid hcur
    match req.folderID with
    | none => exact finish f t hread hfid hcur
    | some [] => exact finish _ t hread hfid hcur
    | some (c :: folderText) =>
      refine Early.parseID (P := fun p => Versioning deps _ p t) (answer t) fun folderID _ => ?_
      refine watched_query (fun _ _ _ => trivial) fun o u hu _ => ?_
      refine Early.foundOr (P := fun p => Versioning deps _ p u) (answer u) fun folder _ => ?_
      have hview := congrArg Prod.fst (view_of_interference hu)
      simp only [lineageView, hid, Option.bind_some] at hview
      exact finish _ u (hview ▸ hread) hfid hcur
  show Versioning deps _ (renameFile r req.name _) t
  match req.name with
  | none => exact move r hrid rfl
  | some [] => trivial
  | some (c :: name) => exact move { r with name := c :: name } hrid rfl

theorem versioning_complete (userID : UUID) (text : GoString) :
    Versioning deps (.complete userID text) (complete userID text .ret) s := by
  have answer : ∀ t, ∀ (status : ℕ) (message : String),
      Versioning deps (.complete userID text) (.ret (.error status message)) t := fun _ _ _ => trivial
  refine Early.parseID (P := fun p => Versioning deps _ p s) (answer s) fun id hid => ?_
  refine watched_query (fun _ _ _ => trivial) fun o t _ _ => ?_
  refine Early.found (P := fun p => Versioning deps _ p t) (answer t) fun r hr => ?_
  refine Early.failIf (P := fun p => Versioning deps _ p t) (answer t) fun _ => ?_
  obtain ⟨hmem, hrid, -⟩ := Query.file_ok hr
  have hread : t.db.isCurrent? id = some r.isCurrent := hrid ▸ DB.isCurrent?_of_mem hmem
  refine watched_call (fun _ _ _ => trivial) fun size u _ u' hu _ hx _ _ => ?_
  have hdb : u'.db = u.db := exec_db rfl hx
  have hview := congrArg Prod.fst (view_of_interference hu)
  simp only [lineageView, hid, Option.bind_some] at hview
  cases size with
  | none => exact answer u' _ _
  | some size =>
    refine versioning_saveFile (f := completed r size) ?_ fun a v => ?_
    · show u'.db.isCurrent? r.id = some r.isCurrent
      rw [hdb, hrid, ← hview, hread]
    · refine Early.foundOr (P := fun p => Versioning deps _ p v) (answer v) fun _ _ => ?_
      cases processingTask (completed r size) with
      | none => exact trivial
      | some task => exact watched_call (fun _ _ _ => trivial) fun _ _ _ _ _ _ _ _ _ => trivial

theorem versioning_presignVersion (userID : UUID) (text : GoString)
    (body : Option PresignVersionRequest) :
    Versioning deps (.presignVersion userID text body) (presignVersion userID text body .ret) s := by
  have answer : ∀ t, ∀ (status : ℕ) (message : String),
      Versioning deps (.presignVersion userID text body) (.ret (.error status message)) t :=
    fun _ _ _ => trivial
  refine Early.parseID (P := fun p => Versioning deps _ p s) (answer s) fun fileID _ => ?_
  refine Early.decodeBody (P := fun p => Versioning deps _ p s) (answer s) fun req _ => ?_
  refine Early.failIf (P := fun p => Versioning deps _ p s) (answer s) fun _ => ?_
  refine watched_query (fun _ _ _ => trivial) fun _ t _ _ => ?_
  refine Early.found (P := fun p => Versioning deps _ p t) (answer t) fun anyVersion _ => ?_
  refine versioning_over (reads_checkQuota _ _).inert (fun a u => ?_) t
  refine versioning_over (silent_orQuotaError a).over (fun _ v => ?_) u
  refine watched_query (fun _ _ _ => trivial) fun _ w _ _ => ?_
  refine Early.foundOr (P := fun p => Versioning deps _ p w) (answer w) fun current _ => ?_
  refine watched_query (fun _ _ _ => trivial) fun _ x _ _ => ?_
  refine Early.foundOr (P := fun p => Versioning deps _ p x) (answer x) fun maxVersion hmax => ?_
  refine watched_write (fun y hy _ id g hg hin => ?_) fun a y _ _ _ => ?_
  · -- The transaction finds the highest version that was read.
    have hview := congrArg Prod.snd (view_of_interference hy)
    simp only [lineageView, Query.eval_of_ok hmax] at hview
    cases heval : (Query.maxVersion userID anyVersion.lineageRootID).eval y.db with
    | error e =>
      rw [heval] at hview
      cases hview
    | ok n =>
      rw [heval] at hview
      obtain rfl : maxVersion = n := Option.some.inj hview
      have hrun : (Query.maxVersion userID anyVersion.lineageRootID).run {} y.db = .ok maxVersion := heval
      exact Nat.lt_succ_of_le (Query.maxVersion_ok hrun hg hin)
  · refine Early.foundOr (P := fun p => Versioning deps _ p _) (answer _) fun file _ => ?_
    exact versioning_over (k := .ret) (inert_presignUpload file) (fun _ _ => trivial) _

end Watched

theorem versioning_valid (deps : Deps) :
    (versioning deps).ValidOver (provenance deps) (lineageWatch deps) where
  rely_refl _ := trivial
  rely_trans _ _ := trivial
  start _ _ h _ hq _ := by
    have hdb := (launch_cases hq).1
    exact ⟨show LineagesInv _ from hdb ▸ h, trivial⟩
  safe {q _ _} _ _ _ _ _ _ := by
    cases q with
    | updateFile userID id body => exact versioning_updateFile userID id body
    | complete userID id => exact versioning_complete userID id
    | presignVersion userID id body => exact versioning_presignVersion userID id body
    | _ =>
      -- Nobody else saves a file or makes a version.
      refine Outline.safeOver_of_pre (fun e _ hknown => ?_) (fun _ => trivial) _ _
      cases e with
      | write w =>
        cases w with
        | saveFile f => obtain ⟨⟨_, _, hq⟩ | ⟨_, _, _, hq⟩, -⟩ := hknown <;> cases hq
        | presignVersion userID root mk =>
          obtain ⟨⟨_, _, hq⟩, -⟩ := hknown
          cases hq
        | _ => trivial
      | _ => trivial
  call := by
    intro q o α e a s s' hP h hknown hpre hdel _ hx _
    refine ⟨?_, trivial⟩
    rw [services_exec] at hx
    cases e with
    | write w =>
      obtain ⟨db', hw, rfl⟩ := exec_write hx
      exact LineagesInv.write h hP hknown hw hdel hpre
    | _ =>
      show LineagesInv s'.db
      rw [exec_db rfl hx]
      exact h
  env _ _ h _ hv _ := by
    have hdb := (env_cases hv).1
    exact ⟨show LineagesInv _ from hdb ▸ h, trivial⟩

/-- There are no lineages without rows. -/
theorem lineages_fresh (users : Table User) : (Store.fresh users).db.Lineages :=
  Shaped.of_forall_notMem fun _ => Table.not_mem_empty

/-- **Lineages keep their shape**: in every run without deletes in which nobody else changes the
`is_current` that a save writes back, or the highest version from which a new one is numbered, between
the SELECT and the write. -/
theorem lineages_keep_shape (deps : Deps) (users : Table User) {c : Services}
    (h : (services deps).Reaches (lineageWatch deps).undisturbed (start (Store.fresh users)) c)
    (hdel : ∀ st ∈ c.trace, deletesNothing st = true) :
    ∀ f ∈ c.store.db.files, c.store.db.LineageShape f.userID f.lineageRootID := by
  have h₀ : LineagesInv (Store.fresh users).db :=
    ⟨lineages_fresh users, fun _ hb => absurd hb List.not_mem_nil⟩
  obtain ⟨hinv, -⟩ := (versioning_valid deps).good (provenance_valid deps) h (fun _ _ hm => hm)
    (wellFormed_fresh users) h₀ (fun _ _ => trivial) hdel
  have hwf := ((provenance_valid deps).good h (Outline.good_init (wellFormed_fresh users))
    fun _ _ => trivial).1
  exact fun f hf => hinv.lineages.lineageShape hwf hf

/-! ### Two new versions and a rename -/

/-- Alice uploads a text. -/
def uploadText : List (Move Request Oracle EnvMove) :=
  [.start (.presign 1 (some ⟨lit "a.txt", 3, lit "text/plain", none⟩)),
    .step 0 {}, .step 0 {}, .step 0 { uuid := 100 }, .step 0 {}, .step 0 {}]

/-- A new version of the text. -/
def newVersion : Request := .presignVersion 1 (text 100) (some ⟨3, lit "text/plain"⟩)

/-- A new version, a rename of it, and the first version restored. -/
theorem lineages_keep_shape_restore :
    ∃ c : Services, (services plainDeps).Reaches (lineageWatch plainDeps).undisturbed
      (start (Store.fresh aliceOnly)) c ∧ c.store.db.files.rows.length = 2 ∧
      ∀ f ∈ c.store.db.files, c.store.db.LineageShape f.userID f.lineageRootID := by
  obtain ⟨c, hc, hP⟩ := exists_run (lineageWatch plainDeps).undisturbed
    (uploadText ++ [.start newVersion, .step 1 {}, .step 1 {}, .step 1 {}, .step 1 {}, .step 1 {},
      .step 1 { uuid := 101 }, .start (.updateFile 1 (text 101) (some ⟨some (lit "b.txt"), none⟩)),
      .step 2 {}, .step 2 {}, .start (.restoreFileVersion 1 (text 101) (text 100)),
      .step 3 {}, .step 3 {}, .step 3 {}])
    (fun c => c.store.db.files.rows.length = 2 && c.trace.all deletesNothing)
    (by decide)
  simp only [Bool.and_eq_true, List.all_eq_true, decide_eq_true_eq] at hP
  exact ⟨c, hc, hP.1, lineages_keep_shape plainDeps aliceOnly hc hP.2⟩

/-- Both new versions are numbered from the same highest version; a rename that has read the first
version before them makes it current again. -/
theorem lineage_out_of_shape :
    ∃ c : Services, (services plainDeps).Reaches Machine.anySchedule
      (start (Store.fresh aliceOnly)) c ∧ (∀ st ∈ c.trace, succeeds st = true) ∧
      (∃ f ∈ c.store.db.files, f.userID = 1 ∧ f.lineageRootID = 100) ∧
      (¬∃! f, f ∈ c.store.db.lineageFiles 1 100 ∧ f.isCurrent = true) ∧
      ¬((c.store.db.lineageFiles 1 100).map File.version).Nodup := by
  obtain ⟨c, hc, hP⟩ := exists_run Machine.anySchedule
    (uploadText ++ [.start (.updateFile 1 (text 100) (some ⟨some (lit "b.txt"), none⟩)), .step 1 {},
      .start newVersion, .step 2 {}, .step 2 {}, .step 2 {}, .step 2 {}, .step 2 {},
      .start newVersion, .step 3 {}, .step 3 {}, .step 3 {}, .step 3 {}, .step 3 {},
      .step 2 { uuid := 101 }, .step 3 { uuid := 102 }, .step 1 {}])
    (fun c => c.trace.all succeeds &&
      (c.store.db.files.rows.any (fun f => f.userID = 1 && f.lineageRootID = 100) &&
      ((c.store.db.lineageFiles 1 100).any (fun f => f.isCurrent &&
        (c.store.db.lineageFiles 1 100).any fun g => g.isCurrent && f.id ≠ g.id) &&
      !decide ((c.store.db.lineageFiles 1 100).map File.version).Nodup)))
    (by decide)
  simp only [Bool.and_eq_true, List.all_eq_true, List.any_eq_true, decide_eq_true_eq,
    Bool.not_eq_true', decide_eq_false_iff_not] at hP
  obtain ⟨hs, ⟨r, hr, hruser, hroot⟩, ⟨f, hf, hfcur, g, hg, hgcur, hfg⟩, hversions⟩ := hP
  refine ⟨c, hc, hs, ⟨r, hr, hruser, hroot⟩, fun hunique => hfg ?_, hversions⟩
  rw [hunique.unique ⟨hf, hfcur⟩ ⟨hg, hgcur⟩]

end Optiflow
