import Optiflow.Proof.Footprint
import Optiflow.Proof.Tidy

/-!
# One request at a time

When nothing runs in between, what a handler has read still holds when it writes.  The outline `tidy`
says what each write then knows of the rows (`WriteTidy`), and the writes keep the tree tidy
(`DB.Tidy.write`).
-/

namespace Optiflow

open Interleave Code Family ParentGraph UploadSvc ApiSvc

/-! ## What a write knows -/

/-- The requests that shape a tree by what they have read. -/
def Request.shapes : Request → Bool
  | .presign _ _ => true
  | .complete _ _ => true
  | .presignVersion _ _ _ => true
  | .createFolder _ _ => true
  | .updateFolder _ _ _ _ => true
  | .deleteFolder _ _ => true
  | .updateFile _ _ _ => true
  | .restoreFileVersion _ _ _ => true
  | _ => false

/-- What holds of a write when its request has run alone. -/
def WriteTidy (db : DB) {α : Type} : Write α → Prop
  | .createFile mk => ∀ id, db.hasFolder (mk id).userID (mk id).folderID = true
  | .presignVersion userID root mk => ∀ id, db.hasFolder userID (mk id).folderID = true ∧
      ∀ f ∈ db.files, DB.inLineage userID root f = true → f.version < (mk id).version
  | .saveFile f => ∃ r ∈ db.files, r.id = f.id ∧ r.isCurrent = f.isCurrent ∧
      (f.isCurrent = true → db.hasFolder f.userID f.folderID = true)
  | .restoreVersion _ _ targetID => ∃ t ∈ db.files, t.id = targetID
  | .createFolder _ userID parentID => db.hasFolder userID parentID = true
  | .saveFolder f => ∃ r ∈ db.folders, r.id = f.id ∧ r.userID = f.userID ∧
      db.hasFolder f.userID f.parentID = true ∧
      ∀ p, f.parentID = some p → ¬Climbs db.parentOf p f.id
  | .deleteFolder userID folderID => ∃ f ∈ db.folders, f.id = folderID ∧ f.userID = userID
  | _ => True

/-- Other calls need know nothing. -/
def StmtTidy (db : DB) {α : Type} : Stmt α → Prop
  | .write w => WriteTidy db w
  | _ => True

/-- The outline of requests that run one at a time. -/
def tidy (deps : Deps) : Outline (services deps) where
  inv s := WellFormed s ∧ s.db.Tidy
  rely s t := t.db = s.db
  pre q _ e s := q.shapes = true → StmtTidy s.db e
  post _ _ := True
  cond st := restoredFolderHere st = true ∧ finishedFolderHere st = true

/-! ## Writes keep the tree tidy -/

section Writes

variable {s : Store} {q : Request} {α : Type} {o : Oracle} {db' : DB}

/-- A change of the file rows that leaves folders alone. -/
theorem DB.Tidy.files_of {db : DB} (h : db.Tidy) {files : Table File}
    (hl : ({ db with files := files } : DB).Lineages)
    (hf : ∀ f ∈ files, f.isCurrent = true → db.hasFolder f.userID f.folderID = true) :
    ({ db with files := files } : DB).Tidy :=
  ⟨hl, h.grounded, h.parents, hf⟩

/-- A change of the folder rows that leaves no folder out. -/
theorem DB.Tidy.folders_of {db : DB} (h : db.Tidy) {folders : Table Folder}
    (hg : ∀ z, Grounded ({ db with folders := folders } : DB).parentOf z)
    (hkeep : ∀ f ∈ db.folders, ∃ g ∈ folders, g.id = f.id ∧ g.userID = f.userID)
    (hf : ∀ f ∈ folders, db.hasFolder f.userID f.parentID = true) :
    ({ db with folders := folders } : DB).Tidy := by
  have hmono : ∀ user id, db.hasFolder user id = true →
      ({ db with folders := folders } : DB).hasFolder user id = true :=
    fun user id hid => DB.hasFolder_mono hid fun f hf _ _ => hkeep f hf
  exact ⟨h.lineages, hg, fun f hmem => hmono _ _ (hf f hmem),
    fun f hmem hcur => hmono _ _ (h.files f hmem hcur)⟩

/-- A restored version lies in a folder that exists, and no other row becomes current. -/
theorem DB.Tidy.restoreVersion (h : s.db.Tidy) (hs : WellFormed s) {userID root targetID : UUID}
    {a : Except DbError Unit} (hroot : RootKnown s userID root)
    (hversion : VersionKnown s userID root targetID) (hmem : ∃ t ∈ s.db.files, t.id = targetID)
    (hrestore : restoredFolderHere (.call s q o (.write (.restoreVersion userID root targetID)) a) = true) :
    ((s.db.supersede userID root).setCurrent targetID).Tidy := by
  obtain ⟨t, htmem, htid⟩ := hmem
  have hlineage := hversion.lineage hs htmem htid
  have htuser : t.userID = userID := congrArg Prod.fst hlineage
  refine h.files_of (h.lineages.restoreVersion hs hroot htmem htid hlineage) fun f hf hcur => ?_
  obtain ⟨g, hg, rfl⟩ := DB.mem_setCurrent.1 hf
  obtain ⟨r, hr, rfl⟩ := DB.mem_supersede.1 hg
  have hrid : (if DB.inLineage userID root r then r.withCurrent false else r).id = r.id := by
    split <;> rfl
  by_cases hid : r.id = targetID
  · obtain rfl : r = t := Table.eq_of_key hr htmem (hid.trans htid.symm)
    simp only [restoredFolderHere, List.all_eq_true, Bool.or_eq_true, decide_eq_true_eq] at hrestore
    have hfolder := (hrestore r hr).resolve_left (not_not.2 hid)
    rw [if_pos (hrid.trans hid)]
    by_cases hin : DB.inLineage userID root r = true
    · rw [if_pos hin]
      exact htuser ▸ hfolder
    · rw [if_neg hin]
      exact htuser ▸ hfolder
  · rw [if_neg fun he => hid (hrid.symm.trans he)] at hcur ⊢
    split at hcur
    · cases hcur
    · next hin =>
      rw [if_neg hin]
      exact h.files r hr hcur

theorem DB.Tidy.write (h : s.db.Tidy) (hs : WellFormed s) {w : Write α} {a : Except DbError α}
    (hw : WriteKnown s q w) (ht : q.shapes = true → WriteTidy s.db w)
    (hrestore : restoredFolderHere (.call s q o (.write w) a) = true)
    (hfinish : finishedFolderHere (.call s q o (.write w) a) = true)
    (hrun : w.run o s.issued s.db = some (a, db')) : db'.Tidy := by
  cases w with
  | createFile mk =>
    obtain ⟨-, rfl⟩ | ⟨hu, -, -, -, rfl⟩ := Write.createFile_cases hrun
    · exact h
    · obtain ⟨hp, -, hq⟩ := hw o.uuid
      refine h.files_of (h.lineages.createFile hs hu hp rfl) fun f hf hcur => ?_
      rcases (Table.mem_insert hu).1 hf with rfl | hf
      · obtain ⟨-, userID, body, rfl⟩ | ⟨upload, rfl, -⟩ := hq
        · exact ht rfl o.uuid
        · exact hfinish
      · exact h.files f hf hcur
  | presignVersion userID root mk =>
    obtain ⟨-, rfl⟩ | ⟨hu, -, -, -, rfl⟩ := Write.presignVersion_cases hrun
    · exact h
    · obtain ⟨⟨id, body, rfl⟩, hroot, hmk⟩ := hw
      obtain ⟨-, huser, hp, hne, -⟩ := hmk o.uuid
      obtain ⟨hfolder, hver⟩ := ht rfl o.uuid
      have hl := h.lineages.presignVersion hs hroot hu huser hp rfl fun g hg hin => by
        simpa [File.columnDefaults, hne] using hver g hg hin
      refine h.files_of hl fun f hf hcur => ?_
      rcases (Table.mem_insert hu).1 hf with rfl | hf
      · exact huser ▸ hfolder
      · obtain ⟨g, hg, rfl⟩ := DB.mem_supersede.1 hf
        split at hcur
        · cases hcur
        · next hin =>
          rw [if_neg hin]
          exact h.files g hg hcur
  | saveFile f =>
    obtain ⟨-, rfl⟩ | ⟨-, rfl⟩ := Write.saveFile_cases hrun
    · exact h
    · have hshapes : q.shapes = true := by
        obtain ⟨⟨userID, id, rfl⟩ | ⟨userID, id, body, rfl⟩, -⟩ := hw <;> rfl
      obtain ⟨r, hr, hid, hcur, hfolder⟩ := ht hshapes
      have hident := (hs.file r hr).identity_eq hw.2 hid
      refine h.files_of (h.lineages.saveFile hr hid hident hcur) fun g hg hgcur => ?_
      rcases DB.mem_saveFile.1 hg with rfl | ⟨hg, -⟩
      · rw [DB.savedRow_of_mem hr hid] at hgcur ⊢
        exact hfolder hgcur
      · exact h.files g hg hgcur
  | restoreVersion userID root targetID =>
    obtain ⟨-, rfl⟩ | ⟨-, rfl⟩ := Write.restoreVersion_cases hrun
    · exact h
    · obtain ⟨⟨id, versionID, rfl⟩, hroot, hversion⟩ := hw
      exact h.restoreVersion hs hroot hversion (ht rfl) hrestore
  | deleteFile userID root =>
    obtain ⟨-, rfl⟩ | ⟨-, rfl⟩ := Write.deleteFile_cases hrun
    · exact h
    · have hl := h.lineages.deleteFiles fun f hf g hg hfg hdel =>
        hw.2.lineageFiles_closed hs hf hg hfg hdel.1
      exact ⟨hl, h.grounded, h.parents, fun f hf => h.files f (DB.mem_deleteFiles.1 hf).1⟩
  | updateFile id u =>
    obtain ⟨-, rfl⟩ | ⟨-, rfl⟩ := Write.updateFile_cases hrun
    · exact h
    · refine h.files_of (h.lineages.updateFile id u) fun f hf hcur => ?_
      obtain ⟨g, hg, rfl⟩ := DB.mem_updateFile.1 hf
      by_cases hid : g.id = id
      · rw [if_pos hid] at hcur ⊢
        exact h.files g hg hcur
      · rw [if_neg hid] at hcur ⊢
        exact h.files g hg hcur
  | createFolder name userID parentID =>
    have hg := grounded_write hs h.grounded hw trivial hrun
    obtain ⟨-, rfl⟩ | ⟨hu, -, rfl⟩ := Write.createFolder_cases hrun
    · exact h
    · obtain ⟨⟨body, rfl⟩, -⟩ := hw
      refine h.folders_of hg (fun f hf => ⟨f, (Table.mem_insert hu).2 (Or.inr hf), rfl, rfl⟩)
        fun f hf => ?_
      rcases (Table.mem_insert hu).1 hf with rfl | hf
      · exact ht rfl
      · exact h.parents f hf
  | saveFolder f =>
    obtain ⟨⟨userID, id, body, steps, rfl⟩, -⟩ := id hw
    obtain ⟨r, hr, hid, huser, hparent, hclimb⟩ := ht rfl
    have hg := grounded_write hs h.grounded hw hclimb hrun
    obtain ⟨-, rfl⟩ | ⟨-, rfl⟩ := Write.saveFolder_cases hrun
    · exact h
    · refine h.folders_of hg (fun g hgmem => ?_) fun g hgmem => ?_
      · by_cases hgf : g.id = f.id
        · obtain rfl : r = g := Table.eq_of_key hr hgmem (hid.trans hgf.symm)
          exact ⟨f, Table.mem_save.2 (Or.inl rfl), hgf.symm, huser.symm⟩
        · exact ⟨g, Table.mem_save.2 (Or.inr ⟨hgmem, hgf⟩), rfl, rfl⟩
      · rcases Table.mem_save.1 hgmem with rfl | ⟨hgmem, -⟩
        · exact hparent
        · exact h.parents g hgmem
  | deleteFolder userID folderID =>
    obtain ⟨-, rfl⟩ | ⟨versions, -, hd⟩ := Write.deleteFolder_cases hrun
    · exact h
    · obtain ⟨id, rfl⟩ := hw
      obtain ⟨x, hx, hxid, hxuser⟩ := ht rfl
      refine (h.deleteFolderTree hs (fun f hf hid => ?_) hd).1
      rw [Table.eq_of_key hf hx (hid.trans hxid.symm)]
      exact hxuser
  | incrementDownloads id =>
    obtain ⟨-, rfl⟩ | ⟨-, rfl⟩ := Write.incrementDownloads_cases hrun
    · exact h
    · exact ⟨h.lineages, h.grounded, h.parents, h.files⟩
  | createShare fileID userID passwordHash expiresAt maxDownloads =>
    obtain ⟨-, rfl⟩ | ⟨share, -, hu, -, -, rfl⟩ := Write.createShare_cases hrun
    · exact h
    · exact ⟨h.lineages, h.grounded, h.parents, h.files⟩
  | deleteShare id userID =>
    obtain ⟨-, rfl⟩ | ⟨-, rfl⟩ := Write.deleteShare_cases hrun
    · exact h
    · exact ⟨h.lineages, h.grounded, h.parents, h.files⟩

end Writes

/-! ## Reading handlers -/

section Handlers

variable {deps : Deps} {q : Request} {s : Store} {α : Type}

/-- Reading a program against `tidy`. -/
abbrev Tidily (deps : Deps) (q : Request) (p : Prog Stmt Reply) (s : Store) : Prop :=
  (tidy deps).Safe q p s

theorem tidily_answer (status : ℕ) (message : String) :
    (tidy deps).post q (.error status message) := trivial

/-- Code that only makes plain calls leaves the database alone. -/
theorem tidily_over (c : Handler α) {k : α → Prog Stmt Reply} (hc : Inert true c)
    (h : ∀ a (t : Store), t.db = s.db → Tidily deps q (k a) t) : Tidily deps q (c k) s := by
  refine safe_over (fun hst => hst) (fun {_ e} t he _ => ?_) (fun _ => trivial) c hc h
  cases e with
  | write w => exact he.elim
  | _ => trivial

theorem tidily_query {qy : Query α} {k : Except DbError α → Prog Stmt Reply}
    (h : ∀ o (t : Store), t.db = s.db → WellFormed t → t.db.Tidy → Tidily deps q (k (qy.run o t.db)) t) :
    Tidily deps q (query qy k) s :=
  safe_query (fun _ _ _ _ => trivial) fun o t hst ht _ => h o t hst ht.1 ht.2

/-- After its write, a handler need know nothing more. -/
theorem tidily_write {w : Write α} {k : Except DbError α → Prog Stmt Reply}
    (hw : ∀ t : Store, t.db = s.db → WriteTidy t.db w) (h : ∀ a t, Tidily deps q (k a) t) :
    Tidily deps q (write w k) s :=
  safe_write (fun t hst _ _ => hw t hst) fun _ a t db' _ _ _ _ _ => h a { t with db := db' }

/-- An owned folder is there. -/
theorem hasFolder_of_folder {o : Oracle} {id userID : UUID} {f : Folder}
    (h : (Query.folder id userID).run o s.db = .ok f) : s.db.hasFolder userID (some id) = true :=
  DB.hasFolder_some.2 ⟨f, Query.folder_ok h⟩

/-! ### upload-svc -/

theorem tidily_ownedFolderID {userID : UUID} {folderID : Option GoString}
    {k : Option UUID → Prog Stmt Reply}
    (h : ∀ p (t : Store), t.db = s.db → t.db.hasFolder userID p = true → Tidily deps q (k p) t) :
    Tidily deps q (ownedFolderID userID folderID k) s := by
  match folderID with
  | none => exact h none s rfl rfl
  | some [] => exact h none s rfl rfl
  | some (c :: text) =>
    refine safe_parseID tidily_answer fun id _ => tidily_query fun o t hst _ _ => ?_
    exact safe_foundOr tidily_answer fun f hf => h _ t hst (hasFolder_of_folder hf)

theorem tidily_presign (userID : UUID) (body : Option PresignRequest) :
    Tidily deps q (presign userID body .ret) s := by
  refine safe_decodeBody tidily_answer fun req _ => safe_failIf tidily_answer fun _ => ?_
  refine tidily_over (checkQuota _ _) (reads_checkQuota _ _).inert fun a t _ => ?_
  refine tidily_over (orQuotaError a) (silent_orQuotaError a).over fun _ t _ => ?_
  refine tidily_ownedFolderID fun folderID u _ hfolder => ?_
  refine tidily_write (fun v hv id => ?_) fun a v => ?_
  · rw [hv]
    exact hfolder
  · refine safe_foundOr tidily_answer fun file _ => ?_
    exact tidily_over (presignUpload file) (inert_presignUpload file) fun _ _ _ => trivial

theorem tidily_complete (userID : UUID) (id : GoString) :
    Tidily deps q (complete userID id .ret) s := by
  refine safe_parseID tidily_answer fun id _ => tidily_query fun o t _ _ htidy => ?_
  refine safe_found tidily_answer fun file hf => safe_failIf tidily_answer fun _ => ?_
  obtain ⟨hmem, -, -⟩ := Query.file_ok hf
  refine tidily_over (bucket _) (over_bucket _ fun _ => rfl) fun size u htu => ?_
  cases size with
  | none => trivial
  | some size =>
    refine tidily_write (fun v huv => ?_) fun a v => ?_
    · rw [huv, htu]
      exact ⟨file, hmem, rfl, rfl, htidy.files file hmem⟩
    · refine safe_foundOr tidily_answer fun _ _ => ?_
      cases processingTask (completed file size) with
      | none => trivial
      | some task => exact safe_call (fun _ _ _ _ => trivial) fun _ _ _ _ _ _ _ _ _ => trivial

theorem tidily_presignVersion (userID : UUID) (id : GoString)
    (body : Option PresignVersionRequest) :
    Tidily deps q (presignVersion userID id body .ret) s := by
  refine safe_parseID tidily_answer fun fileID _ => safe_decodeBody tidily_answer fun req _ => ?_
  refine safe_failIf tidily_answer fun _ => tidily_query fun o t _ _ _ => ?_
  refine safe_found tidily_answer fun anyVersion _ => ?_
  refine tidily_over (checkQuota _ _) (reads_checkQuota _ _).inert fun a u _ => ?_
  refine tidily_over (orQuotaError a) (silent_orQuotaError a).over fun _ v _ => ?_
  refine tidily_query fun _ w _ _ hw => safe_foundOr tidily_answer fun current hcurrent => ?_
  refine tidily_query fun _ x hwx _ _ => safe_foundOr tidily_answer fun maxVersion hmax => ?_
  obtain ⟨hmem, hin, hcur⟩ := Query.currentVersion_ok hcurrent
  have huser : current.userID = userID := (DB.inLineage_iff.1 hin).1
  refine tidily_write (fun y hxy newFileID => ⟨?_, fun f hf hfin => ?_⟩) fun a y => ?_
  · rw [hxy, hwx]
    exact huser ▸ hw.files current hmem hcur
  · rw [hxy] at hf
    exact Nat.lt_succ_of_le (Query.maxVersion_ok hmax hf hfin)
  · refine safe_foundOr tidily_answer fun file _ => ?_
    exact tidily_over (presignUpload file) (inert_presignUpload file) fun _ _ _ => trivial

/-! ### api-svc -/

theorem tidily_createFolder (userID : UUID) (body : Option FolderRequest) :
    Tidily deps q (createFolder userID body .ret) s := by
  refine safe_decodeBody tidily_answer fun req _ => safe_failIf tidily_answer fun _ => ?_
  have finish : ∀ p (t : Store), t.db.hasFolder userID p = true → Tidily deps q
      (write (.createFolder req.name userID p) fun a => foundOr 500 "could not create folder" a
        fun folder => .ret (.folder 201 folder)) t := fun p t hp =>
    tidily_write (fun u htu => by rw [htu]; exact hp) fun a u =>
      safe_foundOr tidily_answer fun _ _ => trivial
  show Tidily deps q (ownedParentID userID req.parentID _) s
  cases req.parentID with
  | none => exact finish none s rfl
  | some text =>
    refine safe_parseID tidily_answer fun id _ => tidily_query fun o t _ _ _ => ?_
    exact safe_foundOr tidily_answer fun f hf => finish _ t (hasFolder_of_folder hf)

/-- The check of a move is right when nothing runs in between: it answers false only when the walk up
does not pass the folder. -/
theorem tidily_isDescendant {userID folderID : UUID} {k : Except DbError Bool → Prog Stmt Reply}
    (htidy : s.db.Tidy) :
    ∀ (steps : ℕ) (current : UUID) (t : Store), t.db = s.db →
      (∀ f ∈ s.db.folders, f.id = current → f.userID = userID) →
      (∀ a (u : Store), u.db = s.db →
        (a = .ok false → ¬Climbs s.db.parentOf current folderID) → Tidily deps q (k a) u) →
      Tidily deps q (isDescendant userID folderID steps current k) t
  | 0, _, _, _, _, _ => trivial
  | steps + 1, current, t, hts, howner, h => by
    unfold isDescendant
    rw [Code.ite_run]
    split
    · exact h (.ok true) t hts fun he => by cases he
    · next hne =>
      refine tidily_query fun o u hut _ _ => ?_
      have hus := hut.trans hts
      have hstop : s.db.parentOf current = none → ¬Climbs s.db.parentOf current folderID := by
        intro hnone hclimb
        obtain he | ⟨y, hy, -⟩ := climbs_cases hclimb
        · exact hne he.symm
        · cases hnone.symm.trans hy
      rw [hus]
      cases ha : (Query.folderParent current userID).run o s.db with
      | error e =>
        cases e with
        | recordNotFound =>
          refine h (.ok false) u hus fun _ => hstop ?_
          cases hp : s.db.parentOf current with
          | none => rfl
          | some p =>
            obtain ⟨f, hf, hid, -⟩ := DB.parentOf_eq_some.1 hp
            exact absurd (howner f hf hid) (Query.folderParent_notFound ha hf hid)
        | other => exact h (.error .other) u hus fun he => by cases he
      | ok p =>
        obtain ⟨f, hf, hid, -, hp⟩ := Query.folderParent_ok ha
        have hparent : s.db.parentOf current = p := by
          rw [← hid, DB.parentOf_of_mem hf, hp]
        cases p with
        | none => exact h (.ok false) u hus fun _ => hstop hparent
        | some p =>
          refine tidily_isDescendant htidy steps p u hus (fun g hg hgp => ?_) fun a v hv ha' => ?_
          · obtain ⟨x, hx, hxid, hxuser⟩ := DB.hasFolder_some.1 (hp ▸ htidy.parents f hf)
            rw [Table.eq_of_key hg hx (hgp.trans hxid.symm), hxuser]
            exact howner f hf hid
          · refine h a v hv fun hfalse hclimb => ?_
            obtain he | ⟨y, hy, hclimb⟩ := climbs_cases hclimb
            · exact hne he.symm
            · obtain rfl : p = y := Option.some.inj (hparent.symm.trans hy)
              exact ha' hfalse hclimb

theorem tidily_moveFolder {userID : UUID} {steps : ℕ} {folder r : Folder} {parentID : Option GoString}
    {k : Folder → Prog Stmt Reply} (htidy : s.db.Tidy) (hr : r ∈ s.db.folders)
    (hid : r.id = folder.id) (huser : r.userID = userID) (hfuser : folder.userID = userID)
    (hparent : folder.parentID = r.parentID)
    (h : ∀ f (t : Store), t.db = s.db → WriteTidy t.db (.saveFolder f) → Tidily deps q (k f) t) :
    Tidily deps q (moveFolder userID folder.id steps folder parentID k) s := by
  match parentID with
  | none =>
    refine h folder s rfl ⟨r, hr, hid, huser.trans hfuser.symm, ?_, fun p hp => ?_⟩
    · rw [hfuser, hparent, ← huser]
      exact htidy.parents r hr
    · rw [← hid]
      exact (htidy.grounded r.id).not_climbs ((DB.parentOf_of_mem hr).trans (hparent ▸ hp))
  | some [] => exact h _ s rfl ⟨r, hr, hid, huser.trans hfuser.symm, rfl, fun p hp => by cases hp⟩
  | some (c :: text) =>
    refine safe_parseID tidily_answer fun p _ => tidily_query fun o t hts _ _ => ?_
    rw [hts]
    refine safe_foundOr tidily_answer fun parent hp => ?_
    obtain ⟨hpmem, hpid, hpuser⟩ := Query.folder_ok hp
    refine tidily_isDescendant htidy steps p t hts (fun f hf hfp => ?_) fun a u hus hclimb => ?_
    · rw [Table.eq_of_key hf hpmem (hfp.trans hpid.symm)]
      exact hpuser
    · refine safe_foundOr tidily_answer fun cyclic hcyclic => safe_failIf tidily_answer fun hc => ?_
      refine h _ u hus ?_
      rw [hus]
      refine ⟨r, hr, hid, huser.trans hfuser.symm, ?_, fun p' hp' => ?_⟩
      · rw [show ({ folder with parentID := some p } : Folder).userID = userID from hfuser]
        exact hasFolder_of_folder hp
      · obtain rfl := Option.some.inj hp'
        exact hclimb (by rw [hcyclic, Bool.not_eq_true _ |>.mp hc])

theorem tidily_updateFolder (userID : UUID) (id : GoString) (body : Option FolderRequest)
    (steps : ℕ) : Tidily deps q (updateFolder userID id body steps .ret) s := by
  refine safe_parseID tidily_answer fun id _ => tidily_query fun o t _ _ htidy => ?_
  refine safe_foundOr tidily_answer fun r hr => safe_decodeBody tidily_answer fun req _ => ?_
  obtain ⟨hmem, rfl, huser⟩ := Query.folder_ok hr
  have finish : ∀ f (u : Store), WriteTidy u.db (.saveFolder f) → Tidily deps q
      (write (.saveFolder f) fun a => foundOr 500 "could not update folder" a
        fun _ => .ret (.folder 200 f)) u := fun f u hf =>
    tidily_write (fun v huv => by rw [huv]; exact hf) fun a v =>
      safe_foundOr tidily_answer fun _ _ => trivial
  by_cases hname : req.name = []
  · simp only [hname, ne_eq, not_true_eq_false, if_false]
    exact tidily_moveFolder htidy hmem rfl huser huser rfl fun f u _ hf => finish f u hf
  · simp only [ne_eq, hname, not_false_eq_true, if_true]
    exact tidily_moveFolder htidy hmem rfl huser huser rfl
      fun f u _ hf => finish f u hf

theorem tidily_deleteFolder (userID : UUID) (id : GoString) :
    Tidily deps q (deleteFolder userID id .ret) s := by
  refine safe_parseID tidily_answer fun folderID _ => tidily_query fun o t _ _ _ => ?_
  refine safe_foundOr tidily_answer fun f hf => tidily_write (fun u hut => ?_) fun a u => ?_
  · rw [hut]
    exact ⟨f, Query.folder_ok hf⟩
  · refine safe_foundOr tidily_answer fun _ _ => ?_
    exact tidily_over (cleanupFiles _) (passing_cleanupFiles _).inert fun _ _ _ => trivial

theorem tidily_updateFile (userID : UUID) (id : GoString) (body : Option FileUpdateRequest) :
    Tidily deps q (updateFile userID id body .ret) s := by
  refine safe_parseID tidily_answer fun fileID _ => tidily_query fun o t _ _ htidy => ?_
  refine safe_foundOr tidily_answer fun r hr => safe_decodeBody tidily_answer fun req _ => ?_
  obtain ⟨hmem, -, huser⟩ := Query.file_ok hr
  have finish : ∀ f (u : Store), u.db = t.db → r.id = f.id → r.isCurrent = f.isCurrent →
      (f.isCurrent = true → t.db.hasFolder f.userID f.folderID = true) → Tidily deps q
      (write (.saveFile f) fun a => foundOr 500 "could not update file" a
        fun _ => .ret (.file f)) u := fun f u hut hid hcur hfolder =>
    tidily_write (fun v huv => by rw [huv, hut]; exact ⟨r, hmem, hid, hcur, hfolder⟩) fun a v =>
      safe_foundOr tidily_answer fun _ _ => trivial
  -- The name does not matter: every renamed row is moved alike.
  have move : ∀ f : File, r.id = f.id → r.isCurrent = f.isCurrent → f.userID = userID →
      f.folderID = r.folderID → Tidily deps q (moveFile userID f req.folderID fun f =>
        write (.saveFile f) fun a => foundOr 500 "could not update file" a
          fun _ => .ret (.file f)) t := by
    intro f hid hcur hfuser hfolder
    match req.folderID with
    | none =>
      refine finish f t rfl hid hcur fun hc => ?_
      rw [hfuser, hfolder, ← huser]
      exact htidy.files r hmem (hcur.trans hc)
    | some [] => exact finish _ t rfl hid hcur fun _ => rfl
    | some (c :: text) =>
      refine safe_parseID tidily_answer fun folderID _ => tidily_query fun o u hut _ _ => ?_
      refine safe_foundOr tidily_answer fun x hx => finish _ u hut hid hcur fun _ => ?_
      rw [hut] at hx
      rw [show ({ f with folderID := some folderID } : File).userID = userID from hfuser]
      exact hasFolder_of_folder hx
  show Tidily deps q (renameFile r req.name _) t
  match req.name with
  | none => exact move r rfl rfl huser rfl
  | some [] => trivial
  | some (c :: name) => exact move { r with name := c :: name } rfl rfl huser rfl

theorem tidily_restoreFileVersion (userID : UUID) (id versionID : GoString) :
    Tidily deps q (restoreFileVersion userID id versionID .ret) s := by
  refine safe_parseID tidily_answer fun fileID _ => safe_parseID tidily_answer fun targetID _ => ?_
  refine tidily_query fun o t _ _ _ => safe_foundOr tidily_answer fun file _ => ?_
  refine tidily_query fun o' u _ _ _ => safe_found tidily_answer fun target htarget => ?_
  refine safe_failIf tidily_answer fun _ => tidily_write (fun v huv => ?_) fun a v => ?_
  · rw [huv]
    exact ⟨target, (Query.file_ok htarget).1, rfl⟩
  · exact safe_foundOr tidily_answer fun _ _ => trivial

/-- Every handler that runs alone makes tidy writes. -/
theorem tidily_handler (q : Request) : Tidily deps q (q.handler deps .ret) s := by
  cases q with
  | presign userID body => exact tidily_presign userID body
  | complete userID id => exact tidily_complete userID id
  | presignVersion userID id body => exact tidily_presignVersion userID id body
  | createFolder userID body => exact tidily_createFolder userID body
  | updateFolder userID id body steps => exact tidily_updateFolder userID id body steps
  | deleteFolder userID id => exact tidily_deleteFolder userID id
  | updateFile userID id body => exact tidily_updateFile userID id body
  | restoreFileVersion userID id versionID => exact tidily_restoreFileVersion userID id versionID
  | _ => exact Outline.safe_of_trivial (fun _ _ hq => by cases hq) (fun _ => trivial) _ _

end Handlers

/-! ## The outline is valid -/

/-- **Tidiness**, together with provenance, holds along every run of one request at a time whose
restored versions and finished uploads go to folders that exist. -/
theorem tidy_seqValid (deps : Deps) : ((provenance deps).inf (tidy deps)).SeqValid where
  rely_refl s := ⟨.refl s, rfl⟩
  start _ h hq := by
    obtain ⟨hwf, -, htidy⟩ := h
    have hdb := (launch_cases hq).1
    exact ⟨hwf.launch hq, hwf.launch hq, hdb ▸ htidy⟩
  safe _ h hq _ := (known_handler h.1 hq).inf (tidily_handler _)
  call h hpre hc hx := by
    obtain ⟨hwf, -, htidy⟩ := h
    obtain ⟨hknown, hpre⟩ := hpre
    have hwf' := hwf.exec hknown hx
    refine ⟨hwf', hwf', ?_⟩
    rename_i q o α e a s s'
    rw [services_exec] at hx
    cases e with
    | write w =>
      obtain ⟨db', hw, rfl⟩ := exec_write hx
      exact htidy.write hwf hknown hpre hc.2.1 hc.2.2 hw
    | _ => exact (exec_db rfl hx) ▸ htidy
  env _ h hv := by
    obtain ⟨hwf, -, htidy⟩ := h
    exact ⟨hwf.env hv, hwf.env hv, (env_cases hv).1 ▸ htidy⟩

end Optiflow
