import Optiflow.Proof.Deleted

/-!
# Lineages around their roots

`parent_id` is nil or the id of the first version.  No constraint of the database says so: both copies
of `lineageRootID` take the parent of whatever row they are given for the root.  `DB.Rooted` says that
the root of every row is a row too.  When requests run one at a time, what a handler has read of a
lineage still holds when it writes, and every write keeps lineages rooted and in shape
(`rooted_sequential`), whatever becomes of the folders.
-/

namespace Optiflow

open Interleave UploadSvc ApiSvc

/-! ## The invariant -/

/-- Lineages are in shape, and the root of every row is a row. -/
structure DB.Rooted (db : DB) : Prop where
  lineages : db.Lineages
  root : ∀ f ∈ db.files, ∃ r ∈ db.files, r.id = f.lineageRootID

/-- The requests that change a lineage by what they have read. -/
def Request.versions : Request → Bool
  | .complete _ _ => true
  | .presignVersion _ _ _ => true
  | .updateFile _ _ _ => true
  | .restoreFileVersion _ _ _ => true
  | _ => false

/-- What holds of a write when its request has run alone. -/
def WriteRooted (db : DB) {α : Type} : Write α → Prop
  | .presignVersion userID root mk => (∃ f ∈ db.files, DB.inLineage userID root f = true) ∧
      ∀ id, ∀ f ∈ db.files, DB.inLineage userID root f = true → f.version < (mk id).version
  | .saveFile f => ∃ r ∈ db.files, r.id = f.id ∧ r.isCurrent = f.isCurrent
  | .restoreVersion _ _ targetID => ∃ t ∈ db.files, t.id = targetID
  | _ => True

/-- Other calls need know nothing. -/
def StmtRooted (db : DB) {α : Type} : Stmt α → Prop
  | .write w => WriteRooted db w
  | _ => True

/-- The outline of requests that run one at a time, about lineages only. -/
def rooted (deps : Deps) : Outline (services deps) where
  inv s := WellFormed s ∧ s.db.Rooted
  rely s t := t.db = s.db
  pre q _ e s := q.versions = true → StmtRooted s.db e
  post _ _ := True
  cond _ := True

/-! ## Writes keep lineages rooted -/

section Writes

variable {s : Store} {q : Request} {α : Type} {o : Oracle} {db' : DB}

/-- The root of a lineage is its user's and has no parent. -/
theorem DB.Rooted.exists_root (h : s.db.Rooted) (hs : WellFormed s) {f : File} (hf : f ∈ s.db.files) :
    ∃ r ∈ s.db.files, r.id = f.lineageRootID ∧ r.userID = f.userID ∧ r.parentID = none := by
  obtain ⟨r, hr, hid⟩ := h.root f hf
  obtain ⟨b, hb, hbid, hbp, hbuser⟩ := hs.rootKnown (hs.file f hf)
  have hident := (hs.file r hr).identity_eq ⟨b, hb, rfl⟩ (hid.trans hbid.symm)
  exact ⟨r, hr, hid, (congrArg File.Identity.userID hident).trans hbuser,
    (congrArg File.Identity.parentID hident).trans hbp⟩

/-- The root of a lineage belongs to it. -/
theorem DB.Rooted.root_lineage (h : s.db.Rooted) (hs : WellFormed s) {f : File} (hf : f ∈ s.db.files) :
    ∃ r ∈ s.db.files, r.id = f.lineageRootID ∧ r.lineage = f.lineage := by
  obtain ⟨r, hr, hid, huser, hp⟩ := h.exists_root hs hf
  refine ⟨r, hr, hid, ?_⟩
  rw [File.lineage, File.lineage, huser, ← hid, File.lineageRootID, hp, Option.getD_none]

/-- Rows that are changed one by one keep their roots. -/
theorem DB.Rooted.of_rows {db db' : DB} (h : db.Rooted) (hl : db'.Lineages)
    (hback : ∀ g ∈ db'.files, ∃ f ∈ db.files, f.lineageRootID = g.lineageRootID)
    (hkeep : ∀ f ∈ db.files, ∃ g ∈ db'.files, g.id = f.id) : db'.Rooted := by
  refine ⟨hl, fun g hg => ?_⟩
  obtain ⟨f, hf, hroot⟩ := hback g hg
  obtain ⟨r, hr, hid⟩ := h.root f hf
  obtain ⟨r', hr', hid'⟩ := hkeep r hr
  exact ⟨r', hr', hid'.trans (hid.trans hroot)⟩

/-- Whole lineages go with their roots. -/
theorem DB.Rooted.leavesWhole (h : s.db.Rooted) (hs : WellFormed s) (hw : s.db.LeavesWhole db') :
    db'.Rooted := by
  constructor
  · exact h.lineages.sep (fun f hf => hw.toShrinks.files f hf) fun f hf g hg hfg =>
      hw.whole f hf g hg hfg
  · intro g hg
    obtain ⟨r, hr, hid, hrg⟩ := h.root_lineage hs (hw.toShrinks.files g hg)
    exact ⟨r, hw.whole r hr g hg hrg, hid⟩

theorem DB.Rooted.write (h : s.db.Rooted) (hs : WellFormed s) {w : Write α} {a : Except DbError α}
    (hw : WriteKnown s q w) (ht : q.versions = true → WriteRooted s.db w)
    (hrun : w.run o s.issued s.db = some (a, db')) : db'.Rooted := by
  cases w with
  | createFile mk =>
    obtain ⟨-, rfl⟩ | ⟨hu, -, -, -, rfl⟩ := Write.createFile_cases hrun
    · exact h
    · have hp : (mk o.uuid).columnDefaults.parentID = none := (hw o.uuid).1
      refine ⟨h.lineages.createFile hs hu hp rfl, fun f hf => ?_⟩
      rcases (Table.mem_insert hu).1 hf with rfl | hf
      · exact ⟨_, hf, by rw [File.lineageRootID, hp, Option.getD_none]⟩
      · obtain ⟨r, hr, hid⟩ := h.root f hf
        exact ⟨r, (Table.mem_insert hu).2 (Or.inr hr), hid⟩
  | presignVersion userID root mk =>
    obtain ⟨-, rfl⟩ | ⟨hu, -, -, -, rfl⟩ := Write.presignVersion_cases hrun
    · exact h
    · obtain ⟨⟨id, body, rfl⟩, hroot, hmk⟩ := hw
      obtain ⟨-, huser, hp, hne, -⟩ := hmk o.uuid
      obtain ⟨⟨x, hx, hxin⟩, hver⟩ := ht rfl
      have hl := h.lineages.presignVersion hs hroot hu huser hp rfl fun g hg hin => by
        simpa [File.columnDefaults, hne] using hver o.uuid g hg hin
      refine ⟨hl, fun f hf => ?_⟩
      rcases (Table.mem_insert hu).1 hf with rfl | hf
      · have hxroot := congrArg Prod.snd ((hroot.inLineage_iff (hs.file x hx)).1 hxin)
        obtain ⟨r, hr, hid⟩ := h.root x hx
        obtain ⟨r', hr', hid'⟩ := Write.keeps_ids rfl hrun hr
        refine ⟨r', hr', hid'.trans (hid.trans (hxroot.trans ?_))⟩
        show root = ((mk o.uuid).columnDefaults).lineageRootID
        rw [File.lineageRootID, show (mk o.uuid).columnDefaults.parentID = some root from hp]
        rfl
      · obtain ⟨g, hg, rfl⟩ := DB.mem_supersede.1 hf
        obtain ⟨r, hr, hid⟩ := h.root g hg
        obtain ⟨r', hr', hid'⟩ := Write.keeps_ids rfl hrun hr
        refine ⟨r', hr', hid'.trans (hid.trans ?_)⟩
        split <;> rfl
  | saveFile f =>
    obtain ⟨-, rfl⟩ | ⟨-, rfl⟩ := Write.saveFile_cases hrun
    · exact h
    · have hversions : q.versions = true := by
        obtain ⟨⟨userID, id, rfl⟩ | ⟨userID, id, body, rfl⟩, -⟩ := hw <;> rfl
      obtain ⟨r, hr, hid, hcur⟩ := ht hversions
      have hident := (hs.file r hr).identity_eq hw.2 hid
      refine h.of_rows (h.lineages.saveFile hr hid hident hcur) (fun g hg => ?_)
        fun _ => Write.keeps_ids rfl hrun
      rcases DB.mem_saveFile.1 hg with rfl | ⟨hg, -⟩
      · rw [DB.savedRow_of_mem hr hid]
        exact ⟨r, hr, lineageRootID_congr hident⟩
      · exact ⟨g, hg, rfl⟩
  | restoreVersion userID root targetID =>
    obtain ⟨-, rfl⟩ | ⟨-, rfl⟩ := Write.restoreVersion_cases hrun
    · exact h
    · obtain ⟨⟨id, versionID, rfl⟩, hroot, hversion⟩ := hw
      obtain ⟨t, htmem, htid⟩ := ht rfl
      have hlineage := hversion.lineage hs htmem htid
      refine h.of_rows (h.lineages.restoreVersion hs hroot htmem htid hlineage) (fun g hg => ?_)
        fun _ => Write.keeps_ids rfl hrun
      obtain ⟨x, hx, rfl⟩ := DB.mem_setCurrent.1 hg
      obtain ⟨f, hf, rfl⟩ := DB.mem_supersede.1 hx
      refine ⟨f, hf, ?_⟩
      split <;> split <;> rfl
  | deleteFile userID root =>
    obtain ⟨-, rfl⟩ | ⟨-, rfl⟩ := Write.deleteFile_cases hrun
    · exact h
    · exact h.leavesWhole hs (DB.leavesWhole_deleteFiles fun f hf g hg hfg hdel =>
        hw.2.lineageFiles_closed hs hf hg hfg hdel.1)
  | updateFile id u =>
    obtain ⟨-, rfl⟩ | ⟨-, rfl⟩ := Write.updateFile_cases hrun
    · exact h
    · refine h.of_rows (h.lineages.updateFile id u) (fun g hg => ?_)
        fun _ => Write.keeps_ids rfl hrun
      obtain ⟨f, hf, rfl⟩ := DB.mem_updateFile.1 hg
      refine ⟨f, hf, ?_⟩
      split <;> rfl
  | deleteFolder userID folderID =>
    obtain ⟨-, rfl⟩ | ⟨versions, -, hd⟩ := Write.deleteFolder_cases hrun
    · exact h
    · exact h.leavesWhole hs (DB.leavesWhole_deleteFolderTree hs hd)
  | _ =>
    obtain ⟨folders, shares, tokens, rfl⟩ := Write.leaves_files rfl hrun
    exact ⟨h.lineages, h.root⟩

end Writes

/-! ## Reading handlers -/

section Handlers

variable {deps : Deps} {q : Request} {s : Store} {α : Type}

/-- Reading a program against `rooted`. -/
abbrev RootedSafe (deps : Deps) (q : Request) (p : Prog Stmt Reply) (s : Store) : Prop :=
  (rooted deps).Safe q p s

theorem rooted_answer (status : ℕ) (message : String) :
    (rooted deps).post q (.error status message) := trivial

theorem rooted_over (c : Handler α) {k : α → Prog Stmt Reply} (hc : Inert true c)
    (h : ∀ a (t : Store), t.db = s.db → RootedSafe deps q (k a) t) : RootedSafe deps q (c k) s := by
  refine safe_over (fun hst => hst) (fun {_ e} t he _ => ?_) (fun _ => trivial) c hc h
  cases e with
  | write w => exact he.elim
  | _ => trivial

theorem rooted_query {qy : Query α} {k : Except DbError α → Prog Stmt Reply}
    (h : ∀ o (t : Store), t.db = s.db → RootedSafe deps q (k (qy.run o t.db)) t) :
    RootedSafe deps q (query qy k) s :=
  safe_query (fun _ _ _ _ => trivial) fun o t hst _ _ => h o t hst

/-- After its write, a handler need know nothing more. -/
theorem rooted_write {w : Write α} {k : Except DbError α → Prog Stmt Reply}
    (hw : WriteRooted s.db w) (h : ∀ a t, RootedSafe deps q (k a) t) :
    RootedSafe deps q (write w k) s :=
  safe_write (fun t hst _ _ => by rw [hst]; exact hw) fun o a t db' _ _ _ _ _ => h a { t with db := db' }

theorem rooted_complete (userID : UUID) (id : GoString) :
    RootedSafe deps q (complete userID id .ret) s := by
  refine safe_parseID rooted_answer fun id _ => rooted_query fun o t _ => ?_
  refine safe_found rooted_answer fun file hf => safe_failIf rooted_answer fun _ => ?_
  obtain ⟨hmem, -, -⟩ := Query.file_ok hf
  refine rooted_over (bucket _) (over_bucket _ fun _ => rfl) fun size u htu => ?_
  cases size with
  | none => trivial
  | some size =>
    refine rooted_write ⟨file, htu ▸ hmem, rfl, rfl⟩ fun a v => ?_
    refine safe_foundOr rooted_answer fun _ _ => ?_
    cases processingTask (completed file size) with
    | none => trivial
    | some task => exact safe_call (fun _ _ _ _ => trivial) fun _ _ _ _ _ _ _ _ _ => trivial

theorem rooted_presignVersion (userID : UUID) (id : GoString) (body : Option PresignVersionRequest) :
    RootedSafe deps q (presignVersion userID id body .ret) s := by
  refine safe_parseID rooted_answer fun fileID _ => safe_decodeBody rooted_answer fun req _ => ?_
  refine safe_failIf rooted_answer fun _ => rooted_query fun o t _ => ?_
  refine safe_found rooted_answer fun anyVersion _ => ?_
  refine rooted_over (checkQuota _ _) (reads_checkQuota _ _).inert fun a u _ => ?_
  refine rooted_over (orQuotaError a) (silent_orQuotaError a).over fun _ v _ => ?_
  refine rooted_query fun _ w _ => safe_foundOr rooted_answer fun current hcurrent => ?_
  refine rooted_query fun _ x hwx => safe_foundOr rooted_answer fun maxVersion hmax => ?_
  obtain ⟨hmem, hin, -⟩ := Query.currentVersion_ok hcurrent
  refine rooted_write ⟨⟨current, hwx ▸ hmem, hin⟩, fun newFileID f hf hfin => ?_⟩ fun a y => ?_
  · exact Nat.lt_succ_of_le (Query.maxVersion_ok hmax hf hfin)
  · refine safe_foundOr rooted_answer fun file _ => ?_
    exact rooted_over (presignUpload file) (inert_presignUpload file) fun _ _ _ => trivial

theorem rooted_updateFile (userID : UUID) (id : GoString) (body : Option FileUpdateRequest) :
    RootedSafe deps q (updateFile userID id body .ret) s := by
  refine safe_parseID rooted_answer fun fileID _ => rooted_query fun o t _ => ?_
  refine safe_foundOr rooted_answer fun r hr => safe_decodeBody rooted_answer fun req _ => ?_
  obtain ⟨hmem, -, -⟩ := Query.file_ok hr
  have finish : ∀ f (u : Store), u.db = t.db → r.id = f.id → r.isCurrent = f.isCurrent →
      RootedSafe deps q (write (.saveFile f) fun a => foundOr 500 "could not update file" a
        fun _ => .ret (.file f)) u := fun f u hut hid hcur =>
    rooted_write ⟨r, hut ▸ hmem, hid, hcur⟩ fun a v => safe_foundOr rooted_answer fun _ _ => trivial
  -- The name does not matter: every renamed row is moved alike.
  have move : ∀ f : File, r.id = f.id → r.isCurrent = f.isCurrent →
      RootedSafe deps q (moveFile userID f req.folderID fun f => write (.saveFile f) fun a =>
        foundOr 500 "could not update file" a fun _ => .ret (.file f)) t := by
    intro f hid hcur
    match req.folderID with
    | none => exact finish f t rfl hid hcur
    | some [] => exact finish _ t rfl hid hcur
    | some (c :: text) =>
      refine safe_parseID rooted_answer fun folderID _ => rooted_query fun o u hut => ?_
      exact safe_foundOr rooted_answer fun x _ => finish _ u hut hid hcur
  show RootedSafe deps q (renameFile r req.name _) t
  match req.name with
  | none => exact move r rfl rfl
  | some [] => trivial
  | some (c :: name) => exact move { r with name := c :: name } rfl rfl

theorem rooted_restoreFileVersion (userID : UUID) (id versionID : GoString) :
    RootedSafe deps q (restoreFileVersion userID id versionID .ret) s := by
  refine safe_parseID rooted_answer fun fileID _ => safe_parseID rooted_answer fun targetID _ => ?_
  refine rooted_query fun o t _ => safe_foundOr rooted_answer fun file _ => ?_
  refine rooted_query fun o' u _ => safe_found rooted_answer fun target htarget => ?_
  refine safe_failIf rooted_answer fun _ => ?_
  exact rooted_write ⟨target, (Query.file_ok htarget).1, rfl⟩ fun a v =>
    safe_foundOr rooted_answer fun _ _ => trivial

/-- Every handler that runs alone makes its writes by what is there. -/
theorem rooted_handler (q : Request) : RootedSafe deps q (q.handler deps .ret) s := by
  cases q with
  | complete userID id => exact rooted_complete userID id
  | presignVersion userID id body => exact rooted_presignVersion userID id body
  | updateFile userID id body => exact rooted_updateFile userID id body
  | restoreFileVersion userID id versionID => exact rooted_restoreFileVersion userID id versionID
  | _ => exact Outline.safe_of_trivial (fun _ _ hq => by cases hq) (fun _ => trivial) _ _

end Handlers

/-! ## Every sequential run -/

theorem rooted_seqValid (deps : Deps) : ((provenance deps).inf (rooted deps)).SeqValid where
  rely_refl s := ⟨.refl s, rfl⟩
  start _ h hq := by
    obtain ⟨hwf, -, hroot⟩ := h
    exact ⟨hwf.launch hq, hwf.launch hq, (launch_cases hq).1 ▸ hroot⟩
  safe _ h hq _ := (known_handler h.1 hq).inf (rooted_handler _)
  call {q o α e a s s'} h hpre _ hx := by
    obtain ⟨hwf, -, hroot⟩ := h
    obtain ⟨hknown, hpre⟩ := hpre
    have hwf' := hwf.exec hknown hx
    refine ⟨hwf', hwf', ?_⟩
    rw [services_exec] at hx
    cases e with
    | write w =>
      obtain ⟨db', hw, rfl⟩ := exec_write hx
      exact hroot.write hwf hknown hpre hw
    | _ => exact (exec_db rfl hx) ▸ hroot
  env _ h hv := by
    obtain ⟨hwf, -, hroot⟩ := h
    exact ⟨hwf.env hv, hwf.env hv, (env_cases hv).1 ▸ hroot⟩

theorem rooted_fresh (users : Table User) : (Store.fresh users).db.Rooted :=
  ⟨lineages_fresh users, fun _ hf => absurd hf Table.not_mem_empty⟩

/-- Lineages are rooted and in shape in every state that requests running one at a time reach. -/
theorem rooted_sequential (deps : Deps) (users : Table User) {c : Services}
    (h : (services deps).Reaches Machine.sequential (start (Store.fresh users)) c) :
    WellFormed c.store ∧ c.store.db.Rooted := by
  have hwf := wellFormed_fresh users
  obtain ⟨⟨hs, -, hroot⟩, -⟩ := (rooted_seqValid deps).good h (Outline.good_init ⟨hwf, hwf, rooted_fresh users⟩)
    (Outline.oneRunning_init _) fun _ _ => ⟨trivial, trivial⟩
  exact ⟨hs, hroot⟩

end Optiflow
