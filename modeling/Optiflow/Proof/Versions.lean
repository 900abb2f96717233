import Optiflow.Proof.Admission
import Optiflow.Proof.Browsing
import Optiflow.Proof.Links
import Optiflow.Proof.Rooted
import Optiflow.Proof.Smoothly
import Optiflow.Proof.Subtree
import Optiflow.Proof.UploadStart

/-!
# Operations on a lineage

What listing, a new version, a restore and a delete do when they are asked of any row of a lineage, in a
store that requests running one at a time have left (`lineage_operations_exact`).
-/

namespace Optiflow

open Interleave Family UploadSvc ApiSvc

/-! ## The property -/

/-- `current` is the current row of a lineage, and `db'` is `db` with `x` as a new version of it. -/
structure DB.AddsVersion (db : DB) (current x : File) (db' : DB) : Prop where
  mem : current ∈ db.files
  wasCurrent : current.isCurrent = true
  fresh : ∀ g ∈ db.files, g.id ≠ x.id
  lineage : x.lineage = current.lineage
  newest : ∀ g ∈ db.files, g.lineage = current.lineage → g.version < x.version
  name : x.name = current.name
  folder : x.folderID = current.folderID
  isCurrent : x.isCurrent = true
  rows : db'.files.rows = (db.files.rows.map fun g =>
    if g.lineage = current.lineage then g.withCurrent false else g) ++ [x]
  others : db' = { db with files := db'.files }

/-- The tables with `id` as the only current row of the lineage. -/
def DB.withCurrentVersion (db : DB) (lineage : UUID × UUID) (id : UUID) : DB :=
  { db with
    files := db.files.modify (fun g => g.lineage = lineage) (fun g => g.withCurrent (g.id = id))
      fun g => File.key_withCurrent _ g }

/-- `db'` is `db` without the rows of the lineage and their shares. -/
structure DB.WithoutLineage (db : DB) (lineage : UUID × UUID) (db' : DB) : Prop where
  files : ∀ g, g ∈ db'.files ↔ g ∈ db.files ∧ g.lineage ≠ lineage
  shares : ∀ sh, sh ∈ db'.shares ↔
    sh ∈ db.shares ∧ ¬∃ g ∈ db.files, g.lineage = lineage ∧ g.id = sh.fileID
  users : db'.users = db.users
  folders : db'.folders = db.folders

/-- Run alone without a failing call, the request ends in `Φ`. -/
abbrev Succeeds (deps : Deps) (q : Request) (s : Store) (Φ : Reply → Store → Prop) : Prop :=
  (services deps).Performs (fun st => succeeds st = true) q ((services deps).handler q) s Φ

/-- Stores that restores within a lineage lead to, one after the other, each asked of any of its rows. -/
inductive Restores (deps : Deps) (lineage : UUID × UUID) : Store → Store → Prop
  | refl (s : Store) : Restores deps lineage s s
  | step {s t u : Store} {f : File} {id versionID : GoString} {tr : List ServiceStep} {r : Reply} :
      Restores deps lineage s t → f ∈ t.db.files → f.lineage = lineage →
      UUID.parse id = some f.id →
      (services deps).Finishes (.restoreFileVersion f.userID id versionID)
        ((services deps).handler (.restoreFileVersion f.userID id versionID)) t tr r u →
      Restores deps lineage s u

/-- What the requests that name the row `f` do. -/
structure LineageOperations (deps : Deps) (s : Store) (f : File) : Prop where
  flat : f.parentID = none ∨
    ∃ r ∈ s.db.files, f.parentID = some r.id ∧ r.userID = f.userID ∧ r.parentID = none
  list : ∀ g ∈ s.db.files, g.lineage = f.lineage → ∀ id, UUID.parse id = some g.id →
    Succeeds deps (.listFileVersions g.userID id) s fun r _ =>
      r = .files (s.db.lineageFiles f.userID f.lineageRootID)
  listed : (s.db.lineageFiles f.userID f.lineageRootID).Nodup ∧
    ∀ g, g ∈ s.db.lineageFiles f.userID f.lineageRootID ↔ g ∈ s.db.files ∧ g.lineage = f.lineage
  presign : ∀ id, UUID.parse id = some f.id → ∀ req : PresignVersionRequest, 0 < req.sizeBytes →
    req.mimeType ≠ [] → s.db.withinQuota f.userID req.sizeBytes = true → (∃ a, s.canDraw a) →
    Succeeds deps (.presignVersion f.userID id (some req)) s fun r t => r.isError = false ∧
      ∃ current x, current.lineage = f.lineage ∧ s.db.AddsVersion current x t.db
  presign_any : ∀ id, UUID.parse id = some f.id → ∀ body tr r t,
    (services deps).Finishes (.presignVersion f.userID id body)
      ((services deps).handler (.presignVersion f.userID id body)) s tr r t →
    (r.isError = true ∧ t.db = s.db) ∨
      ∃ current x, current.lineage = f.lineage ∧ s.db.AddsVersion current x t.db
  restore : ∀ id versionID v, UUID.parse id = some f.id → UUID.parse versionID = some v →
    Succeeds deps (.restoreFileVersion f.userID id versionID) s fun r _ =>
      r.isError = false ↔ ∃ g ∈ s.db.files, g.id = v ∧ g.lineage = f.lineage
  restore_any : ∀ id versionID v, UUID.parse id = some f.id → UUID.parse versionID = some v →
    ∀ tr r t, (services deps).Finishes (.restoreFileVersion f.userID id versionID)
      ((services deps).handler (.restoreFileVersion f.userID id versionID)) s tr r t →
    if r.isError = true then t = s
    else (∃ g ∈ s.db.files, g.id = v ∧ g.lineage = f.lineage) ∧
      t = { s with db := s.db.withCurrentVersion f.lineage v }
  delete : ∀ id, UUID.parse id = some f.id →
    Succeeds deps (.deleteFile f.userID id) s fun r t =>
      r = .noContent ∧ s.db.WithoutLineage f.lineage t.db
  delete_any : ∀ id, UUID.parse id = some f.id → ∀ tr r t,
    (services deps).Finishes (.deleteFile f.userID id)
      ((services deps).handler (.deleteFile f.userID id)) s tr r t →
    if r = .noContent then s.db.WithoutLineage f.lineage t.db else t.db = s.db

/-! ## The tables -/

section Tables

variable {s : Store} {f : File}

/-- The statements that select by the user and the root of a row select its lineage. -/
theorem WellFormed.inLineage_iff (hs : WellFormed s) (hf : f ∈ s.db.files) {g : File}
    (hg : g ∈ s.db.files) :
    DB.inLineage f.userID f.lineageRootID g = true ↔ g.lineage = f.lineage :=
  (hs.rootKnown (hs.file f hf)).inLineage_iff (hs.file g hg)

/-- Sequential stores meet what the deletion of folders relies on. -/
theorem DB.Rooted.flatLineages (h : s.db.Rooted) (hs : WellFormed s) : s.db.FlatLineages := by
  have huser : ∀ f ∈ s.db.files, ∀ g ∈ s.db.files, f.lineageRootID = g.lineageRootID →
      f.userID = g.userID := by
    intro f hf g hg hroot
    obtain ⟨r, hr, hid, hrf, -⟩ := h.exists_root hs hf
    obtain ⟨r', hr', hid', hrg, -⟩ := h.exists_root hs hg
    obtain rfl := Table.eq_of_key hr hr' (hid.trans (hroot.trans hid'.symm))
    exact hrf.symm.trans hrg
  refine ⟨fun f hf g hg hp => ?_, huser, fun f hf => ?_⟩
  · obtain ⟨r, hr, hid, -, hrp⟩ := h.exists_root hs hf
    have hroot : f.lineageRootID = g.id := by rw [File.lineageRootID, hp, Option.getD_some]
    obtain rfl := Table.eq_of_key hr hg (hid.trans hroot)
    exact hrp
  · obtain ⟨g, ⟨hg, hgf, hcur⟩, huniq⟩ := h.lineages.current f hf
    refine ⟨g, ⟨hg, congrArg Prod.snd hgf, hcur⟩, ?_⟩
    rintro x ⟨hx, hroot, hxcur⟩
    exact huniq x ⟨hx, Prod.ext (huser x hx f hf hroot) hroot, hxcur⟩

/-- Superseding a lineage, by its rows. -/
theorem WellFormed.supersede_rows (hs : WellFormed s) (hf : f ∈ s.db.files) :
    (s.db.supersede f.userID f.lineageRootID).files.rows = s.db.files.rows.map fun g =>
      if g.lineage = f.lineage then g.withCurrent false else g := by
  refine List.map_congr_left fun g hg => ?_
  by_cases hin : g.lineage = f.lineage
  · rw [if_pos ((hs.inLineage_iff hf hg).2 hin), if_pos hin]
  · rw [if_neg (mt (hs.inLineage_iff hf hg).1 hin), if_neg hin]

/-- The row that the transaction of a new version inserts. -/
theorem WellFormed.addsVersion (hs : WellFormed s) (hf : f ∈ s.db.files) {current x : File}
    (hmem : current ∈ s.db.files) (hin : DB.inLineage f.userID f.lineageRootID current = true)
    (hcur : current.isCurrent = true)
    (hu : ¬(s.db.supersede f.userID f.lineageRootID).files.Used (key x)) (huser : x.userID = f.userID)
    (hp : x.parentID = some f.lineageRootID) (hxcur : x.isCurrent = true)
    (hversion : ∀ g ∈ s.db.files, DB.inLineage f.userID f.lineageRootID g = true → g.version < x.version)
    (hname : x.name = current.name) (hfolder : x.folderID = current.folderID) :
    s.db.AddsVersion current x { s.db.supersede f.userID f.lineageRootID with
      files := (s.db.supersede f.userID f.lineageRootID).files.insert x hu } := by
  have hlineage : current.lineage = f.lineage := (hs.inLineage_iff hf hmem).1 hin
  refine ⟨hmem, hcur, fun g hg hid => hu ?_, ?_, fun g hg hgl => ?_, hname, hfolder, hxcur, ?_, rfl⟩
  · show s.db.files.Used x.id
    rw [← hid]
    exact Table.used_of_mem hg
  · rw [hlineage, File.lineage, huser, File.lineageRootID, hp]
    rfl
  · exact hversion g hg ((hs.inLineage_iff hf hg).2 (hgl.trans hlineage))
  · rw [hlineage, ← hs.supersede_rows hf]
    rfl

/-- A restore makes its target the only current row of the lineage. -/
theorem WellFormed.setCurrent_eq (hs : WellFormed s) (hf : f ∈ s.db.files) {t : File}
    (ht : t ∈ s.db.files) (hlineage : t.lineage = f.lineage) :
    (s.db.supersede f.userID f.lineageRootID).setCurrent t.id =
      s.db.withCurrentVersion f.lineage t.id := by
  unfold DB.withCurrentVersion DB.setCurrent DB.supersede
  simp only [DB.mk.injEq, true_and, and_true]
  refine Table.modify_modify _ _ _ fun g hg => ?_
  by_cases hin : g.lineage = f.lineage
  · rw [if_pos ((hs.inLineage_iff hf hg).2 hin)]
    by_cases hid : g.id = t.id
    · simp [hin, hid, File.withCurrent]
    · simp [hin, hid, File.withCurrent]
  · have hid : g.id ≠ t.id := fun hid => hin (Table.eq_of_key hg ht hid ▸ hlineage)
    rw [if_neg (mt (hs.inLineage_iff hf hg).1 hin)]
    simp [hin, hid]

/-- Of two restores the later one counts. -/
theorem DB.withCurrentVersion_twice (db : DB) (lineage : UUID × UUID) (id id' : UUID) :
    (db.withCurrentVersion lineage id).withCurrentVersion lineage id' =
      db.withCurrentVersion lineage id' := by
  unfold DB.withCurrentVersion
  simp only [DB.mk.injEq, true_and, and_true]
  refine Table.modify_modify _ _ _ fun g _ => ?_
  by_cases hin : g.lineage = lineage
  · have hin' : (g.withCurrent (g.id = id)).lineage = lineage := hin
    simp only [hin, hin', decide_true, if_true]
    rfl
  · simp [hin]

/-- Deleting a lineage, with its shares. -/
theorem DB.withoutLineage_deleteFiles (hs : WellFormed s) (hl : Linked s) (hf : f ∈ s.db.files) :
    s.db.WithoutLineage f.lineage (s.db.deleteFiles f.userID
      ((s.db.lineageFiles f.userID f.lineageRootID).map File.id)) := by
  have hid : ∀ g ∈ s.db.files, g.id ∈ (s.db.lineageFiles f.userID f.lineageRootID).map File.id ↔
      g.lineage = f.lineage := by
    intro g hg
    rw [List.mem_map, ← hs.inLineage_iff hf hg]
    constructor
    · rintro ⟨x, hx, hxg⟩
      obtain ⟨hxmem, hin⟩ := DB.mem_lineageFiles.1 hx
      rwa [Table.eq_of_key hg hxmem hxg.symm]
    · exact fun hin => ⟨g, DB.mem_lineageFiles.2 ⟨hg, hin⟩, rfl⟩
  refine ⟨fun g => ?_, fun sh => ?_, rfl, rfl⟩
  · rw [DB.mem_deleteFiles]
    refine and_congr_right fun hg => not_congr ?_
    rw [hid g hg]
    exact and_iff_left_of_imp fun hin => congrArg Prod.fst hin
  · have hmem : sh ∈ (s.db.deleteFiles f.userID
        ((s.db.lineageFiles f.userID f.lineageRootID).map File.id)).shares ↔ sh ∈ s.db.shares ∧
        ¬(sh.fileID ∈ (s.db.lineageFiles f.userID f.lineageRootID).map File.id ∧
          sh.userID = f.userID) := by
      rw [DB.deleteFiles, DB.mem_deleteShares]
      simp
    rw [hmem]
    refine and_congr_right fun hsh => not_congr ⟨?_, ?_⟩
    · rintro ⟨hshared, -⟩
      obtain ⟨g, hg, hgid⟩ := List.mem_map.1 hshared
      obtain ⟨hgmem, hin⟩ := DB.mem_lineageFiles.1 hg
      exact ⟨g, hgmem, (hs.inLineage_iff hf hgmem).1 hin, hgid⟩
    · rintro ⟨g, hg, hin, hgid⟩
      refine ⟨hgid ▸ (hid g hg).2 hin, ?_⟩
      -- The share is its file's user's.
      obtain ⟨b, hb, hbid, hbuser⟩ := hl.share sh hsh
      have hident := (hs.file g hg).identity_eq ⟨b, hb, rfl⟩ (hgid.trans hbid.symm)
      exact hbuser.symm.trans ((congrArg File.Identity.userID hident).symm.trans (congrArg Prod.fst hin))

end Tables

/-! ## The requests -/

section Requests

variable {deps : Deps} {s : Store} {q : Request} {f : File} {id : GoString}

theorem canSucceed_answer (status : ℕ) (message : String) :
    CanSucceed deps q (.ret (Reply.error status message)) s := trivial

/-- A request that only looks has a run without a failing call. -/
theorem canSucceed_listFileVersions (userID : UUID) (id : GoString) :
    CanSucceed deps q (listFileVersions userID id .ret) s :=
  canSucceed_looks (listFileVersions userID id) (reads_listFileVersions userID id).looks fun _ => trivial

theorem smoothly_listFileVersions (hf : f ∈ s.db.files) (hid : UUID.parse id = some f.id) :
    Smoothly deps q (listFileVersions f.userID id .ret) s fun r _ =>
      r = .files (s.db.lineageFiles f.userID f.lineageRootID) := by
  simp only [listFileVersions, resolveOwnedFile, Code.bind_apply, Code.pure_apply]
  rw [parseID_apply hid]
  refine smoothly_query ?_
  rw [Query.eval_file_of_mem hf]
  exact smoothly_query rfl

/-! ### A new version -/

theorem canSucceed_presignVersion (userID : UUID) (id : GoString)
    (body : Option PresignVersionRequest) {a : UUID} (ha : s.canDraw a) :
    CanSucceed deps q (presignVersion userID id body .ret) s := by
  refine Early.parseID (P := fun p => CanSucceed deps q p s) canSucceed_answer fun fileID _ => ?_
  refine Early.decodeBody (P := fun p => CanSucceed deps q p s) canSucceed_answer fun req _ => ?_
  refine Early.failIf (P := fun p => CanSucceed deps q p s) canSucceed_answer fun _ => ?_
  refine canSucceed_query fun _ => ?_
  refine Early.found (P := fun p => CanSucceed deps q p s) canSucceed_answer fun anyVersion _ => ?_
  refine canSucceed_looks (checkQuota _ _) (reads_checkQuota _ _).looks fun b => ?_
  refine canSucceed_looks (orQuotaError b) (silent_orQuotaError b).over fun _ => ?_
  refine canSucceed_query fun _ => ?_
  refine Early.foundOr (P := fun p => CanSucceed deps q p s) canSucceed_answer fun current _ => ?_
  refine canSucceed_query fun _ => ?_
  refine Early.foundOr (P := fun p => CanSucceed deps q p s) canSucceed_answer fun maxVersion _ => ?_
  refine canSucceed_write ?_ fun b t => ?_
  · refine ⟨{ uuid := a }, ?_⟩
    simp only [Write.run, Bool.false_eq_true, if_false, Write.commit, ha.1, ha.2, or_self]
    split
    · exact ⟨_, _, trivial, rfl⟩
    · exact ⟨_, _, trivial, rfl⟩
  · refine Early.foundOr (P := fun p => CanSucceed deps q p t) canSucceed_answer fun file _ => ?_
    exact canSucceed_over (presignUpload file) (inert_presignUpload file) fun _ _ => trivial

/-- An error has changed nothing, or there is a new version. -/
def StartsVersion (s : Store) (f : File) (r : Reply) (t : Store) : Prop :=
  (r.isError = true ∧ t.db = s.db) ∨
    ∃ current x, current.lineage = f.lineage ∧ s.db.AddsVersion current x t.db

theorem alone_presignVersion (hs : WellFormed s) (hf : f ∈ s.db.files) (hid : UUID.parse id = some f.id)
    (body : Option PresignVersionRequest) :
    Alone deps (fun _ => True) q (presignVersion f.userID id body .ret) s (StartsVersion s f) := by
  have herror : ∀ status message, StartsVersion s f (.error status message) s :=
    fun _ _ => Or.inl ⟨rfl, rfl⟩
  simp only [presignVersion, Code.bind_apply]
  rw [parseID_apply hid]
  refine Early.decodeBody (P := fun p => Alone deps _ q p s (StartsVersion s f)) herror fun req _ => ?_
  refine Early.failIf (P := fun p => Alone deps _ q p s (StartsVersion s f)) herror fun _ => ?_
  refine alone_query fun o _ => ?_
  refine Early.found (P := fun p => Alone deps _ q p s (StartsVersion s f)) herror fun g hg => ?_
  obtain ⟨hgmem, hgid, -⟩ := Query.file_ok hg
  obtain rfl := Table.eq_of_key hgmem hf hgid
  refine alone_checkQuota fun b => ?_
  refine Early.orQuotaError (P := fun p => Alone deps _ q p s (StartsVersion s g)) herror ?_
  refine alone_query fun o₁ _ => ?_
  refine Early.foundOr (P := fun p => Alone deps _ q p s (StartsVersion s g)) herror fun current hcur => ?_
  obtain ⟨hcmem, hcin, hcur⟩ := Query.currentVersion_ok hcur
  refine alone_query fun o₂ _ => ?_
  refine Early.foundOr (P := fun p => Alone deps _ q p s (StartsVersion s g)) herror fun n hmax => ?_
  refine alone_write fun o₃ a db' _ hw => ?_
  obtain ⟨rfl, rfl⟩ | ⟨hu, -, -, rfl, rfl⟩ := Write.presignVersion_cases hw
  · exact herror _ _
  · have hadds : ∃ current' x, current'.lineage = g.lineage ∧ s.db.AddsVersion current' x _ :=
      ⟨current, _, (hs.inLineage_iff hf hcmem).1 hcin,
        hs.addsVersion hf hcmem hcin hcur hu rfl rfl rfl
          (fun x hx hxin => Nat.lt_succ_of_le (Query.maxVersion_ok hmax hx hxin)) rfl rfl⟩
    refine alone_over (presignUpload _) (inert_presignUpload _) (fun r t _ ht => Or.inr ?_)
      fun r t ht => Or.inr ?_
    · rw [ht]
      exact hadds
    · rw [ht]
      exact hadds

/-- Without a failing call, a request within the quota is not refused. -/
theorem smoothly_presignVersion (h : s.db.Rooted) (hs : WellFormed s) (hf : f ∈ s.db.files)
    (hid : UUID.parse id = some f.id) {req : PresignVersionRequest} (hsize : 0 < req.sizeBytes)
    (hmime : req.mimeType ≠ []) (hquota : s.db.withinQuota f.userID req.sizeBytes = true) :
    Smoothly deps q (presignVersion f.userID id (some req) .ret) s fun r _ => r.isError = false := by
  have hchecks : ¬(req.sizeBytes ≤ 0 ∨ req.mimeType = []) :=
    not_or.2 ⟨Int64.not_le.2 hsize, hmime⟩
  obtain ⟨g, ⟨hg, hgl, hgcur⟩, -⟩ := h.lineages.current f hf
  obtain ⟨current, hcurrent⟩ := firstOrNotFound_of_mem
    (p := fun x => DB.inLineage f.userID f.lineageRootID x && x.isCurrent) hg
    (by rw [(hs.inLineage_iff hf hg).2 hgl, hgcur]; rfl)
  simp only [presignVersion, Code.bind_apply]
  rw [parseID_apply hid]
  simp only [decodeBody, Code.pure_apply]
  rw [failIf_apply hchecks]
  refine smoothly_query ?_
  rw [Query.eval_file_of_mem hf]
  refine smoothly_checkQuota_ok hquota (smoothly_query ?_)
  rw [Query.eval, hcurrent]
  refine smoothly_query (alone_write fun o a db' ho hw => ?_)
  have hfails : o.fails = false := by simpa [succeeds] using ho
  obtain ⟨rfl, -⟩ := Write.presignVersion_ok hfails rfl hw
  exact smoothly_presignUpload fun _ _ _ _ _ _ => rfl

/-! ### A restore -/

theorem canSucceed_restoreFileVersion (userID : UUID) (id versionID : GoString) :
    CanSucceed deps q (restoreFileVersion userID id versionID .ret) s := by
  refine Early.parseID (P := fun p => CanSucceed deps q p s) canSucceed_answer fun fileID _ => ?_
  refine Early.parseID (P := fun p => CanSucceed deps q p s) canSucceed_answer fun targetID _ => ?_
  refine canSucceed_query fun _ => ?_
  refine Early.foundOr (P := fun p => CanSucceed deps q p s) canSucceed_answer fun file _ => ?_
  refine canSucceed_query fun _ => ?_
  refine Early.found (P := fun p => CanSucceed deps q p s) canSucceed_answer fun target _ => ?_
  refine Early.failIf (P := fun p => CanSucceed deps q p s) canSucceed_answer fun _ => ?_
  refine canSucceed_write ⟨{}, _, _, rfl, rfl⟩ fun b t => ?_
  exact Early.foundOr (P := fun p => CanSucceed deps q p t) canSucceed_answer fun _ _ => trivial

/-- An error has changed nothing, or the version is the current one now. -/
def RestoresVersion (s : Store) (f : File) (v : UUID) (r : Reply) (t : Store) : Prop :=
  if r.isError = true then t = s
  else (∃ g ∈ s.db.files, g.id = v ∧ g.lineage = f.lineage) ∧
    t = { s with db := s.db.withCurrentVersion f.lineage v }

theorem alone_restoreFileVersion (hs : WellFormed s) (hf : f ∈ s.db.files)
    (hid : UUID.parse id = some f.id) {versionID : GoString} {v : UUID}
    (hv : UUID.parse versionID = some v) :
    Alone deps (fun _ => True) q (restoreFileVersion f.userID id versionID .ret) s
      (RestoresVersion s f v) := by
  have herror : ∀ status message, RestoresVersion s f v (.error status message) s := fun _ _ => rfl
  simp only [restoreFileVersion, resolveOwnedFile, Code.bind_apply]
  rw [parseID_apply hid, parseID_apply hv]
  refine alone_query fun o _ => ?_
  refine Early.foundOr (P := fun p => Alone deps _ q p s (RestoresVersion s f v)) herror fun g hg => ?_
  obtain ⟨hgmem, hgid, -⟩ := Query.file_ok hg
  obtain rfl := Table.eq_of_key hgmem hf hgid
  refine alone_query fun o₁ _ => ?_
  refine Early.found (P := fun p => Alone deps _ q p s (RestoresVersion s g v)) herror fun target ht => ?_
  obtain ⟨htmem, rfl, htuser⟩ := Query.file_ok ht
  refine Early.failIf (P := fun p => Alone deps _ q p s (RestoresVersion s g target.id)) herror
    fun hroot => ?_
  have hlineage : target.lineage = g.lineage := Prod.ext htuser (not_not.1 hroot)
  refine alone_write fun o₂ a db' _ hw => ?_
  obtain ⟨rfl, rfl⟩ | ⟨rfl, rfl⟩ := Write.restoreVersion_cases hw
  · exact herror _ _
  · refine ⟨⟨target, htmem, rfl, hlineage⟩, ?_⟩
    rw [hs.setCurrent_eq hf htmem hlineage]

/-- Without a failing call, a version of the lineage is restored. -/
theorem smoothly_restoreFileVersion (hf : f ∈ s.db.files) (hid : UUID.parse id = some f.id)
    {versionID : GoString} {target : File} (ht : target ∈ s.db.files)
    (hv : UUID.parse versionID = some target.id) (hlineage : target.lineage = f.lineage) :
    Smoothly deps q (restoreFileVersion f.userID id versionID .ret) s fun r _ => r.isError = false := by
  have htuser : target.userID = f.userID := congrArg Prod.fst hlineage
  have hroot : ¬target.lineageRootID ≠ f.lineageRootID := not_not.2 (congrArg Prod.snd hlineage)
  simp only [restoreFileVersion, resolveOwnedFile, Code.bind_apply]
  rw [parseID_apply hid, parseID_apply hv]
  refine smoothly_query ?_
  rw [Query.eval_file_of_mem hf]
  refine smoothly_query ?_
  rw [← htuser, Query.eval_file_of_mem ht]
  simp only [foundOr, found, Code.pure_apply]
  rw [failIf_apply hroot]
  refine alone_write fun o a db' ho hw => ?_
  have hfails : o.fails = false := by simpa [succeeds] using ho
  rw [Write.run, if_neg (by simp [hfails])] at hw
  obtain ⟨rfl, rfl⟩ := Prod.mk.inj (Option.some.inj hw)
  rfl

/-! ### A delete -/

theorem canSucceed_deleteFile (userID : UUID) (id : GoString) :
    CanSucceed deps q (deleteFile userID id .ret) s := by
  refine Early.parseID (P := fun p => CanSucceed deps q p s) canSucceed_answer fun fileID _ => ?_
  refine canSucceed_query fun _ => ?_
  refine Early.foundOr (P := fun p => CanSucceed deps q p s) canSucceed_answer fun file _ => ?_
  refine canSucceed_write ⟨{}, _, _, rfl, rfl⟩ fun b t => ?_
  refine Early.foundOr (P := fun p => CanSucceed deps q p t) canSucceed_answer fun versions _ => ?_
  have hpassing : Passing false (cleanupFiles versions) := passing_cleanupFiles versions
  exact canSucceed_over (cleanupFiles versions) hpassing fun _ _ => trivial

/-- A deletion that is answered with 204 has deleted the lineage, any other answer leaves the tables. -/
def DeletesLineage (s : Store) (f : File) (r : Reply) (t : Store) : Prop :=
  if r = .noContent then s.db.WithoutLineage f.lineage t.db else t.db = s.db

theorem alone_deleteFile (hs : WellFormed s) (hl : Linked s) (hf : f ∈ s.db.files)
    (hid : UUID.parse id = some f.id) :
    Alone deps (fun _ => True) q (deleteFile f.userID id .ret) s (DeletesLineage s f) := by
  have herror : ∀ status message, DeletesLineage s f (.error status message) s :=
    fun _ _ => by simp [DeletesLineage]
  simp only [deleteFile, resolveOwnedFile, Code.bind_apply, Code.pure_apply]
  rw [parseID_apply hid]
  refine alone_query fun o _ => ?_
  refine Early.foundOr (P := fun p => Alone deps _ q p s (DeletesLineage s f)) herror fun g hg => ?_
  obtain ⟨hgmem, hgid, -⟩ := Query.file_ok hg
  obtain rfl := Table.eq_of_key hgmem hf hgid
  refine alone_write fun o₁ a db' _ hw => ?_
  obtain ⟨rfl, rfl⟩ | ⟨rfl, rfl⟩ := Write.deleteFile_cases hw
  · exact herror _ _
  · refine alone_cleanupFiles fun t ht => ?_
    show if Reply.noContent = .noContent then s.db.WithoutLineage g.lineage t.db else t.db = s.db
    rw [if_pos rfl, ht]
    exact DB.withoutLineage_deleteFiles hs hl hf

/-- Without a failing call, the deletion is answered with 204. -/
theorem smoothly_deleteFile (hf : f ∈ s.db.files) (hid : UUID.parse id = some f.id) :
    Smoothly deps q (deleteFile f.userID id .ret) s fun r _ => r = .noContent := by
  simp only [deleteFile, resolveOwnedFile, Code.bind_apply, Code.pure_apply]
  rw [parseID_apply hid]
  refine smoothly_query ?_
  rw [Query.eval_file_of_mem hf]
  refine alone_write fun o a db' ho hw => ?_
  have hfails : o.fails = false := by simpa [succeeds] using ho
  rw [Write.run, if_neg (by simp [hfails])] at hw
  obtain ⟨rfl, rfl⟩ := Prod.mk.inj (Option.some.inj hw)
  exact alone_cleanupFiles fun _ _ => rfl

end Requests

/-! ## All of them -/

/-- The operations, in a store whose lineages are rooted. -/
theorem DB.Rooted.operations (deps : Deps) {s : Store} (h : s.db.Rooted) (hs : WellFormed s)
    (hl : Linked s) {f : File} (hf : f ∈ s.db.files) : LineageOperations deps s f where
  flat := by
    obtain ⟨r, hr, hid, huser, hp⟩ := h.exists_root hs hf
    cases hfp : f.parentID with
    | none => exact Or.inl rfl
    | some p =>
      refine Or.inr ⟨r, hr, ?_, huser, hp⟩
      rw [hid, File.lineageRootID, hfp, Option.getD_some]
  list g hg hgf id hid := by
    have hends : Smoothly deps (.listFileVersions g.userID id)
        (listFileVersions g.userID id .ret) s _ := smoothly_listFileVersions hg hid
    rw [show g.userID = f.userID from congrArg Prod.fst hgf,
      show g.lineageRootID = f.lineageRootID from congrArg Prod.snd hgf] at hends
    rw [show g.userID = f.userID from congrArg Prod.fst hgf]
    exact (canSucceed_listFileVersions f.userID id).performs hends
  listed := ⟨DB.nodup_lineageFiles _ _, fun g => DB.mem_lineageFiles.trans
    (and_congr_right fun hg => hs.inLineage_iff hf hg)⟩
  presign id hid req hsize hmime hquota hdraw := by
    obtain ⟨a, ha⟩ := hdraw
    refine ⟨(canSucceed_presignVersion f.userID id (some req) ha).finishes, fun tr r t hrun htr => ?_⟩
    have hr := hrun.of_ends (smoothly_presignVersion h hs hf hid hsize hmime hquota) htr
    obtain ⟨herror, -⟩ | hadds :=
      hrun.of_ends (alone_presignVersion hs hf hid (some req)) fun _ _ => trivial
    · cases hr.symm.trans herror
    · exact ⟨hr, hadds⟩
  presign_any id hid body tr r t hrun :=
    hrun.of_ends (alone_presignVersion hs hf hid body) fun _ _ => trivial
  restore id versionID v hid hv := by
    refine ⟨(canSucceed_restoreFileVersion f.userID id versionID).finishes, fun tr r t hrun htr => ?_⟩
    have hr := hrun.of_ends (alone_restoreFileVersion hs hf hid hv) fun _ _ => trivial
    constructor
    · intro hok
      rw [RestoresVersion, if_neg (by simp [hok])] at hr
      exact hr.1
    · rintro ⟨target, ht, rfl, hlineage⟩
      exact hrun.of_ends (smoothly_restoreFileVersion hf hid ht hv hlineage) htr
  restore_any id versionID v hid hv tr r t hrun :=
    hrun.of_ends (alone_restoreFileVersion hs hf hid hv) fun _ _ => trivial
  delete id hid := by
    refine ⟨(canSucceed_deleteFile f.userID id).finishes, fun tr r t hrun htr => ?_⟩
    have hr := hrun.of_ends (smoothly_deleteFile hf hid) htr
    have hdeleted := hrun.of_ends (alone_deleteFile hs hl hf hid) fun _ _ => trivial
    rw [DeletesLineage, if_pos hr] at hdeleted
    exact ⟨hr, hdeleted⟩
  delete_any id hid tr r t hrun :=
    hrun.of_ends (alone_deleteFile hs hl hf hid) fun _ _ => trivial

/-- After restores, a store differs from the first one in the current row of the lineage at most, and is
one that requests running one at a time reach. -/
theorem Restores.reaches {deps : Deps} {users : Table User} {lineage : UUID × UUID} {c : Services}
    {t : Store} (h : (services deps).Reaches Machine.sequential (start (Store.fresh users)) c)
    (hquiet : c.quiet = true) (ht : Restores deps lineage c.store t) :
    (∀ id, t.db.withCurrentVersion lineage id = c.store.db.withCurrentVersion lineage id) ∧
      ∃ c', (services deps).Reaches Machine.sequential (start (Store.fresh users)) c' ∧ c'.store = t ∧
        c'.quiet = true := by
  induction ht with
  | refl => exact ⟨fun _ => rfl, c, h, rfl, hquiet⟩
  | @step t u f id versionID tr r _ hf hlineage hid hrun ih =>
    obtain ⟨hsame, c', hc', rfl, hquiet'⟩ := ih
    refine ⟨fun v => ?_, hrun.reaches hc' hquiet' rfl⟩
    obtain ⟨hwf, -⟩ := rooted_sequential deps users hc'
    cases hv : UUID.parse versionID with
    | none =>
      have hu : u = c'.store := by
        refine hrun.of_ends (Φ := fun _ _ u => u = c'.store) ?_ fun _ _ => trivial
        simp only [services_handler, Request.handler, restoreFileVersion, Code.bind_apply]
        rw [parseID_apply hid, parseID, hv]
        rfl
      rw [hu]
      exact hsame v
    | some target =>
      have hr := hrun.of_ends (alone_restoreFileVersion hwf hf hid hv) fun _ _ => trivial
      unfold RestoresVersion at hr
      split at hr
      · rw [hr]
        exact hsame v
      · rw [hr.2, ← hsame v, hlineage]
        exact DB.withCurrentVersion_twice _ _ _ _

/-- **Lineages are flat and their operations exact**: in every store that requests running one at a time
reach, whichever row of a lineage they are asked of.  After any restores within a lineage, one more
leaves the tables that it would have left at first. -/
theorem lineage_operations_exact (deps : Deps) (users : Table User) {c : Services}
    (h : (services deps).Reaches Machine.sequential (start (Store.fresh users)) c) :
    (∀ f ∈ c.store.db.files, LineageOperations deps c.store f) ∧
    ∀ lineage t, c.quiet = true → Restores deps lineage c.store t →
      ∀ f ∈ t.db.files, f.lineage = lineage → ∀ id versionID v, UUID.parse id = some f.id →
        UUID.parse versionID = some v → ∀ tr r u,
        (services deps).Finishes (.restoreFileVersion f.userID id versionID)
          ((services deps).handler (.restoreFileVersion f.userID id versionID)) t tr r u →
        r.isError = false → u.db = c.store.db.withCurrentVersion lineage v := by
  constructor
  · obtain ⟨hwf, hroot⟩ := rooted_sequential deps users h
    obtain ⟨-, hl⟩ := linked_always deps users h
    exact fun f hf => hroot.operations deps hwf hl hf
  · rintro lineage t hquiet ht f hf rfl id versionID v hid hv tr r u hrun hok
    obtain ⟨hsame, c', hc', rfl, -⟩ := ht.reaches h hquiet
    obtain ⟨hwf, -⟩ := rooted_sequential deps users hc'
    have hr := hrun.of_ends (alone_restoreFileVersion hwf hf hid hv) fun _ _ => trivial
    rw [RestoresVersion, if_neg (by simp [hok])] at hr
    rw [hr.2]
    exact hsame v

/-- Two versions of a text, in a folder. -/
theorem lineage_operations_exact_two :
    ∃ c : Services, (services plainDeps).Reaches Machine.sequential
      (start (Store.fresh aliceOnly)) c ∧ c.store.db.files.rows.length = 2 ∧
      ∀ f ∈ c.store.db.files, LineageOperations plainDeps c.store f := by
  obtain ⟨c, hc, hP⟩ := exists_run Machine.sequential uploadToFolder
    (fun c => c.store.db.files.rows.length = 2) (by decide)
  exact ⟨c, hc, by simpa using hP, (lineage_operations_exact plainDeps aliceOnly hc).1⟩

end Optiflow
