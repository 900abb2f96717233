import Optiflow.Proof.Runs

/-!
# Admission of uploads

`presign` and `tusPreCreate` check the same things of an upload in different orders, with one
exception: a size of zero, which `presign` refuses.  Run alone, each gets to the call that stores the
upload exactly under the conditions it tests (`presignAdmits_eq`, `tusAdmits_eq`).
-/

namespace Optiflow

open Interleave UploadSvc

/-! ## What the checks test -/

/-- The folder that a text names is one of the user's; the empty text names none. -/
def DB.ownsFolder (db : DB) (userID : UUID) (text : GoString) : Bool :=
  text = [] || (UUID.parse text).any fun id => ((Query.folder id userID).eval db).isOk

/-- The test of `checkQuota`, with Go's arithmetic. -/
def DB.withinQuota (db : DB) (userID : UUID) (incomingBytes : Int64) : Bool :=
  match (Query.storageQuota userID).eval db, (Query.sumSizes userID).eval db with
  | .ok storageQuotaBytes, .ok used => !(used + incomingBytes > storageQuotaBytes)
  | _, _ => false

/-- The name that an upload's metadata gives. -/
def Upload.name (upload : Upload) : GoString :=
  firstNonEmpty [upload.metaData.get (lit "filename"), upload.metaData.get (lit "name")]

/-- The call that stores an upload: the row of `presign`, or what tusd keeps. -/
def Stmt.storesUpload {α : Type} : Stmt α → Bool
  | .write (.createFile _) => true
  | .staging (.create _) => true
  | _ => false

/-- With no call failing, `presign` gets to store the upload. -/
def presignAdmits (deps : Deps) (s : Store) (userID : UUID) (req : PresignRequest) : Bool :=
  (services deps).gets {} Stmt.storesUpload (presign userID (some req) .ret) s

/-- With no call failing, `tusPreCreate` gets to store the upload. -/
def tusAdmits (deps : Deps) (s : Store) (userID : UUID) (upload : Upload) : Bool :=
  (services deps).gets {} Stmt.storesUpload (tusPreCreate (some userID) upload .ret) s

/-! ## Reading the handlers -/

section Reading

variable {deps : Deps} {s : Store} {α : Type} {userID : UUID}

/-- Getting to store the upload. -/
abbrev Gets (deps : Deps) (p : Prog Stmt Reply) (s : Store) : Bool :=
  (services deps).gets {} Stmt.storesUpload p s

theorem gets_ret (r : Reply) : Gets deps (.ret r) s = false := rfl

theorem gets_query {qy : Query α} {k : Except DbError α → Prog Stmt Reply} :
    Gets deps (query qy k) s = Gets deps (k (qy.eval s.db)) s := rfl

theorem gets_checkQuota {size : Int64} {k : Except QuotaError Unit → Prog Stmt Reply}
    (hover : ∀ message, Gets deps (k (.error (.exceeded message))) s = false)
    (hother : Gets deps (k (.error .other)) s = false) :
    Gets deps (checkQuota userID size k) s =
      (s.db.withinQuota userID size && Gets deps (k (.ok ())) s) := by
  unfold DB.withinQuota
  simp only [checkQuota, Code.bind_apply, gets_query]
  cases (Query.storageQuota userID).eval s.db with
  | error e => simpa using hother
  | ok quota =>
    simp only [Code.bind_apply, gets_query]
    cases (Query.sumSizes userID).eval s.db with
    | error e => simpa using hother
    | ok used =>
      by_cases h : used + size > quota
      · simpa [h] using hover _
      · simp [h]

/-- Not getting past a folder that is not the user's. -/
theorem gets_ownedFolderID {folderID : Option GoString} {k : Option UUID → Prog Stmt Reply}
    (h : ∀ id, Gets deps (k id) s = true) :
    Gets deps (ownedFolderID userID folderID k) s = s.db.ownsFolder userID (folderID.getD []) := by
  match folderID with
  | none => exact h none
  | some [] => exact h none
  | some (c :: text) =>
    unfold DB.ownsFolder
    simp only [ownedFolderID, Code.bind_apply, parseID, Option.getD_some]
    cases UUID.parse (c :: text) with
    | none => rfl
    | some id =>
      simp only [Code.pure_apply, gets_query]
      cases hf : (Query.folder id userID).eval s.db with
      | error e => simp [hf, foundOr, fail, gets_ret, Except.isOk, Except.toBool]
      | ok folder => simp [hf, foundOr, h, Except.isOk, Except.toBool]

theorem gets_tusCheckFolder {text : GoString} {k : Unit → Prog Stmt Reply} :
    Gets deps (tusCheckFolder userID text k) s =
      (s.db.ownsFolder userID text && Gets deps (k ()) s) := by
  unfold DB.ownsFolder tusCheckFolder
  by_cases htext : text = []
  · simp [htext]
  · cases hid : UUID.parse text with
    | none => simp [htext, tusReject, gets_ret]
    | some id =>
      simp only [htext, if_false, Code.bind_apply, gets_query]
      cases hf : (Query.folder id userID).eval s.db with
      | error e => simp [hf, tusReject, gets_ret, Except.isOk, Except.toBool]
      | ok folder => simp [hf, Except.isOk, Except.toBool]

end Reading

/-- What `presign` tests. -/
theorem presignAdmits_eq (deps : Deps) (s : Store) (userID : UUID) (req : PresignRequest) :
    presignAdmits deps s userID req = (req.name ≠ [] && 0 < req.sizeBytes && req.mimeType ≠ [] &&
      s.db.withinQuota userID req.sizeBytes && s.db.ownsFolder userID (req.folderID.getD [])) := by
  unfold presignAdmits
  have hchecks : ∀ k : Unit → Prog Stmt Reply, Gets deps (failIf
      (req.name = [] ∨ req.sizeBytes ≤ 0 ∨ req.mimeType = []) 400
      "name, size_bytes, and mime_type are required" k) s =
      (req.name ≠ [] && 0 < req.sizeBytes && req.mimeType ≠ [] && Gets deps (k ()) s) := by
    intro k
    by_cases hbad : req.name = [] ∨ req.sizeBytes ≤ 0 ∨ req.mimeType = []
    · rcases hbad with h | h | h
      · simp [failIf, exitIf, h, gets_ret]
      · simp [failIf, exitIf, h, gets_ret, Int64.not_lt.2 h]
      · simp [failIf, exitIf, h, gets_ret]
    · obtain ⟨hname, hsize, hmime⟩ : req.name ≠ [] ∧ 0 < req.sizeBytes ∧ req.mimeType ≠ [] := by
        simpa [not_or, Int64.not_le] using hbad
      simp [failIf, exitIf, hname, hsize, hmime, Int64.not_le.2 hsize]
  rw [Bool.and_assoc _ (s.db.withinQuota userID req.sizeBytes)]
  refine (hchecks _).trans (congrArg _ ?_)
  refine (gets_checkQuota (fun _ => rfl) rfl).trans (congrArg _ ?_)
  exact gets_ownedFolderID fun _ => rfl

/-- What `tusPreCreate` tests. -/
theorem tusAdmits_eq (deps : Deps) (s : Store) (userID : UUID) (upload : Upload) :
    tusAdmits deps s userID upload = (upload.name ≠ [] &&
      s.db.ownsFolder userID (upload.metaData.get (lit "folder_id")) &&
      s.db.withinQuota userID upload.size) := by
  unfold tusAdmits
  have hname : ∀ k : Unit → Prog Stmt Reply, Gets deps (exitIf (upload.name = [])
      (.tusRejected "ERR_INVALID_METADATA" "filename metadata is required" 400) k) s =
      (upload.name ≠ [] && Gets deps (k ()) s) := by
    intro k
    by_cases hn : upload.name = [] <;> simp [exitIf, hn, gets_ret]
  rw [Bool.and_assoc]
  refine (hname _).trans (congrArg _ ?_)
  refine gets_tusCheckFolder.trans (congrArg _ ?_)
  refine (gets_checkQuota (fun _ => rfl) rfl).trans ?_
  exact Bool.and_true _

/-! ## The two paths -/

/-- **The paths admit the same uploads, but for an empty one** that passes the checks of `tusPreCreate`.
The declared length of an upload whose length is deferred is 0. -/
theorem paths_admit_same_iff (deps : Deps) (s : Store) (userID : UUID) {upload : Upload}
    {req : PresignRequest} (hname : req.name = upload.name) (hsize : req.sizeBytes = upload.size)
    (hmime : req.mimeType ≠ [])
    (hfolder : req.folderID.getD [] = upload.metaData.get (lit "folder_id")) :
    (tusAdmits deps s userID upload = true ↔ presignAdmits deps s userID req = true) ↔
      (0 < upload.size ∨ upload.name = [] ∨
        s.db.ownsFolder userID (upload.metaData.get (lit "folder_id")) = false ∨
        s.db.withinQuota userID upload.size = false) := by
  rw [tusAdmits_eq, presignAdmits_eq, hname, hsize, hfolder]
  by_cases hn : upload.name = []
  · simp [hn]
  · cases s.db.ownsFolder userID (upload.metaData.get (lit "folder_id")) <;>
      cases s.db.withinQuota userID upload.size <;> simp [hn, hmime]

/-! ### An empty file -/

/-- An upload of no bytes. -/
def emptyUpload : Upload where
  id := lit "u"
  size := 0
  sizeIsDeferred := false
  metaData := [(lit "filename", lit "a.txt"), (lit "filetype", lit "text/plain")]
  path := lit "/staging/u"

/-- The same as a request to `presign`. -/
def emptyRequest : PresignRequest := ⟨lit "a.txt", 0, lit "text/plain", none⟩

/-- A byte makes the paths agree. -/
theorem paths_admit_same_iff_byte :
    (tusAdmits plainDeps (Store.fresh aliceOnly) 1 { emptyUpload with size := 1 } = true ↔
      presignAdmits plainDeps (Store.fresh aliceOnly) 1 { emptyRequest with sizeBytes := 1 } = true) ∧
    tusAdmits plainDeps (Store.fresh aliceOnly) 1 { emptyUpload with size := 1 } = true :=
  ⟨(paths_admit_same_iff plainDeps (Store.fresh aliceOnly) 1 (by decide) rfl (by decide)
    (by decide)).2 (Or.inl (by decide)), by decide⟩

/-- `tusPreCreate` accepts what `presign` answers with 400. -/
theorem paths_differ_on_empty :
    emptyRequest.name = emptyUpload.name ∧ emptyRequest.sizeBytes = emptyUpload.size ∧
      emptyRequest.mimeType = emptyUpload.metaData.get (lit "filetype") ∧
      emptyRequest.folderID.getD [] = emptyUpload.metaData.get (lit "folder_id") ∧
      ¬(tusAdmits plainDeps (Store.fresh aliceOnly) 1 emptyUpload = true ↔
        presignAdmits plainDeps (Store.fresh aliceOnly) 1 emptyRequest = true) := by
  decide

end Optiflow
