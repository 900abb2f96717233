import Optiflow.Proof.Provenance
import Optiflow.Proof.Footprint

/-!
# Every handler makes known calls

The outline `provenance` holds of every handler: each struct a handler writes comes from what it has
read.
-/

namespace Optiflow

open Interleave Code UploadSvc ApiSvc Workers

variable {deps : Deps} {q : Request} {s : Store} {α β : Type}

/-! ## Rules -/

/-- Reading a program against `provenance`. -/
abbrev Known (deps : Deps) (q : Request) (p : Prog Stmt Reply) (s : Store) : Prop :=
  (provenance deps).Safe q p s

/-- Every answer is allowed. -/
theorem anyAnswer (status : ℕ) (message : String) :
    (provenance deps).post q (.error status message) := trivial

theorem known_call {e : Stmt α} {k : α → Prog Stmt Reply} (he : ∀ t, CallKnown t q e)
    (h : ∀ a t, Grows s t → Known deps q (k a) t) : Known deps q ((Code.call e : Handler α) k) s :=
  safe_call (fun t _ _ => he t) fun a _ _ t' hst _ _ hx _ => h a t' (hst.trans (exec_grows hx))

theorem known_query {qy : Query α} {k : Except DbError α → Prog Stmt Reply}
    (h : ∀ o t, Grows s t → WellFormed t → Known deps q (k (qy.run o t.db)) t) :
    Known deps q (query qy k) s :=
  safe_query (fun _ _ _ => trivial) fun o t hst ht _ => h o t hst ht

theorem known_write {w : Write α} {k : Except DbError α → Prog Stmt Reply}
    (hw : ∀ t, Grows s t → WellFormed t → WriteKnown t q w)
    (h : ∀ o a (t : Store) db', Grows s { t with db := db' } → w.run o t.issued t.db = some (a, db') →
      Known deps q (k a) { t with db := db' }) : Known deps q (write w k) s :=
  safe_write hw fun o a t db' hst _ _ hx _ => h o a t db' (hst.trans (Write.run_grows hx)) hx

theorem CallKnown.of_plain {e : Stmt α} (he : Plain false e) : CallKnown s q e := by
  cases e with
  | write w => exact he.elim
  | broker b => exact he.elim
  | bucket b =>
    cases b with
    | presignedPutURL key expiry => cases he rfl
    | putObject key body size contentType => cases he rfl
    | _ => trivial
  | staging st =>
    cases st with
    | create upload => cases he
    | _ => trivial
  | _ => trivial

/-- Code that only makes plain calls, and puts nothing, needs no knowledge. -/
theorem known_over (c : Handler α) {k : α → Prog Stmt Reply} (hc : Inert false c)
    (h : ∀ a t, Grows s t → Known deps q (k a) t) : Known deps q (c k) s := by
  refine hc (fun p => ∀ t, Grows s t → Known deps q p t) (fun e k he hk t hst => ?_)
    (fun _ _ _ _ => trivial) k h s (.refl s)
  exact known_call (fun u => CallKnown.of_plain he) fun a u htu => hk a u (hst.trans htu)

theorem known_bucket {b : BucketStmt α} {k : α → Prog Stmt Reply}
    (hb : ∀ t, Grows s t → CallKnown t q (.bucket b))
    (h : ∀ a t, Grows s t → Known deps q (k a) t) : Known deps q (bucket b k) s :=
  safe_call (fun t hst _ => hb t hst) fun a _ _ t' hst _ _ hx _ => h a t' (hst.trans (exec_grows hx))

theorem known_staging {st : StagingStmt α} {k : α → Prog Stmt Reply} (hst : st.creates = false)
    (h : ∀ a t, Grows s t → Known deps q (k a) t) : Known deps q (staging st k) s :=
  known_over (staging st) (over_staging st hst) h

theorem known_tool {e : ToolStmt α} {k : α → Prog Stmt Reply}
    (h : ∀ a t, Grows s t → Known deps q (k a) t) : Known deps q (tool e k) s :=
  known_over (tool e) (over_tool e) h

theorem known_timeNow {k : Time → Prog Stmt Reply}
    (h : ∀ a t, Grows s t → Known deps q (k a) t) : Known deps q (timeNow k) s :=
  known_over timeNow over_timeNow h

/-! ## upload-svc -/

/-- A task that is known may be enqueued. -/
theorem known_enqueueOrLog {task : Option Task} {k : Unit → Prog Stmt Reply}
    (ht : ∀ t, task = some t → TaskKnown s t) (h : ∀ t, Grows s t → Known deps q (k ()) t) :
    Known deps q (enqueueOrLog task k) s := by
  cases task with
  | none => exact h s (.refl s)
  | some task =>
    exact safe_call (fun t hst _ => (ht task rfl).mono hst) fun _ _ _ t' hst _ _ hx _ =>
      h t' (hst.trans (exec_grows hx))

theorem known_presignUpload {file : File} (hkey : UploadKey s file.storageKey) :
    Known deps q (presignUpload file .ret) s := by
  refine known_bucket (fun t hst => hkey.mono hst) fun url t _ => ?_
  cases url with
  | none => trivial
  | some url => exact known_timeNow fun _ _ _ => trivial

theorem known_presign {userID : UUID} {body : Option PresignRequest} (hq : q = .presign userID body) :
    Known deps q (presign userID body .ret) s := by
  refine safe_decodeBody anyAnswer fun req _ => safe_failIf anyAnswer fun hreq => ?_
  have hsize : 0 < req.sizeBytes.toInt := by
    rw [not_or, not_or, Int64.not_le] at hreq
    exact Int64.lt_iff_toInt_lt.1 hreq.2.1
  refine known_over (checkQuota _ _) (reads_checkQuota _ _).inert fun a t _ => ?_
  refine known_over (orQuotaError a) (silent_orQuotaError a).over fun _ t _ => ?_
  refine known_over (ownedFolderID _ _) (reads_ownedFolderID _ _).inert fun folderID t _ => ?_
  refine known_write (fun _ _ _ id => ⟨rfl, Nat.one_ne_zero,
    Or.inl ⟨⟨rfl, rfl, hsize, req.name, rfl⟩, _, _, hq⟩⟩) fun o a t db' _ hw => ?_
  refine safe_foundOr anyAnswer fun file hfile => known_presignUpload ?_
  obtain ⟨ha, -⟩ | ⟨hu, -, -, ha, rfl⟩ := Write.createFile_cases hw
  · cases hfile.symm.trans ha
  · obtain rfl := Except.ok.inj (hfile.symm.trans ha)
    exact ⟨userID, o.uuid, req.name, rfl, Table.used_iff.2 ⟨_, List.mem_cons_self, rfl⟩⟩

/-- Reading a file makes it known. -/
theorem WellFormed.fileKnown (h : WellFormed s) {o : Oracle} {id userID : UUID} {f : File}
    (hf : (Query.file id userID).run o s.db = .ok f) : FileKnown s f ∧ f.id = id ∧ f.userID = userID :=
  ⟨h.file f (Query.file_ok hf).1, (Query.file_ok hf).2⟩

theorem known_complete {userID : UUID} {id : GoString} (hq : q = .complete userID id) :
    Known deps q (complete userID id .ret) s := by
  refine safe_parseID anyAnswer fun fileID _ => known_query fun o t _ ht => ?_
  refine safe_found anyAnswer fun file hf => safe_failIf anyAnswer fun _ => ?_
  have hknown := (ht.fileKnown hf).1
  refine known_bucket (fun _ _ => trivial) fun a u htu => ?_
  cases a with
  | none => trivial
  | some size =>
    have hsaved : FileKnown u (completed file size) := hknown.mono htu
    refine known_write (fun v huv _ => ⟨Or.inl ⟨_, _, hq⟩, hsaved.mono huv⟩) fun _ a v db' huv _ => ?_
    refine safe_foundOr anyAnswer fun _ _ => known_enqueueOrLog (fun task htask => ?_)
      fun _ _ => trivial
    obtain ⟨b, hb, hid⟩ := hsaved.mono huv
    exact ⟨b, hb, (processingTask_congr hid).trans htask⟩

/-- The lineage root of a known file is known. -/
theorem WellFormed.rootKnown (h : WellFormed s) {f : File} (hf : FileKnown s f) :
    RootKnown s f.userID f.lineageRootID := by
  obtain ⟨b, hb, hid⟩ := hf
  have hid' := hid
  simp only [File.identity, File.Identity.mk.injEq] at hid'
  obtain ⟨-, huser, -, -, -, -⟩ := hid'
  rw [← lineageRootID_congr hid, ← huser]
  cases hp : b.parentID with
  | none =>
    refine ⟨b, hb, ?_, hp, rfl⟩
    simp [File.lineageRootID, hp]
  | some r =>
    have := h.root b hb r hp
    simpa [File.lineageRootID, hp] using this

theorem known_presignVersion {userID : UUID} {id : GoString} {body : Option PresignVersionRequest}
    (hq : q = .presignVersion userID id body) :
    Known deps q (presignVersion userID id body .ret) s := by
  refine safe_parseID anyAnswer fun fileID _ => safe_decodeBody anyAnswer fun req _ => ?_
  refine safe_failIf anyAnswer fun hreq => known_query fun o t _ ht => ?_
  have hsize : 0 < req.sizeBytes.toInt := by
    rw [not_or, Int64.not_le] at hreq
    exact Int64.lt_iff_toInt_lt.1 hreq.1
  refine safe_found anyAnswer fun anyVersion hf => ?_
  obtain ⟨hknown, -, huser⟩ := ht.fileKnown hf
  have hroot := huser ▸ ht.rootKnown hknown
  refine known_over (checkQuota _ _) (reads_checkQuota _ _).inert fun a u htu => ?_
  refine known_over (orQuotaError a) (silent_orQuotaError a).over fun _ v huv => ?_
  refine known_query fun _ w hvw _ => safe_foundOr anyAnswer fun current _ => ?_
  refine known_query fun _ x hwx _ => safe_foundOr anyAnswer fun maxVersion _ => ?_
  have hgrow := ((htu.trans huv).trans hvw).trans hwx
  refine known_write (fun y hxy _ => ⟨⟨_, _, hq⟩, hroot.mono (hgrow.trans hxy), fun newFileID =>
    ⟨rfl, rfl, rfl, Nat.succ_ne_zero _, rfl, rfl, hsize, current.name, rfl⟩⟩) fun o a y db' _ hy => ?_
  refine safe_foundOr anyAnswer fun file hfile => known_presignUpload ?_
  obtain ⟨ha, -⟩ | ⟨hu, -, -, ha, rfl⟩ := Write.presignVersion_cases hy
  · cases hfile.symm.trans ha
  · obtain rfl := Except.ok.inj (hfile.symm.trans ha)
    exact ⟨userID, o.uuid, current.name, rfl, Table.used_iff.2 ⟨_, List.mem_cons_self, rfl⟩⟩

theorem known_tusPreCreate {userID : Option UUID} {upload : Upload}
    (hq : q = .tusPreCreate userID upload) : Known deps q (tusPreCreate userID upload .ret) s := by
  cases userID with
  | none => trivial
  | some userID =>
    refine safe_exitIf (fun _ => trivial) fun _ => ?_
    refine known_over (tusCheckFolder _ _) (reads_tusCheckFolder _ _).inert fun _ t _ => ?_
    refine known_over (checkQuota _ _) (reads_checkQuota _ _).inert fun a u _ => ?_
    match a with
    | .error (.exceeded _) => trivial
    | .error .other => trivial
    | .ok () => exact known_call (fun _ => ⟨_, _, hq⟩) fun _ _ _ => trivial

theorem known_finishTusUpload {upload : Upload} (hq : q = .finishTusUpload upload) :
    Known deps q (finishTusUpload upload .ret) s := by
  unfold finishTusUpload
  cases UUID.parse (upload.metaData.get (lit "user_id")) with
  | none => trivial
  | some userID =>
    refine safe_exitIf (fun _ => trivial) fun _ => known_staging rfl fun a t _ => ?_
    cases a with
    | none => trivial
    | some body =>
      refine known_call (fun _ => trivial) fun fileID u _ => ?_
      refine known_bucket (fun _ _ => Or.inl ⟨upload, hq⟩) fun _ v _ =>
        safe_exitIf (fun _ => trivial) fun _ => ?_
      refine known_write (fun _ _ _ id => ⟨rfl, Nat.one_ne_zero, Or.inr ⟨upload, hq, ?_, rfl⟩⟩)
        fun o a w db' _ hw => ?_
      · show (if _ then FileStatus.processing else .ready) ≠ .pending
        split <;> exact FileStatus.noConfusion
      cases a with
      | error e => trivial
      | ok file =>
        refine known_enqueueOrLog (fun task htask => ?_) fun _ _ =>
          known_staging rfl fun _ _ _ => known_staging rfl fun _ _ _ => trivial
        obtain ⟨h, -⟩ | ⟨hu, -, -, h, rfl⟩ := Write.createFile_cases hw
        · cases h
        · obtain rfl := Except.ok.inj h
          exact ⟨_, List.mem_cons_self, htask⟩

/-- The limit lets a share pass or not; it does not change it. -/
theorem resolveActiveShare_limit_ok {share sh : Share}
    (h : resolveActiveShare.limit share = .ok sh) : sh = share := by
  unfold resolveActiveShare.limit at h
  split at h
  · exact (Except.ok.inj h).symm
  · split at h
    · cases h
    · exact (Except.ok.inj h).symm

theorem known_resolveActiveShare {token : GoString} {k : Except DbError Share → Prog Stmt Reply}
    (h : ∀ a t, Grows s t → (∀ sh, a = .ok sh → ShareKnown t token sh.id) →
      Known deps q (k a) t) : Known deps q (resolveActiveShare token k) s := by
  refine known_query fun o t hst ht => ?_
  cases ha : (Query.share token).run o t.db with
  | error e => exact h _ t hst fun _ hsh => by cases hsh
  | ok share =>
    have hknown : ShareKnown t token share.id := by
      obtain ⟨hmem, htok⟩ := Query.share_ok ha
      exact htok ▸ ht.share share hmem
    have hlimit : ∀ sh, resolveActiveShare.limit share = .ok sh → ShareKnown t token sh.id :=
      fun sh hsh => resolveActiveShare_limit_ok hsh ▸ hknown
    cases hexp : share.expiresAt with
    | none => simpa [hexp] using h _ t hst hlimit
    | some expiresAt =>
      have key : Known deps q (timeNow fun now =>
          k (if now > expiresAt then .error .recordNotFound else resolveActiveShare.limit share)) t := by
        refine known_timeNow fun now u htu => h _ u (hst.trans htu) fun sh hsh => ?_
        split at hsh
        · cases hsh
        · exact (hlimit sh hsh).mono htu
      simpa [hexp] using key

theorem known_shareDownloadURL {verify : GoString → GoString → Bool} {token : GoString}
    {body : Option GoString} (hq : q = .shareDownloadURL token body) :
    Known deps q (shareDownloadURL verify token body .ret) s := by
  refine known_resolveActiveShare fun a t _ ht => safe_found anyAnswer fun share hshare => ?_
  refine known_over (checkPassword _ _ _) (silent_checkPassword _ _ _).over fun _ u htu => ?_
  refine known_query fun o v huv _ => ?_
  refine safe_foundOr anyAnswer fun file _ => safe_failIf anyAnswer fun _ => ?_
  refine known_bucket (fun _ _ => trivial) fun b w hvw => ?_
  cases b with
  | none => trivial
  | some url =>
    have hknown := (ht share hshare).mono ((htu.trans huv).trans hvw)
    refine known_write (fun x hwx _ => ⟨token, body, hq, hknown.mono hwx⟩) fun _ _ _ _ _ _ => ?_
    exact known_timeNow fun _ _ _ => trivial

/-! ## api-svc -/

/-- Reading a folder makes it known. -/
theorem WellFormed.folderKnown (h : WellFormed s) {o : Oracle} {id userID : UUID} {f : Folder}
    (hf : (Query.folder id userID).run o s.db = .ok f) :
    FolderKnown s f ∧ f.id = id ∧ f.userID = userID :=
  ⟨h.folder f (Query.folder_ok hf).1, (Query.folder_ok hf).2⟩

theorem known_ownedParentID {userID : UUID} {parentID : Option GoString}
    {k : Option UUID → Prog Stmt Reply}
    (h : ∀ p t, Grows s t → (∀ id, p = some id → FolderIDKnown t userID id) →
      Known deps q (k p) t) : Known deps q (ownedParentID userID parentID k) s := by
  cases parentID with
  | none => exact h none s (.refl s) fun _ hid => by cases hid
  | some text =>
    refine safe_parseID anyAnswer fun id _ => known_query fun o t hst ht => ?_
    refine safe_foundOr anyAnswer fun folder hf => h (some id) t hst fun id' hid => ?_
    obtain ⟨hknown, hfid, huser⟩ := ht.folderKnown hf
    obtain rfl := Option.some.inj hid
    rw [← hfid, ← huser]
    exact hknown.1

theorem known_createFolder {userID : UUID} {body : Option FolderRequest}
    (hq : q = .createFolder userID body) :
    Known deps q (createFolder userID body .ret) s := by
  refine safe_decodeBody anyAnswer fun req _ => safe_failIf anyAnswer fun _ => ?_
  refine known_ownedParentID fun p t _ hp => ?_
  refine known_write (fun u htu _ => ⟨⟨_, hq⟩, fun id hid => (hp id hid).mono htu⟩) fun _ a _ _ _ _ => ?_
  exact safe_foundOr anyAnswer fun _ _ => trivial

theorem known_moveFolder {userID id : UUID} {steps : ℕ} {folder : Folder}
    {parentID : Option GoString} {k : Folder → Prog Stmt Reply} (hf : FolderKnown s folder)
    (huser : folder.userID = userID)
    (h : ∀ f t, Grows s t → FolderKnown t f → Known deps q (k f) t) :
    Known deps q (moveFolder userID id steps folder parentID k) s := by
  match parentID with
  | none => exact h folder s (.refl s) hf
  | some [] => exact h _ s (.refl s) ⟨hf.1, fun p hp => by cases hp⟩
  | some (c :: text) =>
    refine safe_parseID anyAnswer fun p _ => known_query fun o t hst ht => ?_
    refine safe_foundOr anyAnswer fun parent hp => ?_
    obtain ⟨hparent, hpid, hpuser⟩ := ht.folderKnown hp
    refine known_over (isDescendant _ _ _ _) (reads_isDescendant _ _ _ _).inert fun a u htu => ?_
    refine safe_foundOr anyAnswer fun cyclic _ => safe_failIf anyAnswer fun _ => ?_
    have hgrow := hst.trans htu
    refine h _ u hgrow ⟨hf.1.mono hgrow, fun p' hp' => ?_⟩
    obtain rfl := Option.some.inj hp'
    show FolderIDKnown u folder.userID p
    rw [huser, ← hpid, ← hpuser]
    exact hparent.1.mono htu

theorem known_updateFolder {userID : UUID} {id : GoString} {body : Option FolderRequest}
    {steps : ℕ} (hq : q = .updateFolder userID id body steps) :
    Known deps q (updateFolder userID id body steps .ret) s := by
  refine safe_parseID anyAnswer fun id _ => known_query fun o t _ ht => ?_
  refine safe_foundOr anyAnswer fun folder hf => safe_decodeBody anyAnswer fun req _ => ?_
  obtain ⟨hknown, -, huser⟩ := ht.folderKnown hf
  have hrenamed : (if req.name ≠ [] then { folder with name := req.name } else folder).userID =
      userID ∧ FolderKnown t (if req.name ≠ [] then { folder with name := req.name } else folder) := by
    split
    · exact ⟨huser, hknown⟩
    · exact ⟨huser, hknown⟩
  refine known_moveFolder hrenamed.2 hrenamed.1 fun f u _ hfu => ?_
  refine known_write (fun v huv _ => ⟨⟨_, _, _, _, hq⟩, hfu.mono huv⟩) fun _ a _ _ _ _ => ?_
  exact safe_foundOr anyAnswer fun _ _ => trivial

/-- Moving and renaming leave the identity of a file alone. -/
theorem known_renameFile {file : File} {name : Option GoString} {k : File → Prog Stmt Reply}
    (h : ∀ f, f.identity = file.identity → Known deps q (k f) s) :
    Known deps q (renameFile file name k) s := by
  match name with
  | none => exact h file rfl
  | some [] => trivial
  | some (c :: name) => exact h _ rfl

theorem known_moveFile {userID : UUID} {file : File} {folderID : Option GoString}
    {k : File → Prog Stmt Reply}
    (h : ∀ f t, Grows s t → f.identity = file.identity → Known deps q (k f) t) :
    Known deps q (moveFile userID file folderID k) s := by
  match folderID with
  | none => exact h file s (.refl s) rfl
  | some [] => exact h _ s (.refl s) rfl
  | some (c :: text) =>
    refine safe_parseID anyAnswer fun id _ => known_query fun _ t hst _ => ?_
    exact safe_foundOr anyAnswer fun _ _ => h _ t hst rfl

theorem known_updateFile {userID : UUID} {id : GoString} {body : Option FileUpdateRequest}
    (hq : q = .updateFile userID id body) : Known deps q (updateFile userID id body .ret) s := by
  refine safe_parseID anyAnswer fun fileID _ => known_query fun o t _ ht => ?_
  refine safe_foundOr anyAnswer fun file hf => safe_decodeBody anyAnswer fun req _ => ?_
  refine known_renameFile fun f₁ h₁ => known_moveFile fun f₂ u htu h₂ => ?_
  obtain ⟨b, hb, hid⟩ := (ht.fileKnown hf).1
  have hknown : FileKnown u f₂ := ⟨b, htu.files hb, hid.trans (h₂.trans h₁).symm⟩
  refine known_write (fun v huv _ => ⟨Or.inr ⟨_, _, _, hq⟩, hknown.mono huv⟩) fun _ a _ _ _ _ => ?_
  exact safe_foundOr anyAnswer fun _ _ => trivial

theorem known_deleteFile {userID : UUID} {id : GoString} (hq : q = .deleteFile userID id) :
    Known deps q (deleteFile userID id .ret) s := by
  refine safe_parseID anyAnswer fun fileID _ => known_query fun o t _ ht => ?_
  refine safe_foundOr anyAnswer fun file hf => ?_
  obtain ⟨hknown, -, huser⟩ := ht.fileKnown hf
  have hroot := huser ▸ ht.rootKnown hknown
  refine known_write (fun u htu _ => ⟨⟨_, hq⟩, hroot.mono htu⟩) fun _ a _ _ _ _ => ?_
  refine safe_foundOr anyAnswer fun _ _ => ?_
  exact known_over (cleanupFiles _) (passing_cleanupFiles _).inert fun _ _ _ => trivial

theorem known_deleteFolder {userID : UUID} {id : GoString} (hq : q = .deleteFolder userID id) :
    Known deps q (deleteFolder userID id .ret) s := by
  refine safe_parseID anyAnswer fun folderID _ => known_query fun _ _ _ _ => ?_
  refine safe_foundOr anyAnswer fun _ _ => known_write (fun _ _ _ => ⟨_, hq⟩) fun _ a _ _ _ _ => ?_
  refine safe_foundOr anyAnswer fun _ _ => ?_
  exact known_over (cleanupFiles _) (passing_cleanupFiles _).inert fun _ _ _ => trivial

theorem known_restoreFileVersion {userID : UUID} {id versionID : GoString}
    (hq : q = .restoreFileVersion userID id versionID) :
    Known deps q (restoreFileVersion userID id versionID .ret) s := by
  refine safe_parseID anyAnswer fun fileID _ => safe_parseID anyAnswer fun targetID _ => ?_
  refine known_query fun o t _ ht => safe_foundOr anyAnswer fun file hf => ?_
  obtain ⟨hknown, -, huser⟩ := ht.fileKnown hf
  refine known_query fun o' u htu hu => safe_found anyAnswer fun target htarget => ?_
  obtain ⟨⟨b, hb, hbid⟩, -, htuser⟩ := hu.fileKnown htarget
  refine safe_failIf anyAnswer fun hroot => ?_
  rw [ne_eq, not_not] at hroot
  have hversion : VersionKnown u userID file.lineageRootID target.id :=
    ⟨b, hb, congrArg File.Identity.id hbid, (congrArg File.Identity.userID hbid).trans htuser,
      (lineageRootID_congr hbid).trans hroot⟩
  have hrootKnown := huser ▸ (ht.rootKnown hknown).mono htu
  refine known_write (fun v huv _ => ⟨⟨_, _, hq⟩, hrootKnown.mono huv, hversion.mono huv⟩)
    fun _ a _ _ _ _ => ?_
  exact safe_foundOr anyAnswer fun _ _ => trivial

/-- A user's file is known to be the user's. -/
theorem FileKnown.idKnown {f : File} (h : FileKnown s f) : FileIDKnown s f.userID f.id := by
  obtain ⟨b, hb, hid⟩ := h
  exact ⟨b, hb, congrArg File.Identity.id hid, congrArg File.Identity.userID hid⟩

theorem known_createShare {userID : UUID} {id : GoString} {req : ShareCreateRequest}
    (hq : q = .createShare userID id req) : Known deps q (createShare userID id req .ret) s := by
  refine safe_parseID anyAnswer fun fileID _ => known_query fun o t _ ht => ?_
  refine safe_foundOr anyAnswer fun file hf => known_tool fun generated u htu => ?_
  obtain ⟨hknown, -, huser⟩ := ht.fileKnown hf
  have hfile : FileIDKnown t userID file.id := huser ▸ hknown.idKnown
  refine safe_failIf anyAnswer fun _ => ?_
  refine known_over (shareExpiry _) (reads_shareExpiry userID _).looks.inert fun expiresAt v huv => ?_
  refine known_over (shareLimit _) (reads_shareLimit userID _).looks.inert fun maxDownloads w hvw => ?_
  refine known_over (sharePasswordHash _) (asks_sharePasswordHash userID _).looks.inert
    fun hash x hwx => ?_
  have hgrow := ((htu.trans huv).trans hvw).trans hwx
  refine known_write (fun y hxy _ => ⟨⟨_, _, hq⟩, hfile.mono (hgrow.trans hxy)⟩) fun _ a _ _ _ _ => ?_
  exact safe_foundOr anyAnswer fun _ _ => trivial

theorem known_deleteShare {userID : UUID} {id : GoString} (hq : q = .deleteShare userID id) :
    Known deps q (deleteShare userID id .ret) s := by
  refine safe_parseID anyAnswer fun shareID _ => known_write (fun _ _ _ => ⟨_, hq⟩) fun _ a _ _ _ _ => ?_
  exact safe_foundOr anyAnswer fun _ _ => safe_failIf anyAnswer fun _ => trivial

/-! ## The workers -/

section Workers

variable {tools : Tools} {worker : Worker} {msg : Message}

/-- An update that a delivery may make. -/
theorem known_workerUpdate {u : FileUpdates} {k : Except DbError Unit → Prog Stmt Reply}
    (hq : q = .deliver worker msg) (ht : TaskKnown s msg.task) (htype : msg.task.type = worker.handles)
    (hu : u = finishedUpdates msg.task ∨ u = failedUpdates)
    (h : ∀ a t, Grows s t → Known deps q (k a) t) :
    Known deps q (write (.updateFile msg.task.payload.fileID u) k) s :=
  known_write (fun _ hst _ => ⟨worker, msg, hq, ht.mono hst, htype, rfl, hu⟩)
    fun _ a _ _ hst _ => h a _ hst

theorem known_handleImageThumbnail {k : Option TaskError → Prog Stmt Reply}
    (hq : q = .deliver worker msg) (ht : TaskKnown s msg.task) (htype : msg.task.type = worker.handles)
    (himage : msg.task.type = .imageThumbnail) (h : ∀ a t, Grows s t → Known deps q (k a) t) :
    Known deps q (handleImageThumbnail tools msg.task.payload k) s := by
  refine known_bucket (fun _ _ => trivial) fun opened t hst => ?_
  cases opened with
  | false => exact h _ t hst
  | true =>
    refine known_bucket (fun _ _ => trivial) fun original u htu => ?_
    have hsu := hst.trans htu
    cases original with
    | none => exact h _ u hsu
    | some original =>
      refine thumbnail_cases (P := fun p => Known deps q p u) (fun _ => ?_) (fun _ => ?_) fun body _ => ?_
      · exact h _ u hsu
      · exact h _ u hsu
      · have hkey : WorkerKey (thumbnailKey msg.task.payload.fileID) :=
          Or.inl ((List.prefix_append _ _).trans (List.prefix_append _ _))
        refine known_bucket (fun _ _ => Or.inr ⟨⟨worker, msg, hq⟩, hkey⟩) fun stored v huv => ?_
        have hsv := hsu.trans huv
        cases stored with
        | false => exact h _ v hsv
        | true =>
          refine known_workerUpdate hq (ht.mono hsv) htype ?_ fun a w hvw => ?_
          · exact Or.inl (by simp only [finishedUpdates, himage])
          · have hsw := hsv.trans hvw
            cases a with
            | error e => exact h _ w hsw
            | ok _ =>
              exact known_over (notifyUser _ _ _ _) (passing_notifyUser _ _ _ _).inert
                fun _ x hwx => h _ x (hsw.trans hwx)

theorem known_uploadFile {key contentType : GoString} {body : Bytes} {k : Bool → Prog Stmt Reply}
    (hq : q = .deliver worker msg) (hkey : WorkerKey key)
    (h : ∀ a t, Grows s t → Known deps q (k a) t) :
    Known deps q (uploadFile key body contentType k) s := by
  refine known_tool fun ok t hst => ?_
  cases ok with
  | false => exact h _ t hst
  | true =>
    exact known_bucket (fun _ _ => Or.inr ⟨⟨worker, msg, hq⟩, hkey⟩) fun a u htu => h a u (hst.trans htu)

theorem known_uploadEntries {directory : GoString} (hq : q = .deliver worker msg)
    (hdir : WorkerKey directory) {k : Bool → Prog Stmt Reply} :
    ∀ {s : Store} (entries : List (GoString × Bytes)), (∀ a t, Grows s t → Known deps q (k a) t) →
      Known deps q (uploadEntries directory entries k) s
  | s, [], h => h true s (.refl s)
  | s, entry :: entries, h => by
    have hkey : WorkerKey (directory ++ lit "/" ++ entry.1) :=
      hdir.imp (fun hp => hp.trans ((List.prefix_append _ _).trans (List.prefix_append _ _)))
        fun hp => hp.trans ((List.prefix_append _ _).trans (List.prefix_append _ _))
    refine known_uploadFile hq hkey fun stored t hst => ?_
    cases stored with
    | false => exact h _ t hst
    | true => exact known_uploadEntries hq hdir entries fun a u htu => h a u (hst.trans htu)

/-- What is stored for a video lies under `hls/`. -/
theorem workerKey_hls (id : UUID) (rest : GoString) : WorkerKey (hlsDirectory id ++ rest) :=
  Or.inr ((List.prefix_append _ _).trans (List.prefix_append _ _))

theorem known_uploadRenditionFiles {files : List (GoString × Bytes)} {id : UUID}
    {k : Bool → Prog Stmt Reply} (hq : q = .deliver worker msg)
    (h : ∀ a t, Grows s t → Known deps q (k a) t) :
    Known deps q (uploadRenditionFiles files (hlsDirectory id) k) s := by
  refine known_tool fun ok t hst => ?_
  cases ok with
  | false => exact h _ t hst
  | true =>
    refine known_uploadEntries hq ?_ _ fun a u htu => h a u (hst.trans htu)
    simpa using workerKey_hls id []

theorem known_publish {poster : Bytes} {files : List (GoString × Bytes)} {master : Bytes}
    {k : Option TaskError → Prog Stmt Reply} (hq : q = .deliver worker msg)
    (ht : TaskKnown s msg.task) (htype : msg.task.type = worker.handles)
    (hvideo : msg.task.type = .videoTranscode) (h : ∀ a t, Grows s t → Known deps q (k a) t) :
    Known deps q (publish tools msg.task.payload poster files master k) s := by
  refine known_uploadFile hq (workerKey_hls _ _) fun stored t hst => ?_
  cases stored with
  | false => exact h _ t hst
  | true =>
    refine known_uploadRenditionFiles hq fun stored u htu => ?_
    have hsu := hst.trans htu
    cases stored with
    | false => exact h _ u hsu
    | true =>
      refine known_bucket (fun _ _ => Or.inr ⟨⟨worker, msg, hq⟩, workerKey_hls _ _⟩) fun stored v huv => ?_
      have hsv := hsu.trans huv
      cases stored with
      | false => exact h _ v hsv
      | true =>
        refine known_workerUpdate hq (ht.mono hsv) htype ?_ fun a w hvw => ?_
        · exact Or.inl (by simp only [finishedUpdates, hvideo])
        · have hsw := hsv.trans hvw
          cases a with
          | error e => exact h _ w hsw
          | ok _ =>
            exact known_over (notifyUser _ _ _ _) (passing_notifyUser _ _ _ _).inert
              fun _ x hwx => h _ x (hsw.trans hwx)

theorem known_transcode {k : Option TaskError → Prog Stmt Reply}
    (hq : q = .deliver worker msg) (ht : TaskKnown s msg.task) (htype : msg.task.type = worker.handles)
    (hvideo : msg.task.type = .videoTranscode) (h : ∀ a t, Grows s t → Known deps q (k a) t) :
    Known deps q (transcode tools msg.task.payload k) s := by
  refine known_tool fun ok t hst => ?_
  cases ok with
  | false => exact h _ t hst
  | true =>
    refine known_over (downloadOriginal _) (passing_downloadOriginal _).inert fun input u htu => ?_
    have hsu := hst.trans htu
    cases input with
    | error message => exact h _ u hsu
    | ok input =>
      refine known_over (Workers.probeDimensions _ _) (passing_probeDimensions _ _).inert
        fun dimensions v huv => ?_
      have hsv := hsu.trans huv
      cases dimensions with
      | none => exact h _ v hsv
      | some dimensions =>
        refine known_over (Workers.probeDuration _ _) (passing_probeDuration _ _).inert
          fun ok w hvw => ?_
        have hsw := hsv.trans hvw
        cases ok with
        | false => exact h _ w hsw
        | true =>
          refine known_tool fun ok x hwx => ?_
          have hsx := hsw.trans hwx
          cases ok with
          | false => exact h _ x hsx
          | true =>
            refine known_tool fun poster y hxy => ?_
            have hsy := hsx.trans hxy
            cases poster with
            | none => exact h _ y hsy
            | some poster =>
              refine known_over (transcodeRenditions _) (passing_transcodeRenditions _).inert
                fun files z hyz => ?_
              have hsz := hsy.trans hyz
              cases files with
              | none => exact h _ z hsz
              | some files =>
                exact known_publish hq (ht.mono hsz) htype hvideo fun a x' hx' =>
                  h a x' (hsz.trans hx')

theorem known_processTask {k : Option TaskError → Prog Stmt Reply}
    (hq : q = .deliver worker msg) (ht : TaskKnown s msg.task)
    (h : ∀ a t, Grows s t → Known deps q (k a) t) :
    Known deps q (processTask tools worker msg.task k) s := by
  unfold processTask
  rw [Code.ite_run]
  split
  · next htype =>
    cases worker with
    | image => exact known_handleImageThumbnail hq ht htype htype h
    | video => exact known_transcode hq ht htype htype h
  · exact h _ s (.refl s)

theorem known_handleTaskError {err : TaskError} {k : Unit → Prog Stmt Reply}
    (hq : q = .deliver worker msg) (ht : TaskKnown s msg.task)
    (h : ∀ t, Grows s t → Known deps q (k ()) t) :
    Known deps q (handleTaskError tools worker msg err k) s := by
  unfold handleTaskError
  rw [Code.ite_run]
  split
  · rw [Code.ite_run]
    split
    · next htype =>
      exact known_workerUpdate hq ht htype (Or.inr rfl) fun a t hst =>
        known_over (notifyUser _ _ _ _) (passing_notifyUser _ _ _ _).inert
          fun _ u htu => h u (hst.trans htu)
    · exact h s (.refl s)
  · exact h s (.refl s)

theorem known_deliver (hq : q = .deliver worker msg) (ht : TaskKnown s msg.task) :
    Known deps q (deliver tools worker msg .ret) s := by
  refine known_processTask hq ht fun err t hst => ?_
  cases err with
  | none => trivial
  | some err =>
    refine known_handleTaskError hq (ht.mono hst) fun u htu => ?_
    have hknown := ht.mono (hst.trans htu)
    show Known deps q (settle msg err _) u
    unfold settle
    rw [Code.ite_run]
    split
    · exact known_call (fun _ => trivial) fun _ _ _ => trivial
    · exact safe_call (fun v huv _ => hknown.mono huv) fun _ _ _ _ _ _ _ _ _ => trivial

end Workers

/-! ## The outline is valid -/

/-- A handler started in a well-formed store makes known calls. -/
theorem known_handler (h : WellFormed s) {s' : Store} (hq : q.launch s = some s') :
    Known deps q (q.handler deps .ret) s' := by
  cases q with
  | presign userID body => exact known_presign rfl
  | complete userID id => exact known_complete rfl
  | presignVersion userID id body => exact known_presignVersion rfl
  | tusPreCreate userID upload => exact known_tusPreCreate rfl
  | finishTusUpload upload => exact known_finishTusUpload rfl
  | shareDownloadURL token body => exact known_shareDownloadURL rfl
  | createFolder userID body => exact known_createFolder rfl
  | updateFolder userID id body steps => exact known_updateFolder rfl
  | deleteFolder userID id => exact known_deleteFolder rfl
  | updateFile userID id body => exact known_updateFile rfl
  | deleteFile userID id => exact known_deleteFile rfl
  | restoreFileVersion userID id versionID => exact known_restoreFileVersion rfl
  | createShare userID id req => exact known_createShare rfl
  | deleteShare userID id => exact known_deleteShare rfl
  | deliver worker msg =>
    obtain ⟨hdb, -, -, -, ⟨-, hne⟩ | ⟨worker', msg', he, hm, -⟩⟩ := launch_cases hq
    · exact absurd rfl (hne worker msg)
    · cases he
      exact known_deliver rfl ((h.waiting msg hm).mono (.of_db_eq hdb))
  | _ => exact known_over _ (looks_handler rfl).inert fun _ _ _ => trivial

/-- **Provenance**: in every run from a well-formed store, every call is made with what it should
know. -/
theorem provenance_valid (deps : Deps) : (provenance deps).Valid where
  rely_refl := Grows.refl
  rely_trans := Grows.trans
  start _ h hq := ⟨h.launch hq, .of_db_eq (launch_cases hq).1⟩
  safe _ h hq _ := known_handler h hq
  call h he _ hx := ⟨h.exec he hx, exec_grows hx⟩
  env _ h hv := ⟨h.env hv, .of_db_eq (env_cases hv).1⟩

end Optiflow
