import Optiflow.Proof.ObjectKeys
import Optiflow.Proof.Rows
import Optiflow.Proof.Runs

/-!
# Links between rows

No foreign key ties a row to rows of its own user: the folder of a file, the file of a share and the
folder that an upload asks for are ids that handlers have checked.  `Linked` says that each of them is
known as the id of a row of the same user, that the keys in a file row are the file's, and it holds after
every step of every run (`linked_always`).
-/

namespace Optiflow

open Interleave Code UploadSvc ApiSvc Workers

/-! ## The invariant -/

/-- The folder of a file is its user's, and the keys in the row are the file's. -/
structure FileLinked (s : Store) (f : File) : Prop where
  folder : ∀ p, f.folderID = some p → FolderIDKnown s f.userID p
  original : Owns f.id f.storageKey
  thumbnail : ∀ key, f.thumbnailKey = some key → Owns f.id key

/-- The user that the metadata of an upload names. -/
def Upload.user (u : Upload) : Option UUID := UUID.parse (u.metaData.get (lit "user_id"))

/-- The folder of an upload is its user's. -/
def UploadLinked (s : Store) (u : Upload) : Prop :=
  ∀ userID, u.user = some userID → ∀ p, tusFolderID u = some p → FolderIDKnown s userID p

/-- Every link stays inside one user. -/
structure Linked (s : Store) : Prop where
  file : ∀ f ∈ s.db.files, FileLinked s f
  share : ∀ sh ∈ s.db.shares, FileIDKnown s sh.userID sh.fileID
  accepted : ∀ u ∈ s.staging.accepted, UploadLinked s u
  completed : ∀ u ∈ s.staging.completed, UploadLinked s u

/-- What a call that makes or saves a file, or lets an upload in, must know. -/
def CallLinked (s : Store) {α : Type} : Stmt α → Prop
  | .write (.createFile mk) => ∀ id, FileLinked s (mk id)
  | .write (.presignVersion _ _ mk) => ∀ id, FileLinked s (mk id)
  | .write (.saveFile f) => FileLinked s f
  | .staging (.create u) => UploadLinked s u
  | _ => True

/-- The requests that put a file into a folder. -/
def Request.places : Request → Bool
  | .presign _ _ => true
  | .complete _ _ => true
  | .presignVersion _ _ _ => true
  | .tusPreCreate _ _ => true
  | .finishTusUpload _ => true
  | .updateFile _ _ _ => true
  | _ => false

/-- The outline of links. -/
def links (deps : Deps) : Outline (services deps) where
  inv s := WellFormed s ∧ Linked s
  rely := Grows
  pre q _ e s := q.places = true → CallLinked s e
  post _ _ := True
  cond _ := True

section Steps

variable {s s' : Store} {q : Request} {α : Type} {e : Stmt α} {o : Oracle} {a : α} {f : File}

theorem FileLinked.mono (h : FileLinked s f) (hgrow : Grows s s') : FileLinked s' f :=
  ⟨fun p hp => (h.folder p hp).mono hgrow, h.original, h.thumbnail⟩

theorem UploadLinked.mono {u : Upload} (h : UploadLinked s u) (hgrow : Grows s s') : UploadLinked s' u :=
  fun userID huser p hp => (h userID huser p hp).mono hgrow

/-- Which row is current does not matter, nor what an INSERT does to a row. -/
theorem FileLinked.withCurrent (h : FileLinked s f) (b : Bool) : FileLinked s (f.withCurrent b) :=
  ⟨h.folder, h.original, h.thumbnail⟩

theorem FileLinked.columnDefaults (h : FileLinked s f) : FileLinked s f.columnDefaults :=
  ⟨h.folder, h.original, h.thumbnail⟩

theorem FileLinked.savedRow (h : FileLinked s f) : FileLinked s (s.db.savedRow f) := by
  obtain hrow | hrow := s.db.savedRow_eq f
  · rw [hrow]
    exact h
  · rw [hrow]
    exact h.columnDefaults

/-- A worker stores a thumbnail of its file. -/
theorem WorkerUpdate.owns {worker : Worker} {msg : Message} {id : UUID} {u : FileUpdates}
    (h : WorkerUpdate s worker msg id u) {key : GoString} (hkey : u.thumbnailKey = some key) :
    Owns id key := by
  obtain ⟨-, -, rfl, rfl | rfl⟩ := h
  · unfold finishedUpdates at hkey
    cases htype : msg.task.type with
    | imageThumbnail =>
      rw [htype] at hkey
      obtain rfl := Option.some.inj hkey
      exact owns_thumbnailKey
    | videoTranscode =>
      rw [htype] at hkey
      obtain rfl := Option.some.inj hkey
      exact owns_of_hlsPrefix hlsPrefix_posterKey
  · cases hkey

theorem Linked.file_exec (h : Linked s) (hw : CallKnown s q e)
    (hl : q.places = true → CallLinked s e) (hx : exec o e s = some (a, s'))
    (hf : f ∈ s'.db.files) : FileLinked s f := by
  obtain ⟨g, hg, b, rfl⟩ | hwrote := file_cases hx hf
  · exact (h.file g hg).withCurrent b
  cases e with
  | write w =>
    obtain ⟨db', hrun, rfl⟩ := exec_write hx
    cases w with
    | createFile mk =>
      have hplaces : q.places = true := by
        obtain ⟨-, -, ⟨-, userID, body, rfl⟩ | ⟨upload, rfl, -⟩⟩ := hw o.uuid
        · rfl
        · rfl
      obtain ⟨rfl, -⟩ | ⟨-, -, -, rfl, -⟩ := Write.createFile_cases hrun
      · exact hwrote.elim
      · exact hwrote.1 ▸ (hl hplaces o.uuid).columnDefaults
    | presignVersion userID root mk =>
      obtain ⟨⟨id, body, rfl⟩, -⟩ := hw
      obtain ⟨rfl, -⟩ | ⟨-, -, -, rfl, -⟩ := Write.presignVersion_cases hrun
      · exact hwrote.elim
      · exact hwrote.1 ▸ (hl rfl o.uuid).columnDefaults
    | saveFile g =>
      have hplaces : q.places = true := by
        obtain ⟨⟨userID, id, rfl⟩ | ⟨userID, id, body, rfl⟩, -⟩ := hw
        · rfl
        · rfl
      obtain ⟨rfl, -⟩ | ⟨rfl, -⟩ := Write.saveFile_cases hrun
      · exact hwrote.elim
      · have hrow : f = s.db.savedRow g := hwrote
        exact hrow ▸ (show FileLinked s g from hl hplaces).savedRow
    | updateFile id u =>
      obtain ⟨worker, msg, -, hupdate⟩ := hw
      obtain ⟨rfl, -⟩ | ⟨rfl, -⟩ := Write.updateFile_cases hrun
      · exact hwrote.elim
      · obtain ⟨g, hg, rfl, rfl⟩ := hwrote
        refine ⟨(h.file g hg).folder, (h.file g hg).original, fun key hkey => ?_⟩
        obtain hu | ⟨-, hkey⟩ := (Option.orElse_eq_some _ _ _).1 hkey
        · exact hupdate.owns hu
        · exact (h.file g hg).thumbnail key hkey
    | _ => exact hwrote.elim
  | _ => exact hwrote.elim

theorem Linked.share_exec (h : Linked s) (hw : CallKnown s q e) (hx : exec o e s = some (a, s'))
    {sh : Share} (hsh : sh ∈ s'.db.shares) : FileIDKnown s sh.userID sh.fileID := by
  cases e with
  | write w =>
    obtain ⟨db', hrun, rfl⟩ := exec_write hx
    obtain ⟨x, hx, rfl | rfl⟩ | ⟨-, -, hmakes⟩ := Write.share_cases hrun hsh
    · exact h.share sh hx
    · exact h.share x hx
    · cases w with
      | createShare fileID userID passwordHash expiresAt maxDownloads =>
        obtain ⟨hfile, huser⟩ := hmakes
        rw [hfile, huser]
        exact hw.2
      | _ => exact hmakes.elim
  | _ =>
    rw [exec_db rfl hx] at hsh
    exact h.share sh hsh

/-- Whether a call is one to the staging directory. -/
def Stmt.isStaging {α : Type} : Stmt α → Bool
  | .staging _ => true
  | _ => false

theorem exec_staging (he : e.isStaging = false) (hx : exec o e s = some (a, s')) :
    s'.staging = s.staging := by
  cases e with
  | staging st => cases he
  | write w =>
    obtain ⟨db', -, rfl⟩ := exec_write hx
    rfl
  | newUUID =>
    simp only [exec] at hx
    split at hx
    · cases hx
    · obtain ⟨-, rfl⟩ := Prod.mk.inj (Option.some.inj hx)
      rfl
  | _ =>
    obtain ⟨-, rfl⟩ := Prod.mk.inj (Option.some.inj hx)
    rfl

theorem Linked.exec (h : Linked s) (hw : CallKnown s q e) (hl : q.places = true → CallLinked s e)
    (hx : exec o e s = some (a, s')) : Linked s' := by
  have hgrow := exec_grows hx
  refine ⟨fun f hf => (h.file_exec hw hl hx hf).mono hgrow,
    fun sh hsh => (h.share_exec hw hx hsh).mono hgrow, ?_, ?_⟩
  · cases e with
    | staging st =>
      obtain ⟨-, rfl⟩ := Prod.mk.inj (Option.some.inj hx)
      cases st with
      | create u =>
        obtain ⟨userID, upload, rfl⟩ := hw
        exact List.forall_mem_cons.2 ⟨hl rfl, h.accepted⟩
      | openFile path => exact h.accepted
      | removeFile path =>
        intro u hu
        refine h.accepted u ?_
        simp only [StagingStmt.run] at hu
        split at hu <;> exact hu
    | _ =>
      rw [exec_staging rfl hx]
      exact fun u hu => (h.accepted u hu).mono hgrow
  · cases e with
    | staging st =>
      obtain ⟨-, rfl⟩ := Prod.mk.inj (Option.some.inj hx)
      cases st with
      | removeFile path =>
        intro u hu
        refine h.completed u ?_
        simp only [StagingStmt.run] at hu
        split at hu <;> exact hu
      | _ => exact h.completed
    | _ =>
      rw [exec_staging rfl hx]
      exact fun u hu => (h.completed u hu).mono hgrow

/-- What is not in the database or the staging directory does not matter. -/
theorem Linked.congr (h : Linked s) (hdb : s'.db = s.db)
    (haccepted : ∀ u ∈ s'.staging.accepted, UploadLinked s u)
    (hcompleted : ∀ u ∈ s'.staging.completed, UploadLinked s u) : Linked s' := by
  have hgrow : Grows s s' := .of_db_eq hdb
  exact ⟨fun f hf => (h.file f (hdb ▸ hf)).mono hgrow, fun sh hsh => (h.share sh (hdb ▸ hsh)).mono hgrow,
    fun u hu => (haccepted u hu).mono hgrow, fun u hu => (hcompleted u hu).mono hgrow⟩

theorem Linked.launch (h : Linked s) (hq : q.launch s = some s') : Linked s' := by
  have hdb := (launch_cases hq).1
  cases q with
  | finishTusUpload upload =>
    simp only [Request.launch] at hq
    split at hq
    · obtain rfl := Option.some.inj hq
      exact h.congr hdb h.accepted fun u hu => h.completed u (List.mem_of_mem_erase hu)
    · cases hq
  | deliver worker msg =>
    simp only [Request.launch] at hq
    split at hq
    · obtain rfl := Option.some.inj hq
      exact h.congr hdb h.accepted h.completed
    · cases hq
  | _ =>
    obtain rfl := Option.some.inj hq
    exact h

/-- The bytes of an upload leave its metadata alone. -/
theorem Linked.env (h : Linked s) {v : EnvMove} (hv : v.run s = some s') : Linked s' := by
  have hdb := (env_cases hv).1
  cases v with
  | receive upload body =>
    simp only [EnvMove.run] at hv
    split at hv
    · next hmem =>
      obtain rfl := Option.some.inj hv
      refine h.congr hdb (fun u hu => h.accepted u (List.mem_of_mem_erase hu)) ?_
      exact List.forall_mem_cons.2 ⟨h.accepted upload hmem.1, h.completed⟩
    · cases hv
  | _ =>
    simp only [EnvMove.run] at hv
    split at hv
    · obtain rfl := Option.some.inj hv
      exact h.congr hdb h.accepted h.completed
    · cases hv

end Steps

/-! ## Reading the handlers -/

section Handlers

variable {deps : Deps} {q : Request} {s : Store} {α : Type}

/-- Reading a program against `links`. -/
abbrev Links (deps : Deps) (q : Request) (p : Prog Stmt Reply) (s : Store) : Prop :=
  (links deps).Safe q p s

theorem links_answer (status : ℕ) (message : String) :
    (links deps).post q (.error status message) := trivial

theorem links_query {qy : Query α} {k : Except DbError α → Prog Stmt Reply}
    (h : ∀ o t, Grows s t → WellFormed t → Linked t → Links deps q (k (qy.run o t.db)) t) :
    Links deps q (query qy k) s :=
  safe_query (fun _ _ _ _ => trivial) fun o t hst ht _ => h o t hst ht.1 ht.2

theorem links_write {w : Write α} {k : Except DbError α → Prog Stmt Reply}
    (hw : ∀ t, Grows s t → CallLinked t (.write w))
    (h : ∀ a t, Grows s t → Links deps q (k a) t) : Links deps q (write w k) s :=
  safe_write (fun t hst _ _ => hw t hst) fun _ a _ _ hst _ _ hx _ =>
    h a _ (hst.trans (Write.run_grows hx))

/-- Any other call. -/
theorem links_call {e : Stmt α} {k : α → Prog Stmt Reply} (he : ∀ t, Grows s t → CallLinked t e)
    (h : ∀ a t, Grows s t → Links deps q (k a) t) : Links deps q ((Code.call e : Handler α) k) s :=
  safe_call (fun t hst _ _ => he t hst) fun a _ _ _ hst _ _ hx _ => h a _ (hst.trans (exec_grows hx))

theorem CallLinked.of_plain {puts : Bool} {e : Stmt α} (he : Plain puts e) : CallLinked s e := by
  cases e with
  | write w => exact he.elim
  | staging st =>
    cases st with
    | create upload => cases he
    | _ => trivial
  | _ => trivial

/-- Plain calls make and save no file. -/
theorem links_over (puts : Bool) (c : Handler α) {k : α → Prog Stmt Reply} (hc : Inert puts c)
    (h : ∀ a t, Grows s t → Links deps q (k a) t) : Links deps q (c k) s := by
  refine hc (fun p => ∀ t, Grows s t → Links deps q p t) (fun e k he hk t hst => ?_)
    (fun _ _ _ _ => trivial) k h s (.refl s)
  exact links_call (fun _ _ => CallLinked.of_plain he) fun a u htu => hk a u (hst.trans htu)

theorem links_enqueueOrLog {task : Option Task} {k : Unit → Prog Stmt Reply}
    (h : ∀ t, Grows s t → Links deps q (k ()) t) : Links deps q (enqueueOrLog task k) s := by
  cases task with
  | none => exact h s (.refl s)
  | some task => exact links_call (fun _ _ => trivial) fun _ t hst => h t hst

/-- A folder that was found is known as the user's. -/
theorem WellFormed.folderIDKnown (h : WellFormed s) {o : Oracle} {id userID : UUID} {f : Folder}
    (hf : (Query.folder id userID).run o s.db = .ok f) : FolderIDKnown s userID id := by
  obtain ⟨hknown, rfl, rfl⟩ := h.folderKnown hf
  exact hknown.1

theorem links_ownedFolderID {userID : UUID} {folderID : Option GoString}
    {k : Option UUID → Prog Stmt Reply}
    (h : ∀ p t, Grows s t → (∀ id, p = some id → FolderIDKnown t userID id) → Links deps q (k p) t) :
    Links deps q (ownedFolderID userID folderID k) s := by
  match folderID with
  | none => exact h none s (.refl s) fun _ hid => by cases hid
  | some [] => exact h none s (.refl s) fun _ hid => by cases hid
  | some (c :: text) =>
    refine safe_parseID links_answer fun id _ => links_query fun o t hst ht _ => ?_
    refine safe_foundOr links_answer fun folder hf => h (some id) t hst fun id' hid => ?_
    obtain rfl := Option.some.inj hid
    exact ht.folderIDKnown hf

theorem links_presign (userID : UUID) (body : Option PresignRequest) :
    Links deps q (presign userID body .ret) s := by
  refine safe_decodeBody links_answer fun req _ => safe_failIf links_answer fun _ => ?_
  refine links_over true (checkQuota _ _) (reads_checkQuota _ _).inert fun a t _ => ?_
  refine links_over true (orQuotaError a) (silent_orQuotaError a).over fun _ t _ => ?_
  refine links_ownedFolderID fun folderID t _ hfolder => ?_
  refine links_write (fun u htu id => ⟨fun p hp => (hfolder p hp).mono htu, owns_storageKey,
    fun key hkey => by cases hkey⟩) fun a t _ => ?_
  refine safe_foundOr links_answer fun file _ => ?_
  exact links_over _ _ (inert_presignUpload file) fun _ _ _ => trivial

theorem links_complete (userID : UUID) (id : GoString) :
    Links deps q (complete userID id .ret) s := by
  refine safe_parseID links_answer fun fileID _ => links_query fun o t _ _ ht => ?_
  refine safe_found links_answer fun file hf => safe_failIf links_answer fun _ => ?_
  have hfile := ht.file file (Query.file_ok hf).1
  refine links_call (fun _ _ => trivial) fun a u htu => ?_
  cases a with
  | none => trivial
  | some size =>
    refine links_write (fun v huv => ?_) fun a v _ => ?_
    · have hv := hfile.mono (htu.trans huv)
      exact ⟨hv.folder, hv.original, hv.thumbnail⟩
    · exact safe_foundOr links_answer fun _ _ => links_enqueueOrLog fun _ _ => trivial

theorem links_presignVersion (userID : UUID) (id : GoString) (body : Option PresignVersionRequest) :
    Links deps q (presignVersion userID id body .ret) s := by
  refine safe_parseID links_answer fun fileID _ => safe_decodeBody links_answer fun req _ => ?_
  refine safe_failIf links_answer fun _ => links_query fun o t _ _ _ => ?_
  refine safe_found links_answer fun anyVersion _ => ?_
  refine links_over true (checkQuota _ _) (reads_checkQuota _ _).inert fun a t _ => ?_
  refine links_over true (orQuotaError a) (silent_orQuotaError a).over fun _ t _ => ?_
  refine links_query fun o t _ _ ht => safe_foundOr links_answer fun current hcurrent => ?_
  obtain ⟨hmem, hin, -⟩ := Query.currentVersion_ok hcurrent
  have hfile := ht.file current hmem
  have huser : current.userID = userID := (DB.inLineage_iff.1 hin).1
  refine links_query fun _ u htu _ _ => safe_foundOr links_answer fun maxVersion _ => ?_
  refine links_write (fun v huv newFileID => ⟨fun p hp => ?_, owns_storageKey,
    fun key hkey => by cases hkey⟩) fun a v _ => ?_
  · show FolderIDKnown v userID p
    rw [← huser]
    exact (hfile.folder p hp).mono (htu.trans huv)
  · refine safe_foundOr links_answer fun file _ => ?_
    exact links_over _ _ (inert_presignUpload file) fun _ _ _ => trivial

/-- A folder that passes the check is known as the user's. -/
theorem links_tusCheckFolder {userID : UUID} {text : GoString} {k : Unit → Prog Stmt Reply}
    (h : ∀ t, Grows s t → (∀ p, text ≠ [] → UUID.parse text = some p → FolderIDKnown t userID p) →
      Links deps q (k ()) t) : Links deps q (tusCheckFolder userID text k) s := by
  unfold tusCheckFolder
  rw [Code.ite_run]
  split
  · next htext => exact h s (.refl s) fun _ hne => absurd htext hne
  · cases hid : UUID.parse text with
    | none => trivial
    | some folderID =>
      refine links_query fun o t hst ht _ => ?_
      cases ha : (Query.folder folderID userID).run o t.db with
      | error e => trivial
      | ok folder =>
        refine h t hst fun p _ hp => ?_
        obtain rfl := Option.some.inj (hid.symm.trans hp)
        exact ht.folderIDKnown ha

theorem links_tusPreCreate (userID : Option UUID) (upload : Upload) :
    Links deps q (tusPreCreate userID upload .ret) s := by
  cases userID with
  | none => trivial
  | some userID =>
    refine safe_exitIf (fun _ => trivial) fun _ => links_tusCheckFolder fun t _ hfolder => ?_
    refine links_over true (checkQuota _ _) (reads_checkQuota _ _).inert fun a u htu => ?_
    match a with
    | .error (.exceeded _) => trivial
    | .error .other => trivial
    | .ok () =>
      refine links_call (fun v huv => ?_) fun _ _ _ => trivial
      -- The user is the one that the hook has stamped, the folder is the one that it has checked.
      intro userID' huser p hp
      simp only [Upload.user, MetaData.get_set, UUID.parse_string, Option.some.injEq] at huser
      subst huser
      simp only [tusFolderID] at hp
      rw [MetaData.get_set_ne (by decide)] at hp
      split at hp
      · cases hp
      · next htext => exact (hfolder p htext hp).mono (htu.trans huv)

theorem links_finishTusUpload {upload : Upload} (h : UploadLinked s upload) :
    Links deps q (finishTusUpload upload .ret) s := by
  unfold finishTusUpload
  cases huser : UUID.parse (upload.metaData.get (lit "user_id")) with
  | none => trivial
  | some userID =>
    refine safe_exitIf (fun _ => trivial) fun _ => links_call (fun _ _ => trivial) fun a t hst => ?_
    cases a with
    | none => trivial
    | some body =>
      refine links_call (fun _ _ => trivial) fun fileID u htu => ?_
      refine links_call (fun _ _ => trivial) fun stored v huv => safe_exitIf (fun _ => trivial) fun _ => ?_
      have hfolder := h.mono ((hst.trans htu).trans huv)
      refine links_write (fun w hvw _ => ⟨hfolder.mono hvw userID huser, owns_storageKey,
        fun key hkey => by cases hkey⟩) fun a w _ => ?_
      cases a with
      | error e => trivial
      | ok file =>
        exact links_enqueueOrLog fun _ _ => links_call (fun _ _ => trivial) fun _ _ _ =>
          links_call (fun _ _ => trivial) fun _ _ _ => trivial

theorem links_renameFile {file : File} {name : Option GoString} {k : File → Prog Stmt Reply}
    (hf : FileLinked s file)
    (h : ∀ f, f.userID = file.userID → FileLinked s f → Links deps q (k f) s) :
    Links deps q (renameFile file name k) s := by
  match name with
  | none => exact h file rfl hf
  | some [] => trivial
  | some (c :: name) => exact h _ rfl ⟨hf.folder, hf.original, hf.thumbnail⟩

theorem links_moveFile {userID : UUID} {file : File} {folderID : Option GoString}
    {k : File → Prog Stmt Reply} (huser : file.userID = userID) (hf : FileLinked s file)
    (h : ∀ f t, FileLinked t f → Links deps q (k f) t) :
    Links deps q (moveFile userID file folderID k) s := by
  match folderID with
  | none => exact h file s hf
  | some [] => exact h _ s ⟨(fun _ hp => by cases hp), hf.original, hf.thumbnail⟩
  | some (c :: text) =>
    refine safe_parseID links_answer fun id _ => links_query fun o t _ ht _ => ?_
    refine safe_foundOr links_answer fun folder hfolder => ?_
    refine h _ t ⟨fun p hp => ?_, hf.original, hf.thumbnail⟩
    obtain rfl := Option.some.inj hp
    show FolderIDKnown t file.userID id
    rw [huser]
    exact ht.folderIDKnown hfolder

theorem links_updateFile (userID : UUID) (id : GoString) (body : Option FileUpdateRequest) :
    Links deps q (updateFile userID id body .ret) s := by
  refine safe_parseID links_answer fun fileID _ => links_query fun o t _ _ ht => ?_
  refine safe_foundOr links_answer fun file hf => safe_decodeBody links_answer fun req _ => ?_
  obtain ⟨hmem, -, huser⟩ := Query.file_ok hf
  refine links_renameFile (ht.file file hmem) fun f₁ huser₁ h₁ => ?_
  refine links_moveFile (huser₁.trans huser) h₁ fun f₂ u h₂ => ?_
  refine links_write (fun v huv => h₂.mono huv) fun _ _ _ => ?_
  exact safe_foundOr links_answer fun _ _ => trivial

/-- Handlers make only links that stay inside one user. -/
theorem links_handler (h : Linked s) {s' : Store} (hq : q.launch s = some s') :
    Links deps q (q.handler deps .ret) s' := by
  cases q with
  | presign userID body => exact links_presign userID body
  | complete userID id => exact links_complete userID id
  | presignVersion userID id body => exact links_presignVersion userID id body
  | tusPreCreate userID upload => exact links_tusPreCreate userID upload
  | updateFile userID id body => exact links_updateFile userID id body
  | finishTusUpload upload =>
    refine links_finishTusUpload ?_
    simp only [Request.launch] at hq
    split at hq
    · next hmem =>
      obtain rfl := Option.some.inj hq
      exact h.completed upload hmem
    · cases hq
  | _ => exact Outline.safe_of_trivial (fun _ _ hplaces => by cases hplaces) (fun _ => trivial) _ _

end Handlers

/-! ## Runs -/

theorem links_valid (deps : Deps) : ((provenance deps).inf (links deps)).Valid where
  rely_refl s := ⟨.refl s, .refl s⟩
  rely_trans h h' := ⟨h.1.trans h'.1, h.2.trans h'.2⟩
  start _ h hq := by
    have hgrow := Grows.of_db_eq (launch_cases hq).1
    exact ⟨⟨h.1.launch hq, h.1.launch hq, h.2.2.launch hq⟩, hgrow, hgrow⟩
  safe _ h hq _ := (known_handler h.1 hq).inf (links_handler h.2.2 hq)
  call h hpre _ hx := by
    rw [services_exec] at hx
    have hwf := h.1.exec hpre.1 hx
    exact ⟨⟨hwf, hwf, h.2.2.exec hpre.1 hpre.2 hx⟩, exec_grows hx, exec_grows hx⟩
  env _ h hv := by
    have hgrow := Grows.of_db_eq (env_cases hv).1
    exact ⟨⟨h.1.env hv, h.1.env hv, h.2.2.env hv⟩, hgrow, hgrow⟩

theorem linked_fresh (users : Table User) : Linked (Store.fresh users) where
  file _ hf := absurd hf Table.not_mem_empty
  share _ hs := absurd hs Table.not_mem_empty
  accepted _ hu := absurd hu List.not_mem_nil
  completed _ hu := absurd hu List.not_mem_nil

/-- Links stay inside one user, in every state that any interleaving reaches. -/
theorem linked_always (deps : Deps) (users : Table User) {c : Services}
    {sch : Machine.Schedule Store Request Reply Oracle EnvMove Stmt}
    (h : (services deps).Reaches sch (start (Store.fresh users)) c) :
    WellFormed c.store ∧ Linked c.store := by
  have hgood := (links_valid deps).good h (Outline.good_init ⟨wellFormed_fresh users,
    wellFormed_fresh users, linked_fresh users⟩) fun _ _ => ⟨trivial, trivial⟩
  exact ⟨hgood.1.1, hgood.1.2.2⟩

end Optiflow
