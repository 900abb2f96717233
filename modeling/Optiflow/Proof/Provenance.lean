import Optiflow.Proof.Rules

/-!
# Where the structs that handlers write come from

A handler reads a row, thinks, and writes a struct.  By then the row may have changed or gone, but some
columns of a row never change, and those of the struct are still right: a saved file has the identity
of the file born under its id, a saved folder has its owner, a new version points at a lineage root,
a task describes the file it names.  `provenance` is the outline that says so for every call of every
handler; it needs no condition on the run, so each later proof may use it.
-/

namespace Optiflow

open Interleave UploadSvc ApiSvc Workers

/-! ## What is known for good -/

/-- The file's id was born with the file's identity. -/
def FileKnown (s : Store) (f : File) : Prop := ∃ b ∈ s.db.files.births, b.identity = f.identity

/-- The id is that of a user's lineage root. -/
def RootKnown (s : Store) (userID root : UUID) : Prop :=
  ∃ b ∈ s.db.files.births, b.id = root ∧ b.parentID = none ∧ b.userID = userID

/-- The id is that of one of a user's files, of the lineage of `root`. -/
def VersionKnown (s : Store) (userID root id : UUID) : Prop :=
  ∃ b ∈ s.db.files.births, b.id = id ∧ b.userID = userID ∧ b.lineageRootID = root

/-- The id is that of one of a user's folders. -/
def FolderIDKnown (s : Store) (userID id : UUID) : Prop :=
  ∃ b ∈ s.db.folders.births, b.id = id ∧ b.userID = userID

/-- The id is that of one of a user's files. -/
def FileIDKnown (s : Store) (userID id : UUID) : Prop :=
  ∃ b ∈ s.db.files.births, b.id = id ∧ b.userID = userID

/-- The folder and its parent are the user's. -/
def FolderKnown (s : Store) (f : Folder) : Prop :=
  FolderIDKnown s f.userID f.id ∧ ∀ p, f.parentID = some p → FolderIDKnown s f.userID p

/-- The task is the one that the file born under its id asks for. -/
def TaskKnown (s : Store) (t : Task) : Prop :=
  ∃ b ∈ s.db.files.births, processingTask b = some t

/-- The share's id was born with the share's token. -/
def ShareKnown (s : Store) (token : GoString) (id : UUID) : Prop :=
  ∃ b ∈ s.db.shares.births, b.id = id ∧ b.token = token

section Mono

variable {s t : Store} (h : Grows s t)
include h

theorem FileKnown.mono {f : File} : FileKnown s f → FileKnown t f :=
  fun ⟨b, hb, hid⟩ => ⟨b, h.files hb, hid⟩

theorem RootKnown.mono {userID root : UUID} : RootKnown s userID root → RootKnown t userID root :=
  fun ⟨b, hb, hid⟩ => ⟨b, h.files hb, hid⟩

theorem VersionKnown.mono {userID root id : UUID} :
    VersionKnown s userID root id → VersionKnown t userID root id :=
  fun ⟨b, hb, hid⟩ => ⟨b, h.files hb, hid⟩

theorem FolderIDKnown.mono {userID id : UUID} : FolderIDKnown s userID id → FolderIDKnown t userID id :=
  fun ⟨b, hb, hid⟩ => ⟨b, h.folders hb, hid⟩

theorem FileIDKnown.mono {userID id : UUID} : FileIDKnown s userID id → FileIDKnown t userID id :=
  fun ⟨b, hb, hid⟩ => ⟨b, h.files hb, hid⟩

theorem FolderKnown.mono {f : Folder} : FolderKnown s f → FolderKnown t f :=
  fun ⟨hid, hp⟩ => ⟨hid.mono h, fun p hf => (hp p hf).mono h⟩

theorem TaskKnown.mono {task : Task} : TaskKnown s task → TaskKnown t task :=
  fun ⟨b, hb, ht⟩ => ⟨b, h.files hb, ht⟩

theorem ShareKnown.mono {token : GoString} {id : UUID} :
    ShareKnown s token id → ShareKnown t token id :=
  fun ⟨b, hb, hid⟩ => ⟨b, h.shares hb, hid⟩

end Mono

/-- An id is that of a file of one user. -/
theorem FileIDKnown.user_eq {s : Store} {userID userID' id : UUID} (h : FileIDKnown s userID id)
    (h' : FileIDKnown s userID' id) : userID = userID' := by
  obtain ⟨b, hb, hid, rfl⟩ := h
  obtain ⟨b', hb', hid', rfl⟩ := h'
  rw [Table.eq_of_birth hb hb' (hid.trans hid'.symm)]

/-- An id is that of a folder of one user. -/
theorem FolderIDKnown.user_eq {s : Store} {userID userID' id : UUID} (h : FolderIDKnown s userID id)
    (h' : FolderIDKnown s userID' id) : userID = userID' := by
  obtain ⟨b, hb, hid, rfl⟩ := h
  obtain ⟨b', hb', hid', rfl⟩ := h'
  rw [Table.eq_of_birth hb hb' (hid.trans hid'.symm)]

/-- Known files of one id have one identity. -/
theorem FileKnown.identity_eq {s : Store} {f g : File} (hf : FileKnown s f) (hg : FileKnown s g)
    (hid : f.id = g.id) : f.identity = g.identity := by
  obtain ⟨b, hb, hbf⟩ := hf
  obtain ⟨b', hb', hbg⟩ := hg
  have hkey : b.id = b'.id := (congrArg File.Identity.id hbf).trans
    (hid.trans (congrArg File.Identity.id hbg).symm)
  rw [← hbf, ← hbg, Table.eq_of_birth hb hb' hkey]

/-- The identity of a file decides what is asked for it. -/
theorem processingTask_congr {f g : File} (h : f.identity = g.identity) :
    processingTask f = processingTask g := by
  simp only [File.identity, File.Identity.mk.injEq] at h
  obtain ⟨hid, -, hkey, hmime, -, -⟩ := h
  simp only [processingTask, File.isImage, File.isVideo, hid, hkey, hmime]
  rfl

/-- The task of a file names the file. -/
theorem fileID_processingTask {f : File} {t : Task} (h : processingTask f = some t) :
    t.payload.fileID = f.id := by
  unfold processingTask at h
  split at h
  · exact Option.some.inj h ▸ rfl
  · split at h
    · exact Option.some.inj h ▸ rfl
    · cases h

theorem status_completed (f : File) (size : Int64) : (completed f size).status ≠ .pending := by
  unfold completed
  dsimp only
  split <;> simp

theorem lineageRootID_congr {f g : File} (h : f.identity = g.identity) :
    f.lineageRootID = g.lineageRootID := by
  simp only [File.identity, File.Identity.mk.injEq] at h
  simp only [File.lineageRootID, h.1, h.2.2.2.2.2]

/-! ## The invariant -/

/-- Rows descend from their births, and what the queue holds is known. -/
structure WellFormed (s : Store) : Prop where
  file : ∀ f ∈ s.db.files, FileKnown s f
  version : ∀ b ∈ s.db.files.births, b.version ≠ 0
  root : ∀ b ∈ s.db.files.births, ∀ r, b.parentID = some r → RootKnown s b.userID r
  folder : ∀ f ∈ s.db.folders, FolderKnown s f
  share : ∀ sh ∈ s.db.shares, ShareKnown s sh.token sh.id
  waiting : ∀ m ∈ s.broker.waiting, TaskKnown s m.task
  delivered : ∀ m ∈ s.broker.delivered, TaskKnown s m.task

/-- The columns that a worker sets when it has finished a task. -/
def finishedUpdates (task : Task) : FileUpdates :=
  match task.type with
  | .imageThumbnail => thumbnailUpdates task.payload.fileID
  | .videoTranscode => transcodeUpdates task.payload.fileID

@[simp] theorem status_finishedUpdates (task : Task) : (finishedUpdates task).status = .ready := by
  unfold finishedUpdates
  cases task.type <;> rfl

/-- What a delivery may write to its row. -/
def WorkerUpdate (s : Store) (worker : Worker) (msg : Message) (id : UUID) (u : FileUpdates) : Prop :=
  TaskKnown s msg.task ∧ msg.task.type = worker.handles ∧ id = msg.task.payload.fileID ∧
    (u = finishedUpdates msg.task ∨ u = failedUpdates)

/-- A struct for a row that waits for its upload. -/
structure Presigned (id : UUID) (f : File) : Prop where
  id_eq : f.id = id
  pending : f.status = .pending
  size_pos : 0 < f.sizeBytes.toInt
  key_eq : ∃ name, f.storageKey = storageKey f.userID id name

/-- The key belongs to a file that was born. -/
def UploadKey (s : Store) (key : GoString) : Prop :=
  ∃ userID id name, key = storageKey userID id name ∧ s.db.files.Used id

theorem UploadKey.mono {s t : Store} (h : Grows s t) {key : GoString} :
    UploadKey s key → UploadKey t key :=
  fun ⟨userID, id, name, hkey, hid⟩ => ⟨userID, id, name, hkey, hid.mono h.files⟩

/-- The key of something that a worker makes. -/
def WorkerKey (key : GoString) : Prop := lit "thumbnails/" <+: key ∨ lit "hls/" <+: key

/-- What holds of a write when it is issued. -/
def WriteKnown (s : Store) (q : Request) {α : Type} : Write α → Prop
  | .createFile mk => ∀ id, (mk id).parentID = none ∧ (mk id).version ≠ 0 ∧
      (Presigned id (mk id) ∧ (∃ userID body, q = .presign userID body) ∨
        ∃ upload, q = .finishTusUpload upload ∧ (mk id).status ≠ .pending ∧
          (mk id).sizeBytes = upload.size)
  | .presignVersion userID root mk => (∃ id body, q = .presignVersion userID id body) ∧
      RootKnown s userID root ∧
      ∀ id, (mk id).id = id ∧ (mk id).userID = userID ∧ (mk id).parentID = some root ∧
        (mk id).version ≠ 0 ∧ Presigned id (mk id)
  | .saveFile f => ((∃ userID id, q = .complete userID id) ∨
      ∃ userID id body, q = .updateFile userID id body) ∧ FileKnown s f
  | .restoreVersion userID root targetID =>
      (∃ id versionID, q = .restoreFileVersion userID id versionID) ∧
      RootKnown s userID root ∧ VersionKnown s userID root targetID
  | .deleteFile userID root => (∃ id, q = .deleteFile userID id) ∧ RootKnown s userID root
  | .updateFile id u => ∃ worker msg, q = .deliver worker msg ∧ WorkerUpdate s worker msg id u
  | .createFolder _ userID parentID => (∃ body, q = .createFolder userID body) ∧
      ∀ p, parentID = some p → FolderIDKnown s userID p
  | .saveFolder f => (∃ userID id body steps, q = .updateFolder userID id body steps) ∧
      FolderKnown s f
  | .deleteFolder userID _ => ∃ id, q = .deleteFolder userID id
  | .incrementDownloads id => ∃ token body, q = .shareDownloadURL token body ∧ ShareKnown s token id
  | .createShare fileID userID _ _ _ => (∃ id req, q = .createShare userID id req) ∧
      FileIDKnown s userID fileID
  | .deleteShare _ userID => ∃ id, q = .deleteShare userID id

/-- What holds of a call when it is made. -/
def CallKnown (s : Store) (q : Request) {α : Type} : Stmt α → Prop
  | .write w => WriteKnown s q w
  | .broker (.enqueue task) => TaskKnown s task
  | .broker (.retry msg) => TaskKnown s msg.task
  | .bucket (.presignedPutURL key _) => UploadKey s key
  | .bucket (.putObject key _ _ _) => (∃ upload, q = .finishTusUpload upload) ∨
      (∃ worker msg, q = .deliver worker msg) ∧ WorkerKey key
  | .staging (.create _) => ∃ userID upload, q = .tusPreCreate userID upload
  | _ => True

/-- The outline of provenance. -/
def provenance (deps : Deps) : Outline (services deps) where
  inv := WellFormed
  rely := Grows
  pre q _ e s := CallKnown s q e
  post _ _ := True
  cond _ := True

/-! ## Calls keep the invariant -/

section Writes

variable {s : Store} {db' : DB}

/-- A write that only removes rows. -/
theorem WellFormed.shrinks (h : WellFormed s) (hd : s.db.Shrinks db') :
    WellFormed { s with db := db' } where
  file f hf := (h.file f (hd.files f hf)).mono hd.grows
  version b hb := h.version b (hd.file_births ▸ hb)
  root b hb r hr := (h.root b (hd.file_births ▸ hb) r hr).mono hd.grows
  folder f hf := (h.folder f (hd.folders f hf)).mono hd.grows
  share sh hs := (h.share sh (hd.shares sh hs)).mono hd.grows
  waiting m hm := (h.waiting m hm).mono hd.grows
  delivered m hm := (h.delivered m hm).mono hd.grows

/-- A write to the rows of `files` that leaves births alone. -/
theorem WellFormed.files (h : WellFormed s) {files : Table File}
    (hb : files.births = s.db.files.births)
    (hf : ∀ f ∈ files, ∃ g ∈ s.db.files, g.identity = f.identity) :
    WellFormed { s with db := { s.db with files := files } } := by
  have hg : Grows s { s with db := { s.db with files := files } } :=
    ⟨hb ▸ List.Subset.refl _, List.Subset.refl _, List.Subset.refl _⟩
  refine ⟨fun f hmem => ?_, fun b hmem => h.version b (hb ▸ hmem),
    fun b hmem r hr => (h.root b (hb ▸ hmem) r hr).mono hg, fun f hmem => (h.folder f hmem).mono hg,
    fun sh hmem => (h.share sh hmem).mono hg, fun m hmem => (h.waiting m hmem).mono hg,
    fun m hmem => (h.delivered m hmem).mono hg⟩
  obtain ⟨g, hgm, hid⟩ := hf f hmem
  obtain ⟨b, hbm, hbid⟩ := h.file g hgm
  exact ⟨b, hg.files hbm, hbid.trans hid⟩

/-- A new row in `files`. -/
theorem WellFormed.insert (h : WellFormed s) {f : File} (hu : ¬s.db.files.Used (key f))
    (hv : f.version ≠ 0) (hp : ∀ r, f.parentID = some r → RootKnown s f.userID r) :
    WellFormed { s with db := { s.db with files := s.db.files.insert f hu } } := by
  have hg : Grows s { s with db := { s.db with files := s.db.files.insert f hu } } :=
    ⟨List.subset_cons_self _ _, List.Subset.refl _, List.Subset.refl _⟩
  refine ⟨fun g hmem => ?_, fun b hmem => ?_, fun b hmem r hr => ?_,
    fun g hmem => (h.folder g hmem).mono hg, fun sh hmem => (h.share sh hmem).mono hg,
    fun m hmem => (h.waiting m hmem).mono hg, fun m hmem => (h.delivered m hmem).mono hg⟩
  · rcases (Table.mem_insert hu).1 hmem with rfl | hmem
    · exact ⟨g, List.mem_cons_self, rfl⟩
    · exact (h.file g hmem).mono hg
  · rcases List.mem_cons.1 hmem with rfl | hmem
    · exact hv
    · exact h.version b hmem
  · rcases List.mem_cons.1 hmem with rfl | hmem
    · exact (hp r hr).mono hg
    · exact (h.root b hmem r hr).mono hg

/-- A write to the rows of `folders`. -/
theorem WellFormed.folders (h : WellFormed s) {folders : Table Folder}
    (hb : s.db.folders.births ⊆ folders.births)
    (hf : ∀ f ∈ folders, FolderKnown { s with db := { s.db with folders := folders } } f) :
    WellFormed { s with db := { s.db with folders := folders } } := by
  have hg : Grows s { s with db := { s.db with folders := folders } } :=
    ⟨List.Subset.refl _, hb, List.Subset.refl _⟩
  exact ⟨fun f hmem => (h.file f hmem).mono hg, h.version,
    fun b hmem r hr => (h.root b hmem r hr).mono hg, hf,
    fun sh hmem => (h.share sh hmem).mono hg, fun m hmem => (h.waiting m hmem).mono hg,
    fun m hmem => (h.delivered m hmem).mono hg⟩

theorem identity_columnDefaults {f : File} (h : f.version ≠ 0) :
    f.columnDefaults.identity = f.identity := by
  simp [File.columnDefaults, File.identity, h]

/-- A known file is born, so saving it adds no birth. -/
theorem FileKnown.used {f : File} (h : FileKnown s f) : s.db.files.Used f.id := by
  obtain ⟨b, hb, hid⟩ := h
  exact Table.used_iff.2 ⟨b, hb, congrArg File.Identity.id hid⟩

theorem FolderIDKnown.used {userID id : UUID} (h : FolderIDKnown s userID id) :
    s.db.folders.Used id := by
  obtain ⟨b, hb, hid, -⟩ := h
  exact Table.used_iff.2 ⟨b, hb, hid⟩

theorem WellFormed.saveFile (h : WellFormed s) {f : File} (hf : FileKnown s f) :
    WellFormed { s with db := s.db.saveFile f } := by
  obtain ⟨b, hb, hbid⟩ := hf
  have hv : f.version ≠ 0 := by
    have := h.version b hb
    rwa [show b.version = f.version from congrArg File.Identity.version hbid] at this
  have hu : s.db.files.Used (key (s.db.savedRow f)) := by
    rw [key_file, DB.id_savedRow]
    exact FileKnown.used ⟨b, hb, hbid⟩
  have hg : Grows s { s with db := s.db.saveFile f } :=
    ⟨Table.births_subset_save, List.Subset.refl _, List.Subset.refl _⟩
  have hbirths : (s.db.saveFile f).files.births = s.db.files.births := Table.births_save hu
  refine ⟨fun g hmem => ?_, fun c hc => h.version c (hbirths ▸ hc),
    fun c hc r hr => (h.root c (hbirths ▸ hc) r hr).mono hg,
    fun g hmem => (h.folder g hmem).mono hg, fun sh hmem => (h.share sh hmem).mono hg,
    fun m hmem => (h.waiting m hmem).mono hg, fun m hmem => (h.delivered m hmem).mono hg⟩
  rcases DB.mem_saveFile.1 hmem with rfl | ⟨hmem, -⟩
  · refine ⟨b, hg.files hb, hbid.trans ?_⟩
    obtain h | h := s.db.savedRow_eq f
    · rw [h]
    · rw [h]
      exact (identity_columnDefaults hv).symm
  · exact (h.file g hmem).mono hg

theorem WellFormed.supersede (h : WellFormed s) (userID root : UUID) :
    WellFormed { s with db := s.db.supersede userID root } := by
  refine h.files rfl fun f hf => ?_
  obtain ⟨g, hg, rfl⟩ := DB.mem_supersede.1 hf
  refine ⟨g, hg, ?_⟩
  split <;> rfl

theorem WellFormed.setCurrent (h : WellFormed s) (id : UUID) :
    WellFormed { s with db := s.db.setCurrent id } := by
  refine h.files rfl fun f hf => ?_
  obtain ⟨g, hg, rfl⟩ := DB.mem_setCurrent.1 hf
  refine ⟨g, hg, ?_⟩
  split <;> rfl

theorem WellFormed.updateFile (h : WellFormed s) (id : UUID) (u : FileUpdates) :
    WellFormed { s with db := s.db.updateFile id u } := by
  refine h.files rfl fun f hf => ?_
  obtain ⟨g, hg, rfl⟩ := DB.mem_updateFile.1 hf
  refine ⟨g, hg, ?_⟩
  split <;> rfl

/-- A write that was issued with what it should know keeps the invariant. -/
theorem WellFormed.write (h : WellFormed s) {q : Request} {α : Type} {w : Write α} {o : Oracle}
    {a : Except DbError α} (hw : WriteKnown s q w)
    (hrun : w.run o s.issued s.db = some (a, db')) : WellFormed { s with db := db' } := by
  cases w with
  | createFile mk =>
    obtain ⟨-, rfl⟩ | ⟨hu, -, -, -, rfl⟩ := Write.createFile_cases hrun
    · exact h
    · exact h.insert hu (File.version_columnDefaults_ne_zero _) fun r hr => by
        cases (hw o.uuid).1.symm.trans hr
  | presignVersion userID root mk =>
    obtain ⟨-, rfl⟩ | ⟨hu, -, -, -, rfl⟩ := Write.presignVersion_cases hrun
    · exact h
    · obtain ⟨-, hroot, hmk⟩ := hw
      obtain ⟨-, huser, hp, -⟩ := hmk o.uuid
      refine (h.supersede userID root).insert hu (File.version_columnDefaults_ne_zero _) fun r hr => ?_
      obtain rfl : root = r := Option.some.inj (hp.symm.trans hr)
      show RootKnown _ (mk o.uuid).userID root
      rw [huser]
      exact hroot
  | saveFile f =>
    obtain ⟨-, rfl⟩ | ⟨-, rfl⟩ := Write.saveFile_cases hrun
    · exact h
    · exact h.saveFile hw.2
  | restoreVersion userID root targetID =>
    obtain ⟨-, rfl⟩ | ⟨-, rfl⟩ := Write.restoreVersion_cases hrun
    · exact h
    · exact (h.supersede userID root).setCurrent targetID
  | deleteFile userID root =>
    obtain ⟨-, rfl⟩ | ⟨-, rfl⟩ := Write.deleteFile_cases hrun
    · exact h
    · exact h.shrinks (DB.shrinks_deleteFiles _ _ _)
  | updateFile id u =>
    obtain ⟨-, rfl⟩ | ⟨-, rfl⟩ := Write.updateFile_cases hrun
    · exact h
    · exact h.updateFile id u
  | createFolder name userID parentID =>
    obtain ⟨-, rfl⟩ | ⟨hu, -, rfl⟩ := Write.createFolder_cases hrun
    · exact h
    · have hgrow := Write.run_grows hrun
      refine h.folders (List.subset_cons_self _ _) fun f hf => ?_
      rcases (Table.mem_insert hu).1 hf with rfl | hf
      · refine ⟨⟨_, List.mem_cons_self, rfl, rfl⟩, fun p hp => ?_⟩
        obtain ⟨b, hb, hid⟩ := hw.2 p hp
        exact ⟨b, List.mem_cons_of_mem _ hb, hid⟩
      · exact (h.folder f hf).mono hgrow
  | saveFolder f =>
    obtain ⟨-, rfl⟩ | ⟨-, rfl⟩ := Write.saveFolder_cases hrun
    · exact h
    · have hgrow := Write.run_grows hrun
      refine h.folders Table.births_subset_save fun g hg => ?_
      rcases Table.mem_save.1 hg with rfl | ⟨hg, -⟩
      · exact FolderKnown.mono hgrow hw.2
      · exact (h.folder g hg).mono hgrow
  | deleteFolder userID folderID =>
    obtain ⟨-, rfl⟩ | ⟨versions, -, hd⟩ := Write.deleteFolder_cases hrun
    · exact h
    · exact h.shrinks (DB.shrinks_deleteFolderTree hd)
  | incrementDownloads id =>
    obtain ⟨-, rfl⟩ | ⟨-, rfl⟩ := Write.incrementDownloads_cases hrun
    · exact h
    · refine ⟨h.file, h.version, h.root, h.folder, fun sh hs => ?_, h.waiting, h.delivered⟩
      obtain ⟨r, hr, rfl⟩ := DB.mem_incrementDownloads.1 hs
      have := h.share r hr
      split <;> exact this
  | createShare fileID userID passwordHash expiresAt maxDownloads =>
    obtain ⟨-, rfl⟩ | ⟨share, -, hu, -, -, rfl⟩ := Write.createShare_cases hrun
    · exact h
    · refine ⟨h.file, h.version, h.root, h.folder, fun sh hs => ?_, h.waiting, h.delivered⟩
      rcases (Table.mem_insert hu).1 hs with rfl | hs
      · exact ⟨sh, List.mem_cons_self, rfl, rfl⟩
      · obtain ⟨b, hb, hid⟩ := h.share sh hs
        exact ⟨b, List.mem_cons_of_mem _ hb, hid⟩
  | deleteShare id userID =>
    obtain ⟨-, rfl⟩ | ⟨-, rfl⟩ := Write.deleteShare_cases hrun
    · exact h
    · exact h.shrinks (DB.shrinks_deleteShares _ _)

end Writes

/-- What is not in the database or the queue does not matter. -/
theorem WellFormed.congr {s t : Store} (h : WellFormed s) (hdb : t.db = s.db)
    (hw : ∀ m ∈ t.broker.waiting, TaskKnown s m.task)
    (hd : ∀ m ∈ t.broker.delivered, TaskKnown s m.task) : WellFormed t := by
  have hg : Grows s t := .of_db_eq hdb
  exact ⟨fun f hf => (h.file f (hdb ▸ hf)).mono hg, fun b hb => h.version b (hdb ▸ hb),
    fun b hb r hr => (h.root b (hdb ▸ hb) r hr).mono hg,
    fun f hf => (h.folder f (hdb ▸ hf)).mono hg, fun sh hs => (h.share sh (hdb ▸ hs)).mono hg,
    fun m hm => (hw m hm).mono hg, fun m hm => (hd m hm).mono hg⟩

/-- A call keeps the invariant. -/
theorem WellFormed.exec {s s' : Store} (h : WellFormed s) {q : Request} {α : Type} {e : Stmt α}
    {o : Oracle} {a : α} (he : CallKnown s q e) (hx : exec o e s = some (a, s')) :
    WellFormed s' := by
  cases e with
  | write w =>
    obtain ⟨db', hw, rfl⟩ := exec_write hx
    exact h.write he hw
  | broker b =>
    simp only [Optiflow.exec, Option.some.injEq, Prod.mk.injEq] at hx
    obtain ⟨-, rfl⟩ := hx
    refine h.congr rfl (fun m hm => ?_) fun m hm => ?_
    · cases b with
      | enqueue task =>
        simp only [BrokerStmt.run] at hm
        split at hm
        · exact h.waiting m hm
        · rcases List.mem_append.1 hm with hm | hm
          · exact h.waiting m hm
          · rw [List.mem_singleton.1 hm]
            exact he
      | retry msg =>
        rcases List.mem_append.1 hm with hm | hm
        · exact h.waiting m hm
        · rw [List.mem_singleton.1 hm]
          exact he
      | archive msg => exact h.waiting m hm
    · cases b with
      | enqueue task =>
        simp only [BrokerStmt.run] at hm
        split at hm <;> exact h.delivered m hm
      | retry msg => exact h.delivered m hm
      | archive msg => exact h.delivered m hm
  | newUUID =>
    have hdb := exec_db rfl hx
    simp only [Optiflow.exec] at hx
    split at hx
    · cases hx
    · simp only [Option.some.injEq, Prod.mk.injEq] at hx
      obtain ⟨-, rfl⟩ := hx
      exact h.congr rfl h.waiting h.delivered
  | _ =>
    simp only [Optiflow.exec, Option.some.injEq, Prod.mk.injEq] at hx
    obtain ⟨-, rfl⟩ := hx
    exact h.congr rfl h.waiting h.delivered

/-- Starting a request leaves the database alone; a delivery is one of a message that waited. -/
theorem launch_cases {q : Request} {s s' : Store} (h : q.launch s = some s') :
    s'.db = s.db ∧ s'.bucket = s.bucket ∧ s'.issued = s.issued ∧ s'.now = s.now ∧
      ((s'.broker = s.broker ∧ ∀ worker msg, q ≠ .deliver worker msg) ∨
        ∃ worker msg, q = .deliver worker msg ∧ msg ∈ s.broker.waiting ∧
          s'.broker = { s.broker with
            waiting := s.broker.waiting.erase msg, delivered := msg :: s.broker.delivered }) := by
  cases q with
  | finishTusUpload upload =>
    simp only [Request.launch] at h
    split at h
    · obtain rfl := Option.some.inj h
      exact ⟨rfl, rfl, rfl, rfl, Or.inl ⟨rfl, fun _ _ h => by cases h⟩⟩
    · cases h
  | deliver worker msg =>
    simp only [Request.launch] at h
    split at h
    · next hm =>
      obtain rfl := Option.some.inj h
      exact ⟨rfl, rfl, rfl, rfl, Or.inr ⟨worker, msg, rfl, hm, rfl⟩⟩
    · cases h
  | _ =>
    obtain rfl := Option.some.inj h
    exact ⟨rfl, rfl, rfl, rfl, Or.inl ⟨rfl, fun _ _ h => by cases h⟩⟩

theorem WellFormed.launch {s s' : Store} (h : WellFormed s) {q : Request}
    (hq : q.launch s = some s') : WellFormed s' := by
  obtain ⟨hdb, -, -, -, ⟨hb, -⟩ | ⟨worker, msg, rfl, hm, hb⟩⟩ := launch_cases hq
  · exact h.congr hdb (hb ▸ h.waiting) (hb ▸ h.delivered)
  · refine h.congr hdb (fun m hm' => ?_) fun m hm' => ?_
    · rw [hb] at hm'
      exact h.waiting m (List.mem_of_mem_erase hm')
    · rw [hb] at hm'
      rcases List.mem_cons.1 hm' with rfl | hm'
      · exact h.waiting m hm
      · exact h.delivered m hm'

/-- The environment leaves the database alone; it may put back a message that was delivered. -/
theorem env_cases {v : EnvMove} {s s' : Store} (h : v.run s = some s') :
    s'.db = s.db ∧ s'.issued = s.issued ∧ s'.broker.delivered = s.broker.delivered ∧
      (s'.broker.waiting = s.broker.waiting ∨ ∃ msg, msg ∈ s.broker.delivered ∧
        s'.broker.waiting = s.broker.waiting ++ [msg]) := by
  cases v with
  | redeliver msg =>
    simp only [EnvMove.run] at h
    split at h
    · next hm =>
      obtain rfl := Option.some.inj h
      exact ⟨rfl, rfl, rfl, Or.inr ⟨msg, hm, rfl⟩⟩
    · cases h
  | _ =>
    simp only [EnvMove.run] at h
    split at h
    · obtain rfl := Option.some.inj h
      exact ⟨rfl, rfl, rfl, Or.inl rfl⟩
    · cases h

theorem WellFormed.env {s s' : Store} (h : WellFormed s) {v : EnvMove} (hv : v.run s = some s') :
    WellFormed s' := by
  obtain ⟨hdb, -, hd, hw | ⟨msg, hm, hw⟩⟩ := env_cases hv
  · exact h.congr hdb (hw ▸ h.waiting) (hd ▸ h.delivered)
  · refine h.congr hdb (fun m hm' => ?_) (hd ▸ h.delivered)
    rw [hw] at hm'
    rcases List.mem_append.1 hm' with hm' | hm'
    · exact h.waiting m hm'
    · rw [List.mem_singleton.1 hm']
      exact h.delivered msg hm

end Optiflow
