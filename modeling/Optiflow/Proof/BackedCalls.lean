import Optiflow.Proof.Backed

/-!
# Every handler keeps rows backed

The outline `backed` holds of every handler: objects are stored before the row that names them is
written, and removed after the last row of their file is gone.
-/

namespace Optiflow

open Interleave Code UploadSvc ApiSvc Workers

variable {deps : Deps} {q : Request} {s : Store} {α β : Type}

/-! ## Rules -/

/-- Reading a program against `backed`. -/
abbrev Backs (deps : Deps) (q : Request) (p : Prog Stmt Reply) (s : Store) : Prop :=
  (backed deps).Safe q p s

theorem backs_answer (status : ℕ) (message : String) :
    (backed deps).post q (.error status message) := trivial

theorem backs_call {e : Stmt α} {k : α → Prog Stmt Reply}
    (hpre : WellFormed s → Backed s → CallBacked s e)
    (h : ∀ o a s', WellFormed s → Backed s → exec o e s = some (a, s') → Backs deps q (k a) s') :
    Backs deps q ((Code.call e : Handler α) k) s := by
  rintro t rfl ⟨hwf, hb⟩
  exact ⟨hpre hwf hb, fun o a t' _ hx _ => h o a t' hwf hb hx⟩

theorem Stmt.looks.backed {e : Stmt α} (he : e.looks) : CallBacked s e := by
  cases e with
  | bucket b =>
    cases b with
    | presignedPutURL key expiry => cases he
    | putObject key body size contentType => cases he
    | removeObject key => cases he
    | _ => trivial
  | query q => trivial
  | now => trivial
  | tool t => trivial
  | _ => exact he.elim

/-- Code that changes nothing. -/
theorem backs_looks (c : Handler α) (hc : Looks c) {k : α → Prog Stmt Reply}
    (h : ∀ a, Backs deps q (k a) s) : Backs deps q (c k) s := by
  refine hc (fun p => Backs deps q p s) (fun e k he hk => ?_) (fun _ _ => trivial) k h
  refine backs_call (fun _ _ => he.backed) fun o a s' _ _ hx => ?_
  obtain rfl := exec_looks he hx
  exact hk a

theorem backs_tool {t : ToolStmt α} {k : α → Prog Stmt Reply} (h : ∀ a, Backs deps q (k a) s) :
    Backs deps q (tool t k) s :=
  backs_looks (tool t) (over_call trivial) h

theorem backs_query {qy : Query α} {k : Except DbError α → Prog Stmt Reply}
    (h : ∀ o, WellFormed s → Backed s → Backs deps q (k (qy.run o s.db)) s) :
    Backs deps q (query qy k) s := by
  refine backs_call (fun _ _ => trivial) fun o a s' hwf hb hx => ?_
  obtain ⟨rfl, rfl⟩ := exec_query hx
  exact h o hwf hb

theorem backs_write {w : Write α} {k : Except DbError α → Prog Stmt Reply}
    (hpre : WellFormed s → Backed s → CallBacked s (.write w))
    (h : ∀ o a db', w.run o s.issued s.db = some (a, db') → Backs deps q (k a) { s with db := db' }) :
    Backs deps q (write w k) s := by
  refine backs_call hpre fun o a s' _ _ hx => ?_
  obtain ⟨db', hw, rfl⟩ := exec_write hx
  exact h o a db' hw

theorem backs_bucket {b : BucketStmt α} {k : α → Prog Stmt Reply}
    (hpre : WellFormed s → Backed s → CallBacked s (.bucket b))
    (h : ∀ o, Backs deps q (k (b.run o s.now s.bucket).1)
      { s with bucket := (b.run o s.now s.bucket).2 }) : Backs deps q (bucket b k) s := by
  refine backs_call hpre fun o a s' _ _ hx => ?_
  obtain ⟨rfl, rfl⟩ := Prod.mk.inj (Option.some.inj hx)
  exact h o

/-- A PUT fails and leaves everything as it was, or it stores what the declared size takes. -/
theorem backs_putObject {key contentType : GoString} {body : Bytes} {size : Int64}
    {k : Bool → Prog Stmt Reply}
    (hpre : WellFormed s → Backed s → CallBacked s (.bucket (.putObject key body size contentType)))
    (hfail : Backs deps q (k false) s)
    (hok : ∀ stored, takeDeclared body size = some stored →
      Backs deps q (k true) { s with bucket := s.bucket.put key stored }) :
    Backs deps q (bucket (.putObject key body size contentType) k) s := by
  refine backs_bucket hpre fun o => ?_
  cases hf : o.fails with
  | true =>
    simp only [BucketStmt.run, hf, if_true]
    exact hfail
  | false =>
    cases hs : takeDeclared body size with
    | none =>
      simp only [BucketStmt.run, hf, hs, Bool.false_eq_true, if_false]
      exact hfail
    | some stored =>
      simp only [BucketStmt.run, hf, hs, Bool.false_eq_true, if_false]
      exact hok stored hs

theorem backs_broker {b : BrokerStmt α} {k : α → Prog Stmt Reply}
    (hpre : WellFormed s → Backed s → CallBacked s (.broker b))
    (h : ∀ a t, Backs deps q (k a) t) : Backs deps q (broker b k) s :=
  backs_call hpre fun _ a s' _ _ _ => h a s'

theorem backs_staging {st : StagingStmt α} {k : α → Prog Stmt Reply}
    (h : ∀ a staging, Backs deps q (k a) { s with staging := staging }) :
    Backs deps q (staging st k) s := by
  refine backs_call (fun _ _ => trivial) fun o a s' _ _ hx => ?_
  obtain ⟨-, rfl⟩ := Prod.mk.inj (Option.some.inj hx)
  exact h a _

/-! ## upload-svc -/

/-- A row that names nothing but its original. -/
theorem rowGood_of_original {b : Bucket} {f : File}
    (horiginal : f.status ≠ .pending → b.has f.storageKey = true)
    (hkey : ∃ name, f.storageKey = storageKey f.userID f.id name) (hthumb : f.thumbnailKey = none)
    (hplay : f.playlistKey = none) : RowGood b f := by
  refine ⟨⟨horiginal, fun k hk => ?_, fun k hk => ?_⟩, ⟨hkey, fun k hk => ?_, fun k hk => ?_⟩⟩
  · cases hthumb.symm.trans hk
  · cases hplay.symm.trans hk
  · cases hthumb.symm.trans hk
  · cases hplay.symm.trans hk

/-- A row that waits for its upload. -/
theorem rowGood_pending {b : Bucket} {f : File} (hstatus : f.status = .pending)
    (hkey : ∃ name, f.storageKey = storageKey f.userID f.id name) (hthumb : f.thumbnailKey = none)
    (hplay : f.playlistKey = none) : RowGood b f :=
  rowGood_of_original (fun hp => absurd hstatus hp) hkey hthumb hplay

theorem backs_presignUpload {file : File} (hkey : BornKey s file.storageKey) :
    Backs deps q (presignUpload file .ret) s := by
  refine backs_bucket (fun _ _ => hkey) fun o => ?_
  simp only [BucketStmt.run]
  split
  · trivial
  · exact backs_looks timeNow (over_call trivial) fun _ => trivial

theorem backs_presign (userID : UUID) (body : Option PresignRequest) :
    Backs deps q (presign userID body .ret) s := by
  refine safe_decodeBody backs_answer fun req _ => safe_failIf backs_answer fun _ => ?_
  refine backs_looks (checkQuota _ _) (reads_checkQuota _ _).looks fun a => ?_
  refine backs_looks (orQuotaError a) (silent_orQuotaError a).over fun _ => ?_
  refine backs_looks (ownedFolderID _ _) (reads_ownedFolderID _ _).looks fun folderID => ?_
  refine backs_write (fun _ _ id => ⟨rowGood_pending rfl ⟨_, rfl⟩ rfl rfl, Or.inl rfl⟩)
    fun o a db' hw => ?_
  refine safe_foundOr backs_answer fun file hfile => backs_presignUpload ?_
  obtain ⟨ha, -⟩ | ⟨hu, -, -, ha, rfl⟩ := Write.createFile_cases hw
  · cases hfile.symm.trans ha
  · obtain rfl := Except.ok.inj (hfile.symm.trans ha)
    exact ⟨_, List.mem_cons_self, rfl, _, rfl⟩

theorem backs_presignVersion (userID : UUID) (id : GoString) (body : Option PresignVersionRequest) :
    Backs deps q (presignVersion userID id body .ret) s := by
  refine safe_parseID backs_answer fun fileID _ => safe_decodeBody backs_answer fun req _ => ?_
  refine safe_failIf backs_answer fun _ => backs_query fun o _ _ => ?_
  refine safe_found backs_answer fun anyVersion _ => ?_
  refine backs_looks (checkQuota _ _) (reads_checkQuota _ _).looks fun a => ?_
  refine backs_looks (orQuotaError a) (silent_orQuotaError a).over fun _ => ?_
  refine backs_query fun _ _ _ => safe_foundOr backs_answer fun current _ => ?_
  refine backs_query fun _ _ _ => safe_foundOr backs_answer fun maxVersion _ => ?_
  refine backs_write (fun _ _ id => ⟨rfl, rowGood_pending rfl ⟨_, rfl⟩ rfl rfl⟩) fun o a db' hw => ?_
  refine safe_foundOr backs_answer fun file hfile => backs_presignUpload ?_
  obtain ⟨ha, -⟩ | ⟨hu, -, -, ha, rfl⟩ := Write.presignVersion_cases hw
  · cases hfile.symm.trans ha
  · obtain rfl := Except.ok.inj (hfile.symm.trans ha)
    exact ⟨_, List.mem_cons_self, rfl, _, rfl⟩

/-- The task of a row that has its original. -/
theorem backs_enqueueOrLog {f : File} {k : Unit → Prog Stmt Reply} (hf : Uploaded s.db f.id)
    (h : ∀ t, Backs deps q (k ()) t) : Backs deps q (enqueueOrLog (processingTask f) k) s := by
  cases htask : processingTask f with
  | none => exact h s
  | some task =>
    refine backs_broker (fun _ _ => ?_) fun _ t => h t
    show Uploaded s.db task.payload.fileID
    rw [fileID_processingTask htask]
    exact hf

theorem backs_complete (userID : UUID) (id : GoString) : Backs deps q (complete userID id .ret) s := by
  refine safe_parseID backs_answer fun id _ => backs_query fun o _ hb => ?_
  refine safe_found backs_answer fun file hfile => safe_failIf backs_answer fun _ => ?_
  obtain ⟨hmem, -, -⟩ := Query.file_ok hfile
  refine backs_bucket (fun _ _ => trivial) fun o' => ?_
  cases hstat : ((BucketStmt.statObject file.storageKey).run o' s.now s.bucket).1 with
  | none => trivial
  | some size =>
    -- The object is there.
    have hhas : s.bucket.has file.storageKey = true := by
      simp only [BucketStmt.run] at hstat
      split at hstat
      · cases hstat
      · obtain ⟨body, hobj, -⟩ := Option.map_eq_some_iff.1 hstat
        rw [Bucket.has, hobj]
        rfl
    have hrow := hb.row file hmem
    have hgood : RowGood s.bucket (completed file size) :=
      ⟨⟨fun _ => hhas, hrow.1.thumbnail, hrow.1.playlist⟩,
        ⟨hrow.2.original, hrow.2.thumbnail, hrow.2.playlist⟩⟩
    have hready := status_completed file size
    refine backs_write (fun _ _ => ⟨hgood, file, hmem, rfl, fun hp => absurd hp hready⟩)
      fun o'' a db' hw => ?_
    refine safe_foundOr backs_answer fun _ hok => backs_enqueueOrLog ?_ fun _ => trivial
    obtain ⟨ha, -⟩ | ⟨-, rfl⟩ := Write.saveFile_cases hw
    · cases hok.symm.trans ha
    · intro f hf hid
      obtain rfl | ⟨-, hne⟩ := DB.mem_saveFile.1 hf
      · rw [DB.status_savedRow]
        exact hready
      · exact absurd hid hne

theorem backs_tusPreCreate (userID : Option UUID) (upload : Upload) :
    Backs deps q (tusPreCreate userID upload .ret) s := by
  cases userID with
  | none => trivial
  | some userID =>
    refine safe_exitIf (fun _ => trivial) fun _ => ?_
    refine backs_looks (tusCheckFolder _ _) (reads_tusCheckFolder _ _).looks fun _ => ?_
    refine backs_looks (checkQuota _ _) (reads_checkQuota _ _).looks fun a => ?_
    match a with
    | .error (.exceeded _) => trivial
    | .error .other => trivial
    | .ok () => exact backs_staging fun _ _ => trivial

/-- The original of a finished upload is stored under an id that was drawn for it, and then its row is
written. -/
theorem backs_storeUpload (file : File) {upload : Upload} {body : Bytes} (hissued : file.id ∈ s.issued)
    (hused : ¬s.db.files.Used file.id)
    (hnone : ∀ x ∈ s.bucket.objects, ∀ userID name, x.1 ≠ storageKey userID file.id name)
    (hkey : ∃ name, file.storageKey = storageKey file.userID file.id name)
    (hstatus : file.status ≠ .pending) (hthumb : file.thumbnailKey = none)
    (hplay : file.playlistKey = none) :
    Backs deps q ((do
      exitIf (!(← bucket (.putObject file.storageKey body upload.size file.mimeType))) .finished
      match ← write (.createFile fun _ => file) with
      | .error _ => return .finished
      | .ok file =>
        enqueueOrLog (processingTask file)
        let _ ← staging (.removeFile upload.path)
        let _ ← staging (.removeFile (upload.path ++ lit ".info"))
        return .finished : Handler Reply) .ret) s := by
  refine backs_putObject (fun _ _ => Or.inl ?_) ?_ fun stored _ => ?_
  · obtain ⟨name, hname⟩ := hkey
    exact ⟨_, _, name, hname, hissued, hused⟩
  · exact safe_exitIf (fun _ => trivial) fun hstored => absurd rfl hstored
  · refine safe_exitIf (fun _ => trivial) fun _ => backs_write (fun _ _ id => ⟨?_, Or.inr ⟨hstatus, ?_⟩⟩)
      fun o' a db' hw => ?_
    · exact rowGood_of_original (fun _ => Bucket.has_put_self) hkey hthumb hplay
    · intro x hx userID name hx'
      rcases List.mem_cons.1 hx with rfl | hx
      · rfl
      · exact absurd hx' (hnone x (List.mem_filter.1 hx).1 userID name)
    · cases a with
      | error e => trivial
      | ok created =>
        refine backs_enqueueOrLog ?_ fun t => backs_staging fun _ _ => backs_staging fun _ _ => trivial
        obtain ⟨ha, -⟩ | ⟨hu, -, -, ha, rfl⟩ := Write.createFile_cases hw
        · cases ha
        · obtain rfl := Except.ok.inj ha
          intro f hf hid
          rcases (Table.mem_insert hu).1 hf with rfl | hf
          · exact hstatus
          · exact absurd (Table.used_of_mem hf) (by rwa [key_file, hid])

theorem backs_finishTusUpload (upload : Upload) : Backs deps q (finishTusUpload upload .ret) s := by
  unfold finishTusUpload
  cases UUID.parse (upload.metaData.get (lit "user_id")) with
  | none => trivial
  | some userID =>
    refine safe_exitIf (fun _ => trivial) fun _ => backs_staging fun body st => ?_
    cases body with
    | none => trivial
    | some body =>
      refine backs_call (fun _ _ => trivial) fun o fileID s' _ hb hx => ?_
      simp only [exec] at hx
      split at hx
      · cases hx
      · next hfresh =>
        obtain ⟨rfl, rfl⟩ := Prod.mk.inj (Option.some.inj hx)
        rw [not_or] at hfresh
        refine backs_storeUpload (tusFile upload userID o.uuid) List.mem_cons_self hfresh.2
          (fun x hx userID name => hb.no_original hfresh.1 hfresh.2 hx userID name) ⟨_, rfl⟩ ?_ rfl rfl
        show (if _ then FileStatus.processing else .ready) ≠ .pending
        split <;> exact FileStatus.noConfusion

theorem backs_shareDownloadURL (verify : GoString → GoString → Bool) (token : GoString)
    (body : Option GoString) : Backs deps q (shareDownloadURL verify token body .ret) s := by
  refine backs_looks (resolveActiveShare token) (looks_resolveActiveShare token) fun a => ?_
  refine safe_found backs_answer fun share _ => ?_
  refine backs_looks (checkPassword _ _ _) (silent_checkPassword _ _ _).over fun _ => ?_
  refine backs_query fun o _ _ => safe_foundOr backs_answer fun file _ => ?_
  refine safe_failIf backs_answer fun _ => 
    backs_looks (bucket (.presignedGetURL file.storageKey downloadExpiry)) (over_call rfl) fun url => ?_
  cases url with
  | none => trivial
  | some url =>
    refine backs_write (fun _ _ => trivial) fun _ _ _ _ => ?_
    exact backs_looks timeNow (over_call trivial) fun _ => trivial

/-! ## api-svc -/

theorem backs_createFolder (userID : UUID) (body : Option FolderRequest) :
    Backs deps q (createFolder userID body .ret) s := by
  refine safe_decodeBody backs_answer fun req _ => safe_failIf backs_answer fun _ => ?_
  refine backs_looks (ownedParentID _ _) (reads_ownedParentID _ _).looks fun parentID => ?_
  exact backs_write (fun _ _ => trivial) fun _ _ _ _ => safe_foundOr backs_answer fun _ _ => trivial

theorem backs_updateFolder (userID : UUID) (id : GoString) (body : Option FolderRequest)
    (steps : ℕ) : Backs deps q (updateFolder userID id body steps .ret) s := by
  refine safe_parseID backs_answer fun id _ => backs_query fun o _ _ => ?_
  refine safe_foundOr backs_answer fun folder _ => safe_decodeBody backs_answer fun req _ => ?_
  refine backs_looks (moveFolder _ _ _ _ _) (reads_moveFolder _ _ _ _ _).looks fun folder => ?_
  exact backs_write (fun _ _ => trivial) fun _ _ _ _ => safe_foundOr backs_answer fun _ _ => trivial

theorem backs_updateFile (userID : UUID) (id : GoString) (body : Option FileUpdateRequest) :
    Backs deps q (updateFile userID id body .ret) s := by
  refine safe_parseID backs_answer fun fileID _ => backs_query fun o _ hb => ?_
  refine safe_foundOr backs_answer fun r hr => safe_decodeBody backs_answer fun req _ => ?_
  obtain ⟨hmem, -, -⟩ := Query.file_ok hr
  have hrow := hb.row r hmem
  have finish : ∀ f : File, RowGood s.bucket f → f.id = r.id → f.status = r.status → Backs deps q
      (write (.saveFile f) fun a => foundOr 500 "could not update file" a fun _ => .ret (.file f)) s :=
    fun f hf hid hstatus => backs_write
      (fun _ _ => ⟨hf, r, hmem, hid.symm, fun hp => hstatus.symm.trans hp⟩)
      fun _ _ _ _ => safe_foundOr backs_answer fun _ _ => trivial
  -- A new name and a new folder leave identity and keys alone.
  have move : ∀ f : File, RowGood s.bucket f → f.id = r.id → f.status = r.status → Backs deps q
      (moveFile userID f req.folderID fun f => write (.saveFile f) fun a =>
        foundOr 500 "could not update file" a fun _ => .ret (.file f)) s := by
    intro f hf hid hstatus
    match req.folderID with
    | none => exact finish f hf hid hstatus
    | some [] => exact finish _ (hf.congr rfl rfl rfl fun h => h) hid hstatus
    | some (c :: text) =>
      refine safe_parseID backs_answer fun folderID _ => backs_query fun _ _ _ => ?_
      exact safe_foundOr backs_answer fun _ _ =>
        finish _ (hf.congr rfl rfl rfl fun h => h) hid hstatus
  show Backs deps q (renameFile r req.name _) s
  match req.name with
  | none => exact move r hrow rfl rfl
  | some [] => trivial
  | some (c :: name) => exact move _ (hrow.congr rfl rfl rfl fun h => h) rfl rfl

theorem backs_restoreFileVersion (userID : UUID) (id versionID : GoString) :
    Backs deps q (restoreFileVersion userID id versionID .ret) s := by
  refine safe_parseID backs_answer fun fileID _ => safe_parseID backs_answer fun targetID _ => ?_
  refine backs_query fun _ _ _ => safe_foundOr backs_answer fun file _ => ?_
  refine backs_query fun _ _ _ => safe_found backs_answer fun target _ => ?_
  refine safe_failIf backs_answer fun _ => ?_
  exact backs_write (fun _ _ => trivial) fun _ _ _ _ => safe_foundOr backs_answer fun _ _ => trivial

/-! ### Deletes -/

theorem backs_removeObjects {id : UUID} {keys : List GoString} {k : Unit → Prog Stmt Reply}
    (hkeys : ∀ key ∈ keys, Owns id key) (hgone : ∀ f ∈ s.db.files, f.id ≠ id)
    (h : ∀ t : Store, t.db = s.db → Backs deps q (k ()) t) : Backs deps q (removeObjects keys k) s := by
  induction keys generalizing s with
  | nil => exact h s rfl
  | cons key keys ih =>
    refine backs_bucket (fun _ _ => ⟨id, hkeys key List.mem_cons_self, hgone⟩) fun _ => ?_
    exact ih (fun key' hk => hkeys key' (List.mem_cons_of_mem _ hk)) hgone h

/-- What is removed for a file that has no row left is the file's own. -/
theorem backs_cleanupFileObjects {file : File} {k : Unit → Prog Stmt Reply} (hf : Placed file)
    (hgone : ∀ f ∈ s.db.files, f.id ≠ file.id)
    (h : ∀ t : Store, t.db = s.db → Backs deps q (k ()) t) :
    Backs deps q (cleanupFileObjects file k) s := by
  have hkeys : ∀ key ∈ file.storageKey :: file.thumbnailKey.toList, Owns file.id key := by
    intro key hkey
    rcases List.mem_cons.1 hkey with rfl | hkey
    · exact hf.owns_original
    · exact hf.owns_thumbnail (Option.mem_toList.1 hkey)
  unfold cleanupFileObjects
  rw [Code.ite_run]
  split
  · refine backs_bucket (fun _ _ => trivial) fun o => ?_
    cases hlist : ((BucketStmt.listObjects (hlsPrefix file.id)).run o s.now s.bucket).1 with
    | none => exact backs_removeObjects hkeys hgone h
    | some hlsKeys =>
      refine backs_removeObjects (fun key hkey => ?_) hgone h
      rcases List.mem_append.1 hkey with hkey | hkey
      · exact hkeys key hkey
      · simp only [BucketStmt.run] at hlist
        split at hlist
        · cases hlist
        · obtain rfl := Option.some.inj hlist
          exact owns_of_hlsPrefix (List.isPrefixOf_iff_prefix.1 (List.mem_filter.1 hkey).2)
  · exact backs_removeObjects hkeys hgone h

theorem backs_cleanupFiles {files : List File} {k : Unit → Prog Stmt Reply}
    (hfiles : ∀ f ∈ files, Placed f) (hgone : ∀ f ∈ files, ∀ g ∈ s.db.files, g.id ≠ f.id)
    (h : ∀ t : Store, t.db = s.db → Backs deps q (k ()) t) : Backs deps q (cleanupFiles files k) s := by
  induction files generalizing s with
  | nil => exact h s rfl
  | cons file files ih =>
    refine backs_cleanupFileObjects (hfiles file List.mem_cons_self) (hgone file List.mem_cons_self)
      fun t ht => ih (fun f hf => hfiles f (List.mem_cons_of_mem _ hf)) (fun f hf => ?_) fun u hu => ?_
    · exact ht ▸ hgone f (List.mem_cons_of_mem _ hf)
    · exact h u (hu.trans ht)

/-- The objects of deleted rows. -/
theorem backs_cleanupRemoved {db' : DB} {versions : List File} (hb : Backed s)
    (hremoves : s.db.Removes versions db') :
    Backs deps q (cleanupFiles versions fun _ => .ret .noContent) { s with db := db' } :=
  backs_cleanupFiles (fun f hf => (hb.row f (hremoves.mem f hf)).2)
    (fun _ hf _ hg => hremoves.gone hf hg) fun _ _ => trivial

theorem backs_deleteFile (userID : UUID) (id : GoString) :
    Backs deps q (deleteFile userID id .ret) s := by
  refine safe_parseID backs_answer fun fileID _ => backs_query fun o _ hb => ?_
  refine safe_foundOr backs_answer fun file _ => backs_write (fun _ _ => trivial) fun o' a db' hw => ?_
  refine safe_foundOr backs_answer fun versions hversions => ?_
  obtain ⟨ha, -⟩ | ⟨ha, rfl⟩ := Write.deleteFile_cases hw
  · cases hversions.symm.trans ha
  · obtain rfl := Except.ok.inj (hversions.symm.trans ha)
    exact backs_cleanupRemoved hb (DB.removes_deleteFile userID file.lineageRootID)

theorem backs_deleteFolder (userID : UUID) (id : GoString) :
    Backs deps q (deleteFolder userID id .ret) s := by
  refine safe_parseID backs_answer fun folderID _ => backs_query fun o _ hb => ?_
  refine safe_foundOr backs_answer fun _ _ => backs_write (fun _ _ => trivial) fun o' a db' hw => ?_
  refine safe_foundOr backs_answer fun versions hversions => ?_
  obtain ⟨ha, -⟩ | ⟨removed, ha, hd⟩ := Write.deleteFolder_cases hw
  · cases hversions.symm.trans ha
  · obtain rfl := Except.ok.inj (hversions.symm.trans ha)
    exact backs_cleanupRemoved hb (DB.removes_deleteFolderTree hd)

theorem backs_createShare (userID : UUID) (id : GoString) (req : ShareCreateRequest) :
    Backs deps q (createShare userID id req .ret) s := by
  refine safe_parseID backs_answer fun fileID _ => backs_query fun _ _ _ => ?_
  refine safe_foundOr backs_answer fun file _ => backs_tool fun _ => ?_
  refine safe_failIf backs_answer fun _ => ?_
  refine backs_looks (shareExpiry _) (reads_shareExpiry userID _).looks fun _ => ?_
  refine backs_looks (shareLimit _) (reads_shareLimit userID _).looks fun _ => ?_
  refine backs_looks (sharePasswordHash _) (asks_sharePasswordHash userID _).looks fun _ => ?_
  exact backs_write (fun _ _ => trivial) fun _ _ _ _ => safe_foundOr backs_answer fun _ _ => trivial

theorem backs_deleteShare (userID : UUID) (id : GoString) :
    Backs deps q (deleteShare userID id .ret) s := by
  refine safe_parseID backs_answer fun _ _ => backs_write (fun _ _ => trivial) fun _ _ _ _ => ?_
  exact safe_foundOr backs_answer fun _ _ => safe_failIf backs_answer fun _ => trivial

/-! ## The workers -/

section Workers

variable {tools : Tools} {worker : Worker} {msg : Message} {id : UUID}

/-- Objects have been added and the rows are the same. -/
structure Adds (s t : Store) : Prop where
  db : t.db = s.db
  has : ∀ key, s.bucket.has key = true → t.bucket.has key = true

theorem Adds.refl (s : Store) : Adds s s := ⟨rfl, fun _ h => h⟩

theorem Adds.trans {t u : Store} (h : Adds s t) (h' : Adds t u) : Adds s u :=
  ⟨h'.db.trans h.db, fun key hk => h'.has key (h.has key hk)⟩

theorem adds_put {key : GoString} {body : Bytes} :
    Adds s { s with bucket := s.bucket.put key body } := ⟨rfl, fun _ hk => Bucket.has_put hk⟩

theorem Uploaded.adds {t : Store} (h : Uploaded s.db id) (hst : Adds s t) : Uploaded t.db id :=
  hst.db ▸ h

theorem uploaded_updateFile {db : DB} {u : FileUpdates} (hu : u.status ≠ .pending) :
    Uploaded (db.updateFile id u) id := by
  intro f hf hid
  obtain ⟨r, -, rfl⟩ := DB.mem_updateFile.1 hf
  by_cases hr : r.id = id
  · rw [if_pos hr]
    exact hu
  · rw [if_neg hr] at hid
    exact absurd hid hr

/-- A job's update of its row, with what the row then names already stored. -/
theorem backs_updateFile_row {u : FileUpdates} {k : Except DbError Unit → Prog Stmt Reply}
    (hup : Uploaded s.db id) (hstatus : u.status ≠ .pending)
    (hthumb : ∀ key, u.thumbnailKey = some key → s.bucket.has key = true ∧
      (key = thumbnailKey id ∨ key = posterKey id ∧ u.playlistKey.isSome = true))
    (hplay : ∀ key, u.playlistKey = some key → key = masterKey id ∧
      ∃ master, s.bucket.object? key = some master ∧
        ∀ v ∈ variants master, s.bucket.has (hlsPrefix id ++ v) = true)
    (h : ∀ a t, Uploaded t.db id → Backs deps q (k a) t) :
    Backs deps q (write (.updateFile id u) k) s := by
  refine backs_write (fun _ hb => ⟨hstatus, fun r hr hid => ?_⟩) fun o a db' hw => ?_
  · subst hid
    obtain ⟨hrow, hplaced⟩ := hb.row r hr
    have hname : ∀ key, (u.apply r).playlistKey = some key → u.playlistKey = some key ∨
        r.playlistKey = some key := fun key hk => by
      cases hu : u.playlistKey with
      | none => exact Or.inr (by simpa [FileUpdates.apply, hu] using hk)
      | some k => exact Or.inl (by simpa [FileUpdates.apply, hu] using hk)
    have hsome : ∀ key, (u.apply r).thumbnailKey = some key → u.thumbnailKey = some key ∨
        r.thumbnailKey = some key := fun key hk => by
      cases hu : u.thumbnailKey with
      | none => exact Or.inr (by simpa [FileUpdates.apply, hu] using hk)
      | some k => exact Or.inl (by simpa [FileUpdates.apply, hu] using hk)
    refine ⟨⟨fun _ => hrow.original (hup r hr rfl), fun k hk => ?_, fun k hk => ?_⟩,
      ⟨hplaced.original, fun k hk => ?_, fun k hk => ?_⟩⟩
    · exact (hsome k hk).elim (fun hk => (hthumb k hk).1) (hrow.thumbnail k)
    · exact (hname k hk).elim (fun hk => (hplay k hk).2) (hrow.playlist k)
    · obtain hk | hk := hsome k hk
      · refine (hthumb k hk).2.imp_right (And.imp_right fun hsome => ?_)
        obtain ⟨p, hp⟩ := Option.isSome_iff_exists.1 hsome
        simp [FileUpdates.apply, hp]
      · refine (hplaced.thumbnail k hk).imp_right (And.imp_right fun hsome => ?_)
        show (u.playlistKey <|> r.playlistKey).isSome = true
        cases u.playlistKey with
        | none => exact hsome
        | some p => rfl
    · exact (hname k hk).elim (fun hk => (hplay k hk).1) (hplaced.playlist k)
  · obtain ⟨-, rfl⟩ | ⟨-, rfl⟩ := Write.updateFile_cases hw
    · exact h a _ hup
    · exact h a _ (uploaded_updateFile hstatus)

theorem backs_handleImageThumbnail {payload : Payload} {k : Option TaskError → Prog Stmt Reply}
    (hup : Uploaded s.db payload.fileID)
    (h : ∀ a t, Uploaded t.db payload.fileID → Backs deps q (k a) t) :
    Backs deps q (handleImageThumbnail tools payload k) s := by
  refine backs_looks (bucket (.getObject payload.storageKey)) (over_call rfl) fun opened => ?_
  cases opened with
  | false => exact h _ s hup
  | true =>
    refine backs_looks (bucket (.readObject payload.storageKey)) (over_call rfl) fun original => ?_
    cases original with
    | none => exact h _ s hup
    | some original =>
      refine thumbnail_cases (P := fun p => Backs deps q p s) (fun _ => ?_) (fun _ => ?_) fun body _ => ?_
      · exact h _ s hup
      · exact h _ s hup
      · refine backs_putObject (fun _ _ => Or.inr ⟨?_, fun id hid => ?_⟩) (h _ s hup) fun stored _ => ?_
        · exact Or.inl ((List.prefix_append _ _).trans (List.prefix_append _ _))
        · exact absurd (hid ▸ hlsPrefix_masterKey) not_hlsPrefix_thumbnailKey
        · refine backs_updateFile_row hup FileStatus.noConfusion (fun key hkey => ?_)
            (fun key hkey => by cases hkey) fun a t ht => ?_
          · obtain rfl := Option.some.inj hkey
            exact ⟨Bucket.has_put_self, Or.inl rfl⟩
          · cases a with
            | error e => exact h _ t ht
            | ok _ =>
              exact backs_looks (notifyUser _ _ _ _) (looks_notifyUser _ _ _ _) fun _ => h _ t ht

/-- Storing a local file that is not the master playlist. -/
theorem backs_uploadFile {key contentType : GoString} {body : Bytes} {k : Bool → Prog Stmt Reply}
    (hkey : WorkerKey key) (hmaster : ∀ id, key ≠ masterKey id)
    (h : ∀ a t, Adds s t → (a = true → t.bucket.has key = true) → Backs deps q (k a) t) :
    Backs deps q (uploadFile key body contentType k) s := by
  refine backs_tool fun ok => ?_
  cases ok with
  | false => exact h false s (.refl s) Bool.noConfusion
  | true =>
    refine backs_putObject (fun _ _ => Or.inr ⟨hkey, fun id hid => absurd hid (hmaster id)⟩) ?_ ?_
    · exact h false s (.refl s) Bool.noConfusion
    · exact fun stored _ => h true _ adds_put fun _ => Bucket.has_put_self

theorem hlsPrefix_append_ne_masterKey {name : GoString} (hname : name ≠ lit "master.m3u8") (id' : UUID) :
    hlsPrefix id ++ name ≠ masterKey id' := by
  intro h
  have hpre : hlsPrefix id <+: masterKey id' := h ▸ List.prefix_append _ _
  obtain rfl := hlsPrefix_inj hpre hlsPrefix_masterKey
  exact hname (List.append_cancel_left (h.trans masterKey_eq))

theorem backs_uploadEntries {k : Bool → Prog Stmt Reply} {entries : List (GoString × Bytes)}
    (hnames : ∀ e ∈ entries, e.1 ≠ lit "master.m3u8")
    (h : ∀ a t, Adds s t → (a = true → ∀ e ∈ entries, t.bucket.has (hlsPrefix id ++ e.1) = true) →
      Backs deps q (k a) t) : Backs deps q (uploadEntries (hlsDirectory id) entries k) s := by
  induction entries generalizing s with
  | nil => exact h true s (.refl s) fun _ _ he => absurd he List.not_mem_nil
  | cons entry entries ih =>
    have hdir : hlsDirectory id ++ lit "/" ++ entry.1 = hlsPrefix id ++ entry.1 := rfl
    refine backs_uploadFile ?_ ?_ fun stored t hst hstored => ?_
    · rw [List.append_assoc]
      exact workerKey_hls id _
    · exact hlsPrefix_append_ne_masterKey (hnames entry List.mem_cons_self)
    · cases stored with
      | false => exact h false t hst Bool.noConfusion
      | true =>
        refine ih (fun e he => hnames e (List.mem_cons_of_mem _ he)) fun a u htu hall => ?_
        refine h a u (hst.trans htu) fun ha => List.forall_mem_cons.2 ⟨?_, hall ha⟩
        exact htu.has _ (hstored rfl)

theorem backs_uploadRenditionFiles {k : Bool → Prog Stmt Reply} {files : List (GoString × Bytes)}
    (hnames : ∀ e ∈ files, e.1 ≠ lit "master.m3u8")
    (h : ∀ a t, Adds s t → (a = true → ∀ e ∈ files, t.bucket.has (hlsPrefix id ++ e.1) = true) →
      Backs deps q (k a) t) : Backs deps q (uploadRenditionFiles files (hlsDirectory id) k) s := by
  refine backs_tool fun ok => ?_
  cases ok with
  | false => exact h false s (.refl s) Bool.noConfusion
  | true =>
    refine backs_uploadEntries (fun e he => hnames e ((List.mem_insertionSort _).1 he)) ?_
    exact fun a t hst hall => h a t hst fun ha e he => hall ha e ((List.mem_insertionSort _).2 he)

/-- What ffmpeg has written for the renditions: a playlist for each, and no file that looks like the
master playlist. -/
structure Encoded (rs : List Rendition) (files : List (GoString × Bytes)) : Prop where
  playlists : ∀ r ∈ rs, playlistName r ∈ files.map Prod.fst
  names : ∀ e ∈ files, e.1 ≠ lit "master.m3u8"

theorem name_ne_master {r : Rendition} (hr : r.name = decimal r.height ++ lit "p") (rest : GoString) :
    r.name ++ rest ≠ lit "master.m3u8" := by
  intro h
  obtain ⟨c, hhead, hc⟩ := head?_name_append hr rest
  have hm : (lit "master.m3u8").head? = some 109 := rfl
  rw [h, hm] at hhead
  obtain rfl := Option.some.inj hhead
  exact absurd hc (by decide)

theorem Encoded.cons {r : Rendition} {rs : List Rendition} {files : List (GoString × Bytes)}
    (h : Encoded rs files) (hr : r.name = decimal r.height ++ lit "p") (playlist : Bytes)
    (segments : List Bytes) : Encoded (r :: rs) (renditionFiles r playlist segments ++ files) := by
  refine ⟨fun r' hr' => ?_, fun e he => ?_⟩
  · rw [List.map_append, List.mem_append]
    rcases List.mem_cons.1 hr' with rfl | hr'
    · exact Or.inl List.mem_cons_self
    · exact Or.inr (h.playlists r' hr')
  · rcases List.mem_append.1 he with he | he
    · rcases List.mem_cons.1 he with rfl | he
      · exact name_ne_master hr _
      · obtain ⟨i, hi, rfl⟩ := List.mem_mapIdx.1 he
        dsimp only
        rw [List.append_assoc, List.append_assoc]
        exact name_ne_master hr _
    · exact h.names e he

theorem backs_transcodeRenditions {rs : List Rendition}
    {k : Option (List (GoString × Bytes)) → Prog Stmt Reply}
    (hrs : ∀ r ∈ rs, r.name = decimal r.height ++ lit "p")
    (h : ∀ a, (∀ files, a = some files → Encoded rs files) → Backs deps q (k a) s) :
    Backs deps q (transcodeRenditions rs k) s := by
  induction rs generalizing k with
  | nil =>
    refine h (some []) fun files hfiles => ?_
    obtain rfl := Option.some.inj hfiles
    exact ⟨fun _ hr => absurd hr List.not_mem_nil, fun _ he => absurd he List.not_mem_nil⟩
  | cons r rs ih =>
    refine backs_tool fun a => ?_
    cases a with
    | none => exact h none fun _ hfiles => by cases hfiles
    | some out =>
      refine ih (fun r' hr' => hrs r' (List.mem_cons_of_mem _ hr')) fun b hb => ?_
      cases b with
      | none => exact h none fun _ hfiles => by cases hfiles
      | some files =>
        refine h _ fun files' hfiles => ?_
        obtain rfl := Option.some.inj hfiles
        exact (hb files rfl).cons (hrs r List.mem_cons_self) out.1 out.2

/-- A body that is no longer than Go can count is stored as it is. -/
theorem takeDeclared_ofNat {body : Bytes} (h : body.length < 2 ^ 63) :
    takeDeclared body (Int64.ofNat body.length) = some body := by
  have hsize : (Int64.ofNat body.length).toInt = body.length := Int64.toInt_ofNat_of_lt h
  rw [takeDeclared, hsize, if_neg (by omega), if_neg (by omega), Int.toNat_natCast, List.take_length]

/-- The poster, the variants, the master playlist, and then the row. -/
theorem backs_publish {payload : Payload} {poster : Bytes} {files : List (GoString × Bytes)}
    {rs : List Rendition} {srcWidth srcHeight : ℤ} {k : Option TaskError → Prog Stmt Reply}
    (hrs : ∀ r ∈ rs, r.name = decimal r.height ++ lit "p") (hfiles : Encoded rs files)
    (hlen : (buildMasterPlaylist rs srcWidth srcHeight).length < 2 ^ 63)
    (hup : Uploaded s.db payload.fileID)
    (h : ∀ a t, Uploaded t.db payload.fileID → Backs deps q (k a) t) :
    Backs deps q (publish tools payload poster files (buildMasterPlaylist rs srcWidth srcHeight) k) s := by
  have hposter : ∀ id, posterKey payload.fileID ≠ masterKey id := by
    intro id
    rw [posterKey_eq]
    exact hlsPrefix_append_ne_masterKey (by decide) id
  refine backs_uploadFile (workerKey_hls _ _) hposter fun stored t hst hstored => ?_
  cases stored with
  | false => exact h _ t (hup.adds hst)
  | true =>
    refine backs_uploadRenditionFiles hfiles.names fun all u htu hall => ?_
    have hsu := hst.trans htu
    cases all with
    | false => exact h _ u (hup.adds hsu)
    | true =>
      -- Every variant that the master playlist names has been stored.
      have hvariants : ∀ v ∈ variants (buildMasterPlaylist rs srcWidth srcHeight),
          u.bucket.has (hlsPrefix payload.fileID ++ v) = true := by
        intro v hv
        rw [variants_buildMasterPlaylist hrs] at hv
        obtain ⟨r, hr, rfl⟩ := List.mem_map.1 hv
        obtain ⟨e, he, hname⟩ := List.mem_map.1 (hfiles.playlists r hr)
        exact hname ▸ hall rfl e he
      have htaken := takeDeclared_ofNat hlen
      refine backs_putObject (fun _ _ => Or.inr ⟨workerKey_hls _ _, fun id hid stored hst => ?_⟩)
        (h _ u (hup.adds hsu)) fun stored hst => ?_
      · obtain rfl : payload.fileID = id :=
          hlsPrefix_inj (hid ▸ hlsPrefix_masterKey) hlsPrefix_masterKey
        obtain rfl := Option.some.inj (htaken.symm.trans hst)
        exact hvariants
      · obtain rfl := Option.some.inj (htaken.symm.trans hst)
        refine backs_updateFile_row (hup.adds (hsu.trans adds_put)) FileStatus.noConfusion
          (fun key hkey => ?_) (fun key hkey => ?_) fun a v hv => ?_
        · obtain rfl := Option.some.inj hkey
          exact ⟨Bucket.has_put (htu.has _ (hstored rfl)), Or.inr ⟨rfl, rfl⟩⟩
        · obtain rfl := Option.some.inj hkey
          exact ⟨rfl, _, Bucket.object?_put, fun v hv => Bucket.has_put (hvariants v hv)⟩
        · cases a with
          | error e => exact h _ v hv
          | ok _ => exact backs_looks (notifyUser _ _ _ _) (looks_notifyUser _ _ _ _) fun _ => h _ v hv

theorem backs_encode {payload : Payload} {srcWidth srcHeight : ℤ}
    {k : Option TaskError → Prog Stmt Reply} (hw : srcWidth.natAbs ≤ 2 ^ 63)
    (hh : srcHeight.natAbs ≤ 2 ^ 63) (hup : Uploaded s.db payload.fileID)
    (h : ∀ a t, Uploaded t.db payload.fileID → Backs deps q (k a) t) :
    Backs deps q (encode tools payload srcWidth srcHeight k) s := by
  have hrs : ∀ r ∈ selectRenditions srcHeight, r.name = decimal r.height ++ lit "p" :=
    fun r hr => name_of_mem_selectRenditions hr
  refine backs_tool fun ok => ?_
  cases ok with
  | false => exact h _ s hup
  | true =>
    refine backs_tool fun poster => ?_
    cases poster with
    | none => exact h _ s hup
    | some poster =>
      refine backs_transcodeRenditions hrs fun files hfiles => ?_
      cases files with
      | none => exact h _ s hup
      | some files =>
        exact backs_publish hrs (hfiles files rfl) (length_buildMasterPlaylist hw hh) hup h

theorem backs_probeDimensions {input : Bytes} {k : Option (ℤ × ℤ) → Prog Stmt Reply}
    (hnone : Backs deps q (k none) s)
    (h : ∀ dims, tools.probeDimensions input = some dims → Backs deps q (k (some dims)) s) :
    Backs deps q (Workers.probeDimensions tools input k) s := by
  refine backs_tool fun ok => ?_
  cases ok with
  | false => exact hnone
  | true =>
    show Backs deps q (k (tools.probeDimensions input)) s
    cases hdims : tools.probeDimensions input with
    | none => exact hnone
    | some dims => exact h dims hdims

theorem backs_transcode {payload : Payload} {k : Option TaskError → Prog Stmt Reply}
    (hints : GoInts tools) (hup : Uploaded s.db payload.fileID)
    (h : ∀ a t, Uploaded t.db payload.fileID → Backs deps q (k a) t) :
    Backs deps q (transcode tools payload k) s := by
  refine backs_tool fun ok => ?_
  cases ok with
  | false => exact h _ s hup
  | true =>
    refine backs_looks (downloadOriginal _) (looks_downloadOriginal _) fun input => ?_
    cases input with
    | error message => exact h _ s hup
    | ok input =>
      refine backs_probeDimensions (h _ s hup) fun dims hdims => ?_
      obtain ⟨hw, hh⟩ := hints input dims.1 dims.2 hdims
      refine backs_looks (Workers.probeDuration _ _) (looks_probeDuration _ _) fun ok => ?_
      cases ok with
      | false => exact h _ s hup
      | true => exact backs_encode hw hh hup h

theorem backs_processTask {k : Option TaskError → Prog Stmt Reply} (hints : GoInts tools)
    (hup : Uploaded s.db msg.task.payload.fileID)
    (h : ∀ a t, Uploaded t.db msg.task.payload.fileID → Backs deps q (k a) t) :
    Backs deps q (processTask tools worker msg.task k) s := by
  unfold processTask
  rw [Code.ite_run]
  split
  · cases worker with
    | image => exact backs_handleImageThumbnail hup h
    | video => exact backs_transcode hints hup h
  · exact h _ s hup

theorem backs_handleTaskError {err : TaskError} {k : Unit → Prog Stmt Reply}
    (hup : Uploaded s.db msg.task.payload.fileID)
    (h : ∀ t, Uploaded t.db msg.task.payload.fileID → Backs deps q (k ()) t) :
    Backs deps q (handleTaskError tools worker msg err k) s := by
  unfold handleTaskError
  rw [Code.ite_run]
  split
  · rw [Code.ite_run]
    split
    · refine backs_updateFile_row hup FileStatus.noConfusion (fun key hkey => by cases hkey)
        (fun key hkey => by cases hkey) fun a t ht => ?_
      exact backs_looks (notifyUser _ _ _ _) (looks_notifyUser _ _ _ _) fun _ => h t ht
    · exact h s hup
  · exact h s hup

theorem backs_deliver (hints : GoInts tools) (hup : Uploaded s.db msg.task.payload.fileID) :
    Backs deps q (deliver tools worker msg .ret) s := by
  refine backs_processTask hints hup fun err t ht => ?_
  cases err with
  | none => trivial
  | some err =>
    refine backs_handleTaskError ht fun u hu => ?_
    show Backs deps q (settle msg err _) u
    unfold settle
    rw [Code.ite_run]
    split
    · exact backs_broker (fun _ _ => trivial) fun _ _ => trivial
    · exact backs_broker (fun _ _ => hu) fun _ _ => trivial

end Workers

/-! ## The outline is valid -/

/-- Every handler keeps rows backed. -/
theorem backs_handler (hints : GoInts deps.tools) (h : Backed s) {s' : Store}
    (hq : q.launch s = some s') : Backs deps q (q.handler deps .ret) s' := by
  cases q with
  | presign userID body => exact backs_presign userID body
  | complete userID id => exact backs_complete userID id
  | presignVersion userID id body => exact backs_presignVersion userID id body
  | tusPreCreate userID upload => exact backs_tusPreCreate userID upload
  | finishTusUpload upload => exact backs_finishTusUpload upload
  | shareDownloadURL token body => exact backs_shareDownloadURL _ token body
  | createFolder userID body => exact backs_createFolder userID body
  | updateFolder userID id body steps => exact backs_updateFolder userID id body steps
  | deleteFolder userID id => exact backs_deleteFolder userID id
  | updateFile userID id body => exact backs_updateFile userID id body
  | deleteFile userID id => exact backs_deleteFile userID id
  | restoreFileVersion userID id versionID => exact backs_restoreFileVersion userID id versionID
  | createShare userID id req => exact backs_createShare userID id req
  | deleteShare userID id => exact backs_deleteShare userID id
  | deliver worker msg =>
    obtain ⟨hdb, -, -, -, ⟨-, hne⟩ | ⟨worker', msg', he, hm, -⟩⟩ := launch_cases hq
    · exact absurd rfl (hne worker msg)
    · cases he
      exact backs_deliver hints (hdb ▸ h.waiting msg hm)
  | _ => exact backs_looks _ (looks_handler rfl) fun _ => trivial

theorem backed_seqValid (deps : Deps) (hints : GoInts deps.tools) :
    ((provenance deps).inf (backed deps)).SeqValid where
  rely_refl s := ⟨.refl s, rfl⟩
  start _ h hq := ⟨h.1.launch hq, h.1.launch hq, h.2.2.launch hq⟩
  safe _ h hq _ := (known_handler h.1 hq).inf (backs_handler hints h.2.2 hq)
  call h hpre _ hx := by
    rw [services_exec] at hx
    have hwf := h.1.exec hpre.1 hx
    exact ⟨hwf, hwf, h.2.2.exec h.1 hpre.1 hpre.2 hx⟩
  env _ h hv := ⟨h.1.env hv, h.1.env hv, h.2.2.env hv⟩

theorem backed_fresh (users : Table User) : Backed (Store.fresh users) where
  row _ hf := absurd hf Table.not_mem_empty
  keys _ hx := absurd hx List.not_mem_nil
  puts _ hp := absurd hp List.not_mem_nil
  waiting _ hm := absurd hm List.not_mem_nil
  delivered _ hm := absurd hm List.not_mem_nil

/-- Rows and objects are consistent in every state that requests one at a time reach. -/
theorem backed_always (deps : Deps) (hints : GoInts deps.tools) (users : Table User) {c : Services}
    (h : (services deps).Reaches Machine.sequential (start (Store.fresh users)) c) :
    WellFormed c.store ∧ Backed c.store := by
  have hgood := (backed_seqValid deps hints).good h
    (Outline.good_init ⟨wellFormed_fresh users, wellFormed_fresh users, backed_fresh users⟩)
    (Outline.oneRunning_init _) fun _ _ => ⟨trivial, trivial⟩
  exact ⟨hgood.1.1, hgood.1.2.2⟩

/-- **Rows never name missing objects**, with requests one at a time and whatever fails. -/
theorem rows_backed (deps : Deps) (hints : GoInts deps.tools) (users : Table User) {c : Services}
    (h : (services deps).Reaches Machine.sequential (start (Store.fresh users)) c) :
    RowsBacked c.store :=
  fun f hf => ((backed_always deps hints users h).2.row f hf).1

/-! ### A video -/

theorem goInts_plainDeps : GoInts plainDeps.tools := by
  intro input width height hd
  obtain ⟨rfl, rfl⟩ := Prod.mk.inj (Option.some.inj hd)
  decide

/-- Alice uploads a video, completes the upload, and the video worker finishes it. -/
def finishVideo : List (Move Request Oracle EnvMove) :=
  [.start (.presign 1 (some ⟨lit "v.mp4", 3, lit "video/mp4", none⟩)),
    .step 0 {}, .step 0 {}, .step 0 { uuid := 100 }, .step 0 {}, .step 0 {},
    .env (.put (storageKey 1 100 (lit "v.mp4")) [1, 2, 3]),
    .start (.complete 1 (text 100)), .step 1 {}, .step 1 {}, .step 1 {}, .step 1 {},
    .start (.deliver .video ⟨newVideoTranscodeTask ⟨100, storageKey 1 100 (lit "v.mp4")⟩, 0⟩)] ++
    List.replicate 16 (.step 2 {})

theorem rows_backed_finishVideo :
    ∃ c : Services, (services plainDeps).Reaches Machine.sequential (start (Store.fresh aliceOnly)) c ∧
      (∃ f ∈ c.store.db.files, f.status = .ready ∧ f.playlistKey = some (masterKey f.id)) ∧
      RowsBacked c.store := by
  obtain ⟨c, hc, hP⟩ := exists_run Machine.sequential finishVideo
    (fun c => c.store.db.files.rows.any fun f =>
      f.status = .ready && f.playlistKey = some (masterKey f.id)) (by decide +kernel)
  simp only [List.any_eq_true, Bool.and_eq_true, decide_eq_true_eq] at hP
  exact ⟨c, hc, hP, rows_backed plainDeps goInts_plainDeps aliceOnly hc⟩

end Optiflow
