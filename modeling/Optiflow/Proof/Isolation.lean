import Optiflow.Proof.AlikeStores

/-!
# Users are isolated

Nothing but the handlers' own checks keeps users apart, and several statements have no user filter: the
second update of a restore, every save, the look-up of the names of shared files.  They stay with the
user whose request it is because every stored link does (`Linked`).  A request of a user leaves what is
of others alone, and its answer depends on nothing but what is the user's (`users_isolated`).
-/

namespace Optiflow

open Interleave Code UploadSvc ApiSvc

/-! ## The property -/

/-- The user that a request acts for.  A finished upload acts for the user in its metadata, share links
are for anybody, and the workers act for nobody. -/
def Request.user : Request → Option UUID
  | .presign userID _ => some userID
  | .complete userID _ => some userID
  | .presignVersion userID _ _ => some userID
  | .tusPreCreate userID _ => userID
  | .finishTusUpload upload => upload.user
  | .shareDownloadURL _ _ => none
  | .listFiles userID _ => some userID
  | .listFolders userID _ => some userID
  | .createFolder userID _ => some userID
  | .updateFolder userID _ _ _ => some userID
  | .deleteFolder userID _ => some userID
  | .updateFile userID _ _ => some userID
  | .deleteFile userID _ => some userID
  | .restoreFileVersion userID _ _ => some userID
  | .downloadURL userID _ _ => some userID
  | .hlsAsset userID _ _ => some userID
  | .getFolder userID _ => some userID
  | .getFile userID _ => some userID
  | .fileStats userID => some userID
  | .listFileVersions userID _ => some userID
  | .createShare userID _ _ => some userID
  | .listFileShares userID _ => some userID
  | .listShares userID => some userID
  | .deleteShare userID _ => some userID
  | .getPublicShare _ => none
  | .deliver _ _ => none

/-- The staged files that a request opens. -/
def Request.stagedPaths : Request → List GoString
  | .finishTusUpload upload => [upload.path]
  | _ => []

/-- What a request of the user leaves as it was: the rows of other users (so that every new row is the
user's) and the objects of their files.  An upload that it lets in carries the user's id. -/
structure Isolated (userID : UUID) (s t : Store) : Prop where
  users : t.db.users = s.db.users
  folders : ∀ f : Folder, f.userID ≠ userID → (f ∈ t.db.folders ↔ f ∈ s.db.folders)
  files : ∀ f : File, f.userID ≠ userID → (f ∈ t.db.files ↔ f ∈ s.db.files)
  shares : ∀ sh : Share, sh.userID ≠ userID → (sh ∈ t.db.shares ↔ sh ∈ s.db.shares)
  objects : ∀ f ∈ s.db.files, f.userID ≠ userID → ∀ key, f.HasKey key →
    t.bucket.object? key = s.bucket.object? key
  uploads : ∀ u ∈ t.staging.accepted, u ∈ s.staging.accepted ∨ u.user = some userID

/-- A link that names an existing row names a row of the same user. -/
structure DB.LinksInside (db : DB) : Prop where
  folder : ∀ f ∈ db.files, ∀ d ∈ db.folders, f.folderID = some d.id → d.userID = f.userID
  version : ∀ f ∈ db.files, ∀ g ∈ db.files, f.parentID = some g.id → g.userID = f.userID
  parent : ∀ f ∈ db.folders, ∀ d ∈ db.folders, f.parentID = some d.id → d.userID = f.userID
  file : ∀ sh ∈ db.shares, ∀ f ∈ db.files, sh.fileID = f.id → f.userID = sh.userID

/-- The stores agree on what is the user's: the rows, the objects of the user's files and how they are
listed, what is staged for the user's uploads; and on the time. -/
structure Agree (userID : UUID) (s t : Store) : Prop where
  now : s.now = t.now
  db : s.db.Alike userID t.db
  objects : ∀ f ∈ s.db.files, f.userID = userID → ∀ key, f.HasKey key →
    s.bucket.object? key = t.bucket.object? key
  listing : ∀ f ∈ s.db.files, f.userID = userID →
    s.bucket.list (hlsPrefix f.id) = t.bucket.list (hlsPrefix f.id)
  staged : ∀ u ∈ s.staging.completed, u.user = some userID →
    s.staging.files.lookup u.path = t.staging.files.lookup u.path

/-! ## Links that are known -/

section Known

variable {s : Store} {userID : UUID}

theorem WellFormed.noOther (h : WellFormed s) {id : UUID} (hid : FileIDKnown s userID id) :
    s.db.NoOther userID id := by
  obtain ⟨b, hb, rfl, rfl⟩ := hid
  intro f hf hfid
  obtain ⟨c, hc, hcf⟩ := h.file f hf
  have hbc : c = b := Table.eq_of_birth hc hb ((congrArg File.Identity.id hcf).trans hfid)
  exact hbc ▸ (congrArg File.Identity.userID hcf).symm

/-- A user's file is no other user's. -/
theorem noOther_of_mem {f : File} (hf : f ∈ s.db.files) (huser : f.userID = userID) :
    s.db.NoOther userID f.id := by
  intro g hg hid
  rw [Table.eq_of_key hg hf hid, huser]

theorem WellFormed.folder_user (h : WellFormed s) {f : Folder} (hf : f ∈ s.db.folders)
    (hid : FolderIDKnown s userID f.id) : f.userID = userID := by
  obtain ⟨b, hb, hbid, rfl⟩ := hid
  obtain ⟨c, hc, hcid, hcuser⟩ := (h.folder f hf).1
  rw [← hcuser, Table.eq_of_birth hc hb (hcid.trans hbid.symm)]

/-- Known links stay inside one user. -/
theorem Linked.linksInside (hl : Linked s) (h : WellFormed s) : s.db.LinksInside where
  folder f hf d hd hfd := h.folder_user hd ((hl.file f hf).folder d.id hfd)
  version f hf g hg hfg := by
    obtain ⟨b, hb, hid⟩ := h.file f hf
    have hbuser : b.userID = f.userID := congrArg File.Identity.userID hid
    have hbparent : b.parentID = some g.id := (congrArg File.Identity.parentID hid).trans hfg
    obtain ⟨c, hc, hcid, -, hcuser⟩ := h.root b hb g.id hbparent
    rw [← hbuser, ← hcuser]
    exact h.noOther ⟨c, hc, hcid, rfl⟩ g hg rfl
  parent f hf d hd hfd := h.folder_user hd ((h.folder f hf).2 d.id hfd)
  file sh hsh f hf hfile := h.noOther (hl.share sh hsh) f hf hfile.symm

end Known

/-! ## Reading the handlers -/

section Handlers

variable {deps : Deps} {files : List File} {paths : List GoString} {userID : UUID} {s : Store}
  {α : Type}

/-- Every call of the program is the user's. -/
abbrev Own (deps : Deps) (files : List File) (paths : List GoString) (userID : UUID)
    (p : Prog Stmt Reply) (s : Store) : Prop :=
  (services deps).Meets (CallOwn files paths userID) p s

theorem own_answer (s : Store) (status : ℕ) (message : String) :
    Own deps files paths userID (.ret (.error status message)) s := trivial

theorem own_query {qy : Query α} {k : Except DbError α → Prog Stmt Reply} (hq : qy.isOf userID)
    (h : ∀ o, Own deps files paths userID (k (qy.run o s.db)) s) :
    Own deps files paths userID (query qy k) s := by
  refine ⟨?_, fun o a s' hx => ?_⟩
  · cases qy with
    | fileByID id => exact hq.elim
    | _ => exact hq
  · rw [services_exec] at hx
    obtain ⟨rfl, rfl⟩ := exec_query hx
    exact h o

theorem own_write {w : Write α} {k : Except DbError α → Prog Stmt Reply} (hw : WriteOwn s userID w)
    (h : ∀ o a db', w.run o s.issued s.db = some (a, db') →
      Own deps files paths userID (k a) { s with db := db' }) :
    Own deps files paths userID (write w k) s := by
  refine ⟨hw, fun o a s' hx => ?_⟩
  rw [services_exec] at hx
  obtain ⟨db', hrun, rfl⟩ := exec_write hx
  exact h o a db' hrun

theorem own_bucket {b : BucketStmt α} {k : α → Prog Stmt Reply} (hb : BucketOwn files s userID b)
    (h : ∀ o, Own deps files paths userID (k (b.run o s.now s.bucket).1)
      { s with bucket := (b.run o s.now s.bucket).2 }) :
    Own deps files paths userID (bucket b k) s := by
  refine ⟨hb, fun o a s' hx => ?_⟩
  obtain ⟨rfl, rfl⟩ := Prod.mk.inj (Option.some.inj hx)
  exact h o

theorem own_staging {st : StagingStmt α} {k : α → Prog Stmt Reply}
    (hst : CallOwn files paths userID (.staging st) s)
    (h : ∀ o, Own deps files paths userID (k (st.run o s.staging).1)
      { s with staging := (st.run o s.staging).2 }) : Own deps files paths userID (staging st k) s := by
  refine ⟨hst, fun o a s' hx => ?_⟩
  obtain ⟨rfl, rfl⟩ := Prod.mk.inj (Option.some.inj hx)
  exact h o

/-- Code that asks about nothing but the user's rows. -/
theorem own_asks (c : Handler α) {k : α → Prog Stmt Reply} (hc : Asks userID c)
    (h : ∀ a, Own deps files paths userID (k a) s) : Own deps files paths userID (c k) s := by
  refine hc (fun p => Own deps files paths userID p s) (fun e k he hk => ?_) (fun _ _ => trivial) k h
  refine ⟨?_, fun o a s' hx => ?_⟩
  · cases e with
    | query q =>
      cases q with
      | fileByID id => exact he.elim
      | _ => exact he
    | bucket b =>
      cases b with
      | presignedGetURL key expiry => trivial
      | getObject key => trivial
      | _ => cases he
    | now => trivial
    | tool t => trivial
    | _ => exact he.elim
  · rw [services_exec] at hx
    rw [exec_looks he.looks hx]
    exact hk a

theorem own_enqueueOrLog {task : Option Task} {k : Unit → Prog Stmt Reply}
    (h : ∀ t, t.db = s.db → t.staging = s.staging → Own deps files paths userID (k ()) t) :
    Own deps files paths userID (enqueueOrLog task k) s := by
  cases task with
  | none => exact h s rfl rfl
  | some task =>
    refine ⟨trivial, fun o a t hx => ?_⟩
    obtain ⟨-, rfl⟩ := Prod.mk.inj (Option.some.inj hx)
    exact h _ rfl rfl

theorem own_presignUpload (file : File) : Own deps files paths userID (presignUpload file .ret) s := by
  refine own_bucket trivial fun o => ?_
  generalize ((BucketStmt.presignedPutURL file.storageKey presignExpiry).run o s.now s.bucket).1 = url
  cases url with
  | none => trivial
  | some url => exact own_asks timeNow (over_call trivial) fun _ => trivial

theorem own_presign (body : Option PresignRequest) :
    Own deps files paths userID (presign userID body .ret) s := by
  refine own_asks (decodeBody body) (silent_decodeBody _).over fun req => ?_
  refine own_asks (failIf _ _ _) (silent_failIf _ _ _).over fun _ => ?_
  refine own_asks (checkQuota _ _) (reads_checkQuota _ _).asks fun a => ?_
  refine own_asks (orQuotaError a) (silent_orQuotaError a).over fun _ => ?_
  refine own_asks (ownedFolderID _ _) (reads_ownedFolderID _ _).asks fun folderID => ?_
  refine own_write (fun id => ⟨rfl, Or.inl rfl⟩) fun o a db' _ => ?_
  exact own_asks (foundOr _ _ a) (silent_foundOr a).over fun file => own_presignUpload file

theorem own_complete (id : GoString) (hfiles : files = s.db.files.part (ofUser File.userID userID)) :
    Own deps files paths userID (complete userID id .ret) s := by
  refine own_asks (parseID _ _) (silent_parseID _ _).over fun fileID => own_query rfl fun o => ?_
  refine Early.found (P := fun p => Own deps files paths userID p s) (own_answer s) fun file hf => ?_
  obtain ⟨hmem, -, huser⟩ := Query.file_ok hf
  refine own_asks (failIf _ _ _) (silent_failIf _ _ _).over fun _ => ?_
  have hfile : file ∈ files := hfiles ▸ Table.mem_part.2 ⟨hmem, ofUser_iff.2 huser⟩
  refine own_bucket ⟨file, hfile, Or.inl rfl⟩ fun o => ?_
  generalize ((BucketStmt.statObject file.storageKey).run o s.now s.bucket).1 = a
  cases a with
  | none => trivial
  | some size =>
    refine own_write ⟨huser, file, hmem, rfl, huser⟩ fun o a db' _ => ?_
    refine own_asks (foundOr _ _ a) (silent_foundOr a).over fun _ => ?_
    exact own_enqueueOrLog fun _ _ _ => trivial

theorem own_presignVersion (id : GoString) (body : Option PresignVersionRequest) :
    Own deps files paths userID (presignVersion userID id body .ret) s := by
  refine own_asks (parseID _ _) (silent_parseID _ _).over fun fileID => ?_
  refine own_asks (decodeBody body) (silent_decodeBody _).over fun req => ?_
  refine own_asks (failIf _ _ _) (silent_failIf _ _ _).over fun _ => own_query rfl fun o => ?_
  refine own_asks (found _ _ _) (silent_found _).over fun anyVersion => ?_
  refine own_asks (checkQuota _ _) (reads_checkQuota _ _).asks fun a => ?_
  refine own_asks (orQuotaError a) (silent_orQuotaError a).over fun _ => own_query rfl fun o => ?_
  refine own_asks (foundOr _ _ _) (silent_foundOr _).over fun current => own_query rfl fun o => ?_
  refine own_asks (foundOr _ _ _) (silent_foundOr _).over fun maxVersion => ?_
  refine own_write ⟨rfl, fun id => ⟨rfl, rfl⟩⟩ fun o a db' _ => ?_
  exact own_asks (foundOr _ _ a) (silent_foundOr a).over fun file => own_presignUpload file

theorem own_tusPreCreate (upload : Upload) :
    Own deps files paths userID (tusPreCreate (some userID) upload .ret) s := by
  refine Early.exitIf (P := fun p => Own deps files paths userID p s) (fun _ => trivial) fun _ => ?_
  refine own_asks (tusCheckFolder _ _) (reads_tusCheckFolder _ _).asks fun _ => ?_
  refine own_asks (checkQuota _ _) (reads_checkQuota _ _).asks fun a => ?_
  match a with
  | .error (.exceeded _) => trivial
  | .error .other => trivial
  | .ok () =>
    refine own_staging ?_ fun _ => trivial
    -- Whatever the client has sent as `user_id`, the hook writes over it.
    show UUID.parse _ = some userID
    rw [MetaData.get_set, UUID.parse_string]

theorem own_finishTusUpload {upload : Upload} (huser : upload.user = some userID)
    (hpath : upload.path ∈ paths) : Own deps files paths userID (finishTusUpload upload .ret) s := by
  unfold finishTusUpload
  have hparse : UUID.parse (upload.metaData.get (lit "user_id")) = some userID := huser
  rw [hparse]
  refine Early.exitIf (P := fun p => Own deps files paths userID p s) (fun _ => trivial) fun _ => ?_
  refine own_staging hpath fun o => ?_
  generalize ((StagingStmt.openFile upload.path).run o s.staging).1 = a
  cases a with
  | none => trivial
  | some body =>
    refine ⟨trivial, fun o fileID t hx => ?_⟩
    rw [services_exec] at hx
    simp only [exec] at hx
    split at hx
    · cases hx
    · next hnew =>
      obtain ⟨rfl, rfl⟩ := Prod.mk.inj (Option.some.inj hx)
      obtain ⟨-, hunused⟩ := not_or.1 hnew
      -- The id is new, so nobody has a file under it.
      have hother : s.db.NoOther userID o.uuid := fun f hf hid =>
        absurd (hid ▸ Table.used_of_mem hf) hunused
      refine own_bucket ⟨o.uuid, owns_storageKey, hother⟩ fun o' => ?_
      refine Early.exitIf (P := fun p => Own deps files paths userID p _) (fun _ => trivial) fun _ => ?_
      refine own_write (fun _ => ⟨rfl, Or.inr ⟨List.mem_cons_self, hunused⟩⟩) fun _ a db' _ => ?_
      cases a with
      | error e => trivial
      | ok file =>
        exact own_enqueueOrLog fun _ _ _ => own_staging trivial fun _ => own_staging trivial fun _ =>
          trivial

theorem own_createFolder (body : Option FolderRequest) :
    Own deps files paths userID (createFolder userID body .ret) s := by
  refine own_asks (decodeBody body) (silent_decodeBody _).over fun req => ?_
  refine own_asks (failIf _ _ _) (silent_failIf _ _ _).over fun _ => ?_
  refine own_asks (ownedParentID _ _) (reads_ownedParentID _ _).asks fun parentID => ?_
  refine own_write rfl fun o a db' _ => ?_
  exact own_asks (foundOr _ _ a) (silent_foundOr a).over fun _ => trivial

/-- A move leaves the id and the user of a folder alone. -/
theorem own_moveFolder {id : UUID} {steps : ℕ} {folder : Folder} {parentID : Option GoString}
    {k : Folder → Prog Stmt Reply}
    (h : ∀ f, f.id = folder.id → f.userID = folder.userID → Own deps files paths userID (k f) s) :
    Own deps files paths userID (moveFolder userID id steps folder parentID k) s := by
  match parentID with
  | none => exact h folder rfl rfl
  | some [] => exact h _ rfl rfl
  | some (c :: text) =>
    refine own_asks (parseID _ _) (silent_parseID _ _).over fun p => own_query rfl fun o => ?_
    refine own_asks (foundOr _ _ _) (silent_foundOr _).over fun parent => ?_
    refine own_asks (isDescendant _ _ _ _) (reads_isDescendant _ _ _ _).asks fun b => ?_
    refine own_asks (foundOr _ _ b) (silent_foundOr b).over fun cyclic => ?_
    exact own_asks (failIf _ _ _) (silent_failIf _ _ _).over fun _ => h _ rfl rfl

theorem own_updateFolder (id : GoString) (body : Option FolderRequest) (steps : ℕ) :
    Own deps files paths userID (updateFolder userID id body steps .ret) s := by
  refine own_asks (parseID _ _) (silent_parseID _ _).over fun folderID => own_query rfl fun o => ?_
  refine Early.foundOr (P := fun p => Own deps files paths userID p s) (own_answer s) fun folder hf => ?_
  obtain ⟨hmem, -, huser⟩ := Query.folder_ok hf
  refine own_asks (decodeBody body) (silent_decodeBody _).over fun req => ?_
  have hrenamed : (if req.name ≠ [] then { folder with name := req.name } else folder).id = folder.id ∧
      (if req.name ≠ [] then { folder with name := req.name } else folder).userID = folder.userID := by
    split
    · exact ⟨rfl, rfl⟩
    · exact ⟨rfl, rfl⟩
  refine own_moveFolder fun f hfid hfuser => ?_
  refine own_write ⟨(hfuser.trans hrenamed.2).trans huser, folder, hmem, (hfid.trans hrenamed.1).symm,
    huser⟩ fun o a db' _ => ?_
  exact own_asks (foundOr _ _ a) (silent_foundOr a).over fun _ => trivial

theorem own_renameFile {file : File} {name : Option GoString} {k : File → Prog Stmt Reply}
    (h : ∀ f, f.id = file.id → f.userID = file.userID → Own deps files paths userID (k f) s) :
    Own deps files paths userID (renameFile file name k) s := by
  match name with
  | none => exact h file rfl rfl
  | some [] => trivial
  | some (c :: name) => exact h _ rfl rfl

theorem own_moveFile {file : File} {folderID : Option GoString} {k : File → Prog Stmt Reply}
    (h : ∀ f, f.id = file.id → f.userID = file.userID → Own deps files paths userID (k f) s) :
    Own deps files paths userID (moveFile userID file folderID k) s := by
  match folderID with
  | none => exact h file rfl rfl
  | some [] => exact h _ rfl rfl
  | some (c :: text) =>
    refine own_asks (parseID _ _) (silent_parseID _ _).over fun id => own_query rfl fun o => ?_
    exact own_asks (foundOr _ _ _) (silent_foundOr _).over fun _ => h _ rfl rfl

theorem own_updateFile (id : GoString) (body : Option FileUpdateRequest) :
    Own deps files paths userID (updateFile userID id body .ret) s := by
  refine own_asks (parseID _ _) (silent_parseID _ _).over fun fileID => own_query rfl fun o => ?_
  refine Early.foundOr (P := fun p => Own deps files paths userID p s) (own_answer s) fun file hf => ?_
  obtain ⟨hmem, -, huser⟩ := Query.file_ok hf
  refine own_asks (decodeBody body) (silent_decodeBody _).over fun req => ?_
  refine own_renameFile fun f₁ hid₁ huser₁ => own_moveFile fun f₂ hid₂ huser₂ => ?_
  refine own_write ⟨(huser₂.trans huser₁).trans huser, file, hmem, (hid₂.trans hid₁).symm, huser⟩
    fun o a db' _ => ?_
  exact own_asks (foundOr _ _ a) (silent_foundOr a).over fun _ => trivial

/-! ### Deleting -/

theorem own_removeObjects {k : Unit → Prog Stmt Reply} : ∀ {s : Store} (keys : List GoString),
    (∀ key ∈ keys, ∃ id, Owns id key ∧ s.db.NoOther userID id) →
    (∀ t, t.db = s.db → Own deps files paths userID (k ()) t) →
    Own deps files paths userID (removeObjects keys k) s
  | s, [], _, h => h s rfl
  | s, key :: keys, hkeys, h => by
    refine own_bucket (hkeys key List.mem_cons_self) fun o => ?_
    exact own_removeObjects keys (fun key' hkey' => hkeys key' (List.mem_cons_of_mem _ hkey'))
      fun t ht => h t ht

/-- What is removed with a file is the file's. -/
theorem own_cleanupFileObjects {file : File} {k : Unit → Prog Stmt Reply} (hfile : file ∈ files)
    (hother : s.db.NoOther userID file.id) (hkeys : ∀ key, file.HasKey key → Owns file.id key)
    (h : ∀ t, t.db = s.db → Own deps files paths userID (k ()) t) :
    Own deps files paths userID (cleanupFileObjects file k) s := by
  have hrow : ∀ key ∈ file.storageKey :: file.thumbnailKey.toList,
      ∃ id, Owns id key ∧ s.db.NoOther userID id := by
    intro key hkey
    refine ⟨file.id, hkeys key ?_, hother⟩
    rcases List.mem_cons.1 hkey with rfl | hkey
    · exact Or.inl rfl
    · exact Or.inr (Or.inl (Option.mem_toList.1 hkey))
  unfold cleanupFileObjects
  rw [Code.ite_run]
  split
  · refine own_bucket ⟨file, hfile, rfl⟩ fun o => ?_
    have hlisted : ∀ hlsKeys, ((BucketStmt.listObjects (hlsPrefix file.id)).run o s.now s.bucket).1 =
        some hlsKeys → ∀ key ∈ hlsKeys, hlsPrefix file.id <+: key := by
      intro hlsKeys hrun key hkey
      simp only [BucketStmt.run] at hrun
      split at hrun
      · cases hrun
      · obtain rfl := Option.some.inj hrun
        exact List.isPrefixOf_iff_prefix.1 (List.mem_filter.1 hkey).2
    cases ha : ((BucketStmt.listObjects (hlsPrefix file.id)).run o s.now s.bucket).1 with
    | none => exact own_removeObjects _ hrow h
    | some hlsKeys =>
      refine own_removeObjects _ (fun key hkey => ?_) h
      rcases List.mem_append.1 hkey with hkey | hkey
      · exact hrow key hkey
      · exact ⟨file.id, owns_of_hlsPrefix (hlisted hlsKeys ha key hkey), hother⟩
  · exact own_removeObjects _ hrow h

theorem own_cleanupFiles {k : Unit → Prog Stmt Reply} : ∀ {s : Store} (versions : List File),
    (∀ f ∈ versions, f ∈ files ∧ s.db.NoOther userID f.id ∧ ∀ key, f.HasKey key → Owns f.id key) →
    (∀ t, Own deps files paths userID (k ()) t) →
    Own deps files paths userID (cleanupFiles versions k) s
  | s, [], _, h => h s
  | s, file :: versions, hversions, h => by
    obtain ⟨hfile, hother, hkeys⟩ := hversions file List.mem_cons_self
    refine own_cleanupFileObjects hfile hother hkeys fun t ht => own_cleanupFiles versions ?_ h
    rw [ht]
    exact fun f hf => hversions f (List.mem_cons_of_mem _ hf)

/-- The rows that a delete answers with were the user's, and are gone. -/
theorem own_cleanupRemoved {versions : List File} {db' : DB} {k : Unit → Prog Stmt Reply}
    (hl : Linked s) (hfiles : files = s.db.files.part (ofUser File.userID userID))
    (hremoved : s.db.Removes versions db') (huser : ∀ f ∈ versions, f.userID = userID)
    (h : ∀ t, Own deps files paths userID (k ()) t) :
    Own deps files paths userID (cleanupFiles versions k) { s with db := db' } := by
  refine own_cleanupFiles versions (fun f hf => ⟨?_, fun g hg hid => ?_, fun key hkey => ?_⟩) h
  · exact hfiles ▸ Table.mem_part.2 ⟨hremoved.mem f hf, ofUser_iff.2 (huser f hf)⟩
  · exact absurd hid (hremoved.gone hf hg)
  · exact (hl.file f (hremoved.mem f hf)).owns hkey

theorem own_deleteFile (id : GoString) (hl : Linked s)
    (hfiles : files = s.db.files.part (ofUser File.userID userID)) :
    Own deps files paths userID (deleteFile userID id .ret) s := by
  refine own_asks (parseID _ _) (silent_parseID _ _).over fun fileID => own_query rfl fun o => ?_
  refine own_asks (foundOr _ _ _) (silent_foundOr _).over fun file => own_write rfl fun o a db' hw => ?_
  refine Early.foundOr (P := fun p => Own deps files paths userID p _) (own_answer _) fun versions ha => ?_
  obtain ⟨he, -⟩ | ⟨he, rfl⟩ := Write.deleteFile_cases hw
  · cases ha.symm.trans he
  · obtain rfl := Except.ok.inj (ha.symm.trans he)
    refine own_cleanupRemoved hl hfiles (DB.removes_deleteFile _ _) (fun f hf => ?_) fun _ => trivial
    exact (DB.inLineage_iff.1 (DB.mem_lineageFiles.1 hf).2).1

theorem own_deleteFolder (id : GoString) (hl : Linked s)
    (hfiles : files = s.db.files.part (ofUser File.userID userID)) :
    Own deps files paths userID (deleteFolder userID id .ret) s := by
  refine own_asks (parseID _ _) (silent_parseID _ _).over fun folderID => own_query rfl fun o => ?_
  refine own_asks (foundOr _ _ _) (silent_foundOr _).over fun _ => own_write rfl fun o a db' hw => ?_
  refine Early.foundOr (P := fun p => Own deps files paths userID p _) (own_answer _) fun versions ha => ?_
  obtain ⟨he, -⟩ | ⟨versions', he, hd⟩ := Write.deleteFolder_cases hw
  · cases ha.symm.trans he
  · obtain rfl := Except.ok.inj (ha.symm.trans he)
    exact own_cleanupRemoved hl hfiles (DB.removes_deleteFolderTree hd)
      (DB.sameOthers_deleteFolderTree hd).2 fun _ => trivial

/-! ### Versions and share links -/

theorem own_restoreFileVersion (id versionID : GoString) :
    Own deps files paths userID (restoreFileVersion userID id versionID .ret) s := by
  refine own_asks (parseID _ _) (silent_parseID _ _).over fun fileID => ?_
  refine own_asks (parseID _ _) (silent_parseID _ _).over fun targetID => own_query rfl fun o => ?_
  refine own_asks (foundOr _ _ _) (silent_foundOr _).over fun file => own_query rfl fun o => ?_
  refine Early.found (P := fun p => Own deps files paths userID p s) (own_answer s) fun target ht => ?_
  obtain ⟨hmem, -, huser⟩ := Query.file_ok ht
  refine own_asks (failIf _ _ _) (silent_failIf _ _ _).over fun _ => ?_
  refine own_write ⟨rfl, noOther_of_mem hmem huser⟩ fun o a db' _ => ?_
  exact own_asks (foundOr _ _ a) (silent_foundOr a).over fun _ => trivial

theorem own_createShare (id : GoString) (req : ShareCreateRequest) :
    Own deps files paths userID (createShare userID id req .ret) s := by
  refine own_asks (parseID _ _) (silent_parseID _ _).over fun fileID => own_query rfl fun o => ?_
  refine own_asks (foundOr _ _ _) (silent_foundOr _).over fun file => ?_
  refine own_asks (tool _) (over_call trivial) fun generated => ?_
  refine own_asks (failIf _ _ _) (silent_failIf _ _ _).over fun _ => ?_
  refine own_asks (shareExpiry _) (reads_shareExpiry _ _).asks fun expiresAt => ?_
  refine own_asks (shareLimit _) (reads_shareLimit _ _).asks fun maxDownloads => ?_
  refine own_asks (sharePasswordHash _) (asks_sharePasswordHash _ _) fun hash => ?_
  refine own_write rfl fun o a db' _ => ?_
  exact own_asks (foundOr _ _ a) (silent_foundOr a).over fun _ => trivial

theorem own_deleteShare (id : GoString) :
    Own deps files paths userID (deleteShare userID id .ret) s := by
  refine own_asks (parseID _ _) (silent_parseID _ _).over fun shareID => ?_
  refine own_write rfl fun o a db' _ => ?_
  refine own_asks (foundOr _ _ a) (silent_foundOr a).over fun _ => ?_
  exact own_asks (failIf _ _ _) (silent_failIf _ _ _).over fun _ => trivial

/-- The names are looked up without a user filter. -/
theorem own_shareResponses (shares : List Share) (fileNames : List (UUID × GoString))
    {k : List ShareResponse → Prog Stmt Reply} (hshares : ∀ sh ∈ shares, s.db.NoOther userID sh.fileID)
    (h : ∀ a, Own deps files paths userID (k a) s) :
    Own deps files paths userID (shareResponses shares fileNames k) s := by
  induction shares generalizing fileNames k with
  | nil => exact h []
  | cons share shares ih =>
    have hrest : ∀ sh ∈ shares, s.db.NoOther userID sh.fileID := fun sh hsh =>
      hshares sh (List.mem_cons_of_mem _ hsh)
    unfold shareResponses
    cases fileNames.lookup share.fileID with
    | some name => exact ih fileNames hrest fun rest => h _
    | none =>
      refine ⟨hshares share List.mem_cons_self, fun o a s' hx => ?_⟩
      rw [services_exec] at hx
      obtain ⟨rfl, rfl⟩ := exec_query hx
      exact ih _ hrest fun rest => h _

theorem own_listShares (h : WellFormed s) (hl : Linked s) :
    Own deps files paths userID (listShares userID .ret) s := by
  refine own_query rfl fun o => ?_
  refine Early.foundOr (P := fun p => Own deps files paths userID p s) (own_answer s) fun shares ha => ?_
  refine own_shareResponses shares [] (fun sh hsh => ?_) fun _ => trivial
  obtain rfl : s.db.userShares userID = shares := Except.ok.inj (Query.eval_of_ok ha)
  obtain ⟨hmem, huser⟩ := List.mem_filter.1 (List.mem_reverse.1 hsh)
  rw [decide_eq_true_iff] at huser
  exact h.noOther (huser ▸ hl.share sh hmem)

theorem own_hlsAsset (id asset : GoString)
    (hfiles : files = s.db.files.part (ofUser File.userID userID)) :
    Own deps files paths userID (hlsAsset userID id asset .ret) s := by
  refine own_asks (parseID _ _) (silent_parseID _ _).over fun fileID => own_query rfl fun o => ?_
  refine Early.found (P := fun p => Own deps files paths userID p s) (own_answer s) fun file hf => ?_
  obtain ⟨hmem, -, huser⟩ := Query.file_ok hf
  refine own_asks (failIf _ _ _) (silent_failIf _ _ _).over fun _ => ?_
  refine own_asks (failIf _ _ _) (silent_failIf _ _ _).over fun _ => ?_
  refine own_asks (bucket _) (over_call rfl) fun opened => ?_
  refine own_asks (failIf _ _ _) (silent_failIf _ _ _).over fun _ => ?_
  have hfile : file ∈ files := hfiles ▸ Table.mem_part.2 ⟨hmem, ofUser_iff.2 huser⟩
  -- A cleaned path begins with a slash, so the key is one under the file's prefix.
  have hkey : hlsPrefix file.id <+: assetKey file.id (GoPath.cleanRooted asset) := by
    obtain ⟨name, hname⟩ := GoPath.cleanRooted_eq asset
    exact ⟨name, by rw [hname, hlsPrefix, assetKey, List.append_assoc]⟩
  exact own_bucket ⟨file, hfile, Or.inr (Or.inr hkey)⟩ fun _ => trivial

/-- **A request makes its user's calls only.** -/
theorem own_handler {q : Request} {s₀ : Store} (h : WellFormed s₀) (hl : Linked s₀)
    (huser : q.user = some userID) (hq : q.launch s₀ = some s)
    (hfiles : files = s₀.db.files.part (ofUser File.userID userID)) :
    Own deps files q.stagedPaths userID (q.handler deps .ret) s := by
  have hl' := hl.launch hq
  have hw' := h.launch hq
  have hfiles' : files = s.db.files.part (ofUser File.userID userID) := by
    rw [(launch_cases hq).1, hfiles]
  cases q with
  | finishTusUpload upload => exact own_finishTusUpload huser List.mem_cons_self
  | tusPreCreate u upload =>
    obtain rfl : u = some userID := huser
    exact own_tusPreCreate upload
  | shareDownloadURL token body => cases huser
  | getPublicShare token => cases huser
  | deliver worker msg => cases huser
  | presign u body =>
    obtain rfl : u = userID := Option.some.inj huser
    exact own_presign body
  | complete u id =>
    obtain rfl : u = userID := Option.some.inj huser
    exact own_complete id hfiles'
  | presignVersion u id body =>
    obtain rfl : u = userID := Option.some.inj huser
    exact own_presignVersion id body
  | createFolder u body =>
    obtain rfl : u = userID := Option.some.inj huser
    exact own_createFolder body
  | updateFolder u id body steps =>
    obtain rfl : u = userID := Option.some.inj huser
    exact own_updateFolder id body steps
  | deleteFolder u id =>
    obtain rfl : u = userID := Option.some.inj huser
    exact own_deleteFolder id hl' hfiles'
  | updateFile u id body =>
    obtain rfl : u = userID := Option.some.inj huser
    exact own_updateFile id body
  | deleteFile u id =>
    obtain rfl : u = userID := Option.some.inj huser
    exact own_deleteFile id hl' hfiles'
  | restoreFileVersion u id versionID =>
    obtain rfl : u = userID := Option.some.inj huser
    exact own_restoreFileVersion id versionID
  | createShare u id req =>
    obtain rfl : u = userID := Option.some.inj huser
    exact own_createShare id req
  | deleteShare u id =>
    obtain rfl : u = userID := Option.some.inj huser
    exact own_deleteShare id
  | listShares u =>
    obtain rfl : u = userID := Option.some.inj huser
    exact own_listShares hw' hl'
  | hlsAsset u id asset =>
    obtain rfl : u = userID := Option.some.inj huser
    exact own_hlsAsset id asset hfiles'
  | listFiles u folderParam =>
    obtain rfl : u = userID := Option.some.inj huser
    exact own_asks _ (reads_listFiles u folderParam).asks fun _ => trivial
  | listFolders u parentParam =>
    obtain rfl : u = userID := Option.some.inj huser
    exact own_asks _ (reads_listFolders u parentParam).asks fun _ => trivial
  | downloadURL u id variant =>
    obtain rfl : u = userID := Option.some.inj huser
    exact own_asks _ (asks_downloadURL u id variant) fun _ => trivial
  | getFolder u id =>
    obtain rfl : u = userID := Option.some.inj huser
    exact own_asks _ (reads_getFolder u id).asks fun _ => trivial
  | getFile u id =>
    obtain rfl : u = userID := Option.some.inj huser
    exact own_asks _ (reads_getFile u id).asks fun _ => trivial
  | fileStats u =>
    obtain rfl : u = userID := Option.some.inj huser
    exact own_asks _ (reads_fileStats u).asks fun _ => trivial
  | listFileVersions u id =>
    obtain rfl : u = userID := Option.some.inj huser
    exact own_asks _ (reads_listFileVersions u id).asks fun _ => trivial
  | listFileShares u id =>
    obtain rfl : u = userID := Option.some.inj huser
    exact own_asks _ (reads_listFileShares u id).asks fun _ => trivial

end Handlers

/-! ## Requests -/

section Requests

variable {s s' t t' : Store} {userID : UUID} {q : Request}

theorem launch_staging (hq : q.launch s = some s') :
    s'.staging.accepted = s.staging.accepted ∧ s'.staging.files = s.staging.files := by
  cases q with
  | finishTusUpload upload =>
    simp only [Request.launch] at hq
    split at hq
    · obtain rfl := Option.some.inj hq
      exact ⟨rfl, rfl⟩
    · cases hq
  | deliver worker msg =>
    simp only [Request.launch] at hq
    split at hq
    · obtain rfl := Option.some.inj hq
      exact ⟨rfl, rfl⟩
    · cases hq
  | _ =>
    obtain rfl := Option.some.inj hq
    exact ⟨rfl, rfl⟩

theorem Apart.isolated (h : Apart userID s t) (hl : Linked s) : Isolated userID s t := by
  have hother : ∀ {id : UUID}, id ≠ userID → decide (id = userID) = false := fun hne =>
    decide_eq_false hne
  exact ⟨h.db.users, fun f hf => h.db.folders f (hother hf), fun f hf => h.db.files f (hother hf),
    fun sh hsh => h.db.shares sh (hother hsh),
    fun f hf hne key hkey => h.object f hf hne key ((hl.file f hf).owns hkey), h.upload⟩

/-- Launching a request touches nothing that a user owns. -/
theorem Isolated.of_launch (hq : q.launch s = some s') (h : Isolated userID s' t) :
    Isolated userID s t := by
  obtain ⟨hdb, hbucket, -⟩ := launch_cases hq
  obtain ⟨husers, hfolders, hfiles, hshares, hobjects, huploads⟩ := h
  rw [hdb] at husers hfolders hfiles hshares hobjects
  rw [hbucket] at hobjects
  rw [(launch_staging hq).1] at huploads
  exact ⟨husers, hfolders, hfiles, hshares, hobjects, huploads⟩

/-- Stores that agree on the user are alike for the user's calls, whatever is launched. -/
theorem Agree.alike (h : Agree userID s t) (hs : q.launch s = some s') (ht : q.launch t = some t')
    (huser : q.user = some userID) :
    Alike (s.db.files.part (ofUser File.userID userID)) q.stagedPaths userID s' t' := by
  obtain ⟨hsdb, hsbucket, -, hsnow, -⟩ := launch_cases hs
  obtain ⟨htdb, htbucket, -, htnow, -⟩ := launch_cases ht
  have hmem : ∀ f ∈ s.db.files.part (ofUser File.userID userID), f ∈ s.db.files ∧ f.userID = userID :=
    fun f hf => ⟨(Table.mem_part.1 hf).1, ofUser_iff.1 (Table.mem_part.1 hf).2⟩
  refine ⟨?_, ?_, fun f hf key hkey => ?_, fun f hf => ?_, fun path hpath => ?_⟩
  · rw [hsnow, htnow, h.now]
  · rw [hsdb, htdb]
    exact h.db
  · rw [hsbucket, htbucket, h.objects f (hmem f hf).1 (hmem f hf).2 key hkey]
  · rw [hsbucket, htbucket, h.listing f (hmem f hf).1 (hmem f hf).2]
  · cases q with
    | finishTusUpload upload =>
      obtain rfl := List.mem_singleton.1 hpath
      rw [(launch_staging hs).2, (launch_staging ht).2]
      simp only [Request.launch] at hs
      split at hs
      · next hupload => exact h.staged upload hupload huser
      · cases hs
    | _ => cases hpath

theorem Fresh.launch {os : List Oracle} (h : Fresh os s) (hq : q.launch s = some s') : Fresh os s' := by
  obtain ⟨hdb, -, hissued, -⟩ := launch_cases hq
  refine ⟨fun o ho => ?_, h.2⟩
  obtain ⟨hid, hfile, hfolder, hshare, htoken⟩ := h.1 o ho
  rw [← hissued] at hid
  rw [← hdb] at hfile hfolder hshare htoken
  exact ⟨hid, hfile, hfolder, hshare, htoken⟩

end Requests

/-- **Users are isolated.**  Requests run one at a time.  A user's request changes nothing that belongs
to others and makes no link to it, and its answer is the same in two states, of two runs, that agree on
what is the user's. -/
theorem users_isolated (deps : Deps) (users : Table User) {c : Services} {q : Request} {userID : UUID}
    {s : Store}
    (h : (services deps).Reaches Machine.sequential (start (Store.fresh users)) c)
    (hquiet : c.quiet = true) (huser : q.user = some userID) (hq : q.launch c.store = some s) :
    (∀ tr r t, (services deps).Finishes q ((services deps).handler q) s tr r t →
      Isolated userID c.store t ∧ t.db.LinksInside) ∧
    ∀ users' c' s', (services deps).Reaches Machine.sequential (start (Store.fresh users')) c' →
      c'.quiet = true → Agree userID c.store c'.store → q.launch c'.store = some s' →
      ∀ os, Fresh os c.store → Fresh os c'.store →
        ((services deps).play q os ((services deps).handler q) s).map (fun x => x.2.1) =
          ((services deps).play q os ((services deps).handler q) s').map fun x => x.2.1 := by
  obtain ⟨hwf, hl⟩ := linked_always deps users h
  have hown : Own deps _ q.stagedPaths userID (q.handler deps .ret) s := own_handler hwf hl huser hq rfl
  refine ⟨fun tr r t hf => ⟨?_, ?_⟩, fun users' c' s' h' hquiet' hagree hq' os hfresh hfresh' => ?_⟩
  · have hapart : Apart userID s t :=
      hf.related hown (Apart.refl userID) Apart.trans fun hcall hx => CallOwn.apart hcall hx
    exact (hapart.isolated (hl.launch hq)).of_launch hq
  · obtain ⟨d, hd, rfl, -⟩ := hf.reaches h hquiet hq
    obtain ⟨hwf', hl'⟩ := linked_always deps users hd
    exact hl'.linksInside hwf'
  · obtain ⟨hwf', hl'⟩ := linked_always deps users' h'
    have hown' : Own deps _ q.stagedPaths userID (q.handler deps .ret) s' :=
      own_handler hwf' hl' huser hq' rfl
    rw [← hagree.db.files] at hown'
    refine OptionRel.map_eq (Machine.play_alike (A := Alike _ q.stagedPaths userID) (N := Fresh)
      (fun hs ht hA hN hN' => ?_) (fun hs hN hx => ?_) hown hown' (hagree.alike hq hq' huser)
      (hfresh.launch hq) (hfresh'.launch hq')) fun x y hxy => hxy.1
    · exact CallOwn.exec_alike hs ht hA hN hN'
    · exact CallOwn.fresh hs hx hN

/-! ### Bob makes a folder -/

def bob : User := ⟨2, lit "bob@example.org", lit "hash", lit "Bob", 1000⟩

def aliceAndBob : Table User :=
  (Table.empty.insert alice not_used_alice).insert bob (by decide)

/-- Alice makes a folder, and Bob makes one. -/
def twoFolders (name : GoString) : List (Move Request Oracle EnvMove) :=
  [.start (.createFolder 1 (some ⟨name, none⟩)), .step 0 { uuid := 200 },
    .start (.createFolder 2 (some ⟨lit "B", none⟩)), .step 1 { uuid := 201 }]

/-- Bob makes a folder in his. -/
def makeFolder : Request := .createFolder 2 (some ⟨lit "C", some (text 201)⟩)

def makeFolderDraws : List Oracle :=
  [{ token := lit "s" }, { uuid := 202, token := lit "t" }]

/-- Bob has a folder and nothing else, and what he draws is new. -/
def bobsTest (c : Services) : Bool :=
  c.quiet && (c.store.now = 0 && c.store.db.users.part (ofUser User.id 2) = [bob] &&
    (c.store.db.folders.part (ofUser Folder.userID 2) = [⟨201, lit "B", 2, none⟩] &&
    c.store.db.files.rows = [] && c.store.db.shares.rows = [] && c.store.staging.completed = [])) &&
  makeFolderDraws.all fun o => o.uuid ∉ c.store.issued && (!decide (c.store.db.files.Used o.uuid) &&
    !decide (c.store.db.folders.Used o.uuid) && !decide (c.store.db.shares.Used o.uuid) &&
    c.store.db.tokenUsed o.token = false)

theorem bobsTest_agree {c c' : Services} (h : bobsTest c = true) (h' : bobsTest c' = true) :
    Agree 2 c.store c'.store := by
  simp only [bobsTest, Bool.and_eq_true, decide_eq_true_eq] at h h'
  obtain ⟨⟨-, ⟨hnow, husers⟩, ⟨⟨hfolders, hfiles⟩, hshares⟩, hcompleted⟩, -⟩ := h
  obtain ⟨⟨-, ⟨hnow', husers'⟩, ⟨⟨hfolders', hfiles'⟩, hshares'⟩, -⟩, -⟩ := h'
  have hnone : ∀ f, f ∉ c.store.db.files := fun f hf => by
    have hf : f ∈ c.store.db.files.rows := hf
    rw [hfiles] at hf
    cases hf
  refine ⟨hnow.trans hnow'.symm, ⟨husers.trans husers'.symm, hfolders.trans hfolders'.symm, ?_, ?_⟩,
    fun f hf => absurd hf (hnone f), fun f hf => absurd hf (hnone f), fun u hu => ?_⟩
  · rw [Table.part, Table.part, hfiles, hfiles']
  · rw [Table.part, Table.part, hshares, hshares']
  · rw [hcompleted] at hu
    cases hu

theorem bobsTest_fresh {c : Services} (h : bobsTest c = true) : Fresh makeFolderDraws c.store := by
  simp only [bobsTest, Bool.and_eq_true, List.all_eq_true, decide_eq_true_eq, Bool.not_eq_true',
    decide_eq_false_iff_not] at h
  refine ⟨fun o ho => ?_, by decide +kernel⟩
  obtain ⟨hid, ⟨⟨hfile, hfolder⟩, hshare⟩, htoken⟩ := h.2 o ho
  exact ⟨hid, hfile, hfolder, hshare, htoken⟩

/-- Bob can not tell how Alice has named her folder. -/
theorem users_isolated_makeFolder :
    ∃ c c' : Services, (c.store.db.folders.rows.any fun f => f.name = lit "A") = true ∧
      (c'.store.db.folders.rows.any fun f => f.name = lit "A") = false ∧
      (∀ tr r t, (services plainDeps).Finishes makeFolder ((services plainDeps).handler makeFolder)
        c.store tr r t → Isolated 2 c.store t ∧ t.db.LinksInside) ∧
      ((services plainDeps).play makeFolder makeFolderDraws ((services plainDeps).handler makeFolder)
          c.store).map (fun x => x.2.1) =
        ((services plainDeps).play makeFolder makeFolderDraws ((services plainDeps).handler makeFolder)
          c'.store).map fun x => x.2.1 := by
  obtain ⟨c, hc, hP⟩ := Machine.exists_reaches (services plainDeps) Machine.sequential
    (start (Store.fresh aliceAndBob))
    (fun c => bobsTest c && c.store.db.folders.rows.any fun f => f.name = lit "A")
    (twoFolders (lit "A")) (by decide +kernel)
  obtain ⟨c', hc', hP'⟩ := Machine.exists_reaches (services plainDeps) Machine.sequential
    (start (Store.fresh aliceAndBob))
    (fun c => bobsTest c && !c.store.db.folders.rows.any fun f => f.name = lit "A")
    (twoFolders (lit "D")) (by decide +kernel)
  rw [Bool.and_eq_true] at hP
  rw [Bool.and_eq_true, Bool.not_eq_true'] at hP'
  have hquiet : ∀ {c : Services}, bobsTest c = true → c.quiet = true := fun h =>
    (Bool.and_eq_true_iff.1 (Bool.and_eq_true_iff.1 h).1).1
  obtain ⟨hisolated, hanswer⟩ := users_isolated plainDeps aliceAndBob hc (hquiet hP.1)
    (show makeFolder.user = some 2 from rfl) rfl
  refine ⟨c, c', hP.2, hP'.2, hisolated, ?_⟩
  exact hanswer aliceAndBob c' c'.store hc' (hquiet hP'.1) (bobsTest_agree hP.1 hP'.1) rfl
    makeFolderDraws (bobsTest_fresh hP.1) (bobsTest_fresh hP'.1)

end Optiflow
