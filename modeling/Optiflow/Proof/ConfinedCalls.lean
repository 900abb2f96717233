import Optiflow.Proof.Confinement

/-!
# Every call is its user's

Reading each handler for what its calls know of the user (`CallMine`), whatever runs in between.  So in
every interleaving each call of a user's request asks about nothing but what is the user's and leaves what
is of others alone (`users_confined`).
-/

namespace Optiflow

open Interleave Code UploadSvc ApiSvc

/-! ## Reading the handlers -/

section Rules

variable {deps : Deps} {q : Request} {userID : UUID} (hq : q.user = some userID) {s : Store} {α : Type}

/-- Reading a program against `confinement`. -/
abbrev Confined (deps : Deps) (q : Request) (p : Prog Stmt Reply) (s : Store) : Prop :=
  (confinement deps).Safe q p s

theorem confined_answer (status : ℕ) (message : String) :
    (confinement deps).post q (.error status message) := trivial

include hq

theorem CallMine.pre {e : Stmt α} (he : CallMine s userID e) : (confinement deps).pre q e s :=
  ⟨fun _ => ⟨userID, hq⟩, fun _ hu => Option.some.inj (hq.symm.trans hu) ▸ he⟩

theorem confined_call {e : Stmt α} {k : α → Prog Stmt Reply} (he : ∀ t, Grows s t → CallMine t userID e)
    (h : ∀ a t, Grows s t → Confined deps q (k a) t) :
    Confined deps q ((Code.call e : Handler α) k) s :=
  safe_call (fun t hst _ => (he t hst).pre hq) fun a _ _ _ hst _ _ hx _ => h a _ (hst.trans (exec_grows hx))

theorem confined_query {qy : Query α} {k : Except DbError α → Prog Stmt Reply} (hqy : qy.isOf userID)
    (h : ∀ o t, Grows s t → (confinement deps).inv t → Confined deps q (k (qy.run o t.db)) t) :
    Confined deps q (query qy k) s := by
  refine safe_query (fun t _ _ => CallMine.pre hq ?_) fun o t hst ht _ => h o t hst ht
  cases qy with
  | fileByID id => exact hqy.elim
  | _ => exact hqy

theorem confined_write {w : Write α} {k : Except DbError α → Prog Stmt Reply} (hw : WriteMine userID w)
    (h : ∀ a t, Grows s t → Confined deps q (k a) t) : Confined deps q (write w k) s :=
  confined_call hq (fun _ _ => hw) h

theorem confined_bucket {b : BucketStmt α} {k : α → Prog Stmt Reply}
    (hb : ∀ key, b.names key → KeyOf s userID key) (h : ∀ a t, Grows s t → Confined deps q (k a) t) :
    Confined deps q (bucket b k) s :=
  confined_call hq (fun _ hst key hkey => (hb key hkey).mono hst) h

/-- Code that only reads the user's rows. -/
theorem confined_reads (c : Handler α) {k : α → Prog Stmt Reply} (hc : Reads userID c)
    (h : ∀ a t, Grows s t → Confined deps q (k a) t) : Confined deps q (c k) s := by
  refine hc (fun p => ∀ t, Grows s t → Confined deps q p t) (fun e k he hk t hst => ?_)
    (fun _ _ _ _ => trivial) k h s (.refl s)
  refine confined_call hq (fun u _ => ?_) fun a u htu => hk a u (hst.trans htu)
  cases e with
  | query qy =>
    cases qy with
    | fileByID id => exact he.elim
    | _ => exact he
  | now => trivial
  | _ => exact he.elim

theorem confined_enqueueOrLog {task : Option Task} {k : Unit → Prog Stmt Reply}
    (h : ∀ t, Grows s t → Confined deps q (k ()) t) : Confined deps q (enqueueOrLog task k) s := by
  cases task with
  | none => exact h s (.refl s)
  | some task => exact confined_call hq (fun _ _ => trivial) fun _ t hst => h t hst

theorem confined_presignUpload {file : File} (hkey : KeyOf s userID file.storageKey) :
    Confined deps q (presignUpload file .ret) s := by
  refine confined_bucket hq (fun key hnames => hnames ▸ hkey) fun url t _ => ?_
  cases url with
  | none => trivial
  | some url => exact confined_call hq (fun _ _ => trivial) fun _ _ _ => trivial

end Rules

/-! ### Uploads -/

section Handlers

variable {deps : Deps} {userID : UUID} {s : Store}

/-- The keys of a row that was read are the user's. -/
theorem keyOf_row {t : Store} {file : File} (ht : (confinement deps).inv t)
    (hmem : file ∈ t.db.files) (huser : file.userID = userID) :
    ∀ key, file.HasKey key → KeyOf t userID key := fun _ hkey => huser ▸ ht.2.2.keyOf ht.1 hmem hkey

theorem confined_presign (body : Option PresignRequest) :
    Confined deps (.presign userID body) (presign userID body .ret) s := by
  refine safe_decodeBody confined_answer fun req _ => safe_failIf confined_answer fun _ => ?_
  refine confined_reads rfl (checkQuota _ _) (reads_checkQuota _ _) fun a t _ => ?_
  refine confined_reads rfl (orQuotaError a) (silent_orQuotaError a).over fun _ u _ => ?_
  refine confined_reads rfl (ownedFolderID _ _) (reads_ownedFolderID _ _) fun folderID v _ => ?_
  refine safe_write (fun _ _ _ => CallMine.pre rfl fun id => ⟨rfl, ⟨_, rfl⟩, rfl⟩) ?_
  intro o a w db' _ _ _ hrun _
  refine safe_foundOr confined_answer fun file ha => confined_presignUpload rfl ?_
  obtain ⟨rfl, -⟩ | ⟨-, -, -, rfl, -⟩ := Write.createFile_cases hrun
  · cases ha
  · obtain rfl := Except.ok.inj ha
    exact Or.inl ⟨_, _, rfl⟩

theorem confined_complete (id : GoString) :
    Confined deps (.complete userID id) (complete userID id .ret) s := by
  refine safe_parseID confined_answer fun fileID _ => confined_query rfl rfl fun o t _ ht => ?_
  refine safe_found confined_answer fun file hf => safe_failIf confined_answer fun _ => ?_
  obtain ⟨hmem, -, huser⟩ := Query.file_ok hf
  refine confined_bucket rfl (fun key hkey => keyOf_row ht hmem huser key (Or.inl hkey.symm)) ?_
  intro size u _
  cases size with
  | none => trivial
  | some size =>
    refine confined_write rfl ⟨huser, ht.2.2.thumbnail file hmem⟩ fun a v _ => ?_
    exact safe_foundOr confined_answer fun _ _ => confined_enqueueOrLog rfl fun _ _ => trivial

theorem confined_presignVersion (id : GoString) (body : Option PresignVersionRequest) :
    Confined deps (.presignVersion userID id body) (presignVersion userID id body .ret) s := by
  refine safe_parseID confined_answer fun fileID _ => safe_decodeBody confined_answer fun req _ => ?_
  refine safe_failIf confined_answer fun _ => confined_query rfl rfl fun o t _ _ => ?_
  refine safe_found confined_answer fun anyVersion _ => ?_
  refine confined_reads rfl (checkQuota _ _) (reads_checkQuota _ _) fun a t _ => ?_
  refine confined_reads rfl (orQuotaError a) (silent_orQuotaError a).over fun _ t _ => ?_
  refine confined_query rfl rfl fun o t _ _ => safe_foundOr confined_answer fun current _ => ?_
  refine confined_query rfl rfl fun o t _ _ => safe_foundOr confined_answer fun maxVersion _ => ?_
  refine safe_write (fun _ _ _ => CallMine.pre rfl ⟨rfl, fun id => ⟨rfl, ⟨_, rfl⟩, rfl⟩⟩) ?_
  intro o a w db' _ _ _ hrun _
  refine safe_foundOr confined_answer fun file ha => confined_presignUpload rfl ?_
  obtain ⟨rfl, -⟩ | ⟨-, -, -, rfl, -⟩ := Write.presignVersion_cases hrun
  · cases ha
  · obtain rfl := Except.ok.inj ha
    exact Or.inl ⟨_, _, rfl⟩

theorem confined_tusPreCreate (upload : Upload) :
    Confined deps (.tusPreCreate (some userID) upload) (tusPreCreate (some userID) upload .ret) s := by
  refine safe_exitIf (fun _ => trivial) fun _ => ?_
  refine confined_reads rfl (tusCheckFolder _ _) (reads_tusCheckFolder _ _) fun _ t _ => ?_
  refine confined_reads rfl (checkQuota _ _) (reads_checkQuota _ _) fun a t _ => ?_
  match a with
  | .error (.exceeded _) => trivial
  | .error .other => trivial
  | .ok () =>
    refine confined_call rfl (fun _ _ => ?_) fun _ _ _ => trivial
    -- Whatever the client has sent as `user_id`, the hook writes over it.
    show UUID.parse _ = some userID
    rw [MetaData.get_set, UUID.parse_string]

theorem confined_finishTusUpload {upload : Upload} (huser : upload.user = some userID) :
    Confined deps (.finishTusUpload upload) (finishTusUpload upload .ret) s := by
  have hparse : UUID.parse (upload.metaData.get (lit "user_id")) = some userID := huser
  have hq : (Request.finishTusUpload upload).user = some userID := huser
  unfold finishTusUpload
  rw [hparse]
  refine safe_exitIf (fun _ => trivial) fun _ => confined_call hq (fun _ _ => trivial) fun a t _ => ?_
  cases a with
  | none => trivial
  | some body =>
    refine confined_call hq (fun _ _ => trivial) fun fileID u _ => ?_
    refine confined_bucket hq (fun key hkey => Or.inl ⟨fileID, _, hkey.symm⟩) fun stored v _ => ?_
    refine safe_exitIf (fun _ => trivial) fun _ => ?_
    refine confined_write hq (fun _ => ⟨rfl, ⟨_, rfl⟩, rfl⟩) fun a w _ => ?_
    cases a with
    | error e => trivial
    | ok file =>
      refine confined_enqueueOrLog hq fun _ _ => ?_
      exact confined_call hq (fun _ _ => trivial) fun _ _ _ =>
        confined_call hq (fun _ _ => trivial) fun _ _ _ => trivial

/-- A download is of one of the row's keys. -/
theorem confined_downloadKey {q : Request} {file : File} {variant : GoString}
    {k : GoString → Prog Stmt Reply} (h : ∀ key, file.HasKey key → Confined deps q (k key) s) :
    Confined deps q (downloadKey file variant k) s := by
  unfold downloadKey
  rw [Code.ite_run]
  split
  · cases hkey : file.thumbnailKey with
    | none => trivial
    | some key => exact h key (Or.inr (Or.inl hkey))
  · exact safe_failIf confined_answer fun _ => h _ (Or.inl rfl)

theorem confined_downloadURL (id variant : GoString) :
    Confined deps (.downloadURL userID id variant) (downloadURL userID id variant .ret) s := by
  refine safe_parseID confined_answer fun fileID _ => confined_query rfl rfl fun o t _ ht => ?_
  refine safe_found confined_answer fun file hf => confined_downloadKey fun key hkey => ?_
  obtain ⟨hmem, -, huser⟩ := Query.file_ok hf
  refine confined_bucket rfl (fun _ hnames => hnames ▸ keyOf_row ht hmem huser key hkey) fun url u _ => ?_
  cases url with
  | none => trivial
  | some url => exact confined_call rfl (fun _ _ => trivial) fun _ _ _ => trivial

theorem confined_hlsAsset (id asset : GoString) :
    Confined deps (.hlsAsset userID id asset) (hlsAsset userID id asset .ret) s := by
  refine safe_parseID confined_answer fun fileID _ => confined_query rfl rfl fun o t _ ht => ?_
  refine safe_found confined_answer fun file hf => safe_failIf confined_answer fun _ => ?_
  obtain ⟨hmem, -, huser⟩ := Query.file_ok hf
  -- A cleaned path begins with a slash, so the key is one under the file's prefix.
  have hkey : KeyOf t userID (assetKey file.id (GoPath.cleanRooted asset)) := by
    obtain ⟨name, hname⟩ := GoPath.cleanRooted_eq asset
    refine keyOf_row ht hmem huser _ (Or.inr (Or.inr ⟨name, ?_⟩))
    rw [hname, hlsPrefix, assetKey, List.append_assoc]
  refine safe_failIf confined_answer fun _ => ?_
  refine confined_bucket rfl (fun _ hnames => hnames ▸ hkey) fun opened u htu => ?_
  refine safe_failIf confined_answer fun _ => ?_
  exact confined_bucket rfl (fun _ hnames => hnames ▸ hkey.mono htu) fun _ _ _ => trivial

/-! ### Folders and files -/

theorem confined_createFolder (body : Option FolderRequest) :
    Confined deps (.createFolder userID body) (createFolder userID body .ret) s := by
  refine safe_decodeBody confined_answer fun req _ => safe_failIf confined_answer fun _ => ?_
  refine confined_reads rfl (ownedParentID _ _) (reads_ownedParentID _ _) fun parentID t _ => ?_
  refine confined_write rfl rfl fun a u _ => ?_
  exact safe_foundOr confined_answer fun _ _ => trivial

/-- A move leaves the user of a folder alone. -/
theorem confined_moveFolder {q : Request} (hq : q.user = some userID) {id : UUID} {steps : ℕ}
    {folder : Folder} {parentID : Option GoString} {k : Folder → Prog Stmt Reply}
    (h : ∀ f t, f.userID = folder.userID → Confined deps q (k f) t) :
    Confined deps q (moveFolder userID id steps folder parentID k) s := by
  match parentID with
  | none => exact h folder s rfl
  | some [] => exact h _ s rfl
  | some (c :: text) =>
    refine safe_parseID confined_answer fun p _ => confined_query hq rfl fun o t _ _ => ?_
    refine safe_foundOr confined_answer fun parent _ => ?_
    refine confined_reads hq (isDescendant _ _ _ _) (reads_isDescendant _ _ _ _) fun b u _ => ?_
    refine safe_foundOr confined_answer fun cyclic _ => safe_failIf confined_answer fun _ => ?_
    exact h _ u rfl

theorem confined_updateFolder (id : GoString) (body : Option FolderRequest) (steps : ℕ) :
    Confined deps (.updateFolder userID id body steps) (updateFolder userID id body steps .ret) s := by
  refine safe_parseID confined_answer fun folderID _ => confined_query rfl rfl fun o t _ _ => ?_
  refine safe_foundOr confined_answer fun folder hf => safe_decodeBody confined_answer fun req _ => ?_
  obtain ⟨-, -, huser⟩ := Query.folder_ok hf
  have hrenamed : (if req.name ≠ [] then { folder with name := req.name } else folder).userID =
      folder.userID := by
    split <;> rfl
  refine confined_moveFolder rfl fun f u hf => ?_
  refine confined_write rfl ((hf.trans hrenamed).trans huser) fun a v _ => ?_
  exact safe_foundOr confined_answer fun _ _ => trivial

theorem confined_renameFile {q : Request} {file : File} {name : Option GoString}
    {k : File → Prog Stmt Reply} (hf : WriteMine userID (.saveFile file))
    (h : ∀ f, WriteMine userID (.saveFile f) → Confined deps q (k f) s) :
    Confined deps q (renameFile file name k) s := by
  match name with
  | none => exact h file hf
  | some [] => trivial
  | some (c :: name) => exact h _ hf

theorem confined_moveFile {q : Request} (hq : q.user = some userID) {file : File}
    {folderID : Option GoString} {k : File → Prog Stmt Reply} (hf : WriteMine userID (.saveFile file))
    (h : ∀ f t, WriteMine userID (.saveFile f) → Confined deps q (k f) t) :
    Confined deps q (moveFile userID file folderID k) s := by
  match folderID with
  | none => exact h file s hf
  | some [] => exact h _ s hf
  | some (c :: text) =>
    refine safe_parseID confined_answer fun id _ => confined_query hq rfl fun o t _ _ => ?_
    exact safe_foundOr confined_answer fun _ _ => h _ t hf

theorem confined_updateFile (id : GoString) (body : Option FileUpdateRequest) :
    Confined deps (.updateFile userID id body) (updateFile userID id body .ret) s := by
  refine safe_parseID confined_answer fun fileID _ => confined_query rfl rfl fun o t _ ht => ?_
  refine safe_foundOr confined_answer fun file hf => safe_decodeBody confined_answer fun req _ => ?_
  obtain ⟨hmem, -, huser⟩ := Query.file_ok hf
  refine confined_renameFile ⟨huser, ht.2.2.thumbnail file hmem⟩ fun f₁ h₁ => ?_
  refine confined_moveFile rfl h₁ fun f₂ u h₂ => confined_write rfl h₂ fun a v _ => ?_
  exact safe_foundOr confined_answer fun _ _ => trivial

/-! ### Deleting -/

/-- A listing has only keys with the prefix. -/
theorem isPrefix_of_listed {keyPrefix : GoString} {o : Oracle} {s s' : Store} {keys : List GoString}
    (hx : exec o (.bucket (.listObjects keyPrefix)) s = some (some keys, s')) {key : GoString}
    (hkey : key ∈ keys) : keyPrefix <+: key := by
  obtain ⟨hrun, -⟩ := Prod.mk.inj (Option.some.inj hx)
  simp only [BucketStmt.run] at hrun
  split at hrun
  · cases hrun
  · obtain rfl := Option.some.inj hrun
    exact List.isPrefixOf_iff_prefix.1 (List.mem_filter.1 hkey).2

section Delete

variable {q : Request} (hq : q.user = some userID)
include hq

theorem confined_removeObjects {k : Unit → Prog Stmt Reply} (keys : List GoString)
    (hkeys : ∀ key ∈ keys, KeyOf s userID key) (h : ∀ t, Grows s t → Confined deps q (k ()) t) :
    Confined deps q (removeObjects keys k) s := by
  induction keys generalizing s with
  | nil => exact h s (.refl s)
  | cons key keys ih =>
    refine confined_bucket hq (fun _ hnames => hnames ▸ hkeys key List.mem_cons_self) fun a t hst => ?_
    exact ih (fun key' hkey' => (hkeys key' (List.mem_cons_of_mem _ hkey')).mono hst)
      fun u htu => h u (hst.trans htu)

/-- What is removed with a file is the user's. -/
theorem confined_cleanupFileObjects {file : File} {k : Unit → Prog Stmt Reply}
    (hfile : ∀ key, file.HasKey key → KeyOf s userID key)
    (h : ∀ t, Grows s t → Confined deps q (k ()) t) :
    Confined deps q (cleanupFileObjects file k) s := by
  have hrow : ∀ key ∈ file.storageKey :: file.thumbnailKey.toList, KeyOf s userID key := by
    intro key hkey
    rcases List.mem_cons.1 hkey with rfl | hkey
    · exact hfile _ (Or.inl rfl)
    · exact hfile key (Or.inr (Or.inl (Option.mem_toList.1 hkey)))
  unfold cleanupFileObjects
  rw [Code.ite_run]
  split
  · refine safe_call (fun t hst _ => CallMine.pre hq fun key hkey =>
      (hfile key (Or.inr (Or.inr hkey))).mono hst) fun a t o u hst _ _ hx _ => ?_
    have hsu := hst.trans (exec_grows hx)
    cases a with
    | none =>
      exact confined_removeObjects hq _ (fun key hkey => (hrow key hkey).mono hsu) fun v huv =>
        h v (hsu.trans huv)
    | some hlsKeys =>
      refine confined_removeObjects hq _ (fun key hkey => KeyOf.mono hsu ?_) fun v huv =>
        h v (hsu.trans huv)
      rcases List.mem_append.1 hkey with hkey | hkey
      · exact hrow key hkey
      · exact hfile key (Or.inr (Or.inr (isPrefix_of_listed hx hkey)))
  · exact confined_removeObjects hq _ hrow h

theorem confined_cleanupFiles {k : Unit → Prog Stmt Reply} (versions : List File)
    (hversions : ∀ f ∈ versions, ∀ key, f.HasKey key → KeyOf s userID key)
    (h : ∀ t, Confined deps q (k ()) t) : Confined deps q (cleanupFiles versions k) s := by
  induction versions generalizing s with
  | nil => exact h s
  | cons file versions ih =>
    refine confined_cleanupFileObjects hq (hversions file List.mem_cons_self) fun t hst => ?_
    exact ih fun f hf key hkey => (hversions f (List.mem_cons_of_mem _ hf) key hkey).mono hst

end Delete

theorem confined_deleteFile (id : GoString) :
    Confined deps (.deleteFile userID id) (deleteFile userID id .ret) s := by
  refine safe_parseID confined_answer fun fileID _ => confined_query rfl rfl fun o t _ _ => ?_
  refine safe_foundOr confined_answer fun file _ => ?_
  refine safe_write (fun _ _ _ => CallMine.pre rfl rfl) fun o a u db' _ hu _ hrun _ => ?_
  refine safe_foundOr confined_answer fun versions ha => ?_
  refine confined_cleanupFiles rfl versions (fun f hf key hkey => ?_) fun _ => trivial
  obtain ⟨he, -⟩ | ⟨he, rfl⟩ := Write.deleteFile_cases hrun
  · cases ha.symm.trans he
  · obtain rfl := Except.ok.inj (ha.symm.trans he)
    obtain ⟨hmem, hin⟩ := DB.mem_lineageFiles.1 hf
    exact (keyOf_row hu hmem (DB.inLineage_iff.1 hin).1 key hkey).mono (Write.run_grows hrun)

theorem confined_deleteFolder (id : GoString) :
    Confined deps (.deleteFolder userID id) (deleteFolder userID id .ret) s := by
  refine safe_parseID confined_answer fun folderID _ => confined_query rfl rfl fun o t _ _ => ?_
  refine safe_foundOr confined_answer fun folder _ => ?_
  refine safe_write (fun _ _ _ => CallMine.pre rfl rfl) fun o a u db' _ hu _ hrun _ => ?_
  refine safe_foundOr confined_answer fun versions ha => ?_
  refine confined_cleanupFiles rfl versions (fun f hf key hkey => ?_) fun _ => trivial
  obtain ⟨he, -⟩ | ⟨versions', he, hd⟩ := Write.deleteFolder_cases hrun
  · cases ha.symm.trans he
  · obtain rfl := Except.ok.inj (ha.symm.trans he)
    have hmem := (DB.removes_deleteFolderTree hd).mem f hf
    exact (keyOf_row hu hmem ((DB.sameOthers_deleteFolderTree hd).2 f hf) key hkey).mono
      (Write.run_grows hrun)

/-! ### Versions and share links -/

theorem confined_restoreFileVersion (id versionID : GoString) :
    Confined deps (.restoreFileVersion userID id versionID)
      (restoreFileVersion userID id versionID .ret) s := by
  refine safe_parseID confined_answer fun fileID _ => safe_parseID confined_answer fun targetID _ => ?_
  refine confined_query rfl rfl fun o t _ _ => safe_foundOr confined_answer fun file _ => ?_
  refine confined_query rfl rfl fun o t _ _ => safe_found confined_answer fun target _ => ?_
  refine safe_failIf confined_answer fun _ => confined_write rfl rfl fun a u _ => ?_
  exact safe_foundOr confined_answer fun _ _ => trivial

theorem confined_sharePasswordHash {q : Request} (hq : q.user = some userID)
    {password : Option GoString} {k : Option GoString → Prog Stmt Reply}
    (h : ∀ hash t, Confined deps q (k hash) t) : Confined deps q (sharePasswordHash password k) s := by
  match password with
  | none => exact h none s
  | some [] => exact h none s
  | some (c :: rest) =>
    refine confined_call hq (fun _ _ => trivial) fun a t _ => ?_
    cases a with
    | none => trivial
    | some hash => exact h (some hash) t

theorem confined_createShare (id : GoString) (req : ShareCreateRequest) :
    Confined deps (.createShare userID id req) (createShare userID id req .ret) s := by
  refine safe_parseID confined_answer fun fileID _ => confined_query rfl rfl fun o t _ _ => ?_
  refine safe_foundOr confined_answer fun file _ => ?_
  refine confined_call rfl (fun _ _ => trivial) fun generated t _ => safe_failIf confined_answer fun _ => ?_
  refine confined_reads rfl (shareExpiry _) (reads_shareExpiry _ _) fun expiresAt t _ => ?_
  refine confined_reads rfl (shareLimit _) (reads_shareLimit _ _) fun maxDownloads t _ => ?_
  refine confined_sharePasswordHash rfl fun hash t => confined_write rfl rfl fun a u _ => ?_
  exact safe_foundOr confined_answer fun _ _ => trivial

theorem confined_deleteShare (id : GoString) :
    Confined deps (.deleteShare userID id) (deleteShare userID id .ret) s := by
  refine safe_parseID confined_answer fun shareID _ => confined_write rfl rfl fun a t _ => ?_
  exact safe_foundOr confined_answer fun _ _ => safe_failIf confined_answer fun _ => trivial

/-- The names are looked up without a user filter. -/
theorem confined_shareResponses {q : Request} (hq : q.user = some userID) (shares : List Share)
    (fileNames : List (UUID × GoString)) {k : List ShareResponse → Prog Stmt Reply}
    (hshares : ∀ sh ∈ shares, FileIDKnown s userID sh.fileID) (h : ∀ a t, Confined deps q (k a) t) :
    Confined deps q (shareResponses shares fileNames k) s := by
  induction shares generalizing fileNames k s with
  | nil => exact h [] s
  | cons share shares ih =>
    have hrest : ∀ t, Grows s t → ∀ sh ∈ shares, FileIDKnown t userID sh.fileID := fun t hst sh hsh =>
      (hshares sh (List.mem_cons_of_mem _ hsh)).mono hst
    unfold shareResponses
    cases fileNames.lookup share.fileID with
    | some name => exact ih fileNames (hrest s (.refl s)) fun rest => h _
    | none =>
      refine confined_call hq (fun t hst => (hshares share List.mem_cons_self).mono hst) fun a t hst => ?_
      exact ih _ (hrest t hst) fun rest => h _

theorem confined_listShares : Confined deps (.listShares userID) (listShares userID .ret) s := by
  refine confined_query rfl rfl fun o t _ ht => safe_foundOr confined_answer fun shares ha => ?_
  refine confined_shareResponses rfl shares [] (fun sh hsh => ?_) fun _ _ => trivial
  obtain rfl : t.db.userShares userID = shares := Except.ok.inj (Query.eval_of_ok ha)
  obtain ⟨hmem, huser⟩ := List.mem_filter.1 (List.mem_reverse.1 hsh)
  rw [decide_eq_true_iff] at huser
  exact huser ▸ ht.2.1.share sh hmem

/-- A request of nobody that places no file. -/
theorem confined_of_nobody {q : Request} (hq : q.user = none) (hplaces : q.places = false)
    (p : Prog Stmt Reply) (s : Store) : Confined deps q p s := by
  refine Outline.safe_of_trivial (L := confinement deps) (fun _ _ => ⟨fun h => ?_, fun _ h => ?_⟩)
    (fun _ => trivial) p s
  · cases hplaces.symm.trans h
  · cases hq.symm.trans h

/-- **A request makes its user's calls only**, whatever runs in between. -/
theorem confined_handler {q : Request} {s₀ : Store} (hq : q.launch s₀ = some s) :
    Confined deps q (q.handler deps .ret) s := by
  cases q with
  | presign u body => exact confined_presign body
  | complete u id => exact confined_complete id
  | presignVersion u id body => exact confined_presignVersion id body
  | tusPreCreate u upload =>
    cases u with
    | none => trivial
    | some u => exact confined_tusPreCreate upload
  | finishTusUpload upload =>
    cases huser : upload.user with
    | some u => exact confined_finishTusUpload huser
    | none =>
      have hparse : UUID.parse (upload.metaData.get (lit "user_id")) = none := huser
      show Confined deps _ (finishTusUpload upload .ret) s
      unfold finishTusUpload
      rw [hparse]
      trivial
  | downloadURL u id variant => exact confined_downloadURL id variant
  | hlsAsset u id asset => exact confined_hlsAsset id asset
  | createFolder u body => exact confined_createFolder body
  | updateFolder u id body steps => exact confined_updateFolder id body steps
  | deleteFolder u id => exact confined_deleteFolder id
  | updateFile u id body => exact confined_updateFile id body
  | deleteFile u id => exact confined_deleteFile id
  | restoreFileVersion u id versionID => exact confined_restoreFileVersion id versionID
  | createShare u id req => exact confined_createShare id req
  | deleteShare u id => exact confined_deleteShare id
  | listShares u => exact confined_listShares
  | listFiles u folderParam => exact confined_reads rfl _ (reads_listFiles u folderParam) fun _ _ _ => trivial
  | listFolders u parentParam =>
    exact confined_reads rfl _ (reads_listFolders u parentParam) fun _ _ _ => trivial
  | getFolder u id => exact confined_reads rfl _ (reads_getFolder u id) fun _ _ _ => trivial
  | getFile u id => exact confined_reads rfl _ (reads_getFile u id) fun _ _ _ => trivial
  | fileStats u => exact confined_reads rfl _ (reads_fileStats u) fun _ _ _ => trivial
  | listFileVersions u id => exact confined_reads rfl _ (reads_listFileVersions u id) fun _ _ _ => trivial
  | listFileShares u id => exact confined_reads rfl _ (reads_listFileShares u id) fun _ _ _ => trivial
  | shareDownloadURL token body => exact confined_of_nobody rfl rfl _ _
  | getPublicShare token => exact confined_of_nobody rfl rfl _ _
  | deliver worker msg => exact confined_of_nobody rfl rfl _ _

end Handlers

/-! ## Runs -/

theorem confinement_valid (deps : Deps) :
    (((provenance deps).inf (links deps)).inf (confinement deps)).Valid where
  rely_refl s := ⟨(links_valid deps).rely_refl s, .refl s⟩
  rely_trans h h' := ⟨(links_valid deps).rely_trans h.1 h'.1, h.2.trans h'.2⟩
  start hc h hq := by
    obtain ⟨hi, hrely⟩ := (links_valid deps).start hc.1 h.1 hq
    have hdb := (launch_cases hq).1
    exact ⟨⟨hi, hi.1, hi.2.2, h.2.2.2.of_db_eq hdb⟩, hrely, .of_db_eq hdb⟩
  safe hc h hq hi := ((links_valid deps).safe hc.1 h.1 hq hi.1).inf (confined_handler hq)
  call h hpre hc hx := by
    obtain ⟨hi, hrely⟩ := (links_valid deps).call h.1 hpre.1 hc.1 hx
    rw [services_exec] at hx
    exact ⟨⟨hi, hi.1, hi.2.2, h.2.2.2.exec h.2.1 hpre.1.1 hpre.2 hx⟩, hrely, exec_grows hx⟩
  env hc h hv := by
    obtain ⟨hi, hrely⟩ := (links_valid deps).env hc.1 h.1 hv
    have hdb := (env_cases hv).1
    exact ⟨⟨hi, hi.1, hi.2.2, h.2.2.2.of_db_eq hdb⟩, hrely, .of_db_eq hdb⟩

/-- A call of a user's request asks about nothing but what is the user's, and leaves what is of others
alone. -/
def Confines : ServiceStep → Prop
  | .call s q o e a => ∀ userID, q.user = some userID → AsksOwn s userID e ∧
      ∃ s', exec o e s = some (a, s') ∧ Isolated userID s s'
  | _ => True

/-- **Users stay apart, whatever runs at once**: so does every call of every interleaving. -/
theorem users_confined (deps : Deps) (users : Table User) {c : Services}
    (h : (services deps).Reaches Machine.anySchedule (start (Store.fresh users)) c) :
    ∀ st ∈ c.trace, Confines st := by
  have hfresh : Named (Store.fresh users) :=
    ⟨fun _ hb => absurd hb List.not_mem_nil, fun _ hf => absurd hf Table.not_mem_empty⟩
  have hwf := wellFormed_fresh users
  have hlinked := linked_fresh users
  refine (confinement_valid deps).carry (J := fun tr _ => ∀ st ∈ tr, Confines st) h
    (Outline.good_init ⟨⟨hwf, hwf, hlinked⟩, hwf, hlinked, hfresh⟩)
    (fun _ _ => ⟨⟨trivial, trivial⟩, trivial⟩) (fun _ hst => absurd hst List.not_mem_nil) ?_ ?_ ?_
  · exact fun hJ _ _ _ => List.forall_mem_cons.2 ⟨trivial, hJ⟩
  · rintro tr q o α e a s s' hJ ⟨-, hw, -, hn⟩ ⟨⟨hknown, -⟩, hpre⟩ - hx
    refine List.forall_mem_cons.2 ⟨fun userID huser => ?_, hJ⟩
    have hmine := hpre.2 userID huser
    exact ⟨hmine.asksOwn hw, s', hx, hmine.isolated hw hn hknown hx⟩
  · exact fun hJ _ _ _ => List.forall_mem_cons.2 ⟨trivial, hJ⟩

/-- Bob renames a folder that he deletes meanwhile, and Alice makes one. -/
def renameDeleted : List (Move Request Oracle EnvMove) :=
  [.start (.createFolder 2 (some ⟨lit "B", none⟩)), .step 0 { uuid := 201 },
    .start (.updateFolder 2 (text 201) (some ⟨lit "C", none⟩) 5), .step 1 {},
    .start (.deleteFolder 2 (text 201)), .step 2 {}, .step 2 { fuel := 3 },
    .start (.createFolder 1 (some ⟨lit "A", none⟩)), .step 3 { uuid := 200 }, .step 1 {}]

theorem users_confined_renameDeleted : ∃ c : Services,
    c.store.db.folders.rows.map (fun f => (f.userID, f.name)) = [(1, lit "A"), (2, lit "C")] ∧
      ∀ st ∈ c.trace, Confines st := by
  obtain ⟨c, hc, hP⟩ := Machine.exists_reaches (services plainDeps) Machine.anySchedule
    (start (Store.fresh aliceAndBob))
    (fun c => c.store.db.folders.rows.map (fun f => (f.userID, f.name)) = [(1, lit "A"), (2, lit "C")])
    renameDeleted (by decide +kernel)
  exact ⟨c, of_decide_eq_true hP, users_confined plainDeps aliceAndBob hc⟩

end Optiflow
