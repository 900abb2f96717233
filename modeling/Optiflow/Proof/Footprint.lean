import Optiflow.Model.Services

/-!
# What the pieces of the handlers call

Most helpers of the handlers make no call (`Silent`), only read (`Reads`, and with the bucket and the
tools `Looks`; `Reads` and `Asks` say whose rows) or make only `Plain` calls: nothing is written to the
database or to the queue.  One lemma for each such helper.
-/

namespace Optiflow

open Interleave Code UploadSvc ApiSvc Workers

variable {α β : Type}

/-- The call puts an object, or makes a URL for putting one. -/
def BucketStmt.puts : BucketStmt α → Bool
  | .presignedPutURL _ _ => true
  | .putObject _ _ _ _ => true
  | _ => false

/-- The call makes a resumable upload. -/
def StagingStmt.creates : StagingStmt α → Bool
  | .create _ => true
  | _ => false

/-- A call that writes neither to the database nor to the queue, draws no id and makes no resumable
upload.  It may put objects only where `puts` says so. -/
def Plain (puts : Bool) : Stmt α → Prop
  | .write _ => False
  | .broker _ => False
  | .newUUID => False
  | .bucket b => b.puts = true → puts = true
  | .staging st => st.creates = false
  | _ => True

/-- The query is about what one user owns. -/
def Query.isOf (userID : UUID) : Query α → Prop
  | .storageQuota u => u = userID
  | .sumSizes u => u = userID
  | .folder _ u => u = userID
  | .folderParent _ u => u = userID
  | .folders u _ => u = userID
  | .file _ u => u = userID
  | .files u _ => u = userID
  | .currentVersion u _ => u = userID
  | .maxVersion u _ => u = userID
  | .versions u _ => u = userID
  | .allFiles u => u = userID
  | .shares u => u = userID
  | .fileShares _ u => u = userID
  | .fileByID _ => False
  | .share _ => False

/-- A call that only reads: a query about what the user owns, or the clock. -/
def Stmt.reads (userID : UUID) : Stmt α → Prop
  | .query q => q.isOf userID
  | .now => True
  | _ => False

/-- The answer does not depend on what is in the bucket. -/
def BucketStmt.isSealed : BucketStmt α → Bool
  | .presignedGetURL _ _ => true
  | .getObject _ => true
  | _ => false

/-- A call that changes nothing and tells of no row but the user's. -/
def Stmt.asks (userID : UUID) : Stmt α → Prop
  | .query q => q.isOf userID
  | .now => True
  | .tool _ => True
  | .bucket b => b.isSealed = true
  | _ => False

/-- The call changes no object and makes no URL for putting one. -/
def BucketStmt.looks : BucketStmt α → Bool
  | .presignedPutURL _ _ => false
  | .putObject _ _ _ _ => false
  | .removeObject _ => false
  | _ => true

/-- A call that changes nothing: it reads, or runs a tool. -/
def Stmt.looks : Stmt α → Prop
  | .query _ => True
  | .now => True
  | .tool _ => True
  | .bucket b => b.looks = true
  | _ => False

/-- A call that runs a tool or puts an object. -/
def Stmt.publishes : Stmt α → Prop
  | .tool _ => True
  | .bucket (.putObject _ _ _ _) => True
  | _ => False

/-- Code that makes no call, and may answer early. -/
abbrev Silent (c : Handler α) : Prop := c.Over (fun _ => False) fun _ => True

/-- Code that only reads what the user owns, and may answer early. -/
abbrev Reads (userID : UUID) (c : Handler α) : Prop := c.Over (Stmt.reads userID) fun _ => True

/-- Code that changes nothing and tells of no row but the user's, and may answer early. -/
abbrev Asks (userID : UUID) (c : Handler α) : Prop := c.Over (Stmt.asks userID) fun _ => True

/-- Code that changes nothing, and may answer early. -/
abbrev Looks (c : Handler α) : Prop := c.Over Stmt.looks fun _ => True

/-- Code of plain calls, that may answer early. -/
abbrev Inert (puts : Bool) (c : Handler α) : Prop := c.Over (Plain puts) fun _ => True

/-- Code of plain calls that does not answer. -/
abbrev Passing (puts : Bool) (c : Handler α) : Prop := c.Over (Plain puts) fun _ => False

variable {puts : Bool} {userID : UUID}

theorem Stmt.reads.asks {e : Stmt α} (h : e.reads userID) : e.asks userID := by
  cases e with
  | query q => exact h
  | now => trivial
  | _ => exact h.elim

theorem Stmt.asks.looks {e : Stmt α} (h : e.asks userID) : e.looks := by
  cases e with
  | query q => trivial
  | now => trivial
  | tool t => trivial
  | bucket b =>
    cases b with
    | presignedGetURL key expiry => rfl
    | getObject key => rfl
    | _ => cases h
  | _ => exact h.elim

theorem Stmt.looks.plain {e : Stmt α} (h : e.looks) : Plain puts e := by
  cases e with
  | bucket b =>
    intro hputs
    cases b with
    | presignedPutURL key expiry => cases h
    | putObject key body size contentType => cases h
    | _ => cases hputs
  | query q => trivial
  | now => trivial
  | tool t => trivial
  | _ => exact h.elim

theorem Stmt.publishes.plain {e : Stmt α} (h : e.publishes) : Plain true e := by
  cases e with
  | bucket b => exact fun _ => rfl
  | tool t => trivial
  | _ => exact h.elim

theorem exec_looks {e : Stmt α} {o : Oracle} {s s' : Store} {a : α} (he : e.looks)
    (hx : exec o e s = some (a, s')) : s' = s := by
  cases e with
  | bucket b =>
    cases b with
    | presignedPutURL key expiry => cases he
    | putObject key body size contentType => cases he
    | removeObject key => cases he
    | _ => exact (Prod.mk.inj (Option.some.inj hx)).2.symm
  | query q => exact (Prod.mk.inj (Option.some.inj hx)).2.symm
  | now => exact (Prod.mk.inj (Option.some.inj hx)).2.symm
  | tool t => exact (Prod.mk.inj (Option.some.inj hx)).2.symm
  | _ => exact he.elim

theorem services_looks {deps : Deps} {e : Stmt α} {o : Oracle} {s s' : Store} {a : α} (he : e.looks)
    (hx : (services deps).exec o e s = some (a, s')) : s' = s := by
  rw [services_exec] at hx
  exact exec_looks he hx

/-- Silent code is code over calls of any kind. -/
theorem Silent.over {φ : {β : Type} → Stmt β → Prop} {c : Handler α} (h : Silent c) :
    c.Over φ fun _ => True :=
  h.mono (fun _ he => he.elim) fun _ _ => trivial

theorem Reads.asks {c : Handler α} (h : Reads userID c) : Asks userID c :=
  h.mono (fun _ he => he.asks) fun _ _ => trivial

theorem Asks.looks {c : Handler α} (h : Asks userID c) : Looks c :=
  h.mono (fun _ he => he.looks) fun _ _ => trivial

theorem Reads.looks {c : Handler α} (h : Reads userID c) : Looks c := h.asks.looks

theorem Reads.inert {c : Handler α} (h : Reads userID c) : Inert puts c :=
  h.looks.mono (fun _ he => he.plain) fun _ _ => trivial

theorem Looks.inert {c : Handler α} (h : Looks c) : Inert puts c :=
  h.mono (fun _ he => he.plain) fun _ _ => trivial

theorem Passing.inert {c : Handler α} (h : Passing puts c) : Inert puts c :=
  h.mono (fun _ he => he) fun _ hr => hr.elim

section

variable {ρ : Reply → Prop}

theorem over_query (q : Query α) : (query q).Over (Plain puts) ρ := over_call trivial

theorem over_bucket (b : BucketStmt α) (h : b.puts = true → puts = true) :
    (bucket b).Over (Plain puts) ρ := over_call h

theorem over_tool (t : ToolStmt α) : (tool t).Over (Plain puts) ρ := over_call trivial

theorem over_staging (st : StagingStmt α) (h : st.creates = false) :
    (staging st).Over (Plain puts) ρ := over_call h

theorem over_timeNow : timeNow.Over (Plain puts) ρ := over_call trivial

end

/-! ## Answers -/

theorem silent_fail (status : ℕ) (message : String) : Silent (fail status message : Handler α) :=
  over_exit trivial

theorem silent_failIf (p : Prop) [Decidable p] (status : ℕ) (message : String) :
    Silent (failIf p status message) :=
  over_ite (over_exit trivial) (over_pure ())

theorem silent_parseID (text : GoString) (message : String) : Silent (parseID text message) := by
  unfold parseID
  cases UUID.parse text with
  | none => exact (silent_fail _ _).over
  | some id => exact over_pure id

theorem silent_decodeBody (body : Option α) : Silent (decodeBody body) := by
  cases body with
  | none => exact (silent_fail _ _).over
  | some req => exact over_pure req

theorem silent_found {missing internal : String} (a : Except DbError α) :
    Silent (found missing internal a) := by
  match a with
  | .ok x => exact over_pure x
  | .error .recordNotFound => exact (silent_fail _ _).over
  | .error .other => exact (silent_fail _ _).over

theorem silent_foundOr {status : ℕ} {message : String} (a : Except DbError α) :
    Silent (foundOr status message a) := by
  cases a with
  | ok x => exact over_pure x
  | error e => exact (silent_fail _ _).over

/-! ## upload-svc -/

theorem silent_orQuotaError (a : Except QuotaError Unit) : Silent (orQuotaError a) := by
  match a with
  | .ok () => exact over_pure ()
  | .error (.exceeded _) => exact (silent_fail _ _).over
  | .error .other => exact (silent_fail _ _).over

theorem reads_checkQuota (userID : UUID) (incomingBytes : Int64) :
    Reads userID (checkQuota userID incomingBytes) := by
  refine over_bind (over_call rfl) fun a => ?_
  cases a with
  | error e => exact over_pure _
  | ok storageQuotaBytes =>
    refine over_bind (over_call rfl) fun b => ?_
    cases b with
    | error e => exact over_pure _
    | ok used => exact over_ite (over_pure _) (over_pure _)

theorem inert_presignUpload (file : File) : Inert true (presignUpload file) := by
  refine over_bind (over_bucket _ fun _ => rfl) fun a => ?_
  cases a with
  | none => exact (silent_fail _ _).over
  | some url => exact over_bind over_timeNow fun _ => over_pure _

theorem reads_ownedFolderID (userID : UUID) (folderID : Option GoString) :
    Reads userID (ownedFolderID userID folderID) := by
  match folderID with
  | none => exact over_pure none
  | some [] => exact over_pure none
  | some (c :: text) =>
    exact over_bind (silent_parseID _ _).over fun id => over_bind (over_call rfl) fun a =>
      over_bind (silent_foundOr a).over fun _ => over_pure (some id)

theorem reads_tusCheckFolder (userID : UUID) (text : GoString) :
    Reads userID (tusCheckFolder userID text) := by
  refine over_ite (over_pure ()) ?_
  cases UUID.parse text with
  | none => exact over_exit trivial
  | some folderID =>
    refine over_bind (over_call rfl) fun a => ?_
    cases a with
    | error e => exact over_exit trivial
    | ok folder => exact over_pure ()

theorem silent_checkPassword (verify : GoString → GoString → Bool) (body hash : Option GoString) :
    Silent (checkPassword verify body hash) := by
  cases hash with
  | none => exact over_pure ()
  | some hash => exact over_bind (silent_decodeBody body).over fun _ => (silent_failIf _ _ _).over

theorem looks_resolveActiveShare (token : GoString) : Looks (resolveActiveShare token) := by
  refine over_bind (over_call trivial) fun a => ?_
  cases a with
  | error e => exact over_pure _
  | ok share =>
    dsimp only
    cases share.expiresAt with
    | none => exact over_pure _
    | some expiresAt => exact over_bind (over_call trivial) fun _ => over_pure _

/-! ## api-svc -/

theorem silent_queryID (text : GoString) (message : String) : Silent (queryID text message) :=
  over_ite (over_pure none) (over_bind (silent_parseID _ _).over fun _ => over_pure _)

theorem reads_isDescendant (userID folderID : UUID) :
    ∀ (steps : ℕ) (current : UUID), Reads userID (isDescendant userID folderID steps current)
  | 0, _ => over_exit trivial
  | steps + 1, current => by
    refine over_ite (over_pure _) (over_bind (over_call rfl) fun a => ?_)
    match a with
    | .error .recordNotFound => exact over_pure _
    | .error .other => exact over_pure _
    | .ok none => exact over_pure _
    | .ok (some parentID) => exact reads_isDescendant userID folderID steps parentID

theorem reads_ownedParentID (userID : UUID) (parentID : Option GoString) :
    Reads userID (ownedParentID userID parentID) := by
  cases parentID with
  | none => exact over_pure none
  | some text =>
    exact over_bind (silent_parseID _ _).over fun id => over_bind (over_call rfl) fun a =>
      over_bind (silent_foundOr a).over fun _ => over_pure (some id)

theorem reads_moveFolder (userID id : UUID) (steps : ℕ) (folder : Folder) (parentID : Option GoString) :
    Reads userID (moveFolder userID id steps folder parentID) := by
  match parentID with
  | none => exact over_pure folder
  | some [] => exact over_pure _
  | some (c :: text) =>
    refine over_bind (silent_parseID _ _).over fun p => over_bind (over_call rfl) fun a => ?_
    refine over_bind (silent_foundOr a).over fun _ => over_bind (reads_isDescendant _ _ _ _) fun b => ?_
    exact over_bind (silent_foundOr b).over fun _ => over_bind (silent_failIf _ _ _).over fun _ =>
      over_pure _

theorem silent_renameFile (file : File) (name : Option GoString) : Silent (renameFile file name) := by
  match name with
  | none => exact over_pure _
  | some [] => exact silent_fail _ _
  | some (c :: name) => exact over_pure _

theorem reads_moveFile (userID : UUID) (file : File) (folderID : Option GoString) :
    Reads userID (moveFile userID file folderID) := by
  match folderID with
  | none => exact over_pure _
  | some [] => exact over_pure _
  | some (c :: text) =>
    refine over_bind (silent_parseID _ _).over fun folderID => over_bind (over_call rfl) fun a => ?_
    exact over_bind (silent_foundOr a).over fun _ => over_pure _

theorem passing_removeObjects : ∀ keys : List GoString, Passing puts (removeObjects keys)
  | [] => over_pure ()
  | _ :: keys => over_bind (over_bucket _ Bool.noConfusion) fun _ => passing_removeObjects keys

theorem passing_cleanupFileObjects (file : File) : Passing puts (cleanupFileObjects file) := by
  refine over_ite (over_bind (over_bucket _ Bool.noConfusion) fun a => ?_) (passing_removeObjects _)
  cases a <;> exact passing_removeObjects _

theorem passing_cleanupFiles : ∀ files : List File, Passing puts (cleanupFiles files)
  | [] => over_pure ()
  | file :: files => over_bind (passing_cleanupFileObjects file) fun _ => passing_cleanupFiles files

/-! ## Handlers that change nothing -/

theorem asks_downloadURL (userID : UUID) (id variant : GoString) :
    Asks userID (downloadURL userID id variant) := by
  refine over_bind (silent_parseID _ _).over fun fileID => over_bind (over_call rfl) fun a => ?_
  refine over_bind (silent_found a).over fun file => over_bind ?_ fun key => ?_
  · refine over_ite ?_ (over_bind (silent_failIf _ _ _).over fun _ => over_pure _)
    cases file.thumbnailKey with
    | none => exact (silent_fail _ _).over
    | some key => exact over_pure key
  · refine over_bind (over_call rfl) fun url => ?_
    cases url with
    | none => exact (silent_fail _ _).over
    | some url => exact over_bind (over_call trivial) fun _ => over_pure _

theorem looks_hlsAsset (userID : UUID) (id asset : GoString) : Looks (hlsAsset userID id asset) :=
  over_bind (silent_parseID _ _).over fun _ => over_bind (over_call trivial) fun a =>
    over_bind (silent_found a).over fun _ => over_bind (silent_failIf _ _ _).over fun _ =>
      over_bind (silent_failIf _ _ _).over fun _ => over_bind (over_call rfl) fun _ =>
        over_bind (silent_failIf _ _ _).over fun _ => over_bind (over_call rfl) fun _ => over_pure _

theorem reads_listFiles (userID : UUID) (folderParam : GoString) :
    Reads userID (listFiles userID folderParam) :=
  over_bind (silent_queryID _ _).over fun _ => over_bind (over_call rfl) fun a =>
    over_bind (silent_foundOr a).over fun _ => over_pure _

theorem reads_listFolders (userID : UUID) (parentParam : GoString) :
    Reads userID (listFolders userID parentParam) :=
  over_bind (silent_queryID _ _).over fun _ => over_bind (over_call rfl) fun a =>
    over_bind (silent_foundOr a).over fun _ => over_pure _

theorem reads_getFolder (userID : UUID) (id : GoString) : Reads userID (getFolder userID id) :=
  over_bind (silent_parseID _ _).over fun _ => over_bind (over_call rfl) fun a =>
    over_bind (silent_foundOr a).over fun _ => over_bind (over_call rfl) fun b =>
      over_bind (silent_foundOr b).over fun _ => over_bind (over_call rfl) fun c =>
        over_bind (silent_foundOr c).over fun _ => over_pure _

theorem reads_getFile (userID : UUID) (id : GoString) : Reads userID (getFile userID id) :=
  over_bind (silent_parseID _ _).over fun _ => over_bind (over_call rfl) fun a =>
    over_bind (silent_foundOr a).over fun _ => over_pure _

theorem reads_fileStats (userID : UUID) : Reads userID (fileStats userID) :=
  over_bind (over_call rfl) fun a => over_bind (silent_foundOr a).over fun _ => over_pure _

theorem reads_listFileVersions (userID : UUID) (id : GoString) : Reads userID (listFileVersions userID id) :=
  over_bind (silent_parseID _ _).over fun _ => over_bind (over_call rfl) fun a =>
    over_bind (silent_foundOr a).over fun _ => over_bind (over_call rfl) fun b =>
      over_bind (silent_foundOr b).over fun _ => over_pure _

theorem reads_listFileShares (userID : UUID) (id : GoString) : Reads userID (listFileShares userID id) :=
  over_bind (silent_parseID _ _).over fun _ => over_bind (over_call rfl) fun a =>
    over_bind (silent_foundOr a).over fun _ => over_bind (over_call rfl) fun b =>
      over_bind (silent_foundOr b).over fun _ => over_pure _

theorem looks_shareResponses : ∀ (shares : List Share) (fileNames : List (UUID × GoString)),
    Looks (shareResponses shares fileNames)
  | [], _ => over_pure []
  | share :: shares, fileNames => by
    unfold shareResponses
    cases fileNames.lookup share.fileID with
    | some name => exact over_bind (looks_shareResponses shares fileNames) fun _ => over_pure _
    | none =>
      exact over_bind (over_call trivial) fun _ =>
        over_bind (looks_shareResponses shares _) fun _ => over_pure _

theorem looks_listShares (userID : UUID) : Looks (listShares userID) :=
  over_bind (over_call trivial) fun a => over_bind (silent_foundOr a).over fun _ =>
    over_bind (looks_shareResponses _ _) fun _ => over_pure _

theorem looks_getPublicShare (token : GoString) : Looks (getPublicShare token) :=
  over_bind (looks_resolveActiveShare token) fun a => over_bind (silent_found a).over fun _ =>
    over_bind (over_call trivial) fun b => over_bind (silent_foundOr b).over fun _ => over_pure _

/-- The requests that change nothing. -/
def Request.looks : Request → Bool
  | .listFiles _ _ => true
  | .listFolders _ _ => true
  | .downloadURL _ _ _ => true
  | .hlsAsset _ _ _ => true
  | .getFolder _ _ => true
  | .getFile _ _ => true
  | .fileStats _ => true
  | .listFileVersions _ _ => true
  | .listFileShares _ _ => true
  | .listShares _ => true
  | .getPublicShare _ => true
  | _ => false

theorem looks_handler {deps : Deps} {q : Request} (h : q.looks = true) : Looks (q.handler deps) := by
  cases q with
  | listFiles userID folderParam => exact (reads_listFiles userID folderParam).looks
  | listFolders userID parentParam => exact (reads_listFolders userID parentParam).looks
  | downloadURL userID id variant => exact (asks_downloadURL userID id variant).looks
  | hlsAsset userID id asset => exact looks_hlsAsset userID id asset
  | getFolder userID id => exact (reads_getFolder userID id).looks
  | getFile userID id => exact (reads_getFile userID id).looks
  | fileStats userID => exact (reads_fileStats userID).looks
  | listFileVersions userID id => exact (reads_listFileVersions userID id).looks
  | listFileShares userID id => exact (reads_listFileShares userID id).looks
  | listShares userID => exact looks_listShares userID
  | getPublicShare token => exact looks_getPublicShare token
  | _ => cases h

/-! ### Before a share is created -/

theorem reads_shareExpiry (userID : UUID) (hours : Option Int64) : Reads userID (shareExpiry hours) := by
  cases hours with
  | none => exact over_pure none
  | some hours =>
    exact over_bind (silent_failIf _ _ _).over fun _ => over_bind (over_call trivial) fun _ =>
      over_pure _

theorem reads_shareLimit (userID : UUID) (maxDownloads : Option Int64) :
    Reads userID (shareLimit maxDownloads) := by
  cases maxDownloads with
  | none => exact over_pure none
  | some maxDownloads => exact over_bind (silent_failIf _ _ _).over fun _ => over_pure _

theorem asks_sharePasswordHash (userID : UUID) (password : Option GoString) :
    Asks userID (sharePasswordHash password) := by
  match password with
  | none => exact over_pure none
  | some [] => exact over_pure none
  | some (c :: rest) =>
    refine over_bind (over_call trivial) fun a => ?_
    cases a with
    | none => exact (silent_fail _ _).over
    | some hash => exact over_pure _

/-! ## The workers -/

/-- The image worker goes on by what the image library makes of the original. -/
theorem thumbnail_cases {P : Prog Stmt Reply → Prop} {tools : Tools} {original : Bytes} {c d : Handler α}
    {e : Bytes → Handler α} {k : α → Prog Stmt Reply}
    (hc : tools.thumbnail original = .undecodable → P (c k))
    (hd : tools.thumbnail original = .unencodable → P (d k))
    (he : ∀ body, tools.thumbnail original = .jpeg body → P (e body k)) :
    P ((match tools.thumbnail original with
      | .undecodable => c
      | .unencodable => d
      | .jpeg body => e body : Handler α) k) := by
  cases hthumb : tools.thumbnail original with
  | undecodable => exact hc hthumb
  | unencodable => exact hd hthumb
  | jpeg body => exact he body hthumb

section Workers

variable (tools : Tools)

theorem looks_notifyUser {ρ : Reply → Prop} (fileID : UUID) (title messageFmt : GoString) :
    (notifyUser tools fileID title messageFmt).Over Stmt.looks ρ := by
  refine over_ite (over_bind (over_call trivial) fun a => ?_) (over_pure ())
  cases a with
  | error e => exact over_pure ()
  | ok file => exact over_bind (over_call trivial) fun _ => over_pure ()

theorem looks_downloadOriginal {ρ : Reply → Prop} (key : GoString) :
    (downloadOriginal key).Over Stmt.looks ρ := by
  refine over_bind (over_call rfl) fun _ => over_ite (over_pure _) ?_
  refine over_bind (over_call trivial) fun _ => over_ite (over_pure _) ?_
  refine over_bind (over_call rfl) fun a => ?_
  cases a <;> exact over_pure _

theorem looks_probeDimensions {ρ : Reply → Prop} (input : Bytes) :
    (Workers.probeDimensions tools input).Over Stmt.looks ρ :=
  over_bind (over_call trivial) fun _ => over_ite (over_pure _) (over_pure _)

theorem looks_probeDuration {ρ : Reply → Prop} (input : Bytes) :
    (Workers.probeDuration tools input).Over Stmt.looks ρ :=
  over_bind (over_call trivial) fun _ => over_ite (over_pure _) (over_pure _)

theorem passing_notifyUser (fileID : UUID) (title messageFmt : GoString) :
    Passing puts (notifyUser tools fileID title messageFmt) :=
  (looks_notifyUser tools fileID title messageFmt).mono (fun _ he => he.plain) fun _ hr => hr

theorem passing_downloadOriginal (key : GoString) : Passing puts (downloadOriginal key) :=
  (looks_downloadOriginal key).mono (fun _ he => he.plain) fun _ hr => hr

theorem publishes_uploadFile {ρ : Reply → Prop} (key : GoString) (body : Bytes)
    (contentType : GoString) : (uploadFile key body contentType).Over Stmt.publishes ρ :=
  over_bind (over_call trivial) fun _ => over_ite (over_pure _) (over_call trivial)

theorem publishes_uploadEntries {ρ : Reply → Prop} (directory : GoString) :
    ∀ entries : List (GoString × Bytes), (uploadEntries directory entries).Over Stmt.publishes ρ
  | [] => over_pure _
  | _ :: entries => over_bind (publishes_uploadFile _ _ _) fun _ =>
      over_ite (over_pure _) (publishes_uploadEntries directory entries)

theorem publishes_uploadRenditionFiles {ρ : Reply → Prop} (files : List (GoString × Bytes))
    (directory : GoString) : (uploadRenditionFiles files directory).Over Stmt.publishes ρ :=
  over_bind (over_call trivial) fun _ => over_ite (over_pure _) (publishes_uploadEntries _ _)

theorem over_transcodeRenditions {φ : {β : Type} → Stmt β → Prop} {ρ : Reply → Prop}
    (h : ∀ r, φ (.tool (.transcodeRendition r))) :
    ∀ renditions : List Rendition, (transcodeRenditions renditions).Over φ ρ
  | [] => over_pure _
  | r :: renditions => by
    refine over_bind (over_call (h r)) fun a => ?_
    cases a with
    | none => exact over_pure _
    | some files =>
      refine over_bind (over_transcodeRenditions h renditions) fun b => ?_
      cases b <;> exact over_pure _

theorem passing_uploadFile (key : GoString) (body : Bytes) (contentType : GoString) :
    Passing true (uploadFile key body contentType) :=
  (publishes_uploadFile key body contentType).mono (fun _ he => he.plain) fun _ hr => hr

theorem passing_uploadRenditionFiles (files : List (GoString × Bytes)) (directory : GoString) :
    Passing true (uploadRenditionFiles files directory) :=
  (publishes_uploadRenditionFiles files directory).mono (fun _ he => he.plain) fun _ hr => hr

theorem passing_transcodeRenditions (renditions : List Rendition) :
    Passing puts (transcodeRenditions renditions) :=
  over_transcodeRenditions (fun _ => trivial) renditions

theorem passing_probeDimensions (input : Bytes) : Passing puts (Workers.probeDimensions tools input) :=
  (looks_probeDimensions tools input).mono (fun _ he => he.plain) fun _ hr => hr

theorem passing_probeDuration (input : Bytes) : Passing puts (Workers.probeDuration tools input) :=
  (looks_probeDuration tools input).mono (fun _ he => he.plain) fun _ hr => hr

end Workers

end Optiflow
