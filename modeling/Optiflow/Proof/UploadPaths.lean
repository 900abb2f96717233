import Optiflow.Proof.Smoothly
import Optiflow.Proof.TusUploads

/-!
# Two ways to upload

A file that comes by `tusPreCreate`, the transfer and `finishTusUpload` ends in the same row and the
same task as one that comes by `presign`, a PUT and `complete`, but for its id (`paths_end_same`).
-/

namespace Optiflow

open Interleave UploadSvc

/-! ## The paths -/

/-- The upload comes by tus, with nothing in between and no call failing. -/
def ViaTus (deps : Deps) (userID : UUID) (upload : Upload) (body : Bytes) (s t : Store) : Prop :=
  ∃ s₁ s₂ s₃ tr₁ tr₂ r,
    (services deps).Finishes (.tusPreCreate (some userID) upload)
      ((services deps).handler (.tusPreCreate (some userID) upload)) s tr₁ .tusAccepted s₁ ∧
    EnvMove.run (.receive (upload.stamped userID) body) s₁ = some s₂ ∧
    Request.launch (.finishTusUpload ((upload.stamped userID).received body)) s₂ = some s₃ ∧
    (services deps).Finishes (.finishTusUpload ((upload.stamped userID).received body))
      ((services deps).handler (.finishTusUpload ((upload.stamped userID).received body)))
      s₃ tr₂ r t ∧
    ∀ st ∈ tr₁ ++ tr₂, succeeds st = true

/-- The upload comes by a presigned URL, with nothing in between and no call failing. -/
def ViaPresign (deps : Deps) (userID : UUID) (req : PresignRequest) (body : Bytes) (s t : Store) :
    Prop :=
  ∃ s₁ s₂ id url expiresAt tr₁ tr₂ r,
    (services deps).Finishes (.presign userID (some req))
      ((services deps).handler (.presign userID (some req))) s tr₁ (.presigned id url expiresAt) s₁ ∧
    EnvMove.run (.put url.key body) s₁ = some s₂ ∧
    (services deps).Finishes (.complete userID (UUID.string id))
      ((services deps).handler (.complete userID (UUID.string id))) s₂ tr₂ r t ∧
    ∀ st ∈ tr₁ ++ tr₂, succeeds st = true

/-- The folder that a text names. -/
def folderOf (text : GoString) : Option UUID := if text = [] then none else UUID.parse text

/-- The row that `presign` leaves. -/
def presignedRow (userID : UUID) (req : PresignRequest) (id : UUID) : File where
  id := id
  name := req.name
  userID := userID
  folderID := folderOf (req.folderID.getD [])
  storageKey := storageKey userID id req.name
  sizeBytes := req.sizeBytes
  mimeType := req.mimeType
  status := .pending
  version := 1
  isCurrent := true

section Reading

variable {deps : Deps} {q : Request} {s : Store} {α : Type} {userID : UUID} {req : PresignRequest}
  {Ψ : Reply → Store → Prop}

variable (he : ∀ status message, Ψ (.error status message) s)
include he

theorem smoothly_ownedFolderID {folderID : Option GoString} {k : Option UUID → Prog Stmt Reply}
    (h : Smoothly deps q (k (folderOf (folderID.getD []))) s Ψ) :
    Smoothly deps q (ownedFolderID userID folderID k) s Ψ := by
  match folderID with
  | none => exact h
  | some [] => exact h
  | some (c :: text) =>
    refine Early.parseID (P := fun p => Smoothly deps q p s Ψ) he fun id hid => smoothly_query ?_
    refine Early.foundOr (P := fun p => Smoothly deps q p s Ψ) he fun _ _ => ?_
    have hfolder : folderOf ((some (c :: text)).getD []) = some id := by simpa [folderOf] using hid
    rwa [hfolder] at h

omit he

/-- What `presign` leaves when it gives a URL. -/
def PresignLeaves (s : Store) (userID : UUID) (req : PresignRequest) (r : Reply) (t : Store) : Prop :=
  ∀ id url expiresAt, r = .presigned id url expiresAt → req.mimeType ≠ [] ∧
    url.key = storageKey userID id req.name ∧
    t.db.files.rows = s.db.files.rows ++ [presignedRow userID req id] ∧ t.broker = s.broker

theorem smoothly_presign :
    Smoothly deps q (presign userID (some req) .ret) s (PresignLeaves s userID req) := by
  have answer : ∀ (status : ℕ) (message : String),
      PresignLeaves s userID req (.error status message) s := fun _ _ _ _ _ h => by cases h
  refine Early.failIf (P := fun p => Smoothly deps q p s (PresignLeaves s userID req)) answer
    fun hchecks => ?_
  refine alone_checkQuota fun a => Early.orQuotaError
    (P := fun p => Smoothly deps q p s (PresignLeaves s userID req)) answer ?_
  refine smoothly_ownedFolderID answer (alone_write fun o a db' ho hw => ?_)
  obtain ⟨rfl, rfl⟩ | ⟨hf, -, -, rfl, rfl⟩ := Write.createFile_cases hw
  · exact answer _ _
  · refine smoothly_presignUpload fun t url expiresAt hdb hbroker hkey id url' expiresAt' h => ?_
    obtain ⟨rfl, rfl, rfl⟩ : o.uuid = id ∧ url = url' ∧ expiresAt = expiresAt' := by
      simpa using h
    refine ⟨fun hmime => hchecks (Or.inr (Or.inr hmime)), hkey, ?_, hbroker⟩
    rw [hdb]
    rfl

/-- What `complete` leaves of a pending row whose object is there. -/
theorem smoothly_complete {text : GoString} {f : File} {rows : List File} {body : Bytes}
    (htext : UUID.parse text = some f.id) (hrows : s.db.files.rows = rows ++ [f])
    (hpending : f.status = .pending) (hobject : s.bucket.object? f.storageKey = some body) :
    Smoothly deps q (complete f.userID text .ret) s fun _ t =>
      t.db.files.rows = rows ++ [completed f (Int64.ofNat body.length)] ∧
        t.broker.waiting = s.broker.waiting ++ queued (completed f (Int64.ofNat body.length)) := by
  have hmem : f ∈ s.db.files := by
    rw [Table.mem_def, hrows]
    exact List.mem_append_right _ (List.mem_singleton.2 rfl)
  have hother : ∀ g ∈ rows, g.id ≠ f.id := by
    have hnodup := s.db.files.nodup
    rw [hrows, List.map_append, List.nodup_append] at hnodup
    exact fun g hg => hnodup.2.2 _ (List.mem_map_of_mem hg) _ (by simp)
  unfold complete parseID
  rw [htext]
  refine smoothly_query ?_
  rw [Query.eval_file_of_mem hmem]
  refine Early.exitIf (P := fun p => Smoothly deps q p s _) (fun h => absurd hpending h) fun _ => ?_
  refine alone_bucket fun o ho => ?_
  have hfails : o.fails = false := by simpa [succeeds] using ho
  have hrun : (BucketStmt.statObject f.storageKey).run o s.now s.bucket =
      (some (Int64.ofNat body.length), s.bucket) := by
    simp [BucketStmt.run, hfails, hobject]
  rw [hrun]
  refine alone_write fun o' a db' ho' hw => ?_
  have hfails' : o'.fails = false := by simpa [succeeds] using ho'
  obtain ⟨rfl, rfl⟩ : a = .ok () ∧ db' = s.db.saveFile (completed f (Int64.ofNat body.length)) := by
    simpa [Write.run, hfails', Write.commit, eq_comm] using hw
  have hsaved : (s.db.saveFile (completed f (Int64.ofNat body.length))).files.rows =
      rows ++ [completed f (Int64.ofNat body.length)] := by
    have hsaved : s.db.savedRow (completed f (Int64.ofNat body.length)) = completed f _ :=
      DB.savedRow_of_mem hmem rfl
    show Table.saveRows (s.db.savedRow _) s.db.files.rows = _
    rw [hsaved, hrows]
    exact Table.saveRows_append rfl hother
  refine alone_enqueueOrLog (fun _ _ _ _ h => by simpa [succeeds] using h)
    fun t hdb _ _ hwaiting => ⟨?_, hwaiting⟩
  rw [hdb]
  exact hsaved

/-! ### The hook -/

/-- A call that leaves the rows and the queue alone. -/
def Stmt.isApart {α : Type} : Stmt α → Prop
  | .write _ => False
  | .broker _ => False
  | .newUUID => False
  | _ => True

theorem Stmt.reads.isApart {α : Type} {e : Stmt α} (h : e.reads userID) : e.isApart := by
  cases e with
  | query q => trivial
  | now => trivial
  | _ => exact h.elim

theorem apart_tusPreCreate (userID : Option UUID) (upload : Upload) :
    (tusPreCreate userID upload).Over Stmt.isApart fun _ => True := by
  cases userID with
  | none => exact Code.over_exit trivial
  | some userID =>
    have reads : ∀ {β : Type} {c : Handler β}, Reads userID c → c.Over Stmt.isApart fun _ => True :=
      fun hc => hc.mono (fun _ he => he.isApart) fun _ _ => trivial
    refine Code.over_bind (Code.over_ite (Code.over_exit trivial) (Code.over_pure ())) fun _ => ?_
    refine Code.over_bind (reads (reads_tusCheckFolder _ _)) fun _ => ?_
    refine Code.over_bind (reads (reads_checkQuota _ _)) fun a => ?_
    match a with
    | .error (.exceeded _) => exact Code.over_exit trivial
    | .error .other => exact Code.over_exit trivial
    | .ok () => exact Code.over_bind (Code.over_call trivial) fun _ => Code.over_pure _

/-- Such code leaves the rows and the queue alone. -/
theorem alone_apart {C : ServiceStep → Prop} {c : Handler Reply}
    (h : c.Over Stmt.isApart fun _ => True) :
    Alone deps C q (c .ret) s fun _ t => t.db = s.db ∧ t.broker = s.broker := by
  have key : ∀ s' : Store, s'.db = s.db ∧ s'.broker = s.broker →
      Alone deps C q (c .ret) s' fun _ t => t.db = s.db ∧ t.broker = s.broker := by
    refine h (fun p => ∀ s' : Store, s'.db = s.db ∧ s'.broker = s.broker →
      Alone deps C q p s' fun _ t => t.db = s.db ∧ t.broker = s.broker) ?_ (fun r _ s' h => h) _
      fun r s' h => h
    intro β e k he hk s' hs' o a t _ hx
    rw [services_exec] at hx
    refine hk a t ?_
    cases e with
    | write w => exact he.elim
    | broker b => exact he.elim
    | newUUID => exact he.elim
    | query qy =>
      obtain ⟨-, rfl⟩ := exec_query hx
      exact hs'
    | _ =>
      obtain ⟨rfl, rfl⟩ := Prod.mk.inj (Option.some.inj hx)
      exact hs'
  exact key s ⟨rfl, rfl⟩

end Reading

/-! ## What each path leaves -/

/-- The two requests are about the same upload. -/
structure SameUpload (upload : Upload) (req : PresignRequest) : Prop where
  name : upload.name = req.name
  mimeType : upload.metaData.get (lit "filetype") = req.mimeType
  folder : upload.metaData.get (lit "folder_id") = req.folderID.getD []

/-- The row with another id, in its key too. -/
def File.relabel (f : File) (id : UUID) : File :=
  { f with id := id, storageKey := UploadSvc.storageKey f.userID id f.name }

/-- The message for another row. -/
def Message.relabel (m : Message) (f : File) : Message :=
  { m with task.payload := ⟨f.id, f.storageKey⟩ }

section Result

variable {deps : Deps} {s t t' : Store} {userID : UUID} {upload : Upload} {req : PresignRequest}
  {body : Bytes}

/-- A PUT takes something from every body whose length is declared, whatever became of the length in
64 bits. -/
theorem takeDeclared_length (body : Bytes) :
    ∃ stored, takeDeclared body (Int64.ofNat body.length) = some stored := by
  unfold takeDeclared
  split
  · exact ⟨_, rfl⟩
  · have hle : (Int64.ofNat body.length).toInt ≤ body.length := by
      rw [Int64.toInt_ofNat', Int.bmod_def, show Int64.size = 2 ^ 64 from rfl]
      split <;> omega
    rw [if_neg (by omega)]
    exact ⟨_, rfl⟩

theorem available_of_succeeds {st : ServiceStep} (h : succeeds st = true) :
    available (fun _ _ => false) (fun _ => false) st = true := by
  cases st with
  | call before origin o stmt answer =>
    cases stmt with
    | bucket b => cases b <;> simpa [available, succeeds] using h
    | write w => cases w <;> simpa [available, succeeds] using h
    | _ => simpa [available, succeeds] using h
  | _ => rfl

theorem leaves_of_finishes {q : Request} {x : Upload} {tr : List ServiceStep} {r : Reply}
    (huser : UUID.parse (x.metaData.get (lit "user_id")) = some userID) (hpath : x.path ≠ [])
    (hfile : s.staging.files.lookup x.path = some body) (hsize : x.size = Int64.ofNat body.length)
    (h : (services deps).Finishes q (finishTusUpload x .ret) s tr r t)
    (hsucc : ∀ st ∈ tr, succeeds st = true) :
    ∃ fileID, t.db.files.rows = s.db.files.rows ++ [tusFile x userID fileID] ∧
      t.broker.waiting = s.broker.waiting ++ queued (tusFile x userID fileID) := by
  obtain ⟨stored, hstored⟩ := takeDeclared_length body
  rw [← hsize] at hstored
  have hends : Alone deps (fun st => available (fun _ _ => false) (fun _ => false) st = true) q
      (finishTusUpload x .ret) s _ := alone_finishTusUpload huser hpath hfile hstored
  obtain ⟨fileID, -, ⟨hbad, -⟩ | ⟨-, hrows, -, hwaiting, -⟩⟩ := h.of_ends hends
    fun st hst => available_of_succeeds (hsucc st hst)
  · cases hbad
  · exact ⟨fileID, hrows, hwaiting⟩

theorem leaves_of_viaTus (h : ViaTus deps userID upload body s t) (hpath : upload.path ≠ []) :
    upload.name ≠ [] ∧ ∃ fileID,
      t.db.files.rows =
        s.db.files.rows ++ [tusFile ((upload.stamped userID).received body) userID fileID] ∧
      t.broker.waiting = s.broker.waiting ++
        queued (tusFile ((upload.stamped userID).received body) userID fileID) := by
  obtain ⟨s₁, s₂, s₃, tr₁, tr₂, r, hpre, hreceive, hlaunch, hfinish, hsucc⟩ := h
  refine ⟨name_of_accepted hpre, ?_⟩
  obtain ⟨hdb, hbroker⟩ := hpre.of_ends (alone_apart (C := fun _ => True)
    (apart_tusPreCreate (some userID) upload)) fun _ _ => trivial
  obtain ⟨hdb₂, hbroker₂, hfile⟩ : s₂.db = s₁.db ∧ s₂.broker = s₁.broker ∧
      s₂.staging.files.lookup upload.path = some body := by
    simp only [EnvMove.run] at hreceive
    split at hreceive
    · obtain rfl := Option.some.inj hreceive
      exact ⟨rfl, rfl, List.lookup_cons_self⟩
    · cases hreceive
  obtain ⟨hdb₃, hbroker₃, hfiles₃⟩ : s₃.db = s₂.db ∧ s₃.broker = s₂.broker ∧
      s₃.staging.files = s₂.staging.files := by
    simp only [Request.launch] at hlaunch
    split at hlaunch
    · obtain rfl := Option.some.inj hlaunch
      exact ⟨rfl, rfl, rfl⟩
    · cases hlaunch
  have huser : ((upload.stamped userID).received body).metaData.get (lit "user_id") =
      UUID.string userID := MetaData.get_set
  have hxpath : ((upload.stamped userID).received body).path = upload.path := rfl
  have hsize : ((upload.stamped userID).received body).size = Int64.ofNat body.length := rfl
  rw [handler_finishTusUpload] at hfinish
  generalize (upload.stamped userID).received body = x at *
  obtain ⟨fileID, hrows, hwaiting⟩ := leaves_of_finishes (huser ▸ UUID.parse_string userID)
    (hxpath ▸ hpath) (hxpath ▸ hfiles₃ ▸ hfile) hsize hfinish
    fun st hst => hsucc st (List.mem_append_right _ hst)
  refine ⟨fileID, ?_, ?_⟩
  · rw [hrows, hdb₃, hdb₂, hdb]
  · rw [hwaiting, hbroker₃, hbroker₂, hbroker]

theorem leaves_of_viaPresign (h : ViaPresign deps userID req body s t) :
    req.mimeType ≠ [] ∧ ∃ id,
      t.db.files.rows =
        s.db.files.rows ++ [completed (presignedRow userID req id) (Int64.ofNat body.length)] ∧
      t.broker.waiting = s.broker.waiting ++
        queued (completed (presignedRow userID req id) (Int64.ofNat body.length)) := by
  obtain ⟨s₁, s₂, id, url, expiresAt, tr₁, tr₂, r, hpresign, hput, hcomplete, hsucc⟩ := h
  obtain ⟨hmime, hkey, hrows, hbroker⟩ := hpresign.of_ends smoothly_presign
    (fun st hst => hsucc st (List.mem_append_left _ hst)) id url expiresAt rfl
  obtain ⟨hdb₂, hbroker₂, hobject⟩ : s₂.db = s₁.db ∧ s₂.broker = s₁.broker ∧
      s₂.bucket.object? (storageKey userID id req.name) = some body := by
    simp only [EnvMove.run] at hput
    split at hput
    · obtain rfl := Option.some.inj hput
      refine ⟨rfl, rfl, ?_⟩
      rw [hkey]
      exact List.lookup_cons_self
    · cases hput
  have htext : UUID.parse (UUID.string id) = some (presignedRow userID req id).id :=
    UUID.parse_string id
  have hhandler : ∀ text, (services deps).handler (.complete userID text) =
      complete (presignedRow userID req id).userID text .ret := fun _ => rfl
  rw [hhandler] at hcomplete
  generalize UUID.string id = text at htext hcomplete
  obtain ⟨hrows', hwaiting⟩ := hcomplete.of_ends
    (smoothly_complete htext (hdb₂ ▸ hrows) rfl hobject)
    fun st hst => hsucc st (List.mem_append_right _ hst)
  exact ⟨hmime, id, hrows', by rw [hwaiting, hbroker₂, hbroker]⟩

/-- One upload, one row: the two differ in their ids. -/
theorem completed_presignedRow (hsame : SameUpload upload req) (hname : upload.name ≠ [])
    (hmime : req.mimeType ≠ []) (fileID id : UUID) :
    completed (presignedRow userID req id) (Int64.ofNat body.length) =
      (tusFile ((upload.stamped userID).received body) userID fileID).relabel id := by
  have htype : tusMimeType upload = req.mimeType := by
    unfold tusMimeType
    rw [hsame.mimeType]
    exact if_neg hmime
  have hfolder : tusFolderID upload = folderOf (req.folderID.getD []) := by
    unfold tusFolderID folderOf
    rw [hsame.folder]
  rw [tusFile_stamped hname, htype, hfolder, hsame.name]
  rfl

/-- The same rows need the same processing. -/
theorem queued_relabel (f : File) (id : UUID) :
    queued (f.relabel id) = (queued f).map fun m => m.relabel (f.relabel id) := by
  have himage : (f.relabel id).isImage = f.isImage := rfl
  have hvideo : (f.relabel id).isVideo = f.isVideo := rfl
  unfold queued processingTask
  rw [himage, hvideo]
  cases f.isImage with
  | true => rfl
  | false => cases f.isVideo <;> rfl

/-- **Both ways end the same.**  From one store, the upload comes by tus or by a presigned URL, with
nothing in between and no call failing.  Each way adds one row and the messages that its processing
starts with, and what the one adds is what the other adds, for another id. -/
theorem paths_end_same (deps : Deps) (hsame : SameUpload upload req) (hpath : upload.path ≠ [])
    (htus : ViaTus deps userID upload body s t) (hpresign : ViaPresign deps userID req body s t') :
    ∃ (f : File) (id : UUID),
      t.db.files.rows = s.db.files.rows ++ [f] ∧
      t'.db.files.rows = s.db.files.rows ++ [f.relabel id] ∧
      f.storageKey = storageKey userID f.id f.name ∧
      t.broker.waiting = s.broker.waiting ++ queued f ∧
      t'.broker.waiting =
        s.broker.waiting ++ (queued f).map fun m => m.relabel (f.relabel id) := by
  obtain ⟨hname, fileID, hrows, hwaiting⟩ := leaves_of_viaTus htus hpath
  obtain ⟨hmime, id, hrows', hwaiting'⟩ := leaves_of_viaPresign hpresign
  rw [completed_presignedRow hsame hname hmime fileID id] at hrows' hwaiting'
  rw [queued_relabel] at hwaiting'
  refine ⟨_, id, hrows, hrows', ?_, hwaiting, hwaiting'⟩
  rw [tusFile_stamped hname]

end Result

/-! ### An image -/

/-- An image by tus. -/
def pngUpload : Upload where
  id := lit "u"
  size := 2
  sizeIsDeferred := false
  metaData := [(lit "filename", lit "a.png"), (lit "filetype", lit "image/png")]
  path := lit "/staging/u"

/-- The same image by a presigned URL. -/
def pngRequest : PresignRequest := ⟨lit "a.png", 2, lit "image/png", none⟩

theorem png_viaTus : ∃ t, ViaTus plainDeps 1 pngUpload [1, 2] (Store.fresh aliceOnly) t := by
  obtain ⟨tr₁, r₁, s₁, h₁, hP⟩ := Machine.exists_finishes (services plainDeps)
    (.tusPreCreate (some 1) pngUpload)
    ((services plainDeps).handler (.tusPreCreate (some 1) pngUpload)) (Store.fresh aliceOnly)
    (fun tr r s₁ => r = .tusAccepted && tr.all succeeds &&
      (EnvMove.run (.receive (pngUpload.stamped 1) [1, 2]) s₁).any fun s₂ =>
        (Request.launch (.finishTusUpload ((pngUpload.stamped 1).received [1, 2])) s₂).any fun s₃ =>
          ((services plainDeps).play (.finishTusUpload ((pngUpload.stamped 1).received [1, 2]))
            [{}, { uuid := 100 }, {}, { uuid := 101 }, {}, {}, {}]
            ((services plainDeps).handler
              (.finishTusUpload ((pngUpload.stamped 1).received [1, 2]))) s₃).any
            fun x => x.1.all succeeds) [{}, {}, {}] (by decide)
  simp only [Bool.and_eq_true, decide_eq_true_eq, Option.any_eq_true, List.all_eq_true] at hP
  obtain ⟨⟨rfl, hsucc₁⟩, s₂, hreceive, s₃, hlaunch, ⟨tr₂, r₂, t⟩, hplay, hsucc₂⟩ := hP
  exact ⟨t, s₁, s₂, s₃, tr₁, tr₂, r₂, h₁, hreceive, hlaunch, Machine.finishes_of_play hplay,
    List.forall_mem_append.2 ⟨hsucc₁, hsucc₂⟩⟩

theorem png_viaPresign : ∃ t, ViaPresign plainDeps 1 pngRequest [1, 2] (Store.fresh aliceOnly) t := by
  obtain ⟨tr₁, r₁, s₁, h₁, hP⟩ := Machine.exists_finishes (services plainDeps)
    (.presign 1 (some pngRequest)) ((services plainDeps).handler (.presign 1 (some pngRequest)))
    (Store.fresh aliceOnly)
    (fun tr r s₁ => r = .presigned 100 ⟨storageKey 1 100 (lit "a.png"), presignExpiry⟩ presignExpiry &&
      tr.all succeeds &&
      (EnvMove.run (.put (storageKey 1 100 (lit "a.png")) [1, 2]) s₁).any fun s₂ =>
        ((services plainDeps).play (.complete 1 (UUID.string 100)) [{}, {}, {}, {}]
          ((services plainDeps).handler (.complete 1 (UUID.string 100))) s₂).any
          fun x => x.1.all succeeds) [{}, {}, { uuid := 100 }, {}, {}] (by decide)
  simp only [Bool.and_eq_true, decide_eq_true_eq, Option.any_eq_true, List.all_eq_true] at hP
  obtain ⟨⟨rfl, hsucc₁⟩, s₂, hput, ⟨tr₂, r₂, t⟩, hplay, hsucc₂⟩ := hP
  exact ⟨t, s₁, s₂, 100, _, _, tr₁, tr₂, r₂, h₁, hput, Machine.finishes_of_play hplay,
    List.forall_mem_append.2 ⟨hsucc₁, hsucc₂⟩⟩

/-- The image comes both ways. -/
theorem paths_end_same_png :
    ∃ t t', ViaTus plainDeps 1 pngUpload [1, 2] (Store.fresh aliceOnly) t ∧
      ViaPresign plainDeps 1 pngRequest [1, 2] (Store.fresh aliceOnly) t' ∧
      ∃ (f : File) (id : UUID), t.db.files.rows = [f] ∧ t'.db.files.rows = [f.relabel id] := by
  obtain ⟨t, ht⟩ := png_viaTus
  obtain ⟨t', ht'⟩ := png_viaPresign
  obtain ⟨f, id, hrows, hrows', -⟩ := paths_end_same plainDeps ⟨rfl, rfl, rfl⟩ (by decide) ht ht'
  exact ⟨t, t', ht, ht', f, id, hrows, hrows'⟩

end Optiflow
