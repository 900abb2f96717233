import Optiflow.Lib.Watch
import Optiflow.Proof.Footprint
import Optiflow.Proof.Links
import Optiflow.Proof.UsedBytes

/-!
# The storage quota

`checkQuota` adds the declared size to what the user's rows declare, before the row of the upload
exists; on the way by resumable uploads the row is made when the bytes are there, any number of
requests later.  Requests that are checked at the same time do not see each other, and the sum is one of
machine integers.  As long as nobody else takes the room that a request has been let in with, and the
sums do not overflow, the rows of a user stay within the quota (`quota_enforced`).
-/

namespace Optiflow

open Interleave UploadSvc ApiSvc

/-! ## The room of a request -/

/-- The file still has its row, or the size that it was born with fits. -/
def DB.keepsRoom (db : DB) (u : User) (id : UUID) : Bool :=
  db.files.rows.any (fun g => g.id = id) ||
    db.files.births.all fun b => b.id ≠ id || b.userID ≠ u.id || db.fits u b.sizeBytes

/-- The room that an upload of the user needs. -/
def Upload.fits (u : User) (db : DB) (x : Upload) : Bool :=
  x.user ≠ some u.id || db.fits u x.size

/-- What a request of the user has found out of the room for its row: the declared size fits, or the
row that it has read is there. -/
def Request.fits (u : User) (db : DB) : Request → Bool
  | .presign userID (some req) => userID ≠ u.id || db.fits u req.sizeBytes
  | .presignVersion userID _ (some req) => userID ≠ u.id || db.fits u req.sizeBytes
  | .tusPreCreate userID upload => userID ≠ some u.id || db.fits u upload.size
  | .finishTusUpload upload => upload.fits u db
  | .complete _ id => (UUID.parse id).all (db.keepsRoom u)
  | .updateFile _ id _ => (UUID.parse id).all (db.keepsRoom u)
  | _ => true

/-- The calls after the check of a request, up to the row or the upload that it makes. -/
def afterCheck {α : Type} : Request → Stmt α → Bool
  | .presign _ _, .query (.folder _ _) => true
  | .presign _ _, .write (.createFile _) => true
  | .presignVersion _ _ _, .query (.currentVersion _ _) => true
  | .presignVersion _ _ _, .query (.maxVersion _ _) => true
  | .presignVersion _ _ _, .write (.presignVersion _ _ _) => true
  | .tusPreCreate _ _, .staging (.create _) => true
  | .finishTusUpload _, .staging (.openFile _) => true
  | .finishTusUpload _, .newUUID => true
  | .finishTusUpload _, .bucket (.putObject _ _ _ _) => true
  | .finishTusUpload _, .write (.createFile _) => true
  | .complete _ _, .bucket (.statObject _) => true
  | .complete _ _, .write (.saveFile _) => true
  | .updateFile _ _ _, .query (.folder _ _) => true
  | .updateFile _ _ _, .write (.saveFile _) => true
  | _, _ => false

/-- Between its check and its row, a request relies on the room that it has found. -/
def hasRoom (u : User) (th : Thread Request Stmt Reply) (s : Store) : Bool :=
  match th.prog with
  | .ret _ => true
  | .call e _ => !afterCheck th.origin e || th.origin.fits u s.db

/-- Nobody else takes the room of a request, and nobody takes the room of an upload that waits for its
bytes or for its row. -/
def quotaWatch (deps : Deps) (u : User) : Watch (services deps) :=
  { Watch.ofFact (services deps) (hasRoom u) with
    standing := fun s t => (s.staging.accepted ++ s.staging.completed).all fun x =>
      !x.fits u s.db || x.fits u t.db }

/-- The size that a request is admitted with. -/
def Request.incomingBytes : Request → Int64
  | .presign _ (some req) => req.sizeBytes
  | .presignVersion _ _ (some req) => req.sizeBytes
  | .tusPreCreate _ upload => upload.size
  | _ => 0

/-- Where a check reads the stored sum of the user, the sum and the incoming size come to less than
2^63. -/
def sumFits (userID : UUID) : ServiceStep → Bool
  | .call s q _ (.query (.sumSizes owner)) _ =>
    owner ≠ userID || s.db.usedBytes userID + q.incomingBytes.toInt < 2 ^ 63
  | _ => true

/-! ## The outline -/

/-- The rows and the uploads that a call makes fit. -/
def FitsQuota (u : User) (s : Store) {α : Type} : Stmt α → Prop
  | .write w => w.Fits u s.db
  | .staging (.create x) => x.fits u s.db = true
  | _ => True

/-- The user's rows are within the quota, and there is room for each upload that is still to get its
row. -/
structure WithinQuota (u : User) (s : Store) : Prop where
  user : u ∈ s.db.users
  rows : s.db.usedBytes u.id ≤ u.storageQuotaBytes.toInt
  uploads : ∀ x ∈ s.staging.accepted ++ s.staging.completed, x.fits u s.db = true

/-- The outline of the quota of a user. -/
def withinQuota (deps : Deps) (u : User) : Outline (services deps) where
  inv := WithinQuota u
  rely _ _ := True
  pre _ _ e s := FitsQuota u s e
  post _ _ := True
  cond st := honestClient st = true ∧ sumFits u.id st = true

section Watched

variable {deps : Deps} {u : User} {q : Request} {s : Store} {α : Type}

/-- Provenance and sizes. -/
abbrev sizedRows (deps : Deps) : Outline (services deps) := (provenance deps).inf (sizes deps)

/-- Reading a program against `withinQuota`. -/
abbrev Within (deps : Deps) (u : User) (q : Request) (p : Prog Stmt Reply) (s : Store) : Prop :=
  (withinQuota deps u).SafeOver (sizedRows deps) (quotaWatch deps u) q p s

/-- The room that a request has found is there at its next call. -/
theorem fits_of_interference {e : Stmt α} {k : α → Prog Stmt Reply} {t : Store}
    (hafter : afterCheck q e = true)
    (ht : (withinQuota deps u).Interference (sizedRows deps) (quotaWatch deps u) ⟨q, .call e k⟩ s t)
    (hs : q.fits u s.db = true) : q.fits u t.db = true := by
  have hroom : hasRoom u ⟨q, .call e k⟩ s = true := by simp [hasRoom, hs]
  have hkept : (Watch.ofFact (services deps) (hasRoom u)).kept ⟨q, .call e k⟩ s t = true := ht.kept
  simpa [hasRoom, hafter] using Watch.ofFact_kept hkept hroom

/-- Code that makes no row. -/
theorem within_over {c : Handler α} (hc : Inert true c) {k : α → Prog Stmt Reply}
    (h : ∀ a t, Within deps u q (k a) t) (s : Store) : Within deps u q (c k) s := by
  refine Outline.safeOver_over hc (fun e _ he _ => ?_) (fun _ => trivial) h s
  cases e with
  | write w => exact he.elim
  | staging st =>
    cases st with
    | create x => cases he
    | _ => trivial
  | _ => trivial

/-! ### Checks -/

/-- A check that lets a size in has found room for it. -/
theorem within_checkQuota {userID : UUID} {n : Int64} (hn : q.incomingBytes = n)
    {k : Except QuotaError Unit → Prog Stmt Reply} (herror : ∀ e t, Within deps u q (k (.error e)) t)
    (h : ∀ t : Store, (userID = u.id → t.db.fits u n = true) → Within deps u q (k (.ok ())) t) :
    Within deps u q (checkQuota userID n k) s := by
  refine watched_query (fun _ _ _ => trivial) fun o t ht _ => ?_
  cases hquota : (Query.storageQuota userID).run o t.db with
  | error e => exact herror _ t
  | ok quota =>
    intro v hv _
    refine ⟨trivial, fun o' a v' _ hcond hx _ _ => ?_⟩
    rw [services_exec] at hx
    obtain ⟨rfl, rfl⟩ := exec_query hx
    cases hused : (Query.sumSizes userID).run o' v'.db with
    | error e => exact herror _ v'
    | ok used =>
      by_cases htest : used + n > quota
      · simpa [htest] using herror _ v'
      · have hok : Within deps u q (k (.ok ())) v' := by
          refine h v' fun huser => ?_
          subst huser
          obtain rfl : u.storageQuotaBytes = quota :=
            Except.ok.inj ((Query.eval_storageQuota ht.inv.user).symm.trans (Query.eval_of_ok hquota))
          have hlt : v'.db.usedBytes u.id + n.toInt < 2 ^ 63 := by
            simpa [sumFits, hn] using hcond.2
          have hnonneg := DB.usedBytes_nonneg (fun f hf => hv.baseInv.2.2.row_nonneg hf) u.id
          have hge := Int64.le_toInt n
          exact DB.fits_of_test (Query.toInt_of_sumSizes (Query.eval_of_ok hused)) (by omega) hlt htest
        simpa [htest] using hok

/-- A check that does not let the size in ends the request. -/
theorem within_refused {e : QuotaError} {k : Unit → Prog Stmt Reply} :
    Within deps u q (orQuotaError (.error e) k) s := by
  cases e with
  | exceeded message => trivial
  | other => trivial

/-- A look-up between the check and the row. -/
theorem within_lookUp {qy : Query α} (hafter : afterCheck q (.query qy) = true)
    (hs : q.fits u s.db = true) {k : Except DbError α → Prog Stmt Reply}
    (h : ∀ a (t : Store), q.fits u t.db = true → Within deps u q (k a) t) :
    Within deps u q (query qy k) s :=
  watched_query (fun _ _ _ => trivial) fun _ t ht _ => h _ t (fits_of_interference hafter ht hs)

/-! ### Handlers -/

theorem within_presign {userID : UUID} {body : Option PresignRequest} :
    Within deps u (.presign userID body) (presign userID body .ret) s := by
  have answer : ∀ t, ∀ (status : ℕ) (message : String),
      Within deps u (.presign userID body) (.ret (.error status message)) t := fun _ _ _ => trivial
  refine Early.decodeBody (P := fun p => Within deps u _ p s) (answer s) fun req hbody => ?_
  refine Early.failIf (P := fun p => Within deps u _ p s) (answer s) fun _ => ?_
  subst hbody
  refine within_checkQuota (n := req.sizeBytes) rfl (fun e t => within_refused) fun t ht => ?_
  have hfits : (Request.presign userID (some req)).fits u t.db = true := by
    simpa [Request.fits, imp_iff_not_or] using ht
  have make : ∀ (folderID : Option UUID) (v : Store), (Request.presign userID (some req)).fits u v.db = true →
      Within deps u (.presign userID (some req)) (write (.createFile fun fileID =>
        { id := fileID
          name := req.name
          userID := userID
          folderID := folderID
          storageKey := storageKey userID fileID req.name
          sizeBytes := req.sizeBytes
          mimeType := req.mimeType
          status := .pending
          version := 1 }) fun a => foundOr 500 "could not start upload" a fun file =>
            presignUpload file .ret) v := by
    intro folderID v hv
    refine watched_write (fun w hw _ id huser => ?_) fun a w db' _ _ => ?_
    · have hroom := fits_of_interference rfl hw hv
      simpa [Request.fits, show userID = u.id from huser] using hroom
    · refine Early.foundOr (P := fun p => Within deps u _ p _) (answer _) fun file _ => ?_
      exact within_over (k := .ret) (inert_presignUpload file) (fun _ _ => trivial) _
  match hfolder : req.folderID with
  | none => exact make none t hfits
  | some [] => exact make none t hfits
  | some (c :: text) =>
    refine Early.parseID (P := fun p => Within deps u _ p t) (answer t) fun id _ => ?_
    refine within_lookUp rfl hfits fun a v hv => ?_
    exact Early.foundOr (P := fun p => Within deps u _ p v) (answer v) fun _ _ => make (some id) v hv

theorem within_presignVersion {userID : UUID} {text : GoString} {body : Option PresignVersionRequest} :
    Within deps u (.presignVersion userID text body) (presignVersion userID text body .ret) s := by
  have answer : ∀ t, ∀ (status : ℕ) (message : String),
      Within deps u (.presignVersion userID text body) (.ret (.error status message)) t :=
    fun _ _ _ => trivial
  refine Early.parseID (P := fun p => Within deps u _ p s) (answer s) fun id _ => ?_
  refine Early.decodeBody (P := fun p => Within deps u _ p s) (answer s) fun req hbody => ?_
  refine Early.failIf (P := fun p => Within deps u _ p s) (answer s) fun _ => ?_
  subst hbody
  refine watched_query (fun _ _ _ => trivial) fun o t _ _ => ?_
  refine Early.found (P := fun p => Within deps u _ p t) (answer t) fun anyVersion _ => ?_
  refine within_checkQuota (n := req.sizeBytes) rfl (fun e v => within_refused) fun v hv => ?_
  have hfits : (Request.presignVersion userID text (some req)).fits u v.db = true := by
    simpa [Request.fits, imp_iff_not_or] using hv
  refine within_lookUp rfl hfits fun a w hw => ?_
  refine Early.foundOr (P := fun p => Within deps u _ p w) (answer w) fun current _ => ?_
  refine within_lookUp rfl hw fun a x hx => ?_
  refine Early.foundOr (P := fun p => Within deps u _ p x) (answer x) fun maxVersion _ => ?_
  refine watched_write (fun y hy _ id huser => ?_) fun a y db' _ _ => ?_
  · have hroom := fits_of_interference rfl hy hx
    simpa [Request.fits, show userID = u.id from huser] using hroom
  · refine Early.foundOr (P := fun p => Within deps u _ p _) (answer _) fun file _ => ?_
    exact within_over (k := .ret) (inert_presignUpload file) (fun _ _ => trivial) _

theorem within_tusPreCreate {userID : Option UUID} {upload : Upload} :
    Within deps u (.tusPreCreate userID upload) (tusPreCreate userID upload .ret) s := by
  cases userID with
  | none => trivial
  | some userID =>
    refine Early.exitIf (P := fun p => Within deps u _ p s) (fun _ => trivial) fun _ => ?_
    refine within_over (c := tusCheckFolder _ _) (reads_tusCheckFolder _ _).inert (fun _ t => ?_) s
    refine within_checkQuota (n := upload.size) rfl (fun e v => ?_) fun v hv => ?_
    · cases e with
      | exceeded message => trivial
      | other => trivial
    · refine watched_call (fun w hw _ => ?_) fun _ _ _ _ _ _ _ _ _ => trivial
      have hfits : (Request.tusPreCreate (some userID) upload).fits u v.db = true := by
        simpa [Request.fits, imp_iff_not_or] using hv
      have hroom := fits_of_interference rfl hw hfits
      -- The upload gets the id of the user whose quota was checked.
      show Upload.fits u w.db { upload with
        metaData := upload.metaData.set (lit "user_id") (UUID.string userID) } = true
      simpa [Upload.fits, Upload.user, Request.fits, MetaData.get_set] using hroom

/-- An upload that waits for its row has room, and its job counts on it. -/
theorem within_finishTusUpload {upload : Upload} (hs : upload.fits u s.db = true) :
    Within deps u (.finishTusUpload upload) (finishTusUpload upload .ret) s := by
  unfold finishTusUpload
  cases huser : UUID.parse (upload.metaData.get (lit "user_id")) with
  | none => trivial
  | some userID =>
    refine Early.exitIf (P := fun p => Within deps u _ p s) (fun _ => trivial) fun _ => ?_
    refine watched_call (fun _ _ _ => trivial) fun body t o t' ht _ hx _ _ => ?_
    have hfits : upload.fits u t'.db = true :=
      exec_db rfl hx ▸ fits_of_interference (q := .finishTusUpload upload) rfl ht hs
    cases body with
    | none => trivial
    | some body =>
      refine watched_call (fun _ _ _ => trivial) fun fileID v o v' hv _ hx _ _ => ?_
      have hfits : upload.fits u v'.db = true :=
        exec_db rfl hx ▸ fits_of_interference (q := .finishTusUpload upload) rfl hv hfits
      refine watched_call (fun _ _ _ => trivial) fun stored w o w' hw _ hx _ _ => ?_
      have hfits : upload.fits u w'.db = true :=
        exec_db rfl hx ▸ fits_of_interference (q := .finishTusUpload upload) rfl hw hfits
      refine Early.exitIf (P := fun p => Within deps u _ p w') (fun _ => trivial) fun _ => ?_
      refine watched_write (fun x hx _ _ hown => ?_) fun a x db' _ _ => ?_
      · have hroom : upload.fits u x.db = true :=
          fits_of_interference (q := .finishTusUpload upload) rfl hx hfits
        have howner : upload.user = some u.id := huser.trans (congrArg some hown)
        show x.db.fits u upload.size = true
        simpa [Upload.fits, howner] using hroom
      · have rest : ∀ y, Within deps u (.finishTusUpload upload) ((do
            let _ ← staging (.removeFile upload.path)
            let _ ← staging (.removeFile (upload.path ++ lit ".info"))
            return Reply.finished : Handler Reply) .ret) y := fun y =>
          watched_call (fun _ _ _ => trivial) fun _ _ _ _ _ _ _ _ _ =>
            watched_call (fun _ _ _ => trivial) fun _ _ _ _ _ _ _ _ _ => trivial
        cases a with
        | error e => trivial
        | ok file =>
          cases htask : processingTask file with
          | none =>
            simp only [Code.bind_apply, htask]
            exact rest _
          | some task =>
            simp only [Code.bind_apply, htask]
            exact watched_call (fun _ _ _ => trivial) fun _ _ _ y _ _ _ _ _ => rest y

/-- A save over a row that has been read: the row is still there, or its size fits. -/
theorem within_saveFile {text : GoString} {id : UUID} {f : File} (hid : UUID.parse text = some id)
    (hfid : f.id = id) (hafter : afterCheck q (.write (.saveFile f)) = true)
    (hq : ∀ db : DB, q.fits u db = (UUID.parse text).all (db.keepsRoom u))
    (hs : q.fits u s.db = true) {k : Except DbError Unit → Prog Stmt Reply}
    (h : ∀ a t, Within deps u q (k a) t) : Within deps u q (write (.saveFile f) k) s := by
  refine watched_write (fun t ht hP huser => ?_) fun a t db' _ _ => h a _
  have hroom := fits_of_interference hafter ht hs
  rw [hq, hid, Option.all_some, DB.keepsRoom, Bool.or_eq_true, List.any_eq_true] at hroom
  refine hroom.imp (fun ⟨g, hg, he⟩ => ⟨g, hg, (of_decide_eq_true he).trans hfid.symm⟩) fun hall => ?_
  -- The size is the one that the file was born with.
  obtain ⟨b, hb, hbid, hbsize, -⟩ : SizeKnown t f := sizeKnown_of_save hP.1 hP.2
  have howner : b.userID = f.userID := congrArg File.Identity.userID
    (FileKnown.identity_eq ⟨b, hb, rfl⟩ hP.1.2 hbid)
  have hb' := List.all_eq_true.1 hall b hb
  rw [← hbsize]
  simpa [hbid.trans hfid, howner.trans huser] using hb'

/-- The room of a file that has its row. -/
theorem DB.keepsRoom_of_mem {db : DB} {f : File} (hf : f ∈ db.files) : db.keepsRoom u f.id = true :=
  Bool.or_eq_true_iff.2 (Or.inl (List.any_eq_true.2 ⟨f, hf, decide_eq_true rfl⟩))

theorem within_complete (userID : UUID) (text : GoString) :
    Within deps u (.complete userID text) (complete userID text .ret) s := by
  have answer : ∀ t, ∀ (status : ℕ) (message : String),
      Within deps u (.complete userID text) (.ret (.error status message)) t := fun _ _ _ => trivial
  refine Early.parseID (P := fun p => Within deps u _ p s) (answer s) fun id hid => ?_
  refine watched_query (fun _ _ _ => trivial) fun o t _ _ => ?_
  refine Early.found (P := fun p => Within deps u _ p t) (answer t) fun r hr => ?_
  refine Early.failIf (P := fun p => Within deps u _ p t) (answer t) fun _ => ?_
  obtain ⟨hmem, hrid, -⟩ := Query.file_ok hr
  have hread : (Request.complete userID text).fits u t.db = true := by
    simpa [Request.fits, hid] using hrid ▸ DB.keepsRoom_of_mem hmem
  refine watched_call (fun _ _ _ => trivial) fun size v _ v' hv _ hx _ _ => ?_
  have hroom : (Request.complete userID text).fits u v'.db = true :=
    exec_db rfl hx ▸ fits_of_interference rfl hv hread
  cases size with
  | none => exact answer v' _ _
  | some size =>
    refine within_saveFile hid (f := completed r size) hrid rfl (fun _ => rfl) hroom ?_
    intro a w
    refine Early.foundOr (P := fun p => Within deps u _ p w) (answer w) fun _ _ => ?_
    cases processingTask (completed r size) with
    | none => exact trivial
    | some task => exact watched_call (fun _ _ _ => trivial) fun _ _ _ _ _ _ _ _ _ => trivial

theorem within_updateFile (userID : UUID) (text : GoString) (body : Option FileUpdateRequest) :
    Within deps u (.updateFile userID text body) (updateFile userID text body .ret) s := by
  have answer : ∀ t, ∀ (status : ℕ) (message : String),
      Within deps u (.updateFile userID text body) (.ret (.error status message)) t :=
    fun _ _ _ => trivial
  refine Early.parseID (P := fun p => Within deps u _ p s) (answer s) fun id hid => ?_
  refine watched_query (fun _ _ _ => trivial) fun o t _ _ => ?_
  refine Early.foundOr (P := fun p => Within deps u _ p t) (answer t) fun r hr => ?_
  refine Early.decodeBody (P := fun p => Within deps u _ p t) (answer t) fun req _ => ?_
  obtain ⟨hmem, hrid, -⟩ := Query.file_ok hr
  have hread : (Request.updateFile userID text body).fits u t.db = true := by
    simpa [Request.fits, hid] using hrid ▸ DB.keepsRoom_of_mem hmem
  have finish : ∀ f (v : Store), (Request.updateFile userID text body).fits u v.db = true → f.id = id →
      Within deps u (.updateFile userID text body)
        (write (.saveFile f) fun a => foundOr 500 "could not update file" a fun _ => .ret (.file f)) v :=
    fun f v hv hfid => within_saveFile hid hfid rfl (fun _ => rfl) hv fun a w =>
      Early.foundOr (P := fun p => Within deps u _ p w) (answer w) fun _ _ => trivial
  -- The name does not matter: every renamed row is moved alike.
  have move : ∀ f, f.id = id → Within deps u (.updateFile userID text body)
      (moveFile userID f req.folderID fun f => write (.saveFile f) fun a =>
        foundOr 500 "could not update file" a fun _ => .ret (.file f)) t := by
    intro f hfid
    match req.folderID with
    | none => exact finish f t hread hfid
    | some [] => exact finish _ t hread hfid
    | some (c :: folderText) =>
      refine Early.parseID (P := fun p => Within deps u _ p t) (answer t) fun folderID _ => ?_
      refine within_lookUp rfl hread fun a v hv => ?_
      exact Early.foundOr (P := fun p => Within deps u _ p v) (answer v) fun _ _ => finish _ v hv hfid
  show Within deps u _ (renameFile r req.name _) t
  match req.name with
  | none => exact move r hrid
  | some [] => trivial
  | some (c :: name) => exact move { r with name := c :: name } hrid

/-- The pending uploads are where they were, but for those that have gone. -/
theorem WithinQuota.same_db {t : Store} (h : WithinQuota u s) (hdb : t.db = s.db)
    (hsub : ∀ x ∈ t.staging.accepted ++ t.staging.completed,
      x ∈ s.staging.accepted ++ s.staging.completed ∨ x.fits u t.db = true) : WithinQuota u t where
  user := hdb ▸ h.user
  rows := hdb ▸ h.rows
  uploads x hx := (hsub x hx).elim (fun hs => hdb ▸ h.uploads x hs) id

theorem WithinQuota.launch {t : Store} (h : WithinQuota u s) (hq : q.launch s = some t) :
    WithinQuota u t := by
  refine h.same_db (launch_cases hq).1 fun x hx => Or.inl ?_
  cases q with
  | finishTusUpload upload =>
    simp only [Request.launch] at hq
    split at hq
    · obtain rfl := Option.some.inj hq
      exact (List.mem_append.1 hx).elim (List.mem_append_left _)
        fun hx => List.mem_append_right _ (List.mem_of_mem_erase hx)
    · cases hq
  | deliver worker msg =>
    simp only [Request.launch] at hq
    split at hq
    · obtain rfl := Option.some.inj hq
      exact hx
    · cases hq
  | _ =>
    obtain rfl := Option.some.inj hq
    exact hx

/-- The bytes that come are as many as the upload has declared. -/
theorem WithinQuota.env {v : EnvMove} {t : Store} (h : WithinQuota u s)
    (hc : honestClient (.env s v) = true) (hv : v.run s = some t) : WithinQuota u t := by
  have hdb := (env_cases hv).1
  cases v with
  | receive upload body =>
    simp only [EnvMove.run] at hv
    split at hv
    · next hupload =>
      obtain rfl := Option.some.inj hv
      refine h.same_db rfl fun x hx => ?_
      obtain hx | hx := List.mem_append.1 hx
      · exact Or.inl (List.mem_append_left _ (List.mem_of_mem_erase hx))
      · obtain rfl | hx := List.mem_cons.1 hx
        · right
          have hlen : upload.size.toInt = body.length := by
            simp only [honestClient, Bool.not_eq_true'] at hc
            exact hupload.2.resolve_left (by simp [hc])
          have hlt := Int64.toInt_lt upload.size
          have hsize : Int64.ofNat body.length = upload.size := by
            rw [← Int64.toInt_inj, Int64.toInt_ofNat_of_lt (by omega), hlen]
          show Upload.fits u s.db { upload with size := Int64.ofNat body.length } = true
          rw [hsize]
          exact h.uploads upload (List.mem_append_left _ hupload.1)
        · exact Or.inl (List.mem_append_right _ hx)
    · cases hv
  | tick now =>
    simp only [EnvMove.run] at hv
    split at hv
    · obtain rfl := Option.some.inj hv
      exact h.same_db rfl fun x hx => Or.inl hx
    · cases hv
  | put key body =>
    simp only [EnvMove.run] at hv
    split at hv
    · obtain rfl := Option.some.inj hv
      exact h.same_db rfl fun x hx => Or.inl hx
    · cases hv
  | redeliver msg =>
    simp only [EnvMove.run] at hv
    split at hv
    · obtain rfl := Option.some.inj hv
      exact h.same_db rfl fun x hx => Or.inl hx
    · cases hv

/-- **One call** keeps the user within the quota. -/
theorem WithinQuota.exec {e : Stmt α} {o : Oracle} {a : α} {t : Store} (h : WithinQuota u s)
    (hwf : WellFormed s) (hz : Sized s) (hknown : CallKnown s q e) (hcall : CallSized s q e)
    (hpre : FitsQuota u s e) (hstanding : (quotaWatch deps u).standing s t = true)
    (hx : exec o e s = some (a, t)) : WithinQuota u t := by
  cases e with
  | write w =>
    obtain ⟨db', hw, rfl⟩ := exec_write hx
    refine ⟨Write.run_users hw ▸ h.user, usedBytes_write_le hwf hz hknown hcall h.rows hpre hw,
      fun x hx => ?_⟩
    -- Nobody takes the room of a pending upload.
    have hkept := List.all_eq_true.1 hstanding x hx
    simpa [h.uploads x hx] using hkept
  | staging st =>
    cases st with
    | create upload =>
      simp only [Optiflow.exec, Option.some.injEq, Prod.mk.injEq] at hx
      obtain ⟨-, rfl⟩ := hx
      refine h.same_db rfl fun x hx => ?_
      obtain rfl | hx := List.mem_cons.1 hx
      · exact Or.inr hpre
      · exact Or.inl hx
    | openFile path =>
      simp only [Optiflow.exec, Option.some.injEq, Prod.mk.injEq] at hx
      obtain ⟨-, rfl⟩ := hx
      exact h.same_db rfl fun x hx => Or.inl hx
    | removeFile path =>
      simp only [Optiflow.exec, Option.some.injEq, Prod.mk.injEq] at hx
      obtain ⟨-, rfl⟩ := hx
      refine h.same_db rfl fun x hx => Or.inl ?_
      simp only [StagingStmt.run] at hx
      split at hx <;> exact hx
  | newUUID =>
    simp only [Optiflow.exec] at hx
    split at hx
    · cases hx
    · simp only [Option.some.injEq, Prod.mk.injEq] at hx
      obtain ⟨-, rfl⟩ := hx
      exact h.same_db rfl fun x hx => Or.inl hx
  | _ =>
    simp only [Optiflow.exec, Option.some.injEq, Prod.mk.injEq] at hx
    obtain ⟨-, rfl⟩ := hx
    exact h.same_db rfl fun x hx => Or.inl hx

theorem withinQuota_valid (deps : Deps) (u : User) :
    (withinQuota deps u).ValidOver (sizedRows deps) (quotaWatch deps u) where
  rely_refl _ := trivial
  rely_trans _ _ := trivial
  start _ _ h _ hq _ := ⟨h.launch hq, trivial⟩
  safe {q s s'} _ _ h hq _ _ := by
    cases q with
    | presign userID body => exact within_presign
    | presignVersion userID id body => exact within_presignVersion
    | tusPreCreate userID upload => exact within_tusPreCreate
    | finishTusUpload upload =>
      rw [services_launch] at hq
      have hdb := (launch_cases hq).1
      rw [Request.launch] at hq
      split at hq
      · next hmem => exact within_finishTusUpload (hdb ▸ h.uploads upload (List.mem_append_right _ hmem))
      · cases hq
    | complete userID id => exact within_complete userID id
    | updateFile userID id body => exact within_updateFile userID id body
    | _ =>
      -- Nobody else makes rows or uploads.
      refine Outline.safeOver_of_pre (fun e _ hP => ?_) (fun _ => trivial) _ _
      cases e with
      | write w =>
        cases w with
        | createFile mk =>
          obtain ⟨-, -, ⟨-, _, _, hq⟩ | ⟨_, hq, -⟩⟩ := hP.1 0 <;> cases hq
        | presignVersion userID root mk =>
          obtain ⟨⟨_, _, hq⟩, -⟩ := hP.1
          cases hq
        | saveFile f => obtain ⟨⟨_, _, hq⟩ | ⟨_, _, _, hq⟩, -⟩ := hP.1 <;> cases hq
        | _ => trivial
      | staging st =>
        cases st with
        | create x =>
          obtain ⟨_, _, hq⟩ := hP.1
          cases hq
        | _ => trivial
      | _ => trivial
  call hP h hpre hfits _ hstanding hx _ :=
    ⟨h.exec hP.1 hP.2.2 hpre.1 hpre.2 hfits hstanding hx, trivial⟩
  env hc _ h _ hv _ := ⟨h.env hc.1 hv, trivial⟩

end Watched

/-! ## Every run -/

theorem sized_fresh (users : Table User) : Sized (Store.fresh users) where
  row _ hf := absurd hf Table.not_mem_empty
  nonneg _ hb := absurd hb List.not_mem_nil
  pending _ hb := absurd hb List.not_mem_nil
  object _ hb := absurd hb List.not_mem_nil
  keys _ ho := absurd ho List.not_mem_nil
  puts _ hp := absurd hp List.not_mem_nil
  completed _ hu := absurd hu List.not_mem_nil

/-- **The quota is enforced** for honest clients: in every run in which nobody takes the room that the
check of somebody else has found, and in which no check overflows, the rows of the user declare at most
the quota. -/
theorem quota_enforced (deps : Deps) (users : Table User) {c : Services} {u : User}
    (h : (services deps).Reaches (quotaWatch deps u).undisturbed (start (Store.fresh users)) c)
    (hu : u ∈ users) (hquota : 0 ≤ u.storageQuotaBytes.toInt)
    (hhonest : ∀ st ∈ c.trace, honestClient st = true)
    (hfits : ∀ st ∈ c.trace, sumFits u.id st = true) :
    c.store.db.usedBytes u.id ≤ u.storageQuotaBytes.toInt := by
  have hwf := wellFormed_fresh users
  have h₀ : WithinQuota u (Store.fresh users) := ⟨hu, hquota, fun _ hx => absurd hx List.not_mem_nil⟩
  exact ((withinQuota_valid deps u).good (sizes_valid deps) h (fun _ _ hm => hm)
    ⟨hwf, hwf, sized_fresh users⟩ h₀ (fun st hst => ⟨trivial, hhonest st hst⟩)
    fun st hst => ⟨hhonest st hst, hfits st hst⟩).1.rows

/-! ### Two uploads against a quota of 1000 bytes -/

/-- Alice declares some bytes. -/
def declare (sizeBytes : Int64) : Request :=
  .presign 1 (some ⟨lit "a.txt", sizeBytes, lit "text/plain", none⟩)

/-- One upload after the other; the first is complete when the second is presigned. -/
theorem quota_enforced_twoUploads :
    ∃ c : Services, (services plainDeps).Reaches (quotaWatch plainDeps alice).undisturbed
      (start (Store.fresh aliceOnly)) c ∧ c.store.db.usedBytes 1 = 5 ∧
      c.store.db.usedBytes alice.id ≤ alice.storageQuotaBytes.toInt := by
  obtain ⟨c, hc, hP⟩ := exists_run (quotaWatch plainDeps alice).undisturbed
    [.start (declare 3), .step 0 {}, .step 0 {}, .step 0 { uuid := 100 }, .step 0 {}, .step 0 {},
      .env (.put (storageKey 1 100 (lit "a.txt")) [1, 2, 3]), .start (.complete 1 (text 100)),
      .step 1 {}, .step 1 {}, .step 1 {}, .start (declare 2), .step 2 {}, .step 2 {},
      .step 2 { uuid := 101 }]
    (fun c => c.store.db.usedBytes 1 = 5 &&
      c.trace.all fun st => honestClient st && sumFits alice.id st)
    (by decide)
  simp only [Bool.and_eq_true, List.all_eq_true, decide_eq_true_eq] at hP
  exact ⟨c, hc, hP.1, quota_enforced plainDeps aliceOnly hc (List.mem_singleton.2 rfl) (by decide)
    (fun st hst => (hP.2 st hst).1) fun st hst => (hP.2 st hst).2⟩

/-- Both uploads are checked before either row is made. -/
theorem quota_exceeded :
    ∃ c : Services, (services plainDeps).Reaches Machine.anySchedule
      (start (Store.fresh aliceOnly)) c ∧ (∀ st ∈ c.trace, succeeds st = true) ∧
      (∀ st ∈ c.trace, honestClient st = true) ∧ alice ∈ c.store.db.users ∧
      ¬c.store.db.usedBytes alice.id ≤ alice.storageQuotaBytes.toInt := by
  obtain ⟨c, hc, hP⟩ := exists_run Machine.anySchedule
    [.start (declare 600), .step 0 {}, .step 0 {}, .start (declare 600), .step 1 {}, .step 1 {},
      .step 0 { uuid := 100 }, .step 1 { uuid := 101 }]
    (fun c => (c.trace.all fun st => succeeds st && honestClient st) &&
      (c.store.db.users.rows.any (fun u => u = alice) && decide (1000 < c.store.db.usedBytes 1)))
    (by decide)
  simp only [Bool.and_eq_true, List.all_eq_true, List.any_eq_true, decide_eq_true_eq] at hP
  obtain ⟨hs, ⟨u, hu, rfl⟩, hused⟩ := hP
  exact ⟨c, hc, fun st hst => (hs st hst).1, fun st hst => (hs st hst).2, hu, not_le.2 hused⟩

end Optiflow
