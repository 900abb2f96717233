import Optiflow.Proof.Footprint
import Optiflow.Proof.Runs
import Optiflow.Proof.Sizes

/-!
# Recorded sizes

`complete` records the size that the bucket reports and makes the row visible, but the URL that the
object was stored with goes on working.  Along a run the recorded sizes are those of the objects exactly
when nobody changes the length of an object between the report and the Save, or after the Save
(`recorded_sizes_iff`).
-/

namespace Optiflow

open Interleave Code UploadSvc

/-! ## Sizes and steps -/

/-- The size that the bucket reports of an object. -/
def Store.reportedSize (s : Store) (key : GoString) : Option Int64 :=
  (s.bucket.object? key).map fun body => Int64.ofNat body.length

/-- Every row that does not wait for its upload has the size of the object under its key. -/
def SizesRecorded (s : Store) : Prop :=
  ∀ f ∈ s.db.files, f.status ≠ .pending → s.reportedSize f.storageKey = some f.sizeBytes

/-- A PUT over the object of a row that does not wait for it keeps the length, and a Save finds the
object as long as it was reported. -/
def keepsLength : ServiceStep → Bool
  | .env s (.put key body) => s.db.files.rows.all fun f =>
      f.status = .pending || f.storageKey ≠ key ||
        s.reportedSize key = some (Int64.ofNat body.length)
  | .call s _ _ (.write (.saveFile f)) (.ok _) => s.reportedSize f.storageKey = some f.sizeBytes
  | _ => true

/-- The requests that upload by presigned URL. -/
def Request.byURL : Request → Bool
  | .presign _ _ => true
  | .presignVersion _ _ _ => true
  | .complete _ _ => true
  | _ => false

/-- Only uploads by presigned URL are started. -/
def urlUploads : Machine.Schedule Store Request Reply Oracle EnvMove Stmt
  | _, .start q => q.byURL
  | _, _ => true

/-! ## The calls of an upload by URL -/

/-- New rows wait for their upload, saved ones do not, and no object is touched. -/
def UploadCall {α : Type} : Stmt α → Prop
  | .write (.createFile mk) => ∀ id, (mk id).status = .pending
  | .write (.presignVersion _ _ mk) => ∀ id, (mk id).status = .pending
  | .write (.saveFile f) => f.status ≠ .pending
  | .write _ => False
  | .bucket (.putObject _ _ _ _) => False
  | .bucket (.removeObject _) => False
  | _ => True

section Calls

variable {α : Type}

/-- Code of such calls. -/
abbrev Uploads (c : Handler α) : Prop := c.Over UploadCall fun _ => True

theorem Reads.uploads {userID : UUID} {c : Handler α} (h : Reads userID c) : Uploads c := by
  refine h.mono (fun e he => ?_) fun _ _ => trivial
  cases e with
  | query q => trivial
  | now => trivial
  | _ => exact he.elim

theorem uploads_presignUpload (file : File) : Uploads (presignUpload file) := by
  refine over_bind (over_call trivial) fun a => ?_
  cases a with
  | none => exact (silent_fail _ _).over
  | some url => exact over_bind (over_call trivial) fun _ => over_pure _

theorem uploads_presign (userID : UUID) (body : Option PresignRequest) :
    Uploads (presign userID body) := by
  refine over_bind (silent_decodeBody body).over fun req => ?_
  refine over_bind (silent_failIf _ _ _).over fun _ => ?_
  refine over_bind (reads_checkQuota _ _).uploads fun a => ?_
  refine over_bind (silent_orQuotaError a).over fun _ => ?_
  refine over_bind (reads_ownedFolderID _ _).uploads fun folderID => ?_
  refine over_bind (over_call fun _ => rfl) fun b => ?_
  exact over_bind (silent_foundOr b).over fun file => uploads_presignUpload file

theorem uploads_presignVersion (userID : UUID) (id : GoString)
    (body : Option PresignVersionRequest) : Uploads (presignVersion userID id body) := by
  refine over_bind (silent_parseID _ _).over fun id => ?_
  refine over_bind (silent_decodeBody body).over fun req => ?_
  refine over_bind (silent_failIf _ _ _).over fun _ => over_bind (over_call trivial) fun a => ?_
  refine over_bind (silent_found a).over fun anyVersion => ?_
  refine over_bind (reads_checkQuota _ _).uploads fun b => ?_
  refine over_bind (silent_orQuotaError b).over fun _ => over_bind (over_call trivial) fun c => ?_
  refine over_bind (silent_foundOr c).over fun current => over_bind (over_call trivial) fun d => ?_
  refine over_bind (silent_foundOr d).over fun maxVersion => ?_
  refine over_bind (over_call fun _ => rfl) fun e => ?_
  exact over_bind (silent_foundOr e).over fun file => uploads_presignUpload file

theorem uploads_complete (userID : UUID) (id : GoString) : Uploads (complete userID id) := by
  refine over_bind (silent_parseID _ _).over fun id => over_bind (over_call trivial) fun a => ?_
  refine over_bind (silent_found a).over fun file => ?_
  refine over_bind (silent_failIf _ _ _).over fun _ => over_bind (over_call trivial) fun b => ?_
  cases b with
  | none => exact (silent_fail _ _).over
  | some size =>
    refine over_bind (over_call (status_completed file size)) fun c => ?_
    refine over_bind (silent_foundOr c).over fun _ => over_bind ?_ fun _ => over_pure _
    cases processingTask (completed file size) with
    | none => exact over_pure ()
    | some task => exact over_bind (over_call trivial) fun _ => over_pure ()

end Calls

/-- The outline of the calls of an upload by URL. -/
abbrev uploadCalls (deps : Deps) : Outline (services deps) :=
  Outline.calls (services deps) (fun _ _ e => UploadCall e) fun st =>
    ∀ s q, st = .start s q → q.byURL = true

theorem uploadCalls_valid (deps : Deps) : (uploadCalls deps).Valid := by
  refine Outline.calls_valid fun {q s} hq s' => ?_
  have safe : ∀ c : Handler Reply, Uploads c → (uploadCalls deps).Safe q c.run s' :=
    fun c hc => Outline.safe_of_over hc s'
  have hq : q.byURL = true := hq s q rfl
  cases q with
  | presign userID body => exact safe _ (uploads_presign userID body)
  | presignVersion userID id body => exact safe _ (uploads_presignVersion userID id body)
  | complete userID id => exact safe _ (uploads_complete userID id)
  | _ => cases hq

/-! ## One step -/

section Steps

variable {s : Store} {db' : DB}

/-- Rows that wait for their upload do not matter. -/
theorem SizesRecorded.insert (h : SizesRecorded s) {f : File} {db : DB} (hf : ¬db.files.Used (key f))
    (hdb : ∀ g ∈ db.files, ∃ r ∈ s.db.files, g.status = r.status ∧ g.storageKey = r.storageKey ∧
      g.sizeBytes = r.sizeBytes) (hpending : f.status = .pending) :
    SizesRecorded { s with db := { db with files := db.files.insert f hf } } := by
  intro g hg hstatus
  rcases (Table.mem_insert hf).1 hg with rfl | hg
  · exact absurd hpending hstatus
  · obtain ⟨r, hr, hrs, hrk, hrb⟩ := hdb g hg
    rw [hrk, hrb]
    exact h r hr (hrs ▸ hstatus)

/-- A write keeps the recorded sizes right unless it records a wrong one. -/
theorem sizesRecorded_write_iff (h : SizesRecorded s) {α : Type} {w : Write α} {q : Request}
    {o : Oracle} {a : Except DbError α} (hcall : UploadCall (.write w))
    (hw : w.run o s.issued s.db = some (a, db')) :
    SizesRecorded { s with db := db' } ↔ keepsLength (.call s q o (.write w) a) = true := by
  cases w with
  | createFile mk =>
    refine iff_of_true ?_ rfl
    obtain ⟨-, rfl⟩ | ⟨hf, -, -, -, rfl⟩ := Write.createFile_cases hw
    · exact h
    · exact h.insert hf (fun g hg => ⟨g, hg, rfl, rfl, rfl⟩) (hcall o.uuid)
  | presignVersion userID root mk =>
    refine iff_of_true ?_ rfl
    obtain ⟨-, rfl⟩ | ⟨hf, -, -, -, rfl⟩ := Write.presignVersion_cases hw
    · exact h
    · refine h.insert hf (fun g hg => ?_) (hcall o.uuid)
      obtain ⟨r, hr, rfl⟩ := DB.mem_supersede.1 hg
      refine ⟨r, hr, ?_⟩
      split <;> exact ⟨rfl, rfl, rfl⟩
  | saveFile f =>
    obtain ⟨rfl, rfl⟩ | ⟨rfl, rfl⟩ := Write.saveFile_cases hw
    · exact iff_of_true h rfl
    · have hrow : (s.db.savedRow f).storageKey = f.storageKey ∧
          (s.db.savedRow f).sizeBytes = f.sizeBytes := by
        obtain hsaved | hsaved := s.db.savedRow_eq f <;> rw [hsaved] <;> exact ⟨rfl, rfl⟩
      simp only [keepsLength, decide_eq_true_eq]
      constructor
      · intro hall
        have := hall (s.db.savedRow f) (DB.mem_saveFile.2 (Or.inl rfl))
          (by rw [DB.status_savedRow]; exact hcall)
        rwa [hrow.1, hrow.2] at this
      · intro hsize g hg hstatus
        rcases DB.mem_saveFile.1 hg with rfl | ⟨hg, -⟩
        · rw [hrow.1, hrow.2]
          exact hsize
        · exact h g hg hstatus
  | _ => exact hcall.elim

/-- The environment keeps the recorded sizes right unless a PUT changes the length of an object. -/
theorem sizesRecorded_env_iff (h : SizesRecorded s) {v : EnvMove} {s' : Store}
    (hv : v.run s = some s') : SizesRecorded s' ↔ keepsLength (.env s v) = true := by
  cases v with
  | put key body =>
    simp only [EnvMove.run] at hv
    split at hv
    · obtain rfl := Option.some.inj hv
      simp only [keepsLength, List.all_eq_true, Bool.or_eq_true, decide_eq_true_eq, or_assoc]
      refine forall₂_congr fun f hf => ?_
      by_cases hstatus : f.status = .pending
      · exact iff_of_true (fun h => absurd hstatus h) (Or.inl hstatus)
      · rw [or_iff_right hstatus, imp_iff_right hstatus]
        have hrow := h f hf hstatus
        by_cases hkey : f.storageKey = key
        · subst hkey
          rw [or_iff_right (not_not_intro rfl), hrow]
          simp only [Store.reportedSize, Bucket.object?_put, Option.map_some]
          exact eq_comm
        · refine iff_of_true ?_ (Or.inl hkey)
          simpa only [Store.reportedSize, Bucket.object?_put_ne hkey] using hrow
    · cases hv
  | _ =>
    refine iff_of_true ?_ rfl
    simp only [EnvMove.run] at hv
    split at hv
    · obtain rfl := Option.some.inj hv
      exact h
    · cases hv

/-- A call keeps the recorded sizes right unless it records a wrong one. -/
theorem sizesRecorded_call_iff (h : SizesRecorded s) {α : Type} {e : Stmt α} {q : Request}
    {o : Oracle} {a : α} {s' : Store} (hcall : UploadCall e) (hx : exec o e s = some (a, s')) :
    SizesRecorded s' ↔ keepsLength (.call s q o e a) = true := by
  cases e with
  | write w =>
    obtain ⟨db', hw, rfl⟩ := exec_write hx
    exact sizesRecorded_write_iff h hcall hw
  | bucket b =>
    obtain ⟨rfl, rfl⟩ := Prod.mk.inj (Option.some.inj hx)
    refine iff_of_true (fun f hf hstatus => ?_) rfl
    have hobjects : ∀ key, (b.run o s.now s.bucket).2.object? key = s.bucket.object? key := by
      intro key
      cases b with
      | presignedPutURL key' expiry =>
        simp only [BucketStmt.run]
        split <;> rfl
      | putObject key' body size contentType => exact hcall.elim
      | removeObject key' => exact hcall.elim
      | _ => rfl
    simpa only [Store.reportedSize, hobjects] using h f hf hstatus
  | newUUID =>
    refine iff_of_true ?_ rfl
    simp only [exec] at hx
    split at hx
    · cases hx
    · obtain ⟨-, rfl⟩ := Prod.mk.inj (Option.some.inj hx)
      exact h
  | _ =>
    obtain ⟨-, rfl⟩ := Prod.mk.inj (Option.some.inj hx)
    exact iff_of_true h rfl

end Steps

/-! ## The result -/

/-- **Recorded sizes are right as long as no length changes behind a report.**  Along every run of
uploads by presigned URL, in every order of their calls and of the clients' PUTs, all rows that do not
wait for an upload have the size of their object, in all stores passed, if and only if each Save found
the object as long as it had been reported and each PUT over the object of such a row kept the
length. -/
theorem recorded_sizes_iff (deps : Deps) (users : Table User) {c : Services}
    (h : (services deps).Reaches urlUploads (start (Store.fresh users)) c) :
    (∀ s ∈ c.stores, SizesRecorded s) ↔ ∀ st ∈ c.trace, keepsLength st = true := by
  refine (uploadCalls_valid deps).always_iff h trivial
    (fun f hf => absurd hf Table.not_mem_empty) ?_ ?_ ?_ ?_
  · rintro st hst s q rfl
    exact h.starts (P := fun q => q.byURL = true) (fun _ _ hq => hq) hst
  · intro q s s' hs _ _ hq
    obtain ⟨hdb, hbucket, -⟩ := launch_cases hq
    refine iff_of_true (fun f hf hstatus => ?_) rfl
    rw [Store.reportedSize, hbucket]
    exact hs f (hdb ▸ hf) hstatus
  · intro q o α e a s s' hs _ hcall _ hx
    exact sizesRecorded_call_iff hs hcall hx
  · intro v s s' hs _ _ hv
    exact sizesRecorded_env_iff hs hv

/-! ### A text -/

/-- The moves of an upload of two bytes. -/
def textUpload : List (Move Request Oracle EnvMove) :=
  [.start (.presign 1 (some ⟨lit "a.txt", 2, lit "text/plain", none⟩)), .step 0 {}, .step 0 {},
    .step 0 { uuid := 100 }, .step 0 {}, .step 0 {}, .env (.put (storageKey 1 100 (lit "a.txt")) [1, 2]),
    .start (.complete 1 (text 100)), .step 1 {}, .step 1 {}, .step 1 {}]

/-- The row of the upload. -/
def textRow (c : Services) : Option (FileStatus × Int64 × Option Int64) :=
  (c.store.db.files.get? 100).map fun f =>
    (f.status, f.sizeBytes, c.store.reportedSize f.storageKey)

/-- The same bytes are stored twice. -/
theorem recorded_sizes_iff_twice :
    ∃ c : Services, (services plainDeps).Reaches urlUploads (start (Store.fresh aliceOnly)) c ∧
      textRow c = some (.ready, 2, some 2) ∧ ∀ s ∈ c.stores, SizesRecorded s := by
  obtain ⟨c, hc, hP⟩ := exists_run urlUploads
    (textUpload ++ [.env (.put (storageKey 1 100 (lit "a.txt")) [3, 4])])
    (fun c => c.trace.all keepsLength && textRow c = some (.ready, 2, some 2)) (by decide +kernel)
  simp only [Bool.and_eq_true, List.all_eq_true, decide_eq_true_eq] at hP
  exact ⟨c, hc, hP.2, (recorded_sizes_iff plainDeps aliceOnly hc).2 hP.1⟩

/-- The URL is used again, for five bytes: the row says two. -/
theorem recorded_size_outlived :
    ∃ c : Services, (services plainDeps).Reaches urlUploads (start (Store.fresh aliceOnly)) c ∧
      (∀ st ∈ c.trace, succeeds st = true) ∧ textRow c = some (.ready, 2, some 5) ∧
      ¬SizesRecorded c.store := by
  obtain ⟨c, hc, hP⟩ := exists_run urlUploads
    (textUpload ++ [.env (.put (storageKey 1 100 (lit "a.txt")) [1, 2, 3, 4, 5])])
    (fun c => c.trace.all succeeds && textRow c = some (.ready, 2, some 5)) (by decide +kernel)
  simp only [Bool.and_eq_true, List.all_eq_true, decide_eq_true_eq] at hP
  refine ⟨c, hc, hP.1, hP.2, fun hsizes => ?_⟩
  obtain ⟨f, hf, hrow⟩ := Option.map_eq_some_iff.1 hP.2
  simp only [Prod.mk.injEq] at hrow
  obtain ⟨hstatus, hsize, hreported⟩ := hrow
  have := hsizes f (Table.get?_eq_some.1 hf).1 (by rw [hstatus]; decide)
  rw [hreported, hsize] at this
  exact absurd this (by decide)

end Optiflow
