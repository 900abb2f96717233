import Optiflow.Proof.ObjectKeys
import Optiflow.Proof.Rows
import Optiflow.Proof.Runs

/-!
# Declared sizes

`complete` replaces the size that a row declares by the size of the object under its key.  Only the
client puts objects there, so when clients store as many bytes as they have declared, the size of a
row never changes (`SizeKnown`).  The outline `sizes` says so for all runs of such clients.
-/

namespace Optiflow

open Interleave UploadSvc ApiSvc Workers

/-! ## Honest clients -/

/-- A client stores as many bytes as the row declares; the length of a resumable upload is fixed when
it is created. -/
def honestClient : ServiceStep → Bool
  | .env s (.put key body) =>
    s.db.files.births.all fun b => b.storageKey ≠ key || b.sizeBytes.toInt = body.length
  | .env _ (.receive upload _) => !upload.sizeIsDeferred
  | _ => true

/-- The struct has the size that its file was born with, and waits for an upload only if the file did
when it was born. -/
def SizeKnown (s : Store) (f : File) : Prop :=
  ∃ b ∈ s.db.files.births, b.id = f.id ∧ b.sizeBytes = f.sizeBytes ∧
    (f.status = .pending → b.status = .pending)

/-- A key of a file's object belongs to a file or to an upload under way. -/
def KeyUsed (s : Store) (key : GoString) : Prop :=
  ∀ userID id name, key = storageKey userID id name → id ∈ s.issued ∨ s.db.files.Used id

/-- Rows have the sizes they were born with, and so have the objects of the files that waited for
them. -/
structure Sized (s : Store) : Prop where
  row : ∀ f ∈ s.db.files, SizeKnown s f
  nonneg : ∀ b ∈ s.db.files.births, 0 ≤ b.sizeBytes.toInt
  pending : ∀ b ∈ s.db.files.births, b.status = .pending →
    b.id ∉ s.issued ∧ ∃ name, b.storageKey = storageKey b.userID b.id name
  object : ∀ b ∈ s.db.files.births, b.status = .pending → ∀ o ∈ s.bucket.objects,
    o.1 = b.storageKey → b.sizeBytes.toInt = o.2.length
  keys : ∀ o ∈ s.bucket.objects, KeyUsed s o.1
  puts : ∀ p ∈ s.bucket.presignedPuts, KeyUsed s p.1
  completed : ∀ u ∈ s.staging.completed, 0 ≤ u.size.toInt

/-- A save writes the size of the row. -/
def SaveSized (s : Store) {α : Type} : Stmt α → Prop
  | .write (.saveFile f) => SizeKnown s f
  | _ => True

/-- A finished upload is stored under an id that was drawn for it. -/
def TusSized (s : Store) (upload : Upload) {α : Type} : Stmt α → Prop
  | .write (.createFile _) => 0 ≤ upload.size.toInt
  | .bucket (.putObject key _ _ _) => ∃ userID id name, key = storageKey userID id name ∧ id ∈ s.issued
  | _ => True

/-- What holds of a call when clients are honest. -/
def CallSized (s : Store) (q : Request) {α : Type} (e : Stmt α) : Prop :=
  match q with
  | .complete _ _ => SaveSized s e
  | .updateFile _ _ _ => SaveSized s e
  | .finishTusUpload upload => TusSized s upload e
  | _ => True

/-- The outline of sizes. -/
def sizes (deps : Deps) : Outline (services deps) where
  inv s := WellFormed s ∧ Sized s
  rely s t := s.db.files.births ⊆ t.db.files.births ∧ s.issued ⊆ t.issued
  pre q _ e s := CallSized s q e
  post _ _ := True
  cond st := honestClient st = true

section Mono

variable {s t : Store}

theorem SizeKnown.mono (h : s.db.files.births ⊆ t.db.files.births) {f : File} :
    SizeKnown s f → SizeKnown t f :=
  fun ⟨b, hb, hf⟩ => ⟨b, h hb, hf⟩

theorem KeyUsed.mono (h : s.db.files.births ⊆ t.db.files.births) (hi : s.issued ⊆ t.issued)
    {key : GoString} (hk : KeyUsed s key) : KeyUsed t key :=
  fun userID id name hkey => (hk userID id name hkey).imp (fun hid => hi hid) fun hid => hid.mono h

end Mono

/-! ## Writes -/

section Writes

variable {s : Store} {db' : DB}

/-- A write that no file is born by. -/
theorem Sized.same_births (h : Sized s) (hb : db'.files.births = s.db.files.births)
    (hrow : ∀ f ∈ db'.files, SizeKnown s f) : Sized { s with db := db' } where
  row f hf := (hrow f hf).mono (hb ▸ List.Subset.refl _)
  nonneg b hmem := h.nonneg b (hb ▸ hmem)
  pending b hmem := h.pending b (hb ▸ hmem)
  object b hmem := h.object b (hb ▸ hmem)
  keys o ho := KeyUsed.mono (s := s) (t := { s with db := db' }) (hb ▸ List.Subset.refl _)
    (List.Subset.refl _) (h.keys o ho)
  puts p hp := KeyUsed.mono (s := s) (t := { s with db := db' }) (hb ▸ List.Subset.refl _)
    (List.Subset.refl _) (h.puts p hp)
  completed := h.completed

/-- A file is born.  Nothing is stored under a key of an id that is new. -/
theorem Sized.born (h : Sized s) {b : File} (hb : db'.files.births = b :: s.db.files.births)
    (hid : ¬s.db.files.Used b.id) (hrow : ∀ f ∈ db'.files, f = b ∨ SizeKnown s f)
    (hnonneg : 0 ≤ b.sizeBytes.toInt) (hpending : b.status = .pending →
      b.id ∉ s.issued ∧ ∃ name, b.storageKey = storageKey b.userID b.id name) :
    Sized { s with db := db' } := by
  have hsub : s.db.files.births ⊆ db'.files.births := hb ▸ List.subset_cons_self _ _
  refine ⟨fun f hf => ?_, fun x hx => ?_, fun x hx => ?_, fun x hx hp o ho hkey => ?_,
    fun o ho => KeyUsed.mono (s := s) (t := { s with db := db' }) hsub (List.Subset.refl _) (h.keys o ho),
    fun p hp => KeyUsed.mono (s := s) (t := { s with db := db' }) hsub (List.Subset.refl _)
      (h.puts p hp), h.completed⟩
  · obtain rfl | hknown := hrow f hf
    · exact ⟨f, hb ▸ List.mem_cons_self, rfl, rfl, id⟩
    · exact hknown.mono hsub
  · rcases List.mem_cons.1 (hb ▸ hx) with rfl | hx
    · exact hnonneg
    · exact h.nonneg x hx
  · rcases List.mem_cons.1 (hb ▸ hx) with rfl | hx
    · exact hpending
    · exact h.pending x hx
  · rcases List.mem_cons.1 (hb ▸ hx) with rfl | hx
    · obtain ⟨hissued, name, hname⟩ := hpending hp
      exact ((h.keys o ho _ _ _ (hkey.trans hname)).elim hissued hid).elim
    · exact h.object x hx hp o ho hkey

variable {q : Request} {α : Type} {o : Oracle}

theorem Sized.write {w : Write α} {a : Except DbError α} (h : Sized s) (hw : WriteKnown s q w)
    (hz : CallSized s q (.write w)) (hrun : w.run o s.issued s.db = some (a, db')) :
    Sized { s with db := db' } := by
  have hx : exec o (.write w) s = some (a, { s with db := db' }) := by simp [exec, hrun]
  cases w with
  | createFile mk =>
    obtain ⟨-, rfl⟩ | ⟨hu, hissued, -, -, rfl⟩ := Write.createFile_cases hrun
    · exact h
    · obtain ⟨-, -, ⟨hp, -⟩ | ⟨upload, rfl, hstatus, hsize⟩⟩ := hw o.uuid
      · have hid : (mk o.uuid).columnDefaults.id = o.uuid := hp.id_eq
        refine h.born rfl hu (fun f hf => ?_) hp.size_pos.le fun _ => ?_
        · exact ((Table.mem_insert hu).1 hf).imp id (h.row f)
        · rw [hid]
          exact ⟨hissued, hp.key_eq⟩
      · refine h.born rfl hu (fun f hf => ?_) ?_ fun hpending => absurd hpending hstatus
        · exact ((Table.mem_insert hu).1 hf).imp id (h.row f)
        · show 0 ≤ (mk o.uuid).sizeBytes.toInt
          rw [hsize]
          exact hz
  | presignVersion userID root mk =>
    obtain ⟨-, rfl⟩ | ⟨hu, hissued, -, -, rfl⟩ := Write.presignVersion_cases hrun
    · exact h
    · obtain ⟨hid', -, -, -, hp⟩ := hw.2.2 o.uuid
      have hid : (mk o.uuid).columnDefaults.id = o.uuid := hid'
      refine h.born rfl hu (fun f hf => ?_) hp.size_pos.le fun _ => ?_
      · refine ((Table.mem_insert hu).1 hf).imp id fun hf => ?_
        obtain ⟨g, hg, rfl⟩ := DB.mem_supersede.1 hf
        split
        · exact h.row g hg
        · exact h.row g hg
      · rw [hid]
        exact ⟨hissued, hp.key_eq⟩
  | saveFile f =>
    obtain ⟨-, rfl⟩ | ⟨-, rfl⟩ := Write.saveFile_cases hrun
    · exact h
    · have hsized : SizeKnown s f := by
        obtain ⟨⟨userID, id, rfl⟩ | ⟨userID, id, body, rfl⟩, -⟩ := hw <;> exact hz
      refine h.same_births (Table.births_save ?_) fun g hg => ?_
      · rw [key_file, DB.id_savedRow]
        exact hw.2.used
      · rcases DB.mem_saveFile.1 hg with rfl | ⟨hg, -⟩
        · obtain he | he := s.db.savedRow_eq f
          · rw [he]
            exact hsized
          · rw [he]
            exact hsized
        · exact h.row g hg
  | updateFile id u =>
    obtain ⟨-, rfl⟩ | ⟨-, rfl⟩ := Write.updateFile_cases hrun
    · exact h
    · refine h.same_births rfl fun f hf => ?_
      obtain ⟨g, hg, rfl⟩ := DB.mem_updateFile.1 hf
      obtain ⟨b, hb, hid, hsize, hpending⟩ := h.row g hg
      split
      · refine ⟨b, hb, hid, hsize, fun hp => ?_⟩
        -- A worker leaves the row ready or failed.
        obtain ⟨worker, msg, -, -, -, -, rfl | rfl⟩ := hw
        · rw [show ((finishedUpdates msg.task).apply g).status = .ready from
            status_finishedUpdates msg.task] at hp
          cases hp
        · cases hp
      · exact ⟨b, hb, hid, hsize, hpending⟩
  | restoreVersion userID root targetID =>
    obtain ⟨-, rfl⟩ | ⟨-, rfl⟩ := Write.restoreVersion_cases hrun
    · exact h
    · refine h.same_births rfl fun f hf => ?_
      obtain ⟨g, hg, b, rfl⟩ | hwrote := file_cases hx hf
      · exact h.row g hg
      · exact hwrote.elim
  | deleteFile userID root =>
    obtain ⟨-, rfl⟩ | ⟨-, rfl⟩ := Write.deleteFile_cases hrun
    · exact h
    · exact h.same_births rfl fun f hf => h.row f (DB.mem_deleteFiles.1 hf).1
  | deleteFolder userID folderID =>
    obtain ⟨-, rfl⟩ | ⟨versions, -, hd⟩ := Write.deleteFolder_cases hrun
    · exact h
    · have hshrinks := DB.shrinks_deleteFolderTree hd
      exact h.same_births hshrinks.file_births fun f hf => h.row f (hshrinks.files f hf)
  | _ =>
    obtain ⟨folders, shares, tokens, rfl⟩ := Write.leaves_files rfl hrun
    exact h.same_births rfl h.row

end Writes

/-! ## Other steps -/

section Steps

variable {s s' : Store}

/-- A step that leaves the rows alone. -/
theorem Sized.same_db (h : Sized s) (hdb : s'.db = s.db) (hissued : s.issued ⊆ s'.issued)
    (hfresh : ∀ id ∈ s'.issued, id ∉ s.issued → ¬s.db.files.Used id)
    (hobjects : ∀ o ∈ s'.bucket.objects, o ∈ s.bucket.objects ∨ KeyUsed s' o.1 ∧
      ∀ b ∈ s.db.files.births, b.status = .pending → o.1 = b.storageKey →
        b.sizeBytes.toInt = o.2.length)
    (hputs : ∀ p ∈ s'.bucket.presignedPuts, p ∈ s.bucket.presignedPuts ∨ KeyUsed s' p.1)
    (hcompleted : ∀ u ∈ s'.staging.completed, u ∈ s.staging.completed ∨ 0 ≤ u.size.toInt) :
    Sized s' := by
  have hsub : s.db.files.births ⊆ s'.db.files.births := hdb ▸ List.Subset.refl _
  refine ⟨fun f hf => (h.row f (hdb ▸ hf)).mono hsub, fun b hb => h.nonneg b (hdb ▸ hb),
    fun b hb hp => ?_, fun b hb hp o ho hkey => ?_, fun o ho => ?_, fun p hp => ?_, fun u hu => ?_⟩
  · rw [hdb] at hb
    obtain ⟨hid, hname⟩ := h.pending b hb hp
    exact ⟨fun hmem => hfresh _ hmem hid (Table.used_iff.2 ⟨b, hb, rfl⟩), hname⟩
  · rw [hdb] at hb
    obtain ho | ⟨-, ho⟩ := hobjects o ho
    · exact h.object b hb hp o ho hkey
    · exact ho b hb hp hkey
  · exact (hobjects o ho).elim (fun ho => (h.keys o ho).mono hsub hissued) And.left
  · exact (hputs p hp).elim (fun hp => (h.puts p hp).mono hsub hissued) id
  · exact (hcompleted u hu).elim (h.completed u) id

variable {q : Request} {α : Type} {o : Oracle}

theorem Sized.bucket {b : BucketStmt α} {a : α} (h : Sized s) (hw : CallKnown s q (.bucket b))
    (hz : CallSized s q (.bucket b)) (hx : exec o (.bucket b) s = some (a, s')) : Sized s' := by
  simp only [exec, Option.some.injEq, Prod.mk.injEq] at hx
  obtain ⟨-, rfl⟩ := hx
  have same : ∀ {b' : Bucket}, (∀ x ∈ b'.objects, x ∈ s.bucket.objects) →
      (∀ p ∈ b'.presignedPuts, p ∈ s.bucket.presignedPuts ∨ KeyUsed s p.1) →
      Sized { s with bucket := b' } := fun hobjects hputs =>
    h.same_db rfl (List.Subset.refl _) (fun _ hid hne => absurd hid hne)
      (fun x hx => Or.inl (hobjects x hx)) hputs fun u hu => Or.inl hu
  cases b with
  | presignedPutURL key expiry =>
    simp only [BucketStmt.run]
    split
    · exact same (fun x hx => hx) fun p hp => Or.inl hp
    · refine same (fun x hx => hx) fun p hp => ?_
      rcases List.mem_cons.1 hp with rfl | hp
      · obtain ⟨userID, id, name, rfl, hid⟩ := hw
        exact Or.inr fun userID' id' name' hkey => Or.inr (storageKey_inj hkey ▸ hid)
      · exact Or.inl hp
  | putObject key body size contentType =>
    -- The key is a worker's, or it has an id that was drawn for a finished upload.
    have hkey : KeyUsed s key ∧ ∀ b ∈ s.db.files.births, b.status = .pending → key ≠ b.storageKey := by
      obtain ⟨upload, rfl⟩ | ⟨-, hworker⟩ := hw
      · obtain ⟨userID, id, name, rfl, hid⟩ := hz
        refine ⟨fun userID' id' name' hk => Or.inl (storageKey_inj hk ▸ hid), fun b hb hp hk => ?_⟩
        obtain ⟨hissued, name', hname⟩ := h.pending b hb hp
        exact hissued (storageKey_inj (hk.trans hname) ▸ hid)
      · refine ⟨fun userID id name hk => absurd hk (hworker.ne_storageKey _ _ _), fun b hb hp hk => ?_⟩
        obtain ⟨-, name, hname⟩ := h.pending b hb hp
        exact hworker.ne_storageKey _ _ _ (hk.trans hname)
    simp only [BucketStmt.run]
    split
    · exact same (fun x hx => hx) fun p hp => Or.inl hp
    · refine h.same_db rfl (List.Subset.refl _) (fun _ hid hne => absurd hid hne) (fun x hx => ?_)
        (fun p hp => Or.inl hp) fun u hu => Or.inl hu
      rcases List.mem_cons.1 hx with rfl | hx
      · exact Or.inr ⟨hkey.1, fun b hb hp he => absurd he (hkey.2 b hb hp)⟩
      · exact Or.inl (List.mem_filter.1 hx).1
  | removeObject key =>
    simp only [BucketStmt.run]
    split
    · exact same (fun x hx => hx) fun p hp => Or.inl hp
    · exact same (fun x hx => (List.mem_filter.1 hx).1) fun p hp => Or.inl hp
  | _ => exact same (fun x hx => hx) fun p hp => Or.inl hp

theorem Sized.exec {e : Stmt α} {a : α} (h : Sized s) (hw : CallKnown s q e) (hz : CallSized s q e)
    (hx : exec o e s = some (a, s')) : Sized s' := by
  have same : ∀ {t : Store}, t.db = s.db → t.bucket = s.bucket → t.issued = s.issued →
      t.staging.completed = s.staging.completed → Sized t := fun hdb hb hi hc =>
    h.same_db hdb (hi ▸ List.Subset.refl _) (fun _ hid hne => absurd (hi ▸ hid) hne)
      (fun x hx => Or.inl (hb ▸ hx)) (fun p hp => Or.inl (hb ▸ hp)) fun u hu => Or.inl (hc ▸ hu)
  cases e with
  | write w =>
    obtain ⟨db', hrun, rfl⟩ := exec_write hx
    exact h.write hw hz hrun
  | bucket b => exact h.bucket hw hz hx
  | newUUID =>
    simp only [Optiflow.exec] at hx
    split at hx
    · cases hx
    · next hfresh =>
      simp only [Option.some.injEq, Prod.mk.injEq] at hx
      obtain ⟨-, rfl⟩ := hx
      rw [not_or] at hfresh
      refine h.same_db rfl (List.subset_cons_self _ _) (fun id hid hne => ?_)
        (fun x hx => Or.inl hx) (fun p hp => Or.inl hp) fun u hu => Or.inl hu
      rcases List.mem_cons.1 hid with rfl | hid
      · exact hfresh.2
      · exact absurd hid hne
  | staging st =>
    simp only [Optiflow.exec, Option.some.injEq, Prod.mk.injEq] at hx
    obtain ⟨-, rfl⟩ := hx
    refine same rfl rfl rfl ?_
    cases st with
    | removeFile path =>
      simp only [StagingStmt.run]
      split <;> rfl
    | _ => rfl
  | _ =>
    simp only [Optiflow.exec, Option.some.injEq, Prod.mk.injEq] at hx
    obtain ⟨-, rfl⟩ := hx
    exact same rfl rfl rfl rfl

theorem Sized.launch (h : Sized s) (hq : q.launch s = some s') : Sized s' := by
  obtain ⟨hdb, hb, hi, -⟩ := launch_cases hq
  refine h.same_db hdb (hi ▸ List.Subset.refl _) (fun _ hid hne => absurd (hi ▸ hid) hne)
    (fun x hx => Or.inl (hb ▸ hx)) (fun p hp => Or.inl (hb ▸ hp)) fun u hu => Or.inl ?_
  cases q with
  | finishTusUpload upload =>
    simp only [Request.launch] at hq
    split at hq
    · obtain rfl := Option.some.inj hq
      exact List.mem_of_mem_erase hu
    · cases hq
  | deliver worker msg =>
    simp only [Request.launch] at hq
    split at hq
    · obtain rfl := Option.some.inj hq
      exact hu
    · cases hq
  | _ =>
    obtain rfl := Option.some.inj hq
    exact hu

theorem Sized.env {v : EnvMove} (h : Sized s) (hc : honestClient (.env s v) = true)
    (hv : v.run s = some s') : Sized s' := by
  cases v with
  | tick now =>
    simp only [EnvMove.run] at hv
    split at hv
    · obtain rfl := Option.some.inj hv
      exact h.same_db rfl (List.Subset.refl _) (fun _ hid hne => absurd hid hne)
        (fun x hx => Or.inl hx) (fun p hp => Or.inl hp) fun u hu => Or.inl hu
    · cases hv
  | put key body =>
    simp only [EnvMove.run] at hv
    split at hv
    · next hput =>
      obtain rfl := Option.some.inj hv
      obtain ⟨p, hp, hpk⟩ := List.any_eq_true.1 hput
      simp only [Bool.and_eq_true, decide_eq_true_eq] at hpk
      refine h.same_db rfl (List.Subset.refl _) (fun _ hid hne => absurd hid hne) (fun x hx => ?_)
        (fun p hp => Or.inl hp) fun u hu => Or.inl hu
      rcases List.mem_cons.1 hx with rfl | hx
      · refine Or.inr ⟨hpk.1 ▸ h.puts p hp, fun b hb _ hkey => ?_⟩
        simp only [honestClient, List.all_eq_true, Bool.or_eq_true, decide_eq_true_eq] at hc
        exact (hc b hb).resolve_left (not_not.2 hkey.symm)
      · exact Or.inl (List.mem_filter.1 hx).1
    · cases hv
  | receive upload body =>
    simp only [EnvMove.run] at hv
    split at hv
    · next hupload =>
      obtain rfl := Option.some.inj hv
      refine h.same_db rfl (List.Subset.refl _) (fun _ hid hne => absurd hid hne)
        (fun x hx => Or.inl hx) (fun p hp => Or.inl hp) fun u hu => ?_
      rcases List.mem_cons.1 hu with rfl | hu
      · -- The length that was fixed when the upload was created.
        have hlen : upload.size.toInt = body.length := by
          simp only [honestClient, Bool.not_eq_true'] at hc
          exact hupload.2.resolve_left (by simp [hc])
        have hlt := Int64.toInt_lt upload.size
        right
        show 0 ≤ (Int64.ofNat body.length).toInt
        rw [Int64.toInt_ofNat_of_lt (by omega)]
        omega
      · exact Or.inl hu
    · cases hv
  | redeliver msg =>
    simp only [EnvMove.run] at hv
    split at hv
    · obtain rfl := Option.some.inj hv
      exact h.same_db rfl (List.Subset.refl _) (fun _ hid hne => absurd hid hne)
        (fun x hx => Or.inl hx) (fun p hp => Or.inl hp) fun u hu => Or.inl hu
    · cases hv

end Steps

/-! ## Reading handlers -/

section Handlers

variable {deps : Deps} {q : Request} {s : Store} {α : Type}

/-- Reading a program against `sizes`. -/
abbrev SizedCalls (deps : Deps) (q : Request) (p : Prog Stmt Reply) (s : Store) : Prop :=
  (sizes deps).Safe q p s

theorem sized_answer (status : ℕ) (message : String) :
    (sizes deps).post q (.error status message) := trivial

/-- The object of a file that waits for its upload has the size of the file. -/
theorem Sized.object_size (h : Sized s) {f b : File} (hb : b ∈ s.db.files.births)
    (hp : b.status = .pending) (hkey : f.storageKey = b.storageKey) {body : Bytes}
    (hobj : s.bucket.object? f.storageKey = some body) : Int64.ofNat body.length = b.sizeBytes := by
  have hlen := h.object b hb hp _ (Bucket.mem_of_object? hobj) hkey
  have hlt := Int64.toInt_lt b.sizeBytes
  dsimp only at hlen
  rw [← Int64.toInt_inj, Int64.toInt_ofNat_of_lt (by omega), hlen]

theorem sized_complete (userID : UUID) (id : GoString) :
    SizedCalls deps (.complete userID id) (complete userID id .ret) s := by
  refine safe_parseID sized_answer fun fileID _ => safe_query (fun _ _ _ => trivial) fun o t _ ht _ => ?_
  refine safe_found sized_answer fun file hf => safe_failIf sized_answer fun hpending => ?_
  obtain ⟨hmem, -, -⟩ := Query.file_ok hf
  rw [ne_eq, not_not] at hpending
  obtain ⟨b, hb, hid, -, hp⟩ := ht.2.row file hmem
  have hkey : file.storageKey = b.storageKey := by
    have hident := FileKnown.identity_eq (ht.1.file file hmem) ⟨b, hb, rfl⟩ hid.symm
    exact congrArg File.Identity.storageKey hident
  refine safe_call (fun _ _ _ => trivial) fun a u o u' htu hu _ hx _ => ?_
  simp only [exec, Option.some.injEq, Prod.mk.injEq] at hx
  obtain ⟨rfl, rfl⟩ := hx
  cases hstat : (BucketStmt.statObject file.storageKey).run o u.now u.bucket with
  | mk a b' =>
    cases a with
    | none => trivial
    | some size =>
      have hsize : size = b.sizeBytes := by
        simp only [BucketStmt.run, Prod.mk.injEq] at hstat
        obtain ⟨hstat, -⟩ := hstat
        split at hstat
        · cases hstat
        · obtain ⟨body, hobj, rfl⟩ := Option.map_eq_some_iff.1 hstat
          exact hu.2.object_size (htu.1 hb) (hp hpending) hkey hobj
      have hsaved : ∀ v : Store, u.db.files.births ⊆ v.db.files.births →
          SizeKnown v (completed file size) := by
        refine fun v huv => ⟨b, huv (htu.1 hb), hid, hsize.symm, fun hp => ?_⟩
        simp only [completed] at hp
        split at hp <;> cases hp
      refine safe_write (fun v huv _ => hsaved v huv.1) fun _ a v _ _ _ _ _ _ => ?_
      refine safe_foundOr sized_answer fun _ _ => ?_
      cases processingTask (completed file size) with
      | none => trivial
      | some task => exact safe_call (fun _ _ _ => trivial) fun _ _ _ _ _ _ _ _ _ => trivial

theorem sized_updateFile (userID : UUID) (id : GoString) (body : Option FileUpdateRequest) :
    SizedCalls deps (.updateFile userID id body) (updateFile userID id body .ret) s := by
  refine safe_parseID sized_answer fun fileID _ => safe_query (fun _ _ _ => trivial) fun o t _ ht _ => ?_
  refine safe_foundOr sized_answer fun r hr => safe_decodeBody sized_answer fun req _ => ?_
  obtain ⟨b, hb, hid, hsize, hp⟩ := ht.2.row r (Query.file_ok hr).1
  -- A rename and a move leave id, size and status alone.
  have save : ∀ (f : File) (u : Store), t.db.files.births ⊆ u.db.files.births →
      f.id = r.id ∧ f.sizeBytes = r.sizeBytes ∧ f.status = r.status →
      SizedCalls deps (.updateFile userID id body) (write (.saveFile f) fun a =>
        foundOr 500 "could not update file" a fun _ => .ret (.file f)) u := by
    rintro f u htu ⟨hfid, hfsize, hfstatus⟩
    refine safe_write (fun v huv _ => ?_) fun _ a v _ _ _ _ _ _ =>
      safe_foundOr sized_answer fun _ _ => trivial
    exact ⟨b, huv.1 (htu hb), hid.trans hfid.symm, hsize.trans hfsize.symm, fun h => hp (hfstatus ▸ h)⟩
  have move : ∀ f : File, f.id = r.id ∧ f.sizeBytes = r.sizeBytes ∧ f.status = r.status →
      SizedCalls deps (.updateFile userID id body) (moveFile userID f req.folderID fun f =>
        write (.saveFile f) fun a => foundOr 500 "could not update file" a
          fun _ => .ret (.file f)) t := by
    intro f hf
    match req.folderID with
    | none => exact save f t (List.Subset.refl _) hf
    | some [] => exact save _ t (List.Subset.refl _) hf
    | some (c :: text) =>
      refine safe_parseID sized_answer fun folderID _ => safe_query (fun _ _ _ => trivial) ?_
      exact fun o u htu _ _ => safe_foundOr sized_answer fun _ _ => save _ u htu.1 hf
  show SizedCalls deps _ (renameFile r req.name _) t
  match req.name with
  | none => exact move r ⟨rfl, rfl, rfl⟩
  | some [] => trivial
  | some (c :: name) => exact move _ ⟨rfl, rfl, rfl⟩

theorem sized_finishTusUpload {upload : Upload} (hsize : 0 ≤ upload.size.toInt) :
    SizedCalls deps (.finishTusUpload upload) (finishTusUpload upload .ret) s := by
  unfold finishTusUpload
  cases UUID.parse (upload.metaData.get (lit "user_id")) with
  | none => trivial
  | some userID =>
    refine safe_exitIf (fun _ => trivial) fun _ => safe_call (fun _ _ _ => trivial) ?_
    intro body t _ _ _ _ _ _ _
    cases body with
    | none => trivial
    | some body =>
      refine safe_call (fun _ _ _ => trivial) fun fileID u o u' _ _ _ hx _ => ?_
      have hdrawn : fileID ∈ u'.issued := by
        simp only [exec] at hx
        split at hx
        · cases hx
        · simp only [Option.some.injEq, Prod.mk.injEq] at hx
          obtain ⟨rfl, rfl⟩ := hx
          exact List.mem_cons_self
      refine safe_call (fun v huv _ => ⟨userID, fileID, _, rfl, huv.2 hdrawn⟩) ?_
      intro stored v _ _ _ _ _ _ _
      refine safe_exitIf (fun _ => trivial) fun _ => safe_write (fun _ _ _ => hsize) ?_
      intro _ a w _ _ _ _ _ _
      cases a with
      | error e => trivial
      | ok file =>
        have rest : ∀ w : Store, SizedCalls deps (.finishTusUpload upload) ((do
            let _ ← staging (.removeFile upload.path)
            let _ ← staging (.removeFile (upload.path ++ lit ".info"))
            return Reply.finished : Handler Reply) .ret) w := fun w =>
          safe_call (fun _ _ _ => trivial) fun _ _ _ _ _ _ _ _ _ =>
            safe_call (fun _ _ _ => trivial) fun _ _ _ _ _ _ _ _ _ => trivial
        cases htask : processingTask file with
        | none =>
          simp only [Code.bind_apply, htask]
          exact rest _
        | some task =>
          simp only [Code.bind_apply, htask]
          exact safe_call (fun _ _ _ => trivial) fun _ _ _ w _ _ _ _ _ => rest w

/-- Every handler writes sizes that it knows. -/
theorem sized_handler {s' : Store} (h : Sized s) (hq : q.launch s = some s') :
    SizedCalls deps q (q.handler deps .ret) s' := by
  cases q with
  | complete userID id => exact sized_complete userID id
  | updateFile userID id body => exact sized_updateFile userID id body
  | finishTusUpload upload =>
    simp only [Request.launch] at hq
    split at hq
    · next hmem => exact sized_finishTusUpload (h.completed upload hmem)
    · cases hq
  | _ => exact Outline.safe_of_trivial (fun _ _ => trivial) (fun _ => trivial) _ _

end Handlers

/-! ## The outline is valid -/

theorem exec_issued {α : Type} {e : Stmt α} {o : Oracle} {s s' : Store} {a : α}
    (hx : exec o e s = some (a, s')) : s.issued ⊆ s'.issued := by
  cases e with
  | write w =>
    obtain ⟨db', -, rfl⟩ := exec_write hx
    exact List.Subset.refl _
  | newUUID =>
    simp only [exec] at hx
    split at hx
    · cases hx
    · simp only [Option.some.injEq, Prod.mk.injEq] at hx
      obtain ⟨-, rfl⟩ := hx
      exact List.subset_cons_self _ _
  | _ =>
    simp only [exec, Option.some.injEq, Prod.mk.injEq] at hx
    obtain ⟨-, rfl⟩ := hx
    exact List.Subset.refl _

/-- **Sizes**, together with provenance, are right along every run of honest clients. -/
theorem sizes_valid (deps : Deps) : ((provenance deps).inf (sizes deps)).Valid where
  rely_refl s := ⟨.refl s, List.Subset.refl _, List.Subset.refl _⟩
  rely_trans h h' := ⟨h.1.trans h'.1, List.Subset.trans h.2.1 h'.2.1, List.Subset.trans h.2.2 h'.2.2⟩
  start _ h hq := by
    obtain ⟨hwf, -, hsized⟩ := h
    have hl := launch_cases hq
    exact ⟨⟨hwf.launch hq, hwf.launch hq, hsized.launch hq⟩, .of_db_eq hl.1,
      hl.1 ▸ List.Subset.refl _, hl.2.2.1 ▸ List.Subset.refl _⟩
  safe _ h hq _ := (known_handler h.1 hq).inf (sized_handler h.2.2 hq)
  call h hpre _ hx := by
    obtain ⟨hwf, -, hsized⟩ := h
    rw [services_exec] at hx
    have hwf' := hwf.exec hpre.1 hx
    exact ⟨⟨hwf', hwf', hsized.exec hpre.1 hpre.2 hx⟩, exec_grows hx, (exec_grows hx).files,
      exec_issued hx⟩
  env hc h hv := by
    obtain ⟨hwf, -, hsized⟩ := h
    have hl := env_cases hv
    exact ⟨⟨hwf.env hv, hwf.env hv, hsized.env hc.2 hv⟩, .of_db_eq hl.1, hl.1 ▸ List.Subset.refl _,
      hl.2.1 ▸ List.Subset.refl _⟩

end Optiflow
