import Optiflow.Lib.History
import Optiflow.Proof.Links
import Optiflow.Proof.WorkerCalls
import Mathlib.Data.Set.BooleanAlgebra
import Mathlib.Data.Set.Disjoint
import Mathlib.Order.CompletePartialOrder

/-!
# Objects of different files

Five pieces of code in three services make up the keys of a file's objects, and a sixth removes what they
have stored, by key and by prefix.  `writtenFor` and `removedWith` are read off their programs, in
whatever stores the calls are made; for two files they never meet (`keys_apart`).
-/

namespace Optiflow

open Interleave Code UploadSvc ApiSvc Workers

/-! ## The property -/

/-- The call stores an object under the key, or makes a URL for that. -/
def Stmt.storesUnder {α : Type} (key : GoString) : Stmt α → Prop
  | .bucket (.putObject k _ _ _) => k = key
  | .bucket (.presignedPutURL k _) => k = key
  | _ => False

/-- An object is stored, or a URL for storing one is made, only under such a key. -/
def Stmt.stores {α : Type} (φ : GoString → Prop) : Stmt α → Prop
  | .bucket (.putObject key _ _ _) => φ key
  | .bucket (.presignedPutURL key _) => φ key
  | _ => True

/-- The id of a row that the step makes, or draws for the row it will make. -/
def fileMade : ServiceStep → Option UUID
  | .call _ _ _ (.write (.createFile _)) (.ok f) => some f.id
  | .call _ _ _ (.write (.presignVersion _ _ _)) (.ok f) => some f.id
  | .call _ _ _ .newUUID id => some id
  | _ => none

/-- The request, after these steps, writes for the file. -/
def WritesFor (q : Request) (hist : List ServiceStep) (id : UUID) : Prop :=
  match q with
  | .presign _ _ => ∃ st ∈ hist, fileMade st = some id
  | .presignVersion _ _ _ => ∃ st ∈ hist, fileMade st = some id
  | .finishTusUpload _ => ∃ st ∈ hist, fileMade st = some id
  | .deliver _ msg => msg.task.payload.fileID = id
  | _ => False

/-- The requests that write for a file. -/
def Request.writesObjects : Request → Bool
  | .presign _ _ => true
  | .presignVersion _ _ _ => true
  | .finishTusUpload _ => true
  | .deliver _ _ => true
  | _ => false

/-- The keys under which objects are stored, or may be stored through a URL, for the file. -/
def writtenFor (deps : Deps) (id : UUID) : Set GoString :=
  {key | ∃ (q : Request) (hist : List ServiceStep) (α : Type) (e : Stmt α) (k : α → Prog Stmt Reply),
    (services deps).Took q ((services deps).handler q) hist (.call e k) ∧ WritesFor q hist id ∧
      e.storesUnder key}

/-- The keys that the cleanup of a row removes. -/
def removedWith (deps : Deps) (file : File) : Set GoString :=
  {key | ∃ (q : Request) (hist : List ServiceStep) (k : Bool → Prog Stmt Reply),
    (services deps).Took q (cleanupFileObjects file fun _ => .ret .noContent) hist
      (.call (.bucket (.removeObject key)) k)}

/-! ## What is written -/

section Written

variable {deps : Deps} {q : Request} {hist : List ServiceStep} {α : Type}

/-- The request writes for a file, and the key is that of any file it writes for. -/
def WrittenKey (q : Request) (hist : List ServiceStep) (key : GoString) : Prop :=
  (q.writesObjects = true → ∃ id, WritesFor q hist id) ∧ ∀ id, WritesFor q hist id → Owns id key

/-- Every key is written for a file. -/
abbrev StoresOwn (deps : Deps) (q : Request) (p : Prog Stmt Reply) (hist : List ServiceStep) : Prop :=
  (services deps).Recalls (fun q hist _ e => e.stores (WrittenKey q hist)) (fun _ _ _ => True) q p hist

theorem Plain.stores {φ : GoString → Prop} {e : Stmt α} (h : Plain false e) : e.stores φ := by
  cases e with
  | bucket b =>
    cases b with
    | putObject key body size contentType => cases h rfl
    | presignedPutURL key expiry => cases h rfl
    | _ => trivial
  | _ => trivial

theorem Stmt.works.stores {φ : GoString → Prop} {id : UUID} {e : Stmt α} (h : e.works id φ) :
    e.stores φ := by
  cases e with
  | bucket b =>
    cases b with
    | putObject key body size contentType => exact h
    | presignedPutURL key expiry => exact h.elim
    | _ => trivial
  | _ => trivial

theorem Stmt.stores_of_forall {φ : GoString → Prop} (h : ∀ key, φ key) (e : Stmt α) : e.stores φ := by
  cases e with
  | bucket b =>
    cases b with
    | putObject key body size contentType => exact h key
    | presignedPutURL key expiry => exact h key
    | _ => trivial
  | _ => trivial

theorem Stmt.stores.mono {φ ψ : GoString → Prop} {e : Stmt α} (h : e.stores φ)
    (hφ : ∀ key, φ key → ψ key) : e.stores ψ := by
  cases e with
  | bucket b =>
    cases b with
    | putObject key body size contentType => exact hφ key h
    | presignedPutURL key expiry => exact hφ key h
    | _ => trivial
  | _ => trivial

theorem Stmt.stores.of_under {φ : GoString → Prop} {e : Stmt α} {key : GoString} (h : e.stores φ)
    (hkey : e.storesUnder key) : φ key := by
  cases e with
  | bucket b =>
    cases b with
    | putObject k body size contentType => exact hkey ▸ h
    | presignedPutURL k expiry => exact hkey ▸ h
    | _ => exact hkey.elim
  | _ => exact hkey.elim

/-- No file has been made. -/
def NoFile (hist : List ServiceStep) : Prop := ∀ st ∈ hist, fileMade st = none

theorem NoFile.nil : NoFile [] := fun _ h => absurd h List.not_mem_nil

theorem Plain.fileMade {s : Store} {o : Oracle} {e : Stmt α} {a : α} (he : Plain false e) :
    fileMade (.call s q o e a) = none := by
  cases e with
  | write w => exact he.elim
  | newUUID => exact he.elim
  | _ => rfl

/-- Code before the file is made. -/
theorem storesOwn_over (c : Handler α) {k : α → Prog Stmt Reply} (hc : Inert false c)
    (hno : NoFile hist) (h : ∀ a hist', NoFile hist' → StoresOwn deps q (k a) hist') :
    StoresOwn deps q (c k) hist := by
  refine hc (fun p => ∀ hist, NoFile hist → StoresOwn deps q p hist) (fun e k he hk hist hno => ?_)
    (fun _ _ _ _ => trivial) k h hist hno
  exact ⟨he.stores, fun o a s s' _ =>
    hk a _ (List.forall_mem_cons.2 ⟨he.fileMade, hno⟩)⟩

/-- Code that stores nothing any more. -/
theorem storesOwn_rest {p : Prog Stmt Reply} (h : p.Makes (Stmt.stores fun _ => False)) :
    StoresOwn deps q p hist :=
  Machine.recalls_of_makes (h.mono fun _ he _ => he.mono fun _ h => h.elim) (fun _ _ => trivial) hist

/-- The request has just made its one file. -/
theorem writtenKey_of_made {st : ServiceStep} {id : UUID} {key : GoString}
    (hq : ∀ id', WritesFor q (st :: hist) id' ↔ ∃ st' ∈ st :: hist, fileMade st' = some id')
    (hno : NoFile hist) (hst : fileMade st = some id) (hkey : Owns id key) :
    WrittenKey q (st :: hist) key := by
  refine ⟨fun _ => ⟨id, (hq id).2 ⟨st, List.mem_cons_self, hst⟩⟩, fun id' hid' => ?_⟩
  obtain ⟨st', hst', hmade⟩ := (hq id').1 hid'
  rcases List.mem_cons.1 hst' with rfl | hst'
  · exact Option.some.inj (hst.symm.trans hmade) ▸ hkey
  · cases (hno st' hst').symm.trans hmade

theorem storesOwn_presignUpload {file : File} (hkey : WrittenKey q hist file.storageKey) :
    StoresOwn deps q (presignUpload file .ret) hist := by
  refine ⟨hkey, fun o url s s' _ => ?_⟩
  cases url with
  | none => trivial
  | some url => exact ⟨trivial, fun _ _ _ _ _ => trivial⟩

theorem storesOwn_presign {userID : UUID} {body : Option PresignRequest} :
    StoresOwn deps (.presign userID body) (presign userID body .ret) [] := by
  refine storesOwn_over (decodeBody body) (silent_decodeBody _).over .nil fun req _ hno => ?_
  refine storesOwn_over (failIf _ _ _) (silent_failIf _ _ _).over hno fun _ _ hno => ?_
  refine storesOwn_over (checkQuota _ _) (reads_checkQuota _ _).inert hno fun a _ hno => ?_
  refine storesOwn_over (orQuotaError a) (silent_orQuotaError a).over hno fun _ _ hno => ?_
  refine storesOwn_over (ownedFolderID _ _) (reads_ownedFolderID _ _).inert hno fun folderID hist hno => ?_
  refine ⟨trivial, fun o a s s' hx => ?_⟩
  rw [services_exec] at hx
  obtain ⟨db', hrun, -⟩ := exec_write hx
  obtain ⟨rfl, -⟩ | ⟨-, -, -, rfl, -⟩ := Write.createFile_cases hrun
  · trivial
  · exact storesOwn_presignUpload (writtenKey_of_made (fun _ => Iff.rfl) hno rfl owns_storageKey)

theorem storesOwn_presignVersion {userID : UUID} {id : GoString} {body : Option PresignVersionRequest} :
    StoresOwn deps (.presignVersion userID id body) (presignVersion userID id body .ret) [] := by
  refine storesOwn_over (parseID _ _) (silent_parseID _ _).over .nil fun id _ hno => ?_
  refine storesOwn_over (decodeBody body) (silent_decodeBody _).over hno fun req _ hno => ?_
  refine storesOwn_over (failIf _ _ _) (silent_failIf _ _ _).over hno fun _ _ hno => ?_
  refine storesOwn_over (query _) (over_query _) hno fun a _ hno => ?_
  refine storesOwn_over (found _ _ a) (silent_found a).over hno fun anyVersion _ hno => ?_
  refine storesOwn_over (checkQuota _ _) (reads_checkQuota _ _).inert hno fun a _ hno => ?_
  refine storesOwn_over (orQuotaError a) (silent_orQuotaError a).over hno fun _ _ hno => ?_
  refine storesOwn_over (query _) (over_query _) hno fun a _ hno => ?_
  refine storesOwn_over (foundOr _ _ a) (silent_foundOr a).over hno fun current _ hno => ?_
  refine storesOwn_over (query _) (over_query _) hno fun a _ hno => ?_
  refine storesOwn_over (foundOr _ _ a) (silent_foundOr a).over hno fun maxVersion hist hno => ?_
  refine ⟨trivial, fun o a s s' hx => ?_⟩
  rw [services_exec] at hx
  obtain ⟨db', hrun, -⟩ := exec_write hx
  obtain ⟨rfl, -⟩ | ⟨-, -, -, rfl, -⟩ := Write.presignVersion_cases hrun
  · trivial
  · exact storesOwn_presignUpload (writtenKey_of_made (fun _ => Iff.rfl) hno rfl owns_storageKey)

theorem storesOwn_finishTusUpload {upload : Upload} :
    StoresOwn deps (.finishTusUpload upload) (finishTusUpload upload .ret) [] := by
  unfold finishTusUpload
  cases UUID.parse (upload.metaData.get (lit "user_id")) with
  | none => trivial
  | some userID =>
    refine storesOwn_over (exitIf _ _) (over_ite (over_exit trivial) (over_pure ())) .nil fun _ _ hno => ?_
    refine storesOwn_over (staging _) (over_staging _ rfl) hno fun body hist hno => ?_
    cases body with
    | none => trivial
    | some body =>
      refine ⟨trivial, fun o fileID s s' _ => ⟨?_, fun o a s s' _ => ?_⟩⟩
      · exact writtenKey_of_made (fun _ => Iff.rfl) hno rfl owns_storageKey
      · cases a with
        | false => trivial
        | true =>
          refine storesOwn_rest ⟨trivial, fun a => ?_⟩
          cases a with
          | error e => trivial
          | ok file =>
            have removes : ∀ u : Unit, ((do
                let _ ← staging (.removeFile upload.path)
                let _ ← staging (.removeFile (upload.path ++ lit ".info"))
                return .finished : Handler Reply) .ret).Makes (Stmt.stores fun _ => False) :=
              fun _ => ⟨trivial, fun _ => ⟨trivial, fun _ => trivial⟩⟩
            show (enqueueOrLog (processingTask file) _).Makes _
            cases processingTask file with
            | none => exact removes ()
            | some task => exact ⟨trivial, fun _ => removes ()⟩

/-- A worker writes for the file of its task only. -/
theorem storesOwn_deliver {worker : Worker} {msg : Message} {φ : GoString → Prop}
    (h : Works msg.task.payload.fileID φ (deliver deps.tools worker msg .ret))
    (hφ : ∀ key, φ key → Owns msg.task.payload.fileID key) :
    StoresOwn deps (.deliver worker msg) (deliver deps.tools worker msg .ret) [] := by
  refine Machine.recalls_of_makes (h.mono fun _ he hist => he.stores.mono fun key hkey => ?_)
    (fun _ _ => trivial) []
  refine ⟨fun _ => ⟨_, rfl⟩, fun id hid => ?_⟩
  obtain rfl : msg.task.payload.fileID = id := hid
  exact hφ key hkey

theorem storesOwn_handler (q : Request) : StoresOwn deps q ((services deps).handler q) [] := by
  cases q with
  | presign userID body => exact storesOwn_presign
  | presignVersion userID id body => exact storesOwn_presignVersion
  | finishTusUpload upload => exact storesOwn_finishTusUpload
  | deliver worker msg =>
    cases worker with
    | image => exact storesOwn_deliver works_deliver_image fun _ hkey => hkey ▸ owns_thumbnailKey
    | video =>
      refine storesOwn_deliver works_deliver_video fun key hkey => ?_
      obtain ⟨name, -, rfl⟩ := hkey
      exact owns_of_hlsPrefix (List.prefix_append _ _)
  | _ =>
    refine Machine.recalls_of_makes (Prog.makes_of_forall (fun e hist => ?_) _) (fun _ _ => trivial) []
    exact e.stores_of_forall fun key => ⟨fun h => absurd h Bool.false_ne_true, fun id hid => hid.elim⟩

/-- **What is written for a file** has one of the file's keys. -/
theorem owns_of_writtenFor {id : UUID} {key : GoString} (h : key ∈ writtenFor deps id) :
    Owns id key := by
  obtain ⟨q, hist, α, e, k, htook, hid, hkey⟩ := h
  exact (((storesOwn_handler q).took htook).1.of_under hkey).2 id hid

/-- In a run, nothing is stored that is not written for a file. -/
theorem mem_writtenFor {s₀ : Store} {c : Services}
    (hc : (services deps).Reaches Machine.anySchedule (.init s₀) c) (hq : q.writesObjects = true)
    {s : Store} {o : Oracle} {e : Stmt α} {a : α} {key : GoString} (hst : .call s q o e a ∈ c.trace)
    (hkey : e.storesUnder key) : ∃ id, key ∈ writtenFor deps id := by
  obtain ⟨newer, older, htrace⟩ := List.append_of_mem hst
  obtain ⟨hist, k, -, htook⟩ := hc.call_took htrace
  obtain ⟨id, hid⟩ := (((storesOwn_handler q).took htook).1.of_under hkey).1 hq
  exact ⟨id, q, hist, α, e, k, htook, hid, hkey⟩

end Written

/-! ## What is removed -/

section Removed

variable {deps : Deps} {q : Request} {hist : List ServiceStep} {α : Type} {file : File}

/-- What is removed is the file's. -/
def CallRemoves (id : UUID) (_ : Request) (_ : List ServiceStep) {α : Type} : Stmt α → Prop
  | .bucket (.removeObject key) => Owns id key
  | _ => True

abbrev RemovesOwn (deps : Deps) (id : UUID) (q : Request) (p : Prog Stmt Reply)
    (hist : List ServiceStep) : Prop :=
  (services deps).Recalls (CallRemoves id) (fun _ _ _ => True) q p hist

theorem removesOwn_removeObjects {id : UUID} {keys : List GoString} (h : ∀ key ∈ keys, Owns id key) :
    RemovesOwn deps id q (removeObjects keys fun _ => .ret .noContent) hist := by
  induction keys generalizing hist with
  | nil => trivial
  | cons key keys ih =>
    exact ⟨h key List.mem_cons_self, fun _ _ _ _ _ => ih fun k hk => h k (List.mem_cons_of_mem _ hk)⟩

/-- The columns of the row and the listing by prefix lead to the row's own objects. -/
theorem removesOwn_cleanupFileObjects {s : Store} (hf : FileLinked s file) :
    RemovesOwn deps file.id q (cleanupFileObjects file fun _ => .ret .noContent) hist := by
  have hkeys : ∀ key ∈ file.storageKey :: file.thumbnailKey.toList, Owns file.id key :=
    List.forall_mem_cons.2 ⟨hf.original, fun key hkey => hf.thumbnail key (Option.mem_toList.1 hkey)⟩
  unfold cleanupFileObjects
  rw [Code.ite_run]
  split
  · refine ⟨trivial, fun o a t t' hx => ?_⟩
    obtain ⟨rfl, -⟩ := Prod.mk.inj (Option.some.inj hx)
    simp only [BucketStmt.run]
    cases o.fails with
    | true => exact removesOwn_removeObjects hkeys
    | false =>
      refine removesOwn_removeObjects fun key hkey => ?_
      rcases List.mem_append.1 hkey with hkey | hkey
      · exact hkeys key hkey
      · exact owns_of_hlsPrefix (List.isPrefixOf_iff_prefix.1 (List.mem_filter.1 hkey).2)
  · exact removesOwn_removeObjects hkeys

theorem owns_of_removedWith {s : Store} (hf : FileLinked s file) {key : GoString}
    (h : key ∈ removedWith deps file) : Owns file.id key := by
  obtain ⟨q, hist, k, htook⟩ := h
  exact ((removesOwn_cleanupFileObjects hf).took htook).1

end Removed

/-! ## The result -/

/-- **Objects of different files never meet**, and the cleanup of one leaves those of another alone.
What a run stores is stored for some file. -/
theorem keys_apart (deps : Deps) (users : Table User) {c : Services}
    (hc : (services deps).Reaches Machine.anySchedule (start (Store.fresh users)) c)
    {f : File} (hf : f ∈ c.store.db.files) {id : UUID} (hne : f.id ≠ id) :
    Disjoint (writtenFor deps f.id) (writtenFor deps id) ∧
      Disjoint (removedWith deps f) (writtenFor deps id) ∧
      ∀ {s : Store} {q : Request} {o : Oracle} {α : Type} {e : Stmt α} {a : α} {key : GoString},
        .call s q o e a ∈ c.trace → q.writesObjects = true → e.storesUnder key →
          ∃ owner, key ∈ writtenFor deps owner := by
  have hlinked := (linked_always deps users hc).2.file f hf
  refine ⟨?_, ?_, fun hst hq hkey => mem_writtenFor hc hq hst hkey⟩
  · refine Set.disjoint_left.2 fun key hkey hother => hne ?_
    exact (owns_of_writtenFor hkey).id_eq (owns_of_writtenFor hother)
  · refine Set.disjoint_left.2 fun key hkey hother => hne ?_
    exact (owns_of_removedWith hlinked hkey).id_eq (owns_of_writtenFor hother)

/-! ### Two versions -/

/-- The file has two versions, of one name with slashes. -/
def twoVersions (s : Store) : Bool :=
  s.db.files.rows.any fun f => s.db.files.rows.any fun g =>
    f.id ≠ g.id && f.lineageRootID = g.lineageRootID && f.name = lit "../100/a" && g.name = f.name

theorem keys_apart_versions :
    ∃ c : Services, (services plainDeps).Reaches Machine.anySchedule (start (Store.fresh aliceOnly)) c ∧
      ∃ f ∈ c.store.db.files, ∃ g ∈ c.store.db.files, f.lineageRootID = g.lineageRootID ∧
        f.name = lit "../100/a" ∧ g.name = f.name ∧
        Disjoint (writtenFor plainDeps f.id) (writtenFor plainDeps g.id) ∧
        Disjoint (removedWith plainDeps f) (writtenFor plainDeps g.id) := by
  obtain ⟨c, hc, hP⟩ := exists_run Machine.anySchedule
    [.start (.presign 1 (some ⟨lit "../100/a", 3, lit "image/png", none⟩)),
      .step 0 {}, .step 0 {}, .step 0 { uuid := 100 }, .step 0 {}, .step 0 {},
      .start (.presignVersion 1 (text 100) (some ⟨3, lit "image/png"⟩)),
      .step 1 {}, .step 1 {}, .step 1 {}, .step 1 {}, .step 1 {}, .step 1 { uuid := 101 }]
    (fun c => twoVersions c.store) (by decide +kernel)
  simp only [twoVersions, List.any_eq_true, Bool.and_eq_true, decide_eq_true_eq] at hP
  obtain ⟨f, hf, g, hg, ⟨⟨hne, hroot⟩, hname⟩, hsame⟩ := hP
  have hapart := keys_apart plainDeps aliceOnly hc hf hne
  exact ⟨c, hc, f, hf, g, hg, hroot, hname, hsame, hapart.1, hapart.2.1⟩

end Optiflow
