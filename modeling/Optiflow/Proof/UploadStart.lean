import Optiflow.Proof.Footprint
import Optiflow.Proof.Runs

/-!
# Starting an upload

`presign` and `presignVersion` write the row of the new upload first and ask for its URL then.  An
error is answered with the rows as they were exactly when the URL does not fail
(`upload_start_clean_iff`): once the row is written, the only answer left that is an error is the one
about the URL.
-/

namespace Optiflow

open Interleave UploadSvc

/-! ## The condition -/

/-- A request for a presigned PUT URL does not fail. -/
def givesPutURL : ServiceStep → Bool
  | .call _ _ o (.bucket (.presignedPutURL _ _)) _ => !o.fails
  | _ => true

/-- The handlers that start an upload by URL. -/
def Request.startsUpload : Request → Bool
  | .presign _ _ => true
  | .presignVersion _ _ _ => true
  | _ => false

def Reply.isError : Reply → Bool
  | .error _ _ => true
  | _ => false

/-- What the run comes to: an error leaves the rows alone if and only if no URL failed. -/
def CleanStart (s₀ : Store) (tr : List ServiceStep) (r : Reply) (t : Store) : Prop :=
  (r.isError = true → t.db.files.rows = s₀.db.files.rows) ↔ ∀ st ∈ tr, givesPutURL st = true

section Reading

variable {deps : Deps} {q : Request} {s₀ s : Store} {α : Type}

abbrev StartsClean (deps : Deps) (s₀ : Store) (q : Request) (p : Prog Stmt Reply) (s : Store) :
    Prop :=
  (services deps).Ends (fun _ => True) q p s (CleanStart s₀)

theorem CleanStart.cons {tr : List ServiceStep} {r : Reply} {t : Store} {st : ServiceStep}
    (h : CleanStart s₀ tr r t) (hst : givesPutURL st = true) : CleanStart s₀ (st :: tr) r t := by
  unfold CleanStart at *
  rw [h, List.forall_mem_cons]
  simp [hst]

/-- A call that asks for no PUT URL. -/
theorem startsClean_call {e : Stmt α} {k : α → Prog Stmt Reply}
    (he : ∀ o a, givesPutURL (.call s q o e a) = true)
    (h : ∀ o a s', exec o e s = some (a, s') → StartsClean deps s₀ q (k a) s') :
    StartsClean deps s₀ q ((Code.call e : Handler α) k) s :=
  fun o a s' _ hx => (h o a s' hx).mono fun _ _ _ hc => hc.cons (he o a)

/-- An answer before anything is written. -/
theorem startsClean_ret (hs : s.db.files.rows = s₀.db.files.rows) (r : Reply) :
    StartsClean deps s₀ q (.ret r) s :=
  ⟨fun _ _ h => absurd h List.not_mem_nil, fun _ _ => hs⟩

/-- Checks made before anything is written. -/
theorem startsClean_over (c : Handler α) {k : α → Prog Stmt Reply} (hc : Inert false c)
    (hs : s.db.files.rows = s₀.db.files.rows)
    (h : ∀ a (t : Store), t.db = s.db → StartsClean deps s₀ q (k a) t) :
    StartsClean deps s₀ q (c k) s := by
  refine hc (fun p => ∀ t : Store, t.db = s.db → StartsClean deps s₀ q p t)
    (fun e k he hk t hst => ?_) (fun r _ t hst => startsClean_ret (hst ▸ hs) r) k h s rfl
  refine startsClean_call (fun o a => ?_) fun o a s' hx => hk a s' ?_
  · cases e with
    | bucket b =>
      cases b with
      | presignedPutURL key expiry => exact absurd (he rfl) (by decide)
      | _ => rfl
    | _ => rfl
  · exact (exec_db he.isWrite hx).trans hst

/-- The row is written: what is left depends on the URL. -/
theorem startsClean_presignUpload {file : File} (hs : s.db.files.rows ≠ s₀.db.files.rows) :
    StartsClean deps s₀ q (presignUpload file .ret) s := by
  intro o a s' _ hx
  rw [services_exec] at hx
  have hdb : s'.db = s.db := exec_db rfl hx
  simp only [exec, BucketStmt.run, Option.some.injEq, Prod.mk.injEq] at hx
  cases hfails : o.fails with
  | true =>
    obtain rfl : a = none := by simpa [hfails] using hx.1.symm
    refine iff_of_false (fun h => hs (hdb ▸ h rfl)) fun h => ?_
    simpa [givesPutURL, hfails] using h _ List.mem_cons_self
  | false =>
    obtain ⟨url, rfl⟩ : ∃ url, a = some url := ⟨_, by simpa [hfails] using hx.1.symm⟩
    intro o' now t _ _
    exact iff_of_true (fun h => by cases h) (by simp [givesPutURL, hfails])

/-- The write of the row, and what is left then. -/
theorem startsClean_write {w : Write File} (hs : s.db.files.rows = s₀.db.files.rows)
    (hw : ∀ o a db', w.run o s.issued s.db = some (a, db') → a = .error .other ∧ db' = s.db ∨
      ∃ file, a = .ok file ∧ db'.files.rows.length = s.db.files.rows.length + 1) :
    StartsClean deps s₀ q (write w fun a => foundOr 500 "could not start upload" a fun file =>
      presignUpload file .ret) s := by
  refine startsClean_call (fun _ _ => rfl) fun o a s' hx => ?_
  obtain ⟨db', hrun, rfl⟩ := exec_write hx
  obtain ⟨rfl, rfl⟩ | ⟨file, rfl, hlen⟩ := hw o a db' hrun
  · exact startsClean_ret hs _
  · refine startsClean_presignUpload fun h => ?_
    have hsame : db'.files.rows.length = s.db.files.rows.length :=
      congrArg List.length (h.trans hs.symm)
    omega

theorem startsClean_presign {userID : UUID} {body : Option PresignRequest} :
    StartsClean deps s q (presign userID body .ret) s := by
  refine startsClean_over (decodeBody body) (silent_decodeBody _).over rfl fun req t ht => ?_
  refine startsClean_over (failIf _ _ _) (silent_failIf _ _ _).over (by rw [ht]) fun _ u hu => ?_
  have hu := hu.trans ht
  refine startsClean_over (checkQuota _ _) (reads_checkQuota _ _).inert (by rw [hu]) fun a v hv => ?_
  have hv := hv.trans hu
  refine startsClean_over (orQuotaError a) (silent_orQuotaError a).over (by rw [hv]) fun _ w hw => ?_
  have hw := hw.trans hv
  refine startsClean_over (ownedFolderID _ _) (reads_ownedFolderID _ _).inert (by rw [hw]) fun _ x hx => ?_
  have hx := hx.trans hw
  refine startsClean_write (by rw [hx]) fun o a db' hrun => ?_
  obtain ⟨rfl, rfl⟩ | ⟨hf, -, -, ha, rfl⟩ := Write.createFile_cases hrun
  · exact Or.inl ⟨rfl, rfl⟩
  · exact Or.inr ⟨_, ha, by simp [Table.insert]⟩

theorem startsClean_presignVersion {userID : UUID} {id : GoString}
    {body : Option PresignVersionRequest} :
    StartsClean deps s q (presignVersion userID id body .ret) s := by
  refine startsClean_over (parseID _ _) (silent_parseID _ _).over rfl fun id t₁ ht₁ => ?_
  refine startsClean_over (decodeBody body) (silent_decodeBody _).over (by rw [ht₁]) fun req t₂ ht => ?_
  have ht₂ := ht.trans ht₁
  refine startsClean_over (failIf _ _ _) (silent_failIf _ _ _).over (by rw [ht₂]) fun _ t₃ ht => ?_
  have ht₃ := ht.trans ht₂
  refine startsClean_over (query _) (over_query _) (by rw [ht₃]) fun a t₄ ht => ?_
  have ht₄ := ht.trans ht₃
  refine startsClean_over (found _ _ a) (silent_found a).over (by rw [ht₄]) fun anyVersion t₅ ht => ?_
  have ht₅ := ht.trans ht₄
  refine startsClean_over (checkQuota _ _) (reads_checkQuota _ _).inert (by rw [ht₅]) fun a t₆ ht => ?_
  have ht₆ := ht.trans ht₅
  refine startsClean_over (orQuotaError a) (silent_orQuotaError a).over (by rw [ht₆]) fun _ t₇ ht => ?_
  have ht₇ := ht.trans ht₆
  refine startsClean_over (query _) (over_query _) (by rw [ht₇]) fun a t₈ ht => ?_
  have ht₈ := ht.trans ht₇
  refine startsClean_over (foundOr _ _ a) (silent_foundOr a).over (by rw [ht₈]) fun current t₉ ht => ?_
  have ht₉ := ht.trans ht₈
  refine startsClean_over (query _) (over_query _) (by rw [ht₉]) fun a u ht => ?_
  have hu := ht.trans ht₉
  refine startsClean_over (foundOr _ _ a) (silent_foundOr a).over (by rw [hu]) fun maxVersion v ht => ?_
  have hv := ht.trans hu
  refine startsClean_write (by rw [hv]) fun o a db' hrun => ?_
  obtain ⟨rfl, rfl⟩ | ⟨hf, -, -, ha, rfl⟩ := Write.presignVersion_cases hrun
  · exact Or.inl ⟨rfl, rfl⟩
  · exact Or.inr ⟨_, ha, by simp [Table.insert, DB.supersede, Table.modify]⟩

end Reading

/-- **Starting an upload changes nothing when it fails, unless it is the URL that fails.** -/
theorem upload_start_clean_iff (deps : Deps) {q : Request} (hq : q.startsUpload = true)
    {s t : Store} {tr : List ServiceStep} {r : Reply}
    (h : (services deps).Finishes q ((services deps).handler q) s tr r t) :
    (r.isError = true → t.db.files.rows = s.db.files.rows) ↔ ∀ st ∈ tr, givesPutURL st = true := by
  have hclean : StartsClean deps s q ((services deps).handler q) s := by
    cases q with
    | presign userID body => exact startsClean_presign
    | presignVersion userID id body => exact startsClean_presignVersion
    | _ => cases hq
  exact h.of_ends hclean fun _ _ => trivial

/-! ### A name that is too long -/

/-- A ready file of Alice with a name of 1000 bytes. -/
def longNamed : File where
  id := 100
  name := List.replicate 1000 97
  userID := 1
  folderID := none
  storageKey := storageKey 1 100 (lit "a.txt")
  sizeBytes := 3
  mimeType := lit "text/plain"
  status := .ready
  version := 1
  isCurrent := true

def longNamedStore : Store :=
  { Store.empty with
    db :=
      { users := aliceOnly
        folders := .empty
        files := Table.empty.insert longNamed (by simp [Table.Used])
        shares := .empty } }

/-- Alice uploads a new version of it. -/
abbrev longerVersion : Request := .presignVersion 1 (text 100) (some ⟨5, lit "text/plain"⟩)

/-- When the URL does not fail, the version is started. -/
theorem upload_start_clean_iff_ok :
    ∃ tr r t, (services plainDeps).Finishes longerVersion
      ((services plainDeps).handler longerVersion) longNamedStore tr r t ∧ r.isError = false ∧
      ((r.isError = true → t.db.files.rows = longNamedStore.db.files.rows) ↔
        ∀ st ∈ tr, givesPutURL st = true) := by
  obtain ⟨tr, r, t, h, hr⟩ := Machine.exists_finishes (services plainDeps) longerVersion
    ((services plainDeps).handler longerVersion) longNamedStore (fun _ r _ => !r.isError)
    [{}, {}, {}, {}, {}, { uuid := 101 }, {}, {}] (by decide)
  exact ⟨tr, r, t, h, by simpa using hr, upload_start_clean_iff plainDeps rfl h⟩

/-- The URL fails, as it does for a key of more than 1024 bytes: the answer is 500, the file that was
current is so no more, and what is current now is a pending row. -/
theorem upload_start_supersedes :
    ∃ tr r t, (services plainDeps).Finishes longerVersion
      ((services plainDeps).handler longerVersion) longNamedStore tr r t ∧
      r = .error 500 "could not start upload" ∧
      longNamed ∈ longNamedStore.db.files ∧ longNamed.isCurrent = true ∧ longNamed.status = .ready ∧
      t.db.files.rows ≠ longNamedStore.db.files.rows ∧
      ∀ g ∈ t.db.files, g.isCurrent = true → g.status = .pending ∧ 1024 < g.storageKey.length := by
  obtain ⟨tr, r, t, h, hP⟩ := Machine.exists_finishes (services plainDeps) longerVersion
    ((services plainDeps).handler longerVersion) longNamedStore
    (fun _ r t => r = .error 500 "could not start upload" && t.db.files.rows.all fun g =>
      !g.isCurrent || (g.status = .pending && 1024 < g.storageKey.length))
    [{}, {}, {}, {}, {}, { uuid := 101 }, { fails := true }] (by decide +kernel)
  simp only [Bool.and_eq_true, Bool.or_eq_true, Bool.not_eq_true', List.all_eq_true,
    decide_eq_true_eq] at hP
  obtain ⟨rfl, hrows⟩ := hP
  have hcurrent : ∀ g ∈ t.db.files, g.isCurrent = true →
      g.status = .pending ∧ 1024 < g.storageKey.length := fun g hg hcur =>
    (hrows g hg).resolve_left (by simp [hcur])
  refine ⟨tr, _, t, h, rfl, List.mem_singleton.2 rfl, rfl, rfl, fun hsame => ?_, hcurrent⟩
  have hmem : longNamed ∈ t.db.files.rows := hsame ▸ List.mem_singleton.2 rfl
  exact absurd (hcurrent longNamed hmem rfl).1 (by decide)

end Optiflow
