import Optiflow.Lib.Ledger
import Optiflow.Lib.Window
import Optiflow.Proof.Runs

/-!
# Completing an upload

`complete` reads the row, asks the bucket for the object's size and only then saves the row, so two
requests can both find it pending.  As long as nobody completes the row while a request is between its
test of the status and its Save, one request for the row is answered 200, one task is enqueued, and the
others are refused without having written anything (`complete_starts_once`).
-/

namespace Optiflow

open Interleave UploadSvc

/-! ## Requests to complete a row -/

/-- Only requests to complete an upload are started. -/
def completions : Machine.Schedule Store Request Reply Oracle EnvMove Stmt
  | _, .start (.complete _ _) => true
  | _, .start _ => false
  | _, _ => true

/-- The request is to complete the row. -/
def completesRow (id : UUID) : Request → Bool
  | .complete _ text => UUID.parse text = some id
  | _ => false

/-- A request to complete the row is answered 200. -/
def accepted (id : UUID) (q : Request) : Reply → Bool
  | .file _ => completesRow id q
  | _ => false

/-- A request to complete the row is answered with an error. -/
def refused (id : UUID) (q : Request) : Reply → Bool
  | .error _ _ => completesRow id q
  | _ => false

/-- A request to complete the row starts. -/
def startsCompletion (id : UUID) : ServiceStep → Bool
  | .start _ q => completesRow id q
  | _ => false

/-- The row is saved. -/
def savesRow (id : UUID) : ServiceStep → Bool
  | .call _ _ _ (.write (.saveFile g)) (.ok _) => g.id = id
  | _ => false

/-- A task for the row is enqueued. -/
def enqueuesRow (id : UUID) : ServiceStep → Bool
  | .call _ _ _ (.broker (.enqueue task)) true => task.payload.fileID = id
  | _ => false

/-- The calls of `complete` from its test of the status to its Save. -/
def Stmt.afterStatus {α : Type} : Stmt α → Bool
  | .bucket (.statObject _) => true
  | .write (.saveFile _) => true
  | _ => false

/-- From its test of the status to its Save, a request relies on the row being pending. -/
def pendingWindow (deps : Deps) (id : UUID) : Window (services deps) where
  inside q _ e := e.afterStatus && completesRow id q
  holds s := (s.db.files.get? id).any fun r => r.status = .pending

/-- Only requests to complete an upload are started, and the row does not stop being pending while
another of them is between its test and its Save. -/
def oneCompletion (deps : Deps) (id : UUID) :
    Machine.Schedule Store Request Reply Oracle EnvMove Stmt := fun c m =>
  completions c m && (pendingWindow deps id).undisturbed c m

/-- The pending row `f` after a number of saves: more than one does not occur. -/
def RowAfter (f : File) : ℕ → DB → Prop
  | 0, db => f ∈ db.files
  | 1, db => ∃ size, completed f size ∈ db.files
  | _, _ => False

/-! ## The ledgers -/

section Ledgers

/-- The row that a request reads has the id that it asks for. -/
theorem id_of_query {deps : Deps} {userID id : UUID} {o : Oracle} {s s' : Store}
    {a : Except DbError File} {r : File}
    (hx : (services deps).exec o (.query (.file id userID)) s = some (a, s')) (ha : a = .ok r) :
    r.id = id := by
  rw [services_exec] at hx
  obtain ⟨rfl, -⟩ := exec_query hx
  exact (Query.file_ok ha).2.1

/-- A 200 is paid for by a Save. -/
theorem pays_complete (deps : Deps) (id userID : UUID) (text : GoString) :
    Pays (services deps) (accepted id) (savesRow id) (.complete userID text) false
      (complete userID text .ret) := by
  by_cases htext : UUID.parse text = some id
  · have answer : ∀ (status : ℕ) (message : String), Pays (services deps) (accepted id)
        (savesRow id) (.complete userID text) false (.ret (.error status message)) :=
      fun _ _ => pays_ret rfl
    refine Early.parseID (P := Pays _ _ _ _ false) answer fun id' hid => ?_
    obtain rfl : id' = id := Option.some.inj (hid.symm.trans htext)
    refine pays_call fun _ _ a _ hx => ?_
    refine Early.found (P := Pays _ _ _ _ false) answer fun r hr => ?_
    refine Early.failIf (P := Pays _ _ _ _ false) answer fun _ => pays_call fun _ _ size _ _ => ?_
    cases size with
    | none => exact pays_ret rfl
    | some size =>
      refine pays_step fun s o a s' _ => ?_
      cases a with
      | error e => exact Or.inr (pays_ret rfl)
      | ok _ => exact Or.inl (decide_eq_true (show r.id = id' from id_of_query hx hr))
  · refine pays_of_free (fun r => ?_) _
    cases r <;> simp [accepted, completesRow, htext]

/-- A task is paid for by a Save of the same row. -/
theorem solvent_enqueue (deps : Deps) (id userID : UUID) (text : GoString) :
    Solvent (services deps) (fun _ _ => false) (enqueuesRow id) (savesRow id)
      (.complete userID text) false (complete userID text .ret) := by
  have answer : ∀ (status : ℕ) (message : String), Solvent (services deps) (fun _ _ => false)
      (enqueuesRow id) (savesRow id) (.complete userID text) false (.ret (.error status message)) :=
    fun _ _ => solvent_ret rfl
  refine Early.parseID (P := Solvent _ _ _ _ _ false) answer fun id' _ => ?_
  refine solvent_free (fun _ _ _ => rfl) (fun _ _ _ => rfl) fun _ _ a _ _ => ?_
  refine Early.found (P := Solvent _ _ _ _ _ false) answer fun r _ => ?_
  refine Early.failIf (P := Solvent _ _ _ _ _ false) answer fun _ => ?_
  refine solvent_free (fun _ _ _ => rfl) (fun _ _ _ => rfl) fun _ _ size _ _ => ?_
  cases size with
  | none => exact answer _ _
  | some size =>
    have enqueued : ∀ t, (∀ task, t = some task → task.payload.fileID = r.id) →
        Solvent (services deps) (fun _ _ => false) (enqueuesRow id) (savesRow id)
          (.complete userID text) (decide (r.id = id))
          (enqueueOrLog t fun _ => .ret (.file (completed r size))) := by
      intro t ht
      cases t with
      | none => exact solvent_ret rfl
      | some task =>
        intro s o a s' _
        refine ⟨fun hcost => ?_, solvent_ret rfl⟩
        cases a with
        | false => cases hcost
        | true => rwa [← ht task rfl]
    refine solvent_call fun s o a s' _ => ⟨rfl, ?_⟩
    cases a with
    | error e => exact solvent_ret rfl
    | ok _ => exact enqueued _ fun task htask => fileID_processingTask htask

/-- A request that has saved its row is not refused. -/
theorem solvent_refused (deps : Deps) (id userID : UUID) (text : GoString) :
    Solvent (services deps) (refused id) (savesRow id) (startsCompletion id)
      (.complete userID text) (UUID.parse text = some id) (complete userID text .ret) := by
  have answer : ∀ (status : ℕ) (message : String), Solvent (services deps) (refused id) (savesRow id)
      (startsCompletion id) (.complete userID text) (UUID.parse text = some id)
      (.ret (.error status message)) := fun _ _ h => h
  refine Early.parseID (P := Solvent _ _ _ _ _ _) answer fun id' hid => ?_
  refine solvent_free (fun _ _ _ => rfl) (fun _ _ _ => rfl) fun _ _ a _ hx => ?_
  refine Early.found (P := Solvent _ _ _ _ _ _) answer fun r hr => ?_
  refine Early.failIf (P := Solvent _ _ _ _ _ _) answer fun _ => ?_
  refine solvent_free (fun _ _ _ => rfl) (fun _ _ _ => rfl) fun _ _ size _ _ => ?_
  cases size with
  | none => exact answer _ _
  | some size =>
    have tail : ∀ t b, Solvent (services deps) (refused id) (savesRow id) (startsCompletion id)
        (.complete userID text) b (enqueueOrLog t fun _ => .ret (.file (completed r size))) := by
      intro t b
      cases t with
      | none => exact solvent_ret rfl
      | some task =>
        exact solvent_free (fun _ _ _ => rfl) (fun _ _ _ => rfl) fun _ _ _ _ _ => solvent_ret rfl
    intro s o a s' _
    cases a with
    | error e =>
      refine ⟨fun h => absurd h (by simp [savesRow]), ?_⟩
      show Solvent _ _ _ _ _ ((decide (UUID.parse text = some id) && !false) || false) (.ret _)
      rw [Bool.not_false, Bool.and_true, Bool.or_false]
      exact answer _ _
    | ok _ =>
      refine ⟨fun hsave => ?_, tail _ _⟩
      have hrid : r.id = id := of_decide_eq_true hsave
      exact decide_eq_true (hid.trans (congrArg some ((id_of_query hx hr).symm.trans hrid)))

end Ledgers

/-! ## The row -/

section Row

variable {deps : Deps} {f : File} {n : ℕ} {db : DB}

/-- The row is `f` as it was, or completed. -/
def RowKnown (f : File) (db : DB) : Prop := f ∈ db.files ∨ ∃ size, completed f size ∈ db.files

/-- A row with the id of `f` that is pending is `f`. -/
theorem RowKnown.eq_of_pending (h : RowKnown f db) {r : File} (hr : r ∈ db.files) (hid : r.id = f.id)
    (hpending : r.status = .pending) : r = f := by
  rcases h with h | ⟨size, h⟩
  · exact Table.eq_of_key hr h hid
  · rw [Table.eq_of_key hr h hid] at hpending
    exact absurd hpending (status_completed f size)

theorem RowKnown.save (h : RowKnown f db) {g : File}
    (hg : g.id = f.id → ∃ size, g = completed f size) : RowKnown f (db.saveFile g) := by
  by_cases hid : g.id = f.id
  · obtain ⟨size, rfl⟩ := hg hid
    obtain ⟨r, hr, hrid⟩ : ∃ r ∈ db.files, r.id = (completed f size).id := by
      rcases h with h | ⟨size', h⟩
      · exact ⟨f, h, rfl⟩
      · exact ⟨completed f size', h, rfl⟩
    exact Or.inr ⟨size, DB.mem_saveFile.2 (Or.inl (DB.savedRow_of_mem hr hrid).symm)⟩
  · rcases h with h | ⟨size, h⟩
    · exact Or.inl (DB.mem_saveFile.2 (Or.inr ⟨h, Ne.symm hid⟩))
    · exact Or.inr ⟨size, DB.mem_saveFile.2 (Or.inr ⟨h, Ne.symm hid⟩)⟩

/-- What a request to complete does to the files: it saves its own row as completed, if it is
pending. -/
def Completes (f : File) (q : Request) {α : Type} : Stmt α → Prop
  | .write (.saveFile g) => g.id = f.id → completesRow f.id q = true ∧ ∃ size, g = completed f size
  | .write _ => False
  | _ => True

/-- The reply is 200 or an error. -/
def Reply.fileOrError : Reply → Prop
  | .file _ => True
  | .error _ _ => True
  | _ => False

/-- The outline of completing the row. -/
def completing (deps : Deps) (f : File) : Outline (services deps) where
  inv s := RowKnown f s.db
  rely _ _ := True
  pre q _ e _ := Completes f q e
  post _ r := r.fileOrError
  cond st := (∀ s q, st = .start s q → ∃ userID text, q = .complete userID text)

theorem completing_complete {userID : UUID} {text : GoString} {s : Store} :
    (completing deps f).Safe (.complete userID text) (complete userID text .ret) s := by
  have answer : ∀ (status : ℕ) (message : String), (completing deps f).post (.complete userID text)
      (.error status message) := fun _ _ => trivial
  refine safe_parseID answer fun id hid => ?_
  refine safe_query (fun _ _ _ => trivial) fun o t _ ht _ => ?_
  refine safe_found answer fun r hr => safe_failIf answer fun hpending => ?_
  obtain ⟨hmem, rfl, -⟩ := Query.file_ok hr
  have hrow : r.id = f.id → r = f := fun hrid => ht.eq_of_pending hmem hrid (not_not.1 hpending)
  refine safe_call (fun _ _ _ => trivial) fun size _ _ _ _ _ _ _ _ => ?_
  cases size with
  | none => exact answer _ _
  | some size =>
    refine safe_write (fun _ _ _ hrid => ⟨decide_eq_true (hid.trans (congrArg some hrid)), size, by
      rw [hrow hrid]⟩) fun _ _ _ _ _ _ _ _ _ => ?_
    refine safe_foundOr answer fun _ _ => ?_
    cases processingTask (completed r size) with
    | none => exact trivial
    | some task => exact safe_call (fun _ _ _ => trivial) fun _ _ _ _ _ _ _ _ _ => trivial

/-- A Save of the row, if it commits, is the first. -/
theorem RowAfter.save (h : RowAfter f n db) {g : File} (hg : g.id = f.id → ∃ size, g = completed f size)
    (hfinds : g.id = f.id → ∃ r ∈ db.files, r.id = f.id ∧ r.status = .pending) :
    RowAfter f (n + if g.id = f.id then 1 else 0) (db.saveFile g) := by
  split
  · next hid =>
    obtain ⟨r, hr, hrid, hpending⟩ := hfinds hid
    obtain ⟨size, rfl⟩ := hg hid
    match n with
    | 0 =>
      have hsaved := DB.savedRow_of_mem (f := completed f size) hr hrid
      exact ⟨size, DB.mem_saveFile.2 (Or.inl hsaved.symm)⟩
    | 1 =>
      obtain ⟨size', h⟩ := h
      rw [Table.eq_of_key hr h hrid] at hpending
      exact absurd hpending (status_completed f size')
  · next hid =>
    match n with
    | 0 => exact DB.mem_saveFile.2 (Or.inr ⟨h, Ne.symm hid⟩)
    | 1 =>
      obtain ⟨size, h⟩ := h
      exact ⟨size, DB.mem_saveFile.2 (Or.inr ⟨h, Ne.symm hid⟩)⟩

theorem RowAfter.call (h : RowAfter f n db) {q : Request} {o : Oracle} {α : Type} {e : Stmt α} {a : α}
    {s s' : Store} (hdb : s.db = db) (hpre : Completes f q e)
    (hheld : (pendingWindow deps f.id).Held (.call s q o e a)) (hx : exec o e s = some (a, s')) :
    RowAfter f (n + if savesRow f.id (.call s q o e a) then 1 else 0) s'.db := by
  subst hdb
  cases e with
  | write w =>
    obtain ⟨db', hw, rfl⟩ := exec_write hx
    cases w with
    | saveFile g =>
      obtain ⟨rfl, rfl⟩ | ⟨rfl, rfl⟩ := Write.saveFile_cases hw
      · exact h
      · have hsave := h.save (fun hid => (hpre hid).2) fun hid => ?_
        · simpa [savesRow] using hsave
        · have hpending : (pendingWindow deps f.id).holds s = true := hheld (hpre hid).1
          simpa [pendingWindow, Option.any_eq_true, Table.get?_eq_some, and_assoc] using hpending
    | _ => exact hpre.elim
  | _ =>
    rw [exec_db rfl hx]
    exact h

theorem completing_valid (deps : Deps) (f : File) : (completing deps f).Valid where
  rely_refl _ := trivial
  rely_trans _ _ := trivial
  start _ h hq := by
    have hdb := (launch_cases hq).1
    exact ⟨show RowKnown f _ from hdb ▸ h, trivial⟩
  safe hq _ _ _ := by
    obtain ⟨userID, text, rfl⟩ := hq _ _ rfl
    exact completing_complete
  call := by
    intro q o α e a s s' h hpre _ hx
    refine ⟨?_, trivial⟩
    rw [services_exec] at hx
    cases e with
    | write w =>
      obtain ⟨db', hw, rfl⟩ := exec_write hx
      cases w with
      | saveFile g =>
        obtain ⟨rfl, rfl⟩ | ⟨rfl, rfl⟩ := Write.saveFile_cases hw
        · exact h
        · exact RowKnown.save h fun hid => (hpre hid).2
      | _ => exact hpre.elim
    | _ =>
      show RowKnown f s'.db
      rw [exec_db rfl hx]
      exact h
  env _ h hv := by
    have hdb := (env_cases hv).1
    exact ⟨show RowKnown f _ from hdb ▸ h, trivial⟩

/-- A request gets between the test and the Save with a row that it has found pending. -/
theorem enters_complete {userID : UUID} {text : GoString} {I : Store → Prop} {s : Store} :
    (pendingWindow deps f.id).Enters I (.complete userID text) (complete userID text .ret) s := by
  by_cases htext : UUID.parse text = some f.id
  · have answer : ∀ (t : Store) (status : ℕ) (message : String), (pendingWindow deps f.id).Enters I
        (.complete userID text) (.ret (.error status message)) t := fun _ _ _ => trivial
    have hcompletes : completesRow f.id (.complete userID text) = true := decide_eq_true htext
    refine Early.parseID (P := fun p => Window.Enters _ _ _ p s) (answer s) fun id hid => ?_
    obtain rfl : id = f.id := Option.some.inj (hid.symm.trans htext)
    refine Window.enters_call rfl fun t o a t' _ hx => ?_
    rw [services_exec] at hx
    obtain ⟨ha, rfl⟩ := exec_query hx
    refine Early.found (P := fun p => Window.Enters _ _ _ p t') (answer t') fun r hr => ?_
    refine Early.failIf (P := fun p => Window.Enters _ _ _ p t') (answer t') fun hpending => ?_
    obtain ⟨hmem, hrid, -⟩ := Query.file_ok (ha ▸ hr)
    have hholds : (pendingWindow deps f.id).holds t' = true := by
      simp only [pendingWindow, Table.get?_eq_some.2 ⟨hmem, hrid⟩, Option.any_some, decide_eq_true_eq]
      exact not_not.1 hpending
    refine Window.enters_read hcompletes hholds (services_looks rfl) fun size u hu => ?_
    cases size with
    | none => exact answer u _ _
    | some size =>
      refine ⟨fun _ => hu, fun v o' a v' _ _ _ => ?_⟩
      refine Early.foundOr (P := fun p => Window.Enters _ _ _ p v') (answer v') fun _ _ => ?_
      cases processingTask (completed r size) with
      | none => exact trivial
      | some task => exact Window.enters_call rfl fun _ _ _ _ _ _ => trivial
  · refine Window.enters_of_outside (fun e => ?_) _
    simp [pendingWindow, completesRow, htext]

theorem enters_pending (q : Request) (s : Store) {I : Store → Prop} :
    (pendingWindow deps f.id).Enters I q ((services deps).handler q) s := by
  cases q with
  | complete userID text => exact enters_complete
  | _ => exact Window.enters_of_outside (fun e => by simp [pendingWindow, completesRow]) _

end Row

/-! ## The result -/

theorem ledger_completions {earns : Request → Reply → Bool} {costs pays : ServiceStep → Bool}
    {deps : Deps} {s₀ : Store} {c : Services} (hstart : ∀ s q, costs (.start s q) = false)
    (henv : ∀ s v, costs (.env s v) = false)
    (hq : ∀ s userID text, Solvent (services deps) earns costs pays (.complete userID text)
      (pays (.start s (.complete userID text))) (complete userID text .ret))
    (h : (services deps).Reaches completions (start s₀) c) :
    c.threads.countP (Thread.earned earns) + c.trace.countP costs ≤ c.trace.countP pays := by
  refine earned_add_costs_le_pays hstart henv (fun _ q s hm => ?_) h
  cases q with
  | complete userID text => exact hq s userID text
  | _ => cases hm

/-- **An upload is completed once**: if the row does not stop being pending while a request is between
its test of the status and its Save, one request for it is answered 200 and one task is enqueued.  Every
other request is answered with an error, and has saved nothing: Saves and refusals together are no more
than the requests. -/
theorem complete_starts_once (deps : Deps) {s₀ : Store} {c : Services} {f : File}
    (h : (services deps).Reaches (oneCompletion deps f.id) (start s₀) c) (hf : f ∈ s₀.db.files) :
    c.threads.countP (Thread.earned (accepted f.id)) ≤ 1 ∧ c.trace.countP (enqueuesRow f.id) ≤ 1 ∧
      (∀ th ∈ c.threads, ∀ r, th.prog = .ret r → r.fileOrError) ∧
      c.threads.countP (Thread.earned (refused f.id)) + c.trace.countP (savesRow f.id) ≤
        c.trace.countP (startsCompletion f.id) ∧
      RowAfter f (c.trace.countP (savesRow f.id)) c.store.db := by
  have hL := completing_valid deps f
  have hinit : (completing deps f).Good (start s₀) := Outline.good_init (Or.inl hf)
  have honly : (services deps).Reaches completions (start s₀) c :=
    h.relax fun _ _ hm => (Bool.and_eq_true_iff.1 hm).1
  have hcond : ∀ st ∈ c.trace, (completing deps f).cond st := fun st hst s q hs => by
    subst hs
    refine honly.starts (P := fun q => ∃ userID text, q = .complete userID text) (fun _ q hm => ?_) hst
    cases q with
    | complete userID text => exact ⟨userID, text, rfl⟩
    | _ => cases hm
  have hheld : ∀ st ∈ c.trace, (pendingWindow deps f.id).Held st :=
    Window.held_of_reaches (I := fun _ => True) (fun _ _ hm => (Bool.and_eq_true_iff.1 hm).2)
      (fun _ _ => trivial) (fun q s => enters_pending q s) h
  have hrow : RowAfter f (c.trace.countP (savesRow f.id)) c.store.db := by
    have key := hL.carry (J := fun tr s => (∀ st ∈ tr, (pendingWindow deps f.id).Held st) →
      RowAfter f (tr.countP (savesRow f.id)) s.db) h hinit hcond (fun _ => hf) ?_ ?_ ?_
    · exact key hheld
    · intro tr q s s' hJ _ _ hq hheld
      rw [services_launch] at hq
      rw [(launch_cases hq).1]
      exact hJ fun st hst => hheld st (List.mem_cons_of_mem _ hst)
    · intro tr q o α e a s s' hJ _ hpre _ hx hheld
      rw [services_exec] at hx
      rw [List.countP_cons]
      exact (hJ fun st hst => hheld st (List.mem_cons_of_mem _ hst)).call rfl hpre
        (hheld _ List.mem_cons_self) hx
    · intro tr v s s' hJ _ _ hv hheld
      rw [services_env] at hv
      rw [(env_cases hv).1]
      exact hJ fun st hst => hheld st (List.mem_cons_of_mem _ hst)
  have hone : c.trace.countP (savesRow f.id) ≤ 1 := by
    match hn : c.trace.countP (savesRow f.id) with
    | 0 => omega
    | 1 => omega
    | n + 2 =>
      rw [hn] at hrow
      exact hrow.elim
  have haccepted := ledger_completions (fun _ _ => rfl) (fun _ _ => rfl)
    (fun _ => pays_complete deps f.id) honly
  have henqueued := ledger_completions (fun _ _ => rfl) (fun _ _ => rfl)
    (fun _ => solvent_enqueue deps f.id) honly
  have hrefused := ledger_completions (fun _ _ => rfl) (fun _ _ => rfl)
    (fun _ => solvent_refused deps f.id) honly
  refine ⟨by omega, by omega, fun th hth r hr => ?_, hrefused, hrow⟩
  have hsafe := (hL.good h hinit hcond).2 th hth
  rw [hr] at hsafe
  exact hsafe

/-! ### Two requests at once -/

/-- An image of Alice whose bytes are there and whose upload is not completed. -/
def pendingImage : File where
  id := 100
  name := lit "a.png"
  userID := 1
  folderID := none
  storageKey := storageKey 1 100 (lit "a.png")
  sizeBytes := 3
  mimeType := lit "image/png"
  status := .pending
  version := 1
  isCurrent := true

/-- Alice's account with the row and its object. -/
def pendingStore : Store :=
  { Store.empty with
    db :=
      { users := aliceOnly
        folders := .empty
        files := Table.empty.insert pendingImage (by simp [Table.Used])
        shares := .empty }
    bucket := ⟨[(pendingImage.storageKey, [1, 2, 3])], []⟩ }

/-- Alice completes the upload. -/
abbrev completePending : Request := .complete 1 (text 100)

/-- One request after the other: the second is answered 409. -/
theorem complete_starts_once_twice :
    ∃ c : Services,
      (services plainDeps).Reaches (oneCompletion plainDeps pendingImage.id) (start pendingStore) c ∧
      c.threads.length = 2 ∧ c.threads.countP (Thread.earned (accepted pendingImage.id)) = 1 ∧
      c.trace.countP (enqueuesRow pendingImage.id) = 1 ∧
      (c.threads.countP (Thread.earned (accepted pendingImage.id)) ≤ 1 ∧
        c.trace.countP (enqueuesRow pendingImage.id) ≤ 1 ∧
        (∀ th ∈ c.threads, ∀ r, th.prog = .ret r → r.fileOrError) ∧
        c.threads.countP (Thread.earned (refused pendingImage.id)) +
          c.trace.countP (savesRow pendingImage.id) ≤
            c.trace.countP (startsCompletion pendingImage.id) ∧
        RowAfter pendingImage (c.trace.countP (savesRow pendingImage.id)) c.store.db) := by
  obtain ⟨c, hc, hP⟩ := Machine.exists_reaches (services plainDeps)
    (oneCompletion plainDeps pendingImage.id) (start pendingStore)
    (fun c => c.threads.length = 2 && (c.threads.countP (Thread.earned (accepted pendingImage.id)) = 1 &&
      c.trace.countP (enqueuesRow pendingImage.id) = 1))
    [.start completePending, .step 0 {}, .step 0 {}, .step 0 {}, .step 0 {},
      .start completePending, .step 1 {}]
    (by decide)
  simp only [Bool.and_eq_true, decide_eq_true_eq] at hP
  obtain ⟨htwo, hone, htask⟩ := hP
  exact ⟨c, hc, htwo, hone, htask, complete_starts_once plainDeps hc (List.mem_singleton.2 rfl)⟩

/-- Both requests find the row pending: both are answered 200, and the thumbnail is queued twice. -/
theorem complete_starts_twice :
    ∃ c : Services, (services plainDeps).Reaches completions (start pendingStore) c ∧
      (∀ st ∈ c.trace, succeeds st = true) ∧
      pendingImage ∈ pendingStore.db.files ∧ pendingImage.status = .pending ∧
      ¬c.threads.countP (Thread.earned (accepted pendingImage.id)) ≤ 1 ∧
      ¬c.trace.countP (enqueuesRow pendingImage.id) ≤ 1 := by
  obtain ⟨c, hc, hP⟩ := Machine.exists_reaches (services plainDeps) completions (start pendingStore)
    (fun c => c.trace.all succeeds &&
      (c.threads.countP (Thread.earned (accepted pendingImage.id)) = 2 &&
        c.trace.countP (enqueuesRow pendingImage.id) = 2))
    [.start completePending, .step 0 {}, .start completePending, .step 1 {}, .step 0 {}, .step 0 {},
      .step 0 {}, .step 1 {}, .step 1 {}, .step 1 {}]
    (by decide)
  simp only [Bool.and_eq_true, List.all_eq_true, decide_eq_true_eq] at hP
  obtain ⟨hsucceeds, hanswers, htasks⟩ := hP
  exact ⟨c, hc, hsucceeds, List.mem_singleton.2 rfl, rfl, by omega, by omega⟩

end Optiflow
