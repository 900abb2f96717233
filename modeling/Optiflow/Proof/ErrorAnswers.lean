import Optiflow.Lib.History
import Optiflow.Proof.Deliveries
import Optiflow.Proof.UploadStart

/-!
# An error changes nothing

A request that is refused has changed nothing: every call that it made left the store as it found it,
whatever else went on between them (`error_changes_nothing`).  Only `presign` and `presignVersion` can
make a row and then fail.
-/

namespace Optiflow

open Interleave Code UploadSvc ApiSvc Workers

/-! ## Refusals -/

/-- The request was answered with an error; the jobs, which answer nobody, never are. -/
def Reply.refuses : Reply → Bool
  | .error _ _ => true
  | .tusRejected _ _ _ => true
  | _ => false

/-- A call that left the store as it found it. -/
def idle : ServiceStep → Prop
  | .call s _ o e a => exec o e s = some (a, s)
  | _ => True

/-- The thread had done nothing when it refused. -/
def Innocent (_ : Request) (hist : List ServiceStep) (r : Reply) : Prop :=
  r.refuses = true → ∀ st ∈ hist, idle st

section Reading

variable {deps : Deps} {q : Request} {α : Type} {k : α → Prog Stmt Reply}

/-- The rest of a program whose thread has done nothing yet. -/
def Clean (deps : Deps) (q : Request) (p : Prog Stmt Reply) : Prop :=
  ∀ hist, (∀ st ∈ hist, idle st) → (services deps).Recalls (fun _ _ _ _ => True) Innocent q p hist

/-- The rest of a program that does not refuse any more. -/
def Granted (deps : Deps) (q : Request) (p : Prog Stmt Reply) : Prop :=
  ∀ hist, (services deps).Recalls (fun _ _ _ _ => True) Innocent q p hist

theorem clean_ret (r : Reply) : Clean deps q (.ret r) := fun _ h _ => h

theorem granted_ret {r : Reply} (h : r.refuses = false) : Granted deps q (.ret r) := by
  intro hist hr
  rw [h] at hr
  cases hr

theorem Granted.clean {p : Prog Stmt Reply} (h : Granted deps q p) : Clean deps q p := fun hist _ => h hist

theorem clean_call {e : Stmt α} (he : ∀ o a s s', exec o e s = some (a, s') → s' = s)
    (hk : ∀ a, Clean deps q (k a)) : Clean deps q (.call e k) := by
  refine fun hist h => ⟨trivial, fun o a s s' hx => hk a _ fun st hst => ?_⟩
  rw [services_exec] at hx
  rcases List.mem_cons.1 hst with rfl | hst
  · obtain rfl := he o a s s' hx
    exact hx
  · exact h st hst

theorem granted_call {e : Stmt α} (hk : ∀ a, Granted deps q (k a)) : Granted deps q (.call e k) :=
  fun _ => ⟨trivial, fun _ a _ _ _ => hk a _⟩

/-- Code that only looks. -/
theorem clean_looks {c : Handler α} (hc : Looks c) (hk : ∀ a, Clean deps q (k a)) :
    Clean deps q (c k) :=
  hc (Clean deps q) (fun _ _ he hk => clean_call (fun _ _ _ _ hx => exec_looks he hx) hk)
    (fun r _ => clean_ret r) k hk

theorem clean_bind {β : Type} {x : Handler β} {f : β → Handler α} (hx : Looks x)
    (hf : ∀ b, Clean deps q (f b k)) : Clean deps q ((x >>= f) k) :=
  clean_looks (c := x) hx hf

theorem clean_query {β : Type} {e : Query β} {f : Except DbError β → Handler α}
    (hf : ∀ b, Clean deps q (f b k)) : Clean deps q ((query e >>= f) k) :=
  clean_bind (over_call trivial) hf

/-- Code that does not answer. -/
theorem granted_passing {puts : Bool} {c : Handler α} (hc : Passing puts c)
    (hk : ∀ a, Granted deps q (k a)) : Granted deps q (c k) :=
  hc (Granted deps q) (fun _ _ _ hk => granted_call hk) (fun _ h => h.elim) k hk

/-- A write that fails leaves the database as it was. -/
theorem Write.eq_of_error {w : Write α} {o : Oracle} {issued : List UUID} {e : DbError} {db db' : DB}
    (h : w.run o issued db = some (.error e, db')) : db' = db := by
  unfold Write.run at h
  split at h
  · exact (Prod.mk.inj (Option.some.inj h)).2.symm
  · cases w with
    | createFile mk =>
      simp only [Write.commit] at h
      split at h
      · cases h
      · split at h
        · exact (Prod.mk.inj (Option.some.inj h)).2.symm
        · cases (Prod.mk.inj (Option.some.inj h)).1
    | presignVersion userID root mk =>
      simp only [Write.commit] at h
      split at h
      · cases h
      · split at h
        · exact (Prod.mk.inj (Option.some.inj h)).2.symm
        · cases (Prod.mk.inj (Option.some.inj h)).1
    | createFolder name userID parentID =>
      simp only [Write.commit] at h
      split at h
      · cases h
      · cases (Prod.mk.inj (Option.some.inj h)).1
    | createShare fileID userID passwordHash expiresAt maxDownloads =>
      simp only [Write.commit] at h
      split at h
      · cases h
      · split at h
        · cases h
        · cases (Prod.mk.inj (Option.some.inj h)).1
    | deleteFolder userID folderID =>
      simp only [Write.commit, Option.map_eq_some_iff] at h
      obtain ⟨r, -, h⟩ := h
      cases (Prod.mk.inj h).1
    | _ => cases (Prod.mk.inj (Option.some.inj h)).1

/-- A write, after which nothing is refused but its failure. -/
theorem clean_write {β : Type} {w : Write β} {f : β → Handler α} {status : ℕ} {message : String}
    (hok : ∀ b, Granted deps q (f b k)) :
    Clean deps q ((write w >>= fun b => foundOr status message b >>= f) k) := by
  refine fun hist h => ⟨trivial, fun o a s s' hx => ?_⟩
  rw [services_exec] at hx
  cases a with
  | ok a => exact hok a _
  | error e =>
    refine clean_ret (.error status message) _ fun st hst => ?_
    rcases List.mem_cons.1 hst with rfl | hst
    · obtain ⟨db', hw, rfl⟩ := exec_write hx
      obtain rfl := Write.eq_of_error hw
      exact hx
    · exact h st hst

/-! ## The handlers -/

theorem granted_enqueueOrLog {task : Option Task} {f : Unit → Handler α}
    (hf : Granted deps q (f () k)) : Granted deps q ((enqueueOrLog task >>= f) k) := by
  cases task with
  | none => exact hf
  | some task => exact granted_call fun _ => hf

theorem clean_complete (userID : UUID) (id : GoString) : Clean deps q (complete userID id .ret) := by
  unfold complete
  refine clean_bind (silent_parseID _ _).over fun fileID => clean_query fun a => ?_
  refine clean_bind (silent_found a).over fun file => clean_bind (silent_failIf _ _ _).over fun _ => ?_
  refine clean_bind (over_call rfl) fun size => ?_
  cases size with
  | none => exact clean_ret _
  | some size => exact clean_write fun _ => granted_enqueueOrLog (granted_ret rfl)

theorem clean_tusPreCreate (userID : Option UUID) (upload : Upload) :
    Clean deps q (tusPreCreate userID upload .ret) := by
  cases userID with
  | none => exact clean_ret _
  | some userID =>
    unfold tusPreCreate
    refine clean_bind (over_ite (over_exit trivial) (over_pure ())) fun _ => ?_
    refine clean_bind (reads_tusCheckFolder _ _).looks fun _ => ?_
    refine clean_bind (reads_checkQuota _ _).looks fun a => ?_
    match a with
    | .error (.exceeded message) => exact clean_ret (.tusRejected "ERR_QUOTA_EXCEEDED" message 413)
    | .error .other => exact clean_ret (.tusRejected "ERR_INTERNAL" "could not start upload" 500)
    | .ok () => exact (granted_call fun _ => granted_ret rfl).clean

theorem granted_finishTusUpload (upload : Upload) : Granted deps q (finishTusUpload upload .ret) := by
  unfold finishTusUpload
  cases UUID.parse (upload.metaData.get (lit "user_id")) with
  | none => exact granted_ret rfl
  | some userID =>
    refine Early.exitIf (P := Granted deps q) (fun _ => granted_ret rfl) fun _ => granted_call fun body => ?_
    cases body with
    | none => exact granted_ret rfl
    | some body =>
      refine granted_call fun fileID => granted_call fun stored => ?_
      refine Early.exitIf (P := Granted deps q) (fun _ => granted_ret rfl) fun _ => granted_call fun a => ?_
      cases a with
      | error e => exact granted_ret rfl
      | ok file =>
        exact granted_enqueueOrLog (granted_call fun _ => granted_call fun _ => granted_ret rfl)

theorem clean_shareDownloadURL (verify : GoString → GoString → Bool) (token : GoString)
    (body : Option GoString) : Clean deps q (shareDownloadURL verify token body .ret) := by
  unfold shareDownloadURL
  refine clean_bind (looks_resolveActiveShare token) fun a => clean_bind (silent_found a).over fun share => ?_
  refine clean_bind (silent_checkPassword _ _ _).over fun _ => clean_query fun a => ?_
  refine clean_bind (silent_foundOr a).over fun file => clean_bind (silent_failIf _ _ _).over fun _ => ?_
  refine clean_bind (over_call rfl) fun url => ?_
  cases url with
  | none => exact clean_ret _
  | some url => exact (granted_call fun _ => granted_call fun _ => granted_ret rfl).clean

theorem clean_createFolder (userID : UUID) (body : Option FolderRequest) :
    Clean deps q (createFolder userID body .ret) := by
  unfold createFolder
  refine clean_bind (silent_decodeBody _).over fun req => clean_bind (silent_failIf _ _ _).over fun _ => ?_
  refine clean_bind (reads_ownedParentID _ _).looks fun parentID => ?_
  exact clean_write fun _ => granted_ret rfl

theorem clean_updateFolder (userID : UUID) (id : GoString) (body : Option FolderRequest) (steps : ℕ) :
    Clean deps q (updateFolder userID id body steps .ret) := by
  unfold updateFolder
  refine clean_bind (silent_parseID _ _).over fun folderID => clean_query fun a => ?_
  refine clean_bind (silent_foundOr a).over fun folder => clean_bind (silent_decodeBody _).over fun req => ?_
  refine clean_bind (reads_moveFolder _ _ _ _ _).looks fun folder => ?_
  exact clean_write fun _ => granted_ret rfl

theorem clean_updateFile (userID : UUID) (id : GoString) (body : Option FileUpdateRequest) :
    Clean deps q (updateFile userID id body .ret) := by
  unfold updateFile
  refine clean_bind (silent_parseID _ _).over fun fileID => clean_query fun a => ?_
  refine clean_bind (silent_foundOr a).over fun file => clean_bind (silent_decodeBody _).over fun req => ?_
  refine clean_bind (silent_renameFile _ _).over fun file => ?_
  refine clean_bind (reads_moveFile _ _ _).looks fun file => ?_
  exact clean_write fun _ => granted_ret rfl

/-- The objects of deleted rows are removed after the answer is settled. -/
theorem granted_cleanupFiles (files : List File) :
    Granted deps q ((do cleanupFiles files; return .noContent : Handler Reply) .ret) :=
  granted_passing (c := cleanupFiles files) (k := fun _ => .ret .noContent)
    (passing_cleanupFiles files : Passing false _) fun _ => granted_ret rfl

theorem clean_deleteFile (userID : UUID) (id : GoString) :
    Clean deps q (deleteFile userID id .ret) := by
  unfold deleteFile
  refine clean_bind (silent_parseID _ _).over fun fileID => clean_query fun a => ?_
  exact clean_bind (silent_foundOr a).over fun file => clean_write granted_cleanupFiles

theorem clean_deleteFolder (userID : UUID) (id : GoString) :
    Clean deps q (deleteFolder userID id .ret) := by
  unfold deleteFolder
  refine clean_bind (silent_parseID _ _).over fun folderID => clean_query fun a => ?_
  exact clean_bind (silent_foundOr a).over fun _ => clean_write granted_cleanupFiles

theorem clean_restoreFileVersion (userID : UUID) (id versionID : GoString) :
    Clean deps q (restoreFileVersion userID id versionID .ret) := by
  unfold restoreFileVersion
  refine clean_bind (silent_parseID _ _).over fun fileID => ?_
  refine clean_bind (silent_parseID _ _).over fun target => clean_query fun a => ?_
  refine clean_bind (silent_foundOr a).over fun file => clean_query fun b => ?_
  refine clean_bind (silent_found b).over fun target => clean_bind (silent_failIf _ _ _).over fun _ => ?_
  exact clean_write fun _ => granted_ret rfl

theorem clean_createShare (userID : UUID) (id : GoString) (req : ShareCreateRequest) :
    Clean deps q (createShare userID id req .ret) := by
  unfold createShare
  refine clean_bind (silent_parseID _ _).over fun fileID => clean_query fun a => ?_
  refine clean_bind (silent_foundOr a).over fun file => clean_bind (over_call trivial) fun generated => ?_
  refine clean_bind (silent_failIf _ _ _).over fun _ => ?_
  refine clean_bind (reads_shareExpiry userID _).looks fun expiresAt => ?_
  refine clean_bind (reads_shareLimit userID _).looks fun limit => ?_
  refine clean_bind (asks_sharePasswordHash userID _).looks fun hash => ?_
  exact clean_write fun _ => granted_ret rfl

/-- Deleting no share leaves the links as they are. -/
theorem DB.deleteShares_eq_self {db : DB} {p : Share → Bool} (h : db.shares.rows.countP p = 0) :
    db.deleteShares p = db := by
  have hno : ∀ x ∈ db.shares.rows, ¬p x = true := List.countP_eq_zero.1 h
  have hshares : db.shares.delete p = db.shares := by
    refine Table.ext_rows (List.filter_eq_self.2 fun x hx => ?_) rfl
    simpa using hno x hx
  have htokens : db.shares.rows.filter p = [] := List.filter_eq_nil_iff.2 hno
  rw [DB.deleteShares, hshares, htokens]
  rfl

theorem clean_deleteShare (userID : UUID) (id : GoString) :
    Clean deps q (deleteShare userID id .ret) := by
  unfold deleteShare
  refine clean_bind (silent_parseID _ _).over fun shareID => ?_
  refine fun hist h => ⟨trivial, fun o a s s' hx => ?_⟩
  rw [services_exec] at hx
  obtain ⟨db', hw, rfl⟩ := exec_write hx
  -- A share that is not there is not deleted.
  have hnone : (∀ k, a ≠ .ok (k + 1)) → idle (.call s q o (.write (.deleteShare shareID userID)) a) := by
    intro hne
    obtain ⟨rfl, rfl⟩ | ⟨rfl, rfl⟩ := Write.deleteShare_cases hw
    · exact hx
    · generalize hk : s.db.shares.rows.countP _ = k at hx hne
      cases k with
      | zero =>
        rw [DB.deleteShares_eq_self hk] at hx
        exact hx
      | succ k => exact absurd rfl (hne k)
  match a with
  | .error e =>
    exact clean_ret _ _ fun st hst => (List.mem_cons.1 hst).elim
      (fun heq => heq ▸ hnone fun _ hk => nomatch hk) (h st)
  | .ok 0 =>
    exact clean_ret _ _ fun st hst => (List.mem_cons.1 hst).elim
      (fun heq => heq ▸ hnone fun _ hk => nomatch hk) (h st)
  | .ok (k + 1) => exact granted_ret rfl _

/-- A delivery answers nobody. -/
theorem granted_of_holding {msg : Message} {p : Prog Stmt Reply} (h : Holding msg p) :
    Granted deps q p := by
  induction p with
  | ret r =>
    obtain rfl : r = .processed none := h
    exact granted_ret rfl
  | call e k ih =>
    refine granted_call fun a => ?_
    obtain ⟨-, hk⟩ | ⟨-, hk⟩ := h
    · obtain ⟨err, hret⟩ := hk a
      rw [hret]
      exact granted_ret rfl
    · exact ih a (hk a)

theorem clean_handler (hq : q.startsUpload = false) : Clean deps q ((services deps).handler q) := by
  rw [services_handler]
  by_cases hlooks : q.looks = true
  · exact clean_looks (looks_handler hlooks) clean_ret
  cases q with
  | presign userID body => cases hq
  | presignVersion userID id body => cases hq
  | complete userID id => exact clean_complete userID id
  | tusPreCreate userID upload => exact clean_tusPreCreate userID upload
  | finishTusUpload upload => exact (granted_finishTusUpload upload).clean
  | shareDownloadURL token body => exact clean_shareDownloadURL deps.verifyPassword token body
  | createFolder userID body => exact clean_createFolder userID body
  | updateFolder userID id body steps => exact clean_updateFolder userID id body steps
  | deleteFolder userID id => exact clean_deleteFolder userID id
  | updateFile userID id body => exact clean_updateFile userID id body
  | deleteFile userID id => exact clean_deleteFile userID id
  | restoreFileVersion userID id versionID => exact clean_restoreFileVersion userID id versionID
  | createShare userID id req => exact clean_createShare userID id req
  | deleteShare userID id => exact clean_deleteShare userID id
  | deliver worker msg => exact (granted_of_holding holding_deliver).clean
  | _ => exact absurd rfl hlooks

end Reading

/-! ## Every run -/

/-- **An error changes nothing**: in every interleaving, a request that is answered with an error, other
than `presign` and `presignVersion`, has made only calls that left the store as they found it.  The steps
that its thread has taken are in the trace, and whatever steps lead to such an answer are idle. -/
theorem error_changes_nothing (deps : Deps) {s₀ : Store} {c : Services}
    (h : (services deps).Reaches Machine.anySchedule (start s₀) c) {q : Request} {r : Reply}
    (hth : ⟨q, .ret r⟩ ∈ c.threads) (hr : r.refuses = true) (hq : q.startsUpload = false) :
    (∃ hist, hist.Sublist c.trace ∧
      (services deps).Took q ((services deps).handler q) hist (.ret r)) ∧
    ∀ hist, (services deps).Took q ((services deps).handler q) hist (.ret r) → ∀ st ∈ hist, idle st := by
  have hclean : Clean deps q ((services deps).handler q) := clean_handler hq
  have hnothing : ∀ st ∈ ([] : List ServiceStep), idle st := fun _ hst => absurd hst List.not_mem_nil
  refine ⟨h.took _ hth, fun hist htook => ?_⟩
  exact ((hclean [] hnothing).took htook : Innocent q hist r) hr

/-- Alice completes an upload whose bytes never came, while another upload of hers starts. -/
def completeTooSoon : List (Move Request Oracle EnvMove) :=
  [.start (.presign 1 (some ⟨lit "a.txt", 3, lit "text/plain", none⟩)), .step 0 {}, .step 0 {},
    .step 0 { uuid := 100 }, .start (.complete 1 (text 100)), .step 1 {},
    .start (.presign 1 (some ⟨lit "b.txt", 3, lit "text/plain", none⟩)), .step 2 {}, .step 2 {},
    .step 2 { uuid := 101 }, .step 1 {}]

/-- The second request was refused. -/
def completeRefused (c : Services) : Bool :=
  match c.threads with
  | [_, ⟨.complete _ _, .ret r⟩, _] => r.refuses
  | _ => false

theorem error_changes_nothing_complete : ∃ c : Services, ∃ userID id, ∃ hist : List ServiceStep,
    ∃ r : Reply, c.store.db.files.rows.length = 2 ∧ r.refuses = true ∧ hist.Sublist c.trace ∧
    (services plainDeps).Took (.complete userID id)
      ((services plainDeps).handler (.complete userID id)) hist (.ret r) ∧ ∀ st ∈ hist, idle st := by
  obtain ⟨c, hc, hP⟩ := exists_run Machine.anySchedule completeTooSoon
    (fun c => completeRefused c && c.store.db.files.rows.length = 2) (by decide)
  obtain ⟨hrefused, hrows⟩ := Bool.and_eq_true_iff.1 hP
  unfold completeRefused at hrefused
  split at hrefused
  · next a userID id r b hthreads =>
    obtain ⟨⟨hist, hsub, htook⟩, hidle⟩ := error_changes_nothing plainDeps hc
      (by rw [hthreads]; simp : ⟨.complete userID id, .ret r⟩ ∈ c.threads) hrefused rfl
    exact ⟨c, userID, id, hist, r, of_decide_eq_true hrows, hrefused, hsub, htook, hidle hist htook⟩
  · cases hrefused

end Optiflow
