import Optiflow.Lib.History
import Optiflow.Proof.Passwords

/-!
# Accounts are accounted for

Every column of an account is as it was at the start or was written by somebody entitled to it: the name
by an edit of the account's own user, the password by a reset that carried a token which somebody had
asked for with the account's email (`accounts_explained`).  Edits save rows that they read some calls ago,
so what accounts for a column that is saved is what accounted for it when it was read.
-/

namespace Optiflow

open Interleave

namespace AuthSvc

/-! ## The property -/

/-- The step gives a reset token with the hash to the user with the email. -/
def givesToken (email : GoString) (userID : UUID) (tokenHash : GoString) : ServiceStep → Prop
  | .call _ (.requestPasswordReset (some req)) _ (.createResetToken id hash _) (.ok _) =>
    req.email = email ∧ id = userID ∧ hash = tokenHash
  | _ => False

/-- The step sets the user's password to the hash of one that a request brought, with a token that has the
hash. -/
def setsPassword (deps : Deps) (userID : UUID) (tokenHash passwordHash : GoString) : ServiceStep → Prop
  | .call _ (.confirmPasswordReset (some req)) _ (.resetPassword t hash) (.ok _) =>
    t.userID = userID ∧ t.tokenHash = tokenHash ∧ deps.hashResetToken req.token = tokenHash ∧
      hash = passwordHash ∧ ∃ salt, deps.hashPassword salt req.newPassword = some passwordHash
  | _ => False

/-- The step is an edit of the user's own profile that sets the name. -/
def setsName (userID : UUID) (name : GoString) : ServiceStep → Prop
  | .call _ (.updateMe id (some req)) _ (.saveUser u) (.ok _) => id = userID ∧ u.id = id ∧ req.name = name
  | _ => False

/-- The token was there at the start, or was given to the user by a step of the trace. -/
def TokenExplained (s₀ : Store) (tr : List ServiceStep) (userID : UUID) (tokenHash : GoString) : Prop :=
  (∃ t₀ ∈ s₀.resetTokens, t₀.userID = userID ∧ t₀.tokenHash = tokenHash) ∨
    ∃ u₀ ∈ s₀.users, u₀.id = userID ∧ ∃ st ∈ tr, givesToken u₀.email userID tokenHash st

/-- The password was there at the start, or was set by a step of the trace with a token from before. -/
def PasswordExplained (deps : Deps) (s₀ : Store) (tr : List ServiceStep) (u₀ u : User) : Prop :=
  u.passwordHash = u₀.passwordHash ∨ ∃ st past tokenHash, st :: past <:+ tr ∧
    setsPassword deps u₀.id tokenHash u.passwordHash st ∧ TokenExplained s₀ past u₀.id tokenHash

/-- The account is one of the start, with the same email and quota, and its password and its name are
accounted for. -/
structure Explained (deps : Deps) (s₀ : Store) (tr : List ServiceStep) (u₀ u : User) : Prop where
  id : u.id = u₀.id
  email : u.email = u₀.email
  quota : u.storageQuotaBytes = u₀.storageQuotaBytes
  password : PasswordExplained deps s₀ tr u₀ u
  name : u.name = u₀.name ∨ ∃ st ∈ tr, setsName u₀.id u.name st

/-- The accounts and the tokens of the store are accounted for, and no account has gone. -/
structure AllExplained (deps : Deps) (s₀ : Store) (tr : List ServiceStep) (s : Store) : Prop where
  user : ∀ u ∈ s.users, ∃ u₀ ∈ s₀.users, Explained deps s₀ tr u₀ u
  token : ∀ t ∈ s.resetTokens, TokenExplained s₀ tr t.userID t.tokenHash
  kept : ∀ u₀ ∈ s₀.users, ∃ u ∈ s.users, u.id = u₀.id

/-! ## More steps -/

section Mono

variable {deps : Deps} {s₀ s : Store} {tr tr' : List ServiceStep} {u₀ u : User}

theorem TokenExplained.mono (h : tr <:+ tr') {userID : UUID} {tokenHash : GoString} :
    TokenExplained s₀ tr userID tokenHash → TokenExplained s₀ tr' userID tokenHash
  | Or.inl ht => Or.inl ht
  | Or.inr ⟨u₀, hu, hid, st, hst, hgives⟩ => Or.inr ⟨u₀, hu, hid, st, h.subset hst, hgives⟩

theorem PasswordExplained.mono (h : tr <:+ tr') :
    PasswordExplained deps s₀ tr u₀ u → PasswordExplained deps s₀ tr' u₀ u
  | Or.inl hp => Or.inl hp
  | Or.inr ⟨st, past, tokenHash, hsub, hsets, htoken⟩ =>
    Or.inr ⟨st, past, tokenHash, hsub.trans h, hsets, htoken⟩

theorem Explained.mono (h : tr <:+ tr') (hu : Explained deps s₀ tr u₀ u) :
    Explained deps s₀ tr' u₀ u where
  id := hu.id
  email := hu.email
  quota := hu.quota
  password := hu.password.mono h
  name := hu.name.imp_right fun ⟨st, hst, hname⟩ => ⟨st, h.subset hst, hname⟩

theorem AllExplained.mono (h : tr <:+ tr') (hs : AllExplained deps s₀ tr s) :
    AllExplained deps s₀ tr' s where
  user u hu := (hs.user u hu).imp fun _ hu₀ => hu₀.imp_right fun he => he.mono h
  token t ht := (hs.token t ht).mono h
  kept := hs.kept

end Mono

/-! ## Reading the handlers -/

/-- What a request writes goes back to a row that one of its calls found. -/
def Justified (deps : Deps) (q : Request) (hist : List ServiceStep) {α : Type} : Stmt α → Prop
  | .saveUser u => ∃ userID req, q = .updateMe userID (some req) ∧
      ∃ st ∈ hist, ∃ r ∈ st.before.users, r.id = userID ∧ u = { r with name := req.name }
  | .createResetToken userID _ _ => ∃ req, q = .requestPasswordReset (some req) ∧
      ∃ st ∈ hist, ∃ r ∈ st.before.users, r.email = req.email ∧ r.id = userID
  | .resetPassword t hash => ∃ req, q = .confirmPasswordReset (some req) ∧
      (∃ st ∈ hist, t ∈ st.before.resetTokens) ∧ t.tokenHash = deps.hashResetToken req.token ∧
      ∃ salt, deps.hashPassword salt req.newPassword = some hash
  | _ => True

section Handlers

variable {deps : Deps} {hist : List ServiceStep}

/-- Reading a program together with what its thread has done. -/
abbrev Justifies (deps : Deps) (q : Request) (p : Prog Stmt Reply) (hist : List ServiceStep) : Prop :=
  (machine deps).Recalls (Justified deps) (fun _ _ _ => True) q p hist

theorem justifies_answer (q : Request) (status : ℕ) (message : String) :
    Justifies deps q (.ret (.error status message)) hist := trivial

theorem justifies_getMe (userID : UUID) : Justifies deps (.getMe userID) (getMe userID .ret) hist :=
  ⟨trivial, fun _ _ _ _ _ =>
    Early.found (P := fun p => Justifies deps _ p _) (justifies_answer _) fun _ _ => trivial⟩

theorem justifies_updateMe (userID : UUID) (body : Option UpdateMeRequest) :
    Justifies deps (.updateMe userID body) (updateMe userID body .ret) hist := by
  refine Early.decodeBody (P := fun p => Justifies deps _ p _) (justifies_answer _) fun req hreq => ?_
  subst hreq
  refine Early.failIf (P := fun p => Justifies deps _ p _) (justifies_answer _) fun _ => ?_
  refine ⟨trivial, fun o a s s' hx => ?_⟩
  refine Early.found (P := fun p => Justifies deps _ p _) (justifies_answer _) fun user ha => ?_
  subst ha
  simp only [machine_exec, exec, Option.some.injEq, Prod.mk.injEq] at hx
  obtain ⟨hmem, hid⟩ := mem_of_firstOrNotFound (answer_ok hx.1)
  refine ⟨⟨userID, req, rfl, _, List.mem_cons_self, user, hmem, of_decide_eq_true hid, rfl⟩,
    fun _ a _ _ _ => ?_⟩
  exact Early.foundOr (P := fun p => Justifies deps _ p _) (justifies_answer _) fun _ _ => trivial

theorem justifies_requestPasswordReset (body : Option PasswordResetRequestRequest) :
    Justifies deps (.requestPasswordReset body) (requestPasswordReset deps body .ret) hist := by
  refine Early.decodeBody (P := fun p => Justifies deps _ p _) (justifies_answer _) fun req hreq => ?_
  subst hreq
  refine Early.failIf (P := fun p => Justifies deps _ p _) (justifies_answer _) fun _ => ?_
  refine ⟨trivial, fun o a s s' hx => ?_⟩
  refine Early.found (P := fun p => Justifies deps _ p _) (justifies_answer _) fun user ha => ?_
  subst ha
  simp only [machine_exec, exec, Option.some.injEq, Prod.mk.injEq] at hx
  obtain ⟨hmem, hemail⟩ := mem_of_firstOrNotFound (answer_ok hx.1)
  refine ⟨trivial, fun _ raw _ _ _ => ?_⟩
  cases raw with
  | none => trivial
  | some raw =>
    refine ⟨trivial, fun _ now _ _ _ => ⟨⟨req, rfl, _, List.mem_cons_of_mem _ (List.mem_cons_of_mem _
      List.mem_cons_self), user, hmem, of_decide_eq_true hemail, rfl⟩, fun _ _ _ _ _ => ?_⟩⟩
    exact Early.foundOr (P := fun p => Justifies deps _ p _) (justifies_answer _) fun _ _ => trivial

theorem justifies_confirmPasswordReset (body : Option PasswordResetConfirmRequest) :
    Justifies deps (.confirmPasswordReset body) (confirmPasswordReset deps body .ret) hist := by
  refine Early.decodeBody (P := fun p => Justifies deps _ p _) (justifies_answer _) fun req hreq => ?_
  subst hreq
  refine Early.failIf (P := fun p => Justifies deps _ p _) (justifies_answer _) fun _ => ?_
  refine ⟨trivial, fun o a s s' hx => ?_⟩
  refine Early.foundOr (P := fun p => Justifies deps _ p _) (justifies_answer _) fun t ha => ?_
  subst ha
  simp only [machine_exec, exec, Option.some.injEq, Prod.mk.injEq] at hx
  obtain ⟨hmem, hhash⟩ := mem_of_firstOrNotFound (answer_ok hx.1)
  refine Early.failIf (P := fun p => Justifies deps _ p _) (justifies_answer _) fun _ => ?_
  refine ⟨trivial, fun _ now _ _ _ => ?_⟩
  refine Early.failIf (P := fun p => Justifies deps _ p _) (justifies_answer _) fun _ => ?_
  refine ⟨trivial, fun o hash _ _ hx => ?_⟩
  cases hash with
  | none => trivial
  | some hash =>
    have hsalt : ∃ salt, deps.hashPassword salt req.newPassword = some hash := by
      simp only [machine_exec, exec, Option.some.injEq, Prod.mk.injEq] at hx
      split at hx
      · cases hx.1
      · exact ⟨_, hx.1⟩
    refine ⟨⟨req, rfl, ⟨_, List.mem_cons_of_mem _ (List.mem_cons_of_mem _ List.mem_cons_self), hmem⟩,
      of_decide_eq_true hhash, hsalt⟩, fun _ _ _ _ _ => ?_⟩
    exact Early.foundOr (P := fun p => Justifies deps _ p _) (justifies_answer _) fun _ _ => trivial

theorem justifies_handler (q : Request) : Justifies deps q ((machine deps).handler q) hist := by
  cases q with
  | getMe userID => exact justifies_getMe userID
  | updateMe userID body => exact justifies_updateMe userID body
  | requestPasswordReset body => exact justifies_requestPasswordReset body
  | confirmPasswordReset body => exact justifies_confirmPasswordReset body

end Handlers

/-! ## Calls -/

section Calls

variable {deps : Deps} {s₀ s s' : Store} {past hist : List ServiceStep} {q : Request} {o : Oracle}
  {α : Type} {e : Stmt α} {a : α}

/-- The rows that the steps of a thread's history found were accounted for, and still are. -/
theorem AllExplained.of_hist
    (hist_ok : ∀ st ∈ hist, ∃ before, st :: before <:+ past ∧ AllExplained deps s₀ before st.before)
    {st : ServiceStep} (hst : st ∈ hist) : AllExplained deps s₀ past st.before := by
  obtain ⟨before, hsub, hs⟩ := hist_ok st hst
  exact hs.mono ((List.suffix_cons st before).trans hsub)

/-- A save of an account that was read with another name. -/
theorem AllExplained.saveUser (hs : AllExplained deps s₀ past s) {userID : UUID} {req : UpdateMeRequest}
    {u r : User} {st : ServiceStep}
    (hr : ∃ u₀ ∈ s₀.users, Explained deps s₀ past u₀ r) (hid : r.id = userID)
    (hu : u = { r with name := req.name }) (hst : setsName userID req.name st) :
    AllExplained deps s₀ (st :: past) (s.saveUser u) := by
  obtain ⟨u₀, hu₀, he⟩ := hr
  have hnew := hs.mono (List.suffix_cons st past)
  have hsaved : Explained deps s₀ (st :: past) u₀ u := by
    subst hu
    have he' := he.mono (List.suffix_cons st past)
    exact ⟨he'.id, he'.email, he'.quota, he'.password,
      Or.inr ⟨st, List.mem_cons_self, (he'.id.symm.trans hid) ▸ hst⟩⟩
  obtain ⟨row, hrow, hrowid⟩ := hs.kept u₀ hu₀
  have hmem : ∀ {x}, x ∈ (s.saveUser u).users ↔ x = u ∨ (x ∈ s.users ∧ x.id ≠ u.id) :=
    mem_users_saveUser hrow (hrowid.trans hsaved.id.symm)
  refine ⟨fun x hx => ?_, hnew.token, fun v hv => ?_⟩
  · obtain rfl | ⟨hx, -⟩ := hmem.1 hx
    · exact ⟨u₀, hu₀, hsaved⟩
    · exact hnew.user x hx
  · obtain ⟨x, hx, hxid⟩ := hs.kept v hv
    by_cases hxu : x.id = u.id
    · exact ⟨u, hmem.2 (Or.inl rfl), hxu.symm.trans hxid⟩
    · exact ⟨x, hmem.2 (Or.inr ⟨hx, hxu⟩), hxid⟩

/-- The transaction of a reset with a token that was accounted for. -/
theorem AllExplained.resetPassword (hs : AllExplained deps s₀ past s) {t : PasswordResetToken}
    {hash : GoString} {st : ServiceStep} (ht : TokenExplained s₀ past t.userID t.tokenHash)
    (hst : setsPassword deps t.userID t.tokenHash hash st) :
    AllExplained deps s₀ (st :: past) (s.resetPassword t hash) := by
  have hnew := hs.mono (List.suffix_cons st past)
  refine ⟨fun x hx => ?_, fun x hx => ?_, fun v hv => ?_⟩
  · obtain ⟨u, hu, rfl⟩ := mem_users_resetPassword.1 hx
    obtain ⟨u₀, hu₀, he⟩ := hnew.user u hu
    refine ⟨u₀, hu₀, ?_⟩
    split
    · next hid =>
      have hid₀ : t.userID = u₀.id := hid.symm.trans he.id
      exact ⟨he.id, he.email, he.quota, Or.inr ⟨st, past, t.tokenHash, List.suffix_refl _, hid₀ ▸ hst,
        hid₀ ▸ ht⟩, he.name⟩
    · exact he
  · obtain ⟨r, hr, rfl⟩ := mem_resetTokens_resetPassword.1 hx
    split <;> exact hnew.token r hr
  · obtain ⟨x, hx, hxid⟩ := hs.kept v hv
    refine ⟨_, mem_users_resetPassword.2 ⟨x, hx, rfl⟩, ?_⟩
    split <;> exact hxid

/-- A token for an account that was read. -/
theorem AllExplained.createResetToken (hs : AllExplained deps s₀ past s) {t : PasswordResetToken}
    (hu : ¬s.resetTokens.Used (key t)) {r : User} {st : ServiceStep}
    (hr : ∃ u₀ ∈ s₀.users, Explained deps s₀ past u₀ r)
    (hst : givesToken r.email r.id t.tokenHash st) (hid : r.id = t.userID) :
    AllExplained deps s₀ (st :: past) { s with resetTokens := s.resetTokens.insert t hu } := by
  have hnew := hs.mono (List.suffix_cons st past)
  obtain ⟨u₀, hu₀, he⟩ := hr
  refine ⟨hnew.user, fun x hx => ?_, hnew.kept⟩
  rcases (Table.mem_insert hu).1 hx with rfl | hx
  · rw [he.email, hid] at hst
    exact Or.inr ⟨u₀, hu₀, he.id.symm.trans hid, st, List.mem_cons_self, hst⟩
  · exact hnew.token x hx

/-- A call that is justified keeps the accounts accounted for. -/
theorem AllExplained.call (hs : AllExplained deps s₀ past s)
    (hhist : ∀ st ∈ hist, ∃ before, st :: before <:+ past ∧ AllExplained deps s₀ before st.before)
    (hP : Justified deps q hist e) (hx : exec deps o e s = some (a, s')) :
    AllExplained deps s₀ (.call s q o e a :: past) s' := by
  have hsame := hs.mono (List.suffix_cons (.call s q o e a) past)
  cases e with
  | saveUser u =>
    obtain ⟨-, rfl⟩ | ⟨rfl, rfl⟩ := exec_saveUser hx
    · exact hsame
    · obtain ⟨userID, req, rfl, st, hst, r, hr, hid, hu⟩ := hP
      refine hs.saveUser ((AllExplained.of_hist hhist hst).user r hr) hid hu ⟨rfl, ?_, rfl⟩
      rw [hu]
      exact hid
  | createResetToken userID tokenHash expiresAt =>
    obtain ⟨-, rfl⟩ | ⟨hu, rfl, -, rfl⟩ := exec_createResetToken hx
    · exact hsame
    · obtain ⟨req, rfl, st, hst, r, hr, hemail, hid⟩ := hP
      exact hs.createResetToken hu ((AllExplained.of_hist hhist hst).user r hr)
        ⟨hemail.symm, hid.symm, rfl⟩ hid
  | resetPassword t hash =>
    obtain ⟨-, rfl⟩ | ⟨rfl, rfl⟩ := exec_resetPassword hx
    · exact hsame
    · obtain ⟨req, rfl, ⟨st, hst, ht⟩, hhash, hsalt⟩ := hP
      exact hs.resetPassword ((AllExplained.of_hist hhist hst).token t ht)
        ⟨rfl, rfl, hhash.symm, rfl, hsalt⟩
  | _ =>
    obtain rfl := exec_read rfl hx
    exact hsame

end Calls

/-! ## Runs -/

/-- **Accounts are accounted for**, whatever runs at once: no account comes or goes or changes its email or
quota, a name that changed was set by an edit of the account's own user, and a password that changed by a
reset with a token that had been asked for with the account's email. -/
theorem accounts_explained (deps : Deps) {s₀ : Store} {c : Service}
    (h : (machine deps).Reaches Machine.anySchedule (.init s₀) c) :
    (∀ u ∈ c.store.users, ∃ u₀ ∈ s₀.users, Explained deps s₀ c.trace u₀ u) ∧
      ∀ u₀ ∈ s₀.users, ∃ u ∈ c.store.users, u.id = u₀.id := by
  have key : AllExplained deps s₀ c.trace c.store := by
    refine h.explained (fun q _ _ _ => justifies_handler q)
      ⟨fun u hu => ⟨u, hu, rfl, rfl, rfl, Or.inl rfl, Or.inl rfl⟩,
        fun t ht => Or.inl ⟨t, ht, rfl, rfl⟩, fun u hu => ⟨u, hu, rfl⟩⟩ ?_ ?_ ?_
    · intro past q s s' hs hq
      obtain rfl := Option.some.inj hq
      exact hs.mono (List.suffix_cons _ _)
    · exact fun hs hhist hP hx => hs.call hhist hP hx
    · intro past now s s' hs hv
      simp only [machine] at hv
      split at hv
      · obtain rfl := Option.some.inj hv
        have hs' := hs.mono (List.suffix_cons (.env s now) past)
        exact ⟨hs'.user, hs'.token, hs'.kept⟩
      · cases hv
  exact ⟨key.user, key.kept⟩

/-- Bob's account, before anybody has asked for a token. -/
def noTokens : Store := { oneToken with resetTokens := Table.empty }

/-- Bob asks for a token, changes his name meanwhile, and sets a new password. -/
def renameAndReset : List (Move Request Oracle Time) :=
  [.start (.requestPasswordReset (some ⟨bob.email⟩)), .step 0 {}, .start rename, .step 1 {},
    .step 0 { random := lit "token" }, .step 0 {}, .step 0 { uuid := 7 }, .step 1 {}, .start reset,
    .step 2 {}, .step 2 {}, .step 2 {}, .step 2 {}]

theorem accounts_explained_renameAndReset : ∃ c : Service, ∃ u ∈ c.store.users,
    u.name = lit "Robert" ∧ u.passwordHash = lit "secret" ∧
      ∃ u₀ ∈ noTokens.users, Explained plainDeps noTokens c.trace u₀ u := by
  obtain ⟨c, hc, hP⟩ := Machine.exists_reaches (machine plainDeps) Machine.anySchedule (.init noTokens)
    (fun c => c.store.users.rows.any fun u => u.name = lit "Robert" && u.passwordHash = lit "secret")
    renameAndReset (by decide)
  obtain ⟨u, hu, hrow⟩ := List.any_eq_true.1 hP
  obtain ⟨hname, hpassword⟩ := Bool.and_eq_true_iff.1 hrow
  obtain ⟨hall, -⟩ := accounts_explained plainDeps hc
  exact ⟨c, u, hu, of_decide_eq_true hname, of_decide_eq_true hpassword, hall u hu⟩

end AuthSvc

end Optiflow
