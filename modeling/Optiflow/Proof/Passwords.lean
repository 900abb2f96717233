import Optiflow.Model.AuthSvc
import Optiflow.Proof.Answers

/-!
# Password resets and profile edits

`updateMe` saves every column of the row that it read, so a profile edit that overlaps a password reset
can put the old password back.  As long as each Save finds the password hash that it carries, the
stored hash is that of the last reset; the stored name is that of the last edit in any case
(`password_reset_kept`).
-/

namespace Optiflow

open Interleave

namespace AuthSvc

/-! ## The last writes -/

/-- The name that an edit asks for. -/
def Request.newName : Request → Option GoString
  | .updateMe _ (some req) => some req.name
  | _ => none

/-- The name that a step writes for the user, when an edit is saved. -/
def updatedName (userID : UUID) : ServiceStep → Option GoString
  | .call _ q _ (.saveUser u) (.ok _) => if u.id = userID then q.newName else none
  | _ => none

/-- The hash that a step writes for the user, when a reset is committed. -/
def resetHash (userID : UUID) : ServiceStep → Option GoString
  | .call _ _ _ (.resetPassword t hash) (.ok _) => if t.userID = userID then some hash else none
  | _ => none

/-- A Save of the user finds the password hash that it carries. -/
def saveFindsHash (userID : UUID) : ServiceStep → Bool
  | .call s _ _ (.saveUser u) (.ok _) =>
    u.id ≠ userID || s.users.rows.all fun r => r.id ≠ u.id || r.passwordHash = u.passwordHash
  | _ => true

/-- A row of the user holds the last writes of the trace, the newest step of which comes first; the
hash does so when every Save found the hash it carried. -/
structure LastWrites (u₀ : User) (tr : List ServiceStep) (u : User) : Prop where
  id : u.id = u₀.id
  name : u.name = (tr.findSome? (updatedName u₀.id)).getD u₀.name
  hash : (∀ st ∈ tr, saveFindsHash u₀.id st = true) →
    u.passwordHash = (tr.findSome? (resetHash u₀.id)).getD u₀.passwordHash

section LastWrites

variable {u₀ u : User} {tr : List ServiceStep}

theorem LastWrites.nil : LastWrites u₀ [] u₀ := ⟨rfl, rfl, fun _ => rfl⟩

/-- A step that writes neither. -/
theorem LastWrites.other (h : LastWrites u₀ tr u) {st : ServiceStep}
    (hname : updatedName u₀.id st = none) (hhash : resetHash u₀.id st = none) :
    LastWrites u₀ (st :: tr) u := by
  refine ⟨h.id, ?_, fun hC => ?_⟩
  · rw [List.findSome?_cons, hname]
    exact h.name
  · rw [List.findSome?_cons, hhash]
    exact h.hash fun st hst => hC st (List.mem_cons_of_mem _ hst)

end LastWrites

/-! ## What is saved -/

/-- Only `updateMe` saves a user: the row of its user, with the name of its request. -/
def SavesName {α : Type} : Request → Stmt α → Prop
  | .updateMe userID body, .saveUser u => u.id = userID ∧ ∃ req, body = some req ∧ u.name = req.name
  | _, .saveUser _ => False
  | _, _ => True

/-- The outline of what is saved. -/
def profiles (deps : Deps) : Outline (machine deps) where
  inv _ := True
  rely _ _ := True
  pre q _ e _ := SavesName q e
  post _ _ := True
  cond _ := True

section Handlers

variable {deps : Deps} {s : Store}

theorem profiles_answer {q : Request} (status : ℕ) (message : String) :
    (profiles deps).post q (.error status message) := trivial

theorem profiles_updateMe {userID : UUID} {body : Option UpdateMeRequest} :
    (profiles deps).Safe (.updateMe userID body) (updateMe userID body .ret) s := by
  refine safe_decodeBody profiles_answer fun req hreq => safe_failIf profiles_answer fun _ => ?_
  refine fun t _ _ => ⟨trivial, fun o a t' _ hx _ => ?_⟩
  refine safe_found profiles_answer fun user huser => ?_
  have hid : user.id = userID := by
    simp only [machine_exec, exec, Option.some.injEq, Prod.mk.injEq] at hx
    have hfirst := answer_ok (hx.1.trans huser)
    simpa using (mem_of_firstOrNotFound hfirst).2
  refine fun u _ _ => ⟨⟨hid, req, hreq, rfl⟩, fun o a u' _ _ _ => ?_⟩
  exact safe_foundOr profiles_answer fun _ _ => trivial

theorem profiles_getMe {userID : UUID} :
    (profiles deps).Safe (.getMe userID) (getMe userID .ret) s :=
  fun _ _ _ => ⟨trivial, fun _ _ _ _ _ _ => safe_found profiles_answer fun _ _ => trivial⟩

theorem profiles_requestPasswordReset {body : Option PasswordResetRequestRequest} :
    (profiles deps).Safe (.requestPasswordReset body) (requestPasswordReset deps body .ret) s := by
  refine safe_decodeBody profiles_answer fun req _ => safe_failIf profiles_answer fun _ => ?_
  refine fun _ _ _ => ⟨trivial, fun _ _ _ _ _ _ => safe_found profiles_answer fun user _ => ?_⟩
  refine fun _ _ _ => ⟨trivial, fun _ raw _ _ _ _ => ?_⟩
  cases raw with
  | none => trivial
  | some raw =>
    refine fun _ _ _ => ⟨trivial, fun _ now _ _ _ _ _ _ _ => ⟨trivial, fun _ _ _ _ _ _ => ?_⟩⟩
    exact safe_foundOr profiles_answer fun _ _ => trivial

theorem profiles_confirmPasswordReset {body : Option PasswordResetConfirmRequest} :
    (profiles deps).Safe (.confirmPasswordReset body) (confirmPasswordReset deps body .ret) s := by
  refine safe_decodeBody profiles_answer fun req _ => safe_failIf profiles_answer fun _ => ?_
  refine fun _ _ _ => ⟨trivial, fun _ _ _ _ _ _ => safe_foundOr profiles_answer fun t _ => ?_⟩
  refine safe_failIf profiles_answer fun _ _ _ _ => ⟨trivial, fun _ now _ _ _ _ => ?_⟩
  refine safe_failIf profiles_answer fun _ _ _ _ => ⟨trivial, fun _ hash _ _ _ _ => ?_⟩
  cases hash with
  | none => trivial
  | some hash =>
    refine fun _ _ _ => ⟨trivial, fun _ _ _ _ _ _ => ?_⟩
    exact safe_foundOr profiles_answer fun _ _ => trivial

theorem profiles_valid (deps : Deps) : (profiles deps).Valid where
  rely_refl _ := trivial
  rely_trans _ _ := trivial
  start _ _ _ := ⟨trivial, trivial⟩
  safe {q _ _} _ _ _ _ := by
    cases q with
    | getMe userID => exact profiles_getMe
    | updateMe userID body => exact profiles_updateMe
    | requestPasswordReset body => exact profiles_requestPasswordReset
    | confirmPasswordReset body => exact profiles_confirmPasswordReset
  call _ _ _ _ := ⟨trivial, trivial⟩
  env _ _ _ := ⟨trivial, trivial⟩

end Handlers

/-! ## One call -/

section Call

variable {deps : Deps} {u₀ u : User} {tr : List ServiceStep} {s s' : Store} {q : Request} {o : Oracle}
variable {α : Type} {e : Stmt α} {a : α}

/-- **One call** leaves the last writes in the row. -/
theorem LastWrites.call (h : LastWrites u₀ tr u) (hu : u ∈ s.users) (hpre : SavesName q e)
    (hx : exec deps o e s = some (a, s')) :
    ∃ u' ∈ s'.users, LastWrites u₀ (.call s q o e a :: tr) u' := by
  cases e with
  | saveUser v =>
    cases q with
    | updateMe userID body =>
      obtain ⟨-, req, rfl, hname⟩ := hpre
      obtain ⟨rfl, rfl⟩ | ⟨rfl, rfl⟩ := exec_saveUser hx
      · exact ⟨u, hu, h.other rfl rfl⟩
      · by_cases hv : v.id = u₀.id
        · have huv : u.id = v.id := h.id.trans hv.symm
          refine ⟨v, (mem_users_saveUser hu huv).2 (Or.inl rfl), hv, ?_, fun hC => ?_⟩
          · simp [updatedName, hv, Request.newName, hname]
          · -- The row that the Save replaces has the hash that the struct carries.
            have hsame : u.passwordHash = v.passwordHash := by
              have hfinds := hC _ List.mem_cons_self
              simp only [saveFindsHash, Bool.or_eq_true, decide_eq_true_eq, List.all_eq_true] at hfinds
              exact ((hfinds.resolve_left (not_not.2 hv)) u hu).resolve_left (not_not.2 huv)
            rw [← hsame, h.hash fun st hst => hC st (List.mem_cons_of_mem _ hst)]
            rfl
        · have hne : u.id ≠ v.id := fun he => hv (he.symm.trans h.id)
          exact ⟨u, mem_users_saveUser_of_ne hu hne, h.other (by simp [updatedName, hv]) rfl⟩
    | _ => exact hpre.elim
  | resetPassword t hash =>
    obtain ⟨rfl, rfl⟩ | ⟨rfl, rfl⟩ := exec_resetPassword hx
    · exact ⟨u, hu, h.other rfl rfl⟩
    · have hrow : (if u.id = t.userID then withPasswordHash hash u else u) ∈
          (s.resetPassword t hash).users := mem_users_resetPassword.2 ⟨u, hu, rfl⟩
      by_cases ht : t.userID = u₀.id
      · rw [if_pos (h.id.trans ht.symm)] at hrow
        refine ⟨_, hrow, h.id, ?_, fun _ => ?_⟩
        · show u.name = _
          simpa [List.findSome?_cons, updatedName] using h.name
        · simp [resetHash, ht, withPasswordHash]
      · rw [if_neg fun he => ht (he.symm.trans h.id)] at hrow
        exact ⟨u, hrow, h.other rfl (by simp [resetHash, ht])⟩
  | createResetToken userID tokenHash expiresAt =>
    obtain ⟨rfl, rfl⟩ | ⟨hfresh, rfl, -, rfl⟩ := exec_createResetToken hx
    all_goals exact ⟨u, hu, h.other rfl rfl⟩
  | _ =>
    obtain rfl := exec_read rfl hx
    exact ⟨u, hu, h.other rfl rfl⟩

end Call

/-! ## Every run -/

/-- **A password reset is kept**: in every run, the row of a user has the name of the last edit, and
when each Save finds the password hash that it carries, it has the hash of the last reset. -/
theorem password_reset_kept (deps : Deps) {s₀ : Store} {c : Service}
    (h : (machine deps).Reaches Machine.anySchedule (.init s₀) c) {u₀ : User} (hu : u₀ ∈ s₀.users) :
    ∃ u ∈ c.store.users, u.id = u₀.id ∧
      u.name = (c.trace.findSome? (updatedName u₀.id)).getD u₀.name ∧
      ((∀ st ∈ c.trace, saveFindsHash u₀.id st = true) →
        u.passwordHash = (c.trace.findSome? (resetHash u₀.id)).getD u₀.passwordHash) := by
  have key := (profiles_valid deps).carry (J := fun tr s => ∃ u ∈ s.users, LastWrites u₀ tr u) h
    (Outline.good_init trivial) (fun _ _ => trivial) ⟨u₀, hu, .nil⟩ ?_ ?_ ?_
  · obtain ⟨u, hmem, hlast⟩ := key
    exact ⟨u, hmem, hlast.id, hlast.name, hlast.hash⟩
  · rintro tr q s s' ⟨u, hmem, hlast⟩ - - hq
    obtain rfl := Option.some.inj hq
    exact ⟨u, hmem, hlast.other rfl rfl⟩
  · rintro tr q o α e a s s' ⟨u, hmem, hlast⟩ - hpre - hx
    exact hlast.call hmem hpre hx
  · rintro tr now s s' ⟨u, hmem, hlast⟩ - - hv
    simp only [machine] at hv
    split at hv
    · obtain rfl := Option.some.inj hv
      exact ⟨u, hmem, hlast.other rfl rfl⟩
    · cases hv

/-! ### A reset and an edit -/

/-- A bcrypt that does not hash, and a digest that is the token. -/
def plainDeps : Deps where
  hashPassword _ password := some password
  hashResetToken token := token

/-- Bob's account. -/
def bob : User := ⟨1, lit "bob@example.org", lit "leaked", lit "Bob", 1000⟩

/-- A token for Bob's account. -/
def bobsToken : PasswordResetToken := ⟨7, 1, lit "token", minute, false⟩

/-- The account and the token. -/
def oneToken : Store where
  users := Table.empty.insert bob (by simp [Table.Used])
  resetTokens := Table.empty.insert bobsToken (by simp [Table.Used])
  now := 0

/-- Bob changes his name. -/
def rename : Request := .updateMe 1 (some ⟨lit "Robert"⟩)

/-- Bob sets a new password. -/
def reset : Request := .confirmPasswordReset (some ⟨lit "token", lit "secret"⟩)

/-- The edit is over when the reset begins. -/
theorem password_reset_kept_after :
    ∃ c : Service, (machine plainDeps).Reaches Machine.anySchedule (.init oneToken) c ∧
      c.quiet = true ∧ ∃ u ∈ c.store.users, u.id = bob.id ∧ u.name = lit "Robert" ∧
        u.passwordHash = lit "secret" := by
  obtain ⟨c, hc, hP⟩ := Machine.exists_reaches (machine plainDeps) Machine.anySchedule
    (.init oneToken)
    (fun c => c.quiet && (c.trace.all (saveFindsHash bob.id) &&
      ((c.trace.findSome? (updatedName bob.id) = some (lit "Robert")) &&
        (c.trace.findSome? (resetHash bob.id) = some (lit "secret")))))
    [.start rename, .step 0 {}, .step 0 {}, .start reset, .step 1 {}, .step 1 {}, .step 1 {},
      .step 1 {}]
    (by decide)
  simp only [Bool.and_eq_true, List.all_eq_true, decide_eq_true_eq] at hP
  obtain ⟨hquiet, hfinds, hname, hhash⟩ := hP
  obtain ⟨u, hu, hid, hlast, hkept⟩ :=
    password_reset_kept plainDeps hc (List.mem_singleton.2 rfl : bob ∈ oneToken.users)
  refine ⟨c, hc, hquiet, u, hu, hid, ?_, ?_⟩
  · rw [hlast, hname]
    rfl
  · rw [hkept hfinds, hhash]
    rfl

/-- The edit reads the row before the reset and saves it afterwards. -/
theorem password_reset_undone :
    ∃ c : Service, (machine plainDeps).Reaches Machine.anySchedule (.init oneToken) c ∧
      c.quiet = true ∧ c.trace.findSome? (resetHash bob.id) = some (lit "secret") ∧
      ∀ u ∈ c.store.users, u.id = bob.id → u.passwordHash = lit "leaked" := by
  obtain ⟨c, hc, hP⟩ := Machine.exists_reaches (machine plainDeps) Machine.anySchedule
    (.init oneToken)
    (fun c => c.quiet && ((c.trace.findSome? (resetHash bob.id) = some (lit "secret")) &&
      c.store.users.rows.all fun u => u.id ≠ bob.id || u.passwordHash = lit "leaked"))
    [.start rename, .step 0 {}, .start reset, .step 1 {}, .step 1 {}, .step 1 {}, .step 1 {},
      .step 0 {}]
    (by decide)
  simp only [Bool.and_eq_true, Bool.or_eq_true, List.all_eq_true, decide_eq_true_eq] at hP
  obtain ⟨hquiet, hhash, hrows⟩ := hP
  exact ⟨c, hc, hquiet, hhash, fun u hu hid => (hrows u hu).resolve_left (not_not.2 hid)⟩

end AuthSvc

end Optiflow
