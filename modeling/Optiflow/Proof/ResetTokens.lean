import Optiflow.Lib.Ledger
import Optiflow.Lib.Window
import Optiflow.Proof.Passwords

/-!
# Password reset tokens

`confirmPasswordReset` tests that the token is unused and has not expired, computes a bcrypt hash, and
only then runs the transaction that sets the password and marks the token as used; the transaction
tests nothing.  As long as a token is neither used nor expires while a request is between its tests
and its transaction, the token is used at most once (`reset_token_single_use`).
-/

namespace Optiflow

open Interleave

namespace AuthSvc

/-! ## The condition -/

/-- The request carries the token. -/
def carries (deps : Deps) (t : PasswordResetToken) : Request → Bool
  | .confirmPasswordReset (some req) => deps.hashResetToken req.token = t.tokenHash
  | _ => false

/-- The calls of `confirmPasswordReset` after its SELECT. -/
def Stmt.afterSelect {α : Type} : Stmt α → Bool
  | .now => true
  | .hashPassword _ => true
  | .resetPassword _ _ => true
  | _ => false

/-- The calls of `confirmPasswordReset` after it has read the clock. -/
def Stmt.afterClock {α : Type} : Stmt α → Bool
  | .hashPassword _ => true
  | .resetPassword _ _ => true
  | _ => false

/-- From its SELECT to its transaction, a request relies on the token being unused. -/
def usedWindow (deps : Deps) (t : PasswordResetToken) : Window (machine deps) where
  inside q _ e := e.afterSelect && carries deps t q
  holds s := s.resetTokens.rows.all fun r => r.id ≠ t.id || !r.used

/-- From its look at the clock to its transaction, a request relies on the token not having
expired. -/
def expiryWindow (deps : Deps) (t : PasswordResetToken) : Window (machine deps) where
  inside q _ e := e.afterClock && carries deps t q
  holds s := !(s.now > t.expiresAt)

/-- The token is neither used nor expires while another request is between its tests and its
transaction. -/
def undisturbed (deps : Deps) (t : PasswordResetToken) :
    Machine.Schedule Store Request Reply Oracle Time Stmt := fun c m =>
  (usedWindow deps t).undisturbed c m && (expiryWindow deps t).undisturbed c m

/-! ## What is counted -/

/-- A request with the token is answered with 204. -/
def accepted (deps : Deps) (t : PasswordResetToken) : Request → Reply → Bool
  | q, .noContent => carries deps t q
  | _, _ => false

/-- A request with the token commits its transaction. -/
def commits (deps : Deps) (t : PasswordResetToken) : ServiceStep → Bool
  | .call _ q _ (.resetPassword _ _) (.ok _) => carries deps t q
  | _ => false

/-- When a request with the token commits its transaction, the token is unused and has not expired. -/
def FindsValid (deps : Deps) (t : PasswordResetToken) : ServiceStep → Prop
  | .call s q _ (.resetPassword _ _) (.ok _) => carries deps t q = true →
      (∀ r ∈ s.resetTokens, r.id = t.id → r.used = false) ∧ s.now ≤ t.expiresAt
  | _ => True

/-! ## The token's row -/

/-- The token, used or not. -/
def withUsed (t : PasswordResetToken) (b : Bool) : PasswordResetToken := { t with used := b }

/-- The token has a row, and every row with its hash or id is the token, used or not. -/
structure OnlyToken (t : PasswordResetToken) (s : Store) : Prop where
  row : ∃ r ∈ s.resetTokens, r.id = t.id
  eq : ∀ r ∈ s.resetTokens, r.tokenHash = t.tokenHash ∨ r.id = t.id → r = withUsed t r.used

section Rows

variable {deps : Deps} {t : PasswordResetToken} {s s' : Store} {o : Oracle}

/-- What a call does to the rows of tokens: nothing, a new row that differs in hash and id from every
other, or the row of a token is marked as used. -/
theorem exec_resetTokens {α : Type} {e : Stmt α} {a : α} (h : exec deps o e s = some (a, s'))
    {x : PasswordResetToken} (hx : x ∈ s'.resetTokens) :
    x ∈ s.resetTokens ∨ (∃ r ∈ s.resetTokens, x = spent r) ∨
      ∀ r ∈ s.resetTokens, r.tokenHash ≠ x.tokenHash ∧ r.id ≠ x.id := by
  cases e with
  | saveUser u =>
    obtain ⟨-, rfl⟩ | ⟨-, rfl⟩ := exec_saveUser h
    all_goals exact Or.inl hx
  | createResetToken userID tokenHash expiresAt =>
    obtain ⟨-, rfl⟩ | ⟨hfresh, -, hhash, rfl⟩ := exec_createResetToken h
    · exact Or.inl hx
    · rcases (Table.mem_insert hfresh).1 hx with rfl | hx
      · refine Or.inr (Or.inr fun r hr => ⟨hhash r hr, fun hid => hfresh ?_⟩)
        have hused := Table.used_of_mem hr
        rw [show key r = o.uuid from hid] at hused
        exact hused
      · exact Or.inl hx
  | resetPassword r hash =>
    obtain ⟨-, rfl⟩ | ⟨-, rfl⟩ := exec_resetPassword h
    · exact Or.inl hx
    · obtain ⟨y, hy, rfl⟩ := mem_resetTokens_resetPassword.1 hx
      split
      · exact Or.inr (Or.inl ⟨y, hy, rfl⟩)
      · exact Or.inl hy
  | _ =>
    obtain rfl := exec_read rfl h
    exact Or.inl hx

/-- No row of a token goes away. -/
theorem exists_resetToken {α : Type} {e : Stmt α} {a : α} (h : exec deps o e s = some (a, s'))
    {r : PasswordResetToken} (hr : r ∈ s.resetTokens) : ∃ x ∈ s'.resetTokens, x.id = r.id := by
  cases e with
  | saveUser u =>
    obtain ⟨-, rfl⟩ | ⟨-, rfl⟩ := exec_saveUser h
    all_goals exact ⟨r, hr, rfl⟩
  | createResetToken userID tokenHash expiresAt =>
    obtain ⟨-, rfl⟩ | ⟨hfresh, -, -, rfl⟩ := exec_createResetToken h
    · exact ⟨r, hr, rfl⟩
    · exact ⟨r, (Table.mem_insert hfresh).2 (Or.inr hr), rfl⟩
  | resetPassword t hash =>
    obtain ⟨-, rfl⟩ | ⟨-, rfl⟩ := exec_resetPassword h
    · exact ⟨r, hr, rfl⟩
    · refine ⟨_, mem_resetTokens_resetPassword.2 ⟨r, hr, rfl⟩, ?_⟩
      split <;> rfl
  | _ =>
    obtain rfl := exec_read rfl h
    exact ⟨r, hr, rfl⟩

theorem OnlyToken.call {α : Type} {e : Stmt α} {a : α} (h : OnlyToken t s)
    (hx : exec deps o e s = some (a, s')) : OnlyToken t s' := by
  obtain ⟨r, hr, hid⟩ := h.row
  refine ⟨?_, fun x hmem hsame => ?_⟩
  · obtain ⟨x, hmem, hxid⟩ := exists_resetToken hx hr
    exact ⟨x, hmem, hxid.trans hid⟩
  · obtain hold | ⟨y, hy, rfl⟩ | hnew := exec_resetTokens hx hmem
    · exact h.eq x hold hsame
    · have hrow := h.eq y hy hsame
      show spent y = withUsed t true
      rw [hrow]
      rfl
    · -- A new row shares neither hash nor id with the token's.
      have hrow := h.eq r hr (Or.inr hid)
      obtain ⟨hhash, hne⟩ := hnew r hr
      rcases hsame with hsame | hsame
      · have hsel : r.tokenHash = t.tokenHash := by rw [hrow]; rfl
        exact absurd (hsel.trans hsame.symm) hhash
      · exact absurd (hid.trans hsame.symm) hne

theorem OnlyToken.reaches {sch : Machine.Schedule Store Request Reply Oracle Time Stmt} {c : Service}
    (h₀ : OnlyToken t s) (h : (machine deps).Reaches sch (.init s) c) : OnlyToken t c.store := by
  refine h.store (I := OnlyToken t) h₀ ?_ ?_ ?_
  · intro q s s' hs hq
    obtain rfl := Option.some.inj hq
    exact hs
  · intro o α e a s s' hs hx
    exact hs.call hx
  · intro now s s' hs hv
    simp only [machine] at hv
    split at hv
    · obtain rfl := Option.some.inj hv
      exact ⟨hs.row, hs.eq⟩
    · cases hv

/-- The row that the token's hash selects. -/
theorem OnlyToken.select (h : OnlyToken t s) {a : Except DbError PasswordResetToken}
    (hx : exec deps o (.resetToken t.tokenHash) s = some (a, s')) :
    s' = s ∧ ∀ r, a = .ok r → r ∈ s.resetTokens ∧ r = withUsed t r.used := by
  simp only [exec, Option.some.injEq, Prod.mk.injEq] at hx
  refine ⟨hx.2.symm, fun r hr => ?_⟩
  obtain ⟨hmem, hhash⟩ := mem_of_firstOrNotFound (answer_ok (hx.1.trans hr))
  exact ⟨hmem, h.eq r hmem (Or.inl (by simpa using hhash))⟩

end Rows

/-! ## Reading the handler -/

section Handler

variable {deps : Deps} {t : PasswordResetToken} {req : PasswordResetConfirmRequest} {s : Store}

/-- Requests with the token spend its row. -/
def SpendsToken (deps : Deps) (t : PasswordResetToken) {α : Type} : Request → Stmt α → Prop
  | q, .resetPassword r _ => carries deps t q = true → r.id = t.id
  | _, _ => True

/-- The outline of a token. -/
def tokens (deps : Deps) (t : PasswordResetToken) : Outline (machine deps) where
  inv := OnlyToken t
  rely _ _ := True
  pre q _ e _ := SpendsToken deps t q e
  post _ _ := True
  cond st := (usedWindow deps t).Held st ∧ (expiryWindow deps t).Held st

theorem tokens_answer {q : Request} (status : ℕ) (message : String) :
    (tokens deps t).post q (.error status message) := trivial

theorem tokens_confirmPasswordReset (hreq : deps.hashResetToken req.token = t.tokenHash) :
    (tokens deps t).Safe (.confirmPasswordReset (some req))
      (confirmPasswordReset deps (some req) .ret) s := by
  refine safe_failIf tokens_answer fun _ u _ hu => ⟨trivial, fun o a u' _ hx _ => ?_⟩
  rw [machine_exec, hreq] at hx
  obtain ⟨rfl, hrow⟩ := hu.select hx
  refine safe_foundOr tokens_answer fun r hr => safe_failIf tokens_answer fun _ => ?_
  have hid : r.id = t.id := by rw [(hrow r hr).2]; rfl
  refine fun _ _ _ => ⟨trivial, fun _ now _ _ _ _ => safe_failIf tokens_answer fun _ => ?_⟩
  refine fun _ _ _ => ⟨trivial, fun _ hash _ _ _ _ => ?_⟩
  cases hash with
  | none => trivial
  | some hash =>
    refine fun _ _ _ => ⟨fun _ => hid, fun _ _ _ _ _ _ => ?_⟩
    exact safe_foundOr tokens_answer fun _ _ => trivial

theorem machine_read {α : Type} {e : Stmt α} (he : e.isWrite = false) {o : Oracle} {a : α} {s' : Store}
    (h : (machine deps).exec o e s = some (a, s')) : s' = s := exec_read he h

/-- A request enters the window with a row that it has found unused. -/
theorem enters_used (hreq : deps.hashResetToken req.token = t.tokenHash) :
    (usedWindow deps t).Enters (OnlyToken t) (.confirmPasswordReset (some req))
      (confirmPasswordReset deps (some req) .ret) s := by
  have answer : ∀ (u : Store) (status : ℕ) (message : String), (usedWindow deps t).Enters (OnlyToken t)
      (.confirmPasswordReset (some req)) (.ret (.error status message)) u := fun _ _ _ => trivial
  have hcarries : carries deps t (.confirmPasswordReset (some req)) = true := decide_eq_true hreq
  refine Early.failIf (P := fun p => Window.Enters _ _ _ p s) (answer s) fun _ => ?_
  refine Window.enters_call rfl fun u o a u' hu hx => ?_
  rw [machine_exec, hreq] at hx
  obtain ⟨rfl, hrow⟩ := hu.select hx
  refine Early.foundOr (P := fun p => Window.Enters _ _ _ p u') (answer u') fun r hr => ?_
  refine Early.failIf (P := fun p => Window.Enters _ _ _ p u') (answer u') fun hunused => ?_
  have hvalid : (usedWindow deps t).holds u' = true := by
    refine List.all_eq_true.2 fun x hx => ?_
    by_cases hid : x.id = t.id
    · obtain ⟨hmem, hr⟩ := hrow r hr
      obtain rfl : x = r := Table.eq_of_key hx hmem (hid.trans (by rw [hr]; rfl))
      simpa using Or.inr hunused
    · simp [hid]
  refine Window.enters_read hcarries hvalid (machine_read rfl) fun now v hv => ?_
  refine Early.failIf (P := fun p => Window.Enters _ _ _ p v) (answer v) fun _ => ?_
  refine Window.enters_read hcarries hv (machine_read rfl) fun hash w hw => ?_
  cases hash with
  | none => trivial
  | some hash =>
    refine ⟨fun _ => hw, fun z _ _ z' _ _ _ => ?_⟩
    exact Early.foundOr (P := fun p => Window.Enters _ _ _ p z') (answer z') fun _ _ => trivial

/-- A request enters the window at a time at which it has found the token to be valid. -/
theorem enters_expiry (hreq : deps.hashResetToken req.token = t.tokenHash) :
    (expiryWindow deps t).Enters (OnlyToken t) (.confirmPasswordReset (some req))
      (confirmPasswordReset deps (some req) .ret) s := by
  have answer : ∀ (u : Store) (status : ℕ) (message : String),
      (expiryWindow deps t).Enters (OnlyToken t) (.confirmPasswordReset (some req))
        (.ret (.error status message)) u := fun _ _ _ => trivial
  have hcarries : carries deps t (.confirmPasswordReset (some req)) = true := decide_eq_true hreq
  refine Early.failIf (P := fun p => Window.Enters _ _ _ p s) (answer s) fun _ => ?_
  refine Window.enters_call rfl fun u o a u' hu hx => ?_
  rw [machine_exec, hreq] at hx
  obtain ⟨rfl, hrow⟩ := hu.select hx
  refine Early.foundOr (P := fun p => Window.Enters _ _ _ p u') (answer u') fun r hr => ?_
  refine Early.failIf (P := fun p => Window.Enters _ _ _ p u') (answer u') fun _ => ?_
  have hexp : r.expiresAt = t.expiresAt := by rw [(hrow r hr).2]; rfl
  refine Window.enters_call rfl fun v o now v' _ hx => ?_
  obtain ⟨rfl, rfl⟩ : now = v.now ∧ v' = v := by
    simp only [machine_exec, exec, Option.some.injEq, Prod.mk.injEq] at hx
    exact ⟨hx.1.symm, hx.2.symm⟩
  refine Early.failIf (P := fun p => Window.Enters _ _ _ p v') (answer v') fun hnow => ?_
  have hvalid : (expiryWindow deps t).holds v' = true := by
    rw [hexp] at hnow
    simpa [expiryWindow] using hnow
  refine Window.enters_read hcarries hvalid (machine_read rfl) fun hash w hw => ?_
  cases hash with
  | none => trivial
  | some hash =>
    refine ⟨fun _ => hw, fun z _ _ z' _ _ _ => ?_⟩
    exact Early.foundOr (P := fun p => Window.Enters _ _ _ p z') (answer z') fun _ _ => trivial

/-- A request that carries the token is a `confirmPasswordReset`. -/
theorem carries_cases {q : Request} (h : carries deps t q = true) :
    ∃ req, q = .confirmPasswordReset (some req) ∧ deps.hashResetToken req.token = t.tokenHash := by
  cases q with
  | confirmPasswordReset body =>
    cases body with
    | none => cases h
    | some req => exact ⟨req, rfl, by simpa [carries] using h⟩
  | _ => cases h

theorem enters_handler {W : Window (machine deps)} {inside : {α : Type} → Stmt α → Bool}
    (hW : ∀ q {α : Type} (e : Stmt α), W.inside q e = (inside e && carries deps t q))
    (h : ∀ req, deps.hashResetToken req.token = t.tokenHash → ∀ s,
      W.Enters (OnlyToken t) (.confirmPasswordReset (some req))
        (confirmPasswordReset deps (some req) .ret) s) (q : Request) (s : Store) :
    W.Enters (OnlyToken t) q ((machine deps).handler q) s := by
  by_cases hq : carries deps t q = true
  · obtain ⟨req, rfl, hreq⟩ := carries_cases hq
    exact h req hreq s
  · exact Window.enters_of_outside (fun e => by simp [hW, hq]) _

theorem tokens_valid (deps : Deps) (t : PasswordResetToken) : (tokens deps t).Valid where
  rely_refl _ := trivial
  rely_trans _ _ := trivial
  start _ h hq := by
    obtain rfl := Option.some.inj hq
    exact ⟨h, trivial⟩
  safe {q _ _} _ _ _ _ := by
    by_cases hq : carries deps t q = true
    · obtain ⟨req, rfl, hreq⟩ := carries_cases hq
      exact tokens_confirmPasswordReset hreq
    · refine Outline.safe_of_trivial (fun e _ => ?_) (fun _ => trivial) _ _
      cases e with
      | resetPassword r hash => exact fun h => absurd h hq
      | _ => trivial
  call h _ _ hx := ⟨h.call hx, trivial⟩
  env {now _ _} _ h hv := by
    simp only [machine] at hv
    split at hv
    · obtain rfl := Option.some.inj hv
      exact ⟨⟨h.row, h.eq⟩, trivial⟩
    · cases hv

end Handler

/-! ## Counting -/

section Count

variable {deps : Deps} {t : PasswordResetToken} {s s' : Store} {q : Request} {o : Oracle} {n : ℕ}

/-- Every 204 is paid for: the transaction is committed before the answer. -/
theorem pays_handler (q : Request) :
    Pays (machine deps) (accepted deps t) (commits deps t) q false ((machine deps).handler q) := by
  by_cases hq : carries deps t q = true
  · obtain ⟨req, rfl, -⟩ := carries_cases hq
    have answer : ∀ (status : ℕ) (message : String), Pays (machine deps) (accepted deps t)
        (commits deps t) (.confirmPasswordReset (some req)) false (.ret (.error status message)) :=
      fun _ _ => pays_ret rfl
    refine Early.failIf (P := Pays _ _ _ _ false) answer fun _ => pays_call fun _ _ a _ _ => ?_
    refine Early.foundOr (P := Pays _ _ _ _ false) answer fun r _ => ?_
    refine Early.failIf (P := Pays _ _ _ _ false) answer fun _ => pays_call fun _ _ now _ _ => ?_
    refine Early.failIf (P := Pays _ _ _ _ false) answer fun _ => pays_call fun _ _ hash _ _ => ?_
    cases hash with
    | none => exact pays_ret rfl
    | some hash =>
      refine pays_step fun s o a s' _ => ?_
      cases a with
      | error e => exact Or.inr (pays_ret rfl)
      | ok _ => exact Or.inl hq
  · refine pays_of_free (fun r => ?_) _
    cases r with
    | noContent => simpa [accepted] using hq
    | _ => rfl

/-- The token has been spent `n` times, at most once, and its row says so. -/
structure SpentOnce (t : PasswordResetToken) (n : ℕ) (s : Store) : Prop where
  le_one : n ≤ 1
  used : 0 < n → ∀ r ∈ s.resetTokens, r.id = t.id → r.used = true

/-- A used token stays used. -/
theorem SpentOnce.kept {α : Type} {e : Stmt α} {a : α} (h : SpentOnce t n s) (htok : OnlyToken t s)
    (hx : exec deps o e s = some (a, s')) : SpentOnce t n s' := by
  refine ⟨h.le_one, fun hn x hmem hid => ?_⟩
  obtain hold | ⟨y, hy, rfl⟩ | hnew := exec_resetTokens hx hmem
  · exact h.used hn x hold hid
  · rfl
  · obtain ⟨r, hr, hrid⟩ := htok.row
    exact absurd (hrid.trans hid.symm) (hnew r hr).2

/-- **One call** that finds the token valid, if it spends it, keeps the count. -/
theorem SpentOnce.call {α : Type} {e : Stmt α} {a : α} (h : SpentOnce t n s) (htok : OnlyToken t s)
    (hpre : SpendsToken deps t q e) (hheld : (usedWindow deps t).Held (.call s q o e a))
    (hx : exec deps o e s = some (a, s')) :
    SpentOnce t (n + if commits deps t (.call s q o e a) then 1 else 0) s' := by
  by_cases hcommits : commits deps t (.call s q o e a) = true
  · rw [if_pos hcommits]
    cases e with
    | resetPassword r hash =>
      obtain ⟨rfl, -⟩ | ⟨rfl, rfl⟩ := exec_resetPassword hx
      · cases hcommits
      · have hcarries : carries deps t q = true := hcommits
        have hunused := hheld hcarries
        -- The row of the token is unused, so it has not been spent before.
        have hn : n = 0 := by
          obtain ⟨x, hmem, hid⟩ := htok.row
          have hx := List.all_eq_true.1 hunused x hmem
          by_contra hne
          simp [hid, h.used (Nat.pos_of_ne_zero hne) x hmem hid] at hx
        subst hn
        refine ⟨le_refl 1, fun _ x hmem hid => ?_⟩
        obtain ⟨y, hy, rfl⟩ := mem_resetTokens_resetPassword.1 hmem
        have hyid : y.id = r.id := by
          rw [hpre hcarries]
          split at hid <;> exact hid
        rw [if_pos hyid]
        rfl
    | _ => cases hcommits
  · rw [if_neg hcommits]
    exact h.kept htok hx

end Count

/-! ## Every run -/

/-- **Reset tokens are single-use**, in every run in which a token is neither used nor expires while
a request is between its tests and its transaction: at most one request with the token is answered
with 204, at most one commits its transaction, and it finds the token unused and not expired. -/
theorem reset_token_single_use (deps : Deps) {s₀ : Store} {c : Service} {t : PasswordResetToken}
    (h : (machine deps).Reaches (undisturbed deps t) (.init s₀) c) (ht : t ∈ s₀.resetTokens)
    (hunique : ∀ r ∈ s₀.resetTokens, r.tokenHash = t.tokenHash → r = t) :
    c.threads.countP (Thread.earned (accepted deps t)) ≤ 1 ∧
      c.trace.countP (commits deps t) ≤ 1 ∧ ∀ st ∈ c.trace, FindsValid deps t st := by
  have htok : OnlyToken t s₀ := by
    refine ⟨⟨t, ht, rfl⟩, ?_⟩
    rintro r hr (hhash | hid)
    · rw [hunique r hr hhash]
      rfl
    · rw [Table.eq_of_key hr ht (by simpa using hid)]
      rfl
  have hused := Window.held_of_reaches (W := usedWindow deps t)
    (fun c m hm => (Bool.and_eq_true_iff.1 hm).1) (fun _ hc => htok.reaches hc)
    (enters_handler (fun _ _ _ => rfl) fun _ hreq _ => enters_used hreq) h
  have hexpiry := Window.held_of_reaches (W := expiryWindow deps t)
    (fun c m hm => (Bool.and_eq_true_iff.1 hm).2) (fun _ hc => htok.reaches hc)
    (enters_handler (fun _ _ _ => rfl) fun _ hreq _ => enters_expiry hreq) h
  have hspent := (tokens_valid deps t).carry
    (J := fun tr s => SpentOnce t (tr.countP (commits deps t)) s) h (Outline.good_init htok)
    (fun st hst => ⟨hused st hst, hexpiry st hst⟩) ⟨Nat.zero_le 1, fun hn => absurd hn (lt_irrefl 0)⟩
    ?_ ?_ ?_
  · refine ⟨(answers_le_payments pays_handler h).trans hspent.le_one, hspent.le_one, ?_⟩
    intro st hst
    unfold FindsValid
    split
    · next s q o r hash x =>
      intro hcarries
      have hu := hused _ hst hcarries
      have he := hexpiry _ hst hcarries
      refine ⟨fun r hr hid => ?_, by simpa [expiryWindow] using he⟩
      simpa [hid] using List.all_eq_true.1 hu r hr
    · trivial
  · intro tr q s s' hJ _ _ hq
    obtain rfl := Option.some.inj hq
    exact hJ
  · intro tr q o α e a s s' hJ hs hpre hc hx
    rw [List.countP_cons]
    exact hJ.call hs hpre hc.1 hx
  · intro tr now s s' hJ _ _ hv
    simp only [machine] at hv
    split at hv
    · obtain rfl := Option.some.inj hv
      exact ⟨hJ.le_one, hJ.used⟩
    · cases hv

/-! ### Two requests with one token -/

/-- The second request begins when the first is over, and is refused. -/
theorem reset_token_single_use_twice :
    ∃ c : Service, (machine plainDeps).Reaches (undisturbed plainDeps bobsToken) (.init oneToken) c ∧
      c.threads.length = 2 ∧ c.threads.countP (Thread.earned (accepted plainDeps bobsToken)) = 1 ∧
      c.threads.countP (Thread.earned (accepted plainDeps bobsToken)) ≤ 1 ∧
      c.trace.countP (commits plainDeps bobsToken) ≤ 1 ∧
      ∀ st ∈ c.trace, FindsValid plainDeps bobsToken st := by
  obtain ⟨c, hc, hP⟩ := Machine.exists_reaches (machine plainDeps)
    (undisturbed plainDeps bobsToken) (.init oneToken)
    (fun c => c.threads.length = 2 &&
      c.threads.countP (Thread.earned (accepted plainDeps bobsToken)) = 1)
    [.start reset, .step 0 {}, .step 0 {}, .step 0 {}, .step 0 {}, .start reset, .step 1 {}]
    (by decide)
  simp only [Bool.and_eq_true, decide_eq_true_eq] at hP
  exact ⟨c, hc, hP.1, hP.2, reset_token_single_use plainDeps hc (List.mem_singleton.2 rfl)
    fun r hr _ => List.mem_singleton.1 hr⟩

/-- Both requests find the token valid, and commit after it has expired. -/
theorem reset_token_used_twice :
    ∃ c : Service, (machine plainDeps).Reaches Machine.anySchedule (.init oneToken) c ∧
      bobsToken ∈ oneToken.resetTokens ∧
      ¬c.threads.countP (Thread.earned (accepted plainDeps bobsToken)) ≤ 1 ∧
      ¬c.trace.countP (commits plainDeps bobsToken) ≤ 1 ∧
      bobsToken.expiresAt < c.store.now := by
  obtain ⟨c, hc, hP⟩ := Machine.exists_reaches (machine plainDeps) Machine.anySchedule
    (.init oneToken)
    (fun c => c.threads.countP (Thread.earned (accepted plainDeps bobsToken)) = 2 &&
      (c.trace.countP (commits plainDeps bobsToken) = 2 && bobsToken.expiresAt < c.store.now))
    [.start reset, .step 0 {}, .step 0 {}, .step 0 {}, .start reset, .step 1 {}, .step 1 {},
      .step 1 {}, .env (2 * minute), .step 0 {}, .step 1 {}]
    (by decide)
  simp only [Bool.and_eq_true, decide_eq_true_eq] at hP
  obtain ⟨hanswers, hcommits, hlate⟩ := hP
  exact ⟨c, hc, List.mem_singleton.2 rfl, by omega, by omega, hlate⟩

end AuthSvc

end Optiflow
