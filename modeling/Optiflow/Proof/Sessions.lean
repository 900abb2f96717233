import Optiflow.Lib.History
import Optiflow.Model.Sessions
import Optiflow.Proof.Answers

/-!
# Sessions go back to a password

Every access token that is accepted was issued less than `accessTokenTTL` before, by a request that had
proved the password or by a `refresh` that had accepted a refresh token; the refresh token was issued
less than `refreshTokenTTL` before that, and by a request that had proved the password
(`accepted_goes_back`).  Between accepting and issuing a `refresh` may take any time, by which a session
outlives the two periods (`session_outlived`).
-/

namespace Optiflow

open Interleave

namespace Sessions

/-! ## What a request has done -/

section Facts

variable (deps : Deps) (q : Request) (u : UUID) (tr : List ServiceStep)

/-- The request has proved that it knows the password of the account: it has made the account with it,
or the account's hash verifies it. -/
def ProvesPassword : Prop :=
  match q.endpoint with
  | .signup (some req) => ∃ s o user salt,
      .call s q o (.createUser req.email user.passwordHash req.name) (.ok user) ∈ tr ∧
      user.id = u ∧ deps.hashPassword salt req.password = some user.passwordHash
  | .login (some req) => ∃ s o user,
      .call s q o (.userByEmail req.email) (.ok user) ∈ tr ∧ user ∈ s.users ∧ user.id = u ∧
      deps.verifyPassword user.passwordHash req.password = true
  | _ => False

/-- A refresh token of the user that the request has accepted, and when; what had happened before is
`older`. -/
def AcceptsRefresh (refreshed : Claims) (t : Time) (older : List ServiceStep) : Prop :=
  (∃ body, q.endpoint = .refresh body) ∧ refreshed.type = .refresh ∧ refreshed.userID = u ∧
    ∃ s o, (.call s q o (.unexpired refreshed) true :: older) <:+ tr ∧ s.now = t

/-- A token with these claims has been issued at `t` by the request; what had happened before is
`older`. -/
def Issues (claims : Claims) (t : Time) (older : List ServiceStep) : Prop :=
  ∃ s o text, (.call s q o (.signToken claims) (some text) :: older) <:+ tr ∧ s.now = t

end Facts

/-- A token goes back to a password: it has been issued at `t₀` by a request that had proved the password
of its user. -/
def IssuedOnPassword (deps : Deps) (tr : List ServiceStep) (claims : Claims) (t₀ : Time) : Prop :=
  ∃ q older, Issues q tr claims t₀ older ∧ ProvesPassword deps q claims.userID older

/-- An access token that is accepted at `t` goes back to a password: it is young, and has been issued by
a request that had proved the password, or by a refresh that had accepted, a while before, a refresh
token that was young then and goes back to a password. -/
def GoesBack (deps : Deps) (tr : List ServiceStep) (access : Claims) (t : Time) : Prop :=
  ∃ q t₁ older, Issues q tr access t₁ older ∧ t - t₁ < accessTokenTTL ∧
    (ProvesPassword deps q access.userID older ∨
      ∃ refreshed t₂ older' t₀, AcceptsRefresh q access.userID older refreshed t₂ older' ∧
        IssuedOnPassword deps older' refreshed t₀ ∧ t₂ - t₀ < refreshTokenTTL ∧
        t - t₀ < refreshTokenTTL + accessTokenTTL + (t₁ - t₂))

variable {deps : Deps} {q : Request} {u : UUID} {tr tr' : List ServiceStep} {c : Service}

theorem ProvesPassword.mono (h : ProvesPassword deps q u tr) (hsub : tr ⊆ tr') :
    ProvesPassword deps q u tr' := by
  unfold ProvesPassword at *
  split at h
  · obtain ⟨s, o, user, salt, hmem, hrest⟩ := h
    exact ⟨s, o, user, salt, hsub hmem, hrest⟩
  · obtain ⟨s, o, user, hmem, hrest⟩ := h
    exact ⟨s, o, user, hsub hmem, hrest⟩
  · exact h.elim

/-! ## What the calls of a request are justified by -/

/-- The request has presented a token that verifies with the claims and was issued. -/
def Presents (deps : Deps) (q : Request) (claims : Claims) (hist : List ServiceStep) : Prop :=
  (∃ text, q.endpoint.token = some text ∧ deps.verifyToken text = some claims) ∧
    ∃ s, .start s q ∈ hist ∧ unforged deps q.endpoint s = true

/-- The request has presented a token of the type, for the user, that had not expired. -/
def Accepts (deps : Deps) (q : Request) (type : TokenType) (u : UUID) (hist : List ServiceStep) : Prop :=
  ∃ s o claims, .call s q o (.unexpired claims) true ∈ hist ∧ Presents deps q claims hist ∧
    claims.type = type ∧ claims.userID = u

/-- The request may issue a token of the type for the user. -/
def MayIssue (deps : Deps) (q : Request) (u : UUID) (type : TokenType) (hist : List ServiceStep) :
    Prop :=
  ProvesPassword deps q u hist ∨
    type = .access ∧ (∃ body, q.endpoint = .refresh body) ∧ Accepts deps q .refresh u hist

/-- What holds of a call, given what the request has done. -/
def CallJustified (deps : Deps) (q : Request) (hist : List ServiceStep) {α : Type} : Stmt α → Prop
  | .signToken claims => MayIssue deps q claims.userID claims.type hist ∧
      ∃ s o, .call s q o .now s.now ∈ hist ∧
        claims.expiresAt = numericDate (s.now + ttl claims.type)
  | .unexpired claims => Presents deps q claims hist
  | _ => True

/-- What holds of an answer. -/
def AnswerJustified (deps : Deps) (q : Request) (hist : List ServiceStep) : Reply → Prop
  | .served u | .streaming u => Accepts deps q .access u hist
  | .tokens _ _ => ∃ u, ProvesPassword deps q u hist ∨ Accepts deps q .refresh u hist
  | _ => True

theorem Presents.mono {claims : Claims} (h : Presents deps q claims tr) (hsub : tr ⊆ tr') :
    Presents deps q claims tr' := by
  obtain ⟨htext, s, hmem, hs⟩ := h
  exact ⟨htext, s, hsub hmem, hs⟩

theorem Accepts.mono {type : TokenType} (h : Accepts deps q type u tr) (hsub : tr ⊆ tr') :
    Accepts deps q type u tr' := by
  obtain ⟨s, o, claims, hmem, hp, hrest⟩ := h
  exact ⟨s, o, claims, hsub hmem, hp.mono hsub, hrest⟩

theorem MayIssue.mono {type : TokenType} (h : MayIssue deps q u type tr) (hsub : tr ⊆ tr') :
    MayIssue deps q u type tr' :=
  h.imp (fun h => h.mono hsub) fun h => ⟨h.1, h.2.1, h.2.2.mono hsub⟩

section Handlers

variable {hist : List ServiceStep}

/-- The program is justified from here on. -/
abbrev Justified (deps : Deps) (q : Request) (p : Prog Stmt Reply) (hist : List ServiceStep) : Prop :=
  (machine deps).Recalls (CallJustified deps) (AnswerJustified deps) q p hist

theorem justified_answer (status : ℕ) (message : String) :
    Justified deps q (.ret (.error status message)) hist := trivial

theorem justified_issueToken {type : TokenType} {k : Option GoString → Prog Stmt Reply}
    (hissue : MayIssue deps q u type hist)
    (h : ∀ text hist', hist ⊆ hist' → Justified deps q (k text) hist') :
    Justified deps q (issueToken u type (ttl type) k) hist := by
  refine ⟨trivial, fun o t s s' hx => ⟨trivial, fun o' t' s₁ s₁' hx' => ⟨⟨?_, ?_⟩, ?_⟩⟩⟩
  · exact hissue.mono fun _ hst => List.mem_cons_of_mem _ (List.mem_cons_of_mem _ hst)
  · obtain ⟨rfl, -⟩ := Prod.mk.inj (Option.some.inj hx)
    exact ⟨s, o, List.mem_cons_of_mem _ List.mem_cons_self, rfl⟩
  · exact fun _ text _ _ _ => h text _ fun _ hst =>
      List.mem_cons_of_mem _ (List.mem_cons_of_mem _ (List.mem_cons_of_mem _ hst))

theorem justified_issueTokenPair {user : User} {k : Option TokenResponse → Prog Stmt Reply}
    (hpassword : ProvesPassword deps q user.id hist)
    (h : ∀ tokens hist', hist ⊆ hist' → Justified deps q (k tokens) hist') :
    Justified deps q (issueTokenPair user k) hist := by
  refine justified_issueToken (Or.inl hpassword) fun access hist₁ h₁ => ?_
  cases access with
  | none => exact h none hist₁ h₁
  | some access =>
    refine justified_issueToken (Or.inl (hpassword.mono h₁)) fun refresh hist₂ h₂ => ?_
    cases refresh with
    | none => exact h none hist₂ (List.Subset.trans h₁ h₂)
    | some refresh => exact h _ hist₂ (List.Subset.trans h₁ h₂)

theorem justified_signup {body : Option SignupRequest} (hq : q.endpoint = .signup body) :
    Justified deps q (signup body .ret) hist := by
  refine Early.decodeBody (P := fun p => Justified deps q p hist) justified_answer fun req hreq => ?_
  refine Early.failIf (P := fun p => Justified deps q p hist) justified_answer fun _ => ?_
  refine ⟨trivial, fun o hash s s' hx => ?_⟩
  cases hash with
  | none => trivial
  | some hash =>
    refine ⟨trivial, fun o' created s₁ s₁' hx₁ => ?_⟩
    refine Early.foundOr (P := fun p => Justified deps q p _) justified_answer fun user huser => ?_
    have hhash : deps.hashPassword o.random req.password = some hash := by
      simp only [machine_exec, exec] at hx
      split at hx
      · cases hx
      · exact (Prod.mk.inj (Option.some.inj hx)).1
    have hcreated : user.passwordHash = hash := by
      simp only [machine_exec, exec] at hx₁
      split at hx₁
      · cases hx₁
        cases huser
      · split at hx₁
        · cases hx₁
        · obtain ⟨rfl, -⟩ := Prod.mk.inj (Option.some.inj hx₁)
          obtain rfl := Except.ok.inj huser
          rfl
    subst huser hcreated
    have hpassword : ∀ hist', ProvesPassword deps q user.id
        (.call s₁ q o' (.createUser req.email user.passwordHash req.name) (.ok user) :: hist') := by
      intro hist'
      unfold ProvesPassword
      rw [hq, hreq]
      exact ⟨s₁, o', user, o.random, List.mem_cons_self, rfl, hhash⟩
    refine justified_issueTokenPair (hpassword _) fun tokens hist' hsub => ?_
    cases tokens with
    | none => trivial
    | some tokens => exact ⟨user.id, Or.inl ((hpassword _).mono hsub)⟩

theorem justified_login {body : Option LoginRequest} (hq : q.endpoint = .login body) :
    Justified deps q (login deps body .ret) hist := by
  refine Early.decodeBody (P := fun p => Justified deps q p hist) justified_answer fun req hreq => ?_
  refine ⟨trivial, fun o found s s' hx => ?_⟩
  refine Early.foundOr (P := fun p => Justified deps q p _) justified_answer fun user huser => ?_
  refine Early.failIf (P := fun p => Justified deps q p _) justified_answer fun hverify => ?_
  subst huser
  have hmem : user ∈ s.users := by
    obtain ⟨hfound, -⟩ := Prod.mk.inj (Option.some.inj hx)
    exact (mem_of_firstOrNotFound (AuthSvc.answer_ok hfound)).1
  have hpassword : ∀ hist',
      ProvesPassword deps q user.id (.call s q o (.userByEmail req.email) (.ok user) :: hist') := by
    intro hist'
    unfold ProvesPassword
    rw [hq, hreq]
    exact ⟨s, o, user, List.mem_cons_self, hmem, rfl, by simpa using hverify⟩
  refine justified_issueTokenPair (hpassword _) fun tokens hist' hsub => ?_
  cases tokens with
  | none => trivial
  | some tokens => exact ⟨user.id, Or.inl ((hpassword _).mono hsub)⟩

/-- A token that a request presents is checked; what passes is accepted. -/
theorem justified_parseToken {text : GoString} {k : Option Claims → Prog Stmt Reply} {s₀ : Store}
    (hstart : .start s₀ q ∈ hist) (hunforged : unforged deps q.endpoint s₀ = true)
    (htoken : q.endpoint.token = some text) (hnone : ∀ hist', Justified deps q (k none) hist')
    (hsome : ∀ claims hist', hist ⊆ hist' → Accepts deps q claims.type claims.userID hist' →
      Justified deps q (k (some claims)) hist') :
    Justified deps q (parseToken deps text k) hist := by
  unfold parseToken
  cases hclaims : deps.verifyToken text with
  | none => exact hnone hist
  | some claims =>
    have hpresents : Presents deps q claims hist := ⟨⟨text, htoken, hclaims⟩, s₀, hstart, hunforged⟩
    refine ⟨hpresents, fun o a s s' _ => ?_⟩
    cases a with
    | false => exact hnone _
    | true =>
      exact hsome claims _ (List.subset_cons_self _ _) ⟨s, o, claims, List.mem_cons_self,
        hpresents.mono (List.subset_cons_self _ _), rfl, rfl⟩

theorem justified_refresh {body : Option RefreshRequest} (hq : q.endpoint = .refresh body)
    {s₀ : Store} (hstart : .start s₀ q ∈ hist) (hunforged : unforged deps q.endpoint s₀ = true) :
    Justified deps q (refresh deps body .ret) hist := by
  refine Early.decodeBody (P := fun p => Justified deps q p hist) justified_answer fun req hreq => ?_
  have htoken : q.endpoint.token = some req.refreshToken := by
    rw [hq, hreq]
    rfl
  refine justified_parseToken hstart hunforged htoken (fun _ => trivial) fun claims hist' _ hacc => ?_
  refine Early.failIf (P := fun p => Justified deps q p _) justified_answer fun htype => ?_
  rw [not_not] at htype
  rw [htype] at hacc
  refine ⟨trivial, fun o found s s' hx => ?_⟩
  match found with
  | .error .recordNotFound => trivial
  | .error .other => trivial
  | .ok user =>
    have huser : user.id = claims.userID := by
      obtain ⟨hfound, -⟩ := Prod.mk.inj (Option.some.inj hx)
      simpa using (mem_of_firstOrNotFound (AuthSvc.answer_ok hfound)).2
    rw [← huser] at hacc
    have hacc' := hacc.mono (List.subset_cons_self (.call s q o (.user claims.userID) (.ok user)) _)
    refine justified_issueToken (Or.inr ⟨rfl, ⟨body, hq⟩, hacc'⟩) fun access hist'' hsub => ?_
    cases access with
    | none => trivial
    | some access => exact ⟨user.id, Or.inr (hacc'.mono hsub)⟩

theorem justified_guarded {header : GoString} (hq : q.endpoint = .guarded header) {s₀ : Store}
    (hstart : .start s₀ q ∈ hist) (hunforged : unforged deps q.endpoint s₀ = true) :
    Justified deps q (guarded deps header .ret) hist := by
  show Justified deps q (requireAuth deps header _) hist
  unfold requireAuth
  cases htext : bearerToken header with
  | none => trivial
  | some text =>
    cases text with
    | nil => trivial
    | cons b text =>
      have htoken : q.endpoint.token = some (b :: text) := by
        rw [hq]
        exact htext
      refine justified_parseToken hstart hunforged htoken (fun _ => trivial)
        fun claims hist' _ hacc => ?_
      refine Early.failIf (P := fun p => Justified deps q p _) justified_answer fun htype => ?_
      rw [not_not] at htype
      rw [htype] at hacc
      exact hacc

theorem justified_ws {token : GoString} (hq : q.endpoint = .ws token) {s₀ : Store}
    (hstart : .start s₀ q ∈ hist) (hunforged : unforged deps q.endpoint s₀ = true) :
    Justified deps q (ws deps token .ret) hist := by
  refine Early.failIf (P := fun p => Justified deps q p hist) justified_answer fun _ => ?_
  have htoken : q.endpoint.token = some token := by
    rw [hq]
    rfl
  refine justified_parseToken hstart hunforged htoken (fun _ => trivial)
    fun claims hist' _ hacc => ?_
  refine Early.failIf (P := fun p => Justified deps q p _) justified_answer fun htype => ?_
  rw [not_not] at htype
  rw [htype] at hacc
  refine ⟨trivial, fun o a s s' _ => ?_⟩
  refine Early.exitIf (P := fun p => Justified deps q p _) (fun _ => trivial) fun _ => ?_
  exact hacc.mono (List.subset_cons_self _ _)

/-- Every handler is justified. -/
theorem justified_handler {s s' : Store} (h : (machine deps).launch q s = some s') :
    Justified deps q ((machine deps).handler q) [.start s q] := by
  have hunforged : unforged deps q.endpoint s = true := by
    simp only [machine] at h
    split at h
    · next hlaunch => exact hlaunch.2
    · cases h
  show Justified deps q (q.endpoint.handler deps .ret) _
  cases hq : q.endpoint with
  | signup body => exact justified_signup hq
  | login body => exact justified_login hq
  | refresh body => exact justified_refresh hq List.mem_cons_self hunforged
  | guarded header => exact justified_guarded hq List.mem_cons_self hunforged
  | ws token => exact justified_ws hq List.mem_cons_self hunforged

end Handlers

/-! ## Runs -/

section Runs

variable {users : Table User} {t₀ : Time}

/-- The services before any request. -/
abbrev start (users : Table User) (t₀ : Time) : Service := .init ⟨users, [], 0, t₀⟩

/-- What is in the ledger has been signed, and the clock has not gone back. -/
theorem ledger_of_reaches {sch : Machine.Schedule Store Request Reply AuthSvc.Oracle Time Stmt}
    (h : (machine deps).Reaches sch (start users t₀) c) :
    (∀ x ∈ c.store.issued, ∃ s q o, .call s q o (.signToken x.2) (some x.1) ∈ c.trace) ∧
      ∀ st ∈ c.trace, st.before.now ≤ c.store.now := by
  refine h.induct (C := fun _ => True) (I := fun c =>
    (∀ x ∈ c.store.issued, ∃ s q o, .call s q o (.signToken x.2) (some x.1) ∈ c.trace) ∧
      ∀ st ∈ c.trace, st.before.now ≤ c.store.now)
    ⟨fun _ hx => absurd hx List.not_mem_nil, fun _ hst => absurd hst List.not_mem_nil⟩
    (fun _ _ => trivial) ?_
  rintro c m c' ⟨hissued, hnow⟩ - hn -
  -- A step that signs nothing keeps both, as long as the clock does not go back.
  have keep : ∀ (st : ServiceStep) (s : Store), st.before = c.store → s.issued = c.store.issued →
      c.store.now ≤ s.now →
      (∀ x ∈ s.issued, ∃ s' q o, .call s' q o (.signToken x.2) (some x.1) ∈ st :: c.trace) ∧
        ∀ st' ∈ st :: c.trace, st'.before.now ≤ s.now := by
    intro st s hst hs hle
    refine ⟨fun x hx => ?_, fun st' hst' => ?_⟩
    · obtain ⟨s', q, o, hmem⟩ := hissued x (hs ▸ hx)
      exact ⟨s', q, o, List.mem_cons_of_mem _ hmem⟩
    · rcases List.mem_cons.1 hst' with rfl | hst'
      · rw [hst]
        exact hle
      · exact (hnow st' hst').trans hle
  obtain ⟨q, s, -, hq, rfl⟩ | ⟨i, o, q, α, e, k, a, s, -, -, hx, rfl⟩ | ⟨v, s, -, hv, rfl⟩ :=
    Machine.next_cases hn
  · simp only [machine] at hq
    split at hq
    · obtain rfl := Option.some.inj hq
      exact keep _ _ rfl rfl le_rfl
    · cases hq
  · rw [machine_exec] at hx
    cases e with
    | signToken claims =>
      simp only [exec] at hx
      split at hx
      · obtain ⟨rfl, rfl⟩ := Prod.mk.inj (Option.some.inj hx)
        exact keep _ _ rfl rfl le_rfl
      · obtain ⟨rfl, rfl⟩ := Prod.mk.inj (Option.some.inj hx)
        obtain ⟨hold, htime⟩ := keep (.call c.store q o (.signToken claims)
          (some (deps.signToken claims))) c.store rfl rfl le_rfl
        refine ⟨fun x hx' => ?_, htime⟩
        rcases List.mem_cons.1 hx' with rfl | hx'
        · exact ⟨_, _, _, List.mem_cons_self⟩
        · exact hold x hx'
    | createUser email hash name =>
      simp only [exec] at hx
      split at hx
      · obtain ⟨-, rfl⟩ := Prod.mk.inj (Option.some.inj hx)
        exact keep _ _ rfl rfl le_rfl
      · split at hx
        · cases hx
        · obtain ⟨-, rfl⟩ := Prod.mk.inj (Option.some.inj hx)
          exact keep _ _ rfl rfl le_rfl
    | _ =>
      obtain ⟨-, rfl⟩ := Prod.mk.inj (Option.some.inj hx)
      exact keep _ _ rfl rfl le_rfl
  · simp only [machine] at hv
    split at hv
    · next hle =>
      obtain rfl := Option.some.inj hv
      exact keep _ _ rfl rfl hle
    · cases hv

theorem numericDate_le (t : Time) : numericDate t * second ≤ t :=
  Int.ediv_mul_le t (by decide)

/-- What has not expired is younger than its time to live. -/
theorem age_lt {now expiry read life issued : ℤ} (h : now < expiry) (hexpiry : expiry ≤ read + life)
    (hread : read ≤ issued) : now - issued < life := by omega

variable {s : Store} {o : AuthSvc.Oracle} {claims : Claims} {newer older : List ServiceStep}

/-- The clock at a step has not gone back since the steps before it. -/
theorem now_le_of_mem (h : (machine deps).Reaches Machine.anySchedule (start users t₀) c)
    {st st' : ServiceStep} (hc : c.trace = newer ++ st :: older) (hst : st' ∈ older) :
    st'.before.now ≤ st.before.now := by
  obtain ⟨c₁, m, c₂, hr, -, rfl, -, hbefore⟩ := h.of_trace rfl hc
  exact hbefore ▸ (ledger_of_reaches hr).2 st' hst

/-- What is checked against the clock and found unexpired was issued, less than its time to live
before, by a request that was allowed to. -/
theorem issued_of_unexpired (h : (machine deps).Reaches Machine.anySchedule (start users t₀) c)
    (hc : c.trace = newer ++ .call s q o (.unexpired claims) true :: older) :
    ∃ q₁ t₁ rest, Issues q₁ older claims t₁ rest ∧ s.now - t₁ < ttl claims.type ∧
      ∃ hist, hist.Sublist rest ∧ MayIssue deps q₁ claims.userID claims.type hist := by
  obtain ⟨⟨hist, hsub, ⟨text, htoken, hverify⟩, s', hstart, hunforged⟩, s'', hx⟩ :=
    h.call_recalls (fun _ _ _ hq => justified_handler hq) hc
  -- The token was in the ledger when the request started.
  obtain ⟨mid, older', holder⟩ := List.append_of_mem (hsub.subset hstart)
  have hissued : (text, claims) ∈ s'.issued := by
    simpa [unforged, htoken, hverify] using hunforged
  have hc' : c.trace = (newer ++ .call s q o (.unexpired claims) true :: mid) ++
      .start s' q :: older' := by
    rw [hc, holder]
    simp
  obtain ⟨c₁, m, c₂, hr, -, rfl, -, hbefore⟩ := h.of_trace rfl hc'
  have hstore : c₁.store = s' := hbefore
  obtain ⟨s₁, q₁, o₁, hsign⟩ := (ledger_of_reaches hr).1 _ (hstore ▸ hissued)
  -- It was signed within its time to live.
  obtain ⟨mid', rest, hrest⟩ := List.append_of_mem hsign
  have hc'' : c.trace = (newer ++ .call s q o (.unexpired claims) true ::
      (mid ++ .start s' q :: mid')) ++ .call s₁ q₁ o₁ (.signToken claims) (some text) :: rest := by
    rw [hc', hrest]
    simp
  obtain ⟨⟨hist₁, hsub₁, hmay, s₂, o₂, hclock, hexpires⟩, -⟩ :=
    h.call_recalls (fun _ _ _ hq => justified_handler hq) hc''
  have hread : s₂.now ≤ s₁.now := now_le_of_mem h hc'' (hsub₁.subset hclock)
  have hlt : s.now < claims.expiresAt * second := by
    simpa using (Prod.mk.inj (Option.some.inj hx)).1
  refine ⟨q₁, s₁.now, rest, ⟨s₁, o₁, text, ?_, rfl⟩, ?_, hist₁, hsub₁, hmay⟩
  · rw [holder, hrest]
    exact ⟨mid ++ .start s' q :: mid', by simp⟩
  · rw [hexpires] at hlt
    exact age_lt hlt (numericDate_le _) hread

/-- Young at each end, and a while in between. -/
theorem session_lt {now issued accepted proved access refresh : ℤ} (h : now - issued < access)
    (h' : accepted - proved < refresh) : now - proved < refresh + access + (issued - accepted) := by
  omega

theorem goesBack_of_unexpired (h : (machine deps).Reaches Machine.anySchedule (start users t₀) c)
    (hc : c.trace = newer ++ .call s q o (.unexpired claims) true :: older)
    (htype : claims.type = .access) : GoesBack deps older claims s.now := by
  obtain ⟨q₁, t₁, rest, hissues, hyoung, hist, hsub, hmay⟩ := issued_of_unexpired h hc
  rw [htype] at hyoung
  refine ⟨q₁, t₁, rest, hissues, hyoung, ?_⟩
  obtain hpassword | ⟨-, hrefresh, s₂, o₂, refreshed, hmem, -, hrtype, huser⟩ := hmay
  · exact Or.inl (hpassword.mono hsub.subset)
  · obtain ⟨s₁, o₁, text, ⟨mid, rfl⟩, -⟩ := hissues
    obtain ⟨mid', older₂, rfl⟩ := List.append_of_mem (hsub.subset hmem)
    have hc' : c.trace = (newer ++ .call s q o (.unexpired claims) true ::
        (mid ++ .call s₁ q₁ o₁ (.signToken claims) (some text) :: mid')) ++
        .call s₂ q₁ o₂ (.unexpired refreshed) true :: older₂ := by
      rw [hc]
      simp
    obtain ⟨q₀, t₀, rest₀, hissues₀, hyoung₀, hist₀, hsub₀, hmay₀⟩ := issued_of_unexpired h hc'
    rw [hrtype] at hyoung₀ hmay₀
    have hpassword : ProvesPassword deps q₀ refreshed.userID rest₀ := by
      obtain hpassword | ⟨hne, -⟩ := hmay₀
      · exact hpassword.mono hsub₀.subset
      · cases hne
    exact Or.inr ⟨refreshed, s₂.now, older₂, t₀,
      ⟨hrefresh, hrtype, huser, s₂, o₂, ⟨mid', rfl⟩, rfl⟩, ⟨q₀, rest₀, hissues₀, hpassword⟩, hyoung₀,
      session_lt hyoung hyoung₀⟩

/-- **An accepted access token goes back to a password.**  In every run, a request is accepted as a user
by `RequireAuth` or `ws` only with an access token of the user that has just passed the check of its
expiry, `refresh` accepts refresh tokens only, and every access token that passes the check was issued
less than `accessTokenTTL` before, and goes back to a password proved less than
`refreshTokenTTL + accessTokenTTL` before, not counting the while that a refresh took between accepting
the one token and issuing the other. -/
theorem accepted_goes_back (deps : Deps) (users : Table User) (t₀ : Time)
    (h : (machine deps).Reaches Machine.anySchedule (start users t₀) c) :
    (∀ th ∈ c.threads, ∀ u, (th.prog = .ret (.served u) ∨ th.prog = .ret (.streaming u)) →
      ∃ text claims s o, th.origin.endpoint.token = some text ∧
        deps.verifyToken text = some claims ∧ claims.type = .access ∧ claims.userID = u ∧
        .call s th.origin o (.unexpired claims) true ∈ c.trace) ∧
    (∀ th ∈ c.threads, ∀ body status response, th.origin.endpoint = .refresh body →
      th.prog = .ret (.tokens status response) →
      ∃ text claims, th.origin.endpoint.token = some text ∧ deps.verifyToken text = some claims ∧
        claims.type = .refresh) ∧
    ∀ newer older s q o claims,
      c.trace = newer ++ .call s q o (.unexpired claims) true :: older → claims.type = .access →
      GoesBack deps older claims s.now := by
  have hrec := h.recalls fun _ _ _ hq => justified_handler hq
  refine ⟨fun th hth u hr => ?_, fun th hth body status response hq hr => ?_, ?_⟩
  · obtain ⟨hist, hsub, hj⟩ := hrec th hth
    have hacc : Accepts deps th.origin .access u hist := by
      rcases hr with hr | hr <;> rw [hr] at hj <;> exact hj
    obtain ⟨s, o, claims, hmem, ⟨⟨text, htoken, hverify⟩, -⟩, htype, huser⟩ := hacc
    exact ⟨text, claims, s, o, htoken, hverify, htype, huser, hsub.subset hmem⟩
  · obtain ⟨hist, -, hj⟩ := hrec th hth
    rw [hr] at hj
    obtain ⟨u, hpassword | ⟨s, o, claims, -, ⟨⟨text, htoken, hverify⟩, -⟩, htype, -⟩⟩ := hj
    · unfold ProvesPassword at hpassword
      rw [hq] at hpassword
      exact hpassword.elim
    · exact ⟨text, claims, htoken, hverify, htype⟩
  · exact fun newer older s q o claims hc htype => goesBack_of_unexpired h hc htype

/-! ### Requests that take no time -/

theorem exec_now {α : Type} {e : Stmt α} {a : α} {s' : Store} (hx : exec deps o e s = some (a, s')) :
    s'.now = s.now ∧ s'.requests = s.requests := by
  cases e with
  | signToken claims =>
    simp only [exec] at hx
    split at hx <;> obtain ⟨-, rfl⟩ := Prod.mk.inj (Option.some.inj hx) <;> exact ⟨rfl, rfl⟩
  | createUser email hash name =>
    simp only [exec] at hx
    split at hx
    · obtain ⟨-, rfl⟩ := Prod.mk.inj (Option.some.inj hx)
      exact ⟨rfl, rfl⟩
    · split at hx
      · cases hx
      · obtain ⟨-, rfl⟩ := Prod.mk.inj (Option.some.inj hx)
        exact ⟨rfl, rfl⟩
  | _ =>
    obtain ⟨-, rfl⟩ := Prod.mk.inj (Option.some.inj hx)
    exact ⟨rfl, rfl⟩

/-- The numbers of the requests received so far. -/
def Numbered (c : Service) : Prop :=
  (∀ th ∈ c.threads, th.origin.requestID < c.store.requests) ∧
    ∀ st ∈ c.trace, ∀ q, st.IsOf q → q.requestID < c.store.requests

/-- A request that runs has been received at this time, and so have all its calls. -/
def StandsStill (c : Service) : Prop :=
  ∀ th ∈ c.threads, th.prog.isDone = false → ∀ st ∈ c.trace, st.IsOf th.origin →
    st.before.now = c.store.now

/-- One request at a time, the clock stands still while one runs. -/
theorem standsStill_of_reaches (h : (machine deps).Reaches Machine.sequential (start users t₀) c) :
    Numbered c ∧ StandsStill c := by
  refine h.induct (C := fun _ => True) (I := fun c => Numbered c ∧ StandsStill c)
    ⟨⟨fun _ hth => absurd hth List.not_mem_nil, fun _ hst => absurd hst List.not_mem_nil⟩,
      fun _ hth => absurd hth List.not_mem_nil⟩ (fun _ _ => trivial) ?_
  rintro c m c' ⟨⟨hthread, hstep⟩, hnow⟩ hm hn -
  obtain ⟨q, s, rfl, hq, rfl⟩ | ⟨i, o, q, α, e, k, a, s, -, hi, hx, rfl⟩ | ⟨v, s, rfl, hv, rfl⟩ :=
    Machine.next_cases hn
  · have hdone : ∀ th ∈ c.threads, th.prog.isDone = true := List.all_eq_true.1 hm
    obtain ⟨hid, rfl⟩ : q.requestID = c.store.requests ∧
        { c.store with requests := c.store.requests + 1 } = s := by
      simp only [machine] at hq
      split at hq
      · next hlaunch => exact ⟨hlaunch.1, Option.some.inj hq⟩
      · cases hq
    refine ⟨⟨fun th hth => ?_, fun st hst q' hof => ?_⟩, fun th hth hrun st hst hof => ?_⟩
    · rcases List.mem_append.1 hth with hth | hth
      · exact Nat.lt_succ_of_lt (hthread th hth)
      · rw [List.mem_singleton.1 hth]
        exact hid ▸ Nat.lt_succ_self _
    · rcases List.mem_cons.1 hst with rfl | hst
      · obtain rfl : q = q' := hof
        exact hid ▸ Nat.lt_succ_self _
      · exact Nat.lt_succ_of_lt (hstep st hst q' hof)
    · rcases List.mem_append.1 hth with hth | hth
      · rw [hdone th hth] at hrun
        cases hrun
      · obtain rfl := List.mem_singleton.1 hth
        rcases List.mem_cons.1 hst with rfl | hst
        · rfl
        · exact absurd (hstep st hst q hof) (by omega)
  · obtain ⟨hsnow, hsnumber⟩ := exec_now hx
    have hmine := List.mem_of_getElem? hi
    refine ⟨⟨fun th hth => ?_, fun st hst q' hof => ?_⟩, fun th hth hrun st hst hof => ?_⟩
    · rw [hsnumber]
      rcases List.mem_or_eq_of_mem_set hth with hth | rfl
      · exact hthread th hth
      · exact hthread ⟨q, .call e k⟩ hmine
    · rw [hsnumber]
      rcases List.mem_cons.1 hst with rfl | hst
      · obtain rfl : q = q' := hof
        exact hthread _ hmine
      · exact hstep st hst q' hof
    · rcases List.mem_cons.1 hst with rfl | hst
      · exact hsnow.symm
      · rw [hsnow]
        rcases List.mem_or_eq_of_mem_set hth with hth | rfl
        · exact hnow th hth hrun st hst hof
        · exact hnow _ hmine rfl st hst hof
  · have hdone : ∀ th ∈ c.threads, th.prog.isDone = true := List.all_eq_true.1 hm
    obtain rfl : { c.store with now := v } = s := by
      simp only [machine] at hv
      split at hv
      · exact Option.some.inj hv
      · cases hv
    refine ⟨⟨hthread, fun st hst q' hof => ?_⟩, fun th hth hrun => ?_⟩
    · rcases List.mem_cons.1 hst with rfl | hst
      · exact hof.elim
      · exact hstep st hst q' hof
    · rw [hdone th hth] at hrun
      cases hrun

/-- One request at a time, all calls of a request are made at one time. -/
theorem now_eq_of_call (h : (machine deps).Reaches Machine.sequential (start users t₀) c) {α : Type}
    {e : Stmt α} {a : α} (hc : c.trace = newer ++ .call s q o e a :: older) {st : ServiceStep}
    (hst : st ∈ older) (hof : st.IsOf q) : st.before.now = s.now := by
  obtain ⟨c₁, m, c₂, hr, hn, rfl, hc₂, hbefore⟩ := h.of_trace rfl hc
  obtain ⟨k, s', hth, -⟩ := Machine.exists_thread_of_call hn hc₂
  have hs : c₁.store = s := hbefore
  exact hs ▸ (standsStill_of_reaches hr).2 _ hth rfl st hst hof

/-- One request at a time, no session outlives the two periods. -/
theorem session_within_periods (h : (machine deps).Reaches Machine.sequential (start users t₀) c)
    (hc : c.trace = newer ++ .call s q o (.unexpired claims) true :: older)
    (htype : claims.type = .access) :
    ∃ token t, token.userID = claims.userID ∧ IssuedOnPassword deps older token t ∧
      s.now - t < refreshTokenTTL + accessTokenTTL := by
  have hrefresh : (0 : ℤ) < refreshTokenTTL := by decide
  obtain ⟨q₁, t₁, older₁, hissues, hyoung, hpassword | ⟨refreshed, t₂, older₂, t₃, haccepts, hthen,
    hyoung', hsession⟩⟩ := goesBack_of_unexpired h.any hc htype
  · exact ⟨claims, t₁, rfl, ⟨q₁, older₁, hissues, hpassword⟩,
      hyoung.trans (lt_add_of_pos_left _ hrefresh)⟩
  · obtain ⟨s₁, o₁, text, ⟨mid, rfl⟩, rfl⟩ := hissues
    obtain ⟨-, -, huser, s₂, o₂, ⟨mid', rfl⟩, rfl⟩ := haccepts
    -- The refresh accepts the one token and issues the other at one time.
    have hof : (.call s₂ q₁ o₂ (.unexpired refreshed) true : ServiceStep).IsOf q₁ := rfl
    have hc' : c.trace = (newer ++ .call s q o (.unexpired claims) true :: mid) ++
        .call s₁ q₁ o₁ (.signToken claims) (some text) ::
        (mid' ++ .call s₂ q₁ o₂ (.unexpired refreshed) true :: older₂) := by
      rw [hc]
      simp
    have hsame : s₂.now = s₁.now :=
      now_eq_of_call h hc' (List.mem_append_right mid' List.mem_cons_self) hof
    rw [hsame, sub_self, add_zero] at hsession
    obtain ⟨q₀, older₀, ⟨s₀, o₀, text₀, ⟨mid₀, hmid₀⟩, ht₀⟩, hpassword⟩ := hthen
    refine ⟨refreshed, t₃, huser, ⟨q₀, older₀, ⟨s₀, o₀, text₀, ?_, ht₀⟩, hpassword⟩, hsession⟩
    rw [← hmid₀]
    exact ⟨mid ++ .call s₁ q₁ o₁ (.signToken claims) (some text) ::
      (mid' ++ .call s₂ q₁ o₂ (.unexpired refreshed) true :: mid₀), by simp⟩

end Runs

/-! ### A slow refresh -/

/-- Tokens of account 1 in this deployment; nothing else verifies. -/
def plainClaims (type : TokenType) (expiresAt issuedAt : ℤ) : Claims :=
  ⟨1, type, expiresAt, issuedAt, UUID.string 1⟩

def plainSign (claims : Claims) : GoString :=
  lit (match claims.type with | .access => "access " | .refresh => "refresh ") ++
    decimal claims.expiresAt ++ lit " " ++ decimal claims.issuedAt

def plainDeps : Deps where
  hashPassword _ password := some password
  verifyPassword hash password := hash = password
  signToken := plainSign
  verifyToken text := [plainClaims .access 900 0, plainClaims .refresh 604800 0,
    plainClaims .access 606299 605399].find? fun claims => plainSign claims = text

/-- The step is one of a signup or a login. -/
def logsIn : ServiceStep → Bool
  | .start _ q | .call _ q _ _ _ => match q.endpoint with
    | .signup _ | .login _ => true
    | _ => false
  | .env _ _ => false

/-- The last step accepts an access token of account 1 at the given time. -/
def acceptsLast (t : Time) (c : Service) : Bool :=
  match c.trace with
  | .call s _ _ (.unexpired claims) true :: _ =>
    claims.type = .access && claims.userID = 1 && s.now = t
  | _ => false

/-- Account 1 signs up at the start, refreshes a second before the refresh token expires, and the query
of the refresh takes ten minutes; the access token is used a second before it expires. -/
def slowRefresh : List (Move Request AuthSvc.Oracle Time) :=
  [.start ⟨0, .signup (some ⟨lit "a@b", lit "secret", lit "A"⟩)⟩, .step 0 {}, .step 0 { uuid := 1 },
    .step 0 {}, .step 0 {}, .step 0 {}, .step 0 {}, .step 0 {}, .step 0 {},
    .env (604799 * second),
    .start ⟨1, .refresh (some ⟨plainSign (plainClaims .refresh 604800 0)⟩)⟩, .step 1 {},
    .env (605399 * second), .step 1 {}, .step 1 {}, .step 1 {}, .step 1 {},
    .env (606298 * second),
    .start ⟨2, .guarded (lit "Bearer " ++ plainSign (plainClaims .access 606299 605399))⟩, .step 2 {}]

/-- The session has lasted longer than the two periods: every step of a signup or login is longer ago. -/
theorem session_outlived :
    ∃ c : Service, (machine plainDeps).Reaches Machine.anySchedule (start Table.empty 0) c ∧
      acceptsLast (606298 * second) c = true ∧
      ∀ st ∈ c.trace, logsIn st = true →
        refreshTokenTTL + accessTokenTTL < 606298 * second - st.before.now := by
  obtain ⟨c, hc, hP⟩ := Machine.exists_reaches (machine plainDeps) Machine.anySchedule
    (start Table.empty 0) (fun c => acceptsLast (606298 * second) c && c.trace.all fun st =>
      !logsIn st || refreshTokenTTL + accessTokenTTL < 606298 * second - st.before.now)
    slowRefresh (by decide +kernel)
  simp only [Bool.and_eq_true, List.all_eq_true, Bool.or_eq_true, Bool.not_eq_true',
    decide_eq_true_eq] at hP
  exact ⟨c, hc, hP.1, fun st hst hlogs => (hP.2 st hst).resolve_left (by simp [hlogs])⟩

/-- Where the token of the slow refresh goes back to. -/
theorem accepted_goes_back_slow :
    ∃ (c : Service) (s : Store) (q : Request) (o : AuthSvc.Oracle) (claims : Claims)
      (older : List ServiceStep),
      (machine plainDeps).Reaches Machine.anySchedule (start Table.empty 0) c ∧
      c.trace = .call s q o (.unexpired claims) true :: older ∧ claims.userID = 1 ∧
      GoesBack plainDeps older claims s.now := by
  obtain ⟨c, hc, hP⟩ := Machine.exists_reaches (machine plainDeps) Machine.anySchedule
    (start Table.empty 0) (acceptsLast (606298 * second)) slowRefresh (by decide +kernel)
  unfold acceptsLast at hP
  split at hP
  · next s q o claims older htrace =>
    simp only [Bool.and_eq_true, decide_eq_true_eq] at hP
    exact ⟨c, s, q, o, claims, older, hc, htrace, hP.1.2,
      (accepted_goes_back plainDeps Table.empty 0 hc).2.2 [] older s q o claims htrace hP.1.1⟩
  · cases hP

end Sessions

end Optiflow
