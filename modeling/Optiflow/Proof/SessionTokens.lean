import Optiflow.Model.ApiTokens

/-!
# Tokens of one session

The answer to a `/refresh` request is written whatever has been set since the request was sent, and a call
joins the request in flight whatever session it was sent for.  In the runs in which no answer is used
after a `setTokens` that came later than its request, the tokens of the module belong together, and a call
gets a token of the session that was current when it was made (`tokens_together`).
-/

namespace Optiflow

namespace ApiTokens

variable {s s' : State} {i j : ℕ} {token : String} {outcome : Outcome}

/-- No `setTokens` since the request was sent. -/
def State.fresh (s : State) (i : ℕ) : Bool := (s.refreshes i).epoch = s.epoch

theorem State.fresh_iff : s.fresh i = true ↔ (s.refreshes i).epoch = s.epoch := decide_eq_true_iff

def State.succeeded (s : State) (i : ℕ) : Prop := ∃ token, (s.refreshes i).outcome = .resolved token

/-! ## Fields -/

section Fields

theorem callback_eq (s : State) (c : Callback) : ∃ cs, s.callback c = { s with callbacks := cs } := by
  unfold State.callback
  split
  · exact ⟨_, rfl⟩
  · exact ⟨s.callbacks, rfl⟩

theorem setTokens_eq (s : State) (a r : Option String) :
    ∃ told, s.setTokens a r =
      { s with accessToken := a, refreshToken := r, epoch := s.epoch + 1, told := told } := by
  unfold State.setTokens
  dsimp only
  split
  · exact ⟨_, rfl⟩
  · exact ⟨s.told, rfl⟩

theorem State.awaits_setTokens {a r : Option String} :
    (s.setTokens a r).awaits i = true ↔ s.awaits i = true := by
  obtain ⟨told, heq⟩ := setTokens_eq s a r
  rw [heq]
  rfl

theorem refreshed_eq (s : State) (i : ℕ) (token : String) :
    ∃ cs, s.refreshed i token =
      State.setOutcome
        { s with accessToken := some token, told := some token :: s.told, callbacks := cs } i
        (.resolved token) := by
  obtain ⟨cs, hcs⟩ := callback_eq
    { s with accessToken := some token, told := some token :: s.told } (.onTokenRefreshed token)
  exact ⟨cs, congrArg (State.setOutcome · i (.resolved token)) hcs⟩

theorem refreshFailed_eq (s : State) (i : ℕ) :
    ∃ cs, s.refreshFailed i = State.setOutcome { s with callbacks := cs } i .rejected := by
  obtain ⟨cs, hcs⟩ := callback_eq s .onAuthFailure
  exact ⟨cs, congrArg (State.setOutcome · i .rejected) hcs⟩

@[simp] theorem sent_setOutcome : ((s.setOutcome i outcome).refreshes j).sent = (s.refreshes j).sent := by
  by_cases h : j = i
  · subst h
    simp [State.setOutcome]
  · simp [State.setOutcome, h]

@[simp] theorem epoch_setOutcome :
    ((s.setOutcome i outcome).refreshes j).epoch = (s.refreshes j).epoch := by
  by_cases h : j = i
  · subst h
    simp [State.setOutcome]
  · simp [State.setOutcome, h]

theorem outcome_setOutcome_self : ((s.setOutcome i outcome).refreshes i).outcome = outcome := by
  simp [State.setOutcome]

theorem outcome_setOutcome_of_ne (h : j ≠ i) :
    ((s.setOutcome i outcome).refreshes j).outcome = (s.refreshes j).outcome := by
  simp [State.setOutcome, h]

theorem refreshToken_of_noRefreshToken (h : ¬s.noRefreshToken = true) :
    s.refreshToken = some (s.refreshToken.getD "") := by
  cases hr : s.refreshToken with
  | none => simp [State.noRefreshToken, hr] at h
  | some r => rfl

theorem State.awaits_iff : s.awaits i = true ↔ i < s.started ∧ (s.refreshes i).outcome = .pending := by
  simp [State.awaits]

end Fields

variable {σ : Type} {session : String → σ}

/-! ## What holds in every state -/

/-- An answer is used, by the module or by a call that joins its request, only when `setTokens` was not
called since the request was sent. -/
def usesFresh (s : State) : Event session → Bool
  | .answered i (some _) => s.fresh i
  | .refreshAccessToken =>
    s.noRefreshToken || s.refreshPromise.all fun i =>
      match (s.refreshes i).outcome with
      | .resolved _ => s.fresh i
      | _ => true
  | _ => true

variable (session) in
/-- The tokens that the module holds were issued for one session. -/
def State.Together (s : State) : Prop :=
  ∀ a, s.accessToken = some a → ∃ r, s.refreshToken = some r ∧ session a = session r

variable (session) in
/-- The promises that were returned resolve with tokens of the session that was current at the call. -/
def State.CallsKept (s : State) : Prop :=
  ∀ c ∈ s.calls, ∀ i token, c.promise = some i → (s.refreshes i).outcome = .resolved token →
    ∃ r, c.refreshToken = some r ∧ session token = session r

variable (session) in
/-- The refresh token of a request that is fresh is still held, and it is the one that every call whose
promise can still resolve, or has, was made with. -/
structure State.Inv (s : State) : Prop where
  together : s.Together session
  epoch : ∀ i < s.started, (s.refreshes i).epoch ≤ s.epoch
  sent : ∀ i < s.started, s.fresh i = true → s.refreshToken = some (s.refreshes i).sent
  promise : ∀ i, s.refreshPromise = some i → i < s.started
  joined : ∀ c ∈ s.calls, ∀ i, c.promise = some i →
    i < s.started ∧ (s.fresh i = true ∨ s.succeeded i → c.refreshToken = some (s.refreshes i).sent)
  issued : ∀ i < s.started, ∀ token, (s.refreshes i).outcome = .resolved token →
    session token = session (s.refreshes i).sent

theorem inv_start : State.start.Inv session where
  together a h := by cases h
  epoch i hi := by cases hi
  sent i hi := by cases hi
  promise i h := by cases h
  joined c hc := by cases hc
  issued i hi := by cases hi

namespace State.Inv

theorem callsKept (h : s.Inv session) : s.CallsKept session := by
  intro c hc i token hpromise houtcome
  obtain ⟨hi, hjoined⟩ := h.joined c hc i hpromise
  exact ⟨_, hjoined (Or.inr ⟨token, houtcome⟩), h.issued i hi token houtcome⟩

theorem setTokens (h : s.Inv session) (next : Tokens session) :
    (s.setTokens next.accessToken next.refreshToken).Inv session := by
  obtain ⟨told, heq⟩ := setTokens_eq s next.accessToken next.refreshToken
  rw [heq]
  have hstale : ∀ i < s.started, ¬(s.refreshes i).epoch = s.epoch + 1 := by
    intro i hi hepoch
    have := h.epoch i hi
    omega
  constructor
  · intro a ha
    have ha : next.accessToken = some a := ha
    have htogether := next.together
    rw [ha] at htogether
    obtain ⟨r, hr, hsession⟩ := Option.map_eq_some_iff.1 htogether.symm
    exact ⟨r, hr, hsession.symm⟩
  · intro i hi
    exact Nat.le_succ_of_le (h.epoch i hi)
  · intro i hi hfresh
    exact absurd (State.fresh_iff.1 hfresh) (hstale i hi)
  · exact h.promise
  · intro c hc i hpromise
    obtain ⟨hi, hjoined⟩ := h.joined c hc i hpromise
    refine ⟨hi, ?_⟩
    rintro (hfresh | hsucceeded)
    · exact absurd (State.fresh_iff.1 hfresh) (hstale i hi)
    · exact hjoined (Or.inr hsucceeded)
  · exact h.issued

/-- A call that is rejected at once, or that joins a request. -/
theorem returned (h : s.Inv session) {promise : Option ℕ}
    (hjoin : ∀ i, promise = some i → i < s.started ∧
      (s.fresh i = true ∨ s.succeeded i → s.refreshToken = some (s.refreshes i).sent)) :
    (s.returned promise).Inv session where
  together := h.together
  epoch := h.epoch
  sent := h.sent
  promise := h.promise
  joined c hc := by
    obtain rfl | hc := List.mem_cons.1 hc
    · exact hjoin
    · exact h.joined c hc
  issued := h.issued

theorem callback (h : s.Inv session) (c : Callback) : (s.callback c).Inv session := by
  obtain ⟨cs, heq⟩ := callback_eq s c
  rw [heq]
  exact ⟨h.together, h.epoch, h.sent, h.promise, h.joined, h.issued⟩

/-- A new request. -/
theorem start (h : s.Inv session) {r : String} (hr : s.refreshToken = some r) :
    State.Inv session { s with
      refreshPromise := some s.started
      started := s.started + 1
      refreshes := Function.update s.refreshes s.started ⟨r, s.epoch, .pending⟩ } := by
  have hold : ∀ i < s.started,
      Function.update s.refreshes s.started ⟨r, s.epoch, .pending⟩ i = s.refreshes i :=
    fun i hi => Function.update_of_ne (Nat.ne_of_lt hi) ..
  have hcases : ∀ i < s.started + 1, i < s.started ∨ i = s.started := by omega
  constructor
  · exact h.together
  · intro i hi
    obtain hi | rfl := hcases i hi
    · dsimp only
      rw [hold i hi]
      exact h.epoch i hi
    · simp
  · intro i hi hfresh
    obtain hi | rfl := hcases i hi
    · rw [State.fresh_iff] at hfresh
      dsimp only at hfresh ⊢
      rw [hold i hi] at hfresh ⊢
      exact h.sent i hi (State.fresh_iff.2 hfresh)
    · simpa using hr
  · intro i hi
    obtain rfl := Option.some.inj hi
    exact Nat.lt_succ_self _
  · intro c hc i hpromise
    obtain ⟨hi, hjoined⟩ := h.joined c hc i hpromise
    refine ⟨Nat.lt_succ_of_lt hi, ?_⟩
    rw [State.fresh_iff] at hjoined ⊢
    unfold State.succeeded
    dsimp only
    rw [hold i hi]
    exact hjoined
  · intro i hi
    obtain hi | rfl := hcases i hi
    · dsimp only
      rw [hold i hi]
      exact h.issued i hi
    · simp

theorem refreshAccessToken (h : s.Inv session)
    (hC : usesFresh s (.refreshAccessToken : Event session) = true) :
    s.refreshAccessToken.Inv session := by
  unfold State.refreshAccessToken
  split
  · exact (h.callback _).returned fun i hi => by cases hi
  · next hheld =>
    have hr := refreshToken_of_noRefreshToken hheld
    split
    · next i hpromise =>
      have hi := h.promise i hpromise
      have hfresh : s.succeeded i → s.fresh i = true := by
        rintro ⟨token, houtcome⟩
        simpa [usesFresh, hheld, hpromise, houtcome] using hC
      refine h.returned fun i' hi' => ?_
      obtain rfl := Option.some.inj hi'
      refine ⟨hi, ?_⟩
      rintro (hf | hs)
      · exact h.sent i hi hf
      · exact h.sent i hi (hfresh hs)
    · refine (h.start hr).returned fun i hi => ?_
      obtain rfl := Option.some.inj hi
      exact ⟨Nat.lt_succ_self _, fun _ => by simpa using hr⟩

/-- The end of a request: what its promise resolves with is a token of the session of its calls. -/
theorem setOutcome (h : s.Inv session)
    (hresolved : ∀ token, outcome = .resolved token →
      s.fresh i = true ∧ session token = session (s.refreshes i).sent) :
    (s.setOutcome i outcome).Inv session where
  together := h.together
  epoch j hj := by
    rw [epoch_setOutcome]
    exact h.epoch j hj
  sent j hj := by
    unfold State.fresh
    rw [epoch_setOutcome, sent_setOutcome]
    exact h.sent j hj
  promise := h.promise
  joined c hc j hpromise := by
    obtain ⟨hj, hjoined⟩ := h.joined c hc j hpromise
    refine ⟨hj, ?_⟩
    unfold State.fresh State.succeeded
    rw [epoch_setOutcome, sent_setOutcome]
    by_cases hji : j = i
    · subst hji
      rw [outcome_setOutcome_self]
      rintro (hfresh | ⟨token, houtcome⟩)
      · exact hjoined (Or.inl hfresh)
      · exact hjoined (Or.inl (hresolved token houtcome).1)
    · rw [outcome_setOutcome_of_ne hji]
      exact hjoined
  issued j hj := by
    rw [sent_setOutcome]
    by_cases hji : j = i
    · subst hji
      rw [outcome_setOutcome_self]
      exact fun token houtcome => (hresolved token houtcome).2
    · rw [outcome_setOutcome_of_ne hji]
      exact h.issued j hj

end State.Inv

/-! ### Steps and runs -/

variable [DecidableEq σ]

theorem answered_inv (hs : step session s (.answered i (some token)) = some s') :
    s.awaits i = true ∧ session token = session (s.refreshes i).sent ∧ s' = s.refreshed i token := by
  obtain ⟨hguard, ⟨⟩⟩ := Option.ite_none_right_eq_some.1 hs
  obtain ⟨hi, hsession⟩ := Bool.and_eq_true_iff.1 hguard
  exact ⟨hi, of_decide_eq_true hsession, rfl⟩

theorem failed_inv (hs : step session s (.answered i none) = some s') :
    s.awaits i = true ∧ s' = s.refreshFailed i := by
  obtain ⟨hi, ⟨⟩⟩ := Option.ite_none_right_eq_some.1 hs
  exact ⟨hi, rfl⟩

theorem inv_step (h : s.Inv session) {e : Event session} (hC : usesFresh s e = true)
    (hs : step session s e = some s') : s'.Inv session := by
  cases e with
  | configureApiClient =>
    obtain rfl := Option.some.inj hs
    exact ⟨h.together, h.epoch, h.sent, h.promise, h.joined, h.issued⟩
  | setTokens next =>
    obtain rfl := Option.some.inj hs
    exact h.setTokens next
  | refreshAccessToken =>
    obtain rfl := Option.some.inj hs
    exact h.refreshAccessToken hC
  | answered i answer =>
    cases answer with
    | some token =>
      obtain ⟨hi, hsession, rfl⟩ := answered_inv hs
      have hsent := h.sent i (State.awaits_iff.1 hi).1 hC
      obtain ⟨cs, heq⟩ := refreshed_eq s i token
      rw [heq]
      have hwritten : State.Inv session
          { s with accessToken := some token, told := some token :: s.told, callbacks := cs } :=
        { h with
          together := by
            intro a ha
            obtain rfl := Option.some.inj ha
            exact ⟨_, hsent, hsession⟩ }
      refine hwritten.setOutcome fun t ht => ?_
      obtain rfl := Outcome.resolved.inj ht
      exact ⟨hC, hsession⟩
    | none =>
      obtain ⟨-, rfl⟩ := failed_inv hs
      exact (h.callback _).setOutcome fun t ht => by cases ht
  | settled i =>
    obtain ⟨-, ⟨⟩⟩ := Option.ite_none_right_eq_some.1 hs
    exact { h with promise := fun i hi => by cases hi }

theorem inv_run {es : List (Event session)}
    (h : (client session).Reaches (fun s e => usesFresh s e = true) .start es s) : s.Inv session :=
  h.invariant (I := fun _ s => s.Inv session) inv_start fun _ _ _ _ hI hC hs => inv_step hI hC hs

/-! ## After `setTokens` -/

/-- Only answers to the requests from `first` on have been written since the `n`th call of
`setTokens`. -/
structure State.Since (s : State) (first n : ℕ) (next : Tokens session) : Prop where
  epoch : s.epoch = n
  started : first ≤ s.started
  older : ∀ i < first, (s.refreshes i).epoch < n
  refreshToken : s.refreshToken = next.refreshToken
  accessToken : s.accessToken = next.accessToken ∨ ∃ i token, first ≤ i ∧ i < s.started ∧
    (s.refreshes i).outcome = .resolved token ∧ s.accessToken = some token

omit [DecidableEq σ] in
theorem since_setTokens (h : s.Inv session) (next : Tokens session) :
    (s.setTokens next.accessToken next.refreshToken).Since s.started (s.epoch + 1) next := by
  obtain ⟨told, heq⟩ := setTokens_eq s next.accessToken next.refreshToken
  rw [heq]
  exact ⟨rfl, Nat.le_refl _, fun i hi => Nat.lt_succ_of_le (h.epoch i hi), rfl, Or.inl rfl⟩

theorem since_step {first n : ℕ} {next : Tokens session} (h : s.Since first n next)
    {e : Event session} (he : ∀ next', e ≠ .setTokens next') (hC : usesFresh s e = true)
    (hs : step session s e = some s') : s'.Since first n next := by
  cases e with
  | setTokens next' => exact absurd rfl (he next')
  | configureApiClient =>
    obtain rfl := Option.some.inj hs
    exact ⟨h.epoch, h.started, h.older, h.refreshToken, h.accessToken⟩
  | refreshAccessToken =>
    obtain rfl := Option.some.inj hs
    unfold State.refreshAccessToken
    split
    · obtain ⟨cs, heq⟩ := callback_eq s .onAuthFailure
      rw [heq]
      exact ⟨h.epoch, h.started, h.older, h.refreshToken, h.accessToken⟩
    · split
      · exact ⟨h.epoch, h.started, h.older, h.refreshToken, h.accessToken⟩
      · have hold : ∀ i < s.started, Function.update s.refreshes s.started
            ⟨s.refreshToken.getD "", s.epoch, .pending⟩ i = s.refreshes i :=
          fun i hi => Function.update_of_ne (Nat.ne_of_lt hi) ..
        refine ⟨h.epoch, Nat.le_succ_of_le h.started, fun i hi => ?_, h.refreshToken, ?_⟩
        · dsimp only [State.returned]
          rw [hold i (Nat.lt_of_lt_of_le hi h.started)]
          exact h.older i hi
        · obtain ha | ⟨i, token, hfirst, hi, houtcome, ha⟩ := h.accessToken
          · exact Or.inl ha
          · refine Or.inr ⟨i, token, hfirst, Nat.lt_succ_of_lt hi, ?_, ha⟩
            dsimp only [State.returned]
            rw [hold i hi]
            exact houtcome
  | answered i answer =>
    cases answer with
    | some token =>
      obtain ⟨hi, -, rfl⟩ := answered_inv hs
      have hfirst : first ≤ i := by
        by_contra hlt
        have holder := h.older i (by omega)
        have hfresh := State.fresh_iff.1 hC
        have := h.epoch
        omega
      obtain ⟨cs, heq⟩ := refreshed_eq s i token
      rw [heq]
      refine ⟨h.epoch, h.started, fun j hj => ?_, h.refreshToken, Or.inr ⟨i, token, hfirst,
        (State.awaits_iff.1 hi).1, outcome_setOutcome_self, rfl⟩⟩
      rw [epoch_setOutcome]
      exact h.older j hj
    | none =>
      obtain ⟨hi, rfl⟩ := failed_inv hs
      obtain ⟨cs, heq⟩ := refreshFailed_eq s i
      rw [heq]
      refine ⟨h.epoch, h.started, fun j hj => ?_, h.refreshToken, ?_⟩
      · rw [epoch_setOutcome]
        exact h.older j hj
      · obtain ha | ⟨j, token, hfirst, hj, houtcome, ha⟩ := h.accessToken
        · exact Or.inl ha
        · refine Or.inr ⟨j, token, hfirst, hj, ?_, ha⟩
          have hji : j ≠ i := by
            rintro rfl
            rw [(State.awaits_iff.1 hi).2] at houtcome
            cases houtcome
          rw [outcome_setOutcome_of_ne hji]
          exact houtcome
  | settled i =>
    obtain ⟨-, ⟨⟩⟩ := Option.ite_none_right_eq_some.1 hs
    exact ⟨h.epoch, h.started, h.older, h.refreshToken, h.accessToken⟩

theorem since_run {first n : ℕ} {next : Tokens session} (hsince : s.Since first n next)
    {newer : List (Event session)}
    (h : (client session).Reaches (fun s e => usesFresh s e = true) s newer s')
    (hnewer : ∀ next', .setTokens next' ∉ newer) : s'.Since first n next := by
  induction h with
  | refl => exact hsince
  | step _ hC hs ih =>
    have hrest := ih fun next' hmem => hnewer next' (List.mem_cons_of_mem _ hmem)
    exact since_step hrest (fun next' he => hnewer next' (by rw [he]; exact List.mem_cons_self)) hC hs

/-- A success that arrives after the session has changed. -/
theorem change_mixes {next : Tokens session} (hi : s.awaits i = true)
    (htoken : session token = session (s.refreshes i).sent)
    (hchange : next.refreshToken.map session ≠ some (session (s.refreshes i).sent)) :
    ∃ s', (client session).Reaches System.Any (s.setTokens next.accessToken next.refreshToken)
      [.answered i (some token)] s' ∧ ¬s'.Together session := by
  obtain ⟨told, heq⟩ := setTokens_eq s next.accessToken next.refreshToken
  rw [heq]
  refine ⟨_, .step .refl trivial
    (if_pos (Bool.and_eq_true_iff.2 ⟨hi, decide_eq_true htoken⟩)), fun htogether => ?_⟩
  obtain ⟨cs, heq'⟩ := refreshed_eq _ i token
  rw [heq'] at htogether
  obtain ⟨r, hr, hsession⟩ := htogether token rfl
  have hr : next.refreshToken = some r := hr
  rw [hr, Option.map_some, ← hsession, htoken] at hchange
  exact hchange rfl

/-- In every run in which an answer is used only when `setTokens` was not called since its request was
sent, the tokens of the module are of one session, every call gets a token of the session that was current
when it was made, and what `setTokens` set is replaced only by answers to later requests.  From any state
in which a request is out, a `setTokens` for another session, or for none, can be followed by a success
that breaks the first of these. -/
theorem tokens_together {es : List (Event session)} {s : State}
    (h : (client session).Reaches (fun s e => usesFresh s e = true) .start es s) :
    s.Together session ∧ s.CallsKept session ∧
    (∀ (next : Tokens session) newer s', (client session).Reaches (fun s e => usesFresh s e = true)
        (s.setTokens next.accessToken next.refreshToken) newer s' →
      (∀ next', .setTokens next' ∉ newer) →
      s'.accessToken = next.accessToken ∨ ∃ i token, s.started ≤ i ∧
        (s'.refreshes i).outcome = .resolved token ∧ s'.accessToken = some token) ∧
    ∀ (next : Tokens session) i token, s.awaits i = true →
      session token = session (s.refreshes i).sent →
      next.refreshToken.map session ≠ some (session (s.refreshes i).sent) →
      ∃ s', (client session).Reaches System.Any
        (s.setTokens next.accessToken next.refreshToken) [.answered i (some token)] s' ∧
        ¬s'.Together session := by
  have hI := inv_run h
  refine ⟨hI.together, hI.callsKept, ?_, fun next i token => change_mixes⟩
  intro next newer s' hrun hnewer
  obtain ha | ⟨i, token, hfirst, -, houtcome, ha⟩ :=
    (since_run (since_setTokens hI next) hrun hnewer).accessToken
  · exact Or.inl ha
  · exact Or.inr ⟨i, token, hfirst, houtcome, ha⟩

/-! ### Two accounts -/

/-- The tokens of the two accounts, with one more access token of the first. -/
def account (token : String) : ℕ := if token ∈ ["access A", "refresh A", "access A'"] then 1 else 2

def tokensA : Tokens account := ⟨some "access A", some "refresh A", rfl⟩

def tokensB : Tokens account := ⟨some "access B", some "refresh B", rfl⟩

/-- A second refresh of the first account is out when the second signs in: a failure, and a success. -/
theorem tokens_together_accounts :
    ∃ s, (client account).Reaches (fun s e => usesFresh s e = true) .start
        [.refreshAccessToken, .settled 0, .answered 0 (some "access A'"), .refreshAccessToken,
          .setTokens tokensA] s ∧
      (s.Together account ∧ s.CallsKept account) ∧
      (∃ s', (client account).Reaches (fun s e => usesFresh s e = true)
        (s.setTokens tokensB.accessToken tokensB.refreshToken) [.answered 1 none] s' ∧
        (s'.accessToken = tokensB.accessToken ∨ ∃ i token, s.started ≤ i ∧
          (s'.refreshes i).outcome = .resolved token ∧ s'.accessToken = some token)) ∧
      ∃ s', (client account).Reaches System.Any
        (s.setTokens tokensB.accessToken tokensB.refreshToken) [.answered 1 (some "access A")] s' ∧
        ¬s'.Together account := by
  obtain ⟨s, hs, hP⟩ := (client account).exists_reaches usesFresh .start
    [.setTokens tokensA, .refreshAccessToken, .answered 0 (some "access A'"), .settled 0,
      .refreshAccessToken]
    (fun s => s.awaits 1 && (s.refreshes 1).sent = "refresh A") (by decide)
  obtain ⟨hawaits, hsent⟩ := Bool.and_eq_true_iff.1 hP
  have hsent : (s.refreshes 1).sent = "refresh A" := of_decide_eq_true hsent
  obtain ⟨htogether, hcalls, hafter, hmixes⟩ := tokens_together hs
  have hfailed : (client account).Reaches (fun s e => usesFresh s e = true)
      (s.setTokens tokensB.accessToken tokensB.refreshToken) [.answered 1 none] _ :=
    .step .refl rfl (if_pos (State.awaits_setTokens.2 hawaits))
  refine ⟨s, hs, ⟨htogether, hcalls⟩, ⟨_, hfailed, hafter tokensB _ _ hfailed (by simp)⟩, ?_⟩
  apply hmixes tokensB 1 "access A" hawaits
  · rw [hsent]
    decide
  · rw [hsent]
    decide

/-- The answer to a refresh of the first account arrives after the second has signed in. -/
theorem accounts_mixed :
    ∃ s, (client account).Reaches System.Any .start
        [.answered 0 (some "access A'"), .setTokens tokensB, .refreshAccessToken, .setTokens tokensA] s ∧
      ¬s.Together account := by
  obtain ⟨s, hs, hP⟩ := (client account).exists_reaches (fun _ _ => true) .start
    [.setTokens tokensA, .refreshAccessToken, .setTokens tokensB, .answered 0 (some "access A'")]
    (fun s => s.accessToken = some "access A'" && s.refreshToken = some "refresh B") (by decide)
  obtain ⟨ha, hr⟩ := Bool.and_eq_true_iff.1 hP
  refine ⟨s, hs.mono fun _ _ _ => trivial, fun htogether => ?_⟩
  obtain ⟨r, hr', hsession⟩ := htogether _ (of_decide_eq_true ha)
  obtain rfl := Option.some.inj ((of_decide_eq_true hr).symm.trans hr')
  exact absurd hsession (by decide)

end ApiTokens

end Optiflow
