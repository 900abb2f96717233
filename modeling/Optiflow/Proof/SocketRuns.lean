import Optiflow.Model.NotificationSocket

/-!
# Connections of the notification socket

`onclose` looks at `closedByCaller` when the close event of a socket occurs, and not at which socket it
was.  So a `connect` that comes before the close event of an earlier socket makes that event start a
reconnect beside the new socket; when no `connect` does, there is at most one connection and at most one
timer (`one_connection`).
-/

namespace Optiflow

namespace NotificationSocket

/-- At most one of the sockets is connecting or open. -/
def State.OneLive (s : State) : Prop :=
  ∀ i j, i < s.created → j < s.created → (s.sockets i).live = true → (s.sockets j).live = true → i = j

/-- Every socket that was created has had its close event. -/
def State.quiet (s : State) : Bool := (List.range s.created).all fun i => (s.sockets i).fired

/-- `connect` is called with a token only when no close event is still to come. -/
def connectsQuietly (s : State) : Event → Bool
  | .connect token => token = "" || s.quiet
  | _ => true

variable {s s' : State} {i j : ℕ} {token : String} {f : Socket → Socket}

theorem State.outstanding_iff : s.outstanding i = true ↔ i < s.created ∧ (s.sockets i).fired = false := by
  simp [State.outstanding]

theorem State.quiet_iff : s.quiet = true ↔ ∀ i, ¬s.outstanding i = true := by
  simp [State.quiet, State.outstanding]

/-! ## The sockets after an update -/

section Fields

@[simp] theorem live_closed {b : Bool} : (⟨.closed, b⟩ : Socket).live = false := rfl

@[simp] theorem live_connecting {b : Bool} : (⟨.connecting, b⟩ : Socket).live = true := rfl

@[simp] theorem live_close (x : Socket) : x.close.live = false := by
  unfold Socket.close
  split
  · rfl
  · next h => simpa using h

@[simp] theorem fired_close (x : Socket) : x.close.fired = x.fired := by
  unfold Socket.close
  split <;> rfl

@[simp] theorem sockets_update : (s.update i f).sockets i = f (s.sockets i) := Function.update_self ..

theorem sockets_update_of_ne (h : j ≠ i) : (s.update i f).sockets j = s.sockets j :=
  Function.update_of_ne h ..

@[simp] theorem sockets_clear : s.clearReconnectTimer.sockets = s.sockets := by
  unfold State.clearReconnectTimer
  split <;> rfl

@[simp] theorem created_clear : s.clearReconnectTimer.created = s.created := by
  unfold State.clearReconnectTimer
  split <;> rfl

@[simp] theorem socket_clear : s.clearReconnectTimer.socket = s.socket := by
  unfold State.clearReconnectTimer
  split <;> rfl

@[simp] theorem closedByCaller_clear : s.clearReconnectTimer.closedByCaller = s.closedByCaller := by
  unfold State.clearReconnectTimer
  split <;> rfl

theorem timers_clear_of_handle (h : ∀ x ∈ s.timers, s.reconnectTimer = some x.1) :
    s.clearReconnectTimer.timers = [] := by
  unfold State.clearReconnectTimer
  split
  · next hnone =>
    apply List.eq_nil_iff_forall_not_mem.2
    intro x hx
    have := h x hx
    rw [hnone] at this
    cases this
  · next t ht =>
    apply List.filter_eq_nil_iff.2
    intro x hx
    have : t = x.1 := Option.some.inj (ht.symm.trans (h x hx))
    simp [this]

@[simp] theorem created_closeSocket : s.closeSocket.created = s.created := by
  unfold State.closeSocket
  split <;> rfl

@[simp] theorem timers_closeSocket : s.closeSocket.timers = s.timers := by
  unfold State.closeSocket
  split <;> rfl

@[simp] theorem closedByCaller_closeSocket : s.closeSocket.closedByCaller = s.closedByCaller := by
  unfold State.closeSocket
  split <;> rfl

@[simp] theorem socket_closeSocket : s.closeSocket.socket = s.socket := by
  unfold State.closeSocket
  split <;> simp_all [State.update]

@[simp] theorem token_clear : s.clearReconnectTimer.token = s.token := by
  unfold State.clearReconnectTimer
  split <;> rfl

@[simp] theorem token_openSocket : s.openSocket.token = s.token := by
  unfold State.openSocket
  split <;> simp

@[simp] theorem closedByCaller_openSocket : s.openSocket.closedByCaller = s.closedByCaller := by
  unfold State.openSocket
  split <;> simp

theorem openSocket_of_noToken (h : s.noToken = true) : s.openSocket = s := if_pos h

theorem created_openSocket (h : s.noToken = false) : s.openSocket.created = s.created + 1 := by
  simp [State.openSocket, h]

theorem sockets_openSocket (h : s.noToken = false) :
    s.openSocket.sockets = Function.update s.sockets s.created ⟨.connecting, false⟩ := by
  simp [State.openSocket, h]

theorem noToken_connect (h : token ≠ "") :
    State.noToken { s with token := some token, closedByCaller := false, reconnectAttempt := 0 } =
      false := by
  simp [State.noToken, h]

end Fields

/-! ## What holds in every state -/

/-- A socket that is connecting or open is the one of the field; a timer is pending only when the object
may reconnect and has nothing else to wait for. -/
structure State.Inv (s : State) : Prop where
  one : ∀ i j, s.outstanding i = true → s.outstanding j = true → i = j
  live : ∀ i, i < s.created → (s.sockets i).live = true →
    (s.sockets i).fired = false ∧ s.socket = some i
  pending : ∀ x ∈ s.timers, s.reconnectTimer = some x.1 ∧ s.closedByCaller = false ∧
    ∀ i, ¬s.outstanding i = true
  timers : s.timers.length ≤ 1

theorem inv_start : State.start.Inv where
  one i j hi _ := by simp [State.start, State.outstanding] at hi
  live i hi _ := by simp [State.start] at hi
  pending x hx := by cases hx
  timers := by decide

namespace State.Inv

theorem oneLive (h : s.Inv) : s.OneLive := by
  intro i j hi hj hli hlj
  have hsi : s.socket = some i := (h.live i hi hli).2
  have hsj : s.socket = some j := (h.live j hj hlj).2
  exact Option.some.inj (hsi.symm.trans hsj)

theorem timers_eq_nil (h : s.Inv) (hi : s.outstanding i = true) : s.timers = [] := by
  apply List.eq_nil_iff_forall_not_mem.2
  intro x hx
  exact (h.pending x hx).2.2 i hi

theorem timers_eq_nil_of_closedByCaller (h : s.Inv) (hc : s.closedByCaller = true) : s.timers = [] := by
  apply List.eq_nil_iff_forall_not_mem.2
  intro x hx
  have := (h.pending x hx).2.1
  rw [hc] at this
  cases this

theorem timers_clear (h : s.Inv) : s.clearReconnectTimer.timers = [] :=
  timers_clear_of_handle fun x hx => (h.pending x hx).1

/-- A change of one socket that does not make it live and is not its close event. -/
theorem update (h : s.Inv) (hfired : (f (s.sockets i)).fired = (s.sockets i).fired)
    (hlive : (f (s.sockets i)).live = true → (s.sockets i).live = true) : (s.update i f).Inv := by
  have hf : ∀ j, ((s.update i f).sockets j).fired = (s.sockets j).fired := by
    intro j
    by_cases hj : j = i
    · subst hj
      rw [sockets_update, hfired]
    · rw [sockets_update_of_ne hj]
  have hl : ∀ j, ((s.update i f).sockets j).live = true → (s.sockets j).live = true := by
    intro j
    by_cases hj : j = i
    · subst hj
      rw [sockets_update]
      exact hlive
    · rw [sockets_update_of_ne hj]
      exact id
  have ho : ∀ j, (s.update i f).outstanding j = s.outstanding j := by
    intro j
    unfold State.outstanding
    rw [hf]
    rfl
  constructor
  · intro j k hj hk
    rw [ho] at hj hk
    exact h.one j k hj hk
  · intro j hj hjl
    rw [hf]
    exact h.live j hj (hl j hjl)
  · intro x hx
    simp only [ho]
    exact h.pending x hx
  · exact h.timers

theorem closeSocket (h : s.Inv) : s.closeSocket.Inv := by
  unfold State.closeSocket
  split
  · exact h
  · exact h.update (fired_close _) (by simp)

/-- After `closeSocket` no socket is live. -/
theorem not_live_closeSocket (h : s.Inv) (hi : i < s.created) :
    ¬(s.closeSocket.sockets i).live = true := by
  intro hl
  have hs := (h.closeSocket.live i (by simpa using hi) hl).2
  rw [socket_closeSocket] at hs
  rw [State.closeSocket, hs] at hl
  simp at hl

/-- `openSocket`, when nothing is left of the sockets before. -/
theorem openSocket (h : s.Inv) (hquiet : ∀ i, ¬s.outstanding i = true) : s.openSocket.Inv := by
  by_cases ht : s.noToken = true
  · rwa [openSocket_of_noToken ht]
  · have ht : s.noToken = false := by simpa using ht
    have hnot : ∀ i, i < s.created → ¬(s.sockets i).live = true ∧ (s.sockets i).fired = true := by
      intro i hi
      have hfired : (s.sockets i).fired = true := by
        have := hquiet i
        simpa [State.outstanding, hi] using this
      refine ⟨fun hl => ?_, hfired⟩
      have := (h.live i hi hl).1
      simp [hfired] at this
    have honly : ∀ i, s.openSocket.outstanding i = true → i = s.created := by
      intro i hi
      obtain ⟨hlt, hfired⟩ := State.outstanding_iff.1 hi
      rw [created_openSocket ht] at hlt
      by_contra hne
      rw [sockets_openSocket ht, Function.update_of_ne hne] at hfired
      have := (hnot i (by omega)).2
      simp [hfired] at this
    have htimers : s.openSocket.timers = [] := by
      simp [State.openSocket, ht, h.timers_clear]
    constructor
    · intro i j hi hj
      rw [honly i hi, honly j hj]
    · intro i hi hl
      rw [created_openSocket ht] at hi
      rw [sockets_openSocket ht] at hl ⊢
      by_cases hi' : i = s.created
      · subst hi'
        simp [State.openSocket, ht]
      · rw [Function.update_of_ne hi'] at hl
        exact absurd hl (hnot i (by omega)).1
    · intro x hx
      rw [htimers] at hx
      cases hx
    · simp [htimers]

/-! ### Calls -/

/-- The fields that `connect` sets before it opens a socket. -/
theorem withToken (h : s.Inv) (token : Option String) (n : ℕ) :
    State.Inv { s with token := token, closedByCaller := false, reconnectAttempt := n } where
  one := h.one
  live := h.live
  pending x hx := ⟨(h.pending x hx).1, rfl, (h.pending x hx).2.2⟩
  timers := h.timers

theorem connect (h : s.Inv) (hC : connectsQuietly s (.connect token) = true) :
    (s.connect token).Inv := by
  obtain hempty | hquiet := Bool.or_eq_true_iff.1 hC
  · have hempty : token = "" := of_decide_eq_true hempty
    have hno : State.noToken
        { s with token := some token, closedByCaller := false, reconnectAttempt := 0 } = true := by
      simp [State.noToken, hempty]
    rw [State.connect, openSocket_of_noToken hno]
    exact h.withToken _ _
  · exact (h.withToken _ _).openSocket (State.quiet_iff.1 hquiet)

theorem reconnectWithToken (h : s.Inv) : (s.reconnectWithToken token).Inv := by
  have ht : State.Inv { s with token := some token } := ⟨h.one, h.live, h.pending, h.timers⟩
  unfold State.reconnectWithToken
  dsimp only
  split
  · exact ht
  · exact ht.closeSocket

theorem close (h : s.Inv) : s.close.Inv := by
  -- The flag alone breaks the invariant while a timer is pending; the timer goes next.
  let t : State := { s with closedByCaller := true }.clearReconnectTimer
  have htimers : t.timers = [] := timers_clear_of_handle fun x hx => (h.pending x hx).1
  have ht : t.Inv := by
    constructor
    · simpa [t, State.outstanding] using h.one
    · simpa [t] using h.live
    · intro x hx
      rw [htimers] at hx
      cases hx
    · simp [htimers]
  have hclosed := ht.closeSocket
  constructor
  · exact hclosed.one
  · intro i hi hl
    have hi : i < t.created := by simpa [State.close, t] using hi
    exact absurd hl (ht.not_live_closeSocket hi)
  · intro x hx
    have hx : x ∈ t.closeSocket.timers := hx
    rw [timers_closeSocket, htimers] at hx
    cases hx
  · exact hclosed.timers

/-! ### Handlers -/

theorem closed (h : s.Inv) (hi : s.outstanding i = true) :
    (s.update i fun _ => ⟨.closed, true⟩).onclose.Inv := by
  let t := s.update i fun _ => ⟨.closed, true⟩
  have hquiet : ∀ j, ¬t.outstanding j = true := by
    intro j hj
    obtain ⟨hlt, hfired⟩ := State.outstanding_iff.1 hj
    by_cases hji : j = i
    · subst hji
      simp [t] at hfired
    · rw [sockets_update_of_ne hji] at hfired
      exact hji (h.one j i (State.outstanding_iff.2 ⟨hlt, hfired⟩) hi)
  have htimers : t.timers = [] := h.timers_eq_nil hi
  have hnot : ∀ j, j < t.created → ¬(t.sockets j).live = true := by
    intro j hj hl
    by_cases hji : j = i
    · subst hji
      simp [t] at hl
    · rw [sockets_update_of_ne hji] at hl
      have hfired := (h.live j hj hl).1
      exact hji (h.one j i (State.outstanding_iff.2 ⟨hj, hfired⟩) hi)
  unfold State.onclose
  split
  · exact ⟨fun j _ hj => absurd hj (hquiet j), fun j hj hl => absurd hl (hnot j hj),
      by simp [show (s.update i _).timers = [] from htimers],
      by simp [show (s.update i _).timers = [] from htimers]⟩
  · next hcaller =>
    have hcaller : t.closedByCaller = false := by simpa using hcaller
    constructor
    · intro j k hj
      exact absurd hj (hquiet j)
    · intro j hj hl
      exact absurd hl (hnot j hj)
    · intro x hx
      obtain rfl | hx := List.mem_cons.1 hx
      · exact ⟨rfl, hcaller, hquiet⟩
      · rw [show (s.update i _).timers = [] from htimers] at hx
        cases hx
    · simp [State.scheduleReconnect, show (s.update i _).timers = [] from htimers]

theorem timer {t : ℕ} (h : s.Inv) (ht : t ∈ s.timers.map Prod.fst) :
    State.Inv (State.openSocket { s with timers := s.timers.filter fun x => x.1 ≠ t }) := by
  obtain ⟨x, hx, rfl⟩ := List.mem_map.1 ht
  obtain ⟨hhandle, hcaller, hquiet⟩ := h.pending x hx
  have hrest : State.Inv { s with timers := s.timers.filter fun y => y.1 ≠ x.1 } :=
    { one := h.one
      live := h.live
      pending := fun y hy => h.pending y (List.mem_of_mem_filter hy)
      timers := Nat.le_trans (List.length_filter_le ..) h.timers }
  exact hrest.openSocket hquiet

end State.Inv

/-! ### Steps and runs -/

theorem inv_step (h : s.Inv) {e : Event} (hC : connectsQuietly s e = true)
    (hs : step s e = some s') : s'.Inv := by
  cases e with
  | connect token =>
    obtain rfl := Option.some.inj hs
    exact h.connect hC
  | reconnectWithToken token =>
    obtain rfl := Option.some.inj hs
    exact h.reconnectWithToken
  | close =>
    obtain rfl := Option.some.inj hs
    exact h.close
  | opened i =>
    obtain ⟨hi, ⟨⟩⟩ := Option.ite_none_right_eq_some.1 hs
    have hready : (s.sockets i).ready = .connecting := by simpa using (Bool.and_eq_true_iff.1 hi).2
    have := h.update (f := fun x => { x with ready := .open }) (i := i) rfl
      fun _ => by simp [Socket.live, hready]
    exact ⟨this.one, this.live, this.pending, this.timers⟩
  | lost i =>
    obtain ⟨hi, ⟨⟩⟩ := Option.ite_none_right_eq_some.1 hs
    exact h.update rfl (by simp [Socket.live])
  | error i =>
    obtain ⟨hi, ⟨⟩⟩ := Option.ite_none_right_eq_some.1 hs
    exact h.closeSocket
  | closed i =>
    obtain ⟨hi, ⟨⟩⟩ := Option.ite_none_right_eq_some.1 hs
    exact h.closed (Bool.and_eq_true_iff.1 hi).1
  | timer t =>
    obtain ⟨ht, ⟨⟩⟩ := Option.ite_none_right_eq_some.1 hs
    exact h.timer (by simpa using ht)

theorem inv_run {es : List Event}
    (h : browser.Reaches (fun s e => connectsQuietly s e = true) .start es s) : s.Inv :=
  h.invariant (I := fun _ s => s.Inv) inv_start fun _ _ _ _ hI hC hs => inv_step hI hC hs

/-- Only `connect` and a timer create a socket. -/
theorem created_step (hI : s.Inv) (hclosed : s.closedByCaller = true) {e : Event}
    (he : ∀ token, e ≠ .connect token) (hs : step s e = some s') :
    s'.closedByCaller = true ∧ s'.created = s.created := by
  cases e with
  | connect token => exact absurd rfl (he token)
  | reconnectWithToken token =>
    obtain rfl := Option.some.inj hs
    simp [State.reconnectWithToken, hclosed]
  | close =>
    obtain rfl := Option.some.inj hs
    simp [State.close]
  | opened i =>
    obtain ⟨_, ⟨⟩⟩ := Option.ite_none_right_eq_some.1 hs
    exact ⟨hclosed, rfl⟩
  | lost i =>
    obtain ⟨_, ⟨⟩⟩ := Option.ite_none_right_eq_some.1 hs
    exact ⟨hclosed, rfl⟩
  | error i =>
    obtain ⟨_, ⟨⟩⟩ := Option.ite_none_right_eq_some.1 hs
    simp [State.onerror, hclosed]
  | closed i =>
    obtain ⟨_, ⟨⟩⟩ := Option.ite_none_right_eq_some.1 hs
    have hcaller : (s.update i fun _ => ⟨.closed, true⟩).closedByCaller = true := hclosed
    rw [State.onclose, if_pos hcaller]
    exact ⟨hclosed, rfl⟩
  | timer t =>
    obtain ⟨ht, _⟩ := Option.ite_none_right_eq_some.1 hs
    rw [hI.timers_eq_nil_of_closedByCaller hclosed] at ht
    cases ht

/-- Nothing is created between a `close` and the next `connect`. -/
theorem created_run {newer : List Event}
    (hI : s.Inv) (hclosed : s.closedByCaller = true)
    (h : browser.Reaches (fun s e => connectsQuietly s e = true) s newer s')
    (hnewer : ∀ token, .connect token ∉ newer) :
    s'.Inv ∧ s'.closedByCaller = true ∧ s'.created = s.created := by
  induction h with
  | refl => exact ⟨hI, hclosed, rfl⟩
  | step h hC hs ih =>
    obtain ⟨hI', hclosed', hcreated⟩ := ih fun token hmem => hnewer token (List.mem_cons_of_mem _ hmem)
    obtain ⟨hclosed'', hcreated'⟩ := created_step hI' hclosed'
      (fun token he => hnewer token (by rw [he]; exact List.mem_cons_self)) hs
    exact ⟨inv_step hI' hC hs, hclosed'', hcreated'.trans hcreated⟩

/-- When the close event of a socket comes after a `connect`, a timer opens one more socket. -/
theorem reconnect_run (hcaller : s.closedByCaller = false) (hno : s.noToken = false)
    (hi : s.outstanding i = true) (hl : ¬(s.sockets i).live = true) :
    ∃ t s', browser.Reaches System.Any s [.timer t, .closed i] s' ∧ s'.created = s.created + 1 ∧
      (s'.sockets s.created).live = true ∧
      ∀ j, j < s.created → j ≠ i → s'.sockets j = s.sockets j := by
  let s₁ := (s.update i fun _ => ⟨.closed, true⟩).scheduleReconnect
  let s₂ : State := { s₁ with timers := s₁.timers.filter fun x => x.1 ≠ s.timersSet }
  have hno₂ : s₂.noToken = false := hno
  have hclosed : browser.step s (.closed i) = some s₁ := by
    have hcaller : ¬(s.update i fun _ => ⟨.closed, true⟩).closedByCaller = true := by
      simpa [State.update] using hcaller
    simp [browser, step, hi, hl, State.onclose, hcaller, s₁]
  have htimer : browser.step s₁ (.timer s.timersSet) = some s₂.openSocket :=
    if_pos (by simp [s₁, State.scheduleReconnect, State.update])
  refine ⟨s.timersSet, _, .step (.step .refl trivial hclosed) trivial htimer,
    created_openSocket hno₂, ?_, ?_⟩
  · rw [sockets_openSocket hno₂, show s₂.created = s.created from rfl, Function.update_self,
      live_connecting]
  · intro j hj hji
    have hne : j ≠ s₂.created := Nat.ne_of_lt hj
    rw [sockets_openSocket hno₂, Function.update_of_ne hne]
    exact sockets_update_of_ne (s := s) (f := fun _ => ⟨.closed, true⟩) hji

/-- A `connect` before the close event of an earlier socket, and the way to two connections. -/
theorem two_live (htoken : token ≠ "") (hi : s.outstanding i = true) :
    ∃ es s', browser.Reaches System.Any (s.connect token) es s' ∧ ¬s'.OneLive := by
  have hno := noToken_connect (s := s) htoken
  obtain ⟨hlt, hfired⟩ := State.outstanding_iff.1 hi
  have hcreated : (s.connect token).created = s.created + 1 := created_openSocket hno
  have hsockets : (s.connect token).sockets =
      Function.update s.sockets s.created ⟨.connecting, false⟩ := sockets_openSocket hno
  have hold : (s.connect token).sockets i = s.sockets i := by
    rw [hsockets, Function.update_of_ne (by omega)]
  have hnew : (s.connect token).sockets s.created = ⟨.connecting, false⟩ := by
    rw [hsockets, Function.update_self]
  by_cases hl : (s.sockets i).live = true
  · refine ⟨[], _, .refl, fun hone => ?_⟩
    have := hone i s.created (by omega) (by omega) (by rw [hold, hl]) (by rw [hnew, live_connecting])
    omega
  · have hcaller : (s.connect token).closedByCaller = false := by simp [State.connect]
    have hno' : (s.connect token).noToken = false := by simp [State.connect, State.noToken, htoken]
    obtain ⟨t, s', hrun, hcreated', hlive, hrest⟩ := reconnect_run hcaller hno' (i := i)
      (State.outstanding_iff.2 ⟨by omega, by rw [hold, hfired]⟩) (by rw [hold]; exact hl)
    refine ⟨_, s', hrun, fun hone => ?_⟩
    have hfirst : (s'.sockets s.created).live = true := by
      rw [hrest s.created (by omega) (by omega), hnew, live_connecting]
    have := hone s.created (s.connect token).created (by omega) (by omega) hfirst hlive
    omega

/-- In every run in which no `connect` comes before the close event of an earlier socket, at most one
socket is connecting or open, at most one timer is pending, and nothing is created from a `close` to the
next `connect`.  Any other `connect` can be followed by two connections. -/
theorem one_connection {es : List Event} {s : State}
    (h : browser.Reaches (fun s e => connectsQuietly s e = true) .start es s) :
    s.OneLive ∧ s.timers.length ≤ 1 ∧
    (∀ newer s', browser.Reaches (fun s e => connectsQuietly s e = true) s.close newer s' →
      (∀ token, .connect token ∉ newer) → s'.created = s.created) ∧
    ∀ token, ¬connectsQuietly s (.connect token) = true →
      ∃ newer s', browser.Reaches System.Any (s.connect token) newer s' ∧ ¬s'.OneLive := by
  have hI := inv_run h
  refine ⟨hI.oneLive, hI.timers, ?_, ?_⟩
  · intro newer s' hrun hnewer
    have hcreated : s.close.created = s.created := by simp [State.close]
    rw [← hcreated]
    exact (created_run hI.close (by simp [State.close]) hrun hnewer).2.2
  · intro token hC
    have hC : ¬token = "" ∧ ¬s.quiet = true := by simpa [connectsQuietly] using hC
    have : ∃ i, s.outstanding i = true := by
      by_contra hnone
      exact hC.2 (State.quiet_iff.2 fun i hi => hnone ⟨i, hi⟩)
    obtain ⟨i, hi⟩ := this
    exact two_live hC.1 hi

/-- The connection is lost and opened again by the timer, then closed; the last close event comes later. -/
theorem one_connection_reopened :
    ∃ s, browser.Reaches (fun s e => connectsQuietly s e = true) .start
        [.opened 1, .timer 0, .closed 0, .lost 0, .opened 0, .connect "t"] s ∧
      (s.OneLive ∧ s.timers.length ≤ 1) ∧
      (∃ s', browser.Reaches (fun s e => connectsQuietly s e = true) s.close
        [.reconnectWithToken "u", .closed 1] s' ∧ s'.created = s.created) ∧
      ∃ newer s', browser.Reaches System.Any (s.connect "t") newer s' ∧ ¬s'.OneLive := by
  obtain ⟨s, hs, hP⟩ := browser.exists_reaches connectsQuietly .start
    [.connect "t", .opened 0, .lost 0, .closed 0, .timer 0, .opened 1]
    (fun s => (browser.run s.close [.closed 1, .reconnectWithToken "u"]).isSome &&
      browser.runMeets connectsQuietly s.close [.closed 1, .reconnectWithToken "u"] &&
      !connectsQuietly s (.connect "t")) (by decide)
  obtain ⟨hP, hconnect⟩ := Bool.and_eq_true_iff.1 hP
  obtain ⟨hsome, hmeets⟩ := Bool.and_eq_true_iff.1 hP
  obtain ⟨s', hrun⟩ := Option.isSome_iff_exists.1 hsome
  have hs' := System.reaches_of_run hrun hmeets
  obtain ⟨hone, htimers, hclose, htwo⟩ := one_connection hs
  exact ⟨s, hs, ⟨hone, htimers⟩, ⟨s', hs', hclose _ _ hs' (by simp)⟩, htwo "t" (by simpa using hconnect)⟩

/-- `close` and `connect` while the close event of the first socket is still to come: it starts a
reconnect beside the second socket. -/
theorem connects_too_soon :
    ∃ s, browser.Reaches System.Any .start
        [.timer 0, .closed 0, .connect "t", .close, .opened 0, .connect "t"] s ∧ ¬s.OneLive := by
  obtain ⟨s, hs, hP⟩ := browser.exists_reaches (fun _ _ => true) .start
    [.connect "t", .opened 0, .close, .connect "t", .closed 0, .timer 0]
    (fun s => s.created = 3 && (s.sockets 1).live && (s.sockets 2).live) (by decide)
  refine ⟨s, hs.mono fun _ _ _ => trivial, fun hone => ?_⟩
  simp only [Bool.and_eq_true, decide_eq_true_eq] at hP
  have := hone 1 2 (by omega) (by omega) hP.1.2 hP.2
  omega

end NotificationSocket

end Optiflow
