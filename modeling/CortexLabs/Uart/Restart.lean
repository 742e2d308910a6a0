import CortexLabs.Device.Wp
import CortexLabs.Uart.Handover

/-! A second call of `rx_manager_init` on a manager that is in use.  The call clears the manager
before it asks the driver for the callback, and a driver with an open session refuses that, so that
the error leaves a manager that knows nothing of the buffers that the driver still has. -/

namespace CortexLabs.Uart

open Device Errno Relation

/-! ### Outside of the callback -/

section Callback

variable {D : Behavior Op Ans} {dev : Nat} {d : Driver}

/-- Every way through the program ends outside of the callback. -/
def Rests (D : Behavior Op Ans) (p : IsrProgram Driver) : Prop :=
  ∀ s, wp D (fun d _ => d.inCallback = false) p s

theorem rests_ret (h : d.inCallback = false) : Rests D (pure d) := fun _ => h

theorem rests_bind {p : IsrProgram Driver} {f : Driver → IsrProgram Driver} (hp : Rests D p)
    (hf : ∀ d, d.inCallback = false → Rests D (f d)) : Rests D (p >>= f) :=
  fun s => wp_seq (hp s) fun d s hd => hf d hd s

theorem rests_after {α : Type} {p : IsrProgram α} {f : α → IsrProgram Driver}
    (hf : ∀ a, Rests D (f a)) : Rests D (p >>= f) :=
  fun s => wp_seq (wp_any p s) fun a s _ => hf a s

theorem emit_rests (d : Driver) (evt : UartEvent) : Rests D (lab20UartEmit dev d evt) :=
  fun _ _ _ _ => rfl

theorem reportCurrent_rests (h : d.inCallback = false) : Rests D (reportCurrent dev d) := by
  unfold reportCurrent
  split
  · exact rests_ret h
  · exact emit_rests _ _

theorem releaseBuffer_rests (h : d.inCallback = false) (buf : Nat) :
    Rests D (releaseBuffer dev d buf) := by
  unfold releaseBuffer
  split
  · exact emit_rests _ _
  · exact rests_ret h

theorem giveBack_rests (d : Driver) : Rests D (giveBack dev d) := by
  unfold giveBack
  dsimp only
  apply rests_after
  intro d
  apply rests_after
  intro d
  exact emit_rests _ _

theorem finishRx_rests (d : Driver) (reason : Nat) : Rests D (finishRx dev d reason) := by
  unfold finishRx
  dsimp only
  split
  · apply rests_after
    intro d
    apply rests_after
    exact giveBack_rests
  · apply rests_after
    intro d
    apply rests_after
    exact giveBack_rests

theorem swapBuffers_rests (h : d.inCallback = false) : Rests D (swapBuffers dev d) := by
  have hlast : ∀ d : Driver, d.inCallback = false →
      Rests D (if d.state = .stopping then finishRx dev d 0 else pure d) := by
    intro d hd
    split
    · exact finishRx_rests _ _
    · exact rests_ret hd
  unfold swapBuffers
  dsimp only
  apply rests_bind
  · exact releaseBuffer_rests (show d.swapped.inCallback = false from h) _
  intro d hd
  split
  · exact rests_bind (emit_rests _ _) hlast
  · exact rests_bind (rests_ret hd) hlast

theorem receive_rests (h : d.inCallback = false) : Rests D (receive dev d) := by
  unfold receive
  apply rests_after
  intro status
  split
  · exact finishRx_rests _ _
  split
  · exact rests_ret h
  apply rests_after
  intro value
  apply rests_after
  intro _
  dsimp only
  split
  · exact rests_ret h
  apply rests_bind
  · exact reportCurrent_rests h
  intro d hd
  split
  · exact finishRx_rests _ _
  · exact swapBuffers_rests hd

theorem isr_rests (h : d.inCallback = false) : Rests D (lab20UartIsr dev d) := by
  unfold lab20UartIsr
  dsimp only
  split
  · exact finishRx_rests _ _
  split
  · exact rests_ret h
  split
  · apply rests_bind (emit_rests _ _)
    intro d hd
    split
    · exact finishRx_rests _ _
    · exact receive_rests hd
  · exact receive_rests h

end Callback

/-! ### A call on a manager that is in use -/

def RxManager.counters (m : RxManager) : List Word :=
  [m.readyEvents, m.requestEvents, m.releasedEvents, m.disabledEvents, m.stoppedEvents,
    m.bytesReceived, m.bytesBuffered, m.bytesRead, m.droppedBytes]

section Calls

variable {callback mgr dev : Nat} {ready : Bool} {m m' : RxManager} {memory memory' : Memory}
  {d d' : Driver} {e e' : ManagedEnv}

/-- No session is open, or `rx_manager_init` refuses its arguments. -/
def Permitted (d : Driver) (ready : Bool) (mgr dev : Nat) : Prop :=
  d.state = .idle ∨ mgr = null ∨ dev = null ∨ ready = false

/-- A call that has left manager `m`, memory and driver `d` has not disturbed the session of `e`:
the flags of the manager say which buffers the driver has, the ring and the counters are as they
were, and all later events are handled without an error. -/
structure Undisturbed (callback mgr dev : Nat) (e : ManagedEnv) (m : RxManager) (memory : Memory)
    (d : Driver) : Prop where
  owned : ∀ i < rxDriverCount, m.driverOwned i = true ↔
    d.currentBuf = driverBuf mgr i ∨ d.nextBuf = driverBuf mgr i
  ring : m.appRing = e.manager.appRing
  counters : m.counters = e.manager.counters
  later : ∀ d' e', ReflTransGen (ManagedStep callback mgr dev) (d, { e with manager := m, memory })
    (d', e') → ∀ h ∈ e'.handled, h.2 = true

/-- A step of the managed driver, or a further call of `rx_manager_init` that is permitted, with
either pointer as before or NULL. -/
inductive RestartStep (callback mgr dev : Nat) :
    Driver × ManagedEnv → Driver × ManagedEnv → Prop
  | managed {s s' : Driver × ManagedEnv} : ManagedStep callback mgr dev s s' →
      RestartStep callback mgr dev s s'
  | init {ready : Bool} {mgr' dev' : Nat} {d d' : Driver} {e : ManagedEnv} {ret : Int}
      {m : RxManager} {memory : Memory} : mgr' = mgr ∨ mgr' = null → dev' = dev ∨ dev' = null →
      Permitted d ready mgr' dev' →
      rxManagerInit callback ready mgr' dev' e.manager e.memory d = (ret, m, memory, d') →
      RestartStep callback mgr dev (d, e) (d', { e with manager := m, memory })

/-- What holds between interrupts of a manager that may be initialized again. -/
structure Restartable (callback mgr dev : Nat) (s : Driver × ManagedEnv) : Prop where
  balanced : Balanced callback mgr dev s.1 s.2
  outside : s.1.inCallback = false

theorem init_refused (h : mgr = null ∨ dev = null ∨ ready = false) : ∃ ret, ret ≠ 0 ∧
    rxManagerInit callback ready mgr dev m memory d = (ret, m, memory, d) := by
  unfold rxManagerInit
  by_cases hnull : mgr = null ∨ dev = null
  · rw [if_pos hnull]
    exact ⟨_, by decide, rfl⟩
  · rw [if_neg hnull]
    rcases h with h | h | h
    · exact absurd (.inl h) hnull
    · exact absurd (.inr h) hnull
    · rw [h]
      exact ⟨_, by decide, rfl⟩

/-- While a session is open, the call clears the manager and fails. -/
theorem init_busy (hmgr : mgr ≠ null) (hdev : dev ≠ null) (hrunning : d.state ≠ .idle) :
    rxManagerInit callback true mgr dev m memory d =
      (-ebusy, { RxManager.zero with dev, lastError := -ebusy }, memory.write (driverBuf mgr 0)
        (Vector.replicate (rxDriverCount * rxDriverSize) (0 : Byte)), d) := by
  have hargs : ¬(mgr = null ∨ dev = null) := not_or.mpr ⟨hmgr, hdev⟩
  have hset : lab20UartCallbackSet d callback mgr = (-ebusy, d) := if_pos (.inl hrunning)
  rw [rxManagerInit, if_neg hargs, if_neg (by simp), hset]
  exact if_pos (by decide)

theorem callbackSet_idle (hidle : d.state = .idle) (houtside : d.inCallback = false) :
    lab20UartCallbackSet d callback mgr = (0, { d with callback, userData := mgr }) := by
  apply if_neg
  rw [hidle, houtside]
  simp

/-- Without an open session, the first buffer is refused only for want of a callback. -/
theorem rxEnable_idle (d : Driver) (hidle : d.state = .idle) :
    lab20UartRxEnable d (driverBuf mgr 0) rxDriverSize sysForeverUs =
      if d.callback = null then (-einval, d) else (0, d.enable (driverBuf mgr 0) rxDriverSize) := by
  have hbuf : ¬(driverBuf mgr 0 = null ∨ rxDriverSize = 0) := by
    simp [driverBuf_ne_null mgr 0]
  rw [lab20UartRxEnable, if_neg hbuf, if_neg (by simp)]
  by_cases hcallback : d.callback = null
  · rw [if_pos hcallback, if_pos (.inr hcallback), if_neg (not_not.mpr hidle)]
  · have hready : ¬(d.state ≠ .idle ∨ d.callback = null) := by
      rintro (hstate | hnull)
      · exact hstate hidle
      · exact hcallback hnull
    rw [if_neg hcallback, if_neg hready]

/-- Without an open session, the call opens one. -/
theorem init_opens (hcallback : callback ≠ null) (hmgr : mgr ≠ null) (hdev : dev ≠ null)
    (hidle : d.state = .idle) (houtside : d.inCallback = false) :
    ∃ m0 memory0, rxManagerInit callback true mgr dev m memory d = (0, m0, memory0,
      Driver.enable { d with callback, userData := mgr } (driverBuf mgr 0) rxDriverSize) := by
  have hargs : ¬(mgr = null ∨ dev = null) := not_or.mpr ⟨hmgr, hdev⟩
  rw [rxManagerInit, if_neg hargs, if_neg (by simp), callbackSet_idle hidle houtside]
  dsimp only
  rw [if_neg (by simp), rxEnable_idle { d with callback, userData := mgr } hidle, if_neg hcallback]
  exact ⟨_, _, if_neg (by simp)⟩

/-- A call that succeeds has found arguments and a driver with which it can open a session. -/
theorem init_ok (h : rxManagerInit callback ready mgr dev m memory d = (0, m', memory', d')) :
    callback ≠ null ∧ dev ≠ null ∧ d'.state = .active ∧ d'.inCallback = false := by
  unfold rxManagerInit at h
  split at h
  · simp [einval] at h
  next hargs =>
  split at h
  · simp [enodev] at h
  by_cases hset : d.state ≠ .idle ∨ d.inCallback = true
  · rw [lab20UartCallbackSet, if_pos hset] at h
    simp [ebusy] at h
  push Not at hset
  obtain ⟨hidle, houtside⟩ := hset
  rw [callbackSet_idle hidle (Bool.eq_false_iff.mpr houtside)] at h
  dsimp only at h
  rw [if_neg (by simp), rxEnable_idle { d with callback, userData := mgr } hidle] at h
  by_cases hcallback : callback = null
  · rw [if_pos hcallback] at h
    simp [einval] at h
  rw [if_neg hcallback] at h
  obtain ⟨-, -, -, rfl⟩ := h
  exact ⟨hcallback, fun hnull => hargs (.inr hnull), rfl, Bool.eq_false_iff.mpr houtside⟩

/-! ### Runs with further initializations -/

/-- A session that has just been opened, after what has been observed before. -/
theorem Balanced.resume (h : Balanced callback mgr dev d ⟨memory, m, [], []⟩)
    (hactive : d.state = .active) (he : Balanced callback mgr dev d' e) :
    Balanced callback mgr dev d { e with manager := m, memory } := by
  rcases h with h | ⟨i, j, h, hrest⟩
  · rw [h.idle] at hactive
    cases hactive
  have hattached : Attached callback mgr dev d { e with manager := m, memory } :=
    { h.attached with handled := he.attached.handled, stops := he.attached.stops }
  refine .inr ⟨i, j, { h with attached := hattached, stopping := ?_ }, hrest⟩
  rw [hactive]
  exact nofun

theorem restartable_init (h : rxManagerInit callback ready mgr dev m memory d =
    (0, m', memory', d')) : Restartable callback mgr dev (d', ⟨memory', m', [], []⟩) :=
  ⟨rxManagerInit_balanced h, (init_ok h).2.2.2⟩

theorem Restartable.managed {s s' : Driver × ManagedEnv} (h : Restartable callback mgr dev s)
    (hs : ManagedStep callback mgr dev s s') : Restartable callback mgr dev s' := by
  refine ⟨h.balanced.step hs, ?_⟩
  cases hs with
  | isr he => exact wp_sound (isr_rests (d := Driver.taken _) h.outside _) he
  | read => exact h.outside
  | disable d e =>
    unfold lab20UartRxDisable
    split
    · exact h.outside
    split
    · exact h.outside
    · exact h.outside

/-- A call that is permitted either changes nothing or opens a new session. -/
theorem Restartable.permitted {mgr' dev' : Nat} (h : Restartable callback mgr dev (d, e))
    (hcallback : callback ≠ null) (hmgr : mgr' = mgr ∨ mgr' = null)
    (hdev : dev' = dev ∨ dev' = null) (hp : Permitted d ready mgr' dev') {ret : Int}
    (hcall : rxManagerInit callback ready mgr' dev' e.manager e.memory d = (ret, m, memory, d')) :
    ret ≠ 0 ∧ m = e.manager ∧ memory = e.memory ∧ d' = d ∨
      ret = 0 ∧ Restartable callback mgr dev (d', { e with manager := m, memory }) := by
  by_cases hargs : mgr' = null ∨ dev' = null ∨ ready = false
  · obtain ⟨ret', hret', hrefused⟩ : ∃ ret', ret' ≠ 0 ∧
        rxManagerInit callback ready mgr' dev' e.manager e.memory d =
          (ret', e.manager, e.memory, d) := init_refused hargs
    rw [hcall] at hrefused
    obtain ⟨rfl, rfl, rfl, rfl⟩ := hrefused
    exact .inl ⟨hret', rfl, rfl, rfl⟩
  · push Not at hargs
    obtain ⟨hmgr', hdev', hready⟩ := hargs
    obtain rfl := hmgr.resolve_right hmgr'
    obtain rfl := hdev.resolve_right hdev'
    obtain rfl := Bool.ne_false_iff.mp hready
    have hidle : d.state = .idle := by
      rcases hp with hp | hp | hp | hp
      · exact hp
      · exact absurd hp hmgr'
      · exact absurd hp hdev'
      · exact absurd hp hready
    obtain ⟨m0, memory0, hopens⟩ : ∃ m0 memory0,
        rxManagerInit callback true mgr' dev' e.manager e.memory d = (0, m0, memory0, _) :=
      init_opens hcallback hmgr' hdev' hidle h.outside
    rw [hcall] at hopens
    obtain ⟨rfl, -, -, -⟩ := hopens
    obtain ⟨-, -, hactive, houtside⟩ := init_ok hcall
    exact .inr ⟨rfl, (rxManagerInit_balanced hcall).resume hactive h.balanced, houtside⟩

theorem Restartable.step {s s' : Driver × ManagedEnv} (h : Restartable callback mgr dev s)
    (hcallback : callback ≠ null) (hs : RestartStep callback mgr dev s s') :
    Restartable callback mgr dev s' := by
  cases hs with
  | managed hs => exact h.managed hs
  | init hmgr hdev hp hcall =>
    rcases h.permitted hcallback hmgr hdev hp hcall with ⟨-, rfl, rfl, rfl⟩ | ⟨-, h'⟩
    · exact h
    · exact h'

/-- A manager whose flags and driver have not changed is not disturbed. -/
theorem Restartable.undisturbed (h : Restartable callback mgr dev (d, e)) :
    Undisturbed callback mgr dev e e.manager e.memory d := by
  refine ⟨h.balanced.owned_iff, rfl, rfl, fun d' e' hrun => ?_⟩
  have hstep : ∀ s s' : Driver × ManagedEnv, Balanced callback mgr dev s.1 s.2 →
      ManagedStep callback mgr dev s s' → Balanced callback mgr dev s'.1 s'.2 :=
    fun _ _ h hs => h.step hs
  have h' : Balanced callback mgr dev d' e' := run_invariant hstep hrun h.balanced
  exact h'.attached.handled

/-- A call that finds an open session forgets the buffer that the driver is filling. -/
theorem Restartable.disturbed (h : Restartable callback mgr dev (d, e)) (hdev : dev ≠ null)
    (hrunning : d.state ≠ .idle) {ret : Int}
    (hcall : rxManagerInit callback true mgr dev e.manager e.memory d = (ret, m, memory, d')) :
    ret ≠ 0 ∧ ¬Undisturbed callback mgr dev e m memory d' := by
  rw [init_busy h.balanced.attached.place hdev hrunning] at hcall
  obtain ⟨rfl, rfl, rfl, rfl⟩ := hcall
  refine ⟨by decide, fun hu => ?_⟩
  rcases h.balanced with h | ⟨i, j, h, -⟩
  · exact hrunning h.idle
  · exact Bool.false_ne_true ((hu.owned i h.pair.left).mpr (.inl h.currentBuf))

/-- After a successful initialization, in every run of interrupts, reads, requests to stop and
further initializations that are permitted: a call of `rx_manager_init` leaves the session
undisturbed whenever it fails, exactly if it is permitted. -/
theorem init_undisturbed_iff {m0 : RxManager} {memory0 : Memory} {d0 : Driver}
    (hinit : rxManagerInit callback ready mgr dev m memory d = (0, m0, memory0, d0))
    (hrun : ReflTransGen (RestartStep callback mgr dev) (d0, ⟨memory0, m0, [], []⟩) (d', e'))
    {mgr' dev' : Nat} (hmgr : mgr' = mgr ∨ mgr' = null) (hdev : dev' = dev ∨ dev' = null)
    {ready' : Bool} {ret : Int} {m1 : RxManager} {memory1 : Memory} {d1 : Driver}
    (hcall : rxManagerInit callback ready' mgr' dev' e'.manager e'.memory d' =
      (ret, m1, memory1, d1)) :
    (ret ≠ 0 → Undisturbed callback mgr dev e' m1 memory1 d1) ↔
      Permitted d' ready' mgr' dev' := by
  obtain ⟨hcallback, hplace, -, -⟩ := init_ok hinit
  have hstep : ∀ s s', Restartable callback mgr dev s → RestartStep callback mgr dev s s' →
      Restartable callback mgr dev s' := fun _ _ h hs => h.step hcallback hs
  have h : Restartable callback mgr dev (d', e') :=
    run_invariant hstep hrun (restartable_init hinit)
  constructor
  · intro hu
    by_contra hp
    unfold Permitted at hp
    push Not at hp
    obtain ⟨hrunning, hmgr', hdev', hready⟩ := hp
    obtain rfl := hmgr.resolve_right hmgr'
    obtain rfl := hdev.resolve_right hdev'
    obtain rfl := Bool.ne_false_iff.mp hready
    obtain ⟨hret, hdisturbed⟩ := h.disturbed hplace hrunning hcall
    exact hdisturbed (hu hret)
  · intro hp hret
    rcases h.permitted hcallback hmgr hdev hp hcall with ⟨-, rfl, rfl, rfl⟩ | ⟨hzero, -⟩
    · exact h.undisturbed
    · exact absurd hzero hret

end Calls

/-- A second initialization while the driver fills the first buffer. -/
def managerReopened : Int × RxManager × Memory × Driver :=
  rxManagerInit 1 true 100 1 managerOpened.2.1 managerOpened.2.2.1 managerOpened.2.2.2

/-- It fails, and leaves a manager that claims the buffer that the driver has. -/
theorem reopened_disowns : managerOpened.1 = 0 ∧ managerReopened.1 = -ebusy ∧
    managerReopened.2.2.2.currentBuf = driverBuf 100 0 ∧
    ¬Undisturbed 1 100 1 ⟨managerOpened.2.2.1, managerOpened.2.1, [], []⟩ managerReopened.2.1
      managerReopened.2.2.1 managerReopened.2.2.2 := by
  refine ⟨rfl, rfl, rfl, fun h => ?_⟩
  have howned : managerReopened.2.1.driverOwned 0 = true := (h.owned 0 (by decide)).mpr (.inl rfl)
  exact Bool.false_ne_true howned

/-- The same call without a device is refused before it changes anything. -/
theorem reopened_without_device :
    (rxManagerInit 1 true 100 null managerOpened.2.1 managerOpened.2.2.1 managerOpened.2.2.2).1 =
      -einval ∧
    Undisturbed 1 100 1 ⟨managerOpened.2.2.1, managerOpened.2.1, [], []⟩ managerOpened.2.1
      managerOpened.2.2.1 managerOpened.2.2.2 := by
  have hopened : rxManagerInit 1 true 100 1 .zero (fun _ => 0) .start =
      (0, managerOpened.2.1, managerOpened.2.2.1, managerOpened.2.2.2) := rfl
  have hcall : rxManagerInit 1 true 100 null managerOpened.2.1 managerOpened.2.2.1
      managerOpened.2.2.2 = (-einval, managerOpened.2.1, managerOpened.2.2.1,
        managerOpened.2.2.2) := rfl
  have hpermitted : Permitted managerOpened.2.2.2 true 100 null := .inr (.inr (.inl rfl))
  refine ⟨rfl, ?_⟩
  exact (init_undisturbed_iff hopened .refl (.inl rfl) (.inr rfl) hcall).mpr hpermitted (by decide)

end CortexLabs.Uart
