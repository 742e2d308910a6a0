import CortexLabs.Uart.Manager
import CortexLabs.Uart.Client

/-! The driver with the receive manager as its client.  Between interrupts the manager's ownership
flags say which of its buffers are in the driver's fields; within one, they follow the driver from
event to event, so that a request always finds the buffer that has just been released. -/

namespace CortexLabs.Uart

open Device Relation

/-- Memory, the manager, what has been observed, and the events that were emitted, each with whether
the manager handled it without an error of its own. -/
structure ManagedEnv where
  memory : Memory
  manager : RxManager
  trace : List Observation
  handled : List (UartEvent × Bool)

/-- A stop has been requested, or an overrun reported, when a session is closed. -/
def stops : Monitor Bool Observation where
  start := false
  next
    | _, .stopRequested => true
    | s, .stateRead v => s || v &&& stateRxor ≠ 0
    | s, _ => s
  allowed
    | s, .event _ .rxDisabled _ => s = true
    | _, _ => True

theorem stops_stateRead {s : Bool} {v : Word} :
    stops.next s (.stateRead v) = true ↔ s = true ∨ v &&& stateRxor ≠ 0 := by
  rw [show stops.next s (.stateRead v) = (s || decide (v &&& stateRxor ≠ 0)) from rfl,
    Bool.or_eq_true, decide_eq_true_iff]

section Composed

variable (callback mgr : Nat)

/-- A call of the driver's callback: `rx_uart_callback`, when that is what it is, for the manager
at `mgr`. -/
def ManagedEnv.deliver (e : ManagedEnv) (fn dev : Nat) (evt : UartEvent) (userData : Nat)
    (d : Driver) : Driver × ManagedEnv :=
  let shown := e.trace ++ [Observation.event fn evt (evt.bytes e.memory)]
  if fn = callback ∧ userData = mgr then
    let r := rxUartCallback dev mgr evt e.memory e.manager d
    let taken := decide (mgr ≠ null ∧ dev = e.manager.dev) &&
      !rejects mgr evt e.memory e.manager d
    (r.2, ⟨e.memory, r.1, shown, e.handled ++ [(evt, taken)]⟩)
  else (d, ⟨e.memory, e.manager, shown, e.handled ++ [(evt, false)]⟩)

/-- What surrounds the interrupt service routine when the manager is its client. -/
abbrev managed : Behavior Op Ans where
  State := ManagedEnv
  answer e
    | .readState, v, e' => e' = { e with trace := e.trace ++ [.stateRead v] }
    | .readData, v, e' => e' = { e with trace := e.trace ++ [.dataRead v] }
    | .store address b, _, e' => e' = { e with
        memory := Function.update e.memory address b
        trace := e.trace ++ [.stored address b] }
    | .call fn dev evt userData d, d', e' => (d', e') = e.deliver callback mgr fn dev evt userData d
  torn _ _ _ := False

/-- Memory after `bytes` have been copied to `dst`. -/
def copyOut (memory : Memory) (dst : Nat) (bytes : List Byte) : Memory := fun a =>
  if dst ≤ a then bytes.getD (a - dst) (memory a) else memory a

/-- An interrupt, a call of `rx_manager_read`, or one of `uart_rx_disable`. -/
inductive ManagedStep (dev : Nat) : Driver × ManagedEnv → Driver × ManagedEnv → Prop
  | isr {d d' : Driver} {e e' : ManagedEnv} {t : List (Event (managed callback mgr))} :
      Exec (managed callback mgr) (lab20UartIsr dev d.taken) e t (some d') e' →
      ManagedStep dev (d, e) (d', e')
  | read (dst maxLen : Nat) (d : Driver) (e : ManagedEnv) :
      ManagedStep dev (d, e) (d, { e with
        manager := (rxManagerRead mgr dst maxLen e.manager).2
        memory := copyOut e.memory dst (rxManagerRead mgr dst maxLen e.manager).1 })
  | disable (d : Driver) (e : ManagedEnv) :
      ManagedStep dev (d, e) ((lab20UartRxDisable d).2,
        if (lab20UartRxDisable d).1 = 0 then { e with trace := e.trace ++ [.stopRequested] } else e)

variable {callback mgr} {dev : Nat}

/-- The driver's callback is the manager's, and the manager has handled every event so far. -/
structure Attached (callback mgr dev : Nat) (d : Driver) (e : ManagedEnv) : Prop where
  place : mgr ≠ null
  callback : d.callback = callback
  userData : d.userData = mgr
  dev : e.manager.dev = dev
  handled : ∀ h ∈ e.handled, h.2 = true
  stops : stops.Conforms e.trace

/-- Buffer `i` is the driver's current buffer, and buffer `j` its next one or the manager's. -/
structure Lent (callback mgr dev : Nat) (d : Driver) (e : ManagedEnv) (i j : Nat) : Prop where
  attached : Attached callback mgr dev d e
  pair : Pair i j
  running : d.state ≠ .idle
  stopping : d.state = .stopping → Uart.stops.after e.trace = true
  currentBuf : d.currentBuf = driverBuf mgr i
  currentLen : d.currentLen = rxDriverSize
  reported : d.reported ≤ d.currentPos
  filled : d.currentPos ≤ rxDriverSize
  currentOwned : e.manager.driverOwned i = true
  next : d.nextBuf = null ∧ e.manager.driverOwned j = false ∨
    d.nextBuf = driverBuf mgr j ∧ d.nextLen = rxDriverSize ∧ e.manager.driverOwned j = true

/-- No session is open, and the manager has its buffers back. -/
structure Returned (callback mgr dev : Nat) (d : Driver) (e : ManagedEnv) : Prop where
  attached : Attached callback mgr dev d e
  idle : d.state = .idle
  fields : d.currentBuf = null ∧ d.nextBuf = null
  owned : ∀ i < rxDriverCount, e.manager.driverOwned i = false

/-- What holds between interrupts: the next buffer is missing only until the first request. -/
def Balanced (callback mgr dev : Nat) (d : Driver) (e : ManagedEnv) : Prop :=
  Returned callback mgr dev d e ∨ ∃ i j, Lent callback mgr dev d e i j ∧
    d.currentPos < rxDriverSize ∧ (d.initialRequest = true ↔ d.nextBuf = null)

/-! ### Events -/

section Rules

variable {α : Type} {Q : List (Event (managed callback mgr)) → α → ManagedEnv → Prop}
  {C : List (Event (managed callback mgr)) → ManagedEnv → Prop}
  {t : List (Event (managed callback mgr))} {e : ManagedEnv}

/-- The environment after an event that the manager handles. -/
def ManagedEnv.handle (e : ManagedEnv) (callback : Nat) (evt : UartEvent) (m : RxManager) :
    ManagedEnv :=
  { e with
    manager := m
    trace := e.trace ++ [.event callback evt (evt.bytes e.memory)]
    handled := e.handled ++ [(evt, true)] }

theorem deliver_eq {d d' : Driver} {evt : UartEvent} {m : RxManager} (hplace : mgr ≠ null)
    (hdev : e.manager.dev = dev) {owned : Nat → Bool}
    (h : Takes mgr evt e.memory e.manager d m d' owned) :
    e.deliver callback mgr callback dev evt mgr d = (d', e.handle callback evt m) := by
  have hroute : mgr ≠ null ∧ dev = e.manager.dev := ⟨hplace, hdev.symm⟩
  rw [ManagedEnv.deliver, if_pos ⟨rfl, rfl⟩, rxUartCallback, if_pos hroute, h.event, h.accepted,
    decide_eq_true hroute]
  rfl

/-- An event goes to the manager, which changes the driver as `rx_manager_event` does. -/
theorem managed_emit {d d' : Driver} {evt : UartEvent} {m : RxManager}
    {f : Driver → IsrProgram α} (h : Attached callback mgr dev d e)
    {owned : Nat → Bool}
    (hm : Takes mgr evt e.memory e.manager { d with inCallback := true } m d' owned)
    (hf : ∀ t, Safe (managed callback mgr) Q C (f { d' with inCallback := false }) t
      (e.handle callback evt m)) :
    Safe (managed callback mgr) Q C (lab20UartEmit dev d evt >>= f) t e := by
  obtain ⟨hplace, rfl, rfl, hdev, -, -⟩ := h
  refine ⟨nofun, fun d1 e1 ha => ?_⟩
  obtain ⟨rfl, rfl⟩ := Prod.mk.inj (ha.trans (deliver_eq hplace hdev hm))
  exact hf _

theorem managed_readState {f : Word → IsrProgram α}
    (h : ∀ v t, Safe (managed callback mgr) Q C (f v) t
      { e with trace := e.trace ++ [.stateRead v] }) :
    Safe (managed callback mgr) Q C (readState >>= f) t e := by
  refine ⟨nofun, ?_⟩
  rintro v _ rfl
  exact h v _

theorem managed_receive {address : Nat} {f : Unit → IsrProgram α} {b : Word → Byte}
    (h : ∀ v t, Safe (managed callback mgr) Q C (f ()) t { e with
      memory := Function.update e.memory address (b v)
      trace := e.trace ++ [.dataRead v] ++ [.stored address (b v)] }) :
    Safe (managed callback mgr) Q C (readData >>= fun v => store address (b v) >>= f) t e := by
  refine ⟨nofun, ?_⟩
  rintro v _ rfl
  refine ⟨nofun, ?_⟩
  rintro _ _ rfl
  exact h v _

end Rules

variable {d : Driver} {e : ManagedEnv} {i j : Nat}

theorem Attached.driver {d' : Driver} (h : Attached callback mgr dev d e)
    (hcb : d'.callback = d.callback) (hud : d'.userData = d.userData) :
    Attached callback mgr dev d' e :=
  { h with callback := hcb.trans h.callback, userData := hud.trans h.userData }

theorem Attached.handle {d' : Driver} {evt : UartEvent} {m : RxManager}
    (h : Attached callback mgr dev d e) (hcb : d'.callback = d.callback)
    (hud : d'.userData = d.userData) (hdev : m.dev = e.manager.dev)
    (hallowed : evt = .rxDisabled → Uart.stops.after e.trace = true) :
    Attached callback mgr dev d' (e.handle callback evt m) := by
  refine ⟨h.place, hcb.trans h.callback, hud.trans h.userData, hdev.trans h.dev, ?_, ?_⟩
  · intro x hx
    rcases List.mem_append.mp hx with hx | hx
    · exact h.handled x hx
    · rw [List.mem_singleton.mp hx]
  · refine Monitor.conforms_snoc.mpr ⟨h.stops, ?_⟩
    cases evt with
    | rxDisabled => exact hallowed rfl
    | rxBufRequest | rxRdy | rxBufReleased | rxStopped => trivial

theorem stops_handle {evt : UartEvent} {m : RxManager} :
    stops.after (e.handle callback evt m).trace = stops.after e.trace := by
  rw [ManagedEnv.handle, Monitor.after_snoc]
  rfl

/-- A session goes on through an event that leaves the ownership of both buffers alone. -/
theorem Lent.handle {d' : Driver} {evt : UartEvent} {m : RxManager}
    (h : Lent callback mgr dev d e i j) (hdev : m.dev = e.manager.dev)
    (howned : m.driverOwned = e.manager.driverOwned) (hevt : evt ≠ .rxDisabled)
    (hd : d'.callback = d.callback ∧ d'.userData = d.userData ∧ d'.state = d.state)
    (hcur : d'.currentBuf = d.currentBuf ∧ d'.currentLen = d.currentLen)
    (hpos : d'.reported ≤ d'.currentPos ∧ d'.currentPos = d.currentPos)
    (hnext : d'.nextBuf = d.nextBuf ∧ d'.nextLen = d.nextLen) :
    Lent callback mgr dev d' (e.handle callback evt m) i j := by
  obtain ⟨hcb, hud, hstate⟩ := hd
  refine ⟨h.attached.handle hcb hud hdev fun he => absurd he hevt, h.pair, ?_, ?_,
    hcur.1.trans h.currentBuf, hcur.2.trans h.currentLen, hpos.1, ?_, ?_, ?_⟩
  · rw [hstate]
    exact h.running
  · rw [hstate, stops_handle]
    exact h.stopping
  · rw [hpos.2]
    exact h.filled
  · rw [ManagedEnv.handle, howned]
    exact h.currentOwned
  · rw [ManagedEnv.handle, hnext.1, hnext.2, howned]
    exact h.next

section Session

variable {Q : List (Event (managed callback mgr)) → Driver → ManagedEnv → Prop}
  {C : List (Event (managed callback mgr)) → ManagedEnv → Prop}
  {t : List (Event (managed callback mgr))}

/-- What an event handled by the manager leaves of the fields that decide how the routine goes
on. -/
structure Kept (d d' : Driver) : Prop where
  state : d'.state = d.state
  initialRequest : d'.initialRequest = d.initialRequest
  currentPos : d'.currentPos = d.currentPos
  nextBuf : d'.nextBuf = d.nextBuf

theorem managed_report {f : Driver → IsrProgram Driver} (h : Lent callback mgr dev d e i j)
    (hf : ∀ d' e' t, Lent callback mgr dev d' e' i j → d'.currentPos = d'.reported → Kept d d' →
      stops.after e'.trace = stops.after e.trace → Safe (managed callback mgr) Q C (f d') t e') :
    Safe (managed callback mgr) Q C (reportCurrent dev d >>= f) t e := by
  unfold reportCurrent
  split
  · next hrep =>
    rw [pure_bind]
    exact hf d e t h hrep ⟨rfl, rfl, rfl, rfl⟩ rfl
  have hspan : d.reported + (d.currentPos - d.reported) ≤ rxDriverSize := by
    have := h.reported
    have := h.filled
    omega
  obtain ⟨m, hm⟩ := takes_ready mgr e.memory
    { d with reported := d.currentPos, inCallback := true } e.manager h.pair.left h.currentOwned
    hspan
  rw [← h.currentBuf] at hm
  refine managed_emit (h.attached.driver rfl rfl) hm fun t => hf _ _ _ ?_ rfl
    ⟨rfl, rfl, rfl, rfl⟩ stops_handle
  exact h.handle hm.dev hm.driverOwned nofun ⟨rfl, rfl, rfl⟩ ⟨rfl, rfl⟩ ⟨Nat.le_refl _, rfl⟩
    ⟨rfl, rfl⟩

/-- The end of a session: the driver has cleared its fields, and the buffers of `left` are still
to be released. -/
structure Unlent (callback mgr dev : Nat) (d : Driver) (e : ManagedEnv) (left : List Nat) : Prop where
  attached : Attached callback mgr dev d e
  stopping : d.state = .stopping
  stopped : Uart.stops.after e.trace = true
  fields : d.currentBuf = null ∧ d.nextBuf = null
  distinct : left.Nodup
  bound : ∀ k ∈ left, k < rxDriverCount
  owned : ∀ k < rxDriverCount, e.manager.driverOwned k = true ↔ k ∈ left

theorem managed_release {k : Nat} {l : List Nat} {f : Driver → IsrProgram Driver}
    (h : Unlent callback mgr dev d e (k :: l))
    (hf : ∀ d' e' t, Unlent callback mgr dev d' e' l →
      Safe (managed callback mgr) Q C (f d') t e') :
    Safe (managed callback mgr) Q C (releaseBuffer dev d (driverBuf mgr k) >>= f) t e := by
  rw [releaseBuffer, if_pos (driverBuf_ne_null mgr k)]
  have hk : k < rxDriverCount := h.bound k List.mem_cons_self
  obtain ⟨m, hm⟩ := takes_released mgr e.memory { d with inCallback := true } e.manager hk
    ((h.owned k hk).mpr List.mem_cons_self)
  refine managed_emit h.attached hm fun t => hf _ _ _ ⟨h.attached.handle rfl rfl hm.dev nofun,
    h.stopping, by rw [stops_handle]; exact h.stopped, h.fields, h.distinct.of_cons,
    fun k' hk' => h.bound k' (List.mem_cons_of_mem _ hk'), fun k' hk' => ?_⟩
  rw [ManagedEnv.handle, hm.driverOwned]
  have hnotin : k ∉ l := (List.nodup_cons.mp h.distinct).1
  by_cases hkk : k' = k
  · subst hkk
    rw [Function.update_self]
    simp [hnotin]
  · rw [Function.update_of_ne hkk, h.owned k' hk', List.mem_cons]
    simp [hkk]

theorem managed_close (h : Unlent callback mgr dev d e []) :
    Safe (managed callback mgr) (fun _ => Balanced callback mgr dev) C
      (lab20UartEmit dev { d with state := .idle } .rxDisabled) t e := by
  rw [← bind_pure (lab20UartEmit dev { d with state := .idle } .rxDisabled)]
  have hattached : Attached callback mgr dev { d with state := .idle } e :=
    h.attached.driver rfl rfl
  obtain ⟨m, hm⟩ := takes_disabled mgr e.memory { d with state := .idle, inCallback := true }
    e.manager
  refine managed_emit hattached hm fun t => .inl ⟨hattached.handle rfl rfl hm.dev
    fun _ => h.stopped, rfl, h.fields, fun k hk => ?_⟩
  rw [ManagedEnv.handle, hm.driverOwned]
  simpa using h.owned k hk

theorem managed_giveBack (h : Lent callback mgr dev d e i j) (hstop : d.state = .stopping) :
    Safe (managed callback mgr) (fun _ => Balanced callback mgr dev) C (giveBack dev d) t e := by
  have hattached : Attached callback mgr dev { d with
      currentBuf := null
      nextBuf := null
      currentLen := 0
      currentPos := 0
      reported := 0
      nextLen := 0 } e := h.attached.driver rfl rfl
  have hother : ∀ k < rxDriverCount, k = i ∨ k = j := by
    intro k hk
    have := h.pair
    unfold Pair at this
    unfold rxDriverCount at hk
    omega
  unfold giveBack
  dsimp only
  rw [h.currentBuf]
  rcases h.next with ⟨hnext, hfree⟩ | ⟨hnext, -, howned⟩
  · refine managed_release (k := i) (l := []) ⟨hattached, hstop, h.stopping hstop, ⟨rfl, rfl⟩,
      by simp, List.forall_mem_singleton.mpr h.pair.left, fun k hk => ?_⟩ fun d' e' t h' => ?_
    · rcases hother k hk with rfl | rfl
      · simp [h.currentOwned]
      · simp [hfree, h.pair.ne.symm]
    · rw [releaseBuffer, if_neg (not_not.mpr hnext), pure_bind]
      exact managed_close h'
  · rw [hnext]
    refine managed_release (k := i) (l := [j]) ⟨hattached, hstop, h.stopping hstop, ⟨rfl, rfl⟩,
      by simpa using h.pair.ne, List.forall_mem_cons.mpr
        ⟨h.pair.left, List.forall_mem_singleton.mpr h.pair.symm.left⟩,
      fun k hk => ?_⟩ fun d' e' t h' => managed_release h' fun d' e' t h' => managed_close h'
    rcases hother k hk with rfl | rfl
    · simp [h.currentOwned]
    · simp [howned]

theorem managed_finish (h : Lent callback mgr dev d e i j)
    (hstops : stops.after e.trace = true) (reason : Nat) :
    Safe (managed callback mgr) (fun _ => Balanced callback mgr dev) C (finishRx dev d reason)
      t e := by
  have hrest : ∀ d e t, Lent callback mgr dev d e i j → d.state = .stopping →
      Safe (managed callback mgr) (fun _ => Balanced callback mgr dev) C
        (reportCurrent dev d >>= giveBack dev) t e := by
    intro d e t h hstop
    exact managed_report h fun d' e' t h' _ hkept _ =>
      managed_giveBack h' (hkept.state.trans hstop)
  have h0 : Lent callback mgr dev { d with
      ctrl := d.ctrl &&& ~~~(ctrlRxen ||| ctrlRxirqen)
      intclear := intRx
      state := .stopping
      initialRequest := false
      requestOutstanding := false } e i j :=
    { h with
      attached := h.attached.driver rfl rfl
      running := nofun
      stopping := fun _ => hstops }
  unfold finishRx
  split
  · obtain ⟨m, hm⟩ := takes_stopped mgr e.memory { d with
      ctrl := d.ctrl &&& ~~~(ctrlRxen ||| ctrlRxirqen)
      intclear := intRx
      state := .stopping
      initialRequest := false
      requestOutstanding := false
      inCallback := true } e.manager reason d.currentBuf d.reported (d.currentPos - d.reported)
    refine managed_emit h0.attached hm fun t => hrest _ _ _ ?_ rfl
    exact h0.handle hm.dev hm.driverOwned nofun ⟨rfl, rfl, rfl⟩ ⟨rfl, rfl⟩ ⟨h0.reported, rfl⟩
      ⟨rfl, rfl⟩
  · rw [pure_bind]
    exact hrest _ _ _ h0 rfl

/-! ### Reception -/

/-- A request is answered with the buffer that the manager has. -/
theorem managed_request {f : Driver → IsrProgram Driver} (h : Lent callback mgr dev d e i j)
    (hactive : d.state = .active) (hnext : d.nextBuf = null)
    (hf : ∀ d' e' t, Lent callback mgr dev d' e' i j → d'.nextBuf ≠ null → d'.state = .active →
      d'.initialRequest = d.initialRequest → d'.currentPos = d.currentPos →
      Safe (managed callback mgr) Q C (f d') t e') :
    Safe (managed callback mgr) Q C (requestBuffer dev d >>= f) t e := by
  have hfree : e.manager.driverOwned j = false := by
    rcases h.next with ⟨-, hfree⟩ | ⟨hj, -⟩
    · exact hfree
    · exact absurd (hj.symm.trans hnext) (driverBuf_ne_null mgr j)
  obtain ⟨m, hm⟩ := takes_request mgr e.memory
    { d with requestOutstanding := true, inCallback := true } e.manager h.pair h.currentOwned hfree
    hactive hnext rfl h.currentBuf h.currentLen
  refine managed_emit (h.attached.driver rfl rfl) hm fun t => hf _ _ _ ?_
    (driverBuf_ne_null mgr j) hactive rfl rfl
  refine ⟨h.attached.handle rfl rfl hm.dev nofun, h.pair, h.running, ?_, h.currentBuf,
    h.currentLen, h.reported, h.filled, ?_, .inr ⟨rfl, rfl, ?_⟩⟩
  · rw [stops_handle]
    exact h.stopping
  · rw [ManagedEnv.handle, hm.driverOwned, Function.update_of_ne h.pair.ne]
    exact h.currentOwned
  · rw [ManagedEnv.handle, hm.driverOwned, Function.update_self]

/-- The buffers change places: the one that is released answers the request that follows. -/
theorem managed_swap (h : Lent callback mgr dev d e i j) (hactive : d.state = .active)
    (hnext : d.nextBuf ≠ null) (hinitial : d.initialRequest = false) :
    Safe (managed callback mgr) (fun _ => Balanced callback mgr dev) C (swapBuffers dev d) t e := by
  obtain ⟨hbuf, hlen, howned⟩ := h.next.resolve_left fun hn => hnext hn.1
  unfold swapBuffers
  dsimp only
  rw [h.currentBuf, releaseBuffer, if_pos (driverBuf_ne_null mgr i)]
  obtain ⟨m, hm⟩ := takes_released mgr e.memory { d.swapped with inCallback := true } e.manager
    h.pair.left h.currentOwned
  refine managed_emit (h.attached.driver rfl rfl) hm fun t => ?_
  have hswapped : Lent callback mgr dev { d.swapped with inCallback := false }
      (e.handle callback (.rxBufReleased (driverBuf mgr i)) m) j i := by
    refine ⟨h.attached.handle rfl rfl hm.dev nofun, h.pair.symm, h.running, ?_, hbuf, hlen,
      Nat.le_refl _, Nat.zero_le _, ?_, .inl ⟨rfl, ?_⟩⟩
    · rw [stops_handle]
      exact h.stopping
    · rw [ManagedEnv.handle, hm.driverOwned, Function.update_of_ne h.pair.ne.symm]
      exact howned
    · rw [ManagedEnv.handle, hm.driverOwned, Function.update_self]
  split
  · refine managed_request hswapped hactive rfl fun d' e' t h' hsupplied hstate hfirst hpos => ?_
    rw [if_neg (by rw [hstate]; nofun)]
    refine .inr ⟨j, i, h', ?_, ?_⟩
    · rw [hpos]
      exact Nat.zero_lt_succ _
    · have hdone : d'.initialRequest = false := hfirst.trans hinitial
      simp [hdone, hsupplied]
  · next hidle => exact absurd hactive hidle

theorem Lent.observe {o : Observation} (memory : Memory) (h : Lent callback mgr dev d e i j)
    (ho : ∀ s, stops.allowed s o ∧ (s = true → stops.next s o = true)) :
    Lent callback mgr dev d { e with memory, trace := e.trace ++ [o] } i j := by
  have hattached : Attached callback mgr dev d { e with memory, trace := e.trace ++ [o] } :=
    { h.attached with stops := Monitor.conforms_snoc.mpr ⟨h.attached.stops, (ho _).1⟩ }
  refine { h with attached := hattached, stopping := fun hstop => ?_ }
  rw [Monitor.after_snoc]
  exact (ho _).2 (h.stopping hstop)

theorem managed_receive_safe (h : Lent callback mgr dev d e i j) (hactive : d.state = .active)
    (hnext : d.nextBuf ≠ null) (hinitial : d.initialRequest = false)
    (hpos : d.currentPos < rxDriverSize) :
    Safe (managed callback mgr) (fun _ => Balanced callback mgr dev) C (receive dev d) t e := by
  have hreported := h.reported
  unfold receive
  refine managed_readState fun status t => ?_
  have h1 : Lent callback mgr dev d { e with trace := e.trace ++ [.stateRead status] } i j :=
    h.observe e.memory fun s => ⟨trivial, fun hs => stops_stateRead.mpr (.inl hs)⟩
  split
  · next hoverrun =>
    have hfields : Lent callback mgr dev
        { d with hardwareOverruns := d.hardwareOverruns + 1, intclear := intRxor } _ i j :=
      { h1 with attached := h1.attached.driver rfl rfl }
    refine managed_finish hfields ?_ uartErrorOverrun
    rw [Monitor.after_snoc, stops_stateRead]
    exact .inr hoverrun
  split
  · exact .inr ⟨i, j, h1, hpos, by simp [hinitial, hnext]⟩
  refine managed_receive fun v t => ?_
  have h2 := (h1.observe (o := .dataRead v) e.memory fun s => ⟨trivial, id⟩).observe
    (o := .stored (d.currentBuf + d.currentPos) ((v &&& dataMask).setWidth 8))
    (Function.update e.memory (d.currentBuf + d.currentPos) ((v &&& dataMask).setWidth 8))
    fun s => ⟨trivial, id⟩
  have h3 : Lent callback mgr dev
      { d with currentPos := d.currentPos + 1, hardwareBytes := d.hardwareBytes + 1 } _ i j :=
    { h2 with
      attached := h2.attached.driver rfl rfl
      reported := Nat.le_succ_of_le hreported
      filled := hpos }
  dsimp only
  split
  · next hmore =>
    rw [h.currentLen] at hmore
    exact .inr ⟨i, j, h3, hmore, by simp [hinitial, hnext]⟩
  refine managed_report h3 fun d' e' t h' _ hkept _ => ?_
  have hactive' : d'.state = .active := hkept.state.trans hactive
  have hnext' : d'.nextBuf ≠ null := by
    rw [hkept.nextBuf]
    exact hnext
  rw [if_neg (by simp [hactive', hnext'])]
  exact managed_swap h' hactive' hnext' (hkept.initialRequest.trans hinitial)

/-- The interrupt service routine returns with the flags and the fields in agreement. -/
theorem managed_isr (h : Balanced callback mgr dev d e) :
    Safe (managed callback mgr) (fun _ => Balanced callback mgr dev) C (lab20UartIsr dev d)
      t e := by
  unfold lab20UartIsr
  dsimp only
  rcases h with h | ⟨i, j, h, hpos, hfirst⟩
  · rw [if_neg (by simp [h.idle]), if_pos (by simp [h.idle])]
    exact .inl { h with attached := h.attached.driver rfl rfl }
  have h1 : Lent callback mgr dev
      { d with irqEntries := d.irqEntries + 1, intclear := intRx } e i j :=
    { h with attached := h.attached.driver rfl rfl }
  split
  · next hstop => exact managed_finish h1 (h.stopping hstop) 0
  next hgoing =>
  have hactive : d.state = .active := by
    have hrunning := h.running
    cases hs : d.state with
    | idle => exact absurd hs hrunning
    | active => rfl
    | stopping => exact absurd hs hgoing
  rw [if_neg (not_not.mpr hactive)]
  split
  · next hinitial =>
    have h2 : Lent callback mgr dev { d with
        irqEntries := d.irqEntries + 1
        intclear := intRx
        initialRequest := false } e i j := { h1 with attached := h1.attached.driver rfl rfl }
    refine managed_request h2 hactive (hfirst.mp hinitial)
      fun d' e' t h' hsupplied hstate hinit hpos' => ?_
    rw [if_neg (by rw [hstate]; nofun)]
    refine managed_receive_safe h' hstate hsupplied hinit ?_
    rw [hpos']
    exact hpos
  · next hinitial =>
    refine managed_receive_safe h1 hactive (fun hn => hinitial (hfirst.mpr hn)) ?_ hpos
    simpa using hinitial

end Session

end Composed

end CortexLabs.Uart
