import CortexLabs.Uart.Driver

/-! The receive manager: two buffers of eight bytes that it lends to the driver in turn, and a ring
of 64 bytes from which the application reads.  `RxManager` holds the fields of `struct rx_manager`
except its buffers, which are in memory: on the target they follow its first field, a pointer.  The
ring is a queue of at most 64 bytes, of which a put that does not fit stores what does. -/

namespace CortexLabs.Uart

open Device Errno

abbrev rxDriverCount : Nat := 2

abbrev rxDriverSize : Nat := 8

abbrev rxRingSize : Nat := 64

structure RxManager where
  dev : Nat
  driverOwned : Nat → Bool
  appRing : List Byte
  enabled : Bool
  readyEvents : Word
  requestEvents : Word
  releasedEvents : Word
  disabledEvents : Word
  stoppedEvents : Word
  bytesReceived : Word
  bytesBuffered : Word
  bytesRead : Word
  droppedBytes : Word
  lastStopReason : Word
  lastError : Int

/-- A manager with every field zero, and an empty ring. -/
def RxManager.zero : RxManager :=
  ⟨null, fun _ => false, [], false, 0, 0, 0, 0, 0, 0, 0, 0, 0, 0, 0⟩

/-- The address of `driver_buf[i]` of the manager at `mgr`. -/
def driverBuf (mgr i : Nat) : Nat := mgr + 4 + i * rxDriverSize

def bufferIndex (mgr buf : Nat) : Option Nat :=
  (List.range rxDriverCount).find? fun i => buf = driverBuf mgr i

/-- `ring_buf_put`: the ring, and how many bytes it has taken. -/
def ringBufPut (ring data : List Byte) : List Byte × Nat :=
  let copied := min data.length (rxRingSize - ring.length)
  (ring ++ data.take copied, copied)

/-- `ring_buf_get`: the bytes taken from the ring, and the rest of it. -/
def ringBufGet (ring : List Byte) (limit : Nat) : List Byte × List Byte :=
  (ring.take limit, ring.drop limit)

/-- `rx_manager_init` of the manager at `mgr`, with `callback` the address of `rx_uart_callback`.
`m` is unused, since all of it is overwritten, unless a check on the arguments fails. -/
def rxManagerInit (callback : Nat) (ready : Bool) (mgr dev : Nat) (m : RxManager) (memory : Memory)
    (d : Driver) : Int × RxManager × Memory × Driver :=
  if mgr = null ∨ dev = null then (-einval, m, memory, d)
  else if !ready then (-enodev, m, memory, d)
  else
    let m := { RxManager.zero with dev }
    let memory := memory.write (driverBuf mgr 0)
      (Vector.replicate (rxDriverCount * rxDriverSize) (0 : Byte))
    let (ret, d) := lab20UartCallbackSet d callback mgr
    if ret ≠ 0 then (ret, { m with lastError := ret }, memory, d)
    else
      let m := { m with driverOwned := Function.update m.driverOwned 0 true, enabled := true }
      let (ret, d) := lab20UartRxEnable d (driverBuf mgr 0) rxDriverSize sysForeverUs
      if ret ≠ 0 then
        (ret, { m with
            driverOwned := Function.update m.driverOwned 0 false
            enabled := false
            lastError := ret }, memory, (lab20UartCallbackSet d null null).2)
      else (ret, m, memory, d)

def rxManagerEvent (mgr : Nat) (evt : UartEvent) (memory : Memory) (m : RxManager) (d : Driver) :
    RxManager × Driver :=
  match evt with
  | .rxRdy buf offset len =>
    match bufferIndex mgr buf with
    | none => ({ m with lastError := -einval }, d)
    | some index =>
      if !m.driverOwned index ∨ offset > rxDriverSize ∨ len > rxDriverSize - offset then
        ({ m with lastError := -einval }, d)
      else
        let (ring, copied) := ringBufPut m.appRing (memory.bytes (buf + offset) len)
        ({ m with
          appRing := ring
          readyEvents := m.readyEvents + 1
          bytesReceived := m.bytesReceived + BitVec.ofNat 32 len
          bytesBuffered := m.bytesBuffered + BitVec.ofNat 32 copied
          droppedBytes := m.droppedBytes + (BitVec.ofNat 32 len - BitVec.ofNat 32 copied) }, d)
  | .rxBufRequest =>
    let m := { m with requestEvents := m.requestEvents + 1 }
    match (List.range rxDriverCount).find? fun i => !m.driverOwned i with
    | none => ({ m with lastError := -enobufs }, d)
    | some available =>
      let m := { m with driverOwned := Function.update m.driverOwned available true }
      let (ret, d) := lab20UartRxBufRsp d (driverBuf mgr available) rxDriverSize
      if ret ≠ 0 then
        ({ m with
          driverOwned := Function.update m.driverOwned available false
          lastError := ret }, d)
      else (m, d)
  | .rxBufReleased buf =>
    match bufferIndex mgr buf with
    | none => ({ m with lastError := -einval }, d)
    | some index =>
      if !m.driverOwned index then ({ m with lastError := -einval }, d)
      else ({ m with
        driverOwned := Function.update m.driverOwned index false
        releasedEvents := m.releasedEvents + 1 }, d)
  | .rxDisabled => ({ m with enabled := false, disabledEvents := m.disabledEvents + 1 }, d)
  | .rxStopped reason _ _ _ => ({ m with
      stoppedEvents := m.stoppedEvents + 1
      lastStopReason := BitVec.ofNat 32 reason
      lastError := -eio }, d)

/-- Whether `rx_manager_event` takes an error branch of its own: it sets `last_error`, although the
driver has not reported a stop. -/
def rejects (mgr : Nat) (evt : UartEvent) (memory : Memory) (m : RxManager) (d : Driver) : Bool :=
  match evt with
  | .rxStopped _ _ _ _ => false
  | _ => (rxManagerEvent mgr evt memory { m with lastError := 0 } d).1.lastError ≠ 0

def rxUartCallback (dev mgr : Nat) (evt : UartEvent) (memory : Memory) (m : RxManager)
    (d : Driver) : RxManager × Driver :=
  if mgr ≠ null ∧ dev = m.dev then rxManagerEvent mgr evt memory m d else (m, d)

/-- `rx_manager_read`: the bytes stored at `dst`, of which the function returns the number. -/
def rxManagerRead (mgr dst maxLen : Nat) (m : RxManager) : List Byte × RxManager :=
  if mgr = null ∨ dst = null ∨ maxLen = 0 then ([], m)
  else
    let (bytes, ring) := ringBufGet m.appRing (min maxLen rxRingSize)
    (bytes, { m with appRing := ring, bytesRead := m.bytesRead + BitVec.ofNat 32 bytes.length })

/-! ### Events that are handled without an error -/

/-- An event is handled without an error: it leaves the driver as `d'` and, of the manager, the
ownership flags as `owned` and the rest of what its errors depend on as it was. -/
structure Takes (mgr : Nat) (evt : UartEvent) (memory : Memory) (m : RxManager) (d : Driver)
    (m' : RxManager) (d' : Driver) (owned : Nat → Bool) : Prop where
  event : rxManagerEvent mgr evt memory m d = (m', d')
  dev : m'.dev = m.dev
  driverOwned : m'.driverOwned = owned
  accepted : rejects mgr evt memory m d = false

section Events

variable {mgr i : Nat} {memory : Memory} {d : Driver}

theorem driverBuf_ne_null (mgr i : Nat) : driverBuf mgr i ≠ null := by
  unfold driverBuf null
  omega

theorem driverBuf_inj {mgr i j : Nat} : driverBuf mgr i = driverBuf mgr j ↔ i = j := by
  unfold driverBuf rxDriverSize
  omega

theorem bufferIndex_driverBuf (hi : i < rxDriverCount) :
    bufferIndex mgr (driverBuf mgr i) = some i := by
  unfold bufferIndex
  simp only [driverBuf_inj]
  rcases i with _ | _ | i
  · rfl
  · rfl
  · simp only [rxDriverCount] at hi
    omega

/-- What is shown of the event for every manager with the same flags holds for one whose
`last_error` is 0, so that the event is not rejected. -/
theorem Takes.intro {evt : UartEvent} {owned : Nat → Bool} {d' : Driver} {m : RxManager}
    (h : ∀ m1 : RxManager, m1.driverOwned = m.driverOwned → ∃ m',
      rxManagerEvent mgr evt memory m1 d = (m', d') ∧ m'.dev = m1.dev ∧ m'.driverOwned = owned ∧
        m'.lastError = m1.lastError) :
    ∃ m', Takes mgr evt memory m d m' d' owned := by
  obtain ⟨m', hevt, hdev, howned, -⟩ := h m rfl
  obtain ⟨m0, hevt0, -, -, herr⟩ := h { m with lastError := 0 } rfl
  refine ⟨m', hevt, hdev, howned, ?_⟩
  cases evt with
  | rxStopped => rfl
  | rxBufRequest | rxRdy | rxBufReleased | rxDisabled =>
    simp only [rejects, hevt0, herr]
    simp

variable (mgr memory d)

theorem takes_ready (m : RxManager) (hi : i < rxDriverCount) (howned : m.driverOwned i = true)
    {offset len : Nat} (hspan : offset + len ≤ rxDriverSize) :
    ∃ m', Takes mgr (.rxRdy (driverBuf mgr i) offset len) memory m d m' d m.driverOwned := by
  refine Takes.intro fun m1 hm1 => ?_
  have hvalid : ¬((!m1.driverOwned i) = true ∨ offset > rxDriverSize ∨
      len > rxDriverSize - offset) := by
    simp only [hm1, howned, Bool.not_true, Bool.false_eq_true, false_or]
    omega
  simp only [rxManagerEvent, bufferIndex_driverBuf hi, if_neg hvalid]
  exact ⟨_, rfl, rfl, hm1, rfl⟩

theorem takes_released (m : RxManager) (hi : i < rxDriverCount)
    (howned : m.driverOwned i = true) :
    ∃ m', Takes mgr (.rxBufReleased (driverBuf mgr i)) memory m d m' d
      (Function.update m.driverOwned i false) := by
  refine Takes.intro fun m1 hm1 => ?_
  simp only [rxManagerEvent, bufferIndex_driverBuf hi, hm1, howned, Bool.not_true,
    Bool.false_eq_true, if_false]
  exact ⟨_, rfl, rfl, rfl, rfl⟩

theorem takes_disabled (m : RxManager) :
    ∃ m', Takes mgr .rxDisabled memory m d m' d m.driverOwned :=
  Takes.intro fun _ hm1 => ⟨_, rfl, rfl, hm1, rfl⟩

theorem takes_stopped (m : RxManager) (reason buf offset len : Nat) :
    ∃ m', Takes mgr (.rxStopped reason buf offset len) memory m d m' d m.driverOwned :=
  ⟨_, rfl, rfl, rfl, rfl⟩

def Pair (i j : Nat) : Prop := (i = 0 ∧ j = 1) ∨ (i = 1 ∧ j = 0)

theorem Pair.symm {i j : Nat} (h : Pair i j) : Pair j i := by
  unfold Pair at *
  omega

theorem Pair.left {i j : Nat} (h : Pair i j) : i < rxDriverCount := by
  unfold Pair rxDriverCount at *
  omega

theorem Pair.ne {i j : Nat} (h : Pair i j) : i ≠ j := by
  unfold Pair at h
  omega

theorem Pair.not_overlap {i j : Nat} (h : Pair i j) :
    buffersOverlap (driverBuf mgr j) rxDriverSize (driverBuf mgr i) rxDriverSize = false := by
  unfold Pair at h
  unfold buffersOverlap driverBuf rxDriverSize
  split <;> simp <;> omega

/-- The one buffer that the manager owns is supplied to a driver that has requested one. -/
theorem takes_request (m : RxManager) {j : Nat} (hij : Pair i j)
    (howned : m.driverOwned i = true) (hfree : m.driverOwned j = false)
    (hactive : d.state = .active) (hnext : d.nextBuf = null) (hout : d.requestOutstanding = true)
    (hbuf : d.currentBuf = driverBuf mgr i) (hlen : d.currentLen = rxDriverSize) :
    ∃ m', Takes mgr .rxBufRequest memory m d m' { d with
        nextBuf := driverBuf mgr j
        nextLen := rxDriverSize
        requestOutstanding := false } (Function.update m.driverOwned j true) := by
  refine Takes.intro fun m1 hm1 => ?_
  have hfind : ((List.range rxDriverCount).find? fun i => !m1.driverOwned i) = some j := by
    rw [hm1, show List.range rxDriverCount = [0, 1] from rfl]
    rcases hij with ⟨rfl, rfl⟩ | ⟨rfl, rfl⟩
    · simp [howned, hfree]
    · simp [hfree]
  have hargs : ¬(driverBuf mgr j = null ∨ rxDriverSize = 0) := by
    simp [driverBuf_ne_null mgr j]
  have hrsp : lab20UartRxBufRsp d (driverBuf mgr j) rxDriverSize = (0, { d with
      nextBuf := driverBuf mgr j
      nextLen := rxDriverSize
      requestOutstanding := false }) := by
    rw [lab20UartRxBufRsp, if_neg hargs, if_neg (not_not.mpr hactive),
      if_neg (by simp [hnext, hout]), hbuf, hlen, hij.not_overlap, if_neg (by simp)]
  simp only [rxManagerEvent, hfind, hrsp]
  exact ⟨_, rfl, rfl, by rw [hm1], rfl⟩

end Events

end CortexLabs.Uart
