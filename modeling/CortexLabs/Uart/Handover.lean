import CortexLabs.Device.Run
import CortexLabs.Uart.Managed

/-! The manager and its driver over whole runs: from the initialization on, whatever interrupts,
reads and requests to stop follow. -/

namespace CortexLabs.Uart

open Device Errno Relation

section Runs

variable {callback mgr dev : Nat} {d d' : Driver} {e e' : ManagedEnv}

/-! ### Steps -/

theorem Balanced.taken (h : Balanced callback mgr dev d e) :
    Balanced callback mgr dev d.taken e := by
  rcases h with h | ⟨i, j, h, hrest⟩
  · exact .inl { h with attached := h.attached.driver rfl rfl }
  · exact .inr ⟨i, j, { h with attached := h.attached.driver rfl rfl }, hrest⟩

theorem rxManagerRead_keeps (mgr dst maxLen : Nat) (m : RxManager) :
    (rxManagerRead mgr dst maxLen m).2.dev = m.dev ∧
    (rxManagerRead mgr dst maxLen m).2.driverOwned = m.driverOwned := by
  unfold rxManagerRead
  split
  · exact ⟨rfl, rfl⟩
  · exact ⟨rfl, rfl⟩

theorem Balanced.read (h : Balanced callback mgr dev d e) (memory : Memory) (dst maxLen : Nat) :
    Balanced callback mgr dev d
      { e with manager := (rxManagerRead mgr dst maxLen e.manager).2, memory } := by
  obtain ⟨hdev, howned⟩ := rxManagerRead_keeps mgr dst maxLen e.manager
  have hattached : Attached callback mgr dev d e → Attached callback mgr dev d
      { e with manager := (rxManagerRead mgr dst maxLen e.manager).2, memory } :=
    fun h => { h with dev := hdev.trans h.dev }
  rcases h with h | ⟨i, j, h, hrest⟩
  · refine .inl { h with attached := hattached h.attached, owned := ?_ }
    rw [howned]
    exact h.owned
  · refine .inr ⟨i, j, { h with
      attached := hattached h.attached, currentOwned := ?_, next := ?_ }, hrest⟩
    · rw [howned]
      exact h.currentOwned
    · rw [howned]
      exact h.next

theorem Balanced.disable (h : Balanced callback mgr dev d e) :
    Balanced callback mgr dev (lab20UartRxDisable d).2
      (if (lab20UartRxDisable d).1 = 0 then { e with trace := e.trace ++ [.stopRequested] }
        else e) := by
  unfold lab20UartRxDisable
  split
  · exact h
  split
  · exact h
  next hidle _ =>
  rcases h with h | ⟨i, j, h, hrest⟩
  · exact absurd h.idle hidle
  refine .inr ⟨i, j, ?_, hrest⟩
  have hattached : Attached callback mgr dev d.stop
      { e with trace := e.trace ++ [.stopRequested] } :=
    { h.attached with stops := Monitor.conforms_snoc.mpr ⟨h.attached.stops, trivial⟩ }
  refine { h with attached := hattached, running := nofun, stopping := fun _ => ?_ }
  exact Monitor.after_snoc _ _ _

theorem Balanced.step {s s' : Driver × ManagedEnv} (h : Balanced callback mgr dev s.1 s.2)
    (hs : ManagedStep callback mgr dev s s') : Balanced callback mgr dev s'.1 s'.2 := by
  cases hs with
  | isr he =>
    have hsafe : Safe (managed callback mgr) (fun _ => Balanced callback mgr dev)
        (fun _ _ => True) _ [] _ := managed_isr h.taken
    exact (hsafe.sound he).1 _ rfl
  | read dst maxLen d e => exact h.read _ dst maxLen
  | disable d e => exact h.disable

/-! ### The initialization -/

theorem lab20UartCallbackSet_ok {userData : Nat}
    (h : lab20UartCallbackSet d callback userData = (0, d')) :
    d.state = .idle ∧ d' = { d with callback, userData } := by
  unfold lab20UartCallbackSet at h
  split at h
  · simp [ebusy] at h
  · next hset => exact ⟨by_contra fun hstate => hset (.inl hstate), (Prod.mk.inj h).2.symm⟩

theorem lab20UartRxEnable_ok {buf len : Nat} {timeout : Int}
    (h : lab20UartRxEnable d buf len timeout = (0, d')) : d' = d.enable buf len := by
  unfold lab20UartRxEnable at h
  split at h
  · simp [einval] at h
  split at h
  · simp [enotsup] at h
  split at h
  · split at h <;> simp [ebusy, einval] at h
  · exact (Prod.mk.inj h).2.symm

theorem rxManagerInit_balanced {ready : Bool} {m m0 : RxManager} {memory memory0 : Memory}
    {d0 : Driver} (h : rxManagerInit callback ready mgr dev m memory d = (0, m0, memory0, d0)) :
    Balanced callback mgr dev d0 ⟨memory0, m0, [], []⟩ := by
  unfold rxManagerInit at h
  split at h
  · simp [einval] at h
  next hargs =>
  split at h
  · simp [enodev] at h
  rcases hset : lab20UartCallbackSet d callback mgr with ⟨ret, d1⟩
  rw [hset] at h
  dsimp only at h
  split at h
  · next hret => exact absurd (Prod.mk.inj h).1 hret
  next hret =>
  obtain ⟨-, rfl⟩ := lab20UartCallbackSet_ok (by rw [hset, not_not.mp hret])
  rcases henable : lab20UartRxEnable { d with callback, userData := mgr } (driverBuf mgr 0)
    rxDriverSize sysForeverUs with ⟨ret', d2⟩
  rw [henable] at h
  dsimp only at h
  split at h
  · next hret' => exact absurd (Prod.mk.inj h).1 hret'
  next hret' =>
  obtain rfl := lab20UartRxEnable_ok (by rw [henable, not_not.mp hret'])
  obtain ⟨-, rfl, -, rfl⟩ := h
  refine .inr ⟨0, 1, ⟨⟨fun hmgr => hargs (.inl hmgr), rfl, rfl, rfl, nofun, Monitor.Conforms.nil⟩,
    .inl ⟨rfl, rfl⟩, nofun, nofun, rfl, rfl, Nat.le_refl _, Nat.zero_le _, rfl,
    .inl ⟨rfl, rfl⟩⟩, Nat.zero_lt_succ _, ?_⟩
  exact ⟨fun _ => rfl, fun _ => rfl⟩

/-! ### Runs -/

/-- The flags are set exactly for the buffers in the driver's fields. -/
theorem Balanced.owned_iff (h : Balanced callback mgr dev d e) (k : Nat) (hk : k < rxDriverCount) :
    e.manager.driverOwned k = true ↔
      d.currentBuf = driverBuf mgr k ∨ d.nextBuf = driverBuf mgr k := by
  have hnull : ∀ k, null ≠ driverBuf mgr k := fun k => (driverBuf_ne_null mgr k).symm
  rcases h with h | ⟨i, j, h, -⟩
  · simp [h.owned k hk, h.fields.1, h.fields.2, hnull k]
  have hcases : k = i ∨ k = j := by
    have hpair := h.pair
    unfold Pair at hpair
    unfold rxDriverCount at hk
    omega
  have hij := h.pair.ne
  rw [h.currentBuf, driverBuf_inj]
  rcases hcases with rfl | rfl
  · simp [h.currentOwned]
  · rcases h.next with ⟨hnext, hfree⟩ | ⟨hnext, -, howned⟩
    · simp [hfree, hnext, hnull, hij]
    · simp [howned, hnext]

theorem Balanced.attached (h : Balanced callback mgr dev d e) : Attached callback mgr dev d e := by
  rcases h with h | ⟨i, j, h, -⟩
  · exact h.attached
  · exact h.attached

theorem stops_after_iff (t : List Observation) :
    stops.after t = true ↔
      .stopRequested ∈ t ∨ ∃ v, .stateRead v ∈ t ∧ v &&& stateRxor ≠ 0 := by
  induction t using List.reverseRecOn with
  | nil => simp [stops]
  | append_singleton t o ih =>
    rw [Monitor.after_snoc]
    cases o with
    | stopRequested => simp [stops]
    | stateRead v =>
      rw [stops_stateRead, ih]
      simp only [List.mem_append, List.mem_singleton, reduceCtorEq, or_false,
        Observation.stateRead.injEq]
      grind
    | enabled | supplied | event | dataRead | stored => simpa [stops] using ih

/-- After a successful initialization, between interrupts, a buffer is marked as the driver's
exactly when the driver holds it; no event has been handled with an error; and a session is closed
only once a stop has been requested or an overrun reported. -/
theorem managed_ownership {ready : Bool} {m m0 : RxManager} {memory memory0 : Memory}
    {d0 : Driver}
    (hinit : rxManagerInit callback ready mgr dev m memory d = (0, m0, memory0, d0))
    (hrun : ReflTransGen (ManagedStep callback mgr dev) (d0, ⟨memory0, m0, [], []⟩) (d', e')) :
    (∀ i < rxDriverCount, e'.manager.driverOwned i = true ↔
      d'.currentBuf = driverBuf mgr i ∨ d'.nextBuf = driverBuf mgr i) ∧
    (∀ h ∈ e'.handled, h.2 = true) ∧
    ∀ fn bytes pre post, e'.trace = pre ++ .event fn .rxDisabled bytes :: post →
      .stopRequested ∈ pre ∨ ∃ v, .stateRead v ∈ pre ∧ v &&& stateRxor ≠ 0 := by
  have hstep : ∀ s s' : Driver × ManagedEnv, Balanced callback mgr dev s.1 s.2 →
      ManagedStep callback mgr dev s s' → Balanced callback mgr dev s'.1 s'.2 :=
    fun _ _ h hs => h.step hs
  have h : Balanced callback mgr dev d' e' :=
    run_invariant hstep hrun (rxManagerInit_balanced hinit)
  refine ⟨h.owned_iff, h.attached.handled, fun fn bytes pre post htrace => ?_⟩
  exact (stops_after_iff pre).mp (h.attached.stops pre _ post htrace)

end Runs

/-! ### A run that can be computed -/

/-- Registers that always read the same. -/
def steady (callback mgr : Nat) (status data : Word) : (o : Op) → ManagedEnv → Ans o × ManagedEnv
  | .readState, e => (status, { e with trace := e.trace ++ [.stateRead status] })
  | .readData, e => (data, { e with trace := e.trace ++ [.dataRead data] })
  | .store address b, e => ((), { e with
      memory := Function.update e.memory address b
      trace := e.trace ++ [.stored address b] })
  | .call fn dev evt userData d, e => e.deliver callback mgr fn dev evt userData d

theorem steady_handles (callback mgr : Nat) (status data : Word) :
    Handles (managed callback mgr) (steady callback mgr status data) := by
  intro e o
  cases o with
  | readState | readData | store | call => rfl

/-- The manager at 100 after its initialization. -/
def managerOpened : Int × RxManager × Memory × Driver :=
  rxManagerInit 1 true 100 1 .zero (fun _ => 0) .start

/-- The first interrupt requests the second buffer and receives a byte. -/
def managerLent : Driver × ManagedEnv :=
  (lab20UartIsr 1 managerOpened.2.2.2.taken).run (steady 1 100 2 65)
    ⟨managerOpened.2.2.1, managerOpened.2.1, [], []⟩

/-- Both buffers are the driver's then, and the manager says so. -/
theorem managed_ownership_lent : managerLent.1.currentPos = 1 ∧
    ∀ i < rxDriverCount, managerLent.2.manager.driverOwned i = true := by
  obtain ⟨t, he⟩ : ∃ t, Exec (managed 1 100) (lab20UartIsr 1 managerOpened.2.2.2.taken)
      ⟨managerOpened.2.2.1, managerOpened.2.1, [], []⟩ t (some managerLent.1) managerLent.2 :=
    (steady_handles 1 100 2 65).exec _ _
  have hisr : ManagedStep 1 100 1 (managerOpened.2.2.2, ⟨managerOpened.2.2.1, managerOpened.2.1,
      [], []⟩) (managerLent.1, managerLent.2) := .isr he
  have hopened : rxManagerInit 1 true 100 1 .zero (fun _ => 0) .start =
      (0, managerOpened.2.1, managerOpened.2.2.1, managerOpened.2.2.2) := rfl
  refine ⟨rfl, fun i hi => ?_⟩
  refine ((managed_ownership hopened (.single hisr)).1 i hi).mpr ?_
  rcases i with _ | _ | i
  · exact .inl rfl
  · exact .inr rfl
  · simp only [rxDriverCount] at hi
    omega

end CortexLabs.Uart
