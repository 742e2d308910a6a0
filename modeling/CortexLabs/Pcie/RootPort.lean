import CortexLabs.Pcie.AdapterOrder
import CortexLabs.Pcie.ConfigSpace
import CortexLabs.Pcie.MmioData

/-! The root port: the register slave and the memory bridge, each on a bus of its own, over one
adapter.  Each of the three has been proved right for every behavior of the other two; here they
meet.  A request of either bus has its turn at the adapter between the cycle in which it is asked
for and the cycle in which it is answered, it is answered as the sequential endpoint would in the
order of these turns, and neither bus can keep the other from its turn. -/

namespace CortexLabs.Pcie.RootPort

open Device Clocked
open MmioBridge (Captures ErrorFrom Offering)
open VendorAdapter (Endpoint Completion)

abbrev params : MmioBridge.Params := .default

/-- `labh3_pcie_root_port_wrapper` over the vendor adapter's model. -/
structure Regs where
  cfg : HostBridge.Regs
  mmio : MmioBridge.Regs
  adapter : VendorAdapter.Regs

/-- One cycle of the register bus and of the memory aperture. -/
structure Bus where
  csr : Ahb
  mmio : Ahb

namespace Regs

def reset : Regs := ⟨.reset, .reset, .reset⟩

def adapterInputs (r : Regs) : VendorAdapter.Inputs :=
  ⟨r.cfg.reqValid, r.cfg.reqTypeR, r.cfg.reqBdfR, r.cfg.reqRegR, r.cfg.reqWdataR, r.cfg.cplReady,
    r.mmio.memReqValid, r.mmio.memReqWrite, r.mmio.memReqAddr params, r.mmio.memReqWdata,
    r.mmio.memCplReady⟩

def cfgInputs (r : Regs) (b : Bus) : HostBridge.Inputs :=
  ⟨b.csr.hsel, b.csr.haddr, b.csr.htrans, b.csr.hwrite, b.csr.hsize, b.csr.hwdata, b.csr.hready,
    r.adapter.cfgReqReady, r.adapter.cfgCplValid, r.adapter.cplStatusR, r.adapter.cplRdataR⟩

def mmioInputs (r : Regs) (b : Bus) : MmioBridge.Inputs :=
  ⟨b.mmio.hsel, b.mmio.haddr, b.mmio.htrans, b.mmio.hwrite, b.mmio.hsize, b.mmio.hwdata,
    b.mmio.hready, r.adapter.memReqReady r.adapterInputs, r.adapter.memCplValid,
    r.adapter.cplStatusR, r.adapter.cplRdataR⟩

def step (r : Regs) (b : Bus) : Regs :=
  ⟨r.cfg.step (r.cfgInputs b), r.mmio.step params (r.mmioInputs b), r.adapter.step r.adapterInputs⟩

end Regs

section Run

variable (b : Nat → Bus)

def run : Nat → Regs := states Regs.step .reset b

/-! What each part is fed in a run. -/

def cfgIn (n : Nat) : HostBridge.Inputs := (run b n).cfgInputs (b n)

def mmioIn (n : Nat) : MmioBridge.Inputs := (run b n).mmioInputs (b n)

def adapterIn (n : Nat) : VendorAdapter.Inputs := (run b n).adapterInputs

/-- The requests that the adapter accepts in a cycle, and those that it has accepted before it. -/
def accepts (n : Nat) : List VendorAdapter.Request :=
  VendorAdapter.accepts (run b n).adapter (adapterIn b n)

def accepted (n : Nat) : List VendorAdapter.Request := VendorAdapter.accepted (adapterIn b) n

/-- The endpoint that has served the requests accepted before a cycle. -/
def endpoint (n : Nat) : Endpoint := Endpoint.reset.after (accepted b n)

variable {b}

theorem cfg_run (n : Nat) : (run b n).cfg = HostBridge.regs (cfgIn b) n :=
  states_project Regs.cfg Regs.cfgInputs (fun _ _ => rfl) n

theorem mmio_run (n : Nat) : (run b n).mmio = MmioBridge.regs params (mmioIn b) n := by
  induction n with
  | zero => rfl
  | succ n ih =>
    rw [MmioBridge.regs_succ, ← ih]
    rfl

theorem adapter_run (n : Nat) : (run b n).adapter = VendorAdapter.regs (adapterIn b) n :=
  states_project Regs.adapter (fun r _ => r.adapterInputs) (fun _ _ => rfl) n

end Run

/-! ### Whose turn it is -/

/-- The adapter works on a request, which it will complete after `k` more cycles. -/
inductive Due (a : VendorAdapter.Regs) : Nat → Prop
  | delay : a.state = .delay → a.delayCount.toNat ≤ 2 → Due a (a.delayCount.toNat + 1)
  | cpl : a.state = .cpl → Due a 0

/-- The adapter works on the request of the register slave. -/
structure CfgDue (r : Regs) (k : Nat) : Prop where
  waits : r.cfg.state = .waitCpl
  kind : r.adapter.kind = .cfg
  due : Due r.adapter k

/-- The adapter works on a read of the memory bridge. -/
structure MemDue (r : Regs) (k : Nat) : Prop where
  waits : r.mmio.state = .wait
  kind : r.adapter.kind = .mem
  due : Due r.adapter k

/-- Each bridge waits for a completion exactly when the adapter works on its request. -/
inductive Turn (r : Regs) : Prop
  | free : r.cfg.state = .idle ∨ r.cfg.state = .issue → r.mmio.state ≠ .wait →
      r.adapter.state = .idle → Turn r
  | cfg {k : Nat} : CfgDue r k → r.mmio.state ≠ .wait → Turn r
  | mem {k : Nat} : r.cfg.state = .idle ∨ r.cfg.state = .issue → MemDue r k → Turn r

section Step

variable {r : Regs} {b : Bus} {k : Nat}

theorem Due.busy {a : VendorAdapter.Regs} (h : Due a k) : a.state ≠ .idle := by
  cases h with
  | delay h _ => simp [h]
  | cpl h => simp [h]

theorem Due.le {a : VendorAdapter.Regs} (h : Due a k) : k ≤ 3 := by
  cases h with
  | delay _ h => omega
  | cpl _ => omega

theorem complete_kind (a : VendorAdapter.Regs) : a.complete.kind = a.kind := by
  unfold VendorAdapter.Regs.complete
  cases h : a.kind with
  | cfg =>
    show (a.completeCfg).kind = _
    unfold VendorAdapter.Regs.completeCfg
    split_ifs
    · exact h
    · exact h
    · exact (VendorAdapter.Regs.cfgWriteEffect_kind a).trans h
    · exact h
  | mem =>
    show (a.completeMem).kind = _
    unfold VendorAdapter.Regs.completeMem
    split_ifs <;> exact h

theorem Due.not_cpl {a : VendorAdapter.Regs} (h : Due a (k + 1)) : a.state ≠ .cpl := by
  cases h with
  | delay h _ => simp [h]

theorem Due.cpl_of_zero {a : VendorAdapter.Regs} (h : Due a 0) : a.state = .cpl := by
  cases h with
  | cpl h => exact h

/-- While a completion is due, the adapter only counts. -/
theorem Due.step {a : VendorAdapter.Regs} (h : Due a (k + 1)) (i : VendorAdapter.Inputs) :
    Due (a.step i) k ∧ (a.step i).kind = a.kind := by
  generalize hm : k + 1 = m at h
  cases h with
  | delay hstate hcount =>
    rw [VendorAdapter.step_delay hstate]
    by_cases h0 : a.delayCount = 0
    · obtain rfl : k = 0 := by simpa [h0] using hm
      rw [if_neg (not_not.mpr h0)]
      exact ⟨.cpl a.complete_state, complete_kind a⟩
    · rw [if_pos h0]
      have hless : (a.delayCount - 1).toNat + 1 = k := by bv_omega
      refine ⟨?_, rfl⟩
      rw [← hless]
      exact .delay hstate (by show (a.delayCount - 1).toNat ≤ 2; omega)
  | cpl _ => omega

/-! What a cycle does to each of the three, as the other two stand. -/

theorem cfg_issue (h : r.cfg.state = .issue) :
    (r.step b).cfg.state = if r.adapter.state = .idle then .waitCpl else .issue := by
  show (r.cfg.step (r.cfgInputs b)).state = _
  rw [HostBridge.state_step (by simp [h])]
  by_cases hidle : r.adapter.state = .idle
  · simp [HostBridge.Core.next, HostBridge.Regs.core, h, Regs.cfgInputs,
      VendorAdapter.Regs.cfgReqReady, hidle]
  · simp [HostBridge.Core.next, HostBridge.Regs.core, h, Regs.cfgInputs,
      VendorAdapter.Regs.cfgReqReady, hidle]

theorem cfg_waits (h : r.cfg.state = .waitCpl) (hkind : r.adapter.kind = .cfg) :
    (r.step b).cfg.state = if r.adapter.state = .cpl then .idle else .waitCpl := by
  show (r.cfg.step (r.cfgInputs b)).state = _
  rw [HostBridge.state_step (by simp [h])]
  by_cases hcpl : r.adapter.state = .cpl
  · simp [HostBridge.Core.next, HostBridge.Regs.core, h, Regs.cfgInputs,
      VendorAdapter.Regs.cfgCplValid, hcpl, hkind]
  · simp [HostBridge.Core.next, HostBridge.Regs.core, h, Regs.cfgInputs,
      VendorAdapter.Regs.cfgCplValid, hcpl]

/-- The bridge does not take a completion before its request has been accepted. -/
theorem cfg_asks (h : r.cfg.state = .idle ∨ r.cfg.state = .issue) (hbusy : r.adapter.state ≠ .idle) :
    (r.step b).cfg.state = .idle ∨ (r.step b).cfg.state = .issue := by
  rcases h with h | h
  · exact HostBridge.state_step_idle h
  · exact .inr ((cfg_issue h).trans (if_neg hbusy))

/-- A configuration request wins the adapter over a memory request. -/
theorem memReqReady_iff : (r.mmioInputs b).memReqReady = true ↔
    r.adapter.state = .idle ∧ r.cfg.state ≠ .issue := by
  show r.adapter.memReqReady r.adapterInputs = true ↔ _
  simp [VendorAdapter.Regs.memReqReady, Regs.adapterInputs, HostBridge.Regs.reqValid]

theorem memCplValid_iff : (r.mmioInputs b).memCplValid = true ↔
    r.adapter.state = .cpl ∧ r.adapter.kind = .mem := by
  show r.adapter.memCplValid = true ↔ _
  simp [VendorAdapter.Regs.memCplValid]

theorem mmio_waits (h : r.mmio.state = .wait) (hkind : r.adapter.kind = .mem) :
    (r.step b).mmio.state = .wait ↔ r.adapter.state ≠ .cpl := by
  show (r.mmio.step params (r.mmioInputs b)).state = .wait ↔ _
  rw [MmioBridge.Regs.step, h]
  dsimp only
  by_cases hcpl : r.adapter.state = .cpl
  · rw [if_pos (memCplValid_iff.mpr ⟨hcpl, hkind⟩)]
    split_ifs <;> simp [hcpl]
  · rw [if_neg fun hvalid => hcpl (memCplValid_iff.mp hvalid).1]
    simp [h, hcpl]

/-- The memory bridge begins to wait only when its request is accepted. -/
theorem mmio_step_wait (hwait : r.mmio.state ≠ .wait) (h : (r.step b).mmio.state = .wait) :
    r.mmio.state = .issue ∧ (r.mmioInputs b).memReqReady = true ∧ r.mmio.writeR = false := by
  change (r.mmio.step params (r.mmioInputs b)).state = .wait at h
  rw [MmioBridge.Regs.step] at h
  cases hs : r.mmio.state <;> simp only [hs] at h
  case issue =>
    by_cases hready : (r.mmioInputs b).memReqReady = true
    · rw [if_pos hready] at h
      refine ⟨rfl, hready, ?_⟩
      by_contra hwrite
      rw [if_pos (by simpa using hwrite)] at h
      cases h
    · rw [if_neg hready, hs] at h
      cases h
  case wait => exact absurd hs hwait
  all_goals first
    | cases h
    | (split_ifs at h <;> simp_all [MmioBridge.Regs.capture])

/-- What an idle adapter makes of the requests that it is shown. -/
inductive Taken (r : Regs) (a : VendorAdapter.Regs) : Prop
  | cfg : r.cfg.state = .issue → a.kind = .cfg → Due a 3 → Taken r a
  | read : r.cfg.state ≠ .issue → r.mmio.state = .issue → r.mmio.writeR = false → a.kind = .mem →
      Due a 3 → Taken r a
  | none : r.cfg.state ≠ .issue → (r.mmio.state = .issue → r.mmio.writeR = true) →
      a.state = .idle → Taken r a

theorem adapter_idle (h : r.adapter.state = .idle) : Taken r (r.step b).adapter := by
  show Taken r (r.adapter.step r.adapterInputs)
  rw [VendorAdapter.Regs.step, h]
  dsimp only
  by_cases hcfg : r.cfg.state = .issue
  · have hvalid : (r.adapterInputs.cfgReqValid && r.adapter.cfgReqReady) = true := by
      simp [Regs.adapterInputs, HostBridge.Regs.reqValid, VendorAdapter.Regs.cfgReqReady, hcfg, h]
    rw [if_pos hvalid]
    exact .cfg hcfg rfl (.delay rfl (Nat.le_refl 2))
  · have hvalid : ¬(r.adapterInputs.cfgReqValid && r.adapter.cfgReqReady) = true := by
      simp [Regs.adapterInputs, HostBridge.Regs.reqValid, hcfg]
    rw [if_neg hvalid]
    by_cases hmem : r.mmio.state = .issue
    · have hready : (r.adapterInputs.memReqValid && r.adapter.memReqReady r.adapterInputs) = true := by
        rw [Bool.and_eq_true]
        refine ⟨?_, (memReqReady_iff (b := b)).mpr ⟨h, hcfg⟩⟩
        simp [Regs.adapterInputs, MmioBridge.Regs.memReqValid, hmem]
      rw [if_pos hready, VendorAdapter.Regs.acceptMem]
      by_cases hwrite : r.mmio.writeR = true
      · rw [if_pos (show r.adapterInputs.memReqWrite = true from hwrite)]
        refine .none hcfg (fun _ => hwrite) ?_
        split_ifs <;> exact h
      · rw [if_neg (show ¬r.adapterInputs.memReqWrite = true from hwrite)]
        exact .read hcfg hmem (by simpa using hwrite) rfl (.delay rfl (Nat.le_refl 2))
    · have hnone : ¬(r.adapterInputs.memReqValid && r.adapter.memReqReady r.adapterInputs) = true := by
        simp [Regs.adapterInputs, MmioBridge.Regs.memReqValid, hmem]
      rw [if_neg hnone]
      exact .none hcfg (fun h => absurd h hmem) h

/-- The completion is taken as soon as it is offered. -/
theorem cpl_step (h : r.adapter.state = .cpl)
    (htaken : match r.adapter.kind with
      | .cfg => r.cfg.state = .waitCpl
      | .mem => r.mmio.state = .wait) : (r.step b).adapter.state = .idle := by
  show (r.adapter.step r.adapterInputs).state = .idle
  rw [VendorAdapter.step_cpl h, VendorAdapter.delivers_eq]
  cases hkind : r.adapter.kind <;> rw [hkind] at htaken
  · simp [h, Regs.adapterInputs, HostBridge.Regs.cplReady, htaken]
  · simp [h, Regs.adapterInputs, MmioBridge.Regs.memCplReady, htaken]

theorem CfgDue.step (h : CfgDue r (k + 1)) (b : Bus) : CfgDue (r.step b) k := by
  obtain ⟨hdue, hkind⟩ := h.due.step r.adapterInputs
  exact ⟨(cfg_waits h.waits h.kind).trans (if_neg h.due.not_cpl), hkind.trans h.kind, hdue⟩

theorem CfgDue.done (h : CfgDue r 0) (b : Bus) :
    (r.step b).cfg.state = .idle ∧ (r.step b).adapter.state = .idle := by
  have hcpl := h.due.cpl_of_zero
  refine ⟨(cfg_waits h.waits h.kind).trans (if_pos hcpl), cpl_step hcpl ?_⟩
  rw [h.kind]
  exact h.waits

theorem MemDue.step (h : MemDue r (k + 1)) (b : Bus) : MemDue (r.step b) k := by
  obtain ⟨hdue, hkind⟩ := h.due.step r.adapterInputs
  exact ⟨(mmio_waits h.waits h.kind).mpr h.due.not_cpl, hkind.trans h.kind, hdue⟩

theorem MemDue.done (h : MemDue r 0) (b : Bus) :
    (r.step b).mmio.state ≠ .wait ∧ (r.step b).adapter.state = .idle := by
  have hcpl := h.due.cpl_of_zero
  refine ⟨fun hwait => (mmio_waits h.waits h.kind).mp hwait hcpl, cpl_step hcpl ?_⟩
  rw [h.kind]
  exact h.waits

/-- A configuration request that finds the adapter idle is accepted. -/
theorem cfgDue_accepted (hissue : r.cfg.state = .issue) (hidle : r.adapter.state = .idle)
    (b : Bus) : CfgDue (r.step b) 3 := by
  cases adapter_idle (b := b) hidle with
  | cfg _ hkind hdue => exact ⟨(cfg_issue hissue).trans (if_pos hidle), hkind, hdue⟩
  | read hne _ _ _ _ | none hne _ _ => exact absurd hissue hne

theorem memDue_accepted (hissue : r.mmio.state = .issue) (hread : r.mmio.writeR = false)
    (hready : (r.mmioInputs b).memReqReady = true) : MemDue (r.step b) 3 := by
  obtain ⟨hidle, hne⟩ := memReqReady_iff.mp hready
  cases adapter_idle (b := b) hidle with
  | cfg h _ _ => exact absurd h hne
  | read _ _ _ hkind hdue =>
    refine ⟨?_, hkind, hdue⟩
    show (r.mmio.step params (r.mmioInputs b)).state = .wait
    rw [MmioBridge.Regs.step, hissue]
    dsimp only
    rw [if_pos hready, if_neg (by simp [hread])]
  | none _ hwrite _ => exact absurd ((hwrite hissue).symm.trans hread) (by decide)

theorem turn_free (hcfg : r.cfg.state = .idle ∨ r.cfg.state = .issue) (hwait : r.mmio.state ≠ .wait)
    (hidle : r.adapter.state = .idle) (b : Bus) : Turn (r.step b) := by
  have hmmio := mmio_step_wait (r := r) (b := b) hwait
  cases adapter_idle (b := b) hidle with
  | cfg hissue _ _ =>
    refine .cfg (cfgDue_accepted hissue hidle b) fun h => ?_
    exact (memReqReady_iff.mp (hmmio h).2.1).2 hissue
  | read hne hissue hread _ _ =>
    exact .mem (HostBridge.state_step_idle (hcfg.resolve_right hne))
      (memDue_accepted hissue hread (memReqReady_iff.mpr ⟨hidle, hne⟩))
  | none hne hwrite hidle' =>
    refine .free (HostBridge.state_step_idle (hcfg.resolve_right hne)) (fun h => ?_) hidle'
    obtain ⟨hissue, -, hread⟩ := hmmio h
    exact absurd ((hwrite hissue).symm.trans hread) nofun

/-- While the adapter is busy, no bridge has its request accepted, and the one whose completion is
offered takes it. -/
theorem turn_step (h : Turn r) (b : Bus) : Turn (r.step b) := by
  cases h with
  | free hcfg hwait hidle => exact turn_free hcfg hwait hidle b
  | @cfg k hdue hwait =>
    have hmmio : (r.step b).mmio.state ≠ .wait := fun h =>
      hdue.due.busy (memReqReady_iff.mp (mmio_step_wait hwait h).2.1).1
    cases k with
    | zero => exact .free (.inl (hdue.done b).1) hmmio (hdue.done b).2
    | succ k => exact .cfg (hdue.step b) hmmio
  | @mem k hcfg hdue =>
    have hcfg' := cfg_asks (b := b) hcfg hdue.due.busy
    cases k with
    | zero => exact .free hcfg' (hdue.done b).1 (hdue.done b).2
    | succ k => exact .mem hcfg' (hdue.step b)

end Step

section Runs

variable {b : Nat → Bus} {n a k : Nat}

theorem turn_run (n : Nat) : Turn (run b n) :=
  states_invariant (I := fun _ => Turn) (.free (.inl rfl) (by decide) rfl) (fun _ h => turn_step h _) n

theorem cfgDue_run (k : Nat) {n : Nat} (h : CfgDue (run b n) k) :
    (∀ j ≤ k, CfgDue (run b (n + j)) (k - j)) ∧
      (run b (n + k + 1)).cfg.state = .idle ∧ (run b (n + k + 1)).adapter.state = .idle := by
  have hdue : ∀ j ≤ k, CfgDue (run b (n + j)) (k - j) := by
    intro j hj
    induction j with
    | zero => exact h
    | succ j ih =>
      have hprev := ih (by omega)
      rw [show k - j = k - (j + 1) + 1 by omega] at hprev
      exact hprev.step _
  have hlast := hdue k (Nat.le_refl k)
  rw [Nat.sub_self] at hlast
  exact ⟨hdue, hlast.done _⟩

theorem memDue_run (k : Nat) {n : Nat} (h : MemDue (run b n) k) :
    (∀ j ≤ k, MemDue (run b (n + j)) (k - j)) ∧ (run b (n + k + 1)).adapter.state = .idle := by
  have hdue : ∀ j ≤ k, MemDue (run b (n + j)) (k - j) := by
    intro j hj
    induction j with
    | zero => exact h
    | succ j ih =>
      have hprev := ih (by omega)
      rw [show k - j = k - (j + 1) + 1 by omega] at hprev
      exact hprev.step _
  have hlast := hdue k (Nat.le_refl k)
  rw [Nat.sub_self] at hlast
  exact ⟨hdue, (hlast.done _).2⟩

/-! ### The memory aperture -/

/-- What becomes of the transfer captured in cycle `n`, whose request has its turn in cycle `a`. -/
structure MemoryTurn (b : Nat → Bus) (n a : Nat) : Prop where
  bound : n + 2 ≤ a ∧ a ≤ n + 7
  accepted : accepts b a = [if (mmioIn b n).hwrite
    then .memWrite (mmioIn b n).haddr (mmioIn b (n + 1)).hwdata else .memRead (mmioIn b n).haddr]
  stalls : ∀ k, n + 1 ≤ k → k ≤ (if (mmioIn b n).hwrite then a else a + 4) →
    (run b k).mmio.Stalls
  written : (mmioIn b n).hwrite = true → (run b (a + 1)).mmio.Okay
  hit : (mmioIn b n).hwrite = false → (endpoint b a).Hits (mmioIn b n).haddr →
    (run b (a + 5)).mmio.Okay ∧ (run b (a + 5)).mmio.hrdata = (endpoint b a).scratch
  miss : (mmioIn b n).hwrite = false → ¬(endpoint b a).Hits (mmioIn b n).haddr →
    ErrorFrom params (mmioIn b) (a + 5)

/-- The aperture is mapped to the same addresses of the bus behind it. -/
theorem aperture_addr (addr : Word) :
    params.pcieBusBase + (addr - params.cpuApertureBase) = addr := by
  show (0x60000000 : Word) + (addr - 0x60000000) = addr
  bv_omega

/-- The request of a transfer has its turn at the latest when one configuration request that is on
its way, or overtakes it, has been completed. -/
theorem memory_first (h : Captures params (mmioIn b) n)
    (hlegal : ¬(mmioIn b n).transfer.Refused params) :
    ∃ a ≤ n + 7, First (MmioBridge.accepts (mmioIn b)) (n + 2) a := by
  have hissue : (run b (n + 2)).mmio.state = .issue := by
    rw [mmio_run]
    exact (h.admitted hlegal).state
  have hready : ∀ {m}, n + 2 ≤ m → (run b m).adapter.state = .idle → (run b m).cfg.state = .idle →
      m ≤ n + 7 → ∃ a ≤ n + 7, First (MmioBridge.accepts (mmioIn b)) (n + 2) a := by
    intro m hm hidle hcfg hle
    obtain ⟨a, ha, hfirst⟩ := First.of_happens (MmioBridge.accepts (mmioIn b)) hm
      ((memReqReady_iff (b := b m)).mpr ⟨hidle, by simp [hcfg]⟩)
    exact ⟨a, Nat.le_trans ha hle, hfirst⟩
  cases turn_run (b := b) (n + 2) with
  | free hcfg _ hidle =>
    rcases hcfg with hcfg | hcfg
    · exact hready (Nat.le_refl _) hidle hcfg (by omega)
    · obtain ⟨-, hc, ha⟩ := cfgDue_run 3 (n := n + 3) (cfgDue_accepted hcfg hidle (b (n + 2)))
      exact hready (by omega) ha hc (Nat.le_refl _)
  | @cfg k hdue _ =>
    obtain ⟨-, hc, ha⟩ := cfgDue_run k hdue
    exact hready (by omega) ha hc (by have := hdue.due.le; omega)
  | mem _ hdue => exact absurd (hissue.symm.trans hdue.waits) nofun

theorem memory_accepted (h : Captures params (mmioIn b) n)
    (hlegal : ¬(mmioIn b n).transfer.Refused params)
    (ha : First (MmioBridge.accepts (mmioIn b)) (n + 2) a) :
    accepts b a = [if (mmioIn b n).hwrite then
      .memWrite (mmioIn b n).haddr (mmioIn b (n + 1)).hwdata else .memRead (mmioIn b n).haddr] := by
  have hholds := h.offered hlegal ha.bound ha.quiet
  rw [← mmio_run] at hholds
  obtain ⟨hidle, hne⟩ := memReqReady_iff.mp ha.happens
  have hoffers := hholds.offers (p := params)
  have hready : (run b a).adapter.memReqReady (adapterIn b a) = true := ha.happens
  have hcfg : (adapterIn b a).cfgReqValid = false := by
    show decide _ = false
    simp [hne]
  have hvalid : (adapterIn b a).memReqValid = true := hoffers.valid
  have hwrite : (adapterIn b a).memReqWrite = (mmioIn b n).hwrite := hoffers.write
  have haddr : (adapterIn b a).memReqAddr = (mmioIn b n).haddr :=
    hoffers.addr.trans (aperture_addr _)
  rw [accepts, VendorAdapter.accepts, hcfg, hvalid, hready, hwrite, haddr]
  cases hw : (mmioIn b n).hwrite
  · simp
  · have hdata : (adapterIn b a).memReqWdata = (mmioIn b (n + 1)).hwdata := hoffers.wdata hw
    simp [hdata]

/-- The completion of an accepted read is offered, and taken, four cycles later. -/
theorem memory_completed (h : Captures params (mmioIn b) n)
    (hlegal : ¬(mmioIn b n).transfer.Refused params) (hread : (mmioIn b n).hwrite = false)
    (ha : First (MmioBridge.accepts (mmioIn b)) (n + 2) a) :
    First (MmioBridge.completes (mmioIn b)) (a + 1) (a + 4) ∧ ∀ c,
      ((endpoint b a).serve (.memRead (mmioIn b n).haddr)).2 = some c →
      (mmioIn b (a + 4)).memCplStatus = c.status ∧ (mmioIn b (a + 4)).memCplRdata = c.rdata := by
  have hholds := h.offered hlegal ha.bound ha.quiet
  rw [← mmio_run] at hholds
  have hwriteR : (run b a).mmio.writeR = false :=
    (congrArg MmioBridge.Transfer.write hholds.transfer).trans hread
  have hdue := memDue_accepted (b := b a) hholds.state hwriteR ha.happens
  obtain ⟨hdues, -⟩ := memDue_run 3 (n := a + 1) hdue
  have hlast := hdues 3 (Nat.le_refl 3)
  have hcpl : (run b (a + 4)).adapter.state = .cpl := hlast.due.cpl_of_zero
  refine ⟨⟨by omega, fun j hj hlt => ?_, memCplValid_iff.mpr ⟨hcpl, hlast.kind⟩⟩, fun c hc => ?_⟩
  · obtain ⟨d, rfl⟩ := Nat.exists_eq_add_of_le hj
    have hd := hdues d (by omega)
    obtain ⟨k, hk⟩ := Nat.exists_eq_succ_of_ne_zero (show 3 - d ≠ 0 by omega)
    rw [hk] at hd
    refine Bool.eq_false_iff.mpr fun hvalid => ?_
    exact hd.due.not_cpl (memCplValid_iff.mp hvalid).1
  · have haccepts := memory_accepted h hlegal ha
    rw [hread, if_neg Bool.false_ne_true] at haccepts
    have hmem : VendorAdapter.Request.memRead (mmioIn b n).haddr ∈
        VendorAdapter.accepts (VendorAdapter.regs (adapterIn b) a) (adapterIn b a) := by
      rw [← adapter_run]
      exact List.mem_of_mem_head? (congrArg List.head? haccepts)
    have hoffers := VendorAdapter.offers_accepted (adapterIn b) hmem hc
    rw [← adapter_run, VendorAdapter.offers_eq, if_pos hcpl] at hoffers
    have hcompletion := List.singleton_inj.mp hoffers
    exact ⟨congrArg Completion.status hcompletion, congrArg Completion.rdata hcompletion⟩

theorem memory_turn (h : Captures params (mmioIn b) n)
    (hlegal : ¬(mmioIn b n).transfer.Refused params)
    (ha : First (MmioBridge.accepts (mmioIn b)) (n + 2) a) (hle : a ≤ n + 7) :
    MemoryTurn b n a := by
  have hhandled := h.handled
  have hoffered : ∀ k, n + 1 ≤ k → k ≤ a → (run b k).mmio.Stalls := by
    intro k hk hka
    rw [mmio_run]
    rcases Nat.eq_or_lt_of_le hk with rfl | hk
    · exact hhandled.check.1
    · exact (hhandled.offered hlegal k hk fun j hj hjk => ha.quiet j hj (by omega)).1
  have hserved : (mmioIn b n).hwrite = false → ∀ c,
      ((endpoint b a).serve (.memRead (mmioIn b n).haddr)).2 = some c →
      (c.status = 0 → (run b (a + 5)).mmio.Okay ∧ (run b (a + 5)).mmio.hrdata = c.rdata) ∧
      (c.status ≠ 0 → ErrorFrom params (mmioIn b) (a + 5)) := by
    intro hread c hc
    obtain ⟨hfirst, hdata⟩ := memory_completed h hlegal hread ha
    obtain ⟨hstatus, hrdata⟩ := hdata c hc
    obtain ⟨hgood, hbad⟩ := hhandled.completed hlegal hread a ha (a + 4) hfirst
    rw [hstatus] at hgood hbad
    rw [mmio_run, ← hrdata]
    exact ⟨fun h0 => ⟨(hgood h0).1, (hgood h0).2.2⟩, hbad⟩
  refine ⟨⟨ha.bound, hle⟩, memory_accepted h hlegal ha, ?_, ?_, ?_, ?_⟩
  · intro k hk hka
    cases hwrite : (mmioIn b n).hwrite <;> simp only [hwrite] at hka
    · by_cases hlater : k ≤ a
      · exact hoffered k hk hlater
      · obtain ⟨hfirst, -⟩ := memory_completed h hlegal hwrite ha
        rw [mmio_run]
        refine (hhandled.waiting hlegal hwrite a ha k (by omega) fun j hj hjk => ?_).1
        exact hfirst.quiet j hj (by simp at hka; omega)
    · exact hoffered k hk hka
  · intro hwrite
    rw [mmio_run]
    exact (hhandled.written hlegal hwrite a ha).1
  · intro hread hhit
    obtain ⟨hgood, -⟩ := hserved hread _ (by rw [Endpoint.serve, if_pos hhit])
    exact hgood rfl
  · intro hread hmiss
    obtain ⟨-, hbad⟩ := hserved hread _ (by rw [Endpoint.serve, if_neg hmiss])
    exact hbad (by decide)

/-- A transfer has its turn once, for its response ends it. -/
theorem MemoryTurn.not_later {a' : Nat} (h : MemoryTurn b n a) (h' : MemoryTurn b n a')
    (hlt : a < a') : False := by
  cases hwrite : (mmioIn b n).hwrite
  · have hstall := h'.stalls (a + 5) (by have := h.bound; omega) (by rw [hwrite]; simp; omega)
    by_cases hhit : (endpoint b a).Hits (mmioIn b n).haddr
    · exact absurd (hstall.1.symm.trans (h.hit hwrite hhit).1.1) (by decide)
    · have herror := (h.miss hwrite hhit).first.2
      rw [← mmio_run] at herror
      exact absurd (hstall.2.symm.trans herror) (by decide)
  · have hstall := h'.stalls (a + 1) (by have := h.bound; omega) (by rw [hwrite]; exact hlt)
    exact absurd (hstall.1.symm.trans (h.written hwrite).1) (by decide)

theorem MemoryTurn.unique {a' : Nat} (h : MemoryTurn b n a) (h' : MemoryTurn b n a') : a' = a := by
  rcases Nat.lt_trichotomy a a' with hlt | heq | hlt
  · exact (h.not_later h' hlt).elim
  · exact heq.symm
  · exact (h'.not_later h hlt).elim

/-- No other transfer is captured before a transfer has had its turn. -/
theorem MemoryTurn.alone {n' : Nat} (h : MemoryTurn b n a) (h' : Captures params (mmioIn b) n')
    (hlt : n < n') : a < n' := by
  by_contra hle
  have hstall := (h.stalls n' (by omega) (by split <;> omega)).1
  have hready : (run b n').mmio.hreadyout = true := by
    rw [mmio_run, MmioBridge.Regs.hreadyout]
    rcases h'.1 with h | h <;> simp [h]
  exact absurd (hstall.symm.trans hready) (by decide)

/-! ### The register bus -/

/-- The doorbell that the register bus rings in a cycle, if it is accepted. -/
def doorbell (b : Nat → Bus) (n : Nat) : List HostBridge.Request :=
  (HostBridge.monitor (cfgIn b) n).doorbell (cfgIn b n)

theorem doorbell_eq (n : Nat) : doorbell b n = HostBridge.doorbell (run b n).cfg (cfgIn b n) := by
  rw [doorbell, cfg_run]
  exact (HostBridge.tracks_run n).doorbell.symm

/-- What becomes of the request `q` of a doorbell accepted in cycle `n`, which has its turn in cycle
`a`: from then on the bridge is done, and shows the data of a read, until the next doorbell. -/
structure ConfigTurn (b : Nat → Bus) (n : Nat) (q : HostBridge.Request) (a : Nat) : Prop where
  bound : n + 1 ≤ a ∧ a ≤ n + 5
  accepted : accepts b a = [.config q.type q.bdf q.reg q.wdata]
  busy : ∀ k, n + 1 ≤ k → k ≤ a + 4 → (run b k).cfg.busy = true
  done : ∀ m, a + 5 ≤ m → (∀ k, a + 5 ≤ k → k < m → doorbell b k = []) →
    (run b m).cfg.busy = false ∧ (run b m).cfg.done = true ∧
    (q.type = HostBridge.reqCfgRead →
      ((endpoint b a).serve (.config q.type q.bdf q.reg q.wdata)).2 =
        some ⟨.cfg, 0, (run b m).cfg.cfgRdata⟩)

theorem sound (n : Nat) : (run b n).cfg.core.Sound := by
  rw [cfg_run]
  exact HostBridge.sound_run n

/-- Whether the adapter would accept a configuration request. -/
def idle (b : Nat → Bus) (n : Nat) : Bool := (run b n).adapter.state = .idle

variable {q : HostBridge.Request}

theorem config_held (hq : doorbell b n = [q]) (hk : n + 1 ≤ k) (hquiet : Quiet (idle b) (n + 1) k) :
    (run b k).cfg.state = .issue ∧ (run b k).cfg.request = q := by
  rw [doorbell_eq] at hq
  apply lasts _ hk hquiet (HostBridge.doorbell_step (sound n) hq)
  rintro j ⟨hissue, rfl⟩ hbusy
  have hready : (cfgIn b j).reqReady = false := hbusy
  obtain ⟨hvalid, hrequest⟩ := HostBridge.request_held (sound j)
    (show (run b j).cfg.reqValid = true by simp [HostBridge.Regs.reqValid, hissue]) hready
  exact ⟨of_decide_eq_true hvalid, hrequest⟩

/-- The request has its turn at the latest when a read of the memory bridge that is on its way has
been completed. -/
theorem config_first (hq : doorbell b n = [q]) : ∃ a ≤ n + 5, First (idle b) (n + 1) a := by
  obtain ⟨hissue, -⟩ := config_held hq (Nat.le_refl _) (.empty _ _)
  cases turn_run (b := b) (n + 1) with
  | free _ _ hidle =>
    exact ⟨n + 1, by omega, Nat.le_refl _, .empty _ _, decide_eq_true hidle⟩
  | cfg hdue _ => exact absurd (hissue.symm.trans hdue.waits) nofun
  | @mem k _ hdue =>
    obtain ⟨-, hidle⟩ := memDue_run k hdue
    obtain ⟨a, ha, hfirst⟩ := First.of_happens (idle b) (n := n + 1) (by omega)
      (decide_eq_true hidle)
    exact ⟨a, by have := hdue.due.le; omega, hfirst⟩

theorem config_accepted (hq : doorbell b n = [q]) (ha : First (idle b) (n + 1) a) :
    accepts b a = [.config q.type q.bdf q.reg q.wdata] := by
  obtain ⟨hissue, rfl⟩ := config_held hq ha.bound ha.quiet
  have hidle : (run b a).adapter.state = .idle := of_decide_eq_true ha.happens
  have hvalid : (adapterIn b a).cfgReqValid = true := by
    show decide _ = true
    simp [hissue]
  simp [accepts, VendorAdapter.accepts, hvalid, VendorAdapter.Regs.cfgReqReady,
    VendorAdapter.Regs.memReqReady, hidle]
  exact ⟨rfl, rfl, rfl, rfl⟩

/-- While its completion is due, the request stays the one that was accepted. -/
theorem config_due (hq : doorbell b n = [q]) (ha : First (idle b) (n + 1) a) :
    ∀ j ≤ 3, CfgDue (run b (a + 1 + j)) (3 - j) ∧ (run b (a + 1 + j)).cfg.request = q := by
  obtain ⟨hissue, hrequest⟩ := config_held hq ha.bound ha.quiet
  have hdue := cfgDue_accepted hissue (of_decide_eq_true ha.happens) (b a)
  obtain ⟨hdues, -⟩ := cfgDue_run 3 (n := a + 1) hdue
  intro j hj
  refine ⟨hdues j hj, ?_⟩
  induction j with
  | zero => exact (HostBridge.waitCpl_step (r := (run b a).cfg) hdue.waits).1.trans hrequest
  | succ j ih =>
    exact (HostBridge.waitCpl_step (r := (run b (a + 1 + j)).cfg) (hdues _ hj).waits).1.trans
      (ih (by omega))

theorem config_completed (hq : doorbell b n = [q]) (ha : First (idle b) (n + 1) a) :
    (run b (a + 5)).cfg.state = .idle ∧ (run b (a + 5)).cfg.done = true ∧
    (q.type = HostBridge.reqCfgRead →
      ((endpoint b a).serve (.config q.type q.bdf q.reg q.wdata)).2 =
        some ⟨.cfg, 0, (run b (a + 5)).cfg.cfgRdata⟩) := by
  obtain ⟨hdue, hrequest⟩ := config_due hq ha 3 (Nat.le_refl 3)
  have hcpl : (run b (a + 4)).adapter.state = .cpl := hdue.due.cpl_of_zero
  have hvalid : (cfgIn b (a + 4)).cplValid = true := by
    show (run b (a + 4)).adapter.cfgCplValid = true
    have hkind : (run b (a + 4)).adapter.kind = .cfg := hdue.kind
    simp [VendorAdapter.Regs.cfgCplValid, hcpl, hkind]
  have hcompletes : HostBridge.completes (run b (a + 4)).cfg (cfgIn b (a + 4)) = true := by
    have hwaits : (run b (a + 4)).cfg.state = .waitCpl := hdue.waits
    simp [HostBridge.completes, HostBridge.Regs.cplReady, hwaits, hvalid]
  refine ⟨(hdue.done (b (a + 4))).1, HostBridge.done_completes hcompletes, fun hread => ?_⟩
  have htype : (run b (a + 4)).cfg.reqTypeR = HostBridge.reqCfgRead :=
    (congrArg HostBridge.Request.type hrequest).trans hread
  have hserve := congrArg Prod.snd ((endpoint b a).serve_read q.bdf q.reg q.wdata)
  rw [show VendorAdapter.cfgRead = q.type from hread.symm] at hserve
  generalize (if q.bdf = VendorAdapter.endpointBdf then (endpoint b a).configData q.reg
    else 0xffffffff) = data at hserve
  have hmem : VendorAdapter.Request.config q.type q.bdf q.reg q.wdata ∈
      VendorAdapter.accepts (VendorAdapter.regs (adapterIn b) a) (adapterIn b a) := by
    rw [← adapter_run]
    exact List.mem_of_mem_head? (congrArg List.head? (config_accepted hq ha))
  have hoffers := VendorAdapter.offers_accepted (adapterIn b) hmem hserve
  rw [← adapter_run, VendorAdapter.offers_eq, if_pos hcpl] at hoffers
  have hcompletion := List.singleton_inj.mp hoffers
  have hstatus : (cfgIn b (a + 4)).cplStatus = 0 := congrArg Completion.status hcompletion
  have hdata : (cfgIn b (a + 4)).cplRdata = data := congrArg Completion.rdata hcompletion
  have hrdata := HostBridge.cfgRdata_step (run b (a + 4)).cfg (cfgIn b (a + 4))
  rw [if_pos ⟨hcompletes, hstatus, htype⟩, hdata] at hrdata
  rw [hserve]
  exact congrArg (fun data => some (Completion.mk .cfg 0 data)) hrdata.symm

theorem config_turn (hq : doorbell b n = [q]) (ha : First (idle b) (n + 1) a) (hle : a ≤ n + 5) :
    ConfigTurn b n q a := by
  refine ⟨⟨ha.bound, hle⟩, config_accepted hq ha, fun k hk hka => ?_, fun m hm => ?_⟩
  · apply (sound k).busy.mpr
    by_cases hlater : k ≤ a
    · exact .inl (config_held hq hk fun j hj hjk => ha.quiet j hj (by omega)).1
    · obtain ⟨j, rfl⟩ := Nat.exists_eq_add_of_le (show a + 1 ≤ k by omega)
      exact .inr (config_due hq ha j (by omega)).1.waits
  · -- The data register keeps what the completion has left in it.
    induction m, hm using Nat.le_induction with
    | base =>
      intro _
      obtain ⟨hidle, hrest⟩ := config_completed hq ha
      exact ⟨(sound _).idle hidle, hrest⟩
    | succ m hm ih =>
      intro hnone
      obtain ⟨-, hdone, hdata⟩ := ih fun k hk hkm => hnone k hk (by omega)
      have hidle := (sound m).idle_of_done hdone
      obtain ⟨hstate, hkeep, hdone'⟩ :=
        HostBridge.idle_kept (sound m) hidle ((doorbell_eq m).symm.trans
          (hnone m hm (Nat.lt_succ_self m)))
      refine ⟨(sound (m + 1)).idle hstate, hdone' hdone, fun hread => ?_⟩
      rw [hdata hread, ← hkeep]
      rfl

theorem ConfigTurn.unique {q' : HostBridge.Request} {a' : Nat} (h : ConfigTurn b n q a)
    (h' : ConfigTurn b n q' a') : a' = a := by
  have hend : ∀ {q q' : HostBridge.Request} {a a' : Nat}, ConfigTurn b n q a →
      ConfigTurn b n q' a' → ¬a < a' := by
    intro q q' a a' h h' hlt
    have hdone := (h.done (a + 5) (Nat.le_refl _) fun k hk hlt => absurd hk (by omega)).1
    have hbusy := h'.busy (a + 5) (by have := h.bound; omega) (by omega)
    exact absurd (hdone.symm.trans hbusy) nofun
  have h1 := hend h h'
  have h2 := hend h' h
  omega

/-- No other doorbell is accepted before a request has been completed. -/
theorem ConfigTurn.alone {q' : HostBridge.Request} {n' : Nat} (h : ConfigTurn b n q a)
    (h' : doorbell b n' = [q']) (hlt : n < n') : a + 4 < n' := by
  by_contra hle
  have hbusy := h.busy n' (by omega) (by omega)
  have hidle : (run b n').cfg.state = .idle := by
    by_contra hstate
    rw [doorbell_eq] at h'
    simp [HostBridge.doorbell, hstate] at h'
  exact absurd (((sound n').idle hidle).symm.trans hbusy) (by decide)

/-- A request on the configuration port is that of a doorbell, and has not been accepted yet. -/
theorem config_origin (h : (run b k).cfg.state = .issue) :
    ∃ n q, doorbell b n = [q] ∧ n + 1 ≤ k ∧ Quiet (idle b) (n + 1) k := by
  induction k with
  | zero => cases h
  | succ k ih =>
    by_cases hissue : (run b k).cfg.state = .issue
    · obtain ⟨n, q, hq, hn, hquiet⟩ := ih hissue
      have hbusy : idle b k = false := by
        refine decide_eq_false fun hidle => ?_
        have hnext := cfg_issue (b := b k) hissue
        rw [if_pos hidle] at hnext
        exact absurd (h.symm.trans hnext) nofun
      exact ⟨n, q, hq, by omega, hquiet.snoc hbusy⟩
    · have hqueue := HostBridge.queue_step (sound (b := b) k) (i := cfgIn b k)
      have hfrom : (run b k).cfg.core.waiting = [] := if_neg hissue
      have hto : ((run b k).cfg.step (cfgIn b k)).core.waiting =
          [((run b k).cfg.step (cfgIn b k)).request] := if_pos h
      have hshake : HostBridge.handshake (run b k).cfg (cfgIn b k) = [] := by
        simp [HostBridge.handshake, HostBridge.Regs.reqValid, hissue]
      rw [hfrom, hto, hshake, ← doorbell_eq] at hqueue
      exact ⟨k, _, hqueue.symm, Nat.le_refl _, .empty _ _⟩

/-- A request on the memory port is that of a captured transfer, and has not been accepted yet. -/
theorem memory_origin (h : (run b k).mmio.state = .issue) :
    ∃ n, Offering params (mmioIn b) n k := by
  have horigin := MmioBridge.origin (p := params) (i := mmioIn b) k
  rw [mmio_run] at h
  rw [MmioBridge.Origin, h] at horigin
  exact horigin

/-- What the adapter accepts is asked for by a transfer or by a doorbell. -/
theorem accepts_origin (h : accepts b a ≠ []) :
    (∃ n, Captures params (mmioIn b) n ∧ ¬(mmioIn b n).transfer.Refused params ∧
      MemoryTurn b n a) ∨
    ∃ n q, doorbell b n = [q] ∧ ConfigTurn b n q a := by
  by_cases hissue : (run b a).cfg.state = .issue
  · refine .inr ?_
    have hidle : idle b a = true := by
      by_contra hbusy
      exact h (VendorAdapter.accepts_busy fun hidle => hbusy (decide_eq_true hidle))
    obtain ⟨n, q, hq, hn, hquiet⟩ := config_origin hissue
    have hfirst : First (idle b) (n + 1) a := ⟨hn, hquiet, hidle⟩
    obtain ⟨a', hle, hfirst'⟩ := config_first hq
    rw [← hfirst.unique hfirst'] at hle
    exact ⟨n, q, hq, config_turn hq hfirst hle⟩
  · refine .inl ?_
    have hcfg : (adapterIn b a).cfgReqValid = false := decide_eq_false hissue
    have hmem : ((adapterIn b a).memReqValid &&
        (run b a).adapter.memReqReady (adapterIn b a)) = true := by
      by_contra hnone
      exact h (by simp [accepts, VendorAdapter.accepts, hcfg, hnone])
    rw [Bool.and_eq_true] at hmem
    obtain ⟨n, hoffering⟩ := memory_origin (of_decide_eq_true hmem.1)
    have hfirst : First (MmioBridge.accepts (mmioIn b)) (n + 2) a :=
      ⟨hoffering.later, hoffering.quiet, hmem.2⟩
    obtain ⟨a', hle, hfirst'⟩ := memory_first hoffering.captured hoffering.admitted
    rw [← hfirst.unique hfirst'] at hle
    exact ⟨n, hoffering.captured, hoffering.admitted,
      memory_turn hoffering.captured hoffering.admitted hfirst hle⟩

/-- Whatever the two buses do, a transfer that must be refused is answered with ERROR, and every
other transfer and every doorbell has its request accepted in exactly one cycle, its turn, within
seven and five cycles, and is answered as the endpoint that has served the requests accepted before
it; and what the adapter accepts in a cycle is the request of one transfer or of one doorbell. -/
theorem buses_linearizable (b : Nat → Bus) :
    (∀ n, Captures params (mmioIn b) n →
      ((mmioIn b n).transfer.Refused params → ErrorFrom params (mmioIn b) (n + 2)) ∧
      (¬(mmioIn b n).transfer.Refused params → ∃! a, MemoryTurn b n a)) ∧
    (∀ n q, doorbell b n = [q] → ∃! a, ConfigTurn b n q a) ∧
    ∀ a, accepts b a ≠ [] →
      (∃! n, Captures params (mmioIn b) n ∧ ¬(mmioIn b n).transfer.Refused params ∧
        MemoryTurn b n a) ∨
      ∃! n, ∃ q, doorbell b n = [q] ∧ ConfigTurn b n q a := by
  refine ⟨fun n h => ⟨h.handled.refused, fun hlegal => ?_⟩, fun n q hq => ?_, fun a ha => ?_⟩
  · obtain ⟨a, hle, ha⟩ := memory_first h hlegal
    have hturn := memory_turn h hlegal ha hle
    exact ⟨a, hturn, fun a' h' => hturn.unique h'⟩
  · obtain ⟨a, hle, ha⟩ := config_first hq
    have hturn := config_turn hq ha hle
    exact ⟨a, hturn, fun a' h' => hturn.unique h'⟩
  · rcases accepts_origin ha with ⟨n, hc, hlegal, hturn⟩ | ⟨n, q, hq, hturn⟩
    · refine .inl ⟨n, ⟨hc, hlegal, hturn⟩, fun n' ⟨hc', _, hturn'⟩ => ?_⟩
      have h1 := fun hlt => hturn.alone hc' hlt
      have h2 := fun hlt => hturn'.alone hc hlt
      have := hturn.bound
      have := hturn'.bound
      omega
    · refine .inr ⟨n, ⟨q, hq, hturn⟩, fun n' ⟨q', hq', hturn'⟩ => ?_⟩
      have h1 := fun hlt => hturn.alone hq' hlt
      have h2 := fun hlt => hturn'.alone hq hlt
      have := hturn.bound
      have := hturn'.bound
      omega

end Runs

end CortexLabs.Pcie.RootPort
