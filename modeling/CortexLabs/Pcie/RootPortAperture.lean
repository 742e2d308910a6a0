import CortexLabs.Pcie.HostPrograms
import CortexLabs.Pcie.RootPort

/-! The root port as one CPU uses it.  Behind the register slave, the memory bridge and the adapter
are a backend that answers each configuration request in time; and an access to the aperture is one
of the sequential endpoint, over in a bounded number of cycles, whatever the bus does. -/

namespace CortexLabs.Pcie.RootPort

open Device HostBridge
open VendorAdapter (Endpoint)

/-! ### What is behind the register slave -/

structure Behind where
  mmio : MmioBridge.Regs
  adapter : VendorAdapter.Regs

namespace Behind

def reset : Behind := ⟨.reset, .reset⟩

def adapterInputs (s : Behind) (p : Port) : VendorAdapter.Inputs :=
  ⟨p.reqValid, p.req.type, p.req.bdf, p.req.reg, p.req.wdata, p.cplReady,
    s.mmio.memReqValid, s.mmio.memReqWrite, s.mmio.memReqAddr params, s.mmio.memReqWdata,
    s.mmio.memCplReady⟩

def mmioInputs (s : Behind) (p : Port) (b : Ahb) : MmioBridge.Inputs :=
  ⟨b.hsel, b.haddr, b.htrans, b.hwrite, b.hsize, b.hwdata, b.hready,
    s.adapter.memReqReady (s.adapterInputs p), s.adapter.memCplValid, s.adapter.cplStatusR,
    s.adapter.cplRdataR⟩

/-- One clock edge, with the register slave's port and the bus of the aperture. -/
def step (s : Behind) (p : Port) (b : Ahb) : Behind :=
  ⟨s.mmio.step params (s.mmioInputs p b), s.adapter.step (s.adapterInputs p)⟩

/-- No request is on its way, and the endpoint is `d`. -/
structure Rest (s : Behind) (d : Endpoint) : Prop where
  adapter : s.adapter.state = .idle
  endpoint : s.adapter.endpoint = d
  mmio : s.mmio.state = .idle ∨ s.mmio.state = .resp

def toResult : Option VendorAdapter.Completion → Result
  | some c => ⟨c.status, c.rdata⟩
  | none => ⟨0, 0⟩

def serve (d : Endpoint) (q : Request) : Result × Endpoint :=
  (toResult (d.serve (.config q.type q.bdf q.reg q.wdata)).2,
    (d.serve (.config q.type q.bdf q.reg q.wdata)).1)

/-- The adapter works on a configuration request. -/
structure Works (s : Behind) (k : Nat) (r : Result) (d : Endpoint) : Prop where
  kind : s.adapter.kind = .cfg
  due : Due s.adapter k
  mmio : s.mmio.state = .idle ∨ s.mmio.state = .resp
  delayed : s.adapter.state = .delay → r = toResult (s.adapter.endpoint.serve s.adapter.saved).2 ∧
    d = (s.adapter.endpoint.serve s.adapter.saved).1
  offered : s.adapter.state = .cpl → r = ⟨s.adapter.cplStatusR, s.adapter.cplRdataR⟩ ∧
    d = s.adapter.endpoint

section Steps

variable {s : Behind} {d : Endpoint} {p : Port} {b : Ahb} {k : Nat} {r : Result}

/-- A memory bridge that is not addressed has no request. -/
theorem mmio_quiet (h : s.mmio.state = .idle ∨ s.mmio.state = .resp) (hsel : b.hsel = false) :
    (s.step p b).mmio.state = .idle ∨ (s.step p b).mmio.state = .resp := by
  have hphase : (s.mmioInputs p b).addressPhase = false := by
    simp [MmioBridge.Inputs.addressPhase, mmioInputs, hsel]
  refine .inl ?_
  show (s.mmio.step params (s.mmioInputs p b)).state = .idle
  rcases h with h | h
  · rw [MmioBridge.Regs.step, h]
    dsimp only
    rw [if_neg (by simp [hphase]), h]
  · rw [MmioBridge.Regs.step, h]
    dsimp only
    rw [if_neg (by simp [hphase])]

/-- An adapter that is idle and is asked for nothing stays as it is. -/
theorem adapter_quiet (hidle : s.adapter.state = .idle) (hcfg : p.reqValid = false)
    (hmem : s.mmio.state ≠ .issue) : (s.step p b).adapter = s.adapter := by
  show s.adapter.step (s.adapterInputs p) = s.adapter
  rw [VendorAdapter.Regs.step, hidle]
  simp [adapterInputs, hcfg, MmioBridge.Regs.memReqValid, hmem]

theorem Rest.step (h : Rest s d) (hcfg : p.reqValid = false) (hsel : b.hsel = false) :
    Rest (s.step p b) d := by
  have hmem : s.mmio.state ≠ .issue := by rcases h.mmio with h | h <;> simp [h]
  have hadapter := adapter_quiet (b := b) h.adapter hcfg hmem
  exact ⟨by rw [hadapter, h.adapter], by rw [hadapter, h.endpoint], mmio_quiet h.mmio hsel⟩

theorem Rest.accept (h : Rest s d) (hcfg : p.reqValid = true) (hsel : b.hsel = false) :
    Works (s.step p b) 3 (serve d p.req).1 (serve d p.req).2 := by
  have hadapter : (s.step p b).adapter = s.adapter.acceptCfg (s.adapterInputs p) := by
    show s.adapter.step (s.adapterInputs p) = _
    rw [VendorAdapter.Regs.step, h.adapter]
    simp [adapterInputs, hcfg, VendorAdapter.Regs.cfgReqReady, h.adapter]
  have hendpoint : (s.step p b).adapter.endpoint = d := by
    rw [hadapter, ← h.endpoint]
    rfl
  refine ⟨by rw [hadapter]; rfl, ?_, mmio_quiet h.mmio hsel, fun _ => ?_, fun hcpl => ?_⟩
  · rw [hadapter]
    exact .delay rfl (Nat.le_refl 2)
  · rw [hendpoint, hadapter]
    exact ⟨rfl, rfl⟩
  · rw [hadapter] at hcpl
    cases hcpl

theorem Works.step (h : Works s (k + 1) r d) (hsel : b.hsel = false) :
    s.adapter.cfgCplValid = false ∧ Works (s.step p b) k r d := by
  have hstate : s.adapter.state = .delay := by
    have hcpl := h.due.not_cpl
    generalize hm : k + 1 = m at h
    cases h.due with
    | delay hstate _ => exact hstate
    | cpl _ => omega
  obtain ⟨hr, hd⟩ := h.delayed hstate
  obtain ⟨hdue, hkind⟩ := h.due.step (s.adapterInputs p)
  refine ⟨by simp [VendorAdapter.Regs.cfgCplValid, hstate], hkind.trans h.kind, hdue,
    mmio_quiet h.mmio hsel, ?_, ?_⟩
  · show (s.adapter.step _).state = _ → r = toResult ((s.adapter.step _).endpoint.serve
      (s.adapter.step _).saved).2 ∧ d = ((s.adapter.step _).endpoint.serve
      (s.adapter.step _).saved).1
    rw [VendorAdapter.step_delay hstate]
    by_cases h0 : s.adapter.delayCount = 0
    · rw [if_neg (not_not.mpr h0)]
      intro hdelay
      rw [s.adapter.complete_state] at hdelay
      cases hdelay
    · rw [if_pos h0]
      exact fun _ => ⟨hr, hd⟩
  · show (s.adapter.step _).state = _ → r = ⟨(s.adapter.step _).cplStatusR,
      (s.adapter.step _).cplRdataR⟩ ∧ d = (s.adapter.step _).endpoint
    rw [VendorAdapter.step_delay hstate]
    by_cases h0 : s.adapter.delayCount = 0
    · rw [if_neg (not_not.mpr h0)]
      rw [s.adapter.complete_serve] at hr hd
      exact fun _ => ⟨hr, hd⟩
    · rw [if_pos h0]
      intro hcpl
      exact absurd (hstate.symm.trans hcpl) (by decide)

theorem Works.offer (h : Works s 0 r d) (hready : p.cplReady = true) (hsel : b.hsel = false) :
    Rest (s.step p b) d := by
  have hcpl := h.due.cpl_of_zero
  obtain ⟨-, hd⟩ := h.offered hcpl
  have hadapter : (s.step p b).adapter = { s.adapter with state := .idle } := by
    show s.adapter.step (s.adapterInputs p) = _
    rw [VendorAdapter.step_cpl hcpl, VendorAdapter.delivers_eq]
    simp [hcpl, h.kind, adapterInputs, hready]
  refine ⟨by rw [hadapter], ?_, mmio_quiet h.mmio hsel⟩
  rw [hadapter, hd]
  rfl

end Steps

/-- On the register bus, the aperture's bridge is on the same wires and is not selected. -/
def server : Server Endpoint where
  State := Behind
  step s p b := s.step p { b with hsel := false }
  reqReady s := s.adapter.cfgReqReady
  cplValid s := s.adapter.cfgCplValid
  cplStatus s := s.adapter.cplStatusR
  cplRdata s := s.adapter.cplRdataR
  serve := serve
  latency := 3
  Rest := Rest
  Works := Works
  ready h := by simp [VendorAdapter.Regs.cfgReqReady, h.adapter]
  rest h hreq := h.step hreq rfl
  accept h hreq := ⟨3, Nat.le_refl 3, h.accept hreq rfl⟩
  work h := h.step rfl
  offer h := by
    have hcpl := h.due.cpl_of_zero
    obtain ⟨hr, -⟩ := h.offered hcpl
    refine ⟨by simp [VendorAdapter.Regs.cfgCplValid, hcpl, h.kind], ?_, ?_, fun hready =>
      h.offer hready rfl⟩
    · rw [hr]
    · rw [hr]

end Behind

/-- The root port as the CPU sees it: what the register slave shows it, and what is behind it. -/
abbrev System := Stack Behind.server

def System.regs (w : System) : Regs := ⟨w.world.regs, w.backend.mmio, w.backend.adapter⟩

theorem system_clock (w : System) (b : Ahb) :
    System.regs (w.clock b) = (System.regs w).step ⟨b, { b with hsel := false }⟩ := rfl

/-! ### The aperture -/

/-- The addresses that select the bridge of the aperture. -/
def inAperture (addr : Word) : Bool := addr &&& params.cpuApertureMask = params.cpuApertureBase

/-- One cycle of an access to the aperture, in which the register slave is not selected. -/
def System.apertureClock (w : System) (b : Ahb) : System :=
  ⟨w.world.clock (w.inputs { b with hsel := false }), w.backend.step w.port b⟩

theorem aperture_clock (w : System) (b : Ahb) : System.regs (System.apertureClock w b) =
    (System.regs w).step ⟨{ b with hsel := false }, b⟩ := rfl

inductive ApertureAddress (w : System) (o : Op) : System → Prop
  | clock {b : Ahb} : w.world.Drives (w.inputs { b with hsel := false }) →
      w.backend.mmio.hreadyout = true → (w.backend.mmioInputs w.port b).addressPhase = true →
      b.haddr = o.addr → b.hwrite = o.isStore → b.hsize = 0b010 →
      ApertureAddress w o ⟨{ w.world.clock (w.inputs { b with hsel := false }) with
        hwdata := match o with | .load _ => w.world.hwdata | .store _ value => value },
        w.backend.step w.port b⟩

/-- A cycle in which the bridge of the aperture holds the bus. -/
inductive ApertureStall (w : System) : System → Prop
  | clock {b : Ahb} : w.backend.mmio.hreadyout = false → b.hready = false →
      (w.backend.mmio.writeR = true → b.hwdata = w.world.hwdata) →
      ApertureStall w (System.apertureClock w b)

/-- The cycles of an access to the aperture, up to the last one of its data phase. -/
def ApertureAccess (w : System) (o : Op) (w' : System) : Prop :=
  (∃ w1 w2, Relation.ReflTransGen Stack.Quiet w w1 ∧ ApertureAddress w1 o w2 ∧
    Relation.ReflTransGen ApertureStall w2 w') ∧ w'.backend.mmio.hreadyout = true

/-- The two buses of the root port as one CPU uses them: an access that ends with ERROR is a bus
fault, and the program does not go on. -/
abbrev cpu : Behavior Op Ans where
  State := System
  answer w o r w' := if inAperture o.addr then
      (ApertureAccess w o w' ∧ w'.backend.mmio.hresp = false) ∧
        match o, r with
        | .load _, v => v = w'.backend.mmio.hrdata
        | .store _ _, _ => True
    else (stack Behind.server).answer w o r w'
  torn w o w' := inAperture o.addr = true ∧ ApertureAccess w o w' ∧
    w'.backend.mmio.hresp = true

/-! ### One access of the aperture -/

open MmioBridge (Transfer)

/-- The endpoint's answer to a transfer, none if it is an ERROR. -/
def memory (d : Endpoint) (t : Transfer) (wdata : Word) : Option (Word × Endpoint) :=
  if t.addr.extractLsb' 0 2 ≠ 0 then none
  else if t.write then some (0, (d.serve (.memWrite t.addr wdata)).1)
  else if d.Hits t.addr then some (d.scratch, d) else none

theorem memory_read (d : Endpoint) (addr wdata : Word) : memory d ⟨addr, false, 0b010⟩ wdata =
    if addr.extractLsb' 0 2 = 0 ∧ d.Hits addr then some (d.scratch, d) else none := by
  simp only [memory]
  by_cases halign : addr.extractLsb' 0 2 = 0
  · by_cases hhit : d.Hits addr
    · simp [halign, hhit]
    · simp [halign, hhit]
  · rw [if_pos halign, if_neg fun hhit => halign hhit.1]

theorem memory_write (d : Endpoint) (addr wdata : Word) : memory d ⟨addr, true, 0b010⟩ wdata =
    if addr.extractLsb' 0 2 = 0 then
      some (0, if d.Hits addr then { d with scratch := wdata } else d) else none := by
  simp only [memory, Endpoint.serve]
  by_cases halign : addr.extractLsb' 0 2 = 0
  · rw [if_neg (not_not.mpr halign), if_pos trivial, if_pos halign]
  · rw [if_pos halign, if_neg halign]

/-- A transfer on its way through the bridge and the adapter, over the endpoint `d`. -/
inductive Stage (d : Endpoint) (t : Transfer) (wdata : Word) (s : Behind) : Prop
  | dphase : s.mmio.state = .dphase → s.mmio.transfer = t → s.adapter.state = .idle →
      s.adapter.endpoint = d → Stage d t wdata s
  | issue : s.mmio.Holds .issue t wdata → t.addr.extractLsb' 0 2 = 0 → s.adapter.state = .idle →
      s.adapter.endpoint = d → Stage d t wdata s
  | wait {k : Nat} : s.mmio.state = .wait → t.addr.extractLsb' 0 2 = 0 → t.write = false →
      s.adapter.kind = .mem → Due s.adapter k →
      (s.adapter.state = .delay → s.adapter.savedMemAddr = t.addr ∧ s.adapter.endpoint = d) →
      (s.adapter.state = .cpl → some s.adapter.completion = (d.serve (.memRead t.addr)).2 ∧
        s.adapter.endpoint = d) → Stage d t wdata s
  | okay {v : Word} {d' : Endpoint} : s.mmio.state = .resp → memory d t wdata = some (v, d') →
      (t.write = false → s.mmio.rdataR = v) → s.adapter.state = .idle →
      s.adapter.endpoint = d' → Stage d t wdata s
  | error : s.mmio.state = .err1 ∨ s.mmio.state = .err2 → memory d t wdata = none →
      s.adapter.state = .idle → s.adapter.endpoint = d → Stage d t wdata s

section Stage

variable {d : Endpoint} {t : Transfer} {wdata : Word} {s : Behind} {p : Port} {b : Ahb}

/-- A word inside the aperture is refused only when it is not aligned. -/
theorem refused_aperture (hsize : t.size = 0b010) (hin : inAperture t.addr = true) :
    t.Refused params ↔ t.addr.extractLsb' 0 2 ≠ 0 := by
  have hbase : t.addr &&& params.cpuApertureMask = params.cpuApertureBase :=
    of_decide_eq_true hin
  simp [Transfer.Refused, hsize, hbase]

theorem stage_dphase (hstate : s.mmio.state = .dphase) (ht : s.mmio.transfer = t)
    (hsize : t.size = 0b010) (hin : inAperture t.addr = true) (hidle : s.adapter.state = .idle)
    (hend : s.adapter.endpoint = d) (hcfg : p.reqValid = false)
    (hdata : t.write = true → b.hwdata = wdata) : Stage d t wdata (s.step p b) := by
  have hadapter := Behind.adapter_quiet (b := b) hidle hcfg (by simp [hstate])
  have hrefused := (MmioBridge.refused_iff (p := params) ht).trans (refused_aperture hsize hin)
  have hmmio : (s.step p b).mmio = s.mmio.step params (s.mmioInputs p b) := rfl
  rw [MmioBridge.Regs.step, hstate] at hmmio
  dsimp only at hmmio
  by_cases halign : t.addr.extractLsb' 0 2 = 0
  · rw [if_neg (mt hrefused.mp (not_not.mpr halign))] at hmmio
    refine .issue ⟨by rw [hmmio], by rw [hmmio]; exact ht, fun hwrite => ?_⟩ halign
      (by rw [hadapter, hidle]) (by rw [hadapter, hend])
    have hwriteR : s.mmio.writeR = true := by
      rw [← hwrite, ← ht]
      rfl
    rw [hmmio]
    exact (if_pos hwriteR).trans (hdata hwrite)
  · rw [if_pos (hrefused.mpr halign)] at hmmio
    exact .error (.inl (by rw [hmmio])) (if_pos halign) (by rw [hadapter, hidle])
      (by rw [hadapter, hend])

theorem stage_issue (hholds : s.mmio.Holds .issue t wdata) (halign : t.addr.extractLsb' 0 2 = 0)
    (hidle : s.adapter.state = .idle) (hend : s.adapter.endpoint = d)
    (hcfg : p.reqValid = false) : Stage d t wdata (s.step p b) := by
  have hready : (s.mmioInputs p b).memReqReady = true := by
    simp [Behind.mmioInputs, Behind.adapterInputs, VendorAdapter.Regs.memReqReady, hidle, hcfg]
  have hvalid : (s.adapterInputs p).memReqValid = true := by
    simp [Behind.adapterInputs, MmioBridge.Regs.memReqValid, hholds.state]
  have hoffers := hholds.offers (p := params)
  have hwriteR : s.mmio.writeR = t.write := hoffers.write
  have haddr : (s.adapterInputs p).memReqAddr = t.addr := hoffers.addr.trans (aperture_addr _)
  have hadapter : (s.step p b).adapter = s.adapter.acceptMem (s.adapterInputs p) := by
    show s.adapter.step (s.adapterInputs p) = _
    have hreqReady : s.adapter.memReqReady (s.adapterInputs p) = true := hready
    rw [VendorAdapter.Regs.step, hidle]
    dsimp only
    rw [if_neg (by simp [Behind.adapterInputs, hcfg]), if_pos (by rw [hvalid, hreqReady]; rfl)]
  have hmmio : (s.step p b).mmio = { s.mmio with state := if s.mmio.writeR then .resp else .wait } := by
    show s.mmio.step params (s.mmioInputs p b) = _
    rw [MmioBridge.Regs.step, hholds.state]
    dsimp only
    rw [if_pos hready]
  cases hwrite : t.write with
  | true =>
    have hserve : (s.step p b).adapter.endpoint = (d.serve (.memWrite t.addr wdata)).1 ∧
        (s.step p b).adapter.state = .idle := by
      have hdata : (s.adapterInputs p).memReqWdata = wdata := hoffers.wdata hwrite
      rw [hadapter, VendorAdapter.Regs.acceptMem,
        if_pos (show (s.adapterInputs p).memReqWrite = true from hwriteR.trans hwrite), haddr, hdata,
        ← hend, Endpoint.serve]
      simp only [← VendorAdapter.Regs.scratchHit_iff]
      split_ifs
      · exact ⟨rfl, hidle⟩
      · exact ⟨rfl, hidle⟩
    refine .okay (v := 0) ?_ ?_ (fun hread => absurd (hwrite.symm.trans hread) (by decide))
      hserve.2 hserve.1
    · rw [hmmio, hwriteR, hwrite]
      rfl
    · rw [memory, if_neg (not_not.mpr halign), if_pos hwrite]
  | false =>
    have hstep : (s.step p b).adapter = { s.adapter with
        state := .delay, kind := .mem, delayCount := 2, savedMemAddr := t.addr } := by
      rw [hadapter, VendorAdapter.Regs.acceptMem, haddr]
      exact if_neg (by simp [Behind.adapterInputs, MmioBridge.Regs.memReqWrite, hwriteR, hwrite])
    refine .wait (k := 3) ?_ halign hwrite (by rw [hstep]) ?_ (fun _ => ?_) (fun hcpl => ?_)
    · rw [hmmio, hwriteR, hwrite]
      rfl
    · rw [hstep]
      exact .delay rfl (Nat.le_refl 2)
    · rw [hstep]
      exact ⟨rfl, hend⟩
    · rw [hstep] at hcpl
      cases hcpl

theorem stage_wait {k : Nat} (hstate : s.mmio.state = .wait)
    (halign : t.addr.extractLsb' 0 2 = 0) (hread : t.write = false)
    (hkind : s.adapter.kind = .mem) (hdue : Due s.adapter k)
    (hdelayed : s.adapter.state = .delay → s.adapter.savedMemAddr = t.addr ∧
      s.adapter.endpoint = d)
    (hoffered : s.adapter.state = .cpl → some s.adapter.completion =
      (d.serve (.memRead t.addr)).2 ∧ s.adapter.endpoint = d) :
    Stage d t wdata (s.step p b) := by
  have hmmio : (s.step p b).mmio = s.mmio.step params (s.mmioInputs p b) := rfl
  rw [MmioBridge.Regs.step, hstate] at hmmio
  dsimp only at hmmio
  cases k with
  | zero =>
    have hcpl := hdue.cpl_of_zero
    obtain ⟨hanswer, hend⟩ := hoffered hcpl
    have hvalid : (s.mmioInputs p b).memCplValid = true := by
      simp [Behind.mmioInputs, VendorAdapter.Regs.memCplValid, hcpl, hkind]
    have hadapter : (s.step p b).adapter = { s.adapter with state := .idle } := by
      show s.adapter.step (s.adapterInputs p) = _
      rw [VendorAdapter.step_cpl hcpl, VendorAdapter.delivers_eq]
      simp [hcpl, hkind, Behind.adapterInputs, MmioBridge.Regs.memCplReady, hstate]
    rw [if_pos hvalid] at hmmio
    rw [Endpoint.serve, Option.some_inj] at hanswer
    by_cases hhit : d.Hits t.addr
    · rw [if_pos hhit] at hanswer
      have h0 : (s.mmioInputs p b).memCplStatus = 0 :=
        congrArg VendorAdapter.Completion.status hanswer
      rw [if_neg (not_not.mpr h0)] at hmmio
      have hmemory : memory d t wdata = some (d.scratch, d) := by
        rw [memory, if_neg (not_not.mpr halign), if_neg (by simp [hread]), if_pos hhit]
      refine .okay (by rw [hmmio]) hmemory (fun _ => ?_) (by rw [hadapter])
        (by rw [hadapter]; exact hend)
      rw [hmmio]
      exact congrArg VendorAdapter.Completion.rdata hanswer
    · rw [if_neg hhit] at hanswer
      have hne : (s.mmioInputs p b).memCplStatus ≠ 0 := by
        rw [show (s.mmioInputs p b).memCplStatus = 1 from
          congrArg VendorAdapter.Completion.status hanswer]
        decide
      rw [if_pos hne] at hmmio
      refine .error (.inl (by rw [hmmio])) ?_ (by rw [hadapter]) (by rw [hadapter]; exact hend)
      rw [memory, if_neg (not_not.mpr halign), if_neg (by simp [hread]), if_neg hhit]
  | succ k =>
    have hdelay : s.adapter.state = .delay := by
      have hnot := hdue.not_cpl
      generalize hm : k + 1 = m at hdue
      cases hdue with
      | delay h _ => exact h
      | cpl _ => omega
    have hvalid : ¬(s.mmioInputs p b).memCplValid = true := by
      simp [Behind.mmioInputs, VendorAdapter.Regs.memCplValid, hdelay]
    obtain ⟨haddr, hend⟩ := hdelayed hdelay
    obtain ⟨hdue', hkind'⟩ := hdue.step (s.adapterInputs p)
    have hadapter : (s.step p b).adapter = s.adapter.step (s.adapterInputs p) := rfl
    rw [if_neg hvalid] at hmmio
    rw [VendorAdapter.step_delay hdelay] at hadapter
    refine .wait (k := k) (by rw [hmmio, hstate]) halign hread (hkind'.trans hkind) hdue' ?_ ?_
    · rw [hadapter]
      by_cases h0 : s.adapter.delayCount = 0
      · rw [if_neg (not_not.mpr h0)]
        intro h
        rw [s.adapter.complete_state] at h
        cases h
      · rw [if_pos h0]
        exact fun _ => ⟨haddr, hend⟩
    · rw [hadapter]
      by_cases h0 : s.adapter.delayCount = 0
      · rw [if_neg (not_not.mpr h0)]
        intro _
        have hserve := s.adapter.complete_serve
        have hsaved : s.adapter.saved = .memRead t.addr := by
          rw [VendorAdapter.Regs.saved, hkind, ← haddr]
        rw [hsaved, hend] at hserve
        exact ⟨(congrArg Prod.snd hserve).symm, (congrArg Prod.fst hserve).symm⟩
      · rw [if_pos h0]
        intro hcpl
        exact absurd (hdelay.symm.trans hcpl) (by decide)

/-- A cycle in which the bridge holds the bus. -/
theorem stage_step (h : Stage d t wdata s) (hsize : t.size = 0b010)
    (hin : inAperture t.addr = true) (hstall : s.mmio.hreadyout = false)
    (hcfg : p.reqValid = false)
    (hdata : s.mmio.transfer = t → t.write = true → b.hwdata = wdata) :
    Stage d t wdata (s.step p b) := by
  cases h with
  | dphase hstate ht hidle hend =>
    exact stage_dphase hstate ht hsize hin hidle hend hcfg (hdata ht)
  | issue hholds halign hidle hend => exact stage_issue hholds halign hidle hend hcfg
  | wait hstate halign hread hkind hdue hdelayed hoffered =>
    exact stage_wait hstate halign hread hkind hdue hdelayed hoffered
  | okay hstate _ _ _ _ => simp [MmioBridge.Regs.hreadyout, hstate] at hstall
  | error hstate hnone hidle hend =>
    rcases hstate with hstate | hstate
    · have hadapter := Behind.adapter_quiet (b := b) hidle hcfg (by simp [hstate])
      refine .error (.inr ?_) hnone (by rw [hadapter, hidle]) (by rw [hadapter, hend])
      show (s.mmio.step params (s.mmioInputs p b)).state = _
      rw [MmioBridge.Regs.step, hstate]
    · simp [MmioBridge.Regs.hreadyout, hstate] at hstall

/-- A bound on the cycles that a transfer still takes. -/
def Behind.lag (s : Behind) : Nat :=
  match s.mmio.state with
  | .dphase => 8
  | .issue => 7
  | .wait => if s.adapter.state = .cpl then 2 else s.adapter.delayCount.toNat + 3
  | .err1 => 1
  | _ => 0

theorem lag_wait (h : s.mmio.state = .wait) : s.lag ≤ 6 := by
  have hlt := s.adapter.delayCount.isLt
  simp only [Behind.lag, h]
  split_ifs <;> omega

/-- A cycle in which the bridge holds the bus brings its transfer nearer to its end. -/
theorem lag_step (h : Stage d t wdata s) (hstall : s.mmio.hreadyout = false)
    (hcfg : p.reqValid = false) : (s.step p b).lag < s.lag := by
  have hmmio : (s.step p b).mmio = s.mmio.step params (s.mmioInputs p b) := rfl
  cases h with
  | dphase hstate _ _ _ =>
    rw [MmioBridge.Regs.step, hstate] at hmmio
    dsimp only at hmmio
    split at hmmio <;> simp [Behind.lag, hmmio, hstate]
  | issue hholds _ hidle _ =>
    have hready : (s.mmioInputs p b).memReqReady = true := by
      simp [Behind.mmioInputs, Behind.adapterInputs, VendorAdapter.Regs.memReqReady, hidle, hcfg]
    rw [MmioBridge.Regs.step, hholds.state] at hmmio
    dsimp only at hmmio
    rw [if_pos hready] at hmmio
    have hlag : s.lag = 7 := by simp [Behind.lag, hholds.state]
    by_cases hwrite : s.mmio.writeR = true
    · rw [if_pos hwrite] at hmmio
      simp [Behind.lag, hmmio, hholds.state]
    · rw [if_neg hwrite] at hmmio
      have := lag_wait (s := s.step p b) (by rw [hmmio])
      omega
  | @wait k hstate _ _ hkind hdue _ _ =>
    rw [MmioBridge.Regs.step, hstate] at hmmio
    dsimp only at hmmio
    cases hdue with
    | cpl hcpl =>
      have hvalid : (s.mmioInputs p b).memCplValid = true := by
        simp [Behind.mmioInputs, VendorAdapter.Regs.memCplValid, hcpl, hkind]
      rw [if_pos hvalid] at hmmio
      split at hmmio <;> simp [Behind.lag, hmmio, hstate, hcpl]
    | delay hdelay hle =>
      have hvalid : ¬(s.mmioInputs p b).memCplValid = true := by
        simp [Behind.mmioInputs, VendorAdapter.Regs.memCplValid, hdelay]
      have hadapter : (s.step p b).adapter = s.adapter.step (s.adapterInputs p) := rfl
      rw [if_neg hvalid] at hmmio
      rw [VendorAdapter.step_delay hdelay] at hadapter
      have hlag : s.lag = s.adapter.delayCount.toNat + 3 := by simp [Behind.lag, hstate, hdelay]
      by_cases h0 : s.adapter.delayCount = 0
      · rw [if_neg (not_not.mpr h0)] at hadapter
        have hcpl : (s.step p b).adapter.state = .cpl := by rw [hadapter, s.adapter.complete_state]
        have : (s.step p b).lag = 2 := by simp [Behind.lag, hmmio, hstate, hcpl]
        omega
      · rw [if_pos h0] at hadapter
        have : (s.step p b).lag = (s.adapter.delayCount - 1).toNat + 3 := by
          simp [Behind.lag, hmmio, hstate, hadapter, hdelay]
        bv_omega
  | okay hstate _ _ _ _ => simp [MmioBridge.Regs.hreadyout, hstate] at hstall
  | error hstate _ _ _ =>
    rcases hstate with hstate | hstate
    · rw [MmioBridge.Regs.step, hstate] at hmmio
      simp [Behind.lag, hmmio, hstate]
    · simp [MmioBridge.Regs.hreadyout, hstate] at hstall

end Stage

section Access

variable {w w' : System} {d : Endpoint} {t : Transfer} {wdata value : Word} {o : Op}

/-- The register slave is unoccupied while a transfer is on its way. -/
structure InAccess (w : System) (d : Endpoint) (t : Transfer) (value wdata : Word) : Prop where
  unoccupied : w.world.Unoccupied
  idle : w.world.regs.dphaseValid = false
  wdata : w.world.wdata = wdata
  stage : Stage d t value w.backend
  data : t.write = true → w.world.hwdata = value

theorem InAccess.stall (h : InAccess w d t value wdata) (hsize : t.size = 0b010)
    (hin : inAperture t.addr = true) (hs : ApertureStall w w') :
    InAccess w' d t value wdata := by
  cases hs with
  | @clock b hstall hready hdata =>
    have hdrives : w.world.Drives (w.inputs { b with hsel := false }) :=
      ⟨fun hv => absurd (h.idle.symm.trans hv) nofun, fun hwriting => by
        simp [Regs.writing, h.idle] at hwriting⟩
    obtain ⟨hu, hw, hdphase⟩ := unoccupied_clock h.unoccupied hdrives rfl
    have hcfg : w.port.reqValid = false := decide_eq_false (by simp [h.unoccupied.state])
    refine ⟨hu, hdphase, ?_, stage_step h.stage hsize hin hstall hcfg fun ht hwrite => ?_, h.data⟩
    · rw [← h.wdata, ← hw]
      exact wdata_quiet hdphase
    · rw [hdata ((congrArg Transfer.write ht).trans hwrite), h.data hwrite]

def dataOf : Op → Word
  | .load _ => 0
  | .store _ value => value

def transferOf (o : Op) : Transfer := ⟨o.addr, o.isStore, 0b010⟩

theorem InAccess.address (h : Resting w d wdata) (ha : ApertureAddress w o w') :
    InAccess w' d (transferOf o) (dataOf o) wdata := by
  cases ha with
  | @clock b hd hready hphase haddr hwrite hsize =>
    obtain ⟨hu, hw, hdphase⟩ := unoccupied_clock h.unoccupied hd rfl
    have hcfg : w.port.reqValid = false := decide_eq_false (by simp [h.unoccupied.state])
    have hmem : w.backend.mmio.state ≠ .issue := by rcases h.rest.mmio with h | h <;> simp [h]
    have hadapter := Behind.adapter_quiet (b := b) h.rest.adapter hcfg hmem
    have hmmio : (w.backend.step w.port b).mmio =
        w.backend.mmio.capture (w.backend.mmioInputs w.port b) := by
      show w.backend.mmio.step params (w.backend.mmioInputs w.port b) = _
      rcases h.rest.mmio with hstate | hstate
      · rw [MmioBridge.Regs.step, hstate]
        exact if_pos hphase
      · rw [MmioBridge.Regs.step, hstate]
        exact if_pos hphase
    refine ⟨⟨hu.state, hu.busy, hu.noDoorbell⟩, hdphase, ?_, ?_, ?_⟩
    · rw [← h.wdata, ← hw]
      exact wdata_quiet hdphase
    · refine .dphase (by rw [hmmio]; rfl) ?_ (by rw [hadapter, h.rest.adapter])
        (by rw [hadapter, h.rest.endpoint])
      rw [hmmio, transferOf, ← haddr, ← hwrite, ← hsize]
      rfl
    · cases o with
      | load _ => exact fun hw => (Bool.false_ne_true hw).elim
      | store _ _ => exact fun _ => rfl

/-- An access of the aperture is one of the endpoint. -/
theorem aperture_access (h : Resting w d wdata) (hin : inAperture o.addr = true)
    (ha : ApertureAccess w o w') :
    match memory d (transferOf o) (dataOf o) with
    | some (v, d') => w'.backend.mmio.hresp = false ∧
      (o.isStore = false → w'.backend.mmio.hrdata = v) ∧ Resting w' d' wdata
    | none => w'.backend.mmio.hresp = true := by
  obtain ⟨⟨w1, w2, hquiet, haddress, hstalls⟩, hready⟩ := ha
  have h1 : Resting w1 d wdata := by
    clear haddress hstalls
    induction hquiet with
    | refl => exact h
    | tail _ hs ih => exact ih.quiet hs
  have hend : InAccess w' d (transferOf o) (dataOf o) wdata := by
    clear hready
    induction hstalls with
    | refl => exact .address h1 haddress
    | tail _ hs ih => exact ih.stall rfl hin hs
  cases hend.stage with
  | dphase hstate _ _ _ => simp [MmioBridge.Regs.hreadyout, hstate] at hready
  | issue hholds _ _ _ => simp [MmioBridge.Regs.hreadyout, hholds.state] at hready
  | wait hstate _ _ _ _ _ _ => simp [MmioBridge.Regs.hreadyout, hstate] at hready
  | okay hstate hmemory hdata hidle hendpoint =>
    rw [hmemory]
    exact ⟨by simp [MmioBridge.Regs.hresp, hstate], hdata,
      ⟨hend.unoccupied, ⟨hidle, hendpoint, .inr hstate⟩, hend.wdata⟩⟩
  | error hstate hmemory _ _ =>
    rw [hmemory]
    rcases hstate with hstate | hstate <;> simp [MmioBridge.Regs.hresp, hstate]

/-- The bridge lets go of the bus in the end, even if nothing happens on it. -/
theorem InAccess.ends (h : InAccess w d t value wdata) (hsize : t.size = 0b010)
    (hin : inAperture t.addr = true) :
    ∃ w', Relation.ReflTransGen ApertureStall w w' ∧ w'.backend.mmio.hreadyout = true := by
  generalize hn : w.backend.lag = n
  induction n using Nat.strong_induction_on generalizing w with
  | _ n ih =>
    cases hready : w.backend.mmio.hreadyout with
    | true => exact ⟨w, .refl, hready⟩
    | false =>
      have hstall : ApertureStall w
          (w.apertureClock ⟨false, 0, 0, false, 0, w.world.hwdata, false⟩) :=
        .clock hready rfl fun _ => rfl
      have hcfg : w.port.reqValid = false := decide_eq_false (by simp [h.unoccupied.state])
      obtain ⟨w', hstalls, hready'⟩ := ih _ (hn ▸ lag_step h.stage hready hcfg)
        (h.stall hsize hin hstall) rfl
      exact ⟨w', .head hstall hstalls, hready'⟩

/-- An access of the aperture comes to an end. -/
theorem aperture_ends (h : Resting w d wdata) (hin : inAperture o.addr = true) :
    ∃ w', ApertureAccess w o w' := by
  have hready : w.backend.mmio.hreadyout = true := by
    rcases h.rest.mmio with hstate | hstate <;> simp [MmioBridge.Regs.hreadyout, hstate]
  have haddress := ApertureAddress.clock (w := w) (o := o)
    (b := ⟨true, o.addr, 0b10, o.isStore, 0b010, w.world.hwdata, true⟩)
    ⟨fun _ => rfl, fun _ => rfl⟩ hready
    (by simp [Behind.mmioInputs, MmioBridge.Inputs.addressPhase]) rfl rfl rfl
  obtain ⟨w', hstalls, hready'⟩ := (InAccess.address h haddress).ends rfl hin
  exact ⟨w', ⟨w, _, .refl, haddress, hstalls⟩, hready'⟩

end Access

end CortexLabs.Pcie.RootPort
