import CortexLabs.Pcie.HostStack

/-! LabH1 and LabH2 whole: the programs, their drivers, the bridge and the backend.  Each backend is
a device that answers in time, so every sequence of calls is one of requests of that device, and the
test programs of the two labs come to their last stage, whatever the timing of the bus. -/

namespace CortexLabs.Pcie

open Device HostBridge

/-! ### The backends -/

namespace Backend

/-- The endpoint holds the packet of `q`, over a scratch register that holds `scratch`. -/
structure Holds (s : Regs) (q : Request) (scratch : Word) : Prop where
  opcode : s.savedOpcode = Pcie.opcode q.type
  bdf : s.savedBdf = q.bdf
  reg : s.savedReg = q.reg
  wdata : s.savedWdata = q.wdata
  scratch : s.cfgScratch = scratch

/-- The answer of the endpoint to what it holds. -/
structure Offers (s : Regs) (r : Result) (scratch : Word) : Prop where
  pending : s.pending = false
  valid : s.cplValid = true
  status : cplStatus s = r.status
  rdata : cplRdata s = r.rdata
  scratch : s.cfgScratch = scratch

/-- The scratch register of an endpoint that does not work has served all it has accepted. -/
theorem Serving.scratch {r : Regs} {qs : List Request} {cs : List Result} (h : Serving r qs cs)
    (hpending : r.pending = false) : r.cfgScratch = ConfigSpace.after qs := by
  cases h with
  | free _ _ hscratch => exact hscratch
  | working h _ _ _ => exact absurd (hpending.symm.trans h) nofun
  | offering _ _ hscratch _ => exact hscratch

theorem Holds.complete {s : Regs} {q : Request} {scratch : Word} (h : Holds s q scratch) :
    Offers s.complete (ConfigSpace.result scratch q) (ConfigSpace.next scratch q) := by
  -- The scratch register holds what a write of it would have left there.
  have hafter : ConfigSpace.after [⟨reqCfgWrite, 0x800, 0x40, scratch⟩] = scratch := rfl
  have hserving := complete_serves (r := s) (q := q) (h.scratch.trans hafter.symm)
    ⟨h.opcode, h.bdf, h.reg, h.wdata⟩
  obtain ⟨before, q', hqs, -, hresult⟩ := hserving.owes (.inr (complete_offers s).2)
  obtain ⟨rfl, rfl⟩ : before = [⟨reqCfgWrite, 0x800, 0x40, scratch⟩] ∧ q' = q := by
    obtain ⟨h1, h2⟩ := List.append_inj' hqs rfl
    exact ⟨h1.symm, (List.singleton_inj.mp h2).symm⟩
  have hanswer := hresult (complete_offers s).2
  rw [hafter] at hanswer
  refine ⟨(complete_offers s).1, (complete_offers s).2, congrArg Result.status hanswer,
    congrArg Result.rdata hanswer, ?_⟩
  rw [hserving.scratch (complete_offers s).1, ConfigSpace.after_snoc, hafter]

/-- The endpoint works on a request, or offers its result. -/
def Works (s : Regs) (k : Nat) (r : Result) (scratch : Word) : Prop :=
  match k with
  | 0 => Offers s r scratch
  | k + 1 => s.pending = true ∧ s.cplValid = false ∧ s.delayCount.toNat = k ∧
    ∃ q scratch0, Holds s q scratch0 ∧ r = ConfigSpace.result scratch0 q ∧
      scratch = ConfigSpace.next scratch0 q

theorem Works.step {s : Regs} {k : Nat} {r : Result} {scratch : Word} {p : Port}
    (h : Works s (k + 1) r scratch) :
    s.cplValid = false ∧ Works (Backend.step s p) k r scratch := by
  obtain ⟨hpending, hvalid, hcount, q, scratch0, hholds, rfl, rfl⟩ := h
  refine ⟨hvalid, ?_⟩
  cases k with
  | zero =>
    have h0 : s.delayCount = 0 := BitVec.eq_of_toNat_eq hcount
    rw [step_completes hpending hvalid h0]
    exact hholds.complete
  | succ k =>
    have hne : s.delayCount ≠ 0 := fun h0 => by simp [h0] at hcount
    have hless : (s.delayCount - 1).toNat = k := by bv_omega
    rw [step_delays hpending hvalid hne]
    obtain ⟨h1, h2, h3, h4, h5⟩ := hholds
    exact ⟨hpending, hvalid, hless, q, scratch0, ⟨h1, h2, h3, h4, h5⟩, rfl, rfl⟩

/-- The transaction model is the sequential configuration space, with three cycles of latency. -/
def server : Server Word where
  State := Regs
  step s p _ := Backend.step s p
  reqReady := EndpointModel.Regs.reqReady
  cplValid s := s.cplValid
  cplStatus := cplStatus
  cplRdata := cplRdata
  serve scratch q := (ConfigSpace.result scratch q, ConfigSpace.next scratch q)
  latency := 3
  Rest s scratch := s.pending = false ∧ s.cplValid = false ∧ s.cfgScratch = scratch
  Works := Works
  ready h := reqReady_free h.1 h.2.1
  rest h hreq := by
    rw [step_free h.1 h.2.1 hreq]
    exact h
  accept := by
    rintro s scratch p _ ⟨hpending, hvalid, hscratch⟩ hreq
    refine ⟨3, Nat.le_refl 3, ?_⟩
    rw [step_accepts hpending hvalid hreq]
    exact ⟨rfl, hvalid, rfl, p.req, scratch, ⟨rfl, rfl, rfl, rfl, hscratch⟩, rfl, rfl⟩
  work := Works.step
  offer := by
    rintro s r scratch p _ ⟨hpending, hvalid, hstatus, hrdata, hscratch⟩
    refine ⟨hvalid, hstatus, hrdata, fun hready => ?_⟩
    rw [step_offers hpending hvalid, if_pos hready]
    exact ⟨hpending, rfl, hscratch⟩

end Backend

namespace BackendStub

/-- The stub's answer to a request. -/
def answer (q : Request) : Result :=
  if q.type = reqCfgRead then
    ⟨0, if q.bdf = endpointBdf ∧ q.reg = 0 then 0x56781234 else 0xffffffff⟩
  else if q.type = reqCfgWrite then ⟨0, 0⟩
  else ⟨1, 0xffffffff⟩

def Works (s : Regs) (k : Nat) (r : Result) : Prop :=
  match k with
  | 0 => s.pending = false ∧ s.cplValid = true ∧ s.cplStatus = r.status ∧ s.cplRdata = r.rdata
  | k + 1 => s.pending = true ∧ s.cplValid = false ∧ s.delayCount.toNat = k ∧
    ∃ q, s.savedType = q.type ∧ s.savedBdf = q.bdf ∧ s.savedReg = q.reg ∧ r = answer q

theorem Works.step {s : Regs} {k : Nat} {r : Result} {p : Port} (h : Works s (k + 1) r) :
    s.cplValid = false ∧ Works (s.step p) k r := by
  obtain ⟨hpending, hvalid, hcount, q, htype, hbdf, hreg, rfl⟩ := h
  refine ⟨hvalid, ?_⟩
  have hready : s.reqReady = false := by simp [Regs.reqReady, hpending]
  cases k with
  | zero =>
    have h0 : s.delayCount = 0 := BitVec.eq_of_toNat_eq hcount
    have hstep : s.step p = s.complete s := by
      simp [Regs.step, hready, hpending, hvalid, h0]
    rw [hstep]
    unfold Regs.complete answer
    dsimp only
    rw [htype, hbdf, hreg]
    split_ifs <;> exact ⟨rfl, rfl, rfl, rfl⟩
  | succ k =>
    have hne : s.delayCount ≠ 0 := fun h0 => by simp [h0] at hcount
    have hless : (s.delayCount - 1).toNat = k := by bv_omega
    have hstep : s.step p = { s with delayCount := s.delayCount - 1 } := by
      simp only [Regs.step, hready, hpending, hvalid, hne, Bool.and_false, Bool.false_and,
        Bool.false_eq_true, if_false, if_true, ne_eq, not_false_eq_true]
    rw [hstep]
    exact ⟨hpending, hvalid, hless, q, htype, hbdf, hreg, rfl⟩

/-- The stub keeps no state between requests. -/
def server : Server Unit where
  State := Regs
  step s p _ := s.step p
  reqReady := Regs.reqReady
  cplValid s := s.cplValid
  cplStatus s := s.cplStatus
  cplRdata s := s.cplRdata
  serve _ q := (answer q, ())
  latency := 3
  Rest s _ := s.pending = false ∧ s.cplValid = false
  Works s k r _ := Works s k r
  ready h := by simp [Regs.reqReady, h.1, h.2]
  rest h hreq := by
    simp [Regs.step, hreq, h.1, h.2]
  accept := by
    rintro s _ p _ ⟨hpending, hvalid⟩ hreq
    refine ⟨3, Nat.le_refl 3, ?_⟩
    simp only [Regs.step, Regs.reqReady, hreq, hpending, hvalid]
    exact ⟨rfl, hvalid, rfl, p.req, rfl, rfl, rfl, rfl⟩
  work := Works.step
  offer := by
    rintro s r _ p _ ⟨hpending, hvalid, hstatus, hrdata⟩
    refine ⟨hvalid, hstatus, hrdata, fun hready => ?_⟩
    simp [Regs.step, Regs.reqReady, hpending, hvalid, hready]

end BackendStub

/-! ### Sequences of calls -/

/-- The bridge and its backend after reset. -/
def Stack.start {δ : Type} {S : Server δ} (backend : S.State) : Stack S := ⟨.start, backend⟩

theorem start_resting {δ : Type} {S : Server δ} {backend : S.State} {d : δ}
    (h : S.Rest backend d) : Resting (Stack.start backend : Stack S) d 0 :=
  ⟨World.start_unoccupied, h, rfl⟩

theorem labh2_start : Resting (.start EndpointModel.Regs.reset : Stack Backend.server) 0 0 :=
  start_resting ⟨rfl, rfl, rfl⟩

/-- The stack of LabH2 is the wrapper over the transaction model. -/
theorem labh2_clock (w : Stack Backend.server) (b : Ahb) :
    (⟨(w.clock b).world.regs, (w.clock b).backend⟩ : Wrapper) =
      (⟨w.world.regs, w.backend⟩ : Wrapper).step b := rfl

theorem labh2_suits : labh2.Suits Backend.server :=
  ⟨labh2_conforms, by decide, fun r hbusy => by
    by_contra hne
    exact absurd (((status_bits r).1.mp hne).symm.trans hbusy) nofun⟩

theorem labh1_suits : labh1.Suits BackendStub.server :=
  ⟨labh1_conforms, by decide, fun r _ => (status_bits r).2.2.2⟩

/-- A LabH2 call on a configuration space whose scratch register holds `scratch`. -/
def labh2Reply (scratch : Word) : Call → Driver.Result × Word
  | .read bdf reg value => ((labh2.ok, value.map fun _ =>
      if bdf = 0x800 ∧ reg.setWidth 10 = (0 : BitVec 10) then 0x56781234
      else if bdf = 0x800 ∧ reg.setWidth 10 = (0x40 : BitVec 10) then scratch
      else 0xffffffff), scratch)
  | .write bdf reg value => ((labh2.ok, none),
      if bdf = 0x800 ∧ reg.setWidth 10 = (0x40 : BitVec 10) then value else scratch)

theorem labh2_wp (scratch : Word) (c : Call) (w : Stack Backend.server)
    (h : ∃ wdata, Resting w scratch wdata) :
    wp (stack Backend.server) (fun res w' => res = (labh2Reply scratch c).1 ∧
      ∃ wdata, Resting w' (labh2Reply scratch c).2 wdata) (labh2Program c) w := by
  obtain ⟨wdata, h⟩ := h
  cases c with
  | read bdf reg value =>
    refine wp_mono (read_wp labh2_suits bdf reg value h) ?_
    rintro _ w' ⟨rfl, hw'⟩
    exact ⟨rfl, wdata, hw'⟩
  | write bdf reg value =>
    refine wp_mono (write_wp labh2_suits bdf reg value h) ?_
    rintro _ w' ⟨rfl, hw'⟩
    refine ⟨rfl, value, ?_⟩
    have hnext : (Backend.server.serve scratch ⟨reqCfgWrite, bdf, reg.setWidth 10, value⟩).2 =
        (labh2Reply scratch (.write bdf reg value)).2 := by
      show ConfigSpace.next scratch _ = _
      simp [ConfigSpace.next, labh2Reply]
    rwa [hnext] at hw'

/-- Every sequence of LabH2 calls after reset succeeds, call by call, with the data of the
configuration space that makes them one after the other. -/
theorem labh2_stack {cs : List Call} {t : List (Device.Event (stack Backend.server))}
    {rs : List Driver.Result} {w' : Stack Backend.server}
    (h : Exec (stack Backend.server) (cs.mapM labh2Program) (.start EndpointModel.Regs.reset) t
      (some rs) w') :
    rs = (replies labh2Reply 0 cs).1 :=
  (wp_sound (wp_mapM labh2_wp cs ⟨0, labh2_start⟩) h).1

/-- A write of the scratch register and a read of it. -/
theorem labh2_stack_scratch : ∃ t w', Exec (stack Backend.server)
    ([Call.write 0x800 0x40 5, .read 0x800 0x40 (some 0)].mapM labh2Program)
    (.start EndpointModel.Regs.reset) t (some [(0, none), (0, some 5)]) w' := by
  obtain ⟨t, ht⟩ := stack_immediate.exec
    ([Call.write 0x800 0x40 5, .read 0x800 0x40 (some 0)].mapM labh2Program)
    (.start EndpointModel.Regs.reset : Stack Backend.server)
  have hreplies := labh2_stack ht
  exact ⟨t, _, hreplies ▸ ht⟩

/-- A LabH1 call, which the stub answers without a memory of earlier ones. -/
def labh1Reply : Call → Driver.Result
  | .read _ _ none => (labh1ErrArgument, none)
  | .read bdf reg (some _) => (labh1.ok,
      some (if bdf = endpointBdf ∧ reg.setWidth 10 = (0 : BitVec 10) then 0x56781234
        else 0xffffffff))
  | .write .. => (labh1.ok, none)

theorem labh1_wp (c : Call) (w : Stack BackendStub.server) (h : ∃ wdata, Resting w () wdata) :
    wp (stack BackendStub.server) (fun res w' => res = labh1Reply c ∧
      ∃ wdata, Resting w' () wdata) (labh1Program c) w := by
  obtain ⟨wdata, h⟩ := h
  cases c with
  | read bdf reg value =>
    cases value with
    | none => exact ⟨rfl, wdata, h⟩
    | some v =>
      refine wp_mono (read_wp labh1_suits bdf reg (some v) h) ?_
      rintro _ w' ⟨rfl, hw'⟩
      exact ⟨rfl, wdata, hw'⟩
  | write bdf reg value =>
    refine wp_mono (write_wp labh1_suits bdf reg value h) ?_
    rintro _ w' ⟨rfl, hw'⟩
    exact ⟨rfl, value, hw'⟩

theorem labh1_start : Resting (.start BackendStub.Regs.reset : Stack BackendStub.server) () 0 :=
  start_resting ⟨rfl, rfl⟩

/-- Every sequence of LabH1 calls after reset succeeds but for the reads without a pointer, call by
call, with the data of the stub: over it, the busy bit that the driver tests is never needed. -/
theorem labh1_stack {cs : List Call} {t : List (Device.Event (stack BackendStub.server))}
    {rs : List Driver.Result} {w' : Stack BackendStub.server}
    (h : Exec (stack BackendStub.server) (cs.mapM labh1Program) (.start BackendStub.Regs.reset) t
      (some rs) w') : rs = cs.map labh1Reply := by
  have hreplies : rs = (replies (fun (_ : Unit) c => (labh1Reply c, ())) () cs).1 :=
    (wp_sound (wp_mapM (fun _ => labh1_wp) cs ⟨0, labh1_start⟩) h).1
  rw [hreplies, replies_map]

theorem labh1_stack_read : ∃ t w', Exec (stack BackendStub.server)
    ([Call.read 0x800 0 none, .read 0x800 0 (some 0)].mapM labh1Program)
    (.start BackendStub.Regs.reset) t (some [(-1, none), (0, some 0x56781234)]) w' := by
  obtain ⟨t, ht⟩ := stack_immediate.exec
    ([Call.read 0x800 0 none, .read 0x800 0 (some 0)].mapM labh1Program)
    (.start BackendStub.Regs.reset : Stack BackendStub.server)
  have hreplies := labh1_stack ht
  exact ⟨t, _, hreplies ▸ ht⟩

/-! ### The test programs -/

abbrev stageFailed : Word := 0xffffffff

/-- `g_stage` and the other variables that a debugger sees, of LabH2. -/
structure Labh2Debug where
  stage : Word
  version : Word
  id : Word
  readback : Word
  absentValue : Word
  vendor : BitVec 16
  device : BitVec 16
  result : Int
  deriving DecidableEq

def Labh2Debug.zero : Labh2Debug := ⟨0, 0, 0, 0, 0, 0, 0, 0⟩

def Labh2Debug.failed (g : Labh2Debug) : Labh2Debug := { g with stage := stageFailed }

abbrev labh2CfgScratchOffset : Word := 0x040
abbrev labh2CfgScratchValue : Word := 0xa5a55a5a

/-- `M3DS_PCIE_BDF`. -/
def bdfOf (bus dev fn : Word) : Word :=
  (bus &&& 0xff) <<< 16 ||| (dev &&& 0x1f) <<< 11 ||| (fn &&& 0x07) <<< 8

def labh2Stage5 (g : Labh2Debug) : CsrProgram Labh2Debug := do
  let (result, absentValue) ← labh2ConfigRead32 (bdfOf 0 2 0) 0x000 (some g.absentValue)
  let g := { g with result, absentValue := absentValue.getD g.absentValue }
  if g.result ≠ labh2.ok ∨ g.absentValue ≠ (0xffffffff : Word) then return g.failed
  return { g with stage := 6 }

def labh2Stage4 (g : Labh2Debug) : CsrProgram Labh2Debug := do
  let (result, readback) ←
    labh2ConfigRead32 (bdfOf 0 1 0) labh2CfgScratchOffset (some g.readback)
  let g := { g with result, readback := readback.getD g.readback }
  if g.result ≠ labh2.ok ∨ g.readback ≠ labh2CfgScratchValue then return g.failed
  labh2Stage5 { g with stage := 5 }

def labh2Stage3 (g : Labh2Debug) : CsrProgram Labh2Debug := do
  let (result, _) ← labh2ConfigWrite32 (bdfOf 0 1 0) labh2CfgScratchOffset labh2CfgScratchValue
  let g := { g with result }
  if g.result ≠ labh2.ok then return g.failed
  labh2Stage4 { g with stage := 4 }

def labh2Stage2 (g : Labh2Debug) : CsrProgram Labh2Debug := do
  let (result, id) ← labh2ConfigRead32 (bdfOf 0 1 0) 0x000 (some g.id)
  let g := { g with result, id := id.getD g.id }
  if g.result ≠ labh2.ok then return g.failed
  let g := { g with vendor := g.id.setWidth 16, device := (g.id >>> 16).setWidth 16 }
  if g.vendor ≠ (0x1234 : BitVec 16) ∨ g.device ≠ (0x5678 : BitVec 16) then return g.failed
  labh2Stage3 { g with stage := 3 }

/-- `main` of LabH2, stage by stage, up to the loop that it ends in. -/
def labh2Main : CsrProgram Labh2Debug := do
  let g := { Labh2Debug.zero with stage := 1 }
  let version ← load (labh2.base + 0x00)
  let g := { g with version }
  if g.version ≠ versionValue then return g.failed
  store (labh2.base + 0x04) controlEnable
  labh2Stage2 { g with stage := 2 }

/-- The variables that a debugger sees, of LabH1. -/
structure Labh1Debug where
  stage : Word
  initResult : Int
  cfgResult : Int
  version : Word
  endpointBdf : Word
  id : Word
  vendor : BitVec 16
  device : BitVec 16
  deriving DecidableEq

def Labh1Debug.zero : Labh1Debug := ⟨0, 0, 0, 0, 0, 0, 0, 0⟩

def Labh1Debug.failed (g : Labh1Debug) : Labh1Debug := { g with stage := stageFailed }

abbrev labh1ErrVersion : Int := -2

def labh1PcieVersion : CsrProgram Word := load (labh1.base + 0x00)

def labh1PcieHostInit : CsrProgram Int := do
  let version ← load (labh1.base + 0x00)
  if version ≠ versionValue then return labh1ErrVersion
  store (labh1.base + 0x04) controlEnable
  return labh1.ok

def labh1Stage2 (g : Labh1Debug) : CsrProgram Labh1Debug := do
  let (cfgResult, id) ← labh1PcieConfigRead32 g.endpointBdf 0 (some g.id)
  let g := { g with cfgResult, id := id.getD g.id }
  if g.cfgResult ≠ labh1.ok then return g.failed
  let g := { g with vendor := g.id.setWidth 16, device := (g.id >>> 16).setWidth 16 }
  if g.vendor ≠ (0x1234 : BitVec 16) ∨ g.device ≠ (0x5678 : BitVec 16) then return g.failed
  return { g with stage := 3 }

/-- `main` of LabH1, up to the loop that it ends in. -/
def labh1Main : CsrProgram Labh1Debug := do
  let g := { Labh1Debug.zero with stage := 1 }
  let version ← labh1PcieVersion
  let initResult ← labh1PcieHostInit
  let g := { g with version, initResult }
  if g.initResult ≠ labh1.ok then return g.failed
  labh1Stage2 { g with endpointBdf := bdfOf 0 1 0, stage := 2 }

section Programs

variable {δ : Type} {S : Server δ} {d : δ} {wdata : Word} {w : Stack S}

/-- A resting bridge shows its version. -/
theorem version_wp {α : Type} (base : Word) {f : Word → CsrProgram α} {Q : α → Stack S → Prop}
    (hbase : base.setWidth 16 = regVersion) (h : Resting w d wdata)
    (hf : ∀ w', Resting w' d wdata → wp (stack S) Q (f versionValue) w') :
    wp (stack S) Q (load base >>= f) w := by
  intro v w' ha
  obtain ⟨-, hv, h1, h2, h3⟩ := answer_load (answer_csr ha)
  have hversion : v = versionValue := by
    rw [hv, Regs.hrdata, h1, h2, h3, hbase]
    rfl
  subst hversion
  exact hf w' (h.load ha).1

theorem control_wp {α : Type} {addr value : Word} {p : CsrProgram α} {Q : α → Stack S → Prop}
    (haddr : addr.setWidth 16 = regControl) (h : Resting w d wdata)
    (hp : ∀ w', Resting w' d wdata → wp (stack S) Q p w') :
    wp (stack S) Q (do store addr value; p) w := by
  intro _ w' ha
  obtain ⟨h', -⟩ := h.store ha (by rw [haddr]; decide)
  rw [haddr, if_neg (by decide)] at h'
  exact hp w' h'

end Programs

theorem labh2Stage4_wp {w : Stack Backend.server} {g : Labh2Debug}
    (h : ∃ wdata, Resting w labh2CfgScratchValue wdata) :
    wp (stack Backend.server) (fun g' _ => g' = { g with
      stage := 6, readback := labh2CfgScratchValue, absentValue := 0xffffffff
      result := labh2.ok }) (labh2Stage4 g) w := by
  refine wp_seq (labh2_wp _ (.read (bdfOf 0 1 0) labh2CfgScratchOffset (some g.readback)) w h) ?_
  rintro _ w1 ⟨rfl, h1⟩
  refine wp_seq (labh2_wp _ (.read (bdfOf 0 2 0) 0x000 (some g.absentValue)) w1 h1) ?_
  rintro _ w2 ⟨rfl, -⟩
  rfl

theorem labh2Main_wp {w : Stack Backend.server} (h : Resting w 0 0) :
    wp (stack Backend.server) (fun g _ => g = ⟨6, versionValue, 0x56781234, labh2CfgScratchValue,
      0xffffffff, 0x1234, 0x5678, labh2.ok⟩) labh2Main w := by
  refine version_wp (labh2.base + 0x00) (by decide) h fun w1 h1 => ?_
  refine control_wp (by decide) h1 fun w2 h2 => ?_
  refine wp_seq (labh2_wp 0 (.read (bdfOf 0 1 0) 0x000 (some 0)) w2 ⟨0, h2⟩) ?_
  rintro _ w3 ⟨rfl, h3⟩
  refine wp_seq (labh2_wp 0 (.write (bdfOf 0 1 0) labh2CfgScratchOffset labh2CfgScratchValue)
    w3 h3) ?_
  rintro _ w4 ⟨rfl, h4⟩
  exact wp_mono (labh2Stage4_wp h4) fun g _ hg => hg

theorem labh1Main_wp {w : Stack BackendStub.server} (h : Resting w () 0) :
    wp (stack BackendStub.server) (fun g _ => g = ⟨3, labh1.ok, labh1.ok, versionValue, 0x800,
      0x56781234, 0x1234, 0x5678⟩) labh1Main w := by
  refine version_wp (labh1.base + 0x00) (by decide) h fun w1 h1 => ?_
  refine version_wp (labh1.base + 0x00) (by decide) h1 fun w2 h2 => ?_
  refine control_wp (by decide) h2 fun w3 h3 => ?_
  refine wp_seq (labh1_wp (.read (bdfOf 0 1 0) 0 (some 0)) w3 ⟨0, h3⟩) ?_
  rintro _ w4 ⟨rfl, -⟩
  rfl

/-- The test programs of LabH1 and LabH2 come to an end, and whatever the timing of the bus, they
end in their last stages, with what they are meant to have read. -/
theorem mains_pass :
    (∃ t g w', Exec (stack BackendStub.server) labh1Main (.start BackendStub.Regs.reset) t
      (some g) w') ∧
    (∀ t g w', Exec (stack BackendStub.server) labh1Main (.start BackendStub.Regs.reset) t
      (some g) w' →
      g = ⟨3, labh1.ok, labh1.ok, versionValue, 0x800, 0x56781234, 0x1234, 0x5678⟩) ∧
    (∃ t g w', Exec (stack Backend.server) labh2Main (.start EndpointModel.Regs.reset) t
      (some g) w') ∧
    ∀ t g w', Exec (stack Backend.server) labh2Main (.start EndpointModel.Regs.reset) t
      (some g) w' →
      g = ⟨6, versionValue, 0x56781234, labh2CfgScratchValue, 0xffffffff, 0x1234, 0x5678,
        labh2.ok⟩ := by
  refine ⟨?_, fun _ _ _ h => wp_sound (labh1Main_wp labh1_start) h, ?_,
    fun _ _ _ h => wp_sound (labh2Main_wp labh2_start) h⟩
  · obtain ⟨t, ht⟩ := (stack_immediate (S := BackendStub.server)).exec labh1Main
      (.start BackendStub.Regs.reset)
    exact ⟨t, _, _, ht⟩
  · obtain ⟨t, ht⟩ := (stack_immediate (S := Backend.server)).exec labh2Main
      (.start EndpointModel.Regs.reset)
    exact ⟨t, _, _, ht⟩

end CortexLabs.Pcie
