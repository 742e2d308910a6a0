import CortexLabs.Device.Total
import CortexLabs.Pcie.RootPortAperture

/-! LabH3 whole: the program, its driver and its accesses to the aperture, over the root port.  One
CPU makes them all, so a request of either bus is over before the next one begins, and a program on
the root port is one on the sequential endpoint.  That endpoint gets the data of each configuration
write one write late, and so the test program never comes past its sizing of BAR0. -/

namespace CortexLabs.Pcie.RootPort

open Device HostBridge
open VendorAdapter (Endpoint)

/-! ### The calls and the accesses of LabH3 -/

/-- What a program does: it calls its driver, or it reads or writes a word of the aperture. -/
inductive Access where
  | config (c : Call)
  | read (addr : Word)
  | write (addr value : Word)

def Access.program : Access → CsrProgram Driver.Result
  | .config (.read bdf reg value) => labh3ConfigRead32 bdf reg value
  | .config (.write bdf reg value) => labh3ConfigWrite32 bdf reg value
  | .read addr => do
    let v ← load addr
    return (labh3.ok, some v)
  | .write addr value => do
    store addr value
    return (labh3.ok, none)

def Access.Allowed : Access → Prop
  | .config _ => True
  | .read addr | .write addr _ => inAperture addr = true

instance : DecidablePred Access.Allowed
  | .config _ => inferInstanceAs (Decidable True)
  | .read _ | .write _ _ => inferInstanceAs (Decidable (_ = _))

/-- An access on the sequential endpoint and the write data register, none if it faults: a
configuration write hands over the data of the one before it. -/
def labh3Reply (s : Endpoint × Word) : Access → Option (Driver.Result × Endpoint × Word)
  | .config (.read bdf reg value) => some ((labh3.ok, value.map fun _ =>
      if bdf = endpointBdf then s.1.configData (reg.setWidth 10) else 0xffffffff), s)
  | .config (.write bdf reg value) => some ((labh3.ok, none),
      if bdf = endpointBdf then s.1.configure (reg.setWidth 10) s.2 else s.1, value)
  | .read addr =>
    if addr.extractLsb' 0 2 = 0 ∧ s.1.Hits addr then some ((labh3.ok, some s.1.scratch), s)
    else none
  | .write addr value =>
    if addr.extractLsb' 0 2 = 0 then
      some ((labh3.ok, none), if s.1.Hits addr then { s.1 with scratch := value } else s.1, s.2)
    else none

theorem labh3_suits : labh3.Suits Behind.server :=
  ⟨labh3_conforms, by decide, fun r hbusy => by
    by_contra hne
    exact absurd (((status_bits r).1.mp hne).symm.trans hbusy) nofun⟩

/-- The driver's registers are not in the aperture. -/
def onRegisters (o : Op) : Prop := inAperture o.addr = false

theorem poll_registers (readData : Option Word) (timeout : Nat) :
    (labh3.poll readData timeout).Issues onRegisters := by
  induction timeout with
  | zero => trivial
  | succ timeout ih =>
    refine ⟨show inAperture labh3.status = false by decide, fun (status : Word) => ?_⟩
    show Program.Issues onRegisters (if status &&& labh3.statusDone = 0 then
      labh3.poll readData timeout else labh3.readResult status readData)
    by_cases hdone : status &&& labh3.statusDone = 0
    · rw [if_pos hdone]
      exact ih
    · rw [if_neg hdone]
      unfold Driver.readResult
      by_cases herror : status &&& labh3.statusError ≠ 0
      · rw [if_pos herror]
        trivial
      · rw [if_neg herror]
        cases readData with
        | none => trivial
        | some _ => exact ⟨show inAperture labh3.cfgRdata = false by decide, fun _ => trivial⟩

theorem guarded_registers {busy : Driver.Result} {p : CsrProgram Driver.Result}
    (hp : p.Issues onRegisters) : (labh3.guarded busy p).Issues onRegisters := by
  refine ⟨show inAperture labh3.status = false by decide, fun (status : Word) => ?_⟩
  show Program.Issues onRegisters (if status &&& labh3.statusBusy ≠ 0 then .ret busy else p)
  by_cases hbusy : status &&& labh3.statusBusy ≠ 0
  · rw [if_pos hbusy]
    trivial
  · rw [if_neg hbusy]
    exact hp

theorem store_registers {addr value : Word} {p : CsrProgram Driver.Result}
    (haddr : inAperture addr = false) (hp : p.Issues onRegisters) :
    Program.Issues onRegisters (do store addr value; p) := ⟨haddr, fun _ => hp⟩

theorem read_registers (bdf reg : Word) (value : Option Word) :
    (labh3.configRead32 bdf reg value).Issues onRegisters :=
  guarded_registers <| store_registers (by decide) <| store_registers (by decide) <|
    store_registers (by decide) <| poll_registers value _

theorem write_registers (bdf reg value : Word) :
    (labh3.configWrite32 bdf reg value).Issues onRegisters :=
  guarded_registers <| store_registers (by decide) <| store_registers (by decide) <|
    store_registers (by decide) <| store_registers (by decide) <| poll_registers none _

theorem writeDataLast_registers (bdf reg value : Word) :
    (labh3.configWrite32DataLast bdf reg value).Issues onRegisters :=
  guarded_registers <| store_registers (by decide) <| store_registers (by decide) <|
    store_registers (by decide) <| store_registers (by decide) <| poll_registers none _

section Programs

variable {α : Type} {Q : α → System → Prop} {C : Prop} {w : System} {d : Endpoint} {wdata : Word}

/-- What a program of the register bus guarantees does not depend on the aperture. -/
theorem cpu_total {p : CsrProgram α} (hp : p.Issues onRegisters)
    (h : wp (stack Behind.server) Q p w) : Total cpu Q C p w := by
  have hcpu : ∀ (s : System) (o : Op) (r : Ans o) (s1 : System), onRegisters o →
      (cpu.answer s o r s1 ↔ (stack Behind.server).answer s o r s1) := by
    intro s o r s1 ho
    have ho : inAperture o.addr = false := ho
    show (if inAperture o.addr then _ else (stack Behind.server).answer s o r s1) ↔ _
    rw [ho, if_neg Bool.false_ne_true]
  refine Total.of_wp (D := stack Behind.server) (E := cpu) (f := id)
    (fun s o r s1 ho => (hcpu s o r s1 ho).mp) (fun s o ho => ?_) (fun s o s1 ho ht => ?_) hp h
  · exact ⟨_, _, (hcpu s o _ _ ho).mpr (stack_immediate s o)⟩
  · exact absurd (ht.1.symm.trans ho) nofun

theorem read_total (bdf reg : Word) (value : Option Word) (h : Resting w d wdata) :
    Total cpu (fun res w' => res = (labh3.ok, value.map fun _ =>
      if bdf = endpointBdf then d.configData (reg.setWidth 10) else 0xffffffff) ∧
      Resting w' d wdata) C (labh3.configRead32 bdf reg value) w := by
  refine cpu_total (read_registers bdf reg value) (wp_mono (read_wp labh3_suits bdf reg value h) ?_)
  rintro _ w' ⟨rfl, hw'⟩
  have hserve := d.serve_read bdf (reg.setWidth 10) wdata
  have hresult : Behind.server.serve d ⟨reqCfgRead, bdf, reg.setWidth 10, wdata⟩ =
      (⟨0, if bdf = endpointBdf then d.configData (reg.setWidth 10) else 0xffffffff⟩, d) := by
    show Behind.serve d _ = _
    rw [Behind.serve, show reqCfgRead = VendorAdapter.cfgRead from rfl, hserve]
    rfl
  rw [hresult] at hw' ⊢
  exact ⟨rfl, hw'⟩

theorem serve_write (d : Endpoint) (bdf : Word) (reg : BitVec 10) (wdata : Word) :
    (Behind.serve d ⟨reqCfgWrite, bdf, reg, wdata⟩).1.status = 0 ∧
    (Behind.serve d ⟨reqCfgWrite, bdf, reg, wdata⟩).2 =
      if bdf = endpointBdf then d.configure reg wdata else d := by
  have hne : reqCfgWrite ≠ VendorAdapter.cfgRead := by decide
  have heq : reqCfgWrite = VendorAdapter.cfgWrite := by decide
  simp only [Behind.serve, Endpoint.serve]
  by_cases h : bdf = endpointBdf
  · rw [if_neg (not_not.mpr h), if_neg hne, if_pos trivial, if_pos h]
    exact ⟨rfl, rfl⟩
  · rw [if_pos h, if_neg h]
    exact ⟨rfl, rfl⟩

/-- How a configuration write ends whose request carried `data`. -/
theorem write_ends {bdf : Word} {reg : BitVec 10} {data : Word} {res : Driver.Result}
    (h : Ends labh3 Behind.server d ⟨reqCfgWrite, bdf, reg, data⟩ wdata none res w) :
    res = (labh3.ok, none) ∧
      Resting w (if bdf = endpointBdf then d.configure reg data else d) wdata := by
  obtain ⟨rfl, hw⟩ := h
  obtain ⟨hstatus, hnext⟩ := serve_write d bdf reg data
  refine ⟨if_neg (not_not.mpr hstatus), ?_⟩
  rwa [show (Behind.server.serve d ⟨reqCfgWrite, bdf, reg, data⟩).2 = _ from hnext] at hw

theorem write_total (bdf reg value : Word) (h : Resting w d wdata) :
    Total cpu (fun res w' => res = (labh3.ok, none) ∧
      Resting w' (if bdf = endpointBdf then d.configure (reg.setWidth 10) value else d) value) C
      (labh3.configWrite32 bdf reg value) w :=
  cpu_total (write_registers bdf reg value) (wp_mono (write_wp labh3_suits bdf reg value h)
    fun _ _ hend => write_ends hend)

theorem writeDataLast_total (bdf reg value : Word) (h : Resting w d wdata) :
    Total cpu (fun res w' => res = (labh3.ok, none) ∧
      Resting w' (if bdf = endpointBdf then d.configure (reg.setWidth 10) wdata else d) value) C
      (labh3.configWrite32DataLast bdf reg value) w :=
  cpu_total (writeDataLast_registers bdf reg value)
    (wp_mono (writeDataLast_wp labh3_suits bdf reg value h) fun _ _ hend => write_ends hend)

theorem load_total {addr : Word} {f : Word → CsrProgram α} (hin : inAperture addr = true)
    (h : Resting w d wdata) (hfault : ¬(addr.extractLsb' 0 2 = 0 ∧ d.Hits addr) → C)
    (hf : addr.extractLsb' 0 2 = 0 ∧ d.Hits addr → ∀ w', Resting w' d wdata →
      Total cpu Q C (f d.scratch) w') :
    Total cpu Q C (load addr >>= f) w := by
  have hmemory : memory d (transferOf (.load addr)) (dataOf (.load addr)) =
      if addr.extractLsb' 0 2 = 0 ∧ d.Hits addr then some (d.scratch, d) else none :=
    memory_read d addr _
  have hanswer : ∀ v w', cpu.answer w (Op.load addr) v w' ↔
      (ApertureAccess w (.load addr) w' ∧ w'.backend.mmio.hresp = false) ∧
        v = w'.backend.mmio.hrdata := by
    intro v w'
    show (if inAperture addr then _ else _) ↔ _
    rw [if_pos hin]
  obtain ⟨w1, ha⟩ := aperture_ends (o := .load addr) h hin
  refine Total.call (o := Op.load addr) ?_ (fun w' ht => hfault fun hhit => ?_) fun v w' ha => ?_
  · cases hresp : w1.backend.mmio.hresp with
    | true => exact .inr ⟨w1, hin, ha, hresp⟩
    | false => exact .inl ⟨_, w1, (hanswer _ w1).mpr ⟨⟨ha, hresp⟩, rfl⟩⟩
  · have haccess := aperture_access (o := .load addr) h ht.1 ht.2.1
    rw [hmemory, if_pos hhit] at haccess
    exact absurd (haccess.1.symm.trans ht.2.2) nofun
  · obtain ⟨⟨ha, hresp⟩, hv⟩ := (hanswer v w').mp ha
    have haccess := aperture_access (o := .load addr) h hin ha
    rw [hmemory] at haccess
    by_cases hhit : addr.extractLsb' 0 2 = 0 ∧ d.Hits addr
    · rw [if_pos hhit] at haccess
      obtain rfl : v = d.scratch := hv.trans (haccess.2.1 rfl)
      exact hf hhit w' haccess.2.2
    · rw [if_neg hhit] at haccess
      exact absurd (hresp.symm.trans haccess) nofun

theorem store_total {addr value : Word} {p : CsrProgram α} (hin : inAperture addr = true)
    (h : Resting w d wdata) (hfault : addr.extractLsb' 0 2 ≠ 0 → C)
    (hp : addr.extractLsb' 0 2 = 0 → ∀ w', Resting w'
      (if d.Hits addr then { d with scratch := value } else d) wdata → Total cpu Q C p w') :
    Total cpu Q C (do store addr value; p) w := by
  have hmemory : memory d (transferOf (.store addr value)) (dataOf (.store addr value)) =
      if addr.extractLsb' 0 2 = 0 then
        some (0, if d.Hits addr then { d with scratch := value } else d) else none :=
    memory_write d addr value
  have hanswer : ∀ u w', cpu.answer w (Op.store addr value) u w' ↔
      (ApertureAccess w (.store addr value) w' ∧ w'.backend.mmio.hresp = false) ∧ True := by
    intro u w'
    show (if inAperture addr then _ else _) ↔ _
    rw [if_pos hin]
  obtain ⟨w1, ha⟩ := aperture_ends (o := .store addr value) h hin
  refine Total.call (o := Op.store addr value) ?_ (fun w' ht => hfault fun halign => ?_)
    fun u w' ha => ?_
  · cases hresp : w1.backend.mmio.hresp with
    | true => exact .inr ⟨w1, hin, ha, hresp⟩
    | false => exact .inl ⟨(), w1, (hanswer _ w1).mpr ⟨⟨ha, hresp⟩, trivial⟩⟩
  · have haccess := aperture_access (o := .store addr value) h ht.1 ht.2.1
    rw [hmemory, if_pos halign] at haccess
    exact absurd (haccess.1.symm.trans ht.2.2) nofun
  · obtain ⟨⟨ha, hresp⟩, -⟩ := (hanswer u w').mp ha
    have haccess := aperture_access (o := .store addr value) h hin ha
    rw [hmemory] at haccess
    by_cases halign : addr.extractLsb' 0 2 = 0
    · rw [if_pos halign] at haccess
      exact hp halign w' haccess.2.2
    · rw [if_neg halign] at haccess
      exact absurd (hresp.symm.trans haccess) nofun

/-- One call or access. -/
theorem access_total (s : Endpoint × Word) (a : Access) (ha : a.Allowed) (w : System)
    (h : Resting w s.1 s.2) : Total cpu (fun res w' => ∃ s', labh3Reply s a = some (res, s') ∧
      Resting w' s'.1 s'.2) (labh3Reply s a = none) a.program w := by
  cases a with
  | config c =>
    cases c with
    | read bdf reg value =>
      refine (read_total bdf reg value h).mono ?_ id
      rintro _ w' ⟨rfl, hw'⟩
      exact ⟨s, rfl, hw'⟩
    | write bdf reg value =>
      refine (writeDataLast_total bdf reg value h).mono ?_ id
      rintro _ w' ⟨rfl, hw'⟩
      exact ⟨(_, value), rfl, hw'⟩
  | read addr =>
    refine load_total ha h (fun hmiss => if_neg hmiss) fun hhit w' hw' => ?_
    exact .ret ⟨s, if_pos hhit, hw'⟩
  | write addr value =>
    refine store_total ha h (fun hne => if_neg hne) fun halign w' hw' => ?_
    exact .ret ⟨(_, s.2), if_pos halign, hw'⟩

end Programs

theorem system_start : Resting (.start Behind.reset : System) Endpoint.reset 0 :=
  start_resting ⟨rfl, rfl, .inl rfl⟩

/-- Every sequence of LabH3 calls and of word accesses to the aperture after reset comes to an end,
and returns, call by call, what the sequential endpoint returns when each configuration write hands
it the data of the one before, or faults where that does. -/
theorem labh3_stack {as : List Access} (has : ∀ a ∈ as, a.Allowed) :
    (∃ t x w', Exec cpu (as.mapM Access.program) (.start Behind.reset) t x w') ∧
    ∀ t x w', Exec cpu (as.mapM Access.program) (.start Behind.reset) t x w' →
      x = repliesOrFault labh3Reply (Endpoint.reset, 0) as := by
  have htotal := total_mapM (D := cpu) (I := fun s w => Resting w s.1 s.2) as
    (fun s a ha w hw => access_total s a (has a ha) w hw) (s := (Endpoint.reset, 0)) system_start
  refine ⟨htotal.exec, fun t x w' h => ?_⟩
  obtain ⟨hsome, hnone⟩ := (htotal.safe []).sound h
  cases x with
  | none => exact (hnone rfl).symm
  | some rs => exact (hsome rs rfl).symm

/-- BAR0 and the command register are written twice, so that the data of the first write takes
effect, and then a word is written and read through the aperture. -/
theorem labh3_stack_scratch : ∃ t w', Exec cpu ([Access.config (.write 0x800 0x10 0x60000000),
    .config (.write 0x800 0x10 2), .config (.write 0x800 0x04 0), .write 0x60001000 5,
    .read 0x60001000].mapM Access.program) (.start Behind.reset) t
    (some [(0, none), (0, none), (0, none), (0, none), (0, some 5)]) w' := by
  obtain ⟨⟨t, x, w', h⟩, hall⟩ := @labh3_stack [.config (.write 0x800 0x10 0x60000000),
    .config (.write 0x800 0x10 2), .config (.write 0x800 0x04 0), .write 0x60001000 5,
    .read 0x60001000] (by decide)
  obtain rfl := hall t x w' h
  exact ⟨t, w', h⟩

/-! ### The test program -/

abbrev labh3ErrNoDevice : Int := -4
abbrev labh3ErrBarType : Int := -5
abbrev labh3ErrBarSize : Int := -6
abbrev labh3ErrBarProgram : Int := -7
abbrev labh3ErrMmio : Int := -8

abbrev pciCfgVendorDevice : Word := 0x000
abbrev pciCfgCommandStatus : Word := 0x004
abbrev pciCfgBar0 : Word := 0x010
abbrev pciCommandMemoryEnable : Word := 1 <<< 1
abbrev pciBarIoSpace : Word := 1 <<< 0
abbrev pciBarMemTypeMask : Word := 3 <<< 1
abbrev pciBarMemType32 : Word := 0 <<< 1
abbrev pciBarMemAddrMask : Word := 0xfffffff0

abbrev pcieMmioBase : Word := 0x60000000
abbrev pcieMmioSize : Word := 0x10000000
abbrev labh3Bar0ScratchOffset : Word := 0x1000
abbrev labh3TestValue : Word := 0xa5a55a5a

/-- The variables that a debugger sees, of LabH3. -/
structure Labh3Debug where
  stage : Word
  result : Int
  version : Word
  id : Word
  vendor : BitVec 16
  device : BitVec 16
  bar0Original : Word
  bar0Mask : Word
  bar0Size : Word
  bar0Readback : Word
  command : Word
  mmioReadback : Word
  deriving DecidableEq

def Labh3Debug.zero : Labh3Debug := ⟨0, 0, 0, 0, 0, 0, 0, 0, 0, 0, 0, 0⟩

def Labh3Debug.failed (g : Labh3Debug) : Labh3Debug := { g with stage := stageFailed }

/-- A function that has the shape of `config_write32`. -/
abbrev ConfigWrite : Type := Word → Word → Word → CsrProgram Driver.Result

section Main

variable (configWrite32 : ConfigWrite)

def labh3Stage6 (g : Labh3Debug) : CsrProgram Labh3Debug := do
  let mmioReadback ← load (pcieMmioBase + labh3Bar0ScratchOffset)
  let g := { g with mmioReadback }
  if g.mmioReadback ≠ labh3TestValue then return { g with result := labh3ErrMmio }.failed
  return { g with result := labh3.ok, stage := 7 }

def labh3Stage5 (g : Labh3Debug) : CsrProgram Labh3Debug := do
  store (pcieMmioBase + labh3Bar0ScratchOffset) labh3TestValue
  labh3Stage6 { g with stage := 6 }

/-- `command_status` is a local variable, which the read fills in. -/
def labh3Stage4 (g : Labh3Debug) : CsrProgram Labh3Debug := do
  let (result, commandStatus) ← labh3ConfigRead32 (bdfOf 0 1 0) pciCfgCommandStatus (some 0)
  let g := { g with result }
  if g.result ≠ labh3.ok then return g.failed
  let g := { g with command := commandStatus.getD 0 &&& 0x0000ffff ||| pciCommandMemoryEnable }
  let (result, _) ← configWrite32 (bdfOf 0 1 0) pciCfgCommandStatus g.command
  let g := { g with result }
  if g.result ≠ labh3.ok then return g.failed
  labh3Stage5 { g with stage := 5 }

/-- The part of stage 3 that comes after the sizing of BAR0. -/
def labh3ProgramBar0 (g : Labh3Debug) : CsrProgram Labh3Debug := do
  let (result, _) ← configWrite32 (bdfOf 0 1 0) pciCfgBar0 pcieMmioBase
  let g := { g with result }
  if g.result ≠ labh3.ok then return g.failed
  let (result, bar0Readback) ← labh3ConfigRead32 (bdfOf 0 1 0) pciCfgBar0 (some g.bar0Readback)
  let g := { g with result, bar0Readback := bar0Readback.getD g.bar0Readback }
  if g.result ≠ labh3.ok then return g.failed
  if g.bar0Readback &&& pciBarMemAddrMask ≠ pcieMmioBase then
    return { g with result := labh3ErrBarProgram }.failed
  labh3Stage4 configWrite32 { g with stage := 4 }

def labh3Stage3 (g : Labh3Debug) : CsrProgram Labh3Debug := do
  let (result, bar0Original) ← labh3ConfigRead32 (bdfOf 0 1 0) pciCfgBar0 (some g.bar0Original)
  let g := { g with result, bar0Original := bar0Original.getD g.bar0Original }
  if g.result ≠ labh3.ok then return g.failed
  if g.bar0Original &&& pciBarIoSpace ≠ 0 then
    return { g with result := labh3ErrBarType }.failed
  if g.bar0Original &&& pciBarMemTypeMask ≠ pciBarMemType32 then
    return { g with result := labh3ErrBarType }.failed
  let (result, _) ← configWrite32 (bdfOf 0 1 0) pciCfgBar0 0xffffffff
  let g := { g with result }
  if g.result ≠ labh3.ok then return g.failed
  let (result, bar0Mask) ← labh3ConfigRead32 (bdfOf 0 1 0) pciCfgBar0 (some g.bar0Mask)
  let g := { g with result, bar0Mask := bar0Mask.getD g.bar0Mask }
  if g.result ≠ labh3.ok then return g.failed
  let g := { g with bar0Size := ~~~(g.bar0Mask &&& pciBarMemAddrMask) + 1 }
  if g.bar0Size = 0 ∨ g.bar0Size > pcieMmioSize ∨ labh3Bar0ScratchOffset ≥ g.bar0Size then
    return { g with result := labh3ErrBarSize }.failed
  if pcieMmioBase &&& (g.bar0Size - 1) ≠ 0 then
    return { g with result := labh3ErrBarSize }.failed
  labh3ProgramBar0 configWrite32 g

def labh3Stage2 (g : Labh3Debug) : CsrProgram Labh3Debug := do
  let (result, id) ← labh3ConfigRead32 (bdfOf 0 1 0) pciCfgVendorDevice (some g.id)
  let g := { g with result, id := id.getD g.id }
  if g.result ≠ labh3.ok then return g.failed
  let g := { g with vendor := g.id.setWidth 16, device := (g.id >>> 16).setWidth 16 }
  if g.vendor = (0xffff : BitVec 16) ∨ g.vendor = (0x0000 : BitVec 16) then
    return { g with result := labh3ErrNoDevice }.failed
  labh3Stage3 configWrite32 { g with stage := 3 }

/-- `main` of LabH3, stage by stage, up to the loop that it ends in, over a `config_write32`. -/
def labh3MainWith : CsrProgram Labh3Debug := do
  let g := { Labh3Debug.zero with stage := 1 }
  let version ← load (labh3.base + 0x00)
  let g := { g with version }
  if g.version ≠ versionValue then return g.failed
  store (labh3.base + 0x04) controlEnable
  labh3Stage2 configWrite32 { g with stage := 2 }

end Main

def labh3Main : CsrProgram Labh3Debug := labh3MainWith labh3ConfigWrite32

section Main

variable {Q : Labh3Debug → System → Prop} {C : Prop} {w : System}

theorem start_total {configWrite32 : ConfigWrite} {d : Endpoint} {wdata : Word}
    (h : Resting w d wdata) (hstage : ∀ w', Resting w' d wdata → Total cpu Q C
      (labh3Stage2 configWrite32 { Labh3Debug.zero with stage := 2, version := versionValue }) w') :
    Total cpu Q C (labh3MainWith configWrite32) w := by
  have hversion : Total cpu (fun v w' => v = versionValue ∧ Resting w' d wdata) C
      (load (labh3.base + 0x00)) w :=
    cpu_total ⟨show inAperture (labh3.base + 0x00) = false by decide, fun _ => trivial⟩
      (version_wp (labh3.base + 0x00) (f := pure) (by decide) h fun w' h' => ⟨rfl, h'⟩)
  refine hversion.seq ?_
  rintro _ w1 ⟨rfl, h1⟩
  have hcontrol : Total cpu (fun _ w' => Resting w' d wdata) C
      (store (labh3.base + 0x04) controlEnable) w1 :=
    cpu_total ⟨show inAperture (labh3.base + 0x04) = false by decide, fun _ => trivial⟩
      (control_wp (p := pure ()) (by decide) h1 fun w' h' => h')
  exact hcontrol.seq fun _ w2 h2 => hstage w2 h2

end Main

/-- The sizing of BAR0 hands over the data of no write, 0, and BAR0 then reads 0. -/
theorem labh3Main_total {w : System} (h : Resting w Endpoint.reset 0) :
    Total cpu (fun g _ => g = ⟨stageFailed, labh3ErrBarSize, versionValue, 0x56781234, 0x1234,
      0x5678, 0, 0, 0, 0, 0, 0⟩) False labh3Main w := by
  refine start_total h fun w1 h1 => ?_
  refine (read_total (bdfOf 0 1 0) pciCfgVendorDevice (some 0) h1).seq ?_
  rintro _ w2 ⟨rfl, h2⟩
  refine (read_total (bdfOf 0 1 0) pciCfgBar0 (some 0) h2).seq ?_
  rintro _ w3 ⟨rfl, h3⟩
  refine (writeDataLast_total (bdfOf 0 1 0) pciCfgBar0 0xffffffff h3).seq ?_
  rintro _ w4 ⟨rfl, h4⟩
  refine (read_total (bdfOf 0 1 0) pciCfgBar0 (some 0) h4).seq ?_
  rintro _ w5 ⟨rfl, -⟩
  exact .ret rfl

theorem labh3Sibling_total {w : System} (h : Resting w Endpoint.reset 0) :
    Total cpu (fun g _ => g = ⟨7, labh3.ok, versionValue, 0x56781234, 0x1234, 0x5678, 0,
      0xffff0000, 0x10000, pcieMmioBase, 2, labh3TestValue⟩) False
      (labh3MainWith labh3.configWrite32) w := by
  refine start_total h fun w1 h1 => ?_
  refine (read_total (bdfOf 0 1 0) pciCfgVendorDevice (some 0) h1).seq ?_
  rintro _ w2 ⟨rfl, h2⟩
  refine (read_total (bdfOf 0 1 0) pciCfgBar0 (some 0) h2).seq ?_
  rintro _ w3 ⟨rfl, h3⟩
  refine (write_total (bdfOf 0 1 0) pciCfgBar0 0xffffffff h3).seq ?_
  rintro _ w4 ⟨rfl, h4⟩
  refine (read_total (bdfOf 0 1 0) pciCfgBar0 (some 0) h4).seq ?_
  rintro _ w5 ⟨rfl, h5⟩
  refine (write_total (bdfOf 0 1 0) pciCfgBar0 pcieMmioBase h5).seq ?_
  rintro _ w6 ⟨rfl, h6⟩
  refine (read_total (bdfOf 0 1 0) pciCfgBar0 (some 0) h6).seq ?_
  rintro _ w7 ⟨rfl, h7⟩
  refine (read_total (bdfOf 0 1 0) pciCfgCommandStatus (some 0) h7).seq ?_
  rintro _ w8 ⟨rfl, h8⟩
  refine (write_total (bdfOf 0 1 0) pciCfgCommandStatus 2 h8).seq ?_
  rintro _ w9 ⟨rfl, h9⟩
  have h9 : Resting w9 ⟨2, pcieMmioBase, false, 0⟩ 2 := h9
  refine store_total (by decide) h9 (fun hne => (hne (by decide)).elim) fun _ w10 h10 => ?_
  have h10 : Resting w10 ⟨2, pcieMmioBase, false, labh3TestValue⟩ 2 := h10
  refine load_total (by decide) h10 (fun hmiss => (hmiss (by decide)).elim) fun _ w11 _ => ?_
  exact .ret rfl

/-- Whatever the timing of the buses, the test program fails in its sizing of BAR0; with the data of
a write stored before its command, as LabH1 and LabH2 do, it would come to its last stage. -/
theorem labh3Main_sizing :
    ((∃ t g w', Exec cpu labh3Main (.start Behind.reset) t (some g) w') ∧
      ∀ t x w', Exec cpu labh3Main (.start Behind.reset) t x w' →
        ∃ g, x = some g ∧ g = ⟨stageFailed, labh3ErrBarSize, versionValue, 0x56781234, 0x1234,
          0x5678, 0, 0, 0, 0, 0, 0⟩) ∧
    ((∃ t g w', Exec cpu (labh3MainWith labh3.configWrite32) (.start Behind.reset) t (some g) w') ∧
      ∀ t x w', Exec cpu (labh3MainWith labh3.configWrite32) (.start Behind.reset) t x w' →
        ∃ g, x = some g ∧ g = ⟨7, labh3.ok, versionValue, 0x56781234, 0x1234, 0x5678, 0,
          0xffff0000, 0x10000, pcieMmioBase, 2, labh3TestValue⟩) :=
  ⟨(labh3Main_total system_start).result, (labh3Sibling_total system_start).result⟩

end CortexLabs.Pcie.RootPort
