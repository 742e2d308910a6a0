import CortexLabs.Pcie.HostCalls

/-! Runs of driver calls over the host bridge: what a caller may conclude from a result, when the
backend accepts and completes requests as late as it likes and a call may give up on its own. -/

namespace CortexLabs.Pcie.HostBridge

open Device

inductive Call where
  | read (bdf reg : Word) (value : Option Word)
  | write (bdf reg value : Word)

def Call.reg : Call → Word
  | .read _ reg _ => reg
  | .write _ reg _ => reg

/-- The request is the one that the call describes; its register number is the part of the call's
that the port carries. -/
def Call.Asks : Call → Request → Prop
  | .read bdf reg _, q => q.type = reqCfgRead ∧ q.bdf = bdf ∧ q.reg = reg.setWidth 10
  | .write bdf reg value, q =>
    q.type = reqCfgWrite ∧ q.bdf = bdf ∧ q.reg = reg.setWidth 10 ∧ q.wdata = value

/-- The call returns `data` through its pointer, when it has one. -/
def Call.Returns : Call → Word → Option Word → Prop
  | .read _ _ value, data, out => value.isSome = true → out = some data
  | .write .., _, _ => True

/-- A call that has returned: its accesses to the bridge, and what the backend port showed between
its start and its end. -/
structure Entry where
  call : Call
  result : Driver.Result
  accesses : List (Device.Event csr)
  events : List Event

inductive Calls (program : Call → CsrProgram Driver.Result) (w : World) : List Entry → World → Prop
  | nil : Calls program w [] w
  | snoc {es : List Entry} {w1 w2 : World} {c : Call} {res : Driver.Result}
      {t : List (Device.Event csr)} {ev : List Event} : Calls program w es w1 →
      Exec csr (program c) w1 t (some res) w2 → w2.log = w1.log ++ ev →
      Calls program w (es ++ [⟨c, res, t, ev⟩]) w2

/-- On success, the one request that the call launched is its own and has completed with status 0,
and its data is what the call returns. -/
def Entry.Succeeds (d : Driver) (e : Entry) : Prop :=
  e.result.1 = d.ok → ∃ q data stale, launches e.events = [q] ∧
    e.events = stale ++ [.launched q, .accepted q, .completed 0 data] ∧
    e.call.Asks q ∧ (e.call.reg.toNat < 1024 → q.reg.setWidth 32 = e.call.reg) ∧
    e.call.Returns data e.result.2

section Entry

variable {d : Driver} {w w1 w' : World} {c : Call} {res : Driver.Result}
  {t : List (Device.Event csr)} {ev : List Event} {p : CsrProgram Driver.Result}

theorem setWidth_register {reg : Word} (h : reg.toNat < 1024) :
    (reg.setWidth 10).setWidth 32 = reg := by
  apply BitVec.eq_of_toNat_eq
  rw [BitVec.toNat_setWidth, BitVec.toNat_setWidth]
  omega

/-- A call that starts with a look at `STATUS`. -/
def Driver.guarded (d : Driver) (busy : Driver.Result) (p : CsrProgram Driver.Result) :
    CsrProgram Driver.Result := do
  let status ← load d.status
  if status &&& d.statusBusy ≠ 0 then return busy
  p

theorem guarded_cases (hd : d.Conforms) {busy : Driver.Result}
    (h : Exec csr (d.guarded busy p) w t (some res) w') :
    ∃ (v : Ans (.load d.status)) (w1 : World) (t1 : List (Device.Event csr)),
      csr.answer w (.load d.status) v w1 ∧ t = ⟨.load d.status, some v, w1⟩ :: t1 ∧
      (w1.regs.status &&& d.statusBusy ≠ 0 ∧ res = busy ∧ w' = w1 ∧ t1 = [] ∨
        w1.regs.status &&& d.statusBusy = 0 ∧ Exec csr p w1 t1 (some res) w') := by
  have h : Exec csr (.call (.load d.status) fun status : Word =>
      if status &&& d.statusBusy ≠ 0 then .ret busy else p) w t (some res) w' := h
  obtain ⟨v, w1, t1, ha, rfl, hrest⟩ := h.of_call
  refine ⟨v, w1, t1, ha, rfl, ?_⟩
  obtain rfl := load_status hd ha
  by_cases hbusy : w1.regs.status &&& d.statusBusy ≠ 0
  · rw [if_pos hbusy] at hrest
    obtain ⟨ht, hres, hw⟩ := hrest.of_ret
    exact .inl ⟨hbusy, hres, hw, ht⟩
  · rw [if_neg hbusy] at hrest
    exact .inr ⟨not_not.mp hbusy, hrest⟩

/-- What a call does after a look at `STATUS` that found no request outstanding. -/
theorem request_call (c : Call) (ask : World → Request) {ptr : Option Word} {v : Ans (.load d.status)}
    (hp : ∀ w1 : World, w1.Unoccupied → Safe csr
      (fun _ res w' => Outcome d (ask w1) w1.log ptr res w') (fun _ _ => True) p [] w1)
    (hask : ∀ w1, c.Asks (ask w1))
    (hret : ∀ w1 data out, ((ask w1).type = reqCfgRead → ptr.isSome = true → out = some data) →
      c.Returns data out)
    (hw : w.Coherent) (ha : csr.answer w (.load d.status) v w1) (hfree : w1.regs.busy = false)
    (he : Exec csr p w1 t (some res) w') (hlog : w'.log = w.log ++ ev)
    {t0 : List (Device.Event csr)} :
    w'.Coherent ∧ Entry.Succeeds d ⟨c, res, t0, ev⟩ ∧ res.1 ≠ d.errBusy := by
  obtain ⟨hw1, stale, hlog1, hstale⟩ := hw.load ha
  have hu : w1.Unoccupied := by
    cases hw1 with
    | free hu _ => exact hu
    | held _ hb _ _ => exact absurd (hfree.symm.trans hb) nofun
  obtain ⟨⟨es, hflight, hes, hidle⟩, hok, hbusy⟩ := ((hp w1 hu).sound he).1 _ rfl
  refine ⟨hflight.coherent hes hidle, fun h0 => ?_, hbusy⟩
  obtain ⟨data, hdata, hout⟩ := hok h0
  have hev : ev = stale ++ [.launched (ask w1), .accepted (ask w1), .completed 0 data] := by
    rw [hlog, hlog1, List.append_assoc] at hdata
    exact List.append_cancel_left hdata
  refine ⟨ask w1, data, stale, ?_, hev, hask w1, fun hreg => ?_, hret w1 data _ hout⟩
  · rw [show (⟨c, res, t0, ev⟩ : Entry).events = ev from rfl, hev]
    simp [hstale]
  · have hq : (ask w1).reg = c.reg.setWidth 10 := by
      have := hask w1
      cases c with
      | read => exact this.2.2
      | write => exact this.2.2.1
    rw [hq]
    exact setWidth_register hreg

def Driver.request (d : Driver) : Call → CsrProgram Driver.Result
  | .read bdf reg value => do
    store d.cfgBdf bdf
    store d.cfgReg reg
    store d.cfgCommand d.cfgRead
    d.waitCompletion value
  | .write bdf reg value => do
    store d.cfgBdf bdf
    store d.cfgReg reg
    store d.cfgWdata value
    store d.cfgCommand d.cfgWrite
    d.waitCompletion none

/-- What the call's pointer points to, while nothing has been stored through it. -/
def Call.pointee : Call → Option Word
  | .read _ _ value => value
  | .write .. => none

def Driver.program (d : Driver) : Call → CsrProgram Driver.Result
  | .read bdf reg value => d.configRead32 bdf reg value
  | .write bdf reg value => d.configWrite32 bdf reg value

theorem program_eq (d : Driver) (c : Call) :
    d.program c = d.guarded (d.errBusy, c.pointee) (d.request c) := by
  cases c <;> rfl

theorem request_free (hd : d.Conforms) {v : Ans (.load d.status)} (hw : w.Coherent)
    (ha : csr.answer w (.load d.status) v w1) (hfree : w1.regs.busy = false)
    (he : Exec csr (d.request c) w1 t (some res) w') (hlog : w'.log = w.log ++ ev)
    {t0 : List (Device.Event csr)} :
    w'.Coherent ∧ Entry.Succeeds d ⟨c, res, t0, ev⟩ ∧ res.1 ≠ d.errBusy := by
  cases c with
  | read bdf reg value =>
    exact request_call (.read bdf reg value) (fun w1 => ⟨reqCfgRead, bdf, reg.setWidth 10, w1.wdata⟩)
      (fun w1 hu => readRequest_safe hd hu value) (fun w1 => ⟨rfl, rfl, rfl⟩)
      (fun w1 data out h hsome => h rfl hsome) hw ha hfree he hlog
  | write bdf reg value =>
    exact request_call (.write bdf reg value) (fun _ => ⟨reqCfgWrite, bdf, reg.setWidth 10, value⟩)
      (fun w1 hu => writeRequest_safe hd hu) (fun w1 => ⟨rfl, rfl, rfl, rfl⟩)
      (fun w1 data out _ => trivial) hw ha hfree he hlog

end Entry

/-! ### Runs that can be computed -/

/-- A bus without cycles between the accesses, over a backend that accepts at once and completes
with status 0 and `data` as soon as `completes` says so. -/
def immediate (completes : Regs → Bool) (data : Word) (o : Op) (w : World) : Ans o × World :=
  let i : Inputs :=
    { hsel := true, haddr := o.addr, htrans := 0b10, hwrite := o.isStore, hsize := 0b010
      hwdata := w.hwdata, hready := true
      reqReady := true, cplValid := completes w.regs, cplStatus := 0, cplRdata := data }
  let w' : World := { w.clock i with
    hwdata := match o with | .load _ => w.hwdata | .store _ value => value }
  match o with
  | .load _ => (w'.regs.hrdata, w')
  | .store _ _ => ((), w')

theorem immediate_handles (completes : Regs → Bool) (data : Word) :
    Handles csr (immediate completes data) := by
  intro w o
  have hphase : ∀ addr write, (⟨true, addr, 0b10, write, 0b010, w.hwdata, true, true,
      completes w.regs, 0, data⟩ : Inputs).ahbAddressPhase = true := by
    intro addr write
    simp [Inputs.ahbAddressPhase]
  cases o with
  | load addr =>
    exact ⟨⟨w, .refl, .clock ⟨fun _ => rfl, fun _ => rfl⟩ (hphase _ _) rfl rfl rfl⟩, rfl⟩
  | store addr value =>
    exact ⟨⟨w, .refl, .clock ⟨fun _ => rfl, fun _ => rfl⟩ (hphase _ _) rfl rfl rfl⟩, trivial⟩

def World.start : World := ⟨.reset, 0, []⟩

theorem World.start_unoccupied : World.start.Unoccupied := ⟨rfl, rfl, rfl⟩

theorem Calls.computed {program : Call → CsrProgram Driver.Result} {completes : Regs → Bool}
    {data : Word} {es : List Entry} {w w1 w2 : World} {c : Call} {res : Driver.Result}
    {ev : List Event} (h : Calls program w es w1)
    (hrun : (program c).run (immediate completes data) w1 = (res, w2))
    (hlog : w2.log = w1.log ++ ev) : ∃ t, Calls program w (es ++ [⟨c, res, t, ev⟩]) w2 := by
  obtain ⟨t, ht⟩ := (immediate_handles completes data).exec (program c) w1
  rw [hrun] at ht
  exact ⟨t, .snoc h ht hlog⟩

/-- The bridge when the data 42 of register 0 has been read, and `CFG_REG` holds `reg`. -/
def readDone (reg : Word) : World :=
  { regs := ⟨.idle, 0, false, true, 0x800, reg, 0, 42, 1, 0, true, false, 0x1c, 2, 0, 0x800, 0, 0⟩
    hwdata := 1
    log := [.launched ⟨0, 0x800, 0, 0⟩, .accepted ⟨0, 0x800, 0, 0⟩, .completed 0 42] }

/-! ### LabH2 -/

def labh2Program : Call → CsrProgram Driver.Result
  | .read bdf reg value => labh2ConfigRead32 bdf reg value
  | .write bdf reg value => labh2ConfigWrite32 bdf reg value

theorem labh2_call {w w' : World} {c : Call} {res : Driver.Result} {t : List (Device.Event csr)}
    {ev : List Event} (hw : w.Coherent) (he : Exec csr (labh2Program c) w t (some res) w')
    (hlog : w'.log = w.log ++ ev) : w'.Coherent ∧ Entry.Succeeds labh2 ⟨c, res, t, ev⟩ ∧
      (res.1 = labh2.errBusy → launches ev = []) := by
  have heq : labh2Program c = labh2.program c := by cases c <;> rfl
  rw [heq, program_eq] at he
  obtain ⟨v, w1, t1, ha, ht, hcase⟩ := guarded_cases labh2_conforms he
  have hbits := (status_bits w1.regs).1
  rcases hcase with ⟨hbusy, rfl, rfl, -⟩ | ⟨hfree, hrest⟩
  · obtain ⟨hw1, stale, hlog1, hstale⟩ := hw.load ha
    have hev : ev = stale := List.append_cancel_left (hlog.symm.trans hlog1)
    refine ⟨hw1, fun h0 => absurd h0.symm labh2_conforms.okBusy, fun _ => ?_⟩
    rw [hev, hstale]
  · have hbusy : w1.regs.busy = false := by
      by_contra hne
      exact hbits.mpr (by simpa using hne) hfree
    obtain ⟨h1, h2, h3⟩ := request_free labh2_conforms hw ha hbusy hrest hlog
    exact ⟨h1, h2, fun h0 => absurd h0 h3⟩

theorem labh2_run {w w' : World} {es : List Entry} (hw : w.Coherent)
    (h : Calls labh2Program w es w') : w'.Coherent ∧ ∀ e ∈ es,
      e.Succeeds labh2 ∧ (e.result.1 = labh2.errBusy → launches e.events = []) := by
  induction h with
  | nil => exact ⟨hw, nofun⟩
  | snoc _ he hlog ih =>
    obtain ⟨hw1, hes⟩ := ih
    obtain ⟨hw2, hnew⟩ := labh2_call hw1 he hlog
    simp only [List.forall_mem_append, List.forall_mem_singleton]
    exact ⟨hw2, hes, hnew⟩

/-- However the calls follow one another and however late the backend is: a call that returns
`LABH2_OK` has launched one request, its own, and returns the data of its completion, and a call
that returns `LABH2_ERR_BUSY` has launched none. -/
theorem labh2_calls {w w' : World} {es : List Entry} (hw : w.Unoccupied)
    (hlog : outstanding w.log = false) (h : Calls labh2Program w es w') : ∀ e ∈ es,
      e.Succeeds labh2 ∧ (e.result.1 = labh2.errBusy → launches e.events = []) :=
  (labh2_run (.free hw hlog) h).2

/-- A read after reset, over a backend that completes it with 42. -/
theorem labh2_calls_read : ∃ es w', Calls labh2Program .start es w' ∧
    es.map (·.result) = [(0, some 42)] ∧ ∀ e ∈ es,
      e.Succeeds labh2 ∧ (e.result.1 = labh2.errBusy → launches e.events = []) := by
  have hrun : (labh2Program (.read 0x800 0 (some 0))).run (immediate (fun _ => true) 42) .start =
      ((0, some 42), readDone 0) := rfl
  obtain ⟨t, h⟩ := Calls.computed .nil hrun rfl
  exact ⟨_, _, h, rfl, labh2_calls World.start_unoccupied rfl h⟩

/-! ### LabH1 -/

def labh1Program : Call → CsrProgram Driver.Result
  | .read bdf reg value => labh1PcieConfigRead32 bdf reg value
  | .write bdf reg value => labh1PcieConfigWrite32 bdf reg value

/-- The call's look at `STATUS` finds a request of an earlier call outstanding. -/
def Entry.FindsOutstanding (e : Entry) : Prop :=
  ∃ a rest, e.accesses = a :: rest ∧ outstanding a.after.log = true

/-- What is asked of a call: success means that its own request has completed, and a call that
finds an earlier request outstanding returns `LABH1_ERR_BUSY` and stores nothing. -/
def Entry.Correct (e : Entry) : Prop :=
  e.Succeeds labh1 ∧ (e.FindsOutstanding →
    e.result.1 = labh1.errBusy ∧ ∀ a ∈ e.accesses, a.op.isStore = false)

section LabH1

variable {d : Driver} {w w' : World} {c : Call} {res : Driver.Result}
  {t : List (Device.Event csr)} {ev : List Event} {es : List Entry}

theorem poll_notBusy (hd : d.Conforms) {readData : Option Word} (timeout : Nat) (w : World)
    (t : List (Device.Event csr)) :
    Safe csr (fun _ res _ => res.1 ≠ d.errBusy) (fun _ _ => True) (d.poll readData timeout) t w := by
  induction timeout generalizing w t with
  | zero => exact hd.timeoutBusy
  | succ timeout ih =>
    refine ⟨fun _ _ => trivial, fun (x : Word) w' _ => ?_⟩
    show Safe csr _ _ (if x &&& d.statusDone = 0 then d.poll readData timeout
      else d.readResult x readData) _ w'
    by_cases hdone : x &&& d.statusDone = 0
    · rw [if_pos hdone]
      exact ih _ _
    · rw [if_neg hdone]
      unfold Driver.readResult
      by_cases herr : x &&& d.statusError ≠ 0
      · rw [if_pos herr]
        exact hd.backendBusy
      · rw [if_neg herr]
        cases readData with
        | none => exact hd.okBusy
        | some _ => exact ⟨fun _ _ => trivial, fun _ _ _ => hd.okBusy⟩

/-- Past its look at `STATUS`, a call does not return `errBusy`. -/
theorem request_notBusy (hd : d.Conforms) (c : Call) (w : World) (t : List (Device.Event csr)) :
    Safe csr (fun _ res _ => res.1 ≠ d.errBusy) (fun _ _ => True) (d.request c) t w := by
  have hwait : ∀ readData w t, Safe csr (fun _ res _ => res.1 ≠ d.errBusy) (fun _ _ => True)
      (d.waitCompletion readData) t w := fun readData w t => poll_notBusy hd _ w t
  cases c with
  | read bdf reg value =>
    exact ⟨fun _ _ => trivial, fun _ _ _ => ⟨fun _ _ => trivial, fun _ _ _ =>
      ⟨fun _ _ => trivial, fun _ _ _ => hwait _ _ _⟩⟩⟩
  | write bdf reg value =>
    exact ⟨fun _ _ => trivial, fun _ _ _ => ⟨fun _ _ => trivial, fun _ _ _ =>
      ⟨fun _ _ => trivial, fun _ _ _ => ⟨fun _ _ => trivial, fun _ _ _ => hwait _ _ _⟩⟩⟩⟩

/-- The busy bit that the driver tests is always clear, so it goes on whatever it finds; the call
is right when it finds nothing outstanding, and cannot be when it does. -/
theorem labh1_call (hw : w.Coherent) (he : Exec csr (labh1Program c) w t (some res) w')
    (hlog : w'.log = w.log ++ ev) :
    (¬Entry.FindsOutstanding ⟨c, res, t, ev⟩ →
      w'.Coherent ∧ Entry.Succeeds labh1 ⟨c, res, t, ev⟩) ∧
    (Entry.FindsOutstanding ⟨c, res, t, ev⟩ → res.1 ≠ labh1.errBusy) := by
  by_cases hnull : ∃ bdf reg, c = .read bdf reg none
  · obtain ⟨bdf, reg, rfl⟩ := hnull
    obtain ⟨rfl, rfl, rfl⟩ := Exec.of_ret he
    refine ⟨fun _ => ⟨hw, fun h0 => absurd h0 (by decide : labh1ErrArgument ≠ labh1.ok)⟩, ?_⟩
    rintro ⟨a, rest, hcons, -⟩
    cases hcons
  · have heq : labh1Program c = labh1.program c := by
      cases c with
      | read bdf reg value =>
        cases value with
        | none => exact absurd ⟨bdf, reg, rfl⟩ hnull
        | some _ => rfl
      | write => rfl
    rw [heq, program_eq] at he
    obtain ⟨v, w1, t1, ha, rfl, hcase⟩ := guarded_cases labh1_conforms he
    rcases hcase with ⟨hbusy, -⟩ | ⟨-, hrest⟩
    · exact absurd (status_bits w1.regs).2.2.2 hbusy
    · refine ⟨fun hfinds => ?_, fun _ => ?_⟩
      · have hfree : w1.regs.busy = false := by
          rw [← (hw.load ha).1.outstanding_eq]
          by_contra hne
          exact hfinds ⟨_, _, rfl, by simpa using hne⟩
        obtain ⟨h1, h2, -⟩ := request_free labh1_conforms hw ha hfree hrest hlog
        exact ⟨h1, h2⟩
      · exact ((request_notBusy labh1_conforms c w1 []).sound hrest).1 _ rfl

theorem labh1_run (hw : w.Coherent) (h : Calls labh1Program w es w') :
    ((∀ e ∈ es, ¬e.FindsOutstanding) → w'.Coherent ∧ ∀ e ∈ es, e.Succeeds labh1) ∧
    ((∀ e ∈ es, e.Correct) → ∀ e ∈ es, ¬e.FindsOutstanding) := by
  induction h with
  | nil => exact ⟨fun _ => ⟨hw, nofun⟩, fun _ => nofun⟩
  | snoc _ he hlog ih =>
    simp only [List.forall_mem_append, List.forall_mem_singleton]
    refine ⟨fun ⟨hold, hlast⟩ => ?_, fun ⟨hold, hlast⟩ => ?_⟩
    · obtain ⟨hw1, hes⟩ := ih.1 hold
      obtain ⟨hw2, hnew⟩ := (labh1_call hw1 he hlog).1 hlast
      exact ⟨hw2, hes, hnew⟩
    · have hprev := ih.2 hold
      refine ⟨hprev, fun hfinds => ?_⟩
      exact (labh1_call (ih.1 hprev).1 he hlog).2 hfinds (hlast.2 hfinds).1

/-- The calls of a run are all right exactly when none of them finds a request outstanding. -/
theorem labh1_calls_iff (hw : w.Unoccupied) (hlog : outstanding w.log = false)
    (h : Calls labh1Program w es w') :
    (∀ e ∈ es, e.Correct) ↔ ∀ e ∈ es, ¬e.FindsOutstanding := by
  obtain ⟨hright, hfinds⟩ := labh1_run (.free hw hlog) h
  refine ⟨hfinds, fun hnone e hmem => ⟨(hright hnone).2 e hmem, fun hf => ?_⟩⟩
  exact absurd hf (hnone e hmem)

end LabH1

/-- A read after reset, over a backend that completes it with 42: it is right, for it finds nothing
outstanding. -/
theorem labh1_calls_iff_read : ∃ es w', Calls labh1Program .start es w' ∧
    es.map (·.result) = [(0, some 42)] ∧
    ((∀ e ∈ es, e.Correct) ↔ ∀ e ∈ es, ¬e.FindsOutstanding) := by
  have hrun : (labh1Program (.read 0x800 0 (some 0))).run (immediate (fun _ => true) 42) .start =
      ((0, some 42), readDone 0) := rfl
  obtain ⟨t, h⟩ := Calls.computed .nil hrun rfl
  exact ⟨_, _, h, rfl, labh1_calls_iff World.start_unoccupied rfl h⟩

section Stale

variable {d : Driver} {h : (o : Op) → World → Ans o × World} {w w' : World} {v : Word}

theorem configRead32_run (hload : h (.load d.status) w = (v, w')) (hfree : v &&& d.statusBusy = 0)
    (bdf reg : Word) (value : Option Word) :
    (d.configRead32 bdf reg value).run h w = (d.waitCompletion value).run h
      (h (.store d.cfgCommand d.cfgRead) (h (.store d.cfgReg reg)
        (h (.store d.cfgBdf bdf) w').2).2).2 := by
  show (((fun status : Word => if status &&& d.statusBusy ≠ 0 then .ret (d.errBusy, value)
    else d.request (.read bdf reg value)) (h (.load d.status) w).1 :
      CsrProgram Driver.Result)).run h (h (.load d.status) w).2 = _
  rw [hload]
  dsimp only
  rw [if_neg (not_not.mpr hfree)]
  rfl

theorem poll_pending (hload : h (.load d.status) w = (v, w')) (hv : v &&& d.statusDone = 0)
    (readData : Option Word) (timeout : Nat) :
    (d.poll readData (timeout + 1)).run h w = (d.poll readData timeout).run h w' := by
  show (((fun status : Word => if status &&& d.statusDone = 0 then d.poll readData timeout
    else d.readResult status readData) (h (.load d.status) w).1 :
      CsrProgram Driver.Result)).run h (h (.load d.status) w).2 = _
  rw [hload]
  dsimp only
  rw [if_pos hv]

theorem poll_stuck (hload : h (.load d.status) w = (v, w)) (hv : v &&& d.statusDone = 0)
    (readData : Option Word) (timeout : Nat) :
    (d.poll readData timeout).run h w = ((d.errTimeout, readData), w) := by
  induction timeout with
  | zero => rfl
  | succ timeout ih => rw [poll_pending hload hv, ih]

end Stale

/-- A backend that completes its request only once a later doorbell has been rejected. -/
def late (r : Regs) : Bool := r.errorStatus ≠ 0

/-- The bridge with a read of register 0 that was accepted and not completed. -/
def pendingRead : World :=
  { regs := ⟨.waitCpl, 0, true, false, 0x800, 0, 0, 0, 1, 0, true, false, 8, 2, 0, 0x800, 0, 0⟩
    hwdata := 1
    log := [.launched ⟨0, 0x800, 0, 0⟩, .accepted ⟨0, 0x800, 0, 0⟩] }

theorem labh1_read_timeout : (labh1Program (.read 0x800 0 (some 0))).run (immediate late 42)
    .start = ((-4, some 0), pendingRead) := by
  have hstuck := poll_stuck (d := labh1) (h := immediate late 42) (w := pendingRead) (v := 1) rfl
    (by decide) (some 0) 99998
  have hstart := configRead32_run (d := labh1) (h := immediate late 42) (w := .start) rfl rfl
    0x800 0 (some 0)
  refine hstart.trans (Eq.trans ?_ hstuck)
  refine (poll_pending rfl rfl (some 0) 99999).trans ?_
  exact poll_pending rfl rfl (some 0) 99998

/-- A read of register 0 times out, and the read of register 4 after it returns `LABH1_OK` with the
data of register 0, without having launched a request. -/
theorem labh1_stale_read : ∃ es w', Calls labh1Program .start es w' ∧
    es.map (·.call) = [.read 0x800 0 (some 0), .read 0x800 4 (some 0)] ∧
    es.map (·.result) = [(-4, some 0), (0, some 42)] ∧ ¬∀ e ∈ es, e.Correct := by
  have h0 : Calls labh1Program .start [] .start := .nil
  obtain ⟨t1, h1⟩ := Calls.computed h0 labh1_read_timeout rfl
  have hsecond : (labh1Program (.read 0x800 4 (some 0))).run (immediate late 42) pendingRead =
      ((0, some 42), readDone 4) := rfl
  have hlog : (readDone 4).log = pendingRead.log ++ [.completed 0 42] := rfl
  obtain ⟨t2, h2⟩ := Calls.computed h1 hsecond hlog
  refine ⟨_, _, h2, rfl, rfl, fun hall => ?_⟩
  have hlast := (hall _ (List.mem_append_right _ (List.mem_singleton_self _))).1 rfl
  obtain ⟨q, -, -, hq, -⟩ := hlast
  cases hq

/-! ### LabH3 -/

/-- A configuration write of LabH3 from a bridge with no request outstanding, when it returns
`LABH3_OK`: the one request that the backend has accepted is the one that the call describes
exactly when `CFG_WDATA` already held the value. -/
theorem labh3_write_iff {w w' : World} {bdf reg value : Word} {res : Driver.Result}
    {t : List (Device.Event csr)} {ev : List Event} (hw : w.Unoccupied)
    (he : Exec csr (labh3ConfigWrite32 bdf reg value) w t (some res) w') (hok : res.1 = labh3.ok)
    (hlog : w'.log = w.log ++ ev) (hreg : reg.toNat < 1024) :
    (∃ q, acceptances ev = [q] ∧ q.type = reqCfgWrite ∧ q.bdf = bdf ∧ q.reg.setWidth 32 = reg ∧
      q.wdata = value) ↔ w.wdata = value := by
  have heq : labh3ConfigWrite32 bdf reg value = labh3.guarded (labh3.errBusy, none) (do
      store labh3.cfgBdf bdf
      store labh3.cfgReg reg
      store labh3.cfgCommand labh3.cfgWrite
      store labh3.cfgWdata value
      labh3.waitCompletion none) := rfl
  rw [heq] at he
  obtain ⟨v, w1, t1, ha, -, hcase⟩ := guarded_cases labh3_conforms he
  obtain ⟨hu, hlog1, -, -, hdata⟩ := hw.load ha
  rcases hcase with ⟨-, rfl, -, -⟩ | ⟨-, hrest⟩
  · exact absurd hok labh3_conforms.okBusy.symm
  · obtain ⟨-, hdone, -⟩ := ((writeRequestDataLast_safe labh3_conforms hu
      (t := []) (C := fun _ _ => True)).sound hrest).1 _ rfl
    obtain ⟨data, hend, -⟩ := hdone hok
    rw [hlog, hlog1] at hend
    rw [List.append_cancel_left hend, hdata]
    constructor
    · rintro ⟨q, hq, -, -, -, hvalue⟩
      obtain rfl := List.singleton_inj.mp hq
      exact hvalue
    · rintro rfl
      exact ⟨_, rfl, rfl, rfl, setWidth_register hreg, rfl⟩

/-- The bridge when a first write of a base address has carried 0, and has left the address in
`CFG_WDATA`. -/
def bar0Written : World :=
  { regs := ⟨.idle, 0, false, true, 0x800, 0x10, 0x60000000, 0, 2, 0, true, false, 8, 2, 1, 0x800,
      0x10, 0⟩
    hwdata := 0x60000000
    log := [.launched ⟨1, 0x800, 0x10, 0⟩, .accepted ⟨1, 0x800, 0x10, 0⟩, .completed 0 0] }

/-- When the base address is written once more, it is delivered. -/
theorem labh3_write_again : ∃ t1 t2 w' ev,
    Exec csr (labh3ConfigWrite32 0x800 0x10 0x60000000) .start t1 (some (0, none)) bar0Written ∧
    Exec csr (labh3ConfigWrite32 0x800 0x10 0x60000000) bar0Written t2 (some (0, none)) w' ∧
    w'.log = bar0Written.log ++ ev ∧
    ∃ q, acceptances ev = [q] ∧ q.type = reqCfgWrite ∧ q.bdf = 0x800 ∧
      q.reg.setWidth 32 = 0x10 ∧ q.wdata = 0x60000000 := by
  have hi := immediate_handles (fun _ => true) 0
  obtain ⟨t1, h1⟩ := hi.exec (labh3ConfigWrite32 0x800 0x10 0x60000000) .start
  obtain ⟨t2, h2⟩ := hi.exec (labh3ConfigWrite32 0x800 0x10 0x60000000) bar0Written
  refine ⟨t1, t2, _, [.launched ⟨1, 0x800, 0x10, 0x60000000⟩,
    .accepted ⟨1, 0x800, 0x10, 0x60000000⟩, .completed 0 0], h1, h2, rfl, ?_⟩
  exact (labh3_write_iff ⟨rfl, rfl, rfl⟩ h2 rfl rfl (by decide)).mpr rfl

/-- A write of a base address after reset returns `LABH3_OK`, and the request that the backend
accepted for it carries 0. -/
theorem labh3_write_lost : ∃ t w', Exec csr (labh3ConfigWrite32 0x800 0x10 0x60000000) .start t
      (some (0, none)) w' ∧ acceptances w'.log = [⟨reqCfgWrite, 0x800, 0x10, 0⟩] ∧
    ¬∃ q, acceptances w'.log = [q] ∧ q.type = reqCfgWrite ∧ q.bdf = 0x800 ∧
      q.reg.setWidth 32 = 0x10 ∧ q.wdata = 0x60000000 := by
  obtain ⟨t, ht⟩ := (immediate_handles (fun _ => true) 0).exec
    (labh3ConfigWrite32 0x800 0x10 0x60000000) .start
  refine ⟨t, _, ht, rfl, ?_⟩
  rintro ⟨q, hq, -, -, -, hvalue⟩
  obtain rfl := List.singleton_inj.mp hq
  exact absurd hvalue (by decide)

end CortexLabs.Pcie.HostBridge
