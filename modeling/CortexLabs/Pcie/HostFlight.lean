import CortexLabs.Pcie.HostPort

/-! The bridge between accesses.  While it is unoccupied, the accesses only move data into its
registers; a doorbell launches the request that they hold; and a request in flight goes through the
backend port on its own, whatever data the CPU writes meanwhile. -/

namespace CortexLabs.Pcie.HostBridge

open Device

/-- A word write of register `a` is in its data phase. -/
def Regs.writes (r : Regs) (a : BitVec 16) : Bool :=
  r.writing && r.dphaseSize = 0b010 && r.dphaseAddr = a

theorem writes_of_idle {r : Regs} (h : r.writing = false) (a : BitVec 16) : r.writes a = false := by
  simp [Regs.writes, h]

theorem writes_unique {r : Regs} {a : BitVec 16} (h : r.writes a = true) (b : BitVec 16) :
    r.writes b = decide (a = b) := by
  simp only [Regs.writes, Bool.and_eq_true, decide_eq_true_eq] at h
  obtain ⟨⟨hw, hs⟩, rfl⟩ := h
  simp [Regs.writes, hw, hs]

/-- What a write data phase can do to the registers `n`. -/
inductive Written (r : Regs) (hwdata : Word) (n : Regs) : Regs → Prop
  | none : r.writing = false → Written r hwdata n n
  | bad : r.writing = true → (∀ a ∈ [regControl, regCfgBdf, regCfgReg, regCfgWdata, regCfgCommand],
      r.writes a = false) →
      Written r hwdata n { n with errorStatus := r.errorStatus ||| errBadAccess }
  | control : r.writes regControl = true →
      Written r hwdata n { n with control := hwdata &&& controlEnable }
  | cfgBdf : r.writes regCfgBdf = true → Written r hwdata n { n with cfgBdf := hwdata }
  | cfgReg : r.writes regCfgReg = true → Written r hwdata n { n with cfgReg := hwdata }
  | cfgWdata : r.writes regCfgWdata = true → Written r hwdata n { n with cfgWdata := hwdata }
  | command : r.writes regCfgCommand = true → Written r hwdata n (r.writeCommand hwdata n)

theorem written (r : Regs) (hwdata : Word) (n : Regs) :
    Written r hwdata n (r.writePhase hwdata n) := by
  unfold Regs.writePhase
  by_cases hw : r.writing = true
  · rw [if_pos hw]
    by_cases hbad : r.dphaseSize ≠ 0b010 ∨ r.dphaseAddr.extractLsb' 0 2 ≠ 0
    · rw [if_pos hbad]
      refine .bad hw fun a ha => ?_
      have haligned : a.extractLsb' 0 2 = 0 := by
        simp only [List.mem_cons, List.not_mem_nil, or_false] at ha
        rcases ha with rfl | rfl | rfl | rfl | rfl <;> decide
      rcases hbad with hs | hs
      · simp only [Regs.writes, decide_eq_false hs, Bool.and_false, Bool.false_and]
      · have hne : r.dphaseAddr ≠ a := fun heq => hs (heq ▸ haligned)
        simp only [Regs.writes, decide_eq_false hne, Bool.and_false]
    · rw [if_neg hbad]
      have hs : r.dphaseSize = 0b010 := by
        by_contra hs
        exact hbad (.inl hs)
      have hwrites : ∀ a, r.writes a = decide (r.dphaseAddr = a) := by
        intro a
        simp only [Regs.writes, hw, hs, decide_true, Bool.true_and]
      unfold Regs.writeRegister
      split_ifs with h1 h2 h3 h4 h5
      · exact .control (by rw [hwrites, decide_eq_true h1])
      · exact .cfgBdf (by rw [hwrites, decide_eq_true h2])
      · exact .cfgReg (by rw [hwrites, decide_eq_true h3])
      · exact .cfgWdata (by rw [hwrites, decide_eq_true h4])
      · exact .command (by rw [hwrites, decide_eq_true h5])
      · refine .bad hw fun a ha => ?_
        rw [hwrites]
        refine decide_eq_false fun heq => ?_
        rw [← heq] at ha
        simp only [List.mem_cons, List.not_mem_nil, or_false] at ha
        rcases ha with h | h | h | h | h
        · exact h1 h
        · exact h2 h
        · exact h3 h
        · exact h4 h
        · exact h5 h
  · rw [if_neg hw]
    exact .none (by simpa using hw)

/-- The data registers, with a write that is still in its data phase. -/
def World.bdf (w : World) : Word := if w.regs.writes regCfgBdf then w.hwdata else w.regs.cfgBdf

def World.reg (w : World) : Word := if w.regs.writes regCfgReg then w.hwdata else w.regs.cfgReg

def World.wdata (w : World) : Word := if w.regs.writes regCfgWdata then w.hwdata else w.regs.cfgWdata

/-- No request is outstanding, and no doorbell is in its data phase. -/
structure World.Unoccupied (w : World) : Prop where
  state : w.regs.state = .idle
  busy : w.regs.busy = false
  noDoorbell : w.regs.writes regCfgCommand = false

theorem World.Drives.select {w : World} {i : Inputs} (h : w.Drives i) (a : BitVec 16) (v : Word) :
    (if w.regs.writes a then i.hwdata else v) = (if w.regs.writes a then w.hwdata else v) := by
  by_cases ha : w.regs.writes a = true
  · have hw : w.regs.writing = true := by
      simp only [Regs.writes, Bool.and_eq_true] at ha
      exact ha.1.1
    rw [h.data hw]
  · rw [if_neg ha, if_neg ha]

section Unoccupied

variable {r : Regs} {i : Inputs} {w w' : World} {o : Op} {x : Ans o}

/-- The registers that only the bus writes. -/
def Regs.csrs (r : Regs) : Word × Word × Word × Word := (r.control, r.cfgBdf, r.cfgReg, r.cfgWdata)

theorem fsm_csrs (r : Regs) (i : Inputs) : (r.fsm i).csrs = r.csrs := by
  unfold Regs.fsm
  cases r.state with
  | idle | unused => rfl
  | issue | waitCpl => dsimp only; split_ifs <;> rfl

theorem capture_csrs (n : Regs) (i : Inputs) : (n.capture i).csrs = n.csrs := by
  unfold Regs.capture
  split_ifs <;> rfl

theorem writeCommand_csrs (r : Regs) (hwdata : Word) (n : Regs) :
    (r.writeCommand hwdata n).csrs = n.csrs := by
  unfold Regs.writeCommand
  dsimp only
  split_ifs <;> rfl

/-- Each of these registers takes the data of a write of its own, and otherwise stays. -/
theorem step_csrs (r : Regs) (i : Inputs) : (r.step i).csrs =
    (if r.writes regControl then i.hwdata &&& controlEnable else r.control,
      if r.writes regCfgBdf then i.hwdata else r.cfgBdf,
      if r.writes regCfgReg then i.hwdata else r.cfgReg,
      if r.writes regCfgWdata then i.hwdata else r.cfgWdata) := by
  have hcsrs : ((r.fsm i).capture i).csrs = r.csrs := (capture_csrs _ i).trans (fsm_csrs r i)
  have hw := written r i.hwdata ((r.fsm i).capture i)
  rw [Regs.step]
  generalize (r.fsm i).capture i = n at hcsrs hw
  generalize r.writePhase i.hwdata n = r' at hw ⊢
  simp only [Regs.csrs, Prod.mk.injEq] at hcsrs
  obtain ⟨h1, h2, h3, h4⟩ := hcsrs
  cases hw with
  | none h => simp [writes_of_idle h, Regs.csrs, h1, h2, h3, h4]
  | bad _ h =>
    rw [h regControl (by decide), h regCfgBdf (by decide), h regCfgReg (by decide),
      h regCfgWdata (by decide)]
    simp [Regs.csrs, h1, h2, h3, h4]
  | control h | cfgBdf h | cfgReg h | cfgWdata h =>
    simp [writes_unique h, Regs.csrs, h1, h2, h3, h4]
  | command h =>
    rw [writeCommand_csrs]
    simp [writes_unique h, Regs.csrs, h1, h2, h3, h4]

theorem idle_step (hstate : r.state = .idle) (hdoorbell : r.writes regCfgCommand = false) :
    (r.step i).state = .idle ∧ (r.step i).busy = r.busy ∧
    (r.step i).cfgBdf = (if r.writes regCfgBdf then i.hwdata else r.cfgBdf) ∧
    (r.step i).cfgReg = (if r.writes regCfgReg then i.hwdata else r.cfgReg) ∧
    (r.step i).cfgWdata = (if r.writes regCfgWdata then i.hwdata else r.cfgWdata) := by
  have hcsrs := step_csrs r i
  simp only [Regs.csrs, Prod.mk.injEq] at hcsrs
  suffices h : (r.step i).state = .idle ∧ (r.step i).busy = r.busy from ⟨h.1, h.2, hcsrs.2⟩
  have hfsm : r.fsm i = r := by rw [Regs.fsm, hstate]
  obtain ⟨h1, h2⟩ : (r.capture i).state = .idle ∧ (r.capture i).busy = r.busy := by
    unfold Regs.capture
    split_ifs <;> exact ⟨hstate, rfl⟩
  have hw := written r i.hwdata (r.capture i)
  rw [Regs.step, hfsm]
  generalize r.writePhase i.hwdata (r.capture i) = r' at hw ⊢
  cases hw with
  | none _ | bad _ _ | control _ | cfgBdf _ | cfgReg _ | cfgWdata _ => exact ⟨h1, h2⟩
  | command h => exact absurd (hdoorbell.symm.trans h) Bool.false_ne_true

theorem events_idle (hstate : r.state = .idle) (hdoorbell : r.writes regCfgCommand = false) :
    events r i = [] := by
  have hnext := (idle_step hstate hdoorbell (i := i)).1
  simp [events, Regs.reqValid, Regs.cplReady, hstate, hnext]

theorem answer_store {addr value : Word} {x : Ans (.store addr value)}
    (h : csr.answer w (.store addr value) x w') : w'.hwdata = value ∧
      ∀ a, w'.regs.writes a = decide (addr.setWidth 16 = a) := by
  obtain ⟨⟨w1, -, haddress⟩, -⟩ := h
  obtain ⟨h1, h2, h3, h4⟩ := haddress.dphase
  refine ⟨by cases haddress; rfl, fun a => ?_⟩
  change w'.regs.dphaseAddr = addr.setWidth 16 at h3
  change w'.regs.dphaseWrite = true at h2
  rw [← h3]
  simp [Regs.writes, Regs.writing, h1, h2, h4]

theorem answer_load {addr : Word} {v : Ans (.load addr)} (h : csr.answer w (.load addr) v w') :
    w'.regs.writing = false ∧ v = w'.regs.hrdata ∧ w'.regs.dphaseValid = true ∧
      w'.regs.dphaseWrite = false ∧ w'.regs.dphaseAddr = addr.setWidth 16 := by
  obtain ⟨⟨w1, -, haddress⟩, hv⟩ := h
  obtain ⟨h1, h2, h3, -⟩ := haddress.dphase
  exact ⟨by rw [Regs.writing, h1, h2]; rfl, hv, h1, h2, h3⟩

namespace World.Unoccupied

/-- Over an access, an unoccupied bridge only takes in the data of the write before it. -/
theorem access (h : w.Unoccupied) (ha : csr.answer w o x w') :
    (w'.regs.state = .idle ∧ w'.regs.busy = false ∧ w'.regs.cfgBdf = w.bdf ∧
      w'.regs.cfgReg = w.reg ∧ w'.regs.cfgWdata = w.wdata) ∧ w'.log = w.log := by
  refine answer_rule (P := fun r log => (r.state = .idle ∧ r.busy = false ∧ r.cfgBdf = w.bdf ∧
    r.cfgReg = w.reg ∧ r.cfgWdata = w.wdata) ∧ log = w.log) ?_ ?_ ha
  · intro i hd
    obtain ⟨h1, h2, h3, h4, h5⟩ := idle_step h.state h.noDoorbell (i := i)
    rw [hd.select] at h3 h4 h5
    rw [events_idle h.state h.noDoorbell]
    exact ⟨⟨h1, h2.trans h.busy, h3, h4, h5⟩, List.append_nil _⟩
  · rintro r log i hw ⟨⟨hstate, hbusy, hrest⟩, rfl⟩
    have hdoorbell := writes_of_idle hw regCfgCommand
    obtain ⟨h1, h2, h3, h4, h5⟩ := idle_step hstate hdoorbell (i := i)
    simp only [writes_of_idle hw, Bool.false_eq_true, if_false] at h3 h4 h5
    rw [h3, h4, h5, events_idle hstate hdoorbell]
    exact ⟨⟨h1, h2.trans hbusy, hrest⟩, List.append_nil _⟩

theorem load {addr : Word} {v : Ans (.load addr)} (h : w.Unoccupied)
    (ha : csr.answer w (.load addr) v w') : w'.Unoccupied ∧ w'.log = w.log ∧
      w'.bdf = w.bdf ∧ w'.reg = w.reg ∧ w'.wdata = w.wdata := by
  obtain ⟨⟨h1, h2, h3, h4, h5⟩, hlog⟩ := h.access ha
  have hw := (answer_load ha).1
  refine ⟨⟨h1, h2, writes_of_idle hw _⟩, hlog, ?_⟩
  simp only [World.bdf, World.reg, World.wdata, writes_of_idle hw, Bool.false_eq_true, if_false]
  exact ⟨h3, h4, h5⟩

theorem store {addr value : Word} {x : Ans (.store addr value)} (h : w.Unoccupied)
    (ha : csr.answer w (.store addr value) x w') (hne : addr.setWidth 16 ≠ regCfgCommand) :
    w'.Unoccupied ∧ w'.log = w.log ∧
      w'.bdf = (if addr.setWidth 16 = regCfgBdf then value else w.bdf) ∧
      w'.reg = (if addr.setWidth 16 = regCfgReg then value else w.reg) ∧
      w'.wdata = (if addr.setWidth 16 = regCfgWdata then value else w.wdata) := by
  obtain ⟨⟨h1, h2, h3, h4, h5⟩, hlog⟩ := h.access ha
  obtain ⟨hdata, hwrites⟩ := answer_store ha
  refine ⟨⟨h1, h2, by rw [hwrites, decide_eq_false hne]⟩, hlog, ?_⟩
  simp only [World.bdf, World.reg, World.wdata, hwrites, decide_eq_true_eq, hdata, h3, h4, h5]
  exact ⟨trivial, trivial, trivial⟩

end World.Unoccupied

end Unoccupied

/-! ### A request in flight -/

/-- What a request in flight depends on. -/
structure Core where
  state : State
  busy : Bool
  done : Bool
  cfgRdata : Word
  errorStatus : Word
  request : Request

def Regs.core (r : Regs) : Core := ⟨r.state, r.busy, r.done, r.cfgRdata, r.errorStatus, r.request⟩

/-- The backend transaction machine, on what a request depends on. -/
def Core.next (c : Core) (i : Inputs) : Core :=
  match c.state with
  | .idle => c
  | .issue => if i.reqReady then { c with state := .waitCpl } else c
  | .waitCpl =>
    if i.cplValid then
      { c with
        state := .idle, busy := false, done := true
        errorStatus := if i.cplStatus ≠ 0 then errBackend else 0
        cfgRdata := if i.cplStatus = 0 ∧ c.request.type = reqCfgRead then i.cplRdata
          else c.cfgRdata }
    else c
  | .unused => { c with state := .idle, busy := false }

/-- What the backend port shows of a request in one cycle. -/
def Core.shows (c : Core) (i : Inputs) : List Event :=
  match c.state with
  | .issue => if i.reqReady then [.accepted c.request] else []
  | .waitCpl => if i.cplValid then [.completed i.cplStatus i.cplRdata] else []
  | _ => []

/-- A request on its way from the doorbell to its completion, with what the backend port has shown
of it. -/
inductive InFlight (q : Request) : Core → List Event → Prop
  | issued {rdata error : Word} : InFlight q ⟨.issue, true, false, rdata, error, q⟩ [.launched q]
  | waiting {rdata error : Word} :
      InFlight q ⟨.waitCpl, true, false, rdata, error, q⟩ [.launched q, .accepted q]
  | finished {rdata error : Word} {status : BitVec 2} {data : Word} :
      (error = 0 ↔ status = 0) → (status = 0 → q.type = reqCfgRead → rdata = data) →
      InFlight q ⟨.idle, false, true, rdata, error, q⟩
        [.launched q, .accepted q, .completed status data]

/-- A write in its data phase is one of the data registers. -/
def Regs.Benign (r : Regs) : Prop :=
  r.writing = true → r.writes regCfgBdf = true ∨ r.writes regCfgReg = true ∨
    r.writes regCfgWdata = true

section Flight

variable {r : Regs} {i : Inputs} {w w' : World} {o : Op} {x : Ans o} {q : Request}
  {es : List Event}

theorem Regs.benign_of_idle (h : r.writing = false) : r.Benign :=
  fun hw => absurd (h.symm.trans hw) nofun

/-- A write of a data register does not reach the request in flight. -/
theorem step_core (h : r.Benign) : (r.step i).core = (r.fsm i).core := by
  have hcapture : ((r.fsm i).capture i).core = (r.fsm i).core := by
    unfold Regs.capture
    split_ifs <;> rfl
  have hw := written r i.hwdata ((r.fsm i).capture i)
  rw [Regs.step, ← hcapture]
  generalize r.writePhase i.hwdata ((r.fsm i).capture i) = r' at hw ⊢
  have hnot : ∀ a, r.writes a = true → a ≠ regCfgBdf → a ≠ regCfgReg → a ≠ regCfgWdata → False := by
    intro a ha h1 h2 h3
    have hwriting : r.writing = true := by
      simp only [Regs.writes, Bool.and_eq_true] at ha
      exact ha.1.1
    rcases h hwriting with hb | hb | hb
    · exact h1 (by simpa [writes_unique ha] using hb)
    · exact h2 (by simpa [writes_unique ha] using hb)
    · exact h3 (by simpa [writes_unique ha] using hb)
  cases hw with
  | none _ => rfl
  | bad hwriting hbad =>
    rcases h hwriting with hb | hb | hb
    · exact absurd ((hbad _ (by decide)).symm.trans hb) Bool.false_ne_true
    · exact absurd ((hbad _ (by decide)).symm.trans hb) Bool.false_ne_true
    · exact absurd ((hbad _ (by decide)).symm.trans hb) Bool.false_ne_true
  | control hc => exact (hnot _ hc (by decide) (by decide) (by decide)).elim
  | cfgBdf _ => rfl
  | cfgReg _ => rfl
  | cfgWdata _ => rfl
  | command hc => exact (hnot _ hc (by decide) (by decide) (by decide)).elim

theorem fsm_core (r : Regs) (i : Inputs) : (r.fsm i).core = r.core.next i := by
  rcases r with ⟨state⟩
  cases state
  · rfl
  · cases hready : i.reqReady <;> simp [Regs.fsm, Core.next, Regs.core, Regs.request, hready]
  · cases hvalid : i.cplValid
    · simp [Regs.fsm, Core.next, Regs.core, Regs.request, hvalid]
    · simp only [Regs.fsm, Core.next, Regs.core, Regs.request, hvalid, if_true]
      split_ifs <;> simp_all
  · rfl

theorem next_issue {c : Core} (h : (c.next i).state = .issue) : c.state = .issue := by
  rcases c with ⟨state⟩
  cases state
  · cases h
  · rfl
  · cases hvalid : i.cplValid <;> simp [Core.next, hvalid] at h
  · cases h

theorem events_benign (h : r.Benign) : events r i = r.core.shows i := by
  have hstate : (r.step i).state = (r.core.next i).state := by
    rw [← fsm_core, ← step_core h]
    rfl
  have hlaunch : (r.step i).reqValid = true → r.reqValid = true := by
    simp only [Regs.reqValid, decide_eq_true_eq, hstate]
    exact next_issue
  have hnone : (!r.reqValid && (r.step i).reqValid) = false := by
    cases h1 : (r.step i).reqValid
    · exact Bool.and_false _
    · simp [hlaunch h1]
  rw [events, hnone]
  unfold Core.shows Regs.reqValid Regs.cplReady Regs.core
  cases r.state <;> simp

theorem InFlight.next {c : Core} (h : InFlight q c es) :
    InFlight q (c.next i) (es ++ c.shows i) := by
  cases h with
  | issued =>
    cases hready : i.reqReady
    · simp only [Core.next, Core.shows, hready]
      exact .issued
    · simp only [Core.next, Core.shows, hready]
      exact .waiting
  | waiting =>
    cases hvalid : i.cplValid
    · simp only [Core.next, Core.shows, hvalid]
      exact .waiting
    · simp only [Core.next, Core.shows, hvalid, if_true]
      refine .finished ?_ fun hstatus htype => if_pos ⟨hstatus, htype⟩
      by_cases hstatus : i.cplStatus = 0
      · rw [if_neg (not_not.mpr hstatus)]
        exact ⟨fun _ => hstatus, fun _ => rfl⟩
      · rw [if_pos hstatus]
        exact ⟨fun herr => absurd herr (by decide), fun h0 => absurd h0 hstatus⟩
  | finished herr hdata => exact .finished herr hdata

theorem flight_step (h : InFlight q r.core es) (hb : r.Benign) :
    InFlight q (r.step i).core (es ++ events r i) := by
  rw [step_core hb, fsm_core, events_benign hb]
  exact h.next

structure World.Rung (w : World) (q : Request) : Prop where
  state : w.regs.state = .idle
  busy : w.regs.busy = false
  doorbell : w.regs.writes regCfgCommand = true
  command : w.hwdata = cmdCfgRead ∧ q.type = reqCfgRead ∨
    w.hwdata = cmdCfgWrite ∧ q.type = reqCfgWrite
  bdf : q.bdf = w.regs.cfgBdf
  reg : q.reg = w.regs.cfgReg.setWidth 10
  wdata : q.wdata = w.regs.cfgWdata

/-- A store to the command register of an unoccupied bridge rings for the request that its data
registers hold. -/
theorem World.Unoccupied.ring {addr value : Word} {x : Ans (.store addr value)}
    (h : w.Unoccupied) (ha : csr.answer w (.store addr value) x w')
    (haddr : addr.setWidth 16 = regCfgCommand)
    (hvalue : value = cmdCfgRead ∨ value = cmdCfgWrite) :
    w'.Rung ⟨if value = cmdCfgRead then reqCfgRead else reqCfgWrite, w.bdf, w.reg.setWidth 10,
      w.wdata⟩ ∧ w'.log = w.log := by
  obtain ⟨⟨h1, h2, h3, h4, h5⟩, hlog⟩ := h.access ha
  obtain ⟨hdata, hwrites⟩ := answer_store ha
  refine ⟨⟨h1, h2, by rw [hwrites, decide_eq_true haddr], ?_, h3.symm, ?_, h5.symm⟩, hlog⟩
  · rcases hvalue with rfl | rfl
    · exact .inl ⟨hdata, rfl⟩
    · exact .inr ⟨hdata, rfl⟩
  · rw [h4]

theorem step_doorbell (h : r.writes regCfgCommand = true) :
    r.step i = r.writeCommand i.hwdata ((r.fsm i).capture i) := by
  have hw := written r i.hwdata ((r.fsm i).capture i)
  rw [Regs.step]
  generalize r.writePhase i.hwdata ((r.fsm i).capture i) = r' at hw ⊢
  have hnot : ∀ a, r.writes a = true → a = regCfgCommand := by
    intro a ha
    simpa [writes_unique ha] using h
  cases hw with
  | none hidle => exact absurd ((writes_of_idle hidle _).symm.trans h) Bool.false_ne_true
  | bad _ hbad => exact absurd ((hbad _ (by decide)).symm.trans h) Bool.false_ne_true
  | control ha => exact absurd (hnot _ ha) (by decide)
  | cfgBdf ha => exact absurd (hnot _ ha) (by decide)
  | cfgReg ha => exact absurd (hnot _ ha) (by decide)
  | cfgWdata ha => exact absurd (hnot _ ha) (by decide)
  | command _ => rfl

theorem World.Rung.step (h : w.Rung q) (hd : w.Drives i) :
    InFlight q (w.regs.step i).core [.launched q] ∧ events w.regs i = [.launched q] := by
  have hdata : i.hwdata = w.hwdata := by
    have hwrites := h.doorbell
    simp only [Regs.writes, Bool.and_eq_true] at hwrites
    exact hd.data hwrites.1.1
  have hcommand : i.hwdata = cmdCfgRead ∨ i.hwdata = cmdCfgWrite := by
    rw [hdata]
    exact h.command.imp And.left And.left
  have htype : q.type = if i.hwdata = cmdCfgRead then reqCfgRead else reqCfgWrite := by
    rcases h.command with ⟨hc, ht⟩ | ⟨hc, ht⟩
    · rw [hdata, hc, ht]
      rfl
    · rw [hdata, hc, ht]
      rfl
  have hstep := step_doorbell (i := i) h.doorbell
  rw [Regs.writeCommand, if_neg (by simp [h.state, h.busy]), if_pos hcommand] at hstep
  have hq : (w.regs.step i).request = q := by
    obtain ⟨type, bdf, reg, wdata⟩ := q
    rw [hstep]
    simp only [Regs.request, ← htype, ← h.bdf, ← h.reg, ← h.wdata]
  have hvalid : (w.regs.step i).reqValid = true := by
    rw [hstep]
    rfl
  constructor
  · have hcore : (w.regs.step i).core =
        ⟨.issue, true, false, (w.regs.step i).cfgRdata, (w.regs.step i).errorStatus, q⟩ := by
      rw [Regs.core, hq]
      rw [hstep]
    rw [hcore]
    exact .issued
  · have hidle : w.regs.reqValid = false := by simp [Regs.reqValid, h.state]
    have hready : w.regs.cplReady = false := by simp [Regs.cplReady, h.state]
    rw [events, hidle, hready, hvalid, hq]
    rfl

/-- Whatever access comes next will see request `q` in flight, and `log` before its launch. -/
def World.Armed (q : Request) (log : List Event) (w : World) : Prop :=
  ∀ (o : Op) (x : Ans o) (w' : World), csr.answer w o x w' →
    ∃ es, InFlight q w'.regs.core es ∧ w'.log = log ++ es

theorem World.Rung.armed (h : w.Rung q) : w.Armed q w.log := by
  intro o x w' ha
  refine answer_rule (P := fun r log => ∃ es, InFlight q r.core es ∧ log = w.log ++ es) ?_ ?_ ha
  · intro i hd
    obtain ⟨hflight, hevents⟩ := h.step hd
    exact ⟨_, hflight, by rw [hevents]⟩
  · rintro r log i hw ⟨es, hflight, rfl⟩
    exact ⟨_, flight_step hflight (Regs.benign_of_idle hw), List.append_assoc ..⟩

theorem InFlight.armed {log : List Event} (h : InFlight q w.regs.core es)
    (hlog : w.log = log ++ es) (hb : w.regs.Benign) : w.Armed q log := by
  intro o x w' ha
  refine answer_rule (P := fun r l => ∃ es, InFlight q r.core es ∧ l = log ++ es) ?_ ?_ ha
  · intro i _
    exact ⟨_, flight_step h hb, by rw [hlog, List.append_assoc]⟩
  · rintro r l i hw ⟨es, hflight, rfl⟩
    exact ⟨_, flight_step hflight (Regs.benign_of_idle hw), List.append_assoc ..⟩

theorem finished_access {c : Core} (hcore : w.regs.core = c) (hstate : c.state = .idle)
    (hidle : w.regs.writing = false) (ha : csr.answer w o x w') :
    w'.regs.core = c ∧ w'.log = w.log := by
  have hstep : ∀ (r : Regs) (i : Inputs), r.writing = false → r.core = c →
      (r.step i).core = c ∧ events r i = [] := by
    intro r i hw hr
    have hb := Regs.benign_of_idle hw
    rw [step_core hb, fsm_core, events_benign hb, hr]
    simp [Core.next, Core.shows, hstate]
  refine answer_rule (P := fun r log => r.core = c ∧ log = w.log) ?_ ?_ ha
  · intro i _
    obtain ⟨h1, h2⟩ := hstep w.regs i hidle hcore
    exact ⟨h1, by rw [h2, List.append_nil]⟩
  · rintro r log i hw ⟨hr, rfl⟩
    obtain ⟨h1, h2⟩ := hstep r i hw hr
    exact ⟨h1, by rw [h2, List.append_nil]⟩

end Flight

end CortexLabs.Pcie.HostBridge
