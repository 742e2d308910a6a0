import CortexLabs.Device.Clocked
import CortexLabs.Pcie.HostFlight

/-! The bridge under arbitrary traffic.  In every cycle the bus and the backend do as they like, so
a write in its data phase may meet any event at the backend port in the same cycle; `Cycle` lists
what comes of it, and the invariants of a run are read off it. -/

namespace CortexLabs.Pcie.HostBridge

open Device

/-- A write in its data phase is not a word write of a register. -/
def Regs.badAccess (r : Regs) : Bool :=
  r.writing && [regControl, regCfgBdf, regCfgReg, regCfgWdata, regCfgCommand].all
    fun a => !r.writes a

/-- The request that a doorbell asks for: a snapshot of the registers. -/
def Regs.ask (r : Regs) (hwdata : Word) : Request :=
  ⟨if hwdata = cmdCfgRead then reqCfgRead else reqCfgWrite, r.cfgBdf, r.cfgReg.setWidth 10,
    r.cfgWdata⟩

/-- A doorbell: one of the two commands is written to `CFG_COMMAND`. -/
def Regs.rings (r : Regs) (hwdata : Word) : Bool :=
  r.writes regCfgCommand && (hwdata = cmdCfgRead || hwdata = cmdCfgWrite)

/-- What one cycle makes of the part of the registers that requests depend on. -/
inductive Cycle (r : Regs) (i : Inputs) : Core → Prop
  | accepted : r.rings i.hwdata = true → r.state = .idle → r.busy = false →
      Cycle r i ⟨.issue, true, false, r.cfgRdata, 0, r.ask i.hwdata⟩
  | badCommand : r.writes regCfgCommand = true → r.rings i.hwdata = false → r.state = .idle →
      r.busy = false →
      Cycle r i { r.core with busy := false, done := true, errorStatus := errBadCommand }
  | rejected : r.writes regCfgCommand = true → r.busy = true ∨ r.state ≠ .idle →
      Cycle r i { r.core.next i with errorStatus := r.errorStatus ||| errBusy }
  | badAccess : r.badAccess = true →
      Cycle r i { r.core.next i with errorStatus := r.errorStatus ||| errBadAccess }
  | quiet : r.writes regCfgCommand = false → r.badAccess = false → Cycle r i (r.core.next i)

section Cycle

variable {r : Regs} {i : Inputs}

theorem capture_core (n : Regs) (i : Inputs) : (n.capture i).core = n.core := by
  unfold Regs.capture
  split_ifs <;> rfl

theorem badAccess_of_writes {a : BitVec 16} (h : r.writes a = true)
    (ha : a ∈ [regControl, regCfgBdf, regCfgReg, regCfgWdata, regCfgCommand]) :
    r.badAccess = false := by
  rw [Regs.badAccess, Bool.and_eq_false_iff]
  refine .inr ?_
  rw [List.all_eq_false]
  exact ⟨a, ha, by simp [h]⟩

/-- A write of another register than `CFG_COMMAND` changes nothing that requests depend on. -/
theorem Cycle.of_register {a : BitVec 16} {c : Core} (h : r.writes a = true)
    (ha : a ∈ [regControl, regCfgBdf, regCfgReg, regCfgWdata]) (hc : c = r.core.next i) :
    Cycle r i c := by
  subst hc
  refine .quiet ?_ (badAccess_of_writes h (by
    simp only [List.mem_cons, List.not_mem_nil, or_false] at ha ⊢
    rcases ha with h | h | h | h <;> simp [h]))
  rw [writes_unique h]
  refine decide_eq_false fun heq => ?_
  subst heq
  exact absurd ha (by decide)

/-- A doorbell is rejected while a request is on its way, and otherwise accepted if its command is
one of the two. -/
theorem cycle_command {n : Regs} (hcore : n.core = r.core.next i)
    (h : r.writes regCfgCommand = true) : Cycle r i (r.writeCommand i.hwdata n).core := by
  unfold Regs.writeCommand
  split
  · next hbusy =>
    have hcore' : Regs.core { n with
        cfgCommand := i.hwdata, errorStatus := r.errorStatus ||| errBusy } =
        { r.core.next i with errorStatus := r.errorStatus ||| errBusy } := by
      rw [← hcore]
      rfl
    dsimp only
    rw [hcore']
    exact .rejected h (by simpa using hbusy)
  next hfree =>
  have hidle : r.state = .idle := by
    by_contra hstate
    exact hfree (.inr hstate)
  have hbusy : r.busy = false := by
    by_contra hb
    exact hfree (.inl hb)
  have hnext : n.core = r.core := by
    rw [hcore]
    simp [Core.next, Regs.core, hidle]
  split
  · next hcommand =>
    have hcore' : n.cfgRdata = r.cfgRdata := congrArg Core.cfgRdata hnext
    have hrings : r.rings i.hwdata = true := by
      rw [Regs.rings, h, Bool.true_and, Bool.or_eq_true, decide_eq_true_iff, decide_eq_true_iff]
      exact hcommand
    simp only [Regs.core, Regs.request, hcore']
    exact .accepted hrings hidle hbusy
  · next hcommand =>
    have hrings : r.rings i.hwdata = false := by
      rw [Regs.rings, h, Bool.true_and]
      simpa using hcommand
    have hcore' : Regs.core { n with
        cfgCommand := i.hwdata, busy := false, done := true, errorStatus := errBadCommand } =
        { r.core with busy := false, done := true, errorStatus := errBadCommand } := by
      rw [← hnext]
      rfl
    dsimp only
    rw [hcore']
    exact .badCommand h hrings hidle hbusy

theorem cycle (r : Regs) (i : Inputs) : Cycle r i (r.step i).core := by
  have hcore : ((r.fsm i).capture i).core = r.core.next i := (capture_core _ i).trans (fsm_core r i)
  have hw := written r i.hwdata ((r.fsm i).capture i)
  rw [Regs.step]
  generalize hn : (r.fsm i).capture i = n at hcore hw ⊢
  generalize r.writePhase i.hwdata n = r' at hw ⊢
  cases hw with
  | none h =>
    rw [hcore]
    exact .quiet (writes_of_idle h _) (by simp [Regs.badAccess, h])
  | bad h hbad =>
    have hcore' : Regs.core { n with errorStatus := r.errorStatus ||| errBadAccess } =
        { r.core.next i with errorStatus := r.errorStatus ||| errBadAccess } := by
      rw [← hcore]
      rfl
    rw [hcore']
    refine .badAccess ?_
    rw [Regs.badAccess, h, Bool.true_and, List.all_eq_true]
    intro a ha
    rw [hbad a ha]
    rfl
  | control h => exact .of_register h (by decide) hcore
  | cfgBdf h => exact .of_register h (by decide) hcore
  | cfgReg h => exact .of_register h (by decide) hcore
  | cfgWdata h => exact .of_register h (by decide) hcore
  | command h => exact cycle_command hcore h

end Cycle

/-! ### What holds in every state -/

/-- `busy` says that a request is on its way, and `done` that none is. -/
structure Core.Sound (c : Core) : Prop where
  used : c.state ≠ .unused
  busy : c.busy = true ↔ c.state = .issue ∨ c.state = .waitCpl
  done : c.busy = true → c.done = false

/-- The doorbell that an idle bridge accepts in a cycle. -/
def doorbell (r : Regs) (i : Inputs) : List Request :=
  if r.rings i.hwdata && r.state = .idle then [r.ask i.hwdata] else []

def handshake (r : Regs) (i : Inputs) : List Request :=
  if r.reqValid && i.reqReady then [r.request] else []

def completes (r : Regs) (i : Inputs) : Bool := r.cplReady && i.cplValid

/-- A command that is neither of the two is written while the bridge is idle. -/
def refuses (r : Regs) (i : Inputs) : Bool :=
  r.writes regCfgCommand && !r.rings i.hwdata && r.state = .idle

def Core.waiting (c : Core) : List Request := if c.state = .issue then [c.request] else []

section Invariant

variable {r : Regs} {i : Inputs} {c : Core}

theorem completes_iff : completes r i = true ↔ r.state = .waitCpl ∧ i.cplValid = true := by
  simp [completes, Regs.cplReady]

theorem Core.Sound.idle (h : c.Sound) (hidle : c.state = .idle) : c.busy = false := by
  by_contra hb
  have hbusy := h.busy.mp (by simpa using hb)
  rw [hidle] at hbusy
  rcases hbusy with h | h <;> cases h

theorem Core.Sound.idle_of_done (h : c.Sound) (hdone : c.done = true) : c.state = .idle := by
  have hbusy : c.busy ≠ true := fun hb => absurd ((h.done hb).symm.trans hdone) nofun
  cases hs : c.state with
  | idle => rfl
  | issue => exact absurd (h.busy.mpr (.inl hs)) hbusy
  | waitCpl => exact absurd (h.busy.mpr (.inr hs)) hbusy
  | unused => exact absurd hs h.used

theorem Core.Sound.of_busy (h : c.Sound) (hbusy : c.busy = true ∨ c.state ≠ .idle) :
    c.state ≠ .idle := by
  intro hidle
  rcases hbusy with hb | hb
  · exact absurd ((h.idle hidle).symm.trans hb) nofun
  · exact hb hidle

theorem Core.Sound.errorStatus (h : c.Sound) (e : Word) :
    Core.Sound { c with errorStatus := e } := ⟨h.used, h.busy, h.done⟩

theorem Core.Sound.next (h : c.Sound) (i : Inputs) : (c.next i).Sound := by
  obtain ⟨hused, hbusy, hdone⟩ := h
  rcases c with ⟨state, busy, done, rdata, error, q⟩
  unfold Core.next
  cases state with
  | idle => exact ⟨hused, hbusy, hdone⟩
  | issue =>
    dsimp only
    split
    · exact ⟨nofun, ⟨fun _ => .inr rfl, fun _ => hbusy.mpr (.inl rfl)⟩, hdone⟩
    · exact ⟨hused, hbusy, hdone⟩
  | waitCpl =>
    dsimp only
    split
    · exact ⟨nofun, ⟨nofun, by rintro (h | h) <;> cases h⟩, nofun⟩
    · exact ⟨hused, hbusy, hdone⟩
  | unused => exact absurd rfl hused

theorem sound_step (h : r.core.Sound) : (r.step i).core.Sound := by
  have hc := cycle r i
  generalize (r.step i).core = c at hc ⊢
  cases hc with
  | accepted _ _ _ => exact ⟨nofun, ⟨fun _ => .inl rfl, fun _ => rfl⟩, fun _ => rfl⟩
  | badCommand _ _ hidle _ =>
    refine ⟨h.used, ⟨nofun, fun hbusy => ?_⟩, nofun⟩
    change r.state = .issue ∨ r.state = .waitCpl at hbusy
    rw [hidle] at hbusy
    rcases hbusy with h | h <;> cases h
  | rejected _ _ => exact (h.next i).errorStatus _
  | badAccess _ => exact (h.next i).errorStatus _
  | quiet _ _ => exact h.next i

theorem next_request (c : Core) (i : Inputs) : (c.next i).request = c.request := by
  unfold Core.next
  cases c.state <;> dsimp only <;> split_ifs <;> rfl

theorem next_issue_iff (c : Core) (i : Inputs) :
    (c.next i).state = .issue ↔ c.state = .issue ∧ i.reqReady = false := by
  rcases c with ⟨state⟩
  cases state with
  | idle | unused => simp [Core.next]
  | issue => cases h : i.reqReady <;> simp [Core.next, h]
  | waitCpl => cases h : i.cplValid <;> simp [Core.next, h]

theorem next_waiting (r : Regs) (i : Inputs) :
    handshake r i ++ (r.core.next i).waiting = r.core.waiting := by
  unfold handshake Core.waiting Regs.reqValid
  rw [next_request]
  simp only [next_issue_iff]
  show _ = if r.state = .issue then [r.request] else []
  by_cases h : r.state = .issue
  · cases i.reqReady <;> simp [h, Regs.core]
  · simp [h, Regs.core]

theorem doorbell_of_rings (h : r.rings i.hwdata = false) : doorbell r i = [] := by
  simp [doorbell, h]

theorem rings_of_writes (h : r.writes regCfgCommand = false) : r.rings i.hwdata = false := by
  rw [Regs.rings, h, Bool.false_and]

theorem writes_of_badAccess (h : r.badAccess = true) : r.writes regCfgCommand = false := by
  cases hw : r.writes regCfgCommand with
  | false => rfl
  | true => exact absurd ((badAccess_of_writes hw (by decide)).symm.trans h) nofun

/-- Doorbells become waiting requests, and waiting requests handshakes. -/
theorem queue_step (h : r.core.Sound) :
    handshake r i ++ (r.step i).core.waiting = r.core.waiting ++ doorbell r i := by
  have hc := cycle r i
  generalize (r.step i).core = c at hc ⊢
  cases hc with
  | accepted hrings hidle _ =>
    simp [handshake, Regs.reqValid, doorbell, Core.waiting, Regs.core, hrings, hidle]
  | badCommand _ hrings hidle _ =>
    rw [doorbell_of_rings hrings]
    simp [handshake, Regs.reqValid, Core.waiting, Regs.core, hidle]
  | rejected _ hbusy =>
    have hstate : r.state ≠ .idle := h.of_busy hbusy
    have hnone : doorbell r i = [] := by simp [doorbell, hstate]
    rw [hnone, List.append_nil]
    exact next_waiting r i
  | badAccess hbad =>
    rw [doorbell_of_rings (rings_of_writes (writes_of_badAccess hbad)), List.append_nil]
    exact next_waiting r i
  | quiet hw _ =>
    rw [doorbell_of_rings (rings_of_writes hw), List.append_nil]
    exact next_waiting r i

/-- What a completion leaves in `done`, in the data register and in ERROR_STATUS. -/
theorem next_completes (h : completes r i = true) : (r.core.next i).done = true ∧
    (r.core.next i).cfgRdata =
      (if i.cplStatus = 0 ∧ r.reqTypeR = reqCfgRead then i.cplRdata else r.cfgRdata) ∧
    (r.core.next i).errorStatus = if i.cplStatus ≠ 0 then errBackend else 0 := by
  obtain ⟨hstate, hvalid⟩ := completes_iff.mp h
  simp only [Core.next, Regs.core, hstate, hvalid, if_true]
  exact ⟨trivial, rfl, trivial⟩

theorem next_incomplete (h : completes r i = false) : (r.core.next i).done = r.done ∧
    (r.core.next i).cfgRdata = r.cfgRdata ∧ (r.core.next i).errorStatus = r.errorStatus := by
  have hvalid : r.state = .waitCpl → i.cplValid = false := by
    intro hstate
    simpa [completes, Regs.cplReady, hstate] using h
  unfold Core.next Regs.core
  cases hstate : r.state with
  | idle | unused => exact ⟨rfl, rfl, rfl⟩
  | issue => dsimp only; split <;> exact ⟨rfl, rfl, rfl⟩
  | waitCpl => simp [hvalid hstate]

theorem cfgRdata_step (r : Regs) (i : Inputs) :
    (r.step i).cfgRdata =
      if completes r i ∧ i.cplStatus = 0 ∧ r.reqTypeR = reqCfgRead then i.cplRdata
      else r.cfgRdata := by
  have hnext : (r.core.next i).cfgRdata =
      if completes r i ∧ i.cplStatus = 0 ∧ r.reqTypeR = reqCfgRead then i.cplRdata
      else r.cfgRdata := by
    cases hcompletes : completes r i with
    | false => simpa using (next_incomplete hcompletes).2.1
    | true => simpa using (next_completes hcompletes).2.1
  have hidle : r.state = .idle → completes r i = false := by
    intro h
    simp [completes, Regs.cplReady, h]
  have hc := cycle r i
  change (r.step i).core.cfgRdata = _
  generalize (r.step i).core = c at hc ⊢
  cases hc with
  | accepted _ h _ => simp [hidle h]
  | badCommand _ _ h _ => simp [hidle h, Regs.core]
  | rejected _ _ | badAccess _ | quiet _ _ => exact hnext

/-- `done` is raised by a completion, or by a command that is refused. -/
theorem done_step (hdone : r.done = false) (hstep : (r.step i).done = true) :
    completes r i = true ∨ refuses r i = true := by
  cases hcompletes : completes r i with
  | true => exact .inl rfl
  | false =>
    refine .inr ?_
    have hnext : (r.core.next i).done = false := (next_incomplete hcompletes).1.trans hdone
    have hc := cycle r i
    change (r.step i).core.done = true at hstep
    generalize (r.step i).core = c at hc hstep
    cases hc with
    | accepted _ _ _ => cases hstep
    | badCommand hw hrings h _ =>
      rw [refuses, hw, hrings, h]
      rfl
    | rejected _ _ | badAccess _ | quiet _ _ => exact absurd (hnext.symm.trans hstep) nofun

theorem next_waitCpl {c : Core} (h : (c.next i).state = .waitCpl) :
    c.state = .waitCpl ∨ c.state = .issue ∧ i.reqReady = true := by
  rcases c with ⟨state⟩
  cases state with
  | idle | unused => simp [Core.next] at h
  | issue => cases hready : i.reqReady <;> simp [Core.next, hready] at h ⊢
  | waitCpl => exact .inl rfl

theorem state_step (h : r.state ≠ .idle) : (r.step i).state = (r.core.next i).state := by
  have hc := cycle r i
  change (r.step i).core.state = _
  generalize (r.step i).core = c at hc ⊢
  cases hc with
  | accepted _ hidle _ | badCommand _ _ hidle _ => exact absurd hidle h
  | rejected _ _ | badAccess _ | quiet _ _ => rfl

theorem state_step_idle (h : r.state = .idle) :
    (r.step i).state = .idle ∨ (r.step i).state = .issue := by
  have hnext : (r.core.next i).state = .idle := by
    simp [Core.next, Regs.core, h]
  have hc := cycle r i
  change (r.step i).core.state = _ ∨ (r.step i).core.state = _
  generalize (r.step i).core = c at hc ⊢
  cases hc with
  | accepted _ _ _ => exact .inr rfl
  | badCommand _ _ _ _ => exact .inl h
  | rejected _ _ | badAccess _ | quiet _ _ => exact .inl hnext

/-- A request leaves the bridge only with its completion. -/
theorem completes_of_idle (h : r.core.Sound) (hstate : r.state ≠ .idle)
    (hidle : (r.step i).state = .idle) : completes r i = true := by
  rw [state_step hstate] at hidle
  unfold Core.next Regs.core at hidle
  cases hs : r.state with
  | idle => exact absurd hs hstate
  | issue =>
    simp only [hs] at hidle
    split at hidle <;> simp_all
  | waitCpl =>
    simp only [hs] at hidle
    split at hidle
    · next hvalid => exact completes_iff.mpr ⟨hs, hvalid⟩
    · simp_all
  | unused => exact absurd hs h.used

/-- A bridge that stays idle accepts no doorbell. -/
theorem doorbell_of_idle (h : r.core.Sound) (hstate : r.state = .idle)
    (hidle : (r.step i).state = .idle) : doorbell r i = [] := by
  have hqueue := queue_step h (i := i)
  have hfrom : r.core.waiting = [] := if_neg (by simp [Regs.core, hstate])
  have hto : (r.step i).core.waiting = [] := if_neg (by
    show ¬(r.step i).state = .issue
    simp [hidle])
  have hshake : handshake r i = [] := by simp [handshake, Regs.reqValid, hstate]
  rw [hfrom, hto, hshake] at hqueue
  exact hqueue.symm

/-- The request whose completion the bridge waits for is the one on the port, and the backend has
accepted it. -/
theorem waitCpl_step (h : (r.step i).state = .waitCpl) :
    (r.step i).request = r.request ∧
      (r.state = .waitCpl ∨ handshake r i = [r.request]) := by
  have hnext : (r.core.next i).state = .waitCpl →
      r.state = .waitCpl ∨ handshake r i = [r.request] := by
    intro hstate
    rcases next_waitCpl hstate with hw | ⟨hissue, hready⟩
    · exact .inl hw
    · refine .inr ?_
      change r.state = .issue at hissue
      simp [handshake, Regs.reqValid, hissue, hready]
  have hc := cycle r i
  change (r.step i).core.request = _ ∧ _
  change (r.step i).core.state = _ at h
  generalize (r.step i).core = c at hc h ⊢
  cases hc with
  | accepted _ _ _ => cases h
  | badCommand _ _ hidle _ =>
    change r.state = .waitCpl at h
    exact absurd (hidle.symm.trans h) (by decide)
  | rejected _ _ | badAccess _ | quiet _ _ => exact ⟨next_request r.core i, hnext h⟩

/-- A request on the port stays as it is until the backend accepts it. -/
theorem request_held (h : r.core.Sound) (hvalid : r.reqValid = true) (hready : i.reqReady = false) :
    (r.step i).reqValid = true ∧ (r.step i).request = r.request := by
  have hstate : r.state = .issue := by simpa [Regs.reqValid] using hvalid
  have hqueue := queue_step h (i := i)
  have hnone : doorbell r i = [] := by simp [doorbell, hstate]
  have hwaiting : r.core.waiting = [r.request] := if_pos hstate
  rw [hnone, hwaiting, handshake, hready, Bool.and_false, if_neg Bool.false_ne_true, List.nil_append,
    List.append_nil] at hqueue
  unfold Core.waiting at hqueue
  split at hqueue
  · next hissue => exact ⟨decide_eq_true hissue, List.singleton_inj.mp hqueue⟩
  · cases hqueue

/-- What an accepted doorbell leaves. -/
theorem doorbell_step (h : r.core.Sound) {q : Request} (hq : doorbell r i = [q]) :
    (r.step i).state = .issue ∧ (r.step i).request = q := by
  unfold doorbell at hq
  split at hq
  · next hring =>
    rw [Bool.and_eq_true, decide_eq_true_eq] at hring
    obtain ⟨hrings, hidle⟩ := hring
    have hc := cycle r i
    change (r.step i).core.state = _ ∧ (r.step i).core.request = _
    generalize (r.step i).core = c at hc ⊢
    cases hc with
    | accepted _ _ _ => exact ⟨rfl, List.singleton_inj.mp hq⟩
    | badCommand _ hnot _ _ => exact absurd (hnot.symm.trans hrings) nofun
    | rejected _ hbusy => exact absurd hidle (h.of_busy hbusy)
    | badAccess hbad =>
      exact absurd ((rings_of_writes (writes_of_badAccess hbad)).symm.trans hrings) nofun
    | quiet hw _ => exact absurd ((rings_of_writes hw).symm.trans hrings) nofun
  · cases hq

/-- A completion is taken whatever the bus does in its cycle. -/
theorem done_completes (h : completes r i = true) : (r.step i).done = true := by
  have hnext := (next_completes h).1
  have hstate : r.state = .waitCpl := (completes_iff.mp h).1
  have hc := cycle r i
  change (r.step i).core.done = true
  generalize (r.step i).core = c at hc ⊢
  cases hc with
  | accepted _ hidle _ | badCommand _ _ hidle _ => exact absurd (hidle.symm.trans hstate) (by decide)
  | rejected _ _ | badAccess _ | quiet _ _ => exact hnext

/-- An idle bridge that accepts no doorbell keeps the data that it has read. -/
theorem idle_kept (h : r.core.Sound) (hidle : r.state = .idle) (hnone : doorbell r i = []) :
    (r.step i).state = .idle ∧ (r.step i).cfgRdata = r.cfgRdata ∧
      (r.done = true → (r.step i).done = true) := by
  have hnext : r.core.next i = r.core := by simp [Core.next, Regs.core, hidle]
  have hc := cycle r i
  change (r.step i).core.state = _ ∧ (r.step i).core.cfgRdata = _ ∧
    (_ → (r.step i).core.done = true)
  generalize (r.step i).core = c at hc ⊢
  cases hc with
  | accepted hrings _ _ => simp [doorbell, hrings, hidle] at hnone
  | badCommand _ _ _ _ => exact ⟨hidle, rfl, fun _ => rfl⟩
  | rejected _ hbusy => exact absurd hidle (h.of_busy hbusy)
  | badAccess _ | quiet _ _ =>
    rw [hnext]
    exact ⟨hidle, rfl, id⟩

end Invariant

/-! ### Runs -/

section Runs

def regs (i : Nat → Inputs) : Nat → Regs := Clocked.states Regs.step .reset i

def doorbells (i : Nat → Inputs) : Nat → List Request := Clocked.seen Regs.step doorbell .reset i

def handshakes (i : Nat → Inputs) : Nat → List Request := Clocked.seen Regs.step handshake .reset i

variable {i : Nat → Inputs}

theorem regs_succ (n : Nat) : regs i (n + 1) = (regs i n).step (i n) := rfl

theorem doorbells_succ (n : Nat) :
    doorbells i (n + 1) = doorbells i n ++ doorbell (regs i n) (i n) := rfl

theorem handshakes_succ (n : Nat) :
    handshakes i (n + 1) = handshakes i n ++ handshake (regs i n) (i n) := rfl

theorem sound_run (n : Nat) : (regs i n).core.Sound := by
  induction n with
  | zero => exact ⟨nofun, ⟨nofun, by rintro (h | h) <;> cases h⟩, nofun⟩
  | succ n ih => exact sound_step ih

theorem queue_run (n : Nat) : doorbells i n = handshakes i n ++ (regs i n).core.waiting := by
  induction n with
  | zero => rfl
  | succ n ih =>
    rw [doorbells_succ, handshakes_succ, regs_succ, List.append_assoc, queue_step (sound_run n), ih,
      List.append_assoc]

theorem waitCpl_run {n : Nat} (h : (regs i n).state = .waitCpl) :
    ∃ before, handshakes i n = before ++ [(regs i n).request] := by
  induction n with
  | zero => cases h
  | succ n ih =>
    rw [regs_succ] at h ⊢
    obtain ⟨hrequest, hfrom⟩ := waitCpl_step h
    rw [hrequest, handshakes_succ]
    rcases hfrom with hwait | hshake
    · obtain ⟨before, hbefore⟩ := ih hwait
      have hnone : handshake (regs i n) (i n) = [] := by simp [handshake, Regs.reqValid, hwait]
      exact ⟨before, by rw [hbefore, hnone, List.append_nil]⟩
    · exact ⟨handshakes i n, by rw [hshake]⟩

end Runs

end CortexLabs.Pcie.HostBridge
