import CortexLabs.Pcie.MmioBridge

/-! What an AHB-Lite monitor sees of the memory bridge.  The monitor knows the bus and the request
port alone: it opens a transfer at every accepted address phase, collects the requests that the
backend accepts in its data phase, and closes it with the first cycle in which HREADYOUT is high.
The bridge loses no transfer exactly when none is presented in the second cycle of an ERROR
response. -/

namespace CortexLabs.Pcie.MmioBridge

open Device

/-- The address phase of a transfer. -/
structure Transfer where
  addr : Word
  write : Bool
  size : BitVec 3
  deriving DecidableEq

structure Request where
  write : Bool
  addr : Word
  wdata : Word
  deriving DecidableEq

/-- A transfer in its data phase: the requests accepted in it and the cycles it has spent with
HRESP high. -/
structure Pending where
  transfer : Transfer
  requests : List Request
  errorCycles : Nat
  deriving DecidableEq

inductive Response where
  | okay | error | malformed
  deriving DecidableEq

/-- A transfer that the bridge has answered; `wdata` is HWDATA in the last cycle of its data
phase. -/
structure Answer where
  transfer : Transfer
  wdata : Word
  requests : List Request
  response : Response
  deriving DecidableEq

structure Monitor where
  accepted : List Transfer
  pending : Option Pending
  answers : List Answer
  stray : List Request
  deriving DecidableEq

def Monitor.start : Monitor := ⟨[], none, [], []⟩

/-- The response in a cycle with HREADYOUT high: ERROR takes exactly one cycle with HRESP high
before it, OKAY none. -/
def Pending.response (t : Pending) (hresp : Bool) : Response :=
  if hresp && t.errorCycles = 1 then .error
  else if !hresp && t.errorCycles = 0 then .okay
  else .malformed

/-- The requests that the backend accepts in a cycle. -/
def taken (p : Params) (r : Regs) (i : Inputs) : List Request :=
  if r.memReqValid && i.memReqReady then [⟨r.memReqWrite, r.memReqAddr p, r.memReqWdata⟩] else []

/-- The part of a cycle that belongs to the transfer in its data phase. -/
def Monitor.dataPhase (m : Monitor) (p : Params) (r : Regs) (i : Inputs) : Monitor :=
  match m.pending with
  | none => { m with stray := m.stray ++ taken p r i }
  | some t =>
    let requests := t.requests ++ taken p r i
    if r.hreadyout then
      { m with
        pending := none
        answers := m.answers ++ [⟨t.transfer, i.hwdata, requests, t.response r.hresp⟩] }
    else
      let errorCycles := if r.hresp then t.errorCycles + 1 else t.errorCycles
      { m with pending := some { t with requests, errorCycles } }

def Monitor.step (m : Monitor) (p : Params) (r : Regs) (i : Inputs) : Monitor :=
  let m := m.dataPhase p r i
  if i.addressPhase then
    let t : Transfer := ⟨i.haddr, i.hwrite, i.hsize⟩
    { m with accepted := m.accepted ++ [t], pending := some ⟨t, [], 0⟩ }
  else m

/-- The bridge and the monitor at the start of each cycle after reset. -/
def bus (p : Params) (i : Nat → Inputs) : Nat → Regs × Monitor :=
  Clocked.states (fun s i => (s.1.step p i, s.2.step p s.1 i)) (.reset, .start) i

abbrev regs (p : Params) (i : Nat → Inputs) (n : Nat) : Regs := (bus p i n).1

abbrev monitor (p : Params) (i : Nat → Inputs) (n : Nat) : Monitor := (bus p i n).2

/-- What a master may do: HREADY is the bridge's own HREADYOUT, an address phase is held while
HREADY is low, and so is the write data. -/
structure MasterTrace (p : Params) (i : Nat → Inputs) : Prop where
  ready : ∀ n, (i n).hready = (regs p i n).hreadyout
  addressHeld : ∀ n, (i n).hready = false → (i n).presents = true →
    (i (n + 1)).hsel = (i n).hsel ∧ (i (n + 1)).haddr = (i n).haddr ∧
      (i (n + 1)).htrans = (i n).htrans ∧ (i (n + 1)).hwrite = (i n).hwrite ∧
      (i (n + 1)).hsize = (i n).hsize
  dataHeld : ∀ n, (i n).hready = false → (i (n + 1)).hwdata = (i n).hwdata

/-- One request was accepted for the transfer, and it is the transfer's own. -/
def Answer.Served (p : Params) (a : Answer) : Prop :=
  ∃ q, a.requests = [q] ∧ q.write = a.transfer.write ∧
    q.addr = p.pcieBusBase + (a.transfer.addr - p.cpuApertureBase) ∧
    (a.transfer.write = true → q.wdata = a.wdata)

/-- Every accepted transfer but the one in its data phase has been answered, in order, with a
two-cycle ERROR or with an OKAY for its own request, and no request belongs to no transfer. -/
structure Monitor.Lossless (p : Params) (m : Monitor) : Prop where
  order : m.accepted = m.answers.map (·.transfer) ++ m.pending.toList.map (·.transfer)
  answered : ∀ a ∈ m.answers, a.response = .error ∨ a.response = .okay ∧ a.Served p
  noStray : m.stray = []

/-- A backend that accepts what it is offered and completes what is waited for, in the end. -/
structure Fair (p : Params) (i : Nat → Inputs) : Prop where
  accepts : ∀ n, (regs p i n).memReqValid = true → ∃ m, n ≤ m ∧ (i m).memReqReady = true
  completes : ∀ n, (regs p i n).memCplReady = true → ∃ m, n ≤ m ∧ (i m).memCplValid = true

/-- The bridge loses no transfer: what it has answered is right at every cycle, and with a fair
backend the transfer accepted in any cycle is answered. -/
def LosesNone (p : Params) (i : Nat → Inputs) : Prop :=
  (∀ n, (monitor p i n).Lossless p) ∧
  (Fair p i → ∀ n, (i n).addressPhase = true →
    ∃ m, (monitor p i n).accepted.length < (monitor p i m).answers.length)

/-! ### The invariant -/

def Regs.transfer (r : Regs) : Transfer := ⟨r.addrR, r.writeR, r.sizeR⟩

def Regs.request (p : Params) (r : Regs) : Request := ⟨r.writeR, r.memReqAddr p, r.wdataR⟩

/-- How the registers stand to the transfer in its data phase, while HWDATA is `hwdata`. -/
def Regs.Serves (p : Params) (r : Regs) (hwdata : Word) (t : Option Pending) : Prop :=
  match r.state with
  | .idle => t = none
  | .dphase => t = some ⟨r.transfer, [], 0⟩
  | .issue => t = some ⟨r.transfer, [], 0⟩ ∧ (r.writeR = true → r.wdataR = hwdata)
  | .wait => t = some ⟨r.transfer, [r.request p], 0⟩ ∧ r.writeR = false
  | .resp => t = some ⟨r.transfer, [r.request p], 0⟩ ∧ (r.writeR = true → r.wdataR = hwdata)
  | .err1 => ∃ requests, t = some ⟨r.transfer, requests, 0⟩
  | .err2 => ∃ requests, t = some ⟨r.transfer, requests, 1⟩
  | .unused => False

section Step

variable {p : Params} {r : Regs} {i : Inputs} {m : Monitor} {t : Pending}

theorem addressPhase_eq (h : i.hready = r.hreadyout) :
    i.addressPhase = (r.hreadyout && i.presents) := by
  rw [Inputs.addressPhase, Inputs.presents, h]
  cases r.hreadyout <;> cases i.hsel <;> rfl

theorem taken_eq_nil (h : r.state ≠ .issue) : taken p r i = [] := by
  simp [taken, Regs.memReqValid, h]

/-- While HREADYOUT is low, a transfer only collects requests and cycles of HRESP. -/
theorem step_waiting (ht : m.pending = some t) (hr : r.hreadyout = false)
    (hready : i.hready = r.hreadyout) : m.step p r i =
      { m with pending := some { t with
          requests := t.requests ++ taken p r i
          errorCycles := if r.hresp then t.errorCycles + 1 else t.errorCycles } } := by
  simp [Monitor.step, Monitor.dataPhase, addressPhase_eq hready, ht, hr]

theorem dataPhase_answer (ht : m.pending = some t) (hr : r.hreadyout = true) :
    m.dataPhase p r i =
      { m with
        pending := none
        answers := m.answers ++
          [⟨t.transfer, i.hwdata, t.requests ++ taken p r i, t.response r.hresp⟩] } := by
  simp [Monitor.dataPhase, ht, hr]

/-- The monitor opens the transfer of an accepted address phase, whatever it has seen before. -/
theorem step_pending (h : i.addressPhase = true) :
    (m.step p r i).pending = some ⟨⟨i.haddr, i.hwrite, i.hsize⟩, [], 0⟩ := by
  simp [Monitor.step, h]

namespace Monitor.Lossless

theorem start : Monitor.start.Lossless p := ⟨rfl, nofun, rfl⟩

theorem carry (h : m.Lossless p) (ht : m.pending = some t) {t' : Pending}
    (heq : t'.transfer = t.transfer) : Lossless p { m with pending := some t' } := by
  refine ⟨?_, h.answered, h.noStray⟩
  rw [h.order, ht]
  simp [heq]

theorem answer (h : m.Lossless p) (ht : m.pending = some t) {a : Answer}
    (heq : a.transfer = t.transfer) (ha : a.response = .error ∨ a.response = .okay ∧ a.Served p) :
    Lossless p { m with pending := none, answers := m.answers ++ [a] } := by
  refine ⟨?_, ?_, h.noStray⟩
  · rw [h.order, ht]
    simp [heq]
  · intro b hb
    rcases List.mem_append.mp hb with hb | hb
    · exact h.answered b hb
    · rw [List.mem_singleton.mp hb]
      exact ha

/-- With no transfer in its data phase, the next address phase opens one. -/
theorem accept (h : m.Lossless p) (hnone : m.pending = none) (t : Transfer) :
    Lossless p { m with accepted := m.accepted ++ [t], pending := some ⟨t, [], 0⟩ } := by
  refine ⟨?_, h.answered, h.noStray⟩
  rw [h.order, hnone]
  simp

end Monitor.Lossless

/-- After a cycle that ends a transfer or has none, the registers hold what the monitor opens. -/
theorem serves_next {hwdata : Word} (hnone : (m.dataPhase p r i).pending = none)
    (hl : (m.dataPhase p r i).Lossless p)
    (hstep : r.step p i = if i.addressPhase then r.capture i else { r with state := .idle }) :
    (r.step p i).Serves p hwdata (m.step p r i).pending ∧ (m.step p r i).Lossless p := by
  rw [hstep, Monitor.step]
  by_cases h : i.addressPhase = true
  · rw [if_pos h, if_pos h]
    exact ⟨rfl, hl.accept hnone _⟩
  · rw [if_neg h, if_neg h]
    exact ⟨hnone, hl⟩

theorem served {requests : List Request} (hreq : requests = [r.request p])
    (hw : r.writeR = true → r.wdataR = i.hwdata) (response : Response) :
    Answer.Served p ⟨r.transfer, i.hwdata, requests, response⟩ :=
  ⟨r.request p, hreq, rfl, rfl, hw⟩

/-- What the registers make of a transfer while HREADYOUT is low is all that is to be shown. -/
theorem serves_waiting {hwdata : Word} (ht : m.pending = some t) (hl : m.Lossless p)
    (hr : r.hreadyout = false) (hready : i.hready = r.hreadyout)
    (hstep : (r.step p i).Serves p hwdata (some { t with
      requests := t.requests ++ taken p r i
      errorCycles := if r.hresp then t.errorCycles + 1 else t.errorCycles })) :
    (r.step p i).Serves p hwdata (m.step p r i).pending ∧ (m.step p r i).Lossless p := by
  rw [step_waiting ht hr hready]
  exact ⟨hstep, hl.carry ht rfl⟩

theorem step_dphase (hstate : r.state = .dphase) :
    (r.step p i).Serves p i.hwdata (some ⟨r.transfer, [], 0⟩) := by
  simp only [Regs.step, hstate]
  by_cases h : r.refused p = true
  · rw [if_pos h]
    exact ⟨[], rfl⟩
  · rw [if_neg h]
    refine ⟨rfl, fun hw => ?_⟩
    change r.writeR = true at hw
    simp [hw]

theorem step_issue (hstate : r.state = .issue) (hw : r.writeR = true → r.wdataR = i.hwdata) :
    (r.step p i).Serves p i.hwdata (some ⟨r.transfer, taken p r i, 0⟩) := by
  simp only [Regs.step, hstate]
  by_cases h : i.memReqReady = true
  · have hq : taken p r i = [r.request p] := by
      simp [taken, Regs.memReqValid, hstate, h, Regs.request, Regs.memReqWrite, Regs.memReqWdata]
    rw [if_pos h, hq]
    by_cases hwrite : r.writeR = true
    · rw [if_pos hwrite]
      exact ⟨rfl, hw⟩
    · rw [if_neg hwrite]
      exact ⟨rfl, Bool.eq_false_iff.mpr hwrite⟩
  · have hq : taken p r i = [] := by simp [taken, h]
    rw [if_neg h, hq]
    simp only [Regs.Serves, hstate]
    exact ⟨trivial, hw⟩

theorem step_wait {hwdata : Word} (hstate : r.state = .wait) (hw : r.writeR = false) :
    (r.step p i).Serves p hwdata (some ⟨r.transfer, [r.request p], 0⟩) := by
  simp only [Regs.step, hstate]
  by_cases h : i.memCplValid = true
  · rw [if_pos h]
    by_cases hst : i.memCplStatus ≠ 0
    · rw [if_pos hst]
      exact ⟨_, rfl⟩
    · rw [if_neg hst]
      exact ⟨rfl, fun hwrite => absurd (hw.symm.trans hwrite) Bool.false_ne_true⟩
  · rw [if_neg h]
    simp only [Regs.Serves, hstate]
    exact ⟨trivial, hw⟩

/-- One cycle, in which no transfer is presented while an ERROR response ends. -/
theorem serves_step (hs : r.Serves p i.hwdata m.pending) (hl : m.Lossless p)
    (hready : i.hready = r.hreadyout) {hwdata : Word}
    (hheld : i.hready = false → hwdata = i.hwdata)
    (hlost : r.hresp = true → r.hreadyout = true → i.presents = false) :
    (r.step p i).Serves p hwdata (m.step p r i).pending ∧ (m.step p r i).Lossless p := by
  cases hstate : r.state <;> simp only [Regs.Serves, hstate] at hs
  case idle =>
    have hd : m.dataPhase p r i = m := by
      obtain ⟨accepted, pending, answers, stray⟩ := m
      obtain rfl : pending = none := hs
      simp [Monitor.dataPhase, taken_eq_nil, hstate]
    have hr : { r with state := .idle } = r := by rw [← hstate]
    refine serves_next (by rw [hd]; exact hs) (by rwa [hd]) ?_
    rw [hr]
    simp only [Regs.step, hstate]
  case dphase =>
    have hr : r.hreadyout = false := by simp [Regs.hreadyout, hstate]
    have hresp : r.hresp = false := by simp [Regs.hresp, hstate]
    refine serves_waiting hs hl hr hready ?_
    rw [taken_eq_nil (by simp [hstate]), hresp, hheld (hready.trans hr)]
    exact step_dphase hstate
  case issue =>
    obtain ⟨ht, hw⟩ := hs
    have hr : r.hreadyout = false := by simp [Regs.hreadyout, hstate]
    have hresp : r.hresp = false := by simp [Regs.hresp, hstate]
    refine serves_waiting ht hl hr hready ?_
    rw [hresp, hheld (hready.trans hr)]
    exact step_issue hstate hw
  case wait =>
    obtain ⟨ht, hw⟩ := hs
    have hr : r.hreadyout = false := by simp [Regs.hreadyout, hstate]
    have hresp : r.hresp = false := by simp [Regs.hresp, hstate]
    refine serves_waiting ht hl hr hready ?_
    rw [taken_eq_nil (by simp [hstate]), hresp]
    exact step_wait hstate hw
  case resp =>
    obtain ⟨ht, hw⟩ := hs
    have hr : r.hreadyout = true := by simp [Regs.hreadyout, hstate]
    have hresp : r.hresp = false := by simp [Regs.hresp, hstate]
    have hd := dataPhase_answer ht hr (p := p) (i := i)
    refine serves_next (by rw [hd]) ?_ (by simp only [Regs.step, hstate])
    rw [hd]
    refine hl.answer ht rfl (.inr ⟨?_, served ?_ hw _⟩)
    · simp [Pending.response, hresp]
    · simp [taken_eq_nil, hstate]
  case err1 =>
    obtain ⟨requests, ht⟩ := hs
    have hr : r.hreadyout = false := by simp [Regs.hreadyout, hstate]
    have hresp : r.hresp = true := by simp [Regs.hresp, hstate]
    refine serves_waiting ht hl hr hready ?_
    rw [hresp]
    simp only [Regs.step, hstate]
    exact ⟨_, rfl⟩
  case err2 =>
    obtain ⟨requests, ht⟩ := hs
    have hr : r.hreadyout = true := by simp [Regs.hreadyout, hstate]
    have hresp : r.hresp = true := by simp [Regs.hresp, hstate]
    have hquiet : i.addressPhase = false := by
      rw [addressPhase_eq hready, hlost hresp hr, Bool.and_false]
    have hd := dataPhase_answer ht hr (p := p) (i := i)
    refine serves_next (by rw [hd]) ?_ (by simp [Regs.step, hstate, hquiet])
    rw [hd]
    refine hl.answer ht rfl (.inl ?_)
    simp [Pending.response, hresp]

end Step

/-! ### Runs -/

section Run

variable {p : Params} {i : Nat → Inputs}

theorem regs_succ (n : Nat) : regs p i (n + 1) = (regs p i n).step p (i n) := rfl

theorem monitor_succ (n : Nat) :
    monitor p i (n + 1) = (monitor p i n).step p (regs p i n) (i n) := rfl

theorem serves_run (hi : MasterTrace p i)
    (hlost : ∀ n, (regs p i n).hresp = true → (regs p i n).hreadyout = true →
      (i n).presents = false) (n : Nat) :
    (regs p i n).Serves p (i n).hwdata (monitor p i n).pending ∧ (monitor p i n).Lossless p := by
  have h0 : Regs.reset.Serves p (i 0).hwdata Monitor.start.pending ∧
      Monitor.start.Lossless p := ⟨rfl, .start⟩
  exact Clocked.states_invariant
    (I := fun n (s : Regs × Monitor) => s.1.Serves p (i n).hwdata s.2.pending ∧ s.2.Lossless p)
    h0 (fun n h => serves_step h.1 h.2 (hi.ready n) (hi.dataHeld n) (hlost n)) n

/-- From cycle `n` on, HREADYOUT is high at some cycle. -/
def ReadyFrom (p : Params) (i : Nat → Inputs) (n : Nat) : Prop :=
  ∃ m, n ≤ m ∧ (regs p i m).hreadyout = true

theorem ReadyFrom.later {n m : Nat} (hnm : n ≤ m) (h : ReadyFrom p i m) : ReadyFrom p i n := by
  obtain ⟨k, hk, hr⟩ := h
  exact ⟨k, Nat.le_trans hnm hk, hr⟩

theorem ReadyFrom.now {n : Nat} (h : (regs p i n).hreadyout = true) : ReadyFrom p i n :=
  ⟨n, Nat.le_refl n, h⟩

theorem readyFrom_resp {n : Nat} (h : (regs p i n).state = .resp) : ReadyFrom p i n :=
  .now (by simp [Regs.hreadyout, h])

theorem readyFrom_err1 {n : Nat} (h : (regs p i n).state = .err1) : ReadyFrom p i n := by
  refine .later (Nat.le_succ n) (.now ?_)
  rw [Regs.hreadyout, regs_succ, Regs.step, h]
  rfl

theorem readyFrom_wait (hf : Fair p i) {n : Nat} (h : (regs p i n).state = .wait) :
    ReadyFrom p i n := by
  obtain ⟨m, hm, hv⟩ := hf.completes n (by simp [Regs.memCplReady, h])
  have hstay : ∀ k, (regs p i k).state = .wait → ¬(i k).memCplValid = true →
      (regs p i (k + 1)).state = .wait := by
    intro k hk hno
    rw [regs_succ, Regs.step, hk]
    simp [hno, hk]
  obtain ⟨k, hk, hw, hv⟩ := Clocked.stays_until hstay hm h hv
  refine .later (Nat.le_succ_of_le hk) ?_
  by_cases hst : (i k).memCplStatus ≠ 0
  · apply readyFrom_err1
    rw [regs_succ, Regs.step, hw]
    dsimp only
    rw [if_pos hv, if_pos hst]
  · apply readyFrom_resp
    rw [regs_succ, Regs.step, hw]
    dsimp only
    rw [if_pos hv, if_neg hst]

theorem readyFrom_issue (hf : Fair p i) {n : Nat} (h : (regs p i n).state = .issue) :
    ReadyFrom p i n := by
  obtain ⟨m, hm, hv⟩ := hf.accepts n (by simp [Regs.memReqValid, h])
  have hstay : ∀ k, (regs p i k).state = .issue → ¬(i k).memReqReady = true →
      (regs p i (k + 1)).state = .issue := by
    intro k hk hno
    rw [regs_succ, Regs.step, hk]
    simp [hno, hk]
  obtain ⟨k, hk, hw, hv⟩ := Clocked.stays_until hstay hm h hv
  refine .later (Nat.le_succ_of_le hk) ?_
  cases hwrite : (regs p i k).writeR
  · refine readyFrom_wait hf ?_
    rw [regs_succ, Regs.step, hw]
    simp [hv, hwrite]
  · apply readyFrom_resp
    rw [regs_succ, Regs.step, hw]
    simp [hv, hwrite]

/-- With a fair backend, no transfer stalls the bus for ever. -/
theorem readyFrom (hf : Fair p i) (n : Nat) : ReadyFrom p i n := by
  cases h : (regs p i n).state
  case idle => exact .now (by simp [Regs.hreadyout, h])
  case dphase =>
    refine .later (Nat.le_succ n) ?_
    by_cases hr : (regs p i n).refused p = true
    · apply readyFrom_err1
      rw [regs_succ, Regs.step, h]
      simp [hr]
    · refine readyFrom_issue hf ?_
      rw [regs_succ, Regs.step, h]
      simp [hr]
  case issue => exact readyFrom_issue hf h
  case wait => exact readyFrom_wait hf h
  case resp => exact readyFrom_resp h
  case err1 => exact readyFrom_err1 h
  case err2 => exact .now (by simp [Regs.hreadyout, h])
  case unused =>
    refine .later (Nat.le_succ n) (.now ?_)
    rw [Regs.hreadyout, regs_succ, Regs.step, h]
    rfl

theorem step_accepted (m : Monitor) (r : Regs) (x : Inputs) :
    (m.step p r x).accepted = m.accepted ++
      (if x.addressPhase then [⟨x.haddr, x.hwrite, x.hsize⟩] else []) := by
  have hd : (m.dataPhase p r x).accepted = m.accepted := by
    unfold Monitor.dataPhase
    cases m.pending with
    | none => rfl
    | some t => cases r.hreadyout <;> rfl
  unfold Monitor.step
  cases x.addressPhase
  · simp [hd]
  · simp [hd]

theorem step_answers (m : Monitor) (r : Regs) (x : Inputs) :
    (m.step p r x).answers = (m.dataPhase p r x).answers := by
  unfold Monitor.step
  cases x.addressPhase <;> rfl

theorem accepted_mono {n m : Nat} (h : n ≤ m) :
    (monitor p i n).accepted.length ≤ (monitor p i m).accepted.length := by
  induction h with
  | refl => exact Nat.le_refl _
  | step _ ih =>
    refine Nat.le_trans ih ?_
    rw [monitor_succ, step_accepted, List.length_append]
    exact Nat.le_add_right _ _

/-- A cycle with HREADYOUT high leaves nothing accepted before it unanswered. -/
theorem answers_of_ready {n : Nat} (hl : (monitor p i n).Lossless p)
    (hr : (regs p i n).hreadyout = true) :
    (monitor p i n).accepted.length ≤ (monitor p i (n + 1)).answers.length := by
  rw [hl.order, monitor_succ, step_answers]
  cases ht : (monitor p i n).pending with
  | none => simp [Monitor.dataPhase, ht]
  | some t =>
    rw [dataPhase_answer ht hr]
    simp

/-- The bridge loses no transfer exactly when the master presents none in the second cycle of an
ERROR response. -/
theorem losesNone_iff (hi : MasterTrace p i) :
    LosesNone p i ↔ ∀ n, (regs p i n).hresp = true → (regs p i n).hreadyout = true →
      (i n).presents = false := by
  constructor
  · intro h n hresp hr
    by_contra hpresents
    have hpresents : (i n).presents = true := by simpa using hpresents
    have herr : (regs p i n).state = .err2 := by
      revert hresp hr
      simp only [Regs.hresp, Regs.hreadyout]
      cases (regs p i n).state <;> simp
    have hphase : (i n).addressPhase = true := by
      rw [addressPhase_eq (hi.ready n), hr, hpresents, Bool.and_true]
    -- The monitor opens the transfer, but the registers go to `idle` and answer it with OKAY.
    have hopen := step_pending (p := p) (r := regs p i n) (m := monitor p i n) hphase
    rw [← monitor_succ] at hopen
    have hidle : (regs p i (n + 1)).state = .idle := by
      rw [regs_succ, Regs.step, herr]
    have hanswers := dataPhase_answer (p := p) (i := i (n + 1)) hopen
      (by simp [Regs.hreadyout, hidle] : (regs p i (n + 1)).hreadyout = true)
    have hbad := (h.1 (n + 2)).answered
    rw [monitor_succ, step_answers, hanswers] at hbad
    have := hbad _ (List.mem_append_right _ (List.mem_singleton_self _))
    simp [Pending.response, Regs.hresp, hidle, Answer.Served, taken_eq_nil] at this
  · intro hlost
    have hrun := serves_run hi hlost
    refine ⟨fun n => (hrun n).2, fun hf n hphase => ?_⟩
    obtain ⟨m, hm, hr⟩ := readyFrom hf (n + 1)
    refine ⟨m + 1, Nat.lt_of_lt_of_le ?_ (answers_of_ready (hrun m).2 hr)⟩
    refine Nat.lt_of_lt_of_le ?_ (accepted_mono hm)
    rw [monitor_succ, step_accepted, if_pos hphase]
    simp

end Run

/-- A master that presents `a` in cycle 0 and `b` in cycle 3, where a transfer presented in cycle 0
ends, over a backend that accepts and completes at once. -/
def twoTransfers (a : Transfer) (b : Option Transfer) (n : Nat) : Inputs :=
  let t := if n = 0 then some a else if n = 3 then b else none
  { hsel := t.isSome, haddr := (t.map (·.addr)).getD 0, htrans := if t.isSome then 0b10 else 0
    hwrite := (t.map (·.write)).getD false, hsize := (t.map (·.size)).getD 0b010
    hwdata := 42, hready := n ≠ 1 && n ≠ 2
    memReqReady := true, memCplValid := true, memCplStatus := 0, memCplRdata := 0 }

theorem twoTransfers_quiet {a : Transfer} {b : Option Transfer} {n : Nat} (hn : 3 < n) :
    (twoTransfers a b n).presents = false := by
  have h0 : n ≠ 0 := by omega
  have h3 : n ≠ 3 := by omega
  simp [twoTransfers, Inputs.presents, h0, h3]

/-- A trace of two transfers whose bus is idle in cycle 4 is one of a master, and stays idle. -/
theorem twoTransfers_master {p : Params} {a : Transfer} {b : Option Transfer}
    (hfirst : ∀ n < 4, (twoTransfers a b n).hready = (regs p (twoTransfers a b) n).hreadyout)
    (hidle : (regs p (twoTransfers a b) 4).state = .idle) :
    MasterTrace p (twoTransfers a b) ∧
      ∀ n, (regs p (twoTransfers a b) (4 + n)).state = .idle := by
  have hrest : ∀ n, (regs p (twoTransfers a b) (4 + n)).state = .idle := by
    intro n
    induction n with
    | zero => exact hidle
    | succ n ih =>
      have hready : (twoTransfers a b (4 + n)).hready =
          (regs p (twoTransfers a b) (4 + n)).hreadyout := by
        rw [Regs.hreadyout, ih]
        simp [twoTransfers]
        omega
      have hphase : (twoTransfers a b (4 + n)).addressPhase = false := by
        rw [addressPhase_eq hready, twoTransfers_quiet (by omega), Bool.and_false]
      rw [← Nat.add_assoc, regs_succ, Regs.step, ih, hphase]
      exact ih
  refine ⟨⟨fun n => ?_, fun n h hpresents => ?_, fun n _ => rfl⟩, hrest⟩
  · by_cases hn : n < 4
    · exact hfirst n hn
    · obtain ⟨k, rfl⟩ := Nat.exists_eq_add_of_le (Nat.le_of_not_lt hn)
      rw [Regs.hreadyout, hrest k]
      simp [twoTransfers]
      omega
  · have hn : n = 1 ∨ n = 2 := by
      simp [twoTransfers] at h
      omega
    rcases hn with rfl | rfl <;> simp [twoTransfers, Inputs.presents] at hpresents

/-- A byte read is answered with ERROR, and nothing is presented in the second cycle of that
response: the bridge loses nothing. -/
theorem losesNone_error :
    ⟨⟨0x60001001, false, 0⟩, 42, [], .error⟩ ∈
      (monitor .default (twoTransfers ⟨0x60001001, false, 0⟩ none) 4).answers ∧
    LosesNone .default (twoTransfers ⟨0x60001001, false, 0⟩ none) := by
  obtain ⟨hm, -⟩ := twoTransfers_master (p := .default) (a := ⟨0x60001001, false, 0⟩)
    (b := none) (by decide) (by decide)
  have hquiet : ∀ n < 4,
      (regs .default (twoTransfers ⟨0x60001001, false, 0⟩ none) n).hresp = true →
      (twoTransfers ⟨0x60001001, false, 0⟩ none n).presents = false := by decide
  refine ⟨by decide, (losesNone_iff hm).mpr fun n hresp _ => ?_⟩
  by_cases hn : n < 4
  · exact hquiet n hn hresp
  · exact twoTransfers_quiet (by omega)

/-- A word write presented as the ERROR response to a byte read ends is answered with OKAY, and
no request is ever made for it. -/
theorem write_after_error_lost :
    MasterTrace .default
      (twoTransfers ⟨0x60001001, false, 0⟩ (some ⟨0x60001000, true, 0b010⟩)) ∧
    ¬LosesNone .default
      (twoTransfers ⟨0x60001001, false, 0⟩ (some ⟨0x60001000, true, 0b010⟩)) := by
  refine ⟨(twoTransfers_master (by decide) (by decide)).1, fun h => ?_⟩
  have hlast : (⟨⟨0x60001000, true, 0b010⟩, 42, [], .okay⟩ : Answer) ∈ (monitor .default
      (twoTransfers ⟨0x60001001, false, 0⟩ (some ⟨0x60001000, true, 0b010⟩)) 5).answers := by
    decide
  have hbad := (h.1 5).answered _ hlast
  simp [Answer.Served] at hbad

end CortexLabs.Pcie.MmioBridge
