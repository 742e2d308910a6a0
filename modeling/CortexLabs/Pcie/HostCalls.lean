import CortexLabs.Device.Run
import CortexLabs.Pcie.HostDriver
import CortexLabs.Pcie.HostFlight

/-! Sequences of driver calls.  Between calls the bridge is unoccupied or carries a request that a
timed-out call has left behind.  A call that finds it unoccupied launches one request, and when it
returns success, the request's own completion is the last thing that happened at the port. -/

namespace CortexLabs.Pcie.HostBridge

open Device

/-- The requests launched in a list of events. -/
def launches (es : List Event) : List Request :=
  es.filterMap fun e => match e with | .launched q => some q | _ => none

/-- The requests accepted in a list of events. -/
def acceptances (es : List Event) : List Request :=
  es.filterMap fun e => match e with | .accepted q => some q | _ => none

/-- Whether a request has been launched and not completed since. -/
def outstanding (es : List Event) : Bool :=
  es.foldl (fun b e => match e with | .launched _ => true | .accepted _ => b | .completed _ _ => false)
    false

@[simp] theorem launches_nil : launches [] = [] := rfl

@[simp] theorem launches_launched (q : Request) (es : List Event) :
    launches (.launched q :: es) = q :: launches es := rfl

@[simp] theorem launches_accepted (q : Request) (es : List Event) :
    launches (.accepted q :: es) = launches es := rfl

@[simp] theorem launches_completed (st : BitVec 2) (data : Word) (es : List Event) :
    launches (.completed st data :: es) = launches es := rfl

@[simp] theorem launches_append (es fs : List Event) :
    launches (es ++ fs) = launches es ++ launches fs := List.filterMap_append

theorem status_bits (r : Regs) : (r.status &&& 1 <<< 0 ≠ 0 ↔ r.busy = true) ∧
    (r.status &&& 1 <<< 1 = 0 ↔ r.done = false) ∧
    (r.status &&& 1 <<< 2 ≠ 0 ↔ r.errorStatus ≠ 0) ∧ r.status &&& 1 <<< 3 = 0 := by
  unfold Regs.status
  by_cases he : r.errorStatus = 0
  · simp only [he, ne_eq, not_true, decide_false]
    cases r.done <;> cases r.busy <;> decide
  · simp only [he, ne_eq, not_false_eq_true, decide_true]
    cases r.done <;> cases r.busy <;> decide

section Between

variable {w w' : World} {q : Request} {es log : List Event}

/-- The bridge between two calls, when the backend port has shown `w.log`. -/
inductive World.Coherent (w : World) : Prop
  | free : w.Unoccupied → outstanding w.log = false → w.Coherent
  | held : (w.regs.state = .issue ∨ w.regs.state = .waitCpl) → w.regs.busy = true →
      w.regs.writing = false → outstanding w.log = true → w.Coherent

theorem World.Coherent.outstanding_eq (h : w.Coherent) : outstanding w.log = w.regs.busy := by
  cases h with
  | free hu ho => rw [ho, hu.busy]
  | held _ hb _ ho => rw [ho, hb]

/-- A request that is in flight when a call returns is found by the next call. -/
theorem InFlight.coherent (h : InFlight q w.regs.core es) (hlog : w.log = log ++ es)
    (hidle : w.regs.writing = false) : w.Coherent := by
  generalize hc : w.regs.core = c at h
  cases h with
  | issued =>
    refine .held (.inl (congrArg Core.state hc)) (congrArg Core.busy hc) hidle ?_
    simp [hlog, outstanding]
  | waiting =>
    refine .held (.inr (congrArg Core.state hc)) (congrArg Core.busy hc) hidle ?_
    simp [hlog, outstanding]
  | finished =>
    refine .free ⟨congrArg Core.state hc, congrArg Core.busy hc, writes_of_idle hidle _⟩ ?_
    simp [hlog, outstanding]

theorem held_step {r : Regs} {i : Inputs} (hstate : r.state = .issue ∨ r.state = .waitCpl)
    (hbusy : r.busy = true) (hidle : r.writing = false) :
    ((r.step i).state = .idle ∧ (r.step i).busy = false ∧ ∃ st data,
        events r i = [.completed st data]) ∨
    (((r.step i).state = .issue ∨ (r.step i).state = .waitCpl) ∧ (r.step i).busy = true ∧
      (events r i = [] ∨ events r i = [.accepted r.request])) := by
  have hb := Regs.benign_of_idle hidle
  have hcore : (r.step i).core = r.core.next i := by rw [step_core hb, fsm_core]
  rw [events_benign hb]
  have hs : (r.step i).state = (r.core.next i).state := congrArg Core.state hcore
  have hbz : (r.step i).busy = (r.core.next i).busy := congrArg Core.busy hcore
  rw [hs, hbz]
  rcases hstate with hstate | hstate
  · cases hready : i.reqReady
    · simp [Core.next, Core.shows, Regs.core, hstate, hready, hbusy]
    · simp [Core.next, Core.shows, Regs.core, hstate, hready, hbusy]
  · cases hvalid : i.cplValid
    · simp [Core.next, Core.shows, Regs.core, hstate, hvalid, hbusy]
    · simp [Core.next, Core.shows, Regs.core, hstate, hvalid]

/-- From the start of a call, at which the port has shown `start`, to the end of its first load: the
request of an earlier call may move on, but nothing is launched. -/
def Waiting (start : List Event) (r : Regs) (log : List Event) : Prop :=
  (r.state = .idle ∧ r.busy = false ∧ outstanding log = false ∨
    (r.state = .issue ∨ r.state = .waitCpl) ∧ r.busy = true ∧ outstanding log = true) ∧
  ∃ stale, log = start ++ stale ∧ launches stale = []

theorem Waiting.step {start : List Event} {r : Regs} {i : Inputs} (h : Waiting start r log)
    (hidle : r.writing = false) : Waiting start (r.step i) (log ++ events r i) := by
  obtain ⟨hstage, stale, rfl, hstale⟩ := h
  rcases hstage with ⟨hs, hb, ho⟩ | ⟨hs, hb, ho⟩
  · have hdoorbell := writes_of_idle hidle regCfgCommand
    obtain ⟨h1, h2, -⟩ := idle_step hs hdoorbell (i := i)
    rw [events_idle hs hdoorbell, List.append_nil]
    exact ⟨.inl ⟨h1, h2.trans hb, ho⟩, stale, rfl, hstale⟩
  · rcases held_step (i := i) hs hb hidle with ⟨h1, h2, st, data, he⟩ | ⟨h1, h2, he⟩
    · refine ⟨.inl ⟨h1, h2, ?_⟩, stale ++ events r i, List.append_assoc .., ?_⟩
      · simp [he, outstanding]
      · simp [he, hstale]
    · refine ⟨.inr ⟨h1, h2, ?_⟩, stale ++ events r i, List.append_assoc .., ?_⟩
      · rcases he with he | he
        · simpa [he] using ho
        · simpa [he, outstanding] using ho
      · rcases he with he | he <;> simp [he, hstale]

theorem World.Coherent.load {addr : Word} {v : Ans (.load addr)} (h : w.Coherent)
    (ha : csr.answer w (.load addr) v w') :
    w'.Coherent ∧ ∃ stale, w'.log = w.log ++ stale ∧ launches stale = [] := by
  cases h with
  | free hu ho =>
    obtain ⟨hu', hlog, -⟩ := hu.load ha
    exact ⟨.free hu' (by rw [hlog, ho]), [], by rw [hlog, List.append_nil], rfl⟩
  | held hs hb hw ho =>
    have hidle := (answer_load ha).1
    have h0 : Waiting w.log w.regs w.log := ⟨.inr ⟨hs, hb, ho⟩, [], by simp, rfl⟩
    obtain ⟨hstage, hstale⟩ := answer_rule (P := Waiting w.log) (fun i _ => h0.step hw)
      (fun r log i hi hP => hP.step hi) ha
    refine ⟨?_, hstale⟩
    rcases hstage with ⟨h1, h2, h3⟩ | ⟨h1, h2, h3⟩
    · exact .free ⟨h1, h2, writes_of_idle hidle _⟩ h3
    · exact .held h1 h2 hidle h3

end Between

/-! ### One call -/

/-- What the proofs need of a driver's numbers. -/
structure Driver.Conforms (d : Driver) : Prop where
  base : d.base = 0xa0000000
  polls : 0 < d.pollLimit
  done : d.statusDone = 1 <<< 1
  error : d.statusError = 1 <<< 2
  read : d.cfgRead = cmdCfgRead
  write : d.cfgWrite = cmdCfgWrite
  okBusy : d.ok ≠ d.errBusy
  okBackend : d.ok ≠ d.errBackend
  okTimeout : d.ok ≠ d.errTimeout
  backendBusy : d.errBackend ≠ d.errBusy
  timeoutBusy : d.errTimeout ≠ d.errBusy

theorem labh1_conforms : labh1.Conforms := by constructor <;> decide

theorem labh2_conforms : labh2.Conforms := by constructor <;> decide

theorem labh3_conforms : labh3.Conforms := by constructor <;> decide

section Call

variable {d : Driver} {w w' : World} {q : Request} {es log : List Event}

/-- Request `q` was launched when the port had shown `log`, and its data phases are over. -/
def World.Carries (q : Request) (log : List Event) (w : World) : Prop :=
  ∃ es, InFlight q w.regs.core es ∧ w.log = log ++ es ∧ w.regs.writing = false

theorem World.Carries.armed (h : w.Carries q log) : w.Armed q log := by
  obtain ⟨es, hflight, hlog, hidle⟩ := h
  exact hflight.armed hlog (Regs.benign_of_idle hidle)

theorem World.Armed.load {addr : Word} {v : Ans (.load addr)} (h : w.Armed q log)
    (ha : csr.answer w (.load addr) v w') : w'.Carries q log := by
  obtain ⟨es, hflight, hlog⟩ := h _ _ _ ha
  exact ⟨es, hflight, hlog, (answer_load ha).1⟩

theorem World.Armed.store {addr value : Word} {x : Ans (.store addr value)} (h : w.Armed q log)
    (ha : csr.answer w (.store addr value) x w') (haddr : addr.setWidth 16 = regCfgWdata) :
    w'.Armed q log := by
  obtain ⟨es, hflight, hlog⟩ := h _ _ _ ha
  refine hflight.armed hlog fun _ => .inr (.inr ?_)
  rw [(answer_store ha).2, decide_eq_true haddr]

/-- How a call ends that has launched `q`: on success the request has completed, and it was the
last to do so. -/
structure Outcome (d : Driver) (q : Request) (log : List Event) (readData : Option Word)
    (res : Driver.Result) (w : World) : Prop where
  carries : w.Carries q log
  ok : res.1 = d.ok → ∃ data, w.log = log ++ [.launched q, .accepted q, .completed 0 data] ∧
    (q.type = reqCfgRead → readData.isSome = true → res.2 = some data)
  notBusy : res.1 ≠ d.errBusy

/-- A request in flight whose `STATUS` shows `done` has completed. -/
theorem finished_of_done (h : w.Carries q log) (hdone : w.regs.done = true) :
    ∃ status data, w.regs.state = .idle ∧
      w.log = log ++ [.launched q, .accepted q, .completed status data] ∧
      (w.regs.errorStatus = 0 ↔ status = 0) ∧
      (status = 0 → q.type = reqCfgRead → w.regs.cfgRdata = data) := by
  obtain ⟨es, hflight, hlog, -⟩ := h
  generalize hc : w.regs.core = c at hflight
  cases hflight with
  | issued => exact absurd ((congrArg Core.done hc).symm.trans hdone) nofun
  | waiting => exact absurd ((congrArg Core.done hc).symm.trans hdone) nofun
  | @finished rdata error status data herr hdata =>
    refine ⟨status, data, congrArg Core.state hc, hlog, ?_, fun h0 ht => ?_⟩
    · rw [show w.regs.errorStatus = error from congrArg Core.errorStatus hc]
      exact herr
    · rw [show w.regs.cfgRdata = rdata from congrArg Core.cfgRdata hc]
      exact hdata h0 ht

variable (hd : d.Conforms)
include hd

theorem load_status {v : Ans (.load d.status)} (ha : csr.answer w (.load d.status) v w') :
    v = w'.regs.status := by
  obtain ⟨-, hv, h1, h2, h3⟩ := answer_load ha
  have haddr : d.status.setWidth 16 = regStatus := by
    rw [Driver.status, hd.base]
    decide
  apply hv.trans
  rw [Regs.hrdata, h1, h2, h3, haddr]
  rfl

theorem load_cfgRdata {v : Ans (.load d.cfgRdata)} (ha : csr.answer w (.load d.cfgRdata) v w') :
    v = w'.regs.cfgRdata := by
  obtain ⟨-, hv, h1, h2, h3⟩ := answer_load ha
  have haddr : d.cfgRdata.setWidth 16 = regCfgRdata := by
    rw [Driver.cfgRdata, hd.base]
    decide
  apply hv.trans
  rw [Regs.hrdata, h1, h2, h3, haddr]
  rfl

theorem readResult_safe {C : List (Device.Event csr) → World → Prop} {readData : Option Word}
    {t : List (Device.Event csr)} (h : w.Carries q log) (hdone : w.regs.done = true) :
    Safe csr (fun _ res w => Outcome d q log readData res w) C
      (d.readResult w.regs.status readData) t w := by
  obtain ⟨status, data, hstate, hlog, herr, hdata⟩ := finished_of_done h hdone
  have hbits := (status_bits w.regs).2.2.1
  rw [← hd.error] at hbits
  unfold Driver.readResult
  by_cases he : w.regs.status &&& d.statusError ≠ 0
  · rw [if_pos he]
    exact ⟨h, fun h0 => absurd h0.symm hd.okBackend, hd.backendBusy⟩
  · rw [if_neg he]
    have h0 : status = 0 := by
      apply herr.mp
      by_contra hne
      exact he (hbits.mpr hne)
    subst h0
    cases readData with
    | none => exact ⟨h, fun _ => ⟨data, hlog, fun _ hn => absurd hn nofun⟩, hd.okBusy⟩
    | some v =>
      refine ⟨fun _ ht => ht.elim, fun x w' ha => ?_⟩
      have hidle : w.regs.writing = false := by
        obtain ⟨-, -, -, hidle⟩ := h
        exact hidle
      obtain ⟨hcore, hlog'⟩ := finished_access rfl hstate hidle ha
      refine ⟨h.armed.load ha, fun _ => ⟨data, hlog'.trans hlog, fun ht _ => ?_⟩, hd.okBusy⟩
      have hx := load_cfgRdata hd ha
      have hkeep : w'.regs.cfgRdata = w.regs.cfgRdata := congrArg Core.cfgRdata hcore
      rw [← hdata rfl ht, ← hkeep, ← hx]

theorem poll_succ {C : List (Device.Event csr) → World → Prop} {readData : Option Word}
    {timeout : Nat} {t : List (Device.Event csr)} (h : w.Armed q log)
    (hrest : ∀ w t, w.Carries q log → Safe csr (fun _ res w => Outcome d q log readData res w) C
      (d.poll readData timeout) t w) :
    Safe csr (fun _ res w => Outcome d q log readData res w) C
      (d.poll readData (timeout + 1)) t w := by
  refine ⟨fun _ ht => ht.elim, fun x w' ha => ?_⟩
  have hcarries := h.load ha
  obtain rfl := load_status hd ha
  have hbits := (status_bits w'.regs).2.1
  rw [← hd.done] at hbits
  show Safe csr _ C (if w'.regs.status &&& d.statusDone = 0 then d.poll readData timeout
    else d.readResult w'.regs.status readData) _ w'
  by_cases hdone : w'.regs.status &&& d.statusDone = 0
  · rw [if_pos hdone]
    exact hrest _ _ hcarries
  · rw [if_neg hdone]
    refine readResult_safe hd hcarries ?_
    by_contra hne
    exact hdone (hbits.mpr (by simpa using hne))

theorem poll_safe {C : List (Device.Event csr) → World → Prop} {readData : Option Word}
    (timeout : Nat) (w : World) (t : List (Device.Event csr)) (h : w.Carries q log) :
    Safe csr (fun _ res w => Outcome d q log readData res w) C (d.poll readData timeout) t w := by
  induction timeout generalizing w t with
  | zero => exact ⟨h, fun h0 => absurd h0.symm hd.okTimeout, hd.timeoutBusy⟩
  | succ timeout ih => exact poll_succ hd h.armed ih

theorem waitCompletion_safe {C : List (Device.Event csr) → World → Prop} {readData : Option Word}
    {t : List (Device.Event csr)} (h : w.Armed q log) :
    Safe csr (fun _ res w => Outcome d q log readData res w) C (d.waitCompletion readData) t w := by
  obtain ⟨n, hn⟩ := Nat.exists_eq_succ_of_ne_zero (Nat.pos_iff_ne_zero.mp hd.polls)
  rw [Driver.waitCompletion, hn]
  exact poll_succ hd h (poll_safe hd n)

theorem address_safe {α : Type} {Q : List (Device.Event csr) → α → World → Prop}
    {C : List (Device.Event csr) → World → Prop} {t : List (Device.Event csr)} {bdf reg : Word}
    {rest : CsrProgram α} (h : w.Unoccupied)
    (hrest : ∀ t w', w'.Unoccupied → w'.log = w.log → w'.bdf = bdf → w'.reg = reg →
      w'.wdata = w.wdata → Safe csr Q C rest t w') :
    Safe csr Q C (do store d.cfgBdf bdf; store d.cfgReg reg; rest) t w := by
  have hbdf : d.cfgBdf.setWidth 16 = regCfgBdf := by
    rw [Driver.cfgBdf, hd.base]
    decide
  have hreg : d.cfgReg.setWidth 16 = regCfgReg := by
    rw [Driver.cfgReg, hd.base]
    decide
  refine ⟨fun _ ht => ht.elim, fun _ w1 ha1 => ⟨fun _ ht => ht.elim, fun _ w2 ha2 => ?_⟩⟩
  obtain ⟨h1, hlog1, hb1, hr1, hw1⟩ := h.store ha1 (by rw [hbdf]; decide)
  obtain ⟨h2, hlog2, hb2, hr2, hw2⟩ := h1.store ha2 (by rw [hreg]; decide)
  refine hrest _ w2 h2 (hlog2.trans hlog1) (hb2.trans ?_) (hr2.trans ?_) (hw2.trans ?_)
  · rw [hreg, if_neg (by decide), hb1, hbdf, if_pos rfl]
  · rw [hreg, if_pos rfl]
  · rw [hreg, if_neg (by decide), hw1, hbdf, if_neg (by decide)]

theorem doorbell_safe {α : Type} {Q : List (Device.Event csr) → α → World → Prop}
    {C : List (Device.Event csr) → World → Prop} {t : List (Device.Event csr)} {command : Word}
    {rest : CsrProgram α} (h : w.Unoccupied)
    (hcommand : command = cmdCfgRead ∨ command = cmdCfgWrite)
    (hrest : ∀ t w', w'.Armed ⟨if command = cmdCfgRead then reqCfgRead else reqCfgWrite, w.bdf,
      w.reg.setWidth 10, w.wdata⟩ w.log → Safe csr Q C rest t w') :
    Safe csr Q C (do store d.cfgCommand command; rest) t w := by
  have haddr : d.cfgCommand.setWidth 16 = regCfgCommand := by
    rw [Driver.cfgCommand, hd.base]
    decide
  refine ⟨fun _ ht => ht.elim, fun _ w1 ha => ?_⟩
  obtain ⟨hrung, hlog⟩ := h.ring ha haddr hcommand
  exact hrest _ w1 (hlog ▸ hrung.armed)

theorem dataStore_safe {α : Type} {Q : List (Device.Event csr) → α → World → Prop}
    {C : List (Device.Event csr) → World → Prop} {t : List (Device.Event csr)} {value : Word}
    {rest : CsrProgram α} (h : w.Unoccupied)
    (hrest : ∀ t w', w'.Unoccupied → w'.log = w.log → w'.bdf = w.bdf → w'.reg = w.reg →
      w'.wdata = value → Safe csr Q C rest t w') :
    Safe csr Q C (do store d.cfgWdata value; rest) t w := by
  have haddr : d.cfgWdata.setWidth 16 = regCfgWdata := by
    rw [Driver.cfgWdata, hd.base]
    decide
  refine ⟨fun _ ht => ht.elim, fun _ w1 ha => ?_⟩
  obtain ⟨h1, hlog, hb, hr, hw⟩ := h.store ha (by rw [haddr]; decide)
  refine hrest _ w1 h1 hlog (hb.trans ?_) (hr.trans ?_) (hw.trans ?_)
  · rw [haddr, if_neg (by decide)]
  · rw [haddr, if_neg (by decide)]
  · rw [haddr, if_pos rfl]

variable {t : List (Device.Event csr)} {C : List (Device.Event csr) → World → Prop}
  {bdf reg value : Word}

theorem readRequest_safe (h : w.Unoccupied) (ptr : Option Word) :
    Safe csr (fun _ res w' => Outcome d ⟨reqCfgRead, bdf, reg.setWidth 10, w.wdata⟩ w.log ptr res w')
      C (do
        store d.cfgBdf bdf
        store d.cfgReg reg
        store d.cfgCommand d.cfgRead
        d.waitCompletion ptr) t w := by
  refine address_safe hd h fun t w1 h1 hlog hb hr hw => ?_
  refine doorbell_safe hd h1 (.inl hd.read) fun t w2 h2 => ?_
  rw [if_pos hd.read, hb, hr, hw, hlog] at h2
  exact waitCompletion_safe hd h2

theorem writeRequest_safe (h : w.Unoccupied) :
    Safe csr (fun _ res w' => Outcome d ⟨reqCfgWrite, bdf, reg.setWidth 10, value⟩ w.log none res w')
      C (do
        store d.cfgBdf bdf
        store d.cfgReg reg
        store d.cfgWdata value
        store d.cfgCommand d.cfgWrite
        d.waitCompletion none) t w := by
  refine address_safe hd h fun t w1 h1 hlog1 hb1 hr1 _ => ?_
  refine dataStore_safe hd h1 fun t w2 h2 hlog2 hb2 hr2 hw2 => ?_
  refine doorbell_safe hd h2 (.inr hd.write) fun t w3 h3 => ?_
  rw [if_neg (by rw [hd.write]; decide), hb2, hb1, hr2, hr1, hw2, hlog2, hlog1] at h3
  exact waitCompletion_safe hd h3

/-- The write whose data comes after the doorbell carries the data of an earlier one. -/
theorem writeRequestDataLast_safe (h : w.Unoccupied) :
    Safe csr
      (fun _ res w' => Outcome d ⟨reqCfgWrite, bdf, reg.setWidth 10, w.wdata⟩ w.log none res w')
      C (do
        store d.cfgBdf bdf
        store d.cfgReg reg
        store d.cfgCommand d.cfgWrite
        store d.cfgWdata value
        d.waitCompletion none) t w := by
  have haddr : d.cfgWdata.setWidth 16 = regCfgWdata := by
    rw [Driver.cfgWdata, hd.base]
    decide
  refine address_safe hd h fun t w1 h1 hlog hb hr hw => ?_
  refine doorbell_safe hd h1 (.inr hd.write) fun t w2 h2 => ?_
  rw [if_neg (by rw [hd.write]; decide), hb, hr, hw, hlog] at h2
  exact ⟨fun _ ht => ht.elim, fun _ w3 ha => waitCompletion_safe hd (h2.store ha haddr)⟩

end Call

end CortexLabs.Pcie.HostBridge
