import CortexLabs.Pcie.HostMonitor
import CortexLabs.Pcie.TransactionModel

/-! The bridge over the transaction model.  Together they answer the doorbells as a sequential
configuration space would that served them one after the other: `ConfigSpace` is that space, the
endpoint is shown to serve it packet by packet, and the bridge to keep its doorbells and their
completions in step whatever happens on the bus. -/

namespace CortexLabs.Pcie

open Device
open HostBridge (Request reqCfgRead reqCfgWrite)

structure Result where
  status : BitVec 2
  rdata : Word
  deriving DecidableEq

/-! ### The sequential configuration space -/

namespace ConfigSpace

/-- The answer to a request, when the scratch register holds `scratch`. -/
def result (scratch : Word) (q : Request) : Result :=
  if q.type = reqCfgRead then
    ⟨0, if q.bdf = 0x800 ∧ q.reg = 0 then 0x56781234
      else if q.bdf = 0x800 ∧ q.reg = 0x40 then scratch
      else 0xffffffff⟩
  else if q.type = reqCfgWrite then ⟨0, 0⟩
  else ⟨1, 0xffffffff⟩

/-- The scratch register after a request. -/
def next (scratch : Word) (q : Request) : Word :=
  if q.type = reqCfgWrite ∧ q.bdf = 0x800 ∧ q.reg = 0x40 then q.wdata else scratch

/-- The scratch register after some requests: what the last write of it has left. -/
def after (qs : List Request) : Word := qs.foldl next 0

/-- The answers to some requests, from a scratch register that holds `scratch`. -/
def resultsFrom (scratch : Word) : List Request → List Result
  | [] => []
  | q :: qs => result scratch q :: resultsFrom (next scratch q) qs

def results (qs : List Request) : List Result := resultsFrom 0 qs

theorem after_snoc (qs : List Request) (q : Request) : after (qs ++ [q]) = next (after qs) q := by
  rw [after, List.foldl_append]
  rfl

theorem resultsFrom_append (scratch : Word) (qs us : List Request) :
    resultsFrom scratch (qs ++ us) =
      resultsFrom scratch qs ++ resultsFrom (qs.foldl next scratch) us := by
  induction qs generalizing scratch with
  | nil => rfl
  | cons q qs ih =>
    rw [List.cons_append, resultsFrom, ih]
    rfl

theorem results_snoc (qs : List Request) (q : Request) :
    results (qs ++ [q]) = results qs ++ [result (after qs) q] := resultsFrom_append 0 qs [q]

theorem length_results (qs : List Request) : (results qs).length = qs.length := by
  have h : ∀ scratch, (resultsFrom scratch qs).length = qs.length := by
    induction qs with
    | nil => intro scratch; rfl
    | cons q qs ih =>
      intro scratch
      rw [resultsFrom, List.length_cons, List.length_cons, ih]
  exact h 0

end ConfigSpace

/-! ### The endpoint -/

namespace Backend

def accepts (r : Regs) (i : Port) : List Request :=
  if i.reqValid && r.reqReady then [i.req] else []

/-- The completion that is taken from it in a cycle. -/
def delivers (r : Regs) (i : Port) : List Result :=
  if r.cplValid && i.cplReady then [⟨cplStatus r, cplRdata r⟩] else []

/-- The endpoint has accepted the requests `qs` and delivered `cs`: all their answers, or all but
the last, on which it works or which it offers. -/
inductive Serving : Regs → List Request → List Result → Prop
  | free {r : Regs} {qs : List Request} : r.pending = false → r.cplValid = false →
      r.cfgScratch = ConfigSpace.after qs → Serving r qs (ConfigSpace.results qs)
  | working {r : Regs} {qs : List Request} {q : Request} : r.pending = true →
      r.cplValid = false → r.cfgScratch = ConfigSpace.after qs →
      r.savedOpcode = opcode q.type ∧ r.savedBdf = q.bdf ∧ r.savedReg = q.reg ∧
        r.savedWdata = q.wdata → Serving r (qs ++ [q]) (ConfigSpace.results qs)
  | offering {r : Regs} {qs : List Request} {q : Request} : r.pending = false →
      r.cplValid = true → r.cfgScratch = ConfigSpace.after (qs ++ [q]) →
      ⟨cplStatus r, cplRdata r⟩ = ConfigSpace.result (ConfigSpace.after qs) q →
      Serving r (qs ++ [q]) (ConfigSpace.results qs)

/-! What a cycle does to a backend that is free, that works or that offers an answer. -/

section Steps

variable {r : Regs} (hpending : r.pending = false) (hvalid : r.cplValid = false)

include hpending hvalid

theorem reqReady_free : r.reqReady = true := by
  simp [EndpointModel.Regs.reqReady, hpending, hvalid]

theorem step_free {i : Port} (hreq : i.reqValid = false) : Backend.step r i = r := by
  simp [Backend.step, EndpointModel.Regs.step, hreq, hpending, hvalid]

/-- It saves the packet and waits for two cycles. -/
theorem step_accepts {i : Port} (hreq : i.reqValid = true) :
    Backend.step r i = { r with
      savedOpcode := opcode i.req.type, savedReg := i.req.reg, savedBdf := i.req.bdf
      savedWdata := i.req.wdata, pending := true, delayCount := 2 } := by
  rw [Backend.step, EndpointModel.Regs.step, reqReady_free hpending hvalid, hreq, hvalid,
    tlpTx_opcode, tlpTx_reg]
  rfl

end Steps

section Steps

variable {r : Regs} {i : Port}

theorem reqReady_busy (hbusy : r.pending = true ∨ r.cplValid = true) : r.reqReady = false := by
  rcases hbusy with h | h <;> simp [EndpointModel.Regs.reqReady, h]

theorem step_delays (hpending : r.pending = true) (hvalid : r.cplValid = false)
    (hdelay : r.delayCount ≠ 0) :
    Backend.step r i = { r with delayCount := r.delayCount - 1 } := by
  rw [Backend.step, EndpointModel.Regs.step, reqReady_busy (.inl hpending), hpending, hvalid,
    if_pos hdelay]
  simp

theorem step_completes (hpending : r.pending = true) (hvalid : r.cplValid = false)
    (hdelay : r.delayCount = 0) : Backend.step r i = r.complete := by
  rw [Backend.step, EndpointModel.Regs.step, reqReady_busy (.inl hpending), hpending, hvalid,
    if_neg (not_not.mpr hdelay)]
  simp

theorem step_offers (hpending : r.pending = false) (hvalid : r.cplValid = true) :
    Backend.step r i = if i.cplReady then { r with cplValid := false } else r := by
  have hidle : ¬r.pending = true := Bool.eq_false_iff.mp hpending
  rw [Backend.step, EndpointModel.Regs.step, reqReady_busy (.inr hvalid), if_neg hidle, hvalid]
  simp

end Steps

section Serving

variable {r : Regs} {i : Port} {qs : List Request} {cs : List Result}

/-- The answer that the endpoint gives to the saved packet is that of the configuration space. -/
theorem complete_serves {q : Request}
    (hscratch : r.cfgScratch = ConfigSpace.after qs)
    (hsaved : r.savedOpcode = opcode q.type ∧ r.savedBdf = q.bdf ∧ r.savedReg = q.reg ∧
      r.savedWdata = q.wdata) :
    Serving r.complete (qs ++ [q]) (ConfigSpace.results qs) := by
  obtain ⟨hop, hbdf, hreg, hwdata⟩ := hsaved
  unfold EndpointModel.Regs.complete
  dsimp only
  rw [hop, hbdf, hreg, hwdata]
  simp only [opcode_read, opcode_write]
  split
  · next hread =>
    have hkeep : ConfigSpace.next (ConfigSpace.after qs) q = ConfigSpace.after qs := by
      rw [ConfigSpace.next, if_neg]
      rintro ⟨hwrite, -⟩
      exact absurd (hread.symm.trans hwrite) (by decide)
    have hdata : r.readData = if q.bdf = 0x800 ∧ q.reg = 0 then 0x56781234
        else if q.bdf = 0x800 ∧ q.reg = 0x40 then ConfigSpace.after qs else 0xffffffff := by
      unfold EndpointModel.Regs.readData
      rw [hbdf, hreg, hscratch]
      by_cases hb : q.bdf = 0x800
      · simp only [hb, ne_eq, not_true_eq_false, if_false, true_and]
      · simp only [hb, ne_eq, not_false_eq_true, if_true, false_and, if_false]
    refine .offering rfl rfl ?_ ?_
    · rw [ConfigSpace.after_snoc, hkeep]
      exact hscratch
    · rw [cplStatus, cplRdata, tlpRx_cpl, ConfigSpace.result, if_pos hread, hdata]
  next hread =>
  split
  · next hwrite =>
    refine .offering rfl rfl ?_ ?_
    · rw [ConfigSpace.after_snoc, ConfigSpace.next, ← hscratch]
      simp only [hwrite, true_and]
    · rw [cplStatus, cplRdata, tlpRx_cpl, ConfigSpace.result, if_neg hread, if_pos hwrite]
  · next hwrite =>
    refine .offering rfl rfl ?_ ?_
    · rw [ConfigSpace.after_snoc, ConfigSpace.next, if_neg fun h => hwrite h.1]
      exact hscratch
    · rw [cplStatus, cplRdata, tlpRx_cpl, ConfigSpace.result, if_neg hread, if_neg hwrite]

theorem accepts_busy (hbusy : r.pending = true ∨ r.cplValid = true) : accepts r i = [] := by
  rw [accepts, reqReady_busy hbusy, Bool.and_false]
  rfl

theorem delivers_nothing (hvalid : r.cplValid = false) : delivers r i = [] := by
  rw [delivers, hvalid]
  rfl

theorem Serving.step (h : Serving r qs cs) (i : Port) :
    Serving (Backend.step r i) (qs ++ accepts r i) (cs ++ delivers r i) := by
  cases h with
  | free hpending hvalid hscratch =>
    rw [delivers_nothing hvalid, accepts, reqReady_free hpending hvalid, Bool.and_true,
      List.append_nil]
    cases hreq : i.reqValid with
    | true =>
      rw [step_accepts hpending hvalid hreq]
      exact .working rfl hvalid hscratch ⟨rfl, rfl, rfl, rfl⟩
    | false =>
      rw [step_free hpending hvalid hreq, if_neg Bool.false_ne_true, List.append_nil]
      exact .free hpending hvalid hscratch
  | working hpending hvalid hscratch hsaved =>
    rw [delivers_nothing hvalid, accepts_busy (.inl hpending), List.append_nil, List.append_nil]
    by_cases hdelay : r.delayCount = 0
    · rw [step_completes hpending hvalid hdelay]
      exact complete_serves hscratch hsaved
    · rw [step_delays hpending hvalid hdelay]
      exact .working hpending hvalid hscratch hsaved
  | @offering qs q hpending hvalid hscratch hresult =>
    rw [step_offers hpending hvalid, accepts_busy (.inr hvalid), List.append_nil, delivers, hvalid,
      Bool.true_and]
    cases hready : i.cplReady with
    | true =>
      rw [if_pos rfl, if_pos rfl, hresult, ← ConfigSpace.results_snoc]
      exact .free hpending rfl hscratch
    | false =>
      rw [if_neg Bool.false_ne_true, if_neg Bool.false_ne_true, List.append_nil]
      exact .offering hpending hvalid hscratch hresult

theorem Serving.free_iff (h : Serving r qs cs) (hpending : r.pending = false)
    (hvalid : r.cplValid = false) : cs = ConfigSpace.results qs := by
  cases h with
  | free _ _ _ => rfl
  | working h _ _ _ => exact absurd (hpending.symm.trans h) nofun
  | offering _ h _ _ => exact absurd (hvalid.symm.trans h) nofun

/-- A backend that is not free owes the answer to the last request. -/
theorem Serving.owes (h : Serving r qs cs) (hbusy : r.pending = true ∨ r.cplValid = true) :
    ∃ before q, qs = before ++ [q] ∧ cs = ConfigSpace.results before ∧
      (r.cplValid = true →
        ⟨cplStatus r, cplRdata r⟩ = ConfigSpace.result (ConfigSpace.after before) q) := by
  cases h with
  | free hp hv _ => simp [hp, hv] at hbusy
  | working _ hv _ _ =>
    exact ⟨_, _, rfl, rfl, fun hvalid => absurd (hv.symm.trans hvalid) nofun⟩
  | offering _ _ _ hresult => exact ⟨_, _, rfl, rfl, fun _ => hresult⟩

end Serving

end Backend

/-! ### The bridge over the backend -/

structure Ahb where
  hsel : Bool
  haddr : Word
  htrans : BitVec 2
  hwrite : Bool
  hsize : BitVec 3
  hwdata : Word
  hready : Bool

/-- `m3ds_pcie_host_wrapper`, with the transaction model as its backend. -/
structure Wrapper where
  host : HostBridge.Regs
  backend : Backend.Regs

namespace Wrapper

def reset : Wrapper := ⟨.reset, .reset⟩

def hostInputs (w : Wrapper) (b : Ahb) : HostBridge.Inputs :=
  ⟨b.hsel, b.haddr, b.htrans, b.hwrite, b.hsize, b.hwdata, b.hready, w.backend.reqReady,
    w.backend.cplValid, Backend.cplStatus w.backend, Backend.cplRdata w.backend⟩

def port (w : Wrapper) : Port := ⟨w.host.reqValid, w.host.request, w.host.cplReady⟩

def step (w : Wrapper) (b : Ahb) : Wrapper :=
  ⟨w.host.step (w.hostInputs b), Backend.step w.backend w.port⟩

/-- The completion that the bridge takes in a cycle. -/
def completion (w : Wrapper) (_ : Ahb) : List Result := Backend.delivers w.backend w.port

/-- The bridge waits for a completion exactly when the backend owes one, and then for at most
`left` more cycles. -/
inductive Left : Wrapper → Nat → Prop
  | idle {w : Wrapper} : w.host.state = .idle → w.backend.pending = false →
      w.backend.cplValid = false → Left w 0
  | issue {w : Wrapper} : w.host.state = .issue → w.backend.pending = false →
      w.backend.cplValid = false → Left w 5
  | working {w : Wrapper} : w.host.state = .waitCpl → w.backend.pending = true →
      w.backend.cplValid = false → Left w (w.backend.delayCount.toNat + 2)
  | offered {w : Wrapper} : w.host.state = .waitCpl → w.backend.pending = false →
      w.backend.cplValid = true → Left w 1

end Wrapper

section Runs

variable (i : Nat → Ahb)

def wrapper : Nat → Wrapper := Clocked.states Wrapper.step .reset i

def completions : Nat → List Result := Clocked.seen Wrapper.step Wrapper.completion .reset i

def bridgeInputs (n : Nat) : HostBridge.Inputs := (wrapper i n).hostInputs (i n)

/-- The doorbells that have been accepted before a cycle, as a monitor of the register bus counts
them. -/
def doorbells : Nat → List Request := HostBridge.rung (bridgeInputs i)

variable {i}

theorem doorbells_eq (n : Nat) : doorbells i n = HostBridge.doorbells (bridgeInputs i) n :=
  HostBridge.rung_eq n

theorem host_run (n : Nat) : (wrapper i n).host = HostBridge.regs (bridgeInputs i) n := by
  induction n with
  | zero => rfl
  | succ n ih =>
    rw [HostBridge.regs_succ, ← ih]
    rfl

/-- What the backend has accepted is what the bridge has handed over. -/
theorem serving_run (n : Nat) : Backend.Serving (wrapper i n).backend
    (HostBridge.handshakes (bridgeInputs i) n) (completions i n) := by
  induction n with
  | zero => exact .free rfl rfl rfl
  | succ n ih =>
    have hstep := ih.step (wrapper i n).port
    rw [HostBridge.handshakes_succ, ← host_run]
    exact hstep

theorem complete_offers (r : Backend.Regs) :
    r.complete.pending = false ∧ r.complete.cplValid = true := by
  unfold EndpointModel.Regs.complete
  dsimp only
  split_ifs <;> exact ⟨rfl, rfl⟩

/-- A bridge that is not idle goes on as its backend port says. -/
theorem host_state {w : Wrapper} (h : w.host.state ≠ .idle) (b : Ahb) :
    (w.step b).host.state = (w.host.core.next (w.hostInputs b)).state := HostBridge.state_step h

/-- One cycle of the wrapper takes one off what is left; an idle bridge may launch a request. -/
theorem left_step {w : Wrapper} {k : Nat} (h : w.Left k) (b : Ahb) :
    (w.step b).Left (k - 1) ∨ k = 0 ∧ (w.step b).Left 5 := by
  cases h with
  | idle hstate hpending hvalid =>
    have hnone : w.host.reqValid = false := by simp [HostBridge.Regs.reqValid, hstate]
    have hbackend : (w.step b).backend = w.backend :=
      Backend.step_free hpending hvalid (i := w.port) hnone
    rcases HostBridge.state_step_idle hstate (i := w.hostInputs b) with h | h
    · exact .inl (.idle h (by rw [hbackend, hpending]) (by rw [hbackend, hvalid]))
    · exact .inr ⟨rfl, .issue h (by rw [hbackend, hpending]) (by rw [hbackend, hvalid])⟩
  | issue hstate hpending hvalid =>
    have hnext : (w.step b).host.state = .waitCpl := by
      rw [host_state (by simp [hstate])]
      simp [HostBridge.Core.next, HostBridge.Regs.core, hstate, Wrapper.hostInputs,
        Backend.reqReady_free hpending hvalid]
    have hrequest : w.host.reqValid = true := by simp [HostBridge.Regs.reqValid, hstate]
    have hbackend := Backend.step_accepts hpending hvalid (i := w.port) hrequest
    have hleft := Wrapper.Left.working hnext (congrArg (·.pending) hbackend)
      ((congrArg (·.cplValid) hbackend).trans hvalid)
    have hcount : (w.step b).backend.delayCount = 2 := congrArg (·.delayCount) hbackend
    rw [hcount] at hleft
    exact .inl hleft
  | working hstate hpending hvalid =>
    have hnext : (w.step b).host.state = .waitCpl := by
      rw [host_state (by simp [hstate])]
      simp [HostBridge.Core.next, HostBridge.Regs.core, hstate, Wrapper.hostInputs, hvalid]
    refine .inl ?_
    by_cases hdelay : w.backend.delayCount = 0
    · have hbackend : (w.step b).backend = w.backend.complete :=
        Backend.step_completes hpending hvalid hdelay
      have hdone := complete_offers w.backend
      rw [hdelay]
      exact .offered hnext (by rw [hbackend]; exact hdone.1) (by rw [hbackend]; exact hdone.2)
    · have hbackend : (w.step b).backend =
          { w.backend with delayCount := w.backend.delayCount - 1 } :=
        Backend.step_delays hpending hvalid hdelay
      have hleft := Wrapper.Left.working hnext (by rw [hbackend]; exact hpending)
        (by rw [hbackend]; exact hvalid)
      have hcount : (w.step b).backend.delayCount.toNat + 2 =
          w.backend.delayCount.toNat + 2 - 1 := by
        rw [hbackend]
        dsimp only
        bv_omega
      rwa [hcount] at hleft
  | offered hstate hpending hvalid =>
    have hready : w.host.cplReady = true := by simp [HostBridge.Regs.cplReady, hstate]
    have hnext : (w.step b).host.state = .idle := by
      rw [host_state (by simp [hstate])]
      simp [HostBridge.Core.next, HostBridge.Regs.core, hstate, Wrapper.hostInputs, hvalid]
    have hbackend : (w.step b).backend = { w.backend with cplValid := false } :=
      (Backend.step_offers hpending hvalid (i := w.port)).trans (if_pos hready)
    exact .inl (.idle hnext (by rw [hbackend]; exact hpending) (by rw [hbackend]))

theorem left_run (n : Nat) : ∃ k ≤ 5, (wrapper i n).Left k := by
  induction n with
  | zero => exact ⟨0, Nat.zero_le 5, .idle rfl rfl rfl⟩
  | succ n ih =>
    obtain ⟨k, hk, hleft⟩ := ih
    rcases left_step hleft (i n) with h | ⟨-, h⟩
    · exact ⟨k - 1, Nat.le_trans (Nat.sub_le k 1) hk, h⟩
    · exact ⟨5, Nat.le_refl 5, h⟩

/-- All doorbells but the one that is on its way have been answered, in order. -/
theorem answered_run (n : Nat) :
    ((wrapper i n).host.state = .idle ∧ completions i n = ConfigSpace.results (doorbells i n)) ∨
    (wrapper i n).host.state ≠ .idle ∧ ∃ before q, doorbells i n = before ++ [q] ∧
      completions i n = ConfigSpace.results before := by
  obtain ⟨k, -, hleft⟩ := left_run (i := i) n
  have hserving := serving_run (i := i) n
  have hqueue := HostBridge.queue_run (i := bridgeInputs i) n
  have hwaiting : ∀ s, (wrapper i n).host.state = s →
      (HostBridge.regs (bridgeInputs i) n).core.waiting =
        if s = .issue then [(wrapper i n).host.request] else [] := by
    rintro _ rfl
    rw [← host_run]
    rfl
  rw [← doorbells_eq] at hqueue
  cases hleft with
  | idle hstate hpending hvalid =>
    rw [hwaiting _ hstate, if_neg nofun, List.append_nil] at hqueue
    exact .inl ⟨hstate, hqueue ▸ hserving.free_iff hpending hvalid⟩
  | issue hstate hpending hvalid =>
    rw [hwaiting _ hstate, if_pos rfl] at hqueue
    exact .inr ⟨by simp [hstate], _, _, hqueue, hserving.free_iff hpending hvalid⟩
  | working hstate hpending _ =>
    rw [hwaiting _ hstate, if_neg nofun, List.append_nil] at hqueue
    obtain ⟨before, q, hq, hcs, -⟩ := hserving.owes (.inl hpending)
    exact .inr ⟨by simp [hstate], before, q, hqueue.trans hq, hcs⟩
  | offered hstate _ hvalid =>
    rw [hwaiting _ hstate, if_neg nofun, List.append_nil] at hqueue
    obtain ⟨before, q, hq, hcs, -⟩ := hserving.owes (.inr hvalid)
    exact .inr ⟨by simp [hstate], before, q, hqueue.trans hq, hcs⟩

theorem completions_prefix (n : Nat) :
    completions i n <+: ConfigSpace.results (doorbells i n) ∧
      (doorbells i n).length ≤ (completions i n).length + 1 := by
  rcases answered_run (i := i) n with ⟨-, h⟩ | ⟨-, before, q, hq, h⟩
  · rw [h, ConfigSpace.length_results]
    exact ⟨List.prefix_refl _, Nat.le_succ _⟩
  · rw [h, hq, ConfigSpace.results_snoc, ConfigSpace.length_results, List.length_append]
    exact ⟨List.prefix_append _ _, Nat.le_refl _⟩

/-- The doorbells accepted so far are answered within what is left. -/
theorem completions_within (k : Nat) {n : Nat} (h : (wrapper i n).Left k) :
    (doorbells i n).length ≤ (completions i (n + k)).length := by
  induction k generalizing n with
  | zero =>
    have hidle : (wrapper i n).host.state = .idle := by
      cases h with
      | idle hstate _ _ => exact hstate
    rcases answered_run (i := i) n with ⟨-, h⟩ | ⟨hbusy, -⟩
    · apply Nat.le_of_eq
      rw [Nat.add_zero, h, ConfigSpace.length_results]
    · exact absurd hidle hbusy
  | succ k ih =>
    have hstep : (wrapper i (n + 1)).Left k := by
      rcases left_step h (i n) with h | ⟨h, -⟩
      · exact h
      · cases h
    have hmore : (doorbells i n).length ≤ (doorbells i (n + 1)).length := by
      rw [doorbells_eq, doorbells_eq, HostBridge.doorbells_succ, List.length_append]
      exact Nat.le_add_right _ _
    rw [Nat.add_succ, ← Nat.succ_add]
    exact Nat.le_trans hmore (ih hstep)

theorem completions_mono {n m : Nat} (h : n ≤ m) :
    (completions i n).length ≤ (completions i m).length := by
  obtain ⟨d, rfl⟩ := Nat.exists_eq_add_of_le h
  clear h
  induction d with
  | zero => exact Nat.le_refl _
  | succ d ih =>
    rw [← Nat.add_assoc]
    rw [completions, Clocked.seen_succ, List.length_append]
    exact Nat.le_trans ih (Nat.le_add_right _ _)

/-- The cycle in which a read is completed puts its result into the data register. -/
theorem cfgRdata_completed {n : Nat} (hstate : (wrapper i n).host.state ≠ .idle)
    (hidle : ((wrapper i n).host.step (bridgeInputs i n)).state = .idle) {before : List Request}
    {q : Request} (hq : doorbells i n = before ++ [q]) (hread : q.type = reqCfgRead) :
    ((wrapper i n).host.step (bridgeInputs i n)).cfgRdata =
      (ConfigSpace.result (ConfigSpace.after before) q).rdata := by
  have hsound := HostBridge.sound_run (i := bridgeInputs i) n
  rw [← host_run] at hsound
  have hcompletes := HostBridge.completes_of_idle hsound hstate hidle
  obtain ⟨hwait, hvalid⟩ :
      (wrapper i n).host.state = .waitCpl ∧ (wrapper i n).backend.cplValid = true := by
    simp only [HostBridge.completes, HostBridge.Regs.cplReady, Bool.and_eq_true,
      decide_eq_true_eq] at hcompletes
    exact hcompletes
  have hqueue := HostBridge.queue_run (i := bridgeInputs i) n
  have hempty : (HostBridge.regs (bridgeInputs i) n).core.waiting = [] := by
    rw [← host_run]
    exact if_neg (by change ¬(wrapper i n).host.state = .issue; simp [hwait])
  rw [hempty, List.append_nil, ← doorbells_eq] at hqueue
  obtain ⟨earlier, hearlier⟩ := HostBridge.waitCpl_run (i := bridgeInputs i) (n := n)
    (by rw [← host_run]; exact hwait)
  -- The backend answers the last request that the bridge has handed over.
  obtain ⟨before', q', hq', -, hresult⟩ := (serving_run (i := i) n).owes (.inr hvalid)
  have hlast : before' = before ∧ q' = q := by
    have heq : before' ++ [q'] = before ++ [q] := hq'.symm.trans (hqueue.symm.trans hq)
    exact ⟨(List.append_inj' heq rfl).1, List.singleton_inj.mp (List.append_inj' heq rfl).2⟩
  obtain ⟨rfl, rfl⟩ := hlast
  have hrequest : (wrapper i n).host.reqTypeR = reqCfgRead := by
    have heq : earlier ++ [(HostBridge.regs (bridgeInputs i) n).request] = before' ++ [q'] :=
      hearlier.symm.trans hq'
    have htype := congrArg Request.type (List.singleton_inj.mp (List.append_inj' heq rfl).2)
    rw [← host_run] at htype
    exact htype.trans hread
  have hanswer := hresult hvalid
  have hstatus : (bridgeInputs i n).cplStatus = 0 := by
    have := congrArg Result.status hanswer
    rw [ConfigSpace.result, if_pos hread] at this
    exact this
  rw [HostBridge.cfgRdata_step, if_pos ⟨hcompletes, hstatus, hrequest⟩, ← hanswer]
  rfl

/-- Once a read is completed, the data register shows its result. -/
theorem cfgRdata_run {n : Nat} (hidle : (wrapper i n).host.state = .idle) {before : List Request}
    {q : Request} (hq : doorbells i n = before ++ [q]) (hread : q.type = reqCfgRead) :
    (wrapper i n).host.cfgRdata = (ConfigSpace.result (ConfigSpace.after before) q).rdata := by
  induction n generalizing before q with
  | zero => exact absurd hq.symm (List.append_ne_nil_of_right_ne_nil _ (List.cons_ne_nil _ _))
  | succ n ih =>
    have hstep : (wrapper i (n + 1)).host = (wrapper i n).host.step (bridgeInputs i n) := rfl
    have hsucc : doorbells i (n + 1) =
        doorbells i n ++ HostBridge.doorbell (wrapper i n).host (bridgeInputs i n) := by
      rw [doorbells_eq, doorbells_eq, HostBridge.doorbells_succ, host_run]
    rw [hstep] at hidle ⊢
    by_cases hstate : (wrapper i n).host.state = .idle
    · -- The bridge stays idle, and nothing has been completed.
      have hsound := HostBridge.sound_run (i := bridgeInputs i) n
      rw [← host_run] at hsound
      rw [hsucc, HostBridge.doorbell_of_idle hsound hstate hidle, List.append_nil] at hq
      have hnone : HostBridge.completes (wrapper i n).host (bridgeInputs i n) = false := by
        simp [HostBridge.completes, HostBridge.Regs.cplReady, hstate]
      rw [HostBridge.cfgRdata_step, if_neg (by simp [hnone])]
      exact ih hstate hq hread
    · -- The completion of the last doorbell is taken.
      have hnone : HostBridge.doorbell (wrapper i n).host (bridgeInputs i n) = [] := by
        simp [HostBridge.doorbell, hstate]
      rw [hsucc, hnone, List.append_nil] at hq
      exact cfgRdata_completed hstate hidle hq hread

/-- The completions are the results of the doorbells served one after the other, in order; each
doorbell that the bus has rung gets one, within five cycles; and after a read the data register
shows its result, whatever else happens on the bus. -/
theorem config_space (i : Nat → Ahb) (n : Nat) :
    completions i n <+: ConfigSpace.results (doorbells i n) ∧
    (doorbells i n).length ≤ (completions i n).length + 1 ∧
    (doorbells i n).length ≤ (completions i (n + 5)).length ∧
    ∀ before q, doorbells i n = before ++ [q] → q.type = reqCfgRead →
      (wrapper i n).host.done = true →
      (wrapper i n).host.cfgRdata = (ConfigSpace.result (ConfigSpace.after before) q).rdata := by
  obtain ⟨hpre, hlength⟩ := completions_prefix (i := i) n
  obtain ⟨k, hk, hleft⟩ := left_run (i := i) n
  refine ⟨hpre, hlength, ?_, fun before q hq hread hdone => cfgRdata_run ?_ hq hread⟩
  · exact Nat.le_trans (completions_within k hleft) (completions_mono (Nat.add_le_add_left hk n))
  · have hsound := HostBridge.sound_run (i := bridgeInputs i) n
    rw [← host_run] at hsound
    exact hsound.idle_of_done hdone

end Runs

end CortexLabs.Pcie
