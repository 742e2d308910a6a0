import CortexLabs.Pcie.VendorAdapter
import Mathlib.Data.List.Induction

/-! The adapter is a sequential device.  The device has no clock and no channels: it serves one
request at a time, and a request either has a completion or is posted.  Whatever the two request
ports and the two completion channels do, the adapter's completions are those of the device serving
the accepted requests in the order of their acceptance. -/

namespace CortexLabs.Pcie.VendorAdapter

open Device

/-- What the two ports can ask for. -/
inductive Request where
  | config (type : BitVec 2) (bdf : Word) (reg : BitVec 10) (wdata : Word)
  | memRead (addr : Word)
  | memWrite (addr wdata : Word)
  deriving DecidableEq

/-- A completion and the channel that it belongs to. -/
structure Completion where
  channel : Kind
  status : BitVec 2
  rdata : Word
  deriving DecidableEq

/-- The sequential device. -/
structure Endpoint where
  command : BitVec 16
  bar0Base : Word
  bar0Probe : Bool
  scratch : Word
  deriving DecidableEq

namespace Endpoint

def reset : Endpoint := ⟨0, 0, false, 0⟩

/-- Memory space is enabled and the address is that of the scratch word in BAR0. -/
def Hits (d : Endpoint) (addr : Word) : Prop :=
  d.command.getLsbD 1 = true ∧ addr = d.bar0Base + scratchOffset

instance (d : Endpoint) (addr : Word) : Decidable (d.Hits addr) :=
  inferInstanceAs (Decidable (_ ∧ _))

/-- What a configuration register reads as. -/
def configData (d : Endpoint) (reg : BitVec 10) : Word :=
  if reg = cfgVendorDevice then deviceId
  else if reg = cfgCommandStatus then d.command.setWidth 32
  else if reg = cfgBar0 then (if d.bar0Probe then bar0Mask else d.bar0Base)
  else 0

/-- The command register takes the low half of a word, and BAR0 a base or a size probe. -/
def configure (d : Endpoint) (reg : BitVec 10) (wdata : Word) : Endpoint :=
  if reg = cfgCommandStatus then { d with command := wdata.setWidth 16 }
  else if reg = cfgBar0 then
    if wdata = 0xffffffff then { d with bar0Probe := true }
    else { d with bar0Base := wdata &&& bar0Mask, bar0Probe := false }
  else d

/-- One request: the device after it, and its completion if it has one. -/
def serve (d : Endpoint) : Request → Endpoint × Option Completion
  | .config type bdf reg wdata =>
    if bdf ≠ endpointBdf then (d, some ⟨.cfg, 0, 0xffffffff⟩)
    else if type = cfgRead then (d, some ⟨.cfg, 0, d.configData reg⟩)
    else if type = cfgWrite then (d.configure reg wdata, some ⟨.cfg, 0, 0⟩)
    else (d, some ⟨.cfg, 1, 0⟩)
  | .memRead addr =>
    (d, some (if d.Hits addr then ⟨.mem, 0, d.scratch⟩ else ⟨.mem, 1, 0xffffffff⟩))
  | .memWrite addr wdata => (if d.Hits addr then { d with scratch := wdata } else d, none)

def after (d : Endpoint) (requests : List Request) : Endpoint :=
  requests.foldl (fun d q => (d.serve q).1) d

def completions (d : Endpoint) : List Request → List Completion
  | [] => []
  | q :: rest => (d.serve q).2.toList ++ (d.serve q).1.completions rest

variable (d : Endpoint)

@[simp] theorem after_snoc (requests : List Request) (q : Request) :
    d.after (requests ++ [q]) = ((d.after requests).serve q).1 := by
  simp [after]

@[simp] theorem completions_snoc (requests : List Request) (q : Request) :
    d.completions (requests ++ [q]) =
      d.completions requests ++ ((d.after requests).serve q).2.toList := by
  induction requests generalizing d with
  | nil => simp [completions, after]
  | cons a rest ih => simp [completions, after, ih]

/-- A configuration read completes with status 0, and with all ones for an absent endpoint. -/
theorem serve_read (bdf : Word) (reg : BitVec 10) (wdata : Word) :
    d.serve (.config cfgRead bdf reg wdata) =
      (d, some ⟨.cfg, 0, if bdf = endpointBdf then d.configData reg else 0xffffffff⟩) := by
  simp only [serve]
  by_cases h : bdf = endpointBdf
  · rw [if_neg (not_not.mpr h), if_pos trivial, if_pos h]
  · rw [if_pos h, if_neg h]

/-- `wdata` is the data of the last write among `requests` that was effective when it was made. -/
def LastWrite (d : Endpoint) (requests : List Request) (wdata : Word) : Prop :=
  ∃ before addr rest, requests = before ++ .memWrite addr wdata :: rest ∧
    (d.after before).Hits addr ∧ ∀ mid addr' wdata' tail,
      rest = mid ++ .memWrite addr' wdata' :: tail →
      ¬(d.after (before ++ .memWrite addr wdata :: mid)).Hits addr'

/-- Only an effective write changes the scratch word. -/
theorem serve_scratch {q : Request}
    (h : ∀ addr wdata, q = .memWrite addr wdata → ¬d.Hits addr) :
    (d.serve q).1.scratch = d.scratch := by
  cases q with
  | config type bdf reg wdata =>
    simp only [serve, configure]
    split_ifs <;> rfl
  | memRead addr => rfl
  | memWrite addr wdata =>
    have hmiss := h addr wdata rfl
    simp only [serve, if_neg hmiss]

theorem scratch_after {requests : List Request} {wdata : Word}
    (h : d.LastWrite requests wdata) : (d.after requests).scratch = wdata := by
  obtain ⟨before, addr, rest, rfl, hhit, hrest⟩ := h
  induction rest using List.reverseRecOn with
  | nil =>
    rw [after_snoc]
    simp only [serve, if_pos hhit]
  | append_singleton rest q ih =>
    have hprev := ih fun mid addr' wdata' tail heq =>
      hrest mid addr' wdata' (tail ++ [q]) (by simp [heq])
    rw [← List.cons_append, ← List.append_assoc, after_snoc, serve_scratch]
    · exact hprev
    · rintro addr' wdata' rfl
      exact hrest rest addr' wdata' [] rfl

end Endpoint

/-! ### What the ports show -/

def accepts (r : Regs) (i : Inputs) : List Request :=
  (if i.cfgReqValid && r.cfgReqReady then
    [.config i.cfgReqType i.cfgReqBdf i.cfgReqReg i.cfgReqWdata] else []) ++
  (if i.memReqValid && r.memReqReady i then
    [if i.memReqWrite then .memWrite i.memReqAddr i.memReqWdata else .memRead i.memReqAddr] else [])

def offers (r : Regs) : List Completion :=
  (if r.cfgCplValid then [⟨.cfg, r.cplStatusR, r.cplRdataR⟩] else []) ++
  (if r.memCplValid then [⟨.mem, r.cplStatusR, r.cplRdataR⟩] else [])

/-- The completions that its channels take in a cycle. -/
def delivers (r : Regs) (i : Inputs) : List Completion :=
  (if r.cfgCplValid && i.cfgCplReady then [⟨.cfg, r.cplStatusR, r.cplRdataR⟩] else []) ++
  (if r.memCplValid && i.memCplReady then [⟨.mem, r.cplStatusR, r.cplRdataR⟩] else [])

def regs (i : Nat → Inputs) : Nat → Regs := Clocked.states Regs.step .reset i

def accepted (i : Nat → Inputs) : Nat → List Request := Clocked.seen Regs.step accepts .reset i

def delivered (i : Nat → Inputs) : Nat → List Completion :=
  Clocked.seen Regs.step delivers .reset i

/-! ### The adapter in progress -/

namespace Regs

/-- The device that the registers stand for. -/
def endpoint (r : Regs) : Endpoint := ⟨r.commandReg, r.bar0Base, r.bar0Probe, r.scratchReg⟩

def saved (r : Regs) : Request :=
  match r.kind with
  | .cfg => .config r.savedCfgType r.savedCfgBdf r.savedCfgReg r.savedCfgWdata
  | .mem => .memRead r.savedMemAddr

def completion (r : Regs) : Completion := ⟨r.kind, r.cplStatusR, r.cplRdataR⟩

/-- The saved request is served when its delay ends. -/
def complete (r : Regs) : Regs :=
  match r.kind with
  | .cfg => { r.completeCfg with state := .cpl }
  | .mem => { r.completeMem with state := .cpl }

theorem scratchHit_iff (r : Regs) (addr : Word) :
    r.scratchHit addr = true ↔ r.endpoint.Hits addr := by
  simp [scratchHit, Endpoint.Hits, endpoint]

theorem cfgReadData_eq (r : Regs) : r.cfgReadData = r.endpoint.configData r.savedCfgReg := rfl

theorem cfgWriteEffect_endpoint (r : Regs) :
    r.cfgWriteEffect.endpoint = r.endpoint.configure r.savedCfgReg r.savedCfgWdata := by
  unfold cfgWriteEffect Endpoint.configure
  split_ifs <;> rfl

theorem cfgWriteEffect_kind (r : Regs) : r.cfgWriteEffect.kind = r.kind := by
  unfold cfgWriteEffect
  split_ifs <;> rfl

theorem completeCfg_serve {r : Regs} (h : r.kind = .cfg) :
    r.endpoint.serve r.saved = (r.completeCfg.endpoint, some r.completeCfg.completion) := by
  simp only [saved, h, Endpoint.serve, completeCfg]
  split_ifs
  · simp only [completion]
    rfl
  · simp only [completion, cfgReadData_eq]
    rfl
  · rw [← cfgWriteEffect_endpoint]
    simp only [completion, cfgWriteEffect_kind, h]
    rfl
  · simp only [completion]
    rfl

theorem completeMem_serve {r : Regs} (h : r.kind = .mem) :
    r.endpoint.serve r.saved = (r.completeMem.endpoint, some r.completeMem.completion) := by
  simp only [saved, h, Endpoint.serve, completeMem, ← scratchHit_iff]
  split_ifs
  · simp only [completion]
    rfl
  · simp only [completion]
    rfl

theorem complete_state (r : Regs) : r.complete.state = .cpl := by
  unfold complete
  cases r.kind <;> rfl

theorem complete_serve (r : Regs) :
    r.endpoint.serve r.saved = (r.complete.endpoint, some r.complete.completion) := by
  unfold complete
  cases h : r.kind with
  | cfg => exact completeCfg_serve h
  | mem => exact completeMem_serve h

/-- How the registers stand to the requests accepted and the completions delivered so far: the
request that is being delayed is not served yet, and an offered completion is not delivered yet. -/
def Matches (r : Regs) (requests : List Request) (done : List Completion) : Prop :=
  match r.state with
  | .idle => r.endpoint = Endpoint.reset.after requests ∧
      Endpoint.reset.completions requests = done
  | .delay => ∃ before, requests = before ++ [r.saved] ∧
      r.endpoint = Endpoint.reset.after before ∧ Endpoint.reset.completions before = done
  | .cpl => r.endpoint = Endpoint.reset.after requests ∧
      Endpoint.reset.completions requests = done ++ [r.completion]
  | .unused => False

end Regs

section Step

variable {r : Regs} {i : Inputs} {requests : List Request} {done : List Completion}

theorem accepts_busy (h : r.state ≠ .idle) : accepts r i = [] := by
  simp [accepts, Regs.cfgReqReady, Regs.memReqReady, h]

theorem offers_eq (r : Regs) : offers r = if r.state = .cpl then [r.completion] else [] := by
  unfold offers Regs.cfgCplValid Regs.memCplValid Regs.completion
  cases r.state <;> cases r.kind <;> simp

theorem delivers_eq (r : Regs) (i : Inputs) : delivers r i =
    if r.state = .cpl ∧ (match r.kind with | .cfg => i.cfgCplReady | .mem => i.memCplReady) = true
    then [r.completion] else [] := by
  unfold delivers Regs.cfgCplValid Regs.memCplValid Regs.completion
  cases r.state <;> cases r.kind <;> simp

theorem delivers_none (h : r.state ≠ .cpl) : delivers r i = [] := by
  rw [delivers_eq, if_neg fun hc => h hc.1]

theorem step_cpl (h : r.state = .cpl) :
    r.step i = if delivers r i = [] then r else { r with state := .idle } := by
  rw [delivers_eq, Regs.step, h]
  cases hk : r.kind
  · cases i.cfgCplReady <;> simp [h, hk, Regs.cfgCplValid]
  · cases i.memCplReady <;> simp [h, hk, Regs.memCplValid]

theorem step_delay (h : r.state = .delay) : r.step i =
    if r.delayCount ≠ 0 then { r with delayCount := r.delayCount - 1 } else r.complete := by
  rw [Regs.step, h]
  rfl

/-- A request that is accepted is either delayed or, when it is posted, served at once. -/
theorem matches_accept (hidle : r.state = .idle) (h : r.Matches requests done) :
    (r.step i).Matches (requests ++ accepts r i) done := by
  simp only [Regs.Matches, hidle] at h
  obtain ⟨hd, hc⟩ := h
  rw [Regs.step, hidle]
  by_cases hcfg : i.cfgReqValid = true
  · have haccepts : accepts r i = [.config i.cfgReqType i.cfgReqBdf i.cfgReqReg i.cfgReqWdata] := by
      simp [accepts, Regs.cfgReqReady, Regs.memReqReady, hidle, hcfg]
    simp only [hcfg, Regs.cfgReqReady, hidle, decide_true, Bool.and_self, if_true, haccepts]
    exact ⟨requests, rfl, hd, hc⟩
  · have hcfg : i.cfgReqValid = false := by simpa using hcfg
    by_cases hmem : i.memReqValid = true
    · have haccepts : accepts r i = [if i.memReqWrite then .memWrite i.memReqAddr i.memReqWdata
          else .memRead i.memReqAddr] := by
        simp [accepts, Regs.memReqReady, hidle, hcfg, hmem]
      simp only [hcfg, hmem, Regs.memReqReady, hidle, haccepts, Bool.false_and, Bool.not_false,
        decide_true, Bool.and_self, if_true, Bool.false_eq_true, if_false]
      unfold Regs.acceptMem
      by_cases hwrite : i.memReqWrite = true
      · rw [if_pos hwrite, if_pos hwrite]
        have hserve : Endpoint.serve (Endpoint.reset.after requests)
            (.memWrite i.memReqAddr i.memReqWdata) =
            ((if r.scratchHit i.memReqAddr then { r with scratchReg := i.memReqWdata }
              else r).endpoint, none) := by
          rw [← hd, Endpoint.serve]
          simp only [← Regs.scratchHit_iff]
          split_ifs <;> rfl
        have hstate : (if r.scratchHit i.memReqAddr then { r with scratchReg := i.memReqWdata }
            else r).state = .idle := by
          split_ifs <;> exact hidle
        simp only [Regs.Matches, hstate]
        simp [hserve, hc]
      · rw [if_neg hwrite, if_neg hwrite]
        exact ⟨requests, rfl, hd, hc⟩
    · have hmem : i.memReqValid = false := by simpa using hmem
      have haccepts : accepts r i = [] := by simp [accepts, hcfg, hmem]
      simp only [hcfg, hmem, Bool.false_and, Bool.false_eq_true, if_false, haccepts,
        List.append_nil, Regs.Matches, hidle]
      exact ⟨hd, hc⟩

theorem accepts_length (r : Regs) (i : Inputs) : (accepts r i).length ≤ 1 := by
  unfold accepts Regs.memReqReady
  cases i.cfgReqValid
  · simp only [Bool.false_and, Bool.false_eq_true, if_false, List.nil_append]
    split <;> simp
  · simp only [Bool.not_true, Bool.and_false, Bool.false_eq_true, if_false, List.append_nil]
    split <;> simp

/-- A request with a completion is delayed for two cycles. -/
theorem step_accept {q : Request} (hq : q ∈ accepts r i) {d : Endpoint} {c : Completion}
    (hc : (d.serve q).2 = some c) :
    r.state = .idle ∧ (r.step i).state = .delay ∧ (r.step i).delayCount = 2 := by
  have hidle : r.state = .idle := by
    by_contra hbusy
    rw [accepts_busy hbusy] at hq
    cases hq
  refine ⟨hidle, ?_⟩
  rw [Regs.step, hidle]
  by_cases hcfg : i.cfgReqValid = true
  · simp [hcfg, Regs.cfgReqReady, hidle, Regs.acceptCfg]
  · have hcfg : i.cfgReqValid = false := by simpa using hcfg
    simp only [accepts, hcfg, Bool.false_and, Bool.false_eq_true, if_false, List.nil_append] at hq
    split_ifs at hq with hmem hwrite
    · rw [List.mem_singleton.mp hq] at hc
      cases hc
    · simp [hcfg, hmem, Regs.acceptMem, hwrite]
    · cases hq

theorem matches_step (h : r.Matches requests done) :
    (r.step i).Matches (requests ++ accepts r i) (done ++ delivers r i) := by
  cases hstate : r.state
  case idle =>
    rw [delivers_none (by simp [hstate]), List.append_nil]
    exact matches_accept hstate h
  case delay =>
    rw [accepts_busy (by simp [hstate]), delivers_none (by simp [hstate]), List.append_nil,
      List.append_nil, step_delay hstate]
    simp only [Regs.Matches, hstate] at h
    obtain ⟨before, rfl, hd, hc⟩ := h
    by_cases hcount : r.delayCount ≠ 0
    · rw [if_pos hcount]
      simp only [Regs.Matches, hstate]
      exact ⟨before, rfl, hd, hc⟩
    · rw [if_neg hcount]
      have hserve := r.complete_serve
      rw [hd] at hserve
      simp only [Regs.Matches, r.complete_state]
      simp [hserve, hc]
  case cpl =>
    rw [accepts_busy (by simp [hstate]), List.append_nil, step_cpl hstate]
    simp only [Regs.Matches, hstate] at h
    by_cases hd : delivers r i = []
    · rw [if_pos hd, hd, List.append_nil]
      simp only [Regs.Matches, hstate]
      exact h
    · have htaken : delivers r i = [r.completion] := by
        rw [delivers_eq] at hd ⊢
        split_ifs at hd ⊢
        · rfl
        · exact absurd rfl hd
      rw [if_neg hd, htaken]
      exact h
  case unused =>
    simp only [Regs.Matches, hstate] at h

end Step

/-! ### Runs -/

section Run

variable (i : Nat → Inputs)

theorem matches_run (n : Nat) : (regs i n).Matches (accepted i n) (delivered i n) := by
  have h0 : Regs.reset.Matches [] [] := ⟨rfl, rfl⟩
  exact Clocked.states_invariant
    (I := fun n (r : Regs) => r.Matches (accepted i n) (delivered i n)) h0
    (fun n h => matches_step h) n

theorem accepted_succ (n : Nat) :
    accepted i (n + 1) = accepted i n ++ accepts (regs i n) (i n) := rfl

theorem delivered_succ (n : Nat) :
    delivered i (n + 1) = delivered i n ++ delivers (regs i n) (i n) := rfl

theorem regs_succ (n : Nat) : regs i (n + 1) = (regs i n).step (i n) := rfl

/-- A delay ends in an offered completion, and nothing passes the ports in it. -/
theorem delay_run (k : Nat) {n : Nat} (hstate : (regs i n).state = .delay)
    (hcount : (regs i n).delayCount.toNat = k) :
    (regs i (n + k + 1)).state = .cpl ∧ accepted i (n + k + 1) = accepted i n ∧
      delivered i (n + k + 1) = delivered i n := by
  have haccepted : accepted i (n + 1) = accepted i n := by
    rw [accepted_succ, accepts_busy (by simp [hstate]), List.append_nil]
  have hdelivered : delivered i (n + 1) = delivered i n := by
    rw [delivered_succ, delivers_none (by simp [hstate]), List.append_nil]
  have hstep := step_delay (i := i n) hstate
  rw [← regs_succ] at hstep
  induction k generalizing n with
  | zero =>
    have h0 : (regs i n).delayCount = 0 := BitVec.eq_of_toNat_eq hcount
    rw [if_neg (by simp [h0])] at hstep
    exact ⟨by rw [hstep, Regs.complete_state], haccepted, hdelivered⟩
  | succ k ih =>
    have hne : (regs i n).delayCount ≠ 0 := by
      intro h0
      rw [h0] at hcount
      cases hcount
    rw [if_pos hne] at hstep
    have hnext : (regs i (n + 1)).state = .delay := by rw [hstep]; exact hstate
    have hless : (regs i (n + 1)).delayCount.toNat = k := by
      rw [hstep, BitVec.toNat_sub_of_le]
      · simp [hcount]
      · rw [BitVec.le_def, hcount]
        simp
    obtain ⟨hcpl, ha, hd⟩ := ih hnext hless
      (by rw [accepted_succ, accepts_busy (by simp [hnext]), List.append_nil])
      (by rw [delivered_succ, delivers_none (by simp [hnext]), List.append_nil])
      (by rw [regs_succ]; exact step_delay hnext)
    rw [Nat.add_right_comm n 1 k] at hcpl ha hd
    exact ⟨hcpl, ha.trans haccepted, hd.trans hdelivered⟩

/-- The completion of a request is offered four cycles after it is accepted. -/
theorem offers_accepted {n : Nat} {q : Request} (hq : q ∈ accepts (regs i n) (i n))
    {c : Completion} (hc : ((Endpoint.reset.after (accepted i n)).serve q).2 = some c) :
    offers (regs i (n + 4)) = [c] := by
  obtain ⟨hidle, hdelay, hcount⟩ := step_accept hq hc
  have hone : accepts (regs i n) (i n) = [q] := by
    have hlen := accepts_length (regs i n) (i n)
    obtain ⟨x, hx⟩ := List.length_eq_one_iff.mp
      (Nat.le_antisymm hlen (List.length_pos_of_mem hq))
    rw [hx, List.mem_singleton] at hq
    rw [hx, hq]
  obtain ⟨hcpl, ha, hd⟩ :=
    delay_run i 2 (n := n + 1) hdelay (by rw [regs_succ, hcount]; rfl)
  have hnow := matches_run i n
  have hlater := matches_run i (n + 4)
  simp only [Regs.Matches, hidle] at hnow
  have hcpl : (regs i (n + 4)).state = .cpl := hcpl
  simp only [Regs.Matches, hcpl] at hlater
  have ha : accepted i (n + 4) = accepted i n ++ [q] := by rw [← hone]; exact ha
  have hd : delivered i (n + 4) = delivered i n := by
    apply hd.trans
    rw [delivered_succ, delivers_none (by simp [hidle]), List.append_nil]
  rw [ha, hd, Endpoint.completions_snoc, hc, hnow.2] at hlater
  rw [offers_eq, if_pos hcpl]
  exact (List.append_cancel_left hlater.2).symm

/-- What holds of the adapter in each cycle, when the sequential device serves the requests
accepted before it. -/
structure Linear (n : Nat) : Prop where
  /-- The requests are accepted one at a time. -/
  single : (accepts (regs i n) (i n)).length ≤ 1
  /-- The device's completions are those delivered, in their order, and at most one that is owed;
  nothing else is ever offered, and nothing is accepted while one is owed. -/
  order : ∃ owed, Endpoint.reset.completions (accepted i n) = delivered i n ++ owed ∧
    owed.length ≤ 1 ∧ (∀ c ∈ offers (regs i n), c ∈ owed) ∧
    (accepts (regs i n) (i n) ≠ [] → owed = [])
  /-- An offered completion stays until its channel takes it. -/
  stable : ∀ c ∈ offers (regs i n), c ∉ delivers (regs i n) (i n) →
    c ∈ offers (regs i (n + 1))
  /-- The completion of an accepted request comes to be offered. -/
  prompt : ∀ q ∈ accepts (regs i n) (i n), ∀ c,
    ((Endpoint.reset.after (accepted i n)).serve q).2 = some c → offers (regs i (n + 4)) = [c]
  /-- A read of the scratch word completes with the data of the last effective write. -/
  scratch : ∀ addr wdata, .memRead addr ∈ accepts (regs i n) (i n) →
    (Endpoint.reset.after (accepted i n)).Hits addr →
    Endpoint.reset.LastWrite (accepted i n) wdata → offers (regs i (n + 4)) = [⟨.mem, 0, wdata⟩]

/-- Whatever the ports and the channels do, the adapter is the sequential device serving the
accepted requests in the order of their acceptance. -/
theorem linearizable (n : Nat) : Linear i n := by
  refine ⟨accepts_length _ _, ?_, ?_, fun q hq c hc => offers_accepted i hq hc, ?_⟩
  · have h := matches_run i n
    cases hstate : (regs i n).state <;> simp only [Regs.Matches, hstate] at h
    case idle =>
      refine ⟨[], by simp [h.2], by simp, ?_, fun _ => rfl⟩
      simp [offers_eq, hstate]
    case delay =>
      obtain ⟨before, hreq, hd, hc⟩ := h
      refine ⟨[(regs i n).complete.completion], ?_, by simp, ?_, fun hne => ?_⟩
      · rw [hreq, Endpoint.completions_snoc, hc, ← hd, Regs.complete_serve]
        rfl
      · simp [offers_eq, hstate]
      · exact absurd (accepts_busy (by simp [hstate])) hne
    case cpl =>
      refine ⟨[(regs i n).completion], h.2, by simp, ?_, fun hne => ?_⟩
      · simp [offers_eq, hstate]
      · exact absurd (accepts_busy (by simp [hstate])) hne
  · intro c hoffer hkept
    rw [offers_eq] at hoffer
    split_ifs at hoffer with hstate
    · have hnone : delivers (regs i n) (i n) = [] := by
        rw [delivers_eq] at hkept ⊢
        split_ifs at hkept ⊢
        · exact absurd hoffer hkept
        · rfl
      rw [regs_succ, step_cpl hstate, if_pos hnone, offers_eq, if_pos hstate]
      exact hoffer
    · cases hoffer
  · intro addr wdata hq hhit hlast
    refine offers_accepted i hq ?_
    rw [Endpoint.serve, if_pos hhit, Endpoint.scratch_after _ hlast]

end Run

end CortexLabs.Pcie.VendorAdapter
