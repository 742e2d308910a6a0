import CortexLabs.Device.Wp
import CortexLabs.Pcie.ConfigSpace
import CortexLabs.Pcie.HostRuns

/-! The drivers over the bridge and a backend that answers each request in time.  What such a
backend is, is said once, as a sequential device with a bound on its latency; the drivers are then
shown to be that device's own calls: no bus timing makes them find the bridge busy, or time out, and
what they return is what the device says. -/

namespace CortexLabs.Pcie

open Device HostBridge

/-! ### Backends -/

/-- A backend that serves one request at a time.  Once it has accepted a request it works for at
most `latency` cycles and then offers the result, as `serve` says. -/
structure Server (δ : Type) where
  State : Type
  /-- One clock edge, with what the bridge's port shows and with the bus that both are on. -/
  step : State → Port → Ahb → State
  reqReady : State → Bool
  cplValid : State → Bool
  cplStatus : State → BitVec 2
  cplRdata : State → Word
  serve : δ → Request → Result × δ
  latency : Nat
  Rest : State → δ → Prop
  Works : State → Nat → Result → δ → Prop
  ready : ∀ {s d}, Rest s d → reqReady s = true
  rest : ∀ {s d p b}, Rest s d → p.reqValid = false → Rest (step s p b) d
  accept : ∀ {s d p b}, Rest s d → p.reqValid = true → ∃ k ≤ latency,
    Works (step s p b) k (serve d p.req).1 (serve d p.req).2
  work : ∀ {s k r d p b}, Works s (k + 1) r d → cplValid s = false ∧ Works (step s p b) k r d
  offer : ∀ {s r d p b}, Works s 0 r d → cplValid s = true ∧ cplStatus s = r.status ∧
    cplRdata s = r.rdata ∧ (p.cplReady = true → Rest (step s p b) d)

/-- The bridge over a backend, with the CPU's side of its bus. -/
structure Stack {δ : Type} (S : Server δ) where
  world : World
  backend : S.State

section Stack

variable {δ : Type} {S : Server δ}

namespace Stack

def inputs (w : Stack S) (b : Ahb) : Inputs :=
  ⟨b.hsel, b.haddr, b.htrans, b.hwrite, b.hsize, b.hwdata, b.hready, S.reqReady w.backend,
    S.cplValid w.backend, S.cplStatus w.backend, S.cplRdata w.backend⟩

def port (w : Stack S) : Port :=
  ⟨w.world.regs.reqValid, w.world.regs.request, w.world.regs.cplReady⟩

def clock (w : Stack S) (b : Ahb) : Stack S :=
  ⟨w.world.clock (w.inputs b), S.step w.backend w.port b⟩

end Stack

inductive Stack.Quiet (w : Stack S) : Stack S → Prop
  | clock {b : Ahb} : w.world.Drives (w.inputs b) → (w.inputs b).ahbAddressPhase = false →
      Quiet w (w.clock b)

inductive Stack.Address (w : Stack S) (o : Op) : Stack S → Prop
  | clock {b : Ahb} : w.world.Drives (w.inputs b) → (w.inputs b).ahbAddressPhase = true →
      b.haddr = o.addr → b.hwrite = o.isStore → b.hsize = 0b010 →
      Address w o ⟨{ w.world.clock (w.inputs b) with
        hwdata := match o with | .load _ => w.world.hwdata | .store _ value => value },
        S.step w.backend w.port b⟩

/-- The register bus of the bridge over a backend. -/
abbrev stack (S : Server δ) : Behavior Op Ans where
  State := Stack S
  answer w o r w' := (∃ w1, Relation.ReflTransGen Stack.Quiet w w1 ∧ Stack.Address w1 o w') ∧
    match o, r with
    | .load _, v => v = w'.world.regs.hrdata
    | .store _ _, _ => True
  torn _ _ _ := False

variable {w w' : Stack S} {o : Op} {x : Ans o}

/-- The backend is one that the bridge may have. -/
theorem answer_csr (h : (stack S).answer w o x w') : csr.answer w.world o x w'.world := by
  obtain ⟨⟨w1, hquiet, haddress⟩, hx⟩ := h
  refine ⟨⟨w1.world, ?_, ?_⟩, hx⟩
  · refine Relation.ReflTransGen.lift Stack.world (fun a c hs => ?_) _ _ hquiet
    cases hs with
    | clock hd hphase => exact .clock hd hphase
  · cases haddress with
    | clock hd hphase haddr hwrite hsize => exact .clock hd hphase haddr hwrite hsize

/-- What holds after the cycles of an access: `P` is reached in the first of them, with a write
perhaps still in its data phase, and lasts over cycles without such a write. -/
theorem stack_rule {P : Regs → S.State → Prop}
    (hfirst : ∀ b, w.world.Drives (w.inputs b) → P (w.clock b).world.regs (w.clock b).backend)
    (hstay : ∀ (w : Stack S) b, w.world.regs.writing = false → P w.world.regs w.backend →
      P (w.clock b).world.regs (w.clock b).backend)
    (h : (stack S).answer w o x w') : P w'.world.regs w'.backend := by
  obtain ⟨⟨w1, hquiet, haddress⟩, -⟩ := h
  have hkeep : w1 = w ∨ w1.world.regs.writing = false ∧ P w1.world.regs w1.backend := by
    clear haddress
    induction hquiet with
    | refl => exact .inl rfl
    | @tail a c _ hs ih =>
      cases hs with
      | @clock b hd hphase =>
        have hquiet : HostBridge.Quiet a.world (a.world.clock (a.inputs b)) := .clock hd hphase
        refine .inr ⟨by simp [Regs.writing, Stack.clock, hquiet.dphase], ?_⟩
        rcases ih with rfl | ⟨hnone, hP⟩
        · exact hfirst b hd
        · exact hstay a b hnone hP
  cases haddress with
  | @clock b hd hphase haddr hwrite hsize =>
    rcases hkeep with rfl | ⟨hnone, hP⟩
    · exact hfirst b hd
    · exact hstay w1 b hnone hP

end Stack

/-! ### The write data register -/

section Wdata

variable {w w' : World} {o : Op} {x : Ans o}

theorem cfgWdata_step (r : Regs) (i : Inputs) :
    (r.step i).cfgWdata = if r.writes regCfgWdata then i.hwdata else r.cfgWdata := by
  have hcsrs := step_csrs r i
  simp only [Regs.csrs, Prod.mk.injEq] at hcsrs
  exact hcsrs.2.2.2

/-- Whatever the bridge is at, an access takes in the data of the write before it. -/
theorem cfgWdata_access (h : csr.answer w o x w') : w'.regs.cfgWdata = w.wdata := by
  refine answer_rule (P := fun r _ => r.cfgWdata = w.wdata) ?_ ?_ h
  · intro i hd
    rw [cfgWdata_step, hd.select]
    rfl
  · intro r _ i hidle hP
    rw [cfgWdata_step, writes_of_idle hidle, if_neg Bool.false_ne_true]
    exact hP

theorem wdata_load {addr : Word} {v : Ans (.load addr)} (h : csr.answer w (.load addr) v w') :
    w'.wdata = w.wdata := by
  rw [World.wdata, writes_of_idle (answer_load h).1, if_neg Bool.false_ne_true]
  exact cfgWdata_access h

theorem wdata_store {addr value : Word} {u : Ans (.store addr value)}
    (h : csr.answer w (.store addr value) u w') :
    w'.wdata = if addr.setWidth 16 = regCfgWdata then value else w.wdata := by
  obtain ⟨hdata, hwrites⟩ := answer_store h
  rw [World.wdata, hwrites, hdata, cfgWdata_access h]
  simp only [decide_eq_true_eq]

end Wdata

/-! ### A request on its way through the stack -/

section Flight

variable {δ : Type} {S : Server δ} {d : δ} {q : Request} {k : Nat}

/-- The request `q` is on its way, for `k` more cycles at most, to a device that is `d` before it. -/
inductive Pending (S : Server δ) (d : δ) (q : Request) (r : Regs) (s : S.State) : Nat → Prop
  | issued {rdata error : Word} : r.core = ⟨.issue, true, false, rdata, error, q⟩ → S.Rest s d →
      Pending S d q r s (S.latency + 2)
  | working {rdata error : Word} {k : Nat} : r.core = ⟨.waitCpl, true, false, rdata, error, q⟩ →
      S.Works s k (S.serve d q).1 (S.serve d q).2 → Pending S d q r s (k + 1)
  | finished {rdata error : Word} : r.core = ⟨.idle, false, true, rdata, error, q⟩ →
      (error = 0 ↔ (S.serve d q).1.status = 0) →
      ((S.serve d q).1.status = 0 → q.type = reqCfgRead → rdata = (S.serve d q).1.rdata) →
      S.Rest s (S.serve d q).2 → Pending S d q r s 0

def Within (S : Server δ) (d : δ) (q : Request) (k : Nat) (r : Regs) (s : S.State) : Prop :=
  ∃ j ≤ k, Pending S d q r s j

theorem Within.mono {r : Regs} {s : S.State} {m : Nat} (h : Within S d q k r s) (hk : k ≤ m) :
    Within S d q m r s := by
  obtain ⟨j, hj, hp⟩ := h
  exact ⟨j, Nat.le_trans hj hk, hp⟩

variable {w w' : Stack S} {o : Op} {x : Ans o}

theorem clock_core (hb : w.world.regs.Benign) (b : Ahb) :
    (w.clock b).world.regs.core = w.world.regs.core.next (w.inputs b) := by
  show (w.world.regs.step (w.inputs b)).core = _
  rw [step_core hb, fsm_core]

/-- One cycle takes one off what is left. -/
theorem Pending.clock (h : Pending S d q w.world.regs w.backend k) (hb : w.world.regs.Benign)
    (b : Ahb) : Within S d q (k - 1) (w.clock b).world.regs (w.clock b).backend := by
  have hcore := clock_core hb b
  cases h with
  | issued hc hrest =>
    have hstate : w.world.regs.state = .issue := congrArg Core.state hc
    have hq : w.world.regs.request = q := congrArg Core.request hc
    have hvalid : w.port.reqValid = true := decide_eq_true hstate
    obtain ⟨k, hk, hworks⟩ := S.accept (b := b) hrest hvalid
    rw [show w.port.req = q from hq] at hworks
    rw [hc] at hcore
    simp only [Core.next, show (w.inputs b).reqReady = true from S.ready hrest, if_true] at hcore
    exact ⟨k + 1, by omega, .working hcore hworks⟩
  | @working rdata error k hc hworks =>
    have hstate : w.world.regs.state = .waitCpl := congrArg Core.state hc
    rw [hc] at hcore
    cases k with
    | zero =>
      obtain ⟨hvalid, hstatus, hrdata, hrest⟩ := S.offer (p := w.port) (b := b) hworks
      simp only [Core.next, show (w.inputs b).cplValid = true from hvalid, if_true] at hcore
      refine ⟨0, Nat.zero_le _, .finished hcore ?_ ?_ (hrest (decide_eq_true hstate))⟩
      · show (if S.cplStatus w.backend ≠ 0 then errBackend else 0) = 0 ↔ _
        rw [hstatus]
        by_cases h0 : (S.serve d q).1.status = 0
        · simp [h0]
        · rw [if_pos h0]
          exact ⟨fun h => absurd h (by decide), fun h => absurd h h0⟩
      · intro h0 hread
        show (if S.cplStatus w.backend = 0 ∧ q.type = reqCfgRead then S.cplRdata w.backend
          else rdata) = _
        rw [if_pos ⟨hstatus.trans h0, hread⟩, hrdata]
    | succ k =>
      obtain ⟨hvalid, hnext⟩ := S.work (p := w.port) (b := b) hworks
      simp only [Core.next, show (w.inputs b).cplValid = false from hvalid] at hcore
      exact ⟨k + 1, by omega, .working hcore hnext⟩
  | finished hc herror hdata hrest =>
    have hstate : w.world.regs.state = .idle := congrArg Core.state hc
    have hvalid : w.port.reqValid = false := decide_eq_false (by simp [hstate])
    rw [hc] at hcore
    exact ⟨0, Nat.zero_le _, .finished hcore herror hdata (S.rest hrest hvalid)⟩

theorem Within.clock (h : Within S d q k w.world.regs w.backend) (hb : w.world.regs.Benign)
    (b : Ahb) : Within S d q (k - 1) (w.clock b).world.regs (w.clock b).backend := by
  obtain ⟨j, hj, hp⟩ := h
  exact (hp.clock hb b).mono (Nat.sub_le_sub_right hj 1)

/-- An access takes at least one cycle. -/
theorem Within.access (h : Within S d q k w.world.regs w.backend) (hb : w.world.regs.Benign)
    (ha : (stack S).answer w o x w') : Within S d q (k - 1) w'.world.regs w'.backend := by
  refine stack_rule (P := Within S d q (k - 1)) (fun b _ => h.clock hb b) ?_ ha
  intro w b hidle hP
  exact (hP.clock (Regs.benign_of_idle hidle) b).mono (Nat.sub_le _ 1)

/-- The access after a doorbell launches its request. -/
theorem Within.ring (h : w.world.Rung q) (hrest : S.Rest w.backend d)
    (ha : (stack S).answer w o x w') :
    Within S d q (S.latency + 2) w'.world.regs w'.backend := by
  refine stack_rule (P := Within S d q (S.latency + 2)) ?_ ?_ ha
  · intro b hd
    have hvalid : w.port.reqValid = false := decide_eq_false (by simp [h.state])
    have hrest' : S.Rest (w.clock b).backend d := S.rest hrest hvalid
    obtain ⟨hflight, -⟩ := h.step hd
    generalize hc : (w.world.regs.step (w.inputs b)).core = c at hflight
    cases hflight with
    | issued => exact ⟨_, Nat.le_refl _, .issued hc hrest'⟩
  · intro w b hidle hP
    exact (hP.clock (Regs.benign_of_idle hidle) b).mono (Nat.sub_le _ 1)

end Flight

/-! ### Between calls -/

section Resting

variable {δ : Type} {S : Server δ} {d : δ} {wdata : Word}

/-- No request is on its way, the device is `d`, and the write data register holds, or is about to
hold, `wdata`. -/
structure Resting (w : Stack S) (d : δ) (wdata : Word) : Prop where
  unoccupied : w.world.Unoccupied
  rest : S.Rest w.backend d
  wdata : w.world.wdata = wdata

variable {w w' : Stack S} {o : Op} {x : Ans o}

theorem Resting.backend (h : Resting w d wdata) (ha : (stack S).answer w o x w') :
    S.Rest w'.backend d := by
  have hstep : ∀ (w : Stack S) b, w.world.regs.state = .idle → S.Rest w.backend d →
      S.Rest (w.clock b).backend d := fun w b hstate hrest =>
    S.rest hrest (decide_eq_false (by simp [hstate]))
  refine (stack_rule (P := fun r s => r.state = .idle ∧ S.Rest s d) ?_ ?_ ha).2
  · intro b _
    exact ⟨(idle_step h.unoccupied.state h.unoccupied.noDoorbell).1,
      hstep w b h.unoccupied.state h.rest⟩
  · rintro w b hidle ⟨hstate, hrest⟩
    exact ⟨(idle_step hstate (writes_of_idle hidle _)).1, hstep w b hstate hrest⟩

theorem Resting.load {addr : Word} {v : Ans (.load addr)} (h : Resting w d wdata)
    (ha : (stack S).answer w (.load addr) v w') :
    Resting w' d wdata ∧ w'.world.bdf = w.world.bdf ∧ w'.world.reg = w.world.reg := by
  obtain ⟨hu, -, hb, hr, hw⟩ := h.unoccupied.load (answer_csr ha)
  exact ⟨⟨hu, h.backend ha, hw.trans h.wdata⟩, hb, hr⟩

theorem Resting.store {addr value : Word} {u : Ans (.store addr value)} (h : Resting w d wdata)
    (ha : (stack S).answer w (.store addr value) u w') (hne : addr.setWidth 16 ≠ regCfgCommand) :
    Resting w' d (if addr.setWidth 16 = regCfgWdata then value else wdata) ∧
      w'.world.bdf = (if addr.setWidth 16 = regCfgBdf then value else w.world.bdf) ∧
      w'.world.reg = (if addr.setWidth 16 = regCfgReg then value else w.world.reg) := by
  obtain ⟨hu, -, hb, hr, hw⟩ := h.unoccupied.store (answer_csr ha) hne
  exact ⟨⟨hu, h.backend ha, by rw [hw, h.wdata]⟩, hb, hr⟩

/-- A cycle in which an unoccupied bridge is not addressed. -/
theorem unoccupied_clock {w : World} {i : Inputs} (h : w.Unoccupied) (hd : w.Drives i)
    (hphase : i.ahbAddressPhase = false) : (w.clock i).Unoccupied ∧
      (w.clock i).regs.cfgWdata = w.wdata ∧ (w.clock i).regs.dphaseValid = false := by
  obtain ⟨h1, h2, -, -, hw⟩ := idle_step h.state h.noDoorbell (i := i)
  have hdphase : (w.clock i).regs.dphaseValid = false :=
    (HostBridge.Quiet.clock hd hphase).dphase
  refine ⟨⟨h1, h2.trans h.busy, writes_of_idle (by simp [Regs.writing, hdphase]) _⟩, ?_, hdphase⟩
  rw [hd.select] at hw
  exact hw

theorem wdata_quiet {w : World} (h : w.regs.dphaseValid = false) : w.wdata = w.regs.cfgWdata := by
  rw [World.wdata, writes_of_idle (by simp [Regs.writing, h]), if_neg Bool.false_ne_true]

theorem Resting.quiet (h : Resting w d wdata) (hs : Stack.Quiet w w') : Resting w' d wdata := by
  cases hs with
  | @clock b hd hphase =>
    obtain ⟨hu, hw, hdphase⟩ := unoccupied_clock h.unoccupied hd hphase
    refine ⟨hu, S.rest h.rest (decide_eq_false (by simp [h.unoccupied.state])), ?_⟩
    rw [← h.wdata, ← hw]
    exact wdata_quiet hdphase

end Resting

/-! ### The drivers -/

/-- What a call returns when its request has the result `r`. -/
def HostBridge.Driver.outcome (drv : Driver) (r : Pcie.Result) (readData : Option Word) :
    Driver.Result :=
  if r.status ≠ 0 then (drv.errBackend, readData) else (drv.ok, readData.map fun _ => r.rdata)

/-- What the proofs need of a driver and its backend: it polls often enough, and an idle bridge
passes its look at the busy bit. -/
structure HostBridge.Driver.Suits {δ : Type} (drv : Driver) (S : Server δ) : Prop where
  conforms : drv.Conforms
  polls : S.latency + 2 < drv.pollLimit
  free : ∀ r : Regs, r.busy = false → r.status &&& drv.statusBusy = 0

section Calls

variable {δ : Type} {S : Server δ} {drv : Driver} {d : δ} {q : Request} {wdata : Word} {k : Nat}
  {w w' : Stack S} {readData : Option Word}

/-- The request `q` of a call is on its way, and no write is in its data phase. -/
structure InCall (S : Server δ) (d : δ) (q : Request) (wdata : Word) (k : Nat) (w : Stack S) :
    Prop where
  within : Within S d q k w.world.regs w.backend
  idle : w.world.regs.writing = false
  wdata : w.world.wdata = wdata

/-- The access after a doorbell, and a load at any time, leave the request on its way. -/
theorem InCall.load {addr : Word} {v : Ans (.load addr)} (h : InCall S d q wdata k w)
    (ha : (stack S).answer w (.load addr) v w') : InCall S d q wdata (k - 1) w' :=
  ⟨h.within.access (Regs.benign_of_idle h.idle) ha, (answer_load (answer_csr ha)).1,
    (wdata_load (answer_csr ha)).trans h.wdata⟩

/-- `STATUS` shows `done` once the request has been served. -/
theorem InCall.done (h : InCall S d q wdata k w) (hdone : w.world.regs.done = true) :
    InCall S d q wdata 0 w ∧ Resting w (S.serve d q).2 wdata ∧
    (w.world.regs.errorStatus = 0 ↔ (S.serve d q).1.status = 0) ∧
    ((S.serve d q).1.status = 0 → q.type = reqCfgRead →
      w.world.regs.cfgRdata = (S.serve d q).1.rdata) := by
  obtain ⟨⟨j, hj, hp⟩, hidle, hw⟩ := h
  cases hp with
  | issued hc _ => exact absurd ((congrArg Core.done hc).symm.trans hdone) nofun
  | working hc _ => exact absurd ((congrArg Core.done hc).symm.trans hdone) nofun
  | @finished rdata error hc herror hdata hrest =>
    refine ⟨⟨⟨0, Nat.le_refl 0, .finished hc herror hdata hrest⟩, hidle, hw⟩, ⟨⟨?_, ?_, ?_⟩,
      hrest, hw⟩, ?_, ?_⟩
    · exact congrArg Core.state hc
    · exact congrArg Core.busy hc
    · exact writes_of_idle hidle _
    · rw [show w.world.regs.errorStatus = error from congrArg Core.errorStatus hc]
      exact herror
    · rw [show w.world.regs.cfgRdata = rdata from congrArg Core.cfgRdata hc]
      exact hdata

/-- A request that is not done has cycles left. -/
theorem InCall.pos (h : InCall S d q wdata k w) (hdone : w.world.regs.done = false) : 0 < k := by
  obtain ⟨⟨j, hj, hp⟩, -, -⟩ := h
  cases hp with
  | issued _ _ => omega
  | working _ _ => omega
  | finished hc _ _ _ => exact absurd ((congrArg Core.done hc).symm.trans hdone) nofun

/-- A served request stays served. -/
theorem InCall.still_done (h : InCall S d q wdata 0 w) : w.world.regs.done = true := by
  by_contra hdone
  exact absurd (h.pos (by simpa using hdone)) (Nat.lt_irrefl 0)

theorem rung_load (hrung : w.world.Rung q) (hrest : S.Rest w.backend d)
    (hw : w.world.wdata = wdata) {addr : Word} (v : Ans (.load addr)) (w' : Stack S)
    (ha : (stack S).answer w (.load addr) v w') : InCall S d q wdata (S.latency + 2) w' :=
  ⟨Within.ring hrung hrest ha, (answer_load (answer_csr ha)).1,
    (wdata_load (answer_csr ha)).trans hw⟩

/-- How a call ends. -/
def Ends (drv : Driver) (S : Server δ) (d : δ) (q : Request) (wdata : Word)
    (readData : Option Word) (res : Driver.Result) (w : Stack S) : Prop :=
  res = drv.outcome (S.serve d q).1 readData ∧ Resting w (S.serve d q).2 wdata

variable (hs : drv.Suits S)
include hs

theorem readResult_wp (h : InCall S d q wdata k w) (hdone : w.world.regs.done = true)
    (hread : readData.isSome = true → q.type = reqCfgRead) :
    wp (stack S) (Ends drv S d q wdata readData)
      (drv.readResult w.world.regs.status readData) w := by
  obtain ⟨hserved, hresting, herror, -⟩ := h.done hdone
  have hbits := (status_bits w.world.regs).2.2.1
  rw [← hs.conforms.error] at hbits
  unfold Driver.readResult
  by_cases h0 : (S.serve d q).1.status = 0
  · have hout : drv.outcome (S.serve d q).1 readData =
        (drv.ok, readData.map fun _ => (S.serve d q).1.rdata) := if_neg (not_not.mpr h0)
    rw [if_neg fun hne => hbits.mp hne (herror.mpr h0)]
    cases hptr : readData with
    | none => exact ⟨by rw [← hptr, hout, hptr]; rfl, hresting⟩
    | some v =>
      intro x w' ha
      have hserved' := hserved.load ha
      obtain ⟨-, hresting', -, hdata⟩ := hserved'.done hserved'.still_done
      have hx := load_cfgRdata hs.conforms (answer_csr ha)
      refine ⟨?_, hresting'⟩
      rw [← hptr, hout, hptr, hx, hdata h0 (hread (by rw [hptr]; rfl))]
      rfl
  · rw [if_pos (hbits.mpr fun he => h0 (herror.mp he))]
    exact ⟨(if_pos h0).symm, hresting⟩

/-- The polls do not run out before the request is served. -/
theorem poll_wp (hread : readData.isSome = true → q.type = reqCfgRead) (timeout : Nat)
    {k : Nat} {w : Stack S} (hk : k < timeout)
    (h : ∀ (v : Ans (.load drv.status)) w', (stack S).answer w (.load drv.status) v w' →
      InCall S d q wdata k w') :
    wp (stack S) (Ends drv S d q wdata readData) (drv.poll readData timeout) w := by
  induction timeout generalizing k w with
  | zero => omega
  | succ timeout ih =>
    intro v w' ha
    have hcall := h v w' ha
    obtain rfl := load_status hs.conforms (answer_csr ha)
    have hbits := (status_bits w'.world.regs).2.1
    rw [← hs.conforms.done] at hbits
    show wp (stack S) _ (if w'.world.regs.status &&& drv.statusDone = 0 then
      drv.poll readData timeout else drv.readResult w'.world.regs.status readData) w'
    cases hdone : w'.world.regs.done with
    | false =>
      rw [if_pos (hbits.mpr hdone)]
      have hpos := hcall.pos hdone
      exact ih (k := k - 1) (by omega) fun v w2 ha2 => hcall.load ha2
    | true =>
      rw [if_neg fun hzero => absurd ((hbits.mp hzero).symm.trans hdone) nofun]
      exact readResult_wp hs hcall hdone hread

/-- A doorbell store, and what follows it up to the end of the call. -/
theorem ring_wp {command : Word} {rest : CsrProgram Driver.Result} {Q : Driver.Result → Stack S → Prop}
    (hcommand : command = cmdCfgRead ∨ command = cmdCfgWrite) (h : Resting w d wdata)
    (hrest : ∀ w', w'.world.Rung ⟨if command = cmdCfgRead then reqCfgRead else reqCfgWrite,
      w.world.bdf, w.world.reg.setWidth 10, wdata⟩ → S.Rest w'.backend d → w'.world.wdata = wdata →
      wp (stack S) Q rest w') :
    wp (stack S) Q (do store drv.cfgCommand command; rest) w := by
  have haddr : drv.cfgCommand.setWidth 16 = regCfgCommand := by
    rw [Driver.cfgCommand, hs.conforms.base]
    decide
  intro _ w' ha
  obtain ⟨hrung, -⟩ := h.unoccupied.ring (answer_csr ha) haddr hcommand
  rw [h.wdata] at hrung
  refine hrest w' hrung (h.backend ha) ?_
  rw [wdata_store (answer_csr ha), haddr, if_neg (by decide), h.wdata]

/-- The stores that program a request's address. -/
theorem address_wp {bdf reg : Word} {rest : CsrProgram Driver.Result}
    {Q : Driver.Result → Stack S → Prop} (h : Resting w d wdata)
    (hrest : ∀ w', Resting w' d wdata → w'.world.bdf = bdf → w'.world.reg = reg →
      wp (stack S) Q rest w') :
    wp (stack S) Q (do store drv.cfgBdf bdf; store drv.cfgReg reg; rest) w := by
  have hbdf : drv.cfgBdf.setWidth 16 = regCfgBdf := by
    rw [Driver.cfgBdf, hs.conforms.base]
    decide
  have hreg : drv.cfgReg.setWidth 16 = regCfgReg := by
    rw [Driver.cfgReg, hs.conforms.base]
    decide
  intro _ w1 ha1 _ w2 ha2
  obtain ⟨h1, hb1, -⟩ := h.store ha1 (by rw [hbdf]; decide)
  rw [hbdf, if_neg (by decide)] at h1
  obtain ⟨h2, hb2, hr2⟩ := h1.store ha2 (by rw [hreg]; decide)
  rw [hreg, if_neg (by decide)] at h2
  refine hrest w2 h2 ?_ ?_
  · rw [hb2, hreg, if_neg (by decide), hb1, hbdf, if_pos rfl]
  · rw [hr2, hreg, if_pos rfl]

theorem wdata_wp {value : Word} {rest : CsrProgram Driver.Result}
    {Q : Driver.Result → Stack S → Prop} (h : Resting w d wdata)
    (hrest : ∀ w', Resting w' d value → w'.world.bdf = w.world.bdf → w'.world.reg = w.world.reg →
      wp (stack S) Q rest w') :
    wp (stack S) Q (do store drv.cfgWdata value; rest) w := by
  have haddr : drv.cfgWdata.setWidth 16 = regCfgWdata := by
    rw [Driver.cfgWdata, hs.conforms.base]
    decide
  intro _ w' ha
  obtain ⟨h', hb, hr⟩ := h.store ha (by rw [haddr]; decide)
  rw [haddr, if_pos rfl] at h'
  rw [haddr, if_neg (by decide)] at hb hr
  exact hrest w' h' hb hr

theorem waitCompletion_wp (hread : readData.isSome = true → q.type = reqCfgRead)
    (h : ∀ (v : Ans (.load drv.status)) w', (stack S).answer w (.load drv.status) v w' →
      InCall S d q wdata (S.latency + 2) w') :
    wp (stack S) (Ends drv S d q wdata readData) (drv.waitCompletion readData) w :=
  poll_wp hs hread drv.pollLimit hs.polls h

/-- The look at `STATUS` that starts a call finds the bridge free. -/
theorem guarded_wp {busy : Driver.Result} {p : CsrProgram Driver.Result}
    {Q : Driver.Result → Stack S → Prop} (h : Resting w d wdata)
    (hp : ∀ w', Resting w' d wdata → wp (stack S) Q p w') :
    wp (stack S) Q (drv.guarded busy p) w := by
  intro v w' ha
  obtain rfl := load_status hs.conforms (answer_csr ha)
  obtain ⟨h', -⟩ := h.load ha
  show wp (stack S) Q (if w'.world.regs.status &&& drv.statusBusy ≠ 0 then .ret busy else p) w'
  rw [if_neg (not_not.mpr (hs.free _ h'.unoccupied.busy))]
  exact hp w' h'

/-- A call of the driver is a call of the device. -/
theorem read_wp (bdf reg : Word) (value : Option Word) (h : Resting w d wdata) :
    wp (stack S) (Ends drv S d ⟨reqCfgRead, bdf, reg.setWidth 10, wdata⟩ wdata value)
      (drv.configRead32 bdf reg value) w := by
  refine guarded_wp hs h fun w1 h1 => address_wp hs h1 fun w2 h2 hb hr => ?_
  refine ring_wp hs (.inl hs.conforms.read) h2 fun w3 hrung hrest hw => ?_
  rw [if_pos hs.conforms.read, hb, hr] at hrung
  exact waitCompletion_wp hs (fun _ => rfl) fun v w' ha => rung_load hrung hrest hw v w' ha

theorem write_wp (bdf reg value : Word) (h : Resting w d wdata) :
    wp (stack S) (Ends drv S d ⟨reqCfgWrite, bdf, reg.setWidth 10, value⟩ value none)
      (drv.configWrite32 bdf reg value) w := by
  refine guarded_wp hs h fun w1 h1 => address_wp hs h1 fun w2 h2 hb hr => ?_
  refine wdata_wp hs h2 fun w3 h3 hb3 hr3 => ?_
  refine ring_wp hs (.inr hs.conforms.write) h3 fun w4 hrung hrest hw => ?_
  rw [if_neg (by rw [hs.conforms.write]; decide), hb3, hb, hr3, hr] at hrung
  exact waitCompletion_wp hs nofun fun v w' ha => rung_load hrung hrest hw v w' ha

/-- The write whose data is stored after the command carries the data of the write before it, and
leaves its own for the next. -/
theorem writeDataLast_wp (bdf reg value : Word) (h : Resting w d wdata) :
    wp (stack S) (Ends drv S d ⟨reqCfgWrite, bdf, reg.setWidth 10, wdata⟩ value none)
      (drv.configWrite32DataLast bdf reg value) w := by
  have haddr : drv.cfgWdata.setWidth 16 = regCfgWdata := by
    rw [Driver.cfgWdata, hs.conforms.base]
    decide
  refine guarded_wp hs h fun w1 h1 => address_wp hs h1 fun w2 h2 hb hr => ?_
  refine ring_wp hs (.inr hs.conforms.write) h2 fun w3 hrung hrest _ => ?_
  rw [if_neg (by rw [hs.conforms.write]; decide), hb, hr] at hrung
  intro _ w4 ha4
  refine waitCompletion_wp hs (fun h => absurd h (by decide)) fun v w5 ha5 => ?_
  -- The store of the data is in its data phase while the request is on its way.
  have hbenign : w4.world.regs.Benign := fun _ => .inr (.inr (by
    rw [(answer_store (answer_csr ha4)).2, decide_eq_true haddr]))
  refine ⟨?_, (answer_load (answer_csr ha5)).1, ?_⟩
  · exact ((Within.ring hrung hrest ha4).access hbenign ha5).mono (Nat.sub_le _ 1)
  · rw [wdata_load (answer_csr ha5), wdata_store (answer_csr ha4), haddr, if_pos rfl]

end Calls

/-! ### A bus without cycles between the accesses -/

section Immediate

variable {δ : Type} {S : Server δ}

def Stack.immediate (o : Op) (w : Stack S) : Ans o × Stack S :=
  let b : Ahb := ⟨true, o.addr, 0b10, o.isStore, 0b010, w.world.hwdata, true⟩
  let w' : Stack S := ⟨{ w.world.clock (w.inputs b) with
    hwdata := match o with | .load _ => w.world.hwdata | .store _ value => value },
    S.step w.backend w.port b⟩
  match o with
  | .load _ => (w'.world.regs.hrdata, w')
  | .store _ _ => ((), w')

theorem stack_immediate : Handles (stack S) Stack.immediate := by
  intro w o
  have hphase : ∀ addr write, (w.inputs ⟨true, addr, 0b10, write, 0b010, w.world.hwdata,
      true⟩).ahbAddressPhase = true := by
    intro addr write
    simp [Stack.inputs, Inputs.ahbAddressPhase]
  cases o with
  | load addr => exact ⟨⟨w, .refl, .clock ⟨fun _ => rfl, fun _ => rfl⟩ (hphase _ _) rfl rfl rfl⟩, rfl⟩
  | store addr value =>
    exact ⟨⟨w, .refl, .clock ⟨fun _ => rfl, fun _ => rfl⟩ (hphase _ _) rfl rfl rfl⟩, trivial⟩

end Immediate

end CortexLabs.Pcie
