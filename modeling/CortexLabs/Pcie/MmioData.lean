import CortexLabs.Pcie.MmioTransfers

/-! What becomes of each transfer that the memory bridge captures, cycle by cycle: a transfer that
it must refuse ends in an ERROR without a request, and any other is offered to the backend as one
request that does not change, whose acceptance ends a write and whose completion ends a read. -/

namespace CortexLabs.Pcie.MmioBridge

open Device Clocked

def Inputs.transfer (i : Inputs) : Transfer := ⟨i.haddr, i.hwrite, i.hsize⟩

/-- The transfer is not of a word, is not aligned, or is outside the aperture. -/
def Transfer.Refused (p : Params) (t : Transfer) : Prop :=
  t.size ≠ 0b010 ∨ t.addr.extractLsb' 0 2 ≠ 0 ∨ t.addr &&& p.cpuApertureMask ≠ p.cpuApertureBase

namespace Regs

/-- HREADYOUT and HRESP are low: the transfer is not over. -/
def Stalls (r : Regs) : Prop := r.hreadyout = false ∧ r.hresp = false

/-- HREADYOUT is high and HRESP low: an OKAY response. -/
def Okay (r : Regs) : Prop := r.hreadyout = true ∧ r.hresp = false

/-- The request of the transfer is offered, with `wdata` when it is a write. -/
structure Offers (p : Params) (r : Regs) (t : Transfer) (wdata : Word) : Prop where
  valid : r.memReqValid = true
  write : r.memReqWrite = t.write
  addr : r.memReqAddr p = p.pcieBusBase + (t.addr - p.cpuApertureBase)
  wdata : t.write = true → r.memReqWdata = wdata

end Regs

section Trace

variable (p : Params) (i : Nat → Inputs)

/-- The bridge captures the address phase of cycle `n`, leaving `STATE_IDLE` or `STATE_RESP`. -/
def Captures (n : Nat) : Prop :=
  ((regs p i n).state = .idle ∨ (regs p i n).state = .resp) ∧ (i n).addressPhase = true

/-- Cycles `k` and `k + 1` are the two cycles of an ERROR response, without a request. -/
structure ErrorFrom (k : Nat) : Prop where
  first : (regs p i k).hreadyout = false ∧ (regs p i k).hresp = true
  second : (regs p i (k + 1)).hreadyout = true ∧ (regs p i (k + 1)).hresp = true
  silent : (regs p i k).memReqValid = false ∧ (regs p i (k + 1)).memReqValid = false

/-- The backend accepts what it is offered in cycle `k`. -/
abbrev accepts (k : Nat) : Bool := (i k).memReqReady

/-- The backend completes a read in cycle `k`. -/
abbrev completes (k : Nat) : Bool := (i k).memCplValid

/-- What becomes of the transfer captured in cycle `n`, whose data phase begins in cycle `n + 1`. -/
structure Handled (n : Nat) : Prop where
  check : (regs p i (n + 1)).Stalls ∧ (regs p i (n + 1)).memReqValid = false
  refused : (i n).transfer.Refused p → ErrorFrom p i (n + 2)
  offered : ¬(i n).transfer.Refused p → ∀ k, n + 2 ≤ k → Quiet (accepts i) (n + 2) k →
    (regs p i k).Stalls ∧ (regs p i k).Offers p (i n).transfer (i (n + 1)).hwdata
  written : ¬(i n).transfer.Refused p → (i n).hwrite = true → ∀ a, First (accepts i) (n + 2) a →
    (regs p i (a + 1)).Okay ∧ (regs p i (a + 1)).memReqValid = false
  waiting : ¬(i n).transfer.Refused p → (i n).hwrite = false → ∀ a, First (accepts i) (n + 2) a →
    ∀ k, a + 1 ≤ k → Quiet (completes i) (a + 1) k →
      (regs p i k).Stalls ∧ (regs p i k).memReqValid = false ∧ (regs p i k).memCplReady = true
  completed : ¬(i n).transfer.Refused p → (i n).hwrite = false → ∀ a,
    First (accepts i) (n + 2) a → ∀ c, First (completes i) (a + 1) c →
      ((i c).memCplStatus = 0 → (regs p i (c + 1)).Okay ∧
        (regs p i (c + 1)).memReqValid = false ∧ (regs p i (c + 1)).hrdata = (i c).memCplRdata) ∧
      ((i c).memCplStatus ≠ 0 → ErrorFrom p i (c + 1))

/-- The request offered in cycle `k` is that of the transfer captured in cycle `n`. -/
structure Offering (n k : Nat) : Prop where
  captured : Captures p i n
  admitted : ¬(i n).transfer.Refused p
  later : n + 2 ≤ k
  quiet : Quiet (accepts i) (n + 2) k

/-- In cycle `k`, the read captured in cycle `n`, whose request was accepted in cycle `a`, waits for
its completion. -/
structure Awaiting (n a k : Nat) : Prop where
  captured : Captures p i n
  admitted : ¬(i n).transfer.Refused p
  read : (i n).hwrite = false
  accepted : First (accepts i) (n + 2) a
  later : a + 1 ≤ k
  quiet : Quiet (completes i) (a + 1) k

end Trace

/-! ### One stage after the other -/

section Stages

variable {p : Params} {i : Nat → Inputs} {n k : Nat}

/-- The registers hold the transfer `t`, with `wdata` when it is a write that has been checked. -/
structure Regs.Holds (r : Regs) (state : State) (t : Transfer) (wdata : Word) : Prop where
  state : r.state = state
  transfer : r.transfer = t
  wdata : t.write = true → r.wdataR = wdata

theorem refused_iff {r : Regs} {t : Transfer} (h : r.transfer = t) :
    r.refused p = true ↔ t.Refused p := by
  subst h
  simp only [Regs.refused, Transfer.Refused, Regs.transfer, Bool.or_eq_true, decide_eq_true_eq,
    or_assoc]

theorem Captures.dataPhase (h : Captures p i n) :
    (regs p i (n + 1)).state = .dphase ∧ (regs p i (n + 1)).transfer = (i n).transfer := by
  obtain ⟨hstate | hstate, hphase⟩ := h
  · rw [regs_succ, Regs.step, hstate]
    dsimp only
    rw [if_pos hphase]
    exact ⟨rfl, rfl⟩
  · rw [regs_succ, Regs.step, hstate]
    dsimp only
    rw [if_pos hphase]
    exact ⟨rfl, rfl⟩

/-- The two cycles of an ERROR response follow from its first state. -/
theorem errorFrom (h : (regs p i k).state = .err1) : ErrorFrom p i k := by
  have hnext : (regs p i (k + 1)).state = .err2 := by
    rw [regs_succ, Regs.step, h]
  constructor
  · simp [Regs.hreadyout, Regs.hresp, h]
  · simp [Regs.hreadyout, Regs.hresp, hnext]
  · simp [Regs.memReqValid, h, hnext]

theorem stalls (h : (regs p i k).state = .dphase ∨ (regs p i k).state = .issue ∨
    (regs p i k).state = .wait) : (regs p i k).Stalls := by
  rcases h with h | h | h <;> simp [Regs.Stalls, Regs.hreadyout, Regs.hresp, h]

theorem okay (h : (regs p i k).state = .resp) :
    (regs p i k).Okay ∧ (regs p i k).memReqValid = false := by
  simp [Regs.Okay, Regs.hreadyout, Regs.hresp, Regs.memReqValid, h]

theorem Captures.refused (h : Captures p i n) (hrefused : (i n).transfer.Refused p) :
    (regs p i (n + 2)).state = .err1 := by
  obtain ⟨hstate, ht⟩ := h.dataPhase
  rw [regs_succ, Regs.step, hstate]
  dsimp only
  rw [if_pos ((refused_iff ht).mpr hrefused)]

/-- After its check, the transfer is held with its write data. -/
theorem Captures.admitted (h : Captures p i n) (hlegal : ¬(i n).transfer.Refused p) :
    (regs p i (n + 2)).Holds .issue (i n).transfer (i (n + 1)).hwdata := by
  obtain ⟨hstate, ht⟩ := h.dataPhase
  have hstep : regs p i (n + 2) = { regs p i (n + 1) with
      state := .issue
      wdataR := if (regs p i (n + 1)).writeR then (i (n + 1)).hwdata
        else (regs p i (n + 1)).wdataR } := by
    rw [regs_succ, Regs.step, hstate]
    dsimp only
    rw [if_neg (mt (refused_iff ht).mp hlegal)]
  rw [hstep]
  refine ⟨rfl, ht, fun hw => ?_⟩
  have hwrite : (regs p i (n + 1)).writeR = true := by
    rw [← hw, ← ht]
    rfl
  exact if_pos hwrite

/-- The request stays as it is until it is accepted. -/
theorem Captures.offered (h : Captures p i n) (hlegal : ¬(i n).transfer.Refused p)
    (hk : n + 2 ≤ k) (hquiet : Quiet (accepts i) (n + 2) k) :
    (regs p i k).Holds .issue (i n).transfer (i (n + 1)).hwdata := by
  apply lasts _ hk hquiet (h.admitted hlegal)
  intro j hholds hnone
  have hstep : regs p i (j + 1) = regs p i j := by
    rw [regs_succ, Regs.step, hholds.state]
    dsimp only
    rw [if_neg (by simpa using hnone)]
  rwa [hstep]

theorem Regs.Holds.offers {r : Regs} {t : Transfer} {wdata : Word} (h : r.Holds .issue t wdata) :
    r.Offers p t wdata := by
  obtain ⟨hstate, rfl, hwdata⟩ := h
  exact ⟨by simp [Regs.memReqValid, hstate], rfl, rfl, hwdata⟩

/-- What acceptance makes of the request. -/
theorem Captures.accepted (h : Captures p i n) (hlegal : ¬(i n).transfer.Refused p)
    (ha : First (accepts i) (n + 2) k) :
    (regs p i (k + 1)).state = if (i n).hwrite then .resp else .wait := by
  have hholds := h.offered hlegal ha.bound ha.quiet
  have hwrite : (regs p i k).writeR = (i n).hwrite := congrArg Transfer.write hholds.transfer
  rw [regs_succ, Regs.step, hholds.state]
  dsimp only
  rw [if_pos ha.happens, hwrite]

/-- A read whose request has been accepted waits until it is completed. -/
theorem Captures.waiting (h : Captures p i n) (hlegal : ¬(i n).transfer.Refused p)
    (hread : (i n).hwrite = false) {a : Nat} (ha : First (accepts i) (n + 2) a) (hk : a + 1 ≤ k)
    (hquiet : Quiet (completes i) (a + 1) k) : (regs p i k).state = .wait := by
  have hfirst : (regs p i (a + 1)).state = .wait := by
    rw [h.accepted hlegal ha, hread]
    rfl
  apply lasts _ hk hquiet hfirst
  intro j hstate hnone
  rw [regs_succ, Regs.step, hstate]
  dsimp only
  rw [if_neg (by simpa using hnone)]
  exact hstate

theorem wait_outputs (h : (regs p i k).state = .wait) : (regs p i k).Stalls ∧
    (regs p i k).memReqValid = false ∧ (regs p i k).memCplReady = true :=
  ⟨stalls (.inr (.inr h)), by simp [Regs.memReqValid, h], by simp [Regs.memCplReady, h]⟩

/-- What the completion makes of a waiting read. -/
theorem completed (hstate : (regs p i k).state = .wait) (hc : completes i k = true) :
    ((i k).memCplStatus = 0 → (regs p i (k + 1)).state = .resp ∧
      (regs p i (k + 1)).hrdata = (i k).memCplRdata) ∧
    ((i k).memCplStatus ≠ 0 → (regs p i (k + 1)).state = .err1) := by
  rw [regs_succ, Regs.step, hstate]
  dsimp only
  rw [if_pos hc]
  constructor
  · intro h0
    rw [if_neg (not_not.mpr h0)]
    exact ⟨rfl, rfl⟩
  · intro hne
    rw [if_pos hne]

theorem Captures.handled (h : Captures p i n) : Handled p i n := by
  constructor
  · obtain ⟨hstate, -⟩ := h.dataPhase
    exact ⟨stalls (.inl hstate), by simp [Regs.memReqValid, hstate]⟩
  · exact fun hrefused => errorFrom (h.refused hrefused)
  · intro hlegal k hk hquiet
    have hholds := h.offered hlegal hk hquiet
    exact ⟨stalls (.inr (.inl hholds.state)), hholds.offers⟩
  · intro hlegal hwrite a ha
    have hstate := h.accepted hlegal ha
    rw [hwrite] at hstate
    exact okay hstate
  · intro hlegal hread a ha k hk hquiet
    exact wait_outputs (h.waiting hlegal hread ha hk hquiet)
  · intro hlegal hread a ha c hc
    have hstate := h.waiting hlegal hread ha hc.bound hc.quiet
    obtain ⟨hgood, hbad⟩ := completed hstate hc.happens
    refine ⟨fun h0 => ?_, fun hne => errorFrom (hbad hne)⟩
    obtain ⟨hresp, hdata⟩ := hgood h0
    exact ⟨(okay hresp).1, (okay hresp).2, hdata⟩

/-! ### Where requests and completions come from -/

/-- The transfer that the state of the bridge goes back to. -/
def Origin (p : Params) (i : Nat → Inputs) (k : Nat) : Prop :=
  match (regs p i k).state with
  | .dphase => ∃ n, k = n + 1 ∧ Captures p i n
  | .issue => ∃ n, Offering p i n k
  | .wait => ∃ n a, Awaiting p i n a k
  | _ => True

theorem origin_idle (h : (regs p i k).state = .idle ∨ (regs p i k).state = .resp) :
    Origin p i (k + 1) := by
  by_cases hphase : (i k).addressPhase = true
  · have hcaptures : Captures p i k := ⟨h, hphase⟩
    rw [Origin, hcaptures.dataPhase.1]
    exact ⟨k, rfl, hcaptures⟩
  · have hstate : (regs p i (k + 1)).state = .idle := by
      rcases h with h | h
      · rw [regs_succ, Regs.step, h]
        dsimp only
        rw [if_neg hphase, h]
      · rw [regs_succ, Regs.step, h]
        dsimp only
        rw [if_neg hphase]
    rw [Origin, hstate]
    exact trivial

theorem origin_check (h : Captures p i n) : Origin p i (n + 2) := by
  by_cases hrefused : (i n).transfer.Refused p
  · rw [Origin, h.refused hrefused]
    exact trivial
  · rw [Origin, (h.admitted hrefused).state]
    exact ⟨n, h, hrefused, Nat.le_refl _, .empty _ _⟩

theorem origin_offering (h : Offering p i n k) : Origin p i (k + 1) := by
  by_cases hready : accepts i k = true
  · have hfirst : First (accepts i) (n + 2) k := ⟨h.later, h.quiet, hready⟩
    have hstate := h.captured.accepted h.admitted hfirst
    by_cases hwrite : (i n).hwrite = true
    · rw [if_pos hwrite] at hstate
      rw [Origin, hstate]
      exact trivial
    · rw [if_neg hwrite] at hstate
      rw [Origin, hstate]
      exact ⟨n, k, h.captured, h.admitted, by simpa using hwrite, hfirst, Nat.le_refl _,
        .empty _ _⟩
  · have hquiet := h.quiet.snoc (by simpa using hready)
    have hlater : n + 2 ≤ k + 1 := Nat.le_succ_of_le h.later
    rw [Origin, (h.captured.offered h.admitted hlater hquiet).state]
    exact ⟨n, h.captured, h.admitted, hlater, hquiet⟩

theorem origin_awaiting {a : Nat} (h : Awaiting p i n a k) : Origin p i (k + 1) := by
  by_cases hvalid : completes i k = true
  · have hstate := h.captured.waiting h.admitted h.read h.accepted h.later h.quiet
    obtain ⟨hgood, hbad⟩ := completed hstate hvalid
    by_cases h0 : (i k).memCplStatus = 0
    · rw [Origin, (hgood h0).1]
      exact trivial
    · rw [Origin, hbad h0]
      exact trivial
  · have hquiet := h.quiet.snoc (by simpa using hvalid)
    have hlater : a + 1 ≤ k + 1 := Nat.le_succ_of_le h.later
    rw [Origin, h.captured.waiting h.admitted h.read h.accepted hlater hquiet]
    exact ⟨n, a, h.captured, h.admitted, h.read, h.accepted, hlater, hquiet⟩

theorem origin (k : Nat) : Origin p i k := by
  induction k with
  | zero => exact trivial
  | succ k ih =>
    rw [Origin] at ih
    cases hstate : (regs p i k).state <;> simp only [hstate] at ih
    case idle => exact origin_idle (.inl hstate)
    case resp => exact origin_idle (.inr hstate)
    case dphase =>
      obtain ⟨n, rfl, hcaptures⟩ := ih
      exact origin_check hcaptures
    case issue =>
      obtain ⟨n, hoffering⟩ := ih
      exact origin_offering hoffering
    case wait =>
      obtain ⟨n, a, hawaiting⟩ := ih
      exact origin_awaiting hawaiting
    case err1 =>
      have hnext : (regs p i (k + 1)).state = .err2 := by rw [regs_succ, Regs.step, hstate]
      rw [Origin, hnext]
      exact trivial
    case err2 =>
      have hnext : (regs p i (k + 1)).state = .idle := by rw [regs_succ, Regs.step, hstate]
      rw [Origin, hnext]
      exact trivial
    case unused =>
      have hnext : (regs p i (k + 1)).state = .idle := by rw [regs_succ, Regs.step, hstate]
      rw [Origin, hnext]
      exact trivial

/-- Whatever the bus and the backend do, every transfer that the bridge captures is handled as it
should be, every request offered is that of a captured transfer, and completions are accepted only
while a captured read whose request has been accepted waits for one. -/
theorem transfers_handled (p : Params) (i : Nat → Inputs) :
    (∀ n, Captures p i n → Handled p i n) ∧
    (∀ k, (regs p i k).memReqValid = true → ∃ n, Offering p i n k) ∧
    ∀ k, (regs p i k).memCplReady = true → ∃ n a, Awaiting p i n a k := by
  refine ⟨fun n h => h.handled, fun k hvalid => ?_, fun k hready => ?_⟩
  · have hstate : (regs p i k).state = .issue := by simpa [Regs.memReqValid] using hvalid
    have horigin := origin (p := p) (i := i) k
    rw [Origin, hstate] at horigin
    exact horigin
  · have hstate : (regs p i k).state = .wait := by simpa [Regs.memCplReady] using hready
    have horigin := origin (p := p) (i := i) k
    rw [Origin, hstate] at horigin
    exact horigin

end Stages

end CortexLabs.Pcie.MmioBridge
