import CortexLabs.Pcie.HostMonitor

/-! What every run of the bridge from reset keeps to, and where it does not report an error. -/

namespace CortexLabs.Pcie.HostBridge

open Device

/-- In every cycle of every run: `busy` is the state of the machine, and excludes `done`; a request
on the port does not change until it is accepted; the requests accepted are the doorbells that the
bus has rung, in order, but for the one that is waiting; the data register changes to the data of a
read that has succeeded and otherwise not at all; and only a completion or a bad command raises
`done`. -/
theorem csr_safety (i : Nat → Inputs) (n : Nat) :
    ((regs i n).busy = true ↔ (regs i n).state = .issue ∨ (regs i n).state = .waitCpl) ∧
    ¬((regs i n).busy = true ∧ (regs i n).done = true) ∧
    ((regs i n).reqValid = true → (i n).reqReady = false →
      (regs i (n + 1)).reqValid = true ∧ (regs i (n + 1)).request = (regs i n).request) ∧
    rung i n =
      handshakes i n ++ (if (regs i n).reqValid then [(regs i n).request] else []) ∧
    ((regs i (n + 1)).cfgRdata ≠ (regs i n).cfgRdata →
      (regs i (n + 1)).cfgRdata = (i n).cplRdata ∧ completes (regs i n) (i n) = true ∧
      (i n).cplStatus = 0 ∧ ∃ before q, handshakes i n = before ++ [q] ∧ q.type = reqCfgRead) ∧
    ((regs i n).done = false → (regs i (n + 1)).done = true →
      completes (regs i n) (i n) = true ∨ (monitor i n).refuses (i n) = true) := by
  have hsound := sound_run (i := i) n
  refine ⟨hsound.busy, fun ⟨hbusy, hdone⟩ => ?_, request_held hsound, ?_, fun hchanged => ?_,
    fun h h' => ?_⟩
  · exact absurd ((hsound.done hbusy).symm.trans hdone) nofun
  · rw [rung_eq, queue_run]
    simp only [Core.waiting, Regs.reqValid, decide_eq_true_eq]
    rfl
  · rw [regs_succ, cfgRdata_step] at hchanged ⊢
    split at hchanged
    · next hread =>
      rw [if_pos hread]
      obtain ⟨hcompletes, hstatus, htype⟩ := hread
      obtain ⟨before, hbefore⟩ := waitCpl_run (completes_iff.mp hcompletes).1
      exact ⟨rfl, hcompletes, hstatus, before, _, hbefore, htype⟩
    · exact absurd rfl hchanged
  · rw [← (tracks_run n).refuses]
    exact done_step h h'

/-! ### CONTROL.ENABLE -/

/-- `ERR_DISABLED`, which no assignment of the bridge uses. -/
abbrev errDisabled : Word := 1

/-- Requests are launched only by doorbells that find the bridge enabled, and the others are
reported. -/
structure HonoursEnable (i : Nat → Inputs) : Prop where
  asserted : ∀ n, (regs i n).reqValid = true → ∃ m < n,
    (monitor i m).doorbell (i m) = [(regs i n).request] ∧ (monitor i m).enabled = true ∧
      ∀ k, m < k → k ≤ n → (regs i k).reqValid = true
  refused : ∀ n, (monitor i n).rings (i n) = true → (monitor i n).enabled = false →
    ((regs i n).reqValid = false → (regs i (n + 1)).reqValid = false) ∧
      (regs i (n + 1)).errorStatus &&& errDisabled ≠ 0

section Enable

variable {i : Nat → Inputs}

theorem next_errorStatus (c : Core) (i : Inputs) :
    (c.next i).errorStatus = c.errorStatus ∨ (c.next i).errorStatus = errBackend ∨
      (c.next i).errorStatus = 0 := by
  unfold Core.next
  cases c.state with
  | idle | unused => exact .inl rfl
  | issue => dsimp only; split <;> exact .inl rfl
  | waitCpl =>
    dsimp only
    split
    · split_ifs <;> simp
    · exact .inl rfl

/-- Nothing sets the bit that reports a disabled bridge. -/
theorem errDisabled_run (n : Nat) : (regs i n).errorStatus &&& errDisabled = 0 := by
  induction n with
  | zero => exact BitVec.zero_and
  | succ n ih =>
    have hnext : ((regs i n).core.next (i n)).errorStatus &&& errDisabled = 0 := by
      rcases next_errorStatus (regs i n).core (i n) with h | h | h
      · rw [h]
        exact ih
      · rw [h]
        decide
      · rw [h]
        exact BitVec.zero_and
    have hor : ∀ e : Word, e &&& errDisabled = 0 →
        ((regs i n).errorStatus ||| e) &&& errDisabled = 0 := by
      intro e he
      rw [BitVec.and_comm, BitVec.and_or_distrib_left, BitVec.and_comm _ e, he,
        BitVec.and_comm errDisabled, ih, BitVec.or_self]
    have hc := cycle (regs i n) (i n)
    rw [regs_succ]
    change ((regs i n).step (i n)).core.errorStatus &&& errDisabled = 0
    generalize ((regs i n).step (i n)).core = c at hc ⊢
    cases hc with
    | accepted _ _ _ => exact BitVec.zero_and
    | badCommand _ _ _ _ =>
      show errBadCommand &&& errDisabled = 0
      decide
    | rejected _ _ => exact hor errBusy (by decide)
    | badAccess _ => exact hor errBadAccess (by decide)
    | quiet _ _ => exact hnext

/-- A request on the port is that of the doorbell since which one has been there. -/
theorem reqValid_run {n : Nat} (h : (regs i n).reqValid = true) : ∃ m < n,
    (monitor i m).doorbell (i m) = [(regs i n).request] ∧
      ∀ k, m < k → k ≤ n → (regs i k).reqValid = true := by
  induction n with
  | zero => cases h
  | succ n ih =>
    have hqueue := queue_step (sound_run (i := i) n) (i := i n)
    have hto : ((regs i n).step (i n)).core.waiting = [(regs i (n + 1)).request] :=
      if_pos (of_decide_eq_true h)
    rw [hto, handshake, (tracks_run n).doorbell] at hqueue
    cases hvalid : (regs i n).reqValid with
    | false =>
      have hfrom : (regs i n).core.waiting = [] := if_neg (of_decide_eq_false hvalid)
      rw [hvalid, hfrom] at hqueue
      refine ⟨n, Nat.lt_succ_self n, hqueue.symm, fun k hk hkn => ?_⟩
      rw [Nat.le_antisymm hkn hk]
      exact h
    | true =>
      have hstate : (regs i n).state = .issue := of_decide_eq_true hvalid
      have hfrom : (regs i n).core.waiting = [(regs i n).request] := if_pos hstate
      have hnone : (monitor i n).doorbell (i n) = [] := by
        rw [← (tracks_run n).doorbell]
        simp [doorbell, hstate]
      have hready : (i n).reqReady = false := by
        by_contra hready
        have hready : (i n).reqReady = true := by simpa using hready
        simp [hvalid, hfrom, hnone, hready] at hqueue
      obtain ⟨m, hm, hdoorbell, hsince⟩ := ih hvalid
      obtain ⟨-, hrequest⟩ := request_held (sound_run n) hvalid hready
      refine ⟨m, Nat.lt_succ_of_lt hm, ?_, fun k hk hkn => ?_⟩
      · rw [hdoorbell, regs_succ, hrequest]
      · rcases Nat.le_succ_iff.mp hkn with hle | rfl
        · exact hsince k hk hle
        · exact h

/-- The bridge honours CONTROL.ENABLE in exactly the runs in which no doorbell is written while it
is 0. -/
theorem honoursEnable_iff (i : Nat → Inputs) : HonoursEnable i ↔
    ∀ n, (monitor i n).rings (i n) = true → (monitor i n).enabled = true := by
  constructor
  · intro h n hrings
    by_contra henabled
    exact (h.refused n hrings (by simpa using henabled)).2 (errDisabled_run (n + 1))
  · intro h
    refine ⟨fun n hvalid => ?_, fun n hrings henabled => ?_⟩
    · obtain ⟨m, hm, hdoorbell, hsince⟩ := reqValid_run hvalid
      refine ⟨m, hm, hdoorbell, h m ?_, hsince⟩
      by_contra hrings
      simp [Monitor.doorbell, hrings] at hdoorbell
    · exact absurd ((h n hrings).symm.trans henabled) Bool.false_ne_true.symm

end Enable

/-- The address cycle of a word write, and a data cycle, over a backend that does nothing. -/
def writeAddress (addr : Word) : Inputs :=
  ⟨true, addr, 0b10, true, 0b010, 0, true, false, false, 0, 0⟩

def writeData (value : Word) : Inputs :=
  ⟨false, 0, 0, false, 0, value, true, false, false, 0, 0⟩

/-- From reset, `CFG_READ` is written to `CFG_COMMAND`, and nothing else. -/
def disabledDoorbell : Nat → Inputs
  | 0 => writeAddress 0x20
  | _ => writeData cmdCfgRead

/-- The request of that doorbell is on the port, although the bridge was never enabled. -/
theorem disabled_launches : ¬HonoursEnable disabledDoorbell := by
  intro h
  obtain ⟨m, hm, -, henabled, -⟩ := h.asserted 2 (by decide)
  have hnever : ∀ m < 2, (monitor disabledDoorbell m).enabled = false := by decide
  exact absurd ((hnever m hm).symm.trans henabled) nofun

/-! ### Errors -/

/-- What a cycle reports, with its bit of ERROR_STATUS: a doorbell that is rejected while a request
is outstanding, a bad access, or a failure of the backend. -/
inductive Reports (m : Monitor) (r : Regs) (i : Inputs) : Word → Prop
  | busy : m.writes regCfgCommand = true → m.outstanding = true → Reports m r i errBusy
  | badAccess : m.badAccess = true → Reports m r i errBadAccess
  | backend : completes r i = true → i.cplStatus ≠ 0 → Reports m r i errBackend

/-- An accepted doorbell or a bad command replaces ERROR_STATUS. -/
def Monitor.replaces (m : Monitor) (i : Inputs) : Prop := m.doorbell i ≠ [] ∨ m.refuses i = true

/-- Every error that is reported stays in ERROR_STATUS until it is replaced. -/
def LosesNoError (i : Nat → Inputs) : Prop :=
  ∀ n bit, Reports (monitor i n) (regs i n) (i n) bit → ∀ m, n < m →
    (∀ k, n < k → k < m → ¬(monitor i k).replaces (i k)) → (regs i m).errorStatus &&& bit = bit

/-- A write in its data phase is an error of the bus master. -/
def Monitor.writeError (m : Monitor) : Bool :=
  (m.writes regCfgCommand && m.outstanding) || m.badAccess

/-- A completion finds no error that it would drop, and is not dropped itself: it succeeds if a
write error falls into its cycle, and otherwise finds ERROR_STATUS zero. -/
def KeepsErrors (m : Monitor) (r : Regs) (i : Inputs) : Prop :=
  completes r i = true → if m.writeError then i.cplStatus = 0 else r.errorStatus = 0

section Errors

variable {i : Nat → Inputs}

/-- One cycle's ERROR_STATUS: a write error adds its bit to what was there, and otherwise a
completion replaces it. -/
theorem errorStatus_step {m : Monitor} {r : Regs} {i : Inputs} (ht : m.Tracks r)
    (hsound : r.core.Sound) (h : ¬m.replaces i) :
    (m.writes regCfgCommand = true ∧ m.outstanding = true ∧
      (r.step i).errorStatus = r.errorStatus ||| errBusy) ∨
    (m.badAccess = true ∧ (r.step i).errorStatus = r.errorStatus ||| errBadAccess) ∨
    (m.writeError = false ∧ (r.step i).errorStatus = (r.core.next i).errorStatus) := by
  rw [Monitor.replaces, ← ht.doorbell, ← ht.refuses] at h
  rw [ht.outstanding_iff, Monitor.writeError, ← ht.writes, ← ht.badAccess]
  have hc := cycle r i
  change (_ ∧ _ ∧ (r.step i).core.errorStatus = _) ∨ (_ ∧ (r.step i).core.errorStatus = _) ∨
    (_ ∧ (r.step i).core.errorStatus = _)
  generalize (r.step i).core = c at hc ⊢
  cases hc with
  | accepted hrings hidle _ =>
    refine absurd (.inl ?_) h
    simp [doorbell, hrings, hidle]
  | badCommand hw hrings hidle _ =>
    refine absurd (.inr ?_) h
    rw [refuses, hw, hrings, hidle]
    rfl
  | rejected hw hbusy => exact .inl ⟨hw, hsound.of_busy hbusy, rfl⟩
  | badAccess hbad => exact .inr (.inl ⟨hbad, rfl⟩)
  | quiet hw hbad => exact .inr (.inr ⟨by rw [hw, hbad]; rfl, rfl⟩)

theorem errorStatus_quiet {m : Monitor} {r : Regs} {i : Inputs} (ht : m.Tracks r)
    (hsound : r.core.Sound) (h : ¬m.replaces i) (hnone : m.writeError = false) :
    (r.step i).errorStatus = (r.core.next i).errorStatus := by
  simp only [Monitor.writeError, Bool.or_eq_false_iff, Bool.and_eq_false_iff] at hnone
  rcases errorStatus_step ht hsound h with ⟨hw, hout, -⟩ | ⟨hbad, -⟩ | ⟨-, hs⟩
  · rcases hnone.1 with h | h
    · exact absurd (h.symm.trans hw) nofun
    · exact absurd (h.symm.trans hout) nofun
  · exact absurd (hnone.2.symm.trans hbad) nofun
  · exact hs

theorem or_and_left {a b : Word} (h : a &&& b = b) (c : Word) : (a ||| c) &&& b = b := by
  rw [BitVec.and_comm, BitVec.and_or_distrib_left, BitVec.and_comm b a, h]
  ext k
  rw [BitVec.getElem_or, BitVec.getElem_and]
  cases b[k] <;> rfl

/-- An error that is in ERROR_STATUS stays there over a cycle that keeps errors. -/
theorem errorStatus_stays {m : Monitor} {r : Regs} {i : Inputs} {bit : Word} (ht : m.Tracks r)
    (hsound : r.core.Sound) (hkeeps : KeepsErrors m r i) (h : ¬m.replaces i)
    (hbit : r.errorStatus &&& bit = bit) (hne : bit ≠ 0) :
    (r.step i).errorStatus &&& bit = bit := by
  rcases errorStatus_step ht hsound h with ⟨-, -, hs⟩ | ⟨-, hs⟩ | ⟨hnone, hs⟩
  · rw [hs]
    exact or_and_left hbit _
  · rw [hs]
    exact or_and_left hbit _
  · rw [hs]
    cases hcompletes : completes r i with
    | false => rw [(next_incomplete hcompletes).2.2, hbit]
    | true =>
      have hzero := hkeeps hcompletes
      rw [hnone, if_neg nofun] at hzero
      rw [hzero] at hbit
      exact absurd (hbit.symm.trans BitVec.zero_and) hne

theorem not_replaces_of_outstanding {m : Monitor} {i : Inputs} (h : m.outstanding = true) :
    ¬m.replaces i := by
  rintro (hdoorbell | hrefuses)
  · simp [Monitor.doorbell, h] at hdoorbell
  · simp [Monitor.refuses, h] at hrefuses

theorem not_replaces_of_writes {m : Monitor} {i : Inputs} (h : m.writes regCfgCommand = false) :
    ¬m.replaces i := by
  rintro (hdoorbell | hrefuses)
  · rw [Monitor.doorbell, Monitor.rings, h] at hdoorbell
    exact hdoorbell rfl
  · rw [Monitor.refuses, h] at hrefuses
    cases hrefuses

theorem and_of_or (a b : Word) : (a ||| b) &&& b = b := by
  ext k
  rw [BitVec.getElem_and, BitVec.getElem_or]
  cases a[k] <;> cases b[k] <;> rfl

/-- An error is in ERROR_STATUS after the cycle that reports it, if that cycle keeps errors. -/
theorem errorStatus_reported {m : Monitor} {r : Regs} {i : Inputs} {bit : Word} (ht : m.Tracks r)
    (hsound : r.core.Sound) (hkeeps : KeepsErrors m r i) (h : Reports m r i bit) :
    (r.step i).errorStatus &&& bit = bit ∧ bit ≠ 0 := by
  cases h with
  | busy hw hout =>
    refine ⟨?_, by decide⟩
    rcases errorStatus_step ht hsound (not_replaces_of_outstanding hout) with ⟨-, -, hs⟩ |
      ⟨hbad, -⟩ | ⟨hnone, -⟩
    · rw [hs]
      exact and_of_or _ _
    · rw [← ht.badAccess] at hbad
      rw [← ht.writes] at hw
      exact absurd ((writes_of_badAccess hbad).symm.trans hw) nofun
    · rw [Monitor.writeError, hw, hout] at hnone
      cases hnone
  | badAccess hbad =>
    refine ⟨?_, by decide⟩
    have hw : m.writes regCfgCommand = false := by
      rw [← ht.badAccess] at hbad
      rw [← ht.writes]
      exact writes_of_badAccess hbad
    rcases errorStatus_step ht hsound (not_replaces_of_writes hw) with ⟨hw', -, -⟩ | ⟨-, hs⟩ |
      ⟨hnone, -⟩
    · exact absurd (hw.symm.trans hw') nofun
    · rw [hs]
      exact and_of_or _ _
    · rw [Monitor.writeError, hbad, Bool.or_true] at hnone
      cases hnone
  | backend hcompletes hstatus =>
    refine ⟨?_, by decide⟩
    have hnone : m.writeError = false := by
      by_contra herror
      have hzero := hkeeps hcompletes
      rw [if_pos (by simpa using herror)] at hzero
      exact hstatus hzero
    have hout : m.outstanding = true :=
      ht.outstanding_iff.mpr (by simp [(completes_iff.mp hcompletes).1])
    rw [errorStatus_quiet ht hsound (not_replaces_of_outstanding hout) hnone,
      (next_completes hcompletes).2.2, if_pos hstatus]
    decide

/-- How a request has come to be outstanding: its doorbell cleared ERROR_STATUS, and every cycle
since has left it as it was but for the write error that it reports. -/
theorem outstanding_step {m : Monitor} {r : Regs} {i : Inputs} (ht : m.Tracks r)
    (hsound : r.core.Sound) (h : (r.step i).state ≠ .idle) : (r.step i).errorStatus = 0 ∨
      r.state ≠ .idle ∧ ((r.step i).errorStatus = r.errorStatus ∨
        ∃ bit, Reports m r i bit ∧ (bit = errBusy ∨ bit = errBadAccess) ∧
          (r.step i).errorStatus = r.errorStatus ||| bit) := by
  have hfrom : (r.core.next i).state ≠ .idle → r.state ≠ .idle := by
    intro hnext hidle
    simp [Core.next, Regs.core, hidle] at hnext
  have hc := cycle r i
  change (r.step i).core.state ≠ _ at h
  show (r.step i).core.errorStatus = 0 ∨ _ ∧ ((r.step i).core.errorStatus = _ ∨
    ∃ bit, _ ∧ _ ∧ (r.step i).core.errorStatus = _)
  generalize (r.step i).core = c at hc h ⊢
  cases hc with
  | accepted _ _ _ => exact .inl rfl
  | badCommand _ _ hidle _ => exact absurd hidle h
  | rejected hw hbusy =>
    rw [ht.writes] at hw
    have hout := ht.outstanding_iff.mpr (hsound.of_busy hbusy)
    exact .inr ⟨hfrom h, .inr ⟨_, .busy hw hout, .inl rfl, rfl⟩⟩
  | badAccess hbad =>
    rw [ht.badAccess] at hbad
    exact .inr ⟨hfrom h, .inr ⟨_, .badAccess hbad, .inr rfl, rfl⟩⟩
  | quiet _ _ =>
    have hcompletes : completes r i = false := by
      by_contra hcompletes
      have hcompletes : completes r i = true := by simpa using hcompletes
      obtain ⟨hwait, hvalid⟩ := completes_iff.mp hcompletes
      simp [Core.next, Regs.core, hwait, hvalid] at h
    exact .inr ⟨hfrom h, .inl (next_incomplete hcompletes).2.2⟩

/-- No failure of the backend is reported while a request is outstanding. -/
theorem errBackend_outstanding {n : Nat} (h : (regs i n).state ≠ .idle) :
    (regs i n).errorStatus &&& errBackend = 0 := by
  induction n with
  | zero => exact absurd rfl h
  | succ n ih =>
    rw [regs_succ] at h ⊢
    have hstep := outstanding_step (tracks_run n) (sound_run n) h
    rcases hstep with hs | ⟨hfrom, hs | ⟨bit, -, hkind, hs⟩⟩
    · rw [hs]
      exact BitVec.zero_and
    · rw [hs]
      exact ih hfrom
    · have hbit : bit &&& errBackend = 0 := by rcases hkind with rfl | rfl <;> decide
      rw [hs, BitVec.and_comm, BitVec.and_or_distrib_left, BitVec.and_comm _ bit, hbit,
        BitVec.and_comm errBackend]
      show (regs i n).errorStatus &&& errBackend ||| 0 = 0
      rw [ih hfrom, BitVec.or_self]

/-- While a request is outstanding, ERROR_STATUS holds only what has been reported since its
doorbell. -/
theorem errorStatus_outstanding {n : Nat} (hstate : (regs i n).state ≠ .idle)
    (herror : (regs i n).errorStatus ≠ 0) : ∃ k < n, ∃ bit,
      Reports (monitor i k) (regs i k) (i k) bit ∧ (bit = errBusy ∨ bit = errBadAccess) ∧
      ∀ l, k < l → l < n → ¬(monitor i l).replaces (i l) := by
  induction n with
  | zero => exact absurd rfl hstate
  | succ n ih =>
    rw [regs_succ] at hstate herror
    rcases outstanding_step (tracks_run n) (sound_run n) hstate with hs |
      ⟨hfrom, hs | ⟨bit, hbit, hkind, -⟩⟩
    · exact absurd hs herror
    · rw [hs] at herror
      obtain ⟨k, hk, bit, hreports, hkind, hsince⟩ := ih hfrom herror
      refine ⟨k, Nat.lt_succ_of_lt hk, bit, hreports, hkind, fun l hl hln => ?_⟩
      rcases Nat.lt_succ_iff_lt_or_eq.mp hln with hlt | rfl
      · exact hsince l hl hlt
      · exact not_replaces_of_outstanding ((tracks_run l).outstanding_iff.mpr hfrom)
    · exact ⟨n, Nat.lt_succ_self n, bit, hbit, hkind, fun l hl hln => by omega⟩

/-- The bridge loses no error in exactly the runs in which every completion keeps errors. -/
theorem losesNoError_iff (i : Nat → Inputs) :
    LosesNoError i ↔ ∀ n, KeepsErrors (monitor i n) (regs i n) (i n) := by
  constructor
  · intro h n hcompletes
    have hstate : (regs i n).state ≠ .idle := by simp [(completes_iff.mp hcompletes).1]
    have ht := tracks_run (i := i) n
    have hkept : ¬(monitor i n).replaces (i n) :=
      not_replaces_of_outstanding (ht.outstanding_iff.mpr hstate)
    split
    · next herror =>
      by_contra hstatus
      have hlost := h n errBackend (.backend hcompletes hstatus) (n + 1) (Nat.lt_succ_self n)
        fun k hk hkn => by omega
      have hnew : ∀ e : Word, e &&& errBackend = 0 →
          ((regs i n).errorStatus ||| e) &&& errBackend ≠ errBackend := by
        intro e he
        rw [BitVec.and_comm, BitVec.and_or_distrib_left, BitVec.and_comm _ e, he,
          BitVec.and_comm errBackend, errBackend_outstanding hstate]
        decide
      rw [regs_succ] at hlost
      rcases errorStatus_step ht (sound_run n) hkept with ⟨-, -, hs⟩ | ⟨-, hs⟩ | ⟨hnone, -⟩
      · rw [hs] at hlost
        exact hnew _ (by decide) hlost
      · rw [hs] at hlost
        exact hnew _ (by decide) hlost
      · exact absurd (hnone.symm.trans herror) nofun
    · next herror =>
      by_contra hold
      obtain ⟨k, hk, bit, hreports, hkind, hsince⟩ := errorStatus_outstanding hstate hold
      have hlost := h k bit hreports (n + 1) (by omega) fun l hl hln => by
        rcases Nat.lt_succ_iff_lt_or_eq.mp hln with hlt | rfl
        · exact hsince l hl hlt
        · exact hkept
      rw [regs_succ, errorStatus_quiet ht (sound_run n) hkept (by simpa using herror),
        (next_completes hcompletes).2.2] at hlost
      rcases hkind with rfl | rfl
      · split at hlost <;> exact absurd hlost (by decide)
      · split at hlost <;> exact absurd hlost (by decide)
  · intro h n bit hreports m hm hsince
    obtain ⟨hbit, hne⟩ := errorStatus_reported (tracks_run n) (sound_run n) (h n) hreports
    obtain ⟨d, rfl⟩ := Nat.exists_eq_add_of_lt hm
    clear hm
    induction d with
    | zero => exact hbit
    | succ d ih =>
      have hprev := ih fun k hk hkm => hsince k hk (by omega)
      exact errorStatus_stays (tracks_run _) (sound_run _) (h _) (hsince _ (by omega) (by omega))
        hprev hne

end Errors

/-- From reset, a doorbell; the backend accepts its request while a write to the read-only
CFG_RDATA is in its address cycle, and fails it in the data cycle of that write. -/
def failureOverwritten : Nat → Inputs
  | 0 => writeAddress 0x20
  | 1 => writeData cmdCfgRead
  | 2 => { writeAddress 0x1c with reqReady := true }
  | 3 => { writeData 0 with cplValid := true, cplStatus := 1 }
  | _ => writeData 0

/-- ERROR_STATUS does not report the failure. -/
theorem failure_lost : ¬LosesNoError failureOverwritten := by
  intro h
  have hreports : Reports (monitor failureOverwritten 3) (regs failureOverwritten 3)
      (failureOverwritten 3) errBackend := .backend (by decide) (by decide)
  have hlost := h 3 errBackend hreports 4 (by decide) fun k hk hk4 => by omega
  exact absurd hlost (by decide)

end CortexLabs.Pcie.HostBridge
