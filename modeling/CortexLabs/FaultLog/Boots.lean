import CortexLabs.Device.Footprint
import CortexLabs.FaultLog.Usable
import CortexLabs.FaultLog.Crash
import Mathlib.Data.List.Induction

/-! The program over the logger, boot after boot.  Each boot recovers what the ones before it have
published, appends one fault code and recovers again; power may fail at any of its operations, and
any of them may fail, and the boots after it go on from what it left. -/

namespace CortexLabs.FaultLog

open Device Errno

/-! ### The program -/

inductive Lab24Stage where
  | reset
  | init
  | readInitial
  | append
  | recover
  | verify
  | done
  | error
  deriving DecidableEq

/-- `NOT_RUN` -/
abbrev notRun : Int := -999

/-- `g_lab24_stage` and the other variables that a debugger sees. -/
structure Lab24Debug where
  stage : Lab24Stage
  failedStage : Lab24Stage
  initRc : Int
  initialLatestRc : Int
  appendRc : Int
  recoverRc : Int
  latestRc : Int
  compareRc : Int
  initialSequence : Word
  committedSequence : Word
  initialSlot : Nat
  committedSlot : Nat
  initialFaultCode : Word
  latestFaultCode : Word
  attemptedFaultCode : Word
  eepromSize : Nat

def Lab24Debug.reset : Lab24Debug where
  stage := .reset
  failedStage := .reset
  initRc := notRun
  initialLatestRc := notRun
  appendRc := notRun
  recoverRc := notRun
  latestRc := notRun
  compareRc := notRun
  initialSequence := 0
  committedSequence := 0
  initialSlot := noSlot
  committedSlot := noSlot
  initialFaultCode := 0
  latestFaultCode := 0
  attemptedFaultCode := 0
  eepromSize := 0

/-- `fail_lab` -/
def Lab24Debug.failed (g : Lab24Debug) : Lab24Debug :=
  { g with failedStage := g.stage, stage := .error }

/-- A context in `.bss`. -/
def Context.zero : Context := ⟨none, 0, 0, false⟩

/-- `main`'s `expected_sequence`. -/
def expectedSequence (initialSlot : Nat) (initialSequence : Word) : Word :=
  if initialSlot = noSlot then 1 else initialSequence + 1

/-- `main`'s `expected_slot`. -/
def expectedSlot (initialSlot : Nat) : Nat :=
  if initialSlot = noSlot then 0 else (initialSlot + 1) % slotCount

/-- `main`'s comparison of what it has read back with what it has appended. -/
def Lab24Debug.compared (g : Lab24Debug) : Int :=
  if g.latestFaultCode = g.attemptedFaultCode ∧
      g.committedSequence = expectedSequence g.initialSlot g.initialSequence ∧
      g.committedSlot = expectedSlot g.initialSlot then 0
  else -eio

/-- `main` from the second initialization on. -/
def lab24Verify (dev : Dev) (value : Word) (g : Lab24Debug) : EepromProgram Lab24Debug := do
  let g := { g with stage := .recover }
  let (rc, recoveredLog) ← faultLogInit (some .zero) (some dev)
  let g := { g with recoverRc := rc }
  if rc ≠ 0 then return g.failed
  let g := { g with stage := .verify }
  let (rc, recoveredLog, value) ← faultLogLatest recoveredLog (some value)
  let g := { g with latestRc := rc }
  if rc ≠ 0 then return g.failed
  let recoveredLog := recoveredLog.getD .zero
  let g := { g with
    latestFaultCode := value.getD 0
    committedSequence := recoveredLog.sequence
    committedSlot := recoveredLog.newestSlot }
  let rc : Int := g.compared
  let g := { g with compareRc := rc }
  if rc ≠ 0 then return g.failed
  return { g with stage := .done }

/-- `main` from the append on. -/
def lab24Append (dev : Dev) (log : Option Context) (faultToAppend value : Word)
    (g : Lab24Debug) : EepromProgram Lab24Debug := do
  let g := { g with stage := .append, attemptedFaultCode := faultToAppend }
  let (rc, _) ← faultLogAppend log faultToAppend
  let g := { g with appendRc := rc }
  if rc ≠ 0 then return g.failed
  lab24Verify dev value g

/-- `main`, with the device and `g_fault_to_append`.  Its pointer arguments are never NULL. -/
def lab24Main (dev : Dev) (faultToAppend : Word) : EepromProgram Lab24Debug := do
  let g := { Lab24Debug.reset with stage := .init }
  let (rc, log) ← faultLogInit (some .zero) (some dev)
  let g := { g with initRc := rc }
  if rc ≠ 0 then return g.failed
  let g := { g with
    eepromSize := dev.size
    initialSequence := (log.getD .zero).sequence
    initialSlot := (log.getD .zero).newestSlot
    stage := .readInitial }
  let (rc, log, value) ← faultLogLatest log (some 0)
  let g := { g with initialLatestRc := rc }
  if rc ≠ 0 ∧ rc ≠ -enoent then return g.failed
  let g := if rc = 0 then { g with initialFaultCode := value.getD 0 } else g
  lab24Append dev log faultToAppend (value.getD 0) g

/-! ### The calls over a ring -/

section Calls

variable {dev : Dev} {ps : List Publication} {m : Memory}

def Op.Reads : Op → Prop
  | .read _ _ => True
  | .write _ _ _ => False

theorem published_reads {t : List (Event eeprom)} (h : ∀ e ∈ t, e.op.Reads) : published t = [] := by
  induction t using List.reverseRecOn with
  | nil => rfl
  | append_singleton t e ih =>
    have ht := ih fun e' he' => h e' (List.mem_append_left _ he')
    have he := h e (List.mem_append_right _ (List.mem_singleton_self e))
    cases hop : e.op with
    | read offset len => rw [published_read hop, ht]
    | write offset len data =>
      rw [hop] at he
      exact he.elim

theorem published_append (t u : List (Event eeprom)) :
    published (t ++ u) = published t ++ published u := List.filterMap_append

theorem scanSlots_issues (slots : List Nat) (s : Scan) : (scanSlots slots s).Issues Op.Reads := by
  induction slots generalizing s with
  | nil => trivial
  | cons slot rest ih =>
    rw [scanSlots_cons]
    refine Program.issues_bind (Program.issues_issue trivial) fun x => ?_
    split
    · trivial
    · exact ih _

/-- The loop over the slots stops at an error. -/
theorem scanSlots_error (slots : List Nat) (s : Scan) (t : List (Event eeprom)) (m : Memory) :
    Safe eeprom (fun _ r _ => r ≠ .error 0) (fun _ _ => True) (scanSlots slots s) t m := by
  induction slots generalizing s t with
  | nil => exact nofun
  | cons slot rest ih =>
    rw [scanSlots_cons]
    refine safe_read (fun _ _ => trivial) fun e rc data _ hd => ?_
    split
    · next hrc => exact fun h => hrc (Except.error.inj h)
    · exact ih _ _

variable (hready : dev.ready = true) (hsize : logBytes ≤ dev.size)
include hready hsize

/-- An initialization finds what has been published, or fails. -/
theorem init_returns (h : Ring m ps) (log : Context) :
    Safe eeprom
      (fun t r m' => published t = [] ∧ m' = m ∧ (r.1 = 0 → r.2 = some (tracking dev ps)))
      (fun t m' => published t = [] ∧ m' = m) (faultLogInit (some log) (some dev)) [] m := by
  have hissues : (faultLogInit (some log) (some dev)).Issues Op.Reads := by
    rw [faultLogInit_eq hready hsize]
    refine Program.issues_bind (scanSlots_issues _ _) fun r => ?_
    cases r with
    | error rc => trivial
    | ok s =>
      rw [conclude]
      split <;> trivial
  have hinitialized : Safe eeprom (fun _ r _ => r.1 = 0 → ∀ log', r.2 = some log' →
      log'.initialized = true) (fun _ _ => True) (faultLogInit (some log) (some dev)) [] m := by
    rw [faultLogInit_eq hready hsize]
    refine Safe.bind ((scanSlots_error _ _ _ _).mono ?_ fun _ _ h => h)
    rintro _ (rc | s) _ hr
    · exact fun hrc => absurd (congrArg Except.error hrc) hr
    · rw [conclude]
      split
      · exact fun hrc => absurd hrc (by decide)
      · rintro - _ ⟨⟩
        rfl
  have hkind : Safe eeprom (fun t _ _ => ∀ e ∈ t, e.op.Reads) (fun t _ => ∀ e ∈ t, e.op.Reads)
      (faultLogInit (some log) (some dev)) [] m :=
    .issues hissues fun e he => absurd he List.not_mem_nil
  refine (((faultLogInit_safe hready hsize log [] m).and hinitialized).and hkind).mono ?_ ?_
  · rintro t r _ ⟨⟨⟨rfl, log', hlog, hrec⟩, hinit⟩, hreads⟩
    refine ⟨published_reads hreads, rfl, fun hrc => ?_⟩
    rw [hrec (hinit hrc log' hlog), recovered_ring h]
  · rintro t _ ⟨⟨rfl, -⟩, hreads⟩
    exact ⟨published_reads hreads, rfl⟩

omit hsize in
/-- A read of the latest record over a ring returns the code of the one published last, or fails. -/
theorem latest_returns (h : Ring m ps) (out : Word) :
    Safe eeprom
      (fun t r m' => published t = [] ∧ m' = m ∧ r.2.1 = some (tracking dev ps) ∧
        (r.1 = 0 → ∃ p ∈ ps.getLast?, r.2.2 = some p.code))
      (fun t m' => published t = [] ∧ m' = m)
      (faultLogLatest (some (tracking dev ps)) (some out)) [] m := by
  rw [faultLogLatest]
  simp only [usable_tracking hready, ne_eq, not_true_eq_false, if_false]
  by_cases hne : ps = []
  · subst hne
    have henoent : -enoent ≠ 0 := by decide
    exact ⟨rfl, rfl, rfl, fun hrc => absurd hrc henoent⟩
  obtain ⟨hleads, hvalid, hsequence, hcode⟩ := h.leads hne
  have hslot : (tracking dev ps).newestSlot = (ps.getLast hne).slot := by
    rw [List.getLast_eq_getElem hne, (h.placed _ _).1]
    exact if_neg hne
  have hlast : (ps.getLast hne).sequence = (tracking dev ps).sequence := by
    have hlen : ps.length - 1 + 1 = ps.length :=
      Nat.sub_add_cancel (List.length_pos_iff.mpr hne)
    rw [List.getLast_eq_getElem hne, (h.placed _ _).2, hlen]
    rfl
  have hbound : (ps.getLast hne).slot ≠ noSlot := by
    have := hleads.bound
    simp only [slotCount, noSlot] at *
    omega
  rw [hslot, if_neg hbound]
  refine safe_read (fun e he => ⟨published_read he, rfl⟩) fun e rc data he hd => ?_
  have hp : published ([] ++ [e]) = [] := published_read he
  dsimp only
  split
  · next hrc => exact ⟨hp, rfl, rfl, fun h0 => absurd h0 hrc⟩
  next hrc =>
  have hdata : data = slotOf m (ps.getLast hne).slot := hd (not_not.mp hrc)
  subst hdata
  have hkeeps : (!recordValid (slotOf m (ps.getLast hne).slot) ||
      loadLe32 (slice (slotOf m (ps.getLast hne).slot) 4 4 (by decide)) !=
        (tracking dev ps).sequence) = false := by
    have hv : recordValid (slotOf m (ps.getLast hne).slot) = true := hvalid
    have hs : loadLe32 (slice (slotOf m (ps.getLast hne).slot) 4 4 (by decide)) =
        (tracking dev ps).sequence := hsequence.trans hlast
    simp [hv, hs]
  rw [hkeeps]
  exact ⟨hp, rfl, rfl, fun _ => ⟨_, List.getLast?_eq_some_getLast hne, congrArg some hcode⟩⟩

omit hsize in
theorem append_returns (h : Ring m ps) (code : Word) :
    Safe eeprom (AppendReturns dev ps code) (Appended ps code)
      (faultLogAppend (some (tracking dev ps)) code) [] m := by
  rw [faultLogAppend_tracking hready]
  exact appendSteps_safe h

end Calls

/-! ### A boot -/

/-- What a boot shows a debugger of a part that held `ps`, and the operations `t` that it issued. -/
structure Outcome (dev : Dev) (ps : List Publication) (code : Word) (t : List (Event eeprom))
    (g : Lab24Debug) : Prop where
  initial : g.initRc = 0 → g.initialSequence = (tracking dev ps).sequence ∧
    g.initialSlot = (tracking dev ps).newestSlot
  latest : g.initialLatestRc = 0 → ∃ p ∈ ps.getLast?, g.initialFaultCode = p.code
  appended : g.appendRc = 0 → published t = [nextRecord ps code]
  verified : g.latestRc = 0 → g.stage = .done ∧ published t = [nextRecord ps code] ∧
    g.latestFaultCode = code ∧
    g.committedSequence = (tracking dev (ps ++ [nextRecord ps code])).sequence ∧
    g.committedSlot = (tracking dev (ps ++ [nextRecord ps code])).newestSlot
  failed : g.latestRc ≠ 0 → g.stage = .error ∧ g.compareRc = notRun

section Boot

variable {dev : Dev} {ps : List Publication} {code : Word} {m : Memory}

/-- The sequence number and the slot that `main` expects are those of the next record. -/
theorem expected_next (dev : Dev) (ps : List Publication) (code : Word) :
    expectedSequence (tracking dev ps).newestSlot (tracking dev ps).sequence =
      (tracking dev (ps ++ [nextRecord ps code])).sequence ∧
    expectedSlot (tracking dev ps).newestSlot =
      (tracking dev (ps ++ [nextRecord ps code])).newestSlot := by
  by_cases hne : ps = []
  · subst hne
    exact ⟨rfl, rfl⟩
  · have hlen : 0 < ps.length := List.length_pos_iff.mpr hne
    have hbound : (ps.length - 1) % slotCount ≠ noSlot := by
      simp only [slotCount, noSlot]
      omega
    simp only [tracking, if_neg hne, if_neg hbound, expectedSequence, expectedSlot,
      List.length_append, List.length_singleton, List.append_ne_nil_of_right_ne_nil, ne_eq,
      List.cons_ne_self, not_false_eq_true, if_false]
    refine ⟨(BitVec.ofNat_add ..).symm, ?_⟩
    simp only [slotCount]
    omega

theorem Appended.congr {t t' : List (Event eeprom)} (h : Appended ps code t m)
    (hp : published t' = published t) : Appended ps code t' m := by
  rw [Appended, hp]
  exact h

variable (hready : dev.ready = true) (hsize : logBytes ≤ dev.size)
include hready hsize

/-- The last part of a boot, after an append that returned 0. -/
theorem lab24Verify_returns {g : Lab24Debug} {t : List (Event eeprom)} (value : Word)
    (hA : Appended ps code t m) (hp : published t = [nextRecord ps code])
    (hinitial : g.initialSequence = (tracking dev ps).sequence ∧
      g.initialSlot = (tracking dev ps).newestSlot)
    (hlatest : g.initialLatestRc = 0 → ∃ p ∈ ps.getLast?, g.initialFaultCode = p.code)
    (hcode : g.attemptedFaultCode = code) (hrc : g.latestRc = notRun)
    (hcompare : g.compareRc = notRun) :
    Safe eeprom (fun t g' m' => Appended ps code t m' ∧ Outcome dev ps code t g')
      (Appended ps code) (lab24Verify dev value g) t m := by
  have hring : Ring m (ps ++ [nextRecord ps code]) := hp ▸ hA.2
  have hnotRun : notRun ≠ 0 := by decide
  rw [lab24Verify]
  refine Safe.call (init_returns hready hsize hring .zero) ?_ ?_
  · rintro u m' ⟨hu, rfl⟩
    exact hA.congr (by rw [published_append, hu, List.append_nil])
  rintro u ⟨rc, log⟩ m' ⟨hu, rfl, hlog⟩
  have hpu : published (t ++ u) = [nextRecord ps code] := by
    rw [published_append, hu, List.append_nil, hp]
  have hAu : Appended ps code (t ++ u) m' := hA.congr (hpu.trans hp.symm)
  dsimp only
  split
  · exact ⟨hAu, fun _ => hinitial, hlatest, fun _ => hpu,
      fun h0 => absurd (hrc.symm.trans h0) hnotRun, fun _ => ⟨rfl, hcompare⟩⟩
  next hinit =>
  obtain rfl : log = some (tracking dev (ps ++ [nextRecord ps code])) := hlog (not_not.mp hinit)
  refine Safe.call (latest_returns hready hring value) ?_ ?_
  · rintro v m'' ⟨hv, rfl⟩
    exact hAu.congr (by rw [published_append, hv, List.append_nil])
  rintro v ⟨rc, log, value⟩ m'' ⟨hv, rfl, rfl, hvalue⟩
  have hpv : published (t ++ u ++ v) = [nextRecord ps code] := by
    rw [published_append, hv, List.append_nil, hpu]
  have hAv : Appended ps code (t ++ u ++ v) m'' := hAu.congr (hpv.trans hpu.symm)
  dsimp only
  split
  · next hfail =>
    exact ⟨hAv, fun _ => hinitial, hlatest, fun _ => hpv, fun h0 => absurd h0 hfail,
      fun _ => ⟨rfl, hcompare⟩⟩
  next hok =>
  obtain ⟨p, hlast, rfl⟩ := hvalue (not_not.mp hok)
  obtain rfl : p = nextRecord ps code := by
    rw [List.getLast?_concat] at hlast
    exact (Option.some.inj hlast).symm
  obtain ⟨hsequence, hslot⟩ := expected_next dev ps code
  rw [← hinitial.1, ← hinitial.2] at hsequence
  rw [← hinitial.2] at hslot
  split
  · next hdiffers => exact absurd (if_pos ⟨hcode.symm, hsequence.symm, hslot.symm⟩) hdiffers
  · exact ⟨hAv, fun _ => hinitial, hlatest, fun _ => hpv,
      fun _ => ⟨rfl, hpv, rfl, rfl, rfl⟩, fun h0 => absurd (not_not.mp hok) h0⟩

/-- A boot from its append on, with what it has found. -/
theorem lab24Append_returns (h : Ring m ps) {g : Lab24Debug} {t : List (Event eeprom)}
    (ht : published t = []) (value : Word)
    (hinitial : g.initialSequence = (tracking dev ps).sequence ∧
      g.initialSlot = (tracking dev ps).newestSlot)
    (hlatest : g.initialLatestRc = 0 → ∃ p ∈ ps.getLast?, g.initialFaultCode = p.code)
    (hrc : g.latestRc = notRun) (hcompare : g.compareRc = notRun) :
    Safe eeprom (fun t g' m' => Appended ps code t m' ∧ Outcome dev ps code t g')
      (Appended ps code) (lab24Append dev (some (tracking dev ps)) code value g) t m := by
  have hafter : ∀ u, published (t ++ u) = published u := by
    intro u
    rw [published_append, ht, List.nil_append]
  rw [lab24Append]
  refine Safe.call (append_returns hready h code) ?_ ?_
  · exact fun u m' hA => hA.congr (hafter u)
  rintro u ⟨rc, log⟩ m' ⟨hA, hok, -⟩
  have hAu : Appended ps code (t ++ u) m' := hA.congr (hafter u)
  dsimp only
  split
  · next hfail =>
    exact ⟨hAu, fun _ => hinitial, hlatest, fun h0 => absurd h0 hfail,
      fun h0 => absurd (hrc.symm.trans h0) (by decide), fun _ => ⟨rfl, hcompare⟩⟩
  · next happend =>
    have hp : published (t ++ u) = [nextRecord ps code] :=
      (hafter u).trans (hok (not_not.mp happend)).1
    exact lab24Verify_returns hready hsize value hAu hp hinitial hlatest rfl hrc hcompare

/-- A boot keeps the ring, wherever power fails in it, and shows what it has found and done. -/
theorem lab24Main_returns (h : Ring m ps) (code : Word) :
    Safe eeprom (fun t g m' => Appended ps code t m' ∧ Outcome dev ps code t g)
      (Appended ps code) (lab24Main dev code) [] m := by
  have hnotRun : notRun ≠ 0 := by decide
  rw [lab24Main]
  refine Safe.call (init_returns hready hsize h .zero) ?_ ?_
  · rintro u m' ⟨hu, rfl⟩
    exact .none hu h
  rintro u ⟨rc, log⟩ m' ⟨hu, rfl, hlog⟩
  dsimp only
  split
  · next hfail =>
    exact ⟨.none hu h, fun h0 => absurd h0 hfail, fun h0 => absurd h0 hnotRun,
      fun h0 => absurd h0 hnotRun, fun h0 => absurd h0 hnotRun, fun _ => ⟨rfl, rfl⟩⟩
  next hinit =>
  obtain rfl : log = some (tracking dev ps) := hlog (not_not.mp hinit)
  refine Safe.call (latest_returns hready h 0) ?_ ?_
  · rintro v m'' ⟨hv, rfl⟩
    exact .none (by rw [published_append, hv, List.append_nil]; exact hu) h
  rintro v ⟨rc, log, value⟩ m'' ⟨hv, rfl, rfl, hvalue⟩
  have hpv : published ([] ++ u ++ v) = [] := by
    rw [published_append, hv, List.append_nil]
    exact hu
  dsimp only
  split
  · next hfail =>
    exact ⟨.none hpv h, fun _ => ⟨rfl, rfl⟩, fun h0 => absurd h0 hfail.1,
      fun h0 => absurd h0 hnotRun, fun h0 => absurd h0 hnotRun, fun _ => ⟨rfl, rfl⟩⟩
  split
  · next hfound =>
    obtain ⟨p, hlast, rfl⟩ := hvalue hfound
    exact lab24Append_returns hready hsize h hpv _ ⟨rfl, rfl⟩ (fun _ => ⟨p, hlast, rfl⟩) rfl rfl
  · next hfound =>
    exact lab24Append_returns hready hsize h hpv _ ⟨rfl, rfl⟩ (fun h0 => absurd h0 hfound) rfl rfl

omit hsize in
/-- A fault-free append to a ring extends it. -/
theorem append_ring (h : Ring m ps) (code : Word) : ∃ m',
    (faultLogAppend (some (tracking dev ps)) code).run faultFree m =
      ((0, some (tracking dev (ps ++ [nextRecord ps code]))), m') ∧
    Ring m' (ps ++ [nextRecord ps code]) := by
  obtain ⟨t, he⟩ :=
    faultFree_handles.exec (faultLogAppend (some (tracking dev ps)) code) m
  obtain ⟨hA, hok, -⟩ := ((append_returns hready h code).sound he).1 _ rfl
  rw [append_run hready (recovered_ring h dev)] at hA hok ⊢
  obtain ⟨hp, hlog⟩ := hok rfl
  rw [List.nil_append] at hp hA
  exact ⟨_, by rw [← hlog], hp ▸ hA.2⟩

theorem lab24Verify_run (h : Ring m ps) {p : Publication} (hlast : p ∈ ps.getLast?) (value : Word)
    (g : Lab24Debug) :
    ∃ g', (lab24Verify dev value g).run faultFree m = (g', m) ∧ g'.latestRc = 0 ∧
      g'.initialFaultCode = g.initialFaultCode := by
  have hne : ps ≠ [] := by
    rintro rfl
    cases hlast
  rw [lab24Verify, Program.bind_eq, Program.run_bind, faultLogInit_run hready hsize,
    recovered_ring h]
  dsimp only
  rw [if_neg (by simp), Program.bind_eq, Program.run_bind, faultLogLatest_run hready h, if_neg hne]
  dsimp only
  rw [if_neg (by simp)]
  split
  · exact ⟨_, rfl, rfl, rfl⟩
  · exact ⟨_, rfl, rfl, rfl⟩

/-- A fault-free boot over a ring finds the record published last and reads its own back. -/
theorem lab24Main_run (h : Ring m ps) (code : Word) :
    ∃ g m', (lab24Main dev code).run faultFree m = (g, m') ∧ g.latestRc = 0 ∧
      g.initialFaultCode = ((ps.getLast?.map (·.code)).getD 0) := by
  have happend : ∀ value g, ∃ g' m',
      (lab24Append dev (some (tracking dev ps)) code value g).run faultFree m = (g', m') ∧
      g'.latestRc = 0 ∧ g'.initialFaultCode = g.initialFaultCode := by
    intro value g
    obtain ⟨m', hrun, hring⟩ := append_ring hready h code
    rw [lab24Append, Program.bind_eq, Program.run_bind, hrun]
    dsimp only
    rw [if_neg (by simp)]
    obtain ⟨g', hverify, hrc, hcode⟩ :=
      lab24Verify_run hready hsize hring List.getLast?_concat value _
    exact ⟨g', m', hverify, hrc, hcode⟩
  rw [lab24Main, Program.bind_eq, Program.run_bind, faultLogInit_run hready hsize,
    recovered_ring h]
  dsimp only
  rw [if_neg (by simp), Program.bind_eq, Program.run_bind, Option.getD_some,
    faultLogLatest_run hready h]
  dsimp only
  by_cases hne : ps = []
  · subst hne
    obtain ⟨g', m', hrun, hrc, hcode⟩ := happend _ _
    exact ⟨g', m', hrun, hrc, hcode⟩
  · obtain ⟨g', m', hrun, hrc, hcode⟩ := happend _ _
    simp only [if_neg hne]
    exact ⟨g', m', hrun, hrc, hcode⟩

end Boot

/-! ### Boots -/

/-- A boot: the code that it was given to append, what it showed when it was not cut, and the
operations that it issued. -/
structure Boot where
  code : Word
  shown : Option Lab24Debug
  events : List (Event eeprom)

/-- The records that the boots have published, oldest first. -/
def bootRecords (boots : List Boot) : List Publication := boots.flatMap (published ·.events)

/-- Boots of a part, each from the image that the one before it left. -/
inductive Boots (dev : Dev) (start : Memory) : List Boot → Memory → Prop
  | none : Boots dev start [] start
  | boot {boots : List Boot} {code : Word} {t : List (Event eeprom)} {x : Option Lab24Debug}
      {m m' : Memory} : Boots dev start boots m → Exec eeprom (lab24Main dev code) m t x m' →
      Boots dev start (boots ++ [⟨code, x, t⟩]) m'

/-- What each boot has published and shown, after the boots before it. -/
def Told (dev : Dev) (boots : List Boot) : Prop :=
  ∀ before b after, boots = before ++ b :: after →
    (published b.events = [] ∨ published b.events = [nextRecord (bootRecords before) b.code]) ∧
    ∀ g ∈ b.shown, Outcome dev (bootRecords before) b.code b.events g

section Boots

variable {dev : Dev} {start m : Memory} {boots : List Boot}

theorem bootRecords_snoc (boots : List Boot) (b : Boot) :
    bootRecords (boots ++ [b]) = bootRecords boots ++ published b.events := by
  simp [bootRecords]

theorem Told.snoc {b : Boot} (h : Told dev boots)
    (hp : published b.events = [] ∨
      published b.events = [nextRecord (bootRecords boots) b.code])
    (hshown : ∀ g ∈ b.shown, Outcome dev (bootRecords boots) b.code b.events g) :
    Told dev (boots ++ [b]) := by
  intro before c after hsplit
  rcases List.eq_nil_or_concat after with rfl | ⟨init, last, rfl⟩
  · obtain ⟨rfl, hc⟩ := List.append_inj' hsplit rfl
    obtain rfl := (List.cons.inj hc).1
    exact ⟨hp, hshown⟩
  · rw [List.concat_eq_append, ← List.cons_append, ← List.append_assoc] at hsplit
    exact h before c init (List.append_inj' hsplit rfl).1

variable (hready : dev.ready = true) (hsize : logBytes ≤ dev.size)
include hready hsize

theorem Boots.keeps (hblank : ∀ slot < slotCount, ¬Valid start slot)
    (h : Boots dev start boots m) : Ring m (bootRecords boots) ∧ Told dev boots := by
  induction h with
  | none => exact ⟨Ring.empty hblank, fun before b after h => by simp at h⟩
  | @boot boots code t x m m' _ he ih =>
    obtain ⟨hring, htold⟩ := ih
    have hsound := (lab24Main_returns hready hsize hring code).sound he
    rw [List.nil_append] at hsound
    have hA : Appended (bootRecords boots) code t m' := by
      cases x with
      | none => exact hsound.2 rfl
      | some g => exact (hsound.1 g rfl).1
    rw [bootRecords_snoc]
    refine ⟨hA.2, htold.snoc hA.1 fun g hg => ?_⟩
    exact (hsound.1 g hg).2

/-- From a part without records, in any sequence of boots, with failing operations and power cuts
anywhere in them: the slots are a ring of what the boots have published, each boot has published
its record once or nothing, and has shown what it found and did.  When it has read its record back
it is done, and until then it has not compared anything.  A next boot without faults finds the
record published last and is done. -/
theorem lab24_boots (hblank : ∀ slot < slotCount, ¬Valid start slot)
    (h : Boots dev start boots m) :
    Ring m (bootRecords boots) ∧ Told dev boots ∧
    ∀ code, ∃ g m', (lab24Main dev code).run faultFree m = (g, m') ∧ g.stage = .done ∧
      g.initialFaultCode = ((bootRecords boots).getLast?.map (·.code)).getD 0 ∧
      g.latestFaultCode = code := by
  obtain ⟨hring, htold⟩ := h.keeps hready hsize hblank
  refine ⟨hring, htold, fun code => ?_⟩
  obtain ⟨g, m', hrun, hrc, hcode⟩ := lab24Main_run hready hsize hring code
  obtain ⟨t, he⟩ := faultFree_handles.exec (lab24Main dev code) m
  obtain ⟨-, hout⟩ := ((lab24Main_returns hready hsize hring code).sound he).1 _ rfl
  rw [hrun] at hout
  exact ⟨g, m', hrun, (hout.verified hrc).1, hcode, (hout.verified hrc).2.2.1⟩

omit hready hsize in
/-- An erased part of 256 bytes, after a boot that power cuts in its first read. -/
theorem lab24_boots_cut : ∃ boots m, Boots ⟨true, 256⟩ (fun _ => 0xff) boots m ∧
    boots.map (·.code) = [7] ∧
    ∃ g m', (lab24Main ⟨true, 256⟩ 9).run faultFree m = (g, m') ∧ g.stage = .done ∧
      g.latestFaultCode = 9 := by
  have hcut : Exec eeprom (lab24Main ⟨true, 256⟩ 7) (fun _ => 0xff)
      [⟨.read (slotOffset 0) slotSize, none, fun _ => 0xff⟩] none (fun _ => 0xff) := .torn rfl
  have hboots := Boots.boot .none hcut
  obtain ⟨-, -, hnext⟩ := lab24_boots rfl (by decide) (fun slot _ => not_valid_erased slot) hboots
  obtain ⟨g, m', hrun, hdone, -, hcode⟩ := hnext 9
  exact ⟨_, _, hboots, rfl, g, m', hrun, hdone, hcode⟩

end Boots

end CortexLabs.FaultLog
