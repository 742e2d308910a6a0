import CortexLabs.BootLog.AppendOnly
import CortexLabs.BootLog.Recovery
import CortexLabs.Device.Footprint

/-! The program over the boot log, boot after boot.  Each boot recovers the log, appends two records
while two slots are left, recovers again and compares; power may fail at any of its operations, and
any of them may fail, and the boots after it go on from what it left. -/

namespace CortexLabs.BootLog

open Device Errno

/-! ### The program -/

inductive Lab23Stage where
  | reset
  | init
  | emptyCheck
  | appendFirst
  | appendSecond
  | recover
  | readLast
  | done
  | error
  deriving DecidableEq

/-- `LAB23_NOT_RUN` -/
abbrev notRun : Int := -999

/-- `g_lab23_stage` and the other variables that a debugger sees. -/
structure Lab23Debug where
  stage : Lab23Stage
  failedStage : Lab23Stage
  initRc : Int
  emptyRc : Int
  appendARc : Int
  appendBRc : Int
  recoverRc : Int
  readLastRc : Int
  compareRc : Int
  initialNextSlot : Nat
  recoveredNextSlot : Nat
  capacitySlots : Nat
  eraseValue : Byte
  lastRecord : Record

def Lab23Debug.reset : Lab23Debug where
  stage := .reset
  failedStage := .reset
  initRc := notRun
  emptyRc := notRun
  appendARc := notRun
  appendBRc := notRun
  recoverRc := notRun
  readLastRc := notRun
  compareRc := notRun
  initialNextSlot := 0
  recoveredNextSlot := 0
  capacitySlots := 0
  eraseValue := 0
  lastRecord := Vector.replicate recordSize 0

/-- `fail_lab` -/
def Lab23Debug.failed (g : Lab23Debug) : Lab23Debug :=
  { g with failedStage := g.stage, stage := .error }

/-- `g_record_a` -/
def recordA : Record := #v[
  0x42, 0x4f, 0x4f, 0x54, 0x01, 0x00, 0x00, 0x01,
  0x11, 0x22, 0x33, 0x44, 0x55, 0x66, 0x77, 0x88]

/-- `g_record_b` -/
def recordB : Record := #v[
  0x42, 0x4f, 0x4f, 0x54, 0x02, 0x00, 0x00, 0x02,
  0x99, 0xaa, 0xbb, 0xcc, 0xdd, 0xee, 0xf0, 0x0f]

/-- The difference of the first two bytes that differ. -/
def memcmp : List Byte → List Byte → Int
  | a :: as, b :: bs => if a = b then memcmp as bs else a.toNat - b.toNat
  | _, _ => 0

section Program

variable (abi : Abi) (dev : Dev) (base : Int) (regionSize : Nat)

/-- `main` from the second initialization on. -/
def lab23Recover (last : Record) (g : Lab23Debug) : FlashProgram Lab23Debug := do
  let g := { g with stage := .recover }
  let (rc, recovered) ← bootLogInit abi (some .zero) (some dev) base regionSize
  let g := { g with recoverRc := rc }
  if rc ≠ 0 ∨ (recovered.getD .zero).nextSlot ≠ abi.toSize (g.initialNextSlot + 2) then
    return g.failed
  let g := { g with recoveredNextSlot := (recovered.getD .zero).nextSlot, stage := .readLast }
  let (rc, last) ← bootLogReadLast abi recovered (some last)
  let g := { g with readLastRc := rc }
  if rc ≠ 0 then return g.failed
  let last := last.getD (Vector.replicate recordSize 0)
  let rc : Int := memcmp last.toList recordB.toList
  let g := { g with compareRc := rc, lastRecord := last }
  if rc ≠ 0 then return g.failed
  return { g with stage := .done }

/-- `main` from its check of the room on. -/
def lab23Append (log : Option Context) (last : Record) (g : Lab23Debug) :
    FlashProgram Lab23Debug := do
  if abi.toSize (g.capacitySlots + 2 ^ abi.size.bits - g.initialNextSlot) < 2 then return g.failed
  let g := { g with stage := .appendFirst }
  let (rc, log) ← bootLogAppend abi log (some recordA)
  let g := { g with appendARc := rc }
  if rc ≠ 0 then return g.failed
  let g := { g with stage := .appendSecond }
  let (rc, _) ← bootLogAppend abi log (some recordB)
  let g := { g with appendBRc := rc }
  if rc ≠ 0 then return g.failed
  lab23Recover abi dev base regionSize last g

/-- `main`, over the partition from `base` on.  `last` is what its buffer holds at first; its
pointer arguments are never NULL. -/
def lab23Main (last : Record) : FlashProgram Lab23Debug := do
  let g := { Lab23Debug.reset with stage := .init }
  let (rc, log) ← bootLogInit abi (some .zero) (some dev) base regionSize
  let g := { g with initRc := rc }
  if rc ≠ 0 then return g.failed
  let g := { g with
    initialNextSlot := (log.getD .zero).nextSlot
    capacitySlots := (log.getD .zero).regionSize / recordSize
    eraseValue := (log.getD .zero).eraseValue
    stage := .emptyCheck }
  if (log.getD .zero).nextSlot = 0 then
    let (rc, last) ← bootLogReadLast abi log (some last)
    let g := { g with emptyRc := rc }
    if rc ≠ -enoent then return g.failed
    lab23Append abi dev base regionSize log (last.getD (Vector.replicate recordSize 0)) g
  else
    lab23Append abi dev base regionSize log last g

end Program

/-! ### The calls -/

/-- What a call may leave of a region with `n` occupied slots: they keep their bytes, and the
occupied slots are the first `n'`. -/
structure Extends (r : Region) (m : Memory) (n : Nat) (m' : Memory) (n' : Nat) : Prop where
  filled : r.Filled m' n'
  grown : n ≤ n'
  kept : ∀ k < n, r.slot m' k = r.slot m k

section Calls

variable {r : Region} {m m' m'' : Memory} {n n' n'' : Nat}

theorem Extends.refl (h : r.Filled m n) : Extends r m n m n :=
  ⟨h, Nat.le_refl n, fun _ _ => rfl⟩

theorem Extends.trans (h : Extends r m n m' n') (h' : Extends r m' n' m'' n'') :
    Extends r m n m'' n'' :=
  ⟨h'.filled, Nat.le_trans h.grown h'.grown, fun k hk =>
    (h'.kept k (Nat.lt_of_lt_of_le hk h.grown)).trans (h.kept k hk)⟩

variable {abi : Abi} {dev : Dev} {params : FlashParameters} {base : Int} {regionSize : Nat}
  {log : Context}

/-- The scan returns 0 only at its end, when it makes the context usable. -/
theorem scanSlots_zero (slots : List Nat) (log : Context) (foundEmpty : Bool)
    (t : List (Event flash)) (m : Memory) :
    Safe flash (fun _ x _ => x.1 = 0 → x.2.initialized = true) (fun _ _ => True)
      (scanSlots abi slots log foundEmpty) t m := by
  induction slots generalizing log foundEmpty t with
  | nil => exact fun _ => rfl
  | cons slot rest ih =>
    rw [scanSlots_cons]
    refine safe_read trivial fun rc data _ => ?_
    dsimp only
    split
    · next hrc => exact fun h0 => absurd h0 hrc
    split
    · exact ih _ _ _
    split
    · have heilseq : -eilseq ≠ 0 := by decide
      exact fun h0 => absurd h0 heilseq
    · exact ih _ _ _

variable (hparams : dev.params = some params) (hsize : regionSize < 2 ^ abi.size.bits)
  (hf : (region params base regionSize).Filled m n)
include hparams hsize hf

/-- An initialization finds the occupied slots, or fails. -/
theorem init_returns (log : Context) :
    Safe flash
      (fun _ x m' => m' = m ∧ (x.1 = 0 → ∃ log', x.2 = some log' ∧ log'.initialized = true ∧
        Opened abi dev params base regionSize log' ∧ log'.nextSlot = n))
      (fun _ m' => m' = m) (bootLogInit abi (some log) (some dev) base regionSize) [] m := by
  have hzero : Safe flash (fun _ x _ => x.1 = 0 → ∀ log' ∈ x.2, log'.initialized = true)
      (fun _ _ => True) (bootLogInit abi (some log) (some dev) base regionSize) [] m := by
    rcases bootLogInit_cases abi base regionSize hparams log with
      ⟨-, heq⟩ | ⟨-, heq⟩ | ⟨-, heq⟩
    · rw [heq]
      exact fun h0 => absurd h0 (by decide)
    · rw [heq]
      refine safe_ready trivial fun ready => ?_
      cases ready <;> exact fun h0 => absurd h0 (by decide)
    · rw [heq]
      refine safe_ready trivial fun ready => ?_
      cases ready
      · exact fun h0 => absurd h0 (by decide)
      · refine Safe.bind ((scanSlots_zero _ _ _ _ _).mono ?_ fun _ _ h => h)
        rintro t ⟨rc, log'⟩ m' hx h0 _ ⟨⟩
        exact hx h0
  refine ((bootLogInit_safe hparams hsize hf log).and hzero).mono ?_ ?_
  · rintro t ⟨rc, _⟩ m' ⟨⟨-, rfl, log', rfl, hlog⟩, hinit⟩
    refine ⟨rfl, fun h0 => ?_⟩
    have hi := hinit h0 log' rfl
    exact ⟨log', rfl, hi, hlog hi⟩
  · rintro t m' ⟨⟨-, rfl⟩, -⟩
    rfl

/-- What an append issues: reads, and writes to the slot after the last. -/
def Op.InSlot (abi : Abi) (log : Context) : Op → Prop
  | .ready => True
  | .read _ _ => True
  | .write offset len _ => offset = slotOffset abi log log.nextSlot ∧ len = recordSize

omit hparams hsize hf in
theorem bootLogAppend_inSlot (hlog : Opened abi dev params base regionSize log)
    (hi : log.initialized = true) (record : Record) :
    (bootLogAppend abi (some log) (some record)).Issues (Op.InSlot abi log) := by
  rw [bootLogAppend_eq hlog hi]
  refine Program.issues_bind (Program.issues_issue trivial) fun ready => ?_
  split
  · trivial
  split
  · trivial
  split
  · trivial
  refine Program.issues_bind (Program.issues_issue trivial) fun x => ?_
  dsimp only
  split
  · trivial
  split
  · trivial
  refine Program.issues_bind (Program.issues_issue ⟨rfl, rfl⟩) fun rc => ?_
  split
  · trivial
  refine Program.issues_bind (Program.issues_issue trivial) fun x => ?_
  split
  · trivial
  split <;> trivial

omit hparams hsize hf in
/-- An append that returns 0 leaves the context of its record. -/
theorem bootLogAppend_zero (hlog : Opened abi dev params base regionSize log)
    (hi : log.initialized = true) (record : Record) (t : List (Event flash)) (m : Memory) :
    Safe flash (fun _ x _ => x.1 = 0 →
        x.2 = some { log with nextSlot := log.nextSlot + 1, initialized := true })
      (fun _ _ => True) (bootLogAppend abi (some log) (some record)) t m := by
  have hfail : ∀ (rc : Int) (log' : Option Context), rc ≠ 0 → (rc, log').1 = 0 →
      log' = some { log with nextSlot := log.nextSlot + 1, initialized := true } :=
    fun _ _ hrc h0 => absurd h0 hrc
  rw [bootLogAppend_eq hlog hi]
  refine safe_ready trivial fun ready => ?_
  split
  · exact hfail _ _ (by decide)
  split
  · exact hfail _ _ (by decide)
  split
  · exact hfail _ _ (by decide)
  refine safe_read trivial fun rc check _ => ?_
  dsimp only
  split
  · next hrc => exact hfail _ _ hrc
  split
  · exact hfail _ _ (by decide)
  refine safe_write fun m1 _ => ⟨trivial, fun rc => ?_⟩
  split
  · next hrc => exact hfail _ _ hrc
  refine safe_read trivial fun rc check _ => ?_
  dsimp only
  split
  · next hrc => exact hfail _ _ hrc
  split
  · exact hfail _ _ (by decide)
  · exact fun _ => rfl

omit hparams hf in
/-- Whether it returns or is cut, an append changes only the slot after the last. -/
theorem bootLogAppend_within (hlog : Opened abi dev params base regionSize log)
    (hi : log.initialized = true)
    (hcap : log.nextSlot < (region params base regionSize).capacity) (record : Record)
    (m : Memory) :
    Safe flash
      (fun _ _ m' => Region.Within m
        ((region params base regionSize).base + log.nextSlot * recordSize) recordSize m')
      (fun _ m' => Region.Within m
        ((region params base regionSize).base + log.nextSlot * recordSize) recordSize m')
      (bootLogAppend abi (some log) (some record)) [] m := by
  have hoffset := hlog.offset hsize hcap
  refine Safe.keeps (P := Op.InSlot abi log) ?_ ?_ (bootLogAppend_inSlot hlog hi record)
    (fun _ _ => rfl) []
  · intro s o r s' ho hs ha b hb
    cases o with
    | ready => rw [show s' = s from ha, hs b hb]
    | read offset len => rw [ha.1, hs b hb]
    | write offset len data =>
      obtain ⟨rfl, rfl⟩ := ho
      rw [hoffset] at ha
      rw [ha b hb, hs b hb]
  · intro s o s' ho hs ht b hb
    cases o with
    | ready => rw [show s' = s from ht, hs b hb]
    | read offset len => rw [show s' = s from ht, hs b hb]
    | write offset len data =>
      obtain ⟨rfl, rfl⟩ := ho
      rw [hoffset] at ht
      rw [ht b hb, hs b hb]

omit hparams in
/-- An append extends the log by its record, or fails. -/
theorem append_returns (hlog : Opened abi dev params base regionSize log)
    (hi : log.initialized = true) (hnext : log.nextSlot = n)
    (hcap : n < (region params base regionSize).capacity) (record : Record) :
    Safe flash
      (fun _ x m' => ∃ n' ≤ n + 1, Extends (region params base regionSize) m n m' n' ∧
        (x.1 = 0 → n' = n + 1 ∧ (region params base regionSize).slot m' n = record ∧
          x.2 = some { log with nextSlot := n + 1, initialized := true }))
      (fun _ m' => ∃ n' ≤ n + 1, Extends (region params base regionSize) m n m' n')
      (bootLogAppend abi (some log) (some record)) [] m := by
  subst hnext
  -- What a write to the slot leaves occupied is no more than that slot.
  have hbound : ∀ {m' n'}, Region.Within m
      ((region params base regionSize).base + log.nextSlot * recordSize) recordSize m' →
      (region params base regionSize).Filled m' n' → n' ≤ log.nextSlot + 1 := by
    intro m' n' hw hfilled
    rw [hfilled.unique (hf.write hcap hw)]
    split <;> omega
  refine (((bootLogAppend_safe hsize hf hlog (Nat.le_refl _) hi record).and
    (bootLogAppend_zero hlog hi record [] m)).and
    (bootLogAppend_within hsize hlog hi hcap record m)).mono ?_ ?_
  · rintro t x m' ⟨⟨⟨n', hp, -, hok⟩, hzero⟩, hw⟩
    have hle := hbound hw hp.filled
    refine ⟨n', hle, ⟨hp.filled, hp.grown, hp.kept⟩, fun h0 => ?_⟩
    obtain ⟨hlt, hslot⟩ := hok h0
    exact ⟨by omega, hslot, hzero h0⟩
  · rintro t m' ⟨⟨⟨n', hp⟩, -⟩, hw⟩
    exact ⟨n', hbound hw hp.filled, hp.filled, hp.grown, hp.kept⟩

omit hparams in
/-- A read of the last record returns the bytes of the last occupied slot, or fails. -/
theorem readLast_returns (hlog : Opened abi dev params base regionSize log)
    (hnext : log.nextSlot = n) (out : Record) :
    Safe flash
      (fun _ x m' => m' = m ∧
        (x.1 = 0 → x.2 = some ((region params base regionSize).slot m (n - 1))))
      (fun _ m' => m' = m) (bootLogReadLast abi (some log) (some out)) [] m := by
  subst hnext
  have hread : Safe flash (fun _ x _ => x.1 = 0 →
      x.2 = some ((region params base regionSize).slot m (log.nextSlot - 1))) (fun _ _ => True)
      (bootLogReadLast abi (some log) (some out)) [] m := by
    simp only [bootLogReadLast, bootLogReadLastAt]
    have hfail : ∀ (rc : Int) (out : Option Record), rc ≠ 0 → (rc, out).1 = 0 →
        out = some ((region params base regionSize).slot m (log.nextSlot - 1)) :=
      fun _ _ hrc h0 => absurd h0 hrc
    split
    · exact hfail _ _ (by decide)
    refine safe_ready trivial fun ready => ?_
    split
    · exact hfail _ _ (by decide)
    split
    · exact hfail _ _ (by decide)
    next hsome =>
    have hlast : log.nextSlot - 1 < (region params base regionSize).capacity := by
      have := hf.bound
      omega
    refine safe_read trivial fun rc data hd => ?_
    dsimp only
    split
    · next hrc => exact hfail _ _ hrc
    next hrc =>
    rw [hd (not_not.mp hrc), hlog.offset hsize hlast]
    exact fun _ => rfl
  refine ((bootLogReadLast_safe log (some out) m).and hread).mono ?_ ?_
  · rintro t x m' ⟨⟨-, rfl⟩, hx⟩
    exact ⟨rfl, hx⟩
  · rintro t m' ⟨⟨-, rfl⟩, -⟩
    rfl

end Calls

/-! ### A boot -/

/-- What a boot leaves of a region with `n` occupied slots: it occupies at most two more, and when
two are not left it changes nothing. -/
structure Booted (r : Region) (m : Memory) (n : Nat) (m' : Memory) (n' : Nat) : Prop where
  extends_ : Extends r m n m' n'
  bound : n' ≤ n + 2
  full : r.capacity < n + 2 → m' = m

/-- What a boot shows a debugger of a region with `n` occupied slots. -/
structure Outcome (r : Region) (n : Nat) (m' : Memory) (n' : Nat) (g : Lab23Debug) : Prop where
  initial : g.initRc = 0 → g.initialNextSlot = n ∧ g.capacitySlots = r.capacity
  first : g.appendARc = 0 → n < n' ∧ r.slot m' n = recordA
  second : g.appendBRc = 0 → n' = n + 2 ∧ r.slot m' (n + 1) = recordB
  verified : g.readLastRc = 0 → g.stage = .done ∧ g.recoveredNextSlot = n + 2 ∧
    g.lastRecord = recordB ∧ n' = n + 2 ∧ r.slot m' n = recordA ∧ r.slot m' (n + 1) = recordB
  failed : g.readLastRc ≠ 0 → g.stage = .error ∧ g.compareRc = notRun

/-- What a boot shows that fails before it has read a record back. -/
theorem Outcome.unread {r : Region} {n n' : Nat} {m' : Memory} {g : Lab23Debug}
    (hrc : g.readLastRc = notRun) (hcompare : g.compareRc = notRun)
    (hinitial : g.initRc = 0 → g.initialNextSlot = n ∧ g.capacitySlots = r.capacity)
    (hfirst : g.appendARc = 0 → n < n' ∧ r.slot m' n = recordA)
    (hsecond : g.appendBRc = 0 → n' = n + 2 ∧ r.slot m' (n + 1) = recordB) :
    Outcome r n m' n' g.failed :=
  ⟨hinitial, hfirst, hsecond, fun h0 => absurd (hrc.symm.trans h0) (by decide),
    fun _ => ⟨rfl, hcompare⟩⟩

/-- The slots of a region can be counted in `size_t`. -/
theorem toSize_slots {abi : Abi} {params : FlashParameters} {base : Int} {regionSize k : Nat}
    (hsize : regionSize < 2 ^ abi.size.bits)
    (hk : k ≤ (region params base regionSize).capacity) : abi.toSize k = k :=
  Nat.mod_eq_of_lt (Nat.lt_of_le_of_lt (Nat.le_trans hk (Nat.div_le_self _ _)) hsize)

/-- The difference that tells the room left wraps in `size_t`, but the first slot is never past the
last. -/
theorem toSize_room {abi : Abi} {params : FlashParameters} {base : Int} {regionSize n : Nat}
    (hsize : regionSize < 2 ^ abi.size.bits)
    (hn : n ≤ (region params base regionSize).capacity) :
    abi.toSize ((region params base regionSize).capacity + 2 ^ abi.size.bits - n) =
      (region params base regionSize).capacity - n := by
  have hsum : (region params base regionSize).capacity + 2 ^ abi.size.bits - n =
      (region params base regionSize).capacity - n + 2 ^ abi.size.bits := by
    omega
  rw [hsum, Abi.toSize, Nat.add_mod_right]
  exact toSize_slots hsize (Nat.sub_le _ _)

theorem memcmp_self (a : List Byte) : memcmp a a = 0 := by
  induction a with
  | nil => rfl
  | cons x xs ih =>
    rw [memcmp, if_pos rfl]
    exact ih

section Boot

variable {abi : Abi} {dev : Dev} {params : FlashParameters} {base : Int} {regionSize : Nat}
  {m m0 : Memory} {n n' : Nat}
  (hparams : dev.params = some params) (hsize : regionSize < 2 ^ abi.size.bits)
include hparams hsize

/-- The last part of a boot, after two appends that returned 0. -/
theorem lab23Recover_returns {g : Lab23Debug} (last : Record) (t : List (Event flash))
    (hb : Booted (region params base regionSize) m0 n m (n + 2))
    (hcap : n + 2 ≤ (region params base regionSize).capacity)
    (hinitial : g.initialNextSlot = n ∧ g.capacitySlots = (region params base regionSize).capacity)
    (hfirst : (region params base regionSize).slot m n = recordA)
    (hsecond : (region params base regionSize).slot m (n + 1) = recordB)
    (hrc : g.readLastRc = notRun) (hcompare : g.compareRc = notRun) :
    Safe flash
      (fun _ g' m' => ∃ n', Booted (region params base regionSize) m0 n m' n' ∧
        Outcome (region params base regionSize) n m' n' g')
      (fun _ m' => ∃ n', Booted (region params base regionSize) m0 n m' n')
      (lab23Recover abi dev base regionSize last g) t m := by
  have hnext : abi.toSize (g.initialNextSlot + 2) = n + 2 := by
    rw [hinitial.1]
    exact toSize_slots hsize hcap
  rw [lab23Recover]
  refine Safe.call (init_returns hparams hsize hb.extends_.filled .zero) ?_ ?_
  · rintro u m' rfl
    exact ⟨_, hb⟩
  rintro u ⟨rc, log⟩ m' ⟨rfl, hlog⟩
  dsimp only
  split
  · exact ⟨_, hb, .unread hrc hcompare (fun _ => hinitial) (fun _ => ⟨by omega, hfirst⟩)
      fun _ => ⟨rfl, hsecond⟩⟩
  next hok =>
  rw [not_or, not_not, not_not] at hok
  obtain ⟨log, rfl, -, hopened, hslot⟩ := hlog hok.1
  refine Safe.call (readLast_returns hsize hb.extends_.filled hopened hslot last) ?_ ?_
  · rintro v m'' rfl
    exact ⟨_, hb⟩
  rintro v ⟨rc, out⟩ m'' ⟨rfl, hout⟩
  dsimp only
  split
  · next hfail =>
    exact ⟨_, hb, fun _ => hinitial, fun _ => ⟨by omega, hfirst⟩, fun _ => ⟨rfl, hsecond⟩,
      fun h0 => absurd h0 hfail, fun _ => ⟨rfl, hcompare⟩⟩
  next hread =>
  obtain rfl : out = some recordB := (hout (not_not.mp hread)).trans (congrArg some hsecond)
  rw [Option.getD_some, memcmp_self, if_neg (by decide)]
  exact ⟨_, hb, fun _ => hinitial, fun _ => ⟨by omega, hfirst⟩, fun _ => ⟨rfl, hsecond⟩,
    fun _ => ⟨rfl, hslot, rfl, rfl, hfirst, hsecond⟩, fun h0 => absurd (not_not.mp hread) h0⟩

omit hparams hsize in
theorem Booted.none (hf : (region params base regionSize).Filled m n) :
    Booted (region params base regionSize) m n m n :=
  ⟨.refl hf, by omega, fun _ => rfl⟩

/-- A boot from its check of the room on, with what it has found. -/
theorem lab23Append_returns {g : Lab23Debug} {log : Context} (last : Record)
    (t : List (Event flash)) (hf : (region params base regionSize).Filled m n)
    (hopened : Opened abi dev params base regionSize log) (hi : log.initialized = true)
    (hnext : log.nextSlot = n)
    (hinitial : g.initialNextSlot = n ∧ g.capacitySlots = (region params base regionSize).capacity)
    (hA : g.appendARc = notRun) (hB : g.appendBRc = notRun) (hrc : g.readLastRc = notRun)
    (hcompare : g.compareRc = notRun) :
    Safe flash
      (fun _ g' m' => ∃ n', Booted (region params base regionSize) m n m' n' ∧
        Outcome (region params base regionSize) n m' n' g')
      (fun _ m' => ∃ n', Booted (region params base regionSize) m n m' n')
      (lab23Append abi dev base regionSize (some log) last g) t m := by
  have hnotRun : notRun ≠ 0 := by decide
  have hroom : abi.toSize (g.capacitySlots + 2 ^ abi.size.bits - g.initialNextSlot) =
      (region params base regionSize).capacity - n := by
    rw [hinitial.1, hinitial.2]
    exact toSize_room hsize hf.bound
  rw [lab23Append, hroom]
  split
  · exact ⟨n, .none hf, .unread hrc hcompare (fun _ => hinitial)
      (fun h0 => absurd (hA.symm.trans h0) hnotRun) fun h0 => absurd (hB.symm.trans h0) hnotRun⟩
  next hleft =>
  have hcap : n + 2 ≤ (region params base regionSize).capacity := by omega
  have hfull : ∀ {m' : Memory}, (region params base regionSize).capacity < n + 2 → m' = m :=
    fun hlt => absurd hcap (by omega)
  refine Safe.call (append_returns hsize hf hopened hi hnext (by omega) recordA) ?_ ?_
  · rintro u m1 ⟨n1, hn1, he1⟩
    exact ⟨n1, he1, by omega, hfull⟩
  rintro u ⟨rc, log1⟩ m1 ⟨n1, hn1, he1, hok1⟩
  dsimp only
  split
  · next hfail =>
    exact ⟨n1, ⟨he1, by omega, hfull⟩, .unread hrc hcompare (fun _ => hinitial)
      (fun h0 => absurd h0 hfail) fun h0 => absurd (hB.symm.trans h0) hnotRun⟩
  next happend =>
  obtain ⟨rfl, hfirst, rfl⟩ := hok1 (not_not.mp happend)
  have hopened1 : Opened abi dev params base regionSize
      { log with nextSlot := n + 1, initialized := true } :=
    ⟨hopened.geometry, hopened.dev, hopened.base, hopened.regionSize, hopened.eraseValue⟩
  have hkept : ∀ {m2 n2}, Extends (region params base regionSize) m1 (n + 1) m2 n2 →
      (region params base regionSize).slot m2 n = recordA :=
    fun he2 => (he2.kept n (Nat.lt_succ_self n)).trans hfirst
  refine Safe.call (append_returns hsize he1.filled hopened1 rfl rfl (by omega) recordB) ?_ ?_
  · rintro v m2 ⟨n2, hn2, he2⟩
    exact ⟨n2, he1.trans he2, hn2, hfull⟩
  rintro v ⟨rc, log2⟩ m2 ⟨n2, hn2, he2, hok2⟩
  have hb : Booted (region params base regionSize) m n m2 n2 := ⟨he1.trans he2, hn2, hfull⟩
  have hgrown := he2.grown
  dsimp only
  split
  · next hfail =>
    exact ⟨n2, hb, .unread hrc hcompare (fun _ => hinitial) (fun _ => ⟨by omega, hkept he2⟩)
      fun h0 => absurd h0 hfail⟩
  next happend2 =>
  obtain ⟨rfl, hsecond, -⟩ := hok2 (not_not.mp happend2)
  exact lab23Recover_returns hparams hsize last _ hb hcap hinitial (hkept he2) hsecond hrc hcompare

/-- A boot extends the log, wherever power fails in it, and shows what it has found and done. -/
theorem lab23Main_returns (hf : (region params base regionSize).Filled m n) (last : Record) :
    Safe flash
      (fun _ g m' => ∃ n', Booted (region params base regionSize) m n m' n' ∧
        Outcome (region params base regionSize) n m' n' g)
      (fun _ m' => ∃ n', Booted (region params base regionSize) m n m' n')
      (lab23Main abi dev base regionSize last) [] m := by
  have hnotRun : notRun ≠ 0 := by decide
  rw [lab23Main]
  refine Safe.call (init_returns hparams hsize hf .zero) ?_ ?_
  · rintro u m' rfl
    exact ⟨n, .none hf⟩
  rintro u ⟨rc, log⟩ m' ⟨rfl, hlog⟩
  dsimp only
  split
  · next hfail =>
    exact ⟨n, .none hf, .unread rfl rfl (fun h0 => absurd h0 hfail)
      (fun h0 => absurd h0 hnotRun) fun h0 => absurd h0 hnotRun⟩
  next hinit =>
  obtain ⟨log, rfl, hi, hopened, hnext⟩ := hlog (not_not.mp hinit)
  have hcapacity : log.regionSize / recordSize = (region params base regionSize).capacity := by
    rw [hopened.regionSize]
    rfl
  rw [Option.getD_some]
  split
  · refine Safe.call (readLast_returns hsize hf hopened hnext last) ?_ ?_
    · rintro v m'' rfl
      exact ⟨n, .none hf⟩
    rintro v ⟨rc, out⟩ m'' ⟨rfl, -⟩
    dsimp only
    split
    · exact ⟨n, .none hf, .unread rfl rfl (fun _ => ⟨hnext, hcapacity⟩)
        (fun h0 => absurd h0 hnotRun) fun h0 => absurd h0 hnotRun⟩
    · exact lab23Append_returns hparams hsize _ _ hf hopened hi hnext ⟨hnext, hcapacity⟩ rfl rfl
        rfl rfl
  · exact lab23Append_returns hparams hsize _ _ hf hopened hi hnext ⟨hnext, hcapacity⟩ rfl rfl rfl
      rfl

end Boot

/-! ### A boot without faults -/

/-- A context that has counted `n` occupied slots. -/
def counted (dev : Dev) (params : FlashParameters) (base : Int) (regionSize n : Nat) : Context :=
  ⟨some dev, base, regionSize, n, params.eraseValue, true⟩

/-- A record with two different bytes is not erased, whatever the erase value is. -/
theorem isErased_two {record : Record} {i j : Nat} (hi : i < recordSize) (hj : j < recordSize)
    (hne : record[i] ≠ record[j]) (eraseValue : Byte) : isErased record eraseValue = false := by
  rw [← Bool.not_eq_true, isErased, Vector.all_eq_true]
  intro hall
  exact hne ((beq_iff_eq.mp (hall i hi)).trans (beq_iff_eq.mp (hall j hj)).symm)

theorem recordA_occupied (eraseValue : Byte) : isErased recordA eraseValue = false :=
  @isErased_two recordA 0 1 (by decide) (by decide) (by decide) eraseValue

theorem recordB_occupied (eraseValue : Byte) : isErased recordB eraseValue = false :=
  @isErased_two recordB 0 1 (by decide) (by decide) (by decide) eraseValue

section FaultFree

variable {abi : Abi} {dev : Dev} {params : FlashParameters} {base : Int} {regionSize : Nat}
  {m : Memory} {n : Nat}
  (hg : Geometry abi dev base regionSize) (hsize : regionSize < 2 ^ abi.size.bits)
  (hf : (region params base regionSize).Filled m n)
include hg hsize hf

theorem readLast_run (out : Record) :
    (bootLogReadLast abi (some (counted dev params base regionSize n)) (some out)).run faultFree m =
      if n = 0 then ((-enoent, some out), m)
      else ((0, some ((region params base regionSize).slot m (n - 1))), m) := by
  obtain rfl := hf.toPrefix.filled.unique hf
  exact bootLogReadLast_handled faultFree_reads hg hsize
    (Region.passes_iff_prefix.mpr ⟨fun _ _ => rfl, hf.toPrefix⟩) out

theorem append_run (hcap : n < (region params base regionSize).capacity) {record : Record}
    (hrec : isErased record params.eraseValue = false) : ∃ m',
    (bootLogAppend abi (some (counted dev params base regionSize n)) (some record)).run
      faultFree m = ((0, some (counted dev params base regionSize (n + 1))), m') ∧
    (region params base regionSize).Filled m' (n + 1) := by
  have hopened : Opened abi dev params base regionSize (counted dev params base regionSize n) :=
    ⟨hg, rfl, rfl, rfl, rfl⟩
  have hrun := bootLogAppend_run hsize hf hopened rfl rfl hcap hrec
  obtain ⟨t, he⟩ := faultFree_handles.exec
    (bootLogAppend abi (some (counted dev params base regionSize n)) (some record)) m
  obtain ⟨n', -, hext, hok⟩ :=
    ((append_returns hsize hf hopened rfl rfl hcap record).sound he).1 _ rfl
  rw [hrun] at hext hok
  obtain ⟨rfl, -, -⟩ := hok rfl
  exact ⟨_, hrun, hext.filled⟩

variable (hparams : dev.params = some params)
include hparams

theorem init_run (log : Context) :
    (bootLogInit abi (some log) (some dev) base regionSize).run faultFree m =
      ((0, some (counted dev params base regionSize n)), m) := by
  obtain ⟨rc, log', hrun, -, hok⟩ := bootLogInit_run hparams hsize hf log
  obtain ⟨rfl, rfl⟩ := hok hg
  exact hrun

theorem lab23Recover_run (last : Record) {g : Lab23Debug} (hpos : 0 < n)
    (hnext : abi.toSize (g.initialNextSlot + 2) = n) : ∃ g',
    (lab23Recover abi dev base regionSize last g).run faultFree m = (g', m) ∧
      g'.readLastRc = 0 := by
  rw [lab23Recover, Program.bind_eq, Program.run_bind, init_run hg hsize hf hparams]
  dsimp only
  have hfound : ¬((0 : Int) ≠ 0 ∨
      ((some (counted dev params base regionSize n)).getD .zero).nextSlot ≠
        abi.toSize (g.initialNextSlot + 2)) := by
    rw [hnext]
    simp [counted]
  rw [if_neg hfound, Program.bind_eq, Program.run_bind, readLast_run hg hsize hf,
    if_neg (Nat.ne_of_gt hpos)]
  dsimp only
  rw [if_neg (by simp)]
  split
  · exact ⟨_, rfl, rfl⟩
  · exact ⟨_, rfl, rfl⟩

/-- With two slots left, a boot without faults appends both records and reads the second back. -/
theorem lab23Append_run (last : Record) {g : Lab23Debug}
    (hcap : n + 2 ≤ (region params base regionSize).capacity)
    (hinitial : g.initialNextSlot = n ∧
      g.capacitySlots = (region params base regionSize).capacity) : ∃ g' m',
    (lab23Append abi dev base regionSize (some (counted dev params base regionSize n)) last g).run
      faultFree m = (g', m') ∧ g'.readLastRc = 0 := by
  have hroom : ¬abi.toSize (g.capacitySlots + 2 ^ abi.size.bits - g.initialNextSlot) < 2 := by
    rw [hinitial.1, hinitial.2, toSize_room hsize hf.bound]
    omega
  obtain ⟨m1, hrun1, hf1⟩ := append_run hg hsize hf (by omega) (recordA_occupied _)
  obtain ⟨m2, hrun2, hf2⟩ := append_run hg hsize hf1 (by omega) (recordB_occupied _)
  have hrecover : ∀ g2 : Lab23Debug, g2.initialNextSlot = n → ∃ g',
      (lab23Recover abi dev base regionSize last g2).run faultFree m2 = (g', m2) ∧
        g'.readLastRc = 0 := by
    intro g2 hn
    refine lab23Recover_run hg hsize hf2 hparams last (by omega) ?_
    rw [hn]
    exact toSize_slots hsize hcap
  rw [lab23Append, if_neg hroom, Program.bind_eq, Program.run_bind, hrun1]
  dsimp only
  rw [if_neg (by simp), Program.bind_eq, Program.run_bind, hrun2]
  dsimp only
  rw [if_neg (by simp)]
  refine (hrecover _ ?_).imp fun g' h => ⟨m2, h⟩
  exact hinitial.1

end FaultFree

section Main

variable {abi : Abi} {dev : Dev} {params : FlashParameters} {base : Int} {regionSize : Nat}
  {m : Memory} {n : Nat}

theorem lab23Main_run (hparams : dev.params = some params) (hg : Geometry abi dev base regionSize)
    (hsize : regionSize < 2 ^ abi.size.bits) (hf : (region params base regionSize).Filled m n)
    (hcap : n + 2 ≤ (region params base regionSize).capacity) (last : Record) : ∃ g m',
    (lab23Main abi dev base regionSize last).run faultFree m = (g, m') ∧ g.readLastRc = 0 := by
  rw [lab23Main, Program.bind_eq, Program.run_bind, init_run hg hsize hf hparams]
  dsimp only
  rw [if_neg (by simp), Option.getD_some]
  split
  · next hempty =>
    have hzero : n = 0 := hempty
    rw [Program.bind_eq, Program.run_bind, readLast_run hg hsize hf, if_pos hzero]
    dsimp only
    rw [if_neg (by simp)]
    exact lab23Append_run hg hsize hf hparams _ hcap ⟨rfl, rfl⟩
  · exact lab23Append_run hg hsize hf hparams _ hcap ⟨rfl, rfl⟩

end Main

/-! ### Boots -/

/-- A boot: the images before and after it, and what it showed when it was not cut. -/
structure Boot where
  before : Memory
  shown : Option Lab23Debug
  after : Memory

def Boot.done (b : Boot) : Bool := b.shown.any fun g => decide (g.stage = .done)

/-- Boots over a flash, each from the image that the one before it left. -/
inductive Boots (abi : Abi) (dev : Dev) (base : Int) (regionSize : Nat) (start : Memory) :
    List Boot → Memory → Prop
  | none : Boots abi dev base regionSize start [] start
  | boot {boots : List Boot} {last : Record} {t : List (Event flash)} {x : Option Lab23Debug}
      {m m' : Memory} : Boots abi dev base regionSize start boots m →
      Exec flash (lab23Main abi dev base regionSize last) m t x m' →
      Boots abi dev base regionSize start (boots ++ [⟨m, x, m'⟩]) m'

/-- What a boot has done and shown, and that image `m` still holds what it left. -/
structure Boot.Told (r : Region) (m : Memory) (b : Boot) : Prop where
  booted : Booted r b.before (r.occupied b.before) b.after (r.occupied b.after)
  shown : ∀ g ∈ b.shown, Outcome r (r.occupied b.before) b.after (r.occupied b.after) g
  kept : Extends r b.after (r.occupied b.after) m (r.occupied m)

section Boots

variable {abi : Abi} {dev : Dev} {params : FlashParameters} {base : Int} {regionSize : Nat}
  {r : Region} {start m m' : Memory} {n : Nat} {boots : List Boot} {b : Boot}

theorem Outcome.of_done {g : Lab23Debug} {n' : Nat} (h : Outcome r n m n' g)
    (hdone : g.stage = .done) : n' = n + 2 ∧ r.slot m n = recordA ∧ r.slot m (n + 1) = recordB := by
  by_cases hread : g.readLastRc = 0
  · obtain ⟨-, -, -, hn, hfirst, hsecond⟩ := h.verified hread
    exact ⟨hn, hfirst, hsecond⟩
  · rw [(h.failed hread).1] at hdone
    cases hdone

theorem Boot.Told.extend (h : b.Told r m) (hext : Extends r m (r.occupied m) m' (r.occupied m')) :
    b.Told r m' :=
  ⟨h.booted, h.shown, h.kept.trans hext⟩

/-- The records of a boot that was done stay in their slots. -/
theorem Boot.Told.records (h : b.Told r m) (hdone : b.done = true) :
    r.occupied b.after = r.occupied b.before + 2 ∧
    r.slot m (r.occupied b.before) = recordA ∧
    r.slot m (r.occupied b.before + 1) = recordB := by
  obtain ⟨g, hg, hstage⟩ : ∃ g ∈ b.shown, g.stage = .done := by
    cases hshown : b.shown with
    | none => simp [Boot.done, hshown] at hdone
    | some g => exact ⟨g, rfl, by simpa [Boot.done, hshown] using hdone⟩
  obtain ⟨hn, hfirst, hsecond⟩ := (h.shown g hg).of_done hstage
  exact ⟨hn, (h.kept.kept _ (by omega)).trans hfirst, (h.kept.kept _ (by omega)).trans hsecond⟩

variable (hparams : dev.params = some params) (hsize : regionSize < 2 ^ abi.size.bits)
include hparams hsize

theorem Boots.keeps (hpre : (region params base regionSize).Prefix start)
    (h : Boots abi dev base regionSize start boots m) :
    (∀ b ∈ boots, b.Told (region params base regionSize) m) ∧
    Extends (region params base regionSize) start ((region params base regionSize).occupied start)
      m ((region params base regionSize).occupied m) ∧
    (region params base regionSize).occupied start + 2 * boots.countP (·.done) ≤
      (region params base regionSize).occupied m := by
  induction h with
  | none => exact ⟨fun b hb => absurd hb List.not_mem_nil, .refl hpre.filled, Nat.le_refl _⟩
  | @boot boots last t x m m' _ he ih =>
    obtain ⟨htold, hext, hcount⟩ := ih
    have hsound := (lab23Main_returns hparams hsize hext.filled last).sound he
    obtain ⟨n', hbooted, hshown⟩ : ∃ n', Booted (region params base regionSize) m
        ((region params base regionSize).occupied m) m' n' ∧
        ∀ g ∈ x, Outcome (region params base regionSize)
          ((region params base regionSize).occupied m) m' n' g := by
      cases x with
      | none =>
        obtain ⟨n', hb⟩ := hsound.2 rfl
        exact ⟨n', hb, fun g hg => absurd hg (Option.not_mem_none g)⟩
      | some g =>
        obtain ⟨n', hb, hout⟩ := hsound.1 g rfl
        exact ⟨n', hb, fun _ hg => Option.some.inj hg ▸ hout⟩
    obtain rfl := hbooted.extends_.filled.toPrefix.filled.unique hbooted.extends_.filled
    have hlast : Boot.Told (region params base regionSize) m' ⟨m, x, m'⟩ :=
      ⟨hbooted, hshown, .refl hbooted.extends_.filled⟩
    refine ⟨fun b hb => ?_, hext.trans hbooted.extends_, ?_⟩
    · rcases List.mem_append.mp hb with hb | hb
      · exact (htold b hb).extend hbooted.extends_
      · exact List.mem_singleton.mp hb ▸ hlast
    · have hgrown := hbooted.extends_.grown
      rw [List.countP_append, List.countP_singleton]
      split
      · next hdone =>
        have hrecords : (region params base regionSize).occupied m' =
            (region params base regionSize).occupied m + 2 := (hlast.records hdone).1
        omega
      · omega

/-- From a region whose occupied slots are a prefix, in any sequence of boots, with failing
operations and power cuts anywhere in them: they stay a prefix, and keep their bytes.  Each boot
occupies at most two more slots, none when two are not left, and shows what it has found and done.
The records of a boot that was done stay for ever, each such boot has two slots of its own, and
while two slots are left, a next boot without faults is done. -/
theorem lab23_boots (hpre : (region params base regionSize).Prefix start)
    (h : Boots abi dev base regionSize start boots m) :
    (region params base regionSize).Prefix m ∧
    (∀ k < (region params base regionSize).occupied start,
      (region params base regionSize).slot m k = (region params base regionSize).slot start k) ∧
    (∀ b ∈ boots, b.Told (region params base regionSize) m ∧
      (b.done = true →
        (region params base regionSize).slot m
          ((region params base regionSize).occupied b.before) = recordA ∧
        (region params base regionSize).slot m
          ((region params base regionSize).occupied b.before + 1) = recordB)) ∧
    (region params base regionSize).occupied start + 2 * boots.countP (·.done) ≤
      (region params base regionSize).capacity ∧
    (Geometry abi dev base regionSize →
      (region params base regionSize).occupied m + 2 ≤ (region params base regionSize).capacity →
      ∀ last, ∃ g m', (lab23Main abi dev base regionSize last).run faultFree m = (g, m') ∧
        g.stage = .done) := by
  obtain ⟨htold, hext, hcount⟩ := h.keeps hparams hsize hpre
  refine ⟨hext.filled.toPrefix, hext.kept, fun b hb => ⟨htold b hb, fun hdone => ?_⟩,
    Nat.le_trans hcount hext.filled.bound, fun hg hroom last => ?_⟩
  · exact ((htold b hb).records hdone).2
  · obtain ⟨g, m', hrun, hread⟩ := lab23Main_run hparams hg hsize hext.filled hroom last
    obtain ⟨t, he⟩ := faultFree_handles.exec (lab23Main abi dev base regionSize last) m
    obtain ⟨n', -, hout⟩ := ((lab23Main_returns hparams hsize hext.filled last).sound he).1 _ rfl
    rw [hrun] at hout
    exact ⟨g, m', hrun, (hout.verified hread).1⟩

end Boots

/-- A first boot of the erased flash stores its records for good. -/
theorem lab23_boots_first : ∃ boots m, Boots target simFlash 0x7000 32 erased.image boots m ∧
    boots.map (·.done) = [true] ∧ (region ⟨0xff⟩ 0x7000 32).slot m 0 = recordA ∧
    (region ⟨0xff⟩ 0x7000 32).slot m 1 = recordB := by
  have hsize : 32 < 2 ^ target.size.bits := by decide
  have hzero : (region ⟨0xff⟩ 0x7000 32).occupied erased.image = 0 :=
    erased_filled.toPrefix.filled.unique erased_filled
  obtain ⟨-, -, -, -, hnext⟩ := lab23_boots rfl hsize erased_filled.toPrefix
    (.none : Boots target simFlash 0x7000 32 erased.image [] _)
  obtain ⟨g, m, hrun, hdone⟩ := hnext target_geometry (by rw [hzero]; decide) recordA
  obtain ⟨t, he⟩ :=
    faultFree_handles.exec (lab23Main target simFlash 0x7000 32 recordA) erased.image
  rw [hrun] at he
  have hboots := Boots.boot .none he
  have hshown : Boot.done ⟨erased.image, some g, m⟩ = true := by
    simp [Boot.done, hdone]
  obtain ⟨-, -, hrecords, -⟩ := lab23_boots rfl hsize erased_filled.toPrefix hboots
  obtain ⟨hfirst, hsecond⟩ := (hrecords _ (List.mem_singleton_self _)).2 hshown
  rw [hzero] at hfirst hsecond
  exact ⟨_, m, hboots, by simp [hshown], hfirst, hsecond⟩

end CortexLabs.BootLog
