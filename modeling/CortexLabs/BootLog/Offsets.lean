import CortexLabs.BootLog.Calls
import CortexLabs.Device.Footprint
import CortexLabs.Device.Wp

/-! The offsets of a run of calls on a context, whatever the flash answers.  Every access is on a
slot of the region that the last initialization accepted.  That no value leaves its type on the way
to an offset is said of the calls themselves: `slot_offset` may be replaced by any function that
agrees with it where it overflows nowhere, and every call stays the same. -/

namespace CortexLabs.BootLog

open Device Errno

/-! ### Arithmetic without overflow -/

namespace Abi

variable (abi : Abi)

/-- A value of `size_t`; none if it does not represent `n`. -/
def checkSize (n : Nat) : Option Nat := if n < 2 ^ abi.size.bits then some n else none

/-- A value of `off_t`; none if it does not represent `i`. -/
def checkOff (i : Int) : Option Int :=
  if -2 ^ (abi.off.bits - 1) ≤ i ∧ i < 2 ^ (abi.off.bits - 1) then some i else none

theorem checkOff_of_le {n : Nat} (h : n ≤ abi.offMax) : abi.checkOff n = some (n : Int) := by
  obtain ⟨off, size⟩ := abi
  cases off <;> simp [checkOff, offMax, Width.bits] at h ⊢ <;> omega

end Abi

/-- `slot_offset`, if no value on the way leaves its type. -/
def checkSlotOffset (abi : Abi) : Context → Nat → Option Int :=
  slotOffsetBy abi.checkSize abi.checkOff

/-- The two functions give the same offsets for the first `n` slots of a context at `base`. -/
def Agree (f g : Context → Nat → Int) (base : Int) (n : Nat) : Prop :=
  ∀ log : Context, log.base = base → ∀ k < n, f log k = g log k

section Agree

variable {f g : Context → Nat → Int} {abi : Abi} {n : Nat}

theorem scanSlotsAt_congr {slots : List Nat} {log : Context} (foundEmpty : Bool)
    (h : Agree f g log.base n) (hslots : ∀ k ∈ slots, k < n) :
    scanSlotsAt f slots log foundEmpty = scanSlotsAt g slots log foundEmpty := by
  induction slots generalizing log foundEmpty with
  | nil => rfl
  | cons k slots ih =>
    have hrest : ∀ k ∈ slots, k < n := fun k hk => hslots k (List.mem_cons_of_mem _ hk)
    rw [scanSlotsAt, scanSlotsAt, h log rfl k (hslots k List.mem_cons_self)]
    refine congrArg (_ >>= ·) (funext fun x => ?_)
    rw [ih true h hrest, @ih { log with nextSlot := k + 1 } foundEmpty h hrest]

theorem bootLogInitAt_congr {dev : Dev} {base : Int} {regionSize : Nat} (log : Context)
    (h : Geometry abi dev base regionSize → Agree f g base (regionSize / recordSize)) :
    bootLogInitAt f abi (some log) (some dev) base regionSize =
      bootLogInitAt g abi (some log) (some dev) base regionSize := by
  unfold bootLogInitAt
  by_cases h1 : base < 0 ∨ regionSize < recordSize ∨ regionSize % recordSize ≠ 0
  · simp only [if_pos h1]
  by_cases h2 : base.toNat > abi.offMax ∨ regionSize > abi.offMax - base.toNat
  · simp only [if_neg h1, if_pos h2]
  by_cases h3 : dev.writeBlockSize = 0 ∨ recordSize % dev.writeBlockSize ≠ 0 ∨
      base.toNat % dev.writeBlockSize ≠ 0
  · simp only [if_neg h1, if_neg h2, if_pos h3]
  have hg : Geometry abi dev base regionSize :=
    ⟨by omega, by omega, by omega, by omega, by omega, by omega, by omega, by omega⟩
  simp only [if_neg h1, if_neg h2, if_neg h3]
  cases dev.params with
  | none => rfl
  | some params =>
    have hscan : ∀ start : Context, start.base = base →
        scanSlotsAt f (List.range (regionSize / recordSize)) start false =
          scanSlotsAt g (List.range (regionSize / recordSize)) start false := by
      rintro start rfl
      exact scanSlotsAt_congr false (h hg) fun k hk => List.mem_range.mp hk
    dsimp only
    rw [hscan _ rfl]

theorem bootLogAppendAt_congr {log : Context} (record : Option Record)
    (h : log.initialized = true → Agree f g log.base (log.regionSize / recordSize)) :
    bootLogAppendAt f (some log) record = bootLogAppendAt g (some log) record := by
  cases record with
  | none => rfl
  | some record =>
    rw [bootLogAppendAt, bootLogAppendAt]
    by_cases hi : log.initialized = true
    · by_cases hroom : log.nextSlot ≥ log.regionSize / recordSize
      · simp only [if_pos hroom]
      · have hoffset := h hi log rfl log.nextSlot (Nat.lt_of_not_le hroom)
        have hslot : appendSlotAt f log record = appendSlotAt g log record := by
          rw [appendSlotAt, appendSlotAt, hoffset]
        rw [hslot]
    · rw [if_pos (.inl (by simpa using hi)), if_pos (.inl (by simpa using hi))]

theorem bootLogReadLastAt_congr {log : Context} (out : Option Record)
    (h : log.initialized = true → ∃ n, Agree f g log.base n ∧ log.nextSlot ≤ n) :
    bootLogReadLastAt f (some log) out = bootLogReadLastAt g (some log) out := by
  cases out with
  | none => rfl
  | some out =>
    rw [bootLogReadLastAt, bootLogReadLastAt]
    by_cases hi : log.initialized = true
    · by_cases hnone : log.nextSlot = 0
      · simp only [if_pos hnone]
      · obtain ⟨n, hagree, hnext⟩ := h hi
        rw [hagree log rfl (log.nextSlot - 1) (by omega)]
    · rw [if_pos (.inl (by simpa using hi)), if_pos (.inl (by simpa using hi))]

end Agree

/-- An access to 16 bytes of the region `[base, base + regionSize)`, from a multiple of the write
block size on, at an offset that is computed without overflow. -/
def Op.Placed (abi : Abi) (block : Nat) (base : Int) (regionSize : Nat) : Op → Prop
  | .ready => True
  | .read offset len | .write offset len _ =>
    (∃ log index, log.base = base ∧ checkSlotOffset abi log index = some offset) ∧
      len = recordSize ∧ base ≤ offset ∧ offset + recordSize ≤ base + regionSize ∧
      offset.toNat % block = 0

section Placed

variable {abi : Abi} {dev : Dev} {base : Int} {regionSize : Nat}

/-- On the slots of an accepted geometry `slot_offset` does not overflow. -/
theorem Geometry.checkSlotOffset_eq (h : Geometry abi dev base regionSize)
    (hsize : regionSize < 2 ^ abi.size.bits) {log : Context} (hbase : log.base = base) {k : Nat}
    (hk : k < regionSize / recordSize) :
    checkSlotOffset abi log k = some (slotOffset abi log k) := by
  have hend : k * recordSize < regionSize := by
    have := h.whole
    simp only [recordSize] at hk this ⊢
    omega
  have hfits := h.sizeFits
  have hfits0 := h.baseFits
  have hnonneg := h.nonneg
  have hproduct : abi.checkSize (k * recordSize) = some (k * recordSize) := if_pos (by omega)
  have hstart := abi.checkOff_of_le (n := k * recordSize) (by omega)
  have hsum := abi.checkOff_of_le (n := base.toNat + k * recordSize) (by omega)
  have hadd : log.base + (k * recordSize : Nat) = (base.toNat + k * recordSize : Nat) := by omega
  rw [h.slotOffset_eq hsize hbase hk]
  show ((abi.checkSize (k * recordSize)).bind fun product =>
    (abi.checkOff product).bind fun start => abi.checkOff (log.base + start)) = _
  rw [hproduct, Option.bind_some, hstart, Option.bind_some, hadd]
  exact hsum

/-- Every slot of an accepted geometry is placed. -/
theorem Geometry.placed (h : Geometry abi dev base regionSize)
    (hsize : regionSize < 2 ^ abi.size.bits) {log : Context} (hbase : log.base = base) {k : Nat}
    (hk : k < regionSize / recordSize) :
    base ≤ slotOffset abi log k ∧ slotOffset abi log k + recordSize ≤ base + regionSize ∧
      (slotOffset abi log k).toNat % dev.writeBlockSize = 0 := by
  have hend : k * recordSize + recordSize ≤ regionSize := by
    have := h.whole
    simp only [recordSize] at hk this ⊢
    omega
  have hnonneg := h.nonneg
  rw [h.slotOffset_eq hsize hbase hk]
  refine ⟨by omega, by omega, ?_⟩
  rw [Int.toNat_natCast]
  exact Nat.mod_eq_zero_of_dvd (Nat.dvd_add (Nat.dvd_of_mod_eq_zero h.baseBlocks)
    (Nat.dvd_mul_left_of_dvd (Nat.dvd_of_mod_eq_zero h.recordBlocks) k))

end Placed

/-! ### Runs -/

/-- The arguments of an initialization, but for the pointers. -/
structure Arguments (abi : Abi) where
  dev : Dev
  base : Int
  regionSize : Fin (2 ^ abi.size.bits)

/-- The arguments pass the checks of `boot_log_init`. -/
def Arguments.Accepted {abi : Abi} (args : Arguments abi) : Prop :=
  Geometry abi args.dev args.base args.regionSize

/-- The operation is placed in the region of the arguments. -/
def Arguments.Places {abi : Abi} (args : Arguments abi) (op : Op) : Prop :=
  op.Placed abi args.dev.writeBlockSize args.base args.regionSize

inductive Request (abi : Abi) where
  | init (dev : Option Dev) (base : Int) (regionSize : Fin (2 ^ abi.size.bits))
  | append (record : Option Record)
  | readLast (out : Option Record)

section Runs

variable {abi : Abi}

/-- A call, where `offsetOf` stands in the place of `slot_offset`. -/
def Request.programAt (offsetOf : Context → Nat → Int) (log : Context) :
    Request abi → FlashProgram (Int × Option Context)
  | .init dev base regionSize => bootLogInitAt offsetOf abi (some log) dev base regionSize
  | .append record => bootLogAppendAt offsetOf (some log) record
  | .readLast out => do
    let (rc, _) ← bootLogReadLastAt offsetOf (some log) out
    return (rc, some log)

def Request.program (log : Context) : Request abi → FlashProgram (Int × Option Context)
  | .init dev base regionSize => bootLogInit abi (some log) dev base regionSize
  | .append record => bootLogAppend abi (some log) record
  | .readLast out => do
    let (rc, _) ← bootLogReadLast abi (some log) out
    return (rc, some log)

/-- Whatever the flash answers, the call does not rely on a value of `slot_offset` that has
overflowed on the way. -/
def Request.Exact (request : Request abi) (log : Context) : Prop :=
  ∀ offsetOf : Context → Nat → Int,
    (∀ log index offset, checkSlotOffset abi log index = some offset →
      offsetOf log index = offset) →
    request.programAt offsetOf log = request.program log

/-- The arguments of the last initialization, after the request; none if it had no device. -/
def Request.latest (last : Option (Arguments abi)) : Request abi → Option (Arguments abi)
  | .init dev base regionSize => dev.map (⟨·, base, regionSize⟩)
  | .append _ | .readLast _ => last

/-- A call that has returned, with the context that it found, the operations that it issued and the
arguments of the last initialization, its own included. -/
structure Returned (abi : Abi) (D : Behavior Op Ans) where
  request : Request abi
  log : Context
  args : Option (Arguments abi)
  ops : List (Event D)

/-- Calls on a context, one after the other, each from any state of the flash. -/
inductive Requests (abi : Abi) (D : Behavior Op Ans) :
    Context → Option (Arguments abi) → List (Returned abi D) → Prop
  | nil (log : Context) (last : Option (Arguments abi)) : Requests abi D log last []
  | call {log log' : Context} {last : Option (Arguments abi)} {request : Request abi}
      {s s' : D.State} {t : List (Event D)} {rc : Int} {rest : List (Returned abi D)} :
      Exec D (request.program log) s t (some (rc, some log')) s' →
      Requests abi D log' (request.latest last) rest →
      Requests abi D log last (⟨request, log, request.latest last, t⟩ :: rest)

/-- What an initialized context holds: arguments that were accepted, and a next slot in the region
or just past it. -/
structure Fit (args : Arguments abi) (log : Context) : Prop where
  accepted : args.Accepted
  dev : log.dev = some args.dev
  base : log.base = args.base
  regionSize : log.regionSize = args.regionSize
  next : log.nextSlot ≤ args.regionSize / recordSize

variable {args : Arguments abi} {log : Context} {D : Behavior Op Ans} {s : D.State}

theorem Arguments.Accepted.placed (h : args.Accepted) (hbase : log.base = args.base) {k : Nat}
    (hk : k < args.regionSize / recordSize) (record : Record) :
    args.Places (.read (slotOffset abi log k) recordSize) ∧
      args.Places (.write (slotOffset abi log k) recordSize record) := by
  have hexact := Geometry.checkSlotOffset_eq h args.regionSize.isLt hbase hk
  have hplaced := Geometry.placed h args.regionSize.isLt hbase hk
  exact ⟨⟨⟨log, k, hbase, hexact⟩, rfl, hplaced⟩, ⟨log, k, hbase, hexact⟩, rfl, hplaced⟩

/-- What agrees with `slot_offset` where that does not overflow, agrees with it on the slots. -/
theorem Arguments.Accepted.agree (h : args.Accepted) {offsetOf : Context → Nat → Int}
    (hexact : ∀ log index offset, checkSlotOffset abi log index = some offset →
      offsetOf log index = offset) :
    Agree offsetOf (slotOffset abi) args.base (args.regionSize / recordSize) :=
  fun _ hbase _ hk =>
    hexact _ _ _ (Geometry.checkSlotOffset_eq h args.regionSize.isLt hbase hk)

/-- Every access of the scan is placed. -/
theorem scanSlots_issues (h : args.Accepted) {k len : Nat} {foundEmpty : Bool}
    (hlen : k + len = args.regionSize / recordSize) (hbase : log.base = args.base) :
    (scanSlots abi (List.range' k len) log foundEmpty).Issues args.Places := by
  induction len generalizing k log foundEmpty with
  | zero => exact trivial
  | succ len ih =>
    have hk : k < args.regionSize / recordSize := by omega
    rw [List.range'_succ, scanSlots_cons]
    apply Program.issues_bind
    · exact Program.issues_issue (h.placed hbase hk (Vector.replicate _ 0)).1
    · intro x
      split
      · exact trivial
      split
      · exact ih (by omega) hbase
      split
      · exact trivial
      · exact ih (by omega) hbase

/-- What the scan leaves of a context: its geometry, and a next slot among those scanned. -/
theorem scanSlots_keeps {k len : Nat} {foundEmpty : Bool} (hnext : log.nextSlot ≤ k)
    (hunusable : log.initialized = false) :
    wp D (fun x _ => x.2.initialized = true → x.2.dev = log.dev ∧ x.2.base = log.base ∧
      x.2.regionSize = log.regionSize ∧ x.2.nextSlot ≤ k + len)
      (scanSlots abi (List.range' k len) log foundEmpty) s := by
  induction len generalizing k log foundEmpty s with
  | zero => exact fun _ => ⟨rfl, rfl, rfl, hnext⟩
  | succ len ih =>
    have hfailed : log.initialized ≠ true := by simp [hunusable]
    rw [List.range'_succ, scanSlots_cons]
    apply wp_seq (wp_any _ _)
    intro x d _
    have hrest : k + (len + 1) = k + 1 + len := by omega
    rw [hrest]
    split
    · exact fun hi => absurd hi hfailed
    split
    · exact ih (by omega) hunusable
    split
    · exact fun hi => absurd hi hfailed
    · have hnext : ({ log with nextSlot := k + 1 } : Context).nextSlot ≤ k + 1 := Nat.le_refl _
      apply wp_mono (ih hnext hunusable)
      exact fun _ _ hkept => hkept

/-- What holds of an initialization that fails before its scan, is kept by the question whether the
device is ready, and holds of the scan with accepted arguments, holds of every initialization. -/
theorem bootLogInit_rule {P : FlashProgram (Int × Option Context) → Prop} (args : Arguments abi)
    (log : Context) (hfail : ∀ rc, P (pure (rc, some .zero)))
    (hready : ∀ f : Bool → FlashProgram (Int × Option Context), (∀ ready, P (f ready)) →
      P (deviceIsReady >>= f))
    (hscan : args.Accepted → ∀ params, P (scanSlots abi (List.range (args.regionSize / recordSize))
      (scanStart args.dev params args.base args.regionSize) false >>=
        fun x => pure (x.1, some x.2))) :
    P (bootLogInit abi (some log) (some args.dev) args.base args.regionSize) := by
  unfold bootLogInit bootLogInitAt
  by_cases h1 : args.base < 0 ∨ args.regionSize.val < recordSize ∨
      args.regionSize.val % recordSize ≠ 0
  · simp only [if_pos h1]
    exact hfail _
  by_cases h2 : args.base.toNat > abi.offMax ∨ args.regionSize > abi.offMax - args.base.toNat
  · simp only [if_neg h1, if_pos h2]
    exact hfail _
  simp only [if_neg h1, if_neg h2]
  apply hready
  intro ready
  split
  · exact hfail _
  split
  · exact hfail _
  next h3 =>
  split
  · exact hfail _
  next params _ =>
  apply hscan ⟨by omega, by omega, by omega, by omega, by omega, by omega, by omega, by omega⟩

theorem bootLogInit_issues (args : Arguments abi) (log : Context) :
    (bootLogInit abi (some log) (some args.dev) args.base args.regionSize).Issues fun op =>
      op = .ready ∨ args.Accepted ∧ args.Places op := by
  apply bootLogInit_rule args log
  · exact fun _ => trivial
  · exact fun f hf => Program.issues_bind (Program.issues_issue (.inl rfl)) hf
  · intro haccepted params
    apply Program.issues_bind
    · rw [List.range_eq_range']
      exact (scanSlots_issues haccepted (Nat.zero_add _) rfl).mono fun op hop =>
        .inr ⟨haccepted, hop⟩
    · exact fun _ => trivial

/-- An initialization that leaves an initialized context has accepted its arguments. -/
theorem bootLogInit_fit (args : Arguments abi) (log : Context) :
    wp D (fun x _ => ∀ log', x.2 = some log' → log'.initialized = true → Fit args log')
      (bootLogInit abi (some log) (some args.dev) args.base args.regionSize) s := by
  suffices h : ∀ s, wp D (fun x _ => ∀ log', x.2 = some log' → log'.initialized = true →
      Fit args log') (bootLogInit abi (some log) (some args.dev) args.base args.regionSize) s from
    h s
  apply bootLogInit_rule (P := fun p => ∀ s, wp D (fun x _ => ∀ log', x.2 = some log' →
    log'.initialized = true → Fit args log') p s) args log
  · rintro rc s _ ⟨⟩ hi
    exact absurd hi Bool.false_ne_true
  · exact fun f hf s ready d _ => hf ready d
  · intro haccepted params s
    rw [List.range_eq_range']
    apply wp_seq (scanSlots_keeps (Nat.le_refl 0) rfl)
    rintro x d hkept _ ⟨⟩ hi
    obtain ⟨hdev, hbase, hregion, hnext⟩ := hkept hi
    exact ⟨haccepted, hdev, hbase, hregion, by omega⟩

/-! ### Calls on a fit context -/

theorem bootLogAppend_issues (h : Fit args log) (record : Option Record) :
    (bootLogAppend abi (some log) record).Issues fun op =>
      op = .ready ∨ args.Accepted ∧ args.Places op := by
  cases record with
  | none => exact trivial
  | some record =>
    rw [bootLogAppend, bootLogAppendAt]
    split
    · exact trivial
    apply Program.issues_bind (Program.issues_issue (.inl rfl))
    intro ready
    split
    · exact trivial
    split
    · exact trivial
    split
    · exact trivial
    next hroom =>
    rw [h.regionSize] at hroom
    obtain ⟨hread, hwrite⟩ := h.accepted.placed h.base (Nat.lt_of_not_le hroom) record
    apply Program.issues_bind (Program.issues_issue (.inr ⟨h.accepted, hread⟩))
    intro x
    dsimp only
    split
    · exact trivial
    split
    · exact trivial
    apply Program.issues_bind (Program.issues_issue (.inr ⟨h.accepted, hwrite⟩))
    intro rc
    split
    · exact trivial
    apply Program.issues_bind (Program.issues_issue (.inr ⟨h.accepted, hread⟩))
    intro x
    split
    · exact trivial
    split
    · exact trivial
    · exact trivial

theorem bootLogReadLast_issues (h : Fit args log) (out : Option Record) :
    (bootLogReadLast abi (some log) out).Issues fun op =>
      op = .ready ∨ args.Accepted ∧ args.Places op := by
  cases out with
  | none => exact trivial
  | some out =>
    rw [bootLogReadLast, bootLogReadLastAt]
    split
    · exact trivial
    apply Program.issues_bind (Program.issues_issue (.inl rfl))
    intro ready
    split
    · exact trivial
    split
    · exact trivial
    next hsome =>
    have hlast : log.nextSlot - 1 < args.regionSize / recordSize := by
      have := h.next
      omega
    have hread := (h.accepted.placed h.base hlast out).1
    apply Program.issues_bind (Program.issues_issue (.inr ⟨h.accepted, hread⟩))
    intro x
    dsimp only
    split
    · exact trivial
    · exact trivial

/-- An append keeps what an initialized context holds. -/
theorem bootLogAppend_fit (h : Fit args log) (record : Option Record) :
    wp D (fun x _ => ∀ log', x.2 = some log' → log'.initialized = true → Fit args log')
      (bootLogAppend abi (some log) record) s := by
  have hsame : ∀ log', some log = some log' → log'.initialized = true → Fit args log' := by
    rintro _ ⟨⟩ _
    exact h
  have hfailed : ∀ log', some { log with initialized := false } = some log' →
      log'.initialized = true → Fit args log' := by
    rintro _ ⟨⟩ hi
    exact absurd hi Bool.false_ne_true
  cases record with
  | none => exact hsame
  | some record =>
    rw [bootLogAppend, bootLogAppendAt]
    split
    · exact hsame
    apply wp_seq (wp_any _ _)
    intro ready d _
    split
    · exact hsame
    split
    · exact hsame
    split
    · exact hsame
    next hroom =>
    rw [h.regionSize] at hroom
    apply wp_seq (wp_any _ _)
    intro x d _
    dsimp only
    split
    · exact hsame
    split
    · exact hfailed
    apply wp_seq (wp_any _ _)
    intro rc d _
    split
    · exact hfailed
    apply wp_seq (wp_any _ _)
    intro x d _
    split
    · exact hfailed
    split
    · exact hfailed
    · rintro _ ⟨⟩ _
      exact ⟨h.accepted, h.dev, h.base, h.regionSize, by dsimp only; omega⟩

/-! ### Runs of calls -/

def Request.IsInit (request : Request abi) : Prop :=
  ∃ dev base regionSize, request = .init dev base regionSize

/-- An initialized context holds the arguments of the last initialization. -/
def Tracks (last : Option (Arguments abi)) (log : Context) : Prop :=
  log.initialized = true → ∃ args, last = some args ∧ Fit args log

section Call

variable {last : Option (Arguments abi)} {request : Request abi}

/-- Every access of a call is placed in the region of the last initialization. -/
theorem Request.issues (h : request.IsInit ∨ Tracks last log) :
    (request.program log).Issues fun op => op = .ready ∨
      ∃ args, request.latest last = some args ∧ args.Accepted ∧ args.Places op := by
  cases request with
  | init dev base regionSize =>
    cases dev with
    | none => exact trivial
    | some dev =>
      apply (bootLogInit_issues ⟨dev, base, regionSize⟩ log).mono
      exact fun op hop => hop.imp_right fun hplaced => ⟨_, rfl, hplaced⟩
  | append record =>
    by_cases hi : log.initialized = true
    · rcases h with ⟨_, _, _, ⟨⟩⟩ | htracks
      obtain ⟨args, hlast, hfit⟩ := htracks hi
      apply (bootLogAppend_issues hfit record).mono
      exact fun op hop => hop.imp_right fun hplaced => ⟨args, hlast, hplaced⟩
    · rw [program, bootLogAppend_uninitialized (by simpa using hi)]
      exact trivial
  | readLast out =>
    by_cases hi : log.initialized = true
    · rcases h with ⟨_, _, _, ⟨⟩⟩ | htracks
      obtain ⟨args, hlast, hfit⟩ := htracks hi
      apply Program.issues_bind
      · apply (bootLogReadLast_issues hfit out).mono
        exact fun op hop => hop.imp_right fun hplaced => ⟨args, hlast, hplaced⟩
      · exact fun _ => trivial
    · rw [program, bootLogReadLast_uninitialized (by simpa using hi)]
      exact trivial

/-- No call relies on an offset that has overflowed. -/
theorem Request.exact (h : request.IsInit ∨ Tracks last log) : request.Exact log := by
  intro offsetOf hexact
  cases request with
  | init dev base regionSize =>
    cases dev with
    | none => rfl
    | some dev =>
      refine bootLogInitAt_congr log fun hg => ?_
      have haccepted : (⟨dev, base, regionSize⟩ : Arguments abi).Accepted := hg
      exact haccepted.agree hexact
  | append record =>
    refine bootLogAppendAt_congr record fun hi => ?_
    rcases h with ⟨_, _, _, ⟨⟩⟩ | htracks
    obtain ⟨args, -, hfit⟩ := htracks hi
    rw [hfit.base, hfit.regionSize]
    exact hfit.accepted.agree hexact
  | readLast out =>
    have hsame : bootLogReadLastAt offsetOf (some log) out =
        bootLogReadLast abi (some log) out := by
      refine bootLogReadLastAt_congr out fun hi => ?_
      rcases h with ⟨_, _, _, ⟨⟩⟩ | htracks
      obtain ⟨args, -, hfit⟩ := htracks hi
      rw [hfit.base]
      exact ⟨_, hfit.accepted.agree hexact, hfit.next⟩
    rw [programAt, program, hsame]

/-- A call leaves a context that holds the arguments of the last initialization. -/
theorem Request.tracks (h : request.IsInit ∨ Tracks last log) :
    wp D (fun x _ => ∀ log', x.2 = some log' → Tracks (request.latest last) log')
      (request.program log) s := by
  cases request with
  | init dev base regionSize =>
    cases dev with
    | none =>
      rintro _ ⟨⟩ hi
      exact absurd hi Bool.false_ne_true
    | some dev =>
      apply wp_mono (bootLogInit_fit ⟨dev, base, regionSize⟩ log)
      exact fun x _ hfit log' hx hi => ⟨_, rfl, hfit log' hx hi⟩
  | append record =>
    by_cases hi : log.initialized = true
    · rcases h with ⟨_, _, _, ⟨⟩⟩ | htracks
      obtain ⟨args, hlast, hfit⟩ := htracks hi
      apply wp_mono (bootLogAppend_fit hfit record)
      exact fun x _ hkept log' hx hi => ⟨args, hlast, hkept log' hx hi⟩
    · rw [program, bootLogAppend_uninitialized (by simpa using hi)]
      rintro _ ⟨⟩ hi'
      exact absurd hi' hi
  | readLast out =>
    apply wp_seq (wp_any _ _)
    rintro x d _ _ ⟨⟩
    rcases h with ⟨_, _, _, ⟨⟩⟩ | htracks
    exact htracks

end Call

theorem requests_offsets {last : Option (Arguments abi)} {calls : List (Returned abi D)}
    (h : Requests abi D log last calls)
    (hstart : (∃ call rest, calls = call :: rest ∧ call.request.IsInit) ∨ Tracks last log) :
    ∀ call ∈ calls, call.request.Exact call.log ∧ ∀ e ∈ call.ops, e.op ≠ .ready →
      ∃ args, call.args = some args ∧ args.Accepted ∧ args.Places e.op := by
  induction h with
  | nil => exact fun call hcall => absurd hcall List.not_mem_nil
  | @call log log' last request s s' t rc rest he _ ih =>
    have hfirst : request.IsInit ∨ Tracks last log := by
      rcases hstart with ⟨_, _, ⟨⟩, hinit⟩ | htracks
      · exact .inl hinit
      · exact .inr htracks
    intro call hcall
    rcases List.mem_cons.mp hcall with rfl | hcall
    · refine ⟨Request.exact hfirst, fun e hmem hop => ?_⟩
      exact (he.ops (Request.issues hfirst) e hmem).resolve_left hop
    · exact ih (.inr (wp_sound (Request.tracks hfirst) he log' rfl)) call hcall

/-- In every run of calls on a context that is not initialized, or that the first call initializes,
whatever the flash answers: no call relies on an offset that has overflowed on the way, and every
read and write covers 16 bytes of the region that the arguments of the last initialization describe,
which have passed the checks, from a multiple of the write block size on. -/
theorem run_offsets {calls : List (Returned abi D)} (h : Requests abi D log none calls)
    (hstart : log.initialized = false ∨
      ∃ call rest, calls = call :: rest ∧ call.request.IsInit) :
    ∀ call ∈ calls, call.request.Exact call.log ∧ ∀ e ∈ call.ops, e.op ≠ .ready →
      ∃ args, call.args = some args ∧ args.Accepted ∧ args.Places e.op := by
  apply requests_offsets h
  rcases hstart with hunusable | hinit
  · exact .inr fun hi => absurd (hunusable.symm.trans hi) Bool.false_ne_true
  · exact .inl hinit

end Runs

/-- An initialization over the last two slots below `2^31`. -/
theorem run_offsets_top : ∃ request : Request ⟨.bits32, .bits32⟩, ∃ t rc log m,
    request.program .zero =
      bootLogInit ⟨.bits32, .bits32⟩ (some .zero) (some ⟨16, some ⟨0xff⟩⟩) 0x7fffffd0 32 ∧
    Exec flash (request.program .zero) (fun _ => 0xff) t (some (rc, some log)) m ∧
    request.Exact .zero ∧
    ∀ e ∈ t, e.op ≠ .ready → e.op.Placed ⟨.bits32, .bits32⟩ 16 0x7fffffd0 32 := by
  have hfilled : (region ⟨0xff⟩ 0x7fffffd0 32).Filled (fun _ => 0xff) 0 := Region.filled_erased _
  have hsize : 32 < 2 ^ (Abi.mk .bits32 .bits32).size.bits := by decide
  obtain ⟨rc, log, hrun, -, -⟩ : ∃ rc log', (bootLogInit ⟨.bits32, .bits32⟩ (some .zero)
      (some ⟨16, some ⟨0xff⟩⟩) 0x7fffffd0 32).run faultFree (fun _ => 0xff) =
        ((rc, some log'), fun _ => 0xff) ∧ _ := bootLogInit_run rfl hsize hfilled .zero
  obtain ⟨t, ht⟩ := faultFree_handles.exec (bootLogInit ⟨.bits32, .bits32⟩ (some .zero)
    (some ⟨16, some ⟨0xff⟩⟩) 0x7fffffd0 32) fun _ => 0xff
  rw [hrun] at ht
  let request : Request ⟨.bits32, .bits32⟩ := .init (some ⟨16, some ⟨0xff⟩⟩) 0x7fffffd0 ⟨32, hsize⟩
  have hcalls : Requests ⟨.bits32, .bits32⟩ flash .zero none
      [⟨request, .zero, request.latest none, t⟩] := .call ht (.nil log _)
  obtain ⟨hexact, hops⟩ := run_offsets hcalls (.inl rfl) _ List.mem_cons_self
  refine ⟨request, t, rc, log, _, rfl, ht, hexact, fun e he hop => ?_⟩
  obtain ⟨args, hargs, -, hplaced⟩ := hops e he hop
  cases hargs
  exact hplaced

end CortexLabs.BootLog
