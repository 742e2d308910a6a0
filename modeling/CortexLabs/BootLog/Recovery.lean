import CortexLabs.BootLog.AppendOnly

/-! Recovery over any content of the region and any read errors: what `boot_log_init` has seen of
the slots before each turn of its loop, the slot where it stops, and what the context it leaves is
good for. -/

namespace CortexLabs.BootLog

open Device

/-- A ready flash whose reads from address `a` return `errors a`, and the stored bytes when that is
zero. -/
abbrev faultyReads (errors : Nat → Int) : Behavior Op Ans where
  State := Memory
  answer m
    | .ready, ready, m' => ready = true ∧ m' = m
    | .read offset len, (rc, data), m' => m' = m ∧ rc = errors offset.toNat ∧
        (rc = 0 → data = m.read offset.toNat len)
    | .write offset len _, _, m' => Region.Within m offset.toNat len m'
  torn _ _ _ := False

namespace Region

variable (r : Region) (m : Memory) (errors : Nat → Int)

/-- What the read of a slot returns. -/
def readError (k : Nat) : Int := errors (r.base + k * recordSize)

/-- The slot can be read, and it is not an occupied slot after an erased one. -/
def Passes (k : Nat) : Prop :=
  r.readError errors k = 0 ∧ (¬r.Erased m k → ∀ j < k, ¬r.Erased m j)

/-- Slot `k` is the first one that does not pass, and `rc` says why: its read error, or `-EILSEQ`
when it is occupied after an erased slot. -/
structure StopsAt (k : Nat) (rc : Int) : Prop where
  bound : k < r.capacity
  before : ∀ j < k, r.Passes m errors j
  reason : r.readError errors k ≠ 0 ∧ rc = r.readError errors k ∨
    r.readError errors k = 0 ∧ ¬r.Erased m k ∧ (∃ j < k, r.Erased m j) ∧ rc = -Errno.eilseq

variable {r m errors}

theorem passes_iff_prefix : (∀ k < r.capacity, r.Passes m errors k) ↔
    (∀ k < r.capacity, r.readError errors k = 0) ∧ r.Prefix m := by
  constructor
  · intro h
    refine ⟨fun k hk => (h k hk).1, fun i j hij hj hocc => ?_⟩
    rcases Nat.lt_or_eq_of_le hij with hlt | rfl
    · exact (h j hj).2 hocc i hlt
    · exact hocc
  · rintro ⟨hread, hpre⟩ k hk
    exact ⟨hread k hk, fun hocc j hj => hpre j k (by omega) hk hocc⟩

theorem StopsAt.status_ne_zero {k : Nat} {rc : Int} (h : r.StopsAt m errors k rc) : rc ≠ 0 := by
  rcases h.reason with ⟨hne, rfl⟩ | ⟨-, -, -, rfl⟩
  · exact hne
  · decide

theorem StopsAt.not_passes {k : Nat} {rc : Int} (h : r.StopsAt m errors k rc) :
    ¬r.Passes m errors k := by
  rintro ⟨hread, hocc⟩
  rcases h.reason with ⟨hne, -⟩ | ⟨-, hoccupied, ⟨j, hj, herased⟩, -⟩
  · exact hne hread
  · exact hocc hoccupied j hj herased

end Region

variable {abi : Abi} {dev : Dev} {params : FlashParameters} {base : Int} {regionSize : Nat}

/-- What the loop of `boot_log_init` knows before slot `k`. -/
structure Seen (abi : Abi) (dev : Dev) (params : FlashParameters) (base : Int) (regionSize : Nat)
    (m : Memory) (errors : Nat → Int) (k : Nat) (log : Context) (foundEmpty : Bool) : Prop where
  opened : Opened abi dev params base regionSize log
  passed : ∀ j < k, (region params base regionSize).Passes m errors j
  found : foundEmpty = true ↔ ∃ j < k, (region params base regionSize).Erased m j
  nextSlot : log.nextSlot = Nat.count (fun j => ¬(region params base regionSize).Erased m j) k
  unusable : log.initialized = false

section Scan

variable {m : Memory} {errors : Nat → Int} {k : Nat} {log : Context} {foundEmpty : Bool}

/-- Before slot `k`, without an erased slot so far, all slots are counted. -/
theorem Seen.count (h : Seen abi dev params base regionSize m errors k log false) :
    Nat.count (fun j => ¬(region params base regionSize).Erased m j) k = k :=
  Nat.count_iff_forall.mpr fun j hj herased =>
    absurd (h.found.mpr ⟨j, hj, herased⟩) Bool.false_ne_true

theorem Seen.pass (h : Seen abi dev params base regionSize m errors k log foundEmpty)
    (hk : (region params base regionSize).Passes m errors k) :
    ∀ j < k + 1, (region params base regionSize).Passes m errors j := by
  intro j hj
  rcases Nat.lt_succ_iff_lt_or_eq.mp hj with hlt | rfl
  · exact h.passed j hlt
  · exact hk

theorem Seen.erased (h : Seen abi dev params base regionSize m errors k log foundEmpty)
    (hread : (region params base regionSize).readError errors k = 0)
    (he : (region params base regionSize).Erased m k) :
    Seen abi dev params base regionSize m errors (k + 1) log true := by
  refine ⟨h.opened, h.pass ⟨hread, fun hocc => absurd he hocc⟩, ?_, ?_, h.unusable⟩
  · exact ⟨fun _ => ⟨k, Nat.lt_succ_self k, he⟩, fun _ => rfl⟩
  · rw [h.nextSlot, Nat.count_succ, if_neg (not_not.mpr he), Nat.add_zero]

theorem Seen.occupied (h : Seen abi dev params base regionSize m errors k log false)
    (hread : (region params base regionSize).readError errors k = 0)
    (hocc : ¬(region params base regionSize).Erased m k) :
    Seen abi dev params base regionSize m errors (k + 1) { log with nextSlot := k + 1 } false := by
  have hnone : ∀ j < k, ¬(region params base regionSize).Erased m j :=
    fun j hj he => absurd (h.found.mpr ⟨j, hj, he⟩) Bool.false_ne_true
  obtain ⟨hg, hdev, hbase, hregion, herase⟩ := h.opened
  refine ⟨⟨hg, hdev, hbase, hregion, herase⟩, h.pass ⟨hread, fun _ => hnone⟩, ?_, ?_, h.unusable⟩
  · constructor
    · exact fun hfalse => absurd hfalse Bool.false_ne_true
    · rintro ⟨j, hj, he⟩
      rcases Nat.lt_succ_iff_lt_or_eq.mp hj with hlt | rfl
      · exact absurd he (hnone j hlt)
      · exact absurd he hocc
  · rw [Nat.count_succ, if_pos hocc, h.count]

/-- What the loop leaves: an accepted region, or the slot where it stopped. -/
def Scanned (dev : Dev) (params : FlashParameters) (base : Int) (regionSize : Nat) (m : Memory)
    (errors : Nat → Int) (x : Int × Context) : Prop :=
  x.1 = 0 ∧ (∀ k < regionSize / recordSize, (region params base regionSize).Passes m errors k) ∧
      x.2 = ⟨some dev, base, regionSize, (region params base regionSize).occupied m,
        params.eraseValue, true⟩ ∨
    (∃ k, (region params base regionSize).StopsAt m errors k x.1) ∧ x.2.initialized = false

theorem Seen.done
    (h : Seen abi dev params base regionSize m errors (regionSize / recordSize) log foundEmpty) :
    { log with initialized := true } = (⟨some dev, base, regionSize,
      (region params base regionSize).occupied m, params.eraseValue, true⟩ : Context) := by
  obtain ⟨⟨-, hdev, hbase, hregion, herase⟩, -, -, hnext, -⟩ := h
  obtain ⟨dev', base', size', next', erase', init'⟩ := log
  simp only at hdev hbase hregion herase hnext
  rw [hdev, hbase, hregion, herase, hnext]
  rfl

variable {h : (o : Op) → Memory → Ans o × Memory}

/-- The read of a slot returns what the errors say of it, and without one the slot's bytes. -/
theorem readSlot_handled (hh : Handles (faultyReads errors) h)
    (hsize : regionSize < 2 ^ abi.size.bits) (hopened : Opened abi dev params base regionSize log)
    (hk : k < (region params base regionSize).capacity) :
    ∃ data, (flashRead (slotOffset abi log k) recordSize).run h m =
        (((region params base regionSize).readError errors k, data), m) ∧
      ((region params base regionSize).readError errors k = 0 →
        data = (region params base regionSize).slot m k) := by
  obtain ⟨hm, hrc, hdata⟩ := hh m (.read (slotOffset abi log k) recordSize)
  rw [hopened.offset hsize hk, Int.toNat_natCast] at hrc hdata
  have hanswer : (flashRead (slotOffset abi log k) recordSize).run h m =
      (((h (.read (slotOffset abi log k) recordSize) m).1.1,
        (h (.read (slotOffset abi log k) recordSize) m).1.2), m) := Prod.ext rfl hm
  rw [hopened.offset hsize hk] at hanswer ⊢
  rw [hrc] at hanswer hdata
  exact ⟨_, hanswer, hdata⟩

/-- The loop over the slots from `k` on. -/
theorem scanSlots_handled (hh : Handles (faultyReads errors) h)
    (hsize : regionSize < 2 ^ abi.size.bits) {len : Nat}
    (hlen : k + len = regionSize / recordSize)
    (hseen : Seen abi dev params base regionSize m errors k log foundEmpty) :
    ∃ x, (scanSlots abi (List.range' k len) log foundEmpty).run h m = (x, m) ∧
      Scanned dev params base regionSize m errors x := by
  induction len generalizing k log foundEmpty with
  | zero =>
    obtain rfl : k = regionSize / recordSize := hlen
    exact ⟨_, rfl, .inl ⟨rfl, hseen.passed, hseen.done⟩⟩
  | succ len ih =>
    have hk : k < (region params base regionSize).capacity := by
      show k < regionSize / recordSize
      omega
    obtain ⟨data, hrun, hdata⟩ := readSlot_handled hh hsize hseen.opened hk
    rw [List.range'_succ, scanSlots_cons, Program.bind_eq, Program.run_bind, hrun]
    dsimp only
    generalize herror : (region params base regionSize).readError errors k = rc at *
    by_cases h0 : rc = 0
    · rw [h0] at herror
      have herased : isErased data log.eraseValue = true ↔
          (region params base regionSize).Erased m k := by
        rw [hdata h0, hseen.opened.eraseValue, Region.erased_iff]
        exact Iff.rfl
      rw [if_neg (not_not.mpr h0)]
      by_cases he : (region params base regionSize).Erased m k
      · rw [if_pos (herased.mpr he)]
        exact ih (by omega) (hseen.erased herror he)
      · rw [if_neg (mt herased.mp he)]
        cases foundEmpty with
        | false => exact ih (by omega) (hseen.occupied herror he)
        | true =>
          have hstop := Region.StopsAt.mk hk hseen.passed
            (.inr ⟨herror, he, hseen.found.mp rfl, rfl⟩)
          exact ⟨_, rfl, .inr ⟨⟨k, hstop⟩, hseen.unusable⟩⟩
    · rw [if_pos h0]
      have hstop := Region.StopsAt.mk hk hseen.passed (.inl ⟨herror ▸ h0, herror.symm⟩)
      exact ⟨_, rfl, .inr ⟨⟨k, hstop⟩, hseen.unusable⟩⟩

end Scan

section Init

variable {m : Memory} {errors : Nat → Int} {h : (o : Op) → Memory → Ans o × Memory}

theorem deviceIsReady_handled (hh : Handles (faultyReads errors) h) (m : Memory) :
    deviceIsReady.run h m = (true, m) := by
  obtain ⟨hready, hm⟩ := hh m .ready
  exact Prod.ext hready hm

/-- After an initialization that has counted the occupied slots, the last record is the one in the
last occupied slot. -/
theorem bootLogReadLast_handled (hh : Handles (faultyReads errors) h)
    (hg : Geometry abi dev base regionSize) (hsize : regionSize < 2 ^ abi.size.bits)
    (hpass : ∀ k < (region params base regionSize).capacity,
      (region params base regionSize).Passes m errors k)
    (out : Record) : (bootLogReadLast abi (some ⟨some dev, base, regionSize,
        (region params base regionSize).occupied m, params.eraseValue, true⟩) (some out)).run h m =
      if (region params base regionSize).occupied m = 0 then ((-Errno.enoent, some out), m)
      else ((0, some ((region params base regionSize).slot m
        ((region params base regionSize).occupied m - 1))), m) := by
  have hpre := (Region.passes_iff_prefix.mp hpass).2
  rw [bootLogReadLast, bootLogReadLastAt, if_neg (by simp), Program.bind_eq, Program.run_bind,
    deviceIsReady_handled hh]
  dsimp only
  rw [if_neg (by simp)]
  by_cases hnone : (region params base regionSize).occupied m = 0
  · rw [if_pos hnone, if_pos hnone]
    rfl
  · rw [if_neg hnone, if_neg hnone]
    have hlast : (region params base regionSize).occupied m - 1 <
        (region params base regionSize).capacity := by
      have := hpre.filled.bound
      omega
    have hopened : Opened abi dev params base regionSize ⟨some dev, base, regionSize,
        (region params base regionSize).occupied m, params.eraseValue, true⟩ :=
      ⟨hg, rfl, rfl, rfl, rfl⟩
    obtain ⟨data, hrun, hdata⟩ := readSlot_handled hh hsize hopened hlast
    have hocc : isErased ((region params base regionSize).slot m
        ((region params base regionSize).occupied m - 1)) params.eraseValue ≠ true := by
      have := (hpre.filled.occupied _ hlast).mpr (by omega)
      rwa [Region.erased_iff] at this
    rw [(hpass _ hlast).1] at hrun hdata
    rw [Program.bind_eq, Program.run_bind, hrun, hdata rfl]
    dsimp only
    rw [if_neg (by simp), if_neg hocc]
    rfl

/-- Over any region that its checks accept, and whatever reads fail, initialization returns 0
exactly when all reads succeed and no occupied slot follows an erased one.  Then it has counted the
occupied slots, and the last record is the one in the last of them; otherwise it has stopped at the
first slot that cannot be read or is occupied after an erased one, and later appends and reads are
refused without an operation on the flash. -/
theorem init_recovers (hparams : dev.params = some params) (hg : Geometry abi dev base regionSize)
    (hsize : regionSize < 2 ^ abi.size.bits) (hh : Handles (faultyReads errors) h) (log : Context)
    (m : Memory) :
    let r := region params base regionSize
    ∃ rc log', (bootLogInit abi (some log) (some dev) base regionSize).run h m =
        ((rc, some log'), m) ∧
      (rc = 0 ↔ (∀ k < r.capacity, r.readError errors k = 0) ∧ r.Prefix m) ∧
      (rc = 0 → log'.nextSlot = r.occupied m ∧ ∀ out,
        (bootLogReadLast abi (some log') (some out)).run h m =
          if log'.nextSlot = 0 then ((-Errno.enoent, some out), m)
          else ((0, some (r.slot m (log'.nextSlot - 1))), m)) ∧
      (rc ≠ 0 → (∃ k, r.StopsAt m errors k rc) ∧ ∀ record out,
        bootLogAppend abi (some log') record = pure (-Errno.einval, some log') ∧
        bootLogReadLast abi (some log') out = pure (-Errno.einval, out)) := by
  have hstart : Seen abi dev params base regionSize m errors 0
      (scanStart dev params base regionSize) false :=
    ⟨⟨hg, rfl, rfl, rfl, rfl⟩, nofun, by simp, rfl, rfl⟩
  obtain ⟨⟨rc, log'⟩, hscan, houtcome⟩ := scanSlots_handled hh hsize (Nat.zero_add _) hstart
  rw [← List.range_eq_range'] at hscan
  have hrun : (bootLogInit abi (some log) (some dev) base regionSize).run h m =
      ((rc, some log'), m) := by
    rcases bootLogInit_cases abi base regionSize hparams log with ⟨hno, -⟩ | ⟨hno, -⟩ | ⟨-, heq⟩
    · exact absurd hg hno
    · exact absurd hg hno
    · rw [heq, Program.bind_eq, Program.run_bind, deviceIsReady_handled hh, if_neg (by simp),
        Program.bind_eq, Program.run_bind, hscan]
      rfl
  refine ⟨rc, log', hrun, ?_⟩
  rw [← Region.passes_iff_prefix]
  rcases houtcome with ⟨h0, hpass, hlog⟩ | ⟨⟨k, hstop⟩, hunusable⟩
  · dsimp only at h0 hlog
    rw [hlog]
    refine ⟨⟨fun _ => hpass, fun _ => h0⟩, fun _ => ⟨rfl, ?_⟩, fun hne => absurd h0 hne⟩
    exact bootLogReadLast_handled hh hg hsize hpass
  · dsimp only at hstop hunusable
    have hne := hstop.status_ne_zero
    refine ⟨⟨fun h0 => absurd h0 hne, fun hpass => ?_⟩, fun h0 => absurd h0 hne, fun _ => ?_⟩
    · exact absurd (hpass k hstop.bound) hstop.not_passes
    · exact ⟨⟨k, hstop⟩, fun record out => ⟨bootLogAppend_uninitialized hunusable record,
        bootLogReadLast_uninitialized hunusable out⟩⟩

end Init

theorem faultFree_reads : Handles (faultyReads fun _ => 0) faultFree := by
  intro m o
  cases o with
  | ready => exact ⟨rfl, rfl⟩
  | read offset len => exact ⟨rfl, rfl, fun _ => rfl⟩
  | write offset len data => exact fun a ha => Memory.write_outside ha

/-- The flash after a first record. -/
def recorded : Memory := erased.image.write 0x7000 firstRecord

theorem recorded_filled : (region ⟨0xff⟩ 0x7000 32).Filled recorded 1 := by
  have hwithin : Region.Within erased.image ((region ⟨0xff⟩ 0x7000 32).base + 0 * recordSize)
      recordSize recorded := fun a ha => Memory.write_outside ha
  have hslot : (region ⟨0xff⟩ 0x7000 32).slot recorded 0 = firstRecord := Memory.read_write _ _ _
  have hocc : ¬(region ⟨0xff⟩ 0x7000 32).Erased recorded 0 := by
    rw [Region.erased_iff, hslot]
    simp [isErased, firstRecord, region]
  have hfilled := erased_filled.write (by decide) hwithin
  rwa [if_neg hocc] at hfilled

/-- Recovery after a first record finds it. -/
theorem recorded_recovered : ∃ log,
    (bootLogInit target (some .zero) (some simFlash) 0x7000 32).run faultFree recorded =
      ((0, some log), recorded) ∧ log.nextSlot = 1 ∧ ∀ out,
    (bootLogReadLast target (some log) (some out)).run faultFree recorded =
      ((0, some firstRecord), recorded) := by
  have hpre := recorded_filled.toPrefix
  have hone := hpre.filled.unique recorded_filled
  have hsize : 32 < 2 ^ target.size.bits := by decide
  obtain ⟨rc, log, hrun, hok, hlast, -⟩ :=
    init_recovers rfl target_geometry hsize faultFree_reads .zero recorded
  obtain rfl := hok.mpr ⟨fun _ _ => rfl, hpre⟩
  obtain ⟨hnext, hread⟩ := hlast rfl
  rw [hone] at hnext
  refine ⟨log, hrun, hnext, fun out => ?_⟩
  rw [hread out, hnext, if_neg (by decide)]
  exact congrArg (fun record => ((0, some record), recorded)) (Memory.read_write _ _ _)

end CortexLabs.BootLog
