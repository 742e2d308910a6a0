import CortexLabs.BootLog.Region

/-! One call on a context, over a region whose occupied slots are a prefix: which slots it writes,
what it leaves of the region, and what it leaves of the context, whether it returns or is cut. -/

namespace CortexLabs.BootLog

open Device

/-- The region that the arguments of `boot_log_init` describe. -/
def region (params : FlashParameters) (base : Int) (regionSize : Nat) : Region :=
  ⟨base.toNat, regionSize / recordSize, params.eraseValue⟩

/-- Every write of `t`, from image `m` on, is issued on the whole of a slot that is erased when it
is issued, the first such slot. -/
def FreshWrites (r : Region) (m : Memory) (t : List (Event flash)) : Prop :=
  ∀ p ∈ issued m t, ∀ (offset : Int) (len : Nat) (data : Vector Byte len),
    p.2.op = .write offset len data →
      ∃ k < r.capacity, offset = (r.base + k * recordSize : Nat) ∧ len = recordSize ∧
        r.Erased p.1 k ∧ ∀ j < k, ¬r.Erased p.1 j

/-- What a call may do to the region: its writes are fresh, the occupied slots stay a prefix, and
those that were occupied keep their bytes. -/
structure Progress (r : Region) (m : Memory) (n : Nat) (t : List (Event flash)) (m' : Memory)
    (n' : Nat) : Prop where
  writes : FreshWrites r m t
  filled : r.Filled m' n'
  grown : n ≤ n'
  kept : ∀ k < n, r.slot m' k = r.slot m k

def NoWrites (t : List (Event flash)) : Prop :=
  ∀ e ∈ t, ∀ (offset : Int) (len : Nat) (data : Vector Byte len), e.op ≠ .write offset len data

section

variable {r : Region} {m m' : Memory} {n : Nat} {t : List (Event flash)}

theorem mem_of_issued {p : Memory × Event flash} (h : p ∈ issued (D := flash) m t) : p.2 ∈ t := by
  induction t generalizing m with
  | nil => cases h
  | cons e t ih =>
    rcases List.mem_cons.mp h with rfl | h
    · exact List.mem_cons_self
    · exact List.mem_cons_of_mem _ (ih h)

/-- After operations that leave the image as it is, the next one is issued on that image. -/
theorem of_issued_append {t1 : List (Event flash)} {e : Event flash} {p : Memory × Event flash}
    (hkeep : ∀ e ∈ t, e.after = m) (h : p ∈ issued (D := flash) m (t ++ e :: t1)) :
    p.2 ∈ t ∨ p = (m, e) ∨ p.2 ∈ t1 := by
  induction t with
  | nil =>
    rcases List.mem_cons.mp h with rfl | h
    · exact .inr (.inl rfl)
    · exact .inr (.inr (mem_of_issued h))
  | cons e0 t ih =>
    rcases List.mem_cons.mp h with rfl | h
    · exact .inl List.mem_cons_self
    · rw [hkeep e0 List.mem_cons_self] at h
      exact (ih (fun e he => hkeep e (List.mem_cons_of_mem _ he)) h).imp_left
        (List.mem_cons_of_mem _)

theorem NoWrites.fresh (h : NoWrites t) : FreshWrites r m t :=
  fun p hp offset len data hop => absurd hop (h p.2 (mem_of_issued hp) offset len data)

theorem NoWrites.nil : NoWrites [] := nofun

theorem NoWrites.read (h : NoWrites t) (offset : Int) (len : Nat)
    (x : Option (Int × Vector Byte len)) : NoWrites (t ++ [⟨.read offset len, x, m⟩]) := by
  intro e he
  rcases List.mem_append.mp he with h' | h'
  · exact h e h'
  · rw [List.mem_singleton.mp h']
    exact nofun

theorem NoWrites.ready (x : Option Bool) : NoWrites [⟨.ready, x, m⟩] := by
  intro e he
  rw [List.mem_singleton.mp he]
  exact nofun

theorem NoWrites.progress (h : NoWrites t) (hf : r.Filled m n) : Progress r m n t m n :=
  ⟨h.fresh, hf, Nat.le_refl n, fun _ _ => rfl⟩

/-- One write among other operations, of a record to the first erased slot. -/
theorem NoWrites.progress_write {t1 : List (Event flash)} {e : Event flash} {record : Record}
    (h : NoWrites t) (h1 : NoWrites t1) (hkeep : ∀ e ∈ t, e.after = m) (hf : r.Filled m n)
    (hn : n < r.capacity) (hw : Region.Within m (r.base + n * recordSize) recordSize m')
    (he : e.op = .write (r.base + n * recordSize : Nat) recordSize record) :
    Progress r m n (t ++ e :: t1) m' (if r.Erased m' n then n else n + 1) := by
  refine ⟨?_, hf.write hn hw, by split <;> omega, fun k hk => Region.slot_within hw (by omega)⟩
  intro p hp offset len data hop
  rcases of_issued_append hkeep hp with hp | rfl | hp
  · exact absurd hop (h p.2 hp offset len data)
  · rw [he] at hop
    cases hop
    exact ⟨n, hn, rfl, rfl, (hf.erased hn).mpr (Nat.le_refl _),
      fun j hj => (hf.occupied j (by omega)).mpr hj⟩
  · exact absurd hop (h1 p.2 hp offset len data)

end

section Rules

variable {α : Type} {Q : List (Event flash) → α → Memory → Prop}
  {C : List (Event flash) → Memory → Prop} {t : List (Event flash)} {m : Memory}

/-- A read is safe when what follows is, after the stored bytes or an error. -/
theorem safe_read {offset : Int} {len : Nat} {f : Int × Vector Byte len → FlashProgram α}
    (hC : C (t ++ [⟨.read offset len, none, m⟩]) m)
    (h : ∀ (rc : Int) (data : Vector Byte len), (rc = 0 → data = m.read offset.toNat len) →
      Safe flash Q C (f (rc, data)) (t ++ [⟨.read offset len, some (rc, data), m⟩]) m) :
    Safe flash Q C (flashRead offset len >>= f) t m := by
  constructor
  · rintro _ rfl
    exact hC
  · rintro ⟨rc, data⟩ _ ⟨rfl, hd⟩
    exact h rc data hd

theorem safe_ready {f : Bool → FlashProgram α} (hC : C (t ++ [⟨.ready, none, m⟩]) m)
    (h : ∀ ready : Bool, Safe flash Q C (f ready) (t ++ [⟨.ready, some ready, m⟩]) m) :
    Safe flash Q C (deviceIsReady >>= f) t m := by
  constructor
  · rintro _ rfl
    exact hC
  · rintro ready _ rfl
    exact h ready

/-- A write is safe when every image that it may leave is, whether it returns or is cut. -/
theorem safe_write {offset : Int} {len : Nat} {data : Vector Byte len} {f : Int → FlashProgram α}
    (h : ∀ m', Region.Within m offset.toNat len m' →
      C (t ++ [⟨.write offset len data, none, m'⟩]) m' ∧
      ∀ rc, Safe flash Q C (f rc) (t ++ [⟨.write offset len data, some rc, m'⟩]) m') :
    Safe flash Q C (flashWrite offset data >>= f) t m :=
  ⟨fun m' hm => (h m' hm).1, fun rc m' hm => (h m' hm).2 rc⟩

end Rules

variable {abi : Abi} {dev : Dev} {params : FlashParameters} {base : Int} {regionSize : Nat}

/-- A context that `boot_log_init` has filled in. -/
structure Opened (abi : Abi) (dev : Dev) (params : FlashParameters) (base : Int)
    (regionSize : Nat) (log : Context) : Prop where
  geometry : Geometry abi dev base regionSize
  dev : log.dev = some dev
  base : log.base = base
  regionSize : log.regionSize = regionSize
  eraseValue : log.eraseValue = params.eraseValue

section Slots

variable {m m' : Memory} {n : Nat} {log : Context} (hsize : regionSize < 2 ^ abi.size.bits)
include hsize

theorem Opened.offset (h : Opened abi dev params base regionSize log) {k : Nat}
    (hk : k < (region params base regionSize).capacity) : slotOffset abi log k =
      ((region params base regionSize).base + k * recordSize : Nat) :=
  h.geometry.slotOffset_eq hsize h.base hk

theorem Opened.read (h : Opened abi dev params base regionSize log)
    (hf : (region params base regionSize).Filled m n) {k : Nat}
    (hk : k < (region params base regionSize).capacity) {data : Record}
    (hd : data = m.read (slotOffset abi log k).toNat recordSize) :
    isErased data log.eraseValue = true ↔ n ≤ k := by
  have herased := hf.erased hk
  rw [Region.erased_iff, Region.slot] at herased
  rw [hd, h.offset hsize hk, h.eraseValue]
  exact herased

end Slots

/-! ### Initialization -/

theorem scanSlots_cons (index : Nat) (rest : List Nat) (log : Context) (foundEmpty : Bool) :
    scanSlots abi (index :: rest) log foundEmpty =
      flashRead (slotOffset abi log index) recordSize >>= fun x =>
        if x.1 ≠ 0 then pure (x.1, log)
        else if isErased x.2 log.eraseValue then scanSlots abi rest log true
        else if foundEmpty then pure (-Errno.eilseq, log)
        else scanSlots abi rest { log with nextSlot := index + 1 } foundEmpty := rfl

theorem deviceIsReady_run (m : Memory) : deviceIsReady.run faultFree m = (true, m) := rfl

theorem flashWrite_run {len : Nat} (offset : Int) (data : Vector Byte len) (m : Memory) :
    (flashWrite offset data).run faultFree m = (0, m.write offset.toNat data) := rfl

theorem flashRead_run (offset : Int) (len : Nat) (m : Memory) :
    (flashRead offset len).run faultFree m = ((0, m.read offset.toNat len), m) := rfl

/-- The context before slot `k` of the scan of a region with `n` occupied slots. -/
structure Scanning (abi : Abi) (dev : Dev) (params : FlashParameters) (base : Int)
    (regionSize n k : Nat) (log : Context) (foundEmpty : Bool) : Prop where
  opened : Opened abi dev params base regionSize log
  nextSlot : log.nextSlot = min k n
  found : foundEmpty = true ↔ n < k
  unusable : log.initialized = false

section Scan

variable {m : Memory} {n k : Nat} {log : Context} {foundEmpty : Bool}

theorem Scanning.erased (h : Scanning abi dev params base regionSize n k log foundEmpty)
    (hn : n ≤ k) : Scanning abi dev params base regionSize n (k + 1) log true :=
  ⟨h.opened, by rw [h.nextSlot]; omega, by simp; omega, h.unusable⟩

theorem Scanning.occupied (h : Scanning abi dev params base regionSize n k log foundEmpty)
    (hn : k < n) : foundEmpty = false ∧
      Scanning abi dev params base regionSize n (k + 1) { log with nextSlot := k + 1 } false := by
  have hfound : foundEmpty = false := by
    rw [← Bool.not_eq_true, h.found]
    omega
  obtain ⟨⟨hg, h1, h2, h3, h4⟩, -, -, hi⟩ := h
  refine ⟨hfound, ⟨⟨hg, h1, h2, h3, h4⟩, ?_, ?_, hi⟩⟩
  · exact (Nat.min_eq_left hn).symm
  · simp
    omega

theorem Scanning.done (h : Scanning abi dev params base regionSize n k log foundEmpty)
    (hn : n ≤ k) : { log with initialized := true } =
      (⟨some dev, base, regionSize, n, params.eraseValue, true⟩ : Context) := by
  obtain ⟨⟨-, h1, h2, h3, h4⟩, h5, -, -⟩ := h
  obtain ⟨dev', base', size', next', erase', init'⟩ := log
  simp only at h1 h2 h3 h4 h5
  rw [h1, h2, h3, h4, h5, Nat.min_eq_right hn]

variable (hsize : regionSize < 2 ^ abi.size.bits)
  (hf : (region params base regionSize).Filled m n)
include hsize hf

/-- Without read errors, the scan counts the occupied slots. -/
theorem scanSlots_run {len : Nat} (hk : k + len = (region params base regionSize).capacity)
    (h : Scanning abi dev params base regionSize n k log foundEmpty) :
    (scanSlots abi (List.range' k len) log foundEmpty).run faultFree m =
      ((0, ⟨some dev, base, regionSize, n, params.eraseValue, true⟩), m) := by
  induction len generalizing k log foundEmpty with
  | zero =>
    have hn : n ≤ k := by
      have := hf.bound
      omega
    rw [← h.done hn]
    rfl
  | succ len ih =>
    have hkc : k < (region params base regionSize).capacity := by omega
    have hread := h.opened.read hsize hf hkc rfl
    rw [List.range'_succ, scanSlots_cons, Program.bind_eq, Program.run_bind, flashRead_run,
      if_neg (by simp)]
    by_cases hn : n ≤ k
    · rw [if_pos (hread.mpr hn)]
      exact ih (by omega) (h.erased hn)
    · obtain ⟨rfl, hnext⟩ := h.occupied (by omega)
      rw [if_neg (fun he => hn (hread.mp he))]
      exact ih (by omega) hnext

/-- With read errors, the scan makes the context usable only as it would without. -/
theorem scanSlots_safe {len : Nat} {t : List (Event flash)} (ht : NoWrites t)
    (hk : k + len = (region params base regionSize).capacity)
    (h : Scanning abi dev params base regionSize n k log foundEmpty) :
    Safe flash (fun t x m' => NoWrites t ∧ m' = m ∧ (x.2.initialized = true →
        x.2 = ⟨some dev, base, regionSize, n, params.eraseValue, true⟩))
      (fun t m' => NoWrites t ∧ m' = m) (scanSlots abi (List.range' k len) log foundEmpty) t m := by
  induction len generalizing k log foundEmpty t with
  | zero =>
    have hn : n ≤ k := by
      have := hf.bound
      omega
    exact ⟨ht, rfl, fun _ => h.done hn⟩
  | succ len ih =>
    have hkc : k < (region params base regionSize).capacity := by omega
    rw [List.range'_succ, scanSlots_cons]
    refine safe_read ⟨ht.read _ _ none, rfl⟩ fun rc data hd => ?_
    have ht := ht.read (m := m) (slotOffset abi log k) recordSize (some (rc, data))
    have hfail : log.initialized = true → log =
        ⟨some dev, base, regionSize, n, params.eraseValue, true⟩ :=
      fun hi => absurd (h.unusable.symm.trans hi) (by simp)
    by_cases hrc : rc = 0
    · have hread := h.opened.read hsize hf hkc (hd hrc)
      rw [if_neg (not_not.mpr hrc)]
      by_cases hn : n ≤ k
      · rw [if_pos (hread.mpr hn)]
        exact ih ht (by omega) (h.erased hn)
      · obtain ⟨rfl, hnext⟩ := h.occupied (by omega)
        rw [if_neg (fun he => hn (hread.mp he))]
        exact ih ht (by omega) hnext
    · rw [if_pos hrc]
      exact ⟨ht, rfl, hfail⟩

end Scan

/-- The context that `boot_log_init` fills in before its scan. -/
def scanStart (dev : Dev) (params : FlashParameters) (base : Int) (regionSize : Nat) : Context :=
  ⟨some dev, base, regionSize, 0, params.eraseValue, false⟩

theorem Scanning.start (hg : Geometry abi dev base regionSize) (n : Nat) :
    Scanning abi dev params base regionSize n 0 (scanStart dev params base regionSize) false :=
  ⟨⟨hg, rfl, rfl, rfl, rfl⟩, (Nat.zero_min n).symm, by simp, rfl⟩

section Init

variable (hparams : dev.params = some params)
include hparams

variable (abi base regionSize) in
theorem bootLogInit_cases (log : Context) :
    (¬Geometry abi dev base regionSize ∧
      bootLogInit abi (some log) (some dev) base regionSize =
        pure (-Errno.einval, some .zero)) ∨
    (¬Geometry abi dev base regionSize ∧
      bootLogInit abi (some log) (some dev) base regionSize =
        deviceIsReady >>= fun ready => if !ready then pure (-Errno.enodev, some .zero)
          else pure (-Errno.enotsup, some .zero)) ∨
    (Geometry abi dev base regionSize ∧
      bootLogInit abi (some log) (some dev) base regionSize =
        deviceIsReady >>= fun ready => if !ready then pure (-Errno.enodev, some .zero)
          else scanSlots abi (List.range (regionSize / recordSize))
            (scanStart dev params base regionSize) false >>= fun x => pure (x.1, some x.2)) := by
  unfold bootLogInit bootLogInitAt
  by_cases h1 : base < 0 ∨ regionSize < recordSize ∨ regionSize % recordSize ≠ 0
  · refine .inl ⟨fun hg => ?_, if_pos h1⟩
    have := hg.nonneg
    have := hg.nonempty
    have := hg.whole
    omega
  by_cases h2 : base.toNat > abi.offMax ∨ regionSize > abi.offMax - base.toNat
  · refine .inl ⟨fun hg => ?_, (if_neg h1).trans (if_pos h2)⟩
    have := hg.baseFits
    have := hg.sizeFits
    omega
  simp only [if_neg h1, if_neg h2]
  by_cases h3 : dev.writeBlockSize = 0 ∨ recordSize % dev.writeBlockSize ≠ 0 ∨
      base.toNat % dev.writeBlockSize ≠ 0
  · refine .inr (.inl ⟨fun hg => ?_, ?_⟩)
    · have := hg.block
      have := hg.recordBlocks
      have := hg.baseBlocks
      omega
    · simp only [if_pos h3]
  · refine .inr (.inr ⟨⟨by omega, by omega, by omega, by omega, by omega, by omega, by omega,
      by omega⟩, ?_⟩)
    simp only [if_neg h3, hparams]
    rfl

variable {m : Memory} {n : Nat} (hsize : regionSize < 2 ^ abi.size.bits)
  (hf : (region params base regionSize).Filled m n)
include hsize hf

/-- Without faults, `boot_log_init` counts the occupied slots of any region that it accepts. -/
theorem bootLogInit_run (log : Context) : ∃ rc log',
    (bootLogInit abi (some log) (some dev) base regionSize).run faultFree m =
      ((rc, some log'), m) ∧ rc ≠ -Errno.eilseq ∧
    (Geometry abi dev base regionSize → rc = 0 ∧
      log' = ⟨some dev, base, regionSize, n, params.eraseValue, true⟩) := by
  rcases bootLogInit_cases abi base regionSize hparams log with
    ⟨hg, heq⟩ | ⟨hg, heq⟩ | ⟨hg, heq⟩
  · rw [heq]
    exact ⟨_, _, rfl, by decide, fun h => absurd h hg⟩
  · rw [heq]
    exact ⟨_, _, rfl, by decide, fun h => absurd h hg⟩
  · refine ⟨0, _, ?_, by decide, fun _ => ⟨rfl, rfl⟩⟩
    have hscan := scanSlots_run hsize hf (Nat.zero_add _) (Scanning.start hg n)
    rw [← List.range_eq_range'] at hscan
    rw [region] at hscan
    rw [heq, Program.bind_eq, Program.run_bind, deviceIsReady_run, if_neg (by simp),
      Program.bind_eq, Program.run_bind, hscan, Program.pure_eq, Program.run_ret]

/-- Whatever the reads return, `boot_log_init` writes nothing, and makes a context usable only as
it would without faults. -/
theorem bootLogInit_safe (log : Context) :
    Safe flash (fun t x m' => NoWrites t ∧ m' = m ∧ ∃ log', x.2 = some log' ∧
        (log'.initialized = true → Opened abi dev params base regionSize log' ∧
          log'.nextSlot = n))
      (fun t m' => NoWrites t ∧ m' = m) (bootLogInit abi (some log) (some dev) base regionSize)
      [] m := by
  rcases bootLogInit_cases abi base regionSize hparams log with
    ⟨-, heq⟩ | ⟨-, heq⟩ | ⟨hg, heq⟩
  · rw [heq]
    exact ⟨.nil, rfl, _, rfl, nofun⟩
  · rw [heq]
    refine safe_ready ⟨.ready none, rfl⟩ fun ready => ?_
    cases ready <;> exact ⟨.ready (some _), rfl, _, rfl, nofun⟩
  · rw [heq]
    refine safe_ready ⟨.ready none, rfl⟩ fun ready => ?_
    have ht := NoWrites.ready (m := m) (some ready)
    cases ready
    · exact ⟨ht, rfl, _, rfl, nofun⟩
    · have hscan := scanSlots_safe hsize hf ht (Nat.zero_add _) (Scanning.start hg n)
      rw [← List.range_eq_range'] at hscan
      refine Safe.bind (hscan.mono ?_ fun _ _ h => h)
      rintro t ⟨rc, log'⟩ m' ⟨hquiet, rfl, hlog⟩
      refine ⟨hquiet, rfl, log', rfl, fun hi => ?_⟩
      rw [show log' = _ from hlog hi]
      exact ⟨⟨hg, rfl, rfl, rfl, rfl⟩, rfl⟩

end Init

/-! ### Append -/

theorem bootLogAppend_eq {log : Context} (hlog : Opened abi dev params base regionSize log)
    (hi : log.initialized = true) (record : Record) :
    bootLogAppend abi (some log) (some record) = deviceIsReady >>= fun ready =>
      if !ready then pure (-Errno.enodev, some log)
      else if isErased record log.eraseValue then pure (-Errno.einval, some log)
      else if log.nextSlot ≥ log.regionSize / recordSize then pure (-Errno.enospc, some log)
      else appendSlot abi log record := by
  unfold bootLogAppend bootLogAppendAt
  exact if_neg (by simp [hi, hlog.dev])

/-- Without faults, an append to a region that is not full stores its record in the first erased
slot. -/
theorem bootLogAppend_run (hsize : regionSize < 2 ^ abi.size.bits) {m : Memory} {n : Nat}
    {log : Context} (hf : (region params base regionSize).Filled m n)
    (hlog : Opened abi dev params base regionSize log) (hi : log.initialized = true)
    (hnext : log.nextSlot = n) (hcap : n < (region params base regionSize).capacity) {record : Record}
    (hrec : isErased record params.eraseValue = false) :
    (bootLogAppend abi (some log) (some record)).run faultFree m =
      ((0, some ⟨log.dev, log.base, log.regionSize, n + 1, log.eraseValue, true⟩),
        m.write ((region params base regionSize).base + n * recordSize) record) := by
  subst hnext
  have hclear : isErased (m.read ((region params base regionSize).base +
      log.nextSlot * recordSize) recordSize) params.eraseValue = true :=
    Region.erased_iff.mp ((hf.erased hcap).mpr (Nat.le_refl _))
  have hcap' : ¬log.nextSlot ≥ log.regionSize / recordSize := by
    rw [hlog.regionSize]
    exact Nat.not_le.mpr hcap
  rw [bootLogAppend_eq hlog hi, Program.bind_eq, Program.run_bind, deviceIsReady_run,
    if_neg (by simp), hlog.eraseValue, hrec, if_neg (by simp), if_neg hcap', appendSlot,
    appendSlotAt]
  simp only [hlog.offset hsize hcap, hlog.eraseValue]
  rw [Program.bind_eq, Program.run_bind, flashRead_run, Int.toNat_natCast]
  simp only [hclear]
  rw [if_neg (by simp), if_neg (by simp), Program.bind_eq, Program.run_bind, flashWrite_run,
    if_neg (by simp), Program.bind_eq, Program.run_bind, flashRead_run, Int.toNat_natCast,
    Memory.read_write]
  dsimp only
  rw [if_neg (by simp), if_neg (by simp), Program.pure_eq, Program.run_ret]

section Append

variable {m : Memory} {n : Nat} {log : Context} (hsize : regionSize < 2 ^ abi.size.bits)
  (hf : (region params base regionSize).Filled m n)
  (hlog : Opened abi dev params base regionSize log) (hnext : log.nextSlot ≤ n)
include hf hlog hnext

def Appended (abi : Abi) (dev : Dev) (params : FlashParameters) (base : Int) (regionSize : Nat)
    (m : Memory) (n : Nat) (log : Context) (record : Record) (t : List (Event flash))
    (x : Int × Option Context) (m' : Memory) : Prop :=
  ∃ n', Progress (region params base regionSize) m n t m' n' ∧
    (∃ log', x.2 = some log' ∧ (log'.initialized = true →
      Opened abi dev params base regionSize log' ∧ log'.nextSlot ≤ n')) ∧
    (x.1 = 0 → log.nextSlot < n' ∧
      (region params base regionSize).slot m' log.nextSlot = record)

theorem Appended.refused {record : Record} {t : List (Event flash)} (ht : NoWrites t) {rc : Int}
    (hrc : rc ≠ 0) : Appended abi dev params base regionSize m n log record t (rc, some log) m :=
  ⟨n, ht.progress hf, ⟨log, rfl, fun _ => ⟨hlog, hnext⟩⟩, fun h0 => absurd h0 hrc⟩

include hsize

/-- The one write of an append goes to the first erased slot: the read before it has found the slot
erased, and the slots before it are occupied. -/
theorem appendSlot_safe (hcap : log.nextSlot < (region params base regionSize).capacity)
    {record : Record} (hrec : isErased record log.eraseValue = false) :
    Safe flash (Appended abi dev params base regionSize m n log record)
      (fun t m' => ∃ n', Progress (region params base regionSize) m n t m' n')
      (appendSlot abi log record) [⟨.ready, some true, m⟩] m := by
  have ht := NoWrites.ready (m := m) (some true)
  refine safe_read ⟨n, (ht.read _ _ none).progress hf⟩ fun rc check hd => ?_
  have ht := ht.read (m := m) (slotOffset abi log log.nextSlot) recordSize (some (rc, check))
  dsimp only
  split
  · next hrc => exact Appended.refused hf hlog hnext ht hrc
  next hrc =>
  have hread := hlog.read hsize hf hcap (hd (not_not.mp hrc))
  split
  · exact ⟨n, ht.progress hf, ⟨_, rfl, nofun⟩, nofun⟩
  next hclear =>
  obtain rfl : n = log.nextSlot := by
    have := hread.mp (by simpa using hclear)
    omega
  have hoff := hlog.offset hsize hcap
  refine safe_write fun m1 hw => ?_
  rw [hoff, Int.toNat_natCast] at hw
  have hf1 := hf.write hcap hw
  have hprogress : ∀ t1 : List (Event flash), NoWrites t1 → ∀ e : Event flash,
      e.op = .write (slotOffset abi log log.nextSlot) recordSize record →
      Progress (region params base regionSize) m log.nextSlot
        ([⟨.ready, some true, m⟩] ++ [⟨.read (slotOffset abi log log.nextSlot) recordSize,
          some (rc, check), m⟩] ++ e :: t1) m1
        (if (region params base regionSize).Erased m1 log.nextSlot then log.nextSlot
          else log.nextSlot + 1) := by
    intro t1 ht1 e he
    rw [hoff] at he
    exact ht.progress_write ht1 (by simp) hf hcap hw he
  have hcut := hprogress [] .nil
  refine ⟨⟨_, hcut _ rfl⟩, fun rc1 => ?_⟩
  split
  · next hrc1 => exact ⟨_, hcut _ rfl, ⟨_, rfl, nofun⟩, fun h0 => absurd h0 hrc1⟩
  refine safe_read ⟨_, hprogress _ (NoWrites.nil.read _ _ none) _ rfl⟩ fun rc2 check2 hd2 => ?_
  have hlast := hprogress _ (NoWrites.nil.read (m := m1) (slotOffset abi log log.nextSlot)
    recordSize (some (rc2, check2))) ⟨.write _ _ record, some rc1, m1⟩ rfl
  dsimp only
  split
  · next hrc2 => exact ⟨_, hlast, ⟨_, rfl, nofun⟩, fun h0 => absurd h0 hrc2⟩
  next hrc2 =>
  split
  · exact ⟨_, hlast, ⟨_, rfl, nofun⟩, nofun⟩
  next hsame =>
  have hslot : (region params base regionSize).slot m1 log.nextSlot = record := by
    rw [Region.slot, ← not_not.mp hsame, hd2 (not_not.mp hrc2), hoff, Int.toNat_natCast]
  have hocc : ¬(region params base regionSize).Erased m1 log.nextSlot := by
    rw [Region.erased_iff, hslot]
    show ¬isErased record params.eraseValue = true
    rw [← hlog.eraseValue, hrec]
    simp
  rw [if_neg hocc] at hlast
  obtain ⟨hg, h1, h2, h3, h4⟩ := hlog
  exact ⟨_, hlast, ⟨_, rfl, fun _ => ⟨⟨hg, h1, h2, h3, h4⟩, Nat.le_refl _⟩⟩,
    fun _ => ⟨Nat.lt_succ_self _, hslot⟩⟩

theorem bootLogAppend_safe (hi : log.initialized = true) (record : Record) :
    Safe flash (Appended abi dev params base regionSize m n log record)
      (fun t m' => ∃ n', Progress (region params base regionSize) m n t m' n')
      (bootLogAppend abi (some log) (some record)) [] m := by
  rw [bootLogAppend_eq hlog hi]
  refine safe_ready ⟨n, (NoWrites.ready none).progress hf⟩ fun ready => ?_
  have ht := NoWrites.ready (m := m) (some ready)
  cases ready
  · exact Appended.refused hf hlog hnext ht (by decide)
  simp only [Bool.not_true, Bool.false_eq_true, if_false]
  split
  · exact Appended.refused hf hlog hnext ht (by decide)
  next hrec =>
  split
  · exact Appended.refused hf hlog hnext ht (by decide)
  next hcap =>
  rw [hlog.regionSize] at hcap
  exact appendSlot_safe hsize hf hlog hnext (Nat.lt_of_not_le hcap) (by simpa using hrec)

end Append

theorem bootLogReadLast_safe (log : Context) (out : Option Record) (m : Memory) :
    Safe flash (fun t _ m' => NoWrites t ∧ m' = m) (fun t m' => NoWrites t ∧ m' = m)
      (bootLogReadLast abi (some log) out) [] m := by
  cases out with
  | none => exact ⟨.nil, rfl⟩
  | some out =>
    simp only [bootLogReadLast, bootLogReadLastAt]
    split
    · exact ⟨.nil, rfl⟩
    refine safe_ready ⟨.ready none, rfl⟩ fun ready => ?_
    have ht := NoWrites.ready (m := m) (some ready)
    split
    · exact ⟨ht, rfl⟩
    split
    · exact ⟨ht, rfl⟩
    refine safe_read ⟨ht.read _ _ none, rfl⟩ fun rc data _ => ?_
    have ht := ht.read (m := m) (slotOffset abi log (log.nextSlot - 1)) recordSize
      (some (rc, data))
    dsimp only
    split <;> exact ⟨ht, rfl⟩

/-! ### Calls on a context that is not initialized -/

section Uninitialized

variable {log : Context}

theorem unusable_of_uninitialized (h : log.initialized = false) :
    (!log.initialized) = true ∨ log.dev = none := .inl (by rw [h]; rfl)

theorem bootLogAppend_uninitialized (h : log.initialized = false) (record : Option Record) :
    bootLogAppend abi (some log) record = pure (-Errno.einval, some log) := by
  cases record with
  | none => rfl
  | some record => exact if_pos (unusable_of_uninitialized h)

theorem bootLogReadLast_uninitialized (h : log.initialized = false) (out : Option Record) :
    bootLogReadLast abi (some log) out = pure (-Errno.einval, out) := by
  cases out with
  | none => rfl
  | some out => exact if_pos (unusable_of_uninitialized h)

end Uninitialized

end CortexLabs.BootLog
