import CortexLabs.FaultLog.Record

/-! Recovery: what the scan of `fault_log_init` finds in an image.  When a valid slot is ahead of
every other by 1 to 7, modulo `2^32`, the scan finds that slot, wherever it is, and the second loop
accepts the image. -/

namespace CortexLabs.FaultLog

open Device

def scanned (m : Memory) (n : Nat) : Scan :=
  (List.range n).foldl (fun s slot => s.visit slot (slotOf m slot)) .start

theorem scanned_succ (m : Memory) (n : Nat) :
    scanned m (n + 1) = (scanned m n).visit n (slotOf m n) := by
  simp [scanned, List.range_succ]

variable {m : Memory} {s : Scan} {slot : Nat}

theorem visit_invalid (h : ¬Valid m slot) : s.visit slot (slotOf m slot) = s := by
  rw [Scan.visit, if_pos (by simpa [Valid] using h)]

/-- The locals after a visit of a valid slot that becomes the newest. -/
theorem visit_newer (h : Valid m slot)
    (hn : s.newestSlot = noSlot ∨ newer (sequenceOf m slot) s.sequence = true) :
    s.visit slot (slotOf m slot) = ⟨sequenceOf m slot, slot,
      Function.update s.sequences slot (sequenceOf m slot), s.validMask ||| 1#8 <<< slot⟩ := by
  rw [Scan.visit, if_neg (by simp [show recordValid _ = true from h])]
  exact if_pos hn

/-- The locals after a visit of a valid slot that does not become the newest. -/
theorem visit_older (h : Valid m slot)
    (hn : ¬(s.newestSlot = noSlot ∨ newer (sequenceOf m slot) s.sequence = true)) :
    s.visit slot (slotOf m slot) = ⟨s.sequence, s.newestSlot,
      Function.update s.sequences slot (sequenceOf m slot), s.validMask ||| 1#8 <<< slot⟩ := by
  rw [Scan.visit, if_neg (by simp [show recordValid _ = true from h])]
  exact if_neg hn

theorem mask_bit (x : BitVec 8) (h : slot < 8) :
    x &&& 1#8 <<< slot ≠ 0 ↔ x.getLsbD slot = true := by
  rw [← BitVec.twoPow_eq, BitVec.and_twoPow]
  have hne : BitVec.twoPow 8 slot ≠ 0#8 := by
    intro h0
    have := congrArg (BitVec.getLsbD · slot) h0
    simp [h] at this
  cases x.getLsbD slot <;> simp [hne]

theorem mask_set (x : BitVec 8) {k : Nat} (h : slot < 8) :
    (x ||| 1#8 <<< k).getLsbD slot = true ↔ slot = k ∨ x.getLsbD slot = true := by
  rw [← BitVec.twoPow_eq]
  simp only [BitVec.getLsbD_or, BitVec.getLsbD_twoPow, Bool.or_eq_true, Bool.and_eq_true,
    decide_eq_true_eq]
  grind

/-- What the locals say of the slots below `n`. -/
structure Scan.Knows (s : Scan) (m : Memory) (n : Nat) : Prop where
  mask : ∀ slot < slotCount, s.validMask.getLsbD slot = true ↔ slot < n ∧ Valid m slot
  sequences : ∀ slot < n, Valid m slot → s.sequences slot = sequenceOf m slot
  none : s.newestSlot = noSlot → ∀ slot < n, ¬Valid m slot
  newest : s.newestSlot ≠ noSlot →
    s.newestSlot < n ∧ Valid m s.newestSlot ∧ s.sequence = sequenceOf m s.newestSlot

/-- A visit keeps the mask and the sequence numbers of the slots seen so far. -/
theorem Scan.Knows.record {n : Nat} (hs : s.Knows m n) (hv : Valid m n) :
    (∀ slot < slotCount, (s.validMask ||| 1#8 <<< n).getLsbD slot = true ↔
      slot < n + 1 ∧ Valid m slot) ∧
    ∀ slot < n + 1, Valid m slot →
      Function.update s.sequences n (sequenceOf m n) slot = sequenceOf m slot := by
  refine ⟨fun slot h => ?_, fun slot h hslot => ?_⟩
  · rw [mask_set _ h, hs.mask slot h]
    constructor
    · rintro (rfl | ⟨hlt, hslot⟩)
      · exact ⟨by omega, hv⟩
      · exact ⟨by omega, hslot⟩
    · rintro ⟨hlt, hslot⟩
      by_cases he : slot = n
      · exact .inl he
      · exact .inr ⟨by omega, hslot⟩
  · by_cases he : slot = n
    · rw [he, Function.update_self]
    · rw [Function.update_of_ne he, hs.sequences slot (by omega) hslot]

theorem scanned_knows (m : Memory) {n : Nat} (hn : n ≤ slotCount) : (scanned m n).Knows m n := by
  induction n with
  | zero => exact ⟨by simp [scanned, Scan.start], nofun, nofun, fun h => absurd rfl h⟩
  | succ n ih =>
    have ih := ih (by omega)
    rw [scanned_succ]
    by_cases hv : Valid m n
    · obtain ⟨hmask, hseq⟩ := ih.record hv
      by_cases hnew : (scanned m n).newestSlot = noSlot ∨
          newer (sequenceOf m n) (scanned m n).sequence = true
      · rw [visit_newer hv hnew]
        exact ⟨hmask, hseq, fun h => absurd h (by simp only [slotCount, noSlot] at *; omega),
          fun _ => ⟨Nat.lt_succ_self n, hv, rfl⟩⟩
      · rw [visit_older hv hnew]
        obtain ⟨hlt, hvalid, hsq⟩ := ih.newest fun h => hnew (.inl h)
        exact ⟨hmask, hseq, fun h => absurd (.inl h) hnew,
          fun _ => ⟨Nat.lt_succ_of_lt hlt, hvalid, hsq⟩⟩
    · rw [visit_invalid hv]
      refine ⟨fun slot h => ?_, fun slot h hslot => ih.sequences slot ?_ hslot,
        fun h slot hlt hslot => ih.none h slot ?_ hslot, fun h => ?_⟩
      · rw [ih.mask slot h]
        refine and_congr_left fun hslot => ?_
        have : slot ≠ n := fun he => hv (he ▸ hslot)
        omega
      · have : slot ≠ n := fun he => hv (he ▸ hslot)
        omega
      · have : slot ≠ n := fun he => hv (he ▸ hslot)
        omega
      · obtain ⟨hlt, hvalid, hsq⟩ := ih.newest h
        exact ⟨Nat.lt_succ_of_lt hlt, hvalid, hsq⟩

/-- Slot `k` is valid, and ahead of every other valid slot by 1 to 7, modulo `2^32`. -/
structure Leads (m : Memory) (k : Nat) : Prop where
  bound : k < slotCount
  valid : Valid m k
  ahead : ∀ slot < slotCount, Valid m slot → slot ≠ k →
    sequenceOf m k - sequenceOf m slot ≠ 0 ∧ sequenceOf m k - sequenceOf m slot < 8

theorem newer_iff (a b : Word) : newer a b = true ↔ a - b ≠ 0 ∧ a - b < 0x80000000 := by
  simp [newer]

/-- A word that is ahead of another by 1 to 7 is newer, and the other is not. -/
theorem newer_of_ahead {a b : Word} (h : a - b ≠ 0 ∧ a - b < 8) :
    newer a b = true ∧ newer b a = false := by
  rw [← Bool.not_eq_true, newer_iff, newer_iff]
  bv_omega

/-- The scan has found the leading slot once it has visited it. -/
theorem scanned_leads {k n : Nat} (h : Leads m k) (hk : k < n) (hn : n ≤ slotCount) :
    (scanned m n).newestSlot = k := by
  induction n with
  | zero => omega
  | succ n ih =>
    rw [scanned_succ]
    have hs := scanned_knows m (n := n) (by omega)
    by_cases hv : Valid m n
    · by_cases he : k = n
      · subst he
        have hnew : (scanned m k).newestSlot = noSlot ∨
            newer (sequenceOf m k) (scanned m k).sequence = true := by
          by_cases h0 : (scanned m k).newestSlot = noSlot
          · exact .inl h0
          · obtain ⟨hlt, hvalid, hsq⟩ := hs.newest h0
            rw [hsq]
            exact .inr (newer_of_ahead (h.ahead _ (by omega) hvalid (by omega))).1
        rw [visit_newer hv hnew]
      · have hfound := ih (by omega) (by omega)
        have hne : (scanned m n).newestSlot ≠ noSlot := by
          have := h.bound
          simp only [slotCount, noSlot] at *
          omega
        have hold : ¬((scanned m n).newestSlot = noSlot ∨
            newer (sequenceOf m n) (scanned m n).sequence = true) := by
          rw [(hs.newest hne).2.2, hfound]
          simp [hfound ▸ hne, (newer_of_ahead (h.ahead n (by omega) hv (Ne.symm he))).2]
        rw [visit_older hv hold]
        exact hfound
    · rw [visit_invalid hv]
      have : k ≠ n := fun he => hv (he ▸ h.valid)
      exact ih (by omega) (by omega)

/-- Whether the second loop of `fault_log_init` rejects what the scan found. -/
theorem illegal_iff {s : Scan} (hs : s.Knows m slotCount) :
    s.illegal = true ↔ ∃ slot < slotCount, Valid m slot ∧ slot ≠ s.newestSlot ∧
      ¬(s.sequence - sequenceOf m slot ≠ 0 ∧ s.sequence - sequenceOf m slot < 8) := by
  simp only [Scan.illegal, List.any_eq_true, List.mem_range]
  refine exists_congr fun slot => and_congr_right fun hslot => ?_
  have hbit := (mask_bit s.validMask hslot).trans (hs.mask slot hslot)
  by_cases hc : s.validMask &&& 1#8 <<< slot ≠ 0 ∧ slot ≠ s.newestSlot
  · have hv := (hbit.mp hc.1).2
    rw [if_pos hc, hs.sequences slot hslot hv]
    simp [hv, hc.2, or_iff_not_imp_left]
  · rw [if_neg hc, hbit] at *
    simp [hslot] at hc ⊢
    exact fun hv hne => absurd (hc hv) hne

/-! ### Initialization -/

/-- What `fault_log_init` returns when every read succeeds. -/
def recovered (dev : Dev) (m : Memory) : Int × Option Context :=
  let s := scanned m slotCount
  if s.illegal then (-Errno.eilseq, some .cleared)
  else (0, some ⟨some dev, s.sequence, s.newestSlot, true⟩)

def scanFrom (m : Memory) (slots : List Nat) (s : Scan) : Scan :=
  slots.foldl (fun s slot => s.visit slot (slotOf m slot)) s

theorem scanSlots_cons (slot : Nat) (rest : List Nat) (s : Scan) :
    scanSlots (slot :: rest) s = eepromRead (slotOffset slot) slotSize >>= fun x =>
      if x.1 ≠ 0 then pure (.error x.1) else scanSlots rest (s.visit slot x.2) := rfl

theorem scanFrom_cons (m : Memory) (slot : Nat) (rest : List Nat) (s : Scan) :
    scanFrom m (slot :: rest) s = scanFrom m rest (s.visit slot (slotOf m slot)) :=
  List.foldl_cons ..

theorem readSlot_run (slot : Nat) (m : Memory) :
    (eepromRead (slotOffset slot) slotSize).run faultFree m = ((0, slotOf m slot), m) := rfl

theorem scanSlots_run (slots : List Nat) (s : Scan) (m : Memory) :
    (scanSlots slots s).run faultFree m = (.ok (scanFrom m slots s), m) := by
  induction slots generalizing s with
  | nil => rfl
  | cons slot rest ih =>
    rw [scanSlots_cons, Program.bind_eq, Program.run_bind, readSlot_run, if_neg (by simp), ih,
      scanFrom_cons]

theorem scanSlots_safe (slots : List Nat) (s : Scan) (t : List (Event eeprom)) (m : Memory) :
    Safe eeprom (fun _ r m' => m' = m ∧ ∀ s', r = .ok s' → s' = scanFrom m slots s)
      (fun _ m' => m' = m) (scanSlots slots s) t m := by
  induction slots generalizing s t with
  | nil => exact ⟨rfl, fun _ h => by cases h; rfl⟩
  | cons slot rest ih =>
    rw [scanSlots_cons]
    refine safe_read (fun _ _ => rfl) fun e rc data _ hd => ?_
    by_cases hrc : rc = 0
    · rw [if_neg (by simpa using hrc), scanFrom_cons, ← show data = slotOf m slot from hd hrc]
      exact ih _ _
    · rw [if_pos hrc]
      exact ⟨rfl, nofun⟩

section Init

variable {dev : Dev} (hready : dev.ready = true) (hsize : logBytes ≤ dev.size)

/-- The last part of `fault_log_init`, after the loop over the slots. -/
def conclude (dev : Dev) : Except Int Scan → EepromProgram (Int × Option Context)
  | .error rc => pure (rc, some .cleared)
  | .ok s =>
    if s.illegal then pure (-Errno.eilseq, some .cleared)
    else pure (0, some ⟨some dev, s.sequence, s.newestSlot, true⟩)

theorem conclude_ok (m : Memory) :
    conclude dev (.ok (scanned m slotCount)) = pure (recovered dev m) := by
  rw [conclude, recovered]
  split <;> rfl

include hready hsize

theorem faultLogInit_eq (log : Context) :
    faultLogInit (some log) (some dev) =
      scanSlots (List.range slotCount) .start >>= conclude dev := by
  simp only [faultLogInit, hready, Bool.not_true, Bool.false_eq_true, if_false,
    if_neg (Nat.not_lt.mpr hsize)]
  rfl

theorem faultLogInit_run (log : Context) (m : Memory) :
    (faultLogInit (some log) (some dev)).run faultFree m = (recovered dev m, m) := by
  rw [faultLogInit_eq hready hsize, Program.bind_eq, Program.run_bind, scanSlots_run]
  exact congrArg (·.run faultFree m) (conclude_ok m)

/-- Whatever the reads return, `fault_log_init` changes no byte and makes a context usable only as
it would without read errors. -/
theorem faultLogInit_safe (log : Context) (t : List (Event eeprom)) (m : Memory) :
    Safe eeprom (fun _ r m' => m' = m ∧
        ∃ log', r.2 = some log' ∧ (log'.initialized = true → r = recovered dev m))
      (fun _ m' => m' = m) (faultLogInit (some log) (some dev)) t m := by
  rw [faultLogInit_eq hready hsize]
  refine Safe.bind ((scanSlots_safe _ _ _ _).mono ?_ fun _ _ h => h)
  rintro _ (rc | s) _ ⟨rfl, hs⟩
  · exact ⟨rfl, _, rfl, nofun⟩
  · rw [hs s rfl]
    show Safe _ _ _ (conclude dev (.ok (scanned _ slotCount))) _ _
    rw [conclude_ok]
    refine ⟨rfl, ?_⟩
    rw [recovered]
    split
    · exact ⟨_, rfl, nofun⟩
    · exact ⟨_, rfl, fun _ => rfl⟩

end Init

/-- An image with a leading slot is accepted, and that slot is the newest. -/
theorem recovered_leads {k : Nat} (h : Leads m k) (dev : Dev) :
    recovered dev m = (0, some ⟨some dev, sequenceOf m k, k, true⟩) := by
  have hk : (scanned m slotCount).newestSlot = k := scanned_leads h h.bound (Nat.le_refl _)
  have hs := scanned_knows m (Nat.le_refl slotCount)
  have hne : (scanned m slotCount).newestSlot ≠ noSlot := by
    have := h.bound
    rw [hk]
    simp only [slotCount, noSlot] at *
    omega
  have hsq := (hs.newest hne).2.2
  have hlegal : (scanned m slotCount).illegal = false := by
    rw [← Bool.not_eq_true, illegal_iff hs, hsq, hk]
    rintro ⟨slot, hslot, hv, hother, hage⟩
    exact hage (h.ahead slot hslot hv hother)
  simp [recovered, hlegal, hsq, hk]

theorem recovered_empty (h : ∀ slot < slotCount, ¬Valid m slot) (dev : Dev) :
    recovered dev m = (0, some ⟨some dev, 0, noSlot, true⟩) := by
  have hstart : ∀ n ≤ slotCount, scanned m n = .start := by
    intro n hn
    induction n with
    | zero => rfl
    | succ n ih => rw [scanned_succ, visit_invalid (h n (by omega)), ih (by omega)]
  rw [recovered, hstart slotCount (Nat.le_refl _)]
  rfl

end CortexLabs.FaultLog
