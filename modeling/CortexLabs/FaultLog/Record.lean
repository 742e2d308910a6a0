import CortexLabs.FaultLog.Model

/-! The records of an EEPROM image, how a faulty EEPROM reacts to the logger's operations, and what
the writes of an append can leave of a slot: a write to one slot leaves the others as they were, an
incomplete invalidation leaves a valid slot only when it changed nothing, and a slot whose commit
page is not `committed` is not valid. -/

namespace CortexLabs.FaultLog

open Device

theorem loadLe32_storeLe32 (v : Word) : loadLe32 (storeLe32 v) = v := by
  refine BitVec.eq_of_getLsbD_eq fun i hi => ?_
  simp only [loadLe32, storeLe32, Vector.getElem_ofFn, BitVec.getLsbD_or, BitVec.getLsbD_setWidth,
    BitVec.getLsbD_shiftLeft, BitVec.getLsbD_ushiftRight]
  grind

section Body

variable (sequence code : Word)

theorem bodyOf_magic : slice (bodyOf sequence code) 0 4 (by decide) = magic := by
  rw [bodyOf, slice_patch_other _ _ _ (by decide), slice_patch_other _ _ _ (by decide),
    slice_patch_other _ _ _ (by decide), slice_patch_self]

theorem bodyOf_sequence : slice (bodyOf sequence code) 4 4 (by decide) = storeLe32 sequence := by
  rw [bodyOf, slice_patch_other _ _ _ (by decide), slice_patch_other _ _ _ (by decide),
    slice_patch_self]

theorem bodyOf_code : slice (bodyOf sequence code) 8 4 (by decide) = storeLe32 code := by
  rw [bodyOf, slice_patch_other _ _ _ (by decide), slice_patch_self]

theorem bodyOf_checksum : slice (bodyOf sequence code) 12 4 (by decide) =
    storeLe32 (crc32 (slice (bodyOf sequence code) 0 12 (by decide)).toList) := by
  have head : slice (bodyOf sequence code) 0 12 (by decide) = slice (patch (patch (patch
      (Vector.replicate bodySize 0) 0 magic) 4 (storeLe32 sequence)) 8 (storeLe32 code)) 0 12
      (by decide) := slice_patch_other _ _ _ (by decide)
  rw [head, bodyOf, slice_patch_self]

end Body

def slotOf (m : Memory) (slot : Nat) : Vector Byte slotSize := m.read (slotOffset slot) slotSize

def commitOf (m : Memory) (slot : Nat) : Vector Byte commitSize :=
  m.read (slotOffset slot + commitOffset) commitSize

def recordOf (m : Memory) (slot : Nat) : Vector Byte bodySize := m.read (slotOffset slot) bodySize

def Valid (m : Memory) (slot : Nat) : Prop := recordValid (slotOf m slot) = true

instance (m : Memory) (slot : Nat) : Decidable (Valid m slot) :=
  inferInstanceAs (Decidable (_ = true))

theorem sequence_within : 4 + 4 ≤ slotSize := by decide

theorem code_within : 8 + 4 ≤ slotSize := by decide

theorem body_within : 0 + bodySize ≤ slotSize := by decide

def sequenceOf (m : Memory) (slot : Nat) : Word :=
  loadLe32 (slice (slotOf m slot) 4 4 sequence_within)

def codeOf (m : Memory) (slot : Nat) : Word := loadLe32 (slice (slotOf m slot) 8 4 code_within)

variable {m m' : Memory} {slot : Nat}

theorem valid_commit (h : Valid m slot) : commitOf m slot = committed := by
  simp only [Valid, recordValid, slotOf, Bool.and_eq_true, beq_iff_eq, Memory.slice_read] at h
  exact h.1.1

theorem slice_slotOf {start len : Nat} (h : start + len ≤ bodySize) :
    slice (slotOf m slot) start len (Nat.le_trans h (by decide)) =
      slice (recordOf m slot) start len h := by
  rw [slotOf, recordOf, Memory.slice_read, Memory.slice_read]

/-- A body that `fault_log_append` built, under a complete commit page, is a valid record. -/
theorem valid_of_body {sequence code : Word} (hc : commitOf m slot = committed)
    (hb : recordOf m slot = bodyOf sequence code) :
    Valid m slot ∧ sequenceOf m slot = sequence ∧ codeOf m slot = code := by
  refine ⟨?_, ?_, ?_⟩
  · simp only [Valid, recordValid, Bool.and_eq_true, beq_iff_eq]
    refine ⟨⟨?_, ?_⟩, ?_⟩
    · rw [slotOf, Memory.slice_read]
      exact hc
    · rw [slice_slotOf (by decide), hb, bodyOf_magic]
    · rw [slice_slotOf (by decide), slice_slotOf (by decide), hb, bodyOf_checksum,
        loadLe32_storeLe32]
  · rw [sequenceOf, slice_slotOf (by decide), hb, bodyOf_sequence, loadLe32_storeLe32]
  · rw [codeOf, slice_slotOf (by decide), hb, bodyOf_code, loadLe32_storeLe32]

theorem valid_congr (h : slotOf m' slot = slotOf m slot) : Valid m' slot ↔ Valid m slot := by
  rw [Valid, Valid, h]

theorem sequenceOf_congr (h : slotOf m' slot = slotOf m slot) :
    sequenceOf m' slot = sequenceOf m slot := by
  rw [sequenceOf, sequenceOf, h]

theorem codeOf_congr (h : slotOf m' slot = slotOf m slot) : codeOf m' slot = codeOf m slot := by
  rw [codeOf, codeOf, h]

/-! ### A faulty EEPROM -/

/-- An EEPROM whose reads return the stored bytes or an error, and whose writes, whatever they
return, leave each byte of their range old or new, as a write that power cuts does. -/
abbrev eeprom : Behavior Op Ans where
  State := Memory
  answer m
    | .read offset len, (rc, data), m' => m' = m ∧ (rc = 0 → data = m.read offset len)
    | .write offset _ data, _, m' => m.Torn offset data m'
  torn m
    | .read _ _, m' => m' = m
    | .write offset _ data, m' => m.Torn offset data m'

def faultFree : (o : Op) → Memory → Ans o × Memory
  | .read offset len, m => ((0, m.read offset len), m)
  | .write offset _ data, m => ((0 : Int), m.write offset data)

theorem faultFree_handles : Handles eeprom faultFree := by
  intro m o
  cases o with
  | read offset len => exact ⟨rfl, fun _ => rfl⟩
  | write offset len data => exact Memory.Torn.write m offset data

section Rules

variable {α : Type} {Q : List (Event eeprom) → α → Memory → Prop}
  {C : List (Event eeprom) → Memory → Prop} {t : List (Event eeprom)} {offset len : Nat}

/-- A read is safe when what follows is, after the stored bytes or an error. -/
theorem safe_read {f : Int × Vector Byte len → EepromProgram α}
    (hC : ∀ e : Event eeprom, e.op = .read offset len → C (t ++ [e]) m)
    (h : ∀ (e : Event eeprom) (rc : Int) (data : Vector Byte len), e.op = .read offset len →
      (rc = 0 → data = m.read offset len) → Safe eeprom Q C (f (rc, data)) (t ++ [e]) m) :
    Safe eeprom Q C (eepromRead offset len >>= f) t m := by
  constructor
  · rintro _ rfl
    exact hC _ rfl
  · rintro ⟨rc, data⟩ _ ⟨rfl, hd⟩
    exact h _ rc data rfl hd

/-- A write is safe when every image that it may leave is, whether it returns or is cut. -/
theorem safe_write {data : Vector Byte len} {f : Int → EepromProgram α}
    (h : ∀ (e : Event eeprom) (m' : Memory), e.op = .write offset len data → e.after = m' →
      m.Torn offset data m' → C (t ++ [e]) m' ∧ ∀ rc, Safe eeprom Q C (f rc) (t ++ [e]) m') :
    Safe eeprom Q C (eepromWrite offset data >>= f) t m :=
  ⟨fun m' hm => (h _ m' rfl rfl hm).1, fun rc m' hm => (h _ m' rfl rfl hm).2 rc⟩

end Rules

/-! ### Writes to one slot -/

theorem torn_other {k start len : Nat} {data : Vector Byte len} (hlen : start + len ≤ slotSize)
    (h : m.Torn (slotOffset k + start) data m') (hne : slot ≠ k) :
    slotOf m' slot = slotOf m slot := by
  apply h.read_outside
  simp only [slotOffset, slotSize] at hlen ⊢
  omega

/-- An incomplete invalidation of a valid slot that leaves it valid has changed nothing: no byte
of `committed` is zero. -/
theorem torn_invalid (h : m.Torn (slotOffset slot + commitOffset) invalid m')
    (hv : Valid m' slot) : slotOf m' slot = slotOf m slot := by
  have hc := Memory.read_eq_iff.mp (valid_commit hv)
  have hne : ∀ i (hi : i < commitSize), committed[i] ≠ invalid[i] := by decide
  refine Memory.read_congr fun i hi => ?_
  by_cases hi' : i < commitOffset
  · exact h.outside (by omega)
  · obtain ⟨j, rfl⟩ : ∃ j, i = commitOffset + j := ⟨i - commitOffset, by omega⟩
    have hj : j < commitSize := by simp only [slotSize, commitOffset, commitSize] at *; omega
    have hold := h.inside hj
    rw [hc j hj] at hold
    rw [← Nat.add_assoc, hc j hj]
    exact hold.resolve_right (hne j hj)

theorem not_valid_of_invalid (h : commitOf m slot = invalid) : ¬Valid m slot := by
  intro hv
  exact absurd ((valid_commit hv).symm.trans h) (by decide)

theorem not_valid_erased (slot : Nat) : ¬Valid (fun _ => 0xff) slot := by
  intro h
  have h0 := Memory.read_eq_iff.mp (valid_commit h) 0 (by decide)
  change (0xff : Byte) = committed[0] at h0
  exact absurd h0 (by decide)

theorem torn_body_commit {data : Vector Byte bodySize} (h : m.Torn (slotOffset slot) data m') :
    commitOf m' slot = commitOf m slot :=
  h.read_outside (.inr (by simp only [bodySize, commitOffset]; omega))

theorem torn_commit_body {data : Vector Byte commitSize}
    (h : m.Torn (slotOffset slot + commitOffset) data m') : recordOf m' slot = recordOf m slot :=
  h.read_outside (.inl (by simp only [bodySize, commitOffset]; omega))

end CortexLabs.FaultLog
