import CortexLabs.FaultLog.Recovery

/-! The ring of records: the list of the records published so far says what each slot may hold, and
one append, whatever its operations return and wherever power fails in it, publishes its record once
or leaves the ring as it was. -/

namespace CortexLabs.FaultLog

open Device

/-- A record whose commit page has been completed: its slot, sequence number and fault code. -/
structure Publication where
  slot : Nat
  sequence : Word
  code : Word
  deriving DecidableEq

/-- The record that an operation published: a write of `committed` after which the page holds all
of it publishes the record in the page's slot. -/
def publication (e : Event eeprom) : Option Publication :=
  match e.op with
  | .read _ _ => none
  | .write offset _ data =>
    if data.toList = committed.toList ∧ e.after.read offset commitSize = committed then
      let slot := (offset - commitOffset) / slotSize
      some ⟨slot, sequenceOf e.after slot, codeOf e.after slot⟩
    else none

/-- The records that a run of operations published, in order. -/
def published (t : List (Event eeprom)) : List Publication := t.filterMap publication

def Publication.Held (p : Publication) (m : Memory) : Prop :=
  Valid m p.slot ∧ sequenceOf m p.slot = p.sequence ∧ codeOf m p.slot = p.code

/-- The slots of an image after `ps` were published, oldest first: record `j` went to slot `j % 8`
with sequence `j + 1`, the last seven are held, and every valid slot holds one of the last eight. -/
structure Ring (m : Memory) (ps : List Publication) : Prop where
  placed : ∀ j (h : j < ps.length),
    ps[j].slot = j % slotCount ∧ ps[j].sequence = BitVec.ofNat 32 (j + 1)
  held : ∀ j (h : j < ps.length), ps.length ≤ j + 7 → ps[j].Held m
  only : ∀ slot < slotCount, Valid m slot →
    ∃ j, ∃ h : j < ps.length, ps.length ≤ j + slotCount ∧ ps[j].slot = slot ∧ ps[j].Held m

abbrev target (ps : List Publication) : Nat := ps.length % slotCount

namespace Ring

variable {m m' : Memory} {ps : List Publication}

theorem empty (h : ∀ slot < slotCount, ¬Valid m slot) : Ring m [] :=
  ⟨nofun, nofun, fun slot hs hv => absurd hv (h slot hs)⟩

theorem held_congr {p : Publication} (h : slotOf m' p.slot = slotOf m p.slot) :
    p.Held m' ↔ p.Held m := by
  rw [Publication.Held, Publication.Held, valid_congr h, sequenceOf_congr h, codeOf_congr h]

/-- A change of the next slot alone that leaves it valid only when it is as it was. -/
theorem frame (h : Ring m ps)
    (hother : ∀ slot < slotCount, slot ≠ target ps → slotOf m' slot = slotOf m slot)
    (hself : Valid m' (target ps) → slotOf m' (target ps) = slotOf m (target ps)) :
    Ring m' ps := by
  refine ⟨h.placed, fun j hj hlast => ?_, fun slot hs hv => ?_⟩
  · have hslot := (h.placed j hj).1
    refine (held_congr (hother _ ?_ ?_)).mpr (h.held j hj hlast)
    · rw [hslot]
      exact Nat.mod_lt _ (by decide)
    · simp only [hslot, target, slotCount]
      omega
  · have hsame : slotOf m' slot = slotOf m slot := by
      by_cases he : slot = target ps
      · exact he ▸ hself (he ▸ hv)
      · exact hother slot hs he
    obtain ⟨j, hj, hlast, rfl, hheld⟩ := h.only slot hs ((valid_congr hsame).mp hv)
    exact ⟨j, hj, hlast, rfl, (held_congr hsame).mpr hheld⟩

/-- A record in the next slot, with the next sequence number, extends the ring. -/
theorem extend (h : Ring m ps)
    (hother : ∀ slot < slotCount, slot ≠ target ps → slotOf m' slot = slotOf m slot)
    {p : Publication} (hslot : p.slot = target ps)
    (hseq : p.sequence = BitVec.ofNat 32 (ps.length + 1)) (hp : p.Held m') :
    Ring m' (ps ++ [p]) := by
  refine ⟨fun j hj => ?_, fun j hj hlast => ?_, fun slot hs hv => ?_⟩
  · rw [List.getElem_append]
    split
    · next hj' => exact h.placed j hj'
    · next hj' =>
      simp only [List.length_append, List.length_singleton] at hj
      obtain rfl : j = ps.length := by omega
      simp [hslot, hseq, target]
  · simp only [List.length_append, List.length_singleton] at hlast hj
    rw [List.getElem_append]
    split
    · next hj' =>
      have hat := (h.placed j hj').1
      refine (held_congr (hother _ ?_ ?_)).mpr (h.held j hj' (by omega))
      · rw [hat]
        exact Nat.mod_lt _ (by decide)
      · simp only [hat, target, slotCount]
        omega
    · simpa using hp
  · by_cases he : slot = target ps
    · refine ⟨ps.length, by simp, by simp [slotCount], ?_, ?_⟩
      · simp [hslot, he]
      · simpa using hp
    · have hsame := hother slot hs he
      obtain ⟨j, hj, hlast, rfl, hheld⟩ := h.only slot hs ((valid_congr hsame).mp hv)
      refine ⟨j, by simp; omega, ?_, ?_, ?_⟩
      · have : j + slotCount ≠ ps.length := by
          intro hj'
          apply he
          rw [(h.placed j hj).1, target, ← hj']
          simp
        simp only [List.length_append, List.length_singleton]
        omega
      · rw [List.getElem_append_left hj]
      · rw [List.getElem_append_left hj]
        exact (held_congr hsame).mpr hheld

/-- The record published last leads the valid slots. -/
theorem leads (h : Ring m ps) (hne : ps ≠ []) : Leads m (ps.getLast hne).slot ∧
    (ps.getLast hne).Held m := by
  have hlen : 0 < ps.length := List.length_pos_iff.mpr hne
  rw [List.getLast_eq_getElem hne]
  have hheld := h.held (ps.length - 1) (by omega) (by omega)
  have hplaced := h.placed (ps.length - 1) (by omega)
  refine ⟨⟨?_, hheld.1, fun slot hs hv hother => ?_⟩, hheld⟩
  · rw [hplaced.1]
    exact Nat.mod_lt _ (by decide)
  · obtain ⟨j, hj, hlast, rfl, hj'⟩ := h.only slot hs hv
    have hne : j ≠ ps.length - 1 := by
      rintro rfl
      exact hother rfl
    rw [hheld.2.1, hj'.2.1, hplaced.2, (h.placed j hj).2]
    simp only [slotCount] at hlast
    rw [show ps.length - 1 + 1 = (j + 1) + (ps.length - 1 - j) by omega, BitVec.ofNat_add]
    have hage : 1 ≤ ps.length - 1 - j ∧ ps.length - 1 - j ≤ 7 := by omega
    generalize ps.length - 1 - j = age at hage
    bv_omega

end Ring

end CortexLabs.FaultLog
