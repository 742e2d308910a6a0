import CortexLabs.Device.Interference
import CortexLabs.Device.Run
import CortexLabs.RingBuffer.Model
import Mathlib.Algebra.Order.Ring.Nat

/-! The ring buffer under interrupts.  Between any two accesses of a pop the buffer holds the bytes
that have been accepted and not returned, in order, from `tail` on; pushes only add behind them, so
what the pop has seen of `head` stays a lower bound, and `tail` and the byte there stay as they
were. -/

namespace CortexLabs.RingBuffer

open Device Relation

/-- An index that has gone round the buffer. -/
def wrap (n : Nat) : Word := BitVec.ofNat 32 (n % 64)

theorem toNat_wrap (n : Nat) : (wrap n).toNat = n % 64 := by
  rw [wrap, BitVec.toNat_ofNat]
  omega

theorem wrap_lt (n : Nat) : wrap n < rbSize := by
  rw [BitVec.lt_def, toNat_wrap]
  exact Nat.mod_lt _ (by decide)

theorem wrap_succ (n : Nat) : (wrap n + 1) % rbSize = wrap (n + 1) := by
  apply BitVec.eq_of_toNat_eq
  rw [BitVec.toNat_umod, BitVec.toNat_add, toNat_wrap, toNat_wrap]
  show (n % 64 + 1) % 2 ^ 32 % 64 = (n + 1) % 64
  omega

theorem wrap_inj {n m : Nat} : wrap n = wrap m ↔ n % 64 = m % 64 := by
  rw [← toNat_wrap, ← toNat_wrap, BitVec.toNat_inj]

/-- The buffer holds the accepted bytes that have not been returned. -/
structure Holds (s : Shared) : Prop where
  order : s.returned <+: s.accepted
  room : s.accepted.length ≤ s.returned.length + 63
  head : s.rb.head = wrap s.accepted.length
  tail : s.rb.tail = wrap s.returned.length
  data : ∀ j (h : j < s.accepted.length), s.returned.length ≤ j →
    s.rb.data (j % 64) = s.accepted[j]

namespace Holds

variable {s : Shared}

theorem le (h : Holds s) : s.returned.length ≤ s.accepted.length := h.order.length_le

/-- One past `head` meets `tail` exactly when 63 bytes are in the buffer. -/
theorem full_iff (h : Holds s) : (s.rb.head + 1) % rbSize = s.rb.tail ↔ s.count = 63 := by
  have hle := h.le
  have hroom := h.room
  rw [h.head, h.tail, wrap_succ, wrap_inj, Shared.count]
  omega

theorem empty_iff (h : Holds s) : s.rb.head = s.rb.tail ↔ s.count = 0 := by
  have hle := h.le
  have hroom := h.room
  rw [h.head, h.tail, wrap_inj, Shared.count]
  omega

end Holds

/-! ### Pushes -/

section Push

variable {s : Shared} {c : Byte}

theorem rbFull_run (rb : Ringbuffer) :
    rbFull.run access rb = ((rb.head + 1) % rbSize == rb.tail, rb) := rfl

theorem rbPush_full (hfull : (s.rb.head + 1) % rbSize = s.rb.tail) :
    (rbPush c).run access s.rb = (false, s.rb) := by
  rw [rbPush, Program.bind_eq, Program.run_bind, rbFull_run, hfull, beq_self_eq_true, if_pos rfl]
  rfl

theorem rbPush_room (hroom : (s.rb.head + 1) % rbSize ≠ s.rb.tail) :
    (rbPush c).run access s.rb = (true, { s.rb with
      data := Function.update s.rb.data s.rb.head.toNat c
      head := (s.rb.head + 1) % rbSize }) := by
  rw [rbPush, Program.bind_eq, Program.run_bind, rbFull_run, beq_false_of_ne hroom,
    if_neg Bool.false_ne_true]
  rfl

/-- A push is refused exactly when the buffer holds 63 bytes. -/
theorem pushOk_iff (h : Holds s) : s.pushOk c = false ↔ s.count = 63 := by
  rw [← h.full_iff, Shared.pushOk]
  by_cases hfull : (s.rb.head + 1) % rbSize = s.rb.tail
  · rw [rbPush_full hfull]
    exact iff_of_true rfl hfull
  · rw [rbPush_room hfull]
    exact iff_of_false Bool.false_ne_true.symm hfull

theorem Holds.push (h : Holds s) (c : Byte) : Holds (s.push c) := by
  by_cases hfull : (s.rb.head + 1) % rbSize = s.rb.tail
  · have hrun := rbPush_full (c := c) hfull
    simp only [Shared.push, Shared.pushOk, hrun]
    exact h
  · have hrun := rbPush_room (c := c) hfull
    simp only [Shared.push, Shared.pushOk, hrun, if_true]
    have hle := h.le
    have hcount := mt h.full_iff.mpr hfull
    have hroom := h.room
    rw [Shared.count] at hcount
    have hlen : (s.accepted ++ [c]).length = s.accepted.length + 1 := List.length_append
    refine ⟨h.order.trans (List.prefix_append _ _), ?_, ?_, h.tail, fun j hj hlow => ?_⟩
    · rw [hlen]
      show _ ≤ s.returned.length + 63
      omega
    · rw [hlen, h.head, wrap_succ]
    · rw [h.head, toNat_wrap]
      dsimp only at hj hlow ⊢
      rw [hlen] at hj
      by_cases hlast : j = s.accepted.length
      · subst hlast
        rw [Function.update_self, List.getElem_concat_length rfl]
      · have hold : j < s.accepted.length := by omega
        rw [Function.update_of_ne (by omega), List.getElem_append_left hold]
        exact h.data j hold hlow

end Push

/-- Any number of interrupts. -/
abbrev Pushes : Shared → Shared → Prop := ReflTransGen fun s s' => ∃ c, s' = s.push c

/-- What interrupts leave as it was. -/
structure Grown (s s' : Shared) : Prop where
  returned : s'.returned = s.returned
  tail : s'.rb.tail = s.rb.tail
  checked : s'.checked = s.checked
  accepted : s.accepted <+: s'.accepted

theorem Grown.push (s : Shared) (c : Byte) : Grown s (s.push c) := by
  by_cases hfull : (s.rb.head + 1) % rbSize = s.rb.tail
  · have hrun := rbPush_full (c := c) hfull
    simp only [Shared.push, Shared.pushOk, hrun]
    exact ⟨rfl, rfl, rfl, List.prefix_rfl⟩
  · have hrun := rbPush_room (c := c) hfull
    simp only [Shared.push, Shared.pushOk, hrun, if_true]
    exact ⟨rfl, rfl, rfl, List.prefix_append _ _⟩

theorem Holds.pushes {s s' : Shared} (h : Holds s) (hs : Pushes s s') : Holds s' ∧ Grown s s' := by
  refine run_relation (fun _ => ⟨rfl, rfl, rfl, List.prefix_rfl⟩) (fun _ _ _ h1 h2 => ?_)
    (fun s s' h hs => ?_) hs h
  · exact ⟨h2.returned.trans h1.returned, h2.tail.trans h1.tail, h2.checked.trans h1.checked,
      h1.accepted.trans h2.accepted⟩
  · obtain ⟨c, rfl⟩ := hs
    exact ⟨h.push c, .push s c⟩

/-! ### The pop -/

/-- What a pop that returns `r` has done: taken the oldest byte, or found the buffer empty when it
read `head`. -/
def Done (r : Option Byte) (s : Shared) : Prop :=
  Holds (s.popped r) ∧ (r = none → s.checked = some 0)

section Pop

variable {s : Shared}

theorem Holds.checked (h : Holds s) (n : Option Nat) : Holds { s with checked := n } :=
  ⟨h.order, h.room, h.head, h.tail, h.data⟩

/-- The check of a pop: it was empty when `head` was read, or it is not empty. -/
theorem rbEmpty_under (tailFirst : Bool) (h : Holds s) :
    Under Pushes Shared.access Holds
      (fun empty s => Holds s ∧ if empty = true then s.checked = some 0 else 0 < s.count)
      (rbEmpty tailFirst) s := by
  unfold rbEmpty
  split
  · refine Under.issue h fun s1 hs1 => ?_
    obtain ⟨h1, -⟩ := h.pushes hs1
    refine Under.issue h1 fun s2 hs2 => ?_
    obtain ⟨h2, hgrown⟩ := h1.pushes hs2
    refine ⟨h2.checked _, ?_⟩
    show if (s2.rb.head == s1.rb.tail) = true then some s2.count = some 0 else 0 < s2.count
    rw [← hgrown.tail]
    split
    · next hempty => exact congrArg some (h2.empty_iff.mp (beq_iff_eq.mp hempty))
    · next hsome =>
      exact Nat.pos_of_ne_zero fun h0 => hsome (beq_iff_eq.mpr (h2.empty_iff.mpr h0))
  · refine Under.issue h fun s1 hs1 => ?_
    obtain ⟨h1, -⟩ := h.pushes hs1
    have h1' : Holds (s1.access .readHead).2 := h1.checked _
    refine Under.issue h1' fun s2 hs2 => ?_
    obtain ⟨h2, hgrown⟩ := h1'.pushes hs2
    refine ⟨h2, ?_⟩
    show if (s1.rb.head == s2.rb.tail) = true then s2.checked = some 0 else 0 < s2.count
    have htail : s2.rb.tail = s1.rb.tail := hgrown.tail
    rw [htail]
    split
    · next hempty =>
      have hnone : s1.count = 0 := h1.empty_iff.mp (beq_iff_eq.mp hempty)
      exact hgrown.checked.trans (congrArg some hnone)
    · next hsome =>
      have hcount : s1.count ≠ 0 :=
        fun h0 => hsome (beq_iff_eq.mpr (h1.empty_iff.mpr h0))
      have hlen := hgrown.accepted.length_le
      have hret := congrArg List.length hgrown.returned
      change s1.accepted.length ≤ _ at hlen
      change _ = s1.returned.length at hret
      unfold Shared.count at hcount ⊢
      omega

/-- With a byte in the buffer, the rest of a pop takes the oldest. -/
theorem take_under (h : Holds s) (hsome : 0 < s.count) :
    Under Pushes Shared.access Holds Done (do
      let tail ← readTail
      let c ← readData tail
      let tail ← readTail
      writeTail ((tail + 1) % rbSize)
      return some c) s := by
  have hlt : s.returned.length < s.accepted.length := Nat.lt_of_sub_pos hsome
  refine Under.issue h fun s1 hs1 => ?_
  obtain ⟨h1, hgrown1⟩ := h.pushes hs1
  refine Under.issue h1 fun s2 hs2 => ?_
  obtain ⟨h2, hgrown2⟩ := h1.pushes hs2
  refine Under.issue h2 fun s3 hs3 => ?_
  obtain ⟨h3, hgrown3⟩ := h2.pushes hs3
  refine Under.issue h3 fun s4 hs4 => ?_
  obtain ⟨h4, hgrown4⟩ := h3.pushes hs4
  have hret2 : s2.returned = s.returned := hgrown2.returned.trans hgrown1.returned
  have hret3 : s3.returned = s.returned := hgrown3.returned.trans hret2
  have hret4 : s4.returned = s.returned := hgrown4.returned.trans hret3
  have hacc2 : s2.accepted <+: s4.accepted := hgrown3.accepted.trans hgrown4.accepted
  have hacc : s.accepted <+: s4.accepted :=
    hgrown1.accepted.trans (hgrown2.accepted.trans hacc2)
  have hlt2 : s.returned.length < s2.accepted.length :=
    Nat.lt_of_lt_of_le hlt (hgrown1.accepted.trans hgrown2.accepted).length_le
  have hlt4 : s.returned.length < s4.accepted.length := Nat.lt_of_lt_of_le hlt hacc.length_le
  have hbyte : s2.rb.data s1.rb.tail.toNat = s4.accepted[s.returned.length] := by
    rw [h1.tail, hgrown1.returned, toNat_wrap, h2.data _ hlt2 (Nat.le_of_eq (by rw [hret2]))]
    exact hacc2.getElem hlt2
  refine ⟨⟨?_, ?_, h4.head, ?_, fun j hj hlow => ?_⟩, nofun⟩
  · show s4.returned ++ [s2.rb.data s1.rb.tail.toNat] <+: s4.accepted
    rw [hbyte, hret4]
    have htake : s.returned = s4.accepted.take s.returned.length :=
      hret4 ▸ (List.prefix_iff_eq_take.mp h4.order)
    have hnext : s.returned ++ [s4.accepted[s.returned.length]] =
        s4.accepted.take (s.returned.length + 1) := by
      rw [List.take_succ_eq_append_getElem hlt4, ← htake]
    rw [hnext]
    exact List.take_prefix _ _
  · have hroom := h4.room
    show s4.accepted.length ≤ (s4.returned ++ [_]).length + 63
    rw [List.length_append]
    omega
  · show (s3.rb.tail + 1) % rbSize = wrap (s4.returned ++ [_]).length
    rw [h3.tail, wrap_succ, List.length_append, hret3, hret4]
    rfl
  · refine h4.data j hj (Nat.le_trans ?_ hlow)
    show s4.returned.length ≤ (s4.returned ++ [_]).length
    rw [List.length_append]
    exact Nat.le_add_right _ _

/-- A pop begins with an access. -/
theorem rbPop_call (tailFirst : Bool) : ∃ o k, rbPop tailFirst = .call o k := by
  cases tailFirst with
  | false => exact ⟨_, _, rfl⟩
  | true => exact ⟨_, _, rfl⟩

theorem rbPop_under (tailFirst : Bool) (h : Holds s) :
    Under Pushes Shared.access Holds Done (rbPop tailFirst) s := by
  refine Under.bind ((rbEmpty_under tailFirst h).mono ?_)
  rintro empty s ⟨h, hcheck⟩
  cases empty with
  | true => exact ⟨by rwa [Shared.popped, Option.toList_none, List.append_nil], fun _ => hcheck⟩
  | false => exact take_under h hcheck

end Pop

/-! ### Runs -/

/-- The buffer is right, and a pop in progress is between two of its accesses and will be, whatever
interrupts come. -/
structure System.Inv (s : System) : Prop where
  holds : Holds s.shared
  pop : ∀ p, s.pop = some p → (∃ o k, p = .call o k) ∧
    Under Pushes Shared.access Holds Done p s.shared

section Runs

variable {tailFirst : Bool} {s s' : System}

theorem System.Inv.step {l : Label} (h : s.Inv) (hs : Step tailFirst s l s') : s'.Inv := by
  cases hs with
  | push c =>
    refine ⟨h.holds.push c, fun p hp => ?_⟩
    obtain ⟨⟨o, k, rfl⟩, hunder⟩ := h.pop p hp
    refine ⟨⟨o, k, rfl⟩, hunder.stable (fun _ _ _ => .trans) ?_ (.single ⟨c, rfl⟩)⟩
    exact fun _ _ hs h => (h.pushes hs).1
  | call =>
    refine ⟨h.holds.checked none, fun p hp => ?_⟩
    obtain rfl := Option.some.inj hp
    exact ⟨rbPop_call tailFirst, rbPop_under tailFirst (h.holds.checked none)⟩
  | access hk =>
    have hunder := (h.pop _ rfl).2.2 _ .refl
    rw [hk] at hunder
    refine ⟨hunder.1, fun p hp => ?_⟩
    obtain rfl := Option.some.inj hp
    exact ⟨⟨_, _, rfl⟩, hunder⟩
  | pop hk =>
    have hunder := (h.pop _ rfl).2.2 _ .refl
    rw [hk] at hunder
    exact ⟨hunder.1, nofun⟩

theorem System.Inv.start (rb : Ringbuffer) : (System.start rb).Inv :=
  ⟨⟨List.prefix_rfl, Nat.zero_le _, rfl, rfl, nofun⟩, nofun⟩

abbrev Reaches (tailFirst : Bool) : System → System → Prop :=
  ReflTransGen fun s s' => ∃ l, Step tailFirst s l s'

theorem System.Inv.reaches (h : s.Inv) (hrun : Reaches tailFirst s s') : s'.Inv :=
  run_invariant (fun _ _ h hs => hs.elim fun _ hs => h.step hs) hrun h

/-- After `rb_init`, wherever interrupts push: the bytes returned are a prefix of those accepted, at
most 63 are in the buffer, a push is refused exactly when 63 are, a pop fails only when it has read
`head` and there were none then, and both indices stay within the buffer. -/
theorem ring_buffer_fifo {rb : Ringbuffer} (hrun : Reaches tailFirst (System.start rb) s) :
    s.shared.returned <+: s.shared.accepted ∧
    s.shared.returned.length ≤ s.shared.accepted.length ∧ s.shared.count ≤ 63 ∧
    s.shared.rb.head < rbSize ∧ s.shared.rb.tail < rbSize ∧
    (∀ c ok s', Step tailFirst s (.pushed c ok) s' → (ok = false ↔ s.shared.count = 63)) ∧
    ∀ s', Step tailFirst s (.popped none) s' → s'.shared.checked = some 0 := by
  have h := (System.Inv.start rb).reaches hrun
  have hroom := h.holds.room
  refine ⟨h.holds.order, h.holds.le, ?_, ?_, ?_, fun c ok s' hs => ?_, fun s' hs => ?_⟩
  · rw [Shared.count]
    omega
  · rw [h.holds.head]
    exact wrap_lt _
  · rw [h.holds.tail]
    exact wrap_lt _
  · cases hs
    exact pushOk_iff h.holds
  · cases hs with
    | pop hk =>
      have hunder := (h.pop _ rfl).2.2 _ .refl
      rw [hk] at hunder
      exact hunder.2 rfl

end Runs

/-- A push of 7, and a pop with a push of 8 between its check and its reads, and one of 9 before its
last store. -/
theorem ring_buffer_fifo_one : ∃ s, Reaches false (System.start ⟨fun _ => 0, 9, 9⟩) s ∧
    s.shared.returned = [7] ∧ s.shared.accepted = [7, 8, 9] ∧
    s.shared.returned <+: s.shared.accepted ∧ s.shared.count ≤ 63 := by
  have hpush : Reaches false (System.start ⟨fun _ => 0, 9, 9⟩) _ := .single ⟨_, .push 7 _⟩
  have hcall := hpush.tail ⟨_, .call⟩
  have hchecked := (hcall.tail ⟨_, .access rfl⟩).tail ⟨_, .access rfl⟩
  have hpush8 := hchecked.tail ⟨_, .push 8 _⟩
  have hread := (hpush8.tail ⟨_, .access rfl⟩).tail ⟨_, .access rfl⟩
  have hpush9 := (hread.tail ⟨_, .access rfl⟩).tail ⟨_, .push 9 _⟩
  have hrun := hpush9.tail ⟨_, .pop rfl⟩
  obtain ⟨horder, -, hcount, -⟩ := ring_buffer_fifo hrun
  exact ⟨_, hrun, rfl, rfl, horder, hcount⟩

end CortexLabs.RingBuffer
