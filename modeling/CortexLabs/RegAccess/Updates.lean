import CortexLabs.Device.Interleaving
import CortexLabs.RegAccess.Model

/-! Masked updates of one register by several callers, whose transactions interleave.  An update
writes back, outside its mask, what it has read; as long as the register still holds that when it
writes, it changes no bit outside its mask, and what the others have done or will do stays. -/

namespace CortexLabs.RegAccess

open Device Relation

section Bits

variable {x y m n : Byte}

theorem masked_inside (mask value old : Byte) :
    masked mask value old &&& mask = value &&& mask := by
  ext i hi
  simp only [masked, BitVec.getElem_and, BitVec.getElem_or, BitVec.getElem_not]
  cases mask[i] <;> simp

theorem masked_outside (mask value old : Byte) :
    masked mask value old &&& ~~~mask = old &&& ~~~mask := by
  ext i hi
  simp only [masked, BitVec.getElem_and, BitVec.getElem_or, BitVec.getElem_not]
  cases mask[i] <;> simp

theorem masked_eq (h : x &&& m = y &&& m) : masked m x y = y := by
  ext i hi
  have hbit : (x &&& m)[i] = (y &&& m)[i] := congrArg (·[i]) h
  rw [BitVec.getElem_and, BitVec.getElem_and] at hbit
  simp only [masked, BitVec.getElem_and, BitVec.getElem_or, BitVec.getElem_not, hbit]
  cases m[i] <;> simp

/-- Bytes that agree outside a mask agree under a disjoint one. -/
theorem and_disjoint (h : x &&& ~~~m = y &&& ~~~m) (hmn : m &&& n = 0) : x &&& n = y &&& n := by
  have hn : ~~~m &&& n = n := by
    ext i hi
    have hdis : (m &&& n)[i] = (0 : Byte)[i] := congrArg (·[i]) hmn
    rw [BitVec.getElem_and, BitVec.ofNat_eq_ofNat, BitVec.getElem_zero] at hdis
    rw [BitVec.getElem_and, BitVec.getElem_not]
    cases hm : m[i]
    · simp
    · rw [hm, Bool.true_and] at hdis
      simp [hdis]
  calc x &&& n = x &&& ~~~m &&& n := by rw [BitVec.and_assoc, hn]
    _ = y &&& ~~~m &&& n := by rw [h]
    _ = y &&& n := by rw [BitVec.and_assoc, hn]

end Bits

/-! ### One update -/

section Update

variable {client : Option I2cClient} {reg mask value : Byte}

theorem update_valid (hvalid : validateClient client = 0) :
    regUpdateByte client reg mask value = .call (.writeRead (addrOf client) reg) fun r =>
      if r.1 ≠ 0 then .ret r.1
      else if masked mask value r.2 = r.2 then .ret 0
      else .call (.write (addrOf client) reg (masked mask value r.2)) .ret := by
  have hread : regReadByte client reg (some 0) =
      .call (.writeRead (addrOf client) reg) fun r => .ret (r.1, some r.2) := by
    simp only [regReadByte, hvalid]
    rfl
  have hwrite : ∀ v, regWriteByte client reg v = .call (.write (addrOf client) reg v) .ret := by
    intro v
    simp only [regWriteByte, hvalid]
    rfl
  rw [regUpdateByte, hread]
  refine congrArg (Program.call _) (funext fun r => ?_)
  show (if r.1 ≠ 0 then _ else _) = _
  split
  · rfl
  · simp only [Option.getD_some, hwrite]
    rfl

theorem update_invalid (hvalid : validateClient client ≠ 0) :
    regUpdateByte client reg mask value = .ret (validateClient client) := by
  have hread : regReadByte client reg (some 0) = .ret (validateClient client, some 0) := by
    simp only [regReadByte, if_pos hvalid]
    rfl
  rw [regUpdateByte, hread]
  show (if validateClient client ≠ 0 then _ else _) = _
  rw [if_pos hvalid]
  rfl

end Update

/-! ### Where the callers are -/

/-- A caller before its read, with the byte that it has read, or returned. -/
inductive Point where
  | reading
  | writing (old : Byte)
  | returned

/-- What is left of a caller. -/
def Point.program (client : Option I2cClient) (reg mask value : Byte) : Point → RegProgram Int
  | .reading => regUpdateByte client reg mask value
  | .writing old => .call (.write (addrOf client) reg (masked mask value old)) .ret
  | .returned => .ret 0

/-- The value of the register, and where each caller is. -/
structure Updates (ι : Type) where
  register : Byte
  point : ι → Point

section Callers

variable {ι : Type} {mask value : ι → Byte} {orig : Byte} {fresh : Prop}
  {u u' : Updates ι} {i : ι} {old v : Byte}

/-- `m` holds no bit of a caller that has returned. -/
def Updates.Avoids (mask : ι → Byte) (u : Updates ι) (m : Byte) : Prop :=
  ∀ i, u.point i = .returned → mask i &&& m = 0

/-- `v` lacks what a caller that has returned was to change. -/
def Updates.Lost (mask value : ι → Byte) (orig : Byte) (u : Updates ι) (v : Byte) : Prop :=
  ∃ i, u.point i = .returned ∧ value i &&& mask i ≠ orig &&& mask i ∧
    v &&& mask i = orig &&& mask i

/-- What holds between the transactions, where `fresh` says that so far every write was of a byte
that, outside the mask of its caller, the register still held. -/
structure Updates.Sound (mask value : ι → Byte) (orig : Byte) (fresh : Prop) (u : Updates ι) :
    Prop where
  untouched : ∀ m, u.Avoids mask m → u.register &&& m = orig &&& m
  read : ∀ i old, u.point i = .writing old → value i &&& mask i ≠ orig &&& mask i ∧
    (∀ m, u.Avoids mask m → old &&& m = orig &&& m) ∧
    (old = u.register ∨ u.Lost mask value orig old)
  kept : fresh → ∀ i, u.point i = .returned → u.register &&& mask i = value i &&& mask i
  lost : ¬ fresh → u.Lost mask value orig u.register ∧
    ∀ i old, u.point i = .writing old → u.Lost mask value orig old

theorem Updates.Avoids.of_le (hle : ∀ i, u.point i = .returned → u'.point i = .returned)
    {m : Byte} (h : u'.Avoids mask m) : u.Avoids mask m := fun i hi => h i (hle i hi)

theorem Updates.Lost.of_le (hle : ∀ i, u.point i = .returned → u'.point i = .returned)
    (h : u.Lost mask value orig v) : u'.Lost mask value orig v := by
  obtain ⟨i, hi, hchanges, hlost⟩ := h
  exact ⟨i, hle i hi, hchanges, hlost⟩

theorem Updates.avoids_own (hdisjoint : ∀ i j, i ≠ j → mask i &&& mask j = 0)
    (hpoint : u.point i ≠ .returned) : u.Avoids mask (mask i) := by
  intro j hj
  have hne : j ≠ i := fun h => hpoint (h ▸ hj)
  exact hdisjoint j i hne

/-- A write of a byte that, outside the mask of its caller, the register holds. -/
def Fresh (mask : ι → Byte) (e : Taken Op Targets ι) : Prop :=
  match e.op with
  | .writeRead _ _ => True
  | .write addr reg v => v &&& ~~~mask e.thread = e.state addr reg &&& ~~~mask e.thread

theorem fresh_read {log : List (Taken Op Targets ι)} {s : Targets} {addr : BitVec 16} {reg : Byte} :
    (∀ e ∈ log ++ [⟨s, i, .writeRead addr reg⟩], Fresh mask e) ↔ ∀ e ∈ log, Fresh mask e := by
  simp only [List.mem_append, List.mem_singleton, or_imp, forall_and, forall_eq]
  exact and_iff_left trivial

theorem fresh_write {log : List (Taken Op Targets ι)} {s : Targets} {addr : BitVec 16}
    {reg : Byte} : (∀ e ∈ log ++ [⟨s, i, .write addr reg v⟩], Fresh mask e) ↔
      (∀ e ∈ log, Fresh mask e) ∧ v &&& ~~~mask i = s addr reg &&& ~~~mask i := by
  simp only [List.mem_append, List.mem_singleton, or_imp, forall_and, forall_eq]
  rfl

variable [DecidableEq ι]

theorem returned_of_update (hpoint : u.point i ≠ .returned) (p : Point) (j : ι)
    (hj : u.point j = .returned) : Function.update u.point i p j = .returned := by
  have hne : j ≠ i := fun h => hpoint (h ▸ hj)
  rw [Function.update_of_ne hne, hj]

theorem point_of_update {p q : Point} {j : ι} (hj : Function.update u.point i p j = q) :
    p = q ∧ j = i ∨ j ≠ i ∧ u.point j = q := by
  rcases eq_or_ne j i with rfl | hne
  · rw [Function.update_self] at hj
    exact .inl ⟨hj, rfl⟩
  · rw [Function.update_of_ne hne] at hj
    exact .inr ⟨hne, hj⟩

/-- A caller whose bits are as they should be returns. -/
theorem Updates.Sound.skip (h : u.Sound mask value orig fresh) (hpoint : u.point i = .reading)
    (hsame : masked (mask i) (value i) u.register = u.register) :
    Sound mask value orig fresh ⟨u.register, Function.update u.point i .returned⟩ := by
  have hle := returned_of_update (u := u) (i := i) (by rw [hpoint]; nofun) .returned
  have hread : ∀ j old, Function.update u.point i .returned j = .writing old →
      u.point j = .writing old := by
    intro j old hj
    rcases point_of_update hj with ⟨hp, _⟩ | ⟨_, hj⟩
    · cases hp
    · exact hj
  refine ⟨fun m hm => h.untouched m (hm.of_le hle), fun j old hj => ?_, fun hfresh j hj => ?_,
    fun hstale => ?_⟩
  · obtain ⟨hchanges, huntouched, hlost⟩ := h.read j old (hread j old hj)
    exact ⟨hchanges, fun m hm => huntouched m (hm.of_le hle), hlost.imp_right (.of_le hle)⟩
  · rcases point_of_update hj with ⟨_, rfl⟩ | ⟨_, hj⟩
    · exact hsame ▸ masked_inside _ _ _
    · exact h.kept hfresh j hj
  · obtain ⟨hregister, hlost⟩ := h.lost hstale
    exact ⟨hregister.of_le hle, fun j old hj => (hlost j old (hread j old hj)).of_le hle⟩

/-- A caller reads bits that are not as they should be. -/
theorem Updates.Sound.of_read (hdisjoint : ∀ i j, i ≠ j → mask i &&& mask j = 0)
    (h : u.Sound mask value orig fresh) (hpoint : u.point i = .reading)
    (hchanges : masked (mask i) (value i) u.register ≠ u.register) :
    Sound mask value orig fresh ⟨u.register, Function.update u.point i (.writing u.register)⟩ := by
  have hnot : u.point i ≠ .returned := by rw [hpoint]; nofun
  have hle := returned_of_update hnot (.writing u.register)
  refine ⟨fun m hm => h.untouched m (hm.of_le hle), fun j old hj => ?_, fun hfresh j hj => ?_,
    fun hstale => ?_⟩
  · rcases point_of_update hj with ⟨hp, rfl⟩ | ⟨_, hj⟩
    · cases hp
      refine ⟨fun hsame => hchanges (masked_eq ?_), fun m hm => h.untouched m (hm.of_le hle),
        .inl rfl⟩
      rw [hsame, h.untouched _ (avoids_own hdisjoint hnot)]
    · obtain ⟨hchanges, huntouched, hlost⟩ := h.read j old hj
      exact ⟨hchanges, fun m hm => huntouched m (hm.of_le hle), hlost.imp_right (.of_le hle)⟩
  · rcases point_of_update hj with ⟨hp, _⟩ | ⟨_, hj⟩
    · cases hp
    · exact h.kept hfresh j hj
  · obtain ⟨hregister, hlost⟩ := h.lost hstale
    refine ⟨hregister.of_le hle, fun j old hj => ?_⟩
    rcases point_of_update hj with ⟨hp, _⟩ | ⟨_, hj⟩
    · cases hp
      exact hregister.of_le hle
    · exact (hlost j old hj).of_le hle

/-- A caller writes.  What the others have read lacks its update from then on, and if the register
has changed since its read then what it writes lacks the update of one that wrote. -/
theorem Updates.Sound.write (hdisjoint : ∀ i j, i ≠ j → mask i &&& mask j = 0)
    (h : u.Sound mask value orig fresh) (hpoint : u.point i = .writing old) :
    Sound mask value orig (fresh ∧ old &&& ~~~mask i = u.register &&& ~~~mask i)
      ⟨masked (mask i) (value i) old, Function.update u.point i .returned⟩ := by
  have hnot : u.point i ≠ .returned := by rw [hpoint]; nofun
  have hle := returned_of_update hnot .returned
  obtain ⟨hchanges, huntouched, hread⟩ := h.read i old hpoint
  have houtside : ∀ m, mask i &&& m = 0 → masked (mask i) (value i) old &&& m = old &&& m :=
    fun m hm => and_disjoint (masked_outside _ _ _) hm
  have hlack : ∀ v, (∀ m, u.Avoids mask m → v &&& m = orig &&& m) →
      Lost mask value orig ⟨masked (mask i) (value i) old, Function.update u.point i .returned⟩ v :=
    fun v hv => ⟨i, Function.update_self .., hchanges, hv _ (avoids_own hdisjoint hnot)⟩
  have hloses : u.Lost mask value orig old → Lost mask value orig
      ⟨masked (mask i) (value i) old, Function.update u.point i .returned⟩
      (masked (mask i) (value i) old) := by
    rintro ⟨k, hk, hchanged, hlost⟩
    have hne : i ≠ k := fun he => hnot (he ▸ hk)
    exact ⟨k, hle k hk, hchanged, by rw [houtside _ (hdisjoint i k hne), hlost]⟩
  refine ⟨fun m hm => ?_, fun j w hj => ?_, fun ⟨hfresh, hsame⟩ j hj => ?_, fun hstale => ?_⟩
  · rw [houtside m (hm i (Function.update_self ..)), huntouched m (hm.of_le hle)]
  · rcases point_of_update hj with ⟨hp, _⟩ | ⟨_, hj⟩
    · cases hp
    · obtain ⟨hchangesj, huntouchedj, _⟩ := h.read j w hj
      exact ⟨hchangesj, fun m hm => huntouchedj m (hm.of_le hle), .inr (hlack w huntouchedj)⟩
  · rcases point_of_update hj with ⟨_, rfl⟩ | ⟨hne, hj⟩
    · exact masked_inside _ _ _
    · have hjm := hdisjoint i j (Ne.symm hne)
      rw [houtside _ hjm, and_disjoint hsame hjm, h.kept hfresh j hj]
  · have hold : u.Lost mask value orig old := by
      by_cases hfresh : fresh
      · refine hread.resolve_left fun hsame => hstale ⟨hfresh, ?_⟩
        rw [hsame]
      · exact (h.lost hfresh).2 i old hpoint
    refine ⟨hloses hold, fun j w hj => ?_⟩
    rcases point_of_update hj with ⟨hp, _⟩ | ⟨_, hj⟩
    · cases hp
    · exact hlack w (h.read j w hj).2.1

/-! ### Transactions -/

variable {client : Option I2cClient} {reg : Byte}

/-- The callers are where `u` says, and what `u` says about them holds. -/
def Tracked (client : Option I2cClient) (reg : Byte) (mask value : ι → Byte) (orig : Byte)
    (log : List (Taken Op Targets ι)) (t : Threads Op Ans Int Targets ι) : Prop :=
  ∃ u : Updates ι, t.state (addrOf client) reg = u.register ∧
    (∀ i, t.left i = (u.point i).program client reg (mask i) (value i)) ∧
    u.Sound mask value orig (∀ e ∈ log, Fresh mask e)

theorem left_update {left : ι → RegProgram Int} {p : RegProgram Int} {q : Point}
    (hleft : ∀ i, left i = (u.point i).program client reg (mask i) (value i))
    (hp : p = q.program client reg (mask i) (value i)) (j : ι) :
    Function.update left i p j =
      (Function.update u.point i q j).program client reg (mask j) (value j) := by
  rcases eq_or_ne j i with rfl | hne
  · rw [Function.update_self, Function.update_self, hp]
  · rw [Function.update_of_ne hne, Function.update_of_ne hne, hleft]

theorem tracked_turn (hvalid : validateClient client = 0)
    (hdisjoint : ∀ i j, i ≠ j → mask i &&& mask j = 0) (log : List (Taken Op Targets ι))
    (t : Threads Op Ans Int Targets ι) (i : ι) (o : Op) (t' : Threads Op Ans Int Targets ι)
    (h : Tracked client reg mask value orig log t) (hturn : Turn transact t i o t') :
    Tracked client reg mask value orig (log ++ [⟨t.state, i, o⟩]) t' := by
  obtain ⟨u, hregister, hleft, hsound⟩ := h
  cases hturn with
  | mk hcall =>
    rw [hleft i] at hcall
    cases hpoint : u.point i with
    | reading =>
      rw [hpoint, Point.program, update_valid hvalid] at hcall
      cases hcall
      by_cases hsame : masked (mask i) (value i) u.register = u.register
      · refine ⟨⟨u.register, Function.update u.point i .returned⟩, hregister,
          left_update hleft ?_, ?_⟩
        · simp only [transact, hregister, hsame]
          rfl
        · rw [fresh_read]
          exact hsound.skip hpoint hsame
      · refine ⟨⟨u.register, Function.update u.point i (.writing u.register)⟩, hregister,
          left_update hleft ?_, ?_⟩
        · simp only [transact, hregister, if_neg hsame]
          rw [hregister]
          rfl
        · rw [fresh_read]
          exact hsound.of_read hdisjoint hpoint hsame
    | writing old =>
      rw [hpoint, Point.program] at hcall
      cases hcall
      refine ⟨⟨masked (mask i) (value i) old, Function.update u.point i .returned⟩, ?_,
        left_update hleft rfl, ?_⟩
      · simp only [transact, Function.update_self]
      · rw [fresh_write, masked_outside, hregister]
        exact hsound.write hdisjoint hpoint
    | returned =>
      rw [hpoint] at hcall
      cases hcall

theorem returned_of_ret {p : Point} {m v : Byte} (hvalid : validateClient client = 0) {rc : Int}
    (h : p.program client reg m v = .ret rc) : p = .returned := by
  cases p with
  | reading =>
    rw [Point.program, update_valid hvalid] at h
    cases h
  | writing old => cases h
  | returned => rfl

theorem no_turns_of_invalid (hvalid : validateClient client ≠ 0) {s : Targets}
    {t : Threads Op Ans Int Targets ι} {log : List (Taken Op Targets ι)}
    (hturns : Turns transact ⟨s, fun i => regUpdateByte client reg (mask i) (value i)⟩ log t) :
    log = [] ∧ t = ⟨s, fun _ => .ret (validateClient client)⟩ := by
  refine hturns.keeps (I := fun log t => log = [] ∧ t = ⟨s, fun _ => .ret _⟩) ?_ ?_
  · simp only [update_invalid hvalid, and_self]
  · rintro log t i o t' ⟨rfl, rfl⟩ hturn
    cases hturn with
    | mk hcall => cases hcall

/-- When every caller of `reg_update_byte` has returned 0, the register has the value of each
under its mask and is otherwise as it was, exactly if every byte that was written was, outside the
mask of its caller, what the register still held. -/
theorem masked_updates (hdisjoint : ∀ i j, i ≠ j → mask i &&& mask j = 0) {s : Targets}
    {t : Threads Op Ans Int Targets ι} {log : List (Taken Op Targets ι)}
    (hturns : Turns transact ⟨s, fun i => regUpdateByte client reg (mask i) (value i)⟩ log t)
    (hret : ∀ i, t.left i = .ret 0) :
    ((∀ i, t.state (addrOf client) reg &&& mask i = value i &&& mask i) ∧
      ∀ m, (∀ i, mask i &&& m = 0) →
        t.state (addrOf client) reg &&& m = s (addrOf client) reg &&& m) ↔
    ∀ e ∈ log, Fresh mask e := by
  by_cases hvalid : validateClient client = 0
  · have hstart : Tracked client reg mask value (s (addrOf client) reg) []
        ⟨s, fun i => regUpdateByte client reg (mask i) (value i)⟩ := by
      refine ⟨⟨s (addrOf client) reg, fun _ => .reading⟩, rfl, fun _ => rfl, fun _ _ => rfl,
        nofun, nofun, fun hstale => absurd (fun e he => ?_) hstale⟩
      cases he
    obtain ⟨u, hregister, hleft, hsound⟩ :=
      hturns.keeps hstart fun log t => tracked_turn hvalid hdisjoint log t
    have hreturned : ∀ i, u.point i = .returned :=
      fun i => returned_of_ret hvalid ((hleft i).symm.trans (hret i))
    rw [hregister]
    constructor
    · rintro ⟨hkept, _⟩
      by_contra hstale
      obtain ⟨i, _, hchanges, hlost⟩ := (hsound.lost hstale).1
      exact hchanges ((hkept i).symm.trans hlost)
    · intro hfresh
      exact ⟨fun i => hsound.kept hfresh i (hreturned i),
        fun m hm => hsound.untouched m fun i _ => hm i⟩
  · obtain ⟨rfl, rfl⟩ := no_turns_of_invalid hvalid hturns
    have hnone : ∀ i : ι, False := by
      intro i
      have hrc : Program.ret (validateClient client) = .ret 0 := hret i
      exact hvalid (by injection hrc)
    exact ⟨fun _ => nofun, fun _ => ⟨fun i => (hnone i).elim, fun _ _ => rfl⟩⟩

end Callers

/-- Two callers that are to set the two low bits of a register. -/
def lowBit (i : Bool) : Byte := if i then 2 else 1

theorem masked_updates_in_turn : ∃ (t : Threads Op Ans Int Targets Bool)
    (log : List (Taken Op Targets Bool)), log.length = 4 ∧
    Turns transact ⟨fun _ _ => 0, fun i => regUpdateByte (some ⟨some ⟨true⟩, 0x1d⟩) 0
      (lowBit i) 0xff⟩ log t ∧
    (((∀ i, t.state 0x1d 0 &&& lowBit i = 0xff &&& lowBit i) ∧
      ∀ m, (∀ i, lowBit i &&& m = 0) → t.state 0x1d 0 &&& m = 0 &&& m) ↔
    ∀ e ∈ log, Fresh lowBit e) := by
  have hturns := Turns.tail (.tail (.tail (.tail (.refl ⟨fun _ _ => 0, fun i =>
    regUpdateByte (some ⟨some ⟨true⟩, 0x1d⟩) 0 (lowBit i) 0xff⟩)
    (Turn.mk (h := transact) (i := false) rfl)) (.mk (i := false) rfl)) (.mk (i := true) rfl))
    (.mk (i := true) rfl)
  refine ⟨_, _, rfl, hturns, masked_updates (by decide) hturns ?_⟩
  intro i
  cases i <;> rfl

/-- Both read before either writes, and the second write takes the first bit back. -/
theorem masked_updates_lost : ∃ (t : Threads Op Ans Int Targets Bool)
    (log : List (Taken Op Targets Bool)),
    Turns transact ⟨fun _ _ => 0, fun i => regUpdateByte (some ⟨some ⟨true⟩, 0x1d⟩) 0
      (lowBit i) 0xff⟩ log t ∧
    (∀ i j, i ≠ j → lowBit i &&& lowBit j = 0) ∧ (∀ i, t.left i = .ret 0) ∧
    t.state 0x1d 0 &&& lowBit false ≠ 0xff &&& lowBit false := by
  have hturns := Turns.tail (.tail (.tail (.tail (.refl ⟨fun _ _ => 0, fun i =>
    regUpdateByte (some ⟨some ⟨true⟩, 0x1d⟩) 0 (lowBit i) 0xff⟩)
    (Turn.mk (h := transact) (i := false) rfl)) (.mk (i := true) rfl)) (.mk (i := false) rfl))
    (.mk (i := true) rfl)
  refine ⟨_, _, hturns, by decide, ?_, by decide⟩
  intro i
  cases i <;> rfl

end CortexLabs.RegAccess
