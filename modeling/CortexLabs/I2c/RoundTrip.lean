import CortexLabs.I2c.Bits

/-! The wire format round trip.  With a target that answers, a transfer succeeds, the decoder hears
its messages, each with the address and the bytes that the master or the target supplies, and the
buffers of the reads hold what the target has sent. -/

namespace CortexLabs.I2c

open Device

/-! ### What a list of messages asks for -/

section Meaning

variable (supply : Nat → Byte) (targetAddr : Byte)

/-- Seven bits of address, and whether the message is a read. -/
def addressByte (read : Bool) : Byte := targetAddr.setWidth 7 ++ BitVec.ofBool read

/-- Byte `k` of a message and whether it is acknowledged, when the target has sent `served` bytes
before the message and the memory of the master is `mem`. -/
def wireByte (served : Nat) (mem : Memory) (message : Mps2I2cMsg) (k : Nat) : Byte × Bool :=
  if isRead message then (supply (served + k), k + 1 < message.len)
  else (mem (message.buf.getD 0 + k), true)

def memoryAfter (served : Nat) (mem : Memory) (message : Mps2I2cMsg) (n : Nat) : Memory := fun a =>
  if isRead message ∧ message.buf.getD 0 ≤ a ∧ a < message.buf.getD 0 + n then
    supply (served + (a - message.buf.getD 0))
  else mem a

def servedAfter (served : Nat) (message : Mps2I2cMsg) : Nat :=
  if isRead message then served + message.len else served

/-- A message on the wire; `kept` when the one before it has not asked for a stop. -/
def wireMessage (kept : Bool) (served : Nat) (mem : Memory) (message : Mps2I2cMsg) : WireMessage where
  opening := if kept then .repeatedStart else .start
  bytes := (addressByte targetAddr (isRead message), true) ::
    (List.range message.len).map (wireByte supply served mem message)
  bits := []
  stop := hasStop message

/-- The messages of a list on the wire, and the memory after them. -/
def exchange : Bool → Nat → Memory → List Mps2I2cMsg → List WireMessage × Memory
  | _, _, mem, [] => ([], mem)
  | kept, served, mem, message :: messages =>
    let (rest, last) := exchange (!hasStop message) (servedAfter served message)
      (memoryAfter supply served mem message message.len) messages
    (wireMessage supply targetAddr kept served mem message :: rest, last)

end Meaning

variable {pins : Pins} {supply : Nat → Byte} {bus : Mps2I2cBus} {w : Wire} {f : Framer}
  {mem : Memory} {targetAddr : Byte} {message : Mps2I2cMsg} {served : Nat}

theorem addressByte_eq (targetAddr : Byte) (read : Bool) :
    (targetAddr <<< 1 ||| if read then 1 else 0) = addressByte targetAddr read := by
  revert targetAddr read
  decide +kernel

theorem addressByte_read (targetAddr : Byte) (read : Bool) :
    (addressByte targetAddr read).getLsbD 0 = read := by
  revert targetAddr read
  decide +kernel

theorem memoryAfter_zero : memoryAfter supply served mem message 0 = mem := by
  funext a
  rw [memoryAfter, if_neg (by omega)]

theorem memoryAfter_succ (hread : isRead message = true) (n : Nat) :
    memoryAfter supply served mem message (n + 1) =
      Function.update (memoryAfter supply served mem message n) (message.buf.getD 0 + n)
        (supply (served + n)) := by
  funext a
  by_cases ha : a = message.buf.getD 0 + n
  · subst ha
    rw [Function.update_self, memoryAfter, if_pos ⟨hread, by omega, by omega⟩]
    congr 2
    omega
  · rw [Function.update_of_ne ha]
    unfold memoryAfter
    refine if_congr (and_congr_right fun _ => and_congr_right fun _ => ?_) rfl rfl
    omega

theorem memoryAfter_write (hwrite : ¬ isRead message = true) (n : Nat) :
    memoryAfter supply served mem message n = mem := by
  funext a
  rw [memoryAfter, if_neg (fun h => hwrite h.1)]

/-! ### Messages -/

section Messages

variable (hpos : 0 < bus.timeoutCycles.toNat)
include hpos

/-- A message whose address and first `n` bytes have been heard. -/
def heardMessage (supply : Nat → Byte) (targetAddr : Byte) (opening : Opening) (served : Nat)
    (mem : Memory) (message : Mps2I2cMsg) (n : Nat) : WireMessage where
  opening := opening
  bytes := (addressByte targetAddr (isRead message), true) ::
    (List.range n).map (wireByte supply served mem message)
  bits := []
  stop := false

omit hpos in
theorem heardMessage_reads {opening : Opening} {n : Nat} :
    (heardMessage supply targetAddr opening served mem message n).reads = isRead message :=
  addressByte_read targetAddr (isRead message)

omit hpos in
theorem heardMessage_snoc {opening : Opening} {n : Nat} {byte : Byte × Bool}
    (hbyte : wireByte supply served mem message n = byte) :
    { heardMessage supply targetAddr opening served mem message n with
      bytes := (heardMessage supply targetAddr opening served mem message n).bytes ++ [byte] } =
    heardMessage supply targetAddr opening served mem message (n + 1) := by
  subst hbyte
  unfold heardMessage
  rw [List.range_succ, List.map_append]
  rfl

omit hpos in
/-- The bytes of a read are acknowledged until the last. -/
theorem heardMessage_acked {opening : Opening} {n : Nat} (hread : isRead message = true)
    (hn : n < message.len) :
    (heardMessage supply targetAddr opening served mem message n).data.any (fun byte => !byte.2) =
      false := by
  show ((List.range n).map (wireByte supply served mem message)).any (fun byte => !byte.2) = false
  rw [List.any_map, List.any_eq_false]
  intro k hk
  have hlt := List.mem_range.mp hk
  simp only [Function.comp_apply, wireByte, hread, if_true]
  simp only [Bool.not_eq_true', decide_eq_false_iff_not, not_not]
  omega

omit hpos in
theorem heardMessage_served {done : List WireMessage} {opening : Opening} {n : Nat}
    (hserved : Framer.served ⟨done, none⟩ = served) (hread : isRead message = true) :
    Framer.served ⟨done, some (heardMessage supply targetAddr opening served mem message n)⟩ =
      served + n := by
  rw [served_current, if_pos (by rw [heardMessage_reads, hread]), hserved]
  show served + ((List.range n).map (wireByte supply served mem message)).length = served + n
  rw [List.length_map, List.length_range]

theorem transferByte_low {done : List WireMessage} {opening : Opening} {n : Nat}
    (h : Low ⟨done, some (heardMessage supply targetAddr opening served mem message n)⟩
      (memoryAfter supply served mem message n) w)
    (hserved : Framer.served ⟨done, none⟩ = served) (hbuf : message.buf.isSome)
    (hn : n < message.len) :
    wp (i2cBus pins supply bus.timeoutCycles.toNat)
      (fun r w' => r.1 = mps2I2cOk ∧
        Low ⟨done, some (heardMessage supply targetAddr opening served mem message (n + 1))⟩
          (memoryAfter supply served mem message (n + 1)) w')
      (transferByte pins bus message () n) w := by
  obtain ⟨start, hstart⟩ := Option.isSome_iff_exists.mp hbuf
  unfold transferByte
  cases hread : isRead message
  · have hlistens : ¬ (heardMessage supply targetAddr opening served mem message n).reads = true := by
      rw [heardMessage_reads, hread]
      decide
    rw [memoryAfter_write (by rw [hread]; decide)] at h ⊢
    rw [if_neg Bool.false_ne_true]
    refine wp_seq (wp_seq (load_low h _) ?_) (Q := fun result w' => result = mps2I2cOk ∧
      Low ⟨done, some (heardMessage supply targetAddr opening served mem message (n + 1))⟩ mem w') ?_
    · rintro _ w1 ⟨rfl, hlow⟩
      refine wp_mono (writeByte_low hpos hlow rfl hlistens _) ?_
      rintro result w2 ⟨hok, hlow2⟩
      rw [heardMessage_snoc (by rw [wireByte, if_neg (by rw [hread]; decide)])] at hlow2
      exact ⟨hok, hlow2⟩
    · rintro _ w1 ⟨rfl, hlow⟩
      exact ⟨rfl, hlow⟩
  · have hreads : (heardMessage supply targetAddr opening served mem message n).reads = true := by
      rw [heardMessage_reads, hread]
    have hvalue : supply (Framer.served
        ⟨done, some (heardMessage supply targetAddr opening served mem message n)⟩) =
        supply (served + n) := congrArg supply (heardMessage_served hserved hread)
    rw [if_pos rfl, hstart, Option.map_some]
    refine wp_seq (readByte_low hpos h rfl hreads (heardMessage_acked hread hn) hvalue _ _) ?_
    rintro _ w1 ⟨rfl, hlow⟩
    rw [heardMessage_snoc (by rw [wireByte, if_pos hread])] at hlow
    rw [memoryAfter_succ hread, hstart]
    exact ⟨rfl, hlow⟩

theorem transferBytes_low {done : List WireMessage} {opening : Opening}
    (h : Low ⟨done, some (heardMessage supply targetAddr opening served mem message 0)⟩ mem w)
    (hserved : Framer.served ⟨done, none⟩ = served) (hbuf : message.buf.isSome) :
    wp (i2cBus pins supply bus.timeoutCycles.toNat)
      (fun r w' => r.1 = mps2I2cOk ∧
        Low ⟨done, some (heardMessage supply targetAddr opening served mem message message.len)⟩
          (memoryAfter supply served mem message message.len) w')
      (forEachM (transferByte pins bus message) () (List.range message.len)) w := by
  refine wp_forEachM_range (I := fun n _ w' =>
    Low ⟨done, some (heardMessage supply targetAddr opening served mem message n)⟩
      (memoryAfter supply served mem message n) w') ?_ ?_ ?_
  · rw [memoryAfter_zero]
    exact h
  · rintro n hlt ⟨⟩ w1 hlow
    refine wp_mono (transferByte_low hpos hlow hserved hbuf hlt) ?_
    rintro ⟨_, ⟨⟩⟩ w2 ⟨rfl, hlow2⟩
    exact ⟨fun h => absurd rfl h, fun _ => hlow2⟩
  · rintro ⟨⟩ w1 hlow
    exact ⟨rfl, hlow⟩

theorem sendAddress_low (message : Mps2I2cMsg) (served : Nat) {done : List WireMessage}
    {opening : Opening} (h : Low ⟨done, some (.opened opening)⟩ mem w) :
    wp (i2cBus pins supply bus.timeoutCycles.toNat)
      (fun result w' => result = mps2I2cOk ∧
        Low ⟨done, some (heardMessage supply targetAddr opening served mem message 0)⟩ mem w')
      (sendAddress pins bus targetAddr (isRead message)) w := by
  unfold sendAddress
  rw [addressByte_eq]
  exact writeByte_low hpos h rfl Bool.false_ne_true _

omit hpos in
/-- After a message the target leaves SDA alone. -/
theorem heardMessage_answer {done : List WireMessage} {opening : Opening} (hlen : message.len ≠ 0) :
    Framer.answer supply
      ⟨done, some (heardMessage supply targetAddr opening served mem message message.len)⟩ =
      true := by
  unfold Framer.answer
  dsimp only
  cases hread : isRead message
  · rw [if_neg (by rw [heardMessage_reads, hread]; decide)]
    rfl
  · rw [if_pos (by rw [heardMessage_reads, hread]), if_pos ?_]
    refine List.any_eq_true.mpr ⟨wireByte supply served mem message (message.len - 1), ?_, ?_⟩
    · exact List.mem_map_of_mem (List.mem_range.mpr (by omega))
    · rw [wireByte, if_pos hread]
      simp only [Bool.not_eq_true', decide_eq_false_iff_not]
      omega

omit hpos in
/-- What the target has sent when a message has been heard as a whole. -/
theorem served_heard {f' : Framer} {m : WireMessage} (hserved : f.served = served)
    (hmessages : f'.messages = f.messages ++ [m])
    (hbytes : m.bytes =
      (heardMessage supply targetAddr .none served mem message message.len).bytes) :
    f'.served = servedAfter served message := by
  have hreads : m.reads = isRead message := by
    unfold WireMessage.reads
    rw [hbytes]
    exact addressByte_read targetAddr (isRead message)
  have hdata : m.data.length = message.len := by
    unfold WireMessage.data
    rw [hbytes]
    simp [heardMessage]
  rw [served_snoc hmessages, hserved, hreads, hdata, servedAfter]
  split
  · rfl
  · rfl

/-- A message is heard, and the bus is kept or free after it. -/
theorem transferMessage_ready (h : Ready supply f mem w) (hserved : f.served = served)
    (hbuf : message.buf.isSome) (hlen : message.len ≠ 0) (targetAddr : Byte) (active : Bool) :
    wp (i2cBus pins supply bus.timeoutCycles.toNat)
      (fun r w' => r.1 = mps2I2cOk ∧ ∃ f',
        Ready supply f' (memoryAfter supply served mem message message.len) w' ∧
        f'.messages =
          f.messages ++ [wireMessage supply targetAddr f.current.isSome served mem message] ∧
        f'.current.isSome = !hasStop message ∧ f'.served = servedAfter served message)
      (transferMessage pins bus targetAddr active message) w := by
  have hstart : wp (i2cBus pins supply bus.timeoutCycles.toNat)
      (fun result w' => result = mps2I2cOk ∧ Low (f.next .start) mem w')
      (if active then generateRestart pins bus else generateStart pins bus) w := by
    split
    · exact generateStart_ready hpos h
    · exact generateStart_ready hpos h
  have hdone : Framer.served ⟨f.messages, none⟩ = served := by
    rw [← hserved]
    unfold Framer.served Framer.messages
    rw [Option.toList_none, List.append_nil]
  refine wp_seq_ok hstart ?_
  intro w1 hlow1
  refine wp_seq_ok (sendAddress_low hpos message served hlow1) ?_
  intro w2 hlow2
  refine wp_seq (transferBytes_low hpos hlow2 hdone hbuf) ?_
  rintro ⟨_, ⟨⟩⟩ w3 ⟨rfl, hlow3⟩
  dsimp only
  rw [if_neg (not_not.mpr rfl)]
  cases hstop : hasStop message
  · rw [if_neg Bool.false_ne_true]
    refine ⟨rfl, _, .inl ⟨hlow3, heardMessage_answer hlen⟩, ?_, rfl, served_heard hserved rfl rfl⟩
    rw [wireMessage, hstop]
    rfl
  · rw [if_pos rfl]
    refine wp_seq (generateStop_low hpos hlow3 (heardMessage_answer hlen)) ?_
    rintro _ w4 ⟨rfl, hhigh, hsda⟩
    have hmessages := List.append_nil
      (f.messages ++ [wireMessage supply targetAddr f.current.isSome served mem message])
    rw [wireMessage, hstop] at hmessages ⊢
    exact ⟨rfl, _, .inr ⟨hhigh, hsda⟩, hmessages, rfl, served_heard hserved hmessages rfl⟩

/-- The messages of a list are heard one after the other. -/
theorem transferMessages_ready {messages : List Mps2I2cMsg}
    (hgood : ∀ message ∈ messages, message.buf.isSome ∧ message.len ≠ 0)
    (h : Ready supply f mem w) (hserved : f.served = served) (active : Bool) :
    wp (i2cBus pins supply bus.timeoutCycles.toNat)
      (fun r w' => r.1 = mps2I2cOk ∧ ∃ f',
        Ready supply f' (exchange supply targetAddr f.current.isSome served mem messages).2 w' ∧
        f'.messages = f.messages ++
          (exchange supply targetAddr f.current.isSome served mem messages).1)
      (forEachM (transferMessage pins bus targetAddr) active messages) w := by
  induction messages generalizing f mem served active w with
  | nil => exact ⟨rfl, f, h, (List.append_nil _).symm⟩
  | cons message messages ih =>
    obtain ⟨hbuf, hlen⟩ := hgood message List.mem_cons_self
    refine wp_forEachM_cons (wp_mono (transferMessage_ready hpos h hserved hbuf hlen targetAddr
      active) ?_)
    rintro ⟨_, active'⟩ w1 ⟨rfl, f1, hready, hmessages, hkept, hserved1⟩
    refine ⟨fun h => absurd rfl h, fun _ => ?_⟩
    refine wp_mono (ih (fun m hm => hgood m (List.mem_cons_of_mem _ hm)) hready hserved1 active') ?_
    rintro r w2 ⟨hok, f2, hready2, hmessages2⟩
    rw [hkept] at hready2 hmessages2
    refine ⟨hok, f2, hready2, ?_⟩
    rw [hmessages2, hmessages, List.append_assoc]
    rfl

end Messages

/-! ### Transfers -/

theorem checkMessages_ok {previous : Option Mps2I2cMsg} {messages : List Mps2I2cMsg}
    (h : checkMessages previous messages = mps2I2cOk) :
    ∀ message ∈ messages, message.buf.isSome ∧ message.len ≠ 0 := by
  induction messages generalizing previous with
  | nil => exact nofun
  | cons first messages ih =>
    unfold checkMessages at h
    dsimp only at h
    split at h
    · cases h
    · next hfirst =>
      split at h
      · cases h
      · intro message hmem
        rcases List.mem_cons.mp hmem with rfl | hmem
        · rw [not_or, not_or] at hfirst
          refine ⟨?_, hfirst.2.1⟩
          rw [← Option.not_isNone, Bool.not_eq_true']
          exact Bool.eq_false_iff.mpr hfirst.1
        · exact ih h message hmem

theorem exchange_conditions (messages : List Mps2I2cMsg) (kept : Bool) :
    (exchange supply targetAddr kept served mem messages).1.flatMap WireMessage.conditions =
      messages.flatMap fun message => false :: if hasStop message then [true] else [] := by
  induction messages generalizing kept served mem with
  | nil => rfl
  | cons message messages ih =>
    unfold exchange
    rw [List.flatMap_cons, List.flatMap_cons, ih]
    refine congrArg (· ++ _) ?_
    cases kept <;> rfl

/-- An address outside the buffers of the reads keeps its byte. -/
theorem exchange_other {messages : List Mps2I2cMsg} {a : Nat}
    (h : ∀ message ∈ messages, isRead message = true →
      ¬ (message.buf.getD 0 ≤ a ∧ a < message.buf.getD 0 + message.len)) (kept : Bool) :
    (exchange supply targetAddr kept served mem messages).2 a = mem a := by
  induction messages generalizing kept served mem with
  | nil => rfl
  | cons message messages ih =>
    unfold exchange
    refine (ih (fun m hm => h m (List.mem_cons_of_mem _ hm)) _).trans ?_
    rw [memoryAfter, if_neg (fun hin => h message List.mem_cons_self hin.1 hin.2)]

/-- The buffer of a read holds what the target has sent for it, unless a later read fills it. -/
theorem exchange_buffer {before after : List Mps2I2cMsg} {message : Mps2I2cMsg}
    (hread : isRead message = true) {k : Nat} (hk : k < message.len)
    (hafter : ∀ later ∈ after, isRead later = true →
      ¬ (later.buf.getD 0 ≤ message.buf.getD 0 + k ∧
        message.buf.getD 0 + k < later.buf.getD 0 + later.len)) (kept : Bool) :
    (exchange supply targetAddr kept served mem (before ++ message :: after)).2
      (message.buf.getD 0 + k) = supply (before.foldl servedAfter served + k) := by
  induction before generalizing kept served mem with
  | nil =>
    unfold exchange
    refine (exchange_other hafter _).trans ?_
    rw [memoryAfter, if_pos ⟨hread, by omega, by omega⟩, Nat.add_sub_cancel_left]
    rfl
  | cons first before ih => exact ih _

/-- A transfer whose messages pass the checks succeeds.  The decoder hears them in order, SDA moves
while SCL is high at their STARTs and STOPs and nowhere else, and the buffers of the reads hold the
bytes of the target. -/
theorem transfer_roundTrip (pins : Pins) (supply : Nat → Byte) {bus : Mps2I2cBus}
    (hbus : busValid (some bus) = some bus) {messages : List Mps2I2cMsg} (hsome : messages ≠ [])
    (hcheck : checkMessages none messages = mps2I2cOk) {targetAddr : Byte} (haddr : targetAddr < 0x7f)
    {mem : Memory} {t : List (Event (i2cBus pins supply bus.timeoutCycles.toNat))} {result : Int}
    {w : Wire}
    (h : Exec (i2cBus pins supply bus.timeoutCycles.toNat)
      (mps2I2cTransfer pins (some bus) (some messages) targetAddr) (Wire.idle mem) t
      (some result) w) :
    result = mps2I2cOk ∧
    decode w.trace = (exchange supply targetAddr false 0 mem messages).1 ∧
    conditions .released w.trace =
      messages.flatMap (fun message => false :: if hasStop message then [true] else []) ∧
    w.memory = (exchange supply targetAddr false 0 mem messages).2 ∧
    ∀ before message after, messages = before ++ message :: after → isRead message = true →
      ∀ k < message.len,
      (∀ later ∈ after, isRead later = true →
        ¬ (later.buf.getD 0 ≤ message.buf.getD 0 + k ∧
          message.buf.getD 0 + k < later.buf.getD 0 + later.len)) →
      w.memory (message.buf.getD 0 + k) = supply (before.foldl servedAfter 0 + k) := by
  have hpos : 0 < bus.timeoutCycles.toNat := timeout_pos hbus
  have hok : checkTransfer (some bus) (some messages) targetAddr = .ok (bus, messages) := by
    refine checkTransfer_ok.mpr ⟨hbus, rfl, hsome, ?_, hcheck⟩
    rintro rfl
    exact absurd haddr (by decide)
  have hready : Ready supply ⟨[], none⟩ mem (Wire.idle mem) :=
    .inr ⟨⟨rfl, rfl, rfl, rfl⟩, rfl⟩
  have hwp : wp (i2cBus pins supply bus.timeoutCycles.toNat)
      (fun result w' => result = mps2I2cOk ∧ ∃ f,
        Ready supply f (exchange supply targetAddr false 0 mem messages).2 w' ∧
        f.messages = (exchange supply targetAddr false 0 mem messages).1)
      (mps2I2cTransfer pins (some bus) (some messages) targetAddr) (Wire.idle mem) := by
    rw [mps2I2cTransfer, hok]
    exact wp_seq (transferMessages_ready hpos (checkMessages_ok hcheck) hready rfl false)
      fun r w' hr => hr
  obtain ⟨hresult, f, hend, hmessages⟩ := wp_sound hwp h
  have hheard : w.decoder.framer = f ∧
      w.memory = (exchange supply targetAddr false 0 mem messages).2 := by
    rcases hend with ⟨hlow, -⟩ | ⟨hhigh, -⟩
    · exact ⟨congrArg Decoder.framer hlow.heard, hlow.memory⟩
    · exact ⟨congrArg Decoder.framer hhigh.heard, hhigh.memory⟩
  have hdecode : decode w.trace = (exchange supply targetAddr false 0 mem messages).1 := by
    rw [← hmessages, ← hheard.1]
    rfl
  refine ⟨hresult, hdecode, ?_, hheard.2, ?_⟩
  · rw [conditions_decode, hdecode]
    exact exchange_conditions messages false
  · rintro before message after rfl hread k hk hafter
    rw [hheard.2]
    exact exchange_buffer hread hk hafter false

/-! ### A target that never holds SCL -/

theorem Pins.shows_sda (pins : Pins) (sda scl : Bool) :
    ((if sda then pins.sda else 0) ||| (if scl then pins.scl else 0)) &&& pins.sda =
      if sda then pins.sda else 0 := by
  have hcross : pins.scl &&& pins.sda = 0#32 := (BitVec.and_comm _ _).trans pins.disjoint
  cases sda <;> cases scl <;> simp [BitVec.and_or_distrib_right, hcross]

theorem Pins.shows_scl (pins : Pins) (sda scl : Bool) :
    ((if sda then pins.sda else 0) ||| (if scl then pins.scl else 0)) &&& pins.scl =
      if scl then pins.scl else 0 := by
  have hcross : pins.sda &&& pins.scl = 0#32 := pins.disjoint
  cases sda <;> cases scl <;> simp [BitVec.and_or_distrib_right, hcross]

/-- SDA as the target wants it while SCL is low. -/
def Wire.settle (supply : Nat → Byte) (w : Wire) : Wire :=
  if w.lines.scl then w else w.setTarget ⟨w.decoder.framer.answer supply, w.target.scl⟩

/-- A target that settles SDA before each operation. -/
def promptTarget (pins : Pins) (supply : Nat → Byte) (o : Op) (w : Wire) : Ans o × Wire :=
  let w := w.settle supply
  match o with
  | .control =>
    ((if w.lines.sda then pins.sda else 0) ||| (if w.lines.scl then pins.scl else 0), w)
  | .controls mask => ((), w.setMaster (w.master.write pins (.controls mask)))
  | .controlc mask => ((), w.setMaster (w.master.write pins (.controlc mask)))
  | .load address => (w.memory address, w)
  | .store address value => ((), { w with memory := Function.update w.memory address value })

/-- The target lets SCL go, and the decoder is up to date. -/
structure Prompt (w : Wire) : Prop where
  free : w.target.scl = true
  level : w.decoder.sampler.level = w.lines

theorem Prompt.setTarget (h : Prompt w) (hlow : w.lines.scl = false) (sda : Bool) :
    Prompt (w.setTarget ⟨sda, w.target.scl⟩) ∧
      (w.setTarget ⟨sda, w.target.scl⟩).decoder.framer = w.decoder.framer := by
  have hlow' : (w.setTarget ⟨sda, w.target.scl⟩).lines.scl = false := hlow
  have hnext : (w.setTarget ⟨sda, w.target.scl⟩).decoder =
      w.decoder.next (w.setTarget ⟨sda, w.target.scl⟩).lines :=
    Wire.decoder_shown { w with target := ⟨sda, w.target.scl⟩ }
  refine ⟨⟨h.free, ?_⟩, ?_⟩
  · rw [hnext, Decoder.level_next]
  · rw [hnext, Decoder.framer_low (by rw [h.level]; exact hlow) hlow']

theorem Prompt.setMaster (h : Prompt w) (out : Lines) : Prompt (w.setMaster out) := by
  refine ⟨h.free, ?_⟩
  rw [show (w.setMaster out).decoder = _ from Wire.decoder_shown _, Decoder.level_next]
  rfl

theorem Prompt.settle (h : Prompt w) (supply : Nat → Byte) :
    Prompt (w.settle supply) ∧
    Relation.ReflTransGen (TargetMove supply) w (w.settle supply) ∧
    ((w.settle supply).lines.scl = false →
      (w.settle supply).target.sda = (w.settle supply).decoder.framer.answer supply) := by
  unfold Wire.settle
  split
  · next hhigh => exact ⟨h, .refl, fun hlow => absurd (hhigh.symm.trans hlow) (by decide)⟩
  · next hlow =>
    rw [Bool.not_eq_true] at hlow
    obtain ⟨hprompt, hframer⟩ := h.setTarget hlow (w.decoder.framer.answer supply)
    refine ⟨hprompt, .single (.data _ hlow), fun _ => ?_⟩
    rw [hframer]
    rfl

/-- Every operation of a master with such a target is one of the bus. -/
theorem promptTarget_answers (supply : Nat → Byte) {timeout : Nat} (w : Wire) (o : Op) (h : Prompt w) :
    (i2cBus pins supply timeout).answer w o (promptTarget pins supply o w).1
      (promptTarget pins supply o w).2 ∧ Prompt (promptTarget pins supply o w).2 := by
  obtain ⟨hprompt, hmoves, hsettled⟩ := h.settle supply
  cases o with
  | control =>
    refine ⟨⟨_, hmoves, pins.shows_sda _ _, pins.shows_scl _ _, ?_⟩, hprompt⟩
    have hfree : ¬ ((w.settle supply).master.scl = true ∧
        ¬ (w.settle supply).lines.scl = true) := by
      rintro ⟨hmaster, hlow⟩
      apply hlow
      show ((w.settle supply).master.scl && (w.settle supply).target.scl) = true
      rw [hmaster, hprompt.free]
      rfl
    rw [if_neg hfree]
    rfl
  | controls mask =>
    exact ⟨⟨_, hmoves, rfl, fun hlow _ => hsettled hlow⟩, hprompt.setMaster _⟩
  | controlc mask => exact ⟨⟨_, hmoves, rfl⟩, hprompt.setMaster _⟩
  | load address => exact ⟨⟨_, hmoves, rfl, rfl⟩, hprompt⟩
  | store address value => exact ⟨⟨_, hmoves, rfl⟩, ⟨hprompt.free, hprompt.level⟩⟩

/-- With such a target a program comes to its end. -/
theorem promptTarget_ends {α : Type} (pins : Pins) (supply : Nat → Byte) (timeout : Nat)
    (p : I2cProgram α) (mem : Memory) :
    ∃ t a w, Exec (i2cBus pins supply timeout) p (Wire.idle mem) t (some a) w := by
  have hidle : Prompt (Wire.idle mem) := ⟨rfl, rfl⟩
  obtain ⟨t, ht⟩ := Exec.of_run (D := i2cBus pins supply timeout) (promptTarget_answers supply) p
    hidle
  exact ⟨t, _, _, ht⟩

/-- A write of one byte and a read of two, without a STOP between them. -/
def writeThenRead : List Mps2I2cMsg :=
  [⟨some 0x20, 1, 0⟩,
    ⟨some 0x30, 2, mps2I2cMsgRead ||| mps2I2cMsgStop ||| mps2I2cMsgRestart⟩]

theorem transfer_roundTrip_writeThenRead :
    ∃ t w, Exec (i2cBus lowPins (BitVec.ofNat 8) 3)
        (mps2I2cTransfer lowPins (some ⟨some 0, 1, 3⟩) (some writeThenRead) 0x50)
        (Wire.idle fun _ => 0x10) t (some mps2I2cOk) w ∧
      decode w.trace =
        [⟨.start, [(0xa0, true), (0x10, true)], [], false⟩,
          ⟨.repeatedStart, [(0xa1, true), (0x00, true), (0x01, false)], [], true⟩] ∧
      w.memory 0x31 = 0x01 := by
  obtain ⟨t, result, w, ht⟩ := promptTarget_ends lowPins (BitVec.ofNat 8) 3
    (mps2I2cTransfer lowPins (some ⟨some 0, 1, 3⟩) (some writeThenRead) 0x50) fun _ => 0x10
  have hbus : busValid (some ⟨some 0, 1, 3⟩) = some ⟨some 0, 1, 3⟩ := by decide
  obtain ⟨hresult, hdecode, -, -, hbuffers⟩ := transfer_roundTrip lowPins (BitVec.ofNat 8) hbus
    (by decide) (by decide) (by decide) ht
  rw [hresult] at ht
  refine ⟨t, w, ht, hdecode.trans (by decide), ?_⟩
  exact hbuffers [_] _ [] rfl (by decide) 1 (by decide) nofun

end CortexLabs.I2c
