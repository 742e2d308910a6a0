import CortexLabs.Device.Exchange
import CortexLabs.Ssp.Model

/-! Transfers through the SSP in loopback, in any sequence of calls.  A transfer that gives up on a
byte leaves it on its way, and `mps2_ssp_init` does not take it out, so that the transfers after it
receive it first. -/

namespace CortexLabs.Ssp

open Device Relation

variable {fields : SspFields} {s s' : Loopback}

/-- The bytes written and not yet read. -/
def Loopback.outstanding (s : Loopback) : List Byte := s.rxFifo ++ s.inFlight

theorem arrived (h : ReflTransGen Arrives s s') :
    s'.outstanding = s.outstanding ∧ s'.memory = s.memory := by
  induction h with
  | refl => exact ⟨rfl, rfl⟩
  | tail _ hstep ih =>
    cases hstep
    obtain ⟨hout, hmemory⟩ := ih
    refine ⟨Eq.trans ?_ hout, hmemory⟩
    simp [Loopback.outstanding]

theorem rxFifo_arrived (h : ReflTransGen Arrives s s') (hne : s.rxFifo ≠ []) : s'.rxFifo ≠ [] := by
  induction h with
  | refl => exact hne
  | tail _ hstep _ =>
    cases hstep
    exact List.append_ne_nil_of_right_ne_nil _ (List.cons_ne_nil _ _)

/-! ### Accesses -/

section Rules

/-- `s'` differs from `s` in nothing but the bytes that have come back. -/
def Same (s s' : Loopback) : Prop := s'.outstanding = s.outstanding ∧ s'.memory = s.memory

theorem Same.trans {s1 : Loopback} (h : Same s s1) (h' : Same s1 s') : Same s s' :=
  ⟨h'.1.trans h.1, h'.2.trans h.2⟩

theorem waitFlag_same (flag : Word) (timeout : Nat) (s : Loopback) :
    wp (loopbackSsp fields) (fun rc s' => Same s s' ∧
      (rc = 0 → flag = fields.srRneMsk → s'.rxFifo ≠ [])) (waitFlag flag timeout) s := by
  induction timeout generalizing s with
  | zero =>
    rintro value _ ⟨s1, harrived, hflag, rfl⟩
    show wp _ _ (if value &&& flag = 0 then _ else _) _
    split
    · exact ⟨arrived harrived, nofun⟩
    · next hset => exact ⟨arrived harrived, fun _ he => hflag.mp (he ▸ hset)⟩
  | succ timeout ih =>
    rintro value _ ⟨s1, harrived, hflag, rfl⟩
    show wp _ _ (if value &&& flag = 0 then _ else _) _
    split
    · refine wp_mono (ih _) ?_
      rintro rc s' ⟨hsame, hset⟩
      exact ⟨Same.trans (arrived harrived) hsame, hset⟩
    · next hset => exact ⟨arrived harrived, fun _ he => hflag.mp (he ▸ hset)⟩

theorem load_same (address : Nat) (s : Loopback) :
    wp (loopbackSsp fields) (fun b s' => b = s.memory address ∧ Same s s') (load address) s := by
  rintro b _ ⟨s1, harrived, hb, rfl⟩
  exact ⟨hb.trans (by rw [(arrived harrived).2]), arrived harrived⟩

theorem writeDr_outstanding (b : Byte) (s : Loopback) :
    wp (loopbackSsp fields) (fun _ s' => s'.outstanding = s.outstanding ++ [b] ∧
      s'.memory = s.memory) (writeReg .dr (b.setWidth 32)) s := by
  rintro _ _ ⟨s1, harrived, rfl⟩
  have hb : (b.setWidth 32).setWidth 8 = b := by simp
  refine ⟨?_, (arrived harrived).2⟩
  rw [← (arrived harrived).1, Loopback.outstanding, Loopback.outstanding, hb, List.append_assoc]

theorem setWidth_low (value : Word) : (value &&& 0xff).setWidth 8 = value.setWidth 8 := by
  apply BitVec.eq_of_toNat_eq
  rw [BitVec.toNat_setWidth, BitVec.toNat_setWidth, BitVec.toNat_and]
  show (value.toNat &&& 2 ^ 8 - 1) % 2 ^ 8 = _
  rw [Nat.and_two_pow_sub_one_eq_mod, Nat.mod_mod]

theorem readDr_outstanding (h : s.rxFifo ≠ []) :
    wp (loopbackSsp fields) (fun value s' => s.outstanding =
      (value &&& 0xff).setWidth 8 :: s'.outstanding ∧ s'.memory = s.memory) (readReg .dr) s := by
  rintro value s' ⟨s1, harrived, hanswer⟩
  obtain ⟨hout, hmemory⟩ := arrived harrived
  rcases hrx : s1.rxFifo with _ | ⟨b, rest⟩
  · exact absurd hrx (rxFifo_arrived harrived h)
  · simp only [LoopbackAnswer, hrx] at hanswer
    obtain ⟨hb, rfl⟩ := hanswer
    refine ⟨?_, hmemory⟩
    rw [← hout, Loopback.outstanding, hrx, setWidth_low, hb]
    rfl

theorem store_memory (address : Nat) (b : Byte) (s : Loopback) :
    wp (loopbackSsp fields) (fun _ s' => s'.outstanding = s.outstanding ∧
      s'.memory = Function.update s.memory address b) (store address b) s := by
  rintro _ _ ⟨s1, harrived, rfl⟩
  obtain ⟨hout, hmemory⟩ := arrived harrived
  exact ⟨hout, by rw [hmemory]⟩

end Rules

/-! ### A transfer -/

variable {ssp : Mps2Ssp} {tx rx length : Nat}

/-- What has been sent and received `k` bytes into a transfer: what came back is what was
outstanding before it and then what it has sent. -/
def Exchanging (tx rx : Nat) (s : Loopback) (k : Nat) (s' : Loopback) : Prop :=
  ∃ sent received, sent.length = k ∧
    Exchanged 0 (some tx) (some rx) s.memory sent received s'.memory ∧
    received ++ s'.outstanding = s.outstanding ++ sent

theorem Exchanging.length_eq {k : Nat} (h : Exchanging tx rx s k s') :
    s'.outstanding.length = s.outstanding.length := by
  obtain ⟨sent, received, _, hexchanged, hfifo⟩ := h
  have hlen := congrArg List.length hfifo
  rw [List.length_append, List.length_append, hexchanged.length_eq] at hlen
  omega

/-- How a transfer ends: done, or given up before a byte is written, or after. -/
def Ended (tx rx length : Nat) (s : Loopback) (rc : Int) (s' : Loopback) : Prop :=
  rc = mps2SspOk ∧ Exchanging tx rx s length s' ∨
  rc = mps2SspErrorTxTimeout ∧ s'.outstanding.length = s.outstanding.length ∨
  rc = mps2SspErrorRxTimeout ∧ s'.outstanding.length = s.outstanding.length + 1

theorem transferByte_exchanges {s0 : Loopback} {k : Nat} (h : Exchanging tx rx s0 k s) :
    wp (loopbackSsp fields) (fun r s' => (r.1 ≠ 0 → Ended tx rx length s0 r.1 s') ∧
      (r.1 = 0 → Exchanging tx rx s0 (k + 1) s')) (transferByte fields ssp tx rx () k) s := by
  have hlen := h.length_eq
  obtain ⟨sent, received, rfl, hexchanged, hfifo⟩ := h
  refine wp_seq (waitFlag_same ..) ?_
  rintro rc s1 ⟨⟨hout1, hmemory1⟩, _⟩
  split
  · exact ⟨fun _ => .inr (.inl ⟨rfl, by rw [hout1, hlen]⟩), nofun⟩
  refine wp_seq (load_same (tx + sent.length) s1) ?_
  rintro b s2 ⟨hb, hout2, hmemory2⟩
  refine wp_seq (writeDr_outstanding b s2) ?_
  rintro _ s3 ⟨hout3, hmemory3⟩
  refine wp_seq (waitFlag_same ..) ?_
  rintro rc s4 ⟨⟨hout4, hmemory4⟩, hset⟩
  have hout : s4.outstanding = s.outstanding ++ [b] := by rw [hout4, hout3, hout2, hout1]
  split
  · refine ⟨fun _ => .inr (.inr ⟨rfl, ?_⟩), nofun⟩
    rw [hout, List.length_append, hlen]
    rfl
  · next hrc =>
    refine wp_seq (readDr_outstanding (hset (not_not.mp hrc) rfl)) ?_
    rintro value s5 ⟨hout5, hmemory5⟩
    refine wp_seq (store_memory (rx + sent.length) _ s5) ?_
    rintro _ s6 ⟨hout6, hmemory6⟩
    refine ⟨fun hne => absurd rfl hne, fun _ => ?_⟩
    have hmemory : s5.memory = s.memory := by
      rw [hmemory5, hmemory4, hmemory3, hmemory2, hmemory1]
    have hsent : b = taken 0 (some tx) s.memory sent.length := by
      rw [hb, hmemory1]
      rfl
    refine ⟨sent ++ [b], received ++ [(value &&& 0xff).setWidth 8], ?_, ?_, ?_⟩
    · rw [List.length_append, List.length_singleton]
    · rw [hmemory6, hmemory, hsent]
      exact hexchanged.snoc _
    · calc received ++ [(value &&& 0xff).setWidth 8] ++ s6.outstanding
          = received ++ s4.outstanding := by rw [hout6, hout5, List.append_assoc]; rfl
        _ = s0.outstanding ++ (sent ++ [b]) := by
          rw [hout, ← List.append_assoc, hfifo, List.append_assoc]

theorem mps2SspTransfer_ends (s : Loopback) :
    wp (loopbackSsp fields) (Ended tx rx length s) (mps2SspTransfer fields ssp tx rx length) s := by
  have hstart : Exchanging tx rx s 0 s := ⟨[], [], rfl, .nil, (List.append_nil _).symm⟩
  refine wp_seq (wp_forEachM_range (Q := fun r => Ended tx rx length s r.1)
    (I := fun k (_ : Unit) => Exchanging tx rx s k) hstart ?_ ?_) ?_
  · exact fun k _ _ s' h => transferByte_exchanges h
  · exact fun _ s' h => .inl ⟨rfl, h⟩
  · rintro ⟨rc, _⟩ s' h
    exact h

/-! ### Calls -/

inductive Call where
  | init (ssp : Option Mps2Ssp) (cfg : Option Mps2SspConfig)
  | transfer (ssp : Mps2Ssp) (tx rx length : Nat)

def Call.program (fields : SspFields) : Call → SspProgram Int
  | .init ssp cfg => do
    let (rc, _) ← mps2SspInit fields ssp cfg
    return rc
  | .transfer ssp tx rx length => mps2SspTransfer fields ssp tx rx length

/-- From an SSP with nothing outstanding on, calls, what they returned, and the state that they
leave. -/
inductive Session (fields : SspFields) : List (Call × Int) → Loopback → Prop
  | start {s : Loopback} : s.outstanding = [] → Session fields [] s
  | call {log : List (Call × Int)} {s s' : Loopback} {c : Call} {rc : Int}
      {t : List (Event (loopbackSsp fields))} : Session fields log s →
      Exec (loopbackSsp fields) (c.program fields) s t (some rc) s' →
      Session fields (log ++ [(c, rc)]) s'

/-- A transfer gave up on a byte that it had written. -/
def gaveUp (e : Call × Int) : Bool :=
  match e with
  | (.transfer _ _ _ _, rc) => rc = mps2SspErrorRxTimeout
  | (.init _ _, _) => false

theorem writeReg_same {reg : Reg} (hreg : reg ≠ .dr) (value : Word) (s : Loopback) :
    wp (loopbackSsp fields) (fun _ s' => Same s s') (writeReg reg value) s := by
  rintro _ s' ⟨s1, harrived, hanswer⟩
  cases reg with
  | dr => exact absurd rfl hreg
  | cr0 | cr1 | sr | cpsr | imsc | dmacr =>
    obtain rfl : s' = s1 := hanswer
    exact arrived harrived

theorem readCr1_same (s : Loopback) :
    wp (loopbackSsp fields) (fun _ s' => Same s s') (readReg .cr1) s := by
  rintro _ s' ⟨s1, harrived, rfl⟩
  exact arrived harrived

/-- `mps2_ssp_init` takes nothing out of the SSP. -/
theorem mps2SspInit_same (ssp : Option Mps2Ssp) (cfg : Option Mps2SspConfig) (s : Loopback) :
    wp (loopbackSsp fields) (fun _ s' => Same s s') (mps2SspInit fields ssp cfg) s := by
  unfold mps2SspInit
  split
  · exact ⟨rfl, rfl⟩
  · exact ⟨rfl, rfl⟩
  · next ssp cfg =>
    split
    · exact ⟨rfl, rfl⟩
    refine wp_seq (readCr1_same s) fun cr1 s1 h1 => ?_
    refine wp_seq (writeReg_same (by decide) _ s1) fun _ s2 h2 => ?_
    refine wp_seq (writeReg_same (by decide) _ s2) fun _ s3 h3 => ?_
    refine wp_seq (writeReg_same (by decide) _ s3) fun _ s4 h4 => ?_
    refine wp_seq (writeReg_same (by decide) _ s4) fun _ s5 h5 => ?_
    refine wp_seq (writeReg_same (by decide) _ s5) fun _ s6 h6 => ?_
    refine wp_seq (writeReg_same (by decide) _ s6) fun _ s7 h7 => ?_
    exact h1.trans (h2.trans (h3.trans (h4.trans (h5.trans (h6.trans h7)))))

/-- As many bytes are outstanding as transfers have given up on one. -/
theorem Session.outstanding_length {log : List (Call × Int)} (h : Session fields log s) :
    s.outstanding.length = log.countP gaveUp := by
  induction h with
  | start hnone => rw [hnone, List.countP_nil, List.length_nil]
  | @call log s s' c rc t _ he ih =>
    rw [List.countP_append, ← ih, List.countP_singleton]
    cases c with
    | init ssp cfg =>
      have hsame : wp (loopbackSsp fields) (fun _ s' => Same s s')
          ((Call.init ssp cfg).program fields) s :=
        wp_seq (mps2SspInit_same ssp cfg s) fun _ s1 h1 => h1
      rw [(wp_sound hsame he).1]
      rfl
    | transfer ssp tx rx length =>
      rcases wp_sound (mps2SspTransfer_ends s) he with ⟨rfl, h⟩ | ⟨rfl, h⟩ | ⟨rfl, h⟩
      · rw [h.length_eq]
        rfl
      · rw [h]
        rfl
      · rw [h]
        rfl

/-- In a session, a transfer that succeeds has received what it has sent exactly if the bytes that
it would send in step begin with the bytes outstanding, one for each transfer that gave up on one,
and then themselves. -/
theorem mps2SspTransfer_inStep {log : List (Call × Int)} (hsession : Session fields log s)
    {t : List (Event (loopbackSsp fields))}
    (he : Exec (loopbackSsp fields) (mps2SspTransfer fields ssp tx rx length) s t
      (some mps2SspOk) s') :
    s.outstanding.length = log.countP gaveUp ∧
    ((∀ i < length, ∀ j < i, rx + j ≠ tx + i) →
      (echoed 0 (some tx) (some rx) s.memory length).1 = s.memory.bytes tx length) ∧
    ∃ sent received, sent.length = length ∧
      Exchanged 0 (some tx) (some rx) s.memory sent received s'.memory ∧
      s'.memory.bytes rx length = received ∧
      (received = sent ↔
        (s.outstanding ++ (echoed 0 (some tx) (some rx) s.memory length).1).take length =
          (echoed 0 (some tx) (some rx) s.memory length).1) := by
  have hechoed := exchanged_echoed 0 (some tx) (some rx) s.memory length
  have hlen := length_echoed 0 (some tx) (some rx) s.memory length
  refine ⟨hsession.outstanding_length, fun hapart => ?_, ?_⟩
  · have hsent := hechoed.sent_eq (by
      rintro a b ⟨⟩ ⟨⟩ i hi j hj
      exact hapart i (by omega) j hj)
    rw [hlen] at hsent
    exact hsent
  · rcases wp_sound (mps2SspTransfer_ends s) he with ⟨_, h⟩ | ⟨hrc, _⟩ | ⟨hrc, _⟩
    · obtain ⟨sent, received, rfl, hexchanged, hfifo⟩ := h
      have hlength := hexchanged.length_eq
      have hreceived : received = (s.outstanding ++ sent).take sent.length := by
        rw [← hfifo, List.take_left' hlength]
      exact ⟨sent, received, rfl, hexchanged, hlength ▸ hexchanged.bytes_eq,
        hexchanged.echo_iff hreceived⟩
    · cases hrc
    · cases hrc

/-! ### A byte that comes back late -/

theorem pl022_tnf : (0x02 : Word) ≠ 0 := by decide

theorem pl022_rne : (0x04 : Word) ≠ 0 := by decide

/-- The layout of the registers of a PL022. -/
def pl022Fields : SspFields :=
  ⟨0, 0x00, 8, 0x80, 0x40, 0x02, 0x01, 0x04, 0x02, 0x04, pl022_tnf, pl022_rne⟩

def Loopback.settled (s : Loopback) : Loopback :=
  { s with inFlight := [], rxFifo := s.rxFifo ++ s.inFlight }

def Loopback.respond (s : Loopback) : (o : Op) → Ans o × Loopback
  | .readReg .sr => (if s.rxFifo = [] then 0x02 else 0x06, s)
  | .readReg .dr =>
    match s.rxFifo with
    | [] => (0, s)
    | b :: rest => (b.setWidth 32, { s with rxFifo := rest })
  | .readReg _ => (0, s)
  | .writeReg .dr value => ((), { s with inFlight := s.inFlight ++ [value.setWidth 8] })
  | .writeReg _ _ => ((), s)
  | .load address => (s.memory address, s)
  | .store address value => ((), { s with memory := Function.update s.memory address value })

/-- An SSP that always takes a byte to send, and brings back what it has sent before each access, or
nothing. -/
def respondSsp (prompt : Bool) (o : Op) (s : Loopback) : Ans o × Loopback :=
  (if prompt then s.settled else s).respond o

theorem arrives_settled (s : Loopback) : ReflTransGen Arrives s s.settled := by
  obtain ⟨inFlight, rxFifo, memory⟩ := s
  induction inFlight generalizing rxFifo with
  | nil =>
    rw [Loopback.settled, List.append_nil]
  | cons b inFlight ih =>
    refine .head .mk ?_
    have h := ih (rxFifo ++ [b])
    rw [Loopback.settled, List.append_assoc] at h
    exact h

theorem respond_answers (s : Loopback) (o : Op) :
    LoopbackAnswer pl022Fields s o (s.respond o).1 (s.respond o).2 := by
  obtain ⟨inFlight, rxFifo, memory⟩ := s
  cases o with
  | readReg reg =>
    cases reg with
    | sr =>
      cases rxFifo with
      | nil =>
        have hclear : (0x02 : Word) &&& 0x04 = 0 := by decide
        exact ⟨⟨fun h => absurd hclear h, fun h => absurd rfl h⟩, rfl⟩
      | cons b rest =>
        have hset : (0x06 : Word) &&& 0x04 ≠ 0 := by decide
        exact ⟨⟨fun _ => List.cons_ne_nil b rest, fun _ => hset⟩, rfl⟩
    | dr =>
      cases rxFifo with
      | nil => rfl
      | cons b rest => exact ⟨by simp [Loopback.respond], rfl⟩
    | cr0 | cr1 | cpsr | imsc | dmacr => rfl
  | writeReg reg value => cases reg <;> rfl
  | load address => exact ⟨rfl, rfl⟩
  | store address value => rfl

theorem respondSsp_handles (prompt : Bool) :
    Handles (loopbackSsp pl022Fields) (respondSsp prompt) := by
  intro s o
  refine ⟨if prompt then s.settled else s, ?_, respond_answers _ o⟩
  split
  · exact arrives_settled s
  · exact .refl

/-- The memory of a driver that is to send 0x11 and then 0x22. -/
def twoBytes : Memory := fun a => if a = 0 then 0x11 else 0x22

/-- A transfer that repeats the byte on which the one before it has given up is in step. -/
theorem mps2SspTransfer_inStep_repeated : ∃ s s' t,
    Session pl022Fields [(.transfer ⟨0, none⟩ 0 0x10 1, mps2SspErrorRxTimeout)] s ∧
    Exec (loopbackSsp pl022Fields) (mps2SspTransfer pl022Fields ⟨0, none⟩ 0 0x10 1) s t
      (some mps2SspOk) s' ∧
    s.outstanding.length = 1 ∧ ∃ sent, sent.length = 1 ∧
      Exchanged 0 (some 0) (some 0x10) s.memory sent sent s'.memory := by
  obtain ⟨t, ht⟩ := (respondSsp_handles false).exec
    (mps2SspTransfer pl022Fields ⟨0, none⟩ 0 0x10 1) ⟨[], [], twoBytes⟩
  obtain ⟨u, hu⟩ := (respondSsp_handles true).exec
    (mps2SspTransfer pl022Fields ⟨0, none⟩ 0 0x10 1) ⟨[0x11], [], twoBytes⟩
  have hsession : Session pl022Fields ([] ++ [(.transfer ⟨0, none⟩ 0 0x10 1, _)]) _ :=
    .call (.start rfl) ht
  obtain ⟨hout, -, sent, received, hlen, hexchanged, -, hiff⟩ :=
    mps2SspTransfer_inStep hsession hu
  obtain rfl := hiff.mpr (by decide)
  exact ⟨_, _, u, hsession, hu, hout, _, hlen, hexchanged⟩

/-- A transfer that succeeds after one that has given up on a byte receives that byte. -/
theorem mps2SspTransfer_outOfStep : ∃ s s' t,
    Session pl022Fields [(.transfer ⟨0, none⟩ 0 0x10 1, mps2SspErrorRxTimeout)] s ∧
    Exec (loopbackSsp pl022Fields) (mps2SspTransfer pl022Fields ⟨0, none⟩ 1 0x10 1) s t
      (some mps2SspOk) s' ∧
    s.memory.bytes 1 1 = [0x22] ∧ s'.memory.bytes 0x10 1 = [0x11] := by
  obtain ⟨t, ht⟩ := (respondSsp_handles false).exec
    (mps2SspTransfer pl022Fields ⟨0, none⟩ 0 0x10 1) ⟨[], [], twoBytes⟩
  obtain ⟨u, hu⟩ := (respondSsp_handles true).exec
    (mps2SspTransfer pl022Fields ⟨0, none⟩ 1 0x10 1) ⟨[0x11], [], twoBytes⟩
  have hsession : Session pl022Fields ([] ++ [(.transfer ⟨0, none⟩ 0 0x10 1, _)]) _ :=
    .call (.start rfl) ht
  exact ⟨_, _, u, hsession, hu, by decide, by decide⟩

end CortexLabs.Ssp
