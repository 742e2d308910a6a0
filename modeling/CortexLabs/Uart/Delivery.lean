import CortexLabs.Device.Footprint
import CortexLabs.Uart.Handover

/-! What the application gets of what the driver reports.  The account of a run is kept from its
ready events and its reads alone: a ready event queues the longest prefix of its span for which the
ring has room, and the reads take from the front of the queue.  The ring holds what is queued and
not read, and the four counters of the manager are those of the account, modulo `2^32`. -/

namespace CortexLabs.Uart

open Device Relation

inductive Delivery where
  | ready (span : List Byte)
  | read (bytes : List Byte)

/-- What has been queued in all, what the reads have returned, and how many bytes have been
reported. -/
structure Account where
  queued : List Byte
  returned : List Byte
  received : Nat

namespace Account

def pending (a : Account) : Nat := a.queued.length - a.returned.length

def add (a : Account) : Delivery → Account
  | .ready span => { a with
    queued := a.queued ++ span.take (rxRingSize - a.pending)
    received := a.received + span.length }
  | .read bytes => { a with returned := a.returned ++ bytes }

def opened : Account := ⟨[], [], 0⟩

end Account

def account (h : List Delivery) : Account := h.foldl Account.add .opened

theorem account_snoc (h : List Delivery) (d : Delivery) :
    account (h ++ [d]) = (account h).add d := by
  rw [account, List.foldl_append]
  rfl

/-- The manager agrees with an account. -/
structure Account.Matches (a : Account) (m : RxManager) : Prop where
  content : a.queued = a.returned ++ m.appRing
  bound : m.appRing.length ≤ rxRingSize
  total : a.queued.length ≤ a.received
  bytesReceived : m.bytesReceived = BitVec.ofNat 32 a.received
  bytesBuffered : m.bytesBuffered = BitVec.ofNat 32 a.queued.length
  droppedBytes : m.droppedBytes = BitVec.ofNat 32 (a.received - a.queued.length)
  bytesRead : m.bytesRead = BitVec.ofNat 32 a.returned.length

namespace Account.Matches

variable {a : Account} {m m' : RxManager}

theorem pending (h : a.Matches m) : a.pending = m.appRing.length := by
  rw [Account.pending, h.content, List.length_append, Nat.add_sub_cancel_left]

/-- A put of a span into the ring. -/
theorem ready (h : a.Matches m) {span : List Byte}
    (hring : m'.appRing = (ringBufPut m.appRing span).1)
    (hreceived : m'.bytesReceived = m.bytesReceived + BitVec.ofNat 32 span.length)
    (hbuffered : m'.bytesBuffered =
      m.bytesBuffered + BitVec.ofNat 32 (ringBufPut m.appRing span).2)
    (hdropped : m'.droppedBytes = m.droppedBytes +
      (BitVec.ofNat 32 span.length - BitVec.ofNat 32 (ringBufPut m.appRing span).2))
    (hread : m'.bytesRead = m.bytesRead) : (a.add (.ready span)).Matches m' := by
  have hbound := h.bound
  have htotal := h.total
  have hlen : (span.take (rxRingSize - a.pending)).length = (ringBufPut m.appRing span).2 := by
    rw [List.length_take, h.pending, ringBufPut, Nat.min_comm]
  have htake : span.take (rxRingSize - a.pending) = span.take (ringBufPut m.appRing span).2 := by
    rw [← hlen, List.length_take, ← List.take_eq_take_min]
  have hfits : (ringBufPut m.appRing span).2 ≤ span.length ∧
      (ringBufPut m.appRing span).2 ≤ rxRingSize - m.appRing.length :=
    ⟨Nat.min_le_left _ _, Nat.min_le_right _ _⟩
  generalize hcopied : (ringBufPut m.appRing span).2 = copied at *
  have hput : (ringBufPut m.appRing span).1 = m.appRing ++ span.take copied := by
    rw [← hcopied]
    rfl
  refine ⟨?_, ?_, ?_, ?_, ?_, ?_, hread.trans h.bytesRead⟩
  · rw [Account.add, hring, hput, htake, h.content, List.append_assoc]
  · rw [hring, hput, List.length_append, List.length_take]
    omega
  · simp only [Account.add, List.length_append, hlen]
    omega
  · rw [hreceived, h.bytesReceived, ← BitVec.ofNat_add]
    rfl
  · rw [hbuffered, h.bytesBuffered, ← BitVec.ofNat_add, Account.add, List.length_append, hlen]
  · have hsplit : a.received + span.length - (a.queued.length + copied) =
        (a.received - a.queued.length) + (span.length - copied) := by omega
    have hspan : BitVec.ofNat 32 span.length =
        BitVec.ofNat 32 (span.length - copied) + BitVec.ofNat 32 copied := by
      rw [← BitVec.ofNat_add, Nat.sub_add_cancel hfits.1]
    rw [hdropped, h.droppedBytes, Account.add, List.length_append, hlen, hsplit, hspan,
      BitVec.add_sub_cancel, BitVec.ofNat_add]

/-- A call of `rx_manager_read`. -/
theorem read (h : a.Matches m) (mgr dst maxLen : Nat) :
    (a.add (.read (rxManagerRead mgr dst maxLen m).1)).Matches
      (rxManagerRead mgr dst maxLen m).2 := by
  unfold rxManagerRead
  split
  · rw [Account.add, List.append_nil]
    exact h
  generalize min maxLen rxRingSize = limit
  simp only [ringBufGet, Account.add]
  refine ⟨?_, ?_, h.total, h.bytesReceived, h.bytesBuffered, h.droppedBytes, ?_⟩
  · rw [h.content, List.append_assoc, List.take_append_drop]
  · rw [List.length_drop]
    exact Nat.le_trans (Nat.sub_le _ _) h.bound
  · rw [h.bytesRead, List.length_append, BitVec.ofNat_add]

/-- What does not touch the ring and the counters. -/
theorem frame (h : a.Matches m) (hring : m'.appRing = m.appRing)
    (hreceived : m'.bytesReceived = m.bytesReceived)
    (hbuffered : m'.bytesBuffered = m.bytesBuffered)
    (hdropped : m'.droppedBytes = m.droppedBytes) (hread : m'.bytesRead = m.bytesRead) :
    a.Matches m' :=
  ⟨by rw [hring]; exact h.content, by rw [hring]; exact h.bound, h.total,
    hreceived.trans h.bytesReceived, hbuffered.trans h.bytesBuffered,
    hdropped.trans h.droppedBytes, hread.trans h.bytesRead⟩

end Account.Matches

/-! ### Events -/

def Observation.delivery : Observation → Option Delivery
  | .event _ (.rxRdy _ _ _) bytes => some (.ready bytes)
  | _ => none

/-- The ready events of a trace. -/
def deliveries (t : List Observation) : List Delivery := t.filterMap (·.delivery)

theorem deliveries_snoc (t : List Observation) (o : Observation) :
    deliveries (t ++ [o]) = deliveries t ++ o.delivery.toList := by
  rw [deliveries, deliveries, List.filterMap_append]
  cases h : o.delivery <;> simp [h]

section Events

variable {mgr : Nat} {evt : UartEvent} {memory : Memory} {a : Account} {m : RxManager} {d : Driver}

/-- A ready event that the manager does not reject is put into the ring and counted. -/
theorem matches_ready {buf offset len : Nat} (h : a.Matches m)
    (htaken : rejects mgr (.rxRdy buf offset len) memory m d = false) :
    (a.add (.ready (memory.bytes (buf + offset) len))).Matches
      (rxManagerEvent mgr (.rxRdy buf offset len) memory m d).1 := by
  have hlen : (memory.bytes (buf + offset) len).length = len := by simp [Memory.bytes]
  simp only [rejects, rxManagerEvent] at htaken ⊢
  cases hindex : bufferIndex mgr buf with
  | none => simp [hindex, Errno.einval] at htaken
  | some index =>
    simp only [hindex] at htaken ⊢
    split
    · next hbad =>
      rw [if_pos hbad] at htaken
      simp [Errno.einval] at htaken
    · exact h.ready rfl (by rw [hlen]) rfl (by rw [hlen]) rfl

theorem matches_other (h : a.Matches m) (hevt : ∀ buf offset len, evt ≠ .rxRdy buf offset len) :
    a.Matches (rxManagerEvent mgr evt memory m d).1 := by
  cases evt with
  | rxRdy buf offset len => exact absurd rfl (hevt buf offset len)
  | rxBufRequest =>
    simp only [rxManagerEvent]
    split
    · exact h.frame rfl rfl rfl rfl rfl
    · split <;> exact h.frame rfl rfl rfl rfl rfl
  | rxBufReleased buf =>
    simp only [rxManagerEvent]
    split
    · exact h.frame rfl rfl rfl rfl rfl
    · split <;> exact h.frame rfl rfl rfl rfl rfl
  | rxStopped reason buf offset len => exact h.frame rfl rfl rfl rfl rfl
  | rxDisabled => exact h.frame rfl rfl rfl rfl rfl

/-- An event that the manager takes extends the account when it is a ready event. -/
theorem matches_event {h : List Delivery} (callback : Nat) (hm : (account h).Matches m)
    (htaken : rejects mgr evt memory m d = false) :
    (account (h ++ deliveries [.event callback evt (evt.bytes memory)])).Matches
      (rxManagerEvent mgr evt memory m d).1 := by
  cases evt with
  | rxRdy buf offset len =>
    show (account (h ++ [_])).Matches _
    rw [account_snoc]
    exact matches_ready hm htaken
  | rxBufRequest | rxBufReleased | rxStopped | rxDisabled =>
    show (account (h ++ [])).Matches _
    rw [List.append_nil]
    exact matches_other hm nofun

end Events

/-! ### Runs -/

section Runs

variable {callback mgr dev : Nat} {d : Driver} {e e' : ManagedEnv}

/-- The manager agrees with the account `h`, continued by the ready events since the trace `t0`,
as long as it has taken every event. -/
def Accounted (h : List Delivery) (t0 : List Observation) (e : ManagedEnv) : Prop :=
  ∃ t, e.trace = t0 ++ t ∧
    ((∀ x ∈ e.handled, x.2 = true) → (account (h ++ deliveries t)).Matches e.manager)

theorem Accounted.observe {h : List Delivery} {t0 : List Observation} {o : Observation}
    (ha : Accounted h t0 e) (memory : Memory) (ho : o.delivery = none) :
    Accounted h t0 { e with memory, trace := e.trace ++ [o] } := by
  obtain ⟨t, ht, hm⟩ := ha
  refine ⟨t ++ [o], by rw [ht, List.append_assoc], fun hall => ?_⟩
  rw [deliveries_snoc, ho, Option.toList_none, List.append_nil]
  exact hm hall

theorem Accounted.deliver {h : List Delivery} {t0 : List Observation} (ha : Accounted h t0 e)
    (fn userData : Nat) (evt : UartEvent) :
    Accounted h t0 (e.deliver callback mgr fn dev evt userData d).2 := by
  obtain ⟨t, ht, hm⟩ := ha
  unfold ManagedEnv.deliver
  split
  · refine ⟨t ++ [.event fn evt (evt.bytes e.memory)], by rw [ht, List.append_assoc],
      fun hall => ?_⟩
    have htaken := hall _ (List.mem_append_right _ (List.mem_singleton_self _))
    simp only [Bool.and_eq_true, decide_eq_true_eq, Bool.not_eq_true'] at htaken
    have hold := hm fun x hx => hall x (List.mem_append_left _ hx)
    rw [rxUartCallback, if_pos htaken.1, deliveries, List.filterMap_append, ← List.append_assoc]
    exact matches_event fn hold htaken.2
  · refine ⟨t ++ [.event fn evt (evt.bytes e.memory)], by rw [ht, List.append_assoc],
      fun hall => ?_⟩
    have hrefused := hall _ (List.mem_append_right _ (List.mem_singleton_self _))
    exact absurd hrefused Bool.false_ne_true

theorem isr_accounted {h : List Delivery} {d' : Driver} {t : List (Event (managed callback mgr))}
    (he : Exec (managed callback mgr) (lab20UartIsr dev d) e t (some d') e')
    (hm : (account h).Matches e.manager) : Accounted h e.trace e' := by
  refine he.keeps (I := Accounted h e.trace) ?_ ?_ (Program.issues_any _) ?_
  · intro s o r s' _ ha hanswer
    cases o with
    | readState | readData =>
      rw [hanswer]
      exact ha.observe s.memory rfl
    | store address b =>
      rw [hanswer]
      exact ha.observe _ rfl
    | call fn dev evt userData d =>
      rw [show s' = _ from congrArg Prod.snd hanswer]
      exact ha.deliver fn userData evt
  · exact fun _ _ _ _ _ hcut => hcut.elim
  · exact ⟨[], (List.append_nil _).symm, fun _ => by rwa [deliveries, List.filterMap_nil,
      List.append_nil]⟩

/-- The runs from a state, each with its ready events and its reads in order. -/
inductive Delivered (callback mgr dev : Nat) (s : Driver × ManagedEnv) :
    List Delivery → Driver × ManagedEnv → Prop
  | start : Delivered callback mgr dev s [] s
  | isr {h : List Delivery} {d d' : Driver} {e e' : ManagedEnv}
      {t : List (Event (managed callback mgr))} : Delivered callback mgr dev s h (d, e) →
      Exec (managed callback mgr) (lab20UartIsr dev d.taken) e t (some d') e' →
      Delivered callback mgr dev s (h ++ deliveries (e'.trace.drop e.trace.length)) (d', e')
  | read {h : List Delivery} {d : Driver} {e : ManagedEnv} (dst maxLen : Nat) :
      Delivered callback mgr dev s h (d, e) →
      Delivered callback mgr dev s (h ++ [.read (rxManagerRead mgr dst maxLen e.manager).1])
        (d, { e with
          manager := (rxManagerRead mgr dst maxLen e.manager).2
          memory := copyOut e.memory dst (rxManagerRead mgr dst maxLen e.manager).1 })
  | disable {h : List Delivery} {d : Driver} {e : ManagedEnv} :
      Delivered callback mgr dev s h (d, e) →
      Delivered callback mgr dev s h ((lab20UartRxDisable d).2,
        if (lab20UartRxDisable d).1 = 0 then { e with trace := e.trace ++ [.stopRequested] } else e)

/-- Every run is one of these, with some history. -/
theorem Delivered.of_run {s s' : Driver × ManagedEnv}
    (hrun : ReflTransGen (ManagedStep callback mgr dev) s s') :
    ∃ h, Delivered callback mgr dev s h s' := by
  induction hrun with
  | refl => exact ⟨[], .start⟩
  | tail _ hs ih =>
    obtain ⟨h, ih⟩ := ih
    cases hs with
    | isr he => exact ⟨_, ih.isr he⟩
    | read dst maxLen => exact ⟨_, ih.read dst maxLen⟩
    | disable => exact ⟨_, ih.disable⟩

theorem Delivered.run {s s' : Driver × ManagedEnv} {h : List Delivery}
    (hd : Delivered callback mgr dev s h s') :
    ReflTransGen (ManagedStep callback mgr dev) s s' := by
  induction hd with
  | start => exact .refl
  | isr _ he ih => exact ih.tail (.isr he)
  | read dst maxLen _ ih => exact ih.tail (.read dst maxLen _ _)
  | disable _ ih => exact ih.tail (.disable _ _)

theorem Delivered.balanced {s s' : Driver × ManagedEnv} {h : List Delivery}
    (hd : Delivered callback mgr dev s h s') (hs : Balanced callback mgr dev s.1 s.2) :
    Balanced callback mgr dev s'.1 s'.2 := by
  have hstep : ∀ s s' : Driver × ManagedEnv, Balanced callback mgr dev s.1 s.2 →
      ManagedStep callback mgr dev s s' → Balanced callback mgr dev s'.1 s'.2 :=
    fun _ _ h hs => h.step hs
  exact run_invariant hstep hd.run hs

theorem Delivered.accounted {s s' : Driver × ManagedEnv} {h : List Delivery}
    (hd : Delivered callback mgr dev s h s') (hs : Balanced callback mgr dev s.1 s.2)
    (hm : Account.opened.Matches s.2.manager) : (account h).Matches s'.2.manager := by
  induction hd with
  | start => exact hm
  | @isr h d d' e e' t hd he ih =>
    obtain ⟨new, htrace, hmatches⟩ := isr_accounted he ih
    rw [htrace, List.drop_left]
    exact hmatches ((hd.isr he).balanced hs).attached.handled
  | read dst maxLen _ ih =>
    rw [account_snoc]
    exact ih.read mgr dst maxLen
  | disable _ ih =>
    dsimp only at ih ⊢
    split
    · exact ih
    · exact ih

theorem rxManagerInit_opened {ready : Bool} {m m0 : RxManager} {memory memory0 : Memory}
    {d0 : Driver} (h : rxManagerInit callback ready mgr dev m memory d = (0, m0, memory0, d0)) :
    Account.opened.Matches m0 := by
  have hzero : Account.opened.Matches RxManager.zero :=
    ⟨rfl, Nat.zero_le _, Nat.le_refl _, rfl, rfl, rfl, rfl⟩
  unfold rxManagerInit at h
  split at h
  · simp [Errno.einval] at h
  split at h
  · simp [Errno.enodev] at h
  dsimp only at h
  split at h
  · next hret => exact absurd (Prod.mk.inj h).1 hret
  split at h
  · next hret => exact absurd (Prod.mk.inj h).1 hret
  have hm0 : _ = m0 := congrArg (·.2.1) h
  rw [← hm0]
  exact hzero.frame rfl rfl rfl rfl rfl

/-- After a successful initialization, whatever interrupts, reads and requests to stop follow, what
`rx_manager_read` has returned and what is in the ring are together the spans of the ready events,
each cut where the ring was full; the ring holds at most 64 bytes; and the counters are those of the
account, modulo `2^32`. -/
theorem delivery_accounting {ready : Bool} {m m0 : RxManager} {memory memory0 : Memory}
    {d0 d' : Driver} {h : List Delivery}
    (hinit : rxManagerInit callback ready mgr dev m memory d = (0, m0, memory0, d0))
    (hrun : Delivered callback mgr dev (d0, ⟨memory0, m0, [], []⟩) h (d', e')) :
    (account h).Matches e'.manager :=
  hrun.accounted (rxManagerInit_balanced hinit) (rxManagerInit_opened hinit)

end Runs

/-- The driver and the manager after `n` interrupts with a byte to receive. -/
def managerFilled : Nat → Driver × ManagedEnv
  | 0 => (managerOpened.2.2.2, ⟨managerOpened.2.2.1, managerOpened.2.1, [], []⟩)
  | n + 1 => (lab20UartIsr 1 (managerFilled n).1.taken).run (steady 1 100 2 65) (managerFilled n).2

theorem managerFilled_delivered (n : Nat) :
    ∃ h, Delivered 1 100 1 (managerFilled 0) h (managerFilled n) := by
  induction n with
  | zero => exact ⟨[], .start⟩
  | succ n ih =>
    obtain ⟨h, hd⟩ := ih
    obtain ⟨t, he⟩ := (steady_handles 1 100 2 65).exec
      (lab20UartIsr 1 (managerFilled n).1.taken) (managerFilled n).2
    exact ⟨_, hd.isr he⟩

/-- After eight interrupts and a read of five bytes, three are left in the ring. -/
theorem delivery_accounting_filled : ∃ h e, Delivered 1 100 1 (managerFilled 0) h
      ((managerFilled 8).1, e) ∧ e.manager.appRing = [65, 65, 65] ∧
    (account h).queued = (account h).returned ++ [65, 65, 65] ∧
    (8 : Word) = BitVec.ofNat 32 (account h).received ∧
    (5 : Word) = BitVec.ofNat 32 (account h).returned.length := by
  obtain ⟨h, hd⟩ := managerFilled_delivered 8
  have hread := hd.read 1000 5
  have hopened : rxManagerInit 1 true 100 1 .zero (fun _ => 0) .start =
      (0, managerOpened.2.1, managerOpened.2.2.1, managerOpened.2.2.2) := rfl
  have hm := delivery_accounting hopened hread
  exact ⟨_, _, hread, rfl, hm.content, hm.bytesReceived, hm.bytesRead⟩

end CortexLabs.Uart
