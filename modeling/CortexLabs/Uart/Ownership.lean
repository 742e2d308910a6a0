import CortexLabs.Uart.Interrupt

/-! Runs of interrupts and clients, from the driver's initialization on: who holds which buffer,
what is announced of it, and where the bytes go. -/

namespace CortexLabs.Uart

open Device Relation

/-- The bytes that the `UART_RX_RDY` events carried. -/
def delivered (t : List Observation) : List Byte := (delivery.after t).1

/-- The bytes that the interrupt service routine has read from the data register. -/
def received (t : List Observation) : List Byte := (delivery.after t).2

section Runs

variable {mayWrite : Env → Nat → Prop}

theorem Settled.step {s s' : Driver × Env} (h : Settled mayWrite s.1 s.2)
    (hs : Step mayWrite s s') : Settled mayWrite s'.1 s'.2 := by
  cases hs with
  | thread hc => exact h.effect hc.effect
  | @isr dev d d' e e' t he =>
    have hentered : Settled mayWrite d.taken e := by
      rcases h with h | ⟨h, hpos⟩
      · exact .inl ⟨h.idle, h.empty, h.owns, h.held, h.delivers, h.stream⟩
      · exact .inr ⟨h.congr h.running rfl, hpos⟩
    have hsafe : Safe (client mayWrite) (Arrives mayWrite) (fun _ _ => True)
        (lab20UartIsr dev d.taken) [] e := lab20UartIsr_safe hentered
    exact (hsafe.sound he).1 d' rfl

theorem settled_start (m : Memory) : Settled mayWrite .start (.start m) :=
  .inl ⟨rfl, ⟨rfl, rfl⟩, .nil, rfl, fun _ => .nil, fun _ => rfl⟩

theorem settled_run {m : Memory} {s : Driver × Env}
    (hrun : ReflTransGen (Step mayWrite) (.start, .start m) s) : Settled mayWrite s.1 s.2 := by
  have hstep : ∀ s s' : Driver × Env, Settled mayWrite s.1 s.2 → Step mayWrite s s' →
      Settled mayWrite s'.1 s'.2 := fun _ _ h hs => h.step hs
  exact run_invariant hstep hrun (settled_start m)

theorem Settled.owns {d : Driver} {e : Env} (h : Settled mayWrite d e) :
    ownership.Conforms e.trace := h.elim (·.owns) (·.1.owns)

/-- A session that is open was started by an `enabled` that nothing has closed since. -/
theorem opened_of_after {t : List Observation} {held : List Span}
    (h : ownership.after t = some held) : ∃ pre buf len mid,
      t = pre ++ .enabled buf len :: mid ∧ ∀ o ∈ mid, o.closes = false := by
  induction t using List.reverseRecOn generalizing held with
  | nil => cases h
  | append_singleton t o ih =>
    rw [Monitor.after_snoc] at h
    by_cases hstart : ∃ buf len, o = .enabled buf len
    · obtain ⟨buf, len, rfl⟩ := hstart
      exact ⟨t, buf, len, [], rfl, nofun⟩
    · cases hs : ownership.after t with
      | none =>
        rw [hs] at h
        cases o with
        | enabled buf len => exact absurd ⟨buf, len, rfl⟩ hstart
        | event _ evt _ => cases evt <;> cases h
        | supplied | stopRequested | stateRead | dataRead | stored => cases h
      | some held1 =>
        obtain ⟨pre, buf, len, mid, rfl, hmid⟩ := ih hs
        refine ⟨pre, buf, len, mid ++ [o], by simp, fun o' ho' => ?_⟩
        rcases List.mem_append.mp ho' with ho' | ho'
        · exact hmid o' ho'
        · obtain rfl := List.mem_singleton.mp ho'
          rw [hs] at h
          cases o' with
          | event _ evt _ =>
            cases evt with
            | rxDisabled => cases h
            | rxBufRequest | rxRdy | rxBufReleased | rxStopped => rfl
          | enabled | supplied | stopRequested | stateRead | dataRead | stored => rfl

/-- What a session has released is what it has accepted, up to the buffers still held. -/
theorem released_prefix {pre mid : List Observation} {buf len : Nat}
    (h : ownership.Conforms (pre ++ .enabled buf len :: mid))
    (hmid : ∀ o ∈ mid, o.closes = false) : ∃ held,
      ownership.after (pre ++ .enabled buf len :: mid) = some held ∧
      buf :: accepted mid = released mid ++ held.map (·.buf) := by
  rw [List.append_cons] at h ⊢
  have hstart : ownership.after (pre ++ [.enabled buf len]) = some [⟨buf, len⟩] := by
    rw [Monitor.after_snoc]
    rfl
  exact ownership_session h hstart hmid

/-- In every run of interrupts, whatever the registers read as, and of calls of the API, from
threads or from the callbacks: the trace conforms to the ownership protocol.  In particular, a
session releases its buffers in the order in which it accepted them, each at most once, and all of
them before its `UART_RX_DISABLED`; every event is emitted in a session, to a callback that is not
NULL; every byte is stored in the oldest buffer held; and the buffers held, which are those in the
driver's fields, do not overlap. -/
theorem buffer_ownership {m : Memory} {s : Driver × Env}
    (hrun : ReflTransGen (Step mayWrite) (.start, .start m) s) :
    ownership.Conforms s.2.trace ∧
    (∀ pre buf len mid post, s.2.trace = pre ++ .enabled buf len :: (mid ++ post) →
      (∀ o ∈ mid, o.closes = false) → released mid <+: buf :: accepted mid ∧
        ∀ o, post.head? = some o → o.closes = true → released mid = buf :: accepted mid) ∧
    (∀ pre callback evt bytes post, s.2.trace = pre ++ .event callback evt bytes :: post →
      callback ≠ null ∧ ∃ pre' buf len mid, pre = pre' ++ .enabled buf len :: mid ∧
        ∀ o ∈ mid, o.closes = false) ∧
    (∀ pre address b post, s.2.trace = pre ++ .stored address b :: post →
      ∃ h rest, ownership.after pre = some (h :: rest) ∧ h.Contains address) ∧
    (∀ pre post held, s.2.trace = pre ++ post → ownership.after pre = some held →
      held.Pairwise Span.Disjoint) ∧
    ownership.after s.2.trace = if s.1.state = .idle then none else some s.1.held := by
  have h := settled_run hrun
  have howns := h.owns
  refine ⟨howns, ?_, ?_, ?_, ?_, ?_⟩
  · intro pre buf len mid post ht hmid
    rw [ht, ← List.cons_append, ← List.append_assoc] at howns
    obtain ⟨held, hafter, hacc⟩ := released_prefix howns.left hmid
    refine ⟨⟨_, hacc.symm⟩, fun o ho hcloses => ?_⟩
    obtain ⟨post', rfl⟩ : ∃ post', post = o :: post' := by
      cases post with
      | nil => cases ho
      | cons a post' => exact ⟨post', by rw [Option.some.inj ho]⟩
    have hallowed := howns _ o post' rfl
    cases o with
    | event callback evt bytes =>
      cases evt with
      | rxDisabled =>
        obtain ⟨-, held', hafter', hempty⟩ := hallowed
        rw [hafter, hempty] at hafter'
        rw [hacc, Option.some.inj hafter']
        simp
      | rxBufRequest | rxRdy | rxBufReleased | rxStopped => cases hcloses
    | enabled | supplied | stopRequested | stateRead | dataRead | stored => cases hcloses
  · intro pre callback evt bytes post ht
    obtain ⟨hcb, held, hafter, -⟩ := howns pre _ post ht
    exact ⟨hcb, opened_of_after hafter⟩
  · intro pre address b post ht
    exact howns pre _ post ht
  · intro pre post held ht hafter
    rw [ht] at howns
    exact ownership_disjoint howns.left hafter
  · rcases h with h | ⟨h, -⟩
    · rw [if_pos h.idle, h.held]
    · rw [if_neg h.running, h.held]

/-- When the clients do not write into buffers that the driver holds, the bytes delivered, followed
by those in the current buffer that have not been reported, are the bytes received, in every run;
everything received has been delivered when a session is closed; and what is delivered comes from
the oldest buffer held. -/
theorem data_stream (hp : Polite mayWrite) {m : Memory} {s : Driver × Env}
    (hrun : ReflTransGen (Step mayWrite) (.start, .start m) s) :
    delivered s.2.trace ++ s.1.unreported s.2.memory = received s.2.trace ∧
    (∀ pre callback bytes post, s.2.trace = pre ++ .event callback .rxDisabled bytes :: post →
      delivered pre = received pre) ∧
    ∀ pre callback buf offset len bytes post,
      s.2.trace = pre ++ .event callback (.rxRdy buf offset len) bytes :: post →
      ∃ h rest, ownership.after pre = some (h :: rest) ∧ buf = h.buf ∧ offset + len ≤ h.len := by
  have h := settled_run hrun
  have hdelivers : delivery.Conforms s.2.trace := h.elim (·.delivers hp) (·.1.delivers hp)
  refine ⟨?_, ?_, ?_⟩
  · rcases h with h | ⟨h, -⟩
    · have hempty : s.1.unreported s.2.memory = [] := by
        rw [Driver.unreported, h.empty.1, Nat.zero_sub, Memory.bytes_zero]
      rw [hempty, List.append_nil]
      exact h.stream hp
    · exact h.stream hp
  · intro pre callback bytes post ht
    exact hdelivers pre _ post ht
  · intro pre callback buf offset len bytes post ht
    obtain ⟨-, held, hafter, h1, rest, rfl, hbuf, hlen⟩ := h.owns pre _ post ht
    exact ⟨h1, rest, hafter, hbuf, hlen⟩

end Runs

/-! ### A run that can be computed -/

/-- Registers that always read the same, and clients that answer no event. -/
def quiet (status data : Word) : (o : Op) → Env → Ans o × Env
  | .readState, e => (status, e.record [.stateRead status])
  | .readData, e => (data, e.record [.dataRead data])
  | .store address b, e =>
    ((), ⟨Function.update e.memory address b, e.trace ++ [.stored address b]⟩)
  | .call callback _ evt _ d, e => (d, e.record [.event callback evt (evt.bytes e.memory)])

theorem quiet_handles (mayWrite : Env → Nat → Prop) (status data : Word) :
    Handles (client mayWrite) (quiet status data) := by
  intro e o
  cases o with
  | readState | readData | store => rfl
  | call callback dev evt userData d => exact .refl

/-- A session with a buffer of one byte. -/
def oneOpened : Driver × Env :=
  (ApiCall.rxEnable 100 1 sysForeverUs).perform
    ((ApiCall.callbackSet 1 0).perform (.start, .start fun _ => 0))

/-- One byte is received into it; no other buffer has been supplied. -/
def oneReceived : Driver × Env :=
  (lab20UartIsr 0 oneOpened.1.taken).run (quiet 2 65) oneOpened.2

theorem oneReceived_reached (mayWrite : Env → Nat → Prop) :
    ReflTransGen (Step mayWrite) (.start, .start fun _ => 0) oneReceived := by
  obtain ⟨t, he⟩ : ∃ t, Exec (client mayWrite) (lab20UartIsr 0 oneOpened.1.taken) oneOpened.2 t
      (some oneReceived.1) oneReceived.2 := (quiet_handles mayWrite 2 65).exec _ _
  have hset : Step mayWrite (.start, .start fun _ => 0)
      ((ApiCall.callbackSet 1 0).perform (.start, .start fun _ => 0)) := .thread (.call _ _)
  have hopen : Step mayWrite ((ApiCall.callbackSet 1 0).perform (.start, .start fun _ => 0))
      oneOpened := .thread (.call _ _)
  have hisr : Step mayWrite (oneOpened.1, oneOpened.2) (oneReceived.1, oneReceived.2) := .isr he
  exact .tail (.tail (.single hset) hopen) hisr

/-- What happens in the session before it is closed. -/
def oneSession : List Observation :=
  [.event 1 .rxBufRequest [], .stateRead 2, .dataRead 65, .stored 100 65,
    .event 1 (.rxRdy 100 0 1) [65], .event 1 (.rxBufReleased 100) []]

theorem oneReceived_trace : oneReceived.2.trace =
    [] ++ .enabled 100 1 :: (oneSession ++ [.event 1 .rxDisabled []]) := rfl

/-- In that run, the buffer has been released when the session is closed. -/
theorem buffer_ownership_byte :
    ReflTransGen (Step fun _ _ => True) (.start, .start fun _ => 0) oneReceived ∧
    released oneSession = 100 :: accepted oneSession := by
  have hrun := oneReceived_reached fun _ _ => True
  refine ⟨hrun, ((buffer_ownership hrun).2.1 [] 100 1 _ _ oneReceived_trace ?_).2 _ rfl rfl⟩
  simp [oneSession, Observation.closes]

/-- In that run, the byte received has been delivered. -/
theorem data_stream_byte :
    ReflTransGen (Step fun _ _ => False) (.start, .start fun _ => 0) oneReceived ∧
    received oneReceived.2.trace = [65] ∧
    delivered oneReceived.2.trace ++ oneReceived.1.unreported oneReceived.2.memory = [65] := by
  have hrun := oneReceived_reached fun _ _ => False
  exact ⟨hrun, rfl, (data_stream nofun hrun).1⟩

end CortexLabs.Uart
