import CortexLabs.Uart.Reception

/-! The interrupt service routine.  Each of its parts is followed from one event to the next: where
an event is emitted the invariant of the driver holds for what has been shown so far, so that it
holds again after whatever the callback does. -/

namespace CortexLabs.Uart

open Device Relation

variable {mayWrite : Env → Nat → Prop} {dev : Nat}

theorem Receiving.entered {d : Driver} {e : Env} (h : Receiving mayWrite d e) :
    Receiving mayWrite { d with inCallback := true } e := h.congr h.running rfl

theorem Receiving.returned {d : Driver} {e : Env} (h : Receiving mayWrite d e) :
    Receiving mayWrite { d with inCallback := false } e := h.congr h.running rfl

/-! ### Events -/

/-- An event that neither releases nor delivers anything. -/
theorem Receiving.show {d : Driver} {e : Env} {o : Observation} (h : Receiving mayWrite d e)
    (ho : ownership.allowed (some d.held) o)
    (hown : ownership.next (some d.held) o = some d.held)
    (hdel : ∀ s, delivery.next s o = s ∧ delivery.allowed s o) :
    Receiving mayWrite d (e.record [o]) := by
  refine { h with owns := ?_, held := ?_, delivers := fun hp => ?_, stream := fun hp => ?_ }
  · exact Monitor.conforms_snoc.mpr ⟨h.owns, by rwa [h.held]⟩
  · rw [Env.record_trace, Monitor.after_snoc, h.held, hown]
  · exact Monitor.conforms_snoc.mpr ⟨h.delivers hp, (hdel _).2⟩
  · rw [Env.record_trace, Monitor.after_snoc, (hdel _).1]
    exact h.stream hp

theorem Receiving.request {d : Driver} {e : Env} (h : Receiving mayWrite d e) :
    Receiving mayWrite d (e.record [.event d.callback .rxBufRequest []]) :=
  h.show ⟨h.callback, d.held, rfl, trivial⟩ rfl fun _ => ⟨rfl, trivial⟩

theorem Receiving.announced {d : Driver} {e : Env} (h : Receiving mayWrite d e) :
    ∃ s rest, d.held = s :: rest ∧ d.currentBuf = s.buf ∧
      d.reported + (d.currentPos - d.reported) ≤ s.len := by
  have hreported := h.reported
  have hfilled := h.filled
  exact ⟨⟨d.currentBuf, d.currentLen⟩, _, rfl, rfl, by dsimp only; omega⟩

theorem Receiving.stopped {d : Driver} {e : Env} {bytes : List Byte} (h : Receiving mayWrite d e)
    (reason : Nat) : Receiving mayWrite d (e.record [.event d.callback
      (.rxStopped reason d.currentBuf d.reported (d.currentPos - d.reported)) bytes]) :=
  h.show ⟨h.callback, d.held, rfl, h.announced⟩ rfl fun _ => ⟨rfl, trivial⟩

/-- A `UART_RX_RDY` event delivers what had not been reported. -/
theorem Receiving.ready {d : Driver} {e : Env} (h : Receiving mayWrite d e) :
    Receiving mayWrite { d with reported := d.currentPos } (e.record [.event d.callback
      (.rxRdy d.currentBuf d.reported (d.currentPos - d.reported)) (d.unreported e.memory)]) := by
  refine { h with reported := Nat.le_refl _, owns := ?_, held := ?_, delivers := fun hp => ?_,
                  stream := fun hp => ?_ }
  · exact Monitor.conforms_snoc.mpr ⟨h.owns, h.callback, d.held, h.held, h.announced⟩
  · rw [Env.record_trace, Monitor.after_snoc, h.held]
    rfl
  · exact Monitor.conforms_snoc.mpr ⟨h.delivers hp, trivial⟩
  · have hempty : Driver.unreported { d with reported := d.currentPos } e.memory = [] := by
      rw [Driver.unreported, Nat.sub_self, Memory.bytes_zero]
    rw [Env.record_trace, Monitor.after_snoc, Env.record_memory, hempty, List.append_nil]
    exact h.stream hp

/-- The current buffer is released when all of it has been reported and the next one has taken its
place. -/
theorem Receiving.swap {d : Driver} {e : Env} (h : Receiving mayWrite d e)
    (hnext : d.nextBuf ≠ null) (hrep : d.currentPos = d.reported) :
    Receiving mayWrite d.swapped
      (e.record [.event d.callback (.rxBufReleased d.currentBuf) []]) := by
  have hheld : d.held = [⟨d.currentBuf, d.currentLen⟩, ⟨d.nextBuf, d.nextLen⟩] := by
    rw [Driver.held, if_neg hnext]
  refine ⟨h.running, h.callback, hnext, fun hn => absurd rfl hn, Nat.le_refl _, Nat.zero_le _, ?_,
    ?_, fun hp => ?_, fun hp => ?_⟩
  · exact Monitor.conforms_snoc.mpr ⟨h.owns, h.callback, d.held, h.held, _, _, rfl, rfl⟩
  · rw [Env.record_trace, Monitor.after_snoc, h.held, hheld]
    rfl
  · exact Monitor.conforms_snoc.mpr ⟨h.delivers hp, trivial⟩
  · have hstream := h.stream hp
    rw [Driver.unreported, hrep, Nat.sub_self, Memory.bytes_zero] at hstream
    rw [Env.record_trace, Monitor.after_snoc]
    exact hstream

/-! ### The end of a session -/

/-- The driver has reported everything and cleared its fields; the buffers of `held` are still to
be released. -/
structure Draining (mayWrite : Env → Nat → Prop) (d : Driver) (e : Env) (held : List Span) :
    Prop where
  stopping : d.state = .stopping
  callback : d.callback ≠ null
  empty : d.currentPos = 0 ∧ d.reported = 0
  owns : ownership.Conforms e.trace
  held : ownership.after e.trace = some held
  delivers : Polite mayWrite → delivery.Conforms e.trace
  stream : Polite mayWrite → (delivery.after e.trace).1 = (delivery.after e.trace).2

section Rules

variable {C : List (Event (client mayWrite)) → Env → Prop} {t : List (Event (client mayWrite))}

abbrev Arrives (mayWrite : Env → Nat → Prop) (_ : List (Event (client mayWrite))) (d : Driver)
    (e : Env) : Prop := Settled mayWrite d e

theorem Settled.returned {d : Driver} {e : Env} (h : Settled mayWrite d e) :
    Settled mayWrite { d with inCallback := false } e := by
  rcases h with h | ⟨h, hpos⟩
  · exact .inl ⟨h.idle, h.empty, h.owns, h.held, h.delivers, h.stream⟩
  · exact .inr ⟨h.returned, hpos⟩

theorem releaseBuffer_safe {d : Driver} {e : Env} {s : Span} {rest : List Span}
    {f : Driver → IsrProgram Driver} (h : Draining mayWrite d e (s :: rest)) (hs : s.buf ≠ null)
    (hf : ∀ d' e' t, Draining mayWrite d' e' rest →
      Safe (client mayWrite) (Arrives mayWrite) C (f d') t e') :
    Safe (client mayWrite) (Arrives mayWrite) C (releaseBuffer dev d s.buf >>= f) t e := by
  rw [releaseBuffer, if_pos hs]
  refine safe_emit fun d' e' t hc => hf _ _ _ ?_
  obtain ⟨rfl, ht⟩ := stopping_clients h.stopping hc
  refine ⟨h.stopping, h.callback, h.empty, ?_, ?_, fun hp => ?_, fun hp => ?_⟩
  · rw [ht]
    exact Monitor.conforms_snoc.mpr ⟨h.owns, h.callback, _, h.held, _, _, rfl, rfl⟩
  · rw [ht, Env.record_trace, Monitor.after_snoc, h.held]
    rfl
  · rw [ht]
    exact Monitor.conforms_snoc.mpr ⟨h.delivers hp, trivial⟩
  · rw [ht, Env.record_trace, Monitor.after_snoc]
    exact h.stream hp

theorem close_safe {d : Driver} {e : Env} (h : Draining mayWrite d e []) :
    Safe (client mayWrite) (Arrives mayWrite) C
      (lab20UartEmit dev { d with state := .idle } .rxDisabled) t e := by
  rw [← bind_pure (lab20UartEmit dev { d with state := .idle } .rxDisabled)]
  refine safe_emit fun d' e' t hc => ?_
  refine Settled.returned (Settled.clients (.inl ⟨rfl, h.empty, ?_, ?_, fun hp => ?_, fun hp => ?_⟩)
    hc)
  · exact Monitor.conforms_snoc.mpr ⟨h.owns, h.callback, _, h.held, rfl⟩
  · dsimp only
    rw [Env.record_trace, Monitor.after_snoc, h.held]
    rfl
  · exact Monitor.conforms_snoc.mpr ⟨h.delivers hp, h.stream hp⟩
  · dsimp only
    rw [Env.record_trace, Monitor.after_snoc]
    exact h.stream hp

theorem giveBack_safe {d : Driver} {e : Env} (h : Receiving mayWrite d e)
    (hstop : d.state = .stopping) (hrep : d.currentPos = d.reported) :
    Safe (client mayWrite) (Arrives mayWrite) C (giveBack dev d) t e := by
  have hstream : Polite mayWrite → (delivery.after e.trace).1 = (delivery.after e.trace).2 := by
    intro hp
    have := h.stream hp
    rwa [Driver.unreported, hrep, Nat.sub_self, Memory.bytes_zero, List.append_nil] at this
  refine releaseBuffer_safe (s := ⟨d.currentBuf, d.currentLen⟩)
    ⟨hstop, h.callback, ⟨rfl, rfl⟩, h.owns, h.held, h.delivers, hstream⟩ h.current ?_
  intro d' e' t hd
  by_cases hnext : d.nextBuf = null
  · rw [if_pos hnext] at hd
    rw [releaseBuffer, if_neg (not_not.mpr hnext), pure_bind]
    exact close_safe hd
  · rw [if_neg hnext] at hd
    exact releaseBuffer_safe hd hnext fun d' e' t hd => close_safe hd

theorem reportCurrent_safe {α : Type} {Q : List (Event (client mayWrite)) → α → Env → Prop}
    {d : Driver} {e : Env} {f : Driver → IsrProgram α} (h : Receiving mayWrite d e)
    (hf : ∀ d' e' t, Receiving mayWrite d' e' → d'.currentPos = d'.reported →
      d'.currentPos = d.currentPos → d'.currentLen = d.currentLen →
      (d.state = .stopping → d'.state = .stopping) → Safe (client mayWrite) Q C (f d') t e') :
    Safe (client mayWrite) Q C (reportCurrent dev d >>= f) t e := by
  unfold reportCurrent
  split
  · next hrep =>
    rw [pure_bind]
    exact hf d e t h hrep rfl rfl id
  · refine safe_emit fun d' e' t hc => ?_
    obtain ⟨h', hsame, hstop⟩ := h.ready.entered.clients hc
    refine hf _ _ _ h'.returned (hsame.currentPos.trans hsame.reported.symm)
      hsame.currentPos hsame.currentLen fun hs => ?_
    exact (congrArg Driver.state (hstop hs)).trans hs

theorem finishRx_safe {d : Driver} {e : Env} (h : Receiving mayWrite d e) (reason : Nat) :
    Safe (client mayWrite) (Arrives mayWrite) C (finishRx dev d reason) t e := by
  have hrest : ∀ d e t, Receiving mayWrite d e → d.state = .stopping →
      Safe (client mayWrite) (Arrives mayWrite) C (reportCurrent dev d >>= giveBack dev) t e := by
    intro d e t h hstop
    exact reportCurrent_safe h fun d' e' t h' hrep _ _ hs => giveBack_safe h' (hs hstop) hrep
  have h0 : Receiving mayWrite { d with
      ctrl := d.ctrl &&& ~~~(ctrlRxen ||| ctrlRxirqen)
      intclear := intRx
      state := .stopping
      initialRequest := false
      requestOutstanding := false } e := h.congr nofun rfl
  unfold finishRx
  split
  · refine safe_emit fun d' e' t hc => ?_
    obtain ⟨h', -, hstop⟩ := (h0.stopped reason).entered.clients hc
    exact hrest _ _ _ h'.returned (congrArg Driver.state (hstop rfl))
  · rw [pure_bind]
    exact hrest _ _ _ h0 rfl

/-! ### Reception -/

theorem requestBuffer_safe {α : Type} {Q : List (Event (client mayWrite)) → α → Env → Prop}
    {d : Driver} {e : Env} {f : Driver → IsrProgram α} (h : Receiving mayWrite d e)
    (hf : ∀ d' e' t, Receiving mayWrite d' e' → d'.currentPos = d.currentPos →
      d'.currentLen = d.currentLen → Safe (client mayWrite) Q C (f d') t e') :
    Safe (client mayWrite) Q C (requestBuffer dev d >>= f) t e := by
  refine safe_emit fun d' e' t hc => ?_
  have h0 : Receiving mayWrite { d with requestOutstanding := true } e := h.congr h.running rfl
  obtain ⟨h', hsame, -⟩ := h0.request.entered.clients hc
  exact hf _ _ _ h'.returned hsame.currentPos hsame.currentLen

theorem swapBuffers_safe {d : Driver} {e : Env} (h : Receiving mayWrite d e)
    (hnext : d.nextBuf ≠ null) (hrep : d.currentPos = d.reported) :
    Safe (client mayWrite) (Arrives mayWrite) C (swapBuffers dev d) t e := by
  have hlast : ∀ d' e' t, Receiving mayWrite d' e' → d'.currentPos < d'.currentLen →
      Safe (client mayWrite) (Arrives mayWrite) C
        (if d'.state = .stopping then finishRx dev d' 0 else pure d') t e' := by
    intro d' e' t h' hpos
    split
    · exact finishRx_safe h' 0
    · exact .inr ⟨h', hpos⟩
  have hrelease : releaseBuffer dev d.swapped d.currentBuf =
      lab20UartEmit dev d.swapped (.rxBufReleased d.currentBuf) := if_pos h.current
  unfold swapBuffers
  dsimp only
  rw [hrelease]
  refine safe_emit fun d1 e1 t hc => ?_
  obtain ⟨h1, hsame, -⟩ := (h.swap hnext hrep).entered.clients hc
  have hpos : d1.currentPos < d1.currentLen := by
    rw [hsame.currentPos, hsame.currentLen]
    exact h.nextLen hnext
  have h1 := h1.returned
  split
  · refine requestBuffer_safe h1 fun d2 e2 t h2 hp hl => hlast d2 e2 t h2 ?_
    rw [hp, hl]
    exact hpos
  · rw [pure_bind]
    exact hlast _ _ _ h1 hpos

/-- A byte goes from the data register to the end of the current buffer's contents. -/
theorem Receiving.receive {d : Driver} {e : Env} (h : Receiving mayWrite d e)
    (hpos : d.currentPos < d.currentLen) (v : Word) : Receiving mayWrite
      { d with currentPos := d.currentPos + 1, hardwareBytes := d.hardwareBytes + 1 }
      ⟨Function.update e.memory (d.currentBuf + d.currentPos) ((v &&& dataMask).setWidth 8),
        e.trace ++ [.dataRead v] ++
          [.stored (d.currentBuf + d.currentPos) ((v &&& dataMask).setWidth 8)]⟩ := by
  have hreported := h.reported
  refine { h with reported := by dsimp only; omega, filled := hpos, owns := ?_, held := ?_,
                  delivers := fun hp => ?_, stream := fun hp => ?_ }
  · refine Monitor.conforms_snoc.mpr ⟨Monitor.conforms_snoc.mpr ⟨h.owns, trivial⟩, ?_⟩
    rw [Monitor.after_snoc, h.held]
    exact ⟨⟨d.currentBuf, d.currentLen⟩, _, rfl, Nat.le_add_right _ _,
      Nat.add_lt_add_left hpos _⟩
  · rw [Monitor.after_snoc, Monitor.after_snoc, h.held]
    rfl
  · exact Monitor.conforms_snoc.mpr ⟨Monitor.conforms_snoc.mpr ⟨h.delivers hp, trivial⟩, trivial⟩
  · have hstream := h.stream hp
    have hbytes : Driver.unreported
        { d with currentPos := d.currentPos + 1, hardwareBytes := d.hardwareBytes + 1 }
        (Function.update e.memory (d.currentBuf + d.currentPos) ((v &&& dataMask).setWidth 8)) =
          d.unreported e.memory ++ [(v &&& dataMask).setWidth 8] := by
      rw [Driver.unreported, Driver.unreported]
      dsimp only
      rw [Nat.sub_add_comm hreported, Memory.bytes_succ,
        show d.currentBuf + d.reported + (d.currentPos - d.reported) =
          d.currentBuf + d.currentPos by omega, Function.update_self]
      refine congrArg (· ++ _) (Memory.bytes_congr fun i hi => ?_)
      exact Function.update_of_ne (by omega) _ _
    rw [Monitor.after_snoc, Monitor.after_snoc, hbytes, ← List.append_assoc]
    exact congrArg (· ++ [(v &&& dataMask).setWidth 8]) hstream

theorem receive_safe {d : Driver} {e : Env} (h : Receiving mayWrite d e)
    (hpos : d.currentPos < d.currentLen) :
    Safe (client mayWrite) (Arrives mayWrite) C (receive dev d) t e := by
  unfold receive
  refine safe_readState fun status t => ?_
  have h : Receiving mayWrite d (e.record [.stateRead status]) :=
    h.show trivial rfl fun _ => ⟨rfl, trivial⟩
  split
  · refine finishRx_safe ?_ uartErrorOverrun
    exact h.congr h.running rfl
  split
  · exact .inr ⟨h, hpos⟩
  refine safe_receive fun v t => ?_
  have h := h.receive hpos v
  dsimp only
  split
  · next hmore => exact .inr ⟨h, hmore⟩
  refine reportCurrent_safe h fun d' e' t h' hrep _ _ _ => ?_
  split
  · exact finishRx_safe h' 0
  · next hgo => exact swapBuffers_safe h' (fun hn => hgo (.inr hn)) hrep

/-- Wherever the routine is interrupted by its callbacks, and whatever they do, it arrives in the
invariant. -/
theorem lab20UartIsr_safe {d : Driver} {e : Env} (h : Settled mayWrite d e) :
    Safe (client mayWrite) (Arrives mayWrite) C (lab20UartIsr dev d) t e := by
  unfold lab20UartIsr
  dsimp only
  rcases h with h | ⟨h, hpos⟩
  · have hactive : d.state ≠ .active := by simp [h.idle]
    rw [if_neg (by simp [h.idle]), if_pos hactive]
    exact .inl ⟨h.idle, h.empty, h.owns, h.held, h.delivers, h.stream⟩
  have h1 : Receiving mayWrite
      { d with irqEntries := d.irqEntries + 1, intclear := intRx } e := h.congr h.running rfl
  split
  · exact finishRx_safe h1 0
  split
  · exact .inr ⟨h1, hpos⟩
  split
  · refine requestBuffer_safe (h.congr h.running rfl) fun d3 e3 t h3 hp hl => ?_
    split
    · exact finishRx_safe h3 0
    · exact receive_safe h3 (by rw [hp, hl]; exact hpos)
  · exact receive_safe h1 hpos

end Rules

end CortexLabs.Uart
