import CortexLabs.Uart.Client

/-! The invariant of the driver.  While a session is open, the buffers that the driver holds are
those in its fields, and the bytes delivered and those in the current buffer that have not been
reported are the bytes that were read.  Whatever a client does keeps it, so it holds wherever an
event is emitted. -/

namespace CortexLabs.Uart

open Device Relation

/-- Clients do not write into the buffers that the driver holds. -/
def Polite (mayWrite : Env → Nat → Prop) : Prop := ∀ e a, mayWrite e a →
  ∀ held, ownership.after e.trace = some held → ∀ h ∈ held, ¬h.Contains a

def Driver.held (d : Driver) : List Span :=
  ⟨d.currentBuf, d.currentLen⟩ :: if d.nextBuf = null then [] else [⟨d.nextBuf, d.nextLen⟩]

/-- The bytes of the current buffer that have not been reported. -/
def Driver.unreported (d : Driver) (m : Memory) : List Byte :=
  m.bytes (d.currentBuf + d.reported) (d.currentPos - d.reported)

variable {mayWrite : Env → Nat → Prop}

/-- A session is open, with the buffers in the driver's fields. -/
structure Receiving (mayWrite : Env → Nat → Prop) (d : Driver) (e : Env) : Prop where
  running : d.state ≠ .idle
  callback : d.callback ≠ null
  current : d.currentBuf ≠ null
  nextLen : d.nextBuf ≠ null → 0 < d.nextLen
  reported : d.reported ≤ d.currentPos
  filled : d.currentPos ≤ d.currentLen
  owns : ownership.Conforms e.trace
  held : ownership.after e.trace = some d.held
  delivers : Polite mayWrite → delivery.Conforms e.trace
  stream : Polite mayWrite →
    (delivery.after e.trace).1 ++ d.unreported e.memory = (delivery.after e.trace).2

/-- No session is open. -/
structure Closed (mayWrite : Env → Nat → Prop) (d : Driver) (e : Env) : Prop where
  idle : d.state = .idle
  empty : d.currentPos = 0 ∧ d.reported = 0
  owns : ownership.Conforms e.trace
  held : ownership.after e.trace = none
  delivers : Polite mayWrite → delivery.Conforms e.trace
  stream : Polite mayWrite → (delivery.after e.trace).1 = (delivery.after e.trace).2

def Settled (mayWrite : Env → Nat → Prop) (d : Driver) (e : Env) : Prop :=
  Closed mayWrite d e ∨ (Receiving mayWrite d e ∧ d.currentPos < d.currentLen)

/-- The fields that `Receiving` is about, except the state. -/
def Driver.reception (d : Driver) : Nat × Nat × Nat × Nat × Nat × Nat × Nat :=
  (d.callback, d.currentBuf, d.currentLen, d.currentPos, d.reported, d.nextBuf, d.nextLen)

theorem Receiving.congr {d d' : Driver} {e : Env} (h : Receiving mayWrite d e)
    (hrun : d'.state ≠ .idle) (heq : d'.reception = d.reception) : Receiving mayWrite d' e := by
  obtain ⟨-, h1, h2, h3, h4, h5, h6, h7, h8, h9⟩ := h
  simp only [Driver.reception, Prod.mk.injEq] at heq
  obtain ⟨e1, e2, e3, e4, e5, e6, e7⟩ := heq
  refine ⟨hrun, ?_, ?_, ?_, ?_, ?_, h6, ?_, h8, ?_⟩
  · rwa [e1]
  · rwa [e2]
  · rwa [e6, e7]
  · rwa [e4, e5]
  · rwa [e3, e4]
  · rw [h7, Driver.held, Driver.held, e2, e3, e6, e7]
  · rwa [Driver.unreported, e2, e4, e5]

/-- What a client cannot change while a session is open. -/
structure SameCurrent (d d' : Driver) : Prop where
  callback : d'.callback = d.callback
  currentBuf : d'.currentBuf = d.currentBuf
  currentLen : d'.currentLen = d.currentLen
  currentPos : d'.currentPos = d.currentPos
  reported : d'.reported = d.reported

theorem SameCurrent.refl (d : Driver) : SameCurrent d d := ⟨rfl, rfl, rfl, rfl, rfl⟩

theorem SameCurrent.trans {d d' d'' : Driver} (h : SameCurrent d d') (h' : SameCurrent d' d'') :
    SameCurrent d d'' :=
  ⟨h'.callback.trans h.callback, h'.currentBuf.trans h.currentBuf,
    h'.currentLen.trans h.currentLen, h'.currentPos.trans h.currentPos,
    h'.reported.trans h.reported⟩

/-! ### Steps of the clients -/

theorem Receiving.mem_held {d : Driver} {e : Env} (h : Receiving mayWrite d e) {a : Nat}
    (h1 : d.currentBuf ≤ a) (h2 : a < d.currentBuf + d.currentLen) (e' : Env)
    (hp : Polite mayWrite) (hm : mayWrite e a) : e'.memory a = e.memory a :=
  absurd ⟨h1, h2⟩ (hp e a hm _ h.held ⟨d.currentBuf, d.currentLen⟩ List.mem_cons_self)

/-- Writes of polite clients leave the unreported bytes alone. -/
theorem Receiving.unreported_eq {d : Driver} {e e' : Env} (h : Receiving mayWrite d e)
    (hp : Polite mayWrite) (hm : ∀ a, e'.memory a ≠ e.memory a → mayWrite e a) :
    d.unreported e'.memory = d.unreported e.memory := by
  have hreported := h.reported
  have hfilled := h.filled
  refine Memory.bytes_congr fun i hi => ?_
  by_contra hne
  exact hne (h.mem_held (by omega) (by omega) e' hp (hm _ hne))

theorem Receiving.effect {d d' : Driver} {e e' : Env} (h : Receiving mayWrite d e)
    (he : Effect mayWrite (d, e) (d', e')) :
    Receiving mayWrite d' e' ∧ SameCurrent d d' ∧ (d.state = .stopping → d' = d) := by
  have hrun := h.running
  cases he with
  | quiet ht hm =>
    refine ⟨{ h with owns := ?_, held := ?_, delivers := ?_, stream := fun hp => ?_ }, .refl d,
      fun _ => rfl⟩
    · rw [ht]
      exact h.owns
    · rw [ht]
      exact h.held
    · rw [ht]
      exact h.delivers
    · rw [ht, h.unreported_eq hp hm]
      exact h.stream hp
  | callbackSet hidle => exact absurd hidle hrun
  | enable hidle => exact absurd hidle hrun
  | supply hactive hnext hbuf hlen hdis =>
    have hheld : d.held = [⟨d.currentBuf, d.currentLen⟩] := by
      rw [Driver.held, if_pos hnext]
    refine ⟨{ h with owns := ?_, held := ?_, nextLen := fun _ => hlen, delivers := fun hp => ?_,
                     stream := fun hp => ?_ }, ⟨rfl, rfl, rfl, rfl, rfl⟩, ?_⟩
    · refine Monitor.conforms_snoc.mpr ⟨h.owns, d.held, h.held, ?_⟩
      rw [hheld, List.forall_mem_singleton]
      exact hdis
    · rw [Env.record_trace, Monitor.after_snoc, h.held, hheld, Driver.held, if_neg hbuf]
      rfl
    · exact Monitor.conforms_snoc.mpr ⟨h.delivers hp, trivial⟩
    · rw [Env.record_trace, Monitor.after_snoc]
      exact h.stream hp
    · intro hstop
      rw [hactive] at hstop
      cases hstop
  | stop hactive =>
    refine ⟨{ h with running := nofun, owns := ?_, held := ?_, delivers := fun hp => ?_,
                     stream := fun hp => ?_ }, ⟨rfl, rfl, rfl, rfl, rfl⟩, ?_⟩
    · exact Monitor.conforms_snoc.mpr ⟨h.owns, trivial⟩
    · rw [Env.record_trace, Monitor.after_snoc, h.held]
      rfl
    · exact Monitor.conforms_snoc.mpr ⟨h.delivers hp, trivial⟩
    · rw [Env.record_trace, Monitor.after_snoc]
      exact h.stream hp
    · intro hstop
      rw [hactive] at hstop
      cases hstop

/-- However many steps the clients take, a session that is open stays open, with the same current
buffer, and one that is stopping does not change at all. -/
theorem Receiving.clients {s s' : Driver × Env} (h : Receiving mayWrite s.1 s.2)
    (hc : ClientSteps mayWrite s s') :
    Receiving mayWrite s'.1 s'.2 ∧ SameCurrent s.1 s'.1 ∧ (s.1.state = .stopping → s'.1 = s.1) := by
  induction hc with
  | refl => exact ⟨h, .refl _, fun _ => rfl⟩
  | tail _ hs ih =>
    obtain ⟨h1, hsame, hstop⟩ := ih
    obtain ⟨h2, hsame2, hstop2⟩ := h1.effect hs.effect
    refine ⟨h2, hsame.trans hsame2, fun hst => ?_⟩
    rw [hstop2 (by rw [hstop hst, hst]), hstop hst]

theorem stopping_clients {s s' : Driver × Env} (h : s.1.state = .stopping)
    (hc : ClientSteps mayWrite s s') : s'.1 = s.1 ∧ s'.2.trace = s.2.trace := by
  induction hc with
  | refl => exact ⟨rfl, rfl⟩
  | @tail s1 s2 _ hs ih =>
    obtain ⟨hd, ht⟩ := ih
    have hstop : s1.1.state = .stopping := by rw [hd, h]
    cases hs.effect with
    | quiet ht2 _ => exact ⟨hd, ht2.trans ht⟩
    | callbackSet hidle => cases hstop.symm.trans hidle
    | enable hidle => cases hstop.symm.trans hidle
    | supply hactive => cases hstop.symm.trans hactive
    | stop hactive => cases hstop.symm.trans hactive

theorem Closed.effect {d d' : Driver} {e e' : Env} (h : Closed mayWrite d e)
    (he : Effect mayWrite (d, e) (d', e')) : Settled mayWrite d' e' := by
  cases he with
  | quiet ht hm =>
    refine .inl { h with owns := ?_, held := ?_, delivers := ?_, stream := ?_ }
    · rw [ht]
      exact h.owns
    · rw [ht]
      exact h.held
    · rw [ht]
      exact h.delivers
    · rw [ht]
      exact h.stream
  | callbackSet hidle => exact .inl ⟨hidle, h.empty, h.owns, h.held, h.delivers, h.stream⟩
  | enable hidle hcb hbuf hlen =>
    refine .inr ⟨⟨nofun, hcb, hbuf, fun hn => absurd rfl hn, Nat.le_refl _, Nat.zero_le _, ?_, ?_,
      fun hp => ?_, fun hp => ?_⟩, hlen⟩
    · exact Monitor.conforms_snoc.mpr ⟨h.owns, h.held⟩
    · rw [Env.record_trace, Monitor.after_snoc, h.held]
      rfl
    · exact Monitor.conforms_snoc.mpr ⟨h.delivers hp, trivial⟩
    · rw [Env.record_trace, Monitor.after_snoc]
      exact (List.append_nil _).trans (h.stream hp)
  | supply hactive => cases hactive.symm.trans h.idle
  | stop hactive => cases hactive.symm.trans h.idle

theorem Settled.effect {d d' : Driver} {e e' : Env} (h : Settled mayWrite d e)
    (he : Effect mayWrite (d, e) (d', e')) : Settled mayWrite d' e' := by
  rcases h with h | ⟨h, hpos⟩
  · exact h.effect he
  · obtain ⟨h', hsame, -⟩ := h.effect he
    exact .inr ⟨h', by rw [hsame.currentPos, hsame.currentLen]; exact hpos⟩

theorem Settled.clients {s s' : Driver × Env} (h : Settled mayWrite s.1 s.2)
    (hc : ClientSteps mayWrite s s') : Settled mayWrite s'.1 s'.2 := by
  have hstep : ∀ s s' : Driver × Env, Settled mayWrite s.1 s.2 → ClientStep mayWrite s s' →
      Settled mayWrite s'.1 s'.2 := fun _ _ h hs => h.effect hs.effect
  exact run_invariant hstep hc h

end CortexLabs.Uart
