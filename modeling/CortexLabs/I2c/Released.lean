import CortexLabs.I2c.Lines

/-! The master never leaves the bus driven.  Whatever the bus shows it, and wherever a call gives
up, the last thing that it does to each line is to release it; a transfer keeps the bus only when
its last message asks for that. -/

namespace CortexLabs.I2c

open Device

/-- A bus of which nothing is known: every read may return anything.  The state is the outputs of
the master. -/
abbrev anyBus (pins : Pins) : Behavior Op Ans where
  State := Lines
  answer out o _ out' := out' = out.write pins o
  torn _ _ _ := False

variable {pins : Pins} {bus : Mps2I2cBus} {out : Lines}

section Steps

variable {Q : Unit → Lines → Prop} {R : Bool → Lines → Prop}

theorem wp_anyBus_controls {mask : Word} : wp (anyBus pins) Q (writeControls mask) out ↔
    Q () (out.write pins (.controls mask)) := by
  constructor
  · intro h
    exact h () _ rfl
  · rintro h _ _ rfl
    exact h

theorem wp_anyBus_controlc {mask : Word} : wp (anyBus pins) Q (writeControlc mask) out ↔
    Q () (out.write pins (.controlc mask)) := by
  constructor
  · intro h
    exact h () _ rfl
  · rintro h _ _ rfl
    exact h

theorem wp_sdaRelease : wp (anyBus pins) Q (sdaRelease pins) out ↔ Q () ⟨true, out.scl⟩ := by
  rw [sdaRelease, wp_anyBus_controls, Lines.write_controls_sda]

theorem wp_sclRelease : wp (anyBus pins) Q (sclRelease pins) out ↔ Q () ⟨out.sda, true⟩ := by
  rw [sclRelease, wp_anyBus_controls, Lines.write_controls_scl]

theorem wp_sdaDriveLow : wp (anyBus pins) Q (sdaDriveLow pins) out ↔ Q () ⟨false, out.scl⟩ := by
  rw [sdaDriveLow, wp_anyBus_controlc, Lines.write_controlc_sda]

theorem wp_sclDriveLow : wp (anyBus pins) Q (sclDriveLow pins) out ↔ Q () ⟨out.sda, false⟩ := by
  rw [sclDriveLow, wp_anyBus_controlc, Lines.write_controlc_scl]

theorem wp_busRelease : wp (anyBus pins) Q (busRelease pins) out ↔ Q () .released :=
  wp_bind.trans (wp_sdaRelease.trans wp_sclRelease)

theorem wp_look {look : Word → Bool} (h : ∀ b, R b out) :
    wp (anyBus pins) R (do let control ← readControl; return look control) out := by
  rintro control _ rfl
  exact h (look control)

end Steps

/-- Waiting for the clock releases it, also when the wait is given up. -/
theorem waitSclHigh_releases :
    wp (anyBus pins) (fun _ out' => out' = ⟨out.sda, true⟩) (waitSclHigh pins bus) out := by
  have hpoll : ∀ n out, wp (anyBus pins) (fun _ out' => out' = out) (pollScl pins n) out := by
    intro n
    induction n with
    | zero => exact fun _ => rfl
    | succ n ih =>
      intro out
      refine wp_bind.mpr (wp_look fun high => ?_)
      cases high
      · exact ih out
      · rfl
  exact wp_bind.mpr (wp_sclRelease.mpr (hpoll _ _))

/-- A start that fails leaves both lines released. -/
theorem generateStart_releases :
    wp (anyBus pins) (fun result out' => result ≠ mps2I2cOk → out' = .released)
      (generateStart pins bus) out := by
  refine wp_bind.mpr (wp_sdaRelease.mpr (wp_seq waitSclHigh_releases ?_))
  rintro result _ rfl
  split
  · exact fun _ => rfl
  · refine wp_bind.mpr (wp_look fun high => ?_)
    cases high
    · exact fun _ => rfl
    · exact wp_bind.mpr (wp_sdaDriveLow.mpr (wp_bind.mpr (wp_sclDriveLow.mpr fun h => absurd rfl h)))

/-- A stop releases both lines, also when the clock is held low. -/
theorem generateStop_releases :
    wp (anyBus pins) (fun _ out' => out' = .released) (generateStop pins bus) out := by
  refine wp_bind.mpr (wp_sclDriveLow.mpr (wp_bind.mpr (wp_sdaDriveLow.mpr ?_)))
  refine wp_seq waitSclHigh_releases ?_
  rintro result _ rfl
  refine wp_bind.mpr (wp_sdaRelease.mpr ?_)
  split
  · rfl
  · refine wp_bind.mpr (wp_look fun idle => ?_)
    rfl

/-- Any program may come before one that leaves the lines right from any state. -/
theorem wp_after {α β : Type} {R : β → Lines → Prop} {p : I2cProgram α} {f : α → I2cProgram β}
    (h : ∀ a out, wp (anyBus pins) R (f a) out) : wp (anyBus pins) R (p >>= f) out := by
  have htrue : wp (anyBus pins) (fun _ _ => True) p out := by
    induction p generalizing out with
    | ret a => trivial
    | call o k ih => exact fun r out' _ => ih r
  exact wp_seq htrue fun a out _ => h a out

theorem stopOnError_releases {result : Int} :
    wp (anyBus pins) (fun _ out' => out' = .released) (stopOnError pins bus result) out :=
  wp_seq generateStop_releases fun _ _ h => h

/-- A message that fails, or asks for a stop, leaves both lines released. -/
theorem transferMessage_releases {targetAddr : Byte} {active : Bool} {message : Mps2I2cMsg} :
    wp (anyBus pins)
      (fun r out' => r.1 ≠ mps2I2cOk ∨ hasStop message = true → out' = .released)
      (transferMessage pins bus targetAddr active message) out := by
  have hstop : ∀ {result : Int} {out : Lines}, wp (anyBus pins)
      (fun r out' => r.1 ≠ mps2I2cOk ∨ hasStop message = true → out' = .released)
      (stopOnError pins bus result) out :=
    wp_mono stopOnError_releases fun _ _ h _ => h
  have hstart : wp (anyBus pins) (fun result out' => result ≠ mps2I2cOk → out' = .released)
      (if active then generateRestart pins bus else generateStart pins bus) out := by
    split
    · exact generateStart_releases
    · exact generateStart_releases
  refine wp_seq hstart ?_
  intro result out' hreleased
  split
  · next hresult =>
    split
    · exact hstop
    · exact fun _ => hreleased hresult
  · refine wp_after fun result out => ?_
    split
    · exact hstop
    · apply wp_after
      rintro ⟨result, -⟩ out
      dsimp only
      split
      · exact hstop
      · split
        · exact wp_seq generateStop_releases fun _ _ h _ => h
        · next hnone => exact fun h => absurd h (by simp [hnone])

/-- After a transfer that fails, or whose last message asks for a stop, both lines are released. -/
theorem transferMessages_releases {targetAddr : Byte} {messages : List Mps2I2cMsg}
    (hlast : ∃ last, messages.getLast? = some last ∧ hasStop last = true) {active : Bool} :
    wp (anyBus pins) (fun _ out' => out' = .released)
      (forEachM (transferMessage pins bus targetAddr) active messages) out := by
  obtain ⟨last, hlast, hstop⟩ := hlast
  refine wp_forEachM
    (I := fun done _ out => ∀ m, done.getLast? = some m → hasStop m = true → out = Lines.released)
    (fun m hm => by cases hm) ?_ ?_
  · intro done message rest active out hxs _
    refine wp_mono transferMessage_releases fun r out' h => ⟨fun hr => h (.inl hr), ?_⟩
    intro _ m hm hmstop
    rw [List.getLast?_concat] at hm
    obtain rfl := Option.some.inj hm
    exact h (.inr hmstop)
  · intro _ out h
    exact h last hlast hstop

/-- The pulses of a recovery end with the clock low only when they have not failed. -/
theorem recoverPulses_releases (hsda : out.sda = true) (n : Nat) :
    wp (anyBus pins) (fun result out' => result ≠ mps2I2cOk → out' = .released)
      (recoverPulses pins bus n) out := by
  induction n generalizing out with
  | zero => exact fun h => absurd rfl h
  | succ n ih =>
    refine wp_bind.mpr (wp_sclDriveLow.mpr (wp_seq waitSclHigh_releases ?_))
    rintro result _ rfl
    split
    · exact fun _ => by rw [hsda]; rfl
    · refine wp_bind.mpr (wp_look fun high => ?_)
      cases high
      · exact ih hsda
      · exact fun h => absurd rfl h

/-! ### Calls -/

inductive Call where
  | init (bus : Option Mps2I2cBus)
  | probe (bus : Option Mps2I2cBus) (targetAddr : Byte)
  | recoverBus (bus : Option Mps2I2cBus)
  | transfer (bus : Option Mps2I2cBus) (messages : Option (List Mps2I2cMsg)) (targetAddr : Byte)

namespace Call

def program (pins : Pins) : Call → I2cProgram Int
  | init bus => mps2I2cInit pins bus
  | probe bus targetAddr => mps2I2cProbe pins bus targetAddr
  | recoverBus bus => mps2I2cRecoverBus pins bus
  | transfer bus messages targetAddr => mps2I2cTransfer pins bus messages targetAddr

/-- A call that does not ask to keep the bus: a transfer is rejected or its last message asks for a
stop. -/
def Ends : Call → Prop
  | init _ | probe _ _ | recoverBus _ => True
  | transfer bus messages targetAddr =>
    (∃ status, checkTransfer bus messages targetAddr = .error status) ∨
    ∃ list last, messages = some list ∧ list.getLast? = some last ∧ hasStop last = true

end Call

section Calls

variable {start : Option Mps2I2cBus}

theorem recoverBus_releases :
    wp (anyBus pins) (fun _ out' => out = Lines.released → out' = Lines.released)
      (mps2I2cRecoverBus pins start) out := by
  unfold mps2I2cRecoverBus
  split
  · exact fun h => h
  · refine wp_bind.mpr (wp_sdaRelease.mpr (wp_seq waitSclHigh_releases ?_))
    rintro result _ rfl
    split
    · exact fun _ => rfl
    · refine wp_bind.mpr (wp_look fun high => ?_)
      cases high
      · refine wp_seq (recoverPulses_releases rfl 9) fun result out' h => ?_
        split
        · next hresult => exact fun _ => h hresult
        · exact wp_mono generateStop_releases fun _ _ h _ => h
      · exact fun _ => rfl

theorem init_releases :
    wp (anyBus pins) (fun _ out' => out = Lines.released → out' = Lines.released)
      (mps2I2cInit pins start) out := by
  unfold mps2I2cInit
  split
  · exact fun h => h
  · refine wp_bind.mpr (wp_busRelease.mpr (wp_bind.mpr (wp_look fun idle => ?_)))
    cases idle
    · exact wp_mono recoverBus_releases fun _ _ h _ => h rfl
    · exact fun _ => rfl

theorem probe_releases {targetAddr : Byte} :
    wp (anyBus pins) (fun _ out' => out = Lines.released → out' = Lines.released)
      (mps2I2cProbe pins start targetAddr) out := by
  unfold mps2I2cProbe
  split
  · exact fun h => h
  · split
    · exact fun h => h
    · refine wp_seq generateStart_releases fun result out' h => ?_
      split
      · next hresult => exact fun _ => h hresult
      · refine wp_after fun result out => wp_seq generateStop_releases ?_
        rintro stopResult _ rfl
        split
        · exact fun _ => rfl
        · exact fun _ => rfl

theorem transfer_releases {messages : Option (List Mps2I2cMsg)} {targetAddr : Byte}
    (hends : (Call.transfer start messages targetAddr).Ends) :
    wp (anyBus pins) (fun _ out' => out = Lines.released → out' = Lines.released)
      (mps2I2cTransfer pins start messages targetAddr) out := by
  unfold mps2I2cTransfer
  split
  · exact fun h => h
  · next valid list hcheck =>
    obtain ⟨-, hmessages, -⟩ := checkTransfer_ok.mp hcheck
    rcases hends with ⟨status, hrejected⟩ | ⟨list', last, hlist, hlast, hstop⟩
    · rw [hcheck] at hrejected
      cases hrejected
    · rw [hmessages] at hlist
      cases hlist
      exact wp_seq (transferMessages_releases ⟨last, hlast, hstop⟩) fun _ _ h _ => h

end Calls

/-- Whatever the bus does, a call that starts with both lines released ends so. -/
theorem call_releases (pins : Pins) {call : Call} (hends : call.Ends)
    {t : List (Event (anyBus pins))} {result : Int} {out' : Lines}
    (h : Exec (anyBus pins) (call.program pins) Lines.released t (some result) out') :
    out' = .released :=
  match call with
  | .init _ => wp_sound init_releases h rfl
  | .probe _ _ => wp_sound probe_releases h rfl
  | .recoverBus _ => wp_sound recoverBus_releases h rfl
  | .transfer _ _ _ => wp_sound (transfer_releases hends) h rfl

/-- A bus on which SCL is held low as long as the master drives SDA low. -/
def stuckBus (o : Op) (out : Lines) : Ans o × Lines :=
  (match o with
    | .control => if out.sda then 3 else 2
    | .load _ => 0
    | .controls _ | .controlc _ | .store _ _ => (), out.write lowPins o)

def stuckCall : Call := .transfer (some ⟨some 0, 1, 3⟩) (some [⟨some 0, 1, mps2I2cMsgStop⟩]) 0x50

theorem stuckCall_ends : stuckCall.Ends := .inr ⟨_, _, rfl, rfl, by decide⟩

/-- The write gives up in the second bit of the address, with SDA low, and its stop fails too. -/
theorem call_releases_stuck :
    (stuckCall.program lowPins).run stuckBus Lines.released = (mps2I2cErrTimeout, .released) := by
  obtain ⟨t, ht⟩ := Handles.exec (D := anyBus lowPins) (h := stuckBus) (fun _ _ => rfl)
    (stuckCall.program lowPins) Lines.released
  exact Prod.ext (by decide +kernel) (call_releases lowPins stuckCall_ends ht)

end CortexLabs.I2c
