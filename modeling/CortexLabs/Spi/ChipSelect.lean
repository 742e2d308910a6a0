import CortexLabs.Device.Footprint
import CortexLabs.Spi.Transfer

/-! Chip select outside transfers.  A transfer leaves it inactive, but `spi_bitbang_init` ends by
selecting the slave. -/

namespace CortexLabs.Spi

open Device

variable {bus : SpiBitbangBus} {w w' : Wire} {log : List (Call × Int)}

/-- The states of a session in which no transfer is executing, with the calls that have returned:
those between two calls, and those in which a call of `spi_bitbang_init` has yet to do `rest`. -/
inductive Outside (bus : SpiBitbangBus) : List (Call × Int) → Wire → Prop
  | between {log : List (Call × Int)} {w : Wire} : Session bus log w → Outside bus log w
  | during {log : List (Call × Int)} {w w' : Wire} {given : Option SpiBitbangBus} {rc : Int}
      {done rest : List (Event spiWires)} : Session bus log w → (∀ b ∈ given, b = bus) →
      Exec spiWires (spiBitbangInit given) w (done ++ rest) (some rc) w' → rest ≠ [] →
      Outside bus log (reached w done)

/-- Until it selects the slave, `spi_bitbang_init` on a bus whose SCLK is idle moves neither SCLK
nor CS. -/
theorem init_before_select {given : Option SpiBitbangBus} (hbus : ∀ b ∈ given, b = bus)
    (hidle : w.sclk = sclkIdle bus) {done rest : List (Event spiWires)} {rc : Int}
    (he : Exec spiWires (spiBitbangInit given) w (done ++ rest) (some rc) w') (hrest : rest ≠ []) :
    (reached w done).sclk = w.sclk ∧ (reached w done).cs = w.cs := by
  rcases hgiven : initBus given with _ | valid
  · rw [spiBitbangInit_invalid hgiven] at he
    obtain ⟨hnil, _, _⟩ := he.of_ret
    exact absurd (List.append_eq_nil_iff.mp hnil).2 hrest
  · obtain rfl : valid = bus := hbus valid (Option.eq_some_of_filter_eq_some hgiven)
    rw [spiBitbangInit, hgiven] at he
    obtain ⟨_, w1, t1, h1, ht, he1⟩ := he.of_call
    obtain ⟨_, w2, t2, h2, ht1, he2⟩ := he1.of_call
    obtain ⟨_, w3, t3, _, ht2, he3⟩ := he2.of_call
    obtain ⟨ht3, _, _⟩ := he3.of_ret
    rw [ht1, ht2, ht3] at ht
    have hw1 : w1 = w := by
      rw [h1, Wire.setSclk, idleLevel_eq, ← hidle, if_pos rfl]
    subst hw1
    rcases done with _ | ⟨e1, _ | ⟨e2, _ | ⟨e3, done⟩⟩⟩
    · exact ⟨rfl, rfl⟩
    · cases ht
      exact ⟨rfl, rfl⟩
    · cases ht
      rw [h2]
      exact ⟨rfl, rfl⟩
    · have hlen := congrArg List.length ht
      simp only [List.cons_append, List.length_cons, List.length_append, List.length_nil] at hlen
      exact absurd (List.eq_nil_of_length_eq_zero (by omega)) hrest

/-- Outside transfers, chip select is inactive and SCLK idle exactly when the last call that
was accepted is a transfer. -/
theorem chipSelect_outside (h : Outside bus log w) :
    w.cs = csDeselected bus ∧ w.sclk = sclkIdle bus ↔
      ∃ c, lastAccepted log = some c ∧ c.isTransfer := by
  have hlines : w.sclk = sclkIdle bus ∧ ∃ c, lastAccepted log = some c ∧
      w.cs = (if c.isTransfer then csDeselected bus else csSelected bus) := by
    cases h with
    | between hsession => exact hsession.lines
    | during hsession hbus he hrest =>
      obtain ⟨hidle, c, hlast, hcs⟩ := hsession.lines
      obtain ⟨hsclk, hsame⟩ := init_before_select hbus hidle he hrest
      exact ⟨hsclk.trans hidle, c, hlast, hsame.trans hcs⟩
  obtain ⟨hidle, c, hlast, hcs⟩ := hlines
  rw [hcs, hlast]
  constructor
  · rintro ⟨hinactive, _⟩
    refine ⟨c, rfl, ?_⟩
    by_contra hinit
    rw [if_neg hinit] at hinactive
    exact csSelected_ne_csDeselected bus hinactive
  · rintro ⟨_, hc, htransfer⟩
    cases hc
    exact ⟨if_pos htransfer, hidle⟩

theorem chipSelect_outside_transferred : ∃ log w, log.length = 2 ∧ Session mode3Bus log w ∧
    (w.cs = csDeselected mode3Bus ∧ w.sclk = sclkIdle mode3Bus ↔
      ∃ c, lastAccepted log = some c ∧ c.isTransfer) := by
  obtain ⟨t, ht⟩ := (steadyMiso_handles 1).exec (spiBitbangInit (some mode3Bus))
    ⟨0, 0, 1, [], fun _ => 0⟩
  obtain ⟨u, hu⟩ := (steadyMiso_handles 1).exec
    (spiBitbangTransfer (some mode3Bus) none (some 0x20) 2) _
  have hsession : Session mode3Bus _ _ :=
    .call (c := .transfer (some mode3Bus) none (some 0x20) 2) (.init ht)
      (fun b hb => (Option.some.inj hb).symm) hu
  exact ⟨_, _, rfl, hsession, chipSelect_outside (.between hsession)⟩

/-- After a successful `spi_bitbang_init`, and before any transfer, the slave is selected. -/
theorem chipSelect_after_init : ∃ w, Session mode3Bus [(.init (some mode3Bus), spiOk)] w ∧
    w.cs ≠ csDeselected mode3Bus := by
  obtain ⟨t, ht⟩ := (steadyMiso_handles 1).exec (spiBitbangInit (some mode3Bus))
    ⟨0, 0, 1, [], fun _ => 0⟩
  exact ⟨_, .init ht, by decide⟩

end CortexLabs.Spi
