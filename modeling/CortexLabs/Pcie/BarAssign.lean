import CortexLabs.Device.Run
import CortexLabs.Pcie.Allocation
import CortexLabs.Pcie.BarProbe

/-! The assignment of bus addresses to base address registers.  What is programmed has the flags of
the register below the address, which are two bits for ports and four for memory; the simulated
host keeps four bits in either case, so that the lowest address bits of ports are lost. -/

namespace CortexLabs.Pcie.Resource

open Device Relation

/-- `lab_pcie_assign_bar32`, with 0 for a variable that has not been stored into. -/
def labPcieAssignBar32 {σ : Type} (host : Option (LabPcieHost σ)) (bdf : Word)
    (window : Option (Window 32)) (bar : Option LabPcieBarResource) :
    Int × Option (LabPcieHost σ) × Option (Window 32) × Option LabPcieBarResource :=
  match host, window, bar with
  | some host, some window, some bar =>
    if bar.size = 0 then (errUnsupported, some host, some window, some bar)
    else
      let (result, window, busAddr) :=
        labPcieResourceAlloc (some window) bar.size bar.size (some 0)
      if result ≠ ok then (result, some host, window, some bar)
      else
        let busAddr := busAddr.getD 0
        let (result, cpuAddr) := labPcieResourceTranslate window busAddr (some 0)
        if result ≠ ok then (result, some host, window, some bar)
        else
          let cpuAddr := cpuAddr.getD 0
          let reg := pcieConfBar0 + bar.barIndex
          let programmed :=
            if bar.isIo ≠ 0 then (busAddr &&& ~~~0x3) ||| (bar.original &&& 0x3)
            else (busAddr &&& ~~~0xf) ||| pcieConfBarFlags bar.original
          let (result, host) := labPcieConfigWrite32 (some host) bdf reg programmed
          if result ≠ ok then (result, host, window, some bar)
          else (ok, host, window, some { bar with busAddr, cpuAddr })
  | host, window, bar => (errUnsupported, host, window, bar)

/-! ### Sequences of calls -/

/-- A BAR that is implemented, takes one register and has a power of two as its size. -/
structure Measurable (b : LabPcieSimBar) : Prop where
  implemented : b.implemented ≠ 0
  narrow : ¬Wide b.value
  power : ∃ n, b.size.toNat = 2 ^ n

/-- The controller, the windows, and for each BAR the structure that a probe has filled in. -/
structure BarSystem where
  controller : LabPcieSimController
  windows : Nat → Window 32
  bars : Word → Option LabPcieBarResource

/-- A probe of a BAR of the function at `bdf`, into any structure, or an assignment from one of the
windows to a BAR that has been probed. -/
inductive BarStep (bdf : Word) : BarSystem → BarSystem → Prop
  | probe {s : BarSystem} {fn : Nat} {k : Word} {bar bar' : LabPcieBarResource} {ret : Int}
      {controller : LabPcieSimController} : simFindFunction s.controller bdf = some fn → k < 6 →
      Measurable ((s.controller.functions fn).bars k.toNat) →
      labPcieProbeBar32 (simHost s.controller) bdf k (some bar) =
        (ret, simHost controller, some bar') →
      BarStep bdf s { s with
        controller, bars := Function.update s.bars k (if ret = ok then some bar' else none) }
  | assign {s : BarSystem} {k : Word} {j : Nat} {bar bar' : LabPcieBarResource} {ret : Int}
      {controller : LabPcieSimController} {window : Window 32} : s.bars k = some bar →
      labPcieAssignBar32 (simHost s.controller) bdf (some (s.windows j)) (some bar) =
        (ret, simHost controller, some window, some bar') →
      BarStep bdf s ⟨controller, Function.update s.windows j window,
        Function.update s.bars k (some bar')⟩

/-- A read of the register yields the bus address, and below it the flags that were there first. -/
def ReadsBack (controller : LabPcieSimController) (bdf : Word) (bar : LabPcieBarResource) : Prop :=
  ∃ v, labPcieConfigRead32 (simHost controller) bdf (pcieConfBar0 + bar.barIndex) 0 =
      (ok, v, simHost controller) ∧
    v &&& ~~~flagMask bar.original = bar.busAddr ∧
    v &&& flagMask bar.original = bar.original &&& flagMask bar.original

/-! ### The value programmed -/

section Bits

variable {x v o l f : Word}

theorem flagMask_sub (v : Word) : flagMask v &&& 0xf = flagMask v := by
  rcases flagMask_cases v with ⟨-, hmask⟩ | ⟨-, hmask⟩
  · rw [hmask]
    decide
  · rw [hmask]
    decide

theorem cleared_low : x &&& ~~~(v ||| l) &&& l = 0 := by
  ext i hi
  simp only [BitVec.getElem_and, BitVec.getElem_or, BitVec.getElem_not]
  rw [show (0 : Word)[i] = false from BitVec.getElem_zero hi]
  cases x[i] <;> cases v[i] <;> cases l[i] <;> rfl

theorem masked_of_low (h : x &&& l = 0) : x &&& ~~~l = x := by
  have hself : x &&& ~~~l ||| x &&& l = x := masked_self
  rwa [h, show x &&& ~~~l ||| 0 = x &&& ~~~l from BitVec.or_zero] at hself

/-- What is left of an address that is written above flags `l` and kept above flags `f`. -/
theorem kept_high (h : l &&& f = l) :
    ((x &&& ~~~l ||| o &&& l) &&& ~~~f ||| v &&& f) &&& ~~~l =
      x &&& ~~~f ||| v &&& (f &&& ~~~l) := by
  ext i hi
  have hbit : (l &&& f)[i] = l[i] := by rw [h]
  simp only [BitVec.getElem_and, BitVec.getElem_or, BitVec.getElem_not] at hbit ⊢
  revert hbit
  cases x[i] <;> cases o[i] <;> cases v[i] <;> cases l[i] <;> cases f[i] <;> decide

theorem kept_low (h : l &&& f = l) :
    ((x &&& ~~~l ||| o &&& l) &&& ~~~f ||| v &&& f) &&& l = v &&& l := by
  ext i hi
  have hbit : (l &&& f)[i] = l[i] := by rw [h]
  simp only [BitVec.getElem_and, BitVec.getElem_or, BitVec.getElem_not] at hbit ⊢
  revert hbit
  cases x[i] <;> cases o[i] <;> cases v[i] <;> cases l[i] <;> cases f[i] <;> decide

/-- The address is there as a whole if its bits between both masks are those that are kept. -/
theorem kept_iff (h : l &&& f = l) (hx : x &&& l = 0) :
    ((x &&& ~~~l ||| o &&& l) &&& ~~~f ||| v &&& f) &&& ~~~l = x ↔
      x &&& (f &&& ~~~l) = v &&& (f &&& ~~~l) := by
  rw [kept_high h]
  have hsplit : x &&& ~~~f ||| x &&& (f &&& ~~~l) = x := by
    ext i hi
    have hbit : (l &&& f)[i] = l[i] := by rw [h]
    have hlow : (x &&& l)[i] = false := by
      rw [hx]
      exact BitVec.getElem_zero hi
    simp only [BitVec.getElem_and, BitVec.getElem_or, BitVec.getElem_not] at hbit hlow ⊢
    revert hbit hlow
    cases x[i] <;> cases l[i] <;> cases f[i] <;> decide
  have hbetween : ∀ y : Word, (x &&& ~~~f ||| y &&& (f &&& ~~~l)) &&& (f &&& ~~~l) =
      y &&& (f &&& ~~~l) := by
    intro y
    ext i hi
    simp only [BitVec.getElem_and, BitVec.getElem_or, BitVec.getElem_not]
    cases x[i] <;> cases y[i] <;> cases l[i] <;> cases f[i] <;> decide
  constructor
  · intro heq
    rw [← hbetween v, heq]
  · intro heq
    rw [← heq, hsplit]

end Bits

/-! ### One assignment -/

section Assign

variable {controller controller' : LabPcieSimController} {bdf k : Word} {fn : Nat}
  {bar bar' : LabPcieBarResource} {window window' : Window 32} {b b' : LabPcieSimBar}

/-- The value that is programmed for a bus address. -/
def programmed (bar : LabPcieBarResource) (busAddr : Word) : Word :=
  if bar.isIo ≠ 0 then (busAddr &&& ~~~0x3) ||| (bar.original &&& 0x3)
  else (busAddr &&& ~~~0xf) ||| pcieConfBarFlags bar.original

/-- An assignment that succeeds has allocated and translated an address, and written it. -/
theorem assign_ok {σ : Type} {host host' : Option (LabPcieHost σ)} {w' : Option (Window 32)}
    {r' : Option LabPcieBarResource}
    (h : labPcieAssignBar32 host bdf (some window) (some bar) = (ok, host', w', r')) :
    ∃ start, start = alignUp window.next bar.size ∧
      bar.size ≤ window.pciBase + window.size - start ∧ start ≤ window.pciBase + window.size ∧
      labPcieConfigWrite32 host bdf (pcieConfBar0 + bar.barIndex) (programmed bar start) =
        (ok, host') ∧
      w' = some { window with next := start + bar.size } ∧
      r' = some { bar with
        busAddr := start
        cpuAddr := window.cpuBase + (start - window.pciBase) } := by
  cases host with
  | none => cases h
  | some host =>
    rw [labPcieAssignBar32] at h
    dsimp only at h
    split at h
    · cases h
    rcases alloc_cases window ⟨bar.size, bar.size, some 0⟩ with
      ⟨ret, hret, halloc⟩ | ⟨start, -, hstart, hlo, hhi, hfits, halloc⟩
    · rw [halloc] at h
      dsimp only at h
      rw [if_pos hret] at h
      exact absurd (Prod.mk.inj h).1 hret
    rw [halloc] at h
    dsimp only at h
    rw [if_neg (not_not.mpr rfl), Option.getD_some] at h
    rcases htranslate : labPcieResourceTranslate
      (some { window with next := start + bar.size }) start (some 0) with ⟨ret, cpuAddr⟩
    rw [htranslate] at h
    dsimp only at h
    split at h
    · next hret => exact absurd (Prod.mk.inj h).1 hret
    next hret =>
    obtain rfl := not_not.mp hret
    have hcpu : cpuAddr = some (window.cpuBase + (start - window.pciBase)) := by
      have hvalue := translate_value { window with next := start + bar.size } start 0
        (congrArg Prod.fst htranslate)
      rwa [htranslate] at hvalue
    rw [hcpu, Option.getD_some] at h
    rcases hwrite : labPcieConfigWrite32 (some host) bdf (pcieConfBar0 + bar.barIndex)
      (programmed bar start) with ⟨ret', host1⟩
    unfold programmed at hwrite
    rw [hwrite] at h
    dsimp only at h
    split at h
    · next hret' => exact absurd (Prod.mk.inj h).1 hret'
    next hret' =>
    obtain ⟨-, rfl, rfl, rfl⟩ := h
    refine ⟨start, hstart, hfits, hhi, ?_, rfl, rfl⟩
    rw [programmed, hwrite, not_not.mp hret']

/-- On a host that can be written to, an assignment that fails leaves the host and the structure as
they were. -/
theorem assign_fails {σ : Type} {host host' : Option (LabPcieHost σ)} {w' : Option (Window 32)}
    {r' : Option LabPcieBarResource} {ret : Int}
    (hwrite : ∀ value,
      (labPcieConfigWrite32 host bdf (pcieConfBar0 + bar.barIndex) value).1 = ok)
    (h : labPcieAssignBar32 host bdf (some window) (some bar) = (ret, host', w', r'))
    (hret : ret ≠ ok) : host' = host ∧ r' = some bar := by
  cases host with
  | none =>
    obtain ⟨-, rfl, -, rfl⟩ := h
    exact ⟨rfl, rfl⟩
  | some host =>
    rw [labPcieAssignBar32] at h
    dsimp only at h
    split at h
    · obtain ⟨-, rfl, -, rfl⟩ := h
      exact ⟨rfl, rfl⟩
    split at h
    · obtain ⟨-, rfl, -, rfl⟩ := h
      exact ⟨rfl, rfl⟩
    split at h
    · obtain ⟨-, rfl, -, rfl⟩ := h
      exact ⟨rfl, rfl⟩
    rw [if_neg (not_not.mpr (hwrite _))] at h
    exact absurd (Prod.mk.inj h).1.symm hret

/-- What a probe has found out of BAR `k`. -/
structure Ready (controller : LabPcieSimController) (fn : Nat) (k : Word)
    (bar : LabPcieBarResource) : Prop where
  index : bar.barIndex = k
  range : k < 6
  usable : Measurable ((controller.functions fn).bars k.toNat)
  kind : bar.isIo ≠ 0 ↔ PcieConfBarIo bar.original
  flags : bar.original &&& flagMask ((controller.functions fn).bars k.toNat).value =
    ((controller.functions fn).bars k.toNat).value &&&
      flagMask ((controller.functions fn).bars k.toNat).value
  size : bar.size = shownSize ((controller.functions fn).bars k.toNat)

theorem Ready.flagMask_eq (h : Ready controller fn k bar) :
    flagMask bar.original = flagMask ((controller.functions fn).bars k.toNat).value :=
  (same_kind h.flags).1

theorem Ready.programmed_eq (h : Ready controller fn k bar) (start : Word) :
    programmed bar start = start &&& ~~~flagMask bar.original |||
      bar.original &&& flagMask bar.original := by
  rcases flagMask_cases bar.original with ⟨hio, hmask⟩ | ⟨hmem, hmask⟩
  · rw [programmed, if_pos (h.kind.mpr hio), hmask]
  · have hkind : ¬bar.isIo ≠ 0 := fun hio => hmem (h.kind.mp hio)
    rw [programmed, if_neg hkind, hmask, pcieConfBarFlags]

/-- An address rounded up to the size of a BAR has no flag bits. -/
theorem Ready.start_low (h : Ready controller fn k bar) (next : Word) :
    alignUp next bar.size &&& flagMask bar.original = 0 := by
  rw [h.flagMask_eq, h.size, alignUp, shownSize, BitVec.add_sub_cancel]
  exact cleared_low

/-- The last address is not handed out, so that what is programmed is not all ones. -/
theorem Ready.not_ones (h : Ready controller fn k bar) {start : Word}
    (hlow : start &&& flagMask bar.original = 0)
    (hfits : bar.size ≤ window.pciBase + window.size - start)
    (hlimit : start ≤ window.pciBase + window.size) : programmed bar start ≠ 0xffffffff := by
  intro hones
  rw [h.programmed_eq] at hones
  have hstart : start = ~~~flagMask bar.original := by
    calc start = (start &&& ~~~flagMask bar.original |||
          bar.original &&& flagMask bar.original) &&& ~~~flagMask bar.original := by
            rw [masked_high, masked_of_low hlow]
      _ = ~~~flagMask bar.original := by
            rw [hones]
            exact BitVec.allOnes_and
  obtain ⟨n, hpower⟩ := h.usable.power
  have hsize : (flagMask bar.original).toNat + 1 ≤ bar.size.toNat := by
    rw [h.size, shownSize_toNat hpower, h.flagMask_eq]
    exact Nat.le_max_right _ _
  rw [BitVec.le_def, BitVec.toNat_sub_of_le hlimit, hstart] at hfits
  rw [BitVec.le_def, hstart] at hlimit
  have hlt := (window.pciBase + window.size).isLt
  have hmask := (flagMask bar.original).isLt
  rw [BitVec.toNat_not] at hfits hlimit
  omega

theorem simHost_inj (h : simHost controller = simHost controller') : controller = controller' := by
  cases h
  rfl

/-- The register after an assignment: the value programmed, with the low bits that it had. -/
theorem Ready.assigned (h : Ready controller fn k bar)
    (hfn : simFindFunction controller bdf = some fn)
    (hb : (controller.functions fn).bars k.toNat = b)
    (hassign : labPcieAssignBar32 (simHost controller) bdf (some window) (some bar) =
      (ok, simHost controller', some window', some bar')) :
    controller' = controller.setBar fn k.toNat { b with
        probing := 0
        value := (programmed bar (alignUp window.next bar.size) &&& ~~~0xf) ||| b.value &&& 0xf } ∧
      bar' = { bar with
        busAddr := alignUp window.next bar.size
        cpuAddr := window.cpuBase + (alignUp window.next bar.size - window.pciBase) } := by
  obtain ⟨start, rfl, hfits, hlimit, hwrite, -, hbar⟩ := assign_ok hassign
  have hnot := h.not_ones (h.start_low window.next) hfits hlimit
  have himplemented := h.usable.implemented
  rw [hb] at himplemented
  rw [h.index, write_bar hfn h.range, hb, simBarWrite, if_neg himplemented, if_neg hnot] at hwrite
  exact ⟨(simHost_inj (Prod.mk.inj hwrite).2).symm, Option.some.inj hbar⟩

/-- The address reads back if the BAR is for memory, or its bits that the register keeps are those
that it had. -/
theorem Ready.readsBack_iff (h : Ready controller fn k bar)
    (hfn : simFindFunction controller bdf = some fn)
    (hb : (controller.functions fn).bars k.toNat = b)
    (hassign : labPcieAssignBar32 (simHost controller) bdf (some window) (some bar) =
      (ok, simHost controller', some window', some bar')) :
    ReadsBack controller' bdf bar' ↔
      PcieConfBarMem b.value ∨ alignUp window.next bar.size &&& 0xc = b.value &&& 0xc := by
  obtain ⟨hcontroller, hbar'⟩ := h.assigned hfn hb hassign
  have hkeep := h.flagMask_eq
  have himplemented := h.usable.implemented
  have hflags := h.flags
  rw [hb] at hkeep himplemented hflags
  have hsub := flagMask_sub b.value
  have hfn' : simFindFunction controller' bdf = some fn := by
    rw [hcontroller, simFindFunction_setBar]
    exact hfn
  have hread := read_bar hfn' h.range 0
  rw [hcontroller, bars_setBar, Function.update_self, ← hcontroller, simBarRead,
    if_neg himplemented, if_neg (not_not.mpr rfl), h.programmed_eq, hkeep] at hread
  have hlow := h.start_low window.next
  rw [hkeep] at hlow
  have hbetween : alignUp window.next bar.size &&& (0xf &&& ~~~flagMask b.value) =
      b.value &&& (0xf &&& ~~~flagMask b.value) ↔
      PcieConfBarMem b.value ∨ alignUp window.next bar.size &&& 0xc = b.value &&& 0xc := by
    rcases flagMask_cases b.value with ⟨hio, hmask⟩ | ⟨hmem, hmask⟩
    · rw [hmask, show (0xf &&& ~~~0x3 : Word) = 0xc by decide]
      exact ⟨.inr, fun hor => hor.resolve_left (not_not.mpr hio)⟩
    · rw [hmask, show (0xf &&& ~~~0xf : Word) = 0 by decide]
      exact iff_of_true (BitVec.and_zero.trans BitVec.and_zero.symm) (.inl hmem)
  rw [← hbetween, ← kept_iff hsub hlow, hbar', ReadsBack]
  dsimp only
  rw [h.index, hread, hkeep]
  constructor
  · rintro ⟨v, hv, haddr, -⟩
    obtain ⟨-, rfl, -⟩ := hv
    exact haddr
  · intro haddr
    refine ⟨_, rfl, haddr, ?_⟩
    rw [kept_low hsub]
    exact hflags.symm

end Assign

/-! ### Runs -/

/-- A register with the same size and flags. -/
structure SameShape (b b' : LabPcieSimBar) : Prop where
  implemented : b'.implemented = b.implemented
  size : b'.size = b.size
  flags : b'.value &&& 0xf = b.value &&& 0xf

theorem simBarWrite_shape (b : LabPcieSimBar) (value : Word) :
    SameShape b (simBarWrite b value) := by
  rw [simBarWrite]
  split
  · exact ⟨rfl, rfl, rfl⟩
  split
  · exact ⟨rfl, rfl, rfl⟩
  · exact ⟨rfl, rfl, masked_low⟩

section Shape

variable {b b' b'' : LabPcieSimBar}

theorem SameShape.trans (h : SameShape b b') (h' : SameShape b' b'') : SameShape b b'' :=
  ⟨h'.implemented.trans h.implemented, h'.size.trans h.size, h'.flags.trans h.flags⟩

theorem SameShape.flags_eq (h : SameShape b b') :
    b'.value &&& flagMask b.value = b.value &&& flagMask b.value := by
  rw [← flagMask_sub, BitVec.and_comm (flagMask _), ← BitVec.and_assoc, h.flags, BitVec.and_assoc]

theorem SameShape.flagMask_eq (h : SameShape b b') : flagMask b'.value = flagMask b.value :=
  (same_kind h.flags_eq).1

theorem Measurable.keep (h : Measurable b) (hshape : SameShape b b') : Measurable b' := by
  refine ⟨?_, ?_, ?_⟩
  · rw [hshape.implemented]
    exact h.implemented
  · rw [(same_kind hshape.flags_eq).2]
    exact h.narrow
  · rw [hshape.size]
    exact h.power

end Shape

section Runs

variable {bdf k : Word} {fn : Nat} {controller controller' : LabPcieSimController}
  {bar : LabPcieBarResource} {s s' : BarSystem}

theorem Ready.keep (h : Ready controller fn k bar)
    (hshape : ∀ index, SameShape ((controller.functions fn).bars index)
      ((controller'.functions fn).bars index)) : Ready controller' fn k bar := by
  have hk := hshape k.toNat
  refine ⟨h.index, h.range, h.usable.keep hk, h.kind, ?_, ?_⟩
  · rw [hk.flagMask_eq, hk.flags_eq]
    exact h.flags
  · rw [shownSize, hk.flagMask_eq, hk.size]
    exact h.size

theorem setBar_shape {index : Nat} {b : LabPcieSimBar}
    (h : SameShape ((controller.functions fn).bars index) b) (other : Nat) :
    SameShape ((controller.functions fn).bars other)
      (((controller.setBar fn index b).functions fn).bars other) := by
  rw [bars_setBar]
  by_cases hother : other = index
  · subst hother
    rw [Function.update_self]
    exact h
  · rw [Function.update_of_ne hother]
    exact ⟨rfl, rfl, rfl⟩

/-- A probe of a BAR that it can measure succeeds, and finds out what an assignment needs. -/
theorem ready_probe (bar : LabPcieBarResource)
    (hfn : simFindFunction controller bdf = some fn) (hk : k < 6)
    (h : Measurable ((controller.functions fn).bars k.toNat)) :
    ∃ b' bar', SameShape ((controller.functions fn).bars k.toNat) b' ∧
      labPcieProbeBar32 (simHost controller) bdf k (some bar) =
        (ok, simHost (controller.setBar fn k.toNat b'), some bar') ∧
      Ready (controller.setBar fn k.toNat b') fn k bar' := by
  obtain ⟨n, hpower⟩ := h.power
  have hflags := read_flags h.implemented (size_ne_zero hpower)
  obtain ⟨hmask, hwide⟩ := same_kind hflags
  have hprobe := probe_sim hfn hk rfl bar
  have hnarrow : ¬Wide (simBarRead ((controller.functions fn).bars k.toNat)) :=
    fun hbad => h.narrow (hwide.mp hbad)
  rw [if_neg hnarrow] at hprobe
  have hshape := (simBarWrite_shape ((controller.functions fn).bars k.toNat) 0xffffffff).trans
    (simBarWrite_shape _ (simBarRead ((controller.functions fn).bars k.toNat)))
  refine ⟨_, _, hshape, hprobe, Ready.keep ?_ (setBar_shape hshape)⟩
  refine ⟨rfl, hk, h, ?_, hflags, ?_⟩
  · show (if PcieConfBarIo _ then (1 : Byte) else 0) ≠ 0 ↔ _
    split
    · next hio => exact iff_of_true (by decide) hio
    · next hmem => exact iff_of_false (by decide) hmem
  · rw [write_ones h.implemented, read_probing h.implemented]
    exact measured_probeValue h.implemented hpower hmask

/-- What holds in a run: the function is found, and every structure is ready for an assignment. -/
structure Surveyed (bdf : Word) (fn : Nat) (s : BarSystem) : Prop where
  found : simFindFunction s.controller bdf = some fn
  ready : ∀ k bar, s.bars k = some bar → Ready s.controller fn k bar

theorem Ready.assign_keeps (h : Ready controller fn k bar)
    (hfn : simFindFunction controller bdf = some fn) {window window' : Window 32} {ret : Int}
    {bar' : LabPcieBarResource}
    (hassign : labPcieAssignBar32 (simHost controller) bdf (some window) (some bar) =
      (ret, simHost controller', some window', some bar')) :
    simFindFunction controller' bdf = some fn ∧ Ready controller' fn k bar' ∧
      ∀ index, SameShape ((controller.functions fn).bars index)
        ((controller'.functions fn).bars index) := by
  by_cases hret : ret = ok
  · subst hret
    obtain ⟨rfl, rfl⟩ := h.assigned hfn rfl hassign
    have hwritten : SameShape ((controller.functions fn).bars k.toNat)
        { (controller.functions fn).bars k.toNat with
          probing := 0
          value := (programmed bar (alignUp window.next bar.size) &&& ~~~0xf) |||
            ((controller.functions fn).bars k.toNat).value &&& 0xf } := ⟨rfl, rfl, masked_low⟩
    have hshape := setBar_shape hwritten
    obtain ⟨hindex, hrange, husable, hkind, hflags, hsize⟩ := h.keep hshape
    rw [simFindFunction_setBar]
    exact ⟨hfn, ⟨hindex, hrange, husable, hkind, hflags, hsize⟩, hshape⟩
  · have hwrite : ∀ value, (labPcieConfigWrite32 (simHost controller) bdf
        (pcieConfBar0 + bar.barIndex) value).1 = ok := by
      intro value
      rw [h.index, write_bar hfn h.range]
    obtain ⟨hhost, hbar⟩ := assign_fails hwrite hassign hret
    obtain rfl := simHost_inj hhost
    obtain rfl := Option.some.inj hbar
    exact ⟨hfn, h, fun _ => ⟨rfl, rfl, rfl⟩⟩

theorem Surveyed.step (h : Surveyed bdf fn s) (hs : BarStep bdf s s') : Surveyed bdf fn s' := by
  have hupdate : ∀ {controller' : LabPcieSimController} {k : Word} {bar' : LabPcieBarResource},
      Ready controller' fn k bar' →
      (∀ index, SameShape ((s.controller.functions fn).bars index)
        ((controller'.functions fn).bars index)) →
      ∀ k' r, Function.update s.bars k (some bar') k' = some r → Ready controller' fn k' r := by
    intro controller' k bar' hready hshape k' r hr
    by_cases hk : k' = k
    · subst hk
      rw [Function.update_self] at hr
      obtain rfl := Option.some.inj hr
      exact hready
    · rw [Function.update_of_ne hk] at hr
      exact (h.ready k' r hr).keep hshape
  cases hs with
  | @probe fn' k bar bar' ret controller hfn hk hmeasurable hprobe =>
    obtain rfl := Option.some.inj (hfn.symm.trans h.found)
    obtain ⟨b, bar1, hshape, hprobe1, hready⟩ := ready_probe bar hfn hk hmeasurable
    rw [hprobe] at hprobe1
    obtain ⟨rfl, hrest⟩ := Prod.mk.inj hprobe1
    obtain ⟨hhost, hbar⟩ := Prod.mk.inj hrest
    obtain rfl := simHost_inj hhost
    obtain rfl := Option.some.inj hbar
    refine ⟨(simFindFunction_setBar _ _ _ _ _).trans hfn, ?_⟩
    rw [if_pos rfl]
    exact hupdate hready (setBar_shape hshape)
  | @assign k j bar bar' ret controller window hbar hassign =>
    obtain ⟨hfn, hready, hshape⟩ := (h.ready k bar hbar).assign_keeps h.found hassign
    exact ⟨hfn, hupdate hready hshape⟩

/-- In every sequence of probes and assignments: when an assignment succeeds, the address that it
has assigned reads back above the flags, and is translated by the offset of its window, if and only
if the BAR is for memory, or the address agrees in bits 2 and 3 with the register before. -/
theorem assigned_reads_back {windows : Nat → Window 32}
    (hfn : simFindFunction controller bdf = some fn)
    (hrun : ReflTransGen (BarStep bdf) ⟨controller, windows, fun _ => none⟩ s)
    (hbar : s.bars k = some bar) {b : LabPcieSimBar}
    (hb : (s.controller.functions fn).bars k.toNat = b) {j : Nat} {window : Window 32}
    {bar' : LabPcieBarResource}
    (hassign : labPcieAssignBar32 (simHost s.controller) bdf (some (s.windows j)) (some bar) =
      (ok, simHost controller', some window, some bar')) :
    ReadsBack controller' bdf bar' ∧
        bar'.cpuAddr = (s.windows j).cpuBase + (bar'.busAddr - (s.windows j).pciBase) ↔
      PcieConfBarMem b.value ∨
        alignUp (s.windows j).next bar.size &&& 0xc = b.value &&& 0xc := by
  have hstep : ∀ s s', Surveyed bdf fn s → BarStep bdf s s' → Surveyed bdf fn s' :=
    fun _ _ h hs => h.step hs
  have h : Surveyed bdf fn s := run_invariant hstep hrun ⟨hfn, nofun⟩
  have hready := h.ready k bar hbar
  have hcpu : bar'.cpuAddr =
      (s.windows j).cpuBase + (bar'.busAddr - (s.windows j).pciBase) := by
    rw [(hready.assigned h.found hb hassign).2]
  rw [and_iff_left hcpu]
  exact hready.readsBack_iff h.found hb hassign

end Runs

/-- A window for memory, and one for ports. -/
def twoWindows (j : Nat) : Window 32 :=
  if j = 0 then ⟨0x40000000, 0x60000000, 0x10000, 0x40000000⟩
  else ⟨0x1008, 0x70001008, 0x100, 0x1008⟩

/-- The controller behind a host that a call on a simulated host has left. -/
def controllerOf (host : Option (LabPcieHost LabPcieSimController)) : LabPcieSimController :=
  (host.bind fun h => h.priv).getD twoBars

def barProbed (k : Word) :
    Int × Option (LabPcieHost LabPcieSimController) × Option LabPcieBarResource :=
  labPcieProbeBar32 (simHost twoBars) 0x800 k (some (probed 0 0 0))

def barResource (k : Word) : LabPcieBarResource := (barProbed k).2.2.getD (probed 0 0 0)

def barAssigned (k : Word) (j : Nat) : Int × Option (LabPcieHost LabPcieSimController) ×
    Option (Window 32) × Option LabPcieBarResource :=
  labPcieAssignBar32 (simHost (controllerOf (barProbed k).2.1)) 0x800 (some (twoWindows j))
    (some (barResource k))

/-- After the probe of BAR 0. -/
def pageSystem : BarSystem :=
  ⟨controllerOf (barProbed 0).2.1, twoWindows,
    Function.update (fun _ => none) 0 (some (barResource 0))⟩

/-- A page of memory reads back. -/
theorem page_reads_back : ∃ bar, (barAssigned 0 0).2.2.2 = some bar ∧ bar.busAddr = 0x40000000 ∧
    ReadsBack (controllerOf (barAssigned 0 0).2.1) 0x800 bar ∧ bar.cpuAddr = 0x60000000 := by
  have hmeasurable : Measurable ((twoBars.functions 0).bars (0 : Word).toNat) :=
    ⟨by decide, by decide, 12, rfl⟩
  have hprobe : labPcieProbeBar32 (simHost twoBars) 0x800 0 (some (probed 0 0 0)) =
      (ok, simHost (controllerOf (barProbed 0).2.1), some (barResource 0)) := rfl
  have hstep : BarStep 0x800 ⟨twoBars, twoWindows, fun _ => none⟩ pageSystem :=
    .probe (s := ⟨twoBars, twoWindows, fun _ => none⟩) rfl (by decide) hmeasurable hprobe
  have hfn : simFindFunction twoBars 0x800 = some 0 := rfl
  have hbar : pageSystem.bars 0 = some (barResource 0) := rfl
  have hb : (pageSystem.controller.functions 0).bars (0 : Word).toNat = ⟨0, 0x1000, 1, 0⟩ := rfl
  have hassign : labPcieAssignBar32 (simHost pageSystem.controller) 0x800
      (some (pageSystem.windows 0)) (some (barResource 0)) =
      (ok, simHost (controllerOf (barAssigned 0 0).2.1),
        some ((barAssigned 0 0).2.2.1.getD (twoWindows 0)),
        some ((barAssigned 0 0).2.2.2.getD (probed 0 0 0))) := rfl
  obtain ⟨hread, hcpu⟩ := (assigned_reads_back hfn (.single hstep) hbar hb hassign).mpr
    (.inl (by decide))
  exact ⟨_, rfl, rfl, hread, rfl⟩

/-- Ports at an address whose bit 3 the register does not take do not read back. -/
theorem ports_misread : Measurable ((twoBars.functions 0).bars 1) ∧ (barProbed 1).1 = ok ∧
    (barAssigned 1 1).1 = ok ∧ ∃ bar, (barAssigned 1 1).2.2.2 = some bar ∧ bar.busAddr = 0x1008 ∧
      labPcieConfigRead32 (simHost (controllerOf (barAssigned 1 1).2.1)) 0x800 5 0 =
        (ok, 0x1001, simHost (controllerOf (barAssigned 1 1).2.1)) ∧
      ¬ReadsBack (controllerOf (barAssigned 1 1).2.1) 0x800 bar := by
  have hmeasurable : Measurable ((twoBars.functions 0).bars 1) := ⟨by decide, by decide, 3, rfl⟩
  refine ⟨hmeasurable, rfl, rfl, _, rfl, rfl, rfl, ?_⟩
  rintro ⟨v, hv, haddr, -⟩
  obtain rfl : (0x1001 : Word) = v := (Prod.mk.inj (Prod.mk.inj hv).2).1
  exact absurd haddr (by decide)

end CortexLabs.Pcie.Resource
