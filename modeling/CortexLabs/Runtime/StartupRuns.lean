import CortexLabs.Runtime.Startup

/-! Startup over every layout that the linker script gives: the reset handler computes what
`copy_data` and `zero_bss` compute, memory holds the image when the first function is called, and
the functions are called in their order. -/

namespace CortexLabs.Runtime

open Device Thumb Relation

/-! ### Copies and fills -/

/-- `m` with the `len` bytes from `src` on copied to `dst`. -/
def copied (m : Memory) (src dst len : Nat) : Memory := fun a =>
  if dst ≤ a ∧ a < dst + len then m (src + (a - dst)) else m a

/-- `m` with `len` bytes from `dst` on cleared. -/
def cleared (m : Memory) (dst len : Nat) : Memory := fun a =>
  if dst ≤ a ∧ a < dst + len then 0 else m a

section Memory

variable (m : Memory) {src dst : Nat}

@[simp] theorem copied_zero (src dst : Nat) : copied m src dst 0 = m := by
  funext a
  exact if_neg (by omega)

@[simp] theorem cleared_zero (dst : Nat) : cleared m dst 0 = m := by
  funext a
  exact if_neg (by omega)

/-- What is left to copy is read as it was, when the copy does not overlap it. -/
theorem copied_step {len n : Nat} (h : src + (len + n) ≤ dst ∨ dst + (len + n) ≤ src) :
    (copied m src dst len).write (dst + len) ((copied m src dst len).read (src + len) n) =
      copied m src dst (len + n) := by
  funext a
  by_cases ha : dst + len ≤ a ∧ a < dst + len + n
  · obtain ⟨i, rfl⟩ := Nat.exists_eq_add_of_le ha.1
    have hi : i < n := by omega
    rw [Memory.write_inside hi, Memory.getElem_read]
    simp only [copied]
    rw [if_neg (by omega), if_pos (by omega), show dst + len + i - dst = len + i by omega,
      Nat.add_assoc]
  · rw [Memory.write_outside (by omega)]
    simp only [copied]
    by_cases hin : dst ≤ a ∧ a < dst + len
    · rw [if_pos hin, if_pos (by omega)]
    · rw [if_neg hin, if_neg (by omega)]

theorem cleared_step {len : Nat} :
    (cleared m dst len).write (dst + len) (bytesOf 0) = cleared m dst (len + 4) := by
  funext a
  by_cases ha : dst + len ≤ a ∧ a < dst + len + 4
  · obtain ⟨i, rfl⟩ := Nat.exists_eq_add_of_le ha.1
    have hi : i < 4 := by omega
    rw [Memory.write_inside hi]
    have hin : dst ≤ dst + len + i ∧ dst + len + i < dst + (len + 4) := by omega
    simp [cleared, bytesOf, hin]
  · rw [Memory.write_outside (by omega)]
    simp only [cleared]
    by_cases hin : dst ≤ a ∧ a < dst + len
    · rw [if_pos hin, if_pos (by omega)]
    · rw [if_neg hin, if_neg (by omega)]

/-- The copy loop over whole objects, when source and destination are apart. -/
theorem copyUpTo_eq {k n : Nat} (h : src + n * (k + 1) ≤ dst ∨ dst + n * (k + 1) ≤ src) {j : Nat}
    (hj : j ≤ n) :
    copyUpTo k (copied m src dst (j * (k + 1))) (src + j * (k + 1)) (dst + j * (k + 1))
      (dst + n * (k + 1)) = copied m src dst (n * (k + 1)) := by
  induction hd : n - j generalizing j with
  | zero =>
    obtain rfl : j = n := by omega
    rw [copyUpTo, if_neg (Nat.lt_irrefl _)]
  | succ d ih =>
    have hlt : j < n := by omega
    have hmul : (j + 1) * (k + 1) ≤ n * (k + 1) := Nat.mul_le_mul_right _ hlt
    have hnext : (j + 1) * (k + 1) = j * (k + 1) + (k + 1) := Nat.succ_mul ..
    rw [copyUpTo, if_pos (by omega), copied_step m (by omega), ← hnext, Nat.add_assoc,
      Nat.add_assoc, ← hnext]
    exact ih hlt (by omega)

theorem zeroUpTo_eq {n j : Nat} (hj : j ≤ n) :
    zeroUpTo (cleared m dst (j * 4)) (dst + j * 4) (dst + n * 4) = cleared m dst (n * 4) := by
  induction hd : n - j generalizing j with
  | zero =>
    obtain rfl : j = n := by omega
    rw [zeroUpTo, if_neg (Nat.lt_irrefl _)]
  | succ d ih =>
    have hlt : j < n := by omega
    rw [zeroUpTo, if_pos (by omega), cleared_step, Nat.add_assoc, ← Nat.succ_mul]
    exact ih hlt (by omega)

end Memory

/-! ### The layout -/

/-- What the linker script says of its symbols: `.data` and `.bss` follow one another in RAM in
whole words, and the load image of `.data` is in flash. -/
structure Linked (sym : Symbols) : Prop where
  sdata : 0x20000000 ≤ sym.sdata.toNat
  edata : sym.sdata.toNat ≤ sym.edata.toNat
  sbss : sym.edata.toNat ≤ sym.sbss.toNat
  ebss : sym.sbss.toNat ≤ sym.ebss.toNat
  ram : sym.ebss.toNat ≤ 0x20010000
  dataWords : 4 ∣ sym.edata.toNat - sym.sdata.toNat
  bssWords : 4 ∣ sym.ebss.toNat - sym.sbss.toNat
  flash : sym.sidata.toNat + (sym.edata.toNat - sym.sdata.toNat) ≤ 0x40000

/-- `.far_text` is in RAM before `.data`, and its load image in flash. -/
structure FarText.Linked (far : FarText) (sym : Symbols) : Prop where
  ram : 0x20000000 ≤ far.start.toNat
  size : far.start.toNat ≤ far.stop.toNat
  data : far.stop.toNat ≤ sym.sdata.toNat
  flash : far.load.toNat + (far.stop.toNat - far.start.toNat) ≤ 0x40000

def dataSize (sym : Symbols) : Nat := sym.edata.toNat - sym.sdata.toNat

def bssSize (sym : Symbols) : Nat := sym.ebss.toNat - sym.sbss.toNat

/-- The memory in which the first function is called. -/
def loaded (sym : Symbols) (m : Memory) : Memory :=
  cleared (copied m sym.sidata.toNat sym.sdata.toNat (dataSize sym)) sym.sbss.toNat (bssSize sym)

section Layout

variable {sym : Symbols} (h : Linked sym)
include h

theorem copyData_eq (m : Memory) :
    copyData sym m = copied m sym.sidata.toNat sym.sdata.toNat (dataSize sym) := by
  obtain ⟨n, hn⟩ := h.dataWords
  have hsize : dataSize sym = n * (3 + 1) := by rw [dataSize, hn, Nat.mul_comm]
  have hapart : sym.sidata.toNat + n * (3 + 1) ≤ sym.sdata.toNat := by
    have := h.flash
    have := h.sdata
    omega
  have hstop : sym.edata.toNat = sym.sdata.toNat + n * (3 + 1) := by
    have := h.edata
    omega
  have hloop := copyUpTo_eq m (.inl hapart) (Nat.zero_le n)
  rw [Nat.zero_mul, copied_zero, Nat.add_zero, Nat.add_zero] at hloop
  rw [copyData, hstop, hloop, hsize]

theorem zeroBss_eq (m : Memory) : zeroBss sym m = cleared m sym.sbss.toNat (bssSize sym) := by
  obtain ⟨n, hn⟩ := h.bssWords
  have hstop : sym.ebss.toNat = sym.sbss.toNat + n * 4 := by
    have := h.ebss
    omega
  have hloop : zeroUpTo (cleared m sym.sbss.toNat (0 * 4)) (sym.sbss.toNat + 0 * 4) _ = _ :=
    zeroUpTo_eq m (Nat.zero_le n)
  rw [Nat.zero_mul, cleared_zero, Nat.add_zero] at hloop
  rw [zeroBss, hstop, hloop, bssSize, hn, Nat.mul_comm]

/-! ### The handler -/

variable {calls : List Function} {m : Memory} {s : Cpu}

/-- The handler at the top of its copy loop, after `k` words. -/
structure Copying (sym : Symbols) (calls : List Function) (m : Memory) (k : Nat) (s : Cpu) :
    Prop where
  rest : s.rest = after .copyLoop (resetHandler sym calls)
  src : (s.regs .r0).toNat = sym.sidata.toNat + k * 4
  dst : (s.regs .r1).toNat = sym.sdata.toNat + k * 4
  stop : s.regs .r2 = sym.edata
  mem : s.mem = copied m sym.sidata.toNat sym.sdata.toNat (k * 4)

/-- The handler at the top of its zero loop, after `k` words. -/
structure Zeroing (sym : Symbols) (calls : List Function) (m : Memory) (k : Nat) (s : Cpu) :
    Prop where
  rest : s.rest = after .zeroLoop (resetHandler sym calls)
  dst : (s.regs .r1).toNat = sym.sbss.toNat + k * 4
  stop : s.regs .r2 = sym.ebss
  mem : s.mem = cleared m sym.sbss.toNat (k * 4)

theorem Copying.turn {k n : Nat} (hn : dataSize sym = n * 4) (hk : k < n)
    (hs : Copying sym calls m k s) :
    ∃ s', Reaches (resetHandler sym calls) s s' ∧ Copying sym calls m (k + 1) s' := by
  obtain ⟨regs, flags, mem, rest⟩ := s
  obtain ⟨rfl, hsrc, hdst, hstop, rfl⟩ := hs
  dsimp only at hsrc hdst hstop
  have hflash := h.flash
  have hram := h.ram
  have hedata := h.edata
  have hsbss := h.sbss
  have hebss := h.ebss
  have hsize : sym.edata.toNat - sym.sdata.toNat = n * 4 := hn
  have hsdata := h.sdata
  have hlower : (flagsOfSub (regs .r1) (regs .r2)).c = false := by
    refine flagsOfSub_lower ?_
    rw [hdst, hstop]
    omega
  refine ⟨_, .head rfl (.head (exec_bcc_taken rfl hlower) (.head rfl (.head rfl
    (.head rfl .refl)))), rfl, ?_, ?_, hstop, ?_⟩
  · have hnext : (regs .r0 + 4).toNat = _ := toNat_add_four hsrc (by omega)
    exact hnext.trans (by omega)
  · have hnext : (regs .r1 + 4).toNat = _ := toNat_add_four hdst (by omega)
    exact hnext.trans (by omega)
  · show (copied m _ _ (k * 4)).write (regs .r1).toNat
      (bytesOf (wordAt (copied m _ _ (k * 4)) (regs .r0).toNat)) = _
    rw [bytesOf_wordAt, hsrc, hdst, copied_step m (by omega), Nat.succ_mul]

/-- The copy loop ends at `zero_begin`. -/
theorem Copying.loop {k n : Nat} (hn : dataSize sym = n * 4) (hk : k ≤ n)
    (hs : Copying sym calls m k s) :
    ∃ s', Reaches (resetHandler sym calls) s s' ∧
      s'.rest = after .zeroBegin (resetHandler sym calls) ∧
      s'.mem = copied m sym.sidata.toNat sym.sdata.toNat (dataSize sym) := by
  induction hd : n - k generalizing k s with
  | zero =>
    obtain rfl : k = n := by omega
    obtain ⟨regs, flags, mem, rest⟩ := s
    obtain ⟨rfl, -, hdst, hstop, rfl⟩ := hs
    dsimp only at hdst hstop
    have hedata := h.edata
    have hsize : sym.edata.toNat - sym.sdata.toNat = k * 4 := hn
    have hend : (flagsOfSub (regs .r1) (regs .r2)).c = true := by
      refine flagsOfSub_not_lower ?_
      rw [hdst, hstop]
      omega
    refine ⟨_, .head rfl (.head (exec_bcc_passed rfl hend) (.head rfl .refl)), rfl, ?_⟩
    rw [hn]
  | succ d ih =>
    have hlt : k < n := by omega
    obtain ⟨s1, hturn, hs1⟩ := hs.turn h hn hlt
    obtain ⟨s', hloop, hs'⟩ := ih hlt hs1 (by omega)
    exact ⟨s', hturn.trans hloop, hs'⟩

theorem Zeroing.turn {k n : Nat} (hn : bssSize sym = n * 4) (hk : k < n)
    (hs : Zeroing sym calls m k s) :
    ∃ s', Reaches (resetHandler sym calls) s s' ∧ Zeroing sym calls m (k + 1) s' := by
  obtain ⟨regs, flags, mem, rest⟩ := s
  obtain ⟨rfl, hdst, hstop, rfl⟩ := hs
  dsimp only at hdst hstop
  have hram := h.ram
  have hebss := h.ebss
  have hsize : sym.ebss.toNat - sym.sbss.toNat = n * 4 := hn
  have hlower : (flagsOfSub (regs .r1) (regs .r2)).c = false := by
    refine flagsOfSub_lower ?_
    rw [hdst, hstop]
    omega
  refine ⟨_, .head rfl (.head (exec_bcc_taken rfl hlower) (.head rfl (.head rfl
    (.head rfl .refl)))), rfl, ?_, hstop, ?_⟩
  · have hnext : (regs .r1 + 4).toNat = _ := toNat_add_four hdst (by omega)
    exact hnext.trans (by omega)
  · show (cleared m _ (k * 4)).write (regs .r1).toNat (bytesOf 0) = _
    rw [hdst, cleared_step, Nat.succ_mul]

/-- The zero loop ends at `init_done`. -/
theorem Zeroing.loop {k n : Nat} (hn : bssSize sym = n * 4) (hk : k ≤ n)
    (hs : Zeroing sym calls m k s) :
    ∃ s', Reaches (resetHandler sym calls) s s' ∧ s'.rest = callLines calls ∧
      s'.mem = cleared m sym.sbss.toNat (bssSize sym) := by
  induction hd : n - k generalizing k s with
  | zero =>
    obtain rfl : k = n := by omega
    obtain ⟨regs, flags, mem, rest⟩ := s
    obtain ⟨rfl, hdst, hstop, rfl⟩ := hs
    dsimp only at hdst hstop
    have hebss := h.ebss
    have hsize : sym.ebss.toNat - sym.sbss.toNat = k * 4 := hn
    have hend : (flagsOfSub (regs .r1) (regs .r2)).c = true := by
      refine flagsOfSub_not_lower ?_
      rw [hdst, hstop]
      omega
    refine ⟨_, .head rfl (.head (exec_bcc_passed rfl hend) (.head rfl .refl)), rfl, ?_⟩
    rw [hn]
  | succ d ih =>
    have hlt : k < n := by omega
    obtain ⟨s1, hturn, hs1⟩ := hs.turn h hn hlt
    obtain ⟨s', hloop, hs'⟩ := ih hlt hs1 (by omega)
    exact ⟨s', hturn.trans hloop, hs'⟩

/-- From reset, whatever registers and flags hold, the handler comes to its calls with the memory
that `copy_data` and `zero_bss` leave. -/
theorem resetHandler_reaches (regs : Reg → Word) (flags : Flags) (m : Memory) :
    ∃ s, Reaches (resetHandler sym calls) ⟨regs, flags, m, resetHandler sym calls⟩ s ∧
      s.rest = callLines calls ∧ s.mem = loaded sym m := by
  obtain ⟨n, hn⟩ := h.dataWords
  obtain ⟨l, hl⟩ := h.bssWords
  have hcopying : Copying sym calls m 0 ⟨Function.update (Function.update (Function.update regs
      .r0 sym.sidata) .r1 sym.sdata) .r2 sym.edata, flags, m,
      after .copyLoop (resetHandler sym calls)⟩ :=
    ⟨rfl, rfl, rfl, rfl, by simp⟩
  obtain ⟨⟨regs1, flags1, m1, rest⟩, hcopy, rfl, rfl⟩ :=
    hcopying.loop h (hn.trans (Nat.mul_comm ..)) (Nat.zero_le n)
  have hzeroing : Zeroing sym calls (copied m sym.sidata.toNat sym.sdata.toNat (dataSize sym)) 0
      ⟨Function.update (Function.update regs1 .r1 sym.sbss) .r2 sym.ebss, flags1,
        copied m sym.sidata.toNat sym.sdata.toNat (dataSize sym),
        after .zeroLoop (resetHandler sym calls)⟩ :=
    ⟨rfl, rfl, rfl, by simp⟩
  obtain ⟨s, hzero, hrest, hmem⟩ := hzeroing.loop h (hl.trans (Nat.mul_comm ..)) (Nat.zero_le l)
  refine ⟨s, .head rfl (.head rfl (.head rfl (.head rfl (hcopy.trans ?_)))), hrest, hmem⟩
  exact .head rfl (.head rfl (.head rfl hzero))

theorem loaded_data (m : Memory) {i : Nat} (hi : i < dataSize sym) :
    loaded sym m (sym.sdata.toNat + i) = m (sym.sidata.toNat + i) := by
  have hsbss := h.sbss
  have hsize : dataSize sym = sym.edata.toNat - sym.sdata.toNat := rfl
  simp only [loaded, cleared, copied]
  rw [if_neg (by omega), if_pos (by omega), Nat.add_sub_cancel_left]

omit h in
theorem loaded_bss (m : Memory) {i : Nat} (hi : i < bssSize sym) :
    loaded sym m (sym.sbss.toNat + i) = 0 :=
  if_pos ⟨Nat.le_add_right _ _, Nat.add_lt_add_left hi _⟩

omit h in
theorem loaded_other (m : Memory) {a : Nat}
    (hdata : a < sym.sdata.toNat ∨ sym.sdata.toNat + dataSize sym ≤ a)
    (hbss : a < sym.sbss.toNat ∨ sym.sbss.toNat + bssSize sym ≤ a) : loaded sym m a = m a := by
  simp only [loaded, cleared, copied]
  rw [if_neg (by omega), if_neg (by omega)]

omit h in
theorem relocateFarText_eq {far : FarText} (hfar : far.Linked sym) (m : Memory) :
    relocateFarText far m =
      copied m far.load.toNat far.start.toNat (far.stop.toNat - far.start.toNat) := by
  have hram := hfar.ram
  have hsize := hfar.size
  have hflash := hfar.flash
  have hapart : far.load.toNat + (far.stop.toNat - far.start.toNat) * (0 + 1) ≤
      far.start.toNat := by omega
  have hstop : far.stop.toNat =
      far.start.toNat + (far.stop.toNat - far.start.toNat) * (0 + 1) := by omega
  have hloop := copyUpTo_eq m (.inl hapart) (Nat.zero_le _)
  rw [Nat.zero_mul, copied_zero, Nat.add_zero, Nat.add_zero, ← hstop, Nat.mul_one] at hloop
  exact hloop

/-- Over every layout of the linker script, whatever registers, flags and RAM hold at reset: the
handler comes to its calls with the memory that `copy_data` and `zero_bss` leave, and
`relocate_far_text` then completes the image: `.far_text` and `.data` are their load images, `.bss`
is zero, and no other byte has changed. -/
theorem startup_image {far : FarText} (hfar : far.Linked sym) (calls : List Function)
    (regs : Reg → Word) (flags : Flags) (m : Memory) :
    ∃ s, Reaches (resetHandler sym calls) ⟨regs, flags, m, resetHandler sym calls⟩ s ∧
      s.rest = callLines calls ∧ s.mem = zeroBss sym (copyData sym m) ∧
      (∀ i < far.stop.toNat - far.start.toNat,
        relocateFarText far s.mem (far.start.toNat + i) = m (far.load.toNat + i)) ∧
      (∀ i < dataSize sym,
        relocateFarText far s.mem (sym.sdata.toNat + i) = m (sym.sidata.toNat + i)) ∧
      (∀ i < bssSize sym, relocateFarText far s.mem (sym.sbss.toNat + i) = 0) ∧
      ∀ a, (a < far.start.toNat ∨ far.stop.toNat ≤ a) →
        (a < sym.sdata.toNat ∨ sym.edata.toNat ≤ a) → (a < sym.sbss.toNat ∨ sym.ebss.toNat ≤ a) →
        relocateFarText far s.mem a = m a := by
  obtain ⟨s, hreaches, hrest, hmem⟩ := resetHandler_reaches h regs flags m
  have hsdata := h.sdata
  have hedata := h.edata
  have hsbss := h.sbss
  have hebss := h.ebss
  have hram := hfar.ram
  have hsize := hfar.size
  have hdata := hfar.data
  have hflash := hfar.flash
  have hrelocated : ∀ a, (a < far.start.toNat ∨ far.stop.toNat ≤ a) →
      relocateFarText far s.mem a = loaded sym m a := by
    intro a ha
    rw [relocateFarText_eq hfar, hmem]
    exact if_neg (by omega)
  refine ⟨s, hreaches, hrest, ?_, fun i hi => ?_, fun i hi => ?_, fun i hi => ?_, ?_⟩
  · rw [hmem, copyData_eq h, zeroBss_eq h]
    rfl
  · rw [relocateFarText_eq hfar, hmem]
    simp only [copied]
    rw [if_pos (by omega), Nat.add_sub_cancel_left]
    exact loaded_other m (.inl (by omega)) (.inl (by omega))
  · rw [hrelocated _ (.inr (by omega)), loaded_data h m hi]
  · rw [hrelocated _ (.inr (by omega)), loaded_bss m hi]
  · intro a hfarText hother hclear
    rw [hrelocated a hfarText]
    refine loaded_other m ?_ ?_
    · rw [dataSize]
      omega
    · rw [bssSize]
      omega

end Layout

/-- Seven bytes of `.far_text`, eight of `.data` and four of `.bss`. -/
def smallImage : Symbols := ⟨0x1008, 0x20000008, 0x20000010, 0x20000010, 0x20000014⟩

def smallFarText : FarText := ⟨0x1000, 0x20000000, 0x20000007⟩

theorem smallImage_linked : Linked smallImage :=
  ⟨by decide, by decide, by decide, by decide, by decide, by decide, by decide, by decide⟩

/-- A flash full of 5 and a RAM full of 255. -/
theorem startup_image_small : ∃ s,
    Reaches (resetHandler smallImage runtimeCalls) ⟨fun _ => 0, ⟨false, false, false, false⟩,
      fun a => if a < 0x40000 then 5 else 0xff, resetHandler smallImage runtimeCalls⟩ s ∧
    s.rest = callLines runtimeCalls ∧ relocateFarText smallFarText s.mem 0x20000006 = 5 ∧
    relocateFarText smallFarText s.mem 0x20000007 = 0xff ∧
    relocateFarText smallFarText s.mem 0x2000000f = 5 ∧
    relocateFarText smallFarText s.mem 0x20000013 = 0 := by
  have hfar : smallFarText.Linked smallImage := ⟨by decide, by decide, by decide, by decide⟩
  obtain ⟨s, hreaches, hrest, -, hfarText, hdata, hbss, hother⟩ :=
    startup_image smallImage_linked hfar runtimeCalls (fun _ => 0) ⟨false, false, false, false⟩
      fun a => if a < 0x40000 then 5 else 0xff
  exact ⟨s, hreaches, hrest, hfarText 6 (by decide),
    hother 0x20000007 (.inr (by decide)) (.inl (by decide)) (.inl (by decide)),
    hdata 7 (by decide), hbss 3 (by decide)⟩

end CortexLabs.Runtime
