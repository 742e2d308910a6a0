import CortexLabs.FaultLog.Ring

/-! One append: its three writes keep the ring, the last one publishes the record when the commit
page is complete after it, and an append that returns 0 has published its record. -/

namespace CortexLabs.FaultLog

open Device

theorem published_snoc (t : List (Event eeprom)) (e : Event eeprom) :
    published (t ++ [e]) = published t ++ (publication e).toList := by
  rw [published, published, List.filterMap_append]
  cases h : publication e <;> simp [h]

theorem publication_read {e : Event eeprom} {offset len : Nat} (h : e.op = .read offset len) :
    publication e = none := by
  rw [publication, h]

theorem publication_other {e : Event eeprom} {offset len : Nat} {data : Vector Byte len}
    (h : e.op = .write offset len data) (hd : data.toList ≠ committed.toList) :
    publication e = none := by
  rw [publication, h]
  exact if_neg fun hc => hd hc.1

/-- The write of the commit page of slot `k` publishes what the slot then holds, if complete. -/
theorem publication_commit {e : Event eeprom} {k : Nat}
    (h : e.op = .write (slotOffset k + commitOffset) commitSize committed) :
    publication e = if commitOf e.after k = committed then
      some ⟨k, sequenceOf e.after k, codeOf e.after k⟩ else none := by
  have hk : (slotOffset k + commitOffset - commitOffset) / slotSize = k := by
    rw [Nat.add_sub_cancel, slotOffset, Nat.mul_div_cancel _ (by decide)]
  rw [publication, h]
  simp only [hk, true_and]
  rfl

/-- The record that an append of `code` publishes after `ps`. -/
def nextRecord (ps : List Publication) (code : Word) : Publication :=
  ⟨target ps, BitVec.ofNat 32 (ps.length + 1), code⟩

namespace Ring

variable {m m' : Memory} {ps : List Publication} {code : Word}

theorem invalidate (h : Ring m ps)
    (hw : m.Torn (slotOffset (target ps) + commitOffset) invalid m') : Ring m' ps :=
  h.frame (fun _ _ hne => torn_other (by decide) hw hne) (torn_invalid hw)

/-- While the commit page of the next slot is cleared, its body may be anything. -/
theorem body (h : Ring m ps) (hc : commitOf m (target ps) = invalid)
    {data : Vector Byte bodySize} (hw : m.Torn (slotOffset (target ps)) data m') :
    Ring m' ps ∧ commitOf m' (target ps) = invalid := by
  have hc' : commitOf m' (target ps) = invalid := (torn_body_commit hw).trans hc
  have hw' : m.Torn (slotOffset (target ps) + 0) data m' := hw
  exact ⟨h.frame (fun _ _ hne => torn_other (by decide) hw' hne)
    fun hv => absurd hv (not_valid_of_invalid hc'), hc'⟩

/-- The write of the commit page over a finished body publishes the record, or leaves the ring as
it was. -/
theorem commit (h : Ring m ps)
    (hb : recordOf m (target ps) = bodyOf (BitVec.ofNat 32 (ps.length + 1)) code)
    (hw : m.Torn (slotOffset (target ps) + commitOffset) committed m') :
    if commitOf m' (target ps) = committed then
      Ring m' (ps ++ [nextRecord ps code]) ∧ (nextRecord ps code).Held m'
    else Ring m' ps := by
  have hother : ∀ slot < slotCount, slot ≠ target ps → slotOf m' slot = slotOf m slot :=
    fun _ _ hne => torn_other (by decide) hw hne
  split
  · next hc =>
    have hheld : (nextRecord ps code).Held m' :=
      valid_of_body hc ((torn_commit_body hw).trans hb)
    exact ⟨h.extend hother rfl rfl hheld, hheld⟩
  · next hc => exact h.frame hother fun hv => absurd (valid_commit hv) hc

end Ring

/-- The context of a logger that has found, or published, the last of `ps`. -/
def tracking (dev : Dev) (ps : List Publication) : Context :=
  { dev := some dev
    sequence := BitVec.ofNat 32 ps.length
    newestSlot := if ps = [] then noSlot else (ps.length - 1) % slotCount
    initialized := true }

/-- A fault-free initialization over a ring finds the last record published. -/
theorem recovered_ring {m : Memory} {ps : List Publication} (h : Ring m ps) (dev : Dev) :
    recovered dev m = (0, some (tracking dev ps)) := by
  by_cases hne : ps = []
  · subst hne
    rw [recovered_empty (fun slot hs hv => by obtain ⟨j, hj, _⟩ := h.only slot hs hv; cases hj)]
    rfl
  · have hlen : 0 < ps.length := List.length_pos_iff.mpr hne
    obtain ⟨hleads, hheld⟩ := h.leads hne
    have hplaced := h.placed (ps.length - 1) (by omega)
    rw [recovered_leads hleads, hheld.2.1, List.getLast_eq_getElem, hplaced.1, hplaced.2, tracking,
      if_neg hne, show ps.length - 1 + 1 = ps.length by omega]

/-- What an append of `code` leaves, when it returns and wherever it is cut: it has published its
record or nothing, and the image is a ring of what has been published. -/
def Appended (ps : List Publication) (code : Word) (t : List (Event eeprom)) (m : Memory) : Prop :=
  (published t = [] ∨ published t = [nextRecord ps code]) ∧ Ring m (ps ++ published t)

/-- What an append of `code` returns: 0 and the context of the new record, which it has published,
or an error and an unusable context. -/
def AppendReturns (dev : Dev) (ps : List Publication) (code : Word) (t : List (Event eeprom))
    (r : Int × Option Context) (m : Memory) : Prop :=
  Appended ps code t m ∧
  (r.1 = 0 → published t = [nextRecord ps code] ∧
    r.2 = some (tracking dev (ps ++ [nextRecord ps code]))) ∧
  (r.1 ≠ 0 → r.2 = some { tracking dev ps with initialized := false })

section Steps

variable {dev : Dev} {ps : List Publication} {code : Word} {t : List (Event eeprom)} {m : Memory}

theorem Appended.none (ht : published t = []) (h : Ring m ps) : Appended ps code t m :=
  ⟨.inl ht, by rwa [ht, List.append_nil]⟩

theorem Appended.some (ht : published t = [nextRecord ps code])
    (h : Ring m (ps ++ [nextRecord ps code])) : Appended ps code t m :=
  ⟨.inr ht, by rwa [ht]⟩

theorem published_read {e : Event eeprom} {offset len : Nat} (he : e.op = .read offset len) :
    published (t ++ [e]) = published t := by
  rw [published_snoc, publication_read he]
  simp

theorem published_other {e : Event eeprom} {offset len : Nat} {data : Vector Byte len}
    (he : e.op = .write offset len data) (hd : data.toList ≠ committed.toList) :
    published (t ++ [e]) = published t := by
  rw [published_snoc, publication_other he hd]
  simp

/-- Step 1 keeps the ring, and the commit page is cleared when it returns 0. -/
theorem invalidateToken_safe (ht : published t = []) (h : Ring m ps) :
    Safe eeprom
      (fun t rc m' => published t = [] ∧ Ring m' ps ∧ (rc = 0 → commitOf m' (target ps) = invalid))
      (Appended ps code) (invalidateToken (slotOffset (target ps))) t m := by
  refine safe_write fun e m1 he _ hw => ?_
  have hr := h.invalidate hw
  have hp := (published_other (t := t) he (by decide)).trans ht
  refine ⟨.none hp hr, fun rc => ?_⟩
  split
  · next hrc => exact ⟨hp, hr, fun h0 => absurd h0 hrc⟩
  refine safe_read (fun e he => .none ((published_read he).trans hp) hr)
    fun e rc check he hcheck => ?_
  have hp := (published_read he).trans hp
  simp only
  split
  · next hrc => exact ⟨hp, hr, fun h0 => absurd h0 hrc⟩
  · next hrc =>
    refine ⟨hp, hr, fun h0 => ?_⟩
    split at h0
    · exact absurd h0 (by decide)
    · next hclear => exact (hcheck (not_not.mp hrc)).symm.trans (not_not.mp hclear)

/-- Step 2 keeps the ring while the commit page is cleared, and the body is programmed when it
returns 0. -/
theorem programBody_safe {sequence : Word} (ht : published t = []) (h : Ring m ps)
    (hc : commitOf m (target ps) = invalid) :
    Safe eeprom
      (fun t rc m' => published t = [] ∧ Ring m' ps ∧
        (rc = 0 → recordOf m' (target ps) = bodyOf sequence code))
      (Appended ps code) (programBody (slotOffset (target ps)) (bodyOf sequence code)) t m := by
  have hbody : (bodyOf sequence code).toList ≠ committed.toList := by
    intro he
    have := congrArg List.length he
    simp only [Vector.length_toList] at this
    exact absurd this (by decide)
  refine safe_write fun e m1 he _ hw => ?_
  have hr := (h.body hc hw).1
  have hp := (published_other (t := t) he hbody).trans ht
  refine ⟨.none hp hr, fun rc => ?_⟩
  split
  · next hrc => exact ⟨hp, hr, fun h0 => absurd h0 hrc⟩
  refine safe_read (fun e he => .none ((published_read he).trans hp) hr)
    fun e rc check he hcheck => ?_
  have hp := (published_read he).trans hp
  simp only
  split
  · next hrc => exact ⟨hp, hr, fun h0 => absurd h0 hrc⟩
  · next hrc =>
    refine ⟨hp, hr, fun h0 => ?_⟩
    split at h0
    · exact absurd h0 (by decide)
    · next hsame => exact (hcheck (not_not.mp hrc)).symm.trans (not_not.mp hsame)

/-- Step 3 publishes the record or keeps the ring, and has published it when it returns 0. -/
theorem publishRecord_safe (ht : published t = []) (h : Ring m ps)
    (hb : recordOf m (target ps) = bodyOf (BitVec.ofNat 32 (ps.length + 1)) code) :
    Safe eeprom
      (fun t rc m' => Appended ps code t m' ∧ (rc = 0 → published t = [nextRecord ps code]))
      (Appended ps code)
      (publishRecord (slotOffset (target ps)) (bodyOf (BitVec.ofNat 32 (ps.length + 1)) code))
      t m := by
  refine safe_write fun e m1 he hm hw => ?_
  have hcommit := h.commit hb hw
  have hp : published (t ++ [e]) =
      if commitOf m1 (target ps) = committed then [nextRecord ps code] else [] := by
    rw [published_snoc, publication_commit he, ht, hm]
    split at hcommit
    · next hc =>
      have hseq : sequenceOf m1 (target ps) = BitVec.ofNat 32 (ps.length + 1) := hcommit.2.2.1
      have hcode : codeOf m1 (target ps) = code := hcommit.2.2.2
      rw [if_pos hc, if_pos hc, hseq, hcode]
      rfl
    · next hc =>
      rw [if_neg hc, if_neg hc]
      rfl
  have hA : ∀ u, published u = published (t ++ [e]) → Appended ps code u m1 := by
    intro u hu
    split at hcommit
    · next hc => exact .some (by rw [hu, hp, if_pos hc]) hcommit.1
    · next hc => exact .none (by rw [hu, hp, if_neg hc]) hcommit
  refine ⟨hA _ rfl, fun rc => ?_⟩
  split
  · next hrc => exact ⟨hA _ rfl, fun h0 => absurd h0 hrc⟩
  refine safe_read (fun e he => hA _ (published_read he)) fun e rc check he hcheck => ?_
  simp only
  split
  · next hrc => exact ⟨hA _ (published_read he), fun h0 => absurd h0 hrc⟩
  · next hrc =>
    refine ⟨hA _ (published_read he), fun h0 => ?_⟩
    split at h0
    · exact absurd h0 (by decide)
    · next hok =>
      have hv : Valid m1 (target ps) := by
        rw [Valid, ← show check = slotOf m1 (target ps) from hcheck (not_not.mp hrc)]
        simp only [Bool.or_eq_true, Bool.not_eq_true', not_or, Bool.not_eq_false] at hok
        exact hok.1
      rw [published_read he, hp, if_pos (valid_commit hv)]

theorem Appended.fail (h : Appended ps code t m) {rc : Int} (hrc : rc ≠ 0) :
    AppendReturns dev ps code t (rc, .some { tracking dev ps with initialized := false }) m :=
  ⟨h, fun h0 => absurd h0 hrc, fun _ => rfl⟩

/-- The steps of an append over a ring. -/
theorem appendSteps_safe (h : Ring m ps) :
    Safe eeprom (AppendReturns dev ps code) (Appended ps code)
      (appendSteps (tracking dev ps) (target ps) (BitVec.ofNat 32 (ps.length + 1))
        (bodyOf (BitVec.ofNat 32 (ps.length + 1)) code)) [] m := by
  refine Safe.bind ((invalidateToken_safe rfl h).mono ?_ fun _ _ hC => hC)
  rintro t rc m ⟨ht, hr, hc⟩
  split
  · next hrc => exact (Appended.none ht hr).fail hrc
  next hrc =>
  refine Safe.bind ((programBody_safe ht hr (hc (not_not.mp hrc))).mono ?_ fun _ _ hC => hC)
  rintro t rc m ⟨ht, hr, hb⟩
  split
  · next hrc => exact (Appended.none ht hr).fail hrc
  next hrc =>
  refine Safe.bind ((publishRecord_safe ht hr (hb (not_not.mp hrc))).mono ?_ fun _ _ hC => hC)
  rintro t rc m ⟨hA, hp⟩
  split
  · next hrc => exact hA.fail hrc
  next hrc =>
  refine ⟨hA, fun _ => ⟨hp (not_not.mp hrc), ?_⟩, fun h0 => absurd rfl h0⟩
  simp [tracking]

end Steps

/-! ### Calls on a context -/

theorem usable_tracking {dev : Dev} (hready : dev.ready = true) (ps : List Publication) :
    usable (some (tracking dev ps)) = 0 := by
  have h8 : (ps.length - 1) % slotCount < slotCount := Nat.mod_lt _ (by decide)
  by_cases hne : ps = []
  · simp [usable, tracking, hne, hready]
  · simp [usable, tracking, hne, hready, Nat.not_le.mpr h8]

theorem usable_uninitialized {log : Context} (h : log.initialized = false) :
    usable (some log) ≠ 0 := by
  simp only [usable]
  split
  · decide
  · simp [h, Errno.eio]

theorem faultLogAppend_uninitialized {log : Context} (h : log.initialized = false) (code : Word) :
    faultLogAppend (some log) code = pure (usable (some log), some log) := by
  rw [faultLogAppend]
  exact if_pos (usable_uninitialized h)

/-- An append on a tracking context goes to the next slot with the next sequence number. -/
theorem faultLogAppend_tracking {dev : Dev} (hready : dev.ready = true) (ps : List Publication)
    (code : Word) : faultLogAppend (some (tracking dev ps)) code =
      appendSteps (tracking dev ps) (target ps) (BitVec.ofNat 32 (ps.length + 1))
        (bodyOf (BitVec.ofNat 32 (ps.length + 1)) code) := by
  rw [faultLogAppend]
  simp only [usable_tracking hready, ne_eq, not_true_eq_false, if_false]
  by_cases hne : ps = []
  · subst hne
    rfl
  · have hlen : 0 < ps.length := List.length_pos_iff.mpr hne
    have hslot : (tracking dev ps).newestSlot = (ps.length - 1) % slotCount := if_neg hne
    have h8 : (ps.length - 1) % slotCount ≠ noSlot := by
      have : (ps.length - 1) % slotCount < slotCount := Nat.mod_lt _ (by decide)
      simp only [slotCount, noSlot] at *
      omega
    have htarget : ((ps.length - 1) % slotCount + 1) % slotCount = target ps := by
      simp only [target, slotCount]
      omega
    have hseq : (tracking dev ps).sequence + 1 = BitVec.ofNat 32 (ps.length + 1) :=
      (BitVec.ofNat_add ..).symm
    rw [hslot, if_neg h8, if_neg h8, htarget, hseq]

/-- A read of the newest record, when its slot holds it. -/
theorem latest_run {dev : Dev} (hready : dev.ready = true) {m : Memory} {k : Nat}
    (hk : k < slotCount) (hv : Valid m k) (out : Word) :
    (faultLogLatest (some ⟨some dev, sequenceOf m k, k, true⟩) (some out)).run faultFree m =
      ((0, some ⟨some dev, sequenceOf m k, k, true⟩, some (codeOf m k)), m) := by
  have h8 : k ≠ noSlot := by simp only [slotCount, noSlot] at *; omega
  have husable : usable (some ⟨some dev, sequenceOf m k, k, true⟩) = 0 := by
    simp [usable, hready, Nat.not_le.mpr hk]
  have hvalid : recordValid (slotOf m k) = true := hv
  have hseq : loadLe32 (slice (slotOf m k) 4 4 (by decide)) = sequenceOf m k := rfl
  rw [faultLogLatest]
  simp only [husable, ne_eq, not_true_eq_false, if_false]
  rw [if_neg h8, Program.bind_eq, Program.run_bind, readSlot_run]
  simp only [not_true_eq_false, if_false, hvalid, Bool.not_true, Bool.false_or, hseq,
    bne_self_eq_false, Bool.false_eq_true]
  rfl

/-- A read of the record published last. -/
theorem faultLogLatest_run {dev : Dev} (hready : dev.ready = true) {m : Memory}
    {ps : List Publication} (h : Ring m ps) (out : Word) :
    (faultLogLatest (some (tracking dev ps)) (some out)).run faultFree m =
      ((if ps = [] then -Errno.enoent else 0, some (tracking dev ps),
        some ((ps.getLast?.map (·.code)).getD out)), m) := by
  by_cases hne : ps = []
  · subst hne
    rw [faultLogLatest]
    simp only [usable_tracking hready, ne_eq, not_true_eq_false, if_false]
    rfl
  · obtain ⟨hleads, hvalid, hsequence, hcode⟩ := h.leads hne
    have hslot : (tracking dev ps).newestSlot = (ps.getLast hne).slot := by
      rw [List.getLast_eq_getElem, (h.placed _ _).1]
      exact if_neg hne
    have hlast : (tracking dev ps).sequence = (ps.getLast hne).sequence := by
      have hlen : ps.length - 1 + 1 = ps.length :=
        Nat.sub_add_cancel (List.length_pos_iff.mpr hne)
      rw [List.getLast_eq_getElem, (h.placed _ _).2, hlen]
      rfl
    have hcontext : tracking dev ps =
        ⟨some dev, sequenceOf m (ps.getLast hne).slot, (ps.getLast hne).slot, true⟩ := by
      rw [hsequence, ← hslot, ← hlast]
      rfl
    rw [if_neg hne, hcontext, latest_run hready hleads.bound hvalid, hcode,
      List.getLast?_eq_some_getLast hne]
    rfl

end CortexLabs.FaultLog
