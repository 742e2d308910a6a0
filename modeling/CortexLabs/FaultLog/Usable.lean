import CortexLabs.FaultLog.Append

/-! What an append does to an image that recovery has accepted, when nothing fails.  Recovery looks
at ages, the append at positions: the record that it overwrites is the one in the slot after the
newest, and a record elsewhere that is seven behind the newest is then eight behind, which the next
recovery rejects. -/

namespace CortexLabs.FaultLog

open Device

/-! ### A fault-free append -/

/-- The image after the three writes of an append of `body` to slot `k`. -/
def appendedImage (m : Memory) (k : Nat) (body : Vector Byte bodySize) : Memory :=
  ((m.write (slotOffset k + commitOffset) invalid).write (slotOffset k) body).write
    (slotOffset k + commitOffset) committed

section Appended

variable {m : Memory} {k slot : Nat} {sequence code : Word}

theorem appended_other (body : Vector Byte bodySize) (h : slot ≠ k) :
    slotOf (appendedImage m k body) slot = slotOf m slot := by
  have hlen : commitOffset + commitSize ≤ slotSize := by decide
  have hbody : (m.write (slotOffset k + commitOffset) invalid).Torn (slotOffset k + 0) body _ :=
    Memory.Torn.write _ _ _
  rw [appendedImage, torn_other hlen (Memory.Torn.write _ _ _) h]
  exact (torn_other (by decide) hbody h).trans (torn_other hlen (Memory.Torn.write _ _ _) h)

theorem appended_commit (body : Vector Byte bodySize) :
    commitOf (appendedImage m k body) k = committed :=
  Memory.read_write _ _ _

theorem appended_body (body : Vector Byte bodySize) :
    recordOf (appendedImage m k body) k = body := by
  rw [appendedImage, torn_commit_body (Memory.Torn.write _ _ _)]
  exact Memory.read_write _ _ _

/-- The slot of an append holds its record. -/
theorem appended_record (m : Memory) (k : Nat) (sequence code : Word) :
    Valid (appendedImage m k (bodyOf sequence code)) k ∧
      sequenceOf (appendedImage m k (bodyOf sequence code)) k = sequence ∧
      codeOf (appendedImage m k (bodyOf sequence code)) k = code :=
  valid_of_body (appended_commit _) (appended_body _)

theorem run_write {α : Type} {offset len : Nat} {data : Vector Byte len}
    {f : Int → EepromProgram α} : (eepromWrite offset data >>= f).run faultFree m =
      (f 0).run faultFree (m.write offset data) := rfl

theorem run_read {α : Type} {offset len : Nat} {f : Int × Vector Byte len → EepromProgram α} :
    (eepromRead offset len >>= f).run faultFree m =
      (f (0, m.read offset len)).run faultFree m := rfl

theorem invalidateToken_run (base : Nat) (m : Memory) :
    (invalidateToken base).run faultFree m = (0, m.write (base + commitOffset) invalid) := by
  rw [invalidateToken, run_write, if_neg (by simp), run_read]
  simp [Memory.read_write]

theorem programBody_run (base : Nat) (body : Vector Byte bodySize) (m : Memory) :
    (programBody base body).run faultFree m = (0, m.write base body) := by
  rw [programBody, run_write, if_neg (by simp), run_read]
  simp [Memory.read_write]

theorem publishRecord_run {m' : Memory}
    (hm : m.write (slotOffset k + commitOffset) committed = m') (hv : Valid m' k)
    (hb : recordOf m' k = bodyOf sequence code) :
    (publishRecord (slotOffset k) (bodyOf sequence code)).run faultFree m = (0, m') := by
  have hread : m'.read (slotOffset k) slotSize = slotOf m' k := rfl
  have hvalid : recordValid (slotOf m' k) = true := hv
  have hbody : slice (slotOf m' k) 0 bodySize (by decide) = bodyOf sequence code :=
    Memory.slice_read _ |>.trans hb
  rw [publishRecord, run_write, if_neg (by simp), run_read, hm]
  simp [hread, hvalid, hbody]

/-- A fault-free append to slot `k` returns 0 and the context of its record. -/
theorem appendSteps_run (log : Context) (k : Nat) (sequence code : Word) (m : Memory) :
    (appendSteps log k sequence (bodyOf sequence code)).run faultFree m =
      ((0, some { log with sequence, newestSlot := k, initialized := true }),
        appendedImage m k (bodyOf sequence code)) := by
  have hpublish := publishRecord_run (m := (m.write (slotOffset k + commitOffset) invalid).write
    (slotOffset k) (bodyOf sequence code)) rfl (appended_record m k sequence code).1
    (appended_body _)
  rw [appendSteps, Program.bind_eq, Program.run_bind, invalidateToken_run, if_neg (by simp),
    Program.bind_eq, Program.run_bind, programBody_run, if_neg (by simp), Program.bind_eq,
    Program.run_bind, hpublish, if_neg (by simp)]
  rfl

end Appended

/-! ### Accepted images -/

section Accepted

variable {dev : Dev} {m : Memory} {log : Context} {k : Nat} {code : Word}

/-- An image that recovery accepts has no valid slot, or one that leads the others. -/
theorem recovered_cases (h : recovered dev m = (0, some log)) :
    ((∀ slot < slotCount, ¬Valid m slot) ∧ log = ⟨some dev, 0, noSlot, true⟩) ∨
      Leads m log.newestSlot ∧
        log = ⟨some dev, sequenceOf m log.newestSlot, log.newestSlot, true⟩ := by
  have hs := scanned_knows m (Nat.le_refl slotCount)
  by_cases hnone : (scanned m slotCount).newestSlot = noSlot
  · have hblank := hs.none hnone
    rw [recovered_empty hblank] at h
    exact .inl ⟨hblank, (Option.some.inj (congrArg Prod.snd h)).symm⟩
  · obtain ⟨hbound, hvalid, hseq⟩ := hs.newest hnone
    rw [recovered] at h
    split at h
    · have hrc : -Errno.eilseq = 0 := congrArg Prod.fst h
      exact absurd hrc (by decide)
    next hlegal =>
    have hlog := (Option.some.inj (congrArg Prod.snd h)).symm
    rw [hseq] at hlog
    have hslot : log.newestSlot = (scanned m slotCount).newestSlot := by rw [hlog]
    rw [hslot]
    refine .inr ⟨⟨hbound, hvalid, fun slot hslot hv hne => ?_⟩, hlog⟩
    have hage := mt (fun hbad => (illegal_iff hs).mpr ⟨slot, hslot, hv, hne, hbad⟩) hlegal
    rw [hseq] at hage
    exact not_not.mp hage

/-- No two slots of an image lead it. -/
theorem leads_unique {j : Nat} (hj : Leads m j) (hk : Leads m k) : j = k := by
  by_contra hne
  have hahead := hj.ahead k hk.bound hk.valid (Ne.symm hne)
  have hbehind := hk.ahead j hj.bound hj.valid hne
  bv_omega

/-- Recovery accepts an image exactly when it has no valid slot or one that leads the others. -/
theorem recovered_iff (dev : Dev) (m : Memory) :
    (recovered dev m).1 = 0 ↔ (∀ slot < slotCount, ¬Valid m slot) ∨ ∃ k, Leads m k := by
  constructor
  · intro h
    rw [recovered] at h
    split at h
    · exact absurd (show -Errno.eilseq = 0 from h) (by decide)
    next hlegal =>
    have haccepted : recovered dev m = (0, some ⟨some dev, (scanned m slotCount).sequence,
        (scanned m slotCount).newestSlot, true⟩) := if_neg hlegal
    rcases recovered_cases haccepted with ⟨hblank, -⟩ | ⟨hleads, -⟩
    · exact .inl hblank
    · exact .inr ⟨_, hleads⟩
  · rintro (hblank | ⟨k, hleads⟩)
    · rw [recovered_empty hblank]
    · rw [recovered_leads hleads]

theorem recovered_refused (h : (recovered dev m).1 ≠ 0) :
    recovered dev m = (-Errno.eilseq, some .cleared) := by
  rw [recovered] at h ⊢
  split at h
  next hillegal => exact if_pos hillegal
  · exact absurd rfl h

/-- With successful reads, initialization returns 0 exactly when no slot is valid or one is ahead of
every other valid slot by 1 to 7 modulo `2^32`.  That slot is unique and the newest, wherever it is,
and without it the context stays uninitialized. -/
theorem init_selects_newest (hready : dev.ready = true) (hsize : logBytes ≤ dev.size) (log0 : Context)
    (m : Memory) : ∃ rc log, (faultLogInit (some log0) (some dev)).run faultFree m =
      ((rc, some log), m) ∧
    (rc = 0 ↔ (∀ slot < slotCount, ¬Valid m slot) ∨ ∃ k, Leads m k) ∧
    (∀ k, Leads m k → log = ⟨some dev, sequenceOf m k, k, true⟩ ∧ ∀ j, Leads m j → j = k) ∧
    (rc = 0 → log.initialized = true ∧ log.dev = some dev) ∧
    (rc ≠ 0 → rc = -Errno.eilseq ∧ log.initialized = false) := by
  rw [faultLogInit_run hready hsize]
  have haccept := recovered_iff dev m
  by_cases hrc : (recovered dev m).1 = 0
  · have hcase := haccept.mp hrc
    rcases hcase with hblank | ⟨k, hleads⟩
    · rw [recovered_empty hblank]
      exact ⟨_, _, rfl, ⟨fun _ => .inl hblank, fun _ => rfl⟩,
        fun k hk => absurd hk.valid (hblank k hk.bound), fun _ => ⟨rfl, rfl⟩, fun h => absurd rfl h⟩
    · rw [recovered_leads hleads]
      refine ⟨_, _, rfl, ⟨fun _ => .inr ⟨k, hleads⟩, fun _ => rfl⟩, fun j hj => ?_,
        fun _ => ⟨rfl, rfl⟩, fun h => absurd rfl h⟩
      obtain rfl := leads_unique hj hleads
      exact ⟨rfl, fun i hi => leads_unique hi hleads⟩
  · have hnone := mt haccept.mpr hrc
    rw [recovered_refused hrc]
    refine ⟨_, _, rfl, ⟨fun h => absurd h (by decide), fun h => absurd h hnone⟩, fun k hk => ?_,
      fun h => absurd h (by decide), fun _ => ⟨rfl, rfl⟩⟩
    exact absurd (.inr ⟨k, hk⟩) hnone

/-- In an accepted image, a valid slot with the sequence number that recovery found leads. -/
theorem leads_of_sequence (h : recovered dev m = (0, some log)) (hk : k < slotCount)
    (hv : Valid m k) (hs : sequenceOf m k = log.sequence) : Leads m k := by
  rcases recovered_cases h with ⟨hblank, -⟩ | ⟨hleads, hlog⟩
  · exact absurd hv (hblank k hk)
  · by_cases he : k = log.newestSlot
    · exact he ▸ hleads
    · have hlast : log.sequence = sequenceOf m log.newestSlot := by rw [hlog]
      refine absurd ?_ (hleads.ahead k hk hv he).1
      rw [hs, ← hlast]
      exact BitVec.sub_self _

/-- A fault-free append of `code` returns 0, a fault-free initialization after it returns 0 with
the sequence number advanced by one, and then the latest code is `code`. -/
def StaysUsable (dev : Dev) (log : Context) (m : Memory) (code : Word) : Prop :=
  ∃ log1 log2 m',
    (faultLogAppend (some log) code).run faultFree m = ((0, some log1), m') ∧
    (faultLogInit (some log1) (some dev)).run faultFree m' = ((0, some log2), m') ∧
    log2.sequence = log.sequence + 1 ∧
    ∀ out, (faultLogLatest (some log2) (some out)).run faultFree m' =
      ((0, some log2, some code), m')

/-- The slot that an append writes. -/
def nextSlot (log : Context) : Nat :=
  if log.newestSlot = noSlot then 0 else (log.newestSlot + 1) % slotCount

theorem nextSlot_lt (log : Context) : nextSlot log < slotCount := by
  rw [nextSlot]
  split
  · decide
  · exact Nat.mod_lt _ (by decide)

/-- An append to an accepted image takes the next sequence number, in an empty log too. -/
theorem append_run (hready : dev.ready = true) (h : recovered dev m = (0, some log)) :
    (faultLogAppend (some log) code).run faultFree m =
      ((0, some ⟨some dev, log.sequence + 1, nextSlot log, true⟩),
        appendedImage m (nextSlot log) (bodyOf (log.sequence + 1) code)) := by
  rcases recovered_cases h with ⟨-, rfl⟩ | ⟨hleads, hlog⟩
  · have husable : usable (some ⟨some dev, 0, noSlot, true⟩) = 0 := by simp [usable, hready]
    rw [faultLogAppend]
    simp only [husable, ne_eq, not_true_eq_false, if_false, if_true]
    exact appendSteps_run _ _ _ _ _
  · have h8 : log.newestSlot ≠ noSlot := by
      have := hleads.bound
      simp only [slotCount, noSlot] at *
      omega
    have husable : usable (some log) = 0 := by
      rw [hlog]
      simp [usable, hready, Nat.not_le.mpr hleads.bound]
    have hdev : log.dev = some dev := by rw [hlog]
    rw [faultLogAppend]
    simp only [husable, ne_eq, not_true_eq_false, if_false, if_neg h8]
    rw [appendSteps_run, nextSlot, if_neg h8, hdev]

/-- The record of an append leads the image after it exactly when no other slot held a record seven
behind the newest. -/
theorem appended_leads (h : recovered dev m = (0, some log)) :
    Leads (appendedImage m (nextSlot log) (bodyOf (log.sequence + 1) code)) (nextSlot log) ↔
      ∀ slot < slotCount, Valid m slot → slot ≠ nextSlot log →
        log.sequence - sequenceOf m slot ≠ 7 := by
  obtain ⟨hvalid, hseq, -⟩ := appended_record m (nextSlot log) (log.sequence + 1) code
  constructor
  · intro hleads slot hslot hv hne hage
    have hother := appended_other (m := m) (bodyOf (log.sequence + 1) code) hne
    have hahead := (hleads.ahead slot hslot ((valid_congr hother).mpr hv) hne).2
    rw [hseq, sequenceOf_congr hother] at hahead
    bv_omega
  · intro hroom
    refine ⟨nextSlot_lt log, hvalid, fun slot hslot hv hne => ?_⟩
    have hother := appended_other (m := m) (bodyOf (log.sequence + 1) code) hne
    rw [valid_congr hother] at hv
    rw [hseq, sequenceOf_congr hother]
    have hseven := hroom slot hslot hv hne
    rcases recovered_cases h with ⟨hblank, -⟩ | ⟨hnewest, hlog⟩
    · exact absurd hv (hblank slot hslot)
    · have hlast : log.sequence = sequenceOf m log.newestSlot := by rw [hlog]
      by_cases he : slot = log.newestSlot
      · rw [he, ← hlast]
        bv_omega
      · have hahead := hnewest.ahead slot hslot hv he
        rw [← hlast] at hahead
        bv_omega

theorem init_accepts {log0 : Context} {m' : Memory}
    (h : (faultLogInit (some log0) (some dev)).run faultFree m = ((0, some log), m')) :
    dev.ready = true ∧ logBytes ≤ dev.size ∧ recovered dev m = (0, some log) := by
  by_cases hready : dev.ready = true
  · by_cases hsize : logBytes ≤ dev.size
    · rw [faultLogInit_run hready hsize] at h
      exact ⟨hready, hsize, congrArg Prod.fst h⟩
    · simp only [faultLogInit, hready, Bool.not_true, Bool.false_eq_true, if_false,
        if_pos (Nat.not_le.mp hsize)] at h
      have hrc : -Errno.enospc = 0 := congrArg (·.1.1) h
      exact absurd hrc (by decide)
  · simp only [faultLogInit, hready, Bool.not_false, if_true] at h
    have hrc : -Errno.enodev = 0 := congrArg (·.1.1) h
    exact absurd hrc (by decide)

theorem stays_usable_leads {log0 : Context} {m' : Memory}
    (h : (faultLogInit (some log0) (some dev)).run faultFree m = ((0, some log), m')) :
    StaysUsable dev log m code ↔
      Leads (appendedImage m (nextSlot log) (bodyOf (log.sequence + 1) code)) (nextSlot log) := by
  obtain ⟨hready, hsize, hrec⟩ := init_accepts h
  obtain ⟨hvalid, hseq, hcode⟩ := appended_record m (nextSlot log) (log.sequence + 1) code
  rw [StaysUsable, append_run hready hrec]
  generalize appendedImage m (nextSlot log) (bodyOf (log.sequence + 1) code) = m1 at *
  constructor
  · rintro ⟨log1, log2, m2, happend, hinit, hadvance, -⟩
    obtain rfl : m1 = m2 := congrArg Prod.snd happend
    exact leads_of_sequence (init_accepts hinit).2.2 (nextSlot_lt log) hvalid
      (hseq.trans hadvance.symm)
  · intro hleads
    have hinit : (faultLogInit (some ⟨some dev, log.sequence + 1, nextSlot log, true⟩)
        (some dev)).run faultFree m1 =
          ((0, some ⟨some dev, sequenceOf m1 (nextSlot log), nextSlot log, true⟩), m1) := by
      rw [faultLogInit_run hready hsize, recovered_leads hleads]
    refine ⟨_, _, m1, rfl, hinit, hseq, fun out => ?_⟩
    rw [latest_run hready hleads.bound hvalid, hcode]

/-- An image that a fault-free `fault_log_init` accepts stays usable under a fault-free append
exactly when no valid slot but the one that the append writes is seven behind the newest. -/
theorem accepted_stays_usable {log0 : Context} {m' : Memory}
    (h : (faultLogInit (some log0) (some dev)).run faultFree m = ((0, some log), m')) :
    StaysUsable dev log m code ↔ ∀ slot < slotCount, Valid m slot → slot ≠ nextSlot log →
      log.sequence - sequenceOf m slot ≠ 7 :=
  (stays_usable_leads h).trans (appended_leads (init_accepts h).2.2)

/-- An image of two records: the newest, with sequence number 8, in slot 0, and one with sequence
number 1 in slot `k`. -/
def behindIn (k : Nat) : Memory :=
  appendedImage (appendedImage (fun _ => 0xff) k (bodyOf 1 0)) 0 (bodyOf 8 0)

theorem behindIn_records {k : Nat} (hk : k ≠ 0) : Leads (behindIn k) 0 ∧
    sequenceOf (behindIn k) 0 = 8 ∧ Valid (behindIn k) k ∧ sequenceOf (behindIn k) k = 1 ∧
    ∀ slot, Valid (behindIn k) slot → slot = 0 ∨ slot = k := by
  obtain ⟨hv0, hs0, -⟩ := appended_record (appendedImage (fun _ => 0xff) k (bodyOf 1 0)) 0 8 0
  obtain ⟨hvk, hsk, -⟩ := appended_record (fun _ => 0xff) k 1 0
  have hother : ∀ slot ≠ 0, slotOf (behindIn k) slot =
      slotOf (appendedImage (fun _ => 0xff) k (bodyOf 1 0)) slot :=
    fun slot hne => appended_other _ hne
  have honly : ∀ slot, Valid (behindIn k) slot → slot = 0 ∨ slot = k := by
    intro slot hv
    by_contra hne
    obtain ⟨hne0, hnek⟩ := not_or.mp hne
    rw [valid_congr (hother slot hne0), valid_congr (appended_other _ hnek)] at hv
    exact not_valid_erased slot hv
  refine ⟨⟨by decide, hv0, fun slot _ hv hne => ?_⟩, hs0, (valid_congr (hother k hk)).mpr hvk,
    (sequenceOf_congr (hother k hk)).trans hsk, honly⟩
  obtain rfl := (honly slot hv).resolve_left hne
  rw [sequenceOf_congr (hother slot hne), hsk, show sequenceOf (behindIn slot) 0 = 8 from hs0]
  decide

theorem behindIn_init {k : Nat} (hk : k ≠ 0) :
    (faultLogInit (some .cleared) (some ⟨true, 256⟩)).run faultFree (behindIn k) =
      ((0, some ⟨some ⟨true, 256⟩, 8, 0, true⟩), behindIn k) := by
  obtain ⟨hleads, hs0, -⟩ := behindIn_records hk
  rw [faultLogInit_run rfl (by decide), recovered_leads hleads, hs0]

/-- An image stays usable when its record seven behind the newest is in the slot that the append
writes. -/
theorem behind_next_stays_usable :
    StaysUsable ⟨true, 256⟩ ⟨some ⟨true, 256⟩, 8, 0, true⟩ (behindIn 1) 5 := by
  obtain ⟨-, hs0, -, -, honly⟩ := behindIn_records (k := 1) (by decide)
  refine (accepted_stays_usable (behindIn_init (by decide))).mpr fun slot _ hv hne => ?_
  obtain rfl := (honly slot hv).resolve_right hne
  rw [hs0]
  decide

/-- The record seven behind the newest is not in the slot that the next append writes. -/
def sevenBehind : Memory := behindIn 2

/-- Recovery finds the record of sequence number 8 in slot 0, before an older one. -/
theorem sevenBehind_selected : (faultLogInit (some .cleared) (some ⟨true, 256⟩)).run faultFree
    sevenBehind = ((0, some ⟨some ⟨true, 256⟩, 8, 0, true⟩), sevenBehind) := by
  obtain ⟨hleads, hs0, -⟩ : Leads sevenBehind 0 ∧ sequenceOf sevenBehind 0 = 8 ∧ _ :=
    behindIn_records (by decide)
  have hready : Dev.ready ⟨true, 256⟩ = true := rfl
  have hsize : logBytes ≤ Dev.size ⟨true, 256⟩ := by decide
  obtain ⟨rc, log, hrun, haccept, hnewest, -, -⟩ :=
    init_selects_newest hready hsize .cleared sevenBehind
  rw [hrun, haccept.mpr (.inr ⟨0, hleads⟩), (hnewest 0 hleads).1, hs0]

/-- Recovery accepts `sevenBehind`, and no longer does after a fault-free append. -/
theorem sevenBehind_unusable : ∃ log,
    (faultLogInit (some .cleared) (some ⟨true, 256⟩)).run faultFree sevenBehind =
      ((0, some log), sevenBehind) ∧ ¬StaysUsable ⟨true, 256⟩ log sevenBehind 5 := by
  obtain ⟨hleads, hs0, hv2, hs2, -⟩ := behindIn_records (k := 2) (by decide)
  refine ⟨_, behindIn_init (by decide), fun husable => ?_⟩
  have hrec := (init_accepts (behindIn_init (k := 2) (by decide))).2.2
  have hleads' := (stays_usable_leads (behindIn_init (by decide))).mp husable
  have hroom := (appended_leads hrec).mp hleads'
  refine hroom 2 (by decide) hv2 (by decide) ?_
  rw [hs2]
  decide

end Accepted

end CortexLabs.FaultLog
