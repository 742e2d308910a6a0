import CortexLabs.Device.Plan
import CortexLabs.Device.Wp
import CortexLabs.FaultLog.Retention

/-! What an append does when the EEPROM calls return whatever they like: its six operations are a
plan that stops at the first failure, and a context that it has left unusable stays so, without an
operation on the EEPROM, until an initialization succeeds. -/

namespace CortexLabs.FaultLog

open Device Errno

/-! ### The plan of an append -/

/-- A write, whose status is its result. -/
def writeStage {len : Nat} (offset : Nat) (data : Vector Byte len) : Stage Op Ans where
  op := .write offset len data
  status := fun (rc : Int) => rc

/-- A read, whose status is its result, or `-EIO` when what it has read does not match. -/
def checkStage (offset len : Nat) (matching : Vector Byte len → Bool) : Stage Op Ans where
  op := .read offset len
  status := fun (x : Int × Vector Byte len) =>
    if x.1 ≠ 0 then x.1 else if matching x.2 then 0 else -eio

def invalidatePlan (base : Nat) : List (Stage Op Ans) :=
  [writeStage (base + commitOffset) invalid,
    checkStage (base + commitOffset) commitSize (· == invalid)]

def programPlan (base : Nat) (body : Vector Byte bodySize) : List (Stage Op Ans) :=
  [writeStage base body, checkStage base bodySize (· == body)]

theorem commit_within : commitOffset + commitSize ≤ slotSize := by decide

/-- Whether a slot read back is the body and the commit page that were written. -/
def readBack (body : Vector Byte bodySize) (check : Vector Byte slotSize) : Bool :=
  slice check commitOffset commitSize commit_within == committed &&
    slice check 0 bodySize body_within == body

def publishPlan (base : Nat) (body : Vector Byte bodySize) : List (Stage Op Ans) :=
  [writeStage (base + commitOffset) committed, checkStage base slotSize (readBack body)]

/-- The six operations of an append of `body` to the slot at `base`, each with what it must give
back for the append to go on. -/
def appendPlan (base : Nat) (body : Vector Byte bodySize) : List (Stage Op Ans) :=
  invalidatePlan base ++ (programPlan base body ++ publishPlan base body)

/-- A write and the read that checks it are a plan. -/
theorem write_check {len n : Nat} {data : Vector Byte len} (offset readOffset : Nat)
    (matching : Vector Byte n → Bool) :
    (do let rc ← eepromWrite offset data
        if rc ≠ 0 then return rc
        let x ← eepromRead readOffset n
        if x.1 ≠ 0 then return x.1
        return if matching x.2 then 0 else -eio : EepromProgram Int) =
      performAll [writeStage offset data, checkStage readOffset n matching] := by
  rw [performAll_cons]
  show Program.call _ _ = _
  congr 1
  apply funext
  intro (rc : Int)
  show (if rc ≠ 0 then _ else _) = if rc ≠ 0 then _ else _
  congr 1
  rw [performAll_cons]
  show Program.call _ _ = _
  congr 1
  apply funext
  intro (x : Int × Vector Byte n)
  show (if x.1 ≠ 0 then Program.ret x.1 else .ret (if matching x.2 then 0 else -eio)) =
    if (if x.1 ≠ 0 then x.1 else if matching x.2 then 0 else -eio) ≠ 0 then
      .ret (if x.1 ≠ 0 then x.1 else if matching x.2 then 0 else -eio) else .ret 0
  by_cases hx : x.1 = 0
  · simp only [hx, ne_eq, not_true_eq_false, if_false]
    split
    · rfl
    · rfl
  · simp only [hx, ne_eq, not_false_eq_true, if_true]

theorem invalidateToken_eq (base : Nat) :
    invalidateToken base = performAll (invalidatePlan base) := by
  rw [invalidatePlan, ← write_check, invalidateToken]
  simp only [beq_iff_eq, ne_eq, ite_not]

theorem programBody_eq (base : Nat) (body : Vector Byte bodySize) :
    programBody base body = performAll (programPlan base body) := by
  rw [programPlan, ← write_check, programBody]
  simp only [beq_iff_eq, ne_eq, ite_not]

/-- With the body that an append builds, the check of the whole record is that it has read back what
was written. -/
theorem readBack_eq (sequence code : Word) (check : Vector Byte slotSize) :
    (recordValid check && slice check 0 bodySize body_within == bodyOf sequence code) =
      readBack (bodyOf sequence code) check := by
  rw [readBack, Bool.eq_iff_iff]
  simp only [Bool.and_eq_true, beq_iff_eq]
  apply and_congr_left
  intro hbody
  constructor
  · intro hvalid
    rw [recordValid, Bool.and_eq_true, Bool.and_eq_true, beq_iff_eq] at hvalid
    exact hvalid.1.1
  · intro hcommit
    let m : Memory := Memory.write (fun _ => 0) (slotOffset 0) check
    have hslot : slotOf m 0 = check := Memory.read_write _ _ _
    have hc : commitOf m 0 = committed := by
      rw [← hcommit, ← hslot, slotOf, Memory.slice_read]
      rfl
    have hb : recordOf m 0 = bodyOf sequence code := by
      rw [← hbody, ← hslot, slotOf, Memory.slice_read]
      rfl
    exact hslot ▸ (valid_of_body hc hb).1

theorem publishRecord_eq (base : Nat) (sequence code : Word) :
    publishRecord base (bodyOf sequence code) =
      performAll (publishPlan base (bodyOf sequence code)) := by
  have hmatch : ∀ a b : Bool, (if (!a || !b) = true then -eio else 0) =
      if (a && b) = true then 0 else -eio := by decide
  rw [publishPlan, ← write_check, publishRecord]
  simp only [bne, hmatch, readBack_eq]

/-- What an append of `sequence` to slot `target` leaves of its context. -/
def Context.afterAppend (log : Context) (target : Nat) (sequence : Word) (rc : Int) : Context :=
  if rc = 0 then { log with sequence, newestSlot := target, initialized := true }
  else { log with initialized := false }

theorem appendSteps_eq (log : Context) (target : Nat) (sequence code : Word) :
    appendSteps log target sequence (bodyOf sequence code) =
      performAll (appendPlan (slotOffset target) (bodyOf sequence code)) >>= fun rc =>
        pure (rc, some (log.afterAppend target sequence rc)) := by
  rw [appendPlan]
  simp only [← performAll_append, ← invalidateToken_eq, ← programBody_eq, ← publishRecord_eq]
  rw [appendSteps]
  have hstop : ∀ (p : EepromProgram Int) (next : EepromProgram (Int × Option Context)),
      (p >>= fun rc => if rc ≠ 0 then pure (rc, some { log with initialized := false }) else next) =
      p >>= fun rc => if rc ≠ 0 then pure (rc, some (log.afterAppend target sequence rc))
        else next := by
    intro p next
    congr 1
    funext rc
    by_cases hrc : rc = 0
    · rw [if_neg (not_not.mpr hrc), if_neg (not_not.mpr hrc)]
    · rw [if_pos hrc, if_pos hrc, Context.afterAppend, if_neg hrc]
  have hlast : ∀ rc : Int, (if rc ≠ 0 then pure (rc, some (log.afterAppend target sequence rc)) else
      pure (0, some { log with sequence, newestSlot := target, initialized := true }) :
        EepromProgram (Int × Option Context)) =
      pure (rc, some (log.afterAppend target sequence rc)) := by
    intro rc
    by_cases hrc : rc = 0
    · rw [if_neg (not_not.mpr hrc), hrc, Context.afterAppend, if_pos rfl]
    · rw [if_pos hrc]
  simp only [hstop, hlast]

/-- The sequence number that an append gives its record. -/
def nextSequence (log : Context) : Word := if log.newestSlot = noSlot then 1 else log.sequence + 1

theorem faultLogAppend_usable {log : Context} (h : usable (some log) = 0) (code : Word) :
    faultLogAppend (some log) code =
      appendSteps log (nextSlot log) (nextSequence log) (bodyOf (nextSequence log) code) := by
  rw [faultLogAppend]
  simp only [h, ne_eq, not_true_eq_false, if_false]
  rfl

/-- An append goes to the slot after the newest one. -/
theorem nextSlot_usable {log : Context} (h : usable (some log) = 0) :
    nextSlot log = (log.newestSlot + 1) % slotCount ∧ nextSlot log ≠ log.newestSlot := by
  have hslot : log.newestSlot = noSlot ∨ log.newestSlot < slotCount := by
    by_contra hbad
    have hbad' : log.newestSlot ≠ noSlot ∧ log.newestSlot ≥ slotCount := by omega
    simp only [usable, if_pos hbad'] at h
    split at h
    · exact absurd h (by decide)
    · split at h <;> exact absurd h (by decide)
  rw [nextSlot]
  simp only [slotCount, noSlot] at hslot ⊢
  split <;> omega

/-! ### Calls on a context -/

inductive Request where
  | init (dev : Option Dev)
  | append (code : Word)
  | latest (out : Option Word)

def Request.program (log : Option Context) : Request → EepromProgram (Int × Option Context)
  | .init dev => faultLogInit log dev
  | .append code => faultLogAppend log code
  | .latest out => do
    let (rc, log, _) ← faultLogLatest log out
    return (rc, log)

/-- The context, when the device that it points to is ready or not. -/
def Context.withReady (log : Context) (ready : Bool) : Context :=
  { log with dev := log.dev.map fun dev => { dev with ready } }

/-- A call that has returned: what was asked, the operations that it issued, and its result. -/
structure Returned (D : Behavior Op Ans) where
  request : Request
  ops : List (Event D)
  rc : Int

/-- Calls on a context, one after the other, each from any state of the EEPROM; between two calls
the device may become ready or stop being so. -/
inductive Requests (D : Behavior Op Ans) : Option Context → List (Returned D) → Prop
  | nil (log : Option Context) : Requests D log []
  | call {log log' : Option Context} {request : Request} {s s' : D.State} {t : List (Event D)}
      {rc : Int} {rest : List (Returned D)} :
      Exec D (request.program log) s t (some (rc, log')) s' → Requests D log' rest →
      Requests D log (⟨request, t, rc⟩ :: rest)
  | device {log : Context} (ready : Bool) {rest : List (Returned D)} :
      Requests D (some (log.withReady ready)) rest → Requests D (some log) rest

variable {D : Behavior Op Ans} {log log' : Context} {code : Word}

/-- An append or a latest on a context that is not initialized is an error without an operation. -/
theorem Request.uninitialized (h : log.initialized = false) (request : Request)
    (hinit : ∀ dev, request ≠ .init dev) :
    ∃ rc, rc ≠ 0 ∧ request.program (some log) = pure (rc, some log) := by
  cases request with
  | init dev => exact absurd rfl (hinit dev)
  | append code => exact ⟨_, usable_uninitialized h, faultLogAppend_uninitialized h code⟩
  | latest out =>
    cases out with
    | none => exact ⟨-einval, by decide, rfl⟩
    | some out =>
      refine ⟨_, usable_uninitialized h, ?_⟩
      rw [program, faultLogLatest]
      simp only [if_pos (usable_uninitialized h)]
      rfl

/-- An initialization that fails leaves a context that is not initialized. -/
theorem faultLogInit_failed {dev : Option Dev} {s s' : D.State} {t : List (Event D)} {rc : Int}
    {r : Option Context} (he : Exec D (faultLogInit (some log) dev) s t (some (rc, r)) s')
    (hrc : rc ≠ 0) : r = some .cleared := by
  have hfailed : wp D (fun x _ => x.1 ≠ 0 → x.2 = some .cleared)
      (faultLogInit (some log) dev) s := by
    cases dev with
    | none => exact fun _ => rfl
    | some dev =>
      rw [faultLogInit]
      split
      · exact fun _ => rfl
      · split
        · exact fun _ => rfl
        · apply wp_seq (wp_any _ _)
          intro x d _
          cases x with
          | error rc => exact fun _ => rfl
          | ok scan =>
            dsimp only
            split
            · exact fun _ => rfl
            · exact fun h => absurd rfl h
  exact wp_sound hfailed he hrc

/-- On a context that is not initialized, every append and every latest before an initialization
that succeeds is an error without an operation. -/
theorem requests_uninitialized {calls : List (Returned D)} {r : Option Context}
    (h : Requests D r calls) : ∀ log, r = some log → log.initialized = false →
    (∀ c ∈ calls, (∃ dev, c.request = .init dev) → c.rc ≠ 0) →
    ∀ c ∈ calls, (∀ dev, c.request ≠ .init dev) → c.rc ≠ 0 ∧ c.ops = [] := by
  induction h with
  | nil => exact fun _ _ _ _ c hc => absurd hc List.not_mem_nil
  | @call r r' request s s' t rc rest he _ ih =>
    rintro log rfl hpoisoned hfail c hc hnot
    have hnext : ∃ log', r' = some log' ∧ log'.initialized = false ∧
        ((∀ dev, request ≠ .init dev) → rc ≠ 0 ∧ t = []) := by
      by_cases hinit : ∃ dev, request = .init dev
      · obtain ⟨dev, rfl⟩ := hinit
        have hrc : rc ≠ 0 := hfail _ List.mem_cons_self ⟨dev, rfl⟩
        have he : Exec D (faultLogInit (some log) dev) s t (some (rc, r')) s' := he
        exact ⟨.cleared, faultLogInit_failed he hrc, rfl, fun h => absurd rfl (h dev)⟩
      · obtain ⟨rc', hrc, hprogram⟩ :=
          request.uninitialized hpoisoned fun dev hdev => hinit ⟨dev, hdev⟩
        rw [hprogram] at he
        obtain ⟨rfl, hresult, -⟩ := he.of_ret
        cases hresult
        exact ⟨log, rfl, hpoisoned, fun _ => ⟨hrc, rfl⟩⟩
    obtain ⟨log', hlog', hpoisoned', hquiet⟩ := hnext
    rcases List.mem_cons.mp hc with rfl | hc
    · exact hquiet hnot
    · exact ih log' hlog' hpoisoned' (fun c hc => hfail c (List.mem_cons_of_mem _ hc)) c hc hnot
  | device ready _ ih =>
    rintro log hlog hpoisoned
    cases hlog
    exact ih _ rfl hpoisoned

/-! ### The discipline -/

/-- The operation stays inside slot `k`. -/
def Op.InSlot (k : Nat) : Op → Prop
  | .read offset len | .write offset len _ =>
    slotOffset k ≤ offset ∧ offset + len ≤ slotOffset k + slotSize

theorem appendPlan_inSlot (k : Nat) (body : Vector Byte bodySize) :
    ∀ stage ∈ appendPlan (slotOffset k) body, stage.op.InSlot k := by
  intro stage hstage
  simp only [appendPlan, invalidatePlan, programPlan, publishPlan, List.mem_append, List.mem_cons,
    List.not_mem_nil, or_false] at hstage
  have hbody : bodySize ≤ slotSize := by decide
  have hcommit : commitOffset + commitSize = slotSize := by decide
  rcases hstage with (rfl | rfl) | (rfl | rfl) | rfl | rfl <;>
    simp only [writeStage, checkStage, Op.InSlot] <;> omega

/-- Every append on a usable context, whatever the EEPROM calls return: its operations are the first
ones of the six of `appendPlan`, all inside the slot after the newest one; it returns 0 exactly when
all six have succeeded and read back what was written, and then the context holds the new sequence
number and slot; otherwise it returns the first failing result, after which it has issued nothing,
and the context keeps both but is not initialized, so that every later append or latest is an error
without an operation until an initialization succeeds. -/
theorem append_discipline {s s' : D.State} {t : List (Event D)} {rc : Int} {r : Option Context}
    (husable : usable (some log) = 0)
    (he : Exec D (faultLogAppend (some log) code) s t (some (rc, r)) s') :
    let plan := appendPlan (slotOffset (nextSlot log)) (bodyOf (nextSequence log) code)
    nextSlot log < slotCount ∧ nextSlot log ≠ log.newestSlot ∧
    t.map Event.op <+: plan.map Stage.op ∧ (∀ e ∈ t, e.op.InSlot (nextSlot log)) ∧
    (rc = 0 ↔ List.Forall₂ Stage.Passed plan t) ∧
    (rc = 0 → r = some { log with
      sequence := if log.newestSlot = noSlot then 1 else log.sequence + 1
      newestSlot := (log.newestSlot + 1) % slotCount }) ∧
    (rc ≠ 0 → FailedAt D plan t rc ∧ r = some { log with initialized := false } ∧
      ∀ calls, Requests D r calls → (∀ c ∈ calls, (∃ dev, c.request = .init dev) → c.rc ≠ 0) →
        ∀ c ∈ calls, (∀ dev, c.request ≠ .init dev) → c.rc ≠ 0 ∧ c.ops = []) := by
  obtain ⟨hslot, hother⟩ := nextSlot_usable husable
  rw [faultLogAppend_usable husable, appendSteps_eq] at he
  obtain ⟨rc', hperformed, hresult⟩ := performed_of_exec he
  cases hresult
  refine ⟨nextSlot_lt log, hother, hperformed.ops, ?_, hperformed.passed, ?_, ?_⟩
  · intro e hmem
    obtain ⟨stage, hstage, hop⟩ :=
      List.mem_map.mp (hperformed.ops.subset (List.mem_map_of_mem hmem))
    exact hop ▸ appendPlan_inSlot _ _ stage hstage
  · intro hrc
    have hinit : log.initialized = true := by
      by_contra hno
      exact usable_uninitialized (by simpa using hno) husable
    rw [Context.afterAppend, if_pos hrc, nextSequence, hslot, ← hinit]
  · intro hrc
    rw [Context.afterAppend, if_neg hrc]
    exact ⟨hperformed.failed hrc, rfl, fun calls hcalls hfail =>
      requests_uninitialized hcalls _ rfl rfl hfail⟩

theorem append_succeeds (husable : usable (some log) = 0) (code : Word) (m : Memory) :
    ∃ t m', Exec eeprom (faultLogAppend (some log) code) m t (some (0, some
      { log with sequence := nextSequence log, newestSlot := nextSlot log, initialized := true }))
      m' := by
  have hrun := appendSteps_run log (nextSlot log) (nextSequence log) code m
  rw [← faultLogAppend_usable husable] at hrun
  obtain ⟨t, ht⟩ := faultFree_handles.exec (faultLogAppend (some log) code) m
  rw [hrun] at ht
  exact ⟨t, _, ht⟩

/-- Where nothing fails, an append after the record in slot 3 performs the six operations in slot 4
and takes the next sequence number. -/
theorem append_discipline_succeeds : ∃ t m',
    Exec eeprom (faultLogAppend (some ⟨some ⟨true, 256⟩, 7, 3, true⟩) 42) (fun _ => 0xff) t
      (some (0, some ⟨some ⟨true, 256⟩, 8, 4, true⟩)) m' ∧
    t.map Event.op = (appendPlan (slotOffset 4) (bodyOf 8 42)).map Stage.op := by
  have husable : usable (some ⟨some ⟨true, 256⟩, 7, 3, true⟩) = 0 := by decide
  obtain ⟨t, m', ht⟩ := append_succeeds husable 42 fun _ => 0xff
  obtain ⟨-, -, -, -, hpassed, -, -⟩ := append_discipline husable ht
  exact ⟨t, m', ht, passed_ops (hpassed.mp rfl)⟩

/-- A context without a newest slot takes sequence number 1, whatever number it holds. -/
theorem append_restarts : ∃ log log' : Context, usable (some log) = 0 ∧ (∃ t m',
    Exec eeprom (faultLogAppend (some log) 42) (fun _ => 0xff) t (some (0, some log')) m') ∧
    log'.sequence ≠ log.sequence + 1 := by
  have husable : usable (some ⟨some ⟨true, 256⟩, 5, noSlot, true⟩) = 0 := by decide
  exact ⟨_, _, husable, append_succeeds husable 42 fun _ => 0xff, by decide⟩

end CortexLabs.FaultLog
