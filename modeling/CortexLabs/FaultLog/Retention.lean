import CortexLabs.Device.Footprint
import CortexLabs.FaultLog.Crash
import CortexLabs.FaultLog.Usable

/-! Retention: which records the ring still holds at each point of a run, between the calls and
inside them.  An append writes only the body and the commit page of the slot after the newest one,
so the seven records before it stay; the eighth goes when its commit page is cleared, and its place
is taken by the record that the append publishes. -/

namespace CortexLabs.FaultLog

open Device Relation

/-! ### What a call may write -/

/-- A read, or a write of the body or of the commit page of slot `k`. -/
def Op.TouchesSlot (k : Nat) : Op → Prop
  | .read _ _ => True
  | .write offset len _ => offset = slotOffset k ∧ len = bodySize ∨
      offset = slotOffset k + commitOffset ∧ len = commitSize

/-- The addresses that no write to slot `k` reaches. -/
def OutsideSlot (k a : Nat) : Prop :=
  (a < slotOffset k ∨ slotOffset k + bodySize ≤ a) ∧
    (a < slotOffset k + commitOffset ∨ slotOffset k + slotSize ≤ a)

section Footprint

variable {α : Type} {k : Nat} {P : Op → Prop}

theorem issues_read {offset len : Nat} {f : Int × Vector Byte len → EepromProgram α}
    (h : P (.read offset len)) (hf : ∀ x, (f x).Issues P) :
    (eepromRead offset len >>= f).Issues P :=
  Program.issues_bind (Program.issues_issue h) hf

theorem issues_write {offset len : Nat} {data : Vector Byte len} {f : Int → EepromProgram α}
    (h : P (.write offset len data)) (hf : ∀ rc, (f rc).Issues P) :
    (eepromWrite offset data >>= f).Issues P :=
  Program.issues_bind (Program.issues_issue h) hf

theorem invalidateToken_issues : (invalidateToken (slotOffset k)).Issues (Op.TouchesSlot k) := by
  refine issues_write (.inr ⟨rfl, rfl⟩) fun rc => ?_
  split
  · exact trivial
  refine issues_read trivial fun x => ?_
  dsimp only
  split <;> exact trivial

theorem programBody_issues (body : Vector Byte bodySize) :
    (programBody (slotOffset k) body).Issues (Op.TouchesSlot k) := by
  refine issues_write (.inl ⟨rfl, rfl⟩) fun rc => ?_
  split
  · exact trivial
  refine issues_read trivial fun x => ?_
  dsimp only
  split <;> exact trivial

theorem publishRecord_issues (body : Vector Byte bodySize) :
    (publishRecord (slotOffset k) body).Issues (Op.TouchesSlot k) := by
  refine issues_write (.inr ⟨rfl, rfl⟩) fun rc => ?_
  split
  · exact trivial
  refine issues_read trivial fun x => ?_
  dsimp only
  split <;> exact trivial

theorem appendSteps_issues (log : Context) (sequence : Word) (body : Vector Byte bodySize) :
    (appendSteps log k sequence body).Issues (Op.TouchesSlot k) := by
  refine Program.issues_bind invalidateToken_issues fun rc => ?_
  split
  · exact trivial
  refine Program.issues_bind (programBody_issues body) fun rc => ?_
  split
  · exact trivial
  refine Program.issues_bind (publishRecord_issues body) fun rc => ?_
  split <;> exact trivial

theorem torn_outside {m m' : Memory} {offset len : Nat} {data : Vector Byte len}
    (h : Op.TouchesSlot k (.write offset len data)) (hw : m.Torn offset data m') {a : Nat}
    (ha : OutsideSlot k a) : m' a = m a := by
  apply hw.outside
  obtain ⟨hbody, hcommit⟩ := ha
  rcases h with ⟨rfl, rfl⟩ | ⟨rfl, rfl⟩
  · exact hbody
  · rw [Nat.add_assoc]
    exact hcommit

/-- An execution that touches one slot leaves the bytes outside it as they were. -/
theorem exec_outside {p : EepromProgram α} {m m' : Memory} {t : List (Event eeprom)}
    {x : Option α} (he : Exec eeprom p m t x m') (hp : p.Issues (Op.TouchesSlot k)) {a : Nat}
    (ha : OutsideSlot k a) : m' a = m a := by
  refine he.keeps (I := fun s : Memory => s a = m a) ?_ ?_ hp rfl
  · intro s o r s' ho hs hanswer
    cases o with
    | read offset len => rw [hanswer.1, hs]
    | write offset len data => rw [torn_outside ho hanswer ha, hs]
  · intro s o s' ho hs htorn
    cases o with
    | read offset len => rw [htorn, hs]
    | write offset len data => rw [torn_outside ho htorn ha, hs]

end Footprint

/-! ### Calls and the points inside them -/

inductive Call where
  | init (dev : Option Dev)
  | append (code : Word)

def Call.program (log : Context) : Call → EepromProgram (Int × Option Context)
  | .init dev => faultLogInit (some log) dev
  | .append code => faultLogAppend (some log) code

/-- What a call adds to the history, with its result and the operations it has issued. -/
def Call.attempt (result : Option Int) (t : List (Event eeprom)) : Call → List Attempt
  | .init _ => []
  | .append code => [⟨code, result, t⟩]

/-- A call that returns, or the part of a call before power was cut in it.  A power cut loses the
context: whatever replaces it is not initialized. -/
inductive Calls (w : World) : World → Prop
  | returns (c : Call) {t : List (Event eeprom)} {rc : Int} {log : Context} {m : Memory} :
      Exec eeprom (c.program w.log) w.image t (some (rc, some log)) m →
      Calls w ⟨m, log, w.history ++ c.attempt (some rc) t⟩
  | cut (c : Call) {t : List (Event eeprom)} {log : Context} {m : Memory} :
      Exec eeprom (c.program w.log) w.image t none m → log.initialized = false →
      Calls w ⟨m, log, w.history ++ c.attempt none t⟩

/-- A point of a run from `w`, between two calls or after the operations `t` of a call, of which
`u` are still to come: the image there, and the appends begun. -/
inductive Point (w : World) : Memory → List Attempt → Prop
  | between {w' : World} : ReflTransGen Calls w w' → Point w w'.image w'.history
  | inside {w' : World} (c : Call) {t u : List (Event eeprom)}
      {x : Option (Int × Option Context)} {m : Memory} : ReflTransGen Calls w w' →
      Exec eeprom (c.program w'.log) w'.image (t ++ u) x m →
      Point w (reached w'.image t) (w'.history ++ c.attempt none t)

/-- Bytes 16 to 23 of a slot, and all bytes past the slots. -/
def Spare (a : Nat) : Prop :=
  logBytes ≤ a ∨ bodySize ≤ a % slotSize ∧ a % slotSize < commitOffset

theorem spare_outside {a k : Nat} (h : Spare a) (hk : k < slotCount) : OutsideSlot k a := by
  simp only [Spare, OutsideSlot, slotOffset, logBytes, slotCount, slotSize, bodySize,
    commitOffset] at *
  omega

/-- What an image has kept of the records that `attempts` published, from image `start` on: a ring
of them, all of the last eight once the last append has published its record, and the spare
bytes. -/
structure Retained (start : Memory) (attempts : List Attempt) (m : Memory) : Prop where
  ring : Ring m (records attempts)
  full : (∀ a ∈ attempts.getLast?, a.published ≠ []) →
    ∀ j (h : j < (records attempts).length), (records attempts).length ≤ j + slotCount →
      (records attempts)[j].Held m
  spare : ∀ a, Spare a → m a = start a

theorem records_eq (attempts : List Attempt) :
    records attempts = (attempts.map (·.published)).flatten := List.flatMap_def

section Retained

variable {start m m' : Memory} {attempts attempts' : List Attempt}

theorem Retained.blank (hblank : ∀ slot < slotCount, ¬Valid start slot) :
    Retained start [] start :=
  ⟨Ring.empty hblank, fun _ _ h => absurd h (Nat.not_lt_zero _), fun _ _ => rfl⟩

/-- Only what the attempts published counts. -/
theorem Retained.congr (h : Retained start attempts m)
    (hp : attempts'.map (·.published) = attempts.map (·.published)) :
    Retained start attempts' m := by
  have hr : records attempts' = records attempts := by rw [records_eq, records_eq, hp]
  refine ⟨by rw [hr]; exact h.ring, fun hlast => ?_, h.spare⟩
  have hlast' : ∀ a ∈ attempts.getLast?, a.published ≠ [] := by
    intro a ha
    have hmap : (attempts'.map (·.published)).getLast? = some a.published := by
      rw [hp, List.getLast?_map, ha]
      rfl
    rw [List.getLast?_map] at hmap
    obtain ⟨b, hb, he⟩ := Option.map_eq_some_iff.mp hmap
    exact he ▸ hlast b hb
  simp only [hr]
  exact h.full hlast'

theorem slotOf_outside {k slot : Nat} (h : ∀ a, OutsideSlot k a → m' a = m a) (hne : slot ≠ k) :
    slotOf m' slot = slotOf m slot := by
  refine Memory.read_congr fun i hi => h _ ?_
  simp only [OutsideSlot, slotOffset, slotSize, bodySize, commitOffset] at *
  omega

/-- An append keeps the seven records before its own, and its own when it has published it. -/
theorem Retained.append (h : Retained start attempts m) {a : Attempt}
    (ha : Appended (records attempts) a.code a.events m')
    (hout : ∀ b, OutsideSlot (target (records attempts)) b → m' b = m b) :
    Retained start (attempts ++ [a]) m' := by
  have hring : Ring m' (records (attempts ++ [a])) := by
    rw [records_snoc]
    exact ha.2
  refine ⟨hring, fun hlast j hj hrecent => ?_, fun b hb => ?_⟩
  · have hne : a.published ≠ [] := hlast a List.getLast?_concat
    have hone : a.published = [nextRecord (records attempts) a.code] := ha.1.resolve_left hne
    have hlen : (records (attempts ++ [a])).length = (records attempts).length + 1 := by
      rw [records_snoc, hone, List.length_append, List.length_singleton]
    by_cases hold : j < (records attempts).length
    · -- The eighth record from the end is the seventh of the ring before the append.
      have hget : (records (attempts ++ [a]))[j] = (records attempts)[j] := by
        simp only [records_snoc]
        exact List.getElem_append_left hold
      simp only [slotCount] at hrecent
      have hslot := (h.ring.placed j hold).1
      rw [hget]
      refine (Ring.held_congr (slotOf_outside hout ?_)).mpr (h.ring.held j hold (by omega))
      simp only [hslot, target, slotCount]
      omega
    · exact hring.held j hj (by omega)
  · rw [hout b (spare_outside hb (Nat.mod_lt _ (by decide))), h.spare b hb]

end Retained

/-! ### Runs -/

/-- The invariant of a run: a ready EEPROM behind the context when it is initialized, and what the
image has kept. -/
structure World.Kept (start : Memory) (w : World) : Prop where
  tracked : ∃ dev : Dev, dev.ready = true ∧ w.Inv dev
  retained : Retained start w.history w.image

section Runs

variable {start : Memory} {w w' : World}

/-- Whatever device it is given, `fault_log_init` changes no byte, and it makes a context usable
only when the device is ready and as a fault-free initialization would. -/
theorem init_safe (log : Context) (dev : Option Dev) (t : List (Event eeprom)) (m : Memory) :
    Safe eeprom
      (fun _ r m' => m' = m ∧ ∃ log', r.2 = some log' ∧ (log'.initialized = true →
        ∃ dev : Dev, dev.ready = true ∧ r = recovered dev m))
      (fun _ m' => m' = m) (faultLogInit (some log) dev) t m := by
  cases dev with
  | none => exact ⟨rfl, _, rfl, nofun⟩
  | some dev =>
    by_cases hready : dev.ready = true
    · by_cases hsize : logBytes ≤ dev.size
      · refine (faultLogInit_safe hready hsize log t m).mono ?_ fun _ _ h => h
        rintro _ r _ ⟨hm, log', hlog, hrec⟩
        exact ⟨hm, log', hlog, fun hi => ⟨dev, hready, hrec hi⟩⟩
      · rw [faultLogInit]
        simp only [hready, Bool.not_true, Bool.false_eq_true, if_false,
          if_pos (Nat.not_le.mp hsize)]
        exact ⟨rfl, _, rfl, nofun⟩
    · rw [faultLogInit]
      simp only [hready, Bool.not_false, if_true]
      exact ⟨rfl, _, rfl, nofun⟩

/-- An append touches the slot after the one published last, and no other. -/
theorem append_issues {dev : Dev} (hready : dev.ready = true) (h : w.Inv dev) (code : Word) :
    (faultLogAppend (some w.log) code).Issues (Op.TouchesSlot (target (records w.history))) := by
  by_cases hi : w.log.initialized = true
  · rw [h.log hi, faultLogAppend_tracking hready]
    exact appendSteps_issues _ _ _
  · rw [faultLogAppend_uninitialized (by simpa using hi)]
    exact trivial

theorem World.Kept.init {t : List (Event eeprom)} {dev : Option Dev} {m : Memory}
    {x : Option (Int × Option Context)} {log : Context} (h : w.Kept start)
    (he : Exec eeprom (faultLogInit (some w.log) dev) w.image t x m)
    (hx : x = none ∧ log.initialized = false ∨ ∃ rc, x = some (rc, some log)) :
    World.Kept start ⟨m, log, w.history⟩ := by
  obtain ⟨⟨dev0, hready0, hinv⟩, hretained⟩ := h
  have hsound := (init_safe w.log dev [] w.image).sound he
  rcases hx with ⟨rfl, hlog⟩ | ⟨rc, rfl⟩
  · obtain rfl := hsound.2 rfl
    refine ⟨⟨dev0, hready0, hinv.ring, fun hi => ?_, hinv.codes, hinv.returned⟩, hretained⟩
    exact absurd (hlog.symm.trans hi) Bool.false_ne_true
  · obtain ⟨rfl, log', hlog, hrec⟩ := hsound.1 _ rfl
    obtain rfl := Option.some.inj hlog
    by_cases hi : log.initialized = true
    · obtain ⟨dev1, hready1, hr⟩ := hrec hi
      rw [recovered_ring hinv.ring] at hr
      have htrack := Option.some.inj (congrArg Prod.snd hr)
      exact ⟨⟨dev1, hready1, hinv.ring, fun _ => htrack, hinv.codes, hinv.returned⟩, hretained⟩
    · exact ⟨⟨dev0, hready0, hinv.ring, fun h1 => absurd h1 hi, hinv.codes, hinv.returned⟩,
        hretained⟩

theorem World.Kept.append {code : Word} {t : List (Event eeprom)} {m : Memory} {log : Context}
    {x : Option (Int × Option Context)} (h : w.Kept start)
    (he : Exec eeprom (faultLogAppend (some w.log) code) w.image t x m)
    (hx : x = none ∧ log.initialized = false ∨ ∃ rc, x = some (rc, some log)) :
    World.Kept start ⟨m, log, w.history ++ [⟨code, x.map (·.1), t⟩]⟩ := by
  obtain ⟨⟨dev, hready, hinv⟩, hretained⟩ := h
  have hsound := (hinv.append_safe hready code).sound he
  have hout : ∀ a, OutsideSlot (target (records w.history)) a → m a = w.image a :=
    fun a ha => exec_outside he (append_issues hready hinv code) ha
  rcases hx with ⟨rfl, hlog⟩ | ⟨rc, rfl⟩
  · have hA := hsound.2 rfl
    refine ⟨⟨dev, hready, hinv.attempt hA (fun hi => ?_) nofun⟩, hretained.append hA hout⟩
    exact absurd (hlog.symm.trans hi) Bool.false_ne_true
  · obtain ⟨hA, log', hlog, htrack, hret⟩ := hsound.1 _ rfl
    obtain rfl := Option.some.inj hlog
    exact ⟨⟨dev, hready, hinv.attempt hA htrack fun hr => hret (Option.some.inj hr)⟩,
      hretained.append hA hout⟩

theorem World.Kept.step (h : w.Kept start) (hs : Calls w w') : w'.Kept start := by
  cases hs with
  | returns c he =>
    cases c with
    | init dev =>
      rw [Call.attempt, List.append_nil]
      exact h.init he (.inr ⟨_, rfl⟩)
    | append code => exact h.append he (.inr ⟨_, rfl⟩)
  | cut c he hlog =>
    cases c with
    | init dev =>
      rw [Call.attempt, List.append_nil]
      exact h.init he (.inl ⟨rfl, hlog⟩)
    | append code => exact h.append he (.inl ⟨rfl, hlog⟩)

theorem World.Kept.run (h : w.Kept start) (hrun : ReflTransGen Calls w w') : w'.Kept start :=
  run_invariant (fun _ _ h hs => h.step hs) hrun h

end Runs

/-- What the EEPROM may leave when it answers, it may leave when power fails. -/
theorem eeprom_cut (m : Memory) (o : Op) (r : Ans o) (m' : Memory) (h : eeprom.answer m o r m') :
    eeprom.torn m o m' := by
  cases o with
  | read offset len => exact h.1
  | write offset len data => exact h

theorem published_cut (t : List (Event eeprom)) (e : Event eeprom) :
    published (t ++ [e.cut]) = published (t ++ [e]) := by
  rw [published_snoc, published_snoc]
  rfl

/-- At every point of a run from an image without records, the records published so far went round
the slots in order with consecutive sequence numbers; every valid slot holds one of the last eight,
the last seven are held, and so is the eighth once the last append has published its record; and
the spare bytes are as they were. -/
theorem ring_retention {w : World} (hblank : ∀ slot < slotCount, ¬Valid w.image slot)
    (hlog : w.log.initialized = false) (hnew : w.history = []) {m : Memory}
    {attempts : List Attempt} (hp : Point w m attempts) : Retained w.image attempts m := by
  have hready : Dev.ready ⟨true, 0⟩ = true := rfl
  have hstart : w.Kept w.image :=
    ⟨⟨⟨true, 0⟩, hready, .start hblank hlog hnew⟩, hnew ▸ .blank hblank⟩
  cases hp with
  | between hrun => exact (hstart.run hrun).retained
  | @inside w' c t u x m' hrun he =>
    have hw' := hstart.run hrun
    rcases List.eq_nil_or_concat t with rfl | ⟨t, e, rfl⟩
    · cases c with
      | init dev =>
        rw [Call.attempt, List.append_nil]
        exact hw'.retained
      | append code => exact hw'.retained.append (.none rfl hw'.retained.ring) fun _ _ => rfl
    · rw [List.concat_eq_append, List.append_assoc] at he
      have hlost : Calls w' ⟨e.after, .cleared, w'.history ++ c.attempt none (t ++ [e.cut])⟩ :=
        .cut c (he.cut eeprom_cut) rfl
      have hcut := (hw'.step hlost).retained
      rw [List.concat_eq_append, reached_snoc]
      apply hcut.congr
      cases c with
      | init dev => rfl
      | append code => simp only [Call.attempt, List.map_append, List.map_cons, Attempt.published,
          published_cut]

/-- A fault-free `fault_log_init` and a fault-free append, over an erased image. -/
theorem erased_append {dev : Dev} (hready : dev.ready = true) (hsize : logBytes ≤ dev.size)
    (code : Word) : ∃ w, ReflTransGen Calls erased w ∧
      records w.history = [nextRecord [] code] := by
  have hring : Ring erased.image [] := Ring.empty fun _ _ => erased_blank _
  have hrec := recovered_ring hring dev
  obtain ⟨t, hinit⟩ := faultFree_handles.exec (faultLogInit (some erased.log) (some dev))
    erased.image
  rw [faultLogInit_run hready hsize, hrec] at hinit
  obtain ⟨u, happend⟩ := faultFree_handles.exec (faultLogAppend (some (tracking dev [])) code)
    erased.image
  rw [append_run hready hrec] at happend
  have hstart : Calls erased ⟨erased.image, tracking dev [], []⟩ := .returns (.init (some dev)) hinit
  have hp : published u = [nextRecord [] code] := by
    rw [faultLogAppend_tracking hready] at happend
    exact (((appendSteps_safe hring).sound happend).1 _ rfl).2.1 rfl |>.1
  refine ⟨_, .tail (.single hstart) (.returns (.append code) happend), ?_⟩
  simp [Call.attempt, records, Attempt.published, hp]

/-- On an EEPROM of 256 bytes, after a fault-free initialization and append of 7. -/
theorem ring_retention_append : ∃ m attempts, Point erased m attempts ∧
    (records attempts).map (·.code) = [7] ∧ Retained erased.image attempts m := by
  obtain ⟨w, hrun, hrecords⟩ :=
    erased_append (show Dev.ready ⟨true, 256⟩ = true from rfl) (by decide) 7
  exact ⟨_, _, .between hrun, by rw [hrecords]; rfl,
    ring_retention (fun slot _ => erased_blank slot) rfl rfl (.between hrun)⟩

end CortexLabs.FaultLog
