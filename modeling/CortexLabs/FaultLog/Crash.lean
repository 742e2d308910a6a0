import CortexLabs.FaultLog.Append
import CortexLabs.Device.Run

/-! Runs of a logger over an EEPROM whose operations may fail and whose power may be cut at any of
them.  The image is a ring of the records published so far after every step of every run, and an
initialized context tracks it, so that recovery finds the record published last. -/

namespace CortexLabs.FaultLog

open Device

/-- A call of `fault_log_append`: its fault code, its result, none when power was cut before it
returned, and the operations it issued. -/
structure Attempt where
  code : Word
  result : Option Int
  events : List (Event eeprom)

/-- The records whose commit pages a call completed. -/
def Attempt.published (a : Attempt) : List Publication := FaultLog.published a.events

/-- An EEPROM image, a context and the appends called so far, oldest first. -/
structure World where
  image : Memory
  log : Context
  history : List Attempt

/-- One call, or the part of a call before power was cut in it.  A power cut loses the context:
whatever replaces it is not initialized. -/
inductive Step (dev : Dev) (w : World) : World → Prop
  | init {t : List (Event eeprom)} {rc : Int} {log : Context} {m : Memory} :
      Exec eeprom (faultLogInit (some w.log) (some dev)) w.image t (some (rc, some log)) m →
      Step dev w ⟨m, log, w.history⟩
  | initCut {t : List (Event eeprom)} {log : Context} {m : Memory} :
      Exec eeprom (faultLogInit (some w.log) (some dev)) w.image t none m →
      log.initialized = false → Step dev w ⟨m, log, w.history⟩
  | append {code : Word} {t : List (Event eeprom)} {rc : Int} {log : Context} {m : Memory} :
      Exec eeprom (faultLogAppend (some w.log) code) w.image t (some (rc, some log)) m →
      Step dev w ⟨m, log, w.history ++ [⟨code, some rc, t⟩]⟩
  | appendCut {code : Word} {t : List (Event eeprom)} {log : Context} {m : Memory} :
      Exec eeprom (faultLogAppend (some w.log) code) w.image t none m →
      log.initialized = false → Step dev w ⟨m, log, w.history ++ [⟨code, none, t⟩]⟩

/-- The records published by the appends of a history, oldest first. -/
def records (history : List Attempt) : List Publication := history.flatMap (·.published)

@[simp] theorem records_snoc (history : List Attempt) (a : Attempt) :
    records (history ++ [a]) = records history ++ a.published := by
  simp [records]

structure World.Inv (dev : Dev) (w : World) : Prop where
  ring : Ring w.image (records w.history)
  log : w.log.initialized = true → w.log = tracking dev (records w.history)
  codes : ∀ a ∈ w.history, ∀ p ∈ a.published, p.code = a.code
  returned : ∀ a ∈ w.history, a.result = some 0 → a.published ≠ []

section Runs

variable {dev : Dev}

/-- One append attempt extends the history by what it published. -/
theorem World.Inv.attempt {w : World} (h : w.Inv dev) {a : Attempt} {m : Memory} {log : Context}
    (ha : Appended (records w.history) a.code a.events m)
    (hlog : log.initialized = true →
      log = tracking dev (records w.history ++ a.published))
    (hret : a.result = some 0 → a.published ≠ []) :
    World.Inv dev ⟨m, log, w.history ++ [a]⟩ := by
  refine ⟨by rw [records_snoc]; exact ha.2, by simpa using hlog, ?_, ?_⟩
  · intro b hb p hp
    rcases List.mem_append.mp hb with hb | hb
    · exact h.codes b hb p hp
    · obtain rfl := List.mem_singleton.mp hb
      rw [Attempt.published] at hp
      rcases ha.1 with hnone | hone
      · simp [hnone] at hp
      · rw [hone, List.mem_singleton] at hp
        rw [hp, nextRecord]
  · intro b hb
    rcases List.mem_append.mp hb with hb | hb
    · exact h.returned b hb
    · obtain rfl := List.mem_singleton.mp hb
      exact hret

variable (hready : dev.ready = true) (hsize : logBytes ≤ dev.size)
include hready

/-- What an append may leave, from a world in the invariant. -/
theorem World.Inv.append_safe {w : World} (h : w.Inv dev) (code : Word) :
    Safe eeprom
      (fun t r m => Appended (records w.history) code t m ∧ ∃ log, r.2 = some log ∧
        (log.initialized = true → log = tracking dev (records w.history ++ published t)) ∧
        (r.1 = 0 → published t ≠ []))
      (Appended (records w.history) code) (faultLogAppend (some w.log) code) [] w.image := by
  by_cases hi : w.log.initialized = true
  · rw [h.log hi, faultLogAppend_tracking hready]
    refine (appendSteps_safe h.ring).mono ?_ fun _ _ hC => hC
    rintro t ⟨rc, log⟩ m ⟨hA, hok, hfail⟩
    refine ⟨hA, ?_⟩
    by_cases hrc : rc = 0
    · obtain ⟨hp, hlog⟩ := hok hrc
      exact ⟨_, hlog, fun _ => by rw [hp], fun _ => by rw [hp]; simp⟩
    · exact ⟨_, hfail hrc, nofun, fun h0 => absurd h0 hrc⟩
  · have hi : w.log.initialized = false := by simpa using hi
    rw [faultLogAppend_uninitialized hi]
    exact ⟨.none rfl h.ring, w.log, rfl, fun h1 => absurd (hi.symm.trans h1) (by simp),
      fun h0 => absurd h0 (usable_uninitialized hi)⟩

include hsize

theorem World.Inv.step {w w' : World} (h : w.Inv dev) (hs : Step dev w w') : w'.Inv dev := by
  cases hs with
  | init he =>
    obtain ⟨rfl, log', hlog, hrec⟩ := ((faultLogInit_safe hready hsize _ [] _).sound he).1 _ rfl
    obtain rfl := Option.some.inj hlog
    refine ⟨h.ring, fun hi => ?_, h.codes, h.returned⟩
    have := (hrec hi).trans (recovered_ring h.ring dev)
    exact Option.some.inj (congrArg Prod.snd this)
  | initCut he hl =>
    obtain rfl := ((faultLogInit_safe hready hsize _ [] _).sound he).2 rfl
    exact ⟨h.ring, fun hi => absurd (hl.symm.trans hi) (by simp), h.codes, h.returned⟩
  | append he =>
    obtain ⟨hA, log', hlog, htrack, hret⟩ := ((h.append_safe hready _).sound he).1 _ rfl
    obtain rfl := Option.some.inj hlog
    exact h.attempt hA htrack fun hr => hret (Option.some.inj hr)
  | appendCut he hl =>
    have hA := ((h.append_safe hready _).sound he).2 rfl
    exact h.attempt hA (fun hi => absurd (hl.symm.trans hi) (by simp)) nofun

theorem World.Inv.run {w w' : World} (h : w.Inv dev)
    (hrun : Relation.ReflTransGen (Step dev) w w') : w'.Inv dev :=
  run_invariant (fun _ _ h hs => h.step hready hsize hs) hrun h

end Runs

/-- A world before any append: no valid record and no initialized context. -/
theorem World.Inv.start {dev : Dev} {w : World} (hblank : ∀ slot < slotCount, ¬Valid w.image slot)
    (hlog : w.log.initialized = false) (hnew : w.history = []) : w.Inv dev := by
  refine ⟨?_, fun h => absurd (hlog.symm.trans h) (by simp), ?_, ?_⟩
  · rw [hnew]
    exact Ring.empty hblank
  · simp [hnew]
  · simp [hnew]

/-- The last record of a history was published by one of its appends. -/
theorem last_record {w : World} {dev : Dev} (h : w.Inv dev) {h1 h2 : List Attempt}
    (hsplit : w.history = h1 ++ h2) {p : Publication} (hp : (records h2).getLast? = some p) :
    (records w.history).getLast? = some p ∧ ∃ a ∈ h2, a.published ≠ [] ∧ p.code = a.code := by
  have happ : records w.history = records h1 ++ records h2 := by
    rw [hsplit, records, List.flatMap_append]
    rfl
  obtain ⟨a, ha, hmem⟩ := List.mem_flatMap.mp (List.mem_of_getLast? hp)
  refine ⟨by rw [happ, List.getLast?_append, hp]; rfl, a, ha, List.ne_nil_of_mem hmem, ?_⟩
  exact h.codes a (by rw [hsplit]; exact List.mem_append_right _ ha) p hmem

/-- After any run from an image without records, a fault-free `fault_log_init` returns 0, and
`fault_log_latest` returns the code of the last append that returned 0 or of one attempted after
it.  When no append has returned 0, it returns `-ENOENT` if none has completed its commit page,
and otherwise the code of one that has. -/
theorem crash_consistency {dev : Dev} (hready : dev.ready = true) (hsize : logBytes ≤ dev.size)
    {w w' : World} (hblank : ∀ slot < slotCount, ¬Valid w.image slot)
    (hlog : w.log.initialized = false) (hnew : w.history = [])
    (hrun : Relation.ReflTransGen (Step dev) w w') (out : Word) :
    ∃ log rc out',
      (faultLogInit (some w'.log) (some dev)).run faultFree w'.image =
        ((0, some log), w'.image) ∧
      (faultLogLatest (some log) (some out)).run faultFree w'.image =
        ((rc, some log, some out'), w'.image) ∧
      (∀ h1 a h2, w'.history = h1 ++ a :: h2 → a.result = some 0 →
        (∀ b ∈ h2, b.result ≠ some 0) → rc = 0 ∧ ∃ b ∈ a :: h2, out' = b.code) ∧
      ((∀ a ∈ w'.history, a.result ≠ some 0) →
        ((∀ a ∈ w'.history, a.published = []) → rc = -Errno.enoent ∧ out' = out) ∧
        ((∃ a ∈ w'.history, a.published ≠ []) →
          rc = 0 ∧ ∃ a ∈ w'.history, a.published ≠ [] ∧ out' = a.code)) := by
  have h := (World.Inv.start hblank hlog hnew).run hready hsize hrun
  refine ⟨tracking dev (records w'.history), _, _, ?_, faultLogLatest_run hready h.ring out, ?_, ?_⟩
  · rw [faultLogInit_run hready hsize, recovered_ring h.ring]
  · intro h1 a h2 hsplit ha _
    have hmem : a ∈ w'.history := by simp [hsplit]
    have hne : records (a :: h2) ≠ [] := by
      simpa [records] using fun hnil => absurd hnil (h.returned a hmem ha)
    obtain ⟨hlast, b, hb, _, hcode⟩ :=
      last_record h hsplit (List.getLast?_eq_some_getLast hne)
    have hall : records w'.history ≠ [] := by
      intro hnil
      simp [hnil] at hlast
    exact ⟨if_neg hall, b, hb, by simp [hlast, hcode]⟩
  · refine fun _ => ⟨fun hnone => ?_, fun ⟨a, ha, hne⟩ => ?_⟩
    · have hnil : records w'.history = [] := by simpa [records] using hnone
      simp [hnil]
    · have hall : records w'.history ≠ [] := by
        simp only [records, ne_eq, List.flatMap_eq_nil_iff, not_forall]
        exact ⟨a, ha, hne⟩
      obtain ⟨hlast, b, hb, hpub, hcode⟩ :=
        last_record h (List.nil_append _).symm (List.getLast?_eq_some_getLast hall)
      exact ⟨if_neg hall, b, hb, hpub, by simp [hlast, hcode]⟩

def erased : World := ⟨fun _ => 0xff, ⟨none, 0, 0, false⟩, []⟩

theorem erased_blank (slot : Nat) : ¬Valid erased.image slot := not_valid_erased slot

/-- A fault-free `fault_log_init`, then an append that power cuts in its first write. -/
theorem erased_run {dev : Dev} (hready : dev.ready = true) (hsize : logBytes ≤ dev.size)
    (code : Word) : Relation.ReflTransGen (Step dev) erased ⟨erased.image, erased.log,
      [⟨code, none, [⟨.write (slotOffset 0 + commitOffset) commitSize invalid, none,
        erased.image⟩]⟩]⟩ := by
  obtain ⟨t, hinit⟩ := faultFree_handles.exec (faultLogInit (some erased.log) (some dev))
    erased.image
  rw [faultLogInit_run hready hsize,
    recovered_ring (Ring.empty fun _ _ => erased_blank _)] at hinit
  have hcut : Exec eeprom (faultLogAppend (some (tracking dev [])) code) erased.image
      [⟨.write (slotOffset 0 + commitOffset) commitSize invalid, none, erased.image⟩] none
      erased.image := by
    rw [faultLogAppend_tracking hready]
    exact .torn (Memory.Torn.refl _ _ _)
  exact .tail (.single (.init hinit)) (.appendCut hcut rfl)

/-- On an EEPROM of 256 bytes, after the cut append, recovery finds no record. -/
theorem crash_consistency_cut : ∃ w, Relation.ReflTransGen (Step ⟨true, 256⟩) erased w ∧
    w.history.map (·.code) = [7] ∧ ∃ log rc out,
      (faultLogInit (some w.log) (some ⟨true, 256⟩)).run faultFree w.image =
        ((0, some log), w.image) ∧
      (faultLogLatest (some log) (some 0)).run faultFree w.image =
        ((rc, some log, some out), w.image) ∧ rc = -Errno.enoent ∧ out = 0 := by
  have hrun := erased_run (show Dev.ready ⟨true, 256⟩ = true from rfl) (by decide) 7
  obtain ⟨log, rc, out, hinit, hlatest, -, hnone⟩ :=
    crash_consistency rfl (by decide) (fun slot _ => erased_blank slot) rfl rfl hrun 0
  refine ⟨_, hrun, rfl, log, rc, out, hinit, hlatest, ?_⟩
  refine (hnone ?_).1 ?_
  · simp
  · simp [Attempt.published, published, publication, committed, invalid]

end CortexLabs.FaultLog
