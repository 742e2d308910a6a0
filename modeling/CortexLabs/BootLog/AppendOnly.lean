import CortexLabs.BootLog.Calls
import CortexLabs.Device.Run
import Mathlib.Logic.Function.Basic

/-! Runs of any number of contexts on one region, over a flash whose operations may fail or be cut.
After every step the occupied slots are a prefix, no context that is initialized claims a slot past
it, and a slot that has been occupied keeps its bytes. -/

namespace CortexLabs.BootLog

open Device Relation

inductive Call where
  | init (id : Nat)
  | append (id : Nat) (record : Option Record)
  | readLast (id : Nat) (out : Option Record)

/-- The image of the flash, and the contexts by their numbers. -/
structure World where
  image : Memory
  logs : Nat → Context

section Runs

variable (abi : Abi) (dev : Dev) (base : Int) (regionSize : Nat)

def Call.program (logs : Nat → Context) : Call → FlashProgram (Int × (Nat → Context))
  | .init id => do
    let (rc, log) ← bootLogInit abi (some (logs id)) (some dev) base regionSize
    return (rc, Function.update logs id (log.getD (logs id)))
  | .append id record => do
    let (rc, log) ← bootLogAppend abi (some (logs id)) record
    return (rc, Function.update logs id (log.getD (logs id)))
  | .readLast id out => do
    let (rc, _) ← bootLogReadLast abi (some (logs id)) out
    return (rc, logs)

/-- A call that returns, or the part of a call before power was cut in it.  A power cut loses the
contexts: whatever replaces them is not initialized. -/
inductive Step (w : World) : Call → List (Event flash) → Option Int → World → Prop
  | returned {c : Call} {t : List (Event flash)} {rc : Int} {logs : Nat → Context} {m : Memory} :
      Exec flash (c.program abi dev base regionSize w.logs) w.image t (some (rc, logs)) m →
      Step w c t (some rc) ⟨m, logs⟩
  | cut {c : Call} {t : List (Event flash)} {logs : Nat → Context} {m : Memory} :
      Exec flash (c.program abi dev base regionSize w.logs) w.image t none m →
      (∀ id, (logs id).initialized = false) → Step w c t none ⟨m, logs⟩

def Reaches : World → World → Prop :=
  ReflTransGen fun w w' => ∃ c t rc, Step abi dev base regionSize w c t rc w'

variable {abi dev base regionSize} {params : FlashParameters}

/-- The first `n` slots are occupied, and no initialized context claims more. -/
structure World.Inv (abi : Abi) (dev : Dev) (params : FlashParameters) (base : Int)
    (regionSize : Nat) (w : World) (n : Nat) : Prop where
  filled : (region params base regionSize).Filled w.image n
  logs : ∀ id, (w.logs id).initialized = true →
    Opened abi dev params base regionSize (w.logs id) ∧ (w.logs id).nextSlot ≤ n

theorem World.Inv.update {w : World} {n n' : Nat} {id : Nat} {log : Context} {m : Memory}
    (h : w.Inv abi dev params base regionSize n) (hn : n ≤ n')
    (hf : (region params base regionSize).Filled m n')
    (hlog : log.initialized = true →
      Opened abi dev params base regionSize log ∧ log.nextSlot ≤ n') :
    World.Inv abi dev params base regionSize ⟨m, Function.update w.logs id log⟩ n' := by
  refine ⟨hf, fun j hi => ?_⟩
  dsimp only at hi ⊢
  by_cases hj : j = id
  · subst hj
    rw [Function.update_self] at hi ⊢
    exact hlog hi
  · rw [Function.update_of_ne hj] at hi ⊢
    exact ⟨(h.logs j hi).1, Nat.le_trans (h.logs j hi).2 hn⟩

/-- What a call leaves when it returns. -/
def Call.Leaves (abi : Abi) (dev : Dev) (params : FlashParameters) (base : Int) (regionSize : Nat)
    (w : World) (n : Nat) (c : Call) (t : List (Event flash)) (x : Int × (Nat → Context))
    (m : Memory) : Prop :=
  ∃ n', Progress (region params base regionSize) w.image n t m n' ∧
    World.Inv abi dev params base regionSize ⟨m, x.2⟩ n' ∧
    ∀ id record, c = .append id (some record) → x.1 = 0 → (w.logs id).nextSlot < n' ∧
      (region params base regionSize).slot m (w.logs id).nextSlot = record

variable (hparams : dev.params = some params) (hsize : regionSize < 2 ^ abi.size.bits)
include hparams hsize

theorem World.Inv.call_safe {w : World} {n : Nat} (h : w.Inv abi dev params base regionSize n)
    (c : Call) : Safe flash (c.Leaves abi dev params base regionSize w n)
      (fun t m => ∃ n', Progress (region params base regionSize) w.image n t m n')
      (c.program abi dev base regionSize w.logs) [] w.image := by
  have hf := h.filled
  cases c with
  | init id =>
    refine Safe.bind ((bootLogInit_safe hparams hsize hf (w.logs id)).mono ?_ ?_)
    · rintro t ⟨rc, _⟩ m ⟨ht, rfl, log, rfl, hlog⟩
      exact ⟨n, ht.progress hf, h.update (Nat.le_refl n) hf fun hi =>
        ⟨(hlog hi).1, Nat.le_of_eq (hlog hi).2⟩, nofun⟩
    · rintro t m ⟨ht, rfl⟩
      exact ⟨n, ht.progress hf⟩
  | append id record =>
    have hkeep : ∀ rc : Int, rc ≠ 0 → Call.Leaves abi dev params base regionSize w n
        (.append id record) [] (rc, Function.update w.logs id (w.logs id)) w.image := by
      intro rc hrc
      exact ⟨n, NoWrites.nil.progress hf, h.update (Nat.le_refl n) hf (h.logs id),
        fun _ _ _ h0 => absurd h0 hrc⟩
    cases record with
    | none => exact hkeep _ (by decide)
    | some record =>
      by_cases hi : (w.logs id).initialized = true
      · obtain ⟨hopened, hnext⟩ := h.logs id hi
        refine Safe.bind ((bootLogAppend_safe hsize hf hopened hnext hi record).mono ?_
          fun _ _ hC => hC)
        rintro t ⟨rc, _⟩ m ⟨n', hp, ⟨log, rfl, hlog⟩, hok⟩
        refine ⟨n', hp, h.update hp.grown hp.filled hlog, ?_⟩
        rintro _ _ ⟨⟩ h0
        exact hok h0
      · have heq : bootLogAppend abi (some (w.logs id)) (some record) =
            pure (-Errno.einval, some (w.logs id)) := if_pos (.inl (by simpa using hi))
        rw [Call.program, heq]
        exact hkeep _ (by decide)
  | readLast id out =>
    refine Safe.bind ((bootLogReadLast_safe (w.logs id) out w.image).mono ?_ ?_)
    · rintro t ⟨rc, _⟩ m ⟨ht, rfl⟩
      exact ⟨n, ht.progress hf, h, nofun⟩
    · rintro t m ⟨ht, rfl⟩
      exact ⟨n, ht.progress hf⟩

theorem World.Inv.step {w w' : World} {n : Nat} {c : Call} {t : List (Event flash)}
    {rc : Option Int} (h : w.Inv abi dev params base regionSize n)
    (hs : Step abi dev base regionSize w c t rc w') :
    ∃ n', Progress (region params base regionSize) w.image n t w'.image n' ∧
      w'.Inv abi dev params base regionSize n' ∧
      ∀ id record, c = .append id (some record) → rc = some 0 → (w.logs id).nextSlot < n' ∧
        (region params base regionSize).slot w'.image (w.logs id).nextSlot = record := by
  have hsafe := h.call_safe hparams hsize c
  cases hs with
  | returned he =>
    obtain ⟨n', hp, hinv, hok⟩ := (hsafe.sound he).1 _ rfl
    exact ⟨n', hp, hinv, fun id record hc h0 => hok id record hc (Option.some.inj h0)⟩
  | cut he hlost =>
    obtain ⟨n', hp⟩ := (hsafe.sound he).2 rfl
    refine ⟨n', hp, ⟨hp.filled, fun id hi => ?_⟩, nofun⟩
    exact absurd ((hlost id).symm.trans hi) (by simp)

/-- After any run, the first `n'` slots are occupied for some `n'`, and the slots that were
occupied before it hold what they held. -/
theorem World.Inv.run {w w' : World} {n : Nat} (h : w.Inv abi dev params base regionSize n)
    (hrun : Reaches abi dev base regionSize w w') :
    ∃ n', w'.Inv abi dev params base regionSize n' ∧ n ≤ n' ∧
      ∀ k < n, (region params base regionSize).slot w'.image k =
        (region params base regionSize).slot w.image k := by
  induction hrun with
  | refl => exact ⟨n, h, Nat.le_refl n, fun _ _ => rfl⟩
  | tail _ hs ih =>
    obtain ⟨n1, h1, hn1, hkept1⟩ := ih
    obtain ⟨c, t, rc, hs⟩ := hs
    obtain ⟨n2, hp, h2, -⟩ := h1.step hparams hsize hs
    refine ⟨n2, h2, Nat.le_trans hn1 hp.grown, fun k hk => ?_⟩
    rw [hp.kept k (Nat.lt_of_lt_of_le hk hn1), hkept1 k hk]

/-- From a region whose occupied slots are a prefix and with no context initialized, any run of
calls keeps them a prefix, which every fault-free `boot_log_init` of an accepted geometry counts
and no initialized context overruns; a call writes only the first erased slot; and a record whose
append has returned 0 stays in its slot. -/
theorem append_only {w w' : World} (hpre : (region params base regionSize).Prefix w.image)
    (hnew : ∀ id, (w.logs id).initialized = false)
    (hrun : Reaches abi dev base regionSize w w') :
    (region params base regionSize).Prefix w'.image ∧
    (∀ id, (w'.logs id).initialized = true →
      (w'.logs id).nextSlot ≤ (region params base regionSize).capacity ∧
      ∀ k < (w'.logs id).nextSlot, ¬(region params base regionSize).Erased w'.image k) ∧
    (∀ log, ∃ rc log',
      (bootLogInit abi (some log) (some dev) base regionSize).run faultFree w'.image =
        ((rc, some log'), w'.image) ∧ rc ≠ -Errno.eilseq ∧
      (Geometry abi dev base regionSize → rc = 0 ∧
        log'.nextSlot = (region params base regionSize).occupied w'.image)) ∧
    ∀ c t rc w'', Step abi dev base regionSize w' c t rc w'' →
      FreshWrites (region params base regionSize) w'.image t ∧
      ∀ id record, c = .append id (some record) → rc = some 0 →
        ∀ w3, Reaches abi dev base regionSize w'' w3 →
          (region params base regionSize).slot w3.image (w'.logs id).nextSlot = record := by
  have hstart : w.Inv abi dev params base regionSize _ :=
    ⟨hpre.filled, fun id hi => absurd ((hnew id).symm.trans hi) (by simp)⟩
  obtain ⟨n, h, -, -⟩ := hstart.run hparams hsize hrun
  refine ⟨h.filled.toPrefix, ?_, ?_, ?_⟩
  · intro id hi
    have hle := (h.logs id hi).2
    have hbound := h.filled.bound
    exact ⟨by omega, fun k hk => (h.filled.occupied k (by omega)).mpr (by omega)⟩
  · intro log
    obtain ⟨rc, log', hinit, hrc, hok⟩ := bootLogInit_run hparams hsize h.filled log
    refine ⟨rc, log', hinit, hrc, fun hg => ⟨(hok hg).1, ?_⟩⟩
    rw [(hok hg).2]
    exact h.filled.unique h.filled.toPrefix.filled
  · intro c t rc w'' hs
    obtain ⟨n', hp, h', hok⟩ := h.step hparams hsize hs
    refine ⟨hp.writes, fun id record hc hrc w3 hrun3 => ?_⟩
    obtain ⟨hlt, hslot⟩ := hok id record hc hrc
    obtain ⟨-, -, -, hkept⟩ := h'.run hparams hsize hrun3
    rw [hkept _ hlt, hslot]

end Runs

def erased : World := ⟨fun _ => 0xff, fun _ => .zero⟩

/-- The flash of `app.overlay`, with the two slots of its partition that the run below uses. -/
def simFlash : Dev := ⟨4, some ⟨0xff⟩⟩

def target : Abi := ⟨.bits32, .bits32⟩

theorem target_geometry : Geometry target simFlash 0x7000 32 := by
  refine ⟨?_, ?_, ?_, ?_, ?_, ?_, ?_, ?_⟩ <;> decide

/-- The erased flash, after `boot_log_init` on context 0. -/
def opened : World :=
  ⟨erased.image, Function.update erased.logs 0 ⟨some simFlash, 0x7000, 32, 0, 0xff, true⟩⟩

theorem erased_filled : (region ⟨0xff⟩ 0x7000 32).Filled erased.image 0 := Region.filled_erased _

theorem opened_reached : Reaches target simFlash 0x7000 32 erased opened := by
  obtain ⟨rc, log, hrun, -, hok⟩ : ∃ rc log',
      (bootLogInit target (some (erased.logs 0)) (some simFlash) 0x7000 32).run faultFree
        erased.image = ((rc, some log'), erased.image) ∧ _ :=
    bootLogInit_run rfl (by decide) erased_filled (erased.logs 0)
  obtain ⟨rfl, rfl⟩ := hok target_geometry
  obtain ⟨t, ht⟩ := faultFree_handles.exec
    (Call.program target simFlash 0x7000 32 erased.logs (.init 0)) erased.image
  rw [Call.program, Program.bind_eq, Program.run_bind, hrun] at ht
  exact .single ⟨.init 0, t, some 0, .returned ht⟩

def firstRecord : Record := Vector.replicate recordSize 0x42

/-- A record appended without faults stays in the first slot. -/
theorem append_only_first : ∃ t w', Step target simFlash 0x7000 32 opened
      (.append 0 (some firstRecord)) t (some 0) w' ∧
    ∀ w3, Reaches target simFlash 0x7000 32 w' w3 →
      (region ⟨0xff⟩ 0x7000 32).slot w3.image 0 = firstRecord := by
  have hopened : Opened target simFlash ⟨0xff⟩ 0x7000 32 (opened.logs 0) :=
    ⟨target_geometry, rfl, rfl, rfl, rfl⟩
  have hrec : isErased firstRecord 0xff = false := by simp [isErased, firstRecord]
  have hrun := bootLogAppend_run (by decide) erased_filled hopened rfl rfl (by decide) hrec
  obtain ⟨t, ht⟩ := faultFree_handles.exec
    (Call.program target simFlash 0x7000 32 opened.logs (.append 0 (some firstRecord))) erased.image
  rw [Call.program, Program.bind_eq, Program.run_bind, hrun] at ht
  have hstep : Step target simFlash 0x7000 32 opened (.append 0 (some firstRecord)) t (some 0) _ :=
    .returned ht
  obtain ⟨-, -, -, hsteps⟩ := append_only rfl (by decide) erased_filled.toPrefix (fun _ => rfl)
    opened_reached
  exact ⟨t, _, hstep, (hsteps _ _ _ _ hstep).2 0 _ rfl rfl⟩

end CortexLabs.BootLog
