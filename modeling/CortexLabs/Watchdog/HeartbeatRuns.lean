import CortexLabs.Watchdog.HeartbeatThreads

/-! Runs of the heartbeat program: its threads, in any order and at any of their operations, keep to
the policy. -/

namespace CortexLabs.Watchdog.Heartbeat

open Device Errno Relation

variable {n m : Word}

/-- What a thread knows when it starts another turn of its loop. -/
def Turn (i : Thread) (s : Shared) : Prop :=
  match i with
  | .main => Idle 0 s.facts
  | .worker id => Away id false false s.facts
  | .debugger => True

def System.Sound (n : Word) (c : System) : Prop :=
  Crew.Sound Answer (Shared.Sound n) (rely n) (guar n) (fun i _ => Turn i) c

theorem Kept.upholds {i : Thread} {p : HeartbeatProgram (Option Word)} {s : Shared}
    (hs : s.Sound n) (h : Kept n i (fun next f => ∀ a, next = some a →
      match i with
      | .main => Idle 0 f
      | .worker id => Away id false false f
      | .debugger => True) p s.facts) :
    Upholds (Answer i) (rely n i) (guar n i) (Between fun _ => Turn i) p s := by
  refine (h s rfl hs).mono fun next s' hnext => ?_
  cases next with
  | none => trivial
  | some a => exact hnext.2 a rfl

theorem start_sound :
    Facts.Sound n ⟨.zero, none, fun _ => false, 0, n, m, 0, .start⟩ where
  stalled _ := BitVec.getLsbD_zero.symm
  task id := by
    have hheld : ((0 : Byte).getLsbD id && !false).toNat = 0 := by simp
    have hstart : Task.start.Sound 0 0 :=
      ⟨Nat.le_refl 0, fun _ => ⟨rfl, rfl⟩, nofun, fun _ => rfl, nofun⟩
    exact hstart.drop hheld.le
  failed := nofun
  clearing := nofun
  auto _ := rfl
  sticky _ _ := nofun
  bound _ _ := Nat.zero_le _

theorem boot_sound : (boot n m).Sound n := by
  have hsound : (boot n m).state.Sound n := ⟨.nil, start_sound⟩
  refine ⟨hsound, fun i => Kept.upholds hsound ?_⟩
  cases i with
  | main => exact mainStart_kept ⟨fun _ => rfl, rfl, rfl, rfl⟩
  | worker id =>
    refine .op (P := fun f => f.owner ≠ some (.worker id) ∧ (f.history.task id).tested = false)
      (fun f f' h hkeep => ⟨hkeep.free h.1, (hkeep.worker id rfl).1.trans h.2⟩) ⟨nofun, rfl⟩ ?_
    intro s _ hs h hcreated
    exact ⟨trivial, hs, fun j _ => .refl j s.facts,
      heartbeatWorker_kept 0 ⟨hcreated, h.1, h.2, nofun⟩⟩
  | debugger =>
    intro s hs hsound
    exact (debug_kept s.facts s rfl hsound).mono fun _ _ h => ⟨h.1, fun _ _ => trivial⟩

theorem System.Sound.move {c c' : System} (h : c.Sound n) (hmove : Move Answer body c c') :
    c'.Sound n := by
  have h : Crew.Sound Answer (Shared.Sound n) (rely n) (guar n) (fun i _ => Turn i) c := h
  refine h.move ?_ ?_ ?_ ?_ ?_ hmove
  · exact fun i s s1 s2 h h' => ⟨h'.1, h.2.trans h'.2⟩
  · exact fun i s hs => ⟨hs, .refl i s.facts⟩
  · exact fun i s s' hguar => ⟨hguar.1, fun j hj => ⟨hguar.1, hguar.2 j hj⟩⟩
  · intro i a s s' hturn hrely
    cases i with
    | main => exact stable_idle 0 _ _ hturn hrely.2
    | worker id => exact stable_away false false _ _ hturn hrely.2
    | debugger => trivial
  · intro i a s hs hturn
    refine Kept.upholds hs ?_
    cases i with
    | main => exact mainLoop_kept a hturn
    | worker id => exact heartbeatWorker_kept a hturn
    | debugger =>
      intro s' hs' hsound
      exact (debug_kept s.facts s' hs' hsound).mono fun _ _ h => ⟨h.1, fun _ _ => trivial⟩

theorem boot_run {c : System} (hrun : ReflTransGen (Move Answer body) (boot n m) c) :
    c.Sound n :=
  run_invariant (fun _ _ h hmove => h.move hmove) hrun boot_sound

theorem next_debugged (h : History) {e : Entry} (he : e.thread ≠ .debugger) :
    (h.next e).debugged = h.debugged := by
  unfold History.next
  split
  · rfl
  · split <;> rfl
  · rfl
  · rfl
  · rfl
  · rfl
  · exact absurd rfl he
  · rfl

theorem debugged_of {log : List Entry} (h : ∀ e ∈ log, e.thread ≠ .debugger) :
    (stallPolicy.after log).debugged = false := by
  induction log using List.reverseRecOn with
  | nil => rfl
  | append_singleton log e ih =>
    have hlog := ih fun e he => h e (List.mem_append_left _ he)
    have he := h e (List.mem_append_right _ (List.mem_singleton_self e))
    rw [Monitor.after_snoc]
    exact (next_debugged _ he).trans hlog

/-- Whatever the order of the operations of the threads, the feeds keep to the policy; and when the
debugger sets nothing and the demonstration is on, there are at most two feeds after the one that it
waits for. -/
theorem stall_policy {c : System} (hrun : ReflTransGen (Move Answer body) (boot n m) c) :
    stallPolicy.Conforms c.state.log ∧ (n ≠ 0 → (∀ e ∈ c.state.log, e.thread ≠ .debugger) →
      (stallPolicy.after c.state.log).feeds ≤ n.toNat + 2) := by
  have hsound := (boot_run hrun).inv
  refine ⟨hsound.conforms, fun hn hquiet => ?_⟩
  have hbound := hsound.facts.bound (debugged_of hquiet) hn
  have htask := hsound.facts.task 1
  have hsince : (c.state.facts.history.task 1).since ≤ 2 := by
    cases hstalled : (c.state.facts.history.task 1).stalled with
    | true =>
      have := htask.stalled hstalled
      omega
    | false =>
      rw [(htask.unstalled hstalled).1]
      exact Nat.zero_le 2
  exact hbound.trans (Nat.add_le_add_left hsince _)

/-! ### Runs that can be computed -/

/-- What a kernel and a driver without faults answer, none where the thread is blocked. -/
def Shared.reply (s : Shared) : (o : Op) → Option (Ans o)
  | .kernel .isInIsr => some false
  | .kernel (.deviceIsReady _) => some true
  | .kernel .mutexLock => if s.owner = none then some (0 : Int) else none
  | .kernel .mutexInit | .kernel .mutexUnlock | .kernel (.installTimeout _ _)
  | .kernel (.setup _ _) | .kernel (.feed _ _) => some (0 : Int)
  | .entry id => if s.created id = true then some () else none
  | .readDev => some s.ctx.dev
  | .readChannelId => some s.ctx.channelId
  | .readReportedMask => some s.ctx.reportedMask
  | .readState => some s.ctx.state
  | .read v => some (s.vars v)
  | .choose => some (0 : Word)
  | .threadCreate _ | .sleep _ | .writeDev _ | .writeChannelId _ | .writeReportedMask _
  | .writeState _ | .write _ _ | .atomicOr _ _ | .atomicInc _ | .writeRc _ _ | .writeStage _ =>
    some ()

theorem Shared.allows_reply {s : Shared} {o : Op} {r : Ans o} (h : s.reply o = some r) :
    s.Allows o r := by
  cases o with
  | kernel o =>
    cases o with
    | mutexLock =>
      intro _
      by_contra howner
      rw [Shared.reply, if_neg howner] at h
      cases h
    | _ => trivial
  | entry id =>
    show s.created id = true
    by_contra hcreated
    rw [Shared.reply, if_neg hcreated] at h
    cases h
  | readDev | readChannelId | readReportedMask | readState | read =>
    exact (Option.some.inj h).symm
  | _ => trivial

/-- A move of the thread, if it has one. -/
def System.turn (c : System) (i : Thread) : System :=
  match c.left i with
  | .call o k =>
    match c.state.reply o with
    | some r =>
      ⟨{ c.state.effect i o r with log := c.state.log ++ [⟨i, o, r⟩] },
        Function.update c.left i (k r)⟩
    | none => c
  | .ret (some a) => ⟨c.state, Function.update c.left i (body i a)⟩
  | .ret none => c

def System.turns (c : System) (schedule : List (Thread × Nat)) : System :=
  schedule.foldl (fun c part => Nat.repeat (fun c => System.turn c part.1) part.2 c) c

theorem System.turn_run (c : System) (i : Thread) :
    ReflTransGen (Move Answer body) c (c.turn i) := by
  rw [System.turn]
  split
  · next o k hleft =>
    split
    · next r hreply => exact .single (.turn hleft ⟨Shared.allows_reply hreply, rfl⟩)
    · exact .refl
  · next a hleft => exact .single (.again hleft)
  · exact .refl

theorem System.turns_run (c : System) (schedule : List (Thread × Nat)) :
    ReflTransGen (Move Answer body) c (c.turns schedule) := by
  induction schedule generalizing c with
  | nil => exact .refl
  | cons part schedule ih =>
    have hpart : ∀ k (c : System),
        ReflTransGen (Move Answer body) c (Nat.repeat (fun c => System.turn c part.1) k c) := by
      intro k
      induction k with
      | zero => exact fun _ => .refl
      | succ k ih => exact fun c => (ih c).trans (System.turn_run _ _)
    exact (hpart part.2 c).trans (ih _)

/-- The two feeds after the one that the demonstration waits for. -/
theorem stall_policy_late : ∃ c, ReflTransGen (Move Answer body) (boot 1 0) c ∧
    stallPolicy.Conforms c.state.log ∧ (stallPolicy.after c.state.log).feeds = 1 + 2 ∧
    (stallPolicy.after c.state.log).feeds ≤ 1 + 2 := by
  -- Both workers report and `main` feeds.  Task 1 reports again, and is on its way to a third report
  -- when task 0 reports and `main` stalls task 1 and feeds.  The third report is fed too.
  have hrun := System.turns_run (boot 1 0) [(.main, 17), (.worker 1, 13), (.worker 0, 13),
    (.main, 20), (.worker 1, 16), (.worker 0, 13), (.main, 23), (.worker 1, 10), (.worker 0, 13),
    (.main, 22)]
  obtain ⟨hconforms, hbound⟩ := stall_policy hrun
  refine ⟨_, hrun, hconforms, ?_, hbound (by decide) ?_⟩
  · decide +kernel
  · decide +kernel

end CortexLabs.Watchdog.Heartbeat
