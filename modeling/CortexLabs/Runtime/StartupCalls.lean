import CortexLabs.Runtime.StartupRuns
import Mathlib.Data.List.Chain

/-! The calls of startup.  In every run, the functions that startup calls are entered in their order
and once each, the first on the initialized memory and each on the memory that the one before it
left, and startup waits only for a function that it has called. -/

namespace CortexLabs.Runtime

open Device Thumb Relation

/-! ### What is called -/

/-- The functions that a program calls, in order. -/
def order {α : Type} : CallProgram α → List External
  | .ret _ => []
  | .call e k => e :: order (k ())

theorem order_bind {α β : Type} (p : CallProgram α) (f : α → CallProgram β) :
    ∃ a, order (p >>= f) = order p ++ order (f a) := by
  induction p with
  | ret a => exact ⟨a, rfl⟩
  | call e k ih =>
    obtain ⟨a, ha⟩ := ih ()
    exact ⟨a, congrArg (e :: ·) ha⟩

theorem order_forM {ι : Type} (xs : List ι) (f : ι → External) :
    order (xs.forM fun i => call (f i)) = xs.map f := by
  induction xs with
  | nil => rfl
  | cons x xs ih => exact congrArg (f x :: ·) ih

/-- `__local_init_array` goes through `.preinit_array` and then `.init_array`, upwards. -/
theorem order_localInitArray (arrays : Arrays) : order (localInitArray arrays) =
    (List.range arrays.preinit).map .preinit ++ (List.range arrays.init).map .init := by
  obtain ⟨a, ha⟩ := order_bind ((List.range arrays.preinit).forM fun i => call (.preinit i))
    fun _ => (List.range arrays.init).forM fun i => call (.init i)
  rw [order_forM, order_forM] at ha
  exact ha

/-- `__local_cpp_fini` goes through `.fini_array` downwards. -/
theorem order_localCppFini (arrays : Arrays) :
    order (localCppFini arrays) = (List.range arrays.fini).reverse.map .fini := by
  show order (finiFrom arrays.fini) = _
  induction arrays.fini with
  | zero => rfl
  | succ i ih =>
    rw [List.range_succ, List.reverse_append, List.map_append, ← ih]
    rfl

def ordered (arrays : Arrays) (calls : List Function) : List External :=
  calls.flatMap fun f => order (body arrays f)

/-! ### Runs -/

/-- The functions of `t` have run from `m0`, each on what the one before it left, and left `m`. -/
inductive Ran (effect : External → Memory → Memory → Prop) (m0 : Memory) :
    List (External × Memory) → Memory → Prop
  | none : Ran effect m0 [] m0
  | snoc {t : List (External × Memory)} {e : External} {m m' : Memory} :
      Ran effect m0 t m → effect e m m' → Ran effect m0 (t ++ [(e, m)]) m'

section Calls

variable {arrays : Arrays} {effect : External → Memory → Memory → Prop} {sym : Symbols}
  {calls fs : List Function} {t : List (External × Memory)} {m m0 : Memory}

/-- The functions of `t` were entered on `m0` and on what they left. -/
def Follows (effect : External → Memory → Memory → Prop) (m0 : Memory)
    (t : List (External × Memory)) : Prop :=
  (∀ a ∈ t.head?, a.2 = m0) ∧ t.IsChain fun a b => effect a.1 a.2 b.2

theorem Ran.follows_snoc (h : Ran effect m0 t m) (e : External) :
    Follows effect m0 (t ++ [(e, m)]) := by
  induction h generalizing e with
  | none => exact ⟨fun a ha => Option.some.inj ha ▸ rfl, List.isChain_singleton _⟩
  | @snoc t e1 m1 m2 _ heffect ih =>
    obtain ⟨hfirst, hchain⟩ := ih e1
    refine ⟨fun a ha => hfirst a ?_, ?_⟩
    · rw [List.head?_append] at ha
      cases t <;> exact ha
    · refine List.isChain_append.mpr ⟨hchain, List.isChain_singleton _, ?_⟩
      intro a ha b hb
      rw [List.getLast?_concat] at ha
      obtain rfl := Option.some.inj ha
      obtain rfl := Option.some.inj hb
      exact heffect

theorem Ran.follows (h : Ran effect m0 t m) : Follows effect m0 t := by
  cases h with
  | none => exact ⟨fun a ha => (Option.not_mem_none a ha).elim, List.isChain_nil⟩
  | snoc h _ => exact h.follows_snoc _

theorem after_forever (sym : Symbols) (calls : List Function) :
    after .forever (resetHandler sym calls) = [.instr (.b .forever)] := by
  have hskip : ∀ fs : List Function, after .forever (callLines fs) = [.instr (.b .forever)] := by
    intro fs
    induction fs with
    | nil => rfl
    | cons f fs ih => exact ih
  exact hskip calls

/-- Where a run is, with the functions `t` entered so far and the calls `fs` of the handler to
come. -/
inductive Stage (arrays : Arrays) (effect : External → Memory → Memory → Prop) (sym : Symbols)
    (calls : List Function) (m0 : Memory) : List (External × Memory) → Control → Prop
  | running {t : List (External × Memory)} {s s' : Cpu} {f : Function} {fs : List Function} :
      Reaches (resetHandler sym calls) s s' → s'.rest = callLines (f :: fs) →
      Ran effect m0 t s'.mem →
      t.map (·.1) ++ ordered arrays (f :: fs) = ordered arrays calls →
      Stage arrays effect sym calls m0 t (.running s)
  | calling {t : List (External × Memory)} {p : CallProgram Unit} {s : Cpu} {fs : List Function} :
      s.rest = callLines fs → Ran effect m0 t s.mem →
      t.map (·.1) ++ order p ++ ordered arrays fs = ordered arrays calls →
      Stage arrays effect sym calls m0 t (.calling p s)
  | inside {t : List (External × Memory)} {e : External} {p : CallProgram Unit} {s : Cpu}
      {fs : List Function} :
      s.rest = callLines fs → Ran effect m0 t s.mem →
      (t ++ [(e, s.mem)]).map (·.1) ++ order p ++ ordered arrays fs = ordered arrays calls →
      Stage arrays effect sym calls m0 (t ++ [(e, s.mem)]) (.inside e p s)
  | forever {t : List (External × Memory)} {s : Cpu} :
      (s.rest = callLines [] ∨ s.rest = [.instr (.b .forever)]) → Ran effect m0 t s.mem →
      t.map (·.1) = ordered arrays calls → Stage arrays effect sym calls m0 t (.running s)

theorem exec_call {code : Code} {s : Cpu} {f : Function} (h : s.rest = callLines (f :: fs)) :
    exec code s = none := by
  obtain ⟨regs, flags, mem, rest⟩ := s
  obtain rfl : rest = callLines (f :: fs) := h
  rfl

theorem Stage.step {c c' : Control} {x : Option (External × Memory)}
    (h : Stage arrays effect sym calls m0 t c)
    (hs : Step arrays effect (resetHandler sym calls) c x c') :
    Stage arrays effect sym calls m0 (t ++ x.toList) c' := by
  cases h with
  | @running _ s s' f fs hreaches hrest hran hcalls =>
    cases hs with
    | exec he =>
      rw [Option.toList_none, List.append_nil]
      exact .running (hreaches.stays (exec_call hrest) he) hrest hran hcalls
    | @bl _ g rest hbl =>
      obtain rfl : s = s' := by
        rcases ReflTransGen.cases_head hreaches with rfl | ⟨s1, h1, -⟩
        · rfl
        · simp [exec, hbl] at h1
      obtain ⟨hg, rfl⟩ := List.cons.inj (hbl.symm.trans hrest)
      cases hg
      rw [Option.toList_none, List.append_nil]
      refine .calling rfl hran ?_
      rw [← hcalls, List.append_assoc]
      rfl
  | @calling _ _ s fs hrest hran hcalls =>
    cases hs with
    | enter =>
      refine .inside hrest hran ?_
      rw [← hcalls, List.map_append, List.append_assoc, List.append_assoc, List.append_assoc]
      rfl
    | ret =>
      rw [Option.toList_none, List.append_nil]
      cases fs with
      | nil =>
        refine .forever (.inl hrest) hran ?_
        rw [← hcalls]
        simp [order, ordered]
      | cons f fs =>
        refine .running .refl hrest hran ?_
        rw [← hcalls]
        simp [order]
  | @inside t e p s fs hrest hran hcalls =>
    cases hs with
    | leave heffect =>
      rw [Option.toList_none, List.append_nil]
      exact .calling hrest (hran.snoc heffect) hcalls
  | @forever _ s hrest hran hcalls =>
    obtain ⟨regs, flags, mem, rest⟩ := s
    cases hs with
    | exec he =>
      rw [Option.toList_none, List.append_nil]
      rcases hrest with rfl | rfl
      · obtain rfl := Option.some.inj he
        exact .forever (.inr rfl) hran hcalls
      · obtain rfl := Option.some.inj he
        exact .forever (.inr (after_forever sym calls)) hran hcalls
    | bl hbl =>
      rcases hrest with rfl | rfl
      · cases hbl
      · cases hbl

theorem Stage.run {c c' : Control} (h : Stage arrays effect sym calls m0 [] c)
    (hrun : Runs arrays effect (resetHandler sym calls) c t c') :
    Stage arrays effect sym calls m0 t c' := by
  induction hrun with
  | start => exact h
  | step _ hs ih => exact ih.step hs

theorem Stage.entered {c : Control} (h : Stage arrays effect sym calls m0 t c) :
    t.map (·.1) <+: ordered arrays calls ∧ Follows effect m0 t := by
  cases h with
  | running _ _ hran hcalls => exact ⟨⟨_, hcalls⟩, hran.follows⟩
  | calling _ hran hcalls =>
    rw [List.append_assoc] at hcalls
    exact ⟨⟨_, hcalls⟩, hran.follows⟩
  | inside _ hran hcalls =>
    rw [List.append_assoc] at hcalls
    exact ⟨⟨_, hcalls⟩, hran.follows_snoc _⟩
  | forever _ hran hcalls => exact ⟨⟨[], by rw [List.append_nil, hcalls]⟩, hran.follows⟩

/-! ### Progress -/

/-- Startup waits for the function that it has entered last, which does not return. -/
def Waits (effect : External → Memory → Memory → Prop) (t : List (External × Memory))
    (c : Control) : Prop :=
  ∃ e p s, c = .inside e p s ∧ t.getLast? = some (e, s.mem) ∧ ∀ m, ¬effect e s.mem m

theorem Stage.moves {c : Control} (h : Stage arrays effect sym calls m0 t c) :
    (∃ x c', Step arrays effect (resetHandler sym calls) c x c') ∨ Waits effect t c := by
  cases h with
  | running hreaches hrest _ _ =>
    rcases ReflTransGen.cases_head hreaches with rfl | ⟨s1, h1, -⟩
    · exact .inl ⟨_, _, .bl hrest⟩
    · exact .inl ⟨_, _, .exec h1⟩
  | @calling _ p s fs _ _ _ =>
    cases p with
    | ret a => exact .inl ⟨none, .running s, .ret⟩
    | call e k => exact .inl ⟨_, _, .enter⟩
  | @inside t e p s fs _ _ _ =>
    by_cases hreturns : ∃ m, effect e s.mem m
    · obtain ⟨m, hm⟩ := hreturns
      exact .inl ⟨_, _, .leave hm⟩
    · exact .inr ⟨e, p, s, rfl, List.getLast?_concat, fun m hm => hreturns ⟨m, hm⟩⟩
  | @forever _ s hrest _ _ =>
    obtain ⟨regs, flags, mem, rest⟩ := s
    rcases hrest with rfl | rfl
    · exact .inl ⟨_, _, .exec rfl⟩
    · exact .inl ⟨_, _, .exec rfl⟩

section Completion

variable {code : Code} {c c' c'' : Control} {u : List (External × Memory)}

theorem Runs.trans (h : Runs arrays effect code c t c') (h' : Runs arrays effect code c' u c'') :
    Runs arrays effect code c (t ++ u) c'' := by
  induction h' with
  | start => rwa [List.append_nil]
  | step _ hs ih =>
    rw [← List.append_assoc]
    exact .step ih hs

theorem Runs.one {x : Option (External × Memory)} (h : Step arrays effect code c x c') :
    Runs arrays effect code c x.toList c' := .step .start h

theorem Runs.of_reaches {s s' : Cpu} (h : Reaches code s s') :
    Runs arrays effect code (.running s) [] (.running s') := by
  induction h with
  | refl => exact .start
  | tail _ he ih => exact .step ih (.exec he)

variable (hreturns : ∀ e m, ∃ m', effect e m m')
include hreturns

/-- A function of startup comes to its end when those that it calls do. -/
theorem calling_ends (p : CallProgram Unit) (s : Cpu) : ∃ t m,
    Runs arrays effect code (.calling p s) t (.running { s with mem := m }) ∧
      t.map (·.1) = order p := by
  induction p generalizing s with
  | ret a => exact ⟨_, s.mem, .one .ret, rfl⟩
  | call e k ih =>
    obtain ⟨m, hm⟩ := hreturns e s.mem
    obtain ⟨t, m', hrun, ht⟩ := ih () { s with mem := m }
    exact ⟨_, m', (Runs.one .enter).trans ((Runs.one (.leave hm)).trans hrun),
      congrArg (e :: ·) ht⟩

theorem callLines_end {fs : List Function} {s : Cpu} (hrest : s.rest = callLines fs) :
    ∃ t c, Runs arrays effect code (.running s) t c ∧ t.map (·.1) = ordered arrays fs := by
  induction fs generalizing s with
  | nil => exact ⟨[], _, .start, rfl⟩
  | cons f fs ih =>
    obtain ⟨t, m, hcall, ht⟩ := calling_ends hreturns (body arrays f)
      { s with rest := callLines fs }
    obtain ⟨u, c, hrun, hu⟩ := ih (s := ⟨s.regs, s.flags, m, callLines fs⟩) rfl
    refine ⟨_, c, (Runs.one (.bl hrest)).trans (hcall.trans hrun), ?_⟩
    rw [Option.toList_none, List.nil_append, List.map_append, ht, hu]
    rfl

/-- When the functions that it calls return, startup goes on to call all that are left. -/
theorem Stage.completes {c : Control} (h : Stage arrays effect sym calls m0 t c) : ∃ u c',
    Runs arrays effect (resetHandler sym calls) c u c' ∧
      (t ++ u).map (·.1) = ordered arrays calls := by
  cases h with
  | running hreaches hrest _ hcalls =>
    obtain ⟨u, c, hrun, hu⟩ := callLines_end hreturns hrest
    refine ⟨_, c, (Runs.of_reaches hreaches).trans hrun, ?_⟩
    rw [List.nil_append, List.map_append, hu, hcalls]
  | @calling _ p s fs hrest _ hcalls =>
    obtain ⟨u, m, hcall, hu⟩ := calling_ends hreturns p s
    obtain ⟨v, c, hrun, hv⟩ := callLines_end hreturns (s := { s with mem := m }) hrest
    refine ⟨_, c, hcall.trans hrun, ?_⟩
    rw [List.map_append, List.map_append, hu, hv, ← List.append_assoc, hcalls]
  | @inside _ e p s fs hrest _ hcalls =>
    obtain ⟨m, hm⟩ := hreturns e s.mem
    obtain ⟨u, m', hcall, hu⟩ := calling_ends hreturns p { s with mem := m }
    obtain ⟨v, c, hrun, hv⟩ := callLines_end hreturns (s := { s with mem := m' }) hrest
    have huv : (u ++ v).map (·.1) = order p ++ ordered arrays fs := by
      rw [List.map_append, hu, hv]
    refine ⟨_, c, (Runs.one (.leave hm)).trans (hcall.trans hrun), ?_⟩
    rw [Option.toList_none, List.nil_append, List.map_append, huv, ← List.append_assoc, hcalls]
  | forever _ _ hcalls => exact ⟨[], _, .start, by rw [List.append_nil, hcalls]⟩

end Completion

/-! ### Both platforms -/

/-- What a run that has entered the functions of `t` tells: they are the first of `called`, the
first was entered on the loaded memory and each of the others on what the one before it left;
startup waits only for the function entered last, and calls the rest when every function returns. -/
structure Started (arrays : Arrays) (effect : External → Memory → Memory → Prop) (code : Code)
    (m0 : Memory) (called : List External) (t : List (External × Memory)) (c : Control) :
    Prop where
  entered : t.map (·.1) <+: called
  follows : Follows effect m0 t
  moves : (∃ x c', Step arrays effect code c x c') ∨ Waits effect t c
  completes : (∀ e m, ∃ m', effect e m m') →
    ∃ u c', Runs arrays effect code c u c' ∧ (t ++ u).map (·.1) = called

/-- The processor at reset. -/
def atReset (sym : Symbols) (calls : List Function) (regs : Reg → Word) (flags : Flags)
    (m : Memory) : Control := .running ⟨regs, flags, m, resetHandler sym calls⟩

theorem started (h : Linked sym) {regs : Reg → Word} {flags : Flags} {c : Control}
    {f : Function} {fs : List Function}
    (hrun : Runs arrays effect (resetHandler sym (f :: fs))
      (atReset sym (f :: fs) regs flags m) t c) :
    Started arrays effect (resetHandler sym (f :: fs)) (loaded sym m) (ordered arrays (f :: fs))
      t c := by
  obtain ⟨s, hreaches, hrest, hmem⟩ := resetHandler_reaches h regs flags m
  have hstart : Stage arrays effect sym (f :: fs) (loaded sym m) []
      (atReset sym (f :: fs) regs flags m) :=
    .running hreaches hrest (hmem ▸ .none) rfl
  have hstage := hstart.run hrun
  exact ⟨hstage.entered.1, hstage.entered.2, hstage.moves, fun hreturns =>
    hstage.completes hreturns⟩

theorem ordered_selftest (arrays : Arrays) : ordered arrays selftestCalls =
    .systemInit :: ((List.range arrays.preinit).map .preinit ++
      (List.range arrays.init).map .init ++ .main ::
        (List.range arrays.fini).reverse.map .fini) := by
  rw [← order_localInitArray, ← order_localCppFini]
  simp [ordered, selftestCalls, body, order, call, Program.issue]

/-- Over every layout of the linker script, whatever registers, flags and RAM hold at reset and
whatever the functions do: in every run of either platform the functions are entered in their
order and once each, `main` after the constructors and before the destructors. -/
theorem startup_calls (h : Linked sym) (arrays : Arrays)
    (effect : External → Memory → Memory → Prop) (regs : Reg → Word) (flags : Flags) (m : Memory) :
    (∀ t c, Runs arrays effect (resetHandler sym selftestCalls)
        (atReset sym selftestCalls regs flags m) t c →
      Started arrays effect (resetHandler sym selftestCalls) (loaded sym m)
        (.systemInit :: ((List.range arrays.preinit).map .preinit ++
          (List.range arrays.init).map .init ++ .main ::
            (List.range arrays.fini).reverse.map .fini)) t c) ∧
    ∀ t c, Runs arrays effect (resetHandler sym runtimeCalls)
        (atReset sym runtimeCalls regs flags m) t c →
      Started arrays effect (resetHandler sym runtimeCalls) (loaded sym m)
        [.systemInit, .libcInitArray, .main, .libcFiniArray] t c := by
  refine ⟨fun t c hrun => ?_, fun t c hrun => started h hrun⟩
  rw [← ordered_selftest]
  exact started h hrun

end Calls

/-- With two constructors and a destructor, and functions that return, a run goes through all. -/
theorem startup_calls_all : ∃ t c,
    Runs ⟨0, 2, 1⟩ (fun _ m m' => m' = m) (resetHandler smallImage selftestCalls)
      (atReset smallImage selftestCalls (fun _ => 0) ⟨false, false, false, false⟩ fun _ => 0xff)
      t c ∧
    t.map (·.1) = [.systemInit, .init 0, .init 1, .main, .fini 0] := by
  have hstarted := (startup_calls smallImage_linked ⟨0, 2, 1⟩ (fun _ m m' => m' = m) (fun _ => 0)
    ⟨false, false, false, false⟩ fun _ => 0xff).1 [] _ .start
  obtain ⟨u, c, hrun, hu⟩ := hstarted.completes fun _ m => ⟨m, rfl⟩
  exact ⟨u, c, hrun, hu⟩

end CortexLabs.Runtime
