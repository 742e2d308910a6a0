import CortexLabs.Device.Program
import CortexLabs.Thumb.Machine

/-! Startup of the images: `Reset_Handler` copies the initialized data from flash to RAM, clears
`.bss` and calls the functions around `main`; `relocate_far_text` copies the code that runs from
RAM.  The two platforms that initialize memory share the handler up to `init_done` and differ in
the functions that they call after it. -/

namespace CortexLabs.Runtime

open Device Thumb

/-- The symbols of the linker script that startup uses. -/
structure Symbols where
  sidata : Word
  sdata : Word
  edata : Word
  sbss : Word
  ebss : Word

/-- The symbols of the linker script around `.far_text`. -/
structure FarText where
  load : Word
  start : Word
  stop : Word

inductive Label where
  | copyLoop
  | copyWord
  | zeroBegin
  | zeroLoop
  | zeroWord
  | initDone
  | forever
  deriving DecidableEq

/-- The functions that the reset handlers call. -/
inductive Function where
  | systemInit
  | libcInitArray
  | localInitArray
  | main
  | libcFiniArray
  | localCppFini

abbrev Code := List (Line Label Function)

/-- The end of a reset handler: its calls, and the loop after them. -/
def callLines (calls : List Function) : Code :=
  calls.map (fun f => .instr (.bl f)) ++ [.label .forever, .instr (.b .forever)]

/-- `Reset_Handler`, with the functions that it calls after `init_done`. -/
def resetHandler (sym : Symbols) (calls : List Function) : Code := [
  .instr (.ldrEq .r0 sym.sidata),
  .instr (.ldrEq .r1 sym.sdata),
  .instr (.ldrEq .r2 sym.edata),
  .label .copyLoop,
  .instr (.cmp .r1 .r2),
  .instr (.bcc .copyWord),
  .instr (.b .zeroBegin),
  .label .copyWord,
  .instr (.ldrPost .r3 .r0 4),
  .instr (.strPost .r3 .r1 4),
  .instr (.b .copyLoop),
  .label .zeroBegin,
  .instr (.ldrEq .r1 sym.sbss),
  .instr (.ldrEq .r2 sym.ebss),
  .label .zeroLoop,
  .instr (.cmp .r1 .r2),
  .instr (.bcc .zeroWord),
  .instr (.b .initDone),
  .label .zeroWord,
  .instr (.movs .r3 0),
  .instr (.strPost .r3 .r1 4),
  .instr (.b .zeroLoop),
  .label .initDone] ++ callLines calls

/-- The calls of the handler in `platform/runtime`. -/
def runtimeCalls : List Function := [.systemInit, .libcInitArray, .main, .libcFiniArray]

/-- The calls of the handler in `platform/selftest`. -/
def selftestCalls : List Function := [.systemInit, .localInitArray, .main, .localCppFini]

/-! ### The C functions -/

/-- `while (dst < end) *dst++ = *src++;`, for objects of `k + 1` bytes. -/
def copyUpTo (k : Nat) (m : Memory) (src dst stop : Nat) : Memory :=
  if dst < stop then
    copyUpTo k (m.write dst (m.read src (k + 1))) (src + (k + 1)) (dst + (k + 1)) stop
  else m
termination_by stop - dst

/-- `while (dst < end) *dst++ = 0;`, for words. -/
def zeroUpTo (m : Memory) (dst stop : Nat) : Memory :=
  if dst < stop then zeroUpTo (m.write dst (bytesOf 0)) (dst + 4) stop else m
termination_by stop - dst

def copyData (sym : Symbols) (m : Memory) : Memory :=
  copyUpTo 3 m sym.sidata.toNat sym.sdata.toNat sym.edata.toNat

def zeroBss (sym : Symbols) (m : Memory) : Memory :=
  zeroUpTo m sym.sbss.toNat sym.ebss.toNat

/-- `relocate_far_text` -/
def relocateFarText (far : FarText) (m : Memory) : Memory :=
  copyUpTo 0 m far.load.toNat far.start.toNat far.stop.toNat

/-- The functions that startup calls through pointers or from elsewhere. -/
inductive External where
  | systemInit
  | libcInitArray
  | main
  | libcFiniArray
  | preinit (i : Nat)
  | init (i : Nat)
  | fini (i : Nat)
  deriving DecidableEq

abbrev CallProgram (α : Type) := Program External (fun _ => Unit) α

def call (e : External) : CallProgram Unit := Program.issue e

/-- The lengths of `.preinit_array`, `.init_array` and `.fini_array`. -/
structure Arrays where
  preinit : Nat
  init : Nat
  fini : Nat

/-- `__local_init_array` -/
def localInitArray (arrays : Arrays) : CallProgram Unit := do
  (List.range arrays.preinit).forM fun i => call (.preinit i)
  (List.range arrays.init).forM fun i => call (.init i)

/-- The loop of `__local_cpp_fini`, from `i` down. -/
def finiFrom : Nat → CallProgram Unit
  | 0 => pure ()
  | i + 1 => do
    call (.fini i)
    finiFrom i

/-- `__local_cpp_fini` -/
def localCppFini (arrays : Arrays) : CallProgram Unit := finiFrom arrays.fini

def body (arrays : Arrays) : Function → CallProgram Unit
  | .systemInit => call .systemInit
  | .libcInitArray => call .libcInitArray
  | .localInitArray => localInitArray arrays
  | .main => call .main
  | .libcFiniArray => call .libcFiniArray
  | .localCppFini => localCppFini arrays

/-! ### Runs -/

abbrev Cpu := State Label Function

/-- Where the processor is: in the handler, in a function that the handler has called, or in one
that startup does not define. -/
inductive Control where
  | running (s : Cpu)
  | calling (p : CallProgram Unit) (s : Cpu)
  | inside (e : External) (p : CallProgram Unit) (s : Cpu)

/-- A step of startup, with the external function that it enters and the memory there.  `effect`
says what the external functions may do to the memory; a function leaves any values in registers
and flags. -/
inductive Step (arrays : Arrays) (effect : External → Memory → Memory → Prop) (code : Code) :
    Control → Option (External × Memory) → Control → Prop
  | exec {s s' : Cpu} : exec code s = some s' → Step arrays effect code (.running s) none (.running s')
  | bl {s : Cpu} {f : Function} {rest : Code} : s.rest = .instr (.bl f) :: rest →
      Step arrays effect code (.running s) none (.calling (body arrays f) { s with rest })
  | enter {e : External} {k : Unit → CallProgram Unit} {s : Cpu} :
      Step arrays effect code (.calling (.call e k) s) (some (e, s.mem)) (.inside e (k ()) s)
  | leave {e : External} {p : CallProgram Unit} {s : Cpu} {m : Memory} : effect e s.mem m →
      Step arrays effect code (.inside e p s) none (.calling p { s with mem := m })
  | ret {s : Cpu} {regs : Reg → Word} {flags : Flags} :
      Step arrays effect code (.calling (.ret ()) s) none (.running { s with regs, flags })

/-- A run from `c`, with the external functions that it has entered and the memory there. -/
inductive Runs (arrays : Arrays) (effect : External → Memory → Memory → Prop) (code : Code)
    (c : Control) : List (External × Memory) → Control → Prop
  | start : Runs arrays effect code c [] c
  | step {t : List (External × Memory)} {c' c'' : Control} {x : Option (External × Memory)} :
      Runs arrays effect code c t c' → Step arrays effect code c' x c'' →
      Runs arrays effect code c (t ++ x.toList) c''

end CortexLabs.Runtime
