import CortexLabs.Device.Memory
import CortexLabs.Device.Program

/-! The receive ring buffer.  Its fields are volatile, so each function is a program of accesses to
them: the main loop's `rb_pop` may be interrupted between any two. -/

namespace CortexLabs.RingBuffer

open Device

abbrev rbSize : Word := 64

/-- `ringbuffer_t`; `data` is only used below `rbSize`. -/
structure Ringbuffer where
  data : Nat → Byte
  head : Word
  tail : Word

inductive Op where
  | readHead
  | readTail
  | readData (index : Word)
  | writeData (index : Word) (c : Byte)
  | writeHead (v : Word)
  | writeTail (v : Word)
  deriving DecidableEq

def Ans : Op → Type
  | .readHead => Word
  | .readTail => Word
  | .readData _ => Byte
  | .writeData _ _ => Unit
  | .writeHead _ => Unit
  | .writeTail _ => Unit

def access : (o : Op) → Ringbuffer → Ans o × Ringbuffer
  | .readHead, rb => (rb.head, rb)
  | .readTail, rb => (rb.tail, rb)
  | .readData index, rb => (rb.data index.toNat, rb)
  | .writeData index c, rb => ((), { rb with data := Function.update rb.data index.toNat c })
  | .writeHead v, rb => ((), { rb with head := v })
  | .writeTail v, rb => ((), { rb with tail := v })

abbrev RbProgram (α : Type) := Program Op Ans α

def readHead : RbProgram Word := Program.issue Op.readHead

def readTail : RbProgram Word := Program.issue Op.readTail

def readData (index : Word) : RbProgram Byte := Program.issue (Op.readData index)

def writeData (index : Word) (c : Byte) : RbProgram Unit := Program.issue (Op.writeData index c)

def writeHead (v : Word) : RbProgram Unit := Program.issue (Op.writeHead v)

def writeTail (v : Word) : RbProgram Unit := Program.issue (Op.writeTail v)

def rbInit : RbProgram Unit := do
  writeHead 0
  writeTail 0

/-- `rb_empty`.  The order in which the operands of a comparison are read is the compiler's. -/
def rbEmpty (tailFirst : Bool) : RbProgram Bool :=
  if tailFirst then do
    let tail ← readTail
    let head ← readHead
    return head == tail
  else do
    let head ← readHead
    let tail ← readTail
    return head == tail

def rbFull : RbProgram Bool := do
  let head ← readHead
  let tail ← readTail
  return (head + 1) % rbSize == tail

def rbPush (c : Byte) : RbProgram Bool := do
  let full ← rbFull
  if full then return false
  let head ← readHead
  writeData head c
  let head ← readHead
  writeHead ((head + 1) % rbSize)
  return true

/-- `rb_pop`: the byte that it stores, none when it returns false. -/
def rbPop (tailFirst : Bool) : RbProgram (Option Byte) := do
  let empty ← rbEmpty tailFirst
  if empty then return none
  let tail ← readTail
  let c ← readData tail
  let tail ← readTail
  writeTail ((tail + 1) % rbSize)
  return some c

/-! ### The main loop and its interrupt -/

/-- The ring buffer, the bytes that pushes have accepted and that pops have returned, and how many
were in the buffer when the last pop that was called read `head`, if it has. -/
structure Shared where
  rb : Ringbuffer
  accepted : List Byte
  returned : List Byte
  checked : Option Nat

namespace Shared

/-- How many bytes have been accepted whose pop is not complete. -/
def count (s : Shared) : Nat := s.accepted.length - s.returned.length

/-- An access of a pop. -/
def access (o : Op) (s : Shared) : Ans o × Shared :=
  ((RingBuffer.access o s.rb).1, { s with
    rb := (RingBuffer.access o s.rb).2
    checked := if o = .readHead then some s.count else s.checked })

def pushOk (c : Byte) (s : Shared) : Bool := ((rbPush c).run RingBuffer.access s.rb).1

/-- A whole call of `rb_push`. -/
def push (c : Byte) (s : Shared) : Shared :=
  { s with
    rb := ((rbPush c).run RingBuffer.access s.rb).2
    accepted := if s.pushOk c then s.accepted ++ [c] else s.accepted }

def popped (r : Option Byte) (s : Shared) : Shared :=
  { s with returned := s.returned ++ r.toList }

end Shared

/-- What is shared, and what is left of the pop in progress. -/
structure System where
  shared : Shared
  pop : Option (RbProgram (Option Byte))

inductive Label where
  | pushed (c : Byte) (ok : Bool)
  | called
  | accessed
  | popped (r : Option Byte)

/-- A push, the start of a pop, or an access of the pop in progress, which is complete with its last
access. -/
inductive Step (tailFirst : Bool) : System → Label → System → Prop
  | push (c : Byte) (s : System) :
      Step tailFirst s (.pushed c (s.shared.pushOk c)) { s with shared := s.shared.push c }
  | call {s : Shared} :
      Step tailFirst ⟨s, none⟩ .called ⟨{ s with checked := none }, some (rbPop tailFirst)⟩
  | access {s : Shared} {o o' : Op} {k : Ans o → RbProgram (Option Byte)}
      {k' : Ans o' → RbProgram (Option Byte)} : k (s.access o).1 = .call o' k' →
      Step tailFirst ⟨s, some (.call o k)⟩ .accessed ⟨(s.access o).2, some (.call o' k')⟩
  | pop {s : Shared} {o : Op} {k : Ans o → RbProgram (Option Byte)} {r : Option Byte} :
      k (s.access o).1 = .ret r →
      Step tailFirst ⟨s, some (.call o k)⟩ (.popped r) ⟨(s.access o).2.popped r, none⟩

/-- The system after `rb_init`. -/
def System.start (rb : Ringbuffer) : System :=
  ⟨⟨(rbInit.run RingBuffer.access rb).2, [], [], none⟩, none⟩

end CortexLabs.RingBuffer
