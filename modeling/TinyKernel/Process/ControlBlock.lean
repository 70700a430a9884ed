import TinyKernel.Heap.Basic
import TinyKernel.Process.Context
import TinyKernel.Process.Name
import TinyKernel.Text.Quoted

/-!
# Process control blocks

What the system knows about one process.  The code that a process runs is an *entry* of any type
`ε`; it is held until the process runs it, or until the process ends without having run it.
-/

namespace TinyKernel

/-- The most children that a process keeps track of.  A process may have more; those are just not on
its list. -/
def maxChildren : Nat := 16

/-- **A process stack**, allocated from the kernel heap.  It is kept both as a pointer, to be freed by,
and as an address, to be run on. -/
structure Stack where
  /-- The block, as the heap knows it. -/
  base : Pointer
  /-- The address of its lowest byte. -/
  vaddr : VirtAddr
  size : Nat
  deriving DecidableEq

/-- The highest address of a stack that is a multiple of 16.  Stacks grow downwards, and up to 15 bytes
above this are never used. -/
def Stack.top (s : Stack) : Checked UInt32 := do
  let behind ← Checked.add32 s.vaddr.val (UInt32.ofNat s.size)
  pure (behind - behind % 16)

/-- **A process**, with all that is kept about it.  A slot of the process table holds one of these or
nothing.  A process that runs has a stack; the kernel's own, which was running before there was a heap,
has none. -/
structure ControlBlock (ε : Type) where
  pid : Pid
  name : String
  state : ProcessState
  priority : Priority
  context : Context
  stack? : Option Stack
  pending? : Option ε
  timeSlice : Nat
  /-- Ticks spent running, charged at each switch away from the process. -/
  cpuTime : Nat
  /-- The tick at the last dispatch, from which the ticks are counted at the next switch. -/
  dispatchedAt : Nat
  exitCode? : Option Int32
  parent? : Option Pid
  /-- The children that are kept track of, in the order in which they were created. -/
  children : List Pid

/-- A snapshot of a process: what others may see of it.  Registers, stack and entry are left out.  A
snapshot does not change when the process does. -/
structure ProcessInfo where
  pid : Pid
  name : String
  state : ProcessState
  priority : Priority
  cpuTime : Nat
  exitCode? : Option Int32
  parent? : Option Pid
  children : List Pid
  deriving DecidableEq

namespace ControlBlock

variable {ε : Type}

/-- A process that has a slot and nothing else yet: no stack, no entry, and registers that are all
zero.  It cannot be scheduled as it is. -/
def new (pid : Pid) (name : String) (priority : Priority) (parent? : Option Pid) :
    ControlBlock ε where
  pid
  name := keptName name
  state := .new
  priority
  context := {}
  stack? := none
  pending? := none
  timeSlice := priority.timeSlice
  cpuTime := 0
  dispatchedAt := 0
  exitCode? := none
  parent?
  children := []

/-- A snapshot of the process, field by field. -/
def info (b : ControlBlock ε) : ProcessInfo where
  pid := b.pid
  name := b.name
  state := b.state
  priority := b.priority
  cpuTime := b.cpuTime
  exitCode? := b.exitCode?
  parent? := b.parent?
  children := b.children

/-- The process as a line of the printed process table.  Stack pointer and program counter are those
saved last. -/
def line (b : ControlBlock ε) : String :=
  "PID " ++ b.pid.text ++ ": " ++ b.name ++ " State: " ++ b.state.text ++ ", Priority: "
    ++ b.priority.text ++ ", CPU: " ++ toString b.cpuTime ++ ", SP: "
    ++ Text.hex b.context.esp.toNat ++ ", PC: " ++ Text.hex b.context.eip.toNat

/-- The process as a record, in part.  Stack, entry and family are left out, as the two dots say. -/
def describe (b : ControlBlock ε) : String :=
  let exitCode := match b.exitCode? with
    | none => "None"
    | some code => "Some(" ++ toString code.toInt ++ ")"
  "Pcb \x7b pid: Pid(" ++ b.pid.text ++ "), name: " ++ Text.quoted b.name ++ ", state: "
    ++ b.state.text ++ ", priority: " ++ b.priority.text ++ ", context: " ++ b.context.describe
    ++ ", cpu_time: " ++ toString b.cpuTime ++ ", exit_code: " ++ exitCode ++ ", .. \x7d"

end ControlBlock

end TinyKernel
