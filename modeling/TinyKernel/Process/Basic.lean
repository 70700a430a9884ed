/-!
# Process identity

The vocabulary of processes: identifiers, states, priorities, and the reasons for which an operation
on a process is refused.
-/

namespace TinyKernel

/-- **Process identifier.**  Handed out in increasing order and never reused, not even if the process
never came to be; a pid that is remembered too long names nothing, but never another process. -/
structure Pid where
  val : UInt32
  deriving DecidableEq, Inhabited

namespace Pid

/-- The kernel's own process, which is there from the start, and which runs whenever nothing else
does. -/
def kernel : Pid := ⟨0⟩

/-- A process identifier in messages, in decimal. -/
def text (p : Pid) : String := toString p.val.toNat

end Pid

/-- Where a process is in its life.  A `new` process has a slot and cannot be scheduled yet.  A
`terminated` one has a slot still, and keeps its exit code there until it is reaped. -/
inductive ProcessState where
  | new
  | ready
  | running
  | blocked
  | terminated
  deriving DecidableEq, Inhabited

namespace ProcessState

/-- The name of a state, as it is printed in the process table. -/
def text : ProcessState → String
  | new => "New"
  | ready => "Ready"
  | running => "Running"
  | blocked => "Blocked"
  | terminated => "Terminated"

/-- Every state, in the order of a process's life. -/
def all : List ProcessState := [new, ready, running, blocked, terminated]

end ProcessState

/-- Recorded for each process, and shown.  The round robin scheduler does not look at it: every process
waits its turn, whatever its priority, and a dispatch does not depend on it. -/
inductive Priority where
  | low
  | normal
  | high
  deriving DecidableEq, Inhabited

namespace Priority

/-- What a process gets if nothing else is asked for. -/
def standard : Priority := normal

/-- The name of a priority, as it is printed in the process table. -/
def text : Priority → String
  | low => "Low"
  | normal => "Normal"
  | high => "High"

/-- Ticks granted for each dispatch.  Kept for bookkeeping: processes give up the processor by
themselves, and nothing takes it from them when these have passed. -/
def timeSlice : Priority → Nat
  | low => 5
  | normal => 10
  | high => 20

end Priority

/-- **Why an operation on a process is refused.**  An operation that is refused leaves the process
table as it was, except that a pid may have been used up. -/
inductive ProcessError where
  /-- Every slot is in use, by terminated processes too. -/
  | tableFull
  /-- The heap has no room for the stack, and cannot grow enough for it. -/
  | outOfMemory
  | noSuchProcess (pid : Pid)
  /-- The kernel's process cannot exit, be killed or block. -/
  | kernelProcess
  | alreadyTerminated (pid : Pid)
  | notBlocked (pid : Pid)
  deriving DecidableEq

/-- The wording of a refusal, which quotes the pid where there is one. -/
def ProcessError.message : ProcessError → String
  | tableFull => "Process table is full"
  | outOfMemory => "Out of memory for process stack"
  | noSuchProcess pid => "No process with pid " ++ pid.text
  | kernelProcess => "Operation not allowed on the kernel process"
  | alreadyTerminated pid => "Process " ++ pid.text ++ " already terminated"
  | notBlocked pid => "Process " ++ pid.text ++ " is not blocked"

end TinyKernel
