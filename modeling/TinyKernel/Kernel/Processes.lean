import TinyKernel.Kernel.Memory

/-!
# Process operations of the kernel

Creation, scheduling and the end of processes.  A stack comes from the kernel heap when a process is
created and goes back when it ends; whoever ends or blocks gives the processor to the next process
that is ready.

* `Kernel.spawn` — creates a process, or nothing
* `Kernel.yield`, `Kernel.block`, `Kernel.exit`, `Kernel.kill` — give up the processor
* `Kernel.runCurrent` — runs the entry of the running process, once
* `Kernel.drive` — runs entries until only the kernel's process is left
-/

namespace TinyKernel

/-- Bytes of a process stack.  It is one page in size, but lies in the heap like any other allocation
and not at the start of a page. -/
def stackSize : Nat := 4096

namespace Kernel

variable {ε α : Type}

/-! ## Creation -/

/-- A stack from the kernel heap, with its address.  The heap may grow for it; if it cannot, there is
no stack and no process. -/
def allocateStack (k : Kernel ε) : Run (Option Stack × Kernel ε) :=
  k.withHeap fun heap pages => do
    match ← heap.alloc pages stackSize with
    | (none, heap, pages) => pure (none, heap, pages)
    | (some base, heap, pages) =>
      let stack? := (heap.virtAddrOf base).map fun vaddr => { base, vaddr, size := stackSize }
      pure (stack?, heap, pages)

/-- Gives up an entry that did not run.  It goes to the end of those given up before. -/
def drop (k : Kernel ε) (entry : ε) : Kernel ε := { k with dropped := k.dropped.push entry }

/-- **Creates a process** that runs `entry` when it is first scheduled.  A slot is reserved before the
stack is allocated, and given up again if there is no stack.  If there is no slot or no stack for it,
the entry is given up, and the answer says which of the two was missing. -/
def spawn (name : String) (priority : Priority) (entry : ε) :
    Kernel ε → Run (Except ProcessError Pid × Kernel ε) :=
  masked fun k => do
    let (reserved, processes) ← k.processes.reserve name priority
    let k := { k with processes }
    match reserved with
    | .error e => pure (.error e, k.drop entry)
    | .ok reservation =>
      match ← k.allocateStack with
      | (none, k) =>
        Run.log .warn ("no memory for the stack of process " ++ reservation.pid.text)
        let k := { k with processes := k.processes.abandon reservation }
        pure (.error .outOfMemory, k.drop entry)
      | (some stack, k) =>
        let processes ← k.processes.activate reservation stack entry processEntryPoint
        pure (.ok reservation.pid, { k with processes })

/-! ## Switching -/

/-- Gives the processor to the next process that is ready, if there is one.  The running one is charged
for its time, whatever its state is. -/
def reschedule (k : Kernel ε) : Run (Unit × Kernel ε) := do
  let (switch?, processes) ← k.processes.schedule k.ticks
  let k := { k with processes }
  match switch? with
  | none => pure ((), k)
  | some switch =>
    let cpu := k.cpu.switchContext (processes.contextAt switch.fromSlot)
      (processes.contextAt switch.toSlot)
    pure ((), { k with cpu })

/-- **Gives up the processor** in favour of the next process that is ready.  The running one goes to
the end of the queue; if nothing else is ready, it goes on running. -/
def yield : Kernel ε → Run (Unit × Kernel ε) := masked reschedule

/-- Frees what a process left behind: its stack goes back to the heap, and its entry is given up if it
never ran. -/
def release (k : Kernel ε) (remains : Remains ε) : Run (Kernel ε) := do
  let k ← match remains.stack? with
    | none => pure k
    | some stack => Prod.snd <$> k.freeBlock stack.base
  pure (remains.pending?.elim k k.drop)

/-- **Terminates the running process** and switches away.  The kernel's own process cannot exit.  If
nothing is ready, there is nothing to switch to, and the terminated process stays the running one until
something is. -/
def exit (code : Int32) : Kernel ε → Run (Except ProcessError Unit × Kernel ε) :=
  masked fun k => do
    let (ended, processes) ← k.processes.exitCurrent code
    let k := { k with processes }
    match ended with
    | .error e => pure (.error e, k)
    | .ok remains =>
      let k ← k.release remains
      let ((), k) ← k.reschedule
      pure (.ok (), k)

/-- **Terminates a process** by its pid, and switches away if it is the running one.  The kernel's own
process and those terminated already are refused. -/
def kill (pid : Pid) : Kernel ε → Run (Except ProcessError Unit × Kernel ε) :=
  masked fun k => do
    let (ended, processes) ← k.processes.kill pid
    let k := { k with processes }
    match ended with
    | .error e => pure (.error e, k)
    | .ok (remains, wasCurrent) =>
      let k ← k.release remains
      let ((), k) ← if wasCurrent then k.reschedule else pure ((), k)
      pure (.ok (), k)

/-- **Blocks the running process** and switches away.  The kernel's own process cannot block, for there
would be nothing left to run when all others wait. -/
def block : Kernel ε → Run (Except ProcessError Unit × Kernel ε) :=
  masked fun k => do
    let (blocked, processes) ← k.processes.blockCurrent
    let k := { k with processes }
    match blocked with
    | .error e => pure (.error e, k)
    | .ok () =>
      let ((), k) ← k.reschedule
      pure (.ok (), k)

/-- Makes a blocked process ready.  It goes to the end of the queue, and the running process goes
on. -/
def unblock (pid : Pid) : Kernel ε → Run (Except ProcessError Unit × Kernel ε) :=
  masked fun k => do
    let (result, processes) ← k.processes.unblock pid
    pure (result, { k with processes })

/-- Empties the slots of terminated processes, and counts them.  Until then a terminated process is
still there to be looked at. -/
def reap : Kernel ε → Run (Nat × Kernel ε) :=
  masked fun k => do
    let (count, processes) ← k.processes.reap
    pure (count, { k with processes })

/-! ## Looking at processes -/

/-- A snapshot of the process with a pid.  A terminated one is found as well, with its exit code, until
it is reaped. -/
def find? (k : Kernel ε) (pid : Pid) : Option ProcessInfo := k.processes.find? pid

/-- Snapshots of every process, in slot order, which is not the order of creation once slots have been
used again. -/
def list (k : Kernel ε) : List ProcessInfo := k.processes.list

/-- The number of processes in a state.  Together the five numbers are the length of the list. -/
def count (k : Kernel ε) (state : ProcessState) : Nat := k.processes.count state

/-- The pids that are ready to run, the next one first. -/
def readyPids (k : Kernel ε) : List Pid := k.processes.readyPids

/-- The pid of the running process, which is never reaped as long as it is running. -/
def currentPid (k : Kernel ε) : Pid := k.processes.currentPid

/-- Prints the process table, a line for each process between two rules. -/
def printProcesses (k : Kernel ε) : Run Unit := k.processes.printLines

/-! ## Running entries -/

/-- Hands out the entry of the running process, once.  The next call finds none, unless another process
is running by then. -/
def takeEntry : Kernel ε → Run (Option ε × Kernel ε) :=
  masked fun k =>
    let (pending?, processes) := k.processes.takeEntry
    pure (pending?, { k with processes })

/-- **Runs the entry of the running process**, if it has not run yet, and then lets the process that
is running exit with code 0.  The answer is `none` if there was nothing to run. -/
def runCurrent (run : ε → Kernel ε → Run (α × Kernel ε)) (k : Kernel ε) :
    Run (Option α × Kernel ε) := do
  match ← k.takeEntry with
  | (none, k) => pure (none, k)
  | (some entry, k) =>
    let (a, k) ← run entry k
    let (ended, k) ← k.exit 0
    if let .error e := ended then
      Run.log .warn ("process " ++ k.currentPid.text ++ " could not exit: " ++ e.message)
    pure (some a, k)

/-- **Runs entries until nothing is left to run**: the entry of the running process if it has one;
else, unless the kernel's own process is running and nothing is ready, the next process gets the
processor.  The answer is `false` if that takes more than the given number of rounds. -/
def drive (run : ε → Kernel ε → Run (Unit × Kernel ε)) :
    Nat → Kernel ε → Run (Bool × Kernel ε)
  | 0, k => pure (false, k)
  | rounds + 1, k => do
    match ← k.runCurrent run with
    | (some (), k) => drive run rounds k
    | (none, k) =>
      if k.currentPid = .kernel ∧ k.readyPids.isEmpty then
        pure (true, k)
      else
        let ((), k) ← k.yield
        drive run rounds k

end Kernel

end TinyKernel
