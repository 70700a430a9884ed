import TinyKernel.System

/-!
# A demonstration

Boots a kernel on a simulated machine, creates three processes of different priorities, runs them
all and shows the process table before and after.  Each process allocates a buffer, says its name
and frees the buffer.
-/

namespace TinyKernel.Demo

/-- The processes of the demonstration.  The entry of each is its name, so that what it runs can be
told from what the process table shows. -/
def processes : List (String × Priority) :=
  [("counter", .normal), ("greeter", .high), ("sleeper", .low)]

/-- What a process of the demonstration does: it asks for a buffer of zeros, says who it is, and gives
the buffer back.  If there is no memory for the buffer, it says who it is all the same. -/
def greet (name : String) (k : Kernel String) : Run (Unit × Kernel String) := do
  let pid := k.currentPid
  let (buffer?, k) ← k.calloc 16 64
  Run.printLine (name ++ " running as pid " ++ pid.text)
  match buffer? with
  | none => pure ((), k)
  | some buffer =>
    let (_, k) ← k.free buffer
    pure ((), k)

/-- Creates processes in the order given, and says how that went.  A creation that fails does not keep
the others from being tried. -/
def spawnAll (k : Kernel String) : List (String × Priority) → Run (Kernel String)
  | [] => pure k
  | (name, priority) :: rest => do
    let (spawned, k) ← k.spawn name priority name
    match spawned with
    | .ok pid => Run.printLine ("spawned " ++ name ++ " as pid " ++ pid.text)
    | .error e => Run.printLine ("could not spawn " ++ name ++ ": " ++ e.message)
    spawnAll k rest

/-- Rounds after which the demonstration waits no longer.  Each process takes one, and so does each
time that the kernel's own process comes round; two more than there are processes are enough. -/
def rounds : Nat := 64

/-- **The demonstration.**  A system is booted with the standard layout, three processes are created
and run to their end, and what they leave behind is reclaimed.  The heap is as free at the end as it
was after booting. -/
def run : Run Unit := do
  let config := BootConfig.standard
  let system ← System.off.boot (.ofConfig config) config
  let k ← system.kernel
  let k ← spawnAll k processes
  k.printProcesses
  let (_, k) ← k.drive greet rounds
  let (reaped, k) ← k.reap
  let heap ← k.heapStats
  Run.printLine ("reaped " ++ toString reaped ++ " processes, heap " ++ toString heap.used
    ++ " used / " ++ toString heap.free ++ " free")
  k.printProcesses

/-- The exit code of the demonstration on a console, and everything that it prints there.  A fault ends
it with code 101, after what was printed up to then. -/
def outcome (console : Console) : UInt32 × String :=
  match run.run console with
  | .ok _ console => (0, console.text)
  | .error _ console => (101, console.text)

end TinyKernel.Demo
