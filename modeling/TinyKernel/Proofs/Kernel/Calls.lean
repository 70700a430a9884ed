import Mathlib.Algebra.GroupWithZero.Nat
import TinyKernel.Kernel.Syscall

/-!
# Runs of a kernel

Everything that can be asked of a booted kernel, as data, so that "any sequence of operations with
any arguments" is a list.  What the operations answer is dropped here; a client who cares about
answers is a session of its own.

* `KernelCall` — one call, with its arguments
* `Kernel.perform`, `Kernel.run` — one call, and calls one after the other
-/

namespace TinyKernel

/-- **What can be asked of a kernel** whose processes run entries of type `ε`.  Looking at a kernel is
no call, since it changes nothing.  Arguments are not restricted: a client may kill whom it likes and
free what it never had. -/
inductive KernelCall (ε : Type) where
  | allocFrame
  | freeFrame (address : PhysAddr)
  | createDirectory
  | switchDirectory (directory : PageDirectory)
  | map (directory : PageDirectory) (address : VirtAddr) (target : PhysAddr) (flags : PageFlags)
  | unmap (directory : PageDirectory) (address : VirtAddr)
  | alloc (size : Nat)
  | calloc (count size : Nat)
  | realloc (p? : Option Pointer) (size : Nat)
  | free (p : Pointer)
  /-- A client writes `n` bytes, if they lie in the payload of one allocated block. -/
  | store (p : Pointer) (v : UInt8) (n : Nat)
  | spawn (name : String) (priority : Priority) (entry : ε)
  | yield
  | exit (code : Int32)
  | kill (pid : Pid)
  | block
  | unblock (pid : Pid)
  | reap
  | takeEntry
  /-- The timer interrupts.  It is a call like any other, and so may come at any time between two of
  them. -/
  | tick
  | syscall (number arg : UInt32)

/-- Timer ticks of a call.  The clock of a kernel is the sum of these, as long as it does not go
round. -/
def KernelCall.ticks {ε : Type} : KernelCall ε → Nat
  | tick => 1
  | _ => 0

/-- A call asks for frames or pages by itself, and not by way of the heap.  Only such calls can take a
frame from under somebody. -/
def KernelCall.touchesPages {ε : Type} : KernelCall ε → Bool
  | allocFrame | freeFrame _ | createDirectory | switchDirectory _ | map .. | unmap .. => true
  | _ => false

/-- A call may need the heap to grow.  Stacks come from the heap, so that creating a process is one of
these. -/
def KernelCall.growsHeap {ε : Type} : KernelCall ε → Bool
  | alloc _ | calloc .. | realloc .. | spawn .. => true
  | _ => false

/-- A call is about processes, and not only about frames, pages, blocks or ticks.  All others leave the
process table as it is. -/
def KernelCall.concernsProcesses {ε : Type} : KernelCall ε → Bool
  | spawn .. | yield | exit _ | kill _ | block | unblock _ | reap | takeEntry | syscall .. => true
  | _ => false

namespace Kernel

variable {ε : Type}

/-- **One call**, without its answer.  What is proved of answers is proved of the operations; here only
what becomes of the kernel matters. -/
def perform (k : Kernel ε) : KernelCall ε → Run (Kernel ε)
  | .allocFrame => Prod.snd <$> k.allocFrame
  | .freeFrame address => Prod.snd <$> k.freeFrame address
  | .createDirectory => Prod.snd <$> k.createDirectory
  | .switchDirectory directory => Prod.snd <$> k.switchDirectory directory
  | .map directory address target flags => Prod.snd <$> k.map directory address target flags
  | .unmap directory address => Prod.snd <$> k.unmap directory address
  | .alloc size => Prod.snd <$> k.alloc size
  | .calloc count size => Prod.snd <$> k.calloc count size
  | .realloc p? size => Prod.snd <$> k.realloc p? size
  | .free p => Prod.snd <$> k.free p
  | .store p v n => do
    match ← k.heap.store p v n with
    | none => pure k
    | some heap => pure { k with heap }
  | .spawn name priority entry => Prod.snd <$> k.spawn name priority entry
  | .yield => Prod.snd <$> k.yield
  | .exit code => Prod.snd <$> k.exit code
  | .kill pid => Prod.snd <$> k.kill pid
  | .block => Prod.snd <$> k.block
  | .unblock pid => Prod.snd <$> k.unblock pid
  | .reap => Prod.snd <$> k.reap
  | .takeEntry => Prod.snd <$> k.takeEntry
  | .tick => pure k.tick
  | .syscall number arg => Prod.snd <$> k.syscall number arg

/-- **Calls, one after the other.**  A fault ends the run. -/
def run (k : Kernel ε) : List (KernelCall ε) → Run (Kernel ε)
  | [] => pure k
  | call :: calls => do
    let k ← k.perform call
    k.run calls

/-- Timer ticks of a run, which is how far the clock is after it. -/
def ticksOf (calls : List (KernelCall ε)) : Nat := (calls.map KernelCall.ticks).sum

theorem add_ticksOf_cons (clock : Nat) (call : KernelCall ε) (calls : List (KernelCall ε)) :
    clock + ticksOf (call :: calls) = clock + call.ticks + ticksOf calls := by
  rw [ticksOf, List.map_cons, List.sum_cons, ← Nat.add_assoc, ticksOf]

end Kernel

end TinyKernel
