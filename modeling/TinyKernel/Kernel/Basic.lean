import TinyKernel.Heap.Allocation
import TinyKernel.Kernel.Pages
import TinyKernel.Process.Table

/-!
# The kernel

A booted kernel owns the processor, the frames, the paging state, one heap and the process table.
It is booted on a machine, whose memory it takes over.

## What is load-bearing

Every operation runs with interrupts masked (`Kernel.masked`), and masking nests: the flag comes
back only where it was set before.

Entries that are given up without having run are kept in `Kernel.dropped`, oldest first, so that an
entry is always either held by its process, or handed out, or dropped.

* `Machine` — what a kernel is booted on
* `Kernel.boot` — brings everything up, or faults
* `Kernel.masked` — runs an operation with interrupts masked
-/

namespace TinyKernel

/-- **A machine**: memory, a range of memory for the kernel heap, and a processor.  The two kinds of
memory are kept apart, since tables are reached by their frames and the heap by its offsets. -/
structure Machine where
  ram : Ram
  /-- Bytes of memory that the kernel heap can use.  A kernel whose heap may grow larger does not
  boot. -/
  heapWindow : Nat
  cpu : Cpu

/-- A machine just reset, with zeroed memory.  The memory for the heap comes in units of eight bytes,
and is rounded up to them. -/
def Machine.ofSizes (ramBytes heapWindow : Nat) : Machine where
  ram := .ofSize ramBytes
  heapWindow := (heapWindow + 7) / 8 * 8
  cpu := .reset

/-- The machine that a layout describes: as much memory as it lays out, and room for the whole heap.
Such a machine has always room enough; a smaller one may refuse to boot. -/
def Machine.ofConfig (config : BootConfig) : Machine :=
  .ofSizes config.memoryTop.toNat config.heapMaxSize

/-- **A booted kernel**, whose processes run entries of type `ε`.  What an entry does is left open:
running one is a parameter of `runCurrent`, and the kernel only stores entries and hands them out. -/
structure Kernel (ε : Type) where
  cpu : Cpu
  config : BootConfig
  /-- The kernel's own directory, which the heap is mapped into, whatever the current directory is. -/
  directory : PageDirectory
  frames : FrameAllocator
  paging : Paging
  heap : Heap
  processes : ProcessTable ε
  /-- Timer ticks since boot, modulo 2^64.  Nothing but `tick` changes them. -/
  ticks : Nat
  /-- The entries that were given up without having run, oldest first.  They are kept so that nothing
  that was handed in is lost from sight. -/
  dropped : Array ε

/-- The address at which a new process starts to execute.  It is the same for all of them; which entry
runs is looked up by the process that is running. -/
def processEntryPoint : UInt32 := 0x100000

namespace Kernel

variable {ε α : Type}

/-- **Boots a kernel**: frames, paging, the heap and the process table, in this order, since each needs
the ones before it.  What cannot be set up is a fault, and there is no kernel then.  The kernel's own
directory is in use from before the heap is mapped, and paging is on. -/
def boot (machine : Machine) (config : BootConfig) : Run (Kernel ε) := do
  if let .error e := config.validate then
    throw (.invalidConfig e)
  let frames ← FrameAllocator.init config.memoryTop config.reservedTop
  let (started, paging, frames) ← (Paging.ofRam machine.ram).start frames
  match started with
  | .error e => throw (.noKernelDirectory e)
  | .ok directory =>
    let (paging, cpu) := paging.switch machine.cpu directory
    let cpu := cpu.enablePaging
    Run.log .info "paging enabled"
    if machine.heapWindow < config.heapMaxSize then
      throw .noHeapWindow
    let pages : KernelPages := { cpu, paging, frames, directory }
    let (made, pages) ← Heap.init ⟨config.heapStart⟩ config.heapInitialSize config.heapMaxSize pages
    match made with
    | .error e => throw (.noKernelHeap e)
    | .ok heap =>
      Run.log .info ("process table ready, kernel process is pid " ++ Pid.kernel.text)
      pure
        { cpu := pages.cpu
          config
          directory
          frames := pages.frames
          paging := pages.paging
          heap
          processes := .new directory.address
          ticks := 0
          dropped := #[] }

/-- Sets the interrupt flag of the processor, and nothing else. -/
def setInterrupts (k : Kernel ε) (enabled : Bool) : Kernel ε :=
  { k with cpu := { k.cpu with interruptsEnabled := enabled } }

/-- **Runs an operation with interrupts masked**, and enables them afterwards if they were enabled
before.  Calls may therefore be nested: the inner one finds interrupts masked and leaves them so. -/
def masked (op : Kernel ε → Run (α × Kernel ε)) (k : Kernel ε) : Run (α × Kernel ε) := do
  let enabled := k.cpu.interruptsEnabled
  let (a, k) ← op (k.setInterrupts false)
  pure (a, if enabled then k.setInterrupts true else k)

/-- Counts a timer tick.  Scheduling stays cooperative: a tick takes the processor away from nobody,
and matters only to the time that is charged at the next switch. -/
def tick (k : Kernel ε) : Kernel ε := { k with ticks := (k.ticks + 1) % 0x1_0000_0000_0000_0000 }

/-- Stops the processor for good.  Nothing comes after it, and so there is no kernel to go on with. -/
def halt (_ : Kernel ε) : Run α := throw .halted

end Kernel

end TinyKernel
