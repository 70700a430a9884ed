import TinyKernel.Address
import TinyKernel.Process.Context

/-!
# The processor

A simulated processor.  It keeps what was asked of it: which page directory is loaded, whether
paging and interrupts are on, how often cached translations were flushed, and between which contexts
it was told to switch.  Nothing runs at a switch; it is recorded, with the two contexts as they
were.
-/

namespace TinyKernel

/-- **The processor**, as far as the kernel drives it: a directory register, two flags, and counts of
what else it was told to do.  Flushes and switches are recorded and not carried out, so that it can be
said which of them a call makes. -/
structure Cpu where
  /-- The page directory that was loaded last. -/
  loadedDirectory : PhysAddr
  pagingEnabled : Bool
  interruptsEnabled : Bool
  /-- How often the cached translations were flushed.  There is no cache in the model; that a
  translation goes out of date without a flush is seen by comparing this count with the change in the
  tables. -/
  tlbFlushes : Nat
  /-- The switches so far, oldest first: the context left and the context resumed.  The registers of
  whoever runs are not part of the kernel's state, and appear here only when they are handed over. -/
  switches : Array (Context × Context)

namespace Cpu

/-- A processor just reset: no directory, paging off, interrupts on, and nothing recorded. -/
def reset : Cpu where
  loadedDirectory := ⟨0⟩
  pagingEnabled := false
  interruptsEnabled := true
  tlbFlushes := 0
  switches := #[]

/-- Loads a page directory, by the address of its frame.  Whether there is a directory at that address
is for the caller to know. -/
def loadDirectory (c : Cpu) (directory : PhysAddr) : Cpu := { c with loadedDirectory := directory }

/-- Turns paging on.  The directory has to be loaded by then, and the code that runs has to be mapped
in it to itself. -/
def enablePaging (c : Cpu) : Cpu := { c with pagingEnabled := true }

/-- Flushes the cached translations.  Unmapping a page does this once, exactly if there was something
to unmap. -/
def flushTlb (c : Cpu) : Cpu := { c with tlbFlushes := c.tlbFlushes + 1 }

/-- Records a switch from one context to another.  The context that is left is the one that is saved
for later. -/
def switchContext (c : Cpu) (left resumed : Context) : Cpu :=
  { c with switches := c.switches.push (left, resumed) }

end Cpu

end TinyKernel
