import TinyKernel.Kernel.Basic

/-!
# Memory operations of the kernel

Frames, address spaces and the kernel heap, as the rest of the system uses them.  The heap takes its
pages from the kernel's own frames and maps them into the kernel's directory, whichever directory is
the current one.
-/

namespace TinyKernel.Kernel

variable {ε α : Type}

/-! ## Frames -/

/-- Hands out a frame, by its first address.  There is none if every tracked frame is in use. -/
def allocFrame : Kernel ε → Run (Option PhysAddr × Kernel ε) :=
  masked fun k => do
    let (frame?, frames) ← k.frames.alloc
    pure (frame?, { k with frames })

/-- Takes back a frame, by any address in it.  What must not be freed is left alone
(`FrameAllocator.free`); whether the caller holds the frame is not checked. -/
def freeFrame (address : PhysAddr) : Kernel ε → Run (Unit × Kernel ε) :=
  masked fun k => do
    let frames ← k.frames.free address
    pure ((), { k with frames })

/-- How many frames are tracked, free and in use.  Interrupts are not masked for this, since nothing
changes. -/
def frameStats (k : Kernel ε) : Checked FrameStats := k.frames.stats

/-! ## Address spaces -/

/-- A fresh directory that shares the kernel's page tables, as far as there are any by now.  It costs
one frame. -/
def createDirectory : Kernel ε → Run (Option PageDirectory × Kernel ε) :=
  masked fun k => do
    let (directory?, paging, frames) ← k.paging.createDirectory k.frames
    pure (directory?, { k with paging, frames })

/-- Makes a directory the current one and loads it into the processor, which flushes the translations
that it keeps. -/
def switchDirectory (directory : PageDirectory) : Kernel ε → Run (Unit × Kernel ε) :=
  masked fun k =>
    let (paging, cpu) := k.paging.switch k.cpu directory
    pure ((), { k with paging, cpu })

/-- Maps a page in a directory, with a new page table if the region has none.  The frame it goes to is
the caller's to look after. -/
def map (directory : PageDirectory) (address : VirtAddr) (target : PhysAddr) (flags : PageFlags) :
    Kernel ε → Run (Except MapError Unit × Kernel ε) :=
  masked fun k => do
    let (result, paging, frames) ← k.paging.map k.frames directory address target flags
    pure (result, { k with paging, frames })

/-- Unmaps a page and returns the frame that it went to.  The frame is not freed, because another page
may go to it as well. -/
def unmap (directory : PageDirectory) (address : VirtAddr) :
    Kernel ε → Run (Option PhysAddr × Kernel ε) :=
  masked fun k =>
    let (frame?, paging, cpu) := k.paging.unmap k.cpu directory address
    pure (frame?, { k with paging, cpu })

/-- The physical address that an address translates to in a directory, if its page is mapped there. -/
def translate (k : Kernel ε) (directory : PageDirectory) (address : VirtAddr) : Option PhysAddr :=
  k.paging.translate directory address

/-- Whether the page of an address is mapped in a directory. -/
def isMapped (k : Kernel ε) (directory : PageDirectory) (address : VirtAddr) : Bool :=
  k.paging.isMapped directory address

/-- The directory that was switched to last.  It is the kernel's own after the boot. -/
def currentDirectory? (k : Kernel ε) : Option PageDirectory := k.paging.current?

/-! ## The heap -/

/-- The page source of the kernel heap: the parts of a kernel that backing a page reads and changes,
put together. -/
def heapPages (k : Kernel ε) : KernelPages where
  cpu := k.cpu
  paging := k.paging
  frames := k.frames
  directory := k.directory

/-- **Runs a heap operation** on the kernel's heap, with the kernel's pages as its source.  What the
operation leaves of both is put back, and everything else of the kernel stays. -/
def withHeap (op : Heap → KernelPages → Run (α × Heap × KernelPages)) (k : Kernel ε) :
    Run (α × Kernel ε) := do
  let (a, heap, pages) ← op k.heap k.heapPages
  pure (a, { k with heap, cpu := pages.cpu, paging := pages.paging, frames := pages.frames })

/-- Allocates at least `size` bytes of the kernel heap, which grows by pages of the kernel's own
directory if it has to. -/
def alloc (size : Nat) : Kernel ε → Run (Option Pointer × Kernel ε) :=
  masked <| withHeap fun heap pages => heap.alloc pages size

/-- Allocates `count * size` bytes and fills them with zeros.  A product that overflows is refused and
not cut off. -/
def calloc (count size : Nat) : Kernel ε → Run (Option Pointer × Kernel ε) :=
  masked <| withHeap fun heap pages => heap.calloc pages count size

/-- Resizes an allocation of the kernel heap.  The answer is a pointer to the resized block, or none if
the old one is left as it is or was freed. -/
def realloc (p? : Option Pointer) (size : Nat) : Kernel ε → Run (Option Pointer × Kernel ε) :=
  masked <| withHeap fun heap pages => heap.realloc pages p? size

/-- Frees a block of the kernel heap, with interrupts as they are.  Calls of the kernel that free
something on the way use this, and clients use `free`. -/
def freeBlock (p : Pointer) (k : Kernel ε) : Run (Bool × Kernel ε) := do
  let (freed, heap) ← k.heap.free p
  pure (freed, { k with heap })

/-- Frees an allocation.  The answer is `false` for a pointer that is not a live allocation, and then
nothing has changed. -/
def free (p : Pointer) : Kernel ε → Run (Bool × Kernel ε) := masked (freeBlock p)

/-- How much of the heap is in use.  Interrupts are not masked for this, since nothing changes. -/
def heapStats (k : Kernel ε) : Checked HeapStats := k.heap.stats

end TinyKernel.Kernel
