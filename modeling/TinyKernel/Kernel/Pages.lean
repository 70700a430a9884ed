import TinyKernel.Heap.PageSource
import TinyKernel.Paging.AddressSpace

/-!
# Pages of the kernel heap

The page source of the kernel's own heap: a page is backed by a fresh frame, which is mapped
writable into one directory.  If the frame cannot be mapped it goes back.
-/

namespace TinyKernel

/-- **The page source of the kernel heap**: the paging state, the frames, and the directory that the
heap is mapped into.  The processor comes along because unmapping a page flushes translations. -/
structure KernelPages where
  cpu : Cpu
  paging : Paging
  frames : FrameAllocator
  directory : PageDirectory

namespace KernelPages

/-- Backs a page with a fresh frame, and maps it writable.  If the page cannot be mapped, the frame
goes back, so that a refusal costs no frame. -/
def back (page : VirtAddr) (s : KernelPages) : Run (Except MapError Unit × KernelPages) := do
  match ← s.frames.alloc with
  | (none, frames) => pure (.error .outOfFrames, { s with frames })
  | (some frame, frames) =>
    match ← s.paging.map frames s.directory page frame .writable with
    | (.ok (), paging, frames) => pure (.ok (), { s with paging, frames })
    | (.error e, paging, frames) =>
      let frames ← frames.free frame
      pure (.error e, { s with paging, frames })

/-- Unmaps a page and gives its frame back.  A page that is not mapped is left alone.  A page table
that was created for it stays. -/
def release (page : VirtAddr) (s : KernelPages) : Run KernelPages := do
  match s.paging.unmap s.cpu s.directory page with
  | (none, paging, cpu) => pure { s with paging, cpu }
  | (some frame, paging, cpu) =>
    let frames ← s.frames.free frame
    pure { s with paging, cpu, frames }

instance : PageSource KernelPages := ⟨back, release⟩

end KernelPages

end TinyKernel
