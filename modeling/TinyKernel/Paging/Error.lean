import TinyKernel.Address

/-!
# Why a page cannot be mapped
-/

namespace TinyKernel

/-- **Why a page cannot be mapped.**  Either way nothing has been mapped, and a frame that was taken on
the way has gone back. -/
inductive MapError where
  /-- No frame is left for a page directory or a page table. -/
  | outOfFrames
  /-- The frame of the table lies outside the memory that can be reached. -/
  | unreachable (table : PhysAddr)
  deriving DecidableEq

/-- The wording of a refusal.  An unreachable table is quoted by its address. -/
def MapError.message : MapError → String
  | outOfFrames => "Out of frames for page tables"
  | unreachable table => "Page table at " ++ table.text ++ " is not reachable"

end TinyKernel
