import TinyKernel.Address

/-!
# Memory layout at boot

A `BootConfig` says where physical memory ends, which part of it is never handed out, and where the
kernel heap lies and how far it may grow.  `BootConfig.validate` finds the first rule that a layout
breaks.
-/

namespace TinyKernel

/-- The end of the region that is mapped to itself before paging is turned on: the first 4 MiB, which
are the region of exactly one page table.  The kernel heap has to start above it. -/
def identityMapSize : Nat := 0x400000

/-- **The memory layout that a kernel boots with.**  Any combination of numbers can be written down;
which of them a kernel can boot with is decided by `BootConfig.validate`, and by the number of frames
that are there (`BootConfig.Bootable`). -/
structure BootConfig where
  /-- End of usable physical memory.  A last frame that does not fit below it is not used. -/
  memoryTop : UInt32
  /-- Frames below this are never handed out; a frame that it cuts in two counts as reserved. -/
  reservedTop : UInt32
  heapStart : UInt32
  heapInitialSize : Nat
  heapMaxSize : Nat
  deriving DecidableEq

/-- **Why a layout is refused.**  The order of the constructors is the order in which the rules are
checked, and the first rule that is broken is the one that is reported. -/
inductive ConfigError where
  /-- Memory ends before the reserved region does. -/
  | memoryBelowReserved (memoryTop reservedTop : UInt32)
  /-- The heap would overlap the low memory that is mapped to itself. -/
  | heapOverlapsIdentityMap
  | heapNotPageAligned
  /-- The initial size is zero or larger than the maximum.  Both sizes are known to be multiples of the
  page size by then, since alignment is checked first. -/
  | badHeapSize
  deriving DecidableEq

/-- The wording of a refusal.  Only the first one quotes numbers from the layout, both in
hexadecimal. -/
def ConfigError.message : ConfigError → String
  | memoryBelowReserved memoryTop reservedTop =>
    "Memory top " ++ Text.hex memoryTop.toNat ++ " is below the reserved top "
      ++ Text.hex reservedTop.toNat
  | heapOverlapsIdentityMap => "Heap overlaps the identity-mapped region"
  | heapNotPageAligned => "Heap range is not page aligned"
  | badHeapSize => "Heap initial size must be in 1..=max size"

namespace BootConfig

/-- 32 MiB of memory, the first 2 MiB reserved, and a heap of 1 to 8 MiB just above the region that is
mapped to itself.  Booting it takes 259 frames: a directory, two tables, and 256 pages of heap. -/
def standard : BootConfig where
  memoryTop := 32 * 1024 * 1024
  reservedTop := 0x200000
  heapStart := 0x400000
  heapInitialSize := 1024 * 1024
  heapMaxSize := 8 * 1024 * 1024

/-- The layout for a machine that reports `kib` KiB of memory above the first MiB.  A machine with
more memory than 32 bits address counts as ending at the last address. -/
def ofUpperMemory (kib : UInt32) : BootConfig :=
  { standard with memoryTop := UInt32.ofNat (min (kib.toNat * 1024 + 1024 * 1024) 0xffffffff) }

/-- Checks a layout, and names the first rule that it breaks.  What is checked is the layout alone:
whether enough frames are left for the heap, and whether the heap ends before addresses do, turns out
only when the kernel boots. -/
def validate (c : BootConfig) : Except ConfigError Unit :=
  if c.memoryTop < c.reservedTop then
    .error (.memoryBelowReserved c.memoryTop c.reservedTop)
  else if c.heapStart.toNat < identityMapSize then
    .error .heapOverlapsIdentityMap
  else if c.heapStart.toNat % pageSize ≠ 0 ∨ c.heapInitialSize % pageSize ≠ 0
      ∨ c.heapMaxSize % pageSize ≠ 0 then
    .error .heapNotPageAligned
  else if c.heapInitialSize = 0 ∨ c.heapInitialSize > c.heapMaxSize then
    .error .badHeapSize
  else
    .ok ()

end BootConfig

end TinyKernel
