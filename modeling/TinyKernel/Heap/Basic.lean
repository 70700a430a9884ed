import TinyKernel.Console
import TinyKernel.Heap.Arena

/-!
# The heap

A heap is a row of blocks.  Each block, free or allocated, begins with a header of 16 bytes, which
is followed by its payload; the next block begins where the payload ends.  Walking from offset 0
visits every block in address order.

The free blocks are also linked into a list, in address order, by the offsets of their headers.
Both structures lie in the same bytes as the payloads.

## What is load-bearing

A header is read and written as four words of the arena, so a stale header or a write into the wrong
payload is a fact about bytes.  Every access to a header is checked against the size of the heap,
and a walk along the links that does not end is a fault.

* `BlockHeader`, `Heap.readHeader`, `Heap.writeHeader` — one header
* `Heap.walk` — every block in address order
* `Heap.stats`, `Heap.blockOf`, `Heap.virtAddrOf` — what is read off the blocks
-/

namespace TinyKernel

/-- Bytes of a block header: four words, in front of each payload. -/
def headerSize : Nat := 16

/-- Every payload has a multiple of this many bytes, and starts at a multiple of it.  A request is
rounded up to it. -/
def heapAlign : Nat := 8

/-- The remainder of a split block keeps more payload than this.  A block that is larger than a request
by no more than a header and this much is handed out whole. -/
def minSplitRemainder : Nat := 16

/-- The link that leads nowhere.  It is no offset of a block, since a heap is smaller than this many
bytes. -/
def noBlock : UInt32 := 0xffffffff

/-- **The header of a block.**  The sizes tile the heap: the next header begins right behind the
payload, and there is no other way to find it.  `next` and `prev` link the free blocks, by the offsets
of their headers; an allocated block has links that mean nothing. -/
structure BlockHeader where
  /-- Bytes of payload, the header not counted. -/
  size : UInt32
  /-- Zero for an allocated block.  Any other word counts as free, though only one is ever written. -/
  isFree : UInt32
  next : UInt32
  prev : UInt32
  deriving DecidableEq

/-- A free block that is not linked to anything yet.  It has to go through `insertFree` before the list
knows of it. -/
def BlockHeader.unlinked (size : UInt32) : BlockHeader :=
  { size, isFree := 1, next := noBlock, prev := noBlock }

/-- **A pointer** into the heap or next to it, by its distance from the start of the heap.  The
distance may be negative or past the end: clients can hand in whatever they like, and only some
pointers are answers of an allocation. -/
structure Pointer where
  offset : Int
  deriving DecidableEq, Inhabited

/-- How much of a heap is in use.  Headers count as used, so that a heap is never wholly free; used and
free bytes together are the size of the heap.  The numbers are counted on a walk over the blocks, and
are not kept anywhere between two calls. -/
structure HeapStats where
  total : Nat
  used : Nat
  free : Nat
  blocks : Nat
  freeBlocks : Nat
  deriving DecidableEq

/-- One block more: it is counted, and if it is free, so is its payload.  The used bytes are left
alone, and are found from the others at the end. -/
def HeapStats.count (stats : HeapStats) (block : BlockHeader) : Checked HeapStats := do
  let blocks ← Checked.add64 stats.blocks 1
  if block.isFree ≠ 0 then
    let free ← Checked.add64 stats.free block.size.toNat
    let freeBlocks ← Checked.add64 stats.freeBlocks 1
    pure { stats with blocks, free, freeBlocks }
  else
    pure { stats with blocks }

/-- **The heap**: an arena, tiled by blocks from its first byte on, and a list of the free ones.  Only
the head of the list is kept here; the list itself is in the headers. -/
structure Heap where
  arena : Arena
  /-- The address of the first byte.  It matters to the pages that are backed, and to nothing inside
  the heap. -/
  start : VirtAddr
  /-- The heap never grows beyond this many bytes. -/
  maxSize : Nat
  /-- The first free block, or `noBlock` if every block is allocated. -/
  freeHead : UInt32

namespace Heap

/-- Bytes that the heap has grown to, all of them backed. -/
def size (h : Heap) : Nat := h.arena.size

/-- The four words at an offset, as a header.  Whether a block begins there is for the caller to
know. -/
def headerAt (h : Heap) (offset : UInt32) : BlockHeader :=
  let i := offset.toNat
  { size := h.arena.word i
    isFree := h.arena.word (i + 4)
    next := h.arena.word (i + 8)
    prev := h.arena.word (i + 12) }

/-- The header at an offset.  If its sixteen bytes do not lie in the heap, that is a fault; no block is
ever looked for that far out (`Heap.Sound`). -/
def readHeader (h : Heap) (offset : UInt32) : Checked BlockHeader :=
  if offset.toNat + headerSize ≤ h.size then .ok (h.headerAt offset)
  else .error (.outsideHeap offset.toNat)

/-- Replaces the four words at an offset by those of a header, wherever that is. -/
def putHeader (h : Heap) (offset : UInt32) (b : BlockHeader) : Heap :=
  let i := offset.toNat
  { h with
    arena := (((h.arena.setWord i b.size).setWord (i + 4) b.isFree).setWord (i + 8) b.next).setWord
      (i + 12) b.prev }

/-- Replaces the header at an offset.  If its sixteen bytes do not lie in the heap, that is a fault and
nothing is written. -/
def writeHeader (h : Heap) (offset : UInt32) (b : BlockHeader) : Checked Heap :=
  if offset.toNat + headerSize ≤ h.size then .ok (h.putHeader offset b)
  else .error (.outsideHeap offset.toNat)

/-- Changes the header at an offset by a function of what stands there. -/
def updateHeader (h : Heap) (offset : UInt32) (f : BlockHeader → BlockHeader) : Checked Heap := do
  h.writeHeader offset (f (← h.readHeader offset))

/-- **Every block from an offset on**, in address order, by the offset of its header.  Each size leads
to the next header, and the walk ends where no header fits any more.  An offset past 64 bits would be a
fault, and it takes a heap of almost that size to get there. -/
def walkFrom (h : Heap) (offset : Nat) : Checked (List (UInt32 × BlockHeader)) :=
  if offset + headerSize ≤ h.size then do
    let start := UInt32.ofNat offset
    let block ← h.readHeader start
    let next := offset + (headerSize + block.size.toNat)
    if next + headerSize < 0x1_0000_0000_0000_0000 then
      let rest ← h.walkFrom next
      pure ((start, block) :: rest)
    else
      throw (.overflow .add)
  else
    pure []
  termination_by h.size - offset
  decreasing_by
    simp only [headerSize] at *
    omega

/-- **Every block**, in address order.  Nothing is remembered about where blocks begin, and so frees
and statistics walk the heap each time. -/
def walk (h : Heap) : Checked (List (UInt32 × BlockHeader)) := h.walkFrom 0

/-- How much of the heap is in use, counted by a walk.  The used bytes are all those that are not free
payload. -/
def stats (h : Heap) : Checked HeapStats := do
  let blocks ← h.walk
  let none : HeapStats := { total := h.size, used := 0, free := 0, blocks := 0, freeBlocks := 0 }
  let stats ← blocks.foldlM (fun stats (_, block) => stats.count block) none
  let used ← Checked.sub64 stats.total stats.free
  pure { stats with used }

/-- The pointer to the payload of the block at an offset: the first byte behind the header. -/
def payload (offset : UInt32) : Pointer := ⟨offset.toNat + headerSize⟩

/-- **The block whose payload a pointer points to**, by the offset of its header.  Any other pointer
belongs to no block: one into a header, into the middle of a payload, or out of the heap.  The walk is
what tells them apart, since the bytes before a pointer prove nothing. -/
def blockOf (h : Heap) (p : Pointer) : Checked (Option UInt32) := do
  if p.offset < headerSize ∨ h.size ≤ p.offset then
    pure none
  else
    let offset := UInt32.ofNat (p.offset.toNat - headerSize)
    let blocks ← h.walk
    pure (if blocks.any (fun (start, _) => start == offset) then some offset else none)

/-- The address that a pointer into the heap stands for.  A pointer past either end has none. -/
def virtAddrOf (h : Heap) (p : Pointer) : Option VirtAddr :=
  if p.offset < 0 ∨ h.size ≤ p.offset then none else h.start.add? p.offset.toNat

end Heap

end TinyKernel
