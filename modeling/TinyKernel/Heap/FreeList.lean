import TinyKernel.Heap.Basic

/-!
# The free list

The free blocks of a heap, linked both ways in address order.  Because the list is sorted, merging
each block with its successor while the two touch finds every pair of free neighbours.

## What is load-bearing

A walk along the links carries fuel for as many steps as the heap has bytes.  A chain that ends
visits each offset at most once, so running out of fuel means that the chain does not end, and that
is a fault of its own.

* `Heap.findFit` — the first free block that is large enough
* `Heap.insertFree`, `Heap.unlink` — put a block into the list, take one out
* `Heap.coalesce` — merges free neighbours
-/

namespace TinyKernel.Heap

/-- Steps after which a chain of links counts as endless.  Blocks lie at different offsets, so a list
without a cycle is never that long, and in a sound heap this fault cannot be met. -/
def chainFuel (h : Heap) : Nat := h.size + 1

/-- The first block from a link on whose payload has at least `size` bytes.  Only headers of free
blocks are looked at, in the order of the list. -/
def findFitFrom (h : Heap) (size : Nat) : Nat → UInt32 → Checked (Option UInt32)
  | fuel, link =>
    if link = noBlock then
      pure none
    else
      match fuel with
      | 0 => throw .endlessChain
      | fuel + 1 => do
        let block ← h.readHeader link
        if size ≤ block.size.toNat then pure (some link) else h.findFitFrom size fuel block.next

/-- **First fit**: the first free block whose payload has at least `size` bytes.  Since the list is in
address order, that is the lowest one. -/
def findFit (h : Heap) (size : Nat) : Checked (Option UInt32) :=
  h.findFitFrom size h.chainFuel h.freeHead

/-- The links between which the block at `offset` belongs, where `prev` comes before it and the rest
of the list begins at `next`. -/
def placeFrom (h : Heap) (offset : UInt32) : Nat → UInt32 → UInt32 → Checked (UInt32 × UInt32)
  | fuel, prev, next =>
    if next = noBlock ∨ offset ≤ next then
      pure (prev, next)
    else
      match fuel with
      | 0 => throw .endlessChain
      | fuel + 1 => do
        let block ← h.readHeader next
        h.placeFrom offset fuel next block.next

/-- Lets a link follow the block at `prev`, or lets the list begin with it if there is no such block.
The link in the other direction is not touched. -/
def setNext (h : Heap) (prev link : UInt32) : Checked Heap :=
  if prev = noBlock then pure { h with freeHead := link }
  else h.updateHeader prev fun block => { block with next := link }

/-- Lets the block at `next`, if there is one, come behind a link.  The last block of the list has
nothing behind it to change. -/
def setPrev (h : Heap) (next link : UInt32) : Checked Heap :=
  if next = noBlock then pure h else h.updateHeader next fun block => { block with prev := link }

/-- **Links a block into the free list**, at its place in address order.  The block is marked as free
first, and then the two neighbours are linked to it; a list that is kept in this order is what
`coalesce` needs in order to see neighbours next to each other. -/
def insertFree (h : Heap) (offset : UInt32) : Checked Heap := do
  let (prev, next) ← h.placeFrom offset h.chainFuel noBlock h.freeHead
  let h ← h.updateHeader offset fun block => { block with isFree := 1, prev, next }
  let h ← h.setNext prev offset
  h.setPrev next offset

/-- **Takes a block out of the free list**, and links its neighbours to each other.  Its own links stay
as they are, and so does its mark; `take` overwrites both. -/
def unlink (h : Heap) (offset : UInt32) : Checked Heap := do
  let block ← h.readHeader offset
  let h ← h.setNext block.prev block.next
  h.setPrev block.next block.prev

/-- Merges the free block at `current` with its successor if the two touch.  The answer says whether
they did; a grown block may touch its new successor. -/
def absorbNext (h : Heap) (current : UInt32) (block : BlockHeader) : Checked (Bool × Heap) := do
  let behind ← Checked.add32 (← Checked.add32 current (UInt32.ofNat headerSize)) block.size
  if block.next ≠ noBlock ∧ block.next = behind then
    let absorbed ← h.readHeader block.next
    let gained ← Checked.add32 (UInt32.ofNat headerSize) absorbed.size
    let size ← Checked.add32 block.size gained
    let h ← h.writeHeader current { block with size, next := absorbed.next }
    let h ← h.setPrev absorbed.next current
    pure (true, h)
  else
    pure (false, h)

/-- Merges free neighbours from a link on.  After a merge the same block is looked at again, since it
has a new neighbour then; otherwise the next one is. -/
def coalesceFrom : Nat → Heap → UInt32 → Checked Heap
  | fuel, h, current =>
    if current = noBlock then
      pure h
    else
      match fuel with
      | 0 => throw .endlessChain
      | fuel + 1 => do
        let block ← h.readHeader current
        let (merged, h) ← h.absorbNext current block
        coalesceFrom fuel h (if merged then current else block.next)

/-- **Merges free neighbours**, along the whole free list.  One pass is enough, however long the runs
of neighbours are. -/
def coalesce (h : Heap) : Checked Heap := coalesceFrom h.chainFuel h h.freeHead

end TinyKernel.Heap
