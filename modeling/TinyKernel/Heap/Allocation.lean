import TinyKernel.Heap.FreeList
import TinyKernel.Heap.PageSource

/-!
# Allocation

Allocation takes the first free block that is large enough, splits off what is not needed if enough
remains, and lets the heap grow once if there is no such block.  The heap never shrinks.

* `Heap.init` — a heap of one free block
* `Heap.alloc`, `Heap.calloc`, `Heap.realloc`, `Heap.free` — the operations of clients
* `Heap.expand` — growth by whole pages
* `Heap.load`, `Heap.store` — what clients do with their payloads
-/

namespace TinyKernel.Heap

variable {σ : Type} [PageSource σ]

/-- Whether start, initial size and maximum size describe a range that a heap can have. -/
def validRange (start : VirtAddr) (initialSize maxSize : Nat) : Bool :=
  start.pageOffset = 0 ∧ initialSize % pageSize = 0 ∧ maxSize % pageSize = 0
    ∧ pageSize ≤ initialSize ∧ initialSize ≤ maxSize ∧ maxSize < noBlock.toNat
    ∧ (start.add? maxSize).isSome

/-- **Sets up a heap**: backs `initialSize` bytes at `start`, and makes them one free block. -/
def init (start : VirtAddr) (initialSize maxSize : Nat) (pages : σ) :
    Run (Except HeapError Heap × σ) := do
  if validRange start initialSize maxSize then
    match ← backRange start 0 initialSize pages with
    | (.error (page, cause), pages) => pure (.error (.backing page cause), pages)
    | (.ok (), pages) =>
      let h : Heap :=
        { arena := Arena.empty.grow initialSize, start, maxSize, freeHead := noBlock }
      let payload ← Checked.sub64 initialSize headerSize
      let h ← h.writeHeader 0 (.unlinked (UInt32.ofNat payload))
      Run.log .info ("heap: " ++ Text.hex initialSize ++ " bytes at " ++ start.text
        ++ ", growable to " ++ Text.hex maxSize)
      pure (.ok { h with freeHead := 0 }, pages)
  else
    pure (.error .invalidRange, pages)

/-- **Grows the heap** by enough whole pages for `size` bytes and a header, or by what room there
is. The new pages become a free block, which merges with the last block if that one is free. -/
def expand (h : Heap) (pages : σ) (size : Nat) : Run (Bool × Heap × σ) := do
  let room ← Checked.sub64 h.maxSize h.size
  if room < pageSize then
    Run.log .warn ("heap: at maximum size " ++ Text.hex h.maxSize)
    pure (false, h, pages)
  else
    let step := min (← Checked.alignUp (← Checked.add64 size headerSize) pageSize) room
    match ← backRange h.start h.size step pages with
    | (.error (page, cause), pages) =>
      Run.log .warn ("heap: could not grow at " ++ page.text ++ ": " ++ cause.message)
      pure (false, h, pages)
    | (.ok (), pages) =>
      let oldEnd := UInt32.ofNat h.size
      let _ ← Checked.add64 h.size step
      let payload ← Checked.sub64 step headerSize
      let h := { h with arena := h.arena.grow step }
      let h ← h.writeHeader oldEnd (.unlinked (UInt32.ofNat payload))
      let h ← h.insertFree oldEnd
      let h ← h.coalesce
      Run.log .debug ("heap: grew by " ++ Text.hex step ++ " to " ++ Text.hex h.size)
      pure (true, h, pages)

/-- **Takes a free block** for a payload of `size` bytes.  If enough of it remains behind, the rest
becomes a free block of its own. -/
def take (h : Heap) (offset : UInt32) (size : Nat) : Checked Heap := do
  let h ← h.unlink offset
  let block ← h.readHeader offset
  let needed ← Checked.add64 size headerSize
  let least ← Checked.add64 needed minSplitRemainder
  if least < block.size.toNat then
    let claimed := UInt32.ofNat needed
    let remainder ← Checked.add32 offset claimed
    let left ← Checked.sub32 block.size claimed
    let h ← h.writeHeader remainder (.unlinked left)
    let h ← h.insertFree remainder
    h.writeHeader offset
      { size := UInt32.ofNat size, isFree := 0, next := noBlock, prev := noBlock }
  else
    h.writeHeader offset { block with isFree := 0, next := noBlock, prev := noBlock }

/-- **Allocates** at least `size` bytes: the first block that fits, after growing the heap once if
none does. -/
def alloc (h : Heap) (pages : σ) (size : Nat) : Run (Option Pointer × Heap × σ) := do
  if size = 0 then
    pure (none, h, pages)
  else if (← Checked.sub64 h.maxSize headerSize) < size then
    pure (none, h, pages)
  else
    let size ← Checked.alignUp size heapAlign
    match ← h.findFit size with
    | some offset =>
      let h ← h.take offset size
      pure (some (payload offset), h, pages)
    | none =>
      match ← h.expand pages size with
      | (false, h, pages) =>
        Run.log .warn ("heap: allocation of " ++ toString size ++ " bytes failed")
        pure (none, h, pages)
      | (true, h, pages) =>
        match ← h.findFit size with
        | none => pure (none, h, pages)
        | some offset =>
          let h ← h.take offset size
          pure (some (payload offset), h, pages)

/-- **Frees a block.**  A pointer that is not the start of the payload of an allocated block is
ignored, and the answer is `false`. -/
def free (h : Heap) (p : Pointer) : Run (Bool × Heap) := do
  match ← h.blockOf p with
  | none =>
    Run.log .warn "heap: ignoring free of <ptr>, not a heap block"
    pure (false, h)
  | some offset =>
    let block ← h.readHeader offset
    if block.isFree = 0 then
      let h ← h.insertFree offset
      let h ← h.coalesce
      pure (true, h)
    else
      Run.log .trace "heap: ignoring double free of <ptr>"
      pure (false, h)

/-- **Allocates** `count * size` bytes and fills them with zeros.  A product beyond 64 bits cannot
be had. -/
def calloc (h : Heap) (pages : σ) (count size : Nat) : Run (Option Pointer × Heap × σ) := do
  if count * size < 0x1_0000_0000_0000_0000 then
    match ← h.alloc pages (count * size) with
    | (none, h, pages) => pure (none, h, pages)
    | (some p, h, pages) =>
      let arena := h.arena.fill p.offset.toNat 0 (count * size)
      pure (some p, { h with arena }, pages)
  else
    pure (none, h, pages)

/-- **Resizes an allocation**, which moves if it has to grow.  On failure the old block is left
alone.  Without a pointer this allocates; a size of zero frees the block. -/
def realloc (h : Heap) (pages : σ) (p? : Option Pointer) (size : Nat) :
    Run (Option Pointer × Heap × σ) := do
  match p? with
  | none => h.alloc pages size
  | some p =>
    if size = 0 then
      let (_, h) ← h.free p
      pure (none, h, pages)
    else
      match ← h.blockOf p with
      | none => pure (none, h, pages)
      | some offset =>
        let block ← h.readHeader offset
        if block.isFree ≠ 0 then
          pure (none, h, pages)
        else if size ≤ block.size.toNat then
          pure (some p, h, pages)
        else
          match ← h.alloc pages size with
          | (none, h, pages) => pure (none, h, pages)
          | (some q, h, pages) =>
            let arena := h.arena.copy p.offset.toNat q.offset.toNat block.size.toNat
            let (_, h) ← { h with arena }.free p
            pure (some q, h, pages)

/-! ## What clients do with their payloads -/

/-- The offset of the bytes `[p, p + n)`, if they lie in the payload of one allocated block. -/
def clientRange (h : Heap) (p : Pointer) (n : Nat) : Checked (Option Nat) := do
  let blocks ← h.walk
  let holds := fun (start, block) =>
    let first := start.toNat + headerSize
    block.isFree = 0 ∧ (first : Int) ≤ p.offset ∧ p.offset + n ≤ first + block.size.toNat
  pure (if blocks.any fun b => decide (holds b) then some p.offset.toNat else none)

/-- The `n` bytes from a pointer on, if they lie in the payload of one allocated block.  A client that
stays within its own payload always gets them. -/
def load (h : Heap) (p : Pointer) (n : Nat) : Checked (Option (List UInt8)) := do
  pure ((← h.clientRange p n).map fun first =>
    (List.range n).map fun i => h.arena.byte (first + i))

/-- **A client's write**: sets the `n` bytes from a pointer on, if they lie in the payload of one
allocated block. -/
def store (h : Heap) (p : Pointer) (b : UInt8) (n : Nat) : Checked (Option Heap) := do
  pure ((← h.clientRange p n).map fun first => { h with arena := h.arena.fill first b n })

end TinyKernel.Heap
