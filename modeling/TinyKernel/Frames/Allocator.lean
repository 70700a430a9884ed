import TinyKernel.Console
import TinyKernel.Frames.Bitmap

/-!
# The frame allocator

Hands out the frames of physical memory, one at a time.  Frames below the reserved boundary hold the
kernel image and are never handed out.

The state is a bitmap, the number of clear bits in it, and a *hint*: the scan for a free frame
starts at the hint and comes round to it from the front.  The hint moves up when the frame found
lies exactly at it, and down when a lower frame comes back.

* `FrameAllocator.init` — starts over with a given amount of memory
* `FrameAllocator.alloc`, `FrameAllocator.free` — hand out a frame, take it back
* `FrameAllocator.stats`, `FrameAllocator.isUsed` — what is in use
-/

namespace TinyKernel

/-- **The frame allocator**: a bitmap of the frames in use, with a count of the free ones and a hint
where to look for them.  Count and hint only save time.  What a frame's state is stands in the bitmap,
and `alloc` and `free` keep the other two in step with it. -/
structure FrameAllocator where
  /-- Frames that are tracked.  Their numbers are below this; any other frame counts as in use. -/
  total : Nat
  /-- Clear bits among the tracked frames.  `alloc` answers at once if there are none. -/
  freeCount : Nat
  /-- Frames below this are in use for good, and giving one of them back is refused. -/
  reserved : Nat
  /-- The lowest frame that might be free.  It is never trusted without a look at its bit. -/
  hint : Nat
  bitmap : FrameBitmap

/-- How many frames are tracked, free and in use.  The last number is the difference of the others, and
is not kept anywhere. -/
structure FrameStats where
  total : Nat
  free : Nat
  used : Nat
  deriving DecidableEq

namespace FrameAllocator

/-- An allocator that tracks no memory, as it is before the first `init`: every `alloc` fails, and
every `free` is ignored. -/
def empty : FrameAllocator where
  total := 0
  freeCount := 0
  reserved := 0
  hint := 0
  bitmap := .full

/-- Marks a frame as used.  A frame that is used already keeps the count as it is, so that marking
twice does no harm; a frame that is not tracked is a fault. -/
def setBit (a : FrameAllocator) (frame : Nat) : Checked FrameAllocator := do
  if frame < a.total then
    let i := frame / bitmapWordBits
    let w ← a.bitmap.word i
    if w &&& FrameBitmap.mask frame = 0 then
      let freeCount ← Checked.sub64 a.freeCount 1
      pure { a with bitmap := a.bitmap.setWord i (w ||| FrameBitmap.mask frame), freeCount }
    else
      pure a
  else
    throw (.untrackedFrame frame)

/-- Marks a frame as free, and counts it if it was not free before.  This is the mirror image of
`setBit`. -/
def clearBit (a : FrameAllocator) (frame : Nat) : Checked FrameAllocator := do
  if frame < a.total then
    let i := frame / bitmapWordBits
    let w ← a.bitmap.word i
    if w &&& FrameBitmap.mask frame = 0 then
      pure a
    else
      let freeCount ← Checked.add64 a.freeCount 1
      pure { a with bitmap := a.bitmap.setWord i (w &&& ~~~FrameBitmap.mask frame), freeCount }
  else
    throw (.untrackedFrame frame)

/-- Marks the first `n` frames as free, one by one.  `init` does it for all of memory before it takes
the reserved frames back. -/
def clearBelow (a : FrameAllocator) (n : Nat) : Checked FrameAllocator :=
  (List.range n).foldlM clearBit a

/-- Marks the first `n` frames as used, one by one. -/
def setBelow (a : FrameAllocator) (n : Nat) : Checked FrameAllocator :=
  (List.range n).foldlM setBit a

/-- **Starts over** with the memory `[0, memoryTop)`, of which `[0, reservedTop)` is in use for good.
A last frame that is not whole is left out at the top, and counts as reserved at the bottom.  Memory
beyond what the bitmap can track is left alone, with a warning. -/
def init (memoryTop reservedTop : UInt32) : Run FrameAllocator := do
  let frames := memoryTop.toNat / pageSize
  if frames > maxFrames then
    Run.log .warn ("physical memory top " ++ Text.hex memoryTop.toNat ++ " exceeds the "
      ++ toString maxFrames ++ " frames the bitmap can track")
  let total := min frames maxFrames
  let reserved := min ((reservedTop.toNat + (pageSize - 1)) / pageSize) total
  let cleared ← { empty with total : FrameAllocator }.clearBelow total
  let marked ← cleared.setBelow reserved
  Run.log .info ("frame allocator: " ++ toString total ++ " frames, " ++ toString reserved
    ++ " reserved below " ++ Text.hex reservedTop.toNat)
  pure { marked with reserved, hint := reserved }

/-- The first clear bit from the hint on, or else the first one below it.  Since the hint is a lower
bound for the free frames as long as `alloc` and `free` are all that is called, the second scan is
there for safety. -/
def findFree (a : FrameAllocator) : Checked (Option Nat) := do
  match ← a.bitmap.findClear a.hint a.total with
  | some found => pure (some found)
  | none => a.bitmap.findClear 0 a.hint

/-- **Hands out a frame**, by its first address.  The hint moves on only if the frame was found right
at it: the frames in between, if there are any, have been looked at, but nothing is lost if the next
scan looks again. -/
def alloc (a : FrameAllocator) : Checked (Option PhysAddr × FrameAllocator) := do
  if a.freeCount = 0 then
    pure (none, a)
  else
    match ← a.findFree with
    | none => pure (none, a)
    | some found =>
      let hint := a.hint
      let marked ← a.setBit found
      let frame ← Frame.ofNumber (UInt32.ofNat found)
      let next ← if found = hint then Checked.add64 hint 1 else pure hint
      pure (some frame.start, { marked with hint := next })

/-- **Takes back a frame**, by any address in it.  A frame that is reserved, not tracked or free
already is left as it is, with a message; so a caller can give back an address twice without taking a
frame from somebody else. -/
def free (a : FrameAllocator) (addr : PhysAddr) : Run FrameAllocator := do
  let frame := addr.frame.index.toNat
  if frame < a.reserved then
    Run.log .warn ("ignoring free of reserved frame " ++ addr.text)
    pure a
  else if frame < a.total then
    if ← a.bitmap.isSet frame then
      let cleared ← a.clearBit frame
      pure { cleared with hint := min frame cleared.hint }
    else
      Run.log .trace ("ignoring free of unallocated frame " ++ addr.text)
      pure a
  else
    Run.log .trace ("ignoring free of unallocated frame " ++ addr.text)
    pure a

/-- How many frames are tracked, free and in use.  The subtraction is checked, and fails if the count
of free frames is out of step with the bitmap. -/
def stats (a : FrameAllocator) : Checked FrameStats := do
  let used ← Checked.sub64 a.total a.freeCount
  pure { total := a.total, free := a.freeCount, used }

/-- Whether a frame is in use.  Frames that are not tracked count as used, since nothing may be put
into them. -/
def isUsed (a : FrameAllocator) (frame : Nat) : Checked Bool :=
  if frame < a.total then a.bitmap.isSet frame else pure true

end FrameAllocator

end TinyKernel
