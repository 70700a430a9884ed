import TinyKernel.Fault

/-!
# The frame bitmap

One bit for each frame that can be tracked, in words of 32 bits.  A set bit is a frame in use.

`findClear` looks for the first clear bit of a range and passes over a whole word at once where all
32 bits of it are set.
-/

namespace TinyKernel

/-- Bits of a word of the bitmap.  A scan skips this many frames at a time where it can. -/
def bitmapWordBits : Nat := 32

/-- Words of the bitmap.  Their number is fixed, whatever the size of memory is, since there is no heap
yet when the bitmap is set up. -/
def bitmapWords : Nat := 1024

/-- The most frames that can be tracked: 32768, that is 128 MiB of memory.  Frames past these exist,
but are never handed out. -/
def maxFrames : Nat := bitmapWords * bitmapWordBits

/-- A word all of whose frames are in use, and which a scan can skip. -/
def fullWord : UInt32 := 0xffffffff

/-- **One bit for each frame**, 32 to the word, lowest frame in the lowest bit.  A set bit stands for a
frame in use, so that a bitmap that says nothing yet lends nothing. -/
structure FrameBitmap where
  words : Vector UInt32 bitmapWords

namespace FrameBitmap

/-- The bitmap with every bit set: no frame can be handed out. -/
def full : FrameBitmap := ⟨Vector.replicate bitmapWords fullWord⟩

/-- The bit of frame `i` in its word, alone set.  It depends on the number modulo 32 only; which word
is meant is up to the caller. -/
def mask (i : Nat) : UInt32 := 1 <<< UInt32.ofNat (i % bitmapWordBits)

/-- Word number `i`.  Reading past the end is a fault, which the allocator never raises since it asks
for tracked frames only. -/
def word (b : FrameBitmap) (i : Nat) : Checked UInt32 :=
  if h : i < bitmapWords then .ok b.words[i] else .error (.outsideBitmap i)

/-- The bitmap with word number `i` replaced.  Every caller has read that word before, so that the
bound has been checked. -/
def setWord (b : FrameBitmap) (i : Nat) (w : UInt32) : FrameBitmap :=
  ⟨b.words.setIfInBounds i w⟩

/-- Whether the bit of frame `i` is set, that is, whether the frame is in use. -/
def isSet (b : FrameBitmap) (i : Nat) : Checked Bool := do
  let w ← b.word (i / bitmapWordBits)
  pure (w &&& mask i != 0)

/-- **The first clear bit** in `[i, stop)`.  Where a full word begins, the scan goes on behind it, and
anywhere else it goes bit by bit; a full word that the scan enters in the middle is therefore not
skipped.  The skip may lead past `stop`, and then there is nothing to find. -/
def findClear (b : FrameBitmap) (i stop : Nat) : Checked (Option Nat) :=
  if i < stop then do
    let w ← b.word (i / bitmapWordBits)
    if i % bitmapWordBits = 0 ∧ w = fullWord then
      b.findClear (i + bitmapWordBits) stop
    else if w &&& mask i = 0 then
      pure (some i)
    else
      b.findClear (i + 1) stop
  else
    pure none
  termination_by stop - i
  decreasing_by
    · simp only [bitmapWordBits]; omega
    · omega

end FrameBitmap

end TinyKernel
