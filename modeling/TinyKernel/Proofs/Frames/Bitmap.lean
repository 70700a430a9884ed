import Mathlib.Data.Nat.Bitwise
import TinyKernel.Frames.Bitmap

/-!
# Bits of the frame bitmap

The bitmap is read and written a word at a time.  What it stands for is one bit for each frame, and
every operation is described by the bits.

* `FrameBitmap.bit` — the bit of a frame
* `FrameBitmap.bit_setWord_or`, `FrameBitmap.bit_setWord_and` — setting and clearing one bit
* `FrameBitmap.isSet_ok` — reading one bit
-/

namespace TinyKernel.FrameBitmap

/-- The word that holds the bit of a frame.  Beyond the end all bits count as set, so that it is
defined for every frame and agrees with what the allocator says of untracked ones. -/
def wordAt (b : FrameBitmap) (i : Nat) : UInt32 := b.words[i / bitmapWordBits]?.getD fullWord

/-- **The bit of a frame**, without a fault.  All that is proved about bitmaps is proved about this;
`isSet_ok` ties it to the bit that is read. -/
def bit (b : FrameBitmap) (i : Nat) : Bool := (b.wordAt i).toNat.testBit (i % bitmapWordBits)

variable {b : FrameBitmap} {i j : Nat}

theorem word_ok (hi : i < maxFrames) : b.word (i / bitmapWordBits) = .ok (b.wordAt i) := by
  have hword : i / bitmapWordBits < bitmapWords := Nat.div_lt_of_lt_mul (by
    rwa [Nat.mul_comm])
  rw [word, dif_pos hword, wordAt, Vector.getElem?_eq_getElem hword]
  rfl

/-! ## Masks -/

theorem toNat_mask (i : Nat) : (mask i).toNat = 2 ^ (i % bitmapWordBits) := by
  have hlt : i % 32 < 32 := Nat.mod_lt _ (by decide)
  have hpow : 2 ^ (i % 32) < 2 ^ 32 := Nat.pow_lt_pow_right (by decide) hlt
  simp only [mask, bitmapWordBits, UInt32.toNat_shiftLeft, UInt32.toNat_ofNat', UInt32.reduceToNat]
  rw [Nat.mod_eq_of_lt (show i % 32 < 2 ^ 32 by omega), Nat.mod_eq_of_lt hlt, Nat.shiftLeft_eq,
    Nat.one_mul, Nat.mod_eq_of_lt hpow]

/-- The bit of a frame is the one that its mask picks out of a word.  The test in `isSet` is written
with the mask. -/
theorem and_mask_eq_zero (w : UInt32) (i : Nat) :
    w &&& mask i = 0 ↔ w.toNat.testBit (i % bitmapWordBits) = false := by
  rw [← UInt32.toNat_inj, UInt32.toNat_and, toNat_mask, Nat.and_two_pow]
  cases w.toNat.testBit (i % bitmapWordBits) <;> simp

theorem testBit_or_mask (w : UInt32) (i j : Nat) :
    (w ||| mask i).toNat.testBit j = (w.toNat.testBit j || decide (i % bitmapWordBits = j)) := by
  rw [UInt32.toNat_or, toNat_mask, Nat.testBit_or, Nat.testBit_two_pow]

theorem testBit_and_not_mask (w : UInt32) (i : Nat) (hj : j < bitmapWordBits) :
    (w &&& ~~~mask i).toNat.testBit j
      = (w.toNat.testBit j && !decide (i % bitmapWordBits = j)) := by
  have hlt : 2 ^ (i % bitmapWordBits) < 2 ^ 32 :=
    Nat.pow_lt_pow_right (by decide) (Nat.mod_lt _ (by decide))
  have hnot : (~~~mask i).toNat = 2 ^ 32 - (2 ^ (i % bitmapWordBits) + 1) := by
    rw [UInt32.toNat_not, toNat_mask, Nat.sub_sub, Nat.add_comm]
    rfl
  rw [UInt32.toNat_and, hnot, Nat.testBit_and, Nat.testBit_two_pow_sub_succ hlt, Nat.testBit_two_pow,
    decide_eq_true (show j < 32 from hj), Bool.true_and]

/-! ## Setting and clearing -/

theorem wordAt_setWord (w : UInt32) (hi : i < maxFrames) (j : Nat) :
    (b.setWord (i / bitmapWordBits) w).wordAt j
      = if i / bitmapWordBits = j / bitmapWordBits then w else b.wordAt j := by
  have hword : i / bitmapWordBits < bitmapWords := Nat.div_lt_of_lt_mul (by
    rwa [Nat.mul_comm])
  simp only [wordAt, setWord, Vector.getElem?_setIfInBounds]
  by_cases heq : i / bitmapWordBits = j / bitmapWordBits
  · simp [heq, heq ▸ hword]
  · simp [heq]

/-- Of the frames of one word, a place in it picks out one.  A mask therefore reaches no other frame of
the word. -/
theorem place_eq_iff (hword : i / bitmapWordBits = j / bitmapWordBits) :
    i % bitmapWordBits = j % bitmapWordBits ↔ i = j := by
  simp only [bitmapWordBits] at *
  omega

theorem wordAt_congr (hword : i / bitmapWordBits = j / bitmapWordBits) :
    b.wordAt i = b.wordAt j := by
  rw [wordAt, wordAt, hword]

/-- **Setting the bit of one frame** leaves the bits of all others alone, those in the same word
included. -/
theorem bit_setWord_or (hi : i < maxFrames) (j : Nat) :
    (b.setWord (i / bitmapWordBits) (b.wordAt i ||| mask i)).bit j = (b.bit j || decide (i = j)) := by
  rw [bit, wordAt_setWord _ hi]
  by_cases hword : i / bitmapWordBits = j / bitmapWordBits
  · rw [if_pos hword, testBit_or_mask, wordAt_congr hword,
      decide_eq_decide.mpr (place_eq_iff hword)]
    rfl
  · have hne : i ≠ j := fun h => hword (h ▸ rfl)
    rw [if_neg hword, decide_eq_false hne, Bool.or_false]
    rfl

/-- **Clearing the bit of one frame** leaves the bits of all others alone, those in the same word
included. -/
theorem bit_setWord_and (hi : i < maxFrames) (j : Nat) :
    (b.setWord (i / bitmapWordBits) (b.wordAt i &&& ~~~mask i)).bit j
      = (b.bit j && !decide (i = j)) := by
  rw [bit, wordAt_setWord _ hi]
  by_cases hword : i / bitmapWordBits = j / bitmapWordBits
  · rw [if_pos hword, testBit_and_not_mask _ _ (Nat.mod_lt _ (by decide)), wordAt_congr hword,
      decide_eq_decide.mpr (place_eq_iff hword)]
    rfl
  · have hne : i ≠ j := fun h => hword (h ▸ rfl)
    rw [if_neg hword, decide_eq_false hne, Bool.not_false, Bool.and_true]
    rfl

theorem bit_full (i : Nat) : full.bit i = true := by
  have hword : full.wordAt i = fullWord := by
    simp only [wordAt, full]
    by_cases hi : i / bitmapWordBits < bitmapWords
    · simp [hi]
    · simp [hi]
  have hfull : fullWord.toNat = 2 ^ 32 - 1 := rfl
  rw [bit, hword, hfull, Nat.testBit_two_pow_sub_one]
  exact decide_eq_true (Nat.mod_lt _ (by decide))

/-- The bits of a full word are set.  The frames are those of the word that begins at `i`, which has to
be the first frame of its word. -/
theorem bit_of_fullWord (hw : b.wordAt i = fullWord) (hi : i % bitmapWordBits = 0) (hle : i ≤ j)
    (hlt : j < i + bitmapWordBits) : b.bit j = true := by
  have hword : b.wordAt j = fullWord := by
    rw [← hw, wordAt, wordAt]
    congr 2
    simp only [bitmapWordBits] at *
    omega
  have hfull : fullWord.toNat = 2 ^ 32 - 1 := rfl
  rw [bit, hword, hfull, Nat.testBit_two_pow_sub_one]
  exact decide_eq_true (Nat.mod_lt _ (by decide))

/-! ## Reading -/

theorem isSet_ok (hi : i < maxFrames) : b.isSet i = .ok (b.bit i) := by
  have hmask : (b.wordAt i &&& mask i != 0) = b.bit i := by
    by_cases hzero : b.wordAt i &&& mask i = 0
    · rw [bit, (and_mask_eq_zero ..).mp hzero, hzero]
      rfl
    · rw [bit, Bool.eq_true_of_not_eq_false fun h => hzero ((and_mask_eq_zero ..).mpr h)]
      exact bne_iff_ne.mpr hzero
  rw [isSet, Checked.bind_of_ok (word_ok hi), hmask]
  rfl

end TinyKernel.FrameBitmap
