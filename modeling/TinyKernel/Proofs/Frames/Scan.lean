import Mathlib.Order.Bounds.Basic
import TinyKernel.Proofs.Frames.Bitmap

/-!
# The scan that passes over full words

Where a word begins, `FrameBitmap.findClear` reads all of it at once, and goes on behind it if it is
full.  What it answers is what a scan answers that reads every bit: the least clear one of a range.

## What is load-bearing

The two scans are equal over *every* range, also over one that leaves the bitmap: then both answer
what they find before its end, or both run into the same fault.  The bound on the range is only
needed for the second part, that there is an answer.  It is a bound on the end alone; a start behind
the end makes the range empty, and the jump over a full word may well go past the end.

* `FrameBitmap.scanBits` — the scan that reads every bit
* `FrameBitmap.findClear_eq_scanBits` — the two scans are equal
* `FrameBitmap.findClear_ok` — what they find, bit by bit
* `FrameBitmap.findClear_isLeast` — and find the least clear bit, if there is one
-/

namespace TinyKernel.FrameBitmap

/-- **The plain scan** of `[start, stop)`: one bit is read after the other, until one is clear.  It is
the specification of `findClear`, which skips words. -/
def scanBits (b : FrameBitmap) (start stop : Nat) : Checked (Option Nat) :=
  (List.range' start (stop - start)).findM? fun i => return !(← b.isSet i)

variable {b : FrameBitmap} {i j start stop : Nat} {found? : Option Nat}

/-! ## Reading every bit -/

theorem scanBits_of_le (h : stop ≤ start) : b.scanBits start stop = .ok none := by
  rw [scanBits, Nat.sub_eq_zero_of_le h]
  rfl

theorem scanBits_of_lt (h : start < stop) :
    b.scanBits start stop = (b.isSet start >>= fun set =>
      if set then b.scanBits (start + 1) stop else pure (some start)) := by
  have hlength : stop - start = stop - (start + 1) + 1 := by omega
  rw [scanBits, hlength, List.range'_succ, List.findM?]
  cases b.isSet start with
  | error e => rfl
  | ok set => cases set <;> rfl

/-- Bits that are set may be passed over.  It takes that they can be read, as the plain scan would read
them. -/
theorem scanBits_of_set (hij : i ≤ j) (set : ∀ k, i ≤ k → k < j → b.isSet k = .ok true) :
    b.scanBits i stop = b.scanBits j stop := by
  induction j, hij using Nat.le_induction with
  | base => rfl
  | succ j hij ih =>
      rw [ih fun k hik hkj => set k hik (Nat.lt_succ_of_lt hkj)]
      rcases Nat.lt_or_ge j stop with hj | hj
      · rw [scanBits_of_lt hj, set j hij (Nat.lt_succ_self j)]
        rfl
      · rw [scanBits_of_le hj, scanBits_of_le (Nat.le_succ_of_le hj)]

/-- A word that begins inside the bitmap also ends inside it, so all bits of a full word can be read
and passed over. -/
theorem scanBits_of_fullWord (hi : i < maxFrames) (haligned : i % bitmapWordBits = 0)
    (hw : b.wordAt i = fullWord) : b.scanBits i stop = b.scanBits (i + bitmapWordBits) stop := by
  refine scanBits_of_set (Nat.le_add_right ..) fun k hik hk => ?_
  have hkmax : k < maxFrames := by
    simp only [maxFrames, bitmapWords, bitmapWordBits] at *
    omega
  rw [isSet_ok hkmax, bit_of_fullWord hw haligned hik hk]

/-! ## The two scans -/

theorem word_outside (hi : maxFrames ≤ i) :
    b.word (i / bitmapWordBits) = .error (.outsideBitmap (i / bitmapWordBits)) := by
  refine dif_neg (Nat.not_lt.mpr ?_)
  exact (Nat.le_div_iff_mul_le (by decide)).mpr hi

/-- **Passing over full words makes no difference**, whatever the range.  Even a range that leaves the
bitmap is no exception: both scans fault there, at the same word. -/
theorem findClear_eq_scanBits (b : FrameBitmap) (start stop : Nat) :
    b.findClear start stop = b.scanBits start stop := by
  fun_induction b.findClear start stop with
  | case1 i hlt ihword ihbit =>
      rcases Nat.lt_or_ge i maxFrames with hi | hi
      · rw [Checked.bind_of_ok (word_ok hi)]
        split
        case isTrue hfull => rw [ihword, scanBits_of_fullWord hi hfull.1 hfull.2]
        case isFalse =>
          rw [scanBits_of_lt hlt, isSet_ok hi]
          split
          case isTrue hclear =>
            have hbit : b.bit i = false := (and_mask_eq_zero ..).mp hclear
            rw [hbit]
            rfl
          case isFalse hset =>
            have hbit : b.bit i = true :=
              Bool.eq_true_of_not_eq_false fun h => hset ((and_mask_eq_zero ..).mpr h)
            rw [ihbit, hbit]
            rfl
      · -- behind the end of the bitmap, both read the same word and run into the same fault
        rw [scanBits_of_lt hlt, isSet, word_outside hi]
        rfl
  | case2 i hge => exact (scanBits_of_le (Nat.not_lt.mp hge)).symm

/-! ## The first clear bit -/

/-- **What a scan finds**: the first clear bit in `[i, stop)`.  That nothing is found says something
too, namely that all bits are set. -/
def IsFirstClear (b : FrameBitmap) (i stop : Nat) : Option Nat → Prop
  | some k => i ≤ k ∧ k < stop ∧ b.bit k = false ∧ ∀ j, i ≤ j → j < k → b.bit j = true
  | none => ∀ j, i ≤ j → j < stop → b.bit j = true

/-- Passing over bits that are set changes nothing, neither what is found nor that nothing is. -/
theorem IsFirstClear.of_later {i' : Nat} {found : Option Nat} (h : b.IsFirstClear i' stop found)
    (hle : i ≤ i') (set : ∀ j, i ≤ j → j < i' → b.bit j = true) : b.IsFirstClear i stop found := by
  cases found with
  | none =>
      intro j hij hj
      by_cases hlt : j < i'
      · exact set j hij hlt
      · exact h j (Nat.not_lt.mp hlt) hj
  | some k =>
      obtain ⟨hik, hk, hclear, hset⟩ := h
      refine ⟨by omega, hk, hclear, fun j hij hj => ?_⟩
      by_cases hlt : j < i'
      · exact set j hij hlt
      · exact hset j (Nat.not_lt.mp hlt) hj

/-- One bit after the other, the scan finds the first that is clear.  It has to end in the bitmap, for
it reads each bit up to there if none is clear. -/
theorem scanBits_ok (b : FrameBitmap) (start : Nat) {stop : Nat} (hstop : stop ≤ maxFrames) :
    ∃ found, b.scanBits start stop = .ok found ∧ b.IsFirstClear start stop found := by
  induction hleft : stop - start generalizing start with
  | zero =>
      have hle : stop ≤ start := Nat.le_of_sub_eq_zero hleft
      refine ⟨none, scanBits_of_le hle, fun j hj hlt => ?_⟩
      exact absurd (Nat.lt_of_lt_of_le hlt hle) (Nat.not_lt.mpr hj)
  | succ left ih =>
      have hlt : start < stop := by omega
      rw [scanBits_of_lt hlt, isSet_ok (Nat.lt_of_lt_of_le hlt hstop)]
      cases hbit : b.bit start with
      | false =>
          refine ⟨some start, rfl, Nat.le_refl start, hlt, hbit, fun j hij hj => ?_⟩
          exact absurd hij (Nat.not_le.mpr hj)
      | true =>
          obtain ⟨found, hfind, hfirst⟩ := ih (start + 1) (by omega)
          refine ⟨found, hfind, hfirst.of_later (Nat.le_succ start) fun j hij hj => ?_⟩
          obtain rfl : start = j := by omega
          exact hbit

/-- **The scan finds the first clear bit**, and never leaves the bitmap.  A word that is skipped may
reach past the end of the range, but its bits are then not asked about. -/
theorem findClear_ok (b : FrameBitmap) (i : Nat) {stop : Nat} (hstop : stop ≤ maxFrames) :
    ∃ found, b.findClear i stop = .ok found ∧ b.IsFirstClear i stop found := by
  rw [findClear_eq_scanBits]
  exact b.scanBits_ok i hstop

/-! ## The least clear bit -/

/-- The frames of `[start, stop)` whose bits are clear.  The order on them is that of numbers, so the
least one is the lowest in memory. -/
def clearFrames (b : FrameBitmap) (start stop : Nat) : Set Nat :=
  {i | start ≤ i ∧ i < stop ∧ b.bit i = false}

theorem IsFirstClear.isLeast {k : Nat} (h : b.IsFirstClear start stop (some k)) :
    IsLeast (b.clearFrames start stop) k := by
  obtain ⟨hstart, hstop, hclear, hset⟩ := h
  refine ⟨⟨hstart, hstop, hclear⟩, ?_⟩
  rintro j ⟨hj, -, hjclear⟩
  by_contra hlt
  rw [hset j hj (Nat.not_le.mp hlt)] at hjclear
  cases hjclear

theorem IsFirstClear.clearFrames_eq_empty (h : b.IsFirstClear start stop none) :
    b.clearFrames start stop = ∅ := by
  refine Set.eq_empty_of_forall_notMem ?_
  rintro j ⟨hj, hjstop, hjclear⟩
  rw [h j hj hjstop] at hjclear
  cases hjclear

/-- What a scan finds is the least clear bit, and it finds none only if there is none.  A least element
is unique, which gives the direction from right to left. -/
theorem IsFirstClear.eq_some_iff (h : b.IsFirstClear start stop found?) (k : Nat) :
    found? = some k ↔ IsLeast (b.clearFrames start stop) k := by
  constructor
  · rintro rfl
    exact h.isLeast
  · intro hleast
    cases found? with
    | none =>
        have hmem := hleast.1
        rw [h.clearFrames_eq_empty] at hmem
        cases hmem
    | some found => exact congrArg some (h.isLeast.unique hleast)

theorem IsFirstClear.eq_none_iff (h : b.IsFirstClear start stop found?) :
    found? = none ↔ b.clearFrames start stop = ∅ := by
  constructor
  · rintro rfl
    exact h.clearFrames_eq_empty
  · intro hempty
    cases found? with
    | none => rfl
    | some found =>
        have hmem := h.isLeast.1
        rw [hempty] at hmem
        cases hmem

/-- **The scan that passes over full words finds the least clear bit.**  It does what the plain scan
does, over every range; and over one that ends in the bitmap it has an answer, without a look past
its end: the least frame of the range whose bit is clear, and none if and only if there is none. -/
theorem findClear_isLeast (b : FrameBitmap) (start stop : Nat) :
    b.findClear start stop = b.scanBits start stop
      ∧ (stop ≤ maxFrames → ∃ found?, b.findClear start stop = .ok found?
        ∧ (∀ i, found? = some i ↔ IsLeast (b.clearFrames start stop) i)
        ∧ (found? = none ↔ b.clearFrames start stop = ∅)) := by
  refine ⟨b.findClear_eq_scanBits start stop, fun hstop => ?_⟩
  obtain ⟨found?, hfind, hfirst⟩ := b.findClear_ok start hstop
  exact ⟨found?, hfind, hfirst.eq_some_iff, hfirst.eq_none_iff⟩

/-- The bitmap in which the bit of one frame is clear.  A scan for it has exactly one frame to find, or
none. -/
def allBut (i : Nat) : FrameBitmap :=
  full.setWord (i / bitmapWordBits) (full.wordAt i &&& ~~~mask i)

theorem clearFrames_allBut (hi : i < maxFrames) (start stop : Nat) :
    (allBut i).clearFrames start stop = Set.Ico start stop ∩ {i} := by
  ext j
  have hbit : (allBut i).bit j = !decide (i = j) := by
    rw [allBut, bit_setWord_and hi, bit_full, Bool.true_and]
  show (start ≤ j ∧ j < stop ∧ (allBut i).bit j = false) ↔ (start ≤ j ∧ j < stop) ∧ j = i
  rw [hbit, Bool.not_eq_false', decide_eq_true_iff, and_assoc, eq_comm (a := j)]

-- The scan starts inside the first word and passes over the second, which is full.  The one clear
-- bit is in the third; where the range ends before it, the jump goes past the end.
theorem allBut_found :
    (100 ≤ maxFrames ∧ (allBut 70).findClear 5 100 = .ok (some 70))
      ∧ (40 ≤ maxFrames ∧ (allBut 70).findClear 5 40 = .ok none) := by
  have hlong : 100 ≤ maxFrames := by decide
  have hshort : 40 ≤ maxFrames := by decide
  have hframe : 70 < maxFrames := by decide
  refine ⟨⟨hlong, ?_⟩, hshort, ?_⟩
  · obtain ⟨found?, hfind, hsome, -⟩ := ((allBut 70).findClear_isLeast 5 100).2 hlong
    have hset : (allBut 70).clearFrames 5 100 = {70} := by
      rw [clearFrames_allBut hframe]
      exact Set.inter_eq_right.mpr (Set.singleton_subset_iff.mpr (by decide))
    rw [hfind, (hsome 70).mpr (hset ▸ isLeast_singleton)]
  · obtain ⟨found?, hfind, -, hnone⟩ := ((allBut 70).findClear_isLeast 5 40).2 hshort
    have hset : (allBut 70).clearFrames 5 40 = ∅ := by
      rw [clearFrames_allBut hframe]
      exact Set.inter_singleton_eq_empty.mpr (by decide)
    rw [hfind, hnone.mpr hset]

end TinyKernel.FrameBitmap
