import Mathlib.Data.Finset.Card
import Mathlib.Order.Interval.Finset.Nat
import TinyKernel.Frames.Allocator
import TinyKernel.Proofs.Frames.Scan
import TinyKernel.Proofs.Outcome

/-!
# The frame allocator as a set

The state of the allocator stands for the finite set of its free frames.  Allocation takes the least
element out of the set, and freeing puts an element back; no other part of the state matters.

## What is load-bearing

The hint is at or below every free frame.  So a scan that starts at the hint already finds the least
free frame, and the second scan, from the front up to the hint, never finds anything.

* `FrameAllocator.Represents` — what the state stands for
* `FrameAllocator.init_meets`, `FrameAllocator.Represents.alloc_ok`,
  `FrameAllocator.Represents.free_meets` — the operations
* `FrameAllocator.Represents.stats_ok` — what is counted
-/

namespace TinyKernel.FrameAllocator

/-- **The clear bits are a set of tracked frames**, whose size is counted.  No bit behind the last
tracked frame is clear.  This is what marking single frames preserves; it says nothing about the hint
or about reserved frames, which `init` fills in only at the end. -/
structure Marks (a : FrameAllocator) (free : Finset Nat) : Prop where
  total_le : a.total ≤ maxFrames
  lt_total : ∀ i ∈ free, i < a.total
  bit_eq : ∀ i, a.bitmap.bit i = decide (i ∉ free)
  freeCount_eq : a.freeCount = free.card

/-- **The state stands for a set of free frames.**  None of them is reserved, and the hint is a lower
bound for them; that is what makes a scan from the hint on find the least one. -/
structure Represents (a : FrameAllocator) (free : Finset Nat) : Prop extends Marks a free where
  reserved_le : a.reserved ≤ a.total
  reserved_le_mem : ∀ i ∈ free, a.reserved ≤ i
  hint_le_total : a.hint ≤ a.total
  hint_le : ∀ i ∈ free, a.hint ≤ i

/-- Two states differ in the bits and their number only.  Marking does not move the bounds or the hint,
which `init` and `alloc` set themselves. -/
structure SameBounds (a a' : FrameAllocator) : Prop where
  total_eq : a'.total = a.total
  reserved_eq : a'.reserved = a.reserved
  hint_eq : a'.hint = a.hint

variable {a a' a'' : FrameAllocator} {free : Finset Nat} {i n : Nat}

theorem SameBounds.refl (a : FrameAllocator) : SameBounds a a := ⟨rfl, rfl, rfl⟩

theorem SameBounds.trans (h : SameBounds a a') (h' : SameBounds a' a'') : SameBounds a a'' where
  total_eq := h'.total_eq.trans h.total_eq
  reserved_eq := h'.reserved_eq.trans h.reserved_eq
  hint_eq := h'.hint_eq.trans h.hint_eq

namespace Marks

theorem card_le (m : Marks a free) : free.card ≤ a.total := by
  have hsub : free ⊆ Finset.range a.total := fun i hi => Finset.mem_range.mpr (m.lt_total i hi)
  exact (Finset.card_le_card hsub).trans_eq (Finset.card_range _)

/-- A frame becomes free.  It may have been free before, and then the count stays as it is, as the size
of the set does. -/
theorem clearBit_ok (m : Marks a free) (hi : i < a.total) :
    ∃ a', a.clearBit i = .ok a' ∧ Marks a' (insert i free) ∧ SameBounds a a' := by
  have hmax := Nat.lt_of_lt_of_le hi m.total_le
  have hcard := m.card_le
  have hbit := m.bit_eq i
  unfold clearBit
  rw [if_pos hi, Checked.bind_of_ok (FrameBitmap.word_ok hmax)]
  by_cases hfree : i ∈ free
  · rw [decide_eq_false (not_not_intro hfree)] at hbit
    rw [if_pos ((FrameBitmap.and_mask_eq_zero ..).mpr hbit)]
    refine ⟨a, rfl, ?_, SameBounds.refl a⟩
    rwa [Finset.insert_eq_of_mem hfree]
  · rw [decide_eq_true hfree] at hbit
    have hne : ¬ a.bitmap.wordAt i &&& FrameBitmap.mask i = 0 := fun h => by
      rw [FrameBitmap.bit, (FrameBitmap.and_mask_eq_zero ..).mp h] at hbit
      cases hbit
    have hcount : Checked.add64 a.freeCount 1 = .ok (a.freeCount + 1) := by
      have := m.total_le
      have := m.freeCount_eq
      simp only [maxFrames, bitmapWords, bitmapWordBits] at *
      exact Checked.add64_of_lt (by omega)
    rw [if_neg hne, Checked.bind_of_ok hcount]
    refine ⟨_, rfl, ⟨m.total_le, ?_, ?_, ?_⟩, ⟨rfl, rfl, rfl⟩⟩
    · intro j hj
      rcases Finset.mem_insert.mp hj with rfl | hj
      · exact hi
      · exact m.lt_total j hj
    · intro j
      rw [FrameBitmap.bit_setWord_and hmax, m.bit_eq j]
      by_cases hij : i = j
      · simp [hij]
      · simp [hij, Ne.symm hij]
    · rw [Finset.card_insert_of_notMem hfree]
      exact congrArg (· + 1) m.freeCount_eq

/-- A frame is taken.  The count cannot fall below zero, since it is the size of a set that the frame
was in. -/
theorem setBit_ok (m : Marks a free) (hi : i < a.total) :
    ∃ a', a.setBit i = .ok a' ∧ Marks a' (free.erase i) ∧ SameBounds a a' := by
  have hmax := Nat.lt_of_lt_of_le hi m.total_le
  have hbit := m.bit_eq i
  unfold setBit
  rw [if_pos hi, Checked.bind_of_ok (FrameBitmap.word_ok hmax)]
  by_cases hfree : i ∈ free
  · rw [decide_eq_false (not_not_intro hfree)] at hbit
    have hcount : Checked.sub64 a.freeCount 1 = .ok (a.freeCount - 1) := by
      have := Finset.card_pos.mpr ⟨i, hfree⟩
      have := m.freeCount_eq
      exact Checked.sub64_of_le (by omega)
    rw [if_pos ((FrameBitmap.and_mask_eq_zero ..).mpr hbit), Checked.bind_of_ok hcount]
    refine ⟨_, rfl, ⟨m.total_le, ?_, ?_, ?_⟩, ⟨rfl, rfl, rfl⟩⟩
    · exact fun j hj => m.lt_total j (Finset.mem_of_mem_erase hj)
    · intro j
      rw [FrameBitmap.bit_setWord_or hmax, m.bit_eq j]
      by_cases hij : i = j
      · simp [hij]
      · simp [hij, Ne.symm hij]
    · rw [Finset.card_erase_of_mem hfree]
      exact congrArg (· - 1) m.freeCount_eq
  · rw [decide_eq_true hfree] at hbit
    have hne : ¬ a.bitmap.wordAt i &&& FrameBitmap.mask i = 0 := fun h => by
      rw [FrameBitmap.bit, (FrameBitmap.and_mask_eq_zero ..).mp h] at hbit
      cases hbit
    rw [if_neg hne]
    refine ⟨a, rfl, ?_, SameBounds.refl a⟩
    rwa [Finset.erase_eq_of_notMem hfree]

theorem clearBelow_ok (m : Marks a free) (hn : n ≤ a.total) :
    ∃ a', a.clearBelow n = .ok a' ∧ Marks a' (free ∪ Finset.range n) ∧ SameBounds a a' := by
  induction n with
  | zero => exact ⟨a, rfl, by simpa using m, SameBounds.refl a⟩
  | succ n ih =>
      obtain ⟨a₁, hclear, m₁, hsame⟩ := ih (by omega)
      obtain ⟨a₂, hbit, m₂, hsame'⟩ := m₁.clearBit_ok (i := n) (by rw [hsame.total_eq]; omega)
      refine ⟨a₂, ?_, ?_, hsame.trans hsame'⟩
      · rw [clearBelow, List.range_succ, List.foldlM_append]
        show (a.clearBelow n >>= _) = _
        rw [Checked.bind_of_ok hclear, List.foldlM_cons, Checked.bind_of_ok hbit]
        rfl
      · rwa [Finset.range_add_one, Finset.union_insert]

theorem setBelow_ok (m : Marks a free) (hn : n ≤ a.total) :
    ∃ a', a.setBelow n = .ok a' ∧ Marks a' (free \ Finset.range n) ∧ SameBounds a a' := by
  induction n with
  | zero => exact ⟨a, rfl, by simpa using m, SameBounds.refl a⟩
  | succ n ih =>
      obtain ⟨a₁, hset, m₁, hsame⟩ := ih (by omega)
      obtain ⟨a₂, hbit, m₂, hsame'⟩ := m₁.setBit_ok (i := n) (by rw [hsame.total_eq]; omega)
      refine ⟨a₂, ?_, ?_, hsame.trans hsame'⟩
      · rw [setBelow, List.range_succ, List.foldlM_append]
        show (a.setBelow n >>= _) = _
        rw [Checked.bind_of_ok hset, List.foldlM_cons, Checked.bind_of_ok hbit]
        rfl
      · rwa [Finset.range_add_one, Finset.sdiff_insert]

end Marks

/-- An allocator without bits to clear stands for no frame, however many it is said to track.  `init`
starts from here. -/
theorem marks_empty {total : Nat} (htotal : total ≤ maxFrames) :
    Marks { empty with total } ∅ where
  total_le := htotal
  lt_total i hi := by cases hi
  bit_eq i := FrameBitmap.bit_full i
  freeCount_eq := rfl

variable {admits : Fault → Prop}

/-- **Starting over**: exactly the tracked frames that are not reserved are free.  Nothing is asked of
the two addresses; where all of memory is reserved, the set is empty. -/
theorem init_meets (memoryTop reservedTop : UInt32) :
    (init memoryTop reservedTop).Meets admits fun a =>
      a.total = min (memoryTop.toNat / pageSize) maxFrames
        ∧ a.reserved = min ((reservedTop.toNat + (pageSize - 1)) / pageSize) a.total
        ∧ Represents a (Finset.Ico a.reserved a.total) := by
  unfold init
  extract_lets frames total reserved source rest
  suffices hrest : (rest ()).Meets admits fun a => a.total = total
      ∧ a.reserved = min ((reservedTop.toNat + (pageSize - 1)) / pageSize) a.total
      ∧ Represents a (Finset.Ico a.reserved a.total) by
    split
    · exact Run.meets_log_bind hrest
    · exact hrest
  have hreserved : reserved ≤ total := Nat.min_le_right ..
  obtain ⟨a₁, hclear, m₁, hsame₁⟩ :=
    (marks_empty (Nat.min_le_right frames maxFrames)).clearBelow_ok (Nat.le_refl total)
  have htotal₁ : a₁.total = total := hsame₁.total_eq
  obtain ⟨a₂, hset, m₂, hsame₂⟩ := m₁.setBelow_ok (hreserved.trans_eq htotal₁.symm)
  have htotal₂ : a₂.total = total := hsame₂.total_eq.trans htotal₁
  have hfree : ∅ ∪ Finset.range total \ Finset.range reserved = Finset.Ico reserved total := by
    ext i
    simp only [Finset.empty_union, Finset.mem_sdiff, Finset.mem_range, Finset.mem_Ico]
    omega
  rw [Finset.union_sdiff_distrib, Finset.empty_sdiff, hfree] at m₂
  refine Run.meets_lift_bind hclear (Run.meets_lift_bind hset ?_)
  refine Run.meets_log_bind (Run.meets_pure ⟨htotal₂, ?_, ?_⟩)
  · show reserved = min ((reservedTop.toNat + (pageSize - 1)) / pageSize) a₂.total
    rw [htotal₂]
  · have hle : reserved ≤ a₂.total := hreserved.trans_eq htotal₂.symm
    have hlow : ∀ i ∈ Finset.Ico reserved a₂.total, reserved ≤ i :=
      fun i hi => (Finset.mem_Ico.mp hi).1
    rw [← htotal₂] at m₂
    exact ⟨⟨m₂.total_le, m₂.lt_total, m₂.bit_eq, m₂.freeCount_eq⟩, hle, hlow, hle, hlow⟩

namespace Represents

/-- **The scan finds the least free frame.**  As no free frame lies below the hint, the second half of
the scan is reached only when nothing is free, and then finds nothing either. -/
theorem findFree_ok (r : Represents a free) :
    ∃ found, a.findFree = .ok found ∧
      match found with
      | none => free = ∅
      | some k => k ∈ free ∧ ∀ i ∈ free, k ≤ i := by
  obtain ⟨found, hfind, hfirst⟩ := a.bitmap.findClear_ok a.hint r.total_le
  cases found with
  | some k =>
      obtain ⟨hle, hlt, hclear, hset⟩ := hfirst
      refine ⟨some k, ?_, ?_, fun i hi => ?_⟩
      · rw [findFree, Checked.bind_of_ok hfind]
        rfl
      · rw [r.bit_eq k] at hclear
        exact not_not.mp (of_decide_eq_false hclear)
      · by_contra hik
        have hbit := hset i (r.hint_le i hi) (Nat.not_le.mp hik)
        rw [r.bit_eq i] at hbit
        exact of_decide_eq_true hbit hi
  | none =>
      have hnone : free = ∅ := by
        refine Finset.eq_empty_of_forall_notMem fun i hi => ?_
        have hbit := hfirst i (r.hint_le i hi) (r.lt_total i hi)
        rw [r.bit_eq i] at hbit
        exact of_decide_eq_true hbit hi
      subst hnone
      -- below the hint nothing is free either
      obtain ⟨found, hfind', hfirst'⟩ :=
        a.bitmap.findClear_ok 0 (Nat.le_trans r.hint_le_total r.total_le)
      refine ⟨found, ?_, ?_⟩
      · rw [findFree, Checked.bind_of_ok hfind]
        exact hfind'
      · cases found with
        | none => rfl
        | some k =>
            obtain ⟨-, hlt, hclear, -⟩ := hfirst'
            rw [r.bit_eq k] at hclear
            simp at hclear

/-- After marking, the hint may be anything that no free frame is below.  Both `alloc` and `free` end
in a state of this form. -/
theorem marked (r : Represents a free) {a₁ : FrameAllocator} {free' : Finset Nat}
    (m : Marks a₁ free') (hsame : SameBounds a a₁) (hreserved : ∀ i ∈ free', a.reserved ≤ i)
    {next : Nat} (hle : next ≤ a.total) (hlow : ∀ i ∈ free', next ≤ i) :
    Represents { a₁ with hint := next } free' := by
  refine ⟨⟨m.total_le, m.lt_total, m.bit_eq, m.freeCount_eq⟩, ?_, ?_, ?_, hlow⟩
  · show a₁.reserved ≤ a₁.total
    rw [hsame.reserved_eq, hsame.total_eq]
    exact r.reserved_le
  · intro i hi
    show a₁.reserved ≤ i
    rw [hsame.reserved_eq]
    exact hreserved i hi
  · show next ≤ a₁.total
    rw [hsame.total_eq]
    exact hle

/-- The hint moves on when the frame at the hint is taken: everything below is in use then.  When
another frame is taken, the hint was too low before, and stays a lower bound. -/
theorem nextHint_ok (r : Represents a free) {k : Nat} (hk : k ∈ free) :
    ∃ next, (if k = a.hint then Checked.add64 a.hint 1 else pure a.hint : Checked Nat) = .ok next
      ∧ next = (if k = a.hint then a.hint + 1 else a.hint)
      ∧ next ≤ a.total ∧ ∀ i ∈ free.erase k, next ≤ i := by
  have htotal := r.total_le
  simp only [maxFrames, bitmapWords, bitmapWordBits] at htotal
  have hlt := r.lt_total k hk
  by_cases heq : k = a.hint
  · rw [if_pos heq, if_pos heq]
    refine ⟨a.hint + 1, Checked.add64_of_lt (by omega), rfl, by omega, fun i hi => ?_⟩
    obtain ⟨hne, hi⟩ := Finset.mem_erase.mp hi
    have := r.hint_le i hi
    omega
  · rw [if_neg heq, if_neg heq]
    exact ⟨a.hint, rfl, rfl, r.hint_le_total,
      fun i hi => r.hint_le i (Finset.mem_of_mem_erase hi)⟩

/-- **Allocation takes the least free frame**, if there is one, and never faults.  Where the hint goes
is part of the statement, because a state is determined by its set, its bounds and its hint
(`Represents.ext`). -/
theorem alloc_ok (r : Represents a free) :
    ∃ frame? a', a.alloc = .ok (frame?, a') ∧ a'.total = a.total ∧ a'.reserved = a.reserved ∧
      match frame? with
      | none => free = ∅ ∧ a' = a
      | some address => ∃ f : Frame, address = f.start ∧ f.index.toNat ∈ free
          ∧ (∀ i ∈ free, f.index.toNat ≤ i)
          ∧ a'.hint = (if f.index.toNat = a.hint then a.hint + 1 else a.hint)
          ∧ Represents a' (free.erase f.index.toNat) := by
  have htotal := r.total_le
  simp only [maxFrames, bitmapWords, bitmapWordBits] at htotal
  unfold alloc
  by_cases hcount : a.freeCount = 0
  · rw [if_pos hcount]
    exact ⟨none, a, rfl, rfl, rfl, Finset.card_eq_zero.mp (r.freeCount_eq.symm.trans hcount), rfl⟩
  rw [if_neg hcount]
  obtain ⟨found, hfind, hleast⟩ := r.findFree_ok
  rw [Checked.bind_of_ok hfind]
  cases found with
  | none => exact ⟨none, a, rfl, rfl, rfl, hleast, rfl⟩
  | some k =>
      obtain ⟨hk, hmin⟩ := hleast
      have hlt := r.lt_total k hk
      obtain ⟨a₁, hset, m₁, hsame⟩ := r.setBit_ok hlt
      obtain ⟨next, hnext, hvalue, hle, hlow⟩ := r.nextHint_ok hk
      have hindex : (UInt32.ofNat k).toNat = k := by
        rw [UInt32.toNat_ofNat', Nat.mod_eq_of_lt (by omega)]
      have hframe : (UInt32.ofNat k).toNat < addressableFrames := by
        simp only [hindex, addressableFrames]
        omega
      have hreserved : ∀ i ∈ free.erase k, a.reserved ≤ i := fun i hi =>
        r.reserved_le_mem i (Finset.mem_of_mem_erase hi)
      simp only [Checked.bind_of_ok hset, Checked.bind_of_ok (Frame.ofNumber_of_lt hframe)]
      refine ⟨some (Frame.mk _ hframe).start, { a₁ with hint := next }, ?_, hsame.total_eq,
        hsame.reserved_eq, ⟨_, hframe⟩, rfl, ?_, ?_, ?_, ?_⟩
      · split at hnext
        · rw [if_pos ‹_›, Checked.bind_of_ok hnext]
          rfl
        · rw [if_neg ‹_›, Checked.bind_of_ok hnext]
          rfl
      · rwa [hindex]
      · rwa [hindex]
      · rwa [hindex]
      · rw [hindex]
        exact r.marked m₁ hsame hreserved hle hlow

/-- **Freeing puts a frame back** if it is tracked, not reserved and not free, and changes nothing
otherwise.  The two cases exclude each other, and each gives the whole of the new state. -/
theorem free_cases (r : Represents a free) (address : PhysAddr) :
    (a.free address).Meets admits fun a' =>
      ((a.reserved ≤ address.frame.index.toNat ∧ address.frame.index.toNat < a.total
          ∧ address.frame.index.toNat ∉ free)
        ∧ a'.total = a.total ∧ a'.reserved = a.reserved
        ∧ a'.hint = min address.frame.index.toNat a.hint
        ∧ Represents a' (insert address.frame.index.toNat free))
      ∨ (¬ (a.reserved ≤ address.frame.index.toNat ∧ address.frame.index.toNat < a.total
          ∧ address.frame.index.toNat ∉ free) ∧ a' = a) := by
  unfold FrameAllocator.free
  extract_lets frame
  by_cases hreserved : frame < a.reserved
  · rw [if_pos hreserved]
    refine Run.meets_log_bind (Run.meets_pure (Or.inr ⟨fun h => ?_, rfl⟩))
    exact absurd h.1 (Nat.not_le.mpr hreserved)
  rw [if_neg hreserved]
  by_cases htotal : frame < a.total
  case neg =>
    rw [if_neg htotal]
    exact Run.meets_log_bind (Run.meets_pure (Or.inr ⟨fun h => htotal h.2.1, rfl⟩))
  case pos =>
  rw [if_pos htotal]
  refine Run.meets_lift_bind (FrameBitmap.isSet_ok (Nat.lt_of_lt_of_le htotal r.total_le)) ?_
  rw [r.bit_eq frame]
  by_cases hfree : frame ∈ free
  · rw [if_neg (by simpa using hfree)]
    exact Run.meets_log_bind (Run.meets_pure (Or.inr ⟨fun h => h.2.2 hfree, rfl⟩))
  · rw [if_pos (by simpa using hfree)]
    obtain ⟨a₁, hclear, m₁, hsame⟩ := r.clearBit_ok htotal
    refine Run.meets_lift_bind hclear (Run.meets_pure (Or.inl
      ⟨⟨Nat.not_lt.mp hreserved, htotal, hfree⟩, hsame.total_eq, hsame.reserved_eq, ?_, ?_⟩))
    · exact congrArg (min frame) hsame.hint_eq
    rw [hsame.hint_eq]
    refine r.marked m₁ hsame ?_ (Nat.le_trans (Nat.min_le_right ..) r.hint_le_total) ?_
    · intro i hi
      rcases Finset.mem_insert.mp hi with rfl | hi
      · exact Nat.not_lt.mp hreserved
      · exact r.reserved_le_mem i hi
    · intro i hi
      rcases Finset.mem_insert.mp hi with rfl | hi
      · exact Nat.min_le_left ..
      · exact Nat.le_trans (Nat.min_le_right ..) (r.hint_le i hi)

/-- For the set of free frames it makes no difference whether a frame is free already.  Where only the
set matters, this spares the case split. -/
theorem free_meets (r : Represents a free) (address : PhysAddr) :
    (a.free address).Meets admits fun a' => a'.total = a.total ∧ a'.reserved = a.reserved ∧
      Represents a' (if a.reserved ≤ address.frame.index.toNat
          ∧ address.frame.index.toNat < a.total
        then insert address.frame.index.toNat free else free) := by
  refine (r.free_cases address).imp ?_
  rintro a' (⟨⟨hle, hlt, -⟩, htotal, hreserved, -, hfreed⟩ | ⟨hignored, rfl⟩)
  · rw [if_pos ⟨hle, hlt⟩]
    exact ⟨htotal, hreserved, hfreed⟩
  · refine ⟨rfl, rfl, ?_⟩
    split
    case isTrue htracked =>
      have hfree : address.frame.index.toNat ∈ free :=
        by_contra fun hfree => hignored ⟨htracked.1, htracked.2, hfree⟩
      rwa [Finset.insert_eq_of_mem hfree]
    case isFalse => exact r

theorem stats_ok (r : Represents a free) :
    a.stats = .ok { total := a.total, free := free.card, used := a.total - free.card } := by
  have hle := r.card_le
  rw [← r.freeCount_eq] at hle ⊢
  rw [stats, Checked.bind_of_ok (Checked.sub64_of_le hle)]
  rfl

/-- Exactly the free frames are not in use.  This holds of all numbers, since untracked frames are not
in the set and count as used. -/
theorem isUsed_ok (r : Represents a free) (i : Nat) : a.isUsed i = .ok (decide (i ∉ free)) := by
  unfold isUsed
  by_cases hi : i < a.total
  · rw [if_pos hi, FrameBitmap.isSet_ok (Nat.lt_of_lt_of_le hi r.total_le), r.bit_eq i]
  · have hnot : i ∉ free := fun h => hi (r.lt_total i h)
    rw [if_neg hi, decide_eq_true hnot]
    rfl

end Represents

end TinyKernel.FrameAllocator
