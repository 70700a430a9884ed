import TinyKernel.Proofs.Frames.Lending

/-!
# Frames that are borrowed

Whoever takes frames and gives all of them back leaves the allocator exactly as it was, in whatever
order the frames come back.

## What is load-bearing

All of the state but the hint is determined by what is lent out.  The hint leaves its frame only when
that frame is taken, and it comes back when the frame does, since no other frame that was free lies
below (`FrameAllocator.Borrows`).

* `FrameAllocator.Borrows` — a state that is reached by borrowing
* `FrameAllocator.Borrows.eq_of_lends` — when everything came back
* `FrameAllocator.spare` — how many frames below a bound are left
-/

namespace TinyKernel

/-- A bitmap is its bits: two bitmaps with the same bits have the same words.  Outside of this lemma,
words are not compared. -/
theorem FrameBitmap.ext_bit {b b' : FrameBitmap} (h : ∀ i, b.bit i = b'.bit i) : b = b' := by
  obtain ⟨words⟩ := b
  obtain ⟨words'⟩ := b'
  refine congrArg FrameBitmap.mk (Vector.ext fun w hw => ?_)
  apply UInt32.toNat_inj.mp
  refine Nat.eq_of_testBit_eq fun j => ?_
  by_cases hj : j < bitmapWordBits
  · have hbit := h (w * bitmapWordBits + j)
    have hword : (w * bitmapWordBits + j) / bitmapWordBits = w := by
      simp only [bitmapWordBits] at *
      omega
    have hplace : (w * bitmapWordBits + j) % bitmapWordBits = j := by
      simp only [bitmapWordBits] at *
      omega
    simpa only [FrameBitmap.bit, FrameBitmap.wordAt, hword, hplace, Vector.getElem?_eq_getElem hw,
      Option.getD_some] using hbit
  · have hpow : 2 ^ 32 ≤ 2 ^ j := Nat.pow_le_pow_right (by decide) (Nat.not_lt.mp hj)
    rw [Nat.testBit_lt_two_pow (Nat.lt_of_lt_of_le words[w].toNat_lt hpow),
      Nat.testBit_lt_two_pow (Nat.lt_of_lt_of_le words'[w].toNat_lt hpow)]

namespace FrameAllocator

variable {a a₀ a' : FrameAllocator} {free free₀ : Finset Nat} {range : FrameRange}
  {lent lent₀ : Finset Frame} {f : Frame} {address : PhysAddr} {admits : Fault → Prop}

/-! ## What determines a state -/

namespace Represents

/-- A state stands for one set, as the bits are read off it.  Facts that were proved with different
sets in mind can therefore be put together. -/
theorem unique (r : Represents a free) (r' : Represents a free₀) : free = free₀ := by
  ext i
  have hbit := (r.bit_eq i).symm.trans (r'.bit_eq i)
  rwa [decide_eq_decide, not_iff_not] at hbit

/-- **The set, the bounds and the hint determine a state.**  The count is the size of the set, and the
bitmap is its bits; so there is nothing else to a state, and equality of states is proved by these
three. -/
theorem ext (r : Represents a free) (r' : Represents a' free) (total_eq : a'.total = a.total)
    (reserved_eq : a'.reserved = a.reserved) (hint_eq : a'.hint = a.hint) : a' = a := by
  have hbitmap : a'.bitmap = a.bitmap := FrameBitmap.ext_bit fun i =>
    (r'.bit_eq i).trans (r.bit_eq i).symm
  have hcount : a'.freeCount = a.freeCount := r'.freeCount_eq.trans r.freeCount_eq.symm
  cases a
  cases a'
  simp_all

/-- What is known when no frame was handed out: none is free, and the state is the old one. -/
theorem of_alloc_none (r : Represents a free) (halloc : a.alloc = .ok (none, a')) :
    free = ∅ ∧ a' = a := by
  obtain ⟨frame?, a₁, halloc₁, -, -, hframe⟩ := r.alloc_ok
  obtain ⟨rfl, rfl⟩ := Prod.mk.inj (Except.ok.inj (halloc.symm.trans halloc₁))
  exact hframe

/-- What is known when a frame was handed out: it was the least free one, and the hint moved on only if
it was the one at the hint. -/
theorem of_alloc_some (r : Represents a free) (halloc : a.alloc = .ok (some f.start, a')) :
    a'.total = a.total ∧ a'.reserved = a.reserved ∧ f.index.toNat ∈ free
      ∧ (∀ i ∈ free, f.index.toNat ≤ i)
      ∧ a'.hint = (if f.index.toNat = a.hint then a.hint + 1 else a.hint)
      ∧ Represents a' (free.erase f.index.toNat) := by
  obtain ⟨frame?, a₁, halloc₁, htotal, hreserved, hframe⟩ := r.alloc_ok
  obtain ⟨rfl, rfl⟩ := Prod.mk.inj (Except.ok.inj (halloc.symm.trans halloc₁))
  obtain ⟨g, hstart, hrest⟩ := hframe
  obtain rfl : f = g := by rw [← f.frame_start, hstart, g.frame_start]
  exact ⟨htotal, hreserved, hrest⟩

end Represents

namespace Lends

/-- A frame that can be lent out and is not is free.  Between the bounds, lent and free are the only
two possibilities. -/
theorem mem_free (h : Lends a range lent) (r : Represents a free)
    (hlow : range.reserved ≤ f.index.toNat) (hhigh : f.index.toNat < range.total) (hf : f ∉ lent) :
    f.index.toNat ∈ free := by
  obtain ⟨free', r', hlent⟩ := h.mem_lent
  obtain rfl := r.unique r'
  by_contra hnot
  exact hf ((hlent f).mpr ⟨hlow, hhigh, hnot⟩)

theorem not_mem_free (h : Lends a range lent) (r : Represents a free) (hf : f ∈ lent) :
    f.index.toNat ∉ free := by
  obtain ⟨free', r', hlent⟩ := h.mem_lent
  obtain rfl := r.unique r'
  exact ((hlent f).mp hf).2.2

/-- What is lent out determines what is free.  Together with the same statement the other way round, it
gives that the free sets are equal. -/
theorem free_subset (h : Lends a range lent) (h₀ : Lends a₀ range lent) (r : Represents a free)
    (r₀ : Represents a₀ free₀) : free ⊆ free₀ := by
  intro i hi
  have hlow := r.reserved_le_mem i hi
  have hhigh := r.lt_total i hi
  obtain ⟨f, rfl⟩ := exists_frame (Nat.lt_of_lt_of_le hhigh r.total_le)
  rw [h.reserved_eq] at hlow
  rw [h.total_eq] at hhigh
  exact h₀.mem_free r₀ hlow hhigh fun hf => h.not_mem_free r hf hi

end Lends

/-! ## Borrowing -/

/-- **A state that is reached by borrowing** frames that were free.  If the hint is not what it was,
then it left its frame, which is among those that are borrowed.  The last clause is what brings the
hint back: when that frame is returned, `free` lowers the hint to it. -/
structure Borrows (a₀ a : FrameAllocator) : Prop where
  total_eq : a.total = a₀.total
  reserved_eq : a.reserved = a₀.reserved
  hint_le : a₀.hint ≤ a.hint
  sets : ∃ free₀ free, Represents a₀ free₀ ∧ Represents a free ∧ free ⊆ free₀
    ∧ (a.hint = a₀.hint ∨ a₀.hint ∈ free₀ \ free)

namespace Borrows

theorem refl (h : Lends a range lent) : Borrows a a := by
  obtain ⟨free, r, -⟩ := h.mem_lent
  exact ⟨rfl, rfl, Nat.le_refl _, free, free, r, r, subset_rfl, Or.inl rfl⟩

/-- One frame more is borrowed.  It was free at the start, since the free set has only become
smaller. -/
theorem alloc (b : Borrows a₀ a) (halloc : a.alloc = .ok (some f.start, a')) : Borrows a₀ a' := by
  obtain ⟨free₀, free, r₀, r, hsubset, hhint⟩ := b.sets
  obtain ⟨htotal, hreserved, hmem, -, hnext, r'⟩ := r.of_alloc_some halloc
  have hle := b.hint_le
  refine ⟨htotal.trans b.total_eq, hreserved.trans b.reserved_eq, ?_, free₀, _, r₀, r',
    (Finset.erase_subset ..).trans hsubset, ?_⟩
  · rw [hnext]
    split <;> omega
  · rw [hnext, Finset.mem_sdiff, Finset.mem_erase]
    rw [Finset.mem_sdiff] at hhint
    split
    case isFalse => exact hhint.imp_right fun hleft => ⟨hleft.1, fun hin => hleft.2 hin.2⟩
    case isTrue hat =>
      -- the frame at the hint is taken, and it may be the one that the hint was at
      refine Or.inr (hhint.elim (fun hsame => ?_) fun hleft => ⟨hleft.1, fun hin => hleft.2 hin.2⟩)
      rw [← hsame, ← hat]
      exact ⟨hsubset hmem, fun hin => hin.1 rfl⟩

/-- A frame comes back, by any address in it.  It must be one that was lent out in the meantime; a
frame that was lent out at the start already was not borrowed from there. -/
theorem giveBack (b : Borrows a₀ a) (h₀ : Lends a₀ range lent₀) (h : Lends a range lent)
    (hf₀ : address.frame ∉ lent₀) (hf : address.frame ∈ lent) :
    (a.free address).Meets admits (Borrows a₀) := by
  obtain ⟨free₀, free, r₀, r, hsubset, hhint⟩ := b.sets
  have hmem₀ := h₀.mem_free r₀ (h.reserved_le hf) (h.lt_total hf) hf₀
  have hlow := r₀.hint_le _ hmem₀
  have hle := b.hint_le
  refine (r.free_cases address).imp ?_
  rintro a' (⟨-, htotal, hreserved, hnext, r'⟩ | ⟨hignored, rfl⟩)
  · refine ⟨htotal.trans b.total_eq, hreserved.trans b.reserved_eq, ?_, free₀, _, r₀, r',
      Finset.insert_subset hmem₀ hsubset, ?_⟩
    · rw [hnext]
      omega
    · rw [hnext, Finset.mem_sdiff, Finset.mem_insert]
      rw [Finset.mem_sdiff] at hhint
      by_cases hat : a₀.hint = address.frame.index.toNat
      · exact Or.inl (by omega)
      · refine hhint.imp (fun hsame => by omega) fun hleft => ⟨hleft.1, ?_⟩
        rintro (heq | hin)
        · exact hat heq
        · exact hleft.2 hin
  · refine absurd ⟨?_, ?_, h.not_mem_free r hf⟩ hignored
    · rw [h.reserved_eq]
      exact h.reserved_le hf
    · rw [h.total_eq]
      exact h.lt_total hf

/-- **Everything came back**: the state is what it was, with its hint.  Only what is lent out is
compared; that the rest agrees as well is due to `Borrows`. -/
theorem eq_of_lends (b : Borrows a₀ a) (h₀ : Lends a₀ range lent) (h : Lends a range lent) :
    a = a₀ := by
  obtain ⟨free₀, free, r₀, r, hsubset, hhint⟩ := b.sets
  obtain rfl : free = free₀ := hsubset.antisymm (h₀.free_subset h r₀ r)
  refine r₀.ext r b.total_eq b.reserved_eq (hhint.resolve_right ?_)
  rw [sdiff_self]
  exact Finset.notMem_empty _

end Borrows

/-- **A frame that is taken and given back** leaves no trace.  Operations that take a frame and then
fail end in this way. -/
theorem Lends.free_of_alloc (h : Lends a range lent) (halloc : a.alloc = .ok (some f.start, a'))
    (h' : Lends a' range (insert f lent)) (hf : f ∉ lent) :
    (a'.free f.start).Meets admits fun a'' => a'' = a := by
  have hborrows : (a'.free f.start).Meets admits (Borrows a) := by
    refine ((Borrows.refl h).alloc halloc).giveBack h h' ?_ ?_
    · rw [f.frame_start]
      exact hf
    · rw [f.frame_start]
      exact Finset.mem_insert_self f lent
  have hlends : (a'.free f.start).Meets admits _ := h'.free_meets f.start
  refine (hborrows.and hlends).imp ?_
  rintro a'' ⟨b, h''⟩
  rw [f.frame_start, Finset.erase_insert hf] at h''
  exact b.eq_of_lends h h''

/-! ## What is left -/

/-- **How many frames below a bound are free.**  The bound is there because not every free frame is of
use: memory may be smaller than what the allocator tracks, and a table can only be put into a frame
that is reached. -/
def spare (a : FrameAllocator) (bound : Nat) : Nat :=
  ((Finset.range bound).filter fun i => a.isUsed i = .ok false).card

theorem Represents.spare_eq (r : Represents a free) (bound : Nat) :
    a.spare bound = (free.filter (· < bound)).card := by
  refine congrArg Finset.card ?_
  ext i
  rw [Finset.mem_filter, Finset.mem_filter, Finset.mem_range, r.isUsed_ok, Except.ok.injEq,
    decide_eq_false_iff_not, not_not, and_comm]

/-- Below a greater bound there are no fewer.  A bound that is proved for few frames holds for more. -/
theorem spare_mono (a : FrameAllocator) {m n : Nat} (hle : m ≤ n) : a.spare m ≤ a.spare n :=
  Finset.card_le_card (Finset.filter_subset_filter _ (Finset.range_subset_range.mpr hle))

namespace Lends

/-- **What is left of all frames** is what can be lent out and is not.  With this, a number of frames
in use is a number of frames left, and the other way round. -/
theorem spare_add_card (h : Lends a range lent) :
    a.spare range.total + lent.card = range.total - range.reserved := by
  obtain ⟨free, r, hsub, hcard⟩ := h.card_lent
  have hspare : a.spare range.total = free.card := by
    rw [r.spare_eq, Finset.filter_true_of_mem]
    exact fun i hi => (Finset.mem_Ico.mp (hsub hi)).2
  rw [hspare, hcard, Nat.add_comm, Finset.card_sdiff_add_card_eq_card hsub, Nat.card_Ico]

/-- **Where everything is lent out that can be**, the next request is refused, and the allocator stays
as it is.  Counting the loans is enough: which frames are lent out does not matter. -/
theorem alloc_none (h : Lends a range lent) (hall : range.total - range.reserved ≤ lent.card) :
    a.alloc = .ok (none, a) := by
  obtain ⟨free, r, hsub, hcard⟩ := h.card_lent
  rw [Finset.card_sdiff_of_subset hsub, Nat.card_Ico] at hcard
  have hle := Finset.card_le_card hsub
  rw [Nat.card_Ico] at hle
  obtain ⟨frame?, a', halloc, -, -, hframe⟩ := r.alloc_ok
  cases frame? with
  | none =>
      obtain ⟨-, rfl⟩ := hframe
      exact halloc
  | some address =>
      obtain ⟨f, -, hf, -⟩ := hframe
      have hpos := Finset.card_pos.mpr ⟨_, hf⟩
      omega

/-- Where no frame is handed out, none is left, below whatever bound. -/
theorem of_alloc_none (h : Lends a range lent) (halloc : a.alloc = .ok (none, a')) :
    a' = a ∧ ∀ bound, a.spare bound = 0 := by
  obtain ⟨free, r, -⟩ := h.mem_lent
  obtain ⟨rfl, heq⟩ := r.of_alloc_none halloc
  exact ⟨heq, fun bound => r.spare_eq bound⟩

/-- **The least frame is handed out**: of those below a bound, one less is left.  If any was left below
the bound, the frame lies below it too, since it is the least; so a table gets a frame that can be
reached as long as there is one. -/
theorem spare_of_alloc (h : Lends a range lent) (halloc : a.alloc = .ok (some f.start, a'))
    (bound : Nat) :
    a'.spare bound = a.spare bound - 1 ∧ (0 < a.spare bound ↔ f.index.toNat < bound) := by
  obtain ⟨free, r, -⟩ := h.mem_lent
  obtain ⟨-, -, hmem, hleast, -, r'⟩ := r.of_alloc_some halloc
  rw [r'.spare_eq, r.spare_eq, Finset.filter_erase, Finset.card_pos]
  by_cases hlt : f.index.toNat < bound
  · have hin : f.index.toNat ∈ free.filter (· < bound) := Finset.mem_filter.mpr ⟨hmem, hlt⟩
    exact ⟨Finset.card_erase_of_mem hin, iff_of_true ⟨_, hin⟩ hlt⟩
  · have hnone : free.filter (· < bound) = ∅ :=
      Finset.filter_eq_empty_iff.mpr fun i hi hi' => hlt ((hleast i hi).trans_lt hi')
    rw [hnone]
    exact ⟨rfl, iff_of_false Finset.not_nonempty_empty hlt⟩

/-- A frame that comes back is one more, or none if it was free already or lies above the bound. -/
theorem spare_free (h : Lends a range lent) (address : PhysAddr) :
    (a.free address).Meets admits fun a' => ∀ bound, a'.spare bound ≤ a.spare bound + 1 := by
  obtain ⟨free, r, -⟩ := h.mem_lent
  refine (r.free_cases address).imp ?_
  rintro a' (⟨-, -, -, -, r'⟩ | ⟨-, rfl⟩)
  · intro bound
    rw [r'.spare_eq, r.spare_eq, Finset.filter_insert]
    split
    · exact Finset.card_insert_le ..
    · exact Nat.le_succ _
  · exact fun bound => Nat.le_succ _

/-- A frame that can be lent out and is not is one of those that are left.  To prove that a request
succeeds, it is enough to name one such frame. -/
theorem spare_pos (h : Lends a range lent) {bound : Nat} (hlow : range.reserved ≤ f.index.toNat)
    (hhigh : f.index.toNat < range.total) (hf : f ∉ lent) (hbound : f.index.toNat < bound) :
    0 < a.spare bound := by
  obtain ⟨free, r, -⟩ := h.mem_lent
  rw [r.spare_eq, Finset.card_pos]
  exact ⟨_, Finset.mem_filter.mpr ⟨h.mem_free r hlow hhigh hf, hbound⟩⟩

end Lends

end FrameAllocator

end TinyKernel
