import Mathlib.Data.Finset.Image
import TinyKernel.Proofs.Frames.Allocator

/-!
# Frames that are lent out

The users of the allocator know frames, not bits.  For them the state stands for the finite set of
the frames that were handed out and did not come back: `alloc` puts a frame into the set, `free`
takes one out, and whatever else is asked of the allocator leaves the set alone.

* `FrameAllocator.Lends` — the frames that are handed out
* `FrameAllocator.Lends.alloc_ok`, `FrameAllocator.Lends.free_meets` — the two operations
* `FrameAllocator.Lends.stats_ok`, `FrameAllocator.Lends.isUsed_iff` — what is counted, and what is
  in use
-/

namespace TinyKernel

/-- **The frames that an allocator is for**: those below `total`, of which those below `reserved` are
never handed out.  A range never changes while a kernel runs. -/
structure FrameRange where
  reserved : Nat
  total : Nat

/-- The frames of the memory `[0, memoryTop)`, of which `[0, reservedTop)` is in use for good.  A last
frame that is cut off is left out above, and is reserved below. -/
def FrameRange.ofMemory (memoryTop reservedTop : UInt32) : FrameRange :=
  let total := min (memoryTop.toNat / pageSize) maxFrames
  { total, reserved := min ((reservedTop.toNat + (pageSize - 1)) / pageSize) total }

/-- A frame that can be handed out lies above what is in use for good, byte for byte.  So nothing that
is put into such a frame overwrites what was there before the kernel. -/
theorem FrameRange.reservedTop_le_start {memoryTop reservedTop : UInt32} {f : Frame}
    (hle : (FrameRange.ofMemory memoryTop reservedTop).reserved ≤ f.index.toNat)
    (hlt : f.index.toNat < (FrameRange.ofMemory memoryTop reservedTop).total) :
    reservedTop.toNat ≤ f.start.val.toNat := by
  rw [f.start_toNat]
  simp only [FrameRange.ofMemory, pageSize] at hle hlt
  omega

namespace FrameAllocator

/-- **Exactly the frames of a set are handed out.**  It is the same account as `Represents`, kept from
the other side: clients know what they hold, and not what is free.  The set is one of frames and not of
numbers, so that the addresses of clients can be compared with it. -/
structure Lends (a : FrameAllocator) (range : FrameRange) (lent : Finset Frame) : Prop where
  total_eq : a.total = range.total
  reserved_eq : a.reserved = range.reserved
  mem_lent : ∃ free, Represents a free ∧ ∀ f : Frame, f ∈ lent ↔
    range.reserved ≤ f.index.toNat ∧ f.index.toNat < range.total ∧ f.index.toNat ∉ free

variable {a : FrameAllocator} {range : FrameRange} {lent : Finset Frame} {f : Frame}
  {admits : Fault → Prop}

/-- Every frame that is tracked has a number with twenty bits.  Sets of numbers and sets of frames can
therefore be counted against each other. -/
theorem exists_frame {i : Nat} (hi : i < maxFrames) : ∃ f : Frame, f.index.toNat = i := by
  simp only [maxFrames, bitmapWords, bitmapWordBits] at hi
  have hindex : (UInt32.ofNat i).toNat = i := by
    rw [UInt32.toNat_ofNat', Nat.mod_eq_of_lt (by omega)]
  refine ⟨⟨UInt32.ofNat i, ?_⟩, hindex⟩
  simp only [hindex, addressableFrames]
  omega

/-- At the start nothing is lent out.  Whatever is in use then is reserved. -/
theorem init_lends (memoryTop reservedTop : UInt32) :
    (init memoryTop reservedTop).Meets admits fun a =>
      Lends a (.ofMemory memoryTop reservedTop) ∅ := by
  refine (init_meets memoryTop reservedTop).imp fun a ⟨htotal, hreserved, r⟩ => ?_
  rw [htotal] at hreserved
  refine ⟨htotal, hreserved, _, r, fun f => ?_⟩
  rw [Finset.mem_Ico, htotal, hreserved]
  simp only [Finset.notMem_empty, FrameRange.ofMemory, false_iff]
  omega

namespace Lends

theorem reserved_le (h : Lends a range lent) (hf : f ∈ lent) : range.reserved ≤ f.index.toNat := by
  obtain ⟨free, -, hlent⟩ := h.mem_lent
  exact ((hlent f).mp hf).1

theorem lt_total (h : Lends a range lent) (hf : f ∈ lent) : f.index.toNat < range.total := by
  obtain ⟨free, -, hlent⟩ := h.mem_lent
  exact ((hlent f).mp hf).2.1

/-- **Allocation lends a frame** that was not lent out.  A refusal leaves the loans as they are. -/
theorem alloc_ok (h : Lends a range lent) :
    ∃ frame? a', a.alloc = .ok (frame?, a') ∧
      match frame? with
      | none => Lends a' range lent
      | some address => ∃ f : Frame, address = f.start ∧ f ∉ lent ∧ Lends a' range (insert f lent) := by
  obtain ⟨free, r, hlent⟩ := h.mem_lent
  obtain ⟨frame?, a', halloc, htotal, hreserved, hframe⟩ := r.alloc_ok
  refine ⟨frame?, a', halloc, ?_⟩
  cases frame? with
  | none =>
      obtain ⟨-, rfl⟩ := hframe
      exact h
  | some address =>
      obtain ⟨f, rfl, hf, -, -, r'⟩ := hframe
      have hlow := r.reserved_le_mem _ hf
      have hlt := r.lt_total _ hf
      rw [h.reserved_eq] at hlow
      rw [h.total_eq] at hlt
      refine ⟨f, rfl, fun hmem => ((hlent f).mp hmem).2.2 hf, htotal.trans h.total_eq,
        hreserved.trans h.reserved_eq, _, r', fun g => ?_⟩
      rw [Finset.mem_insert, hlent, Finset.mem_erase, ← Frame.index_toNat_inj]
      constructor
      · rintro (heq | ⟨hle, hlt', hnot⟩)
        · exact ⟨heq ▸ hlow, heq ▸ hlt, fun hmem => hmem.1 heq⟩
        · exact ⟨hle, hlt', fun hmem => hnot hmem.2⟩
      · rintro ⟨hle, hlt', hnot⟩
        by_cases heq : g.index.toNat = f.index.toNat
        · exact Or.inl heq
        · exact Or.inr ⟨hle, hlt', fun hmem => hnot ⟨heq, hmem⟩⟩

/-- **Freeing ends the loan of a frame**, if there is one.  An address that belongs to no loan ends
none, whatever it is. -/
theorem free_meets (h : Lends a range lent) (address : PhysAddr) :
    (a.free address).Meets admits fun a' => Lends a' range (lent.erase address.frame) := by
  obtain ⟨free, r, hlent⟩ := h.mem_lent
  refine (r.free_meets address).imp fun a' ⟨htotal, hreserved, r'⟩ => ?_
  rw [h.total_eq, h.reserved_eq] at r'
  refine ⟨htotal.trans h.total_eq, hreserved.trans h.reserved_eq, _, r', fun g => ?_⟩
  rw [Finset.mem_erase, hlent, ← Frame.index_toNat_inj.ne]
  split
  case isTrue htracked =>
    rw [Finset.mem_insert]
    tauto
  case isFalse huntracked =>
    refine ⟨fun hg => hg.2, fun hg => ⟨fun heq => huntracked ?_, hg⟩⟩
    rw [← heq]
    exact ⟨hg.1, hg.2.1⟩

/-- The numbers of the frames that are lent out are those that are neither reserved nor free.  The
counting lemmas below go through numbers. -/
theorem image_index (h : Lends a range lent) :
    ∃ free, Represents a free ∧
      lent.image (fun f => f.index.toNat) = Finset.Ico range.reserved range.total \ free := by
  obtain ⟨free, r, hlent⟩ := h.mem_lent
  refine ⟨free, r, ?_⟩
  ext i
  rw [Finset.mem_image, Finset.mem_sdiff, Finset.mem_Ico]
  constructor
  · rintro ⟨f, hf, rfl⟩
    obtain ⟨hle, hlt, hnot⟩ := (hlent f).mp hf
    exact ⟨⟨hle, hlt⟩, hnot⟩
  · rintro ⟨⟨hle, hlt⟩, hnot⟩
    have hmax := r.total_le
    rw [h.total_eq] at hmax
    obtain ⟨f, rfl⟩ := exists_frame (Nat.lt_of_lt_of_le hlt hmax)
    exact ⟨f, (hlent f).mpr ⟨hle, hlt, hnot⟩, rfl⟩

/-- **What is lent out** is as much as can be lent out and is not free. -/
theorem card_lent (h : Lends a range lent) :
    ∃ free, Represents a free ∧ free ⊆ Finset.Ico range.reserved range.total
      ∧ lent.card = (Finset.Ico range.reserved range.total \ free).card := by
  obtain ⟨free, r, himage⟩ := h.image_index
  refine ⟨free, r, fun i hi => ?_, ?_⟩
  · rw [← h.total_eq, ← h.reserved_eq]
    exact Finset.mem_Ico.mpr ⟨r.reserved_le_mem i hi, r.lt_total i hi⟩
  · rw [← himage, Finset.card_image_of_injective]
    exact fun f g hfg => Frame.index_toNat_inj.mp hfg

/-- As many frames are in use as are lent out, of those that can be.  The set on the left is one that
clients can compute, by asking for each frame. -/
theorem card_used (h : Lends a range lent) :
    ((Finset.Ico range.reserved range.total).filter fun i => a.isUsed i = .ok true).card
      = lent.card := by
  obtain ⟨free, r, -, hcard⟩ := h.card_lent
  rw [hcard]
  refine congrArg Finset.card (Finset.ext fun i => ?_)
  rw [Finset.mem_filter, Finset.mem_sdiff, r.isUsed_ok, Except.ok.injEq, decide_eq_true_iff]

/-- **What is counted as used** is what is reserved and what is lent out.  The statistics never
fault. -/
theorem stats_ok (h : Lends a range lent) :
    ∃ stats, a.stats = .ok stats ∧ stats.total = range.total
      ∧ stats.used = range.reserved + lent.card ∧ stats.free + stats.used = stats.total := by
  obtain ⟨free, r, hsub, hcard⟩ := h.card_lent
  rw [Finset.card_sdiff_of_subset hsub, Nat.card_Ico] at hcard
  have hle := Finset.card_le_card hsub
  rw [Nat.card_Ico] at hle
  have hbound := r.reserved_le
  have htotal := h.total_eq
  have hreserved := h.reserved_eq
  refine ⟨_, r.stats_ok, htotal, ?_, ?_⟩
  · dsimp only
    omega
  · dsimp only
    omega

/-- **A frame is in use** if it is lent out, and all reserved and all untracked frames are.  There is
no other reason for a frame to be in use. -/
theorem isUsed_iff (h : Lends a range lent) (f : Frame) :
    a.isUsed f.index.toNat = .ok true ↔
      f ∈ lent ∨ f.index.toNat < range.reserved ∨ range.total ≤ f.index.toNat := by
  obtain ⟨free, r, hlent⟩ := h.mem_lent
  rw [hlent, r.isUsed_ok, Except.ok.injEq, decide_eq_true_iff]
  constructor
  · intro hnot
    by_cases hlow : f.index.toNat < range.reserved
    · exact Or.inr (Or.inl hlow)
    · by_cases hhigh : f.index.toNat < range.total
      · exact Or.inl ⟨Nat.not_lt.mp hlow, hhigh, hnot⟩
      · exact Or.inr (Or.inr (Nat.not_lt.mp hhigh))
  · rintro (⟨-, -, hnot⟩ | hlow | hhigh) hmem
    · exact hnot hmem
    · rw [← h.reserved_eq] at hlow
      exact absurd (r.reserved_le_mem _ hmem) (Nat.not_le.mpr hlow)
    · rw [← h.total_eq] at hhigh
      exact absurd (r.lt_total _ hmem) (Nat.not_lt.mpr hhigh)

/-- **What is lent out** is what is in use, among the frames that can be.  The set of loans is
therefore not a matter of choice: the state determines it. -/
theorem mem_iff_isUsed (h : Lends a range lent) (f : Frame) :
    f ∈ lent ↔ range.reserved ≤ f.index.toNat ∧ f.index.toNat < range.total
      ∧ a.isUsed f.index.toNat = .ok true := by
  rw [h.isUsed_iff]
  constructor
  · exact fun hf => ⟨h.reserved_le hf, h.lt_total hf, Or.inl hf⟩
  · rintro ⟨hle, hlt, hf | hlow | hhigh⟩
    · exact hf
    · exact absurd hlow (Nat.not_lt.mpr hle)
    · exact absurd hhigh (Nat.not_le.mpr hlt)

end Lends

end FrameAllocator

end TinyKernel
