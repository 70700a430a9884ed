import Mathlib.Data.Finset.Max
import TinyKernel.Proofs.Frames.Lending

/-!
# The frame allocator is a set of free frames

Bitmap, count and hint are there to be fast.  What the allocator answers, in every run, is what a
finite set of frame numbers answers from which the least is taken and into which frames are put back.

## What is load-bearing

The set knows nothing of words, masks or the hint, and the answers of the two are compared over whole
runs.  So a scan that missed a frame, or a hint that was left too high, would show as an address that
is not the least one.

* `FreeFrames` — the set, and what is asked of it
* `FrameAllocator.Agrees` — what the state of the allocator says of the set
* `FrameAllocator.run_answers_as_set` — the two agree in every run
-/

namespace TinyKernel

/-- **What can be asked of a frame allocator.**  An allocator that is set up for some memory is one
that is asked for `init` first, and it may be set up again at any time.  Addresses are not restricted:
a client may free what it never had. -/
inductive FrameCall where
  /-- Starts over with the memory `[0, memoryTop)`, of which `[0, reservedTop)` is in use for good. -/
  | init (memoryTop reservedTop : UInt32)
  | alloc
  | free (address : PhysAddr)

/-- **A set of free frames**, out of those of a range.  This is the allocator as its clients see it: it
has no bitmap, no hint and no count, and its operations are those of a set. -/
structure FreeFrames where
  range : FrameRange
  free : Finset Nat

namespace FreeFrames

/-- No frame is tracked, and none is free.  It is what an allocator stands for before `init`. -/
def untracked : FreeFrames := ⟨⟨0, 0⟩, ∅⟩

/-- All frames of some memory are free that are not reserved, whatever was lent out before. -/
def ofMemory (memoryTop reservedTop : UInt32) : FreeFrames :=
  let range := FrameRange.ofMemory memoryTop reservedTop
  ⟨range, Finset.Ico range.reserved range.total⟩

/-- **The least free frame is taken**, if there is one.  That it is the least is promised to clients:
tables and heap pages are filled from below. -/
def take (s : FreeFrames) : Option Nat × FreeFrames :=
  if h : s.free.Nonempty then
    (some (s.free.min' h), { s with free := s.free.erase (s.free.min' h) })
  else
    (none, s)

/-- A frame is one that can be put back: it is in the range and not free.  The set cannot tell who took
it, and neither can the allocator. -/
def Misses (s : FreeFrames) (frame : Nat) : Prop :=
  s.range.reserved ≤ frame ∧ frame < s.range.total ∧ frame ∉ s.free

instance (s : FreeFrames) (frame : Nat) : Decidable (s.Misses frame) :=
  inferInstanceAs (Decidable (_ ∧ _ ∧ _))

/-- **A frame is put back**, if it can be.  Anything else leaves the set as it is, and is no fault. -/
def putBack (s : FreeFrames) (frame : Nat) : FreeFrames :=
  if s.Misses frame then { s with free := insert frame s.free } else s

/-- One call.  Only `alloc` has an answer, which is the number of a frame. -/
def perform (s : FreeFrames) : FrameCall → Option Nat × FreeFrames
  | .init memoryTop reservedTop => (none, ofMemory memoryTop reservedTop)
  | .alloc => s.take
  | .free address => (none, s.putBack address.frame.index.toNat)

/-- Calls, one after the other, and their answers.  This run is pure, as sets do not fault and print
nothing. -/
def run (s : FreeFrames) : List FrameCall → List (Option Nat) × FreeFrames
  | [] => ([], s)
  | call :: calls =>
    let (answer, s) := s.perform call
    let (answers, s) := s.run calls
    (answer :: answers, s)

end FreeFrames

namespace FrameAllocator

/-- One call.  Only `alloc` has an answer, which is the first address of a frame.  The other calls are
answered by nothing, so that every call has one answer. -/
def perform (a : FrameAllocator) : FrameCall → Run (Option PhysAddr × FrameAllocator)
  | .init memoryTop reservedTop => do
    let a ← init memoryTop reservedTop
    pure (none, a)
  | .alloc => a.alloc
  | .free address => do
    let a ← a.free address
    pure (none, a)

/-- **Calls, one after the other**, and their answers.  The run stops at the first fault. -/
def run (a : FrameAllocator) : List FrameCall → Run (List (Option PhysAddr) × FrameAllocator)
  | [] => pure ([], a)
  | call :: calls => do
    let (answer, a) ← a.perform call
    let (answers, a) ← a.run calls
    pure (answer :: answers, a)

/-- **What an allocator says of a set of free frames**, whichever way it is asked: frame by frame, as
numbers, or by what a call would do.  None of the clauses mentions the hint, which clients cannot
see. -/
structure Agrees (a : FrameAllocator) (s : FreeFrames) : Prop where
  free_subset : s.free ⊆ Finset.Ico s.range.reserved s.range.total
  isUsed_eq : ∀ i, a.isUsed i = .ok (decide (i ∉ s.free))
  stats_eq : a.stats = .ok
    { total := s.range.total, free := s.free.card, used := s.range.total - s.free.card }
  /-- No bit behind the last frame is clear, though the bitmap has bits for them. -/
  isSet_eq : ∀ i < maxFrames, s.range.total ≤ i → a.bitmap.isSet i = .ok true
  /-- Where there is nothing to hand out or to put back, nothing changes. -/
  alloc_eq : s.free = ∅ → a.alloc = .ok (none, a)
  free_eq : ∀ address : PhysAddr, ¬ s.Misses address.frame.index.toNat →
    (a.free address).Meets (fun _ => False) fun a' => a' = a

/-- **The state stands for a set of free frames**, and for their range.  Every call preserves this, and
everything that clients can see follows from it (`Refines.agrees`). -/
structure Refines (a : FrameAllocator) (s : FreeFrames) : Prop where
  range_eq : (⟨a.reserved, a.total⟩ : FrameRange) = s.range
  represents : Represents a s.free

/-- **The answer of the allocator** is the first address of the frame that the set answers; where the
set has no answer, there is none. -/
def Answers (address? : Option PhysAddr) (frame? : Option Nat) : Prop :=
  (address?.map fun address => address.val.toNat) = frame?.map (· * pageSize)

variable {a : FrameAllocator} {s : FreeFrames} {admits : Fault → Prop}

theorem empty_refines : Refines empty .untracked where
  range_eq := rfl
  represents :=
    ⟨marks_empty (Nat.zero_le _), Nat.le_refl _, (fun _ hi => by cases hi), Nat.le_refl _,
      (fun _ hi => by cases hi)⟩

namespace Refines

theorem reserved_eq (h : Refines a s) : a.reserved = s.range.reserved :=
  congrArg FrameRange.reserved h.range_eq

theorem total_eq (h : Refines a s) : a.total = s.range.total := congrArg FrameRange.total h.range_eq

/-- What can be put back is said of the bounds of the allocator, or of the range, and comes to the
same. -/
theorem misses_iff (h : Refines a s) (frame : Nat) :
    s.Misses frame ↔ a.reserved ≤ frame ∧ frame < a.total ∧ frame ∉ s.free := by
  rw [h.reserved_eq, h.total_eq]
  exact Iff.rfl

/-- **Starting over** makes all frames free that are not reserved.  What the state was before does not
matter. -/
theorem init_meets (memoryTop reservedTop : UInt32) :
    (init memoryTop reservedTop).Meets admits fun a =>
      Refines a (.ofMemory memoryTop reservedTop) := by
  refine (FrameAllocator.init_meets memoryTop reservedTop).imp fun a ⟨htotal, hreserved, r⟩ => ?_
  have hrange : (⟨a.reserved, a.total⟩ : FrameRange) = .ofMemory memoryTop reservedTop := by
    rw [hreserved, htotal]
    rfl
  refine ⟨hrange, ?_⟩
  rw [FreeFrames.ofMemory, ← hrange]
  exact r

/-- **Allocation takes the least free frame**, and answers by its first address.  There is no fault to
be admitted. -/
theorem alloc_ok (h : Refines a s) :
    ∃ address? a', a.alloc = .ok (address?, a') ∧ Answers address? s.take.1 ∧ Refines a' s.take.2 := by
  obtain ⟨address?, a', halloc, htotal, hreserved, hframe⟩ := h.represents.alloc_ok
  have hrange : (⟨a'.reserved, a'.total⟩ : FrameRange) = s.range := by
    rw [htotal, hreserved, h.range_eq]
  refine ⟨address?, a', halloc, ?_⟩
  unfold FreeFrames.take
  cases address? with
  | none =>
      obtain ⟨hempty, rfl⟩ := hframe
      rw [dif_neg (Finset.not_nonempty_iff_eq_empty.mpr hempty)]
      exact ⟨rfl, h⟩
  | some address =>
      obtain ⟨f, rfl, hmem, hleast, -, r⟩ := hframe
      have hmin : s.free.min' ⟨_, hmem⟩ = f.index.toNat :=
        Nat.le_antisymm (Finset.min'_le _ _ hmem) (hleast _ (Finset.min'_mem ..))
      rw [dif_pos ⟨_, hmem⟩, hmin]
      exact ⟨congrArg some f.start_toNat, hrange, r⟩

/-- **Freeing puts a frame back**, if it can be, and otherwise leaves not only the set but the whole
state as it is. -/
theorem free_meets (h : Refines a s) (address : PhysAddr) :
    (a.free address).Meets admits fun a' => Refines a' (s.putBack address.frame.index.toNat)
      ∧ (¬ s.Misses address.frame.index.toNat → a' = a) := by
  refine (h.represents.free_cases address).imp ?_
  unfold FreeFrames.putBack
  rintro a' (⟨hmisses, htotal, hreserved, -, r⟩ | ⟨hignored, rfl⟩)
  · rw [← h.misses_iff] at hmisses
    rw [if_pos hmisses]
    refine ⟨⟨?_, r⟩, fun hnot => absurd hmisses hnot⟩
    rw [htotal, hreserved, h.range_eq]
  · rw [← h.misses_iff] at hignored
    rw [if_neg hignored]
    exact ⟨h, fun _ => rfl⟩

/-- **One call** has the answer of the set, and does to the state what it does to the set.  This is the
step of the simulation, and a run follows by induction on the calls. -/
theorem perform_meets (h : Refines a s) (call : FrameCall) :
    (a.perform call).Meets admits fun (answer, a') =>
      Answers answer (s.perform call).1 ∧ Refines a' (s.perform call).2 := by
  cases call with
  | init memoryTop reservedTop =>
      exact (init_meets memoryTop reservedTop).bind fun a' h' => Run.meets_pure ⟨rfl, h'⟩
  | alloc =>
      obtain ⟨address?, a', halloc, hanswer, h'⟩ := h.alloc_ok
      simp only [perform, halloc, Run.lift_ok]
      exact Run.meets_pure ⟨hanswer, h'⟩
  | free address =>
      exact (h.free_meets address).bind fun a' ⟨h', _⟩ => Run.meets_pure ⟨rfl, h'⟩

theorem run_meets (h : Refines a s) (calls : List FrameCall) :
    (a.run calls).Meets admits fun (answers, a') =>
      List.Forall₂ Answers answers (s.run calls).1 ∧ Refines a' (s.run calls).2 := by
  induction calls generalizing a s with
  | nil => exact Run.meets_pure ⟨.nil, h⟩
  | cons call calls ih =>
      refine (h.perform_meets call).bind fun (answer, a₁) ⟨hanswer, h₁⟩ => ?_
      refine (ih h₁).bind fun (answers, a₂) ⟨hanswers, h₂⟩ => Run.meets_pure ⟨?_, h₂⟩
      exact .cons hanswer hanswers

/-- The state says of the set what it stands for, in each of the ways in which it can be asked. -/
theorem agrees (h : Refines a s) : a.Agrees s where
  free_subset i hi := by
    rw [← h.reserved_eq, ← h.total_eq]
    exact Finset.mem_Ico.mpr ⟨h.represents.reserved_le_mem i hi, h.represents.lt_total i hi⟩
  isUsed_eq := h.represents.isUsed_ok
  stats_eq := by
    rw [← h.total_eq]
    exact h.represents.stats_ok
  isSet_eq i hi htotal := by
    have hnot : i ∉ s.free := fun hmem => by
      have hlt := h.represents.lt_total i hmem
      rw [h.total_eq] at hlt
      exact absurd htotal (Nat.not_le.mpr hlt)
    rw [FrameBitmap.isSet_ok hi, h.represents.bit_eq, decide_eq_true hnot]
  alloc_eq hempty := by
    obtain ⟨address?, a', halloc, -, -, hframe⟩ := h.represents.alloc_ok
    cases address? with
    | none =>
        obtain ⟨-, rfl⟩ := hframe
        exact halloc
    | some address =>
        obtain ⟨f, -, hmem, -⟩ := hframe
        rw [hempty] at hmem
        cases hmem
  free_eq address hnot := (h.free_meets address).imp fun _ ⟨_, heq⟩ => heq hnot

end Refines

/-- **The allocator answers as the set does**, in every run, and never faults.  Its answers are the
first addresses of the frames that the set answers, each the least that is free; and what it says is
in use, free, tracked or counted is what the set says. -/
theorem run_answers_as_set (calls : List FrameCall) :
    (empty.run calls).Meets (fun _ => False) fun (answers, a) =>
      List.Forall₂ Answers answers (FreeFrames.untracked.run calls).1
        ∧ a.Agrees (FreeFrames.untracked.run calls).2 :=
  (empty_refines.run_meets calls).imp fun _ ⟨hanswers, h⟩ => ⟨hanswers, h.agrees⟩

end FrameAllocator

end TinyKernel
