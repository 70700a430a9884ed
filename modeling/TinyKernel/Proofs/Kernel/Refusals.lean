import TinyKernel.Proofs.Kernel.HeapPages
import TinyKernel.Proofs.Paging.Sharing

/-!
# Requests for pages that fail

A page that cannot be mapped, a directory that cannot be created and a heap page that cannot be backed
leave no trace: not in memory, and not in the frame allocator, whose hint is where it was.

## What is load-bearing

Memory may end before the frames of the allocator do, so a frame that is taken can turn out to be of no
use and go back.  That the allocator is then what it was, to the last bit, is true of every frame that
is taken and given back at once (`FrameAllocator.Lends.free_of_alloc`).  And a table is created only if
its directory can be reached, so that nothing fails after it is there.

* `FrameAllocator.Exhausted` — no frame is free
* `Paging.map_exhausted` — when it is for want of a frame that a page cannot be mapped
* `PagingSession.execute_leaves_no_trace` — failures leave no trace, throughout every session
-/

namespace TinyKernel

/-! ## Want of a frame -/

/-- **No frame is free**, as far as can be asked: every frame counts as used. -/
def FrameAllocator.Exhausted (a : FrameAllocator) : Prop := ∀ frame, a.isUsed frame = .ok true

theorem FrameAllocator.Represents.exhausted_iff {a : FrameAllocator} {free : Finset Nat}
    (r : a.Represents free) : a.Exhausted ↔ free = ∅ := by
  rw [Finset.eq_empty_iff_forall_notMem]
  refine forall_congr' fun i => ?_
  rw [r.isUsed_ok, Except.ok.injEq, decide_eq_true_iff]

/-- **No frame is handed out** exactly where none is free. -/
theorem FrameAllocator.Lends.exhausted_iff {a a' : FrameAllocator} {range : FrameRange}
    {lent : Finset Frame} {frame? : Option PhysAddr} (h : a.Lends range lent)
    (halloc : a.alloc = .ok (frame?, a')) : a.Exhausted ↔ frame? = none := by
  obtain ⟨free, r, -⟩ := h.mem_lent
  obtain ⟨frame?', a₁, halloc₁, -, -, hframe⟩ := r.alloc_ok
  obtain ⟨rfl, rfl⟩ := Prod.mk.inj (Except.ok.inj (halloc.symm.trans halloc₁))
  rw [r.exhausted_iff]
  cases frame? with
  | none => exact iff_of_true hframe.1 rfl
  | some address =>
      obtain ⟨f, -, hf, -⟩ := hframe
      exact iff_of_false (fun hempty => Finset.notMem_empty _ (hempty ▸ hf)) nofun

namespace Paging

variable {p : Paging} {frames : FrameAllocator} {range : FrameRange} {dirs lent : Finset Frame}
  {d : PageDirectory} {admits : Fault → Prop}

/-- A frame for a table is wanting only where none is free: one that cannot be reached is another
matter. -/
theorem allocateTable_exhausted (h : frames.Lends range lent) :
    (p.allocateTable frames).Meets admits fun (result, _) =>
      result = .error .outOfFrames ↔ frames.Exhausted := by
  obtain ⟨frame?, frames₁, halloc, hframe⟩ := h.alloc_ok
  rw [h.exhausted_iff halloc]
  unfold allocateTable
  refine Run.meets_lift_bind halloc ?_
  cases frame? with
  | none => exact Run.meets_pure (iff_of_true rfl rfl)
  | some address =>
      obtain ⟨table, rfl, -, hlends⟩ := hframe
      dsimp only
      split
      · exact Run.meets_pure (iff_of_false nofun nofun)
      · exact (hlends.free_meets table.start).bind fun _ _ =>
          Run.meets_pure (iff_of_false nofun nofun)

theorem tableFor_exhausted (h : frames.Lends range lent) (hreach : p.ram.reaches d.frame = true)
    (v : VirtAddr) (flags : PageFlags) :
    (p.tableFor frames d v flags).Meets admits fun (result, _) =>
      result = .error .outOfFrames ↔
        p.target? d.frame v.directoryIndex = none ∧ frames.Exhausted := by
  obtain ⟨e, hread⟩ := Option.isSome_iff_exists.mp
    ((Ram.reaches_iff_read? v.directoryIndex).mp hreach)
  have htarget := target?_of_read? hread
  unfold tableFor
  simp only [hread, setEntry, if_pos hreach]
  by_cases hpresent : e.isPresent = true
  case pos =>
    rw [PageTableEntry.target?_of_isPresent hpresent] at htarget
    have hthere : ¬ (p.target? d.frame v.directoryIndex = none ∧ frames.Exhausted) := by
      rw [htarget]
      rintro ⟨hnone, -⟩
      cases hnone
    rw [if_pos hpresent]
    split <;> exact Run.meets_pure (iff_of_false (by simp [Except.map]) hthere)
  case neg =>
    have habsent : p.target? d.frame v.directoryIndex = none := htarget.trans (if_neg hpresent)
    rw [if_neg hpresent]
    simp only [habsent, true_and]
    have hmeets : (p.allocateTable frames).Meets admits _ := allocateTable_meets h
    refine ((allocateTable_exhausted h).and hmeets).bind ?_
    rintro ⟨result, p₁, frames₁⟩ ⟨hexhausted, htable⟩
    cases result with
    | error cause =>
        refine Run.meets_pure (Iff.trans ?_ hexhausted)
        rw [Except.error.injEq]
    | ok table =>
        obtain ⟨-, -, rfl, -⟩ := htable
        simp only [reaches_withZeroed, if_pos hreach]
        refine Run.meets_pure (iff_of_false (by simp [Except.map]) fun hnone => ?_)
        cases hexhausted.mpr hnone

/-- Writing an entry takes no frame, and so is never refused for want of one. -/
theorem setEntry_ne_outOfFrames {frame : Frame} {i : Fin entriesPerTable} {e : PageTableEntry} :
    (p.setEntry frame i e).1 ≠ .error .outOfFrames := by
  unfold setEntry
  split <;> nofun

/-- **A page cannot be mapped for want of a frame** exactly where its region has no table and no frame
is free.  Where it has one, the refusal must have another cause. -/
theorem map_exhausted (h : p.Housed range dirs frames) (hd : d.frame ∈ dirs) (v : VirtAddr)
    (target : PhysAddr) (flags : PageFlags) :
    (p.map frames d v target flags).Meets admits fun (result, _) =>
      result = .error .outOfFrames ↔ p.hasTable d v = false ∧ frames.Exhausted := by
  obtain ⟨lent, hlends, -⟩ := h.lends
  unfold map
  refine (tableFor_exhausted hlends (h.spaces.reaches _ hd) v flags).bind ?_
  rintro ⟨result, p₁, frames₁⟩ hexhausted
  rw [hasTable, Option.isSome_eq_false_iff, Option.isNone_iff_eq_none]
  cases result with
  | error cause =>
      refine Run.meets_pure (Iff.trans ?_ hexhausted)
      rw [Except.error.injEq, Except.error.injEq]
  | ok table =>
      exact Run.meets_pure
        (iff_of_false setEntry_ne_outOfFrames fun hnone => nomatch hexhausted.mpr hnone)

/-! ## No trace -/

/-- **A page that cannot be mapped** leaves no trace, neither in memory nor in the allocator.  A frame
that was taken for a table comes back, and the hint with it. -/
theorem Housed.map_failed (h : p.Housed range dirs frames) (hd : d.frame ∈ dirs) (v : VirtAddr)
    (target : PhysAddr) (flags : PageFlags) :
    (p.map frames d v target flags).Meets admits fun (result, p', frames') => ∀ cause,
      result = .error cause → p' = p ∧ frames' = frames := by
  obtain ⟨lent, hlends, hdirs, htables⟩ := h.lends
  refine (h.spaces.map_refused hd hlends hdirs htables v target flags).imp fun _ hrefused => ?_
  intro cause hcause
  obtain ⟨-, hp, hframes, -⟩ := hrefused cause hcause
  exact ⟨hp, hframes⟩

/-- **A directory that cannot be created** leaves no trace. -/
theorem createDirectory_failed (h : frames.Lends range lent) :
    (p.createDirectory frames).Meets admits fun (directory?, p', frames') =>
      directory? = none → p' = p ∧ frames' = frames := by
  unfold createDirectory
  refine (allocateTable_refused h).bind ?_
  rintro ⟨result, p₁, frames₁⟩ hrefused
  cases result with
  | error cause =>
      obtain ⟨rfl, rfl, -⟩ := hrefused cause rfl
      exact Run.meets_log_bind (Run.meets_pure fun _ => ⟨rfl, rfl⟩)
  | ok table => exact Run.meets_pure nofun

end Paging

/-- **A heap page that cannot be backed** leaves no trace: its frame has come back, as the mapping is
the last step. -/
theorem KernelPages.back_failed {s : KernelPages} {range : FrameRange} {dirs : Finset Frame}
    {admits : Fault → Prop} (h : s.paging.Housed range dirs s.frames)
    (hd : s.directory.frame ∈ dirs) (page : VirtAddr) :
    (PageSource.back page s).Meets admits fun (result, s') =>
      ∀ cause, result = .error cause → s' = s := by
  refine (back_cases h hd page).imp ?_
  rintro ⟨result, s'⟩ (_ | _ | _) cause hcause
  · cases hcause
  · rfl
  · rfl

/-! ## Sessions -/

namespace PagingSession

/-- The page source of a heap that is mapped into a directory of the session. -/
def pages (s : PagingSession) (directory : PageDirectory) : KernelPages where
  cpu := s.cpu
  paging := s.paging
  frames := s.frames
  directory

/-- **Failures leave no trace.**  Whatever was done before, and however much of memory can be reached:
if a page cannot be mapped, or no directory can be created, or a heap page cannot be backed, then
memory and the frame allocator are exactly what they were.  It is for want of a frame that a page
cannot be mapped if, and only if, its region has no table and no frame is free. -/
theorem execute_leaves_no_trace (ram : Ram) (memoryTop reservedTop : UInt32)
    (calls : List PagingCall) :
    (execute ram memoryTop reservedTop calls).Meets (fun _ => False) fun s =>
      (∀ d ∈ s.created, ∀ v target flags,
          (s.paging.map s.frames d v target flags).Meets (fun _ => False)
            fun (result, p', frames') =>
              (∀ cause, result = .error cause → p' = s.paging ∧ frames' = s.frames)
                ∧ (result = .error .outOfFrames ↔
                  s.paging.hasTable d v = false ∧ s.frames.Exhausted))
        ∧ (s.paging.createDirectory s.frames).Meets (fun _ => False)
          (fun (directory?, p', frames') =>
            directory? = none → p' = s.paging ∧ frames' = s.frames)
        ∧ ∀ d ∈ s.created, ∀ page,
          (PageSource.back page (s.pages d)).Meets (fun _ => False) fun (result, pages) =>
            ∀ cause, result = .error cause → pages = s.pages d := by
  refine (execute_meets ram memoryTop reservedTop calls).imp fun s c => ?_
  have h : s.paging.Housed (.ofMemory memoryTop reservedTop) s.directoryFrames s.frames := c
  obtain ⟨lent, hlends, -⟩ := h.lends
  refine ⟨fun d hd v target flags => ?_, ?_, fun d hd page => ?_⟩
  · have hwant : (s.paging.map s.frames d v target flags).Meets (fun _ => False) _ :=
      Paging.map_exhausted h (mem_directoryFrames hd) v target flags
    exact (h.map_failed (mem_directoryFrames hd) v target flags).and hwant
  · exact Paging.createDirectory_failed hlends
  · exact KernelPages.back_failed h (mem_directoryFrames hd) page

end PagingSession

end TinyKernel
