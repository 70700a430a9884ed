import TinyKernel.Proofs.Kernel.Ownership
import TinyKernel.Proofs.Paging.Entries
import TinyKernel.Proofs.Paging.Overlay

/-!
# The pages of the kernel heap

What backing one page does, and what releasing it does, said completely: what is taken from the
allocator and written to memory, and, when a page cannot be backed, why it cannot.

* `Paging.Housed.owned` — whose the frames are, while the heap grows
* `KernelPages.Backs` — how backing a page ends
* `KernelPages.back_of_ready` — backing a page whose table is there
* `KernelPages.release_cases` — releasing a page
-/

namespace TinyKernel

variable {range : FrameRange} {directory : PageDirectory} {dirs held lent : Finset Frame}
  {backed : Finset VirtAddr} {p : Paging} {frames : FrameAllocator} {admits : Fault → Prop}

/-! ## Whose the frames are -/

theorem Owned.housed (h : Owned range directory dirs held backed p frames) :
    p.Housed range dirs frames := by
  obtain ⟨lent, hlends, shares⟩ := h.lends
  exact ⟨h.spaces, lent, hlends, shares.dirs_subset, shares.tables_subset⟩

/-- As long as no page of the heap is looked at, what is neither a directory nor a table counts as held
by clients. -/
theorem Paging.Housed.owned (h : p.Housed range dirs frames) (hd : directory.frame ∈ dirs) :
    ∃ held, Owned range directory dirs held ∅ p frames := by
  obtain ⟨lent, hlends, hdirs, htables⟩ := h.lends
  have happart : ∀ f ∈ dirs, f ∉ p.tableFrames dirs := fun f hf => (h.spaces.apart hf).2
  refine ⟨lent \ (dirs ∪ p.tableFrames dirs), h.spaces, hd, by simp, by simp, by simp, lent, hlends,
    ?_⟩
  rw [Paging.pageFrames, Finset.biUnion_empty]
  constructor
  · intro f
    have hdir := @hdirs f
    have htable := @htables f
    simp only [Finset.mem_sdiff, Finset.mem_union, Finset.notMem_empty]
    tauto
  · intro f
    have hf := happart f
    simp only [Finset.mem_sdiff, Finset.mem_union, Finset.notMem_empty]
    tauto

namespace KernelPages

variable {s s' : KernelPages} {page : VirtAddr} {f t : Frame}

/-- **Nothing changes beside frames and entries**: the processor is as it was, the directories are
those that there were, and memory is as large. -/
structure Resembles (s s' : KernelPages) : Prop where
  cpu_eq : s'.cpu = s.cpu
  kernel?_eq : s'.paging.kernel? = s.paging.kernel?
  current?_eq : s'.paging.current? = s.paging.current?
  size_eq : s'.paging.ram.tables.size = s.paging.ram.tables.size

theorem Resembles.refl (s : KernelPages) : s.Resembles s := ⟨rfl, rfl, rfl, rfl⟩

theorem Resembles.trans {s'' : KernelPages} (h : s.Resembles s') (h' : s'.Resembles s'') :
    s.Resembles s'' where
  cpu_eq := h'.cpu_eq.trans h.cpu_eq
  kernel?_eq := h'.kernel?_eq.trans h.kernel?_eq
  current?_eq := h'.current?_eq.trans h.current?_eq
  size_eq := h'.size_eq.trans h.size_eq

/-! ## One page -/

/-- **How backing a page ends.**  A frame is taken, a table is found, and the entry of the page is
written; or there is no frame, or no table and no frame for one, and nothing changes. -/
inductive Backs (range : FrameRange) (dirs : Finset Frame) (page : VirtAddr) (s : KernelPages) :
    Except MapError Unit → KernelPages → Prop where
  | mapped {f t : Frame} {frames₁ : FrameAllocator} {lent lent' : Finset Frame} {p₁ : Paging}
      {s' : KernelPages} (lends : s.frames.Lends range lent) (hdirs : dirs ⊆ lent)
      (htables : s.paging.tableFrames dirs ⊆ lent)
      (alloc : s.frames.alloc = .ok (some f.start, frames₁)) (fresh : f ∉ lent)
      (lends₁ : frames₁.Lends range (insert f lent))
      (table : s.paging.TableFor s.directory.frame page.directoryIndex .writable (insert f lent) t p₁
        lent')
      (paging_eq : s'.paging = p₁.withEntry t page.tableIndex (.ofFrame f (.writable ||| .present)))
      (lends' : s'.frames.Lends range lent') (cpu_eq : s'.cpu = s.cpu) :
      Backs range dirs page s (.ok ()) s'
  | noFrame (cause : MapError) (none_left : s.frames.spare range.total = 0) :
      Backs range dirs page s (.error cause) s
  | noTable (cause : MapError)
      (absent : s.paging.target? s.directory.frame page.directoryIndex = none)
      (one_left : s.frames.spare s.paging.ram.tables.size ≤ 1) :
      Backs range dirs page s (.error cause) s

/-- **Backing a page ends** in one of these ways.  In the last two nothing has changed: a frame that
was taken for the page has come back, with the hint of the allocator. -/
theorem back_cases (h : s.paging.Housed range dirs s.frames) (hd : s.directory.frame ∈ dirs)
    (page : VirtAddr) :
    (PageSource.back page s).Meets admits fun (result, s') => Backs range dirs page s result s' := by
  obtain ⟨lent, hlends, hdirs, htables⟩ := h.lends
  obtain ⟨frame?, frames₁, halloc, hframe⟩ := hlends.alloc_ok
  refine Run.meets_lift_bind halloc ?_
  cases frame? with
  | none =>
      obtain ⟨rfl, hspare⟩ := hlends.of_alloc_none halloc
      exact Run.meets_pure (.noFrame _ (hspare _))
  | some address =>
      obtain ⟨f, rfl, hfresh, hlends₁⟩ := hframe
      have hdirs₁ := hdirs.trans (Finset.subset_insert f lent)
      have htables₁ := htables.trans (Finset.subset_insert f lent)
      have hmap : (s.paging.map frames₁ s.directory page f.start .writable).Meets admits _ :=
        h.spaces.map_cases hd hlends₁ hdirs₁ htables₁ page f.start .writable
      have hrefused : (s.paging.map frames₁ s.directory page f.start .writable).Meets admits _ :=
        h.spaces.map_refused hd hlends₁ hdirs₁ htables₁ page f.start .writable
      refine (hmap.and hrefused).bind ?_
      rintro ⟨result, p', frames'⟩ ⟨hmapped, hrefused⟩
      cases result with
      | ok =>
          obtain ⟨⟨_, ⟨⟩⟩, -⟩ | ⟨-, t, p₁, lent', htable, rfl, hlends'⟩ := hmapped
          rw [f.frame_start]
          exact Run.meets_pure
            (.mapped hlends hdirs htables halloc hfresh hlends₁ htable rfl hlends' rfl)
      | error cause =>
          obtain ⟨habsent, rfl, rfl, hspare⟩ := hrefused cause rfl
          have hspares : (frames'.free f.start).Meets admits _ := hlends₁.spare_free f.start
          refine ((hlends.free_of_alloc halloc hlends₁ hfresh).and hspares).bind ?_
          rintro frames'' ⟨rfl, hone⟩
          have hone := hone s.paging.ram.tables.size
          rw [hspare] at hone
          exact Run.meets_pure (.noTable cause habsent hone)

/-- **Where the table is ready**, a page lacks nothing but a frame.  Then backing it writes one
entry. -/
theorem back_of_ready (hlends : s.frames.Lends range lent)
    (ready : s.paging.Ready s.directory.frame page.directoryIndex .writable)
    (ht : s.paging.target? s.directory.frame page.directoryIndex = some t)
    (hreach : s.paging.ram.reaches t = true) :
    (PageSource.back page s).Meets admits fun (result, s') =>
      match result with
      | .ok () => ∃ f : Frame, s.frames.alloc = .ok (some f.start, s'.frames)
          ∧ s'.paging = s.paging.withEntry t page.tableIndex (.ofFrame f (.writable ||| .present))
      | .error _ => s' = s := by
  obtain ⟨frame?, frames₁, halloc, hframe⟩ := hlends.alloc_ok
  refine Run.meets_lift_bind halloc ?_
  cases frame? with
  | none =>
      obtain ⟨rfl, -⟩ := hlends.of_alloc_none halloc
      exact Run.meets_pure rfl
  | some address =>
      obtain ⟨f, rfl, -, -⟩ := hframe
      simp only [Paging.map_of_ready ready ht hreach, pure_bind, f.frame_start]
      exact Run.meets_pure ⟨f, halloc, rfl⟩

/-- **A page that is mapped is released**: its entry is emptied, its translation is forgotten, and its
frame goes back. -/
theorem release_cases {P : FrameAllocator → Prop}
    (hpage : s.paging.frameOf? s.directory.frame page = some f)
    (hfree : (s.frames.free f.start).Meets admits P) :
    (PageSource.release page s).Meets admits fun s' =>
      P s'.frames ∧ s'.cpu = s.cpu.flushTlb ∧ ∃ t,
        s.paging.target? s.directory.frame page.directoryIndex = some t
          ∧ s'.paging = s.paging.withEntry t page.tableIndex .empty := by
  obtain ⟨t, ht, hunmap⟩ := Paging.unmap_of_mapped s.cpu hpage
  show (KernelPages.release page s).Meets _ _
  unfold KernelPages.release
  rw [hunmap]
  exact hfree.bind fun frames' hP => Run.meets_pure ⟨hP, rfl, t, ht, rfl⟩

/-- A page that is not mapped is not released, and no translation is forgotten for it. -/
theorem release_of_unmapped (hpage : s.paging.frameOf? s.directory.frame page = none) :
    PageSource.release page s = pure s := by
  show KernelPages.release page s = _
  unfold KernelPages.release
  rw [Paging.unmap_of_unmapped s.cpu hpage]

/-- Directories and tables stay apart when a page is backed, the new table included if there is one. -/
theorem Backs.housed {result : Except MapError Unit} (ends : Backs range dirs page s result s')
    (h : s.paging.Housed range dirs s.frames) (hd : s.directory.frame ∈ dirs) :
    s'.paging.Housed range dirs s'.frames := by
  cases ends with
  | noFrame | noTable => exact h
  | @mapped f _ _ lent _ _ _ _ hdirs htables _ _ _ table paging_eq lends' _ =>
      have hdirs₁ := hdirs.trans (Finset.subset_insert f lent)
      have htables₁ := htables.trans (Finset.subset_insert f lent)
      obtain ⟨h₁, ht, hgrow, -⟩ := h.spaces.tableFor hd hdirs₁ htables₁ table
      rw [paging_eq]
      refine ⟨h₁.written hd ht _, _, lends', ?_⟩
      rw [h₁.tableFrames_written hd ht]
      exact hgrow.subset hdirs₁ htables₁

/-- **A page that is backed** is mapped, as any page is; what holds of mapping in general holds
here. -/
theorem Backs.writesPage (ends : Backs range dirs page s (.ok ()) s')
    (h : s.paging.Housed range dirs s.frames) (hd : s.directory.frame ∈ dirs) :
    s'.cpu = s.cpu ∧ ∃ f t,
      s.paging.WritesPage dirs s.directory.frame page f .writable t s'.paging := by
  cases ends with
  | @mapped f t _ lent _ _ _ _ hdirs htables _ _ _ table paging_eq _ cpu_eq =>
      have hsub := Finset.subset_insert f lent
      rw [paging_eq]
      exact ⟨cpu_eq, f, t, h.spaces.writesPage hd (hdirs.trans hsub) (htables.trans hsub) table f⟩

/-- Beside frames and entries, nothing changes when a page is backed. -/
theorem Backs.resembles {result : Except MapError Unit} (ends : Backs range dirs page s result s') :
    s.Resembles s' := by
  cases ends with
  | noFrame | noTable => exact .refl s
  | mapped _ _ _ _ _ _ table paging_eq _ cpu_eq =>
      constructor
      case cpu_eq => exact cpu_eq
      all_goals rw [paging_eq]
      case kernel?_eq => exact table.kernel?_eq
      case current?_eq => exact table.current?_eq
      case size_eq => rw [Paging.size_withEntry, table.size_eq]

end KernelPages

/-! ## One outcome -/

theorem FrameAllocator.free_determined (a : FrameAllocator) (address : PhysAddr) :
    (a.free address).Determined := by
  unfold free
  dsimp only
  split
  · exact (Run.determined_log _ _).bind fun _ => Run.determined_pure _
  split
  · refine (Run.determined_lift _).bind fun used => ?_
    split
    · exact (Run.determined_lift _).bind fun _ => Run.determined_pure _
    · exact (Run.determined_log _ _).bind fun _ => Run.determined_pure _
  · exact (Run.determined_log _ _).bind fun _ => Run.determined_pure _

namespace Paging

theorem allocateTable_determined (p : Paging) (frames : FrameAllocator) :
    (p.allocateTable frames).Determined := by
  refine (Run.determined_lift _).bind ?_
  rintro ⟨frame?, frames'⟩
  cases frame? with
  | none => exact Run.determined_pure _
  | some address =>
      dsimp only
      split
      · exact Run.determined_pure _
      · exact (frames'.free_determined address).bind fun _ => Run.determined_pure _

theorem tableFor_determined (p : Paging) (frames : FrameAllocator) (directory : PageDirectory)
    (address : VirtAddr) (flags : PageFlags) :
    (p.tableFor frames directory address flags).Determined := by
  unfold tableFor
  dsimp only
  split
  · exact Run.determined_pure _
  split
  · split <;> exact Run.determined_pure _
  · refine (p.allocateTable_determined frames).bind ?_
    rintro ⟨result, p', frames'⟩
    cases result <;> exact Run.determined_pure _

theorem map_determined (p : Paging) (frames : FrameAllocator) (directory : PageDirectory)
    (address : VirtAddr) (target : PhysAddr) (flags : PageFlags) :
    (p.map frames directory address target flags).Determined := by
  refine (p.tableFor_determined frames directory address flags).bind ?_
  rintro ⟨result, p', frames'⟩
  cases result <;> exact Run.determined_pure _

end Paging

namespace KernelPages

theorem back_determined (page : VirtAddr) (s : KernelPages) :
    (PageSource.back page s).Determined := by
  refine (Run.determined_lift _).bind ?_
  rintro ⟨frame?, frames⟩
  cases frame? with
  | none => exact Run.determined_pure _
  | some frame =>
      refine (s.paging.map_determined frames _ _ _ _).bind ?_
      rintro ⟨result, p', frames'⟩
      cases result with
      | ok => exact Run.determined_pure _
      | error cause => exact (frames'.free_determined frame).bind fun _ => Run.determined_pure _

theorem release_determined (page : VirtAddr) (s : KernelPages) :
    (PageSource.release page s).Determined := by
  show (KernelPages.release page s).Determined
  unfold KernelPages.release
  split
  · exact Run.determined_pure _
  · exact (s.frames.free_determined _).bind fun _ => Run.determined_pure _

end KernelPages

/-- **Growth of the kernel heap has one outcome.**  No step of it looks at the console, or at anything
but the kernel's own pages. -/
theorem KernelPages.backRange_determined (start : VirtAddr) (origin bytes : Nat) (s : KernelPages) :
    (backRange start origin bytes s).Determined :=
  TinyKernel.backRange_determined back_determined release_determined start origin bytes s

namespace Heap

theorem expand_determined (h : Heap) (pages : KernelPages) (size : Nat) :
    (h.expand pages size).Determined := by
  refine (Run.determined_lift _).bind fun room => ?_
  split
  · exact (Run.determined_log _ _).bind fun _ => Run.determined_pure _
  refine (Run.determined_lift _).bind fun needed => (Run.determined_lift _).bind fun rounded => ?_
  refine (KernelPages.backRange_determined _ _ _ _).bind ?_
  rintro ⟨result, pages'⟩
  cases result with
  | error refusal => exact (Run.determined_log _ _).bind fun _ => Run.determined_pure _
  | ok =>
      refine (Run.determined_lift _).bind fun _ => (Run.determined_lift _).bind fun payload => ?_
      refine (Run.determined_lift _).bind fun h₁ => (Run.determined_lift _).bind fun h₂ => ?_
      refine (Run.determined_lift _).bind fun h₃ => ?_
      exact (Run.determined_log _ _).bind fun _ => Run.determined_pure _

/-- **So has an allocation** from the kernel heap.  What one run of it ends in is what every run ends
in. -/
theorem alloc_determined (h : Heap) (pages : KernelPages) (size : Nat) :
    (h.alloc pages size).Determined := by
  unfold alloc
  split
  · exact Run.determined_pure _
  refine (Run.determined_lift _).bind fun most => ?_
  split
  · exact Run.determined_pure _
  refine (Run.determined_lift _).bind fun size => (Run.determined_lift _).bind fun found? => ?_
  cases found? with
  | some offset => exact (Run.determined_lift _).bind fun _ => Run.determined_pure _
  | none =>
      refine (h.expand_determined pages size).bind ?_
      rintro ⟨grown, h', pages'⟩
      cases grown with
      | false => exact (Run.determined_log _ _).bind fun _ => Run.determined_pure _
      | true =>
          refine (Run.determined_lift _).bind fun found? => ?_
          cases found? with
          | none => exact Run.determined_pure _
          | some offset => exact (Run.determined_lift _).bind fun _ => Run.determined_pure _

end Heap

end TinyKernel
