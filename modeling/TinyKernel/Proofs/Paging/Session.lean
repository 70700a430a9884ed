import TinyKernel.Proofs.Paging.Spaces

/-!
# Sessions of paging

Paging over some memory together with a client, who builds directories, maps and unmaps pages in
them, and takes frames from the same allocator that the page tables come from.  There is one rule for
the client: it does not give back a frame that is a directory or a page table at that moment.

## What is load-bearing

The client cannot tell from an address whether a page table will be put there, and it may map any
page to any frame, also to one that holds a table.  What keeps tables apart is the allocator alone: a
frame that is in use as a directory or a table is lent out (`Paging.Housed`), so no new table is ever
put into it.

* `Paging.Housed` — directories and tables are kept apart, in frames that are lent out
* `PagingSession` — paging with its client
* `PagingSession.execute_meets` — the invariant of all sessions
-/

namespace TinyKernel

/-! ## Frames for directories and tables -/

theorem PageDirectory.frame_mem {d : PageDirectory} {created : List PageDirectory}
    (hd : d ∈ created) : d.frame ∈ (created.map PageDirectory.frame).toFinset :=
  List.mem_toFinset.mpr (List.mem_map_of_mem hd)

namespace Paging

/-- **Directories and tables are kept apart, in frames that are lent out.**  Other frames may be lent
out as well, and nothing is said about who has them: a frame that is taken is then neither a directory
nor a table. -/
structure Housed (range : FrameRange) (dirs : Finset Frame) (p : Paging) (frames : FrameAllocator) :
    Prop where
  spaces : p.Spaces dirs
  lends : ∃ lent, frames.Lends range lent ∧ dirs ⊆ lent ∧ p.tableFrames dirs ⊆ lent

variable {p : Paging} {frames : FrameAllocator} {range : FrameRange} {dirs lent : Finset Frame}
  {d : PageDirectory} {admits : Fault → Prop}

theorem TablesGrow.subset {p' : Paging} {lent' : Finset Frame}
    (grow : TablesGrow dirs p lent p' lent') (hdirs : dirs ⊆ lent)
    (htables : p.tableFrames dirs ⊆ lent) :
    dirs ⊆ lent' ∧ p'.tableFrames dirs ⊆ lent' := by
  rcases grow with ⟨rfl, heq⟩ | ⟨t, -, rfl, heq⟩
  · rw [heq]
    exact ⟨hdirs, htables⟩
  · rw [heq]
    exact ⟨hdirs.trans (Finset.subset_insert ..), Finset.insert_subset_insert t htables⟩

namespace Housed

/-- Whoever takes a frame does not take one of a directory or a table.  There may be none, and that is
an answer as well. -/
theorem alloc_ok (h : Housed range dirs p frames) :
    ∃ frame? frames', frames.alloc = .ok (frame?, frames') ∧ Housed range dirs p frames' := by
  obtain ⟨lent, hlends, hdirs, htables⟩ := h.lends
  obtain ⟨frame?, frames', halloc, hframe⟩ := hlends.alloc_ok
  refine ⟨frame?, frames', halloc, h.spaces, ?_⟩
  cases frame? with
  | none => exact ⟨lent, hframe, hdirs, htables⟩
  | some address =>
      obtain ⟨f, -, -, hlends'⟩ := hframe
      exact ⟨_, hlends', hdirs.trans (Finset.subset_insert ..),
        htables.trans (Finset.subset_insert ..)⟩

/-- **A frame is given back** that is neither a directory nor a table.  Whether it was lent out at all
does not matter; a frame that is not used is ignored. -/
theorem free_meets (h : Housed range dirs p frames) {address : PhysAddr}
    (hdir : address.frame ∉ dirs) (htable : address.frame ∉ p.tableFrames dirs) :
    (frames.free address).Meets admits (Housed range dirs p) := by
  obtain ⟨lent, hlends, hdirs, htables⟩ := h.lends
  refine (hlends.free_meets address).imp fun frames' hlends' => ⟨h.spaces, _, hlends', ?_, ?_⟩
  · exact Finset.subset_erase.mpr ⟨hdirs, hdir⟩
  · exact Finset.subset_erase.mpr ⟨htables, htable⟩

/-- **A directory more**, if one can be had.  Otherwise the directories are those that there were. -/
theorem createDirectory_meets (h : Housed range dirs p frames) :
    (p.createDirectory frames).Meets admits fun (directory?, p', frames') =>
      match directory? with
      | none => Housed range dirs p' frames'
      | some d => Housed range (insert d.frame dirs) p' frames' := by
  obtain ⟨lent, hlends, hdirs, htables⟩ := h.lends
  refine (h.spaces.createDirectory_meets hlends hdirs htables).imp ?_
  rintro ⟨directory?, p', frames'⟩ hcreated
  cases directory? with
  | none =>
      obtain ⟨rfl, hlends'⟩ := hcreated
      exact ⟨h.spaces, lent, hlends', hdirs, htables⟩
  | some d =>
      obtain ⟨-, hlends', spaces, hsame, -⟩ := hcreated
      refine ⟨spaces, _, hlends', Finset.insert_subset_insert _ hdirs, ?_⟩
      rw [hsame]
      exact htables.trans (Finset.subset_insert ..)

/-- **A page is mapped**, to any frame and with any flags.  It stays as it was which directory is the
kernel's.  A refused mapping meets this as well. -/
theorem map_meets (h : Housed range dirs p frames) (hd : d.frame ∈ dirs) (v : VirtAddr)
    (target : PhysAddr) (flags : PageFlags) :
    (p.map frames d v target flags).Meets admits fun (_, p', frames') =>
      Housed range dirs p' frames' ∧ p'.kernel? = p.kernel? := by
  obtain ⟨lent, hlends, hdirs, htables⟩ := h.lends
  refine (h.spaces.map_cases hd hlends hdirs htables v target flags).imp ?_
  rintro ⟨result, p', frames'⟩ (⟨-, rfl, hlends'⟩ | ⟨-, t, p₁, lent', hfor, rfl, hlends'⟩)
  · exact ⟨⟨h.spaces, lent, hlends', hdirs, htables⟩, rfl⟩
  · obtain ⟨h₁, ht, hgrow, -⟩ := h.spaces.tableFor hd hdirs htables hfor
    refine ⟨⟨h₁.written hd ht _, lent', hlends', ?_⟩, hfor.kernel?_eq⟩
    rw [h₁.tableFrames_written hd ht]
    exact hgrow.subset hdirs htables

/-- **A page is unmapped.**  Its table stays, even if nothing is left in it, and so does the frame that
the page went to. -/
theorem unmap (h : Housed range dirs p frames) (hd : d.frame ∈ dirs) (cpu : Cpu) (v : VirtAddr) :
    Housed range dirs (p.unmap cpu d v).2.1 frames := by
  obtain ⟨-, spaces, hsame, -⟩ := h.spaces.unmap hd cpu v
  refine ⟨spaces, ?_⟩
  rw [hsame]
  exact h.lends

/-- Which directory is the current one makes no difference, and the kernel's can be any of them.  It
must be one of them, because new directories copy from it. -/
theorem withKernel (h : Housed range dirs p frames) {kernel? : Option PageDirectory}
    (hkernel : ∀ d ∈ kernel?, d.frame ∈ dirs) (current? : Option PageDirectory) :
    Housed range dirs { p with kernel?, current? } frames where
  spaces := ⟨h.spaces.reaches, h.spaces.reaches_table, h.spaces.table_not_mem, h.spaces.region_eq,
    hkernel⟩
  lends := h.lends

/-- A zeroed frame that was not lent out becomes a directory, and refers to nothing. -/
theorem zeroed (h : p.Spaces dirs) (hdirs : dirs ⊆ lent) (htables : p.tableFrames dirs ⊆ lent)
    {f : Frame} (hfresh : f ∉ lent) (hreach : p.ram.reaches f = true)
    (hlends : frames.Lends range (insert f lent)) :
    Housed range (insert f dirs) (p.withZeroed f) frames := by
  obtain ⟨spaces, hsame, -⟩ :=
    h.zeroed (fun hmem => hfresh (hdirs hmem)) (fun hmem => hfresh (htables hmem)) hreach
  refine ⟨spaces, _, hlends, Finset.insert_subset_insert f hdirs, ?_⟩
  rw [hsame]
  exact htables.trans (Finset.subset_insert ..)

/-- Directories that are forgotten stay lent out.  It is needed where a directory was begun and not
answered: its frames are lost, and harm nobody. -/
theorem subset (h : Housed range dirs p frames) {dirs' : Finset Frame} (hsub : dirs' ⊆ dirs)
    (hkernel : ∀ d ∈ p.kernel?, d.frame ∈ dirs') : Housed range dirs' p frames := by
  obtain ⟨lent, hlends, hdirs, htables⟩ := h.lends
  exact ⟨h.spaces.subset hsub hkernel, lent, hlends, hsub.trans hdirs,
    (tableFrames_mono hsub).trans htables⟩

/-- **The kernel's directory is built**, or a part of it that nobody gets to know of.  The frames of
that part are not given back. -/
theorem start_meets (h : Housed range dirs p frames) :
    (p.start frames).Meets admits fun (started, p', frames') =>
      match started with
      | .error _ => Housed range dirs p' frames'
      | .ok d => Housed range (insert d.frame dirs) p' frames' := by
  obtain ⟨lent, hlends, hdirs, htables⟩ := h.lends
  refine (Paging.start_meets (I := fun d q frames =>
    Housed range (insert d.frame dirs) q frames ∧ q.kernel? = p.kernel?) hlends ?_ ?_).imp ?_
  · intro d frames₁ hfresh hreach hlends₁
    exact ⟨zeroed h.spaces hdirs htables hfresh hreach hlends₁, rfl⟩
  · rintro d q frames₁ ⟨hq, hkernel⟩ address target
    refine (hq.map_meets (Finset.mem_insert_self ..) _ target _).imp fun _ hmapped => ?_
    exact ⟨hmapped.1, hmapped.2.trans hkernel⟩
  · rintro ⟨started, p', frames'⟩ hstarted
    cases started with
    | error cause =>
        rcases hstarted with ⟨rfl, hlends'⟩ | ⟨d, hp', hkernel⟩
        · exact ⟨h.spaces, lent, hlends', hdirs, htables⟩
        · refine hp'.subset (Finset.subset_insert ..) ?_
          rw [hkernel]
          exact h.spaces.kernel_mem
    | ok d =>
        obtain ⟨q, ⟨hq, -⟩, rfl⟩ := hstarted
        refine hq.withKernel ?_ (some d)
        rintro k ⟨⟩
        exact Finset.mem_insert_self ..

end Housed

end Paging

/-! ## Sessions -/

/-- **What a client can ask of paging**, and of the frame allocator beside it.  Frames are taken and
given back at any moment, so that nothing can rely on having the allocator to itself. -/
inductive PagingCall where
  | start
  | createDirectory
  | map (directory : PageDirectory) (address : VirtAddr) (target : PhysAddr) (flags : PageFlags)
  | unmap (directory : PageDirectory) (address : VirtAddr)
  | switch (directory : PageDirectory)
  | allocFrame
  | freeFrame (address : PhysAddr)

/-- **Paging with its client.**  The client remembers which directories it was given, and that is all
that its rules depend on. -/
structure PagingSession where
  paging : Paging
  frames : FrameAllocator
  cpu : Cpu
  /-- The directories that the client was given. -/
  created : List PageDirectory

namespace PagingSession

/-- The frames that hold directories, as far as the client was given them. -/
def directoryFrames (s : PagingSession) : Finset Frame := (s.created.map PageDirectory.frame).toFinset

/-- The frames that hold page tables.  They are read off memory, and so need no record. -/
def tableFrames (s : PagingSession) : Finset Frame := s.paging.tableFrames s.directoryFrames

/-- **Whether a call keeps to the rules.**  The client works on directories that it was given, and
gives no frame back that holds a directory or a table.  It may switch to any directory, and free any
other address. -/
def permits (s : PagingSession) : PagingCall → Bool
  | .map d _ _ _ => d ∈ s.created
  | .unmap d _ => d ∈ s.created
  | .freeFrame address => address.frame ∉ s.directoryFrames ∧ address.frame ∉ s.tableFrames
  | _ => true

/-- A call is made, and the client writes down which directories it is given.  Answers other than those
are not kept. -/
def make (s : PagingSession) : PagingCall → Run PagingSession
  | .start => do
    let (started, paging, frames) ← s.paging.start s.frames
    pure { s with paging, frames, created := started.toOption.toList ++ s.created }
  | .createDirectory => do
    let (directory?, paging, frames) ← s.paging.createDirectory s.frames
    pure { s with paging, frames, created := directory?.toList ++ s.created }
  | .map d address target flags => do
    let (_, paging, frames) ← s.paging.map s.frames d address target flags
    pure { s with paging, frames }
  | .unmap d address => do
    let (_, paging, cpu) := s.paging.unmap s.cpu d address
    pure { s with paging, cpu }
  | .switch d => do
    let (paging, cpu) := s.paging.switch s.cpu d
    pure { s with paging, cpu }
  | .allocFrame => do
    let (_, frames) ← s.frames.alloc
    pure { s with frames }
  | .freeFrame address => do
    let frames ← s.frames.free address
    pure { s with frames }

/-- **One call**, which is made if it keeps to the rules.  A call that does not is left out, and the
session goes on. -/
def step (s : PagingSession) (call : PagingCall) : Run PagingSession :=
  if s.permits call then s.make call else pure s

/-- Calls, one after the other, until one of them faults; it is proved that none does. -/
def run (s : PagingSession) : List PagingCall → Run PagingSession
  | [] => pure s
  | call :: calls => do
    let s ← s.step call
    s.run calls

/-- **A whole session**: over some memory, with all frames free that are not reserved.  Memory may hold
anything at first, and need not be as large as the allocator takes it to be. -/
def execute (ram : Ram) (memoryTop reservedTop : UInt32) (calls : List PagingCall) :
    Run PagingSession := do
  let frames ← FrameAllocator.init memoryTop reservedTop
  run { paging := .ofRam ram, frames, cpu := .reset, created := [] } calls

/-- **The invariant of a session**: the directories that the client was given are housed. -/
def Consistent (range : FrameRange) (s : PagingSession) : Prop :=
  s.paging.Housed range s.directoryFrames s.frames

variable {s : PagingSession} {range : FrameRange} {d : PageDirectory} {admits : Fault → Prop}

theorem mem_directoryFrames (hd : d ∈ s.created) : d.frame ∈ s.directoryFrames :=
  PageDirectory.frame_mem hd

/-- A call that keeps to the rules preserves the invariant, and does not fault.  There is one case for
each call. -/
theorem make_meets (c : s.Consistent range) {call : PagingCall} (hpermits : s.permits call = true) :
    (s.make call).Meets admits (Consistent range) := by
  cases call with
  | start =>
      refine c.start_meets.bind fun (started, p', frames') hstarted => Run.meets_pure ?_
      cases started with
      | error cause => exact hstarted
      | ok d =>
          simpa [Consistent, directoryFrames, Except.toOption] using hstarted
  | createDirectory =>
      refine c.createDirectory_meets.bind fun (directory?, p', frames') hcreated =>
        Run.meets_pure ?_
      cases directory? with
      | none => exact hcreated
      | some d =>
          simpa [Consistent, directoryFrames] using hcreated
  | map d v target flags =>
      have hd := mem_directoryFrames (of_decide_eq_true hpermits)
      exact (c.map_meets hd v target flags).bind fun _ hmapped => Run.meets_pure hmapped.1
  | unmap d v =>
      have hd := mem_directoryFrames (of_decide_eq_true hpermits)
      exact Run.meets_pure (Paging.Housed.unmap c hd s.cpu v)
  | switch d => exact Run.meets_pure (c.withKernel c.spaces.kernel_mem (some d))
  | allocFrame =>
      obtain ⟨address?, frames', halloc, h⟩ := c.alloc_ok
      exact Run.meets_lift_bind halloc (Run.meets_pure h)
  | freeFrame address =>
      obtain ⟨hdir, htable⟩ := of_decide_eq_true hpermits
      exact (c.free_meets hdir htable).bind fun _ h => Run.meets_pure h

theorem step_meets (c : s.Consistent range) (call : PagingCall) :
    (s.step call).Meets admits (Consistent range) := by
  unfold step
  split
  case isTrue hpermits => exact make_meets c hpermits
  case isFalse => exact Run.meets_pure c

theorem run_meets (c : s.Consistent range) (calls : List PagingCall) :
    (s.run calls).Meets admits (Consistent range) := by
  induction calls generalizing s with
  | nil => exact Run.meets_pure c
  | cons call calls ih => exact (step_meets c call).bind fun s' c' => ih c'

/-- **The invariant holds throughout every session**, and no session ends in a fault.  The laws of
mapping and unmapping take it from here. -/
theorem execute_meets (ram : Ram) (memoryTop reservedTop : UInt32) (calls : List PagingCall) :
    (execute ram memoryTop reservedTop calls).Meets admits
      (Consistent (.ofMemory memoryTop reservedTop)) := by
  refine (FrameAllocator.init_lends memoryTop reservedTop).bind fun frames hlends => ?_
  exact run_meets ⟨Paging.Spaces.empty rfl, ∅, hlends, Finset.empty_subset _, Finset.empty_subset _⟩
    calls

end PagingSession

end TinyKernel
