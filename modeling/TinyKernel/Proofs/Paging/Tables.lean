import TinyKernel.Proofs.Frames.Lending
import TinyKernel.Proofs.Paging.Walk

/-!
# Where page tables come from

The operations on address spaces, as far as memory and the frame allocator go.  None of them can
fault: they fail with an answer, and a frame that turns out to be of no use goes back.

## What is load-bearing

A page table is found in one of three ways (`Paging.TableFor`), and only one of them takes a frame.
Nothing here is said about what the frames hold, so these contracts are true of all of memory,
whatever was done to it before.

* `Paging.allocateTable_meets`, `Paging.tableFor_meets` — a frame for a table, a table for an address
* `Paging.map_meets`, `Paging.createDirectory_meets`, `Paging.start_meets` — the operations
-/

namespace TinyKernel.Paging

variable {p : Paging} {frames : FrameAllocator} {range : FrameRange} {lent : Finset Frame}
  {admits : Fault → Prop}

/-- **A frame is taken and zeroed**, or nothing happens.  A frame that cannot be reached was given
back, so that a refusal leaves as many lent out as before. -/
theorem allocateTable_meets (h : frames.Lends range lent) :
    (p.allocateTable frames).Meets admits fun (result, p', frames') =>
      match result with
      | .error _ => p' = p ∧ frames'.Lends range lent
      | .ok table => table ∉ lent ∧ p.ram.reaches table = true
          ∧ p' = p.withZeroed table ∧ frames'.Lends range (insert table lent) := by
  obtain ⟨frame?, frames₁, halloc, hframe⟩ := h.alloc_ok
  unfold allocateTable
  refine Run.meets_lift_bind halloc ?_
  cases frame? with
  | none => exact Run.meets_pure ⟨rfl, hframe⟩
  | some address =>
      obtain ⟨table, rfl, hfresh, hlends⟩ := hframe
      simp only [Frame.frame_start]
      split
      case isTrue hreach => exact Run.meets_pure ⟨hfresh, hreach, rfl, hlends⟩
      case isFalse =>
        refine (hlends.free_meets table.start).bind fun frames₂ hlends' => Run.meets_pure ⟨rfl, ?_⟩
        rwa [Frame.frame_start, Finset.erase_insert hfresh] at hlends'

/-- **How the page table for an address is found**: it is there, with the flags that are needed or
without, or it is created.  The result of each way is written out, and later proofs go by these three
cases. -/
inductive TableFor (p : Paging) (directory : Frame) (i : Fin entriesPerTable) (flags : PageFlags)
    (lent : Finset Frame) : Frame → Paging → Finset Frame → Prop where
  | found (e : PageTableEntry) :
      p.ram.read? directory i = some e → e.isPresent = true →
      e.flags.contains (tableFlags flags) = true →
      TableFor p directory i flags lent e.frame p lent
  | upgraded (e : PageTableEntry) :
      p.ram.read? directory i = some e → e.isPresent = true →
      TableFor p directory i flags lent e.frame
        (p.withEntry directory i (.ofFrame e.frame (e.flags ||| tableFlags flags))) lent
  | created (e : PageTableEntry) (table : Frame) :
      p.ram.read? directory i = some e → e.isPresent = false →
      table ∉ lent → p.ram.reaches table = true →
      TableFor p directory i flags lent table
        ((p.withZeroed table).withEntry directory i (.ofFrame table (tableFlags flags)))
        (insert table lent)

/-- Finding a table leaves it to `start` which directory is the kernel's.  In each of the three ways
only memory changes. -/
theorem TableFor.kernel?_eq {p' : Paging} {d t : Frame} {i : Fin entriesPerTable} {flags : PageFlags}
    {lent' : Finset Frame} (hfor : TableFor p d i flags lent t p' lent') : p'.kernel? = p.kernel? := by
  cases hfor <;> rfl

theorem TableFor.current?_eq {p' : Paging} {d t : Frame} {i : Fin entriesPerTable} {flags : PageFlags}
    {lent' : Finset Frame} (hfor : TableFor p d i flags lent t p' lent') :
    p'.current? = p.current? := by
  cases hfor <;> rfl

/-- Finding a table leaves memory as large as it is, and so what can be reached. -/
theorem TableFor.size_eq {p' : Paging} {d t : Frame} {i : Fin entriesPerTable} {flags : PageFlags}
    {lent' : Finset Frame} (hfor : TableFor p d i flags lent t p' lent') :
    p'.ram.tables.size = p.ram.tables.size := by
  cases hfor <;> simp

/-- **A page table for an address** is found in one of the three ways, or nothing happens.  The frame
of a table that could not be entered goes back. -/
theorem tableFor_meets (h : frames.Lends range lent) (directory : PageDirectory)
    (address : VirtAddr) (flags : PageFlags) :
    (p.tableFor frames directory address flags).Meets admits fun (result, p', frames') =>
      match result with
      | .error _ => p' = p ∧ frames'.Lends range lent
      | .ok table => ∃ lent',
          TableFor p directory.frame address.directoryIndex flags lent table p' lent'
            ∧ frames'.Lends range lent' := by
  unfold tableFor
  cases hread : p.ram.read? directory.frame address.directoryIndex with
  | none =>
      simp only [hread]
      exact Run.meets_pure ⟨rfl, h⟩
  | some e =>
      have hreach : p.ram.reaches directory.frame = true := by
        rw [Ram.reaches_iff_read? address.directoryIndex, hread]
        rfl
      simp only [hread, setEntry, if_pos hreach]
      by_cases hpresent : e.isPresent = true
      case pos =>
        rw [if_pos hpresent]
        split
        case isTrue hflags => exact Run.meets_pure ⟨lent, .found e hread hpresent hflags, h⟩
        case isFalse => exact Run.meets_pure ⟨lent, .upgraded e hread hpresent, h⟩
      case neg =>
        rw [if_neg hpresent]
        refine (allocateTable_meets h).bind fun (result, p', frames') hresult => ?_
        cases result with
        | error cause => exact Run.meets_pure hresult
        | ok table =>
            obtain ⟨hfresh, htable, rfl, hlends⟩ := hresult
            simp only [reaches_withZeroed, if_pos hreach]
            exact Run.meets_pure
              ⟨_, .created e table hread (Bool.not_eq_true _ ▸ hpresent) hfresh htable, hlends⟩

/-- **A page is mapped**: a table is found, and an entry of it is written if that can be done. -/
theorem map_meets (h : frames.Lends range lent) (directory : PageDirectory) (address : VirtAddr)
    (target : PhysAddr) (flags : PageFlags) :
    (p.map frames directory address target flags).Meets admits fun (result, p', frames') =>
      ((∃ cause, result = .error cause) ∧ p' = p ∧ frames'.Lends range lent) ∨
        ∃ table p₁ lent',
          TableFor p directory.frame address.directoryIndex flags lent table p₁ lent'
            ∧ (result, p') = p₁.setEntry table address.tableIndex
                (.ofFrame target.frame (flags ||| .present))
            ∧ frames'.Lends range lent' := by
  unfold map
  refine (tableFor_meets h directory address flags).bind fun (result, p₁, frames₁) hresult => ?_
  cases result with
  | error cause => exact Run.meets_pure (Or.inl ⟨⟨cause, rfl⟩, hresult⟩)
  | ok table =>
      obtain ⟨lent', hfor, hlends⟩ := hresult
      exact Run.meets_pure (Or.inr ⟨table, p₁, lent', hfor, rfl, hlends⟩)

/-- **A directory is created**: a zeroed frame, into which the kernel's entries are copied.  Without a
kernel's directory it stays empty. -/
theorem createDirectory_meets (h : frames.Lends range lent) :
    (p.createDirectory frames).Meets admits fun (directory?, p', frames') =>
      match directory? with
      | none => p' = p ∧ frames'.Lends range lent
      | some directory => directory.frame ∉ lent ∧ p.ram.reaches directory.frame = true
          ∧ frames'.Lends range (insert directory.frame lent)
          ∧ p' = match p.kernel? with
            | none => p.withZeroed directory.frame
            | some kernel => (p.withZeroed directory.frame).copyEntries
                kernel.frame directory.frame (List.finRange entriesPerTable) := by
  unfold createDirectory
  refine (allocateTable_meets h).bind fun (result, p', frames') hresult => ?_
  cases result with
  | error cause => exact Run.meets_log_bind (Run.meets_pure hresult)
  | ok table =>
      obtain ⟨hfresh, hreach, rfl, hlends⟩ := hresult
      exact Run.meets_pure ⟨hfresh, hreach, hlends, rfl⟩

/-! ## The first directory -/

/-- A page that is mapped to itself when paging is started, by its number. -/
def identityPage (page : Nat) : VirtAddr := ⟨UInt32.ofNat (page * pageSize)⟩

/-- **Pages are mapped to themselves**, one after the other, until one cannot be.  `I` is what is said of
the pages that are done, and `E` is what a refusal leaves. -/
theorem identityMap_cases {directory : PageDirectory} {I : List Nat → Paging → FrameAllocator → Prop}
    {E : Paging → FrameAllocator → Prop} {done pages : List Nat}
    (keeps : ∀ {done p frames}, I done p frames → ∀ page ∈ pages,
      (p.map frames directory (identityPage page) ⟨(identityPage page).val⟩
          (.present ||| .writable)).Meets admits fun (result, p', frames') =>
        match result with
        | .ok () => I (page :: done) p' frames'
        | .error _ => E p' frames')
    (hI : I done p frames) :
    (p.identityMap frames directory pages).Meets admits fun (result, p', frames') =>
      match result with
      | .ok () => I (pages.reverse ++ done) p' frames'
      | .error _ => E p' frames' := by
  induction pages generalizing p frames done with
  | nil => exact Run.meets_pure hI
  | cons page pages ih =>
      rw [identityMap]
      refine (keeps hI page List.mem_cons_self).bind fun (result, p', frames') hresult => ?_
      cases result with
      | ok =>
          rw [List.reverse_cons, List.append_assoc, List.singleton_append]
          exact ih (fun hI page hpage => keeps hI page (List.mem_cons_of_mem _ hpage)) hresult
      | error cause => exact Run.meets_pure hresult

/-- **How the kernel's directory is built**: from a table, by mapping pages in it, until that fails.
The two parameters are those of `identityMap_cases`; the directory becomes the kernel's and the current
one at the end only. -/
theorem start_cases {I : PageDirectory → List Nat → Paging → FrameAllocator → Prop}
    {E : Paging → FrameAllocator → Prop}
    (fresh : (p.allocateTable frames).Meets admits fun (result, p', frames') =>
      match result with
      | .error _ => E p' frames'
      | .ok frame => I ⟨frame⟩ [] p' frames')
    (keeps : ∀ {directory done p frames}, I directory done p frames →
      ∀ page ∈ List.range (identityMapSize / pageSize),
        (p.map frames directory (identityPage page) ⟨(identityPage page).val⟩
            (.present ||| .writable)).Meets admits fun (result, p', frames') =>
          match result with
          | .ok () => I directory (page :: done) p' frames'
          | .error _ => E p' frames') :
    (p.start frames).Meets admits fun (started, p', frames') =>
      match started with
      | .error _ => E p' frames'
      | .ok directory => ∃ q, I directory (List.range (identityMapSize / pageSize)).reverse q frames'
          ∧ p' = { q with kernel? := some directory, current? := some directory } := by
  unfold start
  revert keeps
  generalize List.range (identityMapSize / pageSize) = pages
  intro keeps
  refine fresh.bind fun (result, p₁, frames₁) hresult => ?_
  cases result with
  | error cause => exact Run.meets_pure hresult
  | ok table =>
      refine (identityMap_cases keeps hresult).bind fun (result, p₂, frames₂) hmapped => ?_
      cases result with
      | error cause => exact Run.meets_pure hmapped
      | ok =>
          rw [List.append_nil] at hmapped
          exact Run.meets_log_bind (Run.meets_pure ⟨p₂, hmapped, rfl⟩)

/-- What is said of the pages that are done stays true of one more, whatever each of them goes to.  If
the kernel's directory cannot be built, then either nothing has happened or the directory is there, with
some of the pages, and is not answered. -/
theorem start_pages {I : PageDirectory → List Nat → Paging → FrameAllocator → Prop}
    (h : frames.Lends range lent)
    (fresh : ∀ {directory : PageDirectory} {frames}, directory.frame ∉ lent →
      p.ram.reaches directory.frame = true → frames.Lends range (insert directory.frame lent) →
        I directory [] (p.withZeroed directory.frame) frames)
    (keeps : ∀ {directory done p frames}, I directory done p frames → ∀ page target,
      (p.map frames directory (identityPage page) target (.present ||| .writable)).Meets admits
        fun (result, p', frames') =>
          match result with
          | .ok () => I directory (page :: done) p' frames'
          | .error _ => I directory done p' frames') :
    (p.start frames).Meets admits fun (started, p', frames') =>
      match started with
      | .error _ => p' = p ∧ frames'.Lends range lent ∨ ∃ directory done, I directory done p' frames'
      | .ok directory => ∃ q, I directory (List.range (identityMapSize / pageSize)).reverse q frames'
          ∧ p' = { q with kernel? := some directory, current? := some directory } := by
  refine start_cases (E := fun p' frames' =>
    p' = p ∧ frames'.Lends range lent ∨ ∃ directory done, I directory done p' frames') ?_ ?_
  · refine (allocateTable_meets h).imp ?_
    rintro ⟨result, p₁, frames₁⟩ hresult
    cases result with
    | error cause => exact Or.inl hresult
    | ok frame =>
        obtain ⟨hfresh, hreach, rfl, hlends⟩ := hresult
        exact fresh hfresh hreach hlends
  · intro directory done q frames₁ hI page _
    refine (keeps hI page _).imp ?_
    rintro ⟨result, q', frames₂⟩ hresult
    cases result with
    | ok => exact hresult
    | error cause => exact Or.inr ⟨directory, done, hresult⟩

/-- What holds however often pages are mapped holds of the kernel's directory, whatever pages are
mapped in it. -/
theorem start_meets {I : PageDirectory → Paging → FrameAllocator → Prop}
    (h : frames.Lends range lent)
    (fresh : ∀ {directory : PageDirectory} {frames}, directory.frame ∉ lent →
      p.ram.reaches directory.frame = true → frames.Lends range (insert directory.frame lent) →
        I directory (p.withZeroed directory.frame) frames)
    (keeps : ∀ {directory p frames}, I directory p frames → ∀ address target,
      (p.map frames directory address target (.present ||| .writable)).Meets admits
        fun (_, p', frames') => I directory p' frames') :
    (p.start frames).Meets admits fun (started, p', frames') =>
      match started with
      | .error _ => p' = p ∧ frames'.Lends range lent ∨ ∃ directory, I directory p' frames'
      | .ok directory => ∃ q, I directory q frames'
          ∧ p' = { q with kernel? := some directory, current? := some directory } := by
  refine (start_pages (I := fun directory _ => I directory) h fresh fun hI page target => ?_).imp ?_
  · refine (keeps hI _ target).imp fun (result, _) hI' => ?_
    cases result <;> exact hI'
  · rintro ⟨started, p', frames'⟩ hstarted
    cases started with
    | ok directory => exact hstarted
    | error cause =>
        rcases hstarted with hnone | ⟨directory, -, hI⟩
        · exact Or.inl hnone
        · exact Or.inr ⟨directory, hI⟩

end TinyKernel.Paging
