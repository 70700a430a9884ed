import TinyKernel.Proofs.Paging.Session

/-!
# What mapping a page changes

Mapping a page in one directory is seen in every directory that has the same page table for the
region of the page, and in no other one.  All other pages stay where they are, in all directories.

## What is load-bearing

Whether two directories share a table is asked before the page is mapped.  If the region has no table
then the one that is made for it is shared with nobody, also where the kernel's directory or another
one has a table for the same region.

* `Paging.SharesTable` — two directories have one table for the region of an address
* `Paging.MapsPage` — what becomes of each translation
* `PagingSession.execute_mapsPage` — mapping does that, throughout every session
-/

namespace TinyKernel

namespace Paging

/-- **Two directories share the page table** for the region of an address.  They share it with all
pages of that region or with none; a directory without a table there shares nothing, not even with
itself. -/
def SharesTable (p : Paging) (d e : PageDirectory) (v : VirtAddr) : Prop :=
  ∃ t, p.target? d.frame v.directoryIndex = some t ∧ p.target? e.frame v.directoryIndex = some t

/-- **A page is mapped**, that of an address to the frame of another one, in one of several
directories.  The fields go through all addresses and all directories: nothing is left open about what
else may have changed. -/
structure MapsPage (p p' : Paging) (dirs : List PageDirectory) (d : PageDirectory) (v : VirtAddr)
    (target : PhysAddr) : Prop where
  /-- Every address of the page goes to the same place in the frame. -/
  here : ∀ w, v.SamePage w → (p'.translate d w).map (fun a => a.val.toNat)
    = some (target.frame.start.val.toNat + w.pageOffset.toNat)
  elsewhere : ∀ e ∈ dirs, ∀ w, ¬ v.SamePage w → p'.translate e w = p.translate e w
  shared : ∀ e ∈ dirs, p.SharesTable d e v → ∀ w, v.SamePage w →
    p'.translate e w = p'.translate d w
  unshared : ∀ e ∈ dirs, e ≠ d → ¬ p.SharesTable d e v → ∀ w, v.SamePage w →
    p'.translate e w = p.translate e w

variable {p : Paging}

/-! ## Who has the table that is found -/

namespace Spaces

variable {p₁ : Paging} {dirs lent lent' : Finset Frame} {d e : PageDirectory} {t : Frame}
  {v : VirtAddr} {flags : PageFlags}

/-- **Who shared the table with a directory** has the table that is found for it, since that is the one
that both had. -/
theorem target?_of_sharesTable (h : p.Spaces dirs) (hdirs : dirs ⊆ lent)
    (htables : p.tableFrames dirs ⊆ lent)
    (hfor : TableFor p d.frame v.directoryIndex flags lent t p₁ lent') (he : e.frame ∈ dirs)
    (hshares : p.SharesTable d e v) : p₁.target? e.frame v.directoryIndex = some t := by
  obtain ⟨hbefore, hentry⟩ := h.target?_tableFor hdirs htables hfor
  obtain ⟨t', hdt, het⟩ := hshares
  have heq : t' = t := by
    rcases hbefore with hbefore | ⟨hbefore, -⟩
    · exact Option.some.inj (hdt.symm.trans hbefore)
    · rw [hbefore] at hdt
      cases hdt
  rw [hentry _ he]
  split
  · rfl
  · rw [het, heq]

/-- **Who did not share it** does not have the table that is found, be it an old or a new one.  A new
one lies in a frame that nobody refers to. -/
theorem target?_ne_of_not_sharesTable (h : p.Spaces dirs) (hdirs : dirs ⊆ lent)
    (htables : p.tableFrames dirs ⊆ lent)
    (hfor : TableFor p d.frame v.directoryIndex flags lent t p₁ lent') (he : e.frame ∈ dirs)
    (hne : e.frame ≠ d.frame) (hshares : ¬ p.SharesTable d e v) :
    p₁.target? e.frame v.directoryIndex ≠ some t := by
  obtain ⟨hbefore, hentry⟩ := h.target?_tableFor hdirs htables hfor
  rw [hentry _ he, if_neg fun heq => hne heq.1]
  intro het
  rcases hbefore with hbefore | ⟨-, hunused⟩
  · exact hshares ⟨t, hbefore, het⟩
  · exact hunused (mem_tableFrames.mpr ⟨_, he, _, het⟩)

end Spaces

/-! ## The law -/

namespace Housed

variable {range : FrameRange} {frames : FrameAllocator} {created : List PageDirectory}
  {d : PageDirectory} {flags : PageFlags} {admits : Fault → Prop}

/-- **Mapping maps one page**, where it succeeds.  The flags must have names only, since a flag without
one could not be told from the address of the frame in an entry. -/
theorem map_mapsPage (h : Housed range (created.map PageDirectory.frame).toFinset p frames)
    (hd : d ∈ created) (v : VirtAddr) (target : PhysAddr) (hnamed : flags.named = flags) :
    (p.map frames d v target flags).Meets admits fun (result, p', _) =>
      result = .ok () → MapsPage p p' created d v target := by
  obtain ⟨lent, hlends, hdirs, htables⟩ := h.lends
  have hmem : ∀ e ∈ created, e.frame ∈ _ := fun e => PageDirectory.frame_mem
  have hd' := hmem d hd
  refine (h.spaces.map_cases hd' hlends hdirs htables v target flags).imp ?_
  rintro ⟨result, p', frames'⟩ (⟨⟨cause, rfl⟩, -⟩ | ⟨rfl, t, p₁, lent', hfor, rfl, -⟩) hok
  · cases hok
  -- the table is found first, which changes no translation, and then an entry of it is written
  obtain ⟨h₁, ht, -, hframe⟩ := h.spaces.tableFor hd' hdirs htables hfor
  have hleaf := target?_leaf target.frame hnamed
  generalize PageTableEntry.ofFrame target.frame (flags ||| .present) = leaf at hleaf ⊢
  have hhere : ∀ w, v.SamePage w →
      (p₁.withEntry t v.tableIndex leaf).frameOf? d.frame w = some target.frame := fun w hw =>
    (h₁.frameOf?_written_of_samePage hd' ht leaf hw).trans hleaf
  refine ⟨fun w hw => translate_toNat (hhere w hw), fun e he w hw => ?_,
    fun e he hshares w hw => ?_, fun e he hne hshares w hw => ?_⟩
  · refine translate_congr ?_
    rw [h₁.frameOf?_written hd' ht leaf (hmem e he) hw, hframe _ (hmem e he)]
  · have het := h.spaces.target?_of_sharesTable hdirs htables hfor (hmem e he) hshares
    refine translate_congr ?_
    rw [hhere w hw, h₁.frameOf?_written_of_samePage (hmem e he) het leaf hw, hleaf]
  · have hframes : e.frame ≠ d.frame := fun heq => hne (congrArg PageDirectory.mk heq)
    have hnot := h.spaces.target?_ne_of_not_sharesTable hdirs htables hfor (hmem e he) hframes hshares
    refine translate_congr ?_
    rw [h₁.frameOf?_written_of_not hd' ht leaf (hmem e he) fun heq => hnot heq.1,
      hframe _ (hmem e he)]

end Housed

end Paging

/-- **Mapping a page changes that page**, where it is seen, and nothing else.  This holds throughout
every session, whatever the memory holds at first and however much of it can be reached, for all
addresses and all flags with names. -/
theorem PagingSession.execute_mapsPage (ram : Ram) (memoryTop reservedTop : UInt32)
    (calls : List PagingCall) :
    (PagingSession.execute ram memoryTop reservedTop calls).Meets (fun _ => False) fun s =>
      ∀ d ∈ s.created, ∀ v target flags, PageFlags.named flags = flags →
        (s.paging.map s.frames d v target flags).Meets (fun _ => False) fun (result, p', _) =>
          result = .ok () → Paging.MapsPage s.paging p' s.created d v target :=
  (execute_meets ram memoryTop reservedTop calls).imp fun _ c _ hd v target _ hnamed =>
    Paging.Housed.map_mapsPage c hd v target hnamed

end TinyKernel
