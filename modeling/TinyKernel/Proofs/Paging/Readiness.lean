import TinyKernel.Proofs.Frames.Borrowing
import TinyKernel.Proofs.Paging.Spaces

/-!
# What a mapping needs

Mapping a page needs a page table with the right flags.  Where there is one, the page is mapped and no
frame is taken; where it cannot be had, there is no frame left that could become a table, and nothing
has changed at all.

* `Paging.Ready` — a region has its table
* `Paging.map_of_ready` — mapping there is one write
* `Paging.Spaces.map_refused` — what a refusal says, and what it leaves
-/

namespace TinyKernel.Paging

variable {p p' : Paging} {frames : FrameAllocator} {range : FrameRange} {dirs lent lent' : Finset Frame}
  {d t : Frame} {i j : Fin entriesPerTable} {e : PageTableEntry} {flags flags' : PageFlags}
  {admits : Fault → Prop}

/-! ## Regions with a table -/

/-- **A region has its table**, with all the flags that a mapping with the given ones needs.  Which
table it is does not matter here: it is said before the table is known. -/
def Ready (p : Paging) (directory : Frame) (i : Fin entriesPerTable) (flags : PageFlags) : Prop :=
  ∃ e, p.ram.read? directory i = some e ∧ e.isPresent = true
    ∧ e.flags.contains (tableFlags flags) = true

theorem Ready.of_ofFrame (hread : p.ram.read? d i = some (.ofFrame t flags'))
    (hnamed : flags'.bits.toNat < 2 ^ 3) (hpresent : flags'.contains .present = true)
    (hflags : flags'.contains (tableFlags flags) = true) : p.Ready d i flags := by
  refine ⟨_, hread, ?_, ?_⟩
  · rwa [PageTableEntry.isPresent, PageTableEntry.flags_ofFrame, PageFlags.named_of_lt hnamed]
  · rwa [PageTableEntry.flags_ofFrame, PageFlags.named_of_lt hnamed]

/-- Writing to another frame leaves a region as it is: only the frame of the directory is looked at. -/
theorem Ready.withEntry (ready : p.Ready d i flags) (hne : d ≠ t) (j : Fin entriesPerTable)
    (e : PageTableEntry) : (p.withEntry t j e).Ready d i flags := by
  obtain ⟨e', hread, hpresent, hflags⟩ := ready
  refine ⟨e', ?_, hpresent, hflags⟩
  rw [Paging.withEntry, Ram.read?_setEntry, if_neg fun heq => hne heq.1, hread]

/-- A region that has its table refers to it, since its entry is in use. -/
theorem Ready.target? (ready : p.Ready d i flags) : ∃ t, p.target? d i = some t := by
  obtain ⟨e, hread, hpresent, -⟩ := ready
  exact ⟨e.frame, (target?_of_read? hread).trans (PageTableEntry.target?_of_isPresent hpresent)⟩

/-- **Once a table is found**, its region has it, with the flags that were missing before.  A second
mapping in the region then takes nothing. -/
theorem TableFor.ready (hfor : TableFor p d i flags lent t p' lent') (hd : d ∈ lent) :
    p'.Ready d i flags := by
  cases hfor with
  | found e hread hpresent hflags => exact ⟨e, hread, hpresent, hflags⟩
  | upgraded e hread hpresent =>
      have hread' : (p.withEntry d i (.ofFrame e.frame (e.flags ||| tableFlags flags))).ram.read? d i
          = some (.ofFrame e.frame (e.flags ||| tableFlags flags)) := by
        rw [withEntry, Ram.read?_setEntry, if_pos ⟨rfl, rfl⟩, hread, Option.map_some]
      exact .of_ofFrame hread' (PageFlags.or_lt (PageFlags.named_lt _) (tableFlags_lt flags))
        (PageFlags.contains_present_or_right _ (tableFlags_present flags))
        (PageFlags.contains_or_right e.flags _)
  | created e _ hread _ hfresh _ =>
      have hne : d ≠ t := fun heq => hfresh (heq ▸ hd)
      refine .of_ofFrame (t := t) ?_ (tableFlags_lt flags) (tableFlags_present flags) ?_
      · rw [withEntry, Ram.read?_setEntry, if_pos ⟨rfl, rfl⟩, withZeroed, Ram.read?_clearTable,
          if_neg hne, hread, Option.map_some]
      · rw [PageFlags.contains, beq_iff_eq, UInt32.and_self]

/-- A region that has its table keeps it, whatever region a table is found for.  In the same region
flags are only added. -/
theorem TableFor.ready_of_ready (hfor : TableFor p d i flags lent t p' lent') (hd : d ∈ lent)
    (ready : p.Ready d j flags) : p'.Ready d j flags := by
  by_cases hj : j = i
  · exact hj ▸ hfor.ready hd
  have hother : ¬ (d = d ∧ j = i) := fun heq => hj heq.2
  obtain ⟨e', hread', hpresent', hflags'⟩ := ready
  refine ⟨e', ?_, hpresent', hflags'⟩
  cases hfor with
  | found => exact hread'
  | upgraded => rw [withEntry, Ram.read?_setEntry, if_neg hother, hread']
  | created e _ _ _ hfresh _ =>
      have hne : d ≠ t := fun heq => hfresh (heq ▸ hd)
      rw [withEntry, Ram.read?_setEntry, if_neg hother, withZeroed, Ram.read?_clearTable, if_neg hne,
        hread']

/-- **Where a region has its table, mapping is one write**, and takes no frame.  This is an equation
and not a contract, so that later steps rewrite with it. -/
theorem map_of_ready {directory : PageDirectory} {v : VirtAddr}
    (ready : p.Ready directory.frame v.directoryIndex flags)
    (ht : p.target? directory.frame v.directoryIndex = some t) (hreach : p.ram.reaches t = true)
    (target : PhysAddr) :
    p.map frames directory v target flags = pure (.ok (),
      p.withEntry t v.tableIndex (.ofFrame target.frame (flags ||| .present)), frames) := by
  obtain ⟨e, hread, hpresent, hflags⟩ := ready
  have hframe := (target?_of_read? hread).trans (PageTableEntry.target?_of_isPresent hpresent)
  obtain rfl := Option.some.inj (hframe.symm.trans ht)
  simp only [map, tableFor, hread, if_pos hpresent, if_pos hflags, pure_bind, setEntry, if_pos hreach]
  rfl

/-! ## Refusals -/

/-- **No frame can become a table**: none is left among those that can be reached, and nothing has
changed.  A frame out of reach may be left, and was given back. -/
theorem allocateTable_refused (h : frames.Lends range lent) :
    (p.allocateTable frames).Meets admits fun (result, p', frames') => ∀ cause,
      result = .error cause →
        p' = p ∧ frames' = frames ∧ frames.spare p.ram.tables.size = 0 := by
  obtain ⟨frame?, frames₁, halloc, hframe⟩ := h.alloc_ok
  unfold allocateTable
  refine Run.meets_lift_bind halloc ?_
  cases frame? with
  | none =>
      obtain ⟨rfl, hspare⟩ := h.of_alloc_none halloc
      exact Run.meets_pure fun _ _ => ⟨rfl, rfl, hspare _⟩
  | some address =>
      obtain ⟨table, rfl, hfresh, hlends⟩ := hframe
      simp only [Frame.frame_start]
      split
      case isTrue => exact Run.meets_pure nofun
      case isFalse hreach =>
        have hspare : frames.spare p.ram.tables.size = 0 := by
          refine Nat.eq_zero_of_not_pos fun hpos => hreach ?_
          exact decide_eq_true ((h.spare_of_alloc halloc _).2.mp hpos)
        refine (h.free_of_alloc halloc hlends hfresh).bind ?_
        rintro frames₂ rfl
        exact Run.meets_pure fun _ _ => ⟨rfl, rfl, hspare⟩

theorem tableFor_refused (h : frames.Lends range lent) {directory : PageDirectory}
    (hreach : p.ram.reaches directory.frame = true) (v : VirtAddr) (flags : PageFlags) :
    (p.tableFor frames directory v flags).Meets admits fun (result, p', frames') => ∀ cause,
      result = .error cause →
        p.target? directory.frame v.directoryIndex = none ∧ p' = p ∧ frames' = frames
          ∧ frames.spare p.ram.tables.size = 0 := by
  obtain ⟨e, hread⟩ := Option.isSome_iff_exists.mp
    ((Ram.reaches_iff_read? v.directoryIndex).mp hreach)
  unfold tableFor
  simp only [hread, setEntry, if_pos hreach]
  by_cases hpresent : e.isPresent = true
  case pos =>
    rw [if_pos hpresent]
    split <;> exact Run.meets_pure fun _ h => by cases h
  case neg =>
    have hnone : p.target? directory.frame v.directoryIndex = none :=
      (target?_of_read? hread).trans (if_neg hpresent)
    rw [if_neg hpresent]
    have hmeets : (p.allocateTable frames).Meets admits _ := allocateTable_meets h
    refine ((allocateTable_refused h).and hmeets).bind ?_
    rintro ⟨result, p₁, frames₁⟩ ⟨hrefused, htable⟩
    cases result with
    | error cause => exact Run.meets_pure fun _ _ => ⟨hnone, hrefused cause rfl⟩
    | ok table =>
        obtain ⟨-, -, rfl, -⟩ := htable
        simp only [reaches_withZeroed, if_pos hreach]
        exact Run.meets_pure fun _ h => by cases h

/-- **A mapping is refused** only where there is no table, and no frame left for one.  The directory
and its tables are reached, so that a refusal has no other cause. -/
theorem Spaces.map_refused {directory : PageDirectory} (h : Spaces p dirs)
    (hd : directory.frame ∈ dirs) (hlends : frames.Lends range lent) (hdirs : dirs ⊆ lent)
    (htables : p.tableFrames dirs ⊆ lent) (v : VirtAddr) (target : PhysAddr) (flags : PageFlags) :
    (p.map frames directory v target flags).Meets admits fun (result, p', frames') => ∀ cause,
      result = .error cause →
        p.target? directory.frame v.directoryIndex = none ∧ p' = p ∧ frames' = frames
          ∧ frames.spare p.ram.tables.size = 0 := by
  unfold map
  have hmeets : (p.tableFor frames directory v flags).Meets admits _ :=
    tableFor_meets hlends directory v flags
  refine ((tableFor_refused hlends (h.reaches _ hd) v flags).and hmeets).bind ?_
  rintro ⟨result, p₁, frames₁⟩ ⟨hrefused, htable⟩
  cases result with
  | error cause => exact Run.meets_pure fun _ _ => hrefused cause rfl
  | ok t =>
      -- the table can be reached, so that the entry is written
      obtain ⟨lent', hfor, -⟩ := htable
      obtain ⟨h₁, ht, -, -⟩ := h.tableFor hd hdirs htables hfor
      simp only [setEntry, if_pos (h₁.reaches_table _ hd _ t ht)]
      exact Run.meets_pure fun _ h => by cases h

end TinyKernel.Paging
