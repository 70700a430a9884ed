import TinyKernel.Proofs.Paging.MapLaw

/-!
# What unmapping a page changes

Unmapping a page in one directory takes it away from every directory that has the same page table for
its region, and from no other one.  The other pages stay where they are, and so do the entries of the
directories: a page table is kept, also when the last page in it is gone.

## What is load-bearing

The entry that is emptied is found by way of one directory and is read by way of all that have the
table.  That it stands for the same page in all of them is the invariant of address spaces, and not
something that unmapping could check.

* `Paging.UnmapsPage` — what becomes of translations
* `PagingSession.execute_unmapsPage` — unmapping does that, throughout every session
-/

namespace TinyKernel

namespace Paging

variable {p : Paging} {cpu : Cpu} {d : PageDirectory} {v : VirtAddr} {f : Frame}

/-! ## What becomes of translations -/

/-- **A page is unmapped**, that of an address, in one of several directories.  Like the record for
mapping it goes through all addresses and all directories, so that nothing is left open. -/
structure UnmapsPage (p : Paging) (cpu : Cpu) (dirs : List PageDirectory) (d : PageDirectory)
    (v : VirtAddr) : Prop where
  /-- The answer is the frame that the page went to, if there is one. -/
  answer : (p.unmap cpu d v).1 = (p.translate d v).map fun a => a.frame.start
  /-- Without a mapping nothing happens. -/
  idle : p.translate d v = none → (p.unmap cpu d v).2 = (p, cpu)
  /-- One flush for the page, whichever directory the processor uses. -/
  flushes : (p.translate d v).isSome = true →
    (p.unmap cpu d v).2.2 = { cpu with tlbFlushes := cpu.tlbFlushes + 1 }
  /-- The page is gone from every directory that has the table. -/
  here : (p.translate d v).isSome = true → ∀ e ∈ dirs, p.SharesTable d e v → ∀ w, v.SamePage w →
    (p.translate e w).isSome = true ∧ (p.unmap cpu d v).2.1.translate e w = none
  /-- Other pages keep their translation, and so does the page where the table is not shared. -/
  elsewhere : ∀ e ∈ dirs, ∀ w, ¬ (p.SharesTable d e v ∧ v.SamePage w) →
    (p.unmap cpu d v).2.1.translate e w = p.translate e w
  /-- No entry of a directory changes. -/
  directories : ∀ e ∈ dirs, ∀ i,
    (p.unmap cpu d v).2.1.ram.read? e.frame i = p.ram.read? e.frame i
  /-- The page cannot be unmapped again. -/
  again : ∀ cpu' w, v.SamePage w → ((p.unmap cpu d v).2.1.unmap cpu' d w).1 = none

/-- The answer of unmapping, in terms of the translation before: the frame, and not the address in
it. -/
theorem unmap_fst : (p.unmap cpu d v).1 = (p.translate d v).map fun a => a.frame.start := by
  rw [← Function.comp_def Frame.start PhysAddr.frame, ← Option.map_map, translate_map_frame]
  cases h : p.frameOf? d.frame v with
  | none =>
      rw [unmap_of_unmapped _ h]
      rfl
  | some f =>
      obtain ⟨t, -, heq⟩ := unmap_of_mapped cpu h
      rw [heq]
      rfl

namespace Spaces

variable {dirs : Finset Frame} {t d' : Frame} {w : VirtAddr} {e : PageTableEntry}

/-- **Unmapping unmaps one page**, and does nothing where it is not mapped.  No frame is needed for
that, so the allocator does not occur. -/
theorem unmapsPage {created : List PageDirectory}
    (h : p.Spaces (created.map PageDirectory.frame).toFinset) (hd : d ∈ created) (cpu : Cpu)
    (v : VirtAddr) : p.UnmapsPage cpu created d v := by
  have hmem : ∀ e ∈ created, e.frame ∈ _ := fun e => PageDirectory.frame_mem
  have hanswer : (p.unmap cpu d v).1 = _ := unmap_fst
  cases hmapped : p.frameOf? d.frame v with
  | none =>
      have hnone : ¬ (p.translate d v).isSome = true := by
        rw [isSome_translate, hmapped]
        exact Bool.false_ne_true
      refine ⟨hanswer, fun _ => ?_, fun hsome => absurd hsome hnone,
        fun hsome => absurd hsome hnone, ?_, ?_, fun cpu' w hw => ?_⟩
      all_goals rw [unmap_of_unmapped _ hmapped]
      · exact fun _ _ _ _ => rfl
      · exact fun _ _ _ => rfl
      · rw [unmap_of_unmapped _ ((frameOf?_congr hw).trans hmapped)]
  | some f =>
      obtain ⟨t, ht, hunmap⟩ := unmap_of_mapped cpu hmapped
      -- who shares the table of the page has the one that is written
      have hshares : ∀ {e : PageDirectory},
          p.SharesTable d e v ↔ p.target? e.frame v.directoryIndex = some t := by
        intro e
        refine ⟨fun ⟨t', hdt, het⟩ => ?_, fun het => ⟨t, ht, het⟩⟩
        exact Option.some.inj (ht.symm.trans hdt) ▸ het
      have hself : (p.withEntry t v.tableIndex .empty).frameOf? d.frame v = none :=
        h.frameOf?_written_self (hmem d hd) ht .empty
      refine ⟨hanswer, fun hnone => ?_, fun _ => ?_, fun _ e he hshared w hw => ⟨?_, ?_⟩,
        fun e he w hnot => ?_, fun e he i => ?_, fun cpu' w hw => ?_⟩
      · rw [translate_eq_none_iff, hmapped] at hnone
        cases hnone
      · rw [hunmap]
        rfl
      · have hsame : p.frameOf? e.frame v = p.frameOf? d.frame v := by
          rw [frameOf?, frameOf?, hshares.mp hshared, ht]
        rw [isSome_translate, frameOf?_congr hw, hsame, hmapped, Option.isSome_some]
      · rw [hunmap, translate_eq_none_iff]
        exact h.frameOf?_written_of_samePage (hmem e he) (hshares.mp hshared) .empty hw
      · rw [hunmap]
        refine translate_congr (h.frameOf?_written_of_not (hmem d hd) ht .empty (hmem e he) ?_)
        exact fun heq => hnot ⟨hshares.mpr heq.1, heq.2⟩
      · have hne : e.frame ≠ t := fun heq =>
          h.table_not_mem _ (hmem d hd) _ t ht (heq ▸ hmem e he)
        rw [hunmap, withEntry, Ram.read?_setEntry, if_neg fun heq => hne heq.1]
      · rw [hunmap, unmap_of_unmapped _ ((frameOf?_congr hw).trans hself)]

end Spaces

end Paging

/-- **Unmapping a page changes that page**, where it is seen, and nothing else.  This holds throughout
every session, for all directories that were created in it and all addresses.  The frames stay with
those who have them; and a page that was just mapped is answered with the frame that it was mapped
to. -/
theorem PagingSession.execute_unmapsPage (ram : Ram) (memoryTop reservedTop : UInt32)
    (calls : List PagingCall) :
    (PagingSession.execute ram memoryTop reservedTop calls).Meets (fun _ => False) fun s =>
      ∀ d ∈ s.created, ∀ v, s.paging.UnmapsPage s.cpu s.created d v
        ∧ ((s.make (.unmap d v)).Meets (fun _ => False) fun s' => s' =
            { s with paging := (s.paging.unmap s.cpu d v).2.1, cpu := (s.paging.unmap s.cpu d v).2.2 })
        ∧ ∀ target flags, PageFlags.named flags = flags →
          (s.paging.map s.frames d v target flags).Meets (fun _ => False) fun (result, p', _) =>
            result = .ok () → ∀ cpu w, v.SamePage w →
              (p'.unmap cpu d w).1 = some target.frame.start := by
  refine (execute_meets ram memoryTop reservedTop calls).imp fun s c d hd v => ⟨?_, ?_, ?_⟩
  · exact Paging.Spaces.unmapsPage (Paging.Housed.spaces c) hd s.cpu v
  · exact Run.meets_pure rfl
  · intro target flags hnamed
    obtain ⟨lent, hlends, hdirs, htables⟩ := Paging.Housed.lends c
    have hspaces : s.paging.Spaces s.directoryFrames := Paging.Housed.spaces c
    refine (hspaces.map_meets (mem_directoryFrames hd) hlends hdirs htables v target flags).imp ?_
    rintro ⟨result, p', frames'⟩ ⟨-, -, -, hmapped⟩ hok cpu w hw
    have hframe : p'.frameOf? d.frame w = some target.frame :=
      (Paging.frameOf?_congr hw).trans ((hmapped hok).trans (Paging.target?_leaf _ hnamed))
    obtain ⟨t, -, hunmap⟩ := Paging.unmap_of_mapped cpu hframe
    rw [hunmap]

end TinyKernel
