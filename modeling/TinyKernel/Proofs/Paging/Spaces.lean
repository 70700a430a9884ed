import Mathlib.Data.Finset.Option
import Mathlib.Data.Finset.Union
import TinyKernel.Proofs.Paging.Tables

/-!
# Address spaces that are kept apart

What the operations on address spaces do to memory, when directories and tables are different frames
and a table belongs to one region of addresses.

## What is load-bearing

A table may be shared, but only at the same place: two directories that refer to one table refer to
it in the same entry (`Paging.Spaces.region_eq`).  So an entry of a table stands for one page, in
every address space that has the table, and writing it changes no other page.

* `Paging.tableFrames`, `Paging.pageFrames` — the frames of tables, and of pages
* `Paging.Spaces` — directories and tables are kept apart
* `Paging.Spaces.map_meets`, `Paging.Spaces.unmap`, `Paging.Spaces.createDirectory_meets` — what the
  operations do
-/

namespace TinyKernel

/-- Two addresses lie in one page.  They go through the same two entries, in whatever directory. -/
def VirtAddr.SamePage (v w : VirtAddr) : Prop :=
  v.directoryIndex = w.directoryIndex ∧ v.tableIndex = w.tableIndex

namespace Paging

/-- **The page tables** that the directories of a set refer to.  A table that several of them share is
counted once. -/
def tableFrames (p : Paging) (dirs : Finset Frame) : Finset Frame :=
  dirs.biUnion fun d => Finset.univ.biUnion fun i => (p.target? d i).toFinset

/-- **The regions that have a table**, in the address space of a directory.  A table may be there with
nothing mapped in it. -/
def regions (p : Paging) (directory : Frame) : Finset (Fin entriesPerTable) :=
  Finset.univ.filter fun i => (p.target? directory i).isSome = true

/-- **The frames that pages go to**, in the address space of a directory.  Pages that are not mapped
add nothing. -/
def pageFrames (p : Paging) (directory : Frame) (pages : Finset VirtAddr) : Finset Frame :=
  pages.biUnion fun page => (p.frameOf? directory page).toFinset

/-- **Directories and tables are kept apart.**  All of them can be reached, no directory is a table,
and a table stands in one region only, although several directories may have it there.  So a write to a
table changes one page, and no directory. -/
structure Spaces (p : Paging) (dirs : Finset Frame) : Prop where
  reaches : ∀ d ∈ dirs, p.ram.reaches d = true
  reaches_table : ∀ d ∈ dirs, ∀ i t, p.target? d i = some t → p.ram.reaches t = true
  table_not_mem : ∀ d ∈ dirs, ∀ i t, p.target? d i = some t → t ∉ dirs
  /-- A table belongs to one region of addresses. -/
  region_eq : ∀ d ∈ dirs, ∀ d' ∈ dirs, ∀ i i' t,
    p.target? d i = some t → p.target? d' i' = some t → i = i'
  kernel_mem : ∀ d ∈ p.kernel?, d.frame ∈ dirs

variable {p p' : Paging} {dirs : Finset Frame} {d t : Frame} {i j : Fin entriesPerTable}
  {v w : VirtAddr} {e : PageTableEntry} {flags : PageFlags}

/-- The addresses of a page go to one frame, since the walk looks at the two indices and not at the
offset. -/
theorem frameOf?_congr (h : v.SamePage w) : p.frameOf? d w = p.frameOf? d v := by
  rw [frameOf?, frameOf?, h.1, h.2]

theorem mem_tableFrames : t ∈ p.tableFrames dirs ↔ ∃ d ∈ dirs, ∃ i, p.target? d i = some t := by
  simp [tableFrames]

theorem mem_regions : i ∈ p.regions d ↔ (p.target? d i).isSome = true := by
  simp [regions]

theorem not_mem_regions : i ∉ p.regions d ↔ p.target? d i = none := by
  rw [mem_regions, Option.not_isSome_iff_eq_none]

/-- A frame that is zeroed is a directory without tables, whether or not it can be reached. -/
theorem regions_withZeroed : (p.withZeroed d).regions d = ∅ := by
  refine Finset.eq_empty_of_forall_notMem fun i => ?_
  rw [not_mem_regions, target?_withZeroed, if_pos rfl]

theorem mem_pageFrames {pages : Finset VirtAddr} {f : Frame} :
    f ∈ p.pageFrames d pages ↔ ∃ page ∈ pages, p.frameOf? d page = some f := by
  simp [pageFrames]

theorem Spaces.apart (h : Spaces p dirs) (hd : d ∈ dirs) :
    p.ram.reaches d = true ∧ d ∉ p.tableFrames dirs := by
  refine ⟨h.reaches d hd, fun hmem => ?_⟩
  obtain ⟨d', hd', i, ht⟩ := mem_tableFrames.mp hmem
  exact h.table_not_mem d' hd' i d ht hd

/-- **One directory has as many tables as regions.**  No table stands in two of them. -/
theorem Spaces.card_tableFrames (h : p.Spaces {d}) : (p.tableFrames {d}).card = (p.regions d).card := by
  have hd := Finset.mem_singleton_self d
  have hget : ∀ i ∈ p.regions d, p.target? d i = some ((p.target? d i).getD d) := by
    intro i hi
    obtain ⟨t, ht⟩ := Option.isSome_iff_exists.mp (mem_regions.mp hi)
    rw [ht, Option.getD_some]
  have himage : p.tableFrames {d} = (p.regions d).image fun i => (p.target? d i).getD d := by
    ext t
    rw [mem_tableFrames, Finset.mem_image]
    constructor
    · rintro ⟨d', hd', i, hi⟩
      obtain rfl := Finset.mem_singleton.mp hd'
      refine ⟨i, mem_regions.mpr (Option.isSome_of_eq_some hi), ?_⟩
      rw [hi, Option.getD_some]
    · rintro ⟨i, hi, rfl⟩
      exact ⟨d, hd, i, hget i hi⟩
  rw [himage, Finset.card_image_of_injOn]
  intro i hi j hj heq
  refine h.region_eq d hd d hd i j _ (hget i hi) ?_
  rw [hget j hj]
  exact congrArg some heq.symm

/-- **What refers to nothing new** is kept apart as before: whatever a directory refers to now, one of
the old directories did at the same place. -/
theorem Spaces.of_target? (h : Spaces p dirs) {dirs' : Finset Frame}
    (hreaches : ∀ f, p'.ram.reaches f = p.ram.reaches f)
    (hapart : ∀ d ∈ dirs', p.ram.reaches d = true ∧ d ∉ p.tableFrames dirs)
    (hfrom : ∀ d ∈ dirs', ∀ i t, p'.target? d i = some t → ∃ k ∈ dirs, p.target? k i = some t)
    (hkernel : ∀ d ∈ p'.kernel?, d.frame ∈ dirs') : Spaces p' dirs' := by
  refine ⟨?_, ?_, ?_, ?_, hkernel⟩
  · intro d hd
    rw [hreaches]
    exact (hapart d hd).1
  · intro d hd i t ht
    obtain ⟨k, hk, hkt⟩ := hfrom d hd i t ht
    rw [hreaches]
    exact h.reaches_table k hk i t hkt
  · intro d hd i t ht hmem
    obtain ⟨k, hk, hkt⟩ := hfrom d hd i t ht
    exact (hapart t hmem).2 (mem_tableFrames.mpr ⟨k, hk, i, hkt⟩)
  · intro d₁ hd₁ d₂ hd₂ i₁ i₂ t ht₁ ht₂
    obtain ⟨k₁, hk₁, hkt₁⟩ := hfrom d₁ hd₁ i₁ t ht₁
    obtain ⟨k₂, hk₂, hkt₂⟩ := hfrom d₂ hd₂ i₂ t ht₂
    exact h.region_eq k₁ hk₁ k₂ hk₂ i₁ i₂ t hkt₁ hkt₂

/-- Some of the directories are kept apart if all are.  The kernel's must be among them. -/
theorem Spaces.subset (h : Spaces p dirs) {dirs' : Finset Frame} (hsub : dirs' ⊆ dirs)
    (hkernel : ∀ d ∈ p.kernel?, d.frame ∈ dirs') : Spaces p dirs' :=
  h.of_target? (fun _ => rfl) (fun _ hd => h.apart (hsub hd)) (fun d hd _ _ ht => ⟨d, hsub hd, ht⟩)
    hkernel

theorem tableFrames_mono {dirs' : Finset Frame} (hsub : dirs' ⊆ dirs) :
    p.tableFrames dirs' ⊆ p.tableFrames dirs :=
  Finset.biUnion_subset_biUnion_of_subset_left _ hsub

/-- Flags that a directory gets are named ones, and mark the entry as present.  They do not run into
the number of the frame. -/
theorem tableFlags_lt (flags : PageFlags) : (tableFlags flags).bits.toNat < 2 ^ 3 := by
  unfold tableFlags
  split <;> decide

theorem tableFlags_present (flags : PageFlags) :
    (tableFlags flags).contains .present = true := by
  unfold tableFlags
  split <;> decide

theorem target?_tableEntry (t : Frame) (flags : PageFlags) :
    (PageTableEntry.ofFrame t (tableFlags flags)).target? = some t :=
  PageTableEntry.target?_ofFrame t
    (Nat.lt_of_lt_of_le (tableFlags_lt flags) (Nat.pow_le_pow_right (by decide) (by decide)))
    (tableFlags_present flags)

/-- The entry of a page with named flags refers to the frame that it was made for.  Other bits would be
added to the number of the frame. -/
theorem target?_leaf (f : Frame) (hnamed : flags.named = flags) :
    (PageTableEntry.ofFrame f (flags ||| .present)).target? = some f := by
  have hlt := PageFlags.named_lt flags
  rw [hnamed] at hlt
  have hor : (flags ||| .present).bits.toNat < 2 ^ 3 := PageFlags.or_lt hlt (by decide)
  exact PageTableEntry.target?_ofFrame f
    (Nat.lt_of_lt_of_le hor (Nat.pow_le_pow_right (by decide) (by decide)))
    (PageFlags.contains_present_or_right flags (by decide))

theorem target?_upgradedEntry (e : PageTableEntry) (flags : PageFlags) :
    (PageTableEntry.ofFrame e.frame (e.flags ||| tableFlags flags)).target? = some e.frame := by
  have hlt : (e.flags ||| tableFlags flags).bits.toNat < 2 ^ 3 :=
    PageFlags.or_lt (PageFlags.named_lt _) (tableFlags_lt flags)
  exact PageTableEntry.target?_ofFrame e.frame
    (Nat.lt_of_lt_of_le hlt (Nat.pow_le_pow_right (by decide) (by decide)))
    (PageFlags.contains_present_or_right _ (tableFlags_present flags))

/-! ## Changes that change no step -/

/-- Two states of memory look the same, step by step, although flags may differ.  All that is said in
terms of `target?` carries over. -/
structure Alike (p p' : Paging) : Prop where
  target?_eq : ∀ f i, p'.target? f i = p.target? f i
  reaches_eq : ∀ f, p'.ram.reaches f = p.ram.reaches f
  kernel_eq : p'.kernel? = p.kernel?

namespace Alike

theorem frameOf?_eq (a : Alike p p') (d : Frame) (w : VirtAddr) : p'.frameOf? d w = p.frameOf? d w := by
  simp only [frameOf?, a.target?_eq]

theorem tableFrames_eq (a : Alike p p') (dirs : Finset Frame) :
    p'.tableFrames dirs = p.tableFrames dirs := by
  simp only [tableFrames, a.target?_eq]

theorem spaces (a : Alike p p') (h : Spaces p dirs) : Spaces p' dirs := by
  refine h.of_target? a.reaches_eq (fun d hd => h.apart hd) (fun d hd i t ht => ?_) ?_
  · exact ⟨d, hd, (a.target?_eq d i).symm.trans ht⟩
  · rw [a.kernel_eq]
    exact h.kernel_mem

/-- An entry is replaced by one that refers to the same frame, as when an entry in use gets flags that
it lacks. -/
theorem withEntry (ht : p.target? d i = some t) (he : e.target? = some t) :
    Alike p (p.withEntry d i e) := by
  refine ⟨fun f j => ?_, fun f => reaches_withEntry, kernel?_withEntry⟩
  rw [target?_withEntry]
  split
  case isFalse => rfl
  case isTrue heq =>
    obtain ⟨rfl, rfl⟩ := heq
    rw [if_pos (reaches_of_target? ht), he, ht]

end Alike

namespace Spaces

/-! ## A table is created -/

section

variable (h : Spaces p dirs) (hd : d ∈ dirs) (hfresh : t ∉ dirs) (he : e.target? = some t)
include h hfresh he

/-- **A fresh table** appears in one directory, and maps nothing.  The other directories, and the other
regions of this one, are as before. -/
theorem target?_created {d' : Frame} (hd' : d' ∈ dirs) (j : Fin entriesPerTable) :
    ((p.withZeroed t).withEntry d i e).target? d' j
      = if d' = d ∧ j = i then some t else p.target? d' j := by
  have hne : d' ≠ t := fun heq => hfresh (heq ▸ hd')
  rw [target?_withEntry, reaches_withZeroed, if_pos (h.reaches d' hd'), he, target?_withZeroed,
    if_neg hne]

omit h hfresh he in
/-- Tables in use are not touched, and a fresh one is empty.  So no translation changes when a table is
created. -/
theorem target?_created_table (hd : d ∈ dirs) {f : Frame} (hf : f ∉ dirs)
    (j : Fin entriesPerTable) :
    ((p.withZeroed t).withEntry d i e).target? f j = if f = t then none else p.target? f j := by
  have hne : ¬ (f = d ∧ j = i) := fun heq => hf (heq.1 ▸ hd)
  rw [target?_withEntry, if_neg hne, target?_withZeroed]

theorem created (hunused : t ∉ p.tableFrames dirs) (hreach : p.ram.reaches t = true) :
    Spaces ((p.withZeroed t).withEntry d i e) dirs := by
  have hold : ∀ d' ∈ dirs, ∀ j, p.target? d' j ≠ some t := fun d' hd' j ht =>
    hunused (mem_tableFrames.mpr ⟨d', hd', j, ht⟩)
  refine ⟨?_, ?_, ?_, ?_, h.kernel_mem⟩
  · intro d' hd'
    rw [reaches_withEntry, reaches_withZeroed]
    exact h.reaches d' hd'
  · intro d' hd' j t' ht'
    rw [h.target?_created hfresh he hd'] at ht'
    rw [reaches_withEntry, reaches_withZeroed]
    split at ht'
    · obtain rfl := Option.some.inj ht'
      exact hreach
    · exact h.reaches_table d' hd' j t' ht'
  · intro d' hd' j t' ht'
    rw [h.target?_created hfresh he hd'] at ht'
    split at ht'
    · obtain rfl := Option.some.inj ht'
      exact hfresh
    · exact h.table_not_mem d' hd' j t' ht'
  · -- the fresh table is in one entry, and what is in the others was there before
    intro d₁ hd₁ d₂ hd₂ i₁ i₂ t' ht₁ ht₂
    rw [h.target?_created hfresh he hd₁] at ht₁
    rw [h.target?_created hfresh he hd₂] at ht₂
    split at ht₁ <;> split at ht₂
    case isTrue.isTrue h₁ h₂ => exact h₁.2.trans h₂.2.symm
    case isTrue.isFalse => exact absurd (ht₂.trans ht₁.symm) (hold d₂ hd₂ i₂)
    case isFalse.isTrue => exact absurd (ht₁.trans ht₂.symm) (hold d₁ hd₁ i₁)
    case isFalse.isFalse => exact h.region_eq d₁ hd₁ d₂ hd₂ i₁ i₂ t' ht₁ ht₂

include hd

theorem tableFrames_created (habsent : p.target? d i = none) :
    ((p.withZeroed t).withEntry d i e).tableFrames dirs = insert t (p.tableFrames dirs) := by
  ext f
  rw [Finset.mem_insert, mem_tableFrames, mem_tableFrames]
  constructor
  · rintro ⟨d', hd', j, hj⟩
    rw [h.target?_created hfresh he hd'] at hj
    split at hj
    · exact Or.inl (Option.some.inj hj).symm
    · exact Or.inr ⟨d', hd', j, hj⟩
  · rintro (rfl | ⟨d', hd', j, hj⟩)
    · exact ⟨d, hd, i, by rw [h.target?_created hfresh he hd, if_pos ⟨rfl, rfl⟩]⟩
    · refine ⟨d', hd', j, ?_⟩
      rw [h.target?_created hfresh he hd', if_neg, hj]
      rintro ⟨rfl, rfl⟩
      rw [habsent] at hj
      cases hj

theorem frameOf?_created (hunused : t ∉ p.tableFrames dirs) (habsent : p.target? d i = none)
    {d' : Frame} (hd' : d' ∈ dirs) (w : VirtAddr) :
    ((p.withZeroed t).withEntry d i e).frameOf? d' w = p.frameOf? d' w := by
  rw [frameOf?, frameOf?, h.target?_created hfresh he hd']
  split
  case isTrue heq =>
    -- the region had no table, and the one that it has now maps nothing
    rw [heq.1, heq.2, habsent, Option.bind_some, target?_created_table hd hfresh, if_pos rfl]
    rfl
  case isFalse =>
    cases ht : p.target? d' w.directoryIndex with
    | none => rfl
    | some t' =>
        have hne : t' ≠ t := fun heq => hunused (mem_tableFrames.mpr ⟨d', hd', _, heq ▸ ht⟩)
        rw [Option.bind_some, Option.bind_some,
          target?_created_table hd (h.table_not_mem d' hd' _ t' ht), if_neg hne]

end

/-! ## An entry of a table is written -/

section

variable (h : Spaces p dirs) (hd : d ∈ dirs) (ht : p.target? d v.directoryIndex = some t)
  (e : PageTableEntry)
include h hd ht

/-- Directories are not touched when an entry of a table is written, because no table is a
directory. -/
theorem target?_written {d' : Frame} (hd' : d' ∈ dirs) (j : Fin entriesPerTable) :
    (p.withEntry t v.tableIndex e).target? d' j = p.target? d' j := by
  rw [target?_withEntry, if_neg]
  rintro ⟨rfl, -⟩
  exact h.table_not_mem d hd _ d' ht hd'

theorem written : Spaces (p.withEntry t v.tableIndex e) dirs := by
  refine h.of_target? (fun _ => reaches_withEntry) (fun d' hd' => h.apart hd') ?_ h.kernel_mem
  intro d' hd' j t' ht'
  exact ⟨d', hd', (h.target?_written hd ht e hd' j).symm.trans ht'⟩

theorem tableFrames_written :
    (p.withEntry t v.tableIndex e).tableFrames dirs = p.tableFrames dirs := by
  ext f
  rw [mem_tableFrames, mem_tableFrames]
  constructor
  · rintro ⟨d', hd', j, hj⟩
    exact ⟨d', hd', j, (h.target?_written hd ht e hd' j).symm.trans hj⟩
  · rintro ⟨d', hd', j, hj⟩
    exact ⟨d', hd', j, (h.target?_written hd ht e hd' j).trans hj⟩

/-- **One page changes**, in every address space that has the table, and no other.  A page of another
region goes through another table, as a table stands in one region only. -/
theorem frameOf?_written {d' : Frame} (hd' : d' ∈ dirs) {w : VirtAddr} (hpage : ¬ v.SamePage w) :
    (p.withEntry t v.tableIndex e).frameOf? d' w = p.frameOf? d' w := by
  rw [frameOf?, frameOf?, h.target?_written hd ht e hd']
  cases ht' : p.target? d' w.directoryIndex with
  | none => rfl
  | some t' =>
      rw [Option.bind_some, Option.bind_some, target?_withEntry, if_neg]
      rintro ⟨rfl, hj⟩
      exact hpage ⟨h.region_eq d hd d' hd' _ _ t' ht ht', hj.symm⟩

omit h hd ht in
/-- The page does not change in an address space with another table, or with none: its walk does not
come to the entry. -/
theorem frameOf?_written_of_ne {d' : Frame} (hne : d' ≠ t)
    (ht' : p.target? d' v.directoryIndex ≠ some t) :
    (p.withEntry t v.tableIndex e).frameOf? d' v = p.frameOf? d' v := by
  rw [frameOf?, frameOf?, target?_withEntry, if_neg fun heq => hne heq.1]
  cases htable : p.target? d' v.directoryIndex with
  | none => rfl
  | some t' =>
      have hother : t' ≠ t := fun heq => ht' (heq ▸ htable)
      rw [Option.bind_some, Option.bind_some, target?_withEntry, if_neg fun heq => hother heq.1]

theorem frameOf?_written_self : (p.withEntry t v.tableIndex e).frameOf? d v = e.target? := by
  rw [frameOf?, h.target?_written hd ht e hd, ht, Option.bind_some, target?_withEntry,
    if_pos ⟨rfl, rfl⟩, if_pos (h.reaches_table d hd _ t ht)]

/-- **The entry of a page counts** in every address space that has the table, and for all addresses of
the page. -/
theorem frameOf?_written_of_samePage (hpage : v.SamePage w) :
    (p.withEntry t v.tableIndex e).frameOf? d w = e.target? :=
  (frameOf?_congr hpage).trans (h.frameOf?_written_self hd ht e)

/-- **Nothing else changes**: no other page, and not the page in an address space with another table.
Both cases of the laws of mapping and unmapping are taken from here. -/
theorem frameOf?_written_of_not {d' : Frame} (hd' : d' ∈ dirs)
    (hnot : ¬ (p.target? d' v.directoryIndex = some t ∧ v.SamePage w)) :
    (p.withEntry t v.tableIndex e).frameOf? d' w = p.frameOf? d' w := by
  by_cases hpage : v.SamePage w
  case neg => exact h.frameOf?_written hd ht e hd' hpage
  case pos =>
    have hne : d' ≠ t := fun heq => h.table_not_mem _ hd _ t ht (heq ▸ hd')
    rw [frameOf?_congr hpage, frameOf?_congr hpage]
    exact frameOf?_written_of_ne e hne fun ht' => hnot ⟨ht', hpage⟩

end

end Spaces

/-! ## Mapping -/

/-- **What mapping takes from the allocator**: nothing, or one frame that becomes a table.  Nothing is
given back in either case. -/
def TablesGrow (dirs : Finset Frame) (p : Paging) (lent : Finset Frame) (p' : Paging)
    (lent' : Finset Frame) : Prop :=
  (lent' = lent ∧ p'.tableFrames dirs = p.tableFrames dirs)
    ∨ ∃ t, t ∉ lent ∧ lent' = insert t lent ∧ p'.tableFrames dirs = insert t (p.tableFrames dirs)

namespace Spaces

variable {lent lent' : Finset Frame}

/-- **However a table is found**, one entry refers to it, and no other entry of a directory changes.
If the entry did not refer to it before, then no entry did: nobody has a table that is new. -/
theorem target?_tableFor (h : Spaces p dirs) (hdirs : dirs ⊆ lent)
    (htables : p.tableFrames dirs ⊆ lent) (hfor : TableFor p d i flags lent t p' lent') :
    (p.target? d i = some t ∨ p.target? d i = none ∧ t ∉ p.tableFrames dirs)
      ∧ ∀ d' ∈ dirs, ∀ j, p'.target? d' j = if d' = d ∧ j = i then some t else p.target? d' j := by
  have hkept : p.target? d i = some t → ∀ d' j,
      p.target? d' j = if d' = d ∧ j = i then some t else p.target? d' j := by
    intro ht d' j
    split
    case isFalse => rfl
    case isTrue heq => rw [heq.1, heq.2, ht]
  cases hfor with
  | found e hread hpresent _ =>
      have ht := (target?_of_read? hread).trans (PageTableEntry.target?_of_isPresent hpresent)
      exact ⟨Or.inl ht, fun d' _ j => hkept ht d' j⟩
  | upgraded e hread hpresent =>
      have ht := (target?_of_read? hread).trans (PageTableEntry.target?_of_isPresent hpresent)
      have a := Alike.withEntry ht (target?_upgradedEntry e flags)
      exact ⟨Or.inl ht, fun d' _ j => (a.target?_eq d' j).trans (hkept ht d' j)⟩
  | created e _ hread habsent hfresh hreach =>
      refine ⟨Or.inr ⟨?_, fun hmem => hfresh (htables hmem)⟩, fun d' hd' j => ?_⟩
      · rw [target?_of_read? hread, PageTableEntry.target?, habsent]
        rfl
      · exact h.target?_created (fun hmem => hfresh (hdirs hmem)) (target?_tableEntry t flags) hd' j

/-- However a table is found, no translation changes.  A table that was there gets flags in its
directory at most, and a new one is empty. -/
theorem tableFor (h : Spaces p dirs) (hd : d ∈ dirs) (hdirs : dirs ⊆ lent)
    (htables : p.tableFrames dirs ⊆ lent) (hfor : TableFor p d i flags lent t p' lent') :
    Spaces p' dirs ∧ p'.target? d i = some t ∧ TablesGrow dirs p lent p' lent'
      ∧ ∀ d' ∈ dirs, ∀ w, p'.frameOf? d' w = p.frameOf? d' w := by
  cases hfor with
  | found e hread hpresent _ =>
      have ht := (target?_of_read? hread).trans (PageTableEntry.target?_of_isPresent hpresent)
      exact ⟨h, ht, Or.inl ⟨rfl, rfl⟩, fun _ _ _ => rfl⟩
  | upgraded e hread hpresent =>
      have ht := (target?_of_read? hread).trans (PageTableEntry.target?_of_isPresent hpresent)
      have a := Alike.withEntry ht (target?_upgradedEntry e flags)
      exact ⟨a.spaces h, (a.target?_eq d i).trans ht, Or.inl ⟨rfl, a.tableFrames_eq dirs⟩,
        fun d' _ w => a.frameOf?_eq d' w⟩
  | created e _ hread habsent hfresh hreach =>
      have hnone : p.target? d i = none := by
        rw [target?_of_read? hread, PageTableEntry.target?, habsent]
        rfl
      have hnew : t ∉ dirs := fun hmem => hfresh (hdirs hmem)
      have hunused : t ∉ p.tableFrames dirs := fun hmem => hfresh (htables hmem)
      have he := target?_tableEntry t flags
      refine ⟨h.created hnew he hunused hreach, ?_, Or.inr ⟨t, hfresh, rfl, ?_⟩, ?_⟩
      · rw [h.target?_created hnew he hd, if_pos ⟨rfl, rfl⟩]
      · exact h.tableFrames_created hd hnew he hnone
      · exact fun d' hd' w => h.frameOf?_created hd hnew he hunused hnone hd' w

variable {range : FrameRange} {frames : FrameAllocator} {admits : Fault → Prop}

/-- **Mapping writes one entry of a table**, or does nothing.  The table is there by then, so that the
entry can be written, and the step in which a mapping could fail half way does not arise. -/
theorem map_cases {directory : PageDirectory} (h : Spaces p dirs) (hd : directory.frame ∈ dirs)
    (hlends : frames.Lends range lent) (hdirs : dirs ⊆ lent) (htables : p.tableFrames dirs ⊆ lent)
    (v : VirtAddr) (target : PhysAddr) (flags : PageFlags) :
    (p.map frames directory v target flags).Meets admits fun (result, p', frames') =>
      ((∃ cause, result = .error cause) ∧ p' = p ∧ frames'.Lends range lent)
        ∨ result = .ok () ∧ ∃ t p₁ lent',
          TableFor p directory.frame v.directoryIndex flags lent t p₁ lent'
            ∧ p' = p₁.withEntry t v.tableIndex (.ofFrame target.frame (flags ||| .present))
            ∧ frames'.Lends range lent' := by
  refine (Paging.map_meets hlends directory v target flags).imp ?_
  rintro ⟨result, p', frames'⟩ (hfailed | ⟨t, p₁, lent', hfor, heq, hlends'⟩)
  · exact Or.inl hfailed
  · -- the table is there, so that the entry can be written
    obtain ⟨h₁, ht, -, -⟩ := h.tableFor hd hdirs htables hfor
    rw [setEntry, if_pos (h₁.reaches_table _ hd _ t ht), Prod.mk.injEq] at heq
    exact Or.inr ⟨heq.1, t, p₁, lent', hfor, heq.2, hlends'⟩

/-- **Mapping changes one page**, or nothing.  A table may be created for it.  This is what the owners
of frames need to know; the law of mapping says more. -/
theorem map_meets {directory : PageDirectory} (h : Spaces p dirs) (hd : directory.frame ∈ dirs)
    (hlends : frames.Lends range lent) (hdirs : dirs ⊆ lent) (htables : p.tableFrames dirs ⊆ lent)
    (v : VirtAddr) (target : PhysAddr) (flags : PageFlags) :
    (p.map frames directory v target flags).Meets admits fun (result, p', frames') =>
      Spaces p' dirs ∧ (∃ lent', frames'.Lends range lent' ∧ TablesGrow dirs p lent p' lent')
        ∧ (∀ d' ∈ dirs, ∀ w, ¬ v.SamePage w → p'.frameOf? d' w = p.frameOf? d' w)
        ∧ (result = .ok () → p'.frameOf? directory.frame v
            = (PageTableEntry.ofFrame target.frame (flags ||| .present)).target?) := by
  refine (h.map_cases hd hlends hdirs htables v target flags).imp ?_
  rintro ⟨result, p', frames'⟩ (⟨⟨cause, rfl⟩, rfl, hlends'⟩ | ⟨rfl, t, p₁, lent', hfor, rfl, hlends'⟩)
  · refine ⟨h, ⟨lent, hlends', Or.inl ⟨rfl, rfl⟩⟩, fun _ _ _ _ => rfl, fun hok => ?_⟩
    cases hok
  · obtain ⟨h₁, ht, hgrow, hframe⟩ := h.tableFor hd hdirs htables hfor
    generalize PageTableEntry.ofFrame target.frame (flags ||| .present) = e
    refine ⟨h₁.written hd ht e, ⟨lent', hlends', ?_⟩, fun d' hd' w hw => ?_, fun _ => ?_⟩
    · rw [TablesGrow, h₁.tableFrames_written hd ht e]
      exact hgrow
    · exact (h₁.frameOf?_written hd ht e hd' hw).trans (hframe d' hd' w)
    · exact h₁.frameOf?_written_self hd ht e

/-- **Unmapping writes one entry of a table**, or does nothing where nothing is mapped.  It needs no
invariant, since both are read off the walk. -/
theorem unmap_cases (p : Paging) (cpu : Cpu) (directory : PageDirectory) (v : VirtAddr) :
    (p.unmap cpu directory v).1 = (p.frameOf? directory.frame v).map Frame.start
      ∧ ((p.frameOf? directory.frame v = none ∧ (p.unmap cpu directory v).2.1 = p)
        ∨ ∃ t, p.target? directory.frame v.directoryIndex = some t
          ∧ (p.unmap cpu directory v).2.1 = p.withEntry t v.tableIndex .empty) := by
  cases h : p.frameOf? directory.frame v with
  | none =>
      rw [unmap_of_unmapped cpu h]
      exact ⟨rfl, Or.inl ⟨rfl, rfl⟩⟩
  | some f =>
      obtain ⟨t, ht, heq⟩ := unmap_of_mapped cpu h
      rw [heq]
      exact ⟨rfl, Or.inr ⟨t, ht, rfl⟩⟩

/-- **Unmapping changes one page**, and answers the frame that it went to.  The tables stay, and the
page is mapped no more. -/
theorem unmap {directory : PageDirectory} (h : Spaces p dirs) (hd : directory.frame ∈ dirs)
    (cpu : Cpu) (v : VirtAddr) :
    (p.unmap cpu directory v).1 = (p.frameOf? directory.frame v).map Frame.start
      ∧ Spaces (p.unmap cpu directory v).2.1 dirs
      ∧ (p.unmap cpu directory v).2.1.tableFrames dirs = p.tableFrames dirs
      ∧ (∀ d' ∈ dirs, ∀ w, ¬ v.SamePage w →
          (p.unmap cpu directory v).2.1.frameOf? d' w = p.frameOf? d' w)
      ∧ (p.unmap cpu directory v).2.1.frameOf? directory.frame v = none := by
  obtain ⟨hanswer, ⟨hnone, heq⟩ | ⟨t, ht, heq⟩⟩ := unmap_cases p cpu directory v
  · rw [heq]
    exact ⟨hanswer, h, rfl, fun _ _ _ _ => rfl, hnone⟩
  · rw [heq]
    refine ⟨hanswer, h.written hd ht .empty, h.tableFrames_written hd ht .empty, ?_, ?_⟩
    · exact fun d' hd' w hw => h.frameOf?_written hd ht .empty hd' hw
    · exact h.frameOf?_written_self hd ht .empty

end Spaces

/-! ## A directory more -/

/-- **Copying entries** from one frame to another changes the entries of the other that are copied.
Only those in use are; the rest of the target, and every other frame, stays as it is. -/
theorem copyEntries_spec {source target : Frame} (hne : source ≠ target)
    (hsource : p.ram.reaches source = true) (htarget : p.ram.reaches target = true)
    (l : List (Fin entriesPerTable)) :
    (∀ f j, (p.copyEntries source target l).target? f j =
        if f = target ∧ j ∈ l ∧ (p.target? source j).isSome then p.target? source j
        else p.target? f j)
      ∧ (∀ f, (p.copyEntries source target l).ram.reaches f = p.ram.reaches f)
      ∧ (p.copyEntries source target l).kernel? = p.kernel? := by
  induction l generalizing p with
  | nil => exact ⟨fun f j => by simp [copyEntries], fun _ => rfl, rfl⟩
  | cons i rest ih =>
      obtain ⟨e, he⟩ := Option.isSome_iff_exists.mp ((Ram.reaches_iff_read? i).mp hsource)
      have hte : p.target? source i = e.target? := by rw [target?, he, Option.bind_some]
      rw [copyEntries, he]
      by_cases hpresent : e.isPresent = true
      case neg =>
        obtain ⟨htargets, hreaches, hkernel⟩ := ih hsource htarget
        simp only [if_neg hpresent]
        refine ⟨fun f j => ?_, hreaches, hkernel⟩
        have hnone : p.target? source i = none := by rw [hte, PageTableEntry.target?, if_neg hpresent]
        rw [htargets]
        by_cases hji : j = i
        · simp [hji, hnone]
        · simp [hji]
      case pos =>
        obtain ⟨htargets, hreaches, hkernel⟩ :=
          ih (p := p.withEntry target i e) (reaches_withEntry.trans hsource)
            (reaches_withEntry.trans htarget)
        simp only [if_pos hpresent]
        refine ⟨fun f j => ?_, fun f => (hreaches f).trans reaches_withEntry, hkernel⟩
        have hsource' : ∀ j, (p.withEntry target i e).target? source j = p.target? source j := by
          intro j
          rw [target?_withEntry, if_neg]
          rintro ⟨heq, -⟩
          exact hne heq
        have hsome : e.target? = some e.frame := by rw [PageTableEntry.target?, if_pos hpresent]
        refine (htargets f j).trans ?_
        rw [hsource', target?_withEntry]
        by_cases hf : f = target
        case neg => simp [hf]
        case pos =>
        subst hf
        by_cases hji : j = i
        · subst hji
          simp [htarget, hte, hsome]
        · simp [hji]

namespace Spaces

variable {range : FrameRange} {frames : FrameAllocator} {lent : Finset Frame} {admits : Fault → Prop}

/-- A zeroed frame becomes a directory whose entries are those of a directory, or none.  It covers an
empty directory and a copy of the kernel's with one proof. -/
theorem adopted (h : Spaces p dirs) (hfresh : d ∉ dirs) (hunused : d ∉ p.tableFrames dirs)
    (hreach : p.ram.reaches d = true)
    (hreaches : ∀ f, p'.ram.reaches f = p.ram.reaches f) (hkernel : p'.kernel? = p.kernel?)
    (hother : ∀ f, f ≠ d → ∀ j, p'.target? f j = p.target? f j)
    (hcopied : ∀ j, p'.target? d j = none ∨ ∃ k ∈ dirs, p'.target? d j = p.target? k j) :
    Spaces p' (insert d dirs) ∧ p'.tableFrames (insert d dirs) = p.tableFrames dirs
      ∧ ∀ d' ∈ dirs, ∀ w, p'.frameOf? d' w = p.frameOf? d' w := by
  -- whatever a directory refers to now, one of the old directories did at the same place
  have hfrom : ∀ d' ∈ insert d dirs, ∀ j t, p'.target? d' j = some t →
      ∃ k ∈ dirs, p.target? k j = some t := by
    intro d' hd' j t ht
    by_cases heq : d' = d
    · subst heq
      rcases hcopied j with hnone | ⟨k, hk, hcopy⟩
      · rw [hnone] at ht
        cases ht
      · exact ⟨k, hk, hcopy.symm.trans ht⟩
    · exact ⟨d', Finset.mem_of_mem_insert_of_ne hd' heq, (hother d' heq j).symm.trans ht⟩
  refine ⟨h.of_target? hreaches ?_ hfrom ?_, ?_, ?_⟩
  · intro d' hd'
    rcases Finset.mem_insert.mp hd' with rfl | hd'
    · exact ⟨hreach, hunused⟩
    · exact h.apart hd'
  · intro k hk
    rw [hkernel] at hk
    exact Finset.mem_insert_of_mem (h.kernel_mem k hk)
  · ext t
    rw [mem_tableFrames, mem_tableFrames]
    constructor
    · rintro ⟨d', hd', j, hj⟩
      obtain ⟨k, hk, hkt⟩ := hfrom d' hd' j t hj
      exact ⟨k, hk, j, hkt⟩
    · rintro ⟨d', hd', j, hj⟩
      have hne : d' ≠ d := fun heq => hfresh (heq ▸ hd')
      exact ⟨d', Finset.mem_insert_of_mem hd', j, (hother d' hne j).trans hj⟩
  · intro d' hd' w
    have hne : d' ≠ d := fun heq => hfresh (heq ▸ hd')
    rw [frameOf?, frameOf?, hother d' hne]
    cases ht : p.target? d' w.directoryIndex with
    | none => rfl
    | some t =>
        have htne : t ≠ d := fun heq => hunused (mem_tableFrames.mpr ⟨d', hd', _, heq ▸ ht⟩)
        exact hother t htne w.tableIndex

/-- **A zeroed frame** becomes a directory that refers to nothing.  No table is added, and no
translation changes. -/
theorem zeroed (h : Spaces p dirs) (hfresh : d ∉ dirs) (hunused : d ∉ p.tableFrames dirs)
    (hreach : p.ram.reaches d = true) :
    Spaces (p.withZeroed d) (insert d dirs)
      ∧ (p.withZeroed d).tableFrames (insert d dirs) = p.tableFrames dirs
      ∧ ∀ d' ∈ dirs, ∀ w, (p.withZeroed d).frameOf? d' w = p.frameOf? d' w := by
  refine h.adopted hfresh hunused hreach (fun _ => reaches_withZeroed) kernel?_withZeroed
    (fun f hf j => ?_) fun j => Or.inl ?_
  · rw [target?_withZeroed, if_neg hf]
  · rw [target?_withZeroed, if_pos rfl]

/-- Where there is no directory, nothing has to be kept apart, whatever memory holds. -/
theorem empty (hkernel : p.kernel? = none) : Spaces p ∅ := by
  constructor <;> simp [hkernel]

/-- **The first directory** is a zeroed frame, and refers to nothing.  No frame is a table at that
moment. -/
theorem first (hreach : p.ram.reaches d = true) (hkernel : p.kernel? = none) :
    Spaces (p.withZeroed d) {d} ∧ (p.withZeroed d).tableFrames {d} = ∅ := by
  obtain ⟨h, htables, -⟩ :=
    (empty hkernel).zeroed (Finset.notMem_empty d) (Finset.notMem_empty d) hreach
  exact ⟨h, htables.trans Finset.biUnion_empty⟩

/-- **A new directory refers to what the kernel's refers to**, and nothing else changes.  If there is
no kernel's directory yet, it refers to nothing. -/
theorem createDirectory_cases (h : Spaces p dirs) (hlends : frames.Lends range lent)
    (hdirs : dirs ⊆ lent) :
    (p.createDirectory frames).Meets admits fun (directory?, p', frames') =>
      match directory? with
      | none => p' = p ∧ frames'.Lends range lent
      | some directory => directory.frame ∉ lent ∧ p.ram.reaches directory.frame = true
          ∧ frames'.Lends range (insert directory.frame lent)
          ∧ (∀ f, p'.ram.reaches f = p.ram.reaches f) ∧ p'.kernel? = p.kernel?
          ∧ (∀ f, f ≠ directory.frame → ∀ j, p'.target? f j = p.target? f j)
          ∧ ∀ j, p'.target? directory.frame j = p.kernel?.bind fun k => p.target? k.frame j := by
  refine (Paging.createDirectory_meets hlends).imp ?_
  rintro ⟨directory?, p', frames'⟩ hcreated
  cases directory? with
  | none => exact hcreated
  | some directory =>
      obtain ⟨hfresh, hreach, hlends', hp'⟩ := hcreated
      have hall : ∀ j, j ∈ List.finRange entriesPerTable := List.mem_finRange
      generalize List.finRange entriesPerTable = l at hp' hall
      refine ⟨hfresh, hreach, hlends', ?_⟩
      cases hk : p.kernel? with
      | none =>
          rw [hk] at hp'
          subst hp'
          refine ⟨fun _ => reaches_withZeroed, hk, fun f hf j => ?_, fun j => ?_⟩
          · rw [target?_withZeroed, if_neg hf]
          · rw [target?_withZeroed, if_pos rfl]
            rfl
      | some kernel =>
          rw [hk] at hp'
          subst hp'
          have hmem := h.kernel_mem kernel hk
          have hne : kernel.frame ≠ directory.frame := fun heq => hfresh (heq ▸ hdirs hmem)
          obtain ⟨htargets, hreaches, hkernel⟩ := copyEntries_spec hne
            (reaches_withZeroed.trans (h.reaches _ hmem)) (reaches_withZeroed.trans hreach) l
          refine ⟨fun f => (hreaches f).trans reaches_withZeroed, hkernel.trans hk, fun f hf j => ?_,
            fun j => ?_⟩
          · rw [htargets, if_neg fun heq => hf heq.1, target?_withZeroed, if_neg hf]
          · -- an entry is either copied, or as empty as the frame was
            rw [htargets, target?_withZeroed, if_neg hne, target?_withZeroed, if_pos rfl]
            simp only [hall, true_and, Option.bind_some]
            cases p.target? kernel.frame j <;> rfl

/-- **A new directory shares the tables** that there are, and no translation changes.  It takes one
frame, which was not lent out before. -/
theorem createDirectory_meets (h : Spaces p dirs) (hlends : frames.Lends range lent)
    (hdirs : dirs ⊆ lent) (htables : p.tableFrames dirs ⊆ lent) :
    (p.createDirectory frames).Meets admits fun (directory?, p', frames') =>
      match directory? with
      | none => p' = p ∧ frames'.Lends range lent
      | some directory => directory.frame ∉ lent
          ∧ frames'.Lends range (insert directory.frame lent)
          ∧ Spaces p' (insert directory.frame dirs)
          ∧ p'.tableFrames (insert directory.frame dirs) = p.tableFrames dirs
          ∧ ∀ d' ∈ dirs, ∀ w, p'.frameOf? d' w = p.frameOf? d' w := by
  refine (h.createDirectory_cases hlends hdirs).imp ?_
  rintro ⟨directory?, p', frames'⟩ hcreated
  cases directory? with
  | none => exact hcreated
  | some directory =>
      obtain ⟨hfresh, hreach, hlends', hreaches, hkernel, hother, hcopied⟩ := hcreated
      refine ⟨hfresh, hlends', h.adopted (fun hmem => hfresh (hdirs hmem))
        (fun hmem => hfresh (htables hmem)) hreach hreaches hkernel hother fun j => ?_⟩
      cases hk : p.kernel? with
      | none =>
          rw [hcopied, hk]
          exact Or.inl rfl
      | some kernel =>
          rw [hcopied, hk]
          exact Or.inr ⟨kernel.frame, h.kernel_mem kernel hk, rfl⟩

end Spaces

end Paging

end TinyKernel
