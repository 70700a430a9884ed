import TinyKernel.Proofs.Paging.Spaces

/-!
# Who owns a frame

Four kinds of owners share the frames that the allocator lends out: directories, page tables, the
pages of the kernel heap, and clients.  No frame has two owners, and none is lent out without one.

## What is load-bearing

A frame that the heap is about to use, or has just given up, is for that moment a frame of a client.
So growth and rollback are made of steps that each hand one frame from one owner to another
(`Owned.hand_over`, `Owned.take_back`), and mapping a page is the same step for the heap as it is for
everybody else (`Owned.map_meets`).

* `Shares` — four sets of frames, of which no two meet, make up what is lent out
* `Owned` — the invariant of frames and memory
* `Owned.alloc_ok`, `Owned.free_meets`, `Owned.createDirectory_meets`, `Owned.map_meets`,
  `Owned.unmap` — what clients ask for keeps to it
-/

namespace TinyKernel

/-! ## Four owners -/

/-- **What is lent out belongs to one of four owners**, and to one only: directories, page tables,
pages of the heap, and what clients hold.  The six pairs are written out, so that each can be used for
a frame at hand. -/
structure Shares (lent dirs tables pages held : Finset Frame) : Prop where
  mem_lent : ∀ f, f ∈ lent ↔ f ∈ dirs ∨ f ∈ tables ∨ f ∈ pages ∨ f ∈ held
  one_owner : ∀ f, ¬ (f ∈ dirs ∧ f ∈ tables) ∧ ¬ (f ∈ dirs ∧ f ∈ pages) ∧ ¬ (f ∈ dirs ∧ f ∈ held)
    ∧ ¬ (f ∈ tables ∧ f ∈ pages) ∧ ¬ (f ∈ tables ∧ f ∈ held) ∧ ¬ (f ∈ pages ∧ f ∈ held)

namespace Shares

variable {lent dirs tables pages held : Finset Frame} {f : Frame}

theorem dirs_subset (h : Shares lent dirs tables pages held) : dirs ⊆ lent :=
  fun f hf => (h.mem_lent f).mpr (Or.inl hf)

theorem tables_subset (h : Shares lent dirs tables pages held) : tables ⊆ lent :=
  fun f hf => (h.mem_lent f).mpr (Or.inr (Or.inl hf))

theorem pages_subset (h : Shares lent dirs tables pages held) : pages ⊆ lent :=
  fun f hf => (h.mem_lent f).mpr (Or.inr (Or.inr (Or.inl hf)))

theorem held_subset (h : Shares lent dirs tables pages held) : held ⊆ lent :=
  fun f hf => (h.mem_lent f).mpr (Or.inr (Or.inr (Or.inr hf)))

theorem empty : Shares ∅ ∅ ∅ ∅ ∅ := by
  constructor <;> simp

/-- A fresh frame becomes a directory.  That it was not lent out keeps it apart from the other
owners. -/
theorem insert_dirs (h : Shares lent dirs tables pages held) (hf : f ∉ lent) :
    Shares (insert f lent) (insert f dirs) tables pages held := by
  constructor
  · intro g
    rw [Finset.mem_insert, Finset.mem_insert, h.mem_lent, or_assoc]
  · intro g
    have hg := h.one_owner g
    have hfresh := h.mem_lent f
    rw [Finset.mem_insert]
    grind

/-- A fresh frame becomes a page table, and belongs to nobody else. -/
theorem insert_tables (h : Shares lent dirs tables pages held) (hf : f ∉ lent) :
    Shares (insert f lent) dirs (insert f tables) pages held := by
  constructor
  · intro g
    rw [Finset.mem_insert, Finset.mem_insert, h.mem_lent]
    grind
  · intro g
    have hg := h.one_owner g
    have hfresh := h.mem_lent f
    rw [Finset.mem_insert]
    grind

/-- A client gets a fresh frame, and nobody else loses one. -/
theorem insert_held (h : Shares lent dirs tables pages held) (hf : f ∉ lent) :
    Shares (insert f lent) dirs tables pages (insert f held) := by
  constructor
  · intro g
    rw [Finset.mem_insert, Finset.mem_insert, h.mem_lent]
    grind
  · intro g
    have hg := h.one_owner g
    have hfresh := h.mem_lent f
    rw [Finset.mem_insert]
    grind

/-- A client gives a frame back, and it is lent out no more.  No other owner is affected, because none
of them had it. -/
theorem erase_held (h : Shares lent dirs tables pages held) (hf : f ∈ held) :
    Shares (lent.erase f) dirs tables pages (held.erase f) := by
  constructor
  · intro g
    have hg := h.one_owner g
    rw [Finset.mem_erase, Finset.mem_erase, h.mem_lent]
    grind
  · intro g
    have hg := h.one_owner g
    rw [Finset.mem_erase]
    grind

/-- A frame of a client becomes a page of the heap.  Nothing is lent out or given back by that. -/
theorem held_to_pages (h : Shares lent dirs tables pages held) (hf : f ∈ held) :
    Shares lent dirs tables (insert f pages) (held.erase f) := by
  constructor
  · intro g
    rw [Finset.mem_erase, Finset.mem_insert, h.mem_lent]
    grind
  · intro g
    have hg := h.one_owner g
    rw [Finset.mem_erase, Finset.mem_insert]
    grind

/-- A page of the heap becomes a frame of a client, which may then give it back. -/
theorem pages_to_held (h : Shares lent dirs tables pages held) (hf : f ∈ pages) :
    Shares lent dirs tables (pages.erase f) (insert f held) := by
  constructor
  · intro g
    rw [Finset.mem_erase, Finset.mem_insert, h.mem_lent]
    grind
  · intro g
    have hg := h.one_owner g
    rw [Finset.mem_erase, Finset.mem_insert]
    grind

/-- No two owners meet.  This is the field `one_owner` for a list of the four, as the counting uses
it. -/
theorem pairwise_disjoint (h : Shares lent dirs tables pages held) :
    [dirs, tables, pages, held].Pairwise Disjoint := by
  simp only [List.pairwise_cons, List.mem_cons, List.not_mem_nil, or_false, forall_eq_or_imp,
    forall_eq, false_imp_iff, implies_true, and_true, List.Pairwise.nil, Finset.disjoint_left]
  refine ⟨⟨?_, ?_, ?_⟩, ⟨?_, ?_⟩, ?_⟩
  all_goals
    intro f hf hf'
    have hone := h.one_owner f
    grind

/-- What is lent out is as much as its owners have together, since no frame is counted twice. -/
theorem card_lent (h : Shares lent dirs tables pages held) :
    lent.card = dirs.card + tables.card + pages.card + held.card := by
  have hunion : lent = ((dirs ∪ tables) ∪ pages) ∪ held := by
    ext f
    rw [h.mem_lent, Finset.mem_union, Finset.mem_union, Finset.mem_union, or_assoc, or_assoc]
  have hd := h.pairwise_disjoint
  simp only [List.pairwise_cons, List.mem_cons, List.not_mem_nil, or_false, forall_eq_or_imp,
    forall_eq, false_imp_iff, implies_true, and_true, List.Pairwise.nil] at hd
  obtain ⟨⟨hdt, hdp, hdh⟩, ⟨htp, hth⟩, hph⟩ := hd
  rw [hunion, Finset.card_union_of_disjoint, Finset.card_union_of_disjoint,
    Finset.card_union_of_disjoint hdt]
  · exact Finset.disjoint_union_left.mpr ⟨hdp, htp⟩
  · exact Finset.disjoint_union_left.mpr ⟨Finset.disjoint_union_left.mpr ⟨hdh, hth⟩, hph⟩

end Shares

/-! ## Pages -/

namespace VirtAddr

theorem samePage_iff {v w : VirtAddr} :
    v.SamePage w ↔ v.val.toNat / pageSize = w.val.toNat / pageSize := by
  simp only [SamePage, directoryIndex, tableIndex, Fin.mk.injEq, pageSize]
  omega

/-- Every entry of every region is that of some page, so that a statement about all addresses covers
all entries. -/
theorem exists_indices (i j : Fin entriesPerTable) :
    ∃ v : VirtAddr, v.directoryIndex = i ∧ v.tableIndex = j := by
  have hi : i.val < 1024 := i.isLt
  have hj : j.val < 1024 := j.isLt
  have hval : (UInt32.ofNat (i.val * 0x400000 + j.val * 4096)).toNat
      = i.val * 0x400000 + j.val * 4096 := by
    rw [UInt32.toNat_ofNat', Nat.mod_eq_of_lt (by omega)]
  refine ⟨⟨UInt32.ofNat (i.val * 0x400000 + j.val * 4096)⟩, Fin.ext ?_, Fin.ext ?_⟩
  · simp only [directoryIndex, hval]
    omega
  · simp only [tableIndex, hval]
    omega

/-- A page has one first address, so that a set of first addresses has as many members as there are
pages. -/
theorem SamePage.eq_of_aligned {v w : VirtAddr} (h : v.SamePage w)
    (hv : v.val.toNat % pageSize = 0) (hw : w.val.toNat % pageSize = 0) : v = w := by
  rw [samePage_iff] at h
  obtain ⟨a⟩ := v
  obtain ⟨b⟩ := w
  rw [mk.injEq, ← UInt32.toNat_inj, ← Nat.div_add_mod a.toNat pageSize,
    ← Nat.div_add_mod b.toNat pageSize]
  exact congrArg₂ (fun q r => pageSize * q + r) h (hv.trans hw.symm)

end VirtAddr

theorem Paging.TablesGrow.shares {dirs lent lent' pages held : Finset Frame} {p p' : Paging}
    (grow : TablesGrow dirs p lent p' lent')
    (h : Shares lent dirs (p.tableFrames dirs) pages held) :
    Shares lent' dirs (p'.tableFrames dirs) pages held := by
  rcases grow with ⟨rfl, htables⟩ | ⟨t, hfresh, rfl, htables⟩
  · rwa [htables]
  · rw [htables]
    exact h.insert_tables hfresh

/-! ## The invariant -/

/-- **Who owns which frame**, while the kernel heap is backed by a set of pages: the pages are mapped
to frames of their own, in the directory of the kernel.  The set of frames that are lent out is not
named, since it is determined by the four owners. -/
structure Owned (range : FrameRange) (directory : PageDirectory) (dirs held : Finset Frame)
    (backed : Finset VirtAddr) (p : Paging) (frames : FrameAllocator) : Prop where
  spaces : p.Spaces dirs
  directory_mem : directory.frame ∈ dirs
  aligned : ∀ page ∈ backed, page.val.toNat % pageSize = 0
  mapped : ∀ page ∈ backed, ∃ f, p.frameOf? directory.frame page = some f
  page_inj : ∀ page ∈ backed, ∀ page' ∈ backed,
    p.frameOf? directory.frame page = p.frameOf? directory.frame page' → page = page'
  lends : ∃ lent, frames.Lends range lent
    ∧ Shares lent dirs (p.tableFrames dirs) (p.pageFrames directory.frame backed) held

namespace Owned

variable {range : FrameRange} {directory d : PageDirectory} {dirs dirs' held held' : Finset Frame}
  {backed : Finset VirtAddr} {page v : VirtAddr} {p p' : Paging} {frames frames' : FrameAllocator}
  {f : Frame} {admits : Fault → Prop}

/-- **The first directory** is a zeroed frame, and there is nothing else: no table, no page of a heap,
and nothing that a client holds. -/
theorem first (hreach : p.ram.reaches directory.frame = true) (hkernel : p.kernel? = none)
    (hlends : frames.Lends range {directory.frame}) :
    Owned range directory {directory.frame} ∅ ∅ (p.withZeroed directory.frame) frames := by
  obtain ⟨spaces, htables⟩ := Paging.Spaces.first hreach hkernel
  refine ⟨spaces, Finset.mem_singleton_self _, ?_, ?_, ?_, _, hlends, ?_⟩
  · exact fun page hpage => absurd hpage (Finset.notMem_empty page)
  · exact fun page hpage => absurd hpage (Finset.notMem_empty page)
  · exact fun page hpage => absurd hpage (Finset.notMem_empty page)
  · rw [htables, Paging.pageFrames, Finset.biUnion_empty]
    exact Shares.empty.insert_dirs (Finset.notMem_empty _)

/-- What leaves the pages of the heap where they are only has to account for what is lent out.  The
fields about pages follow, so that each operation on directories proves the rest only. -/
theorem of_frameOf?_eq (h : Owned range directory dirs held backed p frames) (hdirs : dirs ⊆ dirs')
    (spaces : p'.Spaces dirs')
    (hframe : ∀ page ∈ backed, p'.frameOf? directory.frame page = p.frameOf? directory.frame page)
    (lends : ∃ lent, frames'.Lends range lent
      ∧ Shares lent dirs' (p'.tableFrames dirs') (p.pageFrames directory.frame backed) held') :
    Owned range directory dirs' held' backed p' frames' := by
  have hpages : p'.pageFrames directory.frame backed = p.pageFrames directory.frame backed := by
    refine Finset.biUnion_congr rfl fun page hpage => ?_
    rw [hframe page hpage]
  refine ⟨spaces, hdirs h.directory_mem, h.aligned, fun page hpage => ?_,
    fun page hpage page' hpage' heq => ?_, ?_⟩
  · rw [hframe page hpage]
    exact h.mapped page hpage
  · rw [hframe page hpage, hframe page' hpage'] at heq
    exact h.page_inj page hpage page' hpage' heq
  · rw [hpages]
    exact lends

/-- The heap has as many frames as pages, because every page is mapped and no two go to one frame. -/
theorem card_pageFrames (h : Owned range directory dirs held backed p frames) :
    (p.pageFrames directory.frame backed).card = backed.card := by
  choose g hg using h.mapped
  refine (Finset.card_bij g ?_ ?_ ?_).symm
  · exact fun page hpage => Paging.mem_pageFrames.mpr ⟨page, hpage, hg page hpage⟩
  · intro page hpage page' hpage' heq
    refine h.page_inj page hpage page' hpage' ?_
    rw [hg page hpage, hg page' hpage', heq]
  · intro f hf
    obtain ⟨page, hpage, hf⟩ := Paging.mem_pageFrames.mp hf
    exact ⟨page, hpage, Option.some.inj ((hg page hpage).symm.trans hf)⟩

/-! ## Frames -/

/-- **A client gets a frame**, which it did not hold before, or there is none left and nothing
changes. -/
theorem alloc_ok (h : Owned range directory dirs held backed p frames) :
    ∃ frame? frames', frames.alloc = .ok (frame?, frames') ∧
      match frame? with
      | none => Owned range directory dirs held backed p frames'
      | some address => ∃ f : Frame, address = f.start ∧ f ∉ held
          ∧ Owned range directory dirs (insert f held) backed p frames' := by
  obtain ⟨lent, hlends, shares⟩ := h.lends
  obtain ⟨frame?, frames', halloc, hframe⟩ := hlends.alloc_ok
  refine ⟨frame?, frames', halloc, ?_⟩
  cases frame? with
  | none => exact h.of_frameOf?_eq subset_rfl h.spaces (fun _ _ => rfl) ⟨lent, hframe, shares⟩
  | some address =>
      obtain ⟨f, rfl, hfresh, hlends'⟩ := hframe
      refine ⟨f, rfl, fun hmem => hfresh (shares.held_subset hmem), ?_⟩
      exact h.of_frameOf?_eq subset_rfl h.spaces (fun _ _ => rfl)
        ⟨_, hlends', shares.insert_held hfresh⟩

/-- **A client gives a frame back**, or asks for nothing: the address lies in a reserved frame, or
outside the range, or in a frame that is free.  A frame that somebody else owns is excluded by that. -/
theorem free_meets (h : Owned range directory dirs held backed p frames) {address : PhysAddr}
    (hown : address.frame ∈ held ∨ address.frame.index.toNat < range.reserved
      ∨ range.total ≤ address.frame.index.toNat
      ∨ frames.isUsed address.frame.index.toNat = .ok false) :
    (frames.free address).Meets admits fun frames' =>
      Owned range directory dirs (held.erase address.frame) backed p frames' := by
  obtain ⟨lent, hlends, shares⟩ := h.lends
  refine (hlends.free_meets address).imp fun frames' hlends' => ?_
  refine h.of_frameOf?_eq subset_rfl h.spaces (fun _ _ => rfl) ⟨_, hlends', ?_⟩
  by_cases hheld : address.frame ∈ held
  · exact shares.erase_held hheld
  · have hnot : address.frame ∉ lent := by
      intro hmem
      rcases hown with hown | hlow | hhigh | hunused
      · exact hheld hown
      · exact absurd (hlends.reserved_le hmem) (Nat.not_le.mpr hlow)
      · exact absurd (hlends.lt_total hmem) (Nat.not_lt.mpr hhigh)
      · rw [(hlends.isUsed_iff _).mpr (Or.inl hmem)] at hunused
        cases hunused
    rwa [Finset.erase_eq_of_notMem hnot, Finset.erase_eq_of_notMem hheld]

/-! ## Address spaces -/

/-- **A client gets a directory**, in a frame that is none of those before.  If it gets none, the
owners are what they were. -/
theorem createDirectory_meets (h : Owned range directory dirs held backed p frames) :
    (p.createDirectory frames).Meets admits fun (directory?, p', frames') =>
      match directory? with
      | none => Owned range directory dirs held backed p' frames'
      | some d => d.frame ∉ dirs
          ∧ Owned range directory (insert d.frame dirs) held backed p' frames' := by
  obtain ⟨lent, hlends, shares⟩ := h.lends
  refine (h.spaces.createDirectory_meets hlends shares.dirs_subset shares.tables_subset).imp ?_
  rintro ⟨directory?, p', frames'⟩ hcreated
  cases directory? with
  | none =>
      obtain ⟨rfl, hlends'⟩ := hcreated
      exact h.of_frameOf?_eq subset_rfl h.spaces (fun _ _ => rfl) ⟨lent, hlends', shares⟩
  | some d =>
      obtain ⟨hfresh, hlends', spaces, htables, hframe⟩ := hcreated
      refine ⟨fun hmem => hfresh (shares.dirs_subset hmem), ?_⟩
      refine h.of_frameOf?_eq (Finset.subset_insert ..) spaces
        (fun page _ => hframe _ h.directory_mem page) ⟨_, hlends', ?_⟩
      rw [htables]
      exact shares.insert_dirs hfresh

/-- Which directory is the current one makes no difference, and the kernel's can be any of them.  No
frame changes its owner by that. -/
theorem switch (h : Owned range directory dirs held backed p frames) {kernel? : Option PageDirectory}
    (hkernel : ∀ d ∈ kernel?, d.frame ∈ dirs) (current? : Option PageDirectory) :
    Owned range directory dirs held backed { p with kernel?, current? } frames :=
  h.of_frameOf?_eq subset_rfl ⟨h.spaces.reaches, h.spaces.reaches_table, h.spaces.table_not_mem,
    h.spaces.region_eq, hkernel⟩ (fun _ _ => rfl) h.lends

/-- **A page is mapped**, in any of the directories, which is not one of the heap.  A table may be
created for it; the frame that it goes to is not said to belong to anybody. -/
theorem map_meets (h : Owned range directory dirs held backed p frames) (hd : d.frame ∈ dirs)
    (hv : ∀ page ∈ backed, ¬ v.SamePage page) (target : PhysAddr) (flags : PageFlags) :
    (p.map frames d v target flags).Meets admits fun (result, p', frames') =>
      Owned range directory dirs held backed p' frames'
        ∧ (result = .ok () → p'.frameOf? d.frame v
            = (PageTableEntry.ofFrame target.frame (flags ||| .present)).target?) := by
  obtain ⟨lent, hlends, shares⟩ := h.lends
  refine (h.spaces.map_meets hd hlends shares.dirs_subset shares.tables_subset v target flags).imp ?_
  rintro ⟨result, p', frames'⟩ ⟨spaces, ⟨lent', hlends', grow⟩, hother, hpage⟩
  refine ⟨h.of_frameOf?_eq subset_rfl spaces ?_ ⟨lent', hlends', grow.shares shares⟩, hpage⟩
  exact fun page hmem => hother _ h.directory_mem page (hv page hmem)

/-- **A page is unmapped**, in any of the directories, which is not one of the heap.  The frame that it
went to stays with its owner. -/
theorem unmap (h : Owned range directory dirs held backed p frames) (hd : d.frame ∈ dirs)
    (hv : ∀ page ∈ backed, ¬ v.SamePage page) (cpu : Cpu) :
    Owned range directory dirs held backed (p.unmap cpu d v).2.1 frames := by
  obtain ⟨-, spaces, htables, hother, -⟩ := h.spaces.unmap hd cpu v
  refine h.of_frameOf?_eq subset_rfl spaces ?_ ?_
  · exact fun page hmem => hother _ h.directory_mem page (hv page hmem)
  · rw [htables]
    exact h.lends

/-! ## Pages of the heap -/

/-- **A client's frame becomes a page of the heap**, once the page is mapped to it.  Memory does not
change here: only what the frame counts as. -/
theorem hand_over (h : Owned range directory dirs held backed p frames) (hf : f ∈ held)
    (haligned : page.val.toNat % pageSize = 0)
    (hpage : p.frameOf? directory.frame page = some f) :
    Owned range directory dirs (held.erase f) (insert page backed) p frames := by
  obtain ⟨lent, hlends, shares⟩ := h.lends
  -- no page of the heap goes to a frame of a client
  have hother : ∀ page' ∈ backed, p.frameOf? directory.frame page' ≠ some f := by
    intro page' hpage' heq
    have hmem := Paging.mem_pageFrames.mpr ⟨page', hpage', heq⟩
    exact (shares.one_owner f).2.2.2.2.2 ⟨hmem, hf⟩
  have hpages : p.pageFrames directory.frame (insert page backed)
      = insert f (p.pageFrames directory.frame backed) := by
    rw [Paging.pageFrames, Finset.biUnion_insert, hpage]
    rfl
  refine ⟨h.spaces, h.directory_mem, ?_, ?_, ?_, lent, hlends, ?_⟩
  · intro page' hpage'
    rcases Finset.mem_insert.mp hpage' with rfl | hmem
    · exact haligned
    · exact h.aligned page' hmem
  · intro page' hpage'
    rcases Finset.mem_insert.mp hpage' with rfl | hmem
    · exact ⟨f, hpage⟩
    · exact h.mapped page' hmem
  · intro page₁ hpage₁ page₂ hpage₂ heq
    rcases Finset.mem_insert.mp hpage₁ with rfl | hmem₁ <;>
      rcases Finset.mem_insert.mp hpage₂ with rfl | hmem₂
    · rfl
    · exact absurd (heq.symm.trans hpage) (hother page₂ hmem₂)
    · exact absurd (heq.trans hpage) (hother page₁ hmem₁)
    · exact h.page_inj page₁ hmem₁ page₂ hmem₂ heq
  · rw [hpages]
    exact shares.held_to_pages hf

/-- **A page of the heap is unmapped**, and its frame is a client's, who can give it back.  Every page
of the heap is mapped, so that there is a frame to return. -/
theorem take_back (h : Owned range directory dirs held backed p frames) (hpage : page ∈ backed)
    (cpu : Cpu) :
    ∃ f, (p.unmap cpu directory page).1 = some f.start ∧ f ∉ held
      ∧ Owned range directory dirs (insert f held) (backed.erase page)
          (p.unmap cpu directory page).2.1 frames := by
  obtain ⟨lent, hlends, shares⟩ := h.lends
  obtain ⟨f, hf⟩ := h.mapped page hpage
  obtain ⟨hanswer, spaces, htables, hother, -⟩ := h.spaces.unmap h.directory_mem cpu page
  have hmem : f ∈ p.pageFrames directory.frame backed :=
    Paging.mem_pageFrames.mpr ⟨page, hpage, hf⟩
  have hpages : p.pageFrames directory.frame (backed.erase page)
      = (p.pageFrames directory.frame backed).erase f := by
    ext g
    rw [Finset.mem_erase, Paging.mem_pageFrames, Paging.mem_pageFrames]
    constructor
    · rintro ⟨page', hpage', hg⟩
      obtain ⟨hne, hbacked⟩ := Finset.mem_erase.mp hpage'
      refine ⟨?_, page', hbacked, hg⟩
      rintro rfl
      exact hne (h.page_inj page' hbacked page hpage (hg.trans hf.symm))
    · rintro ⟨hne, page', hbacked, hg⟩
      refine ⟨page', Finset.mem_erase.mpr ⟨?_, hbacked⟩, hg⟩
      rintro rfl
      exact hne (Option.some.inj (hg.symm.trans hf))
  -- without the page, what is left is an invariant of its own
  have hrest : Owned range directory dirs (insert f held) (backed.erase page) p frames := by
    refine ⟨h.spaces, h.directory_mem, ?_, ?_, ?_, lent, hlends, ?_⟩
    · exact fun page' hpage' => h.aligned page' (Finset.mem_of_mem_erase hpage')
    · exact fun page' hpage' => h.mapped page' (Finset.mem_of_mem_erase hpage')
    · exact fun page₁ h₁ page₂ h₂ => h.page_inj page₁ (Finset.mem_of_mem_erase h₁) page₂
        (Finset.mem_of_mem_erase h₂)
    · rw [hpages]
      exact shares.pages_to_held hmem
  refine ⟨f, by rw [hanswer, hf, Option.map_some], ?_, ?_⟩
  · exact fun hheld => (shares.one_owner f).2.2.2.2.2 ⟨hmem, hheld⟩
  · refine hrest.unmap h.directory_mem (fun page' hpage' hsame => ?_) cpu
    obtain ⟨hne, hbacked⟩ := Finset.mem_erase.mp hpage'
    exact hne (hsame.eq_of_aligned (h.aligned page hpage) (h.aligned page' hbacked)).symm

end Owned

end TinyKernel
