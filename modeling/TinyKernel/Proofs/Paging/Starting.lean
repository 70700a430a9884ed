import TinyKernel.Proofs.Paging.Entries
import TinyKernel.Proofs.Paging.Ownership

/-!
# How paging starts

The kernel's directory is built by mapping each page of the low memory to itself.  Two frames are taken
for it, one for the directory and one for the only table that these pages need; and it cannot be built
only if not even two frames can be handed out.

## What is load-bearing

Where there is one directory, and clients hold nothing, what was taken from the allocator can be counted
(`Owned.card_lent`): one frame for the directory, one for each region that has a table, and one for each
page of the heap.  So a refusal, which says how few frames are left, says how few there were.

* `Paging.SelfMapped` — a directory while its pages are being mapped
* `Paging.IdentityMapped` — the directory that paging starts with
* `Paging.start_identityMapped` — it is there, or there are too few frames
-/

namespace TinyKernel

/-- **What was taken from the allocator**, where there is one directory and clients hold nothing: a frame
for the directory, one for each region that has a table, and one for each page of the heap. -/
theorem Owned.card_lent {range : FrameRange} {directory : PageDirectory} {backed : Finset VirtAddr}
    {p : Paging} {frames : FrameAllocator}
    (h : Owned range directory {directory.frame} ∅ backed p frames) :
    ∃ lent, frames.Lends range lent
      ∧ lent.card = 1 + (p.regions directory.frame).card + backed.card := by
  obtain ⟨lent, hlends, shares⟩ := h.lends
  refine ⟨lent, hlends, ?_⟩
  rw [shares.card_lent, h.card_pageFrames, h.spaces.card_tableFrames, Finset.card_singleton,
    Finset.card_empty, Nat.add_zero]

/-- What was not taken is left: free frames and taken ones together are all that the allocator has to
give. -/
theorem Owned.spare_add {range : FrameRange} {directory : PageDirectory} {backed : Finset VirtAddr}
    {p : Paging} {frames : FrameAllocator}
    (h : Owned range directory {directory.frame} ∅ backed p frames) :
    frames.spare range.total + (1 + (p.regions directory.frame).card + backed.card)
      = range.total - range.reserved := by
  obtain ⟨lent, hlends, hcard⟩ := h.card_lent
  rw [← hcard, hlends.spare_add_card]

namespace Paging

variable {p p' q : Paging} {range : FrameRange} {frames : FrameAllocator} {directory : PageDirectory}
  {admits : Fault → Prop} {done : List Nat} {page : Nat} {v : VirtAddr}

/-- **Some pages are mapped to themselves**, and nothing else is: there is one table for them, once
there is a page.  It is the invariant of the loop that builds the kernel's directory. -/
structure SelfMapped (p : Paging) (d : Frame) (done : List Nat) : Prop where
  frameOf?_eq : ∀ v, p.frameOf? d v =
    if v.val.toNat / pageSize ∈ done then some (PhysAddr.mk v.val).frame else none
  mem_regions_iff : ∀ i, i ∈ p.regions d ↔ i.val = 0 ∧ done ≠ []

/-- A directory that is zeroed maps nothing, and has no table. -/
theorem SelfMapped.first (p : Paging) (d : Frame) : (p.withZeroed d).SelfMapped d [] where
  frameOf?_eq v := by
    rw [if_neg List.not_mem_nil, frameOf?, target?_withZeroed, if_pos rfl, Option.bind_none]
  mem_regions_iff i := by
    rw [regions_withZeroed]
    simp

theorem identityPage_toNat (hpage : page ∈ List.range (identityMapSize / pageSize)) :
    (identityPage page).val.toNat = page * pageSize := by
  rw [List.mem_range, identityMapSize, pageSize] at hpage
  rw [identityPage, UInt32.toNat_ofNat', pageSize, Nat.mod_eq_of_lt (by omega)]

/-- All of the low memory lies in one region, so that one table is enough for it. -/
theorem identityPage_directoryIndex (hpage : page ∈ List.range (identityMapSize / pageSize)) :
    (identityPage page).directoryIndex.val = 0 := by
  have hvalue := identityPage_toNat hpage
  rw [List.mem_range, identityMapSize, pageSize] at hpage
  show (identityPage page).val.toNat / 0x400000 = 0
  rw [hvalue, pageSize]
  exact Nat.div_eq_of_lt (by omega)

/-- **Where the table is still to be created**, nothing is mapped yet: it would be the table of a page
that is done. -/
theorem SelfMapped.regions_eq_empty {d : Frame} (self : q.SelfMapped d done)
    (hregion : v.directoryIndex.val = 0) (absent : q.target? d v.directoryIndex = none) :
    q.regions d = ∅ := by
  refine Finset.eq_empty_of_forall_notMem fun i hi => not_mem_regions.mpr absent ?_
  have hmem := (self.mem_regions_iff i).mp hi
  exact (self.mem_regions_iff _).mpr ⟨hregion, hmem.2⟩

/-- **A page more goes to itself**, once its entry is written.  The flags must have names only, so that
the entry refers to the frame that is meant. -/
theorem SelfMapped.written {dirs lent lent' : Finset Frame} {t : Frame} {flags : PageFlags}
    (self : q.SelfMapped directory.frame done) (h : q.Spaces dirs) (hd : directory.frame ∈ dirs)
    (hdirs : dirs ⊆ lent) (htables : q.tableFrames dirs ⊆ lent)
    (hfor : q.TableFor directory.frame v.directoryIndex flags lent t p lent')
    (hnamed : flags.named = flags) (hregion : v.directoryIndex.val = 0)
    (hvalue : v.val.toNat = page * pageSize) :
    (p.withEntry t v.tableIndex (.ofFrame (PhysAddr.mk v.val).frame (flags ||| .present))).SelfMapped
      directory.frame (page :: done) := by
  obtain ⟨h₁, ht, -, hframe⟩ := h.tableFor hd hdirs htables hfor
  have hnumber : ∀ w, v.SamePage w ↔ w.val.toNat / pageSize = page := by
    intro w
    rw [VirtAddr.samePage_iff, hvalue, Nat.mul_div_cancel _ (by decide), eq_comm]
  constructor
  case frameOf?_eq =>
    intro w
    by_cases hsame : v.SamePage w
    case pos =>
      have hto : (PhysAddr.mk w.val).frame = (PhysAddr.mk v.val).frame := by
        refine Frame.index_toNat_inj.mp ?_
        simp only [PhysAddr.frame, UInt32.toNat_div]
        exact (VirtAddr.samePage_iff.mp hsame).symm
      rw [h₁.frameOf?_written_of_samePage hd ht _ hsame, (hnumber w).mp hsame,
        if_pos List.mem_cons_self, hto]
      exact target?_leaf _ hnamed
    case neg =>
      rw [h₁.frameOf?_written hd ht _ hd hsame, hframe _ hd, self.frameOf?_eq]
      simp only [List.mem_cons, mt (hnumber w).mpr hsame, false_or]
  case mem_regions_iff =>
    intro i
    rw [(h.writesPage hd hdirs htables hfor _).regions_eq hd, Finset.mem_insert, self.mem_regions_iff]
    constructor
    · rintro (rfl | ⟨hi, -⟩)
      · exact ⟨hregion, List.cons_ne_nil page done⟩
      · exact ⟨hi, List.cons_ne_nil page done⟩
    · exact fun hi => Or.inl (Fin.ext (hi.1.trans hregion.symm))

/-- **A page more is mapped to itself**, or there is no frame left for the table.  The latter happens
at the first page only, and then there were not two frames to begin with. -/
theorem SelfMapped.map_meets (self : q.SelfMapped directory.frame done)
    (h : Owned range directory {directory.frame} ∅ ∅ q frames)
    (hsize : range.total ≤ q.ram.tables.size)
    (hpage : page ∈ List.range (identityMapSize / pageSize)) :
    (q.map frames directory (identityPage page) ⟨(identityPage page).val⟩
        (.present ||| .writable)).Meets admits fun (result, q', frames') =>
      match result with
      | .ok () => Owned range directory {directory.frame} ∅ ∅ q' frames'
          ∧ q'.ram.tables.size = q.ram.tables.size ∧ q'.SelfMapped directory.frame (page :: done)
      | .error _ => range.total - range.reserved ≤ 1 := by
  have hd := h.directory_mem
  have hvalue := identityPage_toNat hpage
  have hregion := identityPage_directoryIndex hpage
  obtain ⟨lent, hlends, shares⟩ := h.lends
  have hdirs := shares.dirs_subset
  have htables := shares.tables_subset
  generalize identityPage page = v at hvalue hregion
  have howned : (q.map frames directory v ⟨v.val⟩ (.present ||| .writable)).Meets admits _ :=
    h.map_meets hd (fun page' hpage' => absurd hpage' (Finset.notMem_empty page')) _ _
  have hcases : (q.map frames directory v ⟨v.val⟩ (.present ||| .writable)).Meets admits _ :=
    h.spaces.map_cases hd hlends hdirs htables v _ _
  have hrefused : (q.map frames directory v ⟨v.val⟩ (.present ||| .writable)).Meets admits _ :=
    h.spaces.map_refused hd hlends hdirs htables v _ _
  refine (howned.and (hcases.and hrefused)).imp ?_
  rintro ⟨result, q', frames'⟩ ⟨⟨h', -⟩, hmapped, hrefused⟩
  cases result with
  | error cause =>
      obtain ⟨habsent, -, -, hspare⟩ := hrefused cause rfl
      have hleft := h.spare_add
      have hmono := frames.spare_mono hsize
      rw [self.regions_eq_empty hregion habsent, Finset.card_empty, Finset.card_empty] at hleft
      show range.total - range.reserved ≤ 1
      omega
  | ok =>
      obtain ⟨⟨_, ⟨⟩⟩, -⟩ | ⟨-, t, q₁, lent', hfor, rfl, -⟩ := hmapped
      refine ⟨h', (size_withEntry ..).trans hfor.size_eq, ?_⟩
      exact self.written h.spaces hd hdirs htables hfor (by decide) hregion hvalue

/-- A page that goes to the frame of the same number goes to itself, byte for byte. -/
theorem translate_eq_self (h : p.frameOf? directory.frame v = some (PhysAddr.mk v.val).frame) :
    p.translate directory v = some ⟨v.val⟩ := by
  rw [translate_eq, h, Option.map_some]
  refine congrArg (fun val => some (PhysAddr.mk val)) (UInt32.toNat_inj.mp ?_)
  have hlt := v.val.toNat_lt
  rw [UInt32.toNat_add, Frame.start_toNat]
  simp only [PhysAddr.frame, VirtAddr.pageOffset, UInt32.toNat_div, UInt32.toNat_mod,
    UInt32.reduceToNat]
  omega

/-- **The low memory is mapped to itself**, and nothing else is.  It is said of all addresses, and of
all regions whether they have a table: the first one has, and no other, so that one table was taken for
it. -/
structure IdentityMapped (p : Paging) (d : Frame) : Prop where
  frameOf?_eq : ∀ v, p.frameOf? d v =
    if v.val.toNat < identityMapSize then some (PhysAddr.mk v.val).frame else none
  mem_regions_iff : ∀ i, i ∈ p.regions d ↔ i.val = 0

theorem SelfMapped.identityMapped {d : Frame}
    (self : p.SelfMapped d (List.range (identityMapSize / pageSize)).reverse) : p.IdentityMapped d where
  frameOf?_eq v := by
    have hlow : v.val.toNat / pageSize ∈ (List.range (identityMapSize / pageSize)).reverse
        ↔ v.val.toNat < identityMapSize := by
      rw [List.mem_reverse, List.mem_range, identityMapSize, pageSize]
      omega
    rw [self.frameOf?_eq]
    simp only [hlow]
  mem_regions_iff i := by
    rw [self.mem_regions_iff]
    refine and_iff_left fun hnil => ?_
    have hlength := congrArg List.length hnil
    rw [List.length_reverse, List.length_range] at hlength
    cases hlength

/-- **Paging starts** with the low memory mapped to itself, unless not even two frames can be handed
out: one is for the directory, and the other for its table. -/
theorem start_identityMapped {ram : Ram} (h : frames.Lends range ∅)
    (hsize : range.total ≤ ram.tables.size) :
    ((Paging.ofRam ram).start frames).Meets admits fun (started, p, frames') =>
      match started with
      | .error _ => range.total - range.reserved ≤ 1
      | .ok directory => Owned range directory {directory.frame} ∅ ∅ p frames'
          ∧ p.ram.tables.size = ram.tables.size ∧ p.kernel? = some directory
          ∧ p.IdentityMapped directory.frame := by
  refine (start_cases
    (I := fun directory done q frames => Owned range directory {directory.frame} ∅ ∅ q frames
      ∧ q.ram.tables.size = ram.tables.size ∧ q.SelfMapped directory.frame done)
    (E := fun _ _ => range.total - range.reserved ≤ 1) ?_ ?_).imp ?_
  · have hmeets : ((Paging.ofRam ram).allocateTable frames).Meets admits _ := allocateTable_meets h
    have hrefuses : ((Paging.ofRam ram).allocateTable frames).Meets admits _ :=
      allocateTable_refused h
    refine (hmeets.and hrefuses).imp ?_
    rintro ⟨result, q, frames₁⟩ ⟨htable, hrefused⟩
    cases result with
    | error cause =>
        obtain ⟨-, -, hspare⟩ := hrefused cause rfl
        have hleft := h.spare_add_card
        have hmono := frames.spare_mono hsize
        rw [Finset.card_empty] at hleft
        show range.total - range.reserved ≤ 1
        change frames.spare ram.tables.size = 0 at hspare
        omega
    | ok frame =>
        obtain ⟨-, hreach, rfl, hlends⟩ := htable
        exact ⟨.first hreach rfl hlends, size_withZeroed, .first ..⟩
  · rintro directory done q frames₁ ⟨hq, hqsize, self⟩ page hpage
    refine (self.map_meets hq (hsize.trans_eq hqsize.symm) hpage).imp ?_
    rintro ⟨result, q', frames₂⟩ hmapped
    cases result with
    | error cause => exact hmapped
    | ok => exact ⟨hmapped.1, hmapped.2.1.trans hqsize, hmapped.2.2⟩
  · rintro ⟨started, p, frames'⟩ hstarted
    cases started with
    | error cause => exact hstarted
    | ok directory =>
        obtain ⟨q, ⟨hq, hqsize, self⟩, rfl⟩ := hstarted
        refine ⟨hq.switch ?_ _, hqsize, rfl, ?_⟩
        · rintro d ⟨⟩
          exact hq.directory_mem
        · exact ⟨self.identityMapped.frameOf?_eq, self.identityMapped.mem_regions_iff⟩

end Paging

end TinyKernel
