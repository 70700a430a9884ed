import TinyKernel.Proofs.Kernel.HeapPages

/-!
# Growth that fails

The kernel heap asks for some pages, and one of them cannot be backed: there is no frame for it, or no
frame for its page table.  The pages before it are released again.  What is left of the attempt is
page tables, all of whose entries are empty; and when the same pages are asked for once more, nothing
at all is left.

## What is load-bearing

The second attempt finds the tables that the first one made, so that it takes frames for pages only.
The allocator hands out the least frame first, and so the frames that the first attempt lacked are
lacking again, at the same page or before it (`KernelPages.Starves`).

* `HeapGrowth` — the pages that are asked for, and whose the frames are
* `HeapGrowth.Growing`, `HeapGrowth.Receding` — an attempt, until a page is refused and after
* `HeapGrowth.attempt_recedes` — what an attempt leaves
* `HeapGrowth.Receding.vacant`, `HeapGrowth.Receding.used_eq` — the new tables, and their frames
* `HeapGrowth.Retrying` — the same attempt, made again
* `HeapGrowth.Receding.attempt_again` — what it leaves then: nothing
-/

namespace TinyKernel

/-! ## Frames that are lacking -/

namespace KernelPages

variable {range : FrameRange} {dirs : Finset Frame} {page : VirtAddr} {s s' : KernelPages} {k : Nat}
  {result : Except MapError Unit}

/-- **With `k` frames taken already, a page cannot be backed**: not even that many are left, or the
page has no table and only one more is left among those that can be reached. -/
def Starves (range : FrameRange) (page : VirtAddr) (k : Nat) (s : KernelPages) : Prop :=
  s.frames.spare range.total ≤ k
    ∨ s.paging.target? s.directory.frame page.directoryIndex = none
      ∧ s.frames.spare s.paging.ram.tables.size ≤ k + 1

/-- A page that is refused lacks frames, and nothing has changed.  There is no other reason for a
refusal. -/
theorem Backs.starves {cause : MapError} (ends : Backs range dirs page s (.error cause) s') :
    s' = s ∧ s.Starves range page 0 := by
  cases ends with
  | noFrame _ none_left => exact ⟨rfl, Or.inl (Nat.le_of_eq none_left)⟩
  | noTable _ absent one_left => exact ⟨rfl, Or.inr ⟨absent, one_left⟩⟩

/-- **Where frames are lacking, a page is refused.**  This is the converse of `Backs.starves`, and
makes a second attempt end like the first. -/
theorem Starves.refused (starves : s.Starves range page 0) (ends : Backs range dirs page s result s') :
    ∃ cause, result = .error cause := by
  cases ends with
  | noFrame cause => exact ⟨cause, rfl⟩
  | noTable cause => exact ⟨cause, rfl⟩
  | @mapped f t _ lent lent' _ _ lends _ _ alloc fresh lends₁ table _ lends' _ =>
      exfalso
      rcases starves with hnone | ⟨habsent, hone⟩
      · have hlt := lends₁.lt_total (Finset.mem_insert_self f lent)
        have hpos := (lends.spare_of_alloc alloc range.total).2.mpr hlt
        omega
      · -- the last frame was taken for the page, and the table would need one more
        have hspare := (lends.spare_of_alloc alloc s.paging.ram.tables.size).1
        cases table with
        | found e hread hpresent =>
            rw [Paging.target?_of_read? hread, PageTableEntry.target?_of_isPresent hpresent] at habsent
            cases habsent
        | upgraded e hread hpresent =>
            rw [Paging.target?_of_read? hread, PageTableEntry.target?_of_isPresent hpresent] at habsent
            cases habsent
        | created _ _ _ _ hfresh hreach =>
            have hmem := Finset.mem_insert_self t (insert f lent)
            have hpos := lends₁.spare_pos (lends'.reserved_le hmem) (lends'.lt_total hmem) hfresh
              (of_decide_eq_true hreach)
            omega

/-- As many frames more or less are left as are taken already.  What is lacking is a matter of the
whole attempt, and not of the moment at which a page is refused. -/
theorem Starves.step {k' : Nat} (starves : s.Starves range page k)
    (htarget : s'.paging.target? s'.directory.frame page.directoryIndex
      = s.paging.target? s.directory.frame page.directoryIndex)
    (hsize : s'.paging.ram.tables.size = s.paging.ram.tables.size)
    (hspare : ∀ bound n, s.frames.spare bound ≤ k + n → s'.frames.spare bound ≤ k' + n) :
    s'.Starves range page k' := by
  refine starves.imp (hspare range.total 0) ?_
  rintro ⟨habsent, hle⟩
  rw [htarget, hsize]
  exact ⟨habsent, hspare _ 1 hle⟩

end KernelPages

/-! ## An attempt -/

/-- **Pages that the kernel heap asks for**: `count` of them from number `first` on.  Of the frames
that are lent out, some hold directories, and those that are neither tables nor pages of this attempt
are held by others. -/
structure HeapGrowth where
  range : FrameRange
  directory : PageDirectory
  dirs : Finset Frame
  held : Finset Frame
  start : VirtAddr
  first : Nat
  count : Nat
  aligned : start.val.toNat % pageSize = 0
  fits : start.val.toNat + (first + count) * pageSize ≤ 2 ^ 32

namespace HeapGrowth

variable {a : HeapGrowth} {p₀ : Paging} {b s s' : KernelPages} {i j k : Nat} {admits : Fault → Prop}

/-- Page number `k` of those that are asked for, counted from the first of them. -/
def page (a : HeapGrowth) (k : Nat) : VirtAddr := pageAt a.start (a.first + k)

/-- The pages from number `i` up to number `j`, of those that are asked for. -/
def span (a : HeapGrowth) (i j : Nat) : Finset VirtAddr :=
  pageSpan a.start (a.first + i) (a.first + j)

/-- Whose the frames are, while some of the pages are backed. -/
def Owns (a : HeapGrowth) : Finset VirtAddr → KernelPages → Prop :=
  KernelPages.Holds a.directory (Owned a.range a.directory a.dirs a.held)

theorem page_mem (hi : i ≤ k) (hk : k < j) (hj : j ≤ a.count) : a.page k ∈ a.span i j := by
  rw [page, span, mem_pageSpan a.fits (by omega) (by omega)]
  omega

theorem page_not_mem (hk : k < a.count) : a.page k ∉ a.span i k := by
  rw [page, span, mem_pageSpan a.fits (by omega) (by omega)]
  omega

@[simp]
theorem span_self (a : HeapGrowth) (i : Nat) : a.span i i = ∅ := pageSpan_self ..

theorem insert_span (a : HeapGrowth) (h : i ≤ j) :
    insert (a.page j) (a.span i j) = a.span i (j + 1) :=
  insert_pageSpan a.start (Nat.add_le_add_left h a.first)

theorem erase_span (h : i < j) (hj : j ≤ a.count) :
    (a.span i j).erase (a.page i) = a.span (i + 1) j :=
  erase_pageSpan_left a.fits (Nat.add_lt_add_left h a.first) (Nat.add_le_add_left hj a.first)

/-- What is asked for takes frames and gives them back, and so keeps to the contract of page
sources. -/
theorem keeps (a : HeapGrowth) :
    PageSource.Keeps KernelPages (a.span 0 a.count) admits a.Owns :=
  Owned.growable (fun _ hpage => aligned_of_mem_pageSpan a.aligned hpage) admits

/-- **An attempt, while it goes well.**  The pages from number `i` up to number `j` are backed.  But
for them every address goes where it went at first; where there is another table than at first, there
was none, in the directory that the heap is mapped into; and the pages up to number `j` have their
tables. -/
structure Growing (a : HeapGrowth) (p₀ : Paging) (i j : Nat) (s : KernelPages) : Prop where
  owns : a.Owns (a.span i j) s
  frameOf?_eq : ∀ v, (∀ page ∈ a.span i j, ¬ page.SamePage v) →
    s.paging.frameOf? a.directory.frame v = p₀.frameOf? a.directory.frame v
  target?_eq : ∀ d ∈ a.dirs, ∀ r, s.paging.target? d r = p₀.target? d r
    ∨ d = a.directory.frame ∧ p₀.target? d r = none
  ready : ∀ k < j, s.paging.Ready a.directory.frame (a.page k).directoryIndex .writable

/-- **An attempt that is given up**, because page number `i` was refused.  The first `k` of the pages
before it are released, and their entries are empty.  It extends what holds while the heap grows, and
goes back the same way: at `k = i` nothing is left to do. -/
structure Receding (a : HeapGrowth) (p₀ : Paging) (i k : Nat) (s : KernelPages) : Prop
    extends a.Growing p₀ k i s where
  blank : ∀ x < k, s.paging.Blank a.directory.frame (a.page x)
  starves : s.Starves a.range (a.page i) k

theorem Growing.start (howns : a.Owns ∅ s) : a.Growing s.paging 0 0 s where
  owns := by rwa [span_self]
  frameOf?_eq _ _ := rfl
  target?_eq _ _ _ := Or.inl rfl
  ready := nofun

/-- **One page more is backed**, or refused.  In the second case nothing is released yet, and the
attempt begins to recede. -/
theorem Growing.back_meets (g : a.Growing p₀ 0 i s) (hi : i < a.count) :
    (PageSource.back (a.page i) s).Meets admits fun (result, s') =>
      match result with
      | .ok () => a.Growing p₀ 0 (i + 1) s'
      | .error _ => a.Receding p₀ i 0 s' := by
  obtain ⟨hdir, howned⟩ := g.owns
  have hd := howned.directory_mem
  have hwindow := page_mem (Nat.zero_le i) hi (Nat.le_refl _)
  have hcases : (PageSource.back (a.page i) s).Meets admits _ :=
    KernelPages.back_cases howned.housed (by rwa [hdir]) (a.page i)
  refine ((a.keeps.back g.owns hwindow (page_not_mem hi)).and hcases).imp ?_
  rintro ⟨result, s'⟩ ⟨howns', ends⟩
  cases result with
  | error cause =>
      obtain ⟨rfl, starves⟩ := ends.starves
      exact ⟨g, nofun, starves⟩
  | ok =>
  rw [a.insert_span (Nat.zero_le i)] at howns'
  cases ends with
  | @mapped f t _ lent _ _ _ _ hdirs htables _ _ _ htable hpaging _ =>
  rw [hdir] at htable
  have hdirs₁ := hdirs.trans (Finset.subset_insert f lent)
  have htables₁ := htables.trans (Finset.subset_insert f lent)
  obtain ⟨h₁, ht, -, hframe⟩ := howned.spaces.tableFor hd hdirs₁ htables₁ htable
  obtain ⟨hbefore, htarget⟩ := howned.spaces.target?_tableFor hdirs₁ htables₁ htable
  have hspan := a.insert_span (Nat.zero_le i)
  constructor
  case owns => exact howns'
  case frameOf?_eq =>
    intro v hv
    rw [← hspan] at hv
    rw [hpaging, h₁.frameOf?_written hd ht _ hd (hv _ (Finset.mem_insert_self ..)), hframe _ hd]
    exact g.frameOf?_eq v fun page hmem => hv page (Finset.mem_insert_of_mem hmem)
  case target?_eq =>
    intro d hd' r
    have hold := g.target?_eq d hd' r
    rw [hpaging, h₁.target?_written hd ht _ hd', htarget d hd']
    split
    case isFalse => exact hold
    case isTrue heq =>
      obtain ⟨rfl, rfl⟩ := heq
      rcases hbefore with hsome | ⟨hnone, -⟩
      · rwa [← hsome]
      · rw [hnone] at hold
        exact Or.inr ⟨rfl, hold.elim Eq.symm And.right⟩
  case ready =>
    intro k hk
    have hne : a.directory.frame ≠ t := fun heq => h₁.table_not_mem _ hd _ t ht (heq ▸ hd)
    rw [hpaging]
    refine Paging.Ready.withEntry ?_ hne _ _
    rcases Nat.lt_succ_iff_lt_or_eq.mp hk with hlt | rfl
    · exact htable.ready_of_ready (hdirs₁ hd) (g.ready k hlt)
    · exact htable.ready (hdirs₁ hd)

/-- **One page more is released.**  It was unmapped at first, so that an empty entry is what was there
before. -/
theorem Receding.release_meets (r : a.Receding p₀ i k s) (hi : i < a.count) (hk : k < i)
    (hunmapped : p₀.frameOf? a.directory.frame (a.page k) = none) :
    (PageSource.release (a.page k) s).Meets admits (a.Receding p₀ i (k + 1)) := by
  obtain ⟨hdir, howned⟩ := r.owns
  have hd := howned.directory_mem
  have h := howned.spaces
  obtain ⟨lent, hlends, -⟩ := howned.lends
  have hmem := page_mem (Nat.le_refl k) hk (Nat.le_of_lt hi)
  have hwindow := page_mem (Nat.zero_le k) (hk.trans hi) (Nat.le_refl _)
  have hspan := erase_span hk (Nat.le_of_lt hi)
  obtain ⟨f, hf⟩ := howned.mapped _ hmem
  rw [← hdir] at hf
  have hcases : (PageSource.release (a.page k) s).Meets admits _ :=
    KernelPages.release_cases hf (hlends.spare_free f.start)
  refine ((a.keeps.release r.owns hwindow hmem).and hcases).imp ?_
  rintro s' ⟨howns', hspare, -, t, ht, hpaging⟩
  rw [hspan] at howns'
  rw [hdir] at ht
  have htarget : ∀ d ∈ a.dirs, ∀ j, s'.paging.target? d j = s.paging.target? d j := by
    intro d hd' j
    rw [hpaging, h.target?_written hd ht _ hd']
  constructor
  case toGrowing =>
    refine ⟨howns', fun v hv => ?_, fun d hd' r' => ?_, fun x hx => ?_⟩
    · by_cases hsame : (a.page k).SamePage v
      · rw [Paging.frameOf?_congr hsame, Paging.frameOf?_congr hsame, hunmapped, hpaging,
          h.frameOf?_written_self hd ht]
        exact PageTableEntry.target?_empty
      · rw [hpaging, h.frameOf?_written hd ht _ hd hsame]
        refine r.frameOf?_eq v fun page hpage => ?_
        by_cases heq : page = a.page k
        · rwa [heq]
        · exact hv page (hspan ▸ Finset.mem_erase.mpr ⟨heq, hpage⟩)
    · rw [htarget d hd']
      exact r.target?_eq d hd' r'
    · have hne : a.directory.frame ≠ t := fun heq => h.table_not_mem _ hd _ t ht (heq ▸ hd)
      rw [hpaging]
      exact (r.ready x hx).withEntry hne _ _
  case blank =>
    intro x hx
    rw [hpaging]
    rcases Nat.lt_succ_iff_lt_or_eq.mp hx with hlt | rfl
    · exact (r.blank x hlt).withEntry h hd ht
    · exact .of_withEntry h hd ht
  case starves =>
    refine r.starves.step ?_ (by rw [hpaging, Paging.size_withEntry]) fun bound n hle => ?_
    · rw [howns'.1, hdir, htarget _ hd]
    · have hback := hspare bound
      omega

/-- **What an attempt leaves** that did not succeed: every page that was backed for it has been
released again, up to the one that was refused. -/
theorem attempt_recedes (howns : a.Owns ∅ s)
    (hunmapped : ∀ k < a.count, s.paging.frameOf? a.directory.frame (a.page k) = none) :
    (backRange a.start (a.first * pageSize) (a.count * pageSize) s).Meets admits
      fun (result, s') => ∀ refusal, result = .error refusal →
        ∃ i < a.count, a.Receding s.paging i i s' := by
  refine (backRange_cases (J := fun i => a.Growing s.paging 0 i)
    (K := fun i k => a.Receding s.paging i k) a.fits (fun hi g => g.back_meets hi)
    (fun hi hk r => r.release_meets hi hk (hunmapped _ (hk.trans hi))) (.start howns)).imp ?_
  rintro ⟨result, s'⟩ hresult refusal rfl
  exact hresult

/-! ## What is left -/

namespace Receding

variable {m : Nat} (r : a.Receding p₀ m m b)
include r

/-- Every address goes where it went at first.  Tables may have been added, but they map nothing. -/
theorem frameOf?_same (v : VirtAddr) :
    b.paging.frameOf? a.directory.frame v = p₀.frameOf? a.directory.frame v := by
  refine r.frameOf?_eq v fun page hpage => ?_
  rw [span_self] at hpage
  exact absurd hpage (Finset.notMem_empty page)

/-- No table is gone.  Tables that were created for the attempt stay, and are ready when it is
repeated. -/
theorem tableFrames_subset : p₀.tableFrames a.dirs ⊆ b.paging.tableFrames a.dirs := by
  intro t ht
  obtain ⟨d, hd, i, hi⟩ := Paging.mem_tableFrames.mp ht
  refine Paging.mem_tableFrames.mpr ⟨d, hd, i, ?_⟩
  rcases r.target?_eq d hd i with hsame | ⟨-, hnone⟩
  · rw [hsame, hi]
  · rw [hnone] at hi
    cases hi

/-- **A table that is new maps nothing**, since its region mapped nothing at first, and what the
attempt put there is gone. -/
theorem vacant {t : Frame} (ht : t ∈ b.paging.tableFrames a.dirs) (hnew : t ∉ p₀.tableFrames a.dirs) :
    b.paging.Vacant t := by
  obtain ⟨d, hd, i, hi⟩ := Paging.mem_tableFrames.mp ht
  rcases r.target?_eq d hd i with hsame | ⟨rfl, hnone⟩
  · exact absurd (Paging.mem_tableFrames.mpr ⟨d, hd, i, hsame.symm.trans hi⟩) hnew
  intro j
  have hreach := r.owns.2.spaces.reaches_table _ hd i t hi
  obtain ⟨e, hread⟩ := Option.isSome_iff_exists.mp ((Ram.reaches_iff_read? j).mp hreach)
  obtain ⟨v, rfl, rfl⟩ := VirtAddr.exists_indices i j
  have hsame := r.frameOf?_same v
  rw [Paging.frameOf?, Paging.frameOf?, hi, hnone, Option.bind_some, Option.bind_none,
    Paging.target?_of_read? hread] at hsame
  refine ⟨e, hread, ?_⟩
  by_contra hpresent
  rw [PageTableEntry.target?_of_isPresent (Bool.eq_true_of_not_eq_false hpresent)] at hsame
  cases hsame

/-- **The frames that are used in addition** are those of the new tables.  All others have come
back. -/
theorem used_eq (howns : a.Owns ∅ s) (hpaging : s.paging = p₀) :
    ∃ before after, s.frames.stats = .ok before ∧ b.frames.stats = .ok after
      ∧ after.used = before.used
          + (b.paging.tableFrames a.dirs \ p₀.tableFrames a.dirs).card := by
  subst hpaging
  have howns' := r.owns
  rw [span_self] at howns'
  obtain ⟨lent, hlends, shares⟩ := howns.2.lends
  obtain ⟨lent', hlends', shares'⟩ := howns'.2.lends
  obtain ⟨before, hbefore, -, hused, -⟩ := hlends.stats_ok
  obtain ⟨after, hafter, -, hused', -⟩ := hlends'.stats_ok
  have htables := Finset.card_sdiff_add_card_eq_card r.tableFrames_subset
  have hempty : ∀ p : Paging, (p.pageFrames a.directory.frame ∅).card = 0 := fun p => rfl
  refine ⟨before, after, hbefore, hafter, ?_⟩
  rw [hused, hused', shares.card_lent, shares'.card_lent, hempty, hempty]
  omega

end Receding

/-! ## The same attempt, made again -/

/-- **An attempt that is repeated.**  The pages from number `i` up to number `j` are backed, and
nothing else is different from what the first attempt left: memory has only the entries of these pages
replaced, and their frames are borrowed. -/
structure Retrying (a : HeapGrowth) (b : KernelPages) (i j : Nat) (s : KernelPages) : Prop where
  owns : a.Owns (a.span i j) s
  overlays : b.paging.Overlays a.directory.frame (a.span i j) s.paging
  borrows : b.frames.Borrows s.frames

/-- **Where frames are lacking, a page is refused again**, and no table is created for it this time. -/
theorem Retrying.back_of_starves (t : a.Retrying b 0 i s) (starves : s.Starves a.range (a.page i) 0) :
    (PageSource.back (a.page i) s).Meets admits fun (result, s') =>
      (∃ cause, result = .error cause) ∧ a.Retrying b 0 i s' := by
  obtain ⟨hdir, howned⟩ := t.owns
  have hcases : (PageSource.back (a.page i) s).Meets admits _ :=
    KernelPages.back_cases howned.housed (hdir ▸ howned.directory_mem) (a.page i)
  refine hcases.imp ?_
  rintro ⟨result, s'⟩ ends
  obtain ⟨cause, rfl⟩ := starves.refused ends
  obtain ⟨rfl, -⟩ := ends.starves
  exact ⟨⟨cause, rfl⟩, t⟩

namespace Receding

variable {m : Nat} (r : a.Receding p₀ m m b) (hm : m < a.count)
include r

/-- The frames of the pages that are backed again were not lent out, so that giving them back restores
the allocator. -/
theorem fresh (t : a.Retrying b i j s) {f : Frame} {page : VirtAddr} (hpage : page ∈ a.span i j)
    (hf : s.paging.frameOf? a.directory.frame page = some f) :
    ∃ lent₀ lent, b.frames.Lends a.range lent₀ ∧ s.frames.Lends a.range lent ∧ f ∉ lent₀
      ∧ f ∈ lent := by
  obtain ⟨-, howned₀⟩ := r.owns
  obtain ⟨-, howned⟩ := t.owns
  obtain ⟨lent₀, hlends₀, shares₀⟩ := howned₀.lends
  obtain ⟨lent, hlends, shares⟩ := howned.lends
  have hmem : f ∈ s.paging.pageFrames a.directory.frame (a.span i j) :=
    Paging.mem_pageFrames.mpr ⟨page, hpage, hf⟩
  rw [t.overlays.tableFrames_eq howned₀.spaces howned₀.directory_mem] at shares
  rw [span_self, Paging.pageFrames, Finset.biUnion_empty] at shares₀
  obtain ⟨-, hdirs, -, htables, -, hheld⟩ := shares.one_owner f
  refine ⟨lent₀, lent, hlends₀, hlends, fun hlent => ?_, shares.pages_subset hmem⟩
  rcases (shares₀.mem_lent f).mp hlent with h | h | h | h
  · exact hdirs ⟨h, hmem⟩
  · exact htables ⟨h, hmem⟩
  · exact Finset.notMem_empty f h
  · exact hheld ⟨hmem, h⟩

/-- **Nothing is left** once all pages are released: entries and frames are those that the first
attempt left. -/
theorem eq_of_retrying (t : a.Retrying b i i s) : s.paging = b.paging ∧ s.frames = b.frames := by
  obtain ⟨howns, hoverlays, hborrows⟩ := t
  rw [span_self] at howns hoverlays
  have hpaging := hoverlays.eq
  have howns₀ := r.owns
  rw [span_self] at howns₀
  obtain ⟨lent₀, hlends₀, shares₀⟩ := howns₀.2.lends
  obtain ⟨lent, hlends, shares⟩ := howns.2.lends
  rw [hpaging] at shares
  obtain rfl : lent = lent₀ := by
    ext f
    rw [shares.mem_lent, shares₀.mem_lent]
  exact ⟨hpaging, hborrows.eq_of_lends hlends₀ hlends⟩

include hm

/-- **One page more is backed again**, or refused already.  Each page that is backed brings the attempt
one frame nearer to where it fails. -/
theorem back_again (hi : i < m) (t : a.Retrying b 0 i s)
    (starves : s.Starves a.range (a.page m) (m - i)) :
    (PageSource.back (a.page i) s).Meets admits fun (result, s') =>
      match result with
      | .ok () => a.Retrying b 0 (i + 1) s' ∧ s'.Starves a.range (a.page m) (m - (i + 1))
      | .error _ => a.Retrying b 0 i s' := by
  obtain ⟨hdir₀, howned₀⟩ := r.owns
  obtain ⟨hdir, howned⟩ := t.owns
  have hd := howned₀.directory_mem
  have h₀ := howned₀.spaces
  have hcount := hi.trans hm
  have hwindow := page_mem (Nat.zero_le i) hcount (Nat.le_refl _)
  obtain ⟨lent, hlends, -⟩ := howned.lends
  have ready := t.overlays.ready h₀ hd (r.ready i hi)
  obtain ⟨table, htable⟩ := ready.target?
  have hreach := howned.spaces.reaches_table _ hd _ _ htable
  have hcases : (PageSource.back (a.page i) s).Meets admits _ :=
    KernelPages.back_of_ready hlends (hdir ▸ ready) (hdir ▸ htable) hreach
  refine ((a.keeps.back t.owns hwindow (page_not_mem hcount)).and hcases).imp ?_
  rintro ⟨result, s'⟩ ⟨howns', hresult⟩
  cases result with
  | error cause =>
      obtain rfl := hresult
      exact t
  | ok =>
      obtain ⟨f, halloc, hpaging⟩ := hresult
      rw [a.insert_span (Nat.zero_le i)] at howns'
      have htable₀ := (t.overlays.target?_eq h₀ hd hd _).symm.trans htable
      have hoverlays := t.overlays.insert htable₀ (.ofFrame f (.writable ||| .present))
      rw [a.insert_span (Nat.zero_le i), ← hpaging] at hoverlays
      refine ⟨⟨howns', hoverlays, t.borrows.alloc halloc⟩, ?_⟩
      refine starves.step ?_ (by rw [hpaging, Paging.size_withEntry]) fun bound n hle => ?_
      · rw [howns'.1, hdir, hoverlays.target?_eq h₀ hd hd, t.overlays.target?_eq h₀ hd hd]
      · have htaken := (hlends.spare_of_alloc halloc bound).1
        omega

/-- **One page more is released again.**  Its entry is empty, as it was after the first attempt. -/
theorem release_again (hi : i ≤ m) (hk : k < i) (t : a.Retrying b k i s) :
    (PageSource.release (a.page k) s).Meets admits (a.Retrying b (k + 1) i) := by
  obtain ⟨-, howned₀⟩ := r.owns
  obtain ⟨hdir, howned⟩ := t.owns
  have hd := howned₀.directory_mem
  have h₀ := howned₀.spaces
  have hcount : k < a.count := (hk.trans_le hi).trans hm
  have hmem := page_mem (Nat.le_refl k) hk (hi.trans (Nat.le_of_lt hm))
  have hwindow := page_mem (Nat.zero_le k) hcount (Nat.le_refl _)
  have hspan := erase_span hk (hi.trans (Nat.le_of_lt hm))
  obtain ⟨f, hf⟩ := howned.mapped _ hmem
  obtain ⟨lent₀, lent, hlends₀, hlends, hnot, hlent⟩ := r.fresh t hmem hf
  rw [← hdir] at hf
  rw [← f.frame_start] at hnot hlent
  have hcases : (PageSource.release (a.page k) s).Meets admits _ :=
    KernelPages.release_cases hf (t.borrows.giveBack hlends₀ hlends hnot hlent)
  refine ((a.keeps.release t.owns hwindow hmem).and hcases).imp ?_
  rintro s' ⟨howns', hborrows, -, table, htable, hpaging⟩
  rw [hdir] at htable
  rw [hspan] at howns'
  obtain ⟨table₀, htable₀, hempty⟩ := r.blank k (hk.trans_le hi)
  obtain rfl : table = table₀ := Option.some.inj <|
    htable.symm.trans ((t.overlays.target?_eq h₀ hd hd _).trans htable₀)
  have hreach := howned.spaces.reaches_table _ hd _ _ htable
  have hoverlays := t.overlays.erase htable₀ hempty hreach
  rw [hspan, ← hpaging] at hoverlays
  exact ⟨howns', hoverlays, hborrows⟩

/-- **The same attempt, made again**, does not succeed either, and leaves nothing.  The tables that the
first one left are used, and no new ones are needed. -/
theorem attempt_again (hpaging : s.paging = b.paging) (hframes : s.frames = b.frames)
    (hdirectory : s.directory = a.directory) :
    (backRange a.start (a.first * pageSize) (a.count * pageSize) s).Meets admits
      fun (result, s') => (∃ refusal, result = .error refusal) ∧ s'.paging = b.paging
        ∧ s'.frames = b.frames := by
  have howned₀ := r.owns.2
  obtain ⟨lent₀, hlends₀, -⟩ := howned₀.lends
  have hstart : a.Retrying b 0 0 s := by
    refine ⟨⟨hdirectory, ?_⟩, ?_, ?_⟩
    · rw [hpaging, hframes, span_self, ← a.span_self m]
      exact howned₀
    · rw [hpaging, span_self]
      exact .refl ..
    · rw [hframes]
      exact .refl hlends₀
  have hstarves : s.Starves a.range (a.page m) m :=
    r.starves.step (by rw [hpaging, hdirectory, r.owns.1]) (by rw [hpaging])
      fun bound n hle => hframes ▸ hle
  have hrange : (backRange a.start (a.first * pageSize) (a.count * pageSize) s).Meets admits _ :=
    backRange_cases (J := fun i s => i ≤ m ∧ a.Retrying b 0 i s
        ∧ s.Starves a.range (a.page m) (m - i))
      (K := fun i k s => i ≤ m ∧ a.Retrying b k i s) a.fits ?_ ?_
      ⟨Nat.zero_le m, hstart, hstarves⟩
  · refine hrange.imp ?_
    rintro ⟨result, s'⟩ hresult
    cases result with
    | ok => exact absurd hm (Nat.not_lt.mpr hresult.1)
    | error refusal =>
        obtain ⟨i, -, -, t⟩ := hresult
        exact ⟨⟨refusal, rfl⟩, r.eq_of_retrying t⟩
  · rintro i s - ⟨hle, t, starves⟩
    rcases Nat.lt_or_eq_of_le hle with hlt | rfl
    · refine (r.back_again hm hlt t starves).imp ?_
      rintro ⟨result, s'⟩ hresult
      cases result with
      | ok => exact ⟨hlt, hresult⟩
      | error cause => exact ⟨hle, hresult⟩
    · rw [Nat.sub_self] at starves
      refine (t.back_of_starves starves).imp ?_
      rintro ⟨result, s'⟩ ⟨⟨cause, rfl⟩, t'⟩
      exact ⟨hle, t'⟩
  · rintro i k s - hk ⟨hle, t⟩
    exact (r.release_again hm hle hk t).imp fun s' t' => ⟨hle, t'⟩

end Receding

end HeapGrowth

end TinyKernel
