import TinyKernel.Proofs.Kernel.Growth
import TinyKernel.Proofs.Paging.Starting

/-!
# Booting succeeds exactly when it can

A kernel boots if its layout is valid, its heap ends before addresses do, and enough frames can be
handed out.  How many are enough is known beforehand (`BootConfig.framesNeeded`): one for the kernel's
directory, one for the table of the low memory, one for each page of the initial heap, and one for the
table of each region of 4 MiB that the initial heap touches.  If any of this is lacking, booting ends in
a fault; and if nothing is, then so many frames are taken, and the address space is known completely.

## What is load-bearing

The number of frames that are taken is known at every moment (`HeapGrowth.Founding.card_lent`), since
tables are created once for a region.  A page is refused when no frame is left for it, or none for its
table.  So there were fewer frames than are taken once that page is backed, and these are not more than
are needed in the end (`HeapGrowth.taken_add_le`).

* `BootConfig.Bootable` — what it takes to boot, which can be computed
* `Kernel.AsBooted` — what a kernel is like that has just booted
* `HeapGrowth.Founding`, `HeapGrowth.Lacking` — the first pages of the heap, and what they take
* `Kernel.Started.init_meets` — the heap is set up, or there are too few frames
* `Kernel.boot_iff_bootable` — booting succeeds exactly when it can
* `Kernel.boot_of_bootable` — what is known of the kernel then, for the runs that start from it
-/

namespace TinyKernel

/-- Bytes of the region that a page table is for: 4 MiB, one entry of a directory. -/
def regionSize : Nat := entriesPerTable * pageSize

/-! ## What it takes to boot -/

namespace BootConfig

/-- The frames that a layout speaks of: those of its memory, without those that it reserves. -/
def frameRange (c : BootConfig) : FrameRange := .ofMemory c.memoryTop c.reservedTop

/-- An address is one of the initial heap.  The part that the heap may grow into later does not
count. -/
def inInitialHeap (c : BootConfig) (v : VirtAddr) : Prop :=
  c.heapStart.toNat ≤ v.val.toNat ∧ v.val.toNat < c.heapStart.toNat + c.heapInitialSize

/-- **The regions that the initial heap touches**, by number.  A region counts even if only one page of
the heap lies in it, since that page needs a table all the same. -/
def heapRegions (c : BootConfig) : Finset Nat :=
  (Finset.Ico c.heapStart.toNat (c.heapStart.toNat + c.heapInitialSize)).image (· / regionSize)

/-- **How many frames booting takes**: for the kernel's directory and the table of the low memory, for
the pages of the initial heap, and for the tables of its regions.  Nothing else takes a frame, and none
is given back. -/
def framesNeeded (c : BootConfig) : Nat := 2 + c.heapInitialSize / pageSize + c.heapRegions.card

theorem two_le_framesNeeded (c : BootConfig) : 2 ≤ c.framesNeeded := by
  rw [framesNeeded, Nat.add_assoc]
  exact Nat.le_add_right 2 _

/-- **The layout is valid**, and its heap ends before addresses do.  The second part is no rule of the
layout's own, and is found out only when the heap is set up. -/
structure Placed (c : BootConfig) : Prop where
  valid : c.validate = .ok ()
  heap_fits : c.heapStart.toNat + c.heapMaxSize ≤ 2 ^ 32 - 1

/-- **What it takes to boot**, said of the layout alone: it is the layout that decides, once the
machine is the one it describes.  All of it can be decided by computing with the layout, and no kernel
has to be built for that. -/
structure Bootable (c : BootConfig) : Prop extends c.Placed where
  /-- There are enough frames that can be handed out. -/
  frames_suffice : c.framesNeeded ≤ c.frameRange.total - c.frameRange.reserved

/-- **A valid layout has a place for its heap** if the heap can have that range.  The rules of the
layout and the test of the heap overlap, and together come to this. -/
theorem placed_iff_validRange {c : BootConfig} (valid : c.validate = .ok ()) :
    c.Placed ↔ Heap.validRange ⟨c.heapStart⟩ c.heapInitialSize c.heapMaxSize = true := by
  obtain ⟨-, hlow, haligned, hinitial, hmax, hpos, hle⟩ := validate_eq_ok_iff.mp valid
  rw [Heap.validRange_iff]
  constructor
  · intro placed
    have hfits := placed.heap_fits
    have hoffset : (VirtAddr.mk c.heapStart).pageOffset = 0 := by
      apply UInt32.toNat_inj.mp
      rw [VirtAddr.pageOffset, UInt32.toNat_mod]
      exact haligned
    have hpage := Nat.le_of_dvd hpos (Nat.dvd_of_mod_eq_zero hinitial)
    refine ⟨hoffset, hinitial, hmax, hpage, hle, ?_, ?_⟩
    · simp only [identityMapSize, noBlock, UInt32.reduceToNat] at hlow ⊢
      omega
    · dsimp only
      omega
  · rintro ⟨-, -, -, -, -, -, hfits⟩
    exact ⟨valid, Nat.le_pred_of_lt hfits⟩

/-- The regions of the initial heap follow one another, so that the first and the last tell how many
there are. -/
theorem card_heapRegions {c : BootConfig} (hpos : 0 < c.heapInitialSize) :
    c.heapRegions.card = (c.heapStart.toNat + c.heapInitialSize - 1) / regionSize + 1
      - c.heapStart.toNat / regionSize := by
  have heq : c.heapRegions = Finset.Ico (c.heapStart.toNat / regionSize)
      ((c.heapStart.toNat + c.heapInitialSize - 1) / regionSize + 1) := by
    ext r
    simp only [heapRegions, Finset.mem_image, Finset.mem_Ico, Nat.lt_succ_iff]
    constructor
    · rintro ⟨x, ⟨hlow, hhigh⟩, rfl⟩
      exact ⟨Nat.div_le_div_right hlow, Nat.div_le_div_right (Nat.le_pred_of_lt hhigh)⟩
    · rintro ⟨hlow, hhigh⟩
      refine ⟨max c.heapStart.toNat (r * regionSize), ⟨Nat.le_max_left .., ?_⟩, ?_⟩
      all_goals
        simp only [regionSize, entriesPerTable, pageSize] at *
        omega
  rw [heq, Nat.card_Ico]

/-- What it takes to boot can be computed: all is said in numbers of the layout. -/
theorem bootable_iff {c : BootConfig} : c.Bootable ↔
    c.validate = .ok () ∧ c.heapStart.toNat + c.heapMaxSize ≤ 2 ^ 32 - 1
      ∧ 2 + c.heapInitialSize / pageSize
          + ((c.heapStart.toNat + c.heapInitialSize - 1) / regionSize + 1
            - c.heapStart.toNat / regionSize)
        ≤ c.frameRange.total - c.frameRange.reserved := by
  constructor
  · intro bootable
    obtain ⟨-, -, -, -, -, hpos, -⟩ := validate_eq_ok_iff.mp bootable.valid
    have henough := bootable.frames_suffice
    rw [framesNeeded, card_heapRegions hpos] at henough
    exact ⟨bootable.valid, bootable.heap_fits, henough⟩
  · rintro ⟨hvalid, hfits, henough⟩
    obtain ⟨-, -, -, -, -, hpos, -⟩ := validate_eq_ok_iff.mp hvalid
    refine ⟨⟨hvalid, hfits⟩, ?_⟩
    rwa [framesNeeded, card_heapRegions hpos]

instance (c : BootConfig) : Decidable c.Bootable := decidable_of_iff' _ bootable_iff

-- the standard layout needs 259 frames above its first two MiB
example : { standard with memoryTop := 0x303000 }.Bootable
    ∧ ¬ { standard with memoryTop := 0x302fff }.Bootable := by decide

end BootConfig

/-- **A kernel that has just booted**, as a client of its memory finds it: which frames are in use,
where every address goes, and which directory is loaded.  What the processes are is said elsewhere, as
it does not depend on the layout. -/
structure Kernel.AsBooted {ε : Type} (config : BootConfig) (k : Kernel ε) : Prop where
  /-- Of the frames that can be handed out, so many are in use as are needed. -/
  used_card : ((Finset.Ico config.frameRange.reserved config.frameRange.total).filter fun i =>
    k.frames.isUsed i = .ok true).card = config.framesNeeded
  stats_ok : ∃ stats, k.frameStats = .ok stats ∧ stats.total = config.frameRange.total
    ∧ stats.used = config.frameRange.reserved + config.framesNeeded
    ∧ stats.free + stats.used = stats.total
  /-- The low memory is mapped to itself. -/
  low : ∀ v, v.val.toNat < identityMapSize → k.translate k.directory v = some ⟨v.val⟩
  /-- Each page of the initial heap has a frame, and none that is reserved. -/
  heap : ∀ v, config.inInitialHeap v → ∃ f : Frame,
    config.reservedTop.toNat ≤ f.start.val.toNat
      ∧ k.translate k.directory v = some ⟨f.start.val + v.pageOffset⟩
  /-- No two pages of it have the same one. -/
  heap_inj : ∀ v w, config.inInitialHeap v → config.inInitialHeap w →
    (k.translate k.directory v).map PhysAddr.frame
      = (k.translate k.directory w).map PhysAddr.frame → v.SamePage w
  unmapped : ∀ v, identityMapSize ≤ v.val.toNat → ¬ config.inInitialHeap v →
    k.translate k.directory v = none
  /-- The directory of the kernel is in use. -/
  loaded : k.cpu.loadedDirectory = k.directory.address
  enabled : k.cpu.pagingEnabled = true
  current : k.paging.current? = some k.directory
  kernel : k.paging.kernel? = some k.directory

/-! ## The first pages of the heap -/

namespace HeapGrowth

variable {a : HeapGrowth} {s₀ s s' : KernelPages} {i j : Nat} {r : Fin entriesPerTable}
  {admits : Fault → Prop}

/-- The regions of the first `j` of the pages that are asked for.  Each needs a table, if it has none
yet. -/
def regions (a : HeapGrowth) (j : Nat) : Finset (Fin entriesPerTable) :=
  (Finset.range j).image fun k => (a.page k).directoryIndex

theorem mem_regions : r ∈ a.regions j ↔ ∃ k < j, (a.page k).directoryIndex = r := by
  simp only [regions, Finset.mem_image, Finset.mem_range]

theorem regions_succ (a : HeapGrowth) (j : Nat) :
    a.regions (j + 1) = insert (a.page j).directoryIndex (a.regions j) := by
  rw [regions, Finset.range_add_one, Finset.image_insert]
  rfl

/-- **How many frames are taken** once the first `j` pages are backed, if nothing but the directory and
its tables was there before.  A table that several pages share is counted once. -/
def taken (a : HeapGrowth) (p₀ : Paging) (j : Nat) : Nat :=
  1 + (p₀.regions a.directory.frame ∪ a.regions j).card + j

/-- **There are too few frames** for all of the pages that are asked for.  Which page is refused then
does not matter. -/
def Lacking (a : HeapGrowth) (p₀ : Paging) : Prop :=
  a.range.total - a.range.reserved < a.taken p₀ a.count

/-- Each page takes a frame, and may take one more for its region.  So a page that is refused early
shows that the last one would have been, too. -/
theorem taken_add_le (a : HeapGrowth) (p₀ : Paging) (hle : i ≤ j) :
    a.taken p₀ i + (j - i) ≤ a.taken p₀ j := by
  have hregions : a.regions i ⊆ a.regions j :=
    Finset.image_subset_image (Finset.range_subset_range.mpr hle)
  have hcard := Finset.card_le_card (Finset.union_subset_union_right
    (s := p₀.regions a.directory.frame) hregions)
  simp only [taken]
  omega

/-- **The heap is being founded**: the first `i` pages are backed, and their regions have got tables,
and no other region has.  Beside growth in general, it keeps count of the tables, which is what the
number of frames depends on. -/
structure Founding (a : HeapGrowth) (s₀ : KernelPages) (i : Nat) (s : KernelPages) : Prop
    extends a.Growing s₀.paging 0 i s where
  resembles : s₀.Resembles s
  regions_eq : s.paging.regions a.directory.frame
    = s₀.paging.regions a.directory.frame ∪ a.regions i

theorem Founding.start (hdirectory : s.directory = a.directory)
    (owned : Owned a.range a.directory a.dirs a.held ∅ s.paging s.frames) : a.Founding s 0 s where
  toGrowing := .start ⟨hdirectory, owned⟩
  resembles := .refl s
  regions_eq := (Finset.union_empty _).symm

section

variable (alone : a.dirs = {a.directory.frame}) (idle : a.held = ∅)
include alone idle

/-- **What was taken** is known at every moment: nobody else takes frames while a kernel boots. -/
theorem Founding.card_lent (f : a.Founding s₀ i s) (hi : i ≤ a.count) :
    ∃ lent, s.frames.Lends a.range lent ∧ lent.card = a.taken s₀.paging i := by
  obtain ⟨-, howned⟩ := f.owns
  rw [alone, idle] at howned
  obtain ⟨lent, hlends, hcard⟩ := howned.card_lent
  have hspan : (a.span 0 i).card = i := by
    have hfits := pages_fit_of_le (Nat.add_le_add_left hi a.first) a.fits
    rw [span, card_pageSpan hfits, Nat.add_zero, Nat.add_sub_cancel_left]
  refine ⟨lent, hlends, ?_⟩
  rw [hcard, hspan, f.regions_eq, taken]

/-- **A page more is backed**, or there were too few frames.  A refusal has no other cause, since every
frame that is handed out can be reached. -/
theorem Founding.back_meets (f : a.Founding s₀ i s) (hi : i < a.count)
    (hsize : a.range.total ≤ s₀.paging.ram.tables.size) :
    (PageSource.back (a.page i) s).Meets admits fun (result, s') =>
      match result with
      | .ok () => a.Founding s₀ (i + 1) s'
      | .error _ => a.Lacking s₀.paging := by
  obtain ⟨hdir, howned⟩ := f.owns
  have hd : s.directory.frame ∈ a.dirs := hdir ▸ howned.directory_mem
  have hcases : (PageSource.back (a.page i) s).Meets admits _ :=
    KernelPages.back_cases howned.housed hd (a.page i)
  refine ((f.toGrowing.back_meets hi).and hcases).imp ?_
  rintro ⟨result, s'⟩ ⟨hgrows, ends⟩
  cases result with
  | ok =>
      obtain ⟨-, target, t, hwrites⟩ := ends.writesPage howned.housed hd
      refine ⟨hgrows, f.resembles.trans ends.resembles, ?_⟩
      rw [← hdir, hwrites.regions_eq hd, hdir, f.regions_eq, regions_succ, Finset.union_insert]
  | error cause =>
      obtain ⟨lent, hlends, hcard⟩ := f.card_lent alone idle (Nat.le_of_lt hi)
      have hspare := hlends.spare_add_card
      have hmore := a.taken_add_le s₀.paging (Nat.le_succ i)
      have hrest := a.taken_add_le s₀.paging (Nat.succ_le_of_lt hi)
      rw [Nat.succ_eq_add_one] at hmore hrest
      show a.range.total - a.range.reserved < a.taken s₀.paging a.count
      rcases ends.starves.2 with hnone | ⟨habsent, hone⟩
      · omega
      · -- one frame is left for the page, and none for the table
        have htotal := s.frames.spare_mono (hsize.trans_eq f.resembles.size_eq.symm)
        have hnew : a.taken s₀.paging (i + 1) = a.taken s₀.paging i + 2 := by
          rw [hdir] at habsent
          have hnot := Paging.not_mem_regions.mpr habsent
          rw [f.regions_eq] at hnot
          rw [taken, taken, regions_succ, Finset.union_insert, Finset.card_insert_of_notMem hnot]
          omega
        omega

/-- **The heap is founded**, or there were too few frames.  The fault that is admitted belongs to the
second case as well: what was backed is released then, and the result does not matter. -/
theorem Founding.backRange_meets (f : a.Founding s₀ 0 s)
    (hsize : a.range.total ≤ s₀.paging.ram.tables.size) :
    (backRange a.start (a.first * pageSize) (a.count * pageSize) s).Meets
      (fun _ => a.Lacking s₀.paging) fun (result, s') =>
        match result with
        | .ok () => a.Founding s₀ a.count s'
        | .error _ => a.Lacking s₀.paging := by
  refine (backRange_cases (J := a.Founding s₀) (K := fun _ _ _ => a.Lacking s₀.paging) a.fits
    (fun hi f => f.back_meets alone idle hi hsize)
    (fun _ _ hfew => (Run.meets_returns _).mono (fun _ _ => hfew) fun _ _ => hfew) f).imp ?_
  rintro ⟨result, s'⟩ hresult
  cases result with
  | ok => exact hresult
  | error refusal =>
      obtain ⟨-, -, hfew⟩ := hresult
      exact hfew

end

end HeapGrowth

/-! ## The initial heap -/

namespace BootConfig.Placed

variable {config : BootConfig} {directory : PageDirectory} {v : VirtAddr} {p : Paging} {k : Nat}

/-- The pages of the initial heap, as an attempt to grow from nothing. -/
def growth (placed : config.Placed) (directory : PageDirectory) : HeapGrowth where
  range := config.frameRange
  directory
  dirs := {directory.frame}
  held := ∅
  start := ⟨config.heapStart⟩
  first := 0
  count := config.heapInitialSize / pageSize
  aligned := heapStart_aligned placed.valid
  fits := by
    obtain ⟨-, -, -, -, -, -, hle⟩ := validate_eq_ok_iff.mp placed.valid
    have hfits := placed.heap_fits
    have hpages := Nat.div_mul_le_self config.heapInitialSize pageSize
    rw [Nat.zero_add]
    dsimp only
    omega

variable (placed : config.Placed)

/-- The initial heap is made of whole pages, as the layout is valid. -/
theorem growth_bytes (directory : PageDirectory) :
    (placed.growth directory).count * pageSize = config.heapInitialSize := by
  obtain ⟨-, -, -, hinitial, -⟩ := validate_eq_ok_iff.mp placed.valid
  exact Nat.div_mul_cancel (Nat.dvd_of_mod_eq_zero hinitial)

theorem growth_page_toNat (hk : k < (placed.growth directory).count) :
    ((placed.growth directory).page k).val.toNat = config.heapStart.toNat + k * pageSize := by
  have hfits := pages_fit_of_le (Nat.add_le_add_left (Nat.succ_le_of_lt hk) _)
    (placed.growth directory).fits
  have hfirst : (placed.growth directory).first = 0 := rfl
  rw [Nat.add_mul, Nat.succ_mul] at hfits
  rw [HeapGrowth.page, pageAt_toNat, hfirst, Nat.zero_add]
  · rfl
  · rw [Nat.add_mul]
    simp only [pageSize] at *
    omega

/-- **The pages of the initial heap** are those of its addresses.  What is proved page by page is said
of addresses in this way. -/
theorem exists_samePage :
    (∃ page ∈ (placed.growth directory).span 0 (placed.growth directory).count, page.SamePage v) ↔
      config.inInitialHeap v := by
  have hfirst : (placed.growth directory).first = 0 := rfl
  rw [HeapGrowth.span, exists_samePage_iff (heapStart_aligned placed.valid)
    (placed.growth directory).fits, hfirst, Nat.zero_add, Nat.zero_add, placed.growth_bytes,
    Nat.zero_mul, Nat.add_zero]
  exact Iff.rfl

/-- **The regions of the initial heap** are those of its pages, whichever way they are counted. -/
theorem image_regions (directory : PageDirectory) :
    ((placed.growth directory).regions (placed.growth directory).count).image Fin.val
      = config.heapRegions := by
  have hbytes := placed.growth_bytes directory
  have haligned := heapStart_aligned placed.valid
  have hpage : ∀ k < (placed.growth directory).count,
      ((placed.growth directory).page k).directoryIndex.val
        = (config.heapStart.toNat + k * pageSize) / regionSize :=
    fun k hk => congrArg (· / regionSize) (placed.growth_page_toNat hk)
  ext r
  simp only [Finset.mem_image, HeapGrowth.mem_regions, heapRegions, Finset.mem_Ico]
  constructor
  · rintro ⟨_, ⟨k, hk, rfl⟩, rfl⟩
    have hlt := (Nat.mul_lt_mul_right (by decide : 0 < pageSize)).mpr hk
    exact ⟨config.heapStart.toNat + k * pageSize, by omega, (hpage k hk).symm⟩
  · rintro ⟨x, ⟨hlow, hhigh⟩, rfl⟩
    have hk : (x - config.heapStart.toNat) / pageSize < (placed.growth directory).count := by
      rw [Nat.div_lt_iff_lt_mul (by decide), hbytes]
      omega
    refine ⟨_, ⟨_, hk, rfl⟩, (hpage _ hk).trans ?_⟩
    simp only [regionSize, entriesPerTable, pageSize] at haligned ⊢
    omega

/-- **What is taken for the initial heap** is what is needed, since no page of it lies in the region of
the low memory, whose table is there already. -/
theorem taken_eq (low : p.IdentityMapped directory.frame) :
    (placed.growth directory).taken p (placed.growth directory).count = config.framesNeeded := by
  obtain ⟨-, hlow, -⟩ := validate_eq_ok_iff.mp placed.valid
  have himage := placed.image_regions directory
  have hdirectory : (placed.growth directory).directory = directory := rfl
  have hone : p.regions directory.frame = {⟨0, by decide⟩} := by
    ext i
    rw [low.mem_regions_iff, Finset.mem_singleton, Fin.ext_iff]
  have hapart : (⟨0, by decide⟩ : Fin entriesPerTable)
      ∉ (placed.growth directory).regions (placed.growth directory).count := by
    intro hmem
    have hzero := himage ▸ Finset.mem_image_of_mem Fin.val hmem
    obtain ⟨x, hx, hdiv⟩ := Finset.mem_image.mp hzero
    rw [Finset.mem_Ico] at hx
    simp only [regionSize, entriesPerTable, pageSize, identityMapSize] at hdiv hlow
    omega
  rw [HeapGrowth.taken, hdirectory, hone, Finset.singleton_union,
    Finset.card_insert_of_notMem hapart, framesNeeded, ← himage,
    Finset.card_image_of_injective _ Fin.val_injective]
  simp only [growth]
  omega

/-- **The initial heap is backed**, or there are too few frames.  This is where the frames that are
needed are compared with those that there are. -/
theorem backRange_meets {s : KernelPages} (hdirectory : s.directory = directory)
    (howned : Owned config.frameRange directory {directory.frame} ∅ ∅ s.paging s.frames)
    (hsize : config.frameRange.total ≤ s.paging.ram.tables.size)
    (low : s.paging.IdentityMapped directory.frame) :
    (backRange ⟨config.heapStart⟩ 0 config.heapInitialSize s).Meets (fun _ => ¬ config.Bootable)
      fun (result, s') =>
        match result with
        | .ok () => config.Bootable
            ∧ (placed.growth directory).Founding s (placed.growth directory).count s'
        | .error _ => ¬ config.Bootable := by
  have founding : (placed.growth directory).Founding s 0 s := .start hdirectory howned
  have hbacked := founding.backRange_meets rfl rfl hsize
  have hfirst : (placed.growth directory).first = 0 := rfl
  rw [placed.growth_bytes, hfirst, Nat.zero_mul] at hbacked
  have hfew : (placed.growth directory).Lacking s.paging → ¬ config.Bootable := by
    intro lacking bootable
    rw [HeapGrowth.Lacking, placed.taken_eq low] at lacking
    exact absurd bootable.frames_suffice (Nat.not_le.mpr lacking)
  refine hbacked.mono (fun _ => hfew) ?_
  rintro ⟨result, s'⟩ hresult
  cases result with
  | error refusal => exact hfew hresult
  | ok =>
      obtain ⟨lent, hlends, hcard⟩ := hresult.card_lent rfl rfl (Nat.le_refl _)
      have hspare := hlends.spare_add_card
      rw [hcard, placed.taken_eq low] at hspare
      exact ⟨⟨placed, (Nat.le_add_left _ _).trans_eq hspare⟩, hresult⟩

end BootConfig.Placed

/-! ## Booting -/

namespace Kernel

variable {ε : Type} {config : BootConfig} {directory : PageDirectory} {s₀ s : KernelPages} {heap : Heap}

/-- **Once the heap is founded**, the kernel is as it should be.  All that comes after the last page
changes neither frames nor entries. -/
theorem asBooted_of_founding (placed : config.Placed)
    (f : (placed.growth directory).Founding s₀ (placed.growth directory).count s)
    (low : s₀.paging.IdentityMapped directory.frame)
    (loaded : s₀.cpu.loadedDirectory = directory.address) (enabled : s₀.cpu.pagingEnabled = true)
    (current : s₀.paging.current? = some directory) (kernel : s₀.paging.kernel? = some directory) :
    (booted config directory s heap : Kernel ε).AsBooted config := by
  obtain ⟨lent, hlends, hcard⟩ := f.card_lent rfl rfl (Nat.le_refl _)
  rw [placed.taken_eq low] at hcard
  obtain ⟨-, howned⟩ := f.owns
  obtain ⟨-, hlow, -⟩ := BootConfig.validate_eq_ok_iff.mp placed.valid
  have hother : ∀ v, ¬ config.inInitialHeap v → s.paging.frameOf? directory.frame v
      = if v.val.toNat < identityMapSize then some (PhysAddr.mk v.val).frame else none := by
    intro v hv
    refine (f.frameOf?_eq v fun page hpage hsame => hv ?_).trans (low.frameOf?_eq v)
    exact placed.exists_samePage.mp ⟨page, hpage, hsame⟩
  have hheap : ∀ v, config.inInitialHeap v → ∃ page ∈
      (placed.growth directory).span 0 (placed.growth directory).count, page.SamePage v
        ∧ s.paging.frameOf? directory.frame v = s.paging.frameOf? directory.frame page := by
    intro v hv
    obtain ⟨page, hpage, hsame⟩ := placed.exists_samePage.mpr hv
    exact ⟨page, hpage, hsame, Paging.frameOf?_congr hsame⟩
  constructor
  case used_card =>
    rw [← hcard]
    exact hlends.card_used
  case stats_ok =>
    rw [← hcard]
    exact hlends.stats_ok
  case low =>
    intro v hv
    refine Paging.translate_eq_self ((hother v fun hin => ?_).trans (if_pos hv))
    exact absurd (hlow.trans hin.1) (Nat.not_le.mpr hv)
  case heap =>
    intro v hv
    obtain ⟨page, hpage, -, hto⟩ := hheap v hv
    obtain ⟨f, hf⟩ := howned.mapped page hpage
    obtain ⟨lent', hlends', shares⟩ := howned.lends
    have hlent := shares.pages_subset (Paging.mem_pageFrames.mpr ⟨page, hpage, hf⟩)
    refine ⟨f, FrameRange.reservedTop_le_start (hlends'.reserved_le hlent) (hlends'.lt_total hlent), ?_⟩
    rw [translate, Paging.translate_eq]
    exact congrArg (Option.map _) (hto.trans hf)
  case heap_inj =>
    intro v w hv hw heq
    obtain ⟨page, hpage, hsame, hto⟩ := hheap v hv
    obtain ⟨page', hpage', hsame', hto'⟩ := hheap w hw
    rw [translate, translate, Paging.translate_map_frame, Paging.translate_map_frame] at heq
    obtain rfl := howned.page_inj page hpage page' hpage' (hto.symm.trans (heq.trans hto'))
    exact ⟨hsame.1.symm.trans hsame'.1, hsame.2.symm.trans hsame'.2⟩
  case unmapped =>
    intro v hv hin
    exact Paging.translate_eq_none_iff.mpr ((hother v hin).trans (if_neg (Nat.not_lt.mpr hv)))
  case loaded => exact (congrArg Cpu.loadedDirectory f.resembles.cpu_eq).trans loaded
  case enabled => exact (congrArg Cpu.pagingEnabled f.resembles.cpu_eq).trans enabled
  case current => exact f.resembles.current?_eq.trans current
  case kernel => exact f.resembles.kernel?_eq.trans kernel

/-- **Paging has started**: the low memory is mapped to itself, and nothing else has taken a frame but
the directory and one table.  This is the state in which the initial heap is backed, page by page. -/
structure Started (config : BootConfig) (directory : PageDirectory) (p : Paging)
    (frames : FrameAllocator) : Prop where
  owned : Owned config.frameRange directory {directory.frame} ∅ ∅ p frames
  reaches_all : config.frameRange.total ≤ p.ram.tables.size
  kernel : p.kernel? = some directory
  low : p.IdentityMapped directory.frame

/-- **The heap is set up** if the kernel can boot, and only if.  A heap that is refused shows that
something is lacking. -/
theorem Started.init_meets {p : Paging} {frames : FrameAllocator} {cpu : Cpu}
    (started : Started config directory p frames) (hvalid : config.validate = .ok ()) :
    (Heap.init ⟨config.heapStart⟩ config.heapInitialSize config.heapMaxSize
        (bootPages cpu directory p frames)).Meets (fun _ => ¬ config.Bootable) fun (made, s) =>
      match made with
      | .error _ => ¬ config.Bootable
      | .ok heap => config.Bootable
          ∧ (booted config directory s heap : Kernel ε).AsBooted config := by
  have hgrowable : MemoryInvariant.Growable
      (Owned config.frameRange directory {directory.frame} ∅) directory config.heapPages :=
    Owned.growable fun page hpage =>
      aligned_of_mem_pageSpan (BootConfig.heapStart_aligned hvalid) hpage
  have howned := started.owned.switch started.owned.spaces.kernel_mem (some directory)
  have hpages : KernelPages.Holds directory
      (Owned config.frameRange directory {directory.frame} ∅) ∅
      (bootPages cpu directory p frames) := ⟨rfl, howned⟩
  have low : { p with current? := some directory }.IdentityMapped directory.frame :=
    ⟨started.low.frameOf?_eq, started.low.mem_regions_iff⟩
  have hplaced := BootConfig.placed_iff_validRange hvalid
  refine (Heap.init_cases (hgrowable _) hpages).imp ?_
  rintro ⟨made, s⟩ ⟨setsUp, -⟩
  cases setsUp with
  | invalid hinvalid =>
      intro bootable
      rw [hplaced.mp bootable.toPlaced] at hinvalid
      cases hinvalid
  | refused hrange backed =>
      exact ((hplaced.mpr hrange).backRange_meets rfl howned started.reaches_all low).of_returns backed
  | ready hrange backed =>
      have placed := hplaced.mpr hrange
      obtain ⟨bootable, founding⟩ :=
        (placed.backRange_meets rfl howned started.reaches_all low).of_returns backed
      exact ⟨bootable, asBooted_of_founding placed founding low rfl rfl rfl started.kernel⟩

/-- **A kernel boots if it can, and only if**: where it faults, something is lacking.  The two
directions are the two halves of one contract, the faults and the values. -/
theorem boot_exact (config : BootConfig) :
    (boot (.ofConfig config) config : Run (Kernel ε)).Meets (fun _ => ¬ config.Bootable)
      fun k => config.Bootable ∧ k.AsBooted config := by
  refine boot_cases (S := fun directory p frames =>
    config.validate = .ok () ∧ Started config directory p frames) ?_ ?_ ?_ ?_
  · intro e hinvalid bootable
    rw [bootable.valid] at hinvalid
    cases hinvalid
  · intro hvalid frames hlends
    have hsize : config.frameRange.total ≤ (Ram.ofSize config.memoryTop.toNat).tables.size := by
      rw [Ram.ofSize, Array.size_replicate]
      exact Nat.min_le_left _ _
    refine (Paging.start_identityMapped hlends hsize).imp ?_
    rintro ⟨result, p, frames'⟩ hresult
    cases result with
    | error e =>
        intro bootable
        have hneeded := config.two_le_framesNeeded.trans bootable.frames_suffice
        exact absurd (hneeded.trans hresult) (by decide)
    | ok directory =>
        obtain ⟨howned, hram, hkernel, low⟩ := hresult
        exact ⟨hvalid, howned, hsize.trans_eq hram.symm, hkernel, low⟩
  · intro hwindow
    simp only [Machine.ofConfig, Machine.ofSizes] at hwindow
    omega
  · exact fun ⟨hvalid, started⟩ => started.init_meets hvalid

open MemoryInvariant in
/-- **Where nothing is lacking, booting succeeds**, and the kernel is known in full: what is mapped and in
use, that the frames in use are those that are lent out, and that the heap is one free block and the
kernel's own process is alone.  Runs that start from a booted kernel start from here. -/
theorem boot_of_bootable (config : BootConfig) (bootable : config.Bootable) :
    (boot (.ofConfig config) config : Run (Kernel ε)).Meets (fun _ => False) fun k =>
      k.AsBooted config ∧ Steady config k.directory (lending config.frameRange) 0 k
        ∧ (∃ b, b.free = true ∧ k.heap.Sound [b] ∧ k.heap.size = config.heapInitialSize)
        ∧ k.processes = .new k.directory.address := by
  have hexact := boot_exact (ε := ε) config
  have hfresh := boot_fresh (ε := ε) (I := fun _ => lending config.frameRange) (.ofConfig config)
    config lending_start fun directory => lending_growable _ directory _
  refine (hexact.and hfresh).mono (fun _ hlacking => hlacking bootable) ?_
  rintro k ⟨⟨-, booted⟩, steady, heap, hprocesses, -⟩
  exact ⟨booted, steady, heap, hprocesses⟩

/-- **A kernel boots exactly if it can**, and then so many frames are taken as are needed, the low memory
and the initial heap are mapped and nothing else is, and the directory of the kernel is in use. -/
theorem boot_iff_bootable (config : BootConfig) :
    (∀ console, (∃ k console',
        (boot (.ofConfig config) config : Run (Kernel ε)).run console = .ok k console')
          ↔ config.Bootable)
      ∧ (boot (.ofConfig config) config : Run (Kernel ε)).Meets (fun _ => ¬ config.Bootable)
          (AsBooted config) := by
  have hexact := boot_exact (ε := ε) config
  refine ⟨fun console => ?_, hexact.imp fun _ h => h.2⟩
  have hrun := hexact console
  cases hresult : (boot (.ofConfig config) config : Run (Kernel ε)).run console with
  | ok k console' =>
      rw [hresult] at hrun
      exact ⟨fun _ => hrun.1, fun _ => ⟨k, console', rfl⟩⟩
  | error e console' =>
      rw [hresult] at hrun
      refine ⟨?_, fun bootable => absurd bootable hrun⟩
      rintro ⟨k, console'', hok⟩
      cases hok

end Kernel

end TinyKernel
