import TinyKernel.Proofs.Kernel.Scheduler
import TinyKernel.Proofs.Paging.Ownership

/-!
# The frames of a booted kernel

Whatever a booted kernel is asked to do, each frame that is in use and not reserved has one owner: a
directory, a page table, a page of the kernel heap, or a client.  None is lost and none is handed out
twice, also where an operation fails half way.

A client has to play by two rules for this.  It gives back only frames that it holds, unless nobody
can hold them; and it leaves the pages alone where the kernel heap is, or may come to be.  The
directories that it works on are those that the kernel gave out, since it cannot get at any others.

* `KernelSession` — a kernel, and what its clients were given
* `KernelSession.Accounted` — the books of a kernel
* `Kernel.boot_accounted` — they are right after every run
-/

namespace TinyKernel

/-! ## Clients -/

/-- **A kernel with its clients.**  What clients were given is written down, so that it can be said
which frames they may give back, and whose a frame is.  It is a list, so that a frame that was handed
out twice would be in it twice. -/
structure KernelSession (ε : Type) where
  kernel : Kernel ε
  /-- The directories that clients were given.  They are never taken back. -/
  created : List PageDirectory
  /-- The frames that clients were given and did not give back. -/
  held : List Frame

namespace Kernel

variable {ε : Type}

/-- The frames that a kernel has, according to its layout. -/
def frameRange (k : Kernel ε) : FrameRange := .ofMemory k.config.memoryTop k.config.reservedTop

/-- A page is one where the kernel heap is, or may come to be.  Clients must not map such a page, since
the heap would find it mapped. -/
def inHeapWindow (k : Kernel ε) (address : VirtAddr) : Bool :=
  k.config.heapStart.toNat ≤ address.val.toNat
    && address.val.toNat < k.config.heapStart.toNat + k.config.heapMaxSize

/-- The frames that the pages of the kernel heap go to, looked up page by page in the kernel's
directory. -/
def heapFrames (k : Kernel ε) : Finset Frame :=
  k.heap.backed.biUnion fun page =>
    ((k.translate k.directory page).map PhysAddr.frame).toFinset

end Kernel

namespace KernelSession

variable {ε : Type}

/-- The clients of a kernel just booted were given nothing. -/
def ofKernel (kernel : Kernel ε) : KernelSession ε := { kernel, created := [], held := [] }

/-- The kernel's own directory, and those that it gave out. -/
def directories (s : KernelSession ε) : List PageDirectory := s.kernel.directory :: s.created

/-- The frames that hold directories.  There are as many as there are directories. -/
def directoryFrames (s : KernelSession ε) : Finset Frame :=
  (s.directories.map PageDirectory.frame).toFinset

/-- The frames that hold the page tables of all directories.  A table that several directories share is
counted once. -/
def tableFrames (s : KernelSession ε) : Finset Frame :=
  s.kernel.paging.tableFrames s.directoryFrames

/-- A frame is one that clients may give back: a client holds it, or nobody can.  In the second case
the allocator refuses, and the call does no harm. -/
def mayFree (s : KernelSession ε) (f : Frame) : Bool :=
  f ∈ s.held || f.index.toNat < s.kernel.frameRange.reserved
    || s.kernel.frameRange.total ≤ f.index.toNat
    || s.kernel.frames.isUsed f.index.toNat = .ok false

/-- A page is one that clients may map and unmap: it is in a directory that was given out, outside the
window of the heap. -/
def mayMap (s : KernelSession ε) (d : PageDirectory) (address : VirtAddr) : Bool :=
  d ∈ s.directories && !s.kernel.inHeapWindow address

/-- **A call keeps to the rules.**  There are two: no frame is given back that somebody else has, and
no page of the heap window is mapped by hand.  All other calls are free. -/
def permits (s : KernelSession ε) : KernelCall ε → Bool
  | .freeFrame address => s.mayFree address.frame
  | .map d address _ _ => s.mayMap d address
  | .unmap d address => s.mayMap d address
  | _ => true

/-- A call is made, and the clients write down what they are given. -/
def make (s : KernelSession ε) : KernelCall ε → Run (KernelSession ε)
  | .allocFrame => do
    let (address?, kernel) ← s.kernel.allocFrame
    pure { s with kernel, held := (address?.map PhysAddr.frame).toList ++ s.held }
  | .freeFrame address => do
    let (_, kernel) ← s.kernel.freeFrame address
    pure { s with kernel, held := s.held.erase address.frame }
  | .createDirectory => do
    let (directory?, kernel) ← s.kernel.createDirectory
    pure { s with kernel, created := directory?.toList ++ s.created }
  | call => do
    let kernel ← s.kernel.perform call
    pure { s with kernel }

/-- What clients write down makes no difference to the kernel. -/
theorem kernel_make (s : KernelSession ε) (call : KernelCall ε) :
    kernel <$> s.make call = s.kernel.perform call := by
  cases call <;> simp [make, Kernel.perform]

/-- **One call**, which is made if it keeps to the rules, and is passed over otherwise. -/
def step (s : KernelSession ε) (call : KernelCall ε) : Run (KernelSession ε) :=
  if s.permits call then s.make call else pure s

/-- **Calls, one after the other.**  A fault ends the run. -/
def run (s : KernelSession ε) : List (KernelCall ε) → Run (KernelSession ε)
  | [] => pure s
  | call :: calls => do
    let s ← s.step call
    s.run calls

/-- **The books of a kernel are right.**  The frames that are in use are divided among directories,
tables, the heap and the clients, without rest and without overlap; so no frame leaks, and none is used
for two things. -/
structure Accounted (s : KernelSession ε) : Prop where
  /-- No directory and no frame is handed out twice. -/
  directories_nodup : s.directories.Nodup
  held_nodup : s.held.Nodup
  /-- The pages of the heap are mapped, each to a frame of its own. -/
  heap_mapped : ∀ page ∈ s.kernel.heap.backed, s.kernel.isMapped s.kernel.directory page = true
  heap_inj : ∀ page ∈ s.kernel.heap.backed, ∀ page' ∈ s.kernel.heap.backed,
    s.kernel.translate s.kernel.directory page = s.kernel.translate s.kernel.directory page' →
      page = page'
  /-- No frame has two owners. -/
  disjoint : [s.directoryFrames, s.tableFrames, s.kernel.heapFrames, s.held.toFinset].Pairwise
    Disjoint
  /-- Every frame that is in use and not reserved has one, and no other frame has. -/
  owned_iff : ∀ f : Frame,
    f ∈ s.directoryFrames ∪ s.tableFrames ∪ s.kernel.heapFrames ∪ s.held.toFinset ↔
      s.kernel.frameRange.reserved ≤ f.index.toNat ∧ f.index.toNat < s.kernel.frameRange.total
        ∧ s.kernel.frames.isUsed f.index.toNat = .ok true
  /-- What is counted as used is what is reserved and what has an owner. -/
  stats_ok : ∃ stats, s.kernel.frameStats = .ok stats
    ∧ stats.total = s.kernel.frameRange.total ∧ stats.free + stats.used = stats.total
    ∧ stats.used = s.kernel.frameRange.reserved + s.directories.length + s.tableFrames.card
        + s.kernel.heap.size / pageSize + s.held.length

end KernelSession

/-! ## Growth -/

/-- **Growth of the heap keeps to the books**: a page that is backed takes a frame, and one that is
released gives it back.  It keeps to whatever else survives when pages of the heap are mapped and
unmapped; `M` is left open for invariants about translations. -/
theorem Owned.growable_and {range : FrameRange} {directory : PageDirectory}
    {dirs held : Finset Frame} {window : Finset VirtAddr} {M : Paging → Prop}
    (haligned : ∀ page ∈ window, page.val.toNat % pageSize = 0)
    (hmap : ∀ {held backed p frames page target},
      Owned range directory dirs held backed p frames → M p →
        (p.map frames directory page target .writable).Meets (fun _ => True) fun (_, p', _) => M p')
    (hunmap : ∀ {held backed p frames page} cpu,
      Owned range directory dirs held backed p frames → M p →
        M (p.unmap cpu directory page).2.1) :
    MemoryInvariant.Growable
      (fun backed p frames => Owned range directory dirs held backed p frames ∧ M p) directory
      window := by
  -- in between, the frame is one that a client holds
  refine MemoryInvariant.growable_of (J := fun address backed p frames => ∃ f : Frame,
    address = f.start ∧ f ∉ held ∧ Owned range directory dirs (insert f held) backed p frames
      ∧ M p) ?_ ?_ ?_ ?_
  · rintro backed p frames ⟨h, hM⟩
    obtain ⟨frame?, frames', halloc, hframe⟩ := h.alloc_ok
    refine ⟨frame?, frames', halloc, ?_⟩
    cases frame? with
    | none => exact ⟨hframe, hM⟩
    | some address =>
        obtain ⟨f, hf, hfresh, h'⟩ := hframe
        exact ⟨f, hf, hfresh, h', hM⟩
  · rintro backed p frames address admits ⟨f, rfl, hfresh, h, hM⟩
    have hown : f.start.frame ∈ insert f held := by
      rw [Frame.frame_start]
      exact Finset.mem_insert_self f held
    refine (h.free_meets (Or.inl hown)).imp fun frames' h' => ?_
    rw [Frame.frame_start, Finset.erase_insert hfresh] at h'
    exact ⟨h', hM⟩
  · rintro backed p frames address page admits ⟨f, rfl, hfresh, h, hM⟩ hin hnew
    have hother : ∀ page' ∈ backed, ¬ page.SamePage page' := by
      intro page' hpage' hsame
      have heq := hsame.eq_of_aligned (haligned page hin) (h.aligned page' hpage')
      exact hnew (heq ▸ hpage')
    refine ((h.map_meets h.directory_mem hother f.start .writable).and
      (hmap h hM)).imp ?_
    rintro ⟨result, p', frames'⟩ ⟨⟨h', hpage⟩, hM'⟩
    cases result with
    | error cause => exact ⟨f, rfl, hfresh, h', hM'⟩
    | ok =>
        have hleaf : p'.frameOf? directory.frame page = some f := by
          rw [hpage rfl, Frame.frame_start]
          exact PageTableEntry.target?_ofFrame f (by decide) (by decide)
        have howned := h'.hand_over (Finset.mem_insert_self f held) (haligned page hin) hleaf
        rw [Finset.erase_insert hfresh] at howned
        exact ⟨howned, hM'⟩
  · rintro backed p frames page cpu ⟨h, hM⟩ hmem
    obtain ⟨f, hanswer, hfresh, h'⟩ := h.take_back hmem cpu
    rw [hanswer]
    exact ⟨f, rfl, hfresh, h', hunmap cpu h hM⟩

theorem Owned.growable {range : FrameRange} {directory : PageDirectory} {dirs held : Finset Frame}
    {window : Finset VirtAddr} (haligned : ∀ page ∈ window, page.val.toNat % pageSize = 0) :
    MemoryInvariant.Growable (Owned range directory dirs held) directory window := by
  have hgrow : MemoryInvariant.Growable
      (fun backed p frames => Owned range directory dirs held backed p frames ∧ True) directory
      window :=
    Owned.growable_and (M := fun _ => True) haligned (fun _ _ _ => by split <;> trivial)
      fun _ _ _ => trivial
  simpa only [and_true] using hgrow

/-- **Paging starts** with a directory and its tables, and these are all that is lent out then. -/
theorem Owned.start_meets {ram : Ram} {frames : FrameAllocator} {range : FrameRange}
    {admits : Fault → Prop} (h : frames.Lends range ∅) :
    ((Paging.ofRam ram).start frames).Meets admits fun (started, p, frames') =>
      match started with
      | .error _ => True
      | .ok directory =>
          Owned range directory {directory.frame} ∅ ∅ { p with current? := some directory }
            frames' := by
  refine (Paging.start_meets
    (I := fun directory p frames => Owned range directory {directory.frame} ∅ ∅ p frames) h ?_ ?_).imp ?_
  · exact fun _ hreach hlends => Owned.first hreach rfl hlends
  · intro directory p frames₁ hI address target
    refine (hI.map_meets hI.directory_mem (fun page hpage => ?_) target _).imp fun _ hr => hr.1
    exact absurd hpage (Finset.notMem_empty page)
  · rintro ⟨started, p, frames'⟩ hstarted
    cases started with
    | error e => trivial
    | ok directory =>
        obtain ⟨q, hI, rfl⟩ := hstarted
        refine hI.switch ?_ (some directory)
        rintro d ⟨⟩
        exact hI.directory_mem

/-! ## Pages of the heap -/

/-- **Which layouts are valid**, in numbers.  The order of the checks does not matter here, as it does
for the refusals. -/
theorem BootConfig.validate_eq_ok_iff {config : BootConfig} : config.validate = .ok () ↔
    config.reservedTop ≤ config.memoryTop ∧ identityMapSize ≤ config.heapStart.toNat
      ∧ config.heapStart.toNat % pageSize = 0 ∧ config.heapInitialSize % pageSize = 0
      ∧ config.heapMaxSize % pageSize = 0 ∧ 0 < config.heapInitialSize
      ∧ config.heapInitialSize ≤ config.heapMaxSize := by
  rw [← UInt32.not_lt, validate]
  grind

theorem BootConfig.heapStart_aligned {config : BootConfig} (hvalid : config.validate = .ok ()) :
    config.heapStart.toNat % pageSize = 0 :=
  (validate_eq_ok_iff.mp hvalid).2.2.1

theorem aligned_of_mem_pageSpan {start page : VirtAddr} {i j : Nat}
    (hstart : start.val.toNat % pageSize = 0) (hpage : page ∈ pageSpan start i j) :
    page.val.toNat % pageSize = 0 := by
  obtain ⟨k, -, rfl⟩ := Finset.mem_image.mp hpage
  simp only [pageAt, UInt32.toNat_ofNat', pageSize] at hstart ⊢
  omega

/-- **The pages of a range are those of its addresses.**  The start of the range must be aligned. -/
theorem exists_samePage_iff {start v : VirtAddr} {i j : Nat} (aligned : start.val.toNat % pageSize = 0)
    (fits : start.val.toNat + j * pageSize ≤ 2 ^ 32) :
    (∃ page ∈ pageSpan start i j, page.SamePage v) ↔
      start.val.toNat + i * pageSize ≤ v.val.toNat
        ∧ v.val.toNat < start.val.toNat + j * pageSize := by
  simp only [pageSize] at aligned fits
  constructor
  · rintro ⟨page, hpage, hsame⟩
    obtain ⟨k, hk, rfl⟩ := Finset.mem_image.mp hpage
    rw [Finset.mem_Ico] at hk
    rw [VirtAddr.samePage_iff, pageAt_toNat (by simp only [pageSize]; omega)] at hsame
    simp only [pageSize] at hsame ⊢
    omega
  · simp only [pageSize]
    intro hv
    refine ⟨pageAt start ((v.val.toNat - start.val.toNat) / pageSize),
      Finset.mem_image_of_mem _ (Finset.mem_Ico.mpr ?_), ?_⟩
    · simp only [pageSize]
      omega
    · rw [VirtAddr.samePage_iff, pageAt_toNat (by simp only [pageSize]; omega)]
      simp only [pageSize]
      omega

namespace Kernel

variable {ε : Type} {config : BootConfig} {directory : PageDirectory} {I : MemoryInvariant}
  {k : Kernel ε}

theorem Backed.start_aligned (b : Backed config directory I k) :
    config.heapStart.toNat % pageSize = 0 := by
  obtain ⟨l, sound⟩ := b.sound
  have haligned := congrArg UInt32.toNat sound.range.aligned
  rw [b.start_eq, VirtAddr.pageOffset, UInt32.toNat_mod] at haligned
  exact haligned

theorem inHeapWindow_iff {v : VirtAddr} : k.inHeapWindow v = true ↔
    k.config.heapStart.toNat ≤ v.val.toNat
      ∧ v.val.toNat < k.config.heapStart.toNat + k.config.heapMaxSize := by
  rw [inHeapWindow, Bool.and_eq_true, decide_eq_true_iff, decide_eq_true_iff]

/-- No page lies half in the window, since it begins and ends with pages. -/
theorem Backed.not_samePage_of_inHeapWindow (b : Backed config directory I k) {v w : VirtAddr}
    (hv : k.inHeapWindow v = false) (hw : k.inHeapWindow w = true) : ¬ v.SamePage w := by
  obtain ⟨l, sound⟩ := b.sound
  obtain ⟨pages, hpages⟩ := sound.range.maxPages
  have haligned := b.start_aligned
  rw [← Bool.not_eq_true, inHeapWindow_iff, b.config_eq] at hv
  rw [inHeapWindow_iff, b.config_eq] at hw
  rw [VirtAddr.samePage_iff]
  rw [b.maxSize_eq] at hpages
  simp only [pageSize] at *
  omega

/-- **The pages of the heap** are those of its addresses, from its start to where it has grown to. -/
theorem Backed.exists_samePage_iff (b : Backed config directory I k) {v : VirtAddr} :
    (∃ page ∈ k.heap.backed, page.SamePage v) ↔
      config.heapStart.toNat ≤ v.val.toNat
        ∧ v.val.toNat < config.heapStart.toNat + k.heap.size := by
  obtain ⟨l, sound⟩ := b.sound
  have hpages := Nat.div_mul_cancel sound.range.pages
  have hle := sound.range.size_le
  have hfits := sound.range.fits
  rw [b.start_eq] at hfits
  rw [Heap.backed, b.start_eq, TinyKernel.exists_samePage_iff b.start_aligned (by rw [hpages]; omega),
    hpages, Nat.zero_mul, Nat.add_zero]

theorem Backed.inHeapWindow_of_mem (b : Backed config directory I k) {page : VirtAddr}
    (hpage : page ∈ k.heap.backed) : k.inHeapWindow page = true := by
  obtain ⟨l, sound⟩ := b.sound
  obtain ⟨hle, hlt⟩ := b.exists_samePage_iff.mp ⟨page, hpage, rfl, rfl⟩
  have hsize := sound.range.size_le
  rw [b.maxSize_eq] at hsize
  rw [inHeapWindow_iff, b.config_eq]
  exact ⟨hle, hlt.trans_le (Nat.add_le_add_left hsize _)⟩

/-- What lies outside the window lies in no page of the heap. -/
theorem Backed.not_samePage (b : Backed config directory I k) {v : VirtAddr}
    (hv : k.inHeapWindow v = false) : ∀ page ∈ k.heap.backed, ¬ v.SamePage page :=
  fun _ hpage => b.not_samePage_of_inHeapWindow hv (b.inHeapWindow_of_mem hpage)

/-- A page has one first address, and the heap one page for every so many bytes. -/
theorem Backed.card_backed (b : Backed config directory I k) :
    k.heap.backed.card = k.heap.size / pageSize := by
  obtain ⟨l, sound⟩ := b.sound
  have hsize := Nat.div_mul_le_self k.heap.size pageSize
  have hle := sound.range.size_le
  have hfits := sound.range.fits
  exact card_pageSpan (by omega)

theorem heapFrames_eq (k : Kernel ε) :
    k.heapFrames = k.paging.pageFrames k.directory.frame k.heap.backed := by
  refine Finset.biUnion_congr rfl fun page _ => ?_
  rw [translate, Paging.translate_map_frame]

end Kernel

/-! ## Every run -/

namespace KernelSession

variable {ε : Type} {config : BootConfig} {directory : PageDirectory} {clock : Nat}
  {s : KernelSession ε} {admits : Fault → Prop}

/-- **Who owns what**, if clients were given some directories and hold some frames.  It is the
invariant of memory that a session keeps. -/
def books (config : BootConfig) (directory : PageDirectory) (created : List PageDirectory)
    (held : List Frame) : MemoryInvariant :=
  Owned (.ofMemory config.memoryTop config.reservedTop) directory
    ((directory :: created).map PageDirectory.frame).toFinset held.toFinset

/-- **The invariant of a session**: the kernel is steady, its memory is as the books have it, and
nothing was handed out twice.  The books are sets, and that is why the two lists are said to have no
repetitions. -/
structure Consistent (config : BootConfig) (directory : PageDirectory) (clock : Nat)
    (s : KernelSession ε) : Prop where
  steady : s.kernel.Steady config directory (books config directory s.created s.held) clock
  created_nodup : ((directory :: s.created).map PageDirectory.frame).Nodup
  held_nodup : s.held.Nodup

/-- A call that gives nothing to clients, and takes nothing from them.  Their part of the books stays
as it is. -/
theorem Consistent.perform_meets (c : Consistent config directory clock s) (call : KernelCall ε)
    {next : Nat}
    (hperform : (s.kernel.perform call).Meets admits
      (Kernel.Steady config directory (books config directory s.created s.held) next)) :
    (do
      let kernel ← s.kernel.perform call
      pure { s with kernel } : Run (KernelSession ε)).Meets admits (Consistent config directory next) :=
  hperform.bind fun _ steady => Run.meets_pure ⟨steady, c.created_nodup, c.held_nodup⟩

theorem Consistent.allocFrame_meets (c : Consistent config directory clock s) :
    (s.make .allocFrame).Meets admits (Consistent config directory clock) := by
  obtain ⟨address?, frames, halloc, hframe⟩ := c.steady.memory.alloc_ok
  refine (c.steady.allocFrame_meets (Q := fun address? backed p frames =>
    books config directory s.created ((address?.map PhysAddr.frame).toList ++ s.held) backed p frames
      ∧ ((address?.map PhysAddr.frame).toList ++ s.held).Nodup)
    ⟨address?, frames, halloc, ?_⟩).bind ?_
  · cases address? with
    | none => exact ⟨hframe, c.held_nodup⟩
    | some address =>
        obtain ⟨f, rfl, hfresh, hbooks⟩ := hframe
        rw [List.mem_toFinset] at hfresh
        rw [Option.map_some, Frame.frame_start, Option.toList_some, List.singleton_append, books,
          List.toFinset_cons]
        exact ⟨hbooks, List.nodup_cons.mpr ⟨hfresh, c.held_nodup⟩⟩
  · rintro ⟨address?, kernel⟩ steady
    exact Run.meets_pure ⟨steady.withMemory steady.memory.1, c.created_nodup, steady.memory.2⟩

theorem Consistent.createDirectory_meets (c : Consistent config directory clock s) :
    (s.make .createDirectory).Meets admits (Consistent config directory clock) := by
  refine (c.steady.createDirectory_meets (R := fun directory? backed p frames =>
    books config directory (directory?.toList ++ s.created) s.held backed p frames
      ∧ ((directory :: (directory?.toList ++ s.created)).map PageDirectory.frame).Nodup) ?_).bind ?_
  · refine c.steady.memory.createDirectory_meets.imp ?_
    rintro ⟨directory?, p, frames⟩ hcreated
    cases directory? with
    | none => exact ⟨hcreated, c.created_nodup⟩
    | some d =>
        obtain ⟨hfresh, hbooks⟩ := hcreated
        rw [List.mem_toFinset] at hfresh
        have hperm : ((directory :: ((some d).toList ++ s.created)).map PageDirectory.frame).Perm
            (d.frame :: (directory :: s.created).map PageDirectory.frame) := List.Perm.swap ..
        dsimp only
        rw [books, List.toFinset_eq_of_perm _ _ hperm, List.toFinset_cons, hperm.nodup_iff]
        exact ⟨hbooks, List.nodup_cons.mpr ⟨hfresh, c.created_nodup⟩⟩
  · rintro ⟨directory?, kernel⟩ steady
    exact Run.meets_pure ⟨steady.withMemory steady.memory.1, steady.memory.2, c.held_nodup⟩

theorem Consistent.frameRange_eq (c : Consistent config directory clock s) :
    s.kernel.frameRange = .ofMemory config.memoryTop config.reservedTop := by
  rw [Kernel.frameRange, c.steady.config_eq]

theorem Consistent.freeFrame_meets (c : Consistent config directory clock s) {address : PhysAddr}
    (hfree : s.mayFree address.frame = true) :
    (s.make (.freeFrame address)).Meets admits (Consistent config directory clock) := by
  have hown : address.frame ∈ s.held.toFinset
      ∨ address.frame.index.toNat < s.kernel.frameRange.reserved
      ∨ s.kernel.frameRange.total ≤ address.frame.index.toNat
      ∨ s.kernel.frames.isUsed address.frame.index.toNat = .ok false := by
    simpa only [mayFree, Bool.or_eq_true, decide_eq_true_iff, List.mem_toFinset, or_assoc] using hfree
  rw [c.frameRange_eq] at hown
  refine (c.steady.freeFrame_meets (J := books config directory s.created
    (s.held.erase address.frame)) ?_).bind ?_
  · have herase : (s.held.erase address.frame).toFinset = s.held.toFinset.erase address.frame := by
      ext f
      rw [List.mem_toFinset, Finset.mem_erase, List.mem_toFinset, c.held_nodup.mem_erase_iff]
    rw [books, herase]
    exact c.steady.memory.free_meets hown
  · rintro ⟨_, kernel⟩ steady
    exact Run.meets_pure ⟨steady, c.created_nodup, c.held_nodup.erase _⟩

/-- What clients may map is a page of a directory that there is, and no page of the heap. -/
theorem Consistent.of_mayMap (c : Consistent config directory clock s) {d : PageDirectory}
    {v : VirtAddr} (hmap : s.mayMap d v = true) :
    d.frame ∈ ((directory :: s.created).map PageDirectory.frame).toFinset
      ∧ ∀ page ∈ s.kernel.heap.backed, ¬ v.SamePage page := by
  simp only [mayMap, directories, Bool.and_eq_true, decide_eq_true_iff, Bool.not_eq_true',
    c.steady.directory_eq] at hmap
  refine ⟨?_, c.steady.toBacked.not_samePage hmap.2⟩
  rw [List.mem_toFinset]
  exact List.mem_map_of_mem hmap.1

/-- **Every call that keeps to the rules keeps the books**, and faults only if a counter runs out. -/
theorem Consistent.make_meets (c : Consistent config directory clock s) {call : KernelCall ε}
    (hcall : s.permits call = true) :
    (s.make call).Meets (Kernel.CounterFault clock s.kernel)
      (Consistent config directory (clock + call.ticks)) := by
  have growable : (books config directory s.created s.held).Growable directory config.heapPages :=
    Owned.growable fun page hpage => aligned_of_mem_pageSpan c.steady.start_aligned hpage
  cases call with
  | allocFrame => exact c.allocFrame_meets
  | freeFrame address => exact c.freeFrame_meets hcall
  | createDirectory => exact c.createDirectory_meets
  | switchDirectory d =>
      have hbooks := c.steady.memory.switch c.steady.memory.spaces.kernel_mem (some d)
      exact c.perform_meets (.switchDirectory d)
        (Run.Meets.map (c.steady.switchDirectory_meets hbooks))
  | map d v target flags =>
      obtain ⟨hd, hv⟩ := c.of_mayMap hcall
      exact c.perform_meets (.map d v target flags) (Run.Meets.map (c.steady.map_meets
        ((c.steady.memory.map_meets hd hv target flags).imp fun _ hr => hr.1)))
  | unmap d v =>
      obtain ⟨hd, hv⟩ := c.of_mayMap hcall
      exact c.perform_meets (.unmap d v)
        (Run.Meets.map (c.steady.unmap_meets fun cpu => c.steady.memory.unmap hd hv cpu))
  | _ => exact c.perform_meets _ (c.steady.perform_meets_of_not_touchesPages growable rfl)

theorem Consistent.step_meets (c : Consistent config directory clock s) (call : KernelCall ε) :
    (s.step call).Meets (Kernel.CounterFault clock s.kernel) fun s' =>
      ∃ clock', Consistent config directory clock' s' := by
  unfold step
  split
  case isTrue hcall => exact (c.make_meets hcall).imp fun s' c' => ⟨_, c'⟩
  case isFalse => exact Run.meets_pure ⟨clock, c⟩

/-- **The invariant holds in every run**, by induction on the calls.  Those that break a rule are
passed over. -/
theorem Consistent.run_meets (c : Consistent config directory clock s) (calls : List (KernelCall ε)) :
    (s.run calls).Meets (fun e => e = .overflow .add) fun s' =>
      ∃ clock', Consistent config directory clock' s' := by
  induction calls generalizing s clock with
  | nil => exact Run.meets_pure ⟨clock, c⟩
  | cons call calls ih =>
      exact ((c.step_meets call).mono Kernel.CounterFault.eq_overflow fun _ h => h).bind
        fun s' ⟨clock', c'⟩ => ih c'

/-- **The invariant makes the books right.**  The owners of frames are read off the translations, and
their number off the allocator. -/
theorem Consistent.accounted (c : Consistent config directory clock s) : s.Accounted := by
  obtain ⟨lent, hlends, shares⟩ := c.steady.memory.lends
  have howned := c.steady.memory
  have hrange := c.frameRange_eq
  have hcard := c.steady.toBacked.card_backed
  obtain rfl := c.steady.directory_eq
  have hheap := s.kernel.heapFrames_eq
  rw [← hrange] at hlends
  rw [← hheap] at shares
  refine ⟨?_, c.held_nodup, ?_, ?_, shares.pairwise_disjoint, ?_, ?_⟩
  · exact c.created_nodup.of_map _
  · intro page hpage
    obtain ⟨f, hf⟩ := howned.mapped page hpage
    rw [Kernel.isMapped, Paging.isMapped, Paging.translate_eq, hf]
    rfl
  · intro page hpage page' hpage' heq
    refine howned.page_inj page hpage page' hpage' ?_
    rw [← Paging.translate_map_frame, ← Paging.translate_map_frame]
    exact congrArg (Option.map PhysAddr.frame) heq
  · intro f
    rw [← hlends.mem_iff_isUsed, shares.mem_lent, Finset.mem_union, Finset.mem_union,
      Finset.mem_union, or_assoc, or_assoc]
    rfl
  · obtain ⟨stats, hstats, htotal, hused, hsum⟩ := hlends.stats_ok
    refine ⟨stats, hstats, htotal, hsum, ?_⟩
    rw [hused, shares.card_lent, List.toFinset_card_of_nodup c.created_nodup,
      List.toFinset_card_of_nodup c.held_nodup, hheap, howned.card_pageFrames, hcard, List.length_map,
      ← Nat.add_assoc, ← Nat.add_assoc, ← Nat.add_assoc]
    rfl

end KernelSession

namespace Kernel

variable {ε : Type}

/-- A layout that is refused boots nothing, and whatever is claimed of a booted kernel holds of it.  So
layouts may be taken to be valid. -/
theorem boot_meets_of_valid {machine : Machine} {config : BootConfig} {post : Kernel ε → Prop}
    (h : config.validate = .ok () → (boot machine config).Meets (fun _ => True) post) :
    (boot machine config).Meets (fun _ => True) post := by
  cases hvalid : config.validate with
  | ok => exact h hvalid
  | error e =>
      unfold boot
      rw [hvalid]
      exact Run.meets_throw trivial

/-- **The books of a booted kernel are right** after every run in which the clients keep to the rules.
Nothing is asked of the layout, or of the machine. -/
theorem boot_accounted (machine : Machine) (config : BootConfig) :
    (boot machine config : Run (Kernel ε)).Meets (fun _ => True) fun k =>
      ∀ calls : List (KernelCall ε), ((KernelSession.ofKernel k).run calls).Meets
        (fun e => e = .overflow .add) KernelSession.Accounted := by
  refine boot_meets_of_valid fun hvalid => ?_
  refine (boot_meets (I := fun directory => KernelSession.books config directory [] []) machine config
    Owned.start_meets fun directory => Owned.growable fun page hpage =>
      aligned_of_mem_pageSpan (BootConfig.heapStart_aligned hvalid) hpage).imp fun k steady calls => ?_
  have c : KernelSession.Consistent config k.directory 0 (.ofKernel k) :=
    ⟨steady, List.nodup_singleton _, List.nodup_nil⟩
  exact (c.run_meets calls).imp fun s ⟨_, c'⟩ => c'.accounted

end Kernel

end TinyKernel
