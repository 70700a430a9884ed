import TinyKernel.Proofs.Heap.Operations
import TinyKernel.Proofs.Kernel.Calls
import TinyKernel.Proofs.Process.Scheduling
import TinyKernel.Proofs.Process.Slots

/-!
# What a kernel keeps to

The invariant of a booted kernel: its heap is sound and lies on the pages that back it, somebody is
scheduled, and the times of the processes lie in the past.  What else holds of memory and frames is
left open, as a *memory invariant* that has to survive the growth of the heap; each operation that
touches memory is then shown to keep to any such invariant.

## What is load-bearing

The operations that end in a dispatch pass through states in which nobody runs.  There only the half
of the invariant that is about memory holds (`Kernel.Backed`), and the dispatch restores the other
half (`Kernel.Backed.reschedule_meets`).

* `MemoryInvariant`, `MemoryInvariant.Growable` — what holds of memory, while the heap grows
* `MemoryInvariant.growable_of` — growth, taken apart into frames and pages
* `Kernel.Steady` — the invariant
* `Kernel.CounterFault` — the only faults that are left
-/

namespace TinyKernel

/-- The pages that the kernel heap may come to lie on, by the layout. -/
def BootConfig.heapPages (c : BootConfig) : Finset VirtAddr :=
  pageSpan ⟨c.heapStart⟩ 0 (c.heapMaxSize / pageSize)

/-- **What holds of memory and frames**, while the heap is backed by a set of pages.  How much is known
of memory depends on what clients are trusted with, and so is a parameter of what follows. -/
abbrev MemoryInvariant := Finset VirtAddr → Paging → FrameAllocator → Prop

/-- A memory invariant, of the pages of a kernel heap that is mapped into a directory. -/
def KernelPages.Holds (directory : PageDirectory) (I : MemoryInvariant) (backed : Finset VirtAddr)
    (s : KernelPages) : Prop :=
  s.directory = directory ∧ I backed s.paging s.frames

/-- **An invariant survives growth**: backing a page and releasing it never fault, and keep to the
invariant. -/
def MemoryInvariant.Growable (I : MemoryInvariant) (directory : PageDirectory)
    (window : Finset VirtAddr) : Prop :=
  ∀ admits, PageSource.Keeps KernelPages window admits (KernelPages.Holds directory I)

/-- **What growth is made of.**  A page takes a frame, and is mapped to it; or it is unmapped, and its
frame goes back.  In between there is a frame that belongs to no page, and something else, `J`, holds
of memory. -/
theorem MemoryInvariant.growable_of {I : MemoryInvariant} {J : PhysAddr → MemoryInvariant}
    {directory : PageDirectory} {window : Finset VirtAddr}
    (alloc : ∀ {backed p frames}, I backed p frames →
      ∃ frame? frames', frames.alloc = .ok (frame?, frames') ∧
        match frame? with
        | none => I backed p frames'
        | some frame => J frame backed p frames')
    (free : ∀ {backed p frames frame admits}, J frame backed p frames →
      (frames.free frame).Meets admits fun frames' => I backed p frames')
    (map : ∀ {backed p frames frame page admits}, J frame backed p frames → page ∈ window →
      page ∉ backed →
        (p.map frames directory page frame .writable).Meets admits fun (result, p', frames') =>
          match result with
          | .ok () => I (insert page backed) p' frames'
          | .error _ => J frame backed p' frames')
    (unmap : ∀ {backed p frames page} cpu, I backed p frames → page ∈ backed →
      match (p.unmap cpu directory page).1 with
      | none => I (backed.erase page) (p.unmap cpu directory page).2.1 frames
      | some frame => J frame (backed.erase page) (p.unmap cpu directory page).2.1 frames) :
    I.Growable directory window := by
  intro admits
  constructor
  · rintro backed pages page ⟨rfl, hI⟩ hin hnew
    obtain ⟨frame?, frames, halloc, hframe⟩ := alloc hI
    refine Run.meets_lift_bind halloc ?_
    cases frame? with
    | none => exact Run.meets_pure ⟨rfl, hframe⟩
    | some frame =>
        refine (map hframe hin hnew).bind ?_
        rintro ⟨result, p', frames'⟩ hmapped
        cases result with
        | ok => exact Run.meets_pure ⟨rfl, hmapped⟩
        | error cause =>
            exact (free hmapped).bind fun frames'' hI' => Run.meets_pure ⟨rfl, hI'⟩
  · rintro backed pages page ⟨rfl, hI⟩ - hmem
    have hunmap := unmap pages.cpu hI hmem
    show (KernelPages.release page pages).Meets _ _
    unfold KernelPages.release
    generalize pages.paging.unmap pages.cpu pages.directory page = unmapped at hunmap
    obtain ⟨frame?, p', cpu⟩ := unmapped
    cases frame? with
    | none => exact Run.meets_pure ⟨rfl, hunmap⟩
    | some frame => exact (free hunmap).bind fun frames' hI' => Run.meets_pure ⟨rfl, hI'⟩

namespace Kernel

variable {ε α : Type}

/-- **What holds of the memory of a kernel**: the heap is sound, and lies where the layout says, on
pages that are backed.  It says nothing of processes, so that it also holds half way through a call. -/
structure Backed (config : BootConfig) (directory : PageDirectory) (I : MemoryInvariant)
    (k : Kernel ε) : Prop where
  config_eq : k.config = config
  directory_eq : k.directory = directory
  memory : I k.heap.backed k.paging k.frames
  start_eq : k.heap.start = ⟨config.heapStart⟩
  maxSize_eq : k.heap.maxSize = config.heapMaxSize
  sound : ∃ l, k.heap.Sound l

/-- **The invariant of a kernel** that has seen a number of timer ticks.  The clock is that number, and
not what the kernel counts modulo 2^64; time accounts are only known to be right as long as the two
agree. -/
structure Steady (config : BootConfig) (directory : PageDirectory) (I : MemoryInvariant)
    (clock : Nat) (k : Kernel ε) : Prop extends Backed config directory I k where
  ticks_eq : k.ticks = clock % 2 ^ 64
  scheduled : k.processes.Scheduled
  timed : clock < 2 ^ 64 → k.processes.Timed clock

/-- The clock went round, and so a time no longer fits its word.  A process that is charged for more
ticks than a word holds is a fault, and there is no other fault of this kind. -/
def ClockFault (clock : Nat) (e : Fault) : Prop := e = .overflow .add ∧ 2 ^ 64 ≤ clock

/-- **The faults of a running kernel**: one of its counters ran out, that of the ticks or that of the
pids.  No other fault is admitted in the contracts of calls. -/
def CounterFault (clock : Nat) (k : Kernel ε) (e : Fault) : Prop :=
  ClockFault clock e ∨ k.processes.PidFault e

/-- A counter that ran out overflows. -/
theorem CounterFault.eq_overflow {clock : Nat} {k : Kernel ε} (e : Fault)
    (he : CounterFault clock k e) : e = .overflow .add :=
  he.elim And.left And.left

variable {config : BootConfig} {directory : PageDirectory} {I J : MemoryInvariant} {clock : Nat}
  {k : Kernel ε} {admits : Fault → Prop}

/-! ## Interrupts -/

/-- **A masked operation** meets every contract of the operation that is not about interrupts.  This is
most of them. -/
theorem masked_meets {op : Kernel ε → Run (α × Kernel ε)} (post : α → Kernel ε → Prop)
    (post_setInterrupts : ∀ a k enabled, post a k → post a (setInterrupts k enabled))
    (hop : (op (k.setInterrupts false)).Meets admits fun (a, k') => post a k') :
    (masked op k).Meets admits fun (a, k') => post a k' := by
  unfold masked
  refine hop.bind fun (a, k') hk' => Run.meets_pure ?_
  dsimp only
  split
  · exact post_setInterrupts a k' true hk'
  · exact hk'

/-- **A masked operation leaves the interrupt flag as it was**, if interrupts stay masked while it
runs. -/
theorem masked_restores {op : Kernel ε → Run (α × Kernel ε)} (post : α → Kernel ε → Prop)
    (hop : (op (k.setInterrupts false)).Meets admits fun (a, k') =>
      k'.cpu.interruptsEnabled = false ∧ post a (k'.setInterrupts k.cpu.interruptsEnabled)) :
    (masked op k).Meets admits fun (a, k') => post a k' := by
  unfold masked
  refine hop.bind fun (a, k') ⟨hoff, hk'⟩ => Run.meets_pure ?_
  dsimp only
  split
  case isTrue hon =>
    rw [hon] at hk'
    exact hk'
  case isFalse hnot =>
    have hsame : k'.setInterrupts false = k' := by
      rw [setInterrupts, ← hoff]
    rw [Bool.not_eq_true] at hnot
    rw [hnot, hsame] at hk'
    exact hk'

theorem Backed.setInterrupts (h : Backed config directory I k) (enabled : Bool) :
    Backed config directory I (k.setInterrupts enabled) :=
  ⟨h.config_eq, h.directory_eq, h.memory, h.start_eq, h.maxSize_eq, h.sound⟩

theorem Steady.setInterrupts (h : Steady config directory I clock k) (enabled : Bool) :
    Steady config directory I clock (k.setInterrupts enabled) :=
  ⟨h.toBacked.setInterrupts enabled, h.ticks_eq, h.scheduled, h.timed⟩

/-- A masked operation that keeps to the invariant.  Nothing in the invariant is about interrupts. -/
theorem Steady.masked_meets {op : Kernel ε → Run (α × Kernel ε)} {J : α → MemoryInvariant}
    (hop : (op (k.setInterrupts false)).Meets admits fun (a, k') =>
      Steady config directory (J a) clock k') :
    (masked op k).Meets admits fun (a, k') => Steady config directory (J a) clock k' :=
  Kernel.masked_meets (fun a k' => Steady config directory (J a) clock k')
    (fun _ _ enabled h => h.setInterrupts enabled) hop

/-! ## One part at a time -/

/-- What is true of the memory of a kernel is not about its processes. -/
theorem Backed.withProcesses (h : Backed config directory I k) (processes : ProcessTable ε) :
    Backed config directory I { k with processes } :=
  ⟨h.config_eq, h.directory_eq, h.memory, h.start_eq, h.maxSize_eq, h.sound⟩

theorem Steady.withProcesses (h : Steady config directory I clock k) {processes : ProcessTable ε}
    (scheduled : processes.Scheduled) (timed : ∀ now, k.processes.Timed now → processes.Timed now) :
    Steady config directory I clock { k with processes } :=
  ⟨h.toBacked.withProcesses processes, h.ticks_eq, scheduled, fun hclock => timed _ (h.timed hclock)⟩

/-- Memory and frames may change as long as an invariant holds of them, be it the same or another
one. -/
theorem Steady.withMemory (h : Steady config directory I clock k) {cpu : Cpu} {paging : Paging}
    {frames : FrameAllocator} (hJ : J k.heap.backed paging frames) :
    Steady config directory J clock { k with cpu, paging, frames } :=
  ⟨⟨h.config_eq, h.directory_eq, hJ, h.start_eq, h.maxSize_eq, h.sound⟩, h.ticks_eq, h.scheduled,
    h.timed⟩

/-! ## Frames and pages -/

section

variable {Q : Option PhysAddr → MemoryInvariant} {R : Option PageDirectory → MemoryInvariant}

theorem Steady.allocFrame_meets (s : Steady config directory I clock k)
    (halloc : ∃ frame? frames, k.frames.alloc = .ok (frame?, frames)
      ∧ Q frame? k.heap.backed k.paging frames) :
    k.allocFrame.Meets admits fun (frame?, k') => Steady config directory (Q frame?) clock k' := by
  refine Steady.masked_meets (J := Q) ?_
  have s' := s.setInterrupts false
  obtain ⟨frame?, frames, hframes, hQ⟩ := halloc
  exact Run.meets_lift_bind hframes (Run.meets_pure (s'.withMemory hQ))

theorem Steady.freeFrame_meets (s : Steady config directory I clock k) {address : PhysAddr}
    (hfree : (k.frames.free address).Meets admits fun frames => J k.heap.backed k.paging frames) :
    (k.freeFrame address).Meets admits fun (_, k') => Steady config directory J clock k' := by
  refine Steady.masked_meets (J := fun _ => J) ?_
  have s' := s.setInterrupts false
  exact hfree.bind fun frames hJ => Run.meets_pure (s'.withMemory hJ)

theorem Steady.createDirectory_meets (s : Steady config directory I clock k)
    (hcreate : (k.paging.createDirectory k.frames).Meets admits fun (directory?, paging, frames) =>
      R directory? k.heap.backed paging frames) :
    k.createDirectory.Meets admits fun (directory?, k') =>
      Steady config directory (R directory?) clock k' := by
  refine Steady.masked_meets (J := R) ?_
  have s' := s.setInterrupts false
  refine hcreate.bind ?_
  rintro ⟨directory?, paging, frames⟩ hR
  exact Run.meets_pure (s'.withMemory hR)

theorem Steady.switchDirectory_meets (s : Steady config directory I clock k) {d : PageDirectory}
    (hJ : J k.heap.backed { k.paging with current? := some d } k.frames) :
    (k.switchDirectory d).Meets admits fun (_, k') => Steady config directory J clock k' := by
  refine Steady.masked_meets (J := fun _ => J) ?_
  have s' := s.setInterrupts false
  exact Run.meets_pure (s'.withMemory hJ)

theorem Steady.map_meets (s : Steady config directory I clock k) {d : PageDirectory}
    {address : VirtAddr} {target : PhysAddr} {flags : PageFlags}
    (hmap : (k.paging.map k.frames d address target flags).Meets admits fun (_, paging, frames) =>
      J k.heap.backed paging frames) :
    (k.map d address target flags).Meets admits fun (_, k') =>
      Steady config directory J clock k' := by
  refine Steady.masked_meets (J := fun _ => J) ?_
  have s' := s.setInterrupts false
  refine hmap.bind ?_
  rintro ⟨result, paging, frames⟩ hJ
  exact Run.meets_pure (s'.withMemory hJ)

theorem Steady.unmap_meets (s : Steady config directory I clock k) {d : PageDirectory}
    {address : VirtAddr}
    (hJ : ∀ cpu, J k.heap.backed (k.paging.unmap cpu d address).2.1 k.frames) :
    (k.unmap d address).Meets admits fun (_, k') => Steady config directory J clock k' := by
  refine Steady.masked_meets (J := fun _ => J) ?_
  have s' := s.setInterrupts false
  exact Run.meets_pure (s'.withMemory (hJ _))

end

/-! ## The heap -/

section

/-- **A heap operation** that keeps to the invariant of the pages.  The operation may assume a sound
heap, and has to leave one. -/
theorem Backed.withHeap_meets (b : Backed config directory I k)
    {op : Heap → KernelPages → Run (α × Heap × KernelPages)} {P : α → Heap → Prop}
    (hop : ∀ l, k.heap.Sound l → KernelPages.Holds directory I k.heap.backed k.heapPages →
      (op k.heap k.heapPages).Meets admits fun (a, heap, pages) =>
        KernelPages.Holds directory I heap.backed pages ∧ P a heap
          ∧ ∃ l', Heap.Evolves k.heap l heap l') :
    (k.withHeap op).Meets admits fun (a, k') =>
      Backed config directory I k' ∧ P a k'.heap ∧ k'.processes = k.processes
        ∧ k'.ticks = k.ticks := by
  obtain ⟨l, sound⟩ := b.sound
  unfold withHeap
  refine (hop l sound ⟨b.directory_eq, b.memory⟩).bind ?_
  rintro ⟨a, heap, pages⟩ ⟨⟨hdirectory, hI⟩, hP, l', e⟩
  refine Run.meets_pure ⟨⟨b.config_eq, b.directory_eq, hI, ?_, ?_, l', e.sound⟩, hP, rfl, rfl⟩
  · exact e.start_eq.trans b.start_eq
  · exact e.maxSize_eq.trans b.maxSize_eq

/-- The pages of the heap are those that the layout has for it. -/
theorem Backed.window_eq (b : Backed config directory I k) : k.heap.window = config.heapPages := by
  rw [Heap.window, b.start_eq, b.maxSize_eq, BootConfig.heapPages]

theorem Backed.keeps (b : Backed config directory I k)
    (growable : I.Growable directory config.heapPages) :
    PageSource.Keeps KernelPages k.heap.window admits (KernelPages.Holds directory I) :=
  b.window_eq ▸ growable admits

/-- A kernel that kept its processes and its clock is steady if its memory is as it should be. -/
theorem Steady.of_backed {k' : Kernel ε} (s : Steady config directory I clock k)
    (b : Backed config directory J k') (processes_eq : k'.processes = k.processes)
    (ticks_eq : k'.ticks = k.ticks) : Steady config directory J clock k' :=
  ⟨b, ticks_eq.trans s.ticks_eq, processes_eq ▸ s.scheduled, fun hclock =>
    processes_eq ▸ s.timed hclock⟩

/-- A heap operation of clients keeps the kernel steady, whether or not it is met. -/
theorem Steady.withHeap_meets (s : Steady config directory I clock k)
    {op : Heap → KernelPages → Run (α × Heap × KernelPages)}
    (hop : ∀ {heap l pages}, heap.Sound l → heap.window = config.heapPages →
      KernelPages.Holds directory I heap.backed pages →
        (op heap pages).Meets admits fun (_, heap', pages') =>
          KernelPages.Holds directory I heap'.backed pages' ∧ ∃ l', Heap.Evolves heap l heap' l') :
    (masked (withHeap op) k).Meets admits fun (_, k') => Steady config directory I clock k' := by
  refine Steady.masked_meets (J := fun _ => I) ?_
  have s' := s.setInterrupts false
  have hrun := s'.toBacked.withHeap_meets (P := fun _ _ => True) fun l sound hI =>
    (hop sound s'.window_eq hI).imp fun (a, heap, pages) ⟨hI', e⟩ => ⟨hI', trivial, e⟩
  exact hrun.imp fun (a, k') ⟨b, _, hprocesses, hticks⟩ => s'.of_backed b hprocesses hticks

section

variable (growable : I.Growable directory config.heapPages)
include growable

theorem Steady.alloc_meets (s : Steady config directory I clock k) (size : Nat) :
    (k.alloc size).Meets admits fun (_, k') => Steady config directory I clock k' := by
  refine s.withHeap_meets fun sound hwindow hI => ?_
  refine (sound.alloc_meets (hwindow ▸ growable admits) hI size).imp ?_
  rintro ⟨p?, heap, pages⟩ ⟨hI', l', e, -⟩
  exact ⟨hI', l', e⟩

theorem Steady.calloc_meets (s : Steady config directory I clock k) (count size : Nat) :
    (k.calloc count size).Meets admits fun (_, k') => Steady config directory I clock k' := by
  refine s.withHeap_meets fun sound hwindow hI => ?_
  refine (sound.calloc_meets (hwindow ▸ growable admits) hI count size).imp ?_
  rintro ⟨p?, heap, pages⟩ ⟨hI', l', e, -⟩
  exact ⟨hI', l', e⟩

theorem Steady.realloc_meets (s : Steady config directory I clock k) (p? : Option Pointer)
    (size : Nat) :
    (k.realloc p? size).Meets admits fun (_, k') => Steady config directory I clock k' :=
  s.withHeap_meets fun sound hwindow hI =>
    sound.realloc_evolves (hwindow ▸ growable admits) hI p? size

end

theorem Backed.freeBlock_meets (b : Backed config directory I k) (p : Pointer) :
    (k.freeBlock p).Meets admits fun (_, k') =>
      Backed config directory I k' ∧ k'.processes = k.processes ∧ k'.ticks = k.ticks := by
  obtain ⟨l, sound⟩ := b.sound
  unfold freeBlock
  refine (sound.free_evolves p).bind ?_
  rintro ⟨freed, heap⟩ ⟨hbacked, l', e⟩
  refine Run.meets_pure ⟨⟨b.config_eq, b.directory_eq, ?_, ?_, ?_, l', e.sound⟩, rfl, rfl⟩
  · show I heap.backed k.paging k.frames
    rw [hbacked]
    exact b.memory
  · exact e.start_eq.trans b.start_eq
  · exact e.maxSize_eq.trans b.maxSize_eq

theorem Steady.free_meets (s : Steady config directory I clock k) (p : Pointer) :
    (k.free p).Meets admits fun (_, k') => Steady config directory I clock k' := by
  refine Steady.masked_meets (J := fun _ => I) ?_
  have s' := s.setInterrupts false
  exact (s'.freeBlock_meets p).imp fun (a, k') ⟨b, hprocesses, hticks⟩ =>
    s'.of_backed b hprocesses hticks

/-- A client writes into a payload, or nothing is written.  No header can be damaged in this way. -/
theorem Steady.store_meets (s : Steady config directory I clock k) (p : Pointer) (v : UInt8)
    (n : Nat) :
    (k.perform (.store p v n)).Meets admits (Steady config directory I clock) := by
  obtain ⟨l, sound⟩ := s.sound
  rcases sound.store_ok p v n with ⟨hstore, -⟩ | ⟨b, -, -, -, hstore, sound'⟩
  · exact Run.meets_lift_bind hstore (Run.meets_pure s)
  · have hbacked : Heap.backed { k.heap with arena := k.heap.arena.fill p.offset.toNat v n }
        = k.heap.backed := Heap.Sound.backed_eq rfl (Arena.size_fill ..)
    refine Run.meets_lift_bind hstore (Run.meets_pure (s.of_backed ?_ rfl rfl))
    exact ⟨s.config_eq, s.directory_eq, hbacked ▸ s.memory, s.start_eq, s.maxSize_eq, l, sound'⟩

end

end Kernel

end TinyKernel
