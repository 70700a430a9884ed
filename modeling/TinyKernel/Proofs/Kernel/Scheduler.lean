import TinyKernel.Proofs.Kernel.Processes
import TinyKernel.Proofs.Paging.Tables

/-!
# The scheduler of a booted kernel

Whatever a booted kernel is asked to do, in any order and with any arguments, there is always exactly
one process that runs and the queue is exactly the processes that wait for it.  Nothing is assumed
about how frames and pages are used: a client may unmap the heap and give back frames that are not
its own, and the schedule is as it should be.

* `ProcessTable.WellScheduled` — what the scheduler promises
* `Kernel.boot_cases`, `Kernel.boot_meets` — how a kernel boots, and that it is steady then
* `Kernel.boot_wellScheduled` — the promise is kept in every run
-/

namespace TinyKernel

/-- **What the scheduler promises**, in terms of states, pids and the queue.  Nothing is said about
what was called before; every table that a run of the kernel leads to is like this. -/
structure ProcessTable.WellScheduled {ε : Type} (t : ProcessTable ε) : Prop where
  /-- Exactly one process runs, in the current slot. -/
  running_iff : ∀ s, t.stateAt? s = some .running ↔ s = t.current
  /-- The queue lists the slots that are ready, once each. -/
  ready_nodup : t.ready.Nodup
  mem_ready_iff : ∀ s, s ∈ t.ready ↔ t.stateAt? s = some .ready
  length_ready_le : t.ready.length ≤ maxProcesses
  /-- No process is left half created between two calls. -/
  ne_new : ∀ s, t.stateAt? s ≠ some .new
  /-- The kernel's own process is in its slot, and runs or waits. -/
  kernel_pid : t.pidAt? kernelSlot = some .kernel
  kernel_state : t.stateAt? kernelSlot = some .running ∨ t.stateAt? kernelSlot = some .ready
  /-- Whoever gives up the processor, there is somebody to take it. -/
  ready_ne_nil : t.current ≠ kernelSlot → t.ready ≠ []
  pid_inj : ∀ s s' p, t.pidAt? s = some p → t.pidAt? s' = some p → s = s'
  pid_lt : ∀ s p, t.pidAt? s = some p → p.val < t.nextPid

theorem ProcessTable.Scheduled.wellScheduled {ε : Type} {t : ProcessTable ε} (h : t.Scheduled) :
    t.WellScheduled where
  running_iff s := by
    constructor
    · exact h.running s
    · rintro rfl
      exact h.current_running
  ready_nodup := h.ready_nodup
  mem_ready_iff := h.mem_ready
  length_ready_le := h.length_ready_le
  ne_new s hnew := Finset.notMem_empty s ((h.mem_held s).mpr hnew)
  kernel_pid := h.kernel_pid
  kernel_state := h.kernel_state
  ready_ne_nil hcurrent hnil := by
    have hmem := h.kernelSlot_mem_ready (Or.inl hcurrent)
    rw [hnil] at hmem
    cases hmem
  pid_inj := h.pid_inj
  pid_lt := h.pid_lt

namespace Kernel

variable {ε : Type} {config : BootConfig} {directory : PageDirectory} {I : MemoryInvariant}
  {clock : Nat} {k : Kernel ε} {admits : Fault → Prop}

/-! ## Calls -/

/-- **A call that does not touch pages at all** keeps the kernel steady, whatever holds of memory.
Such calls need no invariant of growth. -/
theorem Steady.perform_meets_of_not_growsHeap (s : Steady config directory I clock k)
    {call : KernelCall ε} (hpages : call.touchesPages = false) (hheap : call.growsHeap = false) :
    (k.perform call).Meets (ClockFault clock) (Steady config directory I (clock + call.ticks)) := by
  cases call with
  | allocFrame => cases hpages
  | freeFrame address => cases hpages
  | createDirectory => cases hpages
  | switchDirectory d => cases hpages
  | map d address target flags => cases hpages
  | unmap d address => cases hpages
  | alloc size => cases hheap
  | calloc count size => cases hheap
  | realloc p? size => cases hheap
  | spawn name priority entry => cases hheap
  | free p => exact Run.Meets.map (s.free_meets p)
  | store p v n => exact s.store_meets p v n
  | yield => exact Run.Meets.map s.yield_meets
  | exit code => exact Run.Meets.map (s.exit_meets code)
  | kill pid => exact Run.Meets.map (s.kill_meets pid)
  | block => exact Run.Meets.map s.block_meets
  | unblock pid => exact Run.Meets.map (s.unblock_meets pid)
  | reap => exact Run.Meets.map s.reap_meets
  | takeEntry => exact Run.Meets.map s.takeEntry_meets
  | tick => exact Run.meets_pure s.tick
  | syscall number arg => exact Run.Meets.map (s.syscall_meets number arg)

/-- **A call that does not touch pages by itself** keeps the kernel steady, if what holds of memory
survives the growth of the heap.  Proofs with an invariant of their own use this, and treat the calls
about pages themselves. -/
theorem Steady.perform_meets_of_not_touchesPages (growable : I.Growable directory config.heapPages)
    (s : Steady config directory I clock k) {call : KernelCall ε} (hcall : call.touchesPages = false) :
    (k.perform call).Meets (CounterFault clock k) (Steady config directory I (clock + call.ticks)) := by
  have hclock : ∀ e, ClockFault clock e → CounterFault clock k e := fun e he => Or.inl he
  have hpid : ∀ e, k.processes.PidFault e → CounterFault clock k e := fun e he => Or.inr he
  cases call with
  | alloc size => exact Run.Meets.map (s.alloc_meets growable size)
  | calloc count size => exact Run.Meets.map (s.calloc_meets growable count size)
  | realloc p? size => exact Run.Meets.map (s.realloc_meets growable p? size)
  | spawn name priority entry =>
      exact Run.Meets.map ((s.spawn_meets growable name priority entry).mono hpid fun _ h => h)
  | _ => exact (s.perform_meets_of_not_growsHeap hcall rfl).mono hclock fun _ h => h

/-! ## Boot -/

/-- What the kernel heap is set up with, once paging is on. -/
def bootPages (cpu : Cpu) (directory : PageDirectory) (paging : Paging) (frames : FrameAllocator) :
    KernelPages where
  cpu := (cpu.loadDirectory directory.address).enablePaging
  paging := { paging with current? := some directory }
  frames
  directory

/-- The kernel that booting ends in, once its heap is set up.  All that is new about it is the process
table. -/
def booted (config : BootConfig) (directory : PageDirectory) (pages : KernelPages) (heap : Heap) :
    Kernel ε where
  cpu := pages.cpu
  config
  directory
  frames := pages.frames
  paging := pages.paging
  heap
  processes := .new directory.address
  ticks := 0
  dropped := #[]

/-- **How a kernel boots**: the layout is checked, then paging is started, and then the heap is set
up.  `S` is what is said of paging in between.  Whatever is proved of booting goes through this, and
meets the code of it only here. -/
theorem boot_cases {machine : Machine} {config : BootConfig}
    {S : PageDirectory → Paging → FrameAllocator → Prop} {post : Kernel ε → Prop}
    (invalid : ∀ e, config.validate = .error e → admits (.invalidConfig e))
    (start : config.validate = .ok () →
      ∀ {frames}, frames.Lends (.ofMemory config.memoryTop config.reservedTop) ∅ →
        ((Paging.ofRam machine.ram).start frames).Meets admits fun (started, paging, frames) =>
          match started with
          | .error e => admits (.noKernelDirectory e)
          | .ok directory => S directory paging frames)
    (window : machine.heapWindow < config.heapMaxSize → admits .noHeapWindow)
    (init : ∀ {directory paging frames}, S directory paging frames →
      (Heap.init ⟨config.heapStart⟩ config.heapInitialSize config.heapMaxSize
          (bootPages machine.cpu directory paging frames)).Meets admits fun (made, pages) =>
        match made with
        | .error e => admits (.noKernelHeap e)
        | .ok heap => post (booted config directory pages heap)) :
    (boot machine config : Run (Kernel ε)).Meets admits post := by
  unfold boot
  extract_lets rest
  suffices hrest : config.validate = .ok () → (rest ()).Meets admits post by
    split
    case h_1 e hinvalid => exact fun _ => invalid e hinvalid
    case h_2 hvalid =>
      cases hok : config.validate with
      | ok => exact hrest hok
      | error e => exact absurd hok (hvalid e)
  intro hvalid
  refine (FrameAllocator.init_lends config.memoryTop config.reservedTop).bind fun frames hlends => ?_
  refine (start hvalid hlends).bind ?_
  rintro ⟨started, paging, frames⟩ hstarted
  cases started with
  | error e => exact Run.meets_throw hstarted
  | ok directory =>
      refine Run.meets_log_bind ?_
      extract_lets pages heapRest
      suffices hheap : (heapRest ()).Meets admits post by
        split
        case isTrue hwindow => exact fun _ => window hwindow
        case isFalse => exact hheap
      refine (init hstarted).bind ?_
      rintro ⟨made, pages'⟩ hmade
      cases made with
      | error e => exact Run.meets_throw hmade
      | ok heap => exact Run.meets_log_bind (Run.meets_pure hmade)

/-- **A kernel just booted** is steady, for any invariant that its directory starts out with; its heap
is one free block of the initial size, its process is the only one, and no entry was given up. -/
theorem boot_fresh {I : PageDirectory → MemoryInvariant} (machine : Machine) (config : BootConfig)
    (start : ∀ {frames}, frames.Lends (.ofMemory config.memoryTop config.reservedTop) ∅ →
      ((Paging.ofRam machine.ram).start frames).Meets (fun _ => True)
        fun (started, paging, frames) =>
          match started with
          | .error _ => True
          | .ok directory => I directory ∅ { paging with current? := some directory } frames)
    (growable : ∀ directory, (I directory).Growable directory config.heapPages) :
    (boot machine config : Run (Kernel ε)).Meets (fun _ => True) fun k =>
      Steady config k.directory (I k.directory) 0 k
        ∧ (∃ b, b.free = true ∧ k.heap.Sound [b] ∧ k.heap.size = config.heapInitialSize)
        ∧ k.processes = .new k.directory.address ∧ k.dropped = #[] := by
  refine boot_cases (S := fun directory paging frames =>
    I directory ∅ { paging with current? := some directory } frames)
    (fun _ _ => trivial) (fun _ => start) (fun _ => trivial) ?_
  intro directory paging frames hI
  have hpages : KernelPages.Holds directory (I directory) ∅
      (bootPages machine.cpu directory paging frames) := ⟨rfl, hI⟩
  refine (Heap.init_meets (growable directory _) hpages).imp ?_
  rintro ⟨made, pages⟩ hmade
  cases made with
  | error e => trivial
  | ok heap =>
      obtain ⟨⟨-, hI⟩, hstart, hmaxSize, hsize, sound⟩ := hmade
      refine ⟨?_, ⟨_, rfl, sound, hsize⟩, rfl, rfl⟩
      exact ⟨⟨rfl, rfl, hI, hstart, hmaxSize, _, sound⟩, rfl,
        ProcessTable.new_scheduled directory.address,
        fun _ => ProcessTable.new_timed directory.address⟩

theorem boot_meets {I : PageDirectory → MemoryInvariant} (machine : Machine) (config : BootConfig)
    (start : ∀ {frames}, frames.Lends (.ofMemory config.memoryTop config.reservedTop) ∅ →
      ((Paging.ofRam machine.ram).start frames).Meets (fun _ => True)
        fun (started, paging, frames) =>
          match started with
          | .error _ => True
          | .ok directory => I directory ∅ { paging with current? := some directory } frames)
    (growable : ∀ directory, (I directory).Growable directory config.heapPages) :
    (boot machine config : Run (Kernel ε)).Meets (fun _ => True) fun k =>
      Steady config k.directory (I k.directory) 0 k :=
  (boot_fresh machine config start growable).imp fun _ h => h.1

end Kernel

/-! ## Frames that are lent out, and nothing else -/

namespace MemoryInvariant

/-- **The frame allocator knows what it lent out**, whatever is done with it.  This is the weakest
invariant of memory that keeps the allocator from faulting. -/
def lending (range : FrameRange) : MemoryInvariant := fun _ _ frames =>
  ∃ lent, frames.Lends range lent

variable {range : FrameRange} {paging : Paging} {frames : FrameAllocator} {lent : Finset Frame}
  {admits : Fault → Prop}

theorem lending_map (h : frames.Lends range lent) (directory : PageDirectory) (address : VirtAddr)
    (target : PhysAddr) (flags : PageFlags) :
    (paging.map frames directory address target flags).Meets admits fun (_, _, frames') =>
      ∃ lent', frames'.Lends range lent' := by
  refine (Paging.map_meets h directory address target flags).imp ?_
  rintro ⟨result, paging', frames'⟩ (⟨-, -, hlends⟩ | ⟨-, -, lent', -, -, hlends⟩)
  · exact ⟨lent, hlends⟩
  · exact ⟨lent', hlends⟩

theorem lending_alloc (h : frames.Lends range lent) :
    ∃ frame? frames', frames.alloc = .ok (frame?, frames') ∧ ∃ lent', frames'.Lends range lent' := by
  obtain ⟨frame?, frames', halloc, hframe⟩ := h.alloc_ok
  refine ⟨frame?, frames', halloc, ?_⟩
  cases frame? with
  | none => exact ⟨lent, hframe⟩
  | some address =>
      obtain ⟨f, -, -, hlends⟩ := hframe
      exact ⟨_, hlends⟩

/-- Growth takes frames and gives them back, and never faults. -/
theorem lending_growable (range : FrameRange) (directory : PageDirectory)
    (window : Finset VirtAddr) : (lending range).Growable directory window := by
  refine growable_of (J := fun _ => lending range) ?_ ?_ ?_ ?_
  · rintro backed p frames ⟨lent, h⟩
    obtain ⟨frame?, frames', halloc, hlends⟩ := lending_alloc h
    refine ⟨frame?, frames', halloc, ?_⟩
    cases frame? <;> exact hlends
  · rintro backed p frames frame admits ⟨lent, h⟩
    exact (h.free_meets frame).imp fun frames' h' => ⟨_, h'⟩
  · rintro backed p frames frame page admits ⟨lent, h⟩ - -
    refine (lending_map h directory page frame .writable).imp ?_
    rintro ⟨result, p', frames'⟩ hlends
    cases result <;> exact hlends
  · intro backed p frames page cpu h hmem
    split <;> exact h

/-- Paging starts with whatever frames it needs. -/
theorem lending_start (h : frames.Lends range lent) :
    (paging.start frames).Meets admits fun (started, paging', frames') =>
      match started with
      | .error _ => True
      | .ok directory => lending range ∅ { paging' with current? := some directory } frames' := by
  refine (Paging.start_meets (I := fun _ _ frames => ∃ lent, frames.Lends range lent) h
    (fun _ _ hlends => ⟨_, hlends⟩)
    fun ⟨_, hlends⟩ address target => lending_map hlends _ address target _).imp ?_
  rintro ⟨started, paging', frames'⟩ hstarted
  cases started with
  | error e => trivial
  | ok directory =>
      obtain ⟨q, hlends, -⟩ := hstarted
      exact hlends

end MemoryInvariant

/-! ## Every run -/

namespace Kernel

open MemoryInvariant

variable {ε : Type} {config : BootConfig} {directory : PageDirectory} {range : FrameRange}
  {clock : Nat} {k : Kernel ε}

/-- **Every call keeps the kernel steady**, and faults only if a counter runs out.  Clients may do what
they like: they can spoil translations, but neither the process table nor the heap. -/
theorem Steady.perform_meets (s : Steady config directory (lending range) clock k)
    (call : KernelCall ε) :
    (k.perform call).Meets (CounterFault clock k)
      (Steady config directory (lending range) (clock + call.ticks)) := by
  obtain ⟨lent, hlends⟩ := s.memory
  cases hcall : call.touchesPages with
  | false =>
      exact s.perform_meets_of_not_touchesPages (lending_growable range directory _) hcall
  | true =>
      cases call with
      | allocFrame =>
          exact Run.Meets.map
            (s.allocFrame_meets (Q := fun _ => lending range) (lending_alloc hlends))
      | freeFrame address =>
          exact Run.Meets.map (s.freeFrame_meets ((hlends.free_meets address).imp fun _ h => ⟨_, h⟩))
      | createDirectory =>
          refine Run.Meets.map (s.createDirectory_meets (R := fun _ => lending range) ?_)
          refine (Paging.createDirectory_meets hlends).imp ?_
          rintro ⟨directory?, paging, frames⟩ hcreated
          cases directory? with
          | none => exact ⟨lent, hcreated.2⟩
          | some d => exact ⟨_, hcreated.2.2.1⟩
      | switchDirectory d =>
          exact Run.Meets.map (s.switchDirectory_meets (J := lending range) ⟨lent, hlends⟩)
      | map d address target flags =>
          exact Run.Meets.map (s.map_meets (lending_map hlends d address target flags))
      | unmap d address =>
          exact Run.Meets.map (s.unmap_meets (J := lending range) fun _ => ⟨lent, hlends⟩)
      | _ => cases hcall

theorem Steady.run_meets (s : Steady config directory (lending range) clock k)
    (calls : List (KernelCall ε)) :
    (k.run calls).Meets (fun e => e = .overflow .add)
      (Steady config directory (lending range) (clock + ticksOf calls)) := by
  induction calls generalizing k clock with
  | nil => exact Run.meets_pure s
  | cons call calls ih =>
      rw [add_ticksOf_cons]
      exact ((s.perform_meets call).mono CounterFault.eq_overflow fun _ h => h).bind fun _ s' => ih s'

/-- **A booted kernel stays steady**, in every run.  Results about every run start from here. -/
theorem boot_steady (machine : Machine) (config : BootConfig) :
    (boot machine config : Run (Kernel ε)).Meets (fun _ => True) fun k =>
      ∀ calls : List (KernelCall ε), (k.run calls).Meets (fun e => e = .overflow .add)
        (Steady config k.directory (lending (.ofMemory config.memoryTop config.reservedTop))
          (ticksOf calls)) := by
  have hboot := boot_meets (ε := ε)
    (I := fun _ => lending (.ofMemory config.memoryTop config.reservedTop)) machine config
    lending_start fun directory => lending_growable _ directory _
  refine hboot.imp fun k s calls => ?_
  rw [← Nat.zero_add (ticksOf calls)]
  exact s.run_meets calls

/-- **The promise of the scheduler is kept** by every kernel that boots, in every run.  The only faults
are those of a counter that ran out: that of the pids, or that of the ticks.  In particular the ready
queue never overflows, and no reservation is activated twice. -/
theorem boot_wellScheduled (machine : Machine) (config : BootConfig) :
    (boot machine config : Run (Kernel ε)).Meets (fun _ => True) fun k =>
      ∀ calls : List (KernelCall ε), (k.run calls).Meets (fun e => e = .overflow .add) fun k' =>
        k'.processes.WellScheduled ∧
          ∀ call, (k'.perform call).Meets (CounterFault (ticksOf calls) k') fun _ => True := by
  refine (boot_steady machine config).imp fun k hruns calls => (hruns calls).imp fun k' s' => ?_
  exact ⟨s'.scheduled.wellScheduled, fun call => (s'.perform_meets call).imp fun _ _ => trivial⟩

end Kernel

end TinyKernel
