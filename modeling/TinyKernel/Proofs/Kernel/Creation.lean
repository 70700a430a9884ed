import TinyKernel.Proofs.Kernel.HeapPages
import TinyKernel.Proofs.Process.Changes

/-!
# Creation is all or nothing

Whoever creates a process needs a slot, a pid and a stack, in this order, and the heap may have to
grow for the stack.  Without a slot nothing is taken at all.  Without a stack the slot is given back,
and it is as if nobody had asked, but that a pid is used up.  With both, the process is ready.

## What is load-bearing

The heap is asked for a stack in the middle of a creation, while a slot is held.  But it looks neither
at processes nor at the console, and so its answer is the one that a client would have had instead
(`Kernel.canAllocate_iff`).  This is why it can be told beforehand how a creation ends.

* `Kernel.CanAllocate` — whether a client could have some bytes
* `Kernel.Spawns`, `Kernel.Steady.spawn_cases` — how a creation ends, and what it leaves
* `Kernel.Backed.canAllocate_of_fits`, `Kernel.Backed.canAllocate_of_single` — where there is a stack
* `Kernel.CreationLaw` — when it ends in which way, as a client sees it
* `Kernel.boot_creation_law` — the law holds in every run
-/

namespace TinyKernel

variable {ε α : Type}

namespace ProcessTable

variable {t : ProcessTable ε} {s : Slot}

/-- **One process more**, in the first free slot and at the end of the queue.  Of all others only the
running process changes, which takes a note of its child if there is room. -/
structure Joins (t : ProcessTable ε) (s : Slot) (b : ControlBlock ε) (t' : ProcessTable ε) : Prop where
  first : t.FirstFree s
  block?_eq : t'.block? s = some b
  others : ∀ s' ≠ s, t'.block? s' =
    (t.block? s').map fun c => if s' = t.current then c.noting b.pid else c
  ready_eq : t'.ready = t.ready ++ [s]
  current_eq : t'.current = t.current
  nextPid_eq : t'.nextPid = t.nextPid + 1

theorem Coherent.joins (c : Coherent t) (first : t.FirstFree s) (b : ControlBlock ε) :
    t.Joins s b (t.enrolled s b) := by
  obtain ⟨creator, hcreator⟩ := Option.isSome_iff_exists.mp c.occupied
  have hblock := block?_enrolled (b := b) first.free hcreator
  refine ⟨first, ?_, fun s' hs' => ?_, rfl, rfl, rfl⟩
  · rw [hblock, if_pos rfl]
  · rw [hblock, if_neg hs']
    by_cases heq : s' = t.current
    · rw [if_pos heq, heq, hcreator, Option.map_some, if_pos rfl]
    · simp only [if_neg heq, Option.map_id']

end ProcessTable

namespace Kernel

open ProcessTable

variable {config : BootConfig} {directory : PageDirectory} {I : MemoryInvariant} {clock : Nat}
  {k k' : Kernel ε} {name : String} {priority : Priority} {entry : ε}
  {result : Except ProcessError Pid} {admits : Fault → Prop}

/-! ## The law -/

/-- **Whether a client could have some bytes**: if it asked for them, it would be answered with a
pointer. -/
def CanAllocate (k : Kernel ε) (size : Nat) : Prop := ∃ p k', (k.alloc size).Returns (some p, k')

/-- **Nothing is created**, and it is as if nobody had asked, but that a pid is used up, and that the
entry is given up.  The heap may have grown. -/
def CreatesNothing (k : Kernel ε) (entry : ε) (k' : Kernel ε) : Prop :=
  k'.processes = { k.processes with nextPid := k.processes.nextPid + 1 }
    ∧ k.heap.Grants k'.heap none ∧ k'.dropped = k.dropped.push entry

/-- **A process is created**, which has its entry and a stack, and nobody else has a block more or
less. -/
def Creates (k : Kernel ε) (birth : Birth) (entry : ε) (k' : Kernel ε) : Prop :=
  ∃ s b stack, k.processes.Joins s b k'.processes ∧ b.info = birth.info ∧ b.stack? = some stack
    ∧ b.pending? = some entry ∧ k.heap.Grants k'.heap (some stack) ∧ k'.dropped = k.dropped

/-- **The law of creation.**  That the table is full comes first, and then nothing changes but that the
entry is given up.  Want of memory comes next, and then nothing is created.  Otherwise a process is
created: it has the next pid, it is ready, and the running process is its parent. -/
structure CreationLaw (k : Kernel ε) (name : String) (priority : Priority) (entry : ε)
    (result : Except ProcessError Pid) (k' : Kernel ε) : Prop where
  tableFull_iff : result = .error .tableFull ↔ k.processes.Full
  outOfMemory_iff : result = .error .outOfMemory ↔ ¬ k.processes.Full ∧ ¬ k.CanAllocate stackSize
  ok_iff : (∃ pid, result = .ok pid) ↔ ¬ k.processes.Full ∧ k.CanAllocate stackSize
  tableFull : result = .error .tableFull → k' = k.drop entry
  outOfMemory : result = .error .outOfMemory → k.CreatesNothing entry k'
  ok : ∀ pid, result = .ok pid → pid = ⟨k.processes.nextPid⟩
    ∧ k.Creates (k.processes.birth name priority) entry k'

/-- **How a creation ends**, and what it leaves: all slots are in use; or a slot was free but there is no
stack, so that only a pid is used up; or a process enters the first free slot. -/
inductive Spawns (k : Kernel ε) (birth : Birth) (entry : ε) :
    Except ProcessError Pid → Kernel ε → Prop where
  | full (full : k.processes.Full) : Spawns k birth entry (.error .tableFull) (k.drop entry)
  | inVain {k' : Kernel ε} (room : ¬ k.processes.Full)
      (fits : k.processes.nextPid.toNat + 1 < 2 ^ 32) (refused : ¬ k.CanAllocate stackSize)
      (nothing : k.CreatesNothing entry k') : Spawns k birth entry (.error .outOfMemory) k'
  | created {s : Slot} {b : ControlBlock ε} {stack : Stack} {k' : Kernel ε}
      (first : k.processes.FirstFree s) (fits : k.processes.nextPid.toNat + 1 < 2 ^ 32)
      (granted : k.CanAllocate stackSize) (starts : b.Starts birth stack entry)
      (processes_eq : k'.processes = k.processes.enrolled s b)
      (grants : k.heap.Grants k'.heap (some stack)) (dropped_eq : k'.dropped = k.dropped) :
      Spawns k birth entry (.ok birth.pid) k'

/-- The interrupt flag has nothing to do with what a creation leaves. -/
theorem Spawns.setInterrupts {birth : Birth} (room : ¬ k.processes.Full)
    (h : k.Spawns birth entry result k') (enabled : Bool) :
    k.Spawns birth entry result (k'.setInterrupts enabled) := by
  cases h with
  | full full => exact absurd full room
  | inVain room fits refused nothing => exact .inVain room fits refused nothing
  | created first fits granted starts processes_eq grants dropped_eq =>
      exact .created first fits granted starts processes_eq grants dropped_eq

/-- **The law follows** from the ways in which a creation ends. -/
theorem Spawns.law (c : k.processes.Coherent)
    (h : k.Spawns (k.processes.birth name priority) entry result k') :
    k.CreationLaw name priority entry result k' := by
  cases h with
  | full full =>
      exact ⟨iff_of_true rfl full, iff_of_false nofun fun h => h.1 full,
        iff_of_false nofun fun h => h.1 full, fun _ => rfl, nofun, nofun⟩
  | inVain room fits refused nothing =>
      exact ⟨iff_of_false nofun room, iff_of_true rfl ⟨room, refused⟩,
        iff_of_false nofun fun h => refused h.2, nofun, fun _ => nothing, nofun⟩
  | @created s b stack _ first fits granted starts processes_eq grants dropped_eq =>
      have room := first.not_full
      refine ⟨iff_of_false nofun room, iff_of_false nofun fun h => h.2 granted,
        iff_of_true ⟨_, rfl⟩ ⟨room, granted⟩, nofun, nofun, fun pid hpid => ?_⟩
      have joins : k.processes.Joins s b k'.processes := by
        rw [processes_eq]
        exact c.joins first b
      exact ⟨(Except.ok.inj hpid).symm, s, b, stack, joins, starts.info_eq, starts.stack_eq,
        starts.pending_eq, grants, dropped_eq⟩

/-! ## Memory -/

/-- What a client is answered with is what the heap returns. -/
theorem alloc_returns (k : Kernel ε) (size : Nat) :
    (k.alloc size).Meets (fun _ => True) fun (p?, _) => ∃ heap pages,
      (k.heap.alloc (k.setInterrupts false).heapPages size).Returns (p?, heap, pages) := by
  refine masked_meets (fun p? _ => ∃ heap pages,
    (k.heap.alloc (k.setInterrupts false).heapPages size).Returns (p?, heap, pages))
    (fun _ _ _ h => h) ?_
  refine (Run.meets_returns _).bind ?_
  rintro ⟨p?, heap, pages⟩ h
  exact Run.meets_pure ⟨heap, pages, h⟩

/-- **The heap decides**, with its pages, and these have nothing to do with processes. -/
theorem canAllocate_iff {size : Nat} : k.CanAllocate size ↔ ∃ p heap pages,
    (k.heap.alloc (k.setInterrupts false).heapPages size).Returns (some p, heap, pages) := by
  constructor
  · rintro ⟨p, k', hreturns⟩
    exact ⟨p, (k.alloc_returns size).of_returns hreturns⟩
  · rintro ⟨p, heap, pages, c, c', hrun⟩
    have hop : (withHeap (fun heap pages => heap.alloc pages size) (k.setInterrupts false)).run c
        = .ok (some p, { k.setInterrupts false with
            heap, cpu := pages.cpu, paging := pages.paging, frames := pages.frames }) c' :=
      Run.run_bind_of_ok hrun
    exact ⟨p, _, c, c', Run.run_bind_of_ok hop⟩

/-- **What a free block has room for** can be had, and the heap need not grow for it. -/
theorem Backed.canAllocate_of_fits (growable : I.Growable directory config.heapPages)
    (backed : Backed config directory I k) {l : List Block} (sound : k.heap.Sound l) {size : Nat}
    (range : k.heap.Admits size) {b : Block} (hb : b ∈ l) (hfree : b.free = true)
    (hfits : Heap.rounded size ≤ b.size.toNat) : k.CanAllocate size := by
  rw [canAllocate_iff]
  have halloc : (k.heap.alloc (k.setInterrupts false).heapPages size).Meets (fun _ => False) _ :=
    sound.alloc_cases (backed.keeps growable) ⟨backed.directory_eq, backed.memory⟩ size
  have hits : ¬ Heap.Misses l (Heap.rounded size) := fun misses =>
    absurd (misses b hb hfree) (Nat.not_lt.mpr hfits)
  obtain ⟨⟨p?, heap, pages⟩, hreturns, -, l', allocates⟩ := halloc.exists_returns
  cases allocates with
  | outOfRange outside => exact absurd range outside
  | fits => exact ⟨_, _, _, hreturns⟩
  | ungrown _ misses => exact absurd misses hits
  | short _ misses => exact absurd misses hits
  | grown _ misses => exact absurd misses hits

/-- **A heap that is one free block** has room for whatever fits beside the header of that block. -/
theorem Backed.canAllocate_of_single (growable : I.Growable directory config.heapPages)
    (backed : Backed config directory I k) {b : Block} (sound : k.heap.Sound [b])
    (hfree : b.free = true) {size : Nat} (hsize : size ≠ 0)
    (hroom : Heap.rounded size + headerSize ≤ k.heap.size) : k.CanAllocate size := by
  have hmaxSize := sound.range.size_le
  have hstart : b.start.toNat = 0 := sound.represents.tiles.1
  have hstop : b.stop = k.heap.size := sound.represents.tiles.2
  have range : k.heap.Admits size := by
    have hle := Heap.le_rounded size
    exact ⟨hsize, by omega⟩
  refine backed.canAllocate_of_fits growable sound range List.mem_cons_self hfree ?_
  simp only [Block.stop, Block.first, hstart] at hstop
  omega

/-- The answer of a heap operation is what the operation makes of heap and pages; entries have nothing
to do with it. -/
theorem withHeap_answer {op : Heap → KernelPages → Run (α × Heap × KernelPages)} {P : α → Prop}
    (hop : (op k.heap k.heapPages).Meets admits fun (a, _, _) => P a) :
    (k.withHeap op).Meets admits fun (a, k') => P a ∧ k'.dropped = k.dropped :=
  hop.bind fun _ h => Run.meets_pure ⟨h, rfl⟩

/-- **There is a stack** exactly if a client could have as many bytes, whatever became of the processes
in the meantime. -/
theorem Backed.allocateStack_answer (growable : I.Growable directory config.heapPages)
    (b : Backed config directory I k) (processes : ProcessTable ε) :
    ({ k.setInterrupts false with processes } : Kernel ε).allocateStack.Meets (fun _ => True)
      fun (stack?, k') => (stack?.isSome ↔ k.CanAllocate stackSize) ∧ k'.dropped = k.dropped := by
  obtain ⟨l, sound⟩ := b.sound
  have halloc : (k.heap.alloc (k.setInterrupts false).heapPages stackSize).Meets (fun _ => True) _ :=
    sound.alloc_meets (b.keeps growable) ⟨b.directory_eq, b.memory⟩ stackSize
  rw [canAllocate_iff]
  refine withHeap_answer (P := fun stack? : Option Stack => stack?.isSome ↔ _)
    ((halloc.and (Run.meets_returns _)).bind ?_)
  rintro ⟨base?, heap, pages⟩ ⟨⟨-, l', e, hands⟩, hreturns⟩
  cases base? with
  | none =>
      refine Run.meets_pure (iff_of_false nofun ?_)
      rintro ⟨p, heap', pages', hreturns'⟩
      cases k.heap.alloc_determined _ stackSize _ _ hreturns hreturns'
  | some base =>
      obtain ⟨c, hc⟩ := hands
      obtain ⟨v, hv, -⟩ := hc.virtAddrOf_ok e.sound (by decide)
      dsimp only
      rw [hv]
      exact Run.meets_pure (iff_of_true rfl ⟨base, heap, pages, hreturns⟩)

/-! ## Creation -/

/-- **Without a slot** nothing is taken. -/
theorem spawn_of_full (full : k.processes.Full) (name : String) (priority : Priority) (entry : ε) :
    (k.spawn name priority entry).Meets admits fun (result, k') =>
      result = .error .tableFull ∧ k' = k.drop entry := by
  refine masked_restores (fun (result : Except ProcessError Pid) k' =>
    result = .error .tableFull ∧ k' = k.drop entry) ?_
  have hreserve : k.processes.reserve name priority = .ok (.error .tableFull, k.processes) := by
    rcases k.processes.reserve_cases name priority with ⟨-, hreserve⟩ | ⟨s, first, -⟩
    · exact hreserve
    · exact absurd full first.not_full
  exact Run.meets_lift_bind hreserve (Run.meets_pure ⟨rfl, rfl, rfl⟩)

/-- **With a slot**, it is up to the heap whether a process is created. -/
theorem Steady.spawn_of_not_full (growable : I.Growable directory config.heapPages)
    (s : Steady config directory I clock k) (room : ¬ k.processes.Full) (name : String)
    (priority : Priority) (entry : ε) :
    (k.spawn name priority entry).Meets k.processes.PidFault fun (result, k') =>
      k.Spawns (k.processes.birth name priority) entry result k' := by
  refine Kernel.masked_meets (k.Spawns (k.processes.birth name priority) entry)
    (fun _ _ enabled h => h.setInterrupts room enabled) ?_
  have s' := s.setInterrupts false
  refine ((s'.scheduled.reserve_meets name priority).and
    (k.processes.reserve_awaits name priority)).bind ?_
  rintro ⟨reserved, processes⟩ ⟨hreserved, hawaits⟩
  cases reserved with
  | error cause => exact absurd hawaits.1 room
  | ok r =>
  refine (((s'.toBacked.withProcesses processes).allocateStack_meets growable).and
    (s.toBacked.allocateStack_answer growable processes)).bind ?_
  rintro ⟨stack?, k₁⟩ ⟨⟨-, grants, hprocesses, -⟩, hisSome, hdropped⟩
  cases stack? with
  | none =>
      have refused : ¬ k.CanAllocate stackSize := fun hcan => by cases hisSome.mpr hcan
      simp only [hprocesses]
      refine Run.meets_log_bind (Run.meets_pure (.inVain room hawaits.fits refused ?_))
      exact ⟨hawaits.abandon_eq, grants, congrArg (Array.push · entry) hdropped⟩
  | some stack =>
      have granted : k.CanAllocate stackSize := hisSome.mp rfl
      have husable := (grants.houses stack rfl).usable
      simp only [hprocesses]
      refine ((hreserved.1.activate_meets husable entry processEntryPoint).and
        (hawaits.activate_enrolled stack entry processEntryPoint)).bind ?_
      rintro t ⟨-, b, starts, rfl⟩
      have hpid : r.pid = (k.processes.birth name priority).pid := hawaits.pid_eq
      rw [hpid]
      exact Run.meets_pure (.created hawaits.first hawaits.fits granted starts rfl grants hdropped)

/-- **How a creation ends**, in a steady kernel. -/
theorem Steady.spawn_cases (growable : I.Growable directory config.heapPages)
    (s : Steady config directory I clock k) (name : String) (priority : Priority) (entry : ε) :
    (k.spawn name priority entry).Meets k.processes.PidFault fun (result, k') =>
      k.Spawns (k.processes.birth name priority) entry result k' := by
  by_cases full : k.processes.Full
  case pos =>
    refine (spawn_of_full full name priority entry).imp ?_
    rintro ⟨result, k'⟩ ⟨rfl, rfl⟩
    exact .full full
  case neg => exact s.spawn_of_not_full growable full name priority entry

/-- **Creation succeeds** where a slot, a pid and a stack are left. -/
theorem Steady.spawn_succeeds (growable : I.Growable directory config.heapPages)
    (s : Steady config directory I clock k) (room : ¬ k.processes.Full)
    (fits : k.processes.nextPid.toNat + 1 < 2 ^ 32) (granted : k.CanAllocate stackSize)
    (name : String) (priority : Priority) (entry : ε) :
    (k.spawn name priority entry).Meets (fun _ => False) fun (result, k') =>
      result = .ok ⟨k.processes.nextPid⟩
        ∧ k.Spawns (k.processes.birth name priority) entry result k' := by
  refine (s.spawn_cases growable name priority entry).mono ?_ ?_
  · intro e fault
    rw [fault.2] at fits
    exact absurd fits (by decide)
  · rintro ⟨result, k'⟩ spawns
    refine ⟨?_, spawns⟩
    cases spawns with
    | full full => exact absurd full room
    | inVain _ _ refused => exact absurd granted refused
    | created => rfl

open MemoryInvariant in
/-- **Creation is all or nothing**, in every run of a booted kernel.  It ends with the table full if and
only if all slots are in use, and then nothing changes but that the entry is given up.  Otherwise it
ends for want of memory if and only if a client could not have as many bytes as a stack has, and then
nobody enters the table, the queue or a list of children, whoever runs runs on, allocations are what
they were, and the next pid is used up.  Otherwise a process is created under the next pid, in the first
free slot, ready, and at the end of the queue; it is a child of the running process, and only the note
that this may take of it changes for anybody else.  Creation faults only if all pids were handed out. -/
theorem boot_creation_law (machine : Machine) (config : BootConfig) :
    (boot machine config : Run (Kernel ε)).Meets (fun _ => True) fun k =>
      ∀ calls : List (KernelCall ε), (k.run calls).Meets (fun e => e = .overflow .add) fun k' =>
        ∀ name priority entry, (k'.spawn name priority entry).Meets k'.processes.PidFault
          fun (result, k'') => k'.CreationLaw name priority entry result k'' := by
  refine (boot_steady machine config).imp fun k hruns calls => ?_
  refine (hruns calls).imp fun k' s name priority entry => ?_
  have growable := lending_growable (.ofMemory config.memoryTop config.reservedTop) k.directory
    config.heapPages
  exact (s.spawn_cases growable name priority entry).imp fun _ spawns =>
    spawns.law s.scheduled.coherent

end Kernel

end TinyKernel
