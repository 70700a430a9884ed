import TinyKernel.Proofs.Heap.PageAccounts
import TinyKernel.Proofs.Kernel.HeapPages

/-!
# The directories and tables of a booted kernel

Directories and page tables stay where they are as long as nobody gives their frames back.  Clients may
do whatever else they like with frames and pages, also with those of the kernel heap.

## What is load-bearing

A page of the heap may be mapped to anything, if a client has mapped it.  But what the heap releases
are pages that it has backed itself, a moment ago, and these go to frames of their own.

* `KernelSession.sparesTables`, `KernelSession.sparingRun` — clients that give back no directory and no
  table
* `KernelSession.Sheltered` — the invariant, which holds in every such run
-/

namespace TinyKernel

namespace Kernel

variable {ε α : Type} {config : BootConfig} {directory : PageDirectory} {I : MemoryInvariant}
  {range : FrameRange} {dirs : Finset Frame} {clock : Nat} {k : Kernel ε}

/-! ## Growth -/

/-- **What the heap may ask of the pages** leaves directories and tables where they are, whether or not
the pages are refused. -/
theorem Backed.housed_of_asks (b : Backed config directory I k)
    (h : k.paging.Housed range dirs k.frames) (hd : directory.frame ∈ dirs) {pages' : KernelPages}
    (asks : k.heap.Asks k.heapPages pages') : pages'.paging.Housed range dirs pages'.frames := by
  rcases asks with rfl | ⟨step, result, hstep, hreturns⟩
  · exact h
  obtain ⟨l, sound⟩ := b.sound
  obtain ⟨held, howned⟩ := h.owned hd
  have hsize := Nat.div_mul_cancel sound.range.pages
  have haligned : k.heap.start.val.toNat % pageSize = 0 := b.start_eq ▸ b.start_aligned
  have hfits := sound.range.fits
  have hle := sound.range.size_le
  obtain ⟨pages, hpages⟩ := sound.range.maxPages
  obtain ⟨m, hm⟩ : ∃ m, (step + (pageSize - 1)) / pageSize = m := ⟨_, rfl⟩
  rw [← hsize, backRange_whole, hm] at hreturns
  have hkeeps : PageSource.Keeps KernelPages
      (pageSpan k.heap.start (k.heap.size / pageSize) (k.heap.size / pageSize + m))
      (fun _ => True) (KernelPages.Holds directory (Owned range directory dirs held)) :=
    Owned.growable (fun page hpage => aligned_of_mem_pageSpan haligned hpage) _
  have hresult := (backRange_keeps hkeeps (by simp only [pageSize] at *; omega) subset_rfl
    ⟨b.directory_eq, howned⟩).of_returns hreturns
  cases result with
  | ok => exact hresult.2.housed
  | error refusal => exact hresult.2.housed

theorem Backed.withHeap_housed (b : Backed config directory I k)
    (h : k.paging.Housed range dirs k.frames) (hd : directory.frame ∈ dirs)
    {op : Heap → KernelPages → Run (α × Heap × KernelPages)}
    (hop : (op k.heap k.heapPages).Meets (fun _ => True) fun (_, _, pages') =>
      k.heap.Asks k.heapPages pages') :
    (k.withHeap op).Meets (fun _ => True) fun (_, k') => k'.paging.Housed range dirs k'.frames :=
  hop.bind fun _ asks => Run.meets_pure (b.housed_of_asks h hd asks)

theorem Backed.allocateStack_housed (b : Backed config directory I k)
    (h : k.paging.Housed range dirs k.frames) (hd : directory.frame ∈ dirs) :
    k.allocateStack.Meets (fun _ => True) fun (_, k') => k'.paging.Housed range dirs k'.frames := by
  refine b.withHeap_housed h hd ((k.heap.alloc_asks k.heapPages stackSize).bind ?_)
  rintro ⟨base?, heap, pages⟩ asks
  cases base? <;> exact Run.meets_pure asks

/-- **Whatever the heap grows for**, directories and tables stay where they are. -/
theorem Steady.perform_housed (s : Steady config directory I clock k)
    (h : k.paging.Housed range dirs k.frames) (hd : directory.frame ∈ dirs) {call : KernelCall ε}
    (hcall : call.growsHeap = true) :
    (k.perform call).Meets (fun _ => True) fun k' => k'.paging.Housed range dirs k'.frames := by
  have b := (s.setInterrupts false).toBacked
  have hmasked : ∀ {α : Type} {op : Kernel ε → Run (α × Kernel ε)},
      ((op (k.setInterrupts false)).Meets (fun _ => True) fun (_, k') =>
        k'.paging.Housed range dirs k'.frames) →
      (masked op k).Meets (fun _ => True) fun (_, k') => k'.paging.Housed range dirs k'.frames :=
    fun hop => Kernel.masked_meets (fun _ k' => k'.paging.Housed range dirs k'.frames)
      (fun _ _ _ h => h) hop
  cases call with
  | alloc size =>
      exact Run.Meets.map (hmasked (b.withHeap_housed h hd (k.heap.alloc_asks _ size)))
  | calloc count size =>
      exact Run.Meets.map (hmasked (b.withHeap_housed h hd (k.heap.calloc_asks _ count size)))
  | realloc p? size =>
      exact Run.Meets.map (hmasked (b.withHeap_housed h hd (k.heap.realloc_asks _ p? size)))
  | spawn name priority entry =>
      refine Run.Meets.map (hmasked (Run.meets_lift_bind_of_ok ?_))
      rintro ⟨reserved, processes⟩ -
      cases reserved with
      | error cause => exact Run.meets_pure h
      | ok r =>
          refine ((b.withProcesses processes).allocateStack_housed h hd).bind ?_
          rintro ⟨stack?, k₁⟩ h₁
          cases stack? with
          | none => exact Run.meets_log_bind (Run.meets_pure h₁)
          | some stack => exact (Run.meets_returns _).bind fun _ _ => Run.meets_pure h₁
  | _ => cases hcall

end Kernel

/-! ## Clients -/

namespace KernelSession

variable {ε : Type} {config : BootConfig} {directory : PageDirectory} {clock : Nat}
  {s : KernelSession ε} {admits : Fault → Prop}

/-- **A call spares the tables**: no frame is given back that holds a directory or a table, and pages
are mapped in directories that the kernel gave out.  Clients may break any other rule, and even take
pages from the heap. -/
def sparesTables (s : KernelSession ε) : KernelCall ε → Bool
  | .freeFrame address => address.frame ∉ s.directoryFrames ∧ address.frame ∉ s.tableFrames
  | .map d _ _ _ => d ∈ s.directories
  | .unmap d _ => d ∈ s.directories
  | _ => true

/-- One call, which is made if it spares the tables.  Any other is passed over, so that runs need not
be restricted beforehand. -/
def sparingStep (s : KernelSession ε) (call : KernelCall ε) : Run (KernelSession ε) :=
  if s.sparesTables call then s.make call else pure s

/-- **Calls, one after the other**, all of which spare the tables. -/
def sparingRun (s : KernelSession ε) : List (KernelCall ε) → Run (KernelSession ε)
  | [] => pure s
  | call :: calls => do
    let s ← s.sparingStep call
    s.sparingRun calls

/-- **Directories and tables are where they should be**, if clients were given some directories.
Nothing is said of the pages of the heap. -/
def shelter (config : BootConfig) (directory : PageDirectory) (created : List PageDirectory) :
    MemoryInvariant :=
  fun _ p frames => p.Housed (.ofMemory config.memoryTop config.reservedTop)
    ((directory :: created).map PageDirectory.frame).toFinset frames

/-- **The invariant of a session** in which tables are spared: the kernel is steady, with that much of
its memory in order.  Clients may free any other frame, used or not, and it still holds. -/
structure Sheltered (config : BootConfig) (directory : PageDirectory) (clock : Nat)
    (s : KernelSession ε) : Prop where
  steady : s.kernel.Steady config directory (shelter config directory s.created) clock

namespace Sheltered

theorem frame_mem (c : Sheltered config directory clock s) {d : PageDirectory}
    (hd : d ∈ s.directories) :
    d.frame ∈ ((directory :: s.created).map PageDirectory.frame).toFinset := by
  rw [directories, c.steady.directory_eq] at hd
  exact List.mem_toFinset.mpr (List.mem_map_of_mem hd)

/-- A call that gives clients no directory keeps the directories that are to be spared. -/
theorem perform_meets (call : KernelCall ε) {next : Nat}
    (hperform : (s.kernel.perform call).Meets admits
      (Kernel.Steady config directory (shelter config directory s.created) next)) :
    (do
      let kernel ← s.kernel.perform call
      pure { s with kernel } : Run (KernelSession ε)).Meets admits (Sheltered config directory next) :=
  hperform.bind fun _ steady => Run.meets_pure ⟨steady⟩

theorem createDirectory_meets (c : Sheltered config directory clock s) :
    (s.make .createDirectory).Meets admits (Sheltered config directory clock) := by
  refine (c.steady.createDirectory_meets (R := fun directory? =>
    shelter config directory (directory?.toList ++ s.created)) ?_).bind ?_
  · refine c.steady.memory.createDirectory_meets.imp ?_
    rintro ⟨directory?, p, frames⟩ hcreated
    cases directory? with
    | none => exact hcreated
    | some d =>
        have hperm : ((directory :: ((some d).toList ++ s.created)).map PageDirectory.frame).Perm
            (d.frame :: (directory :: s.created).map PageDirectory.frame) := List.Perm.swap ..
        dsimp only
        rw [shelter, List.toFinset_eq_of_perm _ _ hperm, List.toFinset_cons]
        exact hcreated
  · rintro ⟨directory?, kernel⟩ steady
    exact Run.meets_pure ⟨steady⟩

/-- **Every call that spares the tables** keeps to the invariant.  It faults only if a counter runs
out. -/
theorem make_meets (c : Sheltered config directory clock s) {call : KernelCall ε}
    (hcall : s.sparesTables call = true) :
    (s.make call).Meets (Kernel.CounterFault clock s.kernel)
      (Sheltered config directory (clock + call.ticks)) := by
  have h := c.steady.memory
  cases hgrow : call.growsHeap with
  | true =>
      obtain ⟨lent, hlends, -⟩ := h.lends
      have lending : s.kernel.Steady config directory
          (MemoryInvariant.lending (.ofMemory config.memoryTop config.reservedTop)) clock :=
        c.steady.withMemory ⟨lent, hlends⟩
      have hd := c.frame_mem (List.mem_cons_self (a := s.kernel.directory))
      rw [c.steady.directory_eq] at hd
      have hperform : (s.kernel.perform call).Meets (Kernel.CounterFault clock s.kernel)
          (Kernel.Steady config directory (shelter config directory s.created)
            (clock + call.ticks)) := by
        refine ((lending.perform_meets call).and (c.steady.perform_housed h hd hgrow)).imp ?_
        rintro k' ⟨lending', h'⟩
        exact lending'.withMemory h'
      cases call with
      | alloc | calloc | realloc | spawn => exact perform_meets _ hperform
      | _ => cases hgrow
  | false =>
  cases call with
  | allocFrame =>
      refine (c.steady.allocFrame_meets (Q := fun _ => shelter config directory s.created) h.alloc_ok).bind ?_
      exact fun _ steady => Run.meets_pure ⟨steady⟩
  | freeFrame address =>
      simp only [sparesTables, Bool.decide_and, Bool.and_eq_true, decide_eq_true_iff] at hcall
      rw [directoryFrames, directories, tableFrames, directoryFrames, directories,
        c.steady.directory_eq] at hcall
      refine (c.steady.freeFrame_meets (J := shelter config directory s.created)
        (h.free_meets hcall.1 hcall.2)).bind ?_
      exact fun _ steady => Run.meets_pure ⟨steady⟩
  | createDirectory => exact c.createDirectory_meets
  | switchDirectory d =>
      exact perform_meets (.switchDirectory d) (Run.Meets.map
        (c.steady.switchDirectory_meets (h.withKernel h.spaces.kernel_mem (some d))))
  | map d v target flags =>
      have hd := c.frame_mem (of_decide_eq_true hcall)
      exact perform_meets (.map d v target flags) (Run.Meets.map
        (c.steady.map_meets ((h.map_meets hd v target flags).imp fun _ hr => hr.1)))
  | unmap d v =>
      have hd := c.frame_mem (of_decide_eq_true hcall)
      exact perform_meets (.unmap d v) (Run.Meets.map (c.steady.unmap_meets fun cpu => h.unmap hd cpu v))
  | alloc | calloc | realloc | spawn => cases hgrow
  | _ =>
      exact perform_meets _ ((c.steady.perform_meets_of_not_growsHeap rfl rfl).mono (fun _ he => Or.inl he)
        fun _ steady => steady)

/-- **The invariant holds in every run** in which the tables are spared. -/
theorem run_meets (c : Sheltered config directory clock s) (calls : List (KernelCall ε)) :
    (s.sparingRun calls).Meets (fun e => e = .overflow .add) fun s' =>
      ∃ clock', Sheltered config directory clock' s' := by
  induction calls generalizing s clock with
  | nil => exact Run.meets_pure ⟨clock, c⟩
  | cons call calls ih =>
      have hstep : (s.sparingStep call).Meets (fun e => e = .overflow .add) fun s' =>
          ∃ clock', Sheltered config directory clock' s' := by
        unfold sparingStep
        split
        case isTrue hcall =>
          exact (c.make_meets hcall).mono Kernel.CounterFault.eq_overflow fun s' c' => ⟨_, c'⟩
        case isFalse => exact Run.meets_pure ⟨clock, c⟩
      exact hstep.bind fun s' ⟨clock', c'⟩ => ih c'

end Sheltered

/-- A kernel just booted keeps its directory and its tables, and has given out no other. -/
theorem boot_sheltered (machine : Machine) (config : BootConfig) :
    (Kernel.boot machine config : Run (Kernel ε)).Meets (fun _ => True) fun k =>
      Sheltered config k.directory 0 (.ofKernel k) := by
  refine Kernel.boot_meets_of_valid fun hvalid => ?_
  refine (Kernel.boot_meets (I := fun directory => books config directory [] []) machine config
    Owned.start_meets fun directory => Owned.growable fun page hpage =>
      aligned_of_mem_pageSpan (BootConfig.heapStart_aligned hvalid) hpage).imp fun k steady => ?_
  exact ⟨steady.withMemory steady.memory.housed⟩

end KernelSession

end TinyKernel
