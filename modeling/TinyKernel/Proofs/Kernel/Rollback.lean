import TinyKernel.Proofs.Heap.Stalls
import TinyKernel.Proofs.Kernel.Boot
import TinyKernel.Proofs.Kernel.Housing

/-!
# When the kernel heap cannot grow

Allocation, zeroed allocation, resizing and the creation of processes may all need the kernel heap to
grow.  If one of the pages cannot be backed, what was done for the request is undone on all levels:
the heap is what it was, every address goes where it went, and the frames come back.  Only page tables
stay, since these are never freed; all of their entries are empty, and the next time they are there.

* `HeapRequest`, `Kernel.issue` — what may need the heap to grow
* `Kernel.Stalls` — a request that fails because a page cannot be backed
* `Kernel.RolledBack` — what is left of it
* `Kernel.boot_rolls_back` — the first failure leaves tables only, and the second one nothing
* `Kernel.boot_stalls` — booting can take every frame there is, and then growth stalls at once
-/

namespace TinyKernel

/-! ## Requests -/

/-- **What may need the kernel heap to grow.**  Creating a process is among it, since its stack comes
from the heap.  Only `free` is missing from what clients ask of the heap, and it never needs a page. -/
inductive HeapRequest (ε : Type) where
  | alloc (size : Nat)
  | calloc (count size : Nat)
  | realloc (p? : Option Pointer) (size : Nat)
  | spawn (name : String) (priority : Priority) (entry : ε)

namespace HeapRequest

variable {ε : Type}

/-- Bytes that the heap is asked for, which may be none. -/
def size : HeapRequest ε → Nat
  | alloc size => size
  | calloc count size => count * size
  | realloc _ size => size
  | spawn .. => stackSize

/-- The faults of a request: the pids may have run out, if it is to create a process. -/
def faults (k : Kernel ε) : HeapRequest ε → Fault → Prop
  | spawn .. => k.processes.PidFault
  | _ => fun _ => False

end HeapRequest

namespace Kernel

variable {ε α : Type} {config : BootConfig} {directory : PageDirectory} {I : MemoryInvariant}
  {range : FrameRange} {dirs : Finset Frame} {clock : Nat} {k k' : Kernel ε} {r : HeapRequest ε}
  {P : KernelPages → Prop} {admits : Fault → Prop}

/-- **Makes a request.**  The answer is whether it was met, whatever the request was. -/
def issue (k : Kernel ε) : HeapRequest ε → Run (Bool × Kernel ε)
  | .alloc size => (fun (p?, k) => (p?.isSome, k)) <$> k.alloc size
  | .calloc count size => (fun (p?, k) => (p?.isSome, k)) <$> k.calloc count size
  | .realloc p? size => (fun (q?, k) => (q?.isSome, k)) <$> k.realloc p? size
  | .spawn name priority entry =>
    (fun (created, k) => (created.isOk, k)) <$> k.spawn name priority entry

/-- **A request for some bytes stalls**: the heap has to grow for it, and a page cannot be backed.
Interrupts are masked then, as always when the heap is at work.  It is a property of the kernel before
the request is made. -/
def Stalls (k : Kernel ε) (size : Nat) : Prop := k.heap.Stalls (k.setInterrupts false).heapPages size

/-- **Nothing is in the way of the heap**: no page of its window is mapped behind its end.  A page that
is mapped there would be mapped over by growth, and could not be restored by releasing it. -/
def Unobstructed (k : Kernel ε) : Prop :=
  ∀ v, k.inHeapWindow v = true → k.config.heapStart.toNat + k.heap.size ≤ v.val.toNat →
    k.isMapped k.directory v = false

/-- **A request is rolled back.**  The heap is what it was, and every address goes where it went in the
kernel's directory.  Some page tables may be new, none is gone, and the new ones map nothing; of
frames, exactly as many more are in use. -/
structure RolledBack (dirs : Finset Frame) (k k' : Kernel ε) : Prop where
  heap_eq : k'.heap = k.heap
  directory_eq : k'.directory = k.directory
  translate_eq : ∀ v, k'.translate k.directory v = k.translate k.directory v
  kept : k.paging.tableFrames dirs ⊆ k'.paging.tableFrames dirs
  vacant : ∀ t ∈ k'.paging.tableFrames dirs \ k.paging.tableFrames dirs, k'.paging.Vacant t
  used_eq : ∃ before after, k.frameStats = .ok before ∧ k'.frameStats = .ok after
    ∧ after.used = before.used + (k'.paging.tableFrames dirs \ k.paging.tableFrames dirs).card

/-! ## Requests in vain -/

/-- **What is left of a request in vain**: the heap is what it was, and `P` holds of the pages.
Processes and entries may have changed, as with a creation that failed, and are not mentioned. -/
structure Leaves (k : Kernel ε) (P : KernelPages → Prop) (k' : Kernel ε) : Prop where
  heap_eq : k'.heap = k.heap
  directory_eq : k'.directory = k.directory
  pages : ∃ b, P b ∧ k'.paging = b.paging ∧ k'.frames = b.frames

/-- Paging and frames are those of a kernel.  The processor is not compared, since releasing a page
flushes translations. -/
def SameMemory (k : Kernel ε) (s : KernelPages) : Prop := s.paging = k.paging ∧ s.frames = k.frames

theorem leaves_sameMemory (heap_eq : k'.heap = k.heap) (directory_eq : k'.directory = k.directory)
    (paging_eq : k'.paging = k.paging) (frames_eq : k'.frames = k.frames) :
    k.Leaves k.SameMemory k' :=
  ⟨heap_eq, directory_eq, k'.heapPages, ⟨paging_eq, frames_eq⟩, rfl, rfl⟩

/-- A heap operation in vain leaves a kernel with the same heap. -/
theorem withHeap_in_vain {op : Heap → KernelPages → Run (Option α × Heap × KernelPages)}
    (hop : (op k.heap k.heapPages).Meets admits (k.heap.InVain P)) :
    (k.withHeap op).Meets admits fun (answer?, k') =>
      answer? = none ∧ k.Leaves P k' := by
  refine hop.bind ?_
  rintro ⟨answer?, heap, pages⟩ ⟨rfl, rfl, hP⟩
  exact Run.meets_pure ⟨rfl, rfl, rfl, pages, hP, rfl, rfl⟩

/-- No stack can be had, and what is left is what the allocation left. -/
theorem allocateStack_in_vain
    (halloc : (k.heap.alloc k.heapPages stackSize).Meets admits (k.heap.InVain P)) :
    k.allocateStack.Meets admits fun (stack?, k') =>
      stack? = none ∧ k.Leaves P k' := by
  refine withHeap_in_vain (halloc.bind ?_)
  rintro ⟨answer?, heap, pages⟩ ⟨rfl, rfl, hP⟩
  exact Run.meets_pure ⟨rfl, rfl, hP⟩

/-- Of the answer of a masked operation it is known what is known of the operation. -/
theorem answer_meets {op : Kernel ε → Run (α × Kernel ε)} (met : α → Bool)
    {Q : Bool → Kernel ε → Prop}
    (Q_setInterrupts : ∀ a k' enabled, Q a k' → Q a (setInterrupts k' enabled))
    (hop : (op (k.setInterrupts false)).Meets admits fun (a, k') => Q (met a) k') :
    ((fun (a, k') => (met a, k')) <$> masked op k).Meets admits fun (a, k') => Q a k' :=
  Run.Meets.map (masked_meets (fun a k' => Q (met a) k')
    (fun a k' enabled => Q_setInterrupts (met a) k' enabled) hop)

theorem Leaves.setInterrupts (leaves : k.Leaves P k') (enabled : Bool) :
    k.Leaves P (k'.setInterrupts enabled) :=
  ⟨leaves.heap_eq, leaves.directory_eq, leaves.pages⟩

/-- A heap operation of clients in vain: the request is not met. -/
theorem issue_withHeap_in_vain
    {op : Heap → KernelPages → Run (Option α × Heap × KernelPages)}
    (hop : (op k.heap (k.setInterrupts false).heapPages).Meets admits (k.heap.InVain P)) :
    ((fun (a?, k') => (a?.isSome, k')) <$> masked (withHeap op) k).Meets admits
      fun (met, k') => met = false ∧ k.Leaves P k' := by
  refine answer_meets Option.isSome (Q := fun met k' => met = false ∧ k.Leaves P k')
    (fun _ _ enabled h => ⟨h.1, h.2.setInterrupts enabled⟩) ?_
  refine (withHeap_in_vain (k := k.setInterrupts false) hop).imp ?_
  rintro ⟨answer?, k'⟩ ⟨rfl, leaves⟩
  exact ⟨rfl, leaves.heap_eq, leaves.directory_eq, leaves.pages⟩

/-- **A request that is settled early**: it gets an answer before memory is looked at.  A resize may be
met by the old block, and a creation may fail for want of a slot. -/
def Settles (k : Kernel ε) (met : Bool) : HeapRequest ε → Prop
  | .realloc p? size => ∃ q? : Option Pointer, met = q?.isSome
      ∧ ∀ pages : KernelPages, k.heap.realloc pages p? size = pure (q?, k.heap, pages)
  | .spawn name priority _ => met = false
      ∧ ∃ cause, k.processes.reserve name priority = .ok (.error cause, k.processes)
  | _ => False

/-- A request that is met early is a matter of the heap alone, and so is met early again as long as the
heap is the same. -/
theorem Settles.of_heap_eq (settles : k'.Settles true r) (heap_eq : k'.heap = k.heap) :
    k.Settles true r := by
  cases r with
  | realloc p? size =>
      rw [Settles, heap_eq] at settles
      exact settles
  | spawn => cases settles.1
  | _ => exact settles

/-- **A request that is settled early** is settled in the same way again, and leaves memory as it
is. -/
theorem Settles.issue_meets {met : Bool} (settles : k.Settles met r) :
    (k.issue r).Meets admits fun (met', k') =>
      met' = met ∧ k.Leaves k.SameMemory k' ∧ k'.Settles met r := by
  cases r with
  | alloc => cases settles
  | calloc => cases settles
  | realloc p? size =>
      obtain ⟨q?, rfl, hrealloc⟩ := settles
      refine answer_meets Option.isSome (Q := fun met' k' => met' = q?.isSome
        ∧ k.Leaves k.SameMemory k' ∧ k'.Settles q?.isSome (.realloc p? size)) ?_ ?_
      · exact fun _ _ enabled h => ⟨h.1, h.2.1.setInterrupts enabled, h.2.2⟩
      · have hop : (k.heap.realloc (k.setInterrupts false).heapPages p? size).Meets admits
            fun out => out = (q?, k.heap, (k.setInterrupts false).heapPages) := by
          rw [hrealloc]
          exact Run.meets_pure rfl
        refine hop.bind ?_
        rintro _ rfl
        exact Run.meets_pure ⟨rfl, leaves_sameMemory rfl rfl rfl rfl, q?, rfl, hrealloc⟩
  | spawn name priority entry =>
      obtain ⟨rfl, cause, hreserve⟩ := settles
      refine answer_meets Except.isOk (Q := fun met' k' => met' = false
        ∧ k.Leaves k.SameMemory k' ∧ k'.Settles false (.spawn name priority entry)) ?_ ?_
      · exact fun _ _ enabled h => ⟨h.1, h.2.1.setInterrupts enabled, h.2.2⟩
      · refine Run.meets_lift_bind (x := k.processes.reserve name priority) hreserve ?_
        exact Run.meets_pure ⟨rfl, leaves_sameMemory rfl rfl rfl rfl, rfl, cause, hreserve⟩

/-- **Every other request follows an allocation**, and is in vain if that is. -/
theorem issue_in_vain {l : List Block} (sound : k.heap.Sound l) (range : k.heap.Admits r.size)
    (hnot : ∀ met, ¬ k.Settles met r)
    (halloc : (k.heap.alloc (k.setInterrupts false).heapPages r.size).Meets (fun _ => False)
      (k.heap.InVain P)) :
    (k.issue r).Meets (r.faults k) fun (met, k') => met = false ∧ k.Leaves P k' := by
  cases r with
  | alloc size => exact issue_withHeap_in_vain halloc
  | calloc count size =>
      have hmax := sound.range.maxSize_lt
      have hle := range.2
      simp only [noBlock, UInt32.reduceToNat, HeapRequest.size] at hmax hle
      exact issue_withHeap_in_vain (k.heap.calloc_follows (by omega) _ P _ halloc)
  | realloc p? size =>
      rcases sound.realloc_follows (σ := KernelPages) p? range.1 with ⟨q?, hrealloc⟩ | follows
      · exact absurd ⟨q?, rfl, hrealloc⟩ (hnot q?.isSome)
      · exact issue_withHeap_in_vain (follows _ P _ halloc)
  | spawn name priority entry =>
      refine answer_meets Except.isOk (Q := fun met k' => met = false ∧ k.Leaves P k')
        (fun _ _ enabled h => ⟨h.1, h.2.setInterrupts enabled⟩) ?_
      have hreserve : (liftM (k.processes.reserve name priority) : Run _).Meets
          k.processes.PidFault fun out => ∃ r, out.1 = .ok r := by
        rcases k.processes.reserve_cases name priority with ⟨-, hreserve⟩
          | ⟨slot, -, ⟨hnext, hreserve⟩ | ⟨-, hreserve⟩⟩
        · exact absurd ⟨rfl, _, hreserve⟩ (hnot false)
        · rw [hreserve]
          exact Run.meets_throw ⟨rfl, hnext⟩
        · rw [hreserve]
          exact Run.meets_pure ⟨_, rfl⟩
      refine hreserve.bind ?_
      rintro ⟨reserved, processes⟩ ⟨reservation, rfl⟩
      have hstack := allocateStack_in_vain (k := { k.setInterrupts false with processes }) halloc
      refine (hstack.mono (fun _ => False.elim) fun _ h => h).bind ?_
      rintro ⟨stack?, k₁⟩ ⟨rfl, leaves⟩
      exact Run.meets_log_bind (Run.meets_pure
        ⟨rfl, leaves.heap_eq, leaves.directory_eq, leaves.pages⟩)

/-! ## The pages that are asked for -/

/-- **The pages that a request makes the heap ask for**, and whose the frames are at that time.  It
ties what the heap does to attempts of growth, which are treated on their own. -/
structure Attempts (k : Kernel ε) (range : FrameRange) (dirs : Finset Frame) (size : Nat)
    (a : HeapGrowth) : Prop where
  range_eq : a.range = range
  dirs_eq : a.dirs = dirs
  directory_eq : a.directory = k.directory
  start_eq : a.start = k.heap.start
  origin_eq : a.first * pageSize = k.heap.size
  bytes_eq : a.count * pageSize = k.heap.growthStep (Heap.rounded size)
  owns : a.Owns ∅ k.heapPages

/-- **Where no frame is left**, every request stalls that the heap has to grow for. -/
theorem Backed.stalls_of_no_frame (backed : Backed config directory I k) {size : Nat}
    (hasToGrow : k.heap.HasToGrow size) (hnone : k.frames.alloc = .ok (none, k.frames)) :
    k.Stalls size := by
  obtain ⟨l, sound⟩ := backed.sound
  obtain ⟨hdvd, -, hpage⟩ := sound.growthStep_cases (Heap.rounded size)
  have hpos : k.heap.growthStep (Heap.rounded size) / pageSize ≠ 0 :=
    Nat.ne_of_gt (Nat.div_pos (hpage hasToGrow.room) (by decide))
  have hrefused : (backRange k.heap.start (k.heap.size / pageSize * pageSize)
      (k.heap.growthStep (Heap.rounded size) / pageSize * pageSize)
      (k.setInterrupts false).heapPages).Meets (fun _ => False) fun out =>
        ∃ refusal, out.1 = .error refusal := by
    -- the first page is refused, so that there is nothing to release
    refine (backRange_cases (J := fun i (s : KernelPages) => i = 0 ∧ s.frames = k.frames)
      (K := fun i _ _ => i = 0) (sound.growth_fits _) ?_ ?_ ⟨rfl, rfl⟩).imp ?_
    · rintro i s - ⟨hi, hframes⟩
      have halloc : s.frames.alloc = .ok (none, s.frames) := by rw [hframes, hnone]
      refine Run.meets_lift_bind halloc ?_
      exact Run.meets_pure hi
    · rintro i j s - hj rfl
      exact absurd hj (Nat.not_lt_zero j)
    · rintro ⟨result, s⟩ hresult
      cases result with
      | ok => exact absurd hresult.1 hpos
      | error refusal => exact ⟨refusal, rfl⟩
  rw [Nat.div_mul_cancel sound.range.pages, Nat.div_mul_cancel hdvd] at hrefused
  obtain ⟨⟨_, s⟩, hreturns, refusal, rfl⟩ := hrefused.exists_returns
  exact ⟨hasToGrow, refusal, s, hreturns⟩

/-- **An allocation that stalls is not met.** -/
theorem Backed.alloc_unmet (growable : I.Growable directory config.heapPages)
    (backed : Backed config directory I k) {size : Nat} (stalls : k.Stalls size) :
    (k.issue (.alloc size)).Meets admits fun (met, _) => met = false := by
  obtain ⟨l, sound⟩ := backed.sound
  obtain ⟨refusal, pages, hreturns⟩ := stalls.refused
  have hgrow := (KernelPages.backRange_determined _ _ _ _).meets hreturns
  have halloc : (k.heap.alloc (k.setInterrupts false).heapPages size).Meets admits
      (k.heap.InVain fun _ => True) := by
    refine sound.alloc_in_vain_of_refused (backed.keeps growable)
      ⟨backed.directory_eq, backed.memory⟩ stalls.toHasToGrow (hgrow.imp ?_)
    intro out hout
    obtain rfl := hout
    exact ⟨⟨refusal, rfl⟩, trivial⟩
  exact (issue_withHeap_in_vain halloc).imp fun _ h => h.1

theorem Backed.exists_attempt (b : Backed config directory I k)
    (h : k.paging.Housed range dirs k.frames) (hd : directory.frame ∈ dirs) (size : Nat) :
    ∃ a, k.Attempts range dirs size a := by
  obtain ⟨l, sound⟩ := b.sound
  obtain ⟨held, howned⟩ := h.owned hd
  have haligned : k.heap.start.val.toNat % pageSize = 0 := b.start_eq ▸ b.start_aligned
  obtain ⟨hdvd, -, -⟩ := sound.growthStep_cases (Heap.rounded size)
  exact ⟨{ range, directory, dirs, held, start := k.heap.start, first := k.heap.size / pageSize
           count := k.heap.growthStep (Heap.rounded size) / pageSize, aligned := haligned
           fits := sound.growth_fits _ }, rfl, rfl, b.directory_eq.symm, rfl,
    Nat.div_mul_cancel sound.range.pages, Nat.div_mul_cancel hdvd, b.directory_eq, howned⟩

namespace Attempts

variable {a : HeapGrowth} {size m : Nat} {b : KernelPages}

/-- None of the pages is mapped, if nothing is in the way of the heap. -/
theorem unmapped (attempts : k.Attempts range dirs size a) (backed : Backed config directory I k)
    (hclear : k.Unobstructed) {i : Nat} (hi : i < a.count) :
    k.paging.frameOf? a.directory.frame (a.page i) = none := by
  obtain ⟨l, sound⟩ := backed.sound
  obtain ⟨-, hstep, -⟩ := sound.growthStep_cases (Heap.rounded size)
  have hmax := sound.range.size_le
  have hwindow := backed.maxSize_eq
  have hstart : a.start.val = k.config.heapStart := by
    rw [attempts.start_eq, backed.start_eq, backed.config_eq]
  have horigin := attempts.origin_eq
  have hbytes := attempts.bytes_eq
  have hfits := a.fits
  rw [← backed.config_eq] at hwindow
  rw [← hbytes] at hstep
  have haddress : (a.page i).val.toNat = a.start.val.toNat + (a.first + i) * pageSize :=
    pageAt_toNat (by simp only [pageSize] at *; omega)
  rw [hstart] at haddress
  have hfree := hclear (a.page i)
    (inHeapWindow_iff.mpr (by simp only [pageSize] at *; omega))
    (by simp only [pageSize] at *; omega)
  rw [isMapped, Paging.isMapped, Paging.translate_eq, Option.isSome_map,
    Option.isSome_eq_false_iff, Option.isNone_iff_eq_none] at hfree
  rw [attempts.directory_eq, hfree]

/-- **If the request stalls, the attempt is given up**, and all that was backed for it is released. -/
theorem recedes (attempts : k.Attempts range dirs size a) (backed : Backed config directory I k)
    (hclear : k.Unobstructed) (stalls : k.Stalls size) :
    (backRange k.heap.start k.heap.size (k.heap.growthStep (Heap.rounded size))
        (k.setInterrupts false).heapPages).Meets (fun _ => True) fun (result, s) =>
      (∃ refusal, result = .error refusal) ∧ ∃ m < a.count, a.Receding k.paging m m s := by
  obtain ⟨refusal, pages, hreturns⟩ := stalls.refused
  have hrefused := (KernelPages.backRange_determined _ _ _ _).meets hreturns
  have hrecedes : (backRange a.start (a.first * pageSize) (a.count * pageSize)
      (k.setInterrupts false).heapPages).Meets (fun _ => True) _ :=
    HeapGrowth.attempt_recedes attempts.owns fun i hi => attempts.unmapped backed hclear hi
  rw [attempts.start_eq, attempts.origin_eq, attempts.bytes_eq] at hrecedes
  refine (hrefused.and hrecedes).imp ?_
  rintro ⟨result, s⟩ ⟨heq, hs⟩
  obtain ⟨rfl, -⟩ := Prod.mk.inj heq
  exact ⟨⟨refusal, rfl⟩, hs refusal rfl⟩

/-- **The allocation is in vain then**, and the heap is the same. -/
theorem alloc_in_vain {l : List Block} {lent : Finset Frame} (attempts : k.Attempts range dirs size a)
    (backed : Backed config directory I k) (sound : k.heap.Sound l)
    (hlends : k.frames.Lends range lent) (hclear : k.Unobstructed) (stalls : k.Stalls size) :
    (k.heap.alloc (k.setInterrupts false).heapPages size).Meets admits
      (k.heap.InVain fun s => ∃ m < a.count, a.Receding k.paging m m s) :=
  sound.alloc_in_vain_of_refused (MemoryInvariant.lending_growable range directory _ _)
    ⟨backed.directory_eq, lent, hlends⟩ stalls.toHasToGrow (attempts.recedes backed hclear stalls)

/-- **The same allocation is in vain again**, and leaves memory as it is.  The heap asks for the same
pages, since it is the same heap. -/
theorem alloc_in_vain_again {l : List Block} (attempts : k.Attempts range dirs size a)
    (sound : k.heap.Sound l) (hasToGrow : k.heap.HasToGrow size) (r : a.Receding k.paging m m b)
    (hm : m < a.count) (heap_eq : k'.heap = k.heap) (directory_eq : k'.directory = k.directory)
    (paging_eq : k'.paging = b.paging) (frames_eq : k'.frames = b.frames) :
    (k'.heap.alloc (k'.setInterrupts false).heapPages size).Meets admits
      (k'.heap.InVain k'.SameMemory) := by
  have hdirectory := directory_eq.trans attempts.directory_eq.symm
  have hagain : (backRange a.start (a.first * pageSize) (a.count * pageSize)
      (k'.setInterrupts false).heapPages).Meets (fun _ => True) _ :=
    r.attempt_again hm paging_eq frames_eq hdirectory
  rw [attempts.start_eq, attempts.origin_eq, attempts.bytes_eq, ← heap_eq, ← paging_eq,
    ← frames_eq] at hagain
  obtain ⟨lent, hlends, -⟩ := r.owns.2.lends
  rw [attempts.range_eq, ← frames_eq] at hlends
  exact (heap_eq ▸ sound).alloc_in_vain_of_refused
    (MemoryInvariant.lending_growable range a.directory _ _) ⟨hdirectory, lent, hlends⟩
    (heap_eq ▸ hasToGrow) hagain

/-- **What is left then** is page tables, and nothing in them. -/
theorem rolledBack (attempts : k.Attempts range dirs size a) (r : a.Receding k.paging m m b)
    (heap_eq : k'.heap = k.heap) (directory_eq : k'.directory = k.directory)
    (paging_eq : k'.paging = b.paging) (frames_eq : k'.frames = b.frames) :
    k.RolledBack dirs k' := by
  obtain rfl := attempts.dirs_eq
  have hdirectory := attempts.directory_eq
  have hkept := r.tableFrames_subset
  have hused := r.used_eq attempts.owns rfl
  refine ⟨heap_eq, directory_eq, fun v => ?_, ?_, fun t ht => ?_, ?_⟩
  · rw [translate, translate, paging_eq]
    refine Paging.translate_congr ?_
    rw [← hdirectory]
    exact r.frameOf?_same v
  · rwa [paging_eq]
  · rw [Finset.mem_sdiff, paging_eq] at ht
    rw [paging_eq]
    exact r.vacant ht.1 ht.2
  · rw [frameStats, frameStats, paging_eq, frames_eq]
    exact hused

end Attempts

/-- Where memory is the same, nothing is left, not even a table. -/
theorem Leaves.rolledBack {lent : Finset Frame} (hlends : k.frames.Lends range lent)
    (leaves : k.Leaves k.SameMemory k') : k.RolledBack dirs k' := by
  obtain ⟨heap_eq, directory_eq, b, ⟨hpaging, hframes⟩, hpaging', hframes'⟩ := leaves
  rw [hpaging] at hpaging'
  rw [hframes] at hframes'
  obtain ⟨stats, hstats, -⟩ := hlends.stats_ok
  refine ⟨heap_eq, directory_eq, fun v => ?_, ?_, ?_, stats, stats, hstats, ?_, ?_⟩
  · rw [translate, translate, hpaging']
  · rw [hpaging']
  · rw [hpaging', Finset.sdiff_self]
    simp
  · rwa [frameStats, hframes']
  · rw [hpaging', Finset.sdiff_self, Finset.card_empty, Nat.add_zero]

/-- **A request that stalls is rolled back**, and the second time it leaves nothing.  A request that is
settled early is met without memory, or changes none. -/
theorem Backed.issue_rolls_back (backed : Backed config directory I k)
    (h : k.paging.Housed range dirs k.frames) (hd : directory.frame ∈ dirs) (hclear : k.Unobstructed)
    (stalls : k.Stalls r.size) :
    (k.issue r).Meets (r.faults k) fun (met, k') => met = false →
      k.RolledBack dirs k' ∧ (k'.issue r).Meets (r.faults k') fun (met', k'') =>
        met' = false ∧ k'.Leaves k'.SameMemory k'' := by
  obtain ⟨l, sound⟩ := backed.sound
  obtain ⟨lent, hlends, -⟩ := h.lends
  by_cases hsettles : ∃ met, k.Settles met r
  case pos =>
    -- no page is asked for at all
    obtain ⟨met, settles⟩ := hsettles
    refine settles.issue_meets.imp ?_
    rintro ⟨_, k'⟩ ⟨rfl, leaves, settles'⟩ rfl
    refine ⟨leaves.rolledBack hlends, settles'.issue_meets.imp ?_⟩
    rintro ⟨met', k''⟩ ⟨rfl, leaves', -⟩
    exact ⟨rfl, leaves'⟩
  case neg =>
  obtain ⟨a, attempts⟩ := backed.exists_attempt h hd r.size
  refine (issue_in_vain sound stalls.range (fun met settles => hsettles ⟨met, settles⟩)
    (attempts.alloc_in_vain backed sound hlends hclear stalls)).imp ?_
  rintro ⟨met, k'⟩ ⟨rfl, heap_eq, directory_eq, b, ⟨m, hm, recedes⟩, paging_eq, frames_eq⟩ -
  refine ⟨attempts.rolledBack recedes heap_eq directory_eq paging_eq frames_eq, ?_⟩
  by_cases hsettles' : ∃ met, k'.Settles met r
  case pos =>
    obtain ⟨met, settles'⟩ := hsettles'
    refine settles'.issue_meets.imp ?_
    rintro ⟨_, k''⟩ ⟨rfl, leaves', -⟩
    refine ⟨Bool.eq_false_of_not_eq_true fun hmet => hsettles ⟨true, ?_⟩, leaves'⟩
    exact (hmet ▸ settles').of_heap_eq heap_eq
  case neg =>
  exact issue_in_vain (heap_eq ▸ sound) (heap_eq ▸ stalls.range)
    (fun met settles => hsettles' ⟨met, settles⟩)
    (attempts.alloc_in_vain_again sound stalls.toHasToGrow recedes hm heap_eq directory_eq paging_eq
      frames_eq)

/-- **Failed growth is rolled back on all levels.**  A kernel is booted, and clients do what they like
with it, as long as no directory and no page table is given back.  If no page of the heap window is
mapped behind the end of the heap, and a request fails because one of the pages cannot be backed that
the heap would grow by, then the heap is what it was, the kernel's directory translates every address
as before, and exactly as many more frames are in use as there are new page tables, all of whose
entries are absent.  If the same request is made again at once, it fails again, and nothing at all
changes in the heap, in memory and in the allocator. -/
theorem boot_rolls_back (machine : Machine) (config : BootConfig) :
    (boot machine config : Run (Kernel ε)).Meets (fun _ => True) fun k₀ =>
      ∀ calls : List (KernelCall ε), ((KernelSession.ofKernel k₀).sparingRun calls).Meets
        (fun e => e = .overflow .add) fun s =>
          s.kernel.Unobstructed → ∀ r : HeapRequest ε, s.kernel.Stalls r.size →
            (s.kernel.issue r).Meets (r.faults s.kernel) fun (met, k) => met = false →
              s.kernel.RolledBack s.directoryFrames k ∧
                (k.issue r).Meets (r.faults k) fun (met', k') =>
                  met' = false ∧ k'.heap = k.heap ∧ k'.paging = k.paging ∧ k'.frames = k.frames := by
  refine (KernelSession.boot_sheltered machine config).imp fun k₀ c calls => ?_
  refine (c.run_meets calls).imp fun s ⟨clock, c⟩ hclear r stalls => ?_
  have hdirs : s.directoryFrames
      = ((k₀.directory :: s.created).map PageDirectory.frame).toFinset := by
    rw [KernelSession.directoryFrames, KernelSession.directories, c.steady.directory_eq]
  have hd : k₀.directory.frame ∈ s.directoryFrames := by
    rw [hdirs, List.mem_toFinset]
    exact List.mem_map_of_mem List.mem_cons_self
  have housed := c.steady.memory
  rw [KernelSession.shelter, ← hdirs] at housed
  refine (c.steady.toBacked.issue_rolls_back housed hd hclear stalls).imp ?_
  rintro ⟨met, k⟩ hresult hmet
  obtain ⟨rolledBack, hagain⟩ := hresult hmet
  refine ⟨rolledBack, hagain.imp ?_⟩
  rintro ⟨met', k'⟩ ⟨hmet', heap_eq, -, b, ⟨hpaging, hframes⟩, hpaging', hframes'⟩
  exact ⟨hmet', heap_eq, hpaging'.trans hpaging, hframes'.trans hframes⟩

/-! ## Kernels that cannot grow -/

/-- **Nothing is in the way of a heap that was just set up**: all that is mapped is the low memory, which
ends before the heap starts, and the heap itself. -/
theorem AsBooted.unobstructed (booted : k.AsBooted config) (valid : config.validate = .ok ())
    (config_eq : k.config = config) (size_eq : k.heap.size = config.heapInitialSize) :
    k.Unobstructed := by
  intro v hwindow hbehind
  obtain ⟨-, hlow, -⟩ := BootConfig.validate_eq_ok_iff.mp valid
  rw [inHeapWindow_iff, config_eq] at hwindow
  rw [config_eq, size_eq] at hbehind
  have hunmapped : k.translate k.directory v = none := by
    apply booted.unmapped v
    · exact hlow.trans hwindow.1
    · intro hin
      exact absurd hin.2 (Nat.not_lt.mpr hbehind)
  show (k.translate k.directory v).isSome = false
  rw [hunmapped]
  rfl

/-- **Booting can take every frame there is**, and then no frame is left. -/
theorem AsBooted.alloc_none {lent : Finset Frame} (booted : k.AsBooted config)
    (hlends : k.frames.Lends config.frameRange lent)
    (hall : config.frameRange.total - config.frameRange.reserved ≤ config.framesNeeded) :
    k.frames.alloc = .ok (none, k.frames) := by
  refine hlends.alloc_none ?_
  rw [← hlends.card_used, booted.used_card]
  exact hall

open MemoryInvariant in
/-- **A kernel that took every frame there is** when it booted stalls at the first request that is as
large as its heap, though nothing is in the way of the heap and its window has room: the request finds
no block, the heap has to grow, and the first page is refused. -/
theorem boot_stalls (config : BootConfig) (bootable : config.Bootable)
    (hall : config.frameRange.total - config.frameRange.reserved ≤ config.framesNeeded)
    (hroom : pageSize ≤ config.heapMaxSize - config.heapInitialSize) {size : Nat}
    (hsize : config.heapInitialSize ≤ size) (hmax : size ≤ config.heapMaxSize - headerSize) :
    (boot (.ofConfig config) config : Run (Kernel ε)).Meets (fun _ => False) fun k =>
      k.Unobstructed ∧ k.Stalls size
        ∧ (k.issue (.alloc size)).Meets (fun _ => False) fun (met, _) => met = false := by
  refine (boot_of_bootable config bootable).imp ?_
  rintro k ⟨booted, steady, ⟨b, -, sound, size_eq⟩, -⟩
  have backed := steady.toBacked
  obtain ⟨lent, hlends⟩ := backed.memory
  obtain ⟨-, -, -, -, -, hpos, -⟩ := BootConfig.validate_eq_ok_iff.mp bootable.valid
  have range : k.heap.Admits size := by
    rw [Heap.Admits, backed.maxSize_eq]
    exact ⟨Nat.ne_of_gt (Nat.lt_of_lt_of_le hpos hsize), hmax⟩
  have hasToGrow : k.heap.HasToGrow size := by
    apply sound.hasToGrow_of_size_le range
    · rwa [size_eq]
    · rwa [size_eq, backed.maxSize_eq]
  have stalls : k.Stalls size :=
    backed.stalls_of_no_frame hasToGrow (booted.alloc_none hlends hall)
  exact ⟨booted.unobstructed bootable.valid backed.config_eq size_eq, stalls,
    backed.alloc_unmet (lending_growable _ _ _) stalls⟩

/-- **The standard layout on a machine that booting uses up**: of the 771 frames, 512 are reserved, and
booting takes the 259 others. -/
def usedUp : BootConfig := { BootConfig.standard with memoryTop := 0x303000 }

/-- On that machine the heap cannot grow by 5 MiB.  A request for as much stalls, it is rolled back, and
the second time nothing changes at all. -/
theorem usedUp_rolls_back :
    (boot (.ofConfig usedUp) usedUp : Run (Kernel Unit)).Meets (fun _ => False) fun k =>
      k.Unobstructed ∧ k.Stalls 0x500000
        ∧ (k.issue (.alloc 0x500000)).Meets (fun _ => False) fun (met, k') =>
          met = false ∧ k.RolledBack (KernelSession.ofKernel k).directoryFrames k'
            ∧ (k'.issue (.alloc 0x500000)).Meets (fun _ => False) fun (met', k'') =>
              met' = false ∧ k''.heap = k'.heap ∧ k''.paging = k'.paging
                ∧ k''.frames = k'.frames := by
  have bootable : usedUp.Bootable := by decide
  have hall : usedUp.frameRange.total - usedUp.frameRange.reserved ≤ usedUp.framesNeeded := by
    rw [BootConfig.framesNeeded, BootConfig.card_heapRegions (by decide)]
    decide
  have hroom : pageSize ≤ usedUp.heapMaxSize - usedUp.heapInitialSize := by decide
  have hsize : usedUp.heapInitialSize ≤ 0x500000 := by decide
  have hmax : 0x500000 ≤ usedUp.heapMaxSize - headerSize := by decide
  -- nothing else counts about the layout, and no kernel need be computed
  generalize usedUp = config at *
  refine ((boot_stalls config bootable hall hroom hsize hmax).and
    (boot_rolls_back (.ofConfig config) config)).imp ?_
  rintro k ⟨⟨unobstructed, stalls, hunmet⟩, hruns⟩
  have hidle : ((KernelSession.ofKernel k).sparingRun []).Returns (.ofKernel k) :=
    ⟨default, default, rfl⟩
  have hrequests := (hruns []).of_returns hidle
  refine ⟨unobstructed, stalls, ?_⟩
  refine (hunmet.and (hrequests unobstructed (.alloc 0x500000) stalls)).imp ?_
  rintro ⟨met, k'⟩ ⟨hmet, hresult⟩
  exact ⟨hmet, hresult hmet⟩

end Kernel

end TinyKernel
