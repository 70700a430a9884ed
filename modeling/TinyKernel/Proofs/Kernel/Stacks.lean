import TinyKernel.Proofs.Kernel.Creation
import TinyKernel.Proofs.Process.Stacks

/-!
# Stacks in the kernel heap

The blocks of the kernel heap are owned by the clients, or they are the stacks of processes.  A stack
belongs to its process from the moment at which it is allocated to the moment at which it is freed, also
while it is between the heap and the table: in a creation that is not over yet, and in what a process
left behind.

## What is load-bearing

In the middle of an operation a stack is in no slot.  There it counts as one of the *others*, next to
what clients have, and this is all that is said about it; so the two halves of an operation that hands
a stack over need not know about each other (`ProcessTable.HousedIn.of_turnover`).

* `ProcessTable.HousedIn` — the blocks of the heap are those of some others, and stacks
* `KernelCall.Ends`, `ProcessTable.Tenure` — which process a call ends, and what becomes of stacks
* `Kernel.Quiet`, `Kernel.Lawful` — calls in which nothing moves, and all other calls
* `Kernel.Steady.spawn_lawful`, `Kernel.Steady.exit_lawful`, `Kernel.Steady.kill_lawful` — the operations
  that hand stacks over
-/

namespace TinyKernel

variable {ε α : Type}

/-- **A call ends the process with a pid**, if that can end.  The kernel's own process and those
terminated already cannot. -/
def KernelCall.Ends (t : ProcessTable ε) (pid : Pid) : KernelCall ε → Prop
  | exit _ => t.currentPid = pid
  | kill target => target = pid
  | syscall number _ => Syscall.ofNumber? number = some .exit ∧ t.currentPid = pid
  | _ => False

instance (t : ProcessTable ε) (pid : Pid) (call : KernelCall ε) : Decidable (call.Ends t pid) := by
  cases call <;> unfold KernelCall.Ends <;> infer_instance

/-- A stack stays where it is as long as it is not given back, whatever else is traded. -/
theorem Heap.Houses.trade {h h' : Heap} {stack : Stack} {out back : Option Pointer}
    (hs : h.Houses stack) (t : h.Trades h' out back) (live : h.IsLive stack.base)
    (kept : stack.base ∉ back) : h'.Houses stack where
  size_eq := hs.size_eq
  large := by
    rw [t.payloadSize_eq _ live kept]
    exact hs.large
  virtAddrOf_eq := (t.virtAddrOf_eq _ live).trans hs.virtAddrOf_eq
  fits := hs.fits

/-- The blocks of some stacks, as the heap knows them. -/
def blocksOf (l : List (Pid × Stack)) : List Pointer := l.map fun x => x.2.base

namespace ProcessTable

/-- **The blocks of a heap** are those of some others, and the stacks of the processes.  There is
nobody else who has one, and every stack is in order.  The others are the clients of the heap, of whom
nothing else is known. -/
structure HousedIn (t : ProcessTable ε) (h : Heap) (others : List Pointer) : Prop where
  stacked : t.Stacked
  owned : h.OwnedBy (others ++ blocksOf t.holdings)
  houses : ∀ x ∈ t.holdings, h.Houses x.2

/-- **What becomes of stacks in a call**: the one of the process that the call ends is freed, and there
may be one more, of a process under the next pid.  All other stacks stay with their processes. -/
structure Tenure (t : ProcessTable ε) (call : KernelCall ε) (t' : ProcessTable ε) (h' : Heap)
    (gone come : Option (Pid × Stack)) : Prop where
  turnover : t.Turnover t' gone.toList come.toList
  mem_gone : ∀ x ∈ t.holdings, call.Ends t x.1 → x ∈ gone
  freed : ∀ x ∈ gone, x ∈ t.holdings ∧ call.Ends t x.1 ∧ ¬ h'.IsLive x.2.base
  fresh : ∀ x ∈ come, x.1 = ⟨t.nextPid⟩ ∧ t.nextPid < t'.nextPid

/-- **A process has begun** that starts on a stack of its own, just below the top. -/
def Begun (t : ProcessTable ε) (pid : Pid) : Prop :=
  ∃ s b stack, t.block? s = some b ∧ b.pid = pid ∧ b.stack? = some stack
    ∧ stack.StartsAt b.context.esp

variable {t t' : ProcessTable ε} {h h' : Heap} {others : List Pointer} {out back : Option Pointer}
  {gone come : List (Pid × Stack)} {call : KernelCall ε}

/-! ## The books -/

namespace HousedIn

/-- Whoever else has a block, it is no stack.  So clients cannot free a stack by giving back what is
theirs. -/
theorem not_mem_blocksOf (hs : t.HousedIn h others) {p : Pointer} (hp : p ∈ others ∨ ¬ h.IsLive p) :
    p ∉ blocksOf t.holdings := by
  intro hmem
  rcases hp with hp | hp
  · exact List.disjoint_of_nodup_append hs.owned.nodup hp hmem
  · exact hp ((hs.owned.isLive_iff p).mpr (List.mem_append_right _ hmem))

theorem isLive (hs : t.HousedIn h others) {x : Pid × Stack} (hx : x ∈ t.holdings) :
    h.IsLive x.2.base :=
  (hs.owned.isLive_iff _).mpr (List.mem_append_right _ (List.mem_map_of_mem hx))

/-- **Stacks are handed over** between the table and others.  The heap does not notice. -/
theorem of_turnover (hs : t.HousedIn h (blocksOf come ++ others)) (tv : t.Turnover t' gone come)
    (houses : ∀ x ∈ come, h.Houses x.2) : t'.HousedIn h (blocksOf gone ++ others) where
  stacked := tv.stacked
  owned := by
    refine hs.owned.perm (List.perm_iff_count.mpr fun p => ?_)
    have hcount := (tv.balance.map fun x : Pid × Stack => x.2.base).count_eq p
    simp only [List.map_append, List.count_append, blocksOf] at hcount ⊢
    omega
  houses x hx := by
    have hmem := tv.balance.mem_iff.mpr (List.mem_append_right gone hx)
    exact (List.mem_append.mp hmem).elim (hs.houses x) (houses x)

theorem shed (hs : t.HousedIn h others) (tv : t.Turnover t' gone []) :
    t'.HousedIn h (blocksOf gone ++ others) := by
  have hs' : t.HousedIn h (blocksOf [] ++ others) := hs
  exact hs'.of_turnover tv (by simp)

theorem quiet (hs : t.HousedIn h others) (tv : t.Turnover t' [] []) : t'.HousedIn h others :=
  hs.shed tv

/-- **A block is traded** by others, and the stacks stay. -/
theorem trade (hs : t.HousedIn h others) (tr : h.Trades h' out back)
    (mine : ∀ p ∈ back, p ∉ blocksOf t.holdings) :
    t.HousedIn h' (out.toList ++ back.elim others others.erase) where
  stacked := hs.stacked
  owned := hs.owned.trade_append tr mine
  houses x hx := by
    refine (hs.houses x hx).trade tr (hs.isLive hx) fun hback => ?_
    exact mine _ hback (List.mem_map_of_mem hx)

end HousedIn

/-- Calls that end the same processes are the same as far as stacks go. -/
theorem Tenure.congr {call' : KernelCall ε} {gone come : Option (Pid × Stack)}
    (tenure : t.Tenure call t' h' gone come) (hends : ∀ pid, call.Ends t pid ↔ call'.Ends t pid) :
    t.Tenure call' t' h' gone come where
  turnover := tenure.turnover
  mem_gone x hx hend := tenure.mem_gone x hx ((hends x.1).mpr hend)
  freed x hx := (tenure.freed x hx).imp_right (And.imp_left (hends x.1).mp)
  fresh := tenure.fresh

/-- A call that ends nobody, and in which no stack moves. -/
theorem Turnover.tenure (tv : t.Turnover t' [] []) (hends : ∀ pid, ¬ call.Ends t pid) :
    t.Tenure call t' h' none none where
  turnover := tv
  mem_gone x _ hx := absurd hx (hends x.1)
  freed x hx := by cases hx
  fresh x hx := by cases hx

end ProcessTable

namespace Kernel

open ProcessTable

variable {config : BootConfig} {directory : PageDirectory} {I : MemoryInvariant} {clock : Nat}
  {k k' : Kernel ε} {others : List Pointer} {admits : Fault → Prop}

/-! ## Calls -/

/-- **Nothing happens** to blocks and stacks, though processes may change in other ways. -/
def Quiet (k k' : Kernel ε) : Prop :=
  k'.heap = k.heap ∧ k.processes.Turnover k'.processes [] []

/-- **What a call does** to blocks and stacks, if some blocks are those of others when it is over. -/
def Lawful (k : Kernel ε) (call : KernelCall ε) (others : List Pointer) (k' : Kernel ε) : Prop :=
  k'.processes.HousedIn k'.heap others
    ∧ ∃ gone come, k.processes.Tenure call k'.processes k'.heap gone come

theorem masked_quiet {op : Kernel ε → Run (α × Kernel ε)}
    (hop : (op (k.setInterrupts false)).Meets admits fun (_, k') => k.Quiet k') :
    (masked op k).Meets admits fun (_, k') => k.Quiet k' :=
  masked_meets (fun _ => k.Quiet) (fun _ _ _ h => h) hop

theorem masked_lawful {op : Kernel ε → Run (α × Kernel ε)} {call : KernelCall ε}
    (hop : (op (k.setInterrupts false)).Meets admits fun (_, k') => k.Lawful call others k') :
    (masked op k).Meets admits fun (_, k') => k.Lawful call others k' :=
  masked_meets (fun _ => k.Lawful call others) (fun _ _ _ h => h) hop

/-- A call in which nothing moves, and which ends nobody, does what it should. -/
theorem Quiet.lawful (q : k.Quiet k') (hs : k.processes.HousedIn k.heap others) {call : KernelCall ε}
    (hends : ∀ pid, ¬ call.Ends k.processes pid) : k.Lawful call others k' := by
  obtain ⟨hheap, tv⟩ := q
  refine ⟨?_, none, none, tv.tenure hends⟩
  rw [hheap]
  exact hs.quiet tv

/-- A call that asks for frames or pages has nothing to do with blocks and processes. -/
theorem perform_quiet_of_touchesPages (stacked : k.processes.Stacked) {call : KernelCall ε}
    (hcall : call.touchesPages = true) : (k.perform call).Meets (fun _ => True) k.Quiet := by
  have hrefl : k.Quiet k := ⟨rfl, .refl stacked⟩
  cases call with
  | allocFrame =>
      exact Run.Meets.map (masked_quiet (Run.meets_lift_bind_of_ok fun _ _ => Run.meets_pure hrefl))
  | freeFrame address =>
      exact Run.Meets.map (masked_quiet ((Run.meets_returns _).bind fun _ _ => Run.meets_pure hrefl))
  | createDirectory =>
      exact Run.Meets.map (masked_quiet ((Run.meets_returns _).bind fun _ _ => Run.meets_pure hrefl))
  | switchDirectory d => exact Run.Meets.map (masked_quiet (Run.meets_pure hrefl))
  | map d address target flags =>
      exact Run.Meets.map (masked_quiet ((Run.meets_returns _).bind fun _ _ => Run.meets_pure hrefl))
  | unmap d address => exact Run.Meets.map (masked_quiet (Run.meets_pure hrefl))
  | _ => cases hcall

/-! ## Blocks of clients -/

/-- **A heap operation of a client** trades blocks, and does nothing to processes. -/
theorem withHeap_trades {op : Heap → KernelPages → Run (α × Heap × KernelPages)}
    (out back : α → Option Pointer)
    (hop : (op k.heap (k.setInterrupts false).heapPages).Meets admits fun (a, heap, _) =>
      k.heap.Trades heap (out a) (back a)) :
    (masked (withHeap op) k).Meets admits fun (a, k') =>
      k.heap.Trades k'.heap (out a) (back a) ∧ k'.processes = k.processes := by
  refine masked_meets (fun a k' => k.heap.Trades k'.heap (out a) (back a)
    ∧ k'.processes = k.processes) (fun _ _ _ h => h) ?_
  exact hop.bind fun (a, heap, pages) t => Run.meets_pure ⟨t, rfl⟩

section

/-- The pages of the heap, as a masked operation finds them: the invariant does not look at
interrupts. -/
theorem Backed.holds (b : Backed config directory I k) :
    KernelPages.Holds directory I k.heap.backed (k.setInterrupts false).heapPages :=
  ⟨b.directory_eq, b.memory⟩

variable (growable : I.Growable directory config.heapPages)
include growable

theorem Steady.alloc_trades (s : Steady config directory I clock k) (size : Nat) :
    (k.alloc size).Meets admits fun (p?, k') =>
      k.heap.Trades k'.heap p? none ∧ k'.processes = k.processes := by
  obtain ⟨l, sound⟩ := s.sound
  refine withHeap_trades id (fun _ => none) ?_
  refine (sound.alloc_trades (s.keeps growable) s.holds size).imp ?_
  rintro ⟨p?, heap, pages⟩ ⟨t, -⟩
  exact t

theorem Steady.calloc_trades (s : Steady config directory I clock k) (count size : Nat) :
    (k.calloc count size).Meets admits fun (p?, k') =>
      k.heap.Trades k'.heap p? none ∧ k'.processes = k.processes := by
  obtain ⟨l, sound⟩ := s.sound
  refine withHeap_trades id (fun _ => none) ?_
  exact sound.calloc_trades (s.keeps growable) s.holds count size

theorem Steady.realloc_trades (s : Steady config directory I clock k) (p? : Option Pointer)
    (size : Nat) :
    (k.realloc p? size).Meets admits fun (q?, k') =>
      k.heap.Trades k'.heap q? (Heap.resizedAway p? size q?) ∧ k'.processes = k.processes := by
  obtain ⟨l, sound⟩ := s.sound
  refine withHeap_trades id (Heap.resizedAway p? size) ?_
  exact sound.realloc_trades (s.keeps growable) s.holds p? size

end

theorem Backed.freeBlock_trades (b : Backed config directory I k) (p : Pointer) :
    (k.freeBlock p).Meets admits fun (_, k') =>
      k.heap.Trades k'.heap none (some p) ∧ k'.processes = k.processes := by
  obtain ⟨l, sound⟩ := b.sound
  unfold freeBlock
  refine (sound.free_trades p).bind ?_
  rintro ⟨freed, heap⟩ t
  exact Run.meets_pure ⟨t, rfl⟩

theorem Steady.free_trades (s : Steady config directory I clock k) (p : Pointer) :
    (k.free p).Meets admits fun (_, k') =>
      k.heap.Trades k'.heap none (some p) ∧ k'.processes = k.processes :=
  Kernel.masked_meets (fun _ k' => k.heap.Trades k'.heap none (some p) ∧ k'.processes = k.processes)
    (fun _ _ _ h => h) ((s.setInterrupts false).freeBlock_trades p)

theorem Steady.store_trades (s : Steady config directory I clock k) (p : Pointer) (v : UInt8)
    (n : Nat) :
    (k.perform (.store p v n)).Meets admits fun k' =>
      k.heap.Trades k'.heap none none ∧ k'.processes = k.processes := by
  obtain ⟨l, sound⟩ := s.sound
  obtain ⟨heap?, hstore, t⟩ := sound.store_trades p v n
  refine Run.meets_lift_bind hstore ?_
  cases heap? with
  | none => exact Run.meets_pure ⟨sound.trades_nothing sound rfl (Nat.le_refl _) rfl, rfl⟩
  | some heap => exact Run.meets_pure ⟨t heap rfl, rfl⟩

/-! ## Stacks that stay -/

/-- **A dispatch** moves no block and no stack. -/
theorem reschedule_quiet (stacked : k.processes.Stacked) (d : k.processes.Dispatchable) :
    k.reschedule.Meets (fun _ => True) fun (_, k') => k.Quiet k' := by
  unfold reschedule
  refine (d.schedule_turnover stacked k.ticks).bind ?_
  rintro ⟨switch?, processes⟩ tv
  cases switch? with
  | none => exact Run.meets_pure ⟨rfl, tv⟩
  | some switch => exact Run.meets_pure ⟨rfl, tv⟩

theorem Steady.yield_quiet (s : Steady config directory I clock k) (stacked : k.processes.Stacked) :
    k.yield.Meets (fun _ => True) fun (_, k') => k.Quiet k' :=
  masked_quiet (reschedule_quiet stacked s.scheduled.dispatchable)

theorem Steady.block_quiet (s : Steady config directory I clock k) (stacked : k.processes.Stacked) :
    k.block.Meets (fun _ => True) fun (_, k') => k.Quiet k' := by
  refine masked_quiet ?_
  have hleft : k.processes.blockCurrent.Meets (fun _ => True) _ := s.scheduled.blockCurrent_meets
  refine (hleft.and (s.scheduled.blockCurrent_turnover stacked)).bind ?_
  rintro ⟨blocked, processes⟩ ⟨hblocked, tv⟩
  cases blocked with
  | error cause => exact Run.meets_pure ⟨rfl, tv⟩
  | ok =>
      refine (reschedule_quiet (k := { k.setInterrupts false with processes }) tv.stacked
        hblocked.1).bind ?_
      rintro ⟨_, k'⟩ ⟨hheap, tv'⟩
      exact Run.meets_pure ⟨hheap, tv.trans tv'⟩

theorem Steady.unblock_quiet (s : Steady config directory I clock k) (stacked : k.processes.Stacked)
    (pid : Pid) : (k.unblock pid).Meets (fun _ => True) fun (_, k') => k.Quiet k' := by
  obtain ⟨result, processes, hunblock, -⟩ := s.scheduled.unblock_ok pid
  exact masked_quiet (Run.meets_lift_bind hunblock (Run.meets_pure ⟨rfl, stacked.unblock hunblock⟩))

theorem reap_quiet (stacked : k.processes.Stacked) :
    k.reap.Meets (fun _ => True) fun (_, k') => k.Quiet k' :=
  masked_quiet (stacked.reap_turnover.bind fun _ tv => Run.meets_pure ⟨rfl, tv⟩)

theorem Steady.takeEntry_quiet (s : Steady config directory I clock k)
    (stacked : k.processes.Stacked) :
    k.takeEntry.Meets (fun _ => True) fun (_, k') => k.Quiet k' :=
  masked_quiet (Run.meets_pure ⟨rfl, s.scheduled.takeEntry_turnover stacked⟩)

/-! ## Creation -/

/-- **A process comes by a stack** when it is created, or nothing comes of it.  A stack that was
allocated is not lost in between, as nothing can fail after it is had. -/
theorem Steady.spawn_lawful (growable : I.Growable directory config.heapPages)
    (s : Steady config directory I clock k) (hs : k.processes.HousedIn k.heap others) (name : String)
    (priority : Priority) (entry : ε) :
    (k.spawn name priority entry).Meets k.processes.PidFault fun (result, k') =>
      k.Lawful (.spawn name priority entry) others k'
        ∧ ∀ pid, result = .ok pid → k'.processes.Begun pid := by
  have hends : ∀ pid, ¬ (KernelCall.spawn name priority entry).Ends k.processes pid := fun _ => id
  refine (s.spawn_cases growable name priority entry).imp ?_
  rintro ⟨result, k'⟩ spawns
  cases spawns with
  | full => exact ⟨⟨hs, none, none, (Turnover.refl hs.stacked).tenure hends⟩, nofun⟩
  | inVain room fits refused nothing =>
      obtain ⟨processes_eq, grants, -⟩ := nothing
      have tv : k.processes.Turnover k'.processes [] [] := by
        rw [processes_eq]
        exact .of_block?_eq hs.stacked (fun _ => rfl) (UInt32.le_of_lt (nextPid_lt fits))
      exact ⟨⟨(hs.trade grants.trades (by simp)).quiet tv, none, none, tv.tenure hends⟩, nofun⟩
  | @created slot b stack _ first fits granted starts processes_eq grants dropped_eq =>
      have hpid : b.pid = ⟨k.processes.nextPid⟩ := congrArg ProcessInfo.pid starts.info_eq
      have hhouses := grants.houses stack rfl
      -- between the heap and the table, the stack is one of the others
      have hs' : k.processes.HousedIn k'.heap (blocksOf [(b.pid, stack)] ++ others) :=
        hs.trade grants.trades (by simp)
      have tv := hs.stacked.enrolled s.scheduled first.free fits starts
      rw [← processes_eq] at tv
      refine ⟨⟨hs'.of_turnover tv (by simpa using hhouses), none, some (b.pid, stack), ?_⟩,
        fun pid hresult => ?_⟩
      · refine ⟨tv, fun x _ => False.elim, by simp, fun x hx => ?_⟩
        obtain rfl := Option.some.inj hx
        rw [processes_eq, nextPid_enrolled]
        exact ⟨hpid, nextPid_lt fits⟩
      · obtain rfl := Except.ok.inj hresult
        obtain ⟨creator, hcreator⟩ := Option.isSome_iff_exists.mp s.scheduled.occupied
        refine ⟨slot, b, stack, ?_, hpid, starts.stack_eq, ?_⟩
        · rw [processes_eq, block?_enrolled first.free hcreator, if_pos rfl]
        · rw [starts.esp_eq]
          refine Stack.startsInside hhouses.fits ?_
          rw [hhouses.size_eq]
          decide

/-! ## The end of a process -/

/-- **What a process leaves behind** is freed.  Its block was nobody else's, so that it is not live
afterwards. -/
theorem Backed.release_housed (b : Backed config directory I k) {remains : Remains ε}
    (hs : k.processes.HousedIn k.heap (remains.stack?.toList.map Stack.base ++ others)) :
    (k.release remains).Meets admits fun k' => k'.processes.HousedIn k'.heap others
      ∧ k'.processes = k.processes ∧ ∀ stack ∈ remains.stack?, ¬ k'.heap.IsLive stack.base := by
  have hdrop : ∀ k' : Kernel ε, (remains.pending?.elim k' k'.drop).processes = k'.processes
      ∧ (remains.pending?.elim k' k'.drop).heap = k'.heap := by
    intro k'
    cases remains.pending? <;> exact ⟨rfl, rfl⟩
  unfold release
  cases hstack : remains.stack? with
  | none =>
      rw [hstack] at hs
      refine Run.meets_pure ?_
      obtain ⟨hprocesses, hheap⟩ := hdrop k
      rw [hprocesses, hheap]
      exact ⟨hs, rfl, by simp⟩
  | some stack =>
      rw [hstack] at hs
      have hfreed : (Prod.snd <$> k.freeBlock stack.base).Meets admits fun k' =>
          k.heap.Trades k'.heap none (some stack.base) ∧ k'.processes = k.processes :=
        Run.Meets.map (b.freeBlock_trades stack.base)
      refine hfreed.bind fun k' ⟨tr, hprocesses'⟩ => Run.meets_pure ?_
      obtain ⟨hprocesses, hheap⟩ := hdrop k'
      rw [hprocesses, hheap, hprocesses']
      have hmine : stack.base ∉ blocksOf k.processes.holdings :=
        hs.not_mem_blocksOf (Or.inl List.mem_cons_self)
      have hs' := hs.trade tr (by simpa using hmine)
      refine ⟨by simpa using hs', rfl, fun stack' hstack' hlive => ?_⟩
      obtain rfl := Option.some.inj hstack'
      simpa using (tr.isLive_iff stack.base).mp hlive

/-- **A process gave up the processor for good**: what it leaves behind is freed, and the dispatch that
may follow moves nothing. -/
theorem Backed.release_reschedule_housed (b : Backed config directory I k) {remains : Remains ε}
    (hs : k.processes.HousedIn k.heap (remains.stack?.toList.map Stack.base ++ others))
    {wasCurrent : Bool}
    (left : if wasCurrent then k.processes.Dispatchable else k.processes.Scheduled) {β : Type}
    (answer : β) :
    (do
      let k ← k.release remains
      let ((), k) ← if wasCurrent then k.reschedule else pure ((), k)
      pure (answer, k) : Run (β × Kernel ε)).Meets (fun _ => True) fun (_, k') =>
        k'.processes.HousedIn k'.heap others ∧ k.processes.Turnover k'.processes [] []
          ∧ ∀ stack ∈ remains.stack?, ¬ k'.heap.IsLive stack.base := by
  refine (b.release_housed hs).bind fun k₁ ⟨hs₁, hprocesses, hfreed⟩ => ?_
  rw [← hprocesses] at left ⊢
  cases wasCurrent with
  | false => exact Run.meets_pure ⟨hs₁, .refl hs₁.stacked, hfreed⟩
  | true =>
      refine (reschedule_quiet hs₁.stacked left).bind ?_
      rintro ⟨_, k₂⟩ ⟨hheap, tv⟩
      rw [← hheap] at hs₁ hfreed
      exact Run.meets_pure ⟨hs₁.quiet tv, tv, hfreed⟩

/-- The stack that a process leaves behind is the one that it had. -/
theorem remains_blocks (b : ControlBlock ε) :
    b.stack?.toList.map Stack.base = blocksOf b.holding?.toList := by
  rw [ControlBlock.holding?]
  cases b.stack? <;> rfl

end Kernel

/-- **A call that ends one process**, which loses its stack.  Whatever follows in the call moves no
other. -/
theorem ProcessTable.Tenure.of_ended {t t' : ProcessTable ε} {s : Slot} {b : ControlBlock ε}
    {call : KernelCall ε} {h' : Heap} (o : t.Scheduled) (st : t.Stacked) (hb : t.block? s = some b)
    {code : Int32} (hends : ∀ pid, call.Ends t pid ↔ pid = b.pid)
    (tv : (t.ended s b code).Turnover t' [] []) (freed : ∀ stack ∈ b.stack?, ¬ h'.IsLive stack.base) :
    t.Tenure call t' h' b.holding? none where
  turnover := by simpa using (st.ended hb code).trans tv
  mem_gone x hx hend := by
    obtain ⟨pid, stack⟩ := x
    obtain ⟨s', b', hb', rfl, hstack, -⟩ := st.exists_of_mem_holdings hx
    have hpid : b'.pid = b.pid := (hends _).mp hend
    -- no two slots share a pid, so the process is the one that ended
    obtain rfl := o.pid_inj s' s b.pid (hpid ▸ pidAt?_of_block? hb') (pidAt?_of_block? hb)
    obtain rfl := Option.some.inj (hb.symm.trans hb')
    rw [ControlBlock.holding?, hstack]
    rfl
  freed x hx := by
    obtain ⟨stack, hstack, rfl⟩ := Option.map_eq_some_iff.mp hx
    exact ⟨mem_holdings.mpr ⟨s, b, hb, rfl, hstack⟩, (hends _).mpr rfl, freed stack hstack⟩
  fresh x hx := by cases hx

/-- **A call that ends nobody**, because there is nobody to end: the process is gone, terminated
already, or the kernel's own. -/
theorem ProcessTable.Stacked.tenure {t : ProcessTable ε} {call : KernelCall ε} {h' : Heap}
    (st : t.Stacked) (hnone : ∀ x ∈ t.holdings, ¬ call.Ends t x.1) : t.Tenure call t h' none none where
  turnover := .refl st
  mem_gone x hx hend := absurd hend (hnone x hx)
  freed x hx := by cases hx
  fresh x hx := by cases hx

namespace Kernel

open ProcessTable

variable {config : BootConfig} {directory : PageDirectory} {I : MemoryInvariant} {clock : Nat}
  {k k' : Kernel ε} {others : List Pointer} {admits : Fault → Prop}

theorem Steady.exit_lawful (s : Steady config directory I clock k)
    (hs : k.processes.HousedIn k.heap others) (code : Int32) :
    (k.exit code).Meets (fun _ => True) fun (_, k') => k.Lawful (.exit code) others k' := by
  refine masked_lawful ?_
  have s' := s.setInterrupts false
  have hcases : (k.processes.exitCurrent code).Meets (fun _ => True) _ :=
    s.scheduled.coherent.exitCurrent_cases code
  have hleft : (k.processes.exitCurrent code).Meets (fun _ => True) _ :=
    s.scheduled.exitCurrent_meets code
  refine (hcases.and hleft).bind ?_
  rintro ⟨ended, processes⟩ ⟨hended, hleft⟩
  cases ended with
  | error cause =>
      obtain ⟨hkernel, rfl⟩ := hended
      refine Run.meets_pure ⟨hs, none, none, hs.stacked.tenure fun x hx hend => ?_⟩
      obtain ⟨-, -, -, -, -, hne, -⟩ := hs.stacked.exists_of_mem_holdings hx
      exact hne (hend.symm.trans (s.scheduled.currentPid_of_kernelSlot hkernel))
  | ok remains =>
      obtain ⟨-, b, hb, rfl, rfl⟩ := hended
      have hs₁ : (k.processes.ended k.processes.current b code).HousedIn k.heap
          (b.stack?.toList.map Stack.base ++ others) := by
        rw [remains_blocks]
        exact hs.shed (hs.stacked.ended hb code)
      have hleft' : if true then (k.processes.ended k.processes.current b code).Dispatchable
          else (k.processes.ended k.processes.current b code).Scheduled := hleft.1
      refine ((s'.toBacked.withProcesses _).release_reschedule_housed hs₁ hleft' (Except.ok ())).imp ?_
      rintro ⟨_, k'⟩ ⟨hs', tv, hfreed⟩
      refine ⟨hs', b.holding?, none, .of_ended s.scheduled hs.stacked hb (fun pid => ?_) tv hfreed⟩
      rw [KernelCall.Ends, currentPid_of_block? hb, eq_comm]

theorem Steady.kill_lawful (s : Steady config directory I clock k)
    (hs : k.processes.HousedIn k.heap others) (pid : Pid) :
    (k.kill pid).Meets (fun _ => True) fun (_, k') => k.Lawful (.kill pid) others k' := by
  refine masked_lawful ?_
  have s' := s.setInterrupts false
  have hcases : (k.processes.kill pid).Meets (fun _ => True) _ := k.processes.kill_cases pid
  have hleft : (k.processes.kill pid).Meets (fun _ => True) _ := s.scheduled.kill_meets pid
  refine (hcases.and hleft).bind ?_
  rintro ⟨ended, processes⟩ ⟨hended, hleft⟩
  match ended with
  | .error cause =>
      obtain ⟨rfl, hrefused⟩ := hended
      refine Run.meets_pure ⟨hs, none, none, hs.stacked.tenure fun x hx hend => ?_⟩
      obtain ⟨slot, b, hb, hpid, -, hne, hstate⟩ := hs.stacked.exists_of_mem_holdings hx
      have hpid' : b.pid = pid := hpid.trans hend.symm
      rcases hrefused with hkernel | hnone | ⟨slot', b', hb', hpid'', hdead⟩
      · exact hne (hend.symm.trans hkernel)
      · have hnot := List.find?_eq_none.mp hnone slot (List.mem_finRange slot)
        simp [hb, hpid'] at hnot
      · obtain rfl := s.scheduled.pid_inj slot slot' pid (hpid' ▸ pidAt?_of_block? hb)
          (hpid'' ▸ pidAt?_of_block? hb')
        obtain rfl := Option.some.inj (hb.symm.trans hb')
        exact hstate hdead
  | .ok (remains, wasCurrent) =>
      obtain ⟨-, slot, b, hb, rfl, -, rfl, -, rfl⟩ := hended
      have hs₁ : (k.processes.ended slot b killedExitCode).HousedIn k.heap
          (b.stack?.toList.map Stack.base ++ others) := by
        rw [remains_blocks]
        exact hs.shed (hs.stacked.ended hb killedExitCode)
      refine ((s'.toBacked.withProcesses _).release_reschedule_housed hs₁ hleft.1
        (Except.ok ())).imp ?_
      rintro ⟨_, k'⟩ ⟨hs', tv, hfreed⟩
      exact ⟨hs', b.holding?, none, .of_ended s.scheduled hs.stacked hb (fun pid => eq_comm) tv hfreed⟩

theorem Steady.syscall_lawful (s : Steady config directory I clock k)
    (hs : k.processes.HousedIn k.heap others) (number arg : UInt32) :
    (k.syscall number arg).Meets (fun _ => True) fun (_, k') =>
      k.Lawful (.syscall number arg) others k' := by
  have hquiet : ∀ {k' : Kernel ε}, k.Quiet k' → Syscall.ofNumber? number ≠ some .exit →
      k.Lawful (.syscall number arg) others k' := fun q hnumber =>
    q.lawful hs fun _ hend => hnumber hend.1
  have hrefl : k.Quiet k := ⟨rfl, .refl hs.stacked⟩
  unfold syscall
  cases hnumber : Syscall.ofNumber? number with
  | none => exact Run.meets_log_bind (Run.meets_pure (hquiet hrefl (by simp [hnumber])))
  | some call =>
      cases call with
      | exit =>
          refine (s.exit_lawful hs arg.toInt32).bind ?_
          rintro ⟨ended, k'⟩ ⟨hs', gone, come, tenure⟩
          have hlawful : k.Lawful (.syscall number arg) others k' :=
            ⟨hs', gone, come, tenure.congr fun pid => (and_iff_right hnumber).symm⟩
          cases ended with
          | ok => exact Run.meets_pure hlawful
          | error cause => exact Run.meets_log_bind (Run.meets_pure hlawful)
      | getPid => exact Run.meets_pure (hquiet hrefl (by simp [hnumber]))
      | yield =>
          refine (s.yield_quiet hs.stacked).bind fun (_, k') q => ?_
          exact Run.meets_pure (hquiet q (by simp [hnumber]))

end Kernel

end TinyKernel
