import TinyKernel.Proofs.Heap.Live
import TinyKernel.Proofs.Kernel.Steady

/-!
# Processes of a steady kernel

Creation, dispatch and the end of processes leave a steady kernel steady, whatever else holds of its
memory.

## What is load-bearing

A stack lies in the heap, and the heap lies below the last address.  That is why the top of a stack
can be computed, and why activation never faults (`Kernel.Backed.allocateStack_meets`).

* `Heap.Houses` — a block of the heap is a stack
* `Kernel.Steady.spawn_meets` — creation
* `Kernel.Backed.reschedule_meets` — dispatch, from any state in which there is somebody to dispatch
* `Kernel.Steady.exit_meets`, `Kernel.Steady.kill_meets`, `Kernel.Steady.block_meets` — giving up the
  processor for good, or until later
* `Kernel.yield_processes`, `Kernel.Backed.exit_processes`, `Kernel.Backed.kill_processes`,
  `Kernel.block_processes` — whatever these do to the table is what its operations and a dispatch do
-/

namespace TinyKernel

/-- **A stack lies in the heap**, in a block that is large enough, at the address that the pointer to
the block stands for.  It ends below the last address, so that a place to start at can be computed
without overflow. -/
structure Heap.Houses (h : Heap) (stack : Stack) : Prop where
  size_eq : stack.size = stackSize
  large : stackSize ≤ h.payloadSize stack.base
  virtAddrOf_eq : h.virtAddrOf stack.base = some stack.vaddr
  fits : stack.vaddr.val.toNat + stack.size < 2 ^ 32

/-- **A stack is had from a heap, or none is.**  It was not live before, and whoever has a live pointer
reads the same there as before.  This is all that creating a process says about the heap, whether or
not the heap had to grow. -/
structure Heap.Grants (h h' : Heap) (stack? : Option Stack) : Prop where
  trades : h.Trades h' (stack?.map Stack.base) none
  houses : ∀ stack ∈ stack?, h'.Houses stack
  reads : ∀ p, h.IsLive p → ∀ i < h.payloadSize p,
    h'.load ⟨p.offset + i⟩ 1 = h.load ⟨p.offset + i⟩ 1

theorem Heap.Houses.usable {h : Heap} {stack : Stack} (hs : h.Houses stack) :
    ProcessTable.Usable stack := by
  refine ProcessTable.usable_of_fits hs.fits ?_
  rw [hs.size_eq]
  decide

/-- Whoever is answered with a block knows its address, and it ends below the last one. -/
theorem Heap.Hands.virtAddrOf_ok {h : Heap} {l l' : List Block} {b : Block} {size : Nat} {p : Pointer}
    (hands : Hands l l' b size p) (s : h.Sound l') (hpos : 0 < size) :
    ∃ v, h.virtAddrOf p = some v ∧ v.val.toNat + size < 2 ^ 32 := by
  have hsize : 0 < b.size.toNat := Nat.lt_of_lt_of_le hpos hands.large
  obtain ⟨v, hv, -, hfits⟩ := s.virtAddrOf_ok (mem_allocated.mp hands.mem.1).1 hsize
  rw [← hands.pointer_eq] at hv
  exact ⟨v, hv, Nat.lt_of_le_of_lt (Nat.add_le_add_left hands.large _) hfits⟩

namespace Kernel

variable {ε : Type} {config : BootConfig} {directory : PageDirectory} {I : MemoryInvariant}
  {clock : Nat} {k : Kernel ε} {admits : Fault → Prop}

/-- An entry that is given up is on no heap and in no table. -/
theorem Backed.drop (b : Backed config directory I k) (entry : ε) :
    Backed config directory I (k.drop entry) :=
  ⟨b.config_eq, b.directory_eq, b.memory, b.start_eq, b.maxSize_eq, b.sound⟩

theorem Steady.drop (s : Steady config directory I clock k) (entry : ε) :
    Steady config directory I clock (k.drop entry) :=
  s.of_backed (s.toBacked.drop entry) rfl rfl

/-! ## Creation -/

/-- **A stack can be had, or not.**  If not, the heap may have grown, but nothing else has changed for
anybody. -/
theorem Backed.allocateStack_meets (growable : I.Growable directory config.heapPages)
    (b : Backed config directory I k) :
    k.allocateStack.Meets admits fun (stack?, k') => Backed config directory I k'
      ∧ k.heap.Grants k'.heap stack? ∧ k'.processes = k.processes ∧ k'.ticks = k.ticks := by
  refine b.withHeap_meets (P := fun stack? heap => k.heap.Grants heap stack?) fun l sound hI => ?_
  refine (sound.alloc_meets (b.keeps growable) hI stackSize).bind ?_
  rintro ⟨base?, heap, pages⟩ ⟨hI', l', e, hands⟩
  cases base? with
  | none =>
      have t := sound.trades_nothing e.sound e.start_eq e.size_le hands
      exact Run.meets_pure
        ⟨hI', ⟨t, by simp, fun _ hp _ => sound.load_eq e hands.ge hp⟩, l', e⟩
  | some base =>
      obtain ⟨c, hc⟩ := hands
      obtain ⟨t, hlarge⟩ := Heap.Sound.Hands.trades sound e hc
      obtain ⟨v, hv, hfits⟩ := hc.virtAddrOf_ok e.sound (by decide)
      dsimp only
      rw [hv, Option.map_some]
      have hreads : ∀ p, k.heap.IsLive p → ∀ i < k.heap.payloadSize p,
          heap.load ⟨p.offset + i⟩ 1 = k.heap.load ⟨p.offset + i⟩ 1 :=
        fun _ hp _ => sound.load_eq e hc.mem.2 hp
      refine Run.meets_pure ⟨hI', ⟨t, fun stack hstack => ?_, hreads⟩, l', e⟩
      obtain rfl := Option.some.inj hstack
      exact ⟨rfl, hlarge, hv, hfits⟩

/-- **A process is created, or nothing is.**  Either way the kernel is steady; the only fault is that
the pids ran out. -/
theorem Steady.spawn_meets (growable : I.Growable directory config.heapPages)
    (s : Steady config directory I clock k) (name : String) (priority : Priority) (entry : ε) :
    (k.spawn name priority entry).Meets k.processes.PidFault fun (_, k') =>
      Steady config directory I clock k' := by
  refine Steady.masked_meets (J := fun _ => I) ?_
  have s' := s.setInterrupts false
  refine (s'.scheduled.reserve_meets name priority).bind ?_
  rintro ⟨reserved, processes⟩ hreserved
  cases reserved with
  | error e =>
      obtain rfl := hreserved
      exact Run.meets_pure (s'.drop entry)
  | ok r =>
      obtain ⟨hr, htimed⟩ := hreserved
      refine ((s'.toBacked.withProcesses processes).allocateStack_meets growable).bind ?_
      rintro ⟨stack?, k₁⟩ ⟨b₁, grants, hprocesses, hticks⟩
      have s₁ : ∀ t : ProcessTable ε, t.Scheduled → (∀ now, processes.Timed now → t.Timed now) →
          Steady config directory I clock { k₁ with processes := t } := fun t ht ht' =>
        ⟨b₁.withProcesses t, hticks.trans s'.ticks_eq, ht, fun hclock =>
          ht' _ (htimed _ (s'.timed hclock))⟩
      cases stack? with
      | none =>
          simp only [hprocesses]
          have s₂ := s₁ _ hr.abandon fun now h => h.setSlot_none r.slot
          exact Run.meets_log_bind (Run.meets_pure (s₂.drop entry))
      | some stack =>
          simp only [hprocesses]
          refine (hr.activate_meets (grants.houses stack rfl).usable entry processEntryPoint).bind ?_
          rintro t ⟨ht, ht'⟩
          exact Run.meets_pure (s₁ t ht ht')

/-! ## Dispatch -/

/-- **The next process gets the processor**, and the kernel is steady again.  Before the dispatch
nobody need be running; that there is somebody to dispatch is what `Dispatchable` says. -/
theorem Backed.reschedule_meets (b : Backed config directory I k)
    (ticks_eq : k.ticks = clock % 2 ^ 64) (dispatchable : k.processes.Dispatchable)
    (timed : clock < 2 ^ 64 → k.processes.Timed clock) :
    k.reschedule.Meets (ClockFault clock) fun (_, k') => Steady config directory I clock k' := by
  have hnow : clock < 2 ^ 64 → k.ticks = clock := fun hclock =>
    ticks_eq.trans (Nat.mod_eq_of_lt hclock)
  have hfault : ∀ e, ProcessTable.TimeFault k.ticks k.processes e → ClockFault clock e := by
    rintro e ⟨rfl, hlate⟩
    refine ⟨rfl, Nat.not_lt.mp fun hclock => hlate ?_⟩
    rw [hnow hclock]
    exact ⟨hclock, timed hclock⟩
  unfold reschedule
  refine ((dispatchable.schedule_meets k.ticks).mono hfault fun _ h => h).bind ?_
  rintro ⟨switch?, processes⟩ ⟨hscheduled, htimed⟩
  have s : Steady config directory I clock { k with processes } := by
    refine ⟨b.withProcesses processes, ticks_eq, hscheduled, fun hclock => ?_⟩
    rw [hnow hclock] at htimed
    exact htimed (timed hclock)
  cases switch? with
  | none => exact Run.meets_pure s
  | some switch => exact Run.meets_pure (s.withMemory s.memory)

theorem Steady.reschedule_meets (s : Steady config directory I clock k) :
    k.reschedule.Meets (ClockFault clock) fun (_, k') => Steady config directory I clock k' :=
  s.toBacked.reschedule_meets s.ticks_eq s.scheduled.dispatchable s.timed

theorem Steady.yield_meets (s : Steady config directory I clock k) :
    k.yield.Meets (ClockFault clock) fun (_, k') => Steady config directory I clock k' := by
  refine Steady.masked_meets (J := fun _ => I) ?_
  exact (s.setInterrupts false).reschedule_meets

/-! ## Giving up the processor -/

/-- What a process leaves behind goes back to the heap, which has nothing to do with processes. -/
theorem Backed.release_meets (b : Backed config directory I k) (remains : Remains ε) :
    (k.release remains).Meets admits fun k' =>
      Backed config directory I k' ∧ k'.processes = k.processes ∧ k'.ticks = k.ticks := by
  have hdrop : ∀ k' : Kernel ε, Backed config directory I k' →
      Backed config directory I (remains.pending?.elim k' k'.drop)
        ∧ (remains.pending?.elim k' k'.drop).processes = k'.processes
        ∧ (remains.pending?.elim k' k'.drop).ticks = k'.ticks := by
    intro k' b'
    cases remains.pending? with
    | none => exact ⟨b', rfl, rfl⟩
    | some entry => exact ⟨b'.drop entry, rfl, rfl⟩
  unfold release
  cases remains.stack? with
  | none => exact Run.meets_pure (hdrop k b)
  | some stack =>
      have hfreed : (Prod.snd <$> k.freeBlock stack.base).Meets admits fun k' =>
          Backed config directory I k' ∧ k'.processes = k.processes ∧ k'.ticks = k.ticks :=
        Run.Meets.map (b.freeBlock_meets stack.base)
      refine hfreed.bind fun k' h' => ?_
      obtain ⟨b', hprocesses, hticks⟩ := h'
      obtain ⟨b'', hprocesses', hticks'⟩ := hdrop k' b'
      exact Run.meets_pure ⟨b'', hprocesses'.trans hprocesses, hticks'.trans hticks⟩

/-- **A process gave up the processor for good**: what it leaves behind is released, and the next
process is dispatched if it was the running one.  This is the common end of exit and kill. -/
theorem Backed.release_reschedule_meets (b : Backed config directory I k)
    (ticks_eq : k.ticks = clock % 2 ^ 64) (timed : clock < 2 ^ 64 → k.processes.Timed clock)
    {wasCurrent : Bool}
    (left : if wasCurrent then k.processes.Dispatchable else k.processes.Scheduled)
    (remains : Remains ε) {β : Type} (answer : β) :
    (do
      let k ← k.release remains
      let ((), k) ← if wasCurrent then k.reschedule else pure ((), k)
      pure (answer, k) : Run (β × Kernel ε)).Meets (ClockFault clock)
        fun (_, k') => Steady config directory I clock k' := by
  refine (b.release_meets remains).bind fun k' h' => ?_
  obtain ⟨b', hprocesses, hticks⟩ := h'
  rw [← hprocesses] at timed left
  cases wasCurrent with
  | false =>
      have s' : Steady config directory I clock k' :=
        ⟨b', hticks.trans ticks_eq, left, timed⟩
      exact Run.meets_pure s'
  | true =>
      refine (b'.reschedule_meets (hticks.trans ticks_eq) left timed).bind ?_
      rintro ⟨_, k''⟩ s''
      exact Run.meets_pure s''

theorem Steady.exit_meets (s : Steady config directory I clock k) (code : Int32) :
    (k.exit code).Meets (ClockFault clock) fun (_, k') => Steady config directory I clock k' := by
  refine Steady.masked_meets (J := fun _ => I) ?_
  have s' := s.setInterrupts false
  refine (s'.scheduled.exitCurrent_meets code).bind ?_
  rintro ⟨ended, processes⟩ hended
  cases ended with
  | error e =>
      obtain rfl := hended
      exact Run.meets_pure s'
  | ok remains =>
      obtain ⟨hleft, htimed⟩ := hended
      have hleft : if true then processes.Dispatchable else processes.Scheduled := hleft
      exact (s'.toBacked.withProcesses processes).release_reschedule_meets s'.ticks_eq
        (fun hclock => htimed _ (s'.timed hclock)) hleft remains (Except.ok ())

theorem Steady.kill_meets (s : Steady config directory I clock k) (pid : Pid) :
    (k.kill pid).Meets (ClockFault clock) fun (_, k') => Steady config directory I clock k' := by
  refine Steady.masked_meets (J := fun _ => I) ?_
  have s' := s.setInterrupts false
  refine (s'.scheduled.kill_meets pid).bind ?_
  rintro ⟨ended, processes⟩ hended
  cases ended with
  | error e =>
      obtain rfl := hended
      exact Run.meets_pure s'
  | ok ended =>
      obtain ⟨remains, wasCurrent⟩ := ended
      obtain ⟨hleft, htimed⟩ := hended
      exact (s'.toBacked.withProcesses processes).release_reschedule_meets s'.ticks_eq
        (fun hclock => htimed _ (s'.timed hclock)) hleft remains (Except.ok ())

/-! ## Waiting -/

theorem Steady.block_meets (s : Steady config directory I clock k) :
    k.block.Meets (ClockFault clock) fun (_, k') => Steady config directory I clock k' := by
  refine Steady.masked_meets (J := fun _ => I) ?_
  have s' := s.setInterrupts false
  refine s'.scheduled.blockCurrent_meets.bind ?_
  rintro ⟨blocked, processes⟩ hblocked
  cases blocked with
  | error e =>
      obtain rfl := hblocked
      exact Run.meets_pure s'
  | ok =>
      obtain ⟨hleft, htimed⟩ := hblocked
      refine ((s'.toBacked.withProcesses processes).reschedule_meets s'.ticks_eq hleft
        fun hclock => htimed _ (s'.timed hclock)).bind ?_
      rintro ⟨_, k'⟩ s''
      exact Run.meets_pure s''

theorem Steady.unblock_meets (s : Steady config directory I clock k) (pid : Pid) :
    (k.unblock pid).Meets admits fun (_, k') => Steady config directory I clock k' := by
  refine Steady.masked_meets (J := fun _ => I) ?_
  have s' := s.setInterrupts false
  obtain ⟨result, processes, hunblock, hscheduled, htimed⟩ := s'.scheduled.unblock_ok pid
  exact Run.meets_lift_bind hunblock (Run.meets_pure (s'.withProcesses hscheduled htimed))

/-! ## What does not switch -/

theorem Steady.reap_meets (s : Steady config directory I clock k) :
    k.reap.Meets admits fun (_, k') => Steady config directory I clock k' := by
  refine Steady.masked_meets (J := fun _ => I) ?_
  have s' := s.setInterrupts false
  refine s'.scheduled.reap_meets.bind ?_
  rintro ⟨count, processes⟩ ⟨hscheduled, htimed⟩
  exact Run.meets_pure (s'.withProcesses hscheduled htimed)

theorem Steady.takeEntry_meets (s : Steady config directory I clock k) :
    k.takeEntry.Meets admits fun (_, k') => Steady config directory I clock k' := by
  refine Steady.masked_meets (J := fun _ => I) ?_
  have s' := s.setInterrupts false
  obtain ⟨hscheduled, htimed⟩ := s'.scheduled.takeEntry
  exact Run.meets_pure (s'.withProcesses hscheduled htimed)

/-- Time passes, and nobody is charged for it before the next dispatch. -/
theorem Steady.tick (s : Steady config directory I clock k) :
    Steady config directory I (clock + 1) k.tick where
  toBacked := ⟨s.config_eq, s.directory_eq, s.memory, s.start_eq, s.maxSize_eq, s.sound⟩
  ticks_eq := by
    rw [Kernel.tick, s.ticks_eq]
    exact Nat.mod_add_mod clock (2 ^ 64) 1
  scheduled := s.scheduled
  timed hclock := (s.timed (Nat.lt_of_succ_lt hclock)).mono (Nat.le_succ clock)

theorem Steady.syscall_meets (s : Steady config directory I clock k) (number arg : UInt32) :
    (k.syscall number arg).Meets (ClockFault clock) fun (_, k') =>
      Steady config directory I clock k' := by
  unfold syscall
  cases Syscall.ofNumber? number with
  | none => exact Run.meets_log_bind (Run.meets_pure s)
  | some call =>
      cases call with
      | exit =>
          refine (s.exit_meets arg.toInt32).bind ?_
          rintro ⟨ended, k'⟩ s'
          cases ended with
          | ok => exact Run.meets_pure s'
          | error e => exact Run.meets_log_bind (Run.meets_pure s')
      | getPid => exact Run.meets_pure s
      | yield =>
          refine s.yield_meets.bind ?_
          rintro ⟨_, k'⟩ s'
          exact Run.meets_pure s'

/-! ## What becomes of the process table -/

section

variable {P : ProcessTable ε → Prop} {Q : Except ProcessError Unit → ProcessTable ε → Prop}

/-- **A masked operation** does to the table what the operation does, for the interrupt flag is not in
the table. -/
theorem masked_processes {α : Type} {op : Kernel ε → Run (α × Kernel ε)}
    (P : α → ProcessTable ε → Prop)
    (hop : (op (k.setInterrupts false)).Meets admits fun (a, k') => P a k'.processes) :
    (masked op k).Meets admits fun (a, k') => P a k'.processes :=
  masked_meets (fun a k' => P a k'.processes) (fun _ _ _ h => h) hop

theorem reschedule_processes
    (hschedule : (k.processes.schedule k.ticks).Meets admits fun (_, t) => P t) :
    k.reschedule.Meets admits fun (_, k') => P k'.processes := by
  unfold reschedule
  refine hschedule.bind ?_
  rintro ⟨switch?, t⟩ h
  cases switch? with
  | none => exact Run.meets_pure h
  | some switch => exact Run.meets_pure h

theorem yield_processes
    (hschedule : (k.processes.schedule k.ticks).Meets admits fun (_, t) => P t) :
    k.yield.Meets admits fun (_, k') => P k'.processes :=
  masked_processes (fun _ => P) (reschedule_processes hschedule)

/-- A process gave up the processor for good, and the table is what the dispatch makes of it.  The heap
is left out of the account. -/
theorem Backed.release_reschedule_processes (b : Backed config directory I k) {wasCurrent : Bool}
    (left : if wasCurrent then (k.processes.schedule k.ticks).Meets admits fun (_, t) => P t
      else P k.processes)
    (remains : Remains ε) {β : Type} (answer : β) :
    (do
      let k ← k.release remains
      let ((), k) ← if wasCurrent then k.reschedule else pure ((), k)
      pure (answer, k) : Run (β × Kernel ε)).Meets admits fun (a, k') =>
        a = answer ∧ P k'.processes := by
  refine (b.release_meets remains).bind fun k₁ h₁ => ?_
  obtain ⟨-, hprocesses, hticks⟩ := h₁
  rw [← hprocesses, ← hticks] at left
  cases wasCurrent with
  | false => exact Run.meets_pure ⟨rfl, left⟩
  | true => exact (reschedule_processes left).bind fun _ h => Run.meets_pure ⟨rfl, h⟩

/-- **The running process exits**: it leaves the table, and then somebody else is dispatched.  `Q` is
whatever is to be shown of answer and table. -/
theorem Backed.exit_processes (b : Backed config directory I k) {code : Int32}
    (hexit : (k.processes.exitCurrent code).Meets admits fun (ended, t) =>
      match ended with
      | .error cause => Q (.error cause) t
      | .ok _ => (t.schedule k.ticks).Meets admits fun (_, t') => Q (.ok ()) t') :
    (k.exit code).Meets admits fun (result, k') => Q result k'.processes := by
  refine masked_processes Q (Run.Meets.bind hexit ?_)
  rintro ⟨ended, t⟩ hended
  cases ended with
  | error cause => exact Run.meets_pure hended
  | ok remains =>
      have b' := (b.setInterrupts false).withProcesses t
      have left : if true then (t.schedule k.ticks).Meets admits _ else Q (.ok ()) t := hended
      refine (b'.release_reschedule_processes (P := Q (.ok ())) left remains (Except.ok ())).imp ?_
      rintro ⟨result, k'⟩ ⟨rfl, h⟩
      exact h

/-- **A process is killed**, and somebody else is dispatched if it was the running one.  Otherwise the
running process goes on. -/
theorem Backed.kill_processes (b : Backed config directory I k) {pid : Pid}
    (hkill : (k.processes.kill pid).Meets admits fun (ended, t) =>
      match ended with
      | .error cause => Q (.error cause) t
      | .ok (_, wasCurrent) =>
        if wasCurrent then (t.schedule k.ticks).Meets admits fun (_, t') => Q (.ok ()) t'
        else Q (.ok ()) t) :
    (k.kill pid).Meets admits fun (result, k') => Q result k'.processes := by
  refine masked_processes Q (Run.Meets.bind hkill ?_)
  rintro ⟨ended, t⟩ hended
  match ended with
  | .error cause => exact Run.meets_pure hended
  | .ok (remains, wasCurrent) =>
      have b' := (b.setInterrupts false).withProcesses t
      refine (b'.release_reschedule_processes (P := Q (.ok ())) hended remains (Except.ok ())).imp ?_
      rintro ⟨result, k'⟩ ⟨rfl, h⟩
      exact h

/-- **The running process blocks**, and then somebody else is dispatched.  No memory is involved. -/
theorem block_processes
    (hblock : k.processes.blockCurrent.Meets admits fun (blocked, t) =>
      match blocked with
      | .error cause => Q (.error cause) t
      | .ok () => (t.schedule k.ticks).Meets admits fun (_, t') => Q (.ok ()) t') :
    k.block.Meets admits fun (result, k') => Q result k'.processes := by
  refine masked_processes Q (Run.Meets.bind hblock ?_)
  rintro ⟨blocked, t⟩ hblocked
  cases blocked with
  | error cause => exact Run.meets_pure hblocked
  | ok =>
      have left : ({ k.setInterrupts false with processes := t } : Kernel ε).reschedule.Meets admits _ :=
        reschedule_processes hblocked
      exact left.bind fun _ h => Run.meets_pure h

end

end Kernel

end TinyKernel
