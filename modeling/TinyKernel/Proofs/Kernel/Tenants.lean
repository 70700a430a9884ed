import TinyKernel.Proofs.Kernel.Stacks

/-!
# The tenants of the kernel heap

Whatever a booted kernel is asked to do, each block of its heap that is allocated has one tenant: a
client, which was answered with it, or a process, whose stack it is.  A process has a stack from its
creation to its end, and the stack is freed then and at no other time.

A client has to play by one rule for this.  It frees and resizes only what it holds, unless nobody has
it: a pointer that is not live may be given back at any time, to no effect.

## What is load-bearing

That a stack was freed is not taken from the kernel's word.  It is observed: a block that was a stack
before a call is no longer live after it.  And that a stack was handed out is observed in the table.  The
two observations add up (`BlockSession.Consistent.settled`), and so no stack is freed twice and none is
forgotten.

* `BlockSession` — a kernel, what its clients hold, and the stacks that came and went
* `BlockSession.Accounted` — the books of the heap
* `Kernel.boot_stacks_owned` — they are right after every run
-/

namespace TinyKernel

variable {ε : Type}

/-! ## Clients -/

/-- **A kernel with its clients**, who share one heap with the stacks of the processes.  The books are
kept from what can be observed: answers, and the stacks in the table. -/
structure BlockSession (ε : Type) where
  kernel : Kernel ε
  /-- The pointers that clients were answered with and did not give back. -/
  held : List Pointer
  /-- The stacks that processes came by, the earliest first, each under the pid of its process. -/
  given : List (Pid × Stack)
  /-- The stacks that were freed, the earliest first. -/
  freed : List (Pid × Stack)

namespace BlockSession

/-- The clients of a kernel just booted hold nothing, and there are no stacks. -/
def ofKernel (kernel : Kernel ε) : BlockSession ε := { kernel, held := [], given := [], freed := [] }

/-- A pointer is one that clients may give back: a client holds it, or nobody does.  It must not be a
stack; there is nothing in the kernel that would protect it. -/
def mayFree (s : BlockSession ε) (p : Pointer) : Bool := p ∈ s.held || !decide (s.kernel.heap.IsLive p)

/-- **A call keeps to the rule** that clients give back what is theirs.  There is no other rule. -/
def permits (s : BlockSession ε) : KernelCall ε → Bool
  | .free p => s.mayFree p
  | .realloc (some p) _ => s.mayFree p
  | _ => true

/-- A call is made, and answered with what the clients hold from then on. -/
def request (s : BlockSession ε) : KernelCall ε → Run (List Pointer × Kernel ε)
  | .alloc size => do
    let (p?, kernel) ← s.kernel.alloc size
    pure (p?.toList ++ s.held, kernel)
  | .calloc count size => do
    let (p?, kernel) ← s.kernel.calloc count size
    pure (p?.toList ++ s.held, kernel)
  | .realloc p? size => do
    let (q?, kernel) ← s.kernel.realloc p? size
    pure (q?.toList ++ (Heap.resizedAway p? size q?).elim s.held s.held.erase, kernel)
  | .free p => do
    let (_, kernel) ← s.kernel.free p
    pure (s.held.erase p, kernel)
  | call => do
    let kernel ← s.kernel.perform call
    pure (s.held, kernel)

/-- What was observed of stacks when a call is over: those of the table that were not there before came,
and those that were there before and are no longer live were freed. -/
def settled (s : BlockSession ε) (held : List Pointer) (kernel : Kernel ε) : BlockSession ε where
  kernel
  held
  given := s.given
    ++ kernel.processes.holdings.filter fun x => x ∉ s.kernel.processes.holdings
  freed := s.freed
    ++ s.kernel.processes.holdings.filter fun x => ¬ kernel.heap.IsLive x.2.base

/-- A call is made, and the books are kept. -/
def make (s : BlockSession ε) (call : KernelCall ε) : Run (BlockSession ε) := do
  let (held, kernel) ← s.request call
  pure (s.settled held kernel)

/-- **One call**, which is made if it keeps to the rule, and is passed over otherwise. -/
def step (s : BlockSession ε) (call : KernelCall ε) : Run (BlockSession ε) :=
  if s.permits call then s.make call else pure s

/-- **Calls, one after the other.**  A fault ends the run. -/
def run (s : BlockSession ε) : List (KernelCall ε) → Run (BlockSession ε)
  | [] => pure s
  | call :: calls => do
    let s ← s.step call
    s.run calls

/-- What clients hold makes no difference to the kernel. -/
theorem kernel_request (s : BlockSession ε) (call : KernelCall ε) :
    Prod.snd <$> s.request call = s.kernel.perform call := by
  cases call <;> simp [request, Kernel.perform]

/-- A call that breaks the rule is not a timer tick, so that passing it over costs no time. -/
theorem ticks_of_not_permits {s : BlockSession ε} {call : KernelCall ε} (h : ¬ s.permits call = true) :
    call.ticks = 0 := by
  cases call <;> first | rfl | exact absurd rfl h

/-- **The books of the heap.**  Every block has a tenant, and one only: a client, or a process whose
stack it is.  No stack leaks when a process ends, and none is freed twice. -/
structure Accounted (s : BlockSession ε) : Prop where
  /-- Whether a process has a stack can be told from its pid and its state. -/
  stack_iff : ∀ b ∈ s.kernel.processes.blocks,
    b.stack?.isSome ↔ b.pid ≠ .kernel ∧ b.state ≠ .terminated
  /-- Stacks are live blocks that are large enough. -/
  stack_live : ∀ x ∈ s.kernel.processes.holdings,
    s.kernel.heap.IsLive x.2.base ∧ s.kernel.heap.Houses x.2
  held_live : ∀ p ∈ s.held, s.kernel.heap.IsLive p
  /-- No two tenants have a byte in common. -/
  apart : (s.held ++ blocksOf s.kernel.processes.holdings).Pairwise s.kernel.heap.Apart
  /-- There is no block without a tenant. -/
  blocks_eq : ∃ stats, s.kernel.heapStats = .ok stats ∧ stats.blocks = stats.freeBlocks
    + (s.held.length
      + s.kernel.processes.blocks.countP fun b => b.pid ≠ .kernel ∧ b.state ≠ .terminated)
  /-- Every stack that was ever handed out was freed, or belongs to a process: one of the two, and
  once. -/
  given_perm : s.given.Perm (s.freed ++ s.kernel.processes.holdings)
  /-- No process was given two stacks. -/
  given_nodup : (s.given.map Prod.fst).Nodup

/-! ## One call -/

open Kernel MemoryInvariant ProcessTable

/-- **The invariant of a session**: the kernel is steady, the blocks are divided between clients and
stacks, and the books of the stacks add up.  Pids in the books are below the next one, so that a new
process has no line in them. -/
structure Consistent (config : BootConfig) (directory : PageDirectory) (range : FrameRange)
    (clock : Nat) (s : BlockSession ε) : Prop where
  steady : s.kernel.Steady config directory (lending range) clock
  housed : s.kernel.processes.HousedIn s.kernel.heap s.held
  given_perm : s.given.Perm (s.freed ++ s.kernel.processes.holdings)
  given_nodup : (s.given.map Prod.fst).Nodup
  given_lt : ∀ x ∈ s.given, x.1.val < s.kernel.processes.nextPid

variable {config : BootConfig} {directory : PageDirectory} {range : FrameRange} {clock : Nat}
  {s : BlockSession ε} {call : KernelCall ε}

/-- A call by which clients neither come by blocks nor give any back. -/
theorem perform_meets (hrequest : s.request call = (do
      let kernel ← s.kernel.perform call
      pure (s.held, kernel)))
    (hperform : (s.kernel.perform call).Meets (fun _ => True) (s.kernel.Lawful call s.held)) :
    (s.request call).Meets (fun _ => True) fun (held, k') => s.kernel.Lawful call held k' := by
  rw [hrequest]
  exact hperform.bind fun k' h => Run.meets_pure h

/-- What is told apart from the rest of a balance is one side of it.  It is used for the stacks that
came, and for those that were freed. -/
theorem perm_filter_of_balance {α : Type} {l m gone come : List α} {p : α → Bool}
    (balance : (l ++ come).Perm (gone ++ m)) (hgone : ∀ x ∈ gone, p x = true)
    (hcome : ∀ x ∈ come, p x = false) (hm : ∀ x ∈ m, p x = false) : (l.filter p).Perm gone := by
  have hnil : ∀ l' : List α, (∀ x ∈ l', p x = false) → l'.filter p = [] := fun l' h =>
    List.filter_eq_nil_iff.mpr fun x hx => by simp [h x hx]
  have hfilter := balance.filter p
  rw [List.filter_append, List.filter_append, List.filter_eq_self.mpr hgone, hnil come hcome,
    hnil m hm, List.append_nil, List.append_nil] at hfilter
  exact hfilter

/-- The stacks of a table that are no longer live are those of the processes that a call ends. -/
theorem isLive_iff_not_ends {t t' : ProcessTable ε} {h' : Heap} {others : List Pointer}
    {gone come : Option (Pid × Stack)} (tenure : t.Tenure call t' h' gone come)
    (hs : t'.HousedIn h' others) {x : Pid × Stack} (hx : x ∈ t.holdings) :
    h'.IsLive x.2.base ↔ ¬ call.Ends t x.1 := by
  by_cases hgone : x ∈ gone
  · obtain ⟨-, hend, hnot⟩ := tenure.freed x hgone
    exact iff_of_false hnot (not_not_intro hend)
  · have hmem := tenure.turnover.balance.mem_iff.mp (List.mem_append_left _ hx)
    have hx' : x ∈ t'.holdings := (List.mem_append.mp hmem).resolve_left fun h =>
      hgone (Option.mem_toList.mp h)
    exact iff_of_true (hs.isLive hx') fun hend => hgone (tenure.mem_gone x hx hend)

namespace Consistent

/-- Whoever has a stack was given it. -/
theorem mem_given (c : Consistent config directory range clock s) {x : Pid × Stack}
    (hx : x ∈ s.kernel.processes.holdings) : x ∈ s.given :=
  c.given_perm.mem_iff.mpr (List.mem_append_right _ hx)

section

variable {held : List Pointer} {kernel : Kernel ε} {clock' : Nat} {gone come : Option (Pid × Stack)}
  (c : Consistent config directory range clock s)
  (tenure : s.kernel.processes.Tenure call kernel.processes kernel.heap gone come)
include c tenure

/-- Pids are not handed out twice, and so whoever comes was given no stack before. -/
theorem pid_ne_of_mem_given {x y : Pid × Stack} (hx : x ∈ s.given) (hy : y ∈ come) : x.1 ≠ y.1 := by
  intro heq
  have hlt := c.given_lt x hx
  rw [heq, (tenure.fresh y hy).1] at hlt
  exact UInt32.lt_irrefl _ hlt

theorem not_mem_given {x : Pid × Stack} (hx : x ∈ come) : x ∉ s.given := fun hmem =>
  c.pid_ne_of_mem_given tenure hmem hx rfl

/-- What is observed to be freed is what went. -/
theorem perm_gone (hs : kernel.processes.HousedIn kernel.heap held) :
    (s.kernel.processes.holdings.filter fun x => ¬ kernel.heap.IsLive x.2.base).Perm gone.toList := by
  have hcome : ∀ x ∈ come, x ∈ kernel.processes.holdings := by
    intro x hx
    have hmem := tenure.turnover.balance.mem_iff.mp
      (List.mem_append_right _ (Option.mem_toList.mpr hx))
    refine (List.mem_append.mp hmem).resolve_left fun hgone => c.not_mem_given tenure hx ?_
    exact c.mem_given (tenure.freed x (Option.mem_toList.mp hgone)).1
  refine perm_filter_of_balance tenure.turnover.balance (fun x hx => ?_) (fun x hx => ?_)
    fun x hx => ?_
  · simpa using (tenure.freed x (Option.mem_toList.mp hx)).2.2
  · simpa using hs.isLive (hcome x (Option.mem_toList.mp hx))
  · simpa using hs.isLive hx

/-- What is observed to come is what came, since a stack that is new has a pid that is new. -/
theorem perm_come :
    (kernel.processes.holdings.filter fun x => x ∉ s.kernel.processes.holdings).Perm come.toList := by
  have hbalance := tenure.turnover.balance.symm
  have hbalance' := List.perm_append_comm.trans (hbalance.trans List.perm_append_comm)
  refine perm_filter_of_balance hbalance' (fun x hx => ?_) (fun x hx => ?_) fun x hx => ?_
  · simpa using fun hmem => c.not_mem_given tenure (Option.mem_toList.mp hx) (c.mem_given hmem)
  · simpa using (tenure.freed x (Option.mem_toList.mp hx)).1
  · simpa using hx

/-- **The observations add up.**  The table before the call, with what came, is what was freed with the
table after it; what is observed to come is what came, and what is observed to be freed is what went. -/
theorem settled (steady : kernel.Steady config directory (lending range) clock')
    (hs : kernel.processes.HousedIn kernel.heap held) :
    Consistent config directory range clock' (s.settled held kernel) := by
  have hgiven : (s.settled held kernel).given.Perm (s.given ++ come.toList) :=
    (c.perm_come tenure).append_left s.given
  refine ⟨steady, hs, ?_, ?_, fun x hx => ?_⟩
  · -- each of the four balances counts one stack
    refine List.perm_iff_count.mpr fun x => ?_
    have h₁ := tenure.turnover.balance.count_eq x
    have h₂ := c.given_perm.count_eq x
    have h₃ := (c.perm_gone tenure hs).count_eq x
    have h₄ := (c.perm_come tenure).count_eq x
    simp only [BlockSession.settled, List.count_append] at h₁ h₂ h₃ h₄ ⊢
    omega
  · rw [(hgiven.map Prod.fst).nodup_iff, List.map_append]
    refine List.nodup_append.mpr ⟨c.given_nodup, by cases come <;> simp, ?_⟩
    rintro pid hpid pid' hpid' rfl
    obtain ⟨x, hx, rfl⟩ := List.mem_map.mp hpid
    obtain ⟨y, hy, heq⟩ := List.mem_map.mp hpid'
    exact c.pid_ne_of_mem_given tenure hx (Option.mem_toList.mp hy) heq.symm
  · rcases List.mem_append.mp (hgiven.mem_iff.mp hx) with hx | hx
    · exact UInt32.lt_of_lt_of_le (c.given_lt x hx) tenure.turnover.nextPid_le
    · obtain ⟨hpid, hlt⟩ := tenure.fresh x (Option.mem_toList.mp hx)
      rw [hpid]
      exact hlt

end

/-- A call that moves neither blocks nor stacks keeps everybody's books. -/
theorem quiet_meets (c : Consistent config directory range clock s)
    (hrequest : s.request call = (do
      let kernel ← s.kernel.perform call
      pure (s.held, kernel)))
    (hends : ∀ pid, ¬ call.Ends s.kernel.processes pid)
    (hperform : (s.kernel.perform call).Meets (fun _ => True) s.kernel.Quiet) :
    (s.request call).Meets (fun _ => True) fun (held, k') => s.kernel.Lawful call held k' :=
  perform_meets hrequest (hperform.imp fun _ q => q.lawful c.housed hends)

/-- A call by which clients trade blocks.  Stacks are not touched, as clients give back what is
theirs. -/
theorem trade_meets (c : Consistent config directory range clock s) {out back : Option Pointer}
    {k' : Kernel ε} (tr : s.kernel.heap.Trades k'.heap out back)
    (processes_eq : k'.processes = s.kernel.processes)
    (mine : ∀ p ∈ back, s.mayFree p = true)
    (hends : ∀ pid, ¬ call.Ends s.kernel.processes pid) :
    s.kernel.Lawful call (out.toList ++ back.elim s.held s.held.erase) k' := by
  rw [Kernel.Lawful, processes_eq]
  refine ⟨c.housed.trade tr fun p hp => c.housed.not_mem_blocksOf ?_, none, none,
    (Turnover.refl c.housed.stacked).tenure hends⟩
  simpa [mayFree] using mine p hp

/-- **Every call that keeps to the rule keeps the blocks apart**, and frees the stack of the process
that it ends. -/
theorem request_meets (c : Consistent config directory range clock s) (hcall : s.permits call = true) :
    (s.request call).Meets (fun _ => True) fun (held, k') => s.kernel.Lawful call held k' := by
  have growable := lending_growable range directory config.heapPages
  have steady := c.steady
  have stacked := c.housed.stacked
  have huntouched : call.touchesPages = true →
      (s.kernel.perform call).Meets (fun _ => True) s.kernel.Quiet :=
    perform_quiet_of_touchesPages stacked
  cases call with
  | alloc size =>
      refine (steady.alloc_trades growable size).bind fun (p?, k') ⟨tr, hprocesses⟩ => ?_
      exact Run.meets_pure (c.trade_meets tr hprocesses (by simp) fun _ => id)
  | calloc count size =>
      refine (steady.calloc_trades growable count size).bind fun (p?, k') ⟨tr, hprocesses⟩ => ?_
      exact Run.meets_pure (c.trade_meets tr hprocesses (by simp) fun _ => id)
  | realloc p? size =>
      refine (steady.realloc_trades growable p? size).bind fun (q?, k') ⟨tr, hprocesses⟩ => ?_
      refine Run.meets_pure (c.trade_meets tr hprocesses (fun p hp => ?_) fun _ => id)
      obtain rfl := Heap.eq_of_mem_resizedAway hp
      exact hcall
  | free p =>
      refine (steady.free_trades p).bind fun (_, k') ⟨tr, hprocesses⟩ => ?_
      refine Run.meets_pure (c.trade_meets tr hprocesses (fun q hq => ?_) fun _ => id)
      obtain rfl := Option.some.inj hq
      exact hcall
  | store p v n =>
      refine (steady.store_trades p v n).bind fun k' ⟨tr, hprocesses⟩ => ?_
      exact Run.meets_pure (c.trade_meets tr hprocesses (by simp) fun _ => id)
  | spawn name priority entry =>
      refine perform_meets rfl (Run.Meets.map ?_)
      exact (steady.spawn_lawful growable c.housed name priority entry).mono (fun _ _ => trivial)
        fun _ h => h.1
  | exit code => exact perform_meets rfl (Run.Meets.map (steady.exit_lawful c.housed code))
  | kill pid => exact perform_meets rfl (Run.Meets.map (steady.kill_lawful c.housed pid))
  | syscall number arg =>
      exact perform_meets rfl (Run.Meets.map (steady.syscall_lawful c.housed number arg))
  | yield => exact c.quiet_meets rfl (fun _ => id) (Run.Meets.map (steady.yield_quiet stacked))
  | block => exact c.quiet_meets rfl (fun _ => id) (Run.Meets.map (steady.block_quiet stacked))
  | unblock pid =>
      exact c.quiet_meets rfl (fun _ => id) (Run.Meets.map (steady.unblock_quiet stacked pid))
  | reap => exact c.quiet_meets rfl (fun _ => id) (Run.Meets.map (reap_quiet stacked))
  | takeEntry =>
      exact c.quiet_meets rfl (fun _ => id) (Run.Meets.map (steady.takeEntry_quiet stacked))
  | tick => exact c.quiet_meets rfl (fun _ => id) (Run.meets_pure ⟨rfl, .refl stacked⟩)
  | allocFrame => exact c.quiet_meets rfl (fun _ => id) (huntouched rfl)
  | freeFrame address => exact c.quiet_meets rfl (fun _ => id) (huntouched rfl)
  | createDirectory => exact c.quiet_meets rfl (fun _ => id) (huntouched rfl)
  | switchDirectory d => exact c.quiet_meets rfl (fun _ => id) (huntouched rfl)
  | map d address target flags => exact c.quiet_meets rfl (fun _ => id) (huntouched rfl)
  | unmap d address => exact c.quiet_meets rfl (fun _ => id) (huntouched rfl)

/-- **One call** keeps to the invariant; the stacks that are freed in it are those of the processes that
it ends. -/
theorem make_meets (c : Consistent config directory range clock s) (hcall : s.permits call = true) :
    (s.make call).Meets (CounterFault clock s.kernel) fun s' =>
      Consistent config directory range (clock + call.ticks) s'
        ∧ s'.freed = s.freed
          ++ s.kernel.processes.holdings.filter fun x => call.Ends s.kernel.processes x.1 := by
  have hsteady : (Prod.snd <$> s.request call).Meets (CounterFault clock s.kernel)
      (Steady config directory (lending range) (clock + call.ticks)) := by
    rw [kernel_request]
    exact c.steady.perform_meets call
  refine (hsteady.of_map.and (c.request_meets hcall)).bind ?_
  rintro ⟨held, kernel⟩ ⟨steady, hs, gone, come, tenure⟩
  refine Run.meets_pure ⟨c.settled tenure steady hs, congrArg (s.freed ++ ·) ?_⟩
  refine List.filter_congr fun x hx => ?_
  rw [decide_eq_decide, isLive_iff_not_ends tenure hs hx, not_not]

theorem step_meets (c : Consistent config directory range clock s) (call : KernelCall ε) :
    (s.step call).Meets (CounterFault clock s.kernel)
      (Consistent config directory range (clock + call.ticks)) := by
  unfold step
  split
  case isTrue hcall => exact (c.make_meets hcall).imp fun s' h => h.1
  case isFalse hcall =>
    rw [ticks_of_not_permits hcall]
    exact Run.meets_pure c

theorem run_meets (c : Consistent config directory range clock s) (calls : List (KernelCall ε)) :
    (s.run calls).Meets (fun e => e = .overflow .add)
      (Consistent config directory range (clock + ticksOf calls)) := by
  induction calls generalizing s clock with
  | nil => exact Run.meets_pure c
  | cons call calls ih =>
      rw [add_ticksOf_cons]
      exact ((c.step_meets call).mono CounterFault.eq_overflow fun _ h => h).bind fun _ c' => ih c'

/-- A kernel just booted has no tenants: its heap is one free block. -/
theorem ofKernel {kernel : Kernel ε} {b : Block} {kernelDirectory : PhysAddr}
    (steady : kernel.Steady config directory (lending range) clock) (hfree : b.free = true)
    (sound : kernel.heap.Sound [b]) (hprocesses : kernel.processes = .new kernelDirectory) :
    Consistent config directory range clock (.ofKernel kernel) := by
  obtain ⟨stacked, hnil⟩ := new_stacked (ε := ε) kernelDirectory
  rw [← hprocesses] at stacked hnil
  have howned : kernel.heap.OwnedBy [] := sound.ownedBy_nil (by simpa using hfree)
  refine ⟨steady, ⟨stacked, ?_, ?_⟩, ?_, List.nodup_nil, fun x hx => by cases hx⟩
  · show kernel.heap.OwnedBy ([] ++ blocksOf kernel.processes.holdings)
    rw [hnil]
    exact howned
  · show ∀ x ∈ kernel.processes.holdings, kernel.heap.Houses x.2
    simp [hnil]
  · show [].Perm ([] ++ kernel.processes.holdings)
    rw [hnil]
    exact .refl _

/-- **The invariant makes the books right.**  That no two tenants overlap comes from the heap, and that
nobody was forgotten from the number of its blocks. -/
theorem accounted (c : Consistent config directory range clock s) : s.Accounted := by
  obtain ⟨l, sound⟩ := c.steady.sound
  have howned := c.housed.owned
  refine ⟨fun b hb => ?_, fun x hx => ⟨c.housed.isLive hx, c.housed.houses x hx⟩, fun p hp => ?_,
    sound.pairwise_apart howned, ?_, c.given_perm, c.given_nodup⟩
  · obtain ⟨slot, hb⟩ := mem_blocks.mp hb
    exact c.housed.stacked.isSome_stack?_iff c.steady.scheduled hb
  · exact (howned.isLive_iff p).mpr (List.mem_append_left _ hp)
  · obtain ⟨stats, hstats, hblocks⟩ := sound.stats_owned howned
    refine ⟨stats, hstats, hblocks.trans ?_⟩
    rw [List.length_append, blocksOf, List.length_map,
      c.housed.stacked.length_holdings c.steady.scheduled]

end Consistent

end BlockSession

namespace Kernel

open MemoryInvariant

/-- **The blocks of the kernel heap have one tenant each**, in every run of a booted kernel in which the
clients keep to the rule.  The books are right; a call frees the stacks of those processes that it ends,
and no others; and whoever is created starts inside its own stack, where no sum overflows: creation
faults only if the pids ran out. -/
theorem boot_stacks_owned (machine : Machine) (config : BootConfig) :
    (boot machine config : Run (Kernel ε)).Meets (fun _ => True) fun k =>
      ∀ calls : List (KernelCall ε), ((BlockSession.ofKernel k).run calls).Meets
        (fun e => e = .overflow .add) fun s =>
          s.Accounted
            ∧ (∀ call, s.permits call = true →
              (s.make call).Meets (CounterFault (ticksOf calls) s.kernel) fun s' =>
                s'.freed = s.freed
                  ++ s.kernel.processes.holdings.filter fun x => call.Ends s.kernel.processes x.1)
            ∧ ∀ name priority entry,
              (s.kernel.spawn name priority entry).Meets s.kernel.processes.PidFault
                fun (result, k') => ∀ pid, result = .ok pid → k'.processes.Begun pid := by
  have hboot := boot_fresh (ε := ε)
    (I := fun _ => lending (.ofMemory config.memoryTop config.reservedTop)) machine config
    lending_start fun directory => lending_growable _ directory _
  refine hboot.imp fun k ⟨steady, ⟨b, hfree, sound, _⟩, hprocesses, _⟩ calls => ?_
  have c := BlockSession.Consistent.ofKernel steady hfree sound hprocesses
  refine (c.run_meets calls).imp fun s c => ⟨c.accounted, fun call hcall => ?_,
    fun name priority entry => ?_⟩
  · rw [Nat.zero_add] at c
    exact (c.make_meets hcall).imp fun s' h => h.2
  · exact (c.steady.spawn_lawful (lending_growable _ _ _) c.housed name priority entry).imp
      fun _ h => h.2

end Kernel

end TinyKernel
