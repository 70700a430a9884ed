import TinyKernel.Proofs.Kernel.Boot
import TinyKernel.Proofs.Kernel.Entries
import TinyKernel.Proofs.Kernel.RoundRobin
import TinyKernel.Proofs.Process.Draining

/-!
# The driver runs every entry once

The driver runs the entry of whoever is running, which exits then; and when the kernel's own process is
running, which has no entry, it gives up the processor until nobody else is left.  It comes to an end if
everybody who runs or is ready has still to run its entry, and if entries do nothing but print and use
the heap.

## What is load-bearing

Giving up the processor makes no progress by itself.  But the kernel's process gives it up once at most:
it goes to the end of the line, and whoever stands before it has an entry and exits.  So the line falls
into two parts, before and behind the kernel's process, and the induction is on the one and then on the
other.

* `HeapProgram` — an entry that prints and uses the heap
* `Kernel.driveLog` — the driver, and who ran which entry
* `Kernel.Awaiting.runCurrent_meets` — the running process runs its entry and exits
* `Kernel.Awaiting.driveLog_last`, `Kernel.Awaiting.driveLog_meets` — the kernel's process at the end of the
  line, and anywhere in it
* `Kernel.boot_driver_finishes` — in every run of a booted kernel
* `Kernel.boot_creations_pending`, `Kernel.boot_spawns_first` — runs of creations, after which the driver
  can start
-/

namespace TinyKernel

open Function

variable {ε : Type}

/-! ## Entries -/

/-- **What an entry does that prints and uses the heap.**  Each step may depend on what the steps
before were answered with.  It cannot create, yield or exit; so the process that runs it is the same
from its first step to its last. -/
inductive HeapProgram where
  | done
  | print (text : String) (next : HeapProgram)
  | currentPid (next : Pid → HeapProgram)
  | alloc (size : Nat) (next : Option Pointer → HeapProgram)
  | calloc (count size : Nat) (next : Option Pointer → HeapProgram)
  | realloc (p? : Option Pointer) (size : Nat) (next : Option Pointer → HeapProgram)
  | free (p : Pointer) (next : Bool → HeapProgram)

/-- **Runs an entry** on a kernel, call by call.  It always ends, since a program is a finite tree. -/
def HeapProgram.run : HeapProgram → Kernel ε → Run (Unit × Kernel ε)
  | done, k => pure ((), k)
  | print text next, k => do
    Run.print text
    next.run k
  | currentPid next, k => (next k.currentPid).run k
  | alloc size next, k => do
    let (p?, k) ← k.alloc size
    (next p?).run k
  | calloc count size next, k => do
    let (p?, k) ← k.calloc count size
    (next p?).run k
  | realloc p? size next, k => do
    let (q?, k) ← k.realloc p? size
    (next q?).run k
  | free p next, k => do
    let (freed, k) ← k.free p
    (next freed).run k

/-- The entry of a process, run as its program says.  The kernel's entries may be of any type, and
`code` gives them their programs. -/
def HeapProgram.follow (code : ε → HeapProgram) (entry : ε) (k : Kernel ε) : Run (Unit × Kernel ε) :=
  (code entry).run k

/-! ## The log of the driver -/

namespace Kernel

/-- Runs an entry, and says who ran it, which is who was running when it began. -/
def attended (run : ε → Kernel ε → Run (Unit × Kernel ε)) (entry : ε) (k : Kernel ε) :
    Run ((Pid × ε) × Kernel ε) := do
  let ((), k') ← run entry k
  pure ((k.currentPid, entry), k')

/-- **The driver, and who ran which entry**, the earliest first.  It is the driver's own loop, with a
list that grows by one for each entry. -/
def driveLog (run : ε → Kernel ε → Run (Unit × Kernel ε)) :
    Nat → Kernel ε → Run (Bool × List (Pid × ε) × Kernel ε)
  | 0, k => pure (false, [], k)
  | rounds + 1, k => do
    match ← k.runCurrent (attended run) with
    | (some ran, k) =>
      let (complete, log, k) ← driveLog run rounds k
      pure (complete, ran :: log, k)
    | (none, k) =>
      if k.currentPid = .kernel ∧ k.readyPids.isEmpty then
        pure (true, [], k)
      else
        let ((), k) ← k.yield
        driveLog run rounds k

/-- What is written down of an entry makes no difference to it. -/
theorem runCurrent_attended (run : ε → Kernel ε → Run (Unit × Kernel ε)) (k : Kernel ε) :
    (fun (ran?, k') => (ran?.map fun _ => (), k')) <$> k.runCurrent (attended run)
      = k.runCurrent run := by
  unfold runCurrent attended
  rw [map_bind]
  congr 1
  funext ⟨taken?, k₁⟩
  cases taken? with
  | none => rfl
  | some entry =>
      simp only [map_bind, bind_assoc, pure_bind]
      congr 1
      funext ⟨_, k₂⟩
      congr 1
      funext ⟨ended, k₃⟩
      cases ended <;> simp

/-- **The log makes no difference to the driver**: it does the same on any kernel, in as many rounds.
What is proved of the log is therefore proved of the driver. -/
theorem driveLog_drive (run : ε → Kernel ε → Run (Unit × Kernel ε)) (rounds : Nat) (k : Kernel ε) :
    (fun (complete, _, k') => (complete, k')) <$> k.driveLog run rounds = k.drive run rounds := by
  induction rounds generalizing k with
  | zero => rfl
  | succ rounds ih =>
      rw [driveLog, drive, ← runCurrent_attended, map_bind, bind_map_left]
      congr 1
      funext ⟨ran?, k₁⟩
      cases ran? with
      | some ran => simp [← ih]
      | none =>
          dsimp only [Option.map_none]
          split
          · rfl
          · rw [map_bind]
            simp only [ih]

open ProcessTable

variable {config : BootConfig} {directory : PageDirectory} {I : MemoryInvariant} {clock : Nat}
  {k k' : Kernel ε} {held : Pid → Option ε} {run : ε → Kernel ε → Run (Unit × Kernel ε)} {rounds : Nat}
  {pid : Pid} {pids before behind : List Pid} {entry : ε}

/-! ## What entries leave alone -/

/-- **Who an operation leaves alone**: everybody.  The kernel stays steady, and its process table is
the same. -/
def Spares (config : BootConfig) (directory : PageDirectory) (I : MemoryInvariant) (clock : Nat)
    (k k' : Kernel ε) : Prop :=
  Steady config directory I clock k' ∧ k'.processes = k.processes

/-- **Entries that leave everybody alone**, and do not fault.  It is all that the loop needs to know of
them. -/
def Harmless (config : BootConfig) (directory : PageDirectory) (I : MemoryInvariant)
    (run : ε → Kernel ε → Run (Unit × Kernel ε)) : Prop :=
  ∀ entry clock k, Steady config directory I clock k →
    (run entry k).Meets (fun _ => False) fun (_, k') => Spares config directory I clock k k'

/-- **A heap operation, and what follows** on its answer.  Each step of a program is of this form. -/
theorem spares_bind {α : Type} {op : Run (α × Kernel ε)} {next : α → Kernel ε → Run (Unit × Kernel ε)}
    (hsteady : op.Meets (fun _ => False) fun (_, k') => Steady config directory I clock k')
    (hsame : op.Meets (fun _ => True) fun (_, k') => k.SameProcesses k')
    (hnext : ∀ a {k' : Kernel ε}, Steady config directory I clock k' →
      (next a k').Meets (fun _ => False) fun (_, k'') => Spares config directory I clock k' k'') :
    (do
      let (a, k') ← op
      next a k').Meets (fun _ => False) fun (_, k'') => Spares config directory I clock k k'' := by
  refine (hsteady.and hsame).bind fun (a, k') ⟨s', hprocesses, _⟩ => ?_
  refine (hnext a s').imp fun (_, k'') ⟨s'', hprocesses'⟩ => ?_
  exact ⟨s'', hprocesses'.trans hprocesses⟩

/-- **Entries that use the heap leave everybody alone**, by induction on the entry.  Whether the heap
has room for what they ask does not matter. -/
theorem Steady.runProgram_meets (growable : I.Growable directory config.heapPages)
    (s : Steady config directory I clock k) (program : HeapProgram) :
    (program.run k).Meets (fun _ => False) fun (_, k') => Spares config directory I clock k k' := by
  induction program generalizing k with
  | done => exact Run.meets_pure ⟨s, rfl⟩
  | print text next ih =>
      have hprint : (Run.print text).Meets (fun _ => False) fun _ => True := fun _ => trivial
      exact hprint.bind fun _ _ => ih s
  | currentPid next ih => exact ih k.currentPid s
  | alloc size next ih =>
      exact spares_bind (s.alloc_meets growable size) (k.withHeap_sameProcesses _) fun p? _ => ih p?
  | calloc count size next ih =>
      exact spares_bind (s.calloc_meets growable count size) (k.withHeap_sameProcesses _)
        fun p? _ => ih p?
  | realloc p? size next ih =>
      exact spares_bind (s.realloc_meets growable p? size) (k.withHeap_sameProcesses _)
        fun q? _ => ih q?
  | free p next ih =>
      exact spares_bind (s.free_meets p) (k.free_sameProcesses p) fun freed _ => ih freed

/-! ## One round -/

/-- Who stands first in line is running, and the others are ready, in this order. -/
theorem of_lineup_eq_cons (h : k.lineup = pid :: pids) : k.currentPid = pid ∧ k.readyPids = pids :=
  List.cons.inj h

/-- **What a round starts from**: who stands in line, and who holds which entry.  The line may be
written as it is convenient, with the kernel's own process at its place. -/
structure Awaiting (config : BootConfig) (directory : PageDirectory) (I : MemoryInvariant)
    (clock : Nat) (held : Pid → Option ε) (line : List Pid) (k : Kernel ε) : Prop where
  steady : Steady config directory I clock k
  entrusts : k.processes.Entrusts held
  lineup_eq : k.lineup = line

/-- Handing out leaves the line as it is, whatever becomes of the entry.  From then on its process
holds none. -/
theorem Awaiting.takeEntry_meets {line : List Pid}
    (a : Awaiting config directory I clock held line k) :
    k.takeEntry.Meets (fun _ => False) fun (taken?, k') => taken? = held k.currentPid
      ∧ Awaiting config directory I clock (update held k.currentPid none) line k'
      ∧ k.processes.Drains k'.processes := by
  have s := a.steady
  have hprocesses : k.takeEntry.Meets (fun _ => True) fun (_, k') =>
      k'.lineup = k.lineup ∧ k.processes.Drains k'.processes :=
    masked_processes (fun _ t => t.lineup = k.lineup ∧ k.processes.Drains t)
      (Run.meets_pure ⟨s.scheduled.lineup_takeEntry, s.scheduled.takeEntry_drains⟩)
  refine ((s.takeEntry_meets.and (s.takeEntry_hands a.entrusts)).and hprocesses).imp ?_
  rintro ⟨taken?, k'⟩ ⟨⟨s', hentry, entrusts, -⟩, hline, drains⟩
  exact ⟨hentry, ⟨s', entrusts, hline.trans a.lineup_eq⟩, drains⟩

/-- **The running process exits**, if it is not the kernel's own, and the queue moves up.  It is not
put back in line. -/
theorem Awaiting.exit_meets (a : Awaiting config directory I clock held (pid :: pids) k)
    (hpid : pid ≠ .kernel) :
    (k.exit 0).Meets (ClockFault clock) fun (_, k') =>
      Awaiting config directory I clock (update held pid none) pids k'
        ∧ k.processes.Drains k'.processes := by
  have s := a.steady
  obtain ⟨hcurrent, -⟩ := of_lineup_eq_cons a.lineup_eq
  have hdrains : (k.exit 0).Meets (fun _ => True) fun (_, k') =>
      k.processes.Drains k'.processes := by
    refine s.toBacked.exit_processes (Q := fun _ t => k.processes.Drains t) ?_
    refine (s.scheduled.exitCurrent_drains k.ticks).imp ?_
    rintro ⟨ended, t⟩ hended
    cases ended with
    | error cause =>
        obtain rfl := hended
        exact .refl _
    | ok remains => exact hended
  refine (((s.exit_meets 0).and (s.exit_lineup 0)).and ((s.exit_closes a.entrusts 0).and hdrains)).imp ?_
  rintro ⟨ended, k'⟩ ⟨⟨s', hline'⟩, closes, drains⟩
  have entrusts := closes.entrusts
  rw [hcurrent] at entrusts
  refine ⟨⟨s', entrusts, hline'.trans ?_⟩, drains⟩
  show departed k.lineup = pids
  rw [a.lineup_eq]
  exact if_neg hpid

/-- **The running process runs its entry and exits.**  As the entry leaves everybody alone, it is the
same process that exits. -/
theorem Awaiting.runCurrent_meets (a : Awaiting config directory I clock held (pid :: pids) k)
    (hrun : Harmless config directory I run)
    (hpid : pid ≠ .kernel) (hheld : held pid = some entry) :
    (k.runCurrent (attended run)).Meets (ClockFault clock) fun (ran?, k') =>
      ran? = some (pid, entry) ∧ Awaiting config directory I clock (update held pid none) pids k'
        ∧ k.processes.Drains k'.processes := by
  obtain ⟨hcurrent, -⟩ := of_lineup_eq_cons a.lineup_eq
  unfold runCurrent
  refine (a.takeEntry_meets.mono (fun _ => False.elim) fun _ h => h).bind ?_
  rintro ⟨taken?, k₁⟩ ⟨hentry, a₁, drains₁⟩
  rw [hcurrent] at hentry a₁
  obtain rfl := hentry.trans hheld
  obtain ⟨hcurrent₁, -⟩ := of_lineup_eq_cons a₁.lineup_eq
  have hattended : (attended run entry k₁).Meets (ClockFault clock) fun (ran, k₂) =>
      ran = (pid, entry) ∧ Spares config directory I clock k₁ k₂ := by
    refine ((hrun entry clock k₁ a₁.steady).mono (fun _ => False.elim) fun _ h => h).bind ?_
    rintro ⟨_, k₂⟩ spares
    exact Run.meets_pure ⟨congrArg (·, entry) hcurrent₁, spares⟩
  refine hattended.bind ?_
  rintro ⟨ran, k₂⟩ ⟨rfl, s₂, hprocesses⟩
  have a₂ : Awaiting config directory I clock (update held pid none) (pid :: pids) k₂ :=
    ⟨s₂, hprocesses ▸ a₁.entrusts, (congrArg ProcessTable.lineup hprocesses).trans a₁.lineup_eq⟩
  refine (a₂.exit_meets hpid).bind ?_
  rintro ⟨ended, k₃⟩ ⟨a₃, drains₃⟩
  rw [update_idem] at a₃
  have drains : k.processes.Drains k₃.processes := drains₁.trans (hprocesses ▸ drains₃)
  cases ended with
  | error cause => exact Run.meets_log_bind (Run.meets_pure ⟨rfl, a₃, drains⟩)
  | ok => exact Run.meets_pure ⟨rfl, a₃, drains⟩

/-- **The kernel's own process has nothing to run**, and nothing changes by asking. -/
theorem Awaiting.runCurrent_kernel (a : Awaiting config directory I clock held (.kernel :: behind) k) :
    (k.runCurrent (attended run)).Meets (fun _ => False) fun (ran?, k') =>
      ran? = none ∧ Awaiting config directory I clock held (.kernel :: behind) k'
        ∧ k.processes.Drains k'.processes := by
  obtain ⟨hcurrent, -⟩ := of_lineup_eq_cons a.lineup_eq
  have hnone := a.entrusts.kernel_eq_none
  unfold runCurrent
  refine a.takeEntry_meets.bind ?_
  rintro ⟨taken?, k₁⟩ ⟨hentry, a₁, drains₁⟩
  rw [hcurrent] at hentry a₁
  rw [update_eq_self_iff.mpr hnone.symm] at a₁
  obtain rfl := hentry.trans hnone
  exact Run.meets_pure ⟨rfl, a₁, drains₁⟩

/-- **Giving up the processor** moves the head of the line to its end.  The driver does it only as the
kernel's own process. -/
theorem Awaiting.yield_meets (a : Awaiting config directory I clock held (pid :: pids) k) :
    k.yield.Meets (ClockFault clock) fun (_, k') =>
      Awaiting config directory I clock held (pids ++ [pid]) k'
        ∧ k.processes.Drains k'.processes := by
  have s := a.steady
  have hdrains : k.yield.Meets (fun _ => True) fun (_, k') => k.processes.Drains k'.processes :=
    yield_processes (s.scheduled.schedule_drains k.ticks)
  refine ((s.yield_meets.and s.yield_turned).and ((s.yield_closes a.entrusts).and hdrains)).imp ?_
  rintro ⟨_, k'⟩ ⟨⟨s', turned⟩, closes, drains⟩
  have hline : k'.lineup = k.lineup.rotate 1 := turned.lineup_eq s.scheduled s'.scheduled
  rw [a.lineup_eq, List.rotate_cons_succ, List.rotate_zero] at hline
  exact ⟨⟨s', closes.entrusts, hline⟩, drains⟩

/-! ## The loop -/

/-- **Everybody in line holds an entry**, but for the kernel's own process. -/
def Laden (held : Pid → Option ε) (line : List Pid) : Prop :=
  ∀ pid ∈ line, pid ≠ .kernel → held pid ≠ none

/-- Whoever runs its entry is gone from the line, and the others hold what they held. -/
theorem Laden.tail (h : Laden held (pid :: pids)) (hnodup : (pid :: pids).Nodup) :
    Laden (update held pid none) pids := by
  intro other hother hne
  have hother' : other ≠ pid := by
    rintro rfl
    exact (List.nodup_cons.mp hnodup).1 hother
  rw [update_of_ne hother']
  exact h other (List.mem_cons_of_mem _ hother) hne

/-- **The driver is through** with some processes, each of which ran the entry that it held; only the
kernel's own is left.  This is said of the processes by pid, and `Finished` says it of what a client
sees. -/
structure Through (k : Kernel ε) (held : Pid → Option ε) (pids : List Pid) (complete : Bool)
    (log : List (Pid × ε)) (k' : Kernel ε) : Prop where
  complete_eq : complete = true
  pids_eq : log.map Prod.fst = pids
  own : ∀ x ∈ log, held x.1 = some x.2
  lineup_eq : k'.lineup = [.kernel]
  drains : k.processes.Drains k'.processes
  scheduled : k'.processes.Scheduled

/-- Somebody ran its entry before, and the driver was through with the others then. -/
theorem Through.cons {complete : Bool} {log : List (Pid × ε)} {k₁ : Kernel ε}
    (h : k₁.Through (update held pid none) pids complete log k') (hheld : held pid = some entry)
    (drains : k.processes.Drains k₁.processes) :
    k.Through held (pid :: pids) complete ((pid, entry) :: log) k' where
  complete_eq := h.complete_eq
  pids_eq := congrArg (pid :: ·) h.pids_eq
  own x hx := by
    rcases List.mem_cons.mp hx with rfl | hx
    · exact hheld
    · have hown := h.own x hx
      have hne : x.1 ≠ pid := by
        intro heq
        rw [heq, update_self] at hown
        cases hown
      rwa [update_of_ne hne] at hown
  lineup_eq := h.lineup_eq
  drains := drains.trans h.drains
  scheduled := h.scheduled

/-- The driver was not through before, and what has happened since ran no entry. -/
theorem Through.of_drains {complete : Bool} {log : List (Pid × ε)} {k₁ : Kernel ε}
    (h : k₁.Through held pids complete log k') (drains : k.processes.Drains k₁.processes) :
    k.Through held pids complete log k' :=
  { h with drains := drains.trans h.drains }

section

variable (hrun : Harmless config directory I run)
include hrun

/-- **A round that runs an entry**, and the rounds after it.  The line is one shorter for them. -/
theorem Awaiting.driveLog_cons {line : List Pid}
    (a : Awaiting config directory I clock held (pid :: line) k) (hmem : .kernel ∈ line)
    (laden : Laden held (pid :: line))
    (hrest : ∀ {k₁ : Kernel ε}, Awaiting config directory I clock (update held pid none) line k₁ →
      Laden (update held pid none) line →
      (k₁.driveLog run rounds).Meets (ClockFault clock) fun (complete, log, k') =>
        k₁.Through (update held pid none) pids complete log k') :
    (k.driveLog run (rounds + 1)).Meets (ClockFault clock) fun (complete, log, k') =>
      k.Through held (pid :: pids) complete log k' := by
  have hnodup : k.lineup.Nodup := a.steady.scheduled.lineup_nodup
  rw [a.lineup_eq] at hnodup
  have hpid : pid ≠ .kernel := by
    rintro rfl
    exact (List.nodup_cons.mp hnodup).1 hmem
  obtain ⟨entry, hheld⟩ := Option.ne_none_iff_exists'.mp (laden pid List.mem_cons_self hpid)
  refine (a.runCurrent_meets hrun hpid hheld).bind ?_
  rintro ⟨ran?, k₁⟩ ⟨rfl, a₁, drains⟩
  refine (hrest a₁ (laden.tail hnodup)).bind ?_
  rintro ⟨complete, log, k'⟩ through
  exact Run.meets_pure (through.cons hheld drains)

omit hrun in
/-- **The round in which the driver stops**: nobody but the kernel's own process is left.  Nothing is
changed by it. -/
theorem Awaiting.driveLog_alone (a : Awaiting config directory I clock held [.kernel] k) :
    (k.driveLog run (rounds + 1)).Meets (ClockFault clock) fun (complete, log, k') =>
      k.Through held [] complete log k' := by
  refine (a.runCurrent_kernel.mono (fun _ => False.elim) fun _ h => h).bind ?_
  rintro ⟨ran?, k₁⟩ ⟨rfl, a₁, drains⟩
  obtain ⟨hcurrent, hready⟩ := of_lineup_eq_cons a₁.lineup_eq
  dsimp only
  rw [if_pos ⟨hcurrent, List.isEmpty_iff.mpr hready⟩]
  exact Run.meets_pure ⟨rfl, rfl, by simp, a₁.lineup_eq, drains, a₁.steady.scheduled⟩

omit hrun in
/-- **A round in which the kernel's own process gives up the processor**, and the rounds after it.  It
happens once at most, for then it stands last in line. -/
theorem Awaiting.driveLog_yield
    (a : Awaiting config directory I clock held (.kernel :: behind) k) (hne : behind ≠ [])
    (hrest : ∀ {k₁ : Kernel ε}, Awaiting config directory I clock held (behind ++ [.kernel]) k₁ →
      (k₁.driveLog run rounds).Meets (ClockFault clock) fun (complete, log, k') =>
        k₁.Through held pids complete log k') :
    (k.driveLog run (rounds + 1)).Meets (ClockFault clock) fun (complete, log, k') =>
      k.Through held pids complete log k' := by
  refine (a.runCurrent_kernel.mono (fun _ => False.elim) fun _ h => h).bind ?_
  rintro ⟨ran?, k₁⟩ ⟨rfl, a₁, drains₁⟩
  obtain ⟨-, hready⟩ := of_lineup_eq_cons a₁.lineup_eq
  dsimp only
  rw [if_neg fun h => hne (hready ▸ List.isEmpty_iff.mp h.2)]
  refine a₁.yield_meets.bind ?_
  rintro ⟨_, k₂⟩ ⟨a₂, drains₂⟩
  exact (hrest a₂).imp fun _ through => through.of_drains (drains₁.trans drains₂)

/-- **The kernel's own process at the end of the line**, by induction on those who stand before it. -/
theorem Awaiting.driveLog_last (a : Awaiting config directory I clock held (before ++ [.kernel]) k)
    (laden : Laden held (before ++ [.kernel])) (spare : Nat) :
    (k.driveLog run (spare + before.length + 1)).Meets (ClockFault clock) fun (complete, log, k') =>
      k.Through held before complete log k' := by
  induction before generalizing k held with
  | nil => exact a.driveLog_alone
  | cons pid before ih =>
      exact a.driveLog_cons hrun (List.mem_append_right _ List.mem_cons_self) laden ih

/-- **The kernel's own process anywhere in the line**, by induction on those who stand before it.  Those
behind it stand before it when it has given up the processor. -/
theorem Awaiting.driveLog_meets
    (a : Awaiting config directory I clock held (before ++ .kernel :: behind) k)
    (laden : Laden held (before ++ .kernel :: behind)) (spare : Nat) :
    (k.driveLog run (spare + (before ++ behind).length + 2)).Meets (ClockFault clock)
      fun (complete, log, k') => k.Through held (before ++ behind) complete log k' := by
  induction before generalizing k held with
  | nil =>
      cases behind with
      | nil => exact a.driveLog_alone
      | cons pid behind =>
          have laden' : Laden held (pid :: behind ++ [.kernel]) := fun other hother =>
            laden other (List.perm_append_singleton _ _ |>.mem_iff.mp hother)
          exact a.driveLog_yield (List.cons_ne_nil _ _) fun a₁ => a₁.driveLog_last hrun laden' spare
  | cons pid before ih =>
      exact a.driveLog_cons hrun (List.mem_append_right _ List.mem_cons_self) laden ih

end

/-! ## Every run -/

/-- **Everybody who can run has still to run its entry**, but for the kernel's own process.  So it is
after creations, before anybody has had the processor (`boot_creations_pending`).  Whoever is blocked
or terminated may have run already. -/
def EntriesPending (k : Kernel ε) : Prop :=
  ∀ b ∈ k.processes.blocks, b.state = .ready ∨ b.state = .running → b.pid ≠ .kernel →
    b.pending? ≠ none

/-- **Everybody who could run is finished**, and only the kernel's own process is left.  The terminated
processes are still in the table, where their exit codes can be looked up. -/
structure Finished (k : Kernel ε) (log : List (Pid × ε)) (k' : Kernel ε) : Prop where
  /-- Each ran once: the running process first, and then the others in the order of the queue. -/
  order : log.map Prod.fst = k.lineup.filter (· ≠ .kernel)
  /-- What each ran is the entry that it held. -/
  own : ∀ x ∈ log, x ∈ k.processes.entries
  /-- Each exited with code 0. -/
  exited : ∀ x ∈ log, ∃ p, k'.find? x.1 = some p ∧ p.state = .terminated ∧ p.exitCode? = some 0
  /-- Whoever was blocked or terminated is as before, to the last field. -/
  aside : ∀ s b, k.processes.block? s = some b → b.state = .blocked ∨ b.state = .terminated →
    k'.processes.block? s = some b
  /-- The kernel's own process is running, and nobody is ready. -/
  kernel_running : k'.currentPid = .kernel ∧ ∃ p, k'.find? .kernel = some p ∧ p.state = .running
  idle : k'.readyPids = []

/-- Of those who stand in line, the kernel's own process is one.  It cannot be blocked or
terminated. -/
theorem kernel_mem_lineup {t : ProcessTable ε} (h : t.Scheduled) : .kernel ∈ t.lineup := by
  refine h.mem_lineup_iff.mpr ⟨kernelSlot, ?_, h.kernel_pid⟩
  rcases h.kernel_state with hstate | hstate
  · rw [h.running kernelSlot hstate]
    exact List.mem_cons_self
  · exact List.mem_cons_of_mem _ ((h.mem_ready kernelSlot).mpr hstate)

theorem Awaiting.laden {line : List Pid} (a : Awaiting config directory I clock held line k)
    (pending : k.EntriesPending) : Laden held line := by
  intro pid hmem hne
  rw [← a.lineup_eq] at hmem
  obtain ⟨slot, hslot, hpid⟩ := a.steady.scheduled.mem_lineup_iff.mp hmem
  obtain ⟨b, hb, rfl⟩ := Option.map_eq_some_iff.mp hpid
  rw [← a.entrusts.pending?_eq slot b hb]
  refine pending b (mem_blocks.mpr ⟨slot, hb⟩) ?_ hne
  rcases List.mem_cons.mp hslot with rfl | hready
  · exact Or.inr (Option.some.inj ((stateAt?_of_block? hb).symm.trans
      a.steady.scheduled.current_running))
  · exact Or.inl (Option.some.inj ((stateAt?_of_block? hb).symm.trans
      ((a.steady.scheduled.mem_ready slot).mp hready)))

/-- **The driver is through** with everybody who stood in line, and so they are finished. -/
theorem Through.finished {complete : Bool} {log : List (Pid × ε)}
    (h : k.Through held pids complete log k') (s : Steady config directory I clock k)
    (e : k.processes.Entrusts held) (hpids : k.lineup.filter (· ≠ .kernel) = pids) :
    k.Finished log k' := by
  obtain ⟨hcurrent, hready⟩ := of_lineup_eq_cons h.lineup_eq
  have c' := h.scheduled.coherent
  refine ⟨h.pids_eq.trans hpids.symm, fun x hx => e.mem_entries.mpr (h.own x hx), fun x hx => ?_,
    fun slot b hb idle => ?_, ⟨hcurrent, ?_⟩, hready⟩
  · have hmem : x.1 ∈ k.lineup.filter (· ≠ .kernel) := by
      rw [hpids, ← h.pids_eq]
      exact List.mem_map_of_mem hx
    obtain ⟨hmem, hne⟩ := List.mem_filter.mp hmem
    obtain ⟨slot, hslot, hpid⟩ := s.scheduled.mem_lineup_iff.mp hmem
    rw [← h.drains.pidAt?_eq] at hpid
    have hleft : slot ∉ k'.processes.line := fun hstay => by
      have hin : x.1 ∈ k'.lineup := h.scheduled.mem_lineup_iff.mpr ⟨slot, hstay, hpid⟩
      rw [h.lineup_eq, List.mem_singleton] at hin
      simp [hin] at hne
    obtain ⟨b, hb, hstate, hcode⟩ := h.drains.exited slot hslot hleft
    have hfound := c'.find?_eq_info hb
    rw [Option.some.inj ((pidAt?_of_block? hb).symm.trans hpid)] at hfound
    exact ⟨b.info, hfound, hstate, hcode⟩
  · rw [h.drains.aside slot (s.scheduled.not_mem_line_of_idle hb idle), hb]
  · obtain ⟨b, hb, hstate⟩ := Option.map_eq_some_iff.mp h.scheduled.current_running
    have hfound := c'.find?_eq_info hb
    rw [← currentPid_of_block? hb] at hfound
    exact ⟨b.info, hcurrent ▸ hfound, hstate⟩

/-- **The driver finishes** whatever it is started on, if entries leave processes alone.  The rounds
are one for each entry, one to give up the processor and one to stop. -/
theorem Steady.driveLog_finishes (s : Steady config directory I clock k)
    (e : k.processes.Entrusts held)
    (hrun : Harmless config directory I run)
    (pending : k.EntriesPending) (hrounds : (k.lineup.filter (· ≠ .kernel)).length + 2 ≤ rounds) :
    (k.driveLog run rounds).Meets (ClockFault clock) fun (complete, log, k') =>
      complete = true ∧ k.Finished log k' := by
  obtain ⟨before, behind, hline⟩ := List.append_of_mem (kernel_mem_lineup s.scheduled)
  have a : Awaiting config directory I clock held (before ++ .kernel :: behind) k := ⟨s, e, hline⟩
  have hothers : k.lineup.filter (· ≠ .kernel) = before ++ behind := by
    have hnodup : k.lineup.Nodup := s.scheduled.lineup_nodup
    rw [a.lineup_eq] at hnodup ⊢
    obtain ⟨hbefore, hbehind⟩ : .kernel ∉ before ∧ .kernel ∉ behind := by
      have hnot := (List.nodup_middle.mp hnodup).notMem
      exact ⟨fun h => hnot (List.mem_append_left _ h), fun h => hnot (List.mem_append_right _ h)⟩
    have hkeep : ∀ {l : List Pid}, .kernel ∉ l → l.filter (· ≠ .kernel) = l := fun {l} hnot =>
      List.filter_eq_self.mpr fun pid hpid => decide_eq_true fun heq => hnot (heq ▸ hpid)
    rw [List.filter_append, List.filter_cons_of_neg (by simp), hkeep hbefore, hkeep hbehind]
  rw [hothers] at hrounds
  have hspare : rounds = rounds - ((before ++ behind).length + 2) + (before ++ behind).length + 2 := by
    omega
  rw [hspare]
  refine (a.driveLog_meets hrun (a.laden pending) _).imp ?_
  rintro ⟨complete, log, k'⟩ through
  exact ⟨through.complete_eq, through.finished s e hothers⟩

open MemoryInvariant in
/-- **The driver finishes every process once**, in every run of a booted kernel after which everybody
who runs or is ready has still to run its entry, if entries do nothing but print and use the heap.  It
comes to an end after two rounds more than there are such processes, at the latest.  Each of them ran
its own entry once, the one that was handed over when it was created, in the order of the line; each
exited with code 0 then.  Whoever was blocked or terminated is as before; the kernel's own process is
running, and nobody is ready.  The driver faults only if the clock went round. -/
theorem boot_driver_finishes (code : ε → HeapProgram) (machine : Machine) (config : BootConfig) :
    (boot machine config : Run (Kernel ε)).Meets (fun _ => True) fun k =>
      ∀ calls : List (KernelCall ε), (k.run calls).Meets (fun e => e = .overflow .add) fun k' =>
        k'.EntriesPending →
          ∀ rounds, (k'.lineup.filter (· ≠ .kernel)).length + 2 ≤ rounds →
            k'.drive (HeapProgram.follow code) rounds
                = (fun (complete, _, k'') => (complete, k''))
                  <$> k'.driveLog (HeapProgram.follow code) rounds
              ∧ (k'.driveLog (HeapProgram.follow code) rounds).Meets (ClockFault (ticksOf calls))
                fun (complete, log, k'') => complete = true ∧ k'.Finished log k'' := by
  refine (boot_entrusts machine config).imp fun k hruns calls => ?_
  refine (hruns calls).imp fun k' ⟨s, e⟩ pending rounds hrounds => ?_
  have growable := lending_growable (.ofMemory config.memoryTop config.reservedTop) k.directory
    config.heapPages
  have harmless : Harmless config k.directory _ (HeapProgram.follow code) := fun entry _ _ s =>
    s.runProgram_meets growable (code entry)
  exact ⟨(driveLog_drive _ rounds k').symm, s.driveLog_finishes e harmless pending hrounds⟩

/-! ## Kernels in which everybody has still to run -/

/-- **Creation leaves everybody what they hold**, and whoever is created holds an entry.  If nobody is
created, nothing has changed. -/
theorem Spawns.entriesPending {birth : Birth} {result : Except ProcessError Pid}
    (spawns : k.Spawns birth entry result k') (c : k.processes.Coherent)
    (pending : k.EntriesPending) : k'.EntriesPending := by
  cases spawns with
  | full => exact pending
  | inVain room fits refused nothing =>
      intro b hb
      rw [nothing.1] at hb
      exact pending b hb
  | @created slot b stack _ first fits granted starts processes_eq =>
      intro b' hb' hstate hpid
      rw [processes_eq] at hb'
      obtain ⟨slot', hb'⟩ := mem_blocks.mp hb'
      rcases c.of_block?_enrolled first.free hb' with ⟨-, rfl⟩ | ⟨b₀, children, hb₀, rfl⟩
      · rw [starts.pending_eq]
        exact Option.some_ne_none entry
      · exact pending b₀ (mem_blocks.mpr ⟨slot', hb₀⟩) hstate hpid

/-- In a kernel just booted nobody has an entry to run, since nobody is there but the kernel's own
process. -/
theorem entriesPending_of_new {kernelDirectory : PhysAddr}
    (hprocesses : k.processes = .new kernelDirectory) : k.EntriesPending := by
  intro b hb _ hpid
  rw [hprocesses] at hb
  obtain ⟨slot, hb⟩ := mem_blocks.mp hb
  exact absurd (congrArg ProcessInfo.pid (of_block?_new hb).1) hpid

/-- **What a client says of a process** that it wants.  It is what `spawn` takes, put together so that
a run of creations can be given as a list. -/
structure NewProcess (ε : Type) where
  name : String
  priority : Priority
  entry : ε

/-- The call that creates the process.  It may be refused. -/
def NewProcess.call (p : NewProcess ε) : KernelCall ε := .spawn p.name p.priority p.entry

open MemoryInvariant in
/-- **Nobody runs an entry while processes are created**, by induction on the creations, whichever of
them succeed. -/
theorem Steady.creations_pending {range : FrameRange}
    (s : Steady config directory (lending range) clock k) (pending : k.EntriesPending)
    (wanted : List (NewProcess ε)) :
    (k.run (wanted.map NewProcess.call)).Meets (fun e => e = .overflow .add) EntriesPending := by
  induction wanted generalizing k clock with
  | nil => exact Run.meets_pure pending
  | cons p wanted ih =>
      have growable := lending_growable range directory config.heapPages
      have hpending : (k.perform p.call).Meets (fun _ => True) EntriesPending := by
        refine Run.Meets.map ((s.spawn_cases growable p.name p.priority p.entry).lax.imp ?_)
        rintro ⟨result, k₁⟩ spawns
        exact spawns.entriesPending s.scheduled.coherent pending
      have hsteady := (s.perform_meets p.call).mono CounterFault.eq_overflow fun _ h => h
      refine (hsteady.and hpending).bind ?_
      rintro k₁ ⟨s₁, pending₁⟩
      exact ih s₁ pending₁

open MemoryInvariant in
/-- **The driver can be started** on a booted kernel after any creations: everybody who was created has
still to run. -/
theorem boot_creations_pending (machine : Machine) (config : BootConfig) :
    (boot machine config : Run (Kernel ε)).Meets (fun _ => True) fun k =>
      ∀ wanted : List (NewProcess ε), (k.run (wanted.map NewProcess.call)).Meets
        (fun e => e = .overflow .add) EntriesPending := by
  have hboot := boot_fresh (ε := ε)
    (I := fun _ => lending (.ofMemory config.memoryTop config.reservedTop)) machine config
    lending_start fun directory => lending_growable _ directory _
  refine hboot.imp fun k ⟨steady, _, hprocesses, _⟩ wanted => ?_
  exact steady.creations_pending (entriesPending_of_new hprocesses) wanted

open MemoryInvariant in
/-- **The first process is created** if the initial heap has room for its stack: it has the pid 1, and
stands behind the kernel's own process. -/
theorem boot_spawns_first (config : BootConfig) (bootable : config.Bootable)
    (hroom : Heap.rounded stackSize + headerSize ≤ config.heapInitialSize) (name : String)
    (priority : Priority) (entry : ε) :
    (boot (.ofConfig config) config : Run (Kernel ε)).Meets (fun _ => False) fun k =>
      (k.spawn name priority entry).Meets (fun _ => False) fun (_, k') =>
        k'.lineup = [.kernel, ⟨1⟩] := by
  refine (boot_of_bootable config bootable).imp ?_
  rintro k ⟨-, steady, ⟨b, hfree, sound, size_eq⟩, hprocesses⟩
  have growable := lending_growable config.frameRange k.directory config.heapPages
  have granted : k.CanAllocate stackSize := by
    refine steady.toBacked.canAllocate_of_single growable sound hfree (by decide) ?_
    rwa [size_eq]
  have hfirst : ¬ k.processes.Full := by
    rw [hprocesses]
    exact new_not_full k.directory.address
  have fits : k.processes.nextPid.toNat + 1 < 2 ^ 32 := by
    rw [hprocesses]
    show (1 : UInt32).toNat + 1 < 2 ^ 32
    decide
  refine (steady.spawn_succeeds growable hfirst fits granted name priority entry).imp ?_
  rintro ⟨_, k'⟩ ⟨rfl, spawns⟩
  obtain ⟨-, -, hline⟩ := spawns.lineup_eq steady.scheduled
  have hbefore : k.lineup ++ [⟨k.processes.nextPid⟩] = [.kernel, ⟨1⟩] := by
    rw [lineup, currentPid, readyPids, hprocesses]
    rfl
  exact hline.trans hbefore

/-- The first process of the standard layout says hello, once: three rounds after its creation the
driver is through with it, and the kernel's own process is alone again. -/
theorem worker_is_finished :
    (boot (.ofConfig .standard) .standard : Run (Kernel Unit)).Meets (fun _ => False) fun k =>
      (k.run [.spawn "worker" .normal ()]).Meets (fun _ => False) fun k' =>
        k'.EntriesPending ∧ k'.lineup = [.kernel, ⟨1⟩]
          ∧ (k'.driveLog (HeapProgram.follow fun _ => .print "hello" .done) 3).Meets
            (fun _ => False) fun (complete, log, k'') =>
              complete = true ∧ log = [(⟨1⟩, ())] ∧ k'.Finished log k'' := by
  have bootable : BootConfig.standard.Bootable := by decide
  have hroom : Heap.rounded stackSize + headerSize ≤ BootConfig.standard.heapInitialSize := by decide
  -- nothing else counts about the layout, and no kernel need be computed
  generalize BootConfig.standard = config at *
  refine ((boot_spawns_first config bootable hroom "worker" .normal ()).and
    ((boot_creations_pending (.ofConfig config) config).and
      (boot_driver_finishes (fun _ => .print "hello" .done) (.ofConfig config) config))).imp ?_
  rintro k ⟨hfirst, hpending, hdriver⟩
  have hspawn : (k.run [.spawn "worker" .normal ()]).Meets (fun _ => False) fun k' =>
      k'.lineup = [.kernel, ⟨1⟩] :=
    (Run.Meets.map hfirst).bind fun _ hline => Run.meets_pure hline
  refine (hspawn.and ((hpending [⟨"worker", .normal, ()⟩]).and (hdriver _))).imp ?_
  rintro k' ⟨hline, pending, hrounds⟩
  have hone : (k'.lineup.filter (· ≠ .kernel)) = [⟨1⟩] := by
    rw [hline]
    decide
  obtain ⟨-, hfinishes⟩ := hrounds pending 3 (by rw [hone]; decide)
  refine ⟨pending, hline, hfinishes.mono ?_ ?_⟩
  · intro e fault
    exact absurd fault.2 (by decide)
  · rintro ⟨complete, log, k''⟩ ⟨hcomplete, finished⟩
    refine ⟨hcomplete, ?_, finished⟩
    have horder := finished.order
    rw [hone] at horder
    obtain ⟨x, rfl, hx⟩ := List.map_eq_singleton_iff.mp horder
    rw [← hx]

end Kernel

end TinyKernel
