import Mathlib.Logic.Function.Iterate
import TinyKernel.Proofs.Kernel.Reclamation
import TinyKernel.Proofs.Process.Queue

/-!
# Round robin in a booted kernel

The running process and those that are ready stand in one line.  Who gives up the processor goes to its
end, and so, however much time passes in between, everybody gets the processor once until it is back
where it was.  No other call turns the line: it loses whoever ends, blocks or is killed, and it gains
whoever is created or unblocked, always at its end.

## What is load-bearing

Ending and blocking move the head of the queue up without putting anybody behind it.  So the queue is
the same list of processes, only that the first of them runs now; seen as a line, its head is gone.
That is why one list is followed, and not a process and a queue.

* `KernelCall.Moves` — what each call does to the line
* `Kernel.Spawns.lineup_eq` — whoever is created stands in line last
* `Kernel.takeTurns`, `Kernel.RoundRobin` — giving up the processor time and again
* `Kernel.Steady.takeTurns_meets` — the line turns
* `Kernel.Steady.perform_moves` — and each call moves it as it should
* `Kernel.boot_round_robin` — both, in every run
-/

namespace TinyKernel

/-! ## What a call does to the line -/

/-- The line without its head, unless that is the kernel's own process, which stays. -/
def departed : List Pid → List Pid
  | [] => []
  | pid :: rest => if pid = .kernel then pid :: rest else rest

/-- **How a call moves the line** of who runs and who waits.  Giving up the processor turns the line;
whoever ends or blocks leaves it; whoever is created or unblocked comes in at the end.  No call moves
anybody past somebody else. -/
def KernelCall.Moves {ε : Type} (call : KernelCall ε) (l l' : List Pid) : Prop :=
  match call with
  | .yield => l' = l.rotate 1
  | .exit _ | .block => l' = departed l
  | .kill pid => l' = if pid = .kernel then l else l.filter (· ≠ pid)
  | .spawn .. => l' = l ∨ ∃ pid ∉ l, l' = l ++ [pid]
  | .unblock pid => l' = l ∨ pid ∉ l ∧ l' = l ++ [pid]
  | .syscall number _ =>
    match Syscall.ofNumber? number with
    | some .exit => l' = departed l
    | some .yield => l' = l.rotate 1
    | _ => l' = l
  | _ => l' = l

section

variable {ε : Type} {l l' : List Pid} {pid : Pid} {call : KernelCall ε}

/-- Some leave the line, the head perhaps among them, and the rest moves up. -/
theorem KeepsOrder.of_leaving (hnodup : l.Nodup) (hleft : l'.Sublist l) :
    KeepsOrder l.tail l'.tail := by
  have hkeeps : KeepsOrder l.tail (l'.tail ++ []) :=
    .of_sublist (hnodup.sublist (List.tail_sublist l)) hleft.tail fun _ hnil => by cases hnil
  rwa [List.append_nil] at hkeeps

theorem KeepsOrder.of_joining (hnodup : l.Nodup) (hnew : pid ∉ l) :
    KeepsOrder l.tail (l ++ [pid]).tail := by
  cases l with
  | nil => exact .refl _
  | cons head rest =>
      refine .of_sublist (List.nodup_cons.mp hnodup).2 (.refl rest) fun other hother => ?_
      obtain rfl := List.mem_singleton.mp hother
      exact fun hmem => hnew (List.mem_cons_of_mem head hmem)

theorem KeepsOrder.of_turning (hnodup : l.Nodup) : KeepsOrder l.tail (l.rotate 1).tail := by
  match l with
  | [] => exact .refl _
  | [head] =>
      rw [List.rotate_singleton]
      exact .refl _
  | head :: next :: rest =>
      obtain ⟨hnot, hnodup⟩ := List.nodup_cons.mp hnodup
      rw [List.rotate_cons_succ, List.rotate_zero]
      refine .of_sublist hnodup (List.sublist_cons_self next rest) fun other hother => ?_
      obtain rfl := List.mem_singleton.mp hother
      exact hnot

theorem departed_sublist (l : List Pid) : (departed l).Sublist l := by
  unfold departed
  split
  · exact .refl _
  · split
    · exact .refl _
    · exact List.sublist_cons_self _ _

theorem departed_of_kernel {t : ProcessTable ε} (hkernel : t.currentPid = .kernel) :
    departed t.lineup = t.lineup := if_pos hkernel

theorem departed_of_ne_kernel {t : ProcessTable ε} (hkernel : t.currentPid ≠ .kernel) :
    departed t.lineup = t.readyPids := if_neg hkernel

/-- Nobody is at the head of a line and behind it as well. -/
theorem filter_ne_head {rest : List Pid} (hnodup : (pid :: rest).Nodup) :
    (pid :: rest).filter (· ≠ pid) = rest := by
  rw [List.filter_cons_of_neg (by simp)]
  refine List.filter_eq_self.mpr fun other hother => decide_eq_true ?_
  rintro rfl
  exact (List.nodup_cons.mp hnodup).1 hother

/-- **No call changes the order** of those who stay in the queue.  It follows from how calls move the
line, case by case. -/
theorem KernelCall.Moves.keepsOrder (h : call.Moves l l') (hnodup : l.Nodup) :
    KeepsOrder l.tail l'.tail := by
  have hturn : l' = l.rotate 1 → KeepsOrder l.tail l'.tail := by
    rintro rfl
    exact .of_turning hnodup
  have hdepart : l' = departed l → KeepsOrder l.tail l'.tail := by
    rintro rfl
    exact .of_leaving hnodup (departed_sublist l)
  have hstay : l' = l → KeepsOrder l.tail l'.tail := by
    rintro rfl
    exact .refl _
  cases call with
  | yield => exact hturn h
  | exit code => exact hdepart h
  | block => exact hdepart h
  | kill pid =>
      refine .of_leaving hnodup ?_
      rw [show l' = if pid = .kernel then l else l.filter (· ≠ pid) from h]
      split
      · exact .refl _
      · exact List.filter_sublist
  | spawn name priority entry =>
      rcases h with h | ⟨pid, hnew, rfl⟩
      · exact hstay h
      · exact .of_joining hnodup hnew
  | unblock pid =>
      rcases h with h | ⟨hnew, rfl⟩
      · exact hstay h
      · exact .of_joining hnodup hnew
  | syscall number arg =>
      unfold KernelCall.Moves at h
      dsimp only at h
      split at h
      · exact hdepart h
      · exact hturn h
      · exact hstay h
  | _ => exact hstay h

end

namespace Kernel

open ProcessTable

variable {ε : Type} {config : BootConfig} {directory : PageDirectory} {I : MemoryInvariant}
  {clock : Nat} {k : Kernel ε} {births : List Birth}

/-- **Who runs, and who waits behind**, the next one first.  The scheduler is described by this list
alone. -/
def lineup (k : Kernel ε) : List Pid := k.currentPid :: k.readyPids

/-! ## Turns -/

/-- **Turns**: each time, some ticks pass and then the running process gives up the processor.  The
answers are who got it, one after the other. -/
def takeTurns (k : Kernel ε) : List Nat → Run (List Pid × Kernel ε)
  | [] => pure ([], k)
  | gap :: gaps => do
    let ((), k) ← (tick^[gap] k).yield
    let (pids, k') ← k.takeTurns gaps
    pure (k.currentPid :: pids, k')

/-- **Round robin**, a number of turns later.  Pids stay in their slots; what turns is the line, and
with it who runs.  `pids` are those who got the processor, one for each turn, and how many ticks a turn
took makes no difference. -/
structure RoundRobin (k : Kernel ε) (turns : Nat) (pids : List Pid) (k' : Kernel ε) : Prop where
  /-- With every turn, the head of the line went to its end. -/
  lineup_eq : k'.lineup = k.lineup.rotate turns
  /-- In one round everybody gets the processor once: those who waited, in the order of the queue, and
  then whoever ran at first. -/
  pids_eq : turns ≤ k.lineup.length → pids = (k.readyPids ++ [k.currentPid]).take turns
  pidAt?_eq : ∀ s, k'.processes.pidAt? s = k.processes.pidAt? s
  /-- After one round everything is as it was: who runs, the queue and the states. -/
  restored : turns = k.lineup.length → k'.processes.current = k.processes.current
    ∧ k'.processes.ready = k.processes.ready
    ∧ ∀ s, k'.processes.stateAt? s = k.processes.stateAt? s

/-- Ticks have nothing to do with processes. -/
theorem processes_ticked (n : Nat) (k : Kernel ε) : (tick^[n] k).processes = k.processes := by
  induction n with
  | zero => rfl
  | succ n ih =>
      rw [Function.iterate_succ_apply']
      exact ih

theorem Steady.ticked (s : Steady config directory I clock k) (n : Nat) :
    Steady config directory I (clock + n) (Kernel.tick^[n] k) := by
  induction n with
  | zero => exact s
  | succ n ih =>
      rw [Function.iterate_succ_apply']
      exact ih.tick

theorem ClockFault.mono {later : Nat} (hle : clock ≤ later) (e : Fault) (he : ClockFault clock e) :
    ClockFault later e :=
  he.imp_right fun hlate => hlate.trans hle

/-- **Giving up the processor** turns the line once.  If nobody waits, the line has one place and
turning it does nothing. -/
theorem Steady.yield_turned (s : Steady config directory I clock k) :
    k.yield.Meets (fun _ => True) fun (_, k') => Turned k.processes 1 k'.processes :=
  yield_processes (s.scheduled.schedule_turned k.ticks).lax

theorem Steady.lineup_length (s : Steady config directory I clock k) :
    k.lineup.length = k.processes.line.length := by
  show k.processes.lineup.length = _
  rw [s.scheduled.lineup_eq_map, List.length_map]

/-- **Turn after turn**, by induction on the turns.  The clock moves on by the ticks in between, and
nothing else depends on them. -/
theorem Steady.takeTurns_meets (s : Steady config directory I clock k) (gaps : List Nat) :
    (k.takeTurns gaps).Meets (ClockFault (clock + gaps.sum)) fun (pids, k') =>
      Steady config directory I (clock + gaps.sum) k'
        ∧ Turned k.processes gaps.length k'.processes
        ∧ (gaps.length ≤ k.lineup.length →
          pids = (k.readyPids ++ [k.currentPid]).take gaps.length) := by
  induction gaps generalizing k clock with
  | nil => exact Run.meets_pure ⟨s, .refl _, fun _ => rfl⟩
  | cons gap gaps ih =>
      have ticked := s.ticked gap
      have hyield := (ticked.yield_meets.and ticked.yield_turned).mono
        (ClockFault.mono (Nat.le_add_right (clock + gap) gaps.sum)) fun _ h => h
      rw [List.sum_cons, ← Nat.add_assoc]
      refine hyield.bind ?_
      rintro ⟨_, k₁⟩ ⟨s₁, turned⟩
      rw [processes_ticked] at turned
      refine (ih s₁).bind ?_
      rintro ⟨pids, k₂⟩ ⟨s₂, turned', hpids⟩
      refine Run.meets_pure ⟨s₂, ?_, fun hle => ?_⟩
      · rw [List.length_cons, Nat.add_comm]
        exact turned.trans turned'
      · have hline : k₁.lineup = k.readyPids ++ [k.currentPid] := by
          refine (turned.lineup_eq s.scheduled s₁.scheduled).trans ?_
          show (k.currentPid :: k.readyPids).rotate 1 = _
          rw [List.rotate_cons_succ, List.rotate_zero]
        have hlength : gaps.length ≤ k₁.readyPids.length := by
          have hsame := congrArg List.length hline
          simp only [lineup, List.length_cons, List.length_append, List.length_nil] at hsame hle
          omega
        have hrest := hpids (Nat.le_succ_of_le hlength)
        rw [List.take_append_of_le_length hlength] at hrest
        show k₁.currentPid :: pids = _
        rw [hrest, ← hline, List.length_cons, lineup, List.take_succ_cons]

theorem Steady.takeTurns_roundRobin (s : Steady config directory I clock k) (gaps : List Nat) :
    (k.takeTurns gaps).Meets (ClockFault (clock + gaps.sum)) fun (pids, k') =>
      k.RoundRobin gaps.length pids k' := by
  refine (s.takeTurns_meets gaps).imp ?_
  rintro ⟨pids, k'⟩ ⟨s', turned, hpids⟩
  refine ⟨turned.lineup_eq s.scheduled s'.scheduled, hpids, turned.pidAt?_eq, fun hround => ?_⟩
  rw [s.lineup_length] at hround
  rw [hround] at turned
  exact turned.restores s.scheduled s'.scheduled

/-! ## Calls -/

theorem Steady.exit_lineup (s : Steady config directory I clock k) (code : Int32) :
    (k.exit code).Meets (fun _ => True) fun (_, k') =>
      k'.processes.lineup = departed k.processes.lineup := by
  refine s.toBacked.exit_processes (Q := fun _ t => t.lineup = departed k.processes.lineup) ?_
  refine (s.scheduled.exitCurrent_queue code).imp ?_
  rintro ⟨ended, t⟩ hended
  cases ended with
  | error cause =>
      obtain ⟨hkernel, rfl⟩ := hended
      exact (departed_of_kernel hkernel).symm
  | ok remains =>
      obtain ⟨hkernel, vacant, hqueue⟩ := hended
      have hline := hqueue.trans (departed_of_ne_kernel hkernel).symm
      exact (vacant.schedule_lineup k.ticks).lax.imp fun _ h => h.trans hline

theorem Steady.block_lineup (s : Steady config directory I clock k) :
    k.block.Meets (fun _ => True) fun (_, k') =>
      k'.processes.lineup = departed k.processes.lineup := by
  refine block_processes (Q := fun _ t => t.lineup = departed k.processes.lineup) ?_
  refine s.scheduled.blockCurrent_queue.imp ?_
  rintro ⟨blocked, t⟩ hblocked
  cases blocked with
  | error cause =>
      obtain ⟨hkernel, rfl⟩ := hblocked
      exact (departed_of_kernel hkernel).symm
  | ok =>
      obtain ⟨hkernel, vacant, hqueue⟩ := hblocked
      have hline := hqueue.trans (departed_of_ne_kernel hkernel).symm
      exact (vacant.schedule_lineup k.ticks).lax.imp fun _ h => h.trans hline

theorem Steady.kill_lineup (s : Steady config directory I clock k) (pid : Pid) :
    (k.kill pid).Meets (fun _ => True) fun (_, k') => k'.processes.lineup =
      if pid = .kernel then k.processes.lineup else k.processes.lineup.filter (· ≠ pid) := by
  refine s.toBacked.kill_processes (Q := fun _ t => t.lineup =
    if pid = .kernel then k.processes.lineup else k.processes.lineup.filter (· ≠ pid)) ?_
  refine (s.scheduled.kill_queue pid).imp ?_
  rintro ⟨ended, t⟩ hended
  match ended with
  | .error cause =>
      obtain ⟨rfl, hrefused⟩ := hended
      show k.processes.lineup = _
      split
      · rfl
      case isFalse hkernel =>
        refine (List.filter_eq_self.mpr fun other hother => decide_eq_true ?_).symm
        rintro rfl
        exact hrefused.resolve_left hkernel hother
  | .ok (remains, wasCurrent) =>
      obtain ⟨hkernel, hleft⟩ := hended
      rw [if_neg hkernel]
      cases wasCurrent with
      | false => exact hleft
      | true =>
          obtain ⟨rfl, vacant, hqueue⟩ := hleft
          have hline := hqueue.trans (filter_ne_head s.scheduled.lineup_nodup).symm
          exact (vacant.schedule_lineup k.ticks).lax.imp fun _ h => h.trans hline

theorem Steady.unblock_lineup (s : Steady config directory I clock k) (pid : Pid) :
    (k.unblock pid).Meets (fun _ => True) fun (_, k') =>
      k'.processes.lineup = k.lineup
        ∨ pid ∉ k.lineup ∧ k'.processes.lineup = k.lineup ++ [pid] := by
  refine masked_processes (fun _ t => t.lineup = k.lineup
    ∨ pid ∉ k.lineup ∧ t.lineup = k.lineup ++ [pid]) ?_
  exact (s.scheduled.unblock_lineup pid).bind fun (_, processes) hline => Run.meets_pure hline

/-- **Whoever is created stands in line last**, under the next pid, which nobody in line has. -/
theorem Spawns.lineup_eq {name : String} {priority : Priority} {entry : ε} {pid : Pid}
    (spawns : k.Spawns (k.processes.birth name priority) entry (.ok pid) k')
    (h : k.processes.Scheduled) :
    pid = ⟨k.processes.nextPid⟩ ∧ pid ∉ k.lineup ∧ k'.lineup = k.lineup ++ [pid] := by
  cases spawns with
  | @created slot b _ _ first _ _ starts processes_eq =>
      have hpid : b.pid = ⟨k.processes.nextPid⟩ := congrArg ProcessInfo.pid starts.info_eq
      obtain ⟨hnew, hline⟩ := h.lineup_enrolled first.free hpid
      rw [hpid] at hnew hline
      exact ⟨rfl, hnew, (congrArg ProcessTable.lineup processes_eq).trans hline⟩

theorem Steady.spawn_lineup (growable : I.Growable directory config.heapPages)
    (s : Steady config directory I clock k) (name : String) (priority : Priority) (entry : ε) :
    (k.spawn name priority entry).Meets (fun _ => True) fun (_, k') =>
      k'.processes.lineup = k.lineup
        ∨ ∃ pid ∉ k.lineup, k'.processes.lineup = k.lineup ++ [pid] := by
  refine (s.spawn_cases growable name priority entry).lax.imp ?_
  rintro ⟨result, k'⟩ spawns
  cases result with
  | ok pid =>
      obtain ⟨-, hnew, hline⟩ := spawns.lineup_eq s.scheduled
      exact Or.inr ⟨pid, hnew, hline⟩
  | error cause =>
  cases spawns with
  | full => exact Or.inl rfl
  | inVain room fits refused nothing =>
      -- the line does not tell the next pid
      exact Or.inl ((congrArg ProcessTable.lineup nothing.1).trans rfl)

theorem Steady.syscall_lineup (s : Steady config directory I clock k) (number arg : UInt32) :
    (k.syscall number arg).Meets (fun _ => True) fun (_, k') =>
      (KernelCall.syscall number arg : KernelCall ε).Moves k.lineup k'.lineup := by
  unfold syscall
  simp only [KernelCall.Moves]
  cases Syscall.ofNumber? number with
  | none => exact Run.meets_log_bind (Run.meets_pure rfl)
  | some call =>
      cases call with
      | exit =>
          refine (s.exit_lineup arg.toInt32).bind ?_
          rintro ⟨result, k'⟩ hline
          cases result with
          | ok => exact Run.meets_pure hline
          | error cause => exact Run.meets_log_bind (Run.meets_pure hline)
      | getPid => exact Run.meets_pure rfl
      | yield =>
          refine (s.yield_meets.lax.and s.yield_turned).bind fun (_, k') ⟨s', turned⟩ => ?_
          exact Run.meets_pure (turned.lineup_eq s.scheduled s'.scheduled)

/-- **Every call moves the line** as it should.  Who is created is new to the line, as the pid is
new. -/
theorem Steady.perform_moves (growable : I.Growable directory config.heapPages)
    (s : Steady config directory I clock k) (kindred : k.processes.Kindred births)
    (call : KernelCall ε) :
    (k.perform call).Meets (fun _ => True) fun k' => call.Moves k.lineup k'.lineup := by
  have hother : call.concernsProcesses = false →
      (k.perform call).Meets (fun _ => True) fun k' => k'.lineup = k.lineup := fun hcall =>
    (k.perform_processes hcall).imp fun k' hprocesses => congrArg ProcessTable.lineup hprocesses
  cases call with
  | yield =>
      refine Run.Meets.map ((s.yield_meets.lax.and s.yield_turned).imp fun (_, k') h => ?_)
      exact h.2.lineup_eq s.scheduled h.1.scheduled
  | exit code => exact Run.Meets.map (s.exit_lineup code)
  | block => exact Run.Meets.map s.block_lineup
  | kill pid => exact Run.Meets.map (s.kill_lineup pid)
  | spawn name priority entry => exact Run.Meets.map (s.spawn_lineup growable name priority entry)
  | unblock pid => exact Run.Meets.map (s.unblock_lineup pid)
  | syscall number arg => exact Run.Meets.map (s.syscall_lineup number arg)
  | reap =>
      refine Run.Meets.map ((s.reap_reclaims kindred).imp fun (_, k') h => ?_)
      exact s.scheduled.lineup_reclaims h.1
  | takeEntry =>
      refine Run.Meets.map (masked_processes (fun _ t => t.lineup = k.lineup) (Run.meets_pure ?_))
      exact s.scheduled.lineup_takeEntry
  | _ => exact hother rfl

/-! ## Every run -/

open MemoryInvariant in
/-- **Round robin is a rotation, and the queue is first in, first out**, in every run of a booted
kernel.  Take any number of turns, with any number of ticks before each.  With every turn the head of
the line goes to its end; in one round everybody gets the processor once, and then the line and the
states of all processes are what they were.  Every call moves the line as `KernelCall.Moves` has it,
and whoever stays in the queue keeps the place relative to all others who stay.  Turns fault only
when the clock went round, and calls only when a counter ran out. -/
theorem boot_round_robin (machine : Machine) (config : BootConfig) :
    (boot machine config : Run (Kernel ε)).Meets (fun _ => True) fun k =>
      ∀ calls : List (KernelCall ε), (k.run calls).Meets (fun e => e = .overflow .add) fun k' =>
        k'.lineup.Nodup
          ∧ (∀ gaps : List Nat,
              (k'.takeTurns gaps).Meets (ClockFault (ticksOf calls + gaps.sum)) fun (pids, k'') =>
                k'.RoundRobin gaps.length pids k'')
          ∧ ∀ call : KernelCall ε,
              (k'.perform call).Meets (CounterFault (ticksOf calls) k') fun k'' =>
                call.Moves k'.lineup k''.lineup ∧ KeepsOrder k'.readyPids k''.readyPids := by
  refine (boot_kindred machine config).imp fun k hruns calls => ?_
  refine (hruns calls).imp fun k' ⟨steady, births, kindred⟩ => ?_
  have hnodup : k'.lineup.Nodup := steady.scheduled.lineup_nodup
  refine ⟨hnodup, steady.takeTurns_roundRobin, fun call => ?_⟩
  have growable := lending_growable (.ofMemory config.memoryTop config.reservedTop) k.directory
    config.heapPages
  refine ((steady.perform_meets call).and (steady.perform_moves growable kindred call)).imp ?_
  rintro k'' ⟨-, moves⟩
  exact ⟨moves, moves.keepsOrder hnodup⟩

end Kernel

end TinyKernel
