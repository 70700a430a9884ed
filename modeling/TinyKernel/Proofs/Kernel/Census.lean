import TinyKernel.Proofs.Kernel.Creation
import TinyKernel.Proofs.Process.Registry

/-!
# The census of a booted kernel

Who was created and who ended can be told from what the kernel answers.  A client that writes this
down knows who every process is, whatever else the kernel is asked to do: a pid stands for one process
only, in all runs and for good.

## What is load-bearing

Between calls somebody runs, and so nobody exits or blocks who is dead (`Kernel.Steady.alive`).  That
is the rule under which the end of a process is final.

* `Census` — a kernel, and what its answers tell of births and deaths
* `Census.Leads` — how a census goes on
* `Census.Identified`, `Census.Continues` — what it tells of the processes, now and later
* `Kernel.boot_identified` — a pid stands for one process, in every run
-/

namespace TinyKernel

variable {ε α : Type}

/-! ## Births and deaths in one call -/

namespace Kernel

open ProcessTable

variable {config : BootConfig} {directory : PageDirectory} {I : MemoryInvariant} {clock : Nat}
  {k : Kernel ε}

/-- Whoever is running is not dead.  A process that exits is switched away from in the same call, and
there is always somebody to switch to. -/
theorem Steady.alive (s : Steady config directory I clock k) :
    k.processes.stateAt? k.processes.current ≠ some .terminated := by
  rw [s.scheduled.current_running]
  simp

theorem Steady.yield_lives (s : Steady config directory I clock k) :
    k.yield.Meets (fun _ => True) fun (_, k') => k.processes.Lives [] [] k'.processes :=
  yield_processes (s.scheduled.coherent.schedule_lives k.ticks)

/-- **A process is born**, or none is.  A pid that was used up by a failure is not a birth. -/
theorem Steady.spawn_lives (growable : I.Growable directory config.heapPages)
    (s : Steady config directory I clock k) (name : String) (priority : Priority) (entry : ε) :
    (k.spawn name priority entry).Meets (fun _ => True) fun (result, k') =>
      match result with
      | .error _ => k.processes.Lives [] [] k'.processes
      | .ok pid => pid = ⟨k.processes.nextPid⟩
          ∧ k.processes.Lives [k.processes.birth name priority] [] k'.processes := by
  refine (s.spawn_cases growable name priority entry).lax.imp ?_
  rintro ⟨result, k'⟩ spawns
  cases spawns with
  | full => exact .refl _
  | inVain room fits refused nothing =>
      have path : Path True k.processes [] k'.processes := by
        rw [nothing.1]
        exact (Change.skipped fits).path
      exact ⟨_, path, rfl, rfl⟩
  | created first fits granted starts processes_eq =>
      have path : Path True k.processes [.created (k.processes.birth name priority)] k'.processes := by
        rw [processes_eq]
        exact (Change.created first.free fits ⟨name, priority, rfl⟩ starts.info_eq).path
      exact ⟨rfl, _, path, rfl, rfl⟩

/-- **The running process dies**, unless it is the kernel's own.  It dies with the code that it exits
with. -/
theorem Steady.exit_lives (s : Steady config directory I clock k) (code : Int32) :
    (k.exit code).Meets (fun _ => True) fun (result, k') =>
      k.processes.Lives [] (result.toOption.toList.map fun _ => (k.currentPid, code))
        k'.processes := by
  refine s.toBacked.exit_processes (Q := fun result =>
    k.processes.Lives [] (result.toOption.toList.map fun _ => (k.currentPid, code))) ?_
  have c := s.scheduled.coherent
  refine (c.exitCurrent_path True (fun _ => s.alive) code).imp ?_
  rintro ⟨ended, t⟩ hended
  cases ended with
  | error cause =>
      obtain rfl := hended
      exact .refl _
  | ok remains =>
      have hdied : k.processes.Lives [] [(k.currentPid, code)] t := ⟨_, hended, rfl, rfl⟩
      exact ((hended.coherent c).schedule_lives k.ticks).imp fun _ lives => hdied.trans lives

/-- **A process is killed**, unless it is the kernel's own, or dead, or not there. -/
theorem Steady.kill_lives (s : Steady config directory I clock k) (pid : Pid) :
    (k.kill pid).Meets (fun _ => True) fun (result, k') =>
      k.processes.Lives [] (result.toOption.toList.map fun _ => (pid, killedExitCode))
        k'.processes := by
  refine s.toBacked.kill_processes (Q := fun result =>
    k.processes.Lives [] (result.toOption.toList.map fun _ => (pid, killedExitCode))) ?_
  have c := s.scheduled.coherent
  refine (Coherent.kill_path True k.processes pid).imp ?_
  rintro ⟨ended, t⟩ hended
  match ended with
  | .error cause =>
      obtain rfl := hended
      exact .refl _
  | .ok (remains, wasCurrent) =>
      have hdied : k.processes.Lives [] [(pid, killedExitCode)] t := ⟨_, hended, rfl, rfl⟩
      cases wasCurrent with
      | false => exact hdied
      | true =>
          exact ((hended.coherent c).schedule_lives k.ticks).imp fun _ lives => hdied.trans lives

theorem Steady.block_lives (s : Steady config directory I clock k) :
    k.block.Meets (fun _ => True) fun (_, k') => k.processes.Lives [] [] k'.processes := by
  refine block_processes (Q := fun _ => k.processes.Lives [] []) ?_
  have c := s.scheduled.coherent
  refine (c.blockCurrent_path True fun _ => s.alive).imp ?_
  rintro ⟨blocked, t⟩ hblocked
  have hlives : k.processes.Lives [] [] t := ⟨_, hblocked, rfl, rfl⟩
  cases blocked with
  | error cause => exact hlives
  | ok => exact ((hblocked.coherent c).schedule_lives k.ticks).imp fun _ lives => hlives.trans lives

theorem Steady.unblock_lives (s : Steady config directory I clock k) (pid : Pid) :
    (k.unblock pid).Meets (fun _ => True) fun (_, k') =>
      k.processes.Lives [] [] k'.processes := by
  refine masked_processes (fun _ => k.processes.Lives [] []) ?_
  refine (s.scheduled.coherent.unblock_path True pid).lax.bind ?_
  exact fun (result, processes) path => Run.meets_pure ⟨_, path, rfl, rfl⟩

theorem Steady.reap_lives (s : Steady config directory I clock k) :
    k.reap.Meets (fun _ => True) fun (_, k') => k.processes.Lives [] [] k'.processes := by
  refine masked_processes (fun _ => k.processes.Lives [] []) ?_
  refine (s.scheduled.coherent.reap_path True).bind fun (count, processes) ⟨pids, path⟩ => ?_
  refine Run.meets_pure ⟨_, path, ?_, ?_⟩ <;> simp [List.filterMap_map, Event.birth?, Event.death?]

theorem Steady.takeEntry_lives (s : Steady config directory I clock k) :
    k.takeEntry.Meets (fun _ => True) fun (_, k') => k.processes.Lives [] [] k'.processes :=
  masked_processes (fun _ => k.processes.Lives [] [])
    (Run.meets_pure ⟨_, s.scheduled.coherent.takeEntry_path, rfl, rfl⟩)

theorem Steady.syscall_lives (s : Steady config directory I clock k) (number arg : UInt32) :
    (k.syscall number arg).Meets (fun _ => True) fun (answer, k') =>
      k.processes.Lives [] (if Syscall.ofNumber? number = some .exit ∧ answer = 0
        then [(k.currentPid, arg.toInt32)] else []) k'.processes := by
  unfold syscall
  cases Syscall.ofNumber? number with
  | none =>
      refine Run.meets_log_bind (Run.meets_pure ?_)
      simpa using Lives.refl k.processes
  | some call =>
      cases call with
      | exit =>
          refine (s.exit_lives arg.toInt32).bind ?_
          rintro ⟨result, k'⟩ lives
          cases result with
          | ok =>
              refine Run.meets_pure ?_
              show k.processes.Lives [] (if _ ∧ (0 : Int32) = 0 then _ else _) k'.processes
              rw [if_pos ⟨rfl, rfl⟩]
              exact lives
          | error cause =>
              refine Run.meets_log_bind (Run.meets_pure ?_)
              show k.processes.Lives [] (if _ ∧ (-1 : Int32) = 0 then _ else _) k'.processes
              rw [if_neg fun h => absurd h.2 (by decide)]
              exact lives
      | getPid => exact Run.meets_pure (by simpa using Lives.refl k.processes)
      | yield => exact s.yield_lives.bind fun (_, k') lives => Run.meets_pure (by simpa using lives)

/-- **Neither processes nor given-up entries** are different.  Anything else of the kernel may be. -/
def SameProcesses (k k' : Kernel ε) : Prop :=
  k'.processes = k.processes ∧ k'.dropped = k.dropped

theorem masked_sameProcesses {op : Kernel ε → Run (α × Kernel ε)}
    (hop : (op (k.setInterrupts false)).Meets (fun _ => True) fun (_, k') => k.SameProcesses k') :
    (masked op k).Meets (fun _ => True) fun (_, k') => k.SameProcesses k' :=
  masked_meets (fun _ => k.SameProcesses) (fun _ _ _ h => h) hop

/-- A heap operation has nothing to do with processes, whatever it does to the heap and its pages. -/
theorem withHeap_sameProcesses (op : Heap → KernelPages → Run (α × Heap × KernelPages))
    (k : Kernel ε) :
    (masked (withHeap op) k).Meets (fun _ => True) fun (_, k') => k.SameProcesses k' :=
  masked_sameProcesses ((Run.meets_returns _).bind fun _ _ => Run.meets_pure ⟨rfl, rfl⟩)

theorem free_sameProcesses (k : Kernel ε) (p : Pointer) :
    (k.free p).Meets (fun _ => True) fun (_, k') => k.SameProcesses k' :=
  masked_sameProcesses ((Run.meets_returns _).bind fun _ _ => Run.meets_pure ⟨rfl, rfl⟩)

/-- **A call that asks for frames, pages or blocks**, or the timer, has nothing to do with processes.
One lemma covers them all, so that proofs about processes only meet the calls that concern them. -/
theorem perform_sameProcesses (k : Kernel ε) {call : KernelCall ε}
    (hcall : call.concernsProcesses = false) :
    (k.perform call).Meets (fun _ => True) k.SameProcesses := by
  have hmasked : ∀ {α : Type} {op : Kernel ε → Run (α × Kernel ε)},
      (op (k.setInterrupts false)).Meets (fun _ => True) (fun (_, k') => k.SameProcesses k') →
        (Prod.snd <$> masked op k).Meets (fun _ => True) k.SameProcesses :=
    fun hop => Run.Meets.map (masked_sameProcesses hop)
  have hrefl : k.SameProcesses k := ⟨rfl, rfl⟩
  cases call with
  | allocFrame => exact hmasked (Run.meets_lift_bind_of_ok fun _ _ => Run.meets_pure hrefl)
  | freeFrame address => exact hmasked ((Run.meets_returns _).bind fun _ _ => Run.meets_pure hrefl)
  | createDirectory => exact hmasked ((Run.meets_returns _).bind fun _ _ => Run.meets_pure hrefl)
  | switchDirectory d => exact hmasked (Run.meets_pure hrefl)
  | map d address target flags =>
      exact hmasked ((Run.meets_returns _).bind fun _ _ => Run.meets_pure hrefl)
  | unmap d address => exact hmasked (Run.meets_pure hrefl)
  | alloc size => exact Run.Meets.map (withHeap_sameProcesses _ k)
  | calloc count size => exact Run.Meets.map (withHeap_sameProcesses _ k)
  | realloc p? size => exact Run.Meets.map (withHeap_sameProcesses _ k)
  | free p => exact Run.Meets.map (k.free_sameProcesses p)
  | store p v n =>
      refine Run.meets_lift_bind_of_ok fun heap? _ => ?_
      cases heap? with
      | none => exact Run.meets_pure hrefl
      | some heap => exact Run.meets_pure hrefl
  | tick => exact Run.meets_pure hrefl
  | _ => cases hcall

theorem perform_processes (k : Kernel ε) {call : KernelCall ε}
    (hcall : call.concernsProcesses = false) :
    (k.perform call).Meets (fun _ => True) fun k' => k'.processes = k.processes :=
  (k.perform_sameProcesses hcall).imp fun _ h => h.1

end Kernel

/-! ## The census -/

/-- **A kernel, and what its answers tell** of births and deaths, the earliest first.  The lists are
made from calls and answers alone, as a client could keep them, and no call depends on them.  A birth
is put down as the process was when it was created. -/
structure Census (ε : Type) where
  kernel : Kernel ε
  births : List Birth
  /-- Who died, with the exit code. -/
  deaths : List (Pid × Int32)

namespace Census

/-- Nobody was born yet, nor did anybody die: the kernel's own process was there before. -/
def ofKernel (kernel : Kernel ε) : Census ε := { kernel, births := [], deaths := [] }

/-- **The birth that a pid is the answer to**, as it looks before: who was running, and how many
children that one had. -/
def birth (s : Census ε) (pid : Pid) (name : String) (priority : Priority) : Birth where
  pid
  name := keptName name
  priority
  parent := s.kernel.currentPid
  siblings := (s.kernel.find? s.kernel.currentPid).elim 0 fun p => p.children.length

/-- **One call**, and what the answer tells.  A system call is looked up by number, since it may be an
exit. -/
def make (s : Census ε) : KernelCall ε → Run (Census ε)
  | .spawn name priority entry => do
    let (result, kernel) ← s.kernel.spawn name priority entry
    let births := result.toOption.toList.map fun pid => s.birth pid name priority
    pure { s with kernel, births := s.births ++ births }
  | .exit code => do
    let (result, kernel) ← s.kernel.exit code
    let deaths := result.toOption.toList.map fun _ => (s.kernel.currentPid, code)
    pure { s with kernel, deaths := s.deaths ++ deaths }
  | .kill pid => do
    let (result, kernel) ← s.kernel.kill pid
    let deaths := result.toOption.toList.map fun _ => (pid, killedExitCode)
    pure { s with kernel, deaths := s.deaths ++ deaths }
  | .syscall number arg => do
    let (answer, kernel) ← s.kernel.syscall number arg
    let exited := Syscall.ofNumber? number = some .exit ∧ answer = 0
    let deaths := if exited then [(s.kernel.currentPid, arg.toInt32)] else []
    pure { s with kernel, deaths := s.deaths ++ deaths }
  | call => do
    let kernel ← s.kernel.perform call
    pure { s with kernel }

/-- **Calls, one after the other.**  A fault ends the run, and with it the census. -/
def run (s : Census ε) : List (KernelCall ε) → Run (Census ε)
  | [] => pure s
  | call :: calls => do
    let s ← s.make call
    s.run calls

/-- What is written down makes no difference to the kernel.  So a census can be taken of any run. -/
theorem kernel_make (s : Census ε) (call : KernelCall ε) :
    Census.kernel <$> s.make call = s.kernel.perform call := by
  cases call <;> simp [make, Kernel.perform]

theorem kernel_run (s : Census ε) (calls : List (KernelCall ε)) :
    Census.kernel <$> s.run calls = s.kernel.run calls := by
  induction calls generalizing s with
  | nil => rfl
  | cons call calls ih =>
      rw [run, Kernel.run, ← kernel_make, map_bind, bind_map_left]
      simp only [ih]

/-- **How a census goes on**: with births and deaths, and what they make of the processes.  The
relation composes, and a run is proved from its calls by that. -/
def Leads (s s' : Census ε) : Prop :=
  ∃ births deaths, s'.births = s.births ++ births ∧ s'.deaths = s.deaths ++ deaths
    ∧ s.kernel.processes.Lives births deaths s'.kernel.processes

open Kernel MemoryInvariant ProcessTable

variable {config : BootConfig} {directory : PageDirectory} {range : FrameRange} {clock : Nat}
  {s s' s'' : Census ε} {k' : Kernel ε} {births births' : List Birth} {deaths : List (Pid × Int32)}

theorem Leads.refl (s : Census ε) : s.Leads s :=
  ⟨[], [], (List.append_nil _).symm, (List.append_nil _).symm, .refl _⟩

theorem Leads.trans (h : s.Leads s') (h' : s'.Leads s'') : s.Leads s'' := by
  obtain ⟨births, deaths, hbirths, hdeaths, lives⟩ := h
  obtain ⟨births', deaths', hbirths', hdeaths', lives'⟩ := h'
  refine ⟨births ++ births', deaths ++ deaths', ?_, ?_, lives.trans lives'⟩
  · rw [hbirths', hbirths, List.append_assoc]
  · rw [hdeaths', hdeaths, List.append_assoc]

/-- What the kernel shows of the current process is what is in the table. -/
theorem birth_eq (c : s.kernel.processes.Coherent) (name : String) (priority : Priority) :
    s.birth ⟨s.kernel.processes.nextPid⟩ name priority = s.kernel.processes.birth name priority := by
  obtain ⟨b, hb⟩ := Option.isSome_iff_exists.mp c.occupied
  have hsiblings : (s.kernel.find? s.kernel.currentPid).elim 0 (fun p => p.children.length)
      = (s.kernel.processes.block? s.kernel.processes.current).elim 0 fun b => b.children.length := by
    rw [Kernel.find?, Kernel.currentPid, currentPid_of_block? hb, c.find?_eq_info hb, hb]
    rfl
  rw [birth, hsiblings]
  rfl

/-- A call that is neither a birth nor a death adds nothing to the lists. -/
theorem make_leads_of_perform {call : KernelCall ε} (hmake : s.make call = (do
      let kernel ← s.kernel.perform call
      pure { s with kernel }))
    (hperform : (s.kernel.perform call).Meets (fun _ => True) fun k' =>
      s.kernel.processes.Lives [] [] k'.processes) :
    (s.make call).Meets (fun _ => True) s.Leads := by
  rw [hmake]
  refine hperform.bind fun kernel lives => Run.meets_pure ?_
  exact ⟨[], [], (List.append_nil _).symm, (List.append_nil _).symm, lives⟩

/-- **Every call goes on with the census.**  The cases are those of the answers: somebody was born,
somebody died, or nothing of the kind. -/
theorem make_leads (steady : s.kernel.Steady config directory (lending range) clock)
    (call : KernelCall ε) : (s.make call).Meets (fun _ => True) s.Leads := by
  have growable := lending_growable range directory config.heapPages
  have hother : call.concernsProcesses = false →
      (s.kernel.perform call).Meets (fun _ => True) fun k' =>
        s.kernel.processes.Lives [] [] k'.processes := fun hcall =>
    (s.kernel.perform_processes hcall).imp fun k' hprocesses => hprocesses ▸ .refl _
  cases call with
  | spawn name priority entry =>
      refine (steady.spawn_lives growable name priority entry).bind ?_
      rintro ⟨result, kernel⟩ hresult
      cases result with
      | error cause => exact Run.meets_pure ⟨[], [], rfl, (List.append_nil _).symm, hresult⟩
      | ok pid =>
          obtain ⟨rfl, lives⟩ := hresult
          rw [← birth_eq steady.scheduled.coherent] at lives
          exact Run.meets_pure ⟨_, [], rfl, (List.append_nil _).symm, lives⟩
  | exit code =>
      exact (steady.exit_lives code).bind fun (result, kernel) lives =>
        Run.meets_pure ⟨[], _, (List.append_nil _).symm, rfl, lives⟩
  | kill pid =>
      exact (steady.kill_lives pid).bind fun (result, kernel) lives =>
        Run.meets_pure ⟨[], _, (List.append_nil _).symm, rfl, lives⟩
  | syscall number arg =>
      exact (steady.syscall_lives number arg).bind fun (answer, kernel) lives =>
        Run.meets_pure ⟨[], _, (List.append_nil _).symm, rfl, lives⟩
  | yield => exact make_leads_of_perform rfl (Run.Meets.map steady.yield_lives)
  | block => exact make_leads_of_perform rfl (Run.Meets.map steady.block_lives)
  | unblock pid => exact make_leads_of_perform rfl (Run.Meets.map (steady.unblock_lives pid))
  | reap => exact make_leads_of_perform rfl (Run.Meets.map steady.reap_lives)
  | takeEntry => exact make_leads_of_perform rfl (Run.Meets.map steady.takeEntry_lives)
  | _ => exact make_leads_of_perform rfl (hother rfl)

theorem make_meets (steady : s.kernel.Steady config directory (lending range) clock)
    (call : KernelCall ε) :
    (s.make call).Meets (CounterFault clock s.kernel) fun s' =>
      s'.kernel.Steady config directory (lending range) (clock + call.ticks) ∧ s.Leads s' := by
  have hsteady : (Census.kernel <$> s.make call).Meets (CounterFault clock s.kernel)
      (Steady config directory (lending range) (clock + call.ticks)) := by
    rw [kernel_make]
    exact steady.perform_meets call
  exact hsteady.of_map.and (make_leads steady call)

/-- **Calls, one after the other**, by induction on the calls.  The kernel stays steady, and its clock
has moved on by the ticks. -/
theorem run_meets (steady : s.kernel.Steady config directory (lending range) clock)
    (calls : List (KernelCall ε)) :
    (s.run calls).Meets (fun e => e = .overflow .add) fun s' =>
      s'.kernel.Steady config directory (lending range) (clock + ticksOf calls) ∧ s.Leads s' := by
  induction calls generalizing s clock with
  | nil => exact Run.meets_pure ⟨steady, .refl s⟩
  | cons call calls ih =>
      rw [add_ticksOf_cons]
      refine ((make_meets steady call).mono CounterFault.eq_overflow fun _ h => h).bind ?_
      rintro s₁ ⟨steady₁, leads₁⟩
      exact (ih steady₁).imp fun s' h => ⟨h.1, leads₁.trans h.2⟩

/-! ## What a census tells -/

/-- **What a census tells of the processes.**  The kernel's lookup by pid is how a client sees them, and
`find?_eq_some_iff` ties it to the table: without it, a lookup that keeps silent about the dead would do
for all that is said here of those who are found. -/
structure Identified (s : Census ε) : Prop where
  /-- Pids are handed out in increasing order, and so nobody has the pid of another. -/
  increasing : (identities s.births).Pairwise fun i i' => i.pid.val < i'.pid.val
  /-- Whoever is in the table is found by the pid, dead or alive, with the particulars that the table
  has; and nobody is found who is not in the table. -/
  find?_eq_some_iff : ∀ pid p, s.kernel.find? pid = some p ↔
    ∃ slot b, s.kernel.processes.block? slot = some b ∧ b.pid = pid ∧ b.info = p
  /-- Whoever is found was born under that pid, with that name and priority and of that parent; or it
  is the kernel's own process. -/
  identity_mem : ∀ pid p, s.kernel.find? pid = some p →
    p.pid = pid ∧ p.identity ∈ identities s.births
  exitCode?_eq_none_iff : ∀ pid p, s.kernel.find? pid = some p →
    (p.exitCode? = none ↔ p.state ≠ .terminated)
  /-- Whoever has an exit code died with it, and whoever died and is still there has it. -/
  exitCode?_eq_some_iff : ∀ pid p, s.kernel.find? pid = some p → ∀ code,
    p.exitCode? = some code ↔ (pid, code) ∈ s.deaths
  /-- Nobody dies twice, not even of a second exit or kill. -/
  deaths_nodup : (s.deaths.map Prod.fst).Nodup
  /-- Whoever is not found is dead: the living are in the table. -/
  present_or_dead : ∀ birth ∈ s.births,
    (s.kernel.find? birth.pid).isSome ∨ birth.pid ∈ s.deaths.map Prod.fst

/-- **What is left of the processes** at a later time.  The two censuses are of one run, and so the
later lists go on from the earlier ones.  All of it is said of lookups by pid, as a client makes them,
so that slots and blocks do not occur. -/
structure Continues (s s' : Census ε) : Prop where
  births_le : s.births <+: s'.births
  deaths_le : s.deaths <+: s'.deaths
  /-- Whoever is still found is who it was, and has not lost processor time or its exit code. -/
  kept : ∀ pid p p', s.kernel.find? pid = some p → s'.kernel.find? pid = some p' →
    p'.identity = p.identity ∧ p.cpuTime ≤ p'.cpuTime
      ∧ ∀ code, p.exitCode? = some code → p'.exitCode? = some code
  /-- Whoever is gone is gone for good, since a pid is not handed out twice. -/
  gone : ∀ birth ∈ s.births, s.kernel.find? birth.pid = none → s'.kernel.find? birth.pid = none

theorem identified (c : s.kernel.processes.Coherent)
    (r : s.kernel.processes.Registered s.births s.deaths) : s.Identified := by
  constructor
  case increasing => exact r.increasing
  case find?_eq_some_iff =>
    intro pid p
    exact c.find?_eq_some_iff
  case identity_mem =>
    intro pid p hp
    obtain ⟨slot, b, hb, rfl, rfl⟩ := of_find?_eq_some hp
    exact ⟨rfl, r.identity_mem slot b hb⟩
  case exitCode?_eq_none_iff =>
    intro pid p hp
    obtain ⟨slot, b, hb, rfl, rfl⟩ := of_find?_eq_some hp
    exact r.exitCode?_eq_none_iff slot b hb
  case exitCode?_eq_some_iff =>
    intro pid p hp
    obtain ⟨slot, b, hb, rfl, rfl⟩ := of_find?_eq_some hp
    exact r.exitCode?_eq_some_iff slot b hb
  case deaths_nodup => exact r.deaths_nodup
  case present_or_dead =>
    intro birth hbirth
    refine (r.present_or_dead birth hbirth).imp_left fun ⟨slot, b, hb, hpid⟩ => ?_
    rw [← hpid, Kernel.find?, c.find?_eq_info hb]
    rfl

/-- **A census that leads to another** continues in it.  Identity is kept by each call, and births only
add to the end. -/
theorem Leads.continues (h : s.Leads s') (c : s.kernel.processes.Coherent)
    (r : s.kernel.processes.Registered s.births s.deaths)
    (r' : s'.kernel.processes.Registered s'.births s'.deaths) : s.Continues s' := by
  obtain ⟨births, deaths, hbirths, hdeaths, lives⟩ := h
  have settles := lives.settles c
  have hdied : s.deaths <+: s'.deaths := ⟨deaths, hdeaths.symm⟩
  -- whoever has a pid that was handed out before had it before
  have came : ∀ slot b' pid, s'.kernel.processes.block? slot = some b' → b'.pid = pid →
      pid.val < s.kernel.processes.nextPid →
        ∃ b, s.kernel.processes.block? slot = some b ∧ b.Becomes b' := by
    rintro slot b' _ hb' rfl hlt
    exact (settles.came slot b' hb').resolve_left (UInt32.not_le.mpr hlt)
  constructor
  case births_le => exact ⟨births, hbirths.symm⟩
  case deaths_le => exact hdied
  case kept =>
    intro pid p p' hp hp'
    obtain ⟨slot, b, hb, rfl, rfl⟩ := of_find?_eq_some hp
    obtain ⟨slot', b', hb', hpid, rfl⟩ := of_find?_eq_some hp'
    obtain ⟨b₀, hb₀, becomes⟩ := came slot' b' _ hb' hpid (c.pid_lt slot _ (pidAt?_of_block? hb))
    have hfound := c.find?_eq_info hb₀
    rw [← becomes.pid_eq, hpid, c.find?_eq_info hb] at hfound
    have hinfo : b.info = b₀.info := Option.some.inj hfound
    refine ⟨?_, ?_, ?_⟩
    · rw [hinfo]
      exact becomes.identity_eq
    · rw [hinfo]
      exact becomes.cpuTime_le
    · intro code hcode
      refine (r'.exitCode?_eq_some_iff slot' b' hb' code).mpr (hdied.subset ?_)
      rw [hpid]
      exact (r.exitCode?_eq_some_iff slot b hb code).mp hcode
  case gone =>
    intro birth hbirth hnone
    refine find?_eq_none fun slot b' hb' hpid => ?_
    have hlt : birth.pid.val < s.kernel.processes.nextPid :=
      r.born_lt birth.identity (List.mem_cons_of_mem _ (List.mem_map_of_mem hbirth))
    obtain ⟨b, hb, becomes⟩ := came slot b' _ hb' hpid hlt
    have hfound := c.find?_eq_info hb
    rw [← becomes.pid_eq, hpid] at hfound
    cases hnone.symm.trans hfound

end Census

namespace Kernel

open MemoryInvariant

/-- **A census starts with the kernel's process alone.**  What leads on from here leads on from a fresh
process table. -/
theorem boot_lives (machine : Machine) (config : BootConfig) :
    (boot machine config : Run (Kernel ε)).Meets (fun _ => True) fun k =>
      (Census.ofKernel k).kernel.Steady config k.directory
          (lending (.ofMemory config.memoryTop config.reservedTop)) 0
        ∧ ∀ s, (Census.ofKernel k).Leads s →
          (ProcessTable.new k.directory.address).Lives s.births s.deaths s.kernel.processes := by
  have hboot := boot_fresh (ε := ε)
    (I := fun _ => lending (.ofMemory config.memoryTop config.reservedTop)) machine config
    lending_start fun directory => lending_growable _ directory _
  refine hboot.imp fun k ⟨steady, _, hprocesses, _⟩ => ⟨steady, ?_⟩
  rintro s ⟨births, deaths, hbirths, hdeaths, lives⟩
  rw [hbirths, hdeaths, ← hprocesses]
  exact lives

/-- **A pid stands for one process**, in every run of a booted kernel.  The pids that creation answers
with increase.  A pid is found exactly as long as its process is in the table, dead or alive.  Whoever
is found under a pid has the name, the priority and the parent of its creation; it has an exit code if
and only if it is terminated, and then the one that it exited or was killed with.  At every later time
all of this is so again, and compared with the earlier one its processor time is not less and its exit
code is the same; and whoever was reclaimed is not found again.  A call faults only if a counter runs
out. -/
theorem boot_identified (machine : Machine) (config : BootConfig) :
    (boot machine config : Run (Kernel ε)).Meets (fun _ => True) fun k =>
      ∀ calls : List (KernelCall ε), ((Census.ofKernel k).run calls).Meets
        (fun e => e = .overflow .add) fun s =>
          s.Identified
            ∧ (∀ call, (s.make call).Meets (CounterFault (ticksOf calls) s.kernel) fun s' =>
              s'.Identified ∧ s.Continues s')
            ∧ ∀ later, (s.run later).Meets (fun e => e = .overflow .add) fun s' =>
              s'.Identified ∧ s.Continues s' := by
  refine (boot_lives machine config).imp fun k ⟨hstart, hlives⟩ calls => ?_
  refine (Census.run_meets hstart calls).imp fun s ⟨steady, leads⟩ => ?_
  rw [Nat.zero_add] at steady
  have c := steady.scheduled.coherent
  have r := (hlives s leads).registered
  have later_identified : ∀ s' : Census ε, s'.kernel.processes.Coherent → s.Leads s' →
      s'.Identified ∧ s.Continues s' := by
    intro s' c' leads'
    have r' := (hlives s' (leads.trans leads')).registered
    exact ⟨Census.identified c' r', leads'.continues c r r'⟩
  refine ⟨Census.identified c r, fun call => ?_, fun later => ?_⟩
  · exact (Census.make_meets steady call).imp fun s' h =>
      later_identified s' h.1.scheduled.coherent h.2
  · exact (Census.run_meets steady later).imp fun s' h =>
      later_identified s' h.1.scheduled.coherent h.2

end Kernel

end TinyKernel
