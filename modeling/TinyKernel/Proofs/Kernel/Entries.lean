import TinyKernel.Proofs.Kernel.Census
import TinyKernel.Proofs.Kernel.Stacks
import TinyKernel.Proofs.Process.Pending

/-!
# Entries are used once

The entry that a process is created with is handed out once, or given up once, or the process still
has it.  A client that writes down what it is answered with knows which: what it gave and to whom, what
it took and while who was running, and what the kernel gave up in which call.

## What is load-bearing

The kernel keeps the entries that it gives up in one place, whoever they belonged to.  Whose they were
is told by the call, which ends one process at most (`KernelCall.victim?`); that it is right to tell it
so is what the law says (`EntrySession.Uses`), because there the entry is that of the process that the
call ends, as the table had it before.

* `EntryLedger` — what was given is used up or held, one of the two, and once
* `Kernel.Closes`, `Kernel.Steady.perform_closes` — calls other than creation and handing out
* `EntrySession` — a kernel, and what became of its entries
* `EntrySession.Accounted`, `EntrySession.Uses` — the books, and what a call does to entries
* `Kernel.boot_entries_used_once` — the books are right after every run
-/

namespace TinyKernel

open Function

variable {ε α : Type}

/-! ## The ledger -/

/-- **The ledger of entries**: each entry that was given to a process is used up, or its process holds
it.  Nobody was given two, and of nobody were two used up.  Entries are told apart by the pid they were
given to; two processes may have been given the same one. -/
structure EntryLedger (given used : List (Pid × ε)) (held : Pid → Option ε) : Prop where
  given_nodup : (given.map Prod.fst).Nodup
  used_nodup : (used.map Prod.fst).Nodup
  mem_given_iff : ∀ pid entry, (pid, entry) ∈ given ↔ (pid, entry) ∈ used ∨ held pid = some entry
  held_eq_none : ∀ x ∈ used, held x.1 = none

namespace EntryLedger

variable {given used used' : List (Pid × ε)} {held : Pid → Option ε} {pid : Pid} {entry : ε}

theorem empty : EntryLedger (ε := ε) [] [] fun _ => none :=
  ⟨List.nodup_nil, List.nodup_nil, by simp, by simp⟩

/-- A process more has an entry in a list, if it had none.  Both lists of the ledger grow in this
way. -/
theorem nodup_append_singleton {list : List (Pid × ε)} (hnodup : (list.map Prod.fst).Nodup)
    (fresh : ∀ x ∈ list, x.1 ≠ pid) (entry : ε) : ((list ++ [(pid, entry)]).map Prod.fst).Nodup := by
  rw [List.map_append]
  refine List.nodup_append.mpr ⟨hnodup, List.nodup_singleton pid, ?_⟩
  rintro _ hpid _ hnew
  obtain ⟨x, hx, rfl⟩ := List.mem_map.mp hpid
  rw [List.mem_singleton.mp hnew]
  exact fresh x hx

/-- It makes no difference in which order entries were used up. -/
theorem perm (l : EntryLedger given used held) (h : used.Perm used') : EntryLedger given used' held where
  given_nodup := l.given_nodup
  used_nodup := (h.map Prod.fst).nodup_iff.mp l.used_nodup
  mem_given_iff pid entry := by rw [l.mem_given_iff, h.mem_iff]
  held_eq_none x hx := l.held_eq_none x (h.mem_iff.mpr hx)

/-- **An entry is given** to a process that is new, so that nothing was ever written down under its
pid. -/
theorem give (l : EntryLedger given used held) (fresh : ∀ x ∈ given, x.1 ≠ pid) (entry : ε) :
    EntryLedger (given ++ [(pid, entry)]) used (update held pid (some entry)) where
  given_nodup := nodup_append_singleton l.given_nodup fresh entry
  used_nodup := l.used_nodup
  mem_given_iff pid' entry' := by
    rw [List.mem_append, l.mem_given_iff, List.mem_singleton, Prod.mk.injEq]
    by_cases heq : pid' = pid
    case neg => simp [heq]
    case pos =>
      subst heq
      have hused : (pid', entry') ∉ used := fun hmem =>
        fresh _ ((l.mem_given_iff pid' entry').mpr (Or.inl hmem)) rfl
      have hheld : held pid' ≠ some entry' := fun hheld =>
        fresh _ ((l.mem_given_iff pid' entry').mpr (Or.inr hheld)) rfl
      simp [hused, hheld, eq_comm]
  held_eq_none x hx := by
    have hne : x.1 ≠ pid := fresh x ((l.mem_given_iff x.1 x.2).mpr (Or.inl hx))
    rw [update_of_ne hne]
    exact l.held_eq_none x hx

/-- **Whatever a process holds is used up**, and is not held any longer.  A process that holds nothing
leaves the ledger as it is, so that this need not be asked first. -/
theorem use (l : EntryLedger given used held) (pid : Pid) :
    EntryLedger given (used ++ (held pid).toList.map (pid, ·)) (update held pid none) := by
  cases hheld : held pid with
  | none =>
      rw [update_eq_self_iff.mpr hheld.symm]
      simpa using l
  | some entry =>
      have hnot : ∀ x ∈ used, x.1 ≠ pid := fun x hx heq => by
        have hnone := l.held_eq_none x hx
        rw [heq, hheld] at hnone
        cases hnone
      refine ⟨l.given_nodup, nodup_append_singleton l.used_nodup hnot entry,
        fun pid' entry' => ?_, fun x hx => ?_⟩
      · rw [l.mem_given_iff, List.mem_append]
        by_cases heq : pid' = pid
        case neg => simp [heq]
        case pos =>
          subst heq
          simp [hheld, eq_comm]
      · rcases List.mem_append.mp hx with hx | hx
        · rw [update_of_ne (hnot x hx)]
          exact l.held_eq_none x hx
        · obtain rfl : x = (pid, entry) := by simpa using hx
          exact update_self ..

end EntryLedger

/-! ## What a call does to entries -/

/-- **Whom a call ends**, if that can end.  Whether it does is a matter of the process; a call that
names nobody ends nobody. -/
def KernelCall.victim? (t : ProcessTable ε) : KernelCall ε → Option Pid
  | exit _ => some t.currentPid
  | kill pid => some pid
  | syscall number _ => if Syscall.ofNumber? number = some .exit then some t.currentPid else none
  | _ => none

/-- A call may give an entry to a process, or hand one out.  All others can only give entries up. -/
def KernelCall.movesEntries : KernelCall ε → Bool
  | spawn .. | takeEntry => true
  | _ => false

theorem KernelCall.ends_iff {t : ProcessTable ε} {pid : Pid} {call : KernelCall ε} :
    call.Ends t pid ↔ call.victim? t = some pid := by
  cases call <;> simp [Ends, victim?]

namespace Kernel

open ProcessTable

variable {config : BootConfig} {directory : PageDirectory} {I : MemoryInvariant} {clock : Nat}
  {k k' : Kernel ε} {held : Pid → Option ε} {pid? : Option Pid} {call : KernelCall ε}

/-- **The entry of a process is given up**, if it still has one; or nobody's is.  What a process holds
afterwards, and what the kernel gave up, are said together, since the one is the other. -/
structure Closes (k : Kernel ε) (held : Pid → Option ε) (pid? : Option Pid) (k' : Kernel ε) :
    Prop where
  entrusts : k'.processes.Entrusts (pid?.elim held fun pid => update held pid none)
  dropped_eq : k'.dropped.toList = k.dropped.toList ++ (pid?.bind held).toList

theorem Closes.nobody (e' : k'.processes.Entrusts held) (hdropped : k'.dropped = k.dropped) :
    k.Closes held none k' :=
  ⟨e', by simp [hdropped]⟩

theorem Closes.one {pid : Pid} {taken? : Option ε} (e' : k'.processes.Entrusts (update held pid none))
    (hentry : taken? = held pid)
    (hdropped : k'.dropped.toList = k.dropped.toList ++ taken?.toList) :
    k.Closes held (some pid) k' := by
  refine ⟨e', ?_⟩
  rw [Option.bind_some, ← hentry]
  exact hdropped

theorem Closes.of_sameProcesses (e : k.processes.Entrusts held) (h : k.SameProcesses k') :
    k.Closes held none k' := by
  obtain ⟨hprocesses, hdropped⟩ := h
  exact .nobody (hprocesses ▸ e) hdropped

theorem masked_closes {op : Kernel ε → Run (α × Kernel ε)}
    (hop : (op (k.setInterrupts false)).Meets (fun _ => True) fun (_, k') => k.Closes held pid? k') :
    (masked op k).Meets (fun _ => True) fun (_, k') => k.Closes held pid? k' :=
  masked_meets (fun _ => k.Closes held pid?) (fun _ _ _ h => ⟨h.entrusts, h.dropped_eq⟩) hop

/-- A dispatch gives nothing up, and hands nothing out: the process that gets the processor still holds
its entry. -/
theorem reschedule_closes (e : k.processes.Entrusts held) (c : k.processes.Coherent) :
    k.reschedule.Meets (fun _ => True) fun (_, k') =>
      k'.processes.Entrusts held ∧ k'.dropped = k.dropped := by
  unfold reschedule
  refine (e.schedule c k.ticks).bind ?_
  rintro ⟨switch?, t⟩ e'
  cases switch? with
  | none => exact Run.meets_pure ⟨e', rfl⟩
  | some switch => exact Run.meets_pure ⟨e', rfl⟩

/-- **What a process leaves behind** is given up, its entry among it. -/
theorem release_dropped (k : Kernel ε) (remains : Remains ε) :
    (k.release remains).Meets (fun _ => True) fun k' => k'.processes = k.processes
      ∧ k'.dropped.toList = k.dropped.toList ++ remains.pending?.toList := by
  have hdrop : ∀ k' : Kernel ε, k.SameProcesses k' →
      (remains.pending?.elim k' k'.drop).processes = k.processes
        ∧ (remains.pending?.elim k' k'.drop).dropped.toList
          = k.dropped.toList ++ remains.pending?.toList := by
    rintro k' ⟨hprocesses, hdropped⟩
    cases remains.pending? with
    | none => exact ⟨hprocesses, by simp [hdropped]⟩
    | some entry => exact ⟨hprocesses, by simp [drop, hdropped]⟩
  unfold release
  cases remains.stack? with
  | none => exact Run.meets_pure (hdrop k ⟨rfl, rfl⟩)
  | some stack =>
      have hfreed : (Prod.snd <$> k.freeBlock stack.base).Meets (fun _ => True) k.SameProcesses :=
        Run.Meets.map ((Run.meets_returns _).bind fun _ _ => Run.meets_pure ⟨rfl, rfl⟩)
      exact hfreed.bind fun k' h => Run.meets_pure (hdrop k' h)

/-- **A process gave up the processor for good**, and nothing else is given up in the dispatch that may
follow.  Exit and kill both end in this way. -/
theorem release_reschedule_closes (e : k.processes.Entrusts held) (c : k.processes.Coherent)
    (remains : Remains ε) (wasCurrent : Bool) {β : Type} (answer : β) :
    (do
      let k ← k.release remains
      let ((), k) ← if wasCurrent then k.reschedule else pure ((), k)
      pure (answer, k) : Run (β × Kernel ε)).Meets (fun _ => True) fun (_, k') =>
        k'.processes.Entrusts held
          ∧ k'.dropped.toList = k.dropped.toList ++ remains.pending?.toList := by
  refine (k.release_dropped remains).bind fun k₁ ⟨hprocesses, hdropped⟩ => ?_
  rw [← hprocesses] at e c
  cases wasCurrent with
  | false => exact Run.meets_pure ⟨e, hdropped⟩
  | true =>
      refine (reschedule_closes e c).bind ?_
      rintro ⟨_, k₂⟩ ⟨e', hsame⟩
      exact Run.meets_pure ⟨e', (congrArg Array.toList hsame).trans hdropped⟩

theorem Steady.yield_closes (s : Steady config directory I clock k) (e : k.processes.Entrusts held) :
    k.yield.Meets (fun _ => True) fun (_, k') => k.Closes held none k' := by
  refine masked_closes ((reschedule_closes (k := k.setInterrupts false) e s.scheduled.coherent).imp ?_)
  exact fun (_, k') ⟨e', hdropped⟩ => .nobody e' hdropped

/-- **The entry of the running process is given up** when that exits.  An entry that was handed out
before is not there any more. -/
theorem Steady.exit_closes (s : Steady config directory I clock k) (e : k.processes.Entrusts held)
    (code : Int32) :
    (k.exit code).Meets (fun _ => True) fun (_, k') => k.Closes held (some k.currentPid) k' := by
  refine masked_closes ?_
  have c := s.scheduled.coherent
  have hleft : (k.processes.exitCurrent code).Meets (fun _ => True) _ :=
    e.exitCurrent s.scheduled code
  have hpath : (k.processes.exitCurrent code).Meets (fun _ => True) _ :=
    c.exitCurrent_path False (fun h => h.elim) code
  refine (hleft.and hpath).bind ?_
  rintro ⟨ended, t⟩ ⟨⟨hpending, e'⟩, hpath⟩
  cases ended with
  | error cause => exact Run.meets_pure (.one e' hpending (List.append_nil _).symm)
  | ok remains =>
      refine (release_reschedule_closes (k := { k.setInterrupts false with processes := t }) e'
        (hpath.coherent c) remains true (Except.ok ())).imp ?_
      exact fun (_, k') ⟨e'', hdropped⟩ => .one e'' hpending hdropped

/-- **The entry of whoever is killed is given up.**  Where nobody is killed, the pid holds nothing, or
is the kernel's own. -/
theorem Steady.kill_closes (s : Steady config directory I clock k) (e : k.processes.Entrusts held)
    (pid : Pid) :
    (k.kill pid).Meets (fun _ => True) fun (_, k') => k.Closes held (some pid) k' := by
  refine masked_closes ?_
  have hleft : (k.processes.kill pid).Meets (fun _ => True) _ := e.kill pid
  have hpath : (k.processes.kill pid).Meets (fun _ => True) _ :=
    Coherent.kill_path False k.processes pid
  refine (hleft.and hpath).bind ?_
  rintro ⟨ended, t⟩ ⟨⟨hpending, e'⟩, hpath⟩
  match ended with
  | .error cause => exact Run.meets_pure (.one e' hpending (List.append_nil _).symm)
  | .ok (remains, wasCurrent) =>
      refine (release_reschedule_closes (k := { k.setInterrupts false with processes := t }) e'
        (hpath.coherent s.scheduled.coherent) remains wasCurrent (Except.ok ())).imp ?_
      exact fun (_, k') ⟨e'', hdropped⟩ => .one e'' hpending hdropped

theorem Steady.block_closes (s : Steady config directory I clock k) (e : k.processes.Entrusts held) :
    k.block.Meets (fun _ => True) fun (_, k') => k.Closes held none k' := by
  refine masked_closes ?_
  have c := s.scheduled.coherent
  have hleft : k.processes.blockCurrent.Meets (fun _ => True) _ := e.blockCurrent c
  have hpath : k.processes.blockCurrent.Meets (fun _ => True) _ :=
    c.blockCurrent_path False fun h => h.elim
  refine (hleft.and hpath).bind ?_
  rintro ⟨blocked, t⟩ ⟨e', hpath⟩
  cases blocked with
  | error cause => exact Run.meets_pure (.nobody e' rfl)
  | ok =>
      refine (reschedule_closes (k := { k.setInterrupts false with processes := t }) e'
        (hpath.coherent c)).bind ?_
      exact fun (_, k') ⟨e'', hdropped⟩ => Run.meets_pure (.nobody e'' hdropped)

theorem unblock_closes (e : k.processes.Entrusts held) (pid : Pid) :
    (k.unblock pid).Meets (fun _ => True) fun (_, k') => k.Closes held none k' := by
  refine masked_closes (Run.meets_lift_bind_of_ok fun (result, t) hunblock => Run.meets_pure ?_)
  exact .nobody (e.unblock hunblock) rfl

theorem reap_closes (e : k.processes.Entrusts held) :
    k.reap.Meets (fun _ => True) fun (_, k') => k.Closes held none k' := by
  refine masked_closes (Run.Meets.bind e.reap ?_)
  exact fun (count, t) e' => Run.meets_pure (.nobody e' rfl)

theorem Steady.syscall_closes (s : Steady config directory I clock k)
    (e : k.processes.Entrusts held) (number arg : UInt32) :
    (k.syscall number arg).Meets (fun _ => True) fun (_, k') =>
      k.Closes held ((KernelCall.syscall number arg).victim? k.processes) k' := by
  have hsame : k.Closes held none k := .of_sameProcesses e ⟨rfl, rfl⟩
  have hvictim : (KernelCall.syscall number arg).victim? k.processes
      = if Syscall.ofNumber? number = some .exit then some k.processes.currentPid else none := rfl
  rw [hvictim]
  unfold syscall
  cases Syscall.ofNumber? number with
  | none => exact Run.meets_log_bind (Run.meets_pure hsame)
  | some request =>
      cases request with
      | exit =>
          refine (s.exit_closes e arg.toInt32).bind ?_
          rintro ⟨result, k'⟩ closes
          cases result with
          | ok => exact Run.meets_pure closes
          | error cause => exact Run.meets_log_bind (Run.meets_pure closes)
      | getPid => exact Run.meets_pure hsame
      | yield => exact (s.yield_closes e).bind fun (_, k') closes => Run.meets_pure closes

/-- **Every call that neither creates a process nor hands an entry out** gives up the entry of whom it
ends, and no other. -/
theorem Steady.perform_closes (s : Steady config directory I clock k) (e : k.processes.Entrusts held)
    (hcall : call.movesEntries = false) :
    (k.perform call).Meets (fun _ => True) fun k' =>
      k.Closes held (call.victim? k.processes) k' := by
  have hother : call.concernsProcesses = false →
      (k.perform call).Meets (fun _ => True) (k.Closes held none) := fun hcall =>
    (k.perform_sameProcesses hcall).imp fun k' h => .of_sameProcesses e h
  cases call with
  | spawn name priority entry => cases hcall
  | takeEntry => cases hcall
  | yield => exact Run.Meets.map (s.yield_closes e)
  | exit code => exact Run.Meets.map (s.exit_closes e code)
  | kill pid => exact Run.Meets.map (s.kill_closes e pid)
  | block => exact Run.Meets.map (s.block_closes e)
  | unblock pid => exact Run.Meets.map (unblock_closes e pid)
  | reap => exact Run.Meets.map (reap_closes e)
  | syscall number arg => exact Run.Meets.map (s.syscall_closes e number arg)
  | _ => exact hother rfl

/-- **The entry of the running process is handed out**, and the kernel gives none up. -/
theorem Steady.takeEntry_hands (s : Steady config directory I clock k)
    (e : k.processes.Entrusts held) :
    k.takeEntry.Meets (fun _ => True) fun (taken?, k') => taken? = held k.currentPid
      ∧ k'.processes.Entrusts (update held k.currentPid none) ∧ k'.dropped = k.dropped := by
  obtain ⟨hentry, e'⟩ := e.takeEntry s.scheduled.coherent
  refine Kernel.masked_meets (fun (taken? : Option ε) k' => taken? = held k.currentPid
    ∧ k'.processes.Entrusts (update held k.currentPid none) ∧ k'.dropped = k.dropped)
    (fun _ _ _ h => h) ?_
  exact Run.meets_pure ⟨hentry, e', rfl⟩

/-- **Whoever is created holds its entry**; an entry for which nobody is created is given up at once.
An entry that was handed in is therefore never lost. -/
theorem Steady.spawn_entrusts (growable : I.Growable directory config.heapPages)
    (s : Steady config directory I clock k) (e : k.processes.Entrusts held) (name : String)
    (priority : Priority) (entry : ε) :
    (k.spawn name priority entry).Meets (fun _ => True) fun (result, k') =>
      match result with
      | .error _ => k'.processes.Entrusts held ∧ k'.dropped = k.dropped.push entry
      | .ok pid => pid = ⟨k.processes.nextPid⟩ ∧ k.processes.nextPid < k'.processes.nextPid
          ∧ k'.processes.Entrusts (update held pid (some entry)) ∧ k'.dropped = k.dropped := by
  refine (s.spawn_cases growable name priority entry).lax.imp ?_
  rintro ⟨result, k'⟩ spawns
  cases spawns with
  | full => exact ⟨e, rfl⟩
  | inVain room fits refused nothing =>
      obtain ⟨processes_eq, -, hdropped⟩ := nothing
      refine ⟨?_, hdropped⟩
      rw [processes_eq]
      exact e.of_block?_eq fun _ => rfl
  | @created slot b stack _ first fits granted starts processes_eq grants dropped_eq =>
      obtain ⟨-, e'⟩ := e.enrolled s.scheduled first.free starts
      have hpid : b.pid = (k.processes.birth name priority).pid :=
        congrArg ProcessInfo.pid starts.info_eq
      rw [hpid, ← processes_eq] at e'
      refine ⟨rfl, ?_, e', dropped_eq⟩
      rw [processes_eq, nextPid_enrolled]
      exact nextPid_lt fits

/-- Pids are handed out in increasing order, whatever is asked.  Somebody who is new has a pid above
all that are written down. -/
theorem Steady.perform_nextPid_le {range : FrameRange}
    (s : Steady config directory (MemoryInvariant.lending range) clock k) (call : KernelCall ε) :
    (k.perform call).Meets (fun _ => True) fun k' =>
      k.processes.nextPid ≤ k'.processes.nextPid := by
  have hmake := Census.kernel_make (Census.ofKernel k) call
  rw [Census.ofKernel] at hmake
  rw [← hmake]
  refine Run.Meets.map ((Census.make_leads s call).imp fun census leads => ?_)
  obtain ⟨births, deaths, -, -, lives⟩ := leads
  exact (lives.settles s.scheduled.coherent).nextPid_le

end Kernel

/-! ## Sessions -/

/-- **A kernel, and what became of its entries**, the earliest first.  Each is written down under a
pid: that of the process that it was for, of the process that was running when it was handed out, and
of the process that was ended when the kernel gave it up. -/
structure EntrySession (ε : Type) where
  kernel : Kernel ε
  given : List (Pid × ε)
  taken : List (Pid × ε)
  dropped : List (Pid × ε)
  /-- Entries for which no process was created. -/
  refused : List ε

namespace EntrySession

/-- Nothing was given to anybody yet. -/
def ofKernel (kernel : Kernel ε) : EntrySession ε :=
  { kernel, given := [], taken := [], dropped := [], refused := [] }

/-- What can be seen of entries when a call is over by which they were given up: those of whom the call
ended.  They are read off the kernel's own list, which only grows. -/
def closed (s : EntrySession ε) (call : KernelCall ε) (kernel : Kernel ε) : EntrySession ε :=
  let lost := kernel.dropped.toList.drop s.kernel.dropped.size
  let dropped := (call.victim? s.kernel.processes).toList.flatMap fun pid => lost.map (pid, ·)
  { s with kernel, dropped := s.dropped ++ dropped }

/-- **One call**, and what can be seen of entries.  Nothing is written down but what a client could
observe. -/
def make (s : EntrySession ε) : KernelCall ε → Run (EntrySession ε)
  | .spawn name priority entry => do
    match ← s.kernel.spawn name priority entry with
    | (.ok pid, kernel) => pure { s with kernel, given := s.given ++ [(pid, entry)] }
    | (.error _, kernel) => pure { s with kernel, refused := s.refused ++ [entry] }
  | .takeEntry => do
    let (taken?, kernel) ← s.kernel.takeEntry
    let taken := taken?.toList.map (s.kernel.currentPid, ·)
    pure { s with kernel, taken := s.taken ++ taken }
  | call => do
    let kernel ← s.kernel.perform call
    pure (s.closed call kernel)

/-- **Calls, one after the other.**  A fault ends the run. -/
def run (s : EntrySession ε) : List (KernelCall ε) → Run (EntrySession ε)
  | [] => pure s
  | call :: calls => do
    let s ← s.make call
    s.run calls

@[simp]
theorem kernel_closed (s : EntrySession ε) (call : KernelCall ε) (kernel : Kernel ε) :
    (s.closed call kernel).kernel = kernel := rfl

theorem make_eq (s : EntrySession ε) {call : KernelCall ε} (hcall : call.movesEntries = false) :
    s.make call = (do
      let kernel ← s.kernel.perform call
      pure (s.closed call kernel)) := by
  cases call with
  | spawn name priority entry => cases hcall
  | takeEntry => cases hcall
  | _ => rfl

/-- What is written down makes no difference to the kernel. -/
theorem kernel_make (s : EntrySession ε) (call : KernelCall ε) :
    EntrySession.kernel <$> s.make call = s.kernel.perform call := by
  have hother : call.movesEntries = false →
      EntrySession.kernel <$> s.make call = s.kernel.perform call := fun hcall => by
    simp [s.make_eq hcall]
  cases call with
  | spawn name priority entry =>
      simp only [make, Kernel.perform, map_eq_pure_bind, bind_assoc]
      congr 1
      funext spawned
      obtain ⟨result, kernel⟩ := spawned
      cases result <;> simp
  | takeEntry => simp [make, Kernel.perform]
  | _ => exact hother rfl

theorem kernel_run (s : EntrySession ε) (calls : List (KernelCall ε)) :
    EntrySession.kernel <$> s.run calls = s.kernel.run calls := by
  induction calls generalizing s with
  | nil => rfl
  | cons call calls ih =>
      rw [run, Kernel.run, ← kernel_make, map_bind, bind_map_left]
      simp only [ih]

/-- **The books of the entries.**  Together the clauses say where every entry is that was ever handed
in: used by its process, given up, still held, or refused.  They are permutations and not inclusions,
so that an entry that was used twice or lost would show. -/
structure Accounted (s : EntrySession ε) : Prop where
  /-- Every entry that was given to a process was handed out, or was given up, or is still held by its
  process: one of the three, and once. -/
  given_perm : s.given.Perm (s.taken ++ s.dropped ++ s.kernel.processes.entries)
  /-- No process was given two entries. -/
  given_nodup : (s.given.map Prod.fst).Nodup
  /-- The kernel gave up the entries of processes that ended, and those for which no process was
  created, and none besides. -/
  dropped_perm : s.kernel.dropped.toList.Perm (s.dropped.map Prod.snd ++ s.refused)
  /-- Whoever is terminated holds no entry, and so nothing is handed out for it later. -/
  terminated : ∀ b ∈ s.kernel.processes.blocks, b.state = .terminated → b.pending? = none
  /-- Entries are handed out to a process that is running. -/
  running : ∃ b ∈ s.kernel.processes.blocks, b.pid = s.kernel.currentPid ∧ b.state = .running

/-- **What a call does to entries**: only handing out hands one out, which is that of the running
process; and the one of whom the call ends is given up.  Both are said in terms of what was held before
the call. -/
structure Uses (s : EntrySession ε) (call : KernelCall ε) (s' : EntrySession ε) : Prop where
  taken_eq : s'.taken = s.taken ++ match call with
    | .takeEntry => s.kernel.processes.entries.filter fun x => x.1 = s.kernel.currentPid
    | _ => []
  dropped_eq : s'.dropped = s.dropped
    ++ s.kernel.processes.entries.filter fun x => call.Ends s.kernel.processes x.1

open Kernel MemoryInvariant ProcessTable

/-- **The invariant of a session**: the kernel is steady, the table tells who holds what, and the
ledger agrees with the table.  The last two fields are there because pids and refused entries are not
in the ledger. -/
structure Consistent (config : BootConfig) (directory : PageDirectory) (range : FrameRange)
    (clock : Nat) (s : EntrySession ε) : Prop where
  steady : s.kernel.Steady config directory (lending range) clock
  entrusts : s.kernel.processes.Entrusts s.kernel.processes.entryOf?
  ledger : EntryLedger s.given (s.taken ++ s.dropped) s.kernel.processes.entryOf?
  given_lt : ∀ x ∈ s.given, x.1.val < s.kernel.processes.nextPid
  dropped_perm : s.kernel.dropped.toList.Perm (s.dropped.map Prod.snd ++ s.refused)

variable {config : BootConfig} {directory : PageDirectory} {range : FrameRange} {clock : Nat}
  {s s' : EntrySession ε} {call : KernelCall ε}

namespace Consistent

/-- It is told by the table who holds what, so that an account that was kept in another way may be
exchanged for it. -/
theorem of_entrusts {held : Pid → Option ε}
    (steady : s.kernel.Steady config directory (lending range) clock)
    (entrusts : s.kernel.processes.Entrusts held)
    (ledger : EntryLedger s.given (s.taken ++ s.dropped) held)
    (given_lt : ∀ x ∈ s.given, x.1.val < s.kernel.processes.nextPid)
    (dropped_perm : s.kernel.dropped.toList.Perm (s.dropped.map Prod.snd ++ s.refused)) :
    Consistent config directory range clock s := by
  obtain rfl := entrusts.entryOf?_eq
  exact ⟨steady, entrusts, ledger, given_lt, dropped_perm⟩

theorem accounted (c : Consistent config directory range clock s) : s.Accounted where
  given_perm := by
    have hentries := c.entrusts.entries_nodup
    refine (List.perm_ext_iff_of_nodup c.ledger.given_nodup.of_map ?_).mpr fun ⟨pid, entry⟩ => ?_
    · refine List.nodup_append.mpr ⟨c.ledger.used_nodup.of_map, hentries.of_map, ?_⟩
      rintro x hused ⟨pid, entry⟩ hheld rfl
      have hnone := c.ledger.held_eq_none _ hused
      cases hnone.symm.trans (c.entrusts.mem_entries.mp hheld)
    · rw [c.ledger.mem_given_iff, List.mem_append (s := _ ++ _), c.entrusts.mem_entries]
  given_nodup := c.ledger.given_nodup
  dropped_perm := c.dropped_perm
  terminated b hmem hdead := by
    obtain ⟨slot, hb⟩ := mem_blocks.mp hmem
    exact c.entrusts.spent slot b hb (Or.inl hdead)
  running := by
    obtain ⟨b, hb, hstate⟩ := Option.map_eq_some_iff.mp c.steady.scheduled.current_running
    exact ⟨b, mem_blocks.mpr ⟨_, hb⟩, (currentPid_of_block? hb).symm, hstate⟩

/-- The entries of whom a call ends.  There is one at most, as nobody has two. -/
theorem filter_ends (c : Consistent config directory range clock s) (call : KernelCall ε) :
    (s.kernel.processes.entries.filter fun x => call.Ends s.kernel.processes x.1)
      = (call.victim? s.kernel.processes).toList.flatMap fun pid =>
          (s.kernel.processes.entryOf? pid).toList.map (pid, ·) := by
  simp only [KernelCall.ends_iff]
  cases call.victim? s.kernel.processes with
  | none => simp
  | some pid =>
      simpa [eq_comm] using c.entrusts.filter_entries pid

/-- A call that ends nobody gives nothing up. -/
theorem append_filter_ends (c : Consistent config directory range clock s)
    (hcall : call.victim? s.kernel.processes = none) :
    s.dropped = s.dropped
      ++ s.kernel.processes.entries.filter fun x => call.Ends s.kernel.processes x.1 := by
  rw [c.filter_ends, hcall, Option.toList_none, List.flatMap_nil, List.append_nil]

/-- **The entry of whom a call ends is given up**, and the books are balanced again. -/
theorem closed {kernel : Kernel ε} {clock' : Nat} (c : Consistent config directory range clock s)
    (hcall : call.movesEntries = false)
    (steady : kernel.Steady config directory (lending range) clock')
    (hle : s.kernel.processes.nextPid ≤ kernel.processes.nextPid)
    (closes : s.kernel.Closes s.kernel.processes.entryOf? (call.victim? s.kernel.processes) kernel) :
    Consistent config directory range clock' (s.closed call kernel)
      ∧ s.Uses call (s.closed call kernel) := by
  have hlost : kernel.dropped.toList.drop s.kernel.dropped.size
      = ((call.victim? s.kernel.processes).bind s.kernel.processes.entryOf?).toList := by
    rw [closes.dropped_eq, ← Array.length_toList, List.drop_left]
  have hdropped : (s.closed call kernel).dropped = s.dropped
      ++ s.kernel.processes.entries.filter fun x => call.Ends s.kernel.processes x.1 := by
    rw [c.filter_ends call, EntrySession.closed, hlost]
    cases call.victim? s.kernel.processes <;> rfl
  refine ⟨.of_entrusts steady closes.entrusts ?_
    (fun x hx => UInt32.lt_of_lt_of_le (c.given_lt x hx) hle) ?_, ?_, hdropped⟩
  · show EntryLedger s.given (s.taken ++ (s.closed call kernel).dropped) _
    rw [hdropped, c.filter_ends call, ← List.append_assoc]
    cases call.victim? s.kernel.processes with
    | none => simpa using c.ledger
    | some pid => simpa using c.ledger.use pid
  · show kernel.dropped.toList.Perm ((s.closed call kernel).dropped.map Prod.snd ++ s.refused)
    have hsnd : (s.kernel.processes.entries.filter fun x =>
        call.Ends s.kernel.processes x.1).map Prod.snd
          = ((call.victim? s.kernel.processes).bind s.kernel.processes.entryOf?).toList := by
      rw [c.filter_ends call]
      cases call.victim? s.kernel.processes <;> simp
    rw [closes.dropped_eq, hdropped, List.map_append, hsnd, List.append_assoc]
    refine (c.dropped_perm.append_right _).trans ?_
    rw [List.append_assoc]
    exact List.perm_append_comm.append_left _
  · cases call with
    | takeEntry => cases hcall
    | _ => exact (List.append_nil _).symm

/-- **The entry of the running process is handed out**, and the books say so. -/
theorem handed {kernel : Kernel ε} {clock' : Nat} (c : Consistent config directory range clock s)
    (steady : kernel.Steady config directory (lending range) clock')
    (hle : s.kernel.processes.nextPid ≤ kernel.processes.nextPid) {taken? : Option ε}
    (hentry : taken? = s.kernel.processes.entryOf? s.kernel.currentPid)
    (entrusts : kernel.processes.Entrusts
      (update s.kernel.processes.entryOf? s.kernel.currentPid none))
    (hdropped : kernel.dropped = s.kernel.dropped) :
    let s' := { s with
      kernel, taken := s.taken ++ taken?.toList.map (s.kernel.currentPid, ·) }
    Consistent config directory range clock' s' ∧ s.Uses .takeEntry s' := by
  intro s'
  subst hentry
  refine ⟨.of_entrusts steady entrusts ?_
    (fun x hx => UInt32.lt_of_lt_of_le (c.given_lt x hx) hle) ?_, ?_, ?_⟩
  · refine (c.ledger.use s.kernel.currentPid).perm ?_
    show (s.taken ++ s.dropped ++ _).Perm (s.taken ++ _ ++ s.dropped)
    rw [List.append_assoc, List.append_assoc]
    exact List.perm_append_comm.append_left _
  · rw [hdropped]
    exact c.dropped_perm
  · exact congrArg (s.taken ++ ·) (c.entrusts.filter_entries _).symm
  · exact c.append_filter_ends rfl

/-- **A process is given its entry**, under a pid that is new to the books. -/
theorem created {kernel : Kernel ε} {clock' : Nat} (c : Consistent config directory range clock s)
    (steady : kernel.Steady config directory (lending range) clock') {pid : Pid}
    (hpid : pid = ⟨s.kernel.processes.nextPid⟩)
    (hlt : s.kernel.processes.nextPid < kernel.processes.nextPid)
    (name : String) (priority : Priority) (entry : ε)
    (entrusts : kernel.processes.Entrusts
      (update s.kernel.processes.entryOf? pid (some entry)))
    (hdropped : kernel.dropped = s.kernel.dropped) :
    let s' := { s with kernel, given := s.given ++ [(pid, entry)] }
    Consistent config directory range clock' s' ∧ s.Uses (.spawn name priority entry) s' := by
  intro s'
  refine ⟨.of_entrusts steady entrusts ?_ (fun x hx => ?_) ?_, ?_, ?_⟩
  · refine c.ledger.give (fun x hx heq => ?_) entry
    have hold := c.given_lt x hx
    rw [heq, hpid] at hold
    exact UInt32.lt_irrefl _ hold
  · rcases List.mem_append.mp hx with hx | hx
    · exact UInt32.lt_trans (c.given_lt x hx) hlt
    · rw [List.mem_singleton.mp hx, hpid]
      exact hlt
  · rw [hdropped]
    exact c.dropped_perm
  · exact (List.append_nil _).symm
  · exact c.append_filter_ends rfl

/-- **Nobody is created**, and the entry is given up at once. -/
theorem refused {kernel : Kernel ε} {clock' : Nat} (c : Consistent config directory range clock s)
    (steady : kernel.Steady config directory (lending range) clock')
    (hle : s.kernel.processes.nextPid ≤ kernel.processes.nextPid)
    (name : String) (priority : Priority) (entry : ε)
    (entrusts : kernel.processes.Entrusts s.kernel.processes.entryOf?)
    (hdropped : kernel.dropped = s.kernel.dropped.push entry) :
    let s' := { s with kernel, refused := s.refused ++ [entry] }
    Consistent config directory range clock' s' ∧ s.Uses (.spawn name priority entry) s' := by
  intro s'
  refine ⟨.of_entrusts steady entrusts c.ledger
    (fun x hx => UInt32.lt_of_lt_of_le (c.given_lt x hx) hle) ?_, ?_, ?_⟩
  · rw [hdropped, Array.toList_push]
    show (s.kernel.dropped.toList ++ [entry]).Perm (s.dropped.map Prod.snd ++ (s.refused ++ [entry]))
    rw [← List.append_assoc]
    exact c.dropped_perm.append_right [entry]
  · exact (List.append_nil _).symm
  · exact c.append_filter_ends rfl

/-- **Every call keeps the books**, and uses the entries that it should. -/
theorem make_meets (c : Consistent config directory range clock s) (call : KernelCall ε) :
    (s.make call).Meets (CounterFault clock s.kernel) fun s' =>
      Consistent config directory range (clock + call.ticks) s' ∧ s.Uses call s' := by
  have hsteady : (s.make call).Meets (CounterFault clock s.kernel) fun s' =>
      s'.kernel.Steady config directory (lending range) (clock + call.ticks)
        ∧ s.kernel.processes.nextPid ≤ s'.kernel.processes.nextPid := by
    have hperform := (c.steady.perform_meets call).and (c.steady.perform_nextPid_le call)
    rw [← kernel_make] at hperform
    exact hperform.of_map
  have hother : call.movesEntries = false → (s.make call).Meets (fun _ => True) fun s' =>
      s'.kernel.Steady config directory (lending range) (clock + call.ticks)
        ∧ s.kernel.processes.nextPid ≤ s'.kernel.processes.nextPid →
      Consistent config directory range (clock + call.ticks) s' ∧ s.Uses call s' := fun hcall => by
    rw [s.make_eq hcall]
    exact (c.steady.perform_closes c.entrusts hcall).bind fun kernel closes =>
      Run.meets_pure fun ⟨steady, hle⟩ => c.closed hcall steady hle closes
  suffices hbooks : (s.make call).Meets (fun _ => True) fun s' =>
      s'.kernel.Steady config directory (lending range) (clock + call.ticks)
        ∧ s.kernel.processes.nextPid ≤ s'.kernel.processes.nextPid →
      Consistent config directory range (clock + call.ticks) s' ∧ s.Uses call s' from
    (hsteady.and hbooks).imp fun s' h => h.2 h.1
  cases call with
  | spawn name priority entry =>
      refine (c.steady.spawn_entrusts (lending_growable _ _ _) c.entrusts name priority entry).bind ?_
      rintro ⟨result, kernel⟩ hresult
      cases result with
      | error cause =>
          obtain ⟨entrusts, hdropped⟩ := hresult
          exact Run.meets_pure fun ⟨steady, hle⟩ =>
            c.refused steady hle name priority entry entrusts hdropped
      | ok pid =>
          obtain ⟨hpid, hlt, entrusts, hdropped⟩ := hresult
          exact Run.meets_pure fun ⟨steady, _⟩ =>
            c.created steady hpid hlt name priority entry entrusts hdropped
  | takeEntry =>
      refine (c.steady.takeEntry_hands c.entrusts).bind ?_
      rintro ⟨taken?, kernel⟩ ⟨hentry, entrusts, hdropped⟩
      exact Run.meets_pure fun ⟨steady, hle⟩ => c.handed steady hle hentry entrusts hdropped
  | _ => exact hother rfl

/-- **Calls, one after the other**, by induction on the calls. -/
theorem run_meets (c : Consistent config directory range clock s) (calls : List (KernelCall ε)) :
    (s.run calls).Meets (fun e => e = .overflow .add)
      (Consistent config directory range (clock + ticksOf calls)) := by
  induction calls generalizing s clock with
  | nil => exact Run.meets_pure c
  | cons call calls ih =>
      rw [add_ticksOf_cons]
      refine ((c.make_meets call).mono CounterFault.eq_overflow fun _ h => h).bind ?_
      exact fun s₁ ⟨c₁, _⟩ => ih c₁

end Consistent

end EntrySession

namespace Kernel

open MemoryInvariant

/-- **A kernel just booted** gave nothing to anybody, and nobody holds anything. -/
theorem boot_consistent (machine : Machine) (config : BootConfig) :
    (boot machine config : Run (Kernel ε)).Meets (fun _ => True) fun k =>
      EntrySession.Consistent config k.directory (.ofMemory config.memoryTop config.reservedTop) 0
        (EntrySession.ofKernel k) := by
  have hboot := boot_fresh (ε := ε)
    (I := fun _ => lending (.ofMemory config.memoryTop config.reservedTop)) machine config
    lending_start fun directory => lending_growable _ directory _
  refine hboot.imp fun k ⟨steady, _, hprocesses, hdropped⟩ => ?_
  have entrusts : k.processes.Entrusts fun _ => none := hprocesses ▸ .new _
  refine .of_entrusts steady entrusts .empty nofun ?_
  show k.dropped.toList.Perm _
  rw [hdropped]
  exact List.Perm.refl _

/-- **In every run** the kernel is steady, and the table tells who holds which entry. -/
theorem boot_entrusts (machine : Machine) (config : BootConfig) :
    (boot machine config : Run (Kernel ε)).Meets (fun _ => True) fun k =>
      ∀ calls : List (KernelCall ε), (k.run calls).Meets (fun e => e = .overflow .add) fun k' =>
        Steady config k.directory (lending (.ofMemory config.memoryTop config.reservedTop))
            (ticksOf calls) k'
          ∧ k'.processes.Entrusts k'.processes.entryOf? := by
  refine (boot_consistent machine config).imp fun k c calls => ?_
  have hrun := c.run_meets calls
  rw [Nat.zero_add] at hrun
  rw [show k.run calls = _ from (EntrySession.kernel_run (EntrySession.ofKernel k) calls).symm]
  exact Run.Meets.map (hrun.imp fun s c => ⟨c.steady, c.entrusts⟩)

/-- **Every entry is used once at most**, in every run of a booted kernel.  An entry that a process was
created with was handed out once, while that process was running, or given up once, when that process
exited or was killed, or the process holds it: always one of the three.  Whoever is terminated holds
none, and so none is handed out for it.  A call faults only if a counter runs out. -/
theorem boot_entries_used_once (machine : Machine) (config : BootConfig) :
    (boot machine config : Run (Kernel ε)).Meets (fun _ => True) fun k =>
      ∀ calls : List (KernelCall ε), ((EntrySession.ofKernel k).run calls).Meets
        (fun e => e = .overflow .add) fun s =>
          s.Accounted
            ∧ ∀ call, (s.make call).Meets (CounterFault (ticksOf calls) s.kernel) (s.Uses call) := by
  refine (boot_consistent machine config).imp fun k c calls => ?_
  refine (c.run_meets calls).imp fun s c => ⟨c.accounted, fun call => ?_⟩
  rw [Nat.zero_add] at c
  exact (c.make_meets call).imp fun s' h => h.2

end Kernel

end TinyKernel
