import TinyKernel.Proofs.Process.Keeps

/-!
# Whose registers are restored

A process that gives up the processor gets its registers back when it is dispatched again, whatever
happened in between: other processes may have come and gone, and slots may have been used again.  A
process that never ran starts with the registers that it was created with.

The table is used as the kernel uses it.  A reservation is at once made a process or given up; whoever
exits, blocks or kills itself makes way at once; and at a switch the processor stores what registers
it likes for the process that it leaves.

## What is load-bearing

What a process should get back is said in terms of the history alone, which knows pids but neither
slots nor tables (`ContextHistory.owed?`).  No pid is handed out twice; that is why a history that
knows only pids cannot mistake one process for an earlier one in its slot.

* `ContextHistory` — what happened, as far as registers go
* `ContextHistory.Intact` — the switches form a path, and everybody gets back what is theirs
* `ProcessSession` — a table, with its history
* `ProcessSession.execute_faithful` — every history is intact
-/

namespace TinyKernel

/-! ## Histories -/

/-- **What happens to registers.**  Nothing else that is done to a process shows here: neither its
state nor its time, and not how it ends.  A process that is created is noted with the registers that it
should start with, by the rule for new processes and not by what the table has. -/
inductive ContextEvent where
  /-- A process is created, which is to start with some registers. -/
  | began (pid : Pid) (context : Context)
  /-- The processor goes from one process to another.  It finds some registers for the one that it
  goes to, and stores some for the one that it leaves. -/
  | switched (fromPid toPid : Pid) (found stored : Context)

/-- What happened, the latest event first, so that functions of it recurse towards the past. -/
abbrev ContextHistory := List ContextEvent

namespace ContextHistory

/-- The registers that were stored when the processor last left a process, if it ever did. -/
def lastStored? (pid : Pid) : ContextHistory → Option Context
  | [] => none
  | .began _ _ :: older => lastStored? pid older
  | .switched fromPid _ _ stored :: older =>
    if fromPid = pid then some stored else lastStored? pid older

/-- The registers that a process was created with.  No pid is given twice, so there is one such event
at most. -/
def initial? (pid : Pid) : ContextHistory → Option Context
  | [] => none
  | .began pid' context :: older => if pid' = pid then some context else initial? pid older
  | .switched _ _ _ _ :: older => initial? pid older

/-- **The registers that a process should get back**: those that were stored when the processor last
left it, or else those that it was created with. -/
def owed? (h : ContextHistory) (pid : Pid) : Option Context := h.lastStored? pid <|> h.initial? pid

/-- The process that the processor went to last.  At first it is the kernel's, which nobody went to. -/
def reached : ContextHistory → Pid
  | [] => .kernel
  | .began _ _ :: older => reached older
  | .switched _ toPid _ _ :: _ => toPid

/-- **Every switch starts where the last one ended**, goes to another process, and finds there what
that process should get back.  It speaks of what was found at the time of the switch, and not of what
is saved now. -/
def Intact : ContextHistory → Prop
  | [] => True
  | .began _ _ :: older => Intact older
  | .switched fromPid toPid found _ :: older =>
    fromPid = reached older ∧ toPid ≠ fromPid ∧ owed? older toPid = some found ∧ Intact older

/-- **The registers that a process is created with** by the process that the processor went to last: it
starts at an entry point, on an empty stack, with interrupts enabled, in the address space of its
creator.  It is a function of the history, and does not look at the table. -/
def entryContext (h : ContextHistory) (stack : Stack) (entryPoint : UInt32) : Context where
  eip := entryPoint
  esp := stack.initialPointer
  ebp := stack.initialPointer
  eflags := 0x202
  cr3 := (h.owed? h.reached).elim 0 Context.cr3

variable {h : ContextHistory} {pid pid' fromPid toPid : Pid} {context found stored : Context}

theorem owed?_began (hnew : h.lastStored? pid = none) :
    owed? (.began pid context :: h) pid = some context := by
  rw [owed?, lastStored?, hnew, initial?, if_pos rfl]
  rfl

theorem owed?_began_of_ne (hne : pid' ≠ pid) :
    owed? (.began pid' context :: h) pid = h.owed? pid := by
  rw [owed?, lastStored?, initial?, if_neg hne, owed?]

theorem owed?_switched : owed? (.switched fromPid toPid found stored :: h) pid
    = if fromPid = pid then some stored else h.owed? pid := by
  rw [owed?, lastStored?, initial?, owed?]
  split <;> rfl

end ContextHistory

/-! ## Sessions -/

/-- **What can be asked of a process table**, in the order in which a kernel asks.  Where it may come
to a switch, the call says at which tick, and which registers the processor stores.  A process that
gives up the processor is switched from at once. -/
inductive ProcessCall (ε : Type) where
  /-- A slot is reserved, and made a process at once. -/
  | create (name : String) (priority : Priority) (stack : Stack) (entry : ε) (entryPoint : UInt32)
  /-- A slot is reserved, and given up at once. -/
  | giveUp (name : String) (priority : Priority)
  | schedule (now : Nat) (stored : Context)
  | exit (code : Int32) (now : Nat) (stored : Context)
  | kill (pid : Pid) (now : Nat) (stored : Context)
  | block (now : Nat) (stored : Context)
  | unblock (pid : Pid)
  | reap
  | takeEntry

/-- **A process table, with its history.**  The history is an observer: no call reads it to decide what
the table does. -/
structure ProcessSession (ε : Type) where
  table : ProcessTable ε
  history : ContextHistory

namespace ProcessSession

variable {ε : Type}

/-- The next process gets the processor, if there is one, which stores registers for the one before.
What it finds is read before anything is stored. -/
def dispatch (s : ProcessSession ε) (now : Nat) (stored : Context) : Run (ProcessSession ε) := do
  let (switch?, table) ← s.table.schedule now
  match switch? with
  | none => pure { s with table }
  | some w =>
    let found := table.contextAt w.toSlot
    pure {
      table := table.saveContext w.fromSlot stored
      history := .switched w.fromPid w.toPid found stored :: s.history }

/-- A reservation is made, and used at once if it could be made.  No other call comes in between. -/
def reserving (s : ProcessSession ε) (name : String) (priority : Priority)
    (use : Reservation → ProcessTable ε → Run (ProcessSession ε)) : Run (ProcessSession ε) := do
  let (reserved, table) ← s.table.reserve name priority
  match reserved with
  | .error _ => pure { s with table }
  | .ok r => use r table

/-- **One call**, and what it adds to the history. -/
def step (s : ProcessSession ε) : ProcessCall ε → Run (ProcessSession ε)
  | .create name priority stack entry entryPoint => s.reserving name priority fun r table => do
    let table ← table.activate r stack entry entryPoint
    let context := s.history.entryContext stack entryPoint
    pure { table, history := .began r.pid context :: s.history }
  | .giveUp name priority => s.reserving name priority fun r table =>
    pure { s with table := table.abandon r }
  | .schedule now stored => s.dispatch now stored
  | .exit code now stored => do
    let (ended, table) ← s.table.exitCurrent code
    match ended with
    | .error _ => pure { s with table }
    | .ok _ => dispatch { s with table } now stored
  | .kill pid now stored => do
    let (ended, table) ← s.table.kill pid
    match ended with
    | .ok (_, true) => dispatch { s with table } now stored
    | _ => pure { s with table }
  | .block now stored => do
    let (blocked, table) ← s.table.blockCurrent
    match blocked with
    | .error _ => pure { s with table }
    | .ok () => dispatch { s with table } now stored
  | .unblock pid => do
    let (_, table) ← s.table.unblock pid
    pure { s with table }
  | .reap => do
    let (_, table) ← s.table.reap
    pure { s with table }
  | .takeEntry => pure { s with table := s.table.takeEntry.2 }

/-- Calls, one after the other, until one of them faults. -/
def run (s : ProcessSession ε) : List (ProcessCall ε) → Run (ProcessSession ε)
  | [] => pure s
  | call :: calls => do
    let s ← s.step call
    s.run calls

/-- **A whole session**, which the kernel's process begins in the address space of a directory.  Its
first registers are those of a process that was never left. -/
def execute (kernelDirectory : PhysAddr) (calls : List (ProcessCall ε)) : Run (ProcessSession ε) :=
  run {
    table := .new kernelDirectory
    history := [.began .kernel { cr3 := kernelDirectory.val }] } calls

/-- **Faults of a session**: a time, a pid, or a place on a stack does not fit its word.  The queue
always has a place here, as no slot is queued twice. -/
def Overflows (e : Fault) : Prop := ∃ operation, e = .overflow operation

end ProcessSession

/-! ## The history and the table -/

/-- **The table agrees with the history**: it has for each process what that process should get back,
and the processor is where the history says.  Pids that are yet to come must be unknown to the history,
or a new process would be owed old registers. -/
structure ContextHistory.Records {ε : Type} (h : ContextHistory) (t : ProcessTable ε) : Prop where
  intact : h.Intact
  reached_eq : t.pidAt? t.current = some h.reached
  owed?_eq : ∀ s b, t.block? s = some b → h.owed? b.pid = some b.context
  /-- Nobody left who is yet to come. -/
  fresh : ∀ pid : Pid, t.nextPid ≤ pid.val → h.lastStored? pid = none

namespace ContextHistory.Records

open ProcessTable

variable {ε : Type} {h : ContextHistory} {t t' : ProcessTable ε} {s : Slot} {b : ControlBlock ε}

/-- What keeps pids and registers keeps to the history, whatever it does to states and the queue. -/
theorem keeps (c : h.Records t) (k : Keeps t t') (hocc : (t'.block? t'.current).isSome) :
    h.Records t' where
  intact := c.intact
  reached_eq := by
    obtain ⟨b', hb'⟩ := Option.isSome_iff_exists.mp hocc
    obtain ⟨b, hb, hpid, -⟩ := k.saved _ b' hb'
    rw [pidAt?_of_block? hb', hpid, ← pidAt?_of_block? hb, k.current_eq]
    exact c.reached_eq
  owed?_eq s b' hb' := by
    obtain ⟨b, hb, hpid, hcontext⟩ := k.saved s b' hb'
    rw [hpid, hcontext]
    exact c.owed?_eq s b hb
  fresh pid hpid := c.fresh pid (k.nextPid_eq ▸ hpid)

/-- The process that the processor is at is in the table, and its registers are those it is owed.  They
are old, as the processor has newer ones. -/
theorem exists_current (c : h.Records t) :
    ∃ b, t.block? t.current = some b ∧ b.pid = h.reached ∧ h.owed? h.reached = some b.context := by
  obtain ⟨b, hb, hpid⟩ := Option.map_eq_some_iff.mp c.reached_eq
  exact ⟨b, hb, hpid, hpid ▸ c.owed?_eq _ b hb⟩

/-- **The processor goes to the next process**, and finds what that process should get back.  What it
stores is for the process that it leaves, and that is another one. -/
theorem switched (c : h.Records t) (d : Dispatchable t) {next : Slot} {rest : List Slot}
    {outgoing incoming : ControlBlock ε} {now : Nat} (hready : t.ready = next :: rest)
    (hout : t.block? t.current = some outgoing) (hin : t.block? next = some incoming)
    (stored : Context) :
    Records (.switched outgoing.pid incoming.pid
        ((t.switched next rest now outgoing incoming).contextAt next) stored :: h)
      ((t.switched next rest now outgoing incoming).saveContext t.current stored) := by
  obtain ⟨-, hne, -⟩ := d.head hready
  have hpidout := pidAt?_of_block? hout
  have hpidin := pidAt?_of_block? hin
  have hfound : (t.switched next rest now outgoing incoming).contextAt next = incoming.context := by
    rw [contextAt, block?_switched, if_pos rfl]
    rfl
  have hpids : incoming.pid ≠ outgoing.pid := fun heq =>
    hne (d.pid_inj next t.current _ hpidin (heq ▸ hpidout))
  rw [hfound]
  refine ⟨⟨?_, hpids, c.owed?_eq next incoming hin, c.intact⟩, ?_, ?_, ?_⟩
  · exact Option.some.inj (hpidout.symm.trans c.reached_eq)
  · show ((t.switched next rest now outgoing incoming).saveContext t.current stored).pidAt? next = _
    rw [pidAt?, block?_saveContext, if_neg hne, block?_switched, if_pos rfl]
    rfl
  · intro s b hb
    rw [block?_saveContext] at hb
    rw [owed?_switched]
    by_cases hs : s = t.current
    · -- the process that is left has what was stored
      rw [if_pos hs] at hb
      obtain ⟨b', hb', rfl⟩ := Option.map_eq_some_iff.mp hb
      obtain ⟨b₀, hb₀, hpid, -⟩ := switched_saved hout hin hb'
      obtain rfl := Option.some.inj (hout.symm.trans hb₀)
      exact if_pos hpid.symm
    · -- and all others have what they had
      rw [if_neg hs] at hb
      obtain ⟨b₀, hb₀, hpid, hcontext⟩ := switched_saved hout hin hb
      have hother : outgoing.pid ≠ b.pid := fun heq =>
        hs (d.pid_inj s t.current _ (pidAt?_of_block? hb₀) (hpid ▸ heq ▸ hpidout))
      rw [if_neg hother, hpid, hcontext]
      exact c.owed?_eq s b₀ hb₀
  · intro pid hpid
    have hlt := d.pid_lt _ _ hpidout
    have hother : outgoing.pid ≠ pid := by
      rintro rfl
      exact absurd hlt (UInt32.not_lt.mpr hpid)
    exact (if_neg hother).trans (c.fresh pid hpid)

/-- A pid is handed out, and nobody was ever left under it. -/
theorem nextPid (c : h.Records t) (hfits : t.nextPid.toNat + 1 < 2 ^ 32) :
    h.Records { t with nextPid := t.nextPid + 1 } where
  intact := c.intact
  reached_eq := c.reached_eq
  owed?_eq := c.owed?_eq
  fresh pid hle := by
    refine c.fresh pid (UInt32.le_trans ?_ hle)
    rw [UInt32.le_iff_toNat_le, UInt32.toNat_add]
    simp only [UInt32.reduceToNat]
    omega

/-- **A process is created**, with the registers that it should start with, under a pid that nobody in
the table has.  The others are owed what they were. -/
theorem began (c : h.Records t) (hs : s ≠ t.current) (hnew : h.lastStored? b.pid = none)
    (hother : ∀ s' b', t.block? s' = some b' → b.pid ≠ b'.pid) :
    Records (.began b.pid b.context :: h) (t.setSlot s (some b)) where
  intact := c.intact
  reached_eq := by
    rw [current_setSlot, pidAt?_setSlot, if_neg hs.symm]
    exact c.reached_eq
  owed?_eq s' b' hb' := by
    rw [block?_setSlot] at hb'
    split at hb'
    · obtain rfl := Option.some.inj hb'
      exact owed?_began hnew
    · rw [owed?_began_of_ne (hother s' b' hb')]
      exact c.owed?_eq s' b' hb'
  fresh := c.fresh

/-- The next pid is one that nobody in the table has, nor ever had.  So a process that is created under
it agrees with the history. -/
theorem created (c : h.Records t) (o : Scheduled t) (hs : s ≠ t.current)
    (hfits : t.nextPid.toNat + 1 < 2 ^ 32) (hpid : b.pid = ⟨t.nextPid⟩) :
    Records (.began b.pid b.context :: h)
      ({ t with nextPid := t.nextPid + 1 }.setSlot s (some b)) := by
  refine (c.nextPid hfits).began hs ?_ fun s' b' hb' heq => ?_
  · exact c.fresh _ (hpid ▸ UInt32.le_refl _)
  · have hlt := o.pid_lt s' _ (pidAt?_of_block? hb')
    rw [← heq, hpid] at hlt
    exact UInt32.lt_irrefl _ hlt

end ContextHistory.Records

/-! ## What calls preserve -/

namespace ProcessSession

open ProcessTable

variable {ε : Type} {s : ProcessSession ε} {table : ProcessTable ε}

/-- **The invariant of a session**: the table is scheduled, and it agrees with the history.  The first
is what makes a switch go to another process, and the second is what that process finds there. -/
structure Consistent (s : ProcessSession ε) : Prop where
  scheduled : s.table.Scheduled
  records : s.history.Records s.table

/-- What keeps pids, registers and the schedule preserves the invariant.  Calls that do not switch are
all of this kind. -/
theorem Consistent.keeps (c : s.Consistent) (o : Scheduled table) (k : Keeps s.table table) :
    Consistent { s with table } :=
  ⟨o, c.records.keeps k o.occupied⟩

theorem dispatch_meets (d : Dispatchable s.table) (c : s.history.Records s.table) (now : Nat)
    (stored : Context) : (s.dispatch now stored).Meets Overflows Consistent := by
  unfold dispatch
  have hschedule := (d.schedule_cases now).and (d.schedule_meets now)
  refine (hschedule.mono (fun e he => ⟨.add, he.1⟩) fun _ => id).bind ?_
  rintro ⟨switch?, table⟩ ⟨hcases, o, -⟩
  cases switch? with
  | none =>
      obtain ⟨-, rfl⟩ := hcases
      exact Run.meets_pure ⟨o, c⟩
  | some w =>
      obtain ⟨next, rest, outgoing, incoming, hready, hout, hin, rfl, rfl⟩ := hcases
      refine Run.meets_pure ⟨?_, c.switched d hready hout hin stored⟩
      obtain ⟨b, hb⟩ : ∃ b, (s.table.switched next rest now outgoing incoming).block? s.table.current
          = some b := by
        obtain ⟨-, hne, -⟩ := d.head hready
        rw [block?_switched, if_neg hne.symm, if_pos rfl]
        exact ⟨_, rfl⟩
      rw [saveContext, modifySlot, hb]
      exact o.setSlot_same hb rfl rfl

/-- A process that gave up the processor makes way.  Between the two steps nobody runs, so the table is
`Dispatchable` and not scheduled. -/
theorem Consistent.dispatch_meets (c : s.Consistent) (d : Dispatchable table)
    (k : Keeps s.table table) (now : Nat) (stored : Context) :
    (dispatch { s with table } now stored).Meets Overflows Consistent := by
  apply ProcessSession.dispatch_meets
  · exact d
  · exact c.records.keeps k d.occupied

/-- **A reservation is made and used**, if one can be made.  What the user of it does need only be
proved of a slot that is held. -/
theorem Consistent.reserving_meets (c : s.Consistent) (name : String) (priority : Priority)
    {use : Reservation → ProcessTable ε → Run (ProcessSession ε)}
    (huse : ∀ slot fresh, s.table.nextPid.toNat + 1 < 2 ^ 32 → fresh.pid = ⟨s.table.nextPid⟩ →
      Reserved ⟨slot, ⟨s.table.nextPid⟩⟩
        ({ s.table with nextPid := s.table.nextPid + 1 }.setSlot slot (some fresh)) →
      (use ⟨slot, ⟨s.table.nextPid⟩⟩
        ({ s.table with nextPid := s.table.nextPid + 1 }.setSlot slot (some fresh))).Meets
          Overflows Consistent) :
    (s.reserving name priority use).Meets Overflows Consistent := by
  unfold reserving
  rcases s.table.reserve_cases name priority with ⟨-, hreserve⟩
    | ⟨slot, first, ⟨-, hreserve⟩ | ⟨hfits, hreserve⟩⟩
  · exact Run.meets_lift_bind hreserve (Run.meets_pure c)
  · rw [hreserve]
    exact Run.meets_lift_bind_of_error ⟨.add, rfl⟩
  · have hr := c.scheduled.reserved first.ne_kernel first.free hfits
      (b := .new ⟨s.table.nextPid⟩ name priority (some s.table.currentPid)) rfl rfl
    exact Run.meets_lift_bind hreserve (huse slot _ hfits rfl hr)

theorem create_meets (c : s.Consistent) (name : String) (priority : Priority) (stack : Stack)
    (entry : ε) (entryPoint : UInt32) :
    (s.step (.create name priority stack entry entryPoint)).Meets Overflows Consistent := by
  rw [step]
  refine c.reserving_meets name priority fun slot fresh hfits hpid hr => ?_
  have hs : slot ≠ s.table.current := hr.slot_ne_current
  have hb := (block?_setSlot { s.table with nextPid := s.table.nextPid + 1 } slot slot
    (some fresh)).trans (if_pos rfl)
  have hactivate := (hr.activate_cases stack entry entryPoint).and
    (activate_keeps hb stack entry entryPoint)
  refine (hactivate.mono (fun e he => he.2) fun _ => id).bind ?_
  rintro table ⟨⟨o, -⟩, k⟩
  refine Run.meets_pure ⟨o, ?_⟩
  -- the creator is the process that the processor is at, before and after the reservation
  obtain ⟨creator, hcreator, -, howed⟩ := c.records.exists_current
  have hcurrent : ({ s.table with nextPid := s.table.nextPid + 1 }.setSlot slot (some fresh)).block?
      s.table.current = some creator := by
    rw [block?_setSlot, if_neg hs.symm]
    exact hcreator
  rw [setSlot_setSlot, current_setSlot, hcurrent] at k
  generalize hmade : ({ fresh with context := _ } : ControlBlock ε) = made at k
  have hmadePid : made.pid = ⟨s.table.nextPid⟩ := by
    rw [← hmade]
    exact hpid
  have hmadeContext : made.context = s.history.entryContext stack entryPoint := by
    rw [← hmade, ContextHistory.entryContext, howed]
    rfl
  rw [← hmadePid, ← hmadeContext]
  exact (c.records.created c.scheduled hs hfits hmadePid).keeps k o.occupied

theorem giveUp_meets (c : s.Consistent) (name : String) (priority : Priority) :
    (s.step (.giveUp name priority)).Meets Overflows Consistent := by
  rw [step]
  refine c.reserving_meets name priority fun slot fresh hfits _ hr => Run.meets_pure ?_
  have o := hr.abandon
  refine ⟨o, (c.records.nextPid hfits).keeps ?_ o.occupied⟩
  rw [abandon, setSlot_setSlot]
  exact .setSlot_none _ slot

/-- **Every call preserves the invariant**, or ends in a number that does not fit its word. -/
theorem step_meets (c : s.Consistent) (call : ProcessCall ε) :
    (s.step call).Meets Overflows Consistent := by
  cases call with
  | create name priority stack entry entryPoint =>
      exact create_meets c name priority stack entry entryPoint
  | giveUp name priority => exact giveUp_meets c name priority
  | schedule now stored =>
      exact dispatch_meets c.scheduled.dispatchable c.records now stored
  | exit code now stored =>
      refine ((c.scheduled.exitCurrent_meets code).and (s.table.exitCurrent_keeps code)).bind ?_
      rintro ⟨ended, table⟩ ⟨hended, k⟩
      cases ended with
      | error cause =>
          obtain rfl := hended
          exact Run.meets_pure c
      | ok remains => exact c.dispatch_meets hended.1 k now stored
  | kill pid now stored =>
      refine ((c.scheduled.kill_meets pid).and (s.table.kill_keeps pid)).bind ?_
      rintro ⟨ended, table⟩ ⟨hended, k⟩
      match ended with
      | .error cause =>
          obtain rfl := hended
          exact Run.meets_pure c
      | .ok (_, true) => exact c.dispatch_meets hended.1 k now stored
      | .ok (_, false) => exact Run.meets_pure (c.keeps hended.1 k)
  | block now stored =>
      refine (c.scheduled.blockCurrent_meets.and s.table.blockCurrent_keeps).bind ?_
      rintro ⟨blocked, table⟩ ⟨hblocked, k⟩
      cases blocked with
      | error cause =>
          obtain rfl := hblocked
          exact Run.meets_pure c
      | ok => exact c.dispatch_meets hblocked.1 k now stored
  | unblock pid =>
      obtain ⟨result, table, hunblock, o, -⟩ := c.scheduled.unblock_ok pid
      exact Run.meets_lift_bind hunblock (Run.meets_pure (c.keeps o (unblock_keeps hunblock)))
  | reap =>
      refine (c.scheduled.reap_meets.and s.table.reap_keeps).bind ?_
      rintro ⟨count, table⟩ ⟨⟨o, -⟩, k⟩
      exact Run.meets_pure (c.keeps o k)
  | takeEntry =>
      exact Run.meets_pure (c.keeps c.scheduled.takeEntry.1 s.table.takeEntry_keeps)

theorem run_meets (c : s.Consistent) (calls : List (ProcessCall ε)) :
    (s.run calls).Meets Overflows Consistent := by
  induction calls generalizing s with
  | nil => exact Run.meets_pure c
  | cons call calls ih => exact (step_meets c call).bind fun s' c' => ih c'

/-- **Everybody has what they should get back.**  The fields follow from the invariant, and speak of
the history and the table only.  The first is about switches that were made, and the last about any
that may come. -/
structure Faithful (s : ProcessSession ε) : Prop where
  intact : s.history.Intact
  /-- The processor is at the process that it went to last. -/
  currentPid_eq : s.table.currentPid = s.history.reached
  /-- What is saved for a process is what it should get back, at every moment. -/
  owed?_eq : ∀ slot b, s.table.block? slot = some b → s.history.owed? b.pid = some b.context

theorem new_consistent (kernelDirectory : PhysAddr) :
    Consistent (ε := ε) {
      table := .new kernelDirectory
      history := [.began .kernel { cr3 := kernelDirectory.val }] } := by
  have o := new_scheduled (ε := ε) kernelDirectory
  refine ⟨o, trivial, o.kernel_pid, fun slot b hb => ?_, fun _ _ => rfl⟩
  obtain ⟨hinfo, -, hcontext, -⟩ := of_block?_new hb
  have hpid : b.pid = .kernel := congrArg ProcessInfo.pid hinfo
  rw [hpid, hcontext]
  exact ContextHistory.owed?_began rfl

end ProcessSession

/-- **Registers are kept.**  In every session, whatever comes and goes in between: each switch starts
at the process where the last one ended, the first one at the kernel's, and goes to another process;
there the processor finds the registers that it stored when it last left that process, or, if it
never was there, those that the process was created with. -/
theorem ProcessSession.execute_faithful {ε : Type} (kernelDirectory : PhysAddr)
    (calls : List (ProcessCall ε)) :
    (ProcessSession.execute kernelDirectory calls).Meets Overflows Faithful := by
  refine (run_meets (new_consistent kernelDirectory) calls).imp fun s c => ?_
  obtain ⟨b, hb, hpid, -⟩ := c.records.exists_current
  refine ⟨c.records.intact, ?_, c.records.owed?_eq⟩
  rw [ProcessTable.currentPid, hb]
  exact hpid

end TinyKernel
