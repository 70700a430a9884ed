import TinyKernel.Process.ControlBlock

/-!
# The process table

At most 64 processes, each in a slot of its own, and the queue of those that are ready to run.  The
table decides who runs next and says between which two contexts to switch; the switch itself, and
the stacks, are the business of the caller.

A process is created in two steps.  A *reservation* holds a slot and a pid for it, in the state
`new`; the reservation is then either activated, which makes the process ready, or abandoned.

## What is load-bearing

The operations are total on every table, also on one whose queue names a slot that is empty or whose
current process is gone.  Such a table is not an error of the operation at hand, and each operation
says what it does with it.

* `ProcessTable.reserve`, `ProcessTable.activate`, `ProcessTable.abandon` — creation
* `ProcessTable.schedule` — round robin
* `ProcessTable.exitCurrent`, `ProcessTable.kill`, `ProcessTable.reap` — the end of a process
* `ProcessTable.blockCurrent`, `ProcessTable.unblock` — waiting
-/

namespace TinyKernel

/-- The most processes that exist at a time, the kernel's and those terminated included. -/
def maxProcesses : Nat := 64

/-- A place in the process table.  It identifies a process only as long as the process is in it, and is
used again afterwards. -/
abbrev Slot := Fin maxProcesses

/-- The exit code of a process that was killed.  A process may exit with the same code by itself. -/
def killedExitCode : Int32 := -1

/-- **A slot held for a process** that is yet to be activated or abandoned.  Between the two, a stack
is allocated for it, which can fail.  It is a value like any other, and nothing marks one that was used
or whose process was killed. -/
structure Reservation where
  slot : Slot
  pid : Pid
  deriving DecidableEq

/-- **What a terminated process leaves behind**: its stack, and its entry if that never ran.  The table
lets go of both, and so the caller has to free the one and account for the other. -/
structure Remains (ε : Type) where
  stack? : Option Stack
  pending? : Option ε

/-- Nothing is left behind, as when there was no process to terminate. -/
def Remains.none {ε : Type} : Remains ε := ⟨.none, .none⟩

/-- **The two processes that a switch goes between.**  They may be the same, when a process that yields
is the only one ready.  The slots tell whose registers are saved and loaded. -/
structure Switch where
  fromSlot : Slot
  toSlot : Slot
  fromPid : Pid
  toPid : Pid
  deriving DecidableEq

/-- **The process table**: the processes by slot, the queue of those that are ready, and which slot is
running.  The queue and the states of the processes are two accounts of one thing, and every operation
has to keep them in step. -/
structure ProcessTable (ε : Type) where
  slots : Vector (Option (ControlBlock ε)) maxProcesses
  /-- The slots that are ready to run, the next one first. -/
  ready : List Slot
  /-- The slot that is running.  Its process may be terminated or blocked, if nothing else was ready
  then. -/
  current : Slot
  /-- The pid that is handed out next.  It only grows. -/
  nextPid : UInt32

namespace ProcessTable

variable {ε : Type}

/-- The slot of the kernel's own process, which is never handed out or emptied. -/
def kernelSlot : Slot := ⟨0, by decide⟩

/-- A table that holds the running kernel process alone.  It is set up by hand and not reserved: it has
neither a stack nor a parent, and runs already. -/
def new (kernelDirectory : PhysAddr) : ProcessTable ε :=
  let block : ControlBlock ε := .new .kernel "kernel" .high none
  let kernel := { block with
    state := .running, context := { block.context with cr3 := kernelDirectory.val } }
  { slots := (Vector.replicate maxProcesses none).set kernelSlot (some kernel)
    ready := []
    current := kernelSlot
    nextPid := 1 }

/-! ## Slots -/

/-- The process in a slot, if there is one.  Everything that is proved about tables speaks of them
through this. -/
def block? (t : ProcessTable ε) (s : Slot) : Option (ControlBlock ε) := t.slots[s]

/-- Puts a process into a slot, or empties the slot. -/
def setSlot (t : ProcessTable ε) (s : Slot) (b? : Option (ControlBlock ε)) : ProcessTable ε :=
  { t with slots := t.slots.set s b? }

/-- Changes the process in a slot, if there is one; an empty slot stays empty. -/
def modifySlot (t : ProcessTable ε) (s : Slot) (f : ControlBlock ε → ControlBlock ε) :
    ProcessTable ε :=
  t.setSlot s ((t.block? s).map f)

theorem block?_setSlot (t : ProcessTable ε) (s s' : Slot) (b? : Option (ControlBlock ε)) :
    (t.setSlot s b?).block? s' = if s' = s then b? else t.block? s' := by
  simp only [block?, setSlot]
  by_cases h : s' = s
  · subst h
    simp
  · have hne : (s : Nat) ≠ s' := fun e => h (Fin.ext e.symm)
    simp [h, hne]

theorem block?_modifySlot (t : ProcessTable ε) (s s' : Slot)
    (f : ControlBlock ε → ControlBlock ε) :
    (t.modifySlot s f).block? s' = if s' = s then (t.block? s).map f else t.block? s' :=
  block?_setSlot ..

/-- Every slot, in order.  Searches go through it, and so find the lowest slot that will do. -/
def allSlots : List Slot := List.finRange maxProcesses

/-- Every process, in slot order. -/
def blocks (t : ProcessTable ε) : List (ControlBlock ε) := allSlots.filterMap t.block?

/-- The slot of the process with a pid.  No two processes have the same pid, so that it does not matter
that the first is taken. -/
def slotOf? (t : ProcessTable ε) (pid : Pid) : Option Slot :=
  allSlots.find? fun s => (t.block? s).any fun b => b.pid == pid

/-- The pid of the running process.  If it is gone, that counts as the kernel's. -/
def currentPid (t : ProcessTable ε) : Pid := (t.block? t.current).elim .kernel ControlBlock.pid

/-- Puts a slot at the end of the ready queue, which has a place for each slot.  A queue that is full
is a fault; it takes a slot that is in the queue twice to get there. -/
def enqueue (t : ProcessTable ε) (s : Slot) : Checked (ProcessTable ε) :=
  if t.ready.length < maxProcesses then
    .ok { t with ready := t.ready ++ [s] }
  else
    .error .readyQueueFull

/-! ## Creation -/

/-- **Reserves** the first free slot, and a pid, for a new process, whose parent is the running one.
If no slot is free, no pid is used up.  Running out of pids is a fault, as they must not repeat. -/
def reserve (t : ProcessTable ε) (name : String) (priority : Priority) :
    Checked (Except ProcessError Reservation × ProcessTable ε) := do
  match allSlots.find? fun s => s ≠ kernelSlot ∧ (t.block? s).isNone with
  | none => pure (.error .tableFull, t)
  | some slot =>
    let pid : Pid := ⟨t.nextPid⟩
    let nextPid ← Checked.add32 t.nextPid 1
    let block := ControlBlock.new pid name priority (some t.currentPid)
    pure (.ok { slot, pid }, { t with nextPid }.setSlot slot (some block))

/-- Adds a child to the running process, which keeps track of a limited number.  One child too many is
left out with a warning, and runs all the same. -/
def addChild (t : ProcessTable ε) (pid : Pid) : Run (ProcessTable ε) := do
  match t.block? t.current with
  | none => pure t
  | some parent =>
    if parent.children.length < maxChildren then
      pure (t.setSlot t.current (some { parent with children := parent.children ++ [pid] }))
    else
      Run.log .warn ("process " ++ parent.pid.text ++ " has too many children to track "
        ++ pid.text)
      pure t

/-- **Activates a reservation**: the process becomes ready, at the end of the queue.  It starts at
`entryPoint` on `stack`, in the address space of the running process.  A slot whose process is not new
is a fault. -/
def activate (t : ProcessTable ε) (r : Reservation) (stack : Stack) (entry : ε)
    (entryPoint : UInt32) : Run (ProcessTable ε) := do
  let cr3 := (t.block? t.current).elim 0 fun b => b.context.cr3
  match t.block? r.slot with
  | none => pure t
  | some block =>
    if block.state ≠ .new then
      throw (.notNew block.state)
    -- the word below the top is left for a return address
    let esp ← Checked.sub32 (← stack.top) 4
    let t := t.setSlot r.slot (some { block with
      context := .forEntry entryPoint esp Context.initialFlags cr3
      stack? := some stack
      pending? := some entry
      state := .ready })
    let t ← t.enqueue r.slot
    let t ← t.addChild r.pid
    Run.log .debug ("created process " ++ r.pid.text ++ " (" ++ block.name ++ ")")
    pure t

/-- **Gives up a reservation.**  The slot is empty again, and the pid is not handed out again. -/
def abandon (t : ProcessTable ε) (r : Reservation) : ProcessTable ε := t.setSlot r.slot none

/-! ## Scheduling -/

/-- Charges the running process for the ticks since its dispatch, and puts it at the end of the queue
if it is still running.  One that is blocked or terminated is charged, and stays out of the queue. -/
def suspend (t : ProcessTable ε) (now : Nat) : Checked (ProcessTable ε) := do
  match t.block? t.current with
  | none => pure t
  | some block =>
    let cpuTime ← Checked.add64 block.cpuTime (now - block.dispatchedAt)
    if block.state = .running then
      (t.setSlot t.current (some { block with cpuTime, state := .ready })).enqueue t.current
    else
      pure (t.setSlot t.current (some { block with cpuTime }))

/-- **Round robin**: the head of the ready queue runs next.  Nothing happens, and there is no switch,
when nothing is ready; a process that is running then goes on, and one that is not stays the current
one all the same. -/
def schedule (t : ProcessTable ε) (now : Nat) : Run (Option Switch × ProcessTable ε) := do
  match t.ready with
  | [] => pure (none, t)
  | next :: rest =>
    let previous := t.current
    let t ← { t with ready := rest }.suspend now
    match t.block? next with
    | none => pure (none, t)
    | some incoming =>
      let t := t.setSlot next (some { incoming with state := .running, dispatchedAt := now })
      let t := { t with current := next }
      match t.block? previous with
      | none => pure (none, t)
      | some outgoing =>
        Run.log .trace ("switch " ++ outgoing.pid.text ++ " -> " ++ incoming.pid.text)
        pure (some
          { fromSlot := previous
            toSlot := next
            fromPid := outgoing.pid
            toPid := incoming.pid }, t)

/-- The saved registers of the process in a slot, or all zeros if there is none. -/
def contextAt (t : ProcessTable ε) (s : Slot) : Context :=
  (t.block? s).elim {} ControlBlock.context

/-- Saves registers for the process in a slot, as the processor does when it leaves that process. -/
def saveContext (t : ProcessTable ε) (s : Slot) (context : Context) : ProcessTable ε :=
  t.modifySlot s fun b => { b with context }

/-! ## The end of a process -/

/-- Terminates the process in a slot: it is taken off the queue, and what it holds is handed to the
caller.  Whether it may be terminated is for the caller to check. -/
def terminate (t : ProcessTable ε) (s : Slot) (code : Int32) :
    Run (Remains ε × ProcessTable ε) := do
  let t := { t with ready := t.ready.filter (· ≠ s) }
  match t.block? s with
  | none => pure (.none, t)
  | some block =>
    Run.log .debug ("process " ++ block.pid.text ++ " terminated with " ++ toString code.toInt)
    pure (⟨block.stack?, block.pending?⟩, t.setSlot s (some { block with
      state := .terminated, exitCode? := some code, stack? := none, pending? := none }))

/-- **Terminates the running process.**  The kernel's own cannot exit.  The process stays the current
one until the next switch, and there is no check that it has not been terminated already. -/
def exitCurrent (t : ProcessTable ε) (code : Int32) :
    Run (Except ProcessError (Remains ε) × ProcessTable ε) := do
  if t.current = kernelSlot then
    pure (.error .kernelProcess, t)
  else
    let (remains, t) ← t.terminate t.current code
    pure (.ok remains, t)

/-- **Terminates a process** by its pid.  The answer also says whether it was the running one, for then
the caller has to switch away.  One that is terminated already is refused. -/
def kill (t : ProcessTable ε) (pid : Pid) :
    Run (Except ProcessError (Remains ε × Bool) × ProcessTable ε) := do
  if pid = .kernel then
    pure (.error .kernelProcess, t)
  else
    match t.slotOf? pid with
    | none => pure (.error (.noSuchProcess pid), t)
    | some slot =>
      if (t.block? slot).any fun b => b.state = .terminated then
        pure (.error (.alreadyTerminated pid), t)
      else
        let (remains, t) ← t.terminate slot killedExitCode
        pure (.ok (remains, slot == t.current), t)

/-- Takes a child off the list of its parent, if the parent is in the table.  The parent may be gone,
or may not have kept track of the child. -/
def removeChild (t : ProcessTable ε) (parent? : Option Pid) (child : Pid) : ProcessTable ε :=
  match parent?.bind t.slotOf? with
  | none => t
  | some slot => t.modifySlot slot fun b => { b with children := b.children.filter (· ≠ child) }

/-- Empties a slot if its process is terminated and is not the running one.  The running one has to be
switched away from first, since that saves its registers in the slot. -/
def reapSlot (t : ProcessTable ε) (s : Slot) : Option (ProcessTable ε) :=
  if s = t.current then
    none
  else
    match t.block? s with
    | none => none
    | some block =>
      if block.state = .terminated then
        some ((t.removeChild block.parent? block.pid).setSlot s none)
      else
        none

/-- Empties those of some slots whose process is terminated, and counts them, on top of `count`. -/
def reapSlots (t : ProcessTable ε) (count : Nat) : List Slot → Nat × ProcessTable ε
  | [] => (count, t)
  | s :: rest =>
    match t.reapSlot s with
    | none => t.reapSlots count rest
    | some t => t.reapSlots (count + 1) rest

/-- **Empties the slots of terminated processes**, the running one's excepted, and counts them.  Only
now are they taken off the lists of their parents. -/
def reap (t : ProcessTable ε) : Run (Nat × ProcessTable ε) := do
  let (count, t) := t.reapSlots 0 (allSlots.filter (· ≠ kernelSlot))
  if count > 0 then
    Run.log .debug ("reclaimed " ++ toString count ++ " process slots")
  pure (count, t)

/-! ## Waiting -/

/-- **Blocks the running process** until it is unblocked.  The kernel's own cannot block.  Whatever
state the process is in becomes `blocked`; the switch away from it is up to the caller. -/
def blockCurrent (t : ProcessTable ε) : Run (Except ProcessError Unit × ProcessTable ε) := do
  if t.current = kernelSlot then
    pure (.error .kernelProcess, t)
  else
    match t.block? t.current with
    | none => pure (.ok (), t)
    | some block =>
      Run.log .trace ("process " ++ block.pid.text ++ " blocked")
      pure (.ok (), t.setSlot t.current (some { block with state := .blocked }))

/-- **Makes a blocked process ready**, at the end of the queue.  One that is not blocked is refused.  A
process that is blocked again before its turn has come is in the queue still, and is then there
twice. -/
def unblock (t : ProcessTable ε) (pid : Pid) :
    Checked (Except ProcessError Unit × ProcessTable ε) := do
  match t.slotOf? pid with
  | none => pure (.error (.noSuchProcess pid), t)
  | some slot =>
    match t.block? slot with
    | none => pure (.error (.noSuchProcess pid), t)
    | some block =>
      if block.state = .blocked then
        let t ← (t.setSlot slot (some { block with state := .ready })).enqueue slot
        pure (.ok (), t)
      else
        pure (.error (.notBlocked pid), t)

/-! ## Looking at the table -/

/-- **Hands out the entry of the running process**, once: the process has none afterwards. -/
def takeEntry (t : ProcessTable ε) : Option ε × ProcessTable ε :=
  match t.block? t.current with
  | none => (none, t)
  | some block => (block.pending?, t.setSlot t.current (some { block with pending? := none }))

/-- The process with a pid, as a snapshot, whatever state it is in. -/
def find? (t : ProcessTable ε) (pid : Pid) : Option ProcessInfo :=
  ((t.slotOf? pid).bind t.block?).map ControlBlock.info

/-- Every process, in slot order, as a list of snapshots. -/
def list (t : ProcessTable ε) : List ProcessInfo := t.blocks.map ControlBlock.info

/-- The number of processes in a state.  Reserved slots count as `new` processes. -/
def count (t : ProcessTable ε) (state : ProcessState) : Nat :=
  t.blocks.countP fun b => b.state = state

/-- The pids that are ready to run, the next one first.  A slot in the queue that holds no process is
passed over. -/
def readyPids (t : ProcessTable ε) : List Pid :=
  t.ready.filterMap fun s => (t.block? s).map ControlBlock.pid

/-- The printed table, line by line: a heading, one line for each process in slot order, and a rule. -/
def lines (t : ProcessTable ε) : List String :=
  ["\nProcess Table Contents:", "========================"] ++ t.blocks.map ControlBlock.line
    ++ ["========================"]

/-- Prints the table, with a line break after each line. -/
def printLines (t : ProcessTable ε) : Run Unit :=
  Run.print (String.join (t.lines.map (· ++ "\n")))

end ProcessTable

end TinyKernel
