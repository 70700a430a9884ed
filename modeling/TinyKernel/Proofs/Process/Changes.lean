import TinyKernel.Proofs.Process.Coherent

/-!
# The life of processes

What is done to a process table is a sequence of small changes.  A process is created, it is charged
for its time and dispatched, it ends, and its slot is reclaimed; and in between its registers, its
entry or its state change, which leaves everything else that is on record of it.  Each operation of
the table is said once to be such a sequence.  Whatever is true of the life of processes is then proved
of the changes, and holds of all operations, in any order.

## What is load-bearing

A process has a note of its children, and is the parent that they name.  The two are written in one
change (`ProcessTable.enrolled`), and so it can be said of every change that they agree.

* `Birth`, `Event` — what is seen of a change
* `ProcessTable.Change`, `ProcessTable.Path` — one change, and changes one after the other
* `ProcessTable.Coherent.exitCurrent_path`, `ProcessTable.Coherent.kill_path`,
  `ProcessTable.Coherent.blockCurrent_path`, `ProcessTable.Coherent.unblock_path`,
  `ProcessTable.Coherent.schedule_path`, `ProcessTable.Coherent.reap_path`,
  `ProcessTable.Awaits.activate_path` — the operations
-/

namespace TinyKernel

/-! ## What is seen of a change -/

/-- **A process that was created**, as it was then.  The name is the one that was kept, and the parent
is the process that was current. -/
structure Birth where
  pid : Pid
  name : String
  priority : Priority
  parent : Pid
  /-- How many children its parent had a note of before. -/
  siblings : Nat
  deriving DecidableEq

/-- The process just created, as a snapshot shows it: it is ready, was never charged, and has no
children. -/
def Birth.info (birth : Birth) : ProcessInfo where
  pid := birth.pid
  name := birth.name
  state := .ready
  priority := birth.priority
  cpuTime := 0
  exitCode? := none
  parent? := some birth.parent
  children := []

/-- **What happens to a process**, as far as its record goes.  Changes of its registers, its entry or
its place in the queue are no events. -/
inductive Event where
  | created (birth : Birth)
  | ended (pid : Pid) (code : Int32)
  /-- A process that was running is charged for some ticks. -/
  | charged (pid : Pid) (ticks : Nat)
  | dispatched (pid : Pid) (now : Nat)
  | reclaimed (pid : Pid)
  deriving DecidableEq

/-- An event has nothing to do with the time of a process.  Events of all calls but a dispatch are of
this kind. -/
def Event.timeless : Event → Prop
  | charged .. | dispatched .. => False
  | _ => True

/-- **A process changes, but not on record**: what a snapshot shows of it is the same but for its
state.  Nobody ends that way.  If its users are lawful, then whoever is terminated stays so; otherwise
a blocked process can be made of a terminated one. -/
structure ControlBlock.Alters {ε : Type} (lawful : Prop) (b b' : ControlBlock ε) : Prop where
  info_eq : b'.info = { b.info with state := b'.state }
  dispatchedAt_eq : b'.dispatchedAt = b.dispatchedAt
  alive : b'.state = .terminated → b.state = .terminated
  final : lawful → b.state = .terminated → b'.state = .terminated

/-- **A process that was just created**: it is on record, and starts with its entry on its stack.  How
the rest of its registers are set is said elsewhere. -/
structure ControlBlock.Starts {ε : Type} (b : ControlBlock ε) (birth : Birth) (stack : Stack)
    (entry : ε) : Prop where
  info_eq : b.info = birth.info
  stack_eq : b.stack? = some stack
  pending_eq : b.pending? = some entry
  esp_eq : b.context.esp = stack.initialPointer

namespace ProcessTable

variable {ε : Type}

/-- The process that would be created next: it gets the next pid, and the current process as its
parent.  The number of siblings is read off before the parent takes note. -/
def birth (t : ProcessTable ε) (name : String) (priority : Priority) : Birth where
  pid := ⟨t.nextPid⟩
  name := keptName name
  priority
  parent := t.currentPid
  siblings := (t.block? t.current).elim 0 fun b => b.children.length

/-- **The table with one process more**, which is queued, and which the current process has taken note
of.  All of that is one change, because in between parents and children would not agree. -/
def enrolled (t : ProcessTable ε) (s : Slot) (b : ControlBlock ε) : ProcessTable ε :=
  { { t with nextPid := t.nextPid + 1 }.setSlot s (some b) with ready := t.ready ++ [s] }.noted b.pid

/-- **One change of a table**, with the events that it amounts to.  Each kind asks for as much as every
operation can give that makes such a change; `lawful` decides whether a terminated process may be ended
or altered once more. -/
inductive Change (lawful : Prop) (t : ProcessTable ε) : List Event → ProcessTable ε → Prop where
  /-- Whoever can still run is queued, or not. -/
  | queued (ready : List Slot)
      (alive : ∀ s ∈ ready, ∃ b, t.block? s = some b ∧ b.state ≠ .terminated) :
      Change lawful t [] { t with ready }
  | altered {s : Slot} {b b' : ControlBlock ε} (hb : t.block? s = some b)
      (alters : b.Alters lawful b') : Change lawful t [] (t.setSlot s (some b'))
  | ended {s : Slot} {b : ControlBlock ε} (hb : t.block? s = some b)
      (alive : lawful → b.state ≠ .terminated) (code : Int32) :
      Change lawful t [.ended b.pid code] (t.ended s b code)
  | charged {b : ControlBlock ε} (hb : t.block? t.current = some b) (ticks : Nat) :
      Change lawful t [.charged b.pid ticks]
        (t.setSlot t.current (some { b with cpuTime := b.cpuTime + ticks }))
  | dispatched {s : Slot} {b : ControlBlock ε} (hb : t.block? s = some b)
      (alive : b.state ≠ .terminated) (now : Nat) :
      Change lawful t [.dispatched b.pid now]
        { t.setSlot s (some { b with state := .running, dispatchedAt := now }) with current := s }
  /-- A pid is handed out for nothing. -/
  | skipped (fits : t.nextPid.toNat + 1 < 2 ^ 32) :
      Change lawful t [] { t with nextPid := t.nextPid + 1 }
  | created {s : Slot} {b : ControlBlock ε} {birth : Birth} (hfree : t.block? s = none)
      (fits : t.nextPid.toNat + 1 < 2 ^ 32) (hbirth : ∃ name priority, birth = t.birth name priority)
      (info_eq : b.info = birth.info) :
      Change lawful t [.created birth] (t.enrolled s b)
  | reclaimed {s : Slot} {b : ControlBlock ε} (hs : s ≠ t.current) (hb : t.block? s = some b)
      (dead : b.state = .terminated) :
      Change lawful t [.reclaimed b.pid] ((t.removeChild b.parent? b.pid).setSlot s none)

/-- **Changes, one after the other**, and their events in the same order.  What every change preserves
is preserved on every path, by induction. -/
inductive Path (lawful : Prop) : ProcessTable ε → List Event → ProcessTable ε → Prop where
  | refl (t : ProcessTable ε) : Path lawful t [] t
  | step {t t' t'' : ProcessTable ε} {events events' : List Event} :
      Change lawful t events t' → Path lawful t' events' t'' → Path lawful t (events ++ events') t''

variable {lawful : Prop} {t t' t'' : ProcessTable ε} {s s' : Slot} {b b' creator : ControlBlock ε}
  {events events' : List Event} {birth : Birth} {admits : Fault → Prop}

theorem Change.path (h : Change lawful t events t') : Path lawful t events t' := by
  simpa using Path.step h (.refl t')

theorem Path.trans (h : Path lawful t events t') (h' : Path lawful t' events' t'') :
    Path lawful t (events ++ events') t'' := by
  induction h with
  | refl => exact h'
  | step change _ ih =>
      rw [List.append_assoc]
      exact .step change (ih h')

/-! ## Who is in the table after a change -/

theorem birth_pid (hbirth : ∃ name priority, birth = t.birth name priority)
    (info_eq : b.info = birth.info) : b.pid = ⟨t.nextPid⟩ := by
  obtain ⟨name, priority, rfl⟩ := hbirth
  exact congrArg ProcessInfo.pid info_eq

/-- **Whoever enters the table** is in the slot that was free, and the current process may have taken
note of that.  The two slots differ, as the current one is not free. -/
theorem block?_enrolled (hfree : t.block? s = none) (hcreator : t.block? t.current = some creator)
    (s' : Slot) : (t.enrolled s b).block? s' =
      if s' = s then some b else if s' = t.current then some (creator.noting b.pid)
      else t.block? s' := by
  have hne : t.current ≠ s := Coherent.ne_of_block? hcreator hfree
  have hblock : ∀ s', ({ { t with nextPid := t.nextPid + 1 }.setSlot s (some b) with
      ready := t.ready ++ [s] } : ProcessTable ε).block? s'
        = if s' = s then some b else t.block? s' :=
    fun s' => block?_setSlot { t with nextPid := t.nextPid + 1 } s s' (some b)
  refine (block?_modifySlot _ t.current s' _).trans ?_
  rw [hblock, hblock, if_neg hne, hcreator, Option.map_some]
  by_cases hs : s' = s
  · rw [if_neg (hs ▸ hne.symm), if_pos hs, if_pos hs]
  · rw [if_neg hs, if_neg hs]

/-- **Nobody leaves the table** when somebody enters it: the slot was free, and the creator stays who
it was. -/
theorem Coherent.exists_block?_enrolled (c : Coherent t) (hfree : t.block? s = none)
    (hb' : t.block? s' = some b') :
    ∃ b₁, (t.enrolled s b).block? s' = some b₁ ∧ b₁.pid = b'.pid := by
  obtain ⟨creator, hcreator⟩ := Option.isSome_iff_exists.mp c.occupied
  rw [block?_enrolled hfree hcreator, if_neg (Coherent.ne_of_block? hb' hfree)]
  split
  case isTrue heq =>
    obtain rfl := Option.some.inj (hcreator.symm.trans (heq ▸ hb'))
    exact ⟨_, rfl, rfl⟩
  case isFalse => exact ⟨b', hb', rfl⟩

/-- **Whoever is in the table then** is new, or was there before and may have a child more.  Nothing
else of the others changes. -/
theorem Coherent.of_block?_enrolled (c : Coherent t) (hfree : t.block? s = none)
    (hb' : (t.enrolled s b).block? s' = some b') :
    s' = s ∧ b' = b ∨ ∃ b₀ children, t.block? s' = some b₀ ∧ b' = { b₀ with children } := by
  obtain ⟨creator, hcreator⟩ := Option.isSome_iff_exists.mp c.occupied
  rw [block?_enrolled hfree hcreator] at hb'
  split at hb'
  case isTrue heq => exact Or.inl ⟨heq, (Option.some.inj hb').symm⟩
  split at hb'
  case isTrue heq =>
    exact Or.inr ⟨creator, _, heq ▸ hcreator, (Option.some.inj hb').symm⟩
  case isFalse => exact Or.inr ⟨b', b'.children, hb', rfl⟩

theorem block?_ended (t : ProcessTable ε) (s : Slot) (b : ControlBlock ε) (code : Int32) (s' : Slot) :
    (t.ended s b code).block? s' = (t.setSlot s (some { b with
      state := .terminated, exitCode? := some code, stack? := none, pending? := none })).block? s' :=
  rfl

theorem block?_withCurrent (t : ProcessTable ε) (current s : Slot) :
    { t with current }.block? s = t.block? s := rfl

theorem nextPid_enrolled : (t.enrolled s b).nextPid = t.nextPid + 1 := rfl

/-- **Whoever is reclaimed** is off the list of its parent.  The parent may be gone, and then no list
changes. -/
theorem Coherent.block?_reclaimed (c : Coherent t) (parent? : Option Pid) (child : Pid) (s s' : Slot) :
    ((t.removeChild parent? child).setSlot s none).block? s' =
      if s' = s then none else (t.block? s').map fun b => b.without parent? child := by
  rw [block?_setSlot, c.block?_removeChild]

/-- **Whoever is still in the table** was there before, and may have a child less.  Nothing else of
them changes. -/
theorem Coherent.of_block?_reclaimed (c : Coherent t) {parent? : Option Pid} {child : Pid}
    (hb' : ((t.removeChild parent? child).setSlot s none).block? s' = some b') :
    ∃ b₀ children, t.block? s' = some b₀ ∧ b' = { b₀ with children } := by
  rw [c.block?_reclaimed] at hb'
  split at hb'
  case isTrue => cases hb'
  case isFalse =>
    obtain ⟨b₀, hb₀, rfl⟩ := Option.map_eq_some_iff.mp hb'
    exact ⟨b₀, _, hb₀, rfl⟩

theorem nextPid_removeChild (t : ProcessTable ε) (parent? : Option Pid) (child : Pid) :
    (t.removeChild parent? child).nextPid = t.nextPid := by
  rcases t.removeChild_cases parent? child with heq | ⟨s, b, children, -, heq⟩ <;> rw [heq]
  rfl

theorem current_removeChild (t : ProcessTable ε) (parent? : Option Pid) (child : Pid) :
    (t.removeChild parent? child).current = t.current := by
  rcases t.removeChild_cases parent? child with heq | ⟨s, b, children, -, heq⟩ <;> rw [heq]
  rfl

/-- **Every change leaves a table coherent.**  There is one case for each kind of change, lawful or
not. -/
theorem Change.coherent (h : Change lawful t events t') (c : Coherent t) : Coherent t' := by
  cases h with
  | queued ready alive => exact c.requeue alive
  | altered hb alters =>
      exact c.setSlot_alive hb (congrArg ProcessInfo.pid alters.info_eq) alters.alive
  | @ended s b hb alive code =>
      have hqueue : Coherent { t with ready := t.ready.filter (· ≠ s) } :=
        c.requeue fun s' hs' => c.alive s' (List.mem_filter.mp hs').1
      refine hqueue.setSlot hb rfl fun hs => ?_
      exact absurd rfl (of_decide_eq_true (List.mem_filter.mp hs).2)
  | charged hb ticks => exact c.setSlot_alive hb rfl id
  | @dispatched s b hb alive now =>
      have hset : Coherent (t.setSlot s (some { b with state := .running, dispatchedAt := now })) :=
        c.setSlot_alive hb rfl fun hdead => nomatch hdead
      refine hset.moveTo ?_
      rw [block?_setSlot, if_pos rfl]
      rfl
  | skipped fits => exact c.nextPid fits
  | @created s b birth hfree fits hbirth info_eq =>
      have hready : b.state = .ready := congrArg ProcessInfo.state info_eq
      have harrive := c.arrive hfree fits (birth_pid hbirth info_eq)
      have hqueue : Coherent ({ { t with nextPid := t.nextPid + 1 }.setSlot s (some b) with
          ready := t.ready ++ [s] } : ProcessTable ε) := by
        refine harrive.requeue fun s' hs' => ?_
        rcases List.mem_append.mp hs' with hs' | hs'
        · exact harrive.alive s' hs'
        · obtain rfl := List.mem_singleton.mp hs'
          exact ⟨b, (block?_setSlot ..).trans (if_pos rfl), by simp [hready]⟩
      obtain ⟨creator, hcreator⟩ := Option.isSome_iff_exists.mp hqueue.occupied
      rw [enrolled, noted, modifySlot, hcreator, Option.map_some]
      exact hqueue.setSlot_alive hcreator rfl id
  | @reclaimed s b hs hb dead =>
      have hready := c.not_mem_ready hb dead
      rcases t.removeChild_cases b.parent? b.pid with heq | ⟨s', b', children, hb', heq⟩
      · rw [heq]
        exact c.setSlot_none hs hready
      · rw [heq]
        have hset : Coherent (t.setSlot s' (some { b' with children })) :=
          c.setSlot_alive hb' rfl id
        exact hset.setSlot_none hs hready

theorem Path.coherent (h : Path lawful t events t') (c : Coherent t) : Coherent t' := by
  induction h with
  | refl => exact c
  | step change _ ih => exact ih (change.coherent c)

theorem Change.nextPid_le (h : Change lawful t events t') : t.nextPid ≤ t'.nextPid := by
  cases h with
  | skipped fits => exact UInt32.le_of_lt (nextPid_lt fits)
  | created _ fits => exact UInt32.le_of_lt (nextPid_lt fits)
  | @reclaimed s b => exact UInt32.le_of_eq (t.nextPid_removeChild b.parent? b.pid).symm
  | _ => exact UInt32.le_refl _

/-- A process that changes is in the table under the same pid, as is everybody else.  It covers all
changes that write one slot. -/
theorem exists_block?_setSlot (hb : t.block? s = some b) (pid_eq : b'.pid = b.pid)
    {b₀ : ControlBlock ε} (hb₀ : t.block? s' = some b₀) :
    ∃ b₁, (t.setSlot s (some b')).block? s' = some b₁ ∧ b₁.pid = b₀.pid := by
  rw [block?_setSlot]
  split
  case isTrue heq =>
    obtain rfl := Option.some.inj (hb.symm.trans (heq ▸ hb₀))
    exact ⟨b', rfl, pid_eq⟩
  case isFalse => exact ⟨b₀, hb₀, rfl⟩

/-- **Nobody leaves the table** but those who are reclaimed, and then the change says so among its
events. -/
theorem Change.stays (h : Change lawful t events t') (c : Coherent t) (hb : t.block? s = some b) :
    .reclaimed b.pid ∈ events ∨ ∃ b', t'.block? s = some b' ∧ b'.pid = b.pid := by
  cases h with
  | queued ready alive => exact Or.inr ⟨b, hb, rfl⟩
  | altered hb' alters =>
      exact Or.inr (exists_block?_setSlot hb' (congrArg ProcessInfo.pid alters.info_eq) hb)
  | ended hb' alive code =>
      rw [block?_ended]
      exact Or.inr (exists_block?_setSlot hb' (by rfl) hb)
  | charged hb' ticks => exact Or.inr (exists_block?_setSlot hb' (by rfl) hb)
  | dispatched hb' alive now =>
      rw [block?_withCurrent]
      exact Or.inr (exists_block?_setSlot hb' (by rfl) hb)
  | skipped fits => exact Or.inr ⟨b, hb, rfl⟩
  | created hfree fits hbirth info_eq =>
      exact Or.inr (c.exists_block?_enrolled hfree hb)
  | reclaimed hs hb' dead =>
      rw [c.block?_reclaimed]
      split
      case isTrue heq =>
        obtain rfl := Option.some.inj (hb.symm.trans (heq ▸ hb'))
        exact Or.inl List.mem_cons_self
      case isFalse =>
        rw [hb]
        exact Or.inr ⟨_, rfl, rfl⟩

theorem Path.stays (h : Path lawful t events t') (c : Coherent t) (hb : t.block? s = some b) :
    .reclaimed b.pid ∈ events ∨ ∃ b', t'.block? s = some b' ∧ b'.pid = b.pid := by
  induction h generalizing b with
  | refl => exact Or.inr ⟨b, hb, rfl⟩
  | step change _ ih =>
      rcases change.stays c hb with hmem | ⟨b₁, hb₁, hpid₁⟩
      · exact Or.inl (List.mem_append_left _ hmem)
      · rw [← hpid₁]
        exact (ih (change.coherent c) hb₁).imp_left (List.mem_append_right _)

/-! ## Operations -/

namespace Coherent

variable (c : Coherent t)
include c

omit c in
/-- The current process is one that can still end or wait, as far as the client looked at its state
before. -/
theorem ne_terminated (halive : t.stateAt? t.current ≠ some .terminated)
    (hb : t.block? t.current = some b) : b.state ≠ .terminated := fun hdead =>
  halive (hdead ▸ stateAt?_of_block? hb)

/-- **The running process ends**, unless its slot is that of the kernel's own.  If the client is
lawful, it has to see to it that the process is not terminated already. -/
theorem exitCurrent_path (lawful : Prop)
    (halive : lawful → t.stateAt? t.current ≠ some .terminated) (code : Int32) :
    (t.exitCurrent code).Meets admits fun (result, t') =>
      match result with
      | .error _ => t' = t
      | .ok _ => Path lawful t [.ended t.currentPid code] t' := by
  refine (c.exitCurrent_cases code).imp ?_
  rintro ⟨result, t'⟩ hresult
  cases result with
  | error cause => exact hresult.2
  | ok remains =>
      obtain ⟨-, b, hb, -, rfl⟩ := hresult
      rw [currentPid_of_block? hb]
      exact (Change.ended hb (fun h => ne_terminated (halive h) hb) code).path

omit c in
/-- **A process is killed**, unless it is terminated or the kernel's own.  No rule is needed for that,
since the state is looked at. -/
theorem kill_path (lawful : Prop) (t : ProcessTable ε) (pid : Pid) :
    (t.kill pid).Meets admits fun (result, t') =>
      match result with
      | .error _ => t' = t
      | .ok _ => Path lawful t [.ended pid killedExitCode] t' := by
  refine (t.kill_cases pid).imp ?_
  rintro ⟨result, t'⟩ hresult
  cases result with
  | error cause => exact hresult.1
  | ok left =>
      obtain ⟨-, s, b, hb, rfl, hstate, -, -, rfl⟩ := hresult
      exact (Change.ended hb (fun _ => hstate) killedExitCode).path

/-- **The running process blocks**, unless its slot is that of the kernel's own.  As with an exit, the
state before is not looked at. -/
theorem blockCurrent_path (lawful : Prop)
    (halive : lawful → t.stateAt? t.current ≠ some .terminated) :
    t.blockCurrent.Meets admits fun (_, t') => Path lawful t [] t' := by
  refine c.blockCurrent_cases.imp ?_
  rintro ⟨result, t'⟩ hresult
  cases result with
  | error cause =>
      obtain ⟨-, rfl⟩ := hresult
      exact .refl _
  | ok =>
      obtain ⟨-, b, hb, rfl⟩ := hresult
      have alters : b.Alters lawful { b with state := .blocked } :=
        ⟨rfl, rfl, (nomatch ·), fun h hdead => absurd hdead (ne_terminated (halive h) hb)⟩
      exact (Change.altered hb alters).path

/-- **A blocked process becomes ready**, at the end of the queue.  All that can stop it is a queue
without a place. -/
theorem unblock_path (lawful : Prop) (pid : Pid) :
    (liftM (t.unblock pid) : Run _).Meets (· = .readyQueueFull) fun (_, t') =>
      Path lawful t [] t' := by
  rcases t.unblock_cases pid with ⟨cause, hunblock⟩ | ⟨s, b, hb, -, hblocked, hunblock | hunblock⟩
  · rw [hunblock]
    exact Run.meets_pure (.refl t)
  · rw [hunblock]
    exact Run.meets_throw rfl
  · rw [hunblock]
    have hset : Change lawful t [] (t.setSlot s (some { b with state := .ready })) :=
      .altered hb ⟨rfl, rfl, (nomatch ·), fun _ hdead => by cases hblocked.symm.trans hdead⟩
    refine Run.meets_pure (hset.path.trans (Change.queued (t.ready ++ [s]) fun s' hs' => ?_).path)
    rcases List.mem_append.mp hs' with hs' | hs'
    · exact (hset.coherent c).alive s' hs'
    · obtain rfl := List.mem_singleton.mp hs'
      exact ⟨_, (block?_setSlot ..).trans (if_pos rfl), by simp⟩

omit c in
/-- The registers of a process are stored, which is on no record. -/
theorem saveContext_path (hs : (t.block? s).isSome) (stored : Context) :
    Path lawful t [] (t.saveContext s stored) := by
  obtain ⟨b, hb⟩ := Option.isSome_iff_exists.mp hs
  rw [saveContext, modifySlot, hb, Option.map_some]
  have alters : b.Alters lawful { b with context := stored } := ⟨rfl, rfl, id, fun _ => id⟩
  exact (Change.altered hb alters).path

/-- The entry of the current process is handed out.  Where there is none, nothing changes. -/
theorem takeEntry_path : Path lawful t [] t.takeEntry.2 := by
  obtain ⟨b, hb⟩ := Option.isSome_iff_exists.mp c.occupied
  rw [takeEntry_eq hb]
  have alters : b.Alters lawful { b with pending? := none } := ⟨rfl, rfl, id, fun _ => id⟩
  exact (Change.altered hb alters).path

/-- The current process is charged, and whoever is at the head of the queue can still run.  The latter
may be the current process itself, which was changed just now. -/
theorem suspended_path {next : Slot} {rest : List Slot} {outgoing : ControlBlock ε}
    (hready : t.ready = next :: rest) (hout : t.block? t.current = some outgoing) (ticks : Nat) :
    Path lawful t [.charged outgoing.pid ticks]
        (t.suspended rest outgoing (outgoing.cpuTime + ticks))
      ∧ ∀ incoming, (t.suspended rest outgoing (outgoing.cpuTime + ticks)).block? next
        = some incoming → incoming.state ≠ .terminated := by
  have hcharge : Change lawful t [.charged outgoing.pid ticks] _ := .charged hout ticks
  have hin : ∀ s ∈ rest, s ∈ t.ready := fun s hs => by simp [hready, hs]
  have hhead : ∀ {t₁ : ProcessTable ε}, Coherent t₁ → t₁.ready = t.ready →
      ∀ incoming, t₁.block? next = some incoming → incoming.state ≠ .terminated := by
    intro t₁ c₁ hready₁ incoming hb hdead
    exact c₁.not_mem_ready hb hdead (by simp [hready₁, hready])
  unfold suspended
  split
  case isTrue hrunning =>
    have alters : ControlBlock.Alters lawful
        { outgoing with cpuTime := outgoing.cpuTime + ticks }
        { outgoing with cpuTime := outgoing.cpuTime + ticks, state := .ready } :=
      ⟨rfl, rfl, (nomatch ·), fun _ hdead => by cases hrunning.symm.trans hdead⟩
    have hwait : Change lawful (t.setSlot t.current (some
          { outgoing with cpuTime := outgoing.cpuTime + ticks })) []
        (t.setSlot t.current (some
          { outgoing with cpuTime := outgoing.cpuTime + ticks, state := .ready })) := by
      have hset := Change.altered ((block?_setSlot t t.current t.current _).trans (if_pos rfl)) alters
      rwa [setSlot_setSlot] at hset
    have c₁ := hwait.coherent (hcharge.coherent c)
    have hin₁ := hhead c₁ rfl
    refine ⟨hcharge.path.trans (hwait.path.trans (Change.queued _ fun s hs => ?_).path), hin₁⟩
    rcases List.mem_append.mp hs with hs | hs
    · exact c₁.alive s (hin s hs)
    · obtain rfl := List.mem_singleton.mp hs
      exact ⟨_, (block?_setSlot ..).trans (if_pos rfl), by simp⟩
  case isFalse =>
    have c₁ := hcharge.coherent c
    have hin₁ := hhead c₁ rfl
    exact ⟨hcharge.path.trans (Change.queued _ fun s hs => c₁.alive s (hin s hs)).path, hin₁⟩

/-- **What a dispatch does.**  If nothing is queued, then nothing; otherwise the current process is
charged for the ticks since its own dispatch, and whoever is at the head of the queue runs, who can
run.  That may be the current process itself, if a block and an unblock came before. -/
theorem schedule_path (lawful : Prop) (now : Nat) :
    (t.schedule now).Meets (ChargeFault now t) fun (switch?, t') =>
      match switch? with
      | none => t.ready = [] ∧ t' = t
      | some w => t.ready ≠ [] ∧ w.fromSlot = t.current
          ∧ (∃ s b, t.block? s = some b ∧ b.pid = w.toPid ∧ b.state ≠ .terminated)
          ∧ ∃ outgoing, t.block? t.current = some outgoing
            ∧ Path lawful t [.charged outgoing.pid (now - outgoing.dispatchedAt),
              .dispatched w.toPid now] t' := by
  refine (c.schedule_cases now).imp ?_
  rintro ⟨switch?, t'⟩ hdone
  cases switch? with
  | none => exact hdone
  | some w =>
      obtain ⟨next, rest, outgoing, t₁, incoming, hready, hout, rfl, hin, hfrom, hpid, rfl⟩ := hdone
      obtain ⟨hsuspend, hhead⟩ : Path lawful t _ _ ∧ _ :=
        c.suspended_path hready hout (now - outgoing.dispatchedAt)
      obtain ⟨queued, hqueued, hstate⟩ := c.alive next (by simp [hready])
      obtain ⟨b, hb, hpid'⟩ := block?_suspended rest _ hout hqueued
      obtain rfl := Option.some.inj (hb.symm.trans hin)
      have hqueue : t.ready ≠ [] := by simp [hready]
      refine ⟨hqueue, hfrom, ⟨next, queued, hqueued, hpid'.symm.trans hpid.symm, hstate⟩, outgoing,
        hout, ?_⟩
      rw [hpid]
      exact hsuspend.trans (Change.dispatched hin (hhead b hin) now).path

/-- **Slots are reclaimed**, of processes that are over; one event for each, in the order of the
slots. -/
theorem reapSlots_path (lawful : Prop) (count : Nat) (slots : List Slot) :
    ∃ pids : List Pid, Path lawful t (pids.map .reclaimed) (t.reapSlots count slots).2 := by
  induction slots generalizing t count with
  | nil => exact ⟨[], .refl t⟩
  | cons s rest ih =>
      rw [reapSlots]
      cases h : t.reapSlot s with
      | none => exact ih c count
      | some t' =>
          obtain ⟨hcurrent, b, hb, hdead, rfl⟩ := reapSlot_cases h
          have hslot : Change lawful t _ _ := .reclaimed hcurrent hb hdead
          obtain ⟨pids, hrest⟩ := ih (hslot.coherent c) (count + 1)
          exact ⟨b.pid :: pids, .step hslot hrest⟩

theorem reap_path (lawful : Prop) :
    t.reap.Meets admits fun (_, t') => ∃ pids : List Pid, Path lawful t (pids.map .reclaimed) t' := by
  have hreaped := c.reapSlots_path lawful 0 (allSlots.filter (· ≠ kernelSlot))
  unfold reap
  generalize t.reapSlots 0 (allSlots.filter (· ≠ kernelSlot)) = reaped at hreaped
  dsimp only
  split
  · exact Run.meets_log_bind (Run.meets_pure hreaped)
  · exact Run.meets_pure hreaped

end Coherent

/-! ## Creation -/

/-- **A slot is held for a process** that would be created next.  Its pid is used up by then, and its
parent has taken no note yet. -/
structure Awaits (t : ProcessTable ε) (birth : Birth) (r : Reservation) (t' : ProcessTable ε) :
    Prop where
  birth_eq : ∃ name priority, birth = t.birth name priority
  first : t.FirstFree r.slot
  fits : t.nextPid.toNat + 1 < 2 ^ 32
  pid_eq : r.pid = birth.pid
  held : ∃ b, b.state = .new ∧ { b.info with state := .ready } = birth.info
    ∧ t' = { t with nextPid := t.nextPid + 1 }.setSlot r.slot (some b)

/-- **A reservation is made**, of the first free slot, or nothing happens because there is none.  Only
a pid that is the last of its word can make it fault. -/
theorem reserve_awaits (t : ProcessTable ε) (name : String) (priority : Priority) :
    (liftM (t.reserve name priority) : Run _).Meets t.PidFault fun (reserved, t') =>
      match reserved with
      | .error cause => t.Full ∧ cause = .tableFull ∧ t' = t
      | .ok r => t.Awaits (t.birth name priority) r t' := by
  rcases t.reserve_cases name priority with ⟨hfull, hreserve⟩
    | ⟨s, first, ⟨hnext, hreserve⟩ | ⟨hfits, hreserve⟩⟩
  · rw [hreserve]
    exact Run.meets_pure ⟨hfull, rfl, rfl⟩
  · rw [hreserve]
    exact Run.meets_throw ⟨rfl, hnext⟩
  · rw [hreserve]
    exact Run.meets_pure ⟨⟨name, priority, rfl⟩, first, hfits, rfl, _, rfl, rfl, rfl⟩

namespace Awaits

variable {r : Reservation}

theorem free (h : t.Awaits birth r t') : t.block? r.slot = none := h.first.free

theorem birth_pid (h : t.Awaits birth r t') (info_eq : { b.info with state := .ready } = birth.info) :
    b.pid = ⟨t.nextPid⟩ := by
  obtain ⟨name, priority, hbirth⟩ := h.birth_eq
  exact (congrArg ProcessInfo.pid info_eq).trans (congrArg Birth.pid hbirth)

theorem coherent (h : t.Awaits birth r t') (c : Coherent t) : Coherent t' := by
  obtain ⟨b, -, info_eq, rfl⟩ := h.held
  exact c.arrive h.free h.fits (h.birth_pid info_eq)

/-- **A reservation is given up**, and all that is left of it is that its pid is used up.  No later
process gets that pid. -/
theorem abandon_eq (h : t.Awaits birth r t') :
    t'.abandon r = { t with nextPid := t.nextPid + 1 } := by
  obtain ⟨b, -, -, rfl⟩ := h.held
  have hfree : ({ t with nextPid := t.nextPid + 1 } : ProcessTable ε).block? r.slot = none := h.free
  rw [abandon, setSlot_setSlot, ← hfree, setSlot_block?]

theorem abandon_path (h : t.Awaits birth r t') : Path lawful t [] (t'.abandon r) := by
  rw [h.abandon_eq]
  exact (Change.skipped h.fits).path

/-- **Whoever waits is started**, and enters the table as the process just created, with its stack and
its entry.  The slot was held in between, so reserving and activating together are one change. -/
theorem activate_enrolled (h : t.Awaits birth r t') (stack : Stack) (entry : ε)
    (entryPoint : UInt32) :
    (t'.activate r stack entry entryPoint).Meets OrderFault fun t₁ =>
      ∃ b : ControlBlock ε, b.Starts birth stack entry ∧ t₁ = t.enrolled r.slot b := by
  obtain ⟨b, hnew, hinfo, rfl⟩ := h.held
  refine (activate_started ((block?_setSlot ..).trans (if_pos rfl)) hnew stack entry
    entryPoint).imp ?_
  rintro t₁ ⟨cr3, rfl⟩
  have hpid : r.pid = b.pid := h.pid_eq.trans (congrArg ProcessInfo.pid hinfo).symm
  rw [started, setSlot_setSlot, hpid]
  exact ⟨_, ⟨hinfo, rfl, rfl, rfl⟩, rfl⟩

/-- **A process is created**, which is one event, however it was prepared. -/
theorem activate_path (h : t.Awaits birth r t') (stack : Stack) (entry : ε) (entryPoint : UInt32) :
    (t'.activate r stack entry entryPoint).Meets OrderFault
      (Path lawful t [.created birth]) := by
  refine (h.activate_enrolled stack entry entryPoint).imp ?_
  rintro t₁ ⟨b, starts, rfl⟩
  exact (Change.created h.free h.fits h.birth_eq starts.info_eq).path

end Awaits

end ProcessTable

end TinyKernel
