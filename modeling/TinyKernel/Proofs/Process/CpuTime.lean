import Mathlib.Algebra.BigOperators.Group.Finset.Piecewise
import Mathlib.Algebra.Order.BigOperators.Group.Finset
import TinyKernel.Proofs.Process.Finality

/-!
# Processor time is conserved

A process is charged when it makes way for another, for the ticks since its own dispatch.  So the
times of all processes that ever were, the reclaimed ones included, add up to the tick of the last
dispatch, however they ended, waited or were killed in between.  No tick is lost, and none is charged
twice.

The clock that dispatches are asked for must not go back.  Everything else can be called in any order,
also what would bring a terminated process back to life.

## What is load-bearing

A dispatch changes two numbers at once: it charges the ticks since the last one, and it is the last
one from then on.  In between, where the outgoing process was charged and the other is not yet
dispatched, the times do not add up (`ProcessTable.Clocked` only ties them to the table).

* `ProcessTable.Clocked` — a table agrees with what was charged
* `TimeSheet`, `TimeSession` — the times of all processes that ever were
* `TimeSession.run_conserves` — they add up to the tick of the last dispatch
-/

namespace TinyKernel

/-! ## What is charged -/

/-- The ticks that an event charges to a process.  All events but one charge nothing. -/
def Event.charge (pid : Pid) : Event → Nat
  | .charged pid' ticks => if pid = pid' then ticks else 0
  | _ => 0

/-- The tick of the last dispatch after an event, given the one before it. -/
def Event.tick (last : Nat) : Event → Nat
  | .dispatched _ now => now
  | _ => last

theorem Event.timeless.charge_eq {e : Event} (h : e.timeless) (pid : Pid) : e.charge pid = 0 := by
  cases e <;> first | rfl | exact h.elim

theorem Event.timeless.tick_eq {e : Event} (h : e.timeless) (last : Nat) : e.tick last = last := by
  cases e <;> first | rfl | exact h.elim

/-- The ticks that were charged to each process, after some events.  Pids are never given twice, so
that a function of the pid is enough. -/
def charges (time : Pid → Nat) (events : List Event) (pid : Pid) : Nat :=
  events.foldl (fun ticks e => ticks + e.charge pid) (time pid)

theorem charges_timeless (time : Pid → Nat) {events : List Event} (h : ∀ e ∈ events, e.timeless) :
    charges time events = time := by
  funext pid
  induction events with
  | nil => rfl
  | cons e events ih =>
      rw [charges, List.foldl_cons, (h e List.mem_cons_self).charge_eq, Nat.add_zero]
      exact ih fun e' he' => h e' (List.mem_cons_of_mem _ he')

theorem foldl_tick_timeless (last : Nat) {events : List Event} (h : ∀ e ∈ events, e.timeless) :
    events.foldl Event.tick last = last := by
  induction events with
  | nil => rfl
  | cons e events ih =>
      rw [List.foldl_cons, (h e List.mem_cons_self).tick_eq]
      exact ih fun e' he' => h e' (List.mem_cons_of_mem _ he')

namespace ProcessTable

variable {ε : Type} {lawful : Prop} {t t' : ProcessTable ε} {s : Slot} {b b' : ControlBlock ε}
  {time time' : Pid → Nat} {last : Nat} {events : List Event}

/-- **A table agrees with what was charged**, and with the tick of the last dispatch.  The second field
speaks of the current process only: others were dispatched earlier, and are not charged now. -/
structure Clocked (time : Pid → Nat) (last : Nat) (t : ProcessTable ε) : Prop where
  cpuTime_eq : ∀ s b, t.block? s = some b → b.cpuTime = time b.pid
  dispatchedAt_eq : ∀ b, t.block? t.current = some b → b.dispatchedAt = last
  /-- Whoever is yet to come was not charged. -/
  fresh : ∀ pid : Pid, t.nextPid ≤ pid.val → time pid = 0

/-- A process changes, but not its times. -/
theorem Clocked.setSlot (k : Clocked time last t) (hb : t.block? s = some b) (pid_eq : b'.pid = b.pid)
    (cpuTime_eq : b'.cpuTime = b.cpuTime) (dispatchedAt_eq : b'.dispatchedAt = b.dispatchedAt) :
    Clocked time last (t.setSlot s (some b')) where
  cpuTime_eq s' b'' hb'' := by
    rcases of_block?_setSlot hb'' with ⟨rfl, heq⟩ | ⟨-, hb''⟩
    · obtain rfl := Option.some.inj heq
      rw [cpuTime_eq, pid_eq]
      exact k.cpuTime_eq s' b hb
    · exact k.cpuTime_eq s' b'' hb''
  dispatchedAt_eq b'' hb'' := by
    rcases of_block?_setSlot hb'' with ⟨hs, heq⟩ | ⟨-, hb''⟩
    · obtain rfl := Option.some.inj heq
      rw [dispatchedAt_eq]
      exact k.dispatchedAt_eq b ((congrArg t.block? hs).trans hb)
    · exact k.dispatchedAt_eq b'' hb''
  fresh := k.fresh

/-- The current process is charged.  Nobody else has its pid, so that no other time changes. -/
theorem Clocked.charge (k : Clocked time last t) (c : Coherent t) (hb : t.block? t.current = some b)
    (ticks : Nat) : Clocked (charges time [.charged b.pid ticks]) last
      (t.setSlot t.current (some { b with cpuTime := b.cpuTime + ticks })) where
  cpuTime_eq s' b' hb' := by
    rcases of_block?_setSlot hb' with ⟨-, heq⟩ | ⟨hs, hb'⟩
    · obtain rfl := Option.some.inj heq
      show b.cpuTime + ticks = time b.pid + if b.pid = b.pid then ticks else 0
      rw [if_pos rfl, k.cpuTime_eq _ b hb]
    · have hpid : b'.pid ≠ b.pid := fun heq => hs (c.pid_inj s' t.current b.pid
        ((pidAt?_of_block? hb').trans (congrArg some heq)) (pidAt?_of_block? hb))
      show b'.cpuTime = time b'.pid + if b'.pid = b.pid then ticks else 0
      rw [if_neg hpid]
      exact k.cpuTime_eq s' b' hb'
  dispatchedAt_eq b' hb' := by
    rcases of_block?_setSlot hb' with ⟨-, heq⟩ | ⟨hs, -⟩
    · obtain rfl := Option.some.inj heq
      exact k.dispatchedAt_eq b hb
    · exact absurd rfl hs
  fresh pid hpid := by
    have hne : pid ≠ b.pid := by
      rintro rfl
      exact UInt32.not_lt.mpr hpid (c.pid_lt _ _ (pidAt?_of_block? hb))
    show (time pid + if pid = b.pid then ticks else 0) = 0
    rw [if_neg hne]
    exact k.fresh pid hpid

/-- **Every change agrees with what it charges.**  One case for each kind, and only two of them touch a
time. -/
theorem Change.clocked (h : Change lawful t events t') (c : Coherent t) (k : Clocked time last t) :
    Clocked (charges time events) (events.foldl Event.tick last) t' := by
  cases h with
  | queued ready alive => exact ⟨k.cpuTime_eq, k.dispatchedAt_eq, k.fresh⟩
  | altered hb alters =>
      exact k.setSlot hb (congrArg ProcessInfo.pid alters.info_eq)
        (congrArg ProcessInfo.cpuTime alters.info_eq) alters.dispatchedAt_eq
  | @ended s b hb alive code =>
      have hqueue : Clocked time last { t with ready := t.ready.filter (· ≠ s) } :=
        ⟨k.cpuTime_eq, k.dispatchedAt_eq, k.fresh⟩
      exact hqueue.setSlot hb rfl rfl rfl
  | charged hb ticks => exact k.charge c hb ticks
  | @dispatched s b hb alive now =>
      refine ⟨fun s' b' hb' => ?_, fun b' hb' => ?_, k.fresh⟩
      · rcases of_block?_setSlot hb' with ⟨-, heq⟩ | ⟨-, hb'⟩
        · obtain rfl := Option.some.inj heq
          exact k.cpuTime_eq s b hb
        · exact k.cpuTime_eq s' b' hb'
      · rcases of_block?_setSlot hb' with ⟨-, heq⟩ | ⟨hs, -⟩
        · obtain rfl := Option.some.inj heq
          rfl
        · exact absurd rfl hs
  | skipped fits =>
      refine ⟨k.cpuTime_eq, k.dispatchedAt_eq, fun pid hpid => k.fresh pid ?_⟩
      exact UInt32.le_trans (UInt32.le_of_lt (nextPid_lt fits)) hpid
  | @created s b birth hfree fits hbirth info_eq =>
      refine ⟨fun s' b' hb' => ?_, fun b' hb' => ?_, fun pid hpid => k.fresh pid ?_⟩
      · rcases c.of_block?_enrolled hfree hb' with ⟨-, rfl⟩ | ⟨b₀, children, hb₀, rfl⟩
        · have hnew : b'.cpuTime = 0 := congrArg ProcessInfo.cpuTime info_eq
          rw [hnew, birth_pid hbirth info_eq]
          exact (k.fresh ⟨t.nextPid⟩ (UInt32.le_refl _)).symm
        · exact k.cpuTime_eq s' b₀ hb₀
      · obtain ⟨creator, hcreator⟩ := Option.isSome_iff_exists.mp c.occupied
        rcases c.of_block?_enrolled hfree hb' with ⟨hs, -⟩ | ⟨b₀, children, hb₀, rfl⟩
        · exact absurd hs (Coherent.ne_of_block? hcreator hfree)
        · exact k.dispatchedAt_eq b₀ hb₀
      · rw [nextPid_enrolled] at hpid
        exact UInt32.le_trans (UInt32.le_of_lt (nextPid_lt fits)) hpid
  | @reclaimed s b hs hb dead =>
      refine ⟨fun s' b' hb' => ?_, fun b' hb' => ?_, fun pid hpid => k.fresh pid ?_⟩
      · obtain ⟨b₀, children, hb₀, rfl⟩ := c.of_block?_reclaimed hb'
        exact k.cpuTime_eq s' b₀ hb₀
      · rw [current_setSlot, current_removeChild] at hb'
        obtain ⟨b₀, children, hb₀, rfl⟩ := c.of_block?_reclaimed hb'
        exact k.dispatchedAt_eq b₀ hb₀
      · rwa [← t.nextPid_removeChild b.parent? b.pid]

theorem Path.clocked (h : Path lawful t events t') (c : Coherent t) (k : Clocked time last t) :
    Clocked (charges time events) (events.foldl Event.tick last) t' := by
  induction h generalizing time last with
  | refl => exact k
  | @step _ _ _ events events' change _ ih =>
      have hrest := ih (change.coherent c) (change.clocked c k)
      have hcharges : charges (charges time events) events' = charges time (events ++ events') := by
        funext pid
        exact (List.foldl_append).symm
      rwa [hcharges, ← List.foldl_append] at hrest

/-- Whoever is yet to be activated was not charged, so that a reservation agrees with the times as
well. -/
theorem Awaits.clocked {birth : Birth} {r : Reservation} (h : t.Awaits birth r t') (c : Coherent t)
    (k : Clocked time last t) : Clocked time last t' := by
  obtain ⟨b, -, info_eq, rfl⟩ := h.held
  have hnew : b.cpuTime = 0 := congrArg ProcessInfo.cpuTime info_eq
  have hpid : b.pid = ⟨t.nextPid⟩ := h.birth_pid info_eq
  obtain ⟨creator, hcreator⟩ := Option.isSome_iff_exists.mp c.occupied
  refine ⟨fun s' b' hb' => ?_, fun b' hb' => ?_, fun pid hle => k.fresh pid ?_⟩
  · rcases of_block?_setSlot hb' with ⟨-, heq⟩ | ⟨-, hb'⟩
    · obtain rfl := Option.some.inj heq
      rw [hnew, hpid]
      exact (k.fresh ⟨t.nextPid⟩ (UInt32.le_refl _)).symm
    · exact k.cpuTime_eq s' b' hb'
  · rcases of_block?_setSlot hb' with ⟨hs, -⟩ | ⟨-, hb'⟩
    · exact absurd hs (Coherent.ne_of_block? hcreator h.free)
    · exact k.dispatchedAt_eq b' hb'
  · exact UInt32.le_trans (UInt32.le_of_lt (nextPid_lt h.fits)) hle

end ProcessTable

/-! ## Time sheets -/

/-- **The times of all processes that ever were**: of each as it is in the table, or as it was when it
was there last.  This is what a client can know who looks at the table after every call. -/
@[ext]
structure TimeSheet where
  known : Finset Pid
  time : Pid → Nat

namespace TimeSheet

variable {ε : Type} {sheet : TimeSheet} {t : ProcessTable ε} {time : Pid → Nat} {last : Nat}
  {pid : Pid}

/-- All times together, those of reclaimed processes included. -/
def total (sheet : TimeSheet) : Nat := ∑ pid ∈ sheet.known, sheet.time pid

/-- **The sheet after a look at the table.**  Whoever is not found keeps the time that was seen
last. -/
def updated (sheet : TimeSheet) (t : ProcessTable ε) : TimeSheet where
  known := sheet.known ∪ (t.list.map ProcessInfo.pid).toFinset
  time pid := (t.find? pid).elim (sheet.time pid) ProcessInfo.cpuTime

theorem mem_updated (hmem : pid ∈ (sheet.updated t).known) :
    pid ∈ sheet.known ∨ ∃ s b, t.block? s = some b ∧ b.pid = pid := by
  rcases Finset.mem_union.mp hmem with hold | hnew
  · exact Or.inl hold
  · obtain ⟨p, hp, rfl⟩ := List.mem_map.mp (List.mem_toFinset.mp hnew)
    obtain ⟨s, b, hb, rfl⟩ := ProcessTable.mem_list.mp hp
    exact Or.inr ⟨s, b, hb, rfl⟩

/-- **A look shows what was charged**, provided that nobody left who was.  Whoever left since the last
look has the time on the sheet. -/
theorem time_updated (c : t.Coherent) (k : t.Clocked time last)
    (hgone : (∀ s b, t.block? s = some b → b.pid ≠ pid) → sheet.time pid = time pid) :
    (sheet.updated t).time pid = time pid := by
  show (t.find? pid).elim _ _ = _
  cases hfind : t.find? pid with
  | some p =>
      obtain ⟨s, b, hb, rfl, rfl⟩ := ProcessTable.of_find?_eq_some hfind
      exact k.cpuTime_eq s b hb
  | none =>
      refine hgone fun s b hb hpid => ?_
      have hfound := c.find?_eq_info hb
      rw [hpid, hfind] at hfound
      cases hfound

/-- Whoever is not known yet adds nothing, so that the sum may run over those who became known as
well. -/
theorem sum_known_updated (unknown : ∀ pid ∉ sheet.known, sheet.time pid = 0) :
    ∑ pid ∈ (sheet.updated t).known, sheet.time pid = sheet.total :=
  (Finset.sum_subset Finset.subset_union_left fun pid _ hpid => unknown pid hpid).symm

/-- **A charge to somebody who is known** adds to the total what it charges, and nothing to any
other. -/
theorem total_charged (unknown : ∀ pid ∉ sheet.known, sheet.time pid = 0) (hmem : pid ∈ sheet.known)
    {ticks : Nat} (htime : (sheet.updated t).time = charges sheet.time [.charged pid ticks]) :
    (sheet.updated t).total = sheet.total + ticks := by
  have hmem' : pid ∈ (sheet.updated t).known := Finset.mem_union_left _ hmem
  calc (sheet.updated t).total
    _ = ∑ p ∈ (sheet.updated t).known, (sheet.time p + if p = pid then ticks else 0) := by
        rw [total, htime]
        rfl
    _ = sheet.total + ticks := by
        rw [Finset.sum_add_distrib, sum_known_updated unknown, Finset.sum_ite_eq', if_pos hmem']

end TimeSheet

/-! ## Calls that are timed -/

/-- **Calls of a process table, with a clock.**  After each call somebody looks at the table, and keeps
the times of those who are gone. -/
structure TimeSession (ε : Type) where
  session : TableSession ε
  sheet : TimeSheet
  /-- The tick of the last dispatch that found somebody to run. -/
  switchedAt : Nat
  /-- The tick that a dispatch was asked for last. -/
  clock : Nat

namespace TimeSession

open ProcessTable

variable {ε : Type}

/-- **The rule of the client**: the clock does not go back, and fits its word.  It may stand still, and
calls that are no dispatch have no tick. -/
def permits (s : TimeSession ε) : TableCall ε → Bool
  | .schedule now _ => s.clock ≤ now ∧ now < 2 ^ 64
  | _ => true

/-- What is seen after a call.  Whether a dispatch found somebody shows in who was dispatched.  The
clock goes on even if it found nobody. -/
def observe (s : TimeSession ε) (call : TableCall ε) (session : TableSession ε) : TimeSession ε :=
  let sheet := s.sheet.updated session.table
  match call with
  | .schedule now _ =>
    let idle := session.dispatched.length = s.session.dispatched.length
    { session, sheet, switchedAt := if idle then s.switchedAt else now, clock := now }
  | _ => { s with session, sheet }

/-- A call that keeps to the rule is made; another is not, and the session goes on without it. -/
def step (s : TimeSession ε) (call : TableCall ε) : Run (TimeSession ε) :=
  if s.permits call then do
    let session ← s.session.make call
    pure (s.observe call session)
  else
    pure s

/-- Calls, one after the other, until one of them faults. -/
def run (s : TimeSession ε) : List (TableCall ε) → Run (TimeSession ε)
  | [] => pure s
  | call :: calls => do
    let s ← s.step call
    s.run calls

/-- A table that holds the kernel's process alone, as it is seen at first: at tick zero, and with no
time charged. -/
def start (kernelDirectory : PhysAddr) : TimeSession ε where
  session := .start kernelDirectory
  sheet := TimeSheet.updated ⟨∅, fun _ => 0⟩ (.new kernelDirectory : ProcessTable ε)
  switchedAt := 0
  clock := 0

/-- **No tick is lost, and none is counted twice**, as a look at a table shows.  The total is what the
current process was dispatched at, since ticks are charged when somebody makes way. -/
structure Conserves (s : TimeSession ε) (t : ProcessTable ε) : Prop where
  total_eq : (s.sheet.updated t).total = s.switchedAt
  current : ∃ b, t.block? t.current = some b ∧ b.dispatchedAt = s.switchedAt
  cpuTime_le : ∀ p ∈ t.list, p.cpuTime ≤ s.switchedAt

/-- **What a dispatch charges**: if nobody is queued, nothing; otherwise the ticks since the last
dispatch, to the process that makes way.  The two fields cover every dispatch. -/
structure Accounts (s : TimeSession ε) (now : Nat) (s' : TimeSession ε) : Prop where
  idle : s.session.table.ready = [] → s' = { s with clock := now }
  switched : s.session.table.ready ≠ [] → s'.switchedAt = now
    ∧ s'.sheet.time = charges s.sheet.time
      [.charged s.session.table.currentPid (now - s.switchedAt)]

/-! ## What calls preserve -/

variable {s s' : TimeSession ε} {t : ProcessTable ε} {session : TableSession ε} {call : TableCall ε}

/-- **The sheet is right**, and adds up.  The last field relates it to the clock, so that a later
dispatch does not count backwards; `known` and `unknown` say together that the sum runs over everybody
who has any time. -/
structure Balanced (s : TimeSession ε) : Prop where
  coherent : s.session.table.Coherent
  clocked : s.session.table.Clocked s.sheet.time s.switchedAt
  known : ∀ slot b, s.session.table.block? slot = some b → b.pid ∈ s.sheet.known
  unknown : ∀ pid ∉ s.sheet.known, s.sheet.time pid = 0
  total_eq : s.sheet.total = s.switchedAt
  switchedAt_le : s.switchedAt ≤ s.clock

namespace Balanced

/-- Nobody has more time than passed: each time is one of the numbers that are added up. -/
theorem time_le (h : s.Balanced) (pid : Pid) : s.sheet.time pid ≤ s.switchedAt := by
  by_cases hmem : pid ∈ s.sheet.known
  · rw [← h.total_eq]
    exact Finset.single_le_sum (fun _ _ => Nat.zero_le _) hmem
  · rw [h.unknown pid hmem]
    exact Nat.zero_le _

/-- **A table on which the sheet is right as it is** conserves time.  It need not be that of the
session: a reservation may have been made meanwhile. -/
theorem conserves (h : s.Balanced) (c : t.Coherent) (k : t.Clocked s.sheet.time s.switchedAt) :
    s.Conserves t := by
  have htime : (s.sheet.updated t).time = s.sheet.time :=
    funext fun pid => TimeSheet.time_updated c k fun _ => rfl
  refine ⟨?_, ?_, fun p hp => ?_⟩
  · rw [TimeSheet.total, htime, TimeSheet.sum_known_updated h.unknown]
    exact h.total_eq
  · obtain ⟨b, hb⟩ := Option.isSome_iff_exists.mp c.occupied
    exact ⟨b, hb, k.dispatchedAt_eq b hb⟩
  · obtain ⟨slot, b, hb, rfl⟩ := mem_list.mp hp
    show b.cpuTime ≤ s.switchedAt
    rw [k.cpuTime_eq slot b hb]
    exact h.time_le b.pid

/-- Whoever is in the table after a look is known, the new ones included. -/
theorem known_updated (sheet : TimeSheet) {slot : Slot} {b : ControlBlock ε}
    (hb : t.block? slot = some b) : b.pid ∈ (sheet.updated t).known := by
  refine Finset.mem_union_right _ (List.mem_toFinset.mpr ?_)
  exact List.mem_map_of_mem (f := ProcessInfo.pid) (mem_list.mpr ⟨slot, b, hb, rfl⟩)

/-- A second look shows nothing new, because the first one showed all times. -/
theorem updated_eq (h : s.Balanced) : s.sheet.updated s.session.table = s.sheet := by
  ext pid
  · refine ⟨fun hmem => ?_, Finset.mem_union_left _⟩
    rcases TimeSheet.mem_updated hmem with hold | ⟨slot, b, hb, rfl⟩
    · exact hold
    · exact h.known slot b hb
  · exact TimeSheet.time_updated h.coherent h.clocked fun _ => rfl

/-- **After a call that charges nobody.**  Processes may have come and gone, and the clock may have
gone on. -/
theorem quiet (h : s.Balanced) {clock : Nat} (hclock : s.clock ≤ clock) (c : session.table.Coherent)
    (k : session.table.Clocked s.sheet.time s.switchedAt) :
    Balanced { s with session, sheet := s.sheet.updated session.table, clock } := by
  have htime : (s.sheet.updated session.table).time = s.sheet.time :=
    funext fun pid => TimeSheet.time_updated c k fun _ => rfl
  refine ⟨c, ?_, fun slot b hb => known_updated _ hb, fun pid hpid => ?_, (h.conserves c k).total_eq,
    Nat.le_trans h.switchedAt_le hclock⟩
  · rw [htime]
    exact k
  · rw [htime]
    exact h.unknown pid fun hmem => hpid (Finset.mem_union_left _ hmem)

/-- What a dispatch of somebody leaves on the sheet: the ticks since the last one, for the process that
made way. -/
theorem switched_time (h : s.Balanced) {now : Nat} {outgoing b : ControlBlock ε}
    (switch : s.session.Switched False now outgoing b t) :
    (s.sheet.updated t).time
      = charges s.sheet.time [.charged outgoing.pid (now - s.switchedAt)] := by
  have k := switch.path.clocked h.coherent h.clocked
  rw [h.clocked.dispatchedAt_eq outgoing switch.hout] at k
  funext pid
  refine (TimeSheet.time_updated (switch.path.coherent h.coherent) k fun hgone => ?_).trans rfl
  -- the one that made way is still there
  have hne : pid ≠ outgoing.pid := by
    rintro rfl
    obtain ⟨b', hb', hpid⟩ := (switch.path.stays h.coherent switch.hout).resolve_left (by simp)
    exact hgone _ b' hb' hpid
  show s.sheet.time pid = s.sheet.time pid + (if pid = outgoing.pid then _ else 0)
  rw [if_neg hne, Nat.add_zero]

/-- **After a dispatch of somebody.**  The total grows by what passed since the last one, and so is the
new tick. -/
theorem switched (h : s.Balanced) {now : Nat} (hnow : s.clock ≤ now) {outgoing b : ControlBlock ε}
    (switch : s.session.Switched False now outgoing b session.table) :
    Balanced ⟨session, s.sheet.updated session.table, now, now⟩ := by
  have c := switch.path.coherent h.coherent
  have k := switch.path.clocked h.coherent h.clocked
  have htime := h.switched_time switch
  have hout := h.known _ outgoing switch.hout
  rw [h.clocked.dispatchedAt_eq outgoing switch.hout] at k
  refine ⟨c, ?_, fun slot b hb => known_updated _ hb, fun pid hpid => ?_, ?_, Nat.le_refl _⟩
  · rw [htime]
    exact k
  · have hold : pid ∉ s.sheet.known := fun hmem => hpid (Finset.mem_union_left _ hmem)
    have hne : pid ≠ outgoing.pid := fun heq => hold (heq ▸ hout)
    rw [htime]
    show s.sheet.time pid + (if pid = outgoing.pid then now - s.switchedAt else 0) = 0
    rw [if_neg hne]
    exact h.unknown pid hold
  · -- what was charged since the last dispatch, and what is charged now
    have hpast : s.switchedAt ≤ now := Nat.le_trans h.switchedAt_le hnow
    calc (s.sheet.updated session.table).total
      _ = s.sheet.total + (now - s.switchedAt) := TimeSheet.total_charged h.unknown hout htime
      _ = s.switchedAt + (now - s.switchedAt) := by rw [h.total_eq]
      _ = now := Nat.add_sub_cancel' hpast

/-- What a dispatch may overflow fits: no time is later than the clock.  What is left of the faults is
a queue without a place. -/
theorem readyQueueFull (h : s.Balanced) {now : Nat} (hpermits : s.clock ≤ now ∧ now < 2 ^ 64)
    {e : Fault} (he : ChargeFault now s.session.table e) : e = .readyQueueFull := by
  rcases he with ⟨-, b, hb, hbig⟩ | hfull
  case inr => exact hfull
  exfalso
  have htime := h.time_le b.pid
  rw [← h.clocked.cpuTime_eq _ b hb] at htime
  rw [h.clocked.dispatchedAt_eq b hb] at hbig
  have hpast := h.switchedAt_le
  omega

end Balanced

/-- **A call that is made** keeps the sheet right.  Either nobody is charged, or somebody was
dispatched. -/
theorem make_balanced (h : s.Balanced) (hpermits : s.permits call = true)
    (made : s.session.Made False call session) : (s.observe call session).Balanced := by
  cases made with
  | @quiet table events path timeless reclaims =>
      have c := path.coherent h.coherent
      have k := path.clocked h.coherent h.clocked
      rw [charges_timeless _ timeless, foldl_tick_timeless _ timeless] at k
      cases call with
      | schedule now stored? =>
          obtain ⟨hnow, -⟩ := of_decide_eq_true hpermits
          simp only [observe, if_true]
          exact h.quiet hnow c k
      | _ => exact h.quiet (Nat.le_refl _) c k
  | switched hcall switch =>
      subst hcall
      obtain ⟨hnow, -⟩ := of_decide_eq_true hpermits
      simp only [observe, List.length_cons, Nat.succ_ne_self, if_false]
      exact h.switched hnow switch

theorem step_balanced (h : s.Balanced) (call : TableCall ε) :
    (s.step call).Meets OrderFault Balanced := by
  unfold step
  split
  case isTrue hpermits =>
    have hmake : (s.session.make call).Meets OrderFault (s.session.Made False call) :=
      TableSession.make_made False h.coherent (nomatch ·)
    exact hmake.bind fun _ made => Run.meets_pure (make_balanced h hpermits made)
  case isFalse => exact Run.meets_pure h

/-- **Calls, one after the other**, by induction on the calls.  A call that breaks the rule is not
made, and changes nothing. -/
theorem run_balanced (h : s.Balanced) (calls : List (TableCall ε)) :
    (s.run calls).Meets OrderFault Balanced := by
  induction calls generalizing s with
  | nil => exact Run.meets_pure h
  | cons call calls ih => exact (step_balanced h call).bind fun _ h' => ih h'

/-- **What a dispatch charges** at a later tick.  All that can stop it is a queue without a place; the
addition of times does not overflow. -/
theorem schedule_accounts (h : s.Balanced) {now : Nat} {stored? : Option Context}
    (hpermits : s.permits (.schedule now stored?) = true) :
    (s.step (.schedule now stored?)).Meets (· = .readyQueueFull) (s.Accounts now) := by
  have hnow := of_decide_eq_true hpermits
  unfold step
  rw [if_pos hpermits]
  refine ((TableSession.schedule_made False h.coherent now stored?).mono
    (fun e he => h.readyQueueFull hnow he) fun _ hmade => hmade).bind fun session hmade => ?_
  refine Run.meets_pure ?_
  obtain ⟨hready, rfl⟩ | ⟨outgoing, b, table, switch, rfl⟩ := hmade
  · refine ⟨fun _ => ?_, fun hne => absurd hready hne⟩
    simp only [observe, if_true, h.updated_eq]
  · refine ⟨fun hready => absurd hready switch.queued, fun _ => ?_⟩
    simp only [observe, List.length_cons, Nat.succ_ne_self, if_false, true_and]
    rw [currentPid_of_block? switch.hout]
    exact h.switched_time switch

/-- **While a slot is reserved**, nobody is charged, and the process that is yet to come shows no
time. -/
theorem reserve_conserves (h : s.Balanced) (name : String) (priority : Priority) :
    (liftM (s.session.table.reserve name priority) : Run _).Meets OrderFault fun (_, t) =>
      s.Conserves t := by
  refine (s.session.table.reserve_awaits name priority).mono (fun _ he => Or.inl ⟨.add, he.1⟩) ?_
  rintro ⟨reserved, t⟩ hreserved
  cases reserved with
  | error cause =>
      obtain ⟨-, -, rfl⟩ := hreserved
      exact h.conserves h.coherent h.clocked
  | ok r => exact h.conserves (hreserved.coherent h.coherent) (hreserved.clocked h.coherent h.clocked)

theorem start_balanced (kernelDirectory : PhysAddr) :
    (start kernelDirectory : TimeSession ε).Balanced := by
  have c : (new kernelDirectory : ProcessTable ε).Coherent := (new_scheduled kernelDirectory).coherent
  have timed := new_timed (ε := ε) kernelDirectory
  have k : (new kernelDirectory : ProcessTable ε).Clocked (fun _ => 0) 0 :=
    ⟨fun slot b hb => Nat.le_zero.mp (timed.cpuTime_le slot b hb),
      fun b hb => Nat.le_zero.mp (timed.dispatched b hb).2, fun _ _ => rfl⟩
  have htime : (TimeSheet.updated ⟨∅, fun _ => 0⟩ (new kernelDirectory : ProcessTable ε)).time
      = fun _ => 0 :=
    funext fun pid => TimeSheet.time_updated c k fun _ => rfl
  refine ⟨c, ?_, fun slot b hb => Balanced.known_updated _ hb, fun pid _ => congrFun htime pid, ?_,
    Nat.le_refl 0⟩
  · show (new kernelDirectory : ProcessTable ε).Clocked (TimeSheet.updated _ _).time 0
    rw [htime]
    exact k
  · show (TimeSheet.updated _ _).total = 0
    rw [TimeSheet.total, htime, Finset.sum_const_zero]

/-- **Processor time is conserved.**  A table starts with the kernel's process alone, and its
operations are called in any order, with a clock that does not go back.  Then at every point the times
of all processes that ever were, the reclaimed ones included, add up to the tick of the last dispatch
that found somebody to run.  That is what the current process was dispatched at, and nobody's time is
more than that.  It is so while a slot is reserved, too.  A dispatch at any later tick charges the
ticks since then to the process that makes way, or, if nobody is queued, nothing to anybody; it does
not overflow. -/
theorem run_conserves (kernelDirectory : PhysAddr) (calls : List (TableCall ε)) :
    ((start kernelDirectory).run calls).Meets OrderFault fun s =>
      s.Conserves s.session.table
        ∧ (∀ name priority,
          (liftM (s.session.table.reserve name priority) : Run _).Meets OrderFault fun (_, t) =>
            s.Conserves t)
        ∧ ∀ now stored?, s.permits (.schedule now stored?) = true →
          (s.step (.schedule now stored?)).Meets (· = .readyQueueFull) (s.Accounts now) := by
  refine (run_balanced (start_balanced kernelDirectory) calls).imp fun s h => ?_
  refine ⟨h.conserves h.coherent h.clocked, reserve_conserves h, ?_⟩
  intro now stored? hpermits
  exact schedule_accounts h hpermits

end TimeSession

end TinyKernel
