import Mathlib.Algebra.Group.Nat.Defs
import Mathlib.Data.Finset.Insert
import Mathlib.Data.Fintype.Card
import TinyKernel.Process.Table
import TinyKernel.Proofs.Outcome

/-!
# Orderly process tables

Table, queue and the running slot are changed one after the other, and several operations leave them
inconsistent until the next process is dispatched.  `Orderly` is what holds at every moment, also in
between; `Scheduled` is what holds when an operation is over.

## What is load-bearing

The kernel's own process is running or ready, and no operation that can take the processor away from
a process for good applies to it.  So whenever another process gives up the processor, the queue has
an entry (`Orderly.kernelSlot_mem_ready`).  And because the queue lists each ready slot once, it has
room for a slot that is not in it (`Orderly.enqueue_ok`).

* `ProcessTable.Orderly`, `ProcessTable.Scheduled` — the invariants
* `ProcessTable.Timed` — how far the times of the processes are from overflow
-/

namespace TinyKernel.ProcessTable

variable {ε : Type}

/-- The state of the process in a slot, if there is one. -/
def stateAt? (t : ProcessTable ε) (s : Slot) : Option ProcessState :=
  (t.block? s).map ControlBlock.state

/-- The pid of the process in a slot, if there is one. -/
def pidAt? (t : ProcessTable ε) (s : Slot) : Option Pid := (t.block? s).map ControlBlock.pid

/-- **What holds of a table at every moment**, with the slots that reservations hold.  The queue is
exactly the processes that are ready, each once; that is why it always has a place for one more. -/
structure Orderly (held : Finset Slot) (t : ProcessTable ε) : Prop where
  /-- Nobody runs but in the current slot. -/
  running : ∀ s, t.stateAt? s = some .running → s = t.current
  ready_nodup : t.ready.Nodup
  mem_ready : ∀ s, s ∈ t.ready ↔ t.stateAt? s = some .ready
  mem_held : ∀ s, s ∈ held ↔ t.stateAt? s = some .new
  occupied : (t.block? t.current).isSome
  kernel_pid : t.pidAt? kernelSlot = some .kernel
  kernel_state : t.stateAt? kernelSlot = some .running ∨ t.stateAt? kernelSlot = some .ready
  pid_inj : ∀ s s' p, t.pidAt? s = some p → t.pidAt? s' = some p → s = s'
  pid_lt : ∀ s p, t.pidAt? s = some p → p.val < t.nextPid

/-- **What holds of a table between operations**: no slot is held, and the current process runs.
Operations start from this and end in it, except for those after which a dispatch must follow. -/
structure Scheduled (t : ProcessTable ε) : Prop extends Orderly ∅ t where
  current_running : t.stateAt? t.current = some .running

/-- **The times of the processes lie in the past**, and the running process has run for less time than
passed before it was dispatched.  With this a charge does not overflow as long as the clock fits its
word. -/
structure Timed (now : Nat) (t : ProcessTable ε) : Prop where
  cpuTime_le : ∀ s b, t.block? s = some b → b.cpuTime ≤ now
  dispatched : ∀ b, t.block? t.current = some b → b.cpuTime ≤ b.dispatchedAt ∧ b.dispatchedAt ≤ now

variable {t : ProcessTable ε} {s : Slot} {b : ControlBlock ε} {held : Finset Slot} {now : Nat}

/-- The times of a table are those of its processes, and only the current one is looked at twice. -/
theorem Timed.congr {t' : ProcessTable ε} (h : Timed now t) (slots_eq : t'.slots = t.slots)
    (current_eq : t'.current = t.current) : Timed now t' where
  cpuTime_le s b hb := h.cpuTime_le s b (by rwa [block?, ← slots_eq])
  dispatched b hb := h.dispatched b (by rwa [block?, ← slots_eq, ← current_eq])

/-! ## One slot -/

@[simp]
theorem ready_setSlot (t : ProcessTable ε) (s : Slot) (b? : Option (ControlBlock ε)) :
    (t.setSlot s b?).ready = t.ready := rfl

@[simp]
theorem current_setSlot (t : ProcessTable ε) (s : Slot) (b? : Option (ControlBlock ε)) :
    (t.setSlot s b?).current = t.current := rfl

theorem stateAt?_setSlot (t : ProcessTable ε) (s s' : Slot) (b? : Option (ControlBlock ε)) :
    (t.setSlot s b?).stateAt? s' = if s' = s then b?.map ControlBlock.state else t.stateAt? s' := by
  rw [stateAt?, block?_setSlot]
  split <;> rfl

theorem pidAt?_setSlot (t : ProcessTable ε) (s s' : Slot) (b? : Option (ControlBlock ε)) :
    (t.setSlot s b?).pidAt? s' = if s' = s then b?.map ControlBlock.pid else t.pidAt? s' := by
  rw [pidAt?, block?_setSlot]
  split <;> rfl

theorem stateAt?_of_block? (hb : t.block? s = some b) : t.stateAt? s = some b.state := by
  rw [stateAt?, hb]
  rfl

theorem pidAt?_of_block? (hb : t.block? s = some b) : t.pidAt? s = some b.pid := by
  rw [pidAt?, hb]
  rfl

theorem currentPid_of_block? (hb : t.block? t.current = some b) : t.currentPid = b.pid := by
  rw [currentPid, hb]
  rfl

theorem mem_blocks : b ∈ t.blocks ↔ ∃ s, t.block? s = some b := by
  simp [blocks, allSlots]

/-- A process that keeps its pid keeps all pids in order, in whatever slot they are looked up. -/
theorem pidAt?_setSlot_same (hb : t.block? s = some b) {b' : ControlBlock ε} (pid_eq : b'.pid = b.pid)
    (s' : Slot) : (t.setSlot s (some b')).pidAt? s' = t.pidAt? s' := by
  rw [pidAt?_setSlot]
  split
  case isTrue heq =>
    rw [heq, pidAt?_of_block? hb, ← pid_eq]
    rfl
  case isFalse => rfl

theorem stateAt?_setSlot_same (hb : t.block? s = some b) {b' : ControlBlock ε}
    (state_eq : b'.state = b.state) (s' : Slot) :
    (t.setSlot s (some b')).stateAt? s' = t.stateAt? s' := by
  rw [stateAt?_setSlot]
  split
  case isTrue heq =>
    rw [heq, stateAt?_of_block? hb, ← state_eq]
    rfl
  case isFalse => rfl

theorem isSome_block?_iff : (t.block? s).isSome = true ↔ t.stateAt? s ≠ none := by
  rw [stateAt?]
  cases t.block? s <;> simp

/-- A process that keeps its times keeps the table's times, be it the current one or not. -/
theorem Timed.setSlot (h : Timed now t) (hb : t.block? s = some b) {b' : ControlBlock ε}
    (cpuTime_eq : b'.cpuTime = b.cpuTime) (dispatchedAt_eq : b'.dispatchedAt = b.dispatchedAt) :
    Timed now (t.setSlot s (some b')) := by
  refine ⟨fun s' c hc => ?_, fun c hc => ?_⟩
  · rw [block?_setSlot] at hc
    split at hc
    · obtain rfl := Option.some.inj hc
      rw [cpuTime_eq]
      exact h.cpuTime_le s b hb
    · exact h.cpuTime_le s' c hc
  · rw [current_setSlot, block?_setSlot] at hc
    split at hc
    case isTrue heq =>
      obtain rfl := Option.some.inj hc
      rw [cpuTime_eq, dispatchedAt_eq]
      exact h.dispatched b (heq ▸ hb)
    case isFalse => exact h.dispatched c hc

/-- Emptying a slot leaves the times of the others as they are. -/
theorem Timed.setSlot_none (h : Timed now t) (s : Slot) : Timed now (t.setSlot s none) := by
  refine ⟨fun s' c hc => ?_, fun c hc => ?_⟩
  · rw [block?_setSlot] at hc
    split at hc
    · cases hc
    · exact h.cpuTime_le s' c hc
  · rw [current_setSlot, block?_setSlot] at hc
    split at hc
    · cases hc
    · exact h.dispatched c hc

/-- Time passes, and what lay in the past still does. -/
theorem Timed.mono {later : Nat} (h : Timed now t) (hle : now ≤ later) : Timed later t where
  cpuTime_le s b hb := Nat.le_trans (h.cpuTime_le s b hb) hle
  dispatched b hb :=
    ⟨(h.dispatched b hb).1, Nat.le_trans (h.dispatched b hb).2 hle⟩

namespace Orderly

/-- What an orderly table is about: states, pids, the queue, and two numbers.  Changes of anything else
go through this. -/
theorem congr {t' : ProcessTable ε} (o : Orderly held t)
    (state_eq : ∀ s, t'.stateAt? s = t.stateAt? s) (pid_eq : ∀ s, t'.pidAt? s = t.pidAt? s)
    (ready_eq : t'.ready = t.ready) (current_eq : t'.current = t.current)
    (nextPid_eq : t'.nextPid = t.nextPid) : Orderly held t' where
  running s hs := current_eq ▸ o.running s (state_eq s ▸ hs)
  ready_nodup := ready_eq ▸ o.ready_nodup
  mem_ready s := by rw [ready_eq, state_eq, o.mem_ready]
  mem_held s := by rw [state_eq, o.mem_held]
  occupied := by
    have h := o.occupied
    rw [isSome_block?_iff] at h ⊢
    rwa [current_eq, state_eq]
  kernel_pid := (pid_eq _).trans o.kernel_pid
  kernel_state := by
    rw [state_eq]
    exact o.kernel_state
  pid_inj s s' p hs hs' := o.pid_inj s s' p (pid_eq s ▸ hs) (pid_eq s' ▸ hs')
  pid_lt s p hs := nextPid_eq ▸ o.pid_lt s p (pid_eq s ▸ hs)

/-- A process that keeps its state and its pid keeps the table orderly. -/
theorem setSlot_same (o : Orderly held t) (hb : t.block? s = some b) {b' : ControlBlock ε}
    (state_eq : b'.state = b.state) (pid_eq : b'.pid = b.pid) :
    Orderly held (t.setSlot s (some b')) :=
  o.congr (stateAt?_setSlot_same hb state_eq) (pidAt?_setSlot_same hb pid_eq) rfl rfl rfl

/-- **A process changes its state**, and the queue with it.  No process but the one dispatched gets to
run, and no slot but a fresh one gets to be held.  The queue is a parameter, since it may lose the
slot, gain it, or neither. -/
theorem setState (o : Orderly held t) (hb : t.block? s = some b) (hs : s ≠ kernelSlot)
    {b' : ControlBlock ε} (pid_eq : b'.pid = b.pid) (hrunning : b'.state ≠ .running)
    (hnew : b'.state ≠ .new) {ready : List Slot} (hnodup : ready.Nodup)
    (hready : ∀ s', s' ∈ ready ↔ if s' = s then b'.state = .ready else s' ∈ t.ready) :
    Orderly (held.erase s) { t.setSlot s (some b') with ready } := by
  have hstate : ∀ s', { t.setSlot s (some b') with ready }.stateAt? s'
      = if s' = s then some b'.state else t.stateAt? s' :=
    fun s' => stateAt?_setSlot t s s' (some b')
  have hpid : ∀ s', { t.setSlot s (some b') with ready }.pidAt? s' = t.pidAt? s' :=
    pidAt?_setSlot_same hb pid_eq
  refine ⟨?_, hnodup, ?_, ?_, ?_, ?_, ?_, ?_, ?_⟩
  · intro s' hs'
    rw [hstate] at hs'
    split at hs'
    · exact absurd (Option.some.inj hs') hrunning
    · exact o.running s' hs'
  · intro s'
    rw [hstate, hready]
    split
    · exact ⟨congrArg some, Option.some.inj⟩
    · exact o.mem_ready s'
  · intro s'
    rw [hstate, Finset.mem_erase, o.mem_held]
    by_cases heq : s' = s
    · simp [heq, hnew]
    · simp [heq]
  · rw [isSome_block?_iff, hstate]
    split
    · exact Option.some_ne_none _
    · exact isSome_block?_iff.mp o.occupied
  · rw [hpid]
    exact o.kernel_pid
  · rw [hstate, if_neg (Ne.symm hs)]
    exact o.kernel_state
  · intro s' s'' p hs' hs''
    rw [hpid] at hs' hs''
    exact o.pid_inj s' s'' p hs' hs''
  · intro s' p hs'
    rw [hpid] at hs'
    exact o.pid_lt s' p hs'

/-- **While another process is current, the kernel's process is ready to take over.**  It never blocks
and never ends, so a dispatch always finds somebody. -/
theorem kernelSlot_mem_ready (o : Orderly held t)
    (hcurrent : t.current ≠ kernelSlot ∨ t.stateAt? t.current ≠ some .running) :
    kernelSlot ∈ t.ready := by
  refine (o.mem_ready _).mpr (o.kernel_state.resolve_left fun hrunning => ?_)
  have heq := o.running _ hrunning
  rcases hcurrent with hne | hstate
  · exact hne heq.symm
  · exact hstate (heq ▸ hrunning)

/-- **The queue has room** for a slot that is not in it: it holds each slot once, and there is a place
for every slot. -/
theorem enqueue_ok (hnodup : t.ready.Nodup) (hs : s ∉ t.ready) :
    t.enqueue s = .ok { t with ready := t.ready ++ [s] } := by
  have hcard := (List.nodup_cons.mpr ⟨hs, hnodup⟩).length_le_card
  rw [Fintype.card_fin, List.length_cons] at hcard
  exact if_pos hcard

/-- Who is not ready is not in the queue, and can be queued. -/
theorem not_mem_ready (o : Orderly held t) (hready : t.stateAt? s ≠ some .ready) : s ∉ t.ready :=
  fun hmem => hready ((o.mem_ready s).mp hmem)

/-- Who neither runs nor is ready is not the kernel's process, which does one of the two at every
moment. -/
theorem ne_kernelSlot_of_stateAt? (o : Orderly held t) (hrunning : t.stateAt? s ≠ some .running)
    (hready : t.stateAt? s ≠ some .ready) : s ≠ kernelSlot := by
  rintro rfl
  exact o.kernel_state.elim hrunning hready

/-- **A process becomes ready**, and is queued behind the others.  A slot that was held is held no
more. -/
theorem enqueue_setSlot (o : Orderly held t) (hb : t.block? s = some b) (hs : s ≠ kernelSlot)
    (hnotin : s ∉ t.ready) {b' : ControlBlock ε} (pid_eq : b'.pid = b.pid)
    (hready : b'.state = .ready) :
    Orderly (held.erase s) { t.setSlot s (some b') with ready := t.ready ++ [s] }
      ∧ (t.setSlot s (some b')).enqueue s
        = .ok { t.setSlot s (some b') with ready := t.ready ++ [s] } := by
  have hnodup : (t.ready ++ [s]).Nodup :=
    o.ready_nodup.append (List.nodup_singleton _) (by simpa using hnotin)
  have hmem : ∀ s', s' ∈ t.ready ++ [s] ↔ if s' = s then b'.state = .ready else s' ∈ t.ready := by
    intro s'
    by_cases heq : s' = s <;> simp [heq, hready]
  exact ⟨o.setState hb hs pid_eq (by simp [hready]) (by simp [hready]) hnodup hmem,
    enqueue_ok o.ready_nodup hnotin⟩

theorem length_ready_le (o : Orderly held t) : t.ready.length ≤ maxProcesses := by
  have hcard := o.ready_nodup.length_le_card
  rwa [Fintype.card_fin] at hcard

end Orderly

end TinyKernel.ProcessTable
