import Mathlib.Data.List.Rotate
import TinyKernel.Proofs.Process.Reclamation

/-!
# The line of processes

Whoever runs and whoever waits stand in one line, the running process at its head and the others
behind it in the order of the queue.  Giving up the processor moves the head to the end.  Ending and
blocking take the head away, and so the next one moves up; creation and unblocking add one at the end,
and whoever is killed leaves the line from wherever it is.

## What is load-bearing

Pids, and not slots, are what a line is told by from outside; but a slot keeps its process for as long
as it stands in line, and no two have the same pid (`ProcessTable.Scheduled.lineup_nodup`).  So the
line of slots and that of pids turn in the same way, and whatever leaves the line of the one leaves
that of the other.

* `ProcessTable.lineup` — who runs, and who waits behind
* `ProcessTable.Turned` — the line was turned, and everybody else is as before
* `ProcessTable.Vacant` — the running process is gone, and nobody was dispatched yet
* `KeepsOrder` — the order of those who stay in a queue
-/

namespace TinyKernel

/-! ## Order -/

/-- **Whoever stays in a queue keeps the place** relative to all others who stay.  Those who left and
those who joined are filtered out of both sides. -/
def KeepsOrder (queue queue' : List Pid) : Prop :=
  queue'.filter (· ∈ queue) = queue.filter (· ∈ queue')

section

variable {queue kept added : List Pid}

/-- Out of a queue in which nobody is twice, those who are kept are in the order of the queue. -/
theorem filter_mem_kept (hnodup : queue.Nodup) (hkept : kept.Sublist queue) :
    queue.filter (· ∈ kept) = kept := by
  induction hkept with
  | slnil => rfl
  | @cons kept queue pid hsub ih =>
      obtain ⟨hnot, hnodup⟩ := List.nodup_cons.mp hnodup
      have hgone : pid ∉ kept := fun hmem => hnot (hsub.subset hmem)
      rw [List.filter_cons_of_neg (by simpa using hgone)]
      exact ih hnodup
  | @cons_cons kept queue pid hsub ih =>
      obtain ⟨hnot, hnodup⟩ := List.nodup_cons.mp hnodup
      rw [List.filter_cons_of_pos (by simp)]
      refine congrArg (pid :: ·) (Eq.trans (List.filter_congr fun other hother => ?_) (ih hnodup))
      have hne : other ≠ pid := by
        rintro rfl
        exact hnot hother
      simp [hne]

/-- **Some leave a queue, and others join it** at the end.  Those who join must be new, or they would
have moved back. -/
theorem KeepsOrder.of_sublist (hnodup : queue.Nodup) (hkept : kept.Sublist queue)
    (hadded : ∀ pid ∈ added, pid ∉ queue) : KeepsOrder queue (kept ++ added) := by
  have hold : (kept ++ added).filter (· ∈ queue) = kept := by
    have hall : kept.filter (· ∈ queue) = kept :=
      List.filter_eq_self.mpr fun pid hpid => decide_eq_true (hkept.subset hpid)
    have hnone : added.filter (· ∈ queue) = [] :=
      List.filter_eq_nil_iff.mpr fun pid hpid => by simpa using hadded pid hpid
    rw [List.filter_append, hall, hnone, List.append_nil]
  have hnew : queue.filter (· ∈ kept ++ added) = queue.filter (· ∈ kept) := by
    refine List.filter_congr fun pid hpid => ?_
    have hnot : pid ∉ added := fun hmem => hadded pid hmem hpid
    simp [hnot]
  exact hold.trans ((filter_mem_kept hnodup hkept).symm.trans hnew.symm)

theorem KeepsOrder.refl (queue : List Pid) : KeepsOrder queue queue := rfl

end

namespace ProcessTable

variable {ε : Type} {t t' t'' : ProcessTable ε} {s : Slot} {b : ControlBlock ε} {m n : Nat}
  {admits : Fault → Prop}

/-! ## The line -/

/-- **Who runs, and who waits behind**, the next one first.  It is the view of a client, who knows
processes by their pids. -/
def lineup (t : ProcessTable ε) : List Pid := t.currentPid :: t.readyPids

/-- The slots of those who stand in line, the running process first. -/
def line (t : ProcessTable ε) : List Slot := t.current :: t.ready

/-- The pid in a slot that is in use.  For a slot that is free it means nothing. -/
def pidIn (t : ProcessTable ε) (s : Slot) : Pid := (t.pidAt? s).getD .kernel

theorem currentPid_eq_pidIn (t : ProcessTable ε) : t.currentPid = t.pidIn t.current := by
  rw [currentPid, pidIn, pidAt?]
  cases t.block? t.current with
  | none => rfl
  | some b => rfl

theorem pidIn_eq (hpid : t'.pidAt? s = t.pidAt? s) : t'.pidIn s = t.pidIn s :=
  congrArg (Option.getD · Pid.kernel) hpid

/-- A queue is told by its slots and their pids; what else changed in those slots does not show. -/
theorem readyPids_eq (hready : t'.ready = t.ready) (hpid : ∀ s ∈ t.ready, t'.pidAt? s = t.pidAt? s) :
    t'.readyPids = t.readyPids := by
  show t'.ready.filterMap t'.pidAt? = t.ready.filterMap t.pidAt?
  rw [hready]
  exact List.filterMap_congr hpid

/-- A line is told by its slots and their pids, and so is who runs. -/
theorem lineup_eq (hcurrent : t'.current = t.current) (hready : t'.ready = t.ready)
    (hpid : ∀ s ∈ t.line, t'.pidAt? s = t.pidAt? s) : t'.lineup = t.lineup := by
  have hhead : t'.currentPid = t.currentPid := by
    rw [currentPid_eq_pidIn, currentPid_eq_pidIn, hcurrent]
    exact pidIn_eq (hpid t.current List.mem_cons_self)
  rw [lineup, lineup, hhead, readyPids_eq hready fun s hs => hpid s (List.mem_cons_of_mem _ hs)]

/-- **A process joins the line** at its end, and nobody else moves. -/
theorem lineup_append (hcurrent : t'.current = t.current) (hready : t'.ready = t.ready ++ [s])
    (hpid : ∀ s ∈ t.line, t'.pidAt? s = t.pidAt? s) {pid : Pid} (hnew : t'.pidAt? s = some pid) :
    t'.lineup = t.lineup ++ [pid] := by
  have hhead : t'.currentPid = t.currentPid := by
    rw [currentPid_eq_pidIn, currentPid_eq_pidIn, hcurrent]
    exact pidIn_eq (hpid t.current List.mem_cons_self)
  have hqueue : t'.readyPids = t.readyPids ++ [pid] := by
    show t'.ready.filterMap t'.pidAt? = t.ready.filterMap t.pidAt? ++ [pid]
    rw [hready, List.filterMap_append, List.filterMap_cons_some hnew, List.filterMap_nil]
    exact congrArg (· ++ [pid])
      (List.filterMap_congr fun s hs => hpid s (List.mem_cons_of_mem _ hs))
  rw [lineup, lineup, hhead, hqueue, List.cons_append]

namespace Scheduled

variable (h : Scheduled t)
include h

/-- Whoever stands in line is in the table, so no slot of the line is free. -/
theorem pidAt?_of_mem_line (hs : s ∈ t.line) : t.pidAt? s = some (t.pidIn s) := by
  have hstate : t.stateAt? s ≠ none := by
    rcases List.mem_cons.mp hs with rfl | hs
    · rw [h.current_running]
      exact Option.some_ne_none _
    · rw [(h.mem_ready s).mp hs]
      exact Option.some_ne_none _
  obtain ⟨b, hb⟩ := Option.isSome_iff_exists.mp (isSome_block?_iff.mpr hstate)
  rw [pidIn, pidAt?_of_block? hb]
  rfl

theorem readyPids_eq_map : t.readyPids = t.ready.map t.pidIn :=
  List.filterMap_eq_map_iff_forall_eq_some.mpr fun _ hs =>
    h.pidAt?_of_mem_line (List.mem_cons_of_mem _ hs)

/-- **The pids of a line** are those of its slots.  Statements about slots are carried over to pids
with this. -/
theorem lineup_eq_map : t.lineup = t.line.map t.pidIn := by
  rw [lineup, line, List.map_cons, currentPid_eq_pidIn, h.readyPids_eq_map]

theorem line_nodup : t.line.Nodup := by
  refine List.nodup_cons.mpr ⟨h.not_mem_ready ?_, h.ready_nodup⟩
  rw [h.current_running]
  decide

/-- **Nobody stands in line twice.**  The running process is not queued, and pids are not shared. -/
theorem lineup_nodup : t.lineup.Nodup := by
  rw [h.lineup_eq_map]
  refine h.line_nodup.map_on fun s hs s' hs' heq => ?_
  refine h.pid_inj s s' (t.pidIn s) (h.pidAt?_of_mem_line hs) ?_
  rw [heq]
  exact h.pidAt?_of_mem_line hs'

theorem mem_lineup_iff {pid : Pid} : pid ∈ t.lineup ↔ ∃ s ∈ t.line, t.pidAt? s = some pid := by
  rw [h.lineup_eq_map, List.mem_map]
  constructor
  · rintro ⟨s, hs, rfl⟩
    exact ⟨s, hs, h.pidAt?_of_mem_line hs⟩
  · rintro ⟨s, hs, hpid⟩
    exact ⟨s, hs, Option.some.inj ((h.pidAt?_of_mem_line hs).symm.trans hpid)⟩

/-- Whoever is elsewhere does not stand in line, by pid as well as by slot. -/
theorem not_mem_lineup (hb : t.block? s = some b) (hs : s ∉ t.line) : b.pid ∉ t.lineup := by
  intro hmem
  obtain ⟨s', hs', hpid⟩ := h.mem_lineup_iff.mp hmem
  obtain rfl := h.pid_inj s s' b.pid (pidAt?_of_block? hb) hpid
  exact hs hs'

/-- Whoever neither runs nor is ready does not stand in line. -/
theorem not_mem_line (hb : t.block? s = some b) (hrunning : b.state ≠ .running)
    (hready : b.state ≠ .ready) : s ∉ t.line := by
  have hstate := stateAt?_of_block? hb
  intro hs
  rcases List.mem_cons.mp hs with rfl | hs
  · exact hrunning (Option.some.inj (hstate.symm.trans h.current_running))
  · exact hready (Option.some.inj (hstate.symm.trans ((h.mem_ready s).mp hs)))

/-- The kernel's own process is in its slot, and nobody else has its pid. -/
theorem currentPid_eq_kernel_iff : t.currentPid = .kernel ↔ t.current = kernelSlot := by
  have hpid := h.pidAt?_of_mem_line (s := t.current) List.mem_cons_self
  rw [currentPid_eq_pidIn]
  constructor
  · intro heq
    rw [heq] at hpid
    exact h.pid_inj _ _ _ hpid h.kernel_pid
  · intro heq
    rw [heq, h.kernel_pid] at hpid
    rw [heq]
    exact (Option.some.inj hpid).symm

end Scheduled

/-! ## Turns -/

/-- **A line was turned**: so many times, the head went to the end.  It is said of slots, which do not
change owners while the line turns. -/
structure Turned (t : ProcessTable ε) (n : Nat) (t' : ProcessTable ε) : Prop where
  line_eq : t'.line = t.line.rotate n
  pidAt?_eq : ∀ s, t'.pidAt? s = t.pidAt? s
  /-- Whoever does not stand in line is not concerned. -/
  aside : ∀ s, s ∉ t.line → t'.stateAt? s = t.stateAt? s

namespace Turned

theorem refl (t : ProcessTable ε) : Turned t 0 t where
  line_eq := (List.rotate_zero _).symm
  pidAt?_eq _ := rfl
  aside _ _ := rfl

theorem trans (h : Turned t m t') (h' : Turned t' n t'') : Turned t (m + n) t'' where
  line_eq := by rw [h'.line_eq, h.line_eq, List.rotate_rotate]
  pidAt?_eq s := (h'.pidAt?_eq s).trans (h.pidAt?_eq s)
  aside s hs := by
    have hs' : s ∉ t'.line := by
      rw [h.line_eq, List.mem_rotate]
      exact hs
    exact (h'.aside s hs').trans (h.aside s hs)

theorem lineup_eq (h : Turned t n t') (scheduled : Scheduled t) (scheduled' : Scheduled t') :
    t'.lineup = t.lineup.rotate n := by
  rw [scheduled'.lineup_eq_map, scheduled.lineup_eq_map, h.line_eq, List.map_rotate]
  exact congrArg (List.rotate · n) (List.map_congr_left fun s _ => pidIn_eq (h.pidAt?_eq s))

/-- **All the way round**, the line is what it was, and so is the state of everybody, in line or
aside. -/
theorem restores (h : Turned t t.line.length t') (scheduled : Scheduled t)
    (scheduled' : Scheduled t') :
    t'.current = t.current ∧ t'.ready = t.ready ∧ ∀ s, t'.stateAt? s = t.stateAt? s := by
  have hline : t'.current :: t'.ready = t.current :: t.ready := by
    have hline := h.line_eq
    rwa [List.rotate_length] at hline
  obtain ⟨hcurrent, hready⟩ := List.cons.inj hline
  refine ⟨hcurrent, hready, fun s => ?_⟩
  by_cases hs : s ∈ t.line
  · rcases List.mem_cons.mp hs with rfl | hs
    · rw [scheduled.current_running, ← hcurrent]
      exact scheduled'.current_running
    · rw [(scheduled.mem_ready s).mp hs]
      exact (scheduled'.mem_ready s).mp (hready ▸ hs)
  · exact h.aside s hs

end Turned

/-- **A dispatch turns the line** once, if the running process can run on.  With nobody else in line,
turning changes nothing. -/
theorem Scheduled.schedule_turned (h : Scheduled t) (now : Nat) :
    (t.schedule now).Meets (TimeFault now t) fun (_, t') => Turned t 1 t' := by
  refine (h.dispatchable.schedule_cases now).imp ?_
  rintro ⟨switch?, t'⟩ hdone
  cases switch? with
  | none =>
      obtain ⟨hready, rfl⟩ := hdone
      refine ⟨?_, fun _ => rfl, fun _ _ => rfl⟩
      rw [line, hready, List.rotate_singleton]
  | some w =>
      obtain ⟨next, rest, outgoing, incoming, hready, hout, hin, -, rfl⟩ := hdone
      have hrunning : outgoing.state = .running :=
        Option.some.inj ((stateAt?_of_block? hout).symm.trans h.current_running)
      refine ⟨?_, pidAt?_switched hout hin, fun s hs => ?_⟩
      · rw [line, line, hready, current_switched, ready_switched, if_pos hrunning,
          List.rotate_cons_succ, List.rotate_zero]
        rfl
      · rw [line, hready, List.mem_cons, List.mem_cons, not_or, not_or] at hs
        rw [stateAt?_switched, if_neg hs.2.1, if_neg hs.1]

/-! ## Leaving the line -/

/-- **The running process is gone**, and nobody was dispatched yet.  It has ended or blocked, and a
dispatch must follow.  Until then the slot is still the current one, although nobody runs in it. -/
structure Vacant (t : ProcessTable ε) : Prop extends Dispatchable t where
  stopped : t.stateAt? t.current ≠ some .running

/-- **A dispatch lets the queue move up**, if the running process is gone.  The head of the queue runs,
and the others keep their order. -/
theorem Vacant.schedule_lineup (v : Vacant t) (now : Nat) :
    (t.schedule now).Meets (TimeFault now t) fun (_, t') => t'.lineup = t.readyPids := by
  refine (v.schedule_cases now).imp ?_
  rintro ⟨switch?, t'⟩ hdone
  cases switch? with
  | none =>
      obtain ⟨hready, -⟩ := hdone
      exact absurd (v.idle hready) v.stopped
  | some w =>
      obtain ⟨next, rest, outgoing, incoming, hready, hout, hin, -, rfl⟩ := hdone
      have hstopped : outgoing.state ≠ .running := fun hrunning =>
        v.stopped (hrunning ▸ stateAt?_of_block? hout)
      have hhead : (t.switched next rest now outgoing incoming).currentPid = incoming.pid := by
        rw [currentPid_eq_pidIn, current_switched, pidIn, pidAt?_switched hout hin,
          pidAt?_of_block? hin]
        rfl
      have hqueue : (t.switched next rest now outgoing incoming).readyPids
          = rest.filterMap t.pidAt? := by
        show List.filterMap _ (t.switched next rest now outgoing incoming).ready = _
        rw [ready_switched, if_neg hstopped]
        exact List.filterMap_congr fun s _ => pidAt?_switched hout hin s
      show _ :: _ = t.ready.filterMap t.pidAt?
      rw [hhead, hqueue, hready, List.filterMap_cons_some (pidAt?_of_block? hin)]

/-- Nobody else changes slot or pid when a process ends, and neither does the process itself. -/
theorem pidAt?_ended (hb : t.block? s = some b) (code : Int32) (s' : Slot) :
    (t.ended s b code).pidAt? s' = t.pidAt? s' :=
  pidAt?_setSlot_same hb (by rfl) s'

namespace Scheduled

variable (h : Scheduled t)
include h

/-- **The running process is over**, and the others are still in the queue, as it was not in it
itself. -/
theorem ended_vacant (hb : t.block? t.current = some b) {code : Int32}
    (d : Dispatchable (t.ended t.current b code)) :
    Vacant (t.ended t.current b code)
      ∧ (t.ended t.current b code).readyPids = t.readyPids := by
  refine ⟨⟨d, ?_⟩, readyPids_eq ?_ fun s _ => pidAt?_ended hb code s⟩
  · show (t.setSlot t.current _).stateAt? t.current ≠ _
    rw [stateAt?_setSlot, if_pos rfl]
    simp
  · refine List.filter_eq_self.mpr fun s hs => decide_eq_true ?_
    rintro rfl
    exact (List.nodup_cons.mp h.line_nodup).1 hs

/-- **Another process is over**, and the others are still in line, in their order. -/
theorem lineup_ended (hb : t.block? s = some b) (hs : s ≠ t.current) {code : Int32}
    (h' : Scheduled (t.ended s b code)) :
    (t.ended s b code).lineup = t.lineup.filter (· ≠ b.pid) := by
  have hline : (t.ended s b code).line = t.line.filter (· ≠ s) := by
    rw [line, line, List.filter_cons_of_pos (by simpa using Ne.symm hs)]
    rfl
  -- in line, a slot and its pid stand for the same process
  have hpids : t.line.filter (· ≠ s) = t.line.filter ((fun pid => decide (pid ≠ b.pid)) ∘ t.pidIn) := by
    refine List.filter_congr fun s' hs' => ?_
    rw [Function.comp_apply, decide_eq_decide, not_iff_not]
    constructor
    · rintro rfl
      rw [pidIn, pidAt?_of_block? hb]
      rfl
    · intro heq
      refine h.pid_inj s' s b.pid ?_ (pidAt?_of_block? hb)
      rw [← heq]
      exact h.pidAt?_of_mem_line hs'
  rw [h'.lineup_eq_map, hline, h.lineup_eq_map, List.filter_map, ← hpids]
  exact List.map_congr_left fun s' _ => pidIn_eq (pidAt?_ended hb code s')

/-- **The running process ends**, and the others are still in the queue.  Only the kernel's own
cannot. -/
theorem exitCurrent_queue (code : Int32) :
    (t.exitCurrent code).Meets admits fun (result, t') =>
      match result with
      | .error _ => t.currentPid = .kernel ∧ t' = t
      | .ok _ => t.currentPid ≠ .kernel ∧ Vacant t' ∧ t'.readyPids = t.readyPids := by
  have hleft : (t.exitCurrent code).Meets admits _ := h.exitCurrent_meets code
  have hcases : (t.exitCurrent code).Meets admits _ := h.coherent.exitCurrent_cases code
  refine (hleft.and hcases).imp ?_
  rintro ⟨result, t'⟩ ⟨hleft, hcases⟩
  cases result with
  | error cause =>
      obtain ⟨hkernel, rfl⟩ := hcases
      exact ⟨h.currentPid_eq_kernel_iff.mpr hkernel, rfl⟩
  | ok remains =>
      obtain ⟨hkernel, b, hb, -, rfl⟩ := hcases
      exact ⟨h.currentPid_eq_kernel_iff.not.mpr hkernel, h.ended_vacant hb hleft.1⟩

/-- **The running process blocks**, and the others are still in the queue.  Only the kernel's own
cannot. -/
theorem blockCurrent_queue :
    t.blockCurrent.Meets admits fun (result, t') =>
      match result with
      | .error _ => t.currentPid = .kernel ∧ t' = t
      | .ok () => t.currentPid ≠ .kernel ∧ Vacant t' ∧ t'.readyPids = t.readyPids := by
  have hleft : t.blockCurrent.Meets admits _ := h.blockCurrent_meets
  have hcases : t.blockCurrent.Meets admits _ := h.coherent.blockCurrent_cases
  refine (hleft.and hcases).imp ?_
  rintro ⟨result, t'⟩ ⟨hleft, hcases⟩
  cases result with
  | error cause =>
      obtain ⟨hkernel, rfl⟩ := hcases
      exact ⟨h.currentPid_eq_kernel_iff.mpr hkernel, rfl⟩
  | ok =>
      obtain ⟨hkernel, b, hb, rfl⟩ := hcases
      refine ⟨h.currentPid_eq_kernel_iff.not.mpr hkernel, ⟨hleft.1, ?_⟩, ?_⟩
      · rw [current_setSlot, stateAt?_setSlot, if_pos rfl]
        simp
      · exact readyPids_eq rfl fun s _ => pidAt?_setSlot_same hb (by rfl) s

/-- **Whoever is killed leaves the line**, and nobody else does.  If it was the running process, a
dispatch has yet to follow. -/
theorem kill_queue (pid : Pid) :
    (t.kill pid).Meets admits fun (result, t') =>
      match result with
      | .error _ => t' = t ∧ (pid = .kernel ∨ pid ∉ t.lineup)
      | .ok (_, wasCurrent) => pid ≠ .kernel ∧
          if wasCurrent then pid = t.currentPid ∧ Vacant t' ∧ t'.readyPids = t.readyPids
          else t'.lineup = t.lineup.filter (· ≠ pid) := by
  have hleft : (t.kill pid).Meets admits _ := h.kill_meets pid
  have hcases : (t.kill pid).Meets admits _ := t.kill_cases pid
  refine (hleft.and hcases).imp ?_
  rintro ⟨result, t'⟩ ⟨hleft, hcases⟩
  match result with
  | .error cause =>
      obtain ⟨rfl, hrefused⟩ := hcases
      refine ⟨rfl, hrefused.imp_right fun hgone hmem => ?_⟩
      obtain ⟨s, hs, hpid⟩ := h.mem_lineup_iff.mp hmem
      obtain ⟨b, hb, rfl⟩ := Option.map_eq_some_iff.mp hpid
      rcases hgone with hnone | ⟨s', b', hb', hsame, hdead⟩
      · have hfound := List.find?_eq_none.mp hnone s (List.mem_finRange s)
        simp [hb] at hfound
      · exact h.not_mem_lineup hb' (h.not_mem_line hb' (by simp [hdead]) (by simp [hdead]))
          (hsame ▸ hmem)
  | .ok (remains, wasCurrent) =>
      obtain ⟨hkernel, s, b, hb, rfl, -, -, rfl, rfl⟩ := hcases
      obtain ⟨hleft, -⟩ : (if (s == t.current) = true then _ else _) ∧ _ := hleft
      refine ⟨hkernel, ?_⟩
      split at hleft
      case isTrue heq =>
        obtain rfl := eq_of_beq heq
        rw [if_pos heq]
        exact ⟨(currentPid_of_block? hb).symm, h.ended_vacant hb hleft⟩
      case isFalse hne =>
        rw [if_neg hne]
        exact h.lineup_ended hb (fun heq => hne (beq_iff_eq.mpr heq)) hleft

/-! ## Joining the line -/

/-- **Whoever is unblocked** waits behind all others.  A call that unblocks nobody leaves the line
alone. -/
theorem unblock_lineup (pid : Pid) :
    (liftM (t.unblock pid) : Run _).Meets (fun _ => True) fun (_, t') =>
      t'.lineup = t.lineup ∨ pid ∉ t.lineup ∧ t'.lineup = t.lineup ++ [pid] := by
  rcases t.unblock_cases pid with ⟨cause, hunblock⟩ | ⟨s, b, hb, rfl, hblocked, hunblock | hunblock⟩
  · rw [hunblock]
    exact Run.meets_pure (Or.inl rfl)
  · rw [hunblock]
    exact Run.meets_throw trivial
  · rw [hunblock]
    have hnot := h.not_mem_line hb (by simp [hblocked]) (by simp [hblocked])
    refine Run.meets_pure (Or.inr ⟨h.not_mem_lineup hb hnot, ?_⟩)
    have hpid : ∀ s', (t.setSlot s (some { b with state := .ready })).pidAt? s' = t.pidAt? s' :=
      pidAt?_setSlot_same hb rfl
    refine lineup_append (s := s) ?_ ?_ (fun s' _ => ?_) ?_
    · rfl
    · rfl
    · exact hpid s'
    · exact (hpid s).trans (pidAt?_of_block? hb)

/-- **Whoever is created** waits behind all others, under a pid that nobody in line has. -/
theorem lineup_enrolled (hfree : t.block? s = none) (hpid : b.pid = ⟨t.nextPid⟩) :
    b.pid ∉ t.lineup ∧ (t.enrolled s b).lineup = t.lineup ++ [b.pid] := by
  obtain ⟨creator, hcreator⟩ := Option.isSome_iff_exists.mp h.occupied
  constructor
  · intro hmem
    obtain ⟨s', -, hs'⟩ := h.mem_lineup_iff.mp hmem
    rw [hpid] at hs'
    exact UInt32.lt_irrefl _ (h.pid_lt s' _ hs')
  · have hpids : ∀ s', (t.enrolled s b).pidAt? s' = if s' = s then some b.pid else t.pidAt? s' := by
      intro s'
      rw [pidAt?, block?_enrolled hfree hcreator]
      split
      · rfl
      · split
        case isTrue heq =>
          rw [heq, pidAt?_of_block? hcreator]
          rfl
        case isFalse => rfl
    refine lineup_append (s := s) ?_ ?_ (fun s' hs' => ?_) ?_
    · rfl
    · rfl
    · rw [hpids, if_neg]
      rintro rfl
      have hnone : t.pidAt? s' = none := by
        rw [pidAt?, hfree]
        rfl
      exact Option.some_ne_none _ ((h.pidAt?_of_mem_line hs').symm.trans hnone)
    · rw [hpids, if_pos rfl]

/-! ## Standing in line -/

/-- Whoever stands in line stays there when slots are reclaimed, since the dead do not stand in it. -/
theorem lineup_reclaims {count : Nat} (reclaims : t.Reclaims count t') : t'.lineup = t.lineup := by
  refine lineup_eq reclaims.current_eq reclaims.ready_eq fun s hs => reclaims.pidAt?_eq ?_
  rcases List.mem_cons.mp hs with rfl | hs
  · rw [h.current_running]
    decide
  · rw [(h.mem_ready s).mp hs]
    decide

theorem lineup_takeEntry : t.takeEntry.2.lineup = t.lineup := by
  obtain ⟨b, hb⟩ := Option.isSome_iff_exists.mp h.occupied
  rw [takeEntry_eq hb]
  exact lineup_eq rfl rfl fun s _ => pidAt?_setSlot_same hb (by rfl) s

end Scheduled

end ProcessTable

end TinyKernel
