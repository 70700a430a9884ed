import TinyKernel.Proofs.Process.Queue

/-!
# A line that empties

Whoever exits leaves the line, and nobody joins it as long as nobody is created or unblocked.  What is
left in the end can be told from the line alone: whoever stood in it and no longer does has exited, and
whoever did not stand in it is what it was.

## What is load-bearing

The block of whoever exits is written once more after that, because the dispatch charges it for its last
turn.  From then on it stands in no line, and so nothing that is done to the line changes it again
(`ProcessTable.Drains.trans`).

* `ProcessTable.Drains` — some left the line, and all others are as before
* `ProcessTable.Scheduled.takeEntry_drains`, `ProcessTable.Scheduled.schedule_drains` — nobody leaves
* `ProcessTable.Scheduled.exitCurrent_drains` — the running process leaves
-/

namespace TinyKernel.ProcessTable

variable {ε : Type} {t t' t'' : ProcessTable ε} {s : Slot} {b : ControlBlock ε}

/-- **Whoever is in a slot exited** with code 0, and was not killed. -/
def Exited (t : ProcessTable ε) (s : Slot) : Prop :=
  ∃ b, t.block? s = some b ∧ b.state = .terminated ∧ b.exitCode? = some 0

/-- **Some left the line**, and exited; nobody joined it, and whoever did not stand in it is as
before.  Everybody keeps their slot, since nothing is reclaimed. -/
structure Drains (t t' : ProcessTable ε) : Prop where
  pidAt?_eq : ∀ s, t'.pidAt? s = t.pidAt? s
  line_subset : t'.line ⊆ t.line
  aside : ∀ s, s ∉ t.line → t'.block? s = t.block? s
  exited : ∀ s ∈ t.line, s ∉ t'.line → t'.Exited s

namespace Drains

theorem refl (t : ProcessTable ε) : t.Drains t :=
  ⟨fun _ => rfl, fun _ hs => hs, fun _ _ => rfl, fun _ hs hnot => absurd hs hnot⟩

theorem trans (h : t.Drains t') (h' : t'.Drains t'') : t.Drains t'' where
  pidAt?_eq s := (h'.pidAt?_eq s).trans (h.pidAt?_eq s)
  line_subset := List.Subset.trans h'.line_subset h.line_subset
  aside s hs := (h'.aside s fun hmem => hs (h.line_subset hmem)).trans (h.aside s hs)
  exited s hs hnot := by
    by_cases hmem : s ∈ t'.line
    · exact h'.exited s hmem hnot
    · obtain ⟨b, hb, hexited⟩ := h.exited s hs hmem
      exact ⟨b, (h'.aside s hmem).trans hb, hexited⟩

end Drains

/-- Nobody who stands in line is blocked or terminated: the line is the running process and those that
are ready. -/
theorem Scheduled.not_mem_line_of_idle (h : t.Scheduled) (hb : t.block? s = some b)
    (idle : b.state = .blocked ∨ b.state = .terminated) : s ∉ t.line := by
  rcases idle with hstate | hstate <;> exact h.not_mem_line hb (by simp [hstate]) (by simp [hstate])

/-- **The entry of the running process is handed out**, and nobody leaves the line. -/
theorem Scheduled.takeEntry_drains (h : t.Scheduled) : t.Drains t.takeEntry.2 := by
  obtain ⟨b, hb⟩ := Option.isSome_iff_exists.mp h.occupied
  rw [takeEntry_eq hb]
  refine ⟨pidAt?_setSlot_same hb (by rfl), fun _ hs => hs, fun s hs => ?_,
    fun _ hs hnot => absurd hs hnot⟩
  rw [block?_setSlot, if_neg]
  rintro rfl
  exact hs List.mem_cons_self

/-- Whoever does not stand in line has no part in a dispatch: only the two ends of the switch are
written. -/
theorem block?_switched_aside {next : Slot} {rest : List Slot} {now : Nat}
    {outgoing incoming : ControlBlock ε} (hready : t.ready = next :: rest) (hs : s ∉ t.line) :
    (t.switched next rest now outgoing incoming).block? s = t.block? s := by
  rw [line, hready, List.mem_cons, List.mem_cons, not_or, not_or] at hs
  rw [block?_switched, if_neg hs.2.1, if_neg hs.1]

/-- **A dispatch** turns the line, and nobody leaves it.  It is taken after a tick, and after a
yield. -/
theorem Scheduled.schedule_drains (h : t.Scheduled) (now : Nat) :
    (t.schedule now).Meets (fun _ => True) fun (_, t') => t.Drains t' := by
  refine ((h.schedule_turned now).lax.and (h.dispatchable.schedule_cases now).lax).imp ?_
  rintro ⟨switch?, t'⟩ ⟨turned, hdone⟩
  have hline : ∀ s, s ∈ t'.line ↔ s ∈ t.line := fun s => by rw [turned.line_eq, List.mem_rotate]
  refine ⟨turned.pidAt?_eq, fun s hs => (hline s).mp hs, fun s hs => ?_,
    fun s hs hnot => absurd ((hline s).mpr hs) hnot⟩
  cases switch? with
  | none =>
      obtain ⟨-, rfl⟩ := hdone
      rfl
  | some w =>
      obtain ⟨next, rest, outgoing, incoming, hready, -, -, -, rfl⟩ := hdone
      exact block?_switched_aside hready hs

/-- **The dispatch after the running process is gone**: the queue moves up, and whoever is gone is
charged for its last turn.  Nothing else of that process changes. -/
theorem Vacant.schedule_left (v : t.Vacant) (hb : t.block? t.current = some b) (now : Nat) :
    (t.schedule now).Meets (fun _ => True) fun (_, t') => t'.line = t.ready
      ∧ (∀ s, t'.pidAt? s = t.pidAt? s) ∧ (∀ s, s ∉ t.line → t'.block? s = t.block? s)
      ∧ ∃ cpuTime, t'.block? t.current = some { b with cpuTime } := by
  refine (v.schedule_cases now).lax.imp ?_
  rintro ⟨switch?, t'⟩ hdone
  cases switch? with
  | none => exact absurd (v.idle hdone.1) v.stopped
  | some w =>
      obtain ⟨next, rest, outgoing, incoming, hready, hout, hin, -, rfl⟩ := hdone
      obtain rfl := Option.some.inj (hb.symm.trans hout)
      have hstopped : b.state ≠ .running := fun hrunning => v.stopped (hrunning ▸ stateAt?_of_block? hb)
      refine ⟨?_, pidAt?_switched hout hin, fun s hs => block?_switched_aside hready hs,
        b.cpuTime + (now - b.dispatchedAt), ?_⟩
      · rw [line, current_switched, ready_switched, if_neg hstopped, hready]
      · rw [block?_switched, if_neg (v.head hready).2.1.symm, if_pos rfl, if_neg hstopped]

/-- **The running process exits** and leaves the line, unless it is the kernel's own.  The exit and the
dispatch after it are one step here, because the line is not a line in between. -/
theorem Scheduled.exitCurrent_drains (h : t.Scheduled) (now : Nat) :
    (t.exitCurrent 0).Meets (fun _ => True) fun (result, t') =>
      match result with
      | .error _ => t' = t
      | .ok _ => (t'.schedule now).Meets (fun _ => True) fun (_, t'') => t.Drains t'' := by
  have hleft : (t.exitCurrent 0).Meets (fun _ => True) _ := h.exitCurrent_meets 0
  have hcases : (t.exitCurrent 0).Meets (fun _ => True) _ := h.coherent.exitCurrent_cases 0
  refine (hleft.and hcases).imp ?_
  rintro ⟨result, t'⟩ ⟨hleft, hcases⟩
  cases result with
  | error cause => exact hcases.2
  | ok remains =>
      obtain ⟨-, b, hb, -, rfl⟩ := hcases
      obtain ⟨vacant, -⟩ := h.ended_vacant hb hleft.1
      have hself : t.current ∉ t.ready := (List.nodup_cons.mp h.line_nodup).1
      have hready : (t.ended t.current b 0).ready = t.ready := by
        refine List.filter_eq_self.mpr fun s hs => decide_eq_true ?_
        rintro rfl
        exact hself hs
      have hline : (t.ended t.current b 0).line = t.line := congrArg (t.current :: ·) hready
      have hblock : ∀ s, (t.ended t.current b 0).block? s = if s = t.current then some
          { b with state := .terminated, exitCode? := some 0, stack? := none, pending? := none }
          else t.block? s := fun s => block?_setSlot ..
      refine (vacant.schedule_left ((hblock _).trans (if_pos rfl)) now).imp ?_
      rintro ⟨_, t''⟩ ⟨hline', hpid, haside, cpuTime, hcharged⟩
      rw [hready] at hline'
      rw [hline] at haside
      refine ⟨fun s => (hpid s).trans (pidAt?_ended hb 0 s), fun s hs => ?_, fun s hs => ?_,
        fun s hs hnot => ?_⟩
      · rw [hline'] at hs
        exact List.mem_cons_of_mem _ hs
      · rw [haside s hs, hblock, if_neg]
        rintro rfl
        exact hs List.mem_cons_self
      · -- of all who stood in line only the running process is not in the queue
        rw [hline'] at hnot
        obtain rfl := (List.mem_cons.mp hs).resolve_right hnot
        exact ⟨_, hcharged, rfl, rfl⟩

end TinyKernel.ProcessTable
