import TinyKernel.Proofs.Process.Orderly

/-!
# Who runs next

The operations by which a process gives up the processor, or gets it.  Each leaves the table orderly;
a process that gives up the processor for good leaves nobody running, until `schedule` dispatches the
next one.

* `ProcessTable.Dispatchable`, `ProcessTable.Dispatchable.schedule_meets` — dispatch
* `ProcessTable.Scheduled.exitCurrent_meets`, `ProcessTable.Scheduled.kill_meets` — the end of a
  process
* `ProcessTable.Scheduled.blockCurrent_meets`, `ProcessTable.Scheduled.unblock_ok` — waiting
-/

namespace TinyKernel.ProcessTable

variable {ε : Type} {t : ProcessTable ε} {now : Nat} {admits : Fault → Prop}

/-- **What is missing before a dispatch**: nobody waits in the current slot, and if nothing is ready
the current process still runs.  A scheduled table is like that, and so is one whose running process
has just ended or blocked. -/
structure Dispatchable (t : ProcessTable ε) : Prop extends Orderly ∅ t where
  not_ready : t.stateAt? t.current ≠ some .ready
  idle : t.ready = [] → t.stateAt? t.current = some .running

theorem Scheduled.dispatchable (h : Scheduled t) : Dispatchable t where
  toOrderly := h.toOrderly
  not_ready := by
    rw [h.current_running]
    decide
  idle _ := h.current_running

/-- A process that neither runs nor is ready has given up the processor, and the kernel's process is
ready. -/
theorem Orderly.dispatchable (o : Orderly ∅ t) (hrunning : t.stateAt? t.current ≠ some .running)
    (hready : t.stateAt? t.current ≠ some .ready) : Dispatchable t where
  toOrderly := o
  not_ready := hready
  idle hnil := by
    have hmem := o.kernelSlot_mem_ready (Or.inr hrunning)
    rw [hnil] at hmem
    cases hmem

/-! ## Dispatch -/

/-- **Faults of a dispatch**: the time of a process no longer fits its word.  It needs a clock beyond
its word, or times that do not lie in the past. -/
def TimeFault (now : Nat) (t : ProcessTable ε) (e : Fault) : Prop :=
  e = .overflow .add ∧ ¬ (now < 2 ^ 64 ∧ Timed now t)

/-- The table after the current process made way for `next`.  Both ends of the switch are written, and
nobody else. -/
def switched (t : ProcessTable ε) (next : Slot) (rest : List Slot) (now : Nat)
    (outgoing incoming : ControlBlock ε) : ProcessTable ε :=
  let cpuTime := outgoing.cpuTime + (now - outgoing.dispatchedAt)
  let waiting := outgoing.state = .running
  let state := if waiting then .ready else outgoing.state
  { ((t.setSlot t.current (some { outgoing with cpuTime, state })).setSlot next
      (some { incoming with state := .running, dispatchedAt := now })) with
    ready := if waiting then rest ++ [t.current] else rest
    current := next }

variable {next : Slot} {rest : List Slot} {outgoing incoming : ControlBlock ε}

theorem block?_switched (s : Slot) :
    (t.switched next rest now outgoing incoming).block? s =
      if s = next then some { incoming with state := .running, dispatchedAt := now }
      else if s = t.current then some
        { outgoing with
          cpuTime := outgoing.cpuTime + (now - outgoing.dispatchedAt)
          state := if outgoing.state = .running then .ready else outgoing.state }
      else t.block? s := by
  show ((t.setSlot t.current _).setSlot next _).block? s = _
  rw [block?_setSlot, block?_setSlot]

theorem stateAt?_switched (s : Slot) :
    (t.switched next rest now outgoing incoming).stateAt? s =
      if s = next then some .running
      else if s = t.current then some (if outgoing.state = .running then .ready else outgoing.state)
      else t.stateAt? s := by
  show ((t.setSlot t.current _).setSlot next _).stateAt? s = _
  rw [stateAt?_setSlot, stateAt?_setSlot]
  rfl

theorem pidAt?_switched (hout : t.block? t.current = some outgoing)
    (hin : t.block? next = some incoming) (s : Slot) :
    (t.switched next rest now outgoing incoming).pidAt? s = t.pidAt? s := by
  show ((t.setSlot t.current _).setSlot next _).pidAt? s = _
  rw [pidAt?_setSlot, pidAt?_setSlot]
  split
  case isTrue heq =>
    rw [heq, pidAt?_of_block? hin]
    rfl
  case isFalse =>
    split
    case isTrue heq =>
      rw [heq, pidAt?_of_block? hout]
      rfl
    case isFalse => rfl

/-- The head of the queue is ready and not the current slot, and neither is queued behind it.  So the
two ends of a switch are two processes. -/
theorem Dispatchable.head (d : Dispatchable t) (hready : t.ready = next :: rest) :
    t.stateAt? next = some .ready ∧ next ≠ t.current ∧ next ∉ rest ∧ rest.Nodup
      ∧ t.current ∉ rest := by
  have hnext : t.stateAt? next = some .ready := (d.mem_ready next).mp (by simp [hready])
  obtain ⟨hnotin, hnodup⟩ := List.nodup_cons.mp (hready ▸ d.ready_nodup)
  refine ⟨hnext, ?_, hnotin, hnodup, fun hmem => ?_⟩
  · rintro rfl
    exact d.not_ready hnext
  · exact d.not_ready ((d.mem_ready _).mp (by simp [hready, hmem]))

theorem ready_switched : (t.switched next rest now outgoing incoming).ready
    = if outgoing.state = .running then rest ++ [t.current] else rest := rfl

theorem current_switched : (t.switched next rest now outgoing incoming).current = next := rfl

/-- The queue is the processes that are ready, also after the switch: the one that runs is off it, and
the one before may be on it. -/
theorem Dispatchable.mem_ready_switched (d : Dispatchable t) (hready : t.ready = next :: rest)
    (hout : t.block? t.current = some outgoing) (s : Slot) :
    s ∈ (t.switched next rest now outgoing incoming).ready ↔
      (t.switched next rest now outgoing incoming).stateAt? s = some .ready := by
  obtain ⟨-, hne, hnotin, -, hcurrent⟩ := d.head hready
  have hnot := d.not_ready
  rw [stateAt?_of_block? hout] at hnot
  rw [ready_switched, stateAt?_switched]
  by_cases hsn : s = next
  · subst hsn
    split <;> simp [hnotin, hne]
  · rw [if_neg hsn]
    by_cases hsc : s = t.current
    · subst hsc
      split <;> simp_all
    · -- whoever is neither of the two is queued as before
      have hrest : s ∈ rest ↔ t.stateAt? s = some .ready := by
        rw [← d.mem_ready, hready, List.mem_cons, or_iff_right hsn]
      rw [if_neg hsc, ← hrest]
      split <;> simp [hsc]

/-- Nobody becomes or ceases to be half created, as neither end of the switch is. -/
theorem Dispatchable.stateAt?_switched_new (d : Dispatchable t) (hready : t.ready = next :: rest)
    (hout : t.block? t.current = some outgoing) (s : Slot) :
    (t.switched next rest now outgoing incoming).stateAt? s = some .new ↔
      t.stateAt? s = some .new := by
  obtain ⟨hnext, -⟩ := d.head hready
  rw [stateAt?_switched]
  by_cases hsn : s = next
  · subst hsn
    simp [hnext]
  · rw [if_neg hsn]
    by_cases hsc : s = t.current
    · subst hsc
      rw [if_pos rfl, stateAt?_of_block? hout]
      by_cases hrunning : outgoing.state = .running <;> simp [hrunning]
    · rw [if_neg hsc]

theorem switched_scheduled (d : Dispatchable t) (hready : t.ready = next :: rest)
    (hout : t.block? t.current = some outgoing) (hin : t.block? next = some incoming) :
    Scheduled (t.switched next rest now outgoing incoming) := by
  obtain ⟨-, -, -, hnodup, hcurrent⟩ := d.head hready
  have hstate := stateAt?_of_block? hout
  refine ⟨⟨?_, ?_, d.mem_ready_switched hready hout, ?_, ?_, ?_, ?_, ?_, ?_⟩, ?_⟩
  · intro s hs
    rw [stateAt?_switched] at hs
    by_cases hsn : s = next
    · exact hsn
    · rw [if_neg hsn] at hs
      by_cases hsc : s = t.current
      · rw [if_pos hsc] at hs
        split at hs
        · cases hs
        case isFalse h => exact absurd (Option.some.inj hs) h
      · rw [if_neg hsc] at hs
        exact absurd (d.running s hs) hsc
  · rw [ready_switched]
    split
    · exact hnodup.append (List.nodup_singleton _) (by simpa using hcurrent)
    · exact hnodup
  · intro s
    rw [d.mem_held, d.stateAt?_switched_new hready hout]
  · rw [isSome_block?_iff, current_switched, stateAt?_switched, if_pos rfl]
    exact Option.some_ne_none _
  · rw [pidAt?_switched hout hin]
    exact d.kernel_pid
  · rw [stateAt?_switched]
    by_cases hsn : kernelSlot = next
    · exact Or.inl (if_pos hsn)
    · rw [if_neg hsn]
      by_cases hsc : kernelSlot = t.current
      · -- the kernel's process is never anything but running or ready
        have hkernel := d.kernel_state
        rw [hsc, hstate] at hkernel
        rw [if_pos hsc]
        split <;> simp_all
      · rw [if_neg hsc]
        exact d.kernel_state
  · intro s s' p hs hs'
    rw [pidAt?_switched hout hin] at hs hs'
    exact d.pid_inj s s' p hs hs'
  · intro s p hs
    rw [pidAt?_switched hout hin] at hs
    exact d.pid_lt s p hs
  · rw [current_switched, stateAt?_switched, if_pos rfl]

theorem switched_timed (hout : t.block? t.current = some outgoing)
    (hin : t.block? next = some incoming) (h : Timed now t) :
    Timed now (t.switched next rest now outgoing incoming) := by
  have hblock : ∀ s b, (t.switched next rest now outgoing incoming).block? s = some b →
      (s = next ∧ b = { incoming with state := .running, dispatchedAt := now })
        ∨ (s ≠ next ∧ (t.block? s = some b
          ∨ b.cpuTime = outgoing.cpuTime + (now - outgoing.dispatchedAt))) := by
    intro s b hb
    rw [block?_switched] at hb
    by_cases hsn : s = next
    · rw [if_pos hsn] at hb
      exact Or.inl ⟨hsn, (Option.some.inj hb).symm⟩
    · rw [if_neg hsn] at hb
      refine Or.inr ⟨hsn, ?_⟩
      split at hb
      · exact Or.inr (congrArg ControlBlock.cpuTime (Option.some.inj hb).symm)
      · exact Or.inl hb
  have hin' := h.cpuTime_le next incoming hin
  have hout' := h.dispatched outgoing hout
  refine ⟨fun s b hb => ?_, fun b hb => ?_⟩
  · rcases hblock s b hb with ⟨-, rfl⟩ | ⟨-, hb | hb⟩
    · exact hin'
    · exact h.cpuTime_le s b hb
    · rw [hb]
      omega
  · rcases hblock _ b hb with ⟨-, rfl⟩ | ⟨hne, -⟩
    · exact ⟨hin', Nat.le_refl _⟩
    · exact absurd rfl hne

/-- The current process is charged, and waits if it can still run.  The queue without its head has a
place for it. -/
theorem suspend_eq (hout : t.block? t.current = some outgoing) (hnodup : rest.Nodup)
    (hcurrent : t.current ∉ rest) (now : Nat) :
    { t with ready := rest }.suspend now =
      (if outgoing.cpuTime + (now - outgoing.dispatchedAt) < 2 ^ 64 then
        .ok { t.setSlot t.current (some
          { outgoing with
            cpuTime := outgoing.cpuTime + (now - outgoing.dispatchedAt)
            state := if outgoing.state = .running then .ready else outgoing.state }) with
          ready := if outgoing.state = .running then rest ++ [t.current] else rest }
      else .error (.overflow .add)) := by
  have hblock : { t with ready := rest }.block? t.current = some outgoing := hout
  unfold suspend
  simp only [hblock]
  by_cases hfits : outgoing.cpuTime + (now - outgoing.dispatchedAt) < 2 ^ 64
  case neg =>
    rw [if_neg hfits, show Checked.add64 outgoing.cpuTime (now - outgoing.dispatchedAt)
      = .error (.overflow .add) from if_neg hfits]
    rfl
  case pos =>
  rw [if_pos hfits, Checked.bind_of_ok (Checked.add64_of_lt hfits)]
  by_cases hrunning : outgoing.state = .running
  · simp only [if_pos hrunning]
    exact Orderly.enqueue_ok hnodup hcurrent
  · simp only [if_neg hrunning]
    rfl

/-- **What a dispatch does.**  If nothing is ready, then nothing; otherwise the head of the queue takes
the place of the current process, and the answer is the switch between the two. -/
theorem Dispatchable.schedule_cases (d : Dispatchable t) (now : Nat) :
    (t.schedule now).Meets (TimeFault now t) fun (switch?, t') =>
      match switch? with
      | none => t.ready = [] ∧ t' = t
      | some w => ∃ next rest outgoing incoming, t.ready = next :: rest
          ∧ t.block? t.current = some outgoing ∧ t.block? next = some incoming
          ∧ w = ⟨t.current, next, outgoing.pid, incoming.pid⟩
          ∧ t' = t.switched next rest now outgoing incoming := by
  unfold schedule
  cases hready : t.ready with
  | nil => exact Run.meets_pure ⟨rfl, rfl⟩
  | cons next rest =>
      obtain ⟨outgoing, hout⟩ := Option.isSome_iff_exists.mp d.occupied
      obtain ⟨hnext, hne, -, hnodup, hcurrent⟩ := d.head hready
      obtain ⟨incoming, hin⟩ : ∃ b, t.block? next = some b :=
        Option.isSome_iff_exists.mp (isSome_block?_iff.mpr (by simp [hnext]))
      have hsuspend := suspend_eq hout hnodup hcurrent now
      by_cases hfits : outgoing.cpuTime + (now - outgoing.dispatchedAt) < 2 ^ 64
      case neg =>
        rw [if_neg hfits] at hsuspend
        simp only [hsuspend, Run.lift_error]
        intro c
        refine ⟨rfl, fun ⟨hnow, h⟩ => hfits ?_⟩
        have := h.dispatched outgoing hout
        omega
      case pos =>
        rw [if_pos hfits] at hsuspend
        obtain ⟨t₁, ht₁⟩ : ∃ t₁ : ProcessTable ε, t₁ = { t.setSlot t.current (some
            { outgoing with
              cpuTime := outgoing.cpuTime + (now - outgoing.dispatchedAt)
              state := if outgoing.state = .running then .ready else outgoing.state }) with
            ready := if outgoing.state = .running then rest ++ [t.current] else rest } := ⟨_, rfl⟩
        have hin₁ : t₁.block? next = some incoming := by
          rw [ht₁]
          show (t.setSlot t.current _).block? next = _
          rw [block?_setSlot, if_neg hne, hin]
        have hswitched : { t₁.setSlot next (some
            { incoming with state := .running, dispatchedAt := now }) with current := next }
            = t.switched next rest now outgoing incoming := by
          rw [ht₁]
          rfl
        rw [← ht₁] at hsuspend
        refine Run.meets_lift_bind hsuspend ?_
        simp only [hin₁, hswitched, block?_switched, if_neg hne.symm, if_pos]
        exact Run.meets_log_bind (Run.meets_pure ⟨next, rest, outgoing, incoming, rfl, hout, hin,
          rfl, rfl⟩)

/-- **Dispatch.**  The head of the queue runs, and the process that ran before waits behind the
others if it still can run. -/
theorem Dispatchable.schedule_meets (d : Dispatchable t) (now : Nat) :
    (t.schedule now).Meets (TimeFault now t) fun (_, t') =>
      Scheduled t' ∧ (Timed now t → Timed now t') := by
  refine (d.schedule_cases now).imp ?_
  rintro ⟨switch?, t'⟩ hdone
  cases switch? with
  | none =>
      obtain ⟨hready, rfl⟩ := hdone
      exact ⟨⟨d.toOrderly, d.idle hready⟩, id⟩
  | some w =>
      obtain ⟨next, rest, outgoing, incoming, hready, hout, hin, -, rfl⟩ := hdone
      exact ⟨switched_scheduled d hready hout hin, switched_timed hout hin⟩

/-! ## The end of a process -/

variable {s : Slot} {b : ControlBlock ε}

/-- **A process ends.**  Its slot leaves the queue, and nobody runs if it was the running one; then a
dispatch must follow. -/
theorem Scheduled.terminate_meets (h : Scheduled t) (hb : t.block? s = some b)
    (hs : s ≠ kernelSlot) (code : Int32) :
    (t.terminate s code).Meets admits fun (_, t') =>
      t'.current = t.current ∧ (if s = t.current then Dispatchable t' else Scheduled t')
        ∧ ∀ now, Timed now t → Timed now t' := by
  unfold terminate
  simp only [show { t with ready := t.ready.filter (· ≠ s) }.block? s = some b from hb]
  refine Run.meets_log_bind (Run.meets_pure ?_)
  generalize hb' : ({ b with
    state := .terminated
    exitCode? := some code
    stack? := none
    pending? := none } : ControlBlock ε) = b'
  have hdead : b'.state = .terminated := hb' ▸ rfl
  have hready : ∀ s', s' ∈ t.ready.filter (· ≠ s) ↔
      if s' = s then b'.state = .ready else s' ∈ t.ready := by
    intro s'
    by_cases heq : s' = s <;> simp [heq, hdead]
  have o : Orderly ∅ ({ t with ready := t.ready.filter (· ≠ s) }.setSlot s (some b')) :=
    Finset.erase_empty s ▸ h.setState hb hs (hb' ▸ rfl) (by simp [hdead]) (by simp [hdead])
      (h.ready_nodup.filter _) hready
  have hstate : ∀ s', ({ t with ready := t.ready.filter (· ≠ s) }.setSlot s (some b')).stateAt? s'
      = if s' = s then some b'.state else t.stateAt? s' := fun s' => stateAt?_setSlot _ s s' _
  have htimes : ∀ now, Timed now t → Timed now (t.setSlot s (some b')) :=
    fun now htimed => htimed.setSlot hb (hb' ▸ rfl) (hb' ▸ rfl)
  refine ⟨rfl, ?_, fun now htimed => (htimes now htimed).congr rfl rfl⟩
  split
  case isTrue heq =>
    have hcurrent : ({ t with ready := t.ready.filter (· ≠ s) }.setSlot s (some b')).stateAt? t.current
        = some .terminated := by
      rw [hstate, if_pos heq.symm, hdead]
    refine o.dispatchable ?_ ?_
    · exact fun hrun => by cases hcurrent.symm.trans hrun
    · exact fun hready => by cases hcurrent.symm.trans hready
  case isFalse hne =>
    refine ⟨o, ?_⟩
    exact (hstate t.current).trans ((if_neg (Ne.symm hne)).trans h.current_running)

/-- **The running process ends**, unless it is the kernel's own.  What the process leaves behind is
said elsewhere. -/
theorem Scheduled.exitCurrent_meets (h : Scheduled t) (code : Int32) :
    (t.exitCurrent code).Meets admits fun (ended, t') =>
      match ended with
      | .error _ => t' = t
      | .ok _ => Dispatchable t' ∧ ∀ now, Timed now t → Timed now t' := by
  unfold exitCurrent
  by_cases hkernel : t.current = kernelSlot
  · rw [if_pos hkernel]
    exact Run.meets_pure rfl
  · rw [if_neg hkernel]
    obtain ⟨b, hb⟩ := Option.isSome_iff_exists.mp h.occupied
    refine (h.terminate_meets hb hkernel code).bind ?_
    rintro ⟨remains, t'⟩ ⟨-, hd, htimed⟩
    rw [if_pos rfl] at hd
    exact Run.meets_pure ⟨hd, htimed⟩

/-- The process with a pid is in the slot that is found for it. -/
theorem slotOf?_eq_some {pid : Pid} (hs : t.slotOf? pid = some s) :
    ∃ b, t.block? s = some b ∧ b.pid = pid := by
  have hpred := List.find?_some hs
  rw [Option.any_eq_true] at hpred
  obtain ⟨b, hb, hpid⟩ := hpred
  exact ⟨b, hb, eq_of_beq hpid⟩

theorem Orderly.ne_kernelSlot (o : Orderly ∅ t) (hb : t.block? s = some b) (hpid : b.pid ≠ .kernel) :
    s ≠ kernelSlot := by
  rintro rfl
  exact hpid (Option.some.inj ((pidAt?_of_block? hb).symm.trans o.kernel_pid))

/-- **A process is killed**, whichever it is, unless it is the kernel's own. -/
theorem Scheduled.kill_meets (h : Scheduled t) (pid : Pid) :
    (t.kill pid).Meets admits fun (ended, t') =>
      match ended with
      | .error _ => t' = t
      | .ok (_, wasCurrent) => (if wasCurrent then Dispatchable t' else Scheduled t')
          ∧ ∀ now, Timed now t → Timed now t' := by
  unfold kill
  by_cases hkernel : pid = .kernel
  · rw [if_pos hkernel]
    exact Run.meets_pure rfl
  rw [if_neg hkernel]
  cases hslot : t.slotOf? pid with
  | none => exact Run.meets_pure rfl
  | some slot =>
      obtain ⟨b, hb, rfl⟩ := slotOf?_eq_some hslot
      simp only
      split
      · exact Run.meets_pure rfl
      · refine (h.terminate_meets hb (h.ne_kernelSlot hb hkernel) killedExitCode).bind ?_
        rintro ⟨remains, t'⟩ ⟨hcurrent, hd, htimed⟩
        refine Run.meets_pure ⟨?_, htimed⟩
        simpa [hcurrent] using hd

/-! ## Waiting -/

/-- **The running process blocks**, unless it is the kernel's own.  Its time is charged by the dispatch
that follows. -/
theorem Scheduled.blockCurrent_meets (h : Scheduled t) :
    t.blockCurrent.Meets admits fun (blocked, t') =>
      match blocked with
      | .error _ => t' = t
      | .ok () => Dispatchable t' ∧ ∀ now, Timed now t → Timed now t' := by
  unfold blockCurrent
  by_cases hkernel : t.current = kernelSlot
  · rw [if_pos hkernel]
    exact Run.meets_pure rfl
  rw [if_neg hkernel]
  obtain ⟨b, hb⟩ := Option.isSome_iff_exists.mp h.occupied
  simp only [hb]
  generalize hb' : ({ b with state := .blocked } : ControlBlock ε) = b'
  have hblocked : b'.state = .blocked := hb' ▸ rfl
  have hnotin : t.current ∉ t.ready := h.not_mem_ready (by simp [h.current_running])
  have hready : ∀ s', s' ∈ t.ready ↔ if s' = t.current then b'.state = .ready else s' ∈ t.ready := by
    intro s'
    by_cases heq : s' = t.current <;> simp [heq, hblocked, hnotin]
  have o : Orderly ∅ (t.setSlot t.current (some b')) :=
    Finset.erase_empty t.current ▸ h.setState hb hkernel (hb' ▸ rfl) (by simp [hblocked])
      (by simp [hblocked]) h.ready_nodup hready
  have hcurrent : (t.setSlot t.current (some b')).stateAt? t.current = some .blocked := by
    rw [stateAt?_setSlot, if_pos rfl, ← hblocked]
    rfl
  refine Run.meets_log_bind (Run.meets_pure ⟨o.dispatchable ?_ ?_, fun now htimed => ?_⟩)
  · exact fun hrun => by cases hcurrent.symm.trans hrun
  · exact fun hready => by cases hcurrent.symm.trans hready
  · exact htimed.setSlot hb (hb' ▸ rfl) (hb' ▸ rfl)

/-- **A blocked process waits for the processor again.**  The queue has a place for it, so this does
not fault, whatever pid is given. -/
theorem Scheduled.unblock_ok (h : Scheduled t) (pid : Pid) :
    ∃ result t', t.unblock pid = .ok (result, t') ∧ Scheduled t'
      ∧ ∀ now, Timed now t → Timed now t' := by
  unfold unblock
  cases hslot : t.slotOf? pid with
  | none => exact ⟨_, t, rfl, h, fun _ => id⟩
  | some slot =>
      obtain ⟨b, hb, -⟩ := slotOf?_eq_some hslot
      simp only [hb]
      by_cases hblocked : b.state = .blocked
      case neg =>
        rw [if_neg hblocked]
        exact ⟨_, t, rfl, h, fun _ => id⟩
      case pos =>
      rw [if_pos hblocked]
      generalize hb' : ({ b with state := .ready } : ControlBlock ε) = b'
      have hisReady : b'.state = .ready := hb' ▸ rfl
      have hstate := stateAt?_of_block? hb
      rw [hblocked] at hstate
      have hnotReady : t.stateAt? slot ≠ some .ready := by simp [hstate]
      have hnotRunning : t.stateAt? slot ≠ some .running := by simp [hstate]
      have hcurrent : slot ≠ t.current := by
        rintro rfl
        exact hnotRunning h.current_running
      obtain ⟨o, henqueue⟩ := h.enqueue_setSlot hb
        (h.ne_kernelSlot_of_stateAt? hnotRunning hnotReady) (h.not_mem_ready hnotReady)
        (hb' ▸ rfl : b'.pid = b.pid) hisReady
      rw [Finset.erase_empty] at o
      refine ⟨.ok (), { t.setSlot slot (some b') with ready := t.ready ++ [slot] }, ?_, ⟨o, ?_⟩,
        fun now htimed => ?_⟩
      · rw [Checked.bind_of_ok henqueue]
        rfl
      · show (t.setSlot slot (some b')).stateAt? t.current = _
        rw [stateAt?_setSlot, if_neg (Ne.symm hcurrent)]
        exact h.current_running
      · exact (htimed.setSlot hb (hb' ▸ rfl) (hb' ▸ rfl)).congr rfl rfl

end TinyKernel.ProcessTable
