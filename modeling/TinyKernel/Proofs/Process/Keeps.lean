import TinyKernel.Proofs.Process.Scheduling
import TinyKernel.Proofs.Process.Slots

/-!
# Pids and saved registers

The pid of a process and the registers that are saved for it are written when the process is created.
After that the table itself writes neither of them again: a process may end, wait, lose its entry or
a child, and it may leave the table, but as long as it is there they are what they were.

## What is load-bearing

This is said of any table at all, orderly or not, and it says nothing about states.  So it is proved
once for each way in which a table is changed, and the operations follow their own definitions.

* `ProcessTable.Keeps` — one table keeps the pids and registers of another
* `ProcessTable.exitCurrent_keeps`, `ProcessTable.kill_keeps`, `ProcessTable.blockCurrent_keeps`,
  `ProcessTable.unblock_keeps`, `ProcessTable.reap_keeps`, `ProcessTable.takeEntry_keeps` — the
  operations
* `ProcessTable.activate_keeps` — creation, which writes the registers of one process
-/

namespace TinyKernel

/-- **Where a process starts on its stack**: below a word for a return address, whose end is rounded
down to a multiple of 16.  The arithmetic is that of words, and whether it overflows is a question of
its own. -/
def Stack.initialPointer (s : Stack) : UInt32 :=
  let behind := s.vaddr.val + UInt32.ofNat s.size
  behind - behind % 16 - 4

namespace ProcessTable

variable {ε : Type} {t t' t'' : ProcessTable ε} {s : Slot} {b b' : ControlBlock ε}

/-- **Whoever is in the table now was there before**, in the same slot, with the same pid and the same
saved registers.  Processes may be gone.  It is all that a history of registers asks of a step that is
no switch. -/
structure Keeps (t t' : ProcessTable ε) : Prop where
  saved : ∀ s b', t'.block? s = some b' →
    ∃ b, t.block? s = some b ∧ b'.pid = b.pid ∧ b'.context = b.context
  current_eq : t'.current = t.current
  nextPid_eq : t'.nextPid = t.nextPid

/-- What was in a slot before it is written makes no difference. -/
theorem setSlot_setSlot (t : ProcessTable ε) (s : Slot) (b? c? : Option (ControlBlock ε)) :
    (t.setSlot s b?).setSlot s c? = t.setSlot s c? := by
  simp only [ProcessTable.setSlot, Vector.set_set]

namespace Keeps

theorem refl (t : ProcessTable ε) : Keeps t t where
  saved _ b hb := ⟨b, hb, rfl, rfl⟩
  current_eq := rfl
  nextPid_eq := rfl

theorem trans (h : Keeps t t') (h' : Keeps t' t'') : Keeps t t'' where
  saved s b'' hb'' := by
    obtain ⟨b', hb', hpid', hcontext'⟩ := h'.saved s b'' hb''
    obtain ⟨b, hb, hpid, hcontext⟩ := h.saved s b' hb'
    exact ⟨b, hb, hpid'.trans hpid, hcontext'.trans hcontext⟩
  current_eq := h'.current_eq.trans h.current_eq
  nextPid_eq := h'.nextPid_eq.trans h.nextPid_eq

/-- The queue makes no difference: it has no registers. -/
theorem withReady (t : ProcessTable ε) (ready : List Slot) : Keeps t { t with ready } where
  saved _ b hb := ⟨b, hb, rfl, rfl⟩
  current_eq := rfl
  nextPid_eq := rfl

/-- A process changes, but for its pid and registers.  All others are in slots that are not written. -/
theorem setSlot (hb : t.block? s = some b) (pid_eq : b'.pid = b.pid)
    (context_eq : b'.context = b.context) : Keeps t (t.setSlot s (some b')) where
  saved s' c hc := by
    rw [block?_setSlot] at hc
    split at hc
    case isTrue heq =>
      obtain rfl := Option.some.inj hc
      exact ⟨b, heq ▸ hb, pid_eq, context_eq⟩
    case isFalse => exact ⟨c, hc, rfl, rfl⟩
  current_eq := rfl
  nextPid_eq := rfl

/-- It makes no difference what else a process enters the table with, as long as pid and registers are
the same. -/
theorem setSlot_again (t : ProcessTable ε) (s : Slot) (pid_eq : b'.pid = b.pid)
    (context_eq : b'.context = b.context) : Keeps (t.setSlot s (some b)) (t.setSlot s (some b')) := by
  rw [← setSlot_setSlot t s (some b) (some b')]
  exact .setSlot ((block?_setSlot ..).trans (if_pos rfl)) pid_eq context_eq

/-- A process goes, and leaves no registers behind. -/
theorem setSlot_none (t : ProcessTable ε) (s : Slot) : Keeps t (t.setSlot s none) where
  saved s' c hc := by
    rw [block?_setSlot] at hc
    split at hc
    · cases hc
    · exact ⟨c, hc, rfl, rfl⟩
  current_eq := rfl
  nextPid_eq := rfl

theorem modifySlot (t : ProcessTable ε) (s : Slot) {f : ControlBlock ε → ControlBlock ε}
    (pid_eq : ∀ b, (f b).pid = b.pid) (context_eq : ∀ b, (f b).context = b.context) :
    Keeps t (t.modifySlot s f) := by
  rw [ProcessTable.modifySlot]
  cases hb : t.block? s with
  | none => exact setSlot_none t s
  | some b => exact setSlot hb (pid_eq b) (context_eq b)

theorem enqueue (henqueue : t.enqueue s = .ok t') : Keeps t t' := by
  unfold ProcessTable.enqueue at henqueue
  split at henqueue
  · obtain rfl := Except.ok.inj henqueue
    exact withReady t _
  · cases henqueue

end Keeps

/-! ## The end of a process -/

theorem terminate_keeps (t : ProcessTable ε) (s : Slot) (code : Int32) :
    (t.terminate s code).Meets (fun _ => True) fun (_, t') => Keeps t t' := by
  unfold terminate
  have hkeeps := Keeps.withReady t (t.ready.filter (· ≠ s))
  cases hb : { t with ready := t.ready.filter (· ≠ s) }.block? s with
  | none =>
      simp only [hb]
      exact Run.meets_pure hkeeps
  | some b =>
      simp only [hb]
      refine Run.meets_log_bind (Run.meets_pure ?_)
      exact hkeeps.trans (.setSlot hb rfl rfl)

theorem exitCurrent_keeps (t : ProcessTable ε) (code : Int32) :
    (t.exitCurrent code).Meets (fun _ => True) fun (_, t') => Keeps t t' := by
  unfold exitCurrent
  split
  · exact Run.meets_pure (.refl t)
  · exact (t.terminate_keeps t.current code).bind fun _ h => Run.meets_pure h

theorem kill_keeps (t : ProcessTable ε) (pid : Pid) :
    (t.kill pid).Meets (fun _ => True) fun (_, t') => Keeps t t' := by
  unfold kill
  split
  · exact Run.meets_pure (.refl t)
  cases t.slotOf? pid with
  | none => exact Run.meets_pure (.refl t)
  | some slot =>
      dsimp only
      split
      · exact Run.meets_pure (.refl t)
      · exact (t.terminate_keeps slot killedExitCode).bind fun _ h => Run.meets_pure h

theorem removeChild_keeps (t : ProcessTable ε) (parent? : Option Pid) (child : Pid) :
    Keeps t (t.removeChild parent? child) := by
  unfold removeChild
  split
  · exact .refl t
  · exact .modifySlot t _ (fun _ => rfl) fun _ => rfl

theorem reapSlot_keeps (hreap : t.reapSlot s = some t') : Keeps t t' := by
  unfold reapSlot at hreap
  split at hreap
  · cases hreap
  cases hb : t.block? s with
  | none =>
      rw [hb] at hreap
      cases hreap
  | some b =>
      simp only [hb] at hreap
      split at hreap
      · obtain rfl := Option.some.inj hreap
        exact (t.removeChild_keeps b.parent? b.pid).trans (.setSlot_none _ s)
      · cases hreap

theorem reapSlots_keeps (t : ProcessTable ε) (count : Nat) (slots : List Slot) :
    Keeps t (t.reapSlots count slots).2 := by
  induction slots generalizing t count with
  | nil => exact .refl t
  | cons s rest ih =>
      rw [reapSlots]
      cases hreap : t.reapSlot s with
      | none => exact ih t count
      | some t' => exact (reapSlot_keeps hreap).trans (ih t' (count + 1))

/-- Reclamation takes processes out of the table, and leaves the others as they are, but for their
children. -/
theorem reap_keeps (t : ProcessTable ε) : t.reap.Meets (fun _ => True) fun (_, t') => Keeps t t' := by
  have hreaped := t.reapSlots_keeps 0 (allSlots.filter (· ≠ kernelSlot))
  unfold reap
  generalize t.reapSlots 0 (allSlots.filter (· ≠ kernelSlot)) = reaped at hreaped
  dsimp only
  split
  · exact Run.meets_log_bind (Run.meets_pure hreaped)
  · exact Run.meets_pure hreaped

/-! ## Waiting -/

theorem blockCurrent_keeps (t : ProcessTable ε) :
    t.blockCurrent.Meets (fun _ => True) fun (_, t') => Keeps t t' := by
  unfold blockCurrent
  split
  · exact Run.meets_pure (.refl t)
  cases hb : t.block? t.current with
  | none => exact Run.meets_pure (.refl t)
  | some b => exact Run.meets_log_bind (Run.meets_pure (.setSlot hb rfl rfl))

theorem unblock_keeps {pid : Pid} {result : Except ProcessError Unit}
    (hunblock : t.unblock pid = .ok (result, t')) : Keeps t t' := by
  unfold unblock at hunblock
  cases hslot : t.slotOf? pid with
  | none =>
      rw [hslot] at hunblock
      cases hunblock
      exact .refl t
  | some slot =>
      simp only [hslot] at hunblock
      cases hb : t.block? slot with
      | none =>
          simp only [hb] at hunblock
          cases hunblock
          exact .refl t
      | some b =>
          simp only [hb] at hunblock
          split at hunblock
          case isFalse =>
            cases hunblock
            exact .refl t
          case isTrue =>
            cases henqueue : (t.setSlot slot (some { b with state := .ready })).enqueue slot with
            | error e =>
                rw [henqueue] at hunblock
                cases hunblock
            | ok t₁ =>
                rw [henqueue] at hunblock
                cases hunblock
                refine Keeps.trans ?_ (.enqueue henqueue)
                exact .setSlot hb rfl rfl

theorem takeEntry_keeps (t : ProcessTable ε) : Keeps t t.takeEntry.2 := by
  unfold takeEntry
  split
  case h_1 => exact .refl t
  case h_2 b hb => exact .setSlot hb rfl rfl

/-! ## Switches -/

/-- Saving registers changes the registers of one process, and nothing if the slot is free. -/
theorem block?_saveContext (t : ProcessTable ε) (s s' : Slot) (context : Context) :
    (t.saveContext s context).block? s' =
      if s' = s then (t.block? s).map fun b => { b with context } else t.block? s' :=
  block?_modifySlot ..

/-- A switch changes neither pids nor registers; it is the processor that stores registers, and a
separate call that writes them down. -/
theorem switched_saved {next : Slot} {rest : List Slot} {outgoing incoming : ControlBlock ε}
    {now : Nat} (hout : t.block? t.current = some outgoing) (hin : t.block? next = some incoming)
    (hb' : (t.switched next rest now outgoing incoming).block? s = some b') :
    ∃ b, t.block? s = some b ∧ b'.pid = b.pid ∧ b'.context = b.context := by
  rw [block?_switched] at hb'
  split at hb'
  case isTrue heq =>
    obtain rfl := Option.some.inj hb'
    exact ⟨incoming, heq ▸ hin, rfl, rfl⟩
  case isFalse =>
    split at hb'
    case isTrue heq =>
      obtain rfl := Option.some.inj hb'
      exact ⟨outgoing, heq ▸ hout, rfl, rfl⟩
    case isFalse => exact ⟨b', hb', rfl, rfl⟩

/-! ## Creation -/

theorem addChild_keeps (t : ProcessTable ε) (pid : Pid) :
    (t.addChild pid).Meets (fun _ => True) fun t' => Keeps t t' := by
  unfold addChild
  cases hb : t.block? t.current with
  | none => exact Run.meets_pure (.refl t)
  | some parent =>
      dsimp only
      split
      · exact Run.meets_pure (.setSlot hb rfl rfl)
      · exact Run.meets_log_bind (Run.meets_pure (.refl t))

/-- What is recorded as the top of a stack lies a word above where the process starts, if it has a top
at all. -/
theorem top_sub_four {stack : Stack} {top : UInt32} (htop : stack.top = .ok top) :
    top - 4 = stack.initialPointer := by
  unfold Stack.top at htop
  by_cases hfits : stack.vaddr.val.toNat + (UInt32.ofNat stack.size).toNat < 2 ^ 32
  · rw [Checked.bind_of_ok (Checked.add32_of_lt hfits)] at htop
    obtain rfl := Except.ok.inj htop
    rfl
  · have hadd : Checked.add32 stack.vaddr.val (UInt32.ofNat stack.size) = .error (.overflow .add) :=
      if_neg hfits
    rw [hadd] at htop
    cases htop

/-- **Activation writes the registers of one process**, and no others. -/
theorem activate_keeps {r : Reservation} (hb : t.block? r.slot = some b) (stack : Stack) (entry : ε)
    (entryPoint : UInt32) :
    (t.activate r stack entry entryPoint).Meets (fun _ => True) fun t' =>
      Keeps (t.setSlot r.slot (some { b with
        context := .forEntry entryPoint stack.initialPointer Context.initialFlags
          ((t.block? t.current).elim 0 fun creator => creator.context.cr3) })) t' := by
  unfold activate
  generalize (t.block? t.current).elim 0 (fun creator => creator.context.cr3) = cr3
  simp only [hb]
  split
  · exact Run.meets_throw trivial
  refine Run.meets_lift_bind_of_ok fun top htop => ?_
  refine Run.meets_lift_bind_of_ok fun esp hesp => ?_
  refine Run.meets_lift_bind_of_ok fun t₁ henqueue => ?_
  refine (t₁.addChild_keeps r.pid).bind fun t₂ hchild => Run.meets_log_bind (Run.meets_pure ?_)
  have hpointer : esp = stack.initialPointer := by
    unfold Checked.sub32 at hesp
    split at hesp
    · exact (Except.ok.inj hesp).symm.trans (top_sub_four htop)
    · cases hesp
  rw [← hpointer]
  refine Keeps.trans ?_ ((Keeps.enqueue henqueue).trans hchild)
  exact .setSlot_again t r.slot rfl rfl

end ProcessTable

end TinyKernel
