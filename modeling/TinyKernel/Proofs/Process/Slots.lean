import TinyKernel.Proofs.Process.Orderly

/-!
# Slots that are filled and emptied

How processes come into the table, and how they leave it.  Between a reservation and its activation
one slot is held by a process that is not alive yet; that is the only moment at which a table has a
process in the state `new`.

* `ProcessTable.new_scheduled` — the table of a kernel just booted
* `ProcessTable.Full`, `ProcessTable.FirstFree` — where the next process is created
* `ProcessTable.Reserved` — what holds while a reservation is open
* `ProcessTable.Scheduled.reserve_meets`, `ProcessTable.Reserved.activate_meets`,
  `ProcessTable.Reserved.abandon` — creation
* `ProcessTable.Scheduled.reap_meets` — reclamation
-/

namespace TinyKernel

/-- The kernel's process, as it is at first: it runs, and was not created by another. -/
def ProcessInfo.kernel : ProcessInfo where
  pid := .kernel
  name := "kernel"
  state := .running
  priority := .high
  cpuTime := 0
  exitCode? := none
  parent? := none
  children := []

namespace ProcessTable

variable {ε : Type} {t t' : ProcessTable ε} {s : Slot} {b : ControlBlock ε} {held : Finset Slot}
  {now : Nat} {admits : Fault → Prop}

/-! ## The first process -/

/-- Slot 0 is in use, by the kernel's process, and no other is. -/
theorem block?_new (kernelDirectory : PhysAddr) :
    ∃ b : ControlBlock ε, b.info = .kernel ∧ b.dispatchedAt = 0
      ∧ b.context = { cr3 := kernelDirectory.val } ∧ b.stack? = none
      ∧ ∀ s, (new kernelDirectory).block? s = if s = kernelSlot then some b else none := by
  let fresh : ControlBlock ε := .new .kernel "kernel" .high none
  refine ⟨{ fresh with
    state := .running
    context := { fresh.context with cr3 := kernelDirectory.val } }, rfl, rfl, rfl, rfl, fun s => ?_⟩
  show ((ProcessTable.mk (Vector.replicate maxProcesses none) [] kernelSlot 1).setSlot kernelSlot
    (some _)).block? s = _
  rw [block?_setSlot]
  split
  · rfl
  · exact Vector.getElem_replicate ..

/-- **Whoever is in the table at first** is the kernel's process, with the registers that it starts
with. -/
theorem of_block?_new {kernelDirectory : PhysAddr} (hb : (new kernelDirectory).block? s = some b) :
    b.info = .kernel ∧ b.dispatchedAt = 0 ∧ b.context = { cr3 := kernelDirectory.val }
      ∧ b.stack? = none := by
  obtain ⟨kernel, hinfo, hdispatched, hcontext, hstack, hblock⟩ := block?_new (ε := ε) kernelDirectory
  rw [hblock] at hb
  split at hb
  · obtain rfl := Option.some.inj hb
    exact ⟨hinfo, hdispatched, hcontext, hstack⟩
  · cases hb

theorem new_scheduled (kernelDirectory : PhysAddr) :
    Scheduled (new kernelDirectory : ProcessTable ε) := by
  obtain ⟨b, hinfo, -, -, -, hblock⟩ := block?_new (ε := ε) kernelDirectory
  have hpid : b.pid = .kernel := congrArg ProcessInfo.pid hinfo
  have hstate : b.state = .running := congrArg ProcessInfo.state hinfo
  have hstates : ∀ s, (new kernelDirectory : ProcessTable ε).stateAt? s
      = if s = kernelSlot then some .running else none := by
    intro s
    rw [stateAt?, hblock]
    split
    · exact congrArg some hstate
    · rfl
  have hpids : ∀ s, (new kernelDirectory : ProcessTable ε).pidAt? s
      = if s = kernelSlot then some .kernel else none := by
    intro s
    rw [pidAt?, hblock]
    split
    · exact congrArg some hpid
    · rfl
  have hready : (new kernelDirectory : ProcessTable ε).ready = [] := rfl
  have hcurrent : (new kernelDirectory : ProcessTable ε).current = kernelSlot := rfl
  refine ⟨⟨?_, ?_, ?_, ?_, ?_, ?_, ?_, ?_, ?_⟩, ?_⟩
  · intro s hs
    rw [hstates] at hs
    by_contra hne
    rw [if_neg fun heq => hne (heq.trans hcurrent.symm)] at hs
    cases hs
  · rw [hready]
    exact List.nodup_nil
  · intro s
    rw [hready, hstates]
    split <;> simp
  · intro s
    rw [hstates]
    split <;> simp
  · rw [isSome_block?_iff, hstates, hcurrent, if_pos rfl]
    exact Option.some_ne_none _
  · rw [hpids, if_pos rfl]
  · rw [hstates, if_pos rfl]
    exact Or.inl rfl
  · intro s s' p hs hs'
    rw [hpids] at hs hs'
    split at hs <;> split at hs' <;> simp_all
  · intro s p hs
    rw [hpids] at hs
    split at hs
    · obtain rfl := Option.some.inj hs
      exact show (0 : UInt32) < 1 by decide
    · cases hs
  · rw [hstates, hcurrent, if_pos rfl]

theorem new_timed (kernelDirectory : PhysAddr) :
    Timed 0 (new kernelDirectory : ProcessTable ε) := by
  refine ⟨fun s b hb => ?_, fun b hb => ?_⟩
  · exact Nat.le_of_eq (congrArg ProcessInfo.cpuTime (of_block?_new hb).1)
  · obtain ⟨hinfo, hdispatched, -⟩ := of_block?_new hb
    have htime : b.cpuTime = 0 := congrArg ProcessInfo.cpuTime hinfo
    rw [htime, hdispatched]
    exact ⟨Nat.le_refl 0, Nat.le_refl 0⟩

/-! ## One process more, one process less -/

/-- Whoever keeps state and pid keeps the schedule, whatever else of the process changes. -/
theorem Scheduled.setSlot_same (h : Scheduled t) (hb : t.block? s = some b) {b' : ControlBlock ε}
    (state_eq : b'.state = b.state) (pid_eq : b'.pid = b.pid) :
    Scheduled (t.setSlot s (some b')) where
  toOrderly := h.toOrderly.setSlot_same hb state_eq pid_eq
  current_running := (stateAt?_setSlot_same hb state_eq _).trans h.current_running

/-- **A slot is emptied** that neither runs nor waits for the processor.  If it was held, it is held no
more. -/
theorem Orderly.setSlot_none (o : Orderly held t) (hs : s ≠ kernelSlot) (hcurrent : s ≠ t.current)
    (hready : s ∉ t.ready) : Orderly (held.erase s) (t.setSlot s none) := by
  have hstate : ∀ s', (t.setSlot s none).stateAt? s' = if s' = s then none else t.stateAt? s' :=
    fun s' => stateAt?_setSlot t s s' none
  have hpid : ∀ s' p, (t.setSlot s none).pidAt? s' = some p → t.pidAt? s' = some p := by
    intro s' p hp
    rw [pidAt?_setSlot] at hp
    split at hp
    · cases hp
    · exact hp
  refine ⟨?_, o.ready_nodup, ?_, ?_, ?_, ?_, ?_, ?_, ?_⟩
  · intro s' hs'
    rw [hstate] at hs'
    split at hs'
    · cases hs'
    · exact o.running s' hs'
  · intro s'
    rw [hstate]
    split
    case isTrue heq => simp [heq, hready]
    case isFalse => exact o.mem_ready s'
  · intro s'
    rw [hstate, Finset.mem_erase, o.mem_held]
    split
    case isTrue heq => simp [heq]
    case isFalse hne => simp [hne]
  · rw [current_setSlot, block?_setSlot, if_neg (Ne.symm hcurrent)]
    exact o.occupied
  · rw [pidAt?_setSlot, if_neg (Ne.symm hs)]
    exact o.kernel_pid
  · rw [hstate, if_neg (Ne.symm hs)]
    exact o.kernel_state
  · intro s' s'' p hp hp'
    exact o.pid_inj s' s'' p (hpid s' p hp) (hpid s'' p hp')
  · intro s' p hp
    exact o.pid_lt s' p (hpid s' p hp)

theorem Scheduled.setSlot_none (h : Scheduled t) (hs : s ≠ kernelSlot) (hcurrent : s ≠ t.current)
    (hready : s ∉ t.ready) : Scheduled (t.setSlot s none) where
  toOrderly := Finset.erase_empty s ▸ h.toOrderly.setSlot_none hs hcurrent hready
  current_running := by
    rw [current_setSlot, stateAt?_setSlot, if_neg (Ne.symm hcurrent)]
    exact h.current_running

/-! ## Creation -/

/-- **What holds while a reservation is open.**  It is a scheduled table, but for the one slot that is
held: the running process runs on, and the queue knows nothing of the newcomer. -/
structure Reserved (r : Reservation) (t : ProcessTable ε) : Prop extends Orderly {r.slot} t where
  current_running : t.stateAt? t.current = some .running

variable {r : Reservation}

namespace Reserved

theorem stateAt?_slot (h : Reserved r t) : t.stateAt? r.slot = some .new :=
  (h.mem_held r.slot).mp (Finset.mem_singleton_self _)

/-- The slot holds a process that is not alive yet, so activation finds what it looks for. -/
theorem exists_block (h : Reserved r t) : ∃ b, t.block? r.slot = some b ∧ b.state = .new :=
  Option.map_eq_some_iff.mp h.stateAt?_slot

theorem slot_ne_kernelSlot (h : Reserved r t) : r.slot ≠ kernelSlot :=
  h.ne_kernelSlot_of_stateAt? (by simp [h.stateAt?_slot]) (by simp [h.stateAt?_slot])

theorem slot_ne_current (h : Reserved r t) : r.slot ≠ t.current := by
  intro heq
  have hnew := h.stateAt?_slot
  rw [heq] at hnew
  cases hnew.symm.trans h.current_running

theorem slot_not_mem_ready (h : Reserved r t) : r.slot ∉ t.ready :=
  h.not_mem_ready (by simp [h.stateAt?_slot])

end Reserved

theorem nextPid_lt (hfits : t.nextPid.toNat + 1 < 2 ^ 32) : t.nextPid < t.nextPid + 1 := by
  rw [UInt32.lt_iff_toNat_lt, UInt32.toNat_add]
  simp only [UInt32.reduceToNat]
  omega

/-- **The next pid is above every pid in the table**, so nobody has it twice.  It must not be the last
of its word. -/
theorem pids_arrive (pid_inj : ∀ s s' p, t.pidAt? s = some p → t.pidAt? s' = some p → s = s')
    (pid_lt : ∀ s p, t.pidAt? s = some p → p.val < t.nextPid)
    (hfits : t.nextPid.toNat + 1 < 2 ^ 32) (hpid : b.pid = ⟨t.nextPid⟩)
    (ht' : t' = { t with nextPid := t.nextPid + 1 }.setSlot s (some b)) :
    (∀ s₁ s₂ p, t'.pidAt? s₁ = some p → t'.pidAt? s₂ = some p → s₁ = s₂)
      ∧ ∀ s₁ p, t'.pidAt? s₁ = some p → p.val < t'.nextPid := by
  have hpids : ∀ s₁, t'.pidAt? s₁ = if s₁ = s then some ⟨t.nextPid⟩ else t.pidAt? s₁ := by
    intro s₁
    rw [ht', ← hpid]
    exact pidAt?_setSlot _ s s₁ (some b)
  have hfresh : ∀ s₁, t.pidAt? s₁ ≠ some ⟨t.nextPid⟩ := fun s₁ hp =>
    UInt32.lt_irrefl _ (pid_lt s₁ _ hp)
  have hnext : t'.nextPid = t.nextPid + 1 := by
    rw [ht']
    rfl
  refine ⟨fun s₁ s₂ p hp hp' => ?_, fun s₁ p hp => ?_⟩
  · rw [hpids] at hp hp'
    split at hp <;> split at hp'
    case isTrue.isTrue heq heq' => exact heq.trans heq'.symm
    case isTrue.isFalse => exact absurd (hp'.trans hp.symm) (hfresh s₂)
    case isFalse.isTrue => exact absurd (hp.trans hp'.symm) (hfresh s₁)
    case isFalse.isFalse => exact pid_inj s₁ s₂ p hp hp'
  · rw [hpids] at hp
    rw [hnext]
    split at hp
    · obtain rfl := Option.some.inj hp
      exact nextPid_lt hfits
    · exact UInt32.lt_trans (pid_lt s₁ p hp) (nextPid_lt hfits)

/-- A process enters a free slot, under the next pid, and does not run or wait yet. -/
theorem Scheduled.reserved (h : Scheduled t) (hs : s ≠ kernelSlot) (hfree : t.block? s = none)
    (hfits : t.nextPid.toNat + 1 < 2 ^ 32) (hpid : b.pid = ⟨t.nextPid⟩) (hnew : b.state = .new) :
    Reserved ⟨s, ⟨t.nextPid⟩⟩ ({ t with nextPid := t.nextPid + 1 }.setSlot s (some b)) := by
  have hcurrent : s ≠ t.current := by
    rintro rfl
    have hocc := h.occupied
    rw [hfree] at hocc
    cases hocc
  have hstate : ∀ s', ({ t with nextPid := t.nextPid + 1 }.setSlot s (some b)).stateAt? s'
      = if s' = s then some .new else t.stateAt? s' := by
    intro s'
    rw [← hnew]
    exact stateAt?_setSlot _ s s' (some b)
  obtain ⟨hpid_inj, hpid_lt⟩ := pids_arrive h.pid_inj h.pid_lt hfits hpid (s := s) rfl
  have hnone : t.stateAt? s = none := by
    rw [stateAt?, hfree]
    rfl
  refine ⟨⟨?_, h.ready_nodup, ?_, ?_, ?_, ?_, ?_, hpid_inj, hpid_lt⟩, ?_⟩
  · intro s' hs'
    rw [hstate] at hs'
    split at hs'
    · cases hs'
    · exact h.running s' hs'
  · intro s'
    rw [hstate]
    refine (h.mem_ready s').trans ?_
    split
    case isTrue heq => simp [heq, hnone]
    case isFalse => rfl
  · intro s'
    rw [hstate, Finset.mem_singleton]
    split
    case isTrue heq => simp [heq]
    case isFalse hne =>
      have hold := (h.mem_held s').not.mp (Finset.notMem_empty s')
      simp [hne, hold]
  · rw [isSome_block?_iff, hstate]
    show (if t.current = s then _ else _) ≠ none
    rw [if_neg (Ne.symm hcurrent)]
    exact isSome_block?_iff.mp h.occupied
  · refine (pidAt?_setSlot _ s kernelSlot (some b)).trans ?_
    rw [if_neg (Ne.symm hs)]
    exact h.kernel_pid
  · rw [hstate, if_neg (Ne.symm hs)]
    exact h.kernel_state
  · rw [hstate]
    show (if t.current = s then _ else _) = _
    rw [if_neg (Ne.symm hcurrent)]
    exact h.current_running

/-- A process that did not run yet has no time, so it lies in the past at any tick. -/
theorem Timed.setSlot_fresh (h : Timed now t) (hs : s ≠ t.current) (htime : b.cpuTime = 0) :
    Timed now (t.setSlot s (some b)) := by
  refine ⟨fun s' c hc => ?_, fun c hc => ?_⟩
  · rw [block?_setSlot] at hc
    split at hc
    · obtain rfl := Option.some.inj hc
      rw [htime]
      exact Nat.zero_le now
    · exact h.cpuTime_le s' c hc
  · rw [current_setSlot, block?_setSlot, if_neg (Ne.symm hs)] at hc
    exact h.dispatched c hc

/-- **Faults of a reservation**: all pids were handed out.  That is after more than four thousand
million processes, and not before. -/
def PidFault (t : ProcessTable ε) (e : Fault) : Prop :=
  e = .overflow .add ∧ t.nextPid = 0xffffffff

/-- **Every slot is in use** in which a process can be created.  The kernel's own is in use at all
times. -/
def Full (t : ProcessTable ε) : Prop := ∀ s, s ≠ kernelSlot → (t.block? s).isSome

/-- **The first free slot**: the next process is created there, and there is one such slot at most.
The kernel's own slot does not count, be it free or not. -/
structure FirstFree (t : ProcessTable ε) (s : Slot) : Prop where
  ne_kernel : s ≠ kernelSlot
  free : t.block? s = none
  used : ∀ s' < s, s' ≠ kernelSlot → (t.block? s').isSome

theorem FirstFree.not_full (first : FirstFree t s) : ¬ Full t := by
  intro hfull
  have hused := hfull s first.ne_kernel
  rw [first.free] at hused
  cases hused

/-- At first there is room, since the kernel's process is alone. -/
theorem new_not_full (kernelDirectory : PhysAddr) :
    ¬ Full (new kernelDirectory : ProcessTable ε) := by
  intro hfull
  have hne : (⟨1, by decide⟩ : Slot) ≠ kernelSlot := by decide
  have hused := hfull _ hne
  obtain ⟨b, -, -, -, -, hblock⟩ := block?_new (ε := ε) kernelDirectory
  rw [hblock, if_neg hne] at hused
  cases hused

/-- The search for a free slot goes through the slots in order, so what it finds is the first. -/
theorem find?_free (t : ProcessTable ε) :
    match allSlots.find? fun s => s ≠ kernelSlot ∧ (t.block? s).isNone with
    | none => Full t
    | some s => FirstFree t s := by
  split
  case h_1 hfind =>
    intro s hs
    have hnot := List.find?_eq_none.mp hfind s (List.mem_finRange s)
    rw [Option.isSome_iff_ne_none]
    simpa [hs] using hnot
  case h_2 s hfind =>
    obtain ⟨hs, pre, post, hslots, hpre⟩ := List.find?_eq_some_iff_append.mp hfind
    simp only [decide_eq_true_eq, Option.isNone_iff_eq_none] at hs
    refine ⟨hs.1, hs.2, fun s' hlt hs' => ?_⟩
    -- whatever comes before `s` in order comes before it in the list
    have hmem : s' ∈ pre := by
      have hall : s' ∈ pre ++ s :: post := hslots ▸ List.mem_finRange s'
      have hsorted : (pre ++ s :: post).Pairwise (· < ·) := hslots ▸ List.pairwise_lt_finRange _
      rcases List.mem_append.mp hall with hmem | hmem
      · exact hmem
      · rcases List.mem_cons.mp hmem with rfl | hmem
        · exact absurd hlt (lt_irrefl s')
        · have hpost := (List.pairwise_append.mp hsorted).2.1
          exact absurd hlt ((List.pairwise_cons.mp hpost).1 s' hmem).asymm
    have hnot := hpre s' hmem
    rw [Option.isSome_iff_ne_none]
    simpa [hs'] using hnot

/-- **What a reservation does**: nothing, if all slots are in use; a fault, if all pids were handed
out; otherwise a process that is not alive yet enters a free slot, under the next pid.  It is read off
the definition, and needs no invariant. -/
theorem reserve_cases (t : ProcessTable ε) (name : String) (priority : Priority) :
    (Full t ∧ t.reserve name priority = .ok (.error .tableFull, t))
      ∨ ∃ s, FirstFree t s
        ∧ (t.nextPid = 0xffffffff ∧ t.reserve name priority = .error (.overflow .add)
          ∨ t.nextPid.toNat + 1 < 2 ^ 32 ∧ t.reserve name priority = .ok (.ok ⟨s, ⟨t.nextPid⟩⟩,
            { t with nextPid := t.nextPid + 1 }.setSlot s
              (some (.new ⟨t.nextPid⟩ name priority (some t.currentPid))))) := by
  have hsearch := t.find?_free
  unfold reserve
  cases hfind : allSlots.find? fun s => s ≠ kernelSlot ∧ (t.block? s).isNone with
  | none =>
      rw [hfind] at hsearch
      exact Or.inl ⟨hsearch, rfl⟩
  | some slot =>
      rw [hfind] at hsearch
      refine Or.inr ⟨slot, hsearch, ?_⟩
      by_cases hfits : t.nextPid.toNat + 1 < 2 ^ 32
      case neg =>
        have hadd : Checked.add32 t.nextPid 1 = .error (.overflow .add) := if_neg hfits
        simp only [hadd, Checked.error_bind]
        refine Or.inl ⟨UInt32.toNat_inj.mp ?_, trivial⟩
        have hlt := t.nextPid.toNat_lt
        simp only [UInt32.reduceToNat]
        omega
      case pos =>
        have hadd : Checked.add32 t.nextPid 1 = .ok (t.nextPid + 1) := Checked.add32_of_lt hfits
        simp only [hadd, Checked.ok_bind]
        exact Or.inr ⟨hfits, rfl⟩

/-- **A slot and a pid are reserved**, or all slots are in use and nothing changes. -/
theorem Scheduled.reserve_meets (h : Scheduled t) (name : String) (priority : Priority) :
    (liftM (t.reserve name priority) : Run _).Meets (PidFault t) fun (reserved, t') =>
      match reserved with
      | .error _ => t' = t
      | .ok r => Reserved r t' ∧ ∀ now, Timed now t → Timed now t' := by
  rcases t.reserve_cases name priority with ⟨-, hreserve⟩
    | ⟨slot, first, ⟨hpid, hreserve⟩ | ⟨hfits, hreserve⟩⟩
  · rw [hreserve]
    exact Run.meets_pure rfl
  · rw [hreserve]
    exact Run.meets_throw ⟨rfl, hpid⟩
  · rw [hreserve]
    have hr := h.reserved first.ne_kernel first.free hfits
      (b := .new ⟨t.nextPid⟩ name priority (some t.currentPid)) rfl rfl
    refine Run.meets_pure ⟨hr, fun now htimed => ?_⟩
    have hnext : Timed now { t with nextPid := t.nextPid + 1 } := htimed.congr rfl rfl
    exact hnext.setSlot_fresh hr.slot_ne_current rfl

/-- A child is written down, or it is not; a list without room is no fault. -/
theorem Scheduled.addChild_meets (h : Scheduled t) (pid : Pid) :
    (t.addChild pid).Meets admits fun t' =>
      Scheduled t' ∧ ∀ now, Timed now t → Timed now t' := by
  unfold addChild
  obtain ⟨parent, hparent⟩ := Option.isSome_iff_exists.mp h.occupied
  simp only [hparent]
  split
  · exact Run.meets_pure ⟨h.setSlot_same hparent rfl rfl, fun now htimed =>
      htimed.setSlot hparent rfl rfl⟩
  · exact Run.meets_log_bind (Run.meets_pure ⟨h, fun _ => id⟩)

/-- **Whether a process can start on a stack**: it has a top, with room for a return address.  Both can
fail, by a sum or a difference of addresses. -/
def Usable (stack : Stack) : Prop := ∃ top, stack.top = .ok top ∧ 4 ≤ top

/-- **Where the top of a stack is**, if the stack ends below the last address: at its end, rounded down
to a multiple of 16. -/
theorem top_of_fits {stack : Stack} (fits : stack.vaddr.val.toNat + stack.size < 2 ^ 32) :
    ∃ top, stack.top = .ok top ∧ top.toNat = stack.vaddr.val.toNat + stack.size
      - (stack.vaddr.val.toNat + stack.size) % 16 := by
  have hsize : (UInt32.ofNat stack.size).toNat = stack.size := by
    rw [UInt32.toNat_ofNat', Nat.mod_eq_of_lt (by omega)]
  have hadd : Checked.add32 stack.vaddr.val (UInt32.ofNat stack.size)
      = .ok (stack.vaddr.val + UInt32.ofNat stack.size) := by
    apply Checked.add32_of_lt
    rwa [hsize]
  have hbehind : (stack.vaddr.val + UInt32.ofNat stack.size).toNat
      = stack.vaddr.val.toNat + stack.size := by
    rw [UInt32.toNat_add, hsize, Nat.mod_eq_of_lt fits]
  generalize stack.vaddr.val + UInt32.ofNat stack.size = behind at hadd hbehind
  have hmod : (behind % 16).toNat = behind.toNat % 16 := UInt32.toNat_mod ..
  have hle : behind % 16 ≤ behind := by
    rw [UInt32.le_iff_toNat_le, hmod]
    exact Nat.mod_le ..
  refine ⟨behind - behind % 16, ?_, ?_⟩
  · rw [Stack.top, Checked.bind_of_ok hadd]
    rfl
  · rw [UInt32.toNat_sub_of_le _ _ hle, hmod, hbehind]

theorem four_le_top {stack : Stack} {top : UInt32} (large : 20 ≤ stack.size)
    (htop : top.toNat = stack.vaddr.val.toNat + stack.size
      - (stack.vaddr.val.toNat + stack.size) % 16) : 4 ≤ top := by
  rw [UInt32.le_iff_toNat_le, htop]
  simp only [UInt32.reduceToNat]
  omega

theorem usable_of_fits {stack : Stack} (fits : stack.vaddr.val.toNat + stack.size < 2 ^ 32)
    (large : 20 ≤ stack.size) : Usable stack := by
  obtain ⟨top, htop, htoNat⟩ := top_of_fits fits
  exact ⟨top, htop, four_le_top large htoNat⟩

/-- **A reservation becomes a process** that waits for the processor.  On a stack that can be used
nothing stops it. -/
theorem Reserved.activate_meets (h : Reserved r t) {stack : Stack} (hstack : Usable stack)
    (entry : ε) (entryPoint : UInt32) :
    (t.activate r stack entry entryPoint).Meets admits fun t' =>
      Scheduled t' ∧ ∀ now, Timed now t → Timed now t' := by
  obtain ⟨top, htop, hroom⟩ := hstack
  unfold activate
  obtain ⟨b, hb, hnew⟩ := h.exists_block
  have hsub : Checked.sub32 top 4 = .ok (top - 4) := Checked.sub32_of_le hroom
  simp only [hb, hnew, ne_eq, not_true_eq_false, if_false, htop, hsub, Run.lift_ok, pure_bind]
  generalize hb' : ({ b with
    context := .forEntry entryPoint (top - 4) Context.initialFlags _
    stack? := some stack
    pending? := some entry
    state := .ready } : ControlBlock ε) = b'
  have hisReady : b'.state = .ready := hb' ▸ rfl
  have hpid : b'.pid = b.pid := hb' ▸ rfl
  obtain ⟨o, henqueue⟩ := h.enqueue_setSlot hb h.slot_ne_kernelSlot h.slot_not_mem_ready hpid hisReady
  rw [Finset.erase_singleton] at o
  have hrunning : { t.setSlot r.slot (some b') with ready := t.ready ++ [r.slot] }.stateAt? t.current
      = some .running := by
    refine (stateAt?_setSlot t r.slot t.current (some b')).trans ?_
    rw [if_neg (Ne.symm h.slot_ne_current)]
    exact h.current_running
  have hscheduled : Scheduled { t.setSlot r.slot (some b') with ready := t.ready ++ [r.slot] } :=
    ⟨o, hrunning⟩
  refine Run.meets_lift_bind henqueue ?_
  refine (hscheduled.addChild_meets r.pid).bind fun t' ⟨h', htimed'⟩ => ?_
  refine Run.meets_log_bind (Run.meets_pure ⟨h', fun now htimed => htimed' now ?_⟩)
  have hset : Timed now (t.setSlot r.slot (some b')) := htimed.setSlot hb (hb' ▸ rfl) (hb' ▸ rfl)
  exact hset.congr rfl rfl

/-- **Faults of an activation**: there is no place on the stack to start at, because an address
overflows. -/
def StackFault (stack : Stack) (e : Fault) : Prop :=
  ¬ Usable stack ∧ ∃ operation, e = .overflow operation

/-- A reservation becomes a process, unless its stack is of no use; and then it faults by an
overflow. -/
theorem Reserved.activate_cases (h : Reserved r t) (stack : Stack) (entry : ε) (entryPoint : UInt32) :
    (t.activate r stack entry entryPoint).Meets (StackFault stack) fun t' =>
      Scheduled t' ∧ ∀ now, Timed now t → Timed now t' := by
  by_cases hstack : Usable stack
  case pos => exact h.activate_meets hstack entry entryPoint
  case neg =>
  obtain ⟨b, hb, hnew⟩ := h.exists_block
  unfold activate
  simp only [hb, hnew, ne_eq, not_true_eq_false, if_false]
  cases htop : stack.top with
  | error e =>
      refine Run.meets_lift_bind_of_error ⟨hstack, .add, ?_⟩
      unfold Stack.top Checked.add32 at htop
      split at htop <;> cases htop
      rfl
  | ok top =>
      have hsub : Checked.sub32 top 4 = .error (.overflow .subtract) :=
        if_neg fun hroom => hstack ⟨top, htop, UInt32.le_iff_toNat_le.mpr hroom⟩
      simp only [hsub, Run.lift_ok, pure_bind]
      exact Run.meets_lift_bind_of_error ⟨hstack, .subtract, rfl⟩

/-- **A reservation is given up**, and the table is scheduled again. -/
theorem Reserved.abandon (h : Reserved r t) : Scheduled (t.abandon r) where
  toOrderly := Finset.erase_singleton r.slot ▸
    h.setSlot_none h.slot_ne_kernelSlot h.slot_ne_current h.slot_not_mem_ready
  current_running := by
    rw [ProcessTable.abandon, current_setSlot, stateAt?_setSlot, if_neg (Ne.symm h.slot_ne_current)]
    exact h.current_running

/-! ## Reclamation -/

/-- A child is taken off one list, or off none; neither states nor times change by that. -/
theorem Scheduled.removeChild (h : Scheduled t) (parent? : Option Pid) (child : Pid) :
    Scheduled (t.removeChild parent? child) ∧ (t.removeChild parent? child).current = t.current
      ∧ (t.removeChild parent? child).ready = t.ready
      ∧ ∀ now, Timed now t → Timed now (t.removeChild parent? child) := by
  unfold ProcessTable.removeChild
  cases parent?.bind t.slotOf? with
  | none => exact ⟨h, rfl, rfl, fun _ => id⟩
  | some slot =>
      simp only [modifySlot]
      cases hb : t.block? slot with
      | none =>
          have hcurrent : slot ≠ t.current := by
            rintro rfl
            have hocc := h.occupied
            rw [hb] at hocc
            cases hocc
          have hnone : t.stateAt? slot = none := by
            rw [stateAt?, hb]
            rfl
          have hkernel : slot ≠ kernelSlot :=
            h.ne_kernelSlot_of_stateAt? (by simp [hnone]) (by simp [hnone])
          exact ⟨h.setSlot_none hkernel hcurrent (h.not_mem_ready (by simp [hnone])), rfl, rfl,
            fun now htimed => htimed.setSlot_none slot⟩
      | some b =>
          exact ⟨h.setSlot_same hb rfl rfl, rfl, rfl, fun now htimed => htimed.setSlot hb rfl rfl⟩

/-- **A slot is reclaimed**, if its process is terminated, which then neither runs nor is queued. -/
theorem Scheduled.reapSlot (h : Scheduled t) (hs : s ≠ kernelSlot) (hreap : t.reapSlot s = some t') :
    Scheduled t' ∧ ∀ now, Timed now t → Timed now t' := by
  unfold ProcessTable.reapSlot at hreap
  split at hreap
  · cases hreap
  case isFalse hcurrent =>
  cases hb : t.block? s with
  | none =>
      rw [hb] at hreap
      cases hreap
  | some b =>
      simp only [hb] at hreap
      split at hreap
      case isFalse => cases hreap
      case isTrue hdead =>
      obtain rfl := Option.some.inj hreap
      obtain ⟨h', hcurrent', hready', htimed'⟩ := h.removeChild b.parent? b.pid
      have hstate := stateAt?_of_block? hb
      rw [hdead] at hstate
      have hready : s ∉ t.ready := h.not_mem_ready (by simp [hstate])
      refine ⟨h'.setSlot_none hs ?_ ?_, fun now htimed => (htimed' now htimed).setSlot_none s⟩
      · rwa [hcurrent']
      · rwa [hready']

theorem Scheduled.reapSlots (h : Scheduled t) {slots : List Slot} (hslots : ∀ s ∈ slots, s ≠ kernelSlot)
    (count : Nat) : Scheduled (t.reapSlots count slots).2
      ∧ ∀ now, Timed now t → Timed now (t.reapSlots count slots).2 := by
  induction slots generalizing t count with
  | nil => exact ⟨h, fun _ => id⟩
  | cons s rest ih =>
      obtain ⟨hs, hrest⟩ := List.forall_mem_cons.mp hslots
      rw [ProcessTable.reapSlots]
      cases hreap : t.reapSlot s with
      | none => exact ih h hrest count
      | some t' =>
          obtain ⟨h', htimed'⟩ := h.reapSlot hs hreap
          obtain ⟨h'', htimed''⟩ := ih h' hrest (count + 1)
          exact ⟨h'', fun now htimed => htimed'' now (htimed' now htimed)⟩

/-- **Reclamation** empties slots of dead processes, and leaves the schedule as it is.  The current
process runs, and is not among them. -/
theorem Scheduled.reap_meets (h : Scheduled t) :
    t.reap.Meets admits fun (_, t') => Scheduled t' ∧ ∀ now, Timed now t → Timed now t' := by
  have hslots : ∀ s ∈ allSlots.filter (· ≠ kernelSlot), s ≠ kernelSlot := fun s hs =>
    of_decide_eq_true (List.mem_filter.mp hs).2
  have hreaped := h.reapSlots hslots 0
  unfold reap
  generalize t.reapSlots 0 (allSlots.filter (· ≠ kernelSlot)) = reaped at hreaped
  dsimp only
  split
  · exact Run.meets_log_bind (Run.meets_pure hreaped)
  · exact Run.meets_pure hreaped

/-- The entry of the running process is handed out, and the schedule is not concerned. -/
theorem Scheduled.takeEntry (h : Scheduled t) :
    Scheduled t.takeEntry.2 ∧ ∀ now, Timed now t → Timed now t.takeEntry.2 := by
  unfold ProcessTable.takeEntry
  obtain ⟨b, hb⟩ := Option.isSome_iff_exists.mp h.occupied
  simp only [hb]
  exact ⟨h.setSlot_same hb rfl rfl, fun now htimed => htimed.setSlot hb rfl rfl⟩

end ProcessTable

end TinyKernel
