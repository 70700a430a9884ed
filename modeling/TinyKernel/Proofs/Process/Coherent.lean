import TinyKernel.Proofs.Process.Keeps

/-!
# Tables whose operations are called in any order

The operations of a process table can be called in any order, also where nothing is dispatched after
the current process has ended or blocked.  Then it may be that nobody runs, that the current process
is ready, and that a slot is queued more than once.  `Coherent` is what holds all the same, and what
an operation does to such a table is said here once.

## What is load-bearing

Nobody who is terminated is queued.  This is the only thing that the queue promises in any order, and
all that keeps a terminated process from being dispatched.

* `ProcessTable.Coherent` — what holds in any order
* `ProcessTable.ended` — the table after a process ended
* `ProcessTable.Coherent.exitCurrent_cases`, `ProcessTable.kill_cases`,
  `ProcessTable.Coherent.blockCurrent_cases`, `ProcessTable.unblock_cases`,
  `ProcessTable.Coherent.schedule_cases`, `ProcessTable.reapSlot_cases`,
  `ProcessTable.activate_started` — what the operations do
-/

namespace TinyKernel

namespace ControlBlock

variable {ε : Type}

/-- **A process takes note of a child**, as long as it has room for more.  A child that finds no room
is not noted later either. -/
def noting (b : ControlBlock ε) (child : Pid) : ControlBlock ε :=
  { b with children :=
      if b.children.length < maxChildren then b.children ++ [child] else b.children }

/-- **The process without a child**, if it is the parent of that; everybody else stays as they are. -/
def without (b : ControlBlock ε) (parent? : Option Pid) (child : Pid) : ControlBlock ε :=
  { b with children :=
      if parent? = some b.pid then b.children.filter (· ≠ child) else b.children }

end ControlBlock

namespace ProcessTable

variable {ε : Type} {t t' : ProcessTable ε} {s s' : Slot} {b b' : ControlBlock ε} {held : Finset Slot}
  {admits : Fault → Prop}

/-- A slot in which nothing changes, written with what it holds. -/
@[simp]
theorem setSlot_block? (t : ProcessTable ε) (s : Slot) : t.setSlot s (t.block? s) = t := by
  simp only [ProcessTable.setSlot, block?, Fin.getElem_fin, Vector.set_getElem_self]

/-- Who is in a slot after a slot was written: what was written, or who was there before. -/
theorem of_block?_setSlot {b? : Option (ControlBlock ε)} (hb : (t.setSlot s b?).block? s' = some b') :
    s' = s ∧ b? = some b' ∨ s' ≠ s ∧ t.block? s' = some b' := by
  rw [block?_setSlot] at hb
  split at hb
  case isTrue heq => exact Or.inl ⟨heq, hb⟩
  case isFalse hne => exact Or.inr ⟨hne, hb⟩

/-- **What holds of a table in any order of calls.**  It says less than `Scheduled`: a slot can be
queued twice, and the current process can be in any state.  Those who call in no particular order get
this much. -/
structure Coherent (t : ProcessTable ε) : Prop where
  occupied : (t.block? t.current).isSome
  pid_inj : ∀ s s' p, t.pidAt? s = some p → t.pidAt? s' = some p → s = s'
  pid_lt : ∀ s p, t.pidAt? s = some p → p.val < t.nextPid
  /-- Whoever is queued can still run. -/
  alive : ∀ s ∈ t.ready, ∃ b, t.block? s = some b ∧ b.state ≠ .terminated

theorem Orderly.coherent (o : Orderly held t) : Coherent t where
  occupied := o.occupied
  pid_inj := o.pid_inj
  pid_lt := o.pid_lt
  alive s hs := by
    obtain ⟨b, hb, hstate⟩ := Option.map_eq_some_iff.mp ((o.mem_ready s).mp hs)
    exact ⟨b, hb, by simp [hstate]⟩

namespace Coherent

/-- Anybody can be queued who can still run, in any order and any number of times. -/
theorem requeue (c : Coherent t) {ready : List Slot}
    (alive : ∀ s ∈ ready, ∃ b, t.block? s = some b ∧ b.state ≠ .terminated) :
    Coherent { t with ready } :=
  ⟨c.occupied, c.pid_inj, c.pid_lt, alive⟩

theorem moveTo (c : Coherent t) {next : Slot} (hnext : (t.block? next).isSome) :
    Coherent { t with current := next } :=
  ⟨hnext, c.pid_inj, c.pid_lt, c.alive⟩

/-- **A process changes**, and can still run if it is queued.  It keeps its pid, by which all others
are told from it. -/
theorem setSlot (c : Coherent t) (hb : t.block? s = some b) (pid_eq : b'.pid = b.pid)
    (alive : s ∈ t.ready → b'.state ≠ .terminated) : Coherent (t.setSlot s (some b')) := by
  have hpid := pidAt?_setSlot_same hb pid_eq
  refine ⟨?_, fun s₁ s₂ p h₁ h₂ => ?_, fun s₁ p h₁ => ?_, fun s₁ h₁ => ?_⟩
  · rw [current_setSlot, block?_setSlot]
    split
    · rfl
    · exact c.occupied
  · rw [hpid] at h₁ h₂
    exact c.pid_inj s₁ s₂ p h₁ h₂
  · rw [hpid] at h₁
    exact c.pid_lt s₁ p h₁
  · rw [block?_setSlot]
    split
    case isTrue heq => exact ⟨b', rfl, alive (heq ▸ h₁)⟩
    case isFalse => exact c.alive s₁ h₁

/-- A process changes, and can still run if it could before.  Then the queue need not be looked at. -/
theorem setSlot_alive (c : Coherent t) (hb : t.block? s = some b) (pid_eq : b'.pid = b.pid)
    (alive : b'.state = .terminated → b.state = .terminated) : Coherent (t.setSlot s (some b')) := by
  refine c.setSlot hb pid_eq fun hs hdead => ?_
  obtain ⟨b₀, hb₀, hstate⟩ := c.alive s hs
  obtain rfl := Option.some.inj (hb.symm.trans hb₀)
  exact hstate (alive hdead)

/-- **A process leaves the table**, which neither is the current one nor is queued. -/
theorem setSlot_none (c : Coherent t) (hs : s ≠ t.current) (hready : s ∉ t.ready) :
    Coherent (t.setSlot s none) := by
  have hpid : ∀ s' p, (t.setSlot s none).pidAt? s' = some p → t.pidAt? s' = some p := by
    intro s' p hp
    rw [pidAt?_setSlot] at hp
    split at hp
    · cases hp
    · exact hp
  refine ⟨?_, fun s₁ s₂ p h₁ h₂ => ?_, fun s₁ p h₁ => ?_, fun s₁ h₁ => ?_⟩
  · rw [current_setSlot, block?_setSlot, if_neg (Ne.symm hs)]
    exact c.occupied
  · exact c.pid_inj s₁ s₂ p (hpid s₁ p h₁) (hpid s₂ p h₂)
  · exact c.pid_lt s₁ p (hpid s₁ p h₁)
  · have hne : s₁ ≠ s := fun heq => hready (heq ▸ h₁)
    rw [block?_setSlot, if_neg hne]
    exact c.alive s₁ h₁

/-- Whoever is terminated is not queued, and so is not dispatched again. -/
theorem not_mem_ready (c : Coherent t) (hb : t.block? s = some b) (hdead : b.state = .terminated) :
    s ∉ t.ready := by
  intro hs
  obtain ⟨b', hb', hstate⟩ := c.alive s hs
  obtain rfl := Option.some.inj (hb.symm.trans hb')
  exact hstate hdead

/-- A pid is handed out.  It must not be the last of its word, since the counter would start again. -/
theorem nextPid (c : Coherent t) (hfits : t.nextPid.toNat + 1 < 2 ^ 32) :
    Coherent { t with nextPid := t.nextPid + 1 } :=
  ⟨c.occupied, c.pid_inj, fun s p hp => UInt32.lt_trans (c.pid_lt s p hp) (nextPid_lt hfits),
    c.alive⟩

/-- Whoever is in the table is not in a free slot, so a process that is new replaces nobody. -/
theorem ne_of_block? (hb : t.block? s = some b) (hfree : t.block? s' = none) : s ≠ s' := by
  rintro rfl
  cases hfree.symm.trans hb

/-- **A process is new**, in a free slot and with the next pid, which nobody has. -/
theorem arrive (c : Coherent t) (hfree : t.block? s = none) (hfits : t.nextPid.toNat + 1 < 2 ^ 32)
    (hpid : b.pid = ⟨t.nextPid⟩) :
    Coherent ({ t with nextPid := t.nextPid + 1 }.setSlot s (some b)) := by
  obtain ⟨hpid_inj, hpid_lt⟩ := pids_arrive c.pid_inj c.pid_lt hfits hpid (s := s) rfl
  refine ⟨?_, hpid_inj, hpid_lt, fun s₁ h₁ => ?_⟩
  · rw [current_setSlot, block?_setSlot]
    split
    · rfl
    · exact c.occupied
  · obtain ⟨b₁, hb₁, hstate⟩ := c.alive s₁ h₁
    exact ⟨b₁, (block?_setSlot ..).trans ((if_neg (ne_of_block? hb₁ hfree)).trans hb₁), hstate⟩

end Coherent

/-! ## Looking at the table -/

theorem mem_list {p : ProcessInfo} : p ∈ t.list ↔ ∃ s b, t.block? s = some b ∧ b.info = p := by
  simp only [list, List.mem_map, mem_blocks]
  constructor
  · rintro ⟨b, ⟨s, hb⟩, rfl⟩
    exact ⟨s, b, hb, rfl⟩
  · rintro ⟨s, b, hb, rfl⟩
    exact ⟨b, ⟨s, hb⟩, rfl⟩

/-- Nobody is found where nobody has the pid. -/
theorem find?_eq_none {pid : Pid} (hnone : ∀ s b, t.block? s = some b → b.pid ≠ pid) :
    t.find? pid = none := by
  have hslot : t.slotOf? pid = none := by
    refine List.find?_eq_none.mpr fun s _ hs => ?_
    rw [Option.any_eq_true] at hs
    obtain ⟨b, hb, hpid⟩ := hs
    exact hnone s b hb (eq_of_beq hpid)
  rw [find?, hslot]
  rfl

/-- Whoever is found has the pid.  This needs no invariant: a lookup compares the pid of every slot. -/
theorem of_find?_eq_some {pid : Pid} {p : ProcessInfo} (hp : t.find? pid = some p) :
    ∃ s b, t.block? s = some b ∧ b.pid = pid ∧ b.info = p := by
  obtain ⟨b, hb, hinfo⟩ := Option.map_eq_some_iff.mp hp
  obtain ⟨s, hs, hb⟩ := Option.bind_eq_some_iff.mp hb
  obtain ⟨b', hb', hpid⟩ := slotOf?_eq_some hs
  obtain rfl := Option.some.inj (hb.symm.trans hb')
  exact ⟨s, b, hb, hpid, hinfo⟩

/-- **Whoever is in the table is found** by the pid, and with the own particulars, as no other slot has
that pid. -/
theorem Coherent.find?_eq_info (c : Coherent t) (hb : t.block? s = some b) :
    t.find? b.pid = some b.info := by
  cases hfind : t.find? b.pid with
  | none =>
      exfalso
      rw [find?, Option.map_eq_none_iff, Option.bind_eq_none_iff] at hfind
      cases hslot : t.slotOf? b.pid with
      | none => simpa [hb] using List.find?_eq_none.mp hslot s (List.mem_finRange s)
      | some s' =>
          obtain ⟨b', hb', -⟩ := slotOf?_eq_some hslot
          cases (hfind s' hslot).symm.trans hb'
  | some p =>
      obtain ⟨s', b', hb', hpid, rfl⟩ := of_find?_eq_some hfind
      obtain rfl := c.pid_inj s' s b.pid ((pidAt?_of_block? hb').trans (congrArg some hpid))
        (pidAt?_of_block? hb)
      obtain rfl := Option.some.inj (hb.symm.trans hb')
      rfl

/-- **A lookup shows the table**: a pid is found, and with which particulars, exactly if a process in
some slot has that pid and those particulars.  It does not matter whether the process is alive. -/
theorem Coherent.find?_eq_some_iff (c : Coherent t) {pid : Pid} {p : ProcessInfo} :
    t.find? pid = some p ↔ ∃ s b, t.block? s = some b ∧ b.pid = pid ∧ b.info = p := by
  constructor
  · intro hp
    exact of_find?_eq_some hp
  · rintro ⟨s, b, hb, rfl, rfl⟩
    exact c.find?_eq_info hb

/-- **Faults of calls in any order**: a number does not fit its word, or the queue has no place left.
The latter can happen because a slot may be queued more than once. -/
def OrderFault (e : Fault) : Prop := (∃ operation, e = .overflow operation) ∨ e = .readyQueueFull

/-- **Faults of a dispatch** in any order of calls: the time of the current process does not fit its
word, or the queue has no place left.  It says which time is too large, so that a client with a clock
can exclude it. -/
def ChargeFault (now : Nat) (t : ProcessTable ε) (e : Fault) : Prop :=
  (e = .overflow .add ∧ ∃ b, t.block? t.current = some b
    ∧ 2 ^ 64 ≤ b.cpuTime + (now - b.dispatchedAt)) ∨ e = .readyQueueFull

theorem ChargeFault.orderFault {now : Nat} {e : Fault} (h : ChargeFault now t e) : OrderFault e :=
  h.imp_left fun h => ⟨.add, h.1⟩

theorem enqueue_cases (t : ProcessTable ε) (s : Slot) :
    t.enqueue s = .error .readyQueueFull ∨ t.enqueue s = .ok { t with ready := t.ready ++ [s] } := by
  unfold enqueue
  split
  · exact Or.inr rfl
  · exact Or.inl rfl

/-! ## The end of a process -/

/-- **The table after a process ended**, which leaves its stack and its entry behind.  It is the same
for an exit and a kill, but for the code. -/
def ended (t : ProcessTable ε) (s : Slot) (b : ControlBlock ε) (code : Int32) : ProcessTable ε :=
  { t with ready := t.ready.filter (· ≠ s) }.setSlot s (some
    { b with state := .terminated, exitCode? := some code, stack? := none, pending? := none })

theorem terminate_meets (hb : t.block? s = some b) (code : Int32) :
    (t.terminate s code).Meets admits
      (· = (⟨b.stack?, b.pending?⟩, t.ended s b code)) := by
  unfold terminate
  simp only [show { t with ready := t.ready.filter (· ≠ s) }.block? s = some b from hb]
  exact Run.meets_log_bind (Run.meets_pure rfl)

/-- **The running process ends**, unless its slot is that of the kernel's own.  Its state before makes
no difference, even if it is terminated. -/
theorem Coherent.exitCurrent_cases (c : Coherent t) (code : Int32) :
    (t.exitCurrent code).Meets admits fun (result, t') =>
      match result with
      | .error _ => t.current = kernelSlot ∧ t' = t
      | .ok remains => t.current ≠ kernelSlot ∧ ∃ b, t.block? t.current = some b
          ∧ remains = ⟨b.stack?, b.pending?⟩ ∧ t' = t.ended t.current b code := by
  unfold exitCurrent
  split
  case isTrue hkernel => exact Run.meets_pure ⟨hkernel, rfl⟩
  case isFalse hkernel =>
    obtain ⟨b, hb⟩ := Option.isSome_iff_exists.mp c.occupied
    refine (terminate_meets hb code).bind ?_
    rintro _ rfl
    exact Run.meets_pure ⟨hkernel, b, hb, rfl, rfl⟩

/-- **A process is killed**, unless it is terminated or the kernel's own.  The answer says whether it
was the current one, so that the caller knows when to dispatch. -/
theorem kill_cases (t : ProcessTable ε) (pid : Pid) :
    (t.kill pid).Meets admits fun (result, t') =>
      match result with
      | .error _ => t' = t ∧ (pid = .kernel ∨ t.slotOf? pid = none
          ∨ ∃ s b, t.block? s = some b ∧ b.pid = pid ∧ b.state = .terminated)
      | .ok (remains, wasCurrent) => pid ≠ .kernel ∧ ∃ s b, t.block? s = some b ∧ b.pid = pid
          ∧ b.state ≠ .terminated ∧ remains = ⟨b.stack?, b.pending?⟩
          ∧ wasCurrent = (s == t.current) ∧ t' = t.ended s b killedExitCode := by
  unfold kill
  split
  case isTrue hkernel => exact Run.meets_pure ⟨rfl, Or.inl hkernel⟩
  case isFalse hkernel =>
  cases hslot : t.slotOf? pid with
  | none => exact Run.meets_pure ⟨rfl, Or.inr (Or.inl rfl)⟩
  | some slot =>
      obtain ⟨b, hb, hpid⟩ := slotOf?_eq_some hslot
      simp only [hb, Option.any_some, decide_eq_true_eq]
      split
      case isTrue hstate => exact Run.meets_pure ⟨rfl, Or.inr (Or.inr ⟨slot, b, hb, hpid, hstate⟩)⟩
      case isFalse hstate =>
        refine (terminate_meets hb killedExitCode).bind ?_
        rintro _ rfl
        exact Run.meets_pure ⟨hkernel, slot, b, hb, hpid, hstate, rfl, rfl, rfl⟩

/-- **A slot is emptied** if its process is terminated and not the current one, whose stack may still
be in use. -/
theorem reapSlot_cases (hreap : t.reapSlot s = some t') :
    s ≠ t.current ∧ ∃ b, t.block? s = some b ∧ b.state = .terminated
      ∧ t' = (t.removeChild b.parent? b.pid).setSlot s none := by
  unfold reapSlot at hreap
  split at hreap
  case isTrue => cases hreap
  case isFalse hcurrent =>
  cases hb : t.block? s with
  | none =>
      rw [hb] at hreap
      cases hreap
  | some b =>
      simp only [hb] at hreap
      split at hreap
      case isTrue hdead => exact ⟨hcurrent, b, rfl, hdead, (Option.some.inj hreap).symm⟩
      case isFalse => cases hreap

/-- A child is taken off the list of one process, or nothing happens.  This is enough where only the
shape of the change matters. -/
theorem removeChild_cases (t : ProcessTable ε) (parent? : Option Pid) (child : Pid) :
    t.removeChild parent? child = t ∨ ∃ s b children, t.block? s = some b
      ∧ t.removeChild parent? child = t.setSlot s (some { b with children }) := by
  unfold removeChild
  cases hparent : parent?.bind t.slotOf? with
  | none => exact Or.inl rfl
  | some slot =>
      obtain ⟨pid, -, hslot⟩ := Option.bind_eq_some_iff.mp hparent
      obtain ⟨b, hb, -⟩ := slotOf?_eq_some hslot
      refine Or.inr ⟨slot, b, b.children.filter (· ≠ child), hb, ?_⟩
      simp only [modifySlot, hb, Option.map_some]

/-- **A child is taken off the list** of the process that is its parent, if that is in the table.  No
two have the pid of the parent, so it does not matter which is found first. -/
theorem Coherent.block?_removeChild (c : Coherent t) (parent? : Option Pid) (child : Pid) (s : Slot) :
    (t.removeChild parent? child).block? s = (t.block? s).map fun b => b.without parent? child := by
  have hother : ∀ s, (∀ b, t.block? s = some b → parent? ≠ some b.pid) →
      (t.block? s).map (fun b => b.without parent? child) = t.block? s := by
    intro s hs
    cases hb : t.block? s with
    | none => rfl
    | some b => rw [Option.map_some, ControlBlock.without, if_neg (hs b hb)]
  unfold removeChild
  cases hparent : parent?.bind t.slotOf? with
  | none =>
      refine (hother s fun b hb heq => ?_).symm
      rw [heq, Option.bind_some] at hparent
      have hnot := List.find?_eq_none.mp hparent s (List.mem_finRange s)
      simp [hb] at hnot
  | some slot =>
      obtain ⟨pid, rfl, hslot⟩ := Option.bind_eq_some_iff.mp hparent
      obtain ⟨parent, hb, hpid⟩ := slotOf?_eq_some hslot
      dsimp only
      rw [block?_modifySlot]
      split
      case isTrue heq =>
        subst heq
        rw [hb, Option.map_some, Option.map_some, ControlBlock.without, if_pos (congrArg some hpid.symm)]
      case isFalse hne =>
        refine (hother s fun b hb' heq => hne ?_).symm
        obtain rfl := Option.some.inj heq
        exact c.pid_inj s slot b.pid (pidAt?_of_block? hb') ((pidAt?_of_block? hb).trans
          (congrArg some hpid))

/-! ## Waiting -/

/-- **The running process blocks**, unless its slot is that of the kernel's own.  Its state before
makes no difference, and the queue stays as it is. -/
theorem Coherent.blockCurrent_cases (c : Coherent t) :
    t.blockCurrent.Meets admits fun (result, t') =>
      match result with
      | .error _ => t.current = kernelSlot ∧ t' = t
      | .ok () => t.current ≠ kernelSlot ∧ ∃ b, t.block? t.current = some b
          ∧ t' = t.setSlot t.current (some { b with state := .blocked }) := by
  unfold blockCurrent
  split
  case isTrue hkernel => exact Run.meets_pure ⟨hkernel, rfl⟩
  case isFalse hkernel =>
    obtain ⟨b, hb⟩ := Option.isSome_iff_exists.mp c.occupied
    simp only [hb]
    exact Run.meets_log_bind (Run.meets_pure ⟨hkernel, b, rfl, rfl⟩)

/-- **A blocked process becomes ready**, and nothing else happens to any other.  It is queued at the
end, whether or not it was queued already. -/
theorem unblock_cases (t : ProcessTable ε) (pid : Pid) :
    (∃ cause, t.unblock pid = .ok (.error cause, t))
      ∨ ∃ s b, t.block? s = some b ∧ b.pid = pid ∧ b.state = .blocked
        ∧ (t.unblock pid = .error .readyQueueFull
          ∨ t.unblock pid = .ok (.ok (),
            { t.setSlot s (some { b with state := .ready }) with ready := t.ready ++ [s] })) := by
  unfold unblock
  cases hslot : t.slotOf? pid with
  | none => exact Or.inl ⟨_, rfl⟩
  | some slot =>
      obtain ⟨b, hb, hpid⟩ := slotOf?_eq_some hslot
      simp only [hb]
      split
      case isFalse => exact Or.inl ⟨_, rfl⟩
      case isTrue hblocked =>
        refine Or.inr ⟨slot, b, hb, hpid, hblocked, ?_⟩
        rcases (t.setSlot slot (some { b with state := .ready })).enqueue_cases slot with
          henqueue | henqueue
        · rw [henqueue]
          exact Or.inl rfl
        · rw [henqueue]
          exact Or.inr rfl

/-- The entry of the current process is handed out, and is gone then. -/
theorem takeEntry_eq (hb : t.block? t.current = some b) :
    t.takeEntry = (b.pending?, t.setSlot t.current (some { b with pending? := none })) := by
  rw [takeEntry, hb]

/-! ## Dispatch -/

/-- The table after the current process was charged, and queued if it can run on.  A process that is
blocked or over is charged as well. -/
def suspended (t : ProcessTable ε) (rest : List Slot) (outgoing : ControlBlock ε) (cpuTime : Nat) :
    ProcessTable ε :=
  if outgoing.state = .running then
    { t.setSlot t.current (some { outgoing with cpuTime, state := .ready }) with
      ready := rest ++ [t.current] }
  else
    { t.setSlot t.current (some { outgoing with cpuTime }) with ready := rest }

theorem suspend_cases (rest : List Slot) {outgoing : ControlBlock ε}
    (hout : t.block? t.current = some outgoing) (now : Nat) :
    (∃ e, ChargeFault now t e ∧ { t with ready := rest }.suspend now = .error e)
      ∨ { t with ready := rest }.suspend now = .ok (t.suspended rest outgoing
          (outgoing.cpuTime + (now - outgoing.dispatchedAt))) := by
  have hblock : { t with ready := rest }.block? t.current = some outgoing := hout
  unfold suspend
  simp only [hblock]
  by_cases hfits : outgoing.cpuTime + (now - outgoing.dispatchedAt) < 2 ^ 64
  case neg =>
    rw [show Checked.add64 outgoing.cpuTime (now - outgoing.dispatchedAt)
      = .error (.overflow .add) from if_neg hfits]
    exact Or.inl ⟨_, Or.inl ⟨rfl, outgoing, hout, Nat.not_lt.mp hfits⟩, rfl⟩
  case pos =>
  rw [Checked.bind_of_ok (Checked.add64_of_lt hfits)]
  by_cases hrunning : outgoing.state = .running
  case neg =>
    refine Or.inr ?_
    rw [if_neg hrunning, suspended, if_neg hrunning]
    rfl
  case pos =>
    rw [if_pos hrunning]
    rcases enqueue_cases ({ t with ready := rest }.setSlot t.current (some
      { outgoing with
        cpuTime := outgoing.cpuTime + (now - outgoing.dispatchedAt)
        state := .ready })) t.current with henqueue | henqueue
    · exact Or.inl ⟨_, Or.inr rfl, henqueue⟩
    · refine Or.inr ?_
      rw [suspended, if_pos hrunning]
      exact henqueue

/-- Charging a process leaves everybody in their slot, with their pid. -/
theorem block?_suspended (rest : List Slot) {outgoing : ControlBlock ε} (cpuTime : Nat)
    (hout : t.block? t.current = some outgoing) (hb : t.block? s = some b) :
    ∃ b', (t.suspended rest outgoing cpuTime).block? s = some b' ∧ b'.pid = b.pid := by
  have hset : ∀ c : ControlBlock ε, c.pid = outgoing.pid →
      ∃ b', (t.setSlot t.current (some c)).block? s = some b' ∧ b'.pid = b.pid := by
    intro c hc
    rw [block?_setSlot]
    split
    case isTrue heq =>
      obtain rfl := Option.some.inj (hout.symm.trans (heq ▸ hb))
      exact ⟨c, rfl, hc⟩
    case isFalse => exact ⟨b, hb, rfl⟩
  unfold suspended
  split
  · exact hset _ rfl
  · exact hset _ rfl

/-- **What a dispatch does** in any order of calls.  If nothing is queued, then nothing; otherwise the
current process is charged, and whoever is at the head of the queue runs, which may be the current
process itself. -/
theorem Coherent.schedule_cases (c : Coherent t) (now : Nat) :
    (t.schedule now).Meets (ChargeFault now t) fun (switch?, t') =>
      match switch? with
      | none => t.ready = [] ∧ t' = t
      | some w => ∃ next rest outgoing t₁ incoming, t.ready = next :: rest
          ∧ t.block? t.current = some outgoing
          ∧ t₁ = t.suspended rest outgoing (outgoing.cpuTime + (now - outgoing.dispatchedAt))
          ∧ t₁.block? next = some incoming
          ∧ w.fromSlot = t.current ∧ w.toPid = incoming.pid
          ∧ t' = { t₁.setSlot next (some
              { incoming with state := .running, dispatchedAt := now }) with current := next } := by
  unfold schedule
  cases hready : t.ready with
  | nil => exact Run.meets_pure ⟨rfl, rfl⟩
  | cons next rest =>
      obtain ⟨outgoing, hout⟩ := Option.isSome_iff_exists.mp c.occupied
      obtain ⟨queued, hqueued, -⟩ := c.alive next (by simp [hready])
      rcases suspend_cases rest hout now with ⟨e, he, hsuspend⟩ | hsuspend
      · simp only [hsuspend]
        exact Run.meets_lift_bind_of_error he
      obtain ⟨t₁, ht₁⟩ : ∃ t₁, t₁ = t.suspended rest outgoing
        (outgoing.cpuTime + (now - outgoing.dispatchedAt)) := ⟨_, rfl⟩
      obtain ⟨incoming, hin, -⟩ := block?_suspended rest _ hout hqueued
      obtain ⟨left, hleft, -⟩ := block?_suspended rest _ hout hout
      rw [← ht₁] at hsuspend hin hleft
      refine Run.meets_lift_bind hsuspend ?_
      simp only [hin]
      -- the process that makes way is in the table, whether or not it is the one that runs next
      obtain ⟨previous, hprevious⟩ : ∃ previous, { t₁.setSlot next
          (some { incoming with state := .running, dispatchedAt := now }) with
            current := next }.block? t.current = some previous := by
        show ∃ previous, (t₁.setSlot next _).block? t.current = some previous
        rw [block?_setSlot]
        split
        · exact ⟨_, rfl⟩
        · exact ⟨left, hleft⟩
      simp only [hprevious]
      exact Run.meets_log_bind (Run.meets_pure ⟨next, rest, outgoing, t₁, incoming, rfl, hout, ht₁,
        hin, rfl, rfl, rfl⟩)

/-! ## Creation -/

/-- The table in which the current process has taken note of a child.  Whether it had room is a matter
of `noting`. -/
def noted (t : ProcessTable ε) (pid : Pid) : ProcessTable ε :=
  t.modifySlot t.current fun b => b.noting pid

theorem addChild_meets (t : ProcessTable ε) (pid : Pid) :
    (t.addChild pid).Meets admits (· = t.noted pid) := by
  unfold addChild noted modifySlot
  cases hparent : t.block? t.current with
  | none =>
      refine Run.meets_pure ?_
      rw [Option.map_none, ← hparent, setSlot_block?]
  | some parent =>
      dsimp only
      rw [Option.map_some, ControlBlock.noting]
      split
      · exact Run.meets_pure rfl
      · refine Run.meets_log_bind (Run.meets_pure ?_)
        rw [← hparent, setSlot_block?]

/-- The table after a process was given what it needs to run, and queued.  Its creator has not taken
note of it yet. -/
def started (t : ProcessTable ε) (s : Slot) (b : ControlBlock ε) (stack : Stack) (entry : ε)
    (entryPoint cr3 : UInt32) : ProcessTable ε :=
  { t.setSlot s (some { b with
      context := .forEntry entryPoint stack.initialPointer Context.initialFlags cr3
      stack? := some stack
      pending? := some entry
      state := .ready }) with ready := t.ready ++ [s] }

/-- **What activation does**, on whatever stack: a process starts, and its creator takes note.  Faults
are a place on the stack that does not fit its word, and a queue without a place. -/
theorem activate_started {r : Reservation} (hb : t.block? r.slot = some b) (hnew : b.state = .new)
    (stack : Stack) (entry : ε) (entryPoint : UInt32) :
    (t.activate r stack entry entryPoint).Meets OrderFault fun t' => ∃ cr3,
      t' = (t.started r.slot b stack entry entryPoint cr3).noted r.pid := by
  unfold activate
  simp only [hb, hnew, ne_eq, not_true_eq_false, if_false]
  cases htop : stack.top with
  | error e =>
      refine Run.meets_lift_bind_of_error (Or.inl ⟨.add, ?_⟩)
      unfold Stack.top Checked.add32 at htop
      split at htop <;> cases htop
      rfl
  | ok top =>
      simp only [Run.lift_ok, pure_bind]
      by_cases hroom : 4 ≤ top
      case neg =>
        rw [show Checked.sub32 top 4 = .error (.overflow .subtract) from if_neg hroom]
        exact Run.meets_lift_bind_of_error (Or.inl ⟨.subtract, rfl⟩)
      case pos =>
      refine Run.meets_lift_bind (Checked.sub32_of_le hroom) ?_
      rw [top_sub_four htop]
      generalize (t.block? t.current).elim 0 (fun creator => creator.context.cr3) = cr3
      rcases enqueue_cases (t.setSlot r.slot (some { b with
          context := .forEntry entryPoint stack.initialPointer Context.initialFlags cr3
          stack? := some stack
          pending? := some entry
          state := .ready })) r.slot with henqueue | henqueue
      · rw [henqueue]
        exact Run.meets_lift_bind_of_error (Or.inr rfl)
      · refine Run.meets_lift_bind henqueue ?_
        refine (addChild_meets _ r.pid).bind fun t' hchild => Run.meets_log_bind (Run.meets_pure ?_)
        exact ⟨cr3, hchild⟩

end ProcessTable

end TinyKernel
