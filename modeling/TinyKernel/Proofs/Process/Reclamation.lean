import TinyKernel.Proofs.Process.Kinship

/-!
# What reclamation leaves

Reclamation goes through the slots one by one.  It empties those of processes that are over, and each
time it looks up the parent by its pid and takes the child off that one's list.  So the lists change
while slots are emptied, and the parent may be gone by then, or be the next to go.  What is left
depends on none of this: the dead are gone, and so are their pids from the lists of all others, and
nothing else is different.

## What is load-bearing

A process is on no list but that of the parent that it names (`ProcessTable.Kindred.parent?_eq`).  That
is why it is enough to look at one list, and why nothing stays behind on that of another.

* `ProcessTable.deadPids` — who is going to be reclaimed
* `ProcessTable.Reaping` — the table after some slots were emptied
* `ProcessTable.Reclaims` — what is left of a table
* `ProcessTable.Scheduled.reap_reclaims` — reclamation leaves just that
* `ProcessTable.reap_nothing` — where nobody is dead, nothing changes
-/

namespace TinyKernel

/-- **A process without some of its children**, in the order in which the others were. -/
def ControlBlock.bereft {ε : Type} (b : ControlBlock ε) (dead : List Pid) : ControlBlock ε :=
  { b with children := b.children.filter (· ∉ dead) }

namespace ProcessTable

variable {ε : Type} {t t₀ t' : ProcessTable ε} {s s' : Slot} {b d : ControlBlock ε}
  {births : List Birth} {gone gone' slots : List Slot} {admits : Fault → Prop}

/-- **The pids of the processes that are over**, in slot order.  They are the ones that reclamation
takes off the lists. -/
def deadPids (t : ProcessTable ε) : List Pid :=
  (t.blocks.filter fun b => b.state = .terminated).map ControlBlock.pid

/-- **The slots of the processes that are over**, among some.  Reclamation goes through the slots and
empties those. -/
def deadAmong (t : ProcessTable ε) (slots : List Slot) : List Slot :=
  slots.filter fun s => t.stateAt? s = some .terminated

/-- The pids of the processes in some slots; a slot that is free adds none. -/
def pidsIn (t : ProcessTable ε) (slots : List Slot) : List Pid := slots.filterMap t.pidAt?

/-! ## Counting -/

/-- Processes are counted by their slots, so that counts can be related to what is done slot by
slot. -/
theorem count_eq_countP (t : ProcessTable ε) (state : ProcessState) :
    t.count state = allSlots.countP fun s => t.stateAt? s = some state := by
  rw [count, blocks, List.countP_filterMap]
  refine List.countP_congr fun s _ => ?_
  rw [stateAt?]
  cases t.block? s with
  | none => simp
  | some b => simp

theorem count_eq_zero_iff (t : ProcessTable ε) (state : ProcessState) :
    t.count state = 0 ↔ ∀ s, t.stateAt? s ≠ some state := by
  rw [count_eq_countP, List.countP_eq_zero]
  constructor
  · intro h s hs
    exact h s (List.mem_finRange s) (decide_eq_true hs)
  · intro h s _ hs
    exact h s (of_decide_eq_true hs)

theorem length_deadAmong (t : ProcessTable ε) :
    (t.deadAmong allSlots).length = t.count .terminated := by
  rw [count_eq_countP, List.countP_eq_length_filter]
  rfl

theorem mem_deadAmong_iff : s ∈ t.deadAmong slots ↔ s ∈ slots ∧ t.stateAt? s = some .terminated := by
  rw [deadAmong, List.mem_filter, decide_eq_true_iff]

/-- The kernel's own process is never over, and so it does not matter that its slot is left out. -/
theorem Scheduled.deadAmong_others (h : Scheduled t) :
    t.deadAmong (allSlots.filter (· ≠ kernelSlot)) = t.deadAmong allSlots := by
  rw [deadAmong, deadAmong, List.filter_filter]
  refine List.filter_congr fun s _ => ?_
  have hne : t.stateAt? s = some .terminated → s ≠ kernelSlot := by
    rintro hdead rfl
    rcases h.kernel_state with hstate | hstate <;> cases hstate.symm.trans hdead
  simpa using hne

theorem mem_deadPids_iff {pid : Pid} :
    pid ∈ t.deadPids ↔ ∃ s b, t.block? s = some b ∧ b.state = .terminated ∧ b.pid = pid := by
  rw [deadPids, List.mem_map]
  constructor
  · rintro ⟨b, hb, rfl⟩
    obtain ⟨hmem, hdead⟩ := List.mem_filter.mp hb
    obtain ⟨s, hs⟩ := mem_blocks.mp hmem
    exact ⟨s, b, hs, of_decide_eq_true hdead, rfl⟩
  · rintro ⟨s, b, hb, hdead, rfl⟩
    exact ⟨b, List.mem_filter.mpr ⟨mem_blocks.mpr ⟨s, hb⟩, decide_eq_true hdead⟩, rfl⟩

theorem exists_block?_of_stateAt? {state : ProcessState} (hs : t.stateAt? s = some state) :
    ∃ b, t.block? s = some b ∧ b.state = state :=
  Option.map_eq_some_iff.mp hs

/-! ## One slot -/

/-- **Whoever is on a list** names the one whose list it is.  So taking it off the list of its parent
takes it off all lists. -/
theorem Kindred.parent?_eq (k : Kindred births t) (c : Coherent t) (hb : t.block? s = some b)
    (hd : t.block? s' = some d) (hmem : d.pid ∈ b.children) : d.parent? = some b.pid := by
  obtain ⟨s'', g, hg, hpid, hparent⟩ := k.child s b.kin (kin?_of_block? hb) d.pid hmem
  obtain ⟨-, rfl⟩ := c.kin_inj hg (kin?_of_block? hd) hpid
  exact hparent

theorem reapSlot_eq_none (hs : t.stateAt? s ≠ some .terminated) : t.reapSlot s = none := by
  cases hreap : t.reapSlot s with
  | none => rfl
  | some t' =>
      obtain ⟨-, b, hb, hdead, -⟩ := reapSlot_cases hreap
      exact absurd (hdead ▸ stateAt?_of_block? hb) hs

theorem reapSlot_eq_some (hs : s ≠ t.current) (hb : t.block? s = some b)
    (hdead : b.state = .terminated) :
    t.reapSlot s = some ((t.removeChild b.parent? b.pid).setSlot s none) := by
  rw [reapSlot, if_neg hs, hb]
  exact if_pos hdead

theorem ready_removeChild (t : ProcessTable ε) (parent? : Option Pid) (child : Pid) :
    (t.removeChild parent? child).ready = t.ready := by
  rcases t.removeChild_cases parent? child with heq | ⟨s, b, children, -, heq⟩ <;> rw [heq]
  rfl

/-- A child more is taken off the list, if there it is.  The hypothesis says that it is on no other
list than that of its parent. -/
theorem without_bereft {parent? : Option Pid} {child : Pid} {dead : List Pid}
    (hparent : child ∈ b.children → parent? = some b.pid) :
    (b.bereft dead).without parent? child = b.bereft (child :: dead) := by
  have hfilter : (if parent? = some b.pid then (b.children.filter (· ∉ dead)).filter (· ≠ child)
      else b.children.filter (· ∉ dead)) = b.children.filter (· ∉ child :: dead) := by
    split
    case isTrue =>
      rw [List.filter_filter]
      refine List.filter_congr fun pid _ => ?_
      simp [List.mem_cons, not_or]
    case isFalse hnot =>
      -- it is not on this list, and so there is nothing to take off
      refine List.filter_congr fun pid hpid => ?_
      have hne : pid ≠ child := by
        rintro rfl
        exact hnot (hparent hpid)
      simp [hne]
  exact congrArg (fun children => { b with children }) hfilter

/-! ## Some slots -/

/-- **The table after some slots were emptied**: their processes are gone, and so are the pids of those
from all lists.  It compares with the table at the start, as the loop does not undo anything. -/
structure Reaping (t₀ : ProcessTable ε) (gone : List Slot) (t : ProcessTable ε) : Prop where
  coherent : Coherent t
  ready_eq : t.ready = t₀.ready
  current_eq : t.current = t₀.current
  nextPid_eq : t.nextPid = t₀.nextPid
  block?_eq : ∀ s, t.block? s =
    if s ∈ gone then none else (t₀.block? s).map fun b => b.bereft (t₀.pidsIn gone)

namespace Reaping

/-- At first none is, and the table is the one that there was. -/
theorem refl (c : Coherent t) : Reaping t [] t where
  coherent := c
  ready_eq := rfl
  current_eq := rfl
  nextPid_eq := rfl
  block?_eq s := by
    have hsame : ∀ b : ControlBlock ε, b.bereft (t.pidsIn []) = b := by
      intro b
      show { b with children := b.children.filter (· ∉ ([] : List Pid)) } = b
      rw [List.filter_eq_self.mpr fun _ _ => by simp]
    rw [if_neg List.not_mem_nil]
    simp only [hsame, Option.map_id']

/-- Whoever is alive is passed over, and the slot with it.  Emptied slots in between made no difference
to that. -/
theorem reapSlot_alive (r : Reaping t₀ gone t) (hs : t₀.stateAt? s ≠ some .terminated) :
    t.reapSlot s = none := by
  refine reapSlot_eq_none fun hdead => hs ?_
  obtain ⟨b, hb, hstate⟩ := exists_block?_of_stateAt? hdead
  rw [r.block?_eq] at hb
  split at hb
  · cases hb
  · obtain ⟨b₀, hb₀, rfl⟩ := Option.map_eq_some_iff.mp hb
    rw [stateAt?_of_block? hb₀]
    exact congrArg some hstate

/-- **Whoever is dead goes**, and is on no list any more.  Its slot is not the current one, and was not
emptied yet. -/
theorem reapSlot_dead (r : Reaping t₀ gone t) (c : Coherent t₀) (k : Kindred births t₀)
    (hcurrent : s ≠ t₀.current) (hs : s ∉ gone) (hd : t₀.block? s = some d)
    (hdead : d.state = .terminated) :
    ∃ t', t.reapSlot s = some t' ∧ Reaping t₀ (s :: gone) t' := by
  have hb : t.block? s = some (d.bereft (t₀.pidsIn gone)) := by
    rw [r.block?_eq, if_neg hs, hd]
    rfl
  have hne : s ≠ t.current := fun heq => hcurrent (heq.trans r.current_eq)
  have hpids : t₀.pidsIn (s :: gone) = d.pid :: t₀.pidsIn gone :=
    List.filterMap_cons_some (pidAt?_of_block? hd)
  have hchange : Change True t _ _ := .reclaimed hne hb hdead
  refine ⟨_, reapSlot_eq_some hne hb hdead, hchange.coherent r.coherent, ?_, ?_, ?_, fun s' => ?_⟩
  · exact (ready_removeChild ..).trans r.ready_eq
  · exact (current_removeChild ..).trans r.current_eq
  · exact (nextPid_removeChild ..).trans r.nextPid_eq
  · rw [r.coherent.block?_reclaimed, r.block?_eq, hpids]
    by_cases hsame : s' = s
    · rw [if_pos hsame, if_pos (hsame ▸ List.mem_cons_self)]
    rw [if_neg hsame]
    by_cases hgone : s' ∈ gone
    · rw [if_pos hgone, if_pos (List.mem_cons_of_mem _ hgone)]
      rfl
    rw [if_neg hgone, if_neg fun hmem => (List.mem_cons.mp hmem).elim hsame hgone, Option.map_map]
    refine Option.map_congr fun b hb' => ?_
    have hparent : d.pid ∈ b.children → d.parent? = some b.pid := k.parent?_eq c hb' hd
    exact without_bereft hparent

/-- **Slots are gone through**, by induction on the slots: the dead go, and are counted.  No slot comes
twice, so nobody is counted twice. -/
theorem reapSlots (r : Reaping t₀ gone t) (c : Coherent t₀) (k : Kindred births t₀)
    (hcurrent : t₀.stateAt? t₀.current ≠ some .terminated) (hnodup : slots.Nodup)
    (hnew : ∀ s ∈ slots, s ∉ gone) (count : Nat) :
    (t.reapSlots count slots).1 = count + (t₀.deadAmong slots).length
      ∧ Reaping t₀ ((t₀.deadAmong slots).reverse ++ gone) (t.reapSlots count slots).2 := by
  induction slots generalizing t gone count with
  | nil => exact ⟨rfl, r⟩
  | cons s rest ih =>
      obtain ⟨hnot, hnodup⟩ := List.nodup_cons.mp hnodup
      obtain ⟨hs, hrest⟩ := List.forall_mem_cons.mp hnew
      rw [ProcessTable.reapSlots]
      by_cases hdead : t₀.stateAt? s = some .terminated
      case neg =>
        rw [r.reapSlot_alive hdead, deadAmong, List.filter_cons_of_neg (by simpa using hdead)]
        exact ih r hnodup hrest count
      case pos =>
        obtain ⟨d, hd, hstate⟩ := exists_block?_of_stateAt? hdead
        have hne : s ≠ t₀.current := by
          rintro rfl
          exact hcurrent hdead
        obtain ⟨t₁, hreap, r₁⟩ := r.reapSlot_dead c k hne hs hd hstate
        have hrest₁ : ∀ s' ∈ rest, s' ∉ s :: gone := by
          intro s' hs' hmem
          rcases List.mem_cons.mp hmem with rfl | hmem
          · exact hnot hs'
          · exact hrest s' hs' hmem
        obtain ⟨hcount, r'⟩ := ih r₁ hnodup hrest₁ (count + 1)
        rw [hreap, deadAmong, List.filter_cons_of_pos (by simpa using hdead), List.length_cons,
          List.reverse_cons, List.append_assoc, List.singleton_append]
        exact ⟨hcount.trans (Nat.add_right_comm count 1 _), r'⟩

end Reaping

/-! ## All slots -/

/-- **What is left of a table** when the dead are gone.  Queue, current process and pids are the same,
and so is every process that is left, but for the reclaimed among its children.  Every slot falls under
one of the last three fields. -/
structure Reclaims (t : ProcessTable ε) (count : Nat) (t' : ProcessTable ε) : Prop where
  count_eq : count = t.count .terminated
  ready_eq : t'.ready = t.ready
  current_eq : t'.current = t.current
  nextPid_eq : t'.nextPid = t.nextPid
  dead : ∀ s b, t.block? s = some b → b.state = .terminated → t'.block? s = none
  alive : ∀ s b, t.block? s = some b → b.state ≠ .terminated →
    t'.block? s = some (b.bereft t.deadPids)
  free : ∀ s, t.block? s = none → t'.block? s = none

namespace Reclaims

variable {count : Nat}

/-- Nobody is left who is dead, so a second reclamation finds nothing. -/
theorem count_terminated (h : t.Reclaims count t') : t'.count .terminated = 0 := by
  rw [count_eq_zero_iff]
  intro s hs
  obtain ⟨b', hb', hdead⟩ := exists_block?_of_stateAt? hs
  cases hb : t.block? s with
  | none => cases (h.free s hb).symm.trans hb'
  | some b =>
      by_cases hstate : b.state = .terminated
      · cases (h.dead s b hb hstate).symm.trans hb'
      · obtain rfl := Option.some.inj ((h.alive s b hb hstate).symm.trans hb')
        exact hstate hdead

/-- Whoever is alive keeps the pid, and the slot. -/
theorem pidAt?_eq (h : t.Reclaims count t') (hs : t.stateAt? s ≠ some .terminated) :
    t'.pidAt? s = t.pidAt? s := by
  cases hb : t.block? s with
  | none => rw [pidAt?, pidAt?, h.free s hb, hb]
  | some b =>
      have hstate : b.state ≠ .terminated := fun hdead => hs (hdead ▸ stateAt?_of_block? hb)
      rw [pidAt?_of_block? hb, pidAt?_of_block? (h.alive s b hb hstate)]
      rfl

end Reclaims

/-- **Once all the dead are gone**, this is what is left.  It does not matter in which order they
went. -/
theorem Reaping.reclaims (r : Reaping t gone t')
    (hgone : ∀ s, s ∈ gone ↔ t.stateAt? s = some .terminated) :
    t.Reclaims (t.count .terminated) t' := by
  have hpids : ∀ pid, pid ∈ t.pidsIn gone ↔ pid ∈ t.deadPids := by
    intro pid
    rw [pidsIn, List.mem_filterMap, mem_deadPids_iff]
    constructor
    · rintro ⟨s, hs, hpid⟩
      obtain ⟨b, hb, hdead⟩ := exists_block?_of_stateAt? ((hgone s).mp hs)
      exact ⟨s, b, hb, hdead, Option.some.inj ((pidAt?_of_block? hb).symm.trans hpid)⟩
    · rintro ⟨s, b, hb, hdead, rfl⟩
      exact ⟨s, (hgone s).mpr (hdead ▸ stateAt?_of_block? hb), pidAt?_of_block? hb⟩
  refine ⟨rfl, r.ready_eq, r.current_eq, r.nextPid_eq, ?_, ?_, ?_⟩
  · intro s b hb hdead
    rw [r.block?_eq, if_pos ((hgone s).mpr (hdead ▸ stateAt?_of_block? hb))]
  · intro s b hb halive
    have hnot : s ∉ gone := by
      rw [hgone, stateAt?_of_block? hb]
      exact fun heq => halive (Option.some.inj heq)
    rw [r.block?_eq, if_neg hnot, hb, Option.map_some, ControlBlock.bereft, ControlBlock.bereft]
    simp only [hpids]
  · intro s hb
    rw [r.block?_eq, hb, Option.map_none, ite_self]

/-- **Reclamation empties the slots of the dead**, and leaves everything else as it was.  The answer is
how many there were. -/
theorem Scheduled.reap_reclaims (h : Scheduled t) (k : Kindred births t) :
    t.reap.Meets admits fun (count, t') => t.Reclaims count t' := by
  have hcurrent : t.stateAt? t.current ≠ some .terminated := by
    rw [h.current_running]
    decide
  have hnodup : (allSlots.filter (· ≠ kernelSlot)).Nodup := (List.nodup_finRange _).filter _
  obtain ⟨hcount, r⟩ := (Reaping.refl h.coherent).reapSlots h.coherent k hcurrent hnodup
    (fun _ _ => List.not_mem_nil) 0
  rw [h.deadAmong_others, Nat.zero_add, length_deadAmong] at hcount
  rw [h.deadAmong_others, List.append_nil] at r
  have hreclaims : t.Reclaims (t.reapSlots 0 (allSlots.filter (· ≠ kernelSlot))).1
      (t.reapSlots 0 (allSlots.filter (· ≠ kernelSlot))).2 := by
    rw [hcount]
    refine r.reclaims fun s => ?_
    rw [List.mem_reverse, mem_deadAmong_iff]
    exact and_iff_right (List.mem_finRange s)
  unfold reap
  generalize t.reapSlots 0 (allSlots.filter (· ≠ kernelSlot)) = reaped at hreclaims
  dsimp only
  split
  · exact Run.meets_log_bind (Run.meets_pure hreclaims)
  · exact Run.meets_pure hreclaims

theorem reapSlots_eq_self (hnone : ∀ s, t.stateAt? s ≠ some .terminated) (count : Nat)
    (slots : List Slot) : t.reapSlots count slots = (count, t) := by
  induction slots with
  | nil => rfl
  | cons s rest ih =>
      rw [reapSlots, reapSlot_eq_none (hnone s)]
      exact ih

/-- **Where nobody is dead**, reclamation does nothing, and answers zero.  Nothing need be known of the
table for that. -/
theorem reap_nothing (hnone : t.count .terminated = 0) :
    t.reap.Meets admits fun (count, t') => count = 0 ∧ t' = t := by
  unfold reap
  rw [reapSlots_eq_self ((t.count_eq_zero_iff _).mp hnone)]
  exact Run.meets_pure ⟨rfl, rfl⟩

end ProcessTable

end TinyKernel
