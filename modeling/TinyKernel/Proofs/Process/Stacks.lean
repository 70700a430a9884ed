import TinyKernel.Proofs.Process.Changes

/-!
# Who has a stack

The stacks of a table, each under the pid of its process, and what becomes of them: a process comes by
a stack when it is created, and loses it when it ends.  Nothing else that is done to a table moves a
stack.

## What is load-bearing

Whether a process has a stack can be told from its pid and its state (`ControlBlock.Outfitted`).  That
is why a slot can be emptied without a look at the stack of its process: only those who are terminated
are reclaimed.

* `ProcessTable.holdings` — the stacks of a table
* `ProcessTable.Turnover` — what an operation does to them
* `ProcessTable.Turnover.setSlot` — the one change that there is
* `ProcessTable.Stacked.ended` — the end of a process
* `ProcessTable.Dispatchable.schedule_turnover` — a dispatch, which moves no stack
* `ProcessTable.Stacked.enrolled` — creation
* `Stack.startsInside` — where a process starts on its stack
-/

namespace TinyKernel

/-! ## Where a process starts -/

/-- **A place to start at**: the word above it is for a return address and ends at a multiple of 16,
all of it lies on the stack, and no sum or difference on the way there overflows. -/
structure Stack.StartsAt (stack : Stack) (esp : UInt32) : Prop where
  top_eq : stack.top = .ok (esp + 4)
  sub_eq : Checked.sub32 (esp + 4) 4 = .ok esp
  aligned : (esp + 4) % 16 = 0
  vaddr_lt : stack.vaddr.val.toNat < esp.toNat
  le_stop : esp.toNat + 4 ≤ stack.vaddr.val.toNat + stack.size

/-- **A process starts inside its stack**, if the stack ends below the last address.  Twenty bytes are
enough for the word and the rounding. -/
theorem Stack.startsInside {stack : Stack} (fits : stack.vaddr.val.toNat + stack.size < 2 ^ 32)
    (large : 20 ≤ stack.size) : stack.StartsAt stack.initialPointer := by
  obtain ⟨top, htop, htoNat⟩ := ProcessTable.top_of_fits fits
  have hroom : 4 ≤ top := ProcessTable.four_le_top large htoNat
  have hpointer : stack.initialPointer = top - 4 := (ProcessTable.top_sub_four htop).symm
  have habove : stack.initialPointer + 4 = top := by rw [hpointer, UInt32.sub_add_cancel]
  have hesp : stack.initialPointer.toNat = top.toNat - 4 := by
    rw [hpointer, UInt32.toNat_sub_of_le _ _ hroom]
    rfl
  refine ⟨?_, ?_, ?_, by omega, by omega⟩
  · rw [habove, htop]
  · rw [habove, hpointer, Checked.sub32_of_le hroom]
  · rw [habove, ← UInt32.toNat_inj, UInt32.toNat_mod, htoNat]
    simp only [UInt32.reduceToNat]
    omega

/-! ## Holdings -/

/-- **What a process has of the heap**: its stack, under its pid.  Nothing else of a process lies
there. -/
def ControlBlock.holding? {ε : Type} (b : ControlBlock ε) : Option (Pid × Stack) :=
  b.stack?.map fun stack => (b.pid, stack)

/-- **A process has a stack** from its activation to its end, unless it is the kernel's own, which is
never activated. -/
def ControlBlock.Outfitted {ε : Type} (b : ControlBlock ε) : Prop :=
  b.stack?.isSome ↔ b.pid ≠ .kernel ∧ b.state ≠ .new ∧ b.state ≠ .terminated

/-- One value of a function changes, on a list that has everything once.  What it was and what it is
change places, up to order. -/
theorem perm_filterMap_change {α β : Type} [DecidableEq β] {l : List α} (hl : l.Nodup) {a : α} (ha : a ∈ l)
    {f g : α → Option β} (heq : ∀ c ≠ a, g c = f c) :
    (l.filterMap f ++ (g a).toList).Perm ((f a).toList ++ l.filterMap g) := by
  obtain ⟨pre, post, rfl⟩ := List.append_of_mem ha
  obtain ⟨hpre, hpost⟩ : a ∉ pre ∧ a ∉ post := by
    have hmiddle := List.nodup_middle.mp hl
    simpa using (List.nodup_cons.mp hmiddle).1
  have hsame : ∀ l' : List α, a ∉ l' → l'.filterMap g = l'.filterMap f := fun l' hl' =>
    List.filterMap_congr fun c hc => heq c fun h => hl' (h ▸ hc)
  have hcons : ∀ k : α → Option β, (a :: post).filterMap k = (k a).toList ++ post.filterMap k := by
    intro k
    cases hk : k a <;> simp [hk]
  rw [List.filterMap_append, List.filterMap_append, hcons, hcons, hsame pre hpre, hsame post hpost]
  refine List.perm_iff_count.mpr fun x => ?_
  simp only [List.count_append]
  omega

namespace ProcessTable

variable {ε : Type} {t t' t'' : ProcessTable ε} {s : Slot} {b b' : ControlBlock ε}
  {gone gone' come come' : List (Pid × Stack)} {admits : Fault → Prop}

/-- What the process in a slot has of the heap, if there is one and it has something. -/
def holdingAt? (t : ProcessTable ε) (s : Slot) : Option (Pid × Stack) :=
  (t.block? s).bind ControlBlock.holding?

/-- **The stacks of a table**, in slot order, each under the pid of the process that has it. -/
def holdings (t : ProcessTable ε) : List (Pid × Stack) := allSlots.filterMap t.holdingAt?

/-- Everybody has a stack who should, and nobody else. -/
def Stacked (t : ProcessTable ε) : Prop := ∀ s b, t.block? s = some b → b.Outfitted

/-- **What an operation does to stacks**: whatever there was before or came in the meantime is gone, or
is there afterwards.  It is a balance up to order, so that what is gone can be freed, and nothing
twice. -/
structure Turnover (t t' : ProcessTable ε) (gone come : List (Pid × Stack)) : Prop where
  stacked : Stacked t'
  balance : (t.holdings ++ come).Perm (gone ++ t'.holdings)
  nextPid_le : t.nextPid ≤ t'.nextPid

theorem holdingAt?_of_block? (hb : t.block? s = some b) : t.holdingAt? s = b.holding? := by
  rw [holdingAt?, hb]
  rfl

theorem mem_holdings {pid : Pid} {stack : Stack} : (pid, stack) ∈ t.holdings ↔
    ∃ s b, t.block? s = some b ∧ b.pid = pid ∧ b.stack? = some stack := by
  simp only [holdings, allSlots, List.mem_filterMap, List.mem_finRange, true_and, holdingAt?,
    Option.bind_eq_some_iff, ControlBlock.holding?, Option.map_eq_some_iff, Prod.mk.injEq]
  constructor
  · rintro ⟨s, b, hb, stack, hstack, rfl, rfl⟩
    exact ⟨s, b, hb, rfl, hstack⟩
  · rintro ⟨s, b, hb, rfl, hstack⟩
    exact ⟨s, b, hb, stack, hstack, rfl, rfl⟩

/-- Whoever has a stack can run or wait, and is not the kernel's process. -/
theorem Stacked.exists_of_mem_holdings (st : Stacked t) {pid : Pid} {stack : Stack}
    (hx : (pid, stack) ∈ t.holdings) : ∃ s b, t.block? s = some b ∧ b.pid = pid
      ∧ b.stack? = some stack ∧ pid ≠ .kernel ∧ b.state ≠ .terminated := by
  obtain ⟨s, b, hb, rfl, hstack⟩ := mem_holdings.mp hx
  obtain ⟨hkernel, -, hstate⟩ := (st s b hb).mp (Option.isSome_of_eq_some hstack)
  exact ⟨s, b, hb, rfl, hstack, hkernel, hstate⟩

/-- In between operations nobody waits for a stack, so that state and pid decide who has one. -/
theorem Stacked.isSome_stack?_iff (st : Stacked t) (h : Scheduled t) (hb : t.block? s = some b) :
    b.stack?.isSome ↔ b.pid ≠ .kernel ∧ b.state ≠ .terminated := by
  have hnew : b.state ≠ .new := fun hnew =>
    Finset.notMem_empty s ((h.mem_held s).mpr (hnew ▸ stateAt?_of_block? hb))
  have houtfitted := st s b hb
  rwa [ControlBlock.Outfitted, and_iff_right hnew] at houtfitted

/-- **There are as many stacks as processes that are not over**, the kernel's not counted. -/
theorem Stacked.length_holdings (st : Stacked t) (h : Scheduled t) :
    t.holdings.length = t.blocks.countP fun b => b.pid ≠ .kernel ∧ b.state ≠ .terminated := by
  have hblocks : t.holdings = t.blocks.filterMap ControlBlock.holding? := by
    rw [holdings, blocks, List.filterMap_filterMap]
    rfl
  rw [hblocks, List.length_filterMap_eq_countP]
  refine List.countP_congr fun b hb => ?_
  obtain ⟨s, hb⟩ := mem_blocks.mp hb
  rw [ControlBlock.holding?, Option.isSome_map, st.isSome_stack?_iff h hb, decide_eq_true_iff]

/-- The first process has no stack, and it is alone. -/
theorem new_stacked (kernelDirectory : PhysAddr) :
    Stacked (new kernelDirectory : ProcessTable ε)
      ∧ (new kernelDirectory : ProcessTable ε).holdings = [] := by
  refine ⟨fun s b hb => ?_, List.eq_nil_iff_forall_not_mem.mpr fun ⟨pid, stack⟩ hx => ?_⟩
  · obtain ⟨hinfo, -, -, hstack⟩ := of_block?_new hb
    have hpid : b.pid = .kernel := congrArg ProcessInfo.pid hinfo
    simp [ControlBlock.Outfitted, hstack, hpid]
  · obtain ⟨s, b, hb, -, hsome⟩ := mem_holdings.mp hx
    cases (of_block?_new hb).2.2.2.symm.trans hsome

theorem Scheduled.currentPid_of_kernelSlot (h : Scheduled t) (hkernel : t.current = kernelSlot) :
    t.currentPid = .kernel := by
  obtain ⟨b, hb, hpid⟩ := Option.map_eq_some_iff.mp h.kernel_pid
  rw [currentPid_of_block? (hkernel ▸ hb), hpid]

namespace Turnover

theorem refl (st : Stacked t) : Turnover t t [] [] :=
  ⟨st, by simp, UInt32.le_refl _⟩

theorem trans (h : Turnover t t' gone come) (h' : Turnover t' t'' gone' come') :
    Turnover t t'' (gone ++ gone') (come ++ come') where
  stacked := h'.stacked
  balance := by
    refine List.perm_iff_count.mpr fun x => ?_
    have h₁ := h.balance.count_eq x
    have h₂ := h'.balance.count_eq x
    simp only [List.count_append] at h₁ h₂ ⊢
    omega
  nextPid_le := UInt32.le_trans h.nextPid_le h'.nextPid_le

/-- Processes, where they are, are all that counts, and not the queue or who is current. -/
theorem of_block?_eq (st : Stacked t) (block?_eq : ∀ s, t'.block? s = t.block? s)
    (nextPid_le : t.nextPid ≤ t'.nextPid) : Turnover t t' [] [] where
  stacked s b hb := st s b (block?_eq s ▸ hb)
  balance := by
    have heq : t'.holdingAt? = t.holdingAt? := funext fun s => by rw [holdingAt?, holdingAt?, block?_eq]
    rw [holdings, holdings, heq, List.append_nil, List.nil_append]
  nextPid_le := nextPid_le

/-- **A slot is written**: what its process had is gone, and what the new one has comes.  All other
operations are cases of this. -/
theorem setSlot (st : Stacked t) (s : Slot) (b? : Option (ControlBlock ε))
    (outfitted : ∀ b ∈ b?, b.Outfitted) :
    Turnover t (t.setSlot s b?) (t.holdingAt? s).toList (b?.bind ControlBlock.holding?).toList where
  stacked s' b hb := by
    rw [block?_setSlot] at hb
    split at hb
    · exact outfitted b hb
    · exact st s' b hb
  balance := by
    have hnew : (t.setSlot s b?).holdingAt? s = b?.bind ControlBlock.holding? := by
      rw [holdingAt?, block?_setSlot, if_pos rfl]
    have hother : ∀ s' ≠ s, (t.setSlot s b?).holdingAt? s' = t.holdingAt? s' := by
      intro s' hs'
      rw [holdingAt?, holdingAt?, block?_setSlot, if_neg hs']
    rw [← hnew]
    exact perm_filterMap_change (List.nodup_finRange _) (List.mem_finRange s) hother
  nextPid_le := UInt32.le_refl _

/-- What is gone and comes back was never away, so a process that keeps its stack shows no turnover. -/
theorem cancel (h : Turnover t t' gone gone) : Turnover t t' [] [] where
  stacked := h.stacked
  balance := by
    rw [List.append_nil, List.nil_append]
    exact (List.perm_append_left_iff gone).mp (List.perm_append_comm.trans h.balance)
  nextPid_le := h.nextPid_le

/-- A process changes that keeps what it has, and should have it before and after. -/
theorem setSlot_same (st : Stacked t) (hb : t.block? s = some b) (pid_eq : b'.pid = b.pid)
    (stack?_eq : b'.stack? = b.stack?) (outfitted : b.Outfitted → b'.Outfitted) :
    Turnover t (t.setSlot s (some b')) [] [] := by
  have hset := setSlot st s (some b') fun c hc => Option.some.inj hc ▸ outfitted (st s b hb)
  have hsame : b'.holding? = b.holding? := by
    rw [ControlBlock.holding?, pid_eq, stack?_eq, ControlBlock.holding?]
  rw [holdingAt?_of_block? hb, Option.bind_some, hsame] at hset
  exact hset.cancel

/-- Whoever takes note of a child keeps what it has. -/
theorem noted (st : Stacked t) (pid : Pid) : Turnover t (t.noted pid) [] [] := by
  rw [ProcessTable.noted, modifySlot]
  cases hb : t.block? t.current with
  | none => rw [Option.map_none, ← hb, setSlot_block?]; exact .refl st
  | some b => exact .setSlot_same st hb rfl rfl id

/-- A slot is emptied whose process has no stack, so that nothing is lost. -/
theorem setSlot_none (st : Stacked t) (hs : t.holdingAt? s = none) :
    Turnover t (t.setSlot s none) [] [] := by
  have hset := setSlot st s none (by simp)
  rwa [hs] at hset

end Turnover

/-! ## The end of a process -/

/-- **Whoever ends loses its stack**, and only that is gone.  It can be freed from then on. -/
theorem Stacked.ended (st : Stacked t) (hb : t.block? s = some b) (code : Int32) :
    Turnover t (t.ended s b code) b.holding?.toList [] := by
  have hqueue : Turnover t { t with ready := t.ready.filter (· ≠ s) } [] [] :=
    .of_block?_eq st (fun _ => rfl) (UInt32.le_refl _)
  rw [← holdingAt?_of_block? hb]
  refine hqueue.trans (.setSlot hqueue.stacked s (some _) fun c hc => ?_)
  obtain rfl := Option.some.inj hc
  simp [ControlBlock.Outfitted]

/-- Whoever is not alive has no stack: not yet, or not any more. -/
theorem Stacked.holdingAt?_eq_none (st : Stacked t) (hb : t.block? s = some b)
    (dead : b.state = .new ∨ b.state = .terminated) : t.holdingAt? s = none := by
  have hnone : ¬ b.stack?.isSome := fun hsome => by
    obtain ⟨-, hnew, hterminated⟩ := (st s b hb).mp hsome
    exact dead.elim hnew hterminated
  rw [holdingAt?_of_block? hb, ControlBlock.holding?, Option.map_eq_none_iff]
  simpa using hnone

/-- A slot is reclaimed, whose process has lost its stack already. -/
theorem Stacked.reapSlot (st : Stacked t) (hreap : t.reapSlot s = some t') : Turnover t t' [] [] := by
  obtain ⟨-, b, hb, hdead, rfl⟩ := reapSlot_cases hreap
  have hnone := st.holdingAt?_eq_none hb (Or.inr hdead)
  rcases t.removeChild_cases b.parent? b.pid with heq | ⟨s', parent, children, hparent, heq⟩
  · rw [heq]
    exact .setSlot_none st hnone
  · rw [heq]
    have hremove : Turnover t (t.setSlot s' (some { parent with children })) [] [] :=
      .setSlot_same st hparent rfl rfl id
    refine hremove.trans (.setSlot_none hremove.stacked ?_)
    -- a process that is its own parent keeps what it has, which is nothing
    rw [holdingAt?, block?_setSlot]
    split
    case isTrue hself => rwa [hself, holdingAt?_of_block? hparent] at hnone
    case isFalse => exact hnone

theorem Stacked.reapSlots (st : Stacked t) (count : Nat) (slots : List Slot) :
    Turnover t (t.reapSlots count slots).2 [] [] := by
  induction slots generalizing t count with
  | nil => exact .refl st
  | cons s rest ih =>
      rw [ProcessTable.reapSlots]
      cases hreap : t.reapSlot s with
      | none => exact ih st count
      | some t' =>
          have hslot := st.reapSlot hreap
          exact hslot.trans (ih hslot.stacked (count + 1))

/-- Reclamation finds no stacks, so it has nothing to free. -/
theorem Stacked.reap_turnover (st : Stacked t) :
    t.reap.Meets (fun _ => True) fun (_, t') => Turnover t t' [] [] := by
  have hreaped := st.reapSlots 0 (allSlots.filter (· ≠ kernelSlot))
  unfold reap
  generalize t.reapSlots 0 (allSlots.filter (· ≠ kernelSlot)) = reaped at hreaped
  dsimp only
  split
  · exact Run.meets_log_bind (Run.meets_pure hreaped)
  · exact Run.meets_pure hreaped

/-! ## Waiting and dispatch -/

/-- Whoever goes from one state to another keeps its stack, if it is alive in both. -/
theorem Turnover.setState (st : Stacked t) (hb : t.block? s = some b) (pid_eq : b'.pid = b.pid)
    (stack?_eq : b'.stack? = b.stack?) (alive : b.state ≠ .new ∧ b.state ≠ .terminated)
    (alive' : b'.state ≠ .new ∧ b'.state ≠ .terminated) :
    Turnover t (t.setSlot s (some b')) [] [] := by
  refine .setSlot_same st hb pid_eq stack?_eq fun h => ?_
  rw [ControlBlock.Outfitted] at h ⊢
  rw [stack?_eq, pid_eq, h]
  simp [alive, alive']

theorem Scheduled.blockCurrent_turnover (h : Scheduled t) (st : Stacked t) :
    t.blockCurrent.Meets (fun _ => True) fun (_, t') => Turnover t t' [] [] := by
  refine h.coherent.blockCurrent_cases.imp ?_
  rintro ⟨result, t'⟩ hresult
  cases result with
  | error cause =>
      obtain ⟨-, rfl⟩ := hresult
      exact .refl st
  | ok =>
      obtain ⟨-, b, hb, rfl⟩ := hresult
      have hrunning : b.state = .running :=
        Option.some.inj ((stateAt?_of_block? hb).symm.trans h.current_running)
      exact .setState st hb rfl rfl (by simp [hrunning]) (by simp)

theorem Stacked.unblock (st : Stacked t) {pid : Pid} {result : Except ProcessError Unit}
    (hunblock : t.unblock pid = .ok (result, t')) : Turnover t t' [] [] := by
  rcases t.unblock_cases pid with ⟨cause, hsame⟩ | ⟨s, b, hb, -, hblocked, hfull | hready⟩
  · cases hsame.symm.trans hunblock
    exact .refl st
  · cases hfull.symm.trans hunblock
  · cases hready.symm.trans hunblock
    have hset : Turnover t (t.setSlot s (some { b with state := .ready })) [] [] :=
      .setState st hb rfl rfl (by simp [hblocked]) (by simp)
    exact hset.trans (.of_block?_eq hset.stacked (fun _ => rfl) (UInt32.le_refl _))

/-- **A dispatch moves no stack**, even though the processor goes from one to another. -/
theorem Dispatchable.schedule_turnover (d : Dispatchable t) (st : Stacked t) (now : Nat) :
    (t.schedule now).Meets (fun _ => True) fun (_, t') => Turnover t t' [] [] := by
  refine (d.schedule_cases now).mono (fun _ _ => trivial) ?_
  rintro ⟨switch?, t'⟩ hdone
  cases switch? with
  | none =>
      obtain ⟨-, rfl⟩ := hdone
      exact .refl st
  | some w =>
      obtain ⟨next, rest, outgoing, incoming, hready, hout, hin, -, rfl⟩ := hdone
      obtain ⟨hnext, hne, -⟩ := d.head hready
      have hincoming : incoming.state = .ready :=
        Option.some.inj ((stateAt?_of_block? hin).symm.trans hnext)
      generalize hwaiting : ({ outgoing with
        cpuTime := outgoing.cpuTime + (now - outgoing.dispatchedAt)
        state := if outgoing.state = .running then .ready else outgoing.state } :
          ControlBlock ε) = waiting
      have hsuspend : Turnover t (t.setSlot t.current (some waiting)) [] [] := by
        subst hwaiting
        by_cases hrunning : outgoing.state = .running
        · exact .setState st hout rfl rfl (by simp [hrunning]) (by simp [hrunning])
        · refine .setSlot_same st hout rfl rfl fun h => ?_
          simpa [ControlBlock.Outfitted, hrunning] using h
      have hin' : (t.setSlot t.current (some waiting)).block? next = some incoming := by
        rw [block?_setSlot, if_neg hne, hin]
      have hresume : Turnover (t.setSlot t.current (some waiting))
          ((t.setSlot t.current (some waiting)).setSlot next
            (some { incoming with state := .running, dispatchedAt := now })) [] [] :=
        .setState hsuspend.stacked hin' rfl rfl (by simp [hincoming]) (by simp)
      subst hwaiting
      exact (hsuspend.trans hresume).trans
        (.of_block?_eq hresume.stacked (fun _ => rfl) (UInt32.le_refl _))

theorem Scheduled.takeEntry_turnover (h : Scheduled t) (st : Stacked t) :
    Turnover t t.takeEntry.2 [] [] := by
  obtain ⟨b, hb⟩ := Option.isSome_iff_exists.mp h.occupied
  rw [takeEntry_eq hb]
  exact .setSlot_same st hb rfl rfl id

/-! ## Creation -/

/-- **Whoever is created comes by a stack**, under a pid that nobody in the table has. -/
theorem Stacked.enrolled (st : Stacked t) (h : Scheduled t) {stack : Stack} {entry : ε}
    {name : String} {priority : Priority} (hfree : t.block? s = none)
    (fits : t.nextPid.toNat + 1 < 2 ^ 32) (starts : b.Starts (t.birth name priority) stack entry) :
    Turnover t (t.enrolled s b) [] [(b.pid, stack)] := by
  have hpid : b.pid = ⟨t.nextPid⟩ := congrArg ProcessInfo.pid starts.info_eq
  have hready : b.state = .ready := congrArg ProcessInfo.state starts.info_eq
  have hkernel : b.pid ≠ .kernel := by
    intro hkernel
    have hlt := h.pid_lt _ _ h.kernel_pid
    rw [← hkernel, hpid] at hlt
    exact UInt32.lt_irrefl _ hlt
  have hnext : Turnover t { t with nextPid := t.nextPid + 1 } [] [] :=
    .of_block?_eq st (fun _ => rfl) (UInt32.le_of_lt (nextPid_lt fits))
  have hwrite := Turnover.setSlot hnext.stacked s (some b) fun c hc => by
    obtain rfl := Option.some.inj hc
    simp [ControlBlock.Outfitted, starts.stack_eq, hkernel, hready]
  have hnone : { t with nextPid := t.nextPid + 1 }.holdingAt? s = none := by
    show (t.block? s).bind ControlBlock.holding? = none
    rw [hfree]
    rfl
  rw [hnone, Option.bind_some, ControlBlock.holding?, starts.stack_eq] at hwrite
  have hqueue : Turnover t { { t with nextPid := t.nextPid + 1 }.setSlot s (some b) with
      ready := t.ready ++ [s] } [] [(b.pid, stack)] :=
    (hnext.trans hwrite).trans (.of_block?_eq hwrite.stacked (fun _ => rfl) (UInt32.le_refl _))
  exact hqueue.trans (.noted hqueue.stacked b.pid)

end ProcessTable

end TinyKernel
