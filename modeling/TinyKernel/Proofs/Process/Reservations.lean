import TinyKernel.Proofs.Process.Finality

/-!
# Reservations hold their slot

A process is created in two steps, and between them anything may be called.  Meanwhile its slot holds
a process that is new, under the pid of the reservation: so the reservation can be activated or given
up at any time, and that concerns this slot alone.

There is one thing that a caller has to see to.  The pid of a reservation is known, and `kill` ends
whoever has a pid, also a process that is yet to be activated.  Its slot is then reclaimed, and
somebody else may come to be in it, while neither `activate` nor `abandon` looks at the pid
(`ReservationSession.killed_reservation_hits_another`).

## What is load-bearing

Nobody who is new runs or is queued.  This is what keeps exits, blocking and dispatches away from a
slot that is held; and whoever is reclaimed is terminated.

* `ProcessTable.Holds` — the invariant, with one lemma for each change and each operation
* `ReservationSession` — a table whose reservations are held while others call
* `ReservationSession.run_holds` — reservations hold their slot, unless they are killed
-/

namespace TinyKernel

namespace ProcessTable

variable {ε : Type} {t t' : ProcessTable ε} {s : Slot} {b b' : ControlBlock ε} {r : Reservation}
  {held held' : Finset Reservation} {admits : Fault → Prop}

/-- **A slot is held**: the process in it has the pid of the reservation, and is new.  Activation looks
at the state only; it is the pid that makes this the right process. -/
def Waits (t : ProcessTable ε) (r : Reservation) : Prop :=
  ∃ b, t.block? r.slot = some b ∧ b.pid = r.pid ∧ b.state = .new

/-- **Every reservation holds its slot**, and whoever runs or is queued was activated.  The second part
keeps dispatches and exits away from the slots that are held. -/
structure Holds (held : Finset Reservation) (t : ProcessTable ε) : Prop where
  coherent : Coherent t
  begun : ∀ s b, s = t.current ∨ s ∈ t.ready → t.block? s = some b → b.state ≠ .new
  waits : ∀ r ∈ held, t.Waits r

namespace Holds

/-- Whoever has the pid of a reservation is in its slot, and is new, as no other slot has that pid. -/
theorem eq_slot (h : Holds held t) (hr : r ∈ held) (hb : t.block? s = some b)
    (hpid : r.pid = b.pid) : s = r.slot ∧ b.state = .new := by
  obtain ⟨b₀, hb₀, hpid₀, hnew⟩ := h.waits r hr
  obtain rfl := h.coherent.pid_inj s r.slot b.pid (pidAt?_of_block? hb)
    ((pidAt?_of_block? hb₀).trans (congrArg some (hpid₀.trans hpid)))
  obtain rfl := Option.some.inj (hb.symm.trans hb₀)
  exact ⟨rfl, hnew⟩

/-- Two reservations hold two slots: a slot has one process, with one pid. -/
theorem slot_inj (h : Holds held t) {r' : Reservation} (hr : r ∈ held) (hr' : r' ∈ held)
    (hslot : r'.slot = r.slot) : r' = r := by
  obtain ⟨b, hb, hpid, -⟩ := h.waits r hr
  obtain ⟨b', hb', hpid', -⟩ := h.waits r' hr'
  obtain rfl := Option.some.inj (hb'.symm.trans (hslot ▸ hb))
  show Reservation.mk r'.slot r'.pid = Reservation.mk r.slot r.pid
  rw [hslot, ← hpid, ← hpid']

/-- Whoever is not new is in no slot that is held, and can change without harm. -/
theorem ne_slot (h : Holds held t) (hb : t.block? s = some b) (hstate : b.state ≠ .new)
    (hr : r ∈ held) : r.slot ≠ s := by
  rintro rfl
  obtain ⟨b₀, hb₀, -, hnew⟩ := h.waits r hr
  obtain rfl := Option.some.inj (hb.symm.trans hb₀)
  exact hstate hnew

/-! ## Changes -/

/-- Somebody is queued who was activated and can still run, or who was queued before. -/
theorem requeue (h : Holds held t) {ready : List Slot}
    (fit : ∀ s ∈ ready, s ∈ t.ready ∨
      ∃ b, t.block? s = some b ∧ b.state ≠ .terminated ∧ b.state ≠ .new) :
    Holds held { t with ready } where
  coherent := by
    refine h.coherent.requeue fun s hs => ?_
    obtain hs | ⟨b, hb, halive, -⟩ := fit s hs
    · exact h.coherent.alive s hs
    · exact ⟨b, hb, halive⟩
  begun s b hs hb := by
    obtain rfl | hs := hs
    · exact h.begun _ b (Or.inl rfl) hb
    obtain hs | ⟨b₀, hb₀, -, hstate⟩ := fit s hs
    · exact h.begun s b (Or.inr hs) hb
    · obtain rfl := Option.some.inj (hb₀.symm.trans hb)
      exact hstate
  waits := h.waits

/-- **A process changes**, whose slot is not held from now on, or which is still new.  Activation takes
the first way, and all other operations the second or neither. -/
theorem setSlot (h : Holds held t) (hsub : held' ⊆ held) (hb : t.block? s = some b)
    (pid_eq : b'.pid = b.pid) (alive : s ∈ t.ready → b'.state ≠ .terminated)
    (begun : s = t.current ∨ s ∈ t.ready → b'.state ≠ .new)
    (waits : ∀ r ∈ held', r.slot = s → b'.state = .new) : Holds held' (t.setSlot s (some b')) where
  coherent := h.coherent.setSlot hb pid_eq alive
  begun s' c hs' hc := by
    obtain ⟨rfl, heq⟩ | ⟨-, hc⟩ := of_block?_setSlot hc
    · obtain rfl := Option.some.inj heq
      exact begun hs'
    · exact h.begun s' c hs' hc
  waits r hr := by
    obtain ⟨b₀, hb₀, hpid₀, hnew⟩ := h.waits r (hsub hr)
    rw [Waits, block?_setSlot]
    split
    case isTrue heq =>
      obtain rfl := Option.some.inj (hb.symm.trans (heq ▸ hb₀))
      exact ⟨b', rfl, pid_eq.trans hpid₀, waits r hr heq⟩
    case isFalse => exact ⟨b₀, hb₀, hpid₀, hnew⟩

/-- A process changes, but neither begins nor ends.  Then it does not matter whether its slot is
held. -/
theorem alter (h : Holds held t) (hb : t.block? s = some b) (pid_eq : b'.pid = b.pid)
    (alive : b'.state = .terminated → b.state = .terminated) (begun : b'.state = .new ↔ b.state = .new) :
    Holds held (t.setSlot s (some b')) := by
  refine h.setSlot subset_rfl hb pid_eq (fun hs hdead => ?_) (fun hs hnew => ?_) fun r hr heq => ?_
  · exact h.coherent.not_mem_ready hb (alive hdead) hs
  · exact h.begun s b hs hb (begun.mp hnew)
  · obtain ⟨b₀, hb₀, -, hnew⟩ := h.waits r hr
    obtain rfl := Option.some.inj (hb.symm.trans (heq ▸ hb₀))
    exact begun.mpr hnew

/-- **A process leaves the table**, whose slot is not held from now on.  It neither runs nor is
queued. -/
theorem setSlot_none (h : Holds held t) (hsub : held' ⊆ held) (hcurrent : s ≠ t.current)
    (hready : s ∉ t.ready) (hnot : ∀ r ∈ held', r.slot ≠ s) : Holds held' (t.setSlot s none) where
  coherent := h.coherent.setSlot_none hcurrent hready
  begun s' b hs' hb := by
    obtain ⟨-, heq⟩ | ⟨-, hb⟩ := of_block?_setSlot hb
    · cases heq
    · exact h.begun s' b hs' hb
  waits r hr := by
    rw [Waits, block?_setSlot, if_neg (hnot r hr)]
    exact h.waits r (hsub hr)

theorem moveTo (h : Holds held t) {next : Slot} (hnext : t.block? next = some b)
    (hstate : b.state ≠ .new) : Holds held { t with current := next } where
  coherent := h.coherent.moveTo (Option.isSome_iff_exists.mpr ⟨b, hnext⟩)
  begun s c hs hc := by
    obtain rfl | hs := hs
    · obtain rfl := Option.some.inj (hnext.symm.trans hc)
      exact hstate
    · exact h.begun s c (Or.inr hs) hc
  waits := h.waits

/-- **A process ends** whose pid is not that of a reservation.  Otherwise the reservation would hold a
slot with a dead process. -/
theorem ended (h : Holds held t) (hb : t.block? s = some b) (hnot : ∀ r ∈ held, r.pid ≠ b.pid)
    (code : Int32) : Holds held (t.ended s b code) := by
  have hqueue : Holds held { t with ready := t.ready.filter (· ≠ s) } :=
    h.requeue fun s' hs' => Or.inl (List.mem_filter.mp hs').1
  refine hqueue.setSlot subset_rfl hb rfl (fun hs => ?_) (fun _ => nofun) fun r hr heq => ?_
  · exact absurd rfl (of_decide_eq_true (List.mem_filter.mp hs).2)
  · obtain ⟨b₀, hb₀, hpid, -⟩ := h.waits r hr
    obtain rfl := Option.some.inj (hb.symm.trans (heq ▸ hb₀))
    exact absurd hpid.symm (hnot r hr)

theorem noted (h : Holds held t) (pid : Pid) : Holds held (t.noted pid) := by
  obtain ⟨b, hb⟩ := Option.isSome_iff_exists.mp h.coherent.occupied
  rw [ProcessTable.noted, modifySlot, hb, Option.map_some]
  exact h.alter hb rfl id Iff.rfl

/-! ## Operations -/

theorem exitCurrent (h : Holds held t) (code : Int32) :
    (t.exitCurrent code).Meets admits fun (_, t') => Holds held t' := by
  refine (h.coherent.exitCurrent_cases code).imp ?_
  rintro ⟨result, t'⟩ hresult
  cases result with
  | error cause =>
      obtain ⟨-, rfl⟩ := hresult
      exact h
  | ok remains =>
      obtain ⟨-, b, hb, -, rfl⟩ := hresult
      refine h.ended hb (fun r hr hpid => ?_) code
      exact h.begun _ b (Or.inl rfl) hb (h.eq_slot hr hb hpid).2

/-- **A process is killed**, which must not be one that waits to be activated.  Nothing in the table
prevents that, so the client has to. -/
theorem kill (h : Holds held t) {pid : Pid} (hnot : ∀ r ∈ held, r.pid ≠ pid) :
    (t.kill pid).Meets admits fun (_, t') => Holds held t' := by
  refine (t.kill_cases pid).imp ?_
  rintro ⟨result, t'⟩ hresult
  cases result with
  | error cause =>
      obtain ⟨rfl, -⟩ := hresult
      exact h
  | ok left =>
      obtain ⟨-, s, b, hb, rfl, -, -, -, rfl⟩ := hresult
      exact h.ended hb hnot killedExitCode

theorem blockCurrent (h : Holds held t) :
    t.blockCurrent.Meets admits fun (_, t') => Holds held t' := by
  refine h.coherent.blockCurrent_cases.imp ?_
  rintro ⟨result, t'⟩ hresult
  cases result with
  | error cause =>
      obtain ⟨-, rfl⟩ := hresult
      exact h
  | ok =>
      obtain ⟨-, b, hb, rfl⟩ := hresult
      have hbegun := h.begun _ b (Or.inl rfl) hb
      exact h.alter hb rfl nofun ⟨nofun, fun hnew => absurd hnew hbegun⟩

theorem unblock (h : Holds held t) (pid : Pid) :
    (liftM (t.unblock pid) : Run _).Meets (· = .readyQueueFull) fun (_, t') => Holds held t' := by
  rcases t.unblock_cases pid with ⟨cause, hunblock⟩ | ⟨s, b, hb, -, hblocked, hunblock | hunblock⟩
  · rw [hunblock]
    exact Run.meets_pure h
  · rw [hunblock]
    exact Run.meets_throw rfl
  · rw [hunblock]
    have hset : Holds held (t.setSlot s (some { b with state := .ready })) :=
      h.alter hb rfl nofun ⟨nofun, fun hnew => by cases hblocked.symm.trans hnew⟩
    refine Run.meets_pure (hset.requeue fun s' hs' => ?_)
    rcases List.mem_append.mp hs' with hs' | hs'
    · exact Or.inl hs'
    · obtain rfl := List.mem_singleton.mp hs'
      exact Or.inr ⟨_, (block?_setSlot ..).trans (if_pos rfl), nofun, nofun⟩

theorem saveContext (h : Holds held t) (hs : (t.block? s).isSome) (stored : Context) :
    Holds held (t.saveContext s stored) := by
  obtain ⟨b, hb⟩ := Option.isSome_iff_exists.mp hs
  rw [ProcessTable.saveContext, modifySlot, hb, Option.map_some]
  exact h.alter hb rfl id Iff.rfl

theorem takeEntry (h : Holds held t) : Holds held t.takeEntry.2 := by
  obtain ⟨b, hb⟩ := Option.isSome_iff_exists.mp h.coherent.occupied
  rw [takeEntry_eq hb]
  exact h.alter hb rfl id Iff.rfl

/-- The current process makes way, and whoever is at the head of the queue was activated. -/
theorem suspended (h : Holds held t) {next : Slot} {rest : List Slot} {outgoing : ControlBlock ε}
    (hready : t.ready = next :: rest) (hout : t.block? t.current = some outgoing) (cpuTime : Nat) :
    Holds held (t.suspended rest outgoing cpuTime)
      ∧ ∀ incoming, (t.suspended rest outgoing cpuTime).block? next = some incoming →
        incoming.state ≠ .new := by
  have hrest : ∀ s ∈ rest, s ∈ t.ready := fun s hs => by simp [hready, hs]
  have hnext : next ∈ t.ready := by simp [hready]
  unfold ProcessTable.suspended
  split
  case isTrue hrunning =>
    have hset : Holds held (t.setSlot t.current (some { outgoing with cpuTime, state := .ready })) :=
      h.alter hout rfl nofun ⟨nofun, fun hnew => by cases hrunning.symm.trans hnew⟩
    refine ⟨hset.requeue fun s hs => ?_, fun incoming => hset.begun next incoming (Or.inr hnext)⟩
    rcases List.mem_append.mp hs with hs | hs
    · exact Or.inl (hrest s hs)
    · obtain rfl := List.mem_singleton.mp hs
      exact Or.inr ⟨_, (block?_setSlot ..).trans (if_pos rfl), nofun, nofun⟩
  case isFalse =>
    have hset : Holds held (t.setSlot t.current (some { outgoing with cpuTime })) :=
      h.alter hout rfl id Iff.rfl
    exact ⟨hset.requeue fun s hs => Or.inl (hrest s hs),
      fun incoming => hset.begun next incoming (Or.inr hnext)⟩

theorem schedule (h : Holds held t) (now : Nat) :
    (t.schedule now).Meets (ChargeFault now t) fun (switch?, t') =>
      Holds held t' ∧ ∀ w, switch? = some w → (t'.block? w.fromSlot).isSome := by
  refine (h.coherent.schedule_cases now).imp ?_
  rintro ⟨switch?, t'⟩ hdone
  cases switch? with
  | none =>
      obtain ⟨-, rfl⟩ := hdone
      exact ⟨h, nofun⟩
  | some w =>
      obtain ⟨next, rest, outgoing, t₁, incoming, hready, hout, rfl, hin, hfrom, -, rfl⟩ := hdone
      obtain ⟨hsuspend, hhead⟩ := h.suspended hready hout
        (outgoing.cpuTime + (now - outgoing.dispatchedAt))
      have hset : Holds held ((t.suspended rest outgoing
          (outgoing.cpuTime + (now - outgoing.dispatchedAt))).setSlot next
            (some { incoming with state := .running, dispatchedAt := now })) :=
        hsuspend.alter hin rfl nofun ⟨nofun, fun hnew => absurd hnew (hhead incoming hin)⟩
      refine ⟨hset.moveTo ((block?_setSlot ..).trans (if_pos rfl)) nofun, ?_⟩
      rintro _ ⟨⟩
      obtain ⟨left, hleft, -⟩ := block?_suspended rest
        (outgoing.cpuTime + (now - outgoing.dispatchedAt)) hout hout
      rw [hfrom, block?_withCurrent, block?_setSlot]
      split
      · rfl
      · rw [hleft]
        rfl

/-- **Slots are reclaimed**, none of which is held: whoever waits to be activated is not dead. -/
theorem reapSlots (h : Holds held t) (count : Nat) (slots : List Slot) :
    Holds held (t.reapSlots count slots).2 := by
  induction slots generalizing t count with
  | nil => exact h
  | cons s rest ih =>
      rw [ProcessTable.reapSlots]
      cases hreap : t.reapSlot s with
      | none => exact ih h count
      | some t' =>
          obtain ⟨hcurrent, b, hb, hdead, rfl⟩ := reapSlot_cases hreap
          have hready := h.coherent.not_mem_ready hb hdead
          have hnot : ∀ r ∈ held, r.slot ≠ s := fun r hr => h.ne_slot hb (by simp [hdead]) hr
          refine ih ?_ (count + 1)
          rcases t.removeChild_cases b.parent? b.pid with heq | ⟨s', b', children, hb', heq⟩
          · rw [heq]
            exact h.setSlot_none subset_rfl hcurrent hready hnot
          · rw [heq]
            have hset : Holds held (t.setSlot s' (some { b' with children })) :=
              h.alter hb' rfl id Iff.rfl
            exact hset.setSlot_none subset_rfl hcurrent hready hnot

theorem reap (h : Holds held t) : t.reap.Meets admits fun (_, t') => Holds held t' := by
  have hreaped := h.reapSlots 0 (allSlots.filter (· ≠ kernelSlot))
  unfold ProcessTable.reap
  generalize t.reapSlots 0 (allSlots.filter (· ≠ kernelSlot)) = reaped at hreaped
  dsimp only
  split
  · exact Run.meets_log_bind (Run.meets_pure hreaped)
  · exact Run.meets_pure hreaped

/-! ## Creation -/

/-- **A reservation is made**, and holds its slot from then on.  It is none of those before, because
its pid is new. -/
theorem arrive (h : Holds held t) {birth : Birth} (hr : t.Awaits birth r t') :
    Holds (insert r held) t' ∧ r ∉ held := by
  have hfree : r ∉ held := by
    intro hmem
    obtain ⟨b, hb, -⟩ := h.waits r hmem
    cases hr.free.symm.trans hb
  obtain ⟨b, hnew, hinfo, rfl⟩ := hr.held
  have hpid : b.pid = r.pid := (congrArg ProcessInfo.pid hinfo).trans hr.pid_eq.symm
  refine ⟨⟨hr.coherent h.coherent, fun s c hs hc => ?_, fun r' hr' => ?_⟩, hfree⟩
  · obtain ⟨rfl, -⟩ | ⟨-, hc⟩ := of_block?_setSlot hc
    · -- the slot was free, and so it neither ran nor was queued
      exfalso
      obtain heq | hs := hs
      · have hoccupied := h.coherent.occupied
        rw [← show r.slot = t.current from heq, hr.free] at hoccupied
        cases hoccupied
      · obtain ⟨b₀, hb₀, -⟩ := h.coherent.alive _ hs
        cases hr.free.symm.trans hb₀
    · exact h.begun s c hs hc
  · obtain rfl | hr' := Finset.mem_insert.mp hr'
    · exact ⟨b, (block?_setSlot ..).trans (if_pos rfl), hpid, hnew⟩
    · obtain ⟨b', hb', hwaits⟩ := h.waits r' hr'
      have hne : r'.slot ≠ r.slot := Coherent.ne_of_block? hb' hr.free
      exact ⟨b', (block?_setSlot ..).trans ((if_neg hne).trans hb'), hwaits⟩

end Holds

/-- **Nobody else is concerned**: whoever is in another slot is the same in the later table, except
that the current process may have taken note of a child. -/
structure Spares (r : Reservation) (t t' : ProcessTable ε) : Prop where
  current_eq : t'.current = t.current
  others : ∀ s ≠ r.slot, t'.block? s = t.block? s
    ∨ s = t.current ∧ t'.block? s = (t.block? s).map fun b => b.noting r.pid

/-- **A reservation becomes a process**, which is ready, at the end of the queue, and has the pid that
was reserved.  Whatever was done in between, it is that slot which is used, and nobody else is
concerned. -/
structure Activated (r : Reservation) (t t' : ProcessTable ε) : Prop where
  spares : Spares r t t'
  ready_eq : t'.ready = t.ready ++ [r.slot]
  started : ∃ b, t'.block? r.slot = some b ∧ b.pid = r.pid ∧ b.state = .ready

/-- **A reservation is given up**, and its slot is free.  The pid is not given again, and nobody else
is concerned: no child was noted yet, and nothing was queued. -/
structure Abandoned (r : Reservation) (t t' : ProcessTable ε) : Prop where
  spares : Spares r t t'
  ready_eq : t'.ready = t.ready
  free : t'.block? r.slot = none

namespace Holds

/-- **A reservation is activated.**  The others still hold their slots, and this one is used up. -/
theorem activate (h : Holds held t) (hr : r ∈ held) (stack : Stack) (entry : ε)
    (entryPoint : UInt32) : (t.activate r stack entry entryPoint).Meets OrderFault fun t' =>
      Holds (held.erase r) t' ∧ Activated r t t' := by
  obtain ⟨b, hb, hpid, hnew⟩ := h.waits r hr
  refine (activate_started hb hnew stack entry entryPoint).imp ?_
  rintro t' ⟨cr3, rfl⟩
  have hcurrent : t.current ≠ r.slot := fun heq => h.begun r.slot b (Or.inl heq.symm) hb hnew
  have hblock : ∀ s, (t.started r.slot b stack entry entryPoint cr3).block? s =
      if s = r.slot then some { b with
        context := .forEntry entryPoint stack.initialPointer Context.initialFlags cr3
        stack? := some stack
        pending? := some entry
        state := .ready } else t.block? s := fun s => block?_setSlot ..
  constructor
  case left =>
    have hset : Holds (held.erase r) (t.setSlot r.slot (some { b with
        context := .forEntry entryPoint stack.initialPointer Context.initialFlags cr3
        stack? := some stack
        pending? := some entry
        state := .ready })) := by
      refine h.setSlot (Finset.erase_subset r held) hb rfl (fun _ => nofun) (fun _ => nofun) ?_
      intro r' hr' hslot
      have hmem := Finset.mem_erase.mp hr'
      exact absurd (h.slot_inj hr hmem.2 hslot) hmem.1
    refine Holds.noted (hset.requeue fun s hs => ?_) r.pid
    rcases List.mem_append.mp hs with hs | hs
    · exact Or.inl hs
    · obtain rfl := List.mem_singleton.mp hs
      exact Or.inr ⟨_, (block?_setSlot ..).trans (if_pos rfl), nofun, nofun⟩
  case right =>
    refine ⟨⟨rfl, fun s hs => ?_⟩, rfl, ?_⟩
    · rw [ProcessTable.noted, block?_modifySlot, hblock, hblock, if_neg hs,
        show (t.started r.slot b stack entry entryPoint cr3).current = t.current from rfl,
        if_neg hcurrent]
      split
      case isTrue heq => exact Or.inr ⟨heq, by rw [heq]⟩
      case isFalse => exact Or.inl rfl
    · rw [ProcessTable.noted, block?_modifySlot,
        show (t.started r.slot b stack entry entryPoint cr3).current = t.current from rfl,
        if_neg hcurrent.symm, hblock, if_pos rfl]
      exact ⟨_, rfl, hpid, rfl⟩

/-- **A reservation is given up.**  The others still hold their slots, and nothing is queued. -/
theorem abandon (h : Holds held t) (hr : r ∈ held) :
    Holds (held.erase r) (t.abandon r) ∧ Abandoned r t (t.abandon r) := by
  obtain ⟨b, hb, -, hnew⟩ := h.waits r hr
  have hfree : ∀ s, s = t.current ∨ s ∈ t.ready → r.slot ≠ s := by
    rintro s hs rfl
    exact h.begun r.slot b hs hb hnew
  have hset : Holds (held.erase r) (t.setSlot r.slot none) := by
    refine h.setSlot_none (Finset.erase_subset r held) (hfree _ (Or.inl rfl))
      (fun hs => hfree _ (Or.inr hs) rfl) fun r' hr' hslot => ?_
    have hmem := Finset.mem_erase.mp hr'
    exact hmem.1 (h.slot_inj hr hmem.2 hslot)
  refine ⟨hset, ⟨rfl, fun s hs => Or.inl ?_⟩, rfl, ?_⟩
  · exact (block?_setSlot ..).trans (if_neg hs)
  · exact (block?_setSlot ..).trans (if_pos rfl)

end Holds

end ProcessTable

/-! ## Calls while reservations are held -/

/-- **What can be asked of a process table** by those who make reservations, and by all others.  Any
number of calls may come between a reservation and its use. -/
inductive ReservationCall (ε : Type) where
  | reserve (name : String) (priority : Priority)
  | activate (r : Reservation) (stack : Stack) (entry : ε) (entryPoint : UInt32)
  | abandon (r : Reservation)
  | other (call : TableCall ε)

/-- **A process table**, with the reservations that were made and not used.  The set is what the client
knows, and no call reads it. -/
structure ReservationSession (ε : Type) extends TableSession ε where
  held : Finset Reservation

namespace ReservationSession

variable {ε : Type}

/-- **One call**, which follows its arguments even if they name a reservation that was never made. -/
def make (s : ReservationSession ε) : ReservationCall ε → Run (ReservationSession ε)
  | .reserve name priority => do
    let (reserved, table) ← s.table.reserve name priority
    match reserved with
    | .error _ => pure { s with table }
    | .ok r => pure { s with table, held := insert r s.held }
  | .activate r stack entry entryPoint => do
    let table ← s.table.activate r stack entry entryPoint
    pure { s with table, held := s.held.erase r }
  | .abandon r => pure { s with table := s.table.abandon r, held := s.held.erase r }
  | .other call => do
    let session ← s.toTableSession.make call
    pure { session with held := s.held }

/-- **The rule of the client**: a reservation is used once, and is not killed before.  Other calls are
free, those with the pid of somebody else included. -/
def permits (s : ReservationSession ε) : ReservationCall ε → Bool
  | .activate r .. | .abandon r => r ∈ s.held
  | .other (.kill pid) => ∀ r ∈ s.held, r.pid ≠ pid
  | _ => true

/-- A call that keeps to the rule is made; another is not, and the session goes on. -/
def step (s : ReservationSession ε) (call : ReservationCall ε) : Run (ReservationSession ε) :=
  if s.permits call then s.make call else pure s

/-- Calls, one after the other, until one of them faults. -/
def run (s : ReservationSession ε) : List (ReservationCall ε) → Run (ReservationSession ε)
  | [] => pure s
  | call :: calls => do
    let s ← s.step call
    s.run calls

/-- A table that holds the kernel's process alone, and no reservation. -/
def start (kernelDirectory : PhysAddr) : ReservationSession ε := ⟨.start kernelDirectory, ∅⟩

end ReservationSession

open ProcessTable

section Calls

variable {ε : Type} {held : Finset Reservation}

/-- A reservation is made, and used at once if it could be made.  Then it is held in between only. -/
theorem TableSession.reserving_holds {s : TableSession ε} (h : s.table.Holds held) (name : String)
    (priority : Priority) (use : Reservation → ProcessTable ε → Run (ProcessTable ε))
    (huse : ∀ r t, t.Holds (insert r held) → (use r t).Meets OrderFault fun t' =>
      t'.Holds ((insert r held).erase r)) :
    (s.reserving name priority use).Meets OrderFault fun s' => s'.table.Holds held := by
  refine ((s.table.reserve_awaits name priority).mono (fun _ h => Or.inl ⟨.add, h.1⟩)
    fun _ h => h).bind ?_
  rintro ⟨reserved, table⟩ hreserved
  cases reserved with
  | error cause =>
      obtain ⟨-, -, rfl⟩ := hreserved
      exact Run.meets_pure h
  | ok r =>
      obtain ⟨hheld, hfresh⟩ := h.arrive hreserved
      refine (huse r table hheld).bind fun table' h' => Run.meets_pure ?_
      rwa [Finset.erase_insert hfresh] at h'

/-- **Whoever else calls**, reservations hold their slot, unless they are killed.  The calls are those
of a client that makes no reservations to keep. -/
theorem TableSession.make_holds {s : TableSession ε} (h : s.table.Holds held) {call : TableCall ε}
    (hkill : ∀ pid, call = .kill pid → ∀ r ∈ held, r.pid ≠ pid) :
    (s.make call).Meets OrderFault fun s' => s'.table.Holds held := by
  cases call with
  | create name priority stack entry entryPoint =>
      refine reserving_holds h name priority (fun r t => t.activate r stack entry entryPoint) ?_
      intro r t hheld
      exact (hheld.activate (Finset.mem_insert_self r held) stack entry entryPoint).imp
        fun t' h' => h'.1
  | giveUp name priority =>
      refine reserving_holds h name priority (fun r t => pure (t.abandon r)) fun r t hheld => ?_
      exact Run.meets_pure (hheld.abandon (Finset.mem_insert_self r held)).1
  | schedule now stored? =>
      refine ((h.schedule now).mono (fun _ he => he.orderFault) fun _ h => h).bind ?_
      rintro ⟨switch?, table⟩ ⟨hheld, hleft⟩
      cases switch? with
      | none => exact Run.meets_pure hheld
      | some w =>
          refine Run.meets_pure ?_
          cases stored? with
          | none => exact hheld
          | some stored => exact hheld.saveContext (hleft w rfl) stored
  | exit code => exact (h.exitCurrent code).bind fun _ h' => Run.meets_pure h'
  | kill pid => exact (h.kill (hkill pid rfl)).bind fun _ h' => Run.meets_pure h'
  | block => exact h.blockCurrent.bind fun _ h' => Run.meets_pure h'
  | unblock pid =>
      exact ((h.unblock pid).mono (fun _ he => Or.inr he) fun _ h => h).bind
        fun _ h' => Run.meets_pure h'
  | reap => exact h.reap.bind fun _ h' => Run.meets_pure h'
  | takeEntry => exact Run.meets_pure h.takeEntry

end Calls

namespace ReservationSession

variable {ε : Type} {s : ReservationSession ε}

/-- **One call** that is made keeps to the rule, and so every reservation still holds its slot. -/
theorem step_holds (h : s.table.Holds s.held) (call : ReservationCall ε) :
    (s.step call).Meets OrderFault fun s' => s'.table.Holds s'.held := by
  unfold step
  split
  case isFalse => exact Run.meets_pure h
  case isTrue hpermits =>
  cases call with
  | reserve name priority =>
      refine ((s.table.reserve_awaits name priority).mono (fun _ h => Or.inl ⟨.add, h.1⟩)
        fun _ h => h).bind ?_
      rintro ⟨reserved, table⟩ hreserved
      cases reserved with
      | error cause =>
          obtain ⟨-, -, rfl⟩ := hreserved
          exact Run.meets_pure h
      | ok r => exact Run.meets_pure (h.arrive hreserved).1
  | activate r stack entry entryPoint =>
      have hr : r ∈ s.held := of_decide_eq_true hpermits
      exact (h.activate hr stack entry entryPoint).bind fun _ h' => Run.meets_pure h'.1
  | abandon r => exact Run.meets_pure (h.abandon (of_decide_eq_true hpermits)).1
  | other call =>
      refine (TableSession.make_holds h fun pid heq => ?_).bind fun _ h' => Run.meets_pure h'
      subst heq
      exact of_decide_eq_true hpermits

/-- **Calls, one after the other**, by induction on the calls.  Faults are those of calls in any
order. -/
theorem run_keeps_holds (h : s.table.Holds s.held) (calls : List (ReservationCall ε)) :
    (s.run calls).Meets OrderFault fun s' => s'.table.Holds s'.held := by
  induction calls generalizing s with
  | nil => exact Run.meets_pure h
  | cons call calls ih => exact (step_holds h call).bind fun s' h' => ih h'

theorem start_holds (kernelDirectory : PhysAddr) :
    (start (ε := ε) kernelDirectory).table.Holds ∅ where
  coherent := (new_scheduled kernelDirectory).coherent
  begun s b hs hb := by
    obtain rfl : s = kernelSlot := by simpa [start, TableSession.start, ProcessTable.new] using hs
    obtain rfl := Option.some.inj hb
    nofun
  waits := by simp

/-- **Reservations hold their slot.**  A table starts with the kernel's process alone, and its
operations are called in any order, except that no reservation is used twice, and none is killed
before it is used.  Then whoever is in the slot of a reservation that is not used is new, and has its
pid; it can be activated, and becomes a process then, or be given up, and leaves the table then; and
nobody else is concerned. -/
theorem run_holds (kernelDirectory : PhysAddr) (calls : List (ReservationCall ε)) :
    ((start kernelDirectory).run calls).Meets OrderFault fun s =>
      ∀ r ∈ s.held, s.table.Waits r
        ∧ (∀ stack entry entryPoint, (s.table.activate r stack entry entryPoint).Meets OrderFault
            fun t' => Activated r s.table t')
        ∧ Abandoned r s.table (s.table.abandon r) := by
  refine (run_keeps_holds (start_holds kernelDirectory) calls).imp fun s h r hr => ?_
  refine ⟨h.waits r hr, fun stack entry entryPoint => ?_, (h.abandon hr).2⟩
  exact (h.activate hr stack entry entryPoint).imp fun t' h' => h'.2

/-- What calls that keep to no rule end in: a fault, or the processes that are in the table, and the
reservations that are held. -/
def outcome (calls : List (ReservationCall ε)) :
    Option Fault × Option (List (Pid × ProcessState) × Finset Reservation) :=
  match (calls.foldlM make (start ⟨0x1000⟩)).run .detached with
  | .error e _ => (some e, none)
  | .ok s _ => (none, some (s.table.list.map fun p => (p.pid, p.state), s.held))

/-- **Without the rule they do not.**  A process is killed while it waits to be activated: activating
it faults.  If its slot is reclaimed and held again, then activating the first reservation, or giving
it up, hits the process of the second. -/
theorem killed_reservation_hits_another :
    let first : Reservation := ⟨⟨1, by decide⟩, ⟨1⟩⟩
    let second : Reservation := ⟨⟨1, by decide⟩, ⟨2⟩⟩
    let activate : ReservationCall Unit := .activate first ⟨⟨16⟩, ⟨0x400010⟩, 4096⟩ () 0x100000
    let killed : List (ReservationCall Unit) := [.reserve "p" .normal, .other (.kill ⟨1⟩)]
    let again := killed ++ [.other .reap, .reserve "q" .normal]
    outcome (killed ++ [activate]) = (some (.notNew .terminated), none)
      ∧ outcome again = (none, some ([(.kernel, .running), (⟨2⟩, .new)], {first, second}))
      ∧ outcome (again ++ [activate]) = (none, some ([(.kernel, .running), (⟨2⟩, .ready)], {second}))
      ∧ outcome (again ++ [.abandon first]) = (none, some ([(.kernel, .running)], {second})) := by
  refine ⟨?_, ?_, ?_, ?_⟩ <;> decide +kernel

end ReservationSession

end TinyKernel
