import Mathlib.Logic.Function.Basic
import TinyKernel.Proofs.Process.Changes

/-!
# Who holds an entry

A process holds its entry from its creation until the entry is handed out or the process ends.  Seen
from outside, a table is a map from pids to entries, and the operations are updates of this map: creation
adds an entry under a new pid, an entry that is handed out or left behind is gone, and all else that is
done to a table leaves the map alone.

## What is load-bearing

A slot can be emptied without a look at its entry, and the kernel's own process can refuse to end,
because neither of them has one to lose: whoever is terminated holds no entry, and the kernel's own
process never gets one (`ProcessTable.Entrusts.spent`).

* `ProcessTable.entryOf?` — the entry of the process with a pid
* `ProcessTable.entries`, `ProcessTable.Entrusts` — who holds which entry
* `ProcessTable.Entrusts.setSlot` — the one change that there is
* `ProcessTable.Entrusts.exitCurrent`, `ProcessTable.Entrusts.kill`, `ProcessTable.Entrusts.takeEntry` —
  the operations by which entries go
* `ProcessTable.Entrusts.enrolled` — creation
-/

namespace TinyKernel.ProcessTable

open Function

variable {ε : Type} {t t' : ProcessTable ε} {s : Slot} {b c : ControlBlock ε}
  {held : Pid → Option ε} {admits : Fault → Prop}

/-- **The entry that the process with a pid holds**, if there is such a process and it holds one.  It
is a lookup by pid, as a client sees it. -/
def entryOf? (t : ProcessTable ε) (pid : Pid) : Option ε :=
  ((t.slotOf? pid).bind t.block?).bind ControlBlock.pending?

/-- **The entries of a table**, in slot order, each under the pid of the process that holds it. -/
def entries (t : ProcessTable ε) : List (Pid × ε) :=
  t.blocks.filterMap fun b => b.pending?.map (b.pid, ·)

/-- **Who holds which entry**, as a map from pids.  An operation is then said to update the map at one
pid, or not at all; which slot the process is in, and whether it runs, makes no difference to it. -/
structure Entrusts (t : ProcessTable ε) (held : Pid → Option ε) : Prop where
  pid_inj : ∀ s s' p, t.pidAt? s = some p → t.pidAt? s' = some p → s = s'
  pending?_eq : ∀ s b, t.block? s = some b → b.pending? = held b.pid
  /-- Whoever holds an entry is in the table. -/
  present : ∀ pid, held pid ≠ none → ∃ s, t.pidAt? s = some pid
  /-- Whoever is terminated holds no entry, nor does the kernel's own process. -/
  spent : ∀ s b, t.block? s = some b → b.state = .terminated ∨ b.pid = .kernel → b.pending? = none

namespace Entrusts

/-- There is one such map: the one that looking up gives. -/
theorem entryOf?_eq (e : t.Entrusts held) : t.entryOf? = held := by
  funext pid
  rw [entryOf?]
  cases hslot : t.slotOf? pid with
  | none =>
      by_contra hne
      obtain ⟨s, hs⟩ := e.present pid (Ne.symm hne)
      obtain ⟨b, hb, rfl⟩ := Option.map_eq_some_iff.mp hs
      simpa [hb] using List.find?_eq_none.mp hslot s (List.mem_finRange s)
  | some s =>
      obtain ⟨b, hb, rfl⟩ := slotOf?_eq_some hslot
      rw [Option.bind_some, hb]
      exact e.pending?_eq s b hb

/-- A process that is not there holds nothing. -/
theorem eq_none_of_slotOf? (e : t.Entrusts held) {pid : Pid} (hslot : t.slotOf? pid = none) :
    held pid = none := by
  rw [← e.entryOf?_eq, entryOf?, hslot]
  rfl

theorem eq_none_of_block? (e : t.Entrusts held) (hb : t.block? s = some b)
    (hspent : b.state = .terminated ∨ b.pid = .kernel) : held b.pid = none :=
  (e.pending?_eq s b hb).symm.trans (e.spent s b hb hspent)

/-- The kernel's own process holds nothing: it runs from the start, and was never created with an
entry. -/
theorem kernel_eq_none (e : t.Entrusts held) : held .kernel = none := by
  by_contra hne
  obtain ⟨s, hs⟩ := e.present .kernel hne
  obtain ⟨b, hb, hpid⟩ := Option.map_eq_some_iff.mp hs
  exact hne (hpid ▸ e.eq_none_of_block? hb (Or.inr hpid))

theorem mem_entries (e : t.Entrusts held) {pid : Pid} {entry : ε} :
    (pid, entry) ∈ t.entries ↔ held pid = some entry := by
  simp only [entries, List.mem_filterMap, mem_blocks, Option.map_eq_some_iff, Prod.mk.injEq]
  constructor
  · rintro ⟨b, ⟨s, hb⟩, entry, hentry, rfl, rfl⟩
    rw [← e.pending?_eq s b hb, hentry]
  · intro hheld
    obtain ⟨s, hs⟩ := e.present pid (by simp [hheld])
    obtain ⟨b, hb, rfl⟩ := Option.map_eq_some_iff.mp hs
    exact ⟨b, ⟨s, hb⟩, entry, (e.pending?_eq s b hb).trans hheld, rfl, rfl⟩

/-- Nobody holds two entries, and no two processes have one pid. -/
theorem entries_nodup (e : t.Entrusts held) : (t.entries.map Prod.fst).Nodup := by
  rw [entries, blocks, List.filterMap_filterMap, List.map_filterMap]
  refine (List.nodup_finRange _).filterMap fun s s' pid hs hs' => e.pid_inj s s' pid ?_ ?_
  all_goals
    simp only [Option.mem_def, Option.map_eq_some_iff, Option.bind_eq_some_iff] at hs hs'
    obtain ⟨_, ⟨b, hb, entry, -, rfl⟩, rfl⟩ := hs
    obtain ⟨_, ⟨b', hb', entry', -, rfl⟩, hpid⟩ := hs'
  · exact pidAt?_of_block? hb
  · rw [← hpid]
    exact pidAt?_of_block? hb'

/-- The entry of a process is told by its pid: at most one is listed under it. -/
theorem filter_entries (e : t.Entrusts held) (pid : Pid) :
    t.entries.filter (·.1 = pid) = (held pid).toList.map (pid, ·) := by
  have hmem : ∀ x, x ∈ t.entries.filter (·.1 = pid) ↔ x ∈ (held pid).toList.map (pid, ·) := by
    rintro ⟨pid', entry⟩
    rw [List.mem_filter, e.mem_entries, List.mem_map, decide_eq_true_iff]
    simp only [Option.mem_toList, Prod.mk.injEq]
    constructor
    · rintro ⟨hheld, rfl⟩
      exact ⟨entry, hheld, rfl, rfl⟩
    · rintro ⟨entry, hheld, rfl, rfl⟩
      exact ⟨hheld, rfl⟩
  have hperm := (List.perm_ext_iff_of_nodup (e.entries_nodup.of_map.filter _)
    (by cases held pid <;> simp)).mpr hmem
  cases hheld : held pid with
  | none => simpa [hheld] using hperm
  | some entry => simpa [hheld] using hperm

/-- What nobody holds need not be taken away.  So a call that fails can be said to update the map,
too. -/
theorem update_none (e : t.Entrusts held) {pid : Pid} (hnone : held pid = none) :
    t.Entrusts (update held pid none) := by
  rwa [update_eq_self_iff.mpr hnone.symm]

/-- Processes, where they are, are all that counts, and not the queue or who is current. -/
theorem of_block?_eq (e : t.Entrusts held) (block?_eq : ∀ s, t'.block? s = t.block? s) :
    t'.Entrusts held := by
  have hpid : ∀ s, t'.pidAt? s = t.pidAt? s := fun s => by rw [pidAt?, pidAt?, block?_eq]
  exact ⟨fun s s' p => by simpa only [hpid] using e.pid_inj s s' p,
    fun s b hb => e.pending?_eq s b (block?_eq s ▸ hb), by simpa only [hpid] using e.present,
    fun s b hb => e.spent s b (block?_eq s ▸ hb)⟩

/-- **A process changes**, and holds what it holds then.  Every operation on one slot comes down to
this. -/
theorem setSlot (e : t.Entrusts held) (hb : t.block? s = some b) (pid_eq : c.pid = b.pid)
    (spent : c.state = .terminated ∨ c.pid = .kernel → c.pending? = none) :
    (t.setSlot s (some c)).Entrusts (update held b.pid c.pending?) := by
  have hpid : ∀ s', (t.setSlot s (some c)).pidAt? s' = t.pidAt? s' :=
    pidAt?_setSlot_same hb pid_eq
  refine ⟨fun s₁ s₂ p => ?_, fun s' c hc => ?_, fun pid hne => ?_, fun s' c hc => ?_⟩
  · simpa only [hpid] using e.pid_inj s₁ s₂ p
  · rcases of_block?_setSlot hc with ⟨rfl, hsome⟩ | ⟨hs, hc⟩
    · obtain rfl := Option.some.inj hsome
      rw [pid_eq, update_self]
    · have hne : c.pid ≠ b.pid := fun heq => hs (e.pid_inj s' s c.pid (pidAt?_of_block? hc)
        (heq ▸ pidAt?_of_block? hb))
      rw [update_of_ne hne]
      exact e.pending?_eq s' c hc
  · by_cases heq : pid = b.pid
    · exact ⟨s, (hpid s).trans (heq ▸ pidAt?_of_block? hb)⟩
    · rw [update_of_ne heq] at hne
      obtain ⟨s', hs'⟩ := e.present pid hne
      exact ⟨s', (hpid s').trans hs'⟩
  · rcases of_block?_setSlot hc with ⟨rfl, hsome⟩ | ⟨-, hc⟩
    · obtain rfl := Option.some.inj hsome
      exact spent
    · exact e.spent s' c hc

/-- A process changes that keeps what it holds, and is not over unless it was. -/
theorem setSlot_same (e : t.Entrusts held) (hb : t.block? s = some b) (pid_eq : c.pid = b.pid)
    (pending?_eq : c.pending? = b.pending?)
    (alive : c.state = .terminated → b.state = .terminated) :
    (t.setSlot s (some c)).Entrusts held := by
  have hset := e.setSlot hb pid_eq fun h => pending?_eq.trans
    (e.spent s b hb (h.imp alive pid_eq.symm.trans))
  have hsame : update held b.pid c.pending? = held :=
    update_eq_self_iff.mpr (pending?_eq.trans (e.pending?_eq s b hb))
  rwa [hsame] at hset

/-- A process goes that is over, and so held nothing. -/
theorem setSlot_none (e : t.Entrusts held) (hb : t.block? s = some b)
    (dead : b.state = .terminated) : (t.setSlot s none).Entrusts held := by
  have hpid : ∀ {s' p}, (t.setSlot s none).pidAt? s' = some p → t.pidAt? s' = some p := by
    intro s' p hp
    rw [pidAt?_setSlot] at hp
    split at hp
    · cases hp
    · exact hp
  have hstay : ∀ {s' c}, (t.setSlot s none).block? s' = some c → t.block? s' = some c := by
    intro s' c hc
    rcases of_block?_setSlot hc with ⟨-, hc⟩ | ⟨-, hc⟩
    · cases hc
    · exact hc
  refine ⟨fun s₁ s₂ p h₁ h₂ => e.pid_inj s₁ s₂ p (hpid h₁) (hpid h₂),
    fun s' c hc => e.pending?_eq s' c (hstay hc), fun pid hne => ?_,
    fun s' c hc => e.spent s' c (hstay hc)⟩
  obtain ⟨s', hs'⟩ := e.present pid hne
  refine ⟨s', ?_⟩
  rw [pidAt?_setSlot, if_neg]
  · exact hs'
  · rintro rfl
    obtain rfl := Option.some.inj ((pidAt?_of_block? hb).symm.trans hs')
    exact hne (e.eq_none_of_block? hb (Or.inl dead))

/-! ## The end of a process -/

/-- **Whoever ends gives up its entry**, by an exit and by a kill alike. -/
theorem ended (e : t.Entrusts held) (hb : t.block? s = some b) (code : Int32) :
    (t.ended s b code).Entrusts (update held b.pid none) := by
  have hqueue : { t with ready := t.ready.filter (· ≠ s) }.Entrusts held :=
    e.of_block?_eq fun _ => rfl
  exact hqueue.setSlot (c := { b with
    state := .terminated, exitCode? := some code, stack? := none, pending? := none }) hb rfl
    fun _ => rfl

/-- **The running process exits** and leaves its entry behind; the kernel's own has none.  A refused
exit answers no entry and updates nothing, which is the same statement. -/
theorem exitCurrent (e : t.Entrusts held) (h : t.Scheduled) (code : Int32) :
    (t.exitCurrent code).Meets admits fun (result, t') =>
      result.toOption.bind Remains.pending? = held t.currentPid
        ∧ t'.Entrusts (update held t.currentPid none) := by
  refine (h.coherent.exitCurrent_cases code).imp ?_
  rintro ⟨result, t'⟩ hresult
  cases result with
  | error cause =>
      obtain ⟨hkernel, rfl⟩ := hresult
      have hnone : held t'.currentPid = none := by
        obtain ⟨b, hb, hpid⟩ := Option.map_eq_some_iff.mp h.kernel_pid
        rw [currentPid_of_block? (hkernel ▸ hb), hpid]
        exact e.kernel_eq_none
      exact ⟨hnone.symm, e.update_none hnone⟩
  | ok remains =>
      obtain ⟨-, b, hb, rfl, rfl⟩ := hresult
      rw [currentPid_of_block? hb]
      exact ⟨e.pending?_eq _ b hb, e.ended hb code⟩

/-- **A process is killed** and leaves its entry behind; whoever cannot be killed has none.  That
covers pids that nobody has. -/
theorem kill (e : t.Entrusts held) (pid : Pid) :
    (t.kill pid).Meets admits fun (result, t') =>
      result.toOption.bind (fun left => left.1.pending?) = held pid
        ∧ t'.Entrusts (update held pid none) := by
  refine (t.kill_cases pid).imp ?_
  rintro ⟨result, t'⟩ hresult
  match result with
  | .error cause =>
      obtain ⟨rfl, hrefused⟩ := hresult
      have hnone : held pid = none := by
        rcases hrefused with rfl | hslot | ⟨s, b, hb, rfl, hdead⟩
        · exact e.kernel_eq_none
        · exact e.eq_none_of_slotOf? hslot
        · exact e.eq_none_of_block? hb (Or.inl hdead)
      exact ⟨hnone.symm, e.update_none hnone⟩
  | .ok (remains, wasCurrent) =>
      obtain ⟨-, s, b, hb, rfl, -, rfl, -, rfl⟩ := hresult
      exact ⟨e.pending?_eq s b hb, e.ended hb killedExitCode⟩

/-- A slot is reclaimed, whose process has no entry left. -/
theorem reapSlot (e : t.Entrusts held) (hreap : t.reapSlot s = some t') : t'.Entrusts held := by
  obtain ⟨-, b, hb, hdead, rfl⟩ := reapSlot_cases hreap
  rcases t.removeChild_cases b.parent? b.pid with heq | ⟨s', parent, children, hparent, heq⟩
  · rw [heq]
    exact e.setSlot_none hb hdead
  · rw [heq]
    have hremove := e.setSlot_same (c := { parent with children }) hparent rfl rfl id
    -- a process that is its own parent is as dead without the child
    obtain ⟨c, hc, hcdead⟩ : ∃ c, (t.setSlot s' (some { parent with children })).block? s = some c
        ∧ c.state = .terminated := by
      rw [block?_setSlot]
      split
      case isTrue hself =>
        obtain rfl := Option.some.inj (hb.symm.trans (hself ▸ hparent))
        exact ⟨_, rfl, hdead⟩
      case isFalse => exact ⟨b, hb, hdead⟩
    exact hremove.setSlot_none hc hcdead

theorem reapSlots (e : t.Entrusts held) (count : Nat) (slots : List Slot) :
    (t.reapSlots count slots).2.Entrusts held := by
  induction slots generalizing t count with
  | nil => exact e
  | cons s rest ih =>
      rw [ProcessTable.reapSlots]
      cases hreap : t.reapSlot s with
      | none => exact ih e count
      | some t' => exact ih (e.reapSlot hreap) (count + 1)

/-- Reclamation finds no entries, as those who are over gave theirs up. -/
theorem reap (e : t.Entrusts held) :
    t.reap.Meets admits fun (_, t') => t'.Entrusts held := by
  have hreaped := e.reapSlots 0 (allSlots.filter (· ≠ kernelSlot))
  unfold ProcessTable.reap
  generalize t.reapSlots 0 (allSlots.filter (· ≠ kernelSlot)) = reaped at hreaped
  dsimp only
  split
  · exact Run.meets_log_bind (Run.meets_pure hreaped)
  · exact Run.meets_pure hreaped

/-! ## Waiting and dispatch -/

theorem blockCurrent (e : t.Entrusts held) (c : t.Coherent) :
    t.blockCurrent.Meets admits fun (_, t') => t'.Entrusts held := by
  refine c.blockCurrent_cases.imp ?_
  rintro ⟨result, t'⟩ hresult
  cases result with
  | error cause =>
      obtain ⟨-, rfl⟩ := hresult
      exact e
  | ok =>
      obtain ⟨-, b, hb, rfl⟩ := hresult
      exact e.setSlot_same hb rfl rfl (nomatch ·)

theorem unblock (e : t.Entrusts held) {pid : Pid} {result : Except ProcessError Unit}
    (hunblock : t.unblock pid = .ok (result, t')) : t'.Entrusts held := by
  rcases t.unblock_cases pid with ⟨cause, hsame⟩ | ⟨s, b, hb, -, -, hfull | hready⟩
  · cases hsame.symm.trans hunblock
    exact e
  · cases hfull.symm.trans hunblock
  · cases hready.symm.trans hunblock
    have hset := e.setSlot_same (c := { b with state := .ready }) hb rfl rfl (nomatch ·)
    exact hset.of_block?_eq fun _ => rfl

/-- The current process makes way, with the entry that it may still hold. -/
theorem suspended (e : t.Entrusts held) (rest : List Slot) {outgoing : ControlBlock ε}
    (hout : t.block? t.current = some outgoing) (cpuTime : Nat) :
    (t.suspended rest outgoing cpuTime).Entrusts held := by
  unfold ProcessTable.suspended
  split
  · have hset := e.setSlot_same (c := { outgoing with cpuTime, state := .ready }) hout rfl rfl
      (nomatch ·)
    exact hset.of_block?_eq fun _ => rfl
  · have hset := e.setSlot_same (c := { outgoing with cpuTime }) hout rfl rfl id
    exact hset.of_block?_eq fun _ => rfl

/-- **A dispatch moves no entry.**  A process takes its entry when it asks for it, and not when it
first runs. -/
theorem schedule (e : t.Entrusts held) (c : t.Coherent) (now : Nat) :
    (t.schedule now).Meets (fun _ => True) fun (_, t') => t'.Entrusts held := by
  refine (c.schedule_cases now).lax.imp ?_
  rintro ⟨switch?, t'⟩ hdone
  cases switch? with
  | none =>
      obtain ⟨-, rfl⟩ := hdone
      exact e
  | some w =>
      obtain ⟨next, rest, outgoing, t₁, incoming, -, hout, rfl, hin, -, -, rfl⟩ := hdone
      have hsuspend := e.suspended rest hout (outgoing.cpuTime + (now - outgoing.dispatchedAt))
      have hset := hsuspend.setSlot_same
        (c := { incoming with state := .running, dispatchedAt := now }) hin rfl rfl (nomatch ·)
      exact hset.of_block?_eq fun _ => rfl

/-! ## Handing out and creation -/

/-- **The entry of the running process is handed out**, and is gone then.  A second call finds none. -/
theorem takeEntry (e : t.Entrusts held) (c : t.Coherent) :
    t.takeEntry.1 = held t.currentPid
      ∧ t.takeEntry.2.Entrusts (update held t.currentPid none) := by
  obtain ⟨b, hb⟩ := Option.isSome_iff_exists.mp c.occupied
  rw [takeEntry_eq hb, currentPid_of_block? hb]
  exact ⟨e.pending?_eq _ b hb, e.setSlot (c := { b with pending? := none }) hb rfl fun _ => rfl⟩

/-- Whoever takes note of a child holds what it held. -/
theorem noted (e : t.Entrusts held) (pid : Pid) : (t.noted pid).Entrusts held := by
  rw [ProcessTable.noted, modifySlot]
  cases hb : t.block? t.current with
  | none =>
      rw [Option.map_none, ← hb, setSlot_block?]
      exact e
  | some b => exact e.setSlot_same hb rfl rfl id

/-- **Somebody moves into a free slot**, under a pid that nobody had, and brings an entry along. -/
theorem arrive (e : t.Entrusts held) (hfree : t.block? s = none)
    (fresh : ∀ s', t.pidAt? s' ≠ some b.pid) (halive : b.state ≠ .terminated)
    (hkernel : b.pid ≠ .kernel) :
    (t.setSlot s (some b)).Entrusts (update held b.pid b.pending?) := by
  have hpidAt : ∀ s', (t.setSlot s (some b)).pidAt? s'
      = if s' = s then some b.pid else t.pidAt? s' := fun s' => pidAt?_setSlot t s s' (some b)
  constructor
  case pid_inj =>
    intro s₁ s₂ p h₁ h₂
    rw [hpidAt] at h₁ h₂
    split at h₁ <;> split at h₂
    case isTrue.isTrue heq₁ heq₂ => rw [heq₁, heq₂]
    case isTrue.isFalse => exact absurd (h₂.trans h₁.symm) (fresh s₂)
    case isFalse.isTrue => exact absurd (h₁.trans h₂.symm) (fresh s₁)
    case isFalse.isFalse => exact e.pid_inj s₁ s₂ p h₁ h₂
  case pending?_eq =>
    intro s' c hc
    rcases of_block?_setSlot hc with ⟨rfl, hsome⟩ | ⟨-, hc⟩
    · obtain rfl := Option.some.inj hsome
      rw [update_self]
    · have hne : c.pid ≠ b.pid := fun heq => fresh s' (heq ▸ pidAt?_of_block? hc)
      rw [update_of_ne hne]
      exact e.pending?_eq s' c hc
  case present =>
    intro pid hne
    by_cases heq : pid = b.pid
    · exact ⟨s, by rw [hpidAt, if_pos rfl, heq]⟩
    · rw [update_of_ne heq] at hne
      obtain ⟨s', hs'⟩ := e.present pid hne
      refine ⟨s', ?_⟩
      rw [hpidAt, if_neg]
      · exact hs'
      · rintro rfl
        rw [pidAt?, hfree] at hs'
        cases hs'
  case spent =>
    intro s' c hc
    rcases of_block?_setSlot hc with ⟨rfl, hsome⟩ | ⟨-, hc⟩
    · obtain rfl := Option.some.inj hsome
      rintro (hdead | hpid)
      · exact absurd hdead halive
      · exact absurd hpid hkernel
    · exact e.spent s' c hc

/-- **Whoever is created holds its entry**, under a pid that nobody had.  The creator keeps its own. -/
theorem enrolled (e : t.Entrusts held) (h : t.Scheduled) {stack : Stack} {entry : ε} {name : String}
    {priority : Priority} (hfree : t.block? s = none)
    (starts : b.Starts (t.birth name priority) stack entry) :
    held b.pid = none ∧ (t.enrolled s b).Entrusts (update held b.pid (some entry)) := by
  have hpid : b.pid = ⟨t.nextPid⟩ := congrArg ProcessInfo.pid starts.info_eq
  have hready : b.state = .ready := congrArg ProcessInfo.state starts.info_eq
  have fresh : ∀ s', t.pidAt? s' ≠ some b.pid := by
    intro s' hs'
    have hlt := h.pid_lt s' _ hs'
    rw [hpid] at hlt
    exact UInt32.lt_irrefl _ hlt
  have hnone : held b.pid = none := by
    by_contra hne
    obtain ⟨s', hs'⟩ := e.present b.pid hne
    exact fresh s' hs'
  have hset : (t.setSlot s (some b)).Entrusts (update held b.pid b.pending?) := by
    refine e.arrive hfree fresh (by simp [hready]) fun hkernel => ?_
    exact fresh kernelSlot (hkernel ▸ h.kernel_pid)
  rw [starts.pending_eq] at hset
  have hqueue : { { t with nextPid := t.nextPid + 1 }.setSlot s (some b) with
      ready := t.ready ++ [s] }.Entrusts (update held b.pid (some entry)) :=
    hset.of_block?_eq fun _ => rfl
  exact ⟨hnone, hqueue.noted b.pid⟩

/-- The kernel's own process, which is alone at first, holds nothing. -/
theorem new (kernelDirectory : PhysAddr) :
    (ProcessTable.new kernelDirectory : ProcessTable ε).Entrusts fun _ => none := by
  have hpending : ∀ s b, (ProcessTable.new kernelDirectory : ProcessTable ε).block? s = some b →
      b.pending? = none := by
    obtain ⟨empty, kernel, hempty, hpending, hnew⟩ : ∃ (empty : ProcessTable ε) (kernel : ControlBlock ε),
        (∀ s, empty.block? s = none) ∧ kernel.pending? = none
          ∧ ProcessTable.new kernelDirectory = empty.setSlot kernelSlot (some kernel) := by
      refine ⟨⟨.replicate maxProcesses none, [], kernelSlot, 1⟩, _, fun s => ?_, ?_, rfl⟩
      · exact Vector.getElem_replicate ..
      · rfl
    intro s b hb
    rw [hnew] at hb
    rcases of_block?_setSlot hb with ⟨-, hsome⟩ | ⟨-, hnone⟩
    · exact Option.some.inj hsome ▸ hpending
    · cases (hempty s).symm.trans hnone
  exact ⟨(new_scheduled kernelDirectory).pid_inj, hpending, fun _ hne => absurd rfl hne,
    fun s b hb _ => hpending s b hb⟩

end Entrusts

end TinyKernel.ProcessTable
