import TinyKernel.Proofs.Process.Changes

/-!
# Termination is final

Whatever is called afterwards, and in whatever order: a process that is terminated stays so, with the
exit code that it has, until its slot is reclaimed; it is not queued, and it does not run again.

There is one thing that a caller has to see to.  Between the end of the running process and the next
dispatch the current slot holds a terminated process, and neither `exitCurrent` nor `blockCurrent`
looks at its state: the one replaces the exit code, and the other makes a blocked process out of it,
which can be unblocked and runs again (`TableSession.blocked_runs_again`).  `kill` does look.

* `ProcessTable.Settles` — what a call leaves of the processes that were there
* `TableSession` — a table whose operations are called in any order
* `TableSession.run_final` — termination is final, unless the dead exit or block
-/

namespace TinyKernel

/-- **What becomes of a process**: what it was created with stays, its time does not decrease, and if
it is terminated it stays so, with its exit code.  It is transitive, and so holds over any number of
calls. -/
structure ControlBlock.Becomes {ε : Type} (b b' : ControlBlock ε) : Prop where
  pid_eq : b'.pid = b.pid
  name_eq : b'.name = b.name
  priority_eq : b'.priority = b.priority
  parent?_eq : b'.parent? = b.parent?
  cpuTime_le : b.cpuTime ≤ b'.cpuTime
  final : b.state = .terminated → b'.state = .terminated ∧ b'.exitCode? = b.exitCode?

namespace ControlBlock.Becomes

variable {ε : Type} {b b' b'' : ControlBlock ε}

theorem refl (b : ControlBlock ε) : b.Becomes b :=
  ⟨rfl, rfl, rfl, rfl, Nat.le_refl _, fun hdead => ⟨hdead, rfl⟩⟩

theorem trans (h : b.Becomes b') (h' : b'.Becomes b'') : b.Becomes b'' where
  pid_eq := h'.pid_eq.trans h.pid_eq
  name_eq := h'.name_eq.trans h.name_eq
  priority_eq := h'.priority_eq.trans h.priority_eq
  parent?_eq := h'.parent?_eq.trans h.parent?_eq
  cpuTime_le := Nat.le_trans h.cpuTime_le h'.cpuTime_le
  final hdead := by
    obtain ⟨hdead', hcode⟩ := h.final hdead
    obtain ⟨hdead'', hcode'⟩ := h'.final hdead'
    exact ⟨hdead'', hcode'.trans hcode⟩

/-- Whom it has a note of makes no difference to a process. -/
theorem of_children (b : ControlBlock ε) (children : List Pid) : b.Becomes { b with children } :=
  ⟨rfl, rfl, rfl, rfl, Nat.le_refl _, fun hdead => ⟨hdead, rfl⟩⟩

/-- A process that changes, but not on record, if its users are lawful. -/
theorem of_alters (h : b.Alters True b') : b.Becomes b' where
  pid_eq := congrArg ProcessInfo.pid h.info_eq
  name_eq := congrArg ProcessInfo.name h.info_eq
  priority_eq := congrArg ProcessInfo.priority h.info_eq
  parent?_eq := congrArg ProcessInfo.parent? h.info_eq
  cpuTime_le := Nat.le_of_eq (congrArg ProcessInfo.cpuTime h.info_eq).symm
  final hdead := ⟨h.final trivial hdead, congrArg ProcessInfo.exitCode? h.info_eq⟩

end ControlBlock.Becomes

namespace ProcessTable

variable {ε : Type} {t t' t'' : ProcessTable ε} {s : Slot} {b b' : ControlBlock ε} {reaping : Prop}
  {events : List Event} {admits : Fault → Prop}

/-- **What is left** of the processes that were in the table.  Whoever is in the table afterwards is
new, or was there before in the same slot; and nobody leaves it unless slots are reclaimed.  Pids are
not given twice, which the last field is for. -/
structure Settles (reaping : Prop) (t t' : ProcessTable ε) : Prop where
  coherent : Coherent t'
  came : ∀ s b', t'.block? s = some b' →
    t.nextPid ≤ b'.pid.val ∨ ∃ b, t.block? s = some b ∧ b.Becomes b'
  stays : reaping ∨ ∀ s b, t.block? s = some b → ∃ b', t'.block? s = some b' ∧ b'.pid = b.pid
  nextPid_le : t.nextPid ≤ t'.nextPid

namespace Settles

theorem trans (h : Settles reaping t t') (h' : Settles reaping t' t'') : Settles reaping t t'' where
  coherent := h'.coherent
  came s b'' hb'' := by
    rcases h'.came s b'' hb'' with hnew | ⟨b', hb', becomes'⟩
    · exact Or.inl (UInt32.le_trans h.nextPid_le hnew)
    rcases h.came s b' hb' with hnew | ⟨b, hb, becomes⟩
    · exact Or.inl (becomes'.pid_eq ▸ hnew)
    · exact Or.inr ⟨b, hb, becomes.trans becomes'⟩
  stays := by
    rcases h.stays with hreap | hstays
    · exact Or.inl hreap
    rcases h'.stays with hreap | hstays'
    · exact Or.inl hreap
    refine Or.inr fun s b hb => ?_
    obtain ⟨b', hb', hpid⟩ := hstays s b hb
    obtain ⟨b'', hb'', hpid'⟩ := hstays' s b' hb'
    exact ⟨b'', hb'', hpid'.trans hpid⟩
  nextPid_le := UInt32.le_trans h.nextPid_le h'.nextPid_le

theorem mono {reaping' : Prop} (h : Settles reaping t t') (himp : reaping → reaping') :
    Settles reaping' t t' :=
  ⟨h.coherent, h.came, h.stays.imp himp id, h.nextPid_le⟩

theorem refl (c : Coherent t) : Settles reaping t t where
  coherent := c
  came _ b hb := Or.inr ⟨b, hb, .refl b⟩
  stays := Or.inr fun _ b hb => ⟨b, hb, rfl⟩
  nextPid_le := UInt32.le_refl _

end Settles

/-- Where one process changes, everybody is who they were. -/
theorem came_setSlot (hb : t.block? s = some b) (becomes : b.Becomes b') {s' : Slot}
    {b'' : ControlBlock ε} (hb'' : (t.setSlot s (some b')).block? s' = some b'') :
    ∃ b₀, t.block? s' = some b₀ ∧ b₀.Becomes b'' := by
  rcases of_block?_setSlot hb'' with ⟨rfl, heq⟩ | ⟨-, hb''⟩
  · obtain rfl := Option.some.inj heq
    exact ⟨b, hb, becomes⟩
  · exact ⟨b'', hb'', .refl b''⟩

/-- **Whoever is in the table after a change** is new, or was there before.  It is proved by the kind
of the change, and the rest of `Settles` is about pids. -/
theorem Change.came (h : Change True t events t') (c : Coherent t) (hb' : t'.block? s = some b') :
    t.nextPid ≤ b'.pid.val ∨ ∃ b, t.block? s = some b ∧ b.Becomes b' := by
  cases h with
  | queued ready alive => exact Or.inr ⟨b', hb', .refl b'⟩
  | altered hb alters => exact Or.inr (came_setSlot hb (.of_alters alters) hb')
  | ended hb alive code =>
      rw [block?_ended] at hb'
      refine Or.inr (came_setSlot hb ?_ hb')
      exact ⟨rfl, rfl, rfl, rfl, Nat.le_refl _, fun hdead => absurd hdead (alive trivial)⟩
  | charged hb ticks =>
      refine Or.inr (came_setSlot hb ?_ hb')
      exact ⟨rfl, rfl, rfl, rfl, Nat.le_add_right _ _, fun hdead => ⟨hdead, rfl⟩⟩
  | dispatched hb alive now =>
      rw [block?_withCurrent] at hb'
      refine Or.inr (came_setSlot hb ?_ hb')
      exact ⟨rfl, rfl, rfl, rfl, Nat.le_refl _, fun hdead => absurd hdead alive⟩
  | skipped fits => exact Or.inr ⟨b', hb', .refl b'⟩
  | created hfree fits hbirth info_eq =>
      rcases c.of_block?_enrolled hfree hb' with ⟨-, rfl⟩ | ⟨b₀, children, hb₀, rfl⟩
      · rw [birth_pid hbirth info_eq]
        exact Or.inl (UInt32.le_refl _)
      · exact Or.inr ⟨b₀, hb₀, .of_children b₀ children⟩
  | reclaimed hs hb dead =>
      obtain ⟨b₀, children, hb₀, rfl⟩ := c.of_block?_reclaimed hb'
      exact Or.inr ⟨b₀, hb₀, .of_children b₀ children⟩

/-- **Every change settles.**  Slots are reclaimed in it if it says so among its events. -/
theorem Change.settles (h : Change True t events t') (c : Coherent t) :
    Settles (∃ pid, .reclaimed pid ∈ events) t t' where
  coherent := h.coherent c
  came _ _ hb' := h.came c hb'
  stays := by
    by_cases hreap : ∃ pid, .reclaimed pid ∈ events
    · exact Or.inl hreap
    · exact Or.inr fun s b hb => (h.stays c hb).resolve_left fun hmem => hreap ⟨_, hmem⟩
  nextPid_le := h.nextPid_le

theorem Path.settles (h : Path True t events t') (c : Coherent t) :
    Settles (∃ pid, .reclaimed pid ∈ events) t t' := by
  induction h with
  | refl => exact .refl c
  | step change _ ih =>
      have hchange := change.settles c
      refine (hchange.mono ?_).trans ((ih hchange.coherent).mono ?_)
      · exact fun ⟨pid, hpid⟩ => ⟨pid, List.mem_append_left _ hpid⟩
      · exact fun ⟨pid, hpid⟩ => ⟨pid, List.mem_append_right _ hpid⟩

/-! ## Finished processes -/

/-- **A process is over**: whoever has its pid is terminated, with its exit code.  Nobody has it once
the slot is reclaimed, and nobody will, as the pid was given already. -/
structure Finished (pid : Pid) (code? : Option Int32) (t : ProcessTable ε) : Prop where
  pid_lt : pid.val < t.nextPid
  final : ∀ s b, t.block? s = some b → b.pid = pid → b.state = .terminated ∧ b.exitCode? = code?

theorem Coherent.finished (c : Coherent t) (hb : t.block? s = some b) (hdead : b.state = .terminated) :
    Finished b.pid b.exitCode? t where
  pid_lt := c.pid_lt s b.pid (pidAt?_of_block? hb)
  final s' b' hb' hpid := by
    obtain rfl := c.pid_inj s s' b.pid (pidAt?_of_block? hb)
      ((pidAt?_of_block? hb').trans (congrArg some hpid))
    obtain rfl := Option.some.inj (hb.symm.trans hb')
    exact ⟨hdead, rfl⟩

namespace Finished

variable {pid : Pid} {code? : Option Int32}

/-- **Whoever is over stays so.**  Whoever is new has another pid, and whoever was there before keeps
the code. -/
theorem settles (f : Finished pid code? t) (h : Settles reaping t t') : Finished pid code? t' where
  pid_lt := UInt32.lt_of_lt_of_le f.pid_lt h.nextPid_le
  final s b' hb' hpid := by
    rcases h.came s b' hb' with hnew | ⟨b, hb, becomes⟩
    · exact absurd (hpid ▸ f.pid_lt) (UInt32.not_lt.mpr hnew)
    · obtain ⟨hdead, hcode⟩ := f.final s b hb (becomes.pid_eq.symm.trans hpid)
      obtain ⟨hdead', hcode'⟩ := becomes.final hdead
      exact ⟨hdead', hcode'.trans hcode⟩

theorem not_mem_readyPids (f : Finished pid code? t) (c : Coherent t) : pid ∉ t.readyPids := by
  intro hmem
  obtain ⟨s, hs, hpid⟩ := List.mem_filterMap.mp hmem
  obtain ⟨b, hb, hstate⟩ := c.alive s hs
  rw [hb] at hpid
  exact hstate (f.final s b hb (Option.some.inj hpid)).1

end Finished

end ProcessTable

/-! ## Calls in any order -/

/-- **What can be asked of a process table**, in any order.  At a dispatch the processor may store
registers for the process that it leaves.  No call is followed by a dispatch of its own, as it is in a
kernel. -/
inductive TableCall (ε : Type) where
  /-- A slot is reserved, and made a process at once. -/
  | create (name : String) (priority : Priority) (stack : Stack) (entry : ε) (entryPoint : UInt32)
  /-- A slot is reserved, and given up at once. -/
  | giveUp (name : String) (priority : Priority)
  | schedule (now : Nat) (stored? : Option Context)
  | exit (code : Int32)
  | kill (pid : Pid)
  | block
  | unblock (pid : Pid)
  | reap
  | takeEntry

/-- **A process table**, with the pids of those who were dispatched, the latest first.  A dispatch that
finds nobody adds none. -/
structure TableSession (ε : Type) where
  table : ProcessTable ε
  dispatched : List Pid

namespace TableSession

variable {ε : Type}

/-- A reservation is made, and used at once if it could be made. -/
def reserving (s : TableSession ε) (name : String) (priority : Priority)
    (use : Reservation → ProcessTable ε → Run (ProcessTable ε)) : Run (TableSession ε) := do
  let (reserved, table) ← s.table.reserve name priority
  match reserved with
  | .error _ => pure { s with table }
  | .ok r =>
    let table ← use r table
    pure { s with table }

/-- **One call**, whoever is current.  Answers are not kept, as the table shows what was done. -/
def make (s : TableSession ε) : TableCall ε → Run (TableSession ε)
  | .create name priority stack entry entryPoint =>
    s.reserving name priority fun r table => table.activate r stack entry entryPoint
  | .giveUp name priority => s.reserving name priority fun r table => pure (table.abandon r)
  | .schedule now stored? => do
    let (switch?, table) ← s.table.schedule now
    match switch? with
    | none => pure { s with table }
    | some w => pure {
        table := stored?.elim table (table.saveContext w.fromSlot)
        dispatched := w.toPid :: s.dispatched }
  | .exit code => do
    let (_, table) ← s.table.exitCurrent code
    pure { s with table }
  | .kill pid => do
    let (_, table) ← s.table.kill pid
    pure { s with table }
  | .block => do
    let (_, table) ← s.table.blockCurrent
    pure { s with table }
  | .unblock pid => do
    let (_, table) ← s.table.unblock pid
    pure { s with table }
  | .reap => do
    let (_, table) ← s.table.reap
    pure { s with table }
  | .takeEntry => pure { s with table := s.table.takeEntry.2 }

/-- **The rule of the client**: whoever is terminated neither exits nor blocks.  That is the current
process, between its end and the next dispatch. -/
def permits (s : TableSession ε) : TableCall ε → Bool
  | .exit _ | .block => s.table.stateAt? s.table.current ≠ some .terminated
  | _ => true

/-- A call that keeps to the rule is made; another is not, and nothing happens. -/
def step (s : TableSession ε) (call : TableCall ε) : Run (TableSession ε) :=
  if s.permits call then s.make call else pure s

/-- Calls, one after the other, until one of them faults. -/
def run (s : TableSession ε) : List (TableCall ε) → Run (TableSession ε)
  | [] => pure s
  | call :: calls => do
    let s ← s.step call
    s.run calls

/-- A table that holds the kernel's process alone, which was not dispatched but is current. -/
def start (kernelDirectory : PhysAddr) : TableSession ε := ⟨.new kernelDirectory, []⟩

/-! ## What calls preserve -/

open ProcessTable

variable {s s' s'' : TableSession ε} {reaping reaping' : Prop} {table : ProcessTable ε}

/-- **How a session goes on**: its table settles, and nobody is dispatched who was over.  The list of
the dispatched grows at its head, so that what was added is a prefix of it and can be named. -/
structure Continues (reaping : Prop) (s s' : TableSession ε) : Prop where
  settles : Settles reaping s.table s'.table
  dispatched : ∃ since, s'.dispatched = since ++ s.dispatched ∧
    ∀ pid code?, s.table.Finished pid code? → pid ∉ since

namespace Continues

theorem refl (c : s.table.Coherent) : Continues reaping s s :=
  ⟨.refl c, [], rfl, by simp⟩

theorem trans (h : Continues reaping s s') (h' : Continues reaping s' s'') :
    Continues reaping s s'' := by
  obtain ⟨since, hsince, hnot⟩ := h.dispatched
  obtain ⟨since', hsince', hnot'⟩ := h'.dispatched
  refine ⟨h.settles.trans h'.settles, since' ++ since, ?_, fun pid code? f => ?_⟩
  · rw [hsince', hsince, List.append_assoc]
  · rw [List.mem_append, not_or]
    exact ⟨hnot' pid code? (f.settles h.settles), hnot pid code? f⟩

theorem mono (h : Continues reaping s s') (himp : reaping → reaping') : Continues reaping' s s' :=
  ⟨h.settles.mono himp, h.dispatched⟩

/-- Nobody is dispatched, and then it is the table alone that has to settle. -/
theorem undispatched (h : Settles reaping s.table table) : Continues reaping s { s with table } :=
  ⟨h, [], rfl, by simp⟩

end Continues

/-- **A dispatch of somebody**, who can run: the one that was running is charged for the ticks since
its own dispatch.  The two may be one process. -/
structure Switched (lawful : Prop) (s : TableSession ε) (now : Nat) (outgoing b : ControlBlock ε)
    (table : ProcessTable ε) : Prop where
  queued : s.table.ready ≠ []
  hout : s.table.block? s.table.current = some outgoing
  hb : ∃ slot, s.table.block? slot = some b
  alive : b.state ≠ .terminated
  path : Path lawful s.table
    [.charged outgoing.pid (now - outgoing.dispatchedAt), .dispatched b.pid now] table

/-- **One call of a client**, as changes of the table.  Either nobody is dispatched, and then nobody's
time is touched; or somebody is.  What is proved of the two holds of all calls. -/
inductive Made (lawful : Prop) (s : TableSession ε) (call : TableCall ε) : TableSession ε → Prop where
  | quiet {table : ProcessTable ε} {events : List Event} (path : Path lawful s.table events table)
      (timeless : ∀ e ∈ events, e.timeless)
      (reclaims : ∀ pid, .reclaimed pid ∈ events → call = .reap) :
      Made lawful s call { s with table }
  | switched {table : ProcessTable ε} {now : Nat} {stored? : Option Context}
      {outgoing b : ControlBlock ε} (hcall : call = .schedule now stored?)
      (h : Switched lawful s now outgoing b table) : Made lawful s call ⟨table, b.pid :: s.dispatched⟩

/-- A reservation is used at once, in one way or another.  No time is touched, and no slot is
reclaimed. -/
theorem reserving_made {lawful : Prop} {call : TableCall ε} (name : String) (priority : Priority)
    (use : Reservation → ProcessTable ε → Run (ProcessTable ε))
    (huse : ∀ r table, s.table.Awaits (s.table.birth name priority) r table →
      (use r table).Meets OrderFault fun table => ∃ events, Path lawful s.table events table
        ∧ (∀ e ∈ events, e.timeless) ∧ ∀ pid, .reclaimed pid ∉ events) :
    (s.reserving name priority use).Meets OrderFault (Made lawful s call) := by
  refine ((s.table.reserve_awaits name priority).mono (fun _ h => Or.inl ⟨.add, h.1⟩)
    fun _ h => h).bind ?_
  rintro ⟨reserved, table⟩ hreserved
  cases reserved with
  | error cause =>
      obtain ⟨-, -, rfl⟩ := hreserved
      exact Run.meets_pure (.quiet (.refl _) (by simp) (by simp))
  | ok r =>
      refine (huse r table hreserved).bind fun table' ⟨events, hpath, htimeless, hreclaims⟩ => ?_
      exact Run.meets_pure (.quiet hpath htimeless fun pid hpid => absurd hpid (hreclaims pid))

/-- **A dispatch**, which finds nobody queued and does nothing, or dispatches somebody.  Its faults are
named, so that a client with a clock can exclude them. -/
theorem schedule_made (lawful : Prop) (c : s.table.Coherent) (now : Nat) (stored? : Option Context) :
    (s.make (.schedule now stored?)).Meets (ChargeFault now s.table) fun s' =>
      s.table.ready = [] ∧ s' = s ∨ ∃ outgoing b table, Switched lawful s now outgoing b table
        ∧ s' = ⟨table, b.pid :: s.dispatched⟩ := by
  refine (c.schedule_path lawful now).bind ?_
  rintro ⟨switch?, table⟩ hswitch
  cases switch? with
  | none =>
      obtain ⟨hready, rfl⟩ := hswitch
      exact Run.meets_pure (Or.inl ⟨hready, rfl⟩)
  | some w =>
      obtain ⟨hqueue, hfrom, ⟨slot, b, hb, hpid, hstate⟩, outgoing, hout, hpath⟩ := hswitch
      have hleft : (table.block? w.fromSlot).isSome := by
        obtain ⟨left, hleft, -⟩ := (hpath.stays c hout).resolve_left (by simp)
        rw [hfrom, hleft]
        rfl
      rw [← hpid] at hpath
      refine Run.meets_pure
        (Or.inr ⟨outgoing, b, _, ⟨hqueue, hout, ⟨slot, hb⟩, hstate, ?_⟩, by rw [hpid]⟩)
      cases stored? with
      | none => exact hpath
      | some stored => exact hpath.trans (Coherent.saveContext_path hleft stored)

/-- **Every call is made** in one of these ways.  The rule is only needed where the client is said to
be lawful. -/
theorem make_made (lawful : Prop) (c : s.table.Coherent) {call : TableCall ε}
    (hpermits : lawful → s.permits call = true) :
    (s.make call).Meets OrderFault (Made lawful s call) := by
  cases call with
  | create name priority stack entry entryPoint =>
      refine reserving_made name priority (fun r table => table.activate r stack entry entryPoint)
        fun r table hr => ?_
      exact (hr.activate_path stack entry entryPoint).imp fun table' hpath =>
        ⟨_, hpath, by simp [Event.timeless], by simp⟩
  | giveUp name priority =>
      exact reserving_made name priority (fun r table => pure (table.abandon r)) fun r table hr =>
        Run.meets_pure ⟨_, hr.abandon_path, by simp, by simp⟩
  | schedule now stored? =>
      refine (schedule_made lawful c now stored?).mono (fun _ h => h.orderFault) fun s' hmade => ?_
      obtain ⟨-, rfl⟩ | ⟨outgoing, b, table, hswitched, rfl⟩ := hmade
      · exact .quiet (.refl _) (by simp) (by simp)
      · exact .switched rfl hswitched
  | exit code =>
      refine (c.exitCurrent_path lawful (fun h => of_decide_eq_true (hpermits h)) code).bind ?_
      rintro ⟨result, table⟩ hresult
      cases result with
      | error cause =>
          obtain rfl := hresult
          exact Run.meets_pure (.quiet (.refl _) (by simp) (by simp))
      | ok => exact Run.meets_pure (.quiet hresult (by simp [Event.timeless]) (by simp))
  | kill pid =>
      refine (Coherent.kill_path lawful s.table pid).bind ?_
      rintro ⟨result, table⟩ hresult
      cases result with
      | error cause =>
          obtain rfl := hresult
          exact Run.meets_pure (.quiet (.refl _) (by simp) (by simp))
      | ok => exact Run.meets_pure (.quiet hresult (by simp [Event.timeless]) (by simp))
  | block =>
      exact (c.blockCurrent_path lawful fun h => of_decide_eq_true (hpermits h)).bind fun _ hpath =>
        Run.meets_pure (.quiet hpath (by simp) (by simp))
  | unblock pid =>
      exact ((c.unblock_path lawful pid).mono (fun _ h => Or.inr h) fun _ h => h).bind
        fun _ hpath => Run.meets_pure (.quiet hpath (by simp) (by simp))
  | reap =>
      refine (c.reap_path lawful).bind fun _ ⟨pids, hpath⟩ => Run.meets_pure ?_
      exact .quiet hpath (by simp [Event.timeless]) fun _ _ => rfl
  | takeEntry => exact Run.meets_pure (.quiet c.takeEntry_path (by simp) (by simp))

/-- **One call** of a lawful client: its path settles, and whoever is dispatched can run. -/
theorem make_continues (c : s.table.Coherent) {call : TableCall ε} (hpermits : s.permits call = true) :
    (s.make call).Meets OrderFault (Continues (call = .reap) s) := by
  refine (make_made True c fun _ => hpermits).imp fun s' made => ?_
  cases made with
  | quiet path _ reclaims =>
      exact .undispatched ((path.settles c).mono fun ⟨pid, hpid⟩ => reclaims pid hpid)
  | @switched table now stored? outgoing b hcall h =>
      refine ⟨(h.path.settles c).mono (by simp), [b.pid], rfl, fun pid code? f => ?_⟩
      obtain ⟨slot, hb⟩ := h.hb
      rw [List.mem_singleton]
      rintro rfl
      exact h.alive (f.final slot b hb rfl).1

theorem step_continues (c : s.table.Coherent) (call : TableCall ε) :
    (s.step call).Meets OrderFault (Continues (call = .reap) s) := by
  unfold step
  split
  case isTrue hpermits => exact make_continues c hpermits
  case isFalse => exact Run.meets_pure (.refl c)

/-- **Calls, one after the other**, by induction on the calls.  Slots are reclaimed if one of the calls
was to do so. -/
theorem run_continues (c : s.table.Coherent) (calls : List (TableCall ε)) :
    (s.run calls).Meets OrderFault (Continues (.reap ∈ calls) s) := by
  induction calls generalizing s with
  | nil => exact Run.meets_pure (.refl c)
  | cons call calls ih =>
      refine (step_continues c call).bind fun s₁ h₁ => ?_
      refine (ih h₁.settles.coherent).imp fun s' h' => ?_
      exact (h₁.mono fun heq => by simp [heq]).trans (h'.mono fun hmem => by simp [hmem])

/-- **Termination is final.**  A table starts with the kernel's process alone, and its operations are
called in any order, except that nobody who is terminated exits or blocks.  Then whoever is
terminated at some point is over: whatever is called later, the process is terminated with the same
exit code as long as it is in the table; it is in its slot until slots are reclaimed; it is not in
the queue; and it is not dispatched. -/
theorem run_final (kernelDirectory : PhysAddr) (calls : List (TableCall ε)) :
    ((start kernelDirectory).run calls).Meets OrderFault fun s =>
      ∀ slot b, s.table.block? slot = some b → b.state = .terminated → ∀ later,
        (s.run later).Meets OrderFault fun s' =>
          s'.table.Finished b.pid b.exitCode?
            ∧ (.reap ∈ later ∨ ∃ b', s'.table.block? slot = some b' ∧ b'.pid = b.pid)
            ∧ b.pid ∉ s'.table.readyPids
            ∧ ∃ since, s'.dispatched = since ++ s.dispatched ∧ b.pid ∉ since := by
  have cnew : (start (ε := ε) kernelDirectory).table.Coherent := (new_scheduled kernelDirectory).coherent
  refine (run_continues cnew calls).imp fun s h slot b hb hdead later => ?_
  have f := h.settles.coherent.finished hb hdead
  refine (run_continues h.settles.coherent later).imp fun s' h' => ?_
  have f' := f.settles h'.settles
  obtain ⟨since, hsince, hnot⟩ := h'.dispatched
  exact ⟨f', h'.settles.stays.imp_right fun hstays => hstays slot b hb,
    f'.not_mem_readyPids h'.settles.coherent, since, hsince, hnot _ _ f⟩

/-- What calls that keep to no rule make of a process: its state, its exit code, and the pids of those
who were dispatched.  There is no answer if a call faults. -/
def fate? (pid : Pid) (calls : List (TableCall ε)) :
    Option (Option (ProcessState × Option Int32) × List Pid) :=
  match (calls.foldlM make (start ⟨0x1000⟩)).run .detached with
  | .error _ _ => none
  | .ok s _ => some ((s.table.find? pid).map fun p => (p.state, p.exitCode?), s.dispatched)

/-- **Without the rule it is not final.**  A process exits with code 1.  If it exits once more, its
code is another; and if it blocks, it can be unblocked, and runs again. -/
theorem blocked_runs_again :
    let calls : List (TableCall Unit) := [.create "p" .normal ⟨⟨16⟩, ⟨0x400010⟩, 4096⟩ () 0x100000,
      .schedule 1 none, .exit 1]
    fate? ⟨1⟩ calls = some (some (.terminated, some 1), [⟨1⟩])
      ∧ fate? ⟨1⟩ (calls ++ [.exit 2]) = some (some (.terminated, some 2), [⟨1⟩])
      ∧ fate? ⟨1⟩ (calls ++ [.block, .unblock ⟨1⟩, .schedule 2 none, .schedule 3 none])
        = some (some (.running, some 1), [⟨1⟩, .kernel, ⟨1⟩]) := by
  refine ⟨?_, ?_, ?_⟩ <;> decide +kernel

end TableSession

end TinyKernel
