import TinyKernel.Proofs.Process.Finality

/-!
# The register of births and deaths

Who a process is was fixed when it was created: its pid, name, priority and parent.  A register that
only knows who was created and who ended, in what order, tells all of it.  Whoever is in the table is
in the register under the same name; whoever has an exit code has the one that the register gives; and
whoever is no longer in the table is registered as dead.

## What is load-bearing

Slots are used again, pids are not.  The register never mentions a slot, and it is enough that no pid
in it is as high as the next one (`ProcessTable.Registered.born_lt`,
`ProcessTable.Registered.died_lt`).

* `Identity` — what is fixed of a process when it is created
* `ProcessTable.Lives` — the births and deaths of a sequence of changes
* `ProcessTable.Registered` — a table agrees with a register
-/

namespace TinyKernel

/-- **What is fixed of a process when it is created**: nothing that is done to the process later
changes any of it.  It is compared as a whole, so that nothing of it can change unnoticed. -/
@[ext]
structure Identity where
  pid : Pid
  name : String
  priority : Priority
  parent? : Option Pid
  deriving DecidableEq

/-- The kernel's own process was not created by another, and is there from the start. -/
def Identity.kernel : Identity := ⟨.kernel, "kernel", .high, none⟩

def Birth.identity (birth : Birth) : Identity :=
  ⟨birth.pid, birth.name, birth.priority, some birth.parent⟩

/-- **Who there ever was**, the earliest first, and the kernel's own process before all others. -/
def identities (births : List Birth) : List Identity := .kernel :: births.map Birth.identity

theorem identities_append (births : List Birth) (birth : Birth) :
    identities (births ++ [birth]) = identities births ++ [birth.identity] := by
  rw [identities, List.map_append]
  rfl

def ProcessInfo.identity (p : ProcessInfo) : Identity := ⟨p.pid, p.name, p.priority, p.parent?⟩

/-- The birth that an event is, if it is one. -/
def Event.birth? : Event → Option Birth
  | .created birth => some birth
  | _ => none

/-- The death that an event is, with its exit code.  Reclamation is no death: the process was dead
before. -/
def Event.death? : Event → Option (Pid × Int32)
  | .ended pid code => some (pid, code)
  | _ => none

/-- **A process is who it was**, and it is over if and only if it was, with the same code.  Calls that
end nobody leave everybody like that. -/
structure ControlBlock.Resembles {ε : Type} (b b' : ControlBlock ε) : Prop where
  identity_eq : b'.info.identity = b.info.identity
  exitCode?_eq : b'.exitCode? = b.exitCode?
  terminated_iff : b'.state = .terminated ↔ b.state = .terminated

/-- Whatever becomes of a process, it is who it was. -/
theorem ControlBlock.Becomes.identity_eq {ε : Type} {b b' : ControlBlock ε} (h : b.Becomes b') :
    b'.info.identity = b.info.identity :=
  Identity.ext h.pid_eq h.name_eq h.priority_eq h.parent?_eq

namespace ControlBlock.Resembles

variable {ε : Type} {b b' : ControlBlock ε}

theorem pid_eq (h : b.Resembles b') : b'.pid = b.pid := congrArg Identity.pid h.identity_eq

theorem refl (b : ControlBlock ε) : b.Resembles b := ⟨rfl, rfl, Iff.rfl⟩

/-- A process that changes, but not on record, if its users are lawful. -/
theorem of_alters (h : b.Alters True b') : b.Resembles b' where
  identity_eq := by
    rw [h.info_eq]
    rfl
  exitCode?_eq := congrArg ProcessInfo.exitCode? h.info_eq
  terminated_iff := ⟨h.alive, h.final trivial⟩

/-- Whom it has a note of makes no difference to who a process is. -/
theorem of_children (b : ControlBlock ε) (children : List Pid) :
    b.Resembles { b with children } := ⟨rfl, rfl, Iff.rfl⟩

end ControlBlock.Resembles

namespace ProcessTable

variable {ε : Type} {t t' t'' : ProcessTable ε} {s : Slot} {b b' : ControlBlock ε}
  {births births' : List Birth} {deaths deaths' : List (Pid × Int32)} {events : List Event}

/-- **The births and deaths of a sequence of changes**, the earliest first.  Charges, dispatches and
reclamations are left out. -/
def Lives (t : ProcessTable ε) (births : List Birth) (deaths : List (Pid × Int32))
    (t' : ProcessTable ε) : Prop :=
  ∃ events, Path True t events t' ∧ events.filterMap Event.birth? = births
    ∧ events.filterMap Event.death? = deaths

namespace Lives

theorem refl (t : ProcessTable ε) : Lives t [] [] t := ⟨[], .refl t, rfl, rfl⟩

theorem trans (h : Lives t births deaths t') (h' : Lives t' births' deaths' t'') :
    Lives t (births ++ births') (deaths ++ deaths') t'' := by
  obtain ⟨events, path, rfl, rfl⟩ := h
  obtain ⟨events', path', rfl, rfl⟩ := h'
  exact ⟨events ++ events', path.trans path', List.filterMap_append, List.filterMap_append⟩

end Lives

/-- **A table agrees with a register.**  The register is what a client could have written down; the
table shows each process with the identity that it was born with, and with the code that it died with,
if it did. -/
structure Registered (births : List Birth) (deaths : List (Pid × Int32)) (t : ProcessTable ε) :
    Prop where
  increasing : (identities births).Pairwise fun i i' => i.pid.val < i'.pid.val
  born_lt : ∀ i ∈ identities births, i.pid.val < t.nextPid
  identity_mem : ∀ s b, t.block? s = some b → b.info.identity ∈ identities births
  exitCode?_eq_none_iff : ∀ s b, t.block? s = some b → (b.exitCode? = none ↔ b.state ≠ .terminated)
  exitCode?_eq_some_iff : ∀ s b, t.block? s = some b → ∀ code,
    b.exitCode? = some code ↔ (b.pid, code) ∈ deaths
  died_lt : ∀ death ∈ deaths, death.1.val < t.nextPid
  /-- Nobody dies twice. -/
  deaths_nodup : (deaths.map Prod.fst).Nodup
  /-- Whoever is not in the table is dead. -/
  present_or_dead : ∀ birth ∈ births,
    (∃ s b, t.block? s = some b ∧ b.pid = birth.pid) ∨ birth.pid ∈ deaths.map Prod.fst

namespace Registered

/-- No pid is handed out twice, as pids increase from birth to birth. -/
theorem births_nodup (r : Registered births deaths t) : (births.map Birth.pid).Nodup := by
  have hpids := List.pairwise_map.mp (List.pairwise_cons.mp r.increasing).2
  refine List.pairwise_map.mpr (hpids.imp ?_)
  intro birth birth' hlt heq
  exact UInt32.lt_irrefl _ ((congrArg Pid.val heq) ▸ hlt)

/-- **Everybody is who they were**, and only the dead leave the table.  Changes that are neither births
nor deaths go through this. -/
theorem resembling (r : Registered births deaths t) (nextPid_le : t.nextPid ≤ t'.nextPid)
    (came : ∀ s b', t'.block? s = some b' → ∃ b, t.block? s = some b ∧ b.Resembles b')
    (left : ∀ s b, t.block? s = some b →
      (∃ b', t'.block? s = some b') ∨ b.state = .terminated) : Registered births deaths t' where
  increasing := r.increasing
  born_lt i hi := UInt32.lt_of_lt_of_le (r.born_lt i hi) nextPid_le
  identity_mem s b' hb' := by
    obtain ⟨b, hb, h⟩ := came s b' hb'
    rw [h.identity_eq]
    exact r.identity_mem s b hb
  exitCode?_eq_none_iff s b' hb' := by
    obtain ⟨b, hb, h⟩ := came s b' hb'
    rw [h.exitCode?_eq, ne_eq, h.terminated_iff]
    exact r.exitCode?_eq_none_iff s b hb
  exitCode?_eq_some_iff s b' hb' code := by
    obtain ⟨b, hb, h⟩ := came s b' hb'
    rw [h.exitCode?_eq, h.pid_eq]
    exact r.exitCode?_eq_some_iff s b hb code
  died_lt death hdeath := UInt32.lt_of_lt_of_le (r.died_lt death hdeath) nextPid_le
  deaths_nodup := r.deaths_nodup
  present_or_dead birth hbirth := by
    rcases r.present_or_dead birth hbirth with ⟨s, b, hb, hpid⟩ | hdead
    case inr => exact Or.inr hdead
    rcases left s b hb with ⟨b', hb'⟩ | hdead
    · obtain ⟨b₀, hb₀, h⟩ := came s b' hb'
      obtain rfl := Option.some.inj (hb.symm.trans hb₀)
      exact Or.inl ⟨s, b', hb', h.pid_eq.trans hpid⟩
    · have hcode : b.exitCode? ≠ none := fun hnone =>
        (r.exitCode?_eq_none_iff s b hb).mp hnone hdead
      obtain ⟨code, hcode⟩ := Option.ne_none_iff_exists'.mp hcode
      rw [← hpid]
      exact Or.inr (List.mem_map.mpr ⟨_, (r.exitCode?_eq_some_iff s b hb code).mp hcode, rfl⟩)

/-- A process changes, and is who it was; nobody leaves. -/
theorem setSlot (r : Registered births deaths t) (hb : t.block? s = some b) (h : b.Resembles b') :
    Registered births deaths (t.setSlot s (some b')) := by
  refine r.resembling (UInt32.le_refl _) (fun s' b'' hb'' => ?_) fun s' b'' hb'' => ?_
  · rcases of_block?_setSlot hb'' with ⟨rfl, heq⟩ | ⟨-, hb''⟩
    · obtain rfl := Option.some.inj heq
      exact ⟨b, hb, h⟩
    · exact ⟨b'', hb'', .refl b''⟩
  · obtain ⟨b₁, hb₁, -⟩ := exists_block?_setSlot hb h.pid_eq hb''
    exact Or.inl ⟨b₁, hb₁⟩

/-- Whoever is alive is not registered as dead, with any code. -/
theorem not_mem_deaths (r : Registered births deaths t) (hb : t.block? s = some b)
    (alive : b.state ≠ .terminated) (code : Int32) : (b.pid, code) ∉ deaths := by
  intro hmem
  have hcode := (r.exitCode?_eq_some_iff s b hb code).mpr hmem
  rw [(r.exitCode?_eq_none_iff s b hb).mpr alive] at hcode
  cases hcode

/-- **A process ends**, which was alive, and its death is entered at the end of the register. -/
theorem ended (r : Registered births deaths t) (c : Coherent t) (hb : t.block? s = some b)
    (alive : b.state ≠ .terminated) (code : Int32) :
    Registered births (deaths ++ [(b.pid, code)]) (t.ended s b code) := by
  have hnot := r.not_mem_deaths hb alive
  constructor
  case increasing => exact r.increasing
  case born_lt => exact r.born_lt
  case identity_mem =>
    intro s' b' hb'
    rcases of_block?_setSlot hb' with ⟨-, heq⟩ | ⟨-, hb'⟩
    · obtain rfl := Option.some.inj heq
      exact r.identity_mem s b hb
    · exact r.identity_mem s' b' hb'
  case exitCode?_eq_none_iff =>
    intro s' b' hb'
    rcases of_block?_setSlot hb' with ⟨-, heq⟩ | ⟨-, hb'⟩
    · obtain rfl := Option.some.inj heq
      simp
    · exact r.exitCode?_eq_none_iff s' b' hb'
  case exitCode?_eq_some_iff =>
    intro s' b' hb' code'
    rw [List.mem_append, List.mem_singleton]
    rcases of_block?_setSlot hb' with ⟨-, heq⟩ | ⟨hs, hb'⟩
    · obtain rfl := Option.some.inj heq
      show some code = some code' ↔ (b.pid, code') ∈ deaths ∨ (b.pid, code') = (b.pid, code)
      simp [hnot, eq_comm]
    · have hpid : b'.pid ≠ b.pid := fun heq => hs (c.pid_inj s' s b.pid
        ((pidAt?_of_block? hb').trans (congrArg some heq)) (pidAt?_of_block? hb))
      rw [r.exitCode?_eq_some_iff s' b' hb']
      simp [hpid]
  case died_lt =>
    intro death hdeath
    rcases List.mem_append.mp hdeath with hdeath | hdeath
    · exact r.died_lt death hdeath
    · obtain rfl := List.mem_singleton.mp hdeath
      exact c.pid_lt s b.pid (pidAt?_of_block? hb)
  case deaths_nodup =>
    rw [List.map_append]
    refine r.deaths_nodup.append (List.nodup_singleton _) ?_
    intro pid hpid hpid'
    obtain ⟨death, hdeath, rfl⟩ := List.mem_map.mp hpid
    obtain hpid' : death.1 = b.pid := List.mem_singleton.mp hpid'
    exact hnot death.2 (hpid' ▸ hdeath)
  case present_or_dead =>
    intro birth hbirth
    rw [List.map_append, List.mem_append]
    rcases r.present_or_dead birth hbirth with ⟨s', b', hb', hpid⟩ | hdead
    · have hstays : ∃ b₁, (t.ended s b code).block? s' = some b₁ ∧ b₁.pid = b'.pid := by
        rw [block?_ended]
        exact exists_block?_setSlot hb (by rfl) hb'
      rw [← hpid]
      exact Or.inl ⟨s', hstays⟩
    · exact Or.inr (Or.inl hdead)

/-- **A process is created**, under a pid that nobody had, and its birth is entered at the end of the
register. -/
theorem enrolled (r : Registered births deaths t) (c : Coherent t) (hfree : t.block? s = none)
    (fits : t.nextPid.toNat + 1 < 2 ^ 32) {birth : Birth}
    (hbirth : ∃ name priority, birth = t.birth name priority) (info_eq : b.info = birth.info) :
    Registered (births ++ [birth]) deaths (t.enrolled s b) := by
  have hlt : t.nextPid < (t.enrolled s b).nextPid := nextPid_lt fits
  have hpid : b.pid = ⟨t.nextPid⟩ := birth_pid hbirth info_eq
  have hbirth_pid : birth.identity.pid = ⟨t.nextPid⟩ :=
    (congrArg ProcessInfo.pid info_eq).symm.trans hpid
  have hstate : b.state = .ready := congrArg ProcessInfo.state info_eq
  have hcode : b.exitCode? = none := congrArg ProcessInfo.exitCode? info_eq
  constructor
  case increasing =>
    rw [identities_append]
    refine List.pairwise_append.mpr ⟨r.increasing, List.pairwise_singleton _ _, ?_⟩
    intro i hi last hlast
    obtain rfl := List.mem_singleton.mp hlast
    rw [hbirth_pid]
    exact r.born_lt i hi
  case born_lt =>
    intro i hi
    rw [identities_append] at hi
    rcases List.mem_append.mp hi with hold | hnew
    · exact UInt32.lt_trans (r.born_lt i hold) hlt
    · obtain rfl := List.mem_singleton.mp hnew
      rw [hbirth_pid]
      exact hlt
  case identity_mem =>
    intro s' b' hb'
    rw [identities_append, List.mem_append]
    rcases c.of_block?_enrolled hfree hb' with ⟨-, rfl⟩ | ⟨b₀, children, hb₀, rfl⟩
    · rw [info_eq]
      exact Or.inr List.mem_cons_self
    · exact Or.inl (r.identity_mem s' b₀ hb₀)
  case exitCode?_eq_none_iff =>
    intro s' b' hb'
    rcases c.of_block?_enrolled hfree hb' with ⟨-, rfl⟩ | ⟨b₀, children, hb₀, rfl⟩
    · simp [hstate, hcode]
    · exact r.exitCode?_eq_none_iff s' b₀ hb₀
  case exitCode?_eq_some_iff =>
    intro s' b' hb' code
    rcases c.of_block?_enrolled hfree hb' with ⟨-, rfl⟩ | ⟨b₀, children, hb₀, rfl⟩
    · rw [hcode, hpid]
      refine iff_of_false (by simp) ?_
      intro hmem
      exact UInt32.lt_irrefl _ (r.died_lt _ hmem)
    · exact r.exitCode?_eq_some_iff s' b₀ hb₀ code
  case died_lt =>
    intro death hdeath
    exact UInt32.lt_trans (r.died_lt death hdeath) hlt
  case deaths_nodup => exact r.deaths_nodup
  case present_or_dead =>
    intro birth' hbirth'
    rcases List.mem_append.mp hbirth' with hold | hnew
    · refine (r.present_or_dead birth' hold).imp_left fun ⟨s', b', hb', hpid'⟩ => ?_
      rw [← hpid']
      exact ⟨s', c.exists_block?_enrolled hfree hb'⟩
    · obtain rfl := List.mem_singleton.mp hnew
      obtain ⟨creator, hcreator⟩ := Option.isSome_iff_exists.mp c.occupied
      refine Or.inl ⟨s, b, ?_, congrArg ProcessInfo.pid info_eq⟩
      rw [block?_enrolled hfree hcreator, if_pos rfl]

end Registered

/-- **Every change agrees with the register** that it is entered in.  One case for each kind of
change. -/
theorem Change.registered (h : Change True t events t') (c : Coherent t)
    (r : Registered births deaths t) :
    Registered (births ++ events.filterMap Event.birth?) (deaths ++ events.filterMap Event.death?)
      t' := by
  -- nothing is entered in most cases
  have nothing : ∀ {t' : ProcessTable ε}, Registered births deaths t' →
      Registered (births ++ []) (deaths ++ []) t' := fun r' => by simpa using r'
  cases h with
  | queued ready alive =>
      exact nothing (r.resembling (UInt32.le_refl _) (fun s b hb => ⟨b, hb, .refl b⟩)
        fun s b hb => Or.inl ⟨b, hb⟩)
  | altered hb alters => exact nothing (r.setSlot hb (.of_alters alters))
  | ended hb alive code =>
      show Registered (births ++ []) _ _
      rw [List.append_nil]
      exact r.ended c hb (alive trivial) code
  | charged hb ticks => exact nothing (r.setSlot hb ⟨rfl, rfl, Iff.rfl⟩)
  | @dispatched s b hb alive now =>
      have resembles : b.Resembles { b with state := .running, dispatchedAt := now } :=
        ⟨rfl, rfl, iff_of_false (by simp) alive⟩
      have hset := r.setSlot hb resembles
      exact nothing (hset.resembling (UInt32.le_refl _) (fun s b hb => ⟨b, hb, .refl b⟩)
        fun s b hb => Or.inl ⟨b, hb⟩)
  | skipped fits =>
      have hlt : t.nextPid < t.nextPid + 1 := nextPid_lt fits
      exact nothing (r.resembling (UInt32.le_of_lt hlt) (fun s b hb => ⟨b, hb, .refl b⟩)
        fun s b hb => Or.inl ⟨b, hb⟩)
  | created hfree fits hbirth info_eq =>
      show Registered _ (deaths ++ []) _
      rw [List.append_nil]
      exact r.enrolled c hfree fits hbirth info_eq
  | @reclaimed s b hs hb dead =>
      refine nothing (r.resembling (UInt32.le_of_eq (t.nextPid_removeChild _ _).symm) ?_ ?_)
      · intro s' b' hb'
        obtain ⟨b₀, children, hb₀, rfl⟩ := c.of_block?_reclaimed hb'
        exact ⟨b₀, hb₀, .of_children b₀ children⟩
      · intro s' b' hb'
        rw [c.block?_reclaimed]
        split
        case isTrue heq =>
          obtain rfl := Option.some.inj (hb.symm.trans (heq ▸ hb'))
          exact Or.inr dead
        case isFalse =>
          rw [hb']
          exact Or.inl ⟨_, rfl⟩

/-- **Changes agree with the register**, one after the other, by induction on the path. -/
theorem Path.registered (h : Path True t events t') (c : Coherent t)
    (r : Registered births deaths t) :
    Registered (births ++ events.filterMap Event.birth?) (deaths ++ events.filterMap Event.death?)
      t' := by
  induction h generalizing births deaths with
  | refl => simpa using r
  | step change _ ih =>
      rw [List.filterMap_append, List.filterMap_append, ← List.append_assoc, ← List.append_assoc]
      exact ih (change.coherent c) (change.registered c r)

theorem new_registered (kernelDirectory : PhysAddr) :
    Registered [] [] (new kernelDirectory : ProcessTable ε) where
  increasing := List.pairwise_singleton _ _
  born_lt i hi := by
    obtain rfl := List.mem_singleton.mp hi
    exact show (0 : UInt32) < 1 by decide
  identity_mem s b hb := by
    rw [(of_block?_new hb).1]
    exact List.mem_cons_self
  exitCode?_eq_none_iff s b hb := by
    have hstate : b.state = .running := congrArg ProcessInfo.state (of_block?_new hb).1
    have hcode : b.exitCode? = none := congrArg ProcessInfo.exitCode? (of_block?_new hb).1
    simp [hstate, hcode]
  exitCode?_eq_some_iff s b hb code := by
    have hcode : b.exitCode? = none := congrArg ProcessInfo.exitCode? (of_block?_new hb).1
    simp [hcode]
  died_lt := by simp
  deaths_nodup := List.nodup_nil
  present_or_dead := by simp

/-- **A dispatch** is neither a birth nor a death, whoever it finds. -/
theorem Coherent.schedule_lives (c : Coherent t) (now : Nat) :
    (t.schedule now).Meets (fun _ => True) fun (_, t') => Lives t [] [] t' := by
  refine (c.schedule_path True now).lax.imp ?_
  rintro ⟨switch?, t'⟩ hswitch
  cases switch? with
  | none =>
      obtain ⟨-, rfl⟩ := hswitch
      exact .refl _
  | some w =>
      obtain ⟨-, -, -, outgoing, -, path⟩ := hswitch
      exact ⟨_, path, rfl, rfl⟩

/-- Whatever is done to a table, it settles, if slots may have been reclaimed. -/
theorem Lives.settles (h : Lives t births deaths t') (c : Coherent t) : Settles True t t' := by
  obtain ⟨events, path, -, -⟩ := h
  exact (path.settles c).mono fun _ => trivial

/-- **A table that started with the kernel's process alone** agrees with its register.  At first the
register is empty. -/
theorem Lives.registered {kernelDirectory : PhysAddr}
    (h : Lives (new kernelDirectory) births deaths t) : Registered births deaths t := by
  obtain ⟨events, path, rfl, rfl⟩ := h
  exact path.registered (new_scheduled kernelDirectory).coherent (new_registered kernelDirectory)

end ProcessTable

end TinyKernel
