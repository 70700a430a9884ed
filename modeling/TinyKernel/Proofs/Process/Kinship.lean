import TinyKernel.Proofs.Process.Registry

/-!
# Parents and children

A process names its parent for as long as it is in the table, whether or not the parent still is.  A
process has a note of its children, which is kept up to date when they come and when they are
reclaimed.  The note has room for a few only; a child for which there was no room is missing from it
for good, also when there is room later.

## What is load-bearing

The two are tied to each other by pids.  A pid that was reclaimed is handed out to nobody else, and
nobody names a parent that is yet to come (`ProcessTable.Kindred.parent_lt`).  So a process that is
new has no children.

* `ProcessTable.kin?` — who is in a slot, and whom it has a note of
* `ProcessTable.Kindred` — parents and children agree
* `ProcessTable.Lives.kindred` — they do so, whatever is done to a table
* `ProcessTable.Kindred.nodup_children` — nobody is a child of two
-/

namespace TinyKernel

/-- **Who a process is**, and whom it has a note of.  Nothing else of a process matters for kinship, so
that changes of its state or its time need not be looked at one by one. -/
structure Kin where
  identity : Identity
  children : List Pid

def ControlBlock.kin {ε : Type} (b : ControlBlock ε) : Kin := ⟨b.info.identity, b.children⟩

namespace Kin

variable {f : Kin} {pid child : Pid} {parent? : Option Pid} {births : List Birth}

/-- One child more, if there is room; otherwise the note stays as it is. -/
def noting (f : Kin) (child : Pid) : Kin where
  identity := f.identity
  children := if f.children.length < maxChildren then f.children ++ [child] else f.children

/-- One child less, of its parent; of anybody else, nothing. -/
def without (f : Kin) (parent? : Option Pid) (child : Pid) : Kin where
  identity := f.identity
  children :=
    if parent? = some f.identity.pid then f.children.filter (· ≠ child) else f.children

theorem mem_noting_iff : pid ∈ (f.noting child).children ↔
    pid ∈ f.children ∨ pid = child ∧ f.children.length < maxChildren := by
  unfold noting
  split
  case isTrue hroom => simp [hroom]
  case isFalse hroom => simp [hroom]

theorem length_noting_le (h : f.children.length ≤ maxChildren) :
    (f.noting child).children.length ≤ maxChildren := by
  unfold noting
  split
  case isTrue hroom =>
    rw [List.length_append, List.length_singleton]
    exact hroom
  case isFalse => exact h

/-- The last who was born is noted last, so that notes stay in the order of births. -/
theorem noting_sublist (h : f.children.Sublist (births.map Birth.pid)) (birth : Birth) :
    (f.noting birth.pid).children.Sublist ((births ++ [birth]).map Birth.pid) := by
  rw [List.map_append]
  unfold noting
  split
  · exact h.append (.refl _)
  · exact h.trans (List.sublist_append_left _ _)

theorem mem_without_iff : pid ∈ (f.without parent? child).children ↔
    pid ∈ f.children ∧ ¬ (parent? = some f.identity.pid ∧ pid = child) := by
  unfold without
  split
  case isTrue hparent => simp [hparent]
  case isFalse hparent => simp [hparent]

theorem without_sublist (f : Kin) (parent? : Option Pid) (child : Pid) :
    (f.without parent? child).children.Sublist f.children := by
  unfold without
  split
  · exact List.filter_sublist
  · exact .refl _

end Kin

namespace ProcessTable

variable {ε : Type} {lawful : Prop} {t t' : ProcessTable ε} {s s' : Slot}
  {b b' creator : ControlBlock ε} {births : List Birth} {deaths : List (Pid × Int32)}
  {events : List Event} {f g : Kin}

/-- Who is in a slot, with the children that are on the note. -/
def kin? (t : ProcessTable ε) (s : Slot) : Option Kin := (t.block? s).map ControlBlock.kin

/-- **Parents and children agree.**  Whoever is on a note names its owner as the parent; the converse
fails only for those who came when the note was full.  A parent may be gone while its children are in
the table. -/
structure Kindred (births : List Birth) (t : ProcessTable ε) : Prop where
  /-- Whoever is on a note is in the table, and names the one whose note it is. -/
  child : ∀ s f, t.kin? s = some f → ∀ pid ∈ f.children, ∃ s' g, t.kin? s' = some g
    ∧ g.identity.pid = pid ∧ g.identity.parent? = some f.identity.pid
  length_le : ∀ s f, t.kin? s = some f → f.children.length ≤ maxChildren
  /-- Children are noted in the order in which they were created. -/
  sublist : ∀ s f, t.kin? s = some f → f.children.Sublist (births.map Birth.pid)
  parent_lt : ∀ s f pid, t.kin? s = some f → f.identity.parent? = some pid → pid.val < t.nextPid
  /-- Whoever is missing from the note of its parent came when that was full. -/
  untracked : ∀ s f s' g, t.kin? s = some f → t.kin? s' = some g →
    g.identity.parent? = some f.identity.pid → g.identity.pid ∉ f.children →
      ∃ birth ∈ births, birth.identity = g.identity ∧ birth.siblings = maxChildren

/-! ## Who is in a slot after a change -/

theorem kin?_of_block? (hb : t.block? s = some b) : t.kin? s = some b.kin := by
  rw [kin?, hb]
  rfl

/-- Whoever is in a slot has a pid, the one that the kin say. -/
theorem pidAt?_of_kin? (hf : t.kin? s = some f) : t.pidAt? s = some f.identity.pid := by
  obtain ⟨b, hb, rfl⟩ := Option.map_eq_some_iff.mp hf
  exact pidAt?_of_block? hb

/-- No two are the same, as far as pids go.  So the parent that a child names is one process. -/
theorem Coherent.kin_inj (c : Coherent t) (hf : t.kin? s = some f) (hg : t.kin? s' = some g)
    (hpid : f.identity.pid = g.identity.pid) : s = s' ∧ f = g := by
  obtain rfl := c.pid_inj s s' g.identity.pid (hpid ▸ pidAt?_of_kin? hf) (pidAt?_of_kin? hg)
  exact ⟨rfl, Option.some.inj (hf.symm.trans hg)⟩

theorem Coherent.kin_pid_lt (c : Coherent t) (hf : t.kin? s = some f) :
    f.identity.pid.val < t.nextPid := c.pid_lt s _ (pidAt?_of_kin? hf)

/-- A process changes, but not its kin, and then nobody's kin do. -/
theorem kin?_setSlot (hb : t.block? s = some b) (kin_eq : b'.kin = b.kin) (s' : Slot) :
    (t.setSlot s (some b')).kin? s' = t.kin? s' := by
  rw [kin?, block?_setSlot]
  split
  case isTrue heq =>
    rw [heq, kin?_of_block? hb, ← kin_eq]
    rfl
  case isFalse => rfl

/-- **Who is in the table after somebody entered it**: the new process, the one that created it, which
may have noted it, and everybody else.  The first two slots differ, as one was free. -/
theorem kin?_enrolled (hfree : t.block? s = none) (hcreator : t.block? t.current = some creator)
    (s' : Slot) : (t.enrolled s b).kin? s' =
      if s' = s then some b.kin else if s' = t.current then some (creator.kin.noting b.pid)
      else t.kin? s' := by
  rw [kin?, block?_enrolled hfree hcreator]
  split
  · rfl
  split <;> rfl

/-- Whoever is in the table then is new, or the creator, or was there before; read backwards from the
table after. -/
theorem of_kin?_enrolled (hfree : t.block? s = none) (hcreator : t.block? t.current = some creator)
    (hf : (t.enrolled s b).kin? s' = some f) :
    f = b.kin ∨ s' = t.current ∧ f = creator.kin.noting b.pid
      ∨ s' ≠ t.current ∧ t.kin? s' = some f := by
  rw [kin?_enrolled hfree hcreator] at hf
  split at hf
  case isTrue => exact Or.inl (Option.some.inj hf).symm
  split at hf
  case isTrue heq => exact Or.inr (Or.inl ⟨heq, (Option.some.inj hf).symm⟩)
  case isFalse hne => exact Or.inr (Or.inr ⟨hne, hf⟩)

/-- Nobody leaves the table when somebody enters it, and everybody is who they were. -/
theorem exists_kin?_enrolled (hfree : t.block? s = none)
    (hcreator : t.block? t.current = some creator) (hf : t.kin? s' = some f) :
    ∃ f', (t.enrolled s b).kin? s' = some f' ∧ f'.identity = f.identity := by
  obtain ⟨b', hb', rfl⟩ := Option.map_eq_some_iff.mp hf
  rw [kin?_enrolled hfree hcreator, if_neg (Coherent.ne_of_block? hb' hfree)]
  split
  case isTrue heq =>
    obtain rfl := Option.some.inj (hcreator.symm.trans (heq ▸ hb'))
    exact ⟨_, rfl, rfl⟩
  case isFalse => exact ⟨_, hf, rfl⟩

theorem Coherent.kin?_reclaimed (c : Coherent t) (parent? : Option Pid) (child : Pid) (s s' : Slot) :
    ((t.removeChild parent? child).setSlot s none).kin? s' =
      if s' = s then none else (t.kin? s').map fun f => f.without parent? child := by
  rw [kin?, c.block?_reclaimed]
  split
  · rfl
  · rw [kin?, Option.map_map, Option.map_map]
    rfl

/-- The current process is the parent of whoever is created, and the birth says how full its note
was. -/
theorem parent_of_birth {birth : Birth} (hbirth : ∃ name priority, birth = t.birth name priority)
    (hcreator : t.block? t.current = some creator) :
    birth.parent = creator.pid ∧ birth.siblings = creator.children.length := by
  obtain ⟨name, priority, rfl⟩ := hbirth
  refine ⟨currentPid_of_block? hcreator, ?_⟩
  rw [birth, hcreator]
  rfl

namespace Kindred

/-- What kinship is about: who is in the slots, and how far pids got.  Changes of state, time or queue
leave it alone. -/
theorem congr (k : Kindred births t) (kin?_eq : ∀ s, t'.kin? s = t.kin? s)
    (nextPid_le : t.nextPid ≤ t'.nextPid) : Kindred births t' := by
  refine ⟨?_, ?_, ?_, ?_, ?_⟩ <;> simp only [kin?_eq]
  · exact k.child
  · exact k.length_le
  · exact k.sublist
  · exact fun s f pid hf hpid => UInt32.lt_of_lt_of_le (k.parent_lt s f pid hf hpid) nextPid_le
  · exact k.untracked

theorem setSlot (k : Kindred births t) (hb : t.block? s = some b) (kin_eq : b'.kin = b.kin) :
    Kindred births (t.setSlot s (some b')) :=
  k.congr (kin?_setSlot hb kin_eq) (UInt32.le_refl _)

section

variable {birth : Birth} (k : Kindred births t) (c : Coherent t) (hfree : t.block? s = none)
  (fits : t.nextPid.toNat + 1 < 2 ^ 32)
  (hbirth : ∃ name priority, birth = t.birth name priority) (info_eq : b.info = birth.info)
include k c hfree hbirth info_eq

theorem child_enrolled (hf : (t.enrolled s b).kin? s' = some f) {pid : Pid}
    (hmem : pid ∈ f.children) :
    ∃ s'' g, (t.enrolled s b).kin? s'' = some g ∧ g.identity.pid = pid
      ∧ g.identity.parent? = some f.identity.pid := by
  obtain ⟨creator, hcreator⟩ := Option.isSome_iff_exists.mp c.occupied
  have hold : ∀ s' f, t.kin? s' = some f → pid ∈ f.children → ∃ s'' g,
      (t.enrolled s b).kin? s'' = some g ∧ g.identity.pid = pid
        ∧ g.identity.parent? = some f.identity.pid := by
    intro s' f hf hmem
    obtain ⟨s'', g, hg, hpid, hparent⟩ := k.child s' f hf pid hmem
    obtain ⟨g', hg', heq⟩ := exists_kin?_enrolled hfree hcreator hg
    exact ⟨s'', g', hg', heq ▸ hpid, heq ▸ hparent⟩
  rcases of_kin?_enrolled hfree hcreator hf with rfl | ⟨-, rfl⟩ | ⟨-, hf⟩
  · have hnone : b.kin.children = [] := congrArg ProcessInfo.children info_eq
    rw [hnone] at hmem
    cases hmem
  · rcases Kin.mem_noting_iff.mp hmem with hmem | ⟨rfl, -⟩
    · exact hold t.current creator.kin (kin?_of_block? hcreator) hmem
    · have hparent : b.parent? = some birth.parent := congrArg ProcessInfo.parent? info_eq
      refine ⟨s, b.kin, (kin?_enrolled hfree hcreator s).trans (if_pos rfl), rfl, hparent.trans ?_⟩
      exact congrArg some (parent_of_birth hbirth hcreator).1
  · exact hold s' f hf hmem

theorem untracked_enrolled {s'' : Slot} (hf : (t.enrolled s b).kin? s' = some f)
    (hg : (t.enrolled s b).kin? s'' = some g) (hchild : g.identity.parent? = some f.identity.pid)
    (hmem : g.identity.pid ∉ f.children) :
    ∃ birth' ∈ births ++ [birth], birth'.identity = g.identity ∧ birth'.siblings = maxChildren := by
  obtain ⟨creator, hcreator⟩ := Option.isSome_iff_exists.mp c.occupied
  have hcurrent : t.kin? t.current = some creator.kin := kin?_of_block? hcreator
  have hpid : b.kin.identity.pid = ⟨t.nextPid⟩ := birth_pid hbirth info_eq
  have hidentity : b.kin.identity = birth.identity := congrArg ProcessInfo.identity info_eq
  obtain ⟨hparent, hsiblings⟩ := parent_of_birth hbirth hcreator
  -- a child that was there before
  have hold : ∀ f₀ g₀, t.kin? s' = some f₀ → f₀.identity = f.identity →
      (∀ pid ∈ f₀.children, pid ∈ f.children) → t.kin? s'' = some g₀ → g₀.identity = g.identity →
        ∃ birth' ∈ births ++ [birth], birth'.identity = g.identity
          ∧ birth'.siblings = maxChildren := by
    intro f₀ g₀ hf₀ hf_eq hsub hg₀ hg_eq
    rw [← hf_eq, ← hg_eq] at hchild
    rw [← hg_eq] at hmem ⊢
    obtain ⟨birth', hbirth', heq, hfull⟩ :=
      k.untracked s' f₀ s'' g₀ hf₀ hg₀ hchild fun hmem₀ => hmem (hsub _ hmem₀)
    exact ⟨birth', List.mem_append_left _ hbirth', heq, hfull⟩
  rcases of_kin?_enrolled hfree hcreator hg with rfl | hg_old
  · -- the child is the new one, and so its parent is the one that created it
    rw [hidentity] at hchild
    have hparent' : creator.kin.identity.pid = f.identity.pid :=
      hparent.symm.trans (Option.some.inj hchild)
    rcases of_kin?_enrolled hfree hcreator hf with rfl | ⟨-, rfl⟩ | ⟨hne, hf⟩
    · have hlt := c.kin_pid_lt hcurrent
      rw [hparent', hpid] at hlt
      exact absurd hlt (UInt32.lt_irrefl _)
    · have hfull : ¬ creator.children.length < maxChildren := fun hroom =>
        hmem (Kin.mem_noting_iff.mpr (Or.inr ⟨rfl, hroom⟩))
      refine ⟨birth, by simp, hidentity.symm, hsiblings.trans ?_⟩
      exact Nat.le_antisymm (k.length_le _ _ hcurrent) (Nat.not_lt.mp hfull)
    · exact absurd (c.kin_inj hcurrent hf hparent').1.symm hne
  · obtain ⟨g₀, hg₀, hg_eq⟩ : ∃ g₀, t.kin? s'' = some g₀ ∧ g₀.identity = g.identity := by
      rcases hg_old with ⟨rfl, rfl⟩ | ⟨-, hg⟩
      · exact ⟨_, hcurrent, rfl⟩
      · exact ⟨g, hg, rfl⟩
    rcases of_kin?_enrolled hfree hcreator hf with rfl | ⟨rfl, rfl⟩ | ⟨-, hf⟩
    · rw [← hg_eq, hpid] at hchild
      exact absurd (k.parent_lt s'' g₀ _ hg₀ hchild) (UInt32.lt_irrefl _)
    · exact hold _ g₀ hcurrent rfl (fun pid hpid => Kin.mem_noting_iff.mpr (Or.inl hpid)) hg₀ hg_eq
    · exact hold f g₀ hf rfl (fun _ => id) hg₀ hg_eq

include fits

/-- **A process is created**, and noted if there is room.  It has no children itself, and nobody named
its pid as a parent before. -/
theorem enrolled : Kindred (births ++ [birth]) (t.enrolled s b) := by
  obtain ⟨creator, hcreator⟩ := Option.isSome_iff_exists.mp c.occupied
  have hcurrent : t.kin? t.current = some creator.kin := kin?_of_block? hcreator
  have hchildren : b.kin.children = [] := congrArg ProcessInfo.children info_eq
  have hlt : t.nextPid < (t.enrolled s b).nextPid := nextPid_lt fits
  constructor
  case child =>
    intro s' f hf pid hmem
    exact k.child_enrolled c hfree hbirth info_eq hf hmem
  case length_le =>
    intro s' f hf
    rcases of_kin?_enrolled hfree hcreator hf with rfl | ⟨-, rfl⟩ | ⟨-, hf⟩
    · rw [hchildren]
      exact Nat.zero_le _
    · exact Kin.length_noting_le (k.length_le _ _ hcurrent)
    · exact k.length_le s' f hf
  case sublist =>
    intro s' f hf
    rcases of_kin?_enrolled hfree hcreator hf with rfl | ⟨-, rfl⟩ | ⟨-, hf⟩
    · rw [hchildren]
      exact List.nil_sublist _
    · have hpid : b.pid = birth.pid := congrArg ProcessInfo.pid info_eq
      rw [hpid]
      exact Kin.noting_sublist (k.sublist _ _ hcurrent) birth
    · rw [List.map_append]
      exact (k.sublist s' f hf).trans (List.sublist_append_left _ _)
  case parent_lt =>
    intro s' f pid hf hpid
    rcases of_kin?_enrolled hfree hcreator hf with rfl | ⟨-, rfl⟩ | ⟨-, hf⟩
    · have hparent : b.parent? = some birth.parent := congrArg ProcessInfo.parent? info_eq
      obtain rfl := Option.some.inj (hparent.symm.trans hpid)
      rw [(parent_of_birth hbirth hcreator).1]
      exact UInt32.lt_trans (c.kin_pid_lt hcurrent) hlt
    · exact UInt32.lt_trans (k.parent_lt _ _ pid hcurrent hpid) hlt
    · exact UInt32.lt_trans (k.parent_lt s' f pid hf hpid) hlt
  case untracked =>
    intro s' f s'' g hf hg hchild hmem
    exact k.untracked_enrolled c hfree hbirth info_eq hf hg hchild hmem

end

/-- **A process is reclaimed**, and taken off the note of its parent.  Its own children keep its pid as
that of their parent, and nobody will have that pid. -/
theorem reclaimed (k : Kindred births t) (c : Coherent t) (hb : t.block? s = some b) :
    Kindred births ((t.removeChild b.parent? b.pid).setSlot s none) := by
  have came : ∀ s' f', ((t.removeChild b.parent? b.pid).setSlot s none).kin? s' = some f' →
      s' ≠ s ∧ ∃ f, t.kin? s' = some f ∧ f' = f.without b.parent? b.pid := by
    intro s' f' hf'
    rw [c.kin?_reclaimed] at hf'
    split at hf'
    case isTrue => cases hf'
    case isFalse hne =>
      obtain ⟨f, hf, rfl⟩ := Option.map_eq_some_iff.mp hf'
      exact ⟨hne, f, hf, rfl⟩
  have hkin : t.kin? s = some b.kin := kin?_of_block? hb
  constructor
  case child =>
    intro s' f' hf' pid hmem
    obtain ⟨-, f, hf, rfl⟩ := came s' f' hf'
    obtain ⟨hmem, hkept⟩ := Kin.mem_without_iff.mp hmem
    obtain ⟨s'', g, hg, rfl, hparent⟩ := k.child s' f hf pid hmem
    have hne : s'' ≠ s := by
      rintro rfl
      obtain rfl := Option.some.inj (hkin.symm.trans hg)
      exact hkept ⟨hparent, rfl⟩
    refine ⟨s'', g.without b.parent? b.pid, ?_, rfl, hparent⟩
    rw [c.kin?_reclaimed, if_neg hne, hg]
    rfl
  case length_le =>
    intro s' f' hf'
    obtain ⟨-, f, hf, rfl⟩ := came s' f' hf'
    exact (f.without_sublist _ _).length_le.trans (k.length_le s' f hf)
  case sublist =>
    intro s' f' hf'
    obtain ⟨-, f, hf, rfl⟩ := came s' f' hf'
    exact (f.without_sublist _ _).trans (k.sublist s' f hf)
  case parent_lt =>
    intro s' f' pid hf' hpid
    obtain ⟨-, f, hf, rfl⟩ := came s' f' hf'
    show pid.val < (t.removeChild b.parent? b.pid).nextPid
    rw [nextPid_removeChild]
    exact k.parent_lt s' f pid hf hpid
  case untracked =>
    intro s' f' s'' g' hf' hg' hchild hmem
    obtain ⟨-, f, hf, rfl⟩ := came s' f' hf'
    obtain ⟨hne, g, hg, rfl⟩ := came s'' g' hg'
    refine k.untracked s' f s'' g hf hg hchild ?_
    intro hold
    refine hmem (Kin.mem_without_iff.mpr ⟨hold, ?_⟩)
    rintro ⟨-, hpid⟩
    exact hne (c.kin_inj hg hkin hpid).1

end Kindred

/-- **Every change leaves parents and children in agreement.**  Only creation and reclamation touch
anybody's kin. -/
theorem Change.kindred (h : Change lawful t events t') (c : Coherent t) (k : Kindred births t) :
    Kindred (births ++ events.filterMap Event.birth?) t' := by
  -- there is no birth in most cases
  have nobody : ∀ {t' : ProcessTable ε}, Kindred births t' → Kindred (births ++ []) t' :=
    fun k' => by simpa using k'
  cases h with
  | queued ready alive => exact nobody (k.congr (fun _ => rfl) (UInt32.le_refl _))
  | altered hb alters =>
      refine nobody (k.setSlot hb ?_)
      rw [ControlBlock.kin, alters.info_eq]
      exact congrArg (Kin.mk _) (congrArg ProcessInfo.children alters.info_eq)
  | @ended s b hb alive code =>
      have hqueue : Kindred births { t with ready := t.ready.filter (· ≠ s) } :=
        k.congr (fun _ => rfl) (UInt32.le_refl _)
      exact nobody (hqueue.setSlot hb rfl)
  | charged hb ticks => exact nobody (k.setSlot hb rfl)
  | @dispatched s b hb alive now =>
      have hset : Kindred births
          (t.setSlot s (some { b with state := .running, dispatchedAt := now })) := k.setSlot hb rfl
      exact nobody (hset.congr (fun _ => rfl) (UInt32.le_refl _))
  | skipped fits =>
      have hlt : t.nextPid < t.nextPid + 1 := nextPid_lt fits
      exact nobody (k.congr (fun _ => rfl) (UInt32.le_of_lt hlt))
  | created hfree fits hbirth info_eq => exact k.enrolled c hfree fits hbirth info_eq
  | reclaimed hs hb dead => exact nobody (k.reclaimed c hb)

theorem Path.kindred (h : Path lawful t events t') (c : Coherent t) (k : Kindred births t) :
    Kindred (births ++ events.filterMap Event.birth?) t' := by
  induction h generalizing births with
  | refl => simpa using k
  | step change _ ih =>
      rw [List.filterMap_append, ← List.append_assoc]
      exact ih (change.coherent c) (change.kindred c k)

theorem new_kindred (kernelDirectory : PhysAddr) :
    Kindred [] (new kernelDirectory : ProcessTable ε) := by
  have hkin : ∀ s f, (new kernelDirectory : ProcessTable ε).kin? s = some f → f = ⟨.kernel, []⟩ := by
    intro s f hf
    obtain ⟨b, hb, rfl⟩ := Option.map_eq_some_iff.mp hf
    have hinfo := (of_block?_new hb).1
    exact congrArg (fun p => Kin.mk p.identity p.children) hinfo
  constructor
  case child =>
    intro s f hf pid hmem
    rw [hkin s f hf] at hmem
    cases hmem
  case length_le =>
    intro s f hf
    rw [hkin s f hf]
    exact Nat.zero_le _
  case sublist =>
    intro s f hf
    rw [hkin s f hf]
    exact .refl _
  case parent_lt =>
    intro s f pid hf hpid
    rw [hkin s f hf] at hpid
    cases hpid
  case untracked =>
    intro s f s' g hf hg hchild
    rw [hkin s' g hg] at hchild
    cases hchild

/-- **Parents and children agree**, whatever was done to a table that started with the kernel's process
alone.  It is the step lemma, along the path of changes. -/
theorem Lives.kindred {kernelDirectory : PhysAddr} (h : Lives (new kernelDirectory) births deaths t) :
    Kindred births t := by
  obtain ⟨events, path, rfl, -⟩ := h
  exact path.kindred (new_scheduled kernelDirectory).coherent (new_kindred kernelDirectory)

/-- **Nobody is a child of two**, or twice of one: a child names one parent, and births are not
repeated. -/
theorem Kindred.nodup_children (k : Kindred births t) (c : Coherent t)
    (r : Registered births deaths t) :
    (t.list.flatMap ProcessInfo.children).Nodup := by
  refine List.nodup_flatMap.mpr ⟨fun p hp => ?_, ?_⟩
  · obtain ⟨s, b, hb, rfl⟩ := mem_list.mp hp
    exact (k.sublist s _ (kin?_of_block? hb)).nodup r.births_nodup
  · rw [list, blocks, List.pairwise_map, List.pairwise_filterMap]
    refine (List.nodup_finRange maxProcesses).imp ?_
    intro s s' hne b hb b' hb' pid hmem hmem'
    have hf : t.kin? s = some b.kin := kin?_of_block? hb
    have hf' : t.kin? s' = some b'.kin := kin?_of_block? hb'
    obtain ⟨s₁, g, hg, hpid, hparent⟩ := k.child s _ hf pid hmem
    obtain ⟨s₂, g', hg', hpid', hparent'⟩ := k.child s' _ hf' pid hmem'
    -- the two children are one, which has one parent
    obtain ⟨-, rfl⟩ := c.kin_inj hg hg' (hpid.trans hpid'.symm)
    exact hne (c.kin_inj hf hf' (Option.some.inj (hparent.symm.trans hparent'))).1

end ProcessTable

end TinyKernel
