import TinyKernel.Proofs.Kernel.Census
import TinyKernel.Proofs.Process.Kinship

/-!
# The process tree of a booted kernel

The notes that processes have of their children make up a forest, and it agrees with the parents that
the processes name.  Processes come, end and are reclaimed in any order, parents before their children
or after them; and the kernel's own list shows no child that is gone, and none under two parents.

* `Census.Families` — the tree, as the kernel lists it
* `Kernel.boot_families` — it is as it should be, in every run
-/

namespace TinyKernel

variable {ε : Type}

/-- **The process tree**, as the kernel lists it.  The list is tied to the table by its first clause;
the others speak of what is listed, as a client would.  A parent need not be listed any more, and
nothing is said of children whose parent is gone. -/
structure Census.Families (s : Census ε) : Prop where
  /-- The list shows who is in the table, and nobody else. -/
  mem_list_iff : ∀ p, p ∈ s.kernel.list ↔
    ∃ slot b, s.kernel.processes.block? slot = some b ∧ b.info = p
  /-- Children are listed themselves, under the parent that has a note of them. -/
  child : ∀ p ∈ s.kernel.list, ∀ pid ∈ p.children,
    ∃ q ∈ s.kernel.list, q.pid = pid ∧ q.parent? = some p.pid
  /-- Nobody is a child twice, of one parent or of two. -/
  nodup_children : (s.kernel.list.flatMap ProcessInfo.children).Nodup
  length_le : ∀ p ∈ s.kernel.list, p.children.length ≤ maxChildren
  /-- Children are noted in the order in which they were created.  Some may be missing. -/
  sublist : ∀ p ∈ s.kernel.list, p.children.Sublist (s.births.map Birth.pid)
  /-- Whoever is missing from the note of its parent came when that was full.  That it was full is seen
  at the birth, as there may be room again later. -/
  untracked : ∀ p ∈ s.kernel.list, ∀ q ∈ s.kernel.list, q.parent? = some p.pid →
    q.pid ∉ p.children →
      ∃ birth ∈ s.births, birth.identity = q.identity ∧ birth.siblings = maxChildren

namespace Kernel

open ProcessTable

open MemoryInvariant in
/-- **In every run the kernel is steady**, and parents and children agree.  The births are those of the
run. -/
theorem boot_kindred (machine : Machine) (config : BootConfig) :
    (boot machine config : Run (Kernel ε)).Meets (fun _ => True) fun k =>
      ∀ calls : List (KernelCall ε), (k.run calls).Meets (fun e => e = .overflow .add) fun k' =>
        k'.Steady config k.directory (lending (.ofMemory config.memoryTop config.reservedTop))
            (ticksOf calls)
          ∧ ∃ births, k'.processes.Kindred births := by
  refine (boot_lives machine config).imp fun k ⟨hstart, hlives⟩ calls => ?_
  rw [show k.run calls = Census.kernel <$> (Census.ofKernel k).run calls from
    (Census.kernel_run (.ofKernel k) calls).symm]
  refine Run.Meets.map ((Census.run_meets hstart calls).imp fun s ⟨steady, leads⟩ => ?_)
  rw [Nat.zero_add] at steady
  exact ⟨steady, s.births, (hlives s leads).kindred⟩

/-- **The process tree is consistent**, in every run of a booted kernel, though processes exit, are
killed and are reaped in any order. -/
theorem boot_families (machine : Machine) (config : BootConfig) :
    (boot machine config : Run (Kernel ε)).Meets (fun _ => True) fun k =>
      ∀ calls : List (KernelCall ε), ((Census.ofKernel k).run calls).Meets
        (fun e => e = .overflow .add) Census.Families := by
  refine (boot_lives machine config).imp fun k ⟨hstart, hlives⟩ calls => ?_
  refine (Census.run_meets hstart calls).imp fun s ⟨steady, leads⟩ => ?_
  have kindred := (hlives s leads).kindred
  constructor
  case mem_list_iff =>
    intro p
    exact mem_list
  case child =>
    intro p hp pid hmem
    obtain ⟨slot, b, hb, rfl⟩ := mem_list.mp hp
    obtain ⟨slot', f, hf, rfl, hparent⟩ := kindred.child slot b.kin (kin?_of_block? hb) pid hmem
    obtain ⟨b', hb', rfl⟩ := Option.map_eq_some_iff.mp hf
    exact ⟨b'.info, mem_list.mpr ⟨slot', b', hb', rfl⟩, rfl, hparent⟩
  case nodup_children =>
    exact kindred.nodup_children steady.scheduled.coherent (hlives s leads).registered
  case length_le =>
    intro p hp
    obtain ⟨slot, b, hb, rfl⟩ := mem_list.mp hp
    exact kindred.length_le slot b.kin (kin?_of_block? hb)
  case sublist =>
    intro p hp
    obtain ⟨slot, b, hb, rfl⟩ := mem_list.mp hp
    exact kindred.sublist slot b.kin (kin?_of_block? hb)
  case untracked =>
    intro p hp q hq hparent hmem
    obtain ⟨slot, b, hb, rfl⟩ := mem_list.mp hp
    obtain ⟨slot', b', hb', rfl⟩ := mem_list.mp hq
    exact kindred.untracked slot b.kin slot' b'.kin (kin?_of_block? hb) (kin?_of_block? hb') hparent
      hmem

end Kernel

end TinyKernel
