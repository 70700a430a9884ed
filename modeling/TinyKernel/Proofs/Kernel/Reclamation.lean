import TinyKernel.Proofs.Kernel.Families
import TinyKernel.Proofs.Process.Reclamation

/-!
# Reclamation by a booted kernel

Processes end in any order, parents before their children or after them, and their slots are emptied
and used again.  Whenever a kernel reclaims slots, it reclaims those of the dead and touches nothing
else but the lists on which they stood.

* `Kernel.Steady.reap_reclaims` — what a kernel reclaims
* `Kernel.boot_reclaims` — it does so in every run
-/

namespace TinyKernel

namespace Kernel

open ProcessTable

variable {ε : Type} {config : BootConfig} {directory : PageDirectory} {I : MemoryInvariant}
  {clock : Nat} {k : Kernel ε} {births : List Birth} {admits : Fault → Prop}

/-- **A kernel reclaims slots**, and nothing else of it changes. -/
theorem Steady.reap_reclaims (s : Steady config directory I clock k)
    (kindred : k.processes.Kindred births) :
    k.reap.Meets admits fun (count, k') =>
      k.processes.Reclaims count k'.processes ∧ k' = { k with processes := k'.processes } := by
  refine masked_restores (fun count k' =>
    k.processes.Reclaims count k'.processes ∧ k' = { k with processes := k'.processes }) ?_
  have hreap : (k.setInterrupts false).processes.reap.Meets admits _ :=
    s.scheduled.reap_reclaims kindred
  exact hreap.bind fun _ h => Run.meets_pure ⟨rfl, h, rfl⟩

/-- Where nobody is dead, nothing changes at all. -/
theorem reap_unchanged (hnone : k.count .terminated = 0) :
    k.reap.Meets admits fun (count, k') => count = 0 ∧ k' = k := by
  refine masked_restores (fun count k' => count = 0 ∧ k' = k) ?_
  have hreap : (k.setInterrupts false).processes.reap.Meets admits _ := reap_nothing hnone
  refine hreap.bind ?_
  rintro ⟨count, processes⟩ ⟨hcount, rfl⟩
  exact Run.meets_pure ⟨rfl, hcount, rfl⟩

/-- **Reclamation takes exactly the dead**, in every run of a booted kernel.  The answer is how many
they were, and none is left.  The queue, the current process and the next pid are the same; every
other process is in its slot and the same but for its children, of which just those are missing who
were reclaimed.  Nothing else of the kernel changes, and when slots are reclaimed again right away,
the answer is 0 and nothing changes at all.  Reclamation never faults. -/
theorem boot_reclaims (machine : Machine) (config : BootConfig) :
    (boot machine config : Run (Kernel ε)).Meets (fun _ => True) fun k =>
      ∀ calls : List (KernelCall ε), (k.run calls).Meets (fun e => e = .overflow .add) fun k' =>
        k'.reap.Meets (fun _ => False) fun (count, k'') =>
          k'.processes.Reclaims count k''.processes ∧ k'' = { k' with processes := k''.processes }
            ∧ k''.count .terminated = 0
            ∧ k''.reap.Meets (fun _ => False) fun (again, k''') => again = 0 ∧ k''' = k'' := by
  refine (boot_kindred machine config).imp fun k hruns calls => ?_
  refine (hruns calls).imp fun k' ⟨steady, births, kindred⟩ => ?_
  refine (steady.reap_reclaims kindred).imp fun (count, k'') ⟨reclaims, hrest⟩ => ?_
  have hnone : k''.count .terminated = 0 := reclaims.count_terminated
  exact ⟨reclaims, hrest, hnone, reap_unchanged hnone⟩

end Kernel

end TinyKernel
