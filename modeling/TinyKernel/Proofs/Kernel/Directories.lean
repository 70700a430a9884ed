import TinyKernel.Proofs.Kernel.Ownership
import TinyKernel.Proofs.Paging.Mirrors

/-!
# The kernel heap in other directories

The kernel heap is mapped into the kernel's own directory.  A directory that is created shares the
page tables that there are at that moment, and so it shows the heap in their regions, also those
parts of it that are mapped later.  When the heap grows into a region that had no table then, the new
table belongs to the kernel's directory alone, and the other does not show that part of the heap.

* `Kernel.hasTable`, `Kernel.inHeap` — regions with a table, and addresses of the heap
* `Mirroring` — what directories have in common with the kernel's
* `Kernel.boot_mirrors` — which part of the heap a directory shows, at any time after its creation
-/

namespace TinyKernel

namespace Kernel

variable {ε : Type}

/-- The kernel's directory has a page table for the region of an address.  Whether a page is mapped
there is another question. -/
def hasTable (k : Kernel ε) (address : VirtAddr) : Bool :=
  (k.paging.target? k.directory.frame address.directoryIndex).isSome

/-- An address lies in the kernel heap, as far as it has grown. -/
def inHeap (k : Kernel ε) (address : VirtAddr) : Bool :=
  k.heap.start.val.toNat ≤ address.val.toNat
    && address.val.toNat < k.heap.start.val.toNat + k.heap.size

/-- Every address of the heap lies in a page that is backed, and so is mapped in the kernel's
directory. -/
theorem Backed.exists_samePage {config : BootConfig} {directory : PageDirectory} {I : MemoryInvariant}
    {k : Kernel ε} (b : Backed config directory I k) {w : VirtAddr} (hw : k.inHeap w = true) :
    ∃ page ∈ k.heap.backed, page.SamePage w := by
  rw [inHeap, Bool.and_eq_true, decide_eq_true_iff, decide_eq_true_iff, b.start_eq] at hw
  exact b.exists_samePage_iff.mpr hw

end Kernel

/-! ## Directories -/

/-- The addresses where the kernel heap is, or may come to be.  Clients do not map pages there. -/
def BootConfig.HeapWindow (c : BootConfig) (address : VirtAddr) : Prop :=
  c.heapStart.toNat ≤ address.val.toNat ∧ address.val.toNat < c.heapStart.toNat + c.heapMaxSize

theorem Kernel.inHeapWindow_iff_heapWindow {ε : Type} {k : Kernel ε} {config : BootConfig}
    (hconfig : k.config = config) {v : VirtAddr} :
    k.inHeapWindow v = true ↔ config.HeapWindow v := by
  rw [Kernel.inHeapWindow_iff, hconfig, BootConfig.HeapWindow]

theorem Kernel.Backed.heapWindow_of_inHeap {ε : Type} {k : Kernel ε} {config : BootConfig}
    {directory : PageDirectory} {I : MemoryInvariant} (b : Backed config directory I k) {w : VirtAddr}
    (hw : k.inHeap w = true) : config.HeapWindow w := by
  obtain ⟨l, sound⟩ := b.sound
  have hle := sound.range.size_le
  rw [Kernel.inHeap, Bool.and_eq_true, decide_eq_true_iff, decide_eq_true_iff, b.start_eq] at hw
  rw [b.maxSize_eq] at hle
  exact ⟨hw.1, Nat.lt_of_lt_of_le hw.2 (Nat.add_le_add_left hle _)⟩

/-- **Some directories mirror the kernel's**, each in regions of its own: those in which the kernel's
had a table when the directory was created.  Regions are fixed then, and do not grow with the heap. -/
structure Mirroring (config : BootConfig) (directory : PageDirectory)
    (mirrors : List (PageDirectory × (Fin entriesPerTable → Prop))) (p : Paging) : Prop where
  kernel_eq : p.kernel? = some directory
  mirror : ∀ m ∈ mirrors, p.Mirrors config.HeapWindow directory.frame m.1.frame m.2

namespace Mirroring

variable {config : BootConfig} {directory d : PageDirectory}
  {mirrors : List (PageDirectory × (Fin entriesPerTable → Prop))} {p p' : Paging}
  {range : FrameRange} {dirs held : Finset Frame} {backed : Finset VirtAddr}
  {frames : FrameAllocator} {v : VirtAddr} {admits : Fault → Prop}

/-- Which directory is the current one makes no difference to who mirrors whom. -/
theorem switch (m : Mirroring config directory mirrors p) (current? : Option PageDirectory) :
    Mirroring config directory mirrors { p with current? } where
  kernel_eq := m.kernel_eq
  mirror x hx := (m.mirror x hx).congr (fun _ => rfl) (fun _ => rfl) fun _ _ _ => rfl

section

variable (m : Mirroring config directory mirrors p)
  (h : Owned range directory dirs held backed p frames) (hmirrors : ∀ x ∈ mirrors, x.1.frame ∈ dirs)
include m h hmirrors

theorem map_meets (hd : d.frame ∈ dirs)
    (hv : d = directory ∨ ∀ w, config.HeapWindow w → ¬ v.SamePage w) (target : PhysAddr)
    (flags : PageFlags) :
    (p.map frames d v target flags).Meets admits fun (_, p', _) =>
      Mirroring config directory mirrors p' := by
  obtain ⟨lent, hlends, shares⟩ := h.lends
  have hdirs := shares.dirs_subset
  have htables := shares.tables_subset
  refine (h.spaces.map_cases hd hlends hdirs htables v target flags).imp ?_
  rintro ⟨result, p', frames'⟩ (⟨-, rfl, -⟩ | ⟨-, t, p₁, lent', hfor, rfl, -⟩)
  · exact m
  · refine ⟨hfor.kernel?_eq.trans m.kernel_eq, fun x hx => ?_⟩
    exact (m.mirror x hx).mapped h.spaces h.directory_mem (hmirrors x hx) hd hdirs htables hfor _
      (hv.imp_left (congrArg PageDirectory.frame))

theorem unmap (hd : d.frame ∈ dirs)
    (hv : d = directory ∨ ∀ w, config.HeapWindow w → ¬ v.SamePage w) (cpu : Cpu) :
    Mirroring config directory mirrors (p.unmap cpu d v).2.1 where
  kernel_eq := by
    obtain ⟨-, ⟨-, heq⟩ | ⟨t, -, heq⟩⟩ := Paging.Spaces.unmap_cases p cpu d v <;> rw [heq]
    · exact m.kernel_eq
    · exact m.kernel_eq
  mirror x hx := (m.mirror x hx).unmap h.spaces h.directory_mem (hmirrors x hx) hd cpu
    (hv.imp_left (congrArg PageDirectory.frame))

/-- **A directory more**, which mirrors the kernel's where that has a table.  The others mirror it as
before. -/
theorem createDirectory_meets :
    (p.createDirectory frames).Meets admits fun (directory?, p', _) =>
      Mirroring config directory mirrors p' ∧ ∀ d ∈ directory?,
        p'.Mirrors config.HeapWindow directory.frame d.frame
          fun i => (p.target? directory.frame i).isSome := by
  obtain ⟨lent, hlends, shares⟩ := h.lends
  have hdirs := shares.dirs_subset
  have hmeets : (p.createDirectory frames).Meets admits _ :=
    h.spaces.createDirectory_meets hlends hdirs shares.tables_subset
  refine ((h.spaces.createDirectory_cases hlends hdirs).and hmeets).imp ?_
  rintro ⟨directory?, p', frames'⟩ ⟨hcreated, hframes⟩
  cases directory? with
  | none =>
      obtain ⟨rfl, -⟩ := hcreated
      exact ⟨m, by simp⟩
  | some new =>
      obtain ⟨hfresh, -, -, -, hkernel, hother, hcopied⟩ := hcreated
      obtain ⟨-, -, -, -, hframe⟩ := hframes
      have hne : ∀ f ∈ dirs, f ≠ new.frame := fun f hf heq => hfresh (heq ▸ hdirs hf)
      refine ⟨⟨hkernel.trans m.kernel_eq, fun x hx => ?_⟩, fun d hd => ?_⟩
      · exact (m.mirror x hx).congr (hother _ (hne _ h.directory_mem))
          (hother _ (hne _ (hmirrors x hx))) fun w _ _ => hframe _ (hmirrors x hx) w
      · obtain rfl := Option.some.inj hd
        simp only [m.kernel_eq, Option.bind_some] at hcopied
        exact .of_copied (hne _ h.directory_mem).symm (hother _ (hne _ h.directory_mem)) hcopied

end

/-- **Growth of the heap** maps and unmaps pages in the kernel's directory.  In a region that is
shared, the page goes into the shared table; in any other, into a table that nobody else sees. -/
theorem growable {window : Finset VirtAddr}
    (haligned : ∀ page ∈ window, page.val.toNat % pageSize = 0)
    (hmirrors : ∀ x ∈ mirrors, x.1.frame ∈ dirs) :
    MemoryInvariant.Growable (fun backed p frames => Owned range directory dirs held backed p frames
      ∧ Mirroring config directory mirrors p) directory window :=
  Owned.growable_and haligned
    (fun h m => m.map_meets h hmirrors h.directory_mem (Or.inl rfl) _ _)
    fun cpu h m => m.unmap h hmirrors h.directory_mem (Or.inl rfl) cpu

end Mirroring

/-! ## Every run -/

namespace KernelSession

variable {ε : Type} {config : BootConfig} {directory : PageDirectory} {clock : Nat}
  {mirrors : List (PageDirectory × (Fin entriesPerTable → Prop))} {s : KernelSession ε}
  {admits : Fault → Prop}

/-- **The invariant of a session in which some directories mirror the kernel's.**  They are among those
that the client was given, each with the regions that it shares; these were fixed when it was created,
and do not become more or fewer. -/
structure Mirrored (config : BootConfig) (directory : PageDirectory)
    (mirrors : List (PageDirectory × (Fin entriesPerTable → Prop))) (clock : Nat)
    (s : KernelSession ε) : Prop where
  consistent : Consistent config directory clock s
  mirroring : Mirroring config directory mirrors s.kernel.paging
  created : ∀ x ∈ mirrors, x.1 ∈ s.created

namespace Mirrored

theorem frame_mem (c : Mirrored config directory mirrors clock s) :
    ∀ x ∈ mirrors, x.1.frame ∈ ((directory :: s.created).map PageDirectory.frame).toFinset := by
  intro x hx
  rw [List.mem_toFinset]
  exact List.mem_map_of_mem (List.mem_cons_of_mem _ (c.created x hx))

/-- What clients may map is outside the window of the heap, so that no mapping of theirs hides a page
of the heap. -/
theorem not_samePage (c : Mirrored config directory mirrors clock s) {d : PageDirectory} {v : VirtAddr}
    (hmap : s.mayMap d v = true) : ∀ w, config.HeapWindow w → ¬ v.SamePage w := by
  rw [mayMap, Bool.and_eq_true, Bool.not_eq_true'] at hmap
  intro w hw
  have b := c.consistent.steady.toBacked
  exact b.not_samePage_of_inHeapWindow hmap.2
    ((Kernel.inHeapWindow_iff_heapWindow b.config_eq).mpr hw)

/-- **Every call that keeps to the rules** leaves the directories as they mirror the kernel's. -/
theorem perform_meets (c : Mirrored config directory mirrors clock s) {call : KernelCall ε}
    (hcall : s.permits call = true) :
    (s.kernel.perform call).Meets (fun _ => True) fun k =>
      Mirroring config directory mirrors k.paging := by
  have h := c.consistent.steady.memory
  have hmirrors := c.frame_mem
  have m := c.mirroring
  have steady : Kernel.Steady config directory (fun backed p frames =>
      books config directory s.created s.held backed p frames ∧ Mirroring config directory mirrors p)
      clock s.kernel :=
    c.consistent.steady.withMemory ⟨h, m⟩
  obtain ⟨lent, hlends, -⟩ := h.lends
  cases call with
  | allocFrame =>
      obtain ⟨frame?, frames, halloc, -⟩ := hlends.alloc_ok
      exact Run.Meets.map ((steady.allocFrame_meets
        (Q := fun _ _ p _ => Mirroring config directory mirrors p) ⟨frame?, frames, halloc, m⟩).imp
        fun _ steady' => steady'.memory)
  | freeFrame address =>
      exact Run.Meets.map ((steady.freeFrame_meets
        (J := fun _ p _ => Mirroring config directory mirrors p)
        ((hlends.free_meets address).imp fun _ _ => m)).imp fun _ steady' => steady'.memory)
  | createDirectory =>
      exact Run.Meets.map ((steady.createDirectory_meets
        (R := fun _ _ p _ => Mirroring config directory mirrors p)
        ((m.createDirectory_meets h hmirrors).imp fun _ created => created.1)).imp
        fun _ steady' => steady'.memory)
  | switchDirectory d =>
      exact Run.Meets.map ((steady.switchDirectory_meets
        (J := fun _ p _ => Mirroring config directory mirrors p) (m.switch (some d))).imp
        fun _ steady' => steady'.memory)
  | map d v target flags =>
      obtain ⟨hd, -⟩ := c.consistent.of_mayMap hcall
      exact Run.Meets.map ((steady.map_meets
        (J := fun _ p _ => Mirroring config directory mirrors p)
        (m.map_meets h hmirrors hd (Or.inr (c.not_samePage hcall)) target flags)).imp
        fun _ steady' => steady'.memory)
  | unmap d v =>
      obtain ⟨hd, -⟩ := c.consistent.of_mayMap hcall
      exact Run.Meets.map ((steady.unmap_meets
        (J := fun _ p _ => Mirroring config directory mirrors p)
        fun cpu => m.unmap h hmirrors hd (Or.inr (c.not_samePage hcall)) cpu).imp
        fun _ steady' => steady'.memory)
  | _ =>
      have growable : MemoryInvariant.Growable (fun backed p frames =>
          books config directory s.created s.held backed p frames
            ∧ Mirroring config directory mirrors p) directory config.heapPages :=
        Mirroring.growable (fun page hpage =>
          aligned_of_mem_pageSpan c.consistent.steady.start_aligned hpage) hmirrors
      exact (steady.perform_meets_of_not_touchesPages growable rfl).mono (fun _ _ => trivial)
        fun _ steady' => steady'.memory.2

/-- Clients forget no directory, so that a rule that holds of it holds for good. -/
theorem created_subset_meets (s : KernelSession ε) (call : KernelCall ε) :
    (s.make call).Meets (fun _ => True) fun s' => s.created ⊆ s'.created := by
  cases call with
  | createDirectory =>
      refine (Run.meets_returns s.kernel.createDirectory).bind fun created _ => ?_
      exact Run.meets_pure (List.subset_append_right _ _)
  | _ =>
      refine (Run.meets_returns _).bind fun _ _ => ?_
      exact Run.meets_pure (List.Subset.refl _)

theorem make_meets (c : Mirrored config directory mirrors clock s) {call : KernelCall ε}
    (hcall : s.permits call = true) :
    (s.make call).Meets (Kernel.CounterFault clock s.kernel)
      (Mirrored config directory mirrors (clock + call.ticks)) := by
  have hperform := c.perform_meets hcall
  rw [← s.kernel_make call] at hperform
  refine ((c.consistent.make_meets hcall).and
    (hperform.of_map.and (created_subset_meets s call))).imp ?_
  rintro s' ⟨c', m', hsubset⟩
  exact ⟨c', m', fun x hx => hsubset (c.created x hx)⟩

/-- **The invariant holds in every run**, for whatever directories it holds at the start. -/
theorem run_meets (c : Mirrored config directory mirrors clock s) (calls : List (KernelCall ε)) :
    (s.run calls).Meets (fun e => e = .overflow .add) fun s' =>
      ∃ clock', Mirrored config directory mirrors clock' s' := by
  induction calls generalizing s clock with
  | nil => exact Run.meets_pure ⟨clock, c⟩
  | cons call calls ih =>
      have hstep : (s.step call).Meets (fun e => e = .overflow .add) fun s' =>
          ∃ clock', Mirrored config directory mirrors clock' s' := by
        unfold step
        split
        case isTrue hcall =>
          exact (c.make_meets hcall).mono Kernel.CounterFault.eq_overflow fun s' c' => ⟨_, c'⟩
        case isFalse => exact Run.meets_pure ⟨clock, c⟩
      exact hstep.bind fun s' ⟨clock', c'⟩ => ih c'

/-- **A directory is created**, which mirrors the kernel's from then on.  Its regions are those that
have a table at this moment. -/
theorem createDirectory_meets (c : Mirrored config directory [] clock s) :
    (s.make .createDirectory).Meets admits fun s' => ∀ d, s'.created = d :: s.created →
      Mirrored config directory
        [(d, fun i => (s.kernel.paging.target? directory.frame i).isSome)] clock s' := by
  have hmake : (s.make .createDirectory).Meets admits fun s' =>
      Mirroring config directory [] s'.kernel.paging ∧ ∃ directory? : Option PageDirectory,
        s'.created = directory?.toList ++ s.created ∧ ∀ d ∈ directory?,
          s'.kernel.paging.Mirrors config.HeapWindow directory.frame d.frame
            fun i => (s.kernel.paging.target? directory.frame i).isSome := by
    refine (c.consistent.steady.createDirectory_meets (R := fun directory? _ p _ =>
      Mirroring config directory [] p ∧ ∀ d ∈ directory?,
        p.Mirrors config.HeapWindow directory.frame d.frame
          fun i => (s.kernel.paging.target? directory.frame i).isSome)
      (c.mirroring.createDirectory_meets c.consistent.steady.memory c.frame_mem)).bind ?_
    rintro ⟨directory?, kernel⟩ steady
    exact Run.meets_pure ⟨steady.memory.1, directory?, rfl, steady.memory.2⟩
  refine (c.consistent.createDirectory_meets.and hmake).imp ?_
  rintro s' ⟨c', m, directory?, hcreated, hmirrors⟩ d hd
  rw [hcreated] at hd
  cases directory? with
  | none => exact absurd hd.symm (List.cons_ne_self d s.created)
  | some new =>
      obtain ⟨rfl, -⟩ := List.cons.inj hd
      refine ⟨c', ⟨m.kernel_eq, fun x hx => ?_⟩, fun x hx => ?_⟩
      · obtain rfl := List.mem_singleton.mp hx
        exact hmirrors new rfl
      · obtain rfl := List.mem_singleton.mp hx
        rw [hcreated]
        exact List.mem_cons_self

/-- **What a directory shows of the heap**: all of it that is in the regions where it mirrors the
kernel's, and nothing else of it. -/
theorem translate_iff (c : Mirrored config directory mirrors clock s) {d : PageDirectory}
    {shared : Fin entriesPerTable → Prop} (hd : (d, shared) ∈ mirrors) (w : VirtAddr) :
    (shared w.directoryIndex →
        s.kernel.translate d w = s.kernel.translate s.kernel.directory w)
      ∧ (s.kernel.inHeap w = true →
        (s.kernel.translate s.kernel.directory w).isSome
          ∧ (¬ shared w.directoryIndex → s.kernel.translate d w = none)) := by
  have m := c.mirroring.mirror _ hd
  have b := c.consistent.steady.toBacked
  obtain rfl := b.directory_eq
  refine ⟨fun hw => Paging.translate_congr (m.frameOf?_eq hw), fun hw => ?_⟩
  obtain ⟨page, hpage, hsame⟩ := b.exists_samePage hw
  obtain ⟨f, hf⟩ := c.consistent.steady.memory.mapped page hpage
  constructor
  · rw [Kernel.translate, Paging.translate_eq, Paging.frameOf?_congr hsame, hf]
    rfl
  · intro hout
    rw [Kernel.translate, Paging.translate_eq, m.unmapped w (b.heapWindow_of_inHeap hw) hout]
    rfl

end Mirrored

end KernelSession

/-- The directory that paging starts with is the one that others are made from. -/
theorem Paging.start_kernel?_meets {p : Paging} {frames : FrameAllocator} {range : FrameRange}
    {lent : Finset Frame} {admits : Fault → Prop} (h : frames.Lends range lent) :
    (p.start frames).Meets admits fun (started, p', _) =>
      ∀ directory, started = .ok directory → p'.kernel? = some directory := by
  refine (Paging.start_meets (I := fun _ _ frames => ∃ lent, frames.Lends range lent) h
    (fun _ _ hlends => ⟨_, hlends⟩)
    fun ⟨_, hlends⟩ address target => MemoryInvariant.lending_map hlends _ address target _).imp ?_
  rintro ⟨started, p', frames'⟩ hstarted directory rfl
  obtain ⟨q, -, rfl⟩ := hstarted
  rfl

namespace Kernel

variable {ε : Type}

/-- **What a created directory shows of the kernel heap.**  A kernel is booted, and its clients keep to
the rules.  At some point a directory is created.  At any time after that, an address in a region
where the kernel's directory had a page table at that point goes to the same place in both; and an
address of the heap in any other region is mapped in the kernel's directory, and not in the other. -/
theorem boot_mirrors (machine : Machine) (config : BootConfig) :
    (boot machine config : Run (Kernel ε)).Meets (fun _ => True) fun k =>
      ∀ before : List (KernelCall ε), ((KernelSession.ofKernel k).run before).Meets
        (fun e => e = .overflow .add) fun s =>
          (s.make .createDirectory).Meets (fun _ => False) fun s₁ =>
            ∀ d, s₁.created = d :: s.created →
              ∀ later : List (KernelCall ε), (s₁.run later).Meets
                (fun e => e = .overflow .add) fun s₂ => ∀ w,
                  (s.kernel.hasTable w = true →
                      s₂.kernel.translate d w = s₂.kernel.translate s₂.kernel.directory w)
                    ∧ (s₂.kernel.inHeap w = true →
                      (s₂.kernel.translate s₂.kernel.directory w).isSome
                        ∧ (s.kernel.hasTable w = false → s₂.kernel.translate d w = none)) := by
  refine boot_meets_of_valid fun hvalid => ?_
  refine (boot_meets (I := fun directory backed p frames =>
    KernelSession.books config directory [] [] backed p frames
      ∧ Mirroring config directory [] p) machine config ?_ ?_).imp fun k steady before => ?_
  · intro frames hlends
    have hkernel : ((Paging.ofRam machine.ram).start frames).Meets (fun _ => True) _ :=
      Paging.start_kernel?_meets hlends
    refine ((Owned.start_meets hlends).and hkernel).imp ?_
    rintro ⟨started, paging, frames'⟩ ⟨hstarted, hkernel⟩
    cases started with
    | error e => trivial
    | ok directory => exact ⟨hstarted, hkernel directory rfl, by simp⟩
  · exact fun directory => Mirroring.growable (fun page hpage =>
      aligned_of_mem_pageSpan (BootConfig.heapStart_aligned hvalid) hpage) (by simp)
  have c : KernelSession.Mirrored config k.directory [] 0 (.ofKernel k) :=
    ⟨⟨steady.withMemory steady.memory.1, List.nodup_singleton _, List.nodup_nil⟩,
      steady.memory.2, by simp⟩
  refine (c.run_meets before).imp fun s ⟨_, c⟩ => c.createDirectory_meets.imp fun s₁ h d hd later => ?_
  refine ((h d hd).run_meets later).imp fun s₂ ⟨_, c₂⟩ w => ?_
  have hdirectory := c.consistent.steady.directory_eq
  obtain ⟨hshared, hheap⟩ := c₂.translate_iff (List.mem_singleton_self _) w
  rw [hasTable, hdirectory]
  refine ⟨hshared, fun hw => ⟨(hheap hw).1, fun htable => (hheap hw).2 ?_⟩⟩
  rw [htable]
  exact Bool.false_ne_true

end Kernel

end TinyKernel
