import TinyKernel.Proofs.Paging.Mirrors
import TinyKernel.Proofs.Paging.Session

/-!
# What a directory shares for good

A directory that is created shares the page tables that the kernel's directory has at that moment.
In their regions the two translate alike from then on, whoever maps and unmaps there, and however
often.  In the other regions they have no table in common, then or later, and what is mapped in the
new directory never shows in the kernel's.

## What is load-bearing

Paging can be started more than once, and then another directory is the kernel's.  A directory that
was created before shares nothing with it: the new one is in a frame that was free, and it starts out
with no table at all (`Paging.start_keepsShares`).

* `Paging.hasTable` — whether a directory has a page table for the region of an address
* `Paging.KeepsShares` — what directories have in common, they still have, and no more than that
* `Paging.Beside` — how a directory stands to the one that is the kernel's, and to the one that was
* `Paging.Spares` — mapping and unmapping a page in a directory leaves another one alone
* `PagingSession.execute_shares` — what is shared, and what is not, throughout every session
-/

namespace TinyKernel

namespace Paging

/-- Whether a directory has a page table for the region of an address. -/
def hasTable (p : Paging) (d : PageDirectory) (v : VirtAddr) : Bool :=
  (p.target? d.frame v.directoryIndex).isSome

/-- **A page of one directory can be mapped and unmapped**, to any frame and with any flags, and no
translation of another directory changes. -/
structure Spares (p : Paging) (frames : FrameAllocator) (d k : PageDirectory) (v : VirtAddr) :
    Prop where
  map : ∀ target flags, (p.map frames d v target flags).Meets (fun _ => False)
    fun (_, p', _) => ∀ w, p'.translate k w = p.translate k w
  unmap : ∀ cpu w, (p.unmap cpu d v).2.1.translate k w = p.translate k w

/-- Two directories **have the tables of some regions in common**, and no others. -/
abbrev Shares (p : Paging) (k d : Frame) (shared : Fin entriesPerTable → Prop) : Prop :=
  p.Mirrors (fun _ => False) k d shared

/-- **What directories have in common** they still have, and no more than that.  The kernel's directory
is the same.  It is reflexive and transitive, and so it is enough to prove it of each write to
memory. -/
structure KeepsShares (dirs : Finset Frame) (p p' : Paging) : Prop where
  kernel?_eq : p'.kernel? = p.kernel?
  shares : ∀ k ∈ dirs, ∀ d ∈ dirs, ∀ {shared}, p.Shares k d shared → p'.Shares k d shared

variable {kernel? : Option PageDirectory} {shared : Fin entriesPerTable → Prop}
  {p p' p'' : Paging} {d k e : PageDirectory} {dirs dirs' lent lent' : Finset Frame} {f f' : Frame}
  {range : FrameRange} {frames : FrameAllocator} {v : VirtAddr} {admits : Fault → Prop}

/-- **A frame that was zeroed** has nothing in common with a directory. -/
theorem Shares.of_zeroed (hne : f' ≠ f) : (p.withZeroed f).Shares f f' fun _ => False where
  ne := hne
  same _ hfalse := hfalse.elim
  apart i _ t _ := by
    rw [target?_withZeroed, if_pos rfl]
    exact nofun
  unmapped _ hfalse := hfalse.elim

namespace KeepsShares

theorem refl : KeepsShares dirs p p := ⟨rfl, fun _ _ _ _ _ h => h⟩

theorem trans (h : KeepsShares dirs p p') (h' : KeepsShares dirs p' p'') :
    KeepsShares dirs p p'' where
  kernel?_eq := h'.kernel?_eq.trans h.kernel?_eq
  shares k hk d hd _ m := h'.shares k hk d hd (h.shares k hk d hd m)

theorem subset (h : KeepsShares dirs p p') (hsub : dirs' ⊆ dirs) : KeepsShares dirs' p p' where
  kernel?_eq := h.kernel?_eq
  shares k hk d hd _ m := h.shares k (hsub hk) d (hsub hd) m

/-- Whoever refers to the same tables as before has the same in common. -/
theorem of_target?_eq (hkernel : p'.kernel? = p.kernel?)
    (htargets : ∀ f ∈ dirs, ∀ i, p'.target? f i = p.target? f i) : KeepsShares dirs p p' where
  kernel?_eq := hkernel
  shares k hk d hd _ m := m.congr (htargets k hk) (htargets d hd) fun _ hfalse => hfalse.elim

end KeepsShares

/-! ## The operations -/

section

variable (h : Housed range dirs p frames)
include h

/-- **A page is mapped**, in any directory. -/
theorem map_keepsShares (he : e.frame ∈ dirs) (v : VirtAddr) (target : PhysAddr)
    (flags : PageFlags) :
    (p.map frames e v target flags).Meets admits fun (_, p', _) => KeepsShares dirs p p' := by
  obtain ⟨lent, hlends, hdirs, htables⟩ := h.lends
  refine (h.spaces.map_cases he hlends hdirs htables v target flags).imp ?_
  rintro ⟨result, p', frames'⟩ (⟨-, rfl, -⟩ | ⟨-, t, p₁, lent', hfor, rfl, -⟩)
  · exact .refl
  · refine ⟨hfor.kernel?_eq, fun k hk d hd _ m => ?_⟩
    exact m.mapped h.spaces hk hd he hdirs htables hfor _ (Or.inr fun _ hfalse => hfalse.elim)

/-- **A page is unmapped**, in any directory. -/
theorem unmap_keepsShares (he : e.frame ∈ dirs) (cpu : Cpu) (v : VirtAddr) :
    KeepsShares dirs p (p.unmap cpu e v).2.1 := by
  refine ⟨?_, fun k hk d hd _ m => ?_⟩
  · obtain ⟨-, ⟨-, heq⟩ | ⟨t, -, heq⟩⟩ := Spaces.unmap_cases p cpu e v
    · rw [heq]
    · rw [heq]
      rfl
  · exact m.unmap h.spaces hk hd he cpu (Or.inr fun _ hfalse => hfalse.elim)

/-- **A directory is created.**  It refers to what the kernel's refers to, and the others to what they
did before. -/
theorem createDirectory_target?_meets :
    (p.createDirectory frames).Meets admits fun (directory?, p', _) => p'.kernel? = p.kernel?
      ∧ (∀ f ∈ dirs, ∀ i, p'.target? f i = p.target? f i)
      ∧ ∀ d ∈ directory?, d.frame ∉ dirs
        ∧ ∀ i, p'.target? d.frame i = p.kernel?.bind fun k => p.target? k.frame i := by
  obtain ⟨lent, hlends, hdirs, -⟩ := h.lends
  refine (h.spaces.createDirectory_cases hlends hdirs).imp ?_
  rintro ⟨directory?, p', frames'⟩ hcreated
  cases directory? with
  | none =>
      obtain ⟨rfl, -⟩ := hcreated
      exact ⟨rfl, fun _ _ _ => rfl, nofun⟩
  | some d =>
      obtain ⟨hfresh, -, -, -, hkernel, hother, hcopied⟩ := hcreated
      refine ⟨hkernel, fun f hf => hother f fun heq => hfresh (heq ▸ hdirs hf), ?_⟩
      rintro _ ⟨⟩
      exact ⟨fun hmem => hfresh (hdirs hmem), hcopied⟩

/-- **Paging is started.**  The directory that is built is the kernel's from then on, and has nothing
in common with those that there are. -/
theorem start_keepsShares :
    (p.start frames).Meets admits fun (started, p', _) =>
      match started with
      | .error _ => KeepsShares dirs p p'
      | .ok new => KeepsShares dirs p { p' with kernel? := p.kernel? }
          ∧ p'.kernel? = some new ∧ ∀ d ∈ dirs, p'.Shares new.frame d fun _ => False := by
  obtain ⟨lent, hlends, hdirs, htables⟩ := h.lends
  refine (Paging.start_meets (I := fun new q frames =>
    Housed range (insert new.frame dirs) q frames
      ∧ KeepsShares dirs p q ∧ ∀ d ∈ dirs, q.Shares new.frame d fun _ => False) hlends ?_ ?_).imp ?_
  · intro new frames₁ hfresh hreach hlends₁
    have hnew : ∀ f ∈ dirs, f ≠ new.frame := fun f hf heq => hfresh (hdirs (heq ▸ hf))
    refine ⟨Housed.zeroed h.spaces hdirs htables hfresh hreach hlends₁, ?_, ?_⟩
    · refine .of_target?_eq kernel?_withZeroed fun f hf i => ?_
      rw [target?_withZeroed, if_neg (hnew f hf)]
    · exact fun d hd => .of_zeroed (hnew d hd)
  · rintro new q frames₁ ⟨hq, hkept, hnew⟩ address target
    have hmem := Finset.mem_insert_self new.frame dirs
    have hmap : (q.map frames₁ new address target _).Meets admits _ :=
      map_keepsShares hq hmem address target (.present ||| .writable)
    refine ((hq.map_meets hmem _ target _).and hmap).imp ?_
    rintro ⟨result, q', frames₂⟩ ⟨⟨hq', -⟩, hkept'⟩
    have hsub := Finset.subset_insert new.frame dirs
    exact ⟨hq', hkept.trans (hkept'.subset hsub),
      fun d hd => hkept'.shares _ hmem _ (hsub hd) (hnew d hd)⟩
  · rintro ⟨started, p', frames'⟩ hstarted
    cases started with
    | error cause =>
        rcases hstarted with ⟨rfl, -⟩ | ⟨new, -, hkept, -⟩
        · exact .refl
        · exact hkept
    | ok new =>
        obtain ⟨q, ⟨-, hkept, hnew⟩, rfl⟩ := hstarted
        have hsame : ∀ {k d shared kernel? current?}, q.Shares k d shared →
            Paging.Shares { q with kernel?, current? } k d shared := fun m =>
          m.congr (fun _ => rfl) (fun _ => rfl) fun _ _ _ => rfl
        exact ⟨⟨rfl, fun k hk d hd _ m => hsame (hkept.shares k hk d hd m)⟩, rfl,
          fun d hd => hsame (hnew d hd)⟩

end

/-! ## A directory and the kernel's -/

/-- **How a directory stands to the kernel's.**  With the directory that was the kernel's at its
creation it has the tables of some regions in common, and no others; with any other that is the
kernel's it has none in common. -/
def Beside (kernel? : Option PageDirectory) (shared : Fin entriesPerTable → Prop)
    (d : PageDirectory) (p : Paging) : Prop :=
  ∀ k, k ∈ kernel? ∨ k ∈ p.kernel? → p.Shares k.frame d.frame fun i => k ∈ kernel? ∧ shared i

namespace Beside

/-- Where the kernel's directory is the same, what is kept of the tables is kept of this. -/
theorem keeps (b : Beside kernel? shared d p) (kept : KeepsShares dirs p p') (hd : d.frame ∈ dirs)
    (hmem : ∀ k ∈ kernel?, k.frame ∈ dirs) (hkernel : ∀ k ∈ p.kernel?, k.frame ∈ dirs) :
    Beside kernel? shared d p' := by
  intro k hk
  rw [kept.kernel?_eq] at hk
  exact kept.shares _ (hk.elim (hmem k) (hkernel k)) _ hd (b k hk)

/-- **Another directory becomes the kernel's**, which has nothing in common with those before it. -/
theorem started {new : PageDirectory} (b : Beside kernel? shared d p)
    (kept : KeepsShares dirs p { p' with kernel? := p.kernel? }) (hnew : p'.kernel? = some new)
    (hshares : ∀ d ∈ dirs, p'.Shares new.frame d fun _ => False) (hd : d.frame ∈ dirs)
    (hmem : ∀ k ∈ kernel?, k.frame ∈ dirs) : Beside kernel? shared d p' := by
  intro k hk
  by_cases hold : k ∈ kernel?
  · exact (kept.shares _ (hmem k hold) _ hd (b k (Or.inl hold))).congr (fun _ => rfl) (fun _ => rfl)
      fun _ _ _ => rfl
  · obtain rfl : new = k := Option.some.inj (hnew.symm.trans (hk.resolve_left hold))
    have hno : (fun i => new ∈ kernel? ∧ shared i) = fun _ => False :=
      funext fun _ => eq_false fun hi => hold hi.1
    rw [hno]
    exact hshares _ hd

/-- Addresses in a region that is shared go to the same place. -/
theorem translate_eq (b : Beside kernel? shared d p) (hk : k ∈ kernel?)
    (hv : shared v.directoryIndex) : p.translate d v = p.translate k v :=
  translate_congr ((b k (Or.inl hk)).frameOf?_eq ⟨hk, hv⟩)

/-- **A table that is found for a region that is not shared** is not the kernel's: when one of its
entries is written, no translation of the kernel's directory changes. -/
theorem translate_written {t : Frame} (b : Beside kernel? shared d p) (h : Spaces p dirs)
    (hd : d.frame ∈ dirs) (hk : k ∈ kernel? ∨ k ∈ p.kernel?) (hmem : k.frame ∈ dirs)
    (ht : p.target? d.frame v.directoryIndex = some t)
    (hv : ¬ (k ∈ kernel? ∧ shared v.directoryIndex)) (entry : PageTableEntry) (w : VirtAddr) :
    (p.withEntry t v.tableIndex entry).translate k w = p.translate k w := by
  exact translate_congr (h.frameOf?_written_of_not hd ht entry hmem fun heq =>
    (b k hk).apart _ hv t ht heq.1)

/-- **What is mapped in a region that is not shared** does not show in the kernel's directory. -/
theorem spares (b : Beside kernel? shared d p) (h : Housed range dirs p frames)
    (hd : d.frame ∈ dirs) (hmem : ∀ k ∈ kernel?, k.frame ∈ dirs) (hk : k ∈ kernel? ∨ k ∈ p.kernel?)
    (hv : ¬ (k ∈ kernel? ∧ shared v.directoryIndex)) : p.Spares frames d k v := by
  have hkmem : k.frame ∈ dirs := hk.elim (hmem k) (h.spaces.kernel_mem k)
  obtain ⟨lent, hlends, hdirs, htables⟩ := h.lends
  refine ⟨fun target flags => ?_, fun cpu w => ?_⟩
  · refine (h.spaces.map_cases hd hlends hdirs htables v target flags).imp ?_
    rintro ⟨result, p', frames'⟩ (⟨-, rfl, -⟩ | ⟨-, t, p₁, lent', hfor, rfl, -⟩) w
    · rfl
    · -- the table is found first, which changes no translation and shares nothing
      obtain ⟨h₁, ht, -, hframe⟩ := h.spaces.tableFor hd hdirs htables hfor
      have kept : KeepsShares dirs p p₁ := ⟨hfor.kernel?_eq, fun k hk e he _ m =>
        m.tableFor h.spaces hk he hd hdirs htables hfor⟩
      rw [← hfor.kernel?_eq] at hk
      rw [(b.keeps kept hd hmem h.spaces.kernel_mem).translate_written h₁ hd hk hkmem ht hv]
      exact translate_congr (hframe _ hkmem w)
  · obtain ⟨-, ⟨-, heq⟩ | ⟨t, ht, heq⟩⟩ := Spaces.unmap_cases p cpu d v
    · rw [heq]
    · rw [heq]
      exact b.translate_written h.spaces hd hk hkmem ht hv .empty w

end Beside

end Paging

/-! ## Sessions -/

namespace PagingSession

variable {s : PagingSession} {range : FrameRange} {d : PageDirectory}
  {kernel? : Option PageDirectory} {shared : Fin entriesPerTable → Prop} {admits : Fault → Prop}

/-- A session in which **a directory stands beside the kernel's**: it shares the tables of some regions
with it, and both are directories that the client was given.  The regions are a parameter, since they
do not change. -/
structure Shared (range : FrameRange) (kernel? : Option PageDirectory)
    (shared : Fin entriesPerTable → Prop) (d : PageDirectory) (s : PagingSession) : Prop where
  consistent : s.Consistent range
  beside : s.paging.Beside kernel? shared d
  created : d ∈ s.created
  kernel_created : ∀ k ∈ kernel?, k ∈ s.created

namespace Shared

theorem frame_mem (c : s.Shared range kernel? shared d) : d.frame ∈ s.directoryFrames :=
  mem_directoryFrames c.created

theorem kernel_mem (c : s.Shared range kernel? shared d) :
    ∀ k ∈ kernel?, k.frame ∈ s.directoryFrames :=
  fun k hk => mem_directoryFrames (c.kernel_created k hk)

/-- What a call keeps of the tables, it keeps of this. -/
theorem keeps (c : s.Shared range kernel? shared d) {p' : Paging}
    (kept : s.paging.KeepsShares s.directoryFrames p') : p'.Beside kernel? shared d :=
  c.beside.keeps kept c.frame_mem c.kernel_mem c.consistent.spaces.kernel_mem

/-- **Every call keeps what is shared**, and no directory is forgotten. -/
theorem beside_meets (c : s.Shared range kernel? shared d) {call : PagingCall}
    (hpermits : s.permits call = true) :
    (s.make call).Meets admits fun s' =>
      s'.paging.Beside kernel? shared d ∧ s.created ⊆ s'.created := by
  have h : s.paging.Housed range s.directoryFrames s.frames := c.consistent
  cases call with
  | start =>
      refine (Paging.start_keepsShares h).bind fun (started, p', frames') hstarted =>
        Run.meets_pure ⟨?_, List.subset_append_right _ _⟩
      cases started with
      | error cause => exact c.keeps hstarted
      | ok new =>
          obtain ⟨hkept, hnew, hshares⟩ := hstarted
          exact c.beside.started hkept hnew hshares c.frame_mem c.kernel_mem
  | createDirectory =>
      exact (Paging.createDirectory_target?_meets h).bind fun _ hcreated =>
        Run.meets_pure ⟨c.keeps (.of_target?_eq hcreated.1 hcreated.2.1),
          List.subset_append_right _ _⟩
  | map e v target flags =>
      have he := mem_directoryFrames (of_decide_eq_true hpermits)
      exact (Paging.map_keepsShares h he v target flags).bind fun _ hkept =>
        Run.meets_pure ⟨c.keeps hkept, List.Subset.refl _⟩
  | unmap e v =>
      have he := mem_directoryFrames (of_decide_eq_true hpermits)
      exact Run.meets_pure ⟨c.keeps (Paging.unmap_keepsShares h he s.cpu v), List.Subset.refl _⟩
  | switch e =>
      exact Run.meets_pure ⟨c.keeps (.of_target?_eq rfl fun _ _ _ => rfl), List.Subset.refl _⟩
  | allocFrame =>
      obtain ⟨address?, frames', halloc, -⟩ := h.alloc_ok
      exact Run.meets_lift_bind halloc (Run.meets_pure ⟨c.beside, List.Subset.refl _⟩)
  | freeFrame address =>
      obtain ⟨hdir, htable⟩ := of_decide_eq_true hpermits
      exact (h.free_meets hdir htable).bind fun _ _ =>
        Run.meets_pure ⟨c.beside, List.Subset.refl _⟩

theorem make_meets (c : s.Shared range kernel? shared d) {call : PagingCall}
    (hpermits : s.permits call = true) :
    (s.make call).Meets admits (Shared range kernel? shared d) := by
  have hmake : (s.make call).Meets admits (Consistent range) :=
    PagingSession.make_meets c.consistent hpermits
  have hbeside : (s.make call).Meets admits _ := c.beside_meets hpermits
  refine (hmake.and hbeside).imp ?_
  rintro s' ⟨c', hbeside, hsubset⟩
  exact ⟨c', hbeside, hsubset c.created, fun k hk => hsubset (c.kernel_created k hk)⟩

theorem step_meets (c : s.Shared range kernel? shared d) (call : PagingCall) :
    (s.step call).Meets admits (Shared range kernel? shared d) := by
  unfold step
  split
  case isTrue hpermits => exact c.make_meets hpermits
  case isFalse => exact Run.meets_pure c

/-- **What is shared stays shared**, and nothing else comes to be, by induction on the calls. -/
theorem run_meets (c : s.Shared range kernel? shared d) (calls : List PagingCall) :
    (s.run calls).Meets admits (Shared range kernel? shared d) := by
  induction calls generalizing s with
  | nil => exact Run.meets_pure c
  | cons call calls ih => exact (c.step_meets call).bind fun s' c' => ih c'

end Shared

theorem Consistent.kernel_created (c : s.Consistent range) {k : PageDirectory}
    (hk : k ∈ s.paging.kernel?) : k ∈ s.created := by
  obtain ⟨d, hd, heq⟩ := List.mem_map.mp (List.mem_toFinset.mp (c.spaces.kernel_mem k hk))
  obtain rfl : d = k := congrArg PageDirectory.mk heq
  exact hd

/-- **A directory is created.**  It translates every address as the kernel's does, and shares the
tables that the kernel's has. -/
theorem Consistent.createDirectory_meets (c : s.Consistent range) :
    (s.make .createDirectory).Meets admits fun s' => ∀ d, s'.created = d :: s.created →
      (∀ v, s'.paging.translate d v = s.paging.kernel?.bind fun k => s'.paging.translate k v)
        ∧ s'.Shared range s.paging.kernel?
            (fun i => (s.paging.kernel?.bind fun k => s.paging.target? k.frame i).isSome) d := by
  have h : s.paging.Housed range s.directoryFrames s.frames := c
  have hmake : (s.make .createDirectory).Meets admits (Consistent range) :=
    PagingSession.make_meets c rfl
  have hrefers : (s.make .createDirectory).Meets admits fun s' =>
      s'.paging.kernel? = s.paging.kernel?
        ∧ (∀ f ∈ s.directoryFrames, ∀ i, s'.paging.target? f i = s.paging.target? f i)
        ∧ ∃ directory? : Option PageDirectory, s'.created = directory?.toList ++ s.created
          ∧ ∀ d ∈ directory?, d.frame ∉ s.directoryFrames ∧ ∀ i,
            s'.paging.target? d.frame i
              = s.paging.kernel?.bind fun k => s.paging.target? k.frame i :=
    (Paging.createDirectory_target?_meets h).bind fun (directory?, _) hcreated =>
      Run.meets_pure ⟨hcreated.1, hcreated.2.1, directory?, rfl, hcreated.2.2⟩
  refine (hmake.and hrefers).imp ?_
  rintro s' ⟨c', hkernel, hold, directory?, hcreated, hnew⟩ d hd
  rw [hcreated] at hd
  cases directory? with
  | none => exact absurd hd.symm (List.cons_ne_self d s.created)
  | some new =>
      obtain ⟨rfl, -⟩ := List.cons.inj hd
      obtain ⟨hfresh, hcopied⟩ := hnew new rfl
      have hsame : ∀ k ∈ s.paging.kernel?, ∀ i, s'.paging.target? new.frame i
          = s'.paging.target? k.frame i := by
        intro k hk i
        rw [hcopied, hk, Option.bind_some, hold _ (h.spaces.kernel_mem k hk)]
      refine ⟨fun v => ?_, c', fun k hk => ?_, ?_, fun k hk => ?_⟩
      · cases hk : s.paging.kernel? with
        | none =>
            rw [Paging.translate_eq, Paging.frameOf?, hcopied, hk]
            rfl
        | some k =>
            refine Paging.translate_congr ?_
            rw [Paging.frameOf?, Paging.frameOf?, hsame k hk]
      · rw [hkernel, or_self] at hk
        have hmem := h.spaces.kernel_mem k hk
        have hne : new.frame ≠ k.frame := fun heq => hfresh (heq ▸ hmem)
        have m : s'.paging.Mirrors (fun _ => False) k.frame new.frame _ :=
          .of_copied hne (hold _ hmem) fun i => (hsame k hk i).trans (hold _ hmem i)
        have hshared : (fun i => k ∈ s.paging.kernel?
            ∧ (s.paging.kernel?.bind fun k => s.paging.target? k.frame i).isSome = true)
              = fun i => (s.paging.target? k.frame i).isSome = true := by
          funext i
          rw [hk, Option.bind_some]
          exact propext (and_iff_right rfl)
        rwa [hshared]
      · rw [hcreated]
        exact List.mem_cons_self
      · rw [hcreated]
        exact List.mem_cons_of_mem _ (c.kernel_created hk)

/-- **What a created directory shares with the kernel's, it shares for good**, and nothing else.  A
session builds directories, maps and unmaps pages in them, and takes and gives back frames, but none
that is a directory or a page table.  At some point a directory is created.  At that moment it
translates every address as the kernel's directory does, or none where there is no such directory.  At
any time after that, an address in a region where the kernel's directory had a page table at that
moment goes to the same place in both; and in the other regions whatever is mapped or unmapped in the
new directory leaves every translation of the kernel's directory as it is, be it the one that was the
kernel's then or the one that is now. -/
theorem execute_shares (ram : Ram) (memoryTop reservedTop : UInt32) (before : List PagingCall) :
    (execute ram memoryTop reservedTop before).Meets (fun _ => False) fun s =>
      (s.make .createDirectory).Meets (fun _ => False) fun s₁ => ∀ d, s₁.created = d :: s.created →
        (∀ v, s₁.paging.translate d v = s.paging.kernel?.bind fun k => s₁.paging.translate k v)
          ∧ ∀ later, (s₁.run later).Meets (fun _ => False) fun s₂ =>
            (∀ k ∈ s.paging.kernel?, ∀ v, s.paging.hasTable k v = true →
                s₂.paging.translate d v = s₂.paging.translate k v)
              ∧ ∀ k, k ∈ s.paging.kernel? ∨ k ∈ s₂.paging.kernel? →
                ∀ v, ¬ (k ∈ s.paging.kernel? ∧ s.paging.hasTable k v = true) →
                  s₂.paging.Spares s₂.frames d k v := by
  refine (execute_meets ram memoryTop reservedTop before).imp fun s c => ?_
  refine c.createDirectory_meets.imp fun s₁ hcreated d hd => ?_
  obtain ⟨htranslate, c₁⟩ := hcreated d hd
  refine ⟨htranslate, fun later => (c₁.run_meets later).imp fun s₂ c₂ => ⟨?_, ?_⟩⟩
  · intro k hk v hv
    refine c₂.beside.translate_eq hk ?_
    rw [hk]
    exact hv
  · intro k hk v hv
    refine c₂.beside.spares c₂.consistent c₂.frame_mem c₂.kernel_mem hk fun ⟨hold, hshared⟩ => ?_
    rw [hold] at hshared
    exact hv ⟨hold, hshared⟩

end PagingSession

end TinyKernel
