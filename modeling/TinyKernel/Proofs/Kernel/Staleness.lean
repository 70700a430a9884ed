import TinyKernel.Proofs.Kernel.Refusals
import TinyKernel.Proofs.Paging.Permissions

/-!
# Translations that are out of date

The processor may remember a translation until it is told to forget.  Whatever takes a translation
away tells it so: unmapping a page does, and releasing a page of a heap.  Mapping a page does not, and
so a page that is mapped already must not be mapped to another frame: whoever had the old translation
may keep it.

## What is load-bearing

Mapping a page writes one entry, which may belong to several directories, and it may change the flags
of another.  The only translations that can change are those of the very page, in the directories that
have the table (`Paging.WritesPage.outdates`); those of all other pages are safe, also where a table is
created or an entry of a directory gets flags.

* `Paging.Outdates` — a translation is out of date
* `MappingCall` — what can be asked of paging, and of a heap that has its pages from it
* `PagingSession.executeAll_flushes` — which calls flush, and which translations they put out of date
-/

namespace TinyKernel

namespace Paging

/-- **A translation is out of date**: it was there, and by now it is another one, or gone.  A processor
that kept it would use it until it flushes.  A page that was not mapped before cannot have been
kept. -/
structure Outdates (p p' : Paging) (d : PageDirectory) (v : VirtAddr) : Prop where
  isSome : (p.translate d v).isSome = true
  translate_ne : p'.translate d v ≠ p.translate d v

variable {p p' : Paging} {dirs : Finset Frame} {d e : PageDirectory} {t target : Frame}
  {v w : VirtAddr} {flags : PageFlags} {written : Frame → Fin entriesPerTable → Prop}

theorem not_outdates_self (p : Paging) (d : PageDirectory) (v : VirtAddr) : ¬ p.Outdates p d v :=
  fun h => h.translate_ne rfl

/-- **The entry of the page was written** if its translation is out of date.  Entries of directories do
not come in, since tables are never exchanged. -/
theorem Outdates.exists_written (o : p.Outdates p' e w) (h : Evolves dirs written p p')
    (he : e.frame ∈ dirs) :
    ∃ t, p.target? e.frame w.directoryIndex = some t ∧ written t w.tableIndex := by
  have hsome := o.isSome
  rw [isSome_translate] at hsome
  obtain ⟨f, hf⟩ := Option.isSome_iff_exists.mp hsome
  by_contra hnone
  have hf' : p'.frameOf? e.frame w = some f :=
    h.frameOf? he hf fun t ht hwritten => hnone ⟨t, ht, hwritten⟩
  exact o.translate_ne (translate_congr (hf'.trans hf.symm))

/-- Where nothing is written, nothing is out of date. -/
theorem Evolves.not_outdates (h : Evolves dirs (fun _ _ => False) p p') (he : e.frame ∈ dirs) :
    ¬ p.Outdates p' e w := by
  intro o
  obtain ⟨t, -, hfalse⟩ := o.exists_written h he
  exact hfalse

/-- **Mapping a page** puts no translation out of date but those of the page itself, in the directories
that share its table. -/
theorem WritesPage.outdates (m : WritesPage dirs d.frame v target flags t p p') (h : p.Spaces dirs)
    (hd : d.frame ∈ dirs) (he : e.frame ∈ dirs) (o : p.Outdates p' e w) :
    v.SamePage w ∧ p.SharesTable d e v := by
  obtain ⟨t', ht', rfl, hindex⟩ := o.exists_written m.evolves he
  obtain ⟨ht, hregion⟩ := m.before_of_target? h hd he ht'
  exact ⟨⟨hregion, hindex.symm⟩, t', ht, hregion ▸ ht'⟩

/-- **A page that is mapped** goes to its frame in every address space that has the table. -/
theorem WritesPage.frameOf? (m : WritesPage dirs d.frame v target flags t p p')
    (hd : d.frame ∈ dirs) (he : e.frame ∈ dirs) (hnamed : flags.named = flags)
    (hshares : p.SharesTable d e v) (hpage : v.SamePage w) : p'.frameOf? e.frame w = some target := by
  obtain ⟨t', hdt, het⟩ := hshares
  have ht : p'.target? d.frame v.directoryIndex = some t := by
    rw [m.target?_eq _ hd, if_pos ⟨rfl, rfl⟩]
  obtain rfl : t' = t := Option.some.inj ((m.evolves.target? hd hdt).symm.trans ht)
  rw [frameOf?_congr hpage, Paging.frameOf?, m.evolves.target? he het, Option.bind_some,
    target?_of_read? m.leaf, target?_leaf target hnamed]

end Paging

/-! ## Sessions with a heap -/

/-- **What can be asked of paging**, and of heaps that have their pages mapped into directories.  The
two calls of the second kind are the page source of the kernel heap. -/
inductive MappingCall where
  | paging (call : PagingCall)
  | back (directory : PageDirectory) (page : VirtAddr)
  | release (directory : PageDirectory) (page : VirtAddr)

/-- The page that a call maps, and the directory that it is mapped in.  Backing a page of a heap maps
it. -/
def MappingCall.maps? : MappingCall → Option (PageDirectory × VirtAddr)
  | .paging (.map d v _ _) => some (d, v)
  | .back d page => some (d, page)
  | _ => none

namespace PagingSession

/-- The session after something was done to the pages of a heap. -/
def withPages (s : PagingSession) (pages : KernelPages) : PagingSession :=
  { s with cpu := pages.cpu, paging := pages.paging, frames := pages.frames }

/-- **Whether a call keeps to the rules.**  The directory of a heap is one of the session, and a page is
not released if its frame holds a directory or a table. -/
def mayPerform (s : PagingSession) : MappingCall → Bool
  | .paging call => s.permits call
  | .back d _ => d ∈ s.created
  | .release d page => d ∈ s.created ∧ ∀ f ∈ s.paging.frameOf? d.frame page,
      f ∉ s.directoryFrames ∧ f ∉ s.tableFrames

/-- A call is made, without its answer. -/
def perform (s : PagingSession) : MappingCall → Run PagingSession
  | .paging call => s.make call
  | .back d page => do
    let (_, pages) ← PageSource.back page (s.pages d)
    pure (s.withPages pages)
  | .release d page => do
    let pages ← PageSource.release page (s.pages d)
    pure (s.withPages pages)

/-- **One call**, which is made if it keeps to the rules. -/
def attempt (s : PagingSession) (call : MappingCall) : Run PagingSession :=
  if s.mayPerform call then s.perform call else pure s

/-- Calls, one after the other.  Those that break a rule are passed over. -/
def performAll (s : PagingSession) : List MappingCall → Run PagingSession
  | [] => pure s
  | call :: calls => do
    let s ← s.attempt call
    s.performAll calls

/-- **A whole session**: over some memory, with all frames free that are not reserved. -/
def executeAll (ram : Ram) (memoryTop reservedTop : UInt32) (calls : List MappingCall) :
    Run PagingSession := do
  let frames ← FrameAllocator.init memoryTop reservedTop
  performAll { paging := .ofRam ram, frames, cpu := .reset, created := [] } calls

/-- **What a call puts out of date.**  If it maps a page, it does not flush, and what is out of date is
that page, in the directories that have the table.  If it does not, the translations were flushed. -/
def Accounts (s : PagingSession) (call : MappingCall) (s' : PagingSession) : Prop :=
  ∀ e ∈ s.created, ∀ w, s.paging.Outdates s'.paging e w →
    match call.maps? with
    | some (d, v) => s'.cpu.tlbFlushes = s.cpu.tlbFlushes ∧ v.SamePage w ∧ s.paging.SharesTable d e v
    | none => s'.cpu.tlbFlushes = s.cpu.tlbFlushes + 1

variable {s s' : PagingSession} {range : FrameRange} {call : MappingCall} {d : PageDirectory}
  {page : VirtAddr} {admits : Fault → Prop}

/-! ## The calls -/

/-- A call that changes no memory puts nothing out of date. -/
theorem Accounts.of_paging_eq (heq : s'.paging = s.paging) : s.Accounts call s' := by
  intro e _ w o
  rw [heq] at o
  exact absurd o (Paging.not_outdates_self s.paging e w)

theorem Accounts.of_evolves
    (h : s.paging.Evolves s.directoryFrames (fun _ _ => False) s'.paging) : s.Accounts call s' :=
  fun _ he _ o => absurd o (h.not_outdates (mem_directoryFrames he))

/-- A call that flushes may put anything out of date, if it maps no page. -/
theorem Accounts.of_flushTlb (hmaps : call.maps? = none) (hcpu : s'.cpu = s.cpu.flushTlb) :
    s.Accounts call s' := by
  intro e _ w _
  rw [hmaps, hcpu]
  rfl

/-- A call that maps a page does not flush, and so has to account for the page. -/
theorem Accounts.of_writesPage {target t : Frame} {flags : PageFlags} (c : s.Consistent range)
    (hmaps : call.maps? = some (d, page)) (hd : d ∈ s.created) (hcpu : s'.cpu = s.cpu)
    (m : s.paging.WritesPage s.directoryFrames d.frame page target flags t s'.paging) :
    s.Accounts call s' := by
  intro e he w o
  rw [hmaps, hcpu]
  exact ⟨rfl, m.outdates c.spaces (mem_directoryFrames hd) (mem_directoryFrames he) o⟩

theorem make_accounts (c : s.Consistent range) {call : PagingCall} (hpermits : s.permits call = true) :
    (s.make call).Meets admits (s.Accounts (.paging call)) := by
  have h : s.paging.Housed range s.directoryFrames s.frames := c
  cases call with
  | start => exact h.start_evolves.bind fun _ hstarted => Run.meets_pure (.of_evolves hstarted.1)
  | map d v target flags =>
      have hd := of_decide_eq_true hpermits
      refine (h.map_writesPage (mem_directoryFrames hd) v target flags).bind
        fun (result, p', frames') hwrites => Run.meets_pure ?_
      cases result with
      | error cause => exact .of_paging_eq hwrites
      | ok =>
          obtain ⟨t, m⟩ := hwrites
          exact .of_writesPage c rfl hd rfl m
  | unmap d v =>
      simp only [make]
      cases hmapped : s.paging.frameOf? d.frame v with
      | none =>
          rw [Paging.unmap_of_unmapped s.cpu hmapped]
          exact Run.meets_pure (.of_paging_eq rfl)
      | some f =>
          obtain ⟨t, -, hunmap⟩ := Paging.unmap_of_mapped s.cpu hmapped
          rw [hunmap]
          exact Run.meets_pure (.of_flushTlb rfl rfl)
  | createDirectory | switch | allocFrame | freeFrame =>
      exact (make_evolves c hpermits rfl).imp fun _ hmade => .of_evolves hmade.1

/-- **A page of a heap is backed**, which is a mapping, and does not flush. -/
theorem back_accounts (c : s.Consistent range) (hd : d ∈ s.created) (page : VirtAddr) :
    (s.perform (.back d page)).Meets admits fun s' =>
      s'.Consistent range ∧ s.Accounts (.back d page) s' := by
  have h : s.paging.Housed range s.directoryFrames s.frames := c
  have hmem := mem_directoryFrames hd
  have hback : (PageSource.back page (s.pages d)).Meets admits _ := KernelPages.back_cases h hmem page
  refine hback.bind fun (result, pages) ends => Run.meets_pure ⟨ends.housed h hmem, ?_⟩
  cases result with
  | ok =>
      obtain ⟨hcpu, f, t, m⟩ := ends.writesPage h hmem
      exact .of_writesPage c rfl hd hcpu m
  | error cause =>
      cases ends with
      | noFrame | noTable => exact .of_paging_eq rfl

/-- **A page of a heap is released**, which is an unmapping, and flushes if the page was mapped. -/
theorem release_accounts (c : s.Consistent range) (hmay : s.mayPerform (.release d page) = true) :
    (s.perform (.release d page)).Meets admits fun s' =>
      s'.Consistent range ∧ s.Accounts (.release d page) s' := by
  have h : s.paging.Housed range s.directoryFrames s.frames := c
  obtain ⟨hd, hframe⟩ := of_decide_eq_true hmay
  have hmem := mem_directoryFrames hd
  cases hpage : s.paging.frameOf? d.frame page with
  | none =>
      rw [perform, KernelPages.release_of_unmapped (s := s.pages d) hpage]
      exact Run.meets_pure ⟨c, .of_paging_eq rfl⟩
  | some f =>
      obtain ⟨hdir, htable⟩ := hframe f hpage
      obtain ⟨t, ht, hunmap⟩ := Paging.unmap_of_mapped s.cpu hpage
      have h' := h.unmap hmem s.cpu page
      rw [hunmap] at h'
      have hfree : (s.frames.free f.start).Meets admits
          (Paging.Housed range s.directoryFrames (s.paging.withEntry t page.tableIndex .empty)) := by
        refine h'.free_meets ?_ ?_ <;> rw [f.frame_start]
        · exact hdir
        · rwa [h.spaces.tableFrames_written hmem ht]
      refine (KernelPages.release_cases (s := s.pages d) hpage hfree).bind
        fun pages hreleased => Run.meets_pure ?_
      obtain ⟨hhoused, hcpu, t', ht', hpaging⟩ := hreleased
      obtain rfl : t' = t := Option.some.inj (ht'.symm.trans ht)
      refine ⟨?_, .of_flushTlb rfl hcpu⟩
      show Paging.Housed range s.directoryFrames pages.paging pages.frames
      rw [hpaging]
      exact hhoused

/-- **A call that keeps to the rules** preserves the invariant, does not fault, and accounts for what
it puts out of date. -/
theorem perform_meets (c : s.Consistent range) (hmay : s.mayPerform call = true) :
    (s.perform call).Meets admits fun s' => s'.Consistent range ∧ s.Accounts call s' := by
  cases call with
  | paging call =>
      have hmake : (s.make call).Meets admits (Consistent range) := make_meets c hmay
      have haccounts : (s.make call).Meets admits _ := make_accounts c hmay
      exact hmake.and haccounts
  | back d page => exact back_accounts c (of_decide_eq_true hmay) page
  | release d page => exact release_accounts c hmay

theorem attempt_meets (c : s.Consistent range) (call : MappingCall) :
    (s.attempt call).Meets admits (Consistent range) := by
  unfold attempt
  split
  case isTrue hmay => exact (perform_meets c hmay).imp fun _ h => h.1
  case isFalse => exact Run.meets_pure c

/-- **The invariant holds at all times**, by induction on the calls. -/
theorem performAll_meets (c : s.Consistent range) (calls : List MappingCall) :
    (s.performAll calls).Meets admits (Consistent range) := by
  induction calls generalizing s with
  | nil => exact Run.meets_pure c
  | cons call calls ih => exact (attempt_meets c call).bind fun s' c' => ih c'

theorem executeAll_meets (ram : Ram) (memoryTop reservedTop : UInt32) (calls : List MappingCall) :
    (executeAll ram memoryTop reservedTop calls).Meets admits
      (Consistent (.ofMemory memoryTop reservedTop)) := by
  refine (FrameAllocator.init_lends memoryTop reservedTop).bind fun frames hlends => ?_
  exact performAll_meets
    ⟨Paging.Spaces.empty rfl, ∅, hlends, Finset.empty_subset _, Finset.empty_subset _⟩ calls

/-- **A page that is mapped over** is out of date where it is seen, and is not flushed.  So this is the
one way to leave a processor with a translation that is wrong. -/
theorem map_over_meets (c : s.Consistent range) (hd : d ∈ s.created) {e : PageDirectory}
    (he : e ∈ s.created) {v w : VirtAddr} {target : PhysAddr} {flags : PageFlags}
    (hnamed : flags.named = flags) (hshares : s.paging.SharesTable d e v) (hpage : v.SamePage w)
    (hmapped : (s.paging.translate e w).isSome = true)
    (hother : (s.paging.translate e w).map PhysAddr.frame ≠ some target.frame) :
    (s.make (.map d v target flags)).Meets admits fun s' =>
      s.paging.Outdates s'.paging e w ∧ s'.cpu.tlbFlushes = s.cpu.tlbFlushes := by
  have h : s.paging.Housed range s.directoryFrames s.frames := c
  have hdmem := mem_directoryFrames hd
  obtain ⟨lent, hlends, hdirs, htables⟩ := h.lends
  have hrefused : (s.paging.map s.frames d v target flags).Meets admits _ :=
    h.spaces.map_refused hdmem hlends hdirs htables v target flags
  have hwrites : (s.paging.map s.frames d v target flags).Meets admits _ :=
    h.map_writesPage hdmem v target flags
  refine (hrefused.and hwrites).bind fun (result, p', frames') ⟨hrefused, hwrites⟩ =>
    Run.meets_pure ?_
  cases result with
  | error cause =>
      -- the region has a table, so that nothing is lacking
      obtain ⟨t, ht, -⟩ := hshares
      rw [(hrefused cause rfl).1] at ht
      cases ht
  | ok =>
      obtain ⟨t, m⟩ := hwrites
      refine ⟨⟨hmapped, fun hsame => hother ?_⟩, rfl⟩
      rw [← hsame, Paging.translate_map_frame]
      exact m.frameOf? hdmem (mem_directoryFrames he) hnamed hshares hpage

/-- **Which calls flush.**  A session builds directories, maps and unmaps pages in them, backs and
releases pages of heaps, and takes and gives back frames, but none that is a directory or a page table.
Whatever translation a call puts out of date, in any directory that there is: if the call does not map
a page, the translations were flushed.  If it does, the translation is that of the very page, which was
mapped already; and where such a page is mapped to another frame, its translation is out of date and
was not flushed. -/
theorem executeAll_flushes (ram : Ram) (memoryTop reservedTop : UInt32)
    (calls : List MappingCall) :
    (executeAll ram memoryTop reservedTop calls).Meets (fun _ => False) fun s =>
      (∀ call, s.mayPerform call = true →
          (s.perform call).Meets (fun _ => False) (s.Accounts call))
        ∧ ∀ d ∈ s.created, ∀ e ∈ s.created, ∀ v w target flags, PageFlags.named flags = flags →
          s.paging.SharesTable d e v → v.SamePage w →
          (s.paging.translate e w).isSome = true →
          (s.paging.translate e w).map PhysAddr.frame ≠ some (PhysAddr.frame target) →
          (s.make (.map d v target flags)).Meets (fun _ => False) fun s' =>
            s.paging.Outdates s'.paging e w ∧ s'.cpu.tlbFlushes = s.cpu.tlbFlushes := by
  refine (executeAll_meets ram memoryTop reservedTop calls).imp fun s c => ⟨?_, ?_⟩
  · intro call hmay
    exact (perform_meets c hmay).imp fun _ h => h.2
  · intro d hd e he v w target flags hnamed hshares hpage hmapped hother
    exact map_over_meets c hd he hnamed hshares hpage hmapped hother

end PagingSession

end TinyKernel
