import TinyKernel.Proofs.Heap.Session

/-!
# A journal of requests for pages

Every page source can be watched: whatever it is asked is passed on to it, and taken down together
with the answer.  A heap over the watched source does exactly what it does over the source itself
(`HeapSession.execute_forget`), so what the journals say is said about all page sources.

## What is load-bearing

A heap that grows asks for the pages behind its last one, in the order of their addresses.  If one
is refused, the pages that were backed before it are released, in the same order.  So the journal of
one step of growth has one of three shapes (`GrowthStep`), and no other request is ever made.

* `PageEvent`, `Journaled` — what is asked, and a page source with a journal
* `GrowthStep` — the journal of one step of growth
* `backRange_rows`, `backRange_journal` — backing a range is such a step
* `HeapSession.execute_forget` — watching changes nothing
-/

namespace TinyKernel

/-- **What a page source is asked**, and how it answers.  A refusal is an event of its own; the page it
names is not backed. -/
inductive PageEvent where
  | backed (page : VirtAddr)
  | refused (page : VirtAddr)
  | released (page : VirtAddr)
  deriving DecidableEq

/-- What becomes of a page that was asked for.  The reason of a refusal is not kept. -/
def PageEvent.answering (page : VirtAddr) : Except MapError Unit → PageEvent
  | .ok () => backed page
  | .error _ => refused page

/-- **A page source with a journal** of what it was asked, the oldest request first.  Accounts of pages
can be kept of every source in this way, even of one whose state says nothing about what it backs. -/
structure Journaled (σ : Type) where
  source : σ
  journal : List PageEvent

namespace Journaled

variable {σ : Type}

/-- A page source that was not asked anything yet: the journal is empty. -/
def opened (source : σ) : Journaled σ := ⟨source, []⟩

/-- One more request, which leaves the source in another state, and adds one event at the end of the
journal. -/
def record (p : Journaled σ) (source : σ) (event : PageEvent) : Journaled σ :=
  ⟨source, p.journal ++ [event]⟩

@[simp]
theorem journal_record (p : Journaled σ) (source : σ) (event : PageEvent) :
    (p.record source event).journal = p.journal ++ [event] := rfl

instance [PageSource σ] : PageSource (Journaled σ) where
  back page p := do
    let (result, source) ← PageSource.back page p.source
    pure (result, p.record source (.answering page result))
  release page p := do
    let source ← PageSource.release page p.source
    pure (p.record source (.released page))

variable [PageSource σ]

/-- A watched source raises what the source raises, and leaves one event for each request. -/
theorem back_meets (p : Journaled σ) (page : VirtAddr) :
    (PageSource.back page p).Meets (PageSource.Raises σ) fun (result, p') =>
      p'.journal = p.journal ++ [.answering page result] :=
  have keeps := PageSource.keeps_true σ {page}
  (keeps.back trivial (Finset.mem_singleton_self page) (Finset.notMem_empty page)).bind
    fun _ _ => Run.meets_pure rfl

theorem release_meets (p : Journaled σ) (page : VirtAddr) :
    (PageSource.release page p).Meets (PageSource.Raises σ) fun p' =>
      p'.journal = p.journal ++ [.released page] :=
  have keeps := PageSource.keeps_true σ {page}
  have hmem := Finset.mem_singleton_self page
  (keeps.release trivial hmem hmem).bind fun _ _ => Run.meets_pure rfl

/-- A watched source keeps to what every source keeps to.  So results about sessions over any page
source hold of watched ones. -/
theorem keeps_true (σ : Type) [PageSource σ] (window : Finset VirtAddr) :
    PageSource.Keeps (Journaled σ) window (PageSource.Raises σ) fun _ _ => True where
  back {_ p page} _ _ _ := by
    refine (p.back_meets page).imp ?_
    rintro ⟨result, p'⟩ -
    cases result <;> trivial
  release {_ p page} _ _ _ := (p.release_meets page).imp fun _ _ => trivial

end Journaled

/-! ## The journal of a range -/

/-- The events of `count` pages in a row, from number `i` on, lowest page first. -/
def PageEvent.row (event : VirtAddr → PageEvent) (start : VirtAddr) (i count : Nat) :
    List PageEvent :=
  (List.range' i count).map fun j => event (pageAt start j)

/-- **The journal of one step of growth**, from `n` pages on, where `limit` pages are the most.  Either
nothing is asked; or pages behind the last one are backed, and the heap has them from then on; or one
of them is refused, and those that were backed before it in this step are released.  The relation has
no fourth case: pages of earlier steps are never released. -/
inductive GrowthStep (start : VirtAddr) (limit n : Nat) : Nat → List PageEvent → Prop where
  | idle : GrowthStep start limit n n []
  | grown {count : Nat} (room : n + count ≤ limit) :
      GrowthStep start limit n (n + count) (PageEvent.row .backed start n count)
  | refused {count : Nat} (room : n + count < limit) :
      GrowthStep start limit n n (PageEvent.row .backed start n count
        ++ .refused (pageAt start (n + count)) :: PageEvent.row .released start n count)

section

variable {σ : Type} [PageSource σ] {start : VirtAddr} {n k count : Nat}

theorem PageEvent.row_succ (event : VirtAddr → PageEvent) (start : VirtAddr) (i count : Nat) :
    row event start i (count + 1) = event (pageAt start i) :: row event start (i + 1) count := by
  rw [row, List.range'_succ, List.map_cons, row]

theorem releasePages_journal (p : Journaled σ)
    (fits : start.val.toNat + (n + (k + count)) * pageSize ≤ 2 ^ 32) :
    (releasePages start (n * pageSize) p ((List.range' k count).map (· * pageSize))).Meets
      (PageSource.Raises σ) fun p' =>
        p'.journal = p.journal ++ PageEvent.row .released start (n + k) count := by
  induction count generalizing k p with
  | zero => exact Run.meets_pure (List.append_nil _).symm
  | succ count ih =>
      rw [List.range'_succ, List.map_cons, releasePages]
      refine Run.meets_lift_bind (pageAddress_ok (by simp only [pageSize] at *; omega)) ?_
      refine (Journaled.release_meets p _).bind fun p₁ h₁ => ?_
      refine (ih p₁ (k := k + 1) (by rwa [show k + 1 + count = k + (count + 1) by omega])).imp
        fun p₂ h₂ => ?_
      rw [h₂, h₁, PageEvent.row_succ, List.append_assoc]
      rfl

theorem backPages_journal (p : Journaled σ)
    (fits : start.val.toNat + (n + (k + count)) * pageSize ≤ 2 ^ 32) :
    (backPages start (n * pageSize) p ((List.range' k count).map (· * pageSize))).Meets
      (PageSource.Raises σ) fun (result, p') =>
        match result with
        | .ok () => p'.journal = p.journal ++ PageEvent.row .backed start (n + k) count
        | .error _ => ∃ m < count, p'.journal = p.journal ++ (PageEvent.row .backed start (n + k) m
            ++ .refused (pageAt start (n + k + m)) :: PageEvent.row .released start n (k + m)) := by
  induction count generalizing k p with
  | zero => exact Run.meets_pure (List.append_nil _).symm
  | succ count ih =>
      rw [List.range'_succ, List.map_cons, backPages]
      refine Run.meets_lift_bind (pageAddress_ok (by simp only [pageSize] at *; omega)) ?_
      refine (Journaled.back_meets p _).bind ?_
      rintro ⟨result, p₁⟩ h₁
      cases result with
      | ok =>
          refine (ih p₁ (k := k + 1) (by rwa [show k + 1 + count = k + (count + 1) by omega])).imp ?_
          rintro ⟨result, p₂⟩ h₂
          cases result with
          | ok =>
              show p₂.journal = _
              rw [h₂, h₁, PageEvent.row_succ, List.append_assoc]
              rfl
          | error refusal =>
              obtain ⟨m, hm, h₂⟩ := h₂
              refine ⟨m + 1, Nat.succ_lt_succ hm, ?_⟩
              rw [h₂, h₁, PageEvent.row_succ, List.append_assoc,
                show n + (k + 1) + m = n + k + (m + 1) by omega,
                show k + 1 + m = k + (m + 1) by omega]
              rfl
      | error e =>
          have hfits : start.val.toNat + (n + (0 + k)) * pageSize ≤ 2 ^ 32 :=
            pages_fit_of_le (by omega) fits
          rw [pageOffsets_mul]
          refine (releasePages_journal p₁ hfits).bind fun p₂ h₂ =>
            Run.meets_pure ⟨0, Nat.succ_pos count, ?_⟩
          rw [h₂, h₁, List.append_assoc]
          rfl

/-- **The journal of a range**: all of its pages are backed, or one is refused and those before it are
released, in the order in which they were backed. -/
theorem backRange_rows (p : Journaled σ) {bytes : Nat}
    (hcount : (bytes + (pageSize - 1)) / pageSize = count)
    (fits : start.val.toNat + (n + count) * pageSize ≤ 2 ^ 32) :
    (backRange start (n * pageSize) bytes p).Meets (PageSource.Raises σ) fun (result, p') =>
      match result with
      | .ok () => p'.journal = p.journal ++ PageEvent.row .backed start n count
      | .error _ => ∃ m < count, p'.journal = p.journal ++ (PageEvent.row .backed start n m
          ++ .refused (pageAt start (n + m)) :: PageEvent.row .released start n m) := by
  have hfits : start.val.toNat + (n + (0 + count)) * pageSize ≤ 2 ^ 32 := by rwa [Nat.zero_add]
  rw [backRange, pageOffsets, hcount, List.range_eq_range']
  refine (backPages_journal p hfits).imp ?_
  rintro ⟨result, p'⟩ h'
  cases result with
  | ok => exact h'
  | error refusal =>
      obtain ⟨m, hm, h'⟩ := h'
      rw [Nat.zero_add] at h'
      exact ⟨m, hm, h'⟩

/-- **Backing a range is one step of growth**, if there is room for it below the limit. -/
theorem backRange_journal (p : Journaled σ) {limit bytes : Nat} (hle : n ≤ limit)
    (room : bytes ≤ limit * pageSize - n * pageSize)
    (fits : start.val.toNat + limit * pageSize ≤ 2 ^ 32) :
    (backRange start (n * pageSize) bytes p).Meets (PageSource.Raises σ) fun (_, p') =>
      ∃ n' recent, p'.journal = p.journal ++ recent ∧ GrowthStep start limit n n' recent := by
  obtain ⟨count, hcount⟩ : ∃ count, (bytes + (pageSize - 1)) / pageSize = count := ⟨_, rfl⟩
  have hlimit : n + count ≤ limit := by
    simp only [pageSize] at room hcount
    omega
  refine (backRange_rows p hcount (pages_fit_of_le hlimit fits)).imp ?_
  rintro ⟨result, p'⟩ h'
  cases result with
  | ok => exact ⟨n + count, _, h', .grown hlimit⟩
  | error refusal =>
      obtain ⟨m, hm, h'⟩ := h'
      exact ⟨n, _, h', .refused (by omega)⟩

end

/-! ## The journal changes nothing

Every operation over a watched source is the operation over the source, once the journal is
forgotten.
-/

section

variable {σ : Type} [PageSource σ]

namespace Journaled

theorem back_source (p : Journaled σ) (page : VirtAddr) :
    Prod.map id source <$> PageSource.back page p = PageSource.back page p.source := by
  simp only [PageSource.back, map_bind, map_pure]
  exact bind_pure _

theorem release_source (p : Journaled σ) (page : VirtAddr) :
    source <$> PageSource.release page p = PageSource.release page p.source := by
  simp only [PageSource.release, map_bind, map_pure]
  exact bind_pure _

theorem releasePages_source (start : VirtAddr) (origin : Nat) (p : Journaled σ)
    (offsets : List Nat) :
    source <$> releasePages start origin p offsets = releasePages start origin p.source offsets := by
  induction offsets generalizing p with
  | nil => rfl
  | cons offset rest ih =>
      simp only [releasePages, map_bind, ih, ← release_source, bind_map_left]

theorem backPages_source (start : VirtAddr) (origin : Nat) (p : Journaled σ)
    (offsets : List Nat) :
    Prod.map id source <$> backPages start origin p offsets
      = backPages start origin p.source offsets := by
  induction offsets generalizing p with
  | nil => rfl
  | cons offset rest ih =>
      simp only [backPages, map_bind, ← back_source, bind_map_left]
      refine bind_congr fun page => bind_congr ?_
      rintro ⟨result, p'⟩
      cases result with
      | ok => exact ih p'
      | error e =>
          simp only [map_bind, map_pure, Prod.map_apply, id, ← releasePages_source, bind_map_left]

theorem backRange_source (start : VirtAddr) (origin bytes : Nat) (p : Journaled σ) :
    Prod.map id source <$> backRange start origin bytes p
      = backRange start origin bytes p.source :=
  backPages_source start origin p _

end Journaled

namespace Heap

open Journaled

theorem init_source (start : VirtAddr) (initialSize maxSize : Nat) (p : Journaled σ) :
    Prod.map id source <$> init start initialSize maxSize p
      = init start initialSize maxSize p.source := by
  unfold init
  split
  · simp only [map_bind, ← backRange_source, bind_map_left]
    refine bind_congr fun (result, p') => ?_
    cases result with
    | ok => simp only [map_bind, map_pure, Prod.map_apply, id]
    | error e => rfl
  · rfl

theorem expand_source (h : Heap) (p : Journaled σ) (size : Nat) :
    Prod.map id (Prod.map id source) <$> h.expand p size = h.expand p.source size := by
  unfold expand
  simp only [map_bind]
  refine bind_congr fun room => ?_
  split
  · rfl
  · simp only [map_bind, ← backRange_source, bind_map_left]
    refine bind_congr fun sum => bind_congr fun aligned => bind_congr fun (result, p') => ?_
    cases result with
    | ok => simp only [map_bind, map_pure, Prod.map_apply, id]
    | error e => rfl

theorem alloc_source (h : Heap) (p : Journaled σ) (size : Nat) :
    Prod.map id (Prod.map id source) <$> h.alloc p size = h.alloc p.source size := by
  unfold alloc
  split
  · rfl
  simp only [map_bind]
  refine bind_congr fun room => ?_
  split
  · rfl
  simp only [map_bind]
  refine bind_congr fun size => bind_congr fun found => ?_
  cases found with
  | some offset => simp only [map_bind, map_pure, Prod.map_apply, id]
  | none =>
      simp only [map_bind, ← expand_source, bind_map_left]
      refine bind_congr fun (grew, h', p') => ?_
      cases grew with
      | false => rfl
      | true =>
          simp only [map_bind, Prod.map_apply, id]
          refine bind_congr fun found => ?_
          cases found with
          | none => rfl
          | some offset => simp only [map_bind, map_pure, Prod.map_apply, id]

theorem calloc_source (h : Heap) (p : Journaled σ) (count size : Nat) :
    Prod.map id (Prod.map id source) <$> h.calloc p count size = h.calloc p.source count size := by
  unfold calloc
  split
  · simp only [map_bind, ← alloc_source, bind_map_left]
    refine bind_congr fun (q?, h', p') => ?_
    cases q? <;> rfl
  · rfl

theorem realloc_source (h : Heap) (p : Journaled σ) (q? : Option Pointer) (size : Nat) :
    Prod.map id (Prod.map id source) <$> h.realloc p q? size = h.realloc p.source q? size := by
  unfold realloc
  cases q? with
  | none => exact alloc_source h p size
  | some q =>
  dsimp only
  split
  · simp only [map_bind, map_pure, Prod.map_apply, id]
  simp only [map_bind]
  refine bind_congr fun found => ?_
  cases found with
  | none => rfl
  | some offset =>
  simp only [map_bind]
  refine bind_congr fun block => ?_
  split
  · rfl
  split
  · rfl
  simp only [map_bind, ← alloc_source, bind_map_left]
  refine bind_congr fun (r?, h', p') => ?_
  cases r? with
  | none => rfl
  | some r => simp only [map_bind, map_pure, Prod.map_apply, id]

end Heap

namespace HeapSession

/-- A session without the journal of its page source.  What is proved of sessions with a journal is
carried over by this map. -/
def forget (s : HeapSession (Journaled σ)) : HeapSession σ :=
  { heap := s.heap, pages := s.pages.source, ledger := s.ledger }

theorem step_forget (s : HeapSession (Journaled σ)) (call : HeapCall) :
    forget <$> s.step call = s.forget.step call := by
  cases call with
  | alloc size =>
      simp only [step, forget, map_bind, map_pure, ← Heap.alloc_source, bind_map_left]
      rfl
  | calloc count size =>
      simp only [step, forget, map_bind, map_pure, ← Heap.calloc_source, bind_map_left]
      rfl
  | realloc p? size =>
      cases p? with
      | none =>
          simp only [step, forget, map_bind, map_pure, ← Heap.realloc_source, bind_map_left]
          rfl
      | some p =>
          simp only [step, forget, map_bind, ← Heap.realloc_source, bind_map_left]
          refine bind_congr fun (q?, h', p') => ?_
          cases q? with
          | none => rfl
          | some q =>
              show forget <$> (if q = p then _ else _) = if q = p then _ else _
              split <;> rfl
  | free p => simp only [step, forget, map_bind, map_pure]
  | store p v n =>
      simp only [step, forget, map_bind]
      refine bind_congr fun h' => ?_
      cases h' <;> rfl

theorem run_forget (s : HeapSession (Journaled σ)) (calls : List HeapCall) :
    forget <$> s.run calls = s.forget.run calls := by
  induction calls generalizing s with
  | nil => rfl
  | cons call calls ih => simp only [run, map_bind, ih, ← step_forget, bind_map_left]

/-- **A session over a watched source** is the session over the source.  Watching changes no answer, no
byte and no fault. -/
theorem execute_forget (start : VirtAddr) (initialSize maxSize : Nat) (p : Journaled σ)
    (calls : List HeapCall) :
    Option.map forget <$> execute start initialSize maxSize p calls
      = execute start initialSize maxSize p.source calls := by
  simp only [execute, map_bind, ← Heap.init_source, bind_map_left]
  refine bind_congr fun (made, p') => ?_
  cases made with
  | error e => rfl
  | ok heap =>
      have hrun := run_forget { heap, pages := p', ledger := [] } calls
      have hsome := congrArg (some <$> ·) hrun
      simp only [Functor.map_map] at hsome
      simp only [Prod.map_apply, id, Functor.map_map, Option.map_some]
      exact hsome

end HeapSession

end

end TinyKernel
