import TinyKernel.Proofs.Heap.FirstFit

/-!
# Requests that the heap cannot grow for

A request stalls if no free block is large enough for it, the heap has room for more pages, and yet a
page is refused.  Whatever is asked of the heap then ends like an allocation: there is no answer, and
the heap is what it was.

* `Heap.HasToGrow`, `Heap.Stalls` — a request that the heap has to grow for, and cannot
* `Heap.Sound.alloc_in_vain_of_refused` — how it is answered
* `Heap.Follows` — operations that end like an allocation
-/

namespace TinyKernel.Heap

section

variable {σ : Type} [PageSource σ] {α : Type}

/-- **A request that the heap has to grow for**: no free block is large enough, and there is room for a
page at least.  Whether the pages can be had is not asked, so this depends on the heap alone and not on
its pages. -/
structure HasToGrow (h : Heap) (size : Nat) : Prop where
  range : h.Admits size
  misses : ∃ l, h.layout = .ok l ∧ Misses l (rounded size)
  room : pageSize ≤ h.maxSize - h.size

/-- **A request stalls**: the heap has to grow for it, and one of the pages that it would grow by is
refused.  It is said with the very step by which the heap would grow, so that requests that are clamped
by the maximal size count as they are. -/
structure Stalls (h : Heap) (pages : σ) (size : Nat) : Prop extends HasToGrow h size where
  refused : ∃ refusal pages', (backRange h.start h.size (h.growthStep (rounded size)) pages).Returns
    (.error refusal, pages')

/-- There is no answer, and the heap is what it was.  `P` holds of the pages. -/
def InVain (h : Heap) (P : σ → Prop) : Option α × Heap × σ → Prop :=
  fun (answer?, h', pages') => answer? = none ∧ h' = h ∧ P pages'

/-- **An operation follows an allocation**: where that is in vain, so is the operation.  All three
kinds of request follow one, so that refusals are looked at once. -/
def Follows (op : Heap → σ → Run (Option α × Heap × σ)) (h : Heap) (size : Nat) : Prop :=
  ∀ (admits : Fault → Prop) (P : σ → Prop) (pages : σ),
    (h.alloc pages size).Meets admits (h.InVain P) → (op h pages).Meets admits (h.InVain P)

/-- An operation follows an allocation if that is how it begins, and nothing comes of nothing. -/
theorem follows_of_bind {op : Heap → σ → Run (Option α × Heap × σ)} {h : Heap} {size : Nat}
    {f : Option Pointer × Heap × σ → Run (Option α × Heap × σ)}
    (hop : ∀ pages, op h pages = h.alloc pages size >>= f)
    (hnone : ∀ h' pages', f (none, h', pages') = pure (none, h', pages')) : Follows op h size := by
  intro admits P pages halloc
  rw [hop]
  refine halloc.bind ?_
  rintro ⟨answer?, h', pages'⟩ ⟨rfl, rfl, hP⟩
  rw [hnone]
  exact Run.meets_pure ⟨rfl, rfl, hP⟩

theorem calloc_follows (h : Heap) {count size : Nat} (hsize : count * size < 2 ^ 64) :
    Follows (fun h (pages : σ) => h.calloc pages count size) h (count * size) := by
  refine follows_of_bind (fun pages => if_pos hsize) ?_
  exact fun h' pages' => rfl

end

namespace Sound

variable {σ : Type} [PageSource σ] {admits admits' : Fault → Prop} {I : Finset VirtAddr → σ → Prop}
  {P : σ → Prop} {pages : σ} {h : Heap} {l : List Block} {size : Nat}

/-- **A request is in vain if the heap cannot grow.**  What holds of the pages is what the attempt to
grow leaves. -/
theorem alloc_in_vain_of_refused (s : Sound h l) (keeps : PageSource.Keeps σ h.window admits I)
    (hI : I h.backed pages) (needs : h.HasToGrow size)
    (hgrow : (backRange h.start h.size (h.growthStep (rounded size)) pages).Meets admits'
      fun (result, pages') => (∃ refusal, result = .error refusal) ∧ P pages') :
    (h.alloc pages size).Meets admits (h.InVain P) := by
  refine (s.alloc_cases keeps hI size).imp ?_
  rintro ⟨answer?, h', pages'⟩ ⟨-, l', allocates⟩
  obtain ⟨l₁, hlayout, misses⟩ := needs.misses
  obtain rfl : l₁ = l := Except.ok.inj (hlayout.symm.trans s.represents.layout_ok)
  cases allocates with
  | outOfRange range => exact absurd needs.range range
  | fits range takes => exact absurd (misses _ takes.mem takes.free) (Nat.not_lt.mpr takes.fits)
  | ungrown range misses ungrown =>
      cases ungrown with
      | full room => exact absurd needs.room (Nat.not_le.mpr room)
      | refused room backed => exact ⟨rfl, rfl, (hgrow.of_returns backed).2⟩
  | short range misses grows still =>
      obtain ⟨⟨refusal, hrefused⟩, -⟩ := hgrow.of_returns grows.backed
      cases hrefused
  | grown range misses grows takes =>
      obtain ⟨⟨refusal, hrefused⟩, -⟩ := hgrow.of_returns grows.backed
      cases hrefused

/-- **A request as large as the whole heap** has to wait for growth: every block is smaller, since its
header is part of the heap as well. -/
theorem hasToGrow_of_size_le (s : Sound h l) (range : h.Admits size) (hsize : h.size ≤ size)
    (room : pageSize ≤ h.maxSize - h.size) : h.HasToGrow size := by
  refine ⟨range, ⟨l, s.represents.layout_ok, ?_⟩, room⟩
  intro b hb _
  have hstop := (s.represents.tiles.mem hb).2
  have hrounded := le_rounded size
  simp only [Block.stop, Block.first, headerSize] at hstop
  omega

/-- **What resizing does first** does not depend on pages: it has its answer, and nothing changes, or
else it follows an allocation. -/
theorem realloc_follows (s : Sound h l) (p? : Option Pointer) (hsize : size ≠ 0) :
    (∃ q?, ∀ pages : σ, h.realloc pages p? size = pure (q?, h, pages))
      ∨ Follows (fun h (pages : σ) => h.realloc pages p? size) h size := by
  cases p? with
  | none => exact Or.inr fun _ _ _ halloc => halloc
  | some p =>
  rcases s.blockOf_cases p with ⟨b, hb, -, hblock⟩ | ⟨-, hblock⟩
  case inr =>
    refine Or.inl ⟨none, fun pages => ?_⟩
    simp only [realloc, if_neg hsize, hblock, Run.lift_ok, pure_bind]
  case inl =>
  obtain ⟨header, hread⟩ : ∃ header, h.readHeader b.start = .ok header := by
    obtain ⟨next, prev, hread⟩ := s.represents.exists_header hb
    exact ⟨_, hread⟩
  have hrest : ∀ pages : σ, h.realloc pages (some p) size = _ := fun pages => by
    simp only [realloc, if_neg hsize, hblock, hread, Run.lift_ok, pure_bind]
    rfl
  by_cases hfree : header.isFree ≠ 0
  case pos => exact Or.inl ⟨none, fun pages => (hrest pages).trans (if_pos hfree)⟩
  by_cases hfits : size ≤ header.size.toNat
  case pos =>
    exact Or.inl ⟨some p, fun pages => (hrest pages).trans ((if_neg hfree).trans (if_pos hfits))⟩
  refine Or.inr (follows_of_bind (fun pages => (hrest pages).trans
    ((if_neg hfree).trans (if_neg hfits))) ?_)
  exact fun h' pages' => rfl

end Sound

end TinyKernel.Heap
