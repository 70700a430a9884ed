import TinyKernel.Proofs.Heap.Session

/-!
# Nothing goes wrong in a heap

Sizes are counted in 64 bits, offsets and addresses in 32, and each sum and difference of them has to
fit; every header that is read or written has to lie in the heap; and the loops along the free list end
only if the list does.  None of this is checked by the code as it runs.  It follows from what is checked
once, when the heap is set up, and from the invariant.

## What is load-bearing

The loops take no more steps than there are free blocks, because each step goes on to the next one or
makes them fewer (`Heap.EndsWithin`).  That a loop ends is said without the bound that it is run with:
every larger bound will do.

* `Heap.EndsWithin` — the loops along the free list end
* `Heap.Safe` — what can be asked of a heap, and what comes of it
* `HeapSession.execute_safe` — nothing goes wrong in any session
-/

namespace TinyKernel

namespace Heap

/-- **Every loop along the free list ends** after a number of steps: the search for a block that fits,
the search for the place of a block, and merging.  More fuel makes no difference then, and a loop
without fuel would end as well. -/
structure EndsWithin (h : Heap) (steps : Nat) : Prop where
  findFit : ∀ size fuel, steps ≤ fuel → ∃ found?, h.findFitFrom size fuel h.freeHead = .ok found?
  place : ∀ offset fuel, steps ≤ fuel →
    ∃ links, h.placeFrom offset fuel noBlock h.freeHead = .ok links
  coalesce : ∀ fuel, steps ≤ fuel → ∃ h', coalesceFrom fuel h h.freeHead = .ok h'

/-- **Whatever is asked of a heap**, there is no fault but one of the page source.  Nothing is assumed
about what is asked: sizes may be huge, and pointers may come from anywhere. -/
structure Safe (h : Heap) : Prop where
  /-- The walk ends, and the headers that it visits lie in the heap. -/
  walk : ∃ blocks, h.walk = .ok blocks ∧ ∀ b ∈ blocks, b.1.toNat + headerSize ≤ h.size
  stats : ∃ stats, h.stats = .ok stats ∧ h.EndsWithin stats.freeBlocks
  /-- Every place in the heap has an address of 32 bits. -/
  virtAddrOf : ∀ p : Pointer, 0 ≤ p.offset → p.offset < h.size →
    ∃ v, h.virtAddrOf p = some v ∧ v.val.toNat = h.start.val.toNat + p.offset.toNat
  store : ∀ p v n, ∃ h'?, h.store p v n = .ok h'?
  free : ∀ p, (h.free p).Meets (fun _ => False) fun _ => True
  alloc : ∀ {τ : Type} [PageSource τ] (pages : τ) (size : Nat),
    (h.alloc pages size).Meets (PageSource.Raises τ) fun _ => True
  calloc : ∀ {τ : Type} [PageSource τ] (pages : τ) (count size : Nat),
    (h.calloc pages count size).Meets (PageSource.Raises τ) fun _ => True
  realloc : ∀ {τ : Type} [PageSource τ] (pages : τ) (p? : Option Pointer) (size : Nat),
    (h.realloc pages p? size).Meets (PageSource.Raises τ) fun _ => True

variable {h : Heap} {l : List Block}

/-- A row of blocks is cut in two at any offset, whether or not a block begins there. -/
theorem exists_cut (sorted : l.Pairwise Block.Before) (offset : UInt32) :
    ∃ front rear, l = front ++ rear ∧ (∀ b ∈ front, b.start < offset)
      ∧ ∀ b ∈ rear, offset ≤ b.start := by
  induction l with
  | nil => exact ⟨[], [], rfl, by simp, by simp⟩
  | cons b l ih =>
      obtain ⟨hbefore, hsorted⟩ := List.pairwise_cons.mp sorted
      by_cases hb : b.start < offset
      case pos =>
        obtain ⟨front, rear, rfl, hfront, hrear⟩ := ih hsorted
        exact ⟨b :: front, rear, rfl, List.forall_mem_cons.mpr ⟨hb, hfront⟩, hrear⟩
      case neg =>
        have hle := UInt32.not_lt.mp hb
        refine ⟨[], b :: l, rfl, by simp, List.forall_mem_cons.mpr ⟨hle, fun c hc => ?_⟩⟩
        have hstop := b.start_add_header_le_stop
        have hbc : b.stop ≤ c.start.toNat := hbefore c hc
        rw [UInt32.le_iff_toNat_le] at hle ⊢
        omega

namespace Represents

/-- **The loops end** after as many steps as there are free blocks. -/
theorem endsWithin (r : Represents h l) : h.EndsWithin (freeBlocks l).length where
  findFit size fuel hfuel :=
    ⟨_, r.freeList.head ▸ findFitFrom_ok r.bound size hfuel r.freeList.linked⟩
  place offset fuel hfuel := by
    have hlinked := r.freeList.linked
    obtain ⟨front, rear, hcut, hfront, hrear⟩ :=
      exists_cut (r.tiles.pairwise.sublist (freeBlocks_sublist l)) offset
    rw [r.freeList.head]
    rw [hcut] at hfuel hlinked ⊢
    rw [List.length_append] at hfuel
    exact ⟨_, placeFrom_ok r.bound (by omega) hlinked hfront hrear⟩
  coalesce fuel hfuel := by
    obtain ⟨h', hcoalesce, -⟩ := r.coalesceFrom_ok hfuel
    exact ⟨h', hcoalesce⟩

end Represents

namespace Sound

/-- Every place in the heap has an address, because the whole range of the heap has. -/
theorem virtAddrOf_eq_some (s : Sound h l) {p : Pointer} (hpos : 0 ≤ p.offset)
    (hlt : p.offset < h.size) :
    ∃ v, h.virtAddrOf p = some v ∧ v.val.toNat = h.start.val.toNat + p.offset.toNat := by
  have hle := s.range.size_le
  have hfits := s.range.fits
  have hsum : h.start.val.toNat + p.offset.toNat < 0x1_0000_0000 := by omega
  refine ⟨⟨UInt32.ofNat (h.start.val.toNat + p.offset.toNat)⟩, ?_, ?_⟩
  · rw [Heap.virtAddrOf, if_neg (by omega), VirtAddr.add?, if_pos hsum]
  · exact (UInt32.toNat_ofNat' ..).trans (Nat.mod_eq_of_lt hsum)

/-- **A sound heap is safe.**  The clauses are the contracts of the operations, with all but the faults
forgotten. -/
theorem safe (s : Sound h l) : h.Safe := by
  constructor
  case walk =>
    refine ⟨_, s.represents.walk_ok, fun e he => ?_⟩
    obtain ⟨b, hb, rfl⟩ := List.mem_map.mp he
    exact Nat.le_trans b.start_add_header_le_stop (s.represents.stop_le hb)
  case stats => exact ⟨_, s.represents.stats_ok, s.represents.endsWithin⟩
  case virtAddrOf =>
    intro p hpos hlt
    exact s.virtAddrOf_eq_some hpos hlt
  case store =>
    intro p v n
    obtain ⟨hstore, -⟩ | ⟨b, -, -, -, hstore, -⟩ := s.store_ok p v n
    · exact ⟨none, hstore⟩
    · exact ⟨_, hstore⟩
  case free =>
    intro p
    exact (s.free_meets p).imp fun _ _ => trivial
  case alloc =>
    intro τ _ pages size
    exact (s.alloc_meets (PageSource.keeps_true τ _) trivial size).imp fun _ _ => trivial
  case calloc =>
    intro τ _ pages count size
    exact (s.calloc_meets (PageSource.keeps_true τ _) trivial count size).imp fun _ _ => trivial
  case realloc =>
    intro τ _ pages p? size
    exact (s.realloc_evolves (PageSource.keeps_true τ _) trivial p? size).imp fun _ _ => trivial

end Sound

end Heap

/-- **Nothing goes wrong.**  A heap is set up with any start and sizes, and any calls follow: no
arithmetic leaves its word, no header outside the heap is accessed and no loop goes on for ever, so
that a run ends in a fault only if the page source raises one.  In every heap that is reached, the
same is true of all that can be asked next, over whatever page source. -/
theorem HeapSession.execute_safe {σ : Type} [PageSource σ] (start : VirtAddr)
    (initialSize maxSize : Nat) (pages : σ) (calls : List HeapCall) :
    (HeapSession.execute start initialSize maxSize pages calls).Meets (PageSource.Raises σ)
      fun s? => ∀ s ∈ s?, s.heap.Safe := by
  refine (execute_meets (PageSource.keeps_true σ _) trivial calls).imp fun s? hs s hmem => ?_
  obtain ⟨l, sound, -⟩ := (hs s hmem).layout
  exact sound.safe

end TinyKernel
