import TinyKernel.Proofs.Heap.Recognition

/-!
# The order of frees

Clients give their blocks back in any order.  What is left is the same each time, down to the links
in the headers, although each block merges with other neighbours on the way.

## What is load-bearing

Merging can wait (`coalesced_freeing_coalesced`): a heap whose blocks are freed one after the other
ends with the layout in which all of them are freed at once, and then merged.  That layout depends on
which blocks are freed and not on their order.  And a layout determines every header
(`Heap.Represents.walk_spelled`).

* `Heap.freeAll` — blocks are freed one after the other
* `spelled` — the headers that spell a layout
* `Heap.Sound.freeAll_ok` — what is left
* `HeapSession.execute_frees_in_any_order` — the order does not matter
-/

namespace TinyKernel

/-! ## The headers of a layout -/

/-- **The headers that spell a layout** whose free list is reached from `prev`.  A free block is linked
to the free blocks next to it in the layout; so there is nothing in a header that the layout leaves
open. -/
def spelled : UInt32 → List Block → List (UInt32 × BlockHeader)
  | _, [] => []
  | prev, b :: l =>
    if b.free then
      (b.start, { size := b.size, isFree := 1, next := firstLink noBlock (freeBlocks l), prev })
        :: spelled b.start l
    else
      (b.start, .used b.size) :: spelled prev l

namespace Heap

variable {h h' : Heap} {l : List Block} {ps : List Pointer} {prev : UInt32}

theorem map_headerAt (linked : Linked h prev noBlock (freeBlocks l))
    (used : ∀ b ∈ l, b.free = false → h.readHeader b.start = .ok (.used b.size)) :
    (l.map fun b => (b.start, h.headerAt b.start)) = spelled prev l := by
  induction l generalizing prev with
  | nil => rfl
  | cons b l ih =>
      have hrest := fun c hc => used c (List.mem_cons_of_mem _ hc)
      rw [List.map_cons, spelled]
      cases hfree : b.free with
      | true =>
          rw [freeBlocks_cons_of_free hfree, linked_cons] at linked
          obtain ⟨hread, hlinked⟩ := linked
          rw [ih hlinked hrest, headerAt_of_readHeader hread, if_pos rfl]
      | false =>
          rw [freeBlocks_cons_of_used hfree] at linked
          have hread := used b List.mem_cons_self hfree
          rw [ih linked hrest, headerAt_of_readHeader hread, if_neg Bool.false_ne_true]

/-- **A layout determines every header.**  Two heaps that represent one layout are the same but for
payloads. -/
theorem Represents.walk_spelled (r : Represents h l) : h.walk = .ok (spelled noBlock l) := by
  rw [r.walk_ok, map_headerAt r.freeList.linked r.used]

/-- A layout without free neighbours in which all blocks are free has one block at most, and one
exactly if there are any bytes. -/
theorem eq_singleton_of_free (apart : l.IsChain NotBothFree) (free : ∀ b ∈ l, b.free = true) {n : Nat}
    (t : Tiles 0 l n) (hpos : 0 < n) :
    ∃ size : UInt32, headerSize + size.toNat = n ∧ l = [⟨0, size, true⟩] := by
  match l with
  | [] => exact absurd t (Nat.ne_of_lt hpos)
  | [b] =>
      obtain ⟨hstart, hstop⟩ := t
      obtain ⟨start, size, _⟩ := b
      obtain rfl : start = 0 := UInt32.toNat_inj.mp hstart
      obtain rfl := free _ List.mem_cons_self
      refine ⟨size, ?_, rfl⟩
      simpa [Block.stop, Block.first] using hstop
  | a :: b :: l =>
      exact absurd ⟨free a (by simp), free b (by simp)⟩ (List.isChain_cons_cons.mp apart).1

/-! ## Freeing one block after the other -/

/-- **Frees blocks**, one after the other, with the answers in their order.  A pointer that is not live
is answered by `false`, and the rest goes on. -/
def freeAll (h : Heap) : List Pointer → Run (List Bool × Heap)
  | [] => pure ([], h)
  | p :: ps => do
    let (freed, h) ← h.free p
    let (answers, h) ← h.freeAll ps
    pure (freed :: answers, h)

/-- The block that a pointer is to, if it is to one, by the offset of its header.  It undoes
`payload`. -/
def blockStart (p : Pointer) : UInt32 := UInt32.ofNat (p.offset.toNat - headerSize)

@[simp]
theorem blockStart_payload (start : UInt32) : blockStart (payload start) = start := ofNat_payload start

namespace Sound

variable {admits : Fault → Prop}

/-- **Blocks that are freed one after the other** are free in the end, and merged.  The induction is on
the pointers; what carries it is that merging now or later gives the same layout
(`coalesced_freeing_coalesced`). -/
theorem freeAll_ok (s : Sound h l) (distinct : ps.Nodup) (live : ∀ p ∈ ps, h.IsLive p) :
    (h.freeAll ps).Meets admits fun (answers, h') =>
      answers = List.replicate ps.length true ∧ h'.size = h.size
        ∧ Sound h' (coalesced (freeing (ps.map blockStart) l)) := by
  induction ps generalizing h l with
  | nil =>
      refine Run.meets_pure ⟨rfl, rfl, ?_⟩
      rw [List.map_nil, freeing_nil, coalesced_of_isChain s.apart]
      exact s
  | cons p ps ih =>
      obtain ⟨hp, hps⟩ := List.nodup_cons.mp distinct
      obtain ⟨b, hb, rfl⟩ := s.isLive_iff.mp (live p List.mem_cons_self)
      refine (s.free_ok hb).bind ?_
      rintro ⟨freed, h₁⟩ ⟨rfl, e, hsize₁⟩
      -- the other pointers are to other blocks, which are still allocated
      have live₁ : ∀ q ∈ ps, h₁.IsLive q := by
        intro q hq
        obtain ⟨c, hc, rfl⟩ := s.isLive_iff.mp (live q (List.mem_cons_of_mem _ hq))
        refine e.sound.isLive_iff.mpr ⟨c, ?_, rfl⟩
        rw [allocated_coalesced, mem_allocated_freeing, List.mem_singleton]
        refine ⟨hc, fun heq => hp ?_⟩
        rwa [← heq]
      refine (ih e.sound hps live₁).bind ?_
      rintro ⟨answers, h₂⟩ ⟨rfl, hsize₂, s₂⟩
      refine Run.meets_pure ⟨rfl, hsize₂.trans hsize₁, ?_⟩
      rw [coalesced_freeing_coalesced, ← freeing_append] at s₂
      rwa [List.map_cons, blockStart_payload]

/-- When all live blocks are freed, one free block is left, which covers the whole heap. -/
theorem freeing_all (s : Sound h l) (all : ∀ p, h.IsLive p → p ∈ ps) :
    ∃ size : UInt32, headerSize + size.toNat = h.size
      ∧ coalesced (freeing (ps.map blockStart) l) = [⟨0, size, true⟩] := by
  have htiles : Tiles 0 (freeing (ps.map blockStart) l) h.size :=
    tiles_freeing.mpr s.represents.tiles
  have hpos : 0 < h.size := Nat.lt_of_lt_of_le (by decide) s.range.pageSize_le
  refine eq_singleton_of_free (isChain_coalesced _) (fun b hb => ?_)
    (htiles.coalesced s.size_le_noBlock) hpos
  -- a block that is still allocated would have been live, and so it was freed
  by_contra hused
  have hmem := mem_allocated.mpr ⟨hb, Bool.eq_false_iff.mpr hused⟩
  rw [allocated_coalesced, mem_allocated_freeing] at hmem
  obtain ⟨hallocated, hstart⟩ := hmem
  have hp := all _ (s.isLive_iff.mpr ⟨b, hallocated, rfl⟩)
  exact hstart (List.mem_map.mpr ⟨_, hp, blockStart_payload b.start⟩)

example : coalesced (freeing [0, 24, 48] [⟨0, 8, false⟩, ⟨24, 8, false⟩, ⟨48, 8, false⟩])
    = [⟨0, 56, true⟩] := by decide

end Sound

end Heap

/-- **The order of frees does not matter.**  In every heap that a session leads to, pointers that are
live and distinct are all accepted, in whatever order they are given back.  The heap keeps its size,
and its free list and all of its headers are the same in the end.  If no other pointers are live, then
all bytes but a header are one free block in the end. -/
theorem HeapSession.execute_frees_in_any_order {σ : Type} [PageSource σ] (start : VirtAddr)
    (initialSize maxSize : Nat) (pages : σ) (calls : List HeapCall) :
    (HeapSession.execute start initialSize maxSize pages calls).Meets (PageSource.Raises σ)
      fun s? => ∀ s ∈ s?, ∀ ps : List Pointer, ps.Nodup → (∀ p ∈ ps, s.heap.IsLive p) →
        ∃ head blocks, (∀ qs, qs.Perm ps → (s.heap.freeAll qs).Meets (fun _ => False)
            fun (answers, h') => answers = List.replicate ps.length true ∧ h'.size = s.heap.size
              ∧ h'.freeHead = head ∧ h'.walk = .ok blocks)
          ∧ ((∀ p, s.heap.IsLive p → p ∈ ps) → head = 0 ∧ ∃ size : UInt32,
              headerSize + size.toNat = s.heap.size ∧ blocks = [(0, .unlinked size)]) := by
  refine (execute_meets (PageSource.keeps_true σ _) trivial calls).imp fun s? hs s hmem => ?_
  obtain ⟨l, sound, -⟩ := (hs s hmem).layout
  intro ps distinct live
  obtain ⟨left, hleft⟩ : ∃ left, left = coalesced (freeing (ps.map Heap.blockStart) l) := ⟨_, rfl⟩
  refine ⟨firstLink noBlock (freeBlocks left), spelled noBlock left, fun qs perm => ?_, fun all => ?_⟩
  · have hstarts : freeing (qs.map Heap.blockStart) l = freeing (ps.map Heap.blockStart) l :=
      freeing_congr (fun start => (perm.map Heap.blockStart).mem_iff) l
    refine (sound.freeAll_ok (perm.nodup_iff.mpr distinct)
      fun q hq => live q (perm.mem_iff.mp hq)).imp ?_
    rintro ⟨answers, h'⟩ ⟨rfl, hsize, sound'⟩
    rw [hstarts, ← hleft] at sound'
    rw [perm.length_eq]
    exact ⟨rfl, hsize, sound'.represents.freeList.head, sound'.represents.walk_spelled⟩
  · obtain ⟨size, hsize, hsingle⟩ := sound.freeing_all all
    rw [hleft, hsingle]
    exact ⟨rfl, size, hsize, rfl⟩

end TinyKernel
