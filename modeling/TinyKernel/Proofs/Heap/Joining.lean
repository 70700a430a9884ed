import TinyKernel.Proofs.Heap.FreeList

/-!
# Joining the blocks of a row

Merging walks along the free list, and what it does to the list is seen without the blocks between
the free ones: blocks of the row that touch are joined, and the walk stays on a block for as long as
that has something to take in.

## What is load-bearing

Each step of the walk either makes the row shorter by a block or leaves a block behind for good, so
the induction is on what is left of the row, for whatever block the walk stands on
(`Heap.Chained.coalesceFrom_ok`).  The block itself grows along the way.

The link back from the block behind one that is taken in is the only header that changes beside that
of the grown block, and it belongs to the rest of the row (`Heap.Chained.setPrev_ok`).

* `joined` — a row of blocks in which those that touch are joined
* `Heap.Chained.coalesceFrom_ok` — merging from a block on joins the row
* `Heap.Chained.coalesceFrom_of_apart` — a row without touching blocks stays as it is
-/

namespace TinyKernel

/-! ## Rows in which no blocks touch -/

/-- A block and the row behind it, where it first takes in every block that touches it.  The recursion
is that of `coalesceFrom`, which stays at a block as long as it grows. -/
def joinedFrom (b : Block) : List Block → List Block
  | [] => [b]
  | m :: l => if b.stop = m.start.toNat then joinedFrom (b.merge m) l else b :: joinedFrom m l

/-- **A row of blocks in which those that touch are joined.**  It speaks of the free list alone, and
knows nothing of the allocated blocks in between. -/
def joined : List Block → List Block
  | [] => []
  | b :: l => joinedFrom b l

@[simp]
theorem joinedFrom_nil (b : Block) : joinedFrom b [] = [b] := rfl

theorem joinedFrom_of_touch {b m : Block} (touch : b.stop = m.start.toNat) (l : List Block) :
    joinedFrom b (m :: l) = joinedFrom (b.merge m) l := if_pos touch

theorem joinedFrom_of_apart {b : Block} {l : List Block}
    (apart : ∀ m ∈ l.head?, b.stop ≠ m.start.toNat) : joinedFrom b l = b :: joined l := by
  cases l with
  | nil => rfl
  | cons m l => exact if_neg (apart m rfl)

/-- Joining leaves the place where a row begins, and so the head of the free list. -/
theorem firstLink_joinedFrom (stop : UInt32) (b : Block) (l : List Block) :
    firstLink stop (joinedFrom b l) = b.start := by
  induction l generalizing b with
  | nil => rfl
  | cons m l ih =>
      by_cases touch : b.stop = m.start.toNat
      · rw [joinedFrom_of_touch touch, ih, Block.start_merge]
      · rw [joinedFrom, if_neg touch, firstLink_cons]

theorem firstLink_joined (stop : UInt32) (l : List Block) :
    firstLink stop (joined l) = firstLink stop l := by
  cases l with
  | nil => rfl
  | cons b l => exact firstLink_joinedFrom stop b l

/-- The blocks of a row that is joined begin where blocks of the row did.  Merging therefore writes no
header that was not one before. -/
theorem joinedFrom_start_subset (b : Block) (l : List Block) :
    (joinedFrom b l).map Block.start ⊆ (b :: l).map Block.start := by
  induction l generalizing b with
  | nil => exact List.Subset.refl _
  | cons m l ih =>
      by_cases touch : b.stop = m.start.toNat
      · rw [joinedFrom_of_touch touch]
        refine List.Subset.trans (ih (b.merge m)) ?_
        simp
      · rw [joinedFrom, if_neg touch]
        exact List.cons_subset_cons _ (ih m)

theorem joined_start_subset (l : List Block) :
    (joined l).map Block.start ⊆ l.map Block.start := by
  cases l with
  | nil => exact List.Subset.refl _
  | cons b l => exact joinedFrom_start_subset b l

/-- A block does not touch the one behind it.  There is an allocated block in between. -/
def Block.Apart (a b : Block) : Prop := a.stop ≠ b.start.toNat

theorem isChain_joinedFrom (b : Block) (l : List Block) : (joinedFrom b l).IsChain Block.Apart := by
  induction l generalizing b with
  | nil => exact List.isChain_singleton b
  | cons m l ih =>
      by_cases touch : b.stop = m.start.toNat
      case pos =>
        rw [joinedFrom_of_touch touch]
        exact ih (b.merge m)
      case neg =>
        rw [joinedFrom, if_neg touch]
        refine List.isChain_cons.mpr ⟨fun c hc => ?_, ih m⟩
        -- the row behind `b` still begins where `m` does
        obtain ⟨rest, hrest⟩ := List.head?_eq_some_iff.mp hc
        have hstart := firstLink_joinedFrom noBlock m l
        rw [hrest, firstLink_cons] at hstart
        exact fun h => touch (hstart ▸ h)

/-- **Of a row that is joined no two blocks touch.**  One pass over the list is therefore enough. -/
theorem isChain_joined (l : List Block) : (joined l).IsChain Block.Apart := by
  cases l with
  | nil => exact List.isChain_nil
  | cons b l => exact isChain_joinedFrom b l

/-- Behind a free block and an allocated one, no free block touches the first.  The allocated block has
a header, so that there is a gap even if it has no payload. -/
theorem apart_freeBlocks_of_used {i n : Nat} {b m : Block} {l : List Block}
    (t : Tiles i (b :: m :: l) n) : ∀ c ∈ (freeBlocks l).head?, b.stop ≠ c.start.toNat := by
  intro c hc touch
  obtain ⟨-, hm, hl⟩ := t
  have hcl := (hl.mem (mem_freeBlocks.mp (List.mem_of_mem_head? hc)).1).1
  have hstop := m.start_add_header_le_stop
  simp only [headerSize] at hstop
  omega

/-- **The free blocks of a merged layout** are the free blocks of the layout, joined: free blocks of a
layout touch exactly if they are neighbours.  This ties the walk along the list to the layout; the
induction is on a bound for the number of blocks, since a merge makes a row shorter from the front. -/
theorem freeBlocks_coalesced {n : Nat} (bound : n ≤ noBlock.toNat) (k : Nat) :
    ∀ {i : Nat} {l : List Block}, l.length ≤ k → Tiles i l n →
      freeBlocks (coalesced l) = joined (freeBlocks l) := by
  induction k with
  | zero =>
      intro i l hk _
      obtain rfl := List.eq_nil_of_length_eq_zero (Nat.le_zero.mp hk)
      rfl
  | succ k ih =>
      intro i l hk t
      match l with
      | [] => rfl
      | b :: l =>
          have hk : l.length ≤ k := by simpa using hk
          cases hb : b.free with
          | false =>
              rw [coalesced_cons_of_used hb, freeBlocks_cons_of_used hb, freeBlocks_cons_of_used hb]
              exact ih hk t.2
          | true =>
              rw [freeBlocks_cons_of_free hb]
              match l with
              | [] =>
                  rw [coalesced_cons, coalesced_nil, absorbInto_nil, freeBlocks_cons_of_free hb]
                  rfl
              | m :: l =>
                  obtain ⟨hbi, hmb, hl⟩ := id t
                  cases hm : m.free with
                  | true =>
                      have hmerged : Tiles b.start.toNat (b.merge m :: l) n := by
                        refine ⟨rfl, ?_⟩
                        rw [Block.stop_merge hmb.symm (Nat.le_trans hl.le bound)]
                        exact hl
                      rw [← coalesced_merge hb hm, ih (by simpa using hk) hmerged,
                        freeBlocks_cons_of_free hm, freeBlocks_cons_of_free (b := b.merge m) hb]
                      exact (joinedFrom_of_touch hmb.symm _).symm
                  | false =>
                      have hapart := apart_freeBlocks_of_used t
                      have hnot : NotBothFree b m := fun h => by simp [hm] at h
                      rw [coalesced_cons_of_notBothFree hnot, coalesced_cons_of_used hm,
                        freeBlocks_cons_of_free hb, freeBlocks_cons_of_used hm,
                        freeBlocks_cons_of_used hm, ih (by simp at hk; omega) hl]
                      exact (joinedFrom_of_apart hapart).symm

/-- Merging leaves the place where the free list begins, as the first free block only grows. -/
theorem firstLink_freeBlocks_coalesced {i n : Nat} {l : List Block} {stop : UInt32}
    (bound : n ≤ noBlock.toNat) (t : Tiles i l n) :
    firstLink stop (freeBlocks (coalesced l)) = firstLink stop (freeBlocks l) := by
  rw [freeBlocks_coalesced bound l.length (Nat.le_refl _) t, firstLink_joined]

/-! ## The walk -/

namespace Heap

variable {h h' : Heap} {prev : UInt32} {b m : Block} {l : List Block} {flags : UInt32 → UInt32}

/-- The end of a block, as the code computes it, is its end: neither addition overflows in a heap below
4 GiB. -/
theorem add32_stop {a : Block} (bound : a.stop ≤ noBlock.toNat) :
    Checked.add32 a.start (UInt32.ofNat headerSize) = .ok (a.start + UInt32.ofNat headerSize)
      ∧ Checked.add32 (a.start + UInt32.ofNat headerSize) a.size
        = .ok (UInt32.ofNat a.stop) := by
  simp only [Block.stop, Block.first, headerSize, noBlock, UInt32.reduceToNat] at bound
  constructor
  · refine Checked.add32_of_lt ?_
    simp only [headerSize, UInt32.reduceOfNat, UInt32.reduceToNat]
    omega
  · rw [Checked.add32_of_lt]
    · congr 1
      apply UInt32.toNat_inj.mp
      simp only [Block.stop, Block.first, headerSize, UInt32.reduceOfNat, UInt32.toNat_add,
        UInt32.reduceToNat, UInt32.toNat_ofNat']
      omega
    · simp only [headerSize, UInt32.reduceOfNat, UInt32.toNat_add, UInt32.reduceToNat]
      omega

/-- The size of a block that takes in another, as the code computes it, does not leave its word. -/
theorem add32_merge {a b : Block} (touch : a.stop = b.start.toNat) (bound : b.stop ≤ noBlock.toNat) :
    Checked.add32 (UInt32.ofNat headerSize) b.size = .ok (UInt32.ofNat headerSize + b.size)
      ∧ Checked.add32 a.size (UInt32.ofNat headerSize + b.size) = .ok (a.merge b).size := by
  simp only [Block.stop, Block.first, headerSize, noBlock, UInt32.reduceToNat] at touch bound
  constructor <;> refine Checked.add32_of_lt ?_ <;>
    simp only [headerSize, UInt32.reduceOfNat, UInt32.toNat_add, UInt32.reduceToNat] <;> omega

namespace Chained

/-- **A block takes in its successor** if the two touch, and the link back to it moves along.  The
header of the block that was taken in is payload from then on. -/
theorem absorbNext_of_touch (bound : h.size ≤ noBlock.toNat)
    (ht : Chained h flags prev noBlock (b :: m :: l))
    (sorted : (b :: m :: l).Pairwise Block.Before) (touch : b.stop = m.start.toNat)
    (within : m.stop ≤ h.size) :
    ∃ h', h.absorbNext b.start ⟨b.size, flags b.start, m.start, prev⟩ = .ok (true, h')
      ∧ h'.freeHead = h.freeHead ∧ Chained h' flags prev noBlock (b.merge m :: l)
      ∧ Rewrites ((b :: l).map Block.start) h h' := by
  obtain ⟨hbml, hml⟩ := List.pairwise_cons.mp sorted
  obtain ⟨-, hsl⟩ := List.pairwise_cons.mp hml
  have hbl : ∀ c ∈ l, HeadersApart b.start c.start := fun c hc =>
    (hbml c (List.mem_cons_of_mem _ hc)).headersApart
  obtain ⟨hb, hm, hl⟩ := ht
  have hstop : m.stop ≤ noBlock.toNat := Nat.le_trans within bound
  have hlast := m.start_add_header_le_stop
  obtain ⟨hend, hbehind⟩ := add32_stop (a := b) (by omega)
  rw [touch, UInt32.ofNat_toNat] at hbehind
  obtain ⟨hgained, hsum⟩ := add32_merge touch hstop
  have hne : m.start ≠ noBlock := ne_noBlock_of_le bound (le_of_readHeader hm)
  -- the grown block, then the block behind the one that it took in
  obtain ⟨h₁, hwrite, hb₁, hhead₁, hw₁⟩ := writeHeader_ok
    ⟨(b.merge m).size, flags b.start, firstLink noBlock l, prev⟩ (le_of_readHeader hb)
  have hl₁ := hl.frame hw₁ fun o ho c hc => by
    obtain rfl := List.mem_singleton.mp ho
    exact hbl c hc
  obtain ⟨h₂, hprev, hhead₂, hl₂, hw₂⟩ := hl₁.setPrev_ok (by rw [hw₁.size_eq]; exact bound) hsl
    b.start
  have hb₂ := (hw₂.readHeader_eq fun o ho => by
    obtain ⟨c, hc, rfl⟩ := List.mem_map.mp ho
    exact (hbl c hc).symm).trans hb₁
  refine ⟨h₂, ?_, hhead₂.trans hhead₁, ⟨hb₂, hl₂⟩, ?_⟩
  · unfold absorbNext
    simp only [Checked.bind_of_ok hend, Checked.bind_of_ok hbehind, Checked.bind_of_ok hm,
      Checked.bind_of_ok hgained, Checked.bind_of_ok hsum, Checked.bind_of_ok hwrite,
      Checked.bind_of_ok hprev]
    exact if_pos ⟨hne, trivial⟩
  · refine (hw₁.mono ?_).trans (hw₂.mono ?_) <;> simp

/-- A block that does not touch its successor stays as it is, and nothing is written. -/
theorem absorbNext_of_apart (bound : h.size ≤ noBlock.toNat) (within : b.stop ≤ h.size)
    (apart : ∀ m ∈ l.head?, b.Apart m) (flag prev : UInt32) :
    h.absorbNext b.start ⟨b.size, flag, firstLink noBlock l, prev⟩ = .ok (false, h) := by
  obtain ⟨hend, hbehind⟩ := add32_stop (Nat.le_trans within bound)
  have hcond : ¬ (firstLink noBlock l ≠ noBlock ∧ firstLink noBlock l = UInt32.ofNat b.stop) := by
    rintro ⟨hne, heq⟩
    cases l with
    | nil => exact hne rfl
    | cons m l =>
        refine apart m rfl ?_
        rw [show m.start = UInt32.ofNat b.stop from heq, UInt32.toNat_ofNat']
        simp only [noBlock, UInt32.reduceToNat] at bound
        omega
  unfold absorbNext
  simp only [Checked.bind_of_ok hend, Checked.bind_of_ok hbehind, if_neg hcond]
  rfl

/-- One step of the walk.  After a merge it stays at the block, and otherwise follows the link. -/
theorem coalesceFrom_step (bound : h.size ≤ noBlock.toNat)
    (ht : Chained h flags prev noBlock (b :: l)) {merged : Bool}
    (habsorb : h.absorbNext b.start ⟨b.size, flags b.start, firstLink noBlock l, prev⟩
      = .ok (merged, h')) (fuel : Nat) :
    coalesceFrom (fuel + 1) h b.start
      = coalesceFrom fuel h' (if merged then b.start else firstLink noBlock l) := by
  have hne : b.start ≠ noBlock := ne_noBlock_of_le bound (le_of_readHeader ht.1)
  rw [coalesceFrom.eq_def]
  simp only [if_neg hne, Checked.bind_of_ok ht.1, Checked.bind_of_ok habsorb]

theorem coalesceFrom_noBlock (fuel : Nat) (h : Heap) : coalesceFrom fuel h noBlock = .ok h := by
  rw [coalesceFrom.eq_def]
  exact if_pos rfl

/-- **Merging from a block on joins the row** that begins with it.  What the headers say of being free
stays as it is, and no byte changes but in headers of the row.  The induction is on the fuel, which
each step uses up by one, whether it merges or moves on. -/
theorem coalesceFrom_ok {fuel : Nat} (hfuel : l.length < fuel) (bound : h.size ≤ noBlock.toNat)
    (ht : Chained h flags prev noBlock (b :: l)) (sorted : (b :: l).Pairwise Block.Before)
    (within : ∀ c ∈ b :: l, c.stop ≤ h.size) :
    ∃ h', coalesceFrom fuel h b.start = .ok h' ∧ h'.freeHead = h.freeHead
      ∧ Chained h' flags prev noBlock (joinedFrom b l)
      ∧ Rewrites ((b :: l).map Block.start) h h' := by
  induction l generalizing b prev h fuel with
  | nil =>
      obtain ⟨fuel, rfl⟩ : ∃ n, fuel = n + 1 := ⟨fuel - 1, by simp at hfuel; omega⟩
      have habsorb := absorbNext_of_apart (l := []) bound (within b List.mem_cons_self)
        (fun m hm => nomatch hm) (flags b.start) prev
      refine ⟨h, ?_, rfl, ht, Rewrites.refl h⟩
      rw [coalesceFrom_step bound ht habsorb]
      exact coalesceFrom_noBlock fuel h
  | cons m l ih =>
      obtain ⟨fuel, rfl⟩ : ∃ n, fuel = n + 1 := ⟨fuel - 1, by simp at hfuel; omega⟩
      have hfuel : l.length < fuel := by simpa using hfuel
      have hbin := within b List.mem_cons_self
      have hmin := within m (List.mem_cons_of_mem _ List.mem_cons_self)
      have hlin : ∀ c ∈ l, c.stop ≤ h.size := fun c hc =>
        within c (List.mem_cons_of_mem _ (List.mem_cons_of_mem _ hc))
      obtain ⟨hbml, hml⟩ := List.pairwise_cons.mp sorted
      obtain ⟨hmbefore, hsl⟩ := List.pairwise_cons.mp hml
      by_cases touch : b.stop = m.start.toNat
      case pos =>
        have hmerge : (b.merge m).stop = m.stop :=
          Block.stop_merge touch (Nat.le_trans hmin bound)
        obtain ⟨h₁, habsorb, hhead₁, ht₁, hw₁⟩ := ht.absorbNext_of_touch bound sorted touch hmin
        have hsorted₁ : (b.merge m :: l).Pairwise Block.Before := by
          refine List.pairwise_cons.mpr ⟨fun c hc => ?_, hsl⟩
          exact Nat.le_trans (Nat.le_of_eq hmerge) (hmbefore c hc)
        have hwithin₁ : ∀ c ∈ b.merge m :: l, c.stop ≤ h₁.size := by
          rw [hw₁.size_eq]
          exact List.forall_mem_cons.mpr ⟨hmerge ▸ hmin, hlin⟩
        obtain ⟨h', hrest, hhead', ht', hw'⟩ :=
          ih hfuel (by rw [hw₁.size_eq]; exact bound) ht₁ hsorted₁ hwithin₁
        refine ⟨h', ?_, hhead'.trans hhead₁, ?_, (hw₁.mono ?_).trans (hw'.mono ?_)⟩
        · rw [coalesceFrom_step bound ht habsorb]
          exact hrest
        · rw [joinedFrom_of_touch touch]
          exact ht'
        · simp
        · simp
      case neg =>
        have habsorb := absorbNext_of_apart (l := m :: l) bound hbin
          (fun c hc => by cases hc; exact touch) (flags b.start) prev
        obtain ⟨h', hrest, hhead', ht', hw'⟩ := ih hfuel bound ht.2 hml
          (List.forall_mem_cons.mpr ⟨hmin, hlin⟩)
        refine ⟨h', ?_, hhead', ?_, hw'.mono (by simp)⟩
        · rw [coalesceFrom_step bound ht habsorb]
          exact hrest
        · -- the walk has left `b` behind: it rewrites headers of the rest only
          rw [joinedFrom, if_neg touch, chained_cons, firstLink_joinedFrom]
          refine ⟨(hw'.readHeader_eq fun o ho => ?_).trans ht.1, ht'⟩
          obtain ⟨c, hc, rfl⟩ := List.mem_map.mp ho
          exact (hbml c hc).headersApart.symm

/-- **A row in which no blocks touch stays as it is**, to the last byte.  Merging twice is therefore
the same as merging once. -/
theorem coalesceFrom_of_apart {fuel : Nat} (hfuel : l.length ≤ fuel)
    (bound : h.size ≤ noBlock.toNat) (ht : Chained h flags prev noBlock l)
    (apart : l.IsChain Block.Apart) (within : ∀ c ∈ l, c.stop ≤ h.size) :
    coalesceFrom fuel h (firstLink noBlock l) = .ok h := by
  induction l generalizing prev fuel with
  | nil => exact coalesceFrom_noBlock fuel h
  | cons b l ih =>
      obtain ⟨fuel, rfl⟩ : ∃ n, fuel = n + 1 := ⟨fuel - 1, by simp at hfuel; omega⟩
      obtain ⟨hbl, hl⟩ := List.isChain_cons.mp apart
      have habsorb := absorbNext_of_apart bound (within b List.mem_cons_self) hbl (flags b.start) prev
      rw [firstLink_cons, coalesceFrom_step bound ht habsorb]
      exact ih (by simpa using hfuel) ht.2 hl fun c hc => within c (List.mem_cons_of_mem _ hc)

end Chained

/-- **Merging along the free list of a layout** joins the free blocks, for every bound on the steps
that is no less than their number. -/
theorem coalesceFrom_layout {fuel : Nat} (hfuel : (freeBlocks l).length ≤ fuel)
    (bound : h.size ≤ noBlock.toNat) (t : Tiles 0 l h.size)
    (ht : Chained h flags noBlock noBlock (freeBlocks l)) :
    ∃ h', coalesceFrom fuel h (firstLink noBlock (freeBlocks l)) = .ok h'
      ∧ h'.freeHead = h.freeHead ∧ Chained h' flags noBlock noBlock (freeBlocks (coalesced l))
      ∧ Rewrites ((freeBlocks l).map Block.start) h h' := by
  have hsorted := t.pairwise.sublist (freeBlocks_sublist l)
  have hwithin : ∀ c ∈ freeBlocks l, c.stop ≤ h.size := fun c hc =>
    (t.mem (mem_freeBlocks.mp hc).1).2
  rw [freeBlocks_coalesced bound l.length (Nat.le_refl _) t]
  cases hrow : freeBlocks l with
  | nil => exact ⟨h, Chained.coalesceFrom_noBlock fuel h, rfl, trivial, Rewrites.refl h⟩
  | cons b row =>
      rw [hrow] at hfuel ht hsorted hwithin
      exact ht.coalesceFrom_ok hfuel bound hsorted hwithin

end Heap

end TinyKernel
