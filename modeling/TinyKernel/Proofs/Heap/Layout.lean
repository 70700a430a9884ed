import Mathlib.Algebra.GroupWithZero.Nat
import Mathlib.Data.List.Chain
import TinyKernel.Heap.Basic

/-!
# Layouts

A layout is what a heap's bytes stand for: a row of blocks in address order, each of which is free
or allocated.  The operations of the heap are operations on layouts, and none of them looks at a
byte: a block is carved into the part that is asked for and the rest, and free neighbours are merged.

## What is load-bearing

`Tiles` says that each block begins where the one before it ends.  From it follow the order of the
blocks (`Tiles.pairwise`) and that their headers and payloads are disjoint, which is all that the
proofs about bytes ever use.

* `Block`, `Tiles` — a row of blocks that covers a range
* `Block.carve` — what allocation makes of a block
* `coalesced` — a layout whose free neighbours are merged
* `freeing` — a layout in which some blocks are freed
-/

namespace TinyKernel

/-- **A block**: where its header begins, how many bytes of payload it has, and whether it is free.  A
heap is described by a list of these in address order, and what operations do to it is said in terms of
such lists. -/
structure Block where
  start : UInt32
  size : UInt32
  free : Bool
  deriving DecidableEq

namespace Block

/-- The offset of the first byte of the payload, right behind the header. -/
def first (b : Block) : Nat := b.start.toNat + headerSize

/-- The offset behind the last byte of the payload.  In a row the next block begins there. -/
def stop (b : Block) : Nat := b.first + b.size.toNat

/-- An offset lies in the payload.  Header bytes are not contained in a block. -/
def Contains (b : Block) (i : Nat) : Prop := b.first ≤ i ∧ i < b.stop

instance (b : Block) (i : Nat) : Decidable (b.Contains i) := by
  unfold Contains
  infer_instance

/-- One block ends before another begins.  They may touch. -/
def Before (a b : Block) : Prop := a.stop ≤ b.start.toNat

/-- A block that takes in the block behind it, whose header becomes payload. -/
def merge (a b : Block) : Block := { a with size := a.size + (UInt32.ofNat headerSize + b.size) }

/-- **What allocation makes of a block**: an allocated block of `size` bytes and the free rest, or the
whole block if the rest would be too small.  The test is the one of the code, with strict
inequality. -/
def carve (b : Block) (size : Nat) : List Block :=
  if size + headerSize + minSplitRemainder < b.size.toNat then
    [⟨b.start, UInt32.ofNat size, false⟩,
      ⟨b.start + UInt32.ofNat (size + headerSize), b.size - UInt32.ofNat (size + headerSize), true⟩]
  else
    [{ b with free := false }]

theorem start_add_header_le_stop (b : Block) : b.start.toNat + headerSize ≤ b.stop := by
  simp only [stop, first]
  omega

@[simp]
theorem start_merge (a b : Block) : (a.merge b).start = a.start := rfl

@[simp]
theorem free_merge (a b : Block) : (a.merge b).free = a.free := rfl

theorem merge_assoc (a b c : Block) : (a.merge b).merge c = a.merge (b.merge c) := by
  simp only [merge, mk.injEq, true_and, and_true]
  ac_rfl

/-- A block that takes in its neighbour ends where the neighbour did.  The bound keeps the sum of the
sizes in a word. -/
theorem stop_merge {a b : Block} (touch : a.stop = b.start.toNat) (bound : b.stop ≤ noBlock.toNat) :
    (a.merge b).stop = b.stop := by
  simp only [stop, first, headerSize, noBlock, UInt32.reduceToNat] at touch bound ⊢
  simp only [merge, headerSize, UInt32.toNat_add, UInt32.reduceOfNat, UInt32.reduceToNat]
  omega

/-- A block that takes in its neighbour gains the payload of that, and the header. -/
theorem size_merge {a b : Block} (touch : a.stop = b.start.toNat) (bound : b.stop ≤ noBlock.toNat) :
    (a.merge b).size.toNat = a.size.toNat + (headerSize + b.size.toNat) := by
  have hstop := stop_merge touch bound
  simp only [stop, first, start_merge] at hstop touch
  omega

end Block

/-! ## Rows of blocks -/

/-- **A row of blocks covers a range**: each block begins where the one before it ends.  Gaps and
overlaps are ruled out at once, and so are blocks of no size, since each has a header. -/
def Tiles : Nat → List Block → Nat → Prop
  | i, [], n => i = n
  | i, b :: l, n => b.start.toNat = i ∧ Tiles b.stop l n

@[simp]
theorem tiles_nil {i n : Nat} : Tiles i [] n ↔ i = n := Iff.rfl

@[simp]
theorem tiles_cons {i n : Nat} {b : Block} {l : List Block} :
    Tiles i (b :: l) n ↔ b.start.toNat = i ∧ Tiles b.stop l n := Iff.rfl

theorem tiles_append {i n : Nat} {l l' : List Block} :
    Tiles i (l ++ l') n ↔ ∃ m, Tiles i l m ∧ Tiles m l' n := by
  induction l generalizing i with
  | nil => simp
  | cons b l ih =>
      simp only [List.cons_append, tiles_cons, ih]
      constructor
      · rintro ⟨hb, m, hl, hl'⟩
        exact ⟨m, ⟨hb, hl⟩, hl'⟩
      · rintro ⟨m, ⟨hb, hl⟩, hl'⟩
        exact ⟨hb, m, hl, hl'⟩

namespace Tiles

variable {i n : Nat} {l : List Block}

theorem le (h : Tiles i l n) : i ≤ n := by
  induction l generalizing i with
  | nil => exact Nat.le_of_eq h
  | cons b l ih =>
      obtain ⟨rfl, hl⟩ := h
      have hstop := b.start_add_header_le_stop
      exact Nat.le_trans (by omega) (ih hl)

/-- A row of blocks says itself where the range that it covers ends. -/
theorem stop_unique {n' : Nat} (h : Tiles i l n) (h' : Tiles i l n') : n = n' := by
  induction l generalizing i with
  | nil => exact h.symm.trans h'
  | cons b l ih => exact ih h.2 h'.2

/-- Every block of a row lies in the range that the row covers, header and payload. -/
theorem mem (h : Tiles i l n) {b : Block} (hb : b ∈ l) : i ≤ b.start.toNat ∧ b.stop ≤ n := by
  induction l generalizing i with
  | nil => cases hb
  | cons a l ih =>
      obtain ⟨rfl, hl⟩ := h
      have hstop := a.start_add_header_le_stop
      rcases List.mem_cons.mp hb with rfl | hb
      · exact ⟨Nat.le_refl _, hl.le⟩
      · obtain ⟨hle, hn⟩ := ih hl hb
        exact ⟨by omega, hn⟩

/-- **The blocks of a row are in address order**, and none overlaps another.  This holds of any two
blocks, not only of neighbours. -/
theorem pairwise (h : Tiles i l n) : l.Pairwise Block.Before := by
  induction l generalizing i with
  | nil => exact List.Pairwise.nil
  | cons a l ih =>
      obtain ⟨-, hl⟩ := h
      exact List.pairwise_cons.mpr ⟨fun b hb => (hl.mem hb).1, ih hl⟩

/-- A part of a row may be replaced by blocks that cover the same range.  Carving and merging are such
replacements. -/
theorem replace {pre mid mid' post : List Block} (h : Tiles i (pre ++ mid ++ post) n)
    (hmid : ∀ {a c}, Tiles a mid c → c ≤ n → Tiles a mid' c) :
    Tiles i (pre ++ mid' ++ post) n := by
  simp only [tiles_append] at h ⊢
  obtain ⟨c, ⟨a, hpre, hc⟩, hpost⟩ := h
  exact ⟨c, ⟨a, hpre, hmid hc hpost.le⟩, hpost⟩

end Tiles

/-- The parts of a block that is carved cover the block: no byte is lost between them. -/
theorem tiles_carve {a c : Nat} {b : Block} (size : Nat) (h : Tiles a [b] c)
    (bound : c ≤ noBlock.toNat) : Tiles a (b.carve size) c := by
  obtain ⟨rfl, hc⟩ := h
  have hstop : b.stop = c := hc
  unfold Block.carve
  split
  case isFalse => exact ⟨rfl, hc⟩
  case isTrue hsplit =>
    simp only [Block.stop, Block.first, headerSize, minSplitRemainder, noBlock,
      UInt32.reduceToNat] at hstop bound hsplit
    have hsub : UInt32.ofNat (size + 16) ≤ b.size := by
      rw [UInt32.le_iff_toNat_le, UInt32.toNat_ofNat']
      omega
    simp only [tiles_cons, tiles_nil, Block.stop, Block.first, headerSize, UInt32.toNat_add,
      UInt32.toNat_sub_of_le _ _ hsub, UInt32.toNat_ofNat', true_and]
    omega

/-! ## How many bytes a layout has -/

/-- The free blocks of a layout, in address order.  That is the order of the free list. -/
def freeBlocks (l : List Block) : List Block := l.filter Block.free

/-- The allocated blocks of a layout, in address order. -/
def usedBlocks (l : List Block) : List Block := l.filter fun b => !b.free

theorem freeBlocks_cons_of_free {b : Block} (h : b.free = true) (l : List Block) :
    freeBlocks (b :: l) = b :: freeBlocks l := List.filter_cons_of_pos h

theorem freeBlocks_cons_of_used {b : Block} (h : b.free = false) (l : List Block) :
    freeBlocks (b :: l) = freeBlocks l := List.filter_cons_of_neg (by simp [h])

@[simp]
theorem freeBlocks_append (l l' : List Block) :
    freeBlocks (l ++ l') = freeBlocks l ++ freeBlocks l' := List.filter_append ..

theorem mem_freeBlocks {b : Block} {l : List Block} :
    b ∈ freeBlocks l ↔ b ∈ l ∧ b.free = true := List.mem_filter

theorem freeBlocks_sublist (l : List Block) : (freeBlocks l).Sublist l := List.filter_sublist

theorem usedBlocks_cons_of_free {b : Block} (h : b.free = true) (l : List Block) :
    usedBlocks (b :: l) = usedBlocks l := List.filter_cons_of_neg (by simp [h])

theorem usedBlocks_cons_of_used {b : Block} (h : b.free = false) (l : List Block) :
    usedBlocks (b :: l) = b :: usedBlocks l := List.filter_cons_of_pos (by simp [h])

/-- The bytes of payload of a row of blocks, headers not counted. -/
def payloadBytes (l : List Block) : Nat := (l.map fun b => b.size.toNat).sum

@[simp]
theorem payloadBytes_cons (b : Block) (l : List Block) :
    payloadBytes (b :: l) = b.size.toNat + payloadBytes l := by
  simp only [payloadBytes, List.map_cons, List.sum_cons]

@[simp]
theorem payloadBytes_append (l l' : List Block) :
    payloadBytes (l ++ l') = payloadBytes l + payloadBytes l' := by
  simp only [payloadBytes, List.map_append, List.sum_append]

/-- **Nothing of a range is lost**: it is the payloads of the free and of the allocated blocks, and a
header for each block.  The statistics of a heap add up by this. -/
theorem Tiles.total {i n : Nat} {l : List Block} (h : Tiles i l n) :
    i + payloadBytes (freeBlocks l) + payloadBytes (usedBlocks l) + headerSize * l.length = n := by
  induction l generalizing i with
  | nil => exact h
  | cons b l ih =>
      obtain ⟨rfl, hl⟩ := h
      have hrest := ih hl
      simp only [Block.stop, Block.first, headerSize] at hrest ⊢
      cases hfree : b.free with
      | true =>
          rw [freeBlocks_cons_of_free hfree, usedBlocks_cons_of_free hfree, payloadBytes_cons,
            List.length_cons]
          omega
      | false =>
          rw [freeBlocks_cons_of_used hfree, usedBlocks_cons_of_used hfree, payloadBytes_cons,
            List.length_cons]
          omega

/-! ## Merging free neighbours -/

/-- Two neighbours are not both free.  A chain of this relation is a layout in which nothing is left to
merge. -/
def NotBothFree (a b : Block) : Prop := ¬ (a.free = true ∧ b.free = true)

/-- A block in front of a layout takes in the first block of it if both are free.  One block is enough,
as the layout behind is merged already. -/
def absorbInto (b : Block) : List Block → List Block
  | [] => [b]
  | n :: l => if b.free ∧ n.free then b.merge n :: l else b :: n :: l

@[simp]
theorem absorbInto_nil (b : Block) : absorbInto b [] = [b] := rfl

theorem absorbInto_cons (b n : Block) (l : List Block) :
    absorbInto b (n :: l) = if b.free ∧ n.free then b.merge n :: l else b :: n :: l := rfl

/-- **A layout with its free neighbours merged**, from the back to the front.  The code merges from the
front; that it comes to the same is `coalesced_merge`. -/
def coalesced : List Block → List Block
  | [] => []
  | b :: l => absorbInto b (coalesced l)

@[simp]
theorem coalesced_nil : coalesced [] = [] := rfl

theorem coalesced_cons (b : Block) (l : List Block) :
    coalesced (b :: l) = absorbInto b (coalesced l) := rfl

/-- A layout begins as before when its free neighbours are merged: its first block may grow, and
nothing else happens to it. -/
theorem coalesced_cons_eq (b : Block) (l : List Block) :
    ∃ b' l', coalesced (b :: l) = b' :: l' ∧ b'.start = b.start ∧ b'.free = b.free := by
  rw [coalesced_cons]
  cases coalesced l with
  | nil => exact ⟨b, [], rfl, rfl, rfl⟩
  | cons n l' =>
      rw [absorbInto_cons]
      split
      · exact ⟨b.merge n, l', rfl, rfl, rfl⟩
      · exact ⟨b, n :: l', rfl, rfl, rfl⟩

/-- Merging from the front comes to the same as merging from the back, since it makes no difference
which of three blocks are put together first. -/
theorem coalesced_merge {b n : Block} (hb : b.free = true) (hn : n.free = true) (l : List Block) :
    coalesced (b.merge n :: l) = coalesced (b :: n :: l) := by
  simp only [coalesced_cons]
  cases coalesced l with
  | nil => simp [absorbInto, hb, hn]
  | cons m l' => by_cases hm : m.free = true <;> simp [absorbInto, hb, hn, hm, Block.merge_assoc]

/-- What comes to the same behind a row comes to the same with it. -/
theorem coalesced_append_congr {m m' : List Block} (h : coalesced m = coalesced m')
    (l : List Block) : coalesced (l ++ m) = coalesced (l ++ m') := by
  induction l with
  | nil => exact h
  | cons b l ih => rw [List.cons_append, List.cons_append, coalesced_cons, coalesced_cons, ih]

theorem coalesced_cons_of_notBothFree {b n : Block} (h : NotBothFree b n) (l : List Block) :
    coalesced (b :: n :: l) = b :: coalesced (n :: l) := by
  obtain ⟨n', l', heq, -, hfree⟩ := coalesced_cons_eq n l
  rw [coalesced_cons, heq, absorbInto, if_neg]
  rw [hfree]
  exact h

theorem coalesced_cons_of_used {b : Block} (h : b.free = false) (l : List Block) :
    coalesced (b :: l) = b :: coalesced l := by
  cases l with
  | nil => rfl
  | cons n l => exact coalesced_cons_of_notBothFree (fun hfree => by simp [h] at hfree) l

/-- **No free neighbours are left**, whatever the layout was. -/
theorem isChain_coalesced (l : List Block) : (coalesced l).IsChain NotBothFree := by
  induction l with
  | nil => exact List.isChain_nil
  | cons b l ih =>
      rw [coalesced_cons]
      cases hl : coalesced l with
      | nil => exact List.isChain_singleton b
      | cons n l' =>
          rw [hl] at ih
          rw [absorbInto_cons]
          split
          case isTrue h =>
            -- the merged block is free, as `n` was, so it gets along with what stood behind `n`
            refine List.isChain_cons.mpr ⟨fun m hm hfree => ?_, ih.tail⟩
            exact ih.rel_head? hm ⟨h.2, hfree.2⟩
          case isFalse h => exact List.isChain_cons_cons.mpr ⟨h, ih⟩

/-- A layout without free neighbours stays as it is.  In particular, merging twice is merging once. -/
theorem coalesced_of_isChain {l : List Block} (h : l.IsChain NotBothFree) : coalesced l = l := by
  induction l with
  | nil => rfl
  | cons b l ih =>
      cases l with
      | nil => rfl
      | cons n l =>
          obtain ⟨hbn, hl⟩ := List.isChain_cons_cons.mp h
          rw [coalesced_cons_of_notBothFree hbn, ih hl]

/-- Allocated blocks stay as they are when free neighbours are merged, and none is added. -/
theorem mem_coalesced_of_used {l : List Block} {b : Block} (hb : b.free = false) :
    b ∈ coalesced l ↔ b ∈ l := by
  induction l with
  | nil => simp
  | cons a l ih =>
      rw [coalesced_cons, List.mem_cons, ← ih]
      cases coalesced l with
      | nil => simp [absorbInto]
      | cons n l' =>
          rw [absorbInto_cons]
          split
          case isTrue h =>
            have hne : b ≠ a ∧ b ≠ n ∧ b ≠ a.merge n := by
              refine ⟨?_, ?_, ?_⟩ <;> rintro rfl <;> simp_all
            simp [hne]
          case isFalse h => simp

/-- **A free block behind a layout** is taken in by the last block, if that one is free too.  This is
the layout of a heap that has grown. -/
theorem coalesced_append_free {l : List Block} {n : Block} (h : l.IsChain NotBothFree)
    (hn : n.free = true) :
    coalesced (l ++ [n]) = match l.getLast?.filter Block.free with
      | none => l ++ [n]
      | some b => l.dropLast ++ [b.merge n] := by
  rcases List.eq_nil_or_concat l with rfl | ⟨l, b, rfl⟩
  · rfl
  rw [List.concat_eq_append] at h ⊢
  rw [List.getLast?_append_of_ne_nil _ (by simp), List.getLast?_singleton, List.dropLast_concat]
  obtain ⟨hl, -, hlast⟩ := List.isChain_append.mp h
  cases hb : b.free with
  | false =>
      rw [Option.filter_some_neg (by simp [hb])]
      refine coalesced_of_isChain (List.isChain_append.mpr ⟨h, List.isChain_singleton n, ?_⟩)
      intro a ha c hc hboth
      obtain rfl : b = a := by simpa using ha
      simp [hb] at hboth
  | true =>
      rw [Option.filter_some_pos hb, List.append_assoc, List.cons_append, List.nil_append,
        ← coalesced_append_congr (coalesced_merge hb hn []) l]
      refine coalesced_of_isChain (List.isChain_append.mpr ⟨hl, List.isChain_singleton _, ?_⟩)
      intro a ha c hc hboth
      obtain rfl : b.merge n = c := by simpa using hc
      exact hlast a ha b rfl hboth

theorem Tiles.coalesced {i n : Nat} {l : List Block} (h : Tiles i l n)
    (bound : n ≤ noBlock.toNat) : Tiles i (coalesced l) n := by
  induction l generalizing i with
  | nil => exact h
  | cons b l ih =>
      obtain ⟨rfl, hl⟩ := h
      have hl' := ih hl
      rw [coalesced_cons]
      cases hc : TinyKernel.coalesced l with
      | nil =>
          rw [hc] at hl'
          exact ⟨rfl, hl'⟩
      | cons m l' =>
          rw [hc] at hl'
          obtain ⟨hm, hrest⟩ := hl'
          rw [absorbInto_cons]
          split
          · refine ⟨rfl, ?_⟩
            rw [Block.stop_merge hm.symm (Nat.le_trans hrest.le bound)]
            exact hrest
          · exact ⟨rfl, hm, hrest⟩

/-! ## Freeing blocks -/

/-- **A layout in which the blocks at some places are free**, and the others are as before.  Places
where no block begins have no effect. -/
def freeing (starts : List UInt32) (l : List Block) : List Block :=
  l.map fun b => { b with free := b.free || decide (b.start ∈ starts) }

theorem freeing_cons (starts : List UInt32) (b : Block) (l : List Block) :
    freeing starts (b :: l)
      = { b with free := b.free || decide (b.start ∈ starts) } :: freeing starts l := rfl

/-- A free block is free already, and stays as it is. -/
theorem freeing_cons_of_free {b : Block} (starts : List UInt32) (hb : b.free = true)
    (l : List Block) : freeing starts (b :: l) = b :: freeing starts l := by
  obtain ⟨start, size, free⟩ := b
  obtain rfl : free = true := hb
  rfl

@[simp]
theorem freeing_nil (l : List Block) : freeing [] l = l := by
  simp [freeing]

/-- It makes no difference in which order places are listed, or how often. -/
theorem freeing_congr {starts starts' : List UInt32} (h : ∀ s, s ∈ starts ↔ s ∈ starts')
    (l : List Block) : freeing starts l = freeing starts' l := by
  simp only [freeing, h]

theorem freeing_append (starts starts' : List UInt32) (l : List Block) :
    freeing (starts ++ starts') l = freeing starts' (freeing starts l) := by
  simp only [freeing, List.map_map, List.mem_append, Bool.decide_or, Function.comp_def,
    Bool.or_assoc]

theorem tiles_freeing {starts : List UInt32} {i n : Nat} {l : List Block} :
    Tiles i (freeing starts l) n ↔ Tiles i l n := by
  induction l generalizing i with
  | nil => rfl
  | cons b l ih => exact and_congr_right fun _ => ih

/-- **Merging can wait.**  Whether neighbours are merged before blocks are freed, or only after that,
comes to the same.  A place that was inside a merged block has no effect any more, but then the block
there was free, and freeing it had none either. -/
theorem coalesced_freeing_coalesced (starts : List UInt32) (l : List Block) :
    coalesced (freeing starts (coalesced l)) = coalesced (freeing starts l) := by
  induction l with
  | nil => rfl
  | cons b l ih =>
      rw [freeing_cons, coalesced_cons (l := freeing starts l), ← ih, coalesced_cons]
      cases coalesced l with
      | nil => rfl
      | cons n l' =>
          rw [absorbInto_cons]
          split
          case isFalse => rfl
          case isTrue hfree =>
            -- both are free already, and so they are merged sooner or later
            rw [freeing_cons_of_free starts (b := b.merge n) hfree.1,
              freeing_cons_of_free starts hfree.2, coalesced_merge hfree.1 hfree.2, coalesced_cons,
              hfree.1, Bool.true_or, ← hfree.1]

end TinyKernel
