import TinyKernel.Proofs.Heap.FirstFit
import TinyKernel.Proofs.Heap.FreeOrder

/-!
# Freeing undoes allocation

A client that gives back at once what it was handed leaves no trace: the headers and the links of the
free list are those of before, wherever in the list the block stood and whether or not it was split.
Only growth stays, because a heap never shrinks.

## What is load-bearing

Nothing is said about links.  The rest that was split off merges with the part that was handed out to
the block that was carved (`merge_carve`), and this block gets along with its neighbours as it did
before, so that no more blocks merge (`coalesced_freeing_carve`).  The layout is that of before, and
a layout determines every header.

* `Heap.SameChain` — two heaps that do not differ in their headers
* `Heap.grownBlocks` — the blocks of a heap that has grown
* `Heap.Takes.undo` — a block that was taken is given back
* `HeapSession.execute_free_undoes_alloc` — it holds in every session
-/

namespace TinyKernel

/-! ## Carved blocks merge -/

/-- **The parts of a block merge to the block.** -/
theorem merge_carve {b : Block} {size : Nat} (hb : b.free = true)
    (hsplit : size + headerSize + minSplitRemainder < b.size.toNat) :
    Block.merge ⟨b.start, UInt32.ofNat size, true⟩
      ⟨b.start + UInt32.ofNat (size + headerSize), b.size - UInt32.ofNat (size + headerSize), true⟩
        = b := by
  have hlt := b.size.toNat_lt
  simp only [headerSize, minSplitRemainder] at hsplit
  have hclaimed : (UInt32.ofNat (size + 16)).toNat = size + 16 := by
    rw [UInt32.toNat_ofNat', Nat.mod_eq_of_lt (by omega)]
  have hleft : (b.size - UInt32.ofNat (size + 16)).toNat = b.size.toNat - (size + 16) := by
    rw [UInt32.toNat_sub_of_le _ _ (by rw [UInt32.le_iff_toNat_le, hclaimed]; omega), hclaimed]
  obtain ⟨start, whole, free⟩ := b
  obtain rfl : free = true := hb
  simp only [Block.merge, headerSize, Block.mk.injEq, true_and, and_true] at *
  apply UInt32.toNat_inj.mp
  rw [UInt32.toNat_add, UInt32.toNat_add, hleft, UInt32.toNat_ofNat', UInt32.toNat_ofNat']
  omega

/-- **Freeing what was carved off** gives the block back that was carved. -/
theorem coalesced_freeing_carve {pre post : List Block} {b : Block} {size i n : Nat}
    (t : Tiles i (pre ++ b.carve size ++ post) n) (hb : b.free = true)
    (apart : (pre ++ b :: post).IsChain NotBothFree) :
    coalesced (freeing [b.start] (pre ++ b.carve size ++ post)) = pre ++ b :: post := by
  rw [List.append_assoc] at t ⊢
  unfold Block.carve at *
  split at t
  case isTrue hsplit =>
    rw [if_pos hsplit]
    rw [List.cons_append, List.cons_append, List.nil_append] at t ⊢
    rw [Heap.freeing_of_tiles t, ← coalesced_append_congr (coalesced_merge rfl rfl post),
      merge_carve hb hsplit]
    exact coalesced_of_isChain apart
  case isFalse hwhole =>
    rw [if_neg hwhole]
    rw [List.cons_append, List.nil_append] at t ⊢
    rw [Heap.freeing_of_tiles t]
    obtain ⟨start, whole, free⟩ := b
    obtain rfl : free = true := hb
    exact coalesced_of_isChain apart

example : coalesced (freeing [24] (Block.carve ⟨24, 80, true⟩ 40)) = [⟨24, 80, true⟩] := by decide

namespace Heap

variable {h h' h'' : Heap} {l l' : List Block} {b : Block} {size : Nat}

/-! ## The same chain of blocks -/

/-- **Two heaps do not differ in their headers**: they lie in the same range, the walk shows the same
blocks with the same sizes, flags and links, and their free lists begin at the same block. -/
structure SameChain (h h' : Heap) : Prop where
  start_eq : h'.start = h.start
  maxSize_eq : h'.maxSize = h.maxSize
  size_eq : h'.size = h.size
  walk_eq : h'.walk = h.walk
  freeHead_eq : h'.freeHead = h.freeHead

/-- Heaps of one layout have the same chain, since a layout determines every header. -/
theorem Evolves.sameChain (e : Evolves h l h' l') (s : Sound h'' l') (start_eq : h''.start = h.start)
    (maxSize_eq : h''.maxSize = h.maxSize) (size_eq : h'.size = h''.size) : h''.SameChain h' where
  start_eq := e.start_eq.trans start_eq.symm
  maxSize_eq := e.maxSize_eq.trans maxSize_eq.symm
  size_eq := size_eq
  walk_eq := e.sound.represents.walk_spelled.trans s.represents.walk_spelled.symm
  freeHead_eq := e.sound.represents.freeList.head.trans s.represents.freeList.head.symm

/-- **A block that was taken is given back**, and the chain is that of before. -/
theorem Takes.undo {admits : Fault → Prop} (takes : Takes h l size b h' l') (s : Sound h l) :
    (h'.free (payload b.start)).Meets admits fun (freed, h'') =>
      freed = true ∧ h.SameChain h'' := by
  obtain ⟨pre, post, rfl, rfl, -⟩ := takes.split
  have e := takes.evolves
  have hmem : b.taken size ∈ allocated (pre ++ b.carve size ++ post) := by
    rw [allocated_carve size takes.free]
    exact Finset.mem_insert_self ..
  rw [← b.start_taken size]
  refine (e.sound.free_ok hmem).imp ?_
  rintro ⟨freed, h''⟩ ⟨rfl, e', hsize⟩
  rw [Block.start_taken, coalesced_freeing_carve e.sound.represents.tiles takes.free s.apart] at e'
  exact ⟨rfl, e'.sameChain s e.start_eq.symm e.maxSize_eq.symm (hsize.trans takes.size_eq)⟩

/-! ## Growth stays -/

/-- **The blocks of a heap that has grown** by `step` bytes.  They are part of the last block if that
one is free, and otherwise a free block of their own. -/
def grownBlocks (h : Heap) (l : List Block) (step : Nat) : List Block :=
  match l.getLast?.filter Block.free with
  | none => l ++ [⟨UInt32.ofNat h.size, UInt32.ofNat (step - headerSize), true⟩]
  | some b => l.dropLast ++ [{ b with size := b.size + UInt32.ofNat step }]

/-- Growing adds the new bytes, and nothing else. -/
theorem GrowsBy.layout_eq_grownBlocks {σ : Type} [PageSource σ] {pages pages' : σ} {step : Nat}
    (grows : h.GrowsBy l pages step h' l' pages') (s : Sound h l) (hstep : headerSize ≤ step) :
    l' = h.grownBlocks l step := by
  rw [grows.layout_eq, coalesced_append_free s.apart rfl, grownBlocks]
  cases l.getLast?.filter Block.free with
  | none => rfl
  | some b =>
      have hsum : UInt32.ofNat headerSize + UInt32.ofNat (step - headerSize) = UInt32.ofNat step := by
        rw [← UInt32.ofNat_add, Nat.add_sub_of_le hstep]
      simp only [Block.merge, newBlock, hsum]

section

variable {σ : Type} [PageSource σ] {pages : σ}

namespace Sound

/-- **After growth** a request that is answered is answered from the heap that growth leaves. -/
theorem alloc_of_misses (s : Sound h l) (range : h.Admits size) (misses : Misses l (rounded size)) :
    (h.alloc pages size).Meets (PageSource.Raises σ) fun (q?, h', pages') =>
      ∀ q ∈ q?, ∃ h₁ l₁ b l', (h.expand pages (rounded size)).Returns (true, h₁, pages')
        ∧ h.GrowsBy l pages (h.growthStep (rounded size)) h₁ l₁ pages'
        ∧ Takes h₁ l₁ (rounded size) b h' l' ∧ q = payload b.start := by
  obtain ⟨hzero, hle⟩ := range
  have hmax := s.range.maxSize_lt
  have hpage := Nat.le_trans s.range.pageSize_le s.range.size_le
  simp only [noBlock, UInt32.reduceToNat, pageSize, headerSize] at hmax hpage hle
  have hroom : Checked.sub64 h.maxSize headerSize = .ok (h.maxSize - headerSize) :=
    Checked.sub64_of_le (by simp only [headerSize]; omega)
  have hpos : 0 < rounded size := Nat.lt_of_lt_of_le (Nat.pos_of_ne_zero hzero) (le_rounded size)
  have hrounded : rounded size < 2 ^ 32 := by
    simp only [rounded, heapAlign]
    omega
  have hnone : h.findFit (rounded size) = .ok none := by
    obtain ⟨hnone, -⟩ | ⟨b, h', l', -, -, takes⟩ := s.firstFit_ok hpos ⟨_, Nat.mul_comm ..⟩
    · exact hnone
    · exact absurd (misses b takes.mem takes.free) (Nat.not_lt.mpr takes.fits)
  unfold alloc
  rw [if_neg hzero]
  refine Run.meets_lift_bind hroom ?_
  rw [if_neg (by simp only [headerSize]; omega)]
  refine Run.meets_lift_bind (alignUp_heapAlign (by omega)) (Run.meets_lift_bind hnone ?_)
  refine ((s.expand_meets (PageSource.keeps_true σ _) trivial hrounded).and
    (Run.meets_returns _)).bind ?_
  rintro ⟨grew, h₁, pages₁⟩ ⟨⟨-, hgrew⟩, hreturns⟩
  cases grew with
  | false => exact Run.meets_log_bind (Run.meets_pure fun _ h => by cases h)
  | true =>
      obtain ⟨l₁, grows⟩ := hgrew
      obtain ⟨hnone, -⟩ | ⟨b, h', l', hfind, htake, takes⟩ :=
        grows.evolves.sound.firstFit_ok hpos ⟨_, Nat.mul_comm ..⟩
      · exact Run.meets_lift_bind hnone (Run.meets_pure fun _ h => by cases h)
      · refine Run.meets_lift_bind hfind (Run.meets_lift_bind htake (Run.meets_pure ?_))
        rintro q ⟨⟩
        exact ⟨h₁, l₁, b, l', hreturns, grows, takes, rfl⟩

end Sound

end

end Heap

/-- **Freeing undoes allocation.**  In every heap that a session leads to, for every page source and
every size: if there is an answer, then it is accepted when it is given back at once.  If a free block
was large enough, the chain of blocks is then that of before, with the same sizes, flags and links and
the same free list.  If none was, it is the chain that growing by itself leaves: the blocks of before,
with the new bytes as part of the last block if that one is free, or as a free block of their own. -/
theorem HeapSession.execute_free_undoes_alloc {σ : Type} [PageSource σ] (start : VirtAddr)
    (initialSize maxSize : Nat) (pages : σ) (calls : List HeapCall) :
    (HeapSession.execute start initialSize maxSize pages calls).Meets (PageSource.Raises σ)
      fun s? => ∀ s ∈ s?, ∃ l, s.heap.walk = .ok (spelled noBlock l)
        ∧ ∀ {τ : Type} [PageSource τ] (p : τ) (size : Nat),
          (s.heap.alloc p size).Meets (PageSource.Raises τ) fun (q?, h', p') => ∀ q ∈ q?,
            (h'.free q).Meets (fun _ => False) fun (freed, h'') => freed = true
              ∧ ((∃ b ∈ l, b.free = true ∧ Heap.rounded size ≤ b.size.toNat) → s.heap.SameChain h'')
              ∧ ((∀ b ∈ l, b.free = true → b.size.toNat < Heap.rounded size) →
                ∃ h₁, (s.heap.expand p (Heap.rounded size)).Returns (true, h₁, p')
                  ∧ h₁.SameChain h'' ∧ h₁.walk = .ok (spelled noBlock
                    (s.heap.grownBlocks l (s.heap.growthStep (Heap.rounded size))))) := by
  refine (execute_meets (PageSource.keeps_true σ _) trivial calls).imp fun s? hs s hmem => ?_
  obtain ⟨l, sound, -⟩ := (hs s hmem).layout
  refine ⟨l, sound.represents.walk_spelled, fun {τ} _ p size => ?_⟩
  by_cases hfit : ∃ b ∈ l, b.free = true ∧ Heap.rounded size ≤ b.size.toNat
  case pos =>
    obtain ⟨c, hc, hcfree, hcfits⟩ := hfit
    refine (sound.alloc_cases (PageSource.keeps_true τ _) trivial size).imp ?_
    rintro ⟨q?, h', p'⟩ ⟨-, l', allocates⟩ q hq
    cases allocates with
    | outOfRange | ungrown | short => cases hq
    | grown range misses => exact absurd hcfits (Nat.not_le.mpr (misses c hc hcfree))
    | fits range takes =>
        obtain rfl := Option.mem_some_iff.mp hq
        refine (takes.undo sound).imp ?_
        rintro ⟨freed, h''⟩ ⟨rfl, same⟩
        exact ⟨rfl, fun _ => same, fun misses =>
          absurd hcfits (Nat.not_le.mpr (misses c hc hcfree))⟩
  case neg =>
    have misses : Heap.Misses l (Heap.rounded size) := fun b hb hfree =>
      Nat.not_le.mp fun hfits => hfit ⟨b, hb, hfree, hfits⟩
    by_cases range : s.heap.Admits size
    case neg =>
      refine (sound.alloc_cases (PageSource.keeps_true τ _) trivial size).imp ?_
      rintro ⟨q?, h', p'⟩ ⟨-, l', allocates⟩ q hq
      cases allocates with
      | outOfRange => cases hq
      | fits admitted | ungrown admitted | short admitted | grown admitted =>
          exact absurd admitted range
    case pos =>
      refine (sound.alloc_of_misses range misses).imp ?_
      rintro ⟨q?, h', p'⟩ hgrown q hq
      obtain ⟨h₁, l₁, b, l', hreturns, grows, takes, rfl⟩ := hgrown q hq
      have hstep := (sound.growthStep_cases (Heap.rounded size)).2.2 grows.room
      have hlayout := grows.layout_eq_grownBlocks sound (Nat.le_trans (by decide) hstep)
      refine (takes.undo grows.evolves.sound).imp ?_
      rintro ⟨freed, h''⟩ ⟨rfl, same⟩
      refine ⟨rfl, fun fit => absurd fit hfit, fun _ => ⟨h₁, hreturns, same, ?_⟩⟩
      rw [← hlayout]
      exact grows.evolves.sound.represents.walk_spelled

end TinyKernel
