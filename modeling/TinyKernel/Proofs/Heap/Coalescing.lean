import TinyKernel.Proofs.Heap.Represents

/-!
# Merging is complete

Freeing a block and growing the heap leave at most three free blocks in a row before they merge.
Merging does not depend on that: from any layout whose free list is in order, with runs of free
neighbours as long as they may be, it leaves one block for each run.

## What is load-bearing

`Heap.Spells` asks for no more than a chain of blocks and a sorted list that is linked both ways.  Any
word but zero may say that a block is free, and the links in the header of an allocated block may be
whatever an earlier list has left there.

`MergesRuns` says what becomes of a layout without saying how: it takes a run of free blocks that
ends where no free block follows, and puts one block that covers the run in its place.

* `Heap.Spells` — the headers of a heap spell a layout
* `MergesRuns` — each run of free blocks becomes one block
* `Heap.coalesce_merges_every_run` — what merging does
-/

namespace TinyKernel

/-! ## Runs of free blocks -/

/-- **Each maximal run of free blocks becomes one free block**, and the allocated blocks stay.  The
block begins where the run does and ends where the run does. -/
inductive MergesRuns : List Block → List Block → Prop
  | nil : MergesRuns [] []
  | used {b : Block} {l l' : List Block} (hb : b.free = false) (rest : MergesRuns l l') :
      MergesRuns (b :: l) (b :: l')
  | run {run l l' : List Block} {b : Block} (hrun : run ≠ []) (free : ∀ c ∈ run, c.free = true)
      (maximal : ∀ c ∈ l.head?, c.free = false) (hb : b.free = true)
      (covers : Tiles b.start.toNat run b.stop) (rest : MergesRuns l l') :
      MergesRuns (run ++ l) (b :: l')

/-- A free block in front of a layout becomes part of the run that the layout begins with. -/
theorem MergesRuns.absorbInto {b : Block} {n : Nat} {l l' : List Block} (hb : b.free = true)
    (t : Tiles b.stop l n) (bound : n ≤ noBlock.toNat) (merges : MergesRuns l l') :
    MergesRuns (b :: l) (absorbInto b l') := by
  have single : Tiles b.start.toNat [b] b.stop := ⟨rfl, rfl⟩
  have free : ∀ c ∈ [b], c.free = true := fun c hc => List.mem_singleton.mp hc ▸ hb
  cases merges with
  | nil => exact .run (List.cons_ne_nil b []) free (fun c hc => nomatch hc) hb single .nil
  | @used c l l' hc rest =>
      rw [absorbInto_cons, if_neg (by simp [hc])]
      refine .run (List.cons_ne_nil b []) free (fun d hd => ?_) hb single (.used hc rest)
      obtain rfl : c = d := by simpa using hd
      exact hc
  | @run run l l' m hrun hfree maximal hm covers rest =>
      obtain ⟨k, hrunTiles, hl⟩ := tiles_append.mp t
      obtain ⟨c, run, rfl⟩ := List.exists_cons_of_ne_nil hrun
      -- the run begins where `b` ends, and so does the block that stands for it
      have touch : b.stop = m.start.toNat := hrunTiles.1.symm.trans covers.1
      have hk : k = m.stop := hrunTiles.stop_unique (touch ▸ covers)
      rw [absorbInto_cons, if_pos ⟨hb, hm⟩]
      refine .run (List.cons_ne_nil b (c :: run))
        (List.forall_mem_cons.mpr ⟨hb, hfree⟩) maximal hb ⟨rfl, ?_⟩ rest
      rw [Block.stop_merge touch (Nat.le_trans (hk ▸ hl.le) bound), touch]
      exact covers

/-- **Merging free neighbours merges the runs.** -/
theorem mergesRuns_coalesced {i n : Nat} {l : List Block} (t : Tiles i l n)
    (bound : n ≤ noBlock.toNat) : MergesRuns l (coalesced l) := by
  induction l generalizing i with
  | nil => exact .nil
  | cons b l ih =>
      have hrest := ih t.2
      cases hb : b.free with
      | false =>
          rw [coalesced_cons_of_used hb]
          exact .used hb hrest
      | true => exact hrest.absorbInto hb t.2 bound

namespace Heap

/-! ## Headers that spell a layout -/

/-- **The headers of a heap spell a layout.**  The blocks cover the heap, which is smaller than
4 GiB; each header says the size of its block, and anything but zero if that is free; the free list
is the row of the free blocks in address order, linked both ways. -/
structure Spells (h : Heap) (l : List Block) : Prop where
  bound : h.size ≤ noBlock.toNat
  tiles : Tiles 0 l h.size
  size_eq : ∀ b ∈ l, (h.headerAt b.start).size = b.size
  free_iff : ∀ b ∈ l, (h.headerAt b.start).isFree ≠ 0 ↔ b.free = true
  head_eq : h.freeHead = firstLink noBlock (freeBlocks l)
  links : ∃ flags, Chained h flags noBlock noBlock (freeBlocks l)

variable {h h' : Heap} {l : List Block}

/-- What represents a layout spells it. -/
theorem Represents.spells (r : Represents h l) : Spells h l where
  bound := r.bound
  tiles := r.tiles
  size_eq _ hb := r.headerAt_size hb
  free_iff b hb := by
    rw [r.headerAt_isFree hb]
    cases b.free <;> decide
  head_eq := r.freeList.head
  links := ⟨_, linked_iff_chained.mp r.freeList.linked⟩

namespace Spells

/-- Where the free blocks are chained, their headers say so. -/
theorem flag_ne_zero {flags : UInt32 → UInt32} (s : Spells h l)
    (ht : Chained h flags noBlock noBlock (freeBlocks l)) {b : Block} (hb : b ∈ freeBlocks l) :
    flags b.start ≠ 0 := by
  obtain ⟨next, prev, hread⟩ := ht.exists_header hb
  obtain ⟨hmem, hfree⟩ := mem_freeBlocks.mp hb
  have hflag := (s.free_iff b hmem).mpr hfree
  rwa [headerAt_of_readHeader hread] at hflag

/-- **Merging spells the merged layout**, and rewrites headers of free blocks only. -/
theorem coalesce_ok (s : Spells h l) :
    ∃ h', h.coalesce = .ok h' ∧ Spells h' (coalesced l)
      ∧ Rewrites ((freeBlocks l).map Block.start) h h' := by
  obtain ⟨flags, ht⟩ := s.links
  have hfuel := ht.length_lt_chainFuel (s.tiles.pairwise.sublist (freeBlocks_sublist l))
  obtain ⟨h', hcoalesce, hhead, ht', hw⟩ :=
    coalesceFrom_layout (Nat.le_of_lt hfuel) s.bound s.tiles ht
  rw [← s.head_eq] at hcoalesce
  -- a block of the merged layout is an allocated one, which is as before, or is chained
  have hused : ∀ b ∈ coalesced l, b.free = false →
      b ∈ l ∧ h'.headerAt b.start = h.headerAt b.start := by
    intro b hb hfree
    have hb := (mem_coalesced_of_used hfree).mp hb
    refine ⟨hb, hw.headerAt_eq fun o ho => ?_⟩
    obtain ⟨c, hc, rfl⟩ := List.mem_map.mp ho
    obtain ⟨hc, hcfree⟩ := mem_freeBlocks.mp hc
    refine headersApart_of_ne s.tiles hc hb ?_
    rintro rfl
    simp [hfree] at hcfree
  have hfree : ∀ b ∈ coalesced l, b.free = true →
      (h'.headerAt b.start).size = b.size ∧ (h'.headerAt b.start).isFree ≠ 0 := by
    intro b hb hfree
    have hmem := mem_freeBlocks.mpr ⟨hb, hfree⟩
    obtain ⟨next, prev, hread⟩ := ht'.exists_header hmem
    rw [freeBlocks_coalesced s.bound l.length (Nat.le_refl _) s.tiles] at hmem
    obtain ⟨c, hc, hstart⟩ := List.mem_map.mp (joined_start_subset _ (List.mem_map_of_mem hmem))
    rw [headerAt_of_readHeader hread, ← hstart]
    exact ⟨rfl, s.flag_ne_zero ht hc⟩
  refine ⟨h', hcoalesce, ⟨?_, ?_, fun b hb => ?_, fun b hb => ?_, ?_, flags, ht'⟩, hw⟩
  · rw [hw.size_eq]
    exact s.bound
  · rw [hw.size_eq]
    exact s.tiles.coalesced s.bound
  · cases hb' : b.free with
    | true => exact (hfree b hb hb').1
    | false =>
        obtain ⟨hmem, heq⟩ := hused b hb hb'
        rw [heq]
        exact s.size_eq b hmem
  · cases hb' : b.free with
    | true => exact iff_of_true (hfree b hb hb').2 rfl
    | false =>
        obtain ⟨hmem, heq⟩ := hused b hb hb'
        rw [heq, s.free_iff b hmem, hb']
  · rw [hhead, s.head_eq, firstLink_freeBlocks_coalesced s.bound s.tiles]

/-- **There is nothing left to merge** in a layout without free neighbours. -/
theorem coalesce_eq_self (s : Spells h l) (apart : (freeBlocks l).IsChain Block.Apart) :
    h.coalesce = .ok h := by
  obtain ⟨flags, ht⟩ := s.links
  have hfuel := ht.length_lt_chainFuel (s.tiles.pairwise.sublist (freeBlocks_sublist l))
  rw [coalesce, s.head_eq]
  exact ht.coalesceFrom_of_apart (Nat.le_of_lt hfuel) s.bound apart fun c hc =>
    (s.tiles.mem (mem_freeBlocks.mp hc).1).2

end Spells

/-- No byte of an allocated block is a byte of the header of a free one. -/
theorem Rewrites.byte_of_used {i n j : Nat} (w : Rewrites ((freeBlocks l).map Block.start) h h')
    (t : Tiles i l n) {b : Block} (hb : b ∈ l) (hused : b.free = false)
    (hj : b.start.toNat ≤ j) (hj' : j < b.stop) : h'.arena.byte j = h.arena.byte j := by
  refine w.byte_eq j fun o ho => ?_
  obtain ⟨c, hc, rfl⟩ := List.mem_map.mp ho
  obtain ⟨hc, hfree⟩ := mem_freeBlocks.mp hc
  obtain ⟨front, rear, rfl⟩ := List.append_of_mem hb
  obtain ⟨-, -, hfront, hrear, -⟩ := before_of_sorted t.pairwise
  have hstop := c.start_add_header_le_stop
  rcases List.mem_append.mp hc with hc | hc
  · exact Or.inr (Nat.le_trans hstop (Nat.le_trans (hfront c hc) hj))
  · rcases List.mem_cons.mp hc with rfl | hc
    · simp [hused] at hfree
    · exact Or.inl (Nat.lt_of_lt_of_le hj' (hrear c hc))

/-- **Merging is complete**, whatever runs of free blocks a heap has.  It ends without a fault and
leaves a layout in which each maximal run has become one free block that covers the same bytes, the
free list is again in address order and linked both ways, and no two neighbours are free.  An allocated
block is there as before, with every byte of its header and its payload.  Merging once more changes
nothing at all. -/
theorem coalesce_merges_every_run {h : Heap} {l : List Block} (s : h.Spells l) :
    ∃ h' l', h.coalesce = .ok h' ∧ h'.Spells l' ∧ MergesRuns l l' ∧ l'.IsChain NotBothFree
      ∧ (∀ b ∈ l, b.free = false → b ∈ l' ∧
          ∀ i, b.start.toNat ≤ i → i < b.stop → h'.arena.byte i = h.arena.byte i)
      ∧ h'.size = h.size ∧ h'.start = h.start ∧ h'.maxSize = h.maxSize
      ∧ h'.coalesce = .ok h' := by
  obtain ⟨h', hcoalesce, s', hw⟩ := s.coalesce_ok
  have hagain : h'.coalesce = .ok h' := by
    refine s'.coalesce_eq_self ?_
    rw [freeBlocks_coalesced s.bound l.length (Nat.le_refl _) s.tiles]
    exact isChain_joined (freeBlocks l)
  refine ⟨h', coalesced l, hcoalesce, s', mergesRuns_coalesced s.tiles s.bound,
    isChain_coalesced l, fun b hb hused => ⟨(mem_coalesced_of_used hused).mpr hb, ?_⟩,
    hw.size_eq, hw.start_eq, hw.maxSize_eq, hagain⟩
  intro i hi hi'
  exact hw.byte_of_used s.tiles hb hused hi hi'

/-- A layout that no call leaves behind: three free blocks in a row, an allocated one and another
free one. -/
def threeInARow : List Block :=
  [⟨0, 8, true⟩, ⟨24, 16, true⟩, ⟨56, 8, true⟩, ⟨80, 8, false⟩, ⟨104, 8, true⟩]

/-- A heap with that layout.  One of the free blocks says that it is free by a 7, and the allocated
block still has the links of a list that it once was in. -/
def runOfThree : Heap :=
  let empty : Heap :=
    { arena := Arena.empty.grow 128, start := ⟨4096⟩, maxSize := 4096, freeHead := 0 }
  ((((empty.putHeader 0 ⟨8, 1, 24, noBlock⟩).putHeader 24 ⟨16, 7, 56, 0⟩).putHeader 56
    ⟨8, 1, 104, 24⟩).putHeader 80 ⟨8, 0, 104, 56⟩).putHeader 104 ⟨8, 1, noBlock, 56⟩

theorem size_runOfThree : runOfThree.size = 128 := by decide +kernel

theorem headerAt_runOfThree :
    runOfThree.headerAt 0 = ⟨8, 1, 24, noBlock⟩ ∧ runOfThree.headerAt 24 = ⟨16, 7, 56, 0⟩
      ∧ runOfThree.headerAt 56 = ⟨8, 1, 104, 24⟩ ∧ runOfThree.headerAt 80 = ⟨8, 0, 104, 56⟩
      ∧ runOfThree.headerAt 104 = ⟨8, 1, noBlock, 56⟩ := by
  decide +kernel

theorem spells_runOfThree : runOfThree.Spells threeInARow := by
  obtain ⟨h0, h24, h56, h80, h104⟩ := headerAt_runOfThree
  have hread : ∀ o : UInt32, o.toNat + headerSize ≤ 128 →
      runOfThree.readHeader o = .ok (runOfThree.headerAt o) := fun o ho =>
    readHeader_of_le (size_runOfThree ▸ ho)
  constructor
  case bound => exact size_runOfThree ▸ (by decide)
  case tiles => exact size_runOfThree ▸ ⟨rfl, rfl, rfl, rfl, rfl, rfl⟩
  case size_eq => simp [threeInARow, h0, h24, h56, h80, h104]
  case free_iff => simp [threeInARow, h0, h24, h56, h80, h104]
  case head_eq => rfl
  case links =>
    refine ⟨fun o => if o = 24 then 7 else 1, ?_, ?_, ?_, ?_, trivial⟩
    · exact (hread 0 (by decide)).trans (congrArg Except.ok h0)
    · exact (hread 24 (by decide)).trans (congrArg Except.ok h24)
    · exact (hread 56 (by decide)).trans (congrArg Except.ok h56)
    · exact (hread 104 (by decide)).trans (congrArg Except.ok h104)

theorem runOfThree_merges :
    runOfThree.Spells threeInARow
      ∧ ∃ h' l', runOfThree.coalesce = .ok h' ∧ h'.Spells l' ∧ MergesRuns threeInARow l'
        ∧ ⟨80, 8, false⟩ ∈ l' ∧ h'.coalesce = .ok h' := by
  obtain ⟨h', l', hcoalesce, hspells, hruns, -, hused, -, -, -, hagain⟩ :=
    coalesce_merges_every_run spells_runOfThree
  exact ⟨spells_runOfThree, h', l', hcoalesce, hspells, hruns,
    (hused ⟨80, 8, false⟩ (by decide) rfl).1, hagain⟩

end Heap

end TinyKernel
