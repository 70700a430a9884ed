import TinyKernel.Proofs.Heap.Session

/-!
# Well-formed heaps

What a heap looks like to somebody who walks over its headers: the blocks cover it, the links spell
the free blocks, and the statistics add up.  None of this mentions layouts; it is what soundness
means for the headers that the code itself reads.

* `Heap.WellFormed` — the shape of the headers
* `HeapSession.execute_wellFormed` — it is there after every session
-/

namespace TinyKernel

/-- The blocks of a walk that are free, in address order. -/
def freeEntries (blocks : List (UInt32 × BlockHeader)) : List (UInt32 × BlockHeader) :=
  blocks.filter fun (_, header) => header.isFree != 0

/-- The blocks of a walk that are allocated, in address order. -/
def usedEntries (blocks : List (UInt32 × BlockHeader)) : List (UInt32 × BlockHeader) :=
  blocks.filter fun (_, header) => header.isFree == 0

/-- The bytes of payload of some blocks of a walk, headers not counted. -/
def entryBytes (blocks : List (UInt32 × BlockHeader)) : Nat :=
  (blocks.map fun (_, header) => header.size.toNat).sum

/-- The link that leads to some blocks of a walk: to the first of them, or nowhere if there is none. -/
def linkTo : List (UInt32 × BlockHeader) → UInt32
  | [] => noBlock
  | (start, _) :: _ => start

/-- **Blocks cover a range**: the first one begins where the range does, and each of the others behind
the header and the payload of the one before it.  The last one ends where the range does, so that no
byte is left over. -/
def Covers : Nat → List (UInt32 × BlockHeader) → Nat → Prop
  | i, [], n => i = n
  | i, (start, header) :: rest, n =>
    start.toNat = i ∧ Covers (i + headerSize + header.size.toNat) rest n

/-- **Blocks are threaded**: `next` leads from each to the one behind it and from the last one nowhere;
`prev` leads back, from the first one to `prev`.  For a whole free list both ends are `noBlock`. -/
def Threaded : UInt32 → List (UInt32 × BlockHeader) → Prop
  | _, [] => True
  | prev, (start, header) :: rest =>
    header.prev = prev ∧ header.next = linkTo rest ∧ Threaded start rest

namespace Heap

/-- **A well-formed heap**, by the blocks that its walk visits.  Everything is said of headers that can
be read, without layouts or other notions of the proofs; this is what a debugger could check of a heap
in memory. -/
structure WellFormed (h : Heap) (blocks : List (UInt32 × BlockHeader)) : Prop where
  walk_eq : h.walk = .ok blocks
  covers : Covers 0 blocks h.size
  sizes : ∀ b ∈ blocks, 0 < b.2.size.toNat ∧ heapAlign ∣ b.2.size.toNat
  /-- The free list begins with the first free block, and it is the free blocks. -/
  head_eq : h.freeHead = linkTo (freeEntries blocks)
  threaded : Threaded noBlock (freeEntries blocks)
  ascending : (freeEntries blocks).Pairwise fun a b => a.1 < b.1
  unlinked : ∀ b ∈ blocks, b.2.isFree = 0 → b.2.next = noBlock ∧ b.2.prev = noBlock
  /-- No two neighbours are both free, so that none of them could have been merged. -/
  apart : blocks.IsChain fun a b => ¬ (a.2.isFree ≠ 0 ∧ b.2.isFree ≠ 0)
  stats_eq : ∃ stats, h.stats = .ok stats ∧ stats.total = h.size
    ∧ stats.free = entryBytes (freeEntries blocks)
    ∧ stats.used = entryBytes (usedEntries blocks) + headerSize * blocks.length
    ∧ stats.used + stats.free = stats.total

/-- A block as the walk shows it: its offset and its header. -/
def entry (h : Heap) (b : Block) : UInt32 × BlockHeader := (b.start, h.headerAt b.start)

variable {h : Heap} {l : List Block}

theorem linkTo_map_entry (h : Heap) (l : List Block) :
    linkTo (l.map h.entry) = firstLink noBlock l := by
  cases l <;> rfl

theorem covers_of_tiles {i n : Nat} (t : Tiles i l n)
    (sizes : ∀ b ∈ l, (h.headerAt b.start).size = b.size) : Covers i (l.map h.entry) n := by
  induction l generalizing i with
  | nil => exact t
  | cons b l ih =>
      obtain ⟨rfl, hl⟩ := t
      refine ⟨rfl, ?_⟩
      rw [sizes b List.mem_cons_self]
      exact ih hl fun c hc => sizes c (List.mem_cons_of_mem _ hc)

theorem threaded_of_linked {prev : UInt32} (hl : Linked h prev noBlock l) :
    Threaded prev (l.map h.entry) := by
  induction l generalizing prev with
  | nil => trivial
  | cons b l ih =>
      obtain ⟨hb, hrest⟩ := hl
      have hheader := headerAt_of_readHeader hb
      refine ⟨?_, ?_, ih hrest⟩
      · rw [hheader]
      · rw [hheader, linkTo_map_entry]

namespace Represents

theorem freeEntries_eq (r : Represents h l) :
    freeEntries (l.map h.entry) = (freeBlocks l).map h.entry := r.filter_walk

theorem usedEntries_eq (r : Represents h l) :
    usedEntries (l.map h.entry) = (usedBlocks l).map h.entry := by
  rw [usedEntries, List.filter_map, usedBlocks]
  congr 1
  refine List.filter_congr fun b hb => ?_
  simp only [Function.comp_apply, entry, r.headerAt_isFree hb]
  cases b.free <;> rfl

theorem entryBytes_eq (r : Represents h l) {l' : List Block} (sub : l' ⊆ l) :
    entryBytes (l'.map h.entry) = payloadBytes l' := by
  rw [entryBytes, payloadBytes, List.map_map]
  congr 1
  refine List.map_congr_left fun b hb => ?_
  simp only [Function.comp_apply, entry, r.headerAt_size (sub hb)]

end Represents

/-- **A sound heap is well formed.**  Each clause is the layout's, read off the headers. -/
theorem Sound.wellFormed (s : Sound h l) : h.WellFormed (l.map h.entry) := by
  have r := s.represents
  have htotal := r.tiles.total
  have hfree := r.entryBytes_eq (freeBlocks_sublist l).subset
  have hsub : usedBlocks l ⊆ l := List.filter_sublist.subset
  have hused := r.entryBytes_eq hsub
  have hsorted := r.tiles.pairwise.sublist (freeBlocks_sublist l)
  refine ⟨r.walk_ok, ?_, ?_, ?_, ?_, ?_, ?_, ?_, ?_⟩
  · exact covers_of_tiles r.tiles fun b hb => r.headerAt_size hb
  · intro e he
    obtain ⟨b, hb, rfl⟩ := List.mem_map.mp he
    have hregular := s.regular b hb
    rwa [Block.Regular, ← r.headerAt_size hb] at hregular
  · rw [r.freeEntries_eq, linkTo_map_entry]
    exact r.freeList.head
  · rw [r.freeEntries_eq]
    exact threaded_of_linked r.freeList.linked
  · rw [r.freeEntries_eq, List.pairwise_map]
    refine hsorted.imp fun {a b} hab => ?_
    have hlast := Nat.le_trans a.start_add_header_le_stop hab
    simp only [headerSize] at hlast
    exact UInt32.lt_iff_toNat_lt.mpr (by simp only [entry]; omega)
  · intro e he hisFree
    obtain ⟨b, hb, rfl⟩ := List.mem_map.mp he
    have hbused : b.free = false := by
      simp only [entry, r.headerAt_isFree hb] at hisFree
      cases hfree : b.free with
      | false => rfl
      | true => simp [hfree] at hisFree
    simp only [entry, headerAt_of_readHeader (r.used b hb hbused)]
    exact ⟨rfl, rfl⟩
  · rw [List.isChain_map]
    refine List.IsChain.imp_of_mem_imp ?_ s.apart
    rintro a b ha hb hab ⟨hafree, hbfree⟩
    simp only [entry, r.headerAt_isFree ha, r.headerAt_isFree hb] at hafree hbfree
    exact hab ⟨by simpa using hafree, by simpa using hbfree⟩
  · refine ⟨_, r.stats_ok, rfl, ?_, ?_, ?_⟩
    · rw [r.freeEntries_eq, hfree]
    · rw [r.usedEntries_eq, hused, List.length_map]
    · simp only
      omega

end Heap

/-- **Heaps stay well formed.**  Whatever a client asks of a heap, whatever pages are refused and
whatever the client writes into its payloads, the headers keep their shape; and the run ends in a
fault only if the page source raises one. -/
theorem HeapSession.execute_wellFormed {σ : Type} [PageSource σ] (start : VirtAddr)
    (initialSize maxSize : Nat) (pages : σ) (calls : List HeapCall) :
    (HeapSession.execute start initialSize maxSize pages calls).Meets (PageSource.Raises σ)
      fun s? => ∀ s ∈ s?, ∃ blocks, s.heap.WellFormed blocks := by
  refine (execute_meets (PageSource.keeps_true σ _) trivial calls).imp fun s? hs s hmem => ?_
  obtain ⟨l, sound, -⟩ := (hs s hmem).layout
  exact ⟨_, sound.wellFormed⟩

end TinyKernel
