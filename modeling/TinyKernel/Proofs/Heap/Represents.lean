import TinyKernel.Proofs.Heap.Joining

/-!
# The layout of a heap

A heap represents a layout if walking its headers visits the blocks of the layout, its free list is
the row of the free blocks, and allocated blocks are linked to nothing.  The layout then determines
every header.

Between two steps of an operation one block may stand outside the free list with a header that says
neither; it is *detached*, and all that is promised of the heap concerns the other blocks.

* `Heap.Represents`, `Heap.Detached` — what the bytes stand for
* `Heap.Represents.walk_ok`, `Heap.Represents.blockOf_ok` — the walk, and the block of a pointer
* `Heap.Detached.link`, `Heap.Detached.settle`, `Heap.Represents.detach` — putting a block in and
  taking one out
* `Heap.Represents.coalesce_ok` — merging free neighbours
-/

namespace TinyKernel

/-- The header of an allocated block.  Its links are overwritten when it is handed out. -/
def BlockHeader.used (size : UInt32) : BlockHeader :=
  { size, isFree := 0, next := noBlock, prev := noBlock }

namespace Heap

/-- **The bytes of a heap stand for a layout**: the blocks tile the heap, the free ones are the free
list in address order, and the headers of the others are as allocation leaves them.  The bound keeps
offsets in a word, with one to spare for the link that leads nowhere. -/
structure Represents (h : Heap) (l : List Block) : Prop where
  bound : h.size ≤ noBlock.toNat
  tiles : Tiles 0 l h.size
  freeList : HasFreeList h (freeBlocks l)
  used : ∀ b ∈ l, b.free = false → h.readHeader b.start = .ok (.used b.size)

/-- **The bytes stand for a layout but for one block**, which is in no list and whose header is left
open.  Operations go through such a state between taking a block out of the list and giving it its new
header, or the other way round. -/
structure Detached (h : Heap) (pre : List Block) (b : Block) (post : List Block) : Prop where
  bound : h.size ≤ noBlock.toNat
  tiles : Tiles 0 (pre ++ b :: post) h.size
  freeList : HasFreeList h (freeBlocks (pre ++ post))
  used : ∀ c ∈ pre ++ post, c.free = false → h.readHeader c.start = .ok (.used c.size)

variable {h h' : Heap} {l pre post : List Block} {b : Block}

/-- The headers of the blocks of a row are apart. -/
theorem headersApart_of_tiles {i n : Nat} (t : Tiles i (pre ++ b :: post) n) {c : Block}
    (hc : c ∈ pre ++ post) : HeadersApart b.start c.start := by
  obtain ⟨-, -, hpre, hpost, -⟩ := before_of_sorted t.pairwise
  rcases List.mem_append.mp hc with hc | hc
  · exact (hpre c hc).headersApart.symm
  · exact (hpost c hc).headersApart

theorem headersApart_of_ne {i n : Nat} (t : Tiles i l n) {c : Block} (hb : b ∈ l) (hc : c ∈ l)
    (hne : c ≠ b) : HeadersApart b.start c.start := by
  obtain ⟨front, rear, rfl⟩ := List.append_of_mem hb
  refine headersApart_of_tiles t ?_
  simp only [List.mem_append, List.mem_cons] at hc ⊢
  exact hc.imp_right fun h => h.resolve_left hne

/-- Rewriting the headers of free blocks leaves the headers of allocated blocks alone. -/
theorem Rewrites.readHeader_of_used {i n : Nat} {os : List UInt32} (w : Rewrites os h h')
    (t : Tiles i l n) (sub : os ⊆ (freeBlocks l).map Block.start) (hb : b ∈ l)
    (hused : b.free = false) : h'.readHeader b.start = h.readHeader b.start := by
  refine w.readHeader_eq fun o ho => ?_
  obtain ⟨c, hc, rfl⟩ := List.mem_map.mp (sub ho)
  obtain ⟨hc, hfree⟩ := mem_freeBlocks.mp hc
  refine headersApart_of_ne t hc hb ?_
  rintro rfl
  simp [hused] at hfree

/-- No byte of a payload is a byte of a header, be it of the same block or of another. -/
theorem outside_header_of_contains {i n j : Nat} (t : Tiles i l n) {c : Block} (hb : b ∈ l)
    (hj : b.Contains j) (hc : c ∈ l) : j < c.start.toNat ∨ c.start.toNat + headerSize ≤ j := by
  obtain ⟨front, rear, rfl⟩ := List.append_of_mem hb
  obtain ⟨-, -, hfront, hrear, -⟩ := before_of_sorted t.pairwise
  obtain ⟨hfirst, hstop⟩ := hj
  simp only [List.mem_append, List.mem_cons] at hc
  rcases hc with hc | rfl | hc
  · have hb := hfront c hc
    have := c.start_add_header_le_stop
    simp only [Block.Before, Block.first] at hb hfirst
    exact Or.inr (by omega)
  · exact Or.inr hfirst
  · have hb : b.stop ≤ c.start.toNat := hrear c hc
    exact Or.inl (by omega)

/-- **Replacing headers leaves every payload as it is**, of free blocks and of allocated ones.  All
operations on the free list are covered by this. -/
theorem Rewrites.byte_of_contains {i n j : Nat} {os : List UInt32} (r : Rewrites os h h')
    (sub : os ⊆ l.map Block.start) (t : Tiles i l n) (hb : b ∈ l) (hj : b.Contains j) :
    h'.arena.byte j = h.arena.byte j := by
  refine r.byte_eq j fun o ho => ?_
  obtain ⟨c, hc, rfl⟩ := List.mem_map.mp (sub ho)
  exact outside_header_of_contains t hb hj hc

/-! ## Reading a layout -/

namespace Represents

/-- Each block's header says its size and whether it is free.  What its links are depends on the blocks
around it. -/
theorem exists_header (r : Represents h l) (hb : b ∈ l) :
    ∃ next prev, h.readHeader b.start = .ok ⟨b.size, if b.free then 1 else 0, next, prev⟩ := by
  cases hfree : b.free with
  | false => exact ⟨_, _, r.used b hb hfree⟩
  | true => exact r.freeList.linked.exists_header (mem_freeBlocks.mpr ⟨hb, hfree⟩)

theorem headerAt_size (r : Represents h l) (hb : b ∈ l) : (h.headerAt b.start).size = b.size := by
  obtain ⟨next, prev, hread⟩ := r.exists_header hb
  rw [headerAt_of_readHeader hread]

theorem headerAt_isFree (r : Represents h l) (hb : b ∈ l) :
    (h.headerAt b.start).isFree = if b.free then 1 else 0 := by
  obtain ⟨next, prev, hread⟩ := r.exists_header hb
  rw [headerAt_of_readHeader hread]

theorem stop_le (r : Represents h l) (hb : b ∈ l) : b.stop ≤ h.size := (r.tiles.mem hb).2

end Represents

/-- The walk visits the blocks of a row in turn.  Only the sizes in the headers have to be right for
that. -/
theorem walkFrom_ok (bound : h.size ≤ noBlock.toNat) {i : Nat} (t : Tiles i l h.size)
    (sizes : ∀ b ∈ l, (h.headerAt b.start).size = b.size) :
    h.walkFrom i = .ok (l.map fun b => (b.start, h.headerAt b.start)) := by
  induction l generalizing i with
  | nil =>
      have hi : i = h.size := t
      rw [walkFrom, if_neg (by simp only [headerSize]; omega)]
      rfl
  | cons b l ih =>
      obtain ⟨rfl, hl⟩ := t
      have hlast := b.start_add_header_le_stop
      have hstop := hl.le
      have hsize := sizes b List.mem_cons_self
      have hrest := ih hl fun c hc => sizes c (List.mem_cons_of_mem _ hc)
      have hnext : b.start.toNat + (headerSize + (h.headerAt b.start).size.toNat) = b.stop := by
        rw [hsize, ← Nat.add_assoc]
        rfl
      simp only [noBlock, UInt32.reduceToNat] at bound
      rw [walkFrom, if_pos (by omega)]
      simp only [UInt32.ofNat_toNat, readHeader_of_le (Nat.le_trans hlast hstop), Checked.ok_bind,
        hnext, hrest]
      rw [if_pos (by simp only [headerSize]; omega)]
      rfl

namespace Represents

/-- **The walk of a heap visits its layout**, and shows each block with its header. -/
theorem walk_ok (r : Represents h l) :
    h.walk = .ok (l.map fun b => (b.start, h.headerAt b.start)) :=
  walkFrom_ok r.bound r.tiles fun _ hb => r.headerAt_size hb

/-- **A pointer belongs to the block whose payload it is the start of**, and to no other.  Payloads
must not be empty, since a pointer at the end of the heap is refused without a look. -/
theorem blockOf_ok (r : Represents h l) (sizes : ∀ b ∈ l, 0 < b.size.toNat) (p : Pointer) :
    h.blockOf p = .ok ((l.find? fun b => p.offset = b.first).map Block.start) := by
  unfold blockOf
  have hbound := r.bound
  simp only [noBlock, UInt32.reduceToNat] at hbound
  by_cases hout : p.offset < headerSize ∨ h.size ≤ p.offset
  · rw [if_pos hout, List.find?_eq_none.mpr]
    · rfl
    · intro b hb heq
      have heq : p.offset = b.first := of_decide_eq_true heq
      have hpos := sizes b hb
      have hstop := r.stop_le hb
      simp only [Block.stop, Block.first, headerSize] at heq hstop hout
      omega
  · simp only [if_neg hout, r.walk_ok, Checked.ok_bind, List.any_map]
    simp only [headerSize, not_or, Int.not_lt, Int.not_le] at hout
    -- the offset looked for is the start of a block exactly if the pointer is its payload's
    have hiff : ∀ b : Block, b.start = UInt32.ofNat (p.offset.toNat - headerSize)
        ↔ p.offset = b.first := by
      intro b
      have hlt := b.start.toNat_lt
      rw [← UInt32.toNat_inj, UInt32.toNat_ofNat']
      simp only [Block.first, headerSize]
      omega
    cases hfind : l.find? fun b => p.offset = b.first with
    | none =>
        have hnone := List.find?_eq_none.mp hfind
        rw [if_neg]
        · rfl
        · intro hany
          obtain ⟨b, hb, heq⟩ := List.any_eq_true.mp hany
          exact hnone b hb (decide_eq_true ((hiff b).mp (eq_of_beq heq)))
    | some b =>
        have hpred := List.find?_some hfind
        have heq := (hiff b).mpr (of_decide_eq_true hpred)
        rw [if_pos, ← heq]
        · rfl
        · exact List.any_eq_true.mpr ⟨b, List.mem_of_find?_eq_some hfind, beq_iff_eq.mpr heq⟩

/-- The blocks that count as free in the walk are the free blocks of the layout. -/
theorem filter_walk (r : Represents h l) :
    (l.map fun b => (b.start, h.headerAt b.start)).filter (fun (_, block) => block.isFree != 0)
      = (freeBlocks l).map fun b => (b.start, h.headerAt b.start) := by
  rw [List.filter_map, freeBlocks]
  congr 1
  refine List.filter_congr fun b hb => ?_
  simp only [Function.comp_apply, r.headerAt_isFree hb]
  cases b.free <;> rfl

/-- Counting one block.  The three sums have to fit into their words. -/
theorem count_ok (r : Represents h l) (hb : b ∈ l) (stats : HeapStats)
    (hblocks : stats.blocks + 1 < 0x1_0000_0000_0000_0000)
    (hfree : stats.free + payloadBytes (freeBlocks [b]) < 0x1_0000_0000_0000_0000)
    (hfreeBlocks : stats.freeBlocks + (freeBlocks [b]).length < 0x1_0000_0000_0000_0000) :
    stats.count (h.headerAt b.start) = .ok { stats with
      free := stats.free + payloadBytes (freeBlocks [b])
      blocks := stats.blocks + 1
      freeBlocks := stats.freeBlocks + (freeBlocks [b]).length } := by
  have hone : Checked.add64 stats.blocks 1 = .ok (stats.blocks + 1) := Checked.add64_of_lt hblocks
  rw [HeapStats.count, r.headerAt_size hb, r.headerAt_isFree hb, Checked.bind_of_ok hone]
  cases hfreeb : b.free with
  | false =>
      rw [freeBlocks_cons_of_used hfreeb]
      rfl
  | true =>
      rw [freeBlocks_cons_of_free hfreeb] at hfree hfreeBlocks ⊢
      have hbytes : Checked.add64 stats.free b.size.toNat = .ok (stats.free + b.size.toNat) :=
        Checked.add64_of_lt hfree
      have hmore : Checked.add64 stats.freeBlocks 1 = .ok (stats.freeBlocks + 1) :=
        Checked.add64_of_lt hfreeBlocks
      rw [if_pos rfl, if_pos (by decide), Checked.bind_of_ok hbytes, Checked.bind_of_ok hmore]
      rfl

/-- **Counting blocks.**  No count leaves its word as long as the sums fit into it, which they do in a
heap below 4 GiB. -/
theorem countAll_ok (r : Represents h l) {l' : List Block} (hsub : l' ⊆ l) (stats : HeapStats)
    (hblocks : stats.blocks + l'.length < 0x1_0000_0000_0000_0000)
    (hfree : stats.free + payloadBytes (freeBlocks l') < 0x1_0000_0000_0000_0000)
    (hfreeBlocks : stats.freeBlocks + (freeBlocks l').length < 0x1_0000_0000_0000_0000) :
    (l'.map fun b => (b.start, h.headerAt b.start)).foldlM
      (fun (stats : HeapStats) (_, block) => stats.count block) stats = .ok { stats with
        free := stats.free + payloadBytes (freeBlocks l')
        blocks := stats.blocks + l'.length
        freeBlocks := stats.freeBlocks + (freeBlocks l').length } := by
  induction l' generalizing stats with
  | nil => rfl
  | cons b l' ih =>
      obtain ⟨hb, hsub⟩ := List.cons_subset.mp hsub
      have hsplit : freeBlocks (b :: l') = freeBlocks [b] ++ freeBlocks l' :=
        freeBlocks_append [b] l'
      rw [List.length_cons] at hblocks ⊢
      rw [hsplit] at hfree hfreeBlocks ⊢
      rw [payloadBytes_append, ← Nat.add_assoc] at hfree ⊢
      rw [List.length_append, ← Nat.add_assoc] at hfreeBlocks ⊢
      have hcount := r.count_ok hb stats (by omega) (by omega) (by omega)
      rw [List.map_cons, List.foldlM_cons, Checked.bind_of_ok hcount]
      refine (ih hsub _ ?_ hfree hfreeBlocks).trans ?_
      · show stats.blocks + 1 + l'.length < _
        omega
      · simp only [Nat.add_assoc, Nat.add_comm 1]

/-- **How much of the heap is in use**, read off the layout.  Headers are among the used bytes. -/
theorem stats_ok (r : Represents h l) :
    h.stats = .ok {
      total := h.size
      used := payloadBytes (usedBlocks l) + headerSize * l.length
      free := payloadBytes (freeBlocks l)
      blocks := l.length
      freeBlocks := (freeBlocks l).length } := by
  have htotal := r.tiles.total
  have hbound := r.bound
  have hlength := (freeBlocks_sublist l).length_le
  simp only [noBlock, UInt32.reduceToNat, headerSize] at hbound htotal
  have hcount := r.countAll_ok (List.Subset.refl l)
    { total := h.size, used := 0, free := 0, blocks := 0, freeBlocks := 0 }
    (by dsimp only; omega) (by dsimp only; omega) (by dsimp only; omega)
  have hused : h.size - payloadBytes (freeBlocks l)
      = payloadBytes (usedBlocks l) + headerSize * l.length := by
    simp only [headerSize]
    omega
  unfold stats
  rw [r.walk_ok, Checked.ok_bind, Checked.bind_of_ok hcount]
  simp only [Nat.zero_add, Checked.sub64_of_le (show payloadBytes (freeBlocks l) ≤ h.size by omega),
    Checked.ok_bind, hused]
  rfl

end Represents

/-! ## Putting a block in and taking one out -/

/-- The free blocks around a block, with the block between them, are in address order.  So there is one
place in the list for it. -/
theorem freeBlocks_sorted {i n : Nat} (t : Tiles i (pre ++ b :: post) n) :
    (freeBlocks pre ++ b :: freeBlocks post).Pairwise Block.Before :=
  t.pairwise.sublist ((freeBlocks_sublist pre).append ((freeBlocks_sublist post).cons_cons b))

/-- Headers at which free blocks of a part begin are headers of blocks of that part. -/
theorem freeBlocks_start_subset (l : List Block) :
    (freeBlocks l).map Block.start ⊆ l.map Block.start :=
  List.map_subset _ (freeBlocks_sublist l).subset

/-- An allocated block stands in no list, and so is detached as it is. -/
theorem Represents.detach (r : Represents h (pre ++ b :: post)) (hb : b.free = false) :
    Detached h pre b post where
  bound := r.bound
  tiles := r.tiles
  freeList := by
    have hfree := r.freeList
    rw [freeBlocks_append, freeBlocks_cons_of_used hb, ← freeBlocks_append] at hfree
    exact hfree
  used c hc := r.used c (by simp only [List.mem_append, List.mem_cons] at hc ⊢; tauto)

/-- **A free block that is unlinked is detached.**  Its own header is as before, which still says how
large it is. -/
theorem Represents.unlink_ok (r : Represents h (pre ++ b :: post)) (hb : b.free = true) :
    ∃ h', h.unlink b.start = .ok h' ∧ Detached h' pre b post
      ∧ h'.readHeader b.start = h.readHeader b.start
      ∧ Rewrites ((pre ++ post).map Block.start) h h' := by
  have hfree := r.freeList
  rw [freeBlocks_append, freeBlocks_cons_of_free hb] at hfree
  obtain ⟨h', hunlink, hfree', hw⟩ := Heap.unlink_ok r.bound hfree (freeBlocks_sorted r.tiles)
  rw [← freeBlocks_append] at hfree' hw
  have hsub := freeBlocks_start_subset (pre ++ post)
  refine ⟨h', hunlink, ⟨?_, ?_, hfree', fun c hc hused => ?_⟩, ?_, hw.mono hsub⟩
  · rw [hw.size_eq]
    exact r.bound
  · rw [hw.size_eq]
    exact r.tiles
  · have hc' : c ∈ pre ++ b :: post := by simp only [List.mem_append, List.mem_cons] at hc ⊢; tauto
    rw [hw.readHeader_of_used r.tiles ?_ hc' hused]
    · exact r.used c hc' hused
    · rw [freeBlocks_append, freeBlocks_append, freeBlocks_cons_of_free hb]
      exact List.map_subset _ (by simp)
  · refine hw.readHeader_eq fun o ho => ?_
    obtain ⟨c, hc, rfl⟩ := List.mem_map.mp (hsub ho)
    exact (headersApart_of_tiles r.tiles hc).symm

namespace Detached

/-- Only the place of a detached block matters, so that its size may be changed: this is how a block is
cut in two. -/
theorem of_tiles (d : Detached h pre b post) {b' : Block}
    (t : Tiles 0 (pre ++ b' :: post) h.size) : Detached h pre b' post :=
  ⟨d.bound, t, d.freeList, d.used⟩

theorem header_le (d : Detached h pre b post) : b.start.toNat + headerSize ≤ h.size := by
  have hmem := d.tiles.mem (b := b) (by simp)
  exact Nat.le_trans b.start_add_header_le_stop hmem.2

/-- **A detached block becomes an allocated one** when its header says so. -/
theorem settle (d : Detached h pre b post) (hb : b.free = false) :
    ∃ h', h.writeHeader b.start (.used b.size) = .ok h' ∧ Represents h' (pre ++ b :: post)
      ∧ Rewrites [b.start] h h' := by
  obtain ⟨h', hwrite, hread, hhead, hw⟩ := writeHeader_ok (.used b.size) d.header_le
  have hothers : ∀ c ∈ pre ++ post, h'.readHeader c.start = h.readHeader c.start :=
    fun c hc => hw.readHeader_eq fun o ho => by
      obtain rfl := List.mem_singleton.mp ho
      exact headersApart_of_tiles d.tiles hc
  refine ⟨h', hwrite, ⟨?_, ?_, ⟨?_, ?_⟩, fun c hc hused => ?_⟩, hw⟩
  · rw [hw.size_eq]
    exact d.bound
  · rw [hw.size_eq]
    exact d.tiles
  · rw [freeBlocks_append, freeBlocks_cons_of_used hb, ← freeBlocks_append, hhead]
    exact d.freeList.head
  · rw [freeBlocks_append, freeBlocks_cons_of_used hb, ← freeBlocks_append]
    exact d.freeList.linked.congr fun c hc => hothers c (mem_freeBlocks.mp hc).1
  · simp only [List.mem_append, List.mem_cons] at hc
    rcases hc with hc | rfl | hc
    · rw [hothers c (by simp [hc])]
      exact d.used c (by simp [hc]) hused
    · exact hread
    · rw [hothers c (by simp [hc])]
      exact d.used c (by simp [hc]) hused

/-- **A detached block becomes a free one** when it is inserted.  Its header need only have the size;
the rest is written by the insertion. -/
theorem link (d : Detached h pre b post) (hb : b.free = true) {header : BlockHeader}
    (hread : h.readHeader b.start = .ok header) (hsize : header.size = b.size) :
    ∃ h', h.insertFree b.start = .ok h' ∧ Represents h' (pre ++ b :: post)
      ∧ Rewrites ((pre ++ b :: post).map Block.start) h h' := by
  have hfree := d.freeList
  rw [freeBlocks_append] at hfree
  obtain ⟨h', hinsert, hfree', hw⟩ :=
    insertFree_ok d.bound hfree (freeBlocks_sorted d.tiles) hread hsize
  have hblocks : freeBlocks pre ++ b :: freeBlocks post = freeBlocks (pre ++ b :: post) := by
    rw [freeBlocks_append, freeBlocks_cons_of_free hb]
  rw [hblocks] at hfree' hw
  refine ⟨h', hinsert, ⟨?_, ?_, hfree', fun c hc hused => ?_⟩,
    hw.mono (freeBlocks_start_subset _)⟩
  · rw [hw.size_eq]
    exact d.bound
  · rw [hw.size_eq]
    exact d.tiles
  · rw [hw.readHeader_of_used d.tiles (List.Subset.refl _) hc hused]
    refine d.used c ?_ hused
    simp only [List.mem_append, List.mem_cons] at hc ⊢
    rcases hc with hc | rfl | hc
    · exact Or.inl hc
    · simp [hused] at hb
    · exact Or.inr hc

end Detached

/-! ## Merging free neighbours -/

namespace Represents

/-- Merging along the free list, for every bound on the steps that is no less than the number of free
blocks. -/
theorem coalesceFrom_ok (r : Represents h l) {fuel : Nat} (hfuel : (freeBlocks l).length ≤ fuel) :
    ∃ h', coalesceFrom fuel h h.freeHead = .ok h' ∧ Represents h' (coalesced l)
      ∧ Rewrites (l.map Block.start) h h' := by
  obtain ⟨h', hcoalesce, hhead, hlinked, hw⟩ :=
    coalesceFrom_layout hfuel r.bound r.tiles (linked_iff_chained.mp r.freeList.linked)
  refine ⟨h', r.freeList.head ▸ hcoalesce, ⟨?_, ?_, ⟨?_, ?_⟩, fun b hb hused => ?_⟩,
    hw.mono (freeBlocks_start_subset l)⟩
  · rw [hw.size_eq]
    exact r.bound
  · rw [hw.size_eq]
    exact r.tiles.coalesced r.bound
  · rw [hhead, r.freeList.head, firstLink_freeBlocks_coalesced r.bound r.tiles]
  · exact linked_iff_chained.mpr hlinked
  · have hb := (mem_coalesced_of_used hused).mp hb
    rw [hw.readHeader_of_used r.tiles (List.Subset.refl _) hb hused]
    exact r.used b hb hused

/-- **Coalescing merges all free neighbours** and does nothing else: no block moves, and no payload of
an allocated block changes. -/
theorem coalesce_ok (r : Represents h l) :
    ∃ h', h.coalesce = .ok h' ∧ Represents h' (coalesced l)
      ∧ Rewrites (l.map Block.start) h h' :=
  r.coalesceFrom_ok (Nat.le_of_lt (r.freeList.linked.length_lt_chainFuel
    (r.tiles.pairwise.sublist (freeBlocks_sublist l))))

end Represents

end Heap

end TinyKernel
