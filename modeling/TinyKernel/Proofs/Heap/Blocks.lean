import TinyKernel.Heap.Allocation
import TinyKernel.Proofs.Heap.Represents

/-!
# Taking blocks and giving them back

The three changes that the operations of the heap are made of: a free block is taken and what is not
needed of it is split off, a block is given back and merges with its neighbours, and new bytes at the
end become a block that merges with the last one.

## What is load-bearing

While a block is split its two parts are both outside the free list for a moment.  The part that
stays free is linked first (`Heap.Detached.split`), so that only the part that is handed out is left
without a meaningful header.

* `Heap.Represents.take_ok`, `Heap.Represents.giveBack_ok`, `Heap.Represents.extend_ok` — the three
  changes
* `Heap.Represents.of_headers` — clients write into payloads
-/

namespace TinyKernel.Heap

variable {h h' : Heap} {l pre post : List Block} {b : Block}

/-- **What lies outside the headers is no business of a layout.**  A client that writes into its own
payload leaves every header alone, and so a heap is still the same layout afterwards. -/
theorem Represents.of_headers (r : Represents h l) (size_eq : h'.size = h.size)
    (head_eq : h'.freeHead = h.freeHead)
    (header_eq : ∀ c ∈ l, h'.readHeader c.start = h.readHeader c.start) : Represents h' l where
  bound := size_eq ▸ r.bound
  tiles := size_eq ▸ r.tiles
  freeList :=
    ⟨head_eq.trans r.freeList.head,
      r.freeList.linked.congr fun c hc => header_eq c (mem_freeBlocks.mp hc).1⟩
  used c hc hused := (header_eq c hc).trans (r.used c hc hused)

/-! ## Taking a block -/

/-- **Splitting.**  The rest of a detached block becomes a free block of its own.  Its header is
written into what was payload, and so no other header is overwritten; it is linked by the same
insertion as a block that is freed. -/
theorem Detached.split {part rest : Block} (d : Detached h pre b post)
    (t : Tiles 0 (pre ++ part :: rest :: post) h.size) (hrest : rest.free = true) :
    ∃ h₁ h₂, h.writeHeader rest.start (.unlinked rest.size) = .ok h₁
      ∧ h₁.insertFree rest.start = .ok h₂ ∧ Detached h₂ pre part (rest :: post)
      ∧ Rewrites ((pre ++ part :: rest :: post).map Block.start) h h₂ := by
  have t' : Tiles 0 ((pre ++ [part]) ++ rest :: post) h.size := by simpa using t
  have hrestle : rest.start.toNat + headerSize ≤ h.size :=
    Nat.le_trans rest.start_add_header_le_stop (t.mem (by simp)).2
  obtain ⟨h₁, hwrite, hread₁, hhead₁, hw₁⟩ := writeHeader_ok (.unlinked rest.size) hrestle
  have hothers : ∀ c ∈ pre ++ post, h₁.readHeader c.start = h.readHeader c.start := by
    intro c hc
    refine hw₁.readHeader_eq fun o ho => ?_
    obtain rfl := List.mem_singleton.mp ho
    refine headersApart_of_tiles t' ?_
    simp only [List.mem_append] at hc ⊢
    exact hc.imp_left Or.inl
  have hfree₁ : HasFreeList h₁ (freeBlocks pre ++ freeBlocks post) := by
    rw [← freeBlocks_append]
    exact ⟨hhead₁.trans d.freeList.head,
      d.freeList.linked.congr fun c hc => hothers c (mem_freeBlocks.mp hc).1⟩
  have hsorted : (freeBlocks pre ++ rest :: freeBlocks post).Pairwise Block.Before := by
    refine t.pairwise.sublist ((freeBlocks_sublist pre).append ?_)
    exact ((freeBlocks_sublist post).cons_cons rest).cons part
  obtain ⟨h₂, hinsert, hfree₂, hw₂⟩ :=
    insertFree_ok (by rw [hw₁.size_eq]; exact d.bound) hfree₁ hsorted hread₁ rfl
  have hblocks : freeBlocks pre ++ rest :: freeBlocks post = freeBlocks (pre ++ rest :: post) := by
    rw [freeBlocks_append, freeBlocks_cons_of_free hrest]
  rw [hblocks] at hfree₂ hw₂
  have hsub : (freeBlocks (pre ++ rest :: post)).map Block.start
      ⊆ (freeBlocks (pre ++ part :: rest :: post)).map Block.start := by
    refine List.map_subset _ fun c hc => ?_
    simp only [mem_freeBlocks, List.mem_append, List.mem_cons] at hc ⊢
    tauto
  refine ⟨h₁, h₂, hwrite, hinsert, ⟨?_, ?_, hfree₂, fun c hc hused => ?_⟩, ?_⟩
  · rw [hw₂.size_eq, hw₁.size_eq]
    exact d.bound
  · rw [hw₂.size_eq, hw₁.size_eq]
    exact t
  · have hc' : c ∈ pre ++ post := by
      simp only [List.mem_append, List.mem_cons] at hc ⊢
      rcases hc with hc | rfl | hc
      · exact Or.inl hc
      · simp [hused] at hrest
      · exact Or.inr hc
    rw [hw₂.readHeader_of_used t hsub ?_ hused, hothers c hc']
    · exact d.used c hc' hused
    · simp only [List.mem_append, List.mem_cons] at hc ⊢
      tauto
  · refine (hw₁.mono ?_).trans (hw₂.mono (List.Subset.trans hsub (freeBlocks_start_subset _)))
    simp

/-- **A free block is taken**: it is carved, and the part handed out is allocated.  That the block was
on the free list follows from the representation, so there is nothing to assume but that it is free and
large enough. -/
theorem Represents.take_ok (r : Represents h (pre ++ b :: post)) (hb : b.free = true) {size : Nat}
    (hsize : size ≤ b.size.toNat) :
    ∃ h', h.take b.start size = .ok h' ∧ Represents h' (pre ++ b.carve size ++ post)
      ∧ Rewrites ((pre ++ b.carve size ++ post).map Block.start) h h' := by
  have hlt := b.size.toNat_lt
  have hstop := r.stop_le (b := b) (by simp)
  have hbound := r.bound
  obtain ⟨next, prev, hread⟩ := r.exists_header (b := b) (by simp)
  obtain ⟨h₁, hunlink, d₁, hread₁, hw₁⟩ := r.unlink_ok hb
  have hneeded : Checked.add64 size headerSize = .ok (size + headerSize) :=
    Checked.add64_of_lt (by simp only [headerSize]; omega)
  have hleast : Checked.add64 (size + headerSize) minSplitRemainder
      = .ok (size + headerSize + minSplitRemainder) :=
    Checked.add64_of_lt (by simp only [headerSize, minSplitRemainder]; omega)
  have htiles : Tiles 0 (pre ++ b.carve size ++ post) h.size := by
    have htiles : Tiles 0 (pre ++ [b] ++ post) h.size := by simpa using r.tiles
    exact htiles.replace fun ht hle => tiles_carve size ht (Nat.le_trans hle hbound)
  simp only [Block.stop, Block.first, headerSize, noBlock, UInt32.reduceToNat] at hstop hbound
  unfold take Block.carve at *
  simp only [Checked.bind_of_ok hunlink, Checked.bind_of_ok (hread₁.trans hread),
    Checked.bind_of_ok hneeded, Checked.bind_of_ok hleast]
  by_cases hsplit : size + headerSize + minSplitRemainder < b.size.toNat
  case pos =>
    simp only [if_pos hsplit] at htiles ⊢
    simp only [headerSize, minSplitRemainder] at hsplit
    have hclaimed : (UInt32.ofNat (size + headerSize)).toNat = size + 16 := by
      rw [UInt32.toNat_ofNat']
      simp only [headerSize]
      omega
    have hremainder := Checked.add32_of_lt (a := b.start) (b := UInt32.ofNat (size + headerSize))
      (by omega)
    have hleft := Checked.sub32_of_le (a := b.size) (b := UInt32.ofNat (size + headerSize))
      (by rw [UInt32.le_iff_toNat_le]; omega)
    simp only [Checked.bind_of_ok hremainder, Checked.bind_of_ok hleft]
    simp only [List.append_assoc, List.cons_append, List.nil_append] at htiles ⊢
    rw [← hw₁.size_eq] at htiles
    obtain ⟨h₂, h₃, hwrite₂, hinsert, d₃, hw₃⟩ := d₁.split htiles rfl
    obtain ⟨h₄, hwrite₄, r₄, hw₄⟩ := d₃.settle rfl
    simp only [Checked.bind_of_ok hwrite₂, Checked.bind_of_ok hinsert]
    refine ⟨h₄, hwrite₄, r₄, (hw₁.mono ?_).trans (hw₃.trans (hw₄.mono ?_))⟩
    · intro o ho
      simp only [List.map_append, List.map_cons, List.mem_append, List.mem_cons] at ho ⊢
      tauto
    · simp
  case neg =>
    simp only [if_neg hsplit] at htiles ⊢
    simp only [List.append_assoc, List.cons_append, List.nil_append] at htiles ⊢
    rw [← hw₁.size_eq] at htiles
    have d₂ := d₁.of_tiles htiles
    obtain ⟨h₂, hwrite, r₂, hw₂⟩ := d₂.settle rfl
    refine ⟨h₂, hwrite, r₂, (hw₁.mono ?_).trans (hw₂.mono ?_)⟩
    · intro o ho
      simp only [List.map_append, List.map_cons, List.mem_append, List.mem_cons] at ho ⊢
      tauto
    · simp

/-! ## Giving a block back -/

/-- Freeing one block leaves the others of a row as they are, since no other block begins at the same
offset. -/
theorem freeing_of_tiles {i n : Nat} (t : Tiles i (pre ++ b :: post) n) :
    freeing [b.start] (pre ++ b :: post) = pre ++ { b with free := true } :: post := by
  have hother : ∀ l' ⊆ pre ++ post, freeing [b.start] l' = l' := by
    intro l' hsub
    refine (List.map_congr_left fun c hc => ?_).trans (List.map_id l')
    have hne : c.start ≠ b.start := by
      intro heq
      have hapart := headersApart_of_tiles t (hsub hc)
      simp only [heq, HeadersApart, headerSize] at hapart
      omega
    simp [hne]
  rw [freeing, List.map_append, List.map_cons, ← freeing, ← freeing,
    hother pre (List.subset_append_left pre post), hother post (List.subset_append_right pre post)]
  simp

/-- **An allocated block is given back** and merges with its free neighbours.  Between the two steps
the layout may have two free neighbours, and so is represented only after the second. -/
theorem Represents.giveBack_ok (r : Represents h l) (hmem : b ∈ l) (hb : b.free = false) :
    ∃ h₁ h', h.insertFree b.start = .ok h₁ ∧ h₁.coalesce = .ok h'
      ∧ Represents h' (coalesced (freeing [b.start] l)) ∧ Rewrites (l.map Block.start) h h' := by
  have hread := r.used b hmem hb
  have htiles : Tiles 0 (freeing [b.start] l) h.size := tiles_freeing.mpr r.tiles
  obtain ⟨pre, post, rfl⟩ := List.append_of_mem hmem
  rw [freeing_of_tiles r.tiles] at htiles ⊢
  obtain ⟨h₁, hinsert, r₁, hw₁⟩ := ((r.detach hb).of_tiles htiles).link rfl hread rfl
  obtain ⟨h₂, hcoalesce, r₂, hw₂⟩ := r₁.coalesce_ok
  refine ⟨h₁, h₂, hinsert, hcoalesce, r₂, (hw₁.mono ?_).trans (hw₂.mono ?_)⟩ <;> simp

/-! ## New bytes -/

/-- The block that new bytes at the end of a heap become.  Its header takes up the first sixteen of
them. -/
def newBlock (h : Heap) (step : Nat) : Block where
  start := UInt32.ofNat h.size
  size := UInt32.ofNat (step - headerSize)
  free := true

theorem newBlock_toNat {step : Nat} (bound : h.size + step ≤ noBlock.toNat)
    (hstep : headerSize ≤ step) :
    (h.newBlock step).start.toNat = h.size ∧ (h.newBlock step).size.toNat = step - headerSize
      ∧ (h.newBlock step).stop = h.size + step := by
  simp only [headerSize, noBlock, UInt32.reduceToNat] at bound hstep
  simp only [newBlock, Block.stop, Block.first, headerSize, UInt32.toNat_ofNat']
  omega

/-- Growing leaves what was there alone: a header that lies in the old heap reads as before. -/
theorem readHeader_grow {step : Nat} {o : UInt32} (ho : o.toNat + headerSize ≤ h.size) :
    { h with arena := h.arena.grow step }.readHeader o = h.readHeader o := by
  have hsize : { h with arena := h.arena.grow step }.size = h.size + step := Arena.size_grow ..
  rw [readHeader_of_le ho, readHeader_of_le (by omega)]
  exact congrArg Except.ok (headerAt_congr fun _ _ _ => Arena.byte_grow ..)

/-- **New bytes become a free block** and merge with the last block if that one is free.  The new block
is written, linked and merged like one that was allocated, so that growing is freeing a block that was
not there. -/
theorem Represents.extend_ok (r : Represents h l) {step : Nat} (hstep : headerSize ≤ step)
    (bound : h.size + step ≤ noBlock.toNat) :
    ∃ h₁ h₂ h', { h with arena := h.arena.grow step }.writeHeader (UInt32.ofNat h.size)
        (.unlinked (UInt32.ofNat (step - headerSize))) = .ok h₁
      ∧ h₁.insertFree (UInt32.ofNat h.size) = .ok h₂ ∧ h₂.coalesce = .ok h'
      ∧ Represents h' (coalesced (l ++ [h.newBlock step]))
      ∧ Rewrites ((l ++ [h.newBlock step]).map Block.start)
          { h with arena := h.arena.grow step } h' := by
  obtain ⟨hnew, -, hnewstop⟩ := newBlock_toNat bound hstep
  have hsize : { h with arena := h.arena.grow step }.size = h.size + step := Arena.size_grow ..
  have htiles : Tiles 0 (l ++ [h.newBlock step]) (h.size + step) :=
    tiles_append.mpr ⟨h.size, r.tiles, hnew, hnewstop⟩
  have hsplit : ∀ c ∈ l, HeadersApart (h.newBlock step).start c.start := fun c hc =>
    headersApart_of_tiles htiles (by simpa using hc)
  obtain ⟨h₁, hwrite, hread₁, hhead₁, hw₁⟩ :=
    writeHeader_ok (h := { h with arena := h.arena.grow step })
      (o := (h.newBlock step).start) (.unlinked (h.newBlock step).size) (by omega)
  have hothers : ∀ c ∈ l, h₁.readHeader c.start = h.readHeader c.start := by
    intro c hc
    rw [hw₁.readHeader_eq fun o ho => by
      obtain rfl := List.mem_singleton.mp ho
      exact hsplit c hc]
    exact readHeader_grow (Nat.le_trans c.start_add_header_le_stop (r.stop_le hc))
  have d₁ : Detached h₁ l (h.newBlock step) [] := by
    refine ⟨?_, ?_, ⟨?_, ?_⟩, fun c hc hused => ?_⟩
    · rw [hw₁.size_eq, hsize]
      exact bound
    · rw [hw₁.size_eq, hsize]
      exact htiles
    · rw [hhead₁, List.append_nil]
      exact r.freeList.head
    · rw [List.append_nil]
      exact r.freeList.linked.congr fun c hc => hothers c (mem_freeBlocks.mp hc).1
    · rw [List.append_nil] at hc
      rw [hothers c hc]
      exact r.used c hc hused
  obtain ⟨h₂, hinsert, r₂, hw₂⟩ := d₁.link rfl hread₁ rfl
  obtain ⟨h₃, hcoalesce, r₃, hw₃⟩ := r₂.coalesce_ok
  exact ⟨h₁, h₂, h₃, hwrite, hinsert, hcoalesce, r₃, (hw₁.mono (by simp)).trans (hw₂.trans hw₃)⟩

end TinyKernel.Heap
