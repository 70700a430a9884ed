import Mathlib.Data.Finset.Basic
import Mathlib.Data.Finset.Dedup
import TinyKernel.Proofs.Heap.Blocks

/-!
# Sound heaps

A heap is sound for a layout if it represents the layout, every payload is a positive multiple of
eight bytes, no two free blocks are neighbours, and the heap lies in a range of whole pages.  Each
show that the operations are made of leads from a sound heap to a sound heap.

## What is load-bearing

Clients know allocated blocks only.  For them a change of the layout is a change of the finite set
`allocated`: nothing, one block more, or one block less.  `Heap.Evolves` adds that the payloads of
the blocks that are allocated before and after the change are the same bytes.

* `Heap.Sound` — the invariant of a heap
* `Heap.Evolves` — what every operation does to a sound heap
* `Heap.Sound.take_ok`, `Heap.Sound.giveBack_ok`, `Heap.Sound.extend_ok` — the three changes
-/

namespace TinyKernel

namespace Block

/-- The payload of a block has a size that payloads have: some bytes, and a multiple of eight. -/
def Regular (b : Block) : Prop := 0 < b.size.toNat ∧ heapAlign ∣ b.size.toNat

/-- The part of a block that allocation hands out.  It is what is asked for, or all of the block. -/
def taken (b : Block) (size : Nat) : Block :=
  if size + headerSize + minSplitRemainder < b.size.toNat then ⟨b.start, UInt32.ofNat size, false⟩
  else { b with free := false }

@[simp]
theorem start_taken (b : Block) (size : Nat) : (b.taken size).start = b.start := by
  unfold taken
  split <;> rfl

@[simp]
theorem free_taken (b : Block) (size : Nat) : (b.taken size).free = false := by
  unfold taken
  split <;> rfl

theorem size_taken {b : Block} {size : Nat} (h : size ≤ b.size.toNat) :
    size ≤ (b.taken size).size.toNat := by
  have hlt := b.size.toNat_lt
  unfold taken
  split
  · rw [UInt32.toNat_ofNat', Nat.mod_eq_of_lt (by omega)]
  · exact h

/-- Carving hands out one part, and what else there is stays free. -/
theorem carve_eq (b : Block) (size : Nat) :
    ∃ rest, b.carve size = b.taken size :: rest ∧ (∀ c ∈ rest, c.free = true) ∧ rest.length ≤ 1 := by
  unfold carve taken
  split
  · exact ⟨[_], rfl, by simp, by simp⟩
  · exact ⟨[], rfl, by simp, by simp⟩

theorem regular_carve {b : Block} {size : Nat} (hb : b.Regular) (hpos : 0 < size)
    (halign : heapAlign ∣ size) : ∀ c ∈ b.carve size, c.Regular := by
  obtain ⟨hbpos, hbalign⟩ := hb
  have hlt := b.size.toNat_lt
  unfold carve
  split
  case isFalse => simpa [Regular] using ⟨hbpos, hbalign⟩
  case isTrue hsplit =>
    simp only [headerSize, minSplitRemainder, heapAlign] at *
    have hclaimed : (UInt32.ofNat (size + 16)).toNat = size + 16 := by
      rw [UInt32.toNat_ofNat', Nat.mod_eq_of_lt (by omega)]
    have hleft : (b.size - UInt32.ofNat (size + 16)).toNat = b.size.toNat - (size + 16) := by
      rw [UInt32.toNat_sub_of_le _ _ (by rw [UInt32.le_iff_toNat_le, hclaimed]; omega), hclaimed]
    simp only [List.mem_cons, List.not_mem_nil, or_false, forall_eq_or_imp, forall_eq, Regular,
      heapAlign, hleft, UInt32.toNat_ofNat', Nat.mod_eq_of_lt (show size < 2 ^ 32 by omega)]
    omega

end Block

/-- Merging free neighbours keeps payloads multiples of eight bytes, as headers are one, too. -/
theorem regular_coalesced {i n : Nat} {l : List Block} (t : Tiles i l n)
    (bound : n ≤ noBlock.toNat) (h : ∀ b ∈ l, b.Regular) : ∀ b ∈ coalesced l, b.Regular := by
  induction l generalizing i with
  | nil => simp
  | cons b l ih =>
      obtain ⟨rfl, hl⟩ := t
      have hb := h b List.mem_cons_self
      have hrest := ih hl fun c hc => h c (List.mem_cons_of_mem _ hc)
      have htiles := hl.coalesced bound
      rw [coalesced_cons]
      cases hc : coalesced l with
      | nil => simpa using hb
      | cons n l' =>
          rw [hc] at hrest htiles
          rw [absorbInto_cons]
          split
          case isFalse => exact List.forall_mem_cons.mpr ⟨hb, hrest⟩
          case isTrue =>
            obtain ⟨hn, hl'⟩ := List.forall_mem_cons.mp hrest
            refine List.forall_mem_cons.mpr ⟨?_, hl'⟩
            -- the sum of the sizes fits, because the merged block ends where `n` did
            have hstop := Nat.le_trans htiles.2.le bound
            have hstart : n.start.toNat = b.stop := htiles.1
            simp only [Block.stop, Block.first, headerSize, noBlock, UInt32.reduceToNat] at hstop hstart
            simp only [Block.Regular, Block.merge, headerSize, heapAlign, UInt32.toNat_add,
              UInt32.reduceOfNat, UInt32.reduceToNat] at hb hn ⊢
            omega

/-- Carving a free block does not bring free blocks together.  The rest is free, but the part in front
of it is not, and the block behind was not free already. -/
theorem isChain_carve {pre post : List Block} {b : Block} (size : Nat) (hb : b.free = true)
    (h : (pre ++ b :: post).IsChain NotBothFree) :
    (pre ++ b.carve size ++ post).IsChain NotBothFree := by
  have hpost := (List.isChain_append.mp h).2.1
  have hhead : ∀ c ∈ post.head?, c.free = false := by
    intro c hc
    have hbc := hpost.rel_head? hc
    simp only [NotBothFree, hb, true_and, Bool.not_eq_true] at hbc
    exact hbc
  obtain ⟨rest, hcarve, hfree, hlen⟩ := b.carve_eq size
  rw [hcarve, List.append_assoc, List.cons_append]
  refine List.isChain_append.mpr ⟨(List.isChain_append.mp h).1, ?_, fun a _ c hc hboth => ?_⟩
  · have hrest : (rest ++ post).IsChain NotBothFree := by
      cases rest with
      | nil => exact hpost.tail
      | cons r rest =>
          obtain rfl : rest = [] := List.eq_nil_of_length_eq_zero (by simpa using hlen)
          refine List.isChain_cons.mpr ⟨fun c hc hboth => ?_, hpost.tail⟩
          simp [hhead c hc] at hboth
    exact List.isChain_cons.mpr ⟨fun c _ hboth => by simp at hboth, hrest⟩
  · obtain rfl : b.taken size = c := by simpa using hc
    simp at hboth

/-! ## Allocated blocks -/

/-- **The allocated blocks of a layout**, as a finite set.  Operations are described by what they do to
this set, which does not depend on how free blocks are split or merged. -/
def allocated (l : List Block) : Finset Block := (usedBlocks l).toFinset

theorem mem_allocated {b : Block} {l : List Block} :
    b ∈ allocated l ↔ b ∈ l ∧ b.free = false := by
  simp [allocated, usedBlocks]

theorem allocated_coalesced (l : List Block) : allocated (coalesced l) = allocated l := by
  ext b
  simp only [mem_allocated]
  exact and_congr_left mem_coalesced_of_used

theorem allocated_append_free {l : List Block} {b : Block} (hb : b.free = true) :
    allocated (l ++ [b]) = allocated l := by
  ext c
  simp only [mem_allocated, List.mem_append, List.mem_singleton]
  refine and_congr_left fun hc => or_iff_left ?_
  rintro rfl
  simp [hc] at hb

theorem allocated_carve {pre post : List Block} {b : Block} (size : Nat) (hb : b.free = true) :
    allocated (pre ++ b.carve size ++ post)
      = insert (b.taken size) (allocated (pre ++ b :: post)) := by
  obtain ⟨rest, hcarve, hfree, -⟩ := b.carve_eq size
  ext c
  rw [hcarve, Finset.mem_insert, mem_allocated, mem_allocated]
  simp only [List.mem_append, List.mem_cons]
  constructor
  · rintro ⟨(hc | rfl | hc) | hc, hused⟩
    · exact Or.inr ⟨Or.inl hc, hused⟩
    · exact Or.inl rfl
    · simp [hfree c hc] at hused
    · exact Or.inr ⟨Or.inr (Or.inr hc), hused⟩
  · rintro (rfl | ⟨hc | rfl | hc, hused⟩)
    · simp
    · exact ⟨Or.inl (Or.inl hc), hused⟩
    · simp [hused] at hb
    · exact ⟨Or.inr hc, hused⟩

/-- Freeing blocks takes them out of the allocated ones, and nothing else. -/
theorem mem_allocated_freeing {starts : List UInt32} {l : List Block} {b : Block} :
    b ∈ allocated (freeing starts l) ↔ b ∈ allocated l ∧ b.start ∉ starts := by
  simp only [mem_allocated, freeing, List.mem_map]
  constructor
  · rintro ⟨⟨⟨start, size, free⟩, hc, rfl⟩, hused⟩
    obtain ⟨rfl, hstart⟩ : free = false ∧ start ∉ starts := by simpa using hused
    simp only [hstart, decide_false, Bool.or_false]
    exact ⟨⟨hc, trivial⟩, not_false⟩
  · rintro ⟨⟨hb, hused⟩, hstart⟩
    refine ⟨⟨b, hb, ?_⟩, hused⟩
    rw [decide_eq_false hstart, Bool.or_false]

namespace Heap

/-! ## Soundness -/

/-- **The range of a heap**: whole pages, which end below the top of the address space.  It is checked
when a heap is set up, and every operation keeps it. -/
structure InRange (h : Heap) : Prop where
  aligned : h.start.pageOffset = 0
  pages : pageSize ∣ h.size
  maxPages : pageSize ∣ h.maxSize
  pageSize_le : pageSize ≤ h.size
  size_le : h.size ≤ h.maxSize
  maxSize_lt : h.maxSize < noBlock.toNat
  fits : h.start.val.toNat + h.maxSize < 2 ^ 32

/-- **The invariant of a heap**, for the layout that it represents.  To the bytes and their range it
adds that payloads have proper sizes, and that there are no free neighbours; the latter is what merging
is for, and what lets freeing undo allocation. -/
structure Sound (h : Heap) (l : List Block) : Prop where
  represents : Represents h l
  range : InRange h
  regular : ∀ b ∈ l, b.Regular
  apart : l.IsChain NotBothFree

/-- The payloads of blocks that stay allocated are the same bytes before and after. -/
def KeepsPayloads (h h' : Heap) (l l' : List Block) : Prop :=
  ∀ b ∈ allocated l, b ∈ allocated l' → ∀ i, b.Contains i → h'.arena.byte i = h.arena.byte i

/-- **What every operation does to a sound heap.**  It leaves a sound heap at the same place, no
smaller, with the bytes of all blocks that stay allocated.  Operations differ in what they do to the
allocated blocks, and that is said beside this. -/
structure Evolves (h : Heap) (l : List Block) (h' : Heap) (l' : List Block) : Prop where
  sound : Sound h' l'
  start_eq : h'.start = h.start
  maxSize_eq : h'.maxSize = h.maxSize
  size_le : h.size ≤ h'.size
  payloads : KeepsPayloads h h' l l'

variable {h h' h'' : Heap} {l l' l'' pre post : List Block} {b : Block}

theorem Sound.evolves_refl (s : Sound h l) : Evolves h l h l where
  sound := s
  start_eq := rfl
  maxSize_eq := rfl
  size_le := Nat.le_refl _
  payloads _ _ _ _ _ := rfl

theorem Evolves.trans (e : Evolves h l h' l') (e' : Evolves h' l' h'' l'')
    (stays : allocated l ∩ allocated l'' ⊆ allocated l') : Evolves h l h'' l'' where
  sound := e'.sound
  start_eq := e'.start_eq.trans e.start_eq
  maxSize_eq := e'.maxSize_eq.trans e.maxSize_eq
  size_le := Nat.le_trans e.size_le e'.size_le
  payloads b hb hb'' i hi := by
    have hb' := stays (Finset.mem_inter.mpr ⟨hb, hb''⟩)
    rw [e'.payloads b hb' hb'' i hi, e.payloads b hb hb' i hi]

theorem InRange.of_rewrites {os : List UInt32} (range : InRange h) (w : Rewrites os h h') :
    InRange h' where
  aligned := w.start_eq ▸ range.aligned
  pages := w.size_eq ▸ range.pages
  maxPages := w.maxSize_eq ▸ range.maxPages
  pageSize_le := w.size_eq ▸ range.pageSize_le
  size_le := by
    rw [w.size_eq, w.maxSize_eq]
    exact range.size_le
  maxSize_lt := w.maxSize_eq ▸ range.maxSize_lt
  fits := by
    rw [w.start_eq, w.maxSize_eq]
    exact range.fits

namespace Sound

theorem sizes (s : Sound h l) : ∀ b ∈ l, 0 < b.size.toNat := fun b hb => (s.regular b hb).1

theorem size_le_noBlock (s : Sound h l) : h.size ≤ noBlock.toNat := s.represents.bound

/-- Of two blocks one ends before the other begins. -/
theorem before_or_before (s : Sound h l) {c : Block} (hb : b ∈ l) (hc : c ∈ l) (hne : b ≠ c) :
    b.Before c ∨ c.Before b := by
  obtain ⟨front, rear, rfl⟩ := List.append_of_mem hb
  obtain ⟨-, -, hfront, hrear, -⟩ := before_of_sorted s.represents.tiles.pairwise
  simp only [List.mem_append, List.mem_cons] at hc
  rcases hc with hc | rfl | hc
  · exact Or.inr (hfront c hc)
  · exact absurd rfl hne
  · exact Or.inl (hrear c hc)

/-- Two blocks have no byte in common.  A byte of a payload therefore names its block. -/
theorem disjoint (s : Sound h l) {c : Block} (hb : b ∈ l) (hc : c ∈ l) {i : Nat}
    (hbi : b.Contains i) (hci : c.Contains i) : b = c := by
  by_contra hne
  obtain ⟨hbfirst, hbstop⟩ := hbi
  obtain ⟨hcfirst, hcstop⟩ := hci
  rcases s.before_or_before hb hc hne with hbc | hcb
  · simp only [Block.Before, Block.first] at hbc hcfirst
    omega
  · simp only [Block.Before, Block.first] at hcb hbfirst
    omega

/-- Blocks of a layout that begin at one place are one block. -/
theorem eq_of_start_eq (s : Sound h l) {c : Block} (hb : b ∈ l) (hc : c ∈ l)
    (heq : c.start = b.start) : c = b := by
  by_contra hne
  have := headersApart_of_ne s.represents.tiles hb hc hne
  rw [heq] at this
  simp only [HeadersApart, headerSize] at this
  omega

/-- **Writing into a payload** changes nothing else: the layout is the same, and so are all other
payloads. -/
theorem write (s : Sound h l) (hb : b ∈ l) {arena : Arena} (size_eq : arena.size = h.arena.size)
    (outside : ∀ i, ¬ b.Contains i → arena.byte i = h.arena.byte i) :
    Sound { h with arena } l := by
  have hsize : { h with arena }.size = h.size := size_eq
  have hheader : ∀ c ∈ l, { h with arena }.readHeader c.start = h.readHeader c.start := by
    intro c hc
    have heq : { h with arena }.headerAt c.start = h.headerAt c.start :=
      headerAt_congr fun i hi hi' => outside i fun hbi => by
        rcases outside_header_of_contains s.represents.tiles hb hbi hc with hout | hout
        · omega
        · omega
    simp only [readHeader, hsize, heq]
  exact ⟨s.represents.of_headers hsize rfl hheader, ⟨s.range.aligned, hsize ▸ s.range.pages,
    s.range.maxPages, hsize ▸ s.range.pageSize_le, hsize ▸ s.range.size_le, s.range.maxSize_lt,
    s.range.fits⟩, s.regular, s.apart⟩

/-- **Taking a free block.**  The block is named by its place in the layout, and the new layout differs
there only. -/
theorem take_ok (s : Sound h (pre ++ b :: post)) (hb : b.free = true) {size : Nat}
    (hpos : 0 < size) (halign : heapAlign ∣ size) (hsize : size ≤ b.size.toNat) :
    ∃ h', h.take b.start size = .ok h'
      ∧ Evolves h (pre ++ b :: post) h' (pre ++ b.carve size ++ post)
      ∧ h'.size = h.size := by
  obtain ⟨h', htake, r, w⟩ := s.represents.take_ok hb hsize
  refine ⟨h', htake, ⟨⟨r, s.range.of_rewrites w, fun c hc => ?_, isChain_carve size hb s.apart⟩,
    w.start_eq, w.maxSize_eq, Nat.le_of_eq w.size_eq.symm, fun c _ hc i hi => ?_⟩, w.size_eq⟩
  · simp only [List.mem_append] at hc
    rcases hc with (hc | hc) | hc
    · exact s.regular c (by simp [hc])
    · exact Block.regular_carve (s.regular b (by simp)) hpos halign c hc
    · exact s.regular c (by simp [hc])
  · exact w.byte_of_contains (List.Subset.refl _) r.tiles (mem_allocated.mp hc).1 hi

/-- The block that is handed out was not allocated before, since the block that it comes from was
free. -/
theorem taken_not_mem (s : Sound h (pre ++ b :: post)) (hb : b.free = true) (size : Nat) :
    b.taken size ∉ allocated (pre ++ b :: post) := by
  intro hmem
  obtain ⟨hmem, hused⟩ := mem_allocated.mp hmem
  have heq := s.eq_of_start_eq (b := b) (by simp) hmem (b.start_taken size)
  rw [heq, hb] at hused
  cases hused

/-- Freeing one block takes that one out. -/
theorem allocated_freeing (s : Sound h l) (hb : b ∈ l) :
    allocated (freeing [b.start] l) = (allocated l).erase b := by
  ext c
  rw [mem_allocated_freeing, Finset.mem_erase, List.mem_singleton, and_comm]
  refine and_congr_left fun hc => not_congr ⟨fun heq => ?_, fun heq => heq ▸ rfl⟩
  exact s.eq_of_start_eq hb (mem_allocated.mp hc).1 heq

/-- **Giving a block back.**  The free neighbours of the block are merged with it, and so the heap is
sound again. -/
theorem giveBack_ok (s : Sound h l) (hb : b ∈ allocated l) :
    ∃ h₁ h', h.insertFree b.start = .ok h₁ ∧ h₁.coalesce = .ok h'
      ∧ Evolves h l h' (coalesced (freeing [b.start] l)) ∧ h'.size = h.size := by
  obtain ⟨hmem, hused⟩ := mem_allocated.mp hb
  obtain ⟨h₁, h', hinsert, hcoalesce, r, w⟩ := s.represents.giveBack_ok hmem hused
  have htiles : Tiles 0 (freeing [b.start] l) h.size := tiles_freeing.mpr s.represents.tiles
  refine ⟨h₁, h', hinsert, hcoalesce, ⟨⟨r, s.range.of_rewrites w, ?_, isChain_coalesced _⟩,
    w.start_eq, w.maxSize_eq, Nat.le_of_eq w.size_eq.symm, fun c hc _ i hi => ?_⟩, w.size_eq⟩
  · refine regular_coalesced htiles s.size_le_noBlock fun c hc => ?_
    obtain ⟨a, ha, rfl⟩ := List.mem_map.mp hc
    exact s.regular a ha
  · exact w.byte_of_contains (List.Subset.refl _) s.represents.tiles (mem_allocated.mp hc).1 hi

/-- **Growing by whole pages.**  A heap that could not be used after all is never seen, because pages
are backed before this step. -/
theorem extend_ok (s : Sound h l) {step : Nat} (hpages : pageSize ∣ step) (hpos : 0 < step)
    (room : h.size + step ≤ h.maxSize) :
    ∃ h₁ h₂ h', { h with arena := h.arena.grow step }.writeHeader (UInt32.ofNat h.size)
        (.unlinked (UInt32.ofNat (step - headerSize))) = .ok h₁
      ∧ h₁.insertFree (UInt32.ofNat h.size) = .ok h₂ ∧ h₂.coalesce = .ok h'
      ∧ Evolves h l h' (coalesced (l ++ [h.newBlock step])) ∧ h'.size = h.size + step := by
  have hstep : headerSize ≤ step := by
    have := Nat.le_of_dvd hpos hpages
    simp only [pageSize, headerSize] at *
    omega
  have bound : h.size + step ≤ noBlock.toNat := Nat.le_trans room (Nat.le_of_lt s.range.maxSize_lt)
  obtain ⟨hnew, hnewsize, hnewstop⟩ := newBlock_toNat bound hstep
  have htiles : Tiles 0 (l ++ [h.newBlock step]) (h.size + step) :=
    tiles_append.mpr ⟨h.size, s.represents.tiles, hnew, hnewstop⟩
  obtain ⟨h₁, h₂, h', hwrite, hinsert, hcoalesce, r, w⟩ := s.represents.extend_ok hstep bound
  have hsize : h'.size = h.size + step := w.size_eq.trans (Arena.size_grow ..)
  refine ⟨h₁, h₂, h', hwrite, hinsert, hcoalesce, ⟨⟨r, ⟨?_, ?_, ?_, ?_, ?_, ?_, ?_⟩, ?_,
    isChain_coalesced _⟩, w.start_eq, w.maxSize_eq, by omega, fun c hc _ i hi => ?_⟩, hsize⟩
  · rw [w.start_eq]
    exact s.range.aligned
  · rw [hsize]
    exact Nat.dvd_add s.range.pages hpages
  · rw [w.maxSize_eq]
    exact s.range.maxPages
  · exact Nat.le_trans s.range.pageSize_le (by omega)
  · rw [hsize, w.maxSize_eq]
    exact room
  · rw [w.maxSize_eq]
    exact s.range.maxSize_lt
  · rw [w.start_eq, w.maxSize_eq]
    exact s.range.fits
  · refine regular_coalesced htiles bound fun c hc => ?_
    rcases List.mem_append.mp hc with hc | hc
    · exact s.regular c hc
    · obtain rfl := List.mem_singleton.mp hc
      rw [Block.Regular, hnewsize]
      simp only [pageSize, headerSize, heapAlign] at *
      omega
  · have hmem : c ∈ l ++ [h.newBlock step] := List.mem_append_left _ (mem_allocated.mp hc).1
    rw [w.byte_of_contains (List.Subset.refl _) htiles hmem hi]
    exact Arena.byte_grow ..

end Sound

/-- Writing into the payload of a block that is new leaves the others alone.  Nobody has read from the
new block yet. -/
theorem Evolves.write (e : Evolves h l h' l') (hb : b ∈ l') (hnew : b ∉ allocated l)
    {arena : Arena} (size_eq : arena.size = h'.arena.size)
    (outside : ∀ i, ¬ b.Contains i → arena.byte i = h'.arena.byte i) :
    Evolves h l { h' with arena } l' where
  sound := e.sound.write hb size_eq outside
  start_eq := e.start_eq
  maxSize_eq := e.maxSize_eq
  size_le := Nat.le_trans e.size_le (Nat.le_of_eq size_eq.symm)
  payloads c hc hc' i hi := by
    rw [← e.payloads c hc hc' i hi]
    refine outside i fun hbi => hnew ?_
    rwa [e.sound.disjoint hb (mem_allocated.mp hc').1 hbi hi]

end Heap

end TinyKernel
