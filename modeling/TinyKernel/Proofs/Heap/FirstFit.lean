import TinyKernel.Proofs.Heap.PageAccounts

/-!
# The law of allocation

Which pointer a request is answered with, and what is left of the heap and of its pages, is decided by
the layout, by the room that is left below the maximum size, and by the answers of the page source.
This module says how.

## What is load-bearing

A heap in which no block fits grows at its end only, so the one block that can fit afterwards is the
last one: either the new bytes alone, or together with a free block that was there before
(`Heap.GrowsBy.getLast?_eq`).  Whether that one fits is a comparison of numbers (`tailBytes`).

* `Heap.layout` — the blocks of a heap, as its walk shows them
* `Heap.Serves` — what is handed out, and what is left
* `Heap.AllocationLaw` — how every request is answered
* `HeapSession.execute_obeys` — the law holds throughout every session
-/

namespace TinyKernel

/-- **Payload bytes at the end of a layout** that has grown by `step` bytes.  If the last block is
free, it takes in all of them; otherwise some are a header. -/
def tailBytes (l : List Block) (step : Nat) : Nat :=
  match l.getLast?.filter Block.free with
  | none => step - headerSize
  | some b => b.size.toNat + step

/-- All new bytes but a header are payload at the end, and more than that if the last block was
free. -/
theorem le_tailBytes (l : List Block) (step : Nat) : step - headerSize ≤ tailBytes l step := by
  unfold tailBytes
  split
  · exact Nat.le_refl _
  · omega

namespace Heap

/-- **The blocks of a heap**, in address order, as a walk shows them.  Links are left out: this is what
a heap looks like to somebody who only asks where the blocks are. -/
def layout (h : Heap) : Checked (List Block) := do
  let blocks ← h.walk
  pure (blocks.map fun (start, header) => ⟨start, header.size, header.isFree != 0⟩)

/-- The layout of a heap that has grown by `step` bytes: a free block is put at the end, and merges
with the last one if that is free. -/
def grownLayout (h : Heap) (l : List Block) (step : Nat) : List Block :=
  coalesced (l ++ [h.newBlock step])

/-- **Allocated blocks are left alone**: their headers and their payloads are the same bytes.  It says
nothing about free blocks, which the heap may write into as it likes. -/
def Spares (h : Heap) (l : List Block) (h' : Heap) : Prop :=
  ∀ b ∈ allocated l, h'.headerAt b.start = h.headerAt b.start
    ∧ ∀ i, b.Contains i → h'.arena.byte i = h.arena.byte i

/-- **A request is served** from a block `b` of the layout `grown`, which is the layout `l` of the
heap, or that of the heap after it has grown.  The answer points to a payload that is as large as
asked for, and at most as much larger as a rest that is not worth a block.  Of the free bytes exactly
these are gone, and a header if there is a rest.  Nothing changes for the blocks that were allocated
before. -/
structure Serves (h : Heap) (l grown : List Block) (b : Block) (size : Nat) (q : Pointer)
    (h' : Heap) : Prop where
  pointer_eq : q = payload b.start
  le_payloadSize : rounded size ≤ h'.payloadSize q
  payloadSize_le : h'.payloadSize q ≤ rounded size + (headerSize + minSplitRemainder)
  layout : ∃ l', h'.layout = .ok l'
    ∧ allocated l' = insert ⟨b.start, UInt32.ofNat (h'.payloadSize q), false⟩ (allocated l)
    ∧ payloadBytes (freeBlocks grown) = payloadBytes (freeBlocks l') + (h'.payloadSize q
      + if rounded size + headerSize + minSplitRemainder < b.size.toNat then headerSize else 0)
  spares : h.Spares l h'

/-- **The law of allocation**, over a page source with a journal.  A size that is out of range is
refused, and nothing changes.  If a free block is large enough, then the one with the lowest address
is handed out, and no page is asked for.  Otherwise the heap has to grow, by what is asked for or by
the room that there is: then there is an answer exactly if there is room for a page, all pages are
backed, and the block at the end is large enough after that; and it is this block. -/
structure AllocationLaw {τ : Type} (h : Heap) (l : List Block) (p : Journaled τ) (size : Nat)
    (q? : Option Pointer) (h' : Heap) (p' : Journaled τ) : Prop where
  outOfRange : size = 0 ∨ h.maxSize - headerSize < size → q? = none ∧ h' = h ∧ p' = p
  firstFit : h.Admits size → (∃ b ∈ l, b.free = true ∧ rounded size ≤ b.size.toNat) →
    p' = p ∧ h'.size = h.size ∧ ∃ b ∈ l, b.free = true ∧ rounded size ≤ b.size.toNat
      ∧ (∀ c ∈ l, c.free = true → rounded size ≤ c.size.toNat → b.start ≤ c.start)
      ∧ ∃ q ∈ q?, h.Serves l l b size q h'
  growth : h.Admits size → (∀ b ∈ l, b.free = true → b.size.toNat < rounded size) →
    ∀ step, step = h.growthStep (rounded size) →
      (q?.isSome ↔ pageSize ≤ h.maxSize - h.size
        ∧ p'.journal = p.journal
          ++ PageEvent.row .backed h.start (h.size / pageSize) (step / pageSize)
        ∧ rounded size ≤ tailBytes l step)
      ∧ ∀ q ∈ q?, h'.size = h.size + step ∧ ∃ b, (h.grownLayout l step).getLast? = some b
        ∧ b.size.toNat = tailBytes l step ∧ h.Serves l (h.grownLayout l step) b size q h'

variable {h h' h₁ : Heap} {l l' l₁ : List Block} {b : Block} {size step : Nat}

/-- **The walk shows the layout** that the heap represents.  So the layout in a proof is the one that
can be computed. -/
theorem Represents.layout_ok (r : Represents h l) : h.layout = .ok l := by
  have hblocks : (l.map fun b => (b.start, h.headerAt b.start)).map
      (fun (start, header) => Block.mk start header.size (header.isFree != 0)) = l := by
    rw [List.map_map]
    refine (List.map_congr_left fun b hb => ?_).trans (List.map_id l)
    simp only [Function.comp_apply, r.headerAt_size hb, r.headerAt_isFree hb]
    obtain ⟨start, size, free⟩ := b
    cases free <;> rfl
  rw [layout, r.walk_ok]
  exact congrArg Except.ok hblocks

/-- What stays allocated is left alone, header and payload. -/
theorem Evolves.spares (e : Evolves h l h' l') (s : Sound h l) (stays : allocated l ⊆ allocated l') :
    h.Spares l h' := by
  intro b hb
  have hb' := stays hb
  obtain ⟨hmem, hused⟩ := mem_allocated.mp hb
  constructor
  · rw [headerAt_of_readHeader (s.represents.used b hmem hused),
      headerAt_of_readHeader (e.sound.represents.used b (mem_allocated.mp hb').1 hused)]
  · exact e.payloads b hb hb'

/-! ## A block is handed out -/

/-- How large the part is that is handed out: as large as asked for, or the whole block. -/
theorem toNat_size_taken (hsize : size ≤ b.size.toNat) : (b.taken size).size.toNat =
    if size + headerSize + minSplitRemainder < b.size.toNat then size else b.size.toNat := by
  have hlt := b.size.toNat_lt
  unfold Block.taken
  split
  · rw [UInt32.toNat_ofNat', Nat.mod_eq_of_lt (by omega)]
  · rfl

/-- A rest goes with the payload, unless it is worth a block. -/
example : (Block.taken ⟨0, 72, true⟩ 40).size = 72 ∧ (Block.taken ⟨0, 80, true⟩ 40).size = 40 := by
  decide

/-- Carving a free block takes its bytes from the free ones, and a header if there is a rest.  The
bytes of the block are all accounted for. -/
theorem payloadBytes_carve (hsize : size ≤ b.size.toNat) :
    b.size.toNat = payloadBytes (freeBlocks (b.carve size)) + ((b.taken size).size.toNat
      + if size + headerSize + minSplitRemainder < b.size.toNat then headerSize else 0) := by
  have hlt := b.size.toNat_lt
  rw [toNat_size_taken hsize]
  unfold Block.carve
  split
  case isFalse => simp [freeBlocks, payloadBytes]
  case isTrue hsplit =>
    simp only [headerSize, minSplitRemainder] at hsplit ⊢
    have hclaimed : (UInt32.ofNat (size + 16)).toNat = size + 16 := by
      rw [UInt32.toNat_ofNat', Nat.mod_eq_of_lt (by omega)]
    rw [freeBlocks_cons_of_used rfl, freeBlocks_cons_of_free rfl, payloadBytes_cons,
      UInt32.toNat_sub_of_le _ _ (by rw [UInt32.le_iff_toNat_le, hclaimed]; omega), hclaimed]
    simp only [freeBlocks, payloadBytes, List.filter_nil, List.map_nil, List.sum_nil]
    omega

/-- **What is taken serves the request.**  Before the heap may have grown, which allocates nothing and
leaves the payloads alone; so the layout before growth is the one that the allocated blocks are
compared with. -/
theorem Takes.serves (takes : Takes h₁ l₁ (rounded size) b h' l') (s : Sound h l)
    (e : Evolves h l h₁ l₁) (hset : allocated l₁ = allocated l) :
    h.Serves l l₁ b size (payload b.start) h' := by
  have hands := takes.hands e.sound
  have s' := takes.evolves.sound
  have hmem := mem_allocated.mp hands.mem.1
  have hpayload : h'.payloadSize (payload b.start) = (b.taken (rounded size)).size.toNat := by
    rw [← Block.start_taken b (rounded size)]
    exact s'.payloadSize_eq hmem.1
  have hsize := toNat_size_taken takes.fits
  have hstays : allocated l ⊆ allocated l' := hset ▸ hands.mem.2
  have e' := e.trans takes.evolves (hset ▸ Finset.inter_subset_left)
  refine ⟨rfl, ?_, ?_, ⟨l', s'.represents.layout_ok, ?_, ?_⟩, e'.spares s hstays⟩
  · rw [hpayload]
    exact Block.size_taken takes.fits
  · rw [hpayload, hsize]
    split <;> omega
  · rw [hands.allocated_eq, hset, hpayload, UInt32.ofNat_toNat, ← Block.start_taken b (rounded size),
      ← Block.free_taken b (rounded size)]
  · rw [hpayload]
    obtain ⟨pre, post, rfl, rfl, -⟩ := takes.split
    have hcarve := payloadBytes_carve takes.fits
    rw [freeBlocks_append, freeBlocks_append, freeBlocks_append, freeBlocks_cons_of_free takes.free,
      payloadBytes_append, payloadBytes_append, payloadBytes_append, payloadBytes_cons]
    omega

/-- The first block that fits has the lowest address, as the free list is in address order. -/
theorem Takes.lowest (takes : Takes h l size b h' l') (s : Sound h l) {c : Block} (hc : c ∈ l)
    (hfree : c.free = true) (hfits : size ≤ c.size.toNat) : b.start ≤ c.start := by
  obtain ⟨pre, post, rfl, -, misses⟩ := takes.split
  rcases List.mem_append.mp hc with hc | hc
  · exact absurd hfits (Nat.not_le.mpr (misses c hc hfree))
  · rcases List.mem_cons.mp hc with rfl | hc
    · exact UInt32.le_refl _
    · have hbefore := (List.pairwise_cons.mp (List.pairwise_append.mp s.represents.tiles.pairwise).2.1).1
        c hc
      have hstop := b.start_add_header_le_stop
      simp only [Block.Before] at hbefore
      exact UInt32.le_iff_toNat_le.mpr (by omega)

theorem Takes.mem (takes : Takes h l size b h' l') : b ∈ l := by
  obtain ⟨pre, post, rfl, -⟩ := takes.split
  simp

/-! ## Growing -/

namespace Sound

/-- A step of growth has a whole number of pages.  The room that is left has, too, since both sizes of
a heap are multiples of the page size. -/
theorem growthStep_pages (s : Sound h l) (size : Nat) :
    (h.growthStep size + (pageSize - 1)) / pageSize = h.growthStep size / pageSize := by
  obtain ⟨k, hk⟩ := (s.growthStep_cases size).1
  rw [hk]
  simp only [pageSize]
  omega

section

variable {τ : Type} [PageSource τ] {p p' : Journaled τ}

theorem growthStep_journal (s : Sound h l) (p : Journaled τ) (size : Nat) :
    (backRange h.start h.size (h.growthStep size) p).Meets (PageSource.Raises τ) fun (result, p') =>
      match result with
      | .ok () => p'.journal = p.journal
        ++ PageEvent.row .backed h.start (h.size / pageSize) (h.growthStep size / pageSize)
      | .error _ => ∃ m < h.growthStep size / pageSize, p'.journal = p.journal
        ++ (PageEvent.row .backed h.start (h.size / pageSize) m
          ++ .refused (pageAt h.start (h.size / pageSize + m))
            :: PageEvent.row .released h.start (h.size / pageSize) m) := by
  have hrows := backRange_rows p (s.growthStep_pages size) (s.growth_fits size)
  rwa [Nat.div_mul_cancel s.range.pages] at hrows

/-- **The journal of growth**: all pages of the step are backed, in address order, and nothing else is
asked of the page source. -/
theorem journal_of_growsBy (s : Sound h l)
    (grows : h.GrowsBy l p (h.growthStep size) h' l' p') : p'.journal = p.journal
      ++ PageEvent.row .backed h.start (h.size / pageSize) (h.growthStep size / pageSize) :=
  (s.growthStep_journal p size).of_returns grows.backed

end

end Sound

/-- **At the end of a heap that has grown** stands a free block, whose size is known, and all other
blocks were there before. -/
theorem GrowsBy.getLast?_eq {σ : Type} [PageSource σ] {pages pages' : σ} (s : Sound h l)
    (grows : h.GrowsBy l pages (h.growthStep size) h' l' pages') :
    ∃ pre b, l' = pre ++ [b] ∧ pre ⊆ l ∧ b.free = true
      ∧ b.size.toNat = tailBytes l (h.growthStep size) := by
  obtain ⟨-, hle, hpage⟩ := s.growthStep_cases size
  have hroom := grows.room
  have hsizeLe := s.range.size_le
  have hmax := s.range.maxSize_lt
  have hheader : headerSize ≤ h.growthStep size := Nat.le_trans (by decide) (hpage hroom)
  have hbound : h.size + h.growthStep size ≤ noBlock.toNat := by omega
  obtain ⟨hstart, hsize, hstop⟩ := newBlock_toNat hbound hheader
  have hlayout := grows.layout_eq
  rw [coalesced_append_free s.apart rfl] at hlayout
  rw [tailBytes]
  cases hlast : l.getLast?.filter Block.free with
  | none =>
      rw [hlast] at hlayout
      exact ⟨l, _, hlayout, List.Subset.refl l, rfl, hsize⟩
  | some b =>
      rw [hlast] at hlayout
      obtain ⟨hb, hfree⟩ := Option.filter_eq_some_iff.mp hlast
      refine ⟨l.dropLast, _, hlayout, List.dropLast_subset l, (b.free_merge _).trans hfree, ?_⟩
      obtain ⟨front, rfl⟩ := List.getLast?_eq_some_iff.mp hb
      obtain ⟨i, -, -, htouch⟩ := tiles_append.mp s.represents.tiles
      have htouch : b.stop = h.size := htouch
      rw [Block.size_merge (htouch.trans hstart.symm) (by omega), hsize]
      show b.size.toNat + (headerSize + (h.growthStep size - headerSize))
        = b.size.toNat + h.growthStep size
      omega

/-! ## The law -/

section

variable {τ : Type} {p p' : Journaled τ} {q? : Option Pointer}

/-- The law for a request that no block is large enough for.  The other two clauses hold because they
do not apply. -/
theorem AllocationLaw.of_misses (range : h.Admits size) (misses : Misses l (rounded size))
    (growth : ∀ step, step = h.growthStep (rounded size) →
      (q?.isSome ↔ pageSize ≤ h.maxSize - h.size
        ∧ p'.journal = p.journal
          ++ PageEvent.row .backed h.start (h.size / pageSize) (step / pageSize)
        ∧ rounded size ≤ tailBytes l step)
      ∧ ∀ q ∈ q?, h'.size = h.size + step ∧ ∃ b, (h.grownLayout l step).getLast? = some b
        ∧ b.size.toNat = tailBytes l step ∧ h.Serves l (h.grownLayout l step) b size q h') :
    h.AllocationLaw l p size q? h' p' where
  outOfRange out := by
    obtain ⟨hzero, hle⟩ := range
    omega
  firstFit := by
    rintro - ⟨b, hb, hfree, hfits⟩
    exact absurd (misses b hb hfree) (Nat.not_lt.mpr hfits)
  growth _ _ := growth

variable [PageSource τ]

/-- **A heap that does not grow** has not had all pages of the step backed, or has no room for a page.
So the journal tells whether it grew. -/
theorem Ungrown.not_backed (ungrown : h.Ungrown p (h.growthStep size) p') (s : Sound h l)
    (room : pageSize ≤ h.maxSize - h.size) : p'.journal ≠ p.journal
      ++ PageEvent.row .backed h.start (h.size / pageSize) (h.growthStep size / pageSize) := by
  intro hjournal
  cases ungrown with
  | full full => omega
  | refused _ hback =>
      obtain ⟨m, -, hrefused⟩ := (s.growthStep_journal p size).of_returns hback
      rw [hjournal] at hrefused
      have hrow := List.append_cancel_left hrefused
      -- a page was refused, and a row of backed pages has no such event
      have hmem : PageEvent.refused (pageAt h.start (h.size / pageSize + m))
          ∈ PageEvent.row .backed h.start (h.size / pageSize) (h.growthStep size / pageSize) := by
        rw [hrow]
        simp
      simp [PageEvent.row] at hmem

/-- **Only the last block can fit** in a heap that has grown because no block did.  All others were
there before, and were too small then. -/
theorem Takes.eq_getLast? {pages pages' : τ}
    (takes : Takes h₁ l₁ size b h' l') (misses : Misses l size) (s : Sound h l)
    (grows : h.GrowsBy l pages (h.growthStep size) h₁ l₁ pages') :
    l₁.getLast? = some b ∧ b.size.toNat = tailBytes l (h.growthStep size) := by
  obtain ⟨pre, c, rfl, hpre, -, hsize⟩ := grows.getLast?_eq s
  have hmem := takes.mem
  have hfits := takes.fits
  rcases List.mem_append.mp hmem with hb | hb
  · exact absurd (misses b (hpre hb) takes.free) (Nat.not_lt.mpr hfits)
  · obtain rfl := List.mem_singleton.mp hb
    exact ⟨List.getLast?_append_of_ne_nil pre (by simp), hsize⟩

/-- **Every request is answered by the law.**  The cases of the law are those of the operation: nothing
is tried, a block fits, or the heap has to grow. -/
theorem Allocates.law (allocates : h.Allocates l p size q? h' l' p') (s : Sound h l) :
    h.AllocationLaw l p size q? h' p' := by
  cases allocates with
  | outOfRange range =>
      exact ⟨fun _ => ⟨rfl, rfl, rfl⟩, fun admits => absurd admits range,
        fun admits => absurd admits range⟩
  | @fits b _ _ range takes =>
      refine ⟨fun out => ?_, fun _ _ => ?_, fun _ misses => ?_⟩
      · obtain ⟨hzero, hle⟩ := range
        omega
      · refine ⟨rfl, takes.size_eq, b, takes.mem, takes.free, takes.fits, ?_, _, rfl, ?_⟩
        · intro c hc hfree hfits
          exact takes.lowest s hc hfree hfits
        · exact takes.serves s s.evolves_refl rfl
      · exact absurd (misses b takes.mem takes.free) (Nat.not_lt.mpr takes.fits)
  | ungrown range misses ungrown =>
      refine .of_misses range misses ?_
      rintro step rfl
      refine ⟨⟨fun some => (by cases some), ?_⟩, fun q hq => by cases hq⟩
      rintro ⟨room, hjournal, -⟩
      exact absurd hjournal (ungrown.not_backed s room)
  | short range misses grows still =>
      refine .of_misses range misses ?_
      rintro step rfl
      refine ⟨⟨fun some => (by cases some), ?_⟩, fun q hq => by cases hq⟩
      rintro ⟨-, -, htail⟩
      obtain ⟨pre, b, rfl, -, hfree, hsize⟩ := grows.getLast?_eq s
      have hshort := still b (by simp) hfree
      omega
  | grown range misses grows takes =>
      refine .of_misses range misses ?_
      rintro step rfl
      obtain ⟨hlast, hsize⟩ := takes.eq_getLast? misses s grows
      have hserves := takes.serves s grows.evolves grows.allocated_eq
      have hgrown : _ = h.grownLayout l _ := grows.layout_eq
      rw [hgrown] at hlast hserves
      refine ⟨⟨fun _ => ⟨grows.room, s.journal_of_growsBy grows, hsize ▸ takes.fits⟩,
        fun _ => rfl⟩, ?_⟩
      rintro _ ⟨⟩
      exact ⟨takes.size_eq.trans grows.size_eq, _, hlast, hsize, hserves⟩

end

end Heap

/-- **The law of allocation holds in every heap that a session leads to**, whatever page source the
request is made over. -/
theorem HeapSession.execute_obeys {σ : Type} [PageSource σ] (start : VirtAddr)
    (initialSize maxSize : Nat) (pages : σ) (calls : List HeapCall) :
    (HeapSession.execute start initialSize maxSize pages calls).Meets (PageSource.Raises σ)
      fun s? => ∀ s ∈ s?, ∃ l, s.heap.layout = .ok l
        ∧ ∀ {τ : Type} [PageSource τ] (p : Journaled τ) (size : Nat),
          (s.heap.alloc p size).Meets (PageSource.Raises τ) fun (q?, h', p') =>
            s.heap.AllocationLaw l p size q? h' p' := by
  refine (execute_meets (PageSource.keeps_true σ _) trivial calls).imp fun s? hs s hmem => ?_
  obtain ⟨l, sound, -⟩ := (hs s hmem).layout
  refine ⟨l, sound.represents.layout_ok, fun {τ} _ p size => ?_⟩
  refine (sound.alloc_cases (Journaled.keeps_true τ _) trivial size).imp ?_
  rintro ⟨q?, h', p'⟩ ⟨-, l', allocates⟩
  exact allocates.law sound

end TinyKernel
