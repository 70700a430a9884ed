import TinyKernel.Proofs.Heap.Pages
import TinyKernel.Proofs.Heap.Sound

/-!
# The operations of the heap

For each operation, what it does to a sound heap and to the pages behind it.  No operation raises a
fault of its own: a run ends in a fault only if the page source does.

## What is load-bearing

The pages are told apart from the bytes.  Whatever an operation does to the bytes, the pages that
are backed afterwards are those of `[start, start + size)`, so that an invariant `I` of the page
source need not know about blocks.

* `Heap.SetsUp`, `Heap.init_cases` — how setting up a heap ends
* `Heap.Allocates` — how a request is answered
* `Heap.Sound.expand_meets`, `Heap.Sound.alloc_cases`, `Heap.Sound.alloc_meets` — growth and
  allocation
* `Heap.Sound.free_meets`, `Heap.Sound.calloc_meets`, `Heap.Sound.realloc_meets`,
  `Heap.Sound.store_ok` — the other operations
-/

/-! ## Rounding up -/

namespace TinyKernel.Checked

/-- Clearing the low bits of a word rounds it down to a multiple of a power of two. -/
theorem and_clear_low {x k : Nat} (hk : k ≤ 64) (hx : x < 2 ^ 64) :
    x &&& (2 ^ 64 - 1 - (2 ^ k - 1)) = x / 2 ^ k * 2 ^ k := by
  have hpos : 0 < 2 ^ k := Nat.two_pow_pos k
  have hle : 2 ^ k ≤ 2 ^ 64 := Nat.pow_le_pow_right (by decide) hk
  rw [← Nat.shiftRight_eq_div_pow, ← Nat.shiftLeft_eq]
  apply Nat.eq_of_testBit_eq
  intro i
  rw [show 2 ^ 64 - 1 - (2 ^ k - 1) = 2 ^ 64 - ((2 ^ k - 1) + 1) by omega, Nat.testBit_and,
    Nat.testBit_two_pow_sub_succ (by omega), Nat.testBit_two_pow_sub_one, Nat.testBit_shiftLeft,
    Nat.testBit_shiftRight]
  by_cases hi : i < 64
  · by_cases hki : k ≤ i
    · simp [hi, hki, Nat.not_lt.mpr hki]
    · simp [hki, Nat.not_le.mp hki]
  · have hhigh : x < 2 ^ i :=
      Nat.lt_of_lt_of_le hx (Nat.pow_le_pow_right (by decide) (Nat.not_lt.mp hi))
    simp only [hi, decide_false, Bool.false_and, Bool.and_false, Bool.false_eq, Bool.and_eq_false_imp,
      decide_eq_true_eq]
    intro hki
    rw [Nat.add_sub_of_le hki]
    exact Nat.testBit_lt_two_pow hhigh

/-- Rounding up to a power of two gives the next multiple of it.  Both alignments of a heap are powers
of two, so that the mask in the code does this. -/
theorem alignUp_two_pow {value k : Nat} (hk : k ≤ 64) (h : value + 2 ^ k < 2 ^ 64) :
    alignUp value (2 ^ k) = .ok ((value + (2 ^ k - 1)) / 2 ^ k * 2 ^ k) := by
  have hpos : 0 < 2 ^ k := Nat.two_pow_pos k
  rw [← and_clear_low hk (by omega), ← Nat.add_sub_assoc hpos]
  simp only [alignUp, add64_of_lt h, sub64_of_le (show 1 ≤ value + 2 ^ k by omega),
    sub64_of_le (show 1 ≤ 2 ^ k from hpos), ok_bind]
  rfl

end TinyKernel.Checked

namespace TinyKernel.Heap

/-- The pages that a heap is backed by: those of the bytes that it has grown to. -/
def backed (h : Heap) : Finset VirtAddr := pageSpan h.start 0 (h.size / pageSize)

/-- The pages that a heap may be backed by when it has grown.  A page source has to keep its contract
on these only. -/
def window (h : Heap) : Finset VirtAddr := pageSpan h.start 0 (h.maxSize / pageSize)

/-- Payload bytes of the block that a request is answered with, at least: the size asked for, rounded
up to the alignment. -/
def rounded (size : Nat) : Nat := (size + (heapAlign - 1)) / heapAlign * heapAlign

/-- Bytes by which a heap grows for a request: as many pages as it takes for the payload and a header,
or what room there is, if that is less. -/
def growthStep (h : Heap) (size : Nat) : Nat :=
  min ((size + headerSize + (pageSize - 1)) / pageSize * pageSize) (h.maxSize - h.size)

/-- **A block is handed out** for a request.  It is allocated then and was not before, and it is the
only change to the allocated blocks.  Where the block comes from, a free one that fits or one that the
heap grew by, is left open. -/
structure Hands (l l' : List Block) (b : Block) (size : Nat) (p : Pointer) : Prop where
  pointer_eq : p = payload b.start
  fresh : b ∉ allocated l
  allocated_eq : allocated l' = insert b (allocated l)
  large : size ≤ b.size.toNat

namespace Hands

variable {l l' l₁ : List Block} {b : Block} {size : Nat} {p : Pointer}

/-- A block that is handed out is allocated, and so is what was allocated before. -/
theorem mem (hands : Hands l l' b size p) : b ∈ allocated l' ∧ allocated l ⊆ allocated l' := by
  rw [hands.allocated_eq]
  exact ⟨Finset.mem_insert_self .., Finset.subset_insert ..⟩

/-- What was handed out after the heap grew was handed out, since growing allocates nothing. -/
theorem of_allocated_eq (hset : allocated l₁ = allocated l) (hands : Hands l₁ l' b size p) :
    Hands l l' b size p := by
  refine ⟨hands.pointer_eq, ?_, ?_, hands.large⟩
  · rw [← hset]
    exact hands.fresh
  · rw [← hset]
    exact hands.allocated_eq

end Hands

/-- **A block moves**: the heap with the old block and with the new one, into which the bytes of the
old one are copied.  The old block is not freed yet, so that its bytes cannot be overwritten before
they are copied. -/
def Moves (h : Heap) (l : List Block) (b : Block) (size : Nat) (q : Pointer) (h' : Heap)
    (l' : List Block) : Prop :=
  Evolves h l h' l' ∧ ∃ c, Hands l l' c size q
    ∧ ∀ i < b.size.toNat, h'.arena.byte (c.first + i) = h.arena.byte (b.first + i)

/-! ## How a request is answered -/

/-- A request is for a size that a heap can have: some bytes, and no more than fit into a block that
takes up the whole heap when it has grown as far as it may. -/
def Admits (h : Heap) (size : Nat) : Prop := size ≠ 0 ∧ size ≤ h.maxSize - headerSize

/-- No free block has room for a payload of `size` bytes. -/
def Misses (l : List Block) (size : Nat) : Prop := ∀ b ∈ l, b.free = true → b.size.toNat < size

/-- **The first block that fits is taken**, and carved.  That it is the first is said by the blocks
before it, none of which fits; and the layout afterwards differs at this place only. -/
structure Takes (h : Heap) (l : List Block) (size : Nat) (b : Block) (h' : Heap)
    (l' : List Block) : Prop where
  split : ∃ pre post, l = pre ++ b :: post ∧ l' = pre ++ b.carve size ++ post ∧ Misses pre size
  free : b.free = true
  fits : size ≤ b.size.toNat
  evolves : Evolves h l h' l'
  size_eq : h'.size = h.size

/-- **A heap grows** by some pages, all of which are backed.  The new bytes are a free block at the
end, merged with the last one if that was free. -/
structure GrowsBy {σ : Type} [PageSource σ] (h : Heap) (l : List Block) (pages : σ) (step : Nat)
    (h' : Heap) (l' : List Block) (pages' : σ) : Prop where
  room : pageSize ≤ h.maxSize - h.size
  backed : (backRange h.start h.size step pages).Returns (.ok (), pages')
  layout_eq : l' = coalesced (l ++ [h.newBlock step])
  evolves : Evolves h l h' l'
  size_eq : h'.size = h.size + step

/-- **Why a heap does not grow**: there is no room for a page, or a page is refused.  In the first case
no page is asked for; in the second those that were backed before it have been released again, and
`pages'` is what is left after that. -/
inductive Ungrown {σ : Type} [PageSource σ] (h : Heap) (pages : σ) (step : Nat) : σ → Prop where
  | full (room : h.maxSize - h.size < pageSize) : Ungrown h pages step pages
  | refused {pages' : σ} {refusal : VirtAddr × MapError} (room : pageSize ≤ h.maxSize - h.size)
      (backed : (backRange h.start h.size step pages).Returns (.error refusal, pages')) :
      Ungrown h pages step pages'

/-- **How a request is answered**, and what it leaves of the heap, its layout and its pages.  Either
the size is out of range; or the first block that fits is taken; or none fits, and then the heap does
not grow, or grows and is searched once more. -/
inductive Allocates {σ : Type} [PageSource σ] (h : Heap) (l : List Block) (pages : σ) (size : Nat) :
    Option Pointer → Heap → List Block → σ → Prop where
  | outOfRange (range : ¬ h.Admits size) : Allocates h l pages size none h l pages
  | fits {b : Block} {h' : Heap} {l' : List Block} (range : h.Admits size)
      (takes : Takes h l (rounded size) b h' l') :
      Allocates h l pages size (some (payload b.start)) h' l' pages
  | ungrown {pages' : σ} (range : h.Admits size) (misses : Misses l (rounded size))
      (ungrown : h.Ungrown pages (h.growthStep (rounded size)) pages') :
      Allocates h l pages size none h l pages'
  | short {h' : Heap} {l' : List Block} {pages' : σ} (range : h.Admits size)
      (misses : Misses l (rounded size))
      (grows : h.GrowsBy l pages (h.growthStep (rounded size)) h' l' pages')
      (still : Misses l' (rounded size)) : Allocates h l pages size none h' l' pages'
  | grown {b : Block} {h₁ h' : Heap} {l₁ l' : List Block} {pages' : σ} (range : h.Admits size)
      (misses : Misses l (rounded size))
      (grows : h.GrowsBy l pages (h.growthStep (rounded size)) h₁ l₁ pages')
      (takes : Takes h₁ l₁ (rounded size) b h' l') :
      Allocates h l pages size (some (payload b.start)) h' l' pages'

theorem le_rounded (size : Nat) : size ≤ rounded size := by
  simp only [rounded, heapAlign]
  omega

theorem alignUp_pageSize {size : Nat} (h : size < 2 ^ 33) :
    Checked.alignUp size pageSize = .ok ((size + (pageSize - 1)) / pageSize * pageSize) := by
  rw [show pageSize = 2 ^ 12 by decide]
  exact Checked.alignUp_two_pow (by decide) (by omega)

theorem alignUp_heapAlign {size : Nat} (h : size < 2 ^ 32) :
    Checked.alignUp size heapAlign = .ok (rounded size) := by
  refine Checked.alignUp_two_pow (k := 3) (by decide) ?_
  omega

section

variable {σ : Type} [PageSource σ] {admits : Fault → Prop} {I : Finset VirtAddr → σ → Prop}
  {window : Finset VirtAddr} {pages : σ}

/-! ## Setting a heap up -/

/-- What the test of a range comes to, in numbers.  The last clause keeps all addresses of the heap in
32 bits. -/
theorem validRange_iff {start : VirtAddr} {initialSize maxSize : Nat} :
    validRange start initialSize maxSize = true ↔
      start.pageOffset = 0 ∧ initialSize % pageSize = 0 ∧ maxSize % pageSize = 0
        ∧ pageSize ≤ initialSize ∧ initialSize ≤ maxSize ∧ maxSize < noBlock.toNat
        ∧ start.val.toNat + maxSize < 2 ^ 32 := by
  have hadd : (start.add? maxSize).isSome = true ↔ start.val.toNat + maxSize < 2 ^ 32 := by
    unfold VirtAddr.add?
    split <;> simp_all
  rw [validRange, decide_eq_true_iff, hadd]

/-- A heap lies in a range that a heap can have.  The test is made once, and holds for good, since a
heap never grows beyond its maximum size. -/
theorem inRange_of_validRange {h : Heap} (hvalid : validRange h.start h.size h.maxSize = true) :
    InRange h := by
  obtain ⟨haligned, hpages, hmax, hpos, hle, hlt, hfits⟩ := validRange_iff.mp hvalid
  exact ⟨haligned, Nat.dvd_of_mod_eq_zero hpages, Nat.dvd_of_mod_eq_zero hmax, hpos, hle, hlt, hfits⟩

/-- One header makes all bytes one free block, and a sound heap of them. -/
theorem sound_of_one_block {h : Heap} (range : InRange h) (hhead : h.freeHead = 0)
    (hread : h.readHeader 0 = .ok (.unlinked (UInt32.ofNat (h.size - headerSize)))) :
    Sound h [⟨0, UInt32.ofNat (h.size - headerSize), true⟩] := by
  have hpos := range.pageSize_le
  have hlt := Nat.lt_of_le_of_lt range.size_le range.maxSize_lt
  obtain ⟨n, hn⟩ := range.pages
  simp only [pageSize, noBlock, UInt32.reduceToNat] at hpos hlt hn
  refine ⟨⟨Nat.le_of_lt hlt, ?_, ⟨hhead, hread, trivial⟩, ?_⟩, range, ?_, List.isChain_singleton _⟩
  · simp only [tiles_cons, tiles_nil, Block.stop, Block.first, headerSize, UInt32.toNat_ofNat',
      UInt32.reduceToNat, true_and]
    omega
  · intro b hb hused
    obtain rfl := List.mem_singleton.mp hb
    cases hused
  · intro b hb
    obtain rfl := List.mem_singleton.mp hb
    simp only [Block.Regular, headerSize, heapAlign, UInt32.toNat_ofNat']
    omega

/-- **How setting a heap up ends**: its range is not valid, or a page of it is refused, or all of its
pages are backed and there is a heap of one free block. -/
inductive SetsUp (start : VirtAddr) (initialSize maxSize : Nat) (pages : σ) :
    Except HeapError Heap → σ → Prop where
  | invalid (invalid : validRange start initialSize maxSize = false) :
      SetsUp start initialSize maxSize pages (.error .invalidRange) pages
  | refused {page : VirtAddr} {cause : MapError} {pages' : σ}
      (valid : validRange start initialSize maxSize = true)
      (backed : (backRange start 0 initialSize pages).Returns (.error (page, cause), pages')) :
      SetsUp start initialSize maxSize pages (.error (.backing page cause)) pages'
  | ready {h : Heap} {pages' : σ} (valid : validRange start initialSize maxSize = true)
      (backed : (backRange start 0 initialSize pages).Returns (.ok (), pages'))
      (start_eq : h.start = start) (maxSize_eq : h.maxSize = maxSize) (size_eq : h.size = initialSize)
      (sound : Sound h [⟨0, UInt32.ofNat (h.size - headerSize), true⟩]) :
      SetsUp start initialSize maxSize pages (.ok h) pages'

/-- **Setting a heap up ends** in one of these ways.  If there is no heap, the pages are as if none had
been backed. -/
theorem init_cases {start : VirtAddr} {initialSize maxSize : Nat}
    (keeps : PageSource.Keeps σ (pageSpan start 0 (maxSize / pageSize)) admits I)
    (hI : I ∅ pages) :
    (init start initialSize maxSize pages).Meets admits fun (made, pages') =>
      SetsUp start initialSize maxSize pages made pages' ∧
        match made with
        | .error _ => I ∅ pages'
        | .ok h => I h.backed pages' := by
  unfold init
  by_cases hvalid : validRange start initialSize maxSize = true
  case neg =>
    rw [if_neg hvalid]
    exact Run.meets_pure ⟨.invalid (Bool.not_eq_true _ ▸ hvalid), hI⟩
  rw [if_pos hvalid]
  obtain ⟨-, hinitial, -, hpos, hle, -, hfits⟩ := validRange_iff.mp hvalid
  obtain ⟨n, rfl⟩ := Nat.dvd_of_mod_eq_zero hinitial
  have hn : n ≤ maxSize / pageSize := (Nat.le_div_iff_mul_le (by decide)).mpr (by
    rwa [Nat.mul_comm])
  have hback := backRange_meets keeps (Nat.zero_mul pageSize).symm (Nat.mul_comm pageSize n)
    (by rw [Nat.zero_add, Nat.mul_comm]; omega)
    (pageSpan_subset start (Nat.le_refl 0) (by rwa [Nat.zero_add]))
    (by rwa [pageSpan_self] : I (pageSpan start 0 0) pages)
  refine (hback.and (Run.meets_returns _)).bind ?_
  rintro ⟨result, pages'⟩ ⟨hI', hreturns⟩
  cases result with
  | error refusal =>
      rw [pageSpan_self] at hI'
      exact Run.meets_pure ⟨.refused hvalid hreturns, hI'⟩
  | ok =>
      have hheader : headerSize ≤ pageSize * n := Nat.le_trans (by decide) hpos
      refine Run.meets_lift_bind (Checked.sub64_of_le hheader) ?_
      have hsize : (Heap.mk (Arena.empty.grow (pageSize * n)) start maxSize noBlock).size
          = pageSize * n := by
        rw [size, Arena.size_grow]
        exact Nat.zero_add _
      obtain ⟨h, hwrite, hread, -, hw⟩ :=
        writeHeader_ok (.unlinked (UInt32.ofNat (pageSize * n - headerSize)))
          (show (0 : UInt32).toNat + headerSize ≤ Heap.size ⟨Arena.empty.grow (pageSize * n), start,
            maxSize, noBlock⟩ by rw [hsize]; simpa using hheader)
      have hsize' : h.size = pageSize * n := hw.size_eq.trans hsize
      have hstart : h.start = start := hw.start_eq
      have hmaxSize : h.maxSize = maxSize := hw.maxSize_eq
      have hrange : InRange { h with freeHead := 0 } := inRange_of_validRange (by
        show validRange h.start h.size h.maxSize = true
        rw [hstart, hsize', hmaxSize]
        exact hvalid)
      refine Run.meets_lift_bind hwrite (Run.meets_log_bind (Run.meets_pure ⟨?_, ?_⟩))
      · refine .ready hvalid hreturns hstart hmaxSize hsize' (sound_of_one_block hrange rfl ?_)
        rw [← hsize'] at hread
        exact hread
      · show I (pageSpan h.start 0 (h.size / pageSize)) pages'
        rw [hstart, hsize', Nat.mul_div_cancel_left n (by decide)]
        rwa [Nat.zero_add] at hI'

/-- **A heap is set up as one free block**, or no page is left backed. -/
theorem init_meets {start : VirtAddr} {initialSize maxSize : Nat}
    (keeps : PageSource.Keeps σ (pageSpan start 0 (maxSize / pageSize)) admits I)
    (hI : I ∅ pages) :
    (init start initialSize maxSize pages).Meets admits fun (made, pages') =>
      match made with
      | .error _ => I ∅ pages'
      | .ok h => I h.backed pages' ∧ h.start = start ∧ h.maxSize = maxSize ∧ h.size = initialSize
          ∧ Sound h [⟨0, UInt32.ofNat (h.size - headerSize), true⟩] := by
  refine (init_cases keeps hI).imp ?_
  rintro ⟨made, pages'⟩ ⟨setsUp, hI'⟩
  cases setsUp with
  | invalid => exact hI'
  | refused => exact hI'
  | ready _ _ start_eq maxSize_eq size_eq sound =>
      exact ⟨hI', start_eq, maxSize_eq, size_eq, sound⟩

/-! ## Growing and allocating -/

section

variable {h h' : Heap} {l l' : List Block} {b : Block} {size step : Nat} {pages' : σ}

/-- **What is taken is handed out**: the part of the block that the request gets was not allocated
before. -/
theorem Takes.hands (takes : Takes h l (rounded size) b h' l') (s : Sound h l) :
    Hands l l' (b.taken (rounded size)) size (payload b.start) := by
  obtain ⟨pre, post, rfl, rfl, -⟩ := takes.split
  refine ⟨by rw [Block.start_taken], s.taken_not_mem takes.free _, allocated_carve _ takes.free, ?_⟩
  exact Nat.le_trans (le_rounded size) (Block.size_taken takes.fits)

/-- Growing allocates nothing, for all that comes of it is a larger free block or one more. -/
theorem GrowsBy.allocated_eq (grows : h.GrowsBy l pages step h' l' pages') :
    allocated l' = allocated l := by
  rw [grows.layout_eq, allocated_coalesced, allocated_append_free rfl]

end

namespace Sound

variable {h : Heap} {l : List Block}

/-- The pages that a heap is backed by depend on where it lies and how large it is, and on nothing that
is in it. -/
theorem backed_eq {h' : Heap} (start_eq : h'.start = h.start) (size_eq : h'.size = h.size) :
    h'.backed = h.backed := by
  rw [Heap.backed, Heap.backed, start_eq, size_eq]

/-- A heap grows by whole pages, and stays below its maximum size.  If there is room for a page, it
grows by one page at least. -/
theorem growthStep_cases (s : Sound h l) (size : Nat) :
    pageSize ∣ h.growthStep size ∧ h.growthStep size ≤ h.maxSize - h.size
      ∧ (pageSize ≤ h.maxSize - h.size → pageSize ≤ h.growthStep size) := by
  obtain ⟨-, ⟨n, hn⟩, ⟨m, hm⟩, -⟩ := s.range
  have hroom : h.maxSize - h.size = pageSize * (m - n) := by rw [hm, hn, Nat.mul_sub]
  refine ⟨?_, Nat.min_le_right .., fun hpage => ?_⟩
  · rw [growthStep, hroom, Nat.mul_comm, Nat.mul_min_mul_left]
    exact Nat.dvd_mul_right ..
  · refine Nat.le_min.mpr ⟨?_, hpage⟩
    simp only [headerSize, pageSize]
    omega

/-- The pages of a step of growth fit into the address space, so that none of their addresses wraps
round. -/
theorem growth_fits (s : Sound h l) (size : Nat) :
    h.start.val.toNat + (h.size / pageSize + h.growthStep size / pageSize) * pageSize ≤ 2 ^ 32 := by
  obtain ⟨hdvd, hle, -⟩ := s.growthStep_cases size
  have hmax := s.range.size_le
  have hfits := s.range.fits
  rw [Nat.add_mul, Nat.div_mul_cancel s.range.pages, Nat.div_mul_cancel hdvd]
  omega

/-- **The heap grows by whole pages, or not at all.**  The answer says which; a heap that does not grow
is the same heap, with no free block added. -/
theorem expand_meets (s : Sound h l) (keeps : PageSource.Keeps σ h.window admits I)
    (hI : I h.backed pages) {size : Nat} (hsize : size < 2 ^ 32) :
    (h.expand pages size).Meets admits fun (grew, h', pages') =>
      I h'.backed pages' ∧
        match grew with
        | false => h' = h ∧ h.Ungrown pages (h.growthStep size) pages'
        | true => ∃ l', h.GrowsBy l pages (h.growthStep size) h' l' pages' := by
  obtain ⟨hdvd, hstepLe, hstepPos⟩ := s.growthStep_cases size
  have hle := s.range.size_le
  have hlt := s.range.maxSize_lt
  simp only [noBlock, UInt32.reduceToNat] at hlt
  unfold expand
  refine Run.meets_lift_bind (Checked.sub64_of_le hle) ?_
  by_cases hroom : h.maxSize - h.size < pageSize
  case pos =>
    rw [if_pos hroom]
    exact Run.meets_log_bind (Run.meets_pure ⟨hI, rfl, .full hroom⟩)
  case neg =>
  rw [if_neg hroom]
  have hroom := Nat.not_lt.mp hroom
  refine Run.meets_lift_bind (Checked.add64_of_lt (by simp only [headerSize]; omega)) ?_
  have halign := alignUp_pageSize (show size + headerSize < 2 ^ 33 by simp only [headerSize]; omega)
  have hmin : min ((size + headerSize + (pageSize - 1)) / pageSize * pageSize)
      (h.maxSize - h.size) = h.growthStep size := rfl
  rw [halign, Run.lift_ok, pure_bind]
  simp only [hmin]
  have hgrown : h.size + h.growthStep size ≤ h.maxSize := by omega
  have hpages : (h.size + h.growthStep size) / pageSize
      = h.size / pageSize + h.growthStep size / pageSize := by
    obtain ⟨k, hk⟩ := hdvd
    rw [hk, Nat.add_mul_div_left _ _ (by decide), Nat.mul_div_cancel_left k (by decide)]
  have hwindow : pageSpan h.start 0 (h.size / pageSize + h.growthStep size / pageSize) ⊆ h.window := by
    rw [← hpages]
    exact pageSpan_subset h.start (Nat.le_refl 0) (Nat.div_le_div_right hgrown)
  have hback := backRange_meets keeps (Nat.div_mul_cancel s.range.pages).symm
    (Nat.div_mul_cancel hdvd).symm (s.growth_fits size) hwindow hI
  refine (hback.and (Run.meets_returns _)).bind ?_
  rintro ⟨result, pages'⟩ ⟨hI', hreturns⟩
  cases result with
  | error refusal =>
      obtain ⟨page, cause⟩ := refusal
      exact Run.meets_log_bind (Run.meets_pure ⟨hI', rfl, .refused hroom hreturns⟩)
  | ok =>
      have hstep : pageSize ≤ h.growthStep size := hstepPos hroom
      have hheader : headerSize ≤ h.growthStep size := Nat.le_trans (by decide) hstep
      obtain ⟨h₁, h₂, h', hwrite, hinsert, hcoalesce, e, hsize'⟩ :=
        s.extend_ok hdvd (Nat.lt_of_lt_of_le (by decide) hstep) hgrown
      refine Run.meets_lift_bind (Checked.add64_of_lt (by omega)) ?_
      refine Run.meets_lift_bind (Checked.sub64_of_le hheader) ?_
      refine Run.meets_lift_bind hwrite (Run.meets_lift_bind hinsert ?_)
      refine Run.meets_lift_bind hcoalesce (Run.meets_log_bind (Run.meets_pure
        ⟨?_, _, hroom, hreturns, rfl, e, hsize'⟩))
      rw [Heap.backed, e.start_eq, hsize', hpages]
      exact hI'

/-- **The first block that fits is found and taken**, if one does.  Finding and taking are one step
here, since the block that is found is on the free list and can be unlinked. -/
theorem firstFit_ok (s : Sound h l) {size : Nat} (hpos : 0 < size) (halign : heapAlign ∣ size) :
    (h.findFit size = .ok none ∧ Misses l size)
      ∨ ∃ b h' l', h.findFit size = .ok (some b.start) ∧ h.take b.start size = .ok h'
        ∧ Takes h l size b h' l' := by
  have hfind := Heap.findFit_ok s.size_le_noBlock size s.represents.freeList
    (s.represents.tiles.pairwise.sublist (freeBlocks_sublist l))
  rw [freeBlocks, List.find?_filter] at hfind
  cases hfit : l.find? fun b => decide (b.free = true ∧ decide (size ≤ b.size.toNat) = true) with
  | none =>
      rw [hfit] at hfind
      refine Or.inl ⟨hfind, fun b hb hfree => ?_⟩
      have hnot := List.find?_eq_none.mp hfit b hb
      simpa [hfree] using hnot
  | some b =>
      rw [hfit] at hfind
      obtain ⟨hb, pre, post, rfl, hpre⟩ := List.find?_eq_some_iff_append.mp hfit
      obtain ⟨hfree, hfits⟩ := of_decide_eq_true hb
      have hfits := of_decide_eq_true hfits
      obtain ⟨h', htake, e, hsize⟩ := s.take_ok hfree hpos halign hfits
      refine Or.inr ⟨b, h', _, hfind, htake, ⟨pre, post, rfl, rfl, fun c hc hcfree => ?_⟩, hfree,
        hfits, e, hsize⟩
      simpa [hcfree] using hpre c hc

/-- **Every request is answered** in one of these ways.  This is the one lemma about allocation that
looks into the code; what clients are promised is derived from the cases. -/
theorem alloc_cases (s : Sound h l) (keeps : PageSource.Keeps σ h.window admits I)
    (hI : I h.backed pages) (size : Nat) :
    (h.alloc pages size).Meets admits fun (p?, h', pages') =>
      I h'.backed pages' ∧ ∃ l', h.Allocates l pages size p? h' l' pages' := by
  have hmax := s.range.maxSize_lt
  have hpage := Nat.le_trans s.range.pageSize_le s.range.size_le
  simp only [noBlock, UInt32.reduceToNat, pageSize] at hmax hpage
  unfold alloc
  by_cases hzero : size = 0
  case pos =>
    rw [if_pos hzero]
    exact Run.meets_pure ⟨hI, l, .outOfRange fun range => range.1 hzero⟩
  case neg =>
  rw [if_neg hzero]
  have hroom : Checked.sub64 h.maxSize headerSize = .ok (h.maxSize - headerSize) :=
    Checked.sub64_of_le (by simp only [headerSize]; omega)
  refine Run.meets_lift_bind hroom ?_
  by_cases hlarge : h.maxSize - headerSize < size
  case pos =>
    rw [if_pos hlarge]
    exact Run.meets_pure ⟨hI, l, .outOfRange fun range => Nat.not_lt.mpr range.2 hlarge⟩
  case neg =>
  rw [if_neg hlarge]
  have range : h.Admits size := ⟨hzero, Nat.not_lt.mp hlarge⟩
  simp only [headerSize] at hlarge
  have hrounded : rounded size < 2 ^ 32 := by
    simp only [rounded, heapAlign]
    omega
  have hpos : 0 < rounded size := Nat.lt_of_lt_of_le (Nat.pos_of_ne_zero hzero) (le_rounded size)
  have halign : heapAlign ∣ rounded size := ⟨_, Nat.mul_comm ..⟩
  refine Run.meets_lift_bind (alignUp_heapAlign (by omega)) ?_
  obtain ⟨hnone, misses⟩ | ⟨b, h', l', hfind, htake, takes⟩ := s.firstFit_ok hpos halign
  case inr =>
    refine Run.meets_lift_bind hfind (Run.meets_lift_bind htake (Run.meets_pure ?_))
    refine ⟨?_, l', .fits range takes⟩
    rwa [backed_eq takes.evolves.start_eq takes.size_eq]
  case inl =>
  refine Run.meets_lift_bind hnone ?_
  refine (s.expand_meets keeps hI hrounded).bind ?_
  rintro ⟨grew, h₁, pages₁⟩ ⟨hI₁, hgrew⟩
  cases grew with
  | false =>
      obtain ⟨rfl, ungrown⟩ := hgrew
      exact Run.meets_log_bind (Run.meets_pure ⟨hI₁, l, .ungrown range misses ungrown⟩)
  | true =>
      obtain ⟨l₁, grows⟩ := hgrew
      obtain ⟨hnone₁, still⟩ | ⟨b, h', l', hfind, htake, takes⟩ :=
        grows.evolves.sound.firstFit_ok hpos halign
      · exact Run.meets_lift_bind hnone₁ (Run.meets_pure
          ⟨hI₁, l₁, .short range misses grows still⟩)
      · refine Run.meets_lift_bind hfind (Run.meets_lift_bind htake (Run.meets_pure ?_))
        refine ⟨?_, l', .grown range misses grows takes⟩
        rwa [backed_eq takes.evolves.start_eq takes.size_eq]

/-- **Allocation hands out a block, or nothing.**  If there is no answer, the heap may still have
grown, but the allocated blocks are the same. -/
theorem alloc_meets (s : Sound h l) (keeps : PageSource.Keeps σ h.window admits I)
    (hI : I h.backed pages) (size : Nat) :
    (h.alloc pages size).Meets admits fun (p?, h', pages') =>
      I h'.backed pages' ∧ ∃ l', Evolves h l h' l' ∧
        match p? with
        | none => allocated l' = allocated l
        | some p => ∃ b, Hands l l' b size p := by
  refine (s.alloc_cases keeps hI size).imp ?_
  rintro ⟨p?, h', pages'⟩ ⟨hI', l', allocates⟩
  refine ⟨hI', l', ?_⟩
  cases allocates with
  | outOfRange => exact ⟨s.evolves_refl, rfl⟩
  | fits range takes => exact ⟨takes.evolves, _, takes.hands s⟩
  | ungrown => exact ⟨s.evolves_refl, rfl⟩
  | short range misses grows => exact ⟨grows.evolves, grows.allocated_eq⟩
  | grown range misses grows takes =>
      -- what is allocated is the same before and after growth
      refine ⟨grows.evolves.trans takes.evolves ?_, _,
        (takes.hands grows.evolves.sound).of_allocated_eq grows.allocated_eq⟩
      rw [grows.allocated_eq]
      exact Finset.inter_subset_left

/-! ## Freeing -/

/-- Blocks with the same payload are one block, as two blocks of a row do not begin at the same
offset. -/
theorem eq_of_payload_eq (s : Sound h l) {b c : Block} (hb : b ∈ l) (hc : c ∈ l)
    (heq : payload b.start = payload c.start) : b = c := by
  refine s.eq_of_start_eq hc hb (UInt32.toNat_inj.mp ?_)
  simp only [payload, Pointer.mk.injEq] at heq
  omega

/-- A pointer is the start of the payload of a block, or of none.  Freeing and resizing begin with this
distinction. -/
theorem blockOf_cases (s : Sound h l) (p : Pointer) :
    (∃ b ∈ l, p = payload b.start ∧ h.blockOf p = .ok (some b.start))
      ∨ ((∀ b ∈ l, p ≠ payload b.start) ∧ h.blockOf p = .ok none) := by
  have hblock := s.represents.blockOf_ok s.sizes p
  have hiff : ∀ b : Block, p = payload b.start ↔ p.offset = b.first := by
    intro b
    obtain ⟨i⟩ := p
    simp only [payload, Block.first, Pointer.mk.injEq, Int.natCast_add]
  cases hfind : l.find? fun b => p.offset = b.first with
  | none =>
      rw [hfind] at hblock
      refine Or.inr ⟨fun b hb heq => ?_, hblock⟩
      exact List.find?_eq_none.mp hfind b hb (decide_eq_true ((hiff b).mp heq))
  | some b =>
      rw [hfind] at hblock
      have hpred := List.find?_some hfind
      exact Or.inl ⟨b, List.mem_of_find?_eq_some hfind, (hiff b).mpr (of_decide_eq_true hpred), hblock⟩

/-- **A block that is freed** merges with its free neighbours.  What is left is the layout in which the
block is free, merged. -/
theorem free_ok (s : Sound h l) {b : Block} (hb : b ∈ allocated l) :
    (h.free (payload b.start)).Meets admits fun (freed, h') =>
      freed = true ∧ Evolves h l h' (coalesced (freeing [b.start] l)) ∧ h'.size = h.size := by
  obtain ⟨hmem, hused⟩ := mem_allocated.mp hb
  unfold Heap.free
  obtain ⟨c, hc, hp, hblock⟩ | ⟨hnone, -⟩ := s.blockOf_cases (payload b.start)
  case inr => exact absurd rfl (hnone b hmem)
  case inl =>
  obtain rfl := s.eq_of_payload_eq hmem hc hp
  refine Run.meets_lift_bind hblock (Run.meets_lift_bind (s.represents.used b hmem hused) ?_)
  obtain ⟨h₁, h', hinsert, hcoalesce, e, hsize⟩ := s.giveBack_ok hb
  exact Run.meets_lift_bind hinsert (Run.meets_lift_bind hcoalesce (Run.meets_pure ⟨rfl, e, hsize⟩))

/-- **Whatever is not the pointer to an allocated block is ignored**: a pointer to a free block just as
one to no block at all. -/
theorem free_ignores (s : Sound h l) {p : Pointer} (hp : ∀ b ∈ allocated l, p ≠ payload b.start) :
    (h.free p).Meets admits (· = (false, h)) := by
  unfold Heap.free
  obtain ⟨b, hb, heq, hblock⟩ | ⟨-, hblock⟩ := s.blockOf_cases p
  case inr => exact Run.meets_lift_bind hblock (Run.meets_log_bind (Run.meets_pure rfl))
  case inl =>
  obtain ⟨next, prev, hread⟩ := s.represents.exists_header hb
  refine Run.meets_lift_bind hblock (Run.meets_lift_bind hread ?_)
  cases hfree : b.free with
  | true => exact Run.meets_log_bind (Run.meets_pure rfl)
  | false => exact absurd heq (hp b (mem_allocated.mpr ⟨hb, hfree⟩))

/-- **Exactly the pointers to allocated blocks are freed**, and the answer says which pointers were. -/
theorem free_meets (s : Sound h l) (p : Pointer) :
    (h.free p).Meets admits fun (freed, h') =>
      match freed with
      | true => ∃ b ∈ allocated l, p = payload b.start ∧ h'.size = h.size
          ∧ ∃ l', Evolves h l h' l' ∧ allocated l' = (allocated l).erase b
      | false => (∀ b ∈ allocated l, p ≠ payload b.start) ∧ h' = h := by
  by_cases hlive : ∃ b ∈ allocated l, p = payload b.start
  · obtain ⟨b, hb, rfl⟩ := hlive
    refine (s.free_ok hb).imp ?_
    rintro ⟨freed, h'⟩ ⟨rfl, e, hsize⟩
    refine ⟨b, hb, rfl, hsize, _, e, ?_⟩
    rw [allocated_coalesced, s.allocated_freeing (mem_allocated.mp hb).1]
  · have hnone : ∀ b ∈ allocated l, p ≠ payload b.start := fun b hb heq => hlive ⟨b, hb, heq⟩
    refine (s.free_ignores hnone).imp ?_
    rintro _ rfl
    exact ⟨hnone, rfl⟩

/-! ## Zeroed and resized allocations -/

/-- **The bytes that are asked for are zero.**  Those that the payload has beyond the request are left
as they were. -/
theorem calloc_meets (s : Sound h l) (keeps : PageSource.Keeps σ h.window admits I)
    (hI : I h.backed pages) (count size : Nat) :
    (h.calloc pages count size).Meets admits fun (p?, h', pages') =>
      I h'.backed pages' ∧ ∃ l', Evolves h l h' l' ∧
        match p? with
        | none => allocated l' = allocated l
        | some p => ∃ b, Hands l l' b (count * size) p
            ∧ ∀ i < count * size, h'.arena.byte (b.first + i) = 0 := by
  unfold calloc
  by_cases hfits : count * size < 0x1_0000_0000_0000_0000
  case neg =>
    rw [if_neg hfits]
    exact Run.meets_pure ⟨hI, l, s.evolves_refl, rfl⟩
  case pos =>
  rw [if_pos hfits]
  refine (s.alloc_meets keeps hI (count * size)).bind fun (p?, h₁, pages₁) ⟨hI₁, l₁, e, hands⟩ => ?_
  cases p? with
  | none => exact Run.meets_pure ⟨hI₁, l₁, e, hands⟩
  | some p =>
      obtain ⟨b, hb⟩ := hands
      have hmem : b ∈ l₁ := (mem_allocated.mp hb.mem.1).1
      have hfirst : p.offset.toNat = b.first := by
        rw [hb.pointer_eq]
        rfl
      have hlarge := hb.large
      have hstop := e.sound.represents.stop_le hmem
      simp only [Block.stop, Heap.size] at hstop
      have hfill : ∀ j, (h₁.arena.fill b.first 0 (count * size)).byte j
          = if b.first ≤ j ∧ j < b.first + count * size ∧ j < h₁.arena.size then 0
            else h₁.arena.byte j := Arena.byte_fill _ _ _ _
      have houtside : ∀ i, ¬ b.Contains i →
          (h₁.arena.fill b.first 0 (count * size)).byte i = h₁.arena.byte i := by
        intro i hi
        rw [hfill, if_neg fun hin => hi ⟨hin.1, by simp only [Block.stop]; omega⟩]
      have e' := e.write hmem hb.fresh (Arena.size_fill ..) houtside
      rw [← hfirst] at e'
      have hbacked : Heap.backed { h₁ with arena := h₁.arena.fill p.offset.toNat 0 (count * size) }
          = h₁.backed := backed_eq rfl (Arena.size_fill ..)
      refine Run.meets_pure ⟨?_, l₁, e', b, hb, fun i hi => ?_⟩
      · rw [hbacked]
        exact hI₁
      · show (h₁.arena.fill p.offset.toNat 0 (count * size)).byte (b.first + i) = 0
        rw [hfirst, hfill, if_pos (by omega)]

/-- **A block moves** by a copy of its bytes into a block that was handed out for more of them.  The
two payloads do not overlap, so it does not matter in which order bytes are copied. -/
theorem moves_of_copy {h₁ : Heap} {l₁ : List Block} {b c : Block} {p q : Pointer} {size : Nat}
    (hb : b ∈ allocated l) (hp : p = payload b.start) (e : Evolves h l h₁ l₁)
    (hc : Hands l l₁ c size q) (hsmall : b.size.toNat < size) :
    Moves h l b size q
      { h₁ with arena := h₁.arena.copy p.offset.toNat q.offset.toNat b.size.toNat } l₁ := by
  obtain ⟨hcmem, hsub⟩ := hc.mem
  have hcl : c ∈ l₁ := (mem_allocated.mp hcmem).1
  have hbl : b ∈ l₁ := (mem_allocated.mp (hsub hb)).1
  have hne : b ≠ c := by
    rintro rfl
    exact hc.fresh hb
  have hsource : p.offset.toNat = b.first := by
    rw [hp]
    rfl
  have htarget : q.offset.toNat = c.first := by
    rw [hc.pointer_eq]
    rfl
  have hgrow := hc.large
  have hstop := e.sound.represents.stop_le hcl
  simp only [Block.stop, Heap.size] at hstop
  have hapart : b.first + b.size.toNat ≤ c.first ∨ c.first + b.size.toNat ≤ b.first := by
    have := e.sound.before_or_before hbl hcl hne
    simp only [Block.Before, Block.stop, Block.first] at this ⊢
    omega
  -- the copy writes into the new block only, which the old block is apart from
  have hcopy := fun j => Arena.byte_copy h₁.arena b.first c.first b.size.toNat j hapart
  have houtside : ∀ i, ¬ c.Contains i →
      (h₁.arena.copy b.first c.first b.size.toNat).byte i = h₁.arena.byte i := by
    intro i hi
    rw [hcopy, if_neg fun hin => hi ⟨hin.1, by simp only [Block.stop]; omega⟩]
  rw [hsource, htarget]
  refine ⟨e.write hcl hc.fresh (Arena.size_copy ..) houtside, c, hc, fun i hi => ?_⟩
  show (h₁.arena.copy b.first c.first b.size.toNat).byte (c.first + i) = _
  rw [hcopy, if_pos (by omega), Nat.add_sub_cancel_left]
  exact e.payloads b hb (hsub hb) _ ⟨by omega, by simp only [Block.stop]; omega⟩

/-- **What resizing does.**  A pointer that is not to an allocated block is refused; a block that is
large enough stays; otherwise the block moves, with its bytes, or nothing happens to it. -/
theorem realloc_meets (s : Sound h l) (keeps : PageSource.Keeps σ h.window admits I)
    (hI : I h.backed pages) (p : Pointer) {size : Nat} (hsize : size ≠ 0) :
    (h.realloc pages (some p) size).Meets admits fun (q?, h', pages') =>
      I h'.backed pages' ∧ ∃ l', Evolves h l h' l' ∧
        match q? with
        | none => allocated l' = allocated l
        | some q => ∃ b ∈ allocated l, p = payload b.start
            ∧ ((size ≤ b.size.toNat ∧ q = p ∧ h' = h ∧ l' = l)
              ∨ (b.size.toNat < size ∧ ∃ h₁ l₁, Moves h l b size q h₁ l₁ ∧ Evolves h₁ l₁ h' l'
                ∧ allocated l' = (allocated l₁).erase b)) := by
  unfold realloc
  simp only [if_neg hsize]
  rcases s.blockOf_cases p with ⟨b, hb, hp, hblock⟩ | ⟨-, hblock⟩
  case inr => exact Run.meets_lift_bind hblock (Run.meets_pure ⟨hI, l, s.evolves_refl, rfl⟩)
  case inl =>
  obtain ⟨next, prev, hread⟩ := s.represents.exists_header hb
  refine Run.meets_lift_bind hblock (Run.meets_lift_bind hread ?_)
  cases hfree : b.free with
  | true => exact Run.meets_pure ⟨hI, l, s.evolves_refl, rfl⟩
  | false =>
  have hbmem : b ∈ allocated l := mem_allocated.mpr ⟨hb, hfree⟩
  simp only [Bool.false_eq_true, if_false, ne_eq, not_true_eq_false]
  by_cases hlarge : size ≤ b.size.toNat
  case pos =>
    rw [if_pos hlarge]
    exact Run.meets_pure ⟨hI, l, s.evolves_refl, b, hbmem, hp, Or.inl ⟨hlarge, rfl, rfl, rfl⟩⟩
  case neg =>
  rw [if_neg hlarge]
  refine (s.alloc_meets keeps hI size).bind fun (q?, h₁, pages₁) ⟨hI₁, l₁, e, hands⟩ => ?_
  cases q? with
  | none => exact Run.meets_pure ⟨hI₁, l₁, e, hands⟩
  | some q =>
  obtain ⟨c, hc⟩ := hands
  have moves := moves_of_copy hbmem hp e hc (Nat.not_le.mp hlarge)
  have hbmem₁ : b ∈ allocated l₁ := hc.mem.2 hbmem
  have hbl : b ∈ l₁ := (mem_allocated.mp hbmem₁).1
  have e₂ := moves.1
  have hbacked₂ : Heap.backed
      { h₁ with arena := h₁.arena.copy p.offset.toNat q.offset.toNat b.size.toNat } = h₁.backed :=
    backed_eq rfl (Arena.size_copy ..)
  refine (e₂.sound.free_meets p).bind fun (freed, h₃) hfreed => ?_
  cases freed with
  | false => exact absurd hp (hfreed.1 b hbmem₁)
  | true =>
      obtain ⟨b', hb'mem, hp', hsize₃, l₃, e₃, hset₃⟩ := hfreed
      obtain rfl : b = b' := e₂.sound.eq_of_payload_eq hbl (mem_allocated.mp hb'mem).1
        (hp.symm.trans hp')
      have hstays : allocated l ∩ allocated l₃ ⊆ allocated l₁ := by
        rw [hset₃]
        exact Finset.inter_subset_right.trans (Finset.erase_subset ..)
      refine Run.meets_pure ⟨?_, l₃, e₂.trans e₃ hstays, b, hbmem, hp, Or.inr
        ⟨Nat.not_le.mp hlarge, _, l₁, moves, e₃, hset₃⟩⟩
      rw [backed_eq e₃.start_eq hsize₃, hbacked₂]
      exact hI₁

/-! ## What clients write -/

/-- Whatever is freed, the heap evolves and stays on its pages.  Pages are never given back by a heap
that is set up. -/
theorem free_evolves (s : Sound h l) (p : Pointer) :
    (h.free p).Meets admits fun (_, h') => h'.backed = h.backed ∧ ∃ l', Evolves h l h' l' := by
  refine (s.free_meets p).imp ?_
  rintro ⟨freed, h'⟩ hfreed
  cases freed with
  | false =>
      obtain ⟨-, rfl⟩ := hfreed
      exact ⟨rfl, l, s.evolves_refl⟩
  | true =>
      obtain ⟨b, -, -, hsize, l', e, -⟩ := hfreed
      exact ⟨backed_eq e.start_eq hsize, l', e⟩

/-- Whatever is resized, the heap evolves, with or without an answer. -/
theorem realloc_evolves (s : Sound h l) (keeps : PageSource.Keeps σ h.window admits I)
    (hI : I h.backed pages) (p? : Option Pointer) (size : Nat) :
    (h.realloc pages p? size).Meets admits fun (_, h', pages') =>
      I h'.backed pages' ∧ ∃ l', Evolves h l h' l' := by
  cases p? with
  | none =>
      refine (s.alloc_meets keeps hI size).imp ?_
      rintro ⟨q?, h', pages'⟩ ⟨hI', l', e, -⟩
      exact ⟨hI', l', e⟩
  | some p =>
      by_cases hsize : size = 0
      · subst hsize
        refine (s.free_evolves p).bind ?_
        rintro ⟨freed, h'⟩ ⟨hbacked, l', e⟩
        exact Run.meets_pure ⟨hbacked ▸ hI, l', e⟩
      · refine (s.realloc_meets keeps hI p hsize).imp ?_
        rintro ⟨q?, h', pages'⟩ ⟨hI', l', e, -⟩
        exact ⟨hI', l', e⟩

/-- The address of a payload.  All of the payload has addresses of 32 bits, and the addition does not
wrap round. -/
theorem virtAddrOf_ok (s : Sound h l) {b : Block} (hb : b ∈ l) (hpos : 0 < b.size.toNat) :
    ∃ v, h.virtAddrOf (payload b.start) = some v ∧ v.val.toNat = h.start.val.toNat + b.first
      ∧ v.val.toNat + b.size.toNat < 2 ^ 32 := by
  have hstop := s.represents.stop_le hb
  have hle := s.range.size_le
  have hfits := s.range.fits
  simp only [Block.stop] at hstop
  have hoffset : (payload b.start).offset = (b.first : Int) := by
    simp only [payload, Block.first, Int.natCast_add]
  have hinside : ¬ ((payload b.start).offset < 0 ∨ (h.size : Int) ≤ (payload b.start).offset) := by
    rw [hoffset]
    omega
  have hsum : h.start.val.toNat + (payload b.start).offset.toNat < 0x1_0000_0000 := by
    rw [hoffset, Int.toNat_natCast]
    omega
  have hvalue : (UInt32.ofNat (h.start.val.toNat + (payload b.start).offset.toNat)).toNat
      = h.start.val.toNat + b.first := by
    rw [UInt32.toNat_ofNat', Nat.mod_eq_of_lt hsum, hoffset, Int.toNat_natCast]
  generalize hword : UInt32.ofNat (h.start.val.toNat + (payload b.start).offset.toNat) = word
    at hvalue
  refine ⟨⟨word⟩, ?_, hvalue, ?_⟩
  · rw [virtAddrOf, if_neg hinside, VirtAddr.add?, if_pos hsum, hword]
  · rw [hvalue]
    omega

/-- **A client writes into one payload, or nowhere.**  A range that reaches into a header, or from one
payload into the next, is refused as a whole. -/
theorem store_ok (s : Sound h l) (p : Pointer) (v : UInt8) (n : Nat) :
    (h.store p v n = .ok none
        ∧ ∀ b ∈ allocated l, ¬ ((b.first : Int) ≤ p.offset ∧ p.offset + n ≤ b.stop))
      ∨ ∃ b ∈ allocated l, (b.first : Int) ≤ p.offset ∧ p.offset + n ≤ b.stop
        ∧ h.store p v n = .ok (some { h with arena := h.arena.fill p.offset.toNat v n })
        ∧ Sound { h with arena := h.arena.fill p.offset.toNat v n } l := by
  have hholds : ∀ b ∈ l, ((h.headerAt b.start).isFree = 0 ∧ ((b.start.toNat + headerSize : Nat) : Int)
      ≤ p.offset ∧ p.offset + n ≤ ((b.start.toNat + headerSize : Nat) : Int)
        + ((h.headerAt b.start).size.toNat : Int))
      ↔ b.free = false ∧ (b.first : Int) ≤ p.offset ∧ p.offset + n ≤ b.stop := by
    intro b hb
    rw [s.represents.headerAt_isFree hb, s.represents.headerAt_size hb, Block.stop, Int.natCast_add]
    cases b.free <;> simp [Block.first]
  unfold store clientRange
  simp only [s.represents.walk_ok, Checked.ok_bind, List.any_map]
  by_cases hany : ∃ b ∈ allocated l, (b.first : Int) ≤ p.offset ∧ p.offset + n ≤ b.stop
  · obtain ⟨b, hb, hfirst, hstop⟩ := hany
    obtain ⟨hbl, hused⟩ := mem_allocated.mp hb
    refine Or.inr ⟨b, hb, hfirst, hstop, ?_, ?_⟩
    · rw [if_pos]
      · rfl
      · refine List.any_eq_true.mpr ⟨b, hbl, decide_eq_true ?_⟩
        exact (hholds b hbl).mpr ⟨hused, hfirst, hstop⟩
    · refine s.write hbl (Arena.size_fill ..) fun i hi => ?_
      rw [Arena.byte_fill, if_neg fun hin => hi ⟨by omega, by omega⟩]
  · refine Or.inl ⟨?_, fun b hb hin => hany ⟨b, hb, hin⟩⟩
    rw [if_neg]
    · rfl
    · intro hsome
      obtain ⟨b, hb, hpred⟩ := List.any_eq_true.mp hsome
      obtain ⟨hused, hin⟩ := (hholds b hb).mp (of_decide_eq_true hpred)
      exact hany ⟨b, mem_allocated.mpr ⟨hb, hused⟩, hin⟩

end Sound

end

end TinyKernel.Heap
