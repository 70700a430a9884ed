import TinyKernel.Heap.FreeList
import TinyKernel.Proofs.Heap.Header
import TinyKernel.Proofs.Heap.Layout

/-!
# The links of the free list

The free list lives in the headers of the free blocks.  `Heap.Linked` says which headers spell a
given row of blocks; the operations on links are then operations on rows, each of which replaces
headers of that row only.

## What is load-bearing

A row may be a part of the list: it has the link that it is reached from and the link that it leads
to.  Taking a block out and putting one in are both a change of the link that a front part leads to
(`Heap.setNext_ok`) and of the link that a rear part is reached from (`Heap.setPrev_ok`).

Fuel never runs out, because the blocks of a row have headers of their own (`length_le_of_before`).

* `Heap.Chained` — a row that headers spell, whatever they say of being free
* `Heap.HasFreeList` — the free list of a heap
* `Heap.findFit_ok`, `Heap.insertFree_ok`, `Heap.unlink_ok` — the operations
-/

namespace TinyKernel

/-- The link to a row of blocks: its first block, or what comes behind the row if there is no block in
it.  The end of the free list is the link `noBlock`. -/
def firstLink (stop : UInt32) : List Block → UInt32
  | [] => stop
  | b :: _ => b.start

/-- The link to the last block of a row, or to what comes before the row if there is no block in it. -/
def lastLink (prev : UInt32) : List Block → UInt32
  | [] => prev
  | b :: l => lastLink b.start l

@[simp]
theorem firstLink_cons (stop : UInt32) (b : Block) (l : List Block) :
    firstLink stop (b :: l) = b.start := rfl

@[simp]
theorem lastLink_nil (prev : UInt32) : lastLink prev [] = prev := rfl

@[simp]
theorem lastLink_cons (prev : UInt32) (b : Block) (l : List Block) :
    lastLink prev (b :: l) = lastLink b.start l := rfl

theorem firstLink_append (stop : UInt32) (l l' : List Block) :
    firstLink stop (l ++ l') = firstLink (firstLink stop l') l := by
  cases l <;> rfl

@[simp]
theorem lastLink_append (prev : UInt32) (l l' : List Block) :
    lastLink prev (l ++ l') = lastLink (lastLink prev l) l' := by
  induction l generalizing prev with
  | nil => rfl
  | cons b l ih => exact ih b.start

theorem Block.Before.headersApart {a b : Block} (h : a.Before b) :
    HeadersApart a.start b.start :=
  Or.inl (Nat.le_trans a.start_add_header_le_stop h)

/-- Blocks that come one after the other below `n` are no more than `n` in number.  Each takes up a
header at least; the fuel of the loops is never used up for this reason. -/
theorem length_le_of_before {i n : Nat} {l : List Block} (low : ∀ b ∈ l, i ≤ b.start.toNat)
    (high : ∀ b ∈ l, b.start.toNat + headerSize ≤ n) (sorted : l.Pairwise Block.Before) :
    l.length ≤ n - i := by
  induction l generalizing i with
  | nil => exact Nat.zero_le _
  | cons b l ih =>
      obtain ⟨hb, hl⟩ := List.pairwise_cons.mp sorted
      have hlow := low b List.mem_cons_self
      have hhigh := high b List.mem_cons_self
      have hrest := ih (i := b.stop) hb (fun c hc => high c (List.mem_cons_of_mem _ hc)) hl
      have hstop := b.start_add_header_le_stop
      simp only [headerSize, List.length_cons] at *
      omega

namespace Heap

/-- **The headers that spell a row of free blocks**, which is reached from `prev` and leads to `stop`.
A free list is a row from `noBlock` to `noBlock`; the two ends are left open so that a list can be cut
in two parts (`linked_append`). -/
def Linked (h : Heap) : UInt32 → UInt32 → List Block → Prop
  | _, _, [] => True
  | prev, stop, b :: l =>
    h.readHeader b.start
        = .ok { size := b.size, isFree := 1, next := firstLink stop l, prev }
      ∧ Linked h b.start stop l

/-- **The headers that thread a row of blocks**: they say the sizes and the links of `Linked`, and what
they say of being free is left open.  Merging follows links and sizes only, and works on such rows
too. -/
def Chained (h : Heap) (flags : UInt32 → UInt32) : UInt32 → UInt32 → List Block → Prop
  | _, _, [] => True
  | prev, stop, b :: l =>
    h.readHeader b.start
        = .ok { size := b.size, isFree := flags b.start, next := firstLink stop l, prev }
      ∧ Chained h flags b.start stop l

/-- **The free list of a heap** is a row of blocks, given by the head of the list and the headers.
That these blocks are the free ones of the layout is said elsewhere (`Represents`). -/
structure HasFreeList (h : Heap) (l : List Block) : Prop where
  head : h.freeHead = firstLink noBlock l
  linked : Linked h noBlock noBlock l

variable {h h' : Heap} {prev stop : UInt32} {l l' : List Block} {flags : UInt32 → UInt32}

@[simp]
theorem chained_nil : Chained h flags prev stop [] := trivial

theorem chained_cons {b : Block} :
    Chained h flags prev stop (b :: l) ↔
      h.readHeader b.start
          = .ok { size := b.size, isFree := flags b.start, next := firstLink stop l, prev }
        ∧ Chained h flags b.start stop l := Iff.rfl

/-- A row is spelled if it is chained by headers that say 1.  What is proved of chains holds of free
lists by this. -/
theorem linked_iff_chained : Linked h prev stop l ↔ Chained h (fun _ => 1) prev stop l := by
  induction l generalizing prev with
  | nil => rfl
  | cons b l ih => exact and_congr_right fun _ => ih

namespace Chained

theorem congr (ht : Chained h flags prev stop l)
    (eq : ∀ b ∈ l, h'.readHeader b.start = h.readHeader b.start) :
    Chained h' flags prev stop l := by
  induction l generalizing prev with
  | nil => trivial
  | cons b l ih =>
      obtain ⟨hb, hrest⟩ := ht
      refine ⟨(eq b List.mem_cons_self).trans hb, ih hrest fun c hc => ?_⟩
      exact eq c (List.mem_cons_of_mem _ hc)

/-- A row is not touched when headers elsewhere are replaced.  This is the frame rule of the free list:
it is enough that the offsets written to are a header away from each block. -/
theorem frame {os : List UInt32} (ht : Chained h flags prev stop l) (r : Rewrites os h h')
    (apart : ∀ o ∈ os, ∀ b ∈ l, HeadersApart o b.start) : Chained h' flags prev stop l :=
  ht.congr fun b hb => r.readHeader_eq fun o ho => apart o ho b hb

theorem exists_header (ht : Chained h flags prev stop l) {b : Block} (hb : b ∈ l) :
    ∃ next prev', h.readHeader b.start = .ok ⟨b.size, flags b.start, next, prev'⟩ := by
  induction l generalizing prev with
  | nil => cases hb
  | cons c l ih =>
      rcases List.mem_cons.mp hb with rfl | hb
      · exact ⟨_, _, ht.1⟩
      · exact ih ht.2 hb

theorem mem_le (ht : Chained h flags prev stop l) {b : Block} (hb : b ∈ l) :
    b.start.toNat + headerSize ≤ h.size := by
  obtain ⟨next, prev', hread⟩ := ht.exists_header hb
  exact le_of_readHeader hread

theorem length_lt_chainFuel (ht : Chained h flags prev stop l)
    (sorted : l.Pairwise Block.Before) : l.length < h.chainFuel := by
  have := length_le_of_before (i := 0) (fun _ _ => Nat.zero_le _) (fun b hb => ht.mem_le hb) sorted
  unfold chainFuel
  omega

end Chained

@[simp]
theorem linked_nil : Linked h prev stop [] := trivial

theorem linked_cons {b : Block} :
    Linked h prev stop (b :: l) ↔
      h.readHeader b.start = .ok { size := b.size, isFree := 1, next := firstLink stop l, prev }
        ∧ Linked h b.start stop l := Iff.rfl

theorem linked_append :
    Linked h prev stop (l ++ l') ↔
      Linked h prev (firstLink stop l') l ∧ Linked h (lastLink prev l) stop l' := by
  induction l generalizing prev with
  | nil => simp
  | cons b l ih =>
      simp only [List.cons_append, linked_cons, ih, firstLink_append, lastLink_cons]
      exact and_assoc.symm

theorem Linked.congr (hl : Linked h prev stop l)
    (eq : ∀ b ∈ l, h'.readHeader b.start = h.readHeader b.start) : Linked h' prev stop l :=
  linked_iff_chained.mpr ((linked_iff_chained.mp hl).congr eq)

/-- A row is not touched when headers elsewhere are replaced, be they of allocated blocks or of another
part of the list. -/
theorem Linked.frame {os : List UInt32} (hl : Linked h prev stop l) (r : Rewrites os h h')
    (apart : ∀ o ∈ os, ∀ b ∈ l, HeadersApart o b.start) : Linked h' prev stop l :=
  hl.congr fun b hb => r.readHeader_eq fun o ho => apart o ho b hb

theorem Linked.exists_header (hl : Linked h prev stop l) {b : Block} (hb : b ∈ l) :
    ∃ next prev', h.readHeader b.start = .ok ⟨b.size, 1, next, prev'⟩ :=
  (linked_iff_chained.mp hl).exists_header hb

theorem Linked.length_lt_chainFuel (hl : Linked h prev stop l)
    (sorted : l.Pairwise Block.Before) : l.length < h.chainFuel :=
  (linked_iff_chained.mp hl).length_lt_chainFuel sorted

/-- In a heap of less than 2^32 bytes no header lies where links lead nowhere.  A link to a block is
therefore never mistaken for the end of the list. -/
theorem ne_noBlock_of_le (bound : h.size ≤ noBlock.toNat) {o : UInt32}
    (ho : o.toNat + headerSize ≤ h.size) : o ≠ noBlock := by
  rintro rfl
  simp only [headerSize] at ho
  omega

/-! ## Changing one link -/

/-- **Leading a front part elsewhere.**  The last block of the part gets a new successor; a part
without blocks means that the list begins elsewhere.  The links behind the part are not read, so `stop`
may be anything. -/
theorem setNext_ok (bound : h.size ≤ noBlock.toNat) (head : h.freeHead = firstLink stop l)
    (hl : Linked h noBlock stop l) (sorted : l.Pairwise Block.Before) (link : UInt32) :
    ∃ h', h.setNext (lastLink noBlock l) link = .ok h' ∧ h'.freeHead = firstLink link l
      ∧ Linked h' noBlock link l ∧ Rewrites (l.map Block.start) h h' := by
  rcases List.eq_nil_or_concat l with rfl | ⟨front, a, rfl⟩
  · exact ⟨_, if_pos rfl, rfl, trivial, rewrites_freeHead h link _⟩
  · rw [List.concat_eq_append] at *
    rw [linked_append] at hl
    obtain ⟨hfront, ha, -⟩ := hl
    have hne : a.start ≠ noBlock := ne_noBlock_of_le bound (le_of_readHeader ha)
    obtain ⟨h', hupdate, hread, hhead, hr⟩ :=
      updateHeader_ok (fun block => { block with next := link }) ha
    refine ⟨h', ?_, ?_, ?_, hr.mono (by simp)⟩
    · simp only [lastLink_append, lastLink_cons, lastLink_nil]
      exact (if_neg hne).trans hupdate
    · rw [hhead, head, firstLink_append, firstLink_append]
      rfl
    · rw [linked_append]
      refine ⟨hfront.frame hr fun o ho b hb => ?_, hread, trivial⟩
      obtain rfl := List.mem_singleton.mp ho
      have := (List.pairwise_append.mp sorted).2.2 b hb a List.mem_cons_self
      exact this.headersApart.symm

/-- **Reaching a rear part from elsewhere.**  The first block of the part gets a new predecessor; a
part without blocks leaves nothing to do. -/
theorem Chained.setPrev_ok (bound : h.size ≤ noBlock.toNat)
    (ht : Chained h flags prev noBlock l) (sorted : l.Pairwise Block.Before) (link : UInt32) :
    ∃ h', h.setPrev (firstLink noBlock l) link = .ok h' ∧ h'.freeHead = h.freeHead
      ∧ Chained h' flags link noBlock l ∧ Rewrites (l.map Block.start) h h' := by
  cases l with
  | nil => exact ⟨h, if_pos rfl, rfl, trivial, Rewrites.refl h⟩
  | cons b l =>
      obtain ⟨hb, hrest⟩ := ht
      have hne : b.start ≠ noBlock := ne_noBlock_of_le bound (le_of_readHeader hb)
      obtain ⟨h', hupdate, hread, hhead, hr⟩ :=
        updateHeader_ok (fun block => { block with prev := link }) hb
      refine ⟨h', (if_neg hne).trans hupdate, hhead, ⟨hread, ?_⟩, hr.mono (by simp)⟩
      refine hrest.frame hr fun o ho c hc => ?_
      obtain rfl := List.mem_singleton.mp ho
      exact ((List.pairwise_cons.mp sorted).1 c hc).headersApart

theorem setPrev_ok (bound : h.size ≤ noBlock.toNat) (hl : Linked h prev noBlock l)
    (sorted : l.Pairwise Block.Before) (link : UInt32) :
    ∃ h', h.setPrev (firstLink noBlock l) link = .ok h' ∧ h'.freeHead = h.freeHead
      ∧ Linked h' link noBlock l ∧ Rewrites (l.map Block.start) h h' := by
  simp only [linked_iff_chained] at hl ⊢
  exact hl.setPrev_ok bound sorted link

/-! ## Operations -/

/-- The walk of first fit finds the first block of the row that is large enough.  The fuel has to last
for the row. -/
theorem findFitFrom_ok (bound : h.size ≤ noBlock.toNat) (size : Nat) {fuel : Nat}
    (hfuel : l.length ≤ fuel) (hl : Linked h prev noBlock l) :
    h.findFitFrom size fuel (firstLink noBlock l)
      = .ok ((l.find? fun b => size ≤ b.size.toNat).map Block.start) := by
  induction l generalizing prev fuel with
  | nil =>
      rw [findFitFrom.eq_def]
      exact if_pos rfl
  | cons b l ih =>
      obtain ⟨hb, hrest⟩ := hl
      have hne : b.start ≠ noBlock := ne_noBlock_of_le bound (le_of_readHeader hb)
      obtain ⟨fuel, rfl⟩ : ∃ n, fuel = n + 1 := ⟨fuel - 1, by simp at hfuel; omega⟩
      rw [findFitFrom.eq_def, firstLink_cons]
      simp only [if_neg hne, Checked.bind_of_ok hb]
      by_cases hfit : size ≤ b.size.toNat
      · rw [if_pos hfit, List.find?_cons_of_pos (by simpa using hfit)]
        rfl
      · rw [if_neg hfit, List.find?_cons_of_neg (by simpa using hfit)]
        exact ih (by simpa using hfuel) hrest

/-- **First fit** answers the first block of the free list that is large enough.  The fuel of the code
is enough for any list in address order, and so does not show in the answer. -/
theorem findFit_ok (bound : h.size ≤ noBlock.toNat) (size : Nat) (hfree : HasFreeList h l)
    (sorted : l.Pairwise Block.Before) :
    h.findFit size = .ok ((l.find? fun b => size ≤ b.size.toNat).map Block.start) := by
  have hfuel := hfree.linked.length_lt_chainFuel sorted
  rw [findFit, hfree.head]
  exact findFitFrom_ok bound size (Nat.le_of_lt hfuel) hfree.linked

/-- The walk of insertion passes the blocks that lie before the new one, and stops in front of those
behind it.  Where to cut the row is for the caller to say. -/
theorem placeFrom_ok (bound : h.size ≤ noBlock.toNat) {offset : UInt32} {fuel : Nat}
    (hfuel : l.length ≤ fuel) (hl : Linked h prev noBlock (l ++ l'))
    (front : ∀ b ∈ l, b.start < offset) (rear : ∀ b ∈ l', offset ≤ b.start) :
    h.placeFrom offset fuel prev (firstLink noBlock (l ++ l'))
      = .ok (lastLink prev l, firstLink noBlock l') := by
  induction l generalizing prev fuel with
  | nil =>
      rw [placeFrom.eq_def]
      refine if_pos ?_
      cases l' with
      | nil => exact Or.inl rfl
      | cons b l' => exact Or.inr (rear b List.mem_cons_self)
  | cons b l ih =>
      obtain ⟨hb, hrest⟩ := hl
      have hne : b.start ≠ noBlock := ne_noBlock_of_le bound (le_of_readHeader hb)
      have hlt : b.start < offset := front b List.mem_cons_self
      obtain ⟨fuel, rfl⟩ : ∃ n, fuel = n + 1 := ⟨fuel - 1, by simp at hfuel; omega⟩
      rw [placeFrom.eq_def, List.cons_append, firstLink_cons]
      simp only [if_neg (not_or_intro hne (UInt32.not_le.mpr hlt)), Checked.bind_of_ok hb]
      exact ih (by simpa using hfuel) hrest fun c hc => front c (List.mem_cons_of_mem _ hc)

/-- The blocks in front of a block and those behind it, of a row that is in address order.  All that
insertion and unlinking need to know of the order is in these five facts. -/
theorem before_of_sorted {r : Block} (sorted : (l ++ r :: l').Pairwise Block.Before) :
    l.Pairwise Block.Before ∧ l'.Pairwise Block.Before ∧ (∀ a ∈ l, a.Before r)
      ∧ (∀ b ∈ l', r.Before b) ∧ ∀ a ∈ l, ∀ b ∈ l', a.Before b := by
  obtain ⟨hl, hrl', hcross⟩ := List.pairwise_append.mp sorted
  obtain ⟨hr, hl'⟩ := List.pairwise_cons.mp hrl'
  refine ⟨hl, hl', fun a ha => hcross a ha r List.mem_cons_self, hr, fun a ha b hb => ?_⟩
  exact hcross a ha b (List.mem_cons_of_mem _ hb)

/-- **Insertion puts a block between those before it and those behind it.**  Only the header of the
block and those of its two neighbours are written; of the block itself just the size is kept. -/
theorem insertFree_ok (bound : h.size ≤ noBlock.toNat) {r : Block} {header : BlockHeader}
    (hfree : HasFreeList h (l ++ l')) (sorted : (l ++ r :: l').Pairwise Block.Before)
    (hr : h.readHeader r.start = .ok header) (hsize : header.size = r.size) :
    ∃ h', h.insertFree r.start = .ok h' ∧ HasFreeList h' (l ++ r :: l')
      ∧ Rewrites ((l ++ r :: l').map Block.start) h h' := by
  obtain ⟨hsl, hsl', hlr, hrl', hll'⟩ := before_of_sorted sorted
  have hfuel := hfree.linked.length_lt_chainFuel (List.pairwise_append.mpr ⟨hsl, hsl', hll'⟩)
  obtain ⟨hl, hl'⟩ := linked_append.mp hfree.linked
  have hplace : h.placeFrom r.start h.chainFuel noBlock h.freeHead
      = .ok (lastLink noBlock l, firstLink noBlock l') := by
    rw [hfree.head]
    refine placeFrom_ok bound (by simp at hfuel; omega) hfree.linked (fun a ha => ?_) fun b hb => ?_
    · have := Nat.le_trans a.start_add_header_le_stop (hlr a ha)
      rw [UInt32.lt_iff_toNat_lt]
      simp only [headerSize] at this
      omega
    · exact UInt32.le_iff_toNat_le.mpr
        (Nat.le_trans (Nat.le_of_add_right_le r.start_add_header_le_stop) (hrl' b hb))
  -- the block itself, then the part in front of it, then the part behind it
  obtain ⟨h₁, hupdate, hr₁, hhead₁, hw₁⟩ := updateHeader_ok
    (fun block => { block with
      isFree := 1, prev := lastLink noBlock l, next := firstLink noBlock l' }) hr
  have hl₁ : Linked h₁ noBlock (firstLink noBlock l') l :=
    hl.frame hw₁ fun o ho a ha => by
      obtain rfl := List.mem_singleton.mp ho
      exact (hlr a ha).headersApart.symm
  have hl'₁ : Linked h₁ (lastLink noBlock l) noBlock l' :=
    hl'.frame hw₁ fun o ho b hb => by
      obtain rfl := List.mem_singleton.mp ho
      exact (hrl' b hb).headersApart
  obtain ⟨h₂, hnext, hhead₂, hl₂, hw₂⟩ := setNext_ok (by rw [hw₁.size_eq]; exact bound)
    (by rw [hhead₁, hfree.head, firstLink_append]) hl₁ hsl r.start
  have hr₂ := (hw₂.readHeader_eq fun o ho => by
    obtain ⟨a, ha, rfl⟩ := List.mem_map.mp ho
    exact (hlr a ha).headersApart).trans hr₁
  have hl'₂ := hl'₁.frame hw₂ fun o ho b hb => by
    obtain ⟨a, ha, rfl⟩ := List.mem_map.mp ho
    exact (hll' a ha b hb).headersApart
  obtain ⟨h₃, hprev, hhead₃, hl'₃, hw₃⟩ := setPrev_ok
    (by rw [hw₂.size_eq, hw₁.size_eq]; exact bound) hl'₂ hsl' r.start
  have hl₃ := hl₂.frame hw₃ fun o ho a ha => by
    obtain ⟨b, hb, rfl⟩ := List.mem_map.mp ho
    exact (hll' a ha b hb).headersApart.symm
  have hr₃ := (hw₃.readHeader_eq fun o ho => by
    obtain ⟨b, hb, rfl⟩ := List.mem_map.mp ho
    exact (hrl' b hb).headersApart.symm).trans hr₂
  refine ⟨h₃, ?_, ⟨?_, ?_⟩, ?_⟩
  · rw [insertFree, Checked.bind_of_ok hplace]
    simp only [Checked.bind_of_ok hupdate, Checked.bind_of_ok hnext]
    exact hprev
  · rw [hhead₃, hhead₂, firstLink_append, firstLink_cons]
  · rw [linked_append, linked_cons, ← hsize]
    exact ⟨hl₃, hr₃, hl'₃⟩
  · refine (hw₁.mono ?_).trans ((hw₂.mono ?_).trans (hw₃.mono ?_)) <;> simp

/-- **Unlinking takes a block out of the list.**  The header of the block is left as it is, and so what
it says is stale from then on. -/
theorem unlink_ok (bound : h.size ≤ noBlock.toNat) {r : Block}
    (hfree : HasFreeList h (l ++ r :: l')) (sorted : (l ++ r :: l').Pairwise Block.Before) :
    ∃ h', h.unlink r.start = .ok h' ∧ HasFreeList h' (l ++ l')
      ∧ Rewrites ((l ++ l').map Block.start) h h' := by
  obtain ⟨hsl, hsl', -, -, hll'⟩ := before_of_sorted sorted
  obtain ⟨hl, hr, hl'⟩ := linked_append.mp hfree.linked
  obtain ⟨h₁, hnext, hhead₁, hl₁, hw₁⟩ := setNext_ok bound
    (by rw [hfree.head, firstLink_append]) hl hsl (firstLink noBlock l')
  have hl'₁ := hl'.frame hw₁ fun o ho b hb => by
    obtain ⟨a, ha, rfl⟩ := List.mem_map.mp ho
    exact (hll' a ha b hb).headersApart
  obtain ⟨h₂, hprev, hhead₂, hl'₂, hw₂⟩ := setPrev_ok (by rw [hw₁.size_eq]; exact bound) hl'₁ hsl'
    (lastLink noBlock l)
  have hl₂ := hl₁.frame hw₂ fun o ho a ha => by
    obtain ⟨b, hb, rfl⟩ := List.mem_map.mp ho
    exact (hll' a ha b hb).headersApart.symm
  refine ⟨h₂, ?_, ⟨?_, ?_⟩, ?_⟩
  · rw [unlink, Checked.bind_of_ok hr]
    simp only [Checked.bind_of_ok hnext]
    exact hprev
  · rw [hhead₂, hhead₁, firstLink_append]
  · exact linked_append.mpr ⟨hl₂, hl'₂⟩
  · refine (hw₁.mono ?_).trans (hw₂.mono ?_) <;> simp

end Heap

end TinyKernel
