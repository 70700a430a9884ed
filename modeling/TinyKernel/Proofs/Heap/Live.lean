import TinyKernel.Proofs.Heap.Isolation
import TinyKernel.Proofs.Heap.Recognition

/-!
# Who owns the allocated blocks

The blocks of one heap belong to several owners, which know nothing of each other: clients hold the
pointers that they were answered with, and processes hold their stacks.  What an operation does to the
live pointers is said here once and without layouts, so that each owner can be accounted for where it
is defined.

## What is load-bearing

Whoever gives a pointer back need not have it: a pointer that is not live is struck off all the same,
and nothing else changes.  So the answer of `free` makes no difference to the books, and all that an
owner has to see to is that a pointer that it gives back is not somebody else's.

* `Heap.Trades` — which pointers an operation makes live, and which it takes out
* `Heap.Sound.alloc_trades`, `Heap.Sound.calloc_trades`, `Heap.Sound.free_trades`,
  `Heap.Sound.realloc_trades`, `Heap.Sound.store_trades` — the operations
* `Heap.OwnedBy` — the live pointers are those of a list of owners
* `Heap.Sound.pairwise_apart`, `Heap.Sound.stats_owned` — what follows for the blocks
-/

namespace TinyKernel.Heap

instance (h : Heap) (p : Pointer) : Decidable (h.IsLive p) :=
  match hwalk : h.walk with
  | .error _ => isFalse fun ⟨_, hok, _⟩ => by simp [hwalk] at hok
  | .ok blocks =>
    decidable_of_iff (∃ b ∈ blocks, b.2.isFree = 0 ∧ p = payload b.1)
      ⟨fun hb => ⟨blocks, hwalk, hb⟩, fun ⟨_, hok, hb⟩ => by
        obtain rfl := Except.ok.inj (hwalk.symm.trans hok)
        exact hb⟩

/-- **Two blocks lie apart**, headers included: between the two payloads there is room for a header at
least. -/
def Apart (h : Heap) (p q : Pointer) : Prop :=
  p.offset + h.payloadSize p + headerSize ≤ q.offset
    ∨ q.offset + h.payloadSize q + headerSize ≤ p.offset

/-- **What an operation does to the live pointers**: one may become live, and one that was given back
no longer is, unless it is the one that becomes live.  All other blocks stay where they are.  It says
nothing about bytes; owners that only keep pointers, such as the process table, need no more. -/
structure Trades (h h' : Heap) (out back : Option Pointer) : Prop where
  isLive_iff : ∀ q, h'.IsLive q ↔ q ∈ out ∨ h.IsLive q ∧ q ∉ back
  fresh : ∀ q ∈ out, h.IsLive q → q ∈ back
  payloadSize_eq : ∀ q, h.IsLive q → q ∉ back → h'.payloadSize q = h.payloadSize q
  virtAddrOf_eq : ∀ q, h.IsLive q → h'.virtAddrOf q = h.virtAddrOf q

/-- The pointer that resizing gives back: the old one, unless there is no answer although something was
asked for.  In that case the old block is still there. -/
def resizedAway (p? : Option Pointer) (size : Nat) : Option Pointer → Option Pointer
  | none => if size = 0 then p? else none
  | some _ => p?

@[simp]
theorem resizedAway_none (size : Nat) (q? : Option Pointer) : resizedAway none size q? = none := by
  cases q? <;> simp [resizedAway]

/-- Only the old pointer is given back.  Nobody else's allocation ends when one is resized. -/
theorem eq_of_mem_resizedAway {p : Pointer} {p? q? : Option Pointer} {size : Nat}
    (hp : p ∈ resizedAway p? size q?) : p? = some p := by
  cases q? with
  | some q => exact hp
  | none =>
      by_cases hsize : size = 0
      · simpa [resizedAway, hsize] using hp
      · simp [resizedAway, hsize] at hp

theorem resizedAway_refused (p? : Option Pointer) {size : Nat} (hsize : size ≠ 0) :
    resizedAway p? size none = none := if_neg hsize

/-- **The live pointers are those of some owners**, each of which has it once.  A list and not a set,
so that a pointer that is owned twice would show; and both directions, so that a block that nobody owns
would show as well. -/
structure OwnedBy (h : Heap) (owners : List Pointer) : Prop where
  nodup : owners.Nodup
  isLive_iff : ∀ p, h.IsLive p ↔ p ∈ owners

variable {h h' : Heap} {l l' : List Block} {p q : Pointer} {out back : Option Pointer}

/-- A pointer that is not live can be given back, to no effect.  Clients may therefore free what they
like. -/
theorem Trades.of_not_isLive (hp : ¬ h.IsLive p) : Trades h h none (some p) where
  isLive_iff q := by
    constructor
    · exact fun hq => Or.inr ⟨hq, fun heq => hp (Option.some.inj heq ▸ hq)⟩
    · rintro (hq | ⟨hq, -⟩)
      · cases hq
      · exact hq
  fresh q hq := by cases hq
  payloadSize_eq _ _ _ := rfl
  virtAddrOf_eq _ _ := rfl

namespace Sound

/-! ## Layouts -/

/-- The address of a live pointer does not depend on how far the heap has grown.  A stack stays where
it was when its process was created. -/
theorem virtAddrOf_eq (s : Sound h l) (hp : h.IsLive p) (start_eq : h'.start = h.start)
    (size_le : h.size ≤ h'.size) : h'.virtAddrOf p = h.virtAddrOf p := by
  obtain ⟨b, hb, rfl⟩ := s.isLive_iff.mp hp
  have hbl := (mem_allocated.mp hb).1
  have hstop := s.represents.stop_le hbl
  have hpos := s.sizes b hbl
  have hoffset : (payload b.start).offset = (b.first : Int) := by
    simp only [payload, Block.first, Int.natCast_add]
  simp only [Block.stop] at hstop
  rw [virtAddrOf, virtAddrOf, hoffset, start_eq, if_neg (by omega), if_neg (by omega)]

/-- **Whoever has a live pointer reads the same there**, as long as no block that was allocated is
freed.  Other operations of the heap may go on in the meantime. -/
theorem load_eq (s : Sound h l) (e : Evolves h l h' l') (stays : allocated l ⊆ allocated l')
    (hp : h.IsLive p) {i : Nat} (hi : i < h.payloadSize p) :
    h'.load ⟨p.offset + i⟩ 1 = h.load ⟨p.offset + i⟩ 1 := by
  obtain ⟨b, hb, rfl⟩ := s.isLive_iff.mp hp
  have hoffset : (payload b.start).offset = (b.first : Int) := by
    simp only [payload, Block.first, Int.natCast_add]
  rw [s.payloadSize_eq (mem_allocated.mp hb).1] at hi
  have hinside : b.Contains (b.first + i) := by
    refine ⟨Nat.le_add_right _ _, ?_⟩
    simp only [Block.stop, Block.first] at hi ⊢
    omega
  rw [hoffset, s.load_ok hb hi, e.sound.load_ok (stays hb) hi,
    e.payloads b hb (stays hb) _ hinside]

/-- **Allocated blocks are traded** for pointers.  What is known of sets of blocks before and after is
said of live pointers here, once for all operations. -/
theorem trades (s : Sound h l) (s' : Sound h' l') (start_eq : h'.start = h.start)
    (size_le : h.size ≤ h'.size) (out back : Option Block)
    (fresh : ∀ b ∈ out, b ∈ allocated l → b ∈ back) (returned : ∀ b ∈ back, b ∈ allocated l)
    (mem_iff : ∀ b, b ∈ allocated l' ↔ b ∈ out ∨ b ∈ allocated l ∧ b ∉ back) :
    Trades h h' (out.map fun b => payload b.start) (back.map fun b => payload b.start) := by
  have hback : ∀ b ∈ allocated l, payload b.start ∈ back.map (fun b => payload b.start) → b ∈ back := by
    intro b hb hmem
    obtain ⟨c, hc, heq⟩ := Option.mem_map.mp hmem
    obtain rfl := s.eq_of_payload_eq (mem_allocated.mp (returned c hc)).1 (mem_allocated.mp hb).1 heq
    exact hc
  refine ⟨fun q => ?_, fun q hq hlive => ?_, fun q hq hnot => ?_, fun q hq =>
    s.virtAddrOf_eq hq start_eq size_le⟩
  · rw [s'.isLive_iff, s.isLive_iff]
    constructor
    · rintro ⟨b, hb, rfl⟩
      rcases (mem_iff b).mp hb with hout | ⟨hb, hnot⟩
      · exact Or.inl (Option.mem_map.mpr ⟨b, hout, rfl⟩)
      · exact Or.inr ⟨⟨b, hb, rfl⟩, fun hmem => hnot (hback b hb hmem)⟩
    · rintro (hout | ⟨⟨b, hb, rfl⟩, hnot⟩)
      · obtain ⟨b, hb, rfl⟩ := Option.mem_map.mp hout
        exact ⟨b, (mem_iff b).mpr (Or.inl hb), rfl⟩
      · have hb' : b ∉ back := fun hmem => hnot (Option.mem_map.mpr ⟨b, hmem, rfl⟩)
        exact ⟨b, (mem_iff b).mpr (Or.inr ⟨hb, hb'⟩), rfl⟩
  · obtain ⟨c, hc, rfl⟩ := Option.mem_map.mp hq
    obtain ⟨b, hb, heq⟩ := s.isLive_iff.mp hlive
    by_cases hmem : b ∈ back
    · exact Option.mem_map.mpr ⟨b, hmem, heq.symm⟩
    · -- both blocks are allocated afterwards, and so they are one
      have hb' := (mem_iff b).mpr (Or.inr ⟨hb, hmem⟩)
      have hc' := (mem_iff c).mpr (Or.inl hc)
      obtain rfl := s'.eq_of_payload_eq (mem_allocated.mp hc').1 (mem_allocated.mp hb').1 heq
      exact absurd (fresh c hc hb) hmem
  · obtain ⟨b, hb, rfl⟩ := s.isLive_iff.mp hq
    have hmem : b ∉ back := fun hmem => hnot (Option.mem_map.mpr ⟨b, hmem, rfl⟩)
    have hb' := (mem_iff b).mpr (Or.inr ⟨hb, hmem⟩)
    rw [s'.payloadSize_eq (mem_allocated.mp hb').1, s.payloadSize_eq (mem_allocated.mp hb).1]

/-- A heap whose allocated blocks stay the same trades nothing.  This covers every request that is
refused. -/
theorem trades_nothing (s : Sound h l) (s' : Sound h' l') (start_eq : h'.start = h.start)
    (size_le : h.size ≤ h'.size) (hset : allocated l' = allocated l) : Trades h h' none none :=
  s.trades s' start_eq size_le none none (by simp) (by simp) (by simp [hset])

/-! ## Operations -/

section

variable {σ : Type} [PageSource σ] {admits : Fault → Prop} {I : Finset VirtAddr → σ → Prop}
  {pages : σ}

theorem free_trades (s : Sound h l) (p : Pointer) :
    (h.free p).Meets admits fun (_, h') => Trades h h' none (some p) := by
  refine (s.free_meets p).imp ?_
  rintro ⟨freed, h'⟩ hfreed
  cases freed with
  | false =>
      obtain ⟨hnone, rfl⟩ := hfreed
      refine Trades.of_not_isLive fun hlive => ?_
      obtain ⟨b, hb, hp⟩ := s.isLive_iff.mp hlive
      exact hnone b hb hp
  | true =>
      obtain ⟨b, hb, rfl, -, l', e, hset⟩ := hfreed
      refine s.trades e.sound e.start_eq e.size_le none (some b) (by simp)
        (by simpa using hb) fun c => ?_
      rw [hset, Finset.mem_erase]
      simp [and_comm, eq_comm]

/-- Whoever is answered with a block has as many bytes as asked for, and is its only owner. -/
theorem Hands.trades (s : Sound h l) (e : Evolves h l h' l') {b : Block} {size : Nat}
    (hands : Hands l l' b size p) : Trades h h' (some p) none ∧ size ≤ h'.payloadSize p := by
  obtain rfl := hands.pointer_eq
  refine ⟨s.trades e.sound e.start_eq e.size_le (some b) none ?_ (by simp) ?_, ?_⟩
  · intro c hc hmem
    obtain rfl := Option.some.inj hc
    exact absurd hmem hands.fresh
  · intro c
    rw [hands.allocated_eq, Finset.mem_insert]
    simp [eq_comm]
  · rw [e.sound.payloadSize_eq (mem_allocated.mp hands.mem.1).1]
    exact hands.large

theorem alloc_trades (s : Sound h l) (keeps : PageSource.Keeps σ h.window admits I)
    (hI : I h.backed pages) (size : Nat) :
    (h.alloc pages size).Meets admits fun (p?, h', _) =>
      Trades h h' p? none ∧ ∀ p ∈ p?, size ≤ h'.payloadSize p := by
  refine (s.alloc_meets keeps hI size).imp ?_
  rintro ⟨p?, h', pages'⟩ ⟨-, l', e, hands⟩
  cases p? with
  | none => exact ⟨s.trades_nothing e.sound e.start_eq e.size_le hands, by simp⟩
  | some p =>
      obtain ⟨b, hb⟩ := hands
      obtain ⟨t, hlarge⟩ := Hands.trades s e hb
      exact ⟨t, by simpa using hlarge⟩

theorem calloc_trades (s : Sound h l) (keeps : PageSource.Keeps σ h.window admits I)
    (hI : I h.backed pages) (count size : Nat) :
    (h.calloc pages count size).Meets admits fun (p?, h', _) => Trades h h' p? none := by
  refine (s.calloc_meets keeps hI count size).imp ?_
  rintro ⟨p?, h', pages'⟩ ⟨-, l', e, hands⟩
  cases p? with
  | none => exact s.trades_nothing e.sound e.start_eq e.size_le hands
  | some p =>
      obtain ⟨b, hb, -⟩ := hands
      exact (Hands.trades s e hb).1

/-- **Resizing** gives the pointer back, unless the request for more room is refused.  A block that
stays is given back and handed out in one. -/
theorem realloc_trades (s : Sound h l) (keeps : PageSource.Keeps σ h.window admits I)
    (hI : I h.backed pages) (p? : Option Pointer) (size : Nat) :
    (h.realloc pages p? size).Meets admits fun (q?, h', _) =>
      Trades h h' q? (resizedAway p? size q?) := by
  cases p? with
  | none =>
      refine (s.alloc_trades keeps hI size).imp ?_
      rintro ⟨q?, h', pages'⟩ ⟨t, -⟩
      rwa [← resizedAway_none size q?] at t
  | some p =>
  by_cases hsize : size = 0
  case pos =>
    subst hsize
    exact (s.free_trades p).bind fun (_, h') t => Run.meets_pure t
  case neg =>
  refine (s.realloc_meets keeps hI p hsize).imp ?_
  rintro ⟨q?, h', pages'⟩ ⟨-, l', e, hanswer⟩
  cases q? with
  | none =>
      dsimp only
      rw [resizedAway_refused (some p) hsize]
      exact s.trades_nothing e.sound e.start_eq e.size_le hanswer
  | some q =>
  obtain ⟨b, hb, rfl, ⟨-, rfl, rfl, rfl⟩ | ⟨-, h₁, l₁, ⟨-, c, hands, -⟩, -, hset⟩⟩ := hanswer
  · -- the block is large enough, and is its own successor
    refine s.trades s rfl (Nat.le_refl _) (some b) (some b) (by simp)
      (by simpa using hb) fun c => ?_
    by_cases hc : b = c
    · simp [← hc, hb]
    · simp [hc]
  · obtain rfl := hands.pointer_eq
    have hne : b ≠ c := by
      rintro rfl
      exact hands.fresh hb
    refine s.trades e.sound e.start_eq e.size_le (some c) (some b) ?_
      (by simpa using hb) fun d => ?_
    · intro d hd hmem
      obtain rfl := Option.some.inj hd
      exact absurd hmem hands.fresh
    · rw [hset, Finset.mem_erase, hands.allocated_eq, Finset.mem_insert]
      by_cases hd : c = d
      · simp [← hd, hne.symm]
      · simp [hd, Ne.symm hd, and_comm, eq_comm]

end

/-- What clients write into payloads makes no block and ends none. -/
theorem store_trades (s : Sound h l) (p : Pointer) (v : UInt8) (n : Nat) :
    ∃ heap?, h.store p v n = .ok heap? ∧ ∀ h' ∈ heap?, Trades h h' none none := by
  rcases s.store_ok p v n with ⟨hstore, -⟩ | ⟨b, -, -, -, hstore, s'⟩
  · exact ⟨none, hstore, by simp⟩
  · refine ⟨_, hstore, fun h' hh' => ?_⟩
    obtain rfl := Option.some.inj hh'
    exact s.trades_nothing s' rfl (Nat.le_of_eq (Arena.size_fill ..).symm) rfl

end Sound

/-! ## Owners -/

namespace OwnedBy

variable {owners owners' : List Pointer}

theorem perm (o : h.OwnedBy owners) (hperm : owners.Perm owners') : h.OwnedBy owners' where
  nodup := hperm.nodup_iff.mp o.nodup
  isLive_iff p := (o.isLive_iff p).trans hperm.mem_iff

/-- **The books after a trade**: what was given back is struck off, and what was handed out is added in
front. -/
theorem trade (o : h.OwnedBy owners) (t : Trades h h' out back) :
    h'.OwnedBy (out.toList ++ back.elim owners owners.erase) := by
  have hmem : ∀ q, q ∈ back.elim owners owners.erase ↔ h.IsLive q ∧ q ∉ back := by
    intro q
    cases back with
    | none => simp [o.isLive_iff]
    | some p => simp [o.isLive_iff, o.nodup.mem_erase_iff, and_comm, eq_comm]
  have hnodup : (back.elim owners owners.erase).Nodup := by
    cases back with
    | none => exact o.nodup
    | some p => exact o.nodup.erase p
  refine ⟨List.nodup_append.mpr ⟨?_, hnodup, ?_⟩, fun q => ?_⟩
  · cases out <;> simp
  · rintro q hq q' hq' rfl
    obtain ⟨hlive, hnot⟩ := (hmem q).mp hq'
    exact hnot (t.fresh q (Option.mem_toList.mp hq) hlive)
  · rw [t.isLive_iff, List.mem_append, hmem, Option.mem_toList, Option.mem_def]

/-- **The books of one owner after a trade**, who gives nothing back that is somebody else's.  Their
entries stay as they are. -/
theorem trade_append {others : List Pointer} (o : h.OwnedBy (owners ++ others))
    (t : Trades h h' out back) (mine : ∀ p ∈ back, p ∉ others) :
    h'.OwnedBy (out.toList ++ back.elim owners owners.erase ++ others) := by
  have hsplit : back.elim (owners ++ others) (owners ++ others).erase
      = back.elim owners owners.erase ++ others := by
    cases back with
    | none => rfl
    | some p =>
        have hp := mine p rfl
        show (owners ++ others).erase p = owners.erase p ++ others
        by_cases hmem : p ∈ owners
        · exact List.erase_append_left _ hmem
        · rw [List.erase_append_right _ hmem, List.erase_of_not_mem hp, List.erase_of_not_mem hmem]
  rw [List.append_assoc, ← hsplit]
  exact o.trade t

end OwnedBy

namespace Sound

variable {owners : List Pointer}

/-- A heap of one free block is nobody's.  Kernels boot with such a heap. -/
theorem ownedBy_nil (s : Sound h l) (hfree : ∀ b ∈ l, b.free = true) : h.OwnedBy [] where
  nodup := List.nodup_nil
  isLive_iff p := by
    rw [s.isLive_iff]
    refine iff_of_false ?_ List.not_mem_nil
    rintro ⟨b, hb, -⟩
    obtain ⟨hbl, hused⟩ := mem_allocated.mp hb
    rw [hfree b hbl] at hused
    cases hused

/-- **The blocks of the owners lie apart**, so that no owner writes into the block of another. -/
theorem pairwise_apart (s : Sound h l) (o : h.OwnedBy owners) : owners.Pairwise h.Apart := by
  refine o.nodup.imp_of_mem fun {p q} hp hq hne => ?_
  obtain ⟨b, hb, rfl⟩ := s.isLive_iff.mp ((o.isLive_iff p).mpr hp)
  obtain ⟨c, hc, rfl⟩ := s.isLive_iff.mp ((o.isLive_iff q).mpr hq)
  have hbl := (mem_allocated.mp hb).1
  have hcl := (mem_allocated.mp hc).1
  have hbc : b ≠ c := by
    rintro rfl
    exact hne rfl
  have hbefore := s.before_or_before hbl hcl hbc
  rw [Apart, s.payloadSize_eq hbl, s.payloadSize_eq hcl]
  simp only [Block.Before, Block.stop, Block.first, payload] at hbefore ⊢
  omega

/-- The owners have the payloads of the allocated blocks, each of them one. -/
theorem perm_usedBlocks (s : Sound h l) (o : h.OwnedBy owners) :
    owners.Perm ((usedBlocks l).map fun b => payload b.start) := by
  have hmem : ∀ b, b ∈ usedBlocks l ↔ b ∈ allocated l := by simp [allocated]
  have hnodup : ((usedBlocks l).map fun b => payload b.start).Nodup := by
    have hsorted : (usedBlocks l).Pairwise Block.Before :=
      s.represents.tiles.pairwise.sublist List.filter_sublist
    refine List.pairwise_map.mpr (hsorted.imp fun {b c} hbc heq => ?_)
    have := b.start_add_header_le_stop
    simp only [Block.Before, payload, Pointer.mk.injEq, headerSize] at hbc heq this
    omega
  refine (List.perm_ext_iff_of_nodup o.nodup hnodup).mpr fun p => ?_
  rw [← o.isLive_iff, s.isLive_iff, List.mem_map]
  constructor
  · rintro ⟨b, hb, rfl⟩
    exact ⟨b, (hmem b).mpr hb, rfl⟩
  · rintro ⟨b, hb, rfl⟩
    exact ⟨b, (hmem b).mp hb, rfl⟩

/-- **As many blocks are allocated as there are owners.**  A block that nobody owns would be a leak,
and could be seen in the statistics. -/
theorem stats_owned (s : Sound h l) (o : h.OwnedBy owners) :
    ∃ stats, h.stats = .ok stats ∧ stats.blocks = stats.freeBlocks + owners.length := by
  refine ⟨_, s.represents.stats_ok, ?_⟩
  have hlength : owners.length = (usedBlocks l).length := by
    rw [(s.perm_usedBlocks o).length_eq, List.length_map]
  show l.length = (freeBlocks l).length + owners.length
  rw [hlength, freeBlocks, usedBlocks, ← List.countP_eq_length_filter, ← List.countP_eq_length_filter]
  rw [List.length_eq_countP_add_countP Block.free]
  simp

end Sound

end TinyKernel.Heap
