import TinyKernel.Proofs.Heap.Session

/-!
# Isolation

The allocations that a client holds lie in the heap, apart from every header and from one another,
and each of their bytes is what the client expects: what it wrote there last, or else what the call
that returned the allocation left there.

* `Heap.Isolates` — what a client may rely on
* `HeapSession.execute_isolates` — it may rely on it throughout every session
-/

namespace TinyKernel

namespace Heap

/-- **What a client may rely on**, for the allocations on its ledger.  Sizes are those of the payloads
as the heap knows them, which may be larger than what was asked for.  All places are given as offsets
into the heap, as integers, so that no sum of them can wrap around. -/
structure Isolates (h : Heap) (ledger : Ledger) : Prop where
  aligned : ∀ a ∈ ledger, (heapAlign : Int) ∣ a.pointer.offset
  large : ∀ a ∈ ledger, a.requested ≤ h.payloadSize a.pointer
  inside : ∀ a ∈ ledger, 0 ≤ a.pointer.offset ∧ a.pointer.offset + h.payloadSize a.pointer ≤ h.size
  /-- No byte of a payload is a byte of a header.  So a client that writes within its payload cannot
  damage the heap. -/
  apart_headers : ∃ blocks, h.walk = .ok blocks ∧ ∀ a ∈ ledger, ∀ b ∈ blocks,
    (b.1.toNat : Int) + headerSize ≤ a.pointer.offset
      ∨ a.pointer.offset + h.payloadSize a.pointer ≤ b.1.toNat
  /-- No byte of a payload is a byte of another one. -/
  disjoint : ledger.Pairwise fun (a b : Allocation) =>
    a.pointer.offset + h.payloadSize a.pointer ≤ b.pointer.offset
      ∨ b.pointer.offset + h.payloadSize b.pointer ≤ a.pointer.offset
  /-- The client reads what it expects, byte for byte, as far as the payload goes. -/
  reads : ∀ a ∈ ledger, ∀ i < h.payloadSize a.pointer,
    h.load ⟨a.pointer.offset + i⟩ 1 = .ok (some [a.contents i])

variable {h : Heap} {l : List Block} {b : Block}

/-- Payloads begin at multiples of eight bytes, since the header and all payloads of a row are
multiples of eight bytes themselves. -/
theorem heapAlign_dvd_first {i n : Nat} (t : Tiles i l n) (hi : heapAlign ∣ i)
    (regular : ∀ b ∈ l, b.Regular) (hb : b ∈ l) : heapAlign ∣ b.first := by
  induction l generalizing i with
  | nil => cases hb
  | cons a l ih =>
      obtain ⟨rfl, hl⟩ := t
      have hfirst : heapAlign ∣ a.first := Nat.dvd_add hi (by decide)
      rcases List.mem_cons.mp hb with rfl | hb
      · exact hfirst
      · refine ih hl ?_ (fun c hc => regular c (List.mem_cons_of_mem _ hc)) hb
        exact Nat.dvd_add hfirst (regular a List.mem_cons_self).2

/-- A byte of an allocated payload can be read, and is the byte of the arena. -/
theorem Sound.load_ok (s : Sound h l) (hb : b ∈ allocated l) {i : Nat} (hi : i < b.size.toNat) :
    h.load ⟨(b.first : Int) + i⟩ 1 = .ok (some [h.arena.byte (b.first + i)]) := by
  obtain ⟨hbl, hused⟩ := mem_allocated.mp hb
  have hholds : (l.any fun c => decide ((h.headerAt c.start).isFree = 0
      ∧ ((c.start.toNat + headerSize : Nat) : Int) ≤ (b.first : Int) + i
      ∧ (b.first : Int) + i + (1 : Nat) ≤ ((c.start.toNat + headerSize : Nat) : Int)
        + ((h.headerAt c.start).size.toNat : Int))) = true := by
    refine List.any_eq_true.mpr ⟨b, hbl, decide_eq_true ⟨?_, ?_, ?_⟩⟩
    · rw [s.represents.headerAt_isFree hbl, hused]
      rfl
    · simp only [Block.first]
      omega
    · rw [s.represents.headerAt_size hbl]
      simp only [Block.first]
      omega
  have hfirst : ((b.first : Int) + i).toNat = b.first + i := by omega
  unfold load clientRange
  simp only [s.represents.walk_ok, Checked.ok_bind, List.any_map]
  rw [if_pos]
  · simp only [hfirst]
    rfl
  · exact hholds

/-- **A sound heap isolates** what its ledger lists.  Each clause is a fact about two blocks of one
row, or about a block and the bytes that the ledger expects in it. -/
theorem Sound.isolates (s : Sound h l) {ledger : Ledger} (t : Tracks ledger h l) :
    h.Isolates ledger := by
  have hblock : ∀ a ∈ ledger, ∃ b ∈ allocated l, a.Describes h b
      ∧ a.pointer.offset = b.first ∧ h.payloadSize a.pointer = b.size.toNat := by
    intro a ha
    obtain ⟨b, hb, d⟩ := t.live a ha
    refine ⟨b, hb, d, ?_, ?_⟩
    · rw [d.pointer_eq]
      rfl
    · rw [d.pointer_eq, s.payloadSize_eq (mem_allocated.mp hb).1]
  refine ⟨?_, ?_, ?_, ⟨_, s.represents.walk_ok, ?_⟩, ?_, ?_⟩
  · intro a ha
    obtain ⟨b, hb, -, hoffset, -⟩ := hblock a ha
    rw [hoffset]
    exact Int.natCast_dvd_natCast.mpr (heapAlign_dvd_first s.represents.tiles (Nat.dvd_zero _)
      s.regular (mem_allocated.mp hb).1)
  · intro a ha
    obtain ⟨b, -, d, -, hsize⟩ := hblock a ha
    rw [hsize]
    exact d.requested_le
  · intro a ha
    obtain ⟨b, hb, -, hoffset, hsize⟩ := hblock a ha
    have hstop := s.represents.stop_le (mem_allocated.mp hb).1
    simp only [Block.stop] at hstop
    omega
  · intro a ha e he
    obtain ⟨b, hb, -, hoffset, hsize⟩ := hblock a ha
    obtain ⟨c, hc, rfl⟩ := List.mem_map.mp he
    have hbl := (mem_allocated.mp hb).1
    by_cases hbc : b = c
    · subst hbc
      exact Or.inl (by simp only [hoffset, Block.first]; omega)
    · have horder := s.before_or_before hbl hc hbc
      have hlast := c.start_add_header_le_stop
      simp only [Block.Before, Block.stop, Block.first] at horder hlast hoffset ⊢
      omega
  · refine List.Pairwise.imp_of_mem ?_ (List.pairwise_map.mp t.nodup)
    intro a a' ha ha' hne
    obtain ⟨b, hb, d, hoffset, hsize⟩ := hblock a ha
    obtain ⟨c, hc, d', hoffset', hsize'⟩ := hblock a' ha'
    have hbc : b ≠ c := by
      rintro rfl
      exact hne (d.pointer_eq.trans d'.pointer_eq.symm)
    have horder := s.before_or_before (mem_allocated.mp hb).1 (mem_allocated.mp hc).1 hbc
    simp only [Block.Before, Block.stop, Block.first] at horder hoffset hoffset'
    omega
  · intro a ha i hi
    obtain ⟨b, hb, d, hoffset, hsize⟩ := hblock a ha
    rw [hsize] at hi
    rw [hoffset, s.load_ok hb hi, d.contents_eq i hi]

end Heap

/-- **Clients are isolated**, from the heap and from one another.  Throughout every session, whatever
the calls, the pointers and the pages that are refused: the allocations that the client holds are
aligned, as large as it asked for, inside the heap, and disjoint from all headers and from each
other; and reading any of their bytes gives what the ledger says.  The ledger says what the client
wrote there last; else zero after `calloc`, the byte of the old block after a move, and otherwise
the byte that was there when the allocation was returned.  So no operation changes a byte of an
allocation that is held. -/
theorem HeapSession.execute_isolates {σ : Type} [PageSource σ] (start : VirtAddr)
    (initialSize maxSize : Nat) (pages : σ) (calls : List HeapCall) :
    (HeapSession.execute start initialSize maxSize pages calls).Meets (PageSource.Raises σ)
      fun s? => ∀ s ∈ s?, s.heap.Isolates s.ledger := by
  refine (execute_meets (PageSource.keeps_true σ _) trivial calls).imp fun s? hs s hmem => ?_
  obtain ⟨l, sound, t⟩ := (hs s hmem).layout
  exact sound.isolates t

end TinyKernel
