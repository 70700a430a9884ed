import TinyKernel.Heap.Basic
import TinyKernel.Proofs.Outcome

/-!
# Headers in the bytes

A header is four words of the arena.  Everything that the heap writes into its own bytes is a
header, so an operation is described by the headers that it may have replaced: every other byte is
as before, and so is every header that overlaps none of them.

* `Heap.Rewrites` — two heaps that differ at most in the headers at some offsets
* `Heap.writeHeader_ok`, `Heap.updateHeader_ok` — one header
-/

namespace TinyKernel

/-- Two headers share no byte.  Headers of different blocks of one layout are always so. -/
def HeadersApart (o p : UInt32) : Prop :=
  o.toNat + headerSize ≤ p.toNat ∨ p.toNat + headerSize ≤ o.toNat

theorem HeadersApart.symm {o p : UInt32} (h : HeadersApart o p) : HeadersApart p o := Or.symm h

namespace Heap

/-- A header depends on its own bytes only: where these are the same, so is the header. -/
theorem headerAt_congr {h h' : Heap} {p : UInt32}
    (eq : ∀ i, p.toNat ≤ i → i < p.toNat + headerSize → h'.arena.byte i = h.arena.byte i) :
    h'.headerAt p = h.headerAt p := by
  have hword : ∀ k, k + 4 ≤ headerSize →
      h'.arena.word (p.toNat + k) = h.arena.word (p.toNat + k) :=
    fun k hk => Arena.word_congr fun j hj hj' => eq j (by omega) (by omega)
  have h0 := hword 0 (by decide)
  simp only [Nat.add_zero] at h0
  simp only [headerAt, h0, hword 4 (by decide), hword 8 (by decide), hword 12 (by decide)]

/-- **Heaps that differ at most in the headers at some offsets**, and in where the free list begins.
Each operation on the free list comes with such a list of offsets; from it follows what the operation
leaves alone, payloads included, and nothing has to be said about bytes again. -/
structure Rewrites (offsets : List UInt32) (h h' : Heap) : Prop where
  size_eq : h'.size = h.size
  start_eq : h'.start = h.start
  maxSize_eq : h'.maxSize = h.maxSize
  byte_eq : ∀ i, (∀ o ∈ offsets, i < o.toNat ∨ o.toNat + headerSize ≤ i) →
    h'.arena.byte i = h.arena.byte i

namespace Rewrites

variable {os os' : List UInt32} {h h' h'' : Heap}

theorem refl (h : Heap) : Rewrites os h h := ⟨rfl, rfl, rfl, fun _ _ => rfl⟩

theorem mono (r : Rewrites os h h') (sub : os ⊆ os') : Rewrites os' h h' where
  size_eq := r.size_eq
  start_eq := r.start_eq
  maxSize_eq := r.maxSize_eq
  byte_eq i hi := r.byte_eq i fun o ho => hi o (sub ho)

theorem trans (r : Rewrites os h h') (r' : Rewrites os h' h'') : Rewrites os h h'' where
  size_eq := r'.size_eq.trans r.size_eq
  start_eq := r'.start_eq.trans r.start_eq
  maxSize_eq := r'.maxSize_eq.trans r.maxSize_eq
  byte_eq i hi := (r'.byte_eq i hi).trans (r.byte_eq i hi)

/-- A header that overlaps none of those replaced is as before. -/
theorem headerAt_eq (r : Rewrites os h h') {p : UInt32} (apart : ∀ o ∈ os, HeadersApart o p) :
    h'.headerAt p = h.headerAt p := by
  refine headerAt_congr fun i hi hi' => r.byte_eq i fun o ho => ?_
  rcases apart o ho with hop | hpo
  · exact Or.inr (by omega)
  · exact Or.inl (by omega)

theorem readHeader_eq (r : Rewrites os h h') {p : UInt32} (apart : ∀ o ∈ os, HeadersApart o p) :
    h'.readHeader p = h.readHeader p := by
  simp only [readHeader, r.size_eq, r.headerAt_eq apart]

end Rewrites

theorem readHeader_of_le {h : Heap} {o : UInt32} (ho : o.toNat + headerSize ≤ h.size) :
    h.readHeader o = .ok (h.headerAt o) := if_pos ho

/-- A header that can be read lies in the heap.  Bounds of blocks on a list are known in this way. -/
theorem le_of_readHeader {h : Heap} {o : UInt32} {b : BlockHeader} (hb : h.readHeader o = .ok b) :
    o.toNat + headerSize ≤ h.size := by
  unfold readHeader at hb
  split at hb
  · assumption
  · cases hb

theorem headerAt_of_readHeader {h : Heap} {o : UInt32} {b : BlockHeader}
    (hb : h.readHeader o = .ok b) : h.headerAt o = b := by
  rw [readHeader_of_le (le_of_readHeader hb)] at hb
  exact Except.ok.inj hb

/-- Moving the head of the free list changes no byte, and so rewrites no header. -/
theorem rewrites_freeHead (h : Heap) (link : UInt32) (os : List UInt32) :
    Rewrites os h { h with freeHead := link } :=
  ⟨rfl, rfl, rfl, fun _ _ => rfl⟩

theorem headerAt_putHeader {h : Heap} {o : UInt32} (b : BlockHeader)
    (ho : o.toNat + headerSize ≤ h.size) : (h.putHeader o b).headerAt o = b := by
  have hsize : o.toNat + 16 ≤ h.arena.size := ho
  have kept : ∀ (a : Arena) {i j : Nat} (w : UInt32), j + 4 ≤ i ∨ i + 4 ≤ j →
      (a.setWord i w).word j = a.word j :=
    fun a _ _ w hij => Arena.word_setWord_of_disjoint a w hij
  have written : ∀ {a : Arena} {k : Nat} (w : UInt32), k + 4 ≤ 16 → a.size = h.arena.size →
      (a.setWord (o.toNat + k) w).word (o.toNat + k) = w :=
    fun w hk ha => Arena.word_setWord w (by omega)
  obtain ⟨size, isFree, next, prev⟩ := b
  simp only [headerAt, putHeader, BlockHeader.mk.injEq]
  refine ⟨?_, ?_, ?_, ?_⟩
  · rw [kept _ _ (by omega), kept _ _ (by omega), kept _ _ (by omega)]
    exact written (k := 0) _ (by decide) rfl
  · rw [kept _ _ (by omega), kept _ _ (by omega)]
    exact written _ (by decide) (by simp only [Arena.size_setWord])
  · rw [kept _ _ (by omega)]
    exact written _ (by decide) (by simp only [Arena.size_setWord])
  · exact written _ (by decide) (by simp only [Arena.size_setWord])

theorem rewrites_putHeader (h : Heap) (o : UInt32) (b : BlockHeader) :
    Rewrites [o] h (h.putHeader o b) := by
  -- the fields are read off by name: comparing the two heaps as a whole would unfold the words
  refine ⟨?_, by simp only [putHeader], by simp only [putHeader], fun i hi => ?_⟩
  · simp only [size, putHeader, Arena.size_setWord]
  · have outside : i < o.toNat ∨ o.toNat + 16 ≤ i := hi o List.mem_cons_self
    have kept : ∀ (a : Arena) (k : Nat) (w : UInt32), k + 4 ≤ 16 →
        (a.setWord (o.toNat + k) w).byte i = a.byte i :=
      fun a k w hk => Arena.byte_setWord_of_outside a w (by omega)
    simp only [putHeader]
    rw [kept _ _ _ (by decide), kept _ _ _ (by decide), kept _ _ _ (by decide)]
    exact kept _ 0 _ (by decide)

/-- **A header that is written is read back**, and no other byte changes.  It takes only that the
header fits into the heap; what stood there before does not matter. -/
theorem writeHeader_ok {h : Heap} {o : UInt32} (b : BlockHeader)
    (ho : o.toNat + headerSize ≤ h.size) :
    ∃ h', h.writeHeader o b = .ok h' ∧ h'.readHeader o = .ok b ∧ h'.freeHead = h.freeHead
      ∧ Rewrites [o] h h' := by
  have hr := rewrites_putHeader h o b
  refine ⟨h.putHeader o b, if_pos ho, ?_, by simp only [putHeader], hr⟩
  rw [readHeader_of_le (by rw [hr.size_eq]; exact ho), headerAt_putHeader b ho]

/-- **A header is changed in place**, by a function of what it was.  Since it could be read, it can be
written. -/
theorem updateHeader_ok {h : Heap} {o : UInt32} {b : BlockHeader} (f : BlockHeader → BlockHeader)
    (hb : h.readHeader o = .ok b) :
    ∃ h', h.updateHeader o f = .ok h' ∧ h'.readHeader o = .ok (f b) ∧ h'.freeHead = h.freeHead
      ∧ Rewrites [o] h h' := by
  obtain ⟨h', hw, hrest⟩ := writeHeader_ok (f b) (le_of_readHeader hb)
  refine ⟨h', ?_, hrest⟩
  rw [updateHeader, Checked.bind_of_ok hb]
  exact hw

end Heap

end TinyKernel
