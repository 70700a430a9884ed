import TinyKernel.Proofs.Heap.Operations

/-!
# Sessions

A session is a heap together with a client who calls it as it likes: with any sizes and counts, with
pointers of its own making, and with writes that fall into the payload of an allocated block.  The
client keeps a ledger of the allocations that it holds and of what it expects to read there.

## What is load-bearing

The ledger is filled from answers and not from the blocks of the heap.  When an allocation is
answered, the ledger takes down what the client can know: zeros after `calloc`, the old bytes after a
move, and whatever is there in all other places.  From then on only the client's own writes change
the ledger.  That the heap agrees with it at every moment (`Tracks`) is then a statement about every
byte of every payload.

* `Allocation`, `HeapSession` — what the client holds, and a heap with its client
* `HeapSession.execute` — a heap is set up, and calls are made
* `HeapSession.execute_meets` — the invariant of all sessions
-/

namespace TinyKernel

/-- **An allocation that a client holds**, as the client would write it down: it is made from answers
of the heap, and from what the client wrote itself.  Nothing in it is read off the heap, so that
comparing it with the heap says something. -/
structure Allocation where
  pointer : Pointer
  /-- The size that was asked for last. -/
  requested : Nat
  /-- What the client expects to read at each place of the payload. -/
  contents : Nat → UInt8

/-- The allocations that a client holds, the latest first. -/
abbrev Ledger := List Allocation

namespace Ledger

/-- The ledger after an allocation was answered.  If the answer was nothing, nothing is written
down. -/
def answered (ledger : Ledger) (p? : Option Pointer) (requested : Nat)
    (contents : Pointer → Nat → UInt8) : Ledger :=
  match p? with
  | none => ledger
  | some p => ⟨p, requested, contents p⟩ :: ledger

/-- The ledger without the allocation at a pointer, if there was one. -/
def drop (ledger : Ledger) (p : Pointer) : Ledger := ledger.filter fun a => a.pointer ≠ p

/-- The ledger with another size asked for at a pointer, which the client keeps. -/
def resize (ledger : Ledger) (p : Pointer) (size : Nat) : Ledger :=
  ledger.map fun a => if a.pointer = p then { a with requested := size } else a

/-- The ledger after `n` bytes were written from a pointer on.  Places are compared by offset, so that
a write into the middle of a payload is noted there. -/
def write (ledger : Ledger) (p : Pointer) (v : UInt8) (n : Nat) : Ledger :=
  ledger.map fun a =>
    { a with
      contents := fun i =>
        if p.offset ≤ a.pointer.offset + i ∧ a.pointer.offset + i < p.offset + n then v
        else a.contents i }

/-- What the client expects to read in the allocation at a pointer.  It matters when a block moves,
since its bytes move with it. -/
def contentsAt (ledger : Ledger) (p : Pointer) (i : Nat) : UInt8 :=
  (ledger.find? fun a => a.pointer = p).elim 0 fun a => a.contents i

end Ledger

namespace Heap

/-- The byte at a distance from a pointer. -/
def byteAt (h : Heap) (p : Pointer) (i : Nat) : UInt8 := h.arena.byte (p.offset.toNat + i)

/-- The payload bytes of the block that a pointer is to, as its header says.  For a pointer that is not
to a block the number means nothing. -/
def payloadSize (h : Heap) (p : Pointer) : Nat :=
  (h.headerAt (UInt32.ofNat (p.offset.toNat - headerSize))).size.toNat

end Heap

/-- **What a client can ask of a heap.**  Pointers are any numbers, not only those that were answered;
so a session may contain double frees and frees of what was never allocated. -/
inductive HeapCall where
  | alloc (size : Nat)
  | calloc (count size : Nat)
  | realloc (p? : Option Pointer) (size : Nat)
  | free (p : Pointer)
  /-- Writes `n` bytes, if they lie in the payload of one allocated block.  Writes elsewhere would be
  the client's own fault, and are left out. -/
  | store (p : Pointer) (v : UInt8) (n : Nat)

/-- **A heap with its client**, and with the page source that the heap grows by.  The ledger holds the
allocations that the client was given and has not given back; it is what theorems about clients speak
of. -/
structure HeapSession (σ : Type) where
  heap : Heap
  pages : σ
  ledger : Ledger

namespace HeapSession

variable {σ : Type} [PageSource σ]

/-- **One call**, and what the client writes down about it.  The ledger is made from the call and its
answer; bytes of the heap are copied to it only for what the client has not written yet. -/
def step (s : HeapSession σ) : HeapCall → Run (HeapSession σ)
  | .alloc size => do
    let (p?, heap, pages) ← s.heap.alloc s.pages size
    pure { heap, pages, ledger := s.ledger.answered p? size heap.byteAt }
  | .calloc count size => do
    let (p?, heap, pages) ← s.heap.calloc s.pages count size
    let contents := fun p i => if i < count * size then 0 else heap.byteAt p i
    pure { heap, pages, ledger := s.ledger.answered p? (count * size) contents }
  | .realloc none size => do
    let (p?, heap, pages) ← s.heap.realloc s.pages none size
    pure { heap, pages, ledger := s.ledger.answered p? size heap.byteAt }
  | .realloc (some p) size => do
    let (q?, heap, pages) ← s.heap.realloc s.pages (some p) size
    match q? with
    | none => pure { heap, pages, ledger := if size = 0 then s.ledger.drop p else s.ledger }
    | some q =>
      if q = p then
        pure { heap, pages, ledger := s.ledger.resize p size }
      else
        let contents := fun q i =>
          if i < s.heap.payloadSize p then s.ledger.contentsAt p i else heap.byteAt q i
        pure { heap, pages, ledger := (s.ledger.drop p).answered q? size contents }
  | .free p => do
    let (freed, heap) ← s.heap.free p
    pure { s with heap, ledger := if freed then s.ledger.drop p else s.ledger }
  | .store p v n => do
    match ← s.heap.store p v n with
    | none => pure s
    | some heap => pure { s with heap, ledger := s.ledger.write p v n }

/-- Calls, one after the other.  A fault ends the session. -/
def run (s : HeapSession σ) : List HeapCall → Run (HeapSession σ)
  | [] => pure s
  | call :: calls => do
    let s ← s.step call
    s.run calls

/-- **A whole session**: a heap is set up, and if that succeeds calls are made.  There is no session if
the range is not valid or a page of it is refused. -/
def execute (start : VirtAddr) (initialSize maxSize : Nat) (pages : σ) (calls : List HeapCall) :
    Run (Option (HeapSession σ)) := do
  match ← Heap.init start initialSize maxSize pages with
  | (.error _, _) => pure none
  | (.ok heap, pages) => some <$> run { heap, pages, ledger := [] } calls

end HeapSession

/-! ## The ledger and the blocks -/

/-- A block is what an allocation of the client says that it is: at the same place, large enough, and
with the expected bytes in all of its payload, also in what was not asked for. -/
structure Allocation.Describes (a : Allocation) (h : Heap) (b : Block) : Prop where
  pointer_eq : a.pointer = Heap.payload b.start
  requested_le : a.requested ≤ b.size.toNat
  contents_eq : ∀ i < b.size.toNat, h.arena.byte (b.first + i) = a.contents i

/-- **The ledger agrees with the heap**: it lists exactly the allocated blocks, each of them once and
with its bytes.  That no block is missing makes leaks visible, and that none is listed twice makes
frees unambiguous. -/
structure Tracks (ledger : Ledger) (h : Heap) (l : List Block) : Prop where
  nodup : (ledger.map Allocation.pointer).Nodup
  live : ∀ a ∈ ledger, ∃ b ∈ allocated l, a.Describes h b
  complete : ∀ b ∈ allocated l, ∃ a ∈ ledger, a.pointer = Heap.payload b.start

section

open Heap

variable {ledger : Ledger} {h h' : Heap} {l l' : List Block} {b : Block} {p : Pointer} {size : Nat}

/-- The header of a block is found again from its payload. -/
theorem Heap.ofNat_payload (start : UInt32) :
    UInt32.ofNat ((payload start).offset.toNat - headerSize) = start := by
  apply UInt32.toNat_inj.mp
  have hlt := start.toNat_lt
  simp only [payload, headerSize, UInt32.toNat_ofNat']
  omega

/-- The payload bytes of a block stand in its header. -/
theorem Heap.Sound.payloadSize_eq (s : Sound h l) (hb : b ∈ l) :
    h.payloadSize (payload b.start) = b.size.toNat := by
  rw [payloadSize, ofNat_payload, s.represents.headerAt_size hb]

/-- Freshly set up heaps have no allocated block, and the ledger is empty. -/
theorem tracks_nil (hnone : allocated l = ∅) : Tracks [] h l where
  nodup := List.nodup_nil
  live _ ha := by cases ha
  complete b hb := by
    rw [hnone] at hb
    cases hb

/-- What is true of a block that stays allocated stays true, whatever the operation was. -/
theorem Allocation.Describes.evolve {a : Allocation} (d : a.Describes h b)
    (e : Evolves h l h' l') (hb : b ∈ allocated l) (hb' : b ∈ allocated l') : a.Describes h' b where
  pointer_eq := d.pointer_eq
  requested_le := d.requested_le
  contents_eq i hi := by
    rw [e.payloads b hb hb' _ ⟨by omega, by simp only [Block.stop]; omega⟩]
    exact d.contents_eq i hi

theorem Ledger.drop_answered {q : Pointer} (hne : q ≠ p) {contents : Pointer → Nat → UInt8} :
    Ledger.drop (ledger.answered (some q) size contents) p
      = (ledger.drop p).answered (some q) size contents :=
  List.filter_cons_of_pos (decide_eq_true hne)

theorem Ledger.mem_drop {a : Allocation} : a ∈ ledger.drop p ↔ a ∈ ledger ∧ a.pointer ≠ p := by
  simp [Ledger.drop]

namespace Tracks

theorem evolve (t : Tracks ledger h l) (e : Evolves h l h' l')
    (hset : allocated l' = allocated l) : Tracks ledger h' l' where
  nodup := t.nodup
  live a ha := by
    obtain ⟨b, hb, d⟩ := t.live a ha
    have hb' : b ∈ allocated l' := hset ▸ hb
    exact ⟨b, hb', d.evolve e hb hb'⟩
  complete b hb := t.complete b (hset ▸ hb)

/-- A block more: it is on the ledger from then on, with what it contains, and nothing else changes. -/
theorem grant (t : Tracks ledger h l) (e : Evolves h l h' l') (hands : Hands l l' b size p)
    {contents : Pointer → Nat → UInt8}
    (hcontents : ∀ i < b.size.toNat, h'.arena.byte (b.first + i) = contents p i) :
    Tracks (ledger.answered (some p) size contents) h' l' := by
  have hmem : b ∈ allocated l' := by
    rw [hands.allocated_eq]
    exact Finset.mem_insert_self ..
  have hstay : ∀ c ∈ allocated l, c ∈ allocated l' := by
    intro c hc
    rw [hands.allocated_eq]
    exact Finset.mem_insert_of_mem hc
  refine ⟨?_, ?_, ?_⟩
  · refine List.nodup_cons.mpr ⟨fun hin => ?_, t.nodup⟩
    obtain ⟨a, ha, heq⟩ := List.mem_map.mp hin
    obtain ⟨c, hc, d⟩ := t.live a ha
    -- the pointer would belong to a block that was allocated before
    refine hands.fresh ?_
    rwa [e.sound.eq_of_payload_eq (mem_allocated.mp hmem).1 (mem_allocated.mp (hstay c hc)).1
      (hands.pointer_eq.symm.trans (heq.symm.trans d.pointer_eq))]
  · intro a ha
    rcases List.mem_cons.mp ha with rfl | ha
    · exact ⟨b, hmem, hands.pointer_eq, hands.large, hcontents⟩
    · obtain ⟨c, hc, d⟩ := t.live a ha
      exact ⟨c, hstay c hc, d.evolve e hc (hstay c hc)⟩
  · intro c hc
    rw [hands.allocated_eq] at hc
    rcases Finset.mem_insert.mp hc with rfl | hc
    · exact ⟨_, List.mem_cons_self, hands.pointer_eq⟩
    · obtain ⟨a, ha, heq⟩ := t.complete c hc
      exact ⟨a, List.mem_cons_of_mem _ ha, heq⟩

/-- The client's expectations at a live pointer are the bytes of its block. -/
theorem contentsAt_eq (t : Tracks ledger h l) (s : Sound h l) (hb : b ∈ allocated l)
    (hp : p = payload b.start) {i : Nat} (hi : i < b.size.toNat) :
    ledger.contentsAt p i = h.arena.byte (b.first + i) := by
  obtain ⟨a, ha, heq⟩ := t.complete b hb
  have hfind : (ledger.find? fun a => a.pointer = p).isSome = true :=
    List.find?_isSome.mpr ⟨a, ha, decide_eq_true (heq.trans hp.symm)⟩
  obtain ⟨a', ha'⟩ := Option.isSome_iff_exists.mp hfind
  have hpred := List.find?_some ha'
  obtain ⟨c, hc, d⟩ := t.live a' (List.mem_of_find?_eq_some ha')
  obtain rfl := s.eq_of_payload_eq (mem_allocated.mp hb).1 (mem_allocated.mp hc).1
    (hp.symm.trans ((of_decide_eq_true hpred).symm.trans d.pointer_eq))
  rw [Ledger.contentsAt, ha']
  exact (d.contents_eq i hi).symm

/-- A pointer that is not to an allocated block is not on the ledger, and dropping it has no effect. -/
theorem drop_eq (t : Tracks ledger h l) (hp : ∀ b ∈ allocated l, p ≠ payload b.start) :
    ledger.drop p = ledger := by
  refine List.filter_eq_self.mpr fun a ha => ?_
  obtain ⟨b, hb, d⟩ := t.live a ha
  refine decide_eq_true fun heq => hp b hb ?_
  rw [← heq, d.pointer_eq]

/-- A block less, in the heap and on the ledger. -/
theorem drop (t : Tracks ledger h l) (s : Sound h l) (e : Evolves h l h' l')
    (hb : b ∈ allocated l) (hp : p = payload b.start)
    (hset : allocated l' = (allocated l).erase b) : Tracks (ledger.drop p) h' l' := by
  refine ⟨?_, ?_, ?_⟩
  · exact t.nodup.sublist (List.filter_sublist.map _)
  · intro a ha
    obtain ⟨ha, hne⟩ := Ledger.mem_drop.mp ha
    obtain ⟨c, hc, d⟩ := t.live a ha
    have hcb : c ≠ b := by
      rintro rfl
      exact hne (d.pointer_eq.trans hp.symm)
    have hc' : c ∈ allocated l' := by
      rw [hset]
      exact Finset.mem_erase.mpr ⟨hcb, hc⟩
    exact ⟨c, hc', d.evolve e hc hc'⟩
  · intro c hc
    rw [hset] at hc
    obtain ⟨hcb, hc⟩ := Finset.mem_erase.mp hc
    obtain ⟨a, ha, heq⟩ := t.complete c hc
    refine ⟨a, Ledger.mem_drop.mpr ⟨ha, fun hap => hcb ?_⟩, heq⟩
    exact s.eq_of_payload_eq (mem_allocated.mp hc).1 (mem_allocated.mp hb).1
      (heq.symm.trans (hap.trans hp))

/-- Another size is asked for, which the block is large enough for. -/
theorem resize (t : Tracks ledger h l) (s : Sound h l) (hb : b ∈ allocated l)
    (hp : p = payload b.start) (hsize : size ≤ b.size.toNat) :
    Tracks (ledger.resize p size) h l := by
  have hpointer : (ledger.resize p size).map Allocation.pointer = ledger.map Allocation.pointer := by
    rw [Ledger.resize, List.map_map]
    refine List.map_congr_left fun a _ => ?_
    simp only [Function.comp_apply]
    split <;> rfl
  refine ⟨hpointer ▸ t.nodup, ?_, ?_⟩
  · intro a' ha'
    obtain ⟨a, ha, rfl⟩ := List.mem_map.mp ha'
    obtain ⟨c, hc, d⟩ := t.live a ha
    refine ⟨c, hc, ?_⟩
    split
    case isFalse => exact d
    case isTrue heq =>
      obtain rfl := s.eq_of_payload_eq (mem_allocated.mp hb).1 (mem_allocated.mp hc).1
        (hp.symm.trans (heq.symm.trans d.pointer_eq))
      exact ⟨d.pointer_eq, hsize, d.contents_eq⟩
  · intro c hc
    obtain ⟨a, ha, heq⟩ := t.complete c hc
    have hmem : a.pointer ∈ (ledger.resize p size).map Allocation.pointer :=
      hpointer ▸ List.mem_map_of_mem ha
    obtain ⟨a', ha', heq'⟩ := List.mem_map.mp hmem
    exact ⟨a', ha', heq'.trans heq⟩

/-- The client writes, and takes it down.  Bytes outside of payloads do not change, and neither does
the layout. -/
theorem write (t : Tracks ledger h l) (s : Sound h l) (hp : 0 ≤ p.offset) (v : UInt8) (n : Nat) :
    Tracks (ledger.write p v n) { h with arena := h.arena.fill p.offset.toNat v n } l := by
  refine ⟨?_, ?_, ?_⟩
  · rw [Ledger.write, List.map_map]
    exact t.nodup
  · intro a' ha'
    obtain ⟨a, ha, rfl⟩ := List.mem_map.mp ha'
    obtain ⟨c, hc, d⟩ := t.live a ha
    refine ⟨c, hc, d.pointer_eq, d.requested_le, fun i hi => ?_⟩
    have hcend := s.represents.stop_le (mem_allocated.mp hc).1
    have hoffset : a.pointer.offset = c.first := by
      rw [d.pointer_eq]
      rfl
    simp only [Block.stop, Heap.size] at hcend
    simp only [Arena.byte_fill, hoffset]
    rw [← d.contents_eq i hi]
    refine if_congr ?_ rfl rfl
    omega
  · intro c hc
    obtain ⟨a, ha, heq⟩ := t.complete c hc
    exact ⟨_, List.mem_map_of_mem ha, heq⟩

end Tracks

end

/-! ## What calls preserve -/

namespace HeapSession

variable {σ : Type} {admits : Fault → Prop} {I : Finset VirtAddr → σ → Prop}
  {window : Finset VirtAddr}

/-- **The invariant of a session**: the heap is sound, the ledger agrees with it, and the pages are
those of the heap.  `I` is what the page source keeps to, and may be anything. -/
structure Consistent (I : Finset VirtAddr → σ → Prop) (window : Finset VirtAddr)
    (s : HeapSession σ) : Prop where
  window_eq : s.heap.window = window
  backed : I s.heap.backed s.pages
  layout : ∃ l, s.heap.Sound l ∧ Tracks s.ledger s.heap l

/-- What an answer means for the invariant: it is enough that the heap evolved, and that the new ledger
agrees with it. -/
theorem Consistent.of_tracks {heap : Heap} {pages : σ} {ledger : Ledger} {s : HeapSession σ}
    {l l' : List Block} (c : s.Consistent I window) (hI : I heap.backed pages)
    (e : Heap.Evolves s.heap l heap l') (t : Tracks ledger heap l') :
    Consistent I window { heap, pages, ledger } where
  window_eq := by
    rw [← c.window_eq, Heap.window, Heap.window, e.start_eq, e.maxSize_eq]
  backed := hI
  layout := ⟨l', e.sound, t⟩

variable [PageSource σ]

theorem alloc_meets (keeps : PageSource.Keeps σ window admits I) {s : HeapSession σ}
    (c : s.Consistent I window) (size : Nat) :
    (s.step (.alloc size)).Meets admits (Consistent I window) := by
  obtain ⟨l, sound, t⟩ := c.layout
  refine (sound.alloc_meets (c.window_eq ▸ keeps) c.backed size).bind ?_
  rintro ⟨p?, heap, pages⟩ ⟨hI, l', e, hands⟩
  refine Run.meets_pure (c.of_tracks hI e ?_)
  cases p? with
  | none => exact t.evolve e hands
  | some p =>
      obtain ⟨b, hb⟩ := hands
      refine t.grant e hb fun i _ => ?_
      rw [Heap.byteAt, hb.pointer_eq]
      rfl

theorem calloc_meets (keeps : PageSource.Keeps σ window admits I) {s : HeapSession σ}
    (c : s.Consistent I window) (count size : Nat) :
    (s.step (.calloc count size)).Meets admits (Consistent I window) := by
  obtain ⟨l, sound, t⟩ := c.layout
  refine (sound.calloc_meets (c.window_eq ▸ keeps) c.backed count size).bind ?_
  rintro ⟨p?, heap, pages⟩ ⟨hI, l', e, hands⟩
  refine Run.meets_pure (c.of_tracks hI e ?_)
  cases p? with
  | none => exact t.evolve e hands
  | some p =>
      obtain ⟨b, hb, hzero⟩ := hands
      refine t.grant e hb fun i _ => ?_
      split
      case isTrue hi => exact hzero i hi
      case isFalse =>
        rw [Heap.byteAt, hb.pointer_eq]
        rfl

theorem free_meets {s : HeapSession σ} (c : s.Consistent I window) (p : Pointer) :
    (s.step (.free p)).Meets admits (Consistent I window) := by
  obtain ⟨l, sound, t⟩ := c.layout
  refine (sound.free_meets p).bind ?_
  rintro ⟨freed, heap⟩ hfreed
  cases freed with
  | false =>
      obtain ⟨-, rfl⟩ := hfreed
      exact Run.meets_pure c
  | true =>
      obtain ⟨b, hb, hp, hsize, l', e, hset⟩ := hfreed
      refine Run.meets_pure (c.of_tracks ?_ e (t.drop sound e hb hp hset))
      rw [Heap.Sound.backed_eq e.start_eq hsize]
      exact c.backed

/-- A size of zero frees, whatever the pointer, and the client drops it from the ledger. -/
theorem realloc_zero_meets {s : HeapSession σ} (c : s.Consistent I window) (p : Pointer) :
    (s.step (.realloc (some p) 0)).Meets admits (Consistent I window) := by
  obtain ⟨l, sound, t⟩ := c.layout
  have hrealloc : (s.heap.realloc s.pages (some p) 0).Meets admits fun (q?, heap, pages) =>
      q? = none ∧ Consistent I window { heap, pages, ledger := s.ledger.drop p } := by
    refine (sound.free_meets p).bind ?_
    rintro ⟨freed, heap⟩ hfreed
    cases freed with
    | false =>
        obtain ⟨hnone, rfl⟩ := hfreed
        rw [t.drop_eq hnone]
        exact Run.meets_pure ⟨rfl, c⟩
    | true =>
        obtain ⟨b, hb, hp, hsize, l', e, hset⟩ := hfreed
        refine Run.meets_pure ⟨rfl, c.of_tracks ?_ e (t.drop sound e hb hp hset)⟩
        rw [Heap.Sound.backed_eq e.start_eq hsize]
        exact c.backed
  refine hrealloc.bind ?_
  rintro ⟨q?, heap, pages⟩ ⟨rfl, c'⟩
  exact Run.meets_pure c'

theorem realloc_meets (keeps : PageSource.Keeps σ window admits I) {s : HeapSession σ}
    (c : s.Consistent I window) (p : Pointer) {size : Nat} (hsize : size ≠ 0) :
    (s.step (.realloc (some p) size)).Meets admits (Consistent I window) := by
  obtain ⟨l, sound, t⟩ := c.layout
  refine (sound.realloc_meets (c.window_eq ▸ keeps) c.backed p hsize).bind ?_
  rintro ⟨q?, heap, pages⟩ ⟨hI, l', e, hmoved⟩
  cases q? with
  | none =>
      refine Run.meets_pure (c.of_tracks hI e ?_)
      rw [if_neg hsize]
      exact t.evolve e hmoved
  | some q =>
      obtain ⟨b, hb, hp, hcases⟩ := hmoved
      rcases hcases with ⟨hfits, rfl, rfl, rfl⟩ | ⟨-, h₁, l₁, ⟨e₁, d, hands, hcopied⟩, e₂, hset⟩
      · simp only [if_true]
        exact Run.meets_pure (c.of_tracks hI e (t.resize sound hb hp hfits))
      · have hb₁ : b ∈ allocated l₁ := by
          rw [hands.allocated_eq]
          exact Finset.mem_insert_of_mem hb
        have hd₁ : d ∈ allocated l₁ := by
          rw [hands.allocated_eq]
          exact Finset.mem_insert_self ..
        have hdb : d ≠ b := by
          rintro rfl
          exact hands.fresh hb
        have hd : d ∈ allocated l' := by
          rw [hset]
          exact Finset.mem_erase.mpr ⟨hdb, hd₁⟩
        have hqp : q ≠ p := by
          intro heq
          refine hdb (e₁.sound.eq_of_payload_eq (mem_allocated.mp hd₁).1 (mem_allocated.mp hb₁).1 ?_)
          rw [← hands.pointer_eq, heq, hp]
        have hsize : s.heap.payloadSize p = b.size.toNat := by
          rw [hp]
          exact sound.payloadSize_eq (mem_allocated.mp hb).1
        simp only [if_neg hqp]
        refine Run.meets_pure (c.of_tracks hI e ?_)
        -- first the new block is there besides the old one, then the old one goes
        let contents := fun q i =>
          if i < s.heap.payloadSize p then s.ledger.contentsAt p i else heap.byteAt q i
        have hcontents : ∀ i < d.size.toNat, h₁.arena.byte (d.first + i) = contents q i := by
          intro i hi
          by_cases hlt : i < b.size.toNat
          · rw [hcopied i hlt, ← t.contentsAt_eq sound hb hp hlt]
            exact (if_pos (hsize ▸ hlt)).symm
          · rw [← e₂.payloads d hd₁ hd _ ⟨by omega, by simp only [Block.stop]; omega⟩]
            refine Eq.trans ?_ (if_neg (hsize ▸ hlt)).symm
            rw [Heap.byteAt, hands.pointer_eq]
            rfl
        have t₁ := t.grant e₁ hands hcontents
        have t₂ := t₁.drop e₁.sound e₂ hb₁ hp hset
        rwa [Ledger.drop_answered hqp] at t₂

theorem store_meets {s : HeapSession σ} (c : s.Consistent I window) (p : Pointer) (v : UInt8)
    (n : Nat) : (s.step (.store p v n)).Meets admits (Consistent I window) := by
  obtain ⟨l, sound, t⟩ := c.layout
  rcases sound.store_ok p v n with ⟨hstore, -⟩ | ⟨b, hb, hfirst, -, hstore, sound'⟩
  · exact Run.meets_lift_bind hstore (Run.meets_pure c)
  · refine Run.meets_lift_bind hstore (Run.meets_pure ⟨c.window_eq, ?_, l, sound', ?_⟩)
    · have hbacked : Heap.backed { s.heap with arena := s.heap.arena.fill p.offset.toNat v n }
          = s.heap.backed := Heap.Sound.backed_eq rfl (Arena.size_fill ..)
      rw [hbacked]
      exact c.backed
    · exact t.write sound (by omega) v n

/-- **Every call preserves the invariant**, and faults only if the page source does.  One case for each
kind of call, from the contract of the operation. -/
theorem step_meets (keeps : PageSource.Keeps σ window admits I) {s : HeapSession σ}
    (c : s.Consistent I window) (call : HeapCall) :
    (s.step call).Meets admits (Consistent I window) := by
  cases call with
  | alloc size => exact alloc_meets keeps c size
  | calloc count size => exact calloc_meets keeps c count size
  | realloc p? size =>
      cases p? with
      | none => exact alloc_meets keeps c size
      | some p =>
          by_cases hsize : size = 0
          · rw [hsize]
            exact realloc_zero_meets c p
          · exact realloc_meets keeps c p hsize
  | free p => exact free_meets c p
  | store p v n => exact store_meets c p v n

theorem run_meets (keeps : PageSource.Keeps σ window admits I) {s : HeapSession σ}
    (c : s.Consistent I window) (calls : List HeapCall) :
    (s.run calls).Meets admits (Consistent I window) := by
  induction calls generalizing s with
  | nil => exact Run.meets_pure c
  | cons call calls ih => exact (step_meets keeps c call).bind fun s' c' => ih c'

/-- **The invariant holds throughout every session.**  What clients are promised in the modules that
build on this is read off the invariant. -/
theorem execute_meets {start : VirtAddr} {initialSize maxSize : Nat} {pages : σ}
    (keeps : PageSource.Keeps σ (pageSpan start 0 (maxSize / pageSize)) admits I)
    (hI : I ∅ pages) (calls : List HeapCall) :
    (execute start initialSize maxSize pages calls).Meets admits fun s? =>
      ∀ s ∈ s?, s.Consistent I (pageSpan start 0 (maxSize / pageSize)) := by
  refine (Heap.init_meets keeps hI).bind ?_
  rintro ⟨made, pages⟩ hmade
  cases made with
  | error e => exact Run.meets_pure fun s hs => by cases hs
  | ok heap =>
      obtain ⟨hI', hstart, hmaxSize, -, sound⟩ := hmade
      have hnone : allocated [⟨0, UInt32.ofNat (heap.size - headerSize), true⟩] = ∅ := by
        simp [allocated, usedBlocks]
      have c : Consistent I (pageSpan start 0 (maxSize / pageSize)) { heap, pages, ledger := [] } := by
        refine ⟨?_, hI', _, sound, tracks_nil hnone⟩
        rw [Heap.window, hstart, hmaxSize]
      refine Run.Meets.map ((run_meets keeps c calls).imp fun s c s' hs => ?_)
      obtain rfl := Option.mem_some_iff.mp hs
      exact c

end HeapSession

end TinyKernel
