import TinyKernel.Proofs.Heap.Live

/-!
# The law of resizing

What a client knows after it has asked for more or for less room: where its bytes are, which pointers
are live, and that nobody else has noticed.  A request that fails has not happened, as far as any
client can tell.

## What is load-bearing

The old block stays allocated until its bytes are copied, so that nothing that is done for the new one
(a block is split, the heap grows, neighbours merge) touches them, and the new block is allocated while
the old one is freed.  Each of the two changes keeps the payloads of all blocks that are allocated on
both sides of it (`Heap.Evolves`), and the bytes are followed from one block to the other between them.

* `Heap.Preserves` — an allocation of which nothing has changed
* `Heap.Resizes` — what a client finds after more room was asked for
* `HeapSession.execute_obeys_resizing` — the law holds in every session
-/

namespace TinyKernel

namespace Heap

/-- **Nothing about an allocation has changed**: it is live, as large as before, and has the same
bytes.  It is said of a pointer and not of a block, so that it makes sense for two heaps whose blocks
differ. -/
structure Preserves (h h' : Heap) (p : Pointer) : Prop where
  isLive : h'.IsLive p
  payloadSize_eq : h'.payloadSize p = h.payloadSize p
  byteAt_eq : ∀ i < h.payloadSize p, h'.byteAt p i = h.byteAt p i

/-- **An allocation has moved**: its bytes are now found at a pointer that was not live, with at least
`size` bytes of room.  The old pointer is no longer live, and no other allocation has changed. -/
structure MovesTo (h h' : Heap) (p q : Pointer) (size : Nat) : Prop where
  ne : q ≠ p
  fresh : ¬ h.IsLive q
  live : h'.IsLive q
  dead : ¬ h'.IsLive p
  size_le : size ≤ h'.payloadSize q
  byteAt_eq : ∀ i < h.payloadSize p, h'.byteAt q i = h.byteAt p i
  isLive_iff : ∀ r, r ≠ p → r ≠ q → (h'.IsLive r ↔ h.IsLive r)
  preserves : ∀ r, h.IsLive r → r ≠ p → h.Preserves h' r

/-- **What a client finds** after more room was asked for at a live pointer.  Without an answer, the
same pointers are live as before, with the same bytes. -/
def Resizes (h h' : Heap) (p : Pointer) (size : Nat) : Option Pointer → Prop
  | some q => h.MovesTo h' p q size
  | none => ∀ r, (h'.IsLive r ↔ h.IsLive r) ∧ (h.IsLive r → h.Preserves h' r)

/-- Without a pointer, resizing is allocation. -/
theorem realloc_none {σ : Type} [PageSource σ] (h : Heap) (pages : σ) (size : Nat) :
    h.realloc pages none size = h.alloc pages size := rfl

/-- To resize an allocation to nothing is to free it, and there is no answer. -/
theorem realloc_zero {σ : Type} [PageSource σ] (h : Heap) (pages : σ) (p : Pointer) :
    h.realloc pages (some p) 0 = (fun (_, h') => (none, h', pages)) <$> h.free p := by
  rw [map_eq_pure_bind]
  rfl

variable {h h' : Heap} {l l' : List Block} {b : Block}

/-- **A block that stays allocated is preserved**, with its size and every byte. -/
theorem Evolves.preserves (e : Evolves h l h' l') (s : Sound h l) (hb : b ∈ allocated l)
    (hb' : b ∈ allocated l') : h.Preserves h' (payload b.start) := by
  have hsize := s.payloadSize_eq (mem_allocated.mp hb).1
  refine ⟨e.sound.isLive_iff.mpr ⟨b, hb', rfl⟩, ?_, fun i hi => ?_⟩
  · rw [hsize, e.sound.payloadSize_eq (mem_allocated.mp hb').1]
  · rw [hsize] at hi
    exact e.payloads b hb hb' _ ⟨Nat.le_add_right .., Nat.add_lt_add_left hi _⟩

namespace Sound

section

variable {σ : Type} [PageSource σ] {admits : Fault → Prop} {I : Finset VirtAddr → σ → Prop}
  {pages : σ}

/-- **A block that is large enough stays**, and nothing else happens either. -/
theorem realloc_stays (s : Sound h l) (hb : b ∈ allocated l) (pages : σ) {size : Nat}
    (hsize : size ≠ 0) (hle : size ≤ b.size.toNat) :
    (h.realloc pages (some (payload b.start)) size).Meets admits
      (· = (some (payload b.start), h, pages)) := by
  obtain ⟨hmem, hused⟩ := mem_allocated.mp hb
  unfold realloc
  simp only [if_neg hsize]
  obtain ⟨c, hc, hp, hblock⟩ | ⟨hnone, -⟩ := s.blockOf_cases (payload b.start)
  case inr => exact absurd rfl (hnone b hmem)
  case inl =>
  obtain rfl := s.eq_of_payload_eq hmem hc hp
  refine Run.meets_lift_bind hblock (Run.meets_lift_bind (s.represents.used b hmem hused) ?_)
  rw [if_neg (by simp [BlockHeader.used]),
    if_pos (show size ≤ (BlockHeader.used b.size).size.toNat from hle)]
  exact Run.meets_pure rfl

/-- **A block that is too small moves**, or stays if there is no room.  It never grows in place, even
where the block behind it is free. -/
theorem realloc_moves (s : Sound h l) (keeps : PageSource.Keeps σ h.window admits I)
    (hI : I h.backed pages) (hb : b ∈ allocated l) {size : Nat} (hlt : b.size.toNat < size) :
    (h.realloc pages (some (payload b.start)) size).Meets admits fun (q?, h', _) =>
      h.Resizes h' (payload b.start) size q? := by
  have hsize : size ≠ 0 := Nat.ne_of_gt (Nat.zero_lt_of_lt hlt)
  refine ((s.realloc_meets keeps hI _ hsize).and
    (s.realloc_trades keeps hI (some (payload b.start)) size)).imp ?_
  rintro ⟨q?, h', pages'⟩ ⟨⟨-, l', e, hanswer⟩, t⟩
  cases q? with
  | none =>
      intro r
      rw [e.sound.isLive_iff, s.isLive_iff, hanswer]
      refine ⟨Iff.rfl, ?_⟩
      rintro ⟨c, hc, rfl⟩
      exact e.preserves s hc (hanswer ▸ hc)
  | some q =>
  obtain ⟨b', hb', heq, ⟨hle, -⟩ | ⟨-, h₁, l₁, ⟨e₁, c, hands, hcopy⟩, e₂, hset⟩⟩ := hanswer
  all_goals obtain rfl := s.eq_of_payload_eq (mem_allocated.mp hb).1 (mem_allocated.mp hb').1 heq
  case inl => exact absurd hle (Nat.not_le.mpr hlt)
  case inr =>
  obtain rfl := hands.pointer_eq
  have hcmem₁ : c ∈ allocated l₁ := hands.mem.1
  have hbmem₁ : b ∈ allocated l₁ := hands.mem.2 hb
  have hne : c ≠ b := by
    rintro rfl
    exact hands.fresh hb
  have hcmem : c ∈ allocated l' := hset ▸ Finset.mem_erase.mpr ⟨hne, hcmem₁⟩
  have hbsize := s.payloadSize_eq (mem_allocated.mp hb).1
  have hmoved : payload c.start ≠ payload b.start := fun heq => hne
    (e₁.sound.eq_of_payload_eq (mem_allocated.mp hcmem₁).1 (mem_allocated.mp hbmem₁).1 heq)
  constructor
  case ne => exact hmoved
  case fresh =>
    intro hlive
    -- a pointer that is answered with although it was live is the one that was given back
    exact hmoved (Option.some.inj (t.fresh _ rfl hlive)).symm
  case live => exact (t.isLive_iff _).mpr (Or.inl rfl)
  case dead =>
    intro hlive
    rcases (t.isLive_iff _).mp hlive with heq | ⟨-, hback⟩
    · exact hmoved (Option.some.inj heq)
    · exact hback rfl
  case isLive_iff =>
    intro r hp hq
    rw [t.isLive_iff]
    simp [resizedAway, Ne.symm hp, Ne.symm hq]
  case size_le =>
    rw [e.sound.payloadSize_eq (mem_allocated.mp hcmem).1]
    exact hands.large
  case byteAt_eq =>
    intro i hi
    rw [hbsize] at hi
    have hlarge := hands.large
    calc h'.arena.byte (c.first + i)
        = h₁.arena.byte (c.first + i) :=
          e₂.payloads c hcmem₁ hcmem _ ⟨by omega, by simp only [Block.stop]; omega⟩
      _ = h.arena.byte (b.first + i) := hcopy i hi
  case preserves =>
    intro r hlive hr
    obtain ⟨d, hd, rfl⟩ := s.isLive_iff.mp hlive
    refine e.preserves s hd (hset ▸ Finset.mem_erase.mpr ⟨?_, hands.mem.2 hd⟩)
    rintro rfl
    exact hr rfl

end

end Sound

end Heap

/-- **The law of resizing.**  In every heap that a session leads to, whatever page source the request
is made over.  A live pointer whose payload is large enough is the answer, and nothing changes at all.
If it is too small, its bytes move to a new pointer, or else nothing that a client can see changes.
Without a pointer, resizing is allocation; and to resize an allocation to nothing is to free it. -/
theorem HeapSession.execute_obeys_resizing {σ : Type} [PageSource σ] (start : VirtAddr)
    (initialSize maxSize : Nat) (pages : σ) (calls : List HeapCall) :
    (HeapSession.execute start initialSize maxSize pages calls).Meets (PageSource.Raises σ)
      fun s? => ∀ s ∈ s?, ∀ {τ : Type} [PageSource τ] (pages : τ),
        (∀ p, s.heap.IsLive p → ∀ size, 0 < size →
          if size ≤ s.heap.payloadSize p then
            (s.heap.realloc pages (some p) size).Meets (fun _ => False)
              (· = (some p, s.heap, pages))
          else
            (s.heap.realloc pages (some p) size).Meets (PageSource.Raises τ) fun (q?, h', _) =>
              s.heap.Resizes h' p size q?)
        ∧ (∀ size, s.heap.realloc pages none size = s.heap.alloc pages size)
        ∧ ∀ p, s.heap.realloc pages (some p) 0
            = (fun (_, h') => (none, h', pages)) <$> s.heap.free p := by
  refine (execute_meets (PageSource.keeps_true σ _) trivial calls).imp fun s? hs s hmem => ?_
  obtain ⟨l, sound, -⟩ := (hs s hmem).layout
  intro τ _ pages
  refine ⟨fun p hlive size hpos => ?_, s.heap.realloc_none pages, s.heap.realloc_zero pages⟩
  obtain ⟨b, hb, rfl⟩ := sound.isLive_iff.mp hlive
  rw [sound.payloadSize_eq (mem_allocated.mp hb).1]
  split
  case isTrue hle => exact sound.realloc_stays hb pages (Nat.ne_of_gt hpos) hle
  case isFalse hlarge =>
    exact sound.realloc_moves (PageSource.keeps_true τ _) trivial hb (Nat.not_le.mp hlarge)

end TinyKernel
