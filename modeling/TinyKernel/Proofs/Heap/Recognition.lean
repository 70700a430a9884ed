import TinyKernel.Proofs.Heap.Session

/-!
# Which pointers are accepted

A client can hand any pointer back: one that was never handed out, one into the middle of a payload,
or one to a block that was freed and has since become part of another one.  Only the pointers of
blocks that are allocated at that moment are accepted, and all others change nothing.

## What is load-bearing

The bytes of a header that is no longer in use stay where they were, and clients write what they
like into their payloads.  A pointer is compared with the blocks that are met on the walk from offset
zero, and the walk never enters a payload; so neither a left-over header nor a forged one is found.

* `Heap.IsLive` — what the walk says about a pointer
* `Heap.Recognizes` — which pointers `free` and `realloc` accept
* `HeapSession.execute_recognizes` — it is the pointers that the client holds
-/

namespace TinyKernel

namespace Heap

/-- **A pointer is live** when it is to the payload of a block that the walk shows as allocated.  It is
a property of the heap alone, whoever holds the pointer. -/
def IsLive (h : Heap) (p : Pointer) : Prop :=
  ∃ blocks, h.walk = .ok blocks ∧ ∃ b ∈ blocks, b.2.isFree = 0 ∧ p = payload b.1

/-- **Exactly the pointers on the ledger are accepted**, and every other one, whatever its value, is
turned down with nothing changed.  The clause about resizing needs no page source to say anything,
since none is asked. -/
structure Recognizes {σ : Type} [PageSource σ] (h : Heap) (pages : σ) (ledger : Ledger) : Prop where
  isLive_iff : ∀ p, h.IsLive p ↔ ∃ a ∈ ledger, a.pointer = p
  free : ∀ p, (h.free p).Meets (fun _ => False) fun (freed, h') =>
    if freed then h.IsLive p ∧ ∀ q, h'.IsLive q ↔ h.IsLive q ∧ q ≠ p
    else ¬ h.IsLive p ∧ h' = h
  realloc : ∀ p, ¬ h.IsLive p → ∀ size,
    (h.realloc pages (some p) size).Meets (fun _ => False) (· = (none, h, pages))

namespace Sound

variable {σ : Type} [PageSource σ] {h : Heap} {l : List Block} {p : Pointer}
  {admits : Fault → Prop}

/-- The walk shows the allocated blocks of the layout as allocated, and no others. -/
theorem isLive_iff (s : Sound h l) : h.IsLive p ↔ ∃ b ∈ allocated l, p = payload b.start := by
  constructor
  · rintro ⟨blocks, hwalk, e, he, hused, rfl⟩
    obtain rfl := Except.ok.inj (s.represents.walk_ok.symm.trans hwalk)
    obtain ⟨b, hb, rfl⟩ := List.mem_map.mp he
    refine ⟨b, mem_allocated.mpr ⟨hb, ?_⟩, rfl⟩
    cases hfree : b.free with
    | false => rfl
    | true =>
        rw [s.represents.headerAt_isFree hb, hfree] at hused
        cases hused
  · rintro ⟨b, hb, rfl⟩
    obtain ⟨hbl, hused⟩ := mem_allocated.mp hb
    refine ⟨_, s.represents.walk_ok, _, List.mem_map_of_mem hbl, ?_, rfl⟩
    rw [s.represents.headerAt_isFree hbl, hused]
    rfl

/-- **Freeing** takes a live pointer out of the live ones, and does nothing for any other. -/
theorem free_isLive (s : Sound h l) (p : Pointer) :
    (h.free p).Meets admits fun (freed, h') =>
      if freed then h.IsLive p ∧ ∀ q, h'.IsLive q ↔ h.IsLive q ∧ q ≠ p
      else ¬ h.IsLive p ∧ h' = h := by
  refine (s.free_meets p).imp ?_
  rintro ⟨freed, h'⟩ hfreed
  cases freed with
  | false =>
      obtain ⟨hnone, rfl⟩ := hfreed
      refine ⟨fun hlive => ?_, rfl⟩
      obtain ⟨b, hb, hp⟩ := s.isLive_iff.mp hlive
      exact hnone b hb hp
  | true =>
      obtain ⟨b, hb, rfl, -, l', e, hset⟩ := hfreed
      refine ⟨s.isLive_iff.mpr ⟨b, hb, rfl⟩, fun q => ?_⟩
      rw [e.sound.isLive_iff, s.isLive_iff, hset]
      constructor
      · rintro ⟨c, hc, rfl⟩
        obtain ⟨hne, hc⟩ := Finset.mem_erase.mp hc
        refine ⟨⟨c, hc, rfl⟩, fun heq => hne ?_⟩
        exact s.eq_of_payload_eq (mem_allocated.mp hc).1 (mem_allocated.mp hb).1 heq
      · rintro ⟨⟨c, hc, rfl⟩, hne⟩
        refine ⟨c, Finset.mem_erase.mpr ⟨?_, hc⟩, rfl⟩
        rintro rfl
        exact hne rfl

/-- **Resizing refuses** what is not live, whatever the size. -/
theorem realloc_refused (s : Sound h l) (hp : ¬ h.IsLive p) (pages : σ) (size : Nat) :
    (h.realloc pages (some p) size).Meets admits (· = (none, h, pages)) := by
  unfold Heap.realloc
  by_cases hsize : size = 0
  case pos =>
    simp only [if_pos hsize]
    refine (s.free_isLive p).bind ?_
    rintro ⟨freed, h'⟩ hfreed
    cases freed with
    | false => exact Run.meets_pure (by rw [hfreed.2])
    | true => exact absurd hfreed.1 hp
  case neg =>
  simp only [if_neg hsize]
  rcases s.blockOf_cases p with ⟨b, hb, heq, hblock⟩ | ⟨-, hblock⟩
  case inr => exact Run.meets_lift_bind hblock (Run.meets_pure rfl)
  case inl =>
  -- the pointer is to a block, which then is a free one
  obtain ⟨next, prev, hread⟩ := s.represents.exists_header hb
  refine Run.meets_lift_bind hblock (Run.meets_lift_bind hread ?_)
  cases hfree : b.free with
  | true => exact Run.meets_pure rfl
  | false => exact absurd (s.isLive_iff.mpr ⟨b, mem_allocated.mpr ⟨hb, hfree⟩, heq⟩) hp

/-- The pointers on the ledger are the live ones, for the ledger lists the allocated blocks. -/
theorem recognizes (s : Sound h l) {ledger : Ledger} (t : Tracks ledger h l) (pages : σ) :
    h.Recognizes pages ledger where
  isLive_iff p := by
    rw [s.isLive_iff]
    constructor
    · rintro ⟨b, hb, rfl⟩
      exact t.complete b hb
    · rintro ⟨a, ha, rfl⟩
      obtain ⟨b, hb, d⟩ := t.live a ha
      exact ⟨b, hb, d.pointer_eq⟩
  free := s.free_isLive
  realloc _ hp size := s.realloc_refused hp pages size

end Sound

end Heap

/-- **Exactly the live pointers are accepted.**  Throughout every session, whatever the calls, the
bytes that the client writes and the pages that are refused: the live pointers are those that the
client holds.  Freeing any pointer at all succeeds if and only if it is live; if so, then it and
no other pointer stops being live, and if not, then nothing changes.  Nothing changes either, and
there is no answer, when a pointer that is not live is to be resized. -/
theorem HeapSession.execute_recognizes {σ : Type} [PageSource σ] (start : VirtAddr)
    (initialSize maxSize : Nat) (pages : σ) (calls : List HeapCall) :
    (HeapSession.execute start initialSize maxSize pages calls).Meets (PageSource.Raises σ)
      fun s? => ∀ s ∈ s?, s.heap.Recognizes s.pages s.ledger := by
  refine (execute_meets (PageSource.keeps_true σ _) trivial calls).imp fun s? hs s hmem => ?_
  obtain ⟨l, sound, t⟩ := (hs s hmem).layout
  exact sound.recognizes t s.pages

end TinyKernel
