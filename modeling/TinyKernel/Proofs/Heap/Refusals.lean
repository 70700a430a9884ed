import TinyKernel.Proofs.Heap.FirstFit

/-!
# Requests that are refused

A request that cannot be answered leaves the heap and its pages as they were, with one exception: when
less room is left than the request needs, the heap grows by all of that room before it is searched
again.  If the block at the end is still too small then, the request is refused, and the heap stays as
large as it may become.

## What is load-bearing

Growth by as many bytes as the request needs always makes a block that fits.  So a search that fails
after growth was preceded by a smaller step, and there is only one that is smaller: all of the room
(`Heap.GrowsBy.exhausts`).

* `Heap.Traceless`, `Heap.Exhausts` — what a request that is refused leaves
* `Heap.Sound.alloc_in_vain` — when the exception occurs
* `HeapSession.execute_refuses` — one of the two, in every session
-/

namespace TinyKernel

namespace Heap

section

variable {τ : Type}

/-- **Nothing is left of a request**: the heap is what it was, and what was backed for the request was
released again, page by page. -/
def Traceless (h : Heap) (p : Journaled τ) (h' : Heap) (p' : Journaled τ) : Prop :=
  h' = h ∧ ∃ recent, p'.journal = p.journal ++ recent
    ∧ ∀ page, recent.count (.released page) = recent.count (.backed page)

/-- **The room is used up in vain.**  No free block is large enough for the request, and neither is
the block at the end once the heap has grown by all the room that there is.  All pages of that room
are backed, and the heap has its maximum size from then on.  Blocks that are allocated are left
alone. -/
structure Exhausts (h : Heap) (l : List Block) (p : Journaled τ) (size : Nat) (h' : Heap)
    (p' : Journaled τ) : Prop where
  range : h.Admits size
  misses : Misses l (rounded size)
  room : pageSize ≤ h.maxSize - h.size
  short : tailBytes l (h.maxSize - h.size) < rounded size
  journal_eq : p'.journal = p.journal ++ PageEvent.row .backed h.start (h.size / pageSize)
    ((h.maxSize - h.size) / pageSize)
  size_eq : h'.size = h.maxSize
  layout_eq : h'.layout = .ok (h.grownLayout l (h.maxSize - h.size))
  spares : h.Spares l h'

/-- **What a request leaves if the answer is nothing.**  One of the two cases always applies, and they
exclude each other, as the second lets the heap grow. -/
def Refuses (h : Heap) (l : List Block) (p : Journaled τ) (size : Nat) (q? : Option Pointer)
    (h' : Heap) (p' : Journaled τ) : Prop :=
  q? = none → h.Traceless p h' p' ∨ h.Exhausts l p size h' p'

variable {h h' : Heap} {l l' : List Block} {p p' : Journaled τ} {size : Nat} {q? : Option Pointer}

theorem traceless_refl (h : Heap) (p : Journaled τ) : h.Traceless p h p :=
  ⟨rfl, [], (List.append_nil _).symm, fun _ => rfl⟩

variable [PageSource τ]

/-- A heap that does not grow releases what was backed, or asks for no page. -/
theorem Ungrown.traceless (ungrown : h.Ungrown p (h.growthStep size) p') (s : Sound h l) :
    h.Traceless p h p' := by
  cases ungrown with
  | full => exact h.traceless_refl p
  | refused _ hback =>
      obtain ⟨m, hm, hjournal⟩ := (s.growthStep_journal p size).of_returns hback
      refine ⟨rfl, _, hjournal, fun page => ?_⟩
      have step : GrowthStep h.start _ _ _ _ := .refused (Nat.add_lt_add_left hm (h.size / pageSize))
      obtain ⟨-, hcounts⟩ :=
        step.rolledBack (s.growth_fits size) (List.mem_append_right _ List.mem_cons_self)
      exact (hcounts page).1

/-- A step of growth that is too small for the request takes all the room that there is.  With more
room it would have been large enough. -/
theorem growthStep_eq_room (hshort : h.growthStep size < size + headerSize) :
    h.growthStep size = h.maxSize - h.size := by
  rw [growthStep] at hshort ⊢
  simp only [headerSize, pageSize] at hshort ⊢
  omega

/-- **A heap that has grown in vain has grown as far as it may.**  So it happens once at most in the
life of a heap. -/
theorem GrowsBy.exhausts (range : h.Admits size) (misses : Misses l (rounded size))
    (grows : h.GrowsBy l p (h.growthStep (rounded size)) h' l' p') (s : Sound h l)
    (still : Misses l' (rounded size)) : h.Exhausts l p size h' p' := by
  obtain ⟨pre, b, rfl, -, hfree, hsize⟩ := grows.getLast?_eq s
  have hshort := still b (by simp) hfree
  rw [hsize] at hshort
  have htail := le_tailBytes l (h.growthStep (rounded size))
  have hstep : h.growthStep (rounded size) = h.maxSize - h.size := growthStep_eq_room (by omega)
  have hjournal := s.journal_of_growsBy grows
  have hlayout := grows.evolves.sound.represents.layout_ok
  have hgrown := grows.size_eq
  rw [grows.layout_eq] at hlayout
  rw [hstep] at hshort hjournal hlayout hgrown
  refine ⟨range, misses, grows.room, hshort, hjournal, ?_, hlayout, ?_⟩
  · have hle := s.range.size_le
    omega
  · exact grows.evolves.spares s grows.allocated_eq.ge

theorem Allocates.refuses (allocates : h.Allocates l p size q? h' l' p') (s : Sound h l) :
    h.Refuses l p size q? h' p' := by
  intro hnone
  cases allocates with
  | outOfRange => exact Or.inl (h.traceless_refl p)
  | fits => cases hnone
  | ungrown range misses ungrown => exact Or.inl (ungrown.traceless s)
  | short range misses grows still => exact Or.inr (grows.exhausts range misses s still)
  | grown => cases hnone

namespace Sound

theorem alloc_refuses (s : Sound h l) (p : Journaled τ) (size : Nat) :
    (h.alloc p size).Meets (PageSource.Raises τ) fun (q?, h', p') =>
      h.Refuses l p size q? h' p' := by
  refine (s.alloc_cases (Journaled.keeps_true τ _) trivial size).imp ?_
  rintro ⟨q?, h', p'⟩ ⟨-, l', allocates⟩
  exact allocates.refuses s

/-- What defers to allocation refuses as allocation does.  The clearing of `calloc` and the copy of
`realloc` come only after an answer. -/
theorem refuses_of_defers (s : Sound h l) (defers : h.Defers p size q? h' p') :
    h.Refuses l p size q? h' p' := by
  intro hnone
  obtain ⟨rfl, hsame⟩ | ⟨r?, h₁, hreturns, hpassed⟩ := defers
  · obtain rfl := hsame hnone
    exact Or.inl (h'.traceless_refl p')
  · obtain ⟨rfl, rfl⟩ := hpassed hnone
    exact (s.alloc_refuses p size).of_returns hreturns rfl

theorem calloc_refuses (s : Sound h l) (p : Journaled τ) (count size : Nat) :
    (h.calloc p count size).Meets (PageSource.Raises τ) fun (q?, h', p') =>
      h.Refuses l p (count * size) q? h' p' := by
  refine ((s.calloc_meets (Journaled.keeps_true τ _) trivial count size).and
    (h.calloc_defers p count size)).imp ?_
  rintro ⟨q?, h', p'⟩ ⟨-, defers⟩
  exact s.refuses_of_defers defers

theorem realloc_refuses (s : Sound h l) (p : Journaled τ) (q? : Option Pointer) {size : Nat}
    (hsize : size ≠ 0) :
    (h.realloc p q? size).Meets (PageSource.Raises τ) fun (r?, h', p') =>
      h.Refuses l p size r? h' p' := by
  refine ((s.realloc_evolves (Journaled.keeps_true τ _) trivial q? size).and
    (h.realloc_defers p q? hsize)).imp ?_
  rintro ⟨r?, h', p'⟩ ⟨-, defers⟩
  exact s.refuses_of_defers defers

end Sound

end

end Heap

/-! ## When the exception occurs -/

namespace Heap.Sound

variable {σ : Type} [PageSource σ] {admits : Fault → Prop} {I : Finset VirtAddr → σ → Prop}
  {pages : σ} {h : Heap} {l : List Block} {b : Block} {size : Nat}

/-- If there is one block and all of it is asked for, then it is handed out, and nothing of it is left
free. -/
theorem alloc_whole (s : Sound h [b]) (hb : b.free = true) (range : h.Admits b.size.toNat)
    (keeps : PageSource.Keeps σ h.window admits I) (hI : I h.backed pages) :
    (h.alloc pages b.size.toNat).Meets admits fun (_, h', pages') =>
      I h'.backed pages' ∧ Evolves h [b] h' [{ b with free := false }] ∧ h'.size = h.size := by
  have hrounded : rounded b.size.toNat = b.size.toNat := by
    obtain ⟨n, hn⟩ := (s.regular b List.mem_cons_self).2
    rw [rounded, hn]
    simp only [heapAlign]
    omega
  have hnot : ¬ Misses [b] (rounded b.size.toNat) := fun misses =>
    Nat.lt_irrefl _ (hrounded ▸ misses b List.mem_cons_self hb)
  refine (s.alloc_cases keeps hI b.size.toNat).imp ?_
  rintro ⟨q?, h', pages'⟩ ⟨hI', l', allocates⟩
  cases allocates with
  | outOfRange out => exact absurd range out
  | ungrown _ misses => exact absurd misses hnot
  | short _ misses => exact absurd misses hnot
  | grown _ misses => exact absurd misses hnot
  | fits _ takes =>
      obtain ⟨pre, post, hsplit, rfl, -⟩ := takes.split
      obtain ⟨rfl, hcons⟩ | ⟨-, hnil⟩ := List.append_eq_singleton_iff.mp hsplit.symm
      case inr => cases hnil
      obtain ⟨rfl, rfl⟩ := List.cons.inj hcons
      have evolves := takes.evolves
      rw [Block.carve, if_neg (by rw [hrounded]; omega)] at evolves
      exact ⟨hI', evolves, takes.size_eq⟩

/-- **When a heap grows in vain**: no block is large enough, neither will the one at the end be, and no
page is refused.  The conditions are about the heap before the request, so that the case can be told
beforehand. -/
theorem alloc_in_vain (s : Sound h l) (range : h.Admits size) (misses : Misses l (rounded size))
    (room : pageSize ≤ h.maxSize - h.size) (short : tailBytes l (h.maxSize - h.size) < rounded size)
    (accepts : (backRange h.start h.size (h.maxSize - h.size) pages).Meets (fun _ => True)
      fun (result, _) => result = .ok ())
    (keeps : PageSource.Keeps σ h.window admits I) (hI : I h.backed pages) :
    (h.alloc pages size).Meets admits fun (q?, h', pages') =>
      I h'.backed pages' ∧ q? = none ∧ (∃ l', Evolves h l h' l') ∧ h'.size = h.maxSize := by
  have htail := le_tailBytes l (h.maxSize - h.size)
  have hmax := s.range.size_le
  have hstep : h.growthStep (rounded size) = h.maxSize - h.size :=
    growthStep_eq_room (Nat.lt_of_le_of_lt (s.growthStep_cases _).2.1 (by omega))
  refine (s.alloc_cases keeps hI size).imp ?_
  rintro ⟨q?, h', pages'⟩ ⟨hI', l', allocates⟩
  cases allocates with
  | outOfRange out => exact absurd range out
  | fits _ takes => exact absurd (misses _ takes.mem takes.free) (Nat.not_lt.mpr takes.fits)
  | ungrown _ _ ungrown =>
      rw [hstep] at ungrown
      cases ungrown with
      | full full => omega
      | refused _ backed => cases accepts.of_returns backed
  | short _ _ grows =>
      have hsize := grows.size_eq
      exact ⟨hI', rfl, ⟨_, grows.evolves⟩, by omega⟩
  | grown _ _ grows takes =>
      have hfits := takes.fits
      rw [(takes.eq_getLast? misses s grows).2, hstep] at hfits
      omega

end Heap.Sound

/-! ## A quota of pages -/

/-- A quota of pages, none of which it denies, lists the pages that are backed. -/
def PageQuota.Lists (limit : Nat) (backed : Finset VirtAddr) (q : PageQuota) : Prop :=
  q.limit = limit ∧ q.denied = [] ∧ q.backed.toList.Nodup ∧ q.backed.toList.toFinset = backed

namespace PageQuota.Lists

variable {limit : Nat} {backed : Finset VirtAddr} {q : PageQuota}

theorem size_eq (lists : Lists limit backed q) : q.backed.size = backed.card := by
  obtain ⟨-, -, hnodup, rfl⟩ := lists
  rw [List.toFinset_card_of_nodup hnodup, Array.length_toList]

/-- It lists as many pages as the heap has, none of them twice. -/
theorem size_backed {h : Heap} {l : List Block} (lists : Lists limit h.backed q) (s : h.Sound l) :
    q.backed.size = h.size / pageSize := by
  have hle := s.range.size_le
  have hfits := s.range.fits
  rw [lists.size_eq, Heap.backed, card_pageSpan, Nat.sub_zero]
  rw [Nat.div_mul_cancel s.range.pages]
  omega

theorem keeps (limit : Nat) (window : Finset VirtAddr) :
    PageSource.Keeps PageQuota window (fun _ => False) (Lists limit) where
  back {backed q page} lists _ fresh := by
    obtain ⟨rfl, hdenied, hnodup, rfl⟩ := lists
    rw [List.mem_toFinset, Array.mem_toList_iff] at fresh
    show Run.Meets (if page ∈ q.denied then _ else if q.limit ≤ q.backed.size then _ else _) _ _
    rw [hdenied, if_neg List.not_mem_nil]
    split
    case isTrue => exact Run.meets_pure ⟨rfl, hdenied, hnodup, rfl⟩
    case isFalse =>
      refine Run.meets_pure ⟨rfl, rfl, ?_, ?_⟩
      · simpa [List.nodup_append] using ⟨hnodup, fun a ha => ne_of_mem_of_not_mem ha fresh⟩
      · ext other
        simp
  release {backed q page} lists _ there := by
    obtain ⟨rfl, hdenied, hnodup, rfl⟩ := lists
    refine Run.meets_pure ⟨rfl, hdenied, ?_, ?_⟩
    · simpa using hnodup.filter _
    · ext other
      simp [and_comm]

/-- No page is refused below the limit, whatever its address is. -/
theorem backs (lists : Lists limit backed q) (hcard : backed.card < limit) (start : VirtAddr)
    (origin : Nat) :
    (backRange start origin pageSize q).Meets (fun _ => True) fun (result, _) => result = .ok () := by
  have hroom : ¬ q.limit ≤ q.backed.size := by
    rw [lists.size_eq, lists.1]
    omega
  refine Run.meets_lift_bind_of_ok fun page _ => ?_
  show Run.Meets ((if page ∈ q.denied then _ else if q.limit ≤ q.backed.size then _ else _) >>= _) _ _
  rw [lists.2.1, if_neg List.not_mem_nil, if_neg hroom]
  exact Run.meets_pure rfl

end PageQuota.Lists

/-! ## Throughout every session -/

/-- **A request that is refused leaves the heap and its pages as they were**, unless it uses up all
room that there is, and in vain. -/
theorem HeapSession.execute_refuses {σ : Type} [PageSource σ] (start : VirtAddr)
    (initialSize maxSize : Nat) (pages : σ) (calls : List HeapCall) :
    (HeapSession.execute start initialSize maxSize pages calls).Meets (PageSource.Raises σ)
      fun s? => ∀ s ∈ s?, ∃ l, s.heap.layout = .ok l ∧ ∀ {τ : Type} [PageSource τ] (p : Journaled τ),
        (∀ size, (s.heap.alloc p size).Meets (PageSource.Raises τ) fun (q?, h', p') =>
            s.heap.Refuses l p size q? h' p')
          ∧ (∀ count size, (s.heap.calloc p count size).Meets (PageSource.Raises τ)
              fun (q?, h', p') => s.heap.Refuses l p (count * size) q? h' p')
          ∧ ∀ r? size, size ≠ 0 → (s.heap.realloc p r? size).Meets (PageSource.Raises τ)
              fun (q?, h', p') => s.heap.Refuses l p size q? h' p' := by
  refine (execute_meets (PageSource.keeps_true σ _) trivial calls).imp fun s? hs s hmem => ?_
  obtain ⟨l, sound, -⟩ := (hs s hmem).layout
  refine ⟨l, sound.represents.layout_ok, fun {τ} _ p => ⟨?_, ?_, ?_⟩⟩
  · exact sound.alloc_refuses p
  · exact sound.calloc_refuses p
  · exact fun r? size => sound.realloc_refuses p r?

/-- **A request that is refused can let the heap grow.**  A heap of one page, of which all is allocated,
may have one page more.  It is asked for more than a page, refuses, and has both pages from then on. -/
theorem HeapSession.refused_request_grows_heap :
    (HeapSession.execute ⟨0x400000⟩ 4096 8192 ({ limit := 2, denied := [] } : PageQuota)
        [.alloc 4080]).Meets (fun _ => False) fun s? => ∃ s ∈ s?,
      s.heap.size = 4096 ∧ s.pages.backed.size = 1
        ∧ (s.heap.alloc s.pages 4088).Meets (fun _ => False) fun (q?, h', pages') =>
          q? = none ∧ h'.size = 8192 ∧ pages'.backed.size = 2 := by
  have hnone : PageQuota.Lists 2 ∅ { limit := 2, denied := [] } := ⟨rfl, rfl, List.nodup_nil, rfl⟩
  refine (Heap.init_cases (PageQuota.Lists.keeps 2 _) hnone).bind ?_
  rintro ⟨made, pages⟩ ⟨setsUp, lists⟩
  cases setsUp with
  | invalid invalid => exact absurd invalid (by decide)
  | refused _ refused => cases (hnone.backs (by decide) _ 0).of_returns refused
  | @ready h _ _ _ _ maxSize_eq size_eq sound =>
  have hpayload : (UInt32.ofNat (h.size - headerSize)).toNat = 4080 := by
    rw [size_eq]
    rfl
  have range : h.Admits (UInt32.ofNat (h.size - headerSize)).toNat := by
    rw [hpayload]
    exact ⟨by decide, by rw [maxSize_eq]; decide⟩
  have hwhole := sound.alloc_whole rfl range (PageQuota.Lists.keeps 2 _) lists
  rw [hpayload] at hwhole
  have hstep : (HeapSession.step ⟨h, pages, []⟩ (.alloc 4080)).Meets (fun _ => False) fun s =>
      PageQuota.Lists 2 s.heap.backed s.pages ∧ h.Evolves _ s.heap _ ∧ s.heap.size = h.size :=
    hwhole.bind fun _ h₁ => Run.meets_pure h₁
  refine Run.Meets.map (hstep.bind ?_)
  rintro s ⟨lists₁, e, hsize⟩
  have hsize := hsize.trans size_eq
  have hmax := e.maxSize_eq.trans maxSize_eq
  have hone : s.pages.backed.size = 1 := by
    rw [lists₁.size_backed e.sound, hsize]
    rfl
  have range₁ : s.heap.Admits 4088 := ⟨by decide, by rw [hmax]; decide⟩
  refine Run.meets_pure ⟨s, rfl, hsize, hone, ?_⟩
  refine (e.sound.alloc_in_vain range₁ ?_ ?_ ?_ ?_ (PageQuota.Lists.keeps 2 _) lists₁).imp ?_
  · intro b hb hfree
    obtain rfl := List.mem_singleton.mp hb
    cases hfree
  · rw [hmax, hsize]
    decide
  · rw [hmax, hsize]
    show 8192 - 4096 - headerSize < Heap.rounded 4088
    decide
  · rw [hmax, hsize]
    exact lists₁.backs (by rw [← lists₁.size_eq, hone]; decide) _ _
  · rintro ⟨q?, h', pages'⟩ ⟨lists', rfl, ⟨l', e'⟩, hsize'⟩
    rw [hmax] at hsize'
    refine ⟨rfl, hsize', ?_⟩
    rw [lists'.size_backed e'.sound, hsize']
    rfl

end TinyKernel
