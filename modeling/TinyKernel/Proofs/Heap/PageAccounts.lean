import TinyKernel.Proofs.Heap.Journal

/-!
# The pages of a heap, accounted for

Whatever a page source refuses, and whenever: the pages that were backed and not released again are
exactly the pages of the heap.

## What is load-bearing

The journal is looked at in two ways.  As a sum, it goes along with the set of pages that are backed,
so that the contracts of the operations say what it adds up to (`Journaled.keeps_accounts`).  As a
list, it grows by the journal of one range at most in each call, because every operation leaves growth
to one allocation at most (`Heap.Defers`).  That the two fit together says by how much the heap has
grown.

* `Accounts` — what a journal adds up to
* `HeapSession.step_asks` — a call lets the heap grow once at most
* `HeapSession.init_run_accounted` — the pages of a heap throughout every session
-/

namespace TinyKernel

/-! ## What a journal adds up to -/

/-- **What a journal leaves backed.**  Each page was backed as often as it was released, and once
more if it is backed still. -/
def Accounts (journal : List PageEvent) (backed : Finset VirtAddr) : Prop :=
  ∀ page, journal.count (.backed page)
    = journal.count (.released page) + if page ∈ backed then 1 else 0

section

variable {journal recent : List PageEvent} {backed backed' : Finset VirtAddr} {page : VirtAddr}

theorem accounts_nil : Accounts [] ∅ := fun _ => rfl

theorem Accounts.back (a : Accounts journal backed) (fresh : page ∉ backed) :
    Accounts (journal ++ [.backed page]) (insert page backed) := by
  intro other
  have h := a other
  by_cases heq : page = other
  · subst heq
    rw [if_neg fresh] at h
    simp [List.count_append, h]
  · simp [List.count_append, h, heq, Ne.symm heq]

theorem Accounts.refuse (a : Accounts journal backed) (page : VirtAddr) :
    Accounts (journal ++ [.refused page]) backed := by
  intro other
  simpa [List.count_append] using a other

theorem Accounts.release (a : Accounts journal backed) (there : page ∈ backed) :
    Accounts (journal ++ [.released page]) (backed.erase page) := by
  intro other
  have h := a other
  by_cases heq : page = other
  · subst heq
    rw [if_pos there] at h
    simp [List.count_append, h]
  · simp [List.count_append, h, heq, Ne.symm heq]

/-- A journal says which pages are backed, so that there is no second account of them. -/
theorem Accounts.unique (a : Accounts journal backed) (a' : Accounts journal backed') :
    backed = backed' := by
  ext page
  have h := (a page).symm.trans (a' page)
  split at h <;> split at h <;> simp_all

/-- **The journal goes along with the pages that are backed.** -/
theorem Journaled.keeps_accounts (σ : Type) [PageSource σ] (window : Finset VirtAddr) :
    PageSource.Keeps (Journaled σ) window (PageSource.Raises σ) fun backed p =>
      Accounts p.journal backed where
  back {_ p page} a _ fresh := by
    refine (p.back_meets page).imp ?_
    rintro ⟨result, p'⟩ (h : p'.journal = _)
    cases result with
    | ok =>
        show Accounts p'.journal _
        rw [h]
        exact a.back fresh
    | error e =>
        show Accounts p'.journal _
        rw [h]
        exact a.refuse page
  release {_ p page} a _ there := by
    refine (p.release_meets page).imp fun p' h => ?_
    rw [h]
    exact a.release there

end

/-! ## The journal of a step of growth -/

section

variable {event : VirtAddr → PageEvent} {start page : VirtAddr} {journal recent : List PageEvent}
  {i n n' count : Nat}

namespace PageEvent

theorem mem_row (hevent : Function.Injective event) :
    event page ∈ row event start i count ↔ page ∈ pageSpan start i (i + count) := by
  simp only [row, pageSpan, List.mem_map, List.mem_range'_1, Finset.mem_image, Finset.mem_Ico,
    hevent.eq_iff]

/-- A row has each of its pages once. -/
theorem count_row (page : VirtAddr) (hevent : Function.Injective event)
    (fits : start.val.toNat + (i + count) * pageSize ≤ 2 ^ 32) :
    (row event start i count).count (event page)
      = if page ∈ pageSpan start i (i + count) then 1 else 0 := by
  have hnodup : (row event start i count).Nodup := by
    refine List.Nodup.map_on (fun j hj k hk heq => ?_) List.nodup_range'
    refine (pageAt_inj fits ?_ ?_).mp (hevent heq)
    · exact (List.mem_range'_1.mp hj).2
    · exact (List.mem_range'_1.mp hk).2
  rw [hnodup.count]
  exact if_congr (mem_row hevent) rfl rfl

theorem count_row_of_ne (other : PageEvent) (hother : ∀ page, event page ≠ other) :
    (row event start i count).count other = 0 := by
  refine List.count_eq_zero.mpr fun hmem => ?_
  obtain ⟨j, -, heq⟩ := List.mem_map.mp hmem
  exact hother _ heq

end PageEvent

namespace GrowthStep

variable {limit : Nat}

/-- In a step of growth that is refused, what is backed is released, each page once, and no other
page is. -/
theorem rolledBack (g : GrowthStep start limit n n' recent)
    (fits : start.val.toNat + limit * pageSize ≤ 2 ^ 32) (hrefused : .refused page ∈ recent) :
    n' = n ∧ ∀ other, recent.count (.released other) = recent.count (.backed other)
      ∧ recent.count (.backed other) ≤ 1 := by
  cases g with
  | idle => cases hrefused
  | grown room =>
      obtain ⟨j, -, heq⟩ := List.mem_map.mp hrefused
      cases heq
  | @refused count room =>
      have hfits := pages_fit_of_le (Nat.le_of_lt room) fits
      refine ⟨rfl, fun other => ?_⟩
      have hbacked := PageEvent.count_row other (fun _ _ => PageEvent.backed.inj) hfits
      have hreleased := PageEvent.count_row other (fun _ _ => PageEvent.released.inj) hfits
      rw [List.count_append, List.count_append, List.count_cons_of_ne PageEvent.noConfusion,
        List.count_cons_of_ne PageEvent.noConfusion, hbacked, hreleased,
        PageEvent.count_row_of_ne _ fun _ => PageEvent.noConfusion,
        PageEvent.count_row_of_ne _ fun _ => PageEvent.noConfusion]
      split <;> simp

theorem le_limit (g : GrowthStep start limit n n' recent) (hle : n ≤ limit) : n' ≤ limit := by
  cases g with
  | idle => exact hle
  | grown room => exact room
  | refused room => exact hle

/-- **The books stay right** in a step of growth.  The addresses of the pages must not wrap round, for
otherwise two pages could be one. -/
theorem accounts (g : GrowthStep start limit n n' recent) (aligned : start.pageOffset = 0)
    (fits : start.val.toNat + limit * pageSize ≤ 2 ^ 32)
    (a : Accounts journal (pageSpan start 0 n)) :
    Accounts (journal ++ recent) (pageSpan start 0 n') := by
  intro page
  have h := a page
  rw [List.count_append, List.count_append, h]
  cases g with
  | idle => rfl
  | @grown count room =>
      have hfits := pages_fit_of_le room fits
      have hfits' := pages_fit_of_le (Nat.le_add_right n count) hfits
      rw [PageEvent.count_row page (fun _ _ => PageEvent.backed.inj) hfits,
        PageEvent.count_row_of_ne _ fun _ => PageEvent.noConfusion]
      simp only [mem_pageSpan_iff aligned hfits, mem_pageSpan_iff aligned hfits', pageSize]
      by_cases hpage : page.pageOffset = 0
      · simp only [hpage, true_and]
        split <;> split <;> split <;> omega
      · simp only [hpage, false_and, if_false]
  | refused room =>
      have hrolled := ((GrowthStep.refused room).rolledBack fits
        (List.mem_append_right _ List.mem_cons_self)).2 page
      omega

/-- The books say how far a step of growth went, as a page more or less would show in them. -/
theorem eq_of_accounts {m : Nat} (g : GrowthStep start limit n n' recent)
    (aligned : start.pageOffset = 0) (fits : start.val.toNat + limit * pageSize ≤ 2 ^ 32)
    (hn : n ≤ limit) (hm : m ≤ limit) (a : Accounts journal (pageSpan start 0 n))
    (a' : Accounts (journal ++ recent) (pageSpan start 0 m)) : n' = m := by
  have hcard := congrArg Finset.card ((g.accounts aligned fits a).unique a')
  rwa [card_pageSpan (pages_fit_of_le (g.le_limit hn) fits), card_pageSpan (pages_fit_of_le hm fits),
    Nat.sub_zero, Nat.sub_zero] at hcard

end GrowthStep

end

/-! ## What an operation asks for -/

namespace Heap

section

variable {σ : Type} [PageSource σ]

/-- **A heap grows**: it stays sound where it is, and does not shrink.  For the accounts of pages
nothing else about an operation matters, and so this is all that is proved of most of them. -/
structure Grows (h h' : Heap) : Prop where
  sound : ∃ l', Sound h' l'
  start_eq : h'.start = h.start
  maxSize_eq : h'.maxSize = h.maxSize
  size_le : h.size ≤ h'.size

theorem Evolves.grows {h h' : Heap} {l l' : List Block} (e : Evolves h l h' l') : h.Grows h' :=
  ⟨⟨l', e.sound⟩, e.start_eq, e.maxSize_eq, e.size_le⟩

/-- **What an operation may ask of the pages**: nothing, or one range behind the last page for which
there is room. -/
def Asks (h : Heap) (pages pages' : σ) : Prop :=
  pages' = pages ∨ ∃ step result, step ≤ h.maxSize - h.size
    ∧ (backRange h.start h.size step pages).Returns (result, pages')

theorem asks_refl (h : Heap) (pages : σ) : h.Asks pages pages := Or.inl rfl

theorem expand_asks (h : Heap) (pages : σ) (size : Nat) :
    (h.expand pages size).Meets (fun _ => True) fun (_, _, pages') => h.Asks pages pages' := by
  unfold expand
  refine Run.meets_lift_bind_of_ok fun room hroom => ?_
  obtain rfl : room = h.maxSize - h.size := by
    rw [Checked.sub64] at hroom
    split at hroom <;> cases hroom
    rfl
  split
  case isTrue => exact Run.meets_log_bind (Run.meets_pure (h.asks_refl pages))
  refine Run.meets_lift_bind_of_ok fun sum _ => ?_
  generalize Checked.alignUp sum pageSize = aligned
  refine Run.meets_lift_bind_of_ok fun needed _ => ?_
  refine (Run.meets_returns _).bind ?_
  rintro ⟨result, pages'⟩ hreturns
  have hasks : h.Asks pages pages' := Or.inr ⟨_, result, Nat.min_le_right .., hreturns⟩
  cases result with
  | error refusal => exact Run.meets_log_bind (Run.meets_pure hasks)
  | ok =>
      refine Run.meets_lift_bind_of_ok fun _ _ => Run.meets_lift_bind_of_ok fun _ _ => ?_
      refine Run.meets_lift_bind_of_ok fun _ _ => Run.meets_lift_bind_of_ok fun _ _ => ?_
      exact Run.meets_lift_bind_of_ok fun _ _ => Run.meets_log_bind (Run.meets_pure hasks)

theorem alloc_asks (h : Heap) (pages : σ) (size : Nat) :
    (h.alloc pages size).Meets (fun _ => True) fun (_, _, pages') => h.Asks pages pages' := by
  unfold alloc
  split
  case isTrue => exact Run.meets_pure (h.asks_refl pages)
  refine Run.meets_lift_bind_of_ok fun _ _ => ?_
  split
  case isTrue => exact Run.meets_pure (h.asks_refl pages)
  refine Run.meets_lift_bind_of_ok fun size _ => Run.meets_lift_bind_of_ok fun found _ => ?_
  cases found with
  | some offset => exact Run.meets_lift_bind_of_ok fun _ _ => Run.meets_pure (h.asks_refl pages)
  | none =>
      refine (h.expand_asks pages size).bind ?_
      rintro ⟨grew, h', pages'⟩ hasks
      cases grew with
      | false => exact Run.meets_log_bind (Run.meets_pure hasks)
      | true =>
          refine Run.meets_lift_bind_of_ok fun found _ => ?_
          cases found with
          | none => exact Run.meets_pure hasks
          | some offset => exact Run.meets_lift_bind_of_ok fun _ _ => Run.meets_pure hasks

/-- **An operation defers to allocation**: either it asks for no page, or what it asks for is what one
allocation asks for.  If its answer is nothing, then the heap is what it was, or that allocation had
nothing to answer and left the heap so. -/
def Defers (h : Heap) (pages : σ) (size : Nat) (q? : Option Pointer) (h' : Heap) (pages' : σ) : Prop :=
  pages' = pages ∧ (q? = none → h' = h)
    ∨ ∃ r? h₁, (h.alloc pages size).Returns (r?, h₁, pages') ∧ (q? = none → r? = none ∧ h' = h₁)

theorem Defers.asks {h h' : Heap} {pages pages' : σ} {size : Nat} {q? : Option Pointer}
    (defers : h.Defers pages size q? h' pages') : h.Asks pages pages' := by
  obtain ⟨rfl, -⟩ | ⟨r?, h₁, hreturns, -⟩ := defers
  · exact h.asks_refl pages'
  · exact (h.alloc_asks pages size).of_returns hreturns

theorem alloc_defers (h : Heap) (pages : σ) (size : Nat) :
    (h.alloc pages size).Meets (fun _ => True) fun (q?, h', pages') =>
      h.Defers pages size q? h' pages' :=
  (Run.meets_returns _).imp fun _ hreturns => Or.inr ⟨_, _, hreturns, fun hnone => ⟨hnone, rfl⟩⟩

theorem calloc_defers (h : Heap) (pages : σ) (count size : Nat) :
    (h.calloc pages count size).Meets (fun _ => True) fun (q?, h', pages') =>
      h.Defers pages (count * size) q? h' pages' := by
  unfold calloc
  split
  case isFalse => exact Run.meets_pure (Or.inl ⟨rfl, fun _ => rfl⟩)
  refine (Run.meets_returns _).bind ?_
  rintro ⟨q?, h', pages'⟩ hreturns
  cases q? with
  | none => exact Run.meets_pure (Or.inr ⟨_, _, hreturns, fun _ => ⟨rfl, rfl⟩⟩)
  | some q => exact Run.meets_pure (Or.inr ⟨_, _, hreturns, (by rintro ⟨⟩)⟩)

theorem realloc_defers (h : Heap) (pages : σ) (p? : Option Pointer) {size : Nat} (hsize : size ≠ 0) :
    (h.realloc pages p? size).Meets (fun _ => True) fun (q?, h', pages') =>
      h.Defers pages size q? h' pages' := by
  have hsame : ∀ q?, h.Defers pages size q? h pages := fun _ => Or.inl ⟨rfl, fun _ => rfl⟩
  unfold realloc
  cases p? with
  | none => exact h.alloc_defers pages size
  | some p =>
  simp only [if_neg hsize]
  refine Run.meets_lift_bind_of_ok fun found _ => ?_
  cases found with
  | none => exact Run.meets_pure (hsame _)
  | some offset =>
  refine Run.meets_lift_bind_of_ok fun block _ => ?_
  split
  case isTrue => exact Run.meets_pure (hsame _)
  split
  case isTrue => exact Run.meets_pure (hsame _)
  refine (Run.meets_returns _).bind ?_
  rintro ⟨q?, h', pages'⟩ hreturns
  cases q? with
  | none => exact Run.meets_pure (Or.inr ⟨_, _, hreturns, fun _ => ⟨rfl, rfl⟩⟩)
  | some q =>
      refine (Run.meets_returns _).bind fun _ _ => Run.meets_pure ?_
      exact Or.inr ⟨_, _, hreturns, (by rintro ⟨⟩)⟩

theorem calloc_asks (h : Heap) (pages : σ) (count size : Nat) :
    (h.calloc pages count size).Meets (fun _ => True) fun (_, _, pages') => h.Asks pages pages' :=
  (h.calloc_defers pages count size).imp fun _ defers => defers.asks

theorem realloc_asks (h : Heap) (pages : σ) (p? : Option Pointer) (size : Nat) :
    (h.realloc pages p? size).Meets (fun _ => True) fun (_, _, pages') => h.Asks pages pages' := by
  by_cases hsize : size = 0
  case neg => exact (h.realloc_defers pages p? hsize).imp fun _ defers => defers.asks
  case pos =>
  subst hsize
  cases p? with
  | none => exact h.alloc_asks pages 0
  | some p => exact (Run.meets_returns _).bind fun _ _ => Run.meets_pure (h.asks_refl pages)

end

end Heap

namespace HeapSession

section

variable {σ : Type} [PageSource σ]

/-- **A call lets the heap grow once at most**, and so asks for one range of pages at most. -/
theorem step_asks (s : HeapSession σ) (call : HeapCall) :
    (s.step call).Meets (fun _ => True) fun s' => s.heap.Asks s.pages s'.pages := by
  cases call with
  | alloc size => exact (s.heap.alloc_asks s.pages size).bind fun _ h => Run.meets_pure h
  | calloc count size =>
      exact (s.heap.calloc_asks s.pages count size).bind fun _ h => Run.meets_pure h
  | realloc p? size =>
      cases p? with
      | none => exact (s.heap.realloc_asks s.pages none size).bind fun _ h => Run.meets_pure h
      | some p =>
          refine (s.heap.realloc_asks s.pages (some p) size).bind ?_
          rintro ⟨q?, heap, pages⟩ hasks
          cases q? with
          | none => exact Run.meets_pure hasks
          | some q =>
              dsimp only
              split <;> exact Run.meets_pure hasks
  | free p =>
      exact (Run.meets_returns _).bind fun _ _ => Run.meets_pure (s.heap.asks_refl s.pages)
  | store p v n =>
      refine Run.meets_lift_bind_of_ok fun stored _ => ?_
      cases stored <;> exact Run.meets_pure (s.heap.asks_refl s.pages)

/-- **Whatever is called, the heap grows**, on pages that are backed.  A call that is refused lets it
grow by nothing. -/
theorem step_grows {admits : Fault → Prop} {I : Finset VirtAddr → σ → Prop} {s : HeapSession σ}
    {l : List Block} (sound : s.heap.Sound l)
    (keeps : PageSource.Keeps σ s.heap.window admits I) (hI : I s.heap.backed s.pages)
    (call : HeapCall) :
    (s.step call).Meets admits fun s' => I s'.heap.backed s'.pages ∧ s.heap.Grows s'.heap := by
  cases call with
  | alloc size =>
      refine (sound.alloc_meets keeps hI size).bind ?_
      rintro ⟨p?, heap, pages⟩ ⟨hI', l', e, -⟩
      exact Run.meets_pure ⟨hI', e.grows⟩
  | calloc count size =>
      refine (sound.calloc_meets keeps hI count size).bind ?_
      rintro ⟨p?, heap, pages⟩ ⟨hI', l', e, -⟩
      exact Run.meets_pure ⟨hI', e.grows⟩
  | realloc p? size =>
      cases p? with
      | none =>
          refine (sound.realloc_evolves keeps hI none size).bind ?_
          rintro ⟨q?, heap, pages⟩ ⟨hI', l', e⟩
          exact Run.meets_pure ⟨hI', e.grows⟩
      | some p =>
          refine (sound.realloc_evolves keeps hI (some p) size).bind ?_
          rintro ⟨q?, heap, pages⟩ ⟨hI', l', e⟩
          cases q? with
          | none => exact Run.meets_pure ⟨hI', e.grows⟩
          | some q =>
              dsimp only
              split <;> exact Run.meets_pure ⟨hI', e.grows⟩
  | free p =>
      refine (sound.free_evolves p).bind ?_
      rintro ⟨freed, heap⟩ ⟨hbacked, l', e⟩
      exact Run.meets_pure ⟨hbacked ▸ hI, e.grows⟩
  | store p v n =>
      rcases sound.store_ok p v n with ⟨hstore, -⟩ | ⟨b, hb, hfirst, -, hstore, sound'⟩
      · exact Run.meets_lift_bind hstore (Run.meets_pure ⟨hI, sound.evolves_refl.grows⟩)
      · have hbacked : Heap.backed { s.heap with arena := s.heap.arena.fill p.offset.toNat v n }
            = s.heap.backed := Heap.Sound.backed_eq rfl (Arena.size_fill ..)
        refine Run.meets_lift_bind hstore (Run.meets_pure
          ⟨?_, ⟨⟨l, sound'⟩, rfl, rfl, Nat.le_of_eq (Arena.size_fill ..).symm⟩⟩)
        rwa [hbacked]

end

end HeapSession

/-! ## The books of a session -/

/-- A page lies in the `size` bytes from an address on, and begins at a multiple of the page size. -/
def VirtAddr.Covers (start : VirtAddr) (size : Nat) (page : VirtAddr) : Prop :=
  page.pageOffset = 0 ∧ start.val.toNat ≤ page.val.toNat
    ∧ page.val.toNat < start.val.toNat + size

instance (start : VirtAddr) (size : Nat) (page : VirtAddr) :
    Decidable (start.Covers size page) := by
  unfold VirtAddr.Covers
  infer_instance

/-- The pages of a sound heap are those of its bytes, as they are counted in the books. -/
theorem Heap.Sound.mem_backed {h : Heap} {l : List Block} (s : h.Sound l) (page : VirtAddr) :
    page ∈ h.backed ↔ h.start.Covers h.size page := by
  obtain ⟨aligned, ⟨n, hn⟩, -, -, hle, -, hfits⟩ := s.range
  have hdiv : h.size / pageSize * pageSize = h.size := by
    rw [hn, Nat.mul_div_cancel_left n (by decide), Nat.mul_comm]
  rw [Heap.backed, mem_pageSpan_iff aligned (by omega), hdiv, Nat.zero_mul, Nat.add_zero]
  rfl

/-- What is asked in one call is a step of growth of the heap. -/
theorem Heap.Sound.growthStep_of_asks {σ : Type} [PageSource σ] {h h' : Heap} {l : List Block}
    {p p' : Journaled σ} (s : h.Sound l) (asks : h.Asks p p') (grows : h.Grows h')
    (a : Accounts p.journal h.backed) (a' : Accounts p'.journal h'.backed) :
    ∃ recent, p'.journal = p.journal ++ recent
      ∧ GrowthStep h.start (h.maxSize / pageSize) (h.size / pageSize) (h'.size / pageSize) recent := by
  obtain ⟨l', sound'⟩ := grows.sound
  have hfits := s.range.fits
  have hmax := Nat.div_mul_cancel s.range.maxPages
  have hsize := Nat.div_mul_cancel s.range.pages
  have hlimit : h.size / pageSize ≤ h.maxSize / pageSize := Nat.div_le_div_right s.range.size_le
  have hlimit' : h'.size / pageSize ≤ h.maxSize / pageSize :=
    Nat.div_le_div_right (grows.maxSize_eq ▸ sound'.range.size_le)
  obtain ⟨n', recent, hjournal, g⟩ : ∃ n' recent, p'.journal = p.journal ++ recent
      ∧ GrowthStep h.start (h.maxSize / pageSize) (h.size / pageSize) n' recent := by
    rcases asks with rfl | ⟨step, result, hstep, hreturns⟩
    · exact ⟨_, [], (List.append_nil _).symm, .idle⟩
    · rw [← hsize] at hreturns
      exact (backRange_journal p hlimit (by omega) (by omega)).of_returns hreturns
  rw [hjournal, Heap.backed, grows.start_eq] at a'
  obtain rfl := g.eq_of_accounts s.range.aligned (by omega) hlimit hlimit' a a'
  exact ⟨recent, hjournal, g⟩

namespace HeapSession

variable {σ : Type}

/-- **The books of a session balance**: the pages that are backed are those of the heap.  For each page
the journal has one more backing than releases if the heap covers it, and as many of the one as of the
other if it does not; so nothing leaks, and nothing is released twice. -/
structure Accounted (start : VirtAddr) (initialSize maxSize : Nat)
    (s : HeapSession (Journaled σ)) : Prop where
  net : ∀ page, s.pages.journal.count (.backed page)
    = s.pages.journal.count (.released page) + if start.Covers s.heap.size page then 1 else 0
  pages : pageSize ∣ s.heap.size
  initial_le : initialSize ≤ s.heap.size
  size_le : s.heap.size ≤ maxSize

/-- **What one call adds to the books**: a step of growth.  If a page is refused in it, the heap has
the size that it had, and the pages that were backed in this call are released, each of them once. -/
structure GrowsTo (start : VirtAddr) (maxSize : Nat) (s s' : HeapSession (Journaled σ)) : Prop where
  size_le : s.heap.size ≤ s'.heap.size
  step : ∃ recent, s'.pages.journal = s.pages.journal ++ recent
    ∧ GrowthStep start (maxSize / pageSize) (s.heap.size / pageSize) (s'.heap.size / pageSize) recent
    ∧ ∀ page, .refused page ∈ recent → s'.heap.size = s.heap.size ∧ ∀ other,
      recent.count (.released other) = recent.count (.backed other)
        ∧ recent.count (.backed other) ≤ 1

/-- **What the books rest on**: a sound heap that lies where it was set up, and a journal that accounts
for its pages.  This is the invariant of the calls; what clients are told is `Accounted`. -/
structure Balanced (start : VirtAddr) (initialSize maxSize : Nat)
    (s : HeapSession (Journaled σ)) : Prop where
  sound : ∃ l, s.heap.Sound l
  start_eq : s.heap.start = start
  maxSize_eq : s.heap.maxSize = maxSize
  initial_le : initialSize ≤ s.heap.size
  accounts : Accounts s.pages.journal s.heap.backed

variable {start : VirtAddr} {initialSize maxSize : Nat} {s : HeapSession (Journaled σ)}

theorem Balanced.accounted (b : s.Balanced start initialSize maxSize) :
    s.Accounted start initialSize maxSize := by
  obtain ⟨l, sound⟩ := b.sound
  refine ⟨fun page => ?_, sound.range.pages, b.initial_le, b.maxSize_eq ▸ sound.range.size_le⟩
  rw [b.accounts page, ← b.start_eq]
  congr 1
  exact if_congr (sound.mem_backed page) rfl rfl

variable [PageSource σ]

theorem Balanced.step_meets (b : s.Balanced start initialSize maxSize) (call : HeapCall) :
    (s.step call).Meets (PageSource.Raises σ) fun s' =>
      s'.Balanced start initialSize maxSize ∧ s.GrowsTo start maxSize s' := by
  obtain ⟨l, sound⟩ := b.sound
  obtain rfl := b.start_eq
  obtain rfl := b.maxSize_eq
  refine ((step_grows sound (Journaled.keeps_accounts σ _) b.accounts call).and
    (s.step_asks call)).imp fun s' ⟨⟨a', grows⟩, asks⟩ => ?_
  obtain ⟨recent, hjournal, g⟩ := sound.growthStep_of_asks asks grows b.accounts a'
  refine ⟨⟨grows.sound, grows.start_eq, grows.maxSize_eq, ?_, a'⟩, grows.size_le, recent, hjournal,
    g, fun page hrefused => ?_⟩
  · exact Nat.le_trans b.initial_le grows.size_le
  · have hfits := sound.range.fits
    have hmax := Nat.div_mul_cancel sound.range.maxPages
    obtain ⟨l', sound'⟩ := grows.sound
    obtain ⟨hpages, hcounts⟩ := g.rolledBack (by omega) hrefused
    refine ⟨?_, hcounts⟩
    rw [← Nat.div_mul_cancel sound'.range.pages, hpages, Nat.div_mul_cancel sound.range.pages]

theorem Balanced.run_meets (b : s.Balanced start initialSize maxSize) (calls : List HeapCall) :
    (s.run calls).Meets (PageSource.Raises σ) (Balanced start initialSize maxSize) := by
  induction calls generalizing s with
  | nil => exact Run.meets_pure b
  | cons call calls ih => exact (b.step_meets call).bind fun s' ⟨b', _⟩ => ih b'

end HeapSession

/-! ## Setting up -/

namespace Heap

variable {σ : Type} [PageSource σ]

/-- **Setting up is a step of growth** from no pages on.  If it fails, the books are empty again. -/
theorem init_balanced (start : VirtAddr) (initialSize maxSize : Nat) (pages : σ) :
    (init start initialSize maxSize (Journaled.opened pages)).Meets (PageSource.Raises σ)
      fun (made, p) => match made with
        | .error e => Accounts p.journal ∅ ∧ (e = .invalidRange → p.journal = [])
            ∧ GrowthStep start (maxSize / pageSize) 0 0 p.journal
        | .ok heap => HeapSession.Balanced start initialSize maxSize { heap, pages := p, ledger := [] }
            ∧ GrowthStep start (maxSize / pageSize) 0 (initialSize / pageSize) p.journal := by
  have keeps := Journaled.keeps_accounts σ (pageSpan start 0 (maxSize / pageSize))
  have hinit : (init start initialSize maxSize (Journaled.opened pages)).Meets
      (PageSource.Raises σ) _ := init_cases keeps accounts_nil
  refine hinit.imp ?_
  rintro ⟨made, p⟩ ⟨setsUp, a'⟩
  -- a range that is valid is asked for, in one step of growth from no pages on
  have hstep : ∀ {result : Except (VirtAddr × MapError) Unit},
      validRange start initialSize maxSize = true →
      (backRange start 0 initialSize (Journaled.opened pages)).Returns (result, p) →
      ∃ n', GrowthStep start (maxSize / pageSize) 0 n' p.journal ∧ ∀ m ≤ maxSize / pageSize,
        Accounts p.journal (pageSpan start 0 m) → n' = m := by
    intro result hvalid hreturns
    obtain ⟨aligned, -, hmaximum, -, hle, -, hfits⟩ := validRange_iff.mp hvalid
    have hmax := Nat.div_mul_cancel (Nat.dvd_of_mod_eq_zero hmaximum)
    rw [← Nat.zero_mul pageSize] at hreturns
    obtain ⟨n', recent, hjournal, g⟩ := (backRange_journal (Journaled.opened pages)
      (Nat.zero_le (maxSize / pageSize)) (by omega) (by omega)).of_returns hreturns
    have hnone : Accounts (Journaled.opened pages).journal (pageSpan start 0 0) := by
      rw [pageSpan_self]
      exact accounts_nil
    obtain rfl : p.journal = recent := hjournal
    exact ⟨n', g, fun m hm a => g.eq_of_accounts aligned (by omega) (Nat.zero_le _) hm hnone a⟩
  cases setsUp with
  | invalid => exact ⟨a', fun _ => rfl, .idle⟩
  | refused hvalid hreturns =>
      obtain ⟨n', g, huniq⟩ := hstep hvalid hreturns
      obtain rfl := huniq 0 (Nat.zero_le _) (by rwa [pageSpan_self])
      exact ⟨a', (by rintro ⟨⟩), g⟩
  | ready hvalid hreturns start_eq maxSize_eq size_eq sound =>
      obtain ⟨n', g, huniq⟩ := hstep hvalid hreturns
      subst start_eq maxSize_eq size_eq
      obtain rfl := huniq _ (Nat.div_le_div_right sound.range.size_le) a'
      exact ⟨⟨⟨_, sound⟩, rfl, rfl, Nat.le_refl _, a'⟩, g⟩

end Heap

/-- **The pages of a heap are accounted for**, whatever the page source refuses and whenever.  If a
heap cannot be set up, then no page stays backed, and a range that is not valid asks for none.
Otherwise, after all calls, the pages that are backed are those of the heap, each of them once; the
heap has a whole number of pages between its initial and its maximum size, and no further call makes
it smaller.  A call in which a page is refused releases the pages that were backed in this call, each
of them once, and no other page. -/
theorem HeapSession.init_run_accounted {σ : Type} [PageSource σ] (start : VirtAddr)
    (initialSize maxSize : Nat) (pages : σ) :
    (Heap.init start initialSize maxSize (Journaled.opened pages)).Meets (PageSource.Raises σ)
      fun (made, p) => match made with
        | .error e => (∀ page, p.journal.count (.backed page) = p.journal.count (.released page))
            ∧ (e = .invalidRange → p.journal = [])
            ∧ GrowthStep start (maxSize / pageSize) 0 0 p.journal
        | .ok heap => GrowthStep start (maxSize / pageSize) 0 (initialSize / pageSize) p.journal
            ∧ ∀ calls, (HeapSession.run { heap, pages := p, ledger := [] } calls).Meets
              (PageSource.Raises σ) fun s => s.Accounted start initialSize maxSize
                ∧ ∀ call, (s.step call).Meets (PageSource.Raises σ) (s.GrowsTo start maxSize) := by
  refine (Heap.init_balanced start initialSize maxSize pages).imp ?_
  rintro ⟨made, p⟩ hmade
  cases made with
  | error e => exact ⟨fun page => hmade.1 page, hmade.2⟩
  | ok heap =>
      obtain ⟨b, g⟩ := hmade
      refine ⟨g, fun calls => (b.run_meets calls).imp fun s b' => ⟨b'.accounted, fun call => ?_⟩⟩
      exact (b'.step_meets call).imp fun s' ⟨_, grows⟩ => grows

end TinyKernel
