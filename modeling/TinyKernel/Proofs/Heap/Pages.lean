import Mathlib.Data.Finset.Image
import Mathlib.Order.Interval.Finset.Nat
import TinyKernel.Heap.PageSource
import TinyKernel.Proofs.Outcome

/-!
# The pages behind a heap

What a page source keeps track of is its own business.  A heap relies on one thing only: that a page
which was backed is there until it is released, and that a refusal changes nothing.  This is said
about an invariant `I` of the source, which speaks about the set of pages that are backed.

## What is load-bearing

A range is backed page by page, and when a page is refused the pages before it are released in the
order in which they were backed.  So there are two phases, each with an invariant of its own
(`backRange_cases`).

* `PageSource.Keeps` — the contract of a page source
* `pageSpan` — the pages of a range
* `backRange_cases` — how a range is backed, and how it is given up
* `backRange_meets` — a range is backed, or nothing of it
-/

namespace TinyKernel

/-- A fault that a page source can raise of its own.  Contracts over any page source admit these faults
and no others. -/
def PageSource.Raises (σ : Type) [PageSource σ] (e : Fault) : Prop :=
  ∃ page pages c c', (PageSource.back (σ := σ) page pages).run c = .error e c'
    ∨ (PageSource.release (σ := σ) page pages).run c = .error e c'

/-- **The contract of a page source.**  On the pages of a window, `I` goes along with what is backed
and released, and with refusals.  A heap keeps its side: it asks for pages that are not backed, and
releases pages that are. -/
structure PageSource.Keeps (σ : Type) [PageSource σ] (window : Finset VirtAddr)
    (admits : Fault → Prop) (I : Finset VirtAddr → σ → Prop) : Prop where
  back : ∀ {backed : Finset VirtAddr} {pages : σ} {page : VirtAddr}, I backed pages →
    page ∈ window → page ∉ backed →
      (PageSource.back page pages).Meets admits fun (result, pages') =>
        match result with
        | .ok () => I (insert page backed) pages'
        | .error _ => I backed pages'
  release : ∀ {backed : Finset VirtAddr} {pages : σ} {page : VirtAddr}, I backed pages →
    page ∈ window → page ∈ backed →
      (PageSource.release page pages).Meets admits fun pages' => I (backed.erase page) pages'

/-- Every page source keeps to nothing in particular, and raises what it raises.  So what is proved
from a contract holds over any source. -/
theorem PageSource.keeps_true (σ : Type) [PageSource σ] (window : Finset VirtAddr) :
    PageSource.Keeps σ window (PageSource.Raises σ) fun _ _ => True where
  back {_ pages page} _ _ _ c := by
    cases hrun : (PageSource.back page pages).run c with
    | ok a c' =>
        obtain ⟨result, pages'⟩ := a
        cases result <;> trivial
    | error e c' => exact ⟨page, pages, c, c', Or.inl hrun⟩
  release {_ pages page} _ _ _ c := by
    cases hrun : (PageSource.release page pages).run c with
    | ok a c' => trivial
    | error e c' => exact ⟨page, pages, c, c', Or.inr hrun⟩

/-! ## Ranges of pages -/

/-- Page number `k` from an address on.  If the range ends below the top of the address space, nothing
wraps round. -/
def pageAt (start : VirtAddr) (k : Nat) : VirtAddr := ⟨UInt32.ofNat (start.val.toNat + k * pageSize)⟩

/-- **The pages from number `i` up to number `j`**, counted from an address on.  The set does not care
about order; the order in which pages are backed is kept in journals. -/
def pageSpan (start : VirtAddr) (i j : Nat) : Finset VirtAddr := (Finset.Ico i j).image (pageAt start)

variable {start : VirtAddr} {i j k m n : Nat}

/-- Where many pages fit, so do fewer.  The end of the address space is checked once for the largest
size of a heap. -/
theorem pages_fit_of_le (hle : m ≤ n) (fits : start.val.toNat + n * pageSize ≤ 2 ^ 32) :
    start.val.toNat + m * pageSize ≤ 2 ^ 32 :=
  Nat.le_trans (Nat.add_le_add_left (Nat.mul_le_mul_right _ hle) _) fits

theorem pageAt_toNat (fits : start.val.toNat + k * pageSize < 2 ^ 32) :
    (pageAt start k).val.toNat = start.val.toNat + k * pageSize := by
  rw [pageAt, UInt32.toNat_ofNat', Nat.mod_eq_of_lt fits]

/-- Different pages of a range have different addresses, as long as the range does not wrap round. -/
theorem pageAt_inj (fits : start.val.toNat + n * pageSize ≤ 2 ^ 32) (hi : i < n) (hj : j < n) :
    pageAt start i = pageAt start j ↔ i = j := by
  refine ⟨fun h => ?_, fun h => h ▸ rfl⟩
  simp only [pageSize] at fits
  have hval := congrArg (fun a : VirtAddr => a.val.toNat) h
  have hstarti : start.val.toNat + i * pageSize < 2 ^ 32 := by simp only [pageSize]; omega
  have hstartj : start.val.toNat + j * pageSize < 2 ^ 32 := by simp only [pageSize]; omega
  simp only [pageAt_toNat hstarti, pageAt_toNat hstartj, pageSize] at hval
  omega

theorem mem_pageSpan (fits : start.val.toNat + n * pageSize ≤ 2 ^ 32) (hj : j ≤ n) (hk : k < n) :
    pageAt start k ∈ pageSpan start i j ↔ i ≤ k ∧ k < j := by
  simp only [pageSpan, Finset.mem_image, Finset.mem_Ico]
  constructor
  · rintro ⟨x, ⟨hix, hxj⟩, heq⟩
    obtain rfl := (pageAt_inj fits (by omega) hk).mp heq
    exact ⟨hix, hxj⟩
  · exact fun h => ⟨k, h, rfl⟩

@[simp]
theorem pageSpan_self (start : VirtAddr) (i : Nat) : pageSpan start i i = ∅ := by
  simp [pageSpan]

/-- One more page at the end of a range.  Backing a range adds pages there. -/
theorem insert_pageSpan (start : VirtAddr) (h : i ≤ j) :
    insert (pageAt start j) (pageSpan start i j) = pageSpan start i (j + 1) := by
  rw [pageSpan, pageSpan, ← Finset.image_insert, ← Nat.Ico_succ_right_eq_insert_Ico h]

theorem insert_pageSpan_left (start : VirtAddr) (h : i < j) :
    insert (pageAt start i) (pageSpan start (i + 1) j) = pageSpan start i j := by
  rw [pageSpan, pageSpan, ← Finset.image_insert]
  congr 1
  ext x
  simp only [Finset.mem_insert, Finset.mem_Ico]
  omega

/-- One page less at the front of a range.  Rollback takes pages from there. -/
theorem erase_pageSpan_left (fits : start.val.toNat + n * pageSize ≤ 2 ^ 32) (h : i < j) (hj : j ≤ n) :
    (pageSpan start i j).erase (pageAt start i) = pageSpan start (i + 1) j := by
  rw [← insert_pageSpan_left start h, Finset.erase_insert]
  rw [mem_pageSpan fits hj (by omega)]
  omega

theorem pageSpan_subset (start : VirtAddr) (hi : m ≤ i) (hj : j ≤ n) :
    pageSpan start i j ⊆ pageSpan start m n :=
  Finset.image_subset_image (Finset.Ico_subset_Ico hi hj)

/-- The pages of a range are those that begin in it.  With this, pages can be compared with the bytes
of a heap. -/
theorem mem_pageSpan_iff (aligned : start.pageOffset = 0)
    (fits : start.val.toNat + j * pageSize ≤ 2 ^ 32) {page : VirtAddr} :
    page ∈ pageSpan start i j ↔ page.pageOffset = 0
      ∧ start.val.toNat + i * pageSize ≤ page.val.toNat
      ∧ page.val.toNat < start.val.toNat + j * pageSize := by
  have hmod : ∀ a : VirtAddr, a.pageOffset = 0 ↔ a.val.toNat % pageSize = 0 := by
    intro a
    rw [VirtAddr.pageOffset, ← UInt32.toNat_inj, UInt32.toNat_mod]
    rfl
  rw [hmod] at aligned ⊢
  simp only [pageSpan, Finset.mem_image, Finset.mem_Ico, pageSize] at *
  constructor
  · rintro ⟨k, hk, rfl⟩
    rw [pageAt_toNat (by simp only [pageSize]; omega)]
    simp only [pageSize]
    omega
  · rintro ⟨hpage, hle, hlt⟩
    refine ⟨(page.val.toNat - start.val.toNat) / 4096, by omega, ?_⟩
    obtain ⟨w⟩ := page
    rw [pageAt, VirtAddr.mk.injEq]
    apply UInt32.toNat_inj.mp
    rw [UInt32.toNat_ofNat']
    simp only [pageSize] at *
    omega

theorem card_pageSpan (fits : start.val.toNat + j * pageSize ≤ 2 ^ 32) :
    (pageSpan start i j).card = j - i := by
  rw [pageSpan, Finset.card_image_of_injOn, Nat.card_Ico]
  intro x hx y hy heq
  exact (pageAt_inj fits (Finset.mem_Ico.mp hx).2 (Finset.mem_Ico.mp hy).2).mp heq

theorem pageOffsets_mul (n : Nat) :
    pageOffsets (n * pageSize) = (List.range' 0 n).map (· * pageSize) := by
  rw [pageOffsets, List.range_eq_range']
  congr 2
  simp only [pageSize]
  omega

theorem pageAddress_ok (fits : start.val.toNat + (n + k) * pageSize < 2 ^ 32) :
    pageAddress start (n * pageSize) (k * pageSize) = .ok (pageAt start (n + k)) := by
  have hoffset : (UInt32.ofNat ((n + k) * pageSize)).toNat = (n + k) * pageSize := by
    rw [UInt32.toNat_ofNat', Nat.mod_eq_of_lt (by omega)]
  have hdistance : Checked.add64 (n * pageSize) (k * pageSize) = .ok ((n + k) * pageSize) := by
    rw [Checked.add64_of_lt (by rw [← Nat.add_mul]; omega), Nat.add_mul]
  have hsum : Checked.add32 start.val (UInt32.ofNat ((n + k) * pageSize))
      = .ok (start.val + UInt32.ofNat ((n + k) * pageSize)) := by
    apply Checked.add32_of_lt
    rw [hoffset]
    exact fits
  have hval : start.val + UInt32.ofNat ((n + k) * pageSize) = (pageAt start (n + k)).val := by
    apply UInt32.toNat_inj.mp
    rw [UInt32.toNat_add, hoffset, pageAt_toNat fits, Nat.mod_eq_of_lt fits]
  rw [pageAddress, Checked.bind_of_ok hdistance, hsum, hval]
  rfl

/-! ## Backing a range -/

/-- What is asked for is rounded up to whole pages. -/
theorem backRange_whole {σ : Type} [PageSource σ] (start : VirtAddr) (origin bytes : Nat)
    (pages : σ) : backRange start origin bytes pages
      = backRange start origin ((bytes + (pageSize - 1)) / pageSize * pageSize) pages := by
  rw [backRange, backRange, pageOffsets, pageOffsets]
  congr 3
  simp only [pageSize]
  omega

section

variable {σ : Type} [PageSource σ] {admits : Fault → Prop} {J : Nat → σ → Prop}
  {K : Nat → Nat → σ → Prop} {I : Finset VirtAddr → σ → Prop} {window : Finset VirtAddr}

/-- **Rollback** releases the pages of a range from the front.  `R k` is what holds once `k` of them
are released.  The induction is on the number of pages that are left. -/
theorem releasePages_meets {R : Nat → σ → Prop} (fits : start.val.toNat + (n + m) * pageSize ≤ 2 ^ 32)
    (release : ∀ {k pages}, k < m → R k pages →
      (PageSource.release (pageAt start (n + k)) pages).Meets admits (R (k + 1)))
    {count : Nat} {pages : σ} (hle : k + count ≤ m) (hR : R k pages) :
    (releasePages start (n * pageSize) pages ((List.range' k count).map (· * pageSize))).Meets admits
      (R (k + count)) := by
  induction count generalizing k pages with
  | zero => exact Run.meets_pure hR
  | succ count ih =>
      have haddr : pageAddress start (n * pageSize) (k * pageSize) = .ok (pageAt start (n + k)) :=
        pageAddress_ok (by simp only [pageSize] at *; omega)
      rw [List.range'_succ, List.map_cons, releasePages]
      refine Run.meets_lift_bind haddr ((release (by omega) hR).bind fun pages' hR' => ?_)
      rw [show k + (count + 1) = k + 1 + count by omega]
      exact ih (by omega) hR'

section

variable (fits : start.val.toNat + (n + m) * pageSize ≤ 2 ^ 32)
  (back : ∀ {i pages}, i < m → J i pages →
    (PageSource.back (pageAt start (n + i)) pages).Meets admits fun (result, pages') =>
      match result with
      | .ok () => J (i + 1) pages'
      | .error _ => K i 0 pages')
  (release : ∀ {i k pages}, i < m → k < i → K i k pages →
    (PageSource.release (pageAt start (n + k)) pages).Meets admits (K i (k + 1)))
include fits back release

theorem backPages_meets {count : Nat} {pages : σ} (hle : k + count ≤ m) (hJ : J k pages) :
    (backPages start (n * pageSize) pages ((List.range' k count).map (· * pageSize))).Meets admits
      fun (result, pages') =>
        match result with
        | .ok () => J (k + count) pages'
        | .error _ => ∃ i < m, K i i pages' := by
  induction count generalizing k pages with
  | zero => exact Run.meets_pure hJ
  | succ count ih =>
      have haddr : pageAddress start (n * pageSize) (k * pageSize) = .ok (pageAt start (n + k)) :=
        pageAddress_ok (by simp only [pageSize] at *; omega)
      have hk : k < m := by omega
      rw [List.range'_succ, List.map_cons, backPages]
      refine Run.meets_lift_bind haddr ((back hk hJ).bind fun (result, pages') hresult => ?_)
      cases result with
      | ok =>
          have hrest := ih (k := k + 1) (by omega) hresult
          rwa [show k + 1 + count = k + (count + 1) by omega] at hrest
      | error e =>
          rw [pageOffsets_mul]
          have hfits := pages_fit_of_le (Nat.add_le_add_left (Nat.le_of_lt hk) n) fits
          refine (releasePages_meets hfits (fun hlt => release hk hlt)
            (Nat.le_of_eq (Nat.zero_add k)) hresult).bind fun pages'' hK => Run.meets_pure ?_
          rw [Nat.zero_add] at hK
          exact ⟨k, hk, hK⟩

/-- **How a range is backed.**  `J i` is what holds once its first `i` pages are backed, and `K i k` is
what holds once the page after these was refused, and the first `k` of them were released.  Both
invariants are the caller's to choose; the code is looked into here only. -/
theorem backRange_cases {pages : σ} (hJ : J 0 pages) :
    (backRange start (n * pageSize) (m * pageSize) pages).Meets admits fun (result, pages') =>
      match result with
      | .ok () => J m pages'
      | .error _ => ∃ i < m, K i i pages' := by
  rw [backRange, pageOffsets_mul]
  have hback := backPages_meets fits back release (Nat.le_of_eq (Nat.zero_add m)) hJ
  rwa [Nat.zero_add] at hback

end

section

variable (back : ∀ page (pages : σ), (PageSource.back page pages).Determined)
  (release : ∀ page (pages : σ), (PageSource.release page pages).Determined)
include release

theorem releasePages_determined (start : VirtAddr) (origin : Nat) (pages : σ) (offsets : List Nat) :
    (releasePages start origin pages offsets).Determined := by
  induction offsets generalizing pages with
  | nil => exact Run.determined_pure pages
  | cons offset rest ih =>
      exact (Run.determined_lift _).bind fun page => (release page pages).bind fun pages' => ih pages'

include back

/-- **A source whose pages have one outcome** each has one outcome for a range. -/
theorem backRange_determined (start : VirtAddr) (origin bytes : Nat) (pages : σ) :
    (backRange start origin bytes pages).Determined := by
  unfold backRange
  induction pageOffsets bytes generalizing pages with
  | nil => exact Run.determined_pure _
  | cons offset rest ih =>
      refine (Run.determined_lift _).bind fun page => (back page pages).bind ?_
      rintro ⟨result, pages'⟩
      cases result with
      | ok => exact ih pages'
      | error cause =>
          exact (releasePages_determined release start origin pages' _).bind fun _ =>
            Run.determined_pure _

end

/-- **A range of pages is backed, or nothing of it.**  Only the pages of the range are looked at, which
must not be backed yet. -/
theorem backRange_keeps (keeps : PageSource.Keeps σ window admits I)
    (fits : start.val.toNat + (n + m) * pageSize ≤ 2 ^ 32)
    (inside : pageSpan start n (n + m) ⊆ window) {pages : σ} (hI : I ∅ pages) :
    (backRange start (n * pageSize) (m * pageSize) pages).Meets admits fun (result, pages') =>
      match result with
      | .ok () => I (pageSpan start n (n + m)) pages'
      | .error _ => I ∅ pages' := by
  have hwindow : ∀ {i}, i < m → pageAt start (n + i) ∈ window := fun hi =>
    inside ((mem_pageSpan fits (Nat.le_refl _) (by omega)).mpr ⟨by omega, by omega⟩)
  refine (backRange_cases (J := fun i => I (pageSpan start n (n + i)))
    (K := fun i k => I (pageSpan start (n + k) (n + i))) fits ?_ ?_ ?_).imp ?_
  · intro i pages hi hI
    have hfresh : pageAt start (n + i) ∉ pageSpan start n (n + i) := by
      rw [mem_pageSpan fits (by omega) (by omega)]
      omega
    refine (keeps.back hI (hwindow hi) hfresh).imp fun (result, pages') hI' => ?_
    cases result with
    | ok => rwa [insert_pageSpan start (Nat.le_add_right n i)] at hI'
    | error e => exact hI'
  · intro i k pages hi hk hI
    have hmem : pageAt start (n + k) ∈ pageSpan start (n + k) (n + i) := by
      rw [mem_pageSpan fits (by omega) (by omega)]
      omega
    have herase := erase_pageSpan_left fits (show n + k < n + i by omega) (by omega)
    rw [← Nat.add_assoc, ← herase]
    exact keeps.release hI (hwindow (hk.trans hi)) hmem
  · rwa [Nat.add_zero, pageSpan_self]
  · rintro ⟨result, pages'⟩ hresult
    cases result with
    | ok => exact hresult
    | error e =>
        obtain ⟨i, -, hI'⟩ := hresult
        rwa [pageSpan_self] at hI'

/-- The pages of a range that begins at `start` are backed, and more of them.  This is the form in
which a heap grows: it has the first `n` pages already. -/
theorem backRange_meets (keeps : PageSource.Keeps σ window admits I) {origin bytes : Nat}
    (horigin : origin = n * pageSize) (hbytes : bytes = k * pageSize)
    (fits : start.val.toNat + (n + k) * pageSize ≤ 2 ^ 32)
    (inside : pageSpan start 0 (n + k) ⊆ window) {pages : σ} (hI : I (pageSpan start 0 n) pages) :
    (backRange start origin bytes pages).Meets admits fun (result, pages') =>
      match result with
      | .ok () => I (pageSpan start 0 (n + k)) pages'
      | .error _ => I (pageSpan start 0 n) pages' := by
  subst horigin hbytes
  have hnew : ∀ {page}, page ∈ pageSpan start n (n + k) → page ∉ pageSpan start 0 n := by
    intro page hpage
    obtain ⟨i, hi, rfl⟩ := Finset.mem_image.mp hpage
    rw [Finset.mem_Ico] at hi
    rw [mem_pageSpan fits (Nat.le_add_right n k) hi.2]
    omega
  -- the pages that are there already are left out of account
  have keeps' : PageSource.Keeps σ (pageSpan start n (n + k)) admits
      fun backed => I (pageSpan start 0 n ∪ backed) := by
    have hinside := (pageSpan_subset start (Nat.zero_le n) (Nat.le_refl (n + k))).trans inside
    constructor
    · intro backed pages page hI hpage hfresh
      have hnot : page ∉ pageSpan start 0 n ∪ backed := by
        rw [Finset.mem_union, not_or]
        exact ⟨hnew hpage, hfresh⟩
      rw [Finset.union_insert]
      exact keeps.back hI (hinside hpage) hnot
    · intro backed pages page hI hpage hmem
      have herase := Finset.erase_union_distrib (pageSpan start 0 n) backed page
      rw [Finset.erase_eq_of_notMem (hnew hpage)] at herase
      rw [← herase]
      exact keeps.release hI (hinside hpage) (Finset.mem_union_right _ hmem)
  refine (backRange_keeps keeps' fits subset_rfl ?_).imp ?_
  · rwa [Finset.union_empty]
  · rintro ⟨result, pages'⟩ hresult
    cases result with
    | ok =>
        dsimp only at hresult
        rwa [pageSpan, pageSpan, ← Finset.image_union, Finset.Ico_union_Ico_eq_Ico (Nat.zero_le n)
          (Nat.le_add_right n k)] at hresult
    | error e =>
        dsimp only at hresult
        rwa [Finset.union_empty] at hresult

end

end TinyKernel
