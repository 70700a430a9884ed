import TinyKernel.Proofs.Paging.Readiness

/-!
# Memory in which some pages are mapped over

While the heap grows, memory is what it was before, except for the entries of the pages that are backed
by now.  Once these are empty again, memory is exactly what it was, to the last entry of the last
frame.

## What is load-bearing

Memory may have more frames than there are frame numbers, so it is compared by place in the array
(`Ram.cell?`) and not by frame.

* `Ram.cell?`, `Ram.ext_cell?` — memory, entry by entry
* `Paging.Blank`, `Paging.Vacant` — the entry of a page is there, and empty; a table has no entry in
  use
* `Paging.Overlays` — memory with the entries of some pages replaced
-/

namespace TinyKernel

/-! ## Memory, entry by entry -/

namespace Ram

/-- An entry of the table at a place in memory, if memory extends so far.  Places that have no frame
number are entries as well. -/
def cell? (r : Ram) (n : Nat) (i : Fin entriesPerTable) : Option PageTableEntry :=
  r.tables[n]?.map fun table => table.entries.get i

theorem read?_eq_cell? (r : Ram) (frame : Frame) (i : Fin entriesPerTable) :
    r.read? frame i = r.cell? frame.index.toNat i := rfl

/-- **Memory is its entries.**  Two memories that agree on all of them are equal, also in how far they
extend. -/
theorem ext_cell? {r r' : Ram} (h : ∀ n i, r.cell? n i = r'.cell? n i) : r = r' := by
  obtain ⟨tables⟩ := r
  obtain ⟨tables'⟩ := r'
  refine congrArg Ram.mk (Array.ext_getElem? fun n => ?_)
  have hn := h n
  simp only [cell?] at hn
  cases htable : tables[n]? with
  | none =>
      cases htable' : tables'[n]? with
      | none => rfl
      | some table' => simpa [htable, htable'] using hn ⟨0, by decide⟩
  | some table =>
      cases htable' : tables'[n]? with
      | none => simpa [htable, htable'] using hn ⟨0, by decide⟩
      | some table' =>
          obtain ⟨entries⟩ := table
          obtain ⟨entries'⟩ := table'
          refine congrArg (fun v => some (PageTable.mk v)) (Vector.ext fun i hi => ?_)
          have hi' := hn ⟨i, hi⟩
          rw [htable, htable'] at hi'
          exact Option.some.inj hi'

/-- One entry is replaced, at one place.  Nothing is added if memory does not extend so far, which the
`map` says. -/
theorem cell?_setEntry (r : Ram) (frame : Frame) (i : Fin entriesPerTable) (e : PageTableEntry)
    (n : Nat) (j : Fin entriesPerTable) :
    (r.setEntry frame i e).cell? n j =
      if n = frame.index.toNat ∧ j = i then (r.cell? n j).map fun _ => e else r.cell? n j := by
  by_cases hn : n = frame.index.toNat
  · subst hn
    rw [← read?_eq_cell?, ← read?_eq_cell?, read?_setEntry]
    simp
  · simp [cell?, setEntry, Array.getElem?_modify, hn, Ne.symm hn]

end Ram

namespace Paging

variable {p q : Paging} {dirs : Finset Frame} {d d' t : Frame} {pages : Finset VirtAddr}
  {page : VirtAddr} {e : PageTableEntry} {i j : Fin entriesPerTable}

/-! ## Empty entries -/

/-- **The entry of a page is there, and empty.**  The region must have its table, so this says more
than that the page is not mapped. -/
def Blank (p : Paging) (directory : Frame) (page : VirtAddr) : Prop :=
  ∃ t, p.target? directory page.directoryIndex = some t
    ∧ p.ram.read? t page.tableIndex = some .empty

/-- An entry that is emptied is empty: the table stays in the directory, and is reached. -/
theorem Blank.of_withEntry (h : p.Spaces dirs) (hd : d ∈ dirs)
    (ht : p.target? d page.directoryIndex = some t) :
    (p.withEntry t page.tableIndex .empty).Blank d page := by
  obtain ⟨old, hold⟩ := Option.isSome_iff_exists.mp
    ((Ram.reaches_iff_read? page.tableIndex).mp (h.reaches_table d hd _ t ht))
  refine ⟨t, (h.target?_written hd ht .empty hd _).trans ht, ?_⟩
  rw [withEntry, Ram.read?_setEntry, if_pos ⟨rfl, rfl⟩, hold, Option.map_some]

/-- An entry that is empty stays so when another one is emptied, even if it is the same one. -/
theorem Blank.withEntry {other : VirtAddr} (blank : p.Blank d other) (h : p.Spaces dirs)
    (hd : d ∈ dirs) (ht : p.target? d page.directoryIndex = some t) :
    (p.withEntry t page.tableIndex .empty).Blank d other := by
  obtain ⟨t', ht', hread⟩ := blank
  refine ⟨t', (h.target?_written hd ht .empty hd _).trans ht', ?_⟩
  rw [Paging.withEntry, Ram.read?_setEntry, hread]
  split <;> rfl

/-- **A table with no entry in use.**  Entries may have flags all the same; what counts is that no page
goes through the table. -/
def Vacant (p : Paging) (t : Frame) : Prop :=
  ∀ i, ∃ e, p.ram.read? t i = some e ∧ e.isPresent = false

/-! ## Overlays -/

/-- **Memory with the entries of some pages replaced**, and nothing else.  The pages are those of a
directory, and the tables are those that it refers to at first.  Growing the heap keeps this record,
and taking the pages back shrinks its set of pages to none. -/
structure Overlays (q : Paging) (directory : Frame) (pages : Finset VirtAddr) (p : Paging) :
    Prop where
  kernel?_eq : p.kernel? = q.kernel?
  current?_eq : p.current? = q.current?
  cell?_eq : ∀ n j, (∀ page ∈ pages, ∀ t, q.target? directory page.directoryIndex = some t →
    ¬ (n = t.index.toNat ∧ j = page.tableIndex)) → p.ram.cell? n j = q.ram.cell? n j

namespace Overlays

theorem refl (q : Paging) (directory : Frame) : q.Overlays directory ∅ q :=
  ⟨rfl, rfl, fun _ _ _ => rfl⟩

/-- **Where no entry is replaced, memory is the same**, and so is all of the paging state. -/
theorem eq (o : q.Overlays d ∅ p) : p = q := by
  have hram : p.ram = q.ram := Ram.ext_cell? fun n j => o.cell?_eq n j (by simp)
  have hkernel := o.kernel?_eq
  have hcurrent := o.current?_eq
  cases p
  cases q
  simp_all

/-- The directories are those that there were: entries are replaced in tables only, and no table is a
directory. -/
theorem read?_eq (o : q.Overlays d pages p) (h : q.Spaces dirs) (hd : d ∈ dirs) (hd' : d' ∈ dirs)
    (j : Fin entriesPerTable) : p.ram.read? d' j = q.ram.read? d' j := by
  refine o.cell?_eq _ _ fun page _ t ht heq => ?_
  obtain rfl := Frame.index_toNat_inj.mp heq.1
  exact h.table_not_mem d hd _ _ ht hd'

theorem target?_eq (o : q.Overlays d pages p) (h : q.Spaces dirs) (hd : d ∈ dirs) (hd' : d' ∈ dirs)
    (j : Fin entriesPerTable) : p.target? d' j = q.target? d' j := by
  rw [target?, target?, o.read?_eq h hd hd']

theorem tableFrames_eq (o : q.Overlays d pages p) (h : q.Spaces dirs) (hd : d ∈ dirs) :
    p.tableFrames dirs = q.tableFrames dirs := by
  refine Finset.biUnion_congr rfl fun d' hd' => Finset.biUnion_congr rfl fun i _ => ?_
  rw [o.target?_eq h hd hd']

/-- A region that has its table still has it, with the flags that it had. -/
theorem ready {flags : PageFlags} (o : q.Overlays d pages p) (h : q.Spaces dirs) (hd : d ∈ dirs)
    (ready : q.Ready d i flags) : p.Ready d i flags := by
  obtain ⟨e, hread, hentry⟩ := ready
  exact ⟨e, (o.read?_eq h hd hd i).trans hread, hentry⟩

/-- The entry of one page more is replaced.  Its table is the one that the directory referred to at
first, since directories do not change. -/
theorem insert (o : q.Overlays d pages p) (ht : q.target? d page.directoryIndex = some t)
    (e : PageTableEntry) : q.Overlays d (insert page pages) (p.withEntry t page.tableIndex e) where
  kernel?_eq := o.kernel?_eq
  current?_eq := o.current?_eq
  cell?_eq n j hother := by
    have hpage := hother page (Finset.mem_insert_self ..) t ht
    rw [withEntry, Ram.cell?_setEntry, if_neg hpage]
    exact o.cell?_eq n j fun page' hpage' => hother page' (Finset.mem_insert_of_mem hpage')

/-- **The entry of a page is emptied**, as it was at first, and the page counts as replaced no more.
This is the step by which a request is undone. -/
theorem erase (o : q.Overlays d pages p) (ht : q.target? d page.directoryIndex = some t)
    (hempty : q.ram.read? t page.tableIndex = some .empty) (hreach : p.ram.reaches t = true) :
    q.Overlays d (pages.erase page) (p.withEntry t page.tableIndex .empty) where
  kernel?_eq := o.kernel?_eq
  current?_eq := o.current?_eq
  cell?_eq n j hother := by
    rw [withEntry, Ram.cell?_setEntry]
    split
    case isTrue heq =>
      obtain ⟨rfl, rfl⟩ := heq
      obtain ⟨old, hold⟩ := Option.isSome_iff_exists.mp
        ((Ram.reaches_iff_read? page.tableIndex).mp hreach)
      rw [← Ram.read?_eq_cell?, ← Ram.read?_eq_cell?, hold, hempty, Option.map_some]
    case isFalse hne =>
      refine o.cell?_eq n j fun page' hpage' t' ht' => ?_
      by_cases heq : page' = page
      · subst heq
        obtain rfl := Option.some.inj (ht.symm.trans ht')
        exact hne
      · exact hother page' (Finset.mem_erase.mpr ⟨heq, hpage'⟩) t' ht'

end Overlays

end Paging

end TinyKernel
