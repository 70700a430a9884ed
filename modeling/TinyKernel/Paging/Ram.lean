import TinyKernel.Paging.Entry

/-!
# Physical memory

Physical memory, as far as paging looks at it: an array of frames, each of which can be read as a
page table of 1024 entries.  Memory starts out zeroed, and a frame beyond its end cannot be reached.
-/

namespace TinyKernel

/-- A page directory or a page table: the entries that fill one frame.  Memory is modelled by these
throughout, as nothing but tables is ever read from it. -/
structure PageTable where
  entries : Vector PageTableEntry entriesPerTable

/-- The table that maps nothing, as a zeroed frame is. -/
def PageTable.empty : PageTable := ⟨Vector.replicate entriesPerTable .empty⟩

/-- The table with one entry replaced.  An index is known to lie in the table by its type. -/
def PageTable.set (t : PageTable) (i : Fin entriesPerTable) (e : PageTableEntry) : PageTable :=
  ⟨t.entries.set i e⟩

/-- **Physical memory**, frame by frame.  It may be smaller than what 32 bit addresses can name, and
frames past its end cannot be reached. -/
structure Ram where
  tables : Array PageTable

namespace Ram

/-- Zeroed memory of as many whole frames as the given number of bytes holds.  The rest, less than a
frame, is lost. -/
def ofSize (bytes : Nat) : Ram := ⟨Array.replicate (bytes / pageSize) .empty⟩

/-- Whether a frame can be reached.  Frames come without gaps from the first on, so this is one
comparison. -/
def reaches (r : Ram) (frame : Frame) : Bool := frame.index.toNat < r.tables.size

/-- The table in a frame, if the frame can be reached.  Every frame holds one, in so far as its bytes
can be read as entries. -/
def table? (r : Ram) (frame : Frame) : Option PageTable := r.tables[frame.index.toNat]?

/-- An entry of the table in a frame, if the frame can be reached.  What is read back after a write is
a matter of the lemmas below, which the proofs about paging start from. -/
def read? (r : Ram) (frame : Frame) (i : Fin entriesPerTable) : Option PageTableEntry :=
  (r.table? frame).map fun table => table.entries[i]

/-- Replaces an entry of the table in a frame.  A frame that cannot be reached is left alone. -/
def setEntry (r : Ram) (frame : Frame) (i : Fin entriesPerTable) (e : PageTableEntry) : Ram :=
  ⟨r.tables.modify frame.index.toNat fun table => table.set i e⟩

/-- Zeroes a frame, so that it maps nothing.  A frame that cannot be reached is left alone. -/
def clearTable (r : Ram) (frame : Frame) : Ram :=
  ⟨r.tables.modify frame.index.toNat fun _ => .empty⟩

/-! ## What is read back -/

theorem reaches_iff {r : Ram} {frame : Frame} :
    r.reaches frame = true ↔ (r.table? frame).isSome := by
  simp only [reaches, table?, decide_eq_true_iff, isSome_getElem?]

@[simp]
theorem reaches_setEntry (r : Ram) (frame other : Frame) (i : Fin entriesPerTable)
    (e : PageTableEntry) : (r.setEntry frame i e).reaches other = r.reaches other := by
  simp only [reaches, setEntry, Array.size_modify]

@[simp]
theorem reaches_clearTable (r : Ram) (frame other : Frame) :
    (r.clearTable frame).reaches other = r.reaches other := by
  simp only [reaches, clearTable, Array.size_modify]

theorem table?_setEntry (r : Ram) (frame other : Frame) (i : Fin entriesPerTable)
    (e : PageTableEntry) :
    (r.setEntry frame i e).table? other =
      if other = frame then (r.table? other).map fun table => table.set i e
      else r.table? other := by
  simp only [table?, setEntry, Array.getElem?_modify, Frame.index_toNat_inj, eq_comm (a := frame)]

theorem table?_clearTable (r : Ram) (frame other : Frame) :
    (r.clearTable frame).table? other =
      if other = frame then (r.table? other).map fun _ => .empty else r.table? other := by
  simp only [table?, clearTable, Array.getElem?_modify, Frame.index_toNat_inj,
    eq_comm (a := frame)]

/-- An entry that is replaced is read back, and every other entry is as before, those of the same table
included. -/
theorem read?_setEntry (r : Ram) (frame other : Frame) (i j : Fin entriesPerTable)
    (e : PageTableEntry) :
    (r.setEntry frame i e).read? other j =
      if other = frame ∧ j = i then (r.read? other j).map fun _ => e else r.read? other j := by
  simp only [read?, table?_setEntry]
  by_cases hf : other = frame
  · cases r.table? other with
    | none => simp
    | some table =>
      have hset : (table.set i e).entries[j] = if j = i then e else table.entries[j] := by
        by_cases hj : j = i
        · subst hj
          simp [PageTable.set]
        · have hne : (i : Nat) ≠ j := fun h => hj (Fin.ext h.symm)
          simp [PageTable.set, hj, hne]
      simp only [hf, true_and, if_true, Option.map_some, hset]
      split <;> rfl
  · simp [hf]

/-- A frame that is zeroed maps nothing, and every other frame is as before. -/
theorem read?_clearTable (r : Ram) (frame other : Frame) (j : Fin entriesPerTable) :
    (r.clearTable frame).read? other j =
      if other = frame then (r.read? other j).map fun _ => .empty else r.read? other j := by
  simp only [read?, table?_clearTable]
  by_cases hf : other = frame
  · cases r.table? other <;> simp [hf, PageTable.empty]
  · simp [hf]

end Ram

end TinyKernel
