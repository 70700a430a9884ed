import Mathlib.Algebra.Group.Nat.Defs
import TinyKernel.Paging.AddressSpace

/-!
# What an address goes to

The two levels of a translation are the same step made twice: an entry that is in use refers to a
frame.  From the directory of an address space this step leads to a page table, and from there to
the frame of the page.

* `Paging.target?` — one step
* `Paging.frameOf?` — both of them, which `translate` is made of (`Paging.translate_eq`)
* `Paging.target?_withEntry`, `Paging.target?_withZeroed` — what a change of memory does to a step
* `Paging.unmap_of_mapped`, `Paging.unmap_of_unmapped` — everything that unmapping does
-/

namespace TinyKernel

/-! ## Flags in a word -/

namespace PageFlags

theorem and_one_beq (w : UInt32) : (w &&& 1 == 1) = decide (w.toNat % 2 = 1) := by
  rw [Bool.eq_iff_iff, beq_iff_eq, decide_eq_true_iff, ← UInt32.toNat_inj, UInt32.toNat_and]
  exact iff_of_eq (congrArg (· = 1) (Nat.and_one_is_mod _))

theorem contains_present (a : PageFlags) :
    a.contains .present = decide (a.bits.toNat % 2 = 1) :=
  and_one_beq a.bits

/-- A flag of either is a flag of both together; as words they are joined bit by bit. -/
theorem bits_or (a b : PageFlags) : (a ||| b).bits = a.bits ||| b.bits := rfl

theorem named_lt (a : PageFlags) : a.named.bits.toNat < 8 := by
  rw [named, UInt32.toNat_and]
  exact Nat.lt_succ_of_le Nat.and_le_right

theorem named_of_lt {a : PageFlags} (h : a.bits.toNat < 2 ^ 3) : a.named = a := by
  refine congrArg mk (UInt32.toNat_inj.mp ?_)
  rw [UInt32.toNat_and]
  show a.bits.toNat &&& (2 ^ 3 - 1) = a.bits.toNat
  rw [Nat.and_two_pow_sub_one_eq_mod, Nat.mod_eq_of_lt h]

theorem named_or (a b : PageFlags) : (a ||| b).named = a.named ||| b.named := by
  refine congrArg mk (UInt32.toNat_inj.mp (Nat.eq_of_testBit_eq fun i => ?_))
  simp only [named, bits_or, UInt32.toNat_and, UInt32.toNat_or, Nat.testBit_and, Nat.testBit_or,
    Bool.and_or_distrib_right]

/-- The number of a frame leaves room for the flags with names: a frame starts at a multiple of its
size. -/
theorem named_start (f : Frame) : named ⟨f.start.val⟩ = ⟨0⟩ := by
  refine congrArg mk (UInt32.toNat_inj.mp ?_)
  rw [UInt32.toNat_and, f.start_toNat]
  show f.index.toNat * 4096 &&& (2 ^ 3 - 1) = 0
  rw [Nat.and_two_pow_sub_one_eq_mod]
  omega

theorem or_lt {a b : PageFlags} {k : Nat} (ha : a.bits.toNat < 2 ^ k) (hb : b.bits.toNat < 2 ^ k) :
    (a ||| b).bits.toNat < 2 ^ k := by
  rw [bits_or, UInt32.toNat_or]
  exact Nat.or_lt_two_pow ha hb

/-- The flags of either contain those of the other, with or without names. -/
theorem contains_or_right (a b : PageFlags) : (a ||| b).contains b = true := by
  rw [contains, beq_iff_eq, bits_or, ← UInt32.toNat_inj, UInt32.toNat_and, UInt32.toNat_or]
  refine Nat.eq_of_testBit_eq fun i => ?_
  rw [Nat.testBit_and, Nat.testBit_or]
  cases a.bits.toNat.testBit i <;> cases b.bits.toNat.testBit i <;> rfl

theorem contains_present_or_right (a : PageFlags) {b : PageFlags} (hb : b.contains .present = true) :
    (a ||| b).contains .present = true := by
  rw [contains_present, decide_eq_true_iff] at hb ⊢
  rw [bits_or, UInt32.toNat_or, Nat.or_mod_two_eq_one]
  exact Or.inr hb

end PageFlags

namespace PageTableEntry

/-- **The frame that an entry refers to**, if it is in use.  The number in an entry that is not in use
means nothing. -/
def target? (e : PageTableEntry) : Option Frame := if e.isPresent then some e.frame else none

theorem target?_of_isPresent {e : PageTableEntry} (h : e.isPresent = true) :
    e.target? = some e.frame :=
  if_pos h

theorem isPresent_eq (e : PageTableEntry) : e.isPresent = decide (e.bits.toNat % 2 = 1) := by
  rw [isPresent, PageFlags.contains_present, flags, PageFlags.named, UInt32.toNat_and]
  show decide ((e.bits.toNat &&& (2 ^ 3 - 1)) % 2 = 1) = _
  rw [Nat.and_two_pow_sub_one_eq_mod, Nat.mod_mod_of_dvd _ (by decide)]

@[simp]
theorem target?_empty : empty.target? = none := by decide

/-- An entry has the number of its frame above its flags.  The two do not overlap as long as the flags
keep to the low twelve bits. -/
theorem toNat_bits_ofFrame (f : Frame) {flags : PageFlags} (hbits : flags.bits.toNat < 2 ^ 12) :
    (ofFrame f flags).bits.toNat = f.index.toNat * 4096 + flags.bits.toNat := by
  rw [ofFrame, UInt32.toNat_or, f.start_toNat, show 4096 = 2 ^ 12 by rfl, ← Nat.shiftLeft_eq,
    Nat.shiftLeft_add_eq_or_of_lt hbits]

/-- An entry refers to the frame that it was made for, if its flags leave the number alone and say that
it is in use. -/
theorem target?_ofFrame (f : Frame) {flags : PageFlags} (hbits : flags.bits.toNat < 2 ^ 12)
    (hpresent : flags.contains .present = true) : (ofFrame f flags).target? = some f := by
  have hword := toNat_bits_ofFrame f hbits
  rw [PageFlags.contains_present, decide_eq_true_iff] at hpresent
  have hin : (ofFrame f flags).isPresent = true := by
    rw [isPresent_eq, hword, decide_eq_true_iff]
    omega
  rw [target?, if_pos hin]
  refine congrArg some (Frame.index_toNat_inj.mp ?_)
  rw [frame, PhysAddr.frame, UInt32.toNat_div, hword]
  simp only [UInt32.reduceToNat]
  omega

/-- An entry has the flags that it was made with, those that have names.  The others cannot be read
back. -/
theorem flags_ofFrame (f : Frame) (flags : PageFlags) : (ofFrame f flags).flags = flags.named := by
  have hword : (ofFrame f flags).flags = (PageFlags.mk f.start.val ||| flags).named := rfl
  rw [hword, PageFlags.named_or, PageFlags.named_start]
  exact congrArg PageFlags.mk UInt32.zero_or

end PageTableEntry

/-! ## Steps in memory -/

theorem Ram.reaches_iff_read? {r : Ram} {frame : Frame} (i : Fin entriesPerTable) :
    r.reaches frame = true ↔ (r.read? frame i).isSome = true := by
  rw [Ram.reaches_iff, Ram.read?, Option.isSome_map]

/-- The place of an address in its page lies in the page, so that it can be added to the start of a
frame. -/
theorem VirtAddr.pageOffset_lt (v : VirtAddr) : v.pageOffset.toNat < 4096 := by
  rw [pageOffset, UInt32.toNat_mod]
  exact Nat.mod_lt _ (by decide)

namespace Paging

/-- **The frame that an entry in memory refers to**, if it is in use.  A frame that cannot be reached
has no entries, and the statement is the same for directories and tables. -/
def target? (p : Paging) (frame : Frame) (i : Fin entriesPerTable) : Option Frame :=
  (p.ram.read? frame i).bind PageTableEntry.target?

/-- **The frame that the page of an address goes to**, in the address space of a directory.  Laws are
proved of this, and carried over to translations afterwards. -/
def frameOf? (p : Paging) (directory : Frame) (address : VirtAddr) : Option Frame :=
  (p.target? directory address.directoryIndex).bind fun table => p.target? table address.tableIndex

variable {p : Paging} {frame other : Frame} {i j : Fin entriesPerTable} {e : PageTableEntry}

theorem target?_of_read? (h : p.ram.read? frame i = some e) : p.target? frame i = e.target? := by
  rw [target?, h, Option.bind_some]

theorem readPresent?_map (p : Paging) (frame : Frame) (i : Fin entriesPerTable) :
    (p.readPresent? frame i).map PageTableEntry.frame = p.target? frame i := by
  rw [readPresent?, target?]
  cases p.ram.read? frame i with
  | none => rfl
  | some e =>
      rw [Option.filter_some, Option.bind_some, PageTableEntry.target?]
      cases e.isPresent <;> rfl

theorem walk?_map (p : Paging) (directory : PageDirectory) (address : VirtAddr) :
    (p.walk? directory address).map (fun (_, leaf) => leaf.frame)
      = p.frameOf? directory.frame address := by
  rw [frameOf?, ← readPresent?_map, walk?]
  cases p.readPresent? directory.frame address.directoryIndex with
  | none => rfl
  | some table =>
      simp only [Option.bind_eq_bind, Option.map_some, Option.bind_some]
      rw [← readPresent?_map]
      cases p.readPresent? table.frame address.tableIndex <;> rfl

/-- Translation finds the frame of the page and adds the offset in it.  So all that can change about a
translation is the frame. -/
theorem translate_eq (p : Paging) (directory : PageDirectory) (address : VirtAddr) :
    p.translate directory address = (p.frameOf? directory.frame address).map fun frame =>
      ⟨frame.start.val + address.pageOffset⟩ := by
  rw [← walk?_map, translate, Option.map_map]
  rfl

theorem translate_eq_none_iff {directory : PageDirectory} {address : VirtAddr} :
    p.translate directory address = none ↔ p.frameOf? directory.frame address = none := by
  rw [translate_eq, Option.map_eq_none_iff]

theorem isSome_translate {directory : PageDirectory} {address : VirtAddr} :
    (p.translate directory address).isSome = (p.frameOf? directory.frame address).isSome := by
  rw [translate_eq, Option.isSome_map]

/-- What an address translates to lies in the frame of the page, and is not carried over into the next
one. -/
theorem translate_map_frame (p : Paging) (directory : PageDirectory) (address : VirtAddr) :
    (p.translate directory address).map PhysAddr.frame = p.frameOf? directory.frame address := by
  have hframe : ∀ f : Frame, PhysAddr.frame ⟨f.start.val + address.pageOffset⟩ = f := by
    intro f
    have hstart := f.start_toNat
    have hlt := f.index_lt
    have hoffset := address.pageOffset_lt
    simp only [addressableFrames] at hlt
    apply Frame.index_toNat_inj.mp
    simp only [PhysAddr.frame, UInt32.toNat_div, UInt32.toNat_add, UInt32.reduceToNat, hstart]
    omega
  rw [translate_eq, Option.map_map]
  exact (Option.map_congr fun f _ => hframe f).trans Option.map_id'

/-- What an address translates to is so far into the frame as the address is into its page: the sum
of the two does not wrap around. -/
theorem translate_toNat {directory : PageDirectory} {address : VirtAddr} {f : Frame}
    (h : p.frameOf? directory.frame address = some f) :
    (p.translate directory address).map (fun a => a.val.toNat)
      = some (f.start.val.toNat + address.pageOffset.toNat) := by
  have hstart := f.start_toNat
  have hlt := f.index_lt
  have hoffset := address.pageOffset_lt
  simp only [addressableFrames] at hlt
  rw [translate_eq, h, Option.map_some, Option.map_some, UInt32.toNat_add, Nat.mod_eq_of_lt]
  omega

/-- Translations depend on the frames of pages only, and not on the flags or on how the tables are
found. -/
theorem translate_congr {p' : Paging} {d e : PageDirectory} {address : VirtAddr}
    (h : p'.frameOf? d.frame address = p.frameOf? e.frame address) :
    p'.translate d address = p.translate e address := by
  rw [translate_eq, translate_eq, h]

theorem reaches_of_target? {t : Frame} (h : p.target? frame i = some t) :
    p.ram.reaches frame = true := by
  rw [Ram.reaches_iff_read? i]
  obtain ⟨e, he, -⟩ := Option.bind_eq_some_iff.mp h
  rw [he]
  rfl

/-! ## Changes of memory -/

/-- Memory in which one entry is replaced.  If its frame cannot be reached, nothing is. -/
def withEntry (p : Paging) (frame : Frame) (i : Fin entriesPerTable) (e : PageTableEntry) : Paging :=
  { p with ram := p.ram.setEntry frame i e }

/-- Memory in which one frame is zeroed, with all of its entries. -/
def withZeroed (p : Paging) (frame : Frame) : Paging := { p with ram := p.ram.clearTable frame }

@[simp]
theorem kernel?_withEntry : (p.withEntry frame i e).kernel? = p.kernel? := rfl

@[simp]
theorem kernel?_withZeroed : (p.withZeroed frame).kernel? = p.kernel? := rfl

@[simp]
theorem reaches_withEntry : (p.withEntry frame i e).ram.reaches other = p.ram.reaches other :=
  Ram.reaches_setEntry ..

@[simp]
theorem reaches_withZeroed : (p.withZeroed frame).ram.reaches other = p.ram.reaches other :=
  Ram.reaches_clearTable ..

/-- Memory has as many frames as before, wherever the entry lies. -/
@[simp]
theorem size_withEntry : (p.withEntry frame i e).ram.tables.size = p.ram.tables.size := by
  simp [withEntry, Ram.setEntry]

@[simp]
theorem size_withZeroed : (p.withZeroed frame).ram.tables.size = p.ram.tables.size := by
  simp [withZeroed, Ram.clearTable]

/-- Only the entry that is written changes.  An entry out of reach still refers to nothing. -/
theorem target?_withEntry (p : Paging) (frame other : Frame) (i j : Fin entriesPerTable)
    (e : PageTableEntry) :
    (p.withEntry frame i e).target? other j =
      if other = frame ∧ j = i then if p.ram.reaches other then e.target? else none
      else p.target? other j := by
  rw [target?, withEntry, Ram.read?_setEntry]
  split
  case isFalse => rfl
  case isTrue =>
    by_cases hreach : p.ram.reaches other = true
    · obtain ⟨old, hold⟩ := Option.isSome_iff_exists.mp ((Ram.reaches_iff_read? j).mp hreach)
      rw [if_pos hreach, hold]
      rfl
    · have hnone : p.ram.read? other j = none :=
        Option.not_isSome_iff_eq_none.mp fun h => hreach ((Ram.reaches_iff_read? j).mpr h)
      rw [if_neg hreach, hnone]
      rfl

/-- A frame that is zeroed refers to nothing, and other frames are as before. -/
theorem target?_withZeroed (p : Paging) (frame other : Frame) (j : Fin entriesPerTable) :
    (p.withZeroed frame).target? other j = if other = frame then none else p.target? other j := by
  rw [target?, withZeroed, Ram.read?_clearTable]
  split
  case isFalse => rfl
  case isTrue =>
    cases p.ram.read? other j with
    | none => rfl
    | some e =>
        rw [Option.map_some, Option.bind_some]
        exact PageTableEntry.target?_empty

/-! ## Unmapping -/

variable {directory : PageDirectory} {v : VirtAddr}

/-- Where nothing is mapped, unmapping does nothing: memory and the processor stay as they are. -/
theorem unmap_of_unmapped (cpu : Cpu) (h : p.frameOf? directory.frame v = none) :
    p.unmap cpu directory v = (none, p, cpu) := by
  rw [← walk?_map, Option.map_eq_none_iff] at h
  rw [unmap, h]

/-- **Where a page is mapped**, unmapping empties its entry, and the processor forgets its
translations.  The entry lies in the table that the directory has for the region. -/
theorem unmap_of_mapped (cpu : Cpu) {f : Frame} (h : p.frameOf? directory.frame v = some f) :
    ∃ t, p.target? directory.frame v.directoryIndex = some t
      ∧ p.unmap cpu directory v
        = (some f.start, p.withEntry t v.tableIndex .empty, cpu.flushTlb) := by
  rw [← walk?_map, Option.map_eq_some_iff] at h
  obtain ⟨⟨entry, leaf⟩, hwalk, rfl⟩ := h
  refine ⟨entry.frame, ?_, ?_⟩
  · rw [walk?] at hwalk
    obtain ⟨entry', hentry, hrest⟩ := Option.bind_eq_some_iff.mp hwalk
    obtain ⟨leaf', -, heq⟩ := Option.bind_eq_some_iff.mp hrest
    obtain ⟨rfl, -⟩ := Prod.mk.inj (Option.some.inj heq)
    rw [← readPresent?_map, hentry, Option.map_some]
  · rw [unmap, hwalk]
    rfl

end Paging

end TinyKernel
