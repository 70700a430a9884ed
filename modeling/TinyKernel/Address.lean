import TinyKernel.Text.Hex

/-!
# Addresses and frames

Physical and virtual addresses are distinct types, so that one is never taken for the other.
Memory is divided into frames of 4 KiB, and a frame is referred to by its number.

A virtual address splits into three fields: ten bits select an entry of the page directory, ten
bits an entry of the page table found there, and twelve bits a byte of the page.

## What is load-bearing

The bound in `Frame` makes `Frame.start` total: a frame whose number has at most twenty bits starts
at an address that fits into 32 bits (`Frame.start_toNat`).
-/

namespace TinyKernel

/-- Bytes of a page, and of the frame that holds it.  Everything that is mapped, backed or lent out
comes in whole pages, and so the start and both sizes of the kernel heap have to be multiples of
this. -/
def pageSize : Nat := 4096

/-- Entries of a page directory, and of a page table.  A directory and a table have the same shape:
1024 words of 32 bits, which fill one frame exactly. -/
def entriesPerTable : Nat := 1024

/-- The number of frames that 32 bit physical addresses can reach.  The frame bitmap tracks fewer of
them (`maxFrames`); a frame past those is never handed out, though it has an address. -/
def addressableFrames : Nat := 0x100000

/-- An address in physical memory.  It is kept apart from `VirtAddr`, though both are 32 bit words, so
that an address can be read only where it means something. -/
structure PhysAddr where
  val : UInt32
  deriving DecidableEq, Inhabited

/-- An address in some address space.  Which memory it names is a matter of the page directory that is
in use; its bits name the directory entry, the table entry and the byte of the page, in this order. -/
structure VirtAddr where
  val : UInt32
  deriving DecidableEq, Inhabited

/-- **A physical frame**, by number: frame `i` starts at byte `4096 * i`.  The bound on the number
comes with the frame, so that its first address is known to fit 32 bits (`Frame.start_toNat`). -/
structure Frame where
  index : UInt32
  index_lt : index.toNat < addressableFrames
  deriving DecidableEq

/-- The first address of a frame.  The multiplication cannot wrap round, because of the bound that a
frame carries. -/
def Frame.start (f : Frame) : PhysAddr := ⟨f.index * 4096⟩

/-- A frame as a record, as it stands in debug output. -/
def Frame.describe (f : Frame) : String := "FrameId(" ++ toString f.index.toNat ++ ")"

theorem Frame.index_toNat_inj {f g : Frame} : f.index.toNat = g.index.toNat ↔ f = g := by
  obtain ⟨i, hi⟩ := f
  obtain ⟨j, hj⟩ := g
  simp only [UInt32.toNat_inj, mk.injEq]

theorem Frame.start_toNat (f : Frame) : f.start.val.toNat = f.index.toNat * 4096 := by
  have h := f.index_lt
  simp only [addressableFrames] at h
  simp only [Frame.start, UInt32.toNat_mul, UInt32.reduceToNat]
  omega

namespace PhysAddr

/-- Addresses are ordered as numbers. -/
instance : Ord PhysAddr := ⟨fun a b => compare a.val b.val⟩

/-- The byte of its frame that an address names: the low twelve bits.  Translation leaves these bits
alone and replaces all others. -/
def pageOffset (a : PhysAddr) : UInt32 := a.val % 4096

/-- The frame that an address lies in.  Every physical address lies in one, and so the bound on the
number need not be checked here. -/
def frame (a : PhysAddr) : Frame where
  index := a.val / 4096
  index_lt := by
    have h := a.val.toNat_lt
    simp only [UInt32.toNat_div, UInt32.reduceToNat, addressableFrames]
    omega

/-- A physical address in messages: `P` and eight hexadecimal digits. -/
def text (a : PhysAddr) : String := "P" ++ Text.hexWord a.val

/-- A physical address as a record, with its number in decimal. -/
def describe (a : PhysAddr) : String := "PhysAddr(" ++ toString a.val.toNat ++ ")"

end PhysAddr

/-- A frame is the one that its first address lies in.  Frames and page-aligned addresses are therefore
two names for the same thing, and loans can be counted by either. -/
theorem Frame.frame_start (f : Frame) : f.start.frame = f := by
  have h := f.start_toNat
  obtain ⟨i, hi⟩ := f
  simp only [PhysAddr.frame, Frame.mk.injEq]
  apply UInt32.toNat_inj.mp
  simp only [UInt32.toNat_div, UInt32.reduceToNat, h]
  omega

namespace VirtAddr

/-- Addresses are ordered as numbers. -/
instance : Ord VirtAddr := ⟨fun a b => compare a.val b.val⟩

/-- The top ten bits of an address: which entry of the page directory.  One such entry stands for a
region of 4 MiB, and that is the unit in which directories share their mappings. -/
def directoryIndex (a : VirtAddr) : Fin entriesPerTable :=
  ⟨a.val.toNat / 0x400000, by have h := a.val.toNat_lt; simp only [entriesPerTable]; omega⟩

/-- The middle ten bits of an address: which entry of the page table that the directory entry points
to. -/
def tableIndex (a : VirtAddr) : Fin entriesPerTable :=
  ⟨a.val.toNat / 4096 % 1024, by simp only [entriesPerTable]; omega⟩

/-- The low twelve bits of an address: which byte of the page.  An address is page aligned if they are
zero. -/
def pageOffset (a : VirtAddr) : UInt32 := a.val % 4096

/-- The first address of the page that an address lies in.  Nothing can wrap round here, since the
offset is never larger than the address. -/
def alignDown (a : VirtAddr) : VirtAddr := ⟨a.val - a.val % 4096⟩

/-- The address `bytes` further on, if there is one.  The top of the address space is an end, and no
sum wraps round to low addresses; a heap whose range would do so is refused. -/
def add? (a : VirtAddr) (bytes : Nat) : Option VirtAddr :=
  if a.val.toNat + bytes < 0x1_0000_0000 then some ⟨UInt32.ofNat (a.val.toNat + bytes)⟩ else none

/-- A virtual address in messages: `V` and eight hexadecimal digits. -/
def text (a : VirtAddr) : String := "V" ++ Text.hexWord a.val

/-- A virtual address as a record, with its number in decimal. -/
def describe (a : VirtAddr) : String := "VirtAddr(" ++ toString a.val.toNat ++ ")"

end VirtAddr

end TinyKernel
