import TinyKernel.Fault

/-!
# Page table entries

An entry of a page directory or a page table is one word: the number of a frame in its upper twenty
bits, flags in the lower twelve.  Three of the flags have names.
-/

namespace TinyKernel

/-- **The flags of a mapping.**  All 32 bits are kept; three of them have names.  The type does not
rule out bits that an entry uses for the address of its frame. -/
structure PageFlags where
  bits : UInt32
  deriving DecidableEq, Inhabited

namespace PageFlags

/-- The entry is in use.  Without it, none of the other bits means anything. -/
def present : PageFlags := ⟨1⟩

/-- Writing is allowed, if the entry of the directory allows it too. -/
def writable : PageFlags := ⟨2⟩

/-- User code may use the mapping, if the entry of the directory allows it too. -/
def user : PageFlags := ⟨4⟩

/-- The flags of either, which `|||` stands for. -/
def union (a b : PageFlags) : PageFlags := ⟨a.bits ||| b.bits⟩

instance : OrOp PageFlags := ⟨union⟩

/-- Whether every flag of `b` is among the flags of `a`.  Unnamed bits count as well. -/
def contains (a b : PageFlags) : Bool := a.bits &&& b.bits == b.bits

/-- The flags with names, of those given.  All others are dropped. -/
def named (a : PageFlags) : PageFlags := ⟨a.bits &&& 7⟩

/-- The names of the flags, as a set, or `0x0` if there are none. -/
def describe (a : PageFlags) : String :=
  let names := [(present, "PRESENT"), (writable, "WRITABLE"), (user, "USER")].filterMap
    fun (flag, name) => if a.contains flag then some name else none
  "PageFlags(" ++ (if names.isEmpty then "0x0" else " | ".intercalate names) ++ ")"

end PageFlags

/-- **An entry of a page directory or a page table**: the address of a frame in the upper twenty bits,
and flags in the lower twelve.  In a directory the frame holds a table, and in a table it is where the
page goes. -/
structure PageTableEntry where
  bits : UInt32
  deriving DecidableEq, Inhabited

namespace PageTableEntry

/-- The entry that maps nothing.  A frame that is zeroed is full of them. -/
def empty : PageTableEntry := ⟨0⟩

/-- The entry that refers to a frame, with flags.  Address and flags are simply joined; as long as the
flags keep to the lower twelve bits, both can be read back. -/
def ofFrame (frame : Frame) (flags : PageFlags) : PageTableEntry :=
  ⟨frame.start.val ||| flags.bits⟩

/-- The flags with names, of those in the entry.  Bits without a name are not reported, so that an
entry read and written again loses them. -/
def flags (e : PageTableEntry) : PageFlags := PageFlags.named ⟨e.bits⟩

/-- Whether the entry is in use. -/
def isPresent (e : PageTableEntry) : Bool := e.flags.contains .present

/-- The frame that the entry refers to.  It means something only if the entry is present. -/
def frame (e : PageTableEntry) : Frame := (PhysAddr.mk e.bits).frame

/-- The entry as a record, with the address of its frame and the names of its flags. -/
def describe (e : PageTableEntry) : String :=
  "PageTableEntry \x7b frame: " ++ Text.hexWord e.frame.start.val ++ ", flags: " ++ e.flags.describe
    ++ " \x7d"

end PageTableEntry

end TinyKernel
