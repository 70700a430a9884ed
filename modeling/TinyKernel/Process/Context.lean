import TinyKernel.Text.Hex

/-!
# Register contexts

The registers that are saved when a process gives up the processor, and restored when it gets it
back.
-/

namespace TinyKernel

/-- **The saved registers of a process**, and the directory it runs in.  They are those of the
processor when it last left the process; while the process runs, they are out of date. -/
structure Context where
  eax : UInt32 := 0
  ebx : UInt32 := 0
  ecx : UInt32 := 0
  edx : UInt32 := 0
  esi : UInt32 := 0
  edi : UInt32 := 0
  ebp : UInt32 := 0
  esp : UInt32 := 0
  eip : UInt32 := 0
  eflags : UInt32 := 0
  cr3 : UInt32 := 0
  deriving DecidableEq, Inhabited

namespace Context

/-- The flags that a new process starts with: interrupts are enabled, and bit 1 is always set. -/
def initialFlags : UInt32 := 0x202

/-- A context that starts to execute at `eip` on a fresh stack.  The frame pointer starts where the
stack pointer does, and the general registers are zero. -/
def forEntry (eip esp eflags cr3 : UInt32) : Context :=
  { esp, ebp := esp, eip, eflags, cr3 }

/-- The registers with their names, in the order in which they are saved. -/
def registers (c : Context) : List (String × UInt32) :=
  [("eax", c.eax), ("ebx", c.ebx), ("ecx", c.ecx), ("edx", c.edx), ("esi", c.esi), ("edi", c.edi),
    ("ebp", c.ebp), ("esp", c.esp), ("eip", c.eip), ("eflags", c.eflags), ("cr3", c.cr3)]

/-- The context whose registers, in the order in which they are saved, are the given words.  Words that
are missing are zero, and words beyond the last register are ignored. -/
def ofRegisters (words : List UInt32) : Context where
  eax := words.getD 0 0
  ebx := words.getD 1 0
  ecx := words.getD 2 0
  edx := words.getD 3 0
  esi := words.getD 4 0
  edi := words.getD 5 0
  ebp := words.getD 6 0
  esp := words.getD 7 0
  eip := words.getD 8 0
  eflags := words.getD 9 0
  cr3 := words.getD 10 0

theorem ofRegisters_registers (c : Context) : ofRegisters (c.registers.map Prod.snd) = c := rfl

/-- Every register with its name, as a record.  All of them are written as full words. -/
def describe (c : Context) : String :=
  "Context \x7b " ++ ", ".intercalate (c.registers.map fun (name, word) =>
    name ++ ": " ++ Text.hexWord word) ++ " \x7d"

end Context

end TinyKernel
