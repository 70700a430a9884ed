import TinyKernel.BootConfig
import TinyKernel.Heap.Error
import TinyKernel.Process.Basic

/-!
# Faults

An operation that is refused says so in its result, and the system goes on.  A *fault* is different:
it stops the system.  Arithmetic that leaves its word, an access outside a table, a broken
assertion, a chain of links that never ends and a boot that cannot succeed are faults.

## What is load-bearing

Faults are outcomes of their own and not default values.  So "this operation never faults" is a
statement about the code, which its arithmetic and its bounds have to earn; the same holds for "this
loop ends", because a walk that revisits a link ends in `Fault.endlessChain`.

* `Fault` — the causes, with their wording in `Fault.message`
* `Checked` — a computation that may fault and prints nothing
* `Checked.add64`, `Checked.sub64`, `Checked.add32`, … — arithmetic that faults instead of wrapping
-/

namespace TinyKernel

/-- The arithmetic operations that can leave their word.  Nothing wraps round silently: a result that
does not fit is a fault that names the operation. -/
inductive Arithmetic where
  | add
  | subtract
  | multiply
  deriving DecidableEq

/-- The name of an operation in messages about overflow. -/
def Arithmetic.text : Arithmetic → String
  | add => "add"
  | subtract => "subtract"
  | multiply => "multiply"

/-- **Why the system stops.**  A fault ends everything that goes on, unlike an error, which is an
answer.  Most of the theorems about the kernel say which faults are left; all that a running kernel can
still meet is that a counter runs out. -/
inductive Fault where
  /-- A result does not fit its word.  The word is that of the operation at hand, of 32 or of 64
  bits. -/
  | overflow (operation : Arithmetic)
  /-- A frame outside tracked memory was marked.  The allocator checks the number of a frame first, and
  so this is unreachable through it. -/
  | untrackedFrame (frame : Nat)
  /-- A word outside the frame bitmap was read.  The scan for a free frame stays inside, whatever its
  bounds (`FrameBitmap.findClear_isLeast`). -/
  | outsideBitmap (word : Nat)
  /-- A block header outside the heap was accessed.  Headers are read and written where links point to,
  and this is what a broken link would end in. -/
  | outsideHeap (offset : Nat)
  /-- A chain of links does not end.  Walks along the free list and along the blocks carry fuel, and
  this is what is left when the fuel is used up before the chain. -/
  | endlessChain
  /-- A process that is to become runnable is not in the state `new`.  This happens if a reservation is
  killed before it is activated. -/
  | notNew (state : ProcessState)
  /-- The ready queue has no place left.  It has one for each slot, and so some slot would have to be
  queued twice for this. -/
  | readyQueueFull
  | invalidConfig (cause : ConfigError)
  | noKernelDirectory (cause : MapError)
  /-- The machine has no memory for the range of the kernel heap. -/
  | noHeapWindow
  | noKernelHeap (cause : HeapError)
  /-- The processor was halted. -/
  | halted
  /-- The kernel was used before it was booted. -/
  | notBooted
  deriving DecidableEq

/-- The wording of a fault, as it stands in the output of a system that stops.  Where a fault passes on
an error of booting, the wording of that error is part of it. -/
def Fault.message : Fault → String
  | overflow operation => "attempt to " ++ operation.text ++ " with overflow"
  | untrackedFrame frame => "frame " ++ toString frame ++ " is not tracked"
  | outsideBitmap word => "word " ++ toString word ++ " is outside the frame bitmap"
  | outsideHeap offset => "block header at " ++ Text.hex offset ++ " is outside the heap"
  | endlessChain => "chain of blocks does not end"
  | notNew state =>
    "assertion `left == right` failed\n  left: " ++ state.text ++ "\n right: "
      ++ ProcessState.new.text
  | readyQueueFull =>
    "called `Result::unwrap()` on an `Err` value: CapacityError: insufficient capacity"
  | invalidConfig cause => "Invalid boot configuration: " ++ cause.message
  | noKernelDirectory cause => "Failed to build kernel page directory: " ++ cause.message
  | noHeapWindow => "No window for the kernel heap"
  | noKernelHeap cause => "Failed to initialize heap: " ++ cause.message
  | halted => "hosted CPU halted"
  | notBooted => "kernel not booted"

/-- A computation that may fault and prints nothing.  It is a plain `Except`, so that two of them can
be compared, and run by `decide`. -/
abbrev Checked (α : Type) := Except Fault α

namespace Checked

/-- The sum of two sizes, which has to fit 64 bits.  Sizes are natural numbers here, and the bound is
that of the word that holds them. -/
def add64 (a b : Nat) : Checked Nat :=
  if a + b < 0x1_0000_0000_0000_0000 then .ok (a + b) else .error (.overflow .add)

/-- The difference of two sizes, which has to be one: a smaller size minus a larger one is a fault and
not zero. -/
def sub64 (a b : Nat) : Checked Nat :=
  if b ≤ a then .ok (a - b) else .error (.overflow .subtract)

/-- The sum of two words, which has to fit 32 bits.  The sum of the numbers decides, and so the
addition of the words never wraps round where it is made. -/
def add32 (a b : UInt32) : Checked UInt32 :=
  if a.toNat + b.toNat < 0x1_0000_0000 then .ok (a + b) else .error (.overflow .add)

/-- The difference of two words, which has to be one: a smaller word minus a larger one is a fault. -/
def sub32 (a b : UInt32) : Checked UInt32 :=
  if b ≤ a then .ok (a - b) else .error (.overflow .subtract)

/-- **Rounding up.**  The next multiple of `align` for a power of two.  For any other `align` this is
what the bit pattern gives: the bits of `align - 1` are cleared from `value + align - 1`.  The sum is
made before one is taken away, and so a value close to the end of its word faults although the result
would fit. -/
def alignUp (value align : Nat) : Checked Nat := do
  let sum ← add64 value align
  let last ← sub64 sum 1
  let low ← sub64 align 1
  pure (last &&& (0xFFFF_FFFF_FFFF_FFFF - low))

section

variable {α β : Type}

@[simp]
theorem ok_bind (a : α) (f : α → Checked β) : ((.ok a : Checked α) >>= f) = f a := rfl

@[simp]
theorem error_bind (e : Fault) (f : α → Checked β) :
    ((.error e : Checked α) >>= f) = .error e := rfl

/-- A first part that succeeds hands its value on.  This is the rule by which the arithmetic in an
operation is stepped over once its bounds are known. -/
theorem bind_of_ok {x : Checked α} {a : α} (h : x = .ok a) (f : α → Checked β) :
    (x >>= f) = f a := by
  rw [h]
  rfl

end

theorem add64_of_lt {a b : Nat} (h : a + b < 0x1_0000_0000_0000_0000) : add64 a b = .ok (a + b) :=
  if_pos h

theorem sub64_of_le {a b : Nat} (h : b ≤ a) : sub64 a b = .ok (a - b) := if_pos h

theorem add32_of_lt {a b : UInt32} (h : a.toNat + b.toNat < 0x1_0000_0000) :
    add32 a b = .ok (a + b) := if_pos h

theorem sub32_of_le {a b : UInt32} (h : b ≤ a) : sub32 a b = .ok (a - b) := if_pos h

end Checked

namespace Frame

/-- The frame with a given number.  A frame whose first address would not fit 32 bits is a fault, since
that address is a product of words. -/
def ofNumber (n : UInt32) : Checked Frame :=
  if h : n.toNat < addressableFrames then .ok ⟨n, h⟩ else .error (.overflow .multiply)

theorem ofNumber_of_lt {n : UInt32} (h : n.toNat < addressableFrames) :
    ofNumber n = .ok ⟨n, h⟩ := dif_pos h

end Frame

end TinyKernel
