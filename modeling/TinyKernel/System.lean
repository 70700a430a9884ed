import TinyKernel.Kernel.Syscall

/-!
# The system

Code that cannot be handed a kernel finds it in the system: at most one kernel, which is there from
the first boot on.
-/

namespace TinyKernel

/-- **The system**: the kernel, once it is booted.  There is at most one kernel, and everything that is
called before it is booted is a fault. -/
structure System (ε : Type) where
  kernel? : Option (Kernel ε)

namespace System

variable {ε : Type}

/-- The system before the first boot. -/
def off : System ε := ⟨none⟩

/-- **Boots the kernel** and attaches its logger.  Later boots leave the kernel as it is, whatever
machine and layout they are given. -/
def boot (s : System ε) (machine : Machine) (config : BootConfig) : Run (System ε) := do
  let _ ← Run.attachLogger
  match s.kernel? with
  | some k => pure ⟨some k⟩
  | none =>
    let k ← Kernel.boot machine config
    pure ⟨some k⟩

/-- The booted kernel.  To use it before it is booted is a fault. -/
def kernel (s : System ε) : Checked (Kernel ε) :=
  match s.kernel? with
  | some k => pure k
  | none => throw .notBooted

end System

end TinyKernel
