import TinyKernel.Kernel.Processes

/-!
# System calls

A process calls the kernel with a number and one argument, and gets one number back.
-/

namespace TinyKernel

/-- **The system calls**, by what they do.  A program names them by number, and a number that names
none is answered with an error.  All of them are about the running process, so that none takes a
pid. -/
inductive Syscall where
  | exit
  | getPid
  | yield
  deriving DecidableEq

namespace Syscall

/-- The call with a number, if it is one.  The numbers start at 1. -/
def ofNumber? (number : UInt32) : Option Syscall :=
  if number = 1 then some exit
  else if number = 2 then some getPid
  else if number = 3 then some yield
  else none

/-- The answer to a number that is no system call.  It is negative, as all refusals are. -/
def unknownNumber : Int32 := -38

end Syscall

/-- **Runs a system call** for the running process.  Only `exit` looks at the argument.  An exit that
is refused is answered by -1, and an unknown number by -38; neither changes the kernel. -/
def Kernel.syscall {ε : Type} (number arg : UInt32) (k : Kernel ε) : Run (Int32 × Kernel ε) := do
  match Syscall.ofNumber? number with
  | none =>
    Run.log .warn ("unknown syscall " ++ toString number.toNat)
    pure (Syscall.unknownNumber, k)
  | some .exit =>
    match ← k.exit arg.toInt32 with
    | (.ok (), k) => pure (0, k)
    | (.error e, k) =>
      Run.log .warn ("exit(" ++ toString arg.toInt32.toInt ++ ") from pid " ++ k.currentPid.text
        ++ ": " ++ e.message)
      pure (-1, k)
  | some .getPid => pure (k.currentPid.val.toInt32, k)
  | some .yield =>
    let ((), k) ← k.yield
    pure (0, k)

end TinyKernel
