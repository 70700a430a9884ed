import TinyKernel.Demo

/-!
# The command

Runs the demonstration and prints what it says.
-/

/-- Prints the demonstration and returns its exit code. -/
def main : IO UInt32 := do
  let (code, text) := TinyKernel.Demo.outcome .detached
  IO.print text
  pure code
