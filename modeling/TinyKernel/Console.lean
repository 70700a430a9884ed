import TinyKernel.Fault

/-!
# The console

Everything the system says goes to one console.  Log records carry a level and are printed as one
line each, `[LEVEL] message`, if the console shows that level; text that is printed directly is
never filtered.

* `Console` — the text so far, and the level up to which records are shown
* `Run` — a computation that may print on the console and may fault; what was printed before a fault
  stays printed
-/

namespace TinyKernel

/-- How serious a log record is, the most serious first.  The console shows the records up to a level
that can be changed while it runs. -/
inductive Level where
  | error
  | warn
  | info
  | debug
  | trace
  deriving DecidableEq

namespace Level

/-- The name of a level, as it stands in brackets before a record. -/
def text : Level → String
  | error => "ERROR"
  | warn => "WARN"
  | info => "INFO"
  | debug => "DEBUG"
  | trace => "TRACE"

/-- The place of a level, the most serious first.  Ranks are compared, and the constructors are not, so
that the order does not hang on how they are listed. -/
def rank : Level → Nat
  | error => 1
  | warn => 2
  | info => 3
  | debug => 4
  | trace => 5

end Level

/-- **The console.**  Until the kernel's logger is attached, `maxLevel` is `none` and no record is
shown.  What is printed, on the other hand, is always kept, so that the whole output of a run can be
read off its last console. -/
structure Console where
  /-- The last level that is shown; `none` shows no record. -/
  maxLevel : Option Level
  /-- Whether a logger is attached.  It is said apart from the level, since a console may be attached
  to somebody else's logger that shows nothing. -/
  attached : Bool
  text : String
  deriving Inhabited

namespace Console

/-- A console that nothing is attached to.  Records are lost on it, and printed text is not. -/
def detached : Console := ⟨none, false, ""⟩

/-- A console with a logger attached, which shows the records up to a level. -/
def upTo (maxLevel : Option Level) : Console := ⟨maxLevel, true, ""⟩

/-- Whether records of a level are shown.  None is as long as there is no last level, and otherwise
those are that are as serious as the last level or more so. -/
def enabled (c : Console) (level : Level) : Bool :=
  match c.maxLevel with
  | none => false
  | some last => level.rank ≤ last.rank

/-- Prints text as it is, at the end of what was printed before. -/
def print (c : Console) (text : String) : Console := { c with text := c.text ++ text }

/-- Prints a record as one line, if its level is shown.  A record that is not shown leaves no trace,
and so what is proved about an operation never depends on its log. -/
def log (c : Console) (level : Level) (message : String) : Console :=
  if c.enabled level then c.print ("[" ++ level.text ++ "] " ++ message ++ "\n") else c

/-- **Attaches the kernel's logger**, which shows everything up to `debug`.  A logger that is attached
already stays in place; the answer says whether the kernel's was attached.  Attaching twice is
therefore the same as attaching once. -/
def attach (c : Console) : Bool × Console :=
  if c.attached then (false, c) else (true, { c with attached := true, maxLevel := some .debug })

end Console

/-- A computation that may print on the console and may fault.  The console that it has printed on so
far survives a fault, and so the output of a run that stops is known as well. -/
abbrev Run := EStateM Fault Console

namespace Run

/-- Prints text as it is.  This is what entries of processes do, and it never faults. -/
def print (text : String) : Run Unit := modify fun c => c.print text

/-- Prints a line: the text, and a line break behind it. -/
def printLine (text : String) : Run Unit := print (text ++ "\n")

/-- Leaves a log record on the console, if the console shows records of that level. -/
def log (level : Level) (message : String) : Run Unit := modify fun c => c.log level message

/-- Attaches the kernel's logger, unless there is one.  The answer says whether it was attached. -/
def attachLogger : Run Bool := modifyGet Console.attach

/-- A computation that prints nothing, as one that may print.  Arithmetic and the walks through memory
are written as `Checked`, and are lifted where an operation also has something to say. -/
def ofChecked {α : Type} : Checked α → Run α
  | .ok a => pure a
  | .error e => throw e

instance : MonadLift Checked Run := ⟨ofChecked⟩

/-! ## Running

A run ends in a value or in a fault, and in either case leaves a console behind. -/

variable {α β : Type}

@[simp]
theorem run_pure (a : α) (c : Console) : (pure a : Run α).run c = .ok a c := rfl

@[simp]
theorem run_throw (e : Fault) (c : Console) : (throw e : Run α).run c = .error e c := rfl

@[simp]
theorem run_log (level : Level) (message : String) (c : Console) :
    (Run.log level message).run c = .ok () (c.log level message) := rfl

@[simp]
theorem run_print (text : String) (c : Console) :
    (Run.print text).run c = .ok () (c.print text) := rfl

/-- A run of two parts goes through if both do, the second one on the console that the first one
leaves.  A fault of the first part is the fault of the whole. -/
theorem run_bind_eq_ok {x : Run α} {f : α → Run β} {c c' : Console} {b : β} :
    (x >>= f).run c = .ok b c' ↔ ∃ a c₁, x.run c = .ok a c₁ ∧ (f a).run c₁ = .ok b c' := by
  simp only [EStateM.run, bind, EStateM.bind]
  cases x c with
  | ok a c₁ =>
    refine ⟨fun h => ⟨a, c₁, rfl, h⟩, fun ⟨a', c', h, h'⟩ => ?_⟩
    injection h with ha hc
    rw [ha, hc]
    exact h'
  | error e c₁ => simp

theorem run_bind_of_ok {x : Run α} {f : α → Run β} {c c' : Console} {a : α}
    (h : x.run c = .ok a c') : (x >>= f).run c = (f a).run c' := by
  simp only [EStateM.run, bind, EStateM.bind] at *
  rw [h]

@[simp]
theorem lift_ok (a : α) : (liftM (.ok a : Checked α) : Run α) = pure a := rfl

@[simp]
theorem lift_error (e : Fault) : (liftM (.error e : Checked α) : Run α) = throw e := rfl

/-- A computation that prints nothing leaves the console as it is, and its answer is the same from
every console. -/
theorem run_lift_eq_ok {x : Checked α} {c c' : Console} {a : α} :
    (liftM x : Run α).run c = .ok a c' ↔ x = .ok a ∧ c = c' := by
  cases x with
  | ok b => simp
  | error e => simp

end Run

end TinyKernel
