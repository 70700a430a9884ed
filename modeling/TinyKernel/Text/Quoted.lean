import TinyKernel.Text.Formless

/-!
# Quoted text

Text between double quotes, as it is shown in a record.  The quote and the backslash are written
behind a backslash, and so are line ends, tabs and the zero character, each by a letter of its own.
Other characters that cannot be shown by themselves are written by number.
-/

namespace TinyKernel.Text

/-- A character as it stands in quoted text.  The six that have an escape of their own come first, and
those without a form are written by number. -/
def quotedChar (c : Char) : String :=
  if c = '"' then "\\\""
  else if c = '\\' then "\\\\"
  else if c = '\n' then "\\n"
  else if c = '\r' then "\\r"
  else if c = '\t' then "\\t"
  else if c.toNat = 0 then "\\0"
  else if isFormless c then "\\u\x7b" ++ String.ofList (Nat.toDigits 16 c.toNat) ++ "\x7d"
  else c.toString

/-- **Quoted text**: the characters between double quotes, with those escaped that would end the text
or could not be seen. -/
def quoted (s : String) : String := "\"" ++ String.join (s.toList.map quotedChar) ++ "\""

example : quoted "é 'a' \"b\"\n" = "\"é 'a' \\\"b\\\"\\n\"" := by decide +kernel

end TinyKernel.Text
