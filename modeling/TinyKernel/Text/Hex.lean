/-!
# Hexadecimal text

Addresses and sizes appear in messages in two forms.  A *plain* number has as many digits as it
needs; an *address* always has eight, so that a column of addresses lines up.

* `hex` — the plain form, `0x2a`
* `hexWord` — the eight digit form, `0x0000002a`
-/

namespace TinyKernel.Text

/-- **Plain hexadecimal**: `0x` followed by the lower case digits, without leading zeros. -/
def hex (n : Nat) : String :=
  "0x" ++ String.ofList (Nat.toDigits 16 n)

/-- **Word hexadecimal**: `0x` followed by exactly eight lower case digits. -/
def hexWord (w : UInt32) : String :=
  let digits := Nat.toDigits 16 w.toNat
  "0x" ++ String.ofList (List.replicate (8 - digits.length) '0' ++ digits)

example : hex 0 = "0x0" := by decide +kernel
example : hex 0x400000 = "0x400000" := by decide +kernel
example : hexWord 0x2a = "0x0000002a" := by decide +kernel
example : hexWord 0xffffffff = "0xffffffff" := by decide +kernel

end TinyKernel.Text
