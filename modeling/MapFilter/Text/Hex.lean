/-!
# Hexadecimal digits
-/

namespace MapFilter

namespace Hex

/-- The digit of a number below sixteen; letters are lower-case. -/
def digit (n : Nat) : Char :=
  if n < 10 then Char.ofNat ('0'.toNat + n) else Char.ofNat ('a'.toNat + (n - 10))

/-- The last `width` digits of a number. -/
def digits : Nat → Nat → List Char
  | 0, _ => []
  | width + 1, n => digits width (n / 16) ++ [digit (n % 16)]

end Hex

end MapFilter
