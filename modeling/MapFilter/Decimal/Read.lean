import MapFilter.Decimal.Binary

/-!
# Reading numbers

Numbers are written with the digits `0` to `9`, decimal ones also with a point and an exponent.
-/

namespace MapFilter

namespace Decimal

def digitValue (c : Char) : Nat := c.toNat - '0'.toNat

/-- The number that a row of digits stands for. -/
def ofDigits (cs : List Char) : Nat := cs.foldl (fun n c => 10 * n + digitValue c) 0

/-- Reads digits, an optional point with more digits, and an optional exponent after `e`. -/
def read (cs : List Char) : Binary :=
  let whole := cs.takeWhile Char.isDigit
  let rest := cs.dropWhile Char.isDigit
  let fraction :=
    match rest with
    | '.' :: r => r.takeWhile Char.isDigit
    | _ => []
  let exponent := (cs.dropWhile fun c => c != 'e' && c != 'E').drop 1
  .ofDecimal (ofDigits (whole ++ fraction)) (ofDigits exponent - fraction.length)

end Decimal

end MapFilter
