import MapFilter.Sql.Argument

/-!
# Failures of a compilation

A filter that can be parsed may still have no query.
-/

namespace MapFilter

inductive Failure where
  /-- A condition was needed and none was left. -/
  | emptyStack
  /-- A token without characters. -/
  | emptyText
  /-- The text of a range or of an object has this many parts instead of two. -/
  | brokenPair (parts : Nat)
  /-- A range that ends before it begins. -/
  | swappedBounds (lower upper : Number)
  /-- A whole number of this many digits. -/
  | tooManyDigits (count : Nat)
  /-- A placeholder whose number has too many digits. -/
  | longPlaceholder
  /-- A filter that has no condition in SQL. -/
  | unsupported
deriving DecidableEq, Repr

namespace Failure

/-- The most digits that a whole number can have, where one is read and where one is written. -/
def digitLimit : Nat := 4300

def message : Failure → String
  | .emptyStack => "pop from an empty deque"
  | .emptyText => "string index out of range"
  | .brokenPair parts =>
    if parts < 2 then "not enough values to unpack (expected 2, got " ++ toString parts ++ ")"
    else "too many values to unpack (expected 2)"
  | .swappedBounds lower upper =>
    "Upper bound is smaller the then lower bound. Try swapping bounds: (" ++
      upper.display ++ ".." ++ lower.display ++ ")"
  | .tooManyDigits count =>
    "Exceeds the limit (" ++ toString digitLimit ++
      " digits) for integer string conversion: value has " ++ toString count ++
      " digits; use sys.set_int_max_str_digits() to increase the limit"
  | .longPlaceholder =>
    "Exceeds the limit (" ++ toString digitLimit ++
      " digits) for integer string conversion; use sys.set_int_max_str_digits() to increase the limit"
  | .unsupported => ""

end Failure

end MapFilter
