import MapFilter.Decimal.Read
import MapFilter.Node
import MapFilter.Sql.Failure

/-!
# The text of a range

A range is handed on as the text between its parentheses. Its bounds are what stands on either side
of the two dots; a bound that is left out has no text.
-/

namespace MapFilter

def isBlank (c : Char) : Bool := c == ' ' || c == '\t' || c == '\r' || c == '\n'

/-- Text without white space at its ends. -/
def trim (cs : List Char) : List Char :=
  ((cs.dropWhile isBlank).reverse.dropWhile isBlank).reverse

/-- The text between the parentheses of a range. -/
def Range.inner (r : Range) (g : Grain) : String :=
  .ofList (trim ((trim (r.node g).text.toList).drop 1).dropLast)

namespace Bounds

/-- The parts of a text between pairs of dots. -/
def splitDots : List Char → List (List Char)
  | '.' :: '.' :: cs => [] :: splitDots cs
  | c :: cs =>
    match splitDots cs with
    | part :: parts => (c :: part) :: parts
    | [] => [[c]]
  | [] => [[]]

/-- Reads a whole number, unless it has too many digits. -/
def readWhole (cs : List Char) : Except Failure Nat :=
  if cs.length ≤ Failure.digitLimit then .ok (Decimal.ofDigits cs)
  else .error (.tooManyDigits cs.length)

def readNumber (g : Grain) (cs : List Char) : Except Failure Number :=
  match g with
  | .whole => .whole <$> readWhole cs
  | .decimal => .ok (.decimal (Decimal.read cs))

/-- Reads a bound, if there is one. -/
def readBound (g : Grain) (cs : List Char) : Except Failure (Option Number) :=
  if cs.isEmpty then .ok none else some <$> readNumber g (trim cs)

/-- The lower and the upper bound in the text of a range. -/
def read (g : Grain) (s : String) : Except Failure (Option Number × Option Number) := do
  match splitDots s.toList with
  | [lower, upper] => do
    let lower ← readBound g lower
    let upper ← readBound g upper
    pure (lower, upper)
  | parts => do
    let _ ← parts.mapM (readBound g)
    throw (.brokenPair parts.length)

end Bounds

end MapFilter
