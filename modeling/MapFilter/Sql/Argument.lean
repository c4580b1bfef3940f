import MapFilter.Decimal.Layout
import MapFilter.Text.Literal

/-!
# Query arguments

What a filter compares with is not part of the query text. It is passed beside it, as an argument
that the text refers to by number.
-/

namespace MapFilter

/-- A number in a filter: one that counts or one that measures. -/
inductive Number where
  | whole (n : Nat)
  | decimal (x : Binary)
deriving DecidableEq, Repr

namespace Number

def isZero : Number → Bool
  | .whole n => n == 0
  | .decimal x => x.isZero

/-- Numbers of one sort are compared; a range never mixes them. -/
def lt : Number → Number → Bool
  | .whole m, .whole n => m < n
  | .decimal x, .decimal y => x.lt y
  | _, _ => false

def display : Number → String
  | .whole n => toString n
  | .decimal x => x.display

end Number

inductive Argument where
  | text (s : String)
  | number (n : Number)
  | texts (ss : List String)
  | numbers (ns : List Nat)
deriving DecidableEq, Repr

def Argument.literal (printable : Char → Bool) : Argument → String
  | .text s => Literal.text printable s
  | .number n => n.display
  | .texts ss => Literal.tuple (ss.map (Literal.text printable))
  | .numbers ns => Literal.tuple (ns.map toString)

end MapFilter
