/-!
# Numbers with 53 binary digits

Measures are kept as floating-point numbers of 64 bits. None of them is negative, so each is a
number of units of 2⁻¹⁰⁷⁴, the least one, or lies beyond all that can be written. Comparing them is
then comparing naturals.
-/

namespace MapFilter

/-- A number of units of 2⁻¹⁰⁷⁴, or one that is too large. -/
inductive Binary where
  | finite (units : Nat)
  | infinite
deriving DecidableEq, Repr

namespace Binary

/-- The number of units in one. -/
def one : Nat := Nat.pow 2 1074

/-- Numbers from 2¹⁰²⁴ on are too large. -/
def limit : Nat := Nat.pow 2 1024 * one

/-- The distance between neighbours round a number of units: 53 binary digits are kept. -/
def spacing (units : Nat) : Nat := Nat.pow 2 (units.log2 - 52)

def isZero : Binary → Bool
  | .finite u => u == 0
  | .infinite => false

def lt : Binary → Binary → Bool
  | .finite u, .finite v => u < v
  | .finite _, .infinite => true
  | .infinite, _ => false

/-- The natural nearest to a quotient; a half goes to the even neighbour. -/
def roundDiv (num den : Nat) : Nat :=
  let q := num / den
  let twice := 2 * (num % den)
  if twice < den then q else if den < twice then q + 1 else q + q % 2

/-- The number nearest to a quotient. -/
def ofRatio (num den : Nat) : Binary :=
  let gap := spacing (num * one / den)
  let units := roundDiv (num * one) (den * gap) * gap
  if units < limit then .finite units else .infinite

/-- The number nearest to `digits · 10 ^ exponent`. -/
def ofDecimal (digits : Nat) (exponent : Int) : Binary :=
  if digits = 0 then .finite 0
  else if 400 < exponent then .infinite
  else if 0 ≤ exponent then ofRatio (digits * Nat.pow 10 exponent.toNat) 1
  else ofRatio digits (Nat.pow 10 (-exponent).toNat)

end Binary

end MapFilter
