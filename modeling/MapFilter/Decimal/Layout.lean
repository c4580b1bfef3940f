import MapFilter.Decimal.Shortest

/-!
# Writing decimals

A decimal number is written with a point, or in scientific form if it is very large or very small.
-/

namespace MapFilter

/-- How decimal numbers are written: the exponents from `least` to `greatest` with a point only,
the others with an exponent of at least `exponentDigits` digits. -/
structure Layout where
  least : Int
  greatest : Int
  exponentDigits : Nat
deriving DecidableEq, Repr

namespace Layout

def zeros (n : Nat) : List Char := List.replicate n '0'

/-- A row of digits with a point after the first `n` of them, and a digit on either side of it. -/
def withPoint (ds : List Char) (n : Int) : List Char :=
  if n ≤ 0 then '0' :: '.' :: (zeros (-n).toNat ++ ds)
  else if ds.length ≤ n.toNat then ds ++ zeros (n.toNat - ds.length) ++ ['.', '0']
  else ds.take n.toNat ++ '.' :: ds.drop n.toNat

/-- One digit, the others after a point, and the exponent with its sign. -/
def scientific (l : Layout) (ds : List Char) (exponent : Int) : List Char :=
  let e := Nat.toDigits 10 exponent.natAbs
  let mantissa :=
    match ds with
    | d :: e :: rest => d :: '.' :: e :: rest
    | ds => ds
  mantissa ++ 'e' :: (if exponent < 0 then '-' else '+') :: (zeros (l.exponentDigits - e.length) ++ e)

/-- The digits of a number without zeros at the end. -/
def significant (n : Nat) : List Char :=
  ((Nat.toDigits 10 n).reverse.dropWhile (· == '0')).reverse

def write (l : Layout) (d : Decimal) : String :=
  if d.digits = 0 then "0.0"
  else
    let ds := significant d.digits
    let point := (Nat.toDigits 10 d.digits).length + d.exponent
    .ofList <|
      if l.least ≤ point - 1 && point - 1 ≤ l.greatest then withPoint ds point
      else l.scientific ds (point - 1)

end Layout

/-- Exponents from -4 to 15 are written out. -/
def Binary.layout : Layout := ⟨-4, 15, 2⟩

/-- A number as text. -/
def Binary.display : Binary → String
  | .finite u => if u = 0 then "0.0" else layout.write (Shortest.decimal u)
  | .infinite => "inf"

end MapFilter
