import MapFilter.Token

/-!
# What a parser complains about

A complaint names the token at fault and, unless no alternative was left at all, the kinds of token
that would have been right.
-/

namespace MapFilter

/-- A set of kinds of token. -/
abbrev KindSet := Kind → Bool

namespace KindSet

def only (k : Kind) : KindSet := fun k' => k' == k

def ofList (ks : List Kind) : KindSet := fun k => ks.contains k

def union (s t : KindSet) : KindSet := fun k => s k || t k

/-- The members of a set in the order in which kinds are listed. -/
def toList (s : KindSet) : List Kind := Kind.all.filter s

end KindSet

inductive Complaint where
  | extraneous (found : Token) (expected : List Kind)
  | missing (found : Token) (expected : List Kind)
  | mismatched (found : Token) (expected : List Kind)
  | noAlternative (found : Token) (read : String)
deriving DecidableEq, Repr

namespace Complaint

/-- One kind stands for itself, several are put in braces. -/
def expectation (ks : List Kind) : String :=
  match ks.map Kind.display with
  | [s] => s
  | ss => "\x7b" ++ String.intercalate ", " ss ++ "\x7d"

def inQuotes (s : String) : String := "'" ++ visible s ++ "'"

def message : Complaint → String
  | .extraneous t ks =>
    t.place.message ("extraneous input " ++ inQuotes t.text ++ " expecting " ++ expectation ks)
  | .missing t ks =>
    t.place.message ("missing " ++ expectation ks ++ " at " ++ inQuotes t.text)
  | .mismatched t ks =>
    t.place.message ("mismatched input " ++ inQuotes t.text ++ " expecting " ++ expectation ks)
  | .noAlternative t s =>
    t.place.message ("no viable alternative at input " ++ inQuotes s)

end Complaint

end MapFilter
