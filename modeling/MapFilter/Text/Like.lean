/-!
# Patterns of `LIKE`

In a pattern the signs `%` and `_` stand for other text, so they are escaped where they stand for
themselves. An apostrophe is doubled.
-/

namespace MapFilter

namespace Like

def apostrophe (c : Char) : List Char := if c = '\x27' then ['\x27', '\x27'] else [c]

def literal (c : Char) : List Char :=
  if c = '%' || c = '_' then ['\\', c] else apostrophe c

/-- A tag key beside a pattern. -/
def key (s : String) : String := .ofList (s.toList.flatMap apostrophe)

/-- The pattern for a text, with any other text before or after it. -/
def pattern (leading : Bool) (s : String) (trailing : Bool) : String :=
  .ofList ((if leading then ['%'] else []) ++ s.toList.flatMap literal ++
    (if trailing then ['%'] else []))

end Like

end MapFilter
