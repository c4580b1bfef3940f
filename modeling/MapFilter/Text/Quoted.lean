/-!
# Quoted texts

Between quotes, a backslash keeps a character from its usual meaning. The pairs of a backslash and
another character are replaced one kind after the other.
-/

namespace MapFilter

namespace Quoted

/-- Replaces the characters `a` and `b`, where they stand together, by `b`. -/
def replacePair (a b : Char) : List Char → List Char
  | c :: d :: rest =>
    if c = a && d = b then b :: replacePair a b rest else c :: replacePair a b (d :: rest)
  | cs => cs

/-- The text that stands between quotes. -/
def unescaped (cs : List Char) : List Char :=
  replacePair '\\' '\n' <| replacePair '\\' '\r' <| replacePair '\\' '\\' <| replacePair '\\' '"' cs

/-- The text that a token stands for: without its quotes, if it has any. Of no characters at all it
cannot be said whether they begin with a quote. -/
def unescape? (s : String) : Option String :=
  match s.toList with
  | [] => none
  | c :: cs => some (if c = '"' then .ofList (unescaped cs.dropLast) else s)

end Quoted

end MapFilter
