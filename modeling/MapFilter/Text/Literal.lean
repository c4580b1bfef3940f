import MapFilter.Text.Hex

/-!
# Literals

Values are printed as literals. A text stands between apostrophes, or between quotes if it holds
apostrophes but no quotes. Values in parentheses are separated by commas, and a single one keeps its
comma. Which characters are printed as they are is left open.
-/

namespace MapFilter

namespace Literal

/-- The sign on either side of a text. -/
def quoteFor (cs : List Char) : Char :=
  if cs.contains '\x27' && !cs.contains '"' then '"' else '\x27'

/-- The code point of a character that cannot be printed. -/
def codePoint (n : Nat) : List Char :=
  if n < 0x100 then '\\' :: 'x' :: Hex.digits 2 n
  else if n < 0x10000 then '\\' :: 'u' :: Hex.digits 4 n
  else '\\' :: 'U' :: Hex.digits 8 n

/-- A character of a text between signs `quote`. -/
def char (printable : Char → Bool) (quote c : Char) : List Char :=
  if c = quote || c = '\\' then ['\\', c]
  else if c = '\n' then ['\\', 'n']
  else if c = '\r' then ['\\', 'r']
  else if c = '\t' then ['\\', 't']
  else if printable c then [c]
  else codePoint c.toNat

def text (printable : Char → Bool) (s : String) : String :=
  let quote := quoteFor s.toList
  .ofList (quote :: (s.toList.flatMap (char printable quote) ++ [quote]))

/-- Several literals as one. -/
def tuple : List String → String
  | [s] => "(" ++ s ++ ",)"
  | ss => "(" ++ String.intercalate ", " ss ++ ")"

end Literal

end MapFilter
