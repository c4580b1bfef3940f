import MapFilter.Text.Hex

/-!
# JSON text

Strings are written with the printable characters of ASCII only: all others are written as one or
two 16-bit units, unless they have a short form.
-/

namespace MapFilter

namespace Json

def unit (n : Nat) : List Char := '\\' :: 'u' :: Hex.digits 4 n

/-- A character in a string. -/
def char (c : Char) : List Char :=
  if c = '"' then ['\\', '"']
  else if c = '\\' then ['\\', '\\']
  else if c = '\n' then ['\\', 'n']
  else if c = '\r' then ['\\', 'r']
  else if c = '\t' then ['\\', 't']
  else if c.toNat = 8 then ['\\', 'b']
  else if c.toNat = 12 then ['\\', 'f']
  else if c.toNat < 32 then unit c.toNat
  else if c.toNat < 127 then [c]
  else if c.toNat < 0x10000 then unit c.toNat
  else
    let n := c.toNat - 0x10000
    unit (0xd800 + n / 1024) ++ unit (0xdc00 + n % 1024)

def string (s : String) : List Char := '"' :: (s.toList.flatMap char ++ ['"'])

/-- An object with one member. -/
def member (key value : String) : String :=
  .ofList ('\x7b' :: (string key ++ ':' :: ' ' :: (string value ++ ['\x7d'])))

end Json

end MapFilter
