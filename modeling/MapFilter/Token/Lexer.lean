import MapFilter.Regex
import MapFilter.Token

/-!
# Reading tokens

The token at the front of a text is the longest one that any rule matches, and of several rules
that match it the one listed first names its kind. `scan` reads a whole text; it stops at the
first place where no token begins, and then says which characters could not be read.
-/

namespace MapFilter

namespace Spelling

def digit : Regex := .one Char.isDigit

def digits : Regex := .some digit

def objectType : Regex := .any [.word "node", .word "way", .word "relation"]

def objectId : Regex := .seq objectType (.seq (.char '/') digits)

def geometryType : Regex :=
  .any [.word "point", .word "line", .word "polygon", .word "collection"]

def decimal : Regex :=
  .seq digits (.seq (.maybe (.seq (.char '.') digits)) (.maybe (.seq (.oneOf ['E', 'e']) digits)))

def word : Regex := .some (.one fun c => c.isAlphanum || c == '-' || c == '_')

/-- A character between quotes: a backslash stands only before one of four characters, and a line
does not end inside. -/
def quotedChar : Regex :=
  .alt (.noneOf ['"', '\\', '\r', '\n']) (.seq (.char '\\') (.oneOf ['"', 'r', 'n', '\\']))

def quoted : Regex := .seq (.char '"') (.seq (.some quotedChar) (.char '"'))

def space : Regex := .some (.oneOf [' ', '\t', '\r', '\n'])

end Spelling

/-- How a kind is spelt. The end of the text has no spelling. -/
def Kind.regex (k : Kind) : Regex :=
  match k with
  | .eof => .never
  | .objectType => Spelling.objectType
  | .objectId => Spelling.objectId
  | .geometryType => Spelling.geometryType
  | .number => Spelling.digits
  | .decimal => Spelling.decimal
  | .word => Spelling.word
  | .quoted => Spelling.quoted
  | .space => Spelling.space
  | k => .word (k.spelling?.getD "")

namespace Lexer

/-- Rules that may still match, in order, each with what remains of its expression. -/
abbrev Rules := List (Kind × Regex)

/-- The rules of the filter language. -/
def rules : Rules := Kind.all.map fun k => (k, k.regex)

/-- The rules that may match after the character `c`. -/
def Rules.after (rs : Rules) (c : Char) : Rules :=
  (rs.map fun (k, r) => (k, r.deriv c)).filter fun (_, r) => r.viable

/-- The first rule that needs nothing more. -/
def Rules.complete? (rs : Rules) : Option Kind :=
  (rs.find? fun (_, r) => r.nullable).map (·.1)

/-- The longest token at the front of a text: its kind, and how many characters follow its first
one. -/
def longest (rs : Rules) : List Char → Option (Kind × Nat)
  | [] => none
  | c :: cs =>
    let rest := rs.after c
    if rest.isEmpty then none
    else
      match longest rest cs with
      | some (k, n) => some (k, n + 1)
      | none => rest.complete?.map (·, 0)

/-- The shortest beginning of a text that begins no token; the whole text if there is none. -/
def unread (rs : Rules) : List Char → List Char
  | [] => []
  | c :: cs =>
    let rest := rs.after c
    if rest.isEmpty then [c] else c :: unread rest cs

end Lexer

/-- Characters that begin no token, and their place. -/
structure Unreadable where
  place : Position
  text : String
deriving DecidableEq, Repr

def Unreadable.message (e : Unreadable) : String :=
  e.place.message ("token recognition error at: '" ++ visible e.text ++ "'")

/-- The tokens of a text. They end with the token for the end of the text, unless something could
not be read: then they are the tokens before it. -/
structure Lexing where
  tokens : List Token
  fault : Option Unreadable
deriving DecidableEq, Repr

namespace Lexer

/-- Reads the tokens of a text that begins at `p`, after leaving out `skip` characters that belong
to the token before. -/
def scanFrom (p : Position) : Nat → List Char → Lexing
  | _, [] => ⟨[.ending p], none⟩
  | skip + 1, _ :: cs => scanFrom p skip cs
  | 0, c :: cs =>
    match longest rules (c :: cs) with
    | none => ⟨[], some ⟨p, .ofList (unread rules (c :: cs))⟩⟩
    | some (k, n) =>
      let text := c :: cs.take n
      let rest := scanFrom (p.advance text) n cs
      ⟨⟨⟨k, .ofList text⟩, p⟩ :: rest.tokens, rest.fault⟩

end Lexer

/-- The tokens of a filter text. -/
def scan (s : String) : Lexing := Lexer.scanFrom .start 0 s.toList

end MapFilter
