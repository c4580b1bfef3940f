import MapFilter.Node
import MapFilter.Parser.Expr
import MapFilter.Token.Lexer

/-!
# Parsing filter texts

Tokens are read only as far as parsing needs them, so a text with several faults is refused for the
one that is met first. Only the complaint that nothing fits looks at the whole text.
-/

namespace MapFilter

/-- Why a text is no filter. -/
inductive Refusal where
  | unreadable (e : Unreadable)
  | complaint (c : Complaint)
deriving DecidableEq, Repr

def Refusal.message : Refusal → String
  | .unreadable e => e.message
  | .complaint c => c.message

/-- The reason for a fault that parsing met in a text. Parsing runs out of tokens only where the
text could not be read. -/
def Lexing.refusal (l : Lexing) : Fault → Refusal
  | .unread => .unreadable (l.fault.getD ⟨.start, ""⟩)
  | .complaint (.noAlternative t s) =>
    match l.fault with
    | some e => .unreadable e
    | none => .complaint (.noAlternative t s)
  | .complaint c => .complaint c

namespace Parser

/-- Parses the beginning of a text. The number is that of the tokens that were used. -/
def parsePart {α : Type} (p : Parser α) (s : String) : Except Refusal (α × Nat) :=
  let l := scan s
  match p.run l.tokens with
  | .ok (a, rest) => .ok (a, l.tokens.length - rest.length)
  | .error e => .error (l.refusal e)

/-- Parses a part of a filter by the rule for it. -/
def node : Rule → Parser Node
  | .root => Tree.node <$> tree
  | .expression => do
    let e ← expr (← get).length .whole (.only .eof)
    pure e.node
  | .filter form => Filter.node <$> filter (.only .eof) form
  | .text => Text.node <$> text
  | .pattern => Pattern.node <$> pattern
  | .sign s => (Padding.node · s) <$> sign s (.only .eof)
  | .range g => (Range.node · g) <$> range g (.only .eof)

end Parser

/-- Parses a filter text. -/
def parse (s : String) : Except Refusal Tree := (·.1) <$> Parser.parsePart Parser.tree s

end MapFilter
