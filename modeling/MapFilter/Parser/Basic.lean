import MapFilter.Parser.Complaint
import MapFilter.Parser.Lookahead
import MapFilter.Tree

/-!
# Parsers

A parser reads tokens from the front of a list. It knows what may come after the part it reads,
since that decides both what it expects and whether a token was left out. Every token that is
stepped over makes the next one necessary, so a parser that comes to the end of the list stops
there: the text could not be read any further.
-/

namespace MapFilter

/-- Why parsing stops. -/
inductive Fault where
  | unread
  | complaint (c : Complaint)
deriving DecidableEq, Repr

abbrev Parser := StateT (List Token) (Except Fault)

namespace Parser

variable {α : Type}

def complain (c : Complaint) : Parser α := fun _ => .error (.complaint c)

/-- The token in front. -/
def current : Parser Token
  | [] => .error .unread
  | t :: ts => .ok (t, t :: ts)

/-- The kind of the token after the one in front. The end of the text is followed by itself. -/
def second : Parser Kind
  | t :: u :: ts => .ok (u.kind, t :: u :: ts)
  | [t] => if t.kind = .eof then .ok (.eof, [t]) else .error .unread
  | [] => .error .unread

/-- Steps over the token in front. -/
def advance : Parser Token
  | t :: u :: ts => .ok (t, u :: ts)
  | _ => .error .unread

/-- Settles a decision. If nothing fits, the complaint shows the text from the first token looked
at to the one that does not fit. -/
def settle (look : List Token → Look α) : Parser α := fun ts =>
  match look ts with
  | .found a => .ok (a, ts)
  | .unread => .error .unread
  | .stuck [] => .error .unread
  | .stuck (t :: rest) =>
    let read := (ts.take (ts.length - (t :: rest).length)).map (·.text)
    let last := if t.kind = .eof then "" else t.text
    .error (.complaint (.noAlternative t (String.join read ++ last)))

/-- No part of the filter can begin here. One token too many is recognised by the one after it. -/
def refuse (expected : KindSet) : Parser α := do
  let t ← current
  if expected (← second) then complain (.extraneous t expected.toList)
  else complain (.mismatched t expected.toList)

/-- Goes on if one of the expected kinds is in front. -/
def require (expected : KindSet) : Parser Unit := do
  let t ← current
  if expected t.kind then pure () else refuse expected

/-- Reads a token of an expected kind; `next` may come after it, which tells a missing token from a
wrong one. -/
def expect (expected next : KindSet) : Parser Token := do
  let t ← current
  if expected t.kind then advance
  else if expected (← second) then complain (.extraneous t expected.toList)
  else if next t.kind then complain (.missing t expected.toList)
  else complain (.mismatched t expected.toList)

/-! ## Symbols -/

/-- Optional white space before a symbol. -/
def spaceBefore (s : Sign) : Parser (Option String) := do
  require (.ofList [.space, s.kind])
  let t ← current
  if t.kind = .space then
    let t ← advance
    pure (some t.text)
  else pure none

/-- Optional white space after a symbol. -/
def spaceAfter (s : Sign) : Parser (Option String)
  | [] => .error .unread
  | t :: ts =>
    if t.kind = .space then
      if Lookahead.readableAfterSpace s ts then .ok (some t.text, ts) else .error .unread
    else .ok (none, t :: ts)

/-- A symbol with the white space round it; `next` may come after it. -/
def sign (s : Sign) (next : KindSet) : Parser Padding := do
  let before ← spaceBefore s
  let _ ← expect (.only s.kind) (.union (.only .space) next)
  let after ← spaceAfter s
  pure ⟨before, after⟩

end Parser

end MapFilter
