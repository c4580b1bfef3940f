import MapFilter.Parser.Basic

/-!
# Parsing single filters

A filter is parsed after its form has been decided. The parts of a filter are texts, patterns,
lists and ranges.
-/

namespace MapFilter

namespace Parser

/-- The rest of an unquoted text after one of its words. -/
def moreWords : List Token → Except Fault (List (Option Lexeme) × List Token)
  | [] => .error .unread
  | t :: ts =>
    if t.kind = .colon then
      match Lookahead.wordBelongs ts, ts with
      | .found true, w :: rest => do
        let (ws, rest) ← moreWords rest
        pure (some w.toLexeme :: ws, rest)
      | .found false, ts => do
        let (ws, rest) ← moreWords ts
        pure (none :: ws, rest)
      | _, _ => .error .unread
    else .ok ([], t :: ts)

/-- A tag key or value. -/
def text : Parser Text := do
  require Kind.startsText
  let t ← advance
  match t.kind with
  | .quoted => pure (.quoted t.text)
  | .number => pure (.number t.text)
  | _ => do
    let ws ← moreWords
    pure (.words t.toLexeme ws)

def optionalStar : Parser Bool := do
  let t ← current
  if t.kind = .star then
    let _ ← advance
    pure true
  else pure false

def pattern : Parser Pattern := do
  require (.union (.only .star) Kind.startsText)
  let leading ← optionalStar
  let text ← text
  let trailing ← optionalStar
  pure ⟨leading, text, trailing⟩

/-! ## Lists -/

/-- What may come after an item of a list. -/
def afterItem : KindSet := .ofList [.rparen, .comma, .space]

/-- The items of a list after the first or, if `inner`, after a later one. A wrong token after a
later item counts as one too many. -/
def moreItems {α : Type} (start : KindSet) (item : Parser α) (inner : Bool) :
    Nat → Parser (List (Padding × α))
  | 0 => fun _ => .error .unread
  | n + 1 => do
    let t ← current
    if inner && !afterItem t.kind then complain (.extraneous t afterItem.toList)
    require afterItem
    if ← settle Lookahead.anotherItem then
      let comma ← sign .comma start
      let a ← item
      let more ← moreItems start item true n
      pure ((comma, a) :: more)
    else pure []

/-- A list in parentheses whose items begin with a token in `start`. -/
def listed {α : Type} (start : KindSet) (item : Parser α) (next : KindSet) : Parser (Listed α) := do
  let left ← sign .lparen start
  let first ← item
  let more ← moreItems start item false (← get).length
  let right ← sign .rparen next
  pure ⟨left, first, more, right⟩

/-- A list of texts. -/
def listedTexts (next : KindSet) : Parser (Listed Text) := listed Kind.startsText text next

/-- A list of tokens of one kind. -/
def listedTokens (k : Kind) (next : KindSet) : Parser (Listed String) :=
  listed (.only k) ((·.text) <$> expect (.only k) afterItem) next

/-! ## Ranges -/

def bound (g : Grain) (next : KindSet) : Parser Lexeme := (·.toLexeme) <$> expect g.isBound next

def bounds (g : Grain) : Parser Bounds := do
  require (.union g.isBound (.ofList [.dots, .space]))
  match ← settle (Lookahead.extent g) with
  | .both =>
    let lower ← bound g (.ofList [.dots, .space])
    let dots ← sign .dots g.isBound
    let upper ← bound g (.ofList [.rparen, .space])
    pure (.both lower dots upper)
  | .upTo =>
    let dots ← sign .dots g.isBound
    let upper ← bound g (.ofList [.rparen, .space])
    pure (.upTo dots upper)
  | .startingAt =>
    let lower ← bound g (.ofList [.dots, .space])
    let dots ← sign .dots (.ofList [.rparen, .space])
    pure (.startingAt lower dots)

def range (g : Grain) (next : KindSet) : Parser Range := do
  let left ← sign .lparen (.union g.isBound (.ofList [.dots, .space]))
  let bounds ← bounds g
  let right ← sign .rparen next
  pure ⟨left, bounds, right⟩

/-! ## Filters -/

/-- A keyword and the colon after it, before one of the kinds in `next`. -/
def keyword (k : Kind) (next : KindSet) : Parser Padding := do
  let _ ← expect (.only k) (.ofList [.colon, .space])
  sign .colon next

/-- The last token of a filter. -/
def final (k : Kind) (next : KindSet) : Parser String := (·.text) <$> expect (.only k) next

/-- A filter of a given form. -/
def filter (next : KindSet) : Form → Parser Filter
  | .tag c => do
    let key ← text
    let op ← sign c.sign Kind.startsText
    let value ← text
    pure (.tag c key op value)
  | .tagAny c => do
    let key ← text
    let op ← sign c.sign (.only .star)
    let _ ← final .star next
    pure (.tagAny c key op)
  | .tagIn => do
    let key ← text
    let op ← sign .member (.ofList [.lparen, .space])
    let values ← listedTexts next
    pure (.tagIn key op values)
  | .tagLike => do
    let key ← text
    let op ← sign .tilde (.union (.only .star) Kind.startsText)
    let pattern ← pattern
    pure (.tagLike key op pattern)
  | .type => do
    let op ← keyword .type (.only .objectType)
    pure (.type op (← final .objectType next))
  | .geometry => do
    let op ← keyword .geometry (.only .geometryType)
    pure (.geometry op (← final .geometryType next))
  | .object => do
    let op ← keyword .id (.only .objectId)
    pure (.object op (← final .objectId next))
  | .objects => do
    let op ← keyword .id (.ofList [.lparen, .space])
    pure (.objects op (← listedTokens .objectId next))
  | .number s => do
    let op ← keyword s.kind (.only .number)
    pure (.number s op (← final .number next))
  | .numbers s => do
    let op ← keyword s.kind (.ofList [.lparen, .space])
    pure (.numbers s op (← listedTokens .number next))
  | .range s => do
    let op ← keyword s.kind (.ofList [.lparen, .space])
    pure (.range s op (← range s.grain next))

end Parser

end MapFilter
