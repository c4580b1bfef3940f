import MapFilter.Rule

/-!
# Looking ahead

Keywords can be words of a tag key or value, a colon can belong to a text or follow a keyword, and
white space can belong to either of its neighbours. So the parser decides what to read next by
looking at the tokens in front of it. The decisions are functions on the list of tokens that are
still to be read; the list is finite, and a decision that comes to its end has to wait for a token
that cannot be read.
-/

namespace MapFilter

/-- The outcome of a decision: an answer, the rest of the tokens from the first one that fits
nothing, or a token that cannot be read. -/
inductive Look (α : Type) where
  | found (a : α)
  | stuck (rest : List Token)
  | unread
deriving DecidableEq, Repr

def Look.map {α β : Type} (f : α → β) : Look α → Look β
  | .found a => .found (f a)
  | .stuck rest => .stuck rest
  | .unread => .unread

namespace Lookahead

/-- The tokens without white space at their front. -/
def pastSpace : List Token → List Token
  | [] => []
  | t :: ts => if t.kind = .space then ts else t :: ts

def nextIs (k : Kind) : List Token → Bool
  | [] => false
  | t :: _ => t.kind == k

/-! ## Tag filters -/

/-- After `=` or `!=`: a text or a star. -/
def valueForm (c : Comparison) (ts : List Token) : Look Form :=
  match pastSpace ts with
  | [] => .unread
  | t :: rest =>
    if t.kind = .star then .found (.tagAny c)
    else if t.kind.startsText then .found (.tag c)
    else .stuck (t :: rest)

/-- At the symbol after a tag key. -/
def operatorForm : List Token → Look Form
  | [] => .unread
  | t :: ts =>
    match t.kind with
    | .equal => valueForm .equal ts
    | .notEqual => valueForm .notEqual ts
    | .tilde => .found .tagLike
    | .member => .found .tagIn
    | _ => .stuck (t :: ts)

/-- Inside an unquoted tag key, after a colon or after a word. The word `in` after a colon ends the
key if a parenthesis follows it. -/
def keyForm (afterColon : Bool) : List Token → Look Form
  | [] => .unread
  | t :: ts =>
    if t.kind = .colon then keyForm true ts
    else if afterColon && t.kind.isWord then
      if t.kind = .member && nextIs .lparen (pastSpace ts) then .found .tagIn
      else keyForm false ts
    else operatorForm (pastSpace (t :: ts))

/-! ## Keyword filters -/

/-- After the first number of a list or range in parentheses. -/
def numberForm (s : Listable) (r : Ranged) (ts : List Token) : Look Form :=
  match pastSpace ts with
  | [] => .unread
  | t :: rest =>
    match t.kind with
    | .dots => .found (.range r)
    | .comma | .rparen => .found (.numbers s)
    | _ => .stuck (t :: rest)

/-- After the parenthesis that follows `id:`. -/
def idGroupForm (ts : List Token) : Look Form :=
  match pastSpace ts with
  | [] => .unread
  | t :: rest =>
    match t.kind with
    | .number => numberForm .id .id rest
    | .objectId => .found .objects
    | .dots => .found (.range .id)
    | _ => .stuck (t :: rest)

/-- After the parenthesis that follows `changeset:`. -/
def changesetGroupForm (ts : List Token) : Look Form :=
  match pastSpace ts with
  | [] => .unread
  | t :: rest =>
    match t.kind with
    | .number => numberForm .changeset .changeset rest
    | .dots => .found (.range .changeset)
    | _ => .stuck (t :: rest)

/-- What a keyword and a colon make of the token `t` after them, if it fits. -/
def keywordForm? (keyword : Kind) (t : Token) (ts : List Token) : Option (Look Form) :=
  match keyword, t.kind with
  | .type, .objectType => some (.found .type)
  | .geometry, .geometryType => some (.found .geometry)
  | .id, .number => some (.found (.number .id))
  | .id, .objectId => some (.found .object)
  | .id, .lparen => some (idGroupForm ts)
  | .changeset, .number => some (.found (.number .changeset))
  | .changeset, .lparen => some (changesetGroupForm ts)
  | .area, .lparen => some (.found (.range .area))
  | .perimeter, .lparen => some (.found (.range .perimeter))
  | .length, .lparen => some (.found (.range .length))
  | .vertices, .lparen => some (.found (.range .vertices))
  | .outers, .number => some (.found (.number .outers))
  | .outers, .lparen => some (.found (.range .outers))
  | .inners, .number => some (.found (.number .inners))
  | .inners, .lparen => some (.found (.range .inners))
  | _, _ => none

/-- After a keyword, white space and a colon, which cannot be part of a text. A keyword with one
form needs no further look. -/
def spacedKeywordForm? (keyword : Kind) (ts : List Token) : Option (Look Form) :=
  match keyword with
  | .type => some (.found .type)
  | .geometry => some (.found .geometry)
  | .area => some (.found (.range .area))
  | .perimeter => some (.found (.range .perimeter))
  | .length => some (.found (.range .length))
  | .vertices => some (.found (.range .vertices))
  | .id | .changeset | .outers | .inners =>
    match pastSpace ts with
    | [] => some .unread
    | t :: rest => some ((keywordForm? keyword t rest).getD (.stuck (t :: rest)))
  | _ => none

/-- After a keyword, a colon and a word that makes the filter complete, unless it is the beginning
of a longer tag key. -/
def completeForm (form : Look Form) (ts : List Token) : Look Form :=
  if nextIs .colon ts then keyForm false ts
  else
    match pastSpace ts with
    | [] => .unread
    | t :: rest => if t.kind.isOperator then operatorForm (t :: rest) else form

/-- After a filter's first word. -/
def wordForm (first : Kind) : List Token → Look Form
  | [] => .unread
  | t :: ts =>
    match t.kind, ts with
    | .colon, [] => .unread
    | .colon, u :: rest =>
      if u.kind = .space then
        match rest with
        | [] => .unread
        | v :: rest' => (keywordForm? first v rest').getD (operatorForm rest)
      else
        match keywordForm? first u rest with
        | some form => if u.kind.isWord then completeForm form rest else form
        | none => keyForm true ts
    | .space, [] => .unread
    | .space, u :: rest =>
      if u.kind = .colon then (spacedKeywordForm? first rest).getD (.stuck ts)
      else operatorForm ts
    | _, _ => operatorForm (t :: ts)

/-! ## Expressions -/

/-- After `in` where it is either the symbol of a tag filter or itself a tag key: whether it is the
key. -/
def memberIsKey : List Token → Look Bool
  | [] => .unread
  | t :: ts =>
    if t.kind = .colon then .found true
    else
      match pastSpace (t :: ts) with
      | [] => .unread
      | u :: rest =>
        if u.kind = .lparen then .found false
        else if u.kind.isOperator then .found true
        else .stuck (u :: rest)

/-- After `not`: whether it negates what follows; else it is the beginning of a tag key. -/
def negates : List Token → Look Bool
  | [] => .unread
  | t :: ts =>
    if t.kind = .colon then .found false
    else
      match pastSpace (t :: ts) with
      | [] => .unread
      | u :: rest =>
        if u.kind = .member then memberIsKey rest
        else if u.kind.isOperator then .found false
        else if u.kind = .lparen || u.kind.startsText then .found true
        else .stuck (u :: rest)

/-- The beginnings of an expression. -/
inductive Opening where
  | group
  | neg
  | filter (f : Form)
deriving DecidableEq, Repr

/-- At the beginning of an expression. -/
def opening : List Token → Look Opening
  | [] => .unread
  | t :: ts =>
    match t.kind with
    | .lparen => .found .group
    | .space =>
      match ts with
      | [] => .unread
      | u :: rest =>
        match u.kind with
        | .lparen => .found .group
        | .neg => .found .neg
        | _ => .stuck (u :: rest)
    | .neg =>
      match negates ts with
      | .found true => .found .neg
      | .found false => (keyForm false ts).map .filter
      | .stuck rest => .stuck rest
      | .unread => .unread
    | .quoted | .number => (operatorForm (pastSpace ts)).map .filter
    | k => if k.isWord then (wordForm k ts).map .filter else .stuck (t :: ts)

/-- After an operand: the word that joins it with another one, if there is one. -/
def joint (ts : List Token) : Look (Option Joint) :=
  match pastSpace ts with
  | [] => .unread
  | t :: _ =>
    match t.kind with
    | .conj => .found (some .conj)
    | .disj => .found (some .disj)
    | _ => .found none

/-! ## Texts -/

/-- After a colon in a text and the word `and` or `or` twice: whether the first one belongs to the
text. -/
def joinsAfterWord : List Token → Look Bool
  | [] => .unread
  | t :: ts =>
    if t.kind = .colon then .found false
    else
      match pastSpace (t :: ts) with
      | [] => .unread
      | u :: rest =>
        if u.kind = .member then
          match memberIsKey rest with
          | .stuck _ => .found true
          | answer => answer
        else .found (!u.kind.isOperator)

/-- After a colon in a text: whether a word follows that belongs to the text. The words `and`, `or`
and `in` may instead join the text with what comes after it. -/
def wordBelongs : List Token → Look Bool
  | [] => .unread
  | t :: ts =>
    match t.kind with
    | .member =>
      match pastSpace ts with
      | [] => .unread
      | u :: _ => .found (u.kind != .lparen)
    | .conj | .disj =>
      if nextIs .colon ts then .found true
      else
        match pastSpace ts with
        | [] => .unread
        | u :: rest =>
          match u.kind with
          | .conj | .disj => joinsAfterWord rest
          | .member =>
            match memberIsKey rest with
            | .stuck _ => .found true
            | answer => answer.map not
          | k => .found !(k == .lparen || k.startsText)
    | k => .found k.isWord

/-! ## Lists and ranges -/

/-- After an item of a list: whether another one follows. -/
def anotherItem : List Token → Look Bool
  | [] => .unread
  | t :: ts =>
    match pastSpace (t :: ts) with
    | [] => .unread
    | u :: rest =>
      match u.kind with
      | .comma => .found true
      | .rparen => .found false
      | _ => .stuck (u :: rest)

/-- Which bounds a range has. -/
inductive Extent where
  | both | upTo | startingAt
deriving DecidableEq, Repr

/-- At the beginning of the bounds of a range. -/
def extent (g : Grain) : List Token → Look Extent
  | [] => .unread
  | t :: ts =>
    if g.isBound t.kind then
      match pastSpace ts with
      | [] => .unread
      | u :: rest =>
        if u.kind = .dots then
          match pastSpace rest with
          | [] => .unread
          | v :: rest' =>
            if g.isBound v.kind then .found .both
            else if v.kind = .rparen then .found .startingAt
            else .stuck (v :: rest')
        else .stuck (u :: rest)
    else .found .upTo

/-! ## White space after a symbol -/

/-- Whether the tokens after a symbol and white space can be read as far as they are needed. The
white space belongs to the symbol whatever follows. But where an expression begins with `not`, it
is first looked whether that is a negation, which could take the white space as well. -/
def readableAfterSpace (s : Sign) : List Token → Bool
  | [] => false
  | t :: ts =>
    match s, t.kind with
    | .conj, .neg | .disj, .neg | .neg, .neg | .lparen, .neg => negates ts != .unread
    | _, _ => true

end Lookahead

end MapFilter
