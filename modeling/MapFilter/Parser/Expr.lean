import MapFilter.Parser.Filter

/-!
# Parsing expressions

`not` binds tighter than `and`, and `and` tighter than `or`; both group to the left. The parser
takes an operand and then goes on as long as a symbol follows that binds tight enough.
-/

namespace MapFilter

/-- How tight an expression has to hold together: as the operand of `not` or the right one of
`and`, as the right operand of `or`, or not at all. -/
inductive Level where
  | operand | conjunction | whole
deriving DecidableEq, Repr

/-- Whether an expression that has to hold together so tight can have this word in it. -/
def Level.admits : Level → Joint → Bool
  | .operand, _ => false
  | .conjunction, j => j == .conj
  | .whole, _ => true

/-- How tight the right operand of a word has to hold together. -/
def Joint.rightLevel : Joint → Level
  | .conj => .operand
  | .disj => .conjunction

namespace Parser

/-- The kinds that begin an expression. -/
def startsExpr : KindSet := .union (.ofList [.lparen, .space]) Kind.startsText

/-- What may come after an operand: the expression may go on, or end. -/
def orJoint (next : KindSet) : KindSet := .union (.ofList [.conj, .disj, .space]) next

/-- An expression without a symbol that joins two of them, where `sub` parses the expressions
inside it. -/
def operand (sub : Level → KindSet → Parser Expr) (next : KindSet) : Parser Expr := do
  require startsExpr
  match ← settle Lookahead.opening with
  | .group =>
    let left ← sign .lparen startsExpr
    let e ← sub .whole (.ofList [.rparen, .space])
    let right ← sign .rparen (orJoint next)
    pure (.group left e right)
  | .neg =>
    let op ← sign .neg startsExpr
    let e ← sub .operand (orJoint next)
    pure (.neg op e)
  | .filter form => .filter <$> filter (orJoint next) form

/-- Goes on after the expression `e`. -/
def continuation (sub : Level → KindSet → Parser Expr) (level : Level) (next : KindSet) :
    Nat → Expr → Parser Expr
  | 0, _ => fun _ => .error .unread
  | n + 1, e => do
    match ← settle Lookahead.joint with
    | some j =>
      if level.admits j then
        let op ← sign j.sign startsExpr
        let r ← sub j.rightLevel (orJoint next)
        continuation sub level next n (.join j e op r)
      else pure e
    | none => pure e

/-- An expression that holds together as tight as `level` says. The first argument bounds the depth
of the expression; the number of tokens is enough. -/
def expr : Nat → Level → KindSet → Parser Expr
  | 0, _, _ => fun _ => .error .unread
  | n + 1, level, next => do
    let e ← operand (expr n) next
    continuation (expr n) level next (n + 1) e

/-- A whole filter text. Its end is required and not stepped over. -/
def tree : Parser Tree := do
  require (.union (.only .star) startsExpr)
  let t ← current
  let tree ←
    if t.kind = .star then
      let _ ← advance
      pure .everything
    else .expr <$> expr (← get).length .whole (.only .eof)
  require (.only .eof)
  pure tree

end Parser

end MapFilter
