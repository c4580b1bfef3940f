import MapFilter.Parser
import MapFilter.Sql.Step

/-!
# Queries

What a filter text is compiled to: a condition with numbered placeholders, and the arguments that
they stand for.
-/

namespace MapFilter

/-- Why a text has no query. -/
inductive Error where
  | refusal (r : Refusal)
  | failure (f : Failure)
deriving DecidableEq, Repr

def Error.message : Error → String
  | .refusal r => r.message
  | .failure f => f.message

structure Query where
  text : String
  args : List Argument
deriving DecidableEq, Repr

/-- A query as a literal. -/
def Query.literal (printable : Char → Bool) (q : Query) : String :=
  Literal.tuple [Literal.text printable q.text,
    Literal.tuple (q.args.map (Argument.literal printable))]

/-- Compiles a filter text with a compiler that may have been used before. A text that cannot
be parsed changes nothing. -/
def State.compile (s : State) (filter : String) : Except Error Unit × State :=
  match parse filter with
  | .error r => (.error (.refusal r), s)
  | .ok tree =>
    let (result, s') := (perform tree.steps).run.run s
    (result.mapError .failure, s')

/-- The query for a filter, with placeholders from `shift + 1` on. A call is checked before it gets
here: an empty filter, one with a lone surrogate and a negative shift are turned away. These checks
are left out. -/
def query (filter : String) (shift : Int) : Except Error Query :=
  if filter = "*" then .ok ⟨"1=1", []⟩
  else
    match (State.fresh shift).compile filter with
    | (.ok (), s) => .ok ⟨s.query, s.args⟩
    | (.error e, _) => .error e

/-- A filter text that has a query is left as it is. No call is checked before it gets here, but a
text here has no lone surrogates either. -/
def validate (filter : String) : Except Error String :=
  match (State.fresh 0).compile filter with
  | (.ok (), _) => .ok filter
  | (.error e, _) => .error e

/-- Every step of compiling a filter text. -/
def steps (filter : String) (shift : Int) : Except Refusal Walk := do
  let tree ← parse filter
  pure (walk tree.steps (.fresh shift))

/-- Compiles several filter texts one after the other with one compiler: the outcome for each,
and the state after it. -/
def session : State → List String → List (Except Error Unit × State)
  | _, [] => []
  | s, filter :: filters =>
    let outcome := s.compile filter
    outcome :: session outcome.2 filters

end MapFilter
