import MapFilter.Sql.Query

/-!
# The command line

Without arguments, the command reads a filter from the first line of its input and prints the query.
With arguments, it only checks the first of them.
-/

namespace MapFilter

namespace Command

/-- Why the command fails. -/
inductive Problem where
  | noInput
  | noArgument
  | error (e : Error)
deriving DecidableEq, Repr

def Problem.message : Problem → String
  | .noInput => "EOF when reading a line"
  | .noArgument => "list index out of range"
  | .error e => e.message

/-- The first line of an input, if there is one. A line ends with a line feed or a carriage
return. -/
def firstLine? (input : String) : Option String :=
  if input.isEmpty then none
  else some (.ofList (input.toList.takeWhile fun c => c != '\n' && c != '\r'))

/-- What the command prints for an input. -/
def answer (printable : Char → Bool) (input : String) : Except Problem String := do
  match firstLine? input with
  | none => throw .noInput
  | some line =>
    let q ← (query line 0).mapError .error
    pure (q.literal printable ++ "\n")

/-- Checks the first argument. Nothing is printed. -/
def check (args : List String) : Except Problem String := do
  match args with
  | [] => throw .noArgument
  | filter :: _ =>
    let _ ← (query filter 0).mapError .error
    pure ""

end Command

end MapFilter
