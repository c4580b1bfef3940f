import MapFilter.Sql.Compiler

/-!
# Steps of a compilation

A tree is compiled in steps, one for each of its parts that says something: first the parts of a
part, then the part itself.
-/

namespace MapFilter

/-- A part that has been walked through. -/
inductive Step where
  | text (t : Text)
  | range (g : Grain) (r : Range)
  | filter (f : Filter)
  /-- An expression that is a single filter. -/
  | single
  | group
  | neg
  | join (j : Joint)
  | root
deriving DecidableEq, Repr

def Step.rule : Step → Rule
  | .text _ => .text
  | .range g _ => .range g
  | .filter f => .filter f.form
  | .single | .group | .neg | .join _ => .expression
  | .root => .root

/-! ## The steps of a tree -/

/-- The parts of a filter that are walked through before it. -/
def Filter.parts : Filter → List Step
  | .tag _ key _ value => [.text key, .text value]
  | .tagAny _ key _ => [.text key]
  | .tagIn key _ values => .text key :: values.items.map .text
  | .tagLike key _ pattern => [.text key, .text pattern.text]
  | .range s _ r => [.range s.grain r]
  | _ => []

def Expr.steps : Expr → List Step
  | .filter f => f.parts ++ [.filter f, .single]
  | .group _ e _ => e.steps ++ [.group]
  | .neg _ e => e.steps ++ [.neg]
  | .join j l _ r => l.steps ++ r.steps ++ [.join j]

def Tree.steps : Tree → List Step
  | .everything => [.root]
  | .expr e => e.steps ++ [.root]

/-! ## Performing steps -/

open Compiler in
def Step.perform : Step → Compiler Unit
  | .text t => do push (← value t)
  | .range g r => push (r.inner g)
  | .filter f => Compiler.filter f
  | .group => do
    let e ← pop
    push ("(" ++ e ++ ")")
  | .neg => do
    let e ← pop
    push ("NOT " ++ e)
  | .join j => do
    let right ← pop
    let left ← pop
    push (left ++ " " ++ word j ++ " " ++ right)
  | .single | .root => pure ()

/-- The states after the steps that succeed, and the failure of the next one with the state that it
leaves. -/
structure Walk where
  done : List (Step × State)
  failed : Option (Failure × State)
deriving DecidableEq, Repr

/-- Performs steps one after the other, up to the first that fails. -/
def walk : List Step → State → Walk
  | [], _ => ⟨[], none⟩
  | step :: steps, s =>
    match step.perform.run.run s with
    | (.error e, s') => ⟨[], some (e, s')⟩
    | (.ok (), s') =>
      let rest := walk steps s'
      ⟨(step, s') :: rest.done, rest.failed⟩

/-- Performs steps and keeps only the last state. -/
def perform (steps : List Step) : Compiler Unit := steps.forM Step.perform

end MapFilter
