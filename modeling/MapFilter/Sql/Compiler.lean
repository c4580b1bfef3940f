import MapFilter.Sql.Bounds
import MapFilter.Text.Json
import MapFilter.Text.Like
import MapFilter.Text.Quoted

/-!
# The compiler

A filter is compiled from its parts to the whole. The compiler keeps the conditions that are
not yet part of a larger one on a stack, and the arguments in the order in which placeholders refer
to them. A step that fails leaves what it has done so far.
-/

namespace MapFilter

/-- The stack has its top in front. Placeholders count from `shift + 1`. -/
structure State where
  stack : List String
  args : List Argument
  shift : Int
deriving DecidableEq, Repr

namespace State

def fresh (shift : Int) : State := ⟨[], [], shift⟩

/-- The number of the last argument. -/
def last (s : State) : Int := s.args.length + s.shift

/-- The query so far: the stack from bottom to top. -/
def query (s : State) : String := String.intercalate " " s.stack.reverse

end State

/-- A number that has few enough digits to be written. -/
def Writable (n : Int) : Prop := (Nat.toDigits 10 n.natAbs).length ≤ Failure.digitLimit

instance : DecidablePred Writable := fun _ => inferInstanceAs (Decidable (_ ≤ _))

/-- The column that a list of numbers is about. -/
def Listable.column : Listable → String
  | .id => "osm_id"
  | .changeset => "changeset_id"

/-- Steps keep the state also when they fail. -/
abbrev Compiler := ExceptT Failure (StateM State)

namespace Compiler

def push (s : String) : Compiler Unit := modify fun st => { st with stack := s :: st.stack }

def pop : Compiler String := do
  match (← get).stack with
  | [] => throw .emptyStack
  | s :: rest =>
    modify fun st => { st with stack := rest }
    pure s

/-- Adds an argument. -/
def add (a : Argument) : Compiler Unit :=
  modify fun st => { st with args := st.args ++ [a] }

/-- The placeholder of the argument that `later` others follow. -/
def placeholder (later : Nat) : Compiler String := do
  let n := (← get).last - later
  if Writable n then pure ("$" ++ toString n) else throw .longPlaceholder

def ofExcept {α : Type} : Except Failure α → Compiler α
  | .ok a => pure a
  | .error e => throw e

/-! ## Parts of filters -/

def unescape (s : String) : Compiler String :=
  match Quoted.unescape? s with
  | some t => pure t
  | none => throw .emptyText

/-- The text that a tag key or value stands for. -/
def value : Text → Compiler String
  | .quoted s => unescape s
  | .number s => unescape s
  | .words w [] => unescape w.text
  | t => pure t.node.text

def readWhole (s : String) : Compiler Nat := ofExcept (Bounds.readWhole s.toList)

/-- The parts of a text between slashes. -/
def splitSlashes : List Char → List (List Char)
  | [] => [[]]
  | c :: cs =>
    if c = '/' then [] :: splitSlashes cs
    else
      match splitSlashes cs with
      | part :: parts => (c :: part) :: parts
      | [] => [[c]]

/-- The type and the number of an object, which a slash divides. -/
def splitObject (s : String) : Compiler (String × String) :=
  match splitSlashes s.toList with
  | [type, id] => pure (.ofList type, .ofList id)
  | parts => throw (.brokenPair parts.length)

/-! ## Conditions -/

/-- How the condition of a comparison begins. -/
def negation : Comparison → String
  | .equal => ""
  | .notEqual => "NOT "

/-- The condition of a range, whose text is on the stack. A bound of zero counts as left out, and a
range without bounds makes no condition. If `ordered`, the lower bound must not be the greater
one. -/
def range (column : String) (g : Grain) (ordered : Bool) : Compiler Unit := do
  let (lower, upper) ← ofExcept (Bounds.read g (← pop))
  match lower.filter (!·.isZero), upper.filter (!·.isZero) with
  | some l, some u =>
    if ordered && u.lt l then throw (.swappedBounds l u)
    add (.number l)
    add (.number u)
    let m ← placeholder 1
    let n ← placeholder 0
    push ("(" ++ column ++ " >= " ++ m ++ " AND " ++ column ++ " <= " ++ n ++ ")")
  | some l, none => do
    add (.number l)
    let n ← placeholder 0
    push (column ++ " >= " ++ n)
  | none, some u => do
    add (.number u)
    let n ← placeholder 0
    push (column ++ " <= " ++ n)
  | none, none => pure ()

/-- The condition for one object in a list of them. -/
def object (o : String) : Compiler String := do
  let (type, id) ← splitObject o
  add (.number (.whole (← readWhole id)))
  add (.text type)
  let m ← placeholder 1
  let n ← placeholder 0
  pure ("(osm_id = " ++ m ++ " AND osm_type = " ++ n ++ ")")

/-- The condition on the type of a geometry. -/
def geometry? (type : String) : Option String :=
  match type with
  | "point" => some "(status_geom_type).geom_type = 'Point'"
  | "line" => some "(status_geom_type).geom_type = 'LineString'"
  | "polygon" =>
    some "((status_geom_type).geom_type = 'Polygon' OR (status_geom_type).geom_type = 'MultiPolygon')"
  | "collection" => some "(status_geom_type).geom_type = 'GeometryCollection'"
  | _ => none

/-- Finishes a filter. Its texts and its range have been pushed before. -/
def filter : Filter → Compiler Unit
  | .tag c .. => do
    let value ← pop
    let key ← pop
    add (.text (Json.member key value))
    let n ← placeholder 0
    push (negation c ++ "tags @> " ++ n)
  | .tagAny c .. => do
    let key ← pop
    add (.text key)
    let n ← placeholder 0
    push (negation c ++ "tags ? " ++ n)
  | .tagIn _ _ values => do
    let texts ← values.items.mapM fun t => do
      let _ ← pop
      let s ← unescape t.node.text
      pure ("\"" ++ s ++ "\"")
    let key ← pop
    add (.text key)
    add (.texts texts)
    let m ← placeholder 1
    let n ← placeholder 0
    push ("(tags -> " ++ m ++ ") = ANY(" ++ n ++ ")")
  | .tagLike _ _ pattern => do
    let value ← pop
    let key ← pop
    add (.text (Like.key key))
    add (.text (Like.pattern pattern.leading value pattern.trailing))
    let m ← placeholder 1
    let n ← placeholder 0
    push ("tags ->> " ++ m ++ " LIKE " ++ n)
  | .type _ type => do
    add (.text type)
    let n ← placeholder 0
    push ("osm_type = " ++ n)
  | .geometry _ type =>
    match geometry? type with
    | some condition => push condition
    | none => pure ()
  | .object _ o => do
    let (type, id) ← splitObject o
    add (.text type)
    add (.number (.whole (← readWhole id)))
    let m ← placeholder 1
    let n ← placeholder 0
    push ("(osm_type = " ++ m ++ " AND osm_id = " ++ n ++ ")")
  | .objects _ os => do
    let conditions ← os.items.mapM object
    let any := String.intercalate " OR " conditions
    push (if conditions.length > 1 then "(" ++ any ++ ")" else any)
  | .number s _ number =>
    match s with
    | .id => do
      add (.number (.whole (← readWhole number)))
      let n ← placeholder 0
      push ("osm_id = " ++ n)
    | .changeset => do
      add (.number (.whole (← readWhole number)))
      let n ← placeholder 0
      push ("changeset_id = " ++ n)
    | .outers | .inners => throw .unsupported
  | .numbers s _ numbers => do
    add (.numbers (← numbers.items.mapM readWhole))
    let n ← placeholder 0
    push (s.column ++ " = ANY(" ++ n ++ ")")
  | .range s .. =>
    match s with
    | .id => range "osm_id" .whole true
    | .area => range "area" .decimal true
    | .length => range "length" .decimal true
    | .changeset => range "changeset_id" .whole false
    | .perimeter => pure ()
    | .vertices | .outers | .inners => throw .unsupported

/-- The word that joins two conditions. -/
def word : Joint → String
  | .conj => "AND"
  | .disj => "OR"

end Compiler

end MapFilter
