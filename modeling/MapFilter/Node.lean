import MapFilter.Tree

/-!
# The uniform view of a tree

Every part of a tree is a node: a token, or a rule with the nodes it is made of. On nodes it is
defined what text a part has, which events a walk through it meets, and which of its children it
gives by name.
-/

namespace MapFilter

inductive Node where
  | leaf (l : Lexeme)
  | branch (r : Rule) (children : List Node)
deriving Repr

/-! ## From trees to nodes -/

/-- A token that has only one spelling. -/
def Kind.node (k : Kind) : Node := .leaf ⟨k, k.spelling?.getD ""⟩

/-- The end of the text. -/
def Node.ending : Node := .leaf ⟨.eof, "<EOF>"⟩

def spaceNodes (s : Option String) : List Node := s.toList.map fun t => .leaf ⟨.space, t⟩

def Padding.node (p : Padding) (s : Sign) : Node :=
  .branch (.sign s) (spaceNodes p.before ++ s.kind.node :: spaceNodes p.after)

def Text.node : Text → Node
  | .quoted s => .branch .text [.leaf ⟨.quoted, s⟩]
  | .number s => .branch .text [.leaf ⟨.number, s⟩]
  | .words first more =>
    .branch .text (.leaf first :: more.flatMap fun w => Kind.colon.node :: w.toList.map .leaf)

def Pattern.node (p : Pattern) : Node :=
  .branch .pattern
    ((if p.leading then [Kind.star.node] else []) ++ p.text.node ::
      (if p.trailing then [Kind.star.node] else []))

def Listed.nodes {α : Type} (item : α → Node) (l : Listed α) : List Node :=
  l.left.node .lparen :: item l.first ::
    (l.more.flatMap (fun (p, a) => [p.node .comma, item a]) ++ [l.right.node .rparen])

def Bounds.nodes : Bounds → List Node
  | .both l d u => [.leaf l, d.node .dots, .leaf u]
  | .upTo d u => [d.node .dots, .leaf u]
  | .startingAt l d => [.leaf l, d.node .dots]

def Range.node (r : Range) (g : Grain) : Node :=
  .branch (.range g) (r.left.node .lparen :: (r.bounds.nodes ++ [r.right.node .rparen]))

def Filter.nodes : Filter → List Node
  | .tag c key op value => [key.node, op.node c.sign, value.node]
  | .tagAny c key op => [key.node, op.node c.sign, Kind.star.node]
  | .tagIn key op values => key.node :: op.node .member :: values.nodes Text.node
  | .tagLike key op pattern => [key.node, op.node .tilde, pattern.node]
  | .type op t => [Kind.type.node, op.node .colon, .leaf ⟨.objectType, t⟩]
  | .geometry op t => [Kind.geometry.node, op.node .colon, .leaf ⟨.geometryType, t⟩]
  | .object op o => [Kind.id.node, op.node .colon, .leaf ⟨.objectId, o⟩]
  | .objects op os =>
    Kind.id.node :: op.node .colon :: os.nodes fun o => .leaf ⟨.objectId, o⟩
  | .number s op n => [s.kind.node, op.node .colon, .leaf ⟨.number, n⟩]
  | .numbers s op ns =>
    s.kind.node :: op.node .colon :: ns.nodes fun n => .leaf ⟨.number, n⟩
  | .range s op r => [s.kind.node, op.node .colon, r.node s.grain]

def Filter.node (f : Filter) : Node := .branch (.filter f.form) f.nodes

def Expr.node : Expr → Node
  | .filter f => .branch .expression [f.node]
  | .group left e right =>
    .branch .expression [left.node .lparen, e.node, right.node .rparen]
  | .neg op e => .branch .expression [op.node .neg, e.node]
  | .join j l op r => .branch .expression [l.node, op.node j.sign, r.node]

def Tree.node : Tree → Node
  | .everything => .branch .root [Kind.star.node, .ending]
  | .expr e => .branch .root [e.node, .ending]

/-! ## Tokens and text -/

namespace Node

mutual

/-- The tokens of a node from left to right. -/
def leaves : Node → List Lexeme
  | .leaf l => [l]
  | .branch _ ns => leavesOf ns

def leavesOf : List Node → List Lexeme
  | [] => []
  | n :: ns => n.leaves ++ leavesOf ns

end

def text (n : Node) : String := String.join (n.leaves.map (·.text))

end Node

/-! ## Walks -/

/-- What a walk through a tree meets. -/
inductive Event where
  | enter (r : Rule)
  | leave (r : Rule)
  | token (text : String)
deriving DecidableEq, Repr

def Event.display : Event → String
  | .enter r => "+" ++ r.name
  | .leave r => "-" ++ r.name
  | .token s => "=" ++ s

namespace Node

mutual

def events : Node → List Event
  | .leaf l => [.token l.text]
  | .branch r ns => .enter r :: (eventsOf ns ++ [.leave r])

def eventsOf : List Node → List Event
  | [] => []
  | n :: ns => n.events ++ eventsOf ns

end

end Node

/-! ## Parts by name -/

/-- What stands at the head of a node. -/
inductive Symbol where
  | rule (r : Rule)
  | token (k : Kind)
deriving DecidableEq, Repr

def Node.symbol : Node → Symbol
  | .leaf l => .token l.kind
  | .branch r _ => .rule r

namespace Symbol

/-- The name under which a rule gives its children. Punctuation has none; the words that join
filters are told from the rules' names by a stroke. -/
def partName? : Symbol → Option String
  | .token k => if k.isPunctuation then none else some k.name
  | .rule (.sign s) =>
    match s with
    | .conj | .disj | .neg | .member => some (s.name ++ "_")
    | _ => some s.name
  | .rule r => some r.name

/-- Whether a rule can hold a child of this kind more than once. -/
def repeatsIn (child : Symbol) (parent : Rule) : Bool :=
  match parent, child with
  | .expression, .rule .expression => true
  | .filter (.tag _), .rule .text => true
  | .filter .tagIn, .rule .text => true
  | .filter .tagIn, .rule (.sign .comma) => true
  | .filter .objects, .rule (.sign .comma) => true
  | .filter .objects, .token .objectId => true
  | .filter (.numbers _), .rule (.sign .comma) => true
  | .filter (.numbers _), .token .number => true
  | .range _, .token .number => true
  | .range .decimal, .token .decimal => true
  | .pattern, .token .star => true
  | .sign _, .token .space => true
  | .text, .token k => k != .quoted && k != .number
  | _, _ => false

end Symbol

/-- The text of a child, or the texts of all children of one kind where there can be several. -/
inductive Part where
  | one (text : String)
  | several (texts : List String)
deriving DecidableEq, Repr

namespace Node

/-- The children of a rule by name, in the order in which their names first occur. -/
def partsOf (r : Rule) (children : List Node) : List (String × Part) :=
  (children.map symbol).eraseDups.filterMap fun s =>
    let texts := (children.filter fun n => n.symbol == s).map text
    s.partName?.map fun name =>
      (name, if s.repeatsIn r then .several texts else .one (texts.headD ""))

mutual

/-- The named parts of every rule in a node, outermost first. -/
def parts : Node → List (Rule × List (String × Part))
  | .leaf _ => []
  | .branch r ns => (r, partsOf r ns) :: partsAll ns

def partsAll : List Node → List (Rule × List (String × Part))
  | [] => []
  | n :: ns => n.parts ++ partsAll ns

end

end Node

end MapFilter
