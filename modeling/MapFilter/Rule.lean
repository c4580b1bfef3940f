import MapFilter.Token

/-!
# Grammar rules

The filter language has one rule for each form of a filter, one for each symbol with white space
round it, and a few for what they are made of. A rule is known by its name, from which parsing can
start.
-/

namespace MapFilter

/-- Whether a tag has to have a value or must not have it. -/
inductive Comparison where
  | equal | notEqual
deriving DecidableEq, Repr

/-- What can be compared with one number. -/
inductive Numbered where
  | id | outers | inners | changeset
deriving DecidableEq, Repr

/-- What can be looked up in a list of numbers. -/
inductive Listable where
  | id | changeset
deriving DecidableEq, Repr

/-- What can lie in a range. -/
inductive Ranged where
  | id | area | perimeter | length | vertices | outers | inners | changeset
deriving DecidableEq, Repr

/-- The numbers that bound a range. -/
inductive Grain where
  | whole | decimal
deriving DecidableEq, Repr

/-- The forms of a single filter. -/
inductive Form where
  | tag (c : Comparison)
  | tagAny (c : Comparison)
  | tagIn
  | tagLike
  | type
  | geometry
  | object
  | objects
  | number (s : Numbered)
  | numbers (s : Listable)
  | range (s : Ranged)
deriving DecidableEq, Repr

/-- The words that join two expressions. -/
inductive Joint where
  | conj | disj
deriving DecidableEq, Repr

/-- The symbols that may have white space on either side. -/
inductive Sign where
  | conj | disj | neg | member | equal | notEqual | lparen | rparen | comma | dots | colon | tilde
deriving DecidableEq, Repr

inductive Rule where
  | root
  | expression
  | filter (f : Form)
  | text
  | pattern
  | sign (s : Sign)
  | range (g : Grain)
deriving DecidableEq, Repr

/-! ## Kinds of token -/

def Comparison.sign : Comparison → Sign
  | .equal => .equal
  | .notEqual => .notEqual

def Joint.sign : Joint → Sign
  | .conj => .conj
  | .disj => .disj

def Sign.kind : Sign → Kind
  | .conj => .conj
  | .disj => .disj
  | .neg => .neg
  | .member => .member
  | .equal => .equal
  | .notEqual => .notEqual
  | .lparen => .lparen
  | .rparen => .rparen
  | .comma => .comma
  | .dots => .dots
  | .colon => .colon
  | .tilde => .tilde

def Numbered.kind : Numbered → Kind
  | .id => .id
  | .outers => .outers
  | .inners => .inners
  | .changeset => .changeset

def Listable.kind : Listable → Kind
  | .id => .id
  | .changeset => .changeset

def Ranged.kind : Ranged → Kind
  | .id => .id
  | .area => .area
  | .perimeter => .perimeter
  | .length => .length
  | .vertices => .vertices
  | .outers => .outers
  | .inners => .inners
  | .changeset => .changeset

/-- Measures are decimal numbers, all else is counted. -/
def Ranged.grain : Ranged → Grain
  | .area | .perimeter | .length => .decimal
  | _ => .whole

/-- The kinds of token that can bound a range. -/
def Grain.isBound : Grain → Kind → Bool
  | .whole, k => k == .number
  | .decimal, k => k == .number || k == .decimal

/-! ## Names -/

def Form.name : Form → String
  | .tag .equal => "tagMatch"
  | .tag .notEqual => "tagNotMatch"
  | .tagAny .equal => "tagWildcardMatch"
  | .tagAny .notEqual => "tagNotWildcardMatch"
  | .tagIn => "tagListMatch"
  | .tagLike => "tagValuePatternMatch"
  | .type => "typeMatch"
  | .geometry => "geometryMatch"
  | .object => "typeIdMatch"
  | .objects => "typeIdListMatch"
  | .number .id => "idMatch"
  | .number .outers => "geometryOutersMatch"
  | .number .inners => "geometryInnersMatch"
  | .number .changeset => "changesetMatch"
  | .numbers .id => "idListMatch"
  | .numbers .changeset => "changesetListMatch"
  | .range .id => "idRangeMatch"
  | .range .area => "areaRangeMatch"
  | .range .perimeter => "perimeterRangeMatch"
  | .range .length => "lengthRangeMatch"
  | .range .vertices => "geometryVerticesRangeMatch"
  | .range .outers => "geometryOutersRangeMatch"
  | .range .inners => "geometryInnersRangeMatch"
  | .range .changeset => "changesetRangeMatch"

def Sign.name : Sign → String
  | .conj => "and"
  | .disj => "or"
  | .neg => "not"
  | .member => "in"
  | .equal => "eq"
  | .notEqual => "ne"
  | .lparen => "po"
  | .rparen => "pc"
  | .comma => "co"
  | .dots => "dd"
  | .colon => "cn"
  | .tilde => "tl"

namespace Rule

def name : Rule → String
  | .root => "root"
  | .expression => "expression"
  | .filter f => f.name
  | .text => "string"
  | .pattern => "valueSubString"
  | .sign s => s.name
  | .range .whole => "range_int"
  | .range .decimal => "range_dec"

def all : List Rule :=
  [.root, .expression,
    .filter (.tag .equal), .filter (.tagAny .equal), .filter .tagIn,
    .filter (.tag .notEqual), .filter (.tagAny .notEqual), .filter .tagLike,
    .filter .type, .filter (.number .id), .filter .object, .filter (.range .id),
    .filter (.numbers .id), .filter .objects, .filter .geometry,
    .filter (.range .area), .filter (.range .perimeter), .filter (.range .length),
    .filter (.range .vertices), .filter (.number .outers), .filter (.range .outers),
    .filter (.number .inners), .filter (.range .inners),
    .filter (.number .changeset), .filter (.numbers .changeset), .filter (.range .changeset),
    .text, .pattern,
    .sign .conj, .sign .disj, .sign .neg, .sign .member, .sign .equal, .sign .notEqual,
    .sign .lparen, .sign .rparen, .sign .comma, .sign .dots, .sign .colon, .sign .tilde,
    .range .whole, .range .decimal]

/-- The rule of a given name. -/
def ofName? (s : String) : Option Rule := all.find? fun r => r.name == s

end Rule

end MapFilter
