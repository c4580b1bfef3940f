/-!
# Tokens

A filter text is read as a sequence of tokens. A token has a kind, the text it was read from and
the place where that text begins.
-/

namespace MapFilter

/-- The kinds of token. `eof` marks the end of the text and has no spelling of its own. -/
inductive Kind where
  | eof
  | colon | equal | notEqual | lparen | rparen | comma | dots | tilde
  | conj | disj | neg | member | star
  | type | id | geometry | area | perimeter | length | vertices | outers | inners | changeset
  | objectType | objectId | geometryType
  | number | decimal | word | quoted | space
deriving DecidableEq, Repr

namespace Kind

/-- All kinds in the order in which they are listed. -/
def all : List Kind :=
  [.eof, .colon, .equal, .notEqual, .lparen, .rparen, .comma, .dots, .tilde,
    .conj, .disj, .neg, .member, .star,
    .type, .id, .geometry, .area, .perimeter, .length, .vertices, .outers, .inners, .changeset,
    .objectType, .objectId, .geometryType, .number, .decimal, .word, .quoted, .space]

/-- The spelling of a kind that has only one. -/
def spelling? : Kind → Option String
  | .colon => some ":"
  | .equal => some "="
  | .notEqual => some "!="
  | .lparen => some "("
  | .rparen => some ")"
  | .comma => some ","
  | .dots => some ".."
  | .tilde => some "~"
  | .conj => some "and"
  | .disj => some "or"
  | .neg => some "not"
  | .member => some "in"
  | .star => some "*"
  | .type => some "type"
  | .id => some "id"
  | .geometry => some "geometry"
  | .area => some "area"
  | .perimeter => some "perimeter"
  | .length => some "length"
  | .vertices => some "geometry.vertices"
  | .outers => some "geometry.outers"
  | .inners => some "geometry.inners"
  | .changeset => some "changeset"
  | _ => none

/-- The name of a kind in a list of tokens. Punctuation is numbered. -/
def name : Kind → String
  | .eof => "EOF"
  | .colon => "T__0"
  | .equal => "T__1"
  | .notEqual => "T__2"
  | .lparen => "T__3"
  | .rparen => "T__4"
  | .comma => "T__5"
  | .dots => "T__6"
  | .tilde => "T__7"
  | .conj => "AND"
  | .disj => "OR"
  | .neg => "NOT"
  | .member => "IN"
  | .star => "WILDCARD"
  | .type => "TYPE"
  | .id => "ID"
  | .geometry => "GEOMETRY"
  | .area => "AREA"
  | .perimeter => "PERIMETER"
  | .length => "LENGTH"
  | .vertices => "GEOMETRY_VERTICES"
  | .outers => "GEOMETRY_OUTERS"
  | .inners => "GEOMETRY_INNERS"
  | .changeset => "CHANGESET"
  | .objectType => "OSMTYPE"
  | .objectId => "OSMID"
  | .geometryType => "GEOMETRY_TYPE"
  | .number => "NUMBER"
  | .decimal => "DECIMAL"
  | .word => "WORD"
  | .quoted => "QUOTED"
  | .space => "WS"

/-- A kind as a message shows it: by its spelling if it has only one, else by its name. -/
def display (k : Kind) : String :=
  match k, k.spelling? with
  | .eof, _ => "<EOF>"
  | _, some s => "'" ++ s ++ "'"
  | _, none => k.name

/-- Kinds without a name of their own. -/
def isPunctuation : Kind → Bool
  | .colon | .equal | .notEqual | .lparen | .rparen | .comma | .dots | .tilde => true
  | _ => false

/-- Kinds that can be part of an unquoted text; every keyword can. -/
def isWord : Kind → Bool
  | .conj | .disj | .neg | .member
  | .type | .id | .geometry | .area | .perimeter | .length
  | .vertices | .outers | .inners | .changeset
  | .objectType | .geometryType | .word => true
  | _ => false

/-- Kinds that begin the text of a tag key or value. -/
def startsText (k : Kind) : Bool :=
  k.isWord || k == .quoted || k == .number

/-- Kinds that stand between a tag key and what it is compared with. -/
def isOperator : Kind → Bool
  | .equal | .notEqual | .tilde | .member => true
  | _ => false

end Kind

/-- A place in a text. Lines count from one, columns and offsets from zero, all in characters. -/
structure Position where
  line : Nat
  column : Nat
  offset : Nat
deriving DecidableEq, Repr

namespace Position

def start : Position := ⟨1, 0, 0⟩

/-- The place after one more character. Only a line feed begins a new line. -/
def next (p : Position) (c : Char) : Position :=
  if c = '\n' then ⟨p.line + 1, 0, p.offset + 1⟩ else ⟨p.line, p.column + 1, p.offset + 1⟩

def advance (p : Position) (cs : List Char) : Position := cs.foldl next p

/-- A message with its place in front. -/
def message (p : Position) (what : String) : String :=
  "line " ++ toString p.line ++ ":" ++ toString p.column ++ " " ++ what

end Position

/-- What a token says, wherever it stands. -/
structure Lexeme where
  kind : Kind
  text : String
deriving DecidableEq, Repr

structure Token extends Lexeme where
  place : Position
deriving DecidableEq, Repr

/-- The end of a text, as a token. -/
def Token.ending (p : Position) : Token := ⟨⟨.eof, "<EOF>"⟩, p⟩

/-- Text as a message shows it: line breaks and tabs are spelt out. -/
def visible (s : String) : String :=
  String.ofList <| s.toList.flatMap fun c =>
    if c = '\n' then ['\\', 'n']
    else if c = '\r' then ['\\', 'r']
    else if c = '\t' then ['\\', 't']
    else [c]

end MapFilter
