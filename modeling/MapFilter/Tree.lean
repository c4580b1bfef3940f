import MapFilter.Rule

/-!
# Filters as trees

A parsed filter keeps every token of its text. Symbols and keywords are implied by the shape of the
tree, so that only white space and the tokens with more than one spelling are stored.
-/

namespace MapFilter

/-- The white space on either side of a symbol. -/
structure Padding where
  before : Option String
  after : Option String
deriving DecidableEq, Repr

/-- A tag key or value. Unquoted it is a word and, after colons, more words or nothing. -/
inductive Text where
  | quoted (s : String)
  | number (s : String)
  | words (first : Lexeme) (more : List (Option Lexeme))
deriving DecidableEq, Repr

/-- A text with a star in front of it, after it, or both. -/
structure Pattern where
  leading : Bool
  text : Text
  trailing : Bool
deriving DecidableEq, Repr

/-- One or more items in parentheses, with commas between them. -/
structure Listed (α : Type) where
  left : Padding
  first : α
  more : List (Padding × α)
  right : Padding
deriving DecidableEq, Repr

def Listed.items {α : Type} (l : Listed α) : List α := l.first :: l.more.map (·.2)

/-- The bounds of a range; one of them may be left out. -/
inductive Bounds where
  | both (lower : Lexeme) (dots : Padding) (upper : Lexeme)
  | upTo (dots : Padding) (upper : Lexeme)
  | startingAt (lower : Lexeme) (dots : Padding)
deriving DecidableEq, Repr

structure Range where
  left : Padding
  bounds : Bounds
  right : Padding
deriving DecidableEq, Repr

/-- A single filter. The padding is that of the comparing symbol, or of the colon after a
keyword. -/
inductive Filter where
  | tag (c : Comparison) (key : Text) (op : Padding) (value : Text)
  | tagAny (c : Comparison) (key : Text) (op : Padding)
  | tagIn (key : Text) (op : Padding) (values : Listed Text)
  | tagLike (key : Text) (op : Padding) (pattern : Pattern)
  | type (op : Padding) (type : String)
  | geometry (op : Padding) (type : String)
  | object (op : Padding) (object : String)
  | objects (op : Padding) (objects : Listed String)
  | number (s : Numbered) (op : Padding) (number : String)
  | numbers (s : Listable) (op : Padding) (numbers : Listed String)
  | range (s : Ranged) (op : Padding) (range : Range)
deriving DecidableEq, Repr

def Filter.form : Filter → Form
  | .tag c .. => .tag c
  | .tagAny c .. => .tagAny c
  | .tagIn .. => .tagIn
  | .tagLike .. => .tagLike
  | .type .. => .type
  | .geometry .. => .geometry
  | .object .. => .object
  | .objects .. => .objects
  | .number s .. => .number s
  | .numbers s .. => .numbers s
  | .range s .. => .range s

inductive Expr where
  | filter (f : Filter)
  | group (left : Padding) (e : Expr) (right : Padding)
  | neg (op : Padding) (e : Expr)
  | join (j : Joint) (l : Expr) (op : Padding) (r : Expr)
deriving DecidableEq, Repr

/-- A whole filter text. A star alone lets everything pass. -/
inductive Tree where
  | everything
  | expr (e : Expr)
deriving DecidableEq, Repr

end MapFilter
