import MapFilter.Proofs.Canonical
import MapFilter.Proofs.Outcome

/-!
# White space has no meaning

The tokens of a text other than white space determine its tree up to the white space in it, and the
compiler does not look at that white space. So texts that differ only in the white space between their
tokens have the same query, or fail in the same way. Filters on the perimeter are left out: the
condition of such a filter is the text of its range, with the white space in it.
-/

namespace MapFilter

open Compiler

/-! ## Tokens other than white space -/

/-- The tokens other than white space. -/
def solid (ls : List Lexeme) : List Lexeme := ls.filter fun l => l.kind != .space

section Solid

variable {ls k : List Lexeme} {l : Lexeme}

@[simp] lemma solid_nil : solid [] = [] := rfl

@[simp] lemma solid_append : solid (ls ++ k) = solid ls ++ solid k := List.filter_append ls k

lemma solid_eq_self (h : ∀ l ∈ ls, l.kind ≠ .space) : solid ls = ls :=
  List.filter_eq_self.2 fun l hl => by simpa using h l hl

lemma solid_cons (h : l.kind ≠ .space) : solid (l :: ls) = l :: solid ls :=
  List.filter_cons_of_pos (by simpa using h)

lemma solid_text {x : Text} (hx : x.Proper) : solid x.node.leaves = x.node.leaves :=
  solid_eq_self (Text.kind_ne_space hx)

lemma solid_star (b : Bool) :
    solid (Node.leavesOf (if b then [Kind.star.node] else [])) =
      Node.leavesOf (if b then [Kind.star.node] else []) := by
  cases b <;> rfl

lemma solid_pattern {p : Pattern} (hp : p.text.Proper) : solid p.node.leaves = p.node.leaves := by
  simp only [Pattern.node, Node.leaves_branch, Node.leavesOf_append, Node.leavesOf_cons, solid_append,
    solid_star, solid_text hp]

lemma solid_keyword {k : Kind} (h : k ≠ .space) : solid k.node.leaves = k.node.leaves := by
  rw [Kind.node, Node.leaves_leaf, solid_cons h, solid_nil]

end Solid

/-! ## Trees without white space -/

def Padding.bare : Padding := ⟨none, none⟩

def Listed.bare {α : Type} (l : Listed α) : Listed α :=
  ⟨.bare, l.first, l.more.map fun x => (.bare, x.2), .bare⟩

def Bounds.bare : Bounds → Bounds
  | .both l _ u => .both l .bare u
  | .upTo _ u => .upTo .bare u
  | .startingAt l _ => .startingAt l .bare

def Range.bare (r : Range) : Range := ⟨.bare, r.bounds.bare, .bare⟩

def Filter.bare : Filter → Filter
  | .tag c key _ value => .tag c key .bare value
  | .tagAny c key _ => .tagAny c key .bare
  | .tagIn key _ values => .tagIn key .bare values.bare
  | .tagLike key _ pattern => .tagLike key .bare pattern
  | .type _ t => .type .bare t
  | .geometry _ t => .geometry .bare t
  | .object _ o => .object .bare o
  | .objects _ os => .objects .bare os.bare
  | .number s _ n => .number s .bare n
  | .numbers s _ ns => .numbers s .bare ns.bare
  | .range s _ r => .range s .bare r.bare

def Expr.bare : Expr → Expr
  | .filter f => .filter f.bare
  | .group _ e _ => .group .bare e.bare .bare
  | .neg _ e => .neg .bare e.bare
  | .join j l _ r => .join j l.bare .bare r.bare

/-- A tree with all its white space taken out. -/
def Tree.bare : Tree → Tree
  | .everything => .everything
  | .expr e => .expr e.bare

lemma Padding.solid_leaves (p : Padding) (s : Sign) :
    solid (p.node s).leaves = (Padding.bare.node s).leaves := by
  have hne := s.kind_ne_space
  obtain ⟨before, after⟩ := p
  cases before <;> cases after <;>
    simp [Padding.node, Padding.bare, spaceNodes, Kind.node, solid, hne]

namespace Listed

variable {α : Type} {l : Listed α}

@[simp] lemma items_bare : l.bare.items = l.items := by
  simp [Listed.items, Listed.bare, Function.comp_def]

variable {item : α → Node}

lemma solid_commaNodes {more : List (Padding × α)}
    (h : ∀ x ∈ more, solid (item x.2).leaves = (item x.2).leaves) :
    solid (Node.leavesOf (commaNodes item more)) =
      Node.leavesOf (commaNodes item (more.map fun x => (.bare, x.2))) := by
  induction more with
  | nil => rfl
  | cons x more ih =>
    have hx := h x (by simp)
    have hrest := ih fun y hy => h y (by simp [hy])
    simp only [commaNodes_cons, List.map_cons, Node.leavesOf_cons, solid_append,
      Padding.solid_leaves, hx, hrest]

lemma solid_leaves (h : ∀ a ∈ l.items, solid (item a).leaves = (item a).leaves) :
    solid (Node.leavesOf (l.nodes item)) = Node.leavesOf (l.bare.nodes item) := by
  obtain ⟨hfirst, hmore⟩ := forall_items_iff.1 h
  simp only [nodes_eq, Node.leavesOf_cons, Node.leavesOf_append, Node.leavesOf_nil, solid_append,
    solid_nil, Padding.solid_leaves, hfirst, solid_commaNodes hmore]
  rfl

lemma solid_leaves_tokens {k : Kind} (hk : k ≠ .space) (l : Listed String) :
    solid (Node.leavesOf (l.nodes fun s => .leaf ⟨k, s⟩)) =
      Node.leavesOf (l.bare.nodes fun s => .leaf ⟨k, s⟩) := by
  apply solid_leaves
  intro s _
  rw [Node.leaves_leaf, solid_cons hk, solid_nil]

end Listed

namespace Range

variable {r : Range} {g : Grain}

@[simp] lemma written_bare (b : Bounds) : b.bare.written = b.written := by cases b <;> rfl

lemma solid_leaves (h : ∀ l ∈ r.bounds.written, g.isBound l.kind = true) :
    solid (r.node g).leaves = (r.bare.node g).leaves := by
  have hbound : ∀ l ∈ r.bounds.written, l.kind ≠ .space :=
    fun l hl => (Parser.isBound_ne (h l hl)).1
  obtain ⟨left, b, right⟩ := r
  cases b with
  | both l d u =>
    have hl := hbound l (by simp [Bounds.written])
    have hu := hbound u (by simp [Bounds.written])
    simp [Range.node, Range.bare, Bounds.nodes, Bounds.bare, Padding.solid_leaves, solid_cons hl,
      solid_cons hu]
  | upTo d l | startingAt l d =>
    have hl := hbound l (by simp [Bounds.written])
    simp [Range.node, Range.bare, Bounds.nodes, Bounds.bare, Padding.solid_leaves, solid_cons hl]

end Range

namespace Filter

variable {f : Filter}

lemma grammatical_bare (h : f.Grammatical) : f.bare.Grammatical := by
  obtain ⟨hproper, htexts⟩ := h
  cases f with
  | tagIn key op values => exact ⟨trivial, by simpa [bare, texts] using htexts⟩
  | range s op r =>
    refine ⟨?_, htexts⟩
    simpa [bare, Range.bare, Proper] using hproper
  | _ => exact ⟨trivial, htexts⟩

lemma solid_leaves (h : f.Grammatical) : solid f.node.leaves = f.bare.node.leaves := by
  obtain ⟨hproper, htexts⟩ := h
  rw [node, node, Node.leaves_branch, Node.leaves_branch]
  cases f with
  | tag c key op value =>
    have hkey := solid_text (htexts key (by simp [texts]))
    have hvalue := solid_text (htexts value (by simp [texts]))
    simp [nodes, bare, Padding.solid_leaves, hkey, hvalue]
  | tagAny c key op =>
    have hkey := solid_text (htexts key (by simp [texts]))
    simp [nodes, bare, Padding.solid_leaves, hkey, solid_keyword]
  | tagIn key op values =>
    have hkey := solid_text (htexts key (by simp [texts]))
    have hvalues := Listed.solid_leaves (l := values) fun x hx =>
      solid_text (htexts x (by simp [texts, hx]))
    simp [nodes, bare, Padding.solid_leaves, hkey, hvalues]
  | tagLike key op pattern =>
    have hkey := solid_text (htexts key (by simp [texts]))
    have hpattern := solid_pattern (htexts pattern.text (by simp [texts]))
    simp [nodes, bare, Padding.solid_leaves, hkey, hpattern]
  | type op t | geometry op t | object op t =>
    simp [nodes, bare, Padding.solid_leaves, solid_keyword, solid_cons]
  | number s op n =>
    have hkeyword := solid_keyword (show s.kind ≠ .space by cases s <;> decide)
    simp [nodes, bare, Padding.solid_leaves, hkeyword, solid_cons]
  | objects op os =>
    have hos := Listed.solid_leaves_tokens (show Kind.objectId ≠ .space by decide) os
    simp [nodes, bare, Padding.solid_leaves, solid_keyword, hos]
  | numbers s op ns =>
    have hkeyword := solid_keyword (show s.kind ≠ .space by cases s <;> decide)
    have hns := Listed.solid_leaves_tokens (show Kind.number ≠ .space by decide) ns
    simp [nodes, bare, Padding.solid_leaves, hkeyword, hns]
  | range s op r =>
    have hkeyword := solid_keyword (show s.kind ≠ .space by cases s <;> decide)
    simp [nodes, bare, Padding.solid_leaves, hkeyword, Range.solid_leaves hproper]

end Filter

namespace Expr

variable {e : Expr} {level : Level}

@[simp] lemma filters_bare : e.bare.filters = e.filters.map Filter.bare := by
  induction e with
  | filter f => rfl
  | group left e right ih => exact ih
  | neg op e ih => exact ih
  | join j l op r ihl ihr => simp [bare, filters, ihl, ihr]

lemma Grammatical.bare (h : e.Grammatical) : e.bare.Grammatical := by
  intro f hf
  rw [filters_bare, List.mem_map] at hf
  obtain ⟨g, hg, rfl⟩ := hf
  exact Filter.grammatical_bare (h g hg)

lemma Fits.bare (h : e.Fits level) : e.bare.Fits level := by
  induction e generalizing level with
  | filter f => trivial
  | group left e right ih => exact ih h
  | neg op e ih => exact ih h
  | join j l op r ihl ihr => exact ⟨h.1, ihl h.2.1, ihr h.2.2⟩

lemma solid_leaves (h : e.Grammatical) : solid e.node.leaves = e.bare.node.leaves := by
  induction e with
  | filter f =>
    have hf := Filter.solid_leaves (h f (by simp [filters]))
    simpa [node, bare] using hf
  | group left e right ih =>
    have he := ih h
    simp [node, bare, Padding.solid_leaves, he]
  | neg op e ih =>
    have he := ih h
    simp [node, bare, Padding.solid_leaves, he]
  | join j l op r ihl ihr =>
    obtain ⟨hl, hr⟩ := grammatical_join.1 h
    simp [node, bare, Padding.solid_leaves, ihl hl, ihr hr]

end Expr

/-! ## What the compiler sees -/

namespace Compiler

/-- The state after a run, or why it has failed. -/
def outcome : Except Failure Unit × State → Except Failure State
  | (.ok _, s) => .ok s
  | (.error e, _) => .error e

end Compiler

lemma Filter.outcome_eq {f : Filter} (hs : f.Spelled) (hp : f.Proper) (s : State) :
    outcome (exec (perform (Expr.filter f).steps) s) = (f.draftAfter s.last).map s.extend := by
  rcases hd : f.draftAfter s.last with e | o
  · obtain ⟨s', hs', -⟩ := f.exec_of_draftAfter_error hs hp s hd
    rw [hs']
    rfl
  · rw [f.exec_of_draftAfter_ok hs hp s hd]
    rfl

def Tree.filters : Tree → List Filter
  | .everything => []
  | .expr e => e.filters

lemma Tree.solid_leaves {t : Tree} (h : t.Grammatical) : solid t.node.leaves = t.bare.node.leaves := by
  cases t with
  | everything => rfl
  | expr e =>
    have hending : solid Node.ending.leaves = Node.ending.leaves := rfl
    simp [Tree.node, Tree.bare, Expr.solid_leaves h, hending]

end MapFilter
