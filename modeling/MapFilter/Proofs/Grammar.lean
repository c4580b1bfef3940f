import MapFilter.Proofs.Parsing

/-!
# The grammar

What each rule of the filter language can be made of. `Derives` is the meaning of these productions,
read as those of a context-free grammar over the kinds of token: nothing is said about precedence,
nor about which of two neighbours white space belongs to. A derivation can be kept as a tree of
nodes, in which every rule is made of one of its productions.
-/

namespace MapFilter

/-! ## Productions -/

namespace Symbol

def optional (present : Bool) (s : Symbol) : List Symbol := if present then [s] else []

/-- An item, `n` more of them after commas, and parentheses round them. -/
def listed (item : Symbol) (n : Nat) : List Symbol :=
  .rule (.sign .lparen) :: item ::
    ((List.replicate n [.rule (.sign .comma), item]).flatten ++ [.rule (.sign .rparen)])

/-- Words of an unquoted text, each after a colon or left out after it. -/
def words (more : List (Option Kind)) : List Symbol :=
  more.flatMap fun w => .token .colon :: w.toList.map .token

end Symbol

/-- The productions of each rule. -/
inductive Rule.Produces : Rule → List Symbol → Prop where
  | everything : Produces .root [.token .star, .token .eof]
  | whole : Produces .root [.rule .expression, .token .eof]
  | group : Produces .expression
      [.rule (.sign .lparen), .rule .expression, .rule (.sign .rparen)]
  | neg : Produces .expression [.rule (.sign .neg), .rule .expression]
  | join (j : Joint) : Produces .expression
      [.rule .expression, .rule (.sign j.sign), .rule .expression]
  | single (f : Form) : Produces .expression [.rule (.filter f)]
  | tag (c : Comparison) : Produces (.filter (.tag c))
      [.rule .text, .rule (.sign c.sign), .rule .text]
  | tagAny (c : Comparison) : Produces (.filter (.tagAny c))
      [.rule .text, .rule (.sign c.sign), .token .star]
  | tagIn (n : Nat) : Produces (.filter .tagIn)
      (.rule .text :: .rule (.sign .member) :: Symbol.listed (.rule .text) n)
  | tagLike : Produces (.filter .tagLike) [.rule .text, .rule (.sign .tilde), .rule .pattern]
  | type : Produces (.filter .type) [.token .type, .rule (.sign .colon), .token .objectType]
  | geometry : Produces (.filter .geometry)
      [.token .geometry, .rule (.sign .colon), .token .geometryType]
  | object : Produces (.filter .object) [.token .id, .rule (.sign .colon), .token .objectId]
  | objects (n : Nat) : Produces (.filter .objects)
      (.token .id :: .rule (.sign .colon) :: Symbol.listed (.token .objectId) n)
  | number (s : Numbered) : Produces (.filter (.number s))
      [.token s.kind, .rule (.sign .colon), .token .number]
  | numbers (s : Listable) (n : Nat) : Produces (.filter (.numbers s))
      (.token s.kind :: .rule (.sign .colon) :: Symbol.listed (.token .number) n)
  | range (s : Ranged) : Produces (.filter (.range s))
      [.token s.kind, .rule (.sign .colon), .rule (.range s.grain)]
  | quoted : Produces .text [.token .quoted]
  | numeral : Produces .text [.token .number]
  | words {first : Kind} {more : List (Option Kind)} : first.isWord = true →
      (∀ k, some k ∈ more → k.isWord = true) → Produces .text (.token first :: Symbol.words more)
  | pattern (leading trailing : Bool) : Produces .pattern
      (Symbol.optional leading (.token .star) ++ .rule .text ::
        Symbol.optional trailing (.token .star))
  | sign (s : Sign) (before after : Bool) : Produces (.sign s)
      (Symbol.optional before (.token .space) ++ .token s.kind ::
        Symbol.optional after (.token .space))
  | both {g : Grain} {l u : Kind} : g.isBound l = true → g.isBound u = true →
      Produces (.range g) [.rule (.sign .lparen), .token l, .rule (.sign .dots), .token u,
        .rule (.sign .rparen)]
  | upTo {g : Grain} {u : Kind} : g.isBound u = true →
      Produces (.range g) [.rule (.sign .lparen), .rule (.sign .dots), .token u,
        .rule (.sign .rparen)]
  | startingAt {g : Grain} {l : Kind} : g.isBound l = true →
      Produces (.range g) [.rule (.sign .lparen), .token l, .rule (.sign .dots),
        .rule (.sign .rparen)]

/-- The kinds of token that a sequence of symbols can stand for: a token stands for itself, and a
rule for what one of its productions stands for. -/
inductive Derives : List Symbol → List Kind → Prop where
  | nil : Derives [] []
  | token {k : Kind} {ss : List Symbol} {ks : List Kind} :
      Derives ss ks → Derives (.token k :: ss) (k :: ks)
  | rule {r : Rule} {body ss : List Symbol} {ks ks' : List Kind} :
      r.Produces body → Derives body ks → Derives ss ks' → Derives (.rule r :: ss) (ks ++ ks')

lemma Derives.append {ss ss' : List Symbol} {ks ks' : List Kind} (h : Derives ss ks)
    (h' : Derives ss' ks') : Derives (ss ++ ss') (ks ++ ks') := by
  induction h with
  | nil => exact h'
  | token _ ih => exact .token ih
  | rule hp hbody _ _ ih =>
    rw [List.append_assoc]
    exact .rule hp hbody ih

/-! ## Derivations as trees -/

namespace Node

/-- In a tree, every rule and the nodes that it is made of satisfy `P`. -/
inductive Everywhere (P : Rule → List Node → Prop) : Node → Prop where
  | leaf (l : Lexeme) : Everywhere P (.leaf l)
  | branch {r : Rule} {ns : List Node} :
      P r ns → (∀ n ∈ ns, Everywhere P n) → Everywhere P (.branch r ns)

variable {P : Rule → List Node → Prop} {r : Rule} {n : Node} {ns : List Node}

@[simp] lemma everywhere_leaf (l : Lexeme) : Everywhere P (.leaf l) := .leaf l

@[simp] lemma everywhere_branch :
    Everywhere P (.branch r ns) ↔ P r ns ∧ ∀ n ∈ ns, Everywhere P n := by
  constructor
  · rintro ⟨⟩
    exact ⟨‹_›, ‹_›⟩
  · rintro ⟨hr, hns⟩
    exact .branch hr hns

/-- Every rule is made of one of its productions. -/
def IsDerivation : Node → Prop := Everywhere fun r ns => r.Produces (ns.map symbol)

@[simp] lemma isDerivation_leaf (l : Lexeme) : (leaf l).IsDerivation := .leaf l

@[simp] lemma isDerivation_branch :
    (branch r ns).IsDerivation ↔ r.Produces (ns.map symbol) ∧ ∀ n ∈ ns, n.IsDerivation :=
  everywhere_branch

@[simp] lemma symbol_leaf (l : Lexeme) : (leaf l).symbol = .token l.kind := rfl

@[simp] lemma symbol_branch : (branch r ns).symbol = .rule r := rfl

lemma symbol_eq_token {k : Kind} : n.symbol = .token k ↔ ∃ s, n = .leaf ⟨k, s⟩ := by
  rcases n with ⟨k', s⟩ | ⟨r, ns⟩ <;> simp [eq_comm]

lemma symbol_eq_rule : n.symbol = .rule r ↔ ∃ ns, n = .branch r ns := by
  rcases n with l | ⟨r', ns⟩ <;> simp

/-! ## Derivations and trees -/

lemma derives_of_forall (h : ∀ n ∈ ns, Derives [n.symbol] (n.leaves.map (·.kind))) :
    Derives (ns.map symbol) ((leavesOf ns).map (·.kind)) := by
  induction ns with
  | nil => simpa using Derives.nil
  | cons n ns ih =>
    have hn := h n (by simp)
    have hns := ih fun m hm => h m (by simp [hm])
    simpa using hn.append hns

/-- The tokens of a tree are derived from the symbol at its root. -/
theorem IsDerivation.derives (h : n.IsDerivation) : Derives [n.symbol] (n.leaves.map (·.kind)) := by
  induction h with
  | leaf l => simpa using Derives.nil.token
  | branch hr _ ih => simpa using Derives.rule hr (derives_of_forall ih) .nil

end Node

/-- Every derivation can be kept as trees with any tokens of the right kinds. -/
theorem Derives.exists_nodes {ss : List Symbol} {ks : List Kind} (h : Derives ss ks)
    {ls : List Lexeme} (hls : ls.map (·.kind) = ks) :
    ∃ ns : List Node, ns.map Node.symbol = ss ∧ (∀ n ∈ ns, n.IsDerivation) ∧
      Node.leavesOf ns = ls := by
  induction h generalizing ls with
  | nil => exact ⟨[], rfl, by simp, by simpa using hls⟩
  | token _ ih =>
    obtain ⟨l, ls', rfl, rfl, htail⟩ := List.map_eq_cons_iff.1 hls
    obtain ⟨ns, hns, hd, rfl⟩ := ih htail
    exact ⟨.leaf l :: ns, by simp [hns], by simpa using hd, by simp⟩
  | @rule r _ _ _ _ hp _ _ ihbody ih =>
    obtain ⟨us, vs, rfl, hus, hvs⟩ := List.map_eq_append_iff.1 hls
    obtain ⟨ms, hms, hdm, rfl⟩ := ihbody hus
    obtain ⟨ns, hns, hdn, rfl⟩ := ih hvs
    subst hms
    exact ⟨.branch r ms :: ns, by simp [hns], by simpa using ⟨⟨hp, hdm⟩, hdn⟩, by simp⟩

end MapFilter
