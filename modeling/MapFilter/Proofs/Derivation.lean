import MapFilter.Proofs.Grammar

/-!
# Trees and derivations

The nodes of a tree are a derivation if every token in the tree is of a kind that may stand there.
And every derivation is that of a tree, up to the spelling of tokens that have only one: a tree does
not keep these.
-/

namespace MapFilter

/-! ## Trees whose tokens may stand where they do -/

def Text.Proper : Text → Prop
  | .words first more => first.kind.isWord = true ∧ ∀ w, some w ∈ more → w.kind.isWord = true
  | _ => True

def Filter.texts : Filter → List Text
  | .tag _ key _ value => [key, value]
  | .tagAny _ key _ => [key]
  | .tagIn key _ values => key :: values.items
  | .tagLike key _ pattern => [key, pattern.text]
  | _ => []

/-- The bounds of a filter are numbers, and its unquoted texts are made of words. -/
structure Filter.Grammatical (f : Filter) : Prop where
  proper : f.Proper
  texts : ∀ t ∈ f.texts, t.Proper

def Expr.Grammatical (e : Expr) : Prop := ∀ f ∈ e.filters, f.Grammatical

def Tree.Grammatical : Tree → Prop
  | .everything => True
  | .expr e => e.Grammatical

lemma Expr.grammatical_join {j : Joint} {l r : Expr} {op : Padding} :
    (join j l op r).Grammatical ↔ l.Grammatical ∧ r.Grammatical :=
  List.forall_mem_append

/-! ## Symbols -/

@[simp] lemma Kind.symbol_node (k : Kind) : k.node.symbol = .token k := rfl

@[simp] lemma Node.symbol_ending : Node.ending.symbol = .token .eof := rfl

@[simp] lemma Padding.symbol_node (p : Padding) (s : Sign) : (p.node s).symbol = .rule (.sign s) := rfl

lemma Padding.leaves_ne_nil {p : Padding} {s : Sign} : (p.node s).leaves ≠ [] := by
  simp [Padding.node, Kind.node]

@[simp] lemma Text.symbol_node (t : Text) : t.node.symbol = .rule .text := by
  cases t <;> rfl

@[simp] lemma Pattern.symbol_node (p : Pattern) : p.node.symbol = .rule .pattern := rfl

@[simp] lemma Range.symbol_node (r : Range) (g : Grain) : (r.node g).symbol = .rule (.range g) := rfl

@[simp] lemma Filter.symbol_node (f : Filter) : f.node.symbol = .rule (.filter f.form) := rfl

@[simp] lemma Expr.symbol_node (e : Expr) : e.node.symbol = .rule .expression := by
  cases e <;> rfl

@[simp] lemma Tree.symbol_node (t : Tree) : t.node.symbol = .rule .root := by
  cases t <;> rfl

lemma map_symbol_spaceNodes (o : Option String) :
    (spaceNodes o).map Node.symbol = Symbol.optional o.isSome (.token .space) := by
  cases o <;> rfl

lemma map_symbol_stars (b : Bool) :
    (if b then [Kind.star.node] else []).map Node.symbol = Symbol.optional b (.token .star) := by
  cases b <;> rfl

/-- The items of a list after the first one, each with the comma before it. -/
def commaNodes {α : Type} (item : α → Node) (more : List (Padding × α)) : List Node :=
  more.flatMap fun x => [x.1.node .comma, item x.2]

lemma commaNodes_cons {α : Type} (item : α → Node) (x : Padding × α) (more : List (Padding × α)) :
    commaNodes item (x :: more) = x.1.node .comma :: item x.2 :: commaNodes item more := rfl

lemma Listed.nodes_eq {α : Type} (item : α → Node) (l : Listed α) : l.nodes item =
    l.left.node .lparen :: item l.first :: (commaNodes item l.more ++ [l.right.node .rparen]) := rfl

lemma Listed.map_symbol_nodes {α : Type} (item : α → Node) {s : Symbol}
    (hitem : ∀ a, (item a).symbol = s) (l : Listed α) :
    (l.nodes item).map Node.symbol = Symbol.listed s l.more.length := by
  have hmore : (commaNodes item l.more).map Node.symbol =
      (List.replicate l.more.length [.rule (.sign .comma), s]).flatten := by
    induction l.more with
    | nil => rfl
    | cons x more ih => simp [commaNodes_cons, ih, hitem, List.replicate_succ]
  simp [Listed.nodes_eq, Symbol.listed, hmore, hitem]

/-! ## From trees to derivations -/

lemma Kind.isDerivation_node (k : Kind) : k.node.IsDerivation := .leaf _

lemma Padding.isDerivation_node (p : Padding) (s : Sign) : (p.node s).IsDerivation := by
  have hspace : ∀ o, ∀ n ∈ spaceNodes o, n.IsDerivation := by
    intro o n hn
    obtain ⟨t, -, rfl⟩ := List.mem_map.1 hn
    exact .leaf _
  rw [Padding.node, Node.isDerivation_branch]
  constructor
  · simpa [map_symbol_spaceNodes] using Rule.Produces.sign s p.before.isSome p.after.isSome
  · intro n hn
    simp only [List.mem_append, List.mem_cons] at hn
    rcases hn with hn | rfl | hn
    · exact hspace _ n hn
    · exact Kind.isDerivation_node _
    · exact hspace _ n hn

lemma map_symbol_words (more : List (Option Lexeme)) :
    (more.flatMap fun w => Kind.colon.node :: w.toList.map .leaf).map Node.symbol =
      Symbol.words (more.map (·.map (·.kind))) := by
  induction more with
  | nil => rfl
  | cons w more ih => cases w <;> simpa [Symbol.words] using ih

lemma Text.isDerivation_node {t : Text} (h : t.Proper) : t.node.IsDerivation := by
  cases t with
  | quoted s => simpa [Text.node] using Rule.Produces.quoted
  | number s => simpa [Text.node] using Rule.Produces.numeral
  | words first more =>
    obtain ⟨hfirst, hmore⟩ := h
    rw [Text.node, Node.isDerivation_branch]
    constructor
    · rw [List.map_cons, map_symbol_words]
      refine .words hfirst ?_
      intro k hk
      simp only [List.mem_map, Option.map_eq_some_iff] at hk
      obtain ⟨_, hw, w, rfl, rfl⟩ := hk
      exact hmore w hw
    · intro n hn
      simp only [List.mem_cons, List.mem_flatMap, List.mem_map] at hn
      obtain rfl | ⟨w, -, rfl | ⟨l, -, rfl⟩⟩ := hn <;> exact .leaf _

lemma Pattern.isDerivation_node {p : Pattern} (h : p.text.Proper) : p.node.IsDerivation := by
  have hstar : ∀ b : Bool, ∀ n ∈ (if b then [Kind.star.node] else []), n.IsDerivation := by
    intro b n hn
    cases b
    · cases hn
    · rw [List.mem_singleton.1 hn]
      exact .leaf _
  rw [Pattern.node, Node.isDerivation_branch]
  constructor
  · rw [List.map_append, List.map_cons, map_symbol_stars, map_symbol_stars, Text.symbol_node]
    exact .pattern p.leading p.trailing
  · intro n hn
    simp only [List.mem_append, List.mem_cons] at hn
    rcases hn with hn | rfl | hn
    · exact hstar _ n hn
    · exact Text.isDerivation_node h
    · exact hstar _ n hn

lemma Listed.forall_items_iff {α : Type} {l : Listed α} {Q : α → Prop} :
    (∀ a ∈ l.items, Q a) ↔ Q l.first ∧ ∀ x ∈ l.more, Q x.2 := by
  rw [Listed.items, List.forall_mem_cons, List.forall_mem_map]

/-- The nodes of a list are symbols and items. -/
lemma Listed.forall_nodes {α : Type} (item : α → Node) {l : Listed α} {P : Node → Prop}
    (hsign : ∀ (p : Padding) (s : Sign), P (p.node s)) (h : ∀ a ∈ l.items, P (item a)) :
    ∀ n ∈ l.nodes item, P n := by
  obtain ⟨hfirst, hmore⟩ := Listed.forall_items_iff.1 h
  intro n hn
  simp only [Listed.nodes_eq, commaNodes, List.mem_cons, List.mem_append, List.mem_flatMap,
    List.not_mem_nil, or_false] at hn
  obtain rfl | rfl | ⟨x, hx, rfl | rfl⟩ | rfl := hn
  · exact hsign _ _
  · exact hfirst
  · exact hsign _ _
  · exact hmore x hx
  · exact hsign _ _

lemma Range.isDerivation_node {g : Grain} {r : Range}
    (h : ∀ l ∈ r.bounds.written, g.isBound l.kind = true) : (r.node g).IsDerivation := by
  rw [Range.node, Node.isDerivation_branch]
  cases hb : r.bounds with
  | both l d u =>
    have hl := h l (by simp [hb, Bounds.written])
    have hu := h u (by simp [hb, Bounds.written])
    exact ⟨by simpa [Bounds.nodes] using Rule.Produces.both hl hu,
      by simp [Bounds.nodes, Padding.isDerivation_node]⟩
  | upTo d u =>
    have hu := h u (by simp [hb, Bounds.written])
    exact ⟨by simpa [Bounds.nodes] using Rule.Produces.upTo hu,
      by simp [Bounds.nodes, Padding.isDerivation_node]⟩
  | startingAt l d =>
    have hl := h l (by simp [hb, Bounds.written])
    exact ⟨by simpa [Bounds.nodes] using Rule.Produces.startingAt hl,
      by simp [Bounds.nodes, Padding.isDerivation_node]⟩

lemma Filter.isDerivation_node {f : Filter} (h : f.Grammatical) : f.node.IsDerivation := by
  obtain ⟨hproper, htexts⟩ := h
  rw [Filter.node, Node.isDerivation_branch]
  cases f with
  | tag c key op value =>
    have hkey := Text.isDerivation_node (htexts key (by simp [Filter.texts]))
    have hvalue := Text.isDerivation_node (htexts value (by simp [Filter.texts]))
    exact ⟨by simpa [Filter.nodes, Filter.form] using Rule.Produces.tag c,
      by simp [Filter.nodes, hkey, hvalue, Padding.isDerivation_node]⟩
  | tagAny c key op =>
    have hkey := Text.isDerivation_node (htexts key (by simp [Filter.texts]))
    exact ⟨by simpa [Filter.nodes, Filter.form] using Rule.Produces.tagAny c,
      by simp [Filter.nodes, hkey, Padding.isDerivation_node, Kind.isDerivation_node]⟩
  | tagIn key op values =>
    have hkey := Text.isDerivation_node (htexts key (by simp [Filter.texts]))
    have hvalues := Listed.forall_nodes Text.node (l := values) Padding.isDerivation_node fun t ht =>
      Text.isDerivation_node (htexts t (by simp [Filter.texts, ht]))
    refine ⟨?_, ?_⟩
    · simpa [Filter.nodes, Filter.form, Listed.map_symbol_nodes Text.node Text.symbol_node]
        using Rule.Produces.tagIn values.more.length
    · simpa [Filter.nodes, hkey, Padding.isDerivation_node] using hvalues
  | tagLike key op pattern =>
    have hkey := Text.isDerivation_node (htexts key (by simp [Filter.texts]))
    have hpattern := Pattern.isDerivation_node (htexts pattern.text (by simp [Filter.texts]))
    exact ⟨by simpa [Filter.nodes, Filter.form] using Rule.Produces.tagLike,
      by simp [Filter.nodes, hkey, hpattern, Padding.isDerivation_node]⟩
  | type op t =>
    exact ⟨by simpa [Filter.nodes, Filter.form] using Rule.Produces.type,
      by simp [Filter.nodes, Padding.isDerivation_node, Kind.isDerivation_node]⟩
  | geometry op t =>
    exact ⟨by simpa [Filter.nodes, Filter.form] using Rule.Produces.geometry,
      by simp [Filter.nodes, Padding.isDerivation_node, Kind.isDerivation_node]⟩
  | object op o =>
    exact ⟨by simpa [Filter.nodes, Filter.form] using Rule.Produces.object,
      by simp [Filter.nodes, Padding.isDerivation_node, Kind.isDerivation_node]⟩
  | objects op os =>
    have hos := Listed.forall_nodes (fun o => .leaf ⟨.objectId, o⟩) (l := os)
      Padding.isDerivation_node fun _ _ => .leaf _
    have hsymbols := os.map_symbol_nodes (fun o => .leaf ⟨.objectId, o⟩) (s := .token .objectId)
      fun _ => rfl
    refine ⟨?_, ?_⟩
    · simpa [Filter.nodes, Filter.form, hsymbols] using Rule.Produces.objects os.more.length
    · simpa [Filter.nodes, Padding.isDerivation_node, Kind.isDerivation_node] using hos
  | number s op n =>
    exact ⟨by simpa [Filter.nodes, Filter.form] using Rule.Produces.number s,
      by simp [Filter.nodes, Padding.isDerivation_node, Kind.isDerivation_node]⟩
  | numbers s op ns =>
    have hns := Listed.forall_nodes (fun n => .leaf ⟨.number, n⟩) (l := ns)
      Padding.isDerivation_node fun _ _ => .leaf _
    have hsymbols := ns.map_symbol_nodes (fun n => .leaf ⟨.number, n⟩) (s := .token .number)
      fun _ => rfl
    refine ⟨?_, ?_⟩
    · simpa [Filter.nodes, Filter.form, hsymbols] using Rule.Produces.numbers s ns.more.length
    · simpa [Filter.nodes, Padding.isDerivation_node, Kind.isDerivation_node] using hns
  | range s op r =>
    have hr := Range.isDerivation_node hproper
    exact ⟨by simpa [Filter.nodes, Filter.form] using Rule.Produces.range s,
      by simp [Filter.nodes, hr, Padding.isDerivation_node, Kind.isDerivation_node]⟩

lemma Expr.isDerivation_node {e : Expr} (h : e.Grammatical) : e.node.IsDerivation := by
  induction e with
  | filter f =>
    have hf := Filter.isDerivation_node (h f (by simp [filters]))
    simpa [node, hf] using Rule.Produces.single f.form
  | group l e r ih =>
    simpa [node, ih h, Padding.isDerivation_node] using Rule.Produces.group
  | neg op e ih =>
    simpa [node, ih h, Padding.isDerivation_node] using Rule.Produces.neg
  | join j l op r ihl ihr =>
    obtain ⟨hl, hr⟩ := grammatical_join.1 h
    simpa [node, ihl hl, ihr hr, Padding.isDerivation_node] using Rule.Produces.join j

theorem Tree.isDerivation_node {t : Tree} (h : t.Grammatical) : t.node.IsDerivation := by
  cases t with
  | everything => simpa [Tree.node, Kind.isDerivation_node, Node.ending] using Rule.Produces.everything
  | expr e =>
    have he := Expr.isDerivation_node (e := e) h
    simpa [Tree.node, he, Node.ending] using Rule.Produces.whole

/-! ## Spelling of fixed tokens -/

/-- The text of a token of a kind that has only one. -/
def Kind.fixed? : Kind → Option String
  | .eof => some "<EOF>"
  | k => k.spelling?

/-- A token as its kind spells it, if there is only one way to. -/
def Lexeme.respell (l : Lexeme) : Lexeme := ⟨l.kind, l.kind.fixed?.getD l.text⟩

namespace Node

mutual

def respell : Node → Node
  | .leaf l => .leaf l.respell
  | .branch r ns => .branch r (respellAll ns)

def respellAll : List Node → List Node
  | [] => []
  | n :: ns => n.respell :: respellAll ns

end

@[simp] lemma respell_leaf (l : Lexeme) : (leaf l).respell = .leaf l.respell := by rw [respell]

@[simp] lemma respell_branch (r : Rule) (ns : List Node) :
    (branch r ns).respell = .branch r (ns.map respell) := by
  have hall : ∀ ns, respellAll ns = ns.map respell := by
    intro ns
    induction ns with
    | nil => rw [respellAll, List.map_nil]
    | cons n ns ih => rw [respellAll, ih, List.map_cons]
  rw [respell, hall]

end Node

lemma Lexeme.respell_of_fixed {k : Kind} {s t : String} (h : k.fixed? = some s) :
    Lexeme.respell ⟨k, t⟩ = ⟨k, s⟩ := by
  simp [Lexeme.respell, h]

lemma Lexeme.respell_of_free {k : Kind} {t : String} (h : k.fixed? = none) :
    Lexeme.respell ⟨k, t⟩ = ⟨k, t⟩ := by
  simp [Lexeme.respell, h]

/-- A keyword or a symbol as a node, however it is spelt. -/
lemma Kind.respell_leaf {k : Kind} (h : k.spelling?.isSome) (t : String) :
    (Node.leaf ⟨k, t⟩).respell = k.node := by
  obtain ⟨s, hs⟩ := Option.isSome_iff_exists.1 h
  have hfixed : k.fixed? = some s := by
    cases k <;> first | exact hs | cases hs
  rw [Node.respell_leaf, Lexeme.respell_of_fixed hfixed, Kind.node, hs, Option.getD_some]

/-! ## From derivations to trees -/

section Reading

variable {ns : List Node}

lemma exists_spaceNodes {present : Bool}
    (h : ns.map Node.symbol = Symbol.optional present (.token .space)) :
    ∃ o, spaceNodes o = ns.map Node.respell := by
  cases present with
  | false =>
    obtain rfl : ns = [] := List.map_eq_nil_iff.1 h
    exact ⟨none, rfl⟩
  | true =>
    obtain ⟨n, rfl, hn⟩ := List.map_eq_singleton_iff.1 h
    obtain ⟨t, rfl⟩ := Node.symbol_eq_token.1 hn
    exact ⟨some t, by simp [spaceNodes, Lexeme.respell, Kind.fixed?, Kind.spelling?]⟩

lemma exists_stars {present : Bool}
    (h : ns.map Node.symbol = Symbol.optional present (.token .star)) :
    (if present then [Kind.star.node] else []) = ns.map Node.respell := by
  cases present with
  | false =>
    obtain rfl : ns = [] := List.map_eq_nil_iff.1 h
    rfl
  | true =>
    obtain ⟨n, rfl, hn⟩ := List.map_eq_singleton_iff.1 h
    obtain ⟨t, rfl⟩ := Node.symbol_eq_token.1 hn
    rw [List.map_singleton, Kind.respell_leaf rfl]
    rfl

end Reading

lemma Sign.kind_spelling (s : Sign) : s.kind.spelling?.isSome := by cases s <;> rfl

lemma Sign.kind_ne_space (s : Sign) : s.kind ≠ .space := by cases s <;> decide

namespace Node.IsDerivation

variable {n : Node}

lemma exists_padding {s : Sign} (h : n.IsDerivation) (hs : n.symbol = .rule (.sign s)) :
    ∃ p : Padding, p.node s = n.respell := by
  obtain ⟨ns, rfl⟩ := symbol_eq_rule.1 hs
  obtain ⟨hp, -⟩ := isDerivation_branch.1 h
  generalize hss : ns.map symbol = ss at hp
  cases hp with
  | sign _ before after =>
    obtain ⟨us, vs, rfl, hus, hvs⟩ := List.map_eq_append_iff.1 hss
    obtain ⟨m, ws, rfl, hm, hws⟩ := List.map_eq_cons_iff.1 hvs
    obtain ⟨t, rfl⟩ := symbol_eq_token.1 hm
    obtain ⟨b, hb⟩ := exists_spaceNodes hus
    obtain ⟨a, ha⟩ := exists_spaceNodes hws
    refine ⟨⟨b, a⟩, ?_⟩
    rw [Padding.node, hb, ha, respell_branch, List.map_append, List.map_cons,
      Kind.respell_leaf s.kind_spelling]

/-- A token of a kind that is not fixed keeps its text. -/
lemma exists_token {k : Kind} (hk : k.fixed? = none) (hs : n.symbol = .token k) :
    ∃ s, Node.leaf ⟨k, s⟩ = n.respell := by
  obtain ⟨s, rfl⟩ := symbol_eq_token.1 hs
  exact ⟨s, by rw [respell_leaf, Lexeme.respell_of_free hk]⟩

lemma respell_keyword {k : Kind} (hk : k.spelling?.isSome) (hs : n.symbol = .token k) :
    k.node = n.respell := by
  obtain ⟨t, rfl⟩ := symbol_eq_token.1 hs
  exact (Kind.respell_leaf hk t).symm

/-- A word keeps its kind, so it may still stand where it does. -/
lemma exists_words {ns : List Node} {more : List (Option Kind)}
    (h : ns.map symbol = Symbol.words more) :
    ∃ ws : List (Option Lexeme), ws.map (·.map (·.kind)) = more ∧
      (ws.flatMap fun w => Kind.colon.node :: w.toList.map .leaf) = ns.map respell := by
  induction more generalizing ns with
  | nil =>
    obtain rfl : ns = [] := List.map_eq_nil_iff.1 h
    exact ⟨[], rfl, rfl⟩
  | cons o more ih =>
    have hsplit : ns.map symbol =
        .token .colon :: (o.toList.map .token ++ Symbol.words more) := by
      simpa [Symbol.words] using h
    obtain ⟨colon, ns, rfl, hcolon, hrest⟩ := List.map_eq_cons_iff.1 hsplit
    have hnode := respell_keyword rfl hcolon
    cases o with
    | none =>
      obtain ⟨ws, hkinds, hws⟩ := ih hrest
      exact ⟨none :: ws, by simp [hkinds], by simp [hws, ← hnode]⟩
    | some k =>
      obtain ⟨word, ns', rfl, hword, htail⟩ := List.map_eq_cons_iff.1 hrest
      obtain ⟨u, rfl⟩ := symbol_eq_token.1 hword
      obtain ⟨ws, hkinds, hws⟩ := ih htail
      exact ⟨some (Lexeme.respell ⟨k, u⟩) :: ws, by simp [hkinds, Lexeme.respell],
        by simp [hws, ← hnode]⟩

lemma exists_text (h : n.IsDerivation) (hs : n.symbol = .rule .text) :
    ∃ t : Text, t.Proper ∧ t.node = n.respell := by
  obtain ⟨ns, rfl⟩ := symbol_eq_rule.1 hs
  obtain ⟨hp, -⟩ := isDerivation_branch.1 h
  generalize hss : ns.map symbol = ss at hp
  cases hp with
  | quoted =>
    obtain ⟨m, rfl, hm⟩ := List.map_eq_singleton_iff.1 hss
    obtain ⟨t, ht⟩ := exists_token rfl hm
    exact ⟨.quoted t, trivial, by simp [Text.node, ht]⟩
  | numeral =>
    obtain ⟨m, rfl, hm⟩ := List.map_eq_singleton_iff.1 hss
    obtain ⟨t, ht⟩ := exists_token rfl hm
    exact ⟨.number t, trivial, by simp [Text.node, ht]⟩
  | @words first more hfirst hmore =>
    obtain ⟨m, ms, rfl, hm, hms⟩ := List.map_eq_cons_iff.1 hss
    obtain ⟨t, rfl⟩ := symbol_eq_token.1 hm
    obtain ⟨ws, rfl, hws⟩ := exists_words hms
    refine ⟨.words (Lexeme.respell ⟨first, t⟩) ws, ⟨hfirst, ?_⟩, by simp [Text.node, hws]⟩
    intro w hw
    exact hmore w.kind (List.mem_map.2 ⟨some w, hw, rfl⟩)

lemma exists_pattern (h : n.IsDerivation) (hs : n.symbol = .rule .pattern) :
    ∃ p : Pattern, p.text.Proper ∧ p.node = n.respell := by
  obtain ⟨ns, rfl⟩ := symbol_eq_rule.1 hs
  obtain ⟨hp, hns⟩ := isDerivation_branch.1 h
  generalize hss : ns.map symbol = ss at hp
  cases hp with
  | pattern leading trailing =>
    obtain ⟨us, vs, rfl, hus, hvs⟩ := List.map_eq_append_iff.1 hss
    obtain ⟨m, ws, rfl, hm, hws⟩ := List.map_eq_cons_iff.1 hvs
    obtain ⟨t, ht, htext⟩ := exists_text (hns m (by simp)) hm
    refine ⟨⟨leading, t, trailing⟩, ht, ?_⟩
    rw [Pattern.node, exists_stars hus, exists_stars hws, htext]
    simp

/-- The items of a list, given what each of them can be read as. -/
lemma exists_listed {α : Type} (item : α → Node) {Q : α → Prop} {s : Symbol} {ns : List Node}
    {count : Nat}
    (hitem : ∀ n : Node, n.IsDerivation → n.symbol = s → ∃ a, Q a ∧ item a = n.respell)
    (hns : ∀ n ∈ ns, n.IsDerivation) (h : ns.map symbol = Symbol.listed s count) :
    ∃ l : Listed α, (∀ a ∈ l.items, Q a) ∧ l.nodes item = ns.map respell := by
  have hmore : ∀ {count : Nat} {ms : List Node}, (∀ n ∈ ms, n.IsDerivation) →
      ms.map symbol = (List.replicate count [.rule (.sign .comma), s]).flatten →
      ∃ more : List (Padding × α), (∀ x ∈ more, Q x.2) ∧
        commaNodes item more = ms.map respell := by
    intro count
    induction count with
    | zero =>
      intro ms _ h
      obtain rfl : ms = [] := List.map_eq_nil_iff.1 h
      exact ⟨[], by simp, rfl⟩
    | succ count ih =>
      intro ms hms h
      rw [List.replicate_succ, List.flatten_cons] at h
      obtain ⟨comma, ms, rfl, hcomma, h⟩ := List.map_eq_cons_iff.1 h
      obtain ⟨m, ms, rfl, hm, h⟩ := List.map_eq_cons_iff.1 h
      obtain ⟨p, hp⟩ := exists_padding (hms comma (by simp)) hcomma
      obtain ⟨a, ha, hnode⟩ := hitem m (hms m (by simp)) hm
      obtain ⟨more, hQ, hmore⟩ := ih (fun n hn => hms n (by simp [hn])) h
      exact ⟨(p, a) :: more, by simpa [ha] using hQ, by simp [commaNodes_cons, hp, hnode, hmore]⟩
  obtain ⟨left, ns, rfl, hleft, h⟩ := List.map_eq_cons_iff.1 h
  obtain ⟨first, ns, rfl, hfirst, h⟩ := List.map_eq_cons_iff.1 h
  obtain ⟨ms, ws, rfl, hms, hws⟩ := List.map_eq_append_iff.1 h
  obtain ⟨right, rfl, hright⟩ := List.map_eq_singleton_iff.1 hws
  obtain ⟨l, hl⟩ := exists_padding (hns left (by simp)) hleft
  obtain ⟨a, ha, hnode⟩ := hitem first (hns first (by simp)) hfirst
  obtain ⟨more, hQ, hmore⟩ := hmore (fun n hn => hns n (by simp [hn])) hms
  obtain ⟨r, hr⟩ := exists_padding (hns right (by simp)) hright
  exact ⟨⟨l, a, more, r⟩, Listed.forall_items_iff.2 ⟨ha, hQ⟩,
    by simp [Listed.nodes_eq, hl, hnode, hmore, hr]⟩

lemma exists_bound {g : Grain} {k : Kind} (hk : g.isBound k = true) (hs : n.symbol = .token k) :
    ∃ l : Lexeme, g.isBound l.kind = true ∧ Node.leaf l = n.respell := by
  obtain ⟨s, rfl⟩ := symbol_eq_token.1 hs
  exact ⟨Lexeme.respell ⟨k, s⟩, hk, (respell_leaf _).symm⟩

lemma exists_range {g : Grain} (h : n.IsDerivation) (hs : n.symbol = .rule (.range g)) :
    ∃ r : Range, (∀ l ∈ r.bounds.written, g.isBound l.kind = true) ∧ r.node g = n.respell := by
  obtain ⟨ns, rfl⟩ := symbol_eq_rule.1 hs
  obtain ⟨hp, hns⟩ := isDerivation_branch.1 h
  generalize hss : ns.map symbol = ss at hp
  cases hp with
  | both hl hu =>
    simp only [List.map_eq_cons_iff, List.map_eq_nil_iff] at hss
    obtain ⟨n₁, _, rfl, h₁, n₂, _, rfl, h₂, n₃, _, rfl, h₃, n₄, _, rfl, h₄, n₅, _, rfl, h₅, rfl⟩ := hss
    obtain ⟨left, hleft⟩ := exists_padding (hns n₁ (by simp)) h₁
    obtain ⟨lower, hlower, hlnode⟩ := exists_bound hl h₂
    obtain ⟨dots, hdots⟩ := exists_padding (hns n₃ (by simp)) h₃
    obtain ⟨upper, hupper, hunode⟩ := exists_bound hu h₄
    obtain ⟨right, hright⟩ := exists_padding (hns n₅ (by simp)) h₅
    exact ⟨⟨left, .both lower dots upper, right⟩, by simp [Bounds.written, hlower, hupper],
      by simp [Range.node, Bounds.nodes, hleft, hlnode, hdots, hunode, hright]⟩
  | upTo hu =>
    simp only [List.map_eq_cons_iff, List.map_eq_nil_iff] at hss
    obtain ⟨n₁, _, rfl, h₁, n₂, _, rfl, h₂, n₃, _, rfl, h₃, n₄, _, rfl, h₄, rfl⟩ := hss
    obtain ⟨left, hleft⟩ := exists_padding (hns n₁ (by simp)) h₁
    obtain ⟨dots, hdots⟩ := exists_padding (hns n₂ (by simp)) h₂
    obtain ⟨upper, hupper, hunode⟩ := exists_bound hu h₃
    obtain ⟨right, hright⟩ := exists_padding (hns n₄ (by simp)) h₄
    exact ⟨⟨left, .upTo dots upper, right⟩, by simp [Bounds.written, hupper],
      by simp [Range.node, Bounds.nodes, hleft, hdots, hunode, hright]⟩
  | startingAt hl =>
    simp only [List.map_eq_cons_iff, List.map_eq_nil_iff] at hss
    obtain ⟨n₁, _, rfl, h₁, n₂, _, rfl, h₂, n₃, _, rfl, h₃, n₄, _, rfl, h₄, rfl⟩ := hss
    obtain ⟨left, hleft⟩ := exists_padding (hns n₁ (by simp)) h₁
    obtain ⟨lower, hlower, hlnode⟩ := exists_bound hl h₂
    obtain ⟨dots, hdots⟩ := exists_padding (hns n₃ (by simp)) h₃
    obtain ⟨right, hright⟩ := exists_padding (hns n₄ (by simp)) h₄
    exact ⟨⟨left, .startingAt lower dots, right⟩, by simp [Bounds.written, hlower],
      by simp [Range.node, Bounds.nodes, hleft, hlnode, hdots, hright]⟩

/-- A text that is compared, the symbol after it and the nodes of what it is compared with. -/
lemma exists_compared {s : Sign} {ns : List Node} {ss : List Symbol} (hns : ∀ n ∈ ns, n.IsDerivation)
    (h : ns.map symbol = .rule .text :: .rule (.sign s) :: ss) :
    ∃ (key : Text) (op : Padding) (ms : List Node), key.Proper ∧ (∀ n ∈ ms, n.IsDerivation) ∧
      ms.map symbol = ss ∧ key.node :: op.node s :: ms.map respell = ns.map respell := by
  obtain ⟨n₁, ms, rfl, h₁, hms⟩ := List.map_eq_cons_iff.1 h
  obtain ⟨n₂, ms, rfl, h₂, hms⟩ := List.map_eq_cons_iff.1 hms
  obtain ⟨key, hkey, hknode⟩ := exists_text (hns n₁ (by simp)) h₁
  obtain ⟨op, hop⟩ := exists_padding (hns n₂ (by simp)) h₂
  exact ⟨key, op, ms, hkey, fun n hn => hns n (by simp [hn]), hms, by simp [hknode, hop]⟩

/-- A keyword, a colon and the nodes of what the keyword is about. -/
lemma exists_keyword {k : Kind} {ns : List Node} {ss : List Symbol} (hk : k.spelling?.isSome)
    (hns : ∀ n ∈ ns, n.IsDerivation) (h : ns.map symbol = .token k :: .rule (.sign .colon) :: ss) :
    ∃ (op : Padding) (ms : List Node), (∀ n ∈ ms, n.IsDerivation) ∧ ms.map symbol = ss ∧
      k.node :: op.node .colon :: ms.map respell = ns.map respell := by
  obtain ⟨n₁, ms, rfl, h₁, hms⟩ := List.map_eq_cons_iff.1 h
  obtain ⟨n₂, ms, rfl, h₂, hms⟩ := List.map_eq_cons_iff.1 hms
  obtain ⟨op, hop⟩ := exists_padding (hns n₂ (by simp)) h₂
  exact ⟨op, ms, fun n hn => hns n (by simp [hn]), hms, by simp [respell_keyword hk h₁, hop]⟩

lemma exists_listedTokens {k : Kind} {ns : List Node} {count : Nat} (hk : k.fixed? = none)
    (hns : ∀ n ∈ ns, n.IsDerivation) (h : ns.map symbol = Symbol.listed (.token k) count) :
    ∃ l : Listed String, l.nodes (fun s => .leaf ⟨k, s⟩) = ns.map respell := by
  obtain ⟨l, -, hl⟩ := exists_listed (fun s => .leaf ⟨k, s⟩) (Q := fun _ => True)
    (fun _ _ hs => by simpa using exists_token hk hs) hns h
  exact ⟨l, hl⟩

lemma exists_filter {form : Form} (h : n.IsDerivation) (hs : n.symbol = .rule (.filter form)) :
    ∃ f : Filter, f.Grammatical ∧ f.node = n.respell := by
  obtain ⟨ns, rfl⟩ := symbol_eq_rule.1 hs
  obtain ⟨hp, hns⟩ := isDerivation_branch.1 h
  rw [respell_branch]
  generalize hss : ns.map symbol = ss at hp
  cases hp with
  | tag c =>
    obtain ⟨key, op, ms, hkey, hms, hmss, hnodes⟩ := exists_compared hns hss
    obtain ⟨m, rfl, hm⟩ := List.map_eq_singleton_iff.1 hmss
    obtain ⟨value, hvalue, hvnode⟩ := exists_text (hms m (by simp)) hm
    exact ⟨.tag c key op value, ⟨trivial, by simp [Filter.texts, hkey, hvalue]⟩,
      by simp [Filter.node, Filter.nodes, Filter.form, ← hnodes, hvnode]⟩
  | tagAny c =>
    obtain ⟨key, op, ms, hkey, -, hmss, hnodes⟩ := exists_compared hns hss
    obtain ⟨m, rfl, hm⟩ := List.map_eq_singleton_iff.1 hmss
    exact ⟨.tagAny c key op, ⟨trivial, by simp [Filter.texts, hkey]⟩,
      by simp [Filter.node, Filter.nodes, Filter.form, ← hnodes, respell_keyword rfl hm]⟩
  | tagIn count =>
    obtain ⟨key, op, ms, hkey, hms, hmss, hnodes⟩ := exists_compared hns hss
    obtain ⟨values, hvalues, hvnodes⟩ :=
      exists_listed Text.node (Q := Text.Proper) (fun _ => exists_text) hms hmss
    exact ⟨.tagIn key op values, ⟨trivial, by simpa [Filter.texts, hkey] using hvalues⟩,
      by simp [Filter.node, Filter.nodes, Filter.form, ← hnodes, hvnodes]⟩
  | tagLike =>
    obtain ⟨key, op, ms, hkey, hms, hmss, hnodes⟩ := exists_compared hns hss
    obtain ⟨m, rfl, hm⟩ := List.map_eq_singleton_iff.1 hmss
    obtain ⟨pattern, hpattern, hpnode⟩ := exists_pattern (hms m (by simp)) hm
    exact ⟨.tagLike key op pattern, ⟨trivial, by simp [Filter.texts, hkey, hpattern]⟩,
      by simp [Filter.node, Filter.nodes, Filter.form, ← hnodes, hpnode]⟩
  | type =>
    obtain ⟨op, ms, -, hmss, hnodes⟩ := exists_keyword rfl hns hss
    obtain ⟨m, rfl, hm⟩ := List.map_eq_singleton_iff.1 hmss
    obtain ⟨t, ht⟩ := exists_token rfl hm
    exact ⟨.type op t, ⟨trivial, by simp [Filter.texts]⟩,
      by simp [Filter.node, Filter.nodes, Filter.form, ← hnodes, ht]⟩
  | geometry =>
    obtain ⟨op, ms, -, hmss, hnodes⟩ := exists_keyword rfl hns hss
    obtain ⟨m, rfl, hm⟩ := List.map_eq_singleton_iff.1 hmss
    obtain ⟨t, ht⟩ := exists_token rfl hm
    exact ⟨.geometry op t, ⟨trivial, by simp [Filter.texts]⟩,
      by simp [Filter.node, Filter.nodes, Filter.form, ← hnodes, ht]⟩
  | object =>
    obtain ⟨op, ms, -, hmss, hnodes⟩ := exists_keyword rfl hns hss
    obtain ⟨m, rfl, hm⟩ := List.map_eq_singleton_iff.1 hmss
    obtain ⟨t, ht⟩ := exists_token rfl hm
    exact ⟨.object op t, ⟨trivial, by simp [Filter.texts]⟩,
      by simp [Filter.node, Filter.nodes, Filter.form, ← hnodes, ht]⟩
  | objects count =>
    obtain ⟨op, ms, hms, hmss, hnodes⟩ := exists_keyword rfl hns hss
    obtain ⟨l, hl⟩ := exists_listedTokens rfl hms hmss
    exact ⟨.objects op l, ⟨trivial, by simp [Filter.texts]⟩,
      by simp [Filter.node, Filter.nodes, Filter.form, ← hnodes, hl]⟩
  | number s =>
    obtain ⟨op, ms, -, hmss, hnodes⟩ := exists_keyword (by cases s <;> rfl) hns hss
    obtain ⟨m, rfl, hm⟩ := List.map_eq_singleton_iff.1 hmss
    obtain ⟨t, ht⟩ := exists_token rfl hm
    exact ⟨.number s op t, ⟨trivial, by simp [Filter.texts]⟩,
      by simp [Filter.node, Filter.nodes, Filter.form, ← hnodes, ht]⟩
  | numbers s count =>
    obtain ⟨op, ms, hms, hmss, hnodes⟩ := exists_keyword (by cases s <;> rfl) hns hss
    obtain ⟨l, hl⟩ := exists_listedTokens rfl hms hmss
    exact ⟨.numbers s op l, ⟨trivial, by simp [Filter.texts]⟩,
      by simp [Filter.node, Filter.nodes, Filter.form, ← hnodes, hl]⟩
  | range s =>
    obtain ⟨op, ms, hms, hmss, hnodes⟩ := exists_keyword (by cases s <;> rfl) hns hss
    obtain ⟨m, rfl, hm⟩ := List.map_eq_singleton_iff.1 hmss
    obtain ⟨r, hr, hrnode⟩ := exists_range (hms m (by simp)) hm
    exact ⟨.range s op r, ⟨hr, by simp [Filter.texts]⟩,
      by simp [Filter.node, Filter.nodes, Filter.form, ← hnodes, hrnode]⟩

lemma exists_expr (h : n.IsDerivation) (hs : n.symbol = .rule .expression) :
    ∃ e : Expr, e.Grammatical ∧ e.node = n.respell := by
  induction h with
  | leaf l => cases hs
  | @branch r ns hp hns ih =>
    cases hs
    generalize hss : ns.map symbol = ss at hp
    cases hp with
    | group =>
      simp only [List.map_eq_cons_iff, List.map_eq_nil_iff] at hss
      obtain ⟨n₁, _, rfl, h₁, n₂, _, rfl, h₂, n₃, _, rfl, h₃, rfl⟩ := hss
      obtain ⟨left, hleft⟩ := exists_padding (hns n₁ (by simp)) h₁
      obtain ⟨e, he, henode⟩ := ih n₂ (by simp) h₂
      obtain ⟨right, hright⟩ := exists_padding (hns n₃ (by simp)) h₃
      exact ⟨.group left e right, he, by simp [Expr.node, hleft, henode, hright]⟩
    | neg =>
      simp only [List.map_eq_cons_iff, List.map_eq_nil_iff] at hss
      obtain ⟨n₁, _, rfl, h₁, n₂, _, rfl, h₂, rfl⟩ := hss
      obtain ⟨op, hop⟩ := exists_padding (hns n₁ (by simp)) h₁
      obtain ⟨e, he, henode⟩ := ih n₂ (by simp) h₂
      exact ⟨.neg op e, he, by simp [Expr.node, hop, henode]⟩
    | join j =>
      simp only [List.map_eq_cons_iff, List.map_eq_nil_iff] at hss
      obtain ⟨n₁, _, rfl, h₁, n₂, _, rfl, h₂, n₃, _, rfl, h₃, rfl⟩ := hss
      obtain ⟨l, hl, hlnode⟩ := ih n₁ (by simp) h₁
      obtain ⟨op, hop⟩ := exists_padding (hns n₂ (by simp)) h₂
      obtain ⟨r, hr, hrnode⟩ := ih n₃ (by simp) h₃
      exact ⟨.join j l op r, Expr.grammatical_join.2 ⟨hl, hr⟩,
        by simp [Expr.node, hlnode, hop, hrnode]⟩
    | single form =>
      obtain ⟨m, rfl, hm⟩ := List.map_eq_singleton_iff.1 hss
      obtain ⟨f, hf, hfnode⟩ := exists_filter (hns m (by simp)) hm
      exact ⟨.filter f, by simpa [Expr.Grammatical, Expr.filters] using hf,
        by simp [Expr.node, hfnode]⟩

/-- Every derivation of a filter is that of a tree, but for the spelling of fixed tokens. -/
theorem exists_tree (h : n.IsDerivation) (hs : n.symbol = .rule .root) :
    ∃ t : Tree, t.Grammatical ∧ t.node = n.respell := by
  obtain ⟨ns, rfl⟩ := symbol_eq_rule.1 hs
  obtain ⟨hp, hns⟩ := isDerivation_branch.1 h
  have hending : ∀ m : Node, m.symbol = .token .eof → Node.ending = m.respell := by
    intro m hm
    obtain ⟨t, rfl⟩ := symbol_eq_token.1 hm
    rw [respell_leaf, Lexeme.respell_of_fixed rfl, Node.ending]
  generalize hss : ns.map symbol = ss at hp
  cases hp with
  | everything =>
    simp only [List.map_eq_cons_iff, List.map_eq_nil_iff] at hss
    obtain ⟨n₁, _, rfl, h₁, n₂, _, rfl, h₂, rfl⟩ := hss
    have hstar := respell_keyword rfl h₁
    exact ⟨.everything, trivial, by simp [Tree.node, hstar, hending n₂ h₂]⟩
  | whole =>
    simp only [List.map_eq_cons_iff, List.map_eq_nil_iff] at hss
    obtain ⟨n₁, _, rfl, h₁, n₂, _, rfl, h₂, rfl⟩ := hss
    obtain ⟨e, he, henode⟩ := exists_expr (hns n₁ (by simp)) h₁
    exact ⟨.expr e, he, by simp [Tree.node, henode, hending n₂ h₂]⟩

end Node.IsDerivation

end MapFilter
