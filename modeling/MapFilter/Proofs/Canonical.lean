import MapFilter.Proofs.Acceptance

/-!
# The canonical tree of a filter

The grammar is ambiguous in two ways: it says nothing about the precedence of `not`, `and` and `or`,
and white space between two symbols can belong to either of them. A derivation is canonical if `not`
binds tighter than `and` and that tighter than `or`, both group to the left, and white space belongs
to the left symbol wherever it can. Every text has at most one canonical derivation, and the parser
gives it.
-/

namespace MapFilter

namespace Node

/-! ## Precedence -/

/-- The word that joins the operands of an expression, if that has no parentheses round it. -/
def joint? : Node → Option Joint
  | .branch .expression [_, .branch (.sign .conj) _, _] => some .conj
  | .branch .expression [_, .branch (.sign .disj) _, _] => some .disj
  | _ => none

/-- The operand of `not` is not joined. The left operand of `and` is not joined by `or`, and the right
one not at all. The right operand of `or` is not joined by `or`. -/
def Binds : Rule → List Node → Prop
  | .expression, [.branch (.sign .neg) _, e] => e.joint? = none
  | .expression, [l, .branch (.sign .conj) _, r] => l.joint? ≠ some .disj ∧ r.joint? = none
  | .expression, [_, .branch (.sign .disj) _, r] => r.joint? ≠ some .disj
  | _, _ => True

/-! ## White space -/

mutual

/-- Whether a node ends with a symbol that has no white space after it, so that it could take what
comes next. -/
def takesSpace : Node → Bool
  | .leaf _ => false
  | .branch (.sign _) ns => ns.getLast?.map symbol != some (.token .space)
  | .branch _ ns => lastTakesSpace ns

def lastTakesSpace : List Node → Bool
  | [] => false
  | n :: ns => if ns.isEmpty then n.takesSpace else lastTakesSpace ns

end

def startsWithSpace (n : Node) : Bool := n.leaves.head?.map (·.kind) == some .space

/-- White space that could belong to two neighbours belongs to the left one. -/
def LeansLeft (ns : List Node) : Prop :=
  ns.IsChain fun m n => n.startsWithSpace = true → m.takesSpace = false

/-- A derivation in canonical form. -/
structure Canonical (n : Node) : Prop where
  derivation : n.IsDerivation
  binds : n.Everywhere Binds
  leansLeft : n.Everywhere fun _ => LeansLeft

variable {m n : Node} {ns : List Node} {r : Rule}

@[simp] lemma takesSpace_leaf (l : Lexeme) : (leaf l).takesSpace = false := by rw [takesSpace]

@[simp] lemma lastTakesSpace_concat : lastTakesSpace (ns ++ [n]) = n.takesSpace := by
  induction ns with
  | nil => simp [lastTakesSpace]
  | cons m ns ih =>
    rw [List.cons_append, lastTakesSpace]
    simp [ih]

lemma lastTakesSpace_of_forall (h : ∀ n ∈ ns, n.takesSpace = false) : lastTakesSpace ns = false := by
  rcases List.eq_nil_or_concat ns with rfl | ⟨ms, n, rfl⟩
  · rw [lastTakesSpace]
  · rw [List.concat_eq_append] at h ⊢
    rw [lastTakesSpace_concat]
    exact h n (by simp)

lemma takesSpace_branch (h : ∀ s, r ≠ .sign s) : (branch r ns).takesSpace = lastTakesSpace ns := by
  rw [takesSpace]
  exact h

/-- A node that has no white space at its front and takes none after it. -/
def Neutral (n : Node) : Prop := n.takesSpace = false ∧ n.startsWithSpace = false

@[simp] lemma leansLeft_nil : LeansLeft [] := List.IsChain.nil

@[simp] lemma leansLeft_singleton : LeansLeft [n] := List.IsChain.singleton n

lemma leansLeft_cons_cons : LeansLeft (m :: n :: ns) ↔
    (n.startsWithSpace = true → m.takesSpace = false) ∧ LeansLeft (n :: ns) :=
  List.isChain_cons_cons

lemma leansLeft_of_forall (h : ∀ n ∈ ns, n.takesSpace = false) : LeansLeft ns := by
  induction ns with
  | nil => exact leansLeft_nil
  | cons m ns ih =>
    have hns := ih fun n hn => h n (by simp [hn])
    cases ns with
    | nil => exact leansLeft_singleton
    | cons n ns => exact leansLeft_cons_cons.2 ⟨fun _ => h m (by simp), hns⟩

lemma startsWithSpace_branch (h : m.leaves ≠ []) :
    (branch r (m :: ns)).startsWithSpace = m.startsWithSpace := by
  simp [startsWithSpace, List.head?_append_of_ne_nil _ h]

lemma neutral_leaf {l : Lexeme} (h : l.kind ≠ .space) : (leaf l).Neutral :=
  ⟨takesSpace_leaf l, by simpa [startsWithSpace] using h⟩

end Node

/-! ## Precedence in trees -/

/-- Only expressions are made of expressions. -/
lemma Rule.Produces.not_expression {r : Rule} {ss : List Symbol} (h : r.Produces ss)
    (hroot : r ≠ .root) (hexpr : r ≠ .expression) :
    ∀ s ∈ ss, s ≠ .rule .root ∧ s ≠ .rule .expression := by
  have hoptional : ∀ (b : Bool) (k : Kind), ∀ s ∈ Symbol.optional b (.token k),
      s ≠ .rule .root ∧ s ≠ .rule .expression := by
    intro b k s hs
    cases b with
    | false => cases hs
    | true =>
      rw [List.mem_singleton.1 hs]
      simp
  have hlisted : ∀ (item : Symbol) (n : Nat), item ≠ .rule .root → item ≠ .rule .expression →
      ∀ s ∈ Symbol.listed item n, s ≠ .rule .root ∧ s ≠ .rule .expression := by
    intro item n hitem hitem' s hs
    simp only [Symbol.listed, List.mem_cons, List.mem_append, List.mem_flatten, List.mem_replicate,
      List.not_mem_nil, or_false] at hs
    obtain rfl | rfl | ⟨_, ⟨-, rfl⟩, hs⟩ | rfl := hs
    · simp
    · exact ⟨hitem, hitem'⟩
    · simp only [List.mem_cons, List.not_mem_nil, or_false] at hs
      rcases hs with rfl | rfl
      · simp
      · exact ⟨hitem, hitem'⟩
    · simp
  cases h with
  | everything | whole => exact absurd rfl hroot
  | group | neg | join | single => exact absurd rfl hexpr
  | tagIn n =>
    exact List.forall_mem_cons.2 ⟨by simp, List.forall_mem_cons.2
      ⟨by simp, hlisted _ n (by simp) (by simp)⟩⟩
  | objects n | numbers s n =>
    exact List.forall_mem_cons.2 ⟨by simp, List.forall_mem_cons.2
      ⟨by simp, hlisted _ n (by simp) (by simp)⟩⟩
  | words =>
    rename_i more _ _
    refine List.forall_mem_cons.2 ⟨by simp, ?_⟩
    intro s hs
    simp only [Symbol.words, List.mem_flatMap, List.mem_cons, List.mem_map] at hs
    obtain ⟨w, -, rfl | ⟨k, -, rfl⟩⟩ := hs <;> simp
  | pattern leading trailing =>
    exact List.forall_mem_append.2 ⟨hoptional _ _,
      List.forall_mem_cons.2 ⟨by simp, hoptional _ _⟩⟩
  | sign s before after =>
    exact List.forall_mem_append.2 ⟨hoptional _ _,
      List.forall_mem_cons.2 ⟨by simp, hoptional _ _⟩⟩
  | _ => simp

open Node in
/-- What is said of expressions only is true below every other rule. -/
lemma Node.IsDerivation.binds {n : Node} (h : n.IsDerivation) (hroot : n.symbol ≠ .rule .root)
    (hexpr : n.symbol ≠ .rule .expression) : n.Everywhere Binds := by
  induction h with
  | leaf l => exact .leaf l
  | @branch r ns hp _ ih =>
    have hr : r ≠ .root := fun h => hroot (by rw [h]; rfl)
    have hr' : r ≠ .expression := fun h => hexpr (by rw [h]; rfl)
    refine .branch ?_ ?_
    · unfold Binds
      split <;> first | exact absurd rfl hr' | trivial
    · intro n hn
      obtain ⟨h₁, h₂⟩ := hp.not_expression hr hr' n.symbol (List.mem_map_of_mem hn)
      exact ih n hn h₁ h₂

namespace Expr

open Node

variable {e l r : Expr} {level : Level} {j : Joint} {op left right : Padding}

lemma exists_node (e : Expr) : ∃ ns, e.node = .branch .expression ns :=
  symbol_eq_rule.1 e.symbol_node

@[simp] lemma joint?_join : (join j l op r).node.joint? = some j := by
  cases j <;> rfl

/-- An expression holds together as tight as `level` says, if its own word may be in it. -/
lemma fits_iff_joint? (h : e.Fits .whole) :
    e.Fits level ↔ ∀ j, e.node.joint? = some j → level.admits j = true := by
  cases e with
  | filter f => exact iff_of_true h fun j hj => by cases hj
  | group left e right =>
    refine iff_of_true h fun j hj => ?_
    obtain ⟨ns, hns⟩ := exists_node e
    simp [node, hns, joint?] at hj
  | neg op e =>
    refine iff_of_true h fun j hj => ?_
    obtain ⟨ns, hns⟩ := exists_node e
    simp [node, hns, joint?] at hj
  | join j l op r =>
    constructor
    · rintro ⟨hj, -⟩ j' hj'
      rw [joint?_join] at hj'
      cases hj'
      exact hj
    · intro hj
      exact ⟨hj j joint?_join, h.2⟩

lemma binds_neg (he : e.Fits .whole) :
    Binds .expression [op.node .neg, e.node] ↔ e.Fits .operand := by
  rw [fits_iff_joint? he]
  change e.node.joint? = none ↔ _
  constructor
  · intro h j hj
    rw [h] at hj
    cases hj
  · intro h
    cases hj : e.node.joint? with
    | none => rfl
    | some j => simpa [Level.admits] using h j hj

lemma binds_join (hl : l.Fits .whole) (hr : r.Fits .whole) :
    Binds .expression [l.node, op.node j.sign, r.node] ↔
      l.Fits j.leftLevel ∧ r.Fits j.rightLevel := by
  rw [fits_iff_joint? hl, fits_iff_joint? hr]
  obtain ⟨ns, hns⟩ := exists_node l
  cases j with
  | conj =>
    have hbinds : Binds .expression [l.node, op.node Joint.conj.sign, r.node] ↔
        l.node.joint? ≠ some .disj ∧ r.node.joint? = none := by
      rw [hns]
      rfl
    rw [hbinds]
    generalize l.node.joint? = a
    generalize r.node.joint? = b
    rcases a with _ | _ | _ <;> rcases b with _ | _ | _ <;>
      simp [Level.admits, Joint.leftLevel, Joint.rightLevel]
  | disj =>
    have hbinds : Binds .expression [l.node, op.node Joint.disj.sign, r.node] ↔
        r.node.joint? ≠ some .disj := by
      rw [hns]
      rfl
    rw [hbinds]
    generalize r.node.joint? = b
    rcases b with _ | _ | _ <;> simp [Level.admits, Joint.leftLevel, Joint.rightLevel]

lemma everywhere_binds_sign (p : Padding) (s : Sign) : (p.node s).Everywhere Binds :=
  (p.isDerivation_node s).binds (by simp) (by simp)

/-- Every operand in an expression binds as it has to, if and only if the whole holds together. -/
theorem binds_iff_fits (hg : e.Grammatical) : e.node.Everywhere Binds ↔ e.Fits .whole := by
  induction e with
  | filter f =>
    have hf : f.node.Everywhere Binds :=
      (Filter.isDerivation_node (hg f (by simp [filters]))).binds (by simp) (by simp)
    refine iff_of_true ?_ trivial
    rw [node, everywhere_branch]
    exact ⟨trivial, by simpa using hf⟩
  | group left e right ih =>
    obtain ⟨ns, hns⟩ := exists_node e
    have hbinds : Binds .expression [left.node .lparen, e.node, right.node .rparen] := by
      rw [hns]
      trivial
    simp only [node, everywhere_branch, hbinds, true_and, List.forall_mem_cons, List.not_mem_nil,
      everywhere_binds_sign, ih hg, Fits]
    simp
  | neg op e ih =>
    simp only [node, everywhere_branch, List.forall_mem_cons, List.not_mem_nil,
      everywhere_binds_sign, ih hg, Fits]
    constructor
    · rintro ⟨hbinds, -, he, -⟩
      exact (binds_neg he).1 hbinds
    · intro he
      exact ⟨(binds_neg he.whole).2 he, by simpa using he.whole⟩
  | join j l op r ihl ihr =>
    obtain ⟨hgl, hgr⟩ := grammatical_join.1 hg
    simp only [node, everywhere_branch, List.forall_mem_cons, List.not_mem_nil,
      everywhere_binds_sign, ihl hgl, ihr hgr, Fits]
    constructor
    · rintro ⟨hbinds, hl, -, hr, -⟩
      exact ⟨rfl, (binds_join hl hr).1 hbinds⟩
    · rintro ⟨-, hl, hr⟩
      exact ⟨(binds_join hl.whole hr.whole).2 ⟨hl, hr⟩, hl.whole, trivial, by simpa using hr.whole⟩

end Expr

/-! ## White space in trees -/

namespace Node

variable {m n : Node} {ns : List Node} {ls : List Lexeme}

lemma leansLeft_cons_of_takes (h : n.takesSpace = false) : LeansLeft (n :: ns) ↔ LeansLeft ns := by
  cases ns with
  | nil => exact iff_of_true leansLeft_singleton leansLeft_nil
  | cons m ns => rw [leansLeft_cons_cons, and_iff_right fun _ => h]

lemma leansLeft_cons_of_starts (h : n.startsWithSpace = false) :
    LeansLeft (m :: n :: ns) ↔ LeansLeft (n :: ns) := by
  rw [leansLeft_cons_cons, and_iff_right (by simp [h])]

/-- A node ends with a symbol: either it could take white space, or it has done so. -/
def EndsWithSign (n : Node) : Prop :=
  n.takesSpace = true ∨ ∃ ls a, n.leaves = ls ++ [⟨.space, a⟩]

lemma EndsWithSign.branch {r : Rule} (hr : ∀ s, r ≠ .sign s) (hlast : ns.getLast? = some n)
    (hn : n.EndsWithSign) : (Node.branch r ns).EndsWithSign := by
  obtain ⟨ms, rfl⟩ := List.getLast?_eq_some_iff.1 hlast
  rcases hn with hn | ⟨ls, a, hn⟩
  · exact .inl (by rw [takesSpace_branch hr, lastTakesSpace_concat, hn])
  · exact .inr ⟨leavesOf ms ++ ls, a, by simp [hn]⟩

/-- Where white space belongs to the left, none stands at the front of what comes after a symbol. -/
lemma EndsWithSign.seam (hm : m.EndsWithSign) (h : n.startsWithSpace = true → m.takesSpace = false)
    (hs : Spaced (m.leaves ++ (n.leaves ++ ls))) : n.startsWithSpace = false := by
  by_contra hn
  rw [Bool.not_eq_false] at hn
  rcases hm with hm | ⟨k, a, hm⟩
  · simp [h hn] at hm
  · have hfirst : ∃ b ms, n.leaves = ⟨.space, b⟩ :: ms := by
      rw [startsWithSpace] at hn
      cases hleaves : n.leaves with
      | nil => simp [hleaves] at hn
      | cons l ms =>
        obtain ⟨kind, b⟩ := l
        obtain rfl : kind = .space := by simpa [hleaves] using hn
        exact ⟨b, ms, rfl⟩
    obtain ⟨b, ms, hleaves⟩ := hfirst
    rw [hm, hleaves, List.append_assoc] at hs
    have hpair := (List.isChain_cons_cons.1 hs.right).1
    exact hpair ⟨rfl, rfl⟩

end Node

open Node

namespace Padding

variable {p : Padding} {s : Sign}

lemma takesSpace_node : (p.node s).takesSpace = p.after.isNone := by
  have hne := s.kind_ne_space
  obtain ⟨before, after⟩ := p
  cases after with
  | none =>
    rw [Padding.node, takesSpace]
    simp [spaceNodes, Kind.node, symbol, hne]
  | some a =>
    rw [Padding.node, takesSpace]
    simp [spaceNodes, symbol]

lemma startsWithSpace_node : (p.node s).startsWithSpace = p.before.isSome := by
  have hne := s.kind_ne_space
  obtain ⟨before, after⟩ := p
  cases before <;> simp [Padding.node, startsWithSpace, spaceNodes, Kind.node, hne]

lemma endsWithSign_node : (p.node s).EndsWithSign := by
  cases ha : p.after with
  | none => exact .inl (by simp [takesSpace_node, ha])
  | some a =>
    refine .inr ⟨Node.leavesOf (spaceNodes p.before) ++ s.kind.node.leaves, a, ?_⟩
    simp [Padding.node, ha, spaceNodes]

lemma leansLeft_node : (p.node s).Everywhere fun _ => LeansLeft := by
  have hleaf : ∀ n ∈ spaceNodes p.before ++ s.kind.node :: spaceNodes p.after, ∃ l, n = .leaf l := by
    intro n hn
    simp only [List.mem_append, List.mem_cons, spaceNodes, List.mem_map] at hn
    obtain ⟨t, -, rfl⟩ | rfl | ⟨t, -, rfl⟩ := hn <;> exact ⟨_, rfl⟩
  rw [Padding.node, everywhere_branch]
  constructor
  · refine leansLeft_of_forall fun n hn => ?_
    obtain ⟨l, rfl⟩ := hleaf n hn
    exact takesSpace_leaf l
  · intro n hn
    obtain ⟨l, rfl⟩ := hleaf n hn
    exact .leaf l

/-- Between two symbols, white space that belongs to the left is not before the right one. -/
lemma before_eq_none {q : Padding} {t : Sign} {ls : List Lexeme}
    (h : (q.node t).startsWithSpace = true → (p.node s).takesSpace = false)
    (hs : Spaced ((p.node s).leaves ++ ((q.node t).leaves ++ ls))) : q.before = none := by
  have hq := endsWithSign_node.seam h hs
  simpa [startsWithSpace_node] using hq

end Padding

namespace Text

variable {x : Text}

lemma children_leaves (x : Text) : ∃ ls : List Lexeme, x.node = .branch .text (ls.map .leaf) := by
  cases x with
  | quoted s => exact ⟨[⟨.quoted, s⟩], rfl⟩
  | number s => exact ⟨[⟨.number, s⟩], rfl⟩
  | words first more =>
    refine ⟨first :: more.flatMap fun w => ⟨.colon, ":"⟩ :: w.toList, ?_⟩
    simp [Text.node, List.map_flatMap, Kind.node, Kind.spelling?]

lemma exists_leaf (x : Text) : ∃ l ls, x.node.leaves = l :: ls := by
  cases x with
  | quoted s | number s => exact ⟨_, [], by simp [Text.node]; rfl⟩
  | words first more => exact ⟨first, _, Lookahead.leaves_words first more⟩

lemma mem_colonWords {l : Lexeme} {ws : List (Option Lexeme)} (h : l ∈ Lookahead.colonWords ws) :
    l = ⟨.colon, ":"⟩ ∨ some l ∈ ws := by
  induction ws with
  | nil => cases h
  | cons w ws ih =>
    simp only [Lookahead.colonWords, List.mem_cons, List.mem_append, Option.mem_toList] at h
    rcases h with rfl | hw | h
    · exact .inl rfl
    · exact .inr (hw ▸ List.mem_cons_self)
    · exact (ih h).imp_right (List.mem_cons_of_mem w)

lemma kind_ne_space (hx : x.Proper) : ∀ l ∈ x.node.leaves, l.kind ≠ .space := by
  have hword : ∀ {k : Kind}, k.isWord = true → k ≠ .space := by
    rintro k hk rfl
    simp [Kind.isWord] at hk
  cases x with
  | quoted s | number s => simp [Text.node]
  | words first more =>
    intro l hl
    rw [Lookahead.leaves_words, List.mem_cons] at hl
    rcases hl with rfl | hl
    · exact hword hx.1
    · rcases mem_colonWords hl with rfl | hl
      · simp
      · exact hword (hx.2 l hl)

lemma leansLeft_node (x : Text) : x.node.Everywhere fun _ => LeansLeft := by
  obtain ⟨ls, hx⟩ := children_leaves x
  rw [hx, everywhere_branch]
  exact ⟨leansLeft_of_forall (by simp), by simp⟩

lemma neutral_node (hx : x.Proper) : x.node.Neutral := by
  constructor
  · obtain ⟨ls, hx⟩ := children_leaves x
    rw [hx, takesSpace_branch (by simp)]
    exact lastTakesSpace_of_forall (by simp)
  · obtain ⟨l, ls, hleaves⟩ := exists_leaf x
    have hne := kind_ne_space hx l (by simp [hleaves])
    simpa [startsWithSpace, hleaves] using hne

end Text

namespace Pattern

variable {p : Pattern}

lemma takesSpace_children (hp : p.text.Proper) :
    ∀ n ∈ (if p.leading then [Kind.star.node] else []) ++ p.text.node ::
      (if p.trailing then [Kind.star.node] else []), n.takesSpace = false := by
  have hstar : ∀ b : Bool, ∀ n ∈ (if b then [Kind.star.node] else []), n.takesSpace = false := by
    intro b n hn
    cases b with
    | false => cases hn
    | true =>
      rw [List.mem_singleton.1 hn]
      exact takesSpace_leaf _
  exact List.forall_mem_append.2
    ⟨hstar _, List.forall_mem_cons.2 ⟨(Text.neutral_node hp).1, hstar _⟩⟩

lemma leansLeft_node (hp : p.text.Proper) : p.node.Everywhere fun _ => LeansLeft := by
  have hstar : ∀ b : Bool, ∀ n ∈ (if b then [Kind.star.node] else []),
      n.Everywhere fun _ => LeansLeft := by
    intro b n hn
    cases b with
    | false => cases hn
    | true =>
      rw [List.mem_singleton.1 hn]
      exact .leaf _
  rw [Pattern.node, everywhere_branch]
  exact ⟨leansLeft_of_forall (takesSpace_children hp), List.forall_mem_append.2
    ⟨hstar _, List.forall_mem_cons.2 ⟨Text.leansLeft_node _, hstar _⟩⟩⟩

lemma neutral_node (hp : p.text.Proper) : p.node.Neutral := by
  constructor
  · rw [Pattern.node, takesSpace_branch (by simp)]
    exact lastTakesSpace_of_forall (takesSpace_children hp)
  · cases hl : p.leading with
    | false =>
      have htext := (Text.neutral_node hp).2
      obtain ⟨l, ls, hleaves⟩ := Text.exists_leaf p.text
      simp only [startsWithSpace, hleaves] at htext
      simpa [Pattern.node, hl, startsWithSpace, hleaves] using htext
    | true => simp [Pattern.node, hl, startsWithSpace, Kind.node]

end Pattern

namespace Listed

variable {α : Type} {item : α → Node} {l : Listed α}

lemma leansLeft_items (hfirst : (item l.first).Neutral) (hmore : ∀ x ∈ l.more, (item x.2).Neutral) :
    LeansLeft (item l.first :: (commaNodes item l.more ++ [l.right.node .rparen])) := by
  generalize l.first = a at hfirst ⊢
  generalize l.more = more at hmore ⊢
  induction more generalizing a with
  | nil => exact (leansLeft_cons_of_takes hfirst.1).2 leansLeft_singleton
  | cons x more ih =>
    have hx := hmore x (by simp)
    have hrest := ih x.2 hx fun y hy => hmore y (by simp [hy])
    refine (leansLeft_cons_of_takes hfirst.1).2 ?_
    exact (leansLeft_cons_of_starts hx.2).2 hrest

/-- The nodes of a list after a symbol. Only at its front white space could belong to two of them. -/
lemma leansLeft_nodes {op : Padding} {s : Sign} (h : ∀ a ∈ l.items, (item a).Neutral) :
    LeansLeft (op.node s :: l.nodes item) ↔
      ((l.left.node .lparen).startsWithSpace = true → (op.node s).takesSpace = false) := by
  obtain ⟨hfirst, hmore⟩ := forall_items_iff.1 h
  rw [nodes_eq, leansLeft_cons_cons, leansLeft_cons_of_starts hfirst.2]
  exact and_iff_left (leansLeft_items hfirst hmore)

end Listed

namespace Range

variable {r : Range} {g : Grain}

lemma neutral_bound {l : Lexeme} (h : g.isBound l.kind = true) : (Node.leaf l).Neutral :=
  neutral_leaf (Parser.isBound_ne h).1

/-- In a range, the dots may stand beside a parenthesis. -/
lemma leansLeft_node (hb : ∀ l ∈ r.bounds.written, g.isBound l.kind = true) (ht : r.Tight) :
    (r.node g).Everywhere fun _ => LeansLeft := by
  obtain ⟨left, b, right⟩ := r
  cases b with
  | both l d u =>
    have hl := neutral_bound (hb l (by simp [Bounds.written]))
    have hu := neutral_bound (hb u (by simp [Bounds.written]))
    simp only [Range.node, Bounds.nodes, everywhere_branch, List.cons_append, List.nil_append,
      List.forall_mem_cons, Padding.leansLeft_node, everywhere_leaf]
    refine ⟨?_, by simp⟩
    rw [leansLeft_cons_of_starts hl.2, leansLeft_cons_of_takes hl.1, leansLeft_cons_of_starts hu.2,
      leansLeft_cons_of_takes hu.1]
    exact leansLeft_singleton
  | upTo d u =>
    have hd : (d.node .dots).startsWithSpace = false := by
      rw [Padding.startsWithSpace_node, show d.before = none from ht]
      rfl
    have hu := neutral_bound (hb u (by simp [Bounds.written]))
    simp only [Range.node, Bounds.nodes, everywhere_branch, List.cons_append, List.nil_append,
      List.forall_mem_cons, Padding.leansLeft_node, everywhere_leaf]
    refine ⟨?_, by simp⟩
    rw [leansLeft_cons_of_starts hd, leansLeft_cons_of_starts hu.2, leansLeft_cons_of_takes hu.1]
    exact leansLeft_singleton
  | startingAt l d =>
    have hr : (right.node .rparen).startsWithSpace = false := by
      rw [Padding.startsWithSpace_node, show right.before = none from ht]
      rfl
    have hl := neutral_bound (hb l (by simp [Bounds.written]))
    simp only [Range.node, Bounds.nodes, everywhere_branch, List.cons_append, List.nil_append,
      List.forall_mem_cons, Padding.leansLeft_node, everywhere_leaf]
    refine ⟨?_, by simp⟩
    rw [leansLeft_cons_of_starts hl.2, leansLeft_cons_of_takes hl.1, leansLeft_cons_of_starts hr]
    exact leansLeft_singleton

lemma tight_of_leansLeft (h : (r.node g).Everywhere fun _ => LeansLeft)
    (hs : Spaced (r.node g).leaves) : r.Tight := by
  obtain ⟨left, b, right⟩ := r
  cases b with
  | both l d u => trivial
  | upTo d u =>
    simp only [Range.node, Bounds.nodes, everywhere_branch, List.cons_append, List.nil_append,
      leansLeft_cons_cons, Node.leaves_branch, Node.leavesOf_cons] at h hs
    exact Padding.before_eq_none h.1.1 hs
  | startingAt l d =>
    simp only [Range.node, Bounds.nodes, everywhere_branch, List.cons_append, List.nil_append,
      leansLeft_cons_cons, Node.leaves_branch, Node.leavesOf_cons] at h hs
    exact Padding.before_eq_none h.1.2.2.1 hs.right.right

lemma endsWithSign_node : (r.node g).EndsWithSign :=
  .branch (n := r.right.node .rparen) (by simp) (by simp [List.getLast?_cons])
    Padding.endsWithSign_node

lemma startsWithSpace_node : (r.node g).startsWithSpace = r.left.before.isSome := by
  rw [Range.node, startsWithSpace_branch Padding.leaves_ne_nil, Padding.startsWithSpace_node]

end Range

namespace Filter

variable {f : Filter}

lemma leansLeft_keywordToken {k : Kind} {op : Padding} {l : Lexeme} (hl : l.kind ≠ .space) :
    LeansLeft [k.node, op.node .colon, .leaf l] ∧
      ∀ n ∈ [k.node, op.node .colon, .leaf l], n.Everywhere fun _ => LeansLeft := by
  have hlast := neutral_leaf hl
  have hkeyword : k.node.takesSpace = false := takesSpace_leaf _
  rw [leansLeft_cons_of_takes hkeyword, leansLeft_cons_of_starts hlast.2]
  exact ⟨leansLeft_singleton, by simp [Padding.leansLeft_node, Kind.node]⟩

lemma leansLeft_keywordList {k last : Kind} {op : Padding} {l : Listed String}
    (hlast : last ≠ .space) (ht : l.left.before = none) :
    LeansLeft (k.node :: op.node .colon :: l.nodes fun s => .leaf ⟨last, s⟩) ∧
      ∀ n ∈ k.node :: op.node .colon :: l.nodes fun s => .leaf ⟨last, s⟩,
        n.Everywhere fun _ => LeansLeft := by
  have hkeyword : k.node.takesSpace = false := takesSpace_leaf _
  have hitems : ∀ s ∈ l.items, (Node.leaf ⟨last, s⟩).Neutral := fun s _ => neutral_leaf hlast
  rw [leansLeft_cons_of_takes hkeyword, Listed.leansLeft_nodes hitems]
  refine ⟨?_, ?_⟩
  · simp [Padding.startsWithSpace_node, ht]
  · have hnodes := Listed.forall_nodes (fun s => .leaf ⟨last, s⟩) (l := l)
      (fun _ _ => Padding.leansLeft_node) fun s _ => everywhere_leaf ⟨last, s⟩
    refine List.forall_mem_cons.2 ⟨.leaf _, List.forall_mem_cons.2 ⟨Padding.leansLeft_node, hnodes⟩⟩

lemma leansLeft_node (hg : f.Grammatical) (ht : f.Tight) : f.node.Everywhere fun _ => LeansLeft := by
  obtain ⟨hproper, htexts⟩ := hg
  rw [Filter.node, everywhere_branch]
  cases f with
  | tag c key op value =>
    have hkey := Text.neutral_node (htexts key (by simp [Filter.texts]))
    have hvalue := Text.neutral_node (htexts value (by simp [Filter.texts]))
    simp only [Filter.nodes]
    rw [leansLeft_cons_of_takes hkey.1, leansLeft_cons_of_starts hvalue.2]
    exact ⟨leansLeft_singleton, by simp [Text.leansLeft_node, Padding.leansLeft_node]⟩
  | tagAny c key op =>
    have hkey := Text.neutral_node (htexts key (by simp [Filter.texts]))
    have hstar : Kind.star.node.Neutral := neutral_leaf (by decide)
    simp only [Filter.nodes]
    rw [leansLeft_cons_of_takes hkey.1, leansLeft_cons_of_starts hstar.2]
    exact ⟨leansLeft_singleton, by simp [Text.leansLeft_node, Padding.leansLeft_node, Kind.node]⟩
  | tagIn key op values =>
    have hkey := Text.neutral_node (htexts key (by simp [Filter.texts]))
    have hvalues : ∀ x ∈ values.items, x.node.Neutral :=
      fun x hx => Text.neutral_node (htexts x (by simp [Filter.texts, hx]))
    simp only [Filter.nodes]
    rw [leansLeft_cons_of_takes hkey.1, Listed.leansLeft_nodes hvalues]
    refine ⟨?_, ?_⟩
    · simp [Padding.startsWithSpace_node, show values.left.before = none from ht]
    · simpa [Text.leansLeft_node, Padding.leansLeft_node] using
        Listed.forall_nodes Text.node (l := values) (fun _ _ => Padding.leansLeft_node)
          fun x _ => Text.leansLeft_node x
  | tagLike key op pattern =>
    have hkey := Text.neutral_node (htexts key (by simp [Filter.texts]))
    have hproper := htexts pattern.text (by simp [Filter.texts])
    have hpattern := Pattern.neutral_node hproper
    simp only [Filter.nodes]
    rw [leansLeft_cons_of_takes hkey.1, leansLeft_cons_of_starts hpattern.2]
    exact ⟨leansLeft_singleton,
      by simp [Text.leansLeft_node, Padding.leansLeft_node, Pattern.leansLeft_node hproper]⟩
  | type op t | geometry op t | object op t | number s op t =>
    exact leansLeft_keywordToken (by simp)
  | objects op os | numbers s op os => exact leansLeft_keywordList (by decide) ht
  | range s op r =>
    have hkeyword : s.kind.node.takesSpace = false := takesSpace_leaf _
    have hstart : (r.node s.grain).startsWithSpace = false := by
      rw [Range.startsWithSpace_node, ht.1]
      rfl
    simp only [Filter.nodes]
    rw [leansLeft_cons_of_takes hkeyword, leansLeft_cons_of_starts hstart]
    exact ⟨leansLeft_singleton,
      by simp [Padding.leansLeft_node, Kind.node, Range.leansLeft_node hproper ht.2]⟩

lemma tight_of_leansLeft (h : f.node.Everywhere fun _ => LeansLeft) (hs : Spaced f.node.leaves) :
    f.Tight := by
  rw [Filter.node, everywhere_branch] at h
  rw [Filter.node, Node.leaves_branch] at hs
  obtain ⟨hnodes, hall⟩ := h
  cases f with
  | tagIn key op l =>
    simp only [Filter.nodes, Listed.nodes, leansLeft_cons_cons, Node.leavesOf_cons] at hnodes hs
    exact Padding.before_eq_none hnodes.2.1 hs.right
  | objects op l | numbers s op l =>
    simp only [Filter.nodes, Listed.nodes, leansLeft_cons_cons, Node.leavesOf_cons] at hnodes hs
    exact Padding.before_eq_none hnodes.2.1 hs.right
  | range s op r =>
    simp only [Filter.nodes, leansLeft_cons_cons, Node.leavesOf_cons] at hnodes hs
    have hr := hall (r.node s.grain) (by simp [Filter.nodes])
    have hstart := Padding.endsWithSign_node.seam hnodes.2.1 hs.right
    rw [Range.startsWithSpace_node] at hstart
    exact ⟨by simpa using hstart, Range.tight_of_leansLeft hr hs.right.right.left⟩
  | _ => trivial

lemma takesSpace_node (hg : f.Grammatical) (hc : f.closes = false) : f.node.takesSpace = false := by
  obtain ⟨-, htexts⟩ := hg
  rw [Filter.node, takesSpace_branch (by simp)]
  cases f <;> simp only [Filter.closes, reduceCtorEq] at hc
  case tag c key op value =>
    simp [Filter.nodes, lastTakesSpace, (Text.neutral_node (htexts value (by simp [Filter.texts]))).1]
  case tagLike key op pattern =>
    simp [Filter.nodes, lastTakesSpace,
      (Pattern.neutral_node (htexts pattern.text (by simp [Filter.texts]))).1]
  all_goals simp [Filter.nodes, lastTakesSpace, Kind.node]

lemma startsWithSpace_node (hg : f.Grammatical) : f.node.startsWithSpace = false := by
  obtain ⟨-, htexts⟩ := hg
  have htext : ∀ {key : Text} {ns : List Node}, key.Proper →
      (Node.branch (.filter f.form) (key.node :: ns)).startsWithSpace = false := by
    intro key ns hkey
    obtain ⟨l, ls, hleaves⟩ := Text.exists_leaf key
    rw [startsWithSpace_branch (by simp [hleaves])]
    exact (Text.neutral_node hkey).2
  have hkeyword : ∀ {k : Kind} {ns : List Node}, k ≠ .space →
      (Node.branch (.filter f.form) (k.node :: ns)).startsWithSpace = false := by
    intro k ns hk
    rw [startsWithSpace_branch (by simp [Kind.node])]
    exact (neutral_leaf hk).2
  cases f with
  | tag | tagAny | tagIn | tagLike => exact htext (htexts _ (by simp [Filter.texts]))
  | number s | numbers s | range s => exact hkeyword (by cases s <;> decide)
  | _ => exact hkeyword (by decide)

lemma endsWithSign_node (hc : f.closes = true) : f.node.EndsWithSign := by
  cases f <;> simp only [Filter.closes, Bool.false_eq_true] at hc
  case range s op r =>
    exact .branch (n := r.node s.grain) (by simp) (by simp [Filter.nodes]) Range.endsWithSign_node
  case tagIn _ _ list | objects _ list | numbers _ _ list =>
    exact .branch (n := list.right.node .rparen) (by simp)
      (by simp [Filter.nodes, Listed.nodes, List.getLast?_cons]) Padding.endsWithSign_node

end Filter

namespace Expr

variable {e : Expr}

lemma takesSpace_node (hg : e.Grammatical) (hc : e.closes = false) : e.node.takesSpace = false := by
  induction e with
  | filter f =>
    have hf := Filter.takesSpace_node (hg f (by simp [filters])) hc
    rw [node, takesSpace_branch (by simp)]
    simpa [lastTakesSpace] using hf
  | group left e right _ => cases hc
  | neg op e ih =>
    rw [node, takesSpace_branch (by simp)]
    simpa [lastTakesSpace] using ih hg hc
  | join j l op r _ ihr =>
    rw [node, takesSpace_branch (by simp)]
    simpa [lastTakesSpace] using ihr (grammatical_join.1 hg).2 hc

lemma endsWithSign_node (hc : e.closes = true) : e.node.EndsWithSign := by
  induction e with
  | filter f => exact .branch (by simp) (by simp) (Filter.endsWithSign_node hc)
  | group left e right _ =>
    exact .branch (n := right.node .rparen) (by simp) (by simp) Padding.endsWithSign_node
  | neg op e ih => exact .branch (by simp) (by simp) (ih hc)
  | join j l op r _ ihr => exact .branch (by simp) (by simp) (ihr hc)

lemma leaves_ne_nil (e : Expr) : e.node.leaves ≠ [] := by
  have := Parser.spine_lt e
  intro h
  simp [h] at this

lemma startsWithSpace_node (hg : e.Grammatical) : e.node.startsWithSpace = e.lead.isSome := by
  induction e with
  | filter f =>
    have hf := Filter.startsWithSpace_node (hg f (by simp [filters]))
    have hne : f.node.leaves ≠ [] := by simpa [node] using leaves_ne_nil (.filter f)
    rw [node, startsWithSpace_branch hne, hf]
    rfl
  | group left e right _ =>
    rw [node, startsWithSpace_branch Padding.leaves_ne_nil, Padding.startsWithSpace_node]
    rfl
  | neg op e _ =>
    rw [node, startsWithSpace_branch Padding.leaves_ne_nil, Padding.startsWithSpace_node]
    rfl
  | join j l op r ihl _ =>
    rw [node, startsWithSpace_branch (leaves_ne_nil l), ihl (grammatical_join.1 hg).1]
    rfl

/-- In the nodes of a tight expression white space belongs to the left. -/
theorem leansLeft_node (hg : e.Grammatical) (ht : e.Tight) :
    e.node.Everywhere fun _ => LeansLeft := by
  -- before a symbol: either the expression ends with one, and the white space has been taken
  have hbefore : ∀ {e : Expr} {p : Padding} {s : Sign}, e.Grammatical →
      (e.closes = true → p.before = none) →
      (p.node s).startsWithSpace = true → e.node.takesSpace = false := by
    intro e p s hg hp hstart
    rw [Padding.startsWithSpace_node] at hstart
    refine takesSpace_node hg ?_
    by_contra hc
    simp [hp (by simpa using hc)] at hstart
  have hafter : ∀ {e : Expr}, e.Grammatical → e.lead = none → e.node.startsWithSpace = false := by
    intro e hg hlead
    rw [startsWithSpace_node hg, hlead]
    rfl
  induction e with
  | filter f =>
    have hf := Filter.leansLeft_node (hg f (by simp [filters])) ht
    rw [node, everywhere_branch]
    exact ⟨leansLeft_singleton, by simpa using hf⟩
  | group left e right ih =>
    obtain ⟨htight, hlead, hcloses⟩ := ht
    replace hg : e.Grammatical := hg
    rw [node, everywhere_branch, leansLeft_cons_of_starts (hafter hg hlead), leansLeft_cons_cons]
    exact ⟨⟨hbefore hg hcloses, leansLeft_singleton⟩, by simp [Padding.leansLeft_node, ih hg htight]⟩
  | neg op e ih =>
    obtain ⟨htight, hlead⟩ := ht
    replace hg : e.Grammatical := hg
    rw [node, everywhere_branch, leansLeft_cons_of_starts (hafter hg hlead)]
    exact ⟨leansLeft_singleton, by simp [Padding.leansLeft_node, ih hg htight]⟩
  | join j l op r ihl ihr =>
    obtain ⟨hl, hcloses, hr, hlead⟩ := ht
    obtain ⟨hgl, hgr⟩ := grammatical_join.1 hg
    rw [node, everywhere_branch, leansLeft_cons_cons, leansLeft_cons_of_starts (hafter hgr hlead)]
    exact ⟨⟨hbefore hgl hcloses, leansLeft_singleton⟩,
      by simp [Padding.leansLeft_node, ihl hgl hl, ihr hgr hr]⟩

theorem tight_of_leansLeft (hg : e.Grammatical) (h : e.node.Everywhere fun _ => LeansLeft)
    (hs : Spaced e.node.leaves) : e.Tight := by
  have hlead : ∀ {e : Expr} {p : Padding} {s : Sign} {ls : List Lexeme}, e.Grammatical →
      (e.node.startsWithSpace = true → (p.node s).takesSpace = false) →
      Spaced ((p.node s).leaves ++ (e.node.leaves ++ ls)) → e.lead = none := by
    intro e p s ls hg h hs
    have hstart := Padding.endsWithSign_node.seam h hs
    simpa [startsWithSpace_node hg] using hstart
  have hbefore : ∀ {e : Expr} {p : Padding} {s : Sign} {ls : List Lexeme},
      ((p.node s).startsWithSpace = true → e.node.takesSpace = false) →
      Spaced (e.node.leaves ++ ((p.node s).leaves ++ ls)) → e.closes = true → p.before = none := by
    intro e p s ls h hs hc
    have hstart := (endsWithSign_node hc).seam h hs
    simpa [Padding.startsWithSpace_node] using hstart
  induction e with
  | filter f =>
    rw [node, everywhere_branch] at h
    exact Filter.tight_of_leansLeft (h.2 f.node (by simp)) (by simpa [node] using hs)
  | group left e right ih =>
    simp only [node, everywhere_branch, leansLeft_cons_cons, List.forall_mem_cons,
      Node.leaves_branch, Node.leavesOf_cons] at h hs
    obtain ⟨⟨hleft, hright, -⟩, -, he, -⟩ := h
    exact ⟨ih hg he hs.right.left, hlead hg hleft hs, hbefore hright hs.right⟩
  | neg op e ih =>
    simp only [node, everywhere_branch, leansLeft_cons_cons, List.forall_mem_cons,
      Node.leaves_branch, Node.leavesOf_cons] at h hs
    obtain ⟨⟨hop, -⟩, -, he, -⟩ := h
    exact ⟨ih hg he hs.right.left, hlead hg hop hs⟩
  | join j l op r ihl ihr =>
    obtain ⟨hgl, hgr⟩ := grammatical_join.1 hg
    simp only [node, everywhere_branch, leansLeft_cons_cons, List.forall_mem_cons,
      Node.leaves_branch, Node.leavesOf_cons] at h hs
    obtain ⟨⟨hop, hright, -⟩, hl, -, hr, -⟩ := h
    exact ⟨ihl hgl hl hs.left, hbefore hop hs, ihr hgr hr hs.right.right.left,
      hlead hgr hright hs.right⟩

end Expr

/-! ## Trees of whole texts -/

open Node in
/-- The canonical trees are the tight ones in which every operand fits. -/
theorem Tree.canonical_node_iff {t : Tree} (hg : t.Grammatical) (hs : Spaced t.node.leaves) :
    t.node.Canonical ↔ t.Tight ∧ t.Fits := by
  have hderivation : t.node.IsDerivation := Tree.isDerivation_node hg
  have hending : Node.ending.startsWithSpace = false := rfl
  cases t with
  | everything =>
    refine iff_of_true ⟨hderivation, ?_, ?_⟩ ⟨trivial, trivial⟩
    · simp [Tree.node, Kind.node, ending, Binds]
    · simp [Tree.node, Kind.node, leansLeft_cons_of_starts hending]
      simp [ending]
  | expr e =>
    have hbinds : (Tree.expr e).node.Everywhere Binds ↔ e.Fits .whole := by
      rw [← Expr.binds_iff_fits hg]
      simp [Tree.node, ending, Binds]
    have hleans : (Tree.expr e).node.Everywhere (fun _ => LeansLeft) ↔
        e.node.Everywhere fun _ => LeansLeft := by
      simp [Tree.node, leansLeft_cons_of_starts hending]
      simp [ending]
    constructor
    · intro h
      simp only [Tree.node, leaves_branch, leavesOf_cons] at hs
      exact ⟨Expr.tight_of_leansLeft hg (hleans.1 h.leansLeft) hs.left, hbinds.1 h.binds⟩
    · rintro ⟨htight, hfits⟩
      exact ⟨hderivation, hbinds.2 hfits, hleans.2 (Expr.leansLeft_node hg htight)⟩

/-- The tree of a text is tight, and its operands fit. -/
theorem parse_tight_fits {s : String} {t : Tree} (h : parse s = .ok t) : t.Tight ∧ t.Fits := by
  obtain ⟨hfault, hleaves⟩ := parse_leaves h
  obtain ⟨t', hg, htight, hfits, hleaves'⟩ :=
    Tree.exists_canonical (parse_grammatical h) (hleaves ▸ lexemes_spaced hfault)
  have ht' : parse s = .ok t' := parse_of_leaves hg htight hfits (hleaves'.trans hleaves)
  have : t' = t := Except.ok.inj (ht'.symm.trans h)
  exact this ▸ ⟨htight, hfits⟩

/-- The tree of an accepted text is the only canonical derivation of its tokens. -/
theorem parse_eq_ok_canonical {s : String} {t : Tree} (h : parse s = .ok t) :
    (t.node.symbol = .rule .root ∧ t.node.leaves = lexemes s ∧ t.node.Canonical) ∧
      ∀ n : Node, n.symbol = .rule .root → n.leaves = lexemes s → n.Canonical → n = t.node := by
  obtain ⟨hfault, hleaves⟩ := parse_leaves h
  have hspaced := lexemes_spaced hfault
  refine ⟨⟨t.symbol_node, hleaves, ?_⟩, ?_⟩
  · exact (Tree.canonical_node_iff (parse_grammatical h) (hleaves ▸ hspaced)).2 (parse_tight_fits h)
  · intro n hroot hn hcanonical
    obtain ⟨u, hg, rfl⟩ := exists_tree_of_lexemes hcanonical.derivation hroot hfault hn
    obtain ⟨htight, hfits⟩ := (Tree.canonical_node_iff hg (hn ▸ hspaced)).1 hcanonical
    obtain ⟨htight', hfits'⟩ := parse_tight_fits h
    have hu : u = t := Tree.eq_of_leaves hg htight hfits (parse_grammatical h) htight' hfits'
      (hn.trans hleaves.symm)
    rw [hu]

theorem parse_eq_ok_canonical_negated :
    ∃ t, parse "not (id:1) and id:2" = .ok t ∧
      (t.node.symbol = .rule .root ∧ t.node.leaves = lexemes "not (id:1) and id:2" ∧
        t.node.Canonical) ∧
      ∀ n : Node, n.symbol = .rule .root → n.leaves = lexemes "not (id:1) and id:2" →
        n.Canonical → n = t.node := by
  -- the word `not` and the parenthesis hold the white space after them
  have h : parse "not (id:1) and id:2" = .ok (.expr (.join .conj
      (.neg ⟨none, some " "⟩ (.group ⟨none, none⟩ (.filter (.number .id ⟨none, none⟩ "1"))
        ⟨none, some " "⟩))
      ⟨none, some " "⟩ (.filter (.number .id ⟨none, none⟩ "2")))) := by decide +kernel
  exact ⟨_, h, parse_eq_ok_canonical h⟩

end MapFilter
