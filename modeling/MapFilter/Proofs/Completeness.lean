import MapFilter.Proofs.FilterCompleteness

/-!
# Trees that the parser finds

For every tree in which white space belongs to the left of two symbols, and in which the operands
hold together as tight as they have to, the parser, set before the tokens of the tree, gives back
this tree and stops after it.
-/

namespace MapFilter

/-! ## White space belongs to the left -/

namespace Expr

/-- The white space at the front of an expression. -/
def lead : Expr → Option String
  | .filter _ => none
  | .group left _ _ => left.before
  | .neg op _ => op.before
  | .join _ l _ _ => l.lead

/-- Whether an expression ends with a symbol, which can take the white space after it. -/
def closes : Expr → Bool
  | .filter f => f.closes
  | .group .. => true
  | .neg _ e => e.closes
  | .join _ _ _ r => r.closes

/-- A symbol right after another one has no white space before it. -/
def Tight : Expr → Prop
  | .filter f => f.Tight
  | .group _ e right => e.Tight ∧ e.lead = none ∧ (e.closes = true → right.before = none)
  | .neg _ e => e.Tight ∧ e.lead = none
  | .join _ l op r => l.Tight ∧ (l.closes = true → op.before = none) ∧ r.Tight ∧ r.lead = none

end Expr

def Tree.Tight : Tree → Prop
  | .everything => True
  | .expr e => e.Tight

def Tree.Fits : Tree → Prop
  | .everything => True
  | .expr e => e.Fits .whole

/-! ## Expressions in their place -/

namespace Parser

open Lookahead

variable {ts mid rest : List Token} {e l r : Expr} {op left right : Padding} {j : Joint}

/-- The tokens of an expression come first, and what comes after them can come after an operand. -/
structure Stands (e : Expr) (ts rest : List Token) : Prop where
  grammatical : e.Grammatical
  tight : e.Tight
  spans : Spans ts e.node.leaves rest
  after : AfterOperand rest
  complete : Complete rest
  space : e.closes = true → nextIs .space rest = false

lemma afterOperand_rparen (h : Spans ts (right.node .rparen).leaves rest)
    (hspace : nextIs .space rest = false) : AfterOperand ts := by
  obtain ⟨t, us, hts, ht, -⟩ := spans_sign h hspace
  have hk : t.kind = .rparen := ht
  exact ⟨t, us, hts, by simp [endsOperand, hk], by simp [Follows, hk]⟩

lemma BeginsExpr.not_space (h : BeginsExpr ts) : nextIs .space ts = false := by
  obtain ⟨t, us, rfl, ht⟩ := h
  have hk : t.kind ≠ .space := by
    rintro hk
    simp [hk, Kind.startsText, Kind.isWord] at ht
  simpa [nextIs] using hk

lemma afterOperand_joint (h : Spans ts (op.node j.sign).leaves rest) (hrest : BeginsExpr rest) :
    AfterOperand ts ∧ joint ts = .found (some j) := by
  obtain ⟨t, us, hts, ht, hus, -⟩ := spans_sign h (BeginsExpr.not_space hrest)
  cases j with
  | conj =>
    have hk : t.kind = .conj := ht
    exact ⟨⟨t, us, hts, by simp [endsOperand, hk], by simpa [Follows, hk, hus] using hrest⟩,
      by simp [joint, hts, hk]⟩
  | disj =>
    have hk : t.kind = .disj := ht
    exact ⟨⟨t, us, hts, by simp [endsOperand, hk], by simpa [Follows, hk, hus] using hrest⟩,
      by simp [joint, hts, hk]⟩

lemma nextIs_space_of_sign {s : Sign} (h : Spans ts (op.node s).leaves rest)
    (hspace : nextIs .space rest = false) (hbefore : op.before = none) : nextIs .space ts = false := by
  obtain ⟨t, us, -, ht, -, hcons, -⟩ := spans_sign h hspace
  obtain rfl := hcons hbefore
  have hne := s.kind_ne_space
  simpa [nextIs, ht] using hne

namespace Stands

lemma of_group (h : Stands (.group left e right) ts rest) :
    ∃ mid₁ mid₂, Spans ts (left.node .lparen).leaves mid₁ ∧ Stands e mid₁ mid₂ ∧
      Spans mid₂ (right.node .rparen).leaves rest ∧ nextIs .space rest = false := by
  obtain ⟨hg, ⟨htight, -, hcloses⟩, hspans, -, hc, hspace⟩ := h
  simp only [Expr.node, Node.leaves_branch, Node.leavesOf_cons, Node.leavesOf_nil, List.append_nil,
    spans_append] at hspans
  obtain ⟨mid₁, hleft, mid₂, he, hright⟩ := hspans
  have hrest : nextIs .space rest = false := hspace rfl
  exact ⟨mid₁, mid₂, hleft, ⟨hg, htight, he, afterOperand_rparen hright hrest, hright.complete hc,
    fun hc => nextIs_space_of_sign hright hrest (hcloses hc)⟩, hright, hrest⟩

lemma of_neg (h : Stands (.neg op e) ts rest) :
    ∃ mid, Spans ts (op.node .neg).leaves mid ∧ Stands e mid rest := by
  obtain ⟨hg, ⟨htight, -⟩, hspans, hafter, hc, hspace⟩ := h
  simp only [Expr.node, Node.leaves_branch, Node.leavesOf_cons, Node.leavesOf_nil, List.append_nil,
    spans_append] at hspans
  obtain ⟨mid, hop, he⟩ := hspans
  exact ⟨mid, hop, hg, htight, he, hafter, hc, hspace⟩

/-- The right operand stands in its place, and then the left one does as well. -/
lemma of_join (h : Stands (.join j l op r) ts rest) :
    ∃ mid₁ mid₂, Spans mid₁ (op.node j.sign).leaves mid₂ ∧ Stands r mid₂ rest ∧
      (BeginsExpr mid₂ → Stands l ts mid₁ ∧ joint mid₁ = .found (some j)) := by
  obtain ⟨hg, ⟨hl, hcloses, hr, -⟩, hspans, hafter, hc, hspace⟩ := h
  obtain ⟨hgl, hgr⟩ := Expr.grammatical_join.1 hg
  simp only [Expr.node, Node.leaves_branch, Node.leavesOf_cons, Node.leavesOf_nil, List.append_nil,
    spans_append] at hspans
  obtain ⟨mid₁, hlspans, mid₂, hop, hrspans⟩ := hspans
  refine ⟨mid₁, mid₂, hop, ⟨hgr, hr, hrspans, hafter, hc, hspace⟩, ?_⟩
  intro hbegins
  obtain ⟨hafter₁, hjoint⟩ := afterOperand_joint hop hbegins
  exact ⟨⟨hgl, hl, hlspans, hafter₁, hop.complete (hrspans.complete hc),
    fun hc => nextIs_space_of_sign hop (BeginsExpr.not_space hbegins) (hcloses hc)⟩, hjoint⟩

/-- Every expression begins as an expression can, after white space if it has some in front. -/
lemma begins (h : Stands e ts rest) :
    BeginsExpr (pastSpace ts) ∧ (e.lead = none → nextIs .space ts = false) := by
  induction e generalizing ts rest with
  | filter f =>
    obtain ⟨-, -, hbegins⟩ := filter_of_spans (.only .eof)
      (h.grammatical f (by simp [Expr.filters])) h.tight (by simpa [Expr.node] using h.spans)
      h.after h.complete h.space
    have hspace := BeginsExpr.not_space hbegins
    rw [pastSpace_of_not_space hspace]
    exact ⟨hbegins, fun _ => hspace⟩
  | group left e right ih =>
    obtain ⟨mid₁, mid₂, hleft, he, -⟩ := h.of_group
    have hspace := (ih he).2 h.tight.2.1
    obtain ⟨t, us, hts, ht, -⟩ := spans_sign hleft hspace
    exact ⟨⟨t, us, hts, .inl ht⟩, fun hbefore => nextIs_space_of_sign hleft hspace hbefore⟩
  | neg op e ih =>
    obtain ⟨mid, hop, he⟩ := h.of_neg
    have hspace := (ih he).2 h.tight.2
    obtain ⟨t, us, hts, ht, -⟩ := spans_sign hop hspace
    have hk : t.kind = .neg := ht
    exact ⟨⟨t, us, hts, .inr ⟨by simp [hk, Kind.startsText, Kind.isWord], by simp [hk, isJoining]⟩⟩,
      fun hbefore => nextIs_space_of_sign hop hspace hbefore⟩
  | join j l op r ihl ihr =>
    obtain ⟨mid₁, mid₂, hop, hr, hleft⟩ := h.of_join
    obtain ⟨hbegins, hspace⟩ := ihr hr
    rw [pastSpace_of_not_space (hspace h.tight.2.2.2)] at hbegins
    exact ihl (hleft hbegins).1

/-- An expression with no white space in front of it begins at once. -/
lemma begins_of_lead (h : Stands e ts rest) (hlead : e.lead = none) : BeginsExpr ts := by
  obtain ⟨hbegins, hspace⟩ := h.begins
  rwa [pastSpace_of_not_space (hspace hlead)] at hbegins

end Stands

/-! ## Operands -/

variable {n : Nat} {next : KindSet} {level : Level}

/-- What a parser of expressions has to do for all expressions of at most `n` tokens. -/
def Finds (sub : Level → KindSet → Parser Expr) (n : Nat) : Prop :=
  ∀ ⦃level next e ts rest⦄, Stands e ts rest → e.Fits level → e.node.leaves.length ≤ n →
    (∀ j, joint rest = .found (some j) → level.admits j = false) →
    sub level next ts = .ok (e, rest)

section Steps

variable {sub : Level → KindSet → Parser Expr}

lemma BeginsExpr.startsExpr (h : BeginsExpr (pastSpace ts)) :
    ∃ t us, ts = t :: us ∧ startsExpr t.kind = true := by
  obtain ⟨t, us, hts, ht⟩ := h
  rcases cons_of_pastSpace hts with rfl | ⟨s, hs, rfl⟩
  · refine ⟨t, us, rfl, ?_⟩
    rcases ht with ht | ⟨ht, -⟩ <;> simp [Parser.startsExpr, KindSet.union, KindSet.ofList, ht]
  · exact ⟨s, t :: us, rfl, by simp [Parser.startsExpr, KindSet.union, KindSet.ofList, hs]⟩

lemma filter_operand {f : Filter} (h : Stands (.filter f) ts rest) :
    operand sub next ts = .ok (.filter f, rest) := by
  obtain ⟨t, us, rfl, ht⟩ := BeginsExpr.startsExpr h.begins.1
  obtain ⟨hparse, hopening, -⟩ := filter_of_spans (orJoint next)
    (h.grammatical f (by simp [Expr.filters])) h.tight (by simpa [Expr.node] using h.spans)
    h.after h.complete h.space
  rw [operand, bind_of_ok (require_cons ht), bind_of_ok (settle_of_found hopening)]
  exact map_of_ok hparse

lemma group_operand (hsub : Finds sub n) (h : Stands (.group left e right) ts rest)
    (hfits : e.Fits .whole) (hn : (Expr.group left e right).node.leaves.length ≤ n + 1) :
    operand sub next ts = .ok (.group left e right, rest) := by
  obtain ⟨mid₁, mid₂, hleft, he, hright, hspace⟩ := h.of_group
  have hbegins := he.begins_of_lead h.tight.2.1
  have hnospace := BeginsExpr.not_space hbegins
  have hopening : opening ts = .found .group := by
    obtain ⟨t, us, hts, ht, -⟩ := spans_sign hleft hnospace
    have hk : t.kind = .lparen := ht
    rcases cons_of_pastSpace hts with rfl | ⟨s, hs, rfl⟩
    · simp [opening, hk]
    · simp [opening, hs, hk]
  have hlength : e.node.leaves.length ≤ n := by
    simp only [Expr.node, Padding.node, Kind.node, Node.leaves_branch, Node.leavesOf_cons,
      Node.leavesOf_append, Node.leaves_leaf, List.length_append, List.length_cons] at hn
    omega
  have hend : ∀ j, joint mid₂ = .found (some j) → Level.whole.admits j = false := by
    intro j hj
    obtain ⟨t, us, hts, ht, -⟩ := spans_sign hright hspace
    simp [joint, hts, show t.kind = .rparen from ht] at hj
  obtain ⟨t, us, rfl, ht⟩ := BeginsExpr.startsExpr h.begins.1
  rw [operand, bind_of_ok (require_cons ht), bind_of_ok (settle_of_found hopening)]
  simp only
  rw [bind_of_ok (sign_of_spans _ hleft hnospace (he.spans.complete he.complete)),
    bind_of_ok (hsub he hfits hlength hend), bind_of_ok (sign_of_spans _ hright hspace h.complete)]
  rfl

lemma neg_operand (hsub : Finds sub n) (h : Stands (.neg op e) ts rest)
    (hfits : e.Fits .operand) (hn : (Expr.neg op e).node.leaves.length ≤ n + 1) :
    operand sub next ts = .ok (.neg op e, rest) := by
  obtain ⟨mid, hop, he⟩ := h.of_neg
  have hbegins := he.begins_of_lead h.tight.2
  have hnospace := BeginsExpr.not_space hbegins
  have hopening : opening ts = .found .neg := by
    obtain ⟨t, us, hts, ht, hus, -⟩ := spans_sign hop hnospace
    have hk : t.kind = .neg := ht
    rcases cons_of_pastSpace hts with rfl | ⟨s, hs, rfl⟩
    · simp [opening, hk, negates_of_expr (hus ▸ hbegins)]
    · simp [opening, hs, hk]
  have hlength : e.node.leaves.length ≤ n := by
    simp only [Expr.node, Padding.node, Kind.node, Node.leaves_branch, Node.leavesOf_cons,
      Node.leavesOf_append, Node.leaves_leaf, List.length_append, List.length_cons] at hn
    omega
  obtain ⟨t, us, rfl, ht⟩ := BeginsExpr.startsExpr h.begins.1
  rw [operand, bind_of_ok (require_cons ht), bind_of_ok (settle_of_found hopening)]
  simp only
  rw [bind_of_ok (sign_of_spans _ hop hnospace (he.spans.complete he.complete)),
    bind_of_ok (hsub he hfits hlength fun _ _ => rfl)]
  rfl

/-! ## Expressions -/

/-- The number of words that join operands of an expression at its outermost level. -/
def spine : Expr → Nat
  | .join _ l _ _ => spine l + 1
  | _ => 0

lemma spine_lt (e : Expr) : spine e < e.node.leaves.length := by
  have hsign : ∀ (p : Padding) (s : Sign), 0 < (p.node s).leaves.length := by
    intro p s
    simp only [Padding.node, Kind.node, Node.leaves_branch, Node.leavesOf_append, Node.leavesOf_cons,
      Node.leaves_leaf, List.length_append, List.length_cons]
    omega
  induction e with
  | filter f =>
    -- whatever the form, the second part of a filter is a symbol
    cases f <;> simp only [spine, Expr.node, Filter.node, Filter.nodes, Node.leaves_branch,
      Node.leavesOf_cons, Node.leavesOf_nil, List.append_nil, List.length_append]
    all_goals exact Nat.add_pos_right _ (Nat.add_pos_left (hsign _ _) _)
  | group left e right ih =>
    have := hsign left .lparen
    simp only [spine, Expr.node, Node.leaves_branch, Node.leavesOf_cons, List.length_append]
    omega
  | neg op e ih =>
    have := hsign op .neg
    simp only [spine, Expr.node, Node.leaves_branch, Node.leavesOf_cons, List.length_append]
    omega
  | join j l op r ihl ihr =>
    have := hsign op j.sign
    simp only [spine, Expr.node, Node.leaves_branch, Node.leavesOf_cons, List.length_append]
    omega

lemma fits_of_left (h : l.Fits j.leftLevel) (hj : level.admits j = true) : l.Fits level := by
  cases l with
  | join j' l' op' r' =>
    refine ⟨?_, h.2⟩
    have hj' := h.1
    cases level <;> cases j <;> cases j' <;> simp_all [Level.admits, Joint.leftLevel]
  | _ => exact h

/-- The right operand of a word stops where the word after it could go on with the whole: that one
either binds no tighter, or may not be taken at all. -/
lemma rightLevel_stops {j' : Joint} (hj : level.admits j = true)
    (h : level.admits j' = true → (Expr.join j l op r).Fits j'.leftLevel) :
    j.rightLevel.admits j' = false := by
  by_cases hj' : level.admits j' = true
  · have hadmits := (h hj').1
    cases j <;> cases j' <;> simp_all [Level.admits, Joint.leftLevel, Joint.rightLevel]
  · cases level <;> cases j <;> cases j' <;> simp_all [Level.admits, Joint.rightLevel]

/-- The operands at the outermost level of an expression are taken one after the other, until the
whole expression has been put together. -/
lemma spine_of_stands (hsub : Finds sub n) (hn : e.node.leaves.length ≤ n + 1)
    (h : Stands e ts rest) (hfits : e.Fits level)
    (hnext : ∀ j, joint rest = .found (some j) → level.admits j = true → e.Fits j.leftLevel)
    (m : Nat) :
    (operand sub next >>= continuation sub level next (m + spine e)) ts =
      continuation sub level next m e rest := by
  induction e generalizing ts rest m with
  | filter f => rw [bind_of_ok (filter_operand h)]; rfl
  | group left e right _ => rw [bind_of_ok (group_operand hsub h hfits hn)]; rfl
  | neg op e _ => rw [bind_of_ok (neg_operand hsub h hfits hn)]; rfl
  | join j l op r ihl _ =>
    obtain ⟨hadmits, hl, hr⟩ := hfits
    obtain ⟨mid₁, mid₂, hop, hright, hleft⟩ := h.of_join
    have hbegins := hright.begins_of_lead h.tight.2.2.2
    obtain ⟨hleft, hjoint⟩ := hleft hbegins
    have hlengths : l.node.leaves.length ≤ n + 1 ∧ r.node.leaves.length ≤ n := by
      have hpos := spine_lt l
      simp only [Expr.node, Node.leaves_branch, Node.leavesOf_cons, Node.leavesOf_nil,
        List.length_append, List.length_nil] at hn
      omega
    have hstop : ∀ j', joint rest = .found (some j') → j.rightLevel.admits j' = false :=
      fun j' hj' => rightLevel_stops hadmits (hnext j' hj')
    have hspine := ihl hlengths.1 hleft (fits_of_left hl hadmits)
      (fun j' hj' _ => by
        obtain rfl : j = j' := by simpa [hjoint] using hj'
        exact hl) (m + 1)
    rw [spine, show m + (spine l + 1) = m + 1 + spine l by omega, hspine, continuation,
      bind_of_ok (settle_of_found hjoint)]
    simp only [hadmits, if_true]
    rw [bind_of_ok (sign_of_spans _ hop (BeginsExpr.not_space hbegins)
        (hright.spans.complete hright.complete)),
      bind_of_ok (hsub hright hr hlengths.2 hstop)]

end Steps

/-- After an expression that may not go on, the parser stops. -/
lemma continuation_stops {sub : Level → KindSet → Parser Expr} (h : AfterOperand rest)
    (hstop : ∀ j, joint rest = .found (some j) → level.admits j = false) :
    continuation sub level next (n + 1) e rest = .ok (e, rest) := by
  obtain ⟨t, us, hrest, -⟩ := h
  have hjoint : ∃ o, joint rest = .found o := by
    simp only [joint, hrest]
    split <;> exact ⟨_, rfl⟩
  obtain ⟨o, ho⟩ := hjoint
  rw [continuation, bind_of_ok (settle_of_found ho)]
  cases o with
  | none => rfl
  | some j =>
    simp only [hstop j ho, Bool.false_eq_true, if_false]
    rfl

/-- As many levels of depth as there are tokens are enough to find an expression. -/
theorem expr_finds (n : Nat) : Finds (expr n) n := by
  induction n with
  | zero =>
    intro level next e ts rest _ _ hn _
    have hpos := spine_lt e
    omega
  | succ n ih =>
    intro level next e ts rest h hfits hn hstop
    have hpos := spine_lt e
    obtain ⟨m, hm⟩ : ∃ m, n + 1 = (m + 1) + spine e := ⟨n - spine e, by omega⟩
    have hspine : (operand (expr n) next >>= continuation (expr n) level next (m + 1 + spine e)) ts =
        continuation (expr n) level next (m + 1) e rest :=
      spine_of_stands ih hn h hfits (fun j hj hadmits => by simp [hstop j hj] at hadmits) (m + 1)
    rw [expr, hm, hspine]
    exact continuation_stops h.after hstop

/-- The parser finds every tree in which white space belongs to the left and the operands hold
together as tight as they have to. -/
theorem tree_of_spans {t : Tree} {us : List Token} (hg : t.Grammatical) (htight : t.Tight)
    (hfits : t.Fits) (h : Spans ts t.node.leaves us) : ∃ u, tree ts = .ok (t, u :: us) := by
  cases t with
  | everything =>
    obtain ⟨star, u, rfl, hstar, hu⟩ : ∃ star u, ts = star :: u :: us ∧
        star.toLexeme = ⟨.star, "*"⟩ ∧ u.toLexeme = ⟨.eof, "<EOF>"⟩ := by
      simpa [Tree.node, Node.ending, Kind.node, Kind.spelling?] using h
    have hk : star.kind = .star := congrArg Lexeme.kind hstar
    have hend : u.kind = .eof := congrArg Lexeme.kind hu
    refine ⟨u, ?_⟩
    rw [tree, bind_of_ok (require_cons (by simp [KindSet.union, KindSet.only, hk])),
      bind_of_ok current_cons]
    simp only [hk, if_true]
    rw [bind_of_ok (advance_cons (by simp))]
    rw [bind_of_ok (pure_eq_ok.2 ⟨rfl, rfl⟩), bind_of_ok (require_cons (by simp [KindSet.only, hend]))]
    rfl
  | expr e =>
    simp only [Tree.node, Node.ending, Node.leaves_branch, Node.leavesOf_cons, Node.leaves_leaf,
      Node.leavesOf_nil, List.append_nil, spans_append, spans_cons, spans_nil] at h
    obtain ⟨_, hspans, u, us, rfl, hu, rfl⟩ := h
    have hend : u.kind = .eof := congrArg Lexeme.kind hu
    have hpast : pastSpace (u :: us) = u :: us := pastSpace_cons (by simp [hend])
    have hstands : Stands e ts (u :: us) :=
      ⟨hg, htight, hspans, ⟨u, us, hpast, by simp [endsOperand, hend], by simp [Follows, hend]⟩,
        ⟨u, by simp, hend⟩, fun _ => by simp [nextIs, hend]⟩
    have hlength : e.node.leaves.length ≤ ts.length := by
      have := hspans.length_eq
      omega
    have hstop : ∀ j, joint (u :: us) = .found (some j) → Level.whole.admits j = false := by
      intro j hj
      simp [joint, hpast, hend] at hj
    have hexpr : expr ts.length .whole (.only .eof) ts = .ok (e, u :: us) :=
      expr_finds ts.length hstands hfits hlength hstop
    have hfirst : ∃ v vs, ts = v :: vs ∧ startsExpr v.kind = true :=
      BeginsExpr.startsExpr hstands.begins.1
    obtain ⟨v, vs, rfl, hv⟩ := hfirst
    have hstar : v.kind ≠ .star := by
      intro hk
      simp [hk, startsExpr, KindSet.union, KindSet.ofList, Kind.startsText, Kind.isWord] at hv
    refine ⟨u, ?_⟩
    rw [tree, bind_of_ok (require_cons (by simp [KindSet.union, hv])), bind_of_ok current_cons]
    simp only [hstar, if_false]
    rw [bind_of_ok get_eq_ok, bind_of_ok (map_of_ok hexpr),
      bind_of_ok (require_cons (by simp [KindSet.only, hend]))]
    rfl

end Parser

/-- Such trees are told apart by their tokens. -/
theorem Tree.eq_of_leaves {t u : Tree} (hgt : t.Grammatical) (ht : t.Tight) (hft : t.Fits)
    (hgu : u.Grammatical) (hu : u.Tight) (hfu : u.Fits) (h : t.node.leaves = u.node.leaves) :
    t = u := by
  -- where the tokens stand makes no difference
  let ts : List Token := t.node.leaves.map fun l => ⟨l, ⟨0, 0, 0⟩⟩
  have hts : ts.map (·.toLexeme) = t.node.leaves := by simp [ts, Function.comp_def]
  obtain ⟨v, hv⟩ := Parser.tree_of_spans hgt ht hft ⟨ts, (List.append_nil ts).symm, hts⟩
  obtain ⟨w, hw⟩ := Parser.tree_of_spans hgu hu hfu ⟨ts, (List.append_nil ts).symm, hts.trans h⟩
  rw [hv] at hw
  exact congrArg Prod.fst (Except.ok.inj hw)


end MapFilter
