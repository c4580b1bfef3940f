import MapFilter.Proofs.Ahead

/-!
# Filters that the parser finds

White space between two symbols can belong to either of them. The parser gives it to the left one.
For every filter in which this is so, the parser, set before the tokens of the filter, takes the right
decisions, gives back this filter and stops after it.
-/

namespace MapFilter

/-! ## White space belongs to the left -/

/-- Whether a filter ends with a symbol, which can take the white space after it. -/
def Filter.closes : Filter → Bool
  | .tagIn .. | .objects .. | .numbers .. | .range .. => true
  | _ => false

def Range.Tight (r : Range) : Prop :=
  match r.bounds with
  | .both .. => True
  | .upTo dots _ => dots.before = none
  | .startingAt .. => r.right.before = none

/-- A symbol right after another one has no white space before it. -/
def Filter.Tight : Filter → Prop
  | .tagIn _ _ values => values.left.before = none
  | .objects _ os => os.left.before = none
  | .numbers _ _ ns => ns.left.before = none
  | .range _ _ r => r.left.before = none ∧ r.Tight
  | _ => True

/-! ## Steps of a parser -/

namespace Parser

open Lookahead

variable {α β : Type} {ts mid rest : List Token} {t : Token} {expected next : KindSet}

lemma bind_of_ok {p : Parser α} {f : α → Parser β} {a : α} (h : p ts = .ok (a, mid)) :
    (p >>= f) ts = f a mid := by
  change (p ts).bind (fun q => f q.1 q.2) = f a mid
  rw [h]
  rfl

lemma map_of_ok {p : Parser α} {f : α → β} {a : α} (h : p ts = .ok (a, rest)) :
    (f <$> p) ts = .ok (f a, rest) :=
  map_eq_ok.2 ⟨a, h, rfl⟩

lemma settle_of_found {look : List Token → Look α} {a : α} (h : look ts = .found a) :
    settle look ts = .ok (a, ts) := by
  simp [settle, h]

lemma get_eq_ok : (get : Parser (List Token)) ts = .ok (ts, ts) := rfl

lemma current_cons : current (t :: ts) = .ok (t, t :: ts) := rfl

lemma require_cons (h : expected t.kind = true) : require expected (t :: ts) = .ok ((), t :: ts) := by
  rw [require, bind_of_ok current_cons, if_pos h]
  rfl

lemma advance_cons (h : ts ≠ []) : advance (t :: ts) = .ok (t, ts) := by
  cases ts with
  | nil => exact absurd rfl h
  | cons u us => rfl

lemma expect_cons (h : expected t.kind = true) (hts : ts ≠ []) :
    expect expected next (t :: ts) = .ok (t, ts) := by
  rw [expect, bind_of_ok current_cons, if_pos h]
  exact advance_cons hts

/-! ## Symbols -/

lemma nextIs_space_of_cons {l : Lexeme} {ls : List Lexeme} (h : Spans ts (l :: ls) rest)
    (hl : l.kind ≠ .space) : nextIs .space ts = false := by
  obtain ⟨t, us, rfl, rfl, -⟩ := spans_cons.1 h
  simpa [nextIs] using hl

lemma spaceBefore_of_spans {s : Sign} {o : Option String}
    (h : Spans ts (Node.leavesOf (spaceNodes o)) (t :: rest)) (ht : t.kind = s.kind) :
    spaceBefore s ts = .ok (o, t :: rest) := by
  have hne := s.kind_ne_space
  cases o with
  | none =>
    obtain rfl : ts = t :: rest := by simpa [spaceNodes] using h
    rw [spaceBefore, bind_of_ok (require_cons (by simp [KindSet.ofList, ht])),
      bind_of_ok current_cons, if_neg (ht ▸ hne)]
    rfl
  | some w =>
    obtain ⟨u, rfl, hu⟩ : ∃ u, ts = u :: t :: rest ∧ u.toLexeme = ⟨.space, w⟩ := by
      simpa [spaceNodes] using h
    have hk : u.kind = .space := congrArg Lexeme.kind hu
    rw [spaceBefore, bind_of_ok (require_cons (by simp [KindSet.ofList, hk])),
      bind_of_ok current_cons, if_pos hk,
      bind_of_ok (advance_cons (by simp))]
    exact pure_eq_ok.2 ⟨congrArg some (congrArg Lexeme.text hu), rfl⟩

lemma spaceAfter_of_spans {s : Sign} {o : Option String}
    (h : Spans ts (Node.leavesOf (spaceNodes o)) rest) (hspace : nextIs .space rest = false)
    (hc : Complete rest) : spaceAfter s ts = .ok (o, rest) := by
  cases o with
  | none =>
    obtain rfl : ts = rest := by simpa [spaceNodes] using h
    cases ts with
    | nil => exact absurd rfl hc.ne_nil
    | cons t us =>
      have ht : t.kind ≠ .space := by simpa [nextIs] using hspace
      simp [spaceAfter, ht]
  | some w =>
    obtain ⟨u, rfl, hu⟩ : ∃ u, ts = u :: rest ∧ u.toLexeme = ⟨.space, w⟩ := by
      simpa [spaceNodes] using h
    have hk : u.kind = .space := congrArg Lexeme.kind hu
    have hw : u.text = w := congrArg Lexeme.text hu
    simp [spaceAfter, hk, hw, readableAfterSpace_of_complete s hc]

lemma sign_of_spans {p : Padding} {s : Sign} (next : KindSet)
    (h : Spans ts (p.node s).leaves rest) (hspace : nextIs .space rest = false)
    (hc : Complete rest) : sign s next ts = .ok (p, rest) := by
  simp only [Padding.node, Node.leaves_branch, Node.leavesOf_append, Node.leavesOf_cons, Kind.node,
    Node.leaves_leaf, spans_append, spans_cons, spans_nil] at h
  obtain ⟨_, hbefore, mid, ⟨t, us, rfl, ht, rfl⟩, hafter⟩ := h
  have hk : t.kind = s.kind := congrArg Lexeme.kind ht
  rw [sign, bind_of_ok (spaceBefore_of_spans hbefore hk),
    bind_of_ok (expect_cons (by simp [KindSet.only, hk]) (hafter.complete hc).ne_nil),
    bind_of_ok (spaceAfter_of_spans hafter hspace hc)]
  rfl

/-! ## Texts -/

lemma AfterText.not_colon (h : AfterText ts) : ∃ t us, ts = t :: us ∧ t.kind ≠ .colon := by
  obtain ⟨t, us, hts, hf⟩ := h
  rcases cons_of_pastSpace hts with rfl | ⟨s, hs, rfl⟩
  · refine ⟨t, us, rfl, ?_⟩
    rintro ht
    simp [Follows, ht] at hf
  · exact ⟨s, t :: us, rfl, by simp [hs]⟩

lemma moreWords_of_spans {ws : List (Option Lexeme)} (h : Spans ts (colonWords ws) rest)
    (hws : ∀ w, some w ∈ ws → w.kind.isWord = true) (hrest : AfterText rest) :
    moreWords ts = .ok (ws, rest) := by
  induction ws generalizing ts with
  | nil =>
    obtain rfl : ts = rest := by simpa [colonWords] using h
    obtain ⟨t, us, rfl, ht⟩ := AfterText.not_colon hrest
    rw [moreWords.eq_def]
    simp [ht]
  | cons w ws ih =>
    simp only [colonWords, spans_cons, spans_append] at h
    obtain ⟨t, us, rfl, ht, mid, hw, hmid⟩ := h
    have hkind : t.kind = .colon := congrArg Lexeme.kind ht
    have hmore := ih hmid fun v hv => hws v (by simp [hv])
    cases w with
    | none =>
      obtain rfl : us = mid := by simpa using hw
      have hbelongs : wordBelongs us = .found false := by
        rcases nextIs_colon_or_end hmid with hcolon | rfl
        · obtain ⟨u, vs, rfl, hu⟩ := exists_of_nextIs hcolon
          simp [wordBelongs, hu, Kind.isWord]
        · exact wordBelongs_of_after hrest
      simp only [moreWords, hkind, hbelongs, if_true, hmore]
      rfl
    | some w =>
      obtain ⟨u, rfl, rfl⟩ : ∃ u, us = u :: mid ∧ u.toLexeme = w := by simpa using hw
      have hbelongs : wordBelongs (u :: mid) = .found true := by
        refine wordBelongs_of_word (hws _ (by simp)) ?_
        rcases nextIs_colon_or_end hmid with hcolon | rfl
        · exact .inl hcolon
        · exact .inr hrest
      simp only [moreWords, hkind, hbelongs, if_true, hmore]
      rfl

/-- A text begins with a token that can begin one. -/
lemma startsText_of_spans {x : Text} (hx : x.Proper) (h : Spans ts x.node.leaves rest) :
    ∃ t us, ts = t :: us ∧ t.kind.startsText = true := by
  cases x with
  | quoted s =>
    obtain ⟨t, rfl, ht⟩ : ∃ t, ts = t :: rest ∧ t.toLexeme = ⟨.quoted, s⟩ := by
      simpa [Text.node] using h
    exact ⟨t, rest, rfl, by simp [congrArg Lexeme.kind ht, Kind.startsText]⟩
  | number s =>
    obtain ⟨t, rfl, ht⟩ : ∃ t, ts = t :: rest ∧ t.toLexeme = ⟨.number, s⟩ := by
      simpa [Text.node] using h
    exact ⟨t, rest, rfl, by simp [congrArg Lexeme.kind ht, Kind.startsText]⟩
  | words first ws =>
    rw [leaves_words, spans_cons] at h
    obtain ⟨t, us, rfl, rfl, -⟩ := h
    exact ⟨t, us, rfl, by simp [Kind.startsText, hx.1]⟩

lemma text_start {x : Text} (hx : x.Proper) (h : Spans ts x.node.leaves rest) :
    nextIs .space ts = false := by
  obtain ⟨t, us, rfl, ht⟩ := startsText_of_spans hx h
  have hk : t.kind ≠ .space := by
    intro hk
    simp [hk, Kind.startsText, Kind.isWord] at ht
  simpa [nextIs] using hk

lemma text_of_spans {x : Text} (hx : x.Proper) (h : Spans ts x.node.leaves rest)
    (hrest : AfterText rest) : text ts = .ok (x, rest) := by
  obtain ⟨t, us, rfl, ht⟩ := startsText_of_spans hx h
  have hne : rest ≠ [] := by
    obtain ⟨u, us, rfl, -⟩ := AfterText.not_colon hrest
    simp
  cases x with
  | quoted s =>
    obtain ⟨rfl, hl⟩ : us = rest ∧ t.toLexeme = ⟨.quoted, s⟩ := by simpa [Text.node] using h
    have hk : t.kind = .quoted := congrArg Lexeme.kind hl
    rw [text, bind_of_ok (require_cons ht), bind_of_ok (advance_cons hne)]
    simp only [hk]
    exact pure_eq_ok.2 ⟨congrArg Text.quoted (congrArg Lexeme.text hl), rfl⟩
  | number s =>
    obtain ⟨rfl, hl⟩ : us = rest ∧ t.toLexeme = ⟨.number, s⟩ := by simpa [Text.node] using h
    have hk : t.kind = .number := congrArg Lexeme.kind hl
    rw [text, bind_of_ok (require_cons ht), bind_of_ok (advance_cons hne)]
    simp only [hk]
    exact pure_eq_ok.2 ⟨congrArg Text.number (congrArg Lexeme.text hl), rfl⟩
  | words first ws =>
    obtain ⟨hfirst, hws⟩ := hx
    rw [leaves_words, spans_cons] at h
    obtain ⟨_, _, hcons, rfl, hus⟩ := h
    cases hcons
    have hmore := moreWords_of_spans hus hws hrest
    have hus' : us ≠ [] := by
      rintro rfl
      cases hmore
    rw [text, bind_of_ok (require_cons ht), bind_of_ok (advance_cons hus')]
    cases hk : t.kind <;> simp only [hk, Kind.isWord, Bool.false_eq_true] at hfirst ⊢
    all_goals
      rw [bind_of_ok hmore]
      rfl

lemma optionalStar_of_spans {b : Bool}
    (h : Spans ts (Node.leavesOf (if b then [Kind.star.node] else [])) rest) (hne : rest ≠ [])
    (hstar : b = false → nextIs .star rest = false) : optionalStar ts = .ok (b, rest) := by
  cases b with
  | false =>
    obtain rfl : ts = rest := by simpa using h
    cases ts with
    | nil => exact absurd rfl hne
    | cons t us =>
      have ht : t.kind ≠ .star := by simpa [nextIs] using hstar rfl
      rw [optionalStar, bind_of_ok current_cons, if_neg ht]
      rfl
  | true =>
    obtain ⟨t, rfl, ht⟩ : ∃ t, ts = t :: rest ∧ t.toLexeme = ⟨.star, "*"⟩ := by
      simpa [Kind.node, Kind.spelling?] using h
    rw [optionalStar, bind_of_ok current_cons,
      if_pos (congrArg Lexeme.kind ht), bind_of_ok (advance_cons hne)]
    rfl

lemma pattern_start {p : Pattern} (hp : p.text.Proper) (h : Spans ts p.node.leaves rest) :
    ∃ t us, ts = t :: us ∧ t.kind ≠ .space := by
  simp only [Pattern.node, Node.leaves_branch, Node.leavesOf_append, Node.leavesOf_cons,
    spans_append] at h
  obtain ⟨mid₁, hleading, mid₂, htext, -⟩ := h
  obtain ⟨t, us, rfl, ht⟩ := startsText_of_spans hp htext
  cases hl : p.leading with
  | false =>
    obtain rfl : ts = t :: us := by simpa [hl] using hleading
    exact ⟨t, us, rfl, by rintro hk; simp [hk, Kind.startsText, Kind.isWord] at ht⟩
  | true =>
    obtain ⟨u, rfl, hu⟩ : ∃ u, ts = u :: t :: us ∧ u.toLexeme = ⟨.star, "*"⟩ := by
      simpa [hl, Kind.node, Kind.spelling?] using hleading
    exact ⟨u, t :: us, rfl, by simp [congrArg Lexeme.kind hu]⟩

lemma pattern_of_spans {p : Pattern} (hp : p.text.Proper) (h : Spans ts p.node.leaves rest)
    (hrest : AfterText rest) (hstar : nextIs .star rest = false) : pattern ts = .ok (p, rest) := by
  simp only [Pattern.node, Node.leaves_branch, Node.leavesOf_append, Node.leavesOf_cons,
    spans_append] at h
  obtain ⟨mid₁, hleading, mid₂, htext, htrailing⟩ := h
  obtain ⟨t, us, rfl, ht⟩ := startsText_of_spans hp htext
  have hnot : t.kind ≠ .star := by
    intro hk
    simp [hk, Kind.startsText, Kind.isWord] at ht
  have hfirst : ∃ u vs, ts = u :: vs ∧ (KindSet.union (.only .star) Kind.startsText) u.kind = true := by
    cases hl : p.leading with
    | false =>
      obtain rfl : ts = t :: us := by simpa [hl] using hleading
      exact ⟨t, us, rfl, by simp [KindSet.union, ht]⟩
    | true =>
      obtain ⟨u, rfl, hu⟩ : ∃ u, ts = u :: t :: us ∧ u.toLexeme = ⟨.star, "*"⟩ := by
        simpa [hl, Kind.node, Kind.spelling?] using hleading
      exact ⟨u, t :: us, rfl, by simp [KindSet.union, KindSet.only, congrArg Lexeme.kind hu]⟩
  have hne : rest ≠ [] := by
    obtain ⟨u, us, rfl, -⟩ := AfterText.not_colon hrest
    simp
  have hafter : AfterText mid₂ := by
    cases hr : p.trailing with
    | false =>
      obtain rfl : mid₂ = rest := by simpa [hr] using htrailing
      exact hrest
    | true =>
      obtain ⟨u, rfl, hu⟩ : ∃ u, mid₂ = u :: rest ∧ u.toLexeme = ⟨.star, "*"⟩ := by
        simpa [hr, Kind.node, Kind.spelling?] using htrailing
      have hk : u.kind = .star := congrArg Lexeme.kind hu
      exact ⟨u, rest, pastSpace_cons (by simp [hk]), by simp [Follows, hk]⟩
  obtain ⟨u, vs, rfl, hu⟩ := hfirst
  rw [pattern, bind_of_ok (require_cons hu),
    bind_of_ok (optionalStar_of_spans hleading (by simp) fun _ => by simp [nextIs, hnot]),
    bind_of_ok (text_of_spans hp htext hafter),
    bind_of_ok (optionalStar_of_spans htrailing hne fun _ => hstar)]
  rfl

/-! ## Lists -/

/-- After an item of a list: a comma, or the parenthesis at its end. -/
def AfterItem (ts : List Token) : Prop :=
  ∃ t us, pastSpace ts = t :: us ∧ (t.kind = .comma ∨ t.kind = .rparen)

lemma AfterItem.afterText (h : AfterItem ts) : AfterText ts := by
  obtain ⟨t, us, hts, ht⟩ := h
  exact ⟨t, us, hts, by rcases ht with ht | ht <;> simp [Follows, ht]⟩

lemma AfterItem.ne_nil (h : AfterItem ts) : ts ≠ [] := by
  rintro rfl
  obtain ⟨t, us, hts, -⟩ := h
  cases hts

lemma AfterItem.exists_first (h : AfterItem ts) : ∃ t us, ts = t :: us ∧ afterItem t.kind = true := by
  obtain ⟨t, us, hts, ht⟩ := h
  rcases cons_of_pastSpace hts with rfl | ⟨s, hs, rfl⟩
  · exact ⟨t, us, rfl, by rcases ht with ht | ht <;> simp [afterItem, KindSet.ofList, ht]⟩
  · exact ⟨s, t :: us, rfl, by simp [afterItem, KindSet.ofList, hs]⟩

section Lists

variable {start : KindSet} {item : Parser α} (node : α → Node) {Q : α → Prop} {right : Padding}

/-- The items of a list after the first one, and the parenthesis at its end. -/
lemma afterItem_of_spans
    (hstart : ∀ {ts a rest}, Q a → Spans ts (node a).leaves rest → nextIs .space ts = false)
    {more : List (Padding × α)} (hmore : ∀ x ∈ more, Q x.2)
    (h : Spans ts (Node.leavesOf (commaNodes node more)) mid)
    (hright : Spans mid (right.node .rparen).leaves rest) (hspace : nextIs .space rest = false) :
    AfterItem ts := by
  cases more with
  | nil =>
    obtain rfl : ts = mid := by simpa [commaNodes] using h
    obtain ⟨t, us, hts, ht, -⟩ := spans_sign hright hspace
    exact ⟨t, us, hts, .inr ht⟩
  | cons x more =>
    simp only [commaNodes_cons, Node.leavesOf_cons, spans_append] at h
    obtain ⟨mid₁, hcomma, mid₂, ha, -⟩ := h
    obtain ⟨t, us, hts, ht, -⟩ := spans_sign hcomma (hstart (hmore x (by simp)) ha)
    exact ⟨t, us, hts, .inl ht⟩

lemma moreItems_of_spans
    (hitem : ∀ {ts a rest}, Q a → Spans ts (node a).leaves rest → AfterItem rest →
      item ts = .ok (a, rest))
    (hstart : ∀ {ts a rest}, Q a → Spans ts (node a).leaves rest → nextIs .space ts = false)
    {inner : Bool} {n : Nat} {more : List (Padding × α)} (hmore : ∀ x ∈ more, Q x.2)
    (hn : more.length < n)
    (h : Spans ts (Node.leavesOf (commaNodes node more)) mid)
    (hright : Spans mid (right.node .rparen).leaves rest) (hspace : nextIs .space rest = false)
    (hc : Complete rest) : moreItems start item inner n ts = .ok (more, mid) := by
  induction more generalizing inner n ts with
  | nil =>
    have hafter := afterItem_of_spans node hstart hmore h hright hspace
    obtain rfl : ts = mid := by simpa [commaNodes] using h
    obtain ⟨n, rfl⟩ := Nat.exists_eq_add_of_lt hn
    obtain ⟨t, us, hts, ht, -⟩ := spans_sign hright hspace
    obtain ⟨u, vs, rfl, hu⟩ := hafter.exists_first
    have hend : anotherItem (u :: vs) = .found false := by
      simp [anotherItem, hts, show t.kind = .rparen from ht]
    rw [moreItems, bind_of_ok current_cons]
    simp only [hu, Bool.not_true, Bool.and_false, Bool.false_eq_true, if_false]
    rw [bind_of_ok (require_cons hu), bind_of_ok (settle_of_found hend)]
    rfl
  | cons x more ih =>
    have hafter := afterItem_of_spans node hstart hmore h hright hspace
    obtain ⟨p, a⟩ := x
    obtain ⟨n, rfl⟩ := Nat.exists_eq_add_of_lt hn
    simp only [commaNodes_cons, Node.leavesOf_cons, spans_append] at h
    obtain ⟨mid₁, hcomma, mid₂, ha, htail⟩ := h
    have hQ : Q a := hmore (p, a) (by simp)
    have hQs : ∀ x ∈ more, Q x.2 := fun x hx => hmore x (by simp [hx])
    have hnospace := hstart hQ ha
    have hmoreItems : moreItems start item true (more.length + 1 + n) mid₂ = .ok (more, mid) :=
      ih hQs (by omega) htail
    have hafter₂ := afterItem_of_spans node hstart hQs htail hright hspace
    obtain ⟨t, us, hts, ht, -⟩ := spans_sign hcomma hnospace
    obtain ⟨u, vs, rfl, hu⟩ := hafter.exists_first
    have hmid₁ := ha.complete (htail.complete (hright.complete hc))
    have hnext : anotherItem (u :: vs) = .found true := by
      simp [anotherItem, hts, show t.kind = .comma from ht]
    rw [List.length_cons, moreItems, bind_of_ok current_cons]
    simp only [hu, Bool.not_true, Bool.and_false, Bool.false_eq_true, if_false]
    rw [bind_of_ok (require_cons hu), bind_of_ok (settle_of_found hnext), if_pos rfl,
      bind_of_ok (sign_of_spans _ hcomma hnospace hmid₁), bind_of_ok (hitem hQ ha hafter₂),
      bind_of_ok hmoreItems]
    rfl

lemma length_le_leavesOf_items (more : List (Padding × α)) :
    more.length ≤ (Node.leavesOf (commaNodes node more)).length := by
  induction more with
  | nil => simp
  | cons x more ih =>
    have hcomma : 0 < (x.1.node .comma).leaves.length := List.length_pos_iff.2 Padding.leaves_ne_nil
    simp only [commaNodes_cons, Node.leavesOf_cons, List.length_append, List.length_cons]
    omega

/-- The parts of a list, one after the other. -/
lemma listed_parts
    (hstart : ∀ {ts a rest}, Q a → Spans ts (node a).leaves rest → nextIs .space ts = false)
    {l : Listed α} (hl : ∀ a ∈ l.items, Q a) (h : Spans ts (Node.leavesOf (l.nodes node)) rest)
    (hspace : nextIs .space rest = false) :
    ∃ mid₁ mid₂ mid₃, Spans ts (l.left.node .lparen).leaves mid₁ ∧
      Spans mid₁ (node l.first).leaves mid₂ ∧ AfterItem mid₂ ∧
      Spans mid₂ (Node.leavesOf (commaNodes node l.more)) mid₃ ∧
      Spans mid₃ (l.right.node .rparen).leaves rest ∧ Q l.first ∧ ∀ x ∈ l.more, Q x.2 := by
  simp only [Listed.nodes_eq, Node.leavesOf_cons, Node.leavesOf_append, Node.leavesOf_nil,
    List.append_nil, spans_append] at h
  obtain ⟨mid₁, hleft, mid₂, hfirst, mid₃, hmore, hright⟩ := h
  obtain ⟨hQ, hQs⟩ := Listed.forall_items_iff.1 hl
  exact ⟨mid₁, mid₂, mid₃, hleft, hfirst, afterItem_of_spans node hstart hQs hmore hright hspace, hmore,
    hright, hQ, hQs⟩

lemma listed_of_spans
    (hitem : ∀ {ts a rest}, Q a → Spans ts (node a).leaves rest → AfterItem rest →
      item ts = .ok (a, rest))
    (hstart : ∀ {ts a rest}, Q a → Spans ts (node a).leaves rest → nextIs .space ts = false)
    {l : Listed α} (hl : ∀ a ∈ l.items, Q a) (h : Spans ts (Node.leavesOf (l.nodes node)) rest)
    (hspace : nextIs .space rest = false) (hc : Complete rest) :
    listed start item next ts = .ok (l, rest) := by
  obtain ⟨mid₁, mid₂, mid₃, hleft, hfirst, hafter, hmore, hright, hQ, hQs⟩ :=
    listed_parts node hstart hl h hspace
  have hc₃ := hright.complete hc
  have hcount : l.more.length < mid₂.length := by
    have hlength := hmore.length_eq
    have hrest : 0 < mid₃.length := List.length_pos_iff.2 hc₃.ne_nil
    have hitems := length_le_leavesOf_items node l.more
    omega
  have hmoreItems : moreItems start item false mid₂.length mid₂ = .ok (l.more, mid₃) :=
    moreItems_of_spans node hitem hstart hQs hcount hmore hright hspace hc
  rw [listed, bind_of_ok (sign_of_spans _ hleft (hstart hQ hfirst)
      (hfirst.complete (hmore.complete hc₃))),
    bind_of_ok (hitem hQ hfirst hafter), bind_of_ok get_eq_ok, bind_of_ok hmoreItems,
    bind_of_ok (sign_of_spans _ hright hspace hc)]
  rfl

end Lists

lemma listedTexts_of_spans {l : Listed Text} (hl : ∀ x ∈ l.items, x.Proper)
    (h : Spans ts (Node.leavesOf (l.nodes Text.node)) rest) (hspace : nextIs .space rest = false)
    (hc : Complete rest) : listedTexts next ts = .ok (l, rest) := by
  refine listed_of_spans Text.node ?_ ?_ hl h hspace hc
  · intro ts x rest hx hspans hafter
    exact text_of_spans hx hspans hafter.afterText
  · exact text_start

lemma listedTokens_of_spans {k : Kind} (hk : k ≠ .space) {l : Listed String}
    (h : Spans ts (Node.leavesOf (l.nodes fun s => .leaf ⟨k, s⟩)) rest)
    (hspace : nextIs .space rest = false) (hc : Complete rest) :
    listedTokens k next ts = .ok (l, rest) := by
  refine listed_of_spans (fun s => .leaf ⟨k, s⟩) (Q := fun _ => True) ?_ ?_ (fun _ _ => trivial) h
    hspace hc
  · intro ts s rest _ hspans hafter
    obtain ⟨t, rfl, ht⟩ : ∃ t, ts = t :: rest ∧ t.toLexeme = ⟨k, s⟩ := by simpa using hspans
    obtain rfl : t.text = s := congrArg Lexeme.text ht
    exact map_of_ok (expect_cons (by simp [KindSet.only, congrArg Lexeme.kind ht]) hafter.ne_nil)
  · intro ts s rest _ hspans
    have hcons : Spans ts [⟨k, s⟩] rest := by simpa using hspans
    exact nextIs_space_of_cons hcons hk

/-! ## Ranges -/

lemma bound_of_spans {g : Grain} {l : Lexeme} (hl : g.isBound l.kind = true)
    (h : Spans ts [l] rest) (hne : rest ≠ []) : bound g next ts = .ok (l, rest) := by
  obtain ⟨t, rfl, rfl⟩ := spans_singleton.1 h
  exact map_of_ok (expect_cons hl hne)

lemma isBound_ne {g : Grain} {k : Kind} (h : g.isBound k = true) :
    k ≠ .space ∧ k ≠ .rparen ∧ k ≠ .dots := by
  cases g <;> cases k <;> simp_all [Grain.isBound]

/-- The bounds of a range and the parenthesis after them. -/
lemma bounds_of_spans {g : Grain} {r : Range}
    (hb : ∀ l ∈ r.bounds.written, g.isBound l.kind = true) (htight : r.Tight)
    (h : Spans ts (Node.leavesOf r.bounds.nodes) mid)
    (hright : Spans mid (r.right.node .rparen).leaves rest) (hspace : nextIs .space rest = false)
    (hc : Complete rest) : bounds g ts = .ok (r.bounds, mid) ∧ nextIs .space ts = false := by
  obtain ⟨t, us, hmid, ht, -, hbefore, -⟩ := spans_sign hright hspace
  have hrparen : t.kind = .rparen := ht
  have hc' := hright.complete hc
  have hparen : g.isBound .rparen = false ∧ g.isBound .dots = false := by cases g <;> decide
  obtain ⟨left, b, right⟩ := r
  cases b with
  | both l d u =>
    have hl : g.isBound l.kind = true := hb l (by simp [Bounds.written])
    have hu : g.isBound u.kind = true := hb u (by simp [Bounds.written])
    simp only [Bounds.nodes, Node.leavesOf_cons, Node.leaves_leaf, Node.leavesOf_nil,
      List.append_nil, spans_append] at h
    obtain ⟨mid₁, hlower, mid₂, hdots, hupper⟩ := h
    have hnext := nextIs_space_of_cons hupper (isBound_ne hu).1
    have hc₂ := hupper.complete hc'
    have hspace₁ := nextIs_space_of_cons hlower (isBound_ne hl).1
    obtain ⟨v, rfl, hv⟩ := spans_singleton.1 hlower
    have hbound : g.isBound v.kind = true := hv ▸ hl
    have hlook : extent g (v :: mid₁) = .found .both := by
      obtain ⟨d', us', hpast, hd, hpast', -⟩ := spans_sign hdots hnext
      obtain ⟨w, rfl, rfl⟩ := spans_singleton.1 hupper
      simp [extent, hbound, hpast, show d'.kind = .dots from hd, hpast', hu]
    refine ⟨?_, hspace₁⟩
    rw [bounds, bind_of_ok (require_cons (by simp [KindSet.union, hbound])),
      bind_of_ok (settle_of_found hlook)]
    simp only
    rw [bind_of_ok (bound_of_spans hl hlower (hdots.complete hc₂).ne_nil),
      bind_of_ok (sign_of_spans _ hdots hnext hc₂),
      bind_of_ok (bound_of_spans hu hupper hc'.ne_nil)]
    rfl
  | upTo d u =>
    have hu : g.isBound u.kind = true := hb u (by simp [Bounds.written])
    have hd : d.before = none := htight
    simp only [Bounds.nodes, Node.leavesOf_cons, Node.leaves_leaf, Node.leavesOf_nil,
      List.append_nil, spans_append] at h
    obtain ⟨mid₁, hdots, hupper⟩ := h
    have hnext := nextIs_space_of_cons hupper (isBound_ne hu).1
    obtain ⟨d', us', -, hk, -, hfirst, -⟩ := spans_sign hdots hnext
    obtain rfl := hfirst hd
    have hkind : d'.kind = .dots := hk
    have hlook : extent g (d' :: us') = .found .upTo := by simp [extent, hkind, hparen.2]
    refine ⟨?_, by simp [nextIs, hkind]⟩
    rw [bounds, bind_of_ok (require_cons (by simp [KindSet.union, KindSet.ofList, hkind])),
      bind_of_ok (settle_of_found hlook)]
    simp only
    rw [bind_of_ok (sign_of_spans _ hdots hnext (hupper.complete hc')),
      bind_of_ok (bound_of_spans hu hupper hc'.ne_nil)]
    rfl
  | startingAt l d =>
    have hl : g.isBound l.kind = true := hb l (by simp [Bounds.written])
    obtain rfl := hbefore htight
    have hnext : nextIs .space (t :: us) = false := by simp [nextIs, hrparen]
    simp only [Bounds.nodes, Node.leavesOf_cons, Node.leaves_leaf, Node.leavesOf_nil,
      List.append_nil, spans_append] at h
    obtain ⟨mid₁, hlower, hdots⟩ := h
    have hspace₁ := nextIs_space_of_cons hlower (isBound_ne hl).1
    obtain ⟨v, rfl, hv⟩ := spans_singleton.1 hlower
    have hbound : g.isBound v.kind = true := hv ▸ hl
    have hlook : extent g (v :: mid₁) = .found .startingAt := by
      obtain ⟨d', us', hpast, hd, hpast', -⟩ := spans_sign hdots hnext
      simp [extent, hbound, hpast, show d'.kind = .dots from hd, hpast', hrparen, hparen.1]
    refine ⟨?_, hspace₁⟩
    rw [bounds, bind_of_ok (require_cons (by simp [KindSet.union, hbound])),
      bind_of_ok (settle_of_found hlook)]
    simp only
    rw [bind_of_ok (bound_of_spans hl hlower (hdots.complete hc').ne_nil),
      bind_of_ok (sign_of_spans _ hdots hnext hc')]
    rfl

lemma range_of_spans {g : Grain} {r : Range}
    (hb : ∀ l ∈ r.bounds.written, g.isBound l.kind = true) (htight : r.Tight)
    (h : Spans ts (r.node g).leaves rest) (hspace : nextIs .space rest = false)
    (hc : Complete rest) : range g next ts = .ok (r, rest) := by
  simp only [Range.node, Node.leaves_branch, Node.leavesOf_cons, Node.leavesOf_append,
    Node.leavesOf_nil, List.append_nil, spans_append] at h
  obtain ⟨mid₁, hleft, mid₂, hbounds, hright⟩ := h
  obtain ⟨hparse, hnext⟩ := bounds_of_spans hb htight hbounds hright hspace hc
  have hc₁ := hbounds.complete (hright.complete hc)
  rw [range, bind_of_ok (sign_of_spans _ hleft hnext hc₁), bind_of_ok hparse,
    bind_of_ok (sign_of_spans _ hright hspace hc)]
  rfl

/-! ## Filters -/

lemma keyword_of_spans {k : Kind} {op : Padding}
    (h : Spans ts (k.node.leaves ++ (op.node .colon).leaves) rest)
    (hspace : nextIs .space rest = false) (hc : Complete rest) :
    keyword k next ts = .ok (op, rest) := by
  obtain ⟨mid, hk, hcolon⟩ := spans_append.1 h
  obtain ⟨t, rfl, ht⟩ : ∃ t, ts = t :: mid ∧ t.toLexeme = ⟨k, k.spelling?.getD ""⟩ := by
    simpa [Kind.node] using hk
  rw [keyword, bind_of_ok (expect_cons (by simp [KindSet.only, congrArg Lexeme.kind ht])
    (hcolon.complete hc).ne_nil)]
  exact sign_of_spans _ hcolon hspace hc

lemma final_of_spans {k : Kind} {s : String} (h : Spans ts [⟨k, s⟩] rest) (hne : rest ≠ []) :
    final k next ts = .ok (s, rest) := by
  obtain ⟨t, rfl, ht⟩ : ∃ t, ts = t :: rest ∧ t.toLexeme = ⟨k, s⟩ := by simpa using h
  obtain rfl : t.text = s := congrArg Lexeme.text ht
  exact map_of_ok (expect_cons (by simp [KindSet.only, congrArg Lexeme.kind ht]) hne)

/-! ## Which filter it is -/

section Decisions

variable {op : Padding} {f : Form} {u : Token} {us : List Token}

/-- The symbol after a tag key, if what comes after it decides for a form. -/
lemma compares_of_sign {s : Sign} (h : Spans ts (op.node s).leaves (u :: us))
    (hu : u.kind ≠ .space) (hs : s.kind.isOperator = true)
    (hmember : s = .member → u.kind = .lparen)
    (hform : ∀ t vs, t.kind = s.kind → pastSpace vs = u :: us → operatorForm (t :: vs) = .found f) :
    Compares f ts := by
  obtain ⟨t, vs, hts, ht, hvs, -⟩ := spans_sign h (by simpa [nextIs] using hu)
  refine ⟨t, vs, hts, ht ▸ hs, ?_, hform t vs ht hvs⟩
  intro hk
  have hsign : s = .member := by cases s <;> simp_all [Sign.kind]
  simp [hvs, nextIs, hmember hsign]

/-- A tag key is read, and the symbol after it tells the form of the filter. -/
lemma key_of_spans {key : Text} (hkey : key.Proper) (h : Spans ts key.node.leaves mid)
    (hmid : Compares f mid) :
    text ts = .ok (key, mid) ∧ opening ts = .found (.filter f) ∧ BeginsExpr ts := by
  refine ⟨text_of_spans hkey h hmid.afterText, opening_of_key h hkey hmid, ?_⟩
  obtain ⟨t, vs, rfl, ht⟩ := startsText_of_spans hkey h
  refine ⟨t, vs, rfl, .inr ⟨ht, ?_⟩⟩
  intro hjoin
  cases key with
  | quoted s | number s =>
    simp only [Text.node, Node.leaves_branch, Node.leavesOf_cons, Node.leaves_leaf, Node.leavesOf_nil,
      List.append_nil, spans_cons] at h
    obtain ⟨_, _, hcons, hl, -⟩ := h
    cases hcons
    simp [congrArg Lexeme.kind hl, isJoining] at hjoin
  | words first ws =>
    rw [leaves_words, spans_cons] at h
    obtain ⟨_, _, hcons, -, hvs⟩ := h
    cases hcons
    exact endsKey_of_words hvs hmid

/-- A keyword and its colon are read, and the token after them tells the form of the filter. -/
lemma keyword_opening {k : Kind} (h : Spans ts (k.node.leaves ++ (op.node .colon).leaves) (u :: us))
    (hu : u.kind ≠ .space) (hform : keywordForm? k u us = some (.found f))
    (hafter : u.kind.isWord = true → AfterOperand us) :
    opening ts = .found (.filter f) ∧ BeginsExpr ts := by
  obtain ⟨mid, hk, hcolon⟩ := spans_append.1 h
  obtain ⟨t, rfl, ht⟩ : ∃ t, ts = t :: mid ∧ t.toLexeme = ⟨k, k.spelling?.getD ""⟩ := by
    simpa [Kind.node] using hk
  have hkind : t.kind = k := congrArg Lexeme.kind ht
  have hword := wordForm_of_keyword hcolon hu hform hafter
  have hkeyword : k.isWord = true ∧ k ≠ .neg ∧ isJoining k = false := by
    unfold keywordForm? at hform
    split at hform <;> simp_all [Kind.isWord, isJoining]
  constructor
  · obtain ⟨hw, hneg, -⟩ := hkeyword
    cases k <;> simp_all [opening, Kind.isWord, Look.map]
  · exact ⟨t, mid, rfl, .inr ⟨by simp [hkind, Kind.startsText, hkeyword.1],
      by simp [hkind, hkeyword.2.2]⟩⟩

lemma keywordForm?_range {s : Ranged} {r : Range} (hu : u.kind = .lparen)
    (hb : ∀ l ∈ r.bounds.written, s.grain.isBound l.kind = true) (htight : r.Tight)
    (h : Spans (pastSpace us) (Node.leavesOf r.bounds.nodes) mid)
    (hright : Spans mid (r.right.node .rparen).leaves rest) (hspace : nextIs .space rest = false) :
    keywordForm? s.kind u us = some (.found (.range s)) := by
  have hdots : ∃ v vs, pastSpace us = v :: vs ∧
      (v.kind = .dots ∨ s.grain.isBound v.kind = true ∧ nextIs .dots (pastSpace vs) = true) := by
    obtain ⟨t, ws, -, hrparen, -, hbefore, -⟩ := spans_sign hright hspace
    obtain ⟨left, b, right⟩ := r
    cases b with
    | both l d v =>
      have hv : s.grain.isBound v.kind = true := hb v (by simp [Bounds.written])
      simp only [Bounds.nodes, Node.leavesOf_cons, Node.leaves_leaf, Node.leavesOf_nil,
        List.append_nil, spans_append] at h
      obtain ⟨mid₁, hlower, mid₂, hdots, hupper⟩ := h
      obtain ⟨x, hx, rfl⟩ := spans_singleton.1 hlower
      obtain ⟨d', ds, hpast, hd, -⟩ := spans_sign hdots (nextIs_space_of_cons hupper (isBound_ne hv).1)
      exact ⟨x, mid₁, hx, .inr ⟨hb _ (by simp [Bounds.written]),
        by simp [hpast, nextIs, show d'.kind = .dots from hd]⟩⟩
    | upTo d v =>
      have hv : s.grain.isBound v.kind = true := hb v (by simp [Bounds.written])
      simp only [Bounds.nodes, Node.leavesOf_cons, Node.leaves_leaf, Node.leavesOf_nil,
        List.append_nil, spans_append] at h
      obtain ⟨mid₁, hdots, hupper⟩ := h
      obtain ⟨d', ds, -, hd, -, hfirst, -⟩ :=
        spans_sign hdots (nextIs_space_of_cons hupper (isBound_ne hv).1)
      exact ⟨d', ds, hfirst htight, .inl hd⟩
    | startingAt l d =>
      obtain rfl := hbefore htight
      simp only [Bounds.nodes, Node.leavesOf_cons, Node.leaves_leaf, Node.leavesOf_nil,
        List.append_nil, spans_append] at h
      obtain ⟨mid₁, hlower, hdots⟩ := h
      obtain ⟨x, hx, rfl⟩ := spans_singleton.1 hlower
      obtain ⟨d', ds, hpast, hd, -⟩ :=
        spans_sign hdots (by simp [nextIs, show t.kind = .rparen from hrparen])
      exact ⟨x, mid₁, hx, .inr ⟨hb _ (by simp [Bounds.written]),
        by simp [hpast, nextIs, show d'.kind = .dots from hd]⟩⟩
  obtain ⟨v, vs, hvs, hv⟩ := hdots
  -- only `id` and `changeset` look behind the parenthesis
  cases s <;> simp only [Ranged.kind, keywordForm?, hu]
  case id | changeset =>
    rcases hv with hv | ⟨hv, hd⟩
    · simp [idGroupForm, changesetGroupForm, hvs, hv]
    · obtain ⟨d, ds, hds, hd⟩ := exists_of_nextIs hd
      have hnumber : v.kind = .number := by simpa [Ranged.grain, Grain.isBound] using hv
      simp [idGroupForm, changesetGroupForm, numberForm, hvs, hnumber, hds, hd]

end Decisions

section Filters

variable {op : Padding}

lemma AfterOperand.exists_first (h : AfterOperand ts) :
    ∃ t us, ts = t :: us ∧ (t.kind = .space ∨ endsOperand t.kind = true) := by
  obtain ⟨t, us, hts, ht, -⟩ := h
  rcases cons_of_pastSpace hts with rfl | ⟨s, hs, rfl⟩
  · exact ⟨t, us, rfl, .inr ht⟩
  · exact ⟨s, t :: us, rfl, .inl hs⟩

lemma tag_of_spans {c : Comparison} {key value : Text} (hkey : key.Proper) (hvalue : value.Proper)
    (h : Spans ts (Filter.tag c key op value).node.leaves rest) (hrest : AfterOperand rest)
    (hc : Complete rest) :
    filter next (.tag c) ts = .ok (.tag c key op value, rest) ∧
      opening ts = .found (.filter (.tag c)) ∧ BeginsExpr ts := by
  simp only [Filter.node, Filter.nodes, Node.leaves_branch, Node.leavesOf_cons, Node.leavesOf_nil,
    List.append_nil, spans_append] at h
  obtain ⟨mid₁, hk, mid₂, hop, hv⟩ := h
  have hc₂ := hv.complete hc
  obtain ⟨u, us, rfl, hu⟩ := startsText_of_spans hvalue hv
  have hne : u.kind ≠ .space ∧ u.kind ≠ .star := by
    constructor <;> rintro hu' <;> simp [hu', Kind.startsText, Kind.isWord] at hu
  have hcompares : Compares (.tag c) mid₁ := by
    refine compares_of_sign hop hne.1 (by cases c <;> rfl) (by cases c <;> simp [Comparison.sign]) ?_
    intro t vs ht hvs
    cases c <;> simp [operatorForm, show t.kind = _ from ht, Comparison.sign, Sign.kind, valueForm,
      hvs, hne.2, hu]
  obtain ⟨htext, hopening, hbegins⟩ := key_of_spans hkey hk hcompares
  refine ⟨?_, hopening, hbegins⟩
  rw [filter, bind_of_ok htext, bind_of_ok (sign_of_spans _ hop (by simp [nextIs, hne.1]) hc₂),
    bind_of_ok (text_of_spans hvalue hv hrest.afterText)]
  rfl

lemma tagAny_of_spans {c : Comparison} {key : Text} (hkey : key.Proper)
    (h : Spans ts (Filter.tagAny c key op).node.leaves rest) (hc : Complete rest) :
    filter next (.tagAny c) ts = .ok (.tagAny c key op, rest) ∧
      opening ts = .found (.filter (.tagAny c)) ∧ BeginsExpr ts := by
  simp only [Filter.node, Filter.nodes, Node.leaves_branch, Node.leavesOf_cons, Node.leavesOf_nil,
    List.append_nil, Kind.node, Node.leaves_leaf, spans_append] at h
  obtain ⟨mid₁, hk, mid₂, hop, hstar⟩ := h
  have hc₂ := hstar.complete hc
  have hfinal : final .star next mid₂ = .ok (_, rest) := final_of_spans hstar hc.ne_nil
  obtain ⟨u, us, rfl, hu, -⟩ := spans_cons.1 hstar
  have hkind : u.kind = .star := congrArg Lexeme.kind hu
  have hcompares : Compares (.tagAny c) mid₁ := by
    refine compares_of_sign hop (by simp [hkind]) (by cases c <;> rfl)
      (by cases c <;> simp [Comparison.sign]) ?_
    intro t vs ht hvs
    cases c <;> simp [operatorForm, show t.kind = _ from ht, Comparison.sign, Sign.kind, valueForm,
      hvs, hkind]
  obtain ⟨htext, hopening, hbegins⟩ := key_of_spans hkey hk hcompares
  refine ⟨?_, hopening, hbegins⟩
  rw [filter, bind_of_ok htext, bind_of_ok (sign_of_spans _ hop (by simp [nextIs, hkind]) hc₂),
    bind_of_ok hfinal]
  rfl

lemma tagIn_of_spans {key : Text} {values : Listed Text} (hkey : key.Proper)
    (hvalues : ∀ x ∈ values.items, x.Proper) (htight : values.left.before = none)
    (h : Spans ts (Filter.tagIn key op values).node.leaves rest) (hc : Complete rest)
    (hspace : nextIs .space rest = false) :
    filter next .tagIn ts = .ok (.tagIn key op values, rest) ∧
      opening ts = .found (.filter .tagIn) ∧ BeginsExpr ts := by
  simp only [Filter.node, Filter.nodes, Node.leaves_branch, Node.leavesOf_cons, spans_append] at h
  obtain ⟨mid₁, hk, mid₂, hop, hv⟩ := h
  obtain ⟨m₁, m₂, m₃, hleft, hfirst, -⟩ := listed_parts Text.node text_start hvalues hv hspace
  obtain ⟨u, us, -, hu, -, hcons, -⟩ :=
    spans_sign hleft (text_start (hvalues _ (by simp [Listed.items])) hfirst)
  have hkind : u.kind = .lparen := hu
  have hc₂ := hv.complete hc
  obtain rfl := hcons htight
  have hcompares : Compares .tagIn mid₁ := by
    refine compares_of_sign hop (by simp [hkind]) rfl (fun _ => hkind) ?_
    intro t vs ht _
    simp [operatorForm, show t.kind = .member from ht]
  obtain ⟨htext, hopening, hbegins⟩ := key_of_spans hkey hk hcompares
  refine ⟨?_, hopening, hbegins⟩
  rw [filter, bind_of_ok htext, bind_of_ok (sign_of_spans _ hop (by simp [nextIs, hkind]) hc₂),
    bind_of_ok (listedTexts_of_spans hvalues hv hspace hc)]
  rfl

lemma tagLike_of_spans {key : Text} {pattern : Pattern} (hkey : key.Proper)
    (hpattern : pattern.text.Proper) (h : Spans ts (Filter.tagLike key op pattern).node.leaves rest)
    (hrest : AfterOperand rest) (hc : Complete rest) :
    filter next .tagLike ts = .ok (.tagLike key op pattern, rest) ∧
      opening ts = .found (.filter .tagLike) ∧ BeginsExpr ts := by
  simp only [Filter.node, Filter.nodes, Node.leaves_branch, Node.leavesOf_cons, Node.leavesOf_nil,
    List.append_nil, spans_append] at h
  obtain ⟨mid₁, hk, mid₂, hop, hp⟩ := h
  have hc₂ := hp.complete hc
  have hstar : nextIs .star rest = false := by
    obtain ⟨t, us, rfl, ht⟩ := AfterOperand.exists_first hrest
    cases hk : t.kind <;> simp_all [nextIs, endsOperand]
  obtain ⟨u, us, rfl, hu⟩ := pattern_start hpattern hp
  have hcompares : Compares .tagLike mid₁ := by
    refine compares_of_sign hop hu rfl (by simp) ?_
    intro t vs ht _
    simp [operatorForm, show t.kind = .tilde from ht]
  obtain ⟨htext, hopening, hbegins⟩ := key_of_spans hkey hk hcompares
  refine ⟨?_, hopening, hbegins⟩
  rw [filter, bind_of_ok htext, bind_of_ok (sign_of_spans _ hop (by simpa [nextIs] using hu) hc₂),
    bind_of_ok (pattern_of_spans hpattern hp hrest.afterText hstar)]
  rfl

/-- A filter with a keyword is told by the token after its colon. What comes after the colon is read
by a rule of its own. -/
lemma keyword_filter_of_spans {f : Filter} {k : Kind} {tail : List Node} {first : KindSet}
    {read : Parser α} {a : α} {make : Padding → α → Filter}
    (hnodes : f.nodes = k.node :: op.node .colon :: tail)
    (hfilter : filter next f.form = do
      let op ← keyword k first
      pure (make op (← read)))
    (hmake : make op a = f) (h : Spans ts f.node.leaves rest) (hc : Complete rest)
    (htail : ∀ mid, Spans mid (Node.leavesOf tail) rest → read mid = .ok (a, rest) ∧
      ∃ u us, mid = u :: us ∧ u.kind ≠ .space ∧ keywordForm? k u us = some (.found f.form) ∧
        (u.kind.isWord = true → AfterOperand us)) :
    filter next f.form ts = .ok (f, rest) ∧ opening ts = .found (.filter f.form) ∧
      BeginsExpr ts := by
  have hsplit :
      Spans ts ((k.node.leaves ++ (op.node .colon).leaves) ++ Node.leavesOf tail) rest := by
    simpa [Filter.node, hnodes] using h
  obtain ⟨mid, hkeyword, hspans⟩ := spans_append.1 hsplit
  obtain ⟨hread, u, us, rfl, hspace, hform, hafter⟩ := htail mid hspans
  refine ⟨?_, keyword_opening hkeyword hspace hform hafter⟩
  rw [hfilter, bind_of_ok (keyword_of_spans hkeyword (by simpa [nextIs] using hspace)
    (hspans.complete hc)), bind_of_ok hread, hmake]
  rfl

/-- A keyword, its colon and one more token. -/
lemma token_filter_of_spans {f : Filter} {k last : Kind} {s : String} {first : KindSet}
    {make : Padding → String → Filter}
    (hnodes : f.nodes = [k.node, op.node .colon, .leaf ⟨last, s⟩])
    (hfilter : filter next f.form = do
      let op ← keyword k first
      pure (make op (← final last next)))
    (hmake : make op s = f) (hlast : last ≠ .space)
    (hform : ∀ u us, u.kind = last → keywordForm? k u us = some (.found f.form))
    (h : Spans ts f.node.leaves rest) (hrest : AfterOperand rest) (hc : Complete rest) :
    filter next f.form ts = .ok (f, rest) ∧ opening ts = .found (.filter f.form) ∧
      BeginsExpr ts := by
  refine keyword_filter_of_spans hnodes hfilter hmake h hc fun mid hmid => ?_
  have hfinal : Spans mid [⟨last, s⟩] rest := by simpa using hmid
  obtain ⟨u, us, rfl, hu, hus⟩ := spans_cons.1 hfinal
  obtain rfl : us = rest := by simpa using hus
  have hkind : u.kind = last := congrArg Lexeme.kind hu
  exact ⟨final_of_spans hfinal hc.ne_nil, u, us, rfl, hkind ▸ hlast, hform u us hkind,
    fun _ => hrest⟩

/-- A keyword, its colon and a list of tokens of one kind. -/
lemma list_filter_of_spans {f : Filter} {k last : Kind} {l : Listed String} {first : KindSet}
    {make : Padding → Listed String → Filter}
    (hnodes : f.nodes = k.node :: op.node .colon :: l.nodes fun s => .leaf ⟨last, s⟩)
    (hfilter : filter next f.form = do
      let op ← keyword k first
      pure (make op (← listedTokens last next)))
    (hmake : make op l = f) (hlast : last ≠ .space)
    (hform : ∀ u us v vs, u.kind = .lparen → pastSpace us = v :: vs → v.kind = last → AfterItem vs →
      keywordForm? k u us = some (.found f.form))
    (htight : l.left.before = none) (h : Spans ts f.node.leaves rest) (hc : Complete rest)
    (hspace : nextIs .space rest = false) :
    filter next f.form ts = .ok (f, rest) ∧ opening ts = .found (.filter f.form) ∧
      BeginsExpr ts := by
  refine keyword_filter_of_spans hnodes hfilter hmake h hc fun mid hlist => ?_
  have hstart : ∀ {ts s rest}, True → Spans ts (Node.leaf ⟨last, s⟩).leaves rest →
      nextIs .space ts = false := by
    intro ts s rest _ hspans
    rw [Node.leaves_leaf] at hspans
    exact nextIs_space_of_cons hspans hlast
  obtain ⟨m₁, m₂, m₃, hleft, hfirst, hafter, -⟩ :=
    listed_parts (fun s => .leaf ⟨last, s⟩) hstart (fun _ _ => trivial) hlist hspace
  obtain ⟨u, us, -, hu, hus, hcons, -⟩ := spans_sign hleft (hstart trivial hfirst)
  have hkind : u.kind = .lparen := hu
  obtain rfl := hcons htight
  rw [Node.leaves_leaf] at hfirst
  obtain ⟨v, vs, rfl, hv, hvs⟩ := spans_cons.1 hfirst
  obtain rfl : vs = m₂ := by simpa using hvs
  exact ⟨listedTokens_of_spans hlast hlist hspace hc, u, us, rfl, by simp [hkind],
    hform u us v vs hkind hus (congrArg Lexeme.kind hv) hafter, by simp [hkind, Kind.isWord]⟩

lemma range_filter_of_spans {s : Ranged} {r : Range}
    (hb : ∀ l ∈ r.bounds.written, s.grain.isBound l.kind = true)
    (htight : r.left.before = none ∧ r.Tight)
    (h : Spans ts (Filter.range s op r).node.leaves rest) (hc : Complete rest)
    (hspace : nextIs .space rest = false) :
    filter next (.range s) ts = .ok (.range s op r, rest) ∧
      opening ts = .found (.filter (.range s)) ∧ BeginsExpr ts := by
  obtain ⟨hbefore, htight⟩ := htight
  refine keyword_filter_of_spans rfl rfl rfl h hc fun mid hmid => ?_
  have hrange : Spans mid (r.node s.grain).leaves rest := by simpa using hmid
  have hparse : range s.grain next mid = .ok (r, rest) := range_of_spans hb htight hrange hspace hc
  simp only [Range.node, Node.leaves_branch, Node.leavesOf_cons, Node.leavesOf_append,
    Node.leavesOf_nil, List.append_nil, spans_append] at hrange
  obtain ⟨mid₁, hleft, mid₂, hbounds, hright⟩ := hrange
  obtain ⟨-, hnext⟩ := bounds_of_spans hb htight hbounds hright hspace hc
  obtain ⟨u, us, -, hu, hus, hcons, -⟩ := spans_sign hleft hnext
  have hkind : u.kind = .lparen := hu
  obtain rfl := hcons hbefore
  exact ⟨hparse, u, us, rfl, by simp [hkind],
    keywordForm?_range hkind hb htight (hus ▸ hbounds) hright hspace, by simp [hkind, Kind.isWord]⟩

/-- A filter is told by what it begins with, and is read by the rule for it. -/
theorem filter_of_spans (next : KindSet) {f : Filter} (hf : f.Grammatical) (htight : f.Tight)
    (h : Spans ts f.node.leaves rest) (hrest : AfterOperand rest) (hc : Complete rest)
    (hspace : f.closes = true → nextIs .space rest = false) :
    filter next f.form ts = .ok (f, rest) ∧ opening ts = .found (.filter f.form) ∧
      BeginsExpr ts := by
  obtain ⟨hproper, htexts⟩ := hf
  cases f with
  | tag c key op value =>
    exact tag_of_spans (htexts key (by simp [Filter.texts])) (htexts value (by simp [Filter.texts]))
      h hrest hc
  | tagAny c key op => exact tagAny_of_spans (htexts key (by simp [Filter.texts])) h hc
  | tagIn key op values =>
    exact tagIn_of_spans (htexts key (by simp [Filter.texts]))
      (fun x hx => htexts x (by simp [Filter.texts, hx])) htight h hc (hspace rfl)
  | tagLike key op pattern =>
    exact tagLike_of_spans (htexts key (by simp [Filter.texts]))
      (htexts pattern.text (by simp [Filter.texts])) h hrest hc
  | type op s | geometry op s | object op s =>
    exact token_filter_of_spans rfl rfl rfl (by decide)
      (fun u us hu => by simp [keywordForm?, hu, Filter.form]) h hrest hc
  | number q op n =>
    refine token_filter_of_spans rfl rfl rfl (by decide) (fun u us hu => ?_) h hrest hc
    cases q <;> simp [keywordForm?, hu, Numbered.kind, Filter.form]
  | objects op os =>
    refine list_filter_of_spans rfl rfl rfl (by decide) ?_ htight h hc (hspace rfl)
    intro u us v vs hu hus hv _
    simp [keywordForm?, hu, idGroupForm, hus, hv, Filter.form]
  | numbers q op ns =>
    refine list_filter_of_spans rfl rfl rfl (by decide) ?_ htight h hc (hspace rfl)
    rintro u us v vs hu hus hv ⟨w, ws, hvs, hw⟩
    cases q <;> rcases hw with hw | hw <;> simp [keywordForm?, hu, Listable.kind, idGroupForm,
      changesetGroupForm, hus, hv, numberForm, hvs, hw, Filter.form]
  | range s op r => exact range_filter_of_spans hproper htight h hc (hspace rfl)

end Filters

end Parser

end MapFilter
