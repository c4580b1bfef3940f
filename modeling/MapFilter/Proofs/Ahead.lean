import MapFilter.Proofs.Derivation

/-!
# What the parser sees ahead

The decisions of the parser look at tokens that it has not yet reached. Where these tokens come from a
tree they can be told apart: a tag key goes on with a colon or ends before a symbol that compares it,
and after a value the text ends, a parenthesis closes, or a word joins another expression, which
begins in one of a few ways. So a keyword that is part of a text is not taken for a symbol, and the
other way round.
-/

namespace MapFilter

/-! ## Tokens at the front -/

/-- The tokens `ls` stand at the front of `ts`, and `rest` comes after them. -/
def Spans (ts : List Token) (ls : List Lexeme) (rest : List Token) : Prop :=
  ∃ used, ts = used ++ rest ∧ used.map (·.toLexeme) = ls

section Spans

variable {ts rest : List Token} {k ls : List Lexeme} {l : Lexeme}

@[simp] lemma spans_nil : Spans ts [] rest ↔ ts = rest := by
  simp [Spans]

@[simp] lemma spans_append : Spans ts (k ++ ls) rest ↔ ∃ mid, Spans ts k mid ∧ Spans mid ls rest := by
  constructor
  · rintro ⟨used, rfl, hused⟩
    obtain ⟨us, vs, rfl, hus, hvs⟩ := List.map_eq_append_iff.1 hused
    exact ⟨vs ++ rest, ⟨us, by simp, hus⟩, vs, rfl, hvs⟩
  · rintro ⟨_, ⟨us, rfl, rfl⟩, vs, rfl, rfl⟩
    exact ⟨us ++ vs, by simp, by simp⟩

@[simp] lemma spans_cons :
    Spans ts (l :: ls) rest ↔ ∃ t us, ts = t :: us ∧ t.toLexeme = l ∧ Spans us ls rest := by
  constructor
  · rintro ⟨used, rfl, hused⟩
    obtain ⟨t, us, rfl, ht, hus⟩ := List.map_eq_cons_iff.1 hused
    exact ⟨t, us ++ rest, rfl, ht, us, rfl, hus⟩
  · rintro ⟨t, _, rfl, rfl, us, rfl, rfl⟩
    exact ⟨t :: us, rfl, rfl⟩

lemma spans_singleton : Spans ts [l] rest ↔ ∃ t, ts = t :: rest ∧ t.toLexeme = l := by
  simp

lemma Spans.length_eq (h : Spans ts ls rest) : ts.length = ls.length + rest.length := by
  obtain ⟨used, rfl, rfl⟩ := h
  simp

/-- The end of the text is among the tokens, so whatever is needed of them can be read. -/
def Complete (ts : List Token) : Prop := ∃ t ∈ ts, t.kind = .eof

lemma Complete.ne_nil (h : Complete ts) : ts ≠ [] := by
  rintro rfl
  obtain ⟨t, ht, -⟩ := h
  cases ht

lemma Complete.tail {t : Token} (h : Complete (t :: ts)) (ht : t.kind ≠ .eof) : Complete ts := by
  obtain ⟨u, hu, hk⟩ := h
  rcases List.mem_cons.1 hu with rfl | hu
  · exact absurd hk ht
  · exact ⟨u, hu, hk⟩

lemma Spans.complete (h : Spans ts ls rest) (hc : Complete rest) : Complete ts := by
  obtain ⟨used, rfl, -⟩ := h
  obtain ⟨t, ht, hk⟩ := hc
  exact ⟨t, by simp [ht], hk⟩

end Spans

namespace Lookahead

variable {ts us rest : List Token} {t : Token}

/-! ## White space -/

lemma pastSpace_of_not_space (h : nextIs .space ts = false) : pastSpace ts = ts := by
  cases ts with
  | nil => rfl
  | cons t ts => simpa [pastSpace, nextIs] using h

lemma pastSpace_cons (h : t.kind ≠ .space) : pastSpace (t :: ts) = t :: ts := by
  simp [pastSpace, h]

lemma pastSpace_space (h : t.kind = .space) : pastSpace (t :: ts) = ts := by
  simp [pastSpace, h]

/-- What comes first, if white space does not count. -/
lemma cons_of_pastSpace (h : pastSpace ts = t :: us) :
    ts = t :: us ∨ ∃ s, s.kind = .space ∧ ts = s :: t :: us := by
  cases ts with
  | nil => cases h
  | cons s ts =>
    by_cases hs : s.kind = .space
    · rw [pastSpace_space hs] at h
      exact .inr ⟨s, hs, by rw [h]⟩
    · rw [pastSpace_cons hs] at h
      exact .inl h

lemma complete_pastSpace (h : Complete ts) : Complete (pastSpace ts) := by
  cases ts with
  | nil => exact h
  | cons s ts =>
    by_cases hs : s.kind = .space
    · rw [pastSpace_space hs]
      exact h.tail (by simp [hs])
    · rwa [pastSpace_cons hs]

/-- A symbol of a tree, if no more white space comes after it. -/
lemma spans_sign {p : Padding} {s : Sign} (h : Spans ts (p.node s).leaves rest)
    (hspace : nextIs .space rest = false) :
    ∃ t us, pastSpace ts = t :: us ∧ t.kind = s.kind ∧ pastSpace us = rest ∧
      (p.before = none → ts = t :: us) ∧ (p.after = none → us = rest) := by
  have hne := s.kind_ne_space
  obtain ⟨before, after⟩ := p
  simp only [Padding.node, Node.leaves_branch, Node.leavesOf_append, Node.leavesOf_cons, Kind.node,
    Node.leaves_leaf, spans_append, spans_cons, spans_nil] at h
  obtain ⟨mid, hbefore, mid', ⟨t, us, rfl, ht, rfl⟩, hafter⟩ := h
  have hk : t.kind = s.kind := congrArg Lexeme.kind ht
  have hts : pastSpace ts = t :: us ∧ (before = none → ts = t :: us) := by
    cases before with
    | none =>
      obtain rfl : ts = t :: us := by simpa [spaceNodes] using hbefore
      exact ⟨pastSpace_cons (hk ▸ hne), fun _ => rfl⟩
    | some w =>
      obtain ⟨u, _, rfl, hu, rfl⟩ : ∃ u us', ts = u :: us' ∧ u.toLexeme = ⟨.space, w⟩ ∧
          us' = t :: us := by simpa [spaceNodes] using hbefore
      exact ⟨pastSpace_space (congrArg Lexeme.kind hu), by simp⟩
  refine ⟨t, us, hts.1, hk, ?_, hts.2, ?_⟩
  · cases after with
    | none =>
      obtain rfl : us = rest := by simpa [spaceNodes] using hafter
      exact pastSpace_of_not_space hspace
    | some w =>
      obtain ⟨u, _, rfl, hu, rfl⟩ : ∃ u us', us = u :: us' ∧ u.toLexeme = ⟨.space, w⟩ ∧
          us' = rest := by simpa [spaceNodes] using hafter
      exact pastSpace_space (congrArg Lexeme.kind hu)
  · rintro rfl
    simpa [spaceNodes] using hafter

lemma exists_of_nextIs {k : Kind} (h : nextIs k ts = true) : ∃ t us, ts = t :: us ∧ t.kind = k := by
  cases ts with
  | nil => cases h
  | cons t us => exact ⟨t, us, rfl, by simpa [nextIs] using h⟩

/-! ## Tag keys -/

/-- After the first word of a tag key: the key goes on, or a symbol comes that compares it. -/
def EndsKey (ts : List Token) : Prop :=
  nextIs .colon ts = true ∨ ∃ t us, pastSpace ts = t :: us ∧ t.kind.isOperator = true ∧
    (t.kind = .member → nextIs .lparen (pastSpace us) = true)

/-- After a tag key: the symbol of a filter of the given form. -/
def Compares (f : Form) (ts : List Token) : Prop :=
  ∃ t us, pastSpace ts = t :: us ∧ t.kind.isOperator = true ∧
    (t.kind = .member → nextIs .lparen (pastSpace us) = true) ∧ operatorForm (t :: us) = .found f

lemma Compares.endsKey {f : Form} (h : Compares f ts) : EndsKey ts := by
  obtain ⟨t, us, hts, hop, hmember, -⟩ := h
  exact .inr ⟨t, us, hts, hop, hmember⟩

lemma memberIsKey_of_key (h : EndsKey ts) : memberIsKey ts = .found true := by
  rcases h with h | ⟨t, us, hts, hop, -⟩
  · obtain ⟨t, us, rfl, ht⟩ := exists_of_nextIs h
    simp [memberIsKey, ht]
  · have hparen : t.kind ≠ .lparen := by
      intro ht
      simp [ht, Kind.isOperator] at hop
    rcases cons_of_pastSpace hts with rfl | ⟨s, hs, rfl⟩
    · by_cases hcolon : t.kind = .colon
      · simp [memberIsKey, hcolon]
      · simp [memberIsKey, hcolon, hts, hparen, hop]
    · simp [memberIsKey, hs, hts, hparen, hop]

lemma memberIsKey_of_lparen (h : nextIs .lparen (pastSpace ts) = true) :
    memberIsKey ts = .found false := by
  obtain ⟨t, us, hts, ht⟩ := exists_of_nextIs h
  rcases cons_of_pastSpace hts with rfl | ⟨s, hs, rfl⟩
  · simp [memberIsKey, ht, hts]
  · simp [memberIsKey, hs, ht, hts]

/-- A word `not` at the front of a tag key negates nothing. -/
lemma negates_of_key (h : EndsKey ts) : negates ts = .found false := by
  rcases h with h | ⟨t, us, hts, hop, hmember⟩
  · obtain ⟨t, us, rfl, ht⟩ := exists_of_nextIs h
    simp [negates, ht]
  · have hnegates : ∀ v vs, ts = v :: vs → v.kind ≠ .colon → negates ts = .found false := by
      rintro v vs rfl hv
      by_cases ht : t.kind = .member
      · simp [negates, hv, hts, ht, memberIsKey_of_lparen (hmember ht)]
      · simp [negates, hv, hts, ht, hop]
    have hcolon : t.kind ≠ .colon := by
      intro ht
      simp [ht, Kind.isOperator] at hop
    rcases cons_of_pastSpace hts with hcons | ⟨s, hs, hcons⟩
    · exact hnegates _ _ hcons hcolon
    · exact hnegates _ _ hcons (by simp [hs])

/-! ## Expressions and what comes after them -/

/-- Words that can also stand between two filters or between a tag key and a list. -/
def isJoining (k : Kind) : Bool := k == .conj || k == .disj || k == .member

/-- The beginning of an expression. If it is a word that could join something, it is a tag key. -/
def BeginsExpr (ts : List Token) : Prop :=
  ∃ t us, ts = t :: us ∧ (t.kind = .lparen ∨
    t.kind.startsText = true ∧ (isJoining t.kind = true → EndsKey us))

/-- What may come after a text. -/
def Follows (k : Kind) (us : List Token) : Prop :=
  match k with
  | .eof | .rparen | .comma | .star | .equal | .notEqual | .tilde => True
  | .member => nextIs .lparen (pastSpace us) = true
  | .conj | .disj => BeginsExpr (pastSpace us)
  | _ => False

/-- A text ends before these tokens. -/
def AfterText (ts : List Token) : Prop := ∃ t us, pastSpace ts = t :: us ∧ Follows t.kind us

/-- Kinds that come after an operand. -/
def endsOperand (k : Kind) : Bool := k == .eof || k == .rparen || k == .conj || k == .disj

/-- An operand ends before these tokens. -/
def AfterOperand (ts : List Token) : Prop :=
  ∃ t us, pastSpace ts = t :: us ∧ endsOperand t.kind = true ∧ Follows t.kind us

lemma AfterOperand.afterText (h : AfterOperand ts) : AfterText ts := by
  obtain ⟨t, us, hts, -, hf⟩ := h
  exact ⟨t, us, hts, hf⟩

lemma Compares.afterText {f : Form} (h : Compares f ts) : AfterText ts := by
  obtain ⟨t, us, hts, hop, hmember, -⟩ := h
  refine ⟨t, us, hts, ?_⟩
  cases hk : t.kind <;> simp_all [Kind.isOperator, Follows]

lemma negates_of_expr (h : BeginsExpr (pastSpace ts)) : negates ts = .found true := by
  obtain ⟨t, us, hts, ht⟩ := h
  have hnegates : ∀ v vs, ts = v :: vs → v.kind ≠ .colon → negates ts = .found true := by
    rintro v vs rfl hv
    rcases ht with ht | ⟨htext, hkey⟩
    · simp [negates, hv, hts, ht, Kind.isOperator]
    · by_cases hm : t.kind = .member
      · simp [negates, hv, hts, hm, memberIsKey_of_key (hkey (by simp [hm, isJoining]))]
      · have hop : t.kind.isOperator = false := by
          cases hk : t.kind <;> simp_all [Kind.isOperator, Kind.startsText, Kind.isWord]
        simp [negates, hv, hts, hm, hop, htext]
  rcases cons_of_pastSpace hts with hcons | ⟨s, hs, hcons⟩
  · refine hnegates _ _ hcons ?_
    intro hcolon
    simp [hcolon, Kind.startsText, Kind.isWord] at ht
  · exact hnegates _ _ hcons (by simp [hs])

/-! ## Words of a text -/

/-- After a second word `and` or `or`: if that one is a tag key, the first one joins it. -/
lemma joinsAfterWord_of_key (h : EndsKey ts) : joinsAfterWord ts = .found false := by
  rcases h with h | ⟨t, us, hts, hop, hmember⟩
  · obtain ⟨t, us, rfl, ht⟩ := exists_of_nextIs h
    simp [joinsAfterWord, ht]
  · obtain ⟨v, vs, rfl⟩ : ∃ v vs, ts = v :: vs := by
      rcases cons_of_pastSpace hts with hcons | ⟨s, -, hcons⟩
      · exact ⟨_, _, hcons⟩
      · exact ⟨_, _, hcons⟩
    by_cases hcolon : v.kind = .colon
    · simp [joinsAfterWord, hcolon]
    · by_cases ht : t.kind = .member
      · simp [joinsAfterWord, hcolon, hts, ht, memberIsKey_of_lparen (hmember ht)]
      · simp [joinsAfterWord, hcolon, hts, ht, hop]

lemma BeginsExpr.not_colon (h : BeginsExpr (pastSpace ts)) : nextIs .colon ts = false := by
  obtain ⟨t, us, hts, ht⟩ := h
  rcases cons_of_pastSpace hts with rfl | ⟨s, hs, rfl⟩
  · cases hk : t.kind <;> simp_all [nextIs, Kind.startsText, Kind.isWord]
  · simp [nextIs, hs]

/-- If an expression begins after it, the second word joins, and the first one is part of a text. -/
lemma joinsAfterWord_of_expr (h : BeginsExpr (pastSpace ts)) : joinsAfterWord ts = .found true := by
  have hcolon := h.not_colon
  obtain ⟨t, us, hts, ht⟩ := h
  obtain ⟨v, vs, rfl⟩ : ∃ v vs, ts = v :: vs := by
    rcases cons_of_pastSpace hts with hcons | ⟨s, -, hcons⟩
    · exact ⟨_, _, hcons⟩
    · exact ⟨_, _, hcons⟩
  have hv : v.kind ≠ .colon := by simpa [nextIs] using hcolon
  by_cases hm : t.kind = .member
  · rcases ht with ht | ⟨-, hkey⟩
    · simp [hm] at ht
    · simp [joinsAfterWord, hv, hts, hm, memberIsKey_of_key (hkey (by simp [hm, isJoining]))]
  · have hop : t.kind.isOperator = false := by
      cases hk : t.kind <;> simp_all [Kind.isOperator, Kind.startsText, Kind.isWord]
    simp [joinsAfterWord, hv, hts, hm, hop]

/-- A word that joins an expression is no word of the text before it. -/
lemma wordBelongs_of_expr (ht : t.kind = .conj ∨ t.kind = .disj)
    (h : BeginsExpr (pastSpace us)) : wordBelongs (t :: us) = .found false := by
  have hcolon := h.not_colon
  obtain ⟨u, vs, hus, hu⟩ := h
  rcases hu with hu | ⟨htext, hkey⟩
  · rcases ht with ht | ht <;> simp [wordBelongs, ht, hcolon, hus, hu]
  · by_cases hj : isJoining u.kind = true
    · have hjoins := joinsAfterWord_of_key (hkey hj)
      have hmember := memberIsKey_of_key (hkey hj)
      obtain hu | hu | hu : u.kind = .conj ∨ u.kind = .disj ∨ u.kind = .member := by
        simpa [isJoining, or_assoc] using hj
      all_goals rcases ht with ht | ht <;>
        simp [wordBelongs, ht, hcolon, hus, hu, hjoins, hmember, Look.map]
    · cases hk : u.kind <;> rcases ht with ht | ht <;>
        simp_all [wordBelongs, isJoining, Kind.startsText, Kind.isWord]

/-- What comes after a text is no word of it. -/
lemma wordBelongs_of_after (h : AfterText ts) : wordBelongs ts = .found false := by
  obtain ⟨t, us, hts, hf⟩ := h
  rcases cons_of_pastSpace hts with rfl | ⟨s, hs, rfl⟩
  · by_cases hm : t.kind = .member
    · simp only [Follows, hm] at hf
      obtain ⟨u, vs, hus, hu⟩ := exists_of_nextIs hf
      simp [wordBelongs, hm, hus, hu]
    · by_cases hj : t.kind = .conj ∨ t.kind = .disj
      · exact wordBelongs_of_expr hj (by rcases hj with hj | hj <;> simpa [Follows, hj] using hf)
      · cases hk : t.kind <;> simp_all [Follows, wordBelongs, Kind.isWord]
  · simp [wordBelongs, hs, Kind.isWord]

/-- A word of a text is taken for one: either a colon comes after it, or the text ends. -/
lemma wordBelongs_of_word {w : Token} (hw : w.kind.isWord = true)
    (h : nextIs .colon ts = true ∨ AfterText ts) : wordBelongs (w :: ts) = .found true := by
  by_cases hm : w.kind = .member
  · have hparen : ∃ u vs, pastSpace ts = u :: vs ∧ u.kind ≠ .lparen := by
      rcases h with h | ⟨u, vs, hts, hf⟩
      · obtain ⟨u, vs, rfl, hu⟩ := exists_of_nextIs h
        exact ⟨u, vs, pastSpace_cons (by simp [hu]), by simp [hu]⟩
      · exact ⟨u, vs, hts, by rintro hu; simp [Follows, hu] at hf⟩
    obtain ⟨u, vs, hts, hu⟩ := hparen
    simp [wordBelongs, hm, hts, hu]
  · by_cases hj : w.kind = .conj ∨ w.kind = .disj
    · by_cases hcolon : nextIs .colon ts = true
      · rcases hj with hj | hj <;> simp [wordBelongs, hj, hcolon]
      · obtain ⟨u, vs, hts, hf⟩ := h.resolve_left hcolon
        cases hk : u.kind <;> rcases hj with hj | hj <;>
          simp_all [wordBelongs, Follows, joinsAfterWord_of_expr, memberIsKey_of_lparen, Look.map,
            Kind.startsText, Kind.isWord]
    · cases hk : w.kind <;> simp_all [wordBelongs, Kind.isWord]

/-! ## Forms of tag filters -/

section Keys

variable {f : Form} {ws : List (Option Lexeme)}

/-- The words of a text after its first one, each with the colon before it. -/
def colonWords : List (Option Lexeme) → List Lexeme
  | [] => []
  | w :: ws => ⟨.colon, ":"⟩ :: (w.toList ++ colonWords ws)

lemma leaves_words (first : Lexeme) (ws : List (Option Lexeme)) :
    (Text.words first ws).node.leaves = first :: colonWords ws := by
  have hws : Node.leavesOf (ws.flatMap fun w => Kind.colon.node :: w.toList.map .leaf) =
      colonWords ws := by
    induction ws with
    | nil => simp [colonWords]
    | cons w ws ih =>
      have hcolon : Kind.colon.node.leaves = [⟨.colon, ":"⟩] := by simp [Kind.node, Kind.spelling?]
      cases w <;> simp [colonWords, ih, hcolon]
  simp [Text.node, hws]

lemma nextIs_colon_or_end (h : Spans ts (colonWords ws) rest) :
    nextIs .colon ts = true ∨ ts = rest := by
  cases ws with
  | nil => exact .inr (by simpa [colonWords] using h)
  | cons w ws =>
    simp only [colonWords, spans_cons] at h
    obtain ⟨t, us, rfl, ht, -⟩ := h
    exact .inl (by simp [nextIs, congrArg Lexeme.kind ht])

lemma endsKey_of_words (h : Spans ts (colonWords ws) rest) (hrest : Compares f rest) :
    EndsKey ts := by
  rcases nextIs_colon_or_end h with hcolon | rfl
  · exact .inl hcolon
  · exact hrest.endsKey

lemma keyForm_of_compares (afterColon : Bool) (h : Compares f ts) :
    keyForm afterColon ts = .found f := by
  obtain ⟨t, us, hts, hop, hmember, hform⟩ := h
  rcases cons_of_pastSpace hts with rfl | ⟨s, hs, rfl⟩
  · have hcolon : t.kind ≠ .colon := by
      intro ht
      simp [ht, Kind.isOperator] at hop
    by_cases ht : t.kind = .member
    · -- the word `in` after a colon is told from a part of the key by the parenthesis after it
      obtain rfl : Form.tagIn = f := by simpa [operatorForm, ht] using hform
      simp [keyForm, ht, hmember ht, hts, operatorForm]
    · have hword : t.kind.isWord = false := by
        cases hk : t.kind <;> simp_all [Kind.isOperator, Kind.isWord]
      simp [keyForm, hcolon, hword, hts, hform]
  · simp [keyForm, hs, Kind.isWord, hts, hform]

/-- A word of a tag key is stepped over. -/
lemma keyForm_word {w : Token} (hw : w.kind.isWord = true)
    (h : nextIs .colon ts = true ∨ Compares f ts) : keyForm true (w :: ts) = keyForm false ts := by
  have hcolon : w.kind ≠ .colon := by
    intro hk
    simp [hk, Kind.isWord] at hw
  have hparen : nextIs .lparen (pastSpace ts) = false := by
    rcases h with h | ⟨t, us, hts, hop, -⟩
    · obtain ⟨t, us, rfl, ht⟩ := exists_of_nextIs h
      rw [pastSpace_cons (by simp [ht])]
      simp [nextIs, ht]
    · have ht : t.kind ≠ .lparen := by
        intro ht
        simp [ht, Kind.isOperator] at hop
      simp [hts, nextIs, ht]
  simp [keyForm, hcolon, hw, hparen]

lemma keyForm_of_words (afterColon : Bool) (h : Spans ts (colonWords ws) rest)
    (hws : ∀ w, some w ∈ ws → w.kind.isWord = true) (hrest : Compares f rest) :
    keyForm afterColon ts = .found f := by
  induction ws generalizing ts afterColon with
  | nil =>
    obtain rfl : ts = rest := by simpa [colonWords] using h
    exact keyForm_of_compares afterColon hrest
  | cons w ws ih =>
    simp only [colonWords, spans_cons, spans_append] at h
    obtain ⟨t, us, rfl, ht, mid, hw, hmid⟩ := h
    have hkind : t.kind = .colon := congrArg Lexeme.kind ht
    rw [keyForm, if_pos hkind]
    have htail : ∀ v, some v ∈ ws → v.kind.isWord = true := fun v hv => hws v (by simp [hv])
    cases w with
    | none =>
      obtain rfl : us = mid := by simpa using hw
      exact ih true hmid htail
    | some w =>
      obtain ⟨u, rfl, rfl⟩ : ∃ u, us = u :: mid ∧ u.toLexeme = w := by simpa using hw
      rw [keyForm_word (f := f) (hws _ (by simp)) ?_]
      · exact ih false hmid htail
      · rcases nextIs_colon_or_end hmid with hcolon | rfl
        · exact .inl hcolon
        · exact .inr hrest

lemma keywordForm?_eq_none (keyword : Kind)
    (ht : t.kind.isOperator = true ∨ t.kind = .colon) : keywordForm? keyword t us = none := by
  have hop : ∀ k : Kind, (k.isOperator = true ∨ k = .colon) → k ≠ .objectType ∧ k ≠ .geometryType ∧
      k ≠ .number ∧ k ≠ .objectId ∧ k ≠ .lparen := by
    intro k hk
    cases k <;> simp_all [Kind.isOperator]
  have hne := hop _ ht
  unfold keywordForm?
  split <;> simp_all

/-- The first word of a tag key may be a keyword with a colon after it; what decides is the symbol at
the end of the key. -/
lemma wordForm_of_words (first : Kind) (h : Spans ts (colonWords ws) rest)
    (hws : ∀ w, some w ∈ ws → w.kind.isWord = true) (hrest : Compares f rest) :
    wordForm first ts = .found f := by
  cases ws with
  | nil =>
    obtain rfl : ts = rest := by simpa [colonWords] using h
    obtain ⟨t, us, hts, hop, -, hform⟩ := hrest
    rcases cons_of_pastSpace hts with rfl | ⟨s, hs, rfl⟩
    · cases hk : t.kind <;> simp_all [wordForm, Kind.isOperator]
    · have hcolon : t.kind ≠ .colon := by
        intro ht
        simp [ht, Kind.isOperator] at hop
      simp [wordForm, hs, hcolon, hform]
  | cons w ws =>
    have hkey := keyForm_of_words true h hws hrest
    simp only [colonWords, spans_cons, spans_append] at h
    obtain ⟨t, us, rfl, ht, mid, hw, hmid⟩ := h
    have hkind : t.kind = .colon := congrArg Lexeme.kind ht
    rw [keyForm, if_pos hkind] at hkey
    cases w with
    | none =>
      obtain rfl : us = mid := by simpa using hw
      rcases nextIs_colon_or_end hmid with hcolon | rfl
      · obtain ⟨u, vs, rfl, hu⟩ := exists_of_nextIs hcolon
        simp [wordForm, hkind, hu, keywordForm?_eq_none first (.inr hu), hkey]
      · obtain ⟨u, vs, hus, hop, -, hform⟩ := hrest
        have hnone : keywordForm? first u vs = none := keywordForm?_eq_none first (.inl hop)
        rcases cons_of_pastSpace hus with rfl | ⟨s, hs, rfl⟩
        · have hspace : u.kind ≠ .space := by
            intro hu
            simp [hu, Kind.isOperator] at hop
          simp [wordForm, hkind, hspace, hnone, hkey]
        · simp [wordForm, hkind, hs, hnone, hform]
    | some w =>
      obtain ⟨u, rfl, rfl⟩ : ∃ u, us = u :: mid ∧ u.toLexeme = w := by simpa using hw
      have hword : u.kind.isWord = true := hws _ (by simp)
      have hspace : u.kind ≠ .space := by
        intro hu
        simp [hu, Kind.isWord] at hword
      cases hform : keywordForm? first u mid with
      | none => simp [wordForm, hkind, hspace, hform, hkey]
      | some form =>
        have hcomplete : completeForm form mid = .found f := by
          rcases nextIs_colon_or_end hmid with hcolon | rfl
          · rw [completeForm, if_pos hcolon]
            exact keyForm_of_words false hmid (fun v hv => hws v (by simp [hv])) hrest
          · by_cases hcolon : nextIs .colon mid = true
            · rw [completeForm, if_pos hcolon]
              exact keyForm_of_compares false hrest
            · obtain ⟨v, vs, hmid', hop, -, hf⟩ := hrest
              simp [completeForm, hcolon, hmid', hop, hf]
        simp [wordForm, hkind, hspace, hform, hword, hcomplete]

/-- A filter that begins with a tag key. -/
lemma opening_of_key {key : Text} (h : Spans ts key.node.leaves rest) (hkey : key.Proper)
    (hrest : Compares f rest) : opening ts = .found (.filter f) := by
  have hoperator : operatorForm (pastSpace rest) = .found f := by
    obtain ⟨t, us, hts, -, -, hform⟩ := hrest
    rw [hts, hform]
  cases key with
  | quoted s =>
    obtain ⟨t, rfl, ht⟩ : ∃ t, ts = t :: rest ∧ t.toLexeme = ⟨.quoted, s⟩ := by
      simpa [Text.node] using h
    simp [opening, congrArg Lexeme.kind ht, hoperator, Look.map]
  | number s =>
    obtain ⟨t, rfl, ht⟩ : ∃ t, ts = t :: rest ∧ t.toLexeme = ⟨.number, s⟩ := by
      simpa [Text.node] using h
    simp [opening, congrArg Lexeme.kind ht, hoperator, Look.map]
  | words first ws =>
    obtain ⟨hfirst, hws⟩ := hkey
    rw [leaves_words, spans_cons] at h
    obtain ⟨t, us, rfl, rfl, hus⟩ := h
    have hneg := negates_of_key (endsKey_of_words hus hrest)
    have hkey := keyForm_of_words false hus hws hrest
    have hword := wordForm_of_words t.kind hus hws hrest
    cases hk : t.kind <;> simp_all [opening, Kind.isWord, Look.map]

end Keys

/-! ## Forms of keyword filters -/

lemma spacedKeywordForm?_of_keywordForm? {keyword : Kind} {f : Form} (hts : pastSpace ts = t :: us)
    (h : keywordForm? keyword t us = some (.found f)) :
    spacedKeywordForm? keyword ts = some (.found f) := by
  have hform := h
  unfold keywordForm? at h
  split at h <;> simp_all [spacedKeywordForm?]

lemma completeForm_of_after {form : Look Form} (h : AfterOperand ts) : completeForm form ts = form := by
  obtain ⟨t, us, hts, hend, -⟩ := h
  have hnot : t.kind ≠ .colon ∧ t.kind.isOperator = false := by
    cases hk : t.kind <;> simp_all [endsOperand, Kind.isOperator]
  have hnext : nextIs .colon ts = false := by
    rcases cons_of_pastSpace hts with rfl | ⟨s, hs, rfl⟩
    · simp [nextIs, hnot.1]
    · simp [nextIs, hs]
  simp [completeForm, hnext, hts, hnot.2]

/-- A keyword and a colon, wherever the white space is, and the token that completes them. -/
lemma wordForm_of_keyword {keyword : Kind} {op : Padding} {f : Form}
    (h : Spans ts (op.node .colon).leaves (t :: us)) (hspace : t.kind ≠ .space)
    (hform : keywordForm? keyword t us = some (.found f))
    (hafter : t.kind.isWord = true → AfterOperand us) : wordForm keyword ts = .found f := by
  obtain ⟨u, vs, hts, hu, hvs, -⟩ := spans_sign h (by simpa [nextIs] using hspace)
  have hcolon : u.kind = .colon := hu
  rcases cons_of_pastSpace hts with rfl | ⟨s, hs, rfl⟩
  · rcases cons_of_pastSpace hvs with rfl | ⟨s, hs, rfl⟩
    · by_cases hword : t.kind.isWord = true
      · simp [wordForm, hcolon, hspace, hform, hword, completeForm_of_after (hafter hword)]
      · simp [wordForm, hcolon, hspace, hform, hword]
    · simp [wordForm, hcolon, hs, hform]
  · simp [wordForm, hs, hcolon, spacedKeywordForm?_of_keywordForm? hvs hform]

/-! ## What can always be read -/

lemma memberIsKey_ne_unread (h : Complete ts) : memberIsKey ts ≠ .unread := by
  cases ts with
  | nil => exact absurd rfl h.ne_nil
  | cons t ts =>
    have hpast := (complete_pastSpace h).ne_nil
    cases hts : pastSpace (t :: ts) with
    | nil => exact absurd hts hpast
    | cons u us =>
      simp only [memberIsKey, hts]
      split_ifs <;> simp

lemma negates_ne_unread (h : Complete ts) : negates ts ≠ .unread := by
  cases ts with
  | nil => exact absurd rfl h.ne_nil
  | cons t ts =>
    have hpast := complete_pastSpace h
    cases hts : pastSpace (t :: ts) with
    | nil => exact absurd hts hpast.ne_nil
    | cons u us =>
      simp only [negates, hts]
      split_ifs with hcolon hmember
      · simp
      · rw [hts] at hpast
        exact memberIsKey_ne_unread (hpast.tail (by simp [hmember]))
      all_goals simp

lemma readableAfterSpace_of_complete (s : Sign) (h : Complete ts) : readableAfterSpace s ts = true := by
  cases ts with
  | nil => exact absurd rfl h.ne_nil
  | cons t ts =>
    by_cases ht : t.kind = .neg
    · have hread := negates_ne_unread (h.tail (by simp [ht]))
      cases s <;> simp [readableAfterSpace, ht, hread]
    · cases s <;> cases hk : t.kind <;> simp_all [readableAfterSpace]

end Lookahead

end MapFilter
