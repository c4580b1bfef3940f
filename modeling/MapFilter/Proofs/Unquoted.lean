import MapFilter.Proofs.Runs

/-!
# Unquoted tags

Where the tokens of a text are kept apart by colons and equals signs, the text is no more than one
filter, as there is neither white space nor a parenthesis for an operator. With an equals sign
it is a filter of tags, whose key and value are the texts on either side. So a text of runs can be
a key or a value if and only if its tokens make up one.
-/

namespace MapFilter

open Lookahead

/-! ## Tokens without expressions between them -/

def Lexeme.Separates (l : Lexeme) : Prop := l.kind = .colon ∨ l.kind = .equal
deriving Decidable

/-- Of two tokens side by side one is a colon or an equals sign. -/
def Separated (ls : List Lexeme) : Prop := ls.IsChain fun a b => a.Separates ∨ b.Separates

section Separated

variable {l : Lexeme} {ls : List Lexeme}

lemma Separated.cons (h : Separated ls) (hl : l.Separates) : Separated (l :: ls) := by
  cases ls with
  | nil => exact List.IsChain.singleton l
  | cons a ls => exact List.isChain_cons_cons.2 ⟨.inl hl, h⟩

lemma Separated.run (h : Separated ls) (hls : ∀ a ∈ ls.head?, a.Separates) (o : Option Lexeme) :
    Separated (o.toList ++ ls) := by
  cases o with
  | none => exact h
  | some l =>
    cases ls with
    | nil => exact List.IsChain.singleton l
    | cons a ls => exact List.isChain_cons_cons.2 ⟨.inr (hls a rfl), h⟩

lemma Separated.colonWords (h : Separated ls) (hls : ∀ a ∈ ls.head?, a.Separates)
    (os : List (Option Lexeme)) :
    Separated (colonWords os ++ ls) ∧ ∀ a ∈ (colonWords os ++ ls).head?, a.Separates := by
  induction os with
  | nil => exact ⟨h, hls⟩
  | cons o os ih =>
    have hrun := (ih.1.run ih.2 o).cons (l := ⟨.colon, ":"⟩) (.inl rfl)
    refine ⟨by simpa [Lookahead.colonWords] using hrun, ?_⟩
    simp [Lookahead.colonWords, Lexeme.Separates]

/-- A symbol that does not separate is not followed by what does not. -/
lemma not_separated_sign {p : Padding} {s : Sign} (hs : ¬Lexeme.Separates ⟨s.kind, ""⟩)
    (hl : ¬l.Separates) : ¬Separated ((p.node s).leaves ++ l :: ls) := by
  intro h
  obtain ⟨before, after⟩ := p
  cases after with
  | none =>
    have hpair : Separated (⟨s.kind, s.kind.spelling?.getD ""⟩ :: l :: ls) := by
      have h' : Separated (Node.leavesOf (spaceNodes before) ++
          (⟨s.kind, s.kind.spelling?.getD ""⟩ :: l :: ls)) := by
        simpa [Padding.node, Kind.node, spaceNodes] using h
      exact List.IsChain.right_of_append h'
    exact (List.isChain_cons_cons.1 hpair).1.elim hs hl
  | some t =>
    have hpair : Separated (⟨s.kind, s.kind.spelling?.getD ""⟩ :: ⟨.space, t⟩ :: l :: ls) := by
      have h' : Separated (Node.leavesOf (spaceNodes before) ++
          (⟨s.kind, s.kind.spelling?.getD ""⟩ :: ⟨.space, t⟩ :: l :: ls)) := by
        simpa [Padding.node, Kind.node, spaceNodes] using h
      exact List.IsChain.right_of_append h'
    exact (List.isChain_cons_cons.1 hpair).1.elim hs (by simp [Lexeme.Separates])

end Separated

lemma Padding.exists_first (p : Padding) (s : Sign) (hs : ¬Lexeme.Separates ⟨s.kind, ""⟩) :
    ∃ l ls, (p.node s).leaves = l :: ls ∧ ¬l.Separates := by
  obtain ⟨before, after⟩ := p
  cases before with
  | none =>
    exact ⟨⟨s.kind, s.kind.spelling?.getD ""⟩, Node.leavesOf (spaceNodes after),
      by simp [Padding.node, spaceNodes, Kind.node], hs⟩
  | some t =>
    exact ⟨⟨.space, t⟩, _, by simp [Padding.node, spaceNodes, Kind.node]; rfl,
      by simp [Lexeme.Separates]⟩

namespace Text

variable {t : Text}

lemma exists_first (ht : t.Proper) : ∃ l ls, t.node.leaves = l :: ls ∧ ¬l.Separates := by
  cases t with
  | quoted s | number s => exact ⟨_, [], by simp [Text.node]; rfl, by simp [Lexeme.Separates]⟩
  | words first more =>
    refine ⟨first, _, leaves_words first more, ?_⟩
    rintro (hk | hk) <;> simp [Proper, hk, Kind.isWord] at ht

end Text

lemma Filter.exists_first {f : Filter} (hg : f.Grammatical) :
    ∃ l ls, f.node.leaves = l :: ls ∧ ¬l.Separates := by
  have hkeyword : ∀ {k : Kind} {ns : List Node}, f.nodes = k.node :: ns →
      ¬Lexeme.Separates ⟨k, ""⟩ → ∃ l ls, f.node.leaves = l :: ls ∧ ¬l.Separates := by
    intro k ns hnodes hk
    exact ⟨⟨k, k.spelling?.getD ""⟩, Node.leavesOf ns, by simp [Filter.node, hnodes, Kind.node], hk⟩
  have htext : ∀ {t : Text} {ns : List Node}, f.nodes = t.node :: ns → t ∈ f.texts →
      ∃ l ls, f.node.leaves = l :: ls ∧ ¬l.Separates := by
    intro t ns hnodes ht
    obtain ⟨l, ls, hleaves, hl⟩ := Text.exists_first (hg.texts t ht)
    exact ⟨l, ls ++ Node.leavesOf ns, by simp [Filter.node, hnodes, hleaves], hl⟩
  cases f with
  | tag | tagAny | tagIn | tagLike => exact htext rfl (by simp [Filter.texts])
  | type | geometry | object | objects => exact hkeyword rfl (by simp [Lexeme.Separates])
  | number q | numbers q | range q =>
    cases q <;> exact hkeyword rfl (by
      simp [Lexeme.Separates, Numbered.kind, Listable.kind, Ranged.kind])

namespace Expr

variable {e : Expr}

lemma exists_first (hg : e.Grammatical) : ∃ l ls, e.node.leaves = l :: ls ∧ ¬l.Separates := by
  induction e with
  | filter f => simpa [Expr.node] using Filter.exists_first (hg f (by simp [filters]))
  | group left e right =>
    obtain ⟨l, ls, hleaves, hl⟩ := Padding.exists_first left .lparen (by decide)
    exact ⟨l, _, by simp [Expr.node, hleaves]; rfl, hl⟩
  | neg op e =>
    obtain ⟨l, ls, hleaves, hl⟩ := Padding.exists_first op .neg (by decide)
    exact ⟨l, _, by simp [Expr.node, hleaves]; rfl, hl⟩
  | join j l op r ihl =>
    obtain ⟨a, ls, hleaves, ha⟩ := ihl (grammatical_join.1 hg).1
    exact ⟨a, _, by simp [Expr.node, hleaves]; rfl, ha⟩

/-- Where a symbol with an operand after it would stand, tokens do not keep apart. -/
lemma not_separated_operand (hg : e.Grammatical) {s : Sign} (hs : ¬Lexeme.Separates ⟨s.kind, ""⟩)
    (p : Padding) (ls : List Lexeme) : ¬Separated ((p.node s).leaves ++ (e.node.leaves ++ ls)) := by
  obtain ⟨l, us, hleaves, hl⟩ := exists_first hg
  rw [hleaves]
  exact not_separated_sign hs hl

/-- Tokens that are kept apart are those of a single filter. -/
lemma exists_filter (hg : e.Grammatical) (h : Separated e.node.leaves) : ∃ f, e = .filter f := by
  cases e with
  | filter f => exact ⟨f, rfl⟩
  | group left e right =>
    refine absurd ?_ (not_separated_operand (e := e) hg (s := .lparen) (by decide) left
      (right.node .rparen).leaves)
    simpa [Expr.node] using h
  | neg op e =>
    refine absurd ?_ (not_separated_operand (e := e) hg (s := .neg) (by decide) op [])
    simpa [Expr.node] using h
  | join j l op r =>
    have hright : Separated ((op.node j.sign).leaves ++ (r.node.leaves ++ [])) :=
      List.IsChain.right_of_append (by simpa [Expr.node, Separated] using h)
    exact absurd hright
      (not_separated_operand (grammatical_join.1 hg).2 (by cases j <;> decide) op [])

end Expr

/-- The kinds of symbols that come with no text of runs. -/
def Lexeme.Plain (l : Lexeme) : Prop := l.kind ∉ [.space, .notEqual, .lparen, .tilde]

lemma Padding.eq_none_of_plain {p : Padding} {s : Sign} (h : ∀ l ∈ (p.node s).leaves, l.Plain) :
    p = ⟨none, none⟩ ∧ s.kind ∉ [.space, .notEqual, .lparen, .tilde] := by
  obtain ⟨before, after⟩ := p
  cases before <;> cases after <;> simp [Padding.node, spaceNodes, Kind.node, Lexeme.Plain] at h
  exact ⟨rfl, by simpa using h⟩

/-- There is no equals sign in a filter of a keyword and one token. -/
lemma Filter.no_equal_of_keyword {f : Filter} {keyword kind : Kind} {op : Padding} {t : String}
    (hf : f.nodes = [keyword.node, op.node .colon, .leaf ⟨kind, t⟩]) (hkeyword : keyword ≠ .equal)
    (hkind : kind ≠ .equal) : ∀ l ∈ f.node.leaves, l.kind ≠ .equal := by
  have hcolon : ∀ l ∈ (op.node .colon).leaves, l.kind ≠ .equal := by
    obtain ⟨before, after⟩ := op
    cases before <;> cases after <;> simp [Padding.node, spaceNodes, Kind.node, Sign.kind]
  intro l hl
  have hl : l = ⟨keyword, keyword.spelling?.getD ""⟩ ∨ l ∈ (op.node .colon).leaves ∨
      l = ⟨kind, t⟩ := by simpa [Filter.node, hf, Kind.node] using hl
  rcases hl with rfl | hl | rfl
  · exact hkeyword
  · exact hcolon l hl
  · exact hkind

/-- Only filters of tags have an equals sign. -/
lemma Filter.cases_of_equal {f : Filter} (hequal : ∃ l ∈ f.node.leaves, l.kind = .equal)
    (hplain : ∀ l ∈ f.node.leaves, l.Plain) :
    (∃ key value, f = .tag .equal key ⟨none, none⟩ value) ∨
      ∃ key, f = .tagAny .equal key ⟨none, none⟩ := by
  have hsign : ∀ (p : Padding) (s : Sign), (∀ l ∈ (p.node s).leaves, l ∈ f.node.leaves) →
      p = ⟨none, none⟩ ∧ s.kind ∉ [.space, .notEqual, .lparen, .tilde] :=
    fun p s h => Padding.eq_none_of_plain fun l hl => hplain l (h l hl)
  cases f with
  | tag c key op value =>
    obtain ⟨rfl, hc⟩ := hsign op c.sign fun l hl => by simp [Filter.node, Filter.nodes, hl]
    cases c with
    | equal => exact .inl ⟨key, value, rfl⟩
    | notEqual => exact absurd (by decide) hc
  | tagAny c key op =>
    obtain ⟨rfl, hc⟩ := hsign op c.sign fun l hl => by simp [Filter.node, Filter.nodes, hl]
    cases c with
    | equal => exact .inr ⟨key, rfl⟩
    | notEqual => exact absurd (by decide) hc
  | tagLike key op pattern =>
    obtain ⟨-, hs⟩ := hsign op .tilde fun l hl => by simp [Filter.node, Filter.nodes, hl]
    exact absurd (by decide) hs
  | tagIn key op values =>
    obtain ⟨-, hs⟩ := hsign values.left .lparen fun l hl => by
      simp [Filter.node, Filter.nodes, Listed.nodes, hl]
    exact absurd (by decide) hs
  | objects op items | numbers q op items =>
    obtain ⟨-, hs⟩ := hsign items.left .lparen fun l hl => by
      simp [Filter.node, Filter.nodes, Listed.nodes, hl]
    exact absurd (by decide) hs
  | range q op r =>
    obtain ⟨-, hs⟩ := hsign r.left .lparen fun l hl => by
      simp [Filter.node, Filter.nodes, Range.node, hl]
    exact absurd (by decide) hs
  | type op t | geometry op t | object op t =>
    obtain ⟨l, hl, hk⟩ := hequal
    exact absurd hk (no_equal_of_keyword rfl (by decide) (by decide) l hl)
  | number q op t =>
    obtain ⟨l, hl, hk⟩ := hequal
    have hq : q.kind ≠ .equal := by cases q <;> decide
    exact absurd hk (no_equal_of_keyword rfl hq (by decide) l hl)

/-! ## The tokens of a text of runs -/

def Kind.inRun (k : Kind) : Bool := k.isWord || k == .number || k == .decimal || k == .colon

/-- The tokens that a text of runs is read as. -/
structure RunTokens (w : List Char) (ts : List Lexeme) : Prop where
  texts : ts.flatMap (·.text.toList) = w
  kinds : ∀ l ∈ ts, l.kind.inRun = true
  separated : ∀ {ls}, Separated ls → (∀ a ∈ ls.head?, a.Separates) → Separated (ts ++ ls)
  bare_iff : Bare w ↔ ∃ t : Text, t.Proper ∧ t.node.leaves = ts

lemma Lexer.Lexes.exists_runTokens {w rest : List Char} {ls : List Lexeme} (h : Lexes rest ls)
    (hw : ∀ c ∈ w, isWordChar c = true ∨ c = ':') (hrest : EndsRun rest) :
    ∃ ts, RunTokens w ts ∧ Lexes (w ++ rest) (ts ++ ls) := by
  obtain ⟨first, more, o, os, hruns, hw, ho, hos, hlexes⟩ := h.runs hw hrest
  have hbare : Bare w ↔ ∃ t : Text, t.Proper ∧ t.node.leaves = o.toList ++ colonWords os := by
    refine ⟨exists_text_of_bare hruns hw ho hos, ?_⟩
    rintro ⟨t, ht, hleaves⟩
    exact bare_of_text hruns hw ho hos ht hleaves
  refine ⟨o.toList ++ colonWords os, ⟨?_, ?_, ?_, hbare⟩, ?_⟩
  · rw [List.flatMap_append, ho.texts, ReadAs.colonWords_texts hos, hw]
  · intro l hl
    have hcases : l = ⟨.colon, ":"⟩ ∨ some l ∈ o :: os := by
      rcases List.mem_append.1 hl with hl | hl
      · exact .inr (List.mem_cons.2 (.inl (Option.mem_toList.1 hl).symm))
      · exact (Text.mem_colonWords hl).imp_right (List.mem_cons_of_mem o)
    rcases hcases with rfl | hl
    · rfl
    · rcases ReadAs.kind_of_mem (.cons ho hos) hl with hk | hk | hk <;> simp [Kind.inRun, hk]
  · intro ls hls hhead
    have hcolon := hls.colonWords hhead os
    simpa using hcolon.1.run hcolon.2 o
  · simpa using hlexes

namespace RunTokens

variable {w : List Char} {ts : List Lexeme} (h : RunTokens w ts)

include h

lemma plain {l : Lexeme} (hl : l ∈ ts) : l.Plain ∧ l.kind ≠ .equal ∧ l.kind ≠ .star := by
  have hk := h.kinds l hl
  unfold Lexeme.Plain
  revert hk
  cases l.kind <;> decide

lemma notMem {l : Lexeme} (hl : l.kind = .equal ∨ l.kind = .star) : l ∉ ts :=
  fun hmem => hl.elim (h.plain hmem).2.1 (h.plain hmem).2.2

end RunTokens

/-- A text that does not begin with a quote stands for itself. -/
lemma Text.content_of_ne_quote {t : Text} {c : Char} {cs : List Char}
    (h : t.node.text.toList = c :: cs) (hc : c ≠ '"') : t.content = t.node.text := by
  have hsingle : ∀ s : String, t.node.text = s →
      (Quoted.unescape? s).getD "" = t.node.text := by
    rintro s rfl
    rw [Quoted.unescape?_of_ne_quote h hc, Option.getD_some]
  cases t with
  | quoted s | number s =>
    exact hsingle s (String.toList_injective (by simp [Node.toList_text, node]))
  | words first more =>
    cases more with
    | nil => exact hsingle _ (String.toList_injective (by simp [Node.toList_text, node]))
    | cons => rfl

lemma RunTokens.content_eq {w : String} {ts : List Lexeme} (h : RunTokens w.toList ts) {t : Text}
    (ht : t.node.leaves = ts) (hne : w ≠ "") (hw : ∀ c ∈ w.toList, isWordChar c = true ∨ c = ':') :
    t.content = w := by
  have htext : t.node.text = w :=
    String.toList_injective (by rw [Node.toList_text, ht, h.texts])
  obtain ⟨c, cs, hcs⟩ := List.exists_cons_of_ne_nil (l := w.toList) (by simpa using hne)
  rw [Text.content_of_ne_quote (htext ▸ hcs), htext]
  rintro rfl
  exact absurd (hw '"' (by simp [hcs])) (by decide)

/-! ## Queries -/

/-- The tokens of a parsed text are those that it is read as. -/
lemma leaves_of_lexes {s : String} {e : Expr} {ls : List Lexeme} (hs : parse s = .ok (.expr e))
    (h : Lexer.Lexes s.toList ls) : e.node.leaves = ls := by
  have hlexemes := lexemes_of_lexes (lexes_of_parse hs)
  rw [lexemes_of_lexes h] at hlexemes
  exact (List.append_cancel_right hlexemes).symm

/-- A parsed text of runs around an equals sign is a filter of tags. -/
lemma exists_tag_of_parse {s : String} {e : Expr} {us vs : List Lexeme}
    (hs : parse s = .ok (.expr e)) (h : Lexer.Lexes s.toList (us ++ ⟨.equal, "="⟩ :: vs))
    (hsep : Separated (us ++ ⟨.equal, "="⟩ :: vs))
    (hplain : ∀ l ∈ us ++ vs, l.Plain ∧ l.kind ≠ .equal) :
    ∃ key : Text, key.Proper ∧ key.node.leaves = us ∧
      ((∃ value : Text, value.Proper ∧ value.node.leaves = vs) ∨ vs = [⟨.star, "*"⟩]) := by
  have hleaves := leaves_of_lexes hs h
  have hg : e.Grammatical := parse_grammatical hs
  obtain ⟨f, rfl⟩ := Expr.exists_filter hg (hleaves ▸ hsep)
  have hf : f.node.leaves = us ++ ⟨.equal, "="⟩ :: vs := by simpa [Expr.node] using hleaves
  have htexts := (hg f (by simp [Expr.filters])).texts
  have hus : ⟨.equal, "="⟩ ∉ us := fun hmem => (hplain _ (List.mem_append_left vs hmem)).2 rfl
  have hvs : ⟨.equal, "="⟩ ∉ vs := fun hmem => (hplain _ (List.mem_append_right us hmem)).2 rfl
  have hplain' : ∀ l ∈ f.node.leaves, l.Plain := by
    intro l hl
    rw [hf, List.mem_append, List.mem_cons] at hl
    rcases hl with hl | rfl | hl
    · exact (hplain l (by simp [hl])).1
    · simp [Lexeme.Plain]
    · exact (hplain l (by simp [hl])).1
  -- the equals sign of the filter is that of the text, since there is no other
  have hsplit : ∀ us' vs', f.node.leaves = us' ++ ⟨.equal, "="⟩ :: vs' → us' = us ∧ vs' = vs := by
    intro us' vs' hf'
    have heq := (List.append_cons_inj_of_notMem hus hvs).1 (hf.symm.trans hf')
    exact ⟨heq.1.symm, heq.2.2.symm⟩
  rcases Filter.cases_of_equal ⟨⟨.equal, "="⟩, by simp [hf], rfl⟩ hplain' with
    ⟨key, value, rfl⟩ | ⟨key, rfl⟩
  · obtain ⟨hkey, hvalue⟩ := hsplit key.node.leaves value.node.leaves (by
      simp [Filter.node, Filter.nodes, Padding.node, spaceNodes, Kind.node, Comparison.sign,
        Sign.kind, Kind.spelling?])
    exact ⟨key, htexts key (by simp [Filter.texts]), hkey,
      .inl ⟨value, htexts value (by simp [Filter.texts]), hvalue⟩⟩
  · obtain ⟨hkey, hvalue⟩ := hsplit key.node.leaves [⟨.star, "*"⟩] (by
      simp [Filter.node, Filter.nodes, Padding.node, spaceNodes, Kind.node, Comparison.sign,
        Sign.kind, Kind.spelling?])
    exact ⟨key, htexts key (by simp [Filter.texts]), hkey, .inr hvalue.symm⟩

lemma toNat_of_between {c : Char} (lo hi : Char) (h : c.val ≥ lo.val ∧ c.val ≤ hi.val) :
    lo.toNat ≤ c.toNat ∧ c.toNat ≤ hi.toNat :=
  ⟨UInt32.le_iff_toNat_le.1 h.1, UInt32.le_iff_toNat_le.1 h.2⟩

lemma toNat_of_isAlphanum {c : Char} (h : c.isAlphanum = true) : 48 ≤ c.toNat ∧ c.toNat ≤ 122 := by
  rcases Bool.or_eq_true_iff.1 h with h | h
  · rcases Bool.or_eq_true_iff.1 h with h | h
    · have hbounds : 65 ≤ c.toNat ∧ c.toNat ≤ 90 :=
        toNat_of_between 'A' 'Z' (of_decide_eq_true h)
      omega
    · obtain ⟨hlo, hhi⟩ := Bool.and_eq_true_iff.1 h
      have hbounds : 97 ≤ c.toNat ∧ c.toNat ≤ 122 :=
        toNat_of_between 'a' 'z' ⟨of_decide_eq_true hlo, of_decide_eq_true hhi⟩
      omega
  · obtain ⟨hlo, hhi⟩ := Bool.and_eq_true_iff.1 h
    have hbounds : 48 ≤ c.toNat ∧ c.toNat ≤ 57 :=
      toNat_of_between '0' '9' ⟨of_decide_eq_true hlo, of_decide_eq_true hhi⟩
    omega

/-- The characters of runs are written as they are. -/
lemma Json.char_of_isWordChar {c : Char} (hc : isWordChar c = true ∨ c = ':') : char c = [c] := by
  have hrange : 45 ≤ c.toNat ∧ c.toNat < 123 := by
    simp only [isWordChar, Bool.or_eq_true, beq_iff_eq] at hc
    rcases hc with ((hc | rfl) | rfl) | rfl
    · have hbounds := toNat_of_isAlphanum hc
      omega
    all_goals decide
  have hslash : c ≠ '\\' := by
    rintro rfl
    exact absurd hc (by decide)
  have hlow : ∀ d : Char, d.toNat < 45 → c ≠ d := by
    rintro d hd rfl
    omega
  have hcontrol : c.toNat ≠ 8 ∧ c.toNat ≠ 12 ∧ ¬c.toNat < 32 ∧ c.toNat < 127 := by omega
  simp only [char, hslash, hlow '"' (by decide), hlow '\n' (by decide), hlow '\r' (by decide),
    hlow '\t' (by decide), hcontrol, if_false, if_true]

lemma Json.member_of_isWordChar {w : String} (hw : ∀ c ∈ w.toList, isWordChar c = true ∨ c = ':') :
    member "k" w = "\x7b\"k\": \"" ++ w ++ "\"\x7d" := by
  have hchars : w.toList.flatMap char = w.toList := by
    rw [List.flatMap_congr fun c hc => char_of_isWordChar (hw c hc), List.flatMap_singleton']
  refine String.toList_injective ?_
  simp [member, string, hchars, char_of_isWordChar (c := 'k') (.inl (by decide))]

/-- A text with a run in it has a query exactly if the run is bare and the number of its placeholder
can be written, when the tokens of the run are those of a key or value in every filter that the text
is read as. -/
lemma RunTokens.query_iff {w : List Char} {ts : List Lexeme} (hts : RunTokens w ts) {s : String}
    {k : Int} {q q' : Query} (hs : 1 < s.toList.length)
    (hread : ∀ {e : Expr}, parse s = .ok (.expr e) → ∃ t : Text, t.Proper ∧ t.node.leaves = ts)
    (hquery : ∀ {t : Text}, t.Proper → t.node.leaves = ts →
      query s k = if AllWritable k 1 then .ok q' else .error (.failure .longPlaceholder)) :
    query s k = .ok q ↔ Bare w ∧ Writable (k + 1) ∧ q = q' := by
  rw [← allWritable_one]
  constructor
  · intro hq
    have hstar : s ≠ "*" := by
      rintro rfl
      exact absurd hs (by decide)
    obtain ⟨e, he⟩ := exists_expr_of_query hq hstar
    obtain ⟨t, ht, hleaves⟩ := hread he
    rw [hquery ht hleaves] at hq
    split at hq
    · rename_i hwritable
      exact ⟨hts.bare_iff.2 ⟨t, ht, hleaves⟩, hwritable, (Except.ok.inj hq).symm⟩
    · cases hq
  · rintro ⟨hbare, hwritable, rfl⟩
    obtain ⟨t, ht, hleaves⟩ := hts.bare_iff.1 hbare
    rw [hquery ht hleaves, if_pos hwritable]

section Queries

variable {w : String} (hne : w ≠ "") (hw : ∀ c ∈ w.toList, isWordChar c = true ∨ c = ':') (k : Int)

include hne hw

lemma query_bare_key_iff (q : Query) : query (w ++ "=*") k = .ok q ↔
    Bare w.toList ∧ Writable (k + 1) ∧ q = ⟨"tags ? $" ++ toString (k + 1), [.text w]⟩ := by
  have hstar : Lexer.Lexes ['*'] [⟨.star, "*"⟩] := Lexer.Lexes.nil.fixed "*" (n := 0) rfl rfl
  obtain ⟨ts, hts, hlexes⟩ := (hstar.comparison .equal).exists_runTokens hw
    (by simp [Lexer.EndsRun, Comparison.text])
  have hlexes' : Lexer.Lexes (w ++ "=*").toList (ts ++ [⟨.equal, "="⟩, ⟨.star, "*"⟩]) := by
    rw [String.toList_append]
    exact hlexes
  have hsep : Separated (ts ++ [⟨.equal, "="⟩, ⟨.star, "*"⟩]) :=
    hts.separated (Separated.cons (List.IsChain.singleton _) (.inr rfl))
      (by simp [Lexeme.Separates])
  have hplain : ∀ l ∈ ts ++ [⟨.star, "*"⟩], l.Plain ∧ l.kind ≠ .equal := by
    intro l hl
    rcases List.mem_append.1 hl with hl | hl
    · exact (hts.plain hl).imp_right And.left
    · simp [List.mem_singleton.1 hl, Lexeme.Plain]
  refine hts.query_iff (by simp) ?_ ?_
  · intro e he
    obtain ⟨key, hkey, hleaves, -⟩ := exists_tag_of_parse he hlexes' hsep hplain
    exact ⟨key, hkey, hleaves⟩
  · intro t ht hleaves
    have hparse : parse (w ++ "=*") = .ok (.expr (.filter (.tagAny .equal t ⟨none, none⟩))) := by
      refine parse_filter_of_lexes ⟨trivial, by simpa [Filter.texts] using ht⟩ trivial ?_
      simpa [Filter.node, Filter.nodes, hleaves, Padding.node, spaceNodes, Kind.node,
        Comparison.sign, Sign.kind, Kind.spelling?] using hlexes'
    have hquery := query_of_tagAny hparse k
    rw [hts.content_eq hleaves hne hw] at hquery
    exact hquery

lemma query_bare_value_iff (q : Query) : query ("k=" ++ w) k = .ok q ↔
    Bare w.toList ∧ Writable (k + 1) ∧
      q = ⟨"tags @> $" ++ toString (k + 1), [.text ("\x7b\"k\": \"" ++ w ++ "\"\x7d")]⟩ := by
  obtain ⟨ts, hts, hlexes⟩ := Lexer.Lexes.nil.exists_runTokens hw (by simp [Lexer.EndsRun])
  have hlexes' : Lexer.Lexes ("k=" ++ w).toList ([⟨.word, "k"⟩] ++ ⟨.equal, "="⟩ :: ts) := by
    rw [List.append_nil, List.append_nil] at hlexes
    rw [String.toList_append]
    exact Lexer.Lexes.fixed "k" (n := 0) (hlexes.comparison .equal) rfl rfl
  have hsep : Separated ([⟨.word, "k"⟩] ++ ⟨.equal, "="⟩ :: ts) := by
    have hts' : Separated (ts ++ []) := hts.separated List.IsChain.nil (by simp)
    rw [List.append_nil] at hts'
    exact (hts'.cons (.inr rfl)).run (by simp [Lexeme.Separates]) (some ⟨.word, "k"⟩)
  have hplain : ∀ l ∈ [⟨.word, "k"⟩] ++ ts, l.Plain ∧ l.kind ≠ .equal := by
    intro l hl
    rcases List.mem_append.1 hl with hl | hl
    · simp [List.mem_singleton.1 hl, Lexeme.Plain]
    · exact (hts.plain hl).imp_right And.left
  refine hts.query_iff (by simp) ?_ ?_
  · intro e he
    obtain ⟨key, -, -, ⟨value, hvalue, hleaves⟩ | hstar⟩ :=
      exists_tag_of_parse he hlexes' hsep hplain
    · exact ⟨value, hvalue, hleaves⟩
    · exact absurd (by simp [hstar]) (hts.notMem (l := ⟨.star, "*"⟩) (.inr rfl))
  · intro t ht hleaves
    have hkey : (Text.words ⟨.word, "k"⟩ []).Proper := ⟨rfl, by simp⟩
    have hparse : parse ("k=" ++ w) =
        .ok (.expr (.filter (.tag .equal (.words ⟨.word, "k"⟩ []) ⟨none, none⟩ t))) := by
      refine parse_filter_of_lexes ⟨trivial, by simpa [Filter.texts] using ⟨hkey, ht⟩⟩ trivial ?_
      simpa [Filter.node, Filter.nodes, hleaves, leaves_words, colonWords, Padding.node, spaceNodes,
        Kind.node, Comparison.sign, Sign.kind, Kind.spelling?] using hlexes'
    have hk : (Text.words ⟨.word, "k"⟩ []).content = "k" := by decide
    have hquery := query_of_tag hparse k
    rw [hts.content_eq hleaves hne hw, hk, Json.member_of_isWordChar hw] at hquery
    exact hquery

end Queries

/-- A text of letters, digits, hyphens, underscores and colons is the key or the value of a tag as
it stands if and only if it is bare, as long as there is a number for its placeholder. Keywords are
no exception. -/
theorem query_unquoted_iff {w : String} (hne : w ≠ "")
    (hw : ∀ c ∈ w.toList, isWordChar c = true ∨ c = ':') (k : Int) (q : Query) :
    (query (w ++ "=*") k = .ok q ↔
      Bare w.toList ∧ Writable (k + 1) ∧ q = ⟨"tags ? $" ++ toString (k + 1), [.text w]⟩) ∧
    (query ("k=" ++ w) k = .ok q ↔ Bare w.toList ∧ Writable (k + 1) ∧
      q = ⟨"tags @> $" ++ toString (k + 1), [.text ("\x7b\"k\": \"" ++ w ++ "\"\x7d")]⟩) :=
  ⟨query_bare_key_iff hne hw k q, query_bare_value_iff hne hw k q⟩

/-- Keywords, an empty run and a run that begins with a digit make up a key, but no number after a
colon does. -/
theorem query_unquoted_iff_keywords :
    Bare "not:2nd::type".toList ∧ ¬Bare "not:2e3::type".toList ∧
      query "not:2nd::type=*" 0 = .ok ⟨"tags ? $1", [.text "not:2nd::type"]⟩ ∧
      query "k=not:2nd::type" 0 = .ok ⟨"tags @> $1", [.text "\x7b\"k\": \"not:2nd::type\"\x7d"]⟩ ∧
      ∀ q, query "not:2e3::type=*" 0 ≠ .ok q := by
  have hbare : Bare "not:2nd::type".toList := by decide
  have hnot : ¬Bare "not:2e3::type".toList := by decide
  have hchars : ∀ w : String, w.toList.all (fun c => isWordChar c || c == ':') = true →
      ∀ c ∈ w.toList, isWordChar c = true ∨ c = ':' := fun w h => by simpa using h
  have hkey := query_unquoted_iff (w := "not:2nd::type") (by decide) (hchars _ (by decide)) 0
  have hrefused := query_unquoted_iff (w := "not:2e3::type") (by decide) (hchars _ (by decide)) 0
  have hone : Writable (0 + 1) := by decide
  refine ⟨hbare, hnot, ((hkey _).1.2 ⟨hbare, hone, rfl⟩), ((hkey _).2.2 ⟨hbare, hone, rfl⟩),
    fun q hq => ?_⟩
  exact hnot ((hrefused q).1.1 hq).1

end MapFilter
