import MapFilter.Proofs.Canonical
import MapFilter.Proofs.Outcome

/-!
# Composed filters

Filters are put together by writing them in parentheses, with a word between them or in front. A
parenthesis ends every token before it, so that each filter is read as it is on its own. The tree of
the whole is then made of the trees of the parts, and so is its condition.
-/

namespace MapFilter

/-! ## Characters in tokens -/

section Characters

open Regex

/-- Whether a character can be part of a text that an expression stands for. -/
def Regex.mentions (c : Char) : Regex → Bool
  | .never | .nothing => false
  | .one p => p c
  | .seq r s | .alt r s => r.mentions c || s.mentions c
  | .many r => r.mentions c

lemma Regex.Matches.mentions {r : Regex} {w : List Char} {c : Char} (h : r.Matches w) (hc : c ∈ w) :
    r.mentions c = true := by
  induction h with
  | nothing | none => cases hc
  | one hp => rwa [List.mem_singleton.1 hc]
  | seq _ _ ihr ihs =>
    rw [Regex.mentions, Bool.or_eq_true]
    exact (List.mem_append.1 hc).imp ihr ihs
  | left _ ih => simp [Regex.mentions, ih hc]
  | right _ ih => simp [Regex.mentions, ih hc]
  | more _ _ ihu ihv =>
    rcases List.mem_append.1 hc with hc | hc
    · exact ihu hc
    · exact ihv hc

namespace Spelling

variable {u v b x y : List Char}

/-- A character between quotes is any but a quote, or a backslash with one after it. -/
lemma quotedChar_cases (h : quotedChar.Matches u) :
    (∃ c, c ≠ '"' ∧ c ≠ '\\' ∧ u = [c]) ∨ ∃ c, u = ['\\', c] := by
  rcases matches_alt_iff.1 h with h | h
  · obtain ⟨c, hc, rfl⟩ := matches_one_iff.1 h
    refine .inl ⟨c, ?_, ?_, rfl⟩ <;> (rintro rfl; simp at hc)
  · obtain ⟨_, _, rfl, hs, ht⟩ := matches_seq_iff.1 h
    obtain ⟨c, -, rfl⟩ := matches_one_iff.1 ht
    rw [matches_char_iff.1 hs]
    exact .inr ⟨c, rfl⟩

lemma quotedChar_ne_quote (h : quotedChar.Matches u) : u ++ x ≠ '"' :: y := by
  rcases quotedChar_cases h with ⟨c, hc, -, rfl⟩ | ⟨c, rfl⟩
  · simpa using fun hc' => absurd hc' hc
  · simp

lemma quotedChar_append_eq (hu : quotedChar.Matches u) (hv : quotedChar.Matches v)
    (h : u ++ x = v ++ y) : x = y := by
  rcases quotedChar_cases hu with ⟨c, -, hc, rfl⟩ | ⟨c, rfl⟩ <;>
    rcases quotedChar_cases hv with ⟨d, -, hd, rfl⟩ | ⟨d, rfl⟩
  · exact (List.cons.inj h).2
  · exact absurd (List.cons.inj h).1 hc
  · exact absurd (List.cons.inj h).1.symm hd
  · exact (List.cons.inj (List.cons.inj h).2).2

/-- Where a quoted text ends can be told from the characters before. -/
lemma quotedChars_append_eq (hu : Matches (.many quotedChar) u) (hv : Matches (.many quotedChar) v)
    (h : u ++ '"' :: x = v ++ '"' :: y) : x = y := by
  generalize hm : Regex.many quotedChar = m at hu
  induction hu generalizing v with
  | none =>
    cases v with
    | nil => exact (List.cons.inj h).2
    | cons c v =>
      obtain ⟨a, b, rfl, ha, -⟩ := matches_many_cons_iff.1 hv
      exact absurd (by simpa using h.symm) (quotedChar_ne_quote (x := b ++ '"' :: y) ha)
  | @more r a b ha _ _ ih =>
    cases hm
    rw [List.append_assoc] at h
    cases v with
    | nil => exact absurd h (quotedChar_ne_quote ha)
    | cons c v =>
      obtain ⟨a', b', rfl, ha', hb'⟩ := matches_many_cons_iff.1 hv
      have hrest : b ++ '"' :: x = b' ++ '"' :: y := quotedChar_append_eq ha ha' (by simpa using h)
      exact ih hb' hrest rfl
  | _ => cases hm

/-- No quoted text is the beginning of another one. -/
theorem quoted_append (hu : quoted.Matches u) (huv : quoted.Matches (u ++ v)) : v = [] := by
  have hbody : ∀ {w : List Char}, quoted.Matches w →
      ∃ b, Matches (.many quotedChar) b ∧ w = '"' :: (b ++ ['"']) := by
    intro w hw
    obtain ⟨_, _, rfl, hopen, hrest⟩ := matches_seq_iff.1 hw
    obtain ⟨b, _, rfl, hb, hclose⟩ := matches_seq_iff.1 hrest
    obtain ⟨_, _, rfl, hfirst, hmore⟩ := matches_seq_iff.1 hb
    rw [matches_char_iff.1 hopen, matches_char_iff.1 hclose]
    exact ⟨_, .more hfirst hmore, rfl⟩
  obtain ⟨b, hb, rfl⟩ := hbody hu
  obtain ⟨b', hb', h⟩ := hbody huv
  exact quotedChars_append_eq hb hb' (by simpa using h)

end Spelling

end Characters

/-! ## Reading before a parenthesis -/

def Joint.text : Joint → String
  | .conj => "and"
  | .disj => "or"

namespace Lexer

open Regex

variable {cs w : List Char} {ls : List Lexeme} {k : Kind} {r : Regex}

lemma eq_quoted_of_quote (hm : k.regex.Matches ('"' :: w)) : k = .quoted := by
  have hviable := (matches_deriv_iff.2 hm).viable
  revert hviable
  cases k <;> decide

section Parentheses

variable {c : Char} (hparen : c = '(' ∨ c = ')')

include hparen

/-- A parenthesis is a token of its own, unless it is quoted. -/
lemma eq_paren_of_mem (hm : k.regex.Matches w) (hc : c ∈ w) : w = [c] ∨ k = .quoted := by
  have hmentions := hm.mentions hc
  rcases hparen with rfl | rfl
  · have hk : k = .lparen ∨ k = .quoted := by
      revert hmentions
      cases k <;> decide
    rcases hk with rfl | rfl
    · exact .inl (matches_word_iff.1 hm)
    · exact .inr rfl
  · have hk : k = .rparen ∨ k = .quoted := by
      revert hmentions
      cases k <;> decide
    rcases hk with rfl | rfl
    · exact .inl (matches_word_iff.1 hm)
    · exact .inr rfl

/-- No token goes on over a parenthesis. -/
lemma not_matches_over_paren (hw : k.regex.Matches w) (hne : w ≠ []) {v : List Char} (hv : c ∈ v)
    (k' : Kind) : ¬k'.regex.Matches (w ++ v) := by
  intro hm
  obtain ⟨d, w, rfl⟩ := List.exists_cons_of_ne_nil hne
  rcases eq_paren_of_mem hparen hm (List.mem_append_right _ hv) with heq | rfl
  · have hnil : v = [] := by
      have := (List.cons.inj heq).2
      exact (List.append_eq_nil_iff.1 this).2
    simp [hnil] at hv
  · -- both are quoted, and the shorter one would end inside the longer one
    obtain rfl : d = '"' := by
      obtain ⟨_, _, heq, hopen, -⟩ := matches_seq_iff.1 hm
      rw [matches_char_iff.1 hopen] at heq
      exact (List.cons.inj heq).1
    obtain rfl := eq_quoted_of_quote hw
    simp [Spelling.quoted_append hw hm] at hv

/-- Whether there is a parenthesis or something else after some text does not matter for the token
in front. -/
lemma longest_before_paren {rest x : List Char} {n : Nat}
    (hk : longest rules (w ++ (rest ++ x)) = some (k, n)) (hn : w.length = n + 1) (y : List Char) :
    longest rules (w ++ (rest ++ c :: y)) = some (k, n) := by
  refine longest_extend hk hn ?_
  intro v hne hv k' r hr hm
  have hw : k.regex.Matches w := by
    obtain ⟨-, r', hr', hmatch⟩ := longest_sound hk
    rwa [mem_rules hr', ← hn, List.take_left] at hmatch
  by_cases hc : c ∈ v
  · have hne' : w ≠ [] := List.ne_nil_of_length_eq_add_one hn
    exact not_matches_over_paren hparen hw hne' hc k' (mem_rules hr ▸ hm)
  · -- without the parenthesis, a longer token would have been there from the start
    have hshort : v <+: rest := by
      rcases List.prefix_or_prefix_of_prefix hv (List.prefix_append rest _) with hshort | ⟨z, rfl⟩
      · exact hshort
      · cases z with
        | nil => simp
        | cons d z =>
          have hz := (List.prefix_append_right_inj rest).1 hv
          obtain ⟨rfl, -⟩ := List.cons_prefix_cons.1 hz
          simp at hc
    obtain ⟨z, rfl⟩ := hshort
    obtain ⟨k'', m, hlongest, hlen⟩ := longest_maximal hr hm (by simp [hne]) (z ++ x)
    rw [List.append_assoc, ← List.append_assoc v, hk] at hlongest
    cases hlongest
    have hpos : 0 < v.length := List.length_pos_iff.2 hne
    rw [List.length_append] at hlen
    omega

end Parentheses

/-- A text is read before a parenthesis as it is on its own. -/
theorem Lexes.append_rparen (h : Lexes cs ls) {y : List Char} {ls' : List Lexeme}
    (hy : Lexes (')' :: y) ls') : Lexes (cs ++ ')' :: y) (ls ++ ls') := by
  induction h with
  | nil => exact hy
  | @cons w rest k n ls hk hn hrest ih =>
    rw [List.append_assoc]
    exact .cons (longest_before_paren (x := []) (.inr rfl) (by rwa [List.append_nil]) hn y) hn ih

lemma Lexes.fixed (s : String) {n : Nat} (h : Lexes cs ls)
    (hk : longest rules (s.toList ++ cs) = some (k, n)) (hn : s.toList.length = n + 1) :
    Lexes (s.toList ++ cs) (⟨k, s⟩ :: ls) := by
  simpa using Lexes.cons hk hn h

lemma Lexes.lparen (h : Lexes cs ls) : Lexes ('(' :: cs) (⟨.lparen, "("⟩ :: ls) := by
  refine h.fixed "(" (n := 0) ?_ rfl
  cases cs <;> rfl

lemma Lexes.rparen (h : Lexes cs ls) : Lexes (')' :: cs) (⟨.rparen, ")"⟩ :: ls) := by
  refine h.fixed ")" (n := 0) ?_ rfl
  cases cs <;> rfl

/-- A text in parentheses. -/
lemma Lexes.enclosed (h : Lexes cs ls) {y : List Char} {ls' : List Lexeme} (hy : Lexes y ls') :
    Lexes ('(' :: (cs ++ ')' :: y)) (⟨.lparen, "("⟩ :: (ls ++ ⟨.rparen, ")"⟩ :: ls')) :=
  (h.append_rparen hy.rparen).lparen

lemma Lexes.neg (h : Lexes ('(' :: cs) ls) :
    Lexes ("not ".toList ++ '(' :: cs) (⟨.neg, "not"⟩ :: ⟨.space, " "⟩ :: ls) :=
  (h.fixed " " (n := 0) rfl rfl).fixed "not" (n := 2) rfl rfl

lemma Lexes.joint (j : Joint) (h : Lexes ('(' :: cs) ls) :
    Lexes ((" " ++ j.text ++ " ").toList ++ '(' :: cs)
      (⟨.space, " "⟩ :: ⟨j.sign.kind, j.text⟩ :: ⟨.space, " "⟩ :: ls) := by
  have hspace := h.fixed " " (n := 0) rfl rfl
  cases j with
  | conj => exact (hspace.fixed "and" (n := 2) rfl rfl).fixed " " (n := 0) rfl rfl
  | disj => exact (hspace.fixed "or" (n := 1) rfl rfl).fixed " " (n := 0) rfl rfl

end Lexer

/-! ## Trees of composed texts -/

open Compiler

namespace Expr

variable {e : Expr} (after : Option String)

/-- An expression in parentheses. White space at its front belongs to the parenthesis. -/
def enclosed (e : Expr) (after : Option String) : Expr :=
  .group ⟨none, e.lead⟩ e.unlead ⟨none, after⟩

lemma leaves_enclosed : (e.enclosed after).node.leaves =
    ⟨.lparen, "("⟩ :: (e.node.leaves ++ ⟨.rparen, ")"⟩ :: Node.leavesOf (spaceNodes after)) := by
  rw [leaves_unlead e]
  simp [enclosed, node, Padding.node, spaceNodes, Kind.node, Sign.kind, Kind.spelling?]

lemma Grammatical.enclosed (h : e.Grammatical) : (e.enclosed after).Grammatical := by
  intro f hf
  exact h f (by simpa [Expr.enclosed, filters] using hf)

lemma Tight.enclosed (h : e.Tight) : (e.enclosed after).Tight :=
  ⟨h.unlead, lead_unlead e, fun _ => rfl⟩

lemma Fits.enclosed (h : e.Fits .whole) (level : Level) : (e.enclosed after).Fits level := h.unlead

lemma draft?_unlead (e : Expr) : e.unlead.draft? = e.draft? := by
  induction e with
  | join j l op r ihl _ => simp [unlead, draft?, ihl]
  | _ => rfl

lemma draft?_enclosed {d : Draft} (h : e.draft? = some d) :
    (e.enclosed after).draft? = some (.text "(" :: d ++ [.text ")"]) :=
  draft?_group_eq_some.2 ⟨d, by rw [draft?_unlead, h], rfl⟩

end Expr

section Texts

variable {f g : String} {e e' : Expr}

lemma lexes_of_parse (h : parse f = .ok (.expr e)) : Lexer.Lexes f.toList e.node.leaves := by
  obtain ⟨hfault, hleaves⟩ := parse_leaves h
  obtain ⟨ls, hlexes, hls⟩ := exists_lexes_of_fault hfault
  rw [hls] at hleaves
  have heq : e.node.leaves = ls := by simpa [Tree.node, Node.ending] using hleaves
  exact heq ▸ hlexes

lemma parse_of_lexes (hg : e.Grammatical) (ht : e.Tight) (hf : e.Fits .whole)
    (h : Lexer.Lexes f.toList e.node.leaves) : parse f = .ok (.expr e) := by
  refine parse_of_leaves (t := .expr e) hg ht hf ?_
  rw [lexemes_of_lexes h]
  simp [Tree.node, Node.ending]

lemma parse_negated (h : parse f = .ok (.expr e)) :
    parse ("not (" ++ f ++ ")") = .ok (.expr (.neg ⟨none, some " "⟩ (e.enclosed none))) := by
  obtain ⟨htight, hfits⟩ := parse_tight_fits h
  have hg : e.Grammatical := parse_grammatical h
  refine parse_of_lexes (hg.enclosed none) ⟨Expr.Tight.enclosed none htight, rfl⟩
    (Expr.Fits.enclosed none hfits .operand) ?_
  have hlexes := ((lexes_of_parse h).enclosed .nil).neg
  simpa [Expr.node, Expr.leaves_enclosed, Padding.node, spaceNodes, Kind.node, Sign.kind,
    Kind.spelling?] using hlexes

lemma parse_joined (hf : parse f = .ok (.expr e)) (hg : parse g = .ok (.expr e')) (j : Joint) :
    parse ("(" ++ f ++ (") " ++ j.text ++ " (") ++ g ++ ")") =
      .ok (.expr (.join j (e.enclosed (some " ")) ⟨none, some " "⟩ (e'.enclosed none))) := by
  obtain ⟨htight, hfits⟩ := parse_tight_fits hf
  obtain ⟨htight', hfits'⟩ := parse_tight_fits hg
  have hge : e.Grammatical := parse_grammatical hf
  have hge' : e'.Grammatical := parse_grammatical hg
  refine parse_of_lexes (Expr.grammatical_join.2 ⟨hge.enclosed _, hge'.enclosed _⟩)
    ⟨Expr.Tight.enclosed _ htight, fun _ => rfl, Expr.Tight.enclosed _ htight', rfl⟩
    ⟨rfl, Expr.Fits.enclosed _ hfits _, Expr.Fits.enclosed _ hfits' _⟩ ?_
  have hlexes := (lexes_of_parse hf).enclosed (((lexes_of_parse hg).enclosed .nil).joint j)
  have hword : j.sign.kind.spelling? = some j.text := by cases j <;> rfl
  simpa [Expr.node, Expr.leaves_enclosed, Padding.node, spaceNodes, Kind.node, hword] using hlexes

end Texts

/-! ## Conditions of composed texts -/

/-- The query of a text whose expression has a draft. There is none if a number of the draft would
be too long. -/
lemma query_of_draft {f : String} {e : Expr} {d : Draft} (hf : parse f = .ok (.expr e))
    (hd : e.draft? = some d) (k : Int) :
    query f k = if AllWritable k d.args.length then .ok ⟨d.number k, d.args⟩
      else .error (.failure .longPlaceholder) := by
  have hg := (parse_wellFormed hf).genuine
  by_cases hwritable : AllWritable k d.args.length
  · rw [if_pos hwritable]
    refine (query_eq_ok_iff hf k).2 ⟨(State.fresh k).extend (some d), ?_, ?_⟩
    · rw [compile_eq hf, Expr.exec_of_draft hg hd _ (by rwa [State.last_fresh])]
      rfl
    · rw [State.extend, State.last_fresh]
      simp [State.query, State.fresh]
  · obtain ⟨s', hs'⟩ := Expr.exec_of_draft_long hg hd (.fresh k) (by rwa [State.last_fresh])
    rw [if_neg hwritable, query, if_neg (ne_star hf), compile_eq hf, hs']
    rfl

lemma exists_draft_of_query {f : String} {k : Int} {q : Query} (hf : f ≠ "*") (hq : query f k = .ok q)
    (hne : q.text ≠ "") :
    ∃ e d, parse f = .ok (.expr e) ∧ e.draft? = some d ∧ AllWritable k d.args.length ∧
      q = ⟨d.number k, d.args⟩ := by
  obtain ⟨e, he⟩ := exists_expr_of_query hq hf
  rcases query_eq_draft he k hq with ⟨-, rfl⟩ | ⟨d, hd, hq⟩
  · exact absurd rfl hne
  · exact ⟨e, d, he, hd, hq⟩

section Drafts

variable {f g : String} {e e' : Expr} {d d' : Draft} {k : Int}

lemma query_negated (he : parse f = .ok (.expr e)) (hd : e.draft? = some d)
    (hk : AllWritable k d.args.length) :
    query ("not (" ++ f ++ ")") k = .ok ⟨"NOT (" ++ d.number k ++ ")", d.args⟩ := by
  have hdraft := query_of_draft (parse_negated he)
    (Expr.draft?_neg_eq_some.2 ⟨_, Expr.draft?_enclosed none hd, rfl⟩) k
  rw [hdraft, if_pos (by simpa using hk), Except.ok.injEq, Query.mk.injEq]
  exact ⟨String.toList_injective (by simp [Draft.number_append]), by simp⟩

lemma query_joined (he : parse f = .ok (.expr e)) (he' : parse g = .ok (.expr e'))
    (hd : e.draft? = some d) (hd' : e'.draft? = some d') (hk : AllWritable k d.args.length)
    (hk' : AllWritable (k + d.args.length) d'.args.length) (j : Joint) :
    query ("(" ++ f ++ (") " ++ j.text ++ " (") ++ g ++ ")") k =
      .ok ⟨"(" ++ d.number k ++ (") " ++ word j ++ " (") ++ d'.number (k + d.args.length) ++ ")",
        d.args ++ d'.args⟩ := by
  have hdraft := query_of_draft (parse_joined he he' j) (Expr.draft?_join_eq_some.2
    ⟨_, _, Expr.draft?_enclosed (some " ") hd, Expr.draft?_enclosed none hd', rfl⟩) k
  have hboth := allWritable_add.2 ⟨hk, hk'⟩
  rw [hdraft, if_pos (by simpa using hboth), Except.ok.injEq, Query.mk.injEq]
  exact ⟨String.toList_injective (by simp [Draft.number_append]), by simp⟩

end Drafts

/-- The query of filters in parentheses is made of the queries of the filters. -/
theorem query_composed {f g : String} {k : Int} {qf qg : Query} (hf : f ≠ "*") (hg : g ≠ "*")
    (hqf : query f k = .ok qf) (hqg : query g (k + qf.args.length) = .ok qg)
    (hnef : qf.text ≠ "") (hneg : qg.text ≠ "") :
    query ("(" ++ f ++ ") and (" ++ g ++ ")") k =
        .ok ⟨"(" ++ qf.text ++ ") AND (" ++ qg.text ++ ")", qf.args ++ qg.args⟩ ∧
      query ("(" ++ f ++ ") or (" ++ g ++ ")") k =
        .ok ⟨"(" ++ qf.text ++ ") OR (" ++ qg.text ++ ")", qf.args ++ qg.args⟩ ∧
      query ("not (" ++ f ++ ")") k = .ok ⟨"NOT (" ++ qf.text ++ ")", qf.args⟩ := by
  obtain ⟨e, d, he, hd, hk, rfl⟩ := exists_draft_of_query hf hqf hnef
  obtain ⟨e', d', he', hd', hk', rfl⟩ := exists_draft_of_query hg hqg hneg
  refine ⟨?_, ?_, query_negated he hd hk⟩
  · have h := query_joined he he' hd hd' hk hk' .conj
    rwa [show ") " ++ Joint.conj.text ++ " (" = ") and (" by decide,
      show ") " ++ word .conj ++ " (" = ") AND (" by decide] at h
  · have h := query_joined he he' hd hd' hk hk' .disj
    rwa [show ") " ++ Joint.disj.text ++ " (" = ") or (" by decide,
      show ") " ++ word .disj ++ " (" = ") OR (" by decide] at h

theorem query_composed_shifted :
    query "type:way or id:7" 3 =
        .ok ⟨"osm_type = $4 OR osm_id = $5", [.text "way", .number (.whole 7)]⟩ ∧
      query "highway=*" 5 = .ok ⟨"tags ? $6", [.text "highway"]⟩ ∧
      query "(type:way or id:7) and (highway=*)" 3 =
        .ok ⟨"(osm_type = $4 OR osm_id = $5) AND (tags ? $6)",
          [.text "way", .number (.whole 7), .text "highway"]⟩ ∧
      query "(type:way or id:7) or (highway=*)" 3 =
        .ok ⟨"(osm_type = $4 OR osm_id = $5) OR (tags ? $6)",
          [.text "way", .number (.whole 7), .text "highway"]⟩ ∧
      query "not (type:way or id:7)" 3 =
        .ok ⟨"NOT (osm_type = $4 OR osm_id = $5)", [.text "way", .number (.whole 7)]⟩ := by
  have hf : query "type:way or id:7" 3 =
      .ok ⟨"osm_type = $4 OR osm_id = $5", [.text "way", .number (.whole 7)]⟩ := by decide +kernel
  have hg : query "highway=*" 5 = .ok ⟨"tags ? $6", [.text "highway"]⟩ := by decide +kernel
  have h := query_composed (by decide) (by decide) hf hg (by decide) (by decide)
  exact ⟨hf, hg, by simpa using h⟩

end MapFilter
