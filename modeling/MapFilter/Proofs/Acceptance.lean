import MapFilter.Proofs.Rearranging

/-!
# Which texts are filters

A text is a filter if it can be read to its end and its tokens can be derived from the grammar. For a
parsed text the tokens of its tree are a derivation. The other way round, a derivation is that of some
tree, and rearranging that tree gives one that the parser finds.
-/

namespace MapFilter

/-! ## Parsed trees are grammatical -/

namespace Parser

variable {α : Type} {ts rest : List Token}

lemma wordBelongs_isWord {w : Token} (h : Lookahead.wordBelongs (w :: ts) = .found true) :
    w.kind.isWord = true := by
  cases hk : w.kind <;> simp_all [Lookahead.wordBelongs, Kind.isWord]

lemma moreWords_proper {ws : List (Option Lexeme)} (h : moreWords ts = .ok (ws, rest)) :
    ∀ w, some w ∈ ws → w.kind.isWord = true := by
  induction ts using moreWords.induct generalizing ws with
  | case1 => cases h
  | case2 t ht w ts hbelongs ih =>
    simp only [moreWords, ht, hbelongs, if_true] at h
    obtain ⟨⟨ws', rest'⟩, hmore, hpure⟩ := bind_words_eq_ok h
    cases hpure
    intro v hv
    rcases List.mem_cons.1 hv with hv | hv
    · cases hv
      exact wordBelongs_isWord hbelongs
    · exact ih hmore v hv
  | case3 t ht ts hbelongs ih =>
    simp only [moreWords, ht, hbelongs, if_true] at h
    obtain ⟨⟨ws', rest'⟩, hmore, hpure⟩ := bind_words_eq_ok h
    cases hpure
    intro v hv
    rcases List.mem_cons.1 hv with hv | hv
    · cases hv
    · exact ih hmore v hv
  | case4 t ts ht hfalse htrue =>
    simp only [moreWords, ht, if_true] at h
    cases h
  | case5 t ts ht =>
    have hstop : moreWords (t :: ts) = .ok ([], t :: ts) := by
      rw [moreWords.eq_def]
      simp [ht]
    rw [hstop] at h
    cases h
    simp

lemma text_proper {x : Text} (h : text ts = .ok (x, rest)) : x.Proper := by
  obtain ⟨_, mid, hrequire, h₁⟩ := bind_eq_ok.1 h
  obtain ⟨rfl, t, us, rfl, ht⟩ := require_eq_ok hrequire
  obtain ⟨u, mid', hadvance, hcase⟩ := bind_eq_ok.1 h₁
  obtain ⟨rfl, rfl⟩ := List.cons.inj (advance_eq_ok hadvance)
  by_cases hword : t.kind.isWord = true
  · cases hk : t.kind <;> simp only [hk, Kind.isWord, Bool.false_eq_true] at hcase hword
    all_goals
      obtain ⟨ws, mid, hmore, hpure⟩ := bind_eq_ok.1 hcase
      obtain ⟨rfl, rfl⟩ := pure_eq_ok.1 hpure
      exact ⟨by simp [hk, Kind.isWord], moreWords_proper hmore⟩
  · have hquoted : t.kind = .quoted ∨ t.kind = .number := by
      simpa [Kind.startsText, hword] using ht
    rcases hquoted with hk | hk <;> simp only [hk] at hcase <;>
      obtain ⟨rfl, rfl⟩ := pure_eq_ok.1 hcase <;> exact trivial

lemma moreItems_forall {start : KindSet} {item : Parser α} {Q : α → Prop}
    (hitem : ∀ {ts a rest}, item ts = .ok (a, rest) → Q a) {inner : Bool} {n : Nat}
    {more : List (Padding × α)} (h : moreItems start item inner n ts = .ok (more, rest)) :
    ∀ x ∈ more, Q x.2 := by
  induction n generalizing inner ts more with
  | zero => cases h
  | succ n ih =>
    rw [moreItems] at h
    obtain ⟨t, mid, -, h₁⟩ := bind_eq_ok.1 h
    split at h₁
    · obtain ⟨_, _, hcomplain, -⟩ := bind_eq_ok.1 h₁
      exact absurd hcomplain complain_ne_ok
    · obtain ⟨_, mid, -, h₂⟩ := bind_eq_ok.1 h₁
      obtain ⟨b, mid, -, h₃⟩ := bind_eq_ok.1 h₂
      split at h₃
      · obtain ⟨comma, mid₁, -, h₄⟩ := bind_eq_ok.1 h₃
        obtain ⟨a, mid₂, ha, h₅⟩ := bind_eq_ok.1 h₄
        obtain ⟨more', mid₃, hmore, hpure⟩ := bind_eq_ok.1 h₅
        obtain ⟨rfl, rfl⟩ := pure_eq_ok.1 hpure
        exact List.forall_mem_cons.2 ⟨hitem ha, ih hmore⟩
      · obtain ⟨rfl, rfl⟩ := pure_eq_ok.1 h₃
        simp

lemma listed_forall {start next : KindSet} {item : Parser α} {Q : α → Prop}
    (hitem : ∀ {ts a rest}, item ts = .ok (a, rest) → Q a) {l : Listed α}
    (h : listed start item next ts = .ok (l, rest)) : ∀ a ∈ l.items, Q a := by
  obtain ⟨left, mid₁, -, h₁⟩ := bind_eq_ok.1 h
  obtain ⟨first, mid₂, hfirst, h₂⟩ := bind_eq_ok.1 h₁
  obtain ⟨s, mid₃, -, h₃⟩ := bind_eq_ok.1 h₂
  obtain ⟨more, mid₄, hmore, h₄⟩ := bind_eq_ok.1 h₃
  obtain ⟨right, mid₅, -, hpure⟩ := bind_eq_ok.1 h₄
  obtain ⟨rfl, rfl⟩ := pure_eq_ok.1 hpure
  refine List.forall_mem_cons.2 ⟨hitem hfirst, ?_⟩
  intro a ha
  obtain ⟨x, hx, rfl⟩ := List.mem_map.1 ha
  exact moreItems_forall hitem hmore x hx

lemma filter_grammatical {next : KindSet} {form : Form} {f : Filter}
    (h : filter next form ts = .ok (f, rest)) : f.Grammatical := by
  refine ⟨(filter_consumed h).2, ?_⟩
  cases form with
  | tag c =>
    obtain ⟨key, mid₁, hkey, h₁⟩ := bind_eq_ok.1 h
    obtain ⟨op, mid₂, -, h₂⟩ := bind_eq_ok.1 h₁
    obtain ⟨value, mid₃, hvalue, hpure⟩ := bind_eq_ok.1 h₂
    obtain ⟨rfl, rfl⟩ := pure_eq_ok.1 hpure
    simp [Filter.texts, text_proper hkey, text_proper hvalue]
  | tagAny c =>
    obtain ⟨key, mid₁, hkey, h₁⟩ := bind_eq_ok.1 h
    obtain ⟨op, mid₂, -, h₂⟩ := bind_eq_ok.1 h₁
    obtain ⟨star, mid₃, -, hpure⟩ := bind_eq_ok.1 h₂
    obtain ⟨rfl, rfl⟩ := pure_eq_ok.1 hpure
    simp [Filter.texts, text_proper hkey]
  | tagIn =>
    obtain ⟨key, mid₁, hkey, h₁⟩ := bind_eq_ok.1 h
    obtain ⟨op, mid₂, -, h₂⟩ := bind_eq_ok.1 h₁
    obtain ⟨values, mid₃, hvalues, hpure⟩ := bind_eq_ok.1 h₂
    obtain ⟨rfl, rfl⟩ := pure_eq_ok.1 hpure
    exact List.forall_mem_cons.2 ⟨text_proper hkey, listed_forall text_proper hvalues⟩
  | tagLike =>
    obtain ⟨key, mid₁, hkey, h₁⟩ := bind_eq_ok.1 h
    obtain ⟨op, mid₂, -, h₂⟩ := bind_eq_ok.1 h₁
    obtain ⟨p, mid₃, hpattern, hpure⟩ := bind_eq_ok.1 h₂
    obtain ⟨rfl, rfl⟩ := pure_eq_ok.1 hpure
    obtain ⟨_, mid, -, h₃⟩ := bind_eq_ok.1 hpattern
    obtain ⟨leading, mid₄, -, h₄⟩ := bind_eq_ok.1 h₃
    obtain ⟨x, mid₅, htext, h₅⟩ := bind_eq_ok.1 h₄
    obtain ⟨trailing, mid₆, -, hpure⟩ := bind_eq_ok.1 h₅
    obtain ⟨rfl, rfl⟩ := pure_eq_ok.1 hpure
    simp [Filter.texts, text_proper hkey, text_proper htext]
  | _ =>
    -- a filter with a keyword has no texts
    obtain ⟨op, mid₁, -, h₁⟩ := bind_eq_ok.1 h
    obtain ⟨x, mid₂, -, hpure⟩ := bind_eq_ok.1 h₁
    obtain ⟨rfl, rfl⟩ := pure_eq_ok.1 hpure
    simp [Filter.texts]

section Expressions

variable {sub : Level → KindSet → Parser Expr} {next : KindSet} {e e₀ : Expr} {level : Level} {n : Nat}

lemma operand_grammatical
    (hsub : ∀ {level next ts e rest}, sub level next ts = .ok (e, rest) → e.Grammatical)
    (h : operand sub next ts = .ok (e, rest)) : e.Grammatical := by
  obtain ⟨_, mid, -, h₁⟩ := bind_eq_ok.1 h
  obtain ⟨opening, mid, -, hcase⟩ := bind_eq_ok.1 h₁
  cases opening with
  | group =>
    obtain ⟨left, mid₁, -, h₂⟩ := bind_eq_ok.1 hcase
    obtain ⟨e', mid₂, he, h₃⟩ := bind_eq_ok.1 h₂
    obtain ⟨right, mid₃, -, hpure⟩ := bind_eq_ok.1 h₃
    obtain ⟨rfl, rfl⟩ := pure_eq_ok.1 hpure
    have hg : e'.Grammatical := hsub he
    exact hg
  | neg =>
    obtain ⟨op, mid₁, -, h₂⟩ := bind_eq_ok.1 hcase
    obtain ⟨e', mid₂, he, hpure⟩ := bind_eq_ok.1 h₂
    obtain ⟨rfl, rfl⟩ := pure_eq_ok.1 hpure
    have hg : e'.Grammatical := hsub he
    exact hg
  | filter form =>
    obtain ⟨f, hf, rfl⟩ := map_eq_ok.1 hcase
    simpa [Expr.Grammatical, Expr.filters] using filter_grammatical hf

lemma continuation_grammatical
    (hsub : ∀ {level next ts e rest}, sub level next ts = .ok (e, rest) → e.Grammatical)
    (he₀ : e₀.Grammatical) (h : continuation sub level next n e₀ ts = .ok (e, rest)) :
    e.Grammatical := by
  induction n generalizing e₀ ts with
  | zero => cases h
  | succ n ih =>
    rw [continuation] at h
    obtain ⟨o, mid, -, hcase⟩ := bind_eq_ok.1 h
    cases o with
    | none =>
      obtain ⟨rfl, rfl⟩ := pure_eq_ok.1 hcase
      exact he₀
    | some j =>
      simp only at hcase
      split at hcase
      · obtain ⟨op, mid₁, -, h₁⟩ := bind_eq_ok.1 hcase
        obtain ⟨r, mid₂, hr, hrest⟩ := bind_eq_ok.1 h₁
        exact ih (Expr.grammatical_join.2 ⟨he₀, hsub hr⟩) hrest
      · obtain ⟨rfl, rfl⟩ := pure_eq_ok.1 hcase
        exact he₀

lemma expr_grammatical (h : expr n level next ts = .ok (e, rest)) : e.Grammatical := by
  induction n generalizing level next ts e rest with
  | zero => cases h
  | succ n ih =>
    rw [expr] at h
    obtain ⟨e₀, mid, hoperand, hcontinue⟩ := bind_eq_ok.1 h
    exact continuation_grammatical ih (operand_grammatical ih hoperand) hcontinue

end Expressions

lemma tree_grammatical {t : Tree} (h : tree ts = .ok (t, rest)) : t.Grammatical := by
  obtain ⟨_, mid, -, h₁⟩ := bind_eq_ok.1 h
  obtain ⟨u, mid₁, -, hcase⟩ := bind_eq_ok.1 h₁
  simp only at hcase
  split at hcase
  · obtain ⟨v, mid₂, -, h₂⟩ := bind_eq_ok.1 hcase
    obtain ⟨t', mid₃, hpure, h₃⟩ := bind_eq_ok.1 h₂
    obtain ⟨rfl, -⟩ := pure_eq_ok.1 hpure
    obtain ⟨_, mid₄, -, hdone⟩ := bind_eq_ok.1 h₃
    obtain ⟨rfl, rfl⟩ := pure_eq_ok.1 hdone
    trivial
  · obtain ⟨_, mid₂, -, h₂⟩ := bind_eq_ok.1 hcase
    obtain ⟨t', mid₃, hmap, h₃⟩ := bind_eq_ok.1 h₂
    obtain ⟨e, hexpr, rfl⟩ := map_eq_ok.1 hmap
    obtain ⟨_, mid₄, -, hdone⟩ := bind_eq_ok.1 h₃
    obtain ⟨rfl, rfl⟩ := pure_eq_ok.1 hdone
    exact expr_grammatical hexpr

end Parser

/-! ## The tokens of a text -/

/-- The tokens of a text without their places. The last one is the end of the text. -/
def lexemes (s : String) : List Lexeme := (scan s).tokens.map (·.toLexeme)

/-- A text that can be read to its end. -/
lemma lexemes_of_lexes {s : String} {ls : List Lexeme} (h : Lexer.Lexes s.toList ls) :
    lexemes s = ls ++ [⟨.eof, "<EOF>"⟩] := by
  obtain ⟨us, q, hscan, hus⟩ := Lexer.scanFrom_of_lexes h .start
  rw [lexemes, scan, hscan]
  simp [hus, Token.ending]

lemma exists_lexes_of_fault {s : String} (h : (scan s).fault = none) :
    ∃ ls, Lexer.Lexes s.toList ls ∧ lexemes s = ls ++ [⟨.eof, "<EOF>"⟩] := by
  obtain ⟨ls, hls⟩ := Lexer.exists_lexes h
  rw [List.drop_zero] at hls
  exact ⟨ls, hls, lexemes_of_lexes hls⟩

lemma parse_of_tree {s : String} {t : Tree} {rest : List Token}
    (h : Parser.tree (scan s).tokens = .ok (t, rest)) : parse s = .ok t := by
  simp [parse, Parser.parsePart, StateT.run, h]

/-- The tokens of a parsed tree are those of the text. -/
theorem parse_leaves {s : String} {t : Tree} (h : parse s = .ok t) :
    (scan s).fault = none ∧ t.node.leaves = lexemes s := by
  obtain ⟨rest, htree⟩ := parse_eq_ok h
  obtain ⟨⟨u, us, rfl, hu⟩, hcases⟩ := Parser.tree_eq_ok htree
  have hconsumed : ∃ ls, Consumed (scan s).tokens ls (u :: us) ∧
      t.node.leaves = ls ++ [⟨.eof, "<EOF>"⟩] := by
    rcases hcases with ⟨rfl, star, hts, hstar⟩ | ⟨e, rfl, hreads⟩
    · exact ⟨_, hts ▸ Consumed.fixed hstar rfl (u :: us), by simp [Tree.node, Node.ending]⟩
    · exact ⟨_, hreads.consumed, by simp [Tree.node, Node.ending]⟩
  obtain ⟨ls, hls, hleaves⟩ := hconsumed
  obtain ⟨used, hts, hused⟩ := hls
  have hfault : (scan s).fault = none :=
    Lexer.fault_of_eof (t := u) (by rw [← scan, hts]; simp) hu
  refine ⟨hfault, ?_⟩
  obtain ⟨ls', hlexes, hlexemes⟩ := exists_lexes_of_fault hfault
  -- the end of the text comes last, and every token before it is spelt as its kind says
  have hsplit : used.map (·.toLexeme) ++ u.toLexeme :: us.map (·.toLexeme) =
      ls' ++ [⟨.eof, "<EOF>"⟩] := by
    rw [← hlexemes, lexemes, hts]
    simp
  have hus : us = [] := by
    rcases scan_spelled hts with hspelled | ⟨-, hus⟩
    · exact absurd hu hspelled.kind_ne_eof
    · exact hus
  subst hus
  obtain ⟨hfront, hlast⟩ := List.append_inj' hsplit rfl
  have hspelled : ∀ v ∈ used, v.toLexeme.Spelled := by
    intro v hv
    refine hlexes.spelled _ ?_
    rw [← hfront]
    exact List.mem_map_of_mem hv
  rw [hleaves, ← hused hspelled, hlexemes, hfront]

theorem parse_grammatical {s : String} {t : Tree} (h : parse s = .ok t) : t.Grammatical := by
  obtain ⟨rest, htree⟩ := parse_eq_ok h
  exact Parser.tree_grammatical htree

/-- The parser gives every tree of the text's tokens that it could find. -/
theorem parse_of_leaves {s : String} {t : Tree} (hg : t.Grammatical) (htight : t.Tight)
    (hfits : t.Fits) (h : t.node.leaves = lexemes s) : parse s = .ok t := by
  have hspans : Spans (scan s).tokens t.node.leaves [] := ⟨(scan s).tokens, by simp, h.symm⟩
  obtain ⟨u, htree⟩ := Parser.tree_of_spans hg htight hfits hspans
  exact parse_of_tree htree

/-! ## Spelling -/

lemma Lexeme.Spelled.respell {l : Lexeme} (h : l.Spelled) : l.respell = l := by
  obtain ⟨k, t⟩ := l
  cases hs : k.spelling? with
  | none =>
    have hk : k ≠ .eof := h.kind_ne_eof
    have hfixed : k.fixed? = none := by
      cases k <;> first | exact hs | exact absurd rfl hk
    exact Lexeme.respell_of_free hfixed
  | some u =>
    obtain rfl := h.eq_spelling hs
    have hfixed : k.fixed? = some t := by
      cases k <;> first | exact hs | cases hs
    exact Lexeme.respell_of_fixed hfixed

/-- The tokens of a text are spelt as trees spell them. -/
lemma respell_of_mem_lexemes {s : String} (h : (scan s).fault = none) :
    ∀ l ∈ lexemes s, l.respell = l := by
  obtain ⟨ls, hlexes, hls⟩ := exists_lexes_of_fault h
  intro l hl
  rw [hls, List.mem_append, List.mem_singleton] at hl
  rcases hl with hl | rfl
  · exact (hlexes.spelled l hl).respell
  · rfl

lemma Node.IsDerivation.respell_eq {n : Node} (h : n.IsDerivation)
    (hleaves : ∀ l ∈ n.leaves, l.respell = l) : n.respell = n := by
  induction h with
  | leaf l => simpa using hleaves l (by simp)
  | @branch r ns _ _ ih =>
    have hmem : ∀ n ∈ ns, ∀ l ∈ n.leaves, l ∈ leavesOf ns := by
      intro n hn l hl
      obtain ⟨us, vs, rfl⟩ := List.append_of_mem hn
      simp [hl]
    have hmap : ns.map Node.respell = ns.map id :=
      List.map_congr_left fun n hn => ih n hn fun l hl => hleaves l (by simpa using hmem n hn l hl)
    rw [respell_branch, hmap, List.map_id]

/-- A derivation of a text's tokens is that of a tree. -/
theorem exists_tree_of_lexemes {s : String} {n : Node} (h : n.IsDerivation)
    (hroot : n.symbol = .rule .root) (hfault : (scan s).fault = none)
    (hleaves : n.leaves = lexemes s) : ∃ t : Tree, t.Grammatical ∧ t.node = n := by
  obtain ⟨t, hg, ht⟩ := h.exists_tree hroot
  rw [h.respell_eq (hleaves ▸ respell_of_mem_lexemes hfault)] at ht
  exact ⟨t, hg, ht⟩

/-! ## Acceptance -/

lemma lexemes_spaced {s : String} (h : (scan s).fault = none) : Spaced (lexemes s) := by
  obtain ⟨ls, hlexes, hls⟩ := exists_lexes_of_fault h
  rw [hls]
  refine List.isChain_append.2 ⟨hlexes.spaced, List.IsChain.singleton _, ?_⟩
  rintro a - b hb ⟨-, hspace⟩
  obtain rfl : ⟨.eof, "<EOF>"⟩ = b := by simpa using hb
  cases hspace

/-- The tokens of every tree are those of a tree that the parser finds. -/
theorem Tree.exists_canonical {t : Tree} (hg : t.Grammatical) (h : Spaced t.node.leaves) :
    ∃ t' : Tree, t'.Grammatical ∧ t'.Tight ∧ t'.Fits ∧ t'.node.leaves = t.node.leaves := by
  cases t with
  | everything => exact ⟨.everything, trivial, trivial, trivial, rfl⟩
  | expr e =>
    have hleaves : ∀ e : Expr, (Tree.expr e).node.leaves = e.node.leaves ++ [⟨.eof, "<EOF>"⟩] := by
      intro e
      simp [Tree.node, Node.ending]
    obtain ⟨e₁, hfits₁, hfilters, he₁⟩ := Expr.exists_fits e
    have hg₁ : e₁.Grammatical := by
      intro f hf
      exact hg f (hfilters ▸ hf)
    rw [hleaves, ← he₁] at h
    obtain ⟨e₂, hg₂, hfits₂, htight, he₂⟩ := Expr.exists_tight hg₁ hfits₁ h.left
    exact ⟨.expr e₂, hg₂, htight, hfits₂, by rw [hleaves, hleaves, he₂, he₁]⟩

/-- A text is a filter if and only if it can be read to its end and the kinds of its tokens, with the
end of the text as the last one, can be derived from the grammar. -/
theorem accepted_iff_derives (s : String) :
    (∃ t, parse s = .ok t) ↔
      (scan s).fault = none ∧ Derives [.rule .root] ((scan s).tokens.map (·.kind)) := by
  have hkinds : (lexemes s).map (·.kind) = (scan s).tokens.map (·.kind) := by
    simp [lexemes]
  constructor
  · rintro ⟨t, ht⟩
    obtain ⟨hfault, hleaves⟩ := parse_leaves ht
    have hderives := (Tree.isDerivation_node (parse_grammatical ht)).derives
    rw [hleaves, hkinds, Tree.symbol_node] at hderives
    exact ⟨hfault, hderives⟩
  · rintro ⟨hfault, hderives⟩
    obtain ⟨ns, hns, hd, hleaves⟩ := hderives.exists_nodes hkinds
    obtain ⟨n, rfl, hroot⟩ := List.map_eq_singleton_iff.1 hns
    rw [Node.leavesOf_cons, Node.leavesOf_nil, List.append_nil] at hleaves
    obtain ⟨t, hg, rfl⟩ := exists_tree_of_lexemes (hd n (by simp)) hroot hfault hleaves
    obtain ⟨t', hg', htight, hfits, hleaves'⟩ :=
      Tree.exists_canonical hg (hleaves ▸ lexemes_spaced hfault)
    exact ⟨t', parse_of_leaves hg' htight hfits (hleaves'.trans hleaves)⟩

end MapFilter
