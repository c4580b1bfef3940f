import MapFilter.Proofs.Composition
import MapFilter.Proofs.JsonReading

/-!
# Quoted tags

Any text without line ends can be the key or the value of a tag, once it is quoted. `quote` puts a
backslash before every quote and every backslash of a text. Reading takes the backslashes away again
in two rounds, first those before quotes and then those before backslashes. That the rounds do not
meddle with each other rests on what `quote` writes: a quote there never comes right after the second
backslash of a pair.
-/

namespace MapFilter

namespace Quoted

/-! ## Pairs -/

section Pairs

variable {a b c : Char} {cs : List Char}

lemma replacePair_cons_cons (a b : Char) (cs : List Char) :
    replacePair a b (a :: b :: cs) = b :: replacePair a b cs := by
  simp [replacePair]

lemma replacePair_cons_of_ne (h : c ≠ a) :
    replacePair a b (c :: cs) = c :: replacePair a b cs := by
  cases cs with
  | nil => rfl
  | cons d cs => simp [replacePair, h]

lemma replacePair_cons_of_head? (h : cs.head? ≠ some b) :
    replacePair a b (c :: cs) = c :: replacePair a b cs := by
  cases cs with
  | nil => rfl
  | cons d cs =>
    have hd : d ≠ b := by simpa using h
    simp [replacePair, hd]

lemma replacePair_of_notMem (h : b ∉ cs) : replacePair a b cs = cs := by
  induction cs with
  | nil => rfl
  | cons c cs ih =>
    have hcs : b ∉ cs := fun hb => h (List.mem_cons_of_mem c hb)
    rw [replacePair_cons_of_head? (fun hb => hcs (List.mem_of_head? hb)), ih hcs]

end Pairs

/-! ## Escaping -/

def escape (c : Char) : List Char :=
  if c = '\\' ∨ c = '"' then ['\\', c] else [c]

/-- A text between quotes that stands for `s`. -/
def quote (s : String) : String := .ofList ('"' :: (s.toList.flatMap escape ++ ['"']))

/-- What is left of an escaped character when quotes have lost their backslashes. -/
def doubled (c : Char) : List Char := if c = '\\' then ['\\', '\\'] else [c]

lemma head?_flatMap_escape (cs : List Char) : (cs.flatMap escape).head? ≠ some '"' := by
  cases cs with
  | nil => simp
  | cons c cs =>
    by_cases hslash : c = '\\'
    · simp [escape, hslash]
    · by_cases hquote : c = '"' <;> simp [escape, hslash, hquote]

lemma replacePair_quote (cs : List Char) :
    replacePair '\\' '"' (cs.flatMap escape) = cs.flatMap doubled := by
  induction cs with
  | nil => rfl
  | cons c cs ih =>
    rw [List.flatMap_cons, List.flatMap_cons, ← ih]
    by_cases hslash : c = '\\'
    · subst hslash
      change replacePair '\\' '"' ('\\' :: '\\' :: cs.flatMap escape) = _
      rw [replacePair_cons_of_head? (by simp),
        replacePair_cons_of_head? (head?_flatMap_escape cs)]
      rfl
    · by_cases hquote : c = '"'
      · subst hquote
        exact replacePair_cons_cons '\\' '"' _
      · simp [escape, doubled, hslash, hquote, replacePair_cons_of_ne]

lemma replacePair_slash (cs : List Char) :
    replacePair '\\' '\\' (cs.flatMap doubled) = cs := by
  induction cs with
  | nil => rfl
  | cons c cs ih =>
    rw [List.flatMap_cons]
    by_cases hslash : c = '\\'
    · subst hslash
      change replacePair '\\' '\\' ('\\' :: '\\' :: cs.flatMap doubled) = _
      rw [replacePair_cons_cons, ih]
    · simp [doubled, hslash, replacePair_cons_of_ne, ih]

/-- The texts that can be quoted. -/
structure Quotable (s : String) : Prop where
  nonempty : s ≠ ""
  cr : '\r' ∉ s.toList
  lf : '\n' ∉ s.toList

variable {s t : String}

/-- A quoted text stands for the text. -/
theorem unescape?_quote (h : Quotable s) : unescape? (quote s) = some s := by
  have hunescaped : unescaped (s.toList.flatMap escape) = s.toList := by
    rw [unescaped, replacePair_quote, replacePair_slash, replacePair_of_notMem h.cr,
      replacePair_of_notMem h.lf]
  simp [unescape?, quote, hunescaped]

example : quote "say \"a\\b\"" = "\"say \\\"a\\\\b\\\"\"" := by decide

/-! ## Reading -/

open Regex

lemma matches_escape {c : Char} (hcr : c ≠ '\r') (hlf : c ≠ '\n') :
    Spelling.quotedChar.Matches (escape c) := by
  unfold escape
  split
  next h =>
    refine .right (.seq (u := ['\\']) (v := [c]) (.one (by decide)) (.one ?_))
    rcases h with rfl | rfl <;> decide
  next h =>
    rw [not_or] at h
    exact .left (.one (by simp [h, hcr, hlf]))

lemma matches_flatMap_escape {cs : List Char} (hcr : '\r' ∉ cs) (hlf : '\n' ∉ cs) :
    Matches (.many Spelling.quotedChar) (cs.flatMap escape) := by
  induction cs with
  | nil => exact .none
  | cons c cs ih =>
    rw [List.mem_cons, not_or] at hcr hlf
    exact .more (matches_escape (Ne.symm hcr.1) (Ne.symm hlf.1)) (ih hcr.2 hlf.2)

/-- A quoted text is spelt as one. -/
theorem matches_quote (h : Quotable s) : Spelling.quoted.Matches (quote s).toList := by
  obtain ⟨hne, hcr, hlf⟩ := h
  have hne' : s.toList ≠ [] := by simpa using hne
  obtain ⟨c, cs, hcs⟩ := List.exists_cons_of_ne_nil hne'
  rw [hcs, List.mem_cons, not_or] at hcr hlf
  rw [quote, String.toList_ofList, hcs, List.flatMap_cons]
  refine .seq (u := ['"']) (.one (by decide)) (.seq (.seq ?_ ?_) (.one (by decide)))
  · exact matches_escape (Ne.symm hcr.1) (Ne.symm hlf.1)
  · exact matches_flatMap_escape hcr.2 hlf.2

end Quoted

def Comparison.text : Comparison → String
  | .equal => "="
  | .notEqual => "!="

namespace Lexer

variable {cs : List Char} {ls : List Lexeme}

/-- A quoted text is read as one token, whatever comes after it. -/
theorem Lexes.quoted {q : String} (hq : Spelling.quoted.Matches q.toList) (h : Lexes cs ls) :
    Lexes (q.toList ++ cs) (⟨.quoted, q⟩ :: ls) := by
  obtain ⟨w, hw⟩ : ∃ w, q.toList = '"' :: w := by
    obtain ⟨u, v, heq, hopen, -⟩ := Regex.matches_seq_iff.1 hq
    exact ⟨v, by rw [heq, Regex.matches_char_iff.1 hopen, List.singleton_append]⟩
  have hrule : (Kind.quoted, Kind.quoted.regex) ∈ rules := List.mem_map.2 ⟨.quoted, by decide, rfl⟩
  obtain ⟨k, n, hk, hlen⟩ := longest_maximal hrule hq (by simp [hw]) cs
  obtain ⟨hn, r, hr, hm⟩ := longest_sound hk
  rw [mem_rules hr, List.take_append, List.take_of_length_le hlen] at hm
  obtain rfl : k = .quoted := by
    rw [hw, List.cons_append] at hm
    exact eq_quoted_of_quote hm
  -- a longer token would go on after a quote that ends one
  have hrest := congrArg List.length (Spelling.quoted_append hq hm)
  rw [List.length_take, List.length_nil] at hrest
  rw [List.length_append] at hn
  exact h.fixed q hk (by omega)

lemma Lexes.comparison (c : Comparison) (h : Lexes cs ls) :
    Lexes (c.text.toList ++ cs) (⟨c.sign.kind, c.text⟩ :: ls) := by
  cases c with
  | equal =>
    refine h.fixed "=" (n := 0) ?_ rfl
    cases cs <;> rfl
  | notEqual =>
    refine h.fixed "!=" (n := 1) ?_ rfl
    cases cs <;> rfl

end Lexer

/-! ## Queries -/

open Compiler Quoted

section Queries

variable {s t : String} (c : Comparison)

lemma Comparison.spelling?_sign : c.sign.kind.spelling? = some c.text := by cases c <;> rfl

lemma content_quote (h : Quotable s) : (Text.quoted (quote s)).content = s := by
  rw [Text.content, unescape?_quote h, Option.getD_some]

/-- A single filter is parsed where its tokens are read. -/
lemma parse_filter_of_lexes {text : String} {f : Filter} (hg : f.Grammatical) (ht : f.Tight)
    (h : Lexer.Lexes text.toList f.node.leaves) : parse text = .ok (.expr (.filter f)) := by
  refine parse_of_lexes ?_ ht trivial (by simpa [Expr.node] using h)
  intro f' hf'
  obtain rfl := List.mem_singleton.1 hf'
  exact hg

lemma parse_quoted (hs : Quotable s) (ht : Quotable t) :
    parse (quote s ++ c.text ++ quote t) =
      .ok (.expr (.filter (.tag c (.quoted (quote s)) ⟨none, none⟩ (.quoted (quote t))))) := by
  refine parse_filter_of_lexes ⟨trivial, by simp [Filter.texts, Text.Proper]⟩ trivial ?_
  have hvalue := Lexer.Lexes.nil.quoted (matches_quote ht)
  have hlexes := (hvalue.comparison c).quoted (matches_quote hs)
  simpa [Filter.node, Filter.nodes, Text.node, Padding.node, spaceNodes, Kind.node,
    c.spelling?_sign] using hlexes

lemma parse_quoted_any (hs : Quotable s) :
    parse (quote s ++ (c.text ++ "*")) =
      .ok (.expr (.filter (.tagAny c (.quoted (quote s)) ⟨none, none⟩))) := by
  refine parse_filter_of_lexes ⟨trivial, by simp [Filter.texts, Text.Proper]⟩ trivial ?_
  have hstar : Lexer.Lexes ['*'] [⟨.star, "*"⟩] := Lexer.Lexes.nil.fixed "*" (n := 0) rfl rfl
  have hlexes := (hstar.comparison c).quoted (matches_quote hs)
  have hsign : Kind.star.spelling? = some "*" := rfl
  simpa [Filter.node, Filter.nodes, Text.node, Padding.node, spaceNodes, Kind.node,
    c.spelling?_sign, hsign] using hlexes

/-- The query of a single tag. -/
lemma query_of_tag {text : String} {c : Comparison} {key value : Text} {op : Padding}
    (h : parse text = .ok (.expr (.filter (.tag c key op value)))) (k : Int) :
    query text k = if AllWritable k 1 then
        .ok ⟨negation c ++ "tags @> " ++ ("$" ++ toString (k + 1)),
          [.text (Json.member key.content value.content)]⟩
      else .error (.failure .longPlaceholder) := by
  rw [query_of_draft h (Expr.draft?_filter_eq_some.2 rfl)]
  simp

/-- The query of a single key with any value. -/
lemma query_of_tagAny {text : String} {c : Comparison} {key : Text} {op : Padding}
    (h : parse text = .ok (.expr (.filter (.tagAny c key op)))) (k : Int) :
    query text k = if AllWritable k 1 then
        .ok ⟨negation c ++ "tags ? " ++ ("$" ++ toString (k + 1)), [.text key.content]⟩
      else .error (.failure .longPlaceholder) := by
  rw [query_of_draft h (Expr.draft?_filter_eq_some.2 rfl)]
  simp

lemma query_quoted (hs : Quotable s) (ht : Quotable t) (k : Int) :
    query (quote s ++ c.text ++ quote t) k =
      if AllWritable k 1 then
        .ok ⟨negation c ++ "tags @> " ++ ("$" ++ toString (k + 1)), [.text (Json.member s t)]⟩
      else .error (.failure .longPlaceholder) := by
  rw [query_of_tag (parse_quoted c hs ht), content_quote hs, content_quote ht]

lemma query_quoted_any (hs : Quotable s) (k : Int) :
    query (quote s ++ (c.text ++ "*")) k =
      if AllWritable k 1 then
        .ok ⟨negation c ++ "tags ? " ++ ("$" ++ toString (k + 1)), [.text s]⟩
      else .error (.failure .longPlaceholder) := by
  rw [query_of_tagAny (parse_quoted_any c hs), content_quote hs]

end Queries

/-- Any two texts without line ends can be asked for as a key and its value, by quoting them, while
the number of the placeholder can be written. The argument stands for just these two texts, and a
key asked for alone is an argument as it is. -/
theorem query_tag_quoted {s t : String} (hs : Quotable s) (ht : Quotable t) {k : Int}
    (hk : (k + 1).natAbs < Nat.pow 10 Failure.digitLimit) :
    ∃ j : String,
      query (quote s ++ "=" ++ quote t) k = .ok ⟨"tags @> $" ++ toString (k + 1), [.text j]⟩ ∧
      query (quote s ++ "!=" ++ quote t) k = .ok ⟨"NOT tags @> $" ++ toString (k + 1), [.text j]⟩ ∧
      (∀ c ∈ j.toList, c.toNat < 128) ∧
      Json.object? j = some [(s, t)] ∧
      (∀ s' t' k' q, Quotable s' → Quotable t' → query (quote s' ++ "=" ++ quote t') k' = .ok q →
        q.args = [.text j] → s' = s ∧ t' = t) ∧
      query (quote s ++ "=*") k = .ok ⟨"tags ? $" ++ toString (k + 1), [.text s]⟩ := by
  have hwritable : AllWritable k 1 := allWritable_one.2 (writable_iff.2 hk)
  have hquery (c : Comparison) := (query_quoted c hs ht k).trans (if_pos hwritable)
  refine ⟨Json.member s t, hquery .equal, hquery .notEqual, Json.toNat_member_lt s t,
    Json.object?_member s t, ?_, (query_quoted_any .equal hs k).trans (if_pos hwritable)⟩
  intro s' t' k' q hs' ht' hq hargs
  have hmember : Json.member s' t' = Json.member s t := by
    have hq' := hq.symm.trans (query_quoted .equal hs' ht' k')
    split at hq'
    · cases hq'
      simpa using hargs
    · cases hq'
  have hread := Json.object?_member s' t'
  rw [hmember, Json.object?_member] at hread
  simpa [eq_comm] using hread

/-- A key of a quote, a backslash and a star, and a value beyond the 16-bit units. -/
theorem query_tag_quoted_hostile :
    Quotable "\"\\*" ∧ Quotable "𝄞 é" ∧ ∃ j : String,
      query "\"\\\"\\\\*\"=\"𝄞 é\"" 4 = .ok ⟨"tags @> $5", [.text j]⟩ ∧
      Json.object? j = some [("\"\\*", "𝄞 é")] := by
  have hkey : Quotable "\"\\*" := ⟨by decide, by decide, by decide⟩
  have hvalue : Quotable "𝄞 é" := ⟨by decide, by decide, by decide⟩
  obtain ⟨j, hj, -, -, hread, -⟩ := query_tag_quoted hkey hvalue (k := 4) (by decide +kernel)
  exact ⟨hkey, hvalue, j, hj, hread⟩

/-- After the greatest number that can be written, the same filter has no query. -/
theorem not_query_tag_quoted_greatest :
    Quotable "a" ∧ Quotable "b" ∧
      query "\"a\"=\"b\"" 0 = .ok ⟨"tags @> $1", [.text "\x7b\"a\": \"b\"\x7d"]⟩ ∧
      query "\"a\"=\"b\"" greatestNumber = .error (.failure .longPlaceholder) := by
  have ha : Quotable "a" := ⟨by decide, by decide, by decide⟩
  have hb : Quotable "b" := ⟨by decide, by decide, by decide⟩
  have hquery := query_quoted .equal ha hb
  exact ⟨ha, hb, (hquery 0).trans (if_pos (by decide +kernel)),
    (hquery greatestNumber).trans (if_neg (not_allWritable_greatestNumber Nat.one_pos))⟩

end MapFilter
