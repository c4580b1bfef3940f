import MapFilter.Proofs.Quoting

/-!
# Escape sequences

Between quotes stand characters that mean themselves and escape sequences: a backslash and a letter
that mean one character together. `decoded` reads them in one pass from left to right. The rounds of
replacements give the same text but for line ends, whose escape sequences they leave as they are.
For this reason one text can come from two tokens.
-/

namespace MapFilter

namespace Quoted

/-! ## Reading in one pass -/

/-- The text that escape sequences and other characters stand for, from left to right. -/
def decoded : List Char → List Char
  | '\\' :: '"' :: cs => '"' :: decoded cs
  | '\\' :: '\\' :: cs => '\\' :: decoded cs
  | '\\' :: 'n' :: cs => '\n' :: decoded cs
  | '\\' :: 'r' :: cs => '\r' :: decoded cs
  | c :: cs => c :: decoded cs
  | [] => []

lemma decoded_cons_of_ne {c : Char} (h : c ≠ '\\') (cs : List Char) :
    decoded (c :: cs) = c :: decoded cs := by
  rw [decoded] <;> simp [h]

/-- What stands between the quotes of a token. -/
def inner (q : String) : List Char := q.toList.tail.dropLast

/-- A text that is read as one quoted token. -/
def IsToken (q : String) : Prop := lexemes q = [⟨.quoted, q⟩, ⟨.eof, "<EOF>"⟩]

instance (q : String) : Decidable (IsToken q) := inferInstanceAs (Decidable (_ = _))

/-! ## What can stand between quotes -/

inductive Escape where
  | quote | backslash | lineFeed | carriageReturn
deriving DecidableEq, Repr

namespace Escape

/-- The character after the backslash. -/
def letter : Escape → Char
  | .quote => '"'
  | .backslash => '\\'
  | .lineFeed => 'n'
  | .carriageReturn => 'r'

def meaning : Escape → Char
  | .quote => '"'
  | .backslash => '\\'
  | .lineFeed => '\n'
  | .carriageReturn => '\r'

/-- What the rounds of replacements make of an escape sequence. -/
def residue : Escape → List Char
  | .quote => ['"']
  | .backslash => ['\\']
  | .lineFeed => ['\\', 'n']
  | .carriageReturn => ['\\', 'r']

end Escape

/-- A character that means itself, or an escape sequence. -/
inductive Item where
  | plain (c : Char) (h : c ≠ '"' ∧ c ≠ '\\' ∧ c ≠ '\r' ∧ c ≠ '\n')
  | sequence (e : Escape)

namespace Item

def spelling : Item → List Char
  | .plain c _ => [c]
  | .sequence e => ['\\', e.letter]

def meaning : Item → Char
  | .plain c _ => c
  | .sequence e => e.meaning

def residue : Item → List Char
  | .plain c _ => [c]
  | .sequence e => e.residue

end Item

section Tokens

open Regex

variable {w : List Char} {q : String}

lemma matches_quotedChar_iff : Spelling.quotedChar.Matches w ↔ ∃ i : Item, w = i.spelling := by
  rw [Spelling.quotedChar, matches_alt_iff, matches_seq_iff]
  constructor
  · rintro (h | ⟨u, v, rfl, hu, hv⟩)
    · obtain ⟨c, hc, rfl⟩ := matches_one_iff.1 h
      exact ⟨.plain c (by simpa using hc), rfl⟩
    · obtain ⟨c, hc, rfl⟩ := matches_one_iff.1 hv
      have hletter : c = '"' ∨ c = 'r' ∨ c = 'n' ∨ c = '\\' := by simpa using hc
      rw [matches_char_iff.1 hu]
      rcases hletter with rfl | rfl | rfl | rfl
      · exact ⟨.sequence .quote, rfl⟩
      · exact ⟨.sequence .carriageReturn, rfl⟩
      · exact ⟨.sequence .lineFeed, rfl⟩
      · exact ⟨.sequence .backslash, rfl⟩
  · rintro ⟨i, rfl⟩
    cases i with
    | plain c h => exact .inl (.one (by simpa using h))
    | sequence e =>
      refine .inr ⟨['\\'], [e.letter], rfl, .one (by decide), .one ?_⟩
      cases e <;> decide

lemma matches_quotedChars_iff :
    Matches (.many Spelling.quotedChar) w ↔ ∃ is : List Item, w = is.flatMap Item.spelling := by
  constructor
  · intro h
    generalize hm : Regex.many Spelling.quotedChar = m at h
    induction h with
    | none => exact ⟨[], rfl⟩
    | more hu _ _ ih =>
      cases hm
      obtain ⟨i, rfl⟩ := matches_quotedChar_iff.1 hu
      obtain ⟨is, rfl⟩ := ih rfl
      exact ⟨i :: is, rfl⟩
    | _ => cases hm
  · rintro ⟨is, rfl⟩
    induction is with
    | nil => exact .none
    | cons i is ih => exact .more (matches_quotedChar_iff.2 ⟨i, rfl⟩) ih

/-- A quoted token has at least one item between its quotes. -/
lemma matches_quoted_iff : Spelling.quoted.Matches w ↔
    ∃ is : List Item, is ≠ [] ∧ w = '"' :: (is.flatMap Item.spelling ++ ['"']) := by
  constructor
  · intro h
    obtain ⟨_, _, rfl, hopen, hrest⟩ := matches_seq_iff.1 h
    obtain ⟨_, _, rfl, hbody, hclose⟩ := matches_seq_iff.1 hrest
    obtain ⟨_, _, rfl, hfirst, hmore⟩ := matches_seq_iff.1 hbody
    obtain ⟨i, rfl⟩ := matches_quotedChar_iff.1 hfirst
    obtain ⟨is, rfl⟩ := matches_quotedChars_iff.1 hmore
    rw [matches_char_iff.1 hopen, matches_char_iff.1 hclose]
    exact ⟨i :: is, by simp, rfl⟩
  · rintro ⟨is, hne, rfl⟩
    obtain ⟨i, is, rfl⟩ := List.exists_cons_of_ne_nil hne
    refine .seq (u := ['"']) (.one (by decide)) (.seq ?_ (.one (by decide)))
    exact .seq (matches_quotedChar_iff.2 ⟨i, rfl⟩) (matches_quotedChars_iff.2 ⟨is, rfl⟩)

/-- The lexer reads as one quoted token just what is spelt as one. -/
theorem isToken_iff : IsToken q ↔ Spelling.quoted.Matches q.toList := by
  constructor
  · intro h
    obtain ⟨t, ts, hscan, ht, -⟩ := List.map_eq_cons_iff.1 h
    have hfirst : (scan q).tokens = [] ++ t :: ts := hscan
    rcases scan_spelled hfirst with hspelled | ⟨heof, -⟩
    · rwa [ht] at hspelled
    · rw [ht] at heof
      cases heof
  · intro h
    have hlexes : Lexer.Lexes q.toList [⟨.quoted, q⟩] := by simpa using Lexer.Lexes.nil.quoted h
    exact lexemes_of_lexes hlexes

end Tokens

/-! ## The rounds of replacements -/

lemma decoded_spelling (is : List Item) :
    decoded (is.flatMap Item.spelling) = is.map Item.meaning := by
  induction is with
  | nil => rfl
  | cons i is ih =>
    rw [List.flatMap_cons, List.map_cons, ← ih]
    cases i with
    | plain c h => exact decoded_cons_of_ne h.2.1 _
    | sequence e => cases e <;> rfl

/-- What an item has become when quotes have lost their backslashes. -/
def Item.unquoted : Item → List Char
  | .sequence .quote => ['"']
  | i => i.spelling

lemma head?_spelling (is : List Item) : (is.flatMap Item.spelling).head? ≠ some '"' := by
  cases is with
  | nil => simp
  | cons i is =>
    cases i with
    | plain c h => simpa [Item.spelling] using h.1
    | sequence e => simp [Item.spelling]

lemma replacePair_spelling (is : List Item) :
    replacePair '\\' '"' (is.flatMap Item.spelling) = is.flatMap Item.unquoted := by
  -- a quote is always the letter of an escape sequence: no other backslash comes right before one
  induction is with
  | nil => rfl
  | cons i is ih =>
    rw [List.flatMap_cons, List.flatMap_cons, ← ih]
    cases i with
    | plain c h => exact replacePair_cons_of_head? (head?_spelling is)
    | sequence e =>
      by_cases hquote : e = .quote
      · subst hquote
        exact replacePair_cons_cons '\\' '"' _
      · have hletter : e.letter ≠ '"' := by cases e <;> simp_all [Escape.letter]
        change replacePair '\\' '"' ('\\' :: e.letter :: is.flatMap Item.spelling) = _
        rw [replacePair_cons_of_head? (by simpa using hletter),
          replacePair_cons_of_head? (head?_spelling is)]
        cases e <;> trivial

lemma replacePair_unquoted (is : List Item) :
    replacePair '\\' '\\' (is.flatMap Item.unquoted) = is.flatMap Item.residue := by
  induction is with
  | nil => rfl
  | cons i is ih =>
    rw [List.flatMap_cons, List.flatMap_cons, ← ih]
    cases i with
    | plain c h => exact replacePair_cons_of_ne h.2.1
    | sequence e =>
      cases e with
      | quote => exact replacePair_cons_of_ne (by decide)
      | backslash => exact replacePair_cons_cons '\\' '\\' _
      | lineFeed | carriageReturn =>
        exact (replacePair_cons_of_head? (by simp [Escape.letter])).trans
          (congrArg _ (replacePair_cons_of_ne (by decide)))

lemma Item.lineEnds_notMem_residue (i : Item) : '\r' ∉ i.residue ∧ '\n' ∉ i.residue := by
  cases i with
  | plain c h => simpa [residue, eq_comm] using h.2.2
  | sequence e => cases e <;> decide

lemma lineEnds_notMem_residue (is : List Item) :
    '\r' ∉ is.flatMap Item.residue ∧ '\n' ∉ is.flatMap Item.residue := by
  simp only [List.mem_flatMap, not_exists, not_and]
  exact ⟨fun i _ => i.lineEnds_notMem_residue.1, fun i _ => i.lineEnds_notMem_residue.2⟩

/-- Each item is replaced by itself, whatever stands beside it. -/
theorem unescaped_spelling (is : List Item) :
    unescaped (is.flatMap Item.spelling) = is.flatMap Item.residue := by
  obtain ⟨hcr, hlf⟩ := lineEnds_notMem_residue is
  rw [unescaped, replacePair_spelling, replacePair_unquoted, replacePair_of_notMem hcr,
    replacePair_of_notMem hlf]

/-- A line end as it is left: by its escape sequence. Any other character is left as it is. -/
def leftover (c : Char) : List Char :=
  if c = '\n' then ['\\', 'n'] else if c = '\r' then ['\\', 'r'] else [c]

lemma flatMap_leftover (is : List Item) :
    (is.map Item.meaning).flatMap leftover = is.flatMap Item.residue := by
  rw [List.flatMap_map]
  congr 1
  funext i
  cases i with
  | plain c h => simp [Item.meaning, Item.residue, leftover, h.2.2]
  | sequence e => cases e <;> decide

lemma flatMap_leftover_eq_self_iff {cs : List Char} :
    cs.flatMap leftover = cs ↔ '\n' ∉ cs ∧ '\r' ∉ cs := by
  induction cs with
  | nil => simp
  | cons c cs ih =>
    rw [List.flatMap_cons, List.mem_cons, List.mem_cons, not_or, not_or]
    by_cases hlf : c = '\n'
    · simp [leftover, hlf]
    · by_cases hcr : c = '\r'
      · simp [leftover, hcr]
      · simp [leftover, hlf, hcr, ih, Ne.symm hlf, Ne.symm hcr]

/-! ## Tokens with the same text -/

section Tokens

variable {is : List Item} {q : String}

/-- A token made of items. -/
def ofItems (is : List Item) : String := .ofList ('"' :: (is.flatMap Item.spelling ++ ['"']))

lemma inner_ofItems (is : List Item) : inner (ofItems is) = is.flatMap Item.spelling := by
  simp [inner, ofItems]

lemma unescape?_ofItems (is : List Item) :
    unescape? (ofItems is) = some (.ofList (is.flatMap Item.residue)) := by
  simp [unescape?, ofItems, unescaped_spelling]

lemma isToken_ofItems (h : is ≠ []) : IsToken (ofItems is) :=
  isToken_iff.2 (matches_quoted_iff.2 ⟨is, h, String.toList_ofList⟩)

lemma IsToken.exists_items (h : IsToken q) : ∃ is : List Item, is ≠ [] ∧ q = ofItems is := by
  obtain ⟨is, hne, hq⟩ := matches_quoted_iff.1 (isToken_iff.1 h)
  exact ⟨is, hne, String.toList_injective (by rw [hq, ofItems, String.toList_ofList])⟩

lemma Item.meaning_injective : Function.Injective Item.meaning := by
  have hplain : ∀ (c : Char) (h : c ≠ '"' ∧ c ≠ '\\' ∧ c ≠ '\r' ∧ c ≠ '\n') (e : Escape),
      c ≠ e.meaning := by
    intro c h e
    cases e
    exacts [h.1, h.2.1, h.2.2.2, h.2.2.1]
  have hsequence : ∀ e e' : Escape, e.meaning = e'.meaning → e = e' := by
    intro e e'
    cases e <;> cases e' <;> decide
  intro i j h
  cases i with
  | plain c hc =>
    cases j with
    | plain d hd =>
      cases h
      rfl
    | sequence e => exact absurd h (hplain c hc e)
  | sequence e =>
    cases j with
    | plain d hd => exact absurd h.symm (hplain d hd e)
    | sequence e' => exact congrArg _ (hsequence e e' h)

/-- The item for a character that is not a line end. -/
lemma exists_item {c : Char} (hcr : c ≠ '\r') (hlf : c ≠ '\n') :
    ∃ i : Item, i.spelling = escape c ∧ i.residue = [c] := by
  by_cases hslash : c = '\\'
  · subst hslash
    exact ⟨.sequence .backslash, by decide, rfl⟩
  · by_cases hquote : c = '"'
    · subst hquote
      exact ⟨.sequence .quote, by decide, rfl⟩
    · have hplain : escape c = [c] := by simp [escape, hslash, hquote]
      exact ⟨.plain c ⟨hquote, hslash, hcr, hlf⟩, hplain.symm, rfl⟩

lemma exists_items {cs : List Char} (hcr : '\r' ∉ cs) (hlf : '\n' ∉ cs) :
    ∃ is : List Item, is.flatMap Item.spelling = cs.flatMap escape ∧
      is.flatMap Item.residue = cs := by
  induction cs with
  | nil => exact ⟨[], rfl, rfl⟩
  | cons c cs ih =>
    rw [List.mem_cons, not_or] at hcr hlf
    obtain ⟨i, hspelling, hresidue⟩ := exists_item (Ne.symm hcr.1) (Ne.symm hlf.1)
    obtain ⟨is, hspellings, hresidues⟩ := ih hcr.2 hlf.2
    exact ⟨i :: is, by simp [hspelling, hspellings], by simp [hresidue, hresidues]⟩

/-- Where a text has the escape sequence of a line end in it, two tokens have that text: in one of
them the backslash is escaped. -/
lemma exists_two_tokens {e : Escape} (he : e = .lineFeed ∨ e = .carriageReturn) {s : String}
    (hs : e.residue <:+: s.toList) (hcr : '\r' ∉ s.toList) (hlf : '\n' ∉ s.toList) :
    ∃ q q', IsToken q ∧ IsToken q' ∧ q ≠ q' ∧ unescape? q = some s ∧ unescape? q' = some s := by
  obtain ⟨u, v, huv⟩ := hs
  have hkept : e.residue = ['\\', e.letter] := by rcases he with rfl | rfl <;> rfl
  have hne : s ≠ "" := by
    rintro rfl
    simp [hkept] at huv
  have hquotable : Quotable s := ⟨hne, hcr, hlf⟩
  rw [← huv, List.append_assoc] at hcr hlf
  simp only [List.mem_append, not_or] at hcr hlf
  obtain ⟨is, hspelling, hresidue⟩ := exists_items hcr.1 hlf.1
  obtain ⟨js, hspelling', hresidue'⟩ := exists_items hcr.2.2 hlf.2.2
  refine ⟨quote s, ofItems (is ++ .sequence e :: js), isToken_iff.2 (matches_quote hquotable),
    isToken_ofItems (by simp), ?_, unescape?_quote hquotable, ?_⟩
  · intro heq
    have hletter : escape e.letter = [e.letter] := by rcases he with rfl | rfl <;> decide
    have hslash : escape '\\' = ['\\', '\\'] := by decide
    have hlen := congrArg (fun t => t.toList.length) heq
    simp [quote, ofItems, ← huv, hkept, hslash, hletter, hspelling, hspelling',
      Item.spelling] at hlen
  · have hresidues : (is ++ .sequence e :: js).flatMap Item.residue = s.toList := by
      simp [hresidue, hresidue', Item.residue, ← huv]
    rw [unescape?_ofItems, hresidues, String.ofList_toList]

lemma Item.spelling_cases (i : Item) :
    i.spelling = i.residue.flatMap escape ∨ i.residue = ['\\', 'n'] ∨ i.residue = ['\\', 'r'] := by
  cases i with
  | plain c h => simp [spelling, residue, escape, h.1, h.2.1]
  | sequence e => cases e <;> decide

/-- A token that leaves no escape sequence of a line end is spelt in the one way there is. -/
lemma ofItems_eq_quote (hn : ¬['\\', 'n'] <:+: is.flatMap Item.residue)
    (hr : ¬['\\', 'r'] <:+: is.flatMap Item.residue) :
    ofItems is = quote (.ofList (is.flatMap Item.residue)) := by
  have hspelling : ∀ i ∈ is, i.spelling = i.residue.flatMap escape := by
    intro i hi
    have hinside : i.residue <:+: is.flatMap Item.residue := by
      obtain ⟨us, vs, rfl⟩ := List.append_of_mem hi
      exact ⟨us.flatMap Item.residue, vs.flatMap Item.residue, by simp⟩
    rcases i.spelling_cases with h | h | h
    · exact h
    · exact absurd (h ▸ hinside) hn
    · exact absurd (h ▸ hinside) hr
  rw [ofItems, quote, String.toList_ofList, List.flatMap_assoc, List.flatMap_congr hspelling]

end Tokens

/-- What a quoted token is read as. In one pass, different tokens stand for different texts. The
rounds of replacements spell out the line ends of that text again, so they agree with the one pass
exactly if it has none. And a text they give comes from one token only exactly if no backslash in it
is followed by the letter of a line end. -/
theorem unescaped_token {q : String} (h : IsToken q) :
    (∀ q', IsToken q' → decoded (inner q') = decoded (inner q) → q' = q) ∧
    ∃ s, unescape? q = some s ∧ s.toList = (decoded (inner q)).flatMap leftover ∧
      (s.toList = decoded (inner q) ↔ '\n' ∉ decoded (inner q) ∧ '\r' ∉ decoded (inner q)) ∧
      ((∀ q', IsToken q' → unescape? q' = some s → q' = q) ↔
        ¬['\\', 'n'] <:+: s.toList ∧ ¬['\\', 'r'] <:+: s.toList) := by
  obtain ⟨is, hne, rfl⟩ := h.exists_items
  have hdecoded : decoded (inner (ofItems is)) = is.map Item.meaning := by
    rw [inner_ofItems, decoded_spelling]
  have hleft : (decoded (inner (ofItems is))).flatMap leftover = is.flatMap Item.residue := by
    rw [hdecoded, flatMap_leftover]
  refine ⟨?_, .ofList (is.flatMap Item.residue), unescape?_ofItems is, ?_, ?_, ?_⟩
  · intro q' h' heq
    obtain ⟨js, -, rfl⟩ := h'.exists_items
    rw [hdecoded, inner_ofItems, decoded_spelling] at heq
    rw [List.map_injective_iff.2 Item.meaning_injective heq]
  · rw [String.toList_ofList, hleft]
  · rw [String.toList_ofList, ← hleft]
    exact flatMap_leftover_eq_self_iff
  · obtain ⟨hcr, hlf⟩ := lineEnds_notMem_residue is
    constructor
    · intro hunique
      -- two tokens with the same text cannot both be this one
      have hno : ∀ e : Escape, e = .lineFeed ∨ e = .carriageReturn →
          ¬e.residue <:+: (String.ofList (is.flatMap Item.residue)).toList := by
        intro e he hinside
        obtain ⟨q₁, q₂, h₁, h₂, hdiff, hq₁, hq₂⟩ :=
          exists_two_tokens he hinside (by simpa using hcr) (by simpa using hlf)
        exact hdiff ((hunique q₁ h₁ hq₁).trans (hunique q₂ h₂ hq₂).symm)
      exact ⟨hno .lineFeed (.inl rfl), hno .carriageReturn (.inr rfl)⟩
    · rintro ⟨hn, hr⟩ q' h' hq'
      obtain ⟨js, -, rfl⟩ := h'.exists_items
      rw [unescape?_ofItems, Option.some.injEq] at hq'
      rw [String.toList_ofList] at hn hr
      have hresidue : js.flatMap Item.residue = is.flatMap Item.residue := by
        simpa using congrArg String.toList hq'
      rw [ofItems_eq_quote hn hr, ← hresidue]
      exact ofItems_eq_quote (hresidue ▸ hn) (hresidue ▸ hr)

/-- An escaped backslash, and an escaped quote right after it. -/
theorem unescaped_token_sequences :
    IsToken "\"a\\\\\\\"b\"" ∧ unescape? "\"a\\\\\\\"b\"" = some "a\\\"b" ∧
      (∀ q', IsToken q' → unescape? q' = some "a\\\"b" → q' = "\"a\\\\\\\"b\"") := by
  have htoken : IsToken "\"a\\\\\\\"b\"" := by decide +kernel
  obtain ⟨-, s, hs, -, -, hunique⟩ := unescaped_token htoken
  have htext : unescape? "\"a\\\\\\\"b\"" = some "a\\\"b" := by decide
  obtain rfl : s = "a\\\"b" := Option.some.inj (hs.symm.trans htext)
  exact ⟨htoken, htext, hunique.2 ⟨by decide, by decide⟩⟩

/-- The escape sequence of a line feed is left as it is, as if its backslash had been escaped. -/
theorem not_decoded_lineFeed :
    IsToken "\"\\n\"" ∧ decoded (inner "\"\\n\"") = ['\n'] ∧ unescape? "\"\\n\"" = some "\\n" ∧
      IsToken "\"\\\\n\"" ∧ unescape? "\"\\\\n\"" = some "\\n" := by
  decide +kernel

end Quoted

end MapFilter
