import MapFilter.Token.Lexer
import Mathlib.Tactic.Common

/-!
# What a text is read as

Every token that `scan` reads is spelt as its kind says, and the texts of the tokens before the end
of the text are that text again. The second half of the file says what the spelling of a kind is, in
terms of characters.
-/

namespace MapFilter
open Regex

/-! ## The longest token -/

namespace Lexer

lemma mem_after_iff {rs : Rules} {c : Char} {k : Kind} {r : Regex} :
    (k, r) ∈ rs.after c ↔ (∃ r', (k, r') ∈ rs ∧ r = r'.deriv c) ∧ r.viable = true := by
  simp only [Rules.after, List.mem_filter, List.mem_map, Prod.mk.injEq, Prod.exists]
  constructor
  · rintro ⟨⟨k', r', hr', rfl, rfl⟩, hv⟩
    exact ⟨⟨r', hr', rfl⟩, hv⟩
  · rintro ⟨⟨r', hr', rfl⟩, hv⟩
    exact ⟨⟨k, r', hr', rfl, rfl⟩, hv⟩

lemma complete?_sound {rs : Rules} {k : Kind} (h : rs.complete? = some k) :
    ∃ r, (k, r) ∈ rs ∧ r.Matches [] := by
  simp only [Rules.complete?, Option.map_eq_some_iff, Prod.exists] at h
  obtain ⟨k', r, hfind, rfl⟩ := h
  exact ⟨r, List.mem_of_find?_eq_some hfind, nullable_iff.1 (by simpa using List.find?_some hfind)⟩

/-- The token in front of a text is matched by the rule that names its kind. -/
theorem longest_sound {rs : Rules} {cs : List Char} {k : Kind} {n : Nat}
    (h : longest rs cs = some (k, n)) :
    n < cs.length ∧ ∃ r, (k, r) ∈ rs ∧ r.Matches (cs.take (n + 1)) := by
  induction cs generalizing rs n with
  | nil => simp [longest] at h
  | cons c cs ih =>
    simp only [longest] at h
    split at h
    · cases h
    · split at h
      · next k' m hm =>
        cases h
        obtain ⟨hlen, r, hr, hmatch⟩ := ih hm
        obtain ⟨⟨r', hr', rfl⟩, -⟩ := mem_after_iff.1 hr
        refine ⟨by simpa using hlen, r', hr', ?_⟩
        rw [List.take_succ_cons]
        exact matches_deriv_iff.1 hmatch
      · simp only [Option.map_eq_some_iff, Prod.mk.injEq] at h
        obtain ⟨k', hk', rfl, rfl⟩ := h
        obtain ⟨r, hr, hmatch⟩ := complete?_sound hk'
        obtain ⟨⟨r', hr', rfl⟩, -⟩ := mem_after_iff.1 hr
        exact ⟨by simp, r', hr', by simpa using matches_deriv_iff.1 hmatch⟩

lemma mem_rules {k : Kind} {r : Regex} (h : (k, r) ∈ rules) : r = k.regex := by
  simp only [rules, List.mem_map, Prod.mk.injEq] at h
  obtain ⟨k', -, rfl, rfl⟩ := h
  rfl

end Lexer

/-! ## Spelling of tokens -/

/-- The text of a token is one that its kind can have. -/
def Lexeme.Spelled (l : Lexeme) : Prop := l.kind.regex.Matches l.text.toList

lemma Lexeme.Spelled.kind_ne_eof {l : Lexeme} (h : l.Spelled) : l.kind ≠ .eof := by
  intro hk
  rw [Spelled, hk] at h
  exact not_matches_never h

namespace Lexer

lemma longest_rules_spelled {c : Char} {cs : List Char} {k : Kind} {n : Nat}
    (h : longest rules (c :: cs) = some (k, n)) :
    Lexeme.Spelled ⟨k, .ofList (c :: cs.take n)⟩ := by
  obtain ⟨-, r, hr, hmatch⟩ := longest_sound h
  rw [List.take_succ_cons] at hmatch
  rw [Lexeme.Spelled, String.toList_ofList, ← mem_rules hr]
  exact hmatch

/-- Tokens are spelt as their kinds say, but for the end of the text, which comes last. -/
lemma scanFrom_spelled {p : Position} {skip : Nat} {cs : List Char} {us vs : List Token} {t : Token}
    (h : (scanFrom p skip cs).tokens = us ++ t :: vs) :
    t.toLexeme.Spelled ∨ t.kind = .eof ∧ vs = [] := by
  induction p, skip, cs using scanFrom.induct generalizing us with
  | case1 p skip =>
    rw [scanFrom] at h
    have hlen := congrArg List.length h
    simp only [List.length_cons, List.length_nil, List.length_append] at hlen
    obtain rfl : us = [] := List.eq_nil_of_length_eq_zero (by omega)
    simp only [List.nil_append, List.cons.injEq] at h
    exact .inr ⟨by rw [← h.1]; rfl, h.2.symm⟩
  | case2 p skip c cs ih =>
    rw [scanFrom] at h
    exact ih h
  | case3 p c cs hnone => simp [scanFrom, hnone] at h
  | case4 p c cs k n hk text =>
    rename_i ih
    simp only [scanFrom, hk] at h
    cases us with
    | nil =>
      simp only [List.nil_append, List.cons.injEq] at h
      rw [← h.1]
      exact .inl (longest_rules_spelled hk)
    | cons u us =>
      simp only [List.cons_append, List.cons.injEq] at h
      exact ih h.2

/-- The tokens before the end of a text spell the text. -/
lemma scanFrom_text {p : Position} {skip : Nat} {cs : List Char} {us vs : List Token} {t : Token}
    (h : (scanFrom p skip cs).tokens = us ++ t :: vs) (ht : t.kind = .eof) :
    us.flatMap (·.text.toList) = cs.drop skip := by
  induction p, skip, cs using scanFrom.induct generalizing us with
  | case1 p skip =>
    rw [scanFrom] at h
    have hlen := congrArg List.length h
    simp only [List.length_cons, List.length_nil, List.length_append] at hlen
    obtain rfl : us = [] := List.eq_nil_of_length_eq_zero (by omega)
    simp
  | case2 p skip c cs ih =>
    rw [scanFrom] at h
    simpa using ih h
  | case3 p c cs hnone => simp [scanFrom, hnone] at h
  | case4 p c cs k n hk text =>
    rename_i ih
    simp only [scanFrom, hk] at h
    cases us with
    | nil =>
      simp only [List.nil_append, List.cons.injEq] at h
      rw [← h.1] at ht
      exact absurd ht (longest_rules_spelled hk).kind_ne_eof
    | cons u us =>
      simp only [List.cons_append, List.cons.injEq] at h
      have hrest := ih h.2
      rw [List.flatMap_cons, hrest, ← h.1]
      simp

end Lexer

theorem scan_spelled {s : String} {us vs : List Token} {t : Token}
    (h : (scan s).tokens = us ++ t :: vs) :
    t.toLexeme.Spelled ∨ t.kind = .eof ∧ vs = [] :=
  Lexer.scanFrom_spelled h

theorem scan_text {s : String} {us vs : List Token} {t : Token}
    (h : (scan s).tokens = us ++ t :: vs) (ht : t.kind = .eof) :
    us.flatMap (·.text.toList) = s.toList := by
  simpa using Lexer.scanFrom_text h ht

/-! ## Expressions in terms of characters -/

namespace Regex

lemma matches_many_one_iff {p : Char → Bool} {w : List Char} :
    Matches (.many (.one p)) w ↔ ∀ c ∈ w, p c = true := by
  induction w with
  | nil => simp [Matches.none]
  | cons c w ih =>
    rw [matches_many_cons_iff, List.forall_mem_cons]
    constructor
    · rintro ⟨u, v, rfl, hu, hv⟩
      obtain ⟨d, hd, he⟩ := matches_one_iff.1 hu
      obtain ⟨rfl, rfl⟩ := List.cons.inj he
      exact ⟨hd, ih.1 hv⟩
    · rintro ⟨hc, hw⟩
      exact ⟨[], w, rfl, .one hc, ih.2 hw⟩

lemma matches_some_one_iff {p : Char → Bool} {w : List Char} :
    Matches (.some (.one p)) w ↔ w ≠ [] ∧ ∀ c ∈ w, p c = true := by
  rw [Regex.some, matches_seq_iff]
  constructor
  · rintro ⟨u, v, rfl, hu, hv⟩
    obtain ⟨c, hc, rfl⟩ := matches_one_iff.1 hu
    exact ⟨by simp, List.forall_mem_cons.2 ⟨hc, matches_many_one_iff.1 hv⟩⟩
  · rintro ⟨hne, hw⟩
    obtain ⟨c, w, rfl⟩ := List.exists_cons_of_ne_nil hne
    obtain ⟨hc, hw⟩ := List.forall_mem_cons.1 hw
    exact ⟨[c], w, rfl, .one hc, matches_many_one_iff.2 hw⟩

lemma matches_char_iff {c : Char} {w : List Char} : Matches (.char c) w ↔ w = [c] := by
  simp [char, matches_one_iff]

lemma matches_word_iff {s : String} {w : List Char} : Matches (.word s) w ↔ w = s.toList := by
  rw [word]
  induction s.toList generalizing w with
  | nil => exact matches_nothing_iff
  | cons c cs ih =>
    rw [List.foldr_cons, matches_seq_iff]
    constructor
    · rintro ⟨u, v, rfl, hu, hv⟩
      rw [matches_char_iff.1 hu, ih.1 hv]
      rfl
    · rintro rfl
      exact ⟨[c], cs, rfl, matches_char_iff.2 rfl, ih.2 rfl⟩

lemma matches_any_iff {rs : List Regex} {w : List Char} :
    Matches (.any rs) w ↔ ∃ r ∈ rs, Matches r w := by
  rw [any]
  induction rs with
  | nil => simp [not_matches_never]
  | cons r rs ih => simp [matches_alt_iff, ih]

lemma matches_maybe_iff {r : Regex} {w : List Char} :
    Matches (.maybe r) w ↔ w = [] ∨ Matches r w := by
  rw [maybe, matches_alt_iff, matches_nothing_iff]

end Regex

/-! ## The spelling of kinds -/

/-- One or more digits. -/
def IsDigits (cs : List Char) : Prop := cs ≠ [] ∧ ∀ c ∈ cs, c.isDigit = true

/-- Digits, and perhaps a point with more of them, and perhaps an exponent. -/
inductive IsDecimal : List Char → Prop where
  | intro {whole fraction exponent : List Char} : IsDigits whole →
      (fraction = [] ∨ ∃ ds, IsDigits ds ∧ fraction = '.' :: ds) →
      (exponent = [] ∨ ∃ e ds, (e = 'E' ∨ e = 'e') ∧ IsDigits ds ∧ exponent = e :: ds) →
      IsDecimal (whole ++ fraction ++ exponent)

lemma Lexeme.Spelled.eq_spelling {k : Kind} {s t : String} (h : Spelled ⟨k, t⟩)
    (hk : k.spelling? = some s) : t = s := by
  have hregex : k.regex = .word s := by
    cases k <;> simp only [Kind.spelling?, Option.some.injEq, reduceCtorEq] at hk <;> subst hk <;> rfl
  rw [Spelled, hregex, matches_word_iff] at h
  exact String.toList_injective h

lemma spelled_number_iff {t : String} : Lexeme.Spelled ⟨.number, t⟩ ↔ IsDigits t.toList :=
  matches_some_one_iff

lemma Lexeme.Spelled.isDecimal {k : Kind} {t : String} (h : Spelled ⟨k, t⟩)
    (hk : k = .number ∨ k = .decimal) : IsDecimal t.toList := by
  rcases hk with rfl | rfl
  · have hd := IsDecimal.intro (spelled_number_iff.1 h) (.inl rfl) (.inl rfl)
    simpa using hd
  · obtain ⟨ds, u, he, hds, hu⟩ := matches_seq_iff.1 h
    obtain ⟨fs, es, rfl, hfs, hes⟩ := matches_seq_iff.1 hu
    rw [he, ← List.append_assoc]
    refine .intro (matches_some_one_iff.1 hds) ?_ ?_
    · rcases matches_maybe_iff.1 hfs with h | h
      · exact .inl h
      · obtain ⟨u, v, rfl, hu, hv⟩ := matches_seq_iff.1 h
        rw [matches_char_iff.1 hu]
        exact .inr ⟨v, matches_some_one_iff.1 hv, rfl⟩
    · rcases matches_maybe_iff.1 hes with h | h
      · exact .inl h
      · obtain ⟨u, v, rfl, hu, hv⟩ := matches_seq_iff.1 h
        obtain ⟨e, hE, rfl⟩ := matches_one_iff.1 hu
        exact .inr ⟨e, v, by simpa using hE, matches_some_one_iff.1 hv, rfl⟩

lemma Lexeme.Spelled.space {t : String} (h : Spelled ⟨.space, t⟩) :
    ∀ c ∈ t.toList, c = ' ' ∨ c = '\t' ∨ c = '\r' ∨ c = '\n' := by
  intro c hc
  simpa using (matches_some_one_iff.1 h).2 c hc

lemma Lexeme.Spelled.geometryType {t : String} (h : Spelled ⟨.geometryType, t⟩) :
    t = "point" ∨ t = "line" ∨ t = "polygon" ∨ t = "collection" := by
  simp only [Spelled, Kind.regex, Spelling.geometryType, matches_any_iff, List.mem_cons,
    List.not_mem_nil, or_false, exists_eq_or_imp, exists_eq_left, matches_word_iff,
    String.toList_inj] at h
  exact h

/-- An object is a type without a slash, a slash, and digits. -/
lemma Lexeme.Spelled.objectId {t : String} (h : Spelled ⟨.objectId, t⟩) :
    ∃ type id, t.toList = type ++ '/' :: id ∧ '/' ∉ type ∧ IsDigits id := by
  obtain ⟨type, u, he, htype, hu⟩ := matches_seq_iff.1 h
  obtain ⟨slash, id, rfl, hslash, hid⟩ := matches_seq_iff.1 hu
  rw [matches_char_iff.1 hslash] at he
  refine ⟨type, id, he, ?_, matches_some_one_iff.1 hid⟩
  simp only [Spelling.objectType, matches_any_iff, List.mem_cons, List.not_mem_nil, or_false,
    exists_eq_or_imp, exists_eq_left, matches_word_iff] at htype
  rcases htype with rfl | rfl | rfl <;> decide

end MapFilter
