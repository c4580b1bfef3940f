import Mathlib.Data.List.TakeWhile
import MapFilter.Proofs.Listing
import MapFilter.Proofs.Quoting
import MapFilter.Proofs.Tokenization

/-!
# Runs between colons

A text of letters, digits, hyphens, underscores and colons is read run by run: each run between
colons is one token, a word of whatever meaning elsewhere or a number. Words and colons make up a
tag key or value as they stand, also if they are keywords. Numbers do not, but for digits alone.
-/

namespace MapFilter

/-! ## Runs -/

def isWordChar (c : Char) : Bool := c.isAlphanum || c == '-' || c == '_'

/-- The runs of a text between its colons. -/
def runs (w : List Char) : List (List Char) := w.splitOn ':'

/-- A run that is a number: digits, and perhaps an exponent. -/
inductive Numeric : List Char → Prop where
  | digits {ds : List Char} : IsDigits ds → Numeric ds
  | exponent {ds es : List Char} {e : Char} : IsDigits ds → e = 'e' ∨ e = 'E' → IsDigits es →
      Numeric (ds ++ e :: es)

/-- The texts that can be a tag key or value without quotes. -/
def Bare (w : List Char) : Prop :=
  IsDigits w ∨ (runs w).head? ≠ some [] ∧ ∀ r ∈ runs w, ¬Numeric r

/-- A text is its runs with colons between them. -/
lemma exists_runs (w : List Char) :
    ∃ first more, runs w = first :: more ∧ w = first ++ more.flatMap (':' :: ·) ∧
      ∀ r ∈ first :: more, ':' ∉ r := by
  induction w with
  | nil => exact ⟨[], [], rfl, rfl, by simp⟩
  | cons c w ih =>
    obtain ⟨first, more, hruns, hw, hcolon⟩ := ih
    rw [runs, List.splitOn_eq_splitOnP] at hruns ⊢
    rw [List.splitOnP_cons_eq_if_modifyHead, hruns]
    by_cases hc : c = ':'
    · exact ⟨[], first :: more, by simp [hc], by simp [hc, hw], by simpa using hcolon⟩
    · refine ⟨c :: first, more, by simp [hc], by simp [hw], ?_⟩
      simpa [Ne.symm hc] using hcolon

/-- The part after the digits that a number begins with. -/
def isExponent : List Char → Bool
  | [] => true
  | e :: es => (e == 'e' || e == 'E') && !es.isEmpty && es.all Char.isDigit

lemma numeric_iff {r : List Char} :
    Numeric r ↔ r.takeWhile Char.isDigit ≠ [] ∧ isExponent (r.dropWhile Char.isDigit) = true := by
  constructor
  · intro h
    cases h with
    | digits hds =>
      rw [List.takeWhile_eq_self_iff.2 hds.2, List.dropWhile_eq_nil_iff.2 hds.2]
      exact ⟨hds.1, rfl⟩
    | @exponent ds es e hds he hes =>
      have hstop : e.isDigit = false := by rcases he with rfl | rfl <;> rfl
      have htail : isExponent (e :: es) = true := by
        simpa [isExponent, he, IsDigits] using hes
      rw [List.takeWhile_append_of_pos hds.2, List.dropWhile_append_of_pos hds.2,
        List.dropWhile_cons_of_neg (by simp [hstop])]
      exact ⟨by simp [hds.1], htail⟩
  · rintro ⟨hne, htail⟩
    have hds : IsDigits (r.takeWhile Char.isDigit) := ⟨hne, fun c hc => List.mem_takeWhile_imp hc⟩
    rw [← List.takeWhile_append_dropWhile (p := Char.isDigit) (l := r)]
    cases hdrop : r.dropWhile Char.isDigit with
    | nil => simpa using Numeric.digits hds
    | cons e es =>
      rw [hdrop] at htail
      have hes : (e = 'e' ∨ e = 'E') ∧ IsDigits es := by
        simpa [isExponent, IsDigits, and_assoc] using htail
      exact .exponent hds hes.1 hes.2

instance (r : List Char) : Decidable (Numeric r) := decidable_of_iff _ numeric_iff.symm

-- Not from the instance for bounded quantifiers, which may also run through all characters.
instance (ds : List Char) : Decidable (IsDigits ds) :=
  decidable_of_iff (ds ≠ [] ∧ ds.all Char.isDigit = true) (and_congr_right' List.all_eq_true)

instance (w : List Char) : Decidable (Bare w) := inferInstanceAs (Decidable (IsDigits w ∨ _))

example : (["2024", "not:2nd::type", "in", "e5:", "2-3"].map (·.toList)).all (Bare ·) = true := by
  decide

example : (["", ":a", "1e5", "a:2024", "1:2"].map (·.toList)).any (Bare ·) = false := by decide

lemma Numeric.exists_digit {r : List Char} (h : Numeric r) :
    ∃ c cs, r = c :: cs ∧ c.isDigit = true := by
  cases h with
  | digits hds =>
    obtain ⟨c, cs, rfl⟩ := List.exists_cons_of_ne_nil hds.1
    exact ⟨c, cs, rfl, hds.2 c List.mem_cons_self⟩
  | exponent hds =>
    obtain ⟨c, cs, rfl⟩ := List.exists_cons_of_ne_nil hds.1
    exact ⟨c, _, rfl, hds.2 c List.mem_cons_self⟩

/-! ## The token of a run -/

section Tokens

open Regex

variable {k : Kind} {r : List Char}

lemma matches_decimal_iff : Kind.decimal.regex.Matches r ↔ IsDecimal r := by
  constructor
  · intro h
    simpa using Lexeme.Spelled.isDecimal (k := .decimal) (t := .ofList r)
      (by simpa [Lexeme.Spelled] using h) (.inr rfl)
  · rintro @⟨whole, fraction, exponent, hwhole, hfraction, hexponent⟩
    rw [List.append_assoc]
    refine .seq (matches_some_one_iff.2 hwhole) (.seq ?_ ?_)
    · rcases hfraction with rfl | ⟨ds, hds, rfl⟩
      · exact .left .nothing
      · exact .right (.seq (u := ['.']) (.one (by decide)) (matches_some_one_iff.2 hds))
    · rcases hexponent with rfl | ⟨e, ds, he, hds, rfl⟩
      · exact .left .nothing
      · refine .right (.seq (u := [e]) (.one ?_) (matches_some_one_iff.2 hds))
        rcases he with rfl | rfl <;> rfl

lemma IsDigits.isDecimal (h : IsDigits r) : IsDecimal r := by
  simpa using IsDecimal.intro h (.inl rfl) (.inl rfl)

lemma Numeric.isDecimal (h : Numeric r) : IsDecimal r := by
  cases h with
  | digits hds => exact hds.isDecimal
  | exponent hds he hes =>
    simpa using IsDecimal.intro hds (.inl rfl) (.inr ⟨_, _, he.symm, hes, rfl⟩)

lemma numeric_of_isDecimal (h : IsDecimal r) (hdot : '.' ∉ r) : Numeric r := by
  obtain @⟨whole, fraction, exponent, hwhole, hfraction, hexponent⟩ := h
  have hnone : fraction = [] := by
    rcases hfraction with hnone | ⟨ds, -, rfl⟩
    · exact hnone
    · simp at hdot
  rw [hnone, List.append_nil]
  rcases hexponent with rfl | ⟨e, ds, he, hds, rfl⟩
  · simpa using Numeric.digits hwhole
  · exact .exponent hwhole he.symm hds

/-- Words and numbers are the only tokens without other characters. -/
lemma isWord_or_number (h : k.regex.Matches r) (hr : ∀ c ∈ r, isWordChar c = true) :
    k.isWord = true ∨ k = .number ∨ k = .decimal := by
  have hspelling : ∀ {s : String}, Matches (.word s) r → s.toList.all isWordChar = true := by
    intro s hs
    rw [← matches_word_iff.1 hs]
    exact List.all_eq_true.2 hr
  cases k with
  | eof => exact absurd h not_matches_never
  | colon | equal | notEqual | lparen | rparen | comma | dots | tilde | star =>
    exact absurd (hspelling h) (by decide)
  | objectId =>
    obtain ⟨type, id, htext, -, -⟩ := Lexeme.Spelled.objectId (t := .ofList r) (by
      simpa [Lexeme.Spelled] using h)
    rw [String.toList_ofList] at htext
    exact absurd (hr '/' (by simp [htext])) (by decide)
  | quoted =>
    obtain ⟨u, v, rfl, hopen, -⟩ := matches_seq_iff.1 h
    rw [matches_char_iff.1 hopen] at hr
    exact absurd (hr '"' (by simp)) (by decide)
  | space =>
    obtain ⟨hne, hblank⟩ := matches_some_one_iff.1 h
    obtain ⟨c, cs, rfl⟩ := List.exists_cons_of_ne_nil hne
    have hc := hr c List.mem_cons_self
    have hspace : c = ' ' ∨ c = '\t' ∨ c = '\r' ∨ c = '\n' := by
      simpa using hblank c List.mem_cons_self
    rcases hspace with rfl | rfl | rfl | rfl <;> cases hc
  | number => exact .inr (.inl rfl)
  | decimal => exact .inr (.inr rfl)
  | _ => exact .inl rfl

/-- Numbers and words are the only tokens that begin with a digit. -/
lemma kind_of_isDigit {c : Char} {cs : List Char} (h : k.regex.Matches (c :: cs))
    (hc : c.isDigit = true) : k = .number ∨ k = .decimal ∨ k = .word := by
  have hspelling : ∀ {s : String} {cs : List Char}, Matches (.word s) (c :: cs) →
      s.toList.head?.all (fun d => !d.isDigit) = false := by
    intro s cs hs
    rw [← matches_word_iff.1 hs]
    simp [hc]
  cases k with
  | eof => exact absurd h not_matches_never
  | number => exact .inl rfl
  | decimal => exact .inr (.inl rfl)
  | word => exact .inr (.inr rfl)
  | objectType | geometryType =>
    obtain ⟨x, hx, hm⟩ := matches_any_iff.1 h
    simp only [List.mem_cons, List.not_mem_nil, or_false] at hx
    rcases hx with rfl | rfl | rfl | rfl <;> exact absurd (hspelling hm) (by decide)
  | objectId =>
    obtain ⟨u, v, heq, htype, -⟩ := matches_seq_iff.1 h
    obtain ⟨x, hx, hm⟩ := matches_any_iff.1 htype
    simp only [List.mem_cons, List.not_mem_nil, or_false] at hx
    rcases hx with rfl | rfl | rfl <;> rw [matches_word_iff.1 hm] at heq <;>
      rw [(List.cons.inj heq).1] at hc <;> cases hc
  | quoted =>
    obtain ⟨u, v, heq, hopen, -⟩ := matches_seq_iff.1 h
    rw [matches_char_iff.1 hopen] at heq
    rw [(List.cons.inj heq).1] at hc
    cases hc
  | space =>
    have hspace : c = ' ' ∨ c = '\t' ∨ c = '\r' ∨ c = '\n' := by
      simpa using (matches_some_one_iff.1 h).2 c List.mem_cons_self
    rcases hspace with rfl | rfl | rfl | rfl <;> cases hc
  | _ => exact absurd (hspelling h) (by decide)

/-- A kind that is listed before the one of a token is not that of the token's text. -/
lemma IsFront.not_matches {cs : List Char} {j : Kind} (h : IsFront cs k r) (hne : j ≠ k)
    (hlisted : ¬[k, j].Sublist Kind.all) : ¬j.regex.Matches r := by
  obtain ⟨us, vs, hall, hus⟩ := h.first
  have hmem : j ∈ us ++ k :: vs := by
    rw [← hall]
    cases j <;> decide
  rcases List.mem_append.1 hmem with hj | hj
  · exact hus j hj
  · have hvs : j ∈ vs := (List.mem_cons.1 hj).resolve_left hne
    refine absurd ?_ hlisted
    rw [hall]
    exact ((List.singleton_sublist.2 hvs).cons_cons k).trans (List.sublist_append_right us _)

/-- What a run is read as: nothing if it is empty, and else one token. -/
inductive ReadAs : List Char → Option Lexeme → Prop where
  | nothing : ReadAs [] none
  | word {r : List Char} {k : Kind} : r ≠ [] → k.isWord = true → ¬Numeric r →
      ReadAs r (some ⟨k, .ofList r⟩)
  | number {r : List Char} : IsDigits r → ReadAs r (some ⟨.number, .ofList r⟩)
  | decimal {r : List Char} : Numeric r → ¬IsDigits r → ReadAs r (some ⟨.decimal, .ofList r⟩)

lemma IsFront.readAs {cs : List Char} (h : IsFront cs k r) (hr : ∀ c ∈ r, isWordChar c = true) :
    ReadAs r (some ⟨k, .ofList r⟩) := by
  rcases isWord_or_number h.spelt hr with hword | rfl | rfl
  · refine .word h.ne_nil hword fun hnumeric => ?_
    obtain ⟨c, cs, rfl, hdigit⟩ := hnumeric.exists_digit
    rcases kind_of_isDigit h.spelt hdigit with rfl | rfl | rfl
    · cases hword
    · cases hword
    · exact h.not_matches (by decide) (by decide) (matches_decimal_iff.2 hnumeric.isDecimal)
  · exact .number (matches_some_one_iff.1 h.spelt)
  · have hdecimal := matches_decimal_iff.1 h.spelt
    refine .decimal (numeric_of_isDecimal hdecimal fun hdot => ?_) fun hdigits => ?_
    · exact absurd (hr _ hdot) (by decide)
    · exact h.not_matches (j := .number) (by decide) (by decide) (matches_some_one_iff.2 hdigits)

/-- No token goes on from a run over a colon or an equals sign. -/
lemma not_matches_over_separator {c : Char} {v : List Char} (hc : c = ':' ∨ c = '=') (hne : r ≠ [])
    (hr : ∀ c ∈ r, isWordChar c = true) (k : Kind) : ¬k.regex.Matches (r ++ c :: v) := by
  intro hm
  obtain ⟨d, r, rfl⟩ := List.exists_cons_of_ne_nil hne
  have hd := hr d List.mem_cons_self
  have hk : k = .colon ∨ k = .equal ∨ k = .notEqual ∨ k = .quoted := by
    have hmentions := hm.mentions (c := c) (by simp)
    rcases hc with rfl | rfl <;> revert hmentions <;> cases k <;> decide
  rcases hk with rfl | rfl | rfl | rfl
  · simpa [Kind.spelling?] using matches_word_iff.1 hm
  · simpa [Kind.spelling?] using matches_word_iff.1 hm
  · have hhead : d = '!' := by
      simpa [Kind.spelling?] using congrArg List.head? (matches_word_iff.1 hm)
    rw [hhead] at hd
    cases hd
  · obtain ⟨u, v, heq, hopen, -⟩ := matches_seq_iff.1 hm
    rw [matches_char_iff.1 hopen] at heq
    rw [(List.cons.inj heq).1] at hd
    cases hd

end Tokens

/-! ## Reading runs -/

namespace Lexer

open Regex

/-- What ends a run: nothing more, a colon or an equals sign. -/
def EndsRun (rest : List Char) : Prop := ∀ c ∈ rest.head?, c = ':' ∨ c = '='

variable {r rest : List Char} {ls : List Lexeme}

lemma EndsRun.colons (h : EndsRun rest) (more : List (List Char)) :
    EndsRun (more.flatMap (':' :: ·) ++ rest) := by
  cases more with
  | nil => exact h
  | cons r more => simp [EndsRun]

/-- A token ends where no longer one goes on. -/
lemma exists_front {k : Kind} (hk : k.regex.Matches r) (hne : r ≠ [])
    (hover : ∀ c v, c :: v <+: rest → ∀ k : Kind, ¬k.regex.Matches (r ++ c :: v)) :
    ∃ k n, longest rules (r ++ rest) = some (k, n) ∧ r.length = n + 1 := by
  obtain ⟨k, n, hlongest, hle⟩ := longest_maximal (mem_rules_iff.2 rfl) hk hne rest
  refine ⟨k, n, hlongest, ?_⟩
  by_contra hlong
  obtain ⟨m, hm⟩ : ∃ m, n + 1 = r.length + (m + 1) := ⟨n - r.length, by omega⟩
  have hmatch := (isFront_of_longest hlongest).spelt
  rw [hm, List.take_length_add_append] at hmatch
  cases rest with
  | nil =>
    obtain ⟨hlt, -⟩ := longest_sound hlongest
    rw [List.append_nil] at hlt
    omega
  | cons c rest =>
    rw [List.take_succ_cons] at hmatch
    exact hover c _ ((List.prefix_cons_inj c).2 (List.take_prefix m rest)) k hmatch

/-- A run is read as one token, if it is not empty. -/
lemma Lexes.run (h : Lexes rest ls) (hr : ∀ c ∈ r, isWordChar c = true) (hrest : EndsRun rest) :
    ∃ o, ReadAs r o ∧ Lexes (r ++ rest) (o.toList ++ ls) := by
  by_cases hne : r = []
  · subst hne
    exact ⟨none, .nothing, h⟩
  · have hword : Kind.word.regex.Matches r := matches_some_one_iff.2 ⟨hne, hr⟩
    have hover : ∀ c v, c :: v <+: rest → ∀ k : Kind, ¬k.regex.Matches (r ++ c :: v) := by
      rintro c v ⟨z, rfl⟩
      exact not_matches_over_separator (hrest c rfl) hne hr
    obtain ⟨k, n, hlongest, hlen⟩ := exists_front hword hne hover
    have hfront := isFront_of_longest hlongest
    rw [← hlen, List.take_left] at hfront
    exact ⟨_, hfront.readAs hr, .cons hlongest hlen h⟩

lemma Lexes.colon (h : Lexes rest ls) : Lexes (':' :: rest) (⟨.colon, ":"⟩ :: ls) := by
  refine h.fixed ":" (n := 0) ?_ rfl
  cases rest <;> rfl

open Lookahead in
lemma Lexes.colonRuns {more : List (List Char)} (h : Lexes rest ls)
    (hmore : ∀ r ∈ more, ∀ c ∈ r, isWordChar c = true) (hrest : EndsRun rest) :
    ∃ os, more.Forall₂ ReadAs os ∧
      Lexes (more.flatMap (':' :: ·) ++ rest) (colonWords os ++ ls) := by
  induction more with
  | nil => exact ⟨[], .nil, h⟩
  | cons r more ih =>
    rw [List.forall_mem_cons] at hmore
    obtain ⟨os, hos, hlexes⟩ := ih hmore.2
    obtain ⟨o, ho, hrun⟩ := hlexes.run hmore.1 (hrest.colons more)
    refine ⟨o :: os, .cons ho hos, ?_⟩
    simpa [colonWords] using hrun.colon

open Lookahead in
/-- A text of runs is read run by run. -/
theorem Lexes.runs {w : List Char} (h : Lexes rest ls)
    (hw : ∀ c ∈ w, isWordChar c = true ∨ c = ':') (hrest : EndsRun rest) :
    ∃ first more o os, MapFilter.runs w = first :: more ∧ w = first ++ more.flatMap (':' :: ·) ∧
      ReadAs first o ∧ more.Forall₂ ReadAs os ∧
      Lexes (w ++ rest) (o.toList ++ (colonWords os ++ ls)) := by
  obtain ⟨first, more, hruns, hw', hcolon⟩ := exists_runs w
  have hchars : ∀ r ∈ first :: more, ∀ c ∈ r, isWordChar c = true := by
    intro r hr c hc
    have hne : c ≠ ':' := by
      rintro rfl
      exact hcolon r hr hc
    refine (hw c ?_).resolve_right hne
    rw [hw', List.mem_append, List.mem_flatMap]
    rcases List.mem_cons.1 hr with rfl | hr
    · exact .inl hc
    · exact .inr ⟨r, hr, List.mem_cons_of_mem _ hc⟩
  rw [List.forall_mem_cons] at hchars
  obtain ⟨os, hos, hlexes⟩ := h.colonRuns hchars.2 hrest
  obtain ⟨o, ho, hrun⟩ := hlexes.run hchars.1 (hrest.colons more)
  refine ⟨first, more, o, os, hruns, hw', ho, hos, ?_⟩
  rw [hw', List.append_assoc]
  exact hrun

end Lexer

/-! ## Runs that make up a text -/

open Lookahead

namespace ReadAs

variable {r : List Char} {o : Option Lexeme} {more : List (List Char)} {os : List (Option Lexeme)}

lemma texts (h : ReadAs r o) : o.toList.flatMap (·.text.toList) = r := by
  cases h <;> simp

lemma ne_nil {l : Lexeme} (h : ReadAs r (some l)) : r ≠ [] := by
  cases h with
  | word hne => exact hne
  | number hdigits => exact hdigits.1
  | decimal hnumeric =>
    obtain ⟨c, cs, rfl, -⟩ := hnumeric.exists_digit
    exact List.cons_ne_nil c cs

lemma isWord_iff (h : ReadAs r o) : (∀ l ∈ o, l.kind.isWord = true) ↔ ¬Numeric r := by
  cases h with
  | nothing =>
    have hempty : ¬Numeric [] := fun h => by
      obtain ⟨c, cs, hcs, -⟩ := h.exists_digit
      cases hcs
    simp [hempty]
  | word _ hk hr => simp [hk, hr]
  | number hr => simp [Numeric.digits hr, Kind.isWord]
  | decimal hr => simp [hr, Kind.isWord]

/-- What is read from runs are words and numbers. -/
lemma kind_of_mem (h : more.Forall₂ ReadAs os) {l : Lexeme} (hl : some l ∈ os) :
    l.kind.isWord = true ∨ l.kind = .number ∨ l.kind = .decimal := by
  induction h with
  | nil => cases hl
  | cons ho _ ih =>
    rcases List.mem_cons.1 hl with rfl | hl
    · cases ho with
      | word _ hk => exact .inl hk
      | number => exact .inr (.inl rfl)
      | decimal => exact .inr (.inr rfl)
    · exact ih hl

lemma colonWords_texts (h : more.Forall₂ ReadAs os) :
    (colonWords os).flatMap (·.text.toList) = more.flatMap (':' :: ·) := by
  induction h with
  | nil => rfl
  | cons ho _ ih => simp [colonWords, ho.texts, ih]

lemma forall_isWord_iff (h : more.Forall₂ ReadAs os) :
    (∀ l, some l ∈ os → l.kind.isWord = true) ↔ ∀ r ∈ more, ¬Numeric r := by
  induction h with
  | nil => simp
  | @cons r o more os ho _ ih =>
    rw [List.forall_mem_cons, ← ho.isWord_iff, ← ih]
    simp only [List.mem_cons, Option.mem_def]
    constructor
    · intro h
      exact ⟨fun l hl => h l (.inl hl.symm), fun l hl => h l (.inr hl)⟩
    · rintro ⟨hhead, htail⟩ l (hl | hl)
      · exact hhead l hl.symm
      · exact htail l hl

end ReadAs

lemma mem_colonWords_of_mem {l : Lexeme} {os : List (Option Lexeme)} (h : some l ∈ os) :
    l ∈ colonWords os := by
  induction os with
  | nil => cases h
  | cons o os ih =>
    rw [colonWords, List.mem_cons, List.mem_append]
    rcases List.mem_cons.1 h with rfl | h
    · exact .inr (.inl (by simp))
    · exact .inr (.inr (ih h))

section Texts

variable {w first : List Char} {more : List (List Char)} {o : Option Lexeme}
  {os : List (Option Lexeme)} (hruns : runs w = first :: more)
  (hw : w = first ++ more.flatMap (':' :: ·)) (ho : ReadAs first o) (hos : more.Forall₂ ReadAs os)

include hruns ho hos in
lemma words_iff : (runs w).head? ≠ some [] ∧ (∀ r ∈ runs w, ¬Numeric r) ↔
    first ≠ [] ∧ (∀ l ∈ o, l.kind.isWord = true) ∧ ∀ l, some l ∈ os → l.kind.isWord = true := by
  rw [hruns, List.forall_mem_cons, ho.isWord_iff, ReadAs.forall_isWord_iff hos]
  simp

include hruns hw ho hos

/-- The tokens of a bare text are those of a tag key or value. -/
lemma exists_text_of_bare (h : Bare w) :
    ∃ t : Text, t.Proper ∧ t.node.leaves = o.toList ++ colonWords os := by
  rcases h with hdigits | hbare
  · -- digits alone are one run
    obtain rfl : more = [] := by
      cases more with
      | nil => rfl
      | cons r more => exact absurd (hdigits.2 ':' (by simp [hw])) (by decide)
    obtain rfl : os = [] := by simpa using hos
    obtain rfl : w = first := by simpa using hw
    cases ho with
    | nothing => exact absurd rfl hdigits.1
    | word _ _ hnot => exact absurd (.digits hdigits) hnot
    | decimal _ hnot => exact absurd hdigits hnot
    | number => exact ⟨.number (.ofList w), trivial, by simp [Text.node, colonWords]⟩
  · obtain ⟨hne, hfirst, hmore⟩ := (words_iff hruns ho hos).1 hbare
    cases o with
    | none =>
      cases ho
      exact absurd rfl hne
    | some l => exact ⟨.words l os, ⟨hfirst l rfl, hmore⟩, by simp [leaves_words]⟩

lemma bare_of_text {t : Text} (ht : t.Proper)
    (hleaves : t.node.leaves = o.toList ++ colonWords os) : Bare w := by
  cases t with
  | quoted s =>
    cases ho with
    | nothing => cases os <;> simp [Text.node, colonWords] at hleaves
    | word _ hk =>
      obtain ⟨⟨rfl, -⟩, -⟩ := by simpa [Text.node] using hleaves
      cases hk
    | number | decimal => simp [Text.node] at hleaves
  | number s =>
    cases ho with
    | nothing => cases os <;> simp [Text.node, colonWords] at hleaves
    | word _ hk =>
      obtain ⟨⟨rfl, -⟩, -⟩ := by simpa [Text.node] using hleaves
      cases hk
    | decimal => simp [Text.node] at hleaves
    | number hdigits =>
      obtain rfl : os = [] := by
        cases os with
        | nil => rfl
        | cons o os => simp [Text.node, colonWords] at hleaves
      obtain rfl : more = [] := by simpa using hos
      left
      simpa [hw] using hdigits
  | words l ws =>
    rw [leaves_words] at hleaves
    cases o with
    | none =>
      -- a colon is no word
      cases os with
      | nil => simp [colonWords] at hleaves
      | cons o os =>
        obtain ⟨rfl, -⟩ := by simpa [colonWords] using hleaves
        exact absurd ht.1 (by decide)
    | some v =>
      obtain ⟨rfl, htail⟩ : l = v ∧ colonWords ws = colonWords os := by simpa using hleaves
      refine .inr ((words_iff hruns ho hos).2 ⟨ho.ne_nil, by simpa using ht.1, fun v hv => ?_⟩)
      rcases Text.mem_colonWords (htail ▸ mem_colonWords_of_mem hv) with rfl | hmem
      · have hkind := ReadAs.kind_of_mem hos hv
        simp [Kind.isWord] at hkind
      · exact ht.2 v hmem

end Texts

end MapFilter
