/-!
# Regular expressions

The spelling of every token is given by a regular expression over characters. `Matches` is its
meaning. `deriv` takes one character off the front of an expression, `nullable` tells whether
nothing more is needed, and `viable` whether anything can still complete it; a lexer needs no more
than these three.
-/

namespace MapFilter

inductive Regex where
  | never
  | nothing
  | one (accepts : Char → Bool)
  | seq (r s : Regex)
  | alt (r s : Regex)
  | many (r : Regex)

namespace Regex

/-- The texts that an expression stands for. -/
inductive Matches : Regex → List Char → Prop where
  | nothing : Matches .nothing []
  | one {p : Char → Bool} {c : Char} : p c = true → Matches (.one p) [c]
  | seq {r s : Regex} {u v : List Char} : Matches r u → Matches s v → Matches (.seq r s) (u ++ v)
  | left {r s : Regex} {u : List Char} : Matches r u → Matches (.alt r s) u
  | right {r s : Regex} {u : List Char} : Matches s u → Matches (.alt r s) u
  | none {r : Regex} : Matches (.many r) []
  | more {r : Regex} {u v : List Char} :
      Matches r u → Matches (.many r) v → Matches (.many r) (u ++ v)

/-! ## Spelling out expressions -/

def char (c : Char) : Regex := .one (· == c)

def oneOf (cs : List Char) : Regex := .one cs.contains

def noneOf (cs : List Char) : Regex := .one fun c => !cs.contains c

/-- A fixed spelling. -/
def word (s : String) : Regex := s.toList.foldr (fun c r => .seq (char c) r) .nothing

def some (r : Regex) : Regex := .seq r (.many r)

def maybe (r : Regex) : Regex := .alt .nothing r

/-- Any of several expressions. -/
def any (rs : List Regex) : Regex := rs.foldr .alt .never

/-! ## Reading one character at a time -/

def nullable : Regex → Bool
  | .never => false
  | .nothing => true
  | .one _ => false
  | .seq r s => r.nullable && s.nullable
  | .alt r s => r.nullable || s.nullable
  | .many _ => true

/-- Whether some text completes the expression, given that every character class in it has a
member. -/
def viable : Regex → Bool
  | .never => false
  | .nothing => true
  | .one _ => true
  | .seq r s => r.viable && s.viable
  | .alt r s => r.viable || s.viable
  | .many _ => true

/-- `seq` without needless parts. -/
def cat : Regex → Regex → Regex
  | .never, _ => .never
  | .nothing, s => s
  | r, s => .seq r s

/-- `alt` without needless parts. -/
def union : Regex → Regex → Regex
  | .never, s => s
  | r, .never => r
  | r, s => .alt r s

/-- What remains of an expression after the character `c`. -/
def deriv (c : Char) : Regex → Regex
  | .never => .never
  | .nothing => .never
  | .one p => if p c then .nothing else .never
  | .seq r s =>
    if r.nullable then union (cat (r.deriv c) s) (s.deriv c) else cat (r.deriv c) s
  | .alt r s => union (r.deriv c) (s.deriv c)
  | .many r => cat (r.deriv c) (.many r)

/-! ## Meaning -/

theorem matches_seq_iff {r s : Regex} {w : List Char} :
    Matches (.seq r s) w ↔ ∃ u v, w = u ++ v ∧ Matches r u ∧ Matches s v := by
  constructor
  · intro h
    cases h with
    | seq hu hv => exact ⟨_, _, rfl, hu, hv⟩
  · rintro ⟨u, v, rfl, hu, hv⟩
    exact .seq hu hv

theorem matches_alt_iff {r s : Regex} {w : List Char} :
    Matches (.alt r s) w ↔ Matches r w ∨ Matches s w := by
  constructor
  · intro h
    cases h with
    | left hu => exact .inl hu
    | right hu => exact .inr hu
  · rintro (h | h)
    · exact .left h
    · exact .right h

theorem not_matches_never {w : List Char} : ¬Matches .never w := nofun

theorem matches_nothing_iff {w : List Char} : Matches .nothing w ↔ w = [] := by
  constructor
  · rintro ⟨⟩
    rfl
  · rintro rfl
    exact .nothing

theorem matches_one_iff {p : Char → Bool} {w : List Char} :
    Matches (.one p) w ↔ ∃ c, p c = true ∧ w = [c] := by
  constructor
  · rintro ⟨⟩
    exact ⟨_, ‹_›, rfl⟩
  · rintro ⟨c, hc, rfl⟩
    exact .one hc

/-- A text of several rounds either is empty or begins with a round that is not. -/
theorem matches_many_cons_iff {r : Regex} {c : Char} {w : List Char} :
    Matches (.many r) (c :: w) ↔ ∃ u v, w = u ++ v ∧ Matches r (c :: u) ∧ Matches (.many r) v := by
  constructor
  · intro h
    generalize he : Regex.many r = m at h
    generalize hx : c :: w = x at h
    induction h with
    | @more r' u v hu hv _ ih =>
      cases he
      cases u with
      | nil => exact ih rfl hx
      | cons d u =>
        cases hx
        exact ⟨u, v, rfl, hu, hv⟩
    | none => cases hx
    | _ => cases he
  · rintro ⟨u, v, rfl, hu, hv⟩
    exact .more hu hv

theorem nullable_iff {r : Regex} : r.nullable = true ↔ Matches r [] := by
  induction r with
  | never => simp [nullable, not_matches_never]
  | nothing => simp [nullable, matches_nothing_iff]
  | one p => simp [nullable, matches_one_iff]
  | seq r s ihr ihs =>
    simp only [nullable, Bool.and_eq_true, ihr, ihs, matches_seq_iff]
    constructor
    · rintro ⟨hr, hs⟩
      exact ⟨[], [], rfl, hr, hs⟩
    · rintro ⟨u, v, he, hu, hv⟩
      obtain ⟨rfl, rfl⟩ := List.append_eq_nil_iff.1 he.symm
      exact ⟨hu, hv⟩
  | alt r s ihr ihs => simp [nullable, ihr, ihs, matches_alt_iff]
  | many r _ => simp [nullable, Matches.none]

theorem matches_cat_iff {r s : Regex} {w : List Char} :
    Matches (cat r s) w ↔ Matches (.seq r s) w := by
  cases r with
  | never => simp [cat, matches_seq_iff, not_matches_never]
  | nothing =>
    simp only [cat, matches_seq_iff, matches_nothing_iff]
    constructor
    · intro h
      exact ⟨[], w, rfl, rfl, h⟩
    · rintro ⟨_, v, rfl, rfl, h⟩
      exact h
  | _ => rfl

theorem matches_union_iff {r s : Regex} {w : List Char} :
    Matches (union r s) w ↔ Matches r w ∨ Matches s w := by
  cases r <;> cases s <;> simp [union, matches_alt_iff, not_matches_never]

theorem matches_deriv_iff {r : Regex} {c : Char} {w : List Char} :
    Matches (r.deriv c) w ↔ Matches r (c :: w) := by
  induction r generalizing w with
  | never => simp [deriv, not_matches_never]
  | nothing => simp [deriv, not_matches_never, matches_nothing_iff]
  | one p =>
    by_cases h : p c = true
    · simp only [deriv, h, if_true, matches_nothing_iff, matches_one_iff]
      constructor
      · rintro rfl
        exact ⟨c, h, rfl⟩
      · rintro ⟨_, _, ⟨⟩⟩
        rfl
    · simp only [deriv, h, matches_one_iff]
      constructor
      · intro hn
        exact absurd hn not_matches_never
      · rintro ⟨_, hd, ⟨⟩⟩
        exact absurd hd h
  | seq r s ihr ihs =>
    have split : Matches (.seq r s) (c :: w) ↔
        (Matches r [] ∧ Matches s (c :: w)) ∨
          ∃ u v, w = u ++ v ∧ Matches r (c :: u) ∧ Matches s v := by
      rw [matches_seq_iff]
      constructor
      · rintro ⟨u, v, he, hu, hv⟩
        cases u with
        | nil => exact .inl ⟨hu, by simpa [he] using hv⟩
        | cons d u =>
          cases he
          exact .inr ⟨u, v, rfl, hu, hv⟩
      · rintro (⟨hr, hs⟩ | ⟨u, v, rfl, hu, hv⟩)
        · exact ⟨[], c :: w, rfl, hr, hs⟩
        · exact ⟨c :: u, v, rfl, hu, hv⟩
    by_cases h : r.nullable = true
    · simp only [deriv, h, if_true, matches_union_iff, matches_cat_iff, matches_seq_iff, ihr, ihs,
        split, ← nullable_iff, true_and]
      exact Or.comm
    · have hr : ¬Matches r [] := mt nullable_iff.2 h
      rw [deriv, if_neg h, matches_cat_iff, matches_seq_iff, split]
      simp only [ihr, hr, false_and, false_or]
  | alt r s ihr ihs => simp [deriv, matches_union_iff, matches_alt_iff, ihr, ihs]
  | many r ih => simp only [deriv, matches_cat_iff, matches_seq_iff, ih, matches_many_cons_iff]

end Regex

end MapFilter
