import MapFilter.Proofs.Lexing
import Mathlib.Data.List.Chain

/-!
# How a text is cut into tokens

The token in front of a text is the longest one that any rule matches, so what comes after it matters
only if it makes a longer one possible. `Lexes` is reading a whole text, without the places of the
tokens. It follows that no two tokens of white space stand side by side.
-/

namespace MapFilter

open Regex

lemma Regex.Matches.viable {r : Regex} {w : List Char} (h : r.Matches w) : r.viable = true := by
  induction h with
  | nothing | one | none | more => rfl
  | seq _ _ ihr ihs => simp [Regex.viable, ihr, ihs]
  | left _ ih => simp [Regex.viable, ih]
  | right _ ih => simp [Regex.viable, ih]

/-! ## The longest token -/

namespace Lexer

/-- No rule matches more than the longest token. -/
theorem longest_maximal {rs : Rules} {k : Kind} {r : Regex} {w : List Char} (hr : (k, r) ∈ rs)
    (hm : r.Matches w) (hne : w ≠ []) (rest : List Char) :
    ∃ k' n, longest rs (w ++ rest) = some (k', n) ∧ w.length ≤ n + 1 := by
  induction w generalizing rs r with
  | nil => exact absurd rfl hne
  | cons c w ih =>
    have hm' : (r.deriv c).Matches w := matches_deriv_iff.2 hm
    have hafter : (k, r.deriv c) ∈ rs.after c := mem_after_iff.2 ⟨⟨r, hr, rfl⟩, hm'.viable⟩
    have hsome : (rs.after c).isEmpty = false := by
      simpa using List.ne_nil_of_mem hafter
    rw [List.cons_append, longest]
    simp only [hsome, Bool.false_eq_true, if_false, List.length_cons]
    cases hl : longest (rs.after c) (w ++ rest) with
    | some q =>
      obtain ⟨k', n⟩ := q
      refine ⟨k', n + 1, rfl, ?_⟩
      by_cases hw : w = []
      · simp [hw]
      · obtain ⟨k'', m, hm'', hlen⟩ := ih hafter hm' hw
        rw [hl] at hm''
        cases hm''
        omega
    | none =>
      have hw : w = [] := by
        by_contra hw
        obtain ⟨k', n, hsome', -⟩ := ih hafter hm' hw
        simp [hl] at hsome'
      subst hw
      have hcomplete : ((rs.after c).complete?).isSome := by
        simp only [Rules.complete?, Option.isSome_map, List.find?_isSome]
        exact ⟨_, hafter, nullable_iff.2 hm'⟩
      obtain ⟨k', hk'⟩ := Option.isSome_iff_exists.1 hcomplete
      exact ⟨k', 0, by simp [hk'], by simp⟩

/-- A token stays the longest one before another text, if no rule goes on into that. -/
theorem longest_extend {rs : Rules} {w x y : List Char} {k : Kind} {n : Nat}
    (h : longest rs (w ++ x) = some (k, n)) (hn : w.length = n + 1)
    (hy : ∀ v ≠ [], v <+: y → ∀ k' r, (k', r) ∈ rs → ¬r.Matches (w ++ v)) :
    longest rs (w ++ y) = some (k, n) := by
  induction w generalizing rs n with
  | nil => simp at hn
  | cons c w ih =>
    rw [List.cons_append, longest] at h ⊢
    split at h
    · cases h
    · next hsome =>
      simp only [hsome, Bool.false_eq_true, if_false]
      have hrest : ∀ v ≠ [], v <+: y → ∀ k' r, (k', r) ∈ rs.after c → ¬r.Matches (w ++ v) := by
        intro v hne hv k' r hr hm
        obtain ⟨⟨r', hr', rfl⟩, -⟩ := mem_after_iff.1 hr
        exact hy v hne hv k' r' hr' (matches_deriv_iff.1 hm)
      split at h
      · next k' m hm =>
        cases h
        rw [ih hm (by simpa using hn) hrest]
      · next hnone =>
        simp only [Option.map_eq_some_iff, Prod.mk.injEq] at h
        obtain ⟨k', hk', rfl, rfl⟩ := h
        obtain rfl : w = [] := List.eq_nil_of_length_eq_zero (by simpa using hn)
        have hshort : longest (rs.after c) y = none := by
          cases hl : longest (rs.after c) y with
          | none => rfl
          | some q =>
            obtain ⟨hlen, r, hr, hm⟩ := longest_sound (k := q.1) (n := q.2) hl
            refine absurd hm (hrest (y.take (q.2 + 1)) ?_ (List.take_prefix _ _) _ r hr)
            intro htake
            have := congrArg List.length htake
            simp only [List.length_take, List.length_nil] at this
            omega
        simp [hshort, hk']

/-! ## Reading a whole text -/

/-- The tokens that a text is read as, if all of it can be read. -/
inductive Lexes : List Char → List Lexeme → Prop where
  | nil : Lexes [] []
  | cons {w rest : List Char} {k : Kind} {n : Nat} {ls : List Lexeme} :
      longest rules (w ++ rest) = some (k, n) → w.length = n + 1 → Lexes rest ls →
      Lexes (w ++ rest) (⟨k, .ofList w⟩ :: ls)

lemma scanFrom_drop (p : Position) (n : Nat) (cs : List Char) :
    scanFrom p n cs = scanFrom p 0 (cs.drop n) := by
  induction cs generalizing n with
  | nil => rw [List.drop_nil, scanFrom, scanFrom]
  | cons c cs ih =>
    cases n with
    | zero => rfl
    | succ n => rw [scanFrom, List.drop_succ_cons, ih]

theorem scanFrom_of_lexes {cs : List Char} {ls : List Lexeme} (h : Lexes cs ls) (p : Position) :
    ∃ us q, scanFrom p 0 cs = ⟨us ++ [.ending q], none⟩ ∧ us.map (·.toLexeme) = ls := by
  induction h generalizing p with
  | nil => exact ⟨[], p, by rw [scanFrom]; rfl, rfl⟩
  | @cons w rest k n ls hk hn _ ih =>
    obtain ⟨c, w, rfl⟩ := List.exists_cons_of_length_eq_add_one hn
    have hlen : w.length = n := by simpa using hn
    have htake : (w ++ rest).take n = w := by simp [← hlen]
    have hdrop : (w ++ rest).drop n = rest := by simp [← hlen]
    rw [List.cons_append] at hk ⊢
    obtain ⟨us, q, hscan, hus⟩ := ih (p.advance (c :: w))
    refine ⟨⟨⟨k, .ofList (c :: w)⟩, p⟩ :: us, q, ?_, by simp [hus]⟩
    simp only [scanFrom, hk, htake]
    rw [scanFrom_drop, hdrop, hscan]
    rfl

theorem exists_lexes {p : Position} {n : Nat} {cs : List Char} (h : (scanFrom p n cs).fault = none) :
    ∃ ls, Lexes (cs.drop n) ls := by
  induction p, n, cs using scanFrom.induct with
  | case1 p n => exact ⟨[], by simpa using Lexes.nil⟩
  | case2 p n c cs ih =>
    rw [scanFrom] at h
    exact ih h
  | case3 p c cs hnone => simp [scanFrom, hnone] at h
  | case4 p c cs k n hk text =>
    rename_i ih
    simp only [scanFrom, hk] at h
    obtain ⟨ls, hls⟩ := ih h
    obtain ⟨hlen, -⟩ := longest_sound hk
    have hsplit : c :: cs = (c :: cs.take n) ++ cs.drop n := by simp
    refine ⟨⟨k, .ofList (c :: cs.take n)⟩ :: ls, ?_⟩
    rw [List.drop_zero, hsplit]
    exact .cons (hsplit ▸ hk) (by simp at hlen ⊢; omega) hls

/-- Only where all of a text has been read there is a token for its end. -/
lemma fault_of_eof {p : Position} {n : Nat} {cs : List Char} {t : Token}
    (h : t ∈ (scanFrom p n cs).tokens) (ht : t.kind = .eof) : (scanFrom p n cs).fault = none := by
  induction p, n, cs using scanFrom.induct with
  | case1 p n => rw [scanFrom]
  | case2 p n c cs ih =>
    rw [scanFrom] at h ⊢
    exact ih h
  | case3 p c cs hnone => simp [scanFrom, hnone] at h
  | case4 p c cs k n hk text =>
    rename_i ih
    simp only [scanFrom, hk, List.mem_cons] at h ⊢
    rcases h with rfl | h
    · exact absurd ht (longest_rules_spelled hk).kind_ne_eof
    · exact ih h

/-! ## Tokens that a text is cut into -/

namespace Lexes

variable {cs : List Char} {ls : List Lexeme}

lemma spelled (h : Lexes cs ls) : ∀ l ∈ ls, l.Spelled := by
  induction h with
  | nil => simp
  | @cons w rest k n ls hk hn _ ih =>
    obtain ⟨c, w, rfl⟩ := List.exists_cons_of_length_eq_add_one hn
    have hlen : w.length = n := by simpa using hn
    have hspelled : Lexeme.Spelled ⟨k, .ofList (c :: (w ++ rest).take n)⟩ := longest_rules_spelled hk
    simp only [← hlen, List.take_left] at hspelled
    intro l hl
    rcases List.mem_cons.1 hl with rfl | hl
    · exact hspelled
    · exact ih l hl

end Lexes

end Lexer

/-- No two tokens of white space stand side by side. -/
def Spaced (ls : List Lexeme) : Prop :=
  ls.IsChain fun a b => ¬(a.kind = .space ∧ b.kind = .space)

section Spaced

variable {k ls : List Lexeme}

lemma Spaced.left (h : Spaced (k ++ ls)) : Spaced k := List.IsChain.left_of_append h

lemma Spaced.right (h : Spaced (k ++ ls)) : Spaced ls := List.IsChain.right_of_append h

end Spaced

/-- White space goes on as far as it can. -/
theorem Lexer.Lexes.spaced {cs : List Char} {ls : List Lexeme} (h : Lexes cs ls) : Spaced ls := by
  induction h with
  | nil => exact List.IsChain.nil
  | @cons w rest k n ls hk hn hrest ih =>
    cases hrest with
    | nil => exact List.IsChain.singleton _
    | @cons w' rest' k' n' ls' hk' hn' hrest' =>
      refine List.isChain_cons_cons.2 ⟨?_, ih⟩
      rintro ⟨rfl, rfl⟩
      have hspelled := (Lexes.cons hk hn (.cons hk' hn' hrest')).spelled
      have hw : Kind.space.regex.Matches w := by
        simpa [Lexeme.Spelled] using hspelled _ List.mem_cons_self
      have hw' : Kind.space.regex.Matches w' := by
        simpa [Lexeme.Spelled] using hspelled _ (List.mem_cons_of_mem _ List.mem_cons_self)
      obtain ⟨hne, hblank⟩ := matches_some_one_iff.1 hw
      have hboth : Kind.space.regex.Matches (w ++ w') :=
        matches_some_one_iff.2
          ⟨by simp [hne], List.forall_mem_append.2 ⟨hblank, (matches_some_one_iff.1 hw').2⟩⟩
      have hrule : (Kind.space, Kind.space.regex) ∈ rules :=
        List.mem_map.2 ⟨.space, by decide, rfl⟩
      obtain ⟨k, m, hlongest, hlen⟩ := longest_maximal hrule hboth (by simp [hne]) rest'
      rw [List.append_assoc, hk] at hlongest
      cases hlongest
      rw [List.length_append] at hlen
      omega

end MapFilter
