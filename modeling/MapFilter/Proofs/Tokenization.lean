import MapFilter.Proofs.Scanning

/-!
# Tokens and their places

The token in front of a text is the longest beginning of it that any rule matches, and the first
rule that matches this beginning names its kind. Reading goes on from there, so the place of a token
is known from the text before it. Where no rule matches anything, the shortest beginning that no
token has is what could not be read; to see this, an expression must be known to be viable only if
some text completes it.
-/

namespace MapFilter

open Regex

/-! ## Expressions that can be completed -/

namespace Regex

/-- Every class of characters in an expression has a member. -/
def Populated : Regex → Prop
  | .never | .nothing => True
  | .one p => ∃ c, p c = true
  | .seq r s | .alt r s => r.Populated ∧ s.Populated
  | .many r => r.Populated

variable {r s : Regex}

lemma Populated.cat (hr : r.Populated) (hs : s.Populated) : (cat r s).Populated := by
  cases r with
  | never => trivial
  | nothing => exact hs
  | one | seq | alt | many => exact ⟨hr, hs⟩

lemma Populated.union (hr : r.Populated) (hs : s.Populated) : (union r s).Populated := by
  cases r with
  | never => exact hs
  | nothing | one | seq | alt | many =>
    cases s with
    | never => exact hr
    | nothing | one | seq | alt | many => exact ⟨hr, hs⟩

lemma Populated.deriv (h : r.Populated) (c : Char) : (r.deriv c).Populated := by
  induction r with
  | never | nothing => trivial
  | one p =>
    rw [Regex.deriv]
    split <;> trivial
  | seq r s ihr ihs =>
    have hcat := (ihr h.1).cat h.2
    rw [Regex.deriv]
    split
    · exact hcat.union (ihs h.2)
    · exact hcat
  | alt r s ihr ihs => exact (ihr h.1).union (ihs h.2)
  | many r ih => exact (ih h).cat h

/-- A viable expression stands for some text. -/
theorem Populated.viable_iff (h : r.Populated) : r.viable = true ↔ ∃ w, r.Matches w := by
  refine ⟨fun hv => ?_, fun ⟨w, hw⟩ => hw.viable⟩
  induction r with
  | never => cases hv
  | nothing => exact ⟨[], .nothing⟩
  | one p =>
    obtain ⟨c, hc⟩ := h
    exact ⟨[c], .one hc⟩
  | seq r s ihr ihs =>
    rw [viable, Bool.and_eq_true] at hv
    obtain ⟨u, hu⟩ := ihr h.1 hv.1
    obtain ⟨v, hv⟩ := ihs h.2 hv.2
    exact ⟨u ++ v, .seq hu hv⟩
  | alt r s ihr ihs =>
    rw [viable, Bool.or_eq_true] at hv
    rcases hv with hv | hv
    · obtain ⟨u, hu⟩ := ihr h.1 hv
      exact ⟨u, .left hu⟩
    · obtain ⟨u, hu⟩ := ihs h.2 hv
      exact ⟨u, .right hu⟩
  | many r => exact ⟨[], .none⟩

lemma populated_word (t : String) : (word t).Populated := by
  rw [word]
  induction t.toList with
  | nil => trivial
  | cons c cs ih => exact ⟨⟨c, beq_self_eq_true c⟩, ih⟩

lemma populated_any {rs : List Regex} (h : ∀ r ∈ rs, r.Populated) : (any rs).Populated := by
  rw [any]
  induction rs with
  | nil => trivial
  | cons r rs ih => exact ⟨h r (by simp), ih fun r hr => h r (by simp [hr])⟩

end Regex

namespace Spelling

lemma digits_populated : digits.Populated := ⟨⟨'0', rfl⟩, ⟨'0', rfl⟩⟩

lemma objectType_populated : objectType.Populated := by
  refine populated_any ?_
  simp [populated_word]

lemma geometryType_populated : geometryType.Populated := by
  refine populated_any ?_
  simp [populated_word]

lemma quotedChar_populated : quotedChar.Populated :=
  ⟨⟨'a', rfl⟩, ⟨'\\', rfl⟩, ⟨'"', rfl⟩⟩

end Spelling

lemma Kind.populated_regex (k : Kind) : k.regex.Populated := by
  cases k with
  | eof => trivial
  | objectType => exact Spelling.objectType_populated
  | objectId => exact ⟨Spelling.objectType_populated, ⟨'/', rfl⟩, Spelling.digits_populated⟩
  | geometryType => exact Spelling.geometryType_populated
  | number => exact Spelling.digits_populated
  | decimal =>
    exact ⟨Spelling.digits_populated, ⟨trivial, ⟨'.', rfl⟩, Spelling.digits_populated⟩, trivial,
      ⟨'E', rfl⟩, Spelling.digits_populated⟩
  | word => exact ⟨⟨'a', rfl⟩, ⟨'a', rfl⟩⟩
  | quoted =>
    exact ⟨⟨'"', rfl⟩, ⟨Spelling.quotedChar_populated, Spelling.quotedChar_populated⟩, ⟨'"', rfl⟩⟩
  | space => exact ⟨⟨' ', rfl⟩, ⟨' ', rfl⟩⟩
  | _ => exact populated_word _

/-! ## The token in front -/

/-- The token in front of a text is as long as any rule allows, and of the kinds that are spelt like
it the one that is listed first. -/
structure IsFront (cs : List Char) (k : Kind) (w : List Char) : Prop where
  ne_nil : w ≠ []
  begins : w <+: cs
  spelt : k.regex.Matches w
  longest : ∀ (k' : Kind) (v : List Char), v <+: cs → k'.regex.Matches v → v.length ≤ w.length
  first : ∃ us vs, Kind.all = us ++ k :: vs ∧ ∀ k' ∈ us, ¬k'.regex.Matches w

/-- A text that some token begins with. -/
def BeginsToken (w : List Char) : Prop := ∃ (k : Kind) (v : List Char), k.regex.Matches (w ++ v)

/-- The shortest beginning of a text that begins no token, or all of the text if there is none. -/
def IsUnread (cs w : List Char) : Prop :=
  (w <+: cs ∧ ¬BeginsToken w ∧ ∀ v, v <+: cs → ¬BeginsToken v → w.length ≤ v.length) ∨
    ((∀ v, v <+: cs → BeginsToken v) ∧ w = cs)

namespace Lexer

variable {rs : Rules} {c : Char} {cs w : List Char} {k : Kind} {n : Nat}

lemma mem_rules_iff {r : Regex} : (k, r) ∈ rules ↔ r = k.regex := by
  refine ⟨mem_rules, ?_⟩
  rintro rfl
  exact List.mem_map.2 ⟨k, by cases k <;> decide, rfl⟩

lemma after_cons (x : Kind × Regex) (rs : Rules) (c : Char) : Rules.after (x :: rs) c =
    if (x.2.deriv c).viable then (x.1, x.2.deriv c) :: rs.after c else rs.after c := by
  simp only [Rules.after, List.map_cons, List.filter_cons]

/-- Taking a character off the front leaves the rules in their order. -/
lemma after_eq_append {us vs : Rules} {r : Regex} (h : rs.after c = us ++ (k, r) :: vs) :
    ∃ us' r' vs', rs = us' ++ (k, r') :: vs' ∧ Rules.after us' c = us ∧ r = r'.deriv c := by
  induction rs generalizing us with
  | nil => simp [Rules.after] at h
  | cons x rs ih =>
    rw [after_cons] at h
    split at h
    · next hv =>
      cases us with
      | nil =>
        cases h
        exact ⟨[], x.2, rs, rfl, rfl, rfl⟩
      | cons u us =>
        obtain ⟨rfl, hrest⟩ := List.cons.inj h
        obtain ⟨us', r', vs', rfl, rfl, rfl⟩ := ih hrest
        exact ⟨x :: us', r', vs', rfl, by rw [after_cons, if_pos hv], rfl⟩
    · next hv =>
      obtain ⟨us', r', vs', rfl, rfl, rfl⟩ := ih h
      exact ⟨x :: us', r', vs', rfl, by rw [after_cons, if_neg hv], rfl⟩

/-- A rule that matches more than the character `c` is still there after it. -/
lemma matches_of_after {us : Rules} (h : ∀ x ∈ us.after c, ¬x.2.Matches w) :
    ∀ x ∈ us, ¬x.2.Matches (c :: w) := by
  intro x hx hm
  have hm' := matches_deriv_iff.2 hm
  exact h (x.1, x.2.deriv c) (mem_after_iff.2 ⟨⟨x.2, hx, rfl⟩, hm'.viable⟩) hm'

/-- No rule before the one that names the kind of a token matches the token. -/
theorem longest_first (h : longest rs cs = some (k, n)) :
    ∃ us r vs, rs = us ++ (k, r) :: vs ∧ ∀ x ∈ us, ¬x.2.Matches (cs.take (n + 1)) := by
  induction cs generalizing rs n with
  | nil => cases h
  | cons c cs ih =>
    rw [List.take_succ_cons]
    have hback : ∀ {us r vs}, rs.after c = us ++ (k, r) :: vs →
        (∀ x ∈ us, ¬x.2.Matches (cs.take n)) →
        ∃ us r vs, rs = us ++ (k, r) :: vs ∧ ∀ x ∈ us, ¬x.2.Matches (c :: cs.take n) := by
      intro us r vs hafter hus
      obtain ⟨us', r', vs', rfl, rfl, -⟩ := after_eq_append hafter
      exact ⟨us', r', vs', rfl, matches_of_after hus⟩
    simp only [longest] at h
    split at h
    · cases h
    · split at h
      · next k' m hm =>
        cases h
        obtain ⟨us, r, vs, hafter, hus⟩ := ih hm
        exact hback hafter hus
      · obtain ⟨k', hcomplete, heq⟩ := Option.map_eq_some_iff.1 h
        cases heq
        obtain ⟨x, hfind, rfl⟩ := Option.map_eq_some_iff.1 hcomplete
        obtain ⟨-, us, vs, hafter, hus⟩ := List.find?_eq_some_iff_append.1 hfind
        refine hback hafter fun y hy hm => ?_
        have hnot := hus y hy
        simp [nullable_iff.2 hm] at hnot

/-- There is a token in front of a text if and only if some rule matches a beginning of it. -/
lemma longest_eq_none_iff :
    longest rs cs = none ↔ ∀ x ∈ rs, ∀ w, w ≠ [] → w <+: cs → ¬x.2.Matches w := by
  constructor
  · rintro hnone x hx w hne ⟨rest, rfl⟩ hm
    obtain ⟨k', n, hsome, -⟩ := longest_maximal hx hm hne rest
    rw [hnone] at hsome
    cases hsome
  · intro h
    cases hl : longest rs cs with
    | none => rfl
    | some q =>
      obtain ⟨hlen, r, hr, hm⟩ := longest_sound (k := q.1) (n := q.2) hl
      refine absurd hm (h _ hr _ ?_ (List.take_prefix _ _))
      intro hnil
      have := congrArg List.length hnil
      simp only [List.length_take, List.length_nil] at this
      omega

theorem isFront_of_longest (h : longest rules cs = some (k, n)) :
    IsFront cs k (cs.take (n + 1)) := by
  obtain ⟨hlen, r, hr, hm⟩ := longest_sound h
  have hwidth : (cs.take (n + 1)).length = n + 1 := by
    rw [List.length_take]
    omega
  refine ⟨?_, List.take_prefix _ _, mem_rules hr ▸ hm, ?_, ?_⟩
  · exact List.ne_nil_of_length_eq_add_one hwidth
  · rintro k' v ⟨rest, rfl⟩ hv
    by_cases hne : v = []
    · simp [hne]
    · obtain ⟨k'', m, hm, hle⟩ := longest_maximal (mem_rules_iff.2 rfl) hv hne rest
      rw [h] at hm
      cases hm
      omega
  · obtain ⟨us, r, vs, hrules, hus⟩ := longest_first h
    obtain ⟨us', vs', hall, rfl, hvs⟩ := List.map_eq_append_iff.1 hrules
    obtain ⟨k', vs'', rfl, hk', -⟩ := List.map_eq_cons_iff.1 hvs
    cases hk'
    exact ⟨us', vs'', hall, fun k' hk' => hus _ (List.mem_map_of_mem hk')⟩

/-! ## What cannot be read -/

/-- A text that a token of some of the rules begins with. -/
def Rules.Begins (rs : Rules) (w : List Char) : Prop := ∃ x ∈ rs, ∃ v, x.2.Matches (w ++ v)

lemma begins_rules_iff : rules.Begins w ↔ BeginsToken w := by
  constructor
  · rintro ⟨x, hx, v, hm⟩
    exact ⟨x.1, v, mem_rules hx ▸ hm⟩
  · rintro ⟨k, v, hm⟩
    exact ⟨(k, k.regex), mem_rules_iff.2 rfl, v, hm⟩

lemma populated_after (h : ∀ x ∈ rs, x.2.Populated) : ∀ x ∈ rs.after c, x.2.Populated := by
  intro x hx
  obtain ⟨⟨r, hr, heq⟩, -⟩ := mem_after_iff.1 hx
  rw [heq]
  exact (h _ hr).deriv c

lemma begins_cons_iff : rs.Begins (c :: w) ↔ (rs.after c).Begins w := by
  constructor
  · rintro ⟨x, hx, v, hm⟩
    have hm' := matches_deriv_iff.2 hm
    exact ⟨(x.1, x.2.deriv c), mem_after_iff.2 ⟨⟨x.2, hx, rfl⟩, hm'.viable⟩, v, hm'⟩
  · rintro ⟨x, hx, v, hm⟩
    obtain ⟨⟨r, hr, heq⟩, -⟩ := mem_after_iff.1 hx
    rw [heq] at hm
    exact ⟨(x.1, r), hr, v, matches_deriv_iff.1 hm⟩

/-- Where rules are left, each of them can be completed. -/
lemma begins_nil (h : ∀ x ∈ rs, x.2.Populated) (hne : (rs.after c).isEmpty = false) :
    (rs.after c).Begins [] := by
  obtain ⟨x, hx⟩ := List.exists_mem_of_ne_nil _ (by simpa using hne)
  obtain ⟨v, hv⟩ := (populated_after h x hx).viable_iff.1 (mem_after_iff.1 hx).2
  exact ⟨x, hx, v, hv⟩

/-- The shortest beginning of a text that no rule can complete, or all of it. -/
lemma unread_cases (h : ∀ x ∈ rs, x.2.Populated) (hrs : rs.Begins []) (cs : List Char) :
    (unread rs cs <+: cs ∧ ¬rs.Begins (unread rs cs) ∧
      ∀ v, v <+: cs → ¬rs.Begins v → (unread rs cs).length ≤ v.length) ∨
    ((∀ v, v <+: cs → rs.Begins v) ∧ unread rs cs = cs) := by
  induction cs generalizing rs with
  | nil =>
    right
    refine ⟨fun v hv => ?_, rfl⟩
    rwa [List.prefix_nil.1 hv]
  | cons c cs ih =>
    rw [unread]
    cases hempty : (rs.after c).isEmpty with
    | true =>
      left
      have hnone : ∀ w, ¬rs.Begins (c :: w) := by
        intro w hw
        obtain ⟨x, hx, -⟩ := begins_cons_iff.1 hw
        rw [List.isEmpty_iff.1 hempty] at hx
        cases hx
      refine ⟨by simp, hnone [], fun v _ hv => ?_⟩
      cases v with
      | nil => exact absurd hrs hv
      | cons d v => simp
    | false =>
      have hbegins := begins_nil h hempty
      simp only [Bool.false_eq_true, if_false]
      rcases ih (populated_after h) hbegins with ⟨hle, hnot, hshort⟩ | ⟨hall, heq⟩
      · left
        refine ⟨(List.prefix_cons_inj c).2 hle, mt begins_cons_iff.1 hnot, fun v hv hb => ?_⟩
        cases v with
        | nil => exact absurd hrs hb
        | cons d v =>
          obtain ⟨rfl, hvs⟩ := List.cons_prefix_cons.1 hv
          simpa using hshort v hvs (mt begins_cons_iff.2 hb)
      · right
        refine ⟨fun v hv => ?_, by rw [heq]⟩
        cases v with
        | nil => exact hrs
        | cons d v =>
          obtain ⟨rfl, hvs⟩ := List.cons_prefix_cons.1 hv
          exact begins_cons_iff.2 (hall v hvs)

theorem isUnread_unread (cs : List Char) : IsUnread cs (unread rules cs) := by
  have hpopulated : ∀ x ∈ rules, x.2.Populated := by
    intro x hx
    rw [mem_rules hx]
    exact x.1.populated_regex
  have hbegins : rules.Begins [] :=
    begins_rules_iff.2 ⟨.star, ['*'], by simp [Kind.regex, Kind.spelling?, matches_word_iff]⟩
  have hcases := unread_cases hpopulated hbegins cs
  simp only [begins_rules_iff] at hcases
  exact hcases

end Lexer

/-! ## Places -/

namespace Position

/-- The place after a text. A line begins after each line feed. -/
def after (cs : List Char) : Position :=
  ⟨1 + cs.count '\n', (cs.reverse.takeWhile (· != '\n')).length, cs.length⟩

lemma next_after (cs : List Char) (c : Char) : (after cs).next c = after (cs ++ [c]) := by
  by_cases hc : c = '\n'
  · simp [next, after, hc, Nat.add_assoc]
  · simp [next, after, hc]

lemma advance_after (cs w : List Char) : (after cs).advance w = after (cs ++ w) := by
  induction w generalizing cs with
  | nil => simp [advance]
  | cons c w ih =>
    have hstep : (after cs).advance (c :: w) = ((after cs).next c).advance w := rfl
    rw [hstep, next_after, ih, List.append_assoc]
    rfl

end Position

/-! ## Reading a whole text -/

/-- The text that tokens have been read from. -/
def textOf (ts : List Token) : List Char := ts.flatMap (·.text.toList)

/-- Reading a text that comes after the text `before`: to its end, or up to a place where no token
begins. -/
inductive Scans : List Char → List Char → Lexing → Prop where
  | ending (before : List Char) : Scans before [] ⟨[.ending (.after before)], none⟩
  | token {before w rest : List Char} {k : Kind} {l : Lexing} :
      IsFront (w ++ rest) k w → Scans (before ++ w) rest l →
      Scans before (w ++ rest) ⟨⟨⟨k, .ofList w⟩, .after before⟩ :: l.tokens, l.fault⟩
  | stuck {before rest w : List Char} : rest ≠ [] →
      (∀ (k : Kind) v, v ≠ [] → v <+: rest → ¬k.regex.Matches v) → IsUnread rest w →
      Scans before rest ⟨[], some ⟨.after before, .ofList w⟩⟩

theorem Lexer.scans_scanFrom {p : Position} {n : Nat} {cs before : List Char}
    (hp : p = .after before) : Scans before (cs.drop n) (scanFrom p n cs) := by
  induction p, n, cs using scanFrom.induct generalizing before with
  | case1 p n =>
    rw [List.drop_nil, scanFrom, hp]
    exact .ending before
  | case2 p n c cs ih =>
    rw [List.drop_succ_cons, scanFrom]
    exact ih hp
  | case3 p c cs hnone =>
    simp only [scanFrom, hnone, hp]
    refine .stuck (by simp) (fun k v hne hv => ?_) (isUnread_unread _)
    exact longest_eq_none_iff.1 hnone (k, k.regex) (mem_rules_iff.2 rfl) v hne hv
  | case4 p c cs k n hk text =>
    rename_i ih
    have hsplit : c :: cs = text ++ cs.drop n := by simp [text]
    have hfront : IsFront (c :: cs) k text := isFront_of_longest hk
    have hrest : Scans (before ++ text) (cs.drop n) (scanFrom (p.advance text) n cs) := by
      apply ih
      rw [hp, Position.advance_after]
    rw [hsplit] at hfront
    have htoken := Scans.token hfront hrest
    rw [← hsplit] at htoken
    simp only [scanFrom, hk]
    rw [hp] at htoken ⊢
    exact htoken

namespace Scans

variable {before rest : List Char} {l : Lexing}

/-- Every token is in front of what is left after the tokens before it. -/
lemma isFront (h : Scans before rest l) {us vs : List Token} {t : Token}
    (hl : l.tokens = us ++ t :: vs) (ht : t.kind ≠ .eof) :
    ∃ cs, rest = textOf us ++ cs ∧ IsFront cs t.kind t.text.toList ∧
      t.place = .after (before ++ textOf us) := by
  induction h generalizing us with
  | ending before =>
    cases us with
    | nil =>
      cases hl
      exact absurd rfl ht
    | cons u us => simp at hl
  | @token before w rest k l hfront _ ih =>
    cases us with
    | nil =>
      cases hl
      exact ⟨w ++ rest, rfl, by simpa using hfront, by simp [textOf]⟩
    | cons u us =>
      obtain ⟨rfl, hrest⟩ := List.cons.inj hl
      obtain ⟨cs, rfl, hcs, hplace⟩ := ih hrest
      refine ⟨cs, by simp [textOf], hcs, ?_⟩
      rw [hplace]
      simp [textOf]
  | stuck => simp at hl

/-- Reading ends where the text does, or where no token begins. -/
lemma ends (h : Scans before rest l) :
    (∃ us, l = ⟨us ++ [.ending (.after (before ++ rest))], none⟩ ∧ (∀ u ∈ us, u.kind ≠ .eof) ∧
      textOf us = rest) ∨
    ∃ us e cs, l = ⟨us, some e⟩ ∧ (∀ u ∈ us, u.kind ≠ .eof) ∧ rest = textOf us ++ cs ∧ cs ≠ [] ∧
      (∀ (k : Kind) v, v ≠ [] → v <+: cs → ¬k.regex.Matches v) ∧
      e.place = .after (before ++ textOf us) ∧ IsUnread cs e.text.toList := by
  induction h with
  | ending before => exact .inl ⟨[], by simp, by simp, rfl⟩
  | @token before w rest k l hfront _ ih =>
    have hk : k ≠ .eof := Lexeme.Spelled.kind_ne_eof (l := ⟨k, .ofList w⟩) (by
      simpa [Lexeme.Spelled] using hfront.spelt)
    rcases ih with ⟨us, rfl, hus, rfl⟩ | ⟨us, e, cs, rfl, hus, rfl, hne, hstuck, hplace, hunread⟩
    · exact .inl ⟨⟨⟨k, .ofList w⟩, .after before⟩ :: us, by simp,
        List.forall_mem_cons.2 ⟨hk, hus⟩, by simp [textOf]⟩
    · exact .inr ⟨⟨⟨k, .ofList w⟩, .after before⟩ :: us, e, cs, rfl,
        List.forall_mem_cons.2 ⟨hk, hus⟩, by simp [textOf], hne, hstuck,
        by simpa [textOf] using hplace, hunread⟩
  | @stuck before rest w hne hstuck hunread =>
    exact .inr ⟨[], ⟨.after before, .ofList w⟩, rest, rfl, by simp, rfl, hne, hstuck,
      by simp [textOf], by simpa using hunread⟩

end Scans

/-- Every token is the longest beginning of what is left of the text that any rule matches, its kind
is the first one that is spelt so, and its place is told by the text before it. Either the tokens are
all of the text and the token for the end comes after them, or they stop at the first place where no
rule matches anything: then the characters that could not be read are the shortest beginning of the
rest that begins no token, or all of it. -/
theorem scan_longest_first (s : String) :
    (∀ us t vs, (scan s).tokens = us ++ t :: vs → t.kind ≠ .eof →
      ∃ rest, s.toList = textOf us ++ rest ∧ IsFront rest t.kind t.text.toList ∧
        t.place = .after (textOf us)) ∧
    ((∃ us, scan s = ⟨us ++ [.ending (.after s.toList)], none⟩ ∧ (∀ u ∈ us, u.kind ≠ .eof) ∧
      textOf us = s.toList) ∨
    ∃ us e rest, scan s = ⟨us, some e⟩ ∧ (∀ u ∈ us, u.kind ≠ .eof) ∧
      s.toList = textOf us ++ rest ∧ rest ≠ [] ∧
      (∀ (k : Kind) w, w ≠ [] → w <+: rest → ¬k.regex.Matches w) ∧
      e.place = .after (textOf us) ∧ IsUnread rest e.text.toList) := by
  have hscans : Scans [] s.toList (scan s) := Lexer.scans_scanFrom (n := 0) rfl
  exact ⟨fun us t vs htokens ht => hscans.isFront htokens ht, hscans.ends⟩

/-- After the first dot, reading goes back to the number before it. -/
example : (scan "1..5").tokens.map (·.kind) = [.number, .dots, .number, .eof] := by decide +kernel

end MapFilter
