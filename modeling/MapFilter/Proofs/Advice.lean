import MapFilter.Proofs.DecimalText
import MapFilter.Proofs.Events
import MapFilter.Proofs.Renumbering
import MapFilter.Proofs.Unquoted

/-!
# Advice on swapped bounds

A range that ends before it begins is refused, and the message shows the range with its bounds
swapped. The bounds are shown as numbers are printed, not as they were written. If this leaves out
the exponent, the range shown is read as the same two numbers and can be put in the place of the one
refused. A printed exponent has a sign, which no number in a filter has, and `inf` is none either:
either way a word or nothing at all is read there, and words stand only in filters of tags.
-/

namespace MapFilter

open Compiler

/-! ## Tokens of bounds -/

/-- The texts of bounds. -/
def Grain.Spells : Grain → List Char → Prop
  | .whole => IsDigits
  | .decimal => IsDecimal

section Bounds

variable {a : List Char}

lemma Grain.Spells.isDecimal {g : Grain} (h : g.Spells a) : IsDecimal a := by
  cases g with
  | whole => exact IsDigits.isDecimal h
  | decimal => exact h

lemma Lexeme.Spelled.spells {g : Grain} {l : Lexeme} (h : l.Spelled)
    (hl : g.isBound l.kind = true) : g.Spells l.text.toList := by
  obtain ⟨k, t⟩ := l
  cases g with
  | whole =>
    obtain rfl : k = .number := beq_iff_eq.1 hl
    exact spelled_number_iff.1 h
  | decimal => exact h.isDecimal (by simpa [Grain.isBound] using hl)

lemma IsDecimal.exists_digit (h : IsDecimal a) : ∃ c cs, a = c :: cs ∧ c.isDigit = true := by
  obtain @⟨whole, fraction, exponent, hwhole, -, -⟩ := h
  obtain ⟨c, whole, rfl⟩ := List.exists_cons_of_ne_nil hwhole.1
  exact ⟨c, _, rfl, hwhole.2 c List.mem_cons_self⟩

/-- A number does not go on with the dots of a range. -/
lemma IsDecimal.not_append_dots (ha : IsDecimal a) {v : List Char} (hv : ∀ c ∈ v.head?, c = '.') :
    ¬IsDecimal (a ++ '.' :: v) := by
  intro h
  cases v with
  | nil =>
    obtain ⟨u, ds, heq, hds⟩ := h.ends_with_digits
    obtain ⟨ds, d, rfl⟩ := (List.eq_nil_or_concat' ds).resolve_left hds.1
    rw [← List.append_assoc] at heq
    obtain ⟨-, hd⟩ := List.append_inj' heq rfl
    have hdigit := hds.2 d (by simp)
    rw [← (List.cons.inj hd).1] at hdigit
    cases hdigit
  | cons c v =>
    obtain rfl : c = '.' := hv c rfl
    have hone := Bounds.splitDots_decimal (v := []) (by simp) h
    rw [List.nil_append, Bounds.splitDots_decimal_append ha, Bounds.splitDots_dots] at hone
    simp [Bounds.splitDots_ne_nil] at hone

lemma not_matches_over_dots (ha : IsDecimal a) {v : List Char} (hv : ∀ c ∈ v.head?, c = '.')
    (k : Kind) : ¬k.regex.Matches (a ++ '.' :: v) := by
  intro hm
  obtain ⟨c, cs, rfl, hc⟩ := ha.exists_digit
  rcases kind_of_isDigit hm hc with rfl | rfl | rfl
  · exact IsDigits.no_dot (Regex.matches_some_one_iff.1 hm) (by simp)
  · exact ha.not_append_dots hv (matches_decimal_iff.1 hm)
  · have hdot := (Regex.matches_some_one_iff.1 hm).2 '.' (by simp)
    cases hdot

end Bounds

namespace Lexer

variable {a b rest y : List Char} {ls : List Lexeme} {g : Grain}

/-- A bound is read as one token at the end of a text and before dots. -/
lemma Lexes.bound (ha : g.Spells a) (h : Lexes rest ls)
    (hrest : rest = [] ∨ ∃ z, rest = '.' :: '.' :: z) :
    ∃ k, g.isBound k = true ∧ Lexes (a ++ rest) (⟨k, .ofList a⟩ :: ls) := by
  have hdecimal := ha.isDecimal
  obtain ⟨c, cs, hcs, hc⟩ := hdecimal.exists_digit
  have hover : ∀ c v, c :: v <+: rest → ∀ k : Kind, ¬k.regex.Matches (a ++ c :: v) := by
    rintro c v ⟨z, rfl⟩
    rcases hrest with hnil | ⟨z', hdots⟩
    · cases hnil
    · obtain ⟨rfl, hv⟩ := List.cons.inj hdots
      refine not_matches_over_dots hdecimal ?_
      cases v with
      | nil => simp
      | cons d v => simp [(List.cons.inj hv).1]
  obtain ⟨k, n, hlongest, hlen⟩ :=
    exists_front (matches_decimal_iff.2 hdecimal) (by simp [hcs]) hover
  have hfront := isFront_of_longest hlongest
  rw [← hlen, List.take_left] at hfront
  refine ⟨k, ?_, .cons hlongest hlen h⟩
  have hspelt := hfront.spelt
  rw [hcs] at hspelt
  rcases kind_of_isDigit hspelt hc with rfl | rfl | rfl
  · cases g <;> rfl
  · cases g with
    | whole =>
      exact absurd (Regex.matches_some_one_iff.2 ha)
        (hfront.not_matches (j := .number) (by decide) (by decide))
    | decimal => rfl
  · exact absurd (matches_decimal_iff.2 hdecimal)
      (hfront.not_matches (j := .decimal) (by decide) (by decide))

lemma Lexes.dots (h : Lexes rest ls) : Lexes ('.' :: '.' :: rest) (⟨.dots, ".."⟩ :: ls) := by
  refine h.fixed ".." (n := 1) ?_ rfl
  cases rest <;> rfl

/-- Two bounds with dots between them. -/
lemma Lexes.bounds (ha : g.Spells a) (hb : g.Spells b) :
    ∃ k k', g.isBound k = true ∧ g.isBound k' = true ∧
      Lexes (a ++ '.' :: '.' :: b) [⟨k, .ofList a⟩, ⟨.dots, ".."⟩, ⟨k', .ofList b⟩] := by
  obtain ⟨k', hk', hlexes⟩ := Lexes.nil.bound hb (.inl rfl)
  rw [List.append_nil] at hlexes
  obtain ⟨k, hk, hlexes⟩ := hlexes.dots.bound ha (.inr ⟨b, rfl⟩)
  exact ⟨k, k', hk, hk', hlexes⟩

/-! ## Around a parenthesis -/

variable {k : Kind} {n : Nat} {w x : List Char} {us ms : List Lexeme}

lemma Lexes.cons_iff (hk : longest rules (w ++ rest) = some (k, n)) (hn : w.length = n + 1) :
    Lexes (w ++ rest) ms ↔ ∃ ms', ms = ⟨k, .ofList w⟩ :: ms' ∧ Lexes rest ms' := by
  constructor
  · intro h
    generalize hcs : w ++ rest = cs at h
    cases h with
    | nil =>
      rw [(List.append_eq_nil_iff.1 hcs).1] at hn
      cases hn
    | @cons w' rest' k' n' ms hk' hn' hrest =>
      rw [← hcs, hk] at hk'
      cases hk'
      obtain ⟨rfl, rfl⟩ := List.append_inj hcs (hn.trans hn'.symm)
      exact ⟨ms, rfl, hrest⟩
  · rintro ⟨ms', rfl, h⟩
    exact .cons hk hn h

lemma Lexes.of_cons {l : Lexeme} (h : Lexes (l.text.toList ++ rest) (l :: ls)) :
    ∃ n, longest rules (l.text.toList ++ rest) = some (l.kind, n) ∧
      l.text.toList.length = n + 1 ∧ Lexes rest ls := by
  generalize hcs : l.text.toList ++ rest = cs at h
  cases h with
  | @cons w rest' k n _ hk hn hrest =>
    rw [String.toList_ofList] at hcs ⊢
    rw [List.append_cancel_left hcs]
    exact ⟨n, hk, hn, hrest⟩

/-- Of two texts with the same tokens before a parenthesis, only what comes after it matters. -/
lemma Lexes.before_lparen_iff (h : Lexes (us.flatMap (·.text.toList) ++ x) (us ++ ls)) :
    Lexes (us.flatMap (·.text.toList) ++ '(' :: y) ms ↔
      ∃ ms', ms = us ++ ⟨.lparen, "("⟩ :: ms' ∧ Lexes y ms' := by
  induction us generalizing ms with
  | nil =>
    have hlparen : longest rules (['('] ++ y) = some (.lparen, 0) := by cases y <;> rfl
    exact Lexes.cons_iff hlparen rfl
  | cons u us ih =>
    rw [List.flatMap_cons, List.append_assoc, List.cons_append] at h
    obtain ⟨n, hk, hn, hrest⟩ := h.of_cons
    have hlongest := longest_before_paren (.inl rfl) hk hn y
    rw [List.flatMap_cons, List.append_assoc, Lexes.cons_iff hlongest hn]
    constructor
    · rintro ⟨ms, rfl, hms⟩
      obtain ⟨ms', rfl, hy⟩ := (ih hrest).1 hms
      exact ⟨ms', by simp, hy⟩
    · rintro ⟨ms', rfl, hy⟩
      exact ⟨_, by simp, (ih hrest).2 ⟨ms', rfl, hy⟩⟩

lemma Lexes.suffix (h : Lexes x us) (hls : ls <:+ us) : Lexes (ls.flatMap (·.text.toList)) ls := by
  obtain ⟨vs, rfl⟩ := hls
  induction vs generalizing x with
  | nil =>
    rw [List.nil_append] at h
    rwa [h.texts]
  | cons v vs ih =>
    cases h with
    | cons _ _ hrest => exact ih hrest

end Lexer

/-! ## Numbers as they are printed -/

/-- The numbers that are printed without an exponent. -/
def Number.Plain : Number → Prop
  | .whole _ => True
  | .decimal x => (((10 : ℚ) ^ (-4 : ℤ) : ℚ) : Quantity) ≤ x.value ∧
      x.value < (((10 : ℚ) ^ (16 : ℤ) : ℚ) : Quantity)

namespace Binary

variable {x : Binary}

lemma plain_finite {u : Nat} : (Number.decimal (.finite u)).Plain ↔ Plain (u / one) := by
  rw [Number.Plain, value_finite, WithTop.coe_le_coe, WithTop.coe_lt_coe, Plain]

lemma pos_of_value_ne_zero {u : Nat} (h : (finite u).value ≠ 0) : 0 < u := by
  rcases Nat.eq_zero_or_pos u with rfl | hu
  · exact absurd (value_eq_zero.2 rfl) h
  · exact hu

lemma read_of_plain (hx : x.Exact) (hne : x.value ≠ 0) (hplain : (Number.decimal x).Plain) :
    IsDecimal x.display.toList ∧ Decimal.read x.display.toList = x := by
  cases hx with
  | infinite => exact absurd hplain.2 not_top_lt
  | @finite u hr =>
    obtain ⟨whole, fraction, htext, hwhole, hfraction, hread⟩ :=
      read_display (pos_of_value_ne_zero hne) hr (plain_finite.1 hplain)
    refine ⟨?_, hread⟩
    rw [htext]
    simpa using IsDecimal.intro hwhole (.inr ⟨fraction, hfraction, rfl⟩) (.inl rfl)

/-- A number that is not plain has a character that no number in a filter has. -/
lemma exists_mem_display (hx : x.Exact) (hne : x.value ≠ 0) (hplain : ¬(Number.decimal x).Plain) :
    ∃ c ∈ x.display.toList, c = '+' ∨ c = '-' ∨ c = 'f' := by
  cases hx with
  | infinite => exact ⟨'f', by decide, by simp⟩
  | @finite u hr =>
    rcases sign_mem_display (pos_of_value_ne_zero hne) hr (mt plain_finite.2 hplain) with h | h
    · exact ⟨_, h, by simp⟩
    · exact ⟨_, h, by simp⟩

end Binary

lemma Number.toList_display_whole (n : Nat) :
    (Number.whole n).display.toList = Nat.toDigits 10 n := Nat.toList_repr

/-- A whole number is printed with no more digits than it was written with. -/
lemma Number.length_display_le {cs : List Char} (h : IsDigits cs) :
    (Number.whole (Decimal.ofDigits cs)).display.toList.length ≤ cs.length := by
  rw [toList_display_whole, Nat.length_toDigits_le_iff (by decide) (List.length_pos_iff.2 h.1)]
  exact Decimal.ofDigits_lt h.2

/-- A number whose printed text is a bound again, and the same number. -/
structure Grain.Reprints (g : Grain) (n : Number) : Prop where
  spelt : g.Spells n.display.toList
  number : ∀ k, g.number ⟨k, n.display⟩ = n
  length : g = .whole → n.display.toList.length ≤ Failure.digitLimit

lemma Grain.reprints {g : Grain} {l : Lexeme} (hne : (g.number l).value ≠ 0)
    (hdigits : g = .whole → IsDigits l.text.toList)
    (hlength : g = .whole → l.text.toList.length ≤ Failure.digitLimit)
    (hplain : (g.number l).Plain) : g.Reprints (g.number l) := by
  cases g with
  | whole =>
    have hspelt := Decimal.isDigits_toDigits (Decimal.ofDigits l.text.toList)
    refine ⟨?_, fun k => ?_, fun _ => ?_⟩
    · rwa [number, Spells, Number.toList_display_whole]
    · rw [number, number, Number.toList_display_whole, Decimal.ofDigits_toDigits]
    · exact (Number.length_display_le (hdigits rfl)).trans (hlength rfl)
  | decimal =>
    obtain ⟨hspelt, hread⟩ := Binary.read_of_plain (Binary.exact_read _) hne hplain
    exact ⟨hspelt, fun k => congrArg Number.decimal hread, fun h => by cases h⟩

lemma Grain.exists_mem_display {g : Grain} {l : Lexeme} (hne : (g.number l).value ≠ 0)
    (hplain : ¬(g.number l).Plain) :
    ∃ c ∈ (g.number l).display.toList, c = '+' ∨ c = '-' ∨ c = 'f' := by
  cases g with
  | whole => exact absurd trivial hplain
  | decimal => exact Binary.exists_mem_display (Binary.exact_read _) hne hplain

/-! ## Characters that no range has -/

/-- Without the characters that go with the key of a tag. -/
def Quiet (cs : List Char) : Prop := '=' ∉ cs ∧ '~' ∉ cs ∧ '(' ∉ cs
deriving Decidable

lemma Quiet.append {u v : List Char} (hu : Quiet u) (hv : Quiet v) : Quiet (u ++ v) := by
  simp only [Quiet, List.mem_append, not_or]
  exact ⟨⟨hu.1, hv.1⟩, ⟨hu.2.1, hv.2.1⟩, hu.2.2, hv.2.2⟩

lemma Quiet.cons {c : Char} {v : List Char} (hc : Quiet [c]) (hv : Quiet v) : Quiet (c :: v) :=
  hc.append hv

lemma IsDigits.quiet {ds : List Char} (h : IsDigits ds) : Quiet ds :=
  ⟨Decimal.notMem_of_isDigits h rfl, Decimal.notMem_of_isDigits h rfl,
    Decimal.notMem_of_isDigits h rfl⟩

lemma Blank.quiet {cs : List Char} (h : Blank cs) : Quiet cs := by
  have hnot : ∀ c, isBlank c = false → c ∉ cs := fun c hc hmem => by simp [h c hmem] at hc
  exact ⟨hnot _ rfl, hnot _ rfl, hnot _ rfl⟩

lemma Decimal.Written.quiet {cs : List Char} {y : ℚ} (h : Decimal.Written cs y) : Quiet cs :=
  ⟨fun hc => absurd (h.char_cases _ hc) (by decide),
    fun hc => absurd (h.char_cases _ hc) (by decide),
    fun hc => absurd (h.char_cases _ hc) (by decide)⟩

lemma Grain.quiet_display (g : Grain) (l : Lexeme) : Quiet (g.number l).display.toList := by
  cases g with
  | whole =>
    rw [number, Number.toList_display_whole]
    exact (Decimal.isDigits_toDigits _).quiet
  | decimal =>
    change Quiet (Decimal.read l.text.toList).display.toList
    rcases Binary.exists_written (Binary.exact_read l.text.toList) with hinfinite | ⟨y, hy⟩
    · rw [hinfinite]
      decide
    · exact hy.quiet

/-! ## Words and the filters they stand in -/

/-- Without words and quoted texts. -/
def Node.Wordless (n : Node) : Prop := ∀ l ∈ n.leaves, l.kind ≠ .word ∧ l.kind ≠ .quoted

namespace Node.Wordless

lemma leaf {l : Lexeme} (hl : l.kind ≠ .word ∧ l.kind ≠ .quoted) : (Node.leaf l).Wordless := by
  intro l' hl'
  rw [leaves_leaf, List.mem_singleton] at hl'
  exact hl' ▸ hl

lemma branch {r : Rule} {ns : List Node} (h : ∀ n ∈ ns, n.Wordless) :
    (Node.branch r ns).Wordless := by
  intro l hl
  rw [leaves_branch, leavesOf_eq_flatMap, List.mem_flatMap] at hl
  obtain ⟨n, hn, hl⟩ := hl
  exact h n hn l hl

lemma sign (p : Padding) (s : Sign) : (p.node s).Wordless := by
  have hspace : ∀ o, ∀ n ∈ spaceNodes o, n.Wordless := by
    intro o n hn
    obtain ⟨t, -, rfl⟩ := List.mem_map.1 hn
    exact leaf (by simp)
  refine branch (List.forall_mem_append.2 ⟨hspace _, List.forall_mem_cons.2 ⟨leaf ?_, hspace _⟩⟩)
  cases s <;> decide

end Node.Wordless

open Node in
lemma Range.wordless {g : Grain} {r : Range} (h : ∀ l ∈ r.bounds.written, g.isBound l.kind = true) :
    (r.node g).Wordless := by
  have hbound : ∀ l ∈ r.bounds.written, (Node.leaf l).Wordless := by
    intro l hl
    refine .leaf ?_
    have hk := h l hl
    revert hk
    cases g <;> cases l.kind <;> decide
  refine .branch (List.forall_mem_cons.2 ⟨.sign _ _, List.forall_mem_append.2 ⟨?_, ?_⟩⟩)
  · cases hb : r.bounds <;> rw [hb] at hbound <;>
      simpa [Bounds.nodes, Bounds.written, Wordless.sign] using hbound
  · simpa using Wordless.sign _ _

open Node in
/-- Only tags are given by words and quoted texts. -/
lemma Filter.wordless {f : Filter} (hp : f.Proper) (h : f.texts = []) : f.node.Wordless := by
  refine .branch ?_
  cases f with
  | tag | tagAny | tagIn | tagLike => simp [Filter.texts] at h
  | type op t | geometry op t | object op t =>
    simp [Filter.nodes, Wordless.sign, Kind.node, Wordless.leaf]
  | number q op n =>
    have hq : Wordless q.kind.node := .leaf (by cases q <;> decide)
    simp [Filter.nodes, Wordless.sign, hq, Wordless.leaf]
  | objects op os =>
    have hitems := Listed.forall_nodes (fun o => .leaf ⟨.objectId, o⟩) (l := os) Wordless.sign
      fun a _ => .leaf (by simp)
    simpa [Filter.nodes, Wordless.sign, Kind.node, Wordless.leaf] using hitems
  | numbers q op ns =>
    have hq : Wordless q.kind.node := .leaf (by cases q <;> decide)
    have hitems := Listed.forall_nodes (fun n => .leaf ⟨.number, n⟩) (l := ns) Wordless.sign
      fun a _ => .leaf (by simp)
    simpa [Filter.nodes, Wordless.sign, hq] using hitems
  | range q op r =>
    have hq : Wordless q.kind.node := .leaf (by cases q <;> decide)
    simp [Filter.nodes, Wordless.sign, hq, Range.wordless hp]

namespace Expr

open Node

variable {e : Expr}

lemma wordless (hg : e.Grammatical) (h : ∀ f ∈ e.filters, f.texts = []) : e.node.Wordless := by
  induction e with
  | filter f =>
    have hf : f ∈ (filter f).filters := by simp [filters]
    exact .branch (by simpa using Filter.wordless (hg f hf).proper (h f hf))
  | group left e right ih =>
    exact .branch (by simpa [Wordless.sign] using ih hg h)
  | neg op e ih => exact .branch (by simpa [Wordless.sign] using ih hg h)
  | join j l op r ihl ihr =>
    have hgs := grammatical_join.1 hg
    have hs := forall_filters_join.1 h
    exact .branch (by simp [Wordless.sign, ihl hgs.1 hs.1, ihr hgs.2 hs.2])

lemma leaves_infix {f : Filter} (hf : f ∈ e.filters) : f.node.leaves <:+: e.node.leaves := by
  induction e with
  | filter g =>
    obtain rfl : f = g := by simpa [filters] using hf
    simp [node]
  | group left e right ih =>
    refine (ih hf).trans ⟨(left.node .lparen).leaves, (right.node .rparen).leaves, ?_⟩
    simp [node]
  | neg op e ih =>
    refine (ih hf).trans ⟨(op.node .neg).leaves, [], ?_⟩
    simp [node]
  | join j l op r ihl ihr =>
    rcases List.mem_append.1 hf with hf | hf
    · refine (ihl hf).trans ⟨[], (op.node j.sign).leaves ++ r.node.leaves, ?_⟩
      simp [node]
    · refine (ihr hf).trans ⟨l.node.leaves ++ (op.node j.sign).leaves, [], ?_⟩
      simp [node]

end Expr

/-- A tag is compared by a symbol of its own, or looked up in parentheses after a word. -/
lemma Filter.exists_operator {f : Filter} (h : f.texts ≠ []) :
    (∃ l ∈ f.node.leaves, '=' ∈ l.text.toList ∨ '~' ∈ l.text.toList) ∨
      ∃ us vs, f.node.leaves = us ++ ⟨.lparen, "("⟩ :: vs ∧ ⟨.member, "in"⟩ ∈ us := by
  cases f with
  | tag c key op value | tagAny c key op =>
    refine .inl ⟨⟨c.sign.kind, c.text⟩, ?_, .inl (by cases c <;> decide)⟩
    simp [Filter.node, nodes, Padding.node, Kind.node, c.spelling?_sign]
  | tagLike key op pattern =>
    refine .inl ⟨⟨.tilde, "~"⟩, ?_, .inr (by decide)⟩
    simp [Filter.node, nodes, Padding.node, Kind.node, Sign.kind, Kind.spelling?]
  | tagIn key op values =>
    refine .inr ⟨key.node.leaves ++ (op.node .member).leaves ++
      Node.leavesOf (spaceNodes values.left.before), Node.leavesOf (spaceNodes values.left.after) ++
      Node.leavesOf (values.nodes Text.node).tail, ?_, ?_⟩
    · simp [Filter.node, nodes, Listed.nodes, Padding.node, Kind.node, Sign.kind, Kind.spelling?]
    · simp [Padding.node, Kind.node, Sign.kind, Kind.spelling?]
  | type | geometry | object | objects | number | numbers | range => simp [texts] at h

/-- Where there is one parenthesis and nothing that goes with a tag, there are no words. -/
lemma Expr.wordless_of_quiet {e : Expr} (hg : e.Grammatical) {us vs : List Lexeme}
    (hleaves : e.node.leaves = us ++ ⟨.lparen, "("⟩ :: vs)
    (hus : Quiet (us.flatMap (·.text.toList))) (hvs : Quiet (vs.flatMap (·.text.toList)))
    (hmember : ⟨.member, "in"⟩ ∉ us) : e.node.Wordless := by
  have hquiet : ∀ {ls : List Lexeme}, Quiet (ls.flatMap (·.text.toList)) → ∀ l ∈ ls,
      Quiet l.text.toList := by
    intro ls hls l hl
    have hmem : ∀ c ∈ l.text.toList, c ∈ ls.flatMap (·.text.toList) :=
      fun c hc => List.mem_flatMap.2 ⟨l, hl, hc⟩
    exact ⟨mt (hmem _) hls.1, mt (hmem _) hls.2.1, mt (hmem _) hls.2.2⟩
  have hlparen : ∀ {ls : List Lexeme}, Quiet (ls.flatMap (·.text.toList)) →
      ⟨.lparen, "("⟩ ∉ ls :=
    fun hls hl => absurd (hquiet hls _ hl) (by decide)
  refine wordless hg fun f hf => ?_
  by_contra htexts
  obtain ⟨p, t, hinfix⟩ := leaves_infix hf
  rcases Filter.exists_operator htexts with ⟨l, hl, hloud⟩ | ⟨us', vs', hf', hmem⟩
  · have hnot : ¬Quiet l.text.toList := fun h => hloud.elim h.1 h.2.1
    have hmem : l ∈ us ++ ⟨.lparen, "("⟩ :: vs := by
      rw [← hleaves, ← hinfix]
      simp [hl]
    rcases List.mem_append.1 hmem with hmem | hmem
    · exact hnot (hquiet hus l hmem)
    · rcases List.mem_cons.1 hmem with rfl | hmem
      · exact absurd hloud (by decide)
      · exact hnot (hquiet hvs l hmem)
  · -- the word before the parentheses of the tag would stand before those of the range
    rw [hleaves, hf'] at hinfix
    have hsplit : us ++ ⟨.lparen, "("⟩ :: vs = (p ++ us') ++ ⟨.lparen, "("⟩ :: (vs' ++ t) := by
      rw [← hinfix]
      simp
    have heq := (List.append_cons_inj_of_notMem (hlparen hus) (hlparen hvs)).1 hsplit
    exact hmember (heq.1 ▸ List.mem_append_right p hmem)

/-! ## Swapped bounds -/

/-- A whole number with more digits than can be read. -/
def Grain.TooLong (g : Grain) (l : Lexeme) : Prop :=
  g = .whole ∧ Failure.digitLimit < l.text.toList.length

lemma Grain.not_tooLong_iff {g : Grain} {l : Lexeme} :
    ¬g.TooLong l ↔ (g = .whole → l.text.toList.length ≤ Failure.digitLimit) := by
  rw [TooLong, not_and, Nat.not_lt]

lemma Bounds.readNumber_of_tooLong {g : Grain} {l : Lexeme} (h : g.TooLong l) :
    readNumber g l.text.toList = .error (.tooManyDigits l.text.toList.length) := by
  obtain ⟨rfl, hlt⟩ := h
  rw [readNumber, readWhole, if_neg (Nat.not_le.2 hlt)]
  rfl

/-- Reading bounds fails only because of a number with too many digits. -/
lemma Bounds.readable_or (g : Grain) (b : Bounds) :
    b.Readable g ∨ ∃ l ∈ b.written, g.TooLong l ∧
      b.values g = .error (.tooManyDigits l.text.toList.length) := by
  cases b with
  | both l d u =>
    by_cases hl : g.TooLong l
    · exact .inr ⟨l, by simp [written], hl, by simp [values, readNumber_of_tooLong hl]⟩
    · have hlength := Grain.not_tooLong_iff.1 hl
      by_cases hu : g.TooLong u
      · exact .inr ⟨u, by simp [written], hu,
          by simp [values, readNumber_eq hlength, readNumber_of_tooLong hu]⟩
      · left
        intro hg k hk
        have hcases : k = l ∨ k = u := by simpa [written] using hk
        rcases hcases with rfl | rfl
        · exact hlength hg
        · exact Grain.not_tooLong_iff.1 hu hg
  | upTo d k | startingAt k d =>
    by_cases hk : g.TooLong k
    · exact .inr ⟨k, by simp [written], hk, by simp [values, readNumber_of_tooLong hk]⟩
    · left
      intro hg k' hk'
      rw [List.mem_singleton.1 hk']
      exact Grain.not_tooLong_iff.1 hk hg

lemma draft_of_query_eq_error {s : String} {f : Filter} (hs : parse s = .ok (.expr (.filter f)))
    {k : Int} {failure : Failure} (h : query s k = .error (.failure failure))
    (hne : failure ≠ .longPlaceholder) : f.draft = .error failure := by
  obtain ⟨failure, hheight, hfailure⟩ := (query_eq_error_iff hs k _).1 h
  cases hfailure
  rw [Expr.height, Filter.draftAfter] at hheight
  split at hheight
  · cases hd : f.draft with
    | error x =>
      rw [hd] at hheight
      cases hheight
      rfl
    | ok o =>
      rw [hd] at hheight
      cases hheight
  · cases hheight
    exact absurd rfl hne

/-- The condition of a range has no draft if a bound has too many digits, or if the bounds that count
have to be ordered and are not. -/
lemma rangeDraft_error_cases {c : Sql.Column} {g : Grain} {ordered : Bool} {b : Bounds}
    {failure : Failure} (h : rangeDraft c.name g ordered b = .error failure) :
    (∃ l ∈ b.written, g.TooLong l ∧ failure = .tooManyDigits l.text.toList.length) ∨
      b.Readable g ∧ ordered = true ∧ ∃ l ∈ counted (b.lower? g), ∃ u ∈ counted (b.upper? g),
        u.lt l = true ∧ failure = .swappedBounds l u := by
  rcases b.readable_or g with hr | ⟨l, hl, hlong, hvalues⟩
  · rw [rangeDraft_eq hr] at h
    split at h
    · rename_i l u hl hu
      split at h
      · rename_i hif
        cases h
        have hand : ordered = true ∧ u.lt l = true := by simpa using hif
        exact .inr ⟨hr, hand.1, l, hl, u, hu, hand.2, rfl⟩
      · cases h
    all_goals cases h
  · rw [rangeDraft, hvalues] at h
    cases h
    exact .inl ⟨l, hl, hlong, rfl⟩

lemma swapped_of_draft {q : Ranged} {op : Padding} {r : Range} {l u : Number}
    (h : (Filter.range q op r).draft = .error (.swappedBounds l u)) :
    ∃ c, q.column? = some c ∧ q ≠ .changeset ∧ r.bounds.Readable q.grain ∧
      l ∈ counted (r.bounds.lower? q.grain) ∧ u ∈ counted (r.bounds.upper? q.grain) ∧
      u.lt l = true := by
  cases hc : q.column? with
  | none => cases q <;> cases hc <;> cases h
  | some c =>
    rw [Filter.draft_range op r hc] at h
    obtain ⟨_, -, -, hfailure⟩ | ⟨hr, hq, l', hl, u', hu, hlt, hfailure⟩ := rangeDraft_error_cases h
    · cases hfailure
    · cases hfailure
      exact ⟨c, rfl, by simpa using hq, hr, hl, hu, hlt⟩

/-! ## Following the advice -/

/-- The range that a message about swapped bounds shows. -/
def advice (lower upper : Number) : String := "(" ++ upper.display ++ ".." ++ lower.display ++ ")"

/-- A text with another one in the place of all that its parentheses enclose, and of themselves. -/
def replaceEnclosed (s new : String) : String :=
  .ofList (s.toList.takeWhile (· != '(') ++ new.toList ++
    (s.toList.reverse.takeWhile (· != ')')).reverse)

example : replaceEnclosed "area : ( 7 .. 2.5 ) " "(2.5..7.0)" = "area : (2.5..7.0) " := by decide

lemma message_swappedBounds (l u : Number) : (Failure.swappedBounds l u).message =
    "Upper bound is smaller the then lower bound. Try swapping bounds: " ++ advice l u := by
  have hsplit : "Upper bound is smaller the then lower bound. Try swapping bounds: (" =
      "Upper bound is smaller the then lower bound. Try swapping bounds: " ++ "(" := by simp
  unfold Failure.message advice
  simp only [hsplit, String.append_assoc]

lemma toList_advice (l u : Number) : (advice l u).toList =
    '(' :: (u.display.toList ++ '.' :: '.' :: (l.display.toList ++ [')'])) := by
  simp [advice]

/-- The tokens of a range before its parentheses. -/
def Ranged.opening (q : Ranged) (op : Padding) : List Lexeme :=
  q.kind.node.leaves ++ (op.node .colon).leaves

lemma Ranged.member_notMem_opening (q : Ranged) (op : Padding) :
    ⟨.member, "in"⟩ ∉ q.opening op := by
  obtain ⟨before, after⟩ := op
  have hq : q.kind ≠ .member := by cases q <;> decide
  cases before <;> cases after <;>
    simp [opening, Padding.node, Kind.node, spaceNodes, Sign.kind, hq.symm]

/-- The tokens of a range after its parentheses. -/
def Range.ending (r : Range) : List Lexeme := Node.leavesOf (spaceNodes r.right.after)

lemma Filter.exists_leaves_range (q : Ranged) (op : Padding) {r : Range}
    (h : r.left.before = none) : ∃ ls, (Filter.range q op r).node.leaves =
      q.opening op ++ ⟨.lparen, "("⟩ :: (ls ++ ⟨.rparen, ")"⟩ :: r.ending) := by
  refine ⟨Node.leavesOf (spaceNodes r.left.after) ++ (Node.leavesOf r.bounds.nodes ++
    Node.leavesOf (spaceNodes r.right.before)), ?_⟩
  simp [Filter.node, Filter.nodes, Ranged.opening, Range.ending, Range.node, Padding.node,
    Kind.node, h, spaceNodes, Sign.kind, Kind.spelling?]

section Following

open Decimal (takeWhile_ne_append)

variable {s : String} {q : Ranged} {op : Padding} {r : Range}
  (hs : parse s = .ok (.expr (.filter (.range q op r))))

include hs

lemma exists_lexes_range : ∃ ls, Lexer.Lexes s.toList
    (q.opening op ++ ⟨.lparen, "("⟩ :: (ls ++ ⟨.rparen, ")"⟩ :: r.ending)) := by
  have htight : (Filter.range q op r).Tight := (parse_tight_fits hs).1
  obtain ⟨ls, hls⟩ := Filter.exists_leaves_range q op htight.1
  have hlexes := lexes_of_parse hs
  rw [Expr.node, Node.leaves_branch, Node.leavesOf_cons, Node.leavesOf_nil, List.append_nil,
    hls] at hlexes
  exact ⟨ls, hlexes⟩

lemma quiet_opening : Quiet ((q.opening op).flatMap (·.text.toList)) := by
  obtain ⟨ls, hlexes⟩ := exists_lexes_range hs
  have hspelled := hlexes.spelled
  obtain ⟨u, v, hu, hv, hcolon⟩ := Padding.chars (p := op) (s := .colon)
    fun l hl => hspelled l (by simp [Ranged.opening, hl])
  rw [Ranged.opening, List.flatMap_append, hcolon]
  refine Quiet.append ?_ (hu.quiet.append (Quiet.append ?_ hv.quiet))
  · cases q <;> decide
  · decide

lemma blank_ending : Blank (r.ending.flatMap (·.text.toList)) := by
  obtain ⟨ls, hlexes⟩ := exists_lexes_range hs
  exact spaceNodes_blank fun l hl => hlexes.spelled l (by simp [Range.ending, hl])

lemma toList_replaceEnclosed (new : String) : (replaceEnclosed s new).toList =
    (q.opening op).flatMap (·.text.toList) ++ (new.toList ++ r.ending.flatMap (·.text.toList)) := by
  obtain ⟨ls, hlexes⟩ := exists_lexes_range hs
  have hopen : '(' ∉ (q.opening op).flatMap (·.text.toList) :=
    (quiet_opening hs).2.2
  have hclose : ')' ∉ (r.ending.flatMap (·.text.toList)).reverse := by
    intro h
    have hblank := blank_ending hs ')' (List.mem_reverse.1 h)
    cases hblank
  have hsplit : s.toList = (q.opening op).flatMap (·.text.toList) ++
      '(' :: (ls.flatMap (·.text.toList) ++ ')' :: r.ending.flatMap (·.text.toList)) := by
    rw [← hlexes.texts]
    simp
  have hreverse : s.toList.reverse = (r.ending.flatMap (·.text.toList)).reverse ++
      ')' :: ((q.opening op).flatMap (·.text.toList) ++
        '(' :: ls.flatMap (·.text.toList)).reverse := by
    rw [hsplit]
    simp
  rw [replaceEnclosed, String.toList_ofList, hreverse, takeWhile_ne_append hclose (by simp),
    List.reverse_reverse, hsplit, takeWhile_ne_append hopen (by simp), List.append_assoc]

/-- The tokens after the parenthesis are all that another range changes. -/
lemma lexes_replaceEnclosed_iff {y : List Char} {new : String} (hnew : new.toList = '(' :: y)
    (ms : List Lexeme) : Lexer.Lexes (replaceEnclosed s new).toList ms ↔
      ∃ ms', ms = q.opening op ++ ⟨.lparen, "("⟩ :: ms' ∧
        Lexer.Lexes (y ++ r.ending.flatMap (·.text.toList)) ms' := by
  obtain ⟨ls, hlexes⟩ := exists_lexes_range hs
  have htexts := hlexes.texts
  rw [List.flatMap_append] at htexts
  rw [← htexts] at hlexes
  rw [toList_replaceEnclosed hs, hnew]
  exact hlexes.before_lparen_iff

lemma isDigits_bound (hg : q.grain = .whole) {l : Lexeme} (hl : l ∈ r.bounds.written) :
    IsDigits l.text.toList := by
  obtain ⟨hspelled, hproper⟩ :=
    (parse_wellFormed hs).genuine (.range q op r) (by simp [Expr.filters])
  have hmem : l ∈ (Filter.range q op r).node.leaves := by
    have hbounds := Range.mem_leaves_of_written (g := q.grain) hl
    simp [Filter.node, Filter.nodes, hbounds]
  have hspells := (hspelled l hmem).spells (hproper l hl)
  rwa [hg] at hspells

variable {l u : Number}

section Reprinted

variable (hl : q.grain.Reprints l) (hu : q.grain.Reprints u)

include hl hu

lemma exists_parse_advised : ∃ (r' : Range) (j j' : Kind),
    r'.bounds = .both ⟨j, u.display⟩ ⟨none, none⟩ ⟨j', l.display⟩ ∧
      parse (replaceEnclosed s (advice l u)) = .ok (.expr (.filter (.range q op r'))) := by
  obtain ⟨j, j', hj, hj', hinner⟩ := Lexer.Lexes.bounds hu.spelt hl.spelt
  obtain ⟨ls, hlexes⟩ := exists_lexes_range hs
  have hending : Lexer.Lexes (r.ending.flatMap (·.text.toList)) r.ending := by
    refine hlexes.suffix ⟨q.opening op ++ ⟨.lparen, "("⟩ :: (ls ++ [⟨.rparen, ")"⟩]), ?_⟩
    simp
  have hadvised := (lexes_replaceEnclosed_iff hs (toList_advice l u) _).2
    ⟨_, rfl, by simpa using hinner.append_rparen hending.rparen⟩
  refine ⟨⟨⟨none, none⟩, _, ⟨none, r.right.after⟩⟩, j, j', rfl,
    parse_filter_of_lexes ⟨?_, by simp [Filter.texts]⟩ ⟨rfl, trivial⟩ ?_⟩
  · simp [Filter.Proper, Bounds.written, hj, hj']
  · simpa [Filter.node, Filter.nodes, Ranged.opening, Range.ending, Range.node, Bounds.nodes,
      Padding.node, Kind.node, spaceNodes, Sign.kind, Kind.spelling?] using hadvised

/-- Bounds that are read again from their printed texts make up the condition. -/
lemma query_advised {c : Sql.Column} (hc : q.column? = some c) (hlne : l.value ≠ 0)
    (hune : u.value ≠ 0) (hordered : l.lt u = false) (k : Int) :
    query (replaceEnclosed s (advice l u)) k = if AllWritable k 2 then
        .ok ⟨"(" ++ c.name ++ " >= $" ++ toString (k + 1) ++ " AND " ++ c.name ++ " <= $" ++
          toString (k + 2) ++ ")", [.number u, .number l]⟩
      else .error (.failure .longPlaceholder) := by
  obtain ⟨r', j, j', hbounds, hparse⟩ := exists_parse_advised hs hl hu
  have hreadable : r'.bounds.Readable q.grain := by
    intro hg l' hl'
    have hcases : l' = ⟨j, u.display⟩ ∨ l' = ⟨j', l.display⟩ := by
      simpa [hbounds, Bounds.written] using hl'
    rcases hcases with rfl | rfl
    · exact hu.length hg
    · exact hl.length hg
  have hlower : counted (some (q.grain.number ⟨j, u.display⟩)) = some u := by
    rw [hu.number]
    exact mem_counted.2 ⟨rfl, hune⟩
  have hupper : counted (some (q.grain.number ⟨j', l.display⟩)) = some l := by
    rw [hl.number]
    exact mem_counted.2 ⟨rfl, hlne⟩
  have hdraft := (Filter.draft_range op r' hc).trans (rangeDraft_eq hreadable _)
  simp only [hbounds, Bounds.lower?, Bounds.upper?, hlower, hupper, hordered,
    Bool.and_false] at hdraft
  have hnext : k + 1 + 1 = k + 2 := Int.add_assoc _ _ _
  have htext : Draft.number k [.text ("(" ++ c.name ++ " >= "), .arg (.number u),
      .text (" AND " ++ c.name ++ " <= "), .arg (.number l), .text ")"] =
        "(" ++ c.name ++ " >= $" ++ toString (k + 1) ++ " AND " ++ c.name ++ " <= $" ++
          toString (k + 2) ++ ")" := String.toList_injective (by simp [hnext])
  rw [query_of_draft hparse (Expr.draft?_filter_eq_some.2 hdraft), htext]
  rfl

end Reprinted

/-- A bound that is printed with an exponent is no number where it is put. -/
lemma query_advised_ne (hl : Quiet l.display.toList) (hu : Quiet u.display.toList) {c : Char}
    (hc : c ∈ l.display.toList ∨ c ∈ u.display.toList) (hodd : c = '+' ∨ c = '-' ∨ c = 'f')
    (k : Int) (result : Query) : query (replaceEnclosed s (advice l u)) k ≠ .ok result := by
  intro hq
  have hstar : replaceEnclosed s (advice l u) ≠ "*" := by
    intro heq
    have hparen : '(' ∈ (replaceEnclosed s (advice l u)).toList := by
      simp [toList_replaceEnclosed hs, toList_advice]
    rw [heq] at hparen
    revert hparen
    decide
  obtain ⟨e, he⟩ := exists_expr_of_query hq hstar
  obtain ⟨ms, hleaves, hrest⟩ :=
    (lexes_replaceEnclosed_iff hs (toList_advice l u) _).1 (lexes_of_parse he)
  have hquiet : Quiet (ms.flatMap (·.text.toList)) := by
    have hinner : Quiet (l.display.toList ++ [')']) := hl.append (by decide)
    rw [hrest.texts]
    exact (hu.append (.cons (by decide) (.cons (by decide) hinner))).append (blank_ending hs).quiet
  have hwordless := Expr.wordless_of_quiet (parse_grammatical he) hleaves (quiet_opening hs) hquiet
    (Ranged.member_notMem_opening q op)
  obtain ⟨w, hw, hcw⟩ : ∃ w ∈ ms, c ∈ w.text.toList := by
    rw [← List.mem_flatMap, hrest.texts]
    rcases hc with hc | hc <;> simp [hc]
  have hkind : w.kind = .word ∨ w.kind = .quoted := by
    have hmentions := (hrest.spelled w hw).mentions hcw
    revert hmentions
    rcases hodd with rfl | rfl | rfl <;> cases w.kind <;> decide
  have hnot := hwordless w (by simp [hleaves, hw])
  exact hkind.elim hnot.1 hnot.2

end Following

lemma Bounds.exists_both {g : Grain} {b : Bounds} {l u : Number} (hl : l ∈ b.lower? g)
    (hu : u ∈ b.upper? g) :
    ∃ k ∈ b.written, ∃ k' ∈ b.written, l = g.number k ∧ u = g.number k' := by
  cases b with
  | both k d k' =>
    cases hl
    cases hu
    exact ⟨k, by simp [written], k', by simp [written], rfl, rfl⟩
  | upTo => cases hl
  | startingAt => cases hu

/-- A range that ends before it begins is refused with the advice to swap its bounds. The range that
the message shows is accepted in its place, with the bounds swapped, if and only if neither of them
is printed with an exponent, as long as there are numbers for two placeholders. -/
theorem query_advised_iff {s : String} {q : Ranged} {op : Padding} {r : Range}
    (hs : parse s = .ok (.expr (.filter (.range q op r)))) {k : Int} {l u : Number}
    (hrefused : query s k = .error (.failure (.swappedBounds l u))) :
    (Failure.swappedBounds l u).message =
        "Upper bound is smaller the then lower bound. Try swapping bounds: " ++ advice l u ∧
      ∃ c, q.column? = some c ∧ c ≠ .changeset ∧
        r.bounds.lower? q.grain = some l ∧ r.bounds.upper? q.grain = some u ∧ u.value < l.value ∧
        ∀ result, query (replaceEnclosed s (advice l u)) k = .ok result ↔
          (l.Plain ∧ u.Plain) ∧ AllWritable k 2 ∧
            result = ⟨"(" ++ c.name ++ " >= $" ++ toString (k + 1) ++ " AND " ++ c.name ++
              " <= $" ++ toString (k + 2) ++ ")", [.number u, .number l]⟩ := by
  obtain ⟨c, hc, hq, hreadable, hl, hu, hlt⟩ :=
    swapped_of_draft (draft_of_query_eq_error hs hrefused (by simp))
  obtain ⟨hlower, hlne⟩ := mem_counted.1 hl
  obtain ⟨hupper, hune⟩ := mem_counted.1 hu
  have hvalue := (Bounds.lt_iff hlower hupper).1 hlt
  obtain ⟨a, ha, b, hb, rfl, rfl⟩ := Bounds.exists_both hlower hupper
  refine ⟨message_swappedBounds _ _, c, hc, ?_, hlower, hupper, hvalue, fun result => ?_⟩
  · rintro rfl
    cases q <;> cases hc
    exact hq rfl
  · have hordered : (q.grain.number a).lt (q.grain.number b) = false := by
      rw [Bool.eq_false_iff, ne_eq, ← Grain.value_lt_value]
      exact hvalue.asymm
    have hreprints : ∀ n ∈ r.bounds.written, (q.grain.number n).value ≠ 0 →
        (q.grain.number n).Plain → q.grain.Reprints (q.grain.number n) :=
      fun n hn hne hplain => Grain.reprints hne (fun hg => isDigits_bound hs hg hn)
        (fun hg => hreadable hg n hn) hplain
    by_cases hplain : (q.grain.number a).Plain ∧ (q.grain.number b).Plain
    · rw [query_advised hs (hreprints a ha hlne hplain.1) (hreprints b hb hune hplain.2) hc hlne
        hune hordered k, and_iff_right hplain]
      split_ifs with hwritable
      · rw [Except.ok.injEq, and_iff_right hwritable]
        exact eq_comm
      · exact iff_of_false (by simp) fun h => hwritable h.1
    · refine iff_of_false ?_ fun h => hplain h.1
      obtain ⟨x, hx, hodd⟩ : ∃ x, (x ∈ (q.grain.number a).display.toList ∨
          x ∈ (q.grain.number b).display.toList) ∧ (x = '+' ∨ x = '-' ∨ x = 'f') := by
        rcases not_and_or.1 hplain with h | h
        · obtain ⟨x, hx, hodd⟩ := Grain.exists_mem_display hlne h
          exact ⟨x, .inl hx, hodd⟩
        · obtain ⟨x, hx, hodd⟩ := Grain.exists_mem_display hune h
          exact ⟨x, .inr hx, hodd⟩
      exact query_advised_ne hs (q.grain.quiet_display a) (q.grain.quiet_display b) hx hodd k result

/-- Bounds with an exponent and with zeros at the end, and white space all around. -/
theorem query_advised_iff_area :
    ∃ op r l u, parse "area : ( 7e1 .. 2.00 ) " = .ok (.expr (.filter (.range .area op r))) ∧
      query "area : ( 7e1 .. 2.00 ) " 3 = .error (.failure (.swappedBounds l u)) ∧
      advice l u = "(2.0..70.0)" ∧ (l.Plain ∧ u.Plain) ∧
      query "area : (2.0..70.0) " 3 =
        .ok ⟨"(area >= $4 AND area <= $5)", [.number u, .number l]⟩ := by
  let l : Number := .decimal (.finite (70 * Binary.one))
  let u : Number := .decimal (.finite (2 * Binary.one))
  let r : Range := ⟨⟨none, some " "⟩,
    .both ⟨.decimal, "7e1"⟩ ⟨some " ", some " "⟩ ⟨.decimal, "2.00"⟩, ⟨some " ", some " "⟩⟩
  have hparse : parse "area : ( 7e1 .. 2.00 ) " =
      .ok (.expr (.filter (.range .area ⟨some " ", some " "⟩ r))) := by decide +kernel
  have hrefused : query "area : ( 7e1 .. 2.00 ) " 3 = .error (.failure (.swappedBounds l u)) := by
    decide +kernel
  have hadvice : advice l u = "(2.0..70.0)" := by decide +kernel
  have hplain : l.Plain ∧ u.Plain := by
    have hone : (Binary.one : ℚ) ≠ 0 := Nat.cast_ne_zero.2 (Nat.ne_of_gt Binary.one_pos)
    refine ⟨Binary.plain_finite.2 ?_, Binary.plain_finite.2 ?_⟩
    · rw [Nat.cast_mul, mul_div_cancel_right₀ _ hone]
      constructor <;> norm_num
    · rw [Nat.cast_mul, mul_div_cancel_right₀ _ hone]
      constructor <;> norm_num
  obtain ⟨-, c, hc, -, -, -, -, hiff⟩ := query_advised_iff hparse hrefused
  cases hc
  have htext : replaceEnclosed "area : ( 7e1 .. 2.00 ) " (advice l u) = "area : (2.0..70.0) " := by
    rw [hadvice]
    decide
  refine ⟨_, r, l, u, hparse, hrefused, hadvice, hplain, ?_⟩
  rw [← htext, (hiff _).2 ⟨hplain, by decide +kernel, rfl⟩]
  rfl

/-- A bound that is printed with an exponent: the advice is not accepted. -/
theorem not_query_advised_exponent :
    ∃ op r l u, parse "area:(1e20..5)" = .ok (.expr (.filter (.range .area op r))) ∧
      query "area:(1e20..5)" 0 = .error (.failure (.swappedBounds l u)) ∧
      replaceEnclosed "area:(1e20..5)" (advice l u) = "area:(5.0..1e+20)" ∧
      ∀ result, query "area:(5.0..1e+20)" 0 ≠ .ok result := by
  refine ⟨⟨none, none⟩,
    ⟨⟨none, none⟩, .both ⟨.decimal, "1e20"⟩ ⟨none, none⟩ ⟨.number, "5"⟩, ⟨none, none⟩⟩,
    .decimal (.finite (100000000000000000000 * Binary.one)), .decimal (.finite (5 * Binary.one)),
    by decide +kernel, by decide +kernel, by decide +kernel, fun result h => ?_⟩
  have hnone : (query "area:(5.0..1e+20)" 0).toOption = none := by decide +kernel
  rw [h] at hnone
  cases hnone

end MapFilter
