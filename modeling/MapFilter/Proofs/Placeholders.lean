import MapFilter.Proofs.Outcome

/-!
# Placeholders

The placeholders of a query are counted on from the shift, one for each argument and in their order.
Two things have to be seen: no dollar sign gets into the text of a condition but that of a
placeholder, and no digit follows the number of a placeholder, so that the number is read as it was
written.
-/

namespace MapFilter

/-- The digits that a text begins with, as a number. -/
def leadingDigits? (cs : List Char) : Option Nat :=
  let digits := cs.takeWhile Char.isDigit
  if digits = [] then none else some (Decimal.ofDigits digits)

/-- The number that a text begins with. It may have a minus sign. -/
def leadingNumber? (cs : List Char) : Option Int :=
  if cs.head? = some '-' then (leadingDigits? cs.tail).map fun n : Nat => -(n : Int)
  else (leadingDigits? cs).map Int.ofNat

/-- The numbers after dollar signs, from left to right. -/
def placeholders : List Char → List Int
  | [] => []
  | c :: cs => (if c = '$' then (leadingNumber? cs).toList else []) ++ placeholders cs

/-! ## Reading numbers back -/

/-- A text that is not taken for the rest of a number in front of it. -/
def NoDigitFirst (cs : List Char) : Prop := ∀ c ∈ cs.head?, c.isDigit = false

lemma leadingDigits?_toDigits (n : Nat) {rest : List Char} (hrest : NoDigitFirst rest) :
    leadingDigits? (Nat.toDigits 10 n ++ rest) = some n := by
  have hdigits : ∀ c ∈ Nat.toDigits 10 n, c.isDigit = true := fun c hc =>
    Nat.isDigit_of_mem_toDigits (by omega) (by omega) hc
  have hstop : rest.takeWhile Char.isDigit = [] := by
    cases rest with
    | nil => rfl
    | cons c rest =>
      have hc : c.isDigit = false := hrest c rfl
      exact List.takeWhile_cons_of_neg (by simp [hc])
  have hread : Decimal.ofDigits (Nat.toDigits 10 n) = n :=
    Nat.ofDigitChars_toDigits (by omega) (by omega)
  unfold leadingDigits?
  rw [List.takeWhile_append_of_pos hdigits, hstop, List.append_nil]
  simp only [if_neg Nat.toDigits_ne_nil, hread]

lemma head?_toDigits_ne (n : Nat) (rest : List Char) :
    (Nat.toDigits 10 n ++ rest).head? ≠ some '-' := by
  obtain ⟨c, cs, hcs⟩ := List.exists_cons_of_ne_nil (@Nat.toDigits_ne_nil n 10)
  have hc : c.isDigit = true :=
    Nat.isDigit_of_mem_toDigits (by omega) (by omega) (hcs ▸ List.mem_cons_self)
  rw [hcs]
  intro h
  cases h
  exact absurd hc (by decide)

lemma leadingNumber?_toString (n : Int) {rest : List Char} (hrest : NoDigitFirst rest) :
    leadingNumber? ((toString n).toList ++ rest) = some n := by
  cases n with
  | ofNat n =>
    have htext : (toString (Int.ofNat n)).toList = Nat.toDigits 10 n := Nat.toList_repr
    rw [htext, leadingNumber?, if_neg (head?_toDigits_ne n rest), leadingDigits?_toDigits n hrest]
    rfl
  | negSucc n =>
    have htext : (toString (Int.negSucc n)).toList = '-' :: Nat.toDigits 10 (n + 1) := by
      change ("-" ++ (n + 1).repr).toList = _
      rw [String.toList_append, Nat.toList_repr]
      rfl
    rw [htext, leadingNumber?, List.cons_append, List.head?_cons, if_pos rfl, List.tail_cons,
      leadingDigits?_toDigits (n + 1) hrest]
    rfl

lemma dollar_not_mem_toString (n : Int) : '$' ∉ (toString n).toList := by
  have hdigits : ∀ m, '$' ∉ Nat.toDigits 10 m := fun m hm =>
    absurd (Nat.isDigit_of_mem_toDigits (by omega) (by omega) hm) (by decide)
  cases n with
  | ofNat n =>
    change '$' ∉ n.repr.toList
    rw [Nat.toList_repr]
    exact hdigits n
  | negSucc n =>
    change '$' ∉ ("-" ++ (n + 1).repr).toList
    rw [String.toList_append, Nat.toList_repr, List.mem_append]
    rintro (h | h)
    · exact absurd h (by decide)
    · exact hdigits _ h

lemma placeholders_append {u : List Char} (hu : '$' ∉ u) (v : List Char) :
    placeholders (u ++ v) = placeholders v := by
  induction u with
  | nil => rfl
  | cons c u ih =>
    rw [List.mem_cons, not_or] at hu
    rw [List.cons_append, placeholders, if_neg (Ne.symm hu.1), List.nil_append, ih hu.2]

lemma placeholders_placeholder (n : Int) {rest : List Char} (hrest : NoDigitFirst rest) :
    placeholders ('$' :: ((toString n).toList ++ rest)) = n :: placeholders rest := by
  rw [placeholders, if_pos rfl, leadingNumber?_toString n hrest,
    placeholders_append (dollar_not_mem_toString n)]
  rfl

/-! ## Drafts that can be read -/

namespace Draft

/-- A draft that can come after a placeholder. -/
def NoDigitFirst (d : Draft) : Prop := ∀ n, MapFilter.NoDigitFirst (d.number n).toList

/-- The placeholders of a draft can be told from all that is round them. -/
def Legible : Draft → Prop
  | [] => True
  | .text s :: d => '$' ∉ s.toList ∧ Legible d
  | .arg _ :: d => NoDigitFirst d ∧ Legible d

lemma noDigitFirst_nil : NoDigitFirst [] := fun _ => nofun

lemma noDigitFirst_text {s : String} (hs : s.toList.head?.any (!·.isDigit) = true) (d : Draft) :
    NoDigitFirst (.text s :: d) := by
  intro n x hx
  rw [number_text, String.toList_append, List.head?_append] at hx
  cases hhead : s.toList.head? with
  | none => simp [hhead] at hs
  | some c =>
    rw [hhead] at hs hx
    cases hx
    simpa using hs

lemma noDigitFirst_append {d e : Draft} (hd : NoDigitFirst d) (he : NoDigitFirst e) :
    NoDigitFirst (d ++ e) := by
  intro n x hx
  rw [number_append, String.toList_append, List.head?_append] at hx
  cases hhead : (d.number n).toList.head? with
  | none =>
    rw [hhead] at hx
    exact he _ x hx
  | some c =>
    rw [hhead] at hx
    cases hx
    exact hd n x hhead

lemma legible_append {d e : Draft} (hd : d.Legible) (he : e.Legible) (hfirst : NoDigitFirst e) :
    (d ++ e).Legible := by
  induction d with
  | nil => exact he
  | cons x d ih =>
    cases x with
    | text s => exact ⟨hd.1, ih hd.2⟩
    | arg a => exact ⟨noDigitFirst_append hd.1 hfirst, ih hd.2⟩

/-- The placeholders count on, one for each argument. -/
theorem Legible.placeholders {d : Draft} (hd : d.Legible) (n : Int) :
    placeholders (d.number n).toList =
      (List.range d.args.length).map fun i : Nat => n + 1 + (i : Int) := by
  induction d generalizing n with
  | nil => rfl
  | cons x d ih =>
    cases x with
    | text s =>
      rw [number_text, String.toList_append, placeholders_append hd.1, ih hd.2 n, args_text]
    | arg a =>
      have hchars : (number n (.arg a :: d)).toList =
          '$' :: ((toString (n + 1)).toList ++ (number (n + 1) d).toList) := by
        rw [number_arg, String.toList_append, String.toList_append]
        rfl
      have hshift : (fun i : Nat => n + 1 + 1 + (i : Int)) =
          fun i : Nat => n + 1 + ((i + 1 : Nat) : Int) := by
        funext i
        omega
      rw [hchars, placeholders_placeholder _ (hd.1 (n + 1)), ih hd.2, args_arg, List.length_cons,
        List.range_succ_eq_map, List.map_cons, List.map_map, hshift]
      simp [Function.comp_def]

end Draft

/-! ## Conditions and expressions -/

lemma IsDigits.no_dollar {cs : List Char} (h : IsDigits cs) : '$' ∉ cs :=
  fun hdollar => absurd (h.2 _ hdollar) (by decide)

lemma IsDecimal.no_dollar {cs : List Char} (h : IsDecimal cs) : '$' ∉ cs := by
  obtain @⟨whole, fraction, exponent, hwhole, hfraction, hexponent⟩ := h
  have hf : '$' ∉ fraction := by
    rcases hfraction with rfl | ⟨ds, hds, rfl⟩
    · simp
    · simpa using hds.no_dollar
  have he : '$' ∉ exponent := by
    rcases hexponent with rfl | ⟨e, ds, rfl | rfl, hds, rfl⟩
    · simp
    · simpa using hds.no_dollar
    · simpa using hds.no_dollar
  simp [hwhole.no_dollar, hf, he]

lemma Bounds.no_dollar {u v : List Char} {b : Bounds} (hu : Blank u) (hv : Blank v)
    (hb : ∀ l ∈ b.written, IsDecimal l.text.toList) : '$' ∉ b.spread u v := by
  have hu' : '$' ∉ u := fun h => absurd (hu _ h) (by decide)
  have hv' : '$' ∉ v := fun h => absurd (hv _ h) (by decide)
  have hb' : ∀ l ∈ b.written, '$' ∉ l.text.toList := fun l hl => (hb l hl).no_dollar
  cases b <;> simp_all [Bounds.spread, Bounds.written]

namespace Condition

lemma comparisons_no_dollar : ∀ p ∈ comparisons, '$' ∉ p.toList := by decide +kernel

lemma geometries_no_dollar : ∀ p ∈ geometries, '$' ∉ p.toList := by decide +kernel

/-- What is put before a second argument begins with a blank or a parenthesis. -/
lemma pairs_legible : ∀ x ∈ pairs, '$' ∉ x.1.toList ∧ '$' ∉ x.2.toList ∧
    x.2.toList.head?.any (!·.isDigit) = true := by
  decide +kernel

end Condition

open Draft

lemma closing_legible : Legible [.text ")"] := ⟨by decide, trivial⟩

lemma closing_noDigitFirst : Draft.NoDigitFirst [.text ")"] := noDigitFirst_text (by decide) []

lemma ObjectCondition.legible {d : Draft} (h : ObjectCondition d) : d.Legible := by
  obtain ⟨a, b, rfl⟩ := h
  exact ⟨by decide, noDigitFirst_text (by decide) _, by decide, closing_noDigitFirst,
    closing_legible⟩

lemma objects_legible {ds : List Draft} (h : ∀ d ∈ ds, ObjectCondition d) :
    Legible ([Segment.text " OR "].intercalate ds) := by
  induction ds with
  | nil => trivial
  | cons d ds ih =>
    have hd := (h d (by simp)).legible
    cases ds with
    | nil => simpa using hd
    | cons e ds =>
      have hrest := ih fun x hx => h x (List.mem_cons_of_mem _ hx)
      rw [List.intercalate_cons_cons, List.append_assoc]
      exact legible_append hd ⟨by decide, hrest⟩ (noDigitFirst_text (by decide) _)

lemma Condition.legible {d : Draft} (h : Condition d) : d.Legible := by
  cases h with
  | single hp a => exact ⟨comparisons_no_dollar _ hp, noDigitFirst_nil, trivial⟩
  | member hp a =>
    have hall : ∀ p ∈ ["osm_id = ANY(", "changeset_id = ANY("], '$' ∉ p.toList := by decide
    exact ⟨hall _ hp, closing_noDigitFirst, closing_legible⟩
  | like a b =>
    exact ⟨by decide, noDigitFirst_text (by decide) _, by decide, noDigitFirst_nil, trivial⟩
  | pair hpq a b =>
    obtain ⟨hp, hq, hfirst⟩ := pairs_legible _ hpq
    exact ⟨hp, noDigitFirst_text hfirst _, hq, closing_noDigitFirst, closing_legible⟩
  | objects hds =>
    exact ⟨by decide, legible_append (objects_legible hds) closing_legible closing_noDigitFirst⟩
  | geometry hc => exact ⟨geometries_no_dollar _ hc, trivial⟩
  | perimeter hu hv hb =>
    refine ⟨?_, trivial⟩
    rw [String.toList_ofList]
    exact Bounds.no_dollar hu hv hb

lemma Expr.legible {e : Expr} (hg : e.Genuine) {d : Draft} (hd : e.draft? = some d) :
    d.Legible := by
  induction e generalizing d with
  | filter f =>
    have hf := hg f (by simp [filters])
    exact (f.condition hf.1 hf.2 (draft?_filter_eq_some.1 hd)).legible
  | group l e r ih =>
    obtain ⟨d', hd', rfl⟩ := draft?_group_eq_some.1 hd
    exact ⟨by decide, legible_append (ih hg hd') closing_legible closing_noDigitFirst⟩
  | neg op e ih =>
    obtain ⟨d', hd', rfl⟩ := draft?_neg_eq_some.1 hd
    exact ⟨by decide, ih hg hd'⟩
  | join j l op r ihl ihr =>
    have hgs := genuine_join.1 hg
    obtain ⟨dl, dr, hdl, hdr, rfl⟩ := draft?_join_eq_some.1 hd
    have hword : '$' ∉ (" " ++ Compiler.word j ++ " ").toList ∧
        (" " ++ Compiler.word j ++ " ").toList.head?.any (!·.isDigit) = true := by
      cases j <;> decide
    exact legible_append (ihl hgs.1 hdl) ⟨hword.1, ihr hgs.2 hdr⟩
      (noDigitFirst_text hword.2 dr)

/-- The placeholders of a query are numbered from `shift + 1` on, in the order of its arguments: each
argument has one, and there are no others. -/
theorem placeholders_query {text : String} {shift : Int} {q : Query}
    (hq : query text shift = .ok q) :
    placeholders q.text.toList =
      (List.range q.args.length).map fun i : Nat => shift + 1 + (i : Int) := by
  by_cases hstar : text = "*"
  · rw [query, if_pos hstar] at hq
    cases hq
    rfl
  · obtain ⟨e, hparse⟩ := exists_expr_of_query hq hstar
    have hg := (parse_wellFormed hparse).genuine
    rcases query_eq_draft hparse shift hq with ⟨-, rfl⟩ | ⟨d, hd, -, rfl⟩
    · rfl
    · exact (Expr.legible hg hd).placeholders shift

/-- Six arguments after two others. -/
theorem placeholders_query_shifted :
    ∃ q, query "id:(1..5) and id:(way/1, node/2)" 2 = .ok q ∧
      placeholders q.text.toList = [3, 4, 5, 6, 7, 8] := by
  have hq : query "id:(1..5) and id:(way/1, node/2)" 2 =
      .ok ⟨"(osm_id >= $3 AND osm_id <= $4) AND " ++
          "((osm_id = $5 AND osm_type = $6) OR (osm_id = $7 AND osm_type = $8))",
        [.number (.whole 1), .number (.whole 5), .number (.whole 1), .text "way",
          .number (.whole 2), .text "node"]⟩ := by decide +kernel
  exact ⟨_, hq, placeholders_query hq⟩

end MapFilter
