import MapFilter.Proofs.Height
import MapFilter.Proofs.Placeholders

/-!
# The shift only renumbers

With another shift a query has other numbers after its dollar signs, and nothing else changes: not
its arguments, not whether there is a query, not why there is none. Only a number that is too long
to be written can make a difference. A text is valid if it has a query.
-/

namespace MapFilter

open Compiler

/-! ## Renumbering a text -/

/-- Adds `k` to the numbers after dollar signs. With `skip`, the digits in front are left out: they
are those of a number that has been replaced. -/
def renumberFrom (k : Int) : Bool → List Char → List Char
  | _, [] => []
  | skip, c :: cs =>
    if skip && c.isDigit then renumberFrom k true cs
    else if c = '$' then
      match leadingDigits? cs with
      | some n => '$' :: ((toString (n + k)).toList ++ renumberFrom k true cs)
      | none => '$' :: renumberFrom k false cs
    else c :: renumberFrom k false cs

/-- A text with every placeholder `$n` replaced by `$(n + k)`. -/
def renumber (k : Int) (s : String) : String := .ofList (renumberFrom k false s.toList)

/-- A query whose placeholders are moved by `k`. -/
def Query.renumbered (k : Int) (q : Query) : Query := ⟨renumber k q.text, q.args⟩

section Scanning

variable {k : Int} {u v : List Char}

lemma renumberFrom_append (hu : '$' ∉ u) :
    renumberFrom k false (u ++ v) = u ++ renumberFrom k false v := by
  induction u with
  | nil => rfl
  | cons c u ih =>
    rw [List.mem_cons, not_or] at hu
    rw [List.cons_append, renumberFrom, Bool.false_and, if_neg Bool.false_ne_true,
      if_neg (Ne.symm hu.1), ih hu.2, List.cons_append]

lemma renumberFrom_digits (hu : ∀ c ∈ u, c.isDigit = true) :
    renumberFrom k true (u ++ v) = renumberFrom k true v := by
  induction u with
  | nil => rfl
  | cons c u ih =>
    rw [List.forall_mem_cons] at hu
    rw [List.cons_append, renumberFrom, hu.1, Bool.and_self, if_pos rfl, ih hu.2]

lemma renumberFrom_skip (hv : NoDigitFirst v) : renumberFrom k true v = renumberFrom k false v := by
  cases v with
  | nil => rfl
  | cons c v =>
    have hc : c.isDigit = false := hv c rfl
    rw [renumberFrom, renumberFrom, hc, Bool.and_false, Bool.and_false]

/-- The number of a placeholder is read to its end and replaced. -/
lemma renumberFrom_placeholder (n : Nat) (hv : NoDigitFirst v) :
    renumberFrom k false ('$' :: ((toString n).toList ++ v)) =
      '$' :: ((toString (n + k)).toList ++ renumberFrom k false v) := by
  have htext : (toString n).toList = Nat.toDigits 10 n := Nat.toList_repr
  have hdigits : ∀ c ∈ Nat.toDigits 10 n, c.isDigit = true := fun c hc =>
    Nat.isDigit_of_mem_toDigits (by omega) (by omega) hc
  rw [htext, renumberFrom, Bool.false_and, if_neg Bool.false_ne_true, if_pos rfl,
    leadingDigits?_toDigits n hv, renumberFrom_digits hdigits, renumberFrom_skip hv]

end Scanning

/-- A draft that can be read is renumbered as if it had been numbered from another place. -/
lemma Draft.Legible.renumber {d : Draft} (hd : d.Legible) (k : Int) (n : Nat) :
    renumberFrom k false (d.number n).toList = (d.number (n + k)).toList := by
  induction d generalizing n with
  | nil => rfl
  | cons x d ih =>
    cases x with
    | text s =>
      rw [number_text, number_text, String.toList_append, String.toList_append,
        renumberFrom_append hd.1, ih hd.2]
    | arg a =>
      have hchars : (number n (.arg a :: d)).toList =
          '$' :: ((toString (n + 1)).toList ++ (number (n + 1 : Nat) d).toList) := by
        change ("$" ++ toString (n + 1) ++ number (n + 1 : Nat) d).toList = _
        simp
      have hnext : ((n + 1 : Nat) : Int) + k = n + k + 1 := by omega
      rw [hchars, renumberFrom_placeholder (n + 1) (hd.1 _), ih hd.2, hnext, number_arg]
      simp

example : renumber 10 "osm_id = $9 OR osm_id = ANY($12)" = "osm_id = $19 OR osm_id = ANY($22)" := by
  decide +kernel

/-! ## Other numbers -/

namespace Compiler

/-- In a run from `s`, with the height `h` after the last argument that it begins with, arguments
are added. After any other argument the height is the same, if their numbers can be written
there. -/
def Steady (s : State) (h : Int → Except Failure Nat) (r : Except Failure Unit × State) : Prop :=
  ∃ added, r.2.args = s.args ++ added ∧ (r.1 ≠ .error .longPlaceholder →
    ∀ last, AllWritable last added.length → h last = heightAfter r)

namespace Steady

variable {s : State} {h : Int → Except Failure Nat}

lemma append {as bs : List Step} {g : Int → Nat → Except Failure Nat} {c : Nat}
    (has : Steady s h (exec (perform as) s))
    (hc : ∀ s₁, exec (perform as) s = (.ok (), s₁) → s₁.args.length = s.args.length + c)
    (hbs : ∀ s₁, exec (perform as) s = (.ok (), s₁) →
      Steady s₁ (fun last => g last s₁.stack.length) (exec (perform bs) s₁)) :
    Steady s (fun last => h last >>= g (last + c)) (exec (perform (as ++ bs)) s) := by
  obtain ⟨added, hadded, hsame⟩ := has
  rw [exec_perform_append]
  generalize exec (perform as) s = r at hadded hsame hc hbs ⊢
  rcases r with ⟨x | _, s₁⟩
  · refine ⟨added, hadded, fun hne last hwritable => ?_⟩
    have hfirst : h last = .error x := hsame hne last hwritable
    simp only [hfirst]
    rfl
  · obtain ⟨added', hadded', hsame'⟩ := hbs s₁ rfl
    have hcount : added.length = c := by
      have hlength := hc s₁ rfl
      rw [hadded, List.length_append] at hlength
      omega
    refine ⟨added ++ added', by rw [andThen_ok, hadded', hadded, List.append_assoc], ?_⟩
    intro hne last hwritable
    rw [List.length_append, allWritable_add, hcount] at hwritable
    have hfirst : h last = .ok s₁.stack.length := hsame (by simp) last (hcount ▸ hwritable.1)
    simp only [hfirst]
    exact hsame' hne _ hwritable.2

lemma connective {step : Step} {m : Nat} (hm : step.operands? = some m) (s : State) :
    Steady s (fun _ => replaceTop m s.stack.length) (exec (perform [step]) s) :=
  ⟨[], by rw [args_connective hm, List.append_nil], fun _ _ _ => (heightAfter_connective hm s).symm⟩

end Steady

end Compiler

lemma Filter.steady {f : Filter} (hs : f.Spelled) (hp : f.Proper) (s : State) :
    Steady s (fun last => (Expr.filter f).height last s.stack.length)
      (exec (perform (Expr.filter f).steps) s) := by
  rcases f.ends hs hp s with ⟨o, hd, -, hr⟩ | ⟨e, added, hd, -, hle, hr⟩ | ⟨added, -, -, hr⟩
  · refine ⟨f.args, by rw [hr, args_extend hd], fun _ last hwritable => ?_⟩
    simp only [hr, Expr.height, draftAfter_eq_ok_iff.2 ⟨hd, hwritable⟩]
    cases o <;> rfl
  · refine ⟨added, by rw [hr], fun _ last hwritable => ?_⟩
    simp only [hr, Expr.height, draftAfter, if_pos (hwritable.mono hle), hd]
    rfl
  · exact ⟨added, by rw [hr], fun hne => absurd (by rw [hr]) hne⟩

namespace Expr

lemma length_args_of_exec_ok {e : Expr} (hg : e.Genuine) {s s' : State}
    (h : exec (perform e.steps) s = (.ok (), s')) :
    s'.args.length = s.args.length + e.args.length := by
  rw [(of_exec_ok hg h).2.1, List.length_append]

/-- An expression ends in the same way wherever its numbers can be written. -/
theorem steady {e : Expr} (hg : e.Genuine) (s : State) :
    Steady s (fun last => e.height last s.stack.length) (exec (perform e.steps) s) := by
  induction e generalizing s with
  | filter f =>
    have hf := hg f (by simp [filters])
    exact f.steady hf.1 hf.2 s
  | group left e right ih | neg op e ih =>
    exact (ih hg s).append (g := fun _ => replaceTop 1)
      (fun _ => length_args_of_exec_ok (e := e) hg) fun s₁ _ => .connective rfl s₁
  | join j l op r ihl ihr =>
    have hgs := genuine_join.1 hg
    have hboth := (ihl hgs.1 s).append (g := r.height) (fun _ => length_args_of_exec_ok hgs.1)
      fun s₁ _ => ihr hgs.2 s₁
    refine hboth.append (g := fun _ => replaceTop 2) (c := l.args.length + r.args.length) ?_
      fun s₂ _ => .connective rfl s₂
    intro s₂ h
    rw [exec_perform_append] at h
    obtain ⟨_, s₁, hl, hr⟩ := andThen_eq_ok_iff.1 h
    rw [length_args_of_exec_ok hgs.2 hr, length_args_of_exec_ok hgs.1 hl, Nat.add_assoc]

/-- After a greater argument an expression can fail because a number is too long, and in no other
way that it does not fail in anyway. -/
lemma height_add (e : Expr) (last k n : Nat) :
    e.height (last + k : Nat) n = .error .longPlaceholder ∨
      e.height (last + k : Nat) n = e.height last n := by
  induction e generalizing last n with
  | filter f =>
    by_cases hwritable : AllWritable (last + k : Nat) f.writes
    · have hless : AllWritable last f.writes := hwritable.of_le (Nat.le_add_right last k)
      rw [height, height, Filter.draftAfter, Filter.draftAfter, if_pos hwritable, if_pos hless]
      exact .inr rfl
    · rw [height, Filter.draftAfter, if_neg hwritable]
      exact .inl rfl
  | group left e right ih | neg op e ih =>
    rw [height, height]
    rcases ih last n with h | h
    · rw [h]
      exact .inl rfl
    · rw [h]
      exact .inr rfl
  | join j l op r ihl ihr =>
    have hnext : ((last + k : Nat) : Int) + l.args.length = (last + l.args.length + k : Nat) := by
      omega
    rw [height, height, hnext]
    rcases ihl last n with h | h
    · rw [h]
      exact .inl rfl
    · rw [h]
      rcases l.height last n with x | m
      · exact .inr rfl
      · rw [ok_bind, ok_bind]
        rcases ihr (last + l.args.length) m with h' | h'
        · rw [h']
          exact .inl rfl
        · rw [h', Int.natCast_add]
          exact .inr rfl

end Expr

/-! ## Whole texts -/

section Expressions

variable {text : String} {e : Expr} (hparse : parse text = .ok (.expr e))

include hparse

lemma query_eq_error_iff (shift : Int) (x : Error) : query text shift = .error x ↔
    ∃ failure, e.height shift 0 = .error failure ∧ x = .failure failure := by
  rw [← compile_eq_error_iff hparse shift, query, if_neg (ne_star hparse)]
  rcases (State.fresh shift).compile text with ⟨y | _, s⟩ <;> simp

/-- The draft of an expression is the same for every shift. -/
lemma query_expr_renumbered {k : Int} (hheight : e.height k 0 = e.height 0 0) :
    query text k = (query text 0).map (Query.renumbered k) := by
  cases hzero : query text 0 with
  | error x =>
    have hx := (query_eq_error_iff hparse 0 x).1 hzero
    rw [← hheight] at hx
    exact (query_eq_error_iff hparse k x).2 hx
  | ok q =>
    cases hk : query text k with
    | error x =>
      have hx := (query_eq_error_iff hparse k x).1 hk
      rw [hheight] at hx
      rw [(query_eq_error_iff hparse 0 x).2 hx] at hzero
      cases hzero
    | ok q' =>
      rw [query_eq_elim hparse hk, query_eq_elim hparse hzero]
      cases hd : e.draft? with
      | none => rfl
      | some d =>
        have hlegible := Expr.legible (parse_wellFormed hparse).genuine hd
        have hrenumber : renumberFrom k false (d.number 0).toList = (d.number k).toList := by
          simpa using hlegible.renumber k 0
        simp only [Option.elim, Except.map, Query.renumbered, renumber, hrenumber,
          String.ofList_toList]

/-- The numbers from the shift on can be written if those of the arguments that are there without a
shift can. -/
lemma height_eq_of_writable {k : Nat}
    (h : AllWritable k ((State.fresh 0).compile text).2.args.length) :
    e.height k 0 = e.height 0 0 := by
  have hg := (parse_wellFormed hparse).genuine
  have hheight := Expr.heightAfter_eq hg (.fresh 0)
  rw [State.last_fresh] at hheight
  obtain ⟨added, hadded, hsame⟩ := Expr.steady hg (.fresh 0)
  have hlength : ((State.fresh 0).compile text).2.args.length = added.length := by
    rw [compile_eq hparse, hadded]
    rfl
  rw [hlength] at h
  refine (hsame (fun hlong => ?_) k h).trans hheight
  -- without a shift no number is too long, as greater ones are not
  obtain ⟨added', hadded', hnot⟩ := Expr.added_of_exec_long hg (Prod.ext hlong rfl)
  obtain rfl : added' = added := List.append_cancel_left (hadded'.symm.trans hadded)
  rw [State.last_fresh] at hnot
  exact hnot (h.of_le (Nat.zero_le k))

/-- A shift beyond which a number is too long leaves no query. -/
lemma query_of_not_writable {k : Int} {q : Query} (hq : query text 0 = .ok q)
    (h : ¬AllWritable k q.args.length) : query text k = .error (.failure .longPlaceholder) := by
  rcases query_eq_draft hparse 0 hq with ⟨-, rfl⟩ | ⟨d, hd, -, rfl⟩
  · exact absurd allWritable_zero h
  · rw [query_of_draft hparse hd, if_neg h]

lemma validate_expr : validate text = (query text 0).map fun _ => text := by
  rw [validate, query, if_neg (ne_star hparse)]
  rcases (State.fresh 0).compile text with ⟨x | _, s⟩ <;> rfl

end Expressions

/-- A query with a shift is the query without it, its placeholders moved by the shift: it has the same
arguments, and if the one fails so does the other, for the same reason. This is so while the numbers
of all arguments that are added without the shift can be written when they are moved. Beyond that it
may fail because they cannot, and does if there is a query without the shift. Checking a text is
asking whether it has a query. -/
theorem query_eq_renumbered (text : String) (k : Nat) :
    (((State.fresh 0).compile text).2.args.length = 0 ∨
        k + ((State.fresh 0).compile text).2.args.length < Nat.pow 10 Failure.digitLimit →
      query text k = (query text 0).map (Query.renumbered k)) ∧
    (query text k = (query text 0).map (Query.renumbered k) ∨
      query text k = .error (.failure .longPlaceholder)) ∧
    (∀ q, query text 0 = .ok q → q.args ≠ [] →
      Nat.pow 10 Failure.digitLimit ≤ k + q.args.length →
      query text k = .error (.failure .longPlaceholder)) ∧
    validate text = (query text 0).map fun _ => text := by
  cases hparse : parse text with
  | error r =>
    have hstar : text ≠ "*" := by
      intro hstar
      rw [parse_eq_everything_iff.2 hstar] at hparse
      cases hparse
    simp [query, validate, State.compile, hparse, hstar, Except.map]
  | ok tree =>
    cases tree with
    | everything =>
      have hquery : ∀ j, query text j = .ok ⟨"1=1", []⟩ := fun j =>
        if_pos (parse_eq_everything_iff.1 hparse)
      rw [hquery, hquery, validate, State.compile, hparse]
      refine ⟨fun _ => rfl, .inl rfl, fun q hq hne => ?_, rfl⟩
      cases hq
      exact absurd rfl hne
    | expr e =>
      refine ⟨fun hbound => ?_, ?_, fun q hq hne hbound => ?_, validate_expr hparse⟩
      · exact query_expr_renumbered hparse
          (height_eq_of_writable hparse (allWritable_natCast_iff.2 hbound))
      · rcases e.height_add 0 k 0 with hlong | hheight
        · rw [Nat.zero_add] at hlong
          exact .inr ((query_eq_error_iff hparse k _).2 ⟨_, hlong, rfl⟩)
        · rw [Nat.zero_add] at hheight
          exact .inl (query_expr_renumbered hparse hheight)
      · refine query_of_not_writable hparse hq fun hwritable => ?_
        have hlength := List.length_pos_iff.2 hne
        rcases allWritable_natCast_iff.1 hwritable with hzero | hlt <;> omega

/-- Three placeholders are moved by ten. -/
theorem query_eq_renumbered_range :
    ((State.fresh 0).compile "highway=* and id:(1..5)").2.args.length = 3 ∧
      query "highway=* and id:(1..5)" (10 : Nat) =
        .ok ⟨"tags ? $11 AND (osm_id >= $12 AND osm_id <= $13)",
          [.text "highway", .number (.whole 1), .number (.whole 5)]⟩ := by
  have hcount : ((State.fresh 0).compile "highway=* and id:(1..5)").2.args.length = 3 := by
    decide +kernel
  refine ⟨hcount, ?_⟩
  rw [(query_eq_renumbered "highway=* and id:(1..5)" 10).1 (.inr (by decide +kernel))]
  decide +kernel

/-- After the greatest number that can be written, a text that has a query has none. -/
theorem not_query_eq_renumbered_greatest :
    query "a=b" 0 = .ok ⟨"tags @> $1", [.text "\x7b\"a\": \"b\"\x7d"]⟩ ∧
      validate "a=b" = .ok "a=b" ∧
      query "a=b" greatestNumber = .error (.failure .longPlaceholder) := by
  have hparse : parse "a=b" = .ok (.expr (.filter (.tag .equal (.words ⟨.word, "a"⟩ []) ⟨none, none⟩
      (.words ⟨.word, "b"⟩ [])))) := by decide +kernel
  have hquery : query "a=b" 0 = .ok ⟨"tags @> $1", [.text "\x7b\"a\": \"b\"\x7d"]⟩ := by
    decide +kernel
  exact ⟨hquery, by decide +kernel,
    query_of_not_writable hparse hquery (not_allWritable_greatestNumber Nat.one_pos)⟩

end MapFilter
