import MapFilter.Proofs.Condition
import MapFilter.Proofs.Refinement
import MapFilter.Sql.Query

/-!
# How a compilation can end

A filter fails on its own only because its bounds are swapped, because a number has too many digits
or because there is no condition for it, unless it comes after so many arguments that the number of
a placeholder has too many digits. A filter that vanishes does not fail, but leaves one condition
less on the stack. So the length of the stack tells how many filters have vanished, and as soon as
one of them is part of something larger the stack runs empty.
-/

namespace MapFilter
open Compiler

/-! ## Failures of single filters -/

/-- The failures that a filter has on its own. -/
inductive Failure.OfFilter : Failure → Prop where
  | swappedBounds {lower upper : Number} : upper.lt lower = true →
      OfFilter (.swappedBounds lower upper)
  | tooManyDigits {count : Nat} : Failure.digitLimit < count → OfFilter (.tooManyDigits count)
  | unsupported : OfFilter .unsupported

lemma Bounds.readWhole_eq_error {cs : List Char} {e : Failure} (h : readWhole cs = .error e) :
    e.OfFilter := by
  unfold readWhole at h
  split at h
  · cases h
  · cases h
    apply Failure.OfFilter.tooManyDigits
    omega

lemma Bounds.readNumber_eq_error {g : Grain} {cs : List Char} {e : Failure}
    (h : readNumber g cs = .error e) : e.OfFilter := by
  cases g with
  | decimal => cases h
  | whole =>
    rcases hn : readWhole cs with x | n
    · simp only [readNumber, hn] at h
      cases h
      exact readWhole_eq_error hn
    · simp only [readNumber, hn] at h
      cases h

lemma Bounds.values_eq_error {g : Grain} {b : Bounds} {e : Failure}
    (h : b.values g = .error e) : e.OfFilter := by
  cases b with
  | both l d u =>
    rcases bind_eq_error_iff.1 h with hl | ⟨x, -, hrest⟩
    · exact readNumber_eq_error hl
    · rcases bind_eq_error_iff.1 hrest with hu | ⟨y, -, hdone⟩
      · exact readNumber_eq_error hu
      · cases hdone
  | upTo d u =>
    rcases bind_eq_error_iff.1 h with hu | ⟨y, -, hdone⟩
    · exact readNumber_eq_error hu
    · cases hdone
  | startingAt l d =>
    rcases bind_eq_error_iff.1 h with hl | ⟨x, -, hdone⟩
    · exact readNumber_eq_error hl
    · cases hdone

lemma rangeDraft_eq_error {column : String} {g : Grain} {ordered : Bool} {b : Bounds} {e : Failure}
    (h : rangeDraft column g ordered b = .error e) : e.OfFilter := by
  rcases bind_eq_error_iff.1 h with hvalues | ⟨⟨lower, upper⟩, -, hcase⟩
  · exact Bounds.values_eq_error hvalues
  · simp only at hcase
    split at hcase
    · split at hcase
      · rename_i hswap
        cases hcase
        exact .swappedBounds (by simp_all)
      · cases hcase
    all_goals cases hcase

lemma mapM_eq_error {α β : Type} {f : α → Except Failure β} {as : List α} {e : Failure}
    (h : as.mapM f = .error e) : ∃ a ∈ as, f a = .error e := by
  induction as with
  | nil => cases h
  | cons a as ih =>
    rw [List.mapM_cons] at h
    rcases bind_eq_error_iff.1 h with ha | ⟨b, -, hrest⟩
    · exact ⟨a, by simp, ha⟩
    · rcases bind_eq_error_iff.1 hrest with has | ⟨bs, -, hdone⟩
      · obtain ⟨c, hc, hfail⟩ := ih has
        exact ⟨c, by simp [hc], hfail⟩
      · cases hdone

lemma Filter.draft_eq_error {f : Filter} {e : Failure} (h : f.draft = .error e) : e.OfFilter := by
  cases f with
  | tag | tagAny | tagIn | tagLike | type | geometry => cases h
  | object op o =>
    rcases bind_eq_error_iff.1 h with hn | ⟨n, -, hdone⟩
    · exact Bounds.readWhole_eq_error hn
    · cases hdone
  | objects op os =>
    rcases bind_eq_error_iff.1 h with hos | ⟨ds, -, hdone⟩
    · obtain ⟨o, -, ho⟩ := mapM_eq_error hos
      rcases bind_eq_error_iff.1 ho with hn | ⟨n, -, hdone⟩
      · exact Bounds.readWhole_eq_error hn
      · cases hdone
    · cases hdone
  | number q op digits =>
    cases q with
    | id | changeset =>
      rcases bind_eq_error_iff.1 h with hn | ⟨n, -, hdone⟩
      · exact Bounds.readWhole_eq_error hn
      · cases hdone
    | outers | inners =>
      cases h
      exact .unsupported
  | numbers q op ns =>
    rcases bind_eq_error_iff.1 h with hns | ⟨ks, -, hdone⟩
    · obtain ⟨n, -, hn⟩ := mapM_eq_error hns
      exact Bounds.readWhole_eq_error hn
    · cases hdone
  | range q op r =>
    cases q with
    | id | area | length | changeset => exact rangeDraft_eq_error h
    | perimeter => cases h
    | vertices | outers | inners =>
      cases h
      exact .unsupported

/-- How many conditions a word or a pair of parentheses takes. -/
def Step.operands? : Step → Option Nat
  | .group | .neg => some 1
  | .join _ => some 2
  | _ => none

/-- Conditions are taken off the stack and replaced by one, unless there are too few of them. -/
lemma exec_connective {step : Step} {m : Nat} (hm : step.operands? = some m) (s : State) :
    (∃ t rest, rest.length + m = s.stack.length ∧
      exec (perform [step]) s = (.ok (), ⟨t :: rest, s.args, s.shift⟩)) ∨
    ∃ s', s'.args = s.args ∧ exec (perform [step]) s = (.error .emptyStack, s') := by
  obtain ⟨stack, args, shift⟩ := s
  cases step with
  | group =>
    cases hm
    cases stack with
    | nil => exact .inr ⟨_, rfl, rfl⟩
    | cons t stack => exact .inl ⟨_, _, rfl, exec_group_cons t stack args shift⟩
  | neg =>
    cases hm
    cases stack with
    | nil => exact .inr ⟨_, rfl, rfl⟩
    | cons t stack => exact .inl ⟨_, _, rfl, exec_neg_cons t stack args shift⟩
  | join j =>
    cases hm
    match stack with
    | [] => exact .inr ⟨_, rfl, rfl⟩
    | [t] => exact .inr ⟨⟨[], args, shift⟩, rfl, rfl⟩
    | u :: t :: stack => exact .inl ⟨_, _, rfl, exec_join_cons t u stack args shift j⟩
  | text | range | filter | single | root => cases hm

lemma connective_eq_error {step : Step} {s s' : State} {failure : Failure} {m : Nat}
    (h : exec (perform [step]) s = (.error failure, s')) (hm : step.operands? = some m) :
    failure = .emptyStack := by
  rcases exec_connective hm s with ⟨t, rest, -, hexec⟩ | ⟨s₁, -, hexec⟩
  · rw [hexec] at h
    cases h
  · rw [hexec] at h
    cases h
    rfl

lemma args_connective {step : Step} {m : Nat} (hm : step.operands? = some m) (s : State) :
    (exec (perform [step]) s).2.args = s.args := by
  rcases exec_connective hm s with ⟨t, rest, -, hexec⟩ | ⟨s₁, hargs, hexec⟩
  · rw [hexec]
  · rw [hexec, hargs]

lemma connective_eq_ok {step : Step} {s s' : State} {m : Nat}
    (h : exec (perform [step]) s = (.ok (), s')) (hm : step.operands? = some m) :
    ∃ t rest, rest.length + m = s.stack.length ∧ s' = ⟨t :: rest, s.args, s.shift⟩ := by
  rcases exec_connective hm s with ⟨t, rest, hrest, hexec⟩ | ⟨s₁, -, hexec⟩
  · rw [hexec] at h
    cases h
    exact ⟨t, rest, hrest, rfl⟩
  · rw [hexec] at h
    cases h

namespace Expr

variable {e : Expr}

/-- How many filters of an expression make no condition. -/
def vanishing (e : Expr) : Nat := e.filters.countP Filter.vanishes

lemma vanishing_join (j : Joint) (l r : Expr) (op : Padding) :
    (join j l op r).vanishing = l.vanishing + r.vanishing := List.countP_append

/-- Every filter that has vanished is missing on the stack, and every argument has been added. -/
lemma of_exec_ok (hg : e.Genuine) {s s' : State} (h : exec (perform e.steps) s = (.ok (), s')) :
    s'.stack.length + e.vanishing = s.stack.length + 1 ∧ s'.args = s.args ++ e.args ∧
      s'.shift = s.shift := by
  induction e generalizing s s' with
  | filter f =>
    have hf := hg f (by simp [filters])
    obtain ⟨o, hd, rfl⟩ := f.draftAfter_of_exec_ok hf.1 hf.2 s h
    have hdraft := (Filter.draftAfter_eq_ok_iff.1 hd).1
    refine ⟨?_, by simp [args, filters, Filter.args_extend hdraft], s.shift_extend o⟩
    have hvanishes := Filter.draft_eq_ok hf.1 hdraft
    cases o with
    | none => simp [vanishing, filters, hvanishes.1 rfl, State.extend]
    | some d =>
      have hstays : f.vanishes = false := by simpa using hvanishes
      simp [vanishing, filters, hstays, State.extend]
  | group l e r ih | neg op e ih =>
    rw [steps, exec_perform_append] at h
    obtain ⟨_, s₁, he, hstep⟩ := andThen_eq_ok_iff.1 h
    obtain ⟨hlen, hargs, hshift⟩ := ih hg he
    obtain ⟨t, rest, hrest, rfl⟩ := connective_eq_ok hstep rfl
    refine ⟨?_, hargs, hshift⟩
    change rest.length + 1 + e.vanishing = _
    omega
  | join j l op r ihl ihr =>
    have hgs := genuine_join.1 hg
    rw [steps, exec_perform_append, exec_perform_append] at h
    obtain ⟨_, s₁, hlr, hstep⟩ := andThen_eq_ok_iff.1 h
    obtain ⟨_, s₂, hl, hr⟩ := andThen_eq_ok_iff.1 hlr
    obtain ⟨hlenl, hargsl, hshiftl⟩ := ihl hgs.1 hl
    obtain ⟨hlenr, hargsr, hshiftr⟩ := ihr hgs.2 hr
    obtain ⟨t, rest, hrest, rfl⟩ := connective_eq_ok hstep rfl
    refine ⟨?_, ?_, hshiftr.trans hshiftl⟩
    · rw [vanishing_join]
      change rest.length + 1 + _ = _
      omega
    · rw [hargsr, hargsl]
      simp [args, filters]

lemma last_of_exec_ok (hg : e.Genuine) {s s' : State}
    (h : exec (perform e.steps) s = (.ok (), s')) : s'.last = s.last + e.args.length := by
  obtain ⟨-, hargs, hshift⟩ := of_exec_ok hg h
  rw [State.last, State.last, hargs, hshift, List.length_append]
  omega

/-- Compiling fails because a filter fails where it stands or because the stack runs empty. -/
lemma exec_eq_error (hg : e.Genuine) {s s' : State} {failure : Failure}
    (h : exec (perform e.steps) s = (.error failure, s')) :
    failure = .emptyStack ∨ ∃ x ∈ e.placed s.last, x.2.failure? x.1 = some failure := by
  induction e generalizing s s' with
  | filter f =>
    right
    have hf := hg f (by simp [filters])
    refine ⟨(s.last, f), by simp [placed], ?_⟩
    rw [Filter.failure?_eq hf.1 hf.2, f.draftAfter_of_exec_error hf.1 hf.2 s h]
  | group l e r ih | neg op e ih =>
    rw [steps, exec_perform_append] at h
    rcases andThen_eq_error_iff.1 h with he | ⟨_, s₁, -, hstep⟩
    · exact ih hg he
    · exact .inl (connective_eq_error hstep rfl)
  | join j l op r ihl ihr =>
    have hgs := genuine_join.1 hg
    rw [steps, exec_perform_append, exec_perform_append] at h
    rcases andThen_eq_error_iff.1 h with hlr | ⟨_, s₁, -, hstep⟩
    · rcases andThen_eq_error_iff.1 hlr with hl | ⟨_, s₂, hl, hr⟩
      · rcases ihl hgs.1 hl with hempty | ⟨x, hx, hfail⟩
        · exact .inl hempty
        · exact .inr ⟨x, List.mem_append_left _ hx, hfail⟩
      · rcases ihr hgs.2 hr with hempty | ⟨x, hx, hfail⟩
        · exact .inl hempty
        · rw [last_of_exec_ok hgs.1 hl] at hx
          exact .inr ⟨x, List.mem_append_right _ hx, hfail⟩
    · exact .inl (connective_eq_error hstep rfl)

/-- If compiling succeeds, no filter fails where it stands. -/
lemma failure?_of_exec_ok (hg : e.Genuine) {s s' : State}
    (h : exec (perform e.steps) s = (.ok (), s')) :
    ∀ x ∈ e.placed s.last, x.2.failure? x.1 = none := by
  induction e generalizing s s' with
  | filter f =>
    have hf := hg f (by simp [filters])
    obtain ⟨o, hd, -⟩ := f.draftAfter_of_exec_ok hf.1 hf.2 s h
    rw [placed, List.forall_mem_singleton, Filter.failure?_eq hf.1 hf.2, hd]
  | group l e r ih | neg op e ih =>
    rw [steps, exec_perform_append] at h
    obtain ⟨_, s₁, he, -⟩ := andThen_eq_ok_iff.1 h
    exact ih hg he
  | join j l op r ihl ihr =>
    have hgs := genuine_join.1 hg
    rw [steps, exec_perform_append, exec_perform_append] at h
    obtain ⟨_, s₁, hlr, -⟩ := andThen_eq_ok_iff.1 h
    obtain ⟨_, s₂, hl, hr⟩ := andThen_eq_ok_iff.1 hlr
    have hnoner := ihr hgs.2 hr
    rw [last_of_exec_ok hgs.1 hl] at hnoner
    exact List.forall_mem_append.2 ⟨ihl hgs.1 hl, hnoner⟩

/-- A number is too long only if it is that of an argument that has been added. -/
lemma added_of_exec_long (hg : e.Genuine) {s s' : State}
    (h : exec (perform e.steps) s = (.error .longPlaceholder, s')) :
    ∃ added, s'.args = s.args ++ added ∧ ¬AllWritable s.last added.length := by
  induction e generalizing s s' with
  | filter f =>
    have hf := hg f (by simp [filters])
    rcases f.ends hf.1 hf.2 s with ⟨o, -, -, hr⟩ | ⟨x, added, hd, -, -, hr⟩ | ⟨added, -, hlong, hr⟩
    · rw [hr] at h
      cases h
    · rw [hr] at h
      cases h
      cases Filter.draft_eq_error hd
    · rw [hr] at h
      cases h
      exact ⟨added, rfl, hlong⟩
  | group l e r ih | neg op e ih =>
    rw [steps, exec_perform_append] at h
    rcases andThen_eq_error_iff.1 h with he | ⟨_, s₁, -, hstep⟩
    · exact ih hg he
    · cases connective_eq_error hstep rfl
  | join j l op r ihl ihr =>
    have hgs := genuine_join.1 hg
    rw [steps, exec_perform_append, exec_perform_append] at h
    rcases andThen_eq_error_iff.1 h with hlr | ⟨_, s₁, -, hstep⟩
    · rcases andThen_eq_error_iff.1 hlr with hl | ⟨_, s₂, hl, hr⟩
      · exact ihl hgs.1 hl
      · obtain ⟨added, hadded, hlong⟩ := ihr hgs.2 hr
        rw [last_of_exec_ok hgs.1 hl] at hlong
        refine ⟨l.args ++ added, ?_, ?_⟩
        · rw [hadded, (of_exec_ok hgs.1 hl).2.1, List.append_assoc]
        · rw [List.length_append, allWritable_add]
          exact fun hboth => hlong hboth.2
    · cases connective_eq_error hstep rfl

/-- A word or a pair of parentheses leaves a condition. -/
lemma stack_ne_nil (hsingle : ∀ f, e ≠ .filter f) {s s' : State}
    (h : exec (perform e.steps) s = (.ok (), s')) : s'.stack ≠ [] := by
  cases e with
  | filter f => exact absurd rfl (hsingle f)
  | group | neg | join =>
    rw [steps, exec_perform_append] at h
    obtain ⟨_, s₁, -, hstep⟩ := andThen_eq_ok_iff.1 h
    obtain ⟨t, rest, -, rfl⟩ := connective_eq_ok hstep rfl
    exact List.cons_ne_nil t rest

end Expr

/-! ## Whole filters -/

/-- A text that has a query is an expression, unless it is the star. -/
lemma exists_expr_of_query {text : String} {shift : Int} {q : Query}
    (hq : query text shift = .ok q) (hstar : text ≠ "*") : ∃ e, parse text = .ok (.expr e) := by
  unfold query State.compile at hq
  rw [if_neg hstar] at hq
  rcases hparse : parse text with r | tree
  · simp [hparse] at hq
  · cases tree with
    | everything => exact absurd (parse_eq_everything_iff.1 hparse) hstar
    | expr e => exact ⟨e, rfl⟩

section Outcomes

variable {text : String} {e : Expr} (hparse : parse text = .ok (.expr e)) (shift : Int)

include hparse

/-- The last step of a filter does nothing. -/
lemma compile_eq (s : State) : s.compile text =
    ((exec (perform e.steps) s).1.mapError .failure, (exec (perform e.steps) s).2) := by
  have hexec : exec (perform (Tree.expr e).steps) s = exec (perform e.steps) s := by
    rw [Tree.steps, exec_perform_append]
    rcases exec (perform e.steps) s with ⟨_ | _, s'⟩ <;> rfl
  simp only [State.compile, hparse]
  change ((exec (perform (Tree.expr e).steps) s).1.mapError _,
    (exec (perform (Tree.expr e).steps) s).2) = _
  rw [hexec]

lemma ne_star : text ≠ "*" := by
  intro hstar
  rw [parse_eq_everything_iff.2 hstar] at hparse
  cases hparse

/-- A vanished filter on its own leaves nothing. -/
lemma compile_of_single {f : Filter} (he : e = .filter f)
    (hfail : ∀ x ∈ e.placed shift, x.2.failure? x.1 = none) (hvanishes : f.vanishes = true) :
    (State.fresh shift).compile text = (.ok (), .fresh shift) := by
  subst he
  have hf := (parse_wellFormed hparse).genuine f (by simp [Expr.filters])
  rw [Expr.placed, List.forall_mem_singleton, Filter.failure?_eq hf.1 hf.2] at hfail
  rcases hd : f.draftAfter shift with x | o
  · simp [hd] at hfail
  · have hnone : o = none :=
      (Filter.draft_eq_ok hf.1 (Filter.draftAfter_eq_ok_iff.1 hd).1).2 hvanishes
    rw [compile_eq hparse, f.exec_of_draftAfter_ok hf.1 hf.2 _ (by rwa [State.last_fresh]), hnone]
    rfl

/-- A vanished filter in something larger empties the stack. -/
lemma compile_of_vanishes (hfail : ∀ x ∈ e.placed shift, x.2.failure? x.1 = none)
    (hvanishes : ∃ f ∈ e.filters, f.vanishes = true) (hsingle : ∀ f, e ≠ .filter f) :
    ((State.fresh shift).compile text).1 = .error (.failure .emptyStack) := by
  have hg := (parse_wellFormed hparse).genuine
  rw [compile_eq hparse]
  rcases hexec : exec (perform e.steps) (.fresh shift) with ⟨failure | _, s'⟩
  · rcases Expr.exec_eq_error hg hexec with rfl | ⟨x, hx, hfailure⟩
    · rfl
    · rw [State.last_fresh] at hx
      rw [hfail x hx] at hfailure
      cases hfailure
  · -- Nothing would be left of the one condition that the last word has pushed.
    have hlen : s'.stack.length + e.vanishing = 1 := (Expr.of_exec_ok hg hexec).1
    have hpos : 0 < e.vanishing := List.countP_pos_iff.2 hvanishes
    have hstack : 0 < s'.stack.length := List.length_pos_iff.2 (Expr.stack_ne_nil hsingle hexec)
    omega

lemma query_eq_ok_iff {q : Query} : query text shift = .ok q ↔
    ∃ s, (State.fresh shift).compile text = (.ok (), s) ∧ ⟨s.query, s.args⟩ = q := by
  unfold query
  rw [if_neg (ne_star hparse)]
  rcases (State.fresh shift).compile text with ⟨_ | _, s⟩ <;> simp

/-- A query is that of a draft, or it is empty because a single filter has vanished. -/
lemma query_eq_draft {q : Query} (hq : query text shift = .ok q) :
    ((∃ f, e = .filter f ∧ f.vanishes = true) ∧ q = ⟨"", []⟩) ∨
      ∃ d, e.draft? = some d ∧ AllWritable shift d.args.length ∧ q = ⟨d.number shift, d.args⟩ := by
  have hg := (parse_wellFormed hparse).genuine
  obtain ⟨s, hs, rfl⟩ := (query_eq_ok_iff hparse shift).1 hq
  have hexec : exec (perform e.steps) (.fresh shift) = (.ok (), s) := by
    rw [compile_eq hparse] at hs
    rcases hrun : exec (perform e.steps) (.fresh shift) with ⟨_ | _, s'⟩
    · rw [hrun] at hs
      cases hs
    · rw [hrun] at hs
      cases hs
      rfl
  have hfail := Expr.failure?_of_exec_ok hg hexec
  rw [State.last_fresh] at hfail
  by_cases hvanishes : ∃ f ∈ e.filters, f.vanishes = true
  · left
    have hsingle : ∃ f, e = .filter f := by
      by_contra hlarger
      push Not at hlarger
      have herror := compile_of_vanishes hparse shift hfail hvanishes hlarger
      rw [hs] at herror
      cases herror
    obtain ⟨f, rfl⟩ := hsingle
    have hf : f.vanishes = true := by simpa [Expr.filters] using hvanishes
    rw [compile_of_single hparse shift rfl hfail hf] at hs
    cases hs
    exact ⟨⟨f, rfl, hf⟩, rfl⟩
  · right
    obtain ⟨d, hd, hwritable⟩ := Expr.exists_draft hg (by simpa using hvanishes) hfail
    refine ⟨d, hd, hwritable, ?_⟩
    rw [Expr.exec_of_draft hg hd _ (by rwa [State.last_fresh]), State.extend, State.last_fresh]
      at hexec
    cases hexec
    simp [State.query, State.fresh]

end Outcomes

end MapFilter
