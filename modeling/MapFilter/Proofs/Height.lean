import MapFilter.Proofs.Composition
import MapFilter.Proofs.Spacing

/-!
# The height of the stack

Whether compiling an expression fails, and with which failure, depends on its filters, on the height
of the stack and on the number of the last argument. It does not depend on what is on the stack or
what the arguments are.
-/

namespace MapFilter

open Compiler

/-- The height after `m` conditions have been taken off the stack and one has been put in their
place. -/
def replaceTop (m n : Nat) : Except Failure Nat :=
  if n < m then .error .emptyStack else .ok (n - m + 1)

/-- The height of the stack after compiling an expression, if it was `n` before and `last` was the
number of the last argument. -/
def Expr.height : Expr → Int → Nat → Except Failure Nat
  | .filter f, last, n => (f.draftAfter last).map fun o => n + o.toList.length
  | .group _ e _, last, n => e.height last n >>= replaceTop 1
  | .neg _ e, last, n => e.height last n >>= replaceTop 1
  | .join _ l _ r, last, n =>
    l.height last n >>= r.height (last + l.args.length) >>= replaceTop 2

/-- The height of the stack after a run, or why it has failed. -/
def Compiler.heightAfter (r : Except Failure Unit × State) : Except Failure Nat :=
  (outcome r).map (·.stack.length)

lemma heightAfter_andThen {r : Except Failure Unit × State}
    {f : Unit → State → Except Failure Unit × State} {g : Nat → Except Failure Nat}
    (h : ∀ s, r = (.ok (), s) → heightAfter (f () s) = g s.stack.length) :
    heightAfter (andThen r f) = heightAfter r >>= g := by
  rcases r with ⟨e | _, s⟩
  · rfl
  · exact h s rfl

lemma heightAfter_connective {step : Step} {m : Nat} (hm : step.operands? = some m) (s : State) :
    heightAfter (exec (perform [step]) s) = replaceTop m s.stack.length := by
  obtain ⟨stack, args, shift⟩ := s
  cases step with
  | group | neg =>
    cases hm
    cases stack with
    | nil => rfl
    | cons t stack => simp [replaceTop, heightAfter, exec_group_cons, exec_neg_cons, outcome, Except.map]
  | join j =>
    cases hm
    rcases stack with _ | ⟨u, _ | ⟨t, stack⟩⟩
    · rfl
    · rfl
    · simp [replaceTop, heightAfter, exec_join_cons, outcome, Except.map]
  | text | range | filter | single | root => cases hm

/-- The height of the stack is what an expression says of it. -/
theorem Expr.heightAfter_eq {e : Expr} (hg : e.Genuine) (s : State) :
    heightAfter (exec (perform e.steps) s) = e.height s.last s.stack.length := by
  induction e generalizing s with
  | filter f =>
    have hf := hg f (by simp [filters])
    rw [heightAfter, Filter.outcome_eq hf.1 hf.2, height]
    rcases f.draftAfter s.last with x | _ | d <;> rfl
  | group left e right ih =>
    rw [steps, exec_perform_append, height, ← ih hg s]
    exact heightAfter_andThen fun s' _ => heightAfter_connective rfl s'
  | neg op e ih =>
    rw [steps, exec_perform_append, height, ← ih hg s]
    exact heightAfter_andThen fun s' _ => heightAfter_connective rfl s'
  | join j l op r ihl ihr =>
    have hgs := genuine_join.1 hg
    have hr : ∀ s', exec (perform l.steps) s = (.ok (), s') →
        heightAfter (exec (perform r.steps) s') =
          r.height (s.last + l.args.length) s'.stack.length := by
      intro s' hs'
      rw [ihr hgs.2, last_of_exec_ok hgs.1 hs']
    have hboth : heightAfter (exec (perform (l.steps ++ r.steps)) s) =
        l.height s.last s.stack.length >>= r.height (s.last + l.args.length) := by
      rw [exec_perform_append, ← ihl hgs.1 s]
      exact heightAfter_andThen hr
    rw [steps, exec_perform_append, height, ← hboth]
    exact heightAfter_andThen fun s' _ => heightAfter_connective rfl s'

section Texts

variable {text : String} {e : Expr} (hparse : parse text = .ok (.expr e))

include hparse

/-- Compiling a text fails where there is no height for its expression. -/
lemma compile_eq_error_iff (shift : Int) (x : Error) :
    ((State.fresh shift).compile text).1 = .error x ↔
      ∃ failure, e.height shift 0 = .error failure ∧ x = .failure failure := by
  have hheight : heightAfter (exec (perform e.steps) (.fresh shift)) = e.height shift 0 := by
    rw [Expr.heightAfter_eq (parse_wellFormed hparse).genuine, State.last_fresh]
    rfl
  rw [compile_eq hparse, ← hheight]
  rcases exec (perform e.steps) (.fresh shift) with ⟨failure | _, s⟩
  · simp [heightAfter, outcome, Except.map, Except.mapError, eq_comm]
  · simp [heightAfter, outcome, Except.map, Except.mapError]

/-- A query is what the draft says, or nothing if there is no draft. -/
lemma query_eq_elim {shift : Int} {q : Query} (hq : query text shift = .ok q) :
    q = e.draft?.elim ⟨"", []⟩ fun d => ⟨d.number shift, d.args⟩ := by
  rcases query_eq_draft hparse shift hq with ⟨⟨f, rfl, hvanishes⟩, rfl⟩ | ⟨d, hd, -, rfl⟩
  · have hf := (parse_wellFormed hparse).genuine f (by simp [Expr.filters])
    cases hd : (Expr.filter f).draft? with
    | none => rfl
    | some d =>
      have hnone := (Filter.draft_eq_ok hf.1 (Expr.draft?_filter_eq_some.1 hd)).2 hvanishes
      cases hnone
  · rw [hd]
    rfl

end Texts

end MapFilter
