import MapFilter.Proofs.Footprint
import MapFilter.Proofs.Outcome

/-!
# Two ways to exclude a tag

A tag is excluded by a comparison with the word `not` in front of it, or by a comparison for the
opposite. The first is compiled to a condition that is then negated, the second to a negated
condition at once. Whatever stands round them, one can take the place of the other.
-/

namespace MapFilter

open Compiler

namespace Expr

/-! ## Places in an expression -/

/-- An expression with a gap for another one. -/
inductive Context where
  | gap
  | group (left : Padding) (c : Context) (right : Padding)
  | neg (op : Padding) (c : Context)
  | joinLeft (j : Joint) (c : Context) (op : Padding) (r : Expr)
  | joinRight (j : Joint) (l : Expr) (op : Padding) (c : Context)

namespace Context

def fill : Context → Expr → Expr
  | .gap, e => e
  | .group left c right, e => .group left (c.fill e) right
  | .neg op c, e => .neg op (c.fill e)
  | .joinLeft j c op r, e => .join j (c.fill e) op r
  | .joinRight j l op c, e => .join j l op (c.fill e)

/-- The steps before those of what is in the gap. -/
def before : Context → List Step
  | .gap => []
  | .group _ c _ | .neg _ c | .joinLeft _ c _ _ => c.before
  | .joinRight _ l _ c => l.steps ++ c.before

/-- The steps after those of what is in the gap. -/
def after : Context → List Step
  | .gap => []
  | .group _ c _ => c.after ++ [.group]
  | .neg _ c => c.after ++ [.neg]
  | .joinLeft j c _ r => c.after ++ (r.steps ++ [.join j])
  | .joinRight j _ _ c => c.after ++ [.join j]

lemma steps_fill (c : Context) (e : Expr) :
    (c.fill e).steps = c.before ++ (e.steps ++ c.after) := by
  induction c with
  | gap => simp [fill, before, after]
  | group left c right ih | neg op c ih | joinLeft j c op r ih | joinRight j l op c ih =>
    simp [fill, before, after, steps, ih]

/-- Expressions that are compiled alike are so at every place. -/
theorem exec_fill {e e' : Expr} (h : ∀ s, exec (perform e.steps) s = exec (perform e'.steps) s)
    (c : Context) (s : State) :
    exec (perform (c.fill e).steps) s = exec (perform (c.fill e').steps) s := by
  have hrest : ∀ s, exec (perform (e.steps ++ c.after)) s =
      exec (perform (e'.steps ++ c.after)) s := by
    intro s
    rw [exec_perform_append, exec_perform_append, h]
  rw [steps_fill, steps_fill, exec_perform_append, exec_perform_append, funext hrest]

end Context

/-! ## Excluded tags -/

/-- A comparison with `not` in front of it, and the comparison for the opposite. -/
inductive Excludes : Expr → Expr → Prop where
  | tag (op eq ne : Padding) (key value : Text) :
      Excludes (.neg op (.filter (.tag .equal key eq value)))
        (.filter (.tag .notEqual key ne value))
  | tagAny (op eq ne : Padding) (key : Text) :
      Excludes (.neg op (.filter (.tagAny .equal key eq))) (.filter (.tagAny .notEqual key ne))

/-- Finishing a filter and negating it is finishing the filter for the opposite. -/
def Opposite (f g : Filter) : Prop :=
  ∀ s, exec (perform [.filter f, .single, .neg]) s = exec (perform [.filter g, .single]) s

lemma exec_neg_filter {f g : Filter} (h : Opposite f g) (hparts : f.parts = g.parts) (op : Padding)
    (s : State) :
    exec (perform (neg op (.filter f)).steps) s = exec (perform (filter g).steps) s := by
  have hsteps : (neg op (.filter f)).steps = g.parts ++ [.filter f, .single, .neg] := by
    simp [steps, hparts]
  rw [hsteps, steps, exec_perform_append, exec_perform_append, funext h]

lemma opposite_tag (key value : Text) (eq ne : Padding) :
    Opposite (.tag .equal key eq value) (.tag .notEqual key ne value) := by
  rintro ⟨stack, args, shift⟩
  rcases stack with _ | ⟨v, _ | ⟨k, stack⟩⟩
  · simp [exec_perform_cons, Step.perform, Compiler.filter]
  · simp [exec_perform_cons, Step.perform, Compiler.filter]
  · simp only [exec_perform_cons, Step.perform, Compiler.filter, exec_bind, exec_pop_cons,
      andThen_ok, exec_add, exec_placeholder]
    split
    · simp [exec_perform_cons, exec_perform_nil, Step.perform, negation, ← String.toList_inj]
    · rfl

lemma opposite_tagAny (key : Text) (eq ne : Padding) :
    Opposite (.tagAny .equal key eq) (.tagAny .notEqual key ne) := by
  rintro ⟨stack, args, shift⟩
  rcases stack with _ | ⟨k, stack⟩
  · simp [exec_perform_cons, Step.perform, Compiler.filter]
  · simp only [exec_perform_cons, Step.perform, Compiler.filter, exec_bind, exec_pop_cons,
      andThen_ok, exec_add, exec_placeholder]
    split
    · simp [exec_perform_cons, exec_perform_nil, Step.perform, negation, ← String.toList_inj]
    · rfl

lemma Excludes.exec_eq {e e' : Expr} (h : Excludes e e') (s : State) :
    exec (perform e.steps) s = exec (perform e'.steps) s := by
  cases h with
  | tag op eq ne key value => exact exec_neg_filter (opposite_tag key value eq ne) rfl op s
  | tagAny op eq ne key => exact exec_neg_filter (opposite_tagAny key eq ne) rfl op s

/-- Of two expressions one is the other with an excluded tag, at any place, written the other
way. -/
inductive Interchanged : Expr → Expr → Prop where
  | forth {e e' : Expr} (c : Context) : Excludes e e' → Interchanged (c.fill e) (c.fill e')
  | back {e e' : Expr} (c : Context) : Excludes e e' → Interchanged (c.fill e') (c.fill e)

lemma Interchanged.exec_eq {e e' : Expr} (h : Interchanged e e') (s : State) :
    exec (perform e'.steps) s = exec (perform e.steps) s := by
  cases h with
  | forth c h => exact (c.exec_fill h.exec_eq s).symm
  | back c h => exact c.exec_fill h.exec_eq s

end Expr

/-- Compiling a filter ends in the same way, with the same conditions on the stack and the same
arguments, if an excluded tag in it is written the other way. So the queries are the same. -/
theorem exec_interchanged {e e' : Expr} (h : e.Interchanged e') (s : State) :
    exec (perform (Tree.expr e').steps) s = exec (perform (Tree.expr e).steps) s ∧
      ∀ f g, parse f = .ok (.expr e) → parse g = .ok (.expr e') →
        s.compile g = s.compile f ∧ ∀ k, query g k = query f k := by
  have hcompile : ∀ {f g} (s : State), parse f = .ok (.expr e) → parse g = .ok (.expr e') →
      s.compile g = s.compile f := by
    intro f g s hf hg
    rw [compile_eq hf, compile_eq hg, h.exec_eq]
  refine ⟨?_, fun f g hf hg => ⟨hcompile s hf hg, fun k => ?_⟩⟩
  · rw [Tree.steps, Tree.steps, exec_perform_append, exec_perform_append, h.exec_eq]
  · rw [query, query, if_neg (ne_star hf), if_neg (ne_star hg), hcompile (.fresh k) hf hg]

/-- Inside of parentheses and in front of something else, in a state in which there is something
already. -/
theorem exec_interchanged_nested :
    ∃ e e' : Expr, parse "id:7 and not (not a=\"b\\\"\" or c!=*)" = .ok (.expr e) ∧
      parse "id:7 and not (a != \"b\\\"\" or c!=*)" = .ok (.expr e') ∧ e.Interchanged e' ∧
      exec (perform (Tree.expr e').steps) ⟨["x"], [.text "y"], 3⟩ =
        exec (perform (Tree.expr e).steps) ⟨["x"], [.text "y"], 3⟩ ∧
      query "id:7 and not (a != \"b\\\"\" or c!=*)" 2 =
        query "id:7 and not (not a=\"b\\\"\" or c!=*)" 2 := by
  let key : Text := .words ⟨.word, "a"⟩ []
  let value : Text := .quoted "\"b\\\"\""
  let c : Expr.Context :=
    .joinRight .conj (.filter (.number .id ⟨none, none⟩ "7")) ⟨some " ", some " "⟩
      (.neg ⟨none, some " "⟩ (.group ⟨none, none⟩
        (.joinLeft .disj .gap ⟨some " ", some " "⟩
          (.filter (.tagAny .notEqual (.words ⟨.word, "c"⟩ []) ⟨none, none⟩))) ⟨none, none⟩))
  let negated : Expr := .neg ⟨none, some " "⟩ (.filter (.tag .equal key ⟨none, none⟩ value))
  let opposite : Expr := .filter (.tag .notEqual key ⟨some " ", some " "⟩ value)
  have h : negated.Excludes opposite := .tag _ _ _ _ _
  have hf : parse "id:7 and not (not a=\"b\\\"\" or c!=*)" = .ok (.expr (c.fill negated)) := by
    decide +kernel
  have hg : parse "id:7 and not (a != \"b\\\"\" or c!=*)" = .ok (.expr (c.fill opposite)) := by
    decide +kernel
  obtain ⟨hexec, htexts⟩ := exec_interchanged (.forth c h) ⟨["x"], [.text "y"], 3⟩
  exact ⟨_, _, hf, hg, .forth c h, hexec, (htexts _ _ hf hg).2 2⟩

end MapFilter
