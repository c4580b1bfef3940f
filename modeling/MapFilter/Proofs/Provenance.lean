import MapFilter.Proofs.Derivation
import MapFilter.Proofs.Footprint

/-!
# Where the entries of the stack come from

A compiler whose stack keeps with each entry the rule that has put it there does the same as one
whose stack does not. So it can be said of an entry that it is a condition or the text of a tag. The
texts of a tag are all taken off again when its filter is finished, and nothing can fail in between.
-/

namespace MapFilter

open Compiler

/-- A compiler whose stack keeps with each entry the rule that has put it there. -/
structure Traced where
  stack : List (String × Rule)
  args : List Argument
  shift : Int

namespace Traced

def fresh (shift : Int) : Traced := ⟨[], [], shift⟩

/-- The compiler without this knowledge. -/
def state (t : Traced) : State := ⟨t.stack.map (·.1), t.args, t.shift⟩

end Traced

namespace Step

/-- Whether the first `n` entries of a stack are enough for a step: with too few it finds the stack
empty. -/
def enough (step : Step) (s : State) (n : Nat) : Bool :=
  decide ((exec step.perform ⟨s.stack.take n, s.args, s.shift⟩).1 ≠ .error .emptyStack)

/-- How many entries a step takes off a stack: as many as are enough, or all if there are fewer. -/
def taken (step : Step) (s : State) : Nat :=
  ((List.range s.stack.length).find? (step.enough s)).getD s.stack.length

/-- Performs a step. The entries that it does not take off stay as they are, and all others on the
stack afterwards are its own. -/
def trace (step : Step) (t : Traced) : Except Failure Unit × Traced :=
  let after := exec step.perform t.state
  let kept := t.stack.drop (step.taken t.state)
  let pushed := after.2.stack.take (after.2.stack.length - kept.length)
  (after.1, ⟨pushed.map (·, step.rule) ++ kept, after.2.args, after.2.shift⟩)

variable {step : Step}

lemma enough_iff (hs : step.Spelled) {s : State} {n : Nat} (hn : n ≤ s.stack.length) :
    step.enough s n = true ↔ step.operands ≤ n := by
  have hlen : (s.stack.take n).length = n := List.length_take_of_le hn
  rw [enough, decide_eq_true_iff]
  rcases (takes_operands hs).exec_cases ⟨s.stack.take n, s.args, s.shift⟩ with
    ⟨hlt, hexec⟩ | ⟨popped, rest, r, pushed, new, hstack, hpopped, hr, -, hexec⟩
  · rw [hexec]
    simpa [hlen] using hlt
  · have hle := congrArg List.length hstack
    simp only [hlen, List.length_append] at hle
    rw [hexec]
    simp only [ne_eq, hr, not_false_eq_true, true_iff]
    omega

lemma taken_eq (hs : step.Spelled) (s : State) :
    step.taken s = min step.operands s.stack.length := by
  by_cases hlt : step.operands < s.stack.length
  · have hfind : (List.range s.stack.length).find? (step.enough s) = some step.operands := by
      rw [List.find?_range_eq_some]
      refine ⟨(enough_iff hs (by omega)).2 (Nat.le_refl _), by simpa using hlt, fun j hj => ?_⟩
      have hfew : ¬step.enough s j = true := by
        rw [enough_iff hs (by omega)]
        omega
      simpa using hfew
    rw [taken, hfind, Option.getD_some]
    omega
  · have hfind : (List.range s.stack.length).find? (step.enough s) = none := by
      rw [List.find?_eq_none]
      intro j hj
      have hj := List.mem_range.1 hj
      exact mt (enough_iff hs (by omega)).1 (by omega)
    rw [taken, hfind, Option.getD_none]
    omega

/-- What a step can do to a stack that knows where its entries come from. -/
theorem trace_cases (hs : step.Spelled) (t : Traced) :
    (t.stack.length < step.operands ∧ step.trace t = (.error .emptyStack, ⟨[], t.args, t.shift⟩) ∧
      exec step.perform t.state = (.error .emptyStack, ⟨[], t.args, t.shift⟩)) ∨
    ∃ popped rest r pushed new, t.stack = popped ++ rest ∧ popped.length = step.operands ∧
      step.trace t = (r, ⟨pushed.map (·, step.rule) ++ rest, t.args ++ new, t.shift⟩) ∧
      exec step.perform t.state = (r, ⟨pushed ++ rest.map (·.1), t.args ++ new, t.shift⟩) := by
  have htaken := taken_eq hs t.state
  rcases (takes_operands hs).exec_cases t.state with
    ⟨hlt, hexec⟩ | ⟨popped, rest, r, pushed, new, hstack, hpopped, -, -, hexec⟩
  · left
    have hlen : t.stack.length < step.operands := by simpa [Traced.state] using hlt
    refine ⟨hlen, ?_, hexec⟩
    have hall : t.stack.drop (step.taken t.state) = [] := by
      rw [htaken, List.drop_eq_nil_iff]
      simp only [Traced.state, List.length_map]
      omega
    rw [trace, hexec, hall]
    rfl
  · right
    obtain ⟨popped, rest, hsplit, rfl, rfl⟩ := List.map_eq_append_iff.1 hstack
    have hlen : popped.length = step.operands := by simpa using hpopped
    have hkept : t.stack.drop (step.taken t.state) = rest := by
      have hmin : step.taken t.state = popped.length := by
        rw [htaken, ← hlen]
        simp [Traced.state, hsplit]
      rw [hmin, hsplit, List.drop_left]
    refine ⟨popped, rest, r, pushed, new, hsplit, hlen, ?_, hexec⟩
    rw [trace, hexec, hkept]
    simp [Traced.state]

end Step

/-! ## Runs -/

namespace Traced

/-- A result without the knowledge of where entries come from. -/
def plain {α : Type} (x : α × Traced) : α × State := (x.1, x.2.state)

/-- Performs steps up to the first that fails. -/
def run : List Step → Traced → Except Failure Unit × Traced
  | [], t => (.ok (), t)
  | step :: steps, t =>
    match step.trace t with
    | (.ok (), t') => run steps t'
    | (.error e, t') => (.error e, t')

/-- No entry has been put on the stack by the rule for texts. -/
def TextFree (t : Traced) : Prop := ∀ entry ∈ t.stack, entry.2 ≠ .text

lemma run_append (as bs : List Step) (t : Traced) :
    run (as ++ bs) t =
      match run as t with
      | (.ok (), t') => run bs t'
      | (.error e, t') => (.error e, t') := by
  induction as generalizing t with
  | nil => rfl
  | cons step as ih =>
    rw [List.cons_append, run, run]
    rcases step.trace t with ⟨_ | _, t'⟩
    · rfl
    · exact ih t'

lemma run_cons_invariant {P : Traced → Prop} {step : Step} {steps : List Step} {t : Traced}
    (hstep : P (step.trace t).2) (hsteps : ∀ t', P t' → P (run steps t').2) :
    P (run (step :: steps) t).2 := by
  rw [run]
  rcases h : step.trace t with ⟨_ | _, t'⟩
  · rw [h] at hstep
    exact hstep
  · rw [h] at hstep
    exact hsteps t' hstep

lemma run_append_invariant {P : Traced → Prop} {as bs : List Step} {t : Traced}
    (has : P (run as t).2) (hbs : ∀ t', P t' → P (run bs t').2) : P (run (as ++ bs) t).2 := by
  rw [run_append]
  rcases h : run as t with ⟨_ | _, t'⟩
  · rw [h] at has
    exact has
  · rw [h] at has
    exact hbs t' has

/-- A run shows the same as one that does not know where entries come from. -/
theorem plain_run {steps : List Step} (hs : ∀ step ∈ steps, step.Spelled) (t : Traced) :
    plain (run steps t) = exec (perform steps) t.state := by
  induction steps generalizing t with
  | nil => rfl
  | cons step steps ih =>
    have hrest := ih fun step hstep => hs step (by simp [hstep])
    rw [run, exec_perform_cons]
    rcases Step.trace_cases (hs step (by simp)) t with
      ⟨-, htrace, hexec⟩ | ⟨popped, rest, r, pushed, new, -, -, htrace, hexec⟩
    · rw [htrace, hexec]
      rfl
    · have hstate : (⟨pushed.map (·, step.rule) ++ rest, t.args ++ new, t.shift⟩ : Traced).state =
          ⟨pushed ++ rest.map (·.1), t.args ++ new, t.shift⟩ := by
        simp [state, Function.comp_def]
      rw [htrace, hexec, ← hstate]
      cases r with
      | error e => rfl
      | ok u => exact hrest _

/-- A step other than that for a text leaves none, if there is none below its operands. -/
lemma textFree_trace {step : Step} (hs : step.Spelled) (hrule : step.rule ≠ .text) {t : Traced}
    (ht : ∀ entry ∈ t.stack.drop step.operands, entry.2 ≠ .text) : (step.trace t).2.TextFree := by
  rcases step.trace_cases hs t with
    ⟨-, htrace, -⟩ | ⟨popped, rest, r, pushed, new, hstack, hlen, htrace, -⟩
  · rw [htrace]
    exact List.forall_mem_nil _
  · rw [hstack, ← hlen, List.drop_left] at ht
    rw [htrace]
    intro entry hentry
    rcases List.mem_append.1 hentry with hnew | hold
    · obtain ⟨s, -, rfl⟩ := List.mem_map.1 hnew
      exact hrule
    · exact ht entry hold

lemma TextFree.run {steps : List Step} (hs : ∀ step ∈ steps, step.Spelled ∧ step.rule ≠ .text)
    {t : Traced} (ht : t.TextFree) : (Traced.run steps t).2.TextFree := by
  induction steps generalizing t with
  | nil => exact ht
  | cons step steps ih =>
    have hstep := hs step (by simp)
    refine run_cons_invariant (textFree_trace hstep.1 hstep.2 fun entry hentry => ?_)
      fun t' ht' => ih (fun step hstep => hs step (by simp [hstep])) ht'
    exact ht entry (List.mem_of_mem_drop hentry)

/-! ## Texts are taken off again -/

lemma trace_text {x : Text} (hx : ∀ l ∈ x.node.leaves, l.Spelled) (t : Traced) :
    (Step.text x).trace t = (.ok (), ⟨(x.content, .text) :: t.stack, t.args, t.shift⟩) := by
  have hspelled : (Step.text x).Spelled := Step.spelled_of_ne (by simp)
  rcases Step.trace_cases hspelled t with
    ⟨hlt, -, -⟩ | ⟨popped, rest, r, pushed, new, hstack, hlen, htrace, hexec⟩
  · exact absurd hlt (Nat.not_lt_zero _)
  · obtain rfl : popped = [] := List.eq_nil_of_length_eq_zero hlen
    rw [List.nil_append] at hstack
    subst hstack
    rw [exec_text hx] at hexec
    simp only [state, Prod.mk.injEq, State.mk.injEq, List.self_eq_append_right, and_true] at hexec
    obtain ⟨rfl, hpushed, rfl⟩ := hexec
    obtain rfl : [x.content] = pushed := List.append_cancel_right hpushed
    rw [htrace, List.append_nil]
    rfl

lemma run_texts {xs : List Text} (hxs : ∀ x ∈ xs, ∀ l ∈ x.node.leaves, l.Spelled) (t : Traced) :
    run (xs.map .text) t =
      (.ok (), ⟨(xs.map fun x => (x.content, Rule.text)).reverse ++ t.stack, t.args, t.shift⟩) := by
  induction xs generalizing t with
  | nil => rfl
  | cons x xs ih =>
    rw [List.map_cons, run, trace_text (hxs x (by simp))]
    simp only
    rw [ih fun x hx => hxs x (by simp [hx])]
    simp

end Traced

/-- A filter takes off as many entries as it has texts, if it is not a range. -/
lemma Filter.parts_cases (f : Filter) :
    (f.parts = f.texts.map .text ∧ f.operands = f.texts.length) ∨ ∃ q op r, f = .range q op r := by
  cases f with
  | range q op r => exact .inr ⟨q, op, r, rfl⟩
  | _ => exact .inl ⟨rfl, rfl⟩

lemma Filter.spelled_parts (f : Filter) : ∀ step ∈ f.parts, step.Spelled := by
  intro step hstep
  rcases f.parts_cases with ⟨hparts, -⟩ | ⟨q, op, r, rfl⟩
  · rw [hparts] at hstep
    obtain ⟨x, -, rfl⟩ := List.mem_map.1 hstep
    exact Step.spelled_of_ne (by simp)
  · obtain rfl := List.mem_singleton.1 hstep
    exact Step.spelled_of_ne (by simp)

lemma Expr.Genuine.spelled_steps {e : Expr} (hg : e.Genuine) : ∀ step ∈ e.steps, step.Spelled := by
  have hconcat : ∀ {steps : List Step} (last : Step), (∀ f, last ≠ .filter f) →
      (∀ step ∈ steps, step.Spelled) → ∀ step ∈ steps ++ [last], step.Spelled :=
    fun last hne hs =>
      List.forall_mem_append.2 ⟨hs, List.forall_mem_singleton.2 (Step.spelled_of_ne hne)⟩
  induction e with
  | filter f =>
    have hf := hg f (by simp [Expr.filters])
    have hparts : ∀ step ∈ f.parts ++ [.filter f], step.Spelled :=
      List.forall_mem_append.2
        ⟨f.spelled_parts, List.forall_mem_singleton.2 (Step.spelled_filter hf.1)⟩
    simpa [Expr.steps] using hconcat .single (by simp) hparts
  | group l e r ih => exact hconcat .group (by simp) (ih hg)
  | neg op e ih => exact hconcat .neg (by simp) (ih hg)
  | join j l op r ihl ihr =>
    have hgs := Expr.genuine_join.1 hg
    exact hconcat (.join j) (by simp) (List.forall_mem_append.2 ⟨ihl hgs.1, ihr hgs.2⟩)

lemma Filter.Spelled.texts {f : Filter} (hs : f.Spelled) :
    ∀ x ∈ f.texts, ∀ l ∈ x.node.leaves, l.Spelled := by
  intro x hx l hl
  apply hs
  cases f with
  | tag c key op value =>
    have hcases : x = key ∨ x = value := by simpa [Filter.texts] using hx
    rcases hcases with rfl | rfl <;> simp [Filter.node, Filter.nodes, hl]
  | tagAny c key op =>
    obtain rfl := List.mem_singleton.1 hx
    simp [Filter.node, Filter.nodes, hl]
  | tagIn key op values =>
    rcases List.mem_cons.1 hx with rfl | hx
    · simp [Filter.node, Filter.nodes, hl]
    · simp [Filter.node, Filter.nodes, Listed.mem_leaves Text.node hx hl]
  | tagLike key op pattern =>
    have hcases : x = key ∨ x = pattern.text := by simpa [Filter.texts] using hx
    rcases hcases with rfl | rfl <;> simp [Filter.node, Filter.nodes, Pattern.node, hl]
  | _ => cases hx

namespace Traced

/-- The texts of a filter are those that it takes off when it is finished. -/
theorem TextFree.filter {f : Filter} (hs : f.Spelled) {t : Traced} (ht : t.TextFree) :
    (Traced.run (Expr.filter f).steps t).2.TextFree := by
  have hfilter := Step.spelled_filter hs
  have hsingle : Step.single.Spelled ∧ Step.single.rule ≠ .text :=
    ⟨Step.spelled_of_ne (by simp), by decide⟩
  rcases f.parts_cases with ⟨hparts, hoperands⟩ | ⟨q, op, r, rfl⟩
  · rw [Expr.steps, hparts, run_append, run_texts hs.texts]
    refine run_cons_invariant (textFree_trace hfilter (by simp [Step.rule]) ?_)
      fun t' ht' => ht'.run (by simpa using hsingle)
    -- the texts lie on top, and the filter takes off as many entries as there are texts
    have hlen : (Step.filter f).operands =
        (f.texts.map fun x => (x.content, Rule.text)).reverse.length := by
      simpa [Step.operands] using hoperands
    simp only [hlen, List.drop_left]
    exact ht
  · -- a range has no texts, so it does not matter what it takes off
    have hrange : (Step.range q.grain r).Spelled := Step.spelled_of_ne (by simp)
    apply ht.run
    simp [Expr.steps, Filter.parts, hfilter, hsingle.1, hrange, Step.rule]

/-- No text of a tag is left by an expression, whether it fails or not. -/
theorem TextFree.expr {e : Expr} (hg : e.Genuine) {t : Traced} (ht : t.TextFree) :
    (Traced.run e.steps t).2.TextFree := by
  have hone : ∀ {step : Step} {t : Traced}, step.rule = .expression → (∀ f, step ≠ .filter f) →
      t.TextFree → (Traced.run [step] t).2.TextFree := by
    intro step t hrule hne ht
    exact ht.run (by simp [Step.spelled_of_ne hne, hrule])
  induction e generalizing t with
  | filter f => exact ht.filter (hg f (by simp [Expr.filters])).1
  | group l e r ih => exact run_append_invariant (ih hg ht) fun t' => hone rfl (by simp)
  | neg op e ih => exact run_append_invariant (ih hg ht) fun t' => hone rfl (by simp)
  | join j l op r ihl ihr =>
    have hgs := Expr.genuine_join.1 hg
    exact run_append_invariant (run_append_invariant (ihl hgs.1 ht) fun t' ht' => ihr hgs.2 ht')
      fun t' => hone rfl (by simp)

end Traced

end MapFilter
