import MapFilter.Sql.Step
import Mathlib.Tactic.Common

/-!
# Running the compiler

Every operation of the compiler, run in a state: what it gives, and the state that it leaves. A step
that fails also leaves a state.
-/

namespace MapFilter

@[simp] lemma State.last_mk (s : State) (stack : List String) :
    State.last ⟨stack, s.args, s.shift⟩ = s.last := rfl

@[simp] lemma State.last_add (s : State) (stack : List String) (as : List Argument) :
    State.last ⟨stack, s.args ++ as, s.shift⟩ = s.last + as.length := by
  simp only [State.last, List.length_append]
  omega

@[simp] lemma State.last_fresh (shift : Int) : (State.fresh shift).last = shift :=
  Int.zero_add shift

/-! ## Numbers of placeholders -/

/-- The placeholder with a number. -/
def slot (n : Int) : String := "$" ++ toString n

/-- A number can be written if it is not too far from zero. -/
lemma writable_iff {n : Int} : Writable n ↔ n.natAbs < Nat.pow 10 Failure.digitLimit := by
  have hpos : 0 < Failure.digitLimit := by decide
  unfold Writable
  -- the power is too large to be evaluated
  generalize Failure.digitLimit = limit at hpos
  exact Nat.length_toDigits_le_iff (by decide) hpos

/-- The numbers of `m` placeholders after `n` can be written. -/
def AllWritable (n : Int) (m : Nat) : Prop := ∀ i < m, Writable (n + (i + 1))

namespace AllWritable

variable {n : Int} {k m : Nat}

instance : Decidable (AllWritable n m) :=
  inferInstanceAs (Decidable (∀ i, i < m → Writable (n + (i + 1))))

lemma mono (h : AllWritable n m) (hk : k ≤ m) : AllWritable n k := fun i hi => h i (by omega)

end AllWritable

section Numbers

variable {n : Int} {k m : Nat}

@[simp] lemma allWritable_zero : AllWritable n 0 := fun i hi => absurd hi (Nat.not_lt_zero i)

/-- Placeholders fit if those before fit and those after. -/
lemma allWritable_add : AllWritable n (k + m) ↔ AllWritable n k ∧ AllWritable (n + k) m := by
  constructor
  · intro h
    refine ⟨h.mono (by omega), fun i hi => ?_⟩
    have hnumber : n + k + (i + 1) = n + ((k + i : Nat) + 1) := by omega
    rw [hnumber]
    exact h (k + i) (by omega)
  · rintro ⟨hk, hm⟩ i hi
    by_cases hlt : i < k
    · exact hk i hlt
    · have hnumber : n + (i + 1) = n + k + ((i - k : Nat) + 1) := by omega
      rw [hnumber]
      exact hm (i - k) (by omega)

lemma allWritable_one : AllWritable n 1 ↔ Writable (n + 1) := by simp [AllWritable]

lemma allWritable_two : AllWritable n 2 ↔ Writable (n + 1) ∧ Writable (n + 2) := by
  have htwo : n + (1 : Nat) + 1 = n + 2 := by omega
  rw [show 2 = 1 + 1 from rfl, allWritable_add, allWritable_one, allWritable_one, htwo]

/-- Numbers that are not negative can be written if the last one can. -/
lemma allWritable_natCast_iff :
    AllWritable k m ↔ m = 0 ∨ k + m < Nat.pow 10 Failure.digitLimit := by
  constructor
  · intro h
    rcases Nat.eq_zero_or_pos m with hzero | hpos
    · exact .inl hzero
    · have hlast := writable_iff.1 (h (m - 1) (by omega))
      omega
  · rintro (rfl | hlt)
    · exact allWritable_zero
    · intro i hi
      rw [writable_iff]
      omega

/-- Smaller numbers can be written if greater ones can. -/
lemma AllWritable.of_le {j : Nat} (h : AllWritable k m) (hj : j ≤ k) : AllWritable j m :=
  allWritable_natCast_iff.2 ((allWritable_natCast_iff.1 h).imp_right (by omega))

/-- The greatest number that can be written. -/
def greatestNumber : Nat := Nat.pow 10 Failure.digitLimit - 1

/-- After the greatest number there is no room for a placeholder. -/
lemma not_allWritable_greatestNumber (hm : 0 < m) : ¬AllWritable greatestNumber m := by
  rw [allWritable_natCast_iff, greatestNumber]
  omega

end Numbers

/-! ## Arguments by number -/

/-- What a placeholder with the number `n` stands for. -/
def State.argument? (s : State) (n : Int) : Option Argument :=
  if s.shift < n then s.args[(n - s.shift - 1).toNat]? else none

lemma State.argument?_last (s : State) (new : List Argument) (i : Nat) (stack : List String) :
    State.argument? ⟨stack, s.args ++ new, s.shift⟩ (s.last + (i + 1)) = new[i]? := by
  have hlt : s.shift < s.last + (i + 1) := by
    rw [State.last]
    omega
  have hindex : (s.last + (i + 1) - s.shift - 1).toNat = s.args.length + i := by
    rw [State.last]
    omega
  rw [State.argument?, if_pos hlt, hindex, List.getElem?_append_right (Nat.le_add_right _ _),
    Nat.add_sub_cancel_left]

namespace Compiler

variable {α β : Type}

/-- The outcome of an operation and the state after it. -/
def exec (m : Compiler α) (s : State) : Except Failure α × State := m.run.run s

/-- Goes on with what an operation gives, unless it has failed. -/
def andThen (r : Except Failure α × State) (f : α → State → Except Failure β × State) :
    Except Failure β × State :=
  match r with
  | (.ok a, s) => f a s
  | (.error e, s) => (.error e, s)

@[simp] lemma andThen_ok (a : α) (s : State) (f : α → State → Except Failure β × State) :
    andThen (.ok a, s) f = f a s := rfl

@[simp] lemma andThen_error (e : Failure) (s : State) (f : α → State → Except Failure β × State) :
    andThen (.error e, s) f = (.error e, s) := rfl

lemma andThen_eq_ok_iff {r : Except Failure α × State} {f : α → State → Except Failure β × State}
    {b : β} {s' : State} :
    andThen r f = (.ok b, s') ↔ ∃ a s, r = (.ok a, s) ∧ f a s = (.ok b, s') := by
  rcases r with ⟨_ | a, s⟩ <;> simp [andThen]

lemma andThen_eq_error_iff {r : Except Failure α × State}
    {f : α → State → Except Failure β × State} {e : Failure} {s' : State} :
    andThen r f = (.error e, s') ↔
      r = (.error e, s') ∨ ∃ a s, r = (.ok a, s) ∧ f a s = (.error e, s') := by
  rcases r with ⟨_ | a, s⟩ <;> simp [andThen]

@[simp] lemma exec_bind (m : Compiler α) (f : α → Compiler β) (s : State) :
    exec (m >>= f) s = andThen (exec m s) fun a => exec (f a) := by
  change (match exec m s with | (x, s') => ExceptT.bindCont f x s') = _
  rcases exec m s with ⟨_ | a, s'⟩ <;> rfl

@[simp] lemma exec_map (m : Compiler α) (f : α → β) (s : State) :
    exec (f <$> m) s = andThen (exec m s) fun a s' => (.ok (f a), s') := by
  rw [map_eq_pure_bind, exec_bind]
  rfl

@[simp] lemma exec_pure (a : α) (s : State) : exec (pure a) s = (.ok a, s) := rfl

@[simp] lemma exec_throw (e : Failure) (s : State) : exec (throw e : Compiler α) s = (.error e, s) := rfl

@[simp] lemma exec_push (t : String) (s : State) :
    exec (push t) s = (.ok (), ⟨t :: s.stack, s.args, s.shift⟩) := rfl

@[simp] lemma exec_pop_cons (t : String) (stack : List String) (args : List Argument) (shift : Int) :
    exec pop ⟨t :: stack, args, shift⟩ = (.ok t, ⟨stack, args, shift⟩) := rfl

@[simp] lemma exec_add (a : Argument) (s : State) :
    exec (add a) s = (.ok (), ⟨s.stack, s.args ++ [a], s.shift⟩) := rfl

/-- A placeholder is written unless its number is too long. -/
lemma exec_placeholder (later : Nat) (s : State) :
    exec (placeholder later) s =
      (if Writable (s.last - later) then .ok (slot (s.last - later)) else .error .longPlaceholder,
        s) := by
  change exec (if Writable (s.last - later) then pure (slot (s.last - later))
    else throw .longPlaceholder) s = _
  split <;> rfl

/-- Going on with the placeholder of an argument that has just been added. -/
lemma exec_one (a : Argument) (f : String → Compiler α) (s : State) :
    exec (do
      add a
      let n ← placeholder 0
      f n) s =
    if AllWritable s.last 1 then exec (f (slot (s.last + 1))) ⟨s.stack, s.args ++ [a], s.shift⟩
    else (.error .longPlaceholder, ⟨s.stack, s.args ++ [a], s.shift⟩) := by
  have hlast : State.last ⟨s.stack, s.args ++ [a], s.shift⟩ - (0 : Nat) = s.last + 1 := by simp
  simp only [exec_bind, exec_add, andThen_ok, exec_placeholder, hlast, allWritable_one]
  split <;> rfl

/-- Going on with the placeholders of the last two arguments. -/
lemma exec_lastTwo (a b : Argument) (f : String → String → Compiler α) (s : State) :
    exec (do
      let m ← placeholder 1
      let n ← placeholder 0
      f m n) ⟨s.stack, s.args ++ [a, b], s.shift⟩ =
    if AllWritable s.last 2 then
      exec (f (slot (s.last + 1)) (slot (s.last + 2))) ⟨s.stack, s.args ++ [a, b], s.shift⟩
    else (.error .longPlaceholder, ⟨s.stack, s.args ++ [a, b], s.shift⟩) := by
  have hlast : State.last ⟨s.stack, s.args ++ [a, b], s.shift⟩ = s.last + 2 := by simp
  have hfirst : s.last + 2 - (1 : Nat) = s.last + 1 := by omega
  have hsecond : s.last + 2 - (0 : Nat) = s.last + 2 := by omega
  rw [exec_bind, exec_placeholder, hlast, hfirst]
  by_cases hm : Writable (s.last + 1)
  · rw [if_pos hm, andThen_ok, exec_bind, exec_placeholder, hlast, hsecond]
    by_cases hn : Writable (s.last + 2)
    · rw [if_pos hn, andThen_ok, if_pos (allWritable_two.2 ⟨hm, hn⟩)]
    · rw [if_neg hn, andThen_error, if_neg fun h => hn (allWritable_two.1 h).2]
  · rw [if_neg hm, andThen_error, if_neg fun h => hm (allWritable_two.1 h).1]

/-- Going on with the placeholders of two arguments that have just been added. -/
lemma exec_two (a b : Argument) (f : String → String → Compiler α) (s : State) :
    exec (do
      add a
      add b
      let m ← placeholder 1
      let n ← placeholder 0
      f m n) s =
    if AllWritable s.last 2 then
      exec (f (slot (s.last + 1)) (slot (s.last + 2))) ⟨s.stack, s.args ++ [a, b], s.shift⟩
    else (.error .longPlaceholder, ⟨s.stack, s.args ++ [a, b], s.shift⟩) := by
  rw [← exec_lastTwo, exec_bind, exec_add, andThen_ok, exec_bind, exec_add, andThen_ok,
    List.append_assoc, List.cons_append, List.nil_append]

@[simp] lemma exec_ofExcept (x : Except Failure α) (s : State) : exec (ofExcept x) s = (x, s) := by
  cases x <;> rfl

@[simp] lemma exec_readWhole (t : String) (s : State) :
    exec (readWhole t) s = (Bounds.readWhole t.toList, s) := exec_ofExcept _ s

end Compiler

/-! ## Runs of steps -/

open Compiler

lemma exec_perform_nil (s : State) : exec (perform []) s = (.ok (), s) := rfl

lemma exec_perform_cons (step : Step) (steps : List Step) (s : State) :
    exec (perform (step :: steps)) s =
      andThen (exec step.perform s) fun _ => exec (perform steps) :=
  exec_bind step.perform (fun _ => perform steps) s

lemma exec_perform_append (as bs : List Step) (s : State) :
    exec (perform (as ++ bs)) s = andThen (exec (perform as) s) fun _ => exec (perform bs) := by
  induction as generalizing s with
  | nil => rfl
  | cons step as ih =>
    rw [List.cons_append, exec_perform_cons, exec_perform_cons]
    rcases exec step.perform s with ⟨_ | _, s'⟩
    · rfl
    · exact ih s'

end MapFilter
