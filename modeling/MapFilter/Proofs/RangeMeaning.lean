import MapFilter.Proofs.Placeholders
import Mathlib.Algebra.Order.Field.Rat
import Mathlib.Algebra.Order.Monoid.Unbundled.WithTop

/-!
# What a range means

A range of numbers is to hold of those between its bounds, both of them included. Conditions on
columns of numbers are read as tests of a row, with the arguments in the places of the placeholders.
A range does what it says unless one of its bounds is zero, which is taken for a bound that has been
left out, or a range of changesets ends before it begins, which is not noticed.
-/

namespace MapFilter

open Compiler

/-! ## Quantities -/

/-- What a column of numbers holds: rational numbers, or one that is too large for them. -/
abbrev Quantity := WithTop ℚ

namespace Binary

def value : Binary → Quantity
  | .finite units => (units / one : ℚ)
  | .infinite => ⊤

lemma one_pos : 0 < one := by
  have hpow : ∀ n, 0 < Nat.pow 2 n := Nat.two_pow_pos
  unfold one
  apply hpow

lemma value_finite (u : Nat) : (finite u).value = ((u / one : ℚ) : Quantity) := rfl

lemma value_lt_value {x y : Binary} : x.value < y.value ↔ x.lt y = true := by
  have hone : (0 : ℚ) < one := Nat.cast_pos.2 one_pos
  cases x with
  | infinite => exact iff_of_false not_top_lt (by simp [lt])
  | finite u =>
    cases y with
    | infinite => exact iff_of_true (WithTop.coe_lt_top _) rfl
    | finite v =>
      rw [value_finite, value_finite, WithTop.coe_lt_coe, div_lt_div_iff_of_pos_right hone,
        Nat.cast_lt]
      exact decide_eq_true_iff.symm

lemma value_eq_zero {x : Binary} : x.value = 0 ↔ x.isZero = true := by
  have hone : (one : ℚ) ≠ 0 := Nat.cast_ne_zero.2 (Nat.ne_of_gt one_pos)
  cases x with
  | infinite => exact iff_of_false WithTop.top_ne_zero (by simp [isZero])
  | finite u =>
    rw [value_finite, WithTop.coe_eq_zero, div_eq_zero_iff, or_iff_left hone, Nat.cast_eq_zero]
    exact beq_iff_eq.symm

end Binary

namespace Number

def value : Number → Quantity
  | .whole n => (n : ℚ)
  | .decimal x => x.value

lemma value_eq_zero {n : Number} : n.value = 0 ↔ n.isZero = true := by
  cases n with
  | whole n => simp [value, isZero]
  | decimal x => exact Binary.value_eq_zero

end Number

/-- The number that a bound stands for. -/
def Grain.number (g : Grain) (l : Lexeme) : Number :=
  match g with
  | .whole => .whole (Decimal.ofDigits l.text.toList)
  | .decimal => .decimal (Decimal.read l.text.toList)

lemma Grain.value_lt_value (g : Grain) (l k : Lexeme) :
    (g.number l).value < (g.number k).value ↔ (g.number l).lt (g.number k) = true := by
  cases g with
  | whole => simp [number, Number.value, Number.lt]
  | decimal => exact Binary.value_lt_value

/-! ## Bounds -/

namespace Bounds

def lower? (g : Grain) : Bounds → Option Number
  | .both l _ _ | .startingAt l _ => some (g.number l)
  | .upTo _ _ => none

def upper? (g : Grain) : Bounds → Option Number
  | .both _ _ u | .upTo _ u => some (g.number u)
  | .startingAt _ _ => none

/-- No bound has more digits than a whole number can have. -/
def Readable (g : Grain) (b : Bounds) : Prop :=
  g = .whole → ∀ l ∈ b.written, l.text.toList.length ≤ Failure.digitLimit

variable {g : Grain} {b : Bounds}

lemma readNumber_eq {l : Lexeme} (h : g = .whole → l.text.toList.length ≤ Failure.digitLimit) :
    readNumber g l.text.toList = .ok (g.number l) := by
  cases g with
  | whole =>
    rw [readNumber, readWhole, if_pos (h rfl)]
    rfl
  | decimal => rfl

lemma values_eq (h : b.Readable g) : b.values g = .ok (b.lower? g, b.upper? g) := by
  have hread : ∀ l ∈ b.written, readNumber g l.text.toList = .ok (g.number l) :=
    fun l hl => readNumber_eq fun hg => h hg l hl
  cases b with
  | both l d u =>
    simp [values, hread l (by simp [written]), hread u (by simp [written]), lower?, upper?]
  | upTo d u => simp [values, hread u (by simp [written]), lower?, upper?]
  | startingAt l d => simp [values, hread l (by simp [written]), lower?, upper?]

lemma lt_iff {l u : Number} (hl : l ∈ b.lower? g) (hu : u ∈ b.upper? g) :
    u.lt l = true ↔ u.value < l.value := by
  cases b with
  | both k d k' =>
    cases hl
    cases hu
    exact (g.value_lt_value k' k).symm
  | upTo | startingAt => simp_all [lower?, upper?]

lemma exists_bound (g : Grain) (b : Bounds) : (b.lower? g).isSome ∨ (b.upper? g).isSome := by
  cases b <;> simp [lower?, upper?]

end Bounds

/-! ## Tests -/

namespace Sql

/-- The columns of numbers. -/
inductive Column where
  | id | changeset | area | length
deriving DecidableEq, Repr

def Column.name : Column → String
  | .id => "osm_id"
  | .changeset => "changeset_id"
  | .area => "area"
  | .length => "length"

/-- Whether numbers are compared with the least or with the greatest one that is let through. -/
inductive Side where
  | lower | upper
deriving DecidableEq, Repr

namespace Side

def symbol : Side → String
  | .lower => " >= "
  | .upper => " <= "

def Admits : Side → Quantity → Quantity → Prop
  | .lower, bound, x => bound ≤ x
  | .upper, bound, x => x ≤ bound

end Side

/-- A condition on columns of numbers. Bounds are given as the numbers of arguments. -/
inductive Test where
  | bound (s : Side) (c : Column) (n : Int)
  | both (l r : Test)
deriving DecidableEq, Repr

namespace Test

def text : Test → String
  | .bound s c n => c.name ++ s.symbol ++ "$" ++ toString n
  | .both l r => "(" ++ l.text ++ " AND " ++ r.text ++ ")"

/-- A test holds of a row, given what the arguments are. -/
def Holds (row : Column → Quantity) (arg? : Int → Option Quantity) : Test → Prop
  | .bound s c n => ∃ v ∈ arg? n, s.Admits v (row c)
  | .both l r => l.Holds row arg? ∧ r.Holds row arg?

section Reading

variable {u v : List Char}

lemma column_append_inj {c d : Column} (h : c.name.toList ++ u = d.name.toList ++ v) :
    c = d ∧ u = v := by
  cases c <;> cases d <;> simp_all [Column.name]

lemma symbol_append_inj {s t : Side} (h : s.symbol.toList ++ u = t.symbol.toList ++ v) :
    s = t ∧ u = v := by
  cases s <;> cases t <;> simp_all [Side.symbol]

lemma number_append_inj {m n : Int} (hu : NoDigitFirst u) (hv : NoDigitFirst v)
    (h : (toString m).toList ++ u = (toString n).toList ++ v) : m = n ∧ u = v := by
  have hmn : m = n := by
    have hread := leadingNumber?_toString m hu
    rw [h, leadingNumber?_toString n hv] at hread
    exact (Option.some.inj hread).symm
  subst hmn
  exact ⟨rfl, List.append_cancel_left h⟩

lemma toList_bound (s : Side) (c : Column) (n : Int) (u : List Char) :
    (bound s c n).text.toList ++ u =
      c.name.toList ++ (s.symbol.toList ++ '$' :: ((toString n).toList ++ u)) := by
  simp [text]

lemma toList_both (l r : Test) (u : List Char) : (both l r).text.toList ++ u =
    '(' :: (l.text.toList ++ ' ' :: 'A' :: 'N' :: 'D' :: ' ' :: (r.text.toList ++ ')' :: u)) := by
  simp [text]

lemma bound_append_ne_both {s : Side} {c : Column} {n : Int} {l r : Test} :
    (bound s c n).text.toList ++ u ≠ (both l r).text.toList ++ v := by
  rw [toList_bound, toList_both]
  cases c <;> simp [Column.name]

/-- A test ends where its text does. -/
lemma text_append_inj {a b : Test} (hu : NoDigitFirst u) (hv : NoDigitFirst v)
    (h : a.text.toList ++ u = b.text.toList ++ v) : a = b ∧ u = v := by
  induction a generalizing b u v with
  | bound s c n =>
    cases b with
    | both l r => exact absurd h bound_append_ne_both
    | bound t d m =>
      rw [toList_bound, toList_bound] at h
      obtain ⟨rfl, hsymbol⟩ := column_append_inj h
      obtain ⟨rfl, hplace⟩ := symbol_append_inj hsymbol
      obtain ⟨rfl, rfl⟩ := number_append_inj hu hv (List.cons.inj hplace).2
      exact ⟨rfl, rfl⟩
  | both l r ihl ihr =>
    cases b with
    | bound t d m => exact absurd h.symm bound_append_ne_both
    | both l' r' =>
      -- neither a blank nor a parenthesis goes on with the number that a test ends with
      have hblank : ∀ w, NoDigitFirst (' ' :: w) := fun w => by simp [NoDigitFirst]
      have hclose : ∀ w, NoDigitFirst (')' :: w) := fun w => by simp [NoDigitFirst]
      rw [toList_both, toList_both] at h
      obtain ⟨rfl, htail⟩ := ihl (hblank _) (hblank _) (List.cons.inj h).2
      have hr : r.text.toList ++ ')' :: u = r'.text.toList ++ ')' :: v := by simpa using htail
      obtain ⟨rfl, hrest⟩ := ihr (hclose _) (hclose _) hr
      exact ⟨rfl, (List.cons.inj hrest).2⟩

end Reading

/-- There is one way to read a text as a test. -/
theorem text_injective : Function.Injective text := by
  intro a b h
  have hnil : NoDigitFirst [] := by simp [NoDigitFirst]
  exact (text_append_inj hnil hnil (by rw [h])).1

/-- The test for numbers between bounds that are the arguments after the `n`th. -/
def between? (c : Column) (n : Int) (lower upper : Option Number) : Option Test :=
  match lower, upper with
  | some _, some _ => some (.both (.bound .lower c (n + 1)) (.bound .upper c (n + 2)))
  | some _, none => some (.bound .lower c (n + 1))
  | none, some _ => some (.bound .upper c (n + 1))
  | none, none => none

end Test

end Sql

open Sql

/-! ## Arguments of tests -/

def Argument.quantity? : Argument → Option Quantity
  | .number n => some n.value
  | _ => none

/-- What a placeholder with the number `n` stands for, if it is a quantity. -/
def State.quantity? (s : State) (n : Int) : Option Quantity :=
  if s.shift < n then s.args[(n - s.shift - 1).toNat]?.bind Argument.quantity? else none

lemma State.quantity?_last (s : State) (new : List Argument) (i : Nat) (stack : List String) :
    State.quantity? ⟨stack, s.args ++ new, s.shift⟩ (s.last + (i + 1)) =
      new[i]?.bind Argument.quantity? := by
  have harg : ∀ (s : State) (n : Int), s.quantity? n = (s.argument? n).bind Argument.quantity? := by
    intro s n
    by_cases hlt : s.shift < n
    · simp [State.quantity?, State.argument?, hlt]
    · simp [State.quantity?, State.argument?, hlt]
  rw [harg, State.argument?_last]

/-- The bounds of a range as arguments. -/
def boundArguments (lower upper : Option Number) : List Argument :=
  (lower.toList ++ upper.toList).map .number

lemma Sql.Test.holds_bound {side : Side} {c : Column} {s : State} {new : List Argument} {i : Nat}
    {n : Number} (h : new[i]? = some (.number n)) (row : Column → Quantity) (stack : List String) :
    (Test.bound side c (s.last + (i + 1))).Holds row
        (State.quantity? ⟨stack, s.args ++ new, s.shift⟩) ↔
      side.Admits n.value (row c) := by
  rw [Test.Holds, State.quantity?_last, h]
  simp [Argument.quantity?]

/-- The test for numbers between bounds holds of the numbers between them. -/
lemma Sql.Test.holds_between {c : Column} {lower upper : Option Number} {test : Test} {s : State}
    (h : Test.between? c s.last lower upper = some test) (row : Column → Quantity)
    (stack : List String) :
    test.Holds row (State.quantity? ⟨stack, s.args ++ boundArguments lower upper, s.shift⟩) ↔
      (∀ l ∈ lower, l.value ≤ row c) ∧ ∀ u ∈ upper, row c ≤ u.value := by
  rcases lower with _ | l <;> rcases upper with _ | u <;> cases h
  · exact (Test.holds_bound (i := 0) rfl row stack).trans (by simp [Side.Admits])
  · exact (Test.holds_bound (i := 0) rfl row stack).trans (by simp [Side.Admits])
  · exact (and_congr (Test.holds_bound (i := 0) rfl row stack)
      (Test.holds_bound (i := 1) rfl row stack)).trans (by simp [Side.Admits])

/-! ## Ranges -/

/-- The column that the numbers in a range are compared with. -/
def Ranged.column? : Ranged → Option Column
  | .id => some .id
  | .area => some .area
  | .length => some .length
  | .changeset => some .changeset
  | .perimeter | .vertices | .outers | .inners => none

/-- A range that ends before it begins. -/
def Swapped (lower upper : Option Number) : Prop := ∃ l ∈ lower, ∃ u ∈ upper, u.value < l.value

/-- What becomes of a range that is compiled in the state `s`, if it means what it says. One that ends
before it begins is refused. Any other becomes one condition, and its bounds, the lower one first,
become arguments: read as a test, the condition holds of the rows between the bounds. -/
inductive Delimits (c : Column) (lower upper : Option Number) (s : State) :
    Except Failure Unit × State → Prop where
  | swapped {l u : Number} {s' : State} : lower = some l → upper = some u → u.value < l.value →
      Delimits c lower upper s (.error (.swappedBounds l u), s')
  | condition {t : String} : ¬Swapped lower upper → (∃ test : Test, test.text = t) →
      (∀ test : Test, test.text = t → ∀ row,
        test.Holds row
            (State.quantity? ⟨t :: s.stack, s.args ++ boundArguments lower upper, s.shift⟩) ↔
          (∀ l ∈ lower, l.value ≤ row c) ∧ ∀ u ∈ upper, row c ≤ u.value) →
      Delimits c lower upper s
        (.ok (), ⟨t :: s.stack, s.args ++ boundArguments lower upper, s.shift⟩)

/-- A bound that is not zero. -/
def counted (bound : Option Number) : Option Number := bound.filter (!·.isZero)

lemma mem_counted {bound : Option Number} {n : Number} :
    n ∈ counted bound ↔ n ∈ bound ∧ n.value ≠ 0 := by
  simp [counted, Option.filter_eq_some_iff, Number.value_eq_zero]

lemma counted_eq_self {bound : Option Number} (h : ∀ n ∈ bound, n.value ≠ 0) :
    counted bound = bound := by
  cases bound with
  | none => rfl
  | some n => exact mem_counted.2 ⟨rfl, h n rfl⟩

lemma length_counted (bound : Option Number) :
    (counted bound).toList.length ≤ bound.toList.length ∧
      ((counted bound).toList.length = bound.toList.length → ∀ n ∈ bound, n.value ≠ 0) := by
  cases bound with
  | none => simp [counted]
  | some n =>
    by_cases hzero : n.isZero = true <;> simp [counted, Number.value_eq_zero, hzero]

/-- A bound that is zero is missing among the arguments. -/
lemma ne_zero_of_boundArguments {lower upper : Option Number}
    (h : boundArguments (counted lower) (counted upper) = boundArguments lower upper) :
    (∀ l ∈ lower, l.value ≠ 0) ∧ ∀ u ∈ upper, u.value ≠ 0 := by
  have hlen := congrArg List.length h
  simp only [boundArguments, List.length_map, List.length_append] at hlen
  obtain ⟨hlower, hlower'⟩ := length_counted lower
  obtain ⟨hupper, hupper'⟩ := length_counted upper
  exact ⟨hlower' (by omega), hupper' (by omega)⟩

namespace Delimits

variable {c : Column} {lower upper : Option Number} {s s' : State}

lemma of_between {test : Test} (hswap : ¬Swapped lower upper)
    (h : Test.between? c s.last lower upper = some test) :
    Delimits c lower upper s
      (.ok (), ⟨test.text :: s.stack, s.args ++ boundArguments lower upper, s.shift⟩) := by
  refine .condition hswap ⟨test, rfl⟩ fun test' htext row => ?_
  obtain rfl := Test.text_injective htext
  exact Test.holds_between h row _

lemma of_ok (h : Delimits c lower upper s (.ok (), s')) :
    ¬Swapped lower upper ∧ s'.args = s.args ++ boundArguments lower upper := by
  cases h with
  | condition hswap => exact ⟨hswap, rfl⟩

end Delimits

section Compiling

variable {q : Ranged} {op : Padding} {r : Range} {c : Column}
  (hs : (Filter.range q op r).Spelled) (hp : (Filter.range q op r).Proper)
  (hc : q.column? = some c) (hr : r.bounds.Readable q.grain) (s : State)

lemma Filter.draft_range (op : Padding) (r : Range) (hc : q.column? = some c) :
    (Filter.range q op r).draft = rangeDraft c.name q.grain (q != .changeset) r.bounds := by
  cases q <;> cases hc <;> rfl

/-- The draft of a range has the bounds that count. -/
lemma rangeDraft_eq {g : Grain} {b : Bounds} (hb : b.Readable g) (ordered : Bool) :
    rangeDraft c.name g ordered b =
      match counted (b.lower? g), counted (b.upper? g) with
      | some l, some u =>
        if ordered && u.lt l then .error (.swappedBounds l u)
        else .ok (some [.text ("(" ++ c.name ++ " >= "), .arg (.number l),
          .text (" AND " ++ c.name ++ " <= "), .arg (.number u), .text ")"])
      | some l, none => .ok (some [.text (c.name ++ " >= "), .arg (.number l)])
      | none, some u => .ok (some [.text (c.name ++ " <= "), .arg (.number u)])
      | none, none => .ok none := by
  rw [rangeDraft, Bounds.values_eq hb, ok_bind]
  rfl

include hc hr

/-- Only bounds that count become part of the condition. -/
lemma exists_range_draft (op : Padding)
    (hswap : q ≠ .changeset → ¬Swapped (counted (r.bounds.lower? q.grain))
      (counted (r.bounds.upper? q.grain))) :
    ∃ o, (Filter.range q op r).draft = .ok o ∧
      s.extend o = ⟨((Test.between? c s.last (counted (r.bounds.lower? q.grain))
          (counted (r.bounds.upper? q.grain))).map Test.text).toList ++ s.stack,
        s.args ++ boundArguments (counted (r.bounds.lower? q.grain))
          (counted (r.bounds.upper? q.grain)), s.shift⟩ := by
  have hdraft := (Filter.draft_range op r hc).trans (rangeDraft_eq hr _)
  have hordered : ∀ l ∈ counted (r.bounds.lower? q.grain), ∀ u ∈ counted (r.bounds.upper? q.grain),
      (q != .changeset && u.lt l) = false := by
    intro l hl u hu
    by_contra htrue
    have hlt : q ≠ .changeset ∧ u.lt l = true := by simpa using htrue
    have hvalue := (Bounds.lt_iff (mem_counted.1 hl).1 (mem_counted.1 hu).1).1 hlt.2
    exact hswap hlt.1 ⟨l, hl, u, hu, hvalue⟩
  revert hdraft hordered
  generalize counted (r.bounds.lower? q.grain) = lower
  generalize counted (r.bounds.upper? q.grain) = upper
  intro hdraft hordered
  rcases lower with _ | l <;> rcases upper with _ | u
  · refine ⟨_, hdraft, ?_⟩
    simp [State.extend, Test.between?, boundArguments]
  · refine ⟨_, hdraft, ?_⟩
    simp [State.extend, Test.between?, boundArguments, Test.text, Side.symbol,
      ← String.append_assoc]
  · refine ⟨_, hdraft, ?_⟩
    simp [State.extend, Test.between?, boundArguments, Test.text, Side.symbol,
      ← String.append_assoc]
  · have hnext : s.last + 1 + 1 = s.last + 2 := Int.add_assoc _ _ _
    simp only [hordered l rfl u rfl] at hdraft
    refine ⟨_, hdraft, ?_⟩
    simp [State.extend, Test.between?, boundArguments, Test.text, Side.symbol, hnext,
      ← String.append_assoc]

include hs hp

lemma exec_range_ordered
    (hswap : q ≠ .changeset → ¬Swapped (counted (r.bounds.lower? q.grain))
      (counted (r.bounds.upper? q.grain))) :
    ∃ s', exec (perform (Expr.filter (.range q op r)).steps) s =
      if AllWritable s.last (boundArguments (counted (r.bounds.lower? q.grain))
          (counted (r.bounds.upper? q.grain))).length then
        (.ok (), ⟨((Test.between? c s.last (counted (r.bounds.lower? q.grain))
            (counted (r.bounds.upper? q.grain))).map Test.text).toList ++ s.stack,
          s.args ++ boundArguments (counted (r.bounds.lower? q.grain))
            (counted (r.bounds.upper? q.grain)), s.shift⟩)
      else (.error .longPlaceholder, s') := by
  obtain ⟨o, hdraft, hextend⟩ := exists_range_draft hc hr s op hswap
  have hargs : s.args ++ (Filter.range q op r).args = s.args ++ boundArguments
      (counted (r.bounds.lower? q.grain)) (counted (r.bounds.upper? q.grain)) := by
    rw [← Filter.args_extend hdraft s, hextend]
  rw [← hextend, ← List.append_cancel_left hargs]
  by_cases hwritable : AllWritable s.last (Filter.range q op r).args.length
  · simp only [if_pos hwritable]
    have hafter := Filter.draftAfter_eq_ok_iff.2 ⟨hdraft, hwritable⟩
    exact ⟨s, Filter.exec_of_draftAfter_ok hs hp s hafter⟩
  · simp only [if_neg hwritable]
    obtain ⟨s', hs', -⟩ := Filter.exec_of_draftAfter_error hs hp s (if_neg hwritable)
    exact ⟨s', hs'⟩

lemma exec_range_error (hq : q ≠ .changeset) {l u : Number}
    (hl : l ∈ counted (r.bounds.lower? q.grain)) (hu : u ∈ counted (r.bounds.upper? q.grain))
    (hlt : u.value < l.value) :
    ∃ s', exec (perform (Expr.filter (.range q op r)).steps) s =
      (.error (.swappedBounds l u), s') := by
  have hlt' := (Bounds.lt_iff (mem_counted.1 hl).1 (mem_counted.1 hu).1).2 hlt
  have hdraft : (Filter.range q op r).draft = .error (.swappedBounds l u) := by
    rw [Filter.draft_range op r hc, rangeDraft_eq hr, Option.mem_def.1 hl, Option.mem_def.1 hu]
    simp [hq, hlt']
  obtain ⟨s', hs', -⟩ :=
    Filter.exec_of_draftAfter_error hs hp s (Filter.draftAfter_of_draft_error hdraft rfl s.last)
  exact ⟨s', hs'⟩

end Compiling

/-- A range means what it says exactly if none of its bounds is zero, it is not one of changesets
that ends before it begins, and the numbers of its placeholders can be written. -/
theorem delimits_iff {text : String} {e : Expr} (hparse : parse text = .ok (.expr e)) {q : Ranged}
    {op : Padding} {r : Range} (hf : .range q op r ∈ e.filters) {c : Column}
    (hc : q.column? = some c) (hr : r.bounds.Readable q.grain) (s : State) :
    Delimits c (r.bounds.lower? q.grain) (r.bounds.upper? q.grain) s
        (exec (perform (Expr.filter (.range q op r)).steps) s) ↔
      (∀ l ∈ r.bounds.lower? q.grain, l.value ≠ 0) ∧
        (∀ u ∈ r.bounds.upper? q.grain, u.value ≠ 0) ∧
        ¬(q = .changeset ∧ Swapped (r.bounds.lower? q.grain) (r.bounds.upper? q.grain)) ∧
        (Swapped (r.bounds.lower? q.grain) (r.bounds.upper? q.grain) ∨ AllWritable s.last
          (boundArguments (r.bounds.lower? q.grain) (r.bounds.upper? q.grain)).length) := by
  obtain ⟨hs, hp⟩ := (parse_wellFormed hparse).genuine _ hf
  have hbound := r.bounds.exists_bound q.grain
  have hexec := exec_range_ordered hs hp hc hr s
  have herror := @exec_range_error q op r c hs hp hc hr s
  generalize r.bounds.lower? q.grain = lower at hbound hexec herror ⊢
  generalize r.bounds.upper? q.grain = upper at hbound hexec herror ⊢
  by_cases hswap : q ≠ .changeset ∧ Swapped (counted lower) (counted upper)
  · -- the failure that is expected
    obtain ⟨hq, l, hl, u, hu, hlt⟩ := hswap
    obtain ⟨s', hs'⟩ := herror hq hl hu hlt
    obtain ⟨rfl, hlzero⟩ := mem_counted.1 hl
    obtain ⟨rfl, huzero⟩ := mem_counted.1 hu
    rw [hs']
    exact iff_of_true (.swapped rfl rfl hlt)
      ⟨by simpa using hlzero, by simpa using huzero, fun h => hq h.1, .inl ⟨l, rfl, u, rfl, hlt⟩⟩
  · obtain ⟨s', hs'⟩ := hexec fun hq h => hswap ⟨hq, h⟩
    rw [hs']
    constructor
    · intro h
      split at h
      · rename_i hwritable
        obtain ⟨hordered, hargs⟩ := h.of_ok
        have hsame := List.append_cancel_left hargs
        have hzero := ne_zero_of_boundArguments hsame
        exact ⟨hzero.1, hzero.2, fun h => hordered h.2, .inr (hsame ▸ hwritable)⟩
      · cases h
    · rintro ⟨hlower, hupper, hchangeset, hwritable⟩
      rw [counted_eq_self hlower, counted_eq_self hupper] at hswap ⊢
      -- for swapped bounds it would have failed, but for changesets
      have hordered : ¬Swapped lower upper := fun h =>
        hchangeset ⟨by_contra fun hq => hswap ⟨hq, h⟩, h⟩
      obtain ⟨test, htest⟩ : ∃ test, Test.between? c s.last lower upper = some test := by
        cases lower <;> cases upper <;> simp_all [Test.between?]
      rw [if_pos (hwritable.resolve_left hordered), htest]
      exact .of_between hordered htest

/-- Two decimal numbers, in a state in which there is something already. -/
theorem delimits_iff_area :
    ∃ e r, parse "type:way and area:( 0.5 .. 1.5e2)" = .ok (.expr e) ∧
      .range .area ⟨none, none⟩ r ∈ e.filters ∧ r.bounds.Readable .decimal ∧
      Delimits .area (r.bounds.lower? .decimal) (r.bounds.upper? .decimal) ⟨["a"], [.text "b"], 3⟩
        (exec (perform (Expr.filter (.range .area ⟨none, none⟩ r)).steps)
          ⟨["a"], [.text "b"], 3⟩) := by
  let r : Range := ⟨⟨none, some " "⟩,
    .both ⟨.decimal, "0.5"⟩ ⟨some " ", some " "⟩ ⟨.decimal, "1.5e2"⟩, ⟨none, none⟩⟩
  let e : Expr := .join .conj (.filter (.type ⟨none, none⟩ "way")) ⟨some " ", some " "⟩
    (.filter (.range .area ⟨none, none⟩ r))
  have hparse : parse "type:way and area:( 0.5 .. 1.5e2)" = .ok (.expr e) := by decide +kernel
  have hf : .range .area ⟨none, none⟩ r ∈ e.filters := by decide +kernel
  have hr : r.bounds.Readable .decimal := fun h => by cases h
  have hlower : ∀ n ∈ r.bounds.lower? .decimal, n.isZero = false := by decide +kernel
  have hupper : ∀ n ∈ r.bounds.upper? .decimal, n.isZero = false := by decide +kernel
  refine ⟨e, r, hparse, hf, hr, (delimits_iff hparse hf rfl hr _).2 ⟨?_, ?_, ?_, ?_⟩⟩
  · intro n hn hzero
    rw [Number.value_eq_zero, hlower n hn] at hzero
    cases hzero
  · intro n hn hzero
    rw [Number.value_eq_zero, hupper n hn] at hzero
    cases hzero
  · rintro ⟨h, -⟩
    cases h
  · exact .inr (by decide +kernel)

/-- A range up to zero makes no condition, and a range of changesets that ends before it begins
makes one. -/
theorem not_delimits_zero :
    (∃ r, parse "id:(..0)" = .ok (.expr (.filter (.range .id ⟨none, none⟩ r))) ∧
      ¬Delimits .id (r.bounds.lower? .whole) (r.bounds.upper? .whole) (.fresh 0)
        (exec (perform (Expr.filter (.range .id ⟨none, none⟩ r)).steps) (.fresh 0))) ∧
    ∃ r, parse "changeset:(5..1)" = .ok (.expr (.filter (.range .changeset ⟨none, none⟩ r))) ∧
      ¬Delimits .changeset (r.bounds.lower? .whole) (r.bounds.upper? .whole) (.fresh 0)
        (exec (perform (Expr.filter (.range .changeset ⟨none, none⟩ r)).steps) (.fresh 0)) := by
  constructor
  · let r : Range := ⟨⟨none, none⟩, .upTo ⟨none, none⟩ ⟨.number, "0"⟩, ⟨none, none⟩⟩
    have hexec : exec (perform (Expr.filter (.range .id ⟨none, none⟩ r)).steps) (.fresh 0) =
        (.ok (), .fresh 0) := by decide +kernel
    refine ⟨r, by decide +kernel, fun h => ?_⟩
    rw [hexec] at h
    cases h.of_ok.2
  · let r : Range := ⟨⟨none, none⟩, .both ⟨.number, "5"⟩ ⟨none, none⟩ ⟨.number, "1"⟩, ⟨none, none⟩⟩
    have hexec : exec (perform (Expr.filter (.range .changeset ⟨none, none⟩ r)).steps) (.fresh 0) =
        (.ok (), ⟨["(changeset_id >= $1 AND changeset_id <= $2)"],
          [.number (.whole 5), .number (.whole 1)], 0⟩) := by decide +kernel
    have hlt : (Grain.whole.number ⟨.number, "1"⟩).value <
        (Grain.whole.number ⟨.number, "5"⟩).value :=
      (Grain.value_lt_value _ _ _).2 (by decide)
    refine ⟨r, by decide +kernel, fun h => ?_⟩
    rw [hexec] at h
    exact h.of_ok.1 ⟨_, rfl, _, rfl, hlt⟩

end MapFilter
