import MapFilter.Proofs.Condition

/-!
# Reading a query

A query is read as SQL reads it: `NOT` holds tighter than `AND`, `AND` tighter than `OR`, both of them
go from left to right, and parentheses hold together what is in them. What single filters have
become is not looked into.

There is at most one way to cut a text into such pieces, because no condition is made of words and
parentheses alone, and at most one way to read the pieces.
-/

namespace MapFilter.Sql

/-- A piece of a query: the condition of a filter, or what stands between conditions. -/
inductive Piece where
  | atom (i : Nat) (text : String)
  | neg
  | conj
  | disj
  | opening
  | closing
deriving DecidableEq, Repr

namespace Piece

def text : Piece → String
  | .atom _ t => t
  | .neg => "NOT "
  | .conj => " AND "
  | .disj => " OR "
  | .opening => "("
  | .closing => ")"

def atom? : Piece → Option (String × Nat)
  | .atom i t => some (t, i)
  | _ => none

end Piece

/-- The text `t` is cut into `ps`, with every one of the conditions in it, from left to right. -/
structure IsCut (conditions : List String) (t : String) (ps : List Piece) : Prop where
  text : String.join (ps.map Piece.text) = t
  atoms : ps.filterMap Piece.atom? = conditions.zipIdx

/-- What a query says about the conditions in it. -/
inductive Cond where
  | atom (i : Nat)
  | neg (c : Cond)
  | conj (l r : Cond)
  | disj (l r : Cond)
deriving DecidableEq, Repr

def Cond.value (v : Nat → Bool) : Cond → Bool
  | .atom i => v i
  | .neg c => !c.value v
  | .conj l r => l.value v && r.value v
  | .disj l r => l.value v || r.value v

/-- How tight pieces hold together. -/
inductive Binding where
  | primary | conjunction | disjunction
deriving DecidableEq, Repr

inductive Reads : Binding → List Piece → Cond → Prop where
  | atom (i : Nat) (t : String) : Reads .primary [.atom i t] (.atom i)
  | neg {ps : List Piece} {c : Cond} : Reads .primary ps c → Reads .primary (.neg :: ps) (.neg c)
  | parens {ps : List Piece} {c : Cond} : Reads .disjunction ps c →
      Reads .primary (.opening :: ps ++ [.closing]) c
  | single {ps : List Piece} {c : Cond} : Reads .primary ps c → Reads .conjunction ps c
  | conj {ps qs : List Piece} {c d : Cond} : Reads .conjunction ps c → Reads .primary qs d →
      Reads .conjunction (ps ++ .conj :: qs) (.conj c d)
  | alone {ps : List Piece} {c : Cond} : Reads .conjunction ps c → Reads .disjunction ps c
  | disj {ps qs : List Piece} {c d : Cond} : Reads .disjunction ps c → Reads .conjunction qs d →
      Reads .disjunction (ps ++ .disj :: qs) (.disj c d)

lemma Reads.of_primary {ps : List Piece} {c : Cond} (h : Reads .primary ps c) (b : Binding) :
    Reads b ps c := by
  cases b with
  | primary => exact h
  | conjunction => exact .single h
  | disjunction => exact .alone (.single h)

/-! ## There is one cut -/

namespace Piece

def chars (ps : List Piece) : List Char := ps.flatMap (·.text.toList)

@[simp] lemma chars_cons (p : Piece) (ps : List Piece) :
    chars (p :: ps) = p.text.toList ++ chars ps := rfl

lemma toList_join (ps : List Piece) : (String.join (ps.map text)).toList = chars ps := by
  induction ps with
  | nil => rfl
  | cons p ps ih =>
    rw [List.map_cons, String.join_cons, String.toList_append, ih]
    rfl

lemma atom?_eq_some {p : Piece} {t : String} {i : Nat} (h : p.atom? = some (t, i)) :
    p = .atom i t := by
  cases p with
  | atom j s =>
    cases h
    rfl
  | neg | conj | disj | opening | closing => cases h

/-- Words and parentheses have no other characters than theirs. -/
lemma connective_of_atom?_eq_none {p : Piece} (h : p.atom? = none) :
    p.text.toList ≠ [] ∧ ∀ c ∈ p.text.toList, isConnective c = true := by
  cases p with
  | atom i t => cases h
  | neg | conj | disj | opening | closing => simp [text, isConnective]

/-- No word or parenthesis begins like another one. -/
lemma eq_of_append_eq {p q : Piece} (hp : p.atom? = none) (hq : q.atom? = none)
    {u v : List Char} (h : p.text.toList ++ u = q.text.toList ++ v) : p = q := by
  cases p <;> cases q <;> simp_all [text, atom?]

lemma takeWhile_plain {t : String} (ht : Plain t) (u : List Char) :
    (t.toList ++ u).takeWhile isConnective = t.toList.takeWhile isConnective := by
  obtain ⟨c, hc, hplain⟩ := ht
  generalize t.toList = cs at hc
  induction cs with
  | nil => cases hc
  | cons d cs ih =>
    rw [List.cons_append, List.takeWhile_cons, List.takeWhile_cons]
    by_cases hd : isConnective d = true
    · rw [if_pos hd, if_pos hd]
      have hmem : c ∈ cs := by
        rcases List.mem_cons.1 hc with rfl | hmem
        · rw [hplain] at hd
          cases hd
        · exact hmem
      rw [ih hmem]
    · rw [if_neg hd, if_neg hd]

/-- Words and parentheses before the first condition can only add to what it begins with. -/
lemma length_takeWhile_le {ps : List Piece} {t : String} {i : Nat} {as : List (String × Nat)}
    (hatoms : ps.filterMap atom? = (t, i) :: as) (ht : Plain t) :
    (t.toList.takeWhile isConnective).length ≤ ((chars ps).takeWhile isConnective).length := by
  induction ps with
  | nil => cases hatoms
  | cons p ps ih =>
    rw [chars_cons]
    rcases hp : p.atom? with _ | a
    · have hrest : ps.filterMap atom? = (t, i) :: as := by simpa [hp] using hatoms
      have hall := (connective_of_atom?_eq_none hp).2
      rw [List.takeWhile_append_of_pos hall, List.length_append]
      have hle := ih hrest
      omega
    · have ha : a = (t, i) := by
        rw [List.filterMap_cons_some hp] at hatoms
        exact (List.cons.inj hatoms).1
      have heq : p = .atom i t := atom?_eq_some (by rw [hp, ha])
      have htake := takeWhile_plain ht (chars ps)
      rw [heq]
      exact Nat.le_of_eq (congrArg List.length htake.symm)

/-- A word or parenthesis cannot stand where a condition begins. -/
lemma not_connective_of_atom {p : Piece} (hp : p.atom? = none) {ps : List Piece} {t : String}
    {i : Nat} {as : List (String × Nat)} (ht : Plain t)
    (hatoms : ps.filterMap atom? = (t, i) :: as) (u : List Char) :
    chars (p :: ps) ≠ t.toList ++ u := by
  intro h
  have hp' := connective_of_atom?_eq_none hp
  have hlen := congrArg (fun cs => (cs.takeWhile isConnective).length) h
  simp only [chars_cons] at hlen
  rw [List.takeWhile_append_of_pos hp'.2, List.length_append, takeWhile_plain ht] at hlen
  have hle := length_takeWhile_le hatoms ht
  have hpos : 0 < p.text.toList.length := List.length_pos_iff.2 hp'.1
  omega

/-- Pieces are known from their text and from the conditions among them. -/
lemma eq_of_chars_eq {ps qs : List Piece} (hchars : chars ps = chars qs)
    (hatoms : ps.filterMap atom? = qs.filterMap atom?)
    (hplain : ∀ a ∈ ps.filterMap atom?, Plain a.1) : ps = qs := by
  induction ps generalizing qs with
  | nil =>
    rcases qs with _ | ⟨q, qs⟩
    · rfl
    · have hq : q.atom? = none := (List.filterMap_eq_nil_iff.1 hatoms.symm) q (by simp)
      have hne := (connective_of_atom?_eq_none hq).1
      exact absurd (List.append_eq_nil_iff.1 hchars.symm).1 hne
  | cons p ps ih =>
    rcases qs with _ | ⟨q, qs⟩
    · have hp : p.atom? = none := (List.filterMap_eq_nil_iff.1 hatoms) p (by simp)
      have hne := (connective_of_atom?_eq_none hp).1
      exact absurd (List.append_eq_nil_iff.1 hchars).1 hne
    · rcases hp : p.atom? with _ | ⟨t, i⟩ <;> rcases hq : q.atom? with _ | ⟨t', i'⟩
      · rw [List.filterMap_cons_none hp] at hatoms hplain
        rw [List.filterMap_cons_none hq] at hatoms
        obtain rfl : p = q := eq_of_append_eq hp hq hchars
        rw [ih (List.append_cancel_left hchars) hatoms hplain]
      · -- A condition of `qs` would begin with the word or parenthesis `p`.
        rw [List.filterMap_cons_none hp] at hatoms hplain
        rw [List.filterMap_cons_some hq] at hatoms
        have ht : Plain t' := hplain (t', i') (by simp [hatoms])
        rw [atom?_eq_some hq] at hchars
        exact absurd hchars (not_connective_of_atom hp ht hatoms (chars qs))
      · rw [List.filterMap_cons_some hp] at hatoms hplain
        rw [List.filterMap_cons_none hq] at hatoms
        have ht : Plain t := hplain (t, i) (by simp)
        rw [atom?_eq_some hp] at hchars
        exact absurd hchars.symm (not_connective_of_atom hq ht hatoms.symm (chars ps))
      · rw [List.filterMap_cons_some hp] at hatoms hplain
        rw [List.filterMap_cons_some hq] at hatoms
        obtain ⟨hhead, htail⟩ := List.cons.inj hatoms
        cases hhead
        have hpq : p = q := (atom?_eq_some hp).trans (atom?_eq_some hq).symm
        subst hpq
        have hrest : ps = qs := ih (List.append_cancel_left hchars) htail
          fun a ha => hplain a (List.mem_cons_of_mem _ ha)
        rw [hrest]

end Piece

/-- There is only one way to cut a text with given conditions. -/
theorem IsCut.unique {conditions : List String} (hplain : ∀ t ∈ conditions, Plain t)
    {t : String} {ps qs : List Piece} (hp : IsCut conditions t ps) (hq : IsCut conditions t qs) :
    ps = qs := by
  apply Piece.eq_of_chars_eq
  · rw [← Piece.toList_join, ← Piece.toList_join, hp.text, hq.text]
  · rw [hp.atoms, hq.atoms]
  · intro a ha
    rw [hp.atoms] at ha
    exact hplain a.1 (List.fst_mem_of_mem_zipIdx ha)

/-! ## There is one reading -/

/-- What has been read since the last parenthesis was opened: a disjunction that is waiting for the
rest of it, a conjunction, and how often the next operand has to be negated. -/
structure Frame where
  left : Option Cond
  product : Option Cond
  negs : Nat

def Cond.negate : Nat → Cond → Cond
  | 0, c => c
  | n + 1, c => negate n (.neg c)

namespace Frame

def start : Frame := ⟨none, none, 0⟩

/-- Puts an operand after all that has been read. -/
def add (c : Cond) (f : Frame) : Frame :=
  let operand := c.negate f.negs
  ⟨f.left, some (match f.product with
    | none => operand
    | some p => .conj p operand), 0⟩

/-- All that has been read. -/
def whole? (f : Frame) : Option Cond :=
  match f.left, f.product with
  | some l, some p => some (.disj l p)
  | none, p => p
  | some _, none => none

/-- Reads one more piece. -/
def feed : List Frame → Piece → List Frame
  | f :: fs, .atom i _ => f.add (.atom i) :: fs
  | f :: fs, .neg => { f with negs := f.negs + 1 } :: fs
  | f :: fs, .conj => f :: fs
  | f :: fs, .disj => ⟨f.whole?, none, 0⟩ :: fs
  | f :: fs, .opening => start :: f :: fs
  | f :: g :: fs, .closing =>
    match f.whole? with
    | some c => g.add c :: fs
    | none => []
  | _, _ => []

end Frame

/-- What reading does to a frame, for every way in which pieces hold together. -/
def Binding.Fills : Binding → List Piece → Cond → Prop
  | .primary, ps, c => ∀ f fs, ps.foldl Frame.feed (f :: fs) = f.add c :: fs
  | .conjunction, ps, c => ∀ left fs,
      ps.foldl Frame.feed (⟨left, none, 0⟩ :: fs) = ⟨left, some c, 0⟩ :: fs
  | .disjunction, ps, c => ∀ fs, ∃ f,
      ps.foldl Frame.feed (.start :: fs) = f :: fs ∧ f.whole? = some c

lemma Reads.fills {b : Binding} {ps : List Piece} {c : Cond} (h : Reads b ps c) : b.Fills ps c := by
  induction h with
  | atom i t =>
    intro f fs
    rfl
  | @neg ps c _ ih =>
    intro f fs
    rw [List.foldl_cons, Frame.feed, ih]
    rfl
  | @parens ps c _ ih =>
    intro f fs
    obtain ⟨g, hfold, hwhole⟩ := ih (f :: fs)
    rw [List.cons_append, List.foldl_cons, Frame.feed, List.foldl_append, hfold]
    simp [Frame.feed, hwhole]
  | @single ps c _ ih =>
    intro left fs
    exact ih ⟨left, none, 0⟩ fs
  | @conj ps qs c d _ _ ihp ihq =>
    intro left fs
    rw [List.foldl_append, ihp, List.foldl_cons, Frame.feed, ihq]
    rfl
  | @alone ps c _ ih =>
    intro fs
    exact ⟨_, ih none fs, rfl⟩
  | @disj ps qs c d _ _ ihp ihq =>
    intro fs
    obtain ⟨f, hfold, hwhole⟩ := ihp fs
    refine ⟨⟨some c, some d, 0⟩, ?_, rfl⟩
    rw [List.foldl_append, hfold, List.foldl_cons, Frame.feed, hwhole, ihq]

/-- There is only one way to read pieces. -/
theorem Reads.unique {ps : List Piece} {c d : Cond} (hc : Reads .disjunction ps c)
    (hd : Reads .disjunction ps d) : c = d := by
  obtain ⟨f, hf, hfc⟩ := hc.fills []
  obtain ⟨g, hg, hgd⟩ := hd.fills []
  rw [hf] at hg
  obtain rfl : f = g := (List.cons.inj hg).1
  rw [hfc] at hgd
  exact Option.some.inj hgd

end MapFilter.Sql
