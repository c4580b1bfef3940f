import MapFilter.Proofs.Parsing
import MapFilter.Sql.Bounds

/-!
# Reading a range from its text

A range is handed on as the text between its parentheses and taken apart again at the two dots. For
a parsed range this gives the numbers of its bounds: white space round them is trimmed, and no bound
has two dots in a row or a dot at its end.
-/

namespace MapFilter

/-! ## Trimming -/

/-- Not empty, and with no white space at either end. -/
structure Trimmed (cs : List Char) : Prop where
  ne_nil : cs ≠ []
  head : ∀ c ∈ cs.head?, isBlank c = false
  last : ∀ c ∈ cs.getLast?, isBlank c = false

def Blank (cs : List Char) : Prop := ∀ c ∈ cs, isBlank c = true

lemma blank_nil : Blank [] := List.forall_mem_nil _

lemma dropWhile_blank_append {u v : List Char} (hu : Blank u)
    (hv : ∀ c ∈ v.head?, isBlank c = false) : (u ++ v).dropWhile isBlank = v := by
  rw [List.dropWhile_append_of_pos hu]
  cases v with
  | nil => rfl
  | cons c v => rw [List.dropWhile_cons_of_neg (by simp [hv c rfl])]

/-- Trimming takes off the white space round a text and nothing else. -/
theorem trim_append {u v w : List Char} (hu : Blank u) (hv : Trimmed v) (hw : Blank w) :
    trim (u ++ (v ++ w)) = v := by
  obtain ⟨c, v', rfl⟩ := List.exists_cons_of_ne_nil hv.ne_nil
  have hfront : (u ++ (c :: v' ++ w)).dropWhile isBlank = c :: v' ++ w :=
    dropWhile_blank_append hu (by simpa using hv.head)
  have hback : ((c :: v' ++ w).reverse).dropWhile isBlank = (c :: v').reverse := by
    rw [List.reverse_append]
    refine dropWhile_blank_append (fun d hd => hw d (List.mem_reverse.1 hd)) ?_
    rw [List.head?_reverse]
    exact hv.last
  rw [trim, hfront, hback, List.reverse_reverse]

lemma Trimmed.append_last {u v : List Char} (hv : Trimmed v) :
    ∀ c ∈ (u ++ v).getLast?, isBlank c = false := by
  rw [List.getLast?_append, Option.or_of_isSome (List.getLast?_isSome.2 hv.ne_nil)]
  exact hv.last

lemma Trimmed.append {u v w : List Char} (hu : Trimmed u) (hw : Trimmed w) :
    Trimmed (u ++ (v ++ w)) := by
  obtain ⟨c, u', rfl⟩ := List.exists_cons_of_ne_nil hu.ne_nil
  refine ⟨by simp, by simpa using hu.head, ?_⟩
  rw [← List.append_assoc]
  exact hw.append_last

lemma Trimmed.of_ends {c d : Char} {v : List Char} (hc : isBlank c = false)
    (hd : isBlank d = false) : Trimmed (c :: (v ++ [d])) :=
  ⟨by simp, by simpa using hc, by simp [List.getLast?_cons, hd]⟩

lemma Trimmed.of_forall {cs : List Char} (hne : cs ≠ []) (h : ∀ c ∈ cs, isBlank c = false) :
    Trimmed cs :=
  ⟨hne, fun c hc => h c (List.mem_of_mem_head? hc), fun c hc => h c (List.mem_of_mem_getLast? hc)⟩

/-! ## Bounds -/

lemma IsDigits.trimmed {cs : List Char} (h : IsDigits cs) : Trimmed cs := by
  have hblank : ∀ c ∈ cs, isBlank c = false := by
    intro c hc
    have hdigit := h.2 c hc
    by_contra hb
    simp only [isBlank, Bool.or_eq_true, beq_iff_eq, Bool.not_eq_false] at hb
    rcases hb with ((rfl | rfl) | rfl) | rfl <;> simp [Char.isDigit] at hdigit
  exact .of_forall h.1 hblank

lemma IsDigits.no_dot {cs : List Char} (h : IsDigits cs) : '.' ∉ cs :=
  fun hdot => absurd (h.2 _ hdot) (by decide)

lemma Blank.no_dot {cs : List Char} (h : Blank cs) : '.' ∉ cs :=
  fun hdot => absurd (h _ hdot) (by decide)

/-- A decimal number ends with digits, whatever it has before them. -/
lemma IsDecimal.ends_with_digits {cs : List Char} (h : IsDecimal cs) :
    ∃ u ds, cs = u ++ ds ∧ IsDigits ds := by
  obtain @⟨whole, fraction, exponent, hwhole, hfraction, hexponent⟩ := h
  rcases hexponent with rfl | ⟨e, ds, -, hds, rfl⟩
  · rcases hfraction with rfl | ⟨ds, hds, rfl⟩
    · exact ⟨[], whole, by simp, hwhole⟩
    · exact ⟨whole ++ ['.'], ds, by simp, hds⟩
  · exact ⟨whole ++ fraction ++ [e], ds, by simp, hds⟩

lemma IsDecimal.trimmed {cs : List Char} (h : IsDecimal cs) : Trimmed cs := by
  obtain ⟨u, ds, hcs, hds⟩ := h.ends_with_digits
  obtain @⟨whole, fraction, exponent, hwhole, -, -⟩ := h
  obtain ⟨c, whole', rfl⟩ := List.exists_cons_of_ne_nil hwhole.1
  refine ⟨by simp, by simpa using hwhole.trimmed.head, ?_⟩
  rw [hcs]
  exact hds.trimmed.append_last

namespace Bounds

lemma splitDots_ne_nil (cs : List Char) : splitDots cs ≠ [] := by
  rw [splitDots.eq_def]
  split
  · simp
  · split <;> simp
  · simp

lemma splitDots_cons {c : Char} {cs : List Char} (h : c ≠ '.' ∨ ∃ d ds, cs = d :: ds ∧ d ≠ '.') :
    splitDots (c :: cs) = (splitDots cs).modifyHead (c :: ·) := by
  obtain ⟨p, ps, hsplit⟩ := List.exists_cons_of_ne_nil (splitDots_ne_nil cs)
  rw [splitDots.eq_def]
  split
  · rename_i heq
    obtain ⟨rfl, rfl⟩ := List.cons.inj heq
    simp at h
  · rename_i heq
    obtain ⟨rfl, rfl⟩ := List.cons.inj heq
    rw [hsplit]
    rfl
  · rename_i heq
    cases heq

lemma splitDots_append {u v : List Char} (hu : '.' ∉ u) :
    splitDots (u ++ v) = (splitDots v).modifyHead (u ++ ·) := by
  obtain ⟨p, ps, hsplit⟩ := List.exists_cons_of_ne_nil (splitDots_ne_nil v)
  induction u with
  | nil => simp [hsplit]
  | cons c u ih =>
    simp only [List.mem_cons, not_or] at hu
    rw [List.cons_append, splitDots_cons (.inl (Ne.symm hu.1)), ih hu.2, hsplit]
    rfl

/-- The dots inside a decimal number do not take it apart. -/
lemma splitDots_decimal_append {u v : List Char} (hu : IsDecimal u) :
    splitDots (u ++ v) = (splitDots v).modifyHead (u ++ ·) := by
  obtain ⟨p, ps, hsplit⟩ := List.exists_cons_of_ne_nil (splitDots_ne_nil v)
  obtain @⟨whole, fraction, exponent, hwhole, hfraction, hexponent⟩ := hu
  have hdot : '.' ∉ exponent := by
    rcases hexponent with rfl | ⟨e, ds, he, hds, rfl⟩
    · simp
    · rcases he with rfl | rfl <;> simpa using hds.no_dot
  rw [List.append_assoc, List.append_assoc, splitDots_append hwhole.no_dot]
  rcases hfraction with rfl | ⟨ds, hds, rfl⟩
  · rw [List.nil_append, splitDots_append hdot, hsplit]
    simp
  · obtain ⟨d, ds, rfl⟩ := List.exists_cons_of_ne_nil hds.1
    have hd : d ≠ '.' := fun h => hds.no_dot (by simp [h])
    have hpoint : splitDots ('.' :: (d :: ds ++ (exponent ++ v))) =
        (splitDots (d :: ds ++ (exponent ++ v))).modifyHead ('.' :: ·) :=
      splitDots_cons (.inr ⟨d, ds ++ (exponent ++ v), rfl, hd⟩)
    rw [List.cons_append, hpoint, splitDots_append hds.no_dot, splitDots_append hdot, hsplit]
    simp

lemma splitDots_dots (v : List Char) : splitDots ('.' :: '.' :: v) = [] :: splitDots v := by
  rw [splitDots]

lemma splitDots_decimal {u v : List Char} (hv : '.' ∉ v) (hu : IsDecimal u) :
    splitDots (v ++ u) = [v ++ u] := by
  have h := splitDots_decimal_append (v := []) hu
  rw [List.append_nil] at h
  rw [splitDots_append hv, h]
  simp [splitDots]

/-- The token before the dots. -/
def lowerToken? : Bounds → Option Lexeme
  | .both l _ _ | .startingAt l _ => some l
  | .upTo _ _ => none

/-- The token after the dots. -/
def upperToken? : Bounds → Option Lexeme
  | .both _ _ u | .upTo _ u => some u
  | .startingAt _ _ => none

/-- The bounds of a range with white space `u` before the dots and `v` after them. -/
def spread (u v : List Char) : Bounds → List Char
  | .both l _ k => l.text.toList ++ (u ++ '.' :: '.' :: (v ++ k.text.toList))
  | .upTo _ k => '.' :: '.' :: (v ++ k.text.toList)
  | .startingAt l _ => l.text.toList ++ (u ++ ['.', '.'])

/-- The lower and the upper bound, read from their tokens. -/
def values (g : Grain) : Bounds → Except Failure (Option Number × Option Number)
  | .both l _ k => do
    let lower ← readNumber g l.text.toList
    let upper ← readNumber g k.text.toList
    pure (some lower, some upper)
  | .upTo _ k => do
    let upper ← readNumber g k.text.toList
    pure (none, some upper)
  | .startingAt l _ => do
    let lower ← readNumber g l.text.toList
    pure (some lower, none)

lemma spread_trimmed {u v : List Char} {b : Bounds} (hb : ∀ l ∈ b.written, IsDecimal l.text.toList) :
    Trimmed (b.spread u v) := by
  cases b with
  | both l d k =>
    have hl := (hb l (by simp [written])).trimmed
    have hk := (hb k (by simp [written])).trimmed
    simpa [spread] using hl.append (v := u ++ '.' :: '.' :: v) hk
  | upTo d k =>
    have hk := (hb k (by simp [written])).trimmed
    exact ⟨by simp [spread], by simp [spread, isBlank], hk.append_last (u := '.' :: '.' :: v)⟩
  | startingAt l d =>
    have hl := (hb l (by simp [written])).trimmed
    have hdots : Trimmed ['.', '.'] := ⟨by simp, by simp [isBlank], by simp [isBlank]⟩
    exact hl.append hdots

lemma readBound_append {g : Grain} {u v w : List Char} (hu : Blank u) (hv : Trimmed v)
    (hw : Blank w) : readBound g (u ++ (v ++ w)) = some <$> readNumber g v := by
  have hne : (u ++ (v ++ w)).isEmpty = false := by simp [hv.ne_nil]
  rw [readBound, hne, trim_append hu hv hw]
  rfl

/-- The dots take the text of a range apart into what is written for each bound. -/
lemma splitDots_spread {u v : List Char} {b : Bounds} (hu : Blank u) (hv : Blank v)
    (hb : ∀ l ∈ b.written, IsDecimal l.text.toList) :
    splitDots (b.spread u v) = [b.lowerToken?.elim [] (·.text.toList ++ u),
      b.upperToken?.elim [] (v ++ ·.text.toList)] := by
  cases b with
  | both l d k =>
    have hl := hb l (by simp [written])
    have hk := hb k (by simp [written])
    rw [spread, splitDots_decimal_append hl, splitDots_append hu.no_dot, splitDots_dots,
      splitDots_decimal hv.no_dot hk]
    simp [lowerToken?, upperToken?]
  | upTo d k =>
    have hk := hb k (by simp [written])
    rw [spread, splitDots_dots, splitDots_decimal hv.no_dot hk]
    rfl
  | startingAt l d =>
    have hl := hb l (by simp [written])
    rw [spread, splitDots_decimal_append hl, splitDots_append hu.no_dot, splitDots_dots]
    simp [splitDots, lowerToken?, upperToken?]

/-- Taking the text of a range apart gives its bounds. -/
lemma read_spread {g : Grain} {u v : List Char} {b : Bounds} (hu : Blank u) (hv : Blank v)
    (hb : ∀ l ∈ b.written, IsDecimal l.text.toList) :
    read g (.ofList (b.spread u v)) = b.values g := by
  have hlower : ∀ l ∈ b.written,
      readBound g (l.text.toList ++ u) = some <$> readNumber g l.text.toList := fun l hl => by
    simpa using readBound_append (u := []) blank_nil (hb l hl).trimmed hu
  have hupper : ∀ k ∈ b.written,
      readBound g (v ++ k.text.toList) = some <$> readNumber g k.text.toList := fun k hk => by
    simpa using readBound_append (w := []) hv (hb k hk).trimmed blank_nil
  rw [read, String.toList_ofList, splitDots_spread hu hv hb]
  cases b with
  | both l d k =>
    simp only [lowerToken?, upperToken?, Option.elim, hlower l (by simp [written]),
      hupper k (by simp [written]), values]
    rcases readNumber g l.text.toList with e | x
    · rfl
    · rcases readNumber g k.text.toList with e | y <;> rfl
  | upTo d k =>
    simp only [lowerToken?, upperToken?, Option.elim, hupper k (by simp [written]), values]
    rcases readNumber g k.text.toList with e | y <;> rfl
  | startingAt l d =>
    simp only [lowerToken?, upperToken?, Option.elim, hlower l (by simp [written]), values]
    rcases readNumber g l.text.toList with e | x <;> rfl

end Bounds

/-! ## The text between the parentheses -/

lemma Node.toList_text (n : Node) : n.text.toList = n.leaves.flatMap (·.text.toList) := by
  rw [Node.text, String.toList_join, List.flatMap_map]

lemma spaceNodes_blank {o : Option String}
    (h : ∀ l ∈ Node.leavesOf (spaceNodes o), l.Spelled) :
    Blank ((Node.leavesOf (spaceNodes o)).flatMap (·.text.toList)) := by
  cases o with
  | none => simp [spaceNodes, Blank]
  | some s =>
    have hs := Lexeme.Spelled.space (h ⟨.space, s⟩ (by simp [spaceNodes]))
    intro c hc
    have hc := hs c (by simpa [spaceNodes] using hc)
    rcases hc with rfl | rfl | rfl | rfl <;> rfl

/-- A symbol has white space round it and nothing else. -/
lemma Padding.chars {p : Padding} {s : Sign} (h : ∀ l ∈ (p.node s).leaves, l.Spelled) :
    ∃ u v, Blank u ∧ Blank v ∧ (p.node s).leaves.flatMap (·.text.toList) =
      u ++ ((s.kind.spelling?.getD "").toList ++ v) := by
  simp only [Padding.node, Node.leaves_branch, Node.leavesOf_append, Node.leavesOf_cons,
    List.mem_append, Kind.node, Node.leaves_leaf] at h ⊢
  refine ⟨_, _, spaceNodes_blank (fun l hl => h l (.inl hl)),
    spaceNodes_blank (fun l hl => h l (.inr (.inr hl))), ?_⟩
  simp

/-- The tokens of the bounds, with white space that trimming takes off at either end. -/
lemma Bounds.chars {b : Bounds} (h : ∀ l ∈ Node.leavesOf b.nodes, l.Spelled) :
    ∃ w u v x, Blank w ∧ Blank u ∧ Blank v ∧ Blank x ∧
      (Node.leavesOf b.nodes).flatMap (·.text.toList) = w ++ (b.spread u v ++ x) := by
  cases b with
  | both l d k =>
    simp only [Bounds.nodes, Node.leavesOf_cons, Node.leavesOf_nil, List.mem_append] at h
    obtain ⟨u, v, hu, hv, hd⟩ := Padding.chars (fun l hl => h l (.inr (.inl hl)))
    refine ⟨[], u, v, [], blank_nil, hu, hv, blank_nil, ?_⟩
    simp [Bounds.nodes, Bounds.spread, hd, Sign.kind, Kind.spelling?]
  | upTo d k =>
    simp only [Bounds.nodes, Node.leavesOf_cons, Node.leavesOf_nil, List.mem_append] at h
    obtain ⟨u, v, hu, hv, hd⟩ := Padding.chars (fun l hl => h l (.inl hl))
    refine ⟨u, [], v, [], hu, blank_nil, hv, blank_nil, ?_⟩
    simp [Bounds.nodes, Bounds.spread, hd, Sign.kind, Kind.spelling?]
  | startingAt l d =>
    simp only [Bounds.nodes, Node.leavesOf_cons, Node.leavesOf_nil, List.mem_append] at h
    obtain ⟨u, v, hu, hv, hd⟩ := Padding.chars (fun l hl => h l (.inr (.inl hl)))
    refine ⟨[], u, [], v, blank_nil, hu, blank_nil, hv, ?_⟩
    simp [Bounds.nodes, Bounds.spread, hd, Sign.kind, Kind.spelling?]

lemma Blank.append {u v : List Char} (hu : Blank u) (hv : Blank v) : Blank (u ++ v) := by
  intro c hc
  rcases List.mem_append.1 hc with hc | hc
  · exact hu c hc
  · exact hv c hc

section Ranges

variable {g : Grain} {r : Range}

lemma Bounds.written_subset (b : Bounds) : b.written ⊆ Node.leavesOf b.nodes := by
  intro l hl
  cases b with
  | both lower d upper =>
    have hcases : l = lower ∨ l = upper := by simpa [Bounds.written] using hl
    rcases hcases with rfl | rfl <;> simp [Bounds.nodes]
  | upTo d upper =>
    have heq : l = upper := by simpa [Bounds.written] using hl
    simp [Bounds.nodes, heq]
  | startingAt lower d =>
    have heq : l = lower := by simpa [Bounds.written] using hl
    simp [Bounds.nodes, heq]

lemma Range.mem_leaves_of_written {l : Lexeme} (hl : l ∈ r.bounds.written) :
    l ∈ (r.node g).leaves := by
  have hbounds := r.bounds.written_subset hl
  simp [Range.node, hbounds]

lemma Range.bounds_decimal (hs : ∀ l ∈ (r.node g).leaves, l.Spelled)
    (hb : ∀ l ∈ r.bounds.written, g.isBound l.kind = true) :
    ∀ l ∈ r.bounds.written, IsDecimal l.text.toList := by
  intro l hl
  have hkind : l.kind = .number ∨ l.kind = .decimal := by
    have h := hb l hl
    cases g <;> simp_all [Grain.isBound]
  exact (hs l (Range.mem_leaves_of_written hl)).isDecimal hkind

/-- The text between the parentheses is that of the bounds, with white space only round the dots. -/
theorem Range.toList_inner (hs : ∀ l ∈ (r.node g).leaves, l.Spelled)
    (hb : ∀ l ∈ r.bounds.written, g.isBound l.kind = true) :
    ∃ u v, Blank u ∧ Blank v ∧ r.inner g = .ofList (r.bounds.spread u v) := by
  have hdecimal := Range.bounds_decimal hs hb
  simp only [Range.node, Node.leaves_branch, Node.leavesOf_cons, Node.leavesOf_append,
    Node.leavesOf_nil, List.mem_append] at hs
  obtain ⟨a, b, ha, hb', hleft⟩ := Padding.chars (fun l hl => hs l (.inl hl))
  obtain ⟨w, u, v, x, hw, hu, hv, hx, hbounds⟩ :=
    Bounds.chars (fun l hl => hs l (.inr (.inl hl)))
  obtain ⟨c, d, hc, hd, hright⟩ := Padding.chars (fun l hl => hs l (.inr (.inr (.inl hl))))
  refine ⟨u, v, hu, hv, ?_⟩
  have htext : (r.node g).text.toList =
      a ++ ('(' :: ((b ++ w) ++ (r.bounds.spread u v ++ (x ++ c)) ++ [')']) ++ d) := by
    simp [Node.toList_text, Range.node, hleft, hbounds, hright, Sign.kind, Kind.spelling?]
  have houter : trim (r.node g).text.toList =
      '(' :: ((b ++ w) ++ (r.bounds.spread u v ++ (x ++ c)) ++ [')']) := by
    rw [htext]
    exact trim_append ha (Trimmed.of_ends rfl rfl) hd
  rw [Range.inner, houter, List.drop_one, List.tail_cons, List.dropLast_concat,
    trim_append (hb'.append hw) (Bounds.spread_trimmed hdecimal) (hx.append hc)]

/-- Reading a range from its text gives what its tokens say. -/
theorem Bounds.read_inner (hs : ∀ l ∈ (r.node g).leaves, l.Spelled)
    (hb : ∀ l ∈ r.bounds.written, g.isBound l.kind = true) :
    Bounds.read g (r.inner g) = r.bounds.values g := by
  obtain ⟨u, v, hu, hv, hinner⟩ := Range.toList_inner hs hb
  rw [hinner]
  exact Bounds.read_spread hu hv (Range.bounds_decimal hs hb)

end Ranges

end MapFilter
