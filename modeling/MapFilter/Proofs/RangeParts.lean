import MapFilter.Proofs.Advice

/-!
# The two parts of a range's text

Of a range only the text is handed on, not its nodes. Taken apart at the dots it has two parts, and
these give back the tokens that the range is bounded by: a part is empty where there is no token,
and otherwise it is the token with white space round it. So a range that has been parsed is never
found to have more or fewer than two parts. A part can be read as a number unless it is a whole
number with too many digits.
-/

namespace MapFilter

open Compiler

/-! ## Bounds among nodes -/

namespace Node

/-- The token that a node is. -/
def token? : Node → Option Lexeme
  | .leaf l => some l
  | .branch _ _ => none

/-- The token before the dots among the nodes of a range. -/
def lowerBound? (ns : List Node) : Option Lexeme :=
  (ns.takeWhile (·.symbol != .rule (.sign .dots))).findSome? token?

/-- The token after the dots among the nodes of a range. -/
def upperBound? (ns : List Node) : Option Lexeme :=
  (ns.dropWhile (·.symbol != .rule (.sign .dots))).findSome? token?

end Node

lemma Range.lowerBound?_nodes (r : Range) :
    Node.lowerBound? (r.left.node .lparen :: (r.bounds.nodes ++ [r.right.node .rparen])) =
      r.bounds.lowerToken? := by
  cases r.bounds <;> rfl

lemma Range.upperBound?_nodes (r : Range) :
    Node.upperBound? (r.left.node .lparen :: (r.bounds.nodes ++ [r.right.node .rparen])) =
      r.bounds.upperToken? := by
  cases r.bounds <;> rfl

/-! ## Parts -/

/-- What a part of a range's text has to do with the token that bounds the range on that side. -/
structure Grain.Recovers (g : Grain) (bound : Option Lexeme) (part : List Char) : Prop where
  eq_nil_iff : part = [] ↔ bound = none
  trim_eq : ∀ l ∈ bound, trim part = l.text.toList
  spells : ∀ l ∈ bound, g.Spells (trim part)
  read_eq : (∀ l ∈ bound, ¬g.TooLong l) → Bounds.readBound g part = .ok (bound.map g.number)
  refused : ∀ l ∈ bound, g.TooLong l →
    Bounds.readBound g part = .error (.tooManyDigits l.text.toList.length)

namespace Grain.Recovers

variable {g : Grain} {l : Lexeme} {u v : List Char}

lemma left_out (g : Grain) : g.Recovers none [] where
  eq_nil_iff := by simp
  trim_eq := by simp
  spells := by simp
  read_eq _ := rfl
  refused := by simp

lemma written (hu : Blank u) (hl : g.Spells l.text.toList) (hv : Blank v) :
    g.Recovers (some l) (u ++ (l.text.toList ++ v)) := by
  have htrimmed := hl.isDecimal.trimmed
  have htrim := trim_append hu htrimmed hv
  have hread := Bounds.readBound_append (g := g) hu htrimmed hv
  constructor
  · simp [htrimmed.ne_nil]
  · rintro _ ⟨⟩
    exact htrim
  · rintro _ ⟨⟩
    rwa [htrim]
  · intro hlength
    rw [hread, Bounds.readNumber_eq (not_tooLong_iff.1 (hlength l rfl))]
    rfl
  · rintro _ ⟨⟩ hlong
    rw [hread, Bounds.readNumber_of_tooLong hlong]
    rfl

end Grain.Recovers

/-- The text of a range is cut at its dots into what its bounds are recovered from. -/
lemma Range.exists_parts {g : Grain} {r : Range} (hs : ∀ l ∈ (r.node g).leaves, l.Spelled)
    (hb : ∀ l ∈ r.bounds.written, g.isBound l.kind = true) :
    ∃ lower upper, Bounds.splitDots (r.inner g).toList = [lower, upper] ∧
      g.Recovers r.bounds.lowerToken? lower ∧ g.Recovers r.bounds.upperToken? upper := by
  obtain ⟨u, v, hu, hv, hinner⟩ := Range.toList_inner hs hb
  have hspells : ∀ l ∈ r.bounds.written, g.Spells l.text.toList := fun l hl =>
    (hs l (Range.mem_leaves_of_written hl)).spells (hb l hl)
  have hlower : ∀ l ∈ r.bounds.written, g.Recovers (some l) (l.text.toList ++ u) := fun l hl =>
    .written (u := []) blank_nil (hspells l hl) hu
  have hupper : ∀ l ∈ r.bounds.written, g.Recovers (some l) (v ++ l.text.toList) := fun l hl => by
    simpa using Grain.Recovers.written (v := []) hv (hspells l hl) blank_nil
  -- trimming has left white space only between a bound and the dots
  rw [hinner, String.toList_ofList, Bounds.splitDots_spread hu hv (Range.bounds_decimal hs hb)]
  refine ⟨_, _, rfl, ?_, ?_⟩
  · cases hbounds : r.bounds with
    | both l d k | startingAt l d => exact hlower l (by simp [hbounds, Bounds.written])
    | upTo d k => exact .left_out g
  · cases hbounds : r.bounds with
    | both l d k | upTo d k => exact hupper k (by simp [hbounds, Bounds.written])
    | startingAt l d => exact .left_out g

/-! ## Ranges in trees -/

namespace Node

/-- If the rule is that of a range, its text is cut at the dots into two parts, and its bounds are
recovered from them. -/
def CutIntoBounds : Rule → List Node → Prop
  | .range g, ns => ∃ (r : Range) (lower upper : List Char), r.node g = .branch (.range g) ns ∧
      Bounds.splitDots (r.inner g).toList = [lower, upper] ∧
      g.Recovers (lowerBound? ns) lower ∧ g.Recovers (upperBound? ns) upper
  | _, _ => True

lemma cutIntoBounds_range {g : Grain} {ns : List Node} (h : (branch (.range g) ns).IsDerivation)
    (hs : ∀ l ∈ (branch (.range g) ns).leaves, l.Spelled) : CutIntoBounds (.range g) ns := by
  -- a range does not keep the spelling of symbols, but here they are spelt as it would spell them
  obtain ⟨r, hb, hr⟩ := h.exists_range rfl
  rw [h.respell_eq fun l hl => (hs l hl).respell] at hr
  obtain ⟨lower, upper, hsplit, hlower, hupper⟩ := Range.exists_parts (hr ▸ hs) hb
  obtain ⟨-, rfl⟩ := Node.branch.inj hr
  rw [← r.lowerBound?_nodes] at hlower
  rw [← r.upperBound?_nodes] at hupper
  exact ⟨r, lower, upper, rfl, hsplit, hlower, hupper⟩

lemma IsDerivation.cutIntoBounds {n : Node} (h : n.IsDerivation)
    (hs : ∀ l ∈ n.leaves, l.Spelled) : n.Everywhere CutIntoBounds := by
  induction h with
  | leaf l => exact .leaf l
  | @branch rule ns hp hns ih =>
    refine .branch ?_ fun m hm => ih m hm fun l hl => ?_
    · cases rule with
      | range g => exact cutIntoBounds_range (.branch hp hns) hs
      | _ => trivial
    · refine hs l ?_
      rw [leaves_branch, leavesOf_eq_flatMap]
      exact List.mem_flatMap.2 ⟨m, hm, hl⟩

end Node

/-- What holds everywhere in an expression holds everywhere in its filters. -/
lemma Expr.everywhere_filter {P : Rule → List Node → Prop} {e : Expr} (h : e.node.Everywhere P)
    {f : Filter} (hf : f ∈ e.filters) : f.node.Everywhere P := by
  induction e with
  | filter f' =>
    obtain rfl := List.mem_singleton.1 hf
    exact (Node.everywhere_branch.1 h).2 _ (by simp)
  | group _ e _ ih => exact ih ((Node.everywhere_branch.1 h).2 _ (by simp)) hf
  | neg _ e ih => exact ih ((Node.everywhere_branch.1 h).2 _ (by simp)) hf
  | join j l _ r ihl ihr =>
    rcases List.mem_append.1 hf with hf | hf
    · exact ihl ((Node.everywhere_branch.1 h).2 _ (by simp)) hf
    · exact ihr ((Node.everywhere_branch.1 h).2 _ (by simp)) hf

lemma parse_cutIntoBounds {text : String} {tree : Tree} (h : parse text = .ok tree) :
    tree.node.Everywhere Node.CutIntoBounds := by
  cases tree with
  | everything => simp [Tree.node, Kind.node, Node.ending, Node.CutIntoBounds]
  | expr e =>
    have hderivation := Expr.isDerivation_node (parse_grammatical h)
    have hcut := hderivation.cutIntoBounds (parse_wellFormed h).spelled
    simpa [Tree.node, Node.ending, Node.CutIntoBounds] using hcut

/-! ## Failures of ranges -/

/-- Why compiling a range can fail. That its text has not two parts is no reason. -/
inductive Ranged.Refuses (q : Ranged) (b : Bounds) : Failure → Prop where
  | unsupported : q.column? = none → Refuses q b .unsupported
  | swapped {l u : Number} : l ∈ b.lower? q.grain → u ∈ b.upper? q.grain → u.value < l.value →
      Refuses q b (.swappedBounds l u)
  | tooLong {l : Lexeme} : l ∈ b.written → q.grain.TooLong l →
      Refuses q b (.tooManyDigits l.text.toList.length)

lemma Ranged.refuses_of_draft {q : Ranged} {op : Padding} {r : Range} {failure : Failure}
    (h : (Filter.range q op r).draft = .error failure) : q.Refuses r.bounds failure := by
  cases hc : q.column? with
  | none => cases q <;> cases hc <;> cases h <;> exact .unsupported rfl
  | some c =>
    rw [Filter.draft_range op r hc] at h
    obtain ⟨l, hl, hlong, rfl⟩ | ⟨-, -, l, hl, u, hu, hlt, rfl⟩ := rangeDraft_error_cases h
    · exact .tooLong hl hlong
    · obtain ⟨hlower, -⟩ := mem_counted.1 hl
      obtain ⟨hupper, -⟩ := mem_counted.1 hu
      exact .swapped hlower hupper ((Bounds.lt_iff hlower hupper).1 hlt)

lemma Ranged.refuses_of_exec {q : Ranged} {op : Padding} {r : Range}
    (hs : (Filter.range q op r).Spelled) (hp : (Filter.range q op r).Proper) {s s' : State}
    {failure : Failure}
    (h : exec (perform (Expr.filter (.range q op r)).steps) s = (.error failure, s')) :
    q.Refuses r.bounds failure ∨ failure = .longPlaceholder ∧
      ¬AllWritable s.last (Filter.range q op r).args.length := by
  rcases Filter.ends hs hp s with ⟨o, -, -, hr⟩ | ⟨e, added, hd, -, -, hr⟩ | ⟨added, hlong, -, hr⟩
  · rw [hr] at h
    cases h
  · rw [hr] at h
    cases h
    exact .inl (Ranged.refuses_of_draft hd)
  · rw [hr] at h
    cases h
    exact .inr ⟨rfl, hlong⟩

/-! ## Bounds that cannot be read -/

/-- A range up to a number, with as many digits as one likes. -/
lemma exists_parse_upTo {ds : List Char} (h : IsDigits ds) :
    ∃ r : Range, r.bounds = .upTo ⟨none, none⟩ ⟨.number, .ofList ds⟩ ∧
      parse ("id:(.." ++ .ofList ds ++ ")") =
        .ok (.expr (.filter (.range .id ⟨none, none⟩ r))) := by
  obtain ⟨k, hk, hbound⟩ := Lexer.Lexes.nil.bound (g := .whole) h (.inl rfl)
  obtain rfl : k = .number := beq_iff_eq.1 hk
  rw [List.append_nil] at hbound
  have hcolon := (hbound.dots.enclosed .nil).fixed ":" (n := 0) rfl rfl
  have hlexes := hcolon.fixed "id" (n := 1) rfl rfl
  refine ⟨⟨⟨none, none⟩, .upTo ⟨none, none⟩ ⟨.number, .ofList ds⟩, ⟨none, none⟩⟩, rfl,
    parse_filter_of_lexes ⟨?_, by simp [Filter.texts]⟩ ⟨rfl, rfl⟩ ?_⟩
  · simp [Filter.Proper, Bounds.written, Ranged.grain, Grain.isBound]
  · simpa [Filter.node, Filter.nodes, Range.node, Bounds.nodes, Padding.node, Kind.node, spaceNodes,
      Ranged.kind, Sign.kind, Kind.spelling?] using hlexes

/-- A range with a bound that has too many digits is refused for such a bound. -/
lemma exists_query_tooLong {text : String} {q : Ranged} {op : Padding} {r : Range}
    (hparse : parse text = .ok (.expr (.filter (.range q op r)))) {c : Sql.Column}
    (hc : q.column? = some c) {l : Lexeme} (hl : l ∈ r.bounds.written) (hlong : q.grain.TooLong l)
    (k : Int) : ∃ l' ∈ r.bounds.written,
      query text k = .error (.failure (.tooManyDigits l'.text.toList.length)) := by
  rcases r.bounds.readable_or q.grain with hr | ⟨l', hl', -, hvalues⟩
  · exact absurd hlong (Grain.not_tooLong_iff.2 fun hg => hr hg l hl)
  · refine ⟨l', hl', (query_eq_error_iff hparse k _).2 ⟨_, ?_, rfl⟩⟩
    have hdraft : (Filter.range q op r).draft = .error (.tooManyDigits l'.text.toList.length) := by
      rw [Filter.draft_range op r hc, rangeDraft, hvalues]
      rfl
    rw [Expr.height, Filter.draftAfter_of_draft_error hdraft rfl]
    rfl

/-! ## Recovering bounds -/

/-- The text of every range in a parsed tree is cut at the dots into two parts, from which the
tokens of its bounds are recovered: a part is empty where a bound is left out, and otherwise it is
the token with white space round it. It is read as the number that the token stands for, unless that
has too many digits. So compiling a range fails for other reasons only, whatever the state: it is
refused, or the number of a placeholder cannot be written. -/
theorem range_parts_recover_bounds {text : String} {tree : Tree} (hparse : parse text = .ok tree) :
    tree.node.Everywhere Node.CutIntoBounds ∧
      ∀ e, tree = .expr e → ∀ q op r, .range q op r ∈ e.filters → ∀ s failure s',
        exec (perform (Expr.filter (.range q op r)).steps) s = (.error failure, s') →
          q.Refuses r.bounds failure ∨ failure = .longPlaceholder ∧
            ¬AllWritable s.last (Filter.range q op r).args.length := by
  refine ⟨parse_cutIntoBounds hparse, ?_⟩
  rintro e rfl q op r hf s failure s' hexec
  obtain ⟨hs, hp⟩ := (parse_wellFormed hparse).genuine _ hf
  exact Ranged.refuses_of_exec hs hp hexec

/-- Decimal bounds right beside the dots and apart from them, and white space of both kinds. -/
theorem range_parts_recover_bounds_spaced :
    ∃ e r, parse "not type:way or area :( 1.0\t..1E6 ) " = .ok (.expr e) ∧
      .range .area ⟨some " ", none⟩ r ∈ e.filters ∧
      Bounds.splitDots (r.inner .decimal).toList = [['1', '.', '0', '\t'], ['1', 'E', '6']] ∧
      Grain.decimal.Recovers (some ⟨.decimal, "1.0"⟩) ['1', '.', '0', '\t'] ∧
      Grain.decimal.Recovers (some ⟨.decimal, "1E6"⟩) ['1', 'E', '6'] ∧
      ∀ s n s', exec (perform (Expr.filter (.range .area ⟨some " ", none⟩ r)).steps) s ≠
        (.error (.brokenPair n), s') := by
  let r : Range := ⟨⟨none, some " "⟩,
    .both ⟨.decimal, "1.0"⟩ ⟨some "\t", none⟩ ⟨.decimal, "1E6"⟩, ⟨some " ", some " "⟩⟩
  let e : Expr := .join .disj (.neg ⟨none, some " "⟩ (.filter (.type ⟨none, none⟩ "way")))
    ⟨some " ", some " "⟩ (.filter (.range .area ⟨some " ", none⟩ r))
  have hparse : parse "not type:way or area :( 1.0\t..1E6 ) " = .ok (.expr e) := by decide +kernel
  have hf : .range .area ⟨some " ", none⟩ r ∈ e.filters := by decide +kernel
  have hsplit : Bounds.splitDots (r.inner .decimal).toList =
      [['1', '.', '0', '\t'], ['1', 'E', '6']] := by decide +kernel
  obtain ⟨hcut, hfailure⟩ := range_parts_recover_bounds hparse
  have hexpr : e.node.Everywhere Node.CutIntoBounds := (Node.everywhere_branch.1 hcut).2 _ (by simp)
  have hfilter := Expr.everywhere_filter hexpr hf
  have hnode : (r.node .decimal).Everywhere Node.CutIntoBounds :=
    (Node.everywhere_branch.1 hfilter).2 _ (by simp [Filter.nodes, Ranged.grain])
  obtain ⟨r', lower, upper, hr', hsplit', hlower, hupper⟩ := (Node.everywhere_branch.1 hnode).1
  have hinner : r'.inner .decimal = r.inner .decimal := by
    rw [Range.inner, hr']
    rfl
  rw [hinner, hsplit] at hsplit'
  cases hsplit'
  rw [r.lowerBound?_nodes] at hlower
  rw [r.upperBound?_nodes] at hupper
  refine ⟨e, r, hparse, hf, hsplit, hlower, hupper, fun s n s' hexec => ?_⟩
  rcases hfailure e rfl _ _ _ hf s _ _ hexec with hrefuses | ⟨hlong, -⟩
  · cases hrefuses
  · cases hlong

/-- One digit too many: the part after the dots cannot be read. -/
theorem not_readBound_tooLong :
    ∃ r, parse ("id:(.." ++ .ofList (List.replicate 4301 '1') ++ ")") =
        .ok (.expr (.filter (.range .id ⟨none, none⟩ r))) ∧
      (¬∀ part ∈ Bounds.splitDots (r.inner .whole).toList,
        ∃ n, Bounds.readBound .whole part = .ok n) ∧
      query ("id:(.." ++ .ofList (List.replicate 4301 '1') ++ ")") 0 =
        .error (.failure (.tooManyDigits 4301)) := by
  have hlength : (List.replicate 4301 '1').length = 4301 := List.length_replicate
  have hdigits : IsDigits (List.replicate 4301 '1') := by
    refine ⟨List.ne_nil_of_length_eq_add_one hlength, fun c hc => ?_⟩
    rw [List.eq_of_mem_replicate hc]
    rfl
  -- only the number of digits matters from here on
  generalize List.replicate 4301 '1' = ds at hlength hdigits ⊢
  obtain ⟨r, hr, hparse⟩ := exists_parse_upTo hdigits
  have hlong : Grain.whole.TooLong ⟨.number, .ofList ds⟩ := by
    refine ⟨rfl, ?_⟩
    rw [String.toList_ofList, hlength]
    decide
  obtain ⟨hs, hp⟩ :=
    (parse_wellFormed hparse).genuine (.range .id ⟨none, none⟩ r) (by simp [Expr.filters])
  obtain ⟨lower, upper, hsplit, -, hupper⟩ := Range.exists_parts (g := .whole) (r := r)
    (fun l hl => hs l (by simpa [Filter.node, Filter.nodes] using .inr (.inr hl))) hp
  refine ⟨r, hparse, fun hread => ?_, ?_⟩
  · obtain ⟨n, hn⟩ := hread upper (by simp [hsplit])
    rw [hupper.refused _ (by rw [hr]; rfl) hlong] at hn
    cases hn
  · obtain ⟨l, hl, hquery⟩ := exists_query_tooLong hparse rfl (by rw [hr]; exact .head _) hlong 0
    rw [hr] at hl
    rw [hquery, List.mem_singleton.1 hl, String.toList_ofList, hlength]

end MapFilter
