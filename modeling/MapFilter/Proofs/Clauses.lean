import MapFilter.Proofs.Composition
import MapFilter.Proofs.Spacing

/-!
# Queries are made of templates

The condition of a single filter is one of a few fixed texts with the numbers of placeholders in it,
and a query puts such conditions together with words and parentheses. There is one exception: the
condition of a filter on the perimeter is the text of its range. So a query is of that form exactly
if no such filter is in it; the two dots of a range give it away.
-/

namespace MapFilter

namespace Sql

/-- The conditions of single filters: texts with a placeholder between each two of them. -/
def templates : List (List String) :=
  [["tags @> ", ""], ["NOT tags @> ", ""], ["tags ? ", ""], ["NOT tags ? ", ""],
    ["(tags -> ", ") = ANY(", ")"], ["tags ->> ", " LIKE ", ""],
    ["osm_type = ", ""], ["osm_id = ", ""], ["osm_id = ANY(", ")"],
    ["(osm_type = ", " AND osm_id = ", ")"], ["(osm_id = ", " AND osm_type = ", ")"],
    ["changeset_id = ", ""], ["changeset_id = ANY(", ")"],
    ["(status_geom_type).geom_type = 'Point'"],
    ["(status_geom_type).geom_type = 'LineString'"],
    ["((status_geom_type).geom_type = 'Polygon' OR (status_geom_type).geom_type = 'MultiPolygon')"],
    ["(status_geom_type).geom_type = 'GeometryCollection'"]] ++
  ["osm_id", "area", "length", "changeset_id"].flatMap fun c =>
    [["(" ++ c ++ " >= ", " AND " ++ c ++ " <= ", ")"], [c ++ " >= ", ""], [c ++ " <= ", ""]]

/-- A template is filled in with a decimal number for each placeholder. -/
inductive Fills : List String → String → Prop where
  | last (t : String) : Fills [t] t
  | next {ts : List String} {u : String} (t : String) (n : Nat) : Fills ts u →
      Fills (t :: ts) (t ++ "$" ++ toString n ++ u)

/-- The texts that are made of templates. -/
inductive Clause : String → Prop where
  | everything : Clause "1=1"
  | leaf {ts : List String} {t : String} : ts ∈ templates → Fills ts t → Clause t
  | neg {t : String} : Clause t → Clause ("NOT " ++ t)
  | conj {t u : String} : Clause t → Clause u → Clause (t ++ " AND " ++ u)
  | disj {t u : String} : Clause t → Clause u → Clause (t ++ " OR " ++ u)
  | parens {t : String} : Clause t → Clause ("(" ++ t ++ ")")

lemma Fills.prepend {ts : List String} {u : String} (h : Fills ts u) (s : String) :
    Fills (ts.modifyHead (s ++ ·)) (s ++ u) := by
  cases h with
  | last t => exact .last _
  | next t n h =>
    have hnext := Fills.next (s ++ t) n h
    simpa [String.append_assoc] using hnext

end Sql

open Sql

/-! ## Drafts as templates -/

/-- The texts before, between and after the arguments of a draft. -/
def Draft.template : Draft → List String
  | [] => [""]
  | .text s :: d => (template d).modifyHead (s ++ ·)
  | .arg _ :: d => "" :: template d

/-- Every draft is a template that is filled in. -/
lemma Draft.fills (d : Draft) (n : Nat) : Fills d.template (d.number n) := by
  induction d generalizing n with
  | nil => exact .last ""
  | cons x d ih =>
    cases x with
    | text s => exact (ih n).prepend s
    | arg a =>
      have hnumber : number n (.arg a :: d) = "" ++ "$" ++ toString (n + 1) ++ number (n + 1 : Nat) d :=
        rfl
      rw [hnumber]
      exact .next "" (n + 1) (ih (n + 1))

lemma Draft.clause {d : Draft} (ts : List String) (h : d.template = ts) (hts : ts ∈ templates)
    (n : Nat) : Clause (d.number n) :=
  .leaf hts (h ▸ d.fills n)

lemma ObjectCondition.clause {d : Draft} (h : ObjectCondition d) (n : Nat) : Clause (d.number n) := by
  obtain ⟨a, b, rfl⟩ := h
  exact Draft.clause ["(osm_id = ", " AND osm_type = ", ")"] (by simp [Draft.template])
    (by decide +kernel) n

lemma clause_objects {first : Draft} {more : List Draft}
    (h : ∀ d ∈ first :: more, ObjectCondition d) (n : Nat) :
    Clause (Draft.number n ([Segment.text " OR "].intercalate (first :: more))) := by
  induction more generalizing first n with
  | nil => simpa using (h first (by simp)).clause n
  | cons second more ih =>
    have hfirst := (h first (by simp)).clause n
    have hrest := ih (fun d hd => h d (List.mem_cons_of_mem _ hd)) (n + first.args.length)
    have hnumber : Draft.number n ([Segment.text " OR "].intercalate (first :: second :: more)) =
        first.number n ++ " OR " ++ Draft.number ((n + first.args.length : Nat) : Int)
          ([Segment.text " OR "].intercalate (second :: more)) := by
      rw [List.intercalate_cons_cons, List.append_assoc, Draft.number_append]
      simp [String.append_assoc]
    rw [hnumber]
    exact .disj hfirst hrest

/-- Only conditions on the type of a geometry and on a perimeter have no argument. -/
lemma Filter.args_ne_nil {f : Filter} {d : Draft} (h : f.draft = .ok (some d))
    (hgeometry : f.form ≠ .geometry) (hperimeter : f.form ≠ .range .perimeter) : d.args ≠ [] := by
  cases f with
  | tag | tagAny | tagIn | tagLike | type =>
    cases h
    simp
  | geometry => exact absurd rfl hgeometry
  | object op o =>
    obtain ⟨n, -, hn⟩ := bind_eq_ok_iff.1 h
    cases hn
    simp
  | objects op os =>
    obtain ⟨ds, hds, h⟩ := bind_eq_ok_iff.1 h
    obtain ⟨hlen, hshape⟩ := mapM_objectDraft_eq_ok hds
    obtain ⟨first, more, rfl⟩ := List.exists_cons_of_ne_nil (List.ne_nil_of_length_eq_add_one hlen)
    obtain ⟨a, b, rfl⟩ := hshape first (by simp)
    cases h
    split <;> simp [Draft.args_intercalate]
  | number q op digits =>
    cases q with
    | id | changeset =>
      obtain ⟨n, -, hn⟩ := bind_eq_ok_iff.1 h
      cases hn
      simp
    | outers | inners => cases h
  | numbers q op ns =>
    obtain ⟨ks, -, hks⟩ := bind_eq_ok_iff.1 h
    cases hks
    simp
  | range q op r =>
    have hrange : ∀ {column : String} {g : Grain} {ordered : Bool},
        rangeDraft column g ordered r.bounds = .ok (some d) → d.args ≠ [] := by
      intro column g ordered h
      obtain ⟨⟨lower, upper⟩, -, h⟩ := bind_eq_ok_iff.1 h
      simp only at h
      split at h
      · split at h <;> cases h
        simp
      all_goals cases h
      all_goals simp
    cases q with
    | id | area | length | changeset => exact hrange h
    | perimeter => exact absurd rfl hperimeter
    | vertices | outers | inners => cases h

lemma Condition.clause {d : Draft} (h : Condition d) (hargs : d.args ≠ []) (n : Nat) :
    Clause (d.number n) := by
  cases h with
  | @single p hp a =>
    have hall : ∀ p ∈ comparisons, [p, ""] ∈ templates := by decide +kernel
    exact Draft.clause [p, ""] (by simp [Draft.template]) (hall p hp) n
  | @member p hp a =>
    have hall : ∀ p ∈ ["osm_id = ANY(", "changeset_id = ANY("], [p, ")"] ∈ templates := by
      decide +kernel
    exact Draft.clause [p, ")"] (by simp [Draft.template]) (hall p hp) n
  | like a b =>
    exact Draft.clause ["tags ->> ", " LIKE ", ""] (by simp [Draft.template]) (by decide +kernel) n
  | @pair p q hpq a b =>
    have hall : ∀ x ∈ pairs, [x.1, x.2, ")"] ∈ templates := by decide +kernel
    exact Draft.clause [p, q, ")"] (by simp [Draft.template]) (hall _ hpq) n
  | @objects first more hds =>
    have hparens := Clause.parens (clause_objects hds n)
    simpa [Draft.number_append, String.append_assoc] using hparens
  | geometry hc => exact absurd rfl hargs
  | perimeter hu hv hb => exact absurd rfl hargs

/-- Of single filters, only those on the perimeter have a condition that is no template. -/
lemma Filter.clause {f : Filter} (hs : f.Spelled) (hp : f.Proper) {d : Draft}
    (h : f.draft = .ok (some d)) (hform : f.form ≠ .range .perimeter) (n : Nat) :
    Clause (d.number n) := by
  by_cases hgeometry : f.form = .geometry
  · cases f with
    | geometry op t =>
      have ht : Lexeme.Spelled ⟨.geometryType, t⟩ := by
        apply hs
        simp [Filter.node, Filter.nodes]
      have hclause : ∀ c, [c] ∈ templates → Clause (Draft.number n [.text c]) := fun c hc =>
        Draft.clause [c] (by simp [Draft.template]) hc n
      rcases ht.geometryType with rfl | rfl | rfl | rfl <;> cases h <;>
        exact hclause _ (by decide +kernel)
    | _ => cases hgeometry
  · exact (f.condition hs hp h).clause (Filter.args_ne_nil h hgeometry hform) n

namespace Expr

variable {e : Expr} {d : Draft}

/-- Words and parentheses keep a query made of templates. -/
lemma clause (hg : e.Genuine) (hform : ∀ f ∈ e.filters, f.form ≠ .range .perimeter)
    (hd : e.draft? = some d) (n : Nat) : Clause (d.number n) := by
  induction e generalizing d n with
  | filter f =>
    have hf := hg f (by simp [filters])
    exact f.clause hf.1 hf.2 (draft?_filter_eq_some.1 hd) (hform f (by simp [filters])) n
  | group l e r ih =>
    obtain ⟨d', hd', rfl⟩ := draft?_group_eq_some.1 hd
    have hparens := Clause.parens (ih hg hform hd' n)
    simpa [Draft.number_append, String.append_assoc] using hparens
  | neg op e ih =>
    obtain ⟨d', hd', rfl⟩ := draft?_neg_eq_some.1 hd
    exact .neg (ih hg hform hd' n)
  | join j l op r ihl ihr =>
    have hgs := genuine_join.1 hg
    rw [forall_filters_join] at hform
    obtain ⟨dl, dr, hdl, hdr, rfl⟩ := draft?_join_eq_some.1 hd
    have hl := ihl hgs.1 hform.1 hdl n
    have hr := ihr hgs.2 hform.2 hdr (n + dl.args.length)
    have hnumber : Draft.number n (dl ++ .text (" " ++ Compiler.word j ++ " ") :: dr) =
        dl.number n ++ (" " ++ Compiler.word j ++ " ") ++
          dr.number ((n + dl.args.length : Nat) : Int) := by
      rw [Draft.number_append]
      simp [String.append_assoc]
    rw [hnumber]
    cases j with
    | conj => exact .conj hl hr
    | disj => exact .disj hl hr

end Expr

/-! ## Dots -/

/-- No two dots stand side by side, and none is the first character. -/
def Undotted (cs : List Char) : Prop :=
  cs.head? ≠ some '.' ∧ cs.IsChain fun a b => ¬(a = '.' ∧ b = '.')

instance (cs : List Char) : Decidable (Undotted cs) := inferInstanceAs (Decidable (_ ∧ _))

lemma undotted_of_not_mem {cs : List Char} (h : '.' ∉ cs) : Undotted cs := by
  refine ⟨fun hhead => h (List.mem_of_mem_head? hhead), ?_⟩
  induction cs with
  | nil => exact .nil
  | cons c cs ih =>
    rw [List.mem_cons, not_or] at h
    refine List.isChain_cons.2 ⟨?_, ih h.2⟩
    rintro b - ⟨rfl, -⟩
    exact h.1 rfl

lemma Undotted.append {u v : List Char} (hu : Undotted u) (hv : Undotted v) : Undotted (u ++ v) := by
  constructor
  · cases u with
    | nil => exact hv.1
    | cons c u => exact hu.1
  · refine List.isChain_append.2 ⟨hu.2, hv.2, ?_⟩
    rintro a - b hb ⟨-, rfl⟩
    exact hv.1 hb

lemma Undotted.no_dots {cs : List Char} (h : Undotted cs) : ¬['.', '.'] <:+: cs := by
  rintro ⟨u, v, rfl⟩
  have hpair := h.2.left_of_append.right_of_append
  simp at hpair

namespace Sql

lemma Fills.undotted {ts : List String} {t : String} (h : Fills ts t)
    (hts : ∀ u ∈ ts, Undotted u.toList) : Undotted t.toList := by
  induction h with
  | last t => exact hts t (by simp)
  | @next ts u t n _ ih =>
    have ht := hts t (by simp)
    have hn : Undotted (toString n).toList := by
      apply undotted_of_not_mem
      change '.' ∉ n.repr.toList
      rw [Nat.toList_repr]
      intro hdot
      exact absurd (Nat.isDigit_of_mem_toDigits (by omega) (by omega) hdot) (by decide)
    have hu := ih fun v hv => hts v (List.mem_cons_of_mem _ hv)
    simp only [String.toList_append]
    exact ((ht.append (by decide)).append hn).append hu

/-- No text that is made of templates has two dots side by side. -/
lemma Clause.undotted {t : String} (h : Clause t) : Undotted t.toList := by
  induction h with
  | everything => decide
  | leaf hts hfills =>
    have hall : ∀ ts ∈ templates, ∀ u ∈ ts, Undotted u.toList := by decide +kernel
    exact hfills.undotted (hall _ hts)
  | neg _ ih =>
    rw [String.toList_append]
    exact Undotted.append (by decide) ih
  | conj _ _ iht ihu | disj _ _ iht ihu =>
    simp only [String.toList_append]
    exact (iht.append (by decide)).append ihu
  | parens _ ih =>
    simp only [String.toList_append]
    exact (Undotted.append (by decide) ih).append (by decide)

end Sql

lemma Bounds.contains_dots (u v : List Char) (b : Bounds) : ['.', '.'] <:+: b.spread u v := by
  cases b with
  | both l d k => exact ⟨l.text.toList ++ u, v ++ k.text.toList, by simp [spread]⟩
  | upTo d k => exact ⟨[], v ++ k.text.toList, rfl⟩
  | startingAt l d => exact ⟨l.text.toList ++ u, [], by simp [spread]⟩

lemma Filter.contains_dots {f : Filter} (hs : f.Spelled) (hp : f.Proper) {d : Draft}
    (h : f.draft = .ok (some d)) (hform : f.form = .range .perimeter) (n : Int) :
    ['.', '.'] <:+: (d.number n).toList := by
  cases f with
  | range q op r =>
    cases hform
    have hleaves : ∀ l ∈ (r.node .decimal).leaves, l.Spelled := by
      intro l hl
      apply hs
      simp [Filter.node, Filter.nodes, Ranged.grain, hl]
    obtain ⟨u, v, -, -, hinner⟩ := Range.toList_inner hleaves hp
    cases h
    simp [hinner, Bounds.contains_dots]
  | _ => cases hform

/-- A filter on the perimeter leaves its dots in the query. -/
lemma Expr.contains_dots {e : Expr} {d : Draft} (hg : e.Genuine) (hd : e.draft? = some d) {f : Filter}
    (hf : f ∈ e.filters) (hform : f.form = .range .perimeter) (n : Int) :
    ['.', '.'] <:+: (d.number n).toList := by
  induction e generalizing d n with
  | filter g =>
    obtain rfl : f = g := by simpa [filters] using hf
    exact f.contains_dots (hg f hf).1 (hg f hf).2 (draft?_filter_eq_some.1 hd) hform n
  | group l e r ih =>
    obtain ⟨d', hd', rfl⟩ := draft?_group_eq_some.1 hd
    have hdots := ih hg hd' hf n
    simp only [List.cons_append, Draft.number_text, Draft.number_append, String.toList_append]
    exact List.infix_append_of_infix_right (List.infix_append_of_infix_left hdots)
  | neg op e ih =>
    obtain ⟨d', hd', rfl⟩ := draft?_neg_eq_some.1 hd
    have hdots := ih hg hd' hf n
    rw [Draft.number_text, String.toList_append]
    exact List.infix_append_of_infix_right hdots
  | join j l op r ihl ihr =>
    have hgs := genuine_join.1 hg
    obtain ⟨dl, dr, hdl, hdr, rfl⟩ := draft?_join_eq_some.1 hd
    simp only [Draft.number_append, Draft.number_text, String.toList_append]
    rcases List.mem_append.1 hf with hf | hf
    · exact List.infix_append_of_infix_left (ihl hgs.1 hdl hf n)
    · have hdots := ihr hgs.2 hdr hf (n + dl.args.length)
      exact List.infix_append_of_infix_right (List.infix_append_of_infix_right hdots)

/-! ## Whole texts -/

/-- A query is made of templates exactly if there is no filter on the perimeter in its text. -/
theorem clause_query_iff {text : String} {shift : Nat} {q : Query} (hq : query text shift = .ok q)
    (hne : q.text ≠ "") :
    Clause q.text ↔
      ∀ tree, parse text = .ok tree → ∀ f ∈ tree.filters, f.form ≠ .range .perimeter := by
  by_cases hstar : text = "*"
  · have hparse := parse_eq_everything_iff.2 hstar
    rw [query, if_pos hstar] at hq
    cases hq
    refine ⟨?_, fun _ => .everything⟩
    intro _ tree htree f hf
    rw [hparse] at htree
    cases htree
    simp [Tree.filters] at hf
  · obtain ⟨e, d, hparse, hd, -, rfl⟩ := exists_draft_of_query hstar hq hne
    have hg := (parse_wellFormed hparse).genuine
    constructor
    · intro hclause tree htree f hf hform
      rw [hparse] at htree
      cases htree
      exact hclause.undotted.no_dots (Expr.contains_dots hg hd hf hform shift)
    · intro hform
      exact Expr.clause hg (hform (.expr e) hparse) hd shift

theorem clause_query_iff_range :
    ∃ q, query "id:(1..5) and not highway=*" 2 = .ok q ∧ Clause q.text := by
  have hq : query "id:(1..5) and not highway=*" (2 : Nat) =
      .ok ⟨"(osm_id >= $3 AND osm_id <= $4) AND NOT tags ? $5",
        [.number (.whole 1), .number (.whole 5), .text "highway"]⟩ := by decide +kernel
  refine ⟨_, hq, (clause_query_iff hq (by decide)).2 ?_⟩
  have hforms : (parse "id:(1..5) and not highway=*").map (·.filters.map Filter.form) =
      .ok [.range .id, .tagAny .equal] := by decide +kernel
  intro tree htree f hf hform
  rw [htree] at hforms
  have hlist : tree.filters.map Filter.form = [.range .id, .tagAny .equal] := Except.ok.inj hforms
  have hmem : f.form ∈ tree.filters.map Filter.form := List.mem_map_of_mem hf
  rw [hlist, hform] at hmem
  revert hmem
  decide

/-- The bounds of a perimeter are written into the query. -/
theorem not_clause_perimeter :
    query "perimeter:(1..5)" 0 = .ok ⟨"1..5", []⟩ ∧ ¬Clause "1..5" := by
  constructor
  · decide +kernel
  · intro hclause
    exact absurd hclause.undotted (by decide)

end MapFilter
