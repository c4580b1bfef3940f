import MapFilter.Proofs.Realization

/-!
# The shapes of conditions

Apart from numbers in a range, nothing that a user writes gets into the text of a condition. So the
conditions of single filters have only a few shapes, and all that is to be known of their texts is
read off these shapes.
-/

namespace MapFilter

namespace Condition

/-- The columns that are compared with the bounds of a range. -/
def columns : List String := ["osm_id", "area", "length", "changeset_id"]

/-- What is put before a single argument. -/
def comparisons : List String :=
  ["tags @> ", "NOT tags @> ", "tags ? ", "NOT tags ? ", "osm_type = ", "osm_id = ",
    "changeset_id = "] ++ columns.map (· ++ " >= ") ++ columns.map (· ++ " <= ")

/-- What is put before two arguments that belong together. -/
def pairs : List (String × String) :=
  [("(tags -> ", ") = ANY("), ("(osm_type = ", " AND osm_id = "),
    ("(osm_id = ", " AND osm_type = ")] ++
    columns.map fun c => ("(" ++ c ++ " >= ", " AND " ++ c ++ " <= ")

/-- The conditions on the type of a geometry. -/
def geometries : List String :=
  ["point", "line", "polygon", "collection"].filterMap Compiler.geometry?

end Condition

/-- One object in a list of them. -/
def ObjectCondition (d : Draft) : Prop :=
  ∃ a b, d = [.text "(osm_id = ", .arg a, .text " AND osm_type = ", .arg b, .text ")"]

/-- The drafts of single filters. -/
inductive Condition : Draft → Prop where
  | single {p : String} : p ∈ Condition.comparisons → ∀ a, Condition [.text p, .arg a]
  | member {p : String} : p ∈ ["osm_id = ANY(", "changeset_id = ANY("] →
      ∀ a, Condition [.text p, .arg a, .text ")"]
  | like (a b : Argument) : Condition [.text "tags ->> ", .arg a, .text " LIKE ", .arg b]
  | pair {p q : String} : (p, q) ∈ Condition.pairs →
      ∀ a b, Condition [.text p, .arg a, .text q, .arg b, .text ")"]
  | objects {first : Draft} {more : List Draft} : (∀ d ∈ first :: more, ObjectCondition d) →
      Condition (.text "(" :: [Segment.text " OR "].intercalate (first :: more) ++ [.text ")"])
  | geometry {c : String} : c ∈ Condition.geometries → Condition [.text c]
  | perimeter {u v : List Char} {b : Bounds} : Blank u → Blank v →
      (∀ l ∈ b.written, IsDecimal l.text.toList) → Condition [.text (.ofList (b.spread u v))]

lemma rangeDraft_condition {column : String} (hc : column ∈ Condition.columns) {g : Grain}
    {ordered : Bool} {b : Bounds} {d : Draft} (h : rangeDraft column g ordered b = .ok (some d)) :
    Condition d := by
  have hfrom : column ++ " >= " ∈ Condition.comparisons := by
    simp [Condition.comparisons, hc]
  have hupto : column ++ " <= " ∈ Condition.comparisons := by
    simp [Condition.comparisons, hc]
  have hpair : ("(" ++ column ++ " >= ", " AND " ++ column ++ " <= ") ∈ Condition.pairs :=
    List.mem_append_right _ (List.mem_map_of_mem hc)
  obtain ⟨⟨lower, upper⟩, -, h⟩ := bind_eq_ok_iff.1 h
  simp only at h
  revert h
  generalize Option.filter (fun x => !x.isZero) lower = lower
  generalize Option.filter (fun x => !x.isZero) upper = upper
  intro h
  rcases lower with _ | l <;> rcases upper with _ | u
  · cases h
  · cases h
    exact .single hupto _
  · cases h
    exact .single hfrom _
  · simp only at h
    split at h <;> cases h
    exact .pair hpair _ _

lemma mapM_objectDraft_eq_ok {os : List String} {ds : List Draft}
    (h : os.mapM objectDraft = .ok ds) :
    ds.length = os.length ∧ ∀ d ∈ ds, ObjectCondition d := by
  obtain ⟨hlength, hdrafts⟩ := mapM_eq_ok_cases h
  refine ⟨hlength, ?_⟩
  intro d hd
  obtain ⟨o, -, ho⟩ := hdrafts d hd
  obtain ⟨n, -, hn⟩ := bind_eq_ok_iff.1 ho
  cases hn
  exact ⟨_, _, rfl⟩

/-- The draft of a parsed filter has one of the shapes of conditions. -/
theorem Filter.condition {f : Filter} (hs : f.Spelled) (hp : f.Proper) {d : Draft}
    (h : f.draft = .ok (some d)) : Condition d := by
  cases f with
  | tag c key op value =>
    cases h
    exact .single (by cases c <;> decide +kernel) _
  | tagAny c key op =>
    cases h
    exact .single (by cases c <;> decide +kernel) _
  | tagIn key op values =>
    cases h
    exact .pair (by decide +kernel) _ _
  | tagLike key op pattern =>
    cases h
    exact .like _ _
  | type op t =>
    cases h
    exact .single (by decide +kernel) _
  | geometry op t =>
    have ht : Lexeme.Spelled ⟨.geometryType, t⟩ := by
      apply hs
      simp [Filter.node, Filter.nodes]
    rcases ht.geometryType with rfl | rfl | rfl | rfl <;> cases h <;>
      exact .geometry (by decide +kernel)
  | object op o =>
    obtain ⟨n, -, hn⟩ := bind_eq_ok_iff.1 h
    cases hn
    exact .pair (by decide +kernel) _ _
  | objects op os =>
    obtain ⟨ds, hds, h⟩ := bind_eq_ok_iff.1 h
    obtain ⟨hlen, hshape⟩ := mapM_objectDraft_eq_ok hds
    cases h
    rcases ds with _ | ⟨first, _ | ⟨second, more⟩⟩
    · cases hlen
    · obtain ⟨a, b, rfl⟩ := hshape first (by simp)
      exact .pair (by decide +kernel) _ _
    · exact .objects hshape
  | number q op digits =>
    cases q with
    | id | changeset =>
      obtain ⟨n, -, hn⟩ := bind_eq_ok_iff.1 h
      cases hn
      exact .single (by decide +kernel) _
    | outers | inners => cases h
  | numbers q op ns =>
    obtain ⟨ks, -, hks⟩ := bind_eq_ok_iff.1 h
    cases hks
    exact .member (by cases q <;> decide +kernel) _
  | range q op r =>
    cases q with
    | id | area | length | changeset => exact rangeDraft_condition (by decide +kernel) h
    | perimeter =>
      have hleaves : ∀ l ∈ (r.node .decimal).leaves, l.Spelled := by
        intro l hl
        apply hs
        simp [Filter.node, Filter.nodes, Ranged.grain, hl]
      obtain ⟨u, v, hu, hv, hinner⟩ := Range.toList_inner hleaves hp
      cases h
      rw [hinner]
      exact .perimeter hu hv (Range.bounds_decimal hleaves hp)
    | vertices | outers | inners => cases h

/-! ## Conditions and the words between them -/

/-- The characters of the words and parentheses that hold conditions together. -/
def isConnective (c : Char) : Bool := c ∈ [' ', '(', ')', 'A', 'D', 'N', 'O', 'R', 'T']

/-- A text that is not made of such characters alone. -/
def Plain (t : String) : Prop := ∃ c ∈ t.toList, isConnective c = false

instance (t : String) : Decidable (Plain t) :=
  decidable_of_iff (t.toList.any fun c => !isConnective c) (by simp [Plain])

lemma Draft.mem_number {d : Draft} {s : String} (hs : .text s ∈ d) {c : Char} (hc : c ∈ s.toList)
    (n : Int) : c ∈ (d.number n).toList := by
  induction d generalizing n with
  | nil => cases hs
  | cons x d ih =>
    cases x with
    | text t =>
      rw [number_text, String.toList_append, List.mem_append]
      rcases List.mem_cons.1 hs with heq | hs
      · cases heq
        exact .inl hc
      · exact .inr (ih hs n)
    | arg a =>
      have hmem : .text s ∈ d := by simpa using hs
      rw [number_arg, String.toList_append, List.mem_append]
      exact .inr (ih hmem (n + 1))

/-- No condition is made of words and parentheses alone. -/
theorem Condition.plain {d : Draft} (h : Condition d) (n : Int) : Plain (d.number n) := by
  suffices hseg : ∃ s, .text s ∈ d ∧ Plain s by
    obtain ⟨s, hs, c, hc, hplain⟩ := hseg
    exact ⟨c, Draft.mem_number hs hc n, hplain⟩
  cases h with
  | @single p hp a =>
    have hall : ∀ p ∈ comparisons, Plain p := by decide +kernel
    exact ⟨p, by simp, hall p hp⟩
  | @member p hp a =>
    have hall : ∀ p ∈ ["osm_id = ANY(", "changeset_id = ANY("], Plain p := by decide +kernel
    exact ⟨p, by simp, hall p hp⟩
  | like a b => exact ⟨"tags ->> ", by simp, by decide +kernel⟩
  | @pair p q hpq a b =>
    have hall : ∀ x ∈ pairs, Plain x.1 := by decide +kernel
    exact ⟨p, by simp, hall _ hpq⟩
  | @objects first more hds =>
    obtain ⟨a, b, rfl⟩ := hds first (by simp)
    refine ⟨"(osm_id = ", ?_, by decide +kernel⟩
    cases more <;> simp [List.intercalate_cons_cons]
  | @geometry c hc =>
    have hall : ∀ p ∈ geometries, Plain p := by decide +kernel
    exact ⟨c, by simp, hall c hc⟩
  | @perimeter u v b hu hv hb =>
    refine ⟨_, List.mem_singleton_self _, '.', ?_, by decide⟩
    rw [String.toList_ofList]
    cases b <;> simp [Bounds.spread]

end MapFilter
