import MapFilter.Proofs.Placeholders
import MapFilter.Proofs.Provenance

/-!
# Sessions

One compiler may be used for several filters, and goes on after failures with whatever they have
left. What is on its stack then need not be conditions of the last filter, but two things are
certain. The placeholders on the stack are in order and stand for arguments that are there. And no
text of a tag is left, whatever has failed.
-/

namespace MapFilter

open Compiler

/-! ## Placeholders in texts that are joined -/

/-- A text that no number goes on into or begins with. -/
def NoNumberFirst (cs : List Char) : Prop := ∀ c ∈ cs.head?, c.isDigit = false ∧ c ≠ '-'

lemma leadingDigits?_append (u : List Char) {v : List Char} (hv : NoNumberFirst v) :
    leadingDigits? (u ++ v) = leadingDigits? u := by
  have htake : (u ++ v).takeWhile Char.isDigit = u.takeWhile Char.isDigit := by
    induction u with
    | nil =>
      cases v with
      | nil => rfl
      | cons c v => exact List.takeWhile_cons_of_neg (by simp [(hv c rfl).1])
    | cons c u ih => simp only [List.cons_append, List.takeWhile_cons, ih]
  simp only [leadingDigits?, htake]

lemma leadingNumber?_append (u : List Char) {v : List Char} (hv : NoNumberFirst v) :
    leadingNumber? (u ++ v) = leadingNumber? u := by
  cases u with
  | nil =>
    have hhead : v.head? ≠ some '-' := fun h => (hv '-' h).2 rfl
    have hdigits : leadingDigits? v = none := leadingDigits?_append [] hv
    rw [List.nil_append, leadingNumber?, if_neg hhead, hdigits]
    rfl
  | cons c u =>
    have hall : leadingDigits? (c :: u ++ v) = leadingDigits? (c :: u) :=
      leadingDigits?_append (c :: u) hv
    have htail : leadingDigits? (c :: u ++ v).tail = leadingDigits? u := leadingDigits?_append u hv
    rw [leadingNumber?, hall, htail]
    rfl

lemma placeholders_append_of_noNumberFirst (u : List Char) {v : List Char} (hv : NoNumberFirst v) :
    placeholders (u ++ v) = placeholders u ++ placeholders v := by
  induction u with
  | nil => rfl
  | cons c u ih =>
    rw [List.cons_append, placeholders, placeholders, leadingNumber?_append u hv, ih,
      List.append_assoc]

lemma placeholders_eq_nil {u : List Char} (hu : '$' ∉ u) : placeholders u = [] := by
  simpa [placeholders] using placeholders_append hu []

/-! ## Placeholders on the stack -/

namespace State

/-- The numbers of the placeholders on the stack, from its bottom to its top. -/
def placeholders (s : State) : List Int :=
  s.stack.reverse.flatMap fun entry => MapFilter.placeholders entry.toList

/-- The placeholders on the stack are in order and belong to arguments. -/
structure Numbered (shift : Int) (s : State) : Prop where
  start : s.shift = shift
  increasing : s.placeholders.Pairwise (· < ·)
  bounded : ∀ n ∈ s.placeholders, shift + 1 ≤ n ∧ n ≤ s.last

variable {shift : Int} {s : State}

lemma placeholders_append (us vs : List String) (args : List Argument) (k : Int) :
    placeholders ⟨us ++ vs, args, k⟩ =
      placeholders ⟨vs, args, k⟩ ++ placeholders ⟨us, args, k⟩ := by
  simp [placeholders]

lemma placeholders_cons (t : String) (stack : List String) (args : List Argument) (k : Int) :
    placeholders ⟨t :: stack, args, k⟩ =
      placeholders ⟨stack, args, k⟩ ++ MapFilter.placeholders t.toList := by
  simp [placeholders]

lemma numbered_fresh (shift : Int) : (fresh shift).Numbered shift :=
  ⟨rfl, .nil, List.forall_mem_nil _⟩

namespace Numbered

/-- Entries may be taken off and arguments be added. -/
lemma drop (h : s.Numbered shift) {popped rest : List String} (hstack : s.stack = popped ++ rest)
    (new : List Argument) : Numbered shift ⟨rest, s.args ++ new, s.shift⟩ := by
  obtain ⟨stack, args, k⟩ := s
  obtain ⟨hstart, hincreasing, hbounded⟩ := h
  subst hstack
  rw [placeholders_append] at hincreasing hbounded
  refine ⟨hstart, (List.pairwise_append.1 hincreasing).1, fun n hn => ?_⟩
  have hle := hbounded n (List.mem_append_left _ hn)
  simp only [last, List.length_append] at hle ⊢
  omega

/-- Entries without placeholders may be put on the stack. -/
lemma push (h : s.Numbered shift) {pushed : List String} (hpushed : ∀ t ∈ pushed, '$' ∉ t.toList) :
    Numbered shift ⟨pushed ++ s.stack, s.args, s.shift⟩ := by
  have hnone : placeholders ⟨pushed, s.args, s.shift⟩ = [] := by
    simp only [placeholders, List.flatMap_eq_nil_iff, List.mem_reverse]
    exact fun t ht => placeholders_eq_nil (hpushed t ht)
  have hsame : placeholders ⟨pushed ++ s.stack, s.args, s.shift⟩ = s.placeholders := by
    rw [placeholders_append, hnone, List.append_nil]
  exact ⟨h.start, hsame ▸ h.increasing, hsame ▸ h.bounded⟩

/-- A draft brings placeholders for its own arguments. -/
lemma extend (h : s.Numbered shift) {d : Draft} (hd : d.Legible) :
    (s.extend (some d)).Numbered shift := by
  have hnew : (s.extend (some d)).placeholders =
      s.placeholders ++ (List.range d.args.length).map fun i : Nat => s.last + 1 + (i : Int) := by
    rw [← hd.placeholders]
    exact placeholders_cons _ _ _ _
  have hstart := h.start
  refine ⟨hstart, ?_, ?_⟩
  · rw [hnew, List.pairwise_append]
    refine ⟨h.increasing, ?_, ?_⟩
    · rw [List.pairwise_map]
      exact List.pairwise_lt_range.imp fun hlt => by omega
    · -- those that were there go up to the last argument, and the new ones begin after it
      intro m hm n hn
      obtain ⟨i, -, rfl⟩ := List.mem_map.1 hn
      have hle := (h.bounded m hm).2
      omega
  · intro n hn
    have hlast : (s.extend (some d)).last = s.last + d.args.length := last_add s _ _
    rw [hlast]
    rw [hnew] at hn
    rcases List.mem_append.1 hn with hn | hn
    · have hle := h.bounded n hn
      omega
    · obtain ⟨i, hi, rfl⟩ := List.mem_map.1 hn
      have hi := List.mem_range.1 hi
      have hshift : s.shift ≤ s.last := by
        rw [last]
        omega
      omega

/-- Conditions may be joined to one that has the same placeholders. -/
lemma connect (h : s.Numbered shift) (popped : List String) {rest : List String}
    (hstack : s.stack = popped ++ rest) {t : String} (ht : MapFilter.placeholders t.toList =
      popped.reverse.flatMap fun entry => MapFilter.placeholders entry.toList) :
    Numbered shift ⟨t :: rest, s.args, s.shift⟩ := by
  have hsame : placeholders ⟨t :: rest, s.args, s.shift⟩ = s.placeholders := by
    rw [placeholders_cons, ht]
    simp [placeholders, hstack]
  exact ⟨h.start, hsame ▸ h.increasing, hsame ▸ h.bounded⟩

end Numbered

end State

/-! ## Placeholders after a step -/

section Words

variable (t u : String)

lemma placeholders_group : placeholders ("(" ++ t ++ ")").toList = placeholders t.toList := by
  have hclose : NoNumberFirst ")".toList := by simp [NoNumberFirst]
  rw [String.append_assoc, String.toList_append, placeholders_append (by decide),
    String.toList_append, placeholders_append_of_noNumberFirst _ hclose,
    placeholders_eq_nil (u := ")".toList) (by decide), List.append_nil]

lemma placeholders_neg : placeholders ("NOT " ++ t).toList = placeholders t.toList := by
  rw [String.toList_append, placeholders_append (by decide)]

lemma placeholders_join (j : Joint) : placeholders (t ++ " " ++ word j ++ " " ++ u).toList =
    placeholders t.toList ++ placeholders u.toList := by
  have hfirst : NoNumberFirst (" " ++ (word j ++ (" " ++ u))).toList := by simp [NoNumberFirst]
  have hword : '$' ∉ (word j).toList := by cases j <;> decide
  rw [String.append_assoc, String.append_assoc, String.append_assoc, String.toList_append,
    placeholders_append_of_noNumberFirst _ hfirst, String.toList_append,
    placeholders_append (by decide), String.toList_append, placeholders_append hword,
    String.toList_append, placeholders_append (by decide)]

end Words

namespace State.Numbered

variable {shift : Int} {s : State}

lemma empty (h : s.Numbered shift) : Numbered shift ⟨[], s.args, s.shift⟩ := by
  simpa using h.drop (List.append_nil s.stack).symm []

/-- A word or a pair of parentheses keeps the placeholders of its operands. -/
lemma connective (h : s.Numbered shift) {step : Step} {m : Nat} (hm : step.operands? = some m) :
    (exec (perform [step]) s).2.Numbered shift := by
  obtain ⟨stack, args, k⟩ := s
  cases step with
  | group =>
    cases stack with
    | nil => exact h
    | cons t stack =>
      rw [exec_group_cons]
      exact h.connect [t] rfl (by rw [placeholders_group]; simp)
  | neg =>
    cases stack with
    | nil => exact h
    | cons t stack =>
      rw [exec_neg_cons]
      exact h.connect [t] rfl (by rw [placeholders_neg]; simp)
  | join j =>
    match stack with
    | [] => exact h
    | [t] => exact h.empty
    | u :: t :: stack =>
      rw [exec_join_cons]
      exact h.connect [u, t] rfl (by rw [placeholders_join]; simp)
  | text | range | filter | single | root => cases hm

end State.Numbered

/-- What a filter that fails leaves on the stack, if anything, is the text of its range. -/
lemma Filter.no_dollar_leftover {f : Filter} (hs : f.Spelled) (hp : f.Proper) :
    ∀ t ∈ f.leftover, '$' ∉ t.toList := by
  cases f with
  | range q op r =>
    have hleaves : ∀ l ∈ (r.node q.grain).leaves, l.Spelled := by
      intro l hl
      apply hs
      simp [Filter.node, Filter.nodes, hl]
    obtain ⟨u, v, hu, hv, hinner⟩ := Range.toList_inner hleaves hp
    rw [leftover]
    split
    · exact List.forall_mem_nil _
    · rw [List.forall_mem_singleton, hinner, String.toList_ofList]
      exact Bounds.no_dollar hu hv (Range.bounds_decimal hleaves hp)
  | _ => exact List.forall_mem_nil _

namespace State.Numbered

variable {shift : Int} {s : State}

/-- A filter that fails leaves no placeholder, but it may leave arguments that have none. -/
lemma filter (h : s.Numbered shift) {f : Filter} (hs : f.Spelled) (hp : f.Proper) :
    (exec (perform (Expr.filter f).steps) s).2.Numbered shift := by
  rcases f.ends hs hp s with
    ⟨o, hd, -, hr⟩ | ⟨e, added, -, -, -, hr⟩ | ⟨added, -, -, hr⟩
  · rw [hr]
    cases o with
    | none => exact h
    | some d => exact h.extend (f.condition hs hp hd).legible
  · -- arguments may have been added before the failure, but nothing refers to them
    rw [hr]
    exact (h.push (f.no_dollar_leftover hs hp)).drop (List.nil_append _).symm added
  · rw [hr]
    exact h.drop (List.nil_append _).symm added

lemma andThen {r : Except Failure Unit × State} {steps : List Step} (h : r.2.Numbered shift)
    (hsteps : ∀ s, Numbered shift s → (exec (perform steps) s).2.Numbered shift) :
    (andThen r fun _ => exec (perform steps)).2.Numbered shift := by
  rcases r with ⟨_ | _, s'⟩
  · exact h
  · exact hsteps s' h

/-- The numbering stays sound, whether an expression can be compiled or not. -/
theorem expr (h : s.Numbered shift) {e : Expr} (hg : e.Genuine) :
    (exec (perform e.steps) s).2.Numbered shift := by
  induction e generalizing s with
  | filter f =>
    have hf := hg f (by simp [Expr.filters])
    exact h.filter hf.1 hf.2
  | group l e r ih | neg op e ih =>
    rw [Expr.steps, exec_perform_append]
    exact (ih h hg).andThen fun s hs => hs.connective rfl
  | join j l op r ihl ihr =>
    have hgs := Expr.genuine_join.1 hg
    rw [Expr.steps, exec_perform_append, exec_perform_append]
    exact ((ihl h hgs.1).andThen fun s hs => ihr hs hgs.2).andThen fun s hs => hs.connective rfl

lemma compile (h : s.Numbered shift) (filter : String) :
    (s.compile filter).2.Numbered shift := by
  rcases hparse : parse filter with r | _ | e
  · simp only [State.compile, hparse]
    exact h
  · simp only [State.compile, hparse]
    exact h
  · rw [compile_eq hparse]
    exact h.expr (parse_wellFormed hparse).genuine

theorem session (h : s.Numbered shift) (filters : List String) :
    ∀ x ∈ session s filters, x.2.Numbered shift := by
  induction filters generalizing s with
  | nil => exact List.forall_mem_nil _
  | cons filter filters ih =>
    exact List.forall_mem_cons.2 ⟨h.compile filter, ih (h.compile filter)⟩

end State.Numbered

/-! ## Where the entries come from -/

lemma Tree.spelled_steps {text : String} {tree : Tree} (hparse : parse text = .ok tree) :
    ∀ step ∈ tree.steps, step.Spelled := by
  have hroot : Step.root.Spelled := Step.spelled_of_ne (by simp)
  cases tree with
  | everything => exact List.forall_mem_singleton.2 hroot
  | expr e =>
    have hg : e.Genuine := (parse_wellFormed hparse).genuine
    exact List.forall_mem_append.2 ⟨hg.spelled_steps, List.forall_mem_singleton.2 hroot⟩

namespace Traced

/-- Compiles a filter text. -/
def compile (t : Traced) (filter : String) : Except Error Unit × Traced :=
  match parse filter with
  | .error r => (.error (.refusal r), t)
  | .ok tree => ((run tree.steps t).1.mapError .failure, (run tree.steps t).2)

/-- Compiles several filter texts one after the other. -/
def session : Traced → List String → List (Except Error Unit × Traced)
  | _, [] => []
  | t, filter :: filters => t.compile filter :: session (t.compile filter).2 filters

/-- Knowing where entries come from changes nothing. -/
lemma plain_compile (t : Traced) (filter : String) :
    plain (t.compile filter) = t.state.compile filter := by
  rcases hparse : parse filter with r | tree
  · simp only [compile, State.compile, hparse]
    rfl
  · have hrun := plain_run (Tree.spelled_steps hparse) t
    have hcompile : t.state.compile filter =
        ((exec (perform tree.steps) t.state).1.mapError .failure,
          (exec (perform tree.steps) t.state).2) := by
      simp only [State.compile, hparse]
      rfl
    rw [hcompile, ← hrun]
    simp only [compile, hparse]
    rfl

theorem plain_session (t : Traced) (filters : List String) :
    (t.session filters).map plain = MapFilter.session t.state filters := by
  induction filters generalizing t with
  | nil => rfl
  | cons filter filters ih =>
    rw [session, MapFilter.session, List.map_cons, ih, ← plain_compile]
    rfl

lemma TextFree.compile {t : Traced} (ht : t.TextFree) (filter : String) :
    (t.compile filter).2.TextFree := by
  have hroot : ∀ step ∈ [Step.root], step.Spelled ∧ step.rule ≠ .text :=
    List.forall_mem_singleton.2 ⟨Step.spelled_of_ne (by simp), by decide⟩
  rcases hparse : parse filter with r | _ | e
  · simp only [Traced.compile, hparse]
    exact ht
  · simp only [Traced.compile, hparse]
    exact ht.run hroot
  · simp only [Traced.compile, hparse]
    have hg : e.Genuine := (parse_wellFormed hparse).genuine
    exact run_append_invariant (ht.expr hg) fun t' ht' => ht'.run hroot

theorem TextFree.session {t : Traced} (ht : t.TextFree) (filters : List String) :
    ∀ x ∈ t.session filters, x.2.TextFree := by
  induction filters generalizing t with
  | nil => exact List.forall_mem_nil _
  | cons filter filters ih =>
    exact List.forall_mem_cons.2 ⟨ht.compile filter, ih (ht.compile filter)⟩

end Traced

/-- After every filter of a session, whichever have failed, the placeholders increase from the
bottom of the stack to its top, each of them is the number of an argument, and no entry is left that
has been pushed as the text of a tag. -/
theorem session_sound (shift : Int) (filters : List String) :
    (∀ x ∈ session (.fresh shift) filters, x.2.placeholders.Pairwise (· < ·) ∧
      ∀ n ∈ x.2.placeholders, shift + 1 ≤ n ∧ n ≤ x.2.last) ∧
    ((Traced.fresh shift).session filters).map Traced.plain = session (.fresh shift) filters ∧
    ∀ x ∈ (Traced.fresh shift).session filters, ∀ entry ∈ x.2.stack, entry.2 ≠ .text := by
  refine ⟨fun x hx => ?_, (Traced.fresh shift).plain_session filters, ?_⟩
  · have hx := (State.numbered_fresh shift).session filters x hx
    exact ⟨hx.increasing, hx.bounded⟩
  · exact Traced.TextFree.session (t := .fresh shift) (List.forall_mem_nil _) filters

-- The second filter fails and leaves the text of its range, which the third takes for a condition.
example : (session (.fresh 2) ["type:way", "geometry.vertices:(1..5)", "id:way/1 and id:(0..0)",
      "id:(7..) or a = b"]).map (fun x => (x.2.stack, x.2.placeholders, x.2.last)) =
    [(["osm_type = $3"], [3], 3),
      (["1..5", "osm_type = $3"], [3], 3),
      (["1..5 AND (osm_type = $4 AND osm_id = $5)", "osm_type = $3"], [3, 4, 5], 5),
      (["osm_id >= $6 OR tags @> $7", "1..5 AND (osm_type = $4 AND osm_id = $5)", "osm_type = $3"],
        [3, 4, 5, 6, 7], 7)] := by
  decide +kernel

end MapFilter
