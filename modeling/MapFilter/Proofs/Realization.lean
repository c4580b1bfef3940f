import MapFilter.Proofs.Draft
import MapFilter.Proofs.Execution

/-!
# Compiling single filters

A filter pushes its texts and its range before it is finished, and takes them off the stack again.
What is left is the condition of its draft on top of what was there before, with the arguments of
the draft after those that were there before. A filter fails if it has no draft, or if it comes
after so many arguments that the number of a placeholder is too long to be written.
-/

namespace MapFilter
open Compiler

/-! ## Texts -/

lemma Lexeme.Spelled.ne_nil {l : Lexeme} (h : l.Spelled) : l.text.toList ≠ [] := by
  intro hnil
  rw [Lexeme.Spelled, hnil, ← Regex.nullable_iff] at h
  cases hk : l.kind <;> rw [hk] at h <;> revert h <;> decide

lemma exec_unescape {t : String} (h : t.toList ≠ []) (s : State) :
    exec (unescape t) s = (.ok ((Quoted.unescape? t).getD ""), s) := by
  obtain ⟨c, cs, ht⟩ := List.exists_cons_of_ne_nil h
  simp only [unescape, Quoted.unescape?, ht, Option.getD_some]
  rfl

lemma Text.node_text_ne_nil {t : Text} (h : ∀ l ∈ t.node.leaves, l.Spelled) :
    t.node.text.toList ≠ [] := by
  rw [Node.toList_text]
  cases t with
  | quoted s => simpa [Text.node] using (h ⟨.quoted, s⟩ (by simp [Text.node])).ne_nil
  | number s => simpa [Text.node] using (h ⟨.number, s⟩ (by simp [Text.node])).ne_nil
  | words w more =>
    have hw := (h w (by simp [Text.node])).ne_nil
    simp [Text.node, hw]

/-- A text of a parsed filter is pushed as what it stands for. -/
lemma exec_text {t : Text} (h : ∀ l ∈ t.node.leaves, l.Spelled) (s : State) :
    exec (Step.text t).perform s = (.ok (), ⟨t.content :: s.stack, s.args, s.shift⟩) := by
  have hvalue : exec (value t) s = (.ok t.content, s) := by
    cases t with
    | quoted q => exact exec_unescape (h ⟨.quoted, q⟩ (by simp [Text.node])).ne_nil s
    | number q => exact exec_unescape (h ⟨.number, q⟩ (by simp [Text.node])).ne_nil s
    | words w more =>
      cases more with
      | nil => exact exec_unescape (h w (by simp [Text.node])).ne_nil s
      | cons o more => rfl
  rw [Step.perform, exec_bind, hvalue]
  rfl

lemma exec_texts {ts : List Text} (h : ∀ t ∈ ts, ∀ l ∈ t.node.leaves, l.Spelled) (s : State) :
    exec (perform (ts.map .text)) s =
      (.ok (), ⟨(ts.map Text.content).reverse ++ s.stack, s.args, s.shift⟩) := by
  induction ts generalizing s with
  | nil => rfl
  | cons t ts ih =>
    rw [List.map_cons, exec_perform_cons, exec_text (h t (by simp)), andThen_ok,
      ih (fun t ht => h t (by simp [ht]))]
    simp

/-- The texts of a list are taken off the stack again, one for each item. -/
lemma exec_listed {ts : List Text} (h : ∀ t ∈ ts, ∀ l ∈ t.node.leaves, l.Spelled)
    {popped : List String} (hlen : popped.length = ts.length) (stack : List String)
    (args : List Argument) (shift : Int) :
    exec (ts.mapM fun t => do
        let _ ← pop
        let s ← unescape t.node.text
        pure ("\"" ++ s ++ "\"")) ⟨popped ++ stack, args, shift⟩ =
      (.ok (ts.map Text.listed), ⟨stack, args, shift⟩) := by
  induction ts generalizing popped with
  | nil =>
    obtain rfl : popped = [] := List.eq_nil_of_length_eq_zero hlen
    rfl
  | cons t ts ih =>
    obtain ⟨p, popped, rfl⟩ := List.exists_cons_of_length_eq_add_one hlen
    have htext := Text.node_text_ne_nil (h t (by simp))
    have hrest := ih (fun t ht => h t (by simp [ht])) (by simpa using hlen)
    simp only [List.mapM_cons, exec_bind, List.cons_append, exec_pop_cons, andThen_ok,
      exec_unescape htext, exec_pure, hrest, List.map_cons]
    rfl

/-! ## Objects -/

lemma splitSlashes_of_not_mem {u : List Char} (hu : '/' ∉ u) : splitSlashes u = [u] := by
  induction u with
  | nil => rfl
  | cons c u ih =>
    simp only [List.mem_cons, not_or] at hu
    rw [splitSlashes, if_neg (Ne.symm hu.1), ih hu.2]

lemma splitSlashes_append {u v : List Char} (hu : '/' ∉ u) :
    splitSlashes (u ++ '/' :: v) = u :: splitSlashes v := by
  induction u with
  | nil => simp [splitSlashes]
  | cons c u ih =>
    simp only [List.mem_cons, not_or] at hu
    rw [List.cons_append, splitSlashes, if_neg (Ne.symm hu.1), ih hu.2]

lemma objectParts_of_slash {o : String} {type id : List Char} (ho : o.toList = type ++ '/' :: id)
    (htype : '/' ∉ type) : objectParts o = (.ofList type, id) := by
  have hne : ∀ c ∈ type, (c != '/') = true := by
    intro c hc
    have : c ≠ '/' := fun h => htype (h ▸ hc)
    simpa using this
  rw [objectParts, ho, List.takeWhile_append_of_pos hne, List.dropWhile_append_of_pos hne]
  simp

/-- An object has one slash, so it has two parts. -/
lemma exec_splitObject {o : String} (h : Lexeme.Spelled ⟨.objectId, o⟩) (s : State) :
    exec (splitObject o) s = (.ok ((objectParts o).1, .ofList (objectParts o).2), s) := by
  obtain ⟨type, id, ho, htype, hid⟩ := h.objectId
  have hslash : '/' ∉ id := fun hmem => absurd (hid.2 _ hmem) (by decide)
  rw [splitObject, ho, splitSlashes_append htype, splitSlashes_of_not_mem hslash,
    objectParts_of_slash ho htype]
  rfl

lemma exec_object {o : String} (h : Lexeme.Spelled ⟨.objectId, o⟩) (s : State) :
    exec (object o) s =
      match objectDraft o with
      | .ok d =>
        if AllWritable s.last 2 then
          (.ok (Draft.number s.last d), ⟨s.stack, s.args ++ Draft.args d, s.shift⟩)
        else (.error .longPlaceholder, ⟨s.stack, s.args ++ Draft.args d, s.shift⟩)
      | .error e => (.error e, s) := by
  rw [object, exec_bind, exec_splitObject h, andThen_ok, exec_bind, exec_readWhole,
    String.toList_ofList, objectDraft]
  rcases Bounds.readWhole (objectParts o).2 with e | n
  · rfl
  · rw [andThen_ok, exec_two]
    simp [slot, String.append_assoc, Int.add_assoc]

section Objects

variable {os : List String} (h : ∀ o ∈ os, Lexeme.Spelled ⟨.objectId, o⟩) (s : State)

include h

lemma exec_objects_ok {ds : List Draft} (hds : os.mapM objectDraft = .ok ds)
    (hwritable : AllWritable s.last (ds.flatMap Draft.args).length) :
    exec (os.mapM object) s =
      (.ok (Draft.numberAll s.last ds), ⟨s.stack, s.args ++ ds.flatMap Draft.args, s.shift⟩) := by
  induction os generalizing ds s with
  | nil =>
    cases hds
    simp [Draft.numberAll]
  | cons o os ih =>
    rw [List.mapM_cons] at hds
    obtain ⟨d, hd, hds⟩ := bind_eq_ok_iff.1 hds
    obtain ⟨ds, hds', hds⟩ := bind_eq_ok_iff.1 hds
    cases hds
    rw [List.flatMap_cons, List.length_append, allWritable_add, objectDraft_args hd] at hwritable
    have hrest := ih (fun o ho => h o (by simp [ho])) ⟨s.stack, s.args ++ Draft.args d, s.shift⟩
      hds' (by simpa [objectDraft_args hd] using hwritable.2)
    simp [exec_object (h o (by simp)), hd, hwritable.1, hrest, Draft.numberAll]

/-- Where an object fails, the stack is as it was. -/
lemma exec_objects_error {e : Failure} (he : os.mapM objectDraft = .error e)
    (hwritable : AllWritable s.last (2 * (os.takeWhile fun o => (objectDraft o).isOk).length)) :
    ∃ added, exec (os.mapM object) s = (.error e, ⟨s.stack, s.args ++ added, s.shift⟩) ∧
      2 * (os.takeWhile fun o => (objectDraft o).isOk).length ≤ added.length := by
  induction os generalizing s with
  | nil => cases he
  | cons o os ih =>
    rw [List.mapM_cons] at he
    rcases hd : objectDraft o with e' | d
    · simp only [hd, error_bind, Except.error.injEq] at he
      refine ⟨[], ?_, ?_⟩
      · simp [exec_object (h o (by simp)), hd, he]
      · simp [hd, Except.isOk, Except.toBool]
    · have htake : (o :: os).takeWhile (fun o => (objectDraft o).isOk) =
          o :: os.takeWhile fun o => (objectDraft o).isOk := by
        simp [hd, Except.isOk, Except.toBool]
      have hrest : os.mapM objectDraft = .error e := by
        rcases hos : os.mapM objectDraft with e' | ds
        · simpa [hd, hos] using he
        · simp [hd, hos] at he
      rw [htake, List.length_cons, Nat.mul_succ, Nat.add_comm, allWritable_add] at hwritable
      obtain ⟨added, hexec, hlen⟩ := ih (fun o ho => h o (by simp [ho]))
        ⟨s.stack, s.args ++ Draft.args d, s.shift⟩ hrest
        (by simpa [objectDraft_args hd] using hwritable.2)
      refine ⟨Draft.args d ++ added, ?_, ?_⟩
      · simp [exec_object (h o (by simp)), hd, hwritable.1, hexec]
      · rw [htake, List.length_cons, List.length_append, objectDraft_args hd]
        omega

/-- Where the number of a placeholder is too long, it belongs to an argument that has been added. -/
lemma exec_objects_long
    (hlong : ¬AllWritable s.last (2 * (os.takeWhile fun o => (objectDraft o).isOk).length)) :
    ∃ added, exec (os.mapM object) s =
      (.error .longPlaceholder, ⟨s.stack, s.args ++ added, s.shift⟩) ∧
        ¬AllWritable s.last added.length := by
  induction os generalizing s with
  | nil => simp at hlong
  | cons o os ih =>
    rcases hd : objectDraft o with e' | d
    · simp [hd, Except.isOk, Except.toBool] at hlong
    · have htake : (o :: os).takeWhile (fun o => (objectDraft o).isOk) =
          o :: os.takeWhile fun o => (objectDraft o).isOk := by
        simp [hd, Except.isOk, Except.toBool]
      by_cases htwo : AllWritable s.last 2
      · rw [htake, List.length_cons, Nat.mul_succ, Nat.add_comm, allWritable_add] at hlong
        obtain ⟨added, hexec, hnot⟩ := ih (fun o ho => h o (by simp [ho]))
          ⟨s.stack, s.args ++ Draft.args d, s.shift⟩
          (by simpa [objectDraft_args hd, htwo] using hlong)
        refine ⟨Draft.args d ++ added, ?_, ?_⟩
        · simp [exec_object (h o (by simp)), hd, htwo, hexec]
        · rw [List.length_append, allWritable_add]
          intro hwritable
          exact hnot (by simpa [objectDraft_args hd] using hwritable.2)
      · refine ⟨Draft.args d, ?_, ?_⟩
        · simp [exec_object (h o (by simp)), hd, htwo]
        · rwa [objectDraft_args hd]

end Objects

/-! ## Single filters -/

/-- The state after the condition of a draft has been pushed. -/
def State.extend (s : State) : Option Draft → State
  | none => s
  | some d => ⟨d.number s.last :: s.stack, s.args ++ d.args, s.shift⟩

/-- The text of a range that has no condition stays on the stack. -/
def Filter.leftover : Filter → List String
  | .range q _ r => if q.compares then [] else [r.inner q.grain]
  | _ => []

/-- How compiling a filter in the state `s` can end. It is compiled to its draft, or it fails
because it has none, or because the number of a placeholder is too long. A filter that fails takes
nothing off the stack that was there before, and has added an argument for every placeholder. -/
inductive Filter.Ends (f : Filter) (s : State) (r : Except Failure Unit × State) : Prop where
  | compiled (o : Option Draft) : f.draft = .ok o → AllWritable s.last f.writes →
      r = (.ok (), s.extend o) → Ends f s r
  | failed (e : Failure) (added : List Argument) : f.draft = .error e →
      AllWritable s.last f.writes → f.writes ≤ added.length →
      r = (.error e, ⟨f.leftover ++ s.stack, s.args ++ added, s.shift⟩) → Ends f s r
  | long (added : List Argument) : ¬AllWritable s.last f.writes → ¬AllWritable s.last added.length →
      r = (.error .longPlaceholder, ⟨s.stack, s.args ++ added, s.shift⟩) → Ends f s r

/-- Numbers are written after all arguments have been added. -/
lemma Filter.Ends.of_draft {f : Filter} {s : State} {r : Except Failure Unit × State} {d : Draft}
    (hd : f.draft = .ok (some d))
    (hr : r = if AllWritable s.last d.args.length then (.ok (), s.extend (some d))
      else (.error .longPlaceholder, ⟨s.stack, s.args ++ d.args, s.shift⟩)) : f.Ends s r := by
  have hwrites : f.writes = d.args.length := by rw [writes_of_draft hd, args_of_draft hd]
  by_cases hwritable : AllWritable s.last d.args.length
  · rw [if_pos hwritable] at hr
    exact .compiled _ hd (hwrites ▸ hwritable) hr
  · rw [if_neg hwritable] at hr
    exact .long _ (hwrites ▸ hwritable) hwritable hr

lemma Filter.Ends.of_error {f : Filter} {s : State} {r : Except Failure Unit × State} {e : Failure}
    (hd : f.draft = .error e) (hwrites : f.writes = f.args.length) (added : List Argument)
    (hr : r = (.error e, ⟨f.leftover ++ s.stack, s.args ++ added, s.shift⟩)) : f.Ends s r := by
  have hzero : f.writes = 0 := by rw [hwrites, args_of_draft_error hd, List.length_nil]
  exact .failed e added hd (hzero ▸ allWritable_zero) (hzero ▸ Nat.zero_le _) hr

lemma exec_filter_steps (f : Filter) (s : State) :
    exec (perform (Expr.filter f).steps) s =
      andThen (exec (perform f.parts) s) fun _ => exec (Compiler.filter f) := by
  rw [Expr.steps, exec_perform_append]
  congr 1
  funext _ s'
  rw [exec_perform_cons]
  change andThen (exec (Compiler.filter f) s') _ = _
  rcases exec (Compiler.filter f) s' with ⟨_ | _, _⟩ <;> rfl

/-- A filter without texts and ranges is compiled in one step. -/
lemma exec_keyword_steps {f : Filter} (hf : f.parts = []) (s : State) :
    exec (perform (Expr.filter f).steps) s = exec (Compiler.filter f) s := by
  rw [exec_filter_steps, hf, exec_perform_nil, andThen_ok]

/-- Every token of a filter is spelt as its kind says. -/
def Filter.Spelled (f : Filter) : Prop := ∀ l ∈ f.node.leaves, l.Spelled

section Tags

variable {key : Text} {op : Padding} (s : State)

lemma exec_tag {value : Text} (hkey : ∀ l ∈ key.node.leaves, l.Spelled)
    (hvalue : ∀ l ∈ value.node.leaves, l.Spelled) (c : Comparison) :
    exec (perform (Expr.filter (.tag c key op value)).steps) s =
      if AllWritable s.last 1 then
        (.ok (), ⟨(negation c ++ "tags @> " ++ slot (s.last + 1)) :: s.stack,
          s.args ++ [.text (Json.member key.content value.content)], s.shift⟩)
      else (.error .longPlaceholder,
        ⟨s.stack, s.args ++ [.text (Json.member key.content value.content)], s.shift⟩) := by
  rw [exec_filter_steps, Filter.parts, exec_perform_cons, exec_text hkey, andThen_ok,
    exec_perform_cons, exec_text hvalue, andThen_ok, exec_perform_nil, andThen_ok, Compiler.filter,
    exec_bind, exec_pop_cons, andThen_ok, exec_bind, exec_pop_cons, andThen_ok, exec_one]
  rfl

lemma tag_ends {c : Comparison} {value : Text} (h : (Filter.tag c key op value).Spelled) :
    (Filter.tag c key op value).Ends s
      (exec (perform (Expr.filter (.tag c key op value)).steps) s) := by
  have hkey : ∀ l ∈ key.node.leaves, l.Spelled := by
    intro l hl
    apply h
    simp [Filter.node, Filter.nodes, hl]
  have hvalue : ∀ l ∈ value.node.leaves, l.Spelled := by
    intro l hl
    apply h
    simp [Filter.node, Filter.nodes, hl]
  refine .of_draft rfl ?_
  rw [exec_tag s hkey hvalue]
  simp [State.extend, slot]

lemma tagAny_ends {c : Comparison} (h : (Filter.tagAny c key op).Spelled) :
    (Filter.tagAny c key op).Ends s (exec (perform (Expr.filter (.tagAny c key op)).steps) s) := by
  have hkey : ∀ l ∈ key.node.leaves, l.Spelled := by
    intro l hl
    apply h
    simp [Filter.node, Filter.nodes, hl]
  refine .of_draft rfl ?_
  rw [exec_filter_steps, Filter.parts, exec_perform_cons, exec_text hkey, andThen_ok,
    exec_perform_nil, andThen_ok, Compiler.filter, exec_bind, exec_pop_cons, andThen_ok, exec_one]
  simp [State.extend, slot]

/-- Finishing a pattern takes its text and its key off the stack. -/
lemma exec_tagLike (pattern : Pattern) (k v : String) :
    exec (Compiler.filter (.tagLike key op pattern)) ⟨v :: k :: s.stack, s.args, s.shift⟩ =
      if AllWritable s.last 2 then
        (.ok (), ⟨("tags ->> " ++ slot (s.last + 1) ++ " LIKE " ++ slot (s.last + 2)) :: s.stack,
          s.args ++ [.text (Like.key k), .text (Like.pattern pattern.leading v pattern.trailing)],
          s.shift⟩)
      else (.error .longPlaceholder, ⟨s.stack,
        s.args ++ [.text (Like.key k), .text (Like.pattern pattern.leading v pattern.trailing)],
        s.shift⟩) := by
  rw [Compiler.filter, exec_bind, exec_pop_cons, andThen_ok, exec_bind, exec_pop_cons, andThen_ok,
    exec_two]
  rfl

lemma tagLike_ends {pattern : Pattern} (h : (Filter.tagLike key op pattern).Spelled) :
    (Filter.tagLike key op pattern).Ends s
      (exec (perform (Expr.filter (.tagLike key op pattern)).steps) s) := by
  have hkey : ∀ l ∈ key.node.leaves, l.Spelled := by
    intro l hl
    apply h
    simp [Filter.node, Filter.nodes, hl]
  have hvalue : ∀ l ∈ pattern.text.node.leaves, l.Spelled := by
    intro l hl
    apply h
    simp [Filter.node, Filter.nodes, Pattern.node, hl]
  refine .of_draft rfl ?_
  rw [exec_filter_steps, Filter.parts, exec_perform_cons, exec_text hkey, andThen_ok,
    exec_perform_cons, exec_text hvalue, andThen_ok, exec_perform_nil, andThen_ok, exec_tagLike]
  simp [State.extend, slot, String.append_assoc, Int.add_assoc]

lemma Listed.mem_leaves {α : Type} (node : α → Node) {l : Listed α} {a : α} (ha : a ∈ l.items)
    {x : Lexeme} (hx : x ∈ (node a).leaves) : x ∈ Node.leavesOf (l.nodes node) := by
  simp only [Listed.items, List.mem_cons, List.mem_map] at ha
  rcases ha with rfl | ⟨⟨p, b⟩, hb, rfl⟩
  · simp [Listed.nodes, hx]
  · obtain ⟨us, vs, hmore⟩ := List.append_of_mem hb
    simp [Listed.nodes, hmore, hx]

/-- Finishing a list of values takes its texts and its key off the stack. -/
lemma exec_tagIn {values : Listed Text} (h : ∀ t ∈ values.items, ∀ l ∈ t.node.leaves, l.Spelled)
    {popped : List String} (hlen : popped.length = values.items.length) (k : String) :
    exec (Compiler.filter (.tagIn key op values)) ⟨popped ++ k :: s.stack, s.args, s.shift⟩ =
      if AllWritable s.last 2 then
        (.ok (), ⟨("(tags -> " ++ slot (s.last + 1) ++ ") = ANY(" ++ slot (s.last + 2) ++ ")") ::
          s.stack, s.args ++ [.text k, .texts (values.items.map Text.listed)], s.shift⟩)
      else (.error .longPlaceholder,
        ⟨s.stack, s.args ++ [.text k, .texts (values.items.map Text.listed)], s.shift⟩) := by
  rw [Compiler.filter, exec_bind, exec_listed h hlen, andThen_ok, exec_bind, exec_pop_cons,
    andThen_ok, exec_two]
  rfl

lemma tagIn_ends {values : Listed Text} (h : (Filter.tagIn key op values).Spelled) :
    (Filter.tagIn key op values).Ends s
      (exec (perform (Expr.filter (.tagIn key op values)).steps) s) := by
  have hkey : ∀ l ∈ key.node.leaves, l.Spelled := by
    intro l hl
    apply h
    simp [Filter.node, Filter.nodes, hl]
  have hvalues : ∀ t ∈ values.items, ∀ l ∈ t.node.leaves, l.Spelled := by
    intro t ht l hl
    apply h
    simp [Filter.node, Filter.nodes, Listed.mem_leaves Text.node ht hl]
  have hlen : (values.items.map Text.content).reverse.length = values.items.length := by simp
  refine .of_draft rfl ?_
  rw [exec_filter_steps, Filter.parts, exec_perform_cons, exec_text hkey, andThen_ok,
    exec_texts hvalues, andThen_ok, exec_tagIn s hvalues hlen]
  simp [State.extend, slot, String.append_assoc, Int.add_assoc]

end Tags

section Keywords

variable {op : Padding} (s : State)

lemma type_ends {t : String} :
    (Filter.type op t).Ends s (exec (perform (Expr.filter (.type op t)).steps) s) := by
  refine .of_draft rfl ?_
  rw [exec_keyword_steps rfl, Compiler.filter, exec_one]
  simp [State.extend, slot]

lemma geometry_ends {t : String} :
    (Filter.geometry op t).Ends s (exec (perform (Expr.filter (.geometry op t)).steps) s) := by
  have hexec : exec (perform (Expr.filter (.geometry op t)).steps) s =
      (.ok (), s.extend ((Compiler.geometry? t).map fun c => [.text c])) := by
    rw [exec_keyword_steps rfl, Compiler.filter]
    cases geometry? t with
    | none => rfl
    | some c => simp [State.extend]
  have hwrites : (Filter.geometry op t).writes = 0 := by
    change (Filter.geometry op t).args.length = 0
    rw [Filter.args, Filter.draft]
    cases geometry? t <;> rfl
  exact .compiled _ rfl (hwrites ▸ allWritable_zero) hexec

lemma object_ends {o : String} (h : (Filter.object op o).Spelled) :
    (Filter.object op o).Ends s (exec (perform (Expr.filter (.object op o)).steps) s) := by
  have ho : Lexeme.Spelled ⟨.objectId, o⟩ := by
    apply h
    simp [Filter.node, Filter.nodes]
  have hexec : exec (perform (Expr.filter (.object op o)).steps) s =
      andThen (Bounds.readWhole (objectParts o).2,
        ⟨s.stack, s.args ++ [.text (objectParts o).1], s.shift⟩) fun n => exec (do
          add (.number (.whole n))
          let m ← placeholder 1
          let n ← placeholder 0
          push ("(osm_type = " ++ m ++ " AND osm_id = " ++ n ++ ")")) := by
    rw [exec_keyword_steps rfl, Compiler.filter, exec_bind, exec_splitObject ho, andThen_ok,
      exec_bind, exec_add, andThen_ok, exec_bind, exec_readWhole, String.toList_ofList]
  rcases hread : Bounds.readWhole (objectParts o).2 with e | n
  · have hdraft : (Filter.object op o).draft = .error e := by simp [Filter.draft, hread]
    refine .of_error hdraft rfl [.text (objectParts o).1] ?_
    rw [hexec, hread]
    rfl
  · have hdraft : (Filter.object op o).draft = .ok (some [.text "(osm_type = ",
        .arg (.text (objectParts o).1), .text " AND osm_id = ", .arg (.number (.whole n)),
        .text ")"]) := by simp [Filter.draft, hread]
    refine .of_draft hdraft ?_
    rw [hexec, hread, andThen_ok, exec_bind, exec_add, andThen_ok]
    simp only [List.append_assoc, List.cons_append, List.nil_append, exec_lastTwo]
    simp [State.extend, slot, String.append_assoc, Int.add_assoc]

lemma Filter.Spelled.objectIds {os : Listed String} (h : (Filter.objects op os).Spelled) :
    ∀ o ∈ os.items, Lexeme.Spelled ⟨.objectId, o⟩ := by
  intro o ho
  apply h
  have hleaf := Listed.mem_leaves (fun o => .leaf ⟨.objectId, o⟩) ho (List.mem_singleton.2 rfl)
  simp [Filter.node, Filter.nodes, hleaf]

lemma objects_ends {os : Listed String} (h : (Filter.objects op os).Spelled) :
    (Filter.objects op os).Ends s (exec (perform (Expr.filter (.objects op os)).steps) s) := by
  rw [exec_keyword_steps rfl, Compiler.filter, exec_bind]
  by_cases hwritable : AllWritable s.last (Filter.objects op os).writes
  · rcases hds : os.items.mapM objectDraft with e | ds
    · have hdraft : (Filter.objects op os).draft = .error e := by simp [Filter.draft, hds]
      obtain ⟨added, hexec, hlen⟩ := exec_objects_error h.objectIds s hds hwritable
      refine .failed e added hdraft hwritable hlen ?_
      rw [hexec]
      rfl
    · have hdraft : (Filter.objects op os).draft = .ok (some
          (if ds.length > 1 then .text "(" :: [Segment.text " OR "].intercalate ds ++ [.text ")"]
          else [Segment.text " OR "].intercalate ds)) := by simp [Filter.draft, hds]
      rw [Filter.writes, ← objectDrafts_args hds] at hwritable
      refine .of_draft hdraft ?_
      rw [exec_objects_ok h.objectIds s hds hwritable]
      by_cases hlen : ds.length > 1
      · simp [State.extend, hlen, Draft.number_append, Draft.number_intercalate,
          Draft.args_intercalate, String.append_assoc, -List.length_flatMap, hwritable]
      · simp [State.extend, hlen, Draft.number_intercalate, Draft.args_intercalate,
          -List.length_flatMap, hwritable]
  · obtain ⟨added, hexec, hlong⟩ := exec_objects_long h.objectIds s hwritable
    refine .long added hwritable hlong ?_
    rw [hexec]
    rfl

/-- A column is compared with a number. -/
lemma comparison_ends {f : Filter} {t digits : String} (hwrites : f.writes = f.args.length)
    (hleft : f.leftover = []) (hdraft : f.draft = do
      let n ← Bounds.readWhole digits.toList
      pure (some [.text t, .arg (.number (.whole n))])) :
    f.Ends s (exec (do
      add (.number (.whole (← readWhole digits)))
      let n ← placeholder 0
      push (t ++ n)) s) := by
  rw [exec_bind, exec_readWhole]
  rcases hread : Bounds.readWhole digits.toList with e | n
  · rw [hread, error_bind] at hdraft
    exact .of_error hdraft hwrites [] (by simp [hleft])
  · rw [hread, ok_bind, pure_eq_ok] at hdraft
    refine .of_draft hdraft ?_
    rw [andThen_ok, exec_one]
    simp [State.extend, slot]

lemma number_ends {q : Numbered} {digits : String} :
    (Filter.number q op digits).Ends s
      (exec (perform (Expr.filter (.number q op digits)).steps) s) := by
  rw [exec_keyword_steps rfl]
  cases q with
  | id | changeset => exact comparison_ends s rfl rfl rfl
  | outers | inners => exact .of_error rfl rfl [] (by simp [Compiler.filter, Filter.leftover])

lemma exec_readWholes (ns : List String) (s : State) :
    exec (ns.mapM readWhole) s = (ns.mapM fun n => Bounds.readWhole n.toList, s) := by
  induction ns with
  | nil => rfl
  | cons n ns ih =>
    rw [List.mapM_cons, List.mapM_cons, exec_bind, exec_readWhole]
    rcases Bounds.readWhole n.toList with e | k
    · rfl
    · rw [andThen_ok, exec_bind, ih]
      generalize (ns.mapM fun n => Bounds.readWhole n.toList) = ks
      cases ks <;> rfl

lemma exec_numbers {q : Listable} {ns : Listed String} {ks : List Nat}
    (hread : (ns.items.mapM fun n => Bounds.readWhole n.toList) = .ok ks) :
    exec (Compiler.filter (.numbers q op ns)) s =
      if AllWritable s.last 1 then
        (.ok (), ⟨(q.column ++ " = ANY(" ++ slot (s.last + 1) ++ ")") :: s.stack,
          s.args ++ [.numbers ks], s.shift⟩)
      else (.error .longPlaceholder, ⟨s.stack, s.args ++ [.numbers ks], s.shift⟩) := by
  rw [Compiler.filter, exec_bind, exec_readWholes, hread, andThen_ok, exec_one]
  rfl

lemma numbers_ends {q : Listable} {ns : Listed String} :
    (Filter.numbers q op ns).Ends s (exec (perform (Expr.filter (.numbers q op ns)).steps) s) := by
  rw [exec_keyword_steps rfl]
  rcases hread : (ns.items.mapM fun n => Bounds.readWhole n.toList) with e | ks
  · have hdraft : (Filter.numbers q op ns).draft = .error e := by simp [Filter.draft, hread]
    refine .of_error hdraft rfl [] ?_
    rw [Compiler.filter, exec_bind, exec_readWholes, hread]
    simp [Filter.leftover]
  · have hdraft : (Filter.numbers q op ns).draft =
        .ok (some [.text (q.column ++ " = ANY("), .arg (.numbers ks), .text ")"]) := by
      simp [Filter.draft, hread]
    refine .of_draft hdraft ?_
    rw [exec_numbers s hread]
    simp [State.extend, slot, String.append_assoc]

/-- Finishing a range that becomes a comparison takes its text off the stack. -/
lemma exec_range {t : String} {g : Grain} {b : Bounds} (column : String) (ordered : Bool)
    (hread : Bounds.read g t = b.values g) :
    exec (range column g ordered) ⟨t :: s.stack, s.args, s.shift⟩ =
      match rangeDraft column g ordered b with
      | .error e => (.error e, s)
      | .ok none => (.ok (), s)
      | .ok (some d) =>
        if AllWritable s.last d.args.length then (.ok (), s.extend (some d))
        else (.error .longPlaceholder, ⟨s.stack, s.args ++ d.args, s.shift⟩) := by
  rw [range, exec_bind, exec_pop_cons, andThen_ok, exec_bind, exec_ofExcept, hread, rangeDraft]
  rcases b.values g with e | ⟨lower, upper⟩
  · rfl
  · simp only [andThen_ok, ok_bind]
    generalize Option.filter (fun x => !x.isZero) lower = lower
    generalize Option.filter (fun x => !x.isZero) upper = upper
    rcases lower with _ | l <;> rcases upper with _ | u
    · rfl
    · simp only [exec_one]
      simp [State.extend, slot]
    · simp only [exec_one]
      simp [State.extend, slot]
    · by_cases hswap : (ordered && u.lt l) = true
      · simp [hswap]
      · simp only [if_neg hswap, exec_two]
        simp [State.extend, slot, String.append_assoc, Int.add_assoc]

/-- A range has left its text on the stack when its filter is finished. -/
lemma rangeFilter_ends {q : Ranged} {r : Range} (h : (Filter.range q op r).Spelled)
    (hp : (Filter.range q op r).Proper) :
    (Filter.range q op r).Ends s (exec (perform (Expr.filter (.range q op r)).steps) s) := by
  have hr : ∀ l ∈ (r.node q.grain).leaves, l.Spelled := by
    intro l hl
    apply h
    simp [Filter.node, Filter.nodes, hl]
  have hread := Bounds.read_inner hr hp
  have hexec : exec (perform (Expr.filter (.range q op r)).steps) s =
      exec (Compiler.filter (.range q op r)) ⟨r.inner q.grain :: s.stack, s.args, s.shift⟩ := by
    rw [exec_filter_steps, Filter.parts, exec_perform_cons]
    rfl
  -- the four ranges that become comparisons differ in what they hand over
  have hcompares : ∀ column g ordered, q.compares = true → q.grain = g →
      (Filter.range q op r).draft = rangeDraft column g ordered r.bounds →
      Compiler.filter (.range q op r) = range column g ordered →
      (Filter.range q op r).Ends s (exec (perform (Expr.filter (.range q op r)).steps) s) := by
    rintro column g ordered hq rfl hdraft hfilter
    have hleft : (Filter.range q op r).leftover = [] := by simp [Filter.leftover, hq]
    have hrun := exec_range s column ordered hread
    rw [hexec, hfilter]
    rcases hd : rangeDraft column q.grain ordered r.bounds with e | _ | d
    · rw [hd] at hrun hdraft
      exact .of_error hdraft rfl [] (by simp [hrun, hleft])
    · rw [hd] at hrun hdraft
      exact .compiled none hdraft (by simp [Filter.writes, Filter.args_of_draft_none hdraft]) hrun
    · rw [hd] at hrun hdraft
      exact .of_draft hdraft hrun
  cases q with
  | id | area | length | changeset => exact hcompares _ _ _ rfl rfl rfl rfl
  | perimeter =>
    refine .of_draft rfl ?_
    rw [hexec]
    simp [Compiler.filter, State.extend, Ranged.grain]
  | vertices | outers | inners =>
    refine .of_error rfl rfl [] ?_
    rw [hexec]
    simp [Compiler.filter, Filter.leftover, Ranged.compares]

end Keywords

/-- Compiling a parsed filter in any state ends in one of these ways. -/
theorem Filter.ends {f : Filter} (h : f.Spelled) (hp : f.Proper) (s : State) :
    f.Ends s (exec (perform (Expr.filter f).steps) s) := by
  cases f with
  | tag => exact tag_ends s h
  | tagAny => exact tagAny_ends s h
  | tagIn => exact tagIn_ends s h
  | tagLike => exact tagLike_ends s h
  | type => exact type_ends s
  | geometry => exact geometry_ends s
  | object => exact object_ends s h
  | objects => exact objects_ends s h
  | number => exact number_ends s
  | numbers => exact numbers_ends s
  | range => exact rangeFilter_ends s h hp

/-! ## Drafts after a number -/

/-- The draft of a filter that is compiled after the argument with the number `n`. There is none if
the number of a placeholder would be too long. -/
def Filter.draftAfter (n : Int) (f : Filter) : Except Failure (Option Draft) :=
  if AllWritable n f.writes then f.draft else .error .longPlaceholder

section Outcomes

variable {f : Filter}

lemma Filter.draftAfter_eq_ok_iff {n : Int} {o : Option Draft} :
    f.draftAfter n = .ok o ↔ f.draft = .ok o ∧ AllWritable n f.args.length := by
  unfold draftAfter
  constructor
  · intro h
    split at h
    · rename_i hwritable
      exact ⟨h, writes_of_draft h ▸ hwritable⟩
    · cases h
  · rintro ⟨hd, hwritable⟩
    rw [if_pos (writes_of_draft hd ▸ hwritable), hd]

/-- A filter that fails before any placeholder is written does so whatever their numbers. -/
lemma Filter.draftAfter_of_draft_error {e : Failure} (hd : f.draft = .error e)
    (hwrites : f.writes = f.args.length) (n : Int) : f.draftAfter n = .error e := by
  rw [args_of_draft_error hd, List.length_nil] at hwrites
  rw [draftAfter, hwrites, if_pos allWritable_zero, hd]

variable (h : f.Spelled) (hp : f.Proper) (s : State)

include h hp

lemma Filter.exec_of_draftAfter_ok {o : Option Draft} (hd : f.draftAfter s.last = .ok o) :
    exec (perform (Expr.filter f).steps) s = (.ok (), s.extend o) := by
  unfold draftAfter at hd
  rcases f.ends h hp s with
    ⟨o', hd', hwritable, hr⟩ | ⟨e, added, hd', hwritable, -, hr⟩ | ⟨added, hlong, -, hr⟩
  · rw [if_pos hwritable, hd'] at hd
    cases hd
    exact hr
  · rw [if_pos hwritable, hd'] at hd
    cases hd
  · rw [if_neg hlong] at hd
    cases hd

lemma Filter.exec_of_draftAfter_error {e : Failure} (hd : f.draftAfter s.last = .error e) :
    ∃ s', exec (perform (Expr.filter f).steps) s = (.error e, s') ∧ s.stack <:+ s'.stack := by
  unfold draftAfter at hd
  rcases f.ends h hp s with
    ⟨o, hd', hwritable, hr⟩ | ⟨e', added, hd', hwritable, -, hr⟩ | ⟨added, hlong, -, hr⟩
  · rw [if_pos hwritable, hd'] at hd
    cases hd
  · rw [if_pos hwritable, hd'] at hd
    cases hd
    exact ⟨_, hr, List.suffix_append _ _⟩
  · rw [if_neg hlong] at hd
    cases hd
    exact ⟨_, hr, List.suffix_refl _⟩

/-- A filter that has been compiled has a draft. -/
lemma Filter.draftAfter_of_exec_ok {s' : State}
    (hexec : exec (perform (Expr.filter f).steps) s = (.ok (), s')) :
    ∃ o, f.draftAfter s.last = .ok o ∧ s' = s.extend o := by
  cases hd : f.draftAfter s.last with
  | error e =>
    obtain ⟨s₁, hs₁, -⟩ := f.exec_of_draftAfter_error h hp s hd
    rw [hs₁] at hexec
    cases hexec
  | ok o =>
    rw [f.exec_of_draftAfter_ok h hp s hd] at hexec
    cases hexec
    exact ⟨o, rfl, rfl⟩

/-- A filter that has failed has no draft. -/
lemma Filter.draftAfter_of_exec_error {e : Failure} {s' : State}
    (hexec : exec (perform (Expr.filter f).steps) s = (.error e, s')) :
    f.draftAfter s.last = .error e := by
  cases hd : f.draftAfter s.last with
  | error e' =>
    obtain ⟨s₁, hs₁, -⟩ := f.exec_of_draftAfter_error h hp s hd
    rw [hs₁] at hexec
    cases hexec
    rfl
  | ok o =>
    rw [f.exec_of_draftAfter_ok h hp s hd] at hexec
    cases hexec

end Outcomes

@[simp] lemma State.shift_extend (s : State) (o : Option Draft) : (s.extend o).shift = s.shift := by
  cases o <;> rfl

lemma Filter.args_extend {f : Filter} {o : Option Draft} (hd : f.draft = .ok o) (s : State) :
    (s.extend o).args = s.args ++ f.args := by
  cases o with
  | none => simp [State.extend, args_of_draft_none hd]
  | some d => simp [State.extend, args_of_draft hd]

end MapFilter
