import MapFilter.Proofs.Realization

/-!
# The stack and the drafts

Compiling an expression with a stack pushes the text of its draft and adds the arguments of its
draft, whatever is on the stack already. Of the arguments that are there only the number of the last
one matters. If a filter in it fails, compiling stops with the failure of the first one that does,
and what was on the stack before is still there.
-/

namespace MapFilter
open Compiler

/-! ## Filters that fail and filters that vanish -/

/-- The failure of a filter that is compiled on its own, with placeholders from `n + 1` on. -/
def Filter.failure? (n : Int) (f : Filter) : Option Failure :=
  match (exec (perform (Expr.filter f).steps) (.fresh n)).1 with
  | .ok _ => none
  | .error e => some e

/-- Whether a bound is read as zero. -/
def Grain.isZero (g : Grain) (l : Lexeme) : Bool :=
  match Bounds.readNumber g l.text.toList with
  | .ok n => n.isZero
  | .error _ => false

/-- A range all of whose bounds are zero makes no condition. -/
def Filter.vanishes : Filter → Bool
  | .range s _ r => s.compares && r.bounds.written.all s.grain.isZero
  | _ => false

lemma Filter.failure?_eq {f : Filter} (h : f.Spelled) (hp : f.Proper) (n : Int) :
    f.failure? n = match f.draftAfter n with
      | .ok _ => none
      | .error e => some e := by
  unfold failure?
  rcases hd : f.draftAfter n with e | o
  · obtain ⟨s', hs', -⟩ := f.exec_of_draftAfter_error h hp (.fresh n) (by rwa [State.last_fresh])
    rw [hs']
  · rw [f.exec_of_draftAfter_ok h hp (.fresh n) (by rwa [State.last_fresh])]

/-- No bound that counts is left exactly if each bound is zero. -/
lemma Bounds.values_eq_ok {g : Grain} {b : Bounds} {lower upper : Option Number}
    (h : b.values g = .ok (lower, upper)) :
    (lower.filter (!·.isZero) = none ∧ upper.filter (!·.isZero) = none) ↔
      b.written.all g.isZero = true := by
  cases b with
  | both l d k =>
    rcases hl : readNumber g l.text.toList with e | x
    · simp [values, hl] at h
    · rcases hk : readNumber g k.text.toList with e | y
      · simp [values, hl, hk] at h
      · simp only [values, hl, hk, ok_bind, pure_eq_ok, Except.ok.injEq, Prod.mk.injEq] at h
        obtain ⟨rfl, rfl⟩ := h
        simp [written, Grain.isZero, hl, hk]
  | upTo d k =>
    rcases hk : readNumber g k.text.toList with e | y
    · simp [values, hk] at h
    · simp only [values, hk, ok_bind, pure_eq_ok, Except.ok.injEq, Prod.mk.injEq] at h
      obtain ⟨rfl, rfl⟩ := h
      simp [written, Grain.isZero, hk]
  | startingAt l d =>
    rcases hl : readNumber g l.text.toList with e | x
    · simp [values, hl] at h
    · simp only [values, hl, ok_bind, pure_eq_ok, Except.ok.injEq, Prod.mk.injEq] at h
      obtain ⟨rfl, rfl⟩ := h
      simp [written, Grain.isZero, hl]

lemma rangeDraft_eq_ok {column : String} {g : Grain} {ordered : Bool} {b : Bounds}
    {o : Option Draft} (h : rangeDraft column g ordered b = .ok o) :
    o = none ↔ b.written.all g.isZero = true := by
  unfold rangeDraft at h
  rcases hvalues : b.values g with e | ⟨lower, upper⟩
  · simp [hvalues] at h
  · rw [← Bounds.values_eq_ok hvalues]
    simp only [hvalues, ok_bind] at h
    revert h
    generalize Option.filter (fun x => !x.isZero) lower = lower
    generalize Option.filter (fun x => !x.isZero) upper = upper
    intro h
    rcases lower with _ | l <;> rcases upper with _ | u
    · cases h
      simp
    · cases h
      simp
    · cases h
      simp
    · simp only at h
      split at h <;> cases h
      simp

/-- A parsed filter that does not fail has a draft, unless it vanishes. -/
lemma Filter.draft_eq_ok {f : Filter} (hs : f.Spelled) {o : Option Draft} (h : f.draft = .ok o) :
    o = none ↔ f.vanishes = true := by
  cases f with
  | geometry op t =>
    have ht : Lexeme.Spelled ⟨.geometryType, t⟩ := by
      apply hs
      simp [Filter.node, Filter.nodes]
    have hsome : geometry? t ≠ none := by
      rcases ht.geometryType with rfl | rfl | rfl | rfl <;> decide
    cases h
    simpa [vanishes] using hsome
  | object op x =>
    obtain ⟨n, -, hn⟩ := bind_eq_ok_iff.1 h
    cases hn
    simp [vanishes]
  | objects op os =>
    obtain ⟨ds, -, hds⟩ := bind_eq_ok_iff.1 h
    cases hds
    simp [vanishes]
  | number q op digits =>
    cases q with
    | id | changeset =>
      obtain ⟨n, -, hn⟩ := bind_eq_ok_iff.1 h
      cases hn
      simp [vanishes]
    | outers | inners => cases h
  | numbers q op ns =>
    obtain ⟨ks, -, hks⟩ := bind_eq_ok_iff.1 h
    cases hks
    simp [vanishes]
  | range q op r =>
    cases q with
    | id | area | length | changeset =>
      have hnone := rangeDraft_eq_ok h
      simpa [vanishes, Ranged.compares, Ranged.grain] using hnone
    | perimeter =>
      cases h
      simp [vanishes, Ranged.compares]
    | vertices | outers | inners => cases h
  | _ =>
    cases h
    simp [vanishes]

/-! ## Expressions -/

/-- An expression and all the expressions in it. -/
def Expr.subexprs : Expr → List Expr
  | .filter f => [.filter f]
  | .group l e r => .group l e r :: e.subexprs
  | .neg op e => .neg op e :: e.subexprs
  | .join j l op r => .join j l op r :: (l.subexprs ++ r.subexprs)

/-- The arguments of the filters of an expression. -/
def Expr.args (e : Expr) : List Argument := e.filters.flatMap Filter.args

/-- The filters of an expression, each with the number of the last argument before it, which is `n`
for the first. -/
def Expr.placed : Expr → Int → List (Int × Filter)
  | .filter f, n => [(n, f)]
  | .group _ e _, n => e.placed n
  | .neg _ e, n => e.placed n
  | .join _ l _ r, n => l.placed n ++ r.placed (n + l.args.length)

/-- The filters of an expression are such as a parser gives. -/
def Expr.Genuine (e : Expr) : Prop := ∀ f ∈ e.filters, f.Spelled ∧ f.Proper

namespace Expr

lemma leaves_subset {e : Expr} {f : Filter} (hf : f ∈ e.filters) :
    f.node.leaves ⊆ e.node.leaves := by
  intro x hx
  induction e with
  | filter g =>
    have hfg : f = g := by simpa [filters] using hf
    simpa [node, hfg] using hfg ▸ hx
  | group l e r ih =>
    have hmem := ih hf
    simp [node, hmem]
  | neg op e ih =>
    have hmem := ih hf
    simp [node, hmem]
  | join j l op r ihl ihr =>
    rcases List.mem_append.1 hf with hf | hf
    · have hmem := ihl hf
      simp [node, hmem]
    · have hmem := ihr hf
      simp [node, hmem]

lemma filters_subset {e e' : Expr} (h : e' ∈ e.subexprs) : e'.filters ⊆ e.filters := by
  induction e with
  | filter g =>
    have heq : e' = filter g := by simpa [subexprs] using h
    rw [heq]
    exact List.Subset.refl _
  | group l e r ih =>
    rcases List.mem_cons.1 h with rfl | h
    · exact List.Subset.refl _
    · exact ih h
  | neg op e ih =>
    rcases List.mem_cons.1 h with rfl | h
    · exact List.Subset.refl _
    · exact ih h
  | join j l op r ihl ihr =>
    rcases List.mem_cons.1 h with rfl | h
    · exact List.Subset.refl _
    · rcases List.mem_append.1 h with h | h
      · exact List.subset_append_of_subset_left _ (ihl h)
      · exact List.subset_append_of_subset_right _ (ihr h)

lemma WellFormed.genuine {e : Expr} (h : e.WellFormed) : e.Genuine := by
  intro f hf
  refine ⟨?_, h.proper f hf⟩
  intro l hl
  exact h.spelled l (leaves_subset hf hl)

lemma Genuine.of_mem {e e' : Expr} (h : e.Genuine) (he : e' ∈ e.subexprs) : e'.Genuine := by
  intro f hf
  exact h f (filters_subset he hf)

lemma forall_filters_join {P : Filter → Prop} {j : Joint} {l r : Expr} {op : Padding} :
    (∀ f ∈ (join j l op r).filters, P f) ↔ (∀ f ∈ l.filters, P f) ∧ ∀ f ∈ r.filters, P f :=
  List.forall_mem_append

lemma genuine_join {j : Joint} {l r : Expr} {op : Padding} :
    (join j l op r).Genuine ↔ l.Genuine ∧ r.Genuine := forall_filters_join

end Expr

/-! ## Words and parentheses on the stack -/

section Words

variable (t u : String) (stack : List String) (args : List Argument) (shift : Int)

lemma exec_group_cons : exec (perform [.group]) ⟨t :: stack, args, shift⟩ =
    (.ok (), ⟨("(" ++ t ++ ")") :: stack, args, shift⟩) := rfl

lemma exec_neg_cons : exec (perform [.neg]) ⟨t :: stack, args, shift⟩ =
    (.ok (), ⟨("NOT " ++ t) :: stack, args, shift⟩) := rfl

lemma exec_join_cons (j : Joint) : exec (perform [.join j]) ⟨u :: t :: stack, args, shift⟩ =
    (.ok (), ⟨(t ++ " " ++ word j ++ " " ++ u) :: stack, args, shift⟩) := rfl

end Words

/-! ## Drafts of expressions -/

namespace Expr

variable {e : Expr}

/-- The arguments of a draft are those of the filters. -/
lemma args_of_draft {d : Draft} (hd : e.draft? = some d) : d.args = e.args := by
  induction e generalizing d with
  | filter f => simp [args, filters, Filter.args_of_draft (draft?_filter_eq_some.1 hd)]
  | group l e r ih =>
    obtain ⟨d', hd', rfl⟩ := draft?_group_eq_some.1 hd
    have hargs := ih hd'
    simpa [args, filters] using hargs
  | neg op e ih =>
    obtain ⟨d', hd', rfl⟩ := draft?_neg_eq_some.1 hd
    have hargs := ih hd'
    simpa [args, filters] using hargs
  | join j l op r ihl ihr =>
    obtain ⟨dl, dr, hdl, hdr, rfl⟩ := draft?_join_eq_some.1 hd
    have hl := ihl hdl
    have hr := ihr hdr
    simp_all [args, filters]

/-- An expression that has a draft is compiled to it, if its numbers can be written. -/
lemma exec_of_draft (hg : e.Genuine) {d : Draft} (hd : e.draft? = some d) (s : State)
    (hwritable : AllWritable s.last d.args.length) :
    exec (perform e.steps) s = (.ok (), s.extend (some d)) := by
  induction e generalizing d s with
  | filter f =>
    have hf := hg f (by simp [filters])
    have hdraft := draft?_filter_eq_some.1 hd
    rw [← Filter.args_of_draft hdraft] at hwritable
    exact f.exec_of_draftAfter_ok hf.1 hf.2 s (Filter.draftAfter_eq_ok_iff.2 ⟨hdraft, hwritable⟩)
  | group l e r ih =>
    obtain ⟨d', hd', rfl⟩ := draft?_group_eq_some.1 hd
    have he : exec (perform e.steps) s = (.ok (), s.extend (some d')) :=
      ih hg hd' s (by simpa using hwritable)
    rw [steps, exec_perform_append, he, andThen_ok, State.extend, exec_group_cons]
    simp [State.extend, Draft.number_append, String.append_assoc]
  | neg op e ih =>
    obtain ⟨d', hd', rfl⟩ := draft?_neg_eq_some.1 hd
    have he : exec (perform e.steps) s = (.ok (), s.extend (some d')) :=
      ih hg hd' s (by simpa using hwritable)
    rw [steps, exec_perform_append, he, andThen_ok, State.extend, exec_neg_cons]
    simp [State.extend]
  | join j l op r ihl ihr =>
    have hgs := genuine_join.1 hg
    obtain ⟨dl, dr, hdl, hdr, rfl⟩ := draft?_join_eq_some.1 hd
    rw [Draft.args_append, List.length_append, allWritable_add] at hwritable
    have hl : exec (perform l.steps) s = (.ok (), s.extend (some dl)) := ihl hgs.1 hdl s hwritable.1
    have hr := ihr hgs.2 hdr (s.extend (some dl)) (by simpa [State.extend] using hwritable.2)
    rw [steps, exec_perform_append, exec_perform_append, hl, andThen_ok, hr, andThen_ok]
    simp only [State.extend]
    rw [exec_join_cons]
    simp [Draft.number_append, String.append_assoc]

/-- If one of its numbers is too long, an expression that has a draft fails all the same. -/
lemma exec_of_draft_long (hg : e.Genuine) {d : Draft} (hd : e.draft? = some d) (s : State)
    (hlong : ¬AllWritable s.last d.args.length) :
    ∃ s', exec (perform e.steps) s = (.error .longPlaceholder, s') := by
  induction e generalizing d s with
  | filter f =>
    have hf := hg f (by simp [filters])
    have hdraft := draft?_filter_eq_some.1 hd
    have hafter : f.draftAfter s.last = .error .longPlaceholder := by
      rw [Filter.draftAfter, Filter.writes_of_draft hdraft, Filter.args_of_draft hdraft,
        if_neg hlong]
    obtain ⟨s', hs', -⟩ := f.exec_of_draftAfter_error hf.1 hf.2 s hafter
    exact ⟨s', hs'⟩
  | group l e r ih =>
    obtain ⟨d', hd', rfl⟩ := draft?_group_eq_some.1 hd
    obtain ⟨s', hs'⟩ := ih hg hd' s (by simpa using hlong)
    exact ⟨s', by rw [steps, exec_perform_append, hs', andThen_error]⟩
  | neg op e ih =>
    obtain ⟨d', hd', rfl⟩ := draft?_neg_eq_some.1 hd
    obtain ⟨s', hs'⟩ := ih hg hd' s (by simpa using hlong)
    exact ⟨s', by rw [steps, exec_perform_append, hs', andThen_error]⟩
  | join j l op r ihl ihr =>
    have hgs := genuine_join.1 hg
    obtain ⟨dl, dr, hdl, hdr, rfl⟩ := draft?_join_eq_some.1 hd
    rw [Draft.args_append, List.length_append, allWritable_add] at hlong
    rw [steps, exec_perform_append, exec_perform_append]
    by_cases hleft : AllWritable s.last dl.args.length
    · have hright : ¬AllWritable (s.extend (some dl)).last dr.args.length := by
        simpa [State.extend, hleft] using hlong
      obtain ⟨s', hs'⟩ := ihr hgs.2 hdr _ hright
      exact ⟨s', by rw [exec_of_draft hgs.1 hdl s hleft, andThen_ok, hs', andThen_error]⟩
    · obtain ⟨s', hs'⟩ := ihl hgs.1 hdl s hleft
      exact ⟨s', by rw [hs', andThen_error, andThen_error]⟩

/-- If no filter of an expression fails where it stands and none vanishes, then the expression has a
draft, and the numbers of the draft can be written. -/
lemma exists_draft (hg : e.Genuine) {n : Int} (hzero : ∀ f ∈ e.filters, f.vanishes = false)
    (hfail : ∀ x ∈ e.placed n, x.2.failure? x.1 = none) :
    ∃ d, e.draft? = some d ∧ AllWritable n d.args.length := by
  induction e generalizing n with
  | filter f =>
    have hf := hg f (by simp [filters])
    have hnone : f.failure? n = none := hfail (n, f) (by simp [placed])
    have hstays := hzero f (by simp [filters])
    rw [Filter.failure?_eq hf.1 hf.2] at hnone
    rcases hd : f.draftAfter n with x | o
    · simp [hd] at hnone
    · obtain ⟨hdraft, hwritable⟩ := Filter.draftAfter_eq_ok_iff.1 hd
      cases o with
      | none =>
        have hvanishes := (Filter.draft_eq_ok hf.1 hdraft).1 rfl
        simp [hvanishes] at hstays
      | some d => exact ⟨d, draft?_filter_eq_some.2 hdraft, Filter.args_of_draft hdraft ▸ hwritable⟩
  | group l e r ih =>
    obtain ⟨d, hd, hwritable⟩ := ih hg hzero hfail
    exact ⟨_, draft?_group_eq_some.2 ⟨d, hd, rfl⟩, by simpa using hwritable⟩
  | neg op e ih =>
    obtain ⟨d, hd, hwritable⟩ := ih hg hzero hfail
    exact ⟨_, draft?_neg_eq_some.2 ⟨d, hd, rfl⟩, by simpa using hwritable⟩
  | join j l op r ihl ihr =>
    rw [forall_filters_join] at hzero
    have hgs := genuine_join.1 hg
    have hfails := List.forall_mem_append.1 hfail
    obtain ⟨dl, hdl, hwritablel⟩ := ihl hgs.1 hzero.1 hfails.1
    obtain ⟨dr, hdr, hwritabler⟩ := ihr hgs.2 hzero.2 hfails.2
    refine ⟨_, draft?_join_eq_some.2 ⟨dl, dr, hdl, hdr, rfl⟩, ?_⟩
    rw [Draft.args_append, List.length_append, allWritable_add]
    exact ⟨hwritablel, args_of_draft hdl ▸ hwritabler⟩

/-- The first filter that fails stops the compiler. -/
lemma exec_of_failure (hg : e.Genuine) (hzero : ∀ f ∈ e.filters, f.vanishes = false)
    {failure : Failure} (s : State)
    (hfail : (e.placed s.last).findSome? (fun x => x.2.failure? x.1) = some failure) :
    ∃ s', exec (perform e.steps) s = (.error failure, s') ∧ s.stack <:+ s'.stack := by
  induction e generalizing s with
  | filter f =>
    have hf := hg f (by simp [filters])
    have hfailure : f.failure? s.last = some failure := by simpa [placed] using hfail
    rw [Filter.failure?_eq hf.1 hf.2] at hfailure
    rcases hd : f.draftAfter s.last with x | o
    · have hx : x = failure := by simpa [hd] using hfailure
      exact f.exec_of_draftAfter_error hf.1 hf.2 s (hx ▸ hd)
    · simp [hd] at hfailure
  | group l e r ih =>
    obtain ⟨s', hs', hstack⟩ := ih hg hzero s hfail
    refine ⟨s', ?_, hstack⟩
    rw [steps, exec_perform_append, hs', andThen_error]
  | neg op e ih =>
    obtain ⟨s', hs', hstack⟩ := ih hg hzero s hfail
    refine ⟨s', ?_, hstack⟩
    rw [steps, exec_perform_append, hs', andThen_error]
  | join j l op r ihl ihr =>
    rw [forall_filters_join] at hzero
    have hgs := genuine_join.1 hg
    rw [placed, List.findSome?_append] at hfail
    rw [steps, exec_perform_append, exec_perform_append]
    cases hl : (l.placed s.last).findSome? fun x => x.2.failure? x.1 with
    | some x =>
      have hx : x = failure := by simpa [hl] using hfail
      obtain ⟨s', hs', hstack⟩ := ihl hgs.1 hzero.1 s (hx ▸ hl)
      exact ⟨s', by rw [hs', andThen_error, andThen_error], hstack⟩
    | none =>
      -- The left operand is compiled, and the right one starts from there.
      obtain ⟨d, hd, hwritable⟩ := exists_draft hgs.1 hzero.1 (List.findSome?_eq_none_iff.1 hl)
      have hlast : (s.extend (some d)).last = s.last + l.args.length := by
        rw [State.extend, State.last_add, args_of_draft hd]
      have hr : (r.placed (s.extend (some d)).last).findSome? (fun x => x.2.failure? x.1) =
          some failure := by simpa [hl, hlast] using hfail
      obtain ⟨s', hs', hstack⟩ := ihr hgs.2 hzero.2 (s.extend (some d)) hr
      refine ⟨s', ?_, (List.suffix_cons _ _).trans hstack⟩
      rw [exec_of_draft hgs.1 hd s hwritable, andThen_ok, hs', andThen_error]

end Expr

/-- Wherever an expression of a parsed filter is compiled, and whatever the state, its draft is
pushed as one condition and the arguments of its draft are added, unless a filter in it fails. Then
the failure is that of the first filter that fails on its own after as many arguments as come before
it, and no condition that was there before is lost. Ranges in which every bound is zero are left
out. -/
theorem exec_refines_draft {text : String} {root e : Expr} (hparse : parse text = .ok (.expr root))
    (he : e ∈ root.subexprs) (hzero : ∀ f ∈ e.filters, f.vanishes = false) (s : State) :
    ((∀ x ∈ e.placed (s.shift + s.args.length), x.2.failure? x.1 = none) → ∃ d, e.draft? = some d ∧
      exec (perform e.steps) s =
        (.ok (), ⟨d.number (s.shift + s.args.length) :: s.stack, s.args ++ d.args, s.shift⟩)) ∧
    (∀ failure, (e.placed (s.shift + s.args.length)).findSome? (fun x => x.2.failure? x.1) =
        some failure →
      ∃ s', exec (perform e.steps) s = (.error failure, s') ∧ s.stack <:+ s'.stack) := by
  have hg : e.Genuine := (parse_wellFormed hparse).genuine.of_mem he
  have hlast : s.shift + s.args.length = s.last := Int.add_comm _ _
  rw [hlast]
  constructor
  · intro hfail
    obtain ⟨d, hd, hwritable⟩ := Expr.exists_draft hg hzero hfail
    exact ⟨d, hd, Expr.exec_of_draft hg hd s hwritable⟩
  · intro failure hfail
    exact Expr.exec_of_failure hg hzero s hfail

/-- The left operand is compiled after what is there already; the right one ends before it begins. -/
theorem exec_refines_draft_swapped :
    ∃ root left : Expr, parse "(type:way) and id:(7..2)" = .ok (.expr root) ∧
      left ∈ root.subexprs ∧
      exec (perform left.steps) ⟨["a"], [.text "b"], 3⟩ =
        (.ok (), ⟨["(osm_type = $5)", "a"], [.text "b", .text "way"], 3⟩) ∧
      ∃ s', exec (perform root.steps) ⟨["a"], [.text "b"], 3⟩ =
        (.error (.swappedBounds (.whole 7) (.whole 2)), s') ∧ ["a"] <:+ s'.stack := by
  let left : Expr := .group ⟨none, none⟩ (.filter (.type ⟨none, none⟩ "way")) ⟨none, some " "⟩
  let right : Expr := .filter (.range .id ⟨none, none⟩
    ⟨⟨none, none⟩, .both ⟨.number, "7"⟩ ⟨none, none⟩ ⟨.number, "2"⟩, ⟨none, none⟩⟩)
  let root : Expr := .join .conj left ⟨none, some " "⟩ right
  have hparse : parse "(type:way) and id:(7..2)" = .ok (.expr root) := by decide +kernel
  have hleft : left ∈ root.subexprs := by decide +kernel
  have hroot : root ∈ root.subexprs := by decide +kernel
  refine ⟨root, left, hparse, hleft, ?_, ?_⟩
  · obtain ⟨d, hd, hexec⟩ := (exec_refines_draft hparse hleft (by decide +kernel)
      ⟨["a"], [.text "b"], 3⟩).1 (by decide +kernel)
    have hdraft : d = [.text "(", .text "osm_type = ", .arg (.text "way"), .text ")"] := by
      have hsome : left.draft? = some [.text "(", .text "osm_type = ", .arg (.text "way"),
        .text ")"] := by decide +kernel
      rw [hd] at hsome
      exact Option.some.inj hsome
    rw [hexec, hdraft]
    decide +kernel
  · exact (exec_refines_draft hparse hroot (by decide +kernel) ⟨["a"], [.text "b"], 3⟩).2 _
      (by decide +kernel)

end MapFilter
