import MapFilter.Proofs.Height
import MapFilter.Proofs.Meaning
import Mathlib.Data.List.Forall2

/-!
# Texts do not get into queries

The texts of tag filters are passed as arguments and nowhere else. So if two filters differ only in
such texts, compiling them ends in the same way, and with the same query: only arguments that tag
filters have added can be different.
-/

namespace MapFilter

open Compiler

/-! ## Trees without their texts -/

/-- A text that stands for any other. -/
def Text.mask : Text := .number "0"

def Listed.masked (l : Listed Text) : Listed Text :=
  ⟨l.left, .mask, l.more.map fun x => (x.1, .mask), l.right⟩

def Filter.masked : Filter → Filter
  | .tag c _ op _ => .tag c .mask op .mask
  | .tagAny c _ op => .tagAny c .mask op
  | .tagIn _ op values => .tagIn .mask op values.masked
  | .tagLike _ op pattern => .tagLike .mask op ⟨pattern.leading, .mask, pattern.trailing⟩
  | f => f

def Expr.masked : Expr → Expr
  | .filter f => .filter f.masked
  | .group left e right => .group left e.masked right
  | .neg op e => .neg op e.masked
  | .join j l op r => .join j l.masked op r.masked

/-- A tree in which all texts are replaced by the same one. Two trees are equal but for their texts if
they are equal after that. -/
def Tree.masked : Tree → Tree
  | .everything => .everything
  | .expr e => .expr e.masked

/-- The forms of filters on tags. -/
def Form.isTag : Form → Bool
  | .tag _ | .tagAny _ | .tagIn | .tagLike => true
  | _ => false

namespace Filter

variable {f g : Filter}

lemma form_masked (f : Filter) : f.masked.form = f.form := by cases f <;> rfl

lemma masked_of_not_isTag (h : f.form.isTag = false) : f.masked = f := by
  cases f with
  | tag | tagAny | tagIn | tagLike => cases h
  | _ => rfl

lemma form_eq_of_masked_eq (h : f.masked = g.masked) : f.form = g.form := by
  rw [← form_masked f, h, form_masked]

lemma eq_of_masked_eq (h : f.masked = g.masked) (hf : f.form.isTag = false) : f = g := by
  have hg : g.form.isTag = false := by rw [← form_eq_of_masked_eq h, hf]
  rw [← masked_of_not_isTag hf, h, masked_of_not_isTag hg]

end Filter

lemma Expr.filters_masked (e : Expr) : e.masked.filters = e.filters.map Filter.masked := by
  induction e with
  | filter f => rfl
  | group left e right ih => exact ih
  | neg op e ih => exact ih
  | join j l op r ihl ihr => simp [masked, filters, ihl, ihr]

lemma Expr.forall₂_filters {e e' : Expr} (h : e.masked = e'.masked) :
    e.filters.Forall₂ (fun f g => f.masked = g.masked) e'.filters := by
  have hmap : e.filters.map Filter.masked = e'.filters.map Filter.masked := by
    rw [← e.filters_masked, h, e'.filters_masked]
  rw [← List.forall₂_eq_eq_eq, List.forall₂_map_left_iff, List.forall₂_map_right_iff] at hmap
  exact hmap

/-! ## Drafts without their arguments -/

/-- The text of a segment that is no argument. -/
def Segment.text? : Segment → Option String
  | .text s => some s
  | .arg _ => none

/-- A draft with gaps for its arguments. -/
def Draft.outline (d : Draft) : List (Option String) := d.map Segment.text?

/-- What is put in the gaps is not seen in the text. -/
lemma Draft.number_eq_of_outline_eq {d d' : Draft} (h : d.outline = d'.outline) (n : Int) :
    d.number n = d'.number n := by
  induction d generalizing d' n with
  | nil =>
    obtain rfl : d' = [] := by simpa [outline] using h.symm
    rfl
  | cons x d ih =>
    cases d' with
    | nil => simp [outline] at h
    | cons y d' =>
      obtain ⟨hxy, hrest⟩ : x.text? = y.text? ∧ outline d = outline d' := by simpa [outline] using h
      cases x with
      | text s =>
        cases y with
        | text t =>
          cases hxy
          rw [number_text, number_text, ih hrest]
        | arg b => cases hxy
      | arg a =>
        cases y with
        | text t => cases hxy
        | arg b => rw [number_arg, number_arg, ih hrest]

lemma Draft.length_args (d : Draft) : d.args.length = d.outline.count none := by
  induction d with
  | nil => rfl
  | cons x d ih => cases x <;> simpa [outline, Segment.text?] using ih

/-- The outline of a filter, if it has a draft. -/
def Filter.outline (f : Filter) : Except Failure (Option (List (Option String))) :=
  f.draft.map (Option.map Draft.outline)

lemma Filter.outline_masked (f : Filter) : f.masked.outline = f.outline := by
  cases f with
  | tag | tagAny | tagIn | tagLike =>
    simp [masked, outline, draft, Except.map, Draft.outline, Segment.text?]
  | _ => rw [masked_of_not_isTag rfl]

lemma Filter.length_args (f : Filter) :
    f.args.length = (f.outline.toOption.join.map (List.count none)).getD 0 := by
  rcases hd : f.draft with _ | _ | d <;>
    simp [args, outline, hd, Except.map, Except.toOption, Draft.length_args]

lemma Filter.length_args_masked (f : Filter) : f.masked.args.length = f.args.length := by
  rw [length_args, length_args, outline_masked]

lemma Filter.writes_masked (f : Filter) : f.masked.writes = f.writes := by
  cases f with
  | tag | tagAny | tagIn | tagLike => exact length_args_masked _
  | _ => rw [masked_of_not_isTag rfl]

lemma Expr.length_args_masked (e : Expr) : e.masked.args.length = e.args.length := by
  simp only [args, filters_masked, List.length_flatMap, List.map_map, Function.comp_def,
    Filter.length_args_masked]

namespace Expr

/-- The outline of an expression, if it has a draft. -/
def outline? (e : Expr) : Option (List (Option String)) := e.draft?.map Draft.outline

lemma outline?_filter (f : Filter) : (filter f).outline? = f.outline.toOption.join := by
  rcases hd : f.draft with _ | _ | d <;>
    simp [outline?, draft?, Filter.outline, hd, Except.map, Except.toOption]

lemma height_filter (f : Filter) (last : Int) (n : Nat) :
    (filter f).height last n =
      if AllWritable last f.writes then f.outline.map fun o => n + o.toList.length
      else .error .longPlaceholder := by
  rw [height, Filter.draftAfter]
  split_ifs
  · rcases hd : f.draft with _ | _ | d <;> simp [Filter.outline, hd, Except.map]
  · rfl

lemma outline?_group (left right : Padding) (e : Expr) : (group left e right).outline? =
    e.outline?.map fun o => some "(" :: (o ++ [some ")"]) := by
  rcases hd : e.draft? with _ | d <;> simp [outline?, draft?, hd, Draft.outline, Segment.text?]

lemma outline?_neg (op : Padding) (e : Expr) :
    (neg op e).outline? = e.outline?.map fun o => some "NOT " :: o := by
  rcases hd : e.draft? with _ | d <;> simp [outline?, draft?, hd, Draft.outline, Segment.text?]

lemma outline?_join (j : Joint) (l r : Expr) (op : Padding) : (join j l op r).outline? =
    l.outline?.bind fun o => r.outline?.map fun o' => o ++ some (" " ++ word j ++ " ") :: o' := by
  rcases hl : l.draft? with _ | d <;> rcases hr : r.draft? with _ | d' <;>
    simp [outline?, draft?, hl, hr, Draft.outline, Segment.text?]

lemma outline?_masked (e : Expr) : e.masked.outline? = e.outline? := by
  induction e with
  | filter f => rw [masked, outline?_filter, outline?_filter, f.outline_masked]
  | group left e right ih => rw [masked, outline?_group, outline?_group, ih]
  | neg op e ih => rw [masked, outline?_neg, outline?_neg, ih]
  | join j l op r ihl ihr => rw [masked, outline?_join, outline?_join, ihl, ihr]

lemma height_masked (e : Expr) (last : Int) (n : Nat) :
    e.masked.height last n = e.height last n := by
  induction e generalizing last n with
  | filter f => rw [masked, height_filter, height_filter, f.outline_masked, f.writes_masked]
  | group left e right ih => rw [masked, height, height, ih]
  | neg op e ih => rw [masked, height, height, ih]
  | join j l op r ihl ihr =>
    have hr : ∀ last, r.masked.height last = r.height last := fun last => funext (ihr last)
    rw [masked, height, height, ihl, hr, l.length_args_masked]

end Expr

/-! ## Where arguments come from -/

/-- The rules of the steps that have added arguments after the first `n`, one for each argument. -/
def sourcesAfter : Nat → List (Step × State) → List Rule
  | _, [] => []
  | n, x :: done => List.replicate (x.2.args.length - n) x.1.rule ++ sourcesAfter x.2.args.length done

/-- The rules by which the arguments have been added in a run, one for each argument. -/
def sources (steps : List Step) (s : State) : List Rule :=
  sourcesAfter s.args.length (walk steps s).done

lemma sources_cons {step : Step} {s s' : State} (h : exec step.perform s = (.ok (), s'))
    (steps : List Step) : sources (step :: steps) s =
      List.replicate (s'.args.length - s.args.length) step.rule ++ sources steps s' := by
  rw [sources, walk_cons_of_ok h, sourcesAfter]
  rfl

lemma sources_append {as : List Step} {s s' : State} (h : exec (perform as) s = (.ok (), s'))
    (bs : List Step) : sources (as ++ bs) s = sources as s ++ sources bs s' := by
  induction as generalizing s with
  | nil =>
    cases h
    rfl
  | cons step as ih =>
    rw [exec_perform_cons] at h
    obtain ⟨_, s₁, hstep, hrest⟩ := andThen_eq_ok_iff.1 h
    rw [List.cons_append, sources_cons hstep, sources_cons hstep, ih hrest, List.append_assoc]

lemma exec_value_snd (t : Text) (s : State) : (exec (value t) s).2 = s := by
  have hunescape : ∀ q, (exec (unescape q) s).2 = s := by
    intro q
    rw [unescape]
    cases Quoted.unescape? q <;> rfl
  cases t with
  | quoted q => exact hunescape q
  | number q => exact hunescape q
  | words w more =>
    cases more with
    | nil => exact hunescape w.text
    | cons o more => rfl

/-- Only a step that finishes a filter adds arguments. -/
lemma Step.args_of_exec {step : Step} (hstep : ∀ f, step ≠ .filter f) {s s' : State}
    (h : exec step.perform s = (.ok (), s')) : s'.args = s.args := by
  cases step with
  | filter f => exact absurd rfl (hstep f)
  | text t =>
    rw [perform, exec_bind] at h
    obtain ⟨v, s₁, hvalue, hpush⟩ := andThen_eq_ok_iff.1 h
    have hs₁ : s₁ = s := by
      have hsnd := exec_value_snd t s
      rwa [hvalue] at hsnd
    cases hpush
    rw [hs₁]
  | range g r | single | root =>
    cases h
    rfl
  | group | neg =>
    obtain ⟨stack, args, shift⟩ := s
    cases stack <;> cases h
    rfl
  | join j =>
    obtain ⟨_ | ⟨u, _ | ⟨t, stack⟩⟩, args, shift⟩ := s
    · cases h
    · cases h
    · cases h
      rfl

lemma sources_of_no_filter {steps : List Step} (hsteps : ∀ f, .filter f ∉ steps) {s s' : State}
    (h : exec (perform steps) s = (.ok (), s')) : sources steps s = [] ∧ s'.args = s.args := by
  induction steps generalizing s with
  | nil =>
    cases h
    exact ⟨rfl, rfl⟩
  | cons step steps ih =>
    rw [exec_perform_cons] at h
    obtain ⟨_, s₁, hstep, hrest⟩ := andThen_eq_ok_iff.1 h
    have hargs : s₁.args = s.args :=
      Step.args_of_exec (fun f hf => hsteps f (hf ▸ List.mem_cons_self)) hstep
    obtain ⟨hsources, hlater⟩ := ih (fun f hf => hsteps f (List.mem_cons_of_mem _ hf)) hrest
    rw [sources_cons hstep, hsources, hargs]
    exact ⟨by simp, hlater.trans hargs⟩

/-- The rule of a filter, once for each of its arguments. -/
def Filter.sources (f : Filter) : List Rule := List.replicate f.args.length (.filter f.form)

lemma Filter.sources_of_exec {f : Filter} (hs : f.Spelled) (hp : f.Proper) {s s' : State}
    (h : exec (perform (Expr.filter f).steps) s = (.ok (), s')) :
    MapFilter.sources (Expr.filter f).steps s = f.sources := by
  have hargs : s'.args = s.args ++ f.args := by
    obtain ⟨o, hd, rfl⟩ := f.draftAfter_of_exec_ok hs hp s h
    exact Filter.args_extend (Filter.draftAfter_eq_ok_iff.1 hd).1 s
  rw [Expr.steps, exec_perform_append] at h
  obtain ⟨_, s₁, hparts, hrest⟩ := andThen_eq_ok_iff.1 h
  rw [exec_perform_cons] at hrest
  obtain ⟨_, s₂, hfilter, hsingle⟩ := andThen_eq_ok_iff.1 hrest
  obtain ⟨hnone, hs₁⟩ := sources_of_no_filter f.not_mem_parts hparts
  obtain ⟨hlast, hs₂⟩ := sources_of_no_filter (by simp) hsingle
  rw [Expr.steps, sources_append hparts, hnone, sources_cons hfilter, hlast, hs₁, ← hs₂, hargs,
    Filter.sources]
  simp [Step.rule]

/-- Arguments are added filter by filter, from left to right. -/
theorem Expr.sources_of_exec {e : Expr} (hg : e.Genuine) {s s' : State}
    (h : exec (perform e.steps) s = (.ok (), s')) :
    sources e.steps s = e.filters.flatMap Filter.sources := by
  induction e generalizing s s' with
  | filter f =>
    have hf := hg f (by simp [filters])
    simpa [filters] using f.sources_of_exec hf.1 hf.2 h
  | group left e right ih | neg op e ih =>
    rw [steps, exec_perform_append] at h
    obtain ⟨_, s₁, he, hstep⟩ := andThen_eq_ok_iff.1 h
    obtain ⟨hlast, -⟩ := sources_of_no_filter (by simp) hstep
    rw [steps, sources_append he, hlast, List.append_nil]
    exact ih hg he
  | join j l op r ihl ihr =>
    have hgs := genuine_join.1 hg
    rw [steps, exec_perform_append] at h
    obtain ⟨_, s₁, hlr, hstep⟩ := andThen_eq_ok_iff.1 h
    have hboth := hlr
    rw [exec_perform_append] at hlr
    obtain ⟨_, s₂, hl, hr⟩ := andThen_eq_ok_iff.1 hlr
    obtain ⟨hlast, -⟩ := sources_of_no_filter (by simp) hstep
    rw [steps, sources_append hboth, hlast, sources_append hl, ihl hgs.1 hl, ihr hgs.2 hr]
    simp [filters]

/-! ## Filters that differ in their texts -/

lemma Filter.sources_eq_of_masked_eq {f g : Filter} (h : f.masked = g.masked) :
    f.sources = g.sources := by
  rw [sources, sources, ← f.length_args_masked, h, g.length_args_masked, form_eq_of_masked_eq h]

section Comparison

variable {fs gs : List Filter} (h : fs.Forall₂ (fun f g => f.masked = g.masked) gs)

include h

lemma sources_eq_of_masked_eq : fs.flatMap Filter.sources = gs.flatMap Filter.sources := by
  induction h with
  | nil => rfl
  | cons hfg _ ih =>
    rw [List.flatMap_cons, List.flatMap_cons, Filter.sources_eq_of_masked_eq hfg, ih]

/-- Arguments that are different have been added by filters on tags. -/
lemma isTag_of_args_ne {i : Nat}
    (hi : (fs.flatMap Filter.args)[i]? ≠ (gs.flatMap Filter.args)[i]?) :
    ∃ form : Form, (fs.flatMap Filter.sources)[i]? = some (.filter form) ∧ form.isTag = true := by
  induction h generalizing i with
  | nil => exact absurd rfl hi
  | @cons f g fs gs hfg _ ih =>
    have hlen : g.args.length = f.args.length := by
      rw [← g.length_args_masked, ← hfg, f.length_args_masked]
    simp only [List.flatMap_cons] at hi ⊢
    by_cases hlt : i < f.args.length
    · have htag : f.form.isTag = true := by
        by_contra hnot
        obtain rfl := Filter.eq_of_masked_eq hfg (by simpa using hnot)
        rw [List.getElem?_append_left hlt, List.getElem?_append_left hlt] at hi
        exact hi rfl
      refine ⟨f.form, ?_, htag⟩
      rw [List.getElem?_append_left (by simpa [Filter.sources] using hlt), Filter.sources,
        List.getElem?_replicate, if_pos hlt]
    · rw [List.getElem?_append_right (by omega), List.getElem?_append_right (by omega), hlen] at hi
      obtain ⟨form, hform, htag⟩ := ih hi
      refine ⟨form, ?_, htag⟩
      rw [List.getElem?_append_right (by simp [Filter.sources]; omega)]
      simpa [Filter.sources] using hform

end Comparison

lemma length_sources (fs : List Filter) :
    (fs.flatMap Filter.sources).length = (fs.flatMap Filter.args).length := by
  induction fs with
  | nil => rfl
  | cons f fs ih => simp only [List.flatMap_cons, List.length_append, ih, Filter.sources,
      List.length_replicate]

/-! ## Whole texts -/

section Texts

variable {f g : String} {e e' : Expr} (hf : parse f = .ok (.expr e)) {shift : Int} {s s' : State}

section One

include hf

lemma exec_of_compile (h : (State.fresh shift).compile f = (.ok (), s)) :
    exec (perform e.steps) (.fresh shift) = (.ok (), s) := by
  rw [compile_eq hf] at h
  rcases hrun : exec (perform e.steps) (.fresh shift) with ⟨x | _, s₁⟩
  · rw [hrun] at h
    cases h
  · rw [hrun] at h
    cases h
    rfl

/-- The arguments of a text and where they come from. -/
lemma sources_of_compile (h : (State.fresh shift).compile f = (.ok (), s)) :
    sources (Tree.expr e).steps (.fresh shift) = e.filters.flatMap Filter.sources ∧
      s.args = e.filters.flatMap Filter.args := by
  have hexec := exec_of_compile hf h
  have hsources := Expr.sources_of_exec (parse_wellFormed hf).genuine hexec
  obtain ⟨-, hargs, -⟩ := Expr.of_exec_ok (parse_wellFormed hf).genuine hexec
  have hroot : sources [.root] s = [] := (sources_of_no_filter (by simp) rfl).1
  rw [Tree.steps, sources_append hexec, hroot, List.append_nil]
  exact ⟨hsources, hargs⟩

end One

variable (hg : parse g = .ok (.expr e')) (h : e.masked = e'.masked)

include hf hg h

lemma compile_fst_eq (shift : Int) :
    ((State.fresh shift).compile f).1 = ((State.fresh shift).compile g).1 := by
  have hheight : e.height shift 0 = e'.height shift 0 := by
    rw [← e.height_masked, h, e'.height_masked]
  have hiff : ∀ x, ((State.fresh shift).compile f).1 = .error x ↔
      ((State.fresh shift).compile g).1 = .error x := by
    intro x
    rw [compile_eq_error_iff hf, compile_eq_error_iff hg, hheight]
  rcases hcf : ((State.fresh shift).compile f).1 with x | _
  · exact ((hiff x).1 hcf).symm
  · rcases hcg : ((State.fresh shift).compile g).1 with y | _
    · rw [(hiff y).2 hcg] at hcf
      cases hcf
    · rfl

lemma query_eq_of_masked_eq (hs : (State.fresh shift).compile f = (.ok (), s))
    (hs' : (State.fresh shift).compile g = (.ok (), s')) : s.query = s'.query := by
  have houtline : e.draft?.map Draft.outline = e'.draft?.map Draft.outline := by
    change e.outline? = e'.outline?
    rw [← e.outline?_masked, h, e'.outline?_masked]
  have hq := query_eq_elim hf ((query_eq_ok_iff hf shift).2 ⟨s, hs, rfl⟩)
  have hq' := query_eq_elim hg ((query_eq_ok_iff hg shift).2 ⟨s', hs', rfl⟩)
  rcases hd : e.draft? with _ | d <;> rcases hd' : e'.draft? with _ | d' <;>
    rw [hd] at houtline hq <;> rw [hd'] at houtline hq'
  · exact (congrArg Query.text hq).trans (congrArg Query.text hq').symm
  · cases houtline
  · cases houtline
  · have hnumber := Draft.number_eq_of_outline_eq (Option.some.inj houtline) shift
    exact ((congrArg Query.text hq).trans hnumber).trans (congrArg Query.text hq').symm

end Texts

/-- Compiling texts whose trees are equal but for the texts of tag filters ends in the same way. If it
succeeds, the queries are equal, there are as many arguments, they have been added by the same rules,
and only those that have been added by tag filters can be different. -/
theorem compile_of_masked_eq {f g : String} {t u : Tree} (hf : parse f = .ok t) (hg : parse g = .ok u)
    (h : t.masked = u.masked) (shift : Int) :
    ((State.fresh shift).compile f).1 = ((State.fresh shift).compile g).1 ∧
      ∀ s s', (State.fresh shift).compile f = (.ok (), s) →
        (State.fresh shift).compile g = (.ok (), s') →
        s.query = s'.query ∧ s.args.length = s'.args.length ∧
          sources t.steps (.fresh shift) = sources u.steps (.fresh shift) ∧
          (sources t.steps (.fresh shift)).length = s.args.length ∧
          ∀ i : Nat, s.args[i]? ≠ s'.args[i]? → ∃ form : Form,
            (sources t.steps (.fresh shift))[i]? = some (.filter form) ∧ form.isTag = true := by
  cases t with
  | everything =>
    cases u with
    | expr e' => cases h
    | everything =>
      obtain rfl : f = g := by
        rw [parse_eq_everything_iff.1 hf, parse_eq_everything_iff.1 hg]
      have hcompile : (State.fresh shift).compile f = (.ok (), .fresh shift) := by
        rw [State.compile, hf]
        rfl
      refine ⟨rfl, ?_⟩
      intro s s' hs hs'
      rw [hcompile] at hs hs'
      cases hs
      cases hs'
      exact ⟨rfl, rfl, rfl, rfl, fun i hi => absurd rfl hi⟩
  | expr e =>
    cases u with
    | everything => cases h
    | expr e' =>
      have hmasked : e.masked = e'.masked := Tree.expr.inj h
      have hfilters := Expr.forall₂_filters hmasked
      refine ⟨compile_fst_eq hf hg hmasked shift, ?_⟩
      intro s s' hs hs'
      obtain ⟨hsources, hargs⟩ := sources_of_compile hf hs
      obtain ⟨hsources', hargs'⟩ := sources_of_compile hg hs'
      have hsame := sources_eq_of_masked_eq hfilters
      refine ⟨query_eq_of_masked_eq hf hg hmasked hs hs', ?_, ?_, ?_, ?_⟩
      · rw [hargs, hargs', ← length_sources, ← length_sources, hsame]
      · rw [hsources, hsources', hsame]
      · rw [hsources, hargs, length_sources]
      · intro i hi
        rw [hargs, hargs'] at hi
        rw [hsources]
        exact isTag_of_args_ne hfilters hi

/-- A text that looks like a part of a query is an argument like any other. -/
theorem compile_of_masked_eq_hostile :
    ∃ s s', (State.fresh 0).compile "name=\"x') OR (1=1\" and type:way" = (.ok (), s) ∧
      (State.fresh 0).compile "highway=path and type:way" = (.ok (), s') ∧
      s.query = "tags @> $1 AND osm_type = $2" ∧ s.query = s'.query := by
  let tree (key value : Text) : Tree := .expr (.join .conj (.filter (.tag .equal key ⟨none, none⟩ value))
    ⟨some " ", some " "⟩ (.filter (.type ⟨none, none⟩ "way")))
  have hf : parse "name=\"x') OR (1=1\" and type:way" =
      .ok (tree (.words ⟨.word, "name"⟩ []) (.quoted "\"x') OR (1=1\"")) := by decide +kernel
  have hg : parse "highway=path and type:way" =
      .ok (tree (.words ⟨.word, "highway"⟩ []) (.words ⟨.word, "path"⟩ [])) := by decide +kernel
  have hs : (State.fresh 0).compile "name=\"x') OR (1=1\" and type:way" =
      (.ok (), ⟨["tags @> $1 AND osm_type = $2"],
        [.text (Json.member "name" "x') OR (1=1"), .text "way"], 0⟩) := by decide +kernel
  have hs' : (State.fresh 0).compile "highway=path and type:way" =
      (.ok (), ⟨["tags @> $1 AND osm_type = $2"],
        [.text (Json.member "highway" "path"), .text "way"], 0⟩) := by decide +kernel
  exact ⟨_, _, hs, hs', rfl, ((compile_of_masked_eq hf hg rfl 0).2 _ _ hs hs').1⟩

end MapFilter
