import MapFilter.Proofs.Outcome
import MapFilter.Proofs.Reading

/-!
# What a query means

The compiler puts no parentheses of its own round the operands of `NOT`, `AND` and `OR`. It does not
have to, since the words of a filter hold together as those of a query do. So a query, read as SQL
reads it, says of the conditions in it what the filter says of the filters in it.
-/

namespace MapFilter
open Compiler Sql

/-! ## The conditions of a walk -/

/-- The conditions that single filters have put on the stack, from left to right. -/
def Walk.conditions (w : Walk) : List String :=
  w.done.filterMap fun (step, s) =>
    match step with
    | .filter _ => s.stack.head?
    | _ => none

/-- The value of an expression, where `v` gives the values of its filters from left to right. -/
def Expr.value (v : Nat → Bool) : Expr → Bool
  | .filter _ => v 0
  | .group _ e _ => e.value v
  | .neg _ e => !e.value v
  | .join .conj l _ r => l.value v && r.value fun i => v (i + l.filters.length)
  | .join .disj l _ r => l.value v || r.value fun i => v (i + l.filters.length)

lemma walk_cons_of_ok {step : Step} {s s' : State} (h : exec step.perform s = (.ok (), s'))
    (steps : List Step) :
    walk (step :: steps) s = ⟨(step, s') :: (walk steps s').done, (walk steps s').failed⟩ := by
  unfold exec at h
  rw [walk, h]

lemma conditions_append {as : List Step} {s s' : State}
    (h : exec (perform as) s = (.ok (), s')) (bs : List Step) :
    (walk (as ++ bs) s).conditions = (walk as s).conditions ++ (walk bs s').conditions := by
  induction as generalizing s with
  | nil =>
    cases h
    rfl
  | cons step as ih =>
    rw [exec_perform_cons] at h
    obtain ⟨_, s₁, hstep, hrest⟩ := andThen_eq_ok_iff.1 h
    have hlater := ih hrest
    rw [List.cons_append, walk_cons_of_ok hstep, walk_cons_of_ok hstep]
    unfold Walk.conditions at hlater ⊢
    rw [List.filterMap_cons, List.filterMap_cons, hlater]
    split <;> rfl

lemma conditions_of_no_filter {steps : List Step} (h : ∀ f, .filter f ∉ steps) (s : State) :
    (walk steps s).conditions = [] := by
  induction steps generalizing s with
  | nil => rfl
  | cons step steps ih =>
    have hsteps : ∀ f, .filter f ∉ steps := fun f hf => h f (List.mem_cons_of_mem _ hf)
    rcases hexec : exec step.perform s with ⟨e | _, s'⟩
    · unfold exec at hexec
      simp only [walk, hexec]
      rfl
    · have hlater := ih hsteps s'
      rw [walk_cons_of_ok hexec]
      unfold Walk.conditions at hlater ⊢
      cases step with
      | filter f => exact absurd (List.mem_cons_self) (h f)
      | _ => exact hlater

lemma conditions_concat {as : List Step} {s s' : State} (h : exec (perform as) s = (.ok (), s'))
    {step : Step} (hstep : ∀ f, step ≠ .filter f) :
    (walk (as ++ [step]) s).conditions = (walk as s).conditions := by
  have hnone : ∀ f, Step.filter f ∉ [step] := by
    intro f hf
    exact hstep f (List.mem_singleton.1 hf).symm
  rw [conditions_append h, conditions_of_no_filter hnone, List.append_nil]

lemma Filter.not_mem_parts (f g : Filter) : .filter g ∉ f.parts := by
  cases f <;> simp [Filter.parts]

lemma Filter.conditions {f : Filter} (hs : f.Spelled) (hp : f.Proper) {d : Draft}
    (hd : f.draft = .ok (some d)) (s : State) (hwritable : AllWritable s.last d.args.length) :
    (walk (Expr.filter f).steps s).conditions = [d.number s.last] := by
  rw [← Filter.args_of_draft hd] at hwritable
  have hexec := f.exec_of_draftAfter_ok hs hp s (Filter.draftAfter_eq_ok_iff.2 ⟨hd, hwritable⟩)
  rw [Expr.steps, exec_perform_append] at hexec
  obtain ⟨_, s₁, hparts, hrest⟩ := andThen_eq_ok_iff.1 hexec
  rw [exec_perform_cons] at hrest
  obtain ⟨_, s₂, hfilter, hsingle⟩ := andThen_eq_ok_iff.1 hrest
  cases hsingle
  rw [Expr.steps, conditions_append hparts, conditions_of_no_filter (f.not_mem_parts),
    walk_cons_of_ok hfilter]
  rfl

namespace Expr

lemma conditions_join {l r : Expr} {dl dr : Draft} (s : State) (hgl : l.Genuine)
    (hdl : l.draft? = some dl) (hgr : r.Genuine) (hdr : r.draft? = some dr)
    (hwritable : AllWritable s.last (dl.args.length + dr.args.length)) (j : Joint) (op : Padding) :
    (walk (join j l op r).steps s).conditions =
      (walk l.steps s).conditions ++ (walk r.steps (s.extend (some dl))).conditions := by
  obtain ⟨hwritablel, hwritabler⟩ := allWritable_add.1 hwritable
  have hl := exec_of_draft hgl hdl s hwritablel
  have hr := exec_of_draft hgr hdr (s.extend (some dl)) (by simpa [State.extend] using hwritabler)
  have hboth : exec (perform (l.steps ++ r.steps)) s =
      (.ok (), (s.extend (some dl)).extend (some dr)) := by
    rw [exec_perform_append, hl, andThen_ok, hr]
  rw [steps, conditions_concat hboth (by simp), conditions_append hl]

end Expr

/-! ## The pieces of an expression -/

def Joint.piece : Joint → Piece
  | .conj => .conj
  | .disj => .disj

def Joint.cond : Joint → Cond → Cond → Cond
  | .conj => .conj
  | .disj => .disj

lemma Joint.piece_text (j : Joint) : j.piece.text = " " ++ word j ++ " " := by
  cases j <;> rfl

lemma Joint.piece_atom? (j : Joint) : j.piece.atom? = none := by
  cases j <;> rfl

/-- What an expression says about its filters, which are counted from `i` on. -/
def Expr.reading (i : Nat) : Expr → Cond
  | .filter _ => .atom i
  | .group _ e _ => e.reading i
  | .neg _ e => .neg (e.reading i)
  | .join j l _ r => j.cond (l.reading i) (r.reading (i + l.filters.length))

lemma Expr.value_reading (e : Expr) (v : Nat → Bool) (i : Nat) :
    (e.reading i).value v = e.value fun k => v (k + i) := by
  induction e generalizing i with
  | filter f => simp [reading, value, Cond.value]
  | group left e right ih => exact ih i
  | neg op e ih => simp [reading, value, Cond.value, ih]
  | join j l op r ihl ihr =>
    have hshift : (fun k => v (k + l.filters.length + i)) =
        fun k => v (k + (i + l.filters.length)) := by
      funext k
      congr 1
      omega
    cases j with
    | conj => simp [reading, value, Joint.cond, Cond.value, ihl, ihr, hshift]
    | disj => simp [reading, value, Joint.cond, Cond.value, ihl, ihr, hshift]

/-- How a query binds what a filter text binds so tight. -/
def Level.binding : Level → Binding
  | .operand => .primary
  | .conjunction => .conjunction
  | .whole => .disjunction

/-- The pieces `ps` are the text of a draft, cut at the conditions of the expression `e`. -/
structure Expr.Pieces (e : Expr) (level : Level) (d : Draft) (s : State) (i : Nat)
    (ps : List Piece) : Prop where
  text : String.join (ps.map Piece.text) = d.number s.last
  atoms : ps.filterMap Piece.atom? = (walk e.steps s).conditions.zipIdx i
  reads : Reads level.binding ps (e.reading i)
  plain : ∀ t ∈ (walk e.steps s).conditions, Plain t
  length : (walk e.steps s).conditions.length = e.filters.length

/-- The words of a filter hold together as those of a query do. -/
lemma Level.reads_join {j : Joint} {level : Level} (h : level.admits j = true) {ps qs : List Piece}
    {c d : Cond} (hp : Reads j.leftLevel.binding ps c) (hq : Reads j.rightLevel.binding qs d) :
    Reads level.binding (ps ++ j.piece :: qs) (j.cond c d) := by
  cases j with
  | conj =>
    have hreads := Reads.conj hp hq
    cases level with
    | operand => cases h
    | conjunction => exact hreads
    | whole => exact .alone hreads
  | disj =>
    cases level with
    | operand | conjunction => cases h
    | whole => exact .disj hp hq

namespace Expr

/-- The draft of an expression is cut into pieces that are read as the expression. -/
lemma exists_pieces {e : Expr} (hg : e.Genuine) {level : Level} (hfits : e.Fits level) {d : Draft}
    (hd : e.draft? = some d) (s : State) (hwritable : AllWritable s.last d.args.length) (i : Nat) :
    ∃ ps, e.Pieces level d s i ps := by
  induction e generalizing level d s i with
  | filter f =>
    have hf := hg f (by simp [filters])
    have hdraft := draft?_filter_eq_some.1 hd
    have hconditions := Filter.conditions hf.1 hf.2 hdraft s hwritable
    refine ⟨[.atom i (d.number s.last)], ?_⟩
    constructor
    · simp [Piece.text]
    · simp [hconditions, Piece.atom?]
    · exact (Reads.atom i _).of_primary _
    · rw [hconditions, List.forall_mem_singleton]
      exact (f.condition hf.1 hf.2 hdraft).plain s.last
    · rw [hconditions]
      rfl
  | group left e right ih =>
    obtain ⟨d', hd', rfl⟩ := draft?_group_eq_some.1 hd
    have hinner : AllWritable s.last d'.args.length := by simpa using hwritable
    obtain ⟨ps, hps⟩ := ih hg hfits hd' s hinner i
    have hconditions : (walk (group left e right).steps s).conditions = (walk e.steps s).conditions :=
      conditions_concat (exec_of_draft (e := e) hg hd' s hinner) (by simp)
    refine ⟨.opening :: ps ++ [.closing], ?_⟩
    constructor
    · simp [Piece.text, hps.text, Draft.number_append]
    · simp [hconditions, hps.atoms, List.filterMap_cons, Piece.atom?]
    · exact (Reads.parens hps.reads).of_primary _
    · rw [hconditions]
      exact hps.plain
    · rw [hconditions]
      exact hps.length
  | neg op e ih =>
    obtain ⟨d', hd', rfl⟩ := draft?_neg_eq_some.1 hd
    have hinner : AllWritable s.last d'.args.length := by simpa using hwritable
    obtain ⟨ps, hps⟩ := ih hg hfits hd' s hinner i
    have hconditions : (walk (neg op e).steps s).conditions = (walk e.steps s).conditions :=
      conditions_concat (exec_of_draft (e := e) hg hd' s hinner) (by simp)
    refine ⟨.neg :: ps, ?_⟩
    constructor
    · simp [Piece.text, hps.text]
    · simp [hconditions, hps.atoms, List.filterMap_cons, Piece.atom?]
    · exact (Reads.neg hps.reads).of_primary _
    · rw [hconditions]
      exact hps.plain
    · rw [hconditions]
      exact hps.length
  | join j l op r ihl ihr =>
    obtain ⟨hadmits, hfl, hfr⟩ := hfits
    have hgs := genuine_join.1 hg
    obtain ⟨dl, dr, hdl, hdr, rfl⟩ := draft?_join_eq_some.1 hd
    have hlast : (s.extend (some dl)).last = s.last + dl.args.length := State.last_add s _ dl.args
    rw [Draft.args_append, List.length_append, Draft.args_text] at hwritable
    obtain ⟨hwritablel, hwritabler⟩ := allWritable_add.1 hwritable
    obtain ⟨ps, hps⟩ := ihl hgs.1 hfl hdl s hwritablel i
    obtain ⟨qs, hqs⟩ := ihr hgs.2 hfr hdr (s.extend (some dl)) (hlast ▸ hwritabler)
      (i + l.filters.length)
    have hconditions := conditions_join s hgs.1 hdl hgs.2 hdr hwritable j op
    refine ⟨ps ++ j.piece :: qs, ?_⟩
    constructor
    · simp [j.piece_text, hps.text, hqs.text, Draft.number_append, hlast]
    · rw [List.filterMap_append, List.filterMap_cons_none j.piece_atom?, hps.atoms, hqs.atoms,
        hconditions, List.zipIdx_append, hps.length]
    · exact Level.reads_join hadmits hps.reads hqs.reads
    · rw [hconditions, List.forall_mem_append]
      exact ⟨hps.plain, hqs.plain⟩
    · rw [hconditions, List.length_append, hps.length, hqs.length]
      exact List.length_append.symm

end Expr

/-- A query that is neither empty nor that of the star, read as SQL reads it, has for all values of
the conditions in it the value of the filter. The conditions are what the filters have been compiled
to, one for each of them and in the same order. There is a way to cut the text of the query at these
conditions and to read it, and however that is done the value is the same. -/
theorem query_value_eq {text : String} {shift : Int} {q : Query} (hq : query text shift = .ok q)
    (hne : q.text ≠ "") (hstar : text ≠ "*") :
    ∃ e w, parse text = .ok (.expr e) ∧ steps text shift = .ok w ∧
      w.conditions.length = e.filters.length ∧
      (∃ ps c, IsCut w.conditions q.text ps ∧ Reads .disjunction ps c) ∧
      ∀ ps c, IsCut w.conditions q.text ps → Reads .disjunction ps c →
        ∀ v, c.value v = e.value v := by
  obtain ⟨e, hparse⟩ := exists_expr_of_query hq hstar
  have hwell := parse_wellFormed hparse
  have hg := hwell.genuine
  obtain ⟨d, hd, hwritable, rfl⟩ : ∃ d, e.draft? = some d ∧ AllWritable shift d.args.length ∧
      q = ⟨d.number shift, d.args⟩ := by
    rcases query_eq_draft hparse shift hq with ⟨-, rfl⟩ | hdraft
    · exact absurd rfl hne
    · exact hdraft
  have hlast : (State.fresh shift).last = shift := State.last_fresh shift
  rw [← hlast] at hwritable
  obtain ⟨ps, hps⟩ := Expr.exists_pieces hg hwell.fits hd (.fresh shift) hwritable 0
  have hconditions : (walk (Tree.expr e).steps (.fresh shift)).conditions =
      (walk e.steps (.fresh shift)).conditions :=
    conditions_concat (Expr.exec_of_draft hg hd (.fresh shift) hwritable) (by simp)
  have hcut : IsCut (walk (Tree.expr e).steps (.fresh shift)).conditions (d.number shift) ps := by
    rw [hconditions]
    exact ⟨hlast ▸ hps.text, hps.atoms⟩
  refine ⟨e, walk (Tree.expr e).steps (.fresh shift), hparse, ?_, ?_, ⟨ps, _, hcut, hps.reads⟩, ?_⟩
  · rw [steps, hparse]
    rfl
  · rw [hconditions, hps.length]
  · intro ps' c hcut' hreads v
    have hplain : ∀ t ∈ (walk (Tree.expr e).steps (.fresh shift)).conditions, Plain t := by
      rw [hconditions]
      exact hps.plain
    obtain rfl : ps' = ps := hcut'.unique hplain hcut
    rw [hreads.unique hps.reads, Expr.value_reading]
    rfl

/-- A query with each of the three words. -/
theorem query_value_eq_mixed :
    query "type:way or not id:1 and type:node" 0 =
      .ok ⟨"osm_type = $1 OR NOT osm_id = $2 AND osm_type = $3",
        [.text "way", .number (.whole 1), .text "node"]⟩ ∧
    ∃ e, parse "type:way or not id:1 and type:node" = .ok (.expr e) ∧
      ∀ v, (v 0 || !v 1 && v 2) = e.value v := by
  have hq : query "type:way or not id:1 and type:node" 0 =
      .ok ⟨"osm_type = $1 OR NOT osm_id = $2 AND osm_type = $3",
        [.text "way", .number (.whole 1), .text "node"]⟩ := by decide +kernel
  refine ⟨hq, ?_⟩
  obtain ⟨e, w, hparse, hsteps, -, -, hvalue⟩ := query_value_eq hq (by decide) (by decide)
  refine ⟨e, hparse, ?_⟩
  have hw : w.conditions = ["osm_type = $1", "osm_id = $2", "osm_type = $3"] := by
    have hmap : (steps "type:way or not id:1 and type:node" 0).map Walk.conditions =
        .ok ["osm_type = $1", "osm_id = $2", "osm_type = $3"] := by decide +kernel
    rw [hsteps] at hmap
    exact Except.ok.inj hmap
  have hcut : IsCut w.conditions "osm_type = $1 OR NOT osm_id = $2 AND osm_type = $3"
      [.atom 0 "osm_type = $1", .disj, .neg, .atom 1 "osm_id = $2", .conj,
        .atom 2 "osm_type = $3"] := by
    rw [hw]
    exact ⟨by decide, by decide⟩
  have hreads := Reads.disj (.alone (.single (.atom 0 "osm_type = $1")))
    (.conj (.single (.neg (.atom 1 "osm_id = $2"))) (.atom 2 "osm_type = $3"))
  intro v
  exact hvalue _ _ hcut hreads v

end MapFilter
