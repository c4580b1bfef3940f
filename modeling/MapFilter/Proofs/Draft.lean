import MapFilter.Proofs.RangeText
import MapFilter.Sql.Step

/-!
# Drafts of conditions

What a filter means can be said without a stack: its condition is a draft, in which arguments stand
where the placeholders will be, and the draft of an expression is made from those of its operands. A
draft becomes text as soon as the number of its first placeholder is known.
-/

namespace MapFilter

section Results

variable {α β : Type}

@[simp] lemma ok_bind (a : α) (f : α → Except Failure β) : (Except.ok a >>= f) = f a := rfl

@[simp] lemma error_bind (e : Failure) (f : α → Except Failure β) :
    (Except.error e >>= f) = .error e := rfl

@[simp] lemma pure_eq_ok (a : α) : (pure a : Except Failure α) = .ok a := rfl

lemma bind_eq_ok_iff {x : Except Failure α} {f : α → Except Failure β} {b : β} :
    (x >>= f) = .ok b ↔ ∃ a, x = .ok a ∧ f a = .ok b := by
  cases x <;> simp

lemma bind_eq_error_iff {x : Except Failure α} {f : α → Except Failure β} {e : Failure} :
    (x >>= f) = .error e ↔ x = .error e ∨ ∃ a, x = .ok a ∧ f a = .error e := by
  cases x <;> simp

lemma mapM_eq_ok_cases {f : α → Except Failure β} {as : List α} {bs : List β}
    (h : as.mapM f = .ok bs) : bs.length = as.length ∧ ∀ b ∈ bs, ∃ a ∈ as, f a = .ok b := by
  induction as generalizing bs with
  | nil =>
    cases h
    simp
  | cons a as ih =>
    rw [List.mapM_cons] at h
    obtain ⟨b, hb, h⟩ := bind_eq_ok_iff.1 h
    obtain ⟨bs, hbs, h⟩ := bind_eq_ok_iff.1 h
    cases h
    obtain ⟨hlength, hrest⟩ := ih hbs
    refine ⟨by simp [hlength], List.forall_mem_cons.2 ⟨⟨a, List.mem_cons_self, hb⟩, ?_⟩⟩
    intro b hb
    obtain ⟨a', ha', hfa⟩ := hrest b hb
    exact ⟨a', List.mem_cons_of_mem a ha', hfa⟩

end Results

/-- A piece of a condition. -/
inductive Segment where
  | text (s : String)
  | arg (a : Argument)
deriving DecidableEq, Repr

abbrev Draft := List Segment

namespace Draft

def args : Draft → List Argument
  | [] => []
  | .text _ :: d => args d
  | .arg a :: d => a :: args d

/-- The condition with placeholders from `n + 1` on. -/
def number (n : Int) : Draft → String
  | [] => ""
  | .text s :: d => s ++ number n d
  | .arg _ :: d => "$" ++ toString (n + 1) ++ number (n + 1) d

@[simp] lemma args_nil : args [] = [] := rfl

@[simp] lemma args_text (s : String) (d : Draft) : args (.text s :: d) = args d := rfl

@[simp] lemma args_arg (a : Argument) (d : Draft) : args (.arg a :: d) = a :: args d := rfl

@[simp] lemma number_nil (n : Int) : number n [] = "" := rfl

@[simp] lemma number_text (n : Int) (s : String) (d : Draft) :
    number n (.text s :: d) = s ++ number n d := rfl

@[simp] lemma number_arg (n : Int) (a : Argument) (d : Draft) :
    number n (.arg a :: d) = "$" ++ toString (n + 1) ++ number (n + 1) d := rfl

@[simp] lemma args_append (d e : Draft) : args (d ++ e) = args d ++ args e := by
  induction d with
  | nil => rfl
  | cons x d ih => cases x <;> simp [ih]

/-- What follows counts on from the last placeholder. -/
lemma number_append (n : Int) (d e : Draft) :
    number n (d ++ e) = number n d ++ number (n + (args d).length) e := by
  induction d generalizing n with
  | nil => simp
  | cons x d ih =>
    cases x with
    | text s => simp [ih, String.append_assoc]
    | arg a =>
      have hlen : n + ((args d).length + 1 : Int) = n + 1 + (args d).length := by omega
      simp [ih, String.append_assoc, hlen]

/-- Several conditions, each counting on from the one before. -/
def numberAll (n : Int) : List Draft → List String
  | [] => []
  | d :: ds => number n d :: numberAll (n + (args d).length) ds

@[simp] lemma length_numberAll (n : Int) (ds : List Draft) : (numberAll n ds).length = ds.length := by
  induction ds generalizing n with
  | nil => rfl
  | cons d ds ih => simp [numberAll, ih]

lemma args_intercalate (sep : String) (ds : List Draft) :
    args ([Segment.text sep].intercalate ds) = ds.flatMap args := by
  induction ds with
  | nil => rfl
  | cons d ds ih =>
    cases ds with
    | nil => simp
    | cons e ds =>
      rw [List.intercalate_cons_cons, args_append, args_append, ih]
      simp

lemma number_intercalate (n : Int) (sep : String) (ds : List Draft) :
    number n ([Segment.text sep].intercalate ds) = String.intercalate sep (numberAll n ds) := by
  induction ds generalizing n with
  | nil => rfl
  | cons d ds ih =>
    cases ds with
    | nil => simp [numberAll]
    | cons e ds =>
      rw [List.intercalate_cons_cons, List.append_assoc, number_append, number_append, ih]
      simp [numberAll, String.append_assoc]

end Draft

/-! ## Single filters -/

/-- The text that a tag key or value stands for. -/
def Text.content : Text → String
  | .quoted s => (Quoted.unescape? s).getD ""
  | .number s => (Quoted.unescape? s).getD ""
  | .words w [] => (Quoted.unescape? w.text).getD ""
  | t => t.node.text

/-- A value in a list of them. -/
def Text.listed (t : Text) : String := "\"" ++ (Quoted.unescape? t.node.text).getD "" ++ "\""

/-- The type of an object and the digits of its number. -/
def objectParts (o : String) : String × List Char :=
  (.ofList (o.toList.takeWhile (· != '/')), (o.toList.dropWhile (· != '/')).tail)

def objectDraft (o : String) : Except Failure Draft := do
  let n ← Bounds.readWhole (objectParts o).2
  pure [.text "(osm_id = ", .arg (.number (.whole n)),
    .text " AND osm_type = ", .arg (.text (objectParts o).1), .text ")"]

/-- Ranges that become comparisons with their bounds. -/
def Ranged.compares : Ranged → Bool
  | .id | .area | .length | .changeset => true
  | .perimeter | .vertices | .outers | .inners => false

/-- The draft of a range. A bound that is zero is as good as none. -/
def rangeDraft (column : String) (g : Grain) (ordered : Bool) (b : Bounds) :
    Except Failure (Option Draft) := do
  let (lower, upper) ← b.values g
  match lower.filter (!·.isZero), upper.filter (!·.isZero) with
  | some l, some u =>
    if ordered && u.lt l then .error (.swappedBounds l u)
    else .ok (some [.text ("(" ++ column ++ " >= "), .arg (.number l),
      .text (" AND " ++ column ++ " <= "), .arg (.number u), .text ")"])
  | some l, none => .ok (some [.text (column ++ " >= "), .arg (.number l)])
  | none, some u => .ok (some [.text (column ++ " <= "), .arg (.number u)])
  | none, none => .ok none

/-- The draft of a filter. A range may have none. -/
def Filter.draft : Filter → Except Failure (Option Draft)
  | .tag c key _ value =>
    .ok (some [.text (Compiler.negation c ++ "tags @> "),
      .arg (.text (Json.member key.content value.content))])
  | .tagAny c key _ =>
    .ok (some [.text (Compiler.negation c ++ "tags ? "), .arg (.text key.content)])
  | .tagIn key _ values =>
    .ok (some [.text "(tags -> ", .arg (.text key.content), .text ") = ANY(",
      .arg (.texts (values.items.map Text.listed)), .text ")"])
  | .tagLike key _ pattern =>
    .ok (some [.text "tags ->> ", .arg (.text (Like.key key.content)), .text " LIKE ",
      .arg (.text (Like.pattern pattern.leading pattern.text.content pattern.trailing))])
  | .type _ t => .ok (some [.text "osm_type = ", .arg (.text t)])
  | .geometry _ t => .ok ((Compiler.geometry? t).map fun c => [.text c])
  | .object _ o => do
    let n ← Bounds.readWhole (objectParts o).2
    pure (some [.text "(osm_type = ", .arg (.text (objectParts o).1),
      .text " AND osm_id = ", .arg (.number (.whole n)), .text ")"])
  | .objects _ os => do
    let ds ← os.items.mapM objectDraft
    let any := [Segment.text " OR "].intercalate ds
    pure (some (if ds.length > 1 then .text "(" :: any ++ [.text ")"] else any))
  | .number s _ digits =>
    match s with
    | .id => do
      let n ← Bounds.readWhole digits.toList
      pure (some [.text "osm_id = ", .arg (.number (.whole n))])
    | .changeset => do
      let n ← Bounds.readWhole digits.toList
      pure (some [.text "changeset_id = ", .arg (.number (.whole n))])
    | .outers | .inners => .error .unsupported
  | .numbers s _ l => do
    let ns ← l.items.mapM fun n => Bounds.readWhole n.toList
    pure (some [.text (s.column ++ " = ANY("), .arg (.numbers ns), .text ")"])
  | .range s _ r =>
    match s with
    | .id => rangeDraft "osm_id" .whole true r.bounds
    | .area => rangeDraft "area" .decimal true r.bounds
    | .length => rangeDraft "length" .decimal true r.bounds
    | .changeset => rangeDraft "changeset_id" .whole false r.bounds
    | .perimeter => .ok (some [.text (r.inner .decimal)])
    | .vertices | .outers | .inners => .error .unsupported

/-- The arguments of a filter that has a draft. -/
def Filter.args (f : Filter) : List Argument := (f.draft.toOption.join.map Draft.args).getD []

/-- How many placeholders a filter writes until it is compiled or fails. Only the objects of a list
are compiled one after the other; all else is read before any placeholder is written. -/
def Filter.writes : Filter → Nat
  | .objects _ os => 2 * (os.items.takeWhile fun o => (objectDraft o).isOk).length
  | f => f.args.length

namespace Filter

variable {f : Filter}

lemma args_of_draft {d : Draft} (h : f.draft = .ok (some d)) : f.args = d.args := by
  simp [args, h, Except.toOption]

lemma args_of_draft_none (h : f.draft = .ok none) : f.args = [] := by
  simp [args, h, Except.toOption]

lemma args_of_draft_error {e : Failure} (h : f.draft = .error e) : f.args = [] := by
  simp [args, h, Except.toOption]

end Filter

lemma objectDraft_args {o : String} {d : Draft} (h : objectDraft o = .ok d) :
    d.args.length = 2 := by
  obtain ⟨n, -, hn⟩ := bind_eq_ok_iff.1 h
  cases hn
  rfl

lemma objectDrafts_args {os : List String} {ds : List Draft} (h : os.mapM objectDraft = .ok ds) :
    (ds.flatMap Draft.args).length = 2 * (os.takeWhile fun o => (objectDraft o).isOk).length := by
  induction os generalizing ds with
  | nil =>
    cases h
    rfl
  | cons o os ih =>
    rw [List.mapM_cons] at h
    obtain ⟨d, hd, h⟩ := bind_eq_ok_iff.1 h
    obtain ⟨ds', hds, h⟩ := bind_eq_ok_iff.1 h
    cases h
    have hrest := ih hds
    simp only [List.flatMap_cons, List.length_append, objectDraft_args hd, hrest,
      List.takeWhile_cons, hd, Except.isOk, Except.toBool, if_true, List.length_cons]
    omega

/-- A filter that has a draft writes a placeholder for each argument. -/
lemma Filter.writes_of_draft {f : Filter} {o : Option Draft} (h : f.draft = .ok o) :
    f.writes = f.args.length := by
  cases f with
  | objects op os =>
    obtain ⟨ds, hds, hany⟩ := bind_eq_ok_iff.1 h
    have hlength := objectDrafts_args hds
    rw [← hany] at h
    rw [args_of_draft h, writes, ← hlength]
    split <;> simp [Draft.args_intercalate]
  | _ => rfl

/-! ## Expressions -/

/-- The draft of an expression, if every filter in it has one. -/
def Expr.draft? : Expr → Option Draft
  | .filter f => f.draft.toOption.join
  | .group _ e _ => do
    let d ← e.draft?
    some (.text "(" :: d ++ [.text ")"])
  | .neg _ e => do
    let d ← e.draft?
    some (.text "NOT " :: d)
  | .join j l _ r => do
    let d ← l.draft?
    let d' ← r.draft?
    some (d ++ .text (" " ++ Compiler.word j ++ " ") :: d')

namespace Expr

variable {d : Draft}

lemma draft?_filter_eq_some {f : Filter} : (filter f).draft? = some d ↔ f.draft = .ok (some d) := by
  rcases ho : f.draft with _ | _ | d' <;> simp [draft?, ho, Except.toOption]

lemma draft?_group_eq_some {l r : Padding} {e : Expr} :
    (group l e r).draft? = some d ↔
      ∃ d', e.draft? = some d' ∧ .text "(" :: d' ++ [.text ")"] = d := by
  simp [draft?, Option.bind_eq_some_iff]

lemma draft?_neg_eq_some {op : Padding} {e : Expr} :
    (neg op e).draft? = some d ↔ ∃ d', e.draft? = some d' ∧ .text "NOT " :: d' = d := by
  simp [draft?, Option.bind_eq_some_iff]

lemma draft?_join_eq_some {j : Joint} {op : Padding} {l r : Expr} :
    (join j l op r).draft? = some d ↔ ∃ dl dr, l.draft? = some dl ∧ r.draft? = some dr ∧
      dl ++ .text (" " ++ Compiler.word j ++ " ") :: dr = d := by
  simp [draft?, Option.bind_eq_some_iff]

end Expr

end MapFilter
