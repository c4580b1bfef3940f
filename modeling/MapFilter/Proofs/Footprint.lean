import MapFilter.Proofs.Outcome

/-!
# What a step does to the stack

Every step first takes a fixed number of entries off the stack and then puts at most a few on it. If
there are too few entries it takes all of them and fails. What lies below is neither looked at nor
changed, also if the step fails for another reason.
-/

namespace MapFilter

namespace Compiler

variable {α β : Type} {n : Nat}

@[simp] lemma exec_pop_nil (args : List Argument) (shift : Int) :
    exec pop ⟨[], args, shift⟩ = (.error .emptyStack, ⟨[], args, shift⟩) := rfl

/-- An operation that leaves the stack alone. It may add arguments. -/
def Rests (m : Compiler α) : Prop :=
  ∀ args shift, ∃ r new, r ≠ .error .emptyStack ∧
    ∀ stack, exec m ⟨stack, args, shift⟩ = (r, ⟨stack, args ++ new, shift⟩)

/-- An operation that only puts entries on the stack, and none if it fails. -/
def Pushes (m : Compiler α) : Prop :=
  ∀ args shift, ∃ r pushed new, r ≠ .error .emptyStack ∧ (∀ e, r = .error e → pushed = []) ∧
    ∀ stack, exec m ⟨stack, args, shift⟩ = (r, ⟨pushed ++ stack, args ++ new, shift⟩)

/-- An operation that takes `n` entries off the stack before it puts any on it. -/
inductive Takes : Nat → Compiler α → Prop where
  | pushes {m : Compiler α} : Pushes m → Takes 0 m
  | pop {m : Compiler α} {f : String → Compiler α} {n : Nat} :
      (∀ args shift, exec m ⟨[], args, shift⟩ = (.error .emptyStack, ⟨[], args, shift⟩)) →
      (∀ t stack args shift, exec m ⟨t :: stack, args, shift⟩ = exec (f t) ⟨stack, args, shift⟩) →
      (∀ t, Takes n (f t)) → Takes (n + 1) m

/-! ## Operations that leave the stack alone -/

lemma rests_pure (a : α) : Rests (pure a : Compiler α) :=
  fun args shift => ⟨.ok a, [], by simp, fun stack => by simp⟩

lemma rests_ofExcept {x : Except Failure α} (hx : x ≠ .error .emptyStack) : Rests (ofExcept x) :=
  fun args shift => ⟨x, [], hx, fun stack => by simp⟩

lemma rests_throw {e : Failure} (he : e ≠ .emptyStack) : Rests (throw e : Compiler α) :=
  rests_ofExcept (x := .error e) (by simpa using he)

lemma rests_add (a : Argument) : Rests (add a) :=
  fun args shift => ⟨.ok (), [a], by simp, fun stack => rfl⟩

/-- Which placeholder is written depends on the arguments only. -/
lemma rests_placeholder (later : Nat) : Rests (placeholder later) := by
  intro args shift
  refine ⟨if Writable (args.length + shift - later) then .ok (slot (args.length + shift - later))
    else .error .longPlaceholder, [], ?_, fun stack => ?_⟩
  · split <;> simp
  · rw [exec_placeholder, List.append_nil]
    rfl

lemma Rests.bind {m : Compiler α} {f : α → Compiler β} (hm : Rests m) (hf : ∀ a, Rests (f a)) :
    Rests (m >>= f) := by
  intro args shift
  obtain ⟨r, new, hr, hexec⟩ := hm args shift
  cases r with
  | error e => exact ⟨.error e, new, by simpa using hr, fun stack => by simp [hexec]⟩
  | ok a =>
    obtain ⟨r, new', hr, hexec'⟩ := hf a (args ++ new) shift
    exact ⟨r, new ++ new', hr, fun stack => by simp [hexec, hexec']⟩

lemma rests_mapM {f : α → Compiler β} (hf : ∀ a, Rests (f a)) (as : List α) :
    Rests (as.mapM f) := by
  induction as with
  | nil => exact rests_pure []
  | cons a as ih =>
    rw [List.mapM_cons]
    exact (hf a).bind fun b => ih.bind fun bs => rests_pure (b :: bs)

lemma rests_readWhole (t : String) : Rests (readWhole t) := by
  refine rests_ofExcept fun h => ?_
  cases Bounds.readWhole_eq_error h

lemma rests_unescape (t : String) : Rests (unescape t) := by
  unfold unescape
  split
  · exact rests_pure _
  · exact rests_throw (by decide)

lemma rests_value (t : Text) : Rests (value t) := by
  unfold value
  split
  · exact rests_unescape _
  · exact rests_unescape _
  · exact rests_unescape _
  · exact rests_pure _

lemma rests_splitObject (o : String) : Rests (splitObject o) := by
  unfold splitObject
  split
  · exact rests_pure _
  · exact rests_throw (by simp)

lemma rests_object (o : String) : Rests (object o) :=
  (rests_splitObject o).bind fun parts => (rests_readWhole parts.2).bind fun _ =>
    (rests_add _).bind fun _ => (rests_add _).bind fun _ =>
      (rests_placeholder 1).bind fun _ => (rests_placeholder 0).bind fun _ => rests_pure _

/-! ## Operations that put entries on the stack -/

lemma Rests.pushes {m : Compiler α} (hm : Rests m) : Pushes m := by
  intro args shift
  obtain ⟨r, new, hr, hexec⟩ := hm args shift
  exact ⟨r, [], new, hr, fun _ _ => rfl, hexec⟩

lemma Rests.bind_pushes {m : Compiler α} {f : α → Compiler β} (hm : Rests m)
    (hf : ∀ a, Pushes (f a)) : Pushes (m >>= f) := by
  intro args shift
  obtain ⟨r, new, hr, hexec⟩ := hm args shift
  cases r with
  | error e =>
    exact ⟨.error e, [], new, by simpa using hr, fun _ _ => rfl, fun stack => by simp [hexec]⟩
  | ok a =>
    obtain ⟨r, pushed, new', hr, hnil, hexec'⟩ := hf a (args ++ new) shift
    exact ⟨r, pushed, new ++ new', hr, hnil, fun stack => by simp [hexec, hexec']⟩

lemma pushes_push (t : String) : Pushes (push t) :=
  fun args shift => ⟨.ok (), [t], [], by simp, by simp, fun stack => by simp⟩

/-- A condition with the placeholder of a new argument. -/
lemma pushes_one (a : Argument) (f : String → String) : Pushes (do
    add a
    let n ← placeholder 0
    push (f n)) :=
  (rests_add a).bind_pushes fun _ => (rests_placeholder 0).bind_pushes fun _ => pushes_push _

/-- A condition with the placeholders of the last two arguments. -/
lemma pushes_lastTwo (f : String → String → String) : Pushes (do
    let m ← placeholder 1
    let n ← placeholder 0
    push (f m n)) :=
  (rests_placeholder 1).bind_pushes fun _ => (rests_placeholder 0).bind_pushes fun _ =>
    pushes_push _

lemma pushes_two (a b : Argument) (f : String → String → String) : Pushes (do
    add a
    add b
    let m ← placeholder 1
    let n ← placeholder 0
    push (f m n)) :=
  (rests_add a).bind_pushes fun _ => (rests_add b).bind_pushes fun _ => pushes_lastTwo f

/-! ## Operations that take entries off the stack -/

lemma Takes.pop_bind {f : String → Compiler α} (h : ∀ t, Takes n (f t)) :
    Takes (n + 1) (Compiler.pop >>= f) :=
  .pop (fun args shift => by simp) (fun t stack args shift => by simp) h

/-- Taking a range apart does not use the stack. -/
lemma read_ne_emptyStack (g : Grain) (t : String) : Bounds.read g t ≠ .error .emptyStack := by
  have hbound : ∀ cs, Bounds.readBound g cs ≠ .error .emptyStack := by
    intro cs h
    unfold Bounds.readBound at h
    split at h
    · cases h
    · rcases hn : Bounds.readNumber g (trim cs) with e | x
      · rw [hn] at h
        cases h
        cases Bounds.readNumber_eq_error hn
      · rw [hn] at h
        cases h
  intro h
  unfold Bounds.read at h
  split at h
  · rcases bind_eq_error_iff.1 h with hlower | ⟨lower, -, hrest⟩
    · exact hbound _ hlower
    · rcases bind_eq_error_iff.1 hrest with hupper | ⟨upper, -, hdone⟩
      · exact hbound _ hupper
      · cases hdone
  · rcases bind_eq_error_iff.1 h with hparts | ⟨parts, -, hthrow⟩
    · obtain ⟨part, -, hpart⟩ := mapM_eq_error hparts
      exact hbound _ hpart
    · cases hthrow

lemma takes_range (column : String) (g : Grain) (ordered : Bool) :
    Takes 1 (range column g ordered) := by
  refine .pop_bind fun t => .pushes ?_
  refine (rests_ofExcept (read_ne_emptyStack g t)).bind_pushes fun bounds => ?_
  obtain ⟨lower, upper⟩ := bounds
  simp only
  generalize Option.filter (fun x => !x.isZero) lower = lower
  generalize Option.filter (fun x => !x.isZero) upper = upper
  rcases lower with _ | l <;> rcases upper with _ | u
  · exact (rests_pure ()).pushes
  · exact pushes_one _ _
  · exact pushes_one _ _
  · by_cases hswap : (ordered && u.lt l) = true
    · simp only [hswap, if_true]
      exact (rests_throw (by simp)).bind_pushes fun _ => pushes_two _ _ _
    · simp only [hswap]
      exact pushes_two _ _ _

/-- One entry is taken off for each of several texts. -/
lemma takes_listed {ts : List Text} (hts : ∀ t ∈ ts, ∀ l ∈ t.node.leaves, l.Spelled)
    {f : List String → Compiler α} (hf : ∀ ss, Takes n (f ss)) :
    Takes (n + ts.length) (ts.mapM (fun t => do
      let _ ← Compiler.pop
      let s ← unescape t.node.text
      pure ("\"" ++ s ++ "\"")) >>= f) := by
  induction ts generalizing f with
  | nil => simpa using hf []
  | cons t ts ih =>
    have htext := Text.node_text_ne_nil (hts t (by simp))
    rw [List.length_cons, ← Nat.add_assoc]
    refine .pop (f := fun _ => _ >>= fun ss => f (t.listed :: ss)) ?_ ?_
      fun _ => ih (fun t ht => hts t (by simp [ht])) fun ss => hf _
    · intro args shift
      simp [List.mapM_cons]
    · intro p stack args shift
      simp only [List.mapM_cons, exec_bind, exec_pop_cons, andThen_ok, exec_unescape htext,
        exec_pure]
      generalize exec (ts.mapM _) _ = rest
      rcases rest with ⟨_ | _, _⟩ <;> rfl

/-- What running an operation can do: it finds too few entries and takes them all, or it replaces as
many as it takes and leaves the rest. -/
theorem Takes.exec_cases {m : Compiler α} (h : Takes n m) (s : State) :
    (s.stack.length < n ∧ exec m s = (.error .emptyStack, ⟨[], s.args, s.shift⟩)) ∨
    ∃ popped rest r pushed new, s.stack = popped ++ rest ∧ popped.length = n ∧
      r ≠ .error .emptyStack ∧ (∀ e, r = .error e → pushed = []) ∧
      exec m s = (r, ⟨pushed ++ rest, s.args ++ new, s.shift⟩) := by
  obtain ⟨stack, args, shift⟩ := s
  induction h generalizing stack with
  | pushes hm =>
    obtain ⟨r, pushed, new, hr, hnil, hexec⟩ := hm args shift
    exact .inr ⟨[], stack, r, pushed, new, rfl, rfl, hr, hnil, hexec stack⟩
  | @pop m f n hempty hpop _ ih =>
    cases stack with
    | nil => exact .inl ⟨Nat.succ_pos n, hempty args shift⟩
    | cons t stack =>
      rw [hpop]
      rcases ih t stack with
        ⟨hlen, hexec⟩ | ⟨popped, rest, r, pushed, new, rfl, hn, hr, hnil, hexec⟩
      · exact .inl ⟨by simpa using hlen, hexec⟩
      · exact .inr ⟨t :: popped, rest, r, pushed, new, rfl, by simpa using hn, hr, hnil, hexec⟩

end Compiler

/-! ## Steps -/

open Compiler

/-- How many entries a filter takes off the stack: its texts, or the text of its range. -/
def Filter.operands : Filter → Nat
  | .tag .. | .tagLike .. => 2
  | .tagAny .. => 1
  | .tagIn _ _ values => values.items.length + 1
  | .range s .. => if s.compares then 1 else 0
  | _ => 0

def Step.operands : Step → Nat
  | .filter f => f.operands
  | step => step.operands?.getD 0

theorem Filter.takes_operands {f : Filter} (hs : f.Spelled) :
    Takes f.operands (Compiler.filter f) := by
  cases f with
  | tag c key op value => exact .pop_bind fun _ => .pop_bind fun _ => .pushes (pushes_one _ _)
  | tagAny c key op => exact .pop_bind fun _ => .pushes (pushes_one _ _)
  | tagIn key op values =>
    have hvalues : ∀ t ∈ values.items, ∀ l ∈ t.node.leaves, l.Spelled := by
      intro t ht l hl
      apply hs
      simp [Filter.node, Filter.nodes, Listed.mem_leaves Text.node ht hl]
    rw [operands, Nat.add_comm]
    exact takes_listed hvalues fun _ => .pop_bind fun _ => .pushes (pushes_two _ _ _)
  | tagLike key op pattern =>
    exact .pop_bind fun _ => .pop_bind fun _ => .pushes (pushes_two _ _ _)
  | type op t => exact .pushes (pushes_one _ _)
  | geometry op t =>
    refine .pushes ?_
    rw [Compiler.filter]
    cases geometry? t with
    | none => exact (rests_pure ()).pushes
    | some c => exact pushes_push c
  | object op o =>
    exact .pushes ((rests_splitObject o).bind_pushes fun parts =>
      (rests_add _).bind_pushes fun _ => (rests_readWhole _).bind_pushes fun _ =>
        (rests_add _).bind_pushes fun _ => pushes_lastTwo _)
  | objects op os =>
    exact .pushes ((rests_mapM rests_object os.items).bind_pushes fun _ => pushes_push _)
  | number q op digits =>
    cases q with
    | id | changeset => exact .pushes ((rests_readWhole _).bind_pushes fun _ => pushes_one _ _)
    | outers | inners => exact .pushes (rests_throw (by decide)).pushes
  | numbers q op ns =>
    exact .pushes ((rests_mapM rests_readWhole ns.items).bind_pushes fun _ => pushes_one _ _)
  | range q op r =>
    cases q with
    | id | area | length | changeset => exact takes_range _ _ _
    | perimeter => exact .pushes (rests_pure ()).pushes
    | vertices | outers | inners => exact .pushes (rests_throw (by decide)).pushes

/-- A step whose tokens are spelt as their kinds say. -/
def Step.Spelled (step : Step) : Prop := ∀ f, step = .filter f → f.Spelled

lemma Step.spelled_filter {f : Filter} (hs : f.Spelled) : (Step.filter f).Spelled := by
  intro g hg
  cases hg
  exact hs

lemma Step.spelled_of_ne {step : Step} (h : ∀ f, step ≠ .filter f) : step.Spelled :=
  fun f hf => absurd hf (h f)

/-- Every step takes as many entries off the stack as it has operands. -/
theorem Step.takes_operands {step : Step} (hs : step.Spelled) :
    Takes step.operands step.perform := by
  cases step with
  | text t => exact .pushes ((rests_value t).bind_pushes fun _ => pushes_push _)
  | range g r => exact .pushes (pushes_push _)
  | filter f => exact Filter.takes_operands (hs f rfl)
  | group | neg => exact .pop_bind fun _ => .pushes (pushes_push _)
  | join j => exact .pop_bind fun _ => .pop_bind fun _ => .pushes (pushes_push _)
  | single | root => exact .pushes (rests_pure ()).pushes

end MapFilter
