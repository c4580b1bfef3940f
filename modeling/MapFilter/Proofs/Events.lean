import MapFilter.Proofs.Acceptance
import MapFilter.Proofs.RangeText

/-!
# What a walk through a tree shows

A parsed tree keeps every character of its text, and the events of a walk through it keep all of the
tree but the kinds of its tokens: they can be put together again, since every rule that is entered
is left after all that it is made of.
-/

namespace MapFilter

/-! ## Trees as they are shown -/

/-- A tree without the kinds of its tokens. -/
inductive View where
  | token (text : String)
  | rule (r : Rule) (children : List View)

namespace Node

mutual

def view : Node → View
  | .leaf l => .token l.text
  | .branch r ns => .rule r (viewAll ns)

def viewAll : List Node → List View
  | [] => []
  | n :: ns => n.view :: viewAll ns

end

/-- What holds of every token, and of every rule if it holds of what the rule is made of, holds of
every node. -/
theorem induction {P : Node → Prop} (leaf : ∀ l, P (.leaf l))
    (branch : ∀ r ns, (∀ n ∈ ns, P n) → P (.branch r ns)) : ∀ n, P n
  | .leaf l => leaf l
  | .branch r ns => branch r ns fun n _ => induction leaf branch n

@[simp] lemma view_leaf (l : Lexeme) : (leaf l).view = .token l.text := by rw [view]

@[simp] lemma view_branch (r : Rule) (ns : List Node) :
    (branch r ns).view = .rule r (ns.map view) := by
  have hall : ∀ ns, viewAll ns = ns.map view := by
    intro ns
    induction ns with
    | nil => rw [viewAll, List.map_nil]
    | cons n ns ih => rw [viewAll, ih, List.map_cons]
  rw [view, hall]

@[simp] lemma events_leaf (l : Lexeme) : (leaf l).events = [.token l.text] := by rw [events]

@[simp] lemma events_branch (r : Rule) (ns : List Node) :
    (branch r ns).events = .enter r :: (ns.flatMap events ++ [.leave r]) := by
  have hall : ∀ ns, eventsOf ns = ns.flatMap events := by
    intro ns
    induction ns with
    | nil => rw [eventsOf, List.flatMap_nil]
    | cons n ns ih => rw [eventsOf, ih, List.flatMap_cons]
  rw [events, hall]

lemma leavesOf_eq_flatMap (ns : List Node) : leavesOf ns = ns.flatMap leaves := by
  induction ns with
  | nil => rw [leavesOf, List.flatMap_nil]
  | cons n ns ih => rw [leavesOf, ih, List.flatMap_cons]

end Node

/-! ## Putting events together -/

/-- Puts events together to trees. `done` is what the innermost open rule is made of so far, and
`outer` holds the rules that are open with what stands before each of them, the innermost first; what
has been put together is kept from right to left. -/
def rebuild : List Event → List (Rule × List View) → List View → Option (List View)
  | [], [], done => some done.reverse
  | [], _ :: _, _ => none
  | .token s :: es, outer, done => rebuild es outer (.token s :: done)
  | .enter r :: es, outer, done => rebuild es ((r, done) :: outer) []
  | .leave _ :: _, [], _ => none
  | .leave r :: es, (r', before) :: outer, done =>
    if r = r' then rebuild es outer (.rule r done.reverse :: before) else none

/-- Every rule that is entered is left again, after all that is entered in between. -/
inductive Bracketed : List Event → Prop where
  | nil : Bracketed []
  | token {es : List Event} (s : String) : Bracketed es → Bracketed (.token s :: es)
  | rule {es fs : List Event} (r : Rule) : Bracketed es → Bracketed fs →
      Bracketed (.enter r :: (es ++ .leave r :: fs))

lemma Bracketed.append {es fs : List Event} (he : Bracketed es) (hf : Bracketed fs) :
    Bracketed (es ++ fs) := by
  induction he with
  | nil => exact hf
  | token s _ ih => exact .token s ih
  | @rule es es' r he _ _ ih =>
    rw [List.cons_append, List.append_assoc, List.cons_append]
    exact .rule r he ih

def Event.text? : Event → Option String
  | .token s => some s
  | .enter _ | .leave _ => none

namespace Node

/-- The events of nodes are put together to what the nodes are shown as, wherever they stand. -/
lemma rebuild_flatMap_events {ns : List Node}
    (h : ∀ n ∈ ns, ∀ es outer done, rebuild (n.events ++ es) outer done =
      rebuild es outer (n.view :: done))
    (es : List Event) (outer : List (Rule × List View)) (done : List View) :
    rebuild (ns.flatMap events ++ es) outer done =
      rebuild es outer ((ns.map view).reverse ++ done) := by
  induction ns generalizing done with
  | nil => rfl
  | cons n ns ih =>
    rw [List.flatMap_cons, List.append_assoc, h n (by simp), ih fun m hm => h m (by simp [hm])]
    simp

lemma rebuild_events (n : Node) (es : List Event) (outer : List (Rule × List View))
    (done : List View) :
    rebuild (n.events ++ es) outer done = rebuild es outer (n.view :: done) := by
  induction n using Node.induction generalizing es outer done with
  | leaf l => rw [events_leaf, view_leaf, List.singleton_append, rebuild]
  | branch r ns ih =>
    rw [events_branch, List.cons_append, List.append_assoc, rebuild, rebuild_flatMap_events ih,
      List.singleton_append, rebuild, if_pos rfl, view_branch]
    simp

/-- The events of a walk tell what they are of. -/
theorem view_eq_of_events_eq {m n : Node} (h : m.events = n.events) : m.view = n.view := by
  have hm := m.rebuild_events [] [] []
  have hn := n.rebuild_events [] [] []
  rw [h, hn] at hm
  have heq : [n.view] = [m.view] := Option.some.inj hm
  exact (List.cons.inj heq).1.symm

theorem bracketed_events (n : Node) : Bracketed n.events := by
  induction n using Node.induction with
  | leaf l =>
    rw [events_leaf]
    exact .token _ .nil
  | branch r ns ih =>
    have hns : Bracketed (ns.flatMap events) := by
      induction ns with
      | nil => exact .nil
      | cons n ns ihn => exact (ih n (by simp)).append (ihn fun m hm => ih m (by simp [hm]))
    rw [events_branch]
    exact .rule r hns .nil

/-- The tokens that a walk meets are the leaves of the tree. -/
theorem texts_events (n : Node) : n.events.filterMap Event.text? = n.leaves.map (·.text) := by
  induction n using Node.induction with
  | leaf l => simp [Event.text?]
  | branch r ns ih =>
    have hns : (ns.flatMap events).filterMap Event.text? = (ns.flatMap leaves).map (·.text) := by
      induction ns with
      | nil => rfl
      | cons n ns ihn =>
        simp only [List.flatMap_cons, List.filterMap_append, List.map_append]
        rw [ih n (by simp), ihn fun m hm => ih m (by simp [hm])]
    rw [events_branch, leaves_branch, leavesOf_eq_flatMap, ← hns,
      List.filterMap_cons_none rfl, List.filterMap_append]
    exact List.append_nil _

end Node

/-! ## Events as they are shown -/

lemma Rule.mem_all (r : Rule) : r ∈ Rule.all := by
  cases r with
  | root | expression | text | pattern => decide
  | sign s => cases s <;> decide
  | range g => cases g <;> decide
  | filter f =>
    cases f with
    | tagIn | tagLike | type | geometry | object | objects => decide
    | tag c => cases c <;> decide
    | tagAny c => cases c <;> decide
    | number s => cases s <;> decide
    | numbers s => cases s <;> decide
    | range s => cases s <;> decide

/-- A rule is known by its name. -/
lemma Rule.ofName?_name (r : Rule) : Rule.ofName? r.name = some r := by
  have hall : ∀ r ∈ Rule.all, Rule.ofName? r.name = some r := by decide +kernel
  exact hall r r.mem_all

lemma Rule.name_injective {r r' : Rule} (h : r.name = r'.name) : r = r' := by
  have hname := r.ofName?_name
  rw [h, r'.ofName?_name] at hname
  exact (Option.some.inj hname).symm

theorem Event.display_injective : Function.Injective Event.display := by
  intro e e' h
  have hchars := congrArg String.toList h
  cases e <;> cases e' <;> simp [Event.display, String.toList_inj] at hchars
  · rw [Rule.name_injective hchars]
  · rw [Rule.name_injective hchars]
  · rw [hchars]

/-! ## Parsed texts -/

lemma Lexer.Lexes.texts {cs : List Char} {ls : List Lexeme} (h : Lexes cs ls) :
    ls.flatMap (·.text.toList) = cs := by
  induction h with
  | nil => rfl
  | cons _ _ _ ih => rw [List.flatMap_cons, ih, String.toList_ofList]

/-- A parsed tree keeps all of its text. -/
theorem parse_text {s : String} {t : Tree} (h : parse s = .ok t) : t.node.text = s ++ "<EOF>" := by
  obtain ⟨hfault, hleaves⟩ := parse_leaves h
  obtain ⟨ls, hlexes, hls⟩ := exists_lexes_of_fault hfault
  apply String.toList_injective
  rw [Node.toList_text, hleaves, hls, List.flatMap_append, hlexes.texts, String.toList_append]
  rfl

/-- Parsing loses nothing and adds nothing but the end of the text: the tokens of the tree are the
text. The events of a walk through the tree are well bracketed, hold the same text, and belong to no
other tree: not to another way to nest rules and tokens, nor to the tree of another text. -/
theorem parse_lossless {s : String} {t : Tree} (h : parse s = .ok t) :
    t.node.text = s ++ "<EOF>" ∧
      Bracketed t.node.events ∧
      String.join (t.node.events.filterMap Event.text?) = s ++ "<EOF>" ∧
      (∀ n : Node, n.events.map Event.display = t.node.events.map Event.display →
        n.view = t.node.view) ∧
      ∀ s' t', parse s' = .ok t' →
        t'.node.events.map Event.display = t.node.events.map Event.display → s' = s ∧ t' = t := by
  have hevents : ∀ {n : Node}, n.events.map Event.display = t.node.events.map Event.display →
      n.events = t.node.events := fun hn => Event.display_injective.list_map hn
  have hjoin : ∀ n : Node, String.join (n.events.filterMap Event.text?) = n.text := by
    intro n
    rw [n.texts_events]
    rfl
  refine ⟨parse_text h, t.node.bracketed_events, (hjoin _).trans (parse_text h), ?_, ?_⟩
  · intro n hn
    exact Node.view_eq_of_events_eq (hevents hn)
  · intro s' t' h' hn
    have htext : s' ++ "<EOF>" = s ++ "<EOF>" := by
      rw [← parse_text h', ← parse_text h, ← hjoin, ← hjoin, hevents hn]
    obtain rfl : s' = s := by simpa using htext
    rw [h] at h'
    exact ⟨rfl, (Except.ok.inj h').symm⟩

/-- White space of both kinds, a key of two words and nested expressions. -/
theorem parse_lossless_spaced :
    ∃ t, parse "not a:b = * or\t( id:1 )" = .ok t ∧
      t.node.text = "not a:b = * or\t( id:1 )" ++ "<EOF>" ∧
      Bracketed t.node.events ∧
      String.join (t.node.events.filterMap Event.text?) = "not a:b = * or\t( id:1 )" ++ "<EOF>" ∧
      ∀ s' t', parse s' = .ok t' →
        t'.node.events.map Event.display = t.node.events.map Event.display →
        s' = "not a:b = * or\t( id:1 )" := by
  let negated : Expr := .neg ⟨none, some " "⟩ (.filter
    (.tagAny .equal (.words ⟨.word, "a"⟩ [some ⟨.word, "b"⟩]) ⟨some " ", some " "⟩))
  let group : Expr := .group ⟨none, some " "⟩ (.filter (.number .id ⟨none, none⟩ "1"))
    ⟨some " ", none⟩
  have h : parse "not a:b = * or\t( id:1 )" =
      .ok (.expr (.join .disj negated ⟨some " ", some "\t"⟩ group)) := by decide +kernel
  obtain ⟨htext, hbracketed, hjoin, -, hunique⟩ := parse_lossless h
  exact ⟨_, h, htext, hbracketed, hjoin, fun s' t' h' hn => (hunique s' t' h' hn).1⟩

end MapFilter
