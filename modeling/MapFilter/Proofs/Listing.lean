import MapFilter.Proofs.Composition
import MapFilter.Proofs.Provenance
import Mathlib.Data.Set.List

/-!
# Lists in filters

A list has each of its items once and in the order of the text, whatever white space stands between
them. All values of a tag are one argument, and so are all numbers of a list. Every object has two
arguments of its own, and the condition is that one of these pairs is met. Arguments are added
before their placeholders are written, so they are there also if a number is too long; but each
object is finished before the next one is begun.
-/

namespace MapFilter

open Compiler

/-! ## Items in the text -/

/-- The elements of a list in every other place, from the first on. -/
def everyOther {α : Type} : List α → List α
  | a :: _ :: l => a :: everyOther l
  | l => l

/-- The items of a filter with a list, as they stand in its text: after a key or a keyword, a symbol
and a parenthesis. A comma or the other parenthesis follows each of them. -/
def Filter.itemNodes (f : Filter) : List Node := everyOther (f.nodes.drop 3)

lemma Listed.everyOther_nodes {α : Type} (node : α → Node) (l : Listed α) :
    everyOther ((l.nodes node).drop 1) = l.items.map node := by
  have hmore : ∀ (a : Node) (more : List (Padding × α)) (last : Node),
      everyOther (a :: (more.flatMap (fun x => [x.1.node .comma, node x.2]) ++ [last])) =
        a :: more.map (node ·.2) := by
    intro a more last
    induction more generalizing a with
    | nil => rfl
    | cons x more ih => exact congrArg (a :: ·) (ih (node x.2))
  rw [Listed.items, List.map_cons, List.map_map]
  exact hmore (node l.first) l.more (l.right.node .rparen)

/-! ## Values of a tag -/

lemma Quoted.unescape?_of_ne_quote {s : String} {c : Char} {cs : List Char}
    (hs : s.toList = c :: cs) (hc : c ≠ '"') : unescape? s = some s := by
  simp [unescape?, hs, hc]

/-- A word does not begin with a quote. -/
lemma Lexeme.Spelled.exists_ne_quote {l : Lexeme} (h : l.Spelled) (hk : l.kind.isWord = true) :
    ∃ c cs, l.text.toList = c :: cs ∧ c ≠ '"' := by
  obtain ⟨c, cs, hcs⟩ := List.exists_cons_of_ne_nil h.ne_nil
  refine ⟨c, cs, hcs, ?_⟩
  rintro rfl
  rw [Lexeme.Spelled, hcs] at h
  rw [Lexer.eq_quoted_of_quote h] at hk
  cases hk

/-- A value in a list is the one that stands on the stack for it, between quotes. -/
lemma Text.listed_eq {t : Text} (hs : ∀ l ∈ t.node.leaves, l.Spelled) (hp : t.Proper) :
    t.listed = "\"" ++ t.content ++ "\"" := by
  suffices hcontent : (Quoted.unescape? t.node.text).getD "" = t.content by
    rw [Text.listed, hcontent]
  cases t with
  | quoted s | number s => simp [Text.node, Node.text, Text.content]
  | words w more =>
    cases more with
    | nil => simp [Text.node, Node.text, Text.content]
    | cons o more =>
      -- only here the text is looked at as a whole, and it cannot be taken for a quoted one
      obtain ⟨c, cs, hw, hc⟩ := (hs w (by simp [Text.node])).exists_ne_quote hp.1
      have hnode : ∃ ds, (Text.words w (o :: more)).node.text.toList = c :: ds := by
        rw [Node.toList_text]
        simp [Text.node, hw]
      obtain ⟨ds, hds⟩ := hnode
      rw [Quoted.unescape?_of_ne_quote hds hc]
      rfl

section TagIn

variable {key : Text} {op : Padding} {values : Listed Text}
  (hs : (Filter.tagIn key op values).Spelled)

include hs

lemma Filter.Spelled.listedTexts : ∀ t ∈ values.items, ∀ l ∈ t.node.leaves, l.Spelled :=
  fun t ht => hs.texts t (by simp [Filter.texts, ht])

lemma exec_tagIn_parts (s : State) :
    exec (perform (Filter.tagIn key op values).parts) s =
      (.ok (), ⟨(values.items.map Text.content).reverse ++ key.content :: s.stack, s.args,
        s.shift⟩) := by
  have hkey := hs.texts key (by simp [Filter.texts])
  rw [Filter.parts, exec_perform_cons, exec_text hkey, andThen_ok, exec_texts hs.listedTexts]

lemma map_listed (hp : ∀ t ∈ values.items, t.Proper) :
    values.items.map Text.listed = values.items.map fun t => "\"" ++ t.content ++ "\"" :=
  List.map_congr_left fun t ht => Text.listed_eq (hs.listedTexts t ht) (hp t ht)

end TagIn

/-! ## Numbers -/

lemma mapM_eq_ok {α β : Type} {f : α → Except Failure β} {g : α → β} {as : List α}
    (h : ∀ a ∈ as, f a = .ok (g a)) : as.mapM f = .ok (as.map g) := by
  induction as with
  | nil => rfl
  | cons a as ih =>
    rw [List.mapM_cons, h a (by simp), ih fun a ha => h a (by simp [ha])]
    rfl

lemma readWholes_eq {ns : List String} (h : ∀ n ∈ ns, n.toList.length ≤ Failure.digitLimit) :
    (ns.mapM fun n => Bounds.readWhole n.toList) =
      .ok (ns.map fun n => Decimal.ofDigits n.toList) :=
  mapM_eq_ok fun n hn => if_pos (h n hn)

/-! ## Objects -/

/-- An object, as it is named in a filter. -/
structure Object where
  type : String
  digits : String
  noSlash : '/' ∉ type.toList
  isDigits : IsDigits digits.toList

namespace Object

def text (o : Object) : String := o.type ++ "/" ++ o.digits

def id (o : Object) : Nat := Decimal.ofDigits o.digits.toList

def arguments (o : Object) : List Argument := [.number (.whole o.id), .text o.type]

def draft (o : Object) : Draft :=
  [.text "(osm_id = ", .arg (.number (.whole o.id)), .text " AND osm_type = ", .arg (.text o.type),
    .text ")"]

/-- The condition for an object whose arguments come after the `n`th. -/
def condition (n : Int) : String :=
  "(osm_id = " ++ slot (n + 1) ++ " AND osm_type = " ++ slot (n + 2) ++ ")"

lemma objectParts_text (o : Object) : objectParts o.text = (o.type, o.digits.toList) := by
  have htext : o.text.toList = o.type.toList ++ '/' :: o.digits.toList := by simp [text]
  rw [objectParts_of_slash htext o.noSlash, String.ofList_toList]

lemma objectDraft_text {o : Object} (h : o.digits.toList.length ≤ Failure.digitLimit) :
    objectDraft o.text = .ok o.draft := by
  rw [objectDraft, objectParts_text, Bounds.readWhole, if_pos h]
  rfl

lemma exists_of_spelled {t : String} (h : Lexeme.Spelled ⟨.objectId, t⟩) :
    ∃ o : Object, o.text = t := by
  obtain ⟨type, id, ht, htype, hid⟩ := h.objectId
  refine ⟨⟨.ofList type, .ofList id, by simpa, by simpa⟩, ?_⟩
  apply String.toList_injective
  simp [text, ht]

/-- The conditions for objects whose arguments come after the `n`th. -/
def conditions (n : Int) (os : List Object) : List String :=
  os.mapIdx fun i _ => condition (n + 2 * i)

lemma numberAll_draft (n : Int) (os : List Object) :
    Draft.numberAll n (os.map draft) = conditions n os := by
  induction os generalizing n with
  | nil => rfl
  | cons o os ih =>
    have hnumber : Draft.number n o.draft = condition n := by
      simp [draft, condition, slot, String.append_assoc, Int.add_assoc]
    have hlater : ∀ i : Nat, n + 2 + 2 * i = n + 2 * ↑(i + 1) := by omega
    rw [List.map_cons, Draft.numberAll, hnumber]
    simp [draft, ih, conditions, List.mapIdx_cons, hlater]

/-- One of the conditions is met. -/
def anyCondition (n : Int) (os : List Object) : String :=
  let any := String.intercalate " OR " (conditions n os)
  if os.length > 1 then "(" ++ any ++ ")" else any

lemma length_flatMap_arguments (os : List Object) :
    (os.flatMap arguments).length = 2 * os.length := by
  simp [arguments, Nat.mul_comm]

/-- Every object has two arguments, its number and its type. -/
lemma getElem?_flatMap_arguments {os : List Object} {i : Nat} {o : Object} (h : os[i]? = some o) :
    (os.flatMap arguments)[2 * i]? = some (.number (.whole o.id)) ∧
      (os.flatMap arguments)[2 * i + 1]? = some (.text o.type) := by
  induction os generalizing i with
  | nil => cases h
  | cons first os ih =>
    cases i with
    | zero =>
      cases h
      exact ⟨rfl, rfl⟩
    | succ i => exact ih h

end Object

section Objects

variable {op : Padding} {list : Listed String} {os : List Object}

lemma objectDrafts_eq (hos : list.items = os.map Object.text)
    (h : ∀ o ∈ os, o.digits.toList.length ≤ Failure.digitLimit) :
    list.items.mapM objectDraft = .ok (os.map Object.draft) := by
  rw [hos, List.mapM_map]
  exact mapM_eq_ok fun o ho => Object.objectDraft_text (h o ho)

lemma args_drafts (os : List Object) :
    (os.map Object.draft).flatMap Draft.args = os.flatMap Object.arguments :=
  List.flatMap_map ..

variable (hs : (Filter.objects op list).Spelled)

include hs

lemma exists_objects : ∃ os : List Object, list.items = os.map Object.text := by
  have hrange : list.items ∈ Set.range (List.map Object.text) := by
    rw [Set.range_list_map]
    exact fun t ht => Object.exists_of_spelled (hs.objectIds t ht)
  obtain ⟨os, hos⟩ := hrange
  exact ⟨os, hos.symm⟩

variable (hos : list.items = os.map Object.text)
  (h : ∀ o ∈ os, o.digits.toList.length ≤ Failure.digitLimit) (s : State)

include hos h

lemma exec_objects (hwritable : AllWritable s.last (2 * os.length)) :
    exec (Compiler.filter (.objects op list)) s =
      (.ok (), ⟨Object.anyCondition s.last os :: s.stack, s.args ++ os.flatMap Object.arguments,
        s.shift⟩) := by
  have hlength : (Object.conditions s.last os).length = os.length := List.length_mapIdx
  rw [← Object.length_flatMap_arguments, ← args_drafts] at hwritable
  rw [Compiler.filter, exec_bind, exec_objects_ok hs.objectIds s (objectDrafts_eq hos h) hwritable,
    Object.numberAll_draft, args_drafts, andThen_ok, exec_push, hlength]
  rfl

/-- A number that is too long leaves the stack as it was. -/
lemma exec_objects_not_writable (hlong : ¬AllWritable s.last (2 * os.length)) :
    ∃ added, exec (Compiler.filter (.objects op list)) s =
      (.error .longPlaceholder, ⟨s.stack, s.args ++ added, s.shift⟩) := by
  rw [← Object.length_flatMap_arguments, ← args_drafts,
    objectDrafts_args (objectDrafts_eq hos h)] at hlong
  obtain ⟨added, hexec, -⟩ := exec_objects_long hs.objectIds s hlong
  refine ⟨added, ?_⟩
  rw [Compiler.filter, exec_bind, hexec]
  rfl

end Objects

/-- Each condition refers to the number and the type of its object. -/
lemma argument?_objects (s : State) (stack : List String) {os : List Object} {i : Nat} {o : Object}
    (h : os[i]? = some o) :
    State.argument? ⟨stack, s.args ++ os.flatMap Object.arguments, s.shift⟩ (s.last + 2 * i + 1) =
        some (.number (.whole o.id)) ∧
      State.argument? ⟨stack, s.args ++ os.flatMap Object.arguments, s.shift⟩ (s.last + 2 * i + 2) =
        some (.text o.type) := by
  obtain ⟨hid, htype⟩ := Object.getElem?_flatMap_arguments h
  have hfirst : s.last + 2 * i + 1 = s.last + ((2 * i : Nat) + 1) := by omega
  have hsecond : s.last + 2 * i + 2 = s.last + ((2 * i + 1 : Nat) + 1) := by omega
  rw [hfirst, hsecond, State.argument?_last, State.argument?_last]
  exact ⟨hid, htype⟩

/-! ## All lists -/

/-- A list has the items that stand in the text, once and in their order. Values and numbers become
arguments in whatever state a list is compiled. Values are taken off the stack with the key of their
tag; what is below stays. Objects become arguments, with a condition on the stack, in every state in
which the numbers of their placeholders can be written. -/
theorem lists_keep_items {text : String} {e : Expr} (hparse : parse text = .ok (.expr e))
    (s : State) :
    (∀ key op values, .tagIn key op values ∈ e.filters →
      (Filter.tagIn key op values).itemNodes = values.items.map Text.node ∧
      exec (perform (Filter.tagIn key op values).parts) s =
        (.ok (), ⟨(values.items.map Text.content).reverse ++ key.content :: s.stack, s.args,
          s.shift⟩) ∧
      ∀ (popped : List String) (k : String), popped.length = values.items.length →
        exec (Compiler.filter (.tagIn key op values)) ⟨popped ++ k :: s.stack, s.args, s.shift⟩ =
          if AllWritable s.last 2 then
            (.ok (), ⟨("(tags -> " ++ slot (s.last + 1) ++ ") = ANY(" ++ slot (s.last + 2) ++ ")") ::
                s.stack,
              s.args ++ [.text k, .texts (values.items.map fun t => "\"" ++ t.content ++ "\"")],
              s.shift⟩)
          else (.error .longPlaceholder, ⟨s.stack,
            s.args ++ [.text k, .texts (values.items.map fun t => "\"" ++ t.content ++ "\"")],
            s.shift⟩)) ∧
    (∀ q op ns, .numbers q op ns ∈ e.filters →
      (Filter.numbers q op ns).itemNodes = ns.items.map (fun n => .leaf ⟨.number, n⟩) ∧
      ((∀ n ∈ ns.items, n.toList.length ≤ Failure.digitLimit) →
        exec (Compiler.filter (.numbers q op ns)) s =
          if AllWritable s.last 1 then
            (.ok (), ⟨(q.column ++ " = ANY(" ++ slot (s.last + 1) ++ ")") :: s.stack,
              s.args ++ [.numbers (ns.items.map fun n => Decimal.ofDigits n.toList)], s.shift⟩)
          else (.error .longPlaceholder, ⟨s.stack,
            s.args ++ [.numbers (ns.items.map fun n => Decimal.ofDigits n.toList)], s.shift⟩))) ∧
    ∀ op list, .objects op list ∈ e.filters →
      (Filter.objects op list).itemNodes = list.items.map (fun t => .leaf ⟨.objectId, t⟩) ∧
      (∃ os : List Object, list.items = os.map Object.text) ∧
      ∀ os : List Object, list.items = os.map Object.text →
        (∀ o ∈ os, o.digits.toList.length ≤ Failure.digitLimit) →
        (AllWritable s.last (2 * os.length) →
          ∃ s' : State, exec (Compiler.filter (.objects op list)) s = (.ok (), s') ∧
            s' = ⟨Object.anyCondition s.last os :: s.stack, s.args ++ os.flatMap Object.arguments,
              s.shift⟩ ∧
            ∀ (i : Nat) (o : Object), os[i]? = some o →
              s'.argument? (s.last + 2 * i + 1) = some (.number (.whole o.id)) ∧
                s'.argument? (s.last + 2 * i + 2) = some (.text o.type)) ∧
        (¬AllWritable s.last (2 * os.length) →
          ∃ added, exec (Compiler.filter (.objects op list)) s =
            (.error .longPlaceholder, ⟨s.stack, s.args ++ added, s.shift⟩)) := by
  have hspelled : ∀ f ∈ e.filters, f.Spelled := fun f hf =>
    ((parse_wellFormed hparse).genuine f hf).1
  refine ⟨fun key op values hf => ?_, fun q op ns hf => ?_, fun op list hf => ?_⟩
  · have hproper : ∀ t ∈ values.items, t.Proper := fun t ht =>
      (parse_grammatical hparse _ hf).texts t (by simp [Filter.texts, ht])
    refine ⟨values.everyOther_nodes Text.node, exec_tagIn_parts (hspelled _ hf) s,
      fun popped k hlen => ?_⟩
    rw [exec_tagIn s (hspelled _ hf).listedTexts hlen k, map_listed (hspelled _ hf) hproper]
  · exact ⟨ns.everyOther_nodes fun n => .leaf ⟨.number, n⟩,
      fun h => exec_numbers s (readWholes_eq h)⟩
  · refine ⟨list.everyOther_nodes fun t => .leaf ⟨.objectId, t⟩, exists_objects (hspelled _ hf),
      fun os hos h => ⟨fun hwritable => ?_, exec_objects_not_writable (hspelled _ hf) hos h s⟩⟩
    exact ⟨_, exec_objects (hspelled _ hf) hos h s hwritable, rfl,
      fun i o hi => argument?_objects s _ hi⟩

/-- Three values in a state in which there is something already, and two objects. -/
theorem lists_keep_items_mixed :
    ∃ e values list, parse "k in ( a:b ,\"c\",d) or id:( node/1 ,way/02)" = .ok (.expr e) ∧
      .tagIn (.words ⟨.word, "k"⟩ []) ⟨some " ", some " "⟩ values ∈ e.filters ∧
      .objects ⟨none, none⟩ list ∈ e.filters ∧
      exec (Compiler.filter (.tagIn (.words ⟨.word, "k"⟩ []) ⟨some " ", some " "⟩ values))
          ⟨["d", "c", "a:b", "k", "below"], [.text "x"], 2⟩ =
        (.ok (), ⟨["(tags -> $4) = ANY($5)", "below"],
          [.text "x", .text "k", .texts ["\"a:b\"", "\"c\"", "\"d\""]], 2⟩) ∧
      exec (Compiler.filter (.objects ⟨none, none⟩ list)) (.fresh 0) =
        (.ok (), ⟨["((osm_id = $1 AND osm_type = $2) OR (osm_id = $3 AND osm_type = $4))"],
          [.number (.whole 1), .text "node", .number (.whole 2), .text "way"], 0⟩) := by
  let values : Listed Text := ⟨⟨none, some " "⟩, .words ⟨.word, "a"⟩ [some ⟨.word, "b"⟩],
    [(⟨some " ", none⟩, .quoted "\"c\""), (⟨none, none⟩, .words ⟨.word, "d"⟩ [])], ⟨none, some " "⟩⟩
  let list : Listed String :=
    ⟨⟨none, some " "⟩, "node/1", [(⟨some " ", none⟩, "way/02")], ⟨none, none⟩⟩
  let e : Expr := .join .disj
    (.filter (.tagIn (.words ⟨.word, "k"⟩ []) ⟨some " ", some " "⟩ values)) ⟨none, some " "⟩
    (.filter (.objects ⟨none, none⟩ list))
  have hparse : parse "k in ( a:b ,\"c\",d) or id:( node/1 ,way/02)" = .ok (.expr e) := by
    decide +kernel
  have hvalues : .tagIn (.words ⟨.word, "k"⟩ []) ⟨some " ", some " "⟩ values ∈ e.filters := by
    decide +kernel
  have hlist : .objects ⟨none, none⟩ list ∈ e.filters := by decide +kernel
  have htags := ((lists_keep_items hparse ⟨["below"], [.text "x"], 2⟩).1 _ _ _ hvalues).2.2
    ["d", "c", "a:b"] "k" rfl
  rw [if_pos (by decide +kernel)] at htags
  let os : List Object := [⟨"node", "1", by decide, by simp [IsDigits]⟩,
    ⟨"way", "02", by decide, by simp [IsDigits]⟩]
  have hos : ∀ o ∈ os, o.digits.toList.length ≤ Failure.digitLimit := by
    simp [os, Failure.digitLimit]
  obtain ⟨s', hexec, rfl, -⟩ := (((lists_keep_items hparse (.fresh 0)).2.2 _ _ hlist).2.2 os
    (by decide +kernel) hos).1 (by decide +kernel)
  exact ⟨e, values, list, hparse, hvalues, hlist, htags.trans (by decide +kernel),
    hexec.trans (by decide +kernel)⟩

/-- After the greatest number an object has no condition. -/
theorem not_pushes_objects_greatest :
    ∃ list, parse "id:(node/1)" = .ok (.expr (.filter (.objects ⟨none, none⟩ list))) ∧
      ∃ s', exec (Compiler.filter (.objects ⟨none, none⟩ list)) (.fresh greatestNumber) =
        (.error .longPlaceholder, s') ∧ s'.stack = [] := by
  let list : Listed String := ⟨⟨none, none⟩, "node/1", [], ⟨none, none⟩⟩
  let os : List Object := [⟨"node", "1", by decide, by simp [IsDigits]⟩]
  have hparse : parse "id:(node/1)" = .ok (.expr (.filter (.objects ⟨none, none⟩ list))) := by
    decide +kernel
  have hs : (Filter.objects ⟨none, none⟩ list).Spelled :=
    ((parse_wellFormed hparse).genuine _ (by simp [Expr.filters])).1
  have hos : ∀ o ∈ os, o.digits.toList.length ≤ Failure.digitLimit := by
    simp [os, Failure.digitLimit]
  have hlong : ¬AllWritable (State.fresh greatestNumber).last (2 * os.length) := by
    rw [State.last_fresh]
    exact not_allWritable_greatestNumber (by decide)
  obtain ⟨added, hexec⟩ := exec_objects_not_writable hs (by decide +kernel) hos _ hlong
  exact ⟨list, hparse, _, hexec, rfl⟩

end MapFilter
