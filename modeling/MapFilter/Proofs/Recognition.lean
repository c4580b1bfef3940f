import MapFilter.Proofs.Composition
import MapFilter.Proofs.RangeText

/-!
# Recognizing parts by their texts

Which kind of expression a node is can be told from the number of its parts and their texts: two
parts are a negation, three are a group if the outer ones are parentheses and two joined expressions
if not. The stars of a pattern can be told from the texts of its first and its last part. This is so
because no expression has a parenthesis as its text, and no text of a tag is a star.
-/

namespace MapFilter

open Compiler

/-- The parts that a node is made of. -/
def Node.children : Node → List Node
  | .leaf _ => []
  | .branch _ ns => ns

/-- The text of a node without white space at its ends. -/
def Node.trimmed (n : Node) : String := .ofList (trim n.text.toList)

/-- The text of a node in capital letters. -/
def Node.capital (n : Node) : String := .ofList ((trim n.text.toList).map Char.toUpper)

/-! ## Deciding by texts -/

/-- What is done after the parts of an expression. -/
def Compiler.finish : List Node → Compiler Unit
  | [left, middle, right] =>
    if left.trimmed = "(" ∧ right.trimmed = ")" then do
      let e ← pop
      push ("(" ++ e ++ ")")
    else do
      let r ← pop
      let l ← pop
      push (l ++ " " ++ middle.capital ++ " " ++ r)
  | [left, _] => do
    let e ← pop
    push (left.capital ++ " " ++ e)
  | _ => pure ()

/-- A pattern with the stars that are the texts of its outer parts. -/
def Pattern.recognized (p : Pattern) : Pattern :=
  ⟨p.node.children.head?.map Node.text == some "*", p.text,
    p.node.children.getLast?.map Node.text == some "*"⟩

def Filter.recognized : Filter → Filter
  | .tagLike key op pattern => .tagLike key op pattern.recognized
  | f => f

/-- Compiles an expression by the number of its parts and their texts. -/
def Expr.recognize : Expr → Compiler Unit
  | .filter f => do
    perform f.parts
    Compiler.filter f.recognized
    finish (Expr.filter f).node.children
  | .group left e right => do
    e.recognize
    finish (Expr.group left e right).node.children
  | .neg op e => do
    e.recognize
    finish (Expr.neg op e).node.children
  | .join j l op r => do
    l.recognize
    r.recognize
    finish (Expr.join j l op r).node.children

/-! ## Texts of expressions -/

lemma mem_trim {cs : List Char} {c : Char} (hc : c ∈ cs) (hblank : isBlank c = false) :
    c ∈ trim cs := by
  have hdrop : ∀ {ds : List Char}, c ∈ ds → c ∈ ds.dropWhile isBlank := by
    intro ds hds
    rw [← List.takeWhile_append_dropWhile (p := isBlank) (l := ds), List.mem_append] at hds
    refine hds.resolve_left fun htake => ?_
    rw [List.all_eq_true.1 List.all_takeWhile c htake] at hblank
    cases hblank
  exact List.mem_reverse.2 (hdrop (List.mem_reverse.2 (hdrop hc)))

/-- Every filter has a symbol or a word that compares it with something. -/
lemma Filter.exists_sign (f : Filter) : ∃ c ∈ f.node.text.toList, c ∈ ['=', '~', ':', 'i'] := by
  have hsign : ∀ (op : Padding) (s : Sign), op.node s ∈ f.nodes →
      ∀ c ∈ (s.kind.spelling?.getD "").toList, c ∈ f.node.text.toList := by
    intro op s hop c hc
    obtain ⟨us, vs, hnodes⟩ := List.append_of_mem hop
    rw [Node.toList_text, Filter.node, hnodes]
    simp [Padding.node, Kind.node, hc]
  cases f with
  | tag c key op value | tagAny c key op =>
    refine ⟨'=', hsign op c.sign (by simp [nodes]) '=' ?_, by decide⟩
    cases c <;> decide
  | tagIn key op values =>
    exact ⟨'i', hsign op .member (by simp [nodes]) 'i' (by decide), by decide⟩
  | tagLike key op p => exact ⟨'~', hsign op .tilde (by simp [nodes]) '~' (by decide), by decide⟩
  | type op | geometry op | object op | objects op | number _ op | numbers _ op | range _ op =>
    exact ⟨':', hsign op .colon (by simp [nodes]) ':' (by decide), by decide⟩

lemma Expr.exists_sign (e : Expr) : ∃ c ∈ e.node.text.toList, c ∈ ['=', '~', ':', 'i'] := by
  induction e with
  | filter f => simpa [node, Node.toList_text] using f.exists_sign
  | group left e right ih | neg op e ih =>
    obtain ⟨c, hc, hsign⟩ := ih
    rw [Node.toList_text] at hc
    exact ⟨c, by simp [node, Node.toList_text, hc], hsign⟩
  | join j l op r ihl _ =>
    obtain ⟨c, hc, hsign⟩ := ihl
    rw [Node.toList_text] at hc
    exact ⟨c, by simp [node, Node.toList_text, hc], hsign⟩

/-- No expression is a parenthesis. -/
lemma Expr.trimmed_ne_paren (e : Expr) : e.node.trimmed ≠ "(" := by
  intro hparen
  obtain ⟨c, hc, hsign⟩ := e.exists_sign
  have hblank : isBlank c = false := by
    have hall : ['=', '~', ':', 'i'].all (!isBlank ·) = true := by decide
    simpa using List.all_eq_true.1 hall c hsign
  have hmem : c ∈ e.node.trimmed.toList := by
    rw [Node.trimmed, String.toList_ofList]
    exact mem_trim hc hblank
  rw [hparen] at hmem
  obtain rfl : c = '(' := by simpa using hmem
  revert hsign
  decide

/-- What is left of a symbol or word when it is trimmed. -/
lemma Padding.trim_node {p : Padding} {s : Sign} (h : ∀ l ∈ (p.node s).leaves, l.Spelled) :
    trim (p.node s).text.toList = (s.kind.spelling?.getD "").toList := by
  obtain ⟨u, v, hu, hv, hchars⟩ := Padding.chars h
  have hsolid : (s.kind.spelling?.getD "").toList.all (!isBlank ·) = true := by cases s <;> decide
  have htrimmed : Trimmed (s.kind.spelling?.getD "").toList :=
    .of_forall (by cases s <;> decide) (by simpa using hsolid)
  rw [Node.toList_text, hchars, trim_append hu htrimmed hv]

/-! ## Texts of tags -/

/-- The star is no other token. A quoted text, which may have stars in it, begins with a quote. -/
lemma Lexeme.Spelled.text_ne_star {l : Lexeme} (h : l.Spelled) (hk : l.kind ≠ .star) :
    l.text ≠ "*" := by
  intro hstar
  rw [Spelled, hstar] at h
  by_cases hquoted : l.kind = .quoted
  · rw [hquoted] at h
    obtain ⟨u, v, huv, hu, -⟩ := Regex.matches_seq_iff.1 h
    rw [Regex.matches_char_iff.1 hu] at huv
    cases huv
  · have hmentions := h.mentions (c := '*') (by decide)
    revert hk hquoted hmentions
    cases l.kind <;> decide

/-- The text of a tag is no star. -/
lemma Text.text_ne_star {t : Text} (hs : ∀ l ∈ t.node.leaves, l.Spelled) (ht : t.Proper) :
    t.node.text ≠ "*" := by
  have hsingle : ∀ l, t.node.leaves = [l] → l.kind ≠ .star → t.node.text ≠ "*" := by
    intro l hl hk hstar
    refine (hs l (by simp [hl])).text_ne_star hk (String.toList_injective ?_)
    rw [← hstar, Node.toList_text, hl]
    simp
  cases t with
  | quoted s => exact hsingle ⟨.quoted, s⟩ (by simp [node]) (by simp)
  | number s => exact hsingle ⟨.number, s⟩ (by simp [node]) (by simp)
  | words first more =>
    cases more with
    | nil =>
      refine hsingle first (by simp [node]) fun hk => ?_
      have hword : first.kind.isWord = true := ht.1
      rw [hk] at hword
      cases hword
    | cons w more =>
      intro hstar
      have hcolon : ':' ∈ (Text.words first (w :: more)).node.text.toList := by
        simp [Node.toList_text, node, Kind.node, Kind.spelling?]
      rw [hstar] at hcolon
      revert hcolon
      decide

/-! ## Recognizing what was parsed -/

/-- The stars of a pattern are its outer parts. -/
lemma Pattern.recognized_eq {p : Pattern} (hs : ∀ l ∈ p.node.leaves, l.Spelled)
    (hp : p.text.Proper) : p.recognized = p := by
  have htext : p.text.node.text ≠ "*" := by
    refine Text.text_ne_star (fun l hl => hs l ?_) hp
    simp [Pattern.node, hl]
  have hstar : Kind.star.node.text = "*" := by decide
  obtain ⟨leading, text, trailing⟩ := p
  cases leading <;> cases trailing <;>
    simp [recognized, Pattern.node, Node.children, htext, hstar]

lemma Filter.recognized_eq {f : Filter} (hs : ∀ l ∈ f.node.leaves, l.Spelled)
    (ht : ∀ t ∈ f.texts, t.Proper) : f.recognized = f := by
  cases f with
  | tagLike key op pattern =>
    have hpattern : pattern.recognized = pattern := by
      refine Pattern.recognized_eq (fun l hl => hs l ?_) (ht _ (by simp [texts]))
      simp [Filter.node, nodes, hl]
    rw [recognized, hpattern]
  | _ => rfl

/-- The step that comes after the parts of an expression. -/
def Expr.lastStep : Expr → Step
  | .filter _ => .single
  | .group .. => .group
  | .neg .. => .neg
  | .join j .. => .join j

/-- The parts of an expression tell what is done after them. -/
lemma Expr.finish_eq {e : Expr} (hs : ∀ l ∈ e.node.leaves, l.Spelled) :
    finish e.node.children = e.lastStep.perform := by
  cases e with
  | filter f => rfl
  | group left e right =>
    have hleft := Padding.trim_node (p := left) (s := .lparen) fun l hl => hs l (by simp [node, hl])
    have hright := Padding.trim_node (p := right) (s := .rparen) fun l hl =>
      hs l (by simp [node, hl])
    have hparens : (left.node .lparen).trimmed = "(" ∧ (right.node .rparen).trimmed = ")" := by
      rw [Node.trimmed, Node.trimmed, hleft, hright]
      exact ⟨rfl, rfl⟩
    rw [node, Node.children, finish, if_pos hparens]
    rfl
  | neg op e =>
    have hop := Padding.trim_node (p := op) (s := .neg) fun l hl => hs l (by simp [node, hl])
    have hword : (op.node .neg).capital = "NOT" := by
      rw [Node.capital, hop]
      decide
    rw [node, Node.children, finish, hword]
    rfl
  | join j l op r =>
    have hop := Padding.trim_node (p := op) (s := j.sign) fun l hl => hs l (by simp [node, hl])
    have hword : (op.node j.sign).capital = word j := by
      rw [Node.capital, hop]
      cases j <;> decide
    rw [node, Node.children, finish, if_neg fun h => l.trimmed_ne_paren h.1, hword]
    rfl

/-- An expression is compiled by its texts as it is by what it is. -/
theorem Expr.exec_recognize {e : Expr} (hs : ∀ l ∈ e.node.leaves, l.Spelled) (hg : e.Grammatical)
    (s : State) : exec e.recognize s = exec (perform e.steps) s := by
  have hstep : ∀ (step : Step) (s : State), exec step.perform s = exec (perform [step]) s := by
    intro step s
    rw [exec_perform_cons]
    rcases exec step.perform s with ⟨_ | _, _⟩ <;> rfl
  induction e generalizing s with
  | filter f =>
    have hf : f.recognized = f := by
      refine Filter.recognized_eq (fun l hl => hs l ?_) (hg f (by simp [filters])).texts
      simpa [node] using hl
    rw [recognize, finish_eq hs, hf, exec_filter_steps, exec_bind]
    congr 1
    funext _ s₁
    rw [exec_bind]
    rcases exec (Compiler.filter f) s₁ with ⟨_ | _, _⟩ <;> rfl
  | group left e right ih | neg op e ih =>
    have he : ∀ l ∈ e.node.leaves, l.Spelled := fun l hl => hs l (by simp [node, hl])
    rw [recognize, finish_eq hs, exec_bind, ih he hg, steps, exec_perform_append]
    congr 1
    funext _ s₁
    exact hstep _ s₁
  | join j l op r ihl ihr =>
    have hl : ∀ x ∈ l.node.leaves, x.Spelled := fun x hx => hs x (by simp [node, hx])
    have hr : ∀ x ∈ r.node.leaves, x.Spelled := fun x hx => hs x (by simp [node, hx])
    obtain ⟨hgl, hgr⟩ := grammatical_join.1 hg
    rw [recognize, finish_eq hs, exec_bind, ihl hl hgl, steps, exec_perform_append,
      exec_perform_append]
    rcases exec (perform l.steps) s with ⟨_ | _, s₁⟩
    · rfl
    · rw [andThen_ok, andThen_ok, exec_bind, ihr hr hgr]
      congr 1
      funext _ s₂
      exact hstep _ s₂

/-- What is parsed is compiled in the same way if it is told from texts what its parts are. -/
theorem exec_recognize_of_parse {text : String} {e : Expr} (hparse : parse text = .ok (.expr e))
    (s : State) : exec e.recognize s = exec (perform e.steps) s :=
  Expr.exec_recognize (lexes_of_parse hparse).spelled (parse_grammatical hparse) s

end MapFilter
