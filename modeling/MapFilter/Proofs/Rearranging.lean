import MapFilter.Proofs.Completeness
import MapFilter.Proofs.Scanning

/-!
# Rearranging a tree

The tokens of any tree are also those of one in which the operands hold together as tight as they
have to, and in which white space belongs to the left of two symbols. For precedence, operands are
put to the left operand one after the other. For white space, each symbol takes what stands before the
next one; nothing is lost, since no two tokens of white space stand side by side.
-/

namespace MapFilter

namespace Expr

variable {e l r : Expr} {level : Level}

/-! ## Precedence -/

lemma Fits.whole (h : e.Fits level) : e.Fits .whole := by
  cases e with
  | join j l op r => exact ⟨rfl, h.2⟩
  | _ => exact h

/-- The word `not` before an expression negates its first operand. -/
lemma exists_negated (op : Padding) (h : e.Fits level) :
    ∃ e' : Expr, e'.Fits level ∧ e'.filters = e.filters ∧
      e'.node.leaves = (op.node .neg).leaves ++ e.node.leaves := by
  induction e generalizing level with
  | filter f => exact ⟨.neg op (.filter f), h, rfl, by simp [node]⟩
  | group left e right _ => exact ⟨.neg op (.group left e right), h, rfl, by simp [node]⟩
  | neg op' e _ => exact ⟨.neg op (.neg op' e), h, rfl, by simp [node]⟩
  | join j l op' r ihl _ =>
    obtain ⟨l', hl, hfilters, hleaves⟩ := ihl h.2.1
    exact ⟨.join j l' op' r, ⟨h.1, hl, h.2.2⟩, by simp [filters, hfilters],
      by simp [node, hleaves]⟩

/-- One more operand, which already holds together as tight as its word asks for. Behind `or` the
word `and` takes only the last operand. -/
lemma exists_attached (j : Joint) (op : Padding) (hl : l.Fits .whole) (hr : r.Fits j.rightLevel) :
    ∃ e : Expr, e.Fits .whole ∧ e.filters = l.filters ++ r.filters ∧
      e.node.leaves = l.node.leaves ++ (op.node j.sign).leaves ++ r.node.leaves := by
  cases j with
  | disj => exact ⟨.join .disj l op r, ⟨rfl, hl, hr⟩, rfl, by simp [node]⟩
  | conj =>
    by_cases hconj : l.Fits .conjunction
    · exact ⟨.join .conj l op r, ⟨rfl, hconj, hr⟩, rfl, by simp [node]⟩
    · cases l with
      | join j' l₁ op' l₂ =>
        cases j' with
        | conj => exact absurd ⟨rfl, hl.2⟩ hconj
        | disj =>
          exact ⟨.join .disj l₁ op' (.join .conj l₂ op r), ⟨rfl, hl.2.1, rfl, hl.2.2, hr⟩,
            by simp [filters], by simp [node]⟩
      | _ => exact absurd hl hconj

lemma exists_joined (j : Joint) (op : Padding) (hl : l.Fits .whole) (hr : r.Fits .whole) :
    ∃ e : Expr, e.Fits .whole ∧ e.filters = l.filters ++ r.filters ∧
      e.node.leaves = l.node.leaves ++ (op.node j.sign).leaves ++ r.node.leaves := by
  induction r with
  | filter f => exact exists_attached j op hl trivial
  | group left e right _ =>
    exact exists_attached j op hl (Fits.of_operand (e := .group left e right) hr _)
  | neg op' e _ => exact exists_attached j op hl (Fits.of_operand (e := .neg op' e) hr _)
  | join j' r₁ op' r₂ ih _ =>
    obtain ⟨e, he, hfilters, hleaves⟩ := ih hr.2.1.whole
    obtain ⟨e', he', hfilters', hleaves'⟩ := exists_attached j' op' he hr.2.2
    exact ⟨e', he', by simp [hfilters', hfilters, filters], by simp [hleaves', hleaves, node]⟩

/-- The tokens of every expression are those of one whose operands hold together. -/
theorem exists_fits (e : Expr) :
    ∃ e' : Expr, e'.Fits .whole ∧ e'.filters = e.filters ∧ e'.node.leaves = e.node.leaves := by
  induction e with
  | filter f => exact ⟨.filter f, trivial, rfl, rfl⟩
  | group left e right ih =>
    obtain ⟨e', hfits, hfilters, hleaves⟩ := ih
    exact ⟨.group left e' right, hfits, hfilters, by simp [node, hleaves]⟩
  | neg op e ih =>
    obtain ⟨e', hfits, hfilters, hleaves⟩ := ih
    obtain ⟨e'', hfits', hfilters', hleaves'⟩ := exists_negated op hfits
    exact ⟨e'', hfits', hfilters'.trans hfilters, by simp [hleaves', hleaves, node]⟩
  | join j l op r ihl ihr =>
    obtain ⟨l', hl, hlfilters, hlleaves⟩ := ihl
    obtain ⟨r', hr, hrfilters, hrleaves⟩ := ihr
    obtain ⟨e, he, hfilters, hleaves⟩ := exists_joined j op hl hr
    exact ⟨e, he, by simp [hfilters, hlfilters, hrfilters, filters],
      by simp [hleaves, hlleaves, hrleaves, node]⟩

end Expr

/-! ## White space between symbols -/

namespace Padding

variable {p q : Padding} {s t : Sign}

/-- The symbol takes more white space after it, if it has none yet. -/
def pad (p : Padding) (w : Option String) : Padding := ⟨p.before, p.after.or w⟩

/-- The symbol without the white space before it. -/
def unlead (p : Padding) : Padding := ⟨none, p.after⟩

lemma leaves_unlead (p : Padding) (s : Sign) :
    (p.node s).leaves = Node.leavesOf (spaceNodes p.before) ++ (p.unlead.node s).leaves := by
  simp [Padding.node, unlead, spaceNodes]

lemma leaves_pad {w : Option String} (h : Spaced ((p.node s).leaves ++ Node.leavesOf (spaceNodes w))) :
    ((p.pad w).node s).leaves = (p.node s).leaves ++ Node.leavesOf (spaceNodes w) := by
  obtain ⟨before, after⟩ := p
  cases after with
  | none => cases w <;> simp [Padding.node, pad, spaceNodes]
  | some a =>
    cases w with
    | none => simp [Padding.node, pad, spaceNodes]
    | some w =>
      have hpair : Spaced [⟨.space, a⟩, ⟨.space, w⟩] := by
        refine Spaced.right (k := Node.leavesOf (spaceNodes before) ++ s.kind.node.leaves) ?_
        simpa [Padding.node, spaceNodes] using h
      simp [Spaced] at hpair

/-- White space between two symbols goes to the left one. -/
lemma slide {ls : List Lexeme} (h : Spaced ((p.node s).leaves ++ ((q.node t).leaves ++ ls))) :
    ((p.pad q.before).node s).leaves ++ ((q.unlead.node t).leaves ++ ls) =
      (p.node s).leaves ++ ((q.node t).leaves ++ ls) := by
  rw [leaves_unlead q t, List.append_assoc, ← List.append_assoc] at h
  rw [leaves_pad h.left, leaves_unlead q t]
  simp

end Padding

/-! ## White space in filters -/

section Filters

variable {f : Filter} {w : Option String} {op : Padding}

/-- White space after a filter that ends with a symbol. -/
def Filter.pad (w : Option String) : Filter → Filter
  | .tagIn key op l => .tagIn key op ⟨l.left, l.first, l.more, l.right.pad w⟩
  | .objects op l => .objects op ⟨l.left, l.first, l.more, l.right.pad w⟩
  | .numbers s op l => .numbers s op ⟨l.left, l.first, l.more, l.right.pad w⟩
  | .range s op r => .range s op ⟨r.left, r.bounds, r.right.pad w⟩
  | f => f

lemma Filter.grammatical_pad (h : f.Grammatical) : (f.pad w).Grammatical := by
  obtain ⟨hproper, htexts⟩ := h
  cases f <;> exact ⟨hproper, htexts⟩

lemma Filter.tight_pad (h : f.Tight) : (f.pad w).Tight := by
  cases f with
  | range s op r =>
    obtain ⟨left, b, right⟩ := r
    cases b <;> exact h
  | _ => exact h

/-- A list or a range ends with its right parenthesis. -/
lemma Filter.leaves_pad (hc : f.closes = true)
    (h : Spaced (f.node.leaves ++ Node.leavesOf (spaceNodes w))) :
    (f.pad w).node.leaves = f.node.leaves ++ Node.leavesOf (spaceNodes w) := by
  have hlast : ∃ (ls : List Lexeme) (p : Padding), f.node.leaves = ls ++ (p.node .rparen).leaves ∧
      (f.pad w).node.leaves = ls ++ ((p.pad w).node .rparen).leaves := by
    cases f <;> cases hc
    all_goals
      simp only [Filter.pad, Filter.node, Filter.nodes, Listed.nodes, Range.node, Node.leaves_branch,
        Node.leavesOf_cons, Node.leavesOf_append, Node.leavesOf_nil, List.append_nil]
      simp only [← List.append_assoc]
      exact ⟨_, _, rfl, rfl⟩
  obtain ⟨ls, p, hleaves, hpad⟩ := hlast
  rw [hleaves, List.append_assoc] at h
  rw [hpad, hleaves, List.append_assoc, Padding.leaves_pad h.right]

/-- In a range the dots can stand beside either parenthesis. -/
lemma Range.exists_tight {r : Range} {g : Grain} (h : Spaced (r.node g).leaves) :
    ∃ r' : Range, r'.Tight ∧ r'.left.before = r.left.before ∧ r'.bounds.written = r.bounds.written ∧
      (r'.node g).leaves = (r.node g).leaves := by
  obtain ⟨left, b, right⟩ := r
  cases b with
  | both l d u => exact ⟨⟨left, .both l d u, right⟩, trivial, rfl, rfl, rfl⟩
  | upTo d u =>
    refine ⟨⟨left.pad d.before, .upTo d.unlead u, right⟩, rfl, rfl, rfl, ?_⟩
    simp only [Range.node, Bounds.nodes, Node.leaves_branch, Node.leavesOf_cons, List.cons_append]
      at h ⊢
    exact Padding.slide h
  | startingAt l d =>
    refine ⟨⟨left, .startingAt l (d.pad right.before), right.unlead⟩, rfl, rfl, rfl, ?_⟩
    simp only [Range.node, Bounds.nodes, Node.leaves_branch, Node.leavesOf_cons, List.cons_append,
      List.nil_append] at h ⊢
    rw [Padding.slide h.right.right]

/-- The tokens of every filter are those of one in which white space belongs to the left. -/
theorem Filter.exists_tight (hf : f.Grammatical) (h : Spaced f.node.leaves) :
    ∃ f' : Filter, f'.Grammatical ∧ f'.Tight ∧ f'.node.leaves = f.node.leaves := by
  obtain ⟨hproper, htexts⟩ := hf
  cases f with
  | tagIn key op l =>
    refine ⟨.tagIn key (op.pad l.left.before) ⟨l.left.unlead, l.first, l.more, l.right⟩,
      ⟨trivial, htexts⟩, rfl, ?_⟩
    simp only [Filter.node, Filter.nodes, Listed.nodes, Node.leaves_branch, Node.leavesOf_cons] at h ⊢
    rw [Padding.slide h.right]
  | objects op l =>
    refine ⟨.objects (op.pad l.left.before) ⟨l.left.unlead, l.first, l.more, l.right⟩,
      ⟨trivial, htexts⟩, rfl, ?_⟩
    simp only [Filter.node, Filter.nodes, Listed.nodes, Node.leaves_branch, Node.leavesOf_cons] at h ⊢
    rw [Padding.slide h.right]
  | numbers s op l =>
    refine ⟨.numbers s (op.pad l.left.before) ⟨l.left.unlead, l.first, l.more, l.right⟩,
      ⟨trivial, htexts⟩, rfl, ?_⟩
    simp only [Filter.node, Filter.nodes, Listed.nodes, Node.leaves_branch, Node.leavesOf_cons] at h ⊢
    rw [Padding.slide h.right]
  | range s op r =>
    have hleaves : (Filter.range s op r).node.leaves =
        s.kind.node.leaves ++ ((op.node .colon).leaves ++ (r.node s.grain).leaves) := by
      simp [Filter.node, Filter.nodes]
    rw [hleaves] at h
    obtain ⟨r', htight, hbefore, hwritten, hr⟩ := Range.exists_tight h.right.right
    refine ⟨.range s (op.pad r.left.before) ⟨r'.left.unlead, r'.bounds, r'.right⟩,
      ⟨?_, htexts⟩, ⟨rfl, htight⟩, ?_⟩
    · intro l hl
      exact hproper l (hwritten ▸ hl)
    · rw [hleaves, ← hr]
      rw [← hr] at h
      simp only [Filter.node, Filter.nodes, Range.node, Node.leaves_branch, Node.leavesOf_cons,
        Node.leavesOf_nil, List.append_nil] at h ⊢
      rw [← hbefore, Padding.slide h.right]
  | _ => exact ⟨_, ⟨hproper, htexts⟩, trivial, rfl⟩

end Filters

/-! ## White space in expressions -/

namespace Expr

variable {e : Expr} {level : Level} {w : Option String} {p : Padding} {s : Sign}

/-- An expression without the white space at its front. -/
def unlead : Expr → Expr
  | .filter f => .filter f
  | .group left e right => .group left.unlead e right
  | .neg op e => .neg op.unlead e
  | .join j l op r => .join j l.unlead op r

/-- White space after an expression that ends with a symbol. -/
def pad (w : Option String) : Expr → Expr
  | .filter f => .filter (f.pad w)
  | .group left e right => .group left e (right.pad w)
  | .neg op e => .neg op (e.pad w)
  | .join j l op r => .join j l op (r.pad w)

lemma leaves_unlead (e : Expr) :
    e.node.leaves = Node.leavesOf (spaceNodes e.lead) ++ e.unlead.node.leaves := by
  induction e with
  | filter f => simp [lead, unlead, spaceNodes]
  | group left e right _ =>
    simp only [node, unlead, lead, Node.leaves_branch, Node.leavesOf_cons]
    rw [Padding.leaves_unlead, List.append_assoc]
  | neg op e _ =>
    simp only [node, unlead, lead, Node.leaves_branch, Node.leavesOf_cons]
    rw [Padding.leaves_unlead, List.append_assoc]
  | join j l op r ihl _ =>
    simp only [node, unlead, lead, Node.leaves_branch, Node.leavesOf_cons]
    rw [ihl, List.append_assoc]

@[simp] lemma lead_unlead (e : Expr) : e.unlead.lead = none := by
  induction e with
  | join j l op r ihl _ => exact ihl
  | _ => rfl

@[simp] lemma filters_unlead (e : Expr) : e.unlead.filters = e.filters := by
  induction e with
  | join j l op r ihl _ => simp [unlead, filters, ihl]
  | _ => rfl

@[simp] lemma closes_unlead (e : Expr) : e.unlead.closes = e.closes := by
  cases e <;> rfl

lemma Fits.unlead (h : e.Fits level) : e.unlead.Fits level := by
  induction e generalizing level with
  | join j l op r ihl _ => exact ⟨h.1, ihl h.2.1, h.2.2⟩
  | _ => exact h

lemma Tight.unlead (h : e.Tight) : e.unlead.Tight := by
  induction e with
  | join j l op r ihl _ => exact ⟨ihl h.1, by simpa using h.2.1, h.2.2⟩
  | _ => exact h

lemma leaves_pad (hc : e.closes = true)
    (h : Spaced (e.node.leaves ++ Node.leavesOf (spaceNodes w))) :
    (e.pad w).node.leaves = e.node.leaves ++ Node.leavesOf (spaceNodes w) := by
  induction e with
  | filter f =>
    have hleaves : ∀ f : Filter, (Expr.filter f).node.leaves = f.node.leaves := fun f => by simp [node]
    rw [hleaves] at h
    rw [pad, hleaves, hleaves, Filter.leaves_pad hc h]
  | group left e right _ =>
    simp only [node, pad, Node.leaves_branch, Node.leavesOf_cons, Node.leavesOf_nil, List.append_nil,
      List.append_assoc] at h ⊢
    rw [Padding.leaves_pad h.right.right]
  | neg op e ih =>
    simp only [node, pad, Node.leaves_branch, Node.leavesOf_cons, Node.leavesOf_nil, List.append_nil,
      List.append_assoc] at h ⊢
    rw [ih hc h.right]
  | join j l op r _ ihr =>
    simp only [node, pad, Node.leaves_branch, Node.leavesOf_cons, Node.leavesOf_nil, List.append_nil,
      List.append_assoc] at h ⊢
    rw [ihr hc h.right.right]

lemma lead_pad (e : Expr) : (e.pad w).lead = e.lead := by
  cases e <;> rfl

lemma Grammatical.pad (h : e.Grammatical) : (e.pad w).Grammatical := by
  induction e with
  | filter f =>
    have hf := Filter.grammatical_pad (w := w) (h f (by simp [filters]))
    simpa [Grammatical, Expr.pad, filters] using hf
  | group left e right _ => exact h
  | neg op e ih => exact ih h
  | join j l op r _ ihr =>
    obtain ⟨hl, hr⟩ := grammatical_join.1 h
    exact grammatical_join.2 ⟨hl, ihr hr⟩

lemma Fits.pad (h : e.Fits level) : (e.pad w).Fits level := by
  induction e generalizing level with
  | filter f => trivial
  | group left e right _ => exact h
  | neg op e ih => exact ih h
  | join j l op r _ ihr => exact ⟨h.1, h.2.1, ihr h.2.2⟩

lemma Tight.pad (h : e.Tight) : (e.pad w).Tight := by
  induction e with
  | filter f => exact Filter.tight_pad h
  | group left e right _ => exact h
  | neg op e ih => exact ⟨ih h.1, by rw [lead_pad]; exact h.2⟩
  | join j l op r _ ihr => exact ⟨h.1, h.2.1, ihr h.2.2.1, by rw [lead_pad]; exact h.2.2.2⟩

/-- White space between a symbol and an expression goes to the symbol. -/
lemma slide_lead {ls : List Lexeme} (h : Spaced ((p.node s).leaves ++ (e.node.leaves ++ ls))) :
    ((p.pad e.lead).node s).leaves ++ (e.unlead.node.leaves ++ ls) =
      (p.node s).leaves ++ (e.node.leaves ++ ls) := by
  rw [leaves_unlead e, List.append_assoc, ← List.append_assoc] at h
  rw [Padding.leaves_pad h.left, leaves_unlead e]
  simp

/-- White space between an expression and a symbol goes to the expression, if that ends with a
symbol. -/
lemma exists_slide_trail {ls : List Lexeme} (htight : e.Tight) (hfits : e.Fits level)
    (hg : e.Grammatical) (h : Spaced (e.node.leaves ++ ((p.node s).leaves ++ ls))) :
    ∃ (e' : Expr) (p' : Padding), e'.Tight ∧ e'.Fits level ∧ e'.Grammatical ∧ e'.lead = e.lead ∧
      (e'.closes = true → p'.before = none) ∧
      e'.node.leaves ++ ((p'.node s).leaves ++ ls) = e.node.leaves ++ ((p.node s).leaves ++ ls) := by
  by_cases hc : e.closes = true
  · refine ⟨e.pad p.before, p.unlead, htight.pad, hfits.pad, hg.pad, lead_pad e, fun _ => rfl, ?_⟩
    rw [Padding.leaves_unlead p s, List.append_assoc, ← List.append_assoc] at h
    rw [leaves_pad hc h.left, Padding.leaves_unlead p s]
    simp
  · exact ⟨e, p, htight, hfits, hg, rfl, fun h => absurd h hc, rfl⟩

/-- The tokens of every expression are those of one in which white space belongs to the left. -/
theorem exists_tight (hg : e.Grammatical) (hfits : e.Fits level) (h : Spaced e.node.leaves) :
    ∃ e' : Expr, e'.Grammatical ∧ e'.Fits level ∧ e'.Tight ∧ e'.node.leaves = e.node.leaves := by
  induction e generalizing level with
  | filter f =>
    obtain ⟨f', hg', htight, hleaves⟩ :=
      Filter.exists_tight (hg f (by simp [filters])) (by simpa [node] using h)
    exact ⟨.filter f', by simpa [Grammatical, filters] using hg', trivial, htight,
      by simp [node, hleaves]⟩
  | group left e right ih =>
    have hleaves : ∀ (left : Padding) (e : Expr) (right : Padding), (group left e right).node.leaves =
        (left.node .lparen).leaves ++ (e.node.leaves ++ ((right.node .rparen).leaves ++ [])) := by
      intro left e right
      simp [node]
    rw [hleaves] at h ⊢
    obtain ⟨e₁, hg₁, hfits₁, htight₁, he₁⟩ := ih hg hfits h.right.left
    rw [← he₁] at h ⊢
    obtain ⟨e₂, right', htight₂, hfits₂, hg₂, -, hcloses, he₂⟩ :=
      exists_slide_trail htight₁ hfits₁ hg₁ h.right
    rw [← he₂] at h ⊢
    refine ⟨.group (left.pad e₂.lead) e₂.unlead right', ?_, hfits₂.unlead, ?_, ?_⟩
    · simpa [Grammatical, filters] using hg₂
    · exact ⟨htight₂.unlead, lead_unlead e₂, by simpa using hcloses⟩
    · rw [hleaves, slide_lead h]
  | neg op e ih =>
    have hleaves : ∀ (op : Padding) (e : Expr), (neg op e).node.leaves =
        (op.node .neg).leaves ++ (e.node.leaves ++ []) := by
      intro op e
      simp [node]
    rw [hleaves] at h ⊢
    obtain ⟨e₁, hg₁, hfits₁, htight₁, he₁⟩ := ih hg hfits h.right.left
    rw [← he₁] at h ⊢
    refine ⟨.neg (op.pad e₁.lead) e₁.unlead, ?_, hfits₁.unlead, ?_, ?_⟩
    · simpa [Grammatical, filters] using hg₁
    · exact ⟨htight₁.unlead, lead_unlead e₁⟩
    · rw [hleaves, slide_lead h]
  | join j l op r ihl ihr =>
    have hleaves : ∀ (l : Expr) (op : Padding) (r : Expr), (join j l op r).node.leaves =
        l.node.leaves ++ ((op.node j.sign).leaves ++ (r.node.leaves ++ [])) := by
      intro l op r
      simp [node]
    obtain ⟨hgl, hgr⟩ := grammatical_join.1 hg
    rw [hleaves] at h ⊢
    obtain ⟨l₁, hgl₁, hfitsl, htightl, hl₁⟩ := ihl hgl hfits.2.1 h.left
    obtain ⟨r₁, hgr₁, hfitsr, htightr, hr₁⟩ := ihr hgr hfits.2.2 h.right.right.left
    rw [← hl₁, ← hr₁] at h ⊢
    obtain ⟨l₂, op', htight₂, hfits₂, hg₂, -, hcloses, hl₂⟩ := exists_slide_trail htightl hfitsl hgl₁ h
    rw [← hl₂] at h ⊢
    refine ⟨.join j l₂ (op'.pad r₁.lead) r₁.unlead, ?_, ⟨hfits.1, hfits₂, hfitsr.unlead⟩, ?_, ?_⟩
    · exact grammatical_join.2 ⟨hg₂, by simpa [Grammatical] using hgr₁⟩
    · exact ⟨htight₂, hcloses, htightr.unlead, lead_unlead r₁⟩
    · rw [hleaves, slide_lead h.right]

end Expr

end MapFilter
