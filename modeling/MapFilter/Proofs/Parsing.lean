import MapFilter.Parser
import MapFilter.Proofs.Lexing

/-!
# What a parsed filter is made of

A parser that succeeds has stepped over tokens from the front of its input, and these are the tokens
of the tree it gives, from left to right. So the tokens of a tree are spelt as the grammar says.
Beside that, the bounds of a range are numbers, and the operands of `not`, `and` and `or` hold
together as tight as the precedence of these words asks for.
-/

namespace MapFilter

/-! ## Tokens of nodes -/

namespace Node

@[simp] lemma leaves_leaf (l : Lexeme) : (leaf l).leaves = [l] := by rw [leaves]

@[simp] lemma leaves_branch (r : Rule) (ns : List Node) : (branch r ns).leaves = leavesOf ns := by
  rw [leaves]

@[simp] lemma leavesOf_nil : leavesOf [] = [] := by rw [leavesOf]

@[simp] lemma leavesOf_cons (n : Node) (ns : List Node) :
    leavesOf (n :: ns) = n.leaves ++ leavesOf ns := by rw [leavesOf]

@[simp] lemma leavesOf_append (ms ns : List Node) :
    leavesOf (ms ++ ns) = leavesOf ms ++ leavesOf ns := by
  induction ms with
  | nil => simp
  | cons m ms ih => simp [ih]

end Node

/-! ## Shapes of trees -/

/-- The bounds that are not left out. -/
def Bounds.written : Bounds → List Lexeme
  | .both l _ u => [l, u]
  | .upTo _ u => [u]
  | .startingAt l _ => [l]

/-- The bounds of a range are numbers of the sort that the range is about. -/
def Filter.Proper : Filter → Prop
  | .range s _ r => ∀ l ∈ r.bounds.written, s.grain.isBound l.kind = true
  | _ => True

/-- The single filters of an expression from left to right. -/
def Expr.filters : Expr → List Filter
  | .filter f => [f]
  | .group _ e _ => e.filters
  | .neg _ e => e.filters
  | .join _ l _ r => l.filters ++ r.filters

/-- How tight the left operand of a word has to hold together. -/
def Joint.leftLevel : Joint → Level
  | .conj => .conjunction
  | .disj => .whole

/-- An expression holds together as tight as `level` says, and so do all operands in it. -/
def Expr.Fits : Level → Expr → Prop
  | _, .filter _ => True
  | _, .group _ e _ => e.Fits .whole
  | _, .neg _ e => e.Fits .operand
  | level, .join j l _ r => level.admits j = true ∧ l.Fits j.leftLevel ∧ r.Fits j.rightLevel

lemma Expr.Fits.of_operand {e : Expr} (h : e.Fits .operand) (level : Level) : e.Fits level := by
  cases e with
  | join j l op r => exact absurd h.1 (by simp [Level.admits])
  | _ => exact h

/-! ## Stepping over tokens -/

/-- Between `ts` and `rest` there are the tokens `ls`, if every token there is spelt as its kind
says. -/
def Consumed (ts : List Token) (ls : List Lexeme) (rest : List Token) : Prop :=
  ∃ used, ts = used ++ rest ∧ ((∀ t ∈ used, t.toLexeme.Spelled) → used.map (·.toLexeme) = ls)

namespace Consumed

variable {ts mid rest : List Token} {t : Token} {k l : List Lexeme}

lemma refl (ts : List Token) : Consumed ts [] ts := ⟨[], rfl, fun _ => rfl⟩

lemma trans (h₁ : Consumed ts k mid) (h₂ : Consumed mid l rest) : Consumed ts (k ++ l) rest := by
  obtain ⟨u, rfl, hu⟩ := h₁
  obtain ⟨v, rfl, hv⟩ := h₂
  refine ⟨u ++ v, by simp, ?_⟩
  intro hs
  rw [List.map_append, hu (fun t ht => hs t (by simp [ht])), hv (fun t ht => hs t (by simp [ht]))]

lemma one {kind : Kind} (ht : t.kind = kind) (rest : List Token) :
    Consumed (t :: rest) [⟨kind, t.text⟩] rest :=
  ⟨[t], rfl, fun _ => by rw [← ht]; rfl⟩

/-- A token of a kind with only one spelling has it. -/
lemma fixed {kind : Kind} (ht : t.kind = kind) (hk : kind.spelling?.isSome) (rest : List Token) :
    Consumed (t :: rest) kind.node.leaves rest := by
  obtain ⟨s, hs⟩ := Option.isSome_iff_exists.1 hk
  refine ⟨[t], rfl, ?_⟩
  intro hspelled
  have htext : t.text = s := (hspelled t (by simp)).eq_spelling (ht ▸ hs)
  rw [Kind.node, Node.leaves_leaf, hs, Option.getD_some, ← htext, ← ht]
  rfl

end Consumed

/-! ## Parsers that succeed -/

namespace Parser

variable {α β : Type} {ts rest : List Token}

lemma bind_eq_ok {p : Parser α} {f : α → Parser β} {b : β} :
    (p >>= f) ts = .ok (b, rest) ↔ ∃ a mid, p ts = .ok (a, mid) ∧ f a mid = .ok (b, rest) := by
  change (p ts).bind (fun q => f q.1 q.2) = .ok (b, rest) ↔ _
  rcases p ts with _ | ⟨a, mid⟩ <;> simp [Except.bind]

lemma map_eq_ok {p : Parser α} {f : α → β} {b : β} :
    (f <$> p) ts = .ok (b, rest) ↔ ∃ a, p ts = .ok (a, rest) ∧ f a = b := by
  change (p ts).bind (fun q => .ok (f q.1, q.2)) = .ok (b, rest) ↔ _
  rcases p ts with _ | ⟨a, mid⟩ <;> simp [Except.bind, and_comm, eq_comm]

lemma pure_eq_ok {a b : α} : (pure a : Parser α) ts = .ok (b, rest) ↔ a = b ∧ ts = rest := by
  change Except.ok (a, ts) = .ok (b, rest) ↔ _
  simp

@[simp] lemma complain_ne_ok {c : Complaint} {a : α} : complain c ts ≠ .ok (a, rest) := nofun

lemma current_eq_ok {t : Token} :
    current ts = .ok (t, rest) ↔ rest = ts ∧ ∃ us, ts = t :: us := by
  cases ts with
  | nil => simp [current]
  | cons u us =>
    simp only [current, Except.ok.injEq, Prod.mk.injEq, List.cons.injEq]
    constructor
    · rintro ⟨rfl, rfl⟩
      exact ⟨rfl, us, rfl, rfl⟩
    · rintro ⟨rfl, us', rfl, rfl⟩
      exact ⟨rfl, rfl⟩

lemma advance_eq_ok {t : Token} (h : advance ts = .ok (t, rest)) : ts = t :: rest := by
  match ts, h with
  | [], h => cases h
  | [u], h => cases h
  | u :: v :: us, h =>
    cases h
    rfl

lemma settle_eq_ok {look : List Token → Look α} {a : α} (h : settle look ts = .ok (a, rest)) :
    rest = ts ∧ look ts = .found a := by
  unfold settle at h
  split at h
  · cases h
    exact ⟨rfl, ‹_›⟩
  all_goals cases h

lemma refuse_ne_ok {expected : KindSet} {a : α} : refuse expected ts ≠ .ok (a, rest) := by
  intro h
  obtain ⟨t, mid, -, h⟩ := bind_eq_ok.1 h
  obtain ⟨k, mid', -, h⟩ := bind_eq_ok.1 h
  split at h <;> exact complain_ne_ok h

/-- What is required is in front, and is still there. -/
lemma require_eq_ok {expected : KindSet} {u : Unit} (h : require expected ts = .ok (u, rest)) :
    rest = ts ∧ ∃ t us, ts = t :: us ∧ expected t.kind = true := by
  obtain ⟨t, mid, hcurrent, hcase⟩ := bind_eq_ok.1 h
  obtain ⟨rfl, us, rfl⟩ := current_eq_ok.1 hcurrent
  split at hcase
  · obtain ⟨-, rfl⟩ := pure_eq_ok.1 hcase
    exact ⟨rfl, t, us, rfl, ‹_›⟩
  · exact absurd hcase refuse_ne_ok

lemma expect_eq_ok {expected next : KindSet} {t : Token}
    (h : expect expected next ts = .ok (t, rest)) : ts = t :: rest ∧ expected t.kind = true := by
  obtain ⟨u, mid, hcurrent, hcase⟩ := bind_eq_ok.1 h
  obtain ⟨rfl, us, rfl⟩ := current_eq_ok.1 hcurrent
  split at hcase
  · obtain ⟨rfl, rfl⟩ := List.cons.inj (advance_eq_ok hcase)
    exact ⟨rfl, ‹_›⟩
  · obtain ⟨k, mid', -, hcase⟩ := bind_eq_ok.1 hcase
    split at hcase
    · exact absurd hcase complain_ne_ok
    · split at hcase <;> exact absurd hcase complain_ne_ok

/-! ## Symbols -/

lemma spaceBefore_consumed {s : Sign} {o : Option String}
    (h : spaceBefore s ts = .ok (o, rest)) : Consumed ts (Node.leavesOf (spaceNodes o)) rest := by
  obtain ⟨_, mid, hrequire, h₁⟩ := bind_eq_ok.1 h
  obtain ⟨rfl, -⟩ := require_eq_ok hrequire
  obtain ⟨t, mid', hcurrent, hcase⟩ := bind_eq_ok.1 h₁
  obtain ⟨rfl, us, rfl⟩ := current_eq_ok.1 hcurrent
  split at hcase
  · obtain ⟨u, mid, hadvance, hpure⟩ := bind_eq_ok.1 hcase
    obtain ⟨rfl, rfl⟩ := List.cons.inj (advance_eq_ok hadvance)
    obtain ⟨rfl, rfl⟩ := pure_eq_ok.1 hpure
    simpa [spaceNodes] using Consumed.one ‹t.kind = .space› us
  · obtain ⟨rfl, rfl⟩ := pure_eq_ok.1 hcase
    simpa [spaceNodes] using Consumed.refl _

lemma spaceAfter_consumed {s : Sign} {o : Option String}
    (h : spaceAfter s ts = .ok (o, rest)) : Consumed ts (Node.leavesOf (spaceNodes o)) rest := by
  cases ts with
  | nil => cases h
  | cons t ts =>
    simp only [spaceAfter] at h
    split at h
    · split at h
      · cases h
        simpa [spaceNodes] using Consumed.one ‹t.kind = .space› rest
      · cases h
    · cases h
      simpa [spaceNodes] using Consumed.refl _

lemma expect_only_eq_ok {k : Kind} {next : KindSet} {t : Token}
    (h : expect (.only k) next ts = .ok (t, rest)) : ts = t :: rest ∧ t.kind = k := by
  obtain ⟨hts, hk⟩ := expect_eq_ok h
  exact ⟨hts, by simpa [KindSet.only] using hk⟩

theorem sign_consumed {s : Sign} {next : KindSet} {p : Padding}
    (h : sign s next ts = .ok (p, rest)) : Consumed ts (p.node s).leaves rest := by
  obtain ⟨before, mid₁, hbefore, h⟩ := bind_eq_ok.1 h
  obtain ⟨t, mid₂, hexpect, h⟩ := bind_eq_ok.1 h
  obtain ⟨after, mid₃, hafter, hpure⟩ := bind_eq_ok.1 h
  obtain ⟨rfl, rfl⟩ := pure_eq_ok.1 hpure
  obtain ⟨rfl, hk⟩ := expect_only_eq_ok hexpect
  have hsign := Consumed.fixed hk (by cases s <;> rfl) mid₂
  have hall := (spaceBefore_consumed hbefore).trans (hsign.trans (spaceAfter_consumed hafter))
  simpa [Padding.node] using hall

/-! ## Texts -/

lemma bind_words_eq_ok {γ δ : Type} {x : Except Fault γ} {f : γ → Except Fault δ} {d : δ}
    (h : (x >>= f) = .ok d) : ∃ c, x = .ok c ∧ f c = .ok d := by
  cases x with
  | error e => cases h
  | ok c => exact ⟨c, rfl, h⟩

lemma moreWords_consumed {ws : List (Option Lexeme)} (h : moreWords ts = .ok (ws, rest)) :
    Consumed ts (Node.leavesOf (ws.flatMap fun w => Kind.colon.node :: w.toList.map .leaf)) rest := by
  induction ts using moreWords.induct generalizing ws with
  | case1 => cases h
  | case2 t ht w ts hbelongs ih =>
    simp only [moreWords, ht, hbelongs, if_true] at h
    obtain ⟨⟨ws', rest'⟩, hmore, hpure⟩ := bind_words_eq_ok h
    cases hpure
    have hcolon := Consumed.fixed ht rfl (w :: ts)
    have hword := Consumed.one (t := w) rfl ts
    simpa using hcolon.trans (hword.trans (ih hmore))
  | case3 t ht ts hbelongs ih =>
    simp only [moreWords, ht, hbelongs, if_true] at h
    obtain ⟨⟨ws', rest'⟩, hmore, hpure⟩ := bind_words_eq_ok h
    cases hpure
    have hcolon := Consumed.fixed ht rfl ts
    simpa using hcolon.trans (ih hmore)
  | case4 t ts ht hfalse htrue =>
    simp only [moreWords, ht, if_true] at h
    cases h
  | case5 t ts ht =>
    have hstop : moreWords (t :: ts) = .ok ([], t :: ts) := by
      rw [moreWords.eq_def]
      simp [ht]
    rw [hstop] at h
    cases h
    simpa using Consumed.refl _

theorem text_consumed {t : Text} (h : text ts = .ok (t, rest)) : Consumed ts t.node.leaves rest := by
  obtain ⟨_, mid, hrequire, h₁⟩ := bind_eq_ok.1 h
  obtain ⟨rfl, -⟩ := require_eq_ok hrequire
  obtain ⟨u, mid', hadvance, hcase⟩ := bind_eq_ok.1 h₁
  obtain rfl := advance_eq_ok hadvance
  cases hk : u.kind <;> simp only [hk] at hcase
  case quoted | number =>
    obtain ⟨rfl, rfl⟩ := pure_eq_ok.1 hcase
    simpa [Text.node] using Consumed.one hk mid'
  -- every other kind is read as a word
  all_goals
    obtain ⟨ws, mid, hmore, hpure⟩ := bind_eq_ok.1 hcase
    obtain ⟨rfl, rfl⟩ := pure_eq_ok.1 hpure
    simpa [Text.node] using (Consumed.one (t := u) rfl mid').trans (moreWords_consumed hmore)

lemma optionalStar_consumed {b : Bool} (h : optionalStar ts = .ok (b, rest)) :
    Consumed ts (Node.leavesOf (if b then [Kind.star.node] else [])) rest := by
  obtain ⟨t, mid, hcurrent, hcase⟩ := bind_eq_ok.1 h
  obtain ⟨rfl, us, rfl⟩ := current_eq_ok.1 hcurrent
  split at hcase
  · obtain ⟨u, mid, hadvance, hpure⟩ := bind_eq_ok.1 hcase
    obtain ⟨rfl, rfl⟩ := List.cons.inj (advance_eq_ok hadvance)
    obtain ⟨rfl, rfl⟩ := pure_eq_ok.1 hpure
    simpa using Consumed.fixed ‹t.kind = .star› rfl us
  · obtain ⟨rfl, rfl⟩ := pure_eq_ok.1 hcase
    simpa using Consumed.refl _

lemma pattern_consumed {p : Pattern} (h : pattern ts = .ok (p, rest)) :
    Consumed ts p.node.leaves rest := by
  obtain ⟨_, mid, hrequire, h₁⟩ := bind_eq_ok.1 h
  obtain ⟨rfl, -⟩ := require_eq_ok hrequire
  obtain ⟨leading, mid₁, hleading, h₂⟩ := bind_eq_ok.1 h₁
  obtain ⟨t, mid₂, htext, h₃⟩ := bind_eq_ok.1 h₂
  obtain ⟨trailing, mid₃, htrailing, hpure⟩ := bind_eq_ok.1 h₃
  obtain ⟨rfl, rfl⟩ := pure_eq_ok.1 hpure
  have hall := (optionalStar_consumed hleading).trans
    ((text_consumed htext).trans (optionalStar_consumed htrailing))
  simpa [Pattern.node] using hall

/-! ## Lists and ranges -/

section Lists

variable {start next : KindSet} {item : Parser α} (node : α → Node)

lemma moreItems_consumed
    (hitem : ∀ {ts a rest}, item ts = .ok (a, rest) → Consumed ts (node a).leaves rest)
    {inner : Bool} {n : Nat} {more : List (Padding × α)}
    (h : moreItems start item inner n ts = .ok (more, rest)) :
    Consumed ts (Node.leavesOf (more.flatMap fun (p, a) => [p.node .comma, node a])) rest := by
  induction n generalizing inner ts more with
  | zero => cases h
  | succ n ih =>
    rw [moreItems] at h
    obtain ⟨t, mid, hcurrent, h₁⟩ := bind_eq_ok.1 h
    obtain ⟨rfl, us, rfl⟩ := current_eq_ok.1 hcurrent
    split at h₁
    · obtain ⟨_, _, hcomplain, -⟩ := bind_eq_ok.1 h₁
      exact absurd hcomplain complain_ne_ok
    · obtain ⟨_, mid, hrequire, h₂⟩ := bind_eq_ok.1 h₁
      obtain ⟨rfl, -⟩ := require_eq_ok hrequire
      obtain ⟨b, mid, hsettle, h₃⟩ := bind_eq_ok.1 h₂
      obtain ⟨rfl, -⟩ := settle_eq_ok hsettle
      split at h₃
      · obtain ⟨comma, mid₁, hcomma, h₄⟩ := bind_eq_ok.1 h₃
        obtain ⟨a, mid₂, ha, h₅⟩ := bind_eq_ok.1 h₄
        obtain ⟨more', mid₃, hmore, hpure⟩ := bind_eq_ok.1 h₅
        obtain ⟨rfl, rfl⟩ := pure_eq_ok.1 hpure
        simpa using (sign_consumed hcomma).trans ((hitem ha).trans (ih hmore))
      · obtain ⟨rfl, rfl⟩ := pure_eq_ok.1 h₃
        simpa using Consumed.refl _

theorem listed_consumed
    (hitem : ∀ {ts a rest}, item ts = .ok (a, rest) → Consumed ts (node a).leaves rest)
    {l : Listed α} (h : listed start item next ts = .ok (l, rest)) :
    Consumed ts (Node.leavesOf (l.nodes node)) rest := by
  obtain ⟨left, mid₁, hleft, h₁⟩ := bind_eq_ok.1 h
  obtain ⟨first, mid₂, hfirst, h₂⟩ := bind_eq_ok.1 h₁
  obtain ⟨s, mid₃, hget, h₃⟩ := bind_eq_ok.1 h₂
  cases hget
  obtain ⟨more, mid₄, hmore, h₄⟩ := bind_eq_ok.1 h₃
  obtain ⟨right, mid₅, hright, hpure⟩ := bind_eq_ok.1 h₄
  obtain ⟨rfl, rfl⟩ := pure_eq_ok.1 hpure
  have hall := (sign_consumed hleft).trans ((hitem hfirst).trans
    ((moreItems_consumed node hitem hmore).trans (sign_consumed hright)))
  simpa [Listed.nodes] using hall

end Lists

lemma token_consumed {k : Kind} {next : KindSet} {s : String}
    (h : ((·.text) <$> expect (.only k) next : Parser String) ts = .ok (s, rest)) :
    Consumed ts [⟨k, s⟩] rest := by
  obtain ⟨t, hexpect, rfl⟩ := map_eq_ok.1 h
  obtain ⟨rfl, hk⟩ := expect_only_eq_ok hexpect
  exact Consumed.one hk rest

lemma bound_consumed {g : Grain} {next : KindSet} {l : Lexeme} (h : bound g next ts = .ok (l, rest)) :
    Consumed ts [l] rest ∧ g.isBound l.kind = true := by
  obtain ⟨t, hexpect, rfl⟩ := map_eq_ok.1 h
  obtain ⟨rfl, hk⟩ := expect_eq_ok hexpect
  exact ⟨Consumed.one rfl rest, hk⟩

lemma bounds_consumed {g : Grain} {b : Bounds} (h : bounds g ts = .ok (b, rest)) :
    Consumed ts (Node.leavesOf b.nodes) rest ∧ ∀ l ∈ b.written, g.isBound l.kind = true := by
  obtain ⟨_, mid, hrequire, h₁⟩ := bind_eq_ok.1 h
  obtain ⟨rfl, -⟩ := require_eq_ok hrequire
  obtain ⟨extent, mid, hsettle, hcase⟩ := bind_eq_ok.1 h₁
  obtain ⟨rfl, -⟩ := settle_eq_ok hsettle
  cases extent with
  | both =>
    obtain ⟨lower, mid₁, hlower, h₂⟩ := bind_eq_ok.1 hcase
    obtain ⟨dots, mid₂, hdots, h₃⟩ := bind_eq_ok.1 h₂
    obtain ⟨upper, mid₃, hupper, hpure⟩ := bind_eq_ok.1 h₃
    obtain ⟨rfl, rfl⟩ := pure_eq_ok.1 hpure
    obtain ⟨hl, hlk⟩ := bound_consumed hlower
    obtain ⟨hu, huk⟩ := bound_consumed hupper
    exact ⟨by simpa [Bounds.nodes] using hl.trans ((sign_consumed hdots).trans hu),
      by simp [Bounds.written, hlk, huk]⟩
  | upTo =>
    obtain ⟨dots, mid₁, hdots, h₂⟩ := bind_eq_ok.1 hcase
    obtain ⟨upper, mid₂, hupper, hpure⟩ := bind_eq_ok.1 h₂
    obtain ⟨rfl, rfl⟩ := pure_eq_ok.1 hpure
    obtain ⟨hu, huk⟩ := bound_consumed hupper
    exact ⟨by simpa [Bounds.nodes] using (sign_consumed hdots).trans hu,
      by simp [Bounds.written, huk]⟩
  | startingAt =>
    obtain ⟨lower, mid₁, hlower, h₂⟩ := bind_eq_ok.1 hcase
    obtain ⟨dots, mid₂, hdots, hpure⟩ := bind_eq_ok.1 h₂
    obtain ⟨rfl, rfl⟩ := pure_eq_ok.1 hpure
    obtain ⟨hl, hlk⟩ := bound_consumed hlower
    exact ⟨by simpa [Bounds.nodes] using hl.trans (sign_consumed hdots),
      by simp [Bounds.written, hlk]⟩

lemma range_consumed {g : Grain} {next : KindSet} {r : Range} (h : range g next ts = .ok (r, rest)) :
    Consumed ts (r.node g).leaves rest ∧ ∀ l ∈ r.bounds.written, g.isBound l.kind = true := by
  obtain ⟨left, mid₁, hleft, h₁⟩ := bind_eq_ok.1 h
  obtain ⟨b, mid₂, hbounds, h₂⟩ := bind_eq_ok.1 h₁
  obtain ⟨right, mid₃, hright, hpure⟩ := bind_eq_ok.1 h₂
  obtain ⟨rfl, rfl⟩ := pure_eq_ok.1 hpure
  obtain ⟨hb, hk⟩ := bounds_consumed hbounds
  have hall := (sign_consumed hleft).trans (hb.trans (sign_consumed hright))
  exact ⟨by simpa [Range.node] using hall, hk⟩

/-! ## Filters -/

lemma keyword_consumed {k : Kind} {next : KindSet} {p : Padding} (hk : k.spelling?.isSome)
    (h : keyword k next ts = .ok (p, rest)) :
    Consumed ts (k.node.leaves ++ (p.node .colon).leaves) rest := by
  obtain ⟨t, mid, hexpect, hsign⟩ := bind_eq_ok.1 h
  obtain ⟨rfl, ht⟩ := expect_only_eq_ok hexpect
  exact (Consumed.fixed ht hk mid).trans (sign_consumed hsign)

theorem filter_consumed {next : KindSet} {form : Form} {f : Filter}
    (h : filter next form ts = .ok (f, rest)) : Consumed ts f.node.leaves rest ∧ f.Proper := by
  cases form with
  | tag c =>
    obtain ⟨key, mid₁, hkey, h₁⟩ := bind_eq_ok.1 h
    obtain ⟨op, mid₂, hop, h₂⟩ := bind_eq_ok.1 h₁
    obtain ⟨value, mid₃, hvalue, hpure⟩ := bind_eq_ok.1 h₂
    obtain ⟨rfl, rfl⟩ := pure_eq_ok.1 hpure
    have hall := (text_consumed hkey).trans ((sign_consumed hop).trans (text_consumed hvalue))
    exact ⟨by simpa [Filter.node, Filter.nodes] using hall, trivial⟩
  | tagAny c =>
    obtain ⟨key, mid₁, hkey, h₁⟩ := bind_eq_ok.1 h
    obtain ⟨op, mid₂, hop, h₂⟩ := bind_eq_ok.1 h₁
    obtain ⟨star, mid₃, hstar, hpure⟩ := bind_eq_ok.1 h₂
    obtain ⟨rfl, rfl⟩ := pure_eq_ok.1 hpure
    obtain ⟨t, hexpect, -⟩ := map_eq_ok.1 hstar
    obtain ⟨rfl, ht⟩ := expect_only_eq_ok hexpect
    have hall := (text_consumed hkey).trans ((sign_consumed hop).trans (Consumed.fixed ht rfl _))
    exact ⟨by simpa [Filter.node, Filter.nodes] using hall, trivial⟩
  | tagIn =>
    obtain ⟨key, mid₁, hkey, h₁⟩ := bind_eq_ok.1 h
    obtain ⟨op, mid₂, hop, h₂⟩ := bind_eq_ok.1 h₁
    obtain ⟨values, mid₃, hvalues, hpure⟩ := bind_eq_ok.1 h₂
    obtain ⟨rfl, rfl⟩ := pure_eq_ok.1 hpure
    have hall := (text_consumed hkey).trans
      ((sign_consumed hop).trans (listed_consumed Text.node text_consumed hvalues))
    exact ⟨by simpa [Filter.node, Filter.nodes] using hall, trivial⟩
  | tagLike =>
    obtain ⟨key, mid₁, hkey, h₁⟩ := bind_eq_ok.1 h
    obtain ⟨op, mid₂, hop, h₂⟩ := bind_eq_ok.1 h₁
    obtain ⟨p, mid₃, hpattern, hpure⟩ := bind_eq_ok.1 h₂
    obtain ⟨rfl, rfl⟩ := pure_eq_ok.1 hpure
    have hall := (text_consumed hkey).trans
      ((sign_consumed hop).trans (pattern_consumed hpattern))
    exact ⟨by simpa [Filter.node, Filter.nodes] using hall, trivial⟩
  | type | geometry | object =>
    obtain ⟨op, mid₁, hop, h₁⟩ := bind_eq_ok.1 h
    obtain ⟨t, mid₂, hfinal, hpure⟩ := bind_eq_ok.1 h₁
    obtain ⟨rfl, rfl⟩ := pure_eq_ok.1 hpure
    have hall := (keyword_consumed rfl hop).trans (token_consumed hfinal)
    exact ⟨by simpa [Filter.node, Filter.nodes] using hall, trivial⟩
  | objects =>
    obtain ⟨op, mid₁, hop, h₁⟩ := bind_eq_ok.1 h
    obtain ⟨os, mid₂, hlisted, hpure⟩ := bind_eq_ok.1 h₁
    obtain ⟨rfl, rfl⟩ := pure_eq_ok.1 hpure
    have hlist := listed_consumed (fun o => .leaf ⟨.objectId, o⟩)
      (fun h => by simpa using token_consumed h) hlisted
    have hall := (keyword_consumed rfl hop).trans hlist
    exact ⟨by simpa [Filter.node, Filter.nodes] using hall, trivial⟩
  | number s =>
    obtain ⟨op, mid₁, hop, h₁⟩ := bind_eq_ok.1 h
    obtain ⟨n, mid₂, hfinal, hpure⟩ := bind_eq_ok.1 h₁
    obtain ⟨rfl, rfl⟩ := pure_eq_ok.1 hpure
    have hall := (keyword_consumed (by cases s <;> rfl) hop).trans (token_consumed hfinal)
    exact ⟨by simpa [Filter.node, Filter.nodes] using hall, trivial⟩
  | numbers s =>
    obtain ⟨op, mid₁, hop, h₁⟩ := bind_eq_ok.1 h
    obtain ⟨ns, mid₂, hlisted, hpure⟩ := bind_eq_ok.1 h₁
    obtain ⟨rfl, rfl⟩ := pure_eq_ok.1 hpure
    have hlist := listed_consumed (fun n => .leaf ⟨.number, n⟩)
      (fun h => by simpa using token_consumed h) hlisted
    have hall := (keyword_consumed (by cases s <;> rfl) hop).trans hlist
    exact ⟨by simpa [Filter.node, Filter.nodes] using hall, trivial⟩
  | range s =>
    obtain ⟨op, mid₁, hop, h₁⟩ := bind_eq_ok.1 h
    obtain ⟨r, mid₂, hrange, hpure⟩ := bind_eq_ok.1 h₁
    obtain ⟨rfl, rfl⟩ := pure_eq_ok.1 hpure
    obtain ⟨hr, hproper⟩ := range_consumed hrange
    have hall := (keyword_consumed (by cases s <;> rfl) hop).trans hr
    exact ⟨by simpa [Filter.node, Filter.nodes] using hall, hproper⟩

/-! ## Expressions -/

/-- What is true of an expression that has been parsed from the front of `ts`. It does not stop
before a word that it could have gone on with. -/
structure Reads (level : Level) (ts : List Token) (e : Expr) (rest : List Token) : Prop where
  consumed : Consumed ts e.node.leaves rest
  proper : ∀ f ∈ e.filters, f.Proper
  fits : e.Fits level
  stops : ∀ j, Lookahead.joint rest = .found (some j) → level.admits j = false

section Expressions

variable {sub : Level → KindSet → Parser Expr} {next : KindSet} {e : Expr}

/-- An operand fits everywhere. What comes after it is left to the continuation. -/
lemma operand_reads
    (hsub : ∀ {level next ts e rest}, sub level next ts = .ok (e, rest) → Reads level ts e rest)
    (h : operand sub next ts = .ok (e, rest)) :
    Consumed ts e.node.leaves rest ∧ (∀ f ∈ e.filters, f.Proper) ∧ e.Fits .operand := by
  obtain ⟨_, mid, hrequire, h₁⟩ := bind_eq_ok.1 h
  obtain ⟨rfl, -⟩ := require_eq_ok hrequire
  obtain ⟨opening, mid, hsettle, hcase⟩ := bind_eq_ok.1 h₁
  obtain ⟨rfl, -⟩ := settle_eq_ok hsettle
  cases opening with
  | group =>
    obtain ⟨left, mid₁, hleft, h₂⟩ := bind_eq_ok.1 hcase
    obtain ⟨e', mid₂, he, h₃⟩ := bind_eq_ok.1 h₂
    obtain ⟨right, mid₃, hright, hpure⟩ := bind_eq_ok.1 h₃
    obtain ⟨rfl, rfl⟩ := pure_eq_ok.1 hpure
    have hall := (sign_consumed hleft).trans ((hsub he).consumed.trans (sign_consumed hright))
    exact ⟨by simpa [Expr.node] using hall, (hsub he).proper, (hsub he).fits⟩
  | neg =>
    obtain ⟨op, mid₁, hop, h₂⟩ := bind_eq_ok.1 hcase
    obtain ⟨e', mid₂, he, hpure⟩ := bind_eq_ok.1 h₂
    obtain ⟨rfl, rfl⟩ := pure_eq_ok.1 hpure
    have hall := (sign_consumed hop).trans (hsub he).consumed
    exact ⟨by simpa [Expr.node] using hall, (hsub he).proper, (hsub he).fits⟩
  | filter form =>
    obtain ⟨f, hf, rfl⟩ := map_eq_ok.1 hcase
    obtain ⟨hconsumed, hproper⟩ := filter_consumed hf
    exact ⟨by simpa [Expr.node] using hconsumed, by simpa [Expr.filters] using hproper, trivial⟩

/-- The invariant of the loop is that the expression so far can be the left operand of whatever word
comes next. After `or` the next word cannot be `and`, since the right operand would have taken it. -/
lemma continuation_reads
    (hsub : ∀ {level next ts e rest}, sub level next ts = .ok (e, rest) → Reads level ts e rest)
    {level : Level} {n : Nat} {e₀ : Expr} (hproper : ∀ f ∈ e₀.filters, f.Proper)
    (hfits : e₀.Fits level)
    (hleft : ∀ j, Lookahead.joint ts = .found (some j) → level.admits j = true →
      e₀.Fits j.leftLevel)
    (h : continuation sub level next n e₀ ts = .ok (e, rest)) :
    ∃ ls, e.node.leaves = e₀.node.leaves ++ ls ∧ Consumed ts ls rest ∧
      (∀ f ∈ e.filters, f.Proper) ∧ e.Fits level ∧
      ∀ j, Lookahead.joint rest = .found (some j) → level.admits j = false := by
  induction n generalizing e₀ ts with
  | zero => cases h
  | succ n ih =>
    rw [continuation] at h
    obtain ⟨o, mid, hsettle, hcase⟩ := bind_eq_ok.1 h
    obtain ⟨rfl, hjoint⟩ := settle_eq_ok hsettle
    cases o with
    | none =>
      obtain ⟨rfl, rfl⟩ := pure_eq_ok.1 hcase
      exact ⟨[], by simp, Consumed.refl _, hproper, hfits, fun j hj => by simp [hjoint] at hj⟩
    | some j =>
      simp only at hcase
      split at hcase
      · next hadmits =>
        obtain ⟨op, mid₁, hop, h₁⟩ := bind_eq_ok.1 hcase
        obtain ⟨r, mid₂, hr, hrest⟩ := bind_eq_ok.1 h₁
        have hread := hsub hr
        have hjoinFits : (Expr.join j e₀ op r).Fits level :=
          ⟨hadmits, hleft j hjoint hadmits, hread.fits⟩
        have hjoinLeft : ∀ j', Lookahead.joint mid₂ = .found (some j') → level.admits j' = true →
            (Expr.join j e₀ op r).Fits j'.leftLevel := by
          intro j' hj' _
          refine ⟨?_, hleft j hjoint hadmits, hread.fits⟩
          have hstop := hread.stops j' hj'
          cases j <;> cases j' <;> simp_all [Joint.leftLevel, Joint.rightLevel, Level.admits]
        have hjoinProper : ∀ f ∈ (Expr.join j e₀ op r).filters, f.Proper := by
          intro f hf
          rcases List.mem_append.1 hf with hf | hf
          · exact hproper f hf
          · exact hread.proper f hf
        obtain ⟨ls, hleaves, hconsumed, hrest⟩ := ih hjoinProper hjoinFits hjoinLeft hrest
        refine ⟨(op.node j.sign).leaves ++ (r.node.leaves ++ ls), ?_, ?_, hrest⟩
        · simp [hleaves, Expr.node]
        · exact (sign_consumed hop).trans (hread.consumed.trans hconsumed)
      · next hadmits =>
        obtain ⟨rfl, rfl⟩ := pure_eq_ok.1 hcase
        refine ⟨[], by simp, Consumed.refl _, hproper, hfits, ?_⟩
        intro j' hj'
        rw [hjoint] at hj'
        cases hj'
        simpa using hadmits

theorem expr_reads {n : Nat} {level : Level} (h : expr n level next ts = .ok (e, rest)) :
    Reads level ts e rest := by
  induction n generalizing level next ts e rest with
  | zero => cases h
  | succ n ih =>
    rw [expr] at h
    obtain ⟨e₀, mid, hoperand, hcontinue⟩ := bind_eq_ok.1 h
    obtain ⟨hconsumed, hproper, hfits⟩ := operand_reads ih hoperand
    obtain ⟨ls, hleaves, hrest, hproper', hfits', hstops⟩ := continuation_reads ih hproper
      (hfits.of_operand level) (fun j _ _ => hfits.of_operand _) hcontinue
    exact ⟨hleaves ▸ hconsumed.trans hrest, hproper', hfits', hstops⟩

end Expressions

/-- A whole filter is a star or an expression, and the end of the text comes after it. -/
lemma tree_eq_ok {t : Tree} (h : tree ts = .ok (t, rest)) :
    (∃ u us, rest = u :: us ∧ u.kind = .eof) ∧
      ((t = .everything ∧ ∃ u, ts = u :: rest ∧ u.kind = .star) ∨
        ∃ e, t = .expr e ∧ Reads .whole ts e rest) := by
  obtain ⟨_, mid, hrequire, h₁⟩ := bind_eq_ok.1 h
  obtain ⟨rfl, -⟩ := require_eq_ok hrequire
  obtain ⟨u, mid₁, hcurrent, hcase⟩ := bind_eq_ok.1 h₁
  obtain ⟨rfl, us, rfl⟩ := current_eq_ok.1 hcurrent
  simp only at hcase
  split at hcase
  · next hstar =>
    obtain ⟨v, mid₂, hadvance, h₂⟩ := bind_eq_ok.1 hcase
    obtain ⟨rfl, rfl⟩ := List.cons.inj (advance_eq_ok hadvance)
    obtain ⟨t', mid₃, hpure, h₃⟩ := bind_eq_ok.1 h₂
    obtain ⟨rfl, rfl⟩ := pure_eq_ok.1 hpure
    obtain ⟨_, mid₄, hend, hdone⟩ := bind_eq_ok.1 h₃
    obtain ⟨rfl, u', us', hus, hu'⟩ := require_eq_ok hend
    obtain ⟨rfl, rfl⟩ := pure_eq_ok.1 hdone
    exact ⟨⟨u', us', hus, by simpa [KindSet.only] using hu'⟩, .inl ⟨rfl, u, rfl, hstar⟩⟩
  · obtain ⟨_, mid₂, hget, h₂⟩ := bind_eq_ok.1 hcase
    cases hget
    obtain ⟨t', mid₃, hmap, h₃⟩ := bind_eq_ok.1 h₂
    obtain ⟨e, hexpr, rfl⟩ := map_eq_ok.1 hmap
    obtain ⟨_, mid₄, hend, hdone⟩ := bind_eq_ok.1 h₃
    obtain ⟨rfl, u', us', hus, hu'⟩ := require_eq_ok hend
    obtain ⟨rfl, rfl⟩ := pure_eq_ok.1 hdone
    exact ⟨⟨u', us', hus, by simpa [KindSet.only] using hu'⟩, .inr ⟨e, rfl, expr_reads hexpr⟩⟩

end Parser

/-! ## Filter texts -/

lemma parse_eq_ok {s : String} {t : Tree} (h : parse s = .ok t) :
    ∃ rest, Parser.tree (scan s).tokens = .ok (t, rest) := by
  unfold parse Parser.parsePart at h
  simp only [StateT.run] at h
  split at h
  · next a rest htree =>
    cases h
    exact ⟨rest, htree⟩
  · cases h

/-- The tokens before another one are those that the lexer has read. -/
lemma Consumed.spelled {s : String} {ls : List Lexeme} {t : Token} {rest : List Token}
    (h : Consumed (scan s).tokens ls (t :: rest)) : ∀ l ∈ ls, l.Spelled := by
  obtain ⟨used, hts, hused⟩ := h
  have hspelled : ∀ u ∈ used, u.toLexeme.Spelled := by
    intro u hu
    obtain ⟨us, vs, rfl⟩ := List.append_of_mem hu
    have hsplit : (scan s).tokens = us ++ u :: (vs ++ t :: rest) := by simp [hts]
    rcases scan_spelled hsplit with h | ⟨-, h⟩
    · exact h
    · simp at h
  intro l hl
  rw [← hused hspelled, List.mem_map] at hl
  obtain ⟨u, hu, rfl⟩ := hl
  exact hspelled u hu

/-- What is known of every expression that is parsed from a filter text. -/
structure Expr.WellFormed (e : Expr) : Prop where
  spelled : ∀ l ∈ e.node.leaves, l.Spelled
  proper : ∀ f ∈ e.filters, f.Proper
  fits : e.Fits .whole

theorem parse_wellFormed {s : String} {e : Expr} (h : parse s = .ok (.expr e)) : e.WellFormed := by
  obtain ⟨rest, htree⟩ := parse_eq_ok h
  obtain ⟨⟨u, us, rfl, -⟩, ⟨he, -⟩ | ⟨e', he, hreads⟩⟩ := Parser.tree_eq_ok htree
  · cases he
  · cases he
    exact ⟨hreads.consumed.spelled, hreads.proper, hreads.fits⟩

/-- Only a star alone lets everything pass. -/
theorem parse_eq_everything_iff {s : String} : parse s = .ok .everything ↔ s = "*" := by
  constructor
  · intro h
    obtain ⟨rest, htree⟩ := parse_eq_ok h
    obtain ⟨⟨u, us, rfl, hu⟩, ⟨-, star, hts, hstar⟩ | ⟨e, he, -⟩⟩ := Parser.tree_eq_ok htree
    · have hsplit : (scan s).tokens = [star] ++ u :: us := hts
      have hfirst : (scan s).tokens = [] ++ star :: u :: us := hts
      have htext := scan_text hsplit hu
      rcases scan_spelled hfirst with hspelled | ⟨-, hnil⟩
      · have : star.text = "*" := hspelled.eq_spelling (k := star.kind) (by rw [hstar]; rfl)
        rw [List.flatMap_singleton, this] at htext
        exact (String.toList_injective htext).symm
      · cases hnil
    · cases he
  · rintro rfl
    decide +kernel

end MapFilter
