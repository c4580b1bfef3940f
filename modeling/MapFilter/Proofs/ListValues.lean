import MapFilter.Proofs.JsonReading
import MapFilter.Proofs.Listing

/-!
# Values of tags as JSON

The value of a tag is compared with JSON text. For a single value the text is written so that it is
read back as the value. The values in a list are only put between quotes: what is read back is the
value if no character in it has to be written in another way, and only then.
-/

namespace MapFilter

namespace Json

/-- The string that a whole text stands for. -/
def text? (s : String) : Option String := do
  let (t, rest) ← string? s.toList
  if rest.all isBlank then some t else none

example : text? " \"a\\u00e9\\n\" " = some "aé\n" := by rfl

example : text? "\"a\"b\"" = none := by rfl

/-! ## Characters that stand for themselves -/

def Plain (c : Char) : Prop := c ≠ '"' ∧ c ≠ '\\' ∧ 32 ≤ c.toNat

instance (c : Char) : Decidable (Plain c) :=
  inferInstanceAs (Decidable (c ≠ '"' ∧ c ≠ '\\' ∧ 32 ≤ c.toNat))

lemma units?_of_plain {w : List Char} (h : ∀ c ∈ w, Plain c) (rest : List Char) :
    units? (w ++ '"' :: rest) = some (w.map Char.toNat, rest) := by
  induction w with
  | nil => rfl
  | cons c w ih =>
    rw [List.forall_mem_cons] at h
    obtain ⟨hquote, hslash, hcontrol⟩ := h.1
    rw [List.cons_append, units?_plain hquote hslash hcontrol, ih h.2]
    rfl

lemma ofUnits?_map_toNat (w : List Char) : ofUnits? (w.map Char.toNat) = some w := by
  induction w with
  | nil => rfl
  | cons c w ih => rw [List.map_cons, ofUnits?_toNat, ih, Option.map_some]

/-- The text of a string stands for itself, or it takes up more room than its units. -/
def Roomy (cs : List Char) (ns : List Nat) (rest : List Char) : Prop :=
  (∃ w, (∀ c ∈ w, Plain c) ∧ cs = w ++ '"' :: rest ∧ ns.length = w.length) ∨
    ns.length + rest.length + 1 < cs.length

namespace Roomy

variable {cs rest : List Char} {ns : List Nat}

lemma length_le (h : Roomy cs ns rest) : ns.length + rest.length + 1 ≤ cs.length := by
  rcases h with ⟨w, -, rfl, hw⟩ | h
  · simp only [List.length_append, List.length_cons]
    omega
  · omega

lemma cons {c : Char} (hc : Plain c) (n : Nat) (h : Roomy cs ns rest) :
    Roomy (c :: cs) (n :: ns) rest := by
  rcases h with ⟨w, hplain, rfl, hw⟩ | h
  · exact .inl ⟨c :: w, List.forall_mem_cons.2 ⟨hc, hplain⟩, rfl, congrArg (· + 1) hw⟩
  · refine .inr ?_
    simp only [List.length_cons]
    omega

lemma escape (h : Roomy cs ns rest) (n : Nat) {u : List Char} (hu : 1 < u.length) :
    Roomy (u ++ cs) (n :: ns) rest := by
  have hle := h.length_le
  refine .inr ?_
  simp only [List.length_append, List.length_cons]
  omega

end Roomy

lemma map_cons_eq_some {x : Option (List Nat × List Char)} {n : Nat} {ns : List Nat}
    {rest : List Char} (h : x.map (Prod.map (n :: ·) id) = some (ns, rest)) :
    ∃ ns', x = some (ns', rest) ∧ ns = n :: ns' := by
  obtain ⟨⟨ns', rest'⟩, hx, hpair⟩ := Option.map_eq_some_iff.1 h
  cases hpair
  exact ⟨ns', hx, rfl⟩

lemma roomy_of_units? {cs rest : List Char} {ns : List Nat} (h : units? cs = some (ns, rest)) :
    Roomy cs ns rest := by
  induction cs using units?.induct generalizing ns with
  | case1 => cases h
  | case2 tail =>
    cases h
    exact .inl ⟨[], by simp, rfl, rfl⟩
  | case3 a b c d tail ih =>
    obtain ⟨n, -, h⟩ := Option.bind_eq_some_iff.1 h
    obtain ⟨ns', hread, rfl⟩ := map_cons_eq_some h
    exact (ih hread).escape n (u := ['\\', 'u', a, b, c, d]) (by simp)
  | case4 c tail hu ih =>
    rw [units?] at h
    · obtain ⟨n, -, h⟩ := Option.bind_eq_some_iff.1 h
      obtain ⟨ns', hread, rfl⟩ := map_cons_eq_some h
      exact (ih hread).escape n (u := ['\\', c]) (by simp)
    · exact hu
  | case5 c tail hquote hu hshort hc =>
    rw [units?, if_pos hc] at h
    · cases h
    all_goals assumption
  | case6 c tail hquote hu hshort hc ih =>
    rw [units?, if_neg hc] at h
    · obtain ⟨ns', hread, rfl⟩ := map_cons_eq_some h
      rw [not_or, Nat.not_lt] at hc
      exact (ih hread).cons ⟨hquote, hc.1, hc.2⟩ _
    all_goals assumption

/-- A character has one unit or two. -/
lemma length_le_of_ofUnits? {ns : List Nat} {cs : List Char} (h : ofUnits? ns = some cs) :
    cs.length ≤ ns.length := by
  have hcons : ∀ {ns : List Nat} {c : Char} {cs : List Char},
      (∀ {cs}, ofUnits? ns = some cs → cs.length ≤ ns.length) →
        (ofUnits? ns).map (c :: ·) = some cs → cs.length ≤ ns.length + 1 := by
    intro ns c cs ih h
    obtain ⟨cs', hread, rfl⟩ := Option.map_eq_some_iff.1 h
    exact Nat.succ_le_succ (ih hread)
  induction ns using ofUnits?.induct generalizing cs with
  | case1 =>
    cases h
    exact Nat.le_refl 0
  | case2 n hn =>
    rw [ofUnits?, if_pos hn] at h
    cases h
  | case3 n hn =>
    rw [ofUnits?, if_neg hn] at h
    cases h
    exact Nat.le_refl 1
  | case4 n m ns hn hm ih =>
    rw [ofUnits?, if_pos hn, if_pos hm] at h
    exact Nat.le_succ_of_le (hcons ih h)
  | case5 n m ns hn hm =>
    rw [ofUnits?, if_pos hn, if_neg hm] at h
    cases h
  | case6 n m ns hn hm =>
    rw [ofUnits?, if_neg hn, if_pos hm] at h
    cases h
  | case7 n m ns hn hm ih =>
    rw [ofUnits?, if_neg hn, if_neg hm] at h
    exact hcons ih h

/-! ## Texts between quotes -/

/-- Every character of a text stands for itself between quotes. -/
def Verbatim (s : String) : Prop := ∀ c ∈ s.toList, Plain c

instance (s : String) : Decidable (Verbatim s) :=
  decidable_of_iff (s.toList.all (fun c => decide (Plain c)) = true) (by simp [Verbatim])

lemma string?_eq_some_iff {cs rest : List Char} {t : String} :
    string? ('"' :: cs) = some (t, rest) ↔
      ∃ ns, units? cs = some (ns, rest) ∧ ofUnits? ns = some t.toList := by
  have hquote : isBlank '"' = false := by decide
  rw [string?, List.dropWhile_cons_of_neg (by simp [hquote])]
  constructor
  · intro h
    obtain ⟨⟨ns, rest'⟩, hunits, h⟩ := Option.bind_eq_some_iff.1 h
    obtain ⟨t', ht, hpair⟩ := Option.bind_eq_some_iff.1 h
    cases hpair
    exact ⟨ns, hunits, by rw [ht, String.toList_ofList]⟩
  · rintro ⟨ns, hunits, ht⟩
    simp [hunits, ht]

lemma text?_eq_some_iff {s t : String} :
    text? s = some t ↔ ∃ rest, string? s.toList = some (t, rest) ∧ rest.all isBlank = true := by
  rw [text?, Option.bind_eq_bind, Option.bind_eq_some_iff]
  simp [and_comm]

/-- A text between quotes is read as itself exactly if it can stand there as it is. -/
theorem text?_between_quotes_iff {s : String} :
    text? ("\"" ++ s ++ "\"") = some s ↔ Verbatim s := by
  have htext : ("\"" ++ s ++ "\"").toList = '"' :: (s.toList ++ ['"']) := by simp
  rw [text?_eq_some_iff, htext]
  simp only [string?_eq_some_iff]
  constructor
  · rintro ⟨rest, ⟨ns, hunits, ht⟩, -⟩
    -- All units are needed, so nothing takes up more room than it has to.
    have hneeded := length_le_of_ofUnits? ht
    rcases roomy_of_units? hunits with ⟨w, hplain, hw, hlen⟩ | hlt
    · have hlength := congrArg List.length hw
      simp only [List.length_append, List.length_cons, List.length_nil] at hlength
      obtain ⟨rfl, -⟩ := List.append_inj hw (by omega)
      exact hplain
    · simp only [List.length_append, List.length_cons, List.length_nil] at hlt
      omega
  · intro h
    exact ⟨[], ⟨_, units?_of_plain h [], ofUnits?_map_toNat _⟩, rfl⟩

end Json

open Compiler

/-- Each value in a list becomes a text between quotes. It is read as the value exactly if every
character of the value stands for itself there, while the object for a tag with the value alone is
always read as the tag. Both are arguments even where their numbers cannot be written. -/
theorem tagIn_texts_read_iff {text : String} {e : Expr} (hparse : parse text = .ok (.expr e))
    {key : Text} {op : Padding} {values : Listed Text} (hf : .tagIn key op values ∈ e.filters)
    (s : State) :
    ∃ (condition : String) (ws : List String),
      exec (perform (Expr.filter (.tagIn key op values)).steps) s =
        (if AllWritable s.last 2 then
          (.ok (), ⟨condition :: s.stack, s.args ++ [.text key.content, .texts ws], s.shift⟩)
        else (.error .longPlaceholder,
          ⟨s.stack, s.args ++ [.text key.content, .texts ws], s.shift⟩)) ∧
      List.Forall₂ (fun t w =>
        (Json.text? w = some t.content ↔ Json.Verbatim t.content) ∧
        ∀ op', ∃ (condition' j : String),
          exec (perform (Expr.filter (.tag .equal key op' t)).steps) s =
            (if AllWritable s.last 1 then
              (.ok (), ⟨condition' :: s.stack, s.args ++ [.text j], s.shift⟩)
            else (.error .longPlaceholder, ⟨s.stack, s.args ++ [.text j], s.shift⟩)) ∧
          Json.object? j = some [(key.content, t.content)]) values.items ws := by
  have hs := ((parse_wellFormed hparse).genuine _ hf).1
  have hproper : ∀ t ∈ values.items, t.Proper := fun t ht =>
    (parse_grammatical hparse _ hf).texts t (by simp [Filter.texts, ht])
  have hlen : (values.items.map Text.content).reverse.length = values.items.length := by simp
  rw [exec_filter_steps, exec_tagIn_parts hs, andThen_ok, exec_tagIn s hs.listedTexts hlen,
    map_listed hs hproper]
  refine ⟨_, _, rfl, List.forall₂_map_right_iff.2 (List.forall₂_same.2 fun t ht => ?_)⟩
  have hkey := hs.texts key (by simp [Filter.texts])
  exact ⟨Json.text?_between_quotes_iff, fun op' =>
    ⟨_, _, exec_tag s hkey (hs.listedTexts t ht) .equal, Json.object?_member _ _⟩⟩

/-- Values with a colon, a space and a character beyond ASCII. -/
theorem tagIn_texts_read_iff_spaced :
    ∃ e key op values, parse "name in (a:b, \"Straße 1\")" = .ok (.expr e) ∧
      .tagIn key op values ∈ e.filters ∧ values.items.map Text.content = ["a:b", "Straße 1"] ∧
      ∃ condition v w, exec (perform (Expr.filter (.tagIn key op values)).steps) (.fresh 0) =
          (.ok (), ⟨[condition], [.text "name", .texts [v, w]], 0⟩) ∧
        Json.text? v = some "a:b" ∧ Json.text? w = some "Straße 1" := by
  let key : Text := .words ⟨.word, "name"⟩ []
  let values : Listed Text := ⟨⟨none, none⟩, .words ⟨.word, "a"⟩ [some ⟨.word, "b"⟩],
    [(⟨none, some " "⟩, .quoted "\"Straße 1\"")], ⟨none, none⟩⟩
  let e : Expr := .filter (.tagIn key ⟨some " ", some " "⟩ values)
  have hparse : parse "name in (a:b, \"Straße 1\")" = .ok (.expr e) := by decide +kernel
  have hf : .tagIn key ⟨some " ", some " "⟩ values ∈ e.filters := by decide +kernel
  have hvalues : values.items.map Text.content = ["a:b", "Straße 1"] := by decide +kernel
  obtain ⟨condition, ws, hexec, hread⟩ := tagIn_texts_read_iff hparse hf (.fresh 0)
  rw [if_pos (by decide +kernel)] at hexec
  obtain _ | ⟨hv, _ | ⟨hw, ⟨⟩⟩⟩ := hread
  exact ⟨e, key, _, values, hparse, hf, hvalues, condition, _, _, hexec,
    hv.1.2 (by decide +kernel), hw.1.2 (by decide +kernel)⟩

/-- A quote in a value ends the text before it should end, so that it is no JSON text. -/
theorem not_text_of_quote :
    ∃ e op values, parse "k in (\"a\\\"b\")" = .ok (.expr e) ∧
      e = .filter (.tagIn (.words ⟨.word, "k"⟩ []) op values) ∧
      values.items.map Text.content = ["a\"b"] ∧
      exec (perform e.steps) (.fresh 0) =
        (.ok (), ⟨["(tags -> $1) = ANY($2)"], [.text "k", .texts ["\"a\"b\""]], 0⟩) ∧
      Json.text? "\"a\"b\"" = none := by
  let values : Listed Text := ⟨⟨none, none⟩, .quoted "\"a\\\"b\"", [], ⟨none, none⟩⟩
  exact ⟨_, ⟨some " ", some " "⟩, values, by decide +kernel, rfl, by decide +kernel,
    by decide +kernel, rfl⟩

end MapFilter
