import MapFilter.Command
import MapFilter.Proofs.LiteralReading
import MapFilter.Proofs.Masking
import MapFilter.Text.Printable

/-!
# Answers

The line that the command prints can be read. It gives the query and its arguments back, with each
decimal number as its text, and no other query is printed as the same line. Only the name for a
number that is too large keeps it from being a literal.
-/

namespace MapFilter

open Literal

/-! ## Values of arguments -/

def Argument.value : Argument → Value
  | .text s => .text s
  | .number (.whole n) => .whole n
  | .number (.decimal (.finite u)) => .decimal (Binary.finite u).display
  | .number (.decimal .infinite) => .infinite
  | .texts ss => .tuple (ss.map .text)
  | .numbers ns => .tuple (ns.map .whole)

def Query.value (q : Query) : Value := .tuple [.text q.text, .tuple (q.args.map Argument.value)]

/-- The arguments that filters have: numbers that have been read, and lists that are not empty. -/
inductive Argument.Proper : Argument → Prop where
  | text (s : String) : Proper (.text s)
  | whole (n : Nat) : Proper (.number (.whole n))
  | decimal {u : Nat} : Binary.Representable u → Proper (.number (.decimal (.finite u)))
  | infinite : Proper (.number (.decimal .infinite))
  | texts {ss : List String} : ss ≠ [] → Proper (.texts ss)
  | numbers {ns : List Nat} : ns ≠ [] → Proper (.numbers ns)

namespace Argument.Proper

variable {a b : Argument}

lemma ofExact {x : Binary} (h : x.Exact) : (Argument.number (.decimal x)).Proper := by
  cases h with
  | finite hu => exact .decimal hu
  | infinite => exact .infinite

/-- An argument is printed as what it is. -/
lemma denotes (h : a.Proper) (printable : Char → Bool) :
    Denotes (a.literal printable) a.value := by
  cases h with
  | text s => exact denotes_text printable s
  | whole n => exact denotes_whole n
  | decimal hu => exact denotes_decimal hu
  | infinite => exact denotes_infinite
  | texts => exact .tuple_map fun s _ => denotes_text printable s
  | numbers => exact .tuple_map fun n _ => denotes_whole n

lemma texts_ne_numbers {ss : List String} {ns : List Nat} (h : ss ≠ []) :
    (Argument.texts ss).value ≠ (Argument.numbers ns).value := by
  obtain ⟨s, ss, rfl⟩ := List.exists_cons_of_ne_nil h
  cases ns <;> simp [Argument.value]

/-- Different arguments have different values. -/
lemma value_inj (ha : a.Proper) (hb : b.Proper) (h : a.value = b.value) : a = b := by
  cases ha with
  | text | whole | infinite =>
    cases hb <;> cases h
    rfl
  | decimal hu =>
    cases hb with
    | decimal hv =>
      have hdisplay := Value.decimal.inj h
      rw [Binary.display_injective (.finite hu) (.finite hv) hdisplay]
    | text | whole | infinite | texts | numbers => cases h
  | texts hne =>
    cases hb with
    | texts =>
      have hmap := List.map_injective_iff.2 (fun _ _ => Value.text.inj) (Value.tuple.inj h)
      rw [hmap]
    | numbers => exact absurd h (texts_ne_numbers hne)
    | text | whole | decimal | infinite => cases h
  | numbers =>
    cases hb with
    | numbers =>
      have hmap := List.map_injective_iff.2 (fun _ _ => Value.whole.inj) (Value.tuple.inj h)
      rw [hmap]
    | texts hne => exact absurd h.symm (texts_ne_numbers hne)
    | text | whole | decimal | infinite => cases h

lemma map_value_inj {as bs : List Argument} (has : ∀ a ∈ as, a.Proper) (hbs : ∀ b ∈ bs, b.Proper)
    (h : as.map Argument.value = bs.map Argument.value) : as = bs := by
  induction as generalizing bs with
  | nil => simpa using h.symm
  | cons a as ih =>
    cases bs with
    | nil => cases h
    | cons b bs =>
      rw [List.forall_mem_cons] at has hbs
      rw [List.map_cons, List.map_cons, List.cons.injEq] at h
      rw [value_inj has.1 hbs.1 h.1, ih has.2 hbs.2 h.2]

end Argument.Proper

/-- Only a number that is too large is written as a name. -/
lemma Argument.constant_value_iff (a : Argument) :
    a.value.Constant ↔ a ≠ .number (.decimal .infinite) := by
  rcases a with s | (n | (u | _)) | ss | ns <;> simp [Argument.value]

lemma Query.constant_value_iff (q : Query) :
    q.value.Constant ↔ .number (.decimal .infinite) ∉ q.args := by
  simp [Query.value, Argument.constant_value_iff, List.forall_mem_ne']

/-! ## Arguments of filters -/

lemma Bounds.proper_readNumber {g : Grain} {cs : List Char} {n : Number}
    (h : readNumber g cs = .ok n) : (Argument.number n).Proper := by
  cases g with
  | whole =>
    rw [readNumber, readWhole] at h
    split at h
    · cases h
      exact .whole _
    · cases h
  | decimal =>
    cases h
    exact .ofExact (Binary.exact_read cs)

lemma Bounds.proper_values {g : Grain} {b : Bounds} {lower upper : Option Number}
    (h : b.values g = .ok (lower, upper)) :
    (∀ n ∈ lower, (Argument.number n).Proper) ∧ ∀ n ∈ upper, (Argument.number n).Proper := by
  cases b with
  | both l d k =>
    obtain ⟨m, hm, h⟩ := bind_eq_ok_iff.1 h
    obtain ⟨n, hn, h⟩ := bind_eq_ok_iff.1 h
    cases h
    simp [proper_readNumber hm, proper_readNumber hn]
  | upTo d k | startingAt k d =>
    obtain ⟨n, hn, h⟩ := bind_eq_ok_iff.1 h
    cases h
    simp [proper_readNumber hn]

lemma rangeDraft_proper {column : String} {g : Grain} {ordered : Bool} {b : Bounds} {d : Draft}
    (h : rangeDraft column g ordered b = .ok (some d)) : ∀ a ∈ d.args, a.Proper := by
  obtain ⟨⟨lower, upper⟩, hvalues, h⟩ := bind_eq_ok_iff.1 h
  obtain ⟨hlower, hupper⟩ := Bounds.proper_values hvalues
  simp only at h
  split at h
  · rename_i l u hl hu
    split at h <;> cases h
    simp [hlower l (Option.filter_eq_some_iff.1 hl).1, hupper u (Option.filter_eq_some_iff.1 hu).1]
  · rename_i l hl _
    cases h
    simp [hlower l (Option.filter_eq_some_iff.1 hl).1]
  · rename_i u _ hu
    cases h
    simp [hupper u (Option.filter_eq_some_iff.1 hu).1]
  · cases h

lemma objectDraft_proper {o : String} {d : Draft} (h : objectDraft o = .ok d) :
    ∀ a ∈ d.args, a.Proper := by
  obtain ⟨n, -, hn⟩ := bind_eq_ok_iff.1 h
  cases hn
  simp [Argument.Proper.text, Argument.Proper.whole]

lemma Filter.proper_of_draft {f : Filter} {d : Draft} (h : f.draft = .ok (some d)) :
    ∀ a ∈ d.args, a.Proper := by
  cases f with
  | tag | tagAny | tagLike | type =>
    cases h
    simp [Argument.Proper.text]
  | tagIn key op values =>
    cases h
    simp [Argument.Proper.text, Argument.Proper.texts, Listed.items]
  | geometry op t =>
    obtain ⟨c, -, rfl⟩ := Option.map_eq_some_iff.1 (Except.ok.inj h)
    simp
  | object op o =>
    obtain ⟨n, -, hn⟩ := bind_eq_ok_iff.1 h
    cases hn
    simp [Argument.Proper.text, Argument.Proper.whole]
  | objects op os =>
    obtain ⟨ds, hds, h⟩ := bind_eq_ok_iff.1 h
    have hargs : ∀ a ∈ ds.flatMap Draft.args, a.Proper := by
      intro a ha
      obtain ⟨d, hd, ha⟩ := List.mem_flatMap.1 ha
      obtain ⟨o, -, ho⟩ := (mapM_eq_ok_cases hds).2 d hd
      exact objectDraft_proper ho a ha
    cases h
    split <;> simpa [Draft.args_intercalate] using hargs
  | number q op digits =>
    cases q with
    | id | changeset =>
      obtain ⟨n, -, hn⟩ := bind_eq_ok_iff.1 h
      cases hn
      simp [Argument.Proper.whole]
    | outers | inners => cases h
  | numbers q op ns =>
    obtain ⟨ks, hread, hks⟩ := bind_eq_ok_iff.1 h
    have hlength := (mapM_eq_ok_cases hread).1
    cases hks
    have hne : ks ≠ [] := by
      rintro rfl
      simp [Listed.items] at hlength
    simp [Argument.Proper.numbers hne]
  | range q op r =>
    cases q with
    | id | area | length | changeset => exact rangeDraft_proper h
    | perimeter =>
      cases h
      simp
    | vertices | outers | inners => cases h

lemma proper_of_query {text : String} {shift : Int} {q : Query} (h : query text shift = .ok q) :
    ∀ a ∈ q.args, a.Proper := by
  by_cases hstar : text = "*"
  · rw [query, if_pos hstar] at h
    cases h
    simp
  · obtain ⟨e, he⟩ := exists_expr_of_query h hstar
    obtain ⟨s, hcompile, rfl⟩ := (query_eq_ok_iff he shift).1 h
    rw [(sources_of_compile he hcompile).2]
    intro a ha
    obtain ⟨f, -, ha⟩ := List.mem_flatMap.1 ha
    rw [Filter.args] at ha
    rcases hd : f.draft with _ | _ | d
    · simp [hd, Except.toOption] at ha
    · simp [hd, Except.toOption] at ha
    · have ha : a ∈ d.args := by simpa [hd, Except.toOption] using ha
      exact Filter.proper_of_draft hd a ha

/-! ## Lines -/

section Lines

variable (printable : Char → Bool) {text text' : String} {q q' : Query}

lemma Query.denotes (h : query text 0 = .ok q) : Denotes (q.literal printable) q.value := by
  have hargs : Denotes (tuple (q.args.map (Argument.literal printable)))
      (.tuple (q.args.map Argument.value)) :=
    .tuple_map fun a ha => (proper_of_query h a ha).denotes printable
  exact .tuple (.cons (denotes_text printable q.text) (.cons hargs .nil))

lemma Query.isLiteral_iff (h : query text 0 = .ok q) :
    IsLiteral (q.literal printable) ↔ .number (.decimal .infinite) ∉ q.args := by
  have hread := (Query.denotes printable h).read?_eq
  rw [← q.constant_value_iff]
  constructor
  · rintro ⟨v, hv, hconstant⟩
    rw [hread] at hv
    exact Option.some.inj hv ▸ hconstant
  · exact fun hconstant => ⟨q.value, hread, hconstant⟩

lemma Query.value_inj (h : query text 0 = .ok q) (h' : query text' 0 = .ok q')
    (hvalue : q.value = q'.value) : q = q' := by
  obtain ⟨t, as⟩ := q
  obtain ⟨t', as'⟩ := q'
  obtain ⟨rfl, hargs⟩ : t = t' ∧ as.map Argument.value = as'.map Argument.value := by
    simpa [Query.value] using hvalue
  have heq : as = as' :=
    Argument.Proper.map_value_inj (proper_of_query h) (proper_of_query h') hargs
  rw [heq]

end Lines

namespace Command

lemma answer_eq (printable : Char → Bool) {input line : String} {q : Query}
    (hline : firstLine? input = some line) (hquery : query line 0 = .ok q) :
    answer printable input = .ok (q.literal printable ++ "\n") := by
  simp [answer, hline, hquery, Except.mapError]

/-- What is printed for an input that has a query is one line, which is read as the query with its
arguments. It is a literal unless a number in it is too large. Inputs with other queries have other
answers. All this holds whichever characters are printed as they are. -/
theorem answer_readable (printable : Char → Bool) {input line : String} {q : Query}
    (hline : firstLine? input = some line) (hquery : query line 0 = .ok q) :
    ∃ printed, answer printable input = .ok (printed ++ "\n") ∧ '\n' ∉ printed.toList ∧
      Literal.read? printed = some q.value ∧
      (Literal.IsLiteral printed ↔ .number (.decimal .infinite) ∉ q.args) ∧
      ∀ input' line' q', firstLine? input' = some line' → query line' 0 = .ok q' →
        answer printable input' = answer printable input → q' = q := by
  have hdenotes := Query.denotes printable hquery
  have hread := hdenotes.read?_eq
  refine ⟨q.literal printable, answer_eq printable hline hquery, hdenotes.unbroken, hread,
    Query.isLiteral_iff printable hquery, ?_⟩
  intro input' line' q' hline' hquery' hanswer
  rw [answer_eq printable hline hquery, answer_eq printable hline' hquery'] at hanswer
  have hliteral : q'.literal printable = q.literal printable := by
    simpa using Except.ok.inj hanswer
  have hread' := (Query.denotes printable hquery').read?_eq
  rw [hliteral, hread] at hread'
  exact Query.value_inj hquery' hquery (Option.some.inj hread').symm

/-- Quotes, a backslash and a list of a single number come back from the line. -/
theorem answer_readable_quoted :
    ∃ q, firstLine? "\"it's\\\\\"=* and id:(7)\n*" = some "\"it's\\\\\"=* and id:(7)" ∧
      query "\"it's\\\\\"=* and id:(7)" 0 = .ok q ∧
      q.value = .tuple [.text "tags ? $1 AND osm_id = ANY($2)",
        .tuple [.text "it's\\", .tuple [.whole 7]]] ∧
      ∃ printed, answer isPrintable "\"it's\\\\\"=* and id:(7)\n*" = .ok (printed ++ "\n") ∧
        Literal.read? printed = some q.value ∧ Literal.IsLiteral printed := by
  have hline : firstLine? "\"it's\\\\\"=* and id:(7)\n*" = some "\"it's\\\\\"=* and id:(7)" := by
    decide +kernel
  have hquery : query "\"it's\\\\\"=* and id:(7)" 0 =
      .ok ⟨"tags ? $1 AND osm_id = ANY($2)", [.text "it's\\", .numbers [7]]⟩ := by decide +kernel
  obtain ⟨printed, hanswer, -, hread, hliteral, -⟩ := answer_readable isPrintable hline hquery
  exact ⟨_, hline, hquery, rfl, printed, hanswer, hread, hliteral.2 (by decide)⟩

/-- An upper bound that is too large is printed as a name. -/
theorem not_isLiteral_overflow :
    answer isPrintable "area:(..1e400)\n" = .ok "('area <= $1', (inf,))\n" ∧
      ¬Literal.IsLiteral "('area <= $1', (inf,))" := by
  have hquery : query "area:(..1e400)" 0 =
      .ok ⟨"area <= $1", [.number (.decimal .infinite)]⟩ := by decide +kernel
  have hliteral : Query.literal isPrintable ⟨"area <= $1", [.number (.decimal .infinite)]⟩ =
      "('area <= $1', (inf,))" := by decide +kernel
  have hline : firstLine? "area:(..1e400)\n" = some "area:(..1e400)" := by decide +kernel
  have hanswer := answer_eq isPrintable hline hquery
  have hiff := Query.isLiteral_iff isPrintable hquery
  rw [hliteral] at hanswer hiff
  exact ⟨hanswer, fun h => hiff.1 h (by simp)⟩

end Command

end MapFilter
