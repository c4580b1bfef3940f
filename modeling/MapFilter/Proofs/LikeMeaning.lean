import MapFilter.Proofs.RangeMeaning
import Mathlib.Data.Finmap

/-!
# What a pattern finds

The condition of a pattern is to hold of the rows that have a tag with the key, and a value that is
the text, begins with it, ends with it or holds it. `Like.fits` says which texts are like a pattern,
so that the condition can be read as a test of the tags of a row. It does what it should exactly if
there is no apostrophe in the key, and neither an apostrophe nor a backslash in the text: an
apostrophe is doubled, and a backslash makes the next character of the pattern stand for itself.
-/

namespace MapFilter

namespace Like

/-! ## Rounds of replacement -/

/-- A text with another one in the place of every character `c`. -/
def replaceAll (c : Char) (new : List Char) (cs : List Char) : List Char :=
  cs.flatMap fun d => if d = c then new else [d]

lemma replaceAll_flatMap (c : Char) (new : List Char) (f : Char → List Char) (cs : List Char) :
    replaceAll c new (cs.flatMap f) = cs.flatMap fun d => replaceAll c new (f d) :=
  List.flatMap_assoc

/-- No round of replacement finds what an earlier one has put in. -/
lemma literal_eq_rounds (c : Char) :
    replaceAll '\x27' ['\x27', '\x27'] (replaceAll '_' ['\\', '_']
      (if c = '%' then ['\\', '%'] else [c])) = literal c := by
  by_cases hsequence : c = '%'
  · rw [hsequence]
    decide
  · by_cases hsingle : c = '_'
    · rw [hsingle]
      decide
    · simp [hsequence, hsingle, replaceAll, literal, apostrophe]

/-- The signs of a pattern are escaped as they are if they are replaced one kind after the other,
and then the apostrophes. -/
theorem pattern_eq_rounds (leading trailing : Bool) (s : String) :
    pattern leading s trailing = .ofList ((if leading then ['%'] else []) ++
      replaceAll '\x27' ['\x27', '\x27'] (replaceAll '_' ['\\', '_']
        (replaceAll '%' ['\\', '%'] s.toList)) ++ (if trailing then ['%'] else [])) := by
  have hrounds : replaceAll '\x27' ['\x27', '\x27'] (replaceAll '_' ['\\', '_']
      (replaceAll '%' ['\\', '%'] s.toList)) = s.toList.flatMap literal := by
    have hfirst : replaceAll '%' ['\\', '%'] s.toList =
        s.toList.flatMap fun c => if c = '%' then ['\\', '%'] else [c] := rfl
    rw [hfirst, replaceAll_flatMap, replaceAll_flatMap]
    exact List.flatMap_congr fun c _ => literal_eq_rounds c
  rw [hrounds, pattern]

/-! ## Texts that are like a pattern -/

/-- Whether a text is like a pattern. In a pattern `%` stands for any text, `_` for any character,
and a backslash makes the next character stand for itself. If there is no next character, nothing is
like the pattern. -/
def fits : (pattern text : List Char) → Bool
  | [], t => t.isEmpty
  | ['\\'], _ => false
  | '\\' :: c :: p, t => t.head? == some c && fits p t.tail
  | '%' :: p, t => t.tails.any (fits p)
  | '_' :: p, t => !t.isEmpty && fits p t.tail
  | c :: p, t => t.head? == some c && fits p t.tail

example : fits "a%b\\%_".toList "axyb%z".toList = true := by decide

example : fits "a%b\\%_".toList "axyb%".toList = false := by decide

section Fits

variable {p t : List Char} {c : Char}

lemma fits_nil_iff : fits [] t = true ↔ t = [] := by
  simp [fits]

lemma not_fits_slash : fits ['\\'] t = false := rfl

lemma fits_escaped_iff : fits ('\\' :: c :: p) t = true ↔ ∃ t', t = c :: t' ∧ fits p t' = true := by
  cases t with
  | nil => simp [fits]
  | cons d t => simp [fits, and_comm]

lemma fits_sequence_iff : fits ('%' :: p) t = true ↔ ∃ u v, t = u ++ v ∧ fits p v = true := by
  simp only [fits, List.any_eq_true, List.mem_tails]
  constructor
  · rintro ⟨v, ⟨u, rfl⟩, hv⟩
    exact ⟨u, v, rfl, hv⟩
  · rintro ⟨u, v, rfl, hv⟩
    exact ⟨v, ⟨u, rfl⟩, hv⟩

lemma fits_single_iff : fits ('_' :: p) t = true ↔ ∃ d t', t = d :: t' ∧ fits p t' = true := by
  cases t with
  | nil => simp [fits]
  | cons d t => simp [fits]

lemma fits_plain_iff (hslash : c ≠ '\\') (hsequence : c ≠ '%') (hsingle : c ≠ '_') :
    fits (c :: p) t = true ↔ ∃ t', t = c :: t' ∧ fits p t' = true := by
  rw [fits]
  · cases t with
    | nil => simp
    | cons d t => simp [and_comm]
  all_goals simp [*]

end Fits

/-! ## Texts without a backslash -/

/-- What is looked for: a text that is `v`, or ends with it, begins with it or holds it. -/
def Sought (leading trailing : Bool) (v x : List Char) : Prop :=
  match leading, trailing with
  | false, false => x = v
  | true, false => v <:+ x
  | false, true => v <+: x
  | true, true => v <:+: x

section Sought

variable {leading trailing : Bool} {v x : List Char}

lemma sought_iff : Sought leading trailing v x ↔
    ∃ u w, x = u ++ (v ++ w) ∧ (leading = false → u = []) ∧ (trailing = false → w = []) := by
  cases leading <;> cases trailing
  · simp [Sought]
  · simp [Sought, List.IsPrefix, eq_comm]
  · simp [Sought, List.IsSuffix, eq_comm]
  · simp [Sought, List.IsInfix, eq_comm]

lemma sought_self : Sought leading trailing v v :=
  sought_iff.2 ⟨[], [], by simp, fun _ => rfl, fun _ => rfl⟩

lemma Sought.isInfix (h : Sought leading trailing v x) : v <:+: x := by
  obtain ⟨u, w, rfl, -, -⟩ := sought_iff.1 h
  exact ⟨u, w, by simp⟩

end Sought

/-- A sign for any text, if there is a star. -/
def sign (star : Bool) : List Char := if star then ['%'] else []

lemma fits_sign_append_iff {star : Bool} {p t : List Char} :
    fits (sign star ++ p) t = true ↔
      ∃ u v, t = u ++ v ∧ (star = false → u = []) ∧ fits p v = true := by
  cases star with
  | false => simp [sign]
  | true => simpa [sign] using fits_sequence_iff

lemma fits_sign_iff {star : Bool} {t : List Char} :
    fits (sign star) t = true ↔ (star = false → t = []) := by
  cases star with
  | false => simp [sign, fits_nil_iff]
  | true => simp [sign, fits_sequence_iff, fits_nil_iff]

lemma fits_apostrophe_iff {c : Char} (hslash : c ≠ '\\') (hsequence : c ≠ '%') (hsingle : c ≠ '_')
    {p t : List Char} :
    fits (apostrophe c ++ p) t = true ↔ ∃ t', t = apostrophe c ++ t' ∧ fits p t' = true := by
  by_cases hquote : c = '\x27'
  · simp [apostrophe, hquote, fits_plain_iff]
  · simp [apostrophe, hquote, fits_plain_iff hslash hsequence hsingle]

lemma fits_literal_iff {c : Char} (hc : c ≠ '\\') {p t : List Char} :
    fits (literal c ++ p) t = true ↔ ∃ t', t = apostrophe c ++ t' ∧ fits p t' = true := by
  by_cases hsign : c = '%' ∨ c = '_'
  · have hone : apostrophe c = [c] := by rcases hsign with rfl | rfl <;> rfl
    simp [literal, hsign, hone, fits_escaped_iff]
  · rw [not_or] at hsign
    have hplain : literal c = apostrophe c := by simp [literal, hsign]
    rw [hplain, fits_apostrophe_iff hc hsign.1 hsign.2]

lemma fits_literals_iff {w : List Char} (hw : '\\' ∉ w) {p t : List Char} :
    fits (w.flatMap literal ++ p) t = true ↔
      ∃ t', t = w.flatMap apostrophe ++ t' ∧ fits p t' = true := by
  induction w generalizing t with
  | nil => simp
  | cons c w ih =>
    rw [List.mem_cons, not_or] at hw
    rw [List.flatMap_cons, List.append_assoc, fits_literal_iff (Ne.symm hw.1), List.flatMap_cons]
    constructor
    · rintro ⟨t', rfl, h⟩
      obtain ⟨t'', rfl, hp⟩ := (ih hw.2).1 h
      exact ⟨t'', by simp, hp⟩
    · rintro ⟨t', rfl, h⟩
      exact ⟨w.flatMap apostrophe ++ t', by simp, (ih hw.2).2 ⟨t', rfl, h⟩⟩

lemma toList_pattern (leading : Bool) (v : String) (trailing : Bool) :
    (pattern leading v trailing).toList =
      sign leading ++ (v.toList.flatMap literal ++ sign trailing) := by
  simp [pattern, sign]

/-- The pattern for a text without a backslash finds the text, with its apostrophes doubled. -/
theorem fits_pattern_iff {leading trailing : Bool} {v : String} (hv : '\\' ∉ v.toList)
    {x : List Char} :
    fits (pattern leading v trailing).toList x = true ↔
      Sought leading trailing (v.toList.flatMap apostrophe) x := by
  rw [toList_pattern, fits_sign_append_iff, sought_iff]
  constructor
  · rintro ⟨u, t, rfl, hu, ht⟩
    obtain ⟨w, rfl, hw⟩ := (fits_literals_iff hv).1 ht
    exact ⟨u, w, rfl, hu, fits_sign_iff.1 hw⟩
  · rintro ⟨u, w, rfl, hu, hw⟩
    exact ⟨u, _, rfl, hu, (fits_literals_iff hv).2 ⟨w, rfl, fits_sign_iff.2 hw⟩⟩

lemma flatMap_apostrophe_eq_self {cs : List Char} (h : '\x27' ∉ cs) :
    cs.flatMap apostrophe = cs := by
  induction cs with
  | nil => rfl
  | cons c cs ih =>
    rw [List.mem_cons, not_or] at h
    simp [apostrophe, Ne.symm h.1, ih h.2]

lemma length_lt_flatMap_apostrophe {cs : List Char} (h : '\x27' ∈ cs) :
    cs.length < (cs.flatMap apostrophe).length := by
  have hle : ∀ cs : List Char, cs.length ≤ (cs.flatMap apostrophe).length := by
    intro cs
    rw [List.length_flatMap]
    induction cs with
    | nil => simp
    | cons c cs ih =>
      have hone : 1 ≤ (apostrophe c).length := by
        unfold apostrophe
        split <;> simp
      simp only [List.length_cons, List.map_cons, List.sum_cons]
      omega
  obtain ⟨u, v, rfl⟩ := List.append_of_mem h
  have hu := hle u
  have hv := hle v
  have htwo : (apostrophe '\x27').length = 2 := rfl
  simp only [List.length_append, List.length_cons, List.flatMap_append, List.flatMap_cons, htwo]
  omega

/-! ## Texts with a backslash -/

/-- What is like a character after a backslash, with its own signs taken for other text. -/
def freed (c : Char) : List Char :=
  if c = '%' then ['\\'] else if c = '_' then ['\\', 'a'] else apostrophe c

/-- A text that is like the pattern for another one, unless nothing is. -/
def sample : List Char → List Char
  | [] => []
  | c :: cs =>
    if c = '\\' then
      match cs with
      | [] => ['%']
      | d :: ds => freed d ++ sample ds
    else apostrophe c ++ sample cs

lemma sample_cons_of_ne {c : Char} (hc : c ≠ '\\') (cs : List Char) :
    sample (c :: cs) = apostrophe c ++ sample cs := by
  cases cs <;> exact if_neg hc

lemma fits_slash_literal_iff {c : Char} (hsequence : c ≠ '%') (hsingle : c ≠ '_')
    {p t : List Char} :
    fits ('\\' :: (literal c ++ p)) t = true ↔ ∃ t', t = apostrophe c ++ t' ∧ fits p t' = true := by
  by_cases hquote : c = '\x27'
  · simp [literal, apostrophe, hquote, fits_escaped_iff, fits_plain_iff]
  · simp [literal, apostrophe, hsequence, hsingle, hquote, fits_escaped_iff]

/-- After a backslash a character is like what it frees, and takes nothing from what follows. -/
lemma fits_slash_literal {c : Char} {p t : List Char}
    (h : fits ('\\' :: (literal c ++ p)) t = true) :
    ∃ t', fits p t' = true ∧
      ∀ u, fits p u = true → fits ('\\' :: (literal c ++ p)) (freed c ++ u) = true := by
  by_cases hsequence : c = '%'
  · subst hsequence
    obtain ⟨t', rfl, h⟩ := fits_escaped_iff.1 h
    obtain ⟨-, t', -, hp⟩ := fits_sequence_iff.1 h
    exact ⟨t', hp, fun u hu => fits_escaped_iff.2 ⟨_, rfl, fits_sequence_iff.2 ⟨[], u, rfl, hu⟩⟩⟩
  by_cases hsingle : c = '_'
  · subst hsingle
    obtain ⟨t', rfl, h⟩ := fits_escaped_iff.1 h
    obtain ⟨-, t', -, hp⟩ := fits_single_iff.1 h
    exact ⟨t', hp, fun u hu => fits_escaped_iff.2 ⟨_, rfl, fits_single_iff.2 ⟨'a', u, rfl, hu⟩⟩⟩
  · have hfreed : freed c = apostrophe c := by simp [freed, hsequence, hsingle]
    obtain ⟨t', rfl, hp⟩ := (fits_slash_literal_iff hsequence hsingle).1 h
    exact ⟨t', hp, fun u hu => (fits_slash_literal_iff hsequence hsingle).2 ⟨u, by rw [hfreed], hu⟩⟩

lemma fits_sample {trailing : Bool} {v t : List Char}
    (h : fits (v.flatMap literal ++ sign trailing) t = true) :
    fits (v.flatMap literal ++ sign trailing) (sample v) = true := by
  induction v using sample.induct generalizing t with
  | case1 => exact fits_sign_iff.2 fun _ => rfl
  | case2 =>
    cases trailing with
    | false => exact absurd h (by simp [sign, literal, apostrophe, not_fits_slash])
    | true => decide
  | case3 d ds ih =>
    have hpattern : ('\\' :: d :: ds).flatMap literal ++ sign trailing =
        '\\' :: (literal d ++ (ds.flatMap literal ++ sign trailing)) := by
      simp [literal, apostrophe]
    rw [hpattern] at h ⊢
    obtain ⟨t', ht', hfreed⟩ := fits_slash_literal h
    exact hfreed _ (ih ht')
  | case4 c cs hc ih =>
    rw [List.flatMap_cons, List.append_assoc, fits_literal_iff hc] at h ⊢
    obtain ⟨t', rfl, ht'⟩ := h
    exact ⟨sample cs, by rw [sample_cons_of_ne hc], ih ht'⟩

/-- What a text loses in its sample: backslashes, and signs that one of them frees. -/
def weight (cs : List Char) : Nat :=
  (cs.map fun c => if c = '\\' then 2 else if c = '%' ∨ c = '_' then 1 else 0).sum

lemma weight_append (cs ds : List Char) : weight (cs ++ ds) = weight cs + weight ds := by
  simp [weight]

lemma weight_apostrophe (c : Char) : weight (apostrophe c) = weight [c] := by
  by_cases hc : c = '\x27'
  · subst hc
    decide
  · simp [apostrophe, hc]

lemma weight_le_of_isInfix {cs ds : List Char} (h : cs <:+: ds) : weight cs ≤ weight ds := by
  obtain ⟨u, w, rfl⟩ := h
  simp only [weight_append]
  omega

lemma weight_freed_lt (c : Char) : weight (freed c) + [c].count '\\' < weight ['\\', c] := by
  by_cases hsequence : c = '%'
  · subst hsequence
    decide
  by_cases hsingle : c = '_'
  · subst hsingle
    decide
  · rw [freed, if_neg hsequence, if_neg hsingle, weight_apostrophe]
    by_cases hslash : c = '\\'
    · subst hslash
      decide
    · simp [weight, hslash, hsequence, hsingle]

lemma weight_sample_add_count_le (v : List Char) : weight (sample v) + v.count '\\' ≤ weight v := by
  induction v using sample.induct with
  | case1 => decide
  | case2 => decide
  | case3 d ds ih =>
    have hd := weight_freed_lt d
    have hweight : weight ('\\' :: d :: ds) = weight ['\\', d] + weight ds :=
      weight_append ['\\', d] ds
    have hcount : ('\\' :: d :: ds).count '\\' = 1 + [d].count '\\' + ds.count '\\' := by
      rw [List.count_cons_self, List.count_cons, List.count_singleton]
      omega
    rw [sample, if_pos rfl, weight_append, hweight, hcount]
    omega
  | case4 c cs hc ih =>
    have hweight : weight (c :: cs) = weight [c] + weight cs := weight_append [c] cs
    rw [sample_cons_of_ne hc, weight_append, weight_apostrophe, hweight, List.count_cons_of_ne hc]
    omega

/-- The sample of a text with a backslash does not hold the text. -/
lemma not_isInfix_sample {v : List Char} (hv : '\\' ∈ v) : ¬ v <:+: sample v := by
  intro h
  have hle := weight_le_of_isInfix h
  have hlost := weight_sample_add_count_le v
  have hcount := List.count_pos_iff.2 hv
  omega

/-- A pattern finds what is looked for exactly if there is neither an apostrophe nor a backslash. -/
theorem forall_fits_pattern_iff {leading trailing : Bool} {v : String} :
    (∀ x : String, fits (pattern leading v trailing).toList x.toList = true ↔
        Sought leading trailing v.toList x.toList) ↔
      '\x27' ∉ v.toList ∧ '\\' ∉ v.toList := by
  constructor
  · intro h
    have hself := (h v).2 sought_self
    have hslash : '\\' ∉ v.toList := by
      -- As the text itself is like the pattern, so is its sample.
      intro hv
      obtain ⟨-, t, -, -, ht⟩ := fits_sign_append_iff.1 (toList_pattern leading v trailing ▸ hself)
      have hsample : fits (pattern leading v trailing).toList (sample v.toList) = true := by
        rw [toList_pattern, fits_sign_append_iff]
        exact ⟨[], sample v.toList, rfl, fun _ => rfl, fits_sample ht⟩
      have hfound := (h (.ofList (sample v.toList))).1 (by rwa [String.toList_ofList])
      rw [String.toList_ofList] at hfound
      exact not_isInfix_sample hv hfound.isInfix
    refine ⟨fun hquote => ?_, hslash⟩
    have hle := ((fits_pattern_iff hslash).1 hself).isInfix.length_le
    have hlonger := length_lt_flatMap_apostrophe hquote
    omega
  · rintro ⟨hquote, hslash⟩ x
    rw [fits_pattern_iff hslash, flatMap_apostrophe_eq_self hquote]

lemma key_eq_self_iff {k : String} : key k = k ↔ '\x27' ∉ k.toList := by
  constructor
  · intro h hquote
    have hlonger := length_lt_flatMap_apostrophe hquote
    have hlength := congrArg (fun s : String => s.toList.length) h
    simp only [key, String.toList_ofList] at hlength
    omega
  · intro h
    rw [key, flatMap_apostrophe_eq_self h, String.ofList_toList]

end Like

/-! ## Tests of tags -/

namespace Sql

/-- The tags of a row. -/
abbrev Tags := Finmap fun _ : String => String

/-- Conditions on the tags with a key that hold for the same tags have the same key. -/
lemma Tags.forall_exists_lookup_iff {k l : String} {P Q : String → Prop} (hQ : ∃ x, Q x) :
    (∀ tags : Tags, (∃ x ∈ tags.lookup l, P x) ↔ ∃ x ∈ tags.lookup k, Q x) ↔
      l = k ∧ ∀ x, P x ↔ Q x := by
  constructor
  · intro h
    have hkey : l = k := by
      obtain ⟨x, hx⟩ := hQ
      obtain ⟨y, hy, -⟩ := (h (Finmap.singleton k x)).2 ⟨x, Finmap.lookup_singleton_eq, hx⟩
      exact (Finmap.mem_singleton _ _ _).1 (Finmap.mem_of_lookup_eq_some hy)
    subst hkey
    exact ⟨rfl, fun x => by simpa using h (Finmap.singleton l x)⟩
  · rintro ⟨rfl, h⟩ tags
    simp only [h]

/-- A condition on the value of a tag. Its key and the pattern are given as the numbers of
arguments. -/
structure LikeTest where
  key : Int
  pattern : Int
deriving DecidableEq, Repr

namespace LikeTest

def text (test : LikeTest) : String :=
  "tags ->> " ++ slot test.key ++ " LIKE " ++ slot test.pattern

/-- A test holds of the tags of a row, given what the arguments are. -/
def Holds (test : LikeTest) (tags : Tags) (arg? : Int → Option Argument) : Prop :=
  ∃ k p, arg? test.key = some (.text k) ∧ arg? test.pattern = some (.text p) ∧
    ∃ x ∈ tags.lookup k, Like.fits p.toList x.toList = true

/-- There is one way to read a text as a test. -/
theorem text_injective : Function.Injective text := by
  rintro ⟨k, p⟩ ⟨l, q⟩ h
  have hkeys : (toString k).toList ++ (" LIKE $".toList ++ (toString p).toList) =
      (toString l).toList ++ (" LIKE $".toList ++ (toString q).toList) := by
    simpa [text, slot] using congrArg String.toList h
  obtain ⟨rfl, hrest⟩ :=
    Test.number_append_inj (by simp [NoDigitFirst]) (by simp [NoDigitFirst]) hkeys
  have hpatterns : (toString p).toList ++ [] = (toString q).toList ++ [] := by simpa using hrest
  obtain ⟨rfl, -⟩ :=
    Test.number_append_inj (by simp [NoDigitFirst]) (by simp [NoDigitFirst]) hpatterns
  rfl

end LikeTest

end Sql

open Compiler Sql

lemma Sql.LikeTest.holds_last_iff (s : State) (stack : List String) (k p : String) (tags : Tags) :
    LikeTest.Holds ⟨s.last + 1, s.last + 2⟩ tags
        (State.argument? ⟨stack, s.args ++ [.text k, .text p], s.shift⟩) ↔
      ∃ x ∈ tags.lookup k, Like.fits p.toList x.toList = true := by
  have hkey : State.argument? ⟨stack, s.args ++ [.text k, .text p], s.shift⟩ (s.last + 1) =
      some (.text k) := State.argument?_last s [.text k, .text p] 0 stack
  have hpattern : State.argument? ⟨stack, s.args ++ [.text k, .text p], s.shift⟩ (s.last + 2) =
      some (.text p) := State.argument?_last s [.text k, .text p] 1 stack
  simp [LikeTest.Holds, hkey, hpattern]

/-- The condition for a pattern can be read as one test, and there is no other way to read it. The
test holds of the rows that it should hold of, if and only if there is no apostrophe in the key and
neither an apostrophe nor a backslash in the text. Where the numbers of the test cannot be written,
there are its arguments alone. -/
theorem tagLike_faithful_iff (key : Text) (op : Padding) (p : Pattern) (k v : String) (s : State) :
    ∃ (test : LikeTest) (l q : String) (s' : State),
      exec (Compiler.filter (.tagLike key op p)) ⟨v :: k :: s.stack, s.args, s.shift⟩ =
        (if AllWritable s.last 2 then (.ok (), s')
        else (.error .longPlaceholder, ⟨s.stack, s'.args, s.shift⟩)) ∧
      s' = ⟨test.text :: s.stack, s.args ++ [.text l, .text q], s.shift⟩ ∧
      (∀ other : LikeTest, other.text = test.text ↔ other = test) ∧
      ((∀ tags : Tags, test.Holds tags s'.argument? ↔
          ∃ x ∈ tags.lookup k, Like.Sought p.leading p.trailing v.toList x.toList) ↔
        '\x27' ∉ k.toList ∧ '\x27' ∉ v.toList ∧ '\\' ∉ v.toList) := by
  refine ⟨⟨s.last + 1, s.last + 2⟩, Like.key k, Like.pattern p.leading v p.trailing, _,
    exec_tagLike s p k v, rfl, fun _ => LikeTest.text_injective.eq_iff, ?_⟩
  simp only [LikeTest.holds_last_iff]
  rw [Tags.forall_exists_lookup_iff ⟨v, Like.sought_self⟩, Like.key_eq_self_iff,
    Like.forall_fits_pattern_iff]

end MapFilter
