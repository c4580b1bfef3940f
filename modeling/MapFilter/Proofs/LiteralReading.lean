import MapFilter.Proofs.DecimalText
import MapFilter.Proofs.JsonReading
import MapFilter.Text.Literal

/-!
# Reading literals

Texts, numbers and tuples of them are read back from what is printed for them, whatever comes after.
A number that is too large is printed as a name, which is read as well but is no literal.
-/

namespace MapFilter

namespace Literal

/-- What a text stands for. Decimal numbers are kept as the texts they are. -/
inductive Value where
  | text (s : String)
  | whole (n : Nat)
  | decimal (text : String)
  | infinite
  | tuple (vs : List Value)
deriving Repr

/-- A value that is written without names. -/
inductive Value.Constant : Value → Prop where
  | text (s : String) : Constant (.text s)
  | whole (n : Nat) : Constant (.whole n)
  | decimal (text : String) : Constant (.decimal text)
  | tuple {vs : List Value} : (∀ v ∈ vs, Constant v) → Constant (.tuple vs)

namespace Value

attribute [simp] Constant.text Constant.whole Constant.decimal

@[simp] lemma not_constant_infinite : ¬Constant .infinite := by
  rintro ⟨⟩

@[simp] lemma constant_tuple_iff {vs : List Value} :
    (tuple vs).Constant ↔ ∀ v ∈ vs, v.Constant := by
  constructor
  · rintro ⟨h⟩
    assumption
  · exact .tuple

end Value

/-! ## The reader -/

/-- The number that hexadecimal digits stand for. -/
def hexNumber? (cs : List Char) : Option Nat :=
  cs.foldlM (fun n c => (Json.hexValue? c).map (16 * n + ·)) 0

/-- The character that has the digits as its code point. -/
def codePoint? (digits : List Char) : Option Char := do
  let n ← hexNumber? digits
  if n.isValidChar then some (Char.ofNat n) else none

/-- What a backslash and one more character stand for. -/
def short? : Char → Option Char
  | '\\' => some '\\'
  | '\x27' => some '\x27'
  | 'n' => some '\n'
  | 'r' => some '\r'
  | 't' => some '\t'
  | _ => none

/-- The characters of a text whose opening sign has been read, and what comes after its closing
sign. A line does not end inside. -/
def chars? (quote : Char) : List Char → Option (List Char × List Char)
  | [] => none
  | '\\' :: 'x' :: a :: b :: rest => do
    let c ← codePoint? [a, b]
    (chars? quote rest).map (Prod.map (c :: ·) id)
  | '\\' :: 'u' :: a :: b :: c :: d :: rest => do
    let c ← codePoint? [a, b, c, d]
    (chars? quote rest).map (Prod.map (c :: ·) id)
  | '\\' :: 'U' :: a :: b :: c :: d :: e :: f :: g :: h :: rest => do
    let c ← codePoint? [a, b, c, d, e, f, g, h]
    (chars? quote rest).map (Prod.map (c :: ·) id)
  | '\\' :: c :: rest => do
    let c ← short? c
    (chars? quote rest).map (Prod.map (c :: ·) id)
  | c :: rest =>
    if c = quote then some ([], rest)
    else if c = '\\' ∨ c = '\n' ∨ c = '\r' then none
    else (chars? quote rest).map (Prod.map (c :: ·) id)

def isRow (cs : List Char) : Bool := !cs.isEmpty && cs.all Char.isDigit

/-- A whole number has no zeros before other digits. -/
def isWhole (cs : List Char) : Bool := isRow cs && (cs.head? != some '0' || cs.length == 1)

def unsigned : List Char → List Char
  | '+' :: cs => cs
  | '-' :: cs => cs
  | cs => cs

/-- A decimal number has a point or an exponent, or both. -/
def isDecimal (cs : List Char) : Bool :=
  let mantissa := cs.takeWhile (· != 'e')
  let exponent := cs.dropWhile (· != 'e')
  let fraction := mantissa.dropWhile (· != '.')
  isRow (mantissa.takeWhile (· != '.')) && (fraction.isEmpty || isRow fraction.tail) &&
    (exponent.isEmpty || isRow (unsigned exponent.tail)) &&
    !(fraction.isEmpty && exponent.isEmpty)

def isNumberChar (c : Char) : Bool := c.isAlphanum || c == '.' || c == '+' || c == '-'

/-- The number that a row of characters stands for. The only name is that of numbers that are too
large. -/
def number? (cs : List Char) : Option Value :=
  if isWhole cs then some (.whole (Decimal.ofDigits cs))
  else if isDecimal cs then some (.decimal (.ofList cs))
  else if cs = ['i', 'n', 'f'] then some .infinite
  else none

/-- A single value without a comma after it is just in parentheses. -/
def Value.ofItems : List Value → Bool → Value
  | [v], false => v
  | vs, _ => .tuple vs

mutual

/-- The first value of a text, and what comes after it. -/
def value? : Nat → List Char → Option (Value × List Char)
  | 0, _ | _, [] => none
  | fuel + 1, c :: cs =>
    if c = '(' then (items? fuel cs).map fun (vs, comma, rest) => (.ofItems vs comma, rest)
    else if c = '\x27' ∨ c = '"' then
      (chars? c cs).map fun (s, rest) => (.text (.ofList s), rest)
    else
      (number? ((c :: cs).takeWhile isNumberChar)).map (·, (c :: cs).dropWhile isNumberChar)

/-- The values up to a closing parenthesis, whether a comma comes after the last one, and what
comes after the parenthesis. -/
def items? : Nat → List Char → Option (List Value × Bool × List Char)
  | 0, _ => none
  | fuel + 1, cs =>
    match cs.dropWhile (· == ' ') with
    | ')' :: rest => some ([], true, rest)
    | cs => do
      let (v, cs) ← value? fuel cs
      match cs.dropWhile (· == ' ') with
      | ')' :: rest => some ([v], false, rest)
      | ',' :: cs => (items? fuel cs).map (Prod.map (v :: ·) id)
      | _ => none

end

/-- The value that a whole text stands for. -/
def read? (s : String) : Option Value :=
  match value? s.toList.length s.toList with
  | some (v, []) => some v
  | _ => none

/-- A literal can be read, and no names stand in it. -/
def IsLiteral (s : String) : Prop := ∃ v, read? s = some v ∧ v.Constant

example : ["(7)", "( 'a' , (7,) )", "(2.5e-07, 1.0, inf)"].all (fun s => (read? s).isSome) ∧
    ["(7", "(7,,)", "'a' 'b'", "'a", "01", "1.e5", "\"\\x4\""].all (fun s => (read? s).isNone) := by
  decide +kernel

/-! ## Texts -/

lemma hexNumber?_digits (width n : Nat) :
    hexNumber? (Hex.digits width n) = some (n % 16 ^ width) := by
  induction width generalizing n with
  | zero => simp [Hex.digits, hexNumber?, Nat.mod_one]
  | succ width ih =>
    have hdigit := Json.hexValue?_digit (Nat.mod_lt n (by decide : 16 > 0))
    have hdigits := ih (n / 16)
    rw [hexNumber?] at hdigits ⊢
    rw [Hex.digits, List.foldlM_append, hdigits, Nat.pow_succ', Nat.mod_mul, Nat.add_comm (n % 16)]
    simp [hdigit]

lemma codePoint?_digits (width : Nat) {c : Char} (h : c.toNat < 16 ^ width) :
    codePoint? (Hex.digits width c.toNat) = some c := by
  have hvalid : c.toNat.isValidChar := c.valid
  simp [codePoint?, hexNumber?_digits, Nat.mod_eq_of_lt h, hvalid]

section Texts

variable {quote c d : Char} (rest : List Char)

lemma chars?_quote (h : quote ≠ '\\') : chars? quote (quote :: rest) = some ([], rest) := by
  rw [chars?]
  · simp
  all_goals simp [h]

lemma chars?_plain (hquote : c ≠ quote) (hslash : c ≠ '\\') (hlf : c ≠ '\n') (hcr : c ≠ '\r') :
    chars? quote (c :: rest) = (chars? quote rest).map (Prod.map (c :: ·) id) := by
  rw [chars?]
  · simp [hquote, hslash, hlf, hcr]
  all_goals simp [hslash]

lemma chars?_short (h : short? c = some d) :
    chars? quote ('\\' :: c :: rest) = (chars? quote rest).map (Prod.map (d :: ·) id) := by
  have hx : c ≠ 'x' ∧ c ≠ 'u' ∧ c ≠ 'U' := by
    refine ⟨?_, ?_, ?_⟩ <;> rintro rfl <;> cases h
  rw [chars?]
  · simp [h]
  all_goals simp [hx]

lemma chars?_codePoint (quote c : Char) :
    chars? quote (codePoint c.toNat ++ rest) = (chars? quote rest).map (Prod.map (c :: ·) id) := by
  unfold codePoint
  split_ifs with hshort hlong
  · have hread := codePoint?_digits 2 hshort
    simp only [Hex.digits, List.nil_append, List.cons_append] at hread ⊢
    simp [chars?, hread]
  · have hread := codePoint?_digits 4 hlong
    simp only [Hex.digits, List.nil_append, List.cons_append] at hread ⊢
    simp [chars?, hread]
  · have hlt : c.toNat < 16 ^ 8 := by
      have hrange := Json.toNat_range c
      omega
    have hread := codePoint?_digits 8 hlt
    simp only [Hex.digits, List.nil_append, List.cons_append] at hread ⊢
    simp [chars?, hread]

/-- A character is read from what is written for it. -/
lemma chars?_char (printable : Char → Bool) (hquote : quote = '\x27' ∨ quote = '"' ∧ c ≠ '"') :
    chars? quote (char printable quote c ++ rest) =
      (chars? quote rest).map (Prod.map (c :: ·) id) := by
  unfold char
  split_ifs with hescape hlf hcr ht hprintable
  · have hshort : short? c = some c := by
      rcases hquote with rfl | ⟨rfl, hc⟩
      · have hcases : c = '\x27' ∨ c = '\\' := by simpa using hescape
        rcases hcases with rfl | rfl <;> rfl
      · have hslash : c = '\\' := by simpa [hc] using hescape
        rw [hslash]
        rfl
    exact chars?_short rest hshort
  · rw [hlf]
    exact chars?_short rest rfl
  · rw [hcr]
    exact chars?_short rest rfl
  · rw [ht]
    exact chars?_short rest rfl
  · have hne : c ≠ quote ∧ c ≠ '\\' := by simpa using hescape
    exact chars?_plain rest hne.1 hne.2 hlf hcr
  · exact chars?_codePoint rest quote c

lemma chars?_flatMap_char (printable : Char → Bool) {cs : List Char}
    (hquote : quote = '\x27' ∨ quote = '"' ∧ '"' ∉ cs) :
    chars? quote (cs.flatMap (char printable quote) ++ quote :: rest) = some (cs, rest) := by
  induction cs with
  | nil =>
    refine chars?_quote rest ?_
    rcases hquote with rfl | ⟨rfl, -⟩ <;> decide
  | cons c cs ih =>
    have hchar : quote = '\x27' ∨ quote = '"' ∧ c ≠ '"' :=
      hquote.imp_right (And.imp_right fun h => Ne.symm (List.ne_of_not_mem_cons h))
    have hrest := ih (hquote.imp_right (And.imp_right List.not_mem_of_not_mem_cons))
    rw [List.flatMap_cons, List.append_assoc, chars?_char _ printable hchar, hrest]
    rfl

lemma quoteFor_cases (cs : List Char) :
    quoteFor cs = '\x27' ∨ quoteFor cs = '"' ∧ '"' ∉ cs := by
  unfold quoteFor
  split_ifs with h
  · exact .inr ⟨rfl, by simpa using (Bool.and_eq_true_iff.1 h).2⟩
  · exact .inl rfl

end Texts

lemma lf_notMem_digits (width n : Nat) : '\n' ∉ Hex.digits width n := by
  have hdigit : ∀ m < 16, Hex.digit m ≠ '\n' := by decide
  induction width generalizing n with
  | zero => simp [Hex.digits]
  | succ width ih =>
    have hlast := hdigit (n % 16) (Nat.mod_lt n (by decide))
    simp [Hex.digits, ih, Ne.symm hlast]

/-- No line ends in what is written for a character. -/
lemma lf_notMem_char (printable : Char → Bool) {quote : Char} (hquote : quote ≠ '\n') (c : Char) :
    '\n' ∉ char printable quote c := by
  unfold char
  split_ifs with hescape hlf hcr ht hprintable
  · have hc : c ≠ '\n' := by
      rintro rfl
      simp [Ne.symm hquote] at hescape
    simp [Ne.symm hc]
  · simp
  · simp
  · simp
  · simp [Ne.symm hlf]
  · unfold codePoint
    split_ifs <;> simp [lf_notMem_digits]

/-! ## What texts denote -/

/-- What can come after a value. -/
def Stops (rest : List Char) : Prop := ∀ c ∈ rest.head?, isNumberChar c = false

lemma stops_nil : Stops [] := by simp [Stops]

/-- A text is read as a value, whatever comes after it. -/
structure Denotes (s : String) (v : Value) : Prop where
  unbroken : '\n' ∉ s.toList
  read : ∀ {fuel : Nat} {rest : List Char}, s.toList.length ≤ fuel → Stops rest →
    value? fuel (s.toList ++ rest) = some (v, rest)

theorem denotes_text (printable : Char → Bool) (s : String) :
    Denotes (text printable s) (.text s) := by
  have htext : (text printable s).toList = quoteFor s.toList ::
      (s.toList.flatMap (char printable (quoteFor s.toList)) ++ [quoteFor s.toList]) := by
    rw [text, String.toList_ofList]
  have hcases := quoteFor_cases s.toList
  generalize quoteFor s.toList = quote at htext hcases
  have hquote : quote = '\x27' ∨ quote = '"' := hcases.imp_right And.left
  constructor
  · have hlf : quote ≠ '\n' := by rcases hquote with rfl | rfl <;> decide
    simp [htext, hlf.symm, lf_notMem_char printable hlf]
  · intro fuel rest hfuel hrest
    cases fuel with
    | zero => simp [htext] at hfuel
    | succ fuel =>
      have hparen : quote ≠ '(' := by rcases hquote with rfl | rfl <;> decide
      rw [htext, List.cons_append, List.append_assoc, List.singleton_append, value?, if_neg hparen,
        if_pos hquote, chars?_flatMap_char rest printable hcases]
      simp

section Numbers

open Decimal (takeWhile_append_eq dropWhile_append_eq)

variable {cs rest : List Char} {v : Value}

lemma denotes_number (hne : cs ≠ []) (hcs : ∀ c ∈ cs, isNumberChar c = true)
    (hv : number? cs = some v) : Denotes (.ofList cs) v := by
  obtain ⟨c, ds, rfl⟩ := List.exists_cons_of_ne_nil hne
  have hc := hcs c List.mem_cons_self
  constructor
  · rw [String.toList_ofList]
    intro hmem
    exact absurd (hcs _ hmem) (by decide)
  · intro fuel rest hfuel hrest
    rw [String.toList_ofList] at hfuel ⊢
    have htake := takeWhile_append_eq hcs hrest
    have hdrop := dropWhile_append_eq hcs hrest
    have hsign : c ≠ '(' ∧ ¬(c = '\x27' ∨ c = '"') := by
      refine ⟨?_, not_or.2 ⟨?_, ?_⟩⟩ <;> rintro rfl <;> cases hc
    cases fuel with
    | zero => simp at hfuel
    | succ fuel =>
      rw [List.cons_append] at htake hdrop ⊢
      rw [value?, if_neg hsign.1, if_neg hsign.2, htake, hdrop, hv]
      rfl

lemma isRow_of_isDigits (h : IsDigits cs) : isRow cs = true := by
  simpa [isRow, IsDigits] using h

lemma isNumberChar_of_isDigit {c : Char} (h : c.isDigit = true) : isNumberChar c = true := by
  simp [isNumberChar, Char.isAlphanum, h]

/-- The digits of a whole number have no zeros in front. -/
lemma isWhole_toDigits (n : Nat) : isWhole (Nat.toDigits 10 n) = true := by
  have hdigits := Decimal.isDigits_toDigits n
  rw [isWhole, isRow_of_isDigits hdigits, Bool.true_and]
  by_contra hzero
  obtain ⟨d, ds, hds⟩ := List.exists_cons_of_ne_nil hdigits.1
  have hzero : d = '0' ∧ ds ≠ [] := by simpa [hds] using hzero
  have hlt : n < 10 ^ ds.length := by
    have hrest : ∀ c ∈ ds, c.isDigit = true := fun c hc => hdigits.2 c (by simp [hds, hc])
    have hvalue : n = Decimal.ofDigits ds := by
      rw [← Decimal.ofDigits_toDigits n, hds, hzero.1]
      rfl
    exact hvalue ▸ Decimal.ofDigits_lt hrest
  have hlen := (Nat.length_toDigits_le_iff (by decide) (List.length_pos_iff.2 hzero.2)).2 hlt
  rw [hds, List.length_cons] at hlen
  omega

theorem denotes_whole (n : Nat) : Denotes (toString n) (.whole n) := by
  have hdigits := Decimal.isDigits_toDigits n
  have hnumber : number? (Nat.toDigits 10 n) = some (.whole n) := by
    rw [number?, if_pos (isWhole_toDigits n), Decimal.ofDigits_toDigits]
  have hdenotes := denotes_number hdigits.1
    (fun c hc => isNumberChar_of_isDigit (hdigits.2 c hc)) hnumber
  rwa [← Nat.toList_repr, String.ofList_toList] at hdenotes

lemma isDecimal_of_parts {whole fraction exponent : List Char}
    (h : Decimal.Parts whole fraction exponent) :
    isDecimal ((whole ++ fraction) ++ exponent) = true := by
  have hfraction : fraction = [] ∨ isRow fraction.tail = true := by
    rcases h.point with rfl | ⟨ds, hds, rfl⟩
    · exact .inl rfl
    · exact .inr (isRow_of_isDigits hds)
  have hexponent : exponent = [] ∨ isRow (unsigned exponent.tail) = true := by
    rcases h.power with rfl | ⟨sign, es, hsign, hes, rfl⟩
    · exact .inl rfl
    · right
      rcases hsign with rfl | rfl <;> exact isRow_of_isDigits hes
  have henough : ¬(fraction = [] ∧ exponent = []) := fun hnil =>
    h.enough.elim (· hnil.1) (· hnil.2)
  simp only [isDecimal, h.split_exponent, h.split_point, isRow_of_isDigits h.digits]
  simpa [hfraction, hexponent, ← not_and_or] using henough

/-- A row of digits has no point and no exponent. -/
lemma not_isWhole_of_parts {whole fraction exponent : List Char}
    (h : Decimal.Parts whole fraction exponent) :
    isWhole ((whole ++ fraction) ++ exponent) = false := by
  have hsign : ∃ c ∈ (whole ++ fraction) ++ exponent, c.isDigit = false := by
    rcases h.enough with hne | hne
    · obtain ⟨ds, -, rfl⟩ := h.point.resolve_left hne
      exact ⟨'.', by simp, rfl⟩
    · obtain ⟨sign, es, -, -, rfl⟩ := h.power.resolve_left hne
      exact ⟨'e', by simp, rfl⟩
  obtain ⟨c, hmem, hc⟩ := hsign
  rw [isWhole, isRow, List.all_eq_false.2 ⟨c, hmem, by simp [hc]⟩]
  simp

/-- A decimal number is read as the text it is. -/
theorem denotes_decimal {u : Nat} (hu : Binary.Representable u) :
    Denotes (Binary.finite u).display (.decimal (Binary.finite u).display) := by
  obtain ⟨y, hy⟩ := (Binary.exists_written (.finite hu)).resolve_left (by simp)
  generalize (Binary.finite u).display = s at hy
  have hchars : ∀ c ∈ s.toList, isNumberChar c = true := by
    intro c hc
    rcases hy.char_cases c hc with hdigit | hsign
    · exact isNumberChar_of_isDigit hdigit
    · have hall : ['.', 'e', '+', '-'].all isNumberChar = true := by decide
      exact List.all_eq_true.1 hall c hsign
  obtain ⟨d, ds, hcs, -⟩ := hy.exists_digit
  have hnumber : number? s.toList = some (.decimal (.ofList s.toList)) := by
    generalize s.toList = cs at hy
    obtain ⟨hparts⟩ := hy
    rw [number?, not_isWhole_of_parts hparts, isDecimal_of_parts hparts]
    rfl
  have hdenotes := denotes_number (by simp [hcs]) hchars hnumber
  rwa [String.ofList_toList] at hdenotes

lemma denotes_infinite : Denotes Binary.infinite.display .infinite := by
  have hall : ['i', 'n', 'f'].all isNumberChar = true := by decide
  have hdenotes : Denotes (.ofList ['i', 'n', 'f']) .infinite :=
    denotes_number (by simp) (List.all_eq_true.1 hall) rfl
  exact hdenotes

end Numbers

/-! ## Tuples -/

section Tuples

variable {s : String} {v : Value} {vs : List Value} {fuel : Nat} {cs rest : List Char}

lemma number?_nil : number? [] = none := rfl

lemma Denotes.exists_cons (h : Denotes s v) :
    ∃ c cs, s.toList = c :: cs ∧ c ≠ ' ' ∧ c ≠ ')' := by
  have hread := h.read le_rfl stops_nil
  rw [List.append_nil] at hread
  cases hs : s.toList with
  | nil =>
    rw [hs] at hread
    cases hread
  | cons c cs =>
    refine ⟨c, cs, rfl, ?_, ?_⟩ <;> rintro rfl
    all_goals
      rw [hs, List.length_cons, value?] at hread
      simp [isNumberChar, number?_nil] at hread

lemma items?_space : items? fuel (' ' :: cs) = items? fuel cs := by
  cases fuel with
  | zero => rfl
  | succ fuel => rw [items?, items?, List.dropWhile_cons_of_pos rfl]

lemma items?_close : items? (fuel + 1) (')' :: rest) = some ([], true, rest) := rfl

lemma items?_value (h : Denotes s v) (hfuel : s.toList.length ≤ fuel) (hrest : Stops rest) :
    items? (fuel + 1) (s.toList ++ rest) =
      match rest.dropWhile (· == ' ') with
      | ')' :: rest => some ([v], false, rest)
      | ',' :: cs => (items? fuel cs).map (Prod.map (v :: ·) id)
      | _ => none := by
  obtain ⟨c, cs, hs, hspace, hclose⟩ := h.exists_cons
  have hread := h.read hfuel hrest
  have hdrop : (s.toList ++ rest).dropWhile (· == ' ') = s.toList ++ rest := by
    rw [hs, List.cons_append, List.dropWhile_cons_of_neg (by simpa using hspace)]
  rw [items?, hdrop]
  split
  · rename_i hcons
    rw [hs, List.cons_append] at hcons
    exact absurd (List.cons.inj hcons).1 hclose
  · rw [hread]
    rfl

lemma intercalate_cons_cons (s s' : String) (ss : List String) :
    (String.intercalate ", " (s :: s' :: ss)).toList =
      s.toList ++ ',' :: ' ' :: (String.intercalate ", " (s' :: ss)).toList := by
  simp [String.toList_intercalate]

/-- Values are read one after the other up to the closing parenthesis. -/
lemma items?_intercalate {ss : List String} (h : Denotes s v) (hs : List.Forall₂ Denotes ss vs)
    (hfuel : (String.intercalate ", " (s :: ss)).toList.length < fuel) :
    items? fuel ((String.intercalate ", " (s :: ss)).toList ++ ')' :: rest) =
      some (v :: vs, false, rest) := by
  induction hs generalizing s v fuel with
  | nil =>
    obtain ⟨fuel, rfl⟩ := Nat.exists_eq_add_one.2 (Nat.zero_lt_of_lt hfuel)
    have hone : (String.intercalate ", " [s]).toList = s.toList := by simp
    rw [hone] at hfuel ⊢
    rw [items?_value h (Nat.lt_succ_iff.1 hfuel) (by simp [Stops, isNumberChar])]
    rfl
  | @cons s' v' ss vs h' _ ih =>
    obtain ⟨fuel, rfl⟩ := Nat.exists_eq_add_one.2 (Nat.zero_lt_of_lt hfuel)
    rw [intercalate_cons_cons, List.length_append, List.length_cons, List.length_cons] at hfuel
    rw [intercalate_cons_cons, List.append_assoc, List.cons_append, List.cons_append,
      items?_value h (by omega) (by simp [Stops, isNumberChar])]
    change (items? fuel (' ' :: _)).map _ = _
    rw [items?_space, ih h' (by omega)]
    rfl

lemma lf_notMem_intercalate {ss : List String} (h : List.Forall₂ Denotes ss vs) :
    '\n' ∉ (String.intercalate ", " ss).toList := by
  induction h with
  | nil => simp
  | @cons s v ss vs hs hss ih =>
    cases hss with
    | nil => simpa using hs.unbroken
    | cons =>
      rw [intercalate_cons_cons, List.mem_append, List.mem_cons, List.mem_cons]
      simp only [hs.unbroken, ih, or_false, false_or]
      decide

/-- What is read up to a closing parenthesis, in parentheses. -/
lemma Denotes.parens (vs : List Value) (comma : Bool) {body : List Char}
    (hs : s.toList = '(' :: (body ++ [')'])) (hlf : '\n' ∉ body)
    (hread : ∀ {fuel : Nat} {rest : List Char}, body.length < fuel →
      items? fuel (body ++ ')' :: rest) = some (vs, comma, rest)) :
    Denotes s (.ofItems vs comma) := by
  constructor
  · simpa [hs] using hlf
  · intro fuel rest hfuel _
    rw [hs, List.length_cons, List.length_append, List.length_singleton] at hfuel
    obtain ⟨fuel, rfl⟩ := Nat.exists_eq_add_one.2 (Nat.zero_lt_of_lt hfuel)
    rw [hs, List.cons_append, List.append_assoc, List.singleton_append, value?, if_pos rfl,
      hread (by omega)]
    rfl

/-- A tuple is read as the tuple of what its parts denote. -/
theorem Denotes.tuple {ss : List String} (h : List.Forall₂ Denotes ss vs) :
    Denotes (Literal.tuple ss) (.tuple vs) := by
  cases h with
  | nil =>
    have htext : (Literal.tuple []).toList = '(' :: ([] ++ [')']) := by simp [Literal.tuple]
    refine Denotes.parens [] true htext (by simp) ?_
    intro fuel rest hfuel
    obtain ⟨fuel, rfl⟩ := Nat.exists_eq_add_one.2 hfuel
    exact items?_close
  | @cons s v ss vs hs hss =>
    cases hss with
    | nil =>
      have htext : (Literal.tuple [s]).toList = '(' :: ((s.toList ++ [',']) ++ [')']) := by
        simp [Literal.tuple]
      -- With a comma after it, a single value is a tuple.
      refine Denotes.parens [v] true htext (by simpa using hs.unbroken) ?_
      intro fuel rest hfuel
      rw [List.length_append, List.length_singleton] at hfuel
      obtain ⟨fuel, rfl⟩ : ∃ n, fuel = n + 2 := ⟨fuel - 2, by omega⟩
      rw [List.append_assoc, items?_value hs (by omega) (by simp [Stops, isNumberChar])]
      rfl
    | @cons s' v' ss vs hs' hss =>
      have hrest : List.Forall₂ Denotes (s' :: ss) (v' :: vs) := .cons hs' hss
      have htext : (Literal.tuple (s :: s' :: ss)).toList =
          '(' :: ((String.intercalate ", " (s :: s' :: ss)).toList ++ [')']) := by
        simp [Literal.tuple]
      exact Denotes.parens (v :: v' :: vs) false htext (lf_notMem_intercalate (.cons hs hrest))
        (items?_intercalate hs hrest)

lemma Denotes.tuple_map {α : Type} {f : α → String} {g : α → Value} {as : List α}
    (h : ∀ a ∈ as, Denotes (f a) (g a)) :
    Denotes (Literal.tuple (as.map f)) (.tuple (as.map g)) := by
  refine Denotes.tuple ?_
  rw [List.forall₂_map_left_iff, List.forall₂_map_right_iff, List.forall₂_same]
  exact h

end Tuples

/-- A text that denotes a value is read as this value. -/
lemma Denotes.read?_eq {s : String} {v : Value} (h : Denotes s v) : read? s = some v := by
  have hread := h.read le_rfl stops_nil
  rw [List.append_nil] at hread
  rw [read?, hread]

end Literal

end MapFilter
