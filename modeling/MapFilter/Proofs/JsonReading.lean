import MapFilter.Sql.Bounds
import MapFilter.Text.Json
import Mathlib.Tactic.Common

/-!
# Reading JSON text back

A reader for JSON strings, and for objects whose members are strings. It takes more than `Json.member`
writes: blanks between the tokens, characters beyond ASCII, every escape and digits of either case.
What is written is read back as it was, in ASCII alone.
-/

namespace MapFilter

namespace Json

/-! ## The reader -/

def hexValue? (c : Char) : Option Nat :=
  if '0' ≤ c ∧ c ≤ '9' then some (c.toNat - '0'.toNat)
  else if 'a' ≤ c ∧ c ≤ 'f' then some (c.toNat - 'a'.toNat + 10)
  else if 'A' ≤ c ∧ c ≤ 'F' then some (c.toNat - 'A'.toNat + 10)
  else none

/-- The number that four hexadecimal digits stand for. -/
def unitValue? (a b c d : Char) : Option Nat := do
  let a ← hexValue? a
  let b ← hexValue? b
  let c ← hexValue? c
  let d ← hexValue? d
  some (((a * 16 + b) * 16 + c) * 16 + d)

/-- What a backslash and one more character stand for. -/
def shortValue? : Char → Option Nat
  | '"' => some 0x22
  | '\\' => some 0x5c
  | '/' => some 0x2f
  | 'b' => some 0x08
  | 'f' => some 0x0c
  | 'n' => some 0x0a
  | 'r' => some 0x0d
  | 't' => some 0x09
  | _ => none

/-- The units of a string whose opening quote has been read, and what comes after its closing
quote. Control characters cannot stand for themselves. -/
def units? : List Char → Option (List Nat × List Char)
  | [] => none
  | '"' :: rest => some ([], rest)
  | '\\' :: 'u' :: a :: b :: c :: d :: rest => do
    let n ← unitValue? a b c d
    (units? rest).map (Prod.map (n :: ·) id)
  | '\\' :: c :: rest => do
    let n ← shortValue? c
    (units? rest).map (Prod.map (n :: ·) id)
  | c :: rest =>
    if c = '\\' ∨ c.toNat < 32 then none else (units? rest).map (Prod.map (c.toNat :: ·) id)

def isLeading (n : Nat) : Bool := 0xd800 ≤ n && n < 0xdc00

def isTrailing (n : Nat) : Bool := 0xdc00 ≤ n && n < 0xe000

/-- The characters that units stand for. A leading and a trailing unit stand for one character
together, and for none alone. -/
def ofUnits? : List Nat → Option (List Char)
  | [] => some []
  | [n] => if isLeading n || isTrailing n then none else some [Char.ofNat n]
  | n :: m :: ns =>
    if isLeading n then
      if isTrailing m then
        (ofUnits? ns).map (Char.ofNat (0x10000 + (n - 0xd800) * 1024 + (m - 0xdc00)) :: ·)
      else none
    else if isTrailing n then none
    else (ofUnits? (m :: ns)).map (Char.ofNat n :: ·)

/-- The first string of a text, and what comes after it. -/
def string? (cs : List Char) : Option (String × List Char) :=
  match cs.dropWhile isBlank with
  | '"' :: cs => do
    let (ns, rest) ← units? cs
    let s ← ofUnits? ns
    some (.ofList s, rest)
  | _ => none

def member? (cs : List Char) : Option ((String × String) × List Char) := do
  let (key, cs) ← string? cs
  match cs.dropWhile isBlank with
  | ':' :: cs =>
    let (value, cs) ← string? cs
    some ((key, value), cs)
  | _ => none

/-- At most so many members, up to the bracket that ends them. -/
def members? : Nat → List Char → Option (List (String × String) × List Char)
  | 0, _ => none
  | most + 1, cs => do
    let (m, cs) ← member? cs
    match cs.dropWhile isBlank with
    | ',' :: cs => (members? most cs).map (Prod.map (m :: ·) id)
    | '\x7d' :: cs => some ([m], cs)
    | _ => none

/-- The members of the object that a whole text stands for, in their order. -/
def object? (s : String) : Option (List (String × String)) := do
  match s.toList.dropWhile isBlank with
  | '\x7b' :: cs =>
    let (ms, rest) ← match cs.dropWhile isBlank with
      | '\x7d' :: rest => some ([], rest)
      | _ => members? cs.length cs
    if rest.all isBlank then some ms else none
  | _ => none

/-! ## Units -/

lemma hexValue?_digit {n : Nat} (h : n < 16) : hexValue? (Hex.digit n) = some n := by
  revert n
  decide

lemma units?_unit {n : Nat} (h : n < 0x10000) (rest : List Char) :
    units? (unit n ++ rest) = (units? rest).map (Prod.map (n :: ·) id) := by
  have hvalue : unitValue? (Hex.digit (n / 16 / 16 / 16 % 16)) (Hex.digit (n / 16 / 16 % 16))
      (Hex.digit (n / 16 % 16)) (Hex.digit (n % 16)) = some n := by
    simp only [unitValue?, hexValue?_digit (Nat.mod_lt _ (by decide : 16 > 0)), Option.bind_eq_bind,
      Option.bind_some, Option.some.injEq]
    omega
  simp [unit, Hex.digits, units?, hvalue]

lemma units?_short {c : Char} {n : Nat} (h : shortValue? c = some n) (rest : List Char) :
    units? ('\\' :: c :: rest) = (units? rest).map (Prod.map (n :: ·) id) := by
  have hu : c ≠ 'u' := by
    rintro rfl
    cases h
  rw [units?]
  · simp [h]
  · simp [hu]

lemma units?_plain {c : Char} (hq : c ≠ '"') (hb : c ≠ '\\') (h : 32 ≤ c.toNat)
    (rest : List Char) :
    units? (c :: rest) = (units? rest).map (Prod.map (c.toNat :: ·) id) := by
  rw [units?]
  · simp [hb, Nat.not_lt.2 h]
  · simp [hq]
  · simp [hb]
  · simp [hb]

/-- The units of a character. -/
def encoded (c : Char) : List Nat :=
  if c.toNat < 0x10000 then [c.toNat]
  else [0xd800 + (c.toNat - 0x10000) / 1024, 0xdc00 + (c.toNat - 0x10000) % 1024]

lemma toNat_range (c : Char) : c.toNat < 0xd800 ∨ 0xdfff < c.toNat ∧ c.toNat < 0x110000 := c.valid

/-- The ways to write a character: in a short form, as itself, or as its units. -/
inductive Spelt (c : Char) : List Char → Prop where
  | short {d : Char} : shortValue? d = some c.toNat → Spelt c ['\\', d]
  | plain : c ≠ '"' → c ≠ '\\' → 32 ≤ c.toNat → c.toNat < 127 → Spelt c [c]
  | units : Spelt c ((encoded c).flatMap unit)

lemma Spelt.of_ite {c : Char} {p : Prop} [Decidable p] {u v : List Char} (hu : p → Spelt c u)
    (hv : ¬p → Spelt c v) : Spelt c (if p then u else v) := by
  by_cases h : p
  · rw [if_pos h]
    exact hu h
  · rw [if_neg h]
    exact hv h

lemma spelt_char (c : Char) : Spelt c (char c) := by
  have hunit (h : c.toNat < 0x10000) : (encoded c).flatMap unit = unit c.toNat := by
    simp [encoded, h]
  unfold char
  refine .of_ite (fun h => .short (by rw [h]; rfl)) fun hquote => ?_
  refine .of_ite (fun h => .short (by rw [h]; rfl)) fun hslash => ?_
  iterate 5 refine .of_ite (fun h => .short (by rw [h]; rfl)) fun _ => ?_
  refine .of_ite (fun h => hunit (by omega) ▸ .units) fun hcontrol => ?_
  refine .of_ite (fun h => .plain hquote hslash (by omega) h) fun _ => ?_
  refine .of_ite (fun h => hunit h ▸ .units) fun hlong => ?_
  have hpair := Spelt.units (c := c)
  rwa [encoded, if_neg hlong] at hpair

lemma units?_flatMap_unit {ns : List Nat} (h : ∀ n ∈ ns, n < 0x10000) (rest : List Char) :
    units? (ns.flatMap unit ++ rest) = (units? rest).map (Prod.map (ns ++ ·) id) := by
  induction ns with
  | nil =>
    rw [List.flatMap_nil, List.nil_append]
    cases units? rest <;> rfl
  | cons n ns ih =>
    rw [List.forall_mem_cons] at h
    rw [List.flatMap_cons, List.append_assoc, units?_unit h.1, ih h.2, Option.map_map]
    rfl

lemma encoded_lt (c : Char) : ∀ n ∈ encoded c, n < 0x10000 := by
  have hrange := toNat_range c
  rw [encoded]
  split
  · simpa
  · simp only [List.forall_mem_cons, List.not_mem_nil, false_implies, implies_true, and_true]
    omega

lemma encoded_of_lt {c : Char} (h : c.toNat < 0x10000) : encoded c = [c.toNat] := if_pos h

lemma shortValue?_lt {d : Char} {n : Nat} (h : shortValue? d = some n) :
    d.toNat < 128 ∧ n < 128 := by
  unfold shortValue? at h
  split at h <;> cases h <;> decide

/-- However a character is written, it is read as its units. -/
lemma Spelt.units? {c : Char} {w : List Char} (h : Spelt c w) (rest : List Char) :
    units? (w ++ rest) = (units? rest).map (Prod.map (encoded c ++ ·) id) := by
  cases h with
  | short hd =>
    have := shortValue?_lt hd
    rw [encoded_of_lt (by omega)]
    exact units?_short hd rest
  | plain hquote hslash hlow hhigh =>
    rw [encoded_of_lt (by omega)]
    exact units?_plain hquote hslash hlow rest
  | units => exact units?_flatMap_unit (encoded_lt c) rest

lemma units?_flatMap_char (cs rest : List Char) :
    units? (cs.flatMap char ++ '"' :: rest) = some (cs.flatMap encoded, rest) := by
  induction cs with
  | nil => rfl
  | cons c cs ih =>
    rw [List.flatMap_cons, List.append_assoc, (spelt_char c).units?, ih]
    rfl

/-- A character that is a unit of its own. -/
lemma ofUnits?_toNat (c : Char) (ns : List Nat) :
    ofUnits? (c.toNat :: ns) = (ofUnits? ns).map (c :: ·) := by
  have hrange := toNat_range c
  have hlead : isLeading c.toNat = false := by
    simp only [isLeading, Bool.and_eq_false_iff, decide_eq_false_iff_not]
    omega
  have htrail : isTrailing c.toNat = false := by
    simp only [isTrailing, Bool.and_eq_false_iff, decide_eq_false_iff_not]
    omega
  cases ns <;> simp [ofUnits?, hlead, htrail]

lemma ofUnits?_encoded (c : Char) (ns : List Nat) :
    ofUnits? (encoded c ++ ns) = (ofUnits? ns).map (c :: ·) := by
  have hrange := toNat_range c
  unfold encoded
  split_ifs with hbmp
  · exact ofUnits?_toNat c ns
  · have hlead : isLeading (0xd800 + (c.toNat - 0x10000) / 1024) = true := by
      simp only [isLeading, Bool.and_eq_true, decide_eq_true_eq]
      omega
    have htrail : isTrailing (0xdc00 + (c.toNat - 0x10000) % 1024) = true := by
      simp only [isTrailing, Bool.and_eq_true, decide_eq_true_eq]
      omega
    have hsum : 0x10000 + (0xd800 + (c.toNat - 0x10000) / 1024 - 0xd800) * 1024 +
        (0xdc00 + (c.toNat - 0x10000) % 1024 - 0xdc00) = c.toNat := by omega
    simp only [List.cons_append, List.nil_append, ofUnits?, hlead, htrail, if_true, hsum,
      Char.ofNat_toNat]

lemma ofUnits?_flatMap_encoded (cs : List Char) : ofUnits? (cs.flatMap encoded) = some cs := by
  induction cs with
  | nil => rfl
  | cons c cs ih => rw [List.flatMap_cons, ofUnits?_encoded, ih, Option.map_some]

/-! ## Strings and objects -/

/-- A string is read back as it was, whatever comes after it. -/
theorem string?_string (s : String) (rest : List Char) :
    string? (string s ++ rest) = some (s, rest) := by
  have hunits := units?_flatMap_char s.toList rest
  have hblank : isBlank '"' = false := by decide
  simp [string?, string, hblank, hunits, ofUnits?_flatMap_encoded]

lemma string?_cons_of_isBlank {c : Char} (h : isBlank c = true) (cs : List Char) :
    string? (c :: cs) = string? cs := by
  rw [string?, List.dropWhile_cons_of_pos h, ← string?]

lemma member?_append (key value : String) (rest : List Char) :
    member? (string key ++ ':' :: ' ' :: (string value ++ rest)) = some ((key, value), rest) := by
  have hcolon : isBlank ':' = false := by decide
  have hvalue : string? (' ' :: (string value ++ rest)) = some (value, rest) := by
    rw [string?_cons_of_isBlank (by decide), string?_string]
  simp [member?, string?_string, hcolon, hvalue]

lemma members?_append (most : Nat) (key value : String) (rest : List Char) :
    members? (most + 1) (string key ++ ':' :: ' ' :: (string value ++ '\x7d' :: rest)) =
      some ([(key, value)], rest) := by
  have hclose : isBlank '\x7d' = false := by decide
  simp [members?, member?_append, hclose]

/-- An object with one member is read back as it was. -/
theorem object?_member (key value : String) : object? (member key value) = some [(key, value)] := by
  have hopen : isBlank '\x7b' = false := by decide
  have hquote : isBlank '"' = false := by decide
  obtain ⟨tail, htail⟩ :
      ∃ tail, string key ++ ':' :: ' ' :: (string value ++ ['\x7d']) = '"' :: tail := ⟨_, rfl⟩
  have hmembers := members?_append tail.length key value []
  rw [htail] at hmembers
  have hsplit : (member key value).toList = '\x7b' :: '"' :: tail := by
    rw [member, String.toList_ofList, htail]
  simp only [object?, hsplit, List.dropWhile_cons, hopen, hquote, List.length_cons, hmembers,
    Option.bind_eq_bind, Option.bind_some, List.all_nil, if_true, Bool.false_eq_true, if_false]
  rfl

example : object? " \x7b\"a\" : \"\\ud834\\uDD1E\\/é\",\n\"\":\"\" \x7d " =
    some [("a", "𝄞/é"), ("", "")] := by rfl

example : object? "\x7b\"a\": \"\\ud834\"\x7d" = none := by rfl

/-! ## Only ASCII is written -/

lemma toNat_digit_lt {n : Nat} (h : n < 16) : (Hex.digit n).toNat < 128 := by
  revert n
  decide

lemma toNat_unit_lt (n : Nat) : ∀ d ∈ unit n, d.toNat < 128 := by
  have hdigit (m : Nat) : (Hex.digit (m % 16)).toNat < 128 :=
    toNat_digit_lt (Nat.mod_lt _ (by decide))
  simp [unit, Hex.digits, hdigit]

lemma Spelt.toNat_lt {c : Char} {w : List Char} (h : Spelt c w) : ∀ d ∈ w, d.toNat < 128 := by
  cases h with
  | short hd => simpa using (shortValue?_lt hd).1
  | plain _ _ _ hlt =>
    rw [List.forall_mem_singleton]
    omega
  | units =>
    intro d hd
    obtain ⟨n, -, hd⟩ := List.mem_flatMap.1 hd
    exact toNat_unit_lt n d hd

lemma toNat_string_lt (s : String) : ∀ d ∈ string s, d.toNat < 128 := by
  have hchars : ∀ d ∈ s.toList.flatMap char, d.toNat < 128 := by
    intro d hd
    obtain ⟨c, -, hd⟩ := List.mem_flatMap.1 hd
    exact (spelt_char c).toNat_lt d hd
  rw [string, List.forall_mem_cons, List.forall_mem_append]
  exact ⟨by decide, hchars, List.forall_mem_singleton.2 (by decide)⟩

/-- An object is written in ASCII alone. -/
theorem toNat_member_lt (key value : String) : ∀ d ∈ (member key value).toList, d.toNat < 128 := by
  rw [member, String.toList_ofList]
  simp only [List.forall_mem_cons, List.forall_mem_append]
  exact ⟨by decide, toNat_string_lt key, by decide, by decide, toNat_string_lt value, by decide,
    by simp⟩

end Json

end MapFilter
