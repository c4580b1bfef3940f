import Mathlib.Data.List.TakeWhile
import MapFilter.Proofs.ShortestDecimal

/-!
# Decimal texts

What is written for a number is a row of digits with a point in it, or one with an exponent. Either
text stands for the decimal of the number, so different numbers are written differently. A text with
a point only is also one that can be read in a filter, and is read as the number.
-/

namespace MapFilter

namespace Decimal

open Layout

/-! ## Rows of digits -/

lemma ofDigits_append (cs ds : List Char) :
    ofDigits (cs ++ ds) = ofDigits cs * 10 ^ ds.length + ofDigits ds := by
  calc ofDigits (cs ++ ds) = Nat.ofDigitChars 10 ds (ofDigits cs) := Nat.ofDigitChars_append 0
    _ = 10 ^ ds.length * ofDigits cs + ofDigits ds := Nat.ofDigitChars_eq_ofDigitChars_zero
    _ = ofDigits cs * 10 ^ ds.length + ofDigits ds := by rw [Nat.mul_comm]

lemma ofDigits_lt {cs : List Char} (h : ∀ c ∈ cs, c.isDigit = true) :
    ofDigits cs < 10 ^ cs.length := by
  induction cs using List.reverseRecOn with
  | nil => decide
  | append_singleton cs c ih =>
    rw [List.forall_mem_append, List.forall_mem_singleton] at h
    have hcs := ih h.1
    have hc : ofDigits [c] < 10 := by
      have hdigit := h.2
      simp only [Char.isDigit, Bool.and_eq_true, decide_eq_true_eq, ge_iff_le,
        UInt32.le_iff_toNat_le] at hdigit
      change 48 ≤ c.toNat ∧ c.toNat ≤ 57 at hdigit
      change 10 * 0 + (c.toNat - 48) < 10
      omega
    rw [ofDigits_append, List.length_append, List.length_singleton, Nat.pow_one, Nat.pow_succ]
    omega

lemma ofDigits_toDigits (n : Nat) : ofDigits (Nat.toDigits 10 n) = n :=
  Nat.ofDigitChars_ten_toDigits

lemma isDigits_toDigits (n : Nat) : IsDigits (Nat.toDigits 10 n) :=
  ⟨Nat.toDigits_ne_nil, fun _ hc => Nat.isDigit_of_mem_toDigits (by decide) (by decide) hc⟩

lemma ofDigits_zeros (n : Nat) : ofDigits (zeros n) = 0 := by
  have hzeros : ofDigits (zeros n) = 10 ^ n * 0 := Nat.ofDigitChars_replicate_zero
  rwa [Nat.mul_zero] at hzeros

lemma length_zeros (n : Nat) : (zeros n).length = n := List.length_replicate

/-- What a row of digits stands for with the point after the first `n` of them. -/
def pointedAt (ds : List Char) (n : Int) : ℚ := ofDigits ds * 10 ^ (n - ds.length)

lemma pointedAt_append_zeros (ds : List Char) (z : Nat) (n : Int) :
    pointedAt (ds ++ zeros z) n = pointedAt ds n := by
  have hpow : (10 : ℚ) ^ (n - ds.length) = 10 ^ z * 10 ^ (n - (ds.length + z : Nat)) := by
    rw [← zpow_natCast, ← zpow_add₀ (by norm_num)]
    congr 1
    push_cast
    omega
  rw [pointedAt, pointedAt, ofDigits_append, ofDigits_zeros, List.length_append, length_zeros, hpow]
  push_cast
  ring

lemma pointedAt_zeros_append (ds : List Char) (z : Nat) (n : Int) :
    pointedAt (zeros z ++ ds) n = pointedAt ds (n - z) := by
  rw [pointedAt, pointedAt, ofDigits_append, ofDigits_zeros, List.length_append, length_zeros,
    Nat.zero_mul, Nat.zero_add]
  congr 2
  push_cast
  omega

lemma pointedAt_add (ds : List Char) (m n : Int) :
    pointedAt ds (m + n) = pointedAt ds m * 10 ^ n := by
  rw [pointedAt, pointedAt, mul_assoc, ← zpow_add₀ (by norm_num)]
  congr 2
  omega

/-! ## Texts -/

/-- The exponents that are written with a sign. -/
def signed : List Char → ℤ
  | [] => 0
  | c :: es => if c = '-' then -(ofDigits es : ℤ) else ofDigits es

/-- What a text stands for: digits with a point between them, and an exponent. -/
def meaning (cs : List Char) : ℚ :=
  let mantissa := cs.takeWhile (· != 'e')
  let whole := mantissa.takeWhile (· != '.')
  pointedAt (whole ++ (mantissa.dropWhile (· != '.')).drop 1) whole.length *
    10 ^ signed ((cs.dropWhile (· != 'e')).drop 1)

/-- Digits, a point with more of them and an exponent, one of the last two at least. -/
structure Parts (whole fraction exponent : List Char) : Prop where
  digits : IsDigits whole
  point : fraction = [] ∨ ∃ ds, IsDigits ds ∧ fraction = '.' :: ds
  power : exponent = [] ∨ ∃ sign es, (sign = '+' ∨ sign = '-') ∧ IsDigits es ∧
    exponent = 'e' :: sign :: es
  enough : fraction ≠ [] ∨ exponent ≠ []

/-- The texts of numbers, with what they stand for. -/
inductive Written : List Char → ℚ → Prop where
  | intro {whole fraction exponent : List Char} : Parts whole fraction exponent →
      Written ((whole ++ fraction) ++ exponent)
        (pointedAt (whole ++ fraction.drop 1) whole.length * 10 ^ signed (exponent.drop 1))

section Splitting

variable {us vs : List Char}

/-- What passes, up to a character that does not. -/
lemma takeWhile_append_eq {p : Char → Bool} (hus : ∀ c ∈ us, p c = true)
    (hvs : ∀ c ∈ vs.head?, p c = false) : (us ++ vs).takeWhile p = us := by
  rw [List.takeWhile_append_of_pos hus]
  cases vs with
  | nil => simp
  | cons c vs => simp [hvs c rfl]

lemma dropWhile_append_eq {p : Char → Bool} (hus : ∀ c ∈ us, p c = true)
    (hvs : ∀ c ∈ vs.head?, p c = false) : (us ++ vs).dropWhile p = vs := by
  rw [List.dropWhile_append_of_pos hus]
  cases vs with
  | nil => simp
  | cons c vs => simp [hvs c rfl]

variable {a : Char} (h : a ∉ us) (hvs : ∀ c ∈ vs.head?, c = a)

include h hvs

lemma takeWhile_ne_append : (us ++ vs).takeWhile (· != a) = us :=
  takeWhile_append_eq (fun c hc => by simpa using ne_of_mem_of_not_mem hc h)
    fun c hc => by simpa using hvs c hc

lemma dropWhile_ne_append : (us ++ vs).dropWhile (· != a) = vs :=
  dropWhile_append_eq (fun c hc => by simpa using ne_of_mem_of_not_mem hc h)
    fun c hc => by simpa using hvs c hc

end Splitting

lemma notMem_of_isDigits {a : Char} {ds : List Char} (hds : IsDigits ds) (ha : a.isDigit = false) :
    a ∉ ds := fun hmem => by
  rw [hds.2 a hmem] at ha
  cases ha

section Parts

variable {whole fraction exponent : List Char} (h : Parts whole fraction exponent)

include h

lemma Parts.split_exponent :
    ((whole ++ fraction) ++ exponent).takeWhile (· != 'e') = whole ++ fraction ∧
      ((whole ++ fraction) ++ exponent).dropWhile (· != 'e') = exponent := by
  have hmantissa : 'e' ∉ whole ++ fraction := by
    have hwhole : 'e' ∉ whole := notMem_of_isDigits h.digits rfl
    rcases h.point with rfl | ⟨ds, hds, rfl⟩
    · simpa using hwhole
    · have hds : 'e' ∉ ds := notMem_of_isDigits hds rfl
      simp [hwhole, hds]
  have hexponent : ∀ c ∈ exponent.head?, c = 'e' := by
    rcases h.power with rfl | ⟨sign, es, -, -, rfl⟩ <;> simp
  exact ⟨takeWhile_ne_append hmantissa hexponent, dropWhile_ne_append hmantissa hexponent⟩

lemma Parts.split_point : (whole ++ fraction).takeWhile (· != '.') = whole ∧
    (whole ++ fraction).dropWhile (· != '.') = fraction := by
  have hwhole : '.' ∉ whole := notMem_of_isDigits h.digits rfl
  have hfraction : ∀ c ∈ fraction.head?, c = '.' := by
    rcases h.point with rfl | ⟨ds, -, rfl⟩ <;> simp
  exact ⟨takeWhile_ne_append hwhole hfraction, dropWhile_ne_append hwhole hfraction⟩

lemma Parts.char_cases : ∀ c ∈ (whole ++ fraction) ++ exponent,
    c.isDigit = true ∨ c ∈ ['.', 'e', '+', '-'] := by
  intro c hc
  rw [List.mem_append, List.mem_append] at hc
  rcases hc with (hc | hc) | hc
  · exact .inl (h.digits.2 c hc)
  · rcases h.point with rfl | ⟨ds, hds, rfl⟩
    · cases hc
    · rcases List.mem_cons.1 hc with rfl | hc
      · exact .inr (by decide)
      · exact .inl (hds.2 c hc)
  · rcases h.power with rfl | ⟨sign, es, hsign, hes, rfl⟩
    · cases hc
    · rw [List.mem_cons, List.mem_cons] at hc
      rcases hc with rfl | rfl | hc
      · exact .inr (by decide)
      · rcases hsign with rfl | rfl <;> exact .inr (by decide)
      · exact .inl (hes.2 c hc)

end Parts

namespace Written

variable {cs : List Char} {x y : ℚ}

lemma pointed {whole fraction : List Char} (hwhole : IsDigits whole)
    (hfraction : IsDigits fraction) :
    Written (whole ++ '.' :: fraction) (pointedAt (whole ++ fraction) whole.length) := by
  have hparts : Parts whole ('.' :: fraction) [] :=
    ⟨hwhole, .inr ⟨fraction, hfraction, rfl⟩, .inl rfl, .inl (List.cons_ne_nil _ _)⟩
  simpa [signed] using intro hparts

lemma meaning_eq (h : Written cs x) : meaning cs = x := by
  obtain ⟨hparts⟩ := h
  simp only [meaning, hparts.split_exponent, hparts.split_point]

/-- A text stands for one number. -/
lemma unique (hx : Written cs x) (hy : Written cs y) : x = y :=
  hx.meaning_eq.symm.trans hy.meaning_eq

lemma exists_digit (h : Written cs x) : ∃ d ds, cs = d :: ds ∧ d.isDigit = true := by
  obtain ⟨hparts⟩ := h
  obtain ⟨d, ds, rfl⟩ := List.exists_cons_of_ne_nil hparts.digits.1
  exact ⟨d, _, rfl, hparts.digits.2 d List.mem_cons_self⟩

/-- The characters that numbers are written with. -/
lemma char_cases (h : Written cs x) :
    ∀ c ∈ cs, c.isDigit = true ∨ c ∈ ['.', 'e', '+', '-'] := by
  obtain ⟨hparts⟩ := h
  exact hparts.char_cases

end Written

end Decimal

/-! ## Layout -/

namespace Layout

open Decimal

variable {ds : List Char}

lemma significant_append_zeros (n : Nat) : ∃ z, Nat.toDigits 10 n = significant n ++ zeros z := by
  refine ⟨((Nat.toDigits 10 n).reverse.takeWhile (· == '0')).length, ?_⟩
  have hzeros : (Nat.toDigits 10 n).reverse.takeWhile (· == '0') = zeros _ :=
    List.eq_replicate_of_mem fun c hc => by simpa using List.mem_takeWhile_imp hc
  have hsplit := List.takeWhile_append_dropWhile (p := (· == '0'))
    (l := (Nat.toDigits 10 n).reverse)
  rw [hzeros] at hsplit
  rw [significant, ← List.reverse_inj, List.reverse_append, List.reverse_reverse, zeros,
    List.reverse_replicate]
  exact hsplit.symm

lemma isDigits_significant {n : Nat} (hn : n ≠ 0) : IsDigits (significant n) := by
  obtain ⟨z, hz⟩ := significant_append_zeros n
  constructor
  · intro hnil
    have hvalue := ofDigits_toDigits n
    rw [hz, hnil, List.nil_append, ofDigits_zeros] at hvalue
    exact hn hvalue.symm
  · intro c hc
    have hmem : c ∈ Nat.toDigits 10 n := by
      rw [hz]
      exact List.mem_append_left _ hc
    exact (isDigits_toDigits n).2 c hmem

/-- The place of the point in a decimal. -/
def point (d : Decimal) : Int := (Nat.toDigits 10 d.digits).length + d.exponent

lemma pointedAt_significant (d : Decimal) :
    pointedAt (significant d.digits) (point d) = d.value := by
  obtain ⟨z, hz⟩ := significant_append_zeros d.digits
  rw [← pointedAt_append_zeros _ z, ← hz, pointedAt, ofDigits_toDigits, point, add_sub_cancel_left,
    Decimal.value]

lemma isDigits_append_zeros (h : IsDigits ds) (z : Nat) : IsDigits (ds ++ zeros z) := by
  refine ⟨by simp [h.1], fun c hc => ?_⟩
  rcases List.mem_append.1 hc with hc | hc
  · exact h.2 c hc
  · rw [List.eq_of_mem_replicate hc]
    rfl

lemma isDigits_zeros_append (h : IsDigits ds) (z : Nat) : IsDigits (zeros z ++ ds) := by
  refine ⟨by simp [h.1], fun c hc => ?_⟩
  rcases List.mem_append.1 hc with hc | hc
  · rw [List.eq_of_mem_replicate hc]
    rfl
  · exact h.2 c hc

/-- A row of digits with a point in it. -/
lemma exists_pointed (h : IsDigits ds) (n : Int) : ∃ whole fraction,
    withPoint ds n = whole ++ '.' :: fraction ∧ IsDigits whole ∧ IsDigits fraction ∧
      pointedAt (whole ++ fraction) whole.length = pointedAt ds n := by
  have hzero : IsDigits ['0'] := ⟨by simp, by simp⟩
  rw [withPoint]
  split_ifs with hneg hlong
  · refine ⟨['0'], zeros (-n).toNat ++ ds, rfl, hzero, isDigits_zeros_append h _, ?_⟩
    have hrow : ['0'] ++ (zeros (-n).toNat ++ ds) = zeros ((-n).toNat + 1) ++ ds := by
      simp [zeros, List.replicate_succ]
    rw [hrow, pointedAt_zeros_append]
    congr 1
    simp
    omega
  · refine ⟨ds ++ zeros (n.toNat - ds.length), ['0'], by simp, isDigits_append_zeros h _, hzero, ?_⟩
    have hrow : ds ++ zeros (n.toNat - ds.length) ++ ['0'] =
        ds ++ zeros (n.toNat - ds.length + 1) := by simp [zeros, List.replicate_succ']
    rw [hrow, pointedAt_append_zeros, List.length_append, length_zeros]
    congr 1
    omega
  · refine ⟨ds.take n.toNat, ds.drop n.toNat, rfl, ⟨?_, ?_⟩, ⟨?_, ?_⟩, ?_⟩
    · intro hnil
      have := congrArg List.length hnil
      rw [List.length_take, List.length_nil] at this
      omega
    · exact fun c hc => h.2 c (List.mem_of_mem_take hc)
    · intro hnil
      have := congrArg List.length hnil
      rw [List.length_drop, List.length_nil] at this
      omega
    · exact fun c hc => h.2 c (List.mem_of_mem_drop hc)
    · rw [List.take_append_drop, List.length_take]
      congr 1
      omega

/-- An exponent with its sign. -/
lemma signed_exponent (e : Int) (width : Nat) :
    signed ((if e < 0 then '-' else '+') :: (zeros width ++ Nat.toDigits 10 e.natAbs)) = e := by
  have hdigits : ofDigits (zeros width ++ Nat.toDigits 10 e.natAbs) = e.natAbs := by
    rw [ofDigits_append, ofDigits_zeros, ofDigits_toDigits, Nat.zero_mul, Nat.zero_add]
  rw [signed, hdigits]
  by_cases he : e < 0
  · rw [if_pos he, if_pos rfl]
    omega
  · rw [if_neg he, if_neg (by decide)]
    omega

lemma written_scientific (l : Layout) (h : IsDigits ds) (e : Int) :
    Written (l.scientific ds e) (pointedAt ds 1 * 10 ^ e) := by
  have hsign : (if e < 0 then '-' else '+') = '+' ∨ (if e < 0 then '-' else '+') = '-' := by
    split_ifs <;> simp
  have hexponent : IsDigits (zeros (l.exponentDigits - (Nat.toDigits 10 e.natAbs).length) ++
      Nat.toDigits 10 e.natAbs) :=
    isDigits_zeros_append (isDigits_toDigits _) _
  have hvalue := signed_exponent e (l.exponentDigits - (Nat.toDigits 10 e.natAbs).length)
  cases ds with
  | nil => exact absurd rfl h.1
  | cons d ds =>
    have hd : IsDigits [d] := ⟨by simp, by simpa using h.2 d List.mem_cons_self⟩
    cases ds with
    | nil =>
      have hwritten := Written.intro
        ⟨hd, .inl rfl, .inr ⟨_, _, hsign, hexponent, rfl⟩, .inr (List.cons_ne_nil _ _)⟩
      simp only [List.drop_one, List.tail_cons, hvalue] at hwritten
      exact hwritten
    | cons c ds =>
      have hrest : IsDigits (c :: ds) :=
        ⟨List.cons_ne_nil c ds, fun a ha => h.2 a (List.mem_cons_of_mem d ha)⟩
      have hwritten := Written.intro ⟨hd, .inr ⟨_, hrest, rfl⟩,
        .inr ⟨_, _, hsign, hexponent, rfl⟩, .inr (List.cons_ne_nil _ _)⟩
      simp only [List.drop_one, List.tail_cons, hvalue] at hwritten
      exact hwritten

lemma toList_write (l : Layout) {d : Decimal} (hd : d.digits ≠ 0) : (l.write d).toList =
    if l.least ≤ point d - 1 ∧ point d - 1 ≤ l.greatest then
      withPoint (significant d.digits) (point d)
    else l.scientific (significant d.digits) (point d - 1) := by
  rw [write, if_neg hd, String.toList_ofList]
  simp only [Bool.and_eq_true, decide_eq_true_eq]
  rfl

/-- A decimal is written as a text that stands for it. -/
theorem written_write (l : Layout) {d : Decimal} (hd : d.digits ≠ 0) :
    Written (l.write d).toList d.value := by
  have hdigits := isDigits_significant hd
  rw [toList_write l hd]
  split_ifs
  · obtain ⟨whole, fraction, htext, hwhole, hfraction, hvalue⟩ := exists_pointed hdigits (point d)
    rw [pointedAt_significant] at hvalue
    rw [htext, ← hvalue]
    exact .pointed hwhole hfraction
  · have hwritten := written_scientific l hdigits (point d - 1)
    rwa [← pointedAt_add, add_sub_cancel, pointedAt_significant] at hwritten

/-- The point comes after the digits before the greatest power of ten. -/
lemma pow_le_value_lt {d : Decimal} (hd : d.digits ≠ 0) :
    (10 : ℚ) ^ (point d - 1) ≤ d.value ∧ d.value < (10 : ℚ) ^ point d := by
  have hten : (0 : ℚ) < 10 ^ d.exponent := zpow_pos (by norm_num) _
  have hlen := Nat.length_toDigits_pos (b := 10) (n := d.digits)
  generalize hcount : (Nat.toDigits 10 d.digits).length = count at hlen
  obtain ⟨n, rfl⟩ : ∃ n, count = n + 1 := ⟨count - 1, by omega⟩
  have hupper : d.digits < 10 ^ (n + 1) :=
    (Nat.length_toDigits_le_iff (by decide) (Nat.succ_pos n)).1 hcount.le
  have hlower : 10 ^ n ≤ d.digits := by
    by_contra hlt
    by_cases hn : n = 0
    · rw [hn] at hlt
      omega
    · have := (Nat.length_toDigits_le_iff (by decide) (Nat.pos_of_ne_zero hn)).2 (not_le.1 hlt)
      omega
  rw [point, hcount, Decimal.value]
  constructor
  · rw [show ((n + 1 : Nat) : ℤ) + d.exponent - 1 = n + d.exponent by omega,
      zpow_add₀ (by norm_num), zpow_natCast]
    gcongr
    exact_mod_cast hlower
  · rw [zpow_add₀ (by norm_num), zpow_natCast]
    gcongr
    exact_mod_cast hupper

lemma least_le_point_iff {d : Decimal} (hd : d.digits ≠ 0) (n : Int) :
    n ≤ point d - 1 ↔ (10 : ℚ) ^ n ≤ d.value := by
  obtain ⟨hlower, hupper⟩ := pow_le_value_lt hd
  constructor
  · intro h
    exact (zpow_le_zpow_right₀ (by norm_num) h).trans hlower
  · intro h
    have hlt := (zpow_lt_zpow_iff_right₀ (by norm_num : (1 : ℚ) < 10)).1 (h.trans_lt hupper)
    omega

end Layout

/-! ## Numbers as texts -/

namespace Binary

open Decimal Layout Shortest

variable {u : Nat}

lemma digits_ne_zero (hu : 0 < u) (hr : Representable u) : (decimal u).digits ≠ 0 := by
  intro hzero
  have hpos := decimal_pos hu hr
  rw [Decimal.value, hzero, Nat.cast_zero, zero_mul] at hpos
  exact lt_irrefl _ hpos

lemma display_finite (hu : 0 < u) : (finite u).display = layout.write (decimal u) :=
  if_neg hu.ne'

lemma written_display (hu : 0 < u) (hr : Representable u) :
    Written (finite u).display.toList (decimal u).value := by
  rw [display_finite hu]
  exact written_write _ (digits_ne_zero hu hr)

lemma written_zero : Written (finite 0).display.toList 0 := by
  have hdigits : IsDigits ['0'] := ⟨by simp, by simp⟩
  have hwritten := Written.pointed hdigits hdigits
  have hvalue : pointedAt (['0'] ++ ['0']) ['0'].length = 0 := by
    have hzero : ofDigits (['0'] ++ ['0']) = 0 := by decide
    rw [pointedAt, hzero, Nat.cast_zero, zero_mul]
  rwa [hvalue] at hwritten

/-- Every finite number that has been read is written as a text for its decimal. -/
lemma exists_written {x : Binary} (h : x.Exact) :
    x = .infinite ∨ ∃ y, Written x.display.toList y := by
  cases h with
  | infinite => exact .inl rfl
  | @finite u hr =>
    rcases Nat.eq_zero_or_pos u with rfl | hu
    · exact .inr ⟨0, written_zero⟩
    · exact .inr ⟨_, written_display hu hr⟩

lemma not_written_infinite (y : ℚ) : ¬Written infinite.display.toList y := by
  intro h
  obtain ⟨d, ds, hcs, hd⟩ := h.exists_digit
  have hhead : d = 'i' := (List.cons.inj hcs).1.symm
  rw [hhead] at hd
  cases hd

/-- Different numbers are written differently. -/
theorem display_injective {x y : Binary} (hx : x.Exact) (hy : y.Exact)
    (h : x.display = y.display) : x = y := by
  cases hx with
  | infinite =>
    rcases exists_written hy with rfl | ⟨z, hz⟩
    · rfl
    · exact absurd (h ▸ hz) (not_written_infinite z)
  | @finite u hu =>
    cases hy with
    | infinite =>
      obtain ⟨z, hz⟩ := (exists_written (.finite hu)).resolve_left (by simp)
      exact absurd (h ▸ hz) (not_written_infinite z)
    | @finite v hv =>
      rcases Nat.eq_zero_or_pos u with rfl | hupos
      · rcases Nat.eq_zero_or_pos v with rfl | hvpos
        · rfl
        · have hzero := written_zero.unique (h ▸ written_display hvpos hv)
          exact absurd (decimal_pos hvpos hv) (hzero ▸ lt_irrefl _)
      · rcases Nat.eq_zero_or_pos v with rfl | hvpos
        · have hzero := written_zero.unique (h ▸ written_display hupos hu)
          exact absurd (decimal_pos hupos hu) (hzero ▸ lt_irrefl _)
        · have heq := (written_display hupos hu).unique (h ▸ written_display hvpos hv)
          have hmem := decimal_mem hupos
          rw [heq] at hmem
          rw [hmem.unique hupos hvpos hu hv (decimal_mem hvpos)]

/-- The numbers that are written without an exponent. -/
def Plain (x : ℚ) : Prop := (10 : ℚ) ^ (-4 : ℤ) ≤ x ∧ x < (10 : ℚ) ^ (16 : ℤ)

lemma layout_iff (hu : 0 < u) (hr : Representable u) :
    layout.least ≤ point (decimal u) - 1 ∧ point (decimal u) - 1 ≤ layout.greatest ↔
      Plain (u / one) := by
  have hd := digits_ne_zero hu hr
  have hgreatest : point (decimal u) - 1 ≤ layout.greatest ↔ ¬(16 : ℤ) ≤ point (decimal u) - 1 := by
    rw [not_le, layout]
    exact Int.lt_add_one_iff.symm
  rw [hgreatest, least_le_point_iff hd, least_le_point_iff hd, greatest_le_decimal_iff hu hr,
    not_le]
  exact and_congr_left' (least_le_decimal_iff hu hr)

section Reading

variable {whole fraction : List Char} (hwhole : IsDigits whole) (hfraction : IsDigits fraction)

include hwhole hfraction

lemma read_pointed : Decimal.read (whole ++ '.' :: fraction) =
    ofDecimal (ofDigits (whole ++ fraction)) (-(fraction.length : ℤ)) := by
  have htake : (whole ++ '.' :: fraction).takeWhile Char.isDigit = whole :=
    takeWhile_append_eq hwhole.2 (by simp)
  have hdrop : (whole ++ '.' :: fraction).dropWhile Char.isDigit = '.' :: fraction :=
    dropWhile_append_eq hwhole.2 (by simp)
  have hnone : ∀ c ∈ whole ++ '.' :: fraction, (c != 'e' && c != 'E') = true := by
    have hdigit : ∀ c : Char, c.isDigit = true → (c != 'e' && c != 'E') = true := by
      intro c hc
      rw [Bool.and_eq_true, bne_iff_ne, bne_iff_ne]
      constructor <;> rintro rfl <;> cases hc
    intro c hc
    rcases List.mem_append.1 hc with hc | hc
    · exact hdigit c (hwhole.2 c hc)
    · rcases List.mem_cons.1 hc with rfl | hc
      · rfl
      · exact hdigit c (hfraction.2 c hc)
  simp only [Decimal.read, htake, hdrop, List.dropWhile_eq_nil_iff.2 hnone, List.drop_nil,
    List.takeWhile_eq_self_iff.2 hfraction.2]
  congr 1
  exact Int.zero_sub _

/-- A text with a point is read as the number in whose interval it lies. -/
lemma read_of_mem (hu : 0 < u) (hr : Representable u)
    (hmem : (interval u).Mem (pointedAt (whole ++ fraction) whole.length))
    (hpos : 0 < pointedAt (whole ++ fraction) whole.length) :
    Decimal.read (whole ++ '.' :: fraction) = .finite u := by
  have hlen : 0 < fraction.length := List.length_pos_iff.2 hfraction.1
  have hten : 0 < Nat.pow 10 fraction.length := Nat.pow_pos (by decide)
  have hvalue : pointedAt (whole ++ fraction) whole.length =
      (ofDigits (whole ++ fraction) : ℚ) / (Nat.pow 10 fraction.length : Nat) := by
    have hcast : ((Nat.pow 10 fraction.length : Nat) : ℚ) = 10 ^ fraction.length :=
      Nat.cast_pow 10 _
    rw [pointedAt, List.length_append, hcast, div_eq_mul_inv, ← zpow_natCast, ← zpow_neg]
    congr 2
    push_cast
    omega
  have hne : ofDigits (whole ++ fraction) ≠ 0 := by
    intro hzero
    rw [hvalue, hzero, Nat.cast_zero, zero_div] at hpos
    exact lt_irrefl _ hpos
  rw [hvalue] at hmem
  rw [read_pointed hwhole hfraction, ofDecimal, if_neg hne, if_neg (by omega), if_neg (by omega),
    neg_neg, Int.toNat_natCast]
  exact hmem.ofRatio_eq hu hr hten

end Reading

/-- A number that is written without an exponent can be read again. -/
theorem read_display (hu : 0 < u) (hr : Representable u) (hplain : Plain (u / one)) :
    ∃ whole fraction, (finite u).display.toList = whole ++ '.' :: fraction ∧ IsDigits whole ∧
      IsDigits fraction ∧ Decimal.read (finite u).display.toList = .finite u := by
  have hd := digits_ne_zero hu hr
  obtain ⟨whole, fraction, htext, hwhole, hfraction, hvalue⟩ :=
    exists_pointed (isDigits_significant hd) (point (decimal u))
  rw [pointedAt_significant] at hvalue
  rw [display_finite hu, toList_write _ hd, if_pos ((layout_iff hu hr).2 hplain), htext]
  refine ⟨whole, fraction, rfl, hwhole, hfraction, read_of_mem hwhole hfraction hu hr ?_ ?_⟩
  · exact hvalue ▸ decimal_mem hu
  · exact hvalue ▸ decimal_pos hu hr

/-- The others have the sign of an exponent. -/
lemma sign_mem_display (hu : 0 < u) (hr : Representable u) (hplain : ¬Plain (u / one)) :
    '+' ∈ (finite u).display.toList ∨ '-' ∈ (finite u).display.toList := by
  rw [display_finite hu, toList_write _ (digits_ne_zero hu hr),
    if_neg fun h => hplain ((layout_iff hu hr).1 h)]
  unfold scientific
  split_ifs <;> simp

end Binary

end MapFilter
