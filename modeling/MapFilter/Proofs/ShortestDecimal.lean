import MapFilter.Proofs.Rounding

/-!
# Shortest decimals

The decimal that is written for a number lies in the number's interval, so it is read as the number
again. It is on the same side of a ten-thousandth and of a large power of ten as the number itself,
which decides how it is written.
-/

namespace MapFilter

open Binary

namespace Decimal

def value (d : Decimal) : ℚ := d.digits * 10 ^ d.exponent

lemma value_of_nonneg {d : Decimal} (h : 0 ≤ d.exponent) :
    d.value = (d.digits * Nat.pow 10 d.exponent.toNat : Nat) := by
  obtain ⟨n, hn⟩ := Int.eq_ofNat_of_zero_le h
  rw [value, hn, Int.toNat_natCast, zpow_natCast, Nat.cast_mul]
  exact congrArg _ (Nat.cast_pow 10 n).symm

lemma value_of_neg {d : Decimal} (h : ¬0 ≤ d.exponent) :
    d.value = d.digits / (Nat.pow 10 (-d.exponent).toNat : Nat) := by
  obtain ⟨n, hn⟩ := Int.eq_ofNat_of_zero_le (a := -d.exponent) (by omega)
  rw [value, hn, Int.toNat_natCast, ← neg_neg d.exponent, hn, zpow_neg, zpow_natCast,
    ← div_eq_mul_inv]
  exact congrArg _ (Nat.cast_pow 10 n).symm

end Decimal

namespace Shortest

variable {i : Interval} {d : Decimal}

/-- Both numbers that are aligned are the same multiple of what they stand for. -/
lemma exists_align (quarters : Nat) (d : Decimal) : ∃ scale : Nat, 0 < scale ∧
    ((align quarters d).1 : ℚ) = quarters * scale ∧
    ((align quarters d).2 : ℚ) = 4 * one * d.value * scale := by
  rw [align]
  split_ifs with h
  · refine ⟨1, Nat.one_pos, by rw [Nat.cast_one, mul_one], ?_⟩
    rw [Decimal.value_of_nonneg h, Nat.cast_one, mul_one, Nat.cast_mul, Nat.cast_mul 4]
    exact mul_comm _ _
  · have hpow : 0 < Nat.pow 10 (-d.exponent).toNat := Nat.pow_pos (by decide)
    have hcast : ((Nat.pow 10 (-d.exponent).toNat : Nat) : ℚ) ≠ 0 := Nat.cast_ne_zero.2 hpow.ne'
    refine ⟨_, hpow, Nat.cast_mul _ _, ?_⟩
    rw [Decimal.value_of_neg h, mul_assoc, div_mul_cancel₀ _ hcast, Nat.cast_mul, Nat.cast_mul 4]
    exact mul_comm _ _

lemma align_le_iff (quarters : Nat) (d : Decimal) :
    (align quarters d).1 ≤ (align quarters d).2 ↔ (quarters : ℚ) ≤ 4 * one * d.value := by
  obtain ⟨scale, hscale, hquarters, hvalue⟩ := exists_align quarters d
  rw [← Nat.cast_le (α := ℚ), hquarters, hvalue]
  exact mul_le_mul_iff_of_pos_right (Nat.cast_pos.2 hscale)

lemma align_ge_iff (quarters : Nat) (d : Decimal) :
    (align quarters d).2 ≤ (align quarters d).1 ↔ 4 * one * d.value ≤ (quarters : ℚ) := by
  obtain ⟨scale, hscale, hquarters, hvalue⟩ := exists_align quarters d
  rw [← Nat.cast_le (α := ℚ), hquarters, hvalue]
  exact mul_le_mul_iff_of_pos_right (Nat.cast_pos.2 hscale)

lemma Interval.contains_iff : i.contains d = true ↔ i.Mem d.value := by
  have hcontains : i.contains d = if i.closed then
      decide ((align i.low d).1 ≤ (align i.low d).2) &&
        decide ((align i.high d).2 ≤ (align i.high d).1)
      else decide ((align i.low d).1 < (align i.low d).2) &&
        decide ((align i.high d).2 < (align i.high d).1) := rfl
  rw [hcontains]
  cases hclosed : i.closed with
  | true =>
    simp only [if_true, Bool.and_eq_true, decide_eq_true_eq, align_le_iff, align_ge_iff]
    exact ⟨fun h => ⟨h.1, h.2, fun _ => hclosed⟩, fun h => ⟨h.low, h.high⟩⟩
  | false =>
    simp only [Bool.false_eq_true, if_false, Bool.and_eq_true, decide_eq_true_eq, ← not_le,
      align_le_iff, align_ge_iff]
    simp only [not_le]
    constructor
    · rintro ⟨hlow, hhigh⟩
      exact ⟨hlow.le, hhigh.le, fun hend => absurd hend (not_or.2 ⟨hlow.ne, hhigh.ne⟩)⟩
    · intro h
      have hopen : ¬(i.low = 4 * one * d.value ∨ 4 * one * d.value = i.high) := fun hend => by
        rw [h.ends hend] at hclosed
        cases hclosed
      rw [not_or] at hopen
      exact ⟨lt_of_le_of_ne h.low hopen.1, lt_of_le_of_ne h.high hopen.2⟩

lemma contains_of_withDigits {m : Int} {count : Nat} (h : withDigits i m count = some d) :
    i.contains d = true := by
  simp only [withDigits] at h
  split at h
  next hbelow habove =>
    split_ifs at h <;> cases h
    · exact hbelow
    · exact habove
    · exact hbelow
    · exact habove
  next hbelow _ =>
    cases h
    exact hbelow
  next _ habove =>
    cases h
    exact habove
  next => cases h

/-- A number of halves, quarters and so on as a decimal. -/
lemma value_five_pow (u n : Nat) :
    (Decimal.mk (u * Nat.pow 5 n) (-n)).value = u / (Nat.pow 2 n : Nat) := by
  have hfive : ((Nat.pow 5 n : Nat) : ℚ) = 5 ^ n := Nat.cast_pow 5 n
  have htwo : ((Nat.pow 2 n : Nat) : ℚ) = 2 ^ n := Nat.cast_pow 2 n
  have hten : (10 : ℚ) ^ n = 2 ^ n * 5 ^ n := by rw [← mul_pow]; norm_num
  rw [Decimal.value, zpow_neg, zpow_natCast, hten, Nat.cast_mul, hfive, htwo]
  field_simp

/-- The decimal of a number lies in the number's interval. -/
theorem decimal_mem {u : Nat} (hu : 0 < u) : (interval u).Mem (decimal u).value := by
  rw [decimal]
  cases hfound : (List.range 17).findSome? fun n =>
      withDigits (interval u) (magnitude u) (n + 1) with
  | none =>
    have hcast : (-1074 : ℤ) = -((1074 : Nat) : ℤ) := rfl
    have hself := Interval.mem_self hu
    unfold one at hself
    rw [Option.getD_none, hcast]
    generalize 1074 = n at hself ⊢
    rwa [value_five_pow]
  | some d =>
    obtain ⟨n, -, hd⟩ := List.exists_of_findSome?_eq_some hfound
    exact Interval.contains_iff.1 (contains_of_withDigits hd)

lemma decimal_pos {u : Nat} (hu : 0 < u) (hr : Representable u) : 0 < (decimal u).value := by
  have hlow : 0 < (interval u).low := by
    have := spacing_le hu hr
    have := interval_low u
    omega
  have hscale : (0 : ℚ) < 4 * one := mul_pos (by norm_num) Interval.one_cast_pos
  have hpos : (0 : ℚ) < 4 * one * (decimal u).value :=
    lt_of_lt_of_le (Nat.cast_pos.2 hlow) (decimal_mem hu).low
  exact pos_of_mul_pos_right hpos hscale.le

/-- A number and its decimal are on the same side of a third number that is its own decimal and is
not rounded down. -/
lemma le_decimal_iff {u v num den : Nat} (hu : 0 < u) (hr : Representable u) (hden : 0 < den)
    (hv : ofRatio num den = .finite v) (hdecimal : (decimal v).value = num / den)
    (hle : (num / den : ℚ) ≤ v / one) :
    (num / den : ℚ) ≤ (decimal u).value ↔ (num / den : ℚ) ≤ u / one := by
  have heq : (interval u).Mem (num / den) → u = v := fun hmem =>
    Binary.finite.inj ((hmem.ofRatio_eq hu hr hden).symm.trans hv)
  constructor
  · intro h
    by_contra hlt
    rw [heq ((Interval.mem_self hu).between (decimal_mem hu) (not_le.1 hlt).le h)] at hlt
    exact hlt hle
  · intro h
    by_contra hlt
    rw [heq ((decimal_mem hu).between (Interval.mem_self hu) (not_le.1 hlt).le h), hdecimal] at hlt
    exact hlt le_rfl

lemma cast_div_le {a b c d : Nat} (hb : 0 < b) (hd : 0 < d) (h : a * d ≤ c * b) :
    (a / b : ℚ) ≤ c / d := by
  rw [div_le_div_iff₀ (Nat.cast_pos.2 hb) (Nat.cast_pos.2 hd)]
  exact_mod_cast h

/-- The least number that is written without an exponent. -/
lemma least_le_decimal_iff {u : Nat} (hu : 0 < u) (hr : Representable u) :
    (10 : ℚ) ^ (-4 : ℤ) ≤ (decimal u).value ↔ (10 : ℚ) ^ (-4 : ℤ) ≤ u / one := by
  have hread : ofRatio 1 10000 = .finite (7378697629483821 * Nat.pow 2 1008) := by decide +kernel
  have hdecimal : decimal (7378697629483821 * Nat.pow 2 1008) = ⟨1, -4⟩ := by decide +kernel
  have hle : 1 * one ≤ 7378697629483821 * Nat.pow 2 1008 * 10000 := by decide +kernel
  have hvalue : (10 : ℚ) ^ (-4 : ℤ) = (1 : Nat) / (10000 : Nat) := by norm_num
  rw [hvalue]
  refine le_decimal_iff hu hr (by decide) hread ?_ (cast_div_le (by decide) Binary.one_pos hle)
  rw [hdecimal, Decimal.value]
  norm_num

/-- The least large number that is written with an exponent. -/
lemma greatest_le_decimal_iff {u : Nat} (hu : 0 < u) (hr : Representable u) :
    (10 : ℚ) ^ (16 : ℤ) ≤ (decimal u).value ↔ (10 : ℚ) ^ (16 : ℤ) ≤ u / one := by
  have hread : ofRatio 10000000000000000 1 = .finite (10000000000000000 * one) := by decide +kernel
  have hdecimal : decimal (10000000000000000 * one) = ⟨1, 16⟩ := by decide +kernel
  have hvalue : (10 : ℚ) ^ (16 : ℤ) = (10000000000000000 : Nat) / (1 : Nat) := by norm_num
  rw [hvalue]
  refine le_decimal_iff hu hr (by decide) hread ?_ (cast_div_le (by decide) Binary.one_pos ?_)
  · rw [hdecimal, Decimal.value]
    norm_num
  · rw [Nat.mul_one]

end Shortest

end MapFilter
