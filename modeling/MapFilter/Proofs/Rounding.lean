import Mathlib.Tactic.FieldSimp
import Mathlib.Tactic.Linarith
import Mathlib.Tactic.Positivity
import Mathlib.Tactic.Ring
import MapFilter.Proofs.RangeMeaning

/-!
# Rounding to 53 binary digits

A number of units is kept exactly if it has at most 53 binary digits. Every quotient is read as such
a number, and each of these numbers has an interval round it of the quotients that are read as it:
half way to the neighbour on either side, and the ends for numbers whose last digit is even.
-/

namespace MapFilter

namespace Binary

/-! ## Neighbours -/

lemma spacing_eq_two_pow (u : Nat) : spacing u = 2 ^ (u.log2 - 52) := rfl

lemma spacing_pos (u : Nat) : 0 < spacing u := Nat.two_pow_pos _

lemma spacing_of_log2_le {u : Nat} (h : u.log2 ≤ 52) : spacing u = 1 := by
  rw [spacing_eq_two_pow, Nat.sub_eq_zero_of_le h, Nat.pow_zero]

lemma spacing_of_lt {u : Nat} (h : u < 2 ^ 53) : spacing u = 1 := by
  by_cases hu : u = 0
  · rw [hu]
    rfl
  · exact spacing_of_log2_le (Nat.lt_succ_iff.1 ((Nat.log2_lt hu).2 h))

lemma spacing_of_mem {u k : Nat} (hlow : 2 ^ k ≤ u) (hhigh : u < 2 ^ (k + 1)) :
    spacing u = 2 ^ (k - 52) := by
  have hu : u ≠ 0 := Nat.ne_of_gt ((Nat.two_pow_pos k).trans_le hlow)
  rw [spacing_eq_two_pow, (Nat.log2_eq_iff hu).2 ⟨hlow, hhigh⟩]

/-- The numbers that are kept exactly. -/
structure Representable (u : Nat) : Prop where
  dvd : spacing u ∣ u
  lt : u < limit

/-- A multiple of a power of two by a factor of at most 53 binary digits is kept exactly. -/
lemma spacing_dvd {r : Nat} (hr : r ≤ 2 ^ 53) (j : Nat) : spacing (r * 2 ^ j) ∣ r * 2 ^ j := by
  by_cases hr0 : r = 0
  · simp [hr0]
  have hne : r * 2 ^ j ≠ 0 := Nat.mul_ne_zero hr0 (Nat.ne_of_gt (Nat.two_pow_pos j))
  have hle : r * 2 ^ j ≤ 2 ^ (53 + j) := by
    rw [Nat.pow_add]
    exact Nat.mul_le_mul_right _ hr
  by_cases htop : r * 2 ^ j = 2 ^ (53 + j)
  · rw [htop, spacing_eq_two_pow, Nat.log2_two_pow]
    exact Nat.pow_dvd_pow 2 (by omega)
  · have hlog : (r * 2 ^ j).log2 < 53 + j := (Nat.log2_lt hne).2 (by omega)
    rw [spacing_eq_two_pow]
    exact (Nat.pow_dvd_pow 2 (by omega)).mul_left r

/-- The neighbour above a number that is kept exactly is not beyond the next power of two. -/
lemma add_spacing_le {u k : Nat} (hdvd : spacing u ∣ u) (hlt : u < 2 ^ k) (hk : u.log2 < k) :
    u + spacing u ≤ 2 ^ k := by
  have hpow : spacing u ∣ 2 ^ k := Nat.pow_dvd_pow 2 (by omega)
  obtain ⟨m, hm⟩ := hdvd
  obtain ⟨n, hn⟩ := hpow
  have hmn : m < n := by
    refine Nat.lt_of_mul_lt_mul_left (a := spacing u) ?_
    rwa [← hm, ← hn]
  calc u + spacing u = spacing u * (m + 1) := by rw [Nat.mul_succ, ← hm]
    _ ≤ spacing u * n := Nat.mul_le_mul_left _ hmn
    _ = 2 ^ k := hn.symm

/-! ## Quotients -/

lemma roundDiv_le (a b : Nat) : roundDiv a b ≤ a / b + 1 := by
  have hmod : a / b % 2 < 2 := Nat.mod_lt _ (by decide)
  simp only [roundDiv]
  split_ifs <;> omega

/-- The rounded quotient is the natural that is at most a half away, and the even one of two. -/
lemma roundDiv_eq {a b m : Nat} (hb : 0 < b) (hlow : 2 * (m * b) ≤ 2 * a + b)
    (hhigh : 2 * a ≤ 2 * (m * b) + b)
    (htie : 2 * (m * b) = 2 * a + b ∨ 2 * a = 2 * (m * b) + b → m % 2 = 0) : roundDiv a b = m := by
  have hdiv : b * (a / b) + a % b = a := Nat.div_add_mod a b
  have hmod : a % b < b := Nat.mod_lt a hb
  simp only [roundDiv]
  generalize a / b = q at hdiv ⊢
  generalize a % b = r at hdiv hmod ⊢
  rw [Nat.mul_comm] at hdiv
  have hcases : m = q ∨ m = q + 1 := by
    have hle : q ≤ m := by
      by_contra hlt
      have := Nat.mul_le_mul_right b (Nat.succ_le_of_lt (Nat.lt_of_not_le hlt))
      rw [Nat.succ_mul] at this
      omega
    have hge : m ≤ q + 1 := by
      by_contra hlt
      have := Nat.mul_le_mul_right b (Nat.succ_le_of_lt (Nat.lt_of_not_le hlt))
      rw [Nat.succ_mul, Nat.add_mul] at this
      omega
    omega
  rcases hcases with rfl | rfl
  · split_ifs <;> omega
  · rw [Nat.add_mul] at hlow hhigh htie
    split_ifs <;> omega

section OfRatio

variable {num den : Nat}

lemma ofRatio_representable {u : Nat} (h : ofRatio num den = .finite u) :
    Representable u := by
  simp only [ofRatio] at h
  split_ifs at h with hlt
  cases h
  refine ⟨?_, hlt⟩
  generalize num * one = a
  have hfloor : a / den < 2 ^ 53 * spacing (a / den) := by
    calc a / den < 2 ^ ((a / den).log2 + 1) := Nat.lt_log2_self
      _ ≤ 2 ^ (53 + ((a / den).log2 - 52)) := Nat.pow_le_pow_right (by decide) (by omega)
      _ = 2 ^ 53 * spacing (a / den) := Nat.pow_add ..
  refine spacing_dvd ((roundDiv_le _ _).trans ?_) _
  rw [← Nat.div_div_eq_div_mul]
  exact (Nat.div_lt_iff_lt_mul (spacing_pos _)).2 hfloor

lemma ofRatio_eq {m g u : Nat} (hg : spacing (num * one / den) = g)
    (hm : roundDiv (num * one) (den * g) = m) (hu : u = m * g) (hlt : u < limit) :
    ofRatio num den = .finite u := by
  rw [ofRatio, hg, hm, ← hu, if_pos hlt]

end OfRatio

/-! ## Intervals -/

open Shortest

section Intervals

variable {u : Nat}

lemma interval_low (u : Nat) : 4 * u - 2 * spacing u ≤ (interval u).low := by
  simp only [interval]
  split_ifs <;> omega

lemma interval_high (u : Nat) : (interval u).high = 4 * u + 2 * spacing u := rfl

lemma spacing_le (hu : 0 < u) (h : Representable u) : spacing u ≤ u := Nat.le_of_dvd hu h.dvd

lemma interval_closed : (interval u).closed = true ↔ u / spacing u % 2 = 0 := by
  simp [interval]

/-- Below a power of two the neighbour is half as far away. -/
lemma interval_low_of_two_pow (h : u = spacing u * 2 ^ 52) (hne : spacing u ≠ 1) :
    (interval u).low = 4 * u - spacing u := by
  have hnarrow : (u == spacing u * Nat.pow 2 52 && spacing u != 1) = true := by
    simpa [hne] using h
  simp only [interval, hnarrow, if_true]

end Intervals

section Between

variable {num den u : Nat} (hden : 0 < den) (hu : 0 < u) (hr : Representable u)
  (hlow : (interval u).low * den ≤ 4 * (num * one))
  (hhigh : 4 * (num * one) ≤ (interval u).high * den)
  (hends : (interval u).low * den = 4 * (num * one) ∨ 4 * (num * one) = (interval u).high * den →
    (interval u).closed = true)

include hden hu hr hlow hhigh hends

/-- A quotient in the interval of a number is rounded to it, with the spacing of the number. -/
lemma roundDiv_of_between : roundDiv (num * one) (den * spacing u) = u / spacing u := by
  have hle := Nat.mul_le_mul_right den (spacing_le hu hr)
  have hfloor := Nat.mul_le_mul_right den (interval_low u)
  have hunits : u / spacing u * (den * spacing u) = u * den := by
    rw [Nat.mul_comm den, ← Nat.mul_assoc, Nat.div_mul_cancel hr.dvd]
  rw [interval_high, Nat.add_mul, Nat.mul_assoc, Nat.mul_assoc] at hhigh hends
  rw [Nat.sub_mul, Nat.mul_assoc, Nat.mul_assoc] at hfloor
  rw [interval_closed] at hends
  refine roundDiv_eq (Nat.mul_pos hden (spacing_pos u)) ?_ ?_ ?_ <;> rw [hunits, Nat.mul_comm den]
  · omega
  · omega
  · rintro (htie | htie)
    · exact hends (.inl (by omega))
    · exact hends (.inr (by omega))

section Below

variable {j : Nat} (hle : 2 ^ 53 * 2 ^ j ≤ u) (hsucc : u < 2 ^ 54 * 2 ^ j)

include hle hsucc

omit hden hu hr hlow hhigh hends in
lemma spacing_of_power_le : spacing u = 2 * 2 ^ j := by
  rw [← Nat.pow_add] at hle hsucc
  rw [spacing_of_mem hle (by rwa [Nat.add_right_comm]), show 53 + j - 52 = j + 1 by omega,
    Nat.pow_succ, Nat.mul_comm]

variable (hlt : num * one / den < 2 ^ 53 * 2 ^ j)

include hlt

omit hu hhigh hends in
/-- Of the numbers from a power of two on, only the power is near a quotient below it. -/
lemma eq_two_pow_of_lt : u = 2 ^ 53 * 2 ^ j := by
  have hspacing := spacing_of_power_le hle hsucc
  have hquot : num * one < 2 ^ 53 * 2 ^ j * den := (Nat.div_lt_iff_lt_mul hden).1 hlt
  obtain ⟨m, hm⟩ := hr.dvd
  have hfloor := Nat.mul_le_mul_right den (interval_low u)
  rw [hspacing] at hm hfloor
  have hnear : 4 * u - 2 * (2 * 2 ^ j) < 4 * (2 ^ 53 * 2 ^ j) := by
    refine Nat.lt_of_mul_lt_mul_right (a := den) ?_
    rw [Nat.mul_assoc 4]
    omega
  have hm' : m * 2 ^ j < (2 ^ 52 + 1) * 2 ^ j := by
    rw [Nat.mul_assoc, Nat.mul_comm _ m] at hm
    omega
  have hmle : m ≤ 2 ^ 52 := Nat.lt_succ_iff.1 (Nat.lt_of_mul_lt_mul_right hm')
  have hmul := Nat.mul_le_mul_right (2 ^ j) hmle
  rw [Nat.mul_assoc, Nat.mul_comm _ m] at hm
  omega

omit hu hhigh hends in
/-- Just below a power of two the spacing is half as large. -/
lemma ofRatio_of_lt_two_pow : ofRatio num den = .finite u := by
  have hspacing := spacing_of_power_le hle hsucc
  have hpow := eq_two_pow_of_lt hden hr hlow hle hsucc hlt
  have hquot : num * one < 2 ^ 53 * 2 ^ j * den := (Nat.div_lt_iff_lt_mul hden).1 hlt
  have hlow' : (4 * u - 2 * 2 ^ j) * den ≤ 4 * (num * one) := by
    have hnarrow : u = spacing u * 2 ^ 52 := by omega
    rw [← hspacing, ← interval_low_of_two_pow hnarrow (by omega)]
    exact hlow
  rw [hpow, Nat.sub_mul, Nat.mul_assoc 4, Nat.mul_assoc 2] at hlow'
  rw [Nat.mul_assoc] at hquot hlow'
  refine ofRatio_eq (m := 2 ^ 53) (g := 2 ^ j) ?_ ?_ hpow hr.lt
  · have hfloor : 2 ^ (52 + j) ≤ num * one / den := by
      rw [Nat.le_div_iff_mul_le hden, Nat.pow_add, Nat.mul_assoc]
      omega
    have hceil : num * one / den < 2 ^ (52 + j + 1) := by
      rw [show 52 + j + 1 = 53 + j by omega, Nat.pow_add]
      exact hlt
    rw [spacing_of_mem hfloor hceil, Nat.add_sub_cancel_left]
  · refine roundDiv_eq (Nat.mul_pos hden (Nat.two_pow_pos j)) ?_ ?_ fun _ => rfl
    · rw [Nat.mul_comm den]
      omega
    · rw [Nat.mul_comm den]
      omega

end Below

/-- A quotient in the interval of a number is read as that number. -/
theorem ofRatio_of_between : ofRatio num den = .finite u := by
  have hround := roundDiv_of_between hden hu hr hlow hhigh hends
  have hcancel : u = u / spacing u * spacing u := (Nat.div_mul_cancel hr.dvd).symm
  have hle : 2 ^ u.log2 ≤ u := Nat.log2_self_le (Nat.ne_of_gt hu)
  have hsucc : u < 2 ^ (u.log2 + 1) := Nat.lt_log2_self
  -- the floor of the quotient does not reach the next power of two
  have hfloor : num * one / den < u + spacing u := by
    have hpos := Nat.mul_pos (spacing_pos u) hden
    rw [Nat.div_lt_iff_lt_mul hden, Nat.add_mul]
    rw [interval_high, Nat.add_mul, Nat.mul_assoc, Nat.mul_assoc] at hhigh
    omega
  by_cases hk : u.log2 ≤ 52
  · have hone := spacing_of_log2_le hk
    refine ofRatio_eq ?_ hround hcancel hr.lt
    rw [hone] at hfloor ⊢
    refine spacing_of_lt (Nat.lt_of_le_of_lt (Nat.lt_succ_iff.1 hfloor) (hsucc.trans_le ?_))
    exact Nat.pow_le_pow_right (by decide) (by omega)
  · obtain ⟨j, hj⟩ : ∃ j, u.log2 = 53 + j := ⟨u.log2 - 53, by omega⟩
    rw [hj] at hle hsucc
    by_cases hlt : num * one / den < 2 ^ (53 + j)
    · rw [Nat.pow_add] at hle hlt
      rw [Nat.add_right_comm, Nat.pow_add] at hsucc
      exact ofRatio_of_lt_two_pow hden hr hlow hle hsucc hlt
    · refine ofRatio_eq ?_ hround hcancel hr.lt
      have hceil := hfloor.trans_le (add_spacing_le hr.dvd hsucc (by omega))
      rw [spacing_of_mem (Nat.le_of_not_lt hlt) hceil, spacing_of_mem hle hsucc]

end Between

/-! ## Rational numbers in an interval -/

end Binary

namespace Shortest.Interval

open Binary

/-- A number lies in an interval that is given in quarters of a unit. -/
structure Mem (i : Interval) (x : ℚ) : Prop where
  low : i.low ≤ 4 * one * x
  high : 4 * one * x ≤ i.high
  ends : i.low = 4 * one * x ∨ 4 * one * x = i.high → i.closed = true

variable {i : Interval} {x y z : ℚ}

lemma one_cast_pos : (0 : ℚ) < one := Nat.cast_pos.2 Binary.one_pos

lemma Mem.nonneg (h : i.Mem x) : 0 ≤ x := by
  have hone := one_cast_pos
  have hlow : (0 : ℚ) ≤ 4 * one * x := (Nat.cast_nonneg i.low).trans h.low
  exact nonneg_of_mul_nonneg_right hlow (by positivity)

/-- What lies between two numbers of an interval is in it. -/
lemma Mem.between (hx : i.Mem x) (hz : i.Mem z) (hxy : x ≤ y) (hyz : y ≤ z) : i.Mem y := by
  have hone := one_cast_pos
  have hxy' : 4 * one * x ≤ 4 * one * y := by gcongr
  have hyz' : 4 * one * y ≤ 4 * one * z := by gcongr
  refine ⟨hx.low.trans hxy', hyz'.trans hz.high, ?_⟩
  rintro (hend | hend)
  · exact hx.ends (.inl (le_antisymm hx.low (hxy'.trans hend.ge)))
  · exact hz.ends (.inr (le_antisymm hz.high (hend.ge.trans hyz')))

/-- A number lies in its own interval. -/
lemma mem_self {u : Nat} (hu : 0 < u) : (interval u).Mem (u / one) := by
  have hpos := spacing_pos u
  have hvalue : 4 * one * (u / one : ℚ) = (4 * u : ℕ) := by
    have hone := one_cast_pos
    push_cast
    field_simp
  have hlow : (interval u).low < 4 * u := by
    simp only [interval]
    split_ifs <;> omega
  have hhigh : 4 * u < (interval u).high := by
    rw [interval_high]
    omega
  constructor
  · rw [hvalue]
    exact_mod_cast hlow.le
  · rw [hvalue]
    exact_mod_cast hhigh.le
  · rw [hvalue]
    rintro (hend | hend)
    · exact absurd (by exact_mod_cast hend) hlow.ne
    · exact absurd (by exact_mod_cast hend) hhigh.ne

/-- The rational numbers in the interval of a number are read as that number. -/
theorem Mem.ofRatio_eq {num den u : Nat} (hu : 0 < u) (hr : Representable u) (hden : 0 < den)
    (h : (interval u).Mem (num / den)) : ofRatio num den = .finite u := by
  have hden' : (0 : ℚ) < den := Nat.cast_pos.2 hden
  have hvalue : 4 * one * (num / den : ℚ) = (4 * (num * one) : ℕ) / den := by
    push_cast
    ring
  obtain ⟨hlow, hhigh, hends⟩ := h
  rw [hvalue] at hlow hhigh hends
  rw [le_div_iff₀ hden'] at hlow
  rw [div_le_iff₀ hden'] at hhigh
  rw [eq_div_iff hden'.ne', div_eq_iff hden'.ne'] at hends
  exact ofRatio_of_between hden hu hr (by exact_mod_cast hlow) (by exact_mod_cast hhigh)
    (by exact_mod_cast hends)

/-- Intervals do not overlap. -/
lemma Mem.unique {u v : Nat} (hu : 0 < u) (hv : 0 < v) (hur : Representable u)
    (hvr : Representable v) (hx : (interval u).Mem x) (hy : (interval v).Mem x) : u = v := by
  have hratio : x = (x.num.toNat : ℚ) / x.den := by
    conv_lhs => rw [← Rat.num_div_den x]
    have hnum : ((x.num.toNat : ℤ) : ℚ) = x.num := by
      rw [Int.toNat_of_nonneg (Rat.num_nonneg.2 hx.nonneg)]
    rw [← hnum, Int.cast_natCast]
  rw [hratio] at hx hy
  have heq := (hx.ofRatio_eq hu hur x.den_pos).symm.trans (hy.ofRatio_eq hv hvr x.den_pos)
  exact Binary.finite.inj heq

end Shortest.Interval

/-! ## What is read -/

namespace Binary

/-- A number that has been read: one that is kept exactly, or one that is too large. -/
inductive Exact : Binary → Prop where
  | finite {u : Nat} : Representable u → Exact (.finite u)
  | infinite : Exact .infinite

lemma exact_ofRatio (num den : Nat) : (ofRatio num den).Exact := by
  cases h : ofRatio num den with
  | finite u => exact .finite (ofRatio_representable h)
  | infinite => exact .infinite

lemma limit_pos : 0 < limit := by
  have hpow : ∀ n, 0 < Nat.pow 2 n := Nat.two_pow_pos
  unfold limit
  apply Nat.mul_pos
  · apply hpow
  · apply Binary.one_pos

lemma exact_ofDecimal (digits : Nat) (exponent : Int) : (ofDecimal digits exponent).Exact := by
  rw [ofDecimal]
  split_ifs
  · exact .finite ⟨Nat.dvd_zero _, limit_pos⟩
  · exact .infinite
  · exact exact_ofRatio _ _
  · exact exact_ofRatio _ _

lemma exact_read (cs : List Char) : (Decimal.read cs).Exact := exact_ofDecimal _ _

end Binary

end MapFilter
