/-
# Floats and the numbers that read back as them

A number reads back as a float if it lies in an interval around the magnitude.  The intervals of
two floats have no number in common, for where they touch only one of them has an even
significand.  The shortest decimal of a float lies in its interval: some decimal of seventeen
digits does, because the interval is wider than the unit of the last digit.

The ends of intervals are compared as whole numbers, brought to the scale of the least one.
-/
import Mathlib.Algebra.Order.Field.Power
import Mathlib.Data.Rat.Cast.Order
import Mathlib.Tactic.Ring
import WorkLedger.Json.Binary64

namespace WorkLedger

namespace Binary64

/-! ## The fields of a float -/

theorem fractionBits_eq (bits : UInt64) : fractionBits bits = bits.toNat % 2 ^ 52 := by
  have hmask : (0xfffffffffffff : UInt64).toNat = 2 ^ 52 - 1 := rfl
  rw [fractionBits, UInt64.toNat_and, hmask, Nat.and_two_pow_sub_one_eq_mod]

theorem exponentBits_eq (bits : UInt64) : exponentBits bits = bits.toNat / 2 ^ 52 % 2 ^ 11 := by
  have hmask : (0x7ff : UInt64).toNat = 2 ^ 11 - 1 := rfl
  have hshift : (bits >>> 52).toNat = bits.toNat / 2 ^ 52 := by
    rw [UInt64.toNat_shiftRight, Nat.shiftRight_eq_div_pow]
    rfl
  rw [exponentBits, UInt64.toNat_and, hmask, Nat.and_two_pow_sub_one_eq_mod, hshift]

theorem negative_eq (bits : UInt64) : negative bits = decide (bits.toNat / 2 ^ 63 = 1) := by
  have hshift : (bits >>> 63).toNat = bits.toNat / 2 ^ 63 := by
    rw [UInt64.toNat_shiftRight, Nat.shiftRight_eq_div_pow]
    rfl
  rw [negative, decide_eq_decide, ← hshift, ← UInt64.toNat_inj]
  rfl

/-- A float is its sign, its exponent and its fraction. -/
theorem eq_of_fields {a b : UInt64} (hsign : negative a = negative b)
    (hexponent : exponentBits a = exponentBits b) (hfraction : fractionBits a = fractionBits b) :
    a = b := by
  rw [negative_eq, negative_eq, decide_eq_decide] at hsign
  rw [exponentBits_eq, exponentBits_eq] at hexponent
  rw [fractionBits_eq, fractionBits_eq] at hfraction
  have ha := a.toNat_lt
  have hb := b.toNat_lt
  refine UInt64.toNat_inj.mp ?_
  omega

theorem fields_of_significand_eq_zero {bits : UInt64} (h : significand bits = 0) :
    exponentBits bits = 0 ∧ fractionBits bits = 0 := by
  unfold significand at h
  split at h
  · rename_i hexponent
    exact ⟨hexponent, h⟩
  · omega

theorem fractionBits_lt (bits : UInt64) : fractionBits bits < 2 ^ 52 := by
  rw [fractionBits_eq]
  exact Nat.mod_lt _ (by decide)

/-- The exponent of a magnitude, counted from that of the least one. -/
def step (bits : UInt64) : Nat := exponentBits bits - 1

/-- How far the lower end is from the magnitude, as the half of a step or a quarter. -/
def below (bits : UInt64) : Nat := if fractionBits bits = 0 ∧ 1 < exponentBits bits then 1 else 2

theorem below_le (bits : UInt64) : below bits ≤ 2 := by
  unfold below
  split <;> decide

theorem binaryExponent_eq (bits : UInt64) : binaryExponent bits = step bits - 1074 := by
  unfold binaryExponent step
  split <;> omega

/-- The ends of all intervals are whole numbers on this scale. -/
def scale : Nat := 2 ^ 1076

theorem scale_pos : 0 < scale := pow_pos two_pos 1076

/-- The lower end of the interval, on the scale. -/
def low (bits : UInt64) : Nat := (4 * significand bits - below bits) * 2 ^ step bits

/-- The upper end of the interval, on the scale. -/
def high (bits : UInt64) : Nat := (4 * significand bits + 2) * 2 ^ step bits

/-- A number reads back as a float if it lies in the interval, at the end of it only if the
significand is even. -/
def ReadsAs (x : ℚ) (bits : UInt64) : Prop :=
  (low bits : ℚ) ≤ x * scale ∧ x * scale ≤ high bits ∧
    ((low bits : ℚ) = x * scale ∨ x * scale = high bits → significand bits % 2 = 0)

/-! ## Intervals do not meet -/

/-- The order of the magnitudes, by exponent and then by fraction. -/
def Precedes (a b : UInt64) : Prop :=
  exponentBits a < exponentBits b ∨
    exponentBits a = exponentBits b ∧ fractionBits a < fractionBits b

section

variable {a b : UInt64}

/-- Magnitudes of one step: in steps, the upper end of the one is no more than the lower end of
the other, and no less only if the significands differ by one. -/
theorem Precedes.ends_of_step_eq (h : Precedes a b) (hstep : step a = step b) :
    4 * significand a + 2 ≤ 4 * significand b - below b ∧
      (4 * significand a + 2 = 4 * significand b - below b →
        ¬ (significand a % 2 = 0 ∧ significand b % 2 = 0)) := by
  have hfa := fractionBits_lt a
  have hfb := fractionBits_lt b
  unfold Precedes at h
  unfold step at hstep
  unfold significand below
  split_ifs <;> omega

/-- Magnitudes of different steps: the upper one has the leading bit, and its step is at least
twice as wide. -/
theorem Precedes.ends_of_step_ne (h : Precedes a b) (hstep : step a ≠ step b) :
    4 * significand a + 2 ≤ (4 * significand b - below b) * 2 ∧
      (4 * significand a + 2 = (4 * significand b - below b) * 2 →
        ¬ (significand a % 2 = 0 ∧ significand b % 2 = 0)) := by
  have hfa := fractionBits_lt a
  have hfb := fractionBits_lt b
  unfold Precedes at h
  unfold step at hstep
  unfold significand below
  split_ifs <;> omega

theorem Precedes.exists_step_eq (h : Precedes a b) (hstep : step a ≠ step b) :
    ∃ j, step b = step a + (j + 1) := by
  refine ⟨step b - step a - 1, ?_⟩
  unfold Precedes at h
  unfold step at hstep ⊢
  omega

theorem Precedes.high_le_low (h : Precedes a b) :
    high a ≤ low b ∧
      (high a = low b → ¬ (significand a % 2 = 0 ∧ significand b % 2 = 0)) := by
  have hpos : 0 < 2 ^ step a := Nat.pow_pos (by decide)
  by_cases hstep : step a = step b
  · obtain ⟨hle, heven⟩ := h.ends_of_step_eq hstep
    unfold high low
    rw [← hstep]
    exact ⟨Nat.mul_le_mul_right _ hle, fun heq => heven (Nat.eq_of_mul_eq_mul_right hpos heq)⟩
  · obtain ⟨hle, heven⟩ := h.ends_of_step_ne hstep
    obtain ⟨j, hj⟩ := h.exists_step_eq hstep
    have hlow : low b = (4 * significand b - below b) * 2 * 2 ^ j * 2 ^ step a := by
      unfold low
      rw [hj]
      ring
    have hscaled := Nat.mul_le_mul_left ((4 * significand b - below b) * 2) (Nat.one_le_two_pow (n := j))
    rw [Nat.mul_one] at hscaled
    rw [hlow, high]
    refine ⟨Nat.mul_le_mul_right _ (Nat.le_trans hle hscaled), fun heq => heven ?_⟩
    have heq := Nat.eq_of_mul_eq_mul_right hpos heq
    omega

theorem Precedes.not_readsAs (h : Precedes a b) {x : ℚ} (ha : ReadsAs x a) : ¬ ReadsAs x b := by
  intro hb
  obtain ⟨hle, hne⟩ := h.high_le_low
  have hle : (high a : ℚ) ≤ low b := by exact_mod_cast hle
  have hhigh : x * scale = high a := le_antisymm ha.2.1 (hle.trans hb.1)
  have hlow : (low b : ℚ) = x * scale := le_antisymm hb.1 (ha.2.1.trans hle)
  have heq : high a = low b := by exact_mod_cast hhigh.symm.trans hlow.symm
  exact hne heq ⟨ha.2.2 (.inr hhigh), hb.2.2 (.inl hlow)⟩

/-- A number reads back as one magnitude only. -/
theorem fields_eq_of_readsAs {x : ℚ} (ha : ReadsAs x a) (hb : ReadsAs x b) :
    exponentBits a = exponentBits b ∧ fractionBits a = fractionBits b := by
  rcases Nat.lt_trichotomy (exponentBits a) (exponentBits b) with hlt | heq | hgt
  · exact absurd hb (Precedes.not_readsAs (.inl hlt) ha)
  · rcases Nat.lt_trichotomy (fractionBits a) (fractionBits b) with hlt | hfraction | hgt
    · exact absurd hb (Precedes.not_readsAs (.inr ⟨heq, hlt⟩) ha)
    · exact ⟨heq, hfraction⟩
    · exact absurd ha (Precedes.not_readsAs (.inr ⟨heq.symm, hgt⟩) hb)
  · exact absurd ha (Precedes.not_readsAs (.inl hgt) hb)

end

/-- What reads back as a magnitude that is not zero is positive. -/
theorem ReadsAs.pos {x : ℚ} {bits : UInt64} (hx : ReadsAs x bits) (h : significand bits ≠ 0) :
    0 < x := by
  have hlow : 0 < low bits := by
    refine Nat.mul_pos ?_ (Nat.pow_pos (by decide))
    have hle := below_le bits
    omega
  have hscaled : 0 < x * scale := lt_of_lt_of_le (Nat.cast_pos.mpr hlow) hx.1
  exact pos_of_mul_pos_left hscaled (Nat.cast_nonneg scale)

/-! ## The interval in the text -/

/-- The ends of the interval, brought to the scale. -/
theorem interval_eq (bits : UInt64) :
    (interval bits).low * scale = low bits * (interval bits).den ∧
      (interval bits).high * scale = high bits * (interval bits).den ∧
      0 < (interval bits).den := by
  have hscale : 2 ^ (binaryExponent bits - 2).toNat * scale =
      2 ^ step bits * 2 ^ (2 - binaryExponent bits).toNat := by
    rw [binaryExponent_eq, scale, ← Nat.pow_add, ← Nat.pow_add]
    congr 1
    omega
  have hend : ∀ k : Nat, k * Nat.pow 2 (binaryExponent bits - 2).toNat * scale =
      k * 2 ^ step bits * Nat.pow 2 (2 - binaryExponent bits).toNat := by
    intro k
    rw [Nat.mul_assoc, Nat.mul_assoc]
    exact congrArg (k * ·) hscale
  exact ⟨hend _, hend _, Nat.pow_pos (by decide)⟩

/-- Comparing an end with a fraction, over the denominator of the interval and on the scale. -/
theorem le_scaled_iff {k l n d den : Nat} (hd : 0 < d) (hden : 0 < den)
    (h : k * scale = l * den) :
    (k * d ≤ n * den ↔ (l : ℚ) ≤ n / d * scale) ∧ (n * den ≤ k * d ↔ (n / d * scale : ℚ) ≤ l) := by
  have hd' : (0 : ℚ) < d := Nat.cast_pos.mpr hd
  have hleft : k * d * scale = l * d * den := by
    rw [Nat.mul_right_comm, h, Nat.mul_right_comm]
  have hright : n * den * scale = n * scale * den := Nat.mul_right_comm n den scale
  rw [div_mul_eq_mul_div, le_div_iff₀ hd', div_le_iff₀ hd']
  constructor
  · rw [← Nat.mul_le_mul_right_iff scale_pos, hleft, hright, Nat.mul_le_mul_right_iff hden]
    exact_mod_cast Iff.rfl
  · rw [← Nat.mul_le_mul_right_iff scale_pos, hleft, hright, Nat.mul_le_mul_right_iff hden]
    exact_mod_cast Iff.rfl

/-- What the interval holds reads back. -/
theorem readsAs_of_holds {bits : UInt64} {n d : Nat} (hd : 0 < d)
    (h : (interval bits).holds n d = true) : ReadsAs (n / d) bits := by
  obtain ⟨hlow, hhigh, hden⟩ := interval_eq bits
  obtain ⟨hlowLe, hlowGe⟩ := le_scaled_iff (n := n) hd hden hlow
  obtain ⟨hhighLe, hhighGe⟩ := le_scaled_iff (n := n) hd hden hhigh
  unfold Interval.holds at h
  split at h
  · rename_i hclosed
    obtain ⟨hl, hh⟩ := of_decide_eq_true h
    exact ⟨hlowLe.mp hl, hhighGe.mp hh, fun _ => of_decide_eq_true hclosed⟩
  · obtain ⟨hl, hh⟩ := of_decide_eq_true h
    refine ⟨hlowLe.mp hl.le, hhighGe.mp hh.le, ?_⟩
    rintro (heq | heq)
    · exact absurd (hlowGe.mpr heq.ge) (Nat.not_le.mpr hl)
    · exact absurd (hhighLe.mpr heq.ge) (Nat.not_le.mpr hh)

/-! ## Seventeen digits are enough -/

namespace Interval

theorem holds_of_lt {v : Interval} {n d : Nat} (hlow : v.low * d < n * v.den)
    (hhigh : n * v.den < v.high * d) : v.holds n d = true := by
  unfold holds
  split
  · exact decide_eq_true ⟨hlow.le, hhigh.le⟩
  · exact decide_eq_true ⟨hlow, hhigh⟩

/-- What the grid gives reads back. -/
theorem holds_of_onGrid {v : Interval} {e : Int} {digits n : Nat}
    (h : v.onGrid e digits = some n) :
    v.holds (n * 10 ^ (e + 1 - digits).toNat) (10 ^ (-(e + 1 - digits)).toNat) = true := by
  simp only [onGrid] at h
  split at h
  · rename_i hfloor _
    cases h
    exact hfloor
  · rename_i _ hceil
    cases h
    exact hceil
  · rename_i hfloor hceil
    split at h
    · cases h
      exact hfloor
    · cases h
      exact hceil
  · exact nomatch h

end Interval

theorem pow_length_toDigits_le {n : Nat} (h : 0 < n) : 10 ^ ((Nat.toDigits 10 n).length - 1) ≤ n := by
  have hpos : 0 < (Nat.toDigits 10 n).length := Nat.length_toDigits_pos
  rcases Nat.eq_zero_or_pos ((Nat.toDigits 10 n).length - 1) with hone | hmore
  · rw [hone]
    exact h
  · refine Nat.not_lt.mp fun hlt => ?_
    have hle := (Nat.length_toDigits_le_iff (by decide) hmore).mpr hlt
    omega

/-- Powers of ten moved from one side to the other. -/
theorem mul_pow_le {value den digits places up down : Nat}
    (h : 10 ^ digits * den ≤ value * 10 ^ places) (hsum : digits + down = places + (16 + up)) :
    10 ^ 16 * (den * 10 ^ up) ≤ value * 10 ^ down := by
  refine Nat.le_of_mul_le_mul_left ?_ (Nat.pow_pos (n := places) (show 0 < 10 by decide))
  calc 10 ^ places * (10 ^ 16 * (den * 10 ^ up))
      = den * 10 ^ (places + (16 + up)) := by
        rw [Nat.pow_add, Nat.pow_add]
        ring
    _ = 10 ^ digits * den * 10 ^ down := by
        rw [← hsum, Nat.pow_add]
        ring
    _ ≤ value * 10 ^ places * 10 ^ down := Nat.mul_le_mul_right _ h
    _ = 10 ^ places * (value * 10 ^ down) := by ring

/-- The places behind the point among which the first digit is looked for. -/
def places : Nat := 400

/-- The unit of the seventeenth digit is no more than a `10 ^ 16`th of the magnitude. -/
theorem pow_mul_unit_le {v : Interval} (hden : 0 < v.den) (hvalue : v.den ≤ v.value * 10 ^ places) :
    10 ^ 16 * (v.den * 10 ^ (v.decimalExponent - 16).toNat) ≤
      v.value * 10 ^ (-(v.decimalExponent - 16)).toNat := by
  have hdigits := pow_length_toDigits_le (Nat.div_pos hvalue hden)
  rw [Nat.le_div_iff_mul_le hden] at hdigits
  have hlength : 0 < (Nat.toDigits 10 (v.value * 10 ^ places / v.den)).length :=
    Nat.length_toDigits_pos
  have hplaces : 400 = places := rfl
  have hpow : ∀ k, Nat.pow 10 k = 10 ^ k := fun _ => rfl
  have hexponent : v.decimalExponent =
      (Nat.toDigits 10 (v.value * 10 ^ places / v.den)).length - 401 := by
    rw [Interval.decimalExponent, hplaces, hpow]
  exact mul_pow_le hdigits (by omega)

theorem two_pow_le_ten_pow {k n : Nat} (h : k ≤ 3 * n) : 2 ^ k ≤ 10 ^ n := by
  calc 2 ^ k ≤ 2 ^ (3 * n) := Nat.pow_le_pow_right (by decide) h
    _ = 8 ^ n := Nat.pow_mul 2 3 n
    _ ≤ 10 ^ n := Nat.pow_le_pow_left (by decide) n

theorem four_mul_significand_lt (bits : UInt64) :
    4 * significand bits < 2 * 10 ^ 16 * below bits := by
  have hbound := fractionBits_lt bits
  unfold significand below
  split_ifs <;> omega

/-- How far the ends are from the magnitude, over a common denominator: above at least as far as
below, and below more than a `2 * 10 ^ 16`th of it. -/
theorem exists_widths {bits : UInt64} (h : significand bits ≠ 0) {den : Nat} (hden : 0 < den) :
    ∃ widthBelow widthAbove, (interval bits).low * den + widthBelow = (interval bits).value * den ∧
      (interval bits).high * den = (interval bits).value * den + widthAbove ∧
      widthBelow ≤ widthAbove ∧
      (interval bits).value * den < 2 * 10 ^ 16 * widthBelow := by
  obtain ⟨up, hup, hvalue, hlow, hhigh⟩ : ∃ up, 0 < up ∧
      (interval bits).value = 4 * significand bits * up ∧
      (interval bits).low = (4 * significand bits - below bits) * up ∧
      (interval bits).high = (4 * significand bits + 2) * up :=
    ⟨_, Nat.pow_pos (n := (binaryExponent bits - 2).toNat) (show 0 < 2 by decide), rfl, rfl, rfl⟩
  rw [hvalue, hlow, hhigh]
  simp only [Nat.mul_assoc]
  refine ⟨below bits * (up * den), 2 * (up * den), ?lower, ?upper, ?order, ?width⟩
  case lower =>
    have hle : below bits ≤ 4 * significand bits := by
      have hbelow := below_le bits
      omega
    rw [← Nat.add_mul, Nat.sub_add_cancel hle, Nat.mul_assoc]
  case upper => rw [Nat.add_mul, Nat.mul_assoc]
  case order => exact Nat.mul_le_mul_right _ (below_le bits)
  case width =>
    have hlt := Nat.mul_lt_mul_of_pos_right (four_mul_significand_lt bits) (Nat.mul_pos hup hden)
    simpa only [Nat.mul_assoc] using hlt

/-- A multiple of the unit next to the magnitude reads back, if the unit is fine enough. -/
theorem holds_near {bits : UInt64} (h : significand bits ≠ 0) {num den : Nat} (hnum : 0 < num)
    (hden : 0 < den)
    (hfine : 10 ^ 16 * ((interval bits).den * num) ≤ (interval bits).value * den) :
    let floor := (interval bits).value * den / ((interval bits).den * num)
    (interval bits).holds (floor * num) den = true ∨
      (interval bits).holds ((floor + 1) * num) den = true := by
  intro floor
  have hunit : 0 < (interval bits).den * num := Nat.mul_pos (interval_eq bits).2.2 hnum
  obtain ⟨widthBelow, widthAbove, hlow, hhigh, horder, hwidth⟩ := exists_widths h hden
  have hsplit := Nat.div_add_mod ((interval bits).value * den) ((interval bits).den * num)
  have hmod := Nat.mod_lt ((interval bits).value * den) hunit
  generalize hleft : (interval bits).value * den % ((interval bits).den * num) = left at *
  have hfloor : floor * num * (interval bits).den + left = (interval bits).value * den := by
    rw [← hsplit]
    ring
  have hceil : (floor + 1) * num * (interval bits).den + left =
      (interval bits).value * den + (interval bits).den * num := by
    rw [← hsplit]
    ring
  -- The nearer of the two is within half a unit, which is less than either width.
  by_cases hnear : 2 * left ≤ (interval bits).den * num
  · left
    exact Interval.holds_of_lt (by omega) (by omega)
  · right
    exact Interval.holds_of_lt (by omega) (by omega)

/-- Every magnitude has a digit there. -/
theorem den_le_value_mul_pow {bits : UInt64} (h : significand bits ≠ 0) :
    (interval bits).den ≤ (interval bits).value * 10 ^ places := by
  have hpos : 1 ≤ (interval bits).value :=
    Nat.mul_pos (Nat.mul_pos (by decide) (Nat.pos_of_ne_zero h)) (Nat.pow_pos (by decide))
  have hexponent : (2 - binaryExponent bits).toNat ≤ 3 * places := by
    rw [binaryExponent_eq, places]
    omega
  exact Nat.le_trans (two_pow_le_ten_pow hexponent) (Nat.le_mul_of_pos_left _ hpos)

/-- One of the neighbours on the grid of seventeen digits reads back. -/
theorem exists_onGrid {bits : UInt64} (h : significand bits ≠ 0) :
    ∃ n, (interval bits).onGrid (interval bits).decimalExponent 17 = some n := by
  have hden := (interval_eq bits).2.2
  have hfine := pow_mul_unit_le hden (den_le_value_mul_pow h)
  have hunit : (interval bits).decimalExponent + 1 - ((17 : Nat) : Int) =
      (interval bits).decimalExponent - 16 := by omega
  have hnear := holds_near h (Nat.pow_pos (by decide)) (Nat.pow_pos (by decide)) hfine
  simp only [Interval.onGrid, hunit]
  split
  · exact ⟨_, rfl⟩
  · exact ⟨_, rfl⟩
  · split
    · exact ⟨_, rfl⟩
    · exact ⟨_, rfl⟩
  · rename_i hfloor hceil
    rcases hnear with hholds | hholds
    · exact absurd (hholds.symm.trans hfloor) (by decide)
    · exact absurd (hholds.symm.trans hceil) (by decide)

/-- The digits that are tried are those of a grid, once one of the grids is known to have some. -/
theorem Interval.shortestFrom_onGrid {v : Interval} {e : Int} :
    ∀ {fuel digits : Nat}, (∃ n, v.onGrid e (digits + fuel) = some n) →
      ∃ k n, v.onGrid e k = some n ∧ v.shortestFrom e (fuel + 1) digits = (n, e + 1 - k)
  | 0, digits, h => by
      obtain ⟨n, hn⟩ := h
      refine ⟨digits, n, hn, ?_⟩
      rw [Nat.add_zero] at hn
      simp only [shortestFrom, hn]
  | fuel + 1, digits, h => by
      cases hgrid : v.onGrid e digits with
      | some n =>
          refine ⟨digits, n, hgrid, ?_⟩
          rw [shortestFrom, hgrid]
      | none =>
          have hnext : ∃ n, v.onGrid e (digits + 1 + fuel) = some n := by
            rwa [Nat.add_right_comm]
          obtain ⟨k, n, hn, heq⟩ := shortestFrom_onGrid hnext
          refine ⟨k, n, hn, ?_⟩
          rw [shortestFrom, hgrid, heq]

/-- A numerator and a denominator, one of which is the power of ten. -/
theorem cast_mul_pow_div (n : Nat) (u : Int) :
    ((n * 10 ^ u.toNat : Nat) : ℚ) / (10 ^ (-u).toNat : Nat) = n * 10 ^ u := by
  rcases Int.le_total 0 u with hu | hu
  · obtain ⟨k, rfl⟩ := Int.eq_ofNat_of_zero_le hu
    simp
  · obtain ⟨k, hk⟩ := Int.eq_ofNat_of_zero_le (Int.neg_nonneg.mpr hu)
    obtain rfl : u = -k := by omega
    simp [div_eq_mul_inv]

/-- The shortest decimal of a magnitude reads back. -/
theorem readsAs_shortest {bits : UInt64} (h : significand bits ≠ 0) :
    ReadsAs ((interval bits).shortest.1 * 10 ^ (interval bits).shortest.2) bits := by
  have hgrid : ∃ n, (interval bits).onGrid (interval bits).decimalExponent (1 + 16) = some n :=
    exists_onGrid h
  obtain ⟨k, n, hn, heq⟩ := Interval.shortestFrom_onGrid hgrid
  have hshortest : (interval bits).shortest = (n, (interval bits).decimalExponent + 1 - k) := heq
  have hreads := readsAs_of_holds (Nat.pow_pos (by decide)) (Interval.holds_of_onGrid hn)
  rw [cast_mul_pow_div] at hreads
  rw [hshortest]
  exact hreads

end Binary64

end WorkLedger
