/-
# Fractions are exact

A fraction stands for a rational number and is the only one that does, its terms being the lowest
terms of that number.  An operation comes to the fraction of the exact result whenever the lowest
terms of the result are 64-bit integers, whatever the size of what is worked out on the way, and
the order of fractions is the order of the numbers.
-/
import Mathlib.Algebra.Order.Field.Rat
import Mathlib.Data.Int.CharZero
import Mathlib.Data.Rat.Lemmas
import Mathlib.Order.Compare
import WorkLedger.Proofs.Machine.Words

namespace WorkLedger.Rational

/-! ## Values -/

/-- The number that a fraction stands for. -/
def value (a : Rational) : ℚ := a.num / a.den

/-- The fraction of a number whose lowest terms are 64-bit integers. -/
def ofValue (q : ℚ) (h : FitsInt64 q.num ∧ FitsInt64 q.den) : Rational where
  num := q.num
  den := q.den
  den_pos := q.den_pos
  reduced := q.reduced
  num_fits := h.1
  den_fits := h.2

/-- What an operation has to come to whose exact result is given, or has none because it divides
by zero. -/
def ofExact : Option ℚ → Except Fault Rational
  | none => .error .divisionByZero
  | some q =>
      if h : FitsInt64 q.num ∧ FitsInt64 q.den then .ok (ofValue q h) else .error .overflow

variable {a b r : Rational} {n d : Int} {q : ℚ}

theorem intCast_den_pos (a : Rational) : (0 : ℤ) < a.den := Int.ofNat_lt.mpr a.den_pos

theorem ratCast_den_pos (a : Rational) : (0 : ℚ) < a.den := Nat.cast_pos.mpr a.den_pos

theorem ratCast_den_ne_zero (a : Rational) : (a.den : ℚ) ≠ 0 := (ratCast_den_pos a).ne'

/-- The terms of a fraction are the lowest terms of its value. -/
theorem num_value (a : Rational) : a.value.num = a.num :=
  Rat.num_div_eq_of_coprime a.intCast_den_pos a.reduced

theorem den_value (a : Rational) : a.value.den = a.den := by
  have hden : (a.value.den : ℤ) = a.den := Rat.den_div_eq_of_coprime a.intCast_den_pos a.reduced
  exact Int.ofNat_inj.mp hden

theorem value_ofValue (h : FitsInt64 q.num ∧ FitsInt64 q.den) : (ofValue q h).value = q :=
  Rat.num_div_den q

theorem value_inj : a.value = b.value ↔ a = b := by
  constructor
  · intro h
    refine ext ?_ ?_
    · rw [← a.num_value, h, b.num_value]
    · rw [← a.den_value, h, b.den_value]
  · rintro rfl
    rfl

theorem value_eq_zero : a.value = 0 ↔ a.num = 0 := by
  rw [value, div_eq_zero_iff, Int.cast_eq_zero]
  exact or_iff_left a.ratCast_den_ne_zero

/-- A value fits if and only if it is the value of a fraction. -/
theorem fits_iff_exists_value :
    (FitsInt64 q.num ∧ FitsInt64 q.den) ↔ ∃ r : Rational, r.value = q := by
  constructor
  · intro h
    exact ⟨ofValue q h, value_ofValue h⟩
  · rintro ⟨r, rfl⟩
    rw [r.num_value, r.den_value]
    exact ⟨r.num_fits, r.den_fits⟩

theorem ofExact_value (r : Rational) : ofExact (some r.value) = .ok r := by
  have hfits : FitsInt64 r.value.num ∧ FitsInt64 r.value.den := fits_iff_exists_value.mpr ⟨r, rfl⟩
  rw [ofExact, dif_pos hfits, value_inj.mp (value_ofValue hfits)]

/-! ## Lowest terms -/

theorem reduce_eq_ok_iff_value (hd : d ≠ 0) : reduce n d = .ok r ↔ r.value = n / d := by
  have hden : (d : ℚ) ≠ 0 := Int.cast_ne_zero.mpr hd
  rw [reduce_eq_ok, and_iff_right hd, value, div_eq_div_iff r.ratCast_den_ne_zero hden]
  exact_mod_cast Iff.rfl

theorem exists_reduce_or_overflow (n : Int) (hd : d ≠ 0) :
    (∃ r, reduce n d = .ok r) ∨ reduce n d = .error .overflow := by
  unfold reduce
  rw [dif_neg hd]
  exact (em _).imp (fun hfits => ⟨_, dif_pos hfits⟩) fun hfits => dif_neg hfits

/-- Reducing a fraction comes to its exact value. -/
theorem reduce_eq_ofExact (n d : Int) :
    reduce n d = ofExact (if d = 0 then none else some (n / d : ℚ)) := by
  by_cases hd : d = 0
  · rw [if_pos hd]
    exact dif_pos hd
  · rw [if_neg hd]
    by_cases hfits : FitsInt64 (n / d : ℚ).num ∧ FitsInt64 (n / d : ℚ).den
    · obtain ⟨r, hr⟩ := fits_iff_exists_value.mp hfits
      rw [← hr, ofExact_value]
      exact (reduce_eq_ok_iff_value hd).mpr hr
    · rw [ofExact, dif_neg hfits]
      refine (exists_reduce_or_overflow n hd).resolve_left ?_
      rintro ⟨r, hr⟩
      exact hfits (fits_iff_exists_value.mpr ⟨r, (reduce_eq_ok_iff_value hd).mp hr⟩)

/-! ## Operations -/

theorem commonDen_ne_zero (a b : Rational) : a.commonDen b ≠ 0 :=
  Int.mul_ne_zero a.intCast_den_pos.ne' b.intCast_den_pos.ne'

theorem commonDen_comm (a b : Rational) : a.commonDen b = b.commonDen a := Int.mul_comm _ _

/-- A value over the common denominator. -/
theorem value_eq_cross_div (a b : Rational) : a.value = a.cross b / a.commonDen b := by
  simp only [value, cross, commonDen]
  push_cast
  exact (mul_div_mul_right _ _ b.ratCast_den_ne_zero).symm

theorem add_eq_ofExact (a b : Rational) : a.add b = ofExact (some (a.value + b.value)) := by
  have hsum : ((a.cross b + b.cross a : ℤ) / (a.commonDen b : ℤ) : ℚ) = a.value + b.value := by
    rw [Int.cast_add, add_div, ← value_eq_cross_div a b, commonDen_comm, ← value_eq_cross_div b a]
  rw [add, reduce_eq_ofExact, if_neg (commonDen_ne_zero a b), hsum]

theorem sub_eq_ofExact (a b : Rational) : a.sub b = ofExact (some (a.value - b.value)) := by
  have hdifference :
      ((a.cross b - b.cross a : ℤ) / (a.commonDen b : ℤ) : ℚ) = a.value - b.value := by
    rw [Int.cast_sub, sub_div, ← value_eq_cross_div a b, commonDen_comm, ← value_eq_cross_div b a]
  rw [sub, reduce_eq_ofExact, if_neg (commonDen_ne_zero a b), hdifference]

theorem mul_eq_ofExact (a b : Rational) : a.mul b = ofExact (some (a.value * b.value)) := by
  have hproduct : ((a.num * b.num : ℤ) / (a.commonDen b : ℤ) : ℚ) = a.value * b.value := by
    rw [value, value, div_mul_div_comm]
    simp only [commonDen]
    push_cast
    rfl
  rw [mul, reduce_eq_ofExact, if_neg (commonDen_ne_zero a b), hproduct]

theorem div_of_num_eq_zero (a : Rational) (h : b.num = 0) : a.div b = .error .divisionByZero :=
  if_pos (decide_eq_true h)

theorem div_of_num_ne_zero (a : Rational) (h : b.num ≠ 0) :
    a.div b = reduce (a.cross b) (a.den * b.num) :=
  if_neg fun hzero => h (of_decide_eq_true hzero)

theorem div_eq_ofExact (a b : Rational) :
    a.div b = ofExact (if b.value = 0 then none else some (a.value / b.value)) := by
  by_cases hzero : b.num = 0
  · rw [div_of_num_eq_zero a hzero, if_pos (value_eq_zero.mpr hzero)]
    rfl
  · have hden : (a.den * b.num : ℤ) ≠ 0 := Int.mul_ne_zero a.intCast_den_pos.ne' hzero
    have hquotient : ((a.cross b : ℤ) / (a.den * b.num : ℤ) : ℚ) = a.value / b.value := by
      rw [value, value, div_div_div_eq]
      simp only [cross]
      push_cast
      rfl
    rw [div_of_num_ne_zero a hzero, reduce_eq_ofExact, if_neg hden,
      if_neg (fun h => hzero (value_eq_zero.mp h)), hquotient]

/-! ## Order -/

theorem value_lt_value : a.value < b.value ↔ a.cross b < b.cross a := by
  rw [value, value, div_lt_div_iff₀ a.ratCast_den_pos b.ratCast_den_pos]
  exact_mod_cast Iff.rfl

theorem compare_eq_lt : compare a b = .lt ↔ a.value < b.value := by
  rw [value_lt_value]
  show compare (a.cross b) (b.cross a) = .lt ↔ _
  exact compare_lt_iff_lt

theorem compare_eq_gt : compare a b = .gt ↔ b.value < a.value := by
  rw [value_lt_value]
  show compare (a.cross b) (b.cross a) = .gt ↔ _
  exact compare_gt_iff_gt

/-- Fractions that compare as equal are the same. -/
theorem compare_eq_eq : compare a b = .eq ↔ a = b := by
  rw [← value_inj]
  cases hcompare : compare a b with
  | lt => exact ⟨nofun, fun h => absurd h (compare_eq_lt.mp hcompare).ne⟩
  | eq =>
      refine iff_of_true rfl (le_antisymm ?_ ?_)
      · exact not_lt.mp fun h => nomatch hcompare.symm.trans (compare_eq_gt.mpr h)
      · exact not_lt.mp fun h => nomatch hcompare.symm.trans (compare_eq_lt.mpr h)
  | gt => exact ⟨nofun, fun h => absurd h (compare_eq_gt.mp hcompare).ne'⟩

end WorkLedger.Rational
