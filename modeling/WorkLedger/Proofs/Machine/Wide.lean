/-
# Arithmetic in 128 bits

What an operation on fractions works out on its way, the products of terms, their sum, the sign
taken off and the common factor, are 128-bit signed integers.  Here the operations are spelled out
with every number on the way, and they stop where one of them is out of range.

None ever is: two 64-bit integers have a product of at most 2^126, reached by the least of them
alone, and a denominator is never the least.  So the steps come to what the operations say, and
these are exact.
-/
import WorkLedger.Proofs.Machine.Exact

namespace WorkLedger.Rational

/-! ## Steps -/

/-- The 128-bit signed integers. -/
def FitsInt128 (n : Int) : Prop := -2 ^ 127 ≤ n ∧ n < 2 ^ 127

instance (n : Int) : Decidable (FitsInt128 n) := inferInstanceAs (Decidable (_ ∧ _))

/-- Why steps stop. -/
inductive Halt where
  | fault (f : Fault)
  /-- The number is no 128-bit integer. -/
  | leavesRange (n : Int)
deriving DecidableEq

/-- A number that has to be in range. -/
def inWidth (n : Int) : Except Halt Int :=
  if FitsInt128 n then .ok n else .error (.leavesRange n)

/-- Euclid's algorithm. -/
def euclid (a b : Nat) : Nat := if b = 0 then a else euclid b (a % b)
termination_by b
decreasing_by exact Nat.mod_lt a (Nat.pos_of_ne_zero ‹_›)

/-- A number with the other sign if the denominator is negative. -/
def flipped (den n : Int) : Except Halt Int := if den < 0 then inWidth (-n) else .ok n

/-- A number without a factor.  The quotient is rounded toward zero. -/
def lowered (g n : Int) : Except Halt Int := if 1 < g then inWidth (n.tdiv g) else .ok n

/-- The lowest terms of a fraction with a positive denominator. -/
def lowestSteps (num den : Int) : Except Halt (Int × Int) := do
  let g ← inWidth (euclid num.natAbs den.natAbs)
  let n ← lowered g num
  let d ← lowered g den
  if FitsInt64 n ∧ FitsInt64 d then .ok (n, d) else .error (.fault .overflow)

/-- The lowest terms of a fraction. -/
def reduceSteps (num den : Int) : Except Halt (Int × Int) :=
  if den = 0 then .error (.fault .divisionByZero)
  else do
    let n ← flipped den num
    let d ← flipped den den
    lowestSteps n d

/-- A sum whose size the program looks at itself, so that it leads to a fault and not to a stop. -/
def summed (n : Int) : Except Halt Int :=
  if FitsInt128 n then .ok n else .error (.fault .overflow)

/-- Both numerators over the common denominator, put together. -/
def combineSteps (combine : Int → Int → Int) (a b : Rational) : Except Halt (Int × Int) := do
  let x ← inWidth (a.cross b)
  let y ← inWidth (b.cross a)
  let n ← summed (combine x y)
  let d ← inWidth (a.commonDen b)
  reduceSteps n d

/-- The sum. -/
def addSteps : Rational → Rational → Except Halt (Int × Int) := combineSteps (· + ·)

/-- The difference. -/
def subSteps : Rational → Rational → Except Halt (Int × Int) := combineSteps (· - ·)

/-- The product. -/
def mulSteps (a b : Rational) : Except Halt (Int × Int) := do
  let n ← inWidth (a.num * b.num)
  let d ← inWidth (a.commonDen b)
  reduceSteps n d

/-- The quotient. -/
def divSteps (a b : Rational) : Except Halt (Int × Int) :=
  if b.num = 0 then .error (.fault .divisionByZero)
  else do
    let n ← inWidth (a.cross b)
    let d ← inWidth (a.den * b.num)
    reduceSteps n d

/-- The order. -/
def compareSteps (a b : Rational) : Except Halt Ordering := do
  let x ← inWidth (a.cross b)
  let y ← inWidth (b.cross a)
  return compare x y

/-- The outcome of an operation as steps give it: numerator and denominator, or the fault. -/
def terms : Except Fault Rational → Except Halt (Int × Int)
  | .ok r => .ok (r.num, r.den)
  | .error f => .error (.fault f)

/-! ## In range -/

variable {a b : Rational} {n d : Int}

theorem inWidth_of_lt (h : n.natAbs < 2 ^ 127) : inWidth n = .ok n := by
  refine if_pos ⟨?_, ?_⟩
  · omega
  · omega

theorem natAbs_le_of_fitsInt64 (h : FitsInt64 n) : n.natAbs ≤ 2 ^ 63 := by
  obtain ⟨hmin, hmax⟩ := h
  omega

theorem natAbs_num_le (a : Rational) : a.num.natAbs ≤ 2 ^ 63 := natAbs_le_of_fitsInt64 a.num_fits

theorem den_le (a : Rational) : a.den ≤ 2 ^ 63 - 1 := by
  obtain ⟨-, hmax⟩ := a.den_fits
  omega

/-- A denominator is not the least integer, so that two such products have a sum in range. -/
theorem natAbs_num_mul_den_le (a b : Rational) :
    (a.num * b.den).natAbs ≤ 2 ^ 63 * (2 ^ 63 - 1) := by
  rw [Int.natAbs_mul, Int.natAbs_natCast]
  exact Nat.mul_le_mul a.natAbs_num_le b.den_le

theorem natAbs_num_mul_num_le (a b : Rational) : (a.num * b.num).natAbs ≤ 2 ^ 63 * 2 ^ 63 := by
  rw [Int.natAbs_mul]
  exact Nat.mul_le_mul a.natAbs_num_le b.natAbs_num_le

theorem natAbs_commonDen_le (a b : Rational) :
    (a.commonDen b).natAbs ≤ (2 ^ 63 - 1) * (2 ^ 63 - 1) := by
  rw [commonDen, Int.natAbs_mul, Int.natAbs_natCast, Int.natAbs_natCast]
  exact Nat.mul_le_mul a.den_le b.den_le

theorem natAbs_cross_lt (a b : Rational) : (a.cross b).natAbs < 2 ^ 127 :=
  Nat.lt_of_le_of_lt (natAbs_num_mul_den_le a b) (by decide)

theorem natAbs_commonDen_lt (a b : Rational) : (a.commonDen b).natAbs < 2 ^ 127 :=
  Nat.lt_of_le_of_lt (natAbs_commonDen_le a b) (by decide)

/-! ## Lowest terms -/

theorem euclid_eq_gcd (a b : Nat) : euclid a b = a.gcd b := by
  induction a, b using euclid.induct with
  | case1 a => rw [euclid, if_pos rfl, Nat.gcd_zero_right]
  | case2 a b hb ih => rw [euclid, if_neg hb, ih, Nat.gcd_comm a b, Nat.gcd_rec b a, Nat.gcd_comm]

theorem flipped_eq (den : Int) (h : n.natAbs < 2 ^ 127) :
    flipped den n = .ok (if den < 0 then -n else n) := by
  unfold flipped
  split
  · exact inWidth_of_lt ((Int.natAbs_neg n).symm ▸ h)
  · rfl

theorem lowered_eq {g : Nat} (hg : 0 < g) (hdvd : (g : Int) ∣ n) (h : n.natAbs < 2 ^ 127) :
    lowered g n = .ok (n / g) := by
  unfold lowered
  split
  · rw [Int.tdiv_eq_ediv_of_dvd hdvd]
    refine inWidth_of_lt (Nat.lt_of_le_of_lt ?_ h)
    rw [Int.natAbs_ediv_of_dvd hdvd, Int.natAbs_natCast]
    exact Nat.div_le_self _ _
  · rename_i hle
    obtain rfl : g = 1 := by omega
    rw [Int.natCast_one, Int.ediv_one]

theorem terms_reduce (n : Int) (hd : d ≠ 0) :
    let m := if d < 0 then -n else n
    let g := m.natAbs.gcd d.natAbs
    terms (reduce n d) =
      if FitsInt64 (m / g) ∧ FitsInt64 (d.natAbs / g : Nat) then .ok (m / g, (d.natAbs / g : Nat))
      else .error (.fault .overflow) := by
  intro m g
  unfold reduce
  rw [dif_neg hd]
  by_cases hfits : FitsInt64 (m / g) ∧ FitsInt64 (d.natAbs / g : Nat)
  · rw [if_pos hfits]
    exact congrArg terms (dif_pos hfits)
  · rw [if_neg hfits]
    exact congrArg terms (dif_neg hfits)

theorem lowestSteps_eq {e : Nat} (he : 0 < e) (hn : n.natAbs < 2 ^ 127) (hwidth : e < 2 ^ 127) :
    let g := n.natAbs.gcd e
    lowestSteps n e =
      if FitsInt64 (n / g) ∧ FitsInt64 (e / g : Nat) then .ok (n / g, (e / g : Nat))
      else .error (.fault .overflow) := by
  intro g
  have hg : 0 < g := Nat.gcd_pos_of_pos_right _ he
  have hfactor : inWidth (euclid n.natAbs (e : Int).natAbs) = .ok (g : Int) := by
    rw [Int.natAbs_natCast, euclid_eq_gcd]
    exact inWidth_of_lt (Nat.lt_of_le_of_lt (Nat.gcd_le_right _ he) hwidth)
  have hnum : lowered g n = .ok (n / g) :=
    lowered_eq hg (Int.ofNat_dvd_left.mpr (Nat.gcd_dvd_left _ _)) hn
  have hden : lowered g e = .ok ((e / g : Nat) : Int) :=
    lowered_eq hg (Int.ofNat_dvd.mpr (Nat.gcd_dvd_right _ _)) hwidth
  rw [lowestSteps, hfactor, ok_bind, hnum, ok_bind, hden, ok_bind]

theorem reduceSteps_eq (hn : n.natAbs < 2 ^ 127) (hd : d.natAbs < 2 ^ 127) :
    reduceSteps n d = terms (reduce n d) := by
  by_cases hzero : d = 0
  · have hreduce : reduce n d = .error .divisionByZero := dif_pos hzero
    rw [hreduce]
    exact if_pos hzero
  · have hsign : (if d < 0 then -d else d) = d.natAbs := by
      split <;> omega
    have hnum : (if d < 0 then -n else n).natAbs < 2 ^ 127 := by
      split <;> omega
    rw [reduceSteps, if_neg hzero, flipped_eq d hn, ok_bind, flipped_eq d hd, ok_bind, hsign,
      lowestSteps_eq (Int.natAbs_pos.mpr hzero) hnum hd, terms_reduce n hzero]

/-! ## Operations -/

theorem combineSteps_eq {combine : Int → Int → Int} (a b : Rational)
    (h : ∀ x y, (combine x y).natAbs ≤ x.natAbs + y.natAbs) :
    combineSteps combine a b = terms (reduce (combine (a.cross b) (b.cross a)) (a.commonDen b)) := by
  have hsum : (combine (a.cross b) (b.cross a)).natAbs < 2 ^ 127 := by
    have hle := h (a.cross b) (b.cross a)
    have hleft : (a.cross b).natAbs ≤ _ := natAbs_num_mul_den_le a b
    have hright : (b.cross a).natAbs ≤ _ := natAbs_num_mul_den_le b a
    omega
  have hfits : summed (combine (a.cross b) (b.cross a)) = .ok (combine (a.cross b) (b.cross a)) := by
    refine if_pos ⟨?_, ?_⟩
    · omega
    · omega
  rw [combineSteps, inWidth_of_lt (natAbs_cross_lt a b), ok_bind,
    inWidth_of_lt (natAbs_cross_lt b a), ok_bind, hfits, ok_bind,
    inWidth_of_lt (natAbs_commonDen_lt a b), ok_bind]
  exact reduceSteps_eq hsum (natAbs_commonDen_lt a b)

theorem addSteps_eq (a b : Rational) : addSteps a b = terms (a.add b) :=
  combineSteps_eq a b Int.natAbs_add_le

theorem subSteps_eq (a b : Rational) : subSteps a b = terms (a.sub b) :=
  combineSteps_eq a b Int.natAbs_sub_le

theorem mulSteps_eq (a b : Rational) : mulSteps a b = terms (a.mul b) := by
  have hnum : (a.num * b.num).natAbs < 2 ^ 127 :=
    Nat.lt_of_le_of_lt (natAbs_num_mul_num_le a b) (by decide)
  rw [mulSteps, inWidth_of_lt hnum, ok_bind, inWidth_of_lt (natAbs_commonDen_lt a b), ok_bind]
  exact reduceSteps_eq hnum (natAbs_commonDen_lt a b)

theorem divSteps_eq (a b : Rational) : divSteps a b = terms (a.div b) := by
  by_cases hzero : b.num = 0
  · rw [div_of_num_eq_zero a hzero]
    exact if_pos hzero
  · have hden : (a.den * b.num : Int).natAbs < 2 ^ 127 := by
      rw [Int.mul_comm]
      exact natAbs_cross_lt b a
    rw [divSteps, if_neg hzero, div_of_num_ne_zero a hzero, inWidth_of_lt (natAbs_cross_lt a b),
      ok_bind, inWidth_of_lt hden, ok_bind]
    exact reduceSteps_eq (natAbs_cross_lt a b) hden

theorem compareSteps_eq (a b : Rational) : compareSteps a b = .ok (compare a b) := by
  rw [compareSteps, inWidth_of_lt (natAbs_cross_lt a b), ok_bind,
    inWidth_of_lt (natAbs_cross_lt b a), ok_bind]
  rfl

/-! ## Exactness -/

/-- Arithmetic on fractions is exact.

A sum, difference, product or quotient of two fractions, and a fraction given by any two 64-bit
integers, is the fraction of the exact result if the lowest terms of that result are 64-bit
integers, and an overflow otherwise; a division by zero is one, and nothing else is.  The terms of
a fraction are the lowest terms of its value.

Spelled out with every number on the way, each operation comes to the same, so that none of these
numbers leaves 128 bits.  Fractions are ordered as their values, and only a fraction itself compares
as equal to it. -/
theorem arithmetic_exact :
    (∀ a : Rational, a.num = a.value.num ∧ a.den = a.value.den) ∧
    (∀ a b : Rational,
      a.add b = ofExact (some (a.value + b.value)) ∧
      a.sub b = ofExact (some (a.value - b.value)) ∧
      a.mul b = ofExact (some (a.value * b.value)) ∧
      a.div b = ofExact (if b.value = 0 then none else some (a.value / b.value))) ∧
    (∀ a b : Rational, addSteps a b = terms (a.add b) ∧ subSteps a b = terms (a.sub b) ∧
      mulSteps a b = terms (a.mul b) ∧ divSteps a b = terms (a.div b)) ∧
    (∀ n d : Int, FitsInt64 n → FitsInt64 d →
      reduce n d = ofExact (if d = 0 then none else some (n / d : ℚ)) ∧
      reduceSteps n d = terms (reduce n d)) ∧
    ∀ a b : Rational,
      (compare a b = .lt ↔ a.value < b.value) ∧ (compare a b = .gt ↔ b.value < a.value) ∧
      (compare a b = .eq ↔ a = b) ∧ (a.value = b.value ↔ a = b) ∧
      compareSteps a b = .ok (compare a b) := by
  refine ⟨?terms, ?operations, ?steps, ?pairs, ?order⟩
  case terms =>
    intro a
    exact ⟨a.num_value.symm, a.den_value.symm⟩
  case operations =>
    intro a b
    exact ⟨add_eq_ofExact a b, sub_eq_ofExact a b, mul_eq_ofExact a b, div_eq_ofExact a b⟩
  case steps =>
    intro a b
    exact ⟨addSteps_eq a b, subSteps_eq a b, mulSteps_eq a b, divSteps_eq a b⟩
  case pairs =>
    intro n d hn hd
    have hnWidth : n.natAbs < 2 ^ 127 :=
      Nat.lt_of_le_of_lt (natAbs_le_of_fitsInt64 hn) (by decide)
    have hdWidth : d.natAbs < 2 ^ 127 :=
      Nat.lt_of_le_of_lt (natAbs_le_of_fitsInt64 hd) (by decide)
    exact ⟨reduce_eq_ofExact n d, reduceSteps_eq hnWidth hdWidth⟩
  case order =>
    intro a b
    exact ⟨compare_eq_lt, compare_eq_gt, compare_eq_eq, value_inj, compareSteps_eq a b⟩

/-- The least integer over itself is one; over minus one it would not fit, which is no stop. -/
theorem arithmetic_exact_least :
    FitsInt64 (-9223372036854775808) ∧ FitsInt64 (-1) ∧
    reduce (-9223372036854775808) (-9223372036854775808) = .ok one ∧
    reduceSteps (-9223372036854775808) (-1) = .error (.fault .overflow) := by
  have hleast : FitsInt64 (-9223372036854775808) := by decide
  have hunit : FitsInt64 (-1) := by decide
  have hself := (arithmetic_exact.2.2.2.1 _ _ hleast hleast).1
  have hnegated := (arithmetic_exact.2.2.2.1 _ _ hleast hunit).2
  refine ⟨hleast, hunit, ?_, ?_⟩
  · have hone : one.value = 1 := by
      show ((1 : ℤ) : ℚ) / ((1 : ℕ) : ℚ) = 1
      rw [Int.cast_one, Nat.cast_one, div_one]
    rw [hself, if_neg (by decide), div_self (Int.cast_ne_zero.mpr (by decide)), ← hone,
      ofExact_value]
  · rw [hnegated]
    decide

end WorkLedger.Rational
