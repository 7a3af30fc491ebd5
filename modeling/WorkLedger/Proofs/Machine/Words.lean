/-
# Words and what spells them

A fraction may be given in any terms, as long as its lowest terms are 64-bit integers, so that a
number has many spellings.  What is read as a word is what spells it, and a word is written as one
of its spellings.
-/
import Mathlib.Data.Int.GCD
import WorkLedger.Machine.Word
import WorkLedger.Proofs.Outcome

namespace WorkLedger

/-! ## Spellings -/

/-- What spells a fraction: a 64-bit integer, or a pair of them that is the fraction in any
terms. -/
inductive Rational.Spelled : Json → Rational → Prop
  | whole {n : Int} (h : FitsInt64 n) : Spelled (.int n) (.ofInt n h)
  -- The equation says that both fractions have one value; the lowest terms fit by their type.
  | pair {n d : Int} {r : Rational} : FitsInt64 n → FitsInt64 d → d ≠ 0 → r.num * d = n * r.den →
      Spelled (.arr [.int n, .int d]) r

/-- What spells a word. -/
inductive Word.Spelled : Json → Word → Prop
  | number {j : Json} {r : Rational} : Rational.Spelled j r → Spelled j (.number r)
  | text (s : String) : Spelled (.str s) (.text s)

/-! ## Fractions -/

namespace Rational

variable {n d : Int} {r : Rational} {j : Json}

theorem ext {a b : Rational} (hnum : a.num = b.num) (hden : a.den = b.den) : a = b := by
  cases a
  cases b
  cases hnum
  cases hden
  rfl

/-- A common factor makes no difference. -/
theorem reduce_mul (r : Rational) {k : Int} (hk : k ≠ 0) :
    reduce (r.num * k) (r.den * k) = .ok r := by
  have hpos : 0 < k.natAbs := Int.natAbs_pos.mpr hk
  have hden : (r.den : Int) ≠ 0 := Int.ofNat_ne_zero.mpr (Nat.ne_of_gt r.den_pos)
  have hne : (r.den : Int) * k ≠ 0 := Int.mul_ne_zero hden hk
  have hnum : (if (r.den : Int) * k < 0 then -(r.num * k) else r.num * k) = r.num * k.natAbs := by
    rcases Int.lt_or_gt_of_ne hk with hneg | hkpos
    · rw [if_pos (Int.mul_neg_of_pos_of_neg (Int.ofNat_lt.mpr r.den_pos) hneg),
        Int.ofNat_natAbs_of_nonpos (Int.le_of_lt hneg), Int.mul_neg]
    · rw [if_neg (Int.not_lt.mpr (Int.mul_nonneg (Int.natCast_nonneg _) (Int.le_of_lt hkpos))),
        Int.natAbs_of_nonneg (Int.le_of_lt hkpos)]
  have habs : ((r.den : Int) * k).natAbs = r.den * k.natAbs := by
    rw [Int.natAbs_mul, Int.natAbs_natCast]
  have hgcd : (r.num * (k.natAbs : Int)).natAbs.gcd (r.den * k.natAbs) = k.natAbs := by
    rw [Int.natAbs_mul, Int.natAbs_natCast, Nat.gcd_mul_right, r.reduced.gcd_eq_one, Nat.one_mul]
  have hdivNum : r.num * (k.natAbs : Int) / (k.natAbs : Int) = r.num :=
    Int.mul_ediv_cancel _ (Int.ofNat_ne_zero.mpr (Nat.ne_of_gt hpos))
  have hdivDen : r.den * k.natAbs / k.natAbs = r.den := Nat.mul_div_cancel _ hpos
  have hfits : FitsInt64 r.num ∧ FitsInt64 r.den := ⟨r.num_fits, r.den_fits⟩
  unfold reduce
  simp only [hne, dite_false, hnum, habs, hgcd, hdivNum, hdivDen]
  exact dif_pos hfits

/-- Two fractions of one value, the first in lowest terms, differ by a factor. -/
theorem exists_eq_mul_of_cross (hd : d ≠ 0) (h : r.num * d = n * r.den) :
    ∃ k, k ≠ 0 ∧ n = r.num * k ∧ d = r.den * k := by
  have hden : (r.den : Int) ≠ 0 := Int.ofNat_ne_zero.mpr (Nat.ne_of_gt r.den_pos)
  have hcoprime : Int.gcd r.den r.num = 1 := Nat.Coprime.symm r.reduced
  obtain ⟨k, rfl⟩ : (r.den : Int) ∣ d :=
    Int.dvd_of_dvd_mul_right_of_gcd_one ⟨n, by rw [h, Int.mul_comm]⟩ hcoprime
  refine ⟨k, fun hk => hd (by rw [hk, Int.mul_zero]), ?_, rfl⟩
  refine Int.eq_of_mul_eq_mul_right hden ?_
  rw [← h, Int.mul_assoc, Int.mul_comm k]

/-- Taking a sign off the denominator does not change the value. -/
theorem value_of_natAbs (n d : Int) : (if d < 0 then -n else n) * d = n * d.natAbs := by
  split
  · rename_i hneg
    rw [Int.ofNat_natAbs_of_nonpos (Int.le_of_lt hneg), Int.neg_mul, Int.mul_neg]
  · rename_i hpos
    rw [Int.natAbs_of_nonneg (Int.not_lt.mp hpos)]

/-- What comes of a fraction is the fraction of the same value whose terms are lowest, if these are
64-bit integers. -/
theorem reduce_eq_ok : reduce n d = .ok r ↔ d ≠ 0 ∧ r.num * d = n * r.den := by
  constructor
  · intro h
    unfold reduce at h
    split at h
    · exact nomatch h
    · rename_i hd
      extract_lets m e g at h
      split at h
      · cases h
        have hvalue : m * d = n * e := value_of_natAbs n d
        have hg : 0 < g := Nat.gcd_pos_of_pos_right _ (Int.natAbs_pos.mpr hd)
        have hnum : m / (g : Int) * g = m :=
          Int.ediv_mul_cancel (Int.ofNat_dvd_left.mpr (Nat.gcd_dvd_left _ _))
        have hden : e / g * g = e := Nat.div_mul_cancel (Nat.gcd_dvd_right _ _)
        refine ⟨hd, Int.eq_of_mul_eq_mul_right (Int.ofNat_ne_zero.mpr (Nat.ne_of_gt hg)) ?_⟩
        rw [Int.mul_right_comm, hnum, hvalue, Int.mul_assoc, ← Int.natCast_mul, hden]
      · exact nomatch h
  · rintro ⟨hd, hcross⟩
    obtain ⟨k, hk, rfl, rfl⟩ := exists_eq_mul_of_cross hd hcross
    exact r.reduce_mul hk

theorem decode_eq_ok : decode j = .ok r ↔ Spelled j r := by
  constructor
  · intro h
    unfold decode at h
    split at h
    · split at h
      · cases h
        exact .whole _
      · exact nomatch h
    · split at h
      · rename_i hfits
        obtain ⟨hd, hvalue⟩ := reduce_eq_ok.mp (mapError_eq_ok.mp h)
        exact .pair hfits.1 hfits.2 hd hvalue
      · exact nomatch h
    · exact nomatch h
  · intro h
    cases h with
    | whole hfits => exact dif_pos hfits
    | pair hn hd hne hvalue =>
        show (if _ then _ else _) = _
        rw [if_pos ⟨hn, hd⟩]
        exact mapError_eq_ok.mpr (reduce_eq_ok.mpr ⟨hne, hvalue⟩)

/-- A fraction is written in its lowest terms, which spell it. -/
theorem spelled_toJson (r : Rational) : Spelled (toJson r) r := by
  show Spelled (if r.den = 1 then .int r.num else .arr [.int r.num, .int r.den]) r
  split
  · rename_i hden
    have heq : ofInt r.num r.num_fits = r := ext rfl hden.symm
    exact heq ▸ .whole r.num_fits
  · exact .pair r.num_fits r.den_fits (Int.ofNat_ne_zero.mpr (Nat.ne_of_gt r.den_pos)) rfl

end Rational

/-! ## Words -/

namespace Word

variable {j : Json} {w : Word}

theorem ofJson?_eq_some : ofJson? j = some w ↔ Spelled j w := by
  constructor
  · intro h
    unfold ofJson? at h
    split at h
    · cases h
      exact .text _
    · obtain ⟨r, hr, rfl⟩ := Option.map_eq_some_iff.mp h
      exact .number (Rational.decode_eq_ok.mp (toOption_eq_some.mp hr))
  · intro h
    cases h with
    | text s => rfl
    | @number _ r hr =>
        have hread : (Rational.decode j).toOption.map number = some (number r) := by
          rw [Rational.decode_eq_ok.mpr hr]
          rfl
        cases hr with
        | whole _ => exact hread
        | pair _ _ _ _ => exact hread

/-- A word is written in one form, as a slot of code and among published fields. -/
theorem toValue_eq_toJson (w : Word) : w.toValue = toJson w := by
  cases w with
  | text s => rfl
  | number r =>
      by_cases hden : r.den = 1
      · have hint : r.int? = some r.num := if_pos hden
        rw [toValue, hint]
        exact (if_pos hden).symm
      · have hint : r.int? = none := if_neg hden
        rw [toValue, hint]
        exact (if_neg hden).symm

theorem spelled_toJson (w : Word) : Spelled (toJson w) w := by
  cases w with
  | number r => exact .number r.spelled_toJson
  | text s => exact .text s

end Word

end WorkLedger
