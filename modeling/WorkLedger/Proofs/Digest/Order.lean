/-
# Digests as numbers

Comparing digests byte by byte is comparing the numbers that their bytes spell.
-/
import Mathlib.Algebra.Group.Nat.Defs
import WorkLedger.Digest.Basic

namespace WorkLedger.Digest

/-! ## Big-endian numbers -/

theorem ofBigEndian_cons (b : UInt8) (rest : List UInt8) :
    ofBigEndian (b :: rest) = b.toNat * 256 ^ rest.length + ofBigEndian rest := by
  -- Stated with any number in front of the bytes, which is what the fold carries along.
  have h : ∀ (l : List UInt8) (n : Nat),
      l.foldl (fun n b => 256 * n + b.toNat) n = n * 256 ^ l.length + ofBigEndian l := by
    intro l
    induction l with
    | nil => simp [ofBigEndian]
    | cons c l ih =>
        intro n
        simp only [ofBigEndian, List.foldl_cons, List.length_cons, Nat.pow_succ] at ih ⊢
        rw [ih, ih (256 * 0 + c.toNat)]
        simp only [Nat.mul_zero, Nat.zero_add, Nat.add_mul]
        rw [Nat.mul_comm 256 n, Nat.mul_assoc, Nat.mul_comm 256 (256 ^ l.length), Nat.add_assoc]
  rw [ofBigEndian, List.foldl_cons, h]
  simp

theorem ofBigEndian_lt (l : List UInt8) : ofBigEndian l < 256 ^ l.length := by
  induction l with
  | nil => simp [ofBigEndian]
  | cons b l ih =>
      rw [ofBigEndian_cons, List.length_cons, Nat.pow_succ]
      have hb := b.toNat_lt
      have := Nat.mul_le_mul_right (256 ^ l.length) (Nat.le_of_lt_succ hb)
      omega

/-! ## The order -/

theorem compare_toNat (a b : UInt8) : compare a b = compare a.toNat b.toNat := by
  show compareOfLessAndEq a b = compareOfLessAndEq a.toNat b.toNat
  simp only [compareOfLessAndEq, UInt8.lt_iff_toNat_lt, UInt8.toNat_inj]

theorem compare_ofBigEndian :
    ∀ {xs ys : List UInt8}, xs.length = ys.length →
      compare xs ys = compare (ofBigEndian xs) (ofBigEndian ys)
  | [], [], _ => rfl
  | [], _ :: _, h => nomatch h
  | _ :: _, [], h => nomatch h
  | x :: xs, y :: ys, h => by
      have hlen : xs.length = ys.length := Nat.succ.inj h
      have hx := ofBigEndian_lt xs
      have hy := ofBigEndian_lt ys
      rw [List.compare_cons_cons, compare_ofBigEndian hlen, compare_toNat, ofBigEndian_cons,
        ofBigEndian_cons, hlen]
      rw [hlen] at hx
      rcases Nat.lt_trichotomy x.toNat y.toNat with hlt | heq | hgt
      · -- The first byte decides, because what follows is less than one step of it.
        have hstep := Nat.mul_le_mul_right (256 ^ ys.length) (Nat.succ_le_of_lt hlt)
        rw [Nat.succ_mul] at hstep
        have hnum : x.toNat * 256 ^ ys.length + ofBigEndian xs <
            y.toNat * 256 ^ ys.length + ofBigEndian ys := by omega
        rw [Nat.compare_eq_lt.mpr hlt, Nat.compare_eq_lt.mpr hnum]
        rfl
      · rw [heq, Nat.compare_eq_eq.mpr rfl, Ordering.eq_then]
        rcases Nat.lt_trichotomy (ofBigEndian xs) (ofBigEndian ys) with h | h | h
        · rw [Nat.compare_eq_lt.mpr h, Nat.compare_eq_lt.mpr (Nat.add_lt_add_left h _)]
        · rw [h, Nat.compare_eq_eq.mpr rfl, Nat.compare_eq_eq.mpr rfl]
        · rw [Nat.compare_eq_gt.mpr h, Nat.compare_eq_gt.mpr (Nat.add_lt_add_left h _)]
      · have hstep := Nat.mul_le_mul_right (256 ^ ys.length) (Nat.succ_le_of_lt hgt)
        rw [Nat.succ_mul] at hstep
        have hnum : y.toNat * 256 ^ ys.length + ofBigEndian ys <
            x.toNat * 256 ^ ys.length + ofBigEndian xs := by omega
        rw [Nat.compare_eq_gt.mpr hgt, Nat.compare_eq_gt.mpr hnum]
        rfl

/-- The order of digests is that of their numbers. -/
theorem le_iff_toNat_le {a b : Digest} : a ≤ b ↔ a.toNat ≤ b.toNat := by
  show (compare a.bytes b.bytes).isLE = true ↔ _
  rw [compare_ofBigEndian (a.length_bytes.trans b.length_bytes.symm), Nat.isLE_compare]
  exact Iff.rfl

theorem toNat_lt (a : Digest) : a.toNat < 256 ^ 32 := a.length_bytes ▸ ofBigEndian_lt a.bytes

theorem toNat_max : max.toNat = 256 ^ 32 - 1 := by decide

theorem le_max (a : Digest) : a ≤ max := by
  rw [le_iff_toNat_le, toNat_max]
  exact Nat.le_sub_one_of_lt a.toNat_lt

end WorkLedger.Digest
