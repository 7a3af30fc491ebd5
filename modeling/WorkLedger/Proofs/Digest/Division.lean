/-
# Division of digests and the target of the work

A digest is divided byte by byte, with the remainder carried from each byte to the next.  A
remainder is less than the divisor, so what is divided next is less than 256 times the divisor
and its quotient fits a byte: nothing is cut off, and the bytes of the quotient spell the floor.
Together with the order of digests this makes the check of the work one inequality between
numbers.
-/
import Mathlib.Tactic.Ring
import WorkLedger.Block.Basic
import WorkLedger.Proofs.Digest.Order

namespace WorkLedger

namespace Digest

/-! ## Long division -/

/-- What long division divides at each byte: the byte, with the remainder from the bytes further
left in front of it. -/
def dividends (divisor : Nat) : Nat → List UInt8 → List Nat
  | _, [] => []
  | rem, b :: rest =>
      let current := 256 * rem + b.toNat
      current :: dividends divisor (current % divisor) rest

variable {divisor rem : Nat}

theorem longDivide_eq_map (divisor rem : Nat) (bytes : List UInt8) :
    longDivide divisor rem bytes =
      (dividends divisor rem bytes).map fun n => UInt8.ofNat (n / divisor) := by
  induction bytes generalizing rem with
  | nil => rfl
  | cons b rest ih =>
      rw [longDivide, dividends, List.map_cons, ih]

/-- The invariant is that the remainder is less than the divisor. -/
theorem dividend_lt (hrem : rem < divisor) (bytes : List UInt8) {n : Nat}
    (hn : n ∈ dividends divisor rem bytes) : n < 256 * divisor := by
  induction bytes generalizing rem with
  | nil => exact absurd hn List.not_mem_nil
  | cons b rest ih =>
      have hb : b.toNat < 256 := b.toNat_lt
      rcases List.mem_cons.mp hn with rfl | hlater
      · omega
      · exact ih (Nat.mod_lt _ (Nat.zero_lt_of_lt hrem)) hlater

theorem quotient_lt (hrem : rem < divisor) (bytes : List UInt8) {n : Nat}
    (hn : n ∈ dividends divisor rem bytes) : n / divisor < 256 := by
  have hlt : n < 256 * divisor := dividend_lt hrem bytes hn
  exact Nat.div_lt_of_lt_mul (by rwa [Nat.mul_comm])

/-- Every quotient is its byte. -/
theorem map_toNat_longDivide (hrem : rem < divisor) (bytes : List UInt8) :
    (longDivide divisor rem bytes).map UInt8.toNat =
      (dividends divisor rem bytes).map (· / divisor) := by
  rw [longDivide_eq_map, List.map_map]
  apply List.map_congr_left
  intro n hn
  exact UInt8.toNat_ofNat_of_lt' (quotient_lt hrem bytes hn)

/-- The remainder in front of the bytes counts as the digits before them. -/
theorem ofBigEndian_longDivide (hrem : rem < divisor) (bytes : List UInt8) :
    ofBigEndian (longDivide divisor rem bytes) =
      (rem * 256 ^ bytes.length + ofBigEndian bytes) / divisor := by
  induction bytes generalizing rem with
  | nil => exact (Nat.div_eq_of_lt (by simpa [ofBigEndian] using hrem)).symm
  | cons b rest ih =>
      have hpos : 0 < divisor := Nat.zero_lt_of_lt hrem
      have hquotient : (256 * rem + b.toNat) / divisor < 256 :=
        quotient_lt hrem (b :: rest) (List.mem_cons_self ..)
      rw [longDivide, ofBigEndian_cons, length_longDivide, ih (Nat.mod_lt _ hpos),
        UInt8.toNat_ofNat_of_lt' hquotient, ofBigEndian_cons, List.length_cons]
      generalize hq : (256 * rem + b.toNat) / divisor = q
      generalize hr : (256 * rem + b.toNat) % divisor = r
      have hcurrent : divisor * q + r = 256 * rem + b.toNat := by
        rw [← hq, ← hr]
        exact Nat.div_add_mod _ _
      have hdividend : rem * 256 ^ (rest.length + 1) +
          (b.toNat * 256 ^ rest.length + ofBigEndian rest) =
            (r * 256 ^ rest.length + ofBigEndian rest) + divisor * (q * 256 ^ rest.length) := by
        calc rem * 256 ^ (rest.length + 1) + (b.toNat * 256 ^ rest.length + ofBigEndian rest)
            = (256 * rem + b.toNat) * 256 ^ rest.length + ofBigEndian rest := by ring
          _ = (divisor * q + r) * 256 ^ rest.length + ofBigEndian rest := by rw [hcurrent]
          _ = _ := by ring
      rw [hdividend, Nat.add_mul_div_left _ _ hpos, Nat.add_comm]

theorem toNat_pos_of_ne_zero {d : UInt64} (hd : d ≠ 0) : 0 < d.toNat := by
  refine Nat.pos_of_ne_zero ?_
  intro hzero
  exact hd (UInt64.toNat_inj.mp hzero)

/-- The floor of the quotient. -/
theorem toNat_divide (h : Digest) {d : UInt64} (hd : d ≠ 0) :
    (h.divide d).toNat = h.toNat / d.toNat := by
  rw [divide, if_neg hd]
  show ofBigEndian (longDivide d.toNat 0 h.bytes) = ofBigEndian h.bytes / d.toNat
  rw [ofBigEndian_longDivide (toNat_pos_of_ne_zero hd), Nat.zero_mul, Nat.zero_add]

/-! ## The order -/

theorem compare_eq (a b : Digest) : compare a b = compare a.toNat b.toNat :=
  compare_ofBigEndian (a.length_bytes.trans b.length_bytes.symm)

theorem toNat_inj {a b : Digest} : a.toNat = b.toNat ↔ a = b := by
  constructor
  · intro h
    have hbytes : compare a.bytes b.bytes = .eq :=
      (compare_eq a b).trans (Nat.compare_eq_eq.mpr h)
    have hsame : a.bytes = b.bytes := Std.LawfulEqCmp.eq_of_compare hbytes
    cases a
    cases b
    cases hsame
    rfl
  · rintro rfl
    rfl

end Digest

/-! ## The target -/

namespace Header

/-- No difficulty counts as difficulty one. -/
theorem toNat_target (h : Header) :
    h.target.toNat = (2 ^ 256 - 1) / max h.difficulty.toNat 1 := by
  by_cases hzero : h.difficulty = 0
  · rw [target, Digest.divide, if_pos hzero, hzero, Digest.toNat_max]
    rfl
  · have hpos : 1 ≤ h.difficulty.toNat := Digest.toNat_pos_of_ne_zero hzero
    rw [target, Digest.toNat_divide _ hzero, Digest.toNat_max, Nat.max_eq_left hpos]
    rfl

/-- The work is checked in whole numbers.  Dividing a digest gives the floor of the quotient: at
no byte is a quotient too large for it, and what is divided stays far below 128 bits.  The order
of digests is that of their numbers.  So a child has done enough work if its proof times the
difficulty of the parent is below 2 to the 256, and more difficulty never means a larger
target. -/
theorem target_numeric :
    (∀ (h : Digest) (d : UInt64), d ≠ 0 →
      (h.divide d).toNat = h.toNat / d.toNat ∧
      (h.divide d).bytes.map UInt8.toNat =
        (Digest.dividends d.toNat 0 h.bytes).map (· / d.toNat) ∧
      ∀ n ∈ Digest.dividends d.toNat 0 h.bytes, n < 2 ^ 72) ∧
    (∀ a b : Digest, compare a b = compare a.toNat b.toNat ∧ (a.toNat = b.toNat ↔ a = b)) ∧
    (∀ parent child : Header, child.proofOfWork ≤ parent.target ↔
      child.proofOfWork.toNat * max parent.difficulty.toNat 1 ≤ 2 ^ 256 - 1) ∧
    (∀ parent harder : Header, parent.difficulty ≤ harder.difficulty →
      harder.target ≤ parent.target) := by
  refine ⟨?division, ?order, ?check, ?monotone⟩
  case division =>
    intro h d hd
    have hpos : 0 < d.toNat := Digest.toNat_pos_of_ne_zero hd
    refine ⟨Digest.toNat_divide h hd, ?_, ?_⟩
    · rw [Digest.divide, if_neg hd]
      exact Digest.map_toNat_longDivide hpos h.bytes
    · intro n hn
      have hlt : n < 256 * d.toNat := Digest.dividend_lt hpos h.bytes hn
      have hd64 : d.toNat < 2 ^ 64 := d.toNat_lt
      omega
  case order =>
    intro a b
    exact ⟨Digest.compare_eq a b, Digest.toNat_inj⟩
  case check =>
    intro parent child
    have hpos : 0 < max parent.difficulty.toNat 1 := by omega
    rw [Digest.le_iff_toNat_le, toNat_target, Nat.le_div_iff_mul_le hpos]
  case monotone =>
    intro parent harder hle
    have hnat : parent.difficulty.toNat ≤ harder.difficulty.toNat := UInt64.le_iff_toNat_le.mp hle
    rw [Digest.le_iff_toNat_le, toNat_target, toNat_target]
    exact Nat.div_le_div_left (by omega) (by omega)

/-- The first block's header with the largest difficulty. -/
def hardest : Header := { genesis.header with difficulty := 18446744073709551615 }

/-- The digest whose first eight bytes leave the largest remainder that a divisor can leave. -/
def justBelow : Digest := ⟨List.replicate 7 0xff ++ 0xfe :: List.replicate 24 0xff, rfl⟩

theorem target_numeric_hardest :
    hardest.difficulty ≠ 0 ∧
    (justBelow.divide hardest.difficulty).toNat = justBelow.toNat / (2 ^ 64 - 1) ∧
    2 ^ 72 - 257 ∈ Digest.dividends hardest.difficulty.toNat 0 justBelow.bytes ∧
    2 ^ 72 - 257 < 2 ^ 72 ∧
    genesis.header.difficulty ≤ hardest.difficulty ∧
    hardest.target ≤ genesis.header.target := by
  obtain ⟨hdivision, -, -, hmonotone⟩ := target_numeric
  have hne : hardest.difficulty ≠ 0 := by decide
  have hmem : 2 ^ 72 - 257 ∈ Digest.dividends hardest.difficulty.toNat 0 justBelow.bytes := by
    decide
  have hle : genesis.header.difficulty ≤ hardest.difficulty := by decide
  obtain ⟨hfloor, -, hsmall⟩ := hdivision justBelow hardest.difficulty hne
  exact ⟨hne, hfloor, hmem, hsmall _ hmem, hle, hmonotone genesis.header hardest hle⟩

end Header

end WorkLedger
