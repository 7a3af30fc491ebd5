/-
# Numerals

A number of a command line is written in decimal digits.  Zeros in front of the digits and one
plus sign in front of all are let through, nothing else is: what is read as a number are its
numerals, and no other text.
-/
import WorkLedger.Options

namespace WorkLedger

/-- The text is the number in decimal digits, behind any zeros and perhaps a plus sign. -/
def Numeral (s : String) (n : Nat) : Prop :=
  ∃ zeros, s.toList = List.replicate zeros '0' ++ Nat.toDigits 10 n ∨
    s.toList = '+' :: (List.replicate zeros '0' ++ Nat.toDigits 10 n)

variable {s : String} {n : Nat} {ds : List Char}

/-! ## Digits -/

theorem value_lt_of_isDigit {c : Char} (hc : c.isDigit = true) : c.toNat - '0'.toNat < 10 :=
  Nat.lt_succ_of_le (Nat.sub_le_sub_right (Char.isDigit_iff_toNat.mp hc).2 _)

/-- A digit is the only digit of its value. -/
theorem toDigits_of_isDigit {c : Char} (hc : c.isDigit = true) :
    Nat.toDigits 10 (c.toNat - '0'.toNat) = [c] := by
  have hvalue := value_lt_of_isDigit hc
  have hlow := (Char.isDigit_iff_toNat.mp hc).1
  have hchar : Nat.digitChar (c.toNat - '0'.toNat) = c := by
    apply Char.toNat_inj.mp
    rw [Nat.toNat_digitChar_of_lt_ten hvalue]
    exact Nat.add_sub_cancel' hlow
  rw [Nat.toDigits_of_lt_base hvalue, hchar]

/-- The digits of a number that is not zero go on with the digits read behind them. -/
theorem toDigits_append (hn : 0 < n) (hds : ∀ c ∈ ds, c.isDigit = true) :
    Nat.toDigits 10 n ++ ds = Nat.toDigits 10 (Nat.ofDigitChars 10 ds n) := by
  induction ds generalizing n with
  | nil => rw [List.append_nil, Nat.ofDigitChars_nil]
  | cons c ds ih =>
      have hc := hds c List.mem_cons_self
      calc Nat.toDigits 10 n ++ c :: ds
          = Nat.toDigits 10 n ++ Nat.toDigits 10 (c.toNat - '0'.toNat) ++ ds := by
            rw [toDigits_of_isDigit hc, List.append_assoc, List.singleton_append]
        _ = Nat.toDigits 10 (10 * n + (c.toNat - '0'.toNat)) ++ ds := by
            rw [Nat.toDigits_append_toDigits (by decide) hn (value_lt_of_isDigit hc)]
        _ = Nat.toDigits 10 (Nat.ofDigitChars 10 (c :: ds) n) :=
            ih (by omega) fun d hd => hds d (List.mem_cons_of_mem c hd)

/-- Digits are the digits of their value, behind zeros. -/
theorem exists_zeros (hne : ds ≠ []) (hds : ∀ c ∈ ds, c.isDigit = true) :
    ∃ zeros, ds = List.replicate zeros '0' ++ Nat.toDigits 10 (Nat.ofDigitChars 10 ds 0) := by
  induction ds with
  | nil => exact absurd rfl hne
  | cons c ds ih =>
      have hc := hds c List.mem_cons_self
      have hrest : ∀ d ∈ ds, d.isDigit = true := fun d hd => hds d (List.mem_cons_of_mem c hd)
      have hstart : Nat.ofDigitChars 10 (c :: ds) 0 =
          Nat.ofDigitChars 10 ds (c.toNat - '0'.toNat) := by
        rw [Nat.ofDigitChars_cons, Nat.mul_zero, Nat.zero_add]
      rcases Nat.eq_zero_or_pos (c.toNat - '0'.toNat) with hzero | hpos
      · have hdigit : ['0'] = [c] := by
          rw [← toDigits_of_isDigit hc, hzero, Nat.toDigits_zero]
        cases hdigit
        -- A zero is one of those in front, unless it is the last digit.
        cases ds with
        | nil => exact ⟨0, rfl⟩
        | cons d ds =>
            obtain ⟨zeros, hzeros⟩ := ih (List.cons_ne_nil d ds) hrest
            refine ⟨zeros + 1, ?_⟩
            rw [hstart, hzero, List.replicate_succ, List.cons_append, ← hzeros]
      · refine ⟨0, ?_⟩
        rw [hstart, ← toDigits_append hpos hrest, toDigits_of_isDigit hc]
        rfl

theorem ofDigitChars_zeros (zeros n : Nat) :
    Nat.ofDigitChars 10 (List.replicate zeros '0' ++ Nat.toDigits 10 n) 0 = n := by
  rw [Nat.ofDigitChars_append, Nat.ofDigitChars_replicate_zero, Nat.mul_zero,
    Nat.ofDigitChars_ten_toDigits]

theorem isDigit_of_mem_zeros_append {c : Char} {zeros : Nat}
    (hc : c ∈ List.replicate zeros '0' ++ Nat.toDigits 10 n) : c.isDigit = true := by
  rcases List.mem_append.mp hc with hc | hc
  · rw [List.eq_of_mem_replicate hc]
    rfl
  · exact Nat.isDigit_of_mem_toDigits (by decide) (by decide) hc

/-! ## Reading -/

/-- What is read of the characters behind a plus sign, or where there is none. -/
theorem ofDigits_eq_some :
    (if ds.isEmpty || !ds.all Char.isDigit then none
      else if Nat.ofDigitChars 10 ds 0 < UInt64.size then some (Nat.ofDigitChars 10 ds 0)
      else none) = some n ↔
    (∃ zeros, ds = List.replicate zeros '0' ++ Nat.toDigits 10 n) ∧ n < UInt64.size := by
  constructor
  · intro h
    split at h
    · exact nomatch h
    · rename_i hdigits
      split at h
      · rename_i hlt
        cases h
        rw [Bool.or_eq_true, not_or, List.isEmpty_iff, Bool.not_eq_true', Bool.not_eq_false,
          List.all_eq_true] at hdigits
        exact ⟨exists_zeros hdigits.1 hdigits.2, hlt⟩
      · exact nomatch h
  · rintro ⟨⟨zeros, rfl⟩, hlt⟩
    have hne : (List.replicate zeros '0' ++ Nat.toDigits 10 n).isEmpty = false := by
      rw [List.isEmpty_eq_false_iff]
      exact List.append_ne_nil_of_right_ne_nil _ Nat.toDigits_ne_nil
    have hall : (List.replicate zeros '0' ++ Nat.toDigits 10 n).all Char.isDigit = true :=
      List.all_eq_true.mpr fun c => isDigit_of_mem_zeros_append
    rw [hne, hall, ofDigitChars_zeros]
    exact if_pos hlt

/-- What is read as a number below `2 ^ 64` are its numerals. -/
theorem parseU64?_eq_some : parseU64? s = some n ↔ Numeral s n ∧ n < UInt64.size := by
  have hplus : ∀ rest zeros, '+' :: rest ≠ List.replicate zeros '0' ++ Nat.toDigits 10 n := by
    intro rest zeros heq
    have hmem : '+' ∈ List.replicate zeros '0' ++ Nat.toDigits 10 n := heq ▸ List.mem_cons_self
    exact nomatch isDigit_of_mem_zeros_append hmem
  unfold parseU64?
  split
  · rename_i rest hs
    refine ofDigits_eq_some.trans (and_congr_left' (exists_congr fun zeros => ?_))
    rw [hs, List.cons.injEq, or_iff_right (hplus rest zeros)]
    exact (and_iff_right rfl).symm
  · rename_i hs
    refine ofDigits_eq_some.trans (and_congr_left' (exists_congr fun zeros => ?_))
    rw [or_iff_left (hs _)]

end WorkLedger
