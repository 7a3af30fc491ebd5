/-
# Literals are found in a text

A number ends where its text goes on as a container does behind a value.  The parts of a
literal are read off in their order, the digits before a point first, and an integer is the
literal of its digits.
-/
import Mathlib.Data.List.Basic
import Mathlib.Data.List.TakeDrop
import WorkLedger.Json.Reader
import WorkLedger.Json.Text

namespace WorkLedger

/-! ## What follows a number -/

namespace Json

/-- The text does not start with a digit. -/
def Delimited : List Char → Prop
  | [] => True
  | c :: _ => c.isDigit = false

/-- The text is over, or goes on as a container does behind a value. -/
def Ended : List Char → Prop
  | [] => True
  | c :: _ => c = ',' ∨ c = ']' ∨ c = '}'

theorem Ended.delimited {r : List Char} (h : Ended r) : Delimited r := by
  cases r with
  | nil => trivial
  | cons c r => rcases h with rfl | rfl | rfl <;> rfl

end Json

/-! ## Digits -/

theorem isDigit_of_mem_toDigits {n : Nat} {c : Char} (hc : c ∈ Nat.toDigits 10 n) :
    c.isDigit = true :=
  Nat.isDigit_of_mem_toDigits (by decide) (by decide) hc

/-- The first digit of a number. -/
theorem exists_toDigits_eq_cons (n : Nat) :
    ∃ c cs, Nat.toDigits 10 n = c :: cs ∧ c.isDigit = true := by
  cases hn : Nat.toDigits 10 n with
  | nil => exact absurd hn Nat.toDigits_ne_nil
  | cons c cs =>
      have hc : c ∈ Nat.toDigits 10 n := by
        rw [hn]
        exact List.mem_cons_self
      exact ⟨c, cs, rfl, isDigit_of_mem_toDigits hc⟩

/-- The digits of a number start with a zero only if there are no others. -/
theorem head?_toDigits_ne {n : Nat} (h : 0 < n) : (Nat.toDigits 10 n).head? ≠ some '0' := by
  induction n using Nat.strongRecOn with
  | ind n ih =>
      rw [Nat.toDigits_eq_if (by decide)]
      split
      · rename_i hlt
        have hdigits : ∀ d < 10, 0 < d → Nat.digitChar d ≠ '0' := by decide
        intro heq
        exact hdigits n hlt h (Option.some.inj heq)
      · rename_i hge
        have hpos : 0 < n / 10 := Nat.div_pos (Nat.not_lt.mp hge) (by decide)
        have hne : Nat.toDigits 10 (n / 10) ≠ [] := Nat.toDigits_ne_nil
        rw [List.head?_append_of_ne_nil _ hne]
        exact ih (n / 10) (Nat.div_lt_self h (by decide)) hpos

theorem toDigits_ne_zero_cons (n : Nat) (c : Char) (cs : List Char) :
    Nat.toDigits 10 n ≠ '0' :: c :: cs := by
  intro heq
  rcases Nat.eq_zero_or_pos n with rfl | hpos
  · exact nomatch heq
  · exact absurd (by rw [heq]; rfl) (head?_toDigits_ne hpos)

/-- The digits tell the number. -/
theorem toDigits_inj {m n : Nat} (h : Nat.toDigits 10 m = Nat.toDigits 10 n) : m = n := by
  have hvalue := congrArg (Nat.ofDigitChars 10 · 0) h
  simpa only [Nat.ofDigitChars_ten_toDigits] using hvalue

/-! ## Literals -/

namespace Reader

variable {r : List Char}

theorem spanDigits_append {ds : List Char} (hds : ∀ c ∈ ds, c.isDigit = true)
    (hr : Json.Delimited r) : spanDigits (ds ++ r) = (ds, r) := by
  have htake : (ds ++ r).takeWhile Char.isDigit = ds := by
    rw [List.takeWhile_append_of_pos hds]
    cases r with
    | nil => simp
    | cons c r => simp [show c.isDigit = false from hr]
  have hsplit : ds ++ (ds ++ r).dropWhile Char.isDigit = ds ++ r := by
    have hsplit := List.takeWhile_append_dropWhile (p := Char.isDigit) (l := ds ++ r)
    rwa [htake] at hsplit
  rw [spanDigits, List.span_eq_takeWhile_dropWhile, htake, List.append_cancel_left hsplit]

theorem readFraction_of_ended (hr : Json.Ended r) : readFraction r = some ([], r) := by
  cases r with
  | nil => rfl
  | cons c r => rcases hr with rfl | rfl | rfl <;> rfl

theorem readFraction_point {ds : List Char} (hne : ds ≠ [])
    (hds : ∀ c ∈ ds, c.isDigit = true) (hr : Json.Delimited r) :
    readFraction ('.' :: (ds ++ r)) = some (ds, r) := by
  simp only [readFraction, spanDigits_append hds hr]

theorem readExponent_of_ended (hr : Json.Ended r) : readExponent r = some (none, r) := by
  cases r with
  | nil => rfl
  | cons c r => rcases hr with rfl | rfl | rfl <;> rfl

theorem readExponent_e (below : Bool) (n : Nat) (hr : Json.Delimited r) :
    readExponent ('e' :: (if below then '-' else '+') :: (Nat.toDigits 10 n ++ r)) =
      some (some (below, Nat.toDigits 10 n), r) := by
  have hdigits : readExponentDigits below (Nat.toDigits 10 n ++ r) =
      some (some (below, Nat.toDigits 10 n), r) := by
    obtain ⟨c, cs, hn, -⟩ := exists_toDigits_eq_cons n
    simp only [readExponentDigits, spanDigits_append (fun _ => isDigit_of_mem_toDigits) hr]
    rw [hn]
  cases below <;> exact hdigits

/-- A number is its digits, a fraction if there is one and an exponent if there is one. -/
theorem readUnsigned_append {whole rest rest' fraction : List Char}
    {exponent : Option (Bool × List Char)} (negative : Bool)
    (hwhole : ∀ c ∈ whole, c.isDigit = true) (hne : whole ≠ [])
    (hzero : ∀ c cs, whole ≠ '0' :: c :: cs) (hrest : Json.Delimited rest)
    (hfraction : readFraction rest = some (fraction, rest'))
    (hexponent : readExponent rest' = some (exponent, r)) :
    readUnsigned negative (whole ++ rest) = some (⟨negative, whole, fraction, exponent⟩, r) := by
  unfold readUnsigned
  rw [spanDigits_append hwhole hrest]
  split
  · rename_i heq
    exact absurd (Prod.mk.inj heq).1 hne
  · rename_i heq
    exact absurd (Prod.mk.inj heq).1 (hzero _ _)
  · rename_i heq
    cases heq
    rw [hfraction]
    show (readExponent rest' >>= _) = _
    rw [hexponent]
    rfl

/-- Without a minus in front a number is read as it is. -/
theorem readNumber_of_readUnsigned {cs : List Char} {l : Literal}
    (h : readUnsigned false cs = some (l, r)) : readNumber cs = some (l, r) := by
  unfold readNumber
  split
  · exact nomatch h
  · exact h

theorem exists_eq_cons_of_readNumber {cs : List Char} {l : Literal}
    (h : readNumber cs = some (l, r)) :
    ∃ c rest, cs = c :: rest ∧ (c.isDigit = true ∨ c = '-') := by
  cases cs with
  | nil => exact nomatch h
  | cons c rest =>
      refine ⟨c, rest, rfl, Classical.or_iff_not_imp_left.mpr fun hdigit => ?_⟩
      have hnone : ∀ d ∈ ([] : List Char), d.isDigit = true := by simp
      have hdelimited : Json.Delimited (c :: rest) := Bool.eq_false_iff.mpr hdigit
      have hspan := spanDigits_append hnone hdelimited
      rw [List.nil_append] at hspan
      unfold readNumber at h
      split at h
      · exact (List.cons.inj ‹_›).1
      · simp only [readUnsigned, hspan] at h
        exact nomatch h

end Reader

/-! ## Integers -/

/-- The literal of an integer. -/
def Literal.ofInt (i : Int) : Literal := ⟨decide (i < 0), Nat.toDigits 10 i.natAbs, [], none⟩

theorem Literal.ofInt_negSucc (n : Nat) :
    ofInt (.negSucc n) = ⟨true, Nat.toDigits 10 (n + 1), [], none⟩ := by
  rw [ofInt, decide_eq_true (Int.negSucc_lt_zero n)]
  rfl

theorem Literal.ofInt_inj {i j : Int} (h : ofInt i = ofInt j) : i = j := by
  obtain ⟨hsign, hdigits, -, -⟩ := Literal.mk.inj h
  have hvalue := toDigits_inj hdigits
  have hneg : i < 0 ↔ j < 0 := decide_eq_decide.mp hsign
  omega

theorem Reader.readUnsigned_toDigits {r : List Char} (negative : Bool) (n : Nat)
    (hr : Json.Ended r) : readUnsigned negative (Nat.toDigits 10 n ++ r) =
      some (⟨negative, Nat.toDigits 10 n, [], none⟩, r) :=
  readUnsigned_append negative (fun _ => isDigit_of_mem_toDigits) Nat.toDigits_ne_nil
    (toDigits_ne_zero_cons n) hr.delimited (readFraction_of_ended hr) (readExponent_of_ended hr)

/-- An integer is read as the literal of its digits. -/
theorem Reader.readNumber_int {r : List Char} (i : Int) (hr : Json.Ended r) :
    readNumber ((Number.int i).text ++ r) = some (.ofInt i, r) := by
  cases i with
  | ofNat n => exact readNumber_of_readUnsigned (readUnsigned_toDigits false n hr)
  | negSucc n =>
      rw [Literal.ofInt_negSucc]
      exact readUnsigned_toDigits true (n + 1) hr

end WorkLedger
