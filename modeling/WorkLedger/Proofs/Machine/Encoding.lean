/-
# One text for a word

A word is written in one form only, whichever way it is written, and is read back from it.  A text
is read from itself alone, a number from everything that denotes it: a 64-bit integer, or a pair of
them as numerator and denominator in any terms.
-/
import Mathlib.Tactic.NormNum
import WorkLedger.Proofs.Json.Reading
import WorkLedger.Proofs.Json.Records
import WorkLedger.Proofs.Machine.Exact
import WorkLedger.Proofs.Machine.Slots
import WorkLedger.Proofs.Transaction.Published

namespace WorkLedger

/-! ## Numbers in JSON -/

/-- The number that a value denotes, as an integer or as a fraction. -/
def Json.number? : Json → Option ℚ
  | .num (.int n) => if FitsInt64 n then some n else none
  | .arr [.num (.int n), .num (.int d)] =>
      if FitsInt64 n ∧ FitsInt64 d ∧ d ≠ 0 then some (n / d : ℚ) else none
  | _ => none

variable {j k : Json} {r : Rational} {w : Word}

theorem Json.number?_pair {n d : Int} (hn : FitsInt64 n) (hd : FitsInt64 d) (hne : d ≠ 0) :
    (Json.arr [.int n, .int d]).number? = some (n / d : ℚ) :=
  if_pos ⟨hn, hd, hne⟩

theorem Rational.value_ofInt {n : Int} (h : FitsInt64 n) : (ofInt n h).value = n := by
  show (n : ℚ) / ((1 : ℕ) : ℚ) = n
  rw [Nat.cast_one, div_one]

/-- What spells a fraction is what denotes its value. -/
theorem Rational.spelled_iff_number? : Spelled j r ↔ j.number? = some r.value := by
  constructor
  · intro h
    cases h with
    | @whole n hfits =>
        rw [value_ofInt]
        exact if_pos hfits
    | @pair n d _ hn hd hne hcross =>
        have hvalue : r.value = n / d :=
          (reduce_eq_ok_iff_value hne).mp (reduce_eq_ok.mpr ⟨hne, hcross⟩)
        rw [hvalue, Json.number?_pair hn hd hne]
  · intro h
    unfold Json.number? at h
    split at h
    · rename_i n
      split at h
      · rename_i hfits
        have hvalue : r.value = (ofInt n hfits).value :=
          (Option.some.inj h).symm.trans (value_ofInt hfits).symm
        rw [value_inj.mp hvalue]
        exact .whole hfits
      · exact nomatch h
    · split at h
      · rename_i hfits
        obtain ⟨hn, hd, hne⟩ := hfits
        have hreduce := (reduce_eq_ok_iff_value hne).mpr (Option.some.inj h).symm
        exact .pair hn hd hne (reduce_eq_ok.mp hreduce).2
      · exact nomatch h
    · exact nomatch h

namespace Word

theorem ofJson?_eq_number : ofJson? j = some (number r) ↔ j.number? = some r.value := by
  rw [ofJson?_eq_some, ← Rational.spelled_iff_number?]
  constructor
  · rintro ⟨h⟩
    exact h
  · exact .number

theorem ofJson?_eq_text {s : String} : ofJson? j = some (text s) ↔ j = .str s := by
  rw [ofJson?_eq_some]
  constructor
  · rintro ⟨⟩
    rfl
  · rintro rfl
    exact .text s

/-- What is read as the same word is the same text, or denotes the same number. -/
theorem ofJson?_eq_iff_of_eq (h : ofJson? j = some w) :
    ofJson? k = some w ↔ k = j ∨ ∃ q, j.number? = some q ∧ k.number? = some q := by
  cases w with
  | text s =>
      obtain rfl := ofJson?_eq_text.mp h
      rw [ofJson?_eq_text]
      refine (or_iff_left ?_).symm
      rintro ⟨q, hq, -⟩
      exact nomatch hq
  | number r =>
      have hj := ofJson?_eq_number.mp h
      rw [ofJson?_eq_number]
      constructor
      · intro hk
        exact .inr ⟨_, hj, hk⟩
      · rintro (rfl | ⟨q, hq, hk⟩)
        · exact hj
        · rw [hk, ← hq, hj]

theorem plain_toJson (w : Word) : (toJson w).Plain :=
  (Json.shallow_of_spelled w.spelled_toJson).toPlain

theorem read?_compact_toJson (w : Word) : Json.read? (toJson w).compact = some (toJson w) := by
  rw [Json.read?, Source.read?_compact w.plain_toJson, Option.bind_some, Source.json?_ofJson,
    Option.map_some, w.normalize_toJson]

theorem toJson_inj {v w : Word} : toJson v = toJson w ↔ v = w := by
  constructor
  · intro h
    have hread := congrArg ofJson? h
    rw [ofJson?_toJson, ofJson?_toJson] at hread
    exact Option.some.inj hread
  · rintro rfl
    rfl

theorem compact_toJson_inj {v w : Word} : (toJson v).compact = (toJson w).compact ↔ v = w := by
  constructor
  · intro h
    exact toJson_inj.mp (Json.compact_inj h)
  · rintro rfl
    rfl

/-- A word has one form and one text, and both give it back.

The two ways of writing agree.  Words of one form, of one text or of one storage key are the same
word.  What is read as a word is written and read again as that word, and the only other values
that are read as it are those that denote the same number. -/
theorem told_by_form :
    (∀ w : Word, ofJson? (toJson w) = some w ∧ w.toValue = toJson w ∧
      (Json.read? (toJson w).compact).bind ofJson? = some w) ∧
    (∀ v w : Word, (toJson v = toJson w ↔ v = w) ∧
      ((toJson v).compact = (toJson w).compact ↔ v = w) ∧
      (v.storageKey = w.storageKey ↔ v = w)) ∧
    ∀ (j : Json) (w : Word), ofJson? j = some w →
      ofJson? (toJson w) = some w ∧
      ∀ k, ofJson? k = some w ↔ k = j ∨ ∃ q, j.number? = some q ∧ k.number? = some q := by
  refine ⟨?forms, ?words, ?values⟩
  case forms =>
    intro w
    refine ⟨w.ofJson?_toJson, w.toValue_eq_toJson, ?_⟩
    rw [read?_compact_toJson, Option.bind_some, ofJson?_toJson]
  case words =>
    intro v w
    exact ⟨toJson_inj, compact_toJson_inj, storageKey_inj⟩
  case values =>
    intro j w h
    exact ⟨w.ofJson?_toJson, fun k => ofJson?_eq_iff_of_eq h⟩

/-- Minus a half is read from its own form, from other terms and from the least integer. -/
theorem told_by_form_half :
    let half : Word := .number ⟨-1, 2, by decide, by decide, by decide, by decide⟩
    ofJson? (.arr [.int 2, .int (-4)]) = some half ∧
      ofJson? (.arr [.int (-1), .int 2]) = some half ∧
      ofJson? (.arr [.int 4611686018427387904, .int (-9223372036854775808)]) = some half := by
  intro half
  have hread : ofJson? (.arr [.int 2, .int (-4)]) = some half := by decide
  obtain ⟨hagain, hothers⟩ := told_by_form.2.2 _ half hread
  refine ⟨hread, hagain, (hothers _).mpr (.inr ⟨-1 / 2, ?_, ?_⟩)⟩
  · rw [Json.number?_pair (by decide) (by decide) (by decide)]
    norm_num
  · rw [Json.number?_pair (by decide) (by decide) (by decide)]
    norm_num

end Word

end WorkLedger
