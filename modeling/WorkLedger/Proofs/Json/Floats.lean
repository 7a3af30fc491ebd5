/-
# The text of a float tells the float

A float is written as a decimal that reads back as it.  Whichever layout was chosen, the text is
read as a literal of that decimal: digits with a point among them or an exponent behind them,
which no integer has.  So numbers are told from their texts, integers and floats alike.
-/
import Mathlib.Data.List.TakeWhile
import Mathlib.Tactic.FieldSimp
import WorkLedger.Proofs.Json.Intervals
import WorkLedger.Proofs.Json.Numbers

namespace WorkLedger

/-! ## The decimal of a literal -/

namespace Literal

theorem digitsValue_toDigits (n : Nat) : digitsValue (Nat.toDigits 10 n) = n :=
  Nat.ofDigitChars_ten_toDigits

theorem digitsValue_append (ds es : List Char) :
    digitsValue (ds ++ es) = digitsValue ds * 10 ^ es.length + digitsValue es := by
  have hstart : digitsValue (ds ++ es) = Nat.ofDigitChars 10 es (digitsValue ds) :=
    List.foldl_append
  rw [hstart, Nat.ofDigitChars_eq_ofDigitChars_zero, Nat.mul_comm]
  rfl

theorem digitsValue_zeros (n : Nat) : digitsValue (List.replicate n '0') = 0 := by
  induction n with
  | zero => rfl
  | succ n ih =>
      rw [List.replicate_succ]
      exact ih

/-- The exponent that a literal spells. -/
def power (l : Literal) : Int :=
  match l.exponent with
  | none => 0
  | some (below, ds) => if below then -(digitsValue ds : Int) else digitsValue ds

/-- The number that a literal spells, its sign aside. -/
def decimal (l : Literal) : ℚ :=
  digitsValue (l.whole ++ l.fraction) * 10 ^ (l.power - l.fraction.length)

/-- What a literal says: a sign and a decimal, and that it is no literal of an integer. -/
structure Says (l : Literal) (negative : Bool) (x : ℚ) : Prop where
  sign : l.negative = negative
  shape : l.fraction ≠ [] ∨ l.exponent ≠ none
  decimal : l.decimal = x

end Literal

/-! ## Layouts -/

theorem isDigit_of_mem_zeros {n : Nat} {c : Char} (hc : c ∈ List.replicate n '0') :
    c.isDigit = true := by
  rw [List.eq_of_mem_replicate hc]
  rfl

namespace Reader

variable {r : List Char}

/-- Digits around a point are read as a decimal. -/
theorem exists_readUnsigned_point {whole fraction : List Char} (negative : Bool)
    (hwhole : ∀ c ∈ whole, c.isDigit = true) (hne : whole ≠ [])
    (hzero : ∀ c cs, whole ≠ '0' :: c :: cs) (hfraction : ∀ c ∈ fraction, c.isDigit = true)
    (hsome : fraction ≠ []) (hr : Json.Ended r) :
    ∃ l, readUnsigned negative (whole ++ '.' :: (fraction ++ r)) = some (l, r) ∧
      l.Says negative
        (Literal.digitsValue (whole ++ fraction) * 10 ^ (-(fraction.length : Int))) := by
  have hpoint : Json.Delimited ('.' :: (fraction ++ r)) := rfl
  have hread := readUnsigned_append negative hwhole hne hzero hpoint
    (readFraction_point hsome hfraction hr.delimited) (readExponent_of_ended hr)
  refine ⟨_, hread, rfl, .inl hsome, ?_⟩
  simp only [Literal.decimal, Literal.power, zero_sub]

end Reader

namespace Binary64

variable {ds r : List Char} {e : Int}

/-- A number below one: the digits follow a zero, the point and further zeros. -/
theorem readUnsigned_below_one (negative : Bool) (hds : ∀ c ∈ ds, c.isDigit = true)
    (hne : ds ≠ []) (he : e < 0) (hr : Json.Ended r) :
    ∃ l, Reader.readUnsigned negative
        ('0' :: '.' :: (List.replicate (-e - 1).toNat '0' ++ ds) ++ r) = some (l, r) ∧
      l.Says negative (Literal.digitsValue ds * 10 ^ (e + 1 - ds.length)) := by
  have hwhole : ∀ c ∈ ['0'], c.isDigit = true := fun _ => isDigit_of_mem_zeros (n := 1)
  have hzero : ∀ c cs, ['0'] ≠ '0' :: c :: cs := by simp
  have hfraction : ∀ c ∈ List.replicate (-e - 1).toNat '0' ++ ds, c.isDigit = true := by
    intro c hc
    rcases List.mem_append.mp hc with hc | hc
    · exact isDigit_of_mem_zeros hc
    · exact hds c hc
  have hread := Reader.exists_readUnsigned_point negative hwhole (List.cons_ne_nil _ _) hzero hfraction
    (List.append_ne_nil_of_right_ne_nil _ hne) hr
  have hlength : -((List.replicate (-e - 1).toNat '0' ++ ds).length : Int) = e + 1 - ds.length := by
    rw [List.length_append, List.length_replicate]
    omega
  have hone : Literal.digitsValue ['0'] = 0 := rfl
  rwa [hlength, Literal.digitsValue_append, Literal.digitsValue_append, hone,
    Literal.digitsValue_zeros, Nat.zero_mul, Nat.zero_mul, Nat.zero_add, Nat.zero_add] at hread

/-- A whole number: zeros fill the digits up to the point, and one stands behind it. -/
theorem readUnsigned_whole (negative : Bool) (hds : ∀ c ∈ ds, c.isDigit = true) (hne : ds ≠ [])
    (hzero : ds.head? ≠ some '0') (n : Nat) (hr : Json.Ended r) :
    ∃ l, Reader.readUnsigned negative (ds ++ List.replicate n '0' ++ ['.', '0'] ++ r) =
        some (l, r) ∧ l.Says negative (Literal.digitsValue ds * 10 ^ (n : Int)) := by
  have hwhole : ∀ c ∈ ds ++ List.replicate n '0', c.isDigit = true := by
    intro c hc
    rcases List.mem_append.mp hc with hc | hc
    · exact hds c hc
    · exact isDigit_of_mem_zeros hc
  have hfirst : ∀ c cs, ds ++ List.replicate n '0' ≠ '0' :: c :: cs := by
    intro c cs heq
    have hhead := congrArg List.head? heq
    rw [List.head?_append_of_ne_nil _ hne] at hhead
    exact hzero hhead
  have hfraction : ∀ c ∈ ['0'], c.isDigit = true := fun _ => isDigit_of_mem_zeros (n := 1)
  have hread := Reader.exists_readUnsigned_point negative hwhole
    (List.append_ne_nil_of_left_ne_nil hne _) hfirst hfraction (List.cons_ne_nil _ _) hr
  have hone : Literal.digitsValue ['0'] = 0 := rfl
  have hvalue : (Literal.digitsValue (ds ++ List.replicate n '0' ++ ['0']) : ℚ) *
      10 ^ (-((['0'] : List Char).length : Int)) = Literal.digitsValue ds * 10 ^ (n : Int) := by
    rw [Literal.digitsValue_append, Literal.digitsValue_append, Literal.digitsValue_zeros, hone,
      List.length_replicate, List.length_singleton, zpow_natCast]
    push_cast
    field_simp
    ring
  rw [hvalue] at hread
  rwa [List.append_assoc]

/-- The point stands among the digits. -/
theorem readUnsigned_among (negative : Bool) (hds : ∀ c ∈ ds, c.isDigit = true)
    (hzero : ds.head? ≠ some '0') {n : Nat} (hn : n + 1 < ds.length) (hr : Json.Ended r) :
    ∃ l, Reader.readUnsigned negative (ds.take (n + 1) ++ '.' :: ds.drop (n + 1) ++ r) =
        some (l, r) ∧
      l.Says negative (Literal.digitsValue ds * 10 ^ ((n : Int) + 1 - ds.length)) := by
  have htake : ds.take (n + 1) ≠ [] := by
    intro hnil
    have hlength := congrArg List.length hnil
    rw [List.length_take, List.length_nil] at hlength
    omega
  have hdrop : ds.drop (n + 1) ≠ [] := fun hnil => absurd (List.drop_eq_nil_iff.mp hnil) (by omega)
  have hfirst : ∀ c cs, ds.take (n + 1) ≠ '0' :: c :: cs := by
    intro c cs heq
    have hhead := congrArg List.head? heq
    rw [List.head?_take, if_neg (Nat.succ_ne_zero n)] at hhead
    exact hzero hhead
  have hread := Reader.exists_readUnsigned_point negative
    (fun c hc => hds c (List.mem_of_mem_take hc)) htake hfirst
    (fun c hc => hds c (List.mem_of_mem_drop hc)) hdrop hr
  have hlength : -((ds.drop (n + 1)).length : Int) = n + 1 - ds.length := by
    rw [List.length_drop]
    omega
  rw [hlength, List.take_append_drop] at hread
  simpa only [List.append_assoc, List.cons_append] using hread

/-- Digits around a point are read as the decimal that they stand for. -/
theorem readUnsigned_positional (negative : Bool) (hds : ∀ c ∈ ds, c.isDigit = true)
    (hne : ds ≠ []) (hzero : ds.head? ≠ some '0') (hr : Json.Ended r) :
    ∃ l, Reader.readUnsigned negative (positional ds e ++ r) = some (l, r) ∧
      l.Says negative (Literal.digitsValue ds * 10 ^ (e + 1 - ds.length)) := by
  unfold positional
  split
  · exact readUnsigned_below_one negative hds hne ‹_› hr
  · dsimp only
    split
    · have hlength : ((e.toNat + 1 - ds.length : Nat) : Int) = e + 1 - ds.length := by omega
      rw [← hlength]
      exact readUnsigned_whole negative hds hne hzero _ hr
    · have hexponent : ((e.toNat : Nat) : Int) = e := by omega
      have hread := readUnsigned_among negative hds hzero (Nat.not_le.mp ‹_›) hr
      rwa [hexponent] at hread

/-- One digit before the point and an exponent are read as the decimal that they stand for. -/
theorem readUnsigned_scientific (negative : Bool) (hds : ∀ c ∈ ds, c.isDigit = true)
    (hne : ds ≠ []) (hr : Json.Ended r) :
    ∃ l, Reader.readUnsigned negative (scientific ds e ++ r) = some (l, r) ∧
      l.Says negative (Literal.digitsValue ds * 10 ^ (e + 1 - ds.length)) := by
  obtain ⟨d, rest, rfl⟩ := List.exists_cons_of_ne_nil hne
  have hwhole : ∀ c ∈ [d], c.isDigit = true := fun c hc =>
    hds c (List.mem_singleton.mp hc ▸ List.mem_cons_self)
  have hfirst : ∀ c cs, [d] ≠ '0' :: c :: cs := by simp
  have hexponent := Reader.readExponent_e (decide (e < 0)) e.natAbs hr.delimited
  simp only [decide_eq_true_eq] at hexponent
  -- Whatever stands between the digit and the exponent, the literal says the decimal.
  have hsays : Literal.Says
      ⟨negative, [d], rest, some (decide (e < 0), Nat.toDigits 10 e.natAbs)⟩ negative
      (Literal.digitsValue (d :: rest) * 10 ^ (e + 1 - (d :: rest).length)) := by
    refine ⟨rfl, .inr (Option.some_ne_none _), ?_⟩
    have hpower : e - rest.length = e + 1 - (d :: rest).length := by
      rw [List.length_cons]
      omega
    have hsigned : (if e < 0 then -(e.natAbs : Int) else e.natAbs) = e := by
      split <;> omega
    simp only [Literal.decimal, Literal.power, Literal.digitsValue_toDigits, decide_eq_true_eq,
      hsigned, hpower, List.singleton_append]
  refine ⟨_, ?_, hsays⟩
  cases rest with
  | nil =>
      have hdelimited : ∀ cs : List Char, Json.Delimited ('e' :: cs) := fun _ => rfl
      have hfraction : ∀ cs, Reader.readFraction ('e' :: cs) = some ([], 'e' :: cs) := fun _ => rfl
      exact Reader.readUnsigned_append negative hwhole (List.cons_ne_nil _ _) hfirst (hdelimited _)
        (hfraction _) hexponent
  | cons c cs =>
      have hdelimited : ∀ cs : List Char, Json.Delimited ('.' :: cs) := fun _ => rfl
      have hend : ∀ cs : List Char, Json.Delimited ('e' :: cs) := fun _ => rfl
      have htext : scientific (d :: c :: cs) e ++ r = [d] ++ '.' :: (c :: cs ++
          'e' :: (if e < 0 then '-' else '+') :: (Nat.toDigits 10 e.natAbs ++ r)) := by
        simp [scientific]
      rw [htext]
      exact Reader.readUnsigned_append negative hwhole (List.cons_ne_nil _ _) hfirst (hdelimited _)
        (Reader.readFraction_point (List.cons_ne_nil _ _)
          (fun x hx => hds x (List.mem_cons_of_mem d hx)) (hend _)) hexponent

/-- Digits in their layout are read as the decimal that they stand for. -/
theorem readUnsigned_layout (negative : Bool) (hds : ∀ c ∈ ds, c.isDigit = true)
    (hne : ds ≠ []) (hzero : ds.head? ≠ some '0') (hr : Json.Ended r) :
    ∃ l, Reader.readUnsigned negative (layout ds e ++ r) = some (l, r) ∧
      l.Says negative (Literal.digitsValue ds * 10 ^ (e + 1 - ds.length)) := by
  unfold layout
  split
  · exact readUnsigned_positional negative hds hne hzero hr
  · exact readUnsigned_scientific negative hds hne hr

/-! ## The text of a float -/

/-- Trimming takes zeros off the end. -/
theorem exists_eq_trimZeros_append (ds : List Char) :
    ∃ n, ds = trimZeros ds ++ List.replicate n '0' := by
  have hzeros : ∀ c ∈ ds.reverse.takeWhile (· = '0'), c = '0' := by
    intro c hc
    have hzero := List.mem_takeWhile_imp hc
    exact of_decide_eq_true hzero
  have hsplit : ds.reverse.takeWhile (· = '0') ++ ds.reverse.dropWhile (· = '0') = ds.reverse :=
    List.takeWhile_append_dropWhile
  refine ⟨(ds.reverse.takeWhile (· = '0')).length, ?_⟩
  rw [trimZeros, ← List.reverse_replicate, ← List.eq_replicate_of_mem hzeros,
    ← List.reverse_append, hsplit, List.reverse_reverse]

/-- The digits of a number, without the zeros at their end: they are digits, there are some, no
zero is in front, and they stand for the number together with their place. -/
theorem trimZeros_toDigits {n : Nat} (h : 0 < n) :
    (∀ c ∈ trimZeros (Nat.toDigits 10 n), c.isDigit = true) ∧
      trimZeros (Nat.toDigits 10 n) ≠ [] ∧ (trimZeros (Nat.toDigits 10 n)).head? ≠ some '0' ∧
      ∀ last : Int, (Literal.digitsValue (trimZeros (Nat.toDigits 10 n)) : ℚ) *
        10 ^ (last + (Nat.toDigits 10 n).length - 1 + 1 - (trimZeros (Nat.toDigits 10 n)).length) =
          n * 10 ^ last := by
  have hdigits : ∀ c ∈ Nat.toDigits 10 n, c.isDigit = true := fun _ => isDigit_of_mem_toDigits
  have hnil : Nat.toDigits 10 n ≠ [] := Nat.toDigits_ne_nil
  have hhead := head?_toDigits_ne h
  have hvalue := Literal.digitsValue_toDigits n
  obtain ⟨k, hk⟩ := exists_eq_trimZeros_append (Nat.toDigits 10 n)
  generalize trimZeros (Nat.toDigits 10 n) = ds at *
  generalize Nat.toDigits 10 n = all at *
  subst hk
  have hne : ds ≠ [] := by
    rintro rfl
    cases k with
    | zero => exact hnil rfl
    | succ k => exact hhead rfl
  refine ⟨fun c hc => hdigits c (List.mem_append_left _ hc), hne, ?_, fun last => ?_⟩
  · rwa [List.head?_append_of_ne_nil _ hne] at hhead
  · have hplace : last + ((ds ++ List.replicate k '0').length : Int) - 1 + 1 - ds.length =
        k + last := by
      rw [List.length_append, List.length_replicate]
      omega
    rw [Literal.digitsValue_append, Literal.digitsValue_zeros, List.length_replicate,
      Nat.add_zero] at hvalue
    rw [hplace, ← hvalue, zpow_add₀ (by norm_num), zpow_natCast]
    push_cast
    ring

/-- What the literal of a float says: a decimal of the sign of the float that reads back as it. -/
def Spells (l : Literal) (bits : UInt64) : Prop :=
  ∃ x, l.Says (negative bits) x ∧ if significand bits = 0 then x = 0 else ReadsAs x bits

theorem readUnsigned_magnitude (bits : UInt64) (hr : Json.Ended r) :
    ∃ l, Reader.readUnsigned (negative bits) (magnitude bits ++ r) = some (l, r) ∧
      Spells l bits := by
  unfold magnitude
  split
  · rename_i hzero
    have hdigits : ∀ c ∈ ['0'], c.isDigit = true := fun _ => isDigit_of_mem_zeros (n := 1)
    have hfirst : ∀ c cs, ['0'] ≠ '0' :: c :: cs := by simp
    obtain ⟨l, hread, hsays⟩ := Reader.exists_readUnsigned_point (negative bits) hdigits
      (List.cons_ne_nil _ _) hfirst hdigits (List.cons_ne_nil _ _) hr
    have hvalue : Literal.digitsValue (['0'] ++ ['0']) = 0 := rfl
    rw [hvalue, Nat.cast_zero, zero_mul] at hsays
    exact ⟨l, hread, 0, hsays, by rw [if_pos hzero]⟩
  · rename_i hne
    have hreads := readsAs_shortest hne
    generalize (interval bits).shortest = decimal at *
    obtain ⟨n, last⟩ := decimal
    have hpos : 0 < n := by
      refine Nat.pos_of_ne_zero ?_
      rintro rfl
      have hx := hreads.pos hne
      rw [Nat.cast_zero, zero_mul] at hx
      exact lt_irrefl 0 hx
    obtain ⟨hds, hsome, hhead, hvalue⟩ := trimZeros_toDigits hpos
    obtain ⟨l, hread, hsays⟩ := readUnsigned_layout (negative bits)
      (e := last + (Nat.toDigits 10 n).length - 1) hds hsome hhead hr
    rw [hvalue] at hsays
    exact ⟨l, hread, _, hsays, by rwa [if_neg hne]⟩

/-- The text of a float is read as a literal of it. -/
theorem exists_readNumber_text (bits : UInt64) (hr : Json.Ended r) :
    ∃ l, Reader.readNumber (text bits ++ r) = some (l, r) ∧ Spells l bits := by
  obtain ⟨l, hread, hspells⟩ := readUnsigned_magnitude bits hr
  refine ⟨l, ?_, hspells⟩
  unfold text
  cases hsign : negative bits with
  | true =>
      rw [hsign] at hread
      exact hread
  | false =>
      rw [hsign] at hread
      exact Reader.readNumber_of_readUnsigned hread

/-- A literal spells one float only. -/
theorem Spells.inj {l : Literal} {a b : UInt64} (ha : Spells l a) (hb : Spells l b) : a = b := by
  obtain ⟨x, hx, hreads⟩ := ha
  obtain ⟨y, hy, hreads'⟩ := hb
  have hsign : negative a = negative b := hx.sign.symm.trans hy.sign
  obtain rfl : x = y := hx.decimal.symm.trans hy.decimal
  split at hreads
  · rename_i hzero
    subst hreads
    split at hreads'
    · rename_i hzero'
      obtain ⟨hexponent, hfraction⟩ := fields_of_significand_eq_zero hzero
      obtain ⟨hexponent', hfraction'⟩ := fields_of_significand_eq_zero hzero'
      exact eq_of_fields hsign (hexponent.trans hexponent'.symm) (hfraction.trans hfraction'.symm)
    · exact absurd (hreads'.pos ‹_›) (lt_irrefl 0)
  · split at hreads'
    · subst hreads'
      exact absurd (hreads.pos ‹_›) (lt_irrefl 0)
    · obtain ⟨hexponent, hfraction⟩ := fields_eq_of_readsAs hreads hreads'
      exact eq_of_fields hsign hexponent hfraction

end Binary64

/-! ## Numbers -/

/-- What the literal of a number says. -/
def Literal.Spells (l : Literal) : Number → Prop
  | .int i => l = .ofInt i
  | .float bits => Binary64.Spells l bits

/-- A literal spells one number only, and integers are never spelled as floats are. -/
theorem Literal.Spells.inj {l : Literal} {m n : Number} (hm : l.Spells m) (hn : l.Spells n) :
    m = n := by
  have hshape : ∀ (i : Int) (bits : UInt64), l = .ofInt i → ¬ Binary64.Spells l bits := by
    rintro i bits rfl ⟨x, hsays, -⟩
    rcases hsays.shape with hfraction | hexponent
    · exact hfraction rfl
    · exact hexponent rfl
  cases m with
  | int i =>
      cases n with
      | int j => exact congrArg Number.int (Literal.ofInt_inj (hm.symm.trans hn))
      | float b => exact absurd hn (hshape i b hm)
  | float a =>
      cases n with
      | int j => exact absurd hm (hshape j a hn)
      | float b => exact congrArg Number.float (Binary64.Spells.inj hm hn)

/-- The text of a number is read as a literal of it. -/
theorem Number.exists_readNumber (n : Number) {r : List Char} (hr : Json.Ended r) :
    ∃ l, Reader.readNumber (n.text ++ r) = some (l, r) ∧ l.Spells n := by
  cases n with
  | int i => exact ⟨_, Reader.readNumber_int i hr, rfl⟩
  | float bits => exact Binary64.exists_readNumber_text bits hr

/-- The text of a number tells the number and where it ends. -/
theorem Number.text_inj {m n : Number} {r r' : List Char} (hr : Json.Ended r)
    (hr' : Json.Ended r') (h : m.text ++ r = n.text ++ r') : m = n ∧ r = r' := by
  obtain ⟨l, hread, hm⟩ := m.exists_readNumber hr
  obtain ⟨l', hread', hn⟩ := n.exists_readNumber hr'
  rw [h, hread'] at hread
  obtain ⟨rfl, rfl⟩ := Prod.mk.inj (Option.some.inj hread)
  exact ⟨hm.inj hn, rfl⟩

/-- A number starts with a digit or with a minus. -/
theorem Number.exists_text_eq_cons (n : Number) :
    ∃ c cs, n.text = c :: cs ∧ (c.isDigit = true ∨ c = '-') := by
  have hend : Json.Ended [] := trivial
  obtain ⟨l, hread, -⟩ := n.exists_readNumber hend
  rw [List.append_nil] at hread
  exact Reader.exists_eq_cons_of_readNumber hread

end WorkLedger
