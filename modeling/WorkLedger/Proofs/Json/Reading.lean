/-
# Reading what was written

A value whose numbers are integers of 64 bits is read back from its text as it was: the reader
finds each token where the writer put it, and every step of the reader uses up a character, so
that the length of the text is fuel enough.
-/
import WorkLedger.Json.Reader
import WorkLedger.Proofs.Json.Source

namespace WorkLedger

/-! ## Integers -/

namespace Literal

/-- Digits that spell a number of 64 bits are all taken in. -/
theorem takeWhole_of_lt {ds : List Char} {m : Nat}
    (h : Nat.ofDigitChars 10 ds m < UInt64.size) :
    takeWhole m ds = (Nat.ofDigitChars 10 ds m, 0) := by
  induction ds generalizing m with
  | nil => rfl
  | cons c rest ih =>
      rw [Nat.ofDigitChars_cons] at h ⊢
      have hnext : 10 * m + digit c ≤ Nat.ofDigitChars 10 rest (10 * m + digit c) := by
        rw [Nat.ofDigitChars_eq_ofDigitChars_zero]
        have hpow : 1 ≤ 10 ^ rest.length := Nat.one_le_pow _ _ (by decide)
        exact Nat.le_trans (Nat.le_mul_of_pos_left _ hpow) (Nat.le_add_right _ _)
      have hlt : 10 * m + digit c < UInt64.size := Nat.lt_of_le_of_lt hnext h
      simp only [takeWhole, if_pos hlt]
      exact ih h

theorem takeWhole_toDigits {n : Nat} (h : n < UInt64.size) :
    takeWhole 0 (Nat.toDigits 10 n) = (n, 0) := by
  have hvalue : Nat.ofDigitChars 10 (Nat.toDigits 10 n) 0 = n := Nat.ofDigitChars_ten_toDigits
  have hlt : Nat.ofDigitChars 10 (Nat.toDigits 10 n) 0 < UInt64.size := by
    rw [hvalue]
    exact h
  have htake := takeWhole_of_lt hlt
  rw [hvalue] at htake
  exact htake

/-- The literal of an integer of 64 bits denotes the integer. -/
theorem number?_ofInt {i : Int} (h : (Number.int i).inRange = true) :
    (ofInt i).number? = some (.int i) := by
  obtain ⟨hlow, hhigh⟩ := Number.inRange_int.mp h
  cases i with
  | ofNat n =>
      have hlt : n < UInt64.size := Int.ofNat_lt.mp hhigh
      have hwhole : takeWhole 0 (ofInt (.ofNat n)).whole = (n, 0) := takeWhole_toDigits hlt
      simp only [number?, hwhole]
      rfl
  | negSucc n =>
      have hle : n + 1 ≤ 0x8000000000000000 := by omega
      have hlt : n + 1 < UInt64.size := Nat.lt_of_le_of_lt hle (by decide)
      have hsmall : ¬ (n + 1 = 0 ∨ 0x8000000000000000 < n + 1) := by omega
      rw [ofInt_negSucc]
      simp only [number?, takeWhole_toDigits hlt, if_neg hsmall]
      rfl

end Literal

/-! ## The length of a text -/

namespace Json

theorem length_lt_writeString (s : String) (r : List Char) :
    r.length < (writeString s r).length := by
  have hescape : ∀ (c : Char) (r : List Char), r.length ≤ (escape c r).length := by
    intro c r
    unfold escape
    repeat' split
    all_goals simp only [List.length_cons]; omega
  have hfold : ∀ (cs : List Char), r.length < (cs.foldr escape ('"' :: r)).length := by
    intro cs
    induction cs with
    | nil => exact Nat.lt_succ_self _
    | cons c cs ih => exact Nat.lt_of_lt_of_le ih (hescape c _)
  exact Nat.lt_succ_of_lt (hfold s.toList)

mutual

theorem length_lt_write : ∀ (a : Json) (r : List Char), r.length < (write a r).length
  | .null, r => by simp only [write, List.length_cons]; omega
  | .bool true, r => by simp only [write, List.length_cons]; omega
  | .bool false, r => by simp only [write, List.length_cons]; omega
  | .num n, r => by
      obtain ⟨c, cs, htext, -⟩ := n.exists_text_eq_cons
      simp only [write, htext, List.length_append, List.length_cons]
      omega
  | .str s, r => length_lt_writeString s r
  | .arr [], r => by simp only [write, List.length_cons]; omega
  | .arr (x :: items), r => by
      have hx := length_lt_write x (writeItems items r)
      have hitems := length_lt_writeItems items r
      simp only [write, List.length_cons]
      omega
  | .obj [], r => by simp only [write, List.length_cons]; omega
  | .obj ((k, v) :: members), r => by
      have hkey := length_lt_writeString k (':' :: write v (writeMembers members r))
      have hv := length_lt_write v (writeMembers members r)
      have hmembers := length_lt_writeMembers members r
      simp only [write, List.length_cons] at hkey ⊢
      omega

theorem length_lt_writeItems : ∀ (items : List Json) (r : List Char),
    r.length < (writeItems items r).length
  | [], r => Nat.lt_succ_self _
  | x :: items, r => by
      have hx := length_lt_write x (writeItems items r)
      have hitems := length_lt_writeItems items r
      simp only [writeItems, List.length_cons]
      omega

theorem length_lt_writeMembers : ∀ (members : List (String × Json)) (r : List Char),
    r.length < (writeMembers members r).length
  | [], r => Nat.lt_succ_self _
  | (k, v) :: members, r => by
      have hkey := length_lt_writeString k (':' :: write v (writeMembers members r))
      have hv := length_lt_write v (writeMembers members r)
      have hmembers := length_lt_writeMembers members r
      simp only [writeMembers, List.length_cons] at hkey ⊢
      omega

end

end Json

/-! ## Values -/

namespace Reader

/-- No blank stands in front of a value. -/
theorem skipBlank_write (a : Json) (r : List Char) :
    skipBlank (Json.write a r) = Json.write a r := by
  obtain ⟨c, cs, hwrite, hlead⟩ := Json.exists_write_eq_cons a r
  have hblank : isBlank c = false := by
    rw [Bool.eq_false_iff]
    intro hc
    have hkept : Json.leadOf c = c ∧ c ∈ [' ', '\n', '\t', '\r'] := by
      unfold isBlank at hc
      simp only [Bool.or_eq_true, decide_eq_true_eq] at hc
      rcases hc with ((rfl | rfl) | rfl) | rfl <;> decide
    rw [← hkept.1, hlead] at hkept
    cases a <;> exact absurd hkept.2 (by simp [Json.lead])
  rw [hwrite, skipBlank, List.dropWhile_cons, hblank]
  rfl

/-- A number is told by its first character. -/
theorem readValue_number (fuel : Nat) (n : Number) (r : List Char) :
    readValue (fuel + 1) (n.text ++ r) =
      (readNumber (n.text ++ r)).map fun read => (.num read.1.number?, read.2) := by
  have hskip := skipBlank_write (.num n) r
  obtain ⟨c, cs, hwrite, hlead⟩ := Json.exists_write_eq_cons (.num n) r
  rw [Json.write] at hskip hwrite
  have hne : ∀ (d : Char) (ds : List Char), Json.leadOf d ≠ '0' → n.text ++ r ≠ d :: ds := by
    intro d ds hd heq
    rw [hwrite] at heq
    rw [(List.cons.inj heq).1] at hlead
    exact hd hlead
  rw [readValue, hskip]
  split
  · exact absurd ‹_› (hne _ _ (by decide))
  · exact absurd ‹_› (hne _ _ (by decide))
  · exact absurd ‹_› (hne _ _ (by decide))
  · exact absurd ‹_› (hne _ _ (by decide))
  · exact absurd ‹_› (hne _ _ (by decide))
  · exact absurd ‹_› (hne _ _ (by decide))
  · cases readNumber (n.text ++ r) <;> rfl

theorem readValue_str (fuel : Nat) (s : String) (r : List Char) :
    readValue (fuel + 1) (Json.writeString s r) = some (.str (some s), r) := by
  have hread := readString_writeString s r
  rw [Json.writeString, List.tail_cons] at hread
  have hskip : ∀ cs, skipBlank ('"' :: cs) = '"' :: cs := fun _ => rfl
  simp only [Json.writeString, readValue, hskip, hread]

theorem readValue_arr {fuel : Nat} {x : Source} {items : List Source} {cs r r' : List Char}
    (hblank : skipBlank cs = cs) (hend : ∀ rest, cs ≠ ']' :: rest)
    (hx : readValue fuel cs = some (x, r)) (hitems : readItems fuel r = some (items, r')) :
    readValue (fuel + 1) ('[' :: cs) = some (.arr (x :: items), r') := by
  have hskip : skipBlank ('[' :: cs) = '[' :: cs := rfl
  simp only [readValue, hskip, hblank, hx, hitems]

theorem readItems_cons {fuel : Nat} {x : Source} {items : List Source} {cs r r' : List Char}
    (hx : readValue fuel cs = some (x, r)) (hitems : readItems fuel r = some (items, r')) :
    readItems (fuel + 1) (',' :: cs) = some (x :: items, r') := by
  have hskip : skipBlank (',' :: cs) = ',' :: cs := rfl
  simp only [readItems, hskip, hx, hitems]

theorem readMember_writeString {fuel : Nat} {x : Source} {cs r : List Char} (key : String)
    (hx : readValue fuel cs = some (x, r)) :
    readMember (fuel + 1) (Json.writeString key (':' :: cs)) = some ((some key, x), r) := by
  have hread := readString_writeString key (':' :: cs)
  rw [Json.writeString, List.tail_cons] at hread
  have hquote : ∀ cs, skipBlank ('"' :: cs) = '"' :: cs := fun _ => rfl
  have hcolon : skipBlank (':' :: cs) = ':' :: cs := rfl
  simp only [Json.writeString, readMember, hquote, hread, hcolon, hx]

theorem readValue_obj {fuel : Nat} {m : Option String × Source}
    {members : List (Option String × Source)} {key : String} {cs r r' : List Char}
    (hm : readMember fuel (Json.writeString key cs) = some (m, r))
    (hmembers : readMembers fuel r = some (members, r')) :
    readValue (fuel + 1) ('{' :: Json.writeString key cs) = some (.obj (m :: members), r') := by
  have hbrace : ∀ cs, skipBlank ('{' :: cs) = '{' :: cs := fun _ => rfl
  have hquote : ∀ cs, skipBlank ('"' :: cs) = '"' :: cs := fun _ => rfl
  rw [Json.writeString] at hm ⊢
  simp only [readValue, hbrace, hquote]
  split
  · exact absurd (List.cons.inj ‹_›).1 (by decide)
  · simp only [hm, hmembers]

theorem readMembers_cons {fuel : Nat} {m : Option String × Source}
    {members : List (Option String × Source)} {cs r r' : List Char}
    (hm : readMember fuel cs = some (m, r)) (hmembers : readMembers fuel r = some (members, r')) :
    readMembers (fuel + 1) (',' :: cs) = some (m :: members, r') := by
  have hskip : skipBlank (',' :: cs) = ',' :: cs := rfl
  simp only [readMembers, hskip, hm, hmembers]

mutual

/-- A value is read from its text as it is, whatever container it stands in.  What is left of
the fuel covers the part of the text that is still to be read. -/
theorem readValue_write : ∀ {a : Json} {r : List Char} {fuel : Nat}, a.floatFree = true →
    a.inRange = true → Json.Ended r → (Json.write a r).length ≤ fuel + r.length →
    readValue fuel (Json.write a r) = some (.ofJson a, r)
  | a, r, 0, _, _, _, hfuel => by
      have hlength := Json.length_lt_write a r
      omega
  | .null, _, _ + 1, _, _, _, _ => rfl
  | .bool true, _, _ + 1, _, _, _, _ => rfl
  | .bool false, _, _ + 1, _, _, _, _ => rfl
  | .num (.int i), r, _ + 1, _, hrange, hr, _ => by
      rw [Json.write, readValue_number, readNumber_int i hr, Option.map_some,
        Literal.number?_ofInt hrange]
      rfl
  | .str s, r, fuel + 1, _, _, _, _ => readValue_str fuel s r
  | .arr [], _, _ + 1, _, _, _, _ => rfl
  | .arr (x :: items), r, fuel + 1, ha, hrange, _, hfuel => by
      simp only [Json.floatFree, Json.floatFreeItems, Bool.and_eq_true] at ha
      simp only [Json.inRange, Json.inRangeItems, Bool.and_eq_true] at hrange
      have hlength := Json.length_lt_writeItems items r
      have hlonger := Json.length_lt_write x (Json.writeItems items r)
      simp only [Json.write, List.length_cons] at hfuel
      have hfirst : (Json.write x (Json.writeItems items r)).length ≤
          fuel + (Json.writeItems items r).length := by omega
      have hothers : (Json.writeItems items r).length ≤ fuel + r.length := by omega
      have hx := readValue_write ha.1 hrange.1 (Json.ended_writeItems items r) hfirst
      have hitems := readItems_write ha.2 hrange.2 hothers
      exact readValue_arr (skipBlank_write x _)
        (fun rest heq => Json.write_ne_cons x (by decide) rest _ heq.symm) hx hitems
  | .obj [], _, _ + 1, _, _, _, _ => rfl
  | .obj ((k, v) :: members), r, fuel + 1, ha, hrange, _, hfuel => by
      simp only [Json.floatFree, Json.floatFreeMembers, Bool.and_eq_true] at ha
      simp only [Json.inRange, Json.inRangeMembers, Bool.and_eq_true] at hrange
      have hlength := Json.length_lt_writeMembers members r
      have hlonger := Json.length_lt_write v (Json.writeMembers members r)
      have hkey := Json.length_lt_writeString k (':' :: Json.write v (Json.writeMembers members r))
      simp only [Json.write, List.length_cons] at hfuel hkey
      have hfirst : (Json.writeString k
          (':' :: Json.write v (Json.writeMembers members r))).length ≤
          fuel + (Json.writeMembers members r).length := by omega
      have hothers : (Json.writeMembers members r).length ≤ fuel + r.length := by omega
      have hm := readMember_write k ha.1 hrange.1 (Json.ended_writeMembers members r) hfirst
      have hmembers := readMembers_write ha.2 hrange.2 hothers
      exact readValue_obj hm hmembers

theorem readItems_write : ∀ {items : List Json} {r : List Char} {fuel : Nat},
    Json.floatFreeItems items = true → Json.inRangeItems items = true →
    (Json.writeItems items r).length ≤ fuel + r.length →
    readItems fuel (Json.writeItems items r) = some (Source.ofItems items, r)
  | items, r, 0, _, _, hfuel => by
      have hlength := Json.length_lt_writeItems items r
      omega
  | [], _, _ + 1, _, _, _ => rfl
  | x :: items, r, fuel + 1, ha, hrange, hfuel => by
      simp only [Json.floatFreeItems, Bool.and_eq_true] at ha
      simp only [Json.inRangeItems, Bool.and_eq_true] at hrange
      have hlength := Json.length_lt_writeItems items r
      have hlonger := Json.length_lt_write x (Json.writeItems items r)
      simp only [Json.writeItems, List.length_cons] at hfuel
      have hfirst : (Json.write x (Json.writeItems items r)).length ≤
          fuel + (Json.writeItems items r).length := by omega
      have hothers : (Json.writeItems items r).length ≤ fuel + r.length := by omega
      have hx := readValue_write ha.1 hrange.1 (Json.ended_writeItems items r) hfirst
      have hitems := readItems_write ha.2 hrange.2 hothers
      exact readItems_cons hx hitems

theorem readMember_write : ∀ {v : Json} {r : List Char} {fuel : Nat} (k : String),
    v.floatFree = true → v.inRange = true → Json.Ended r →
    (Json.writeString k (':' :: Json.write v r)).length ≤ fuel + r.length →
    readMember fuel (Json.writeString k (':' :: Json.write v r)) = some ((some k, .ofJson v), r)
  | v, r, 0, k, _, _, _, hfuel => by
      have hkey := Json.length_lt_writeString k (':' :: Json.write v r)
      have hlength := Json.length_lt_write v r
      simp only [List.length_cons] at hkey
      omega
  | v, r, fuel + 1, k, ha, hrange, hr, hfuel => by
      have hkey := Json.length_lt_writeString k (':' :: Json.write v r)
      simp only [List.length_cons] at hkey
      exact readMember_writeString k (readValue_write ha hrange hr (by omega))

theorem readMembers_write : ∀ {members : List (String × Json)} {r : List Char} {fuel : Nat},
    Json.floatFreeMembers members = true →
    Json.inRangeMembers members = true →
    (Json.writeMembers members r).length ≤ fuel + r.length →
    readMembers fuel (Json.writeMembers members r) = some (Source.ofMembers members, r)
  | members, r, 0, _, _, hfuel => by
      have hlength := Json.length_lt_writeMembers members r
      omega
  | [], _, _ + 1, _, _, _ => rfl
  | (k, v) :: members, r, fuel + 1, ha, hrange, hfuel => by
      simp only [Json.floatFreeMembers, Bool.and_eq_true] at ha
      simp only [Json.inRangeMembers, Bool.and_eq_true] at hrange
      have hlength := Json.length_lt_writeMembers members r
      have hlonger := Json.length_lt_write v (Json.writeMembers members r)
      have hkey := Json.length_lt_writeString k (':' :: Json.write v (Json.writeMembers members r))
      simp only [Json.writeMembers, List.length_cons] at hfuel hkey
      have hfirst : (Json.writeString k
          (':' :: Json.write v (Json.writeMembers members r))).length ≤
          fuel + (Json.writeMembers members r).length := by omega
      have hothers : (Json.writeMembers members r).length ≤ fuel + r.length := by omega
      have hm := readMember_write k ha.1 hrange.1 (Json.ended_writeMembers members r) hfirst
      have hmembers := readMembers_write ha.2 hrange.2 hothers
      exact readMembers_cons hm hmembers

end

end Reader

/-! ## What is read -/

namespace Literal

theorem takeWhole_lt : ∀ {ds : List Char} {m : Nat}, m < UInt64.size →
    (takeWhole m ds).1 < UInt64.size
  | [], _, h => h
  | c :: rest, m, h => by
      simp only [takeWhole]
      split
      · rename_i hnext
        exact takeWhole_lt hnext
      · exact h

theorem inRange_of_float? {negative : Bool} {significand : Nat} {e : Int} {n : Number}
    (h : float? negative significand e = some n) : n.inRange = true := by
  obtain ⟨f, -, rfl⟩ := Option.map_eq_some_iff.mp h
  rfl

/-- An integer that a literal denotes has 64 bits. -/
theorem inRange_of_number? {l : Literal} {n : Number} (h : l.number? = some n) :
    n.inRange = true := by
  have hwhole : (takeWhole 0 l.whole).1 < UInt64.size := takeWhole_lt (by decide)
  have hsize : UInt64.size = 18446744073709551616 := rfl
  simp only [number?] at h
  split at h
  · split at h
    · cases h
      exact Number.inRange_int.mpr (by omega)
    · split at h
      · exact inRange_of_float? h
      · cases h
        exact Number.inRange_int.mpr (by omega)
  · split at h
    · exact inRange_of_float? h
    · split at h
      · exact inRange_of_float? h
      · split at h
        · exact nomatch h
        · exact inRange_of_float? h

end Literal

namespace Reader

mutual

/-- Every integer that is read has 64 bits. -/
theorem inRange_of_readValue : ∀ {fuel : Nat} {cs r : List Char} {s : Source},
    readValue fuel cs = some (s, r) → s.inRange = true
  | 0, _, _, _, h => nomatch h
  | fuel + 1, cs, r, s, h => by
      unfold readValue at h
      split at h
      · cases h; rfl
      · cases h; rfl
      · cases h; rfl
      · split at h
        · exact nomatch h
        · cases h; rfl
      · split at h
        · cases h; rfl
        · split at h
          · exact nomatch h
          · rename_i hx
            split at h
            · exact nomatch h
            · rename_i hitems
              cases h
              simp only [Source.inRange, Source.inRangeItems, inRange_of_readValue hx,
                inRange_of_readItems hitems, Bool.and_self]
      · split at h
        · cases h; rfl
        · split at h
          · exact nomatch h
          · rename_i hm
            split at h
            · exact nomatch h
            · rename_i hmembers
              cases h
              simp only [Source.inRange, Source.inRangeMembers, inRange_of_readMember hm,
                inRange_of_readMembers hmembers, Bool.and_self]
      · split at h
        · exact nomatch h
        · rename_i l rest hl
          cases h
          cases hn : l.number? with
          | none => rfl
          | some n => exact Literal.inRange_of_number? hn

theorem inRange_of_readItems : ∀ {fuel : Nat} {cs r : List Char} {items : List Source},
    readItems fuel cs = some (items, r) → Source.inRangeItems items = true
  | 0, _, _, _, h => nomatch h
  | fuel + 1, cs, r, items, h => by
      unfold readItems at h
      split at h
      · cases h; rfl
      · split at h
        · exact nomatch h
        · rename_i hx
          split at h
          · exact nomatch h
          · rename_i hitems
            cases h
            simp only [Source.inRangeItems, inRange_of_readValue hx,
              inRange_of_readItems hitems, Bool.and_self]
      · exact nomatch h

theorem inRange_of_readMember : ∀ {fuel : Nat} {cs r : List Char} {m : Option String × Source},
    readMember fuel cs = some (m, r) → m.2.inRange = true
  | 0, _, _, _, h => nomatch h
  | fuel + 1, cs, r, m, h => by
      unfold readMember at h
      split at h
      · split at h
        · exact nomatch h
        · split at h
          · split at h
            · exact nomatch h
            · rename_i hx
              cases h
              exact inRange_of_readValue hx
          · exact nomatch h
      · exact nomatch h

theorem inRange_of_readMembers : ∀ {fuel : Nat} {cs r : List Char}
    {members : List (Option String × Source)}, readMembers fuel cs = some (members, r) →
    Source.inRangeMembers members = true
  | 0, _, _, _, h => nomatch h
  | fuel + 1, cs, r, members, h => by
      unfold readMembers at h
      split at h
      · cases h; rfl
      · split at h
        · exact nomatch h
        · rename_i hm
          split at h
          · exact nomatch h
          · rename_i hmembers
            cases h
            simp only [Source.inRangeMembers, inRange_of_readMember hm,
              inRange_of_readMembers hmembers, Bool.and_self]
      · exact nomatch h

end

end Reader

theorem Source.inRange_of_read? {text : String} {s : Source} (h : read? text = some s) :
    s.inRange = true := by
  simp only [read?] at h
  split at h
  · exact nomatch h
  · rename_i hread
    split at h
    · cases h
      exact Reader.inRange_of_readValue hread
    · exact nomatch h

/-- A value of integers of 64 bits is read back from its text. -/
theorem Source.read?_compact {a : Json} (ha : a.Plain) : read? a.compact = some (.ofJson a) := by
  have hfuel : (Json.write a []).length ≤
      2 * (Json.write a []).length + 2 + ([] : List Char).length := by
    rw [List.length_nil]
    omega
  have hend : Json.Ended [] := trivial
  have hread := Reader.readValue_write ha.floatFree ha.inRange hend hfuel
  simp only [read?, Json.compact, String.toList_ofList, hread]
  rfl

end WorkLedger
