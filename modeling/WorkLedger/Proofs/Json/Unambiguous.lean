/-
# The text tells the value

A value can be told from its text, whatever follows the text, as long as that goes on as a
container does.  A string is told because reading gives it back; a number because it is read as
a literal of it; and a container because no text of a value is a continuation of another.
-/
import WorkLedger.Proofs.Json.Floats

namespace WorkLedger

/-! ## Strings -/

namespace Reader

theorem unit?_of_lt : ∀ n, n < 32 →
    unit? '0' '0' (Nat.digitChar (n / 16)) (Nat.digitChar (n % 16)) = some n := by
  decide

theorem readString_plain {c : Char} (hquote : c ≠ '"') (hbackslash : c ≠ '\\')
    (hcontrol : ¬ c.toNat < 0x20) (acc : List Char) (sound : Bool) (rest : List Char) :
    readString acc sound (c :: rest) = readString (c :: acc) sound rest := by
  rw [readString]
  · rw [if_neg (by simp [hbackslash, Nat.not_lt.mp hcontrol])]
  · exact hquote
  · exact fun _ _ _ _ _ h _ => hbackslash h
  · exact fun _ _ h _ => hbackslash h

/-- Reading undoes the escape of a character. -/
theorem readString_escape (c : Char) (acc : List Char) (sound : Bool) (rest : List Char) :
    readString acc sound (Json.escape c rest) = readString (c :: acc) sound rest := by
  unfold Json.escape
  split
  · rename_i h
    subst h
    simp [readString, escaped?]
  split
  · rename_i h
    subst h
    simp [readString, escaped?]
  split
  · rename_i h
    subst h
    simp [readString, escaped?]
  split
  · rename_i h
    subst h
    simp [readString, escaped?]
  split
  · rename_i h
    subst h
    simp [readString, escaped?]
  split
  · rename_i h
    subst h
    simp [readString, escaped?]
  split
  · rename_i h
    subst h
    simp [readString, escaped?]
  split
  · rename_i hcontrol
    have hhigh : isHigh c.toNat = false := by
      unfold isHigh
      simp
      omega
    have hlow : isLow c.toNat = false := by
      unfold isLow
      simp
      omega
    rw [readString, unit?_of_lt c.toNat hcontrol]
    simp [hhigh, hlow, Char.ofNat_toNat]
  · rename_i hquote hbackslash _ _ _ _ _ hcontrol
    exact readString_plain hquote hbackslash hcontrol acc sound rest

theorem readString_foldr_escape (cs acc rest : List Char) :
    readString acc true (cs.foldr Json.escape ('"' :: rest)) =
      some (some (String.ofList (acc.reverse ++ cs)), rest) := by
  induction cs generalizing acc with
  | nil => simp [readString]
  | cons c cs ih =>
      rw [List.foldr_cons, readString_escape, ih]
      simp

/-- Reading a string gives it back, with what follows it. -/
theorem readString_writeString (s : String) (rest : List Char) :
    readString [] true (Json.writeString s rest).tail = some (some s, rest) := by
  show readString [] true (s.toList.foldr Json.escape ('"' :: rest)) = _
  rw [readString_foldr_escape, List.reverse_nil, List.nil_append, String.ofList_toList]

end Reader

namespace Json

theorem writeString_inj {s t : String} {r r' : List Char}
    (h : writeString s r = writeString t r') : s = t ∧ r = r' := by
  have hs := Reader.readString_writeString s r
  rw [h, Reader.readString_writeString] at hs
  cases hs
  exact ⟨rfl, rfl⟩

/-! ## Telling values apart -/

/-- What the first character of a text says about the value: the character itself, but zero for
all that a number starts with, and one letter for both truth values. -/
def leadOf (c : Char) : Char :=
  if c.isDigit || c = '-' then '0' else if c = 'f' then 't' else c

/-- The lead of the text of a value. -/
def lead : Json → Char
  | .null => 'n'
  | .bool _ => 't'
  | .num _ => '0'
  | .str _ => '"'
  | .arr _ => '['
  | .obj _ => '{'

theorem exists_write_eq_cons (a : Json) (r : List Char) :
    ∃ c cs, write a r = c :: cs ∧ leadOf c = a.lead := by
  cases a with
  | null => exact ⟨_, _, rfl, rfl⟩
  | bool b => cases b <;> exact ⟨_, _, rfl, rfl⟩
  | num n =>
      obtain ⟨c, cs, hn, hc⟩ := n.exists_text_eq_cons
      refine ⟨c, cs ++ r, by rw [write, hn]; rfl, ?_⟩
      rcases hc with hc | rfl
      · simp [leadOf, hc, lead]
      · rfl
  | str s => exact ⟨_, _, rfl, rfl⟩
  | arr items => cases items <;> exact ⟨_, _, rfl, rfl⟩
  | obj members => cases members <;> exact ⟨_, _, rfl, rfl⟩

theorem lead_eq_of_write_eq {a b : Json} {r r' : List Char} (h : write a r = write b r') :
    a.lead = b.lead := by
  obtain ⟨c, cs, hac, hlead⟩ := exists_write_eq_cons a r
  obtain ⟨d, ds, hbd, hlead'⟩ := exists_write_eq_cons b r'
  rw [hac, hbd] at h
  rw [← hlead, ← hlead', (List.cons.inj h).1]

/-- No value starts as a container ends. -/
theorem write_ne_cons (a : Json) {c : Char} (hc : leadOf c ∈ [']', '}']) (r r' : List Char) :
    c :: r ≠ write a r' := by
  intro h
  obtain ⟨d, ds, had, hlead⟩ := exists_write_eq_cons a r'
  rw [had] at h
  rw [(List.cons.inj h).1, hlead] at hc
  cases a <;> exact absurd hc (by simp [lead])

theorem write_bool_inj {a b : Bool} {r r' : List Char}
    (h : write (.bool a) r = write (.bool b) r') : a = b ∧ r = r' := by
  cases a with
  | true =>
      cases b with
      | true => exact ⟨rfl, by simpa [write] using h⟩
      | false => exact absurd (List.cons.inj h).1 (by decide)
  | false =>
      cases b with
      | true => exact absurd (List.cons.inj h).1 (by decide)
      | false => exact ⟨rfl, by simpa [write] using h⟩

theorem ended_writeItems (items : List Json) (r : List Char) : Ended (writeItems items r) := by
  cases items with
  | nil => exact .inr (.inl rfl)
  | cons x rest => exact .inl rfl

theorem ended_writeMembers (members : List (String × Json)) (r : List Char) :
    Ended (writeMembers members r) := by
  cases members with
  | nil => exact .inr (.inr rfl)
  | cons m rest => exact .inl rfl

mutual

/-- The text of a value tells the value and where it ends. -/
theorem write_inj : ∀ {a b : Json} {r r' : List Char}, Ended r → Ended r' →
    write a r = write b r' → a = b ∧ r = r'
  | .null, b, r, r', _, _, h => by
      have hlead := lead_eq_of_write_eq h
      cases b with
      | null => exact ⟨rfl, by simpa [write] using h⟩
      | _ => exact absurd hlead (by simp [lead])
  | .bool a, b, r, r', _, _, h => by
      have hlead := lead_eq_of_write_eq h
      cases b with
      | bool b =>
          obtain ⟨hab, hrest⟩ := write_bool_inj h
          exact ⟨by rw [hab], hrest⟩
      | _ => exact absurd hlead (by simp [lead])
  | .num n, b, r, r', hr, hr', h => by
      have hlead := lead_eq_of_write_eq h
      cases b with
      | num m =>
          obtain ⟨hnm, hrest⟩ := Number.text_inj hr hr' h
          exact ⟨by rw [hnm], hrest⟩
      | _ => exact absurd hlead (by simp [lead])
  | .str s, b, r, r', _, _, h => by
      have hlead := lead_eq_of_write_eq h
      cases b with
      | str t =>
          obtain ⟨hst, hrest⟩ := writeString_inj h
          exact ⟨by rw [hst], hrest⟩
      | _ => exact absurd hlead (by simp [lead])
  | .arr items, b, r, r', _, _, h => by
      have hlead := lead_eq_of_write_eq h
      cases b with
      | arr items' =>
          cases items with
          | nil =>
              cases items' with
              | nil => exact ⟨rfl, by simpa [write] using h⟩
              | cons y ys => exact absurd (List.cons.inj h).2 (write_ne_cons y (by decide) _ _)
          | cons x xs =>
              cases items' with
              | nil => exact absurd (List.cons.inj h).2.symm (write_ne_cons x (by decide) _ _)
              | cons y ys =>
                  obtain ⟨hxy, hrest⟩ := write_inj (ended_writeItems xs r)
                    (ended_writeItems ys r') (List.cons.inj h).2
                  obtain ⟨hxs, hrest⟩ := writeItems_inj hrest
                  exact ⟨by rw [hxy, hxs], hrest⟩
      | _ => exact absurd hlead (by simp [lead])
  | .obj members, b, r, r', _, _, h => by
      have hlead := lead_eq_of_write_eq h
      cases b with
      | obj members' =>
          match members, members' with
          | [], [] => exact ⟨rfl, by simpa [write] using h⟩
          | [], (l, y) :: ys => exact absurd (List.cons.inj (List.cons.inj h).2).1 (by decide)
          | (k, x) :: xs, [] => exact absurd (List.cons.inj (List.cons.inj h).2).1 (by decide)
          | (k, x) :: xs, (l, y) :: ys =>
              obtain ⟨hkl, hrest⟩ := writeString_inj (List.cons.inj h).2
              obtain ⟨hxy, hrest⟩ := write_inj (ended_writeMembers xs r)
                (ended_writeMembers ys r') (List.cons.inj hrest).2
              obtain ⟨hxs, hrest⟩ := writeMembers_inj hrest
              exact ⟨by rw [hkl, hxy, hxs], hrest⟩
      | _ => exact absurd hlead (by simp [lead])

theorem writeItems_inj : ∀ {xs ys : List Json} {r r' : List Char},
    writeItems xs r = writeItems ys r' → xs = ys ∧ r = r'
  | [], [], _, _, h => ⟨rfl, (List.cons.inj h).2⟩
  | [], _ :: _, _, _, h => absurd (List.cons.inj h).1 (by decide)
  | _ :: _, [], _, _, h => absurd (List.cons.inj h).1 (by decide)
  | x :: xs, y :: ys, r, r', h => by
      obtain ⟨hxy, hrest⟩ := write_inj (ended_writeItems xs r) (ended_writeItems ys r')
        (List.cons.inj h).2
      obtain ⟨hxs, hrest⟩ := writeItems_inj hrest
      exact ⟨by rw [hxy, hxs], hrest⟩

theorem writeMembers_inj : ∀ {xs ys : List (String × Json)} {r r' : List Char},
    writeMembers xs r = writeMembers ys r' → xs = ys ∧ r = r'
  | [], [], _, _, h => ⟨rfl, (List.cons.inj h).2⟩
  | [], _ :: _, _, _, h => absurd (List.cons.inj h).1 (by decide)
  | _ :: _, [], _, _, h => absurd (List.cons.inj h).1 (by decide)
  | (k, x) :: xs, (l, y) :: ys, r, r', h => by
      obtain ⟨hkl, hrest⟩ := writeString_inj (List.cons.inj h).2
      obtain ⟨hxy, hrest⟩ := write_inj (ended_writeMembers xs r) (ended_writeMembers ys r')
        (List.cons.inj hrest).2
      obtain ⟨hxs, hrest⟩ := writeMembers_inj hrest
      exact ⟨by rw [hkl, hxy, hxs], hrest⟩

end

theorem compact_inj {a b : Json} (h : a.compact = b.compact) : a = b := by
  have hend : Ended [] := trivial
  exact (write_inj hend hend (String.ofList_injective h)).1

end Json

end WorkLedger
