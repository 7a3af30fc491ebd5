/-
# Hexadecimal text gives the bytes back

Reading undoes writing for bytes, for digests and for signatures, so none of them share a
text.  A text that is read is the one that is written, but for the case of its letters.
-/
import WorkLedger.Proofs.Digest.Order
import WorkLedger.Signature.Schnorr

namespace WorkLedger

/-! ## Bytes -/

namespace Hex

/-- Among the characters of ASCII: what is read as a digit has the lowercase digit of that value
for its lowercase. -/
theorem digit?_ascii : ∀ n < 128, ∀ v < 16, digit? (Char.ofNat n) = some v ↔
    (Char.ofNat n).toLower = Nat.digitChar v := by
  decide +kernel

theorem digit?_lt : ∀ n < 128, ∀ v ∈ digit? (Char.ofNat n), v < 16 := by
  decide +kernel

theorem toLower_digitChar : ∀ n < 16, (Nat.digitChar n).toLower = Nat.digitChar n := by
  decide

theorem toLower_toUpper_digitChar :
    ∀ n < 16, (Nat.digitChar n).toUpper.toLower = Nat.digitChar n := by
  decide

theorem toNat_digitChar_lt : ∀ n < 16, (Nat.digitChar n).toNat < 128 := by
  decide

/-- Digits are characters of ASCII. -/
theorem toNat_lt_of_digit? {c : Char} {v : Nat} (h : digit? c = some v) : c.toNat < 128 := by
  have hle : ∀ d : Char, d.toNat < 128 → c ≤ d → c.toNat < 128 := by
    intro d hd hcd
    exact Nat.lt_of_le_of_lt (UInt32.le_iff_toNat_le.mp (Char.le_def.mp hcd)) hd
  unfold digit? at h
  split at h
  · rename_i hc
    exact hle '9' (by decide) hc.2
  · split at h
    · rename_i hc
      exact hle 'f' (by decide) hc.2
    · split at h
      · rename_i hc
        exact hle 'F' (by decide) hc.2
      · exact nomatch h

/-- Only characters of ASCII change with the case, so that a lowercase in ASCII is one of them. -/
theorem toNat_lt_of_toLower {c : Char} (h : c.toLower.toNat < 128) : c.toNat < 128 := by
  unfold Char.toLower at h
  split at h
  · rename_i hc
    exact Nat.lt_of_le_of_lt (UInt32.le_iff_toNat_le.mp hc.2) (by decide)
  · exact h

/-- A character is read as a digit exactly if its lowercase is that digit. -/
theorem digit?_eq_some {c : Char} {v : Nat} :
    digit? c = some v ↔ v < 16 ∧ c.toLower = Nat.digitChar v := by
  constructor
  · intro h
    have hc := toNat_lt_of_digit? h
    rw [← Char.ofNat_toNat c] at h ⊢
    have hv := digit?_lt _ hc v h
    exact ⟨hv, (digit?_ascii _ hc v hv).mp h⟩
  · rintro ⟨hv, h⟩
    have hc := toNat_lt_of_toLower (h ▸ toNat_digitChar_lt v hv)
    rw [← Char.ofNat_toNat c] at h ⊢
    exact (digit?_ascii _ hc v hv).mpr h

theorem encode_cons (b : UInt8) (bytes : List UInt8) :
    encode (b :: bytes) =
      Nat.digitChar (b.toNat / 16) :: Nat.digitChar (b.toNat % 16) :: encode bytes := rfl

theorem halves_lt (b : UInt8) : b.toNat / 16 < 16 ∧ b.toNat % 16 < 16 := by
  have hb := b.toNat_lt
  omega

theorem map_toLower_encode (bytes : List UInt8) :
    (encode bytes).map Char.toLower = encode bytes := by
  induction bytes with
  | nil => rfl
  | cons b rest ih =>
      obtain ⟨hhigh, hlow⟩ := halves_lt b
      rw [encode_cons, List.map_cons, List.map_cons, ih, toLower_digitChar _ hhigh,
        toLower_digitChar _ hlow]

theorem map_toLower_toUpper_encode (bytes : List UInt8) :
    (encode bytes).map (Char.toLower ∘ Char.toUpper) = encode bytes := by
  induction bytes with
  | nil => rfl
  | cons b rest ih =>
      obtain ⟨hhigh, hlow⟩ := halves_lt b
      rw [encode_cons, List.map_cons, List.map_cons, ih, Function.comp_apply, Function.comp_apply,
        toLower_toUpper_digitChar _ hhigh, toLower_toUpper_digitChar _ hlow]

/-- What is read is a text that is written, but for the case of its letters. -/
theorem map_toLower_of_decode? : ∀ {s : List Char} {bytes : List UInt8},
    decode? s = some bytes → s.map Char.toLower = encode bytes
  | [], bytes, h => by
      cases h
      rfl
  | [_], _, h => nomatch h
  | high :: low :: rest, bytes, h => by
      obtain ⟨u, hu, h⟩ := Option.bind_eq_some_iff.mp h
      obtain ⟨v, hv, h⟩ := Option.bind_eq_some_iff.mp h
      obtain ⟨tail, htail, h⟩ := Option.bind_eq_some_iff.mp h
      cases h
      obtain ⟨hu16, hhigh⟩ := digit?_eq_some.mp hu
      obtain ⟨hv16, hlow⟩ := digit?_eq_some.mp hv
      have hvalue : (UInt8.ofNat (16 * u + v)).toNat = 16 * u + v :=
        UInt8.toNat_ofNat_of_lt' (show 16 * u + v < 256 by omega)
      have hdiv : (16 * u + v) / 16 = u := by omega
      have hmod : (16 * u + v) % 16 = v := by omega
      rw [encode_cons, List.map_cons, List.map_cons, map_toLower_of_decode? htail, hhigh, hlow,
        hvalue, hdiv, hmod]

/-- What is written is read, whatever the case of its letters. -/
theorem decode?_of_map_toLower {bytes : List UInt8} :
    ∀ {s : List Char}, s.map Char.toLower = encode bytes → decode? s = some bytes := by
  induction bytes with
  | nil =>
      intro s h
      rw [List.map_eq_nil_iff.mp h]
      rfl
  | cons b bytes ih =>
      intro s h
      rw [encode_cons] at h
      obtain ⟨high, rest, rfl, hhigh, h⟩ := List.map_eq_cons_iff.mp h
      obtain ⟨low, rest, rfl, hlow, h⟩ := List.map_eq_cons_iff.mp h
      have hu := digit?_eq_some.mpr ⟨(halves_lt b).1, hhigh⟩
      have hv := digit?_eq_some.mpr ⟨(halves_lt b).2, hlow⟩
      have hvalue : UInt8.ofNat (16 * (b.toNat / 16) + b.toNat % 16) = b := by
        rw [Nat.div_add_mod, UInt8.ofNat_toNat]
      simp only [decode?, hu, hv, ih h, hvalue, Option.bind_eq_bind, Option.bind_some,
        Option.pure_def]

theorem decode?_encode (bytes : List UInt8) : decode? (encode bytes) = some bytes :=
  decode?_of_map_toLower (map_toLower_encode bytes)

theorem length_encode (bytes : List UInt8) : (encode bytes).length = 2 * bytes.length :=
  length_of_decode? (decode?_encode bytes)

theorem toList_text (bytes : List UInt8) : (text bytes).toList = encode bytes :=
  String.toList_ofList

theorem toNat_lt_of_mem_encode {bytes : List UInt8} {c : Char} (hc : c ∈ encode bytes) :
    c.toNat < 128 := by
  obtain ⟨b, -, hc⟩ := List.mem_flatMap.mp hc
  obtain ⟨hhigh, hlow⟩ := halves_lt b
  simp only [ofByte, List.mem_cons, List.not_mem_nil, or_false] at hc
  rcases hc with rfl | rfl
  · exact toNat_digitChar_lt _ hhigh
  · exact toNat_digitChar_lt _ hlow

/-- A text of ASCII has as many bytes as characters. -/
theorem utf8ByteSize_ascii {s : String} (h : ∀ c ∈ s.toList, c.toNat < 128) :
    s.utf8ByteSize = s.toList.length := by
  rw [← String.size_toByteArray, ← String.ofList_toList (s := s), String.toByteArray_ofList,
    String.toList_ofList]
  generalize s.toList = cs at h
  show (cs.flatMap String.utf8EncodeChar).toByteArray.size = _
  rw [List.size_toByteArray]
  induction cs with
  | nil => rfl
  | cons c cs ih =>
      have hc : c.utf8Size = 1 := Char.utf8Size_eq_one_iff.mpr
        (UInt32.le_iff_toNat_le.mpr (Nat.le_of_lt_succ (h c List.mem_cons_self)))
      rw [List.flatMap_cons, List.length_append, String.length_utf8EncodeChar, hc,
        ih fun d hd => h d (List.mem_cons_of_mem c hd), List.length_cons, Nat.add_comm]

theorem text_inj {a b : List UInt8} (h : text a = text b) : a = b := by
  have ha := decode?_encode a
  rw [← toList_text, h, toList_text, decode?_encode] at ha
  exact (Option.some.inj ha).symm

end Hex

theorem Digest.toHex_inj {a b : Digest} (h : a.toHex = b.toHex) : a = b := by
  have hbytes := Hex.text_inj h
  cases a
  cases b
  cases hbytes
  rfl

theorem Digest.length_toHex (h : Digest) : h.toHex.toList.length = 64 := by
  rw [toHex, Hex.toList_text, Hex.length_encode, h.length_bytes]

/-- A text is read as the digest whose text it is, but for the case of its letters. -/
theorem Digest.parse_eq_ok {s : String} {h : Digest} :
    parse s = .ok h ↔ s.toList.map Char.toLower = h.toHex.toList := by
  rw [toHex, Hex.toList_text]
  constructor
  · intro hparse
    unfold parse at hparse
    split at hparse
    · exact nomatch hparse
    · split at hparse
      · exact nomatch hparse
      · rename_i hdecode
        split at hparse
        · cases hparse
          exact Hex.map_toLower_of_decode? hdecode
        · exact nomatch hparse
  · intro hlower
    have hdecode : Hex.decode? s.toList = some h.bytes := Hex.decode?_of_map_toLower hlower
    have hascii : ∀ c ∈ s.toList, c.toNat < 128 := by
      intro c hc
      have hmem : c.toLower ∈ Hex.encode h.bytes := hlower ▸ List.mem_map_of_mem hc
      exact Hex.toNat_lt_of_toLower (Hex.toNat_lt_of_mem_encode hmem)
    have hsize : s.utf8ByteSize = 64 := by
      rw [Hex.utf8ByteSize_ascii hascii, Hex.length_of_decode? hdecode, h.length_bytes]
    simp only [parse, hsize, ne_eq, not_true, if_false, hdecode, h.length_bytes, dite_true]

/-- Reading undoes writing. -/
theorem Digest.parse_toHex (h : Digest) : parse h.toHex = .ok h := by
  refine parse_eq_ok.mpr ?_
  rw [toHex, Hex.toList_text, Hex.map_toLower_encode]

/-! ## Numbers in thirty-two bytes -/

theorem ofBigEndian_map_shiftRight (n k : Nat) :
    Digest.ofBigEndian ((List.range k).map fun i => UInt8.ofNat (n >>> (8 * (k - 1 - i)))) =
      n % 256 ^ k := by
  induction k with
  | zero => simp [Digest.ofBigEndian, Nat.mod_one]
  | succ k ih =>
      have hpow : 2 ^ (8 * k) = 256 ^ k := by rw [Nat.pow_mul]
      have htail : (List.range k).map ((fun i => UInt8.ofNat (n >>> (8 * (k + 1 - 1 - i)))) ∘ Nat.succ) =
          (List.range k).map fun i => UInt8.ofNat (n >>> (8 * (k - 1 - i))) := by
        refine List.map_congr_left fun i _ => ?_
        rw [Function.comp_apply, show k + 1 - 1 - i.succ = k - 1 - i by omega]
      rw [List.range_succ_eq_map, List.map_cons, List.map_map, htail, Digest.ofBigEndian_cons, ih]
      simp only [Nat.add_sub_cancel, Nat.sub_zero, List.length_map, List.length_range]
      rw [UInt8.toNat_ofNat', Nat.shiftRight_eq_div_pow, hpow]
      show n / 256 ^ k % 256 * 256 ^ k + n % 256 ^ k = n % 256 ^ (k + 1)
      rw [Nat.mod_pow_succ, Nat.add_comm, Nat.mul_comm]

theorem ofBigEndian_bytes32 {n : Nat} (h : n < 2 ^ 256) : Digest.ofBigEndian (bytes32 n) = n := by
  show Digest.ofBigEndian ((List.range 32).map fun i => UInt8.ofNat (n >>> (8 * (32 - 1 - i)))) = n
  rw [ofBigEndian_map_shiftRight]
  exact Nat.mod_eq_of_lt h

theorem length_bytes32 (n : Nat) : (bytes32 n).length = 32 := by
  simp [bytes32]

/-- The digest that is the bytes of a number. -/
def Digest.ofNumber (n : Nat) : Digest := ⟨bytes32 n, length_bytes32 n⟩

/-- The address of a key on the curve names the key. -/
theorem PublicKey.ofAddress?_address {key : PublicKey}
    (h : Curve.lift? key.point.x = some key.point) : ofAddress? key.address = some key := by
  have hx : key.point.x < 2 ^ 256 := by
    unfold Curve.lift? at h
    split at h
    · rename_i hlt
      exact Nat.lt_trans hlt (by decide)
    · exact nomatch h
  simp only [ofAddress?, address, Hex.toList_text, Hex.decode?_encode, length_bytes32, if_true,
    ofBigEndian_bytes32 hx, h]
  rfl

/-! ## Signatures -/

namespace Signature

theorem ofParts?_self (g : Signature) : ofParts? g.r g.s = some g :=
  dif_pos ⟨g.r_range, g.s_range⟩

/-- Reading undoes writing. -/
theorem parse?_toHex (g : Signature) : parse? g.toHex = some g := by
  have hr : g.r < 2 ^ 256 := Nat.lt_trans g.r_range.2 (by decide)
  have hs : g.s < 2 ^ 256 := Nat.lt_trans g.s_range.2 (by decide)
  have htake : (bytes32 g.r ++ bytes32 g.s).take 32 = bytes32 g.r := by
    rw [← length_bytes32 g.r, List.take_left]
  have hdrop : (bytes32 g.r ++ bytes32 g.s).drop 32 = bytes32 g.s := by
    rw [← length_bytes32 g.r, List.drop_left]
  have hlength : (bytes32 g.r ++ bytes32 g.s).length = 64 := by
    rw [List.length_append, length_bytes32, length_bytes32]
  simp only [parse?, toHex, Hex.toList_text, Hex.decode?_encode, hlength, if_true, htake, hdrop,
    ofBigEndian_bytes32 hr, ofBigEndian_bytes32 hs, ofParts?_self]

theorem toHex_inj {g g' : Signature} (h : g.toHex = g'.toHex) : g = g' := by
  have hg := parse?_toHex g
  rw [h, parse?_toHex] at hg
  exact (Option.some.inj hg).symm

end Signature

end WorkLedger
