/-
# The sponge on numbers

The digest as a computation on natural numbers and lists, equal to the one on 64-bit words and
arrays.  Lanes are numbers, a rotation is a product split in two, and the message is a list of
which one block after another is taken from the front.  In this form the digest of a long text
can be worked out in a proof.
-/
import Mathlib.Algebra.Group.Nat.Defs
import WorkLedger.Json.Text

namespace WorkLedger

namespace Keccak

/-! ## Lanes -/

theorem not_and_eq_xor (a b : UInt64) : ~~~a &&& b = b ^^^ (a &&& b) := by
  apply UInt64.toBitVec_inj.mp
  apply BitVec.eq_of_getLsbD_eq
  intro i hi
  simp [hi]
  cases a.toBitVec[i] <;> cases b.toBitVec[i] <;> rfl

/-- The bits of `b` where `a` is clear. -/
def clearAnd (a b : Nat) : Nat := Nat.xor b (Nat.land a b)

theorem toNat_not_and (a b : UInt64) : (~~~a &&& b).toNat = clearAnd a.toNat b.toNat := by
  rw [not_and_eq_xor, UInt64.toNat_xor, UInt64.toNat_and]
  rfl

/-- The rotation of a 64-bit number: what a product with a power of two carries over comes in
again at the other end. -/
def rotateNat (w n : Nat) : Nat :=
  let product := Nat.mul w (Nat.pow 2 n)
  Nat.add (Nat.mod product 18446744073709551616) (Nat.div product 18446744073709551616)

theorem toNat_rotate (w n : UInt64) (h : n.toNat < 64) :
    (rotate w n).toNat = rotateNat w.toNat n.toNat := by
  show _ = w.toNat * 2 ^ n.toNat % 2 ^ 64 + w.toNat * 2 ^ n.toNat / 2 ^ 64
  have hw : w.toNat < 2 ^ 64 := w.toNat_lt
  unfold rotate
  split
  · rename_i h0
    rw [h0]
    simp
    omega
  · rename_i h0
    have hsub : (64 - n).toNat = 64 - n.toNat := by
      rw [UInt64.toNat_sub_of_le]
      · rfl
      · rw [UInt64.le_iff_toNat_le]
        exact Nat.le_of_lt h
    have hpos : n.toNat ≠ 0 := fun h => h0 (UInt64.toNat.inj h)
    have hsplit : (2 : Nat) ^ 64 = 2 ^ (64 - n.toNat) * 2 ^ n.toNat := by
      rw [← Nat.pow_add, Nat.sub_add_cancel (Nat.le_of_lt h)]
    rw [UInt64.toNat_or, UInt64.toNat_shiftLeft, UInt64.toNat_shiftRight, hsub,
      Nat.mod_eq_of_lt h, Nat.mod_eq_of_lt (by omega : 64 - n.toNat < 64)]
    rw [Nat.shiftLeft_eq, Nat.shiftRight_eq_div_pow, hsplit, Nat.mul_mod_mul_right,
      Nat.mul_div_mul_right _ _ (Nat.two_pow_pos _), ← Nat.shiftLeft_eq,
      ← Nat.shiftLeft_add_eq_or_of_lt]
    rw [Nat.div_lt_iff_lt_mul (Nat.two_pow_pos _), Nat.mul_comm, ← hsplit]
    exact hw

/-! ## The permutation -/

/-- A plane of numbers. -/
structure NatPlane where
  (x0 x1 x2 x3 x4 : Nat)

/-- A state of numbers. -/
structure NatState where
  (y0 y1 y2 y3 y4 : NatPlane)

/-- The numbers of a plane. -/
def Plane.toNats (p : Plane) : NatPlane :=
  ⟨p.x0.toNat, p.x1.toNat, p.x2.toNat, p.x3.toNat, p.x4.toNat⟩

/-- The numbers of a state. -/
def State.toNats (a : State) : NatState :=
  ⟨a.y0.toNats, a.y1.toNats, a.y2.toNats, a.y3.toNats, a.y4.toNats⟩

/-- `Plane.xor` on numbers. -/
def NatPlane.xor (p q : NatPlane) : NatPlane :=
  ⟨Nat.xor p.x0 q.x0, Nat.xor p.x1 q.x1, Nat.xor p.x2 q.x2, Nat.xor p.x3 q.x3,
    Nat.xor p.x4 q.x4⟩

/-- `Plane.chi` on numbers. -/
def NatPlane.chi (p : NatPlane) : NatPlane :=
  ⟨Nat.xor p.x0 (clearAnd p.x1 p.x2), Nat.xor p.x1 (clearAnd p.x2 p.x3),
    Nat.xor p.x2 (clearAnd p.x3 p.x4), Nat.xor p.x3 (clearAnd p.x4 p.x0),
    Nat.xor p.x4 (clearAnd p.x0 p.x1)⟩

/-- `State.theta` on numbers. -/
def NatState.theta (a : NatState) : NatState :=
  let c := (((a.y0.xor a.y1).xor a.y2).xor a.y3).xor a.y4
  let d : NatPlane :=
    ⟨Nat.xor c.x4 (rotateNat c.x1 1), Nat.xor c.x0 (rotateNat c.x2 1),
      Nat.xor c.x1 (rotateNat c.x3 1), Nat.xor c.x2 (rotateNat c.x4 1),
      Nat.xor c.x3 (rotateNat c.x0 1)⟩
  ⟨a.y0.xor d, a.y1.xor d, a.y2.xor d, a.y3.xor d, a.y4.xor d⟩

/-- `State.rhoPi` on numbers. -/
def NatState.rhoPi (a : NatState) : NatState :=
  ⟨⟨a.y0.x0, rotateNat a.y1.x1 44, rotateNat a.y2.x2 43, rotateNat a.y3.x3 21,
      rotateNat a.y4.x4 14⟩,
    ⟨rotateNat a.y0.x3 28, rotateNat a.y1.x4 20, rotateNat a.y2.x0 3, rotateNat a.y3.x1 45,
      rotateNat a.y4.x2 61⟩,
    ⟨rotateNat a.y0.x1 1, rotateNat a.y1.x2 6, rotateNat a.y2.x3 25, rotateNat a.y3.x4 8,
      rotateNat a.y4.x0 18⟩,
    ⟨rotateNat a.y0.x4 27, rotateNat a.y1.x0 36, rotateNat a.y2.x1 10, rotateNat a.y3.x2 15,
      rotateNat a.y4.x3 56⟩,
    ⟨rotateNat a.y0.x2 62, rotateNat a.y1.x3 55, rotateNat a.y2.x4 39, rotateNat a.y3.x0 41,
      rotateNat a.y4.x1 2⟩⟩

/-- `State.round` on numbers. -/
def NatState.round (a : NatState) (constant : Nat) : NatState :=
  let b := a.theta.rhoPi
  let first := b.y0.chi
  ⟨⟨Nat.xor first.x0 constant, first.x1, first.x2, first.x3, first.x4⟩,
    b.y1.chi, b.y2.chi, b.y3.chi, b.y4.chi⟩

/-- `State.permute` on numbers. -/
def NatState.permute (a : NatState) : NatState :=
  (roundConstants.map UInt64.toNat).foldl NatState.round a

theorem toNats_xor (p q : Plane) : (p.xor q).toNats = p.toNats.xor q.toNats := by
  simp only [Plane.xor, Plane.toNats, NatPlane.xor, UInt64.toNat_xor]
  rfl

theorem toNats_chi (p : Plane) : p.chi.toNats = p.toNats.chi := by
  simp only [Plane.chi, Plane.toNats, NatPlane.chi, UInt64.toNat_xor, toNat_not_and]
  rfl

theorem toNats_theta (a : State) : a.theta.toNats = a.toNats.theta := by
  have hrotate : ∀ w, (rotate w 1).toNat = rotateNat w.toNat 1 := fun w =>
    toNat_rotate w 1 (by decide)
  simp only [State.theta, State.toNats, NatState.theta, toNats_xor]
  simp only [Plane.toNats, Plane.xor, NatPlane.xor, UInt64.toNat_xor, hrotate]
  rfl

theorem toNats_rhoPi (a : State) : a.rhoPi.toNats = a.toNats.rhoPi := by
  have hrotate : ∀ w n : UInt64, n.toNat < 64 → (rotate w n).toNat = rotateNat w.toNat n.toNat :=
    toNat_rotate
  simp (disch := decide) only [State.rhoPi, State.toNats, NatState.rhoPi, Plane.toNats, hrotate]
  rfl

theorem toNats_round (a : State) (constant : UInt64) :
    (a.round constant).toNats = a.toNats.round constant.toNat := by
  have hb : a.toNats.theta.rhoPi = a.theta.rhoPi.toNats := by rw [toNats_rhoPi, toNats_theta]
  simp only [State.round, NatState.round, hb]
  generalize a.theta.rhoPi = b
  simp only [State.toNats, ← toNats_chi]
  simp only [Plane.toNats, UInt64.toNat_xor]
  rfl

theorem toNats_permute (a : State) : a.permute.toNats = a.toNats.permute := by
  unfold State.permute NatState.permute
  generalize roundConstants = constants
  induction constants generalizing a with
  | nil => rfl
  | cons constant constants ih => rw [List.foldl_cons, List.map_cons, List.foldl_cons, ih,
      toNats_round]

/-! ## The message -/

/-- The little-endian number of the first `count` bytes, reading zeros past the end. -/
def laneOf : (count : Nat) → List UInt8 → Nat
  | 0, _ => 0
  | _ + 1, [] => 0
  | count + 1, b :: bytes => Nat.add b.toNat (Nat.mul 256 (laneOf count bytes))

theorem laneOf_drop (count k : Nat) (bytes : List UInt8) :
    laneOf (count + 1) (bytes.drop k) =
      (bytes.getD k 0).toNat + 256 * laneOf count (bytes.drop (k + 1)) := by
  rw [← List.tail_drop, List.getD_eq_getElem?_getD, ← List.head?_drop]
  cases bytes.drop k with
  | nil => cases count <;> rfl
  | cons b rest => rfl

/-- A byte put above what fills the lowest `n` bits. -/
theorem toNat_or_shiftLeft {low k : UInt64} {n : Nat} (b : UInt8) (hk : k.toNat = n) (hn : n ≤ 56)
    (hlow : low.toNat < 2 ^ n) :
    (low ||| (b.toUInt64 <<< k)).toNat = low.toNat + b.toNat * 2 ^ n ∧
      (low ||| (b.toUInt64 <<< k)).toNat < 2 ^ (n + 8) := by
  have hb : b.toNat < 2 ^ 8 := b.toNat_lt
  have hroom : (b.toNat + 1) * 2 ^ n ≤ 2 ^ (n + 8) := by
    rw [Nat.add_comm n, Nat.pow_add]
    exact Nat.mul_le_mul_right _ hb
  rw [Nat.add_mul] at hroom
  have hword : (2 : Nat) ^ (n + 8) ≤ 2 ^ 64 := Nat.pow_le_pow_right (by decide) (by omega)
  have hvalue : (low ||| (b.toUInt64 <<< k)).toNat = low.toNat + b.toNat * 2 ^ n := by
    rw [UInt64.toNat_or, UInt64.toNat_shiftLeft, hk, UInt8.toNat_toUInt64,
      Nat.mod_eq_of_lt (by omega : n < 64), Nat.shiftLeft_eq,
      Nat.mod_eq_of_lt (by omega : b.toNat * 2 ^ n < 2 ^ 64), ← Nat.shiftLeft_eq, Nat.or_comm,
      ← Nat.shiftLeft_add_eq_or_of_lt hlow, Nat.shiftLeft_eq, Nat.add_comm]
  refine ⟨hvalue, ?_⟩
  rw [hvalue]
  omega

theorem toNat_laneAt (input : ByteArray) (i : Nat) :
    (laneAt input i).toNat = laneOf 8 (input.data.toList.drop i) := by
  have hbyte : ∀ k, (if h : i + k < input.size then (input.get (i + k) h).toUInt64 else 0) =
      ((input.data.toList.drop i).getD k 0).toUInt64 := by
    intro k
    rw [List.getD_eq_getElem?_getD, List.getElem?_drop, Array.getElem?_toList]
    by_cases h : i + k < input.size
    · rw [dif_pos h, Array.getElem?_eq_getElem h]
      rfl
    · rw [dif_neg h, Array.getElem?_eq_none (Nat.not_lt.mp h)]
      rfl
  dsimp only [laneAt]
  rw [hbyte 0, hbyte 1, hbyte 2, hbyte 3, hbyte 4, hbyte 5, hbyte 6, hbyte 7]
  generalize input.data.toList.drop i = bytes
  have h0 : ((bytes.getD 0 0).toUInt64).toNat < 2 ^ 8 := (bytes.getD 0 0).toNat_lt
  obtain ⟨e1, h1⟩ := toNat_or_shiftLeft (k := 8) (n := 8) (bytes.getD 1 0) rfl (by decide) h0
  obtain ⟨e2, h2⟩ := toNat_or_shiftLeft (k := 16) (n := 16) (bytes.getD 2 0) rfl (by decide) h1
  obtain ⟨e3, h3⟩ := toNat_or_shiftLeft (k := 24) (n := 24) (bytes.getD 3 0) rfl (by decide) h2
  obtain ⟨e4, h4⟩ := toNat_or_shiftLeft (k := 32) (n := 32) (bytes.getD 4 0) rfl (by decide) h3
  obtain ⟨e5, h5⟩ := toNat_or_shiftLeft (k := 40) (n := 40) (bytes.getD 5 0) rfl (by decide) h4
  obtain ⟨e6, h6⟩ := toNat_or_shiftLeft (k := 48) (n := 48) (bytes.getD 6 0) rfl (by decide) h5
  obtain ⟨e7, -⟩ := toNat_or_shiftLeft (k := 56) (n := 56) (bytes.getD 7 0) rfl (by decide) h6
  rw [e7, e6, e5, e4, e3, e2, e1, ← List.drop_zero (l := bytes)]
  rw [laneOf_drop 7 0, laneOf_drop 6 1, laneOf_drop 5 2, laneOf_drop 4 3, laneOf_drop 3 4,
    laneOf_drop 2 5, laneOf_drop 1 6, laneOf_drop 0 7]
  simp only [List.drop_zero, laneOf, UInt8.toNat_toUInt64]
  omega

/-- The numbers that `count` words of a message spell. -/
def lanes : (count : Nat) → List UInt8 → List Nat
  | 0, _ => []
  | count + 1, bytes => laneOf 8 bytes :: lanes count (bytes.drop 8)

theorem getD_lanes {count k : Nat} (hk : k < count) (bytes : List UInt8) :
    (lanes count bytes).getD k 0 = laneOf 8 (bytes.drop (8 * k)) := by
  induction k generalizing count bytes with
  | zero =>
      obtain ⟨count, rfl⟩ := Nat.exists_eq_succ_of_ne_zero (Nat.ne_of_gt hk)
      rfl
  | succ k ih =>
      obtain ⟨count, rfl⟩ := Nat.exists_eq_succ_of_ne_zero (Nat.ne_of_gt (Nat.zero_lt_of_lt hk))
      rw [lanes, List.getD_cons_succ, ih (Nat.lt_of_succ_lt_succ hk), List.drop_drop]
      congr 2
      omega

theorem drop_lanes (k count : Nat) (bytes : List UInt8) :
    (lanes (count + k) bytes).drop k = lanes count (bytes.drop (8 * k)) := by
  induction k generalizing bytes with
  | zero => rfl
  | succ k ih =>
      rw [← Nat.add_assoc, lanes, List.drop_succ_cons, ih, List.drop_drop]
      congr 2
      omega

/-- Takes in the seventeen words at the front. -/
def NatState.absorbFront (a : NatState) (words : List Nat) : NatState :=
  let w (k : Nat) : Nat := words.getD k 0
  NatState.permute
    ⟨a.y0.xor ⟨w 0, w 1, w 2, w 3, w 4⟩, a.y1.xor ⟨w 5, w 6, w 7, w 8, w 9⟩,
      a.y2.xor ⟨w 10, w 11, w 12, w 13, w 14⟩,
      ⟨Nat.xor a.y3.x0 (w 15), Nat.xor a.y3.x1 (w 16), a.y3.x2, a.y3.x3, a.y3.x4⟩, a.y4⟩

theorem toNats_absorbBlock (a : State) (input : ByteArray) (i count : Nat) :
    (a.absorbBlock input i).toNats =
      a.toNats.absorbFront (lanes (count + 17) (input.data.toList.drop i)) := by
  have hlane : ∀ k < 17, (lanes (count + 17) (input.data.toList.drop i)).getD k 0 =
      (laneAt input (i + 8 * k)).toNat := by
    intro k hk
    rw [getD_lanes (by omega), toNat_laneAt, List.drop_drop]
  simp (disch := decide) only [State.absorbBlock, NatState.absorbFront, toNats_permute, hlane]
  simp only [State.toNats, toNats_xor]
  simp only [Plane.toNats, UInt64.toNat_xor]
  rfl

/-- Takes in `count` blocks from the front on. -/
def NatState.absorb : (count : Nat) → List Nat → NatState → NatState
  | 0, _, a => a
  | count + 1, words, a => absorb count (words.drop 17) (a.absorbFront words)

theorem toNats_absorb (input : ByteArray) (count i : Nat) (a : State) :
    (State.absorb input count i a).toNats =
      NatState.absorb count (lanes (17 * count) (input.data.toList.drop i)) a.toNats := by
  induction count generalizing i a with
  | zero => rfl
  | succ count ih =>
      rw [State.absorb, NatState.absorb, ih, toNats_absorbBlock a input i (17 * count),
        Nat.mul_succ, drop_lanes, List.drop_drop]
      rfl

/-- What is put behind a message of that length. -/
def padding (length : Nat) : List UInt8 :=
  let missing := rate - length % rate
  if missing = 1 then [0x81] else 0x01 :: (List.replicate (missing - 2) 0 ++ [0x80])

theorem toList_fold_push (n : Nat) (bytes : ByteArray) :
    (n.fold (fun _ _ bytes => bytes.push 0) bytes).data.toList =
      bytes.data.toList ++ List.replicate n 0 := by
  induction n with
  | zero => simp
  | succ n ih =>
      rw [Nat.fold_succ]
      simp [ih, List.replicate_succ']

theorem toList_pad (input : ByteArray) :
    (pad input).data.toList = input.data.toList ++ padding input.data.toList.length := by
  have hsize : input.data.toList.length = input.size := rfl
  rw [hsize]
  unfold pad padding
  simp only
  split
  · simp
  · simp [toList_fold_push]

/-! ## The digest -/

/-- The bytes of the first four lanes. -/
def NatState.output (a : NatState) : Digest :=
  State.output ⟨⟨.ofNat a.y0.x0, .ofNat a.y0.x1, .ofNat a.y0.x2, .ofNat a.y0.x3, 0⟩, .zero, .zero,
    .zero, .zero⟩

theorem output_toNats (a : State) : a.toNats.output = a.output := by
  simp [NatState.output, State.toNats, Plane.toNats, State.output]

/-- The digest of a list of bytes. -/
def digestOfBytes (bytes : List UInt8) : Digest :=
  let padded := bytes ++ padding bytes.length
  let count := padded.length / rate
  (NatState.absorb count (lanes (17 * count) padded) State.zero.toNats).output

theorem digest_eq (input : ByteArray) : digest input = digestOfBytes input.data.toList := by
  have hsize : (pad input).size = (pad input).data.toList.length := rfl
  simp only [digest, digestOfBytes, ← output_toNats, toNats_absorb, List.drop_zero, hsize,
    toList_pad]

end Keccak

/-- The digest of a text, from its characters. -/
theorem Digest.ofText_ofList (cs : List Char) :
    Digest.ofText (String.ofList cs) = Keccak.digestOfBytes (cs.flatMap String.utf8EncodeChar) := by
  rw [Digest.ofText, Keccak.digest_eq]
  congr 1
  show (String.ofList cs).toByteArray.data.toList = _
  rw [String.toByteArray_ofList, List.utf8Encode, List.data_toByteArray]

theorem digestOf_eq_digestOfBytes {α : Type} [ToJson α] (a : α) : digestOf a =
    Keccak.digestOfBytes ((Json.write (toJson a).normalize []).flatMap String.utf8EncodeChar) :=
  Digest.ofText_ofList _

end WorkLedger
