/-
# Fields of published accounts

What a field has to be for its reader to succeed.
-/
import WorkLedger.Account.Decode
import WorkLedger.Proofs.Machine.Words
import WorkLedger.Proofs.Text.Hex

namespace WorkLedger

namespace Json

theorem readText_eq_ok {j : Json} {s : String} : j.readText = .ok s ↔ j = .str s := by
  unfold readText
  split
  · simp
  · rename_i hne
    exact ⟨nofun, fun h => (hne s h).elim⟩

/-- A number without a sign is read from its own literal only. -/
theorem readU64_eq_ok {j : Json} {n : UInt64} : j.readU64 = .ok n ↔ j = .int n.toNat := by
  constructor
  · intro h
    unfold readU64 at h
    split at h
    · rename_i i
      split at h
      · exact nomatch h
      · split at h
        · rename_i hneg hlt
          cases h
          have hsize : i.toNat < UInt64.size := by omega
          rw [UInt64.toNat_ofNat_of_lt' hsize, Int.toNat_of_nonneg (Int.not_lt.mp hneg)]
        · exact nomatch h
    · exact nomatch h
  · rintro rfl
    have hneg : ¬ (n.toNat : Int) < 0 := Int.not_lt.mpr (Int.natCast_nonneg _)
    have hlt : (n.toNat : Int) < UInt64.size := Int.ofNat_lt.mpr n.toNat_lt_size
    simp only [readU64, hneg, hlt, if_false, if_true, Int.toNat_natCast, UInt64.ofNat_toNat]

/-- Code is read from an array of what spells its words. -/
theorem readCode_eq_ok {j : Json} {code : List Word} :
    j.readCode = .ok code ↔ ∃ items, j = .arr items ∧ List.Forall₂ Word.Spelled items code := by
  unfold readCode
  split
  · rename_i items
    rw [mapM_eq_ok]
    constructor
    · intro h
      refine ⟨items, rfl, h.imp ?_⟩
      intro x w hw
      split at hw
      · rename_i hread
        cases hw
        exact Word.ofJson?_eq_some.mp hread
      · cases hw
    · rintro ⟨_, ⟨⟩, h⟩
      refine h.imp ?_
      intro x w hw
      rw [Word.ofJson?_eq_some.mpr hw]
  · rename_i hne
    constructor
    · intro h
      cases h
    · rintro ⟨items, rfl, -⟩
      exact (hne items rfl).elim

/-- A digest is read from its digits in either case. -/
theorem readDigest_eq_ok {j : Json} {h : Digest} :
    j.readDigest = .ok h ↔
      ∃ s, j = .str s ∧ s.toList.map Char.toLower = h.toHex.toList := by
  unfold readDigest
  simp only [bind_eq_ok, readText_eq_ok, mapError_eq_ok, Digest.parse_eq_ok]

theorem readDigest?_eq_none {j : Json} : j.readDigest? = .ok none ↔ j = .null := by
  unfold readDigest?
  split
  · simp
  · rename_i hne
    cases j.readDigest with
    | error e => exact ⟨nofun, fun h => (hne h).elim⟩
    | ok d => exact ⟨nofun, fun h => (hne h).elim⟩

theorem readDigest?_eq_some {j : Json} {h : Digest} :
    j.readDigest? = .ok (some h) ↔ j.readDigest = .ok h := by
  unfold readDigest?
  split
  · exact ⟨nofun, nofun⟩
  · cases j.readDigest with
    | error e => exact ⟨nofun, nofun⟩
    | ok d =>
        constructor
        · rintro ⟨⟩
          rfl
        · rintro ⟨⟩
          rfl

end Json

namespace Account

/-- The fields that an account is read from, one reader each. -/
theorem ofFields_eq_ok {fields : Json.Object} {a : Account} :
    ofFields fields = .ok a ↔
      ((fields.get? "address").getD .null).readText = .ok a.address ∧
      ((fields.get? "balance").getD .null).readU64 = .ok a.balance ∧
      ((fields.get? "code").getD .null).readCode = .ok a.code ∧
      ((fields.get? "codeHash").getD .null).readDigest? = .ok a.codeHash ∧
      a.storageRoot = none := by
  constructor
  · intro h
    obtain ⟨address, haddress, h⟩ := bind_eq_ok.mp h
    obtain ⟨balance, hbalance, h⟩ := bind_eq_ok.mp h
    obtain ⟨code, hcode, h⟩ := bind_eq_ok.mp h
    obtain ⟨codeHash, hcodeHash, h⟩ := bind_eq_ok.mp h
    cases pure_eq_ok.mp h
    exact ⟨haddress, hbalance, hcode, hcodeHash, rfl⟩
  · obtain ⟨address, balance, code, codeHash, storageRoot⟩ := a
    rintro ⟨haddress, hbalance, hcode, hcodeHash, rfl⟩
    refine bind_eq_ok.mpr ⟨address, haddress, bind_eq_ok.mpr ⟨balance, hbalance, ?_⟩⟩
    exact bind_eq_ok.mpr ⟨code, hcode, bind_eq_ok.mpr ⟨codeHash, hcodeHash, rfl⟩⟩

end Account

end WorkLedger
