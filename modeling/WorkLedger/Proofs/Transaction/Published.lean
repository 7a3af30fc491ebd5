/-
# Published accounts

An account that publishes itself is read back as it is.

The data of a transaction can hold floats, which are not always read back as they were, and can
be deep.  Those that publish an account cannot: every field that is read successfully consists
of texts and integers of 64 bits in at most two arrays, and there are no other fields.
-/
import WorkLedger.Proofs.Account.Fields
import WorkLedger.Proofs.Json.Records
import WorkLedger.Proofs.Json.Source
import WorkLedger.Proofs.Transaction.Effect

namespace WorkLedger

/-! ## Reading back -/

namespace Json

theorem readCode_toJson (code : List Word) : (toJson code).normalize.readCode = .ok code := by
  refine readCode_eq_ok.mpr ⟨_, rfl, ?_⟩
  rw [normalizeItems_eq_map, List.map_map, List.forall₂_map_left_iff]
  refine List.forall₂_same.mpr ?_
  intro w _
  show Word.Spelled (toJson w).normalize w
  rw [Word.normalize_toJson]
  exact w.spelled_toJson

theorem readDigest?_ofOption (h : Option Digest) :
    (ofOption toJson h).normalize.readDigest? = .ok h := by
  cases h with
  | none => rfl
  | some h =>
      have hread : readDigest (.str h.toHex) = .ok h :=
        bind_eq_ok.mpr ⟨_, rfl, mapError_eq_ok.mpr h.parse_toHex⟩
      exact readDigest?_eq_some.mpr hread

end Json

theorem Account.publicFields_eq (a : Account) : a.publicFields = .ofMembers a.publicMembers := by
  have hcode : a.code.map Word.toValue = a.code.map toJson :=
    List.map_congr_left fun w _ => w.toValue_eq_toJson
  rw [publicFields, hcode]
  rfl

/-- The fields that an account publishes are read as the account. -/
theorem Account.ofFields_publicFields {a : Account} (h : a.storageRoot = none) :
    ofFields a.publicFields = .ok a := by
  rw [publicFields_eq]
  exact ofFields_eq_ok.mpr ⟨rfl, Json.readU64_eq_ok.mpr rfl, Json.readCode_toJson a.code,
    Json.readDigest?_ofOption a.codeHash, h⟩

theorem Transaction.accountSnapshot_createAccount {a : Account} (id : String)
    (hcodeHash : a.codeHash = Account.codeHashOf a.address a.code) (hroot : a.storageRoot = none) :
    (createAccount a id).accountSnapshot = .ok a :=
  accountSnapshot_eq_ok.mpr ⟨_, rfl, rfl, Account.ofFields_publicFields hroot, hcodeHash⟩

/-! ## What can be read is shallow -/

namespace Json

theorem inRange_uint64 (n : UInt64) : (toJson n).inRange = true := by
  have hlt := n.toNat_lt
  show (Number.int n.toNat).inRange = true
  rw [Number.inRange_int]
  omega

theorem shallow_of_readText {j : Json} {s : String} (h : j.readText = .ok s) : Shallow 0 j := by
  rw [readText_eq_ok.mp h]
  exact ⟨⟨rfl, rfl⟩, Nat.le_refl _⟩

theorem shallow_of_readU64 {j : Json} {n : UInt64} (h : j.readU64 = .ok n) : Shallow 0 j := by
  rw [readU64_eq_ok.mp h]
  exact ⟨⟨rfl, inRange_uint64 n⟩, Nat.le_refl _⟩

theorem shallow_of_readDigest? {j : Json} {d : Option Digest} (h : j.readDigest? = .ok d) :
    Shallow 0 j := by
  cases d with
  | none =>
      rw [readDigest?_eq_none.mp h]
      exact ⟨⟨rfl, rfl⟩, Nat.le_refl _⟩
  | some d =>
      obtain ⟨s, rfl, -⟩ := readDigest_eq_ok.mp (readDigest?_eq_some.mp h)
      exact ⟨⟨rfl, rfl⟩, Nat.le_refl _⟩

theorem inRange_of_fitsInt64 {n : Int} (h : FitsInt64 n) : (Json.int n).inRange = true := by
  unfold FitsInt64 at h
  show (Number.int n).inRange = true
  rw [Number.inRange_int]
  omega

theorem shallow_of_spelled {j : Json} {w : Word} (h : Word.Spelled j w) : Shallow 1 j := by
  cases h with
  | text s => exact ⟨⟨rfl, rfl⟩, Nat.zero_le _⟩
  | number hr =>
      cases hr with
      | whole hfits => exact ⟨⟨rfl, inRange_of_fitsInt64 hfits⟩, Nat.zero_le _⟩
      | pair hn hd _ _ =>
          have hnum := inRange_of_fitsInt64 hn
          have hden := inRange_of_fitsInt64 hd
          refine ⟨⟨rfl, ?_⟩, Nat.le_refl _⟩
          simp only [inRange, inRangeItems] at hnum hden ⊢
          rw [hnum, hden]
          rfl

theorem shallow_of_readCode {j : Json} {code : List Word} (h : j.readCode = .ok code) :
    Shallow 2 j := by
  obtain ⟨items, rfl, hspelled⟩ := readCode_eq_ok.mp h
  have hitems : ∀ x ∈ items, Shallow 1 x := by
    clear h
    induction hspelled with
    | nil => exact fun _ hx => nomatch hx
    | cons hword _ ih => exact List.forall_mem_cons.mpr ⟨shallow_of_spelled hword, ih⟩
  exact ⟨⟨floatFreeItems_iff.mpr fun x hx => (hitems x hx).floatFree,
    inRangeItems_iff.mpr fun x hx => (hitems x hx).inRange⟩,
    Nat.succ_le_succ (nestingItems_le.mpr fun x hx => (hitems x hx).nesting)⟩

end Json

namespace Account

/-- The keys leave four members, each under its name. -/
theorem exists_members_eq {fields : Json.Object} (h : fields.keys = publishedFields) :
    ∃ address balance code codeHash,
      fields.members =
        [("address", address), ("balance", balance), ("code", code), ("codeHash", codeHash)] ∧
      fields.get? "address" = some address ∧ fields.get? "balance" = some balance ∧
      fields.get? "code" = some code ∧ fields.get? "codeHash" = some codeHash := by
  unfold Json.Object.keys publishedFields at h
  unfold Json.Object.get?
  generalize fields.members = members at h
  match members with
  | [] => simp at h
  | [_] => simp at h
  | [_, _] => simp at h
  | [_, _, _] => simp at h
  | [(_, address), (_, balance), (_, code), (_, codeHash)] =>
      simp only [List.map_cons, List.map_nil, List.cons.injEq, and_true] at h
      obtain ⟨rfl, rfl, rfl, rfl⟩ := h
      exact ⟨address, balance, code, codeHash, rfl, rfl, rfl, rfl, rfl⟩
  | _ :: _ :: _ :: _ :: _ :: _ => simp at h

theorem shallow_of_ofFields {fields : Json.Object} {a : Account}
    (hkeys : fields.keys = publishedFields) (h : ofFields fields = .ok a) :
    fields.toJson.Shallow 3 := by
  obtain ⟨haddress, hbalance, hcode, hcodeHash, -⟩ := ofFields_eq_ok.mp h
  obtain ⟨address, balance, code, codeHash, hmembers, hget⟩ := exists_members_eq hkeys
  rw [hget.1, Option.getD_some] at haddress
  rw [hget.2.1, Option.getD_some] at hbalance
  rw [hget.2.2.1, Option.getD_some] at hcode
  rw [hget.2.2.2, Option.getD_some] at hcodeHash
  have h1 := Json.shallow_of_readText haddress
  have h2 := Json.shallow_of_readU64 hbalance
  have h3 := Json.shallow_of_readCode hcode
  have h4 := Json.shallow_of_readDigest? hcodeHash
  have hfree : Json.floatFreeMembers fields.members = true := by
    simp only [hmembers, Json.floatFreeMembers, h1.floatFree, h2.floatFree, h3.floatFree,
      h4.floatFree, Bool.and_self]
  have hrange : Json.inRangeMembers fields.members = true := by
    simp only [hmembers, Json.inRangeMembers, h1.inRange, h2.inRange, h3.inRange, h4.inRange,
      Bool.and_self]
  have hnesting : Json.nestingMembers fields.members ≤ 2 := by
    have hn1 := h1.nesting
    have hn2 := h2.nesting
    have hn3 := h3.nesting
    have hn4 := h4.nesting
    simp only [hmembers, Json.nestingMembers]
    omega
  exact ⟨⟨hfree, hrange⟩, Nat.succ_le_succ hnesting⟩

end Account

namespace Transaction

/-- The account data of a transaction that validates are plain, and no deeper than code. -/
theorem shallow_of_validate {t : Transaction} {s : State} {fields : Json.Object}
    (h : t.validate s = .ok ()) (hdata : t.data = .createAccount fields) :
    fields.toJson.Shallow 3 := by
  simp only [validate, hdata] at h
  obtain ⟨a, hnew, -⟩ := bind_eq_ok.mp h
  obtain ⟨fields', hdata', hkeys, hfields, -⟩ :=
    accountSnapshot_eq_ok.mp (newAccount_eq_ok.mp hnew).1
  cases hdata.symm.trans hdata'
  exact Account.shallow_of_ofFields hkeys hfields

end Transaction

end WorkLedger
