/-
# Records tell their fields

The JSON forms of words, accounts, transactions and headers are faithful: every field is told
from its member, and the member under its key from the text.
-/
import WorkLedger.Block.Header
import WorkLedger.Proofs.Json.Faithful
import WorkLedger.Proofs.Machine.Words
import WorkLedger.Proofs.Text.Hex
import WorkLedger.Transaction.Basic

namespace WorkLedger

/-! ## Scalars -/

theorem faithful_uint64 : Faithful UInt64 where
  inj h := by
    simp only [toJson, Json.normalize, Json.num.injEq, Number.int.injEq, Int.ofNat_inj] at h
    exact UInt64.toNat.inj h
  ne_null _ := nofun

theorem faithful_string : Faithful String where
  inj h := Json.str.inj h
  ne_null _ := nofun

theorem faithful_digest : Faithful Digest where
  inj h := Digest.toHex_inj (Json.str.inj h)
  ne_null _ := nofun

theorem faithful_signature : Faithful Signature where
  inj h := Signature.toHex_inj (Json.str.inj h)
  ne_null _ := nofun

/-- What a word is written as: a text, an integer or a pair of integers. -/
theorem Word.toJson_eq (w : Word) : toJson w =
    match w with
    | .text s => .str s
    | .number r => if r.den = 1 then .int r.num else .arr [.int r.num, .int r.den] := by
  cases w <;> rfl

theorem Word.normalize_toJson (w : Word) : (toJson w).normalize = toJson w := by
  rw [toJson_eq]
  cases w with
  | text s => rfl
  | number r =>
      simp only
      split <;> rfl

theorem Word.ofJson?_toJson (w : Word) : ofJson? (toJson w) = some w :=
  ofJson?_eq_some.mpr w.spelled_toJson

theorem faithful_word : Faithful Word where
  inj {a b} h := by
    rw [Word.normalize_toJson, Word.normalize_toJson] at h
    have hread := congrArg Word.ofJson? h
    rw [Word.ofJson?_toJson, Word.ofJson?_toJson] at hread
    exact Option.some.inj hread
  ne_null w := by
    rw [Word.toJson_eq]
    cases w with
    | text s => exact nofun
    | number r =>
        simp only
        split <;> exact nofun

theorem faithful_list {α : Type} [ToJson α] (h : Faithful α) : Faithful (List α) where
  inj heq := by
    simp only [toJson, Json.normalize, Json.normalizeItems_eq_map, List.map_map,
      Json.arr.injEq] at heq
    exact h.map_inj heq
  ne_null _ := nofun

/-! ## Accounts -/

/-- The members of an account. -/
def Account.members (a : Account) : List (String × Json) :=
  a.publicMembers ++
    match a.storageRoot with
    | some h => [("storageRoot", toJson h)]
    | none => []

theorem Account.nodup_members (a : Account) : (a.members.map Prod.fst).Nodup := by
  unfold members publicMembers
  cases a.storageRoot <;> simp

theorem Account.lookup_members (a : Account) :
    a.members.lookup "address" = some (toJson a.address) ∧
    a.members.lookup "balance" = some (toJson a.balance) ∧
    a.members.lookup "code" = some (toJson a.code) ∧
    a.members.lookup "codeHash" = some (Json.ofOption toJson a.codeHash) ∧
    a.members.lookup "storageRoot" = a.storageRoot.map toJson := by
  unfold members publicMembers
  cases a.storageRoot <;> simp [List.lookup_cons, toJson]

theorem faithful_account : Faithful Account where
  inj {a b} h := by
    have hobj : (Json.obj a.members).normalize = (Json.obj b.members).normalize := h
    have hkeys := a.nodup_members
    have hkeys' := b.nodup_members
    have hfield := Json.lookup_eq_of_normalize_eq hobj hkeys hkeys'
    obtain ⟨h1, h2, h3, h4, h5⟩ := a.lookup_members
    obtain ⟨h1', h2', h3', h4', h5'⟩ := b.lookup_members
    have haddress := faithful_string.field_inj hobj hkeys hkeys' h1 h1'
    have hbalance := faithful_uint64.field_inj hobj hkeys hkeys' h2 h2'
    have hcode := (faithful_list faithful_word).field_inj hobj hkeys hkeys' h3 h3'
    have hcodeHash : a.codeHash = b.codeHash := by
      have hlookup := hfield "codeHash"
      rw [h4, h4'] at hlookup
      exact faithful_digest.ofOption_inj (Option.some.inj hlookup)
    have hstorageRoot : a.storageRoot = b.storageRoot := by
      have hlookup := hfield "storageRoot"
      rw [h5, h5'] at hlookup
      exact faithful_digest.map_toJson_inj hlookup
    cases a
    cases b
    simp only at haddress hbalance hcode hcodeHash hstorageRoot
    rw [haddress, hbalance, hcode, hcodeHash, hstorageRoot]
  ne_null _ := nofun

/-! ## Transactions -/

theorem Json.Object.ext {o o' : Json.Object} (h : o.members = o'.members) : o = o' := by
  cases o
  cases o'
  cases h
  rfl

theorem Json.Object.eq_of_normalize_eq {o o' : Json.Object}
    (h : o.toJson.normalize = o'.toJson.normalize) : o = o' := by
  rw [o.normalize_toJson, o'.normalize_toJson] at h
  exact Json.Object.ext (Json.obj.inj h)

/-- The members of a payload. -/
def Payload.members (d : Payload) : List (String × Json) :=
  ("type", .str d.kind) ::
    match d with
    | .createAccount fields => [("accountData", fields.toJson)]
    | _ => []

theorem faithful_payload : Faithful Payload where
  inj {d d'} h := by
    have hnodup : ∀ d : Payload, (d.members.map Prod.fst).Nodup := by
      intro d
      unfold Payload.members
      cases d <;> simp
    have hobj : (Json.obj d.members).normalize = (Json.obj d'.members).normalize := h
    have hfield := Json.lookup_eq_of_normalize_eq hobj (hnodup d) (hnodup d')
    have hkind : d.kind = d'.kind := by simpa [Payload.members, Json.normalize] using hfield "type"
    have hdata := hfield "accountData"
    cases d with
    | transact =>
        cases d' with
        | transact => rfl
        | _ => exact absurd hkind (by simp [Payload.kind])
    | miningReward =>
        cases d' with
        | miningReward => rfl
        | _ => exact absurd hkind (by simp [Payload.kind])
    | createAccount fields =>
        cases d' with
        | createAccount fields' =>
            have heq : fields.toJson.normalize = fields'.toJson.normalize := by
              simpa [Payload.members, List.lookup_cons] using hdata
            rw [Json.Object.eq_of_normalize_eq heq]
        | _ => exact absurd hkind (by simp [Payload.kind])
  ne_null _ := nofun

/-- The members of a transaction. -/
def Transaction.members (t : Transaction) : List (String × Json) :=
  [("id", .str t.id), ("from", .str t.sender), ("to", .str t.recipient),
    ("value", toJson t.value), ("gasLimit", toJson t.gasLimit), ("data", toJson t.data)] ++
    match t.signature with
    | some g => [("signature", toJson g)]
    | none => []

theorem Transaction.nodup_members (t : Transaction) : (t.members.map Prod.fst).Nodup := by
  unfold members
  cases t.signature <;> simp

theorem Transaction.lookup_members (t : Transaction) :
    t.members.lookup "id" = some (toJson t.id) ∧
    t.members.lookup "from" = some (toJson t.sender) ∧
    t.members.lookup "to" = some (toJson t.recipient) ∧
    t.members.lookup "value" = some (toJson t.value) ∧
    t.members.lookup "gasLimit" = some (toJson t.gasLimit) ∧
    t.members.lookup "data" = some (toJson t.data) ∧
    t.members.lookup "signature" = t.signature.map toJson := by
  unfold members
  cases t.signature <;> simp [List.lookup_cons, toJson]

theorem faithful_transaction : Faithful Transaction where
  inj {t u} h := by
    have hobj : (Json.obj t.members).normalize = (Json.obj u.members).normalize := h
    have hkeys := t.nodup_members
    have hkeys' := u.nodup_members
    obtain ⟨h1, h2, h3, h4, h5, h6, h7⟩ := t.lookup_members
    obtain ⟨h1', h2', h3', h4', h5', h6', h7'⟩ := u.lookup_members
    have hid := faithful_string.field_inj hobj hkeys hkeys' h1 h1'
    have hsender := faithful_string.field_inj hobj hkeys hkeys' h2 h2'
    have hrecipient := faithful_string.field_inj hobj hkeys hkeys' h3 h3'
    have hvalue := faithful_uint64.field_inj hobj hkeys hkeys' h4 h4'
    have hgasLimit := faithful_uint64.field_inj hobj hkeys hkeys' h5 h5'
    have hdata := faithful_payload.field_inj hobj hkeys hkeys' h6 h6'
    have hsignature : t.signature = u.signature := by
      have hlookup := Json.lookup_eq_of_normalize_eq hobj hkeys hkeys' "signature"
      rw [h7, h7'] at hlookup
      exact faithful_signature.map_toJson_inj hlookup
    cases t
    cases u
    simp only at hid hsender hrecipient hvalue hgasLimit hdata hsignature
    rw [hid, hsender, hrecipient, hvalue, hgasLimit, hdata, hsignature]
  ne_null _ := nofun

theorem Transaction.normalize_toJson (t : Transaction) :
    (toJson t).normalize =
      .obj ([("data", (toJson t.data).normalize), ("from", .str t.sender),
        ("gasLimit", toJson t.gasLimit), ("id", .str t.id)] ++
          (match t.signature with
            | some g => [("signature", toJson g)]
            | none => []) ++
          [("to", .str t.recipient), ("value", toJson t.value)]) := by
  obtain ⟨id, sender, recipient, value, gasLimit, data, signature⟩ := t
  cases signature <;> rfl

/-! ## Headers -/

/-- The members of a header, with the nonce. -/
def Header.allMembers (h : Header) : List (String × Json) :=
  h.members ++ [("nonce", toJson h.nonce)]

theorem Header.nodup_allMembers (h : Header) : (h.allMembers.map Prod.fst).Nodup := by
  simp [allMembers, HeaderCore.members]

theorem Header.lookup_allMembers (h : Header) :
    h.allMembers.lookup "parentHash" = some (toJson h.parentHash) ∧
    h.allMembers.lookup "beneficiary" = some (toJson h.beneficiary) ∧
    h.allMembers.lookup "difficulty" = some (toJson h.difficulty) ∧
    h.allMembers.lookup "number" = some (toJson h.number) ∧
    h.allMembers.lookup "timestamp" = some (toJson h.timestamp) ∧
    h.allMembers.lookup "transactionsRoot" = some (toJson h.transactionsRoot) ∧
    h.allMembers.lookup "stateRoot" = some (toJson h.stateRoot) ∧
    h.allMembers.lookup "nonce" = some (toJson h.nonce) := by
  simp [allMembers, HeaderCore.members, List.lookup_cons, toJson]

theorem faithful_header : Faithful Header where
  inj {a b} h := by
    have hobj : (Json.obj a.allMembers).normalize = (Json.obj b.allMembers).normalize := h
    have hkeys := a.nodup_allMembers
    have hkeys' := b.nodup_allMembers
    obtain ⟨h1, h2, h3, h4, h5, h6, h7, h8⟩ := a.lookup_allMembers
    obtain ⟨h1', h2', h3', h4', h5', h6', h7', h8'⟩ := b.lookup_allMembers
    have hparentHash := faithful_digest.field_inj hobj hkeys hkeys' h1 h1'
    have hbeneficiary := faithful_string.field_inj hobj hkeys hkeys' h2 h2'
    have hdifficulty := faithful_uint64.field_inj hobj hkeys hkeys' h3 h3'
    have hnumber := faithful_uint64.field_inj hobj hkeys hkeys' h4 h4'
    have htimestamp := faithful_uint64.field_inj hobj hkeys hkeys' h5 h5'
    have htransactionsRoot := faithful_digest.field_inj hobj hkeys hkeys' h6 h6'
    have hstateRoot := faithful_digest.field_inj hobj hkeys hkeys' h7 h7'
    have hnonce := faithful_uint64.field_inj hobj hkeys hkeys' h8 h8'
    obtain ⟨⟨_, _, _, _, _, _, _⟩, _⟩ := a
    obtain ⟨⟨_, _, _, _, _, _, _⟩, _⟩ := b
    rw [Header.mk.injEq, HeaderCore.mk.injEq]
    exact ⟨⟨hparentHash, hbeneficiary, hdifficulty, hnumber, htimestamp, htransactionsRoot,
      hstateRoot⟩, hnonce⟩
  ne_null _ := nofun

theorem Header.normalize_toJson (h : Header) : (toJson h).normalize =
    .obj [("beneficiary", .str h.beneficiary), ("difficulty", toJson h.difficulty),
      ("nonce", toJson h.nonce), ("number", toJson h.number),
      ("parentHash", toJson h.parentHash), ("stateRoot", toJson h.stateRoot),
      ("timestamp", toJson h.timestamp), ("transactionsRoot", toJson h.transactionsRoot)] := rfl

end WorkLedger
