/-
# Which account data are accepted

Account data are a map that anybody may write.  They are accepted if they describe an account and
the state has none under its key.  To describe one they need its four fields and no others, and
every field has to spell its value: a fraction in any terms, a hash in either case of its letters.
The hash is taken of the words that are spelled, so that it does not depend on their spelling.

What an account publishes describes it.
-/
import Mathlib.Data.List.Sort
import WorkLedger.Proofs.Digest.Texts
import WorkLedger.Proofs.Transaction.Published

namespace WorkLedger

/-! ## The keys of a map -/

namespace Json

variable {members : List (String × Json)}

theorem isSome_lookup_iff {name : String} :
    (members.lookup name).isSome = true ↔ name ∈ members.map Prod.fst := by
  rw [List.lookup_isSome_iff, List.mem_map]
  simp only [beq_iff_eq, eq_comm (a := name)]

/-- The keys of a map ascend, each less than all later ones. -/
theorem pairwise_of_ascending (h : ascending members = true) :
    (members.map Prod.fst).Pairwise (· < ·) := by
  induction members with
  | nil => exact .nil
  | cons m rest ih =>
      refine .cons ?_ (ih (ascending_of_cons h))
      intro name hname
      by_contra hlt
      rw [← isSome_lookup_iff, lookup_eq_none_of_ascending h hlt] at hname
      exact nomatch hname

/-- A map has some names for its keys exactly if it has a value under each of them and under no
other one. -/
theorem Object.keys_eq_iff {o : Object} {names : List String}
    (hnames : names.Pairwise (· < ·)) :
    o.keys = names ↔ ∀ name, (o.get? name).isSome = true ↔ name ∈ names := by
  have hget : ∀ name, (o.get? name).isSome = true ↔ name ∈ o.keys := fun _ =>
    isSome_lookup_iff
  have hkeys : o.keys.Pairwise (· < ·) := by
    have hnormal := o.normal
    simp only [isNormal, Bool.and_eq_true] at hnormal
    exact pairwise_of_ascending hnormal.1
  constructor
  · intro h name
    rw [hget, h]
  · intro h
    refine hkeys.eq_of_mem_iff hnames ?_
    intro name
    rw [← hget, h]

end Json

/-! ## Descriptions -/

namespace Account

/-- Fields describe an account: they are the four fields of one, and each of them spells its
value. -/
structure Describes (fields : Json.Object) (a : Account) : Prop where
  keys : ∀ name, (fields.get? name).isSome = true ↔ name ∈ publishedFields
  address : fields.get? "address" = some (.str a.address)
  balance : fields.get? "balance" = some (.int a.balance.toNat)
  code : ∃ items, fields.get? "code" = some (.arr items) ∧ List.Forall₂ Word.Spelled items a.code
  /-- A plain account has no hash. -/
  plain : a.code = [] → fields.get? "codeHash" = some .null
  /-- The hash of a contract is that of the address and the words, in digits of either case. -/
  contract : a.code ≠ [] → ∃ digits, fields.get? "codeHash" = some (.str digits) ∧
    digits.toList.map Char.toLower =
      (Json.digest (.arr [.str a.address, toJson a.code])).toHex.toList
  /-- What the account has besides is the hash of its code, and no storage root. -/
  fresh : a = .new a.address a.balance a.code

variable {fields : Json.Object} {a : Account}

theorem pairwise_publishedFields : publishedFields.Pairwise (· < ·) := by
  unfold publishedFields
  decide

/-- The hash is read as that of address and code exactly if it is null without code, and their
hash in any case of its letters otherwise. -/
theorem readDigest?_eq_codeHashOf {j : Json} {address : String} {code : List Word} :
    j.readDigest? = .ok (codeHashOf address code) ↔
      (code = [] → j = .null) ∧
      (code ≠ [] → ∃ digits, j = .str digits ∧ digits.toList.map Char.toLower =
        (Json.digest (.arr [.str address, toJson code])).toHex.toList) := by
  by_cases hcode : code = []
  · subst hcode
    simp [codeHashOf, Json.readDigest?_eq_none]
  · have hhash : codeHashOf address code =
        some (Json.digest (.arr [.str address, toJson code])) := codeHashOf_eq address hcode
    rw [hhash, Json.readDigest?_eq_some, Json.readDigest_eq_ok]
    simp [hcode]

/-- Without a storage root and with the hash of its code, an account has not been stored. -/
theorem eq_new_iff : a = .new a.address a.balance a.code ↔
    a.codeHash = codeHashOf a.address a.code ∧ a.storageRoot = none := by
  obtain ⟨address, balance, code, codeHash, storageRoot⟩ := a
  simp [new]

/-- Data describe an account exactly if they have its keys, are read as it and have the right
hash. -/
theorem describes_iff : Describes fields a ↔
    fields.keys = publishedFields ∧ ofFields fields = .ok a ∧
      a.codeHash = codeHashOf a.address a.code := by
  have hkeys := Json.Object.keys_eq_iff (o := fields) pairwise_publishedFields
  constructor
  · intro h
    obtain ⟨hcodeHash, hroot⟩ := eq_new_iff.mp h.fresh
    obtain ⟨items, hitems, hspelled⟩ := h.code
    refine ⟨hkeys.mpr h.keys, ofFields_eq_ok.mpr ⟨?address, ?balance, ?code, ?codeHash, hroot⟩,
      hcodeHash⟩
    case address =>
      rw [h.address]
      rfl
    case balance =>
      rw [h.balance]
      exact Json.readU64_eq_ok.mpr rfl
    case code =>
      rw [hitems]
      exact Json.readCode_eq_ok.mpr ⟨items, rfl, hspelled⟩
    case codeHash =>
      rw [hcodeHash]
      refine readDigest?_eq_codeHashOf.mpr ⟨?_, ?_⟩
      · intro hcode
        rw [h.plain hcode]
        rfl
      · intro hcode
        obtain ⟨digits, hdigits, hlower⟩ := h.contract hcode
        rw [hdigits]
        exact ⟨digits, rfl, hlower⟩
  · rintro ⟨hnames, hread, hcodeHash⟩
    obtain ⟨address, balance, code, hash, -, haddress, hbalance, hcode, hhash⟩ :=
      exists_members_eq hnames
    simp only [ofFields_eq_ok, haddress, hbalance, hcode, hhash, Option.getD_some,
      Json.readText_eq_ok, Json.readU64_eq_ok, Json.readCode_eq_ok, hcodeHash,
      readDigest?_eq_codeHashOf] at hread
    obtain ⟨rfl, rfl, ⟨items, rfl, hspelled⟩, ⟨hplain, hcontract⟩, hroot⟩ := hread
    refine ⟨hkeys.mp hnames, haddress, hbalance, ⟨items, hcode, hspelled⟩, ?plain, ?contract,
      eq_new_iff.mpr ⟨hcodeHash, hroot⟩⟩
    case plain =>
      intro hempty
      rw [hhash, hplain hempty]
    case contract =>
      intro hne
      obtain ⟨digits, rfl, hlower⟩ := hcontract hne
      exact ⟨digits, hhash, hlower⟩

end Account

namespace Transaction

variable {t : Transaction} {s : State} {fields : Json.Object}

/-- The account that data publish is the one that they describe. -/
theorem accountSnapshot_iff_describes {a : Account} (hdata : t.data = .createAccount fields) :
    t.accountSnapshot = .ok a ↔ Account.Describes fields a := by
  rw [accountSnapshot_eq_ok, Account.describes_iff, hdata]
  constructor
  · rintro ⟨_, ⟨⟩, h⟩
    exact h
  · intro h
    exact ⟨fields, rfl, h⟩

/-- A publication is accepted exactly if its data describe an account and the state has none under
the key of that.  An account with the hash of its code publishes itself, but for a storage root. -/
theorem publication_accepted_iff :
    (∀ (t : Transaction) (s : State) (fields : Json.Object), t.data = .createAccount fields →
      (t.validateCreateAccount s = .ok () ↔
        ∃ a, Account.Describes fields a ∧ s.account? a.storageKey = none)) ∧
    ∀ (a : Account) (id : String), a.codeHash = Account.codeHashOf a.address a.code →
      (createAccount a id).accountSnapshot = .ok { a with storageRoot := none } := by
  constructor
  · intro t s fields hdata
    rw [validateCreateAccount_eq_ok]
    simp only [newAccount_eq_ok, accountSnapshot_iff_describes hdata]
  · intro a id hcodeHash
    exact accountSnapshot_createAccount (a := { a with storageRoot := none }) id hcodeHash rfl

/-- Two thirds. -/
def thirds : Rational where
  num := 2
  den := 3
  den_pos := Nat.succ_pos 2
  reduced := rfl
  num_fits := by decide
  den_fits := by decide

/-- A contract that is two thirds. -/
def thirdsContract : Account := .new "ada" 5 [.number thirds]

/-- Its fields in another order, with four sixths for the two thirds. -/
def sixths (digits : String) : Json.Object := .ofMembers
  [("code", .arr [.arr [.int 4, .int 6]]), ("codeHash", .str digits), ("balance", .int 5),
    ("address", .str "ada")]

theorem describes_sixths {digits : String} (h : digits.toList.map Char.toLower =
    (Json.digest (.arr [.str "ada", toJson [Word.number thirds]])).toHex.toList) :
    Account.Describes (sixths digits) thirdsContract where
  keys := by
    rw [← Json.Object.keys_eq_iff Account.pairwise_publishedFields]
    rfl
  address := rfl
  balance := rfl
  code := ⟨_, rfl, .cons (.number (.pair (by decide) (by decide) (by decide) rfl)) .nil⟩
  plain := nofun
  contract _ := ⟨digits, rfl, h⟩
  fresh := rfl

/-- With its hash in capitals the contract is accepted under this description; and it publishes
itself under its own. -/
theorem publication_accepted_sixths :
    let hash := Json.digest (.arr [.str "ada", toJson [Word.number thirds]])
    let capitals := String.ofList (hash.toHex.toList.map Char.toUpper)
    let t : Transaction :=
      { createAccount thirdsContract "tx" with data := .createAccount (sixths capitals) }
    t.validateCreateAccount .empty = .ok () ∧
      (createAccount thirdsContract "tx").accountSnapshot = .ok thirdsContract := by
  intro hash capitals t
  have hlower : capitals.toList.map Char.toLower = hash.toHex.toList := by
    rw [String.toList_ofList, Digest.toHex, Hex.toList_text, List.map_map]
    exact Hex.map_toLower_toUpper_encode hash.bytes
  have hempty : State.empty.account? thirdsContract.storageKey = none := State.account?_empty _
  obtain ⟨haccepted, hpublished⟩ := publication_accepted_iff
  exact ⟨(haccepted t .empty (sixths capitals) rfl).mpr
    ⟨thirdsContract, describes_sixths hlower, hempty⟩, hpublished thirdsContract "tx" rfl⟩

end Transaction

end WorkLedger
