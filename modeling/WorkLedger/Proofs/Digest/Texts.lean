/-
# What a hashed text tells

Every digest of the ledger is taken of a canonical text, and so is every signature.  The text
tells what it was written for: a value up to the order of the members of its objects, a record
with all its fields, and a tree with all its nodes.  Where a text is put together for a purpose,
as it is for the proof of work and for code, its parts can be told from it.

So things that differ never have one digest because they were written alike.
-/
import WorkLedger.Proofs.Json.Records
import WorkLedger.Proofs.Trie.Commitment

namespace WorkLedger

/-! ## Records -/

/-- The text of a record tells the record. -/
theorem Faithful.eq_of_textOf_eq {α : Type} [ToJson α] (h : Faithful α) {a b : α}
    (heq : textOf a = textOf b) : a = b :=
  h.inj (Json.normalize_eq_of_canonical_eq heq)

/-- What is signed tells everything but the signature. -/
theorem Transaction.eq_of_textOf_signingPayload_eq {t u : Transaction}
    (h : textOf t.signingPayload = textOf u.signingPayload) :
    u = { t with signature := u.signature } := by
  have hpayload := faithful_transaction.eq_of_textOf_eq h
  cases t
  cases u
  cases hpayload
  rfl

/-! ## Texts put together -/

namespace HeaderCore

/-- What the proof of work is the digest of. -/
def workText (core : Digest) (nonce : UInt64) : String := textOf (core.toHex ++ toString nonce.toNat)

theorem workHashOf_eq (core : Digest) (nonce : UInt64) :
    workHashOf core nonce = Digest.ofText (workText core nonce) := rfl

/-- The digits of a digest have one length, so that the nonce starts behind them. -/
theorem workText_inj {core core' : Digest} {nonce nonce' : UInt64}
    (h : workText core nonce = workText core' nonce') : core = core' ∧ nonce = nonce' := by
  have htext := congrArg String.toList (faithful_string.eq_of_textOf_eq h)
  rw [String.toList_append, String.toList_append] at htext
  have hlength : core.toHex.toList.length = core'.toHex.toList.length := by
    rw [core.length_toHex, core'.length_toHex]
  obtain ⟨hcore, hnonce⟩ := List.append_inj htext hlength
  have hdigits : Nat.toDigits 10 nonce.toNat = Nat.toDigits 10 nonce'.toNat :=
    String.ofList_injective (String.toList_injective hnonce)
  exact ⟨Digest.toHex_inj (String.toList_injective hcore), UInt64.toNat.inj (toDigits_inj hdigits)⟩

end HeaderCore

namespace Account

/-- What the key of a contract is the digest of. -/
def codeText (address : String) (code : List Word) : String :=
  (Json.arr [.str address, toJson code]).canonical

theorem codeHashOf_eq (address : String) {code : List Word} (h : code ≠ []) :
    codeHashOf address code = some (Digest.ofText (codeText address code)) :=
  if_neg fun hempty => h (List.isEmpty_iff.mp hempty)

theorem codeText_inj {address address' : String} {code code' : List Word}
    (h : codeText address code = codeText address' code') : address = address' ∧ code = code' := by
  have hnormal := Json.normalize_eq_of_canonical_eq h
  simp only [Json.normalize, Json.normalizeItems, Json.arr.injEq, List.cons.injEq, Json.str.injEq,
    and_true] at hnormal
  exact ⟨hnormal.1, (faithful_list faithful_word).inj hnormal.2⟩

end Account

/-! ## Trees -/

/-- The text of a tree whose labels ascend tells the tree. -/
theorem Trie.Node.Ordered.eq_of_textOf_eq {α : Type} [ToJson α] (hα : Faithful α)
    {m n : Trie.Node α} (hm : m.Ordered) (hn : n.Ordered) (h : textOf m = textOf n) : m = n :=
  hm.normalize_inj hα hn (Json.normalize_eq_of_canonical_eq h)

/-! ## All hashed texts -/

/-- Whatever is hashed can be told from the text: a value whose objects are maps, whether it has
floats or not; an object in whatever order its members stand, from the texts under its keys; a
transaction but for its signature from what is signed; a header; the fields of a header, by
their digest, and the nonce from what the proof of work is taken of; address and code; and a
tree over any of the things that tries hold, the children of its nodes being maps. -/
theorem hashed_texts_tell :
    (∀ a b : Json, a.isNormal = true → b.isNormal = true → a.canonical = b.canonical → a = b) ∧
    (∀ members members' : List (String × Json), (members.map Prod.fst).Nodup →
      (members'.map Prod.fst).Nodup →
      ((Json.obj members).canonical = (Json.obj members').canonical ↔
        ∀ key, (members.lookup key).map Json.canonical =
          (members'.lookup key).map Json.canonical)) ∧
    (∀ t u : Transaction, textOf t.signingPayload = textOf u.signingPayload →
      u = { t with signature := u.signature }) ∧
    (∀ g h : Header, textOf g = textOf h → g = h) ∧
    (∀ (core core' : Digest) (nonce nonce' : UInt64),
      HeaderCore.workHashOf core nonce = Digest.ofText (HeaderCore.workText core nonce) ∧
      (HeaderCore.workText core nonce = HeaderCore.workText core' nonce' →
        core = core' ∧ nonce = nonce')) ∧
    (∀ (address address' : String) (code code' : List Word),
      (code ≠ [] →
        Account.codeHashOf address code = some (Digest.ofText (Account.codeText address code))) ∧
      (Account.codeText address code = Account.codeText address' code' →
        address = address' ∧ code = code')) ∧
    (∀ m n : Trie.Node Account, m.Ordered → n.Ordered → textOf m = textOf n → m = n) ∧
    (∀ m n : Trie.Node Word, m.Ordered → n.Ordered → textOf m = textOf n → m = n) ∧
    (∀ m n : Trie.Node Transaction, m.Ordered → n.Ordered → textOf m = textOf n → m = n) := by
  refine ⟨?values, ?objects, ?signed, ?headers, ?work, ?code, ?accounts, ?words, ?transactions⟩
  case values => exact fun a b ha hb h => Json.eq_of_canonical_eq ha hb h
  case objects => exact fun members members' h h' => Json.canonical_obj_eq_iff h h'
  case signed => exact fun t u h => Transaction.eq_of_textOf_signingPayload_eq h
  case headers => exact fun g h heq => faithful_header.eq_of_textOf_eq heq
  case work =>
    exact fun core core' nonce nonce' => ⟨HeaderCore.workHashOf_eq core nonce, HeaderCore.workText_inj⟩
  case code =>
    exact fun address address' code code' => ⟨Account.codeHashOf_eq address, Account.codeText_inj⟩
  case accounts => exact fun m n hm hn h => hm.eq_of_textOf_eq faithful_account hn h
  case words => exact fun m n hm hn h => hm.eq_of_textOf_eq faithful_word hn h
  case transactions => exact fun m n hm hn h => hm.eq_of_textOf_eq faithful_transaction hn h

/-- The theorem where texts are equal: of a value with a quote, a backslash and empty containers
in it and the map of its members in the other order, of an object in two orders, of a
transaction before and after it is signed, and of trees that were put together in two orders. -/
theorem hashed_texts_tell_signed :
    let nested : Json := .obj [("\"", .arr []), ("\\", .obj [("", .str "\n")])]
    let swapped : Json := .obj [("\\", .obj [("", .str "\n")]), ("\"", .arr [])]
    let members : List (String × Json) := [("x", .str "s"), ("b", .arr [.int 1, .int 2])]
    let unsigned : Transaction := ⟨"id", "a", "b", 5, 40, .transact, none⟩
    let signed : Transaction := { unsigned with signature := some ⟨1, 1, by decide, by decide⟩ }
    let header : Header := ⟨⟨.zero, "a", 1, 2, 3, .zero, .zero⟩, 4⟩
    let code : List Word := [.text "ADD", .number .one]
    let slots : Trie.Node Word := (Trie.Node.empty.put "b" (.text "STOP")).put "ab" (.number .one)
    let slots' : Trie.Node Word := (Trie.Node.empty.put "ab" (.number .one)).put "b" (.text "STOP")
    (nested.isNormal = true ∧ swapped.normalize.isNormal = true ∧
      nested.canonical = swapped.normalize.canonical ∧ nested = swapped.normalize) ∧
    ((members.map Prod.fst).Nodup ∧ (members.reverse.map Prod.fst).Nodup ∧
      ∀ key, (members.lookup key).map Json.canonical =
        (members.reverse.lookup key).map Json.canonical) ∧
    (textOf signed.signingPayload = textOf unsigned.signingPayload ∧
      unsigned = { signed with signature := unsigned.signature }) ∧
    header = header ∧ (Digest.zero = Digest.zero ∧ (7 : UInt64) = 7) ∧ ("a" = "a" ∧ code = code) ∧
    Trie.Node.empty (α := Account) = .empty ∧
    (slots.Ordered ∧ slots'.Ordered ∧ textOf slots = textOf slots' ∧ slots = slots') ∧
    Trie.Node.empty (α := Transaction) = .empty := by
  intro nested swapped members unsigned signed header code slots slots'
  obtain ⟨hvalues, hobjects, hsigned, hheaders, hwork, hcode, haccounts, hwords, htransactions⟩ :=
    hashed_texts_tell
  have hnested : nested.isNormal = true := by decide
  have hswapped : swapped.normalize.isNormal = true := swapped.isNormal_normalize
  have hmap : nested.canonical = swapped.normalize.canonical := rfl
  have hkeys : (members.map Prod.fst).Nodup := by decide
  have hkeys' : (members.reverse.map Prod.fst).Nodup := by decide
  have horders : (Json.obj members).canonical = (Json.obj members.reverse).canonical := rfl
  have hpayload : textOf signed.signingPayload = textOf unsigned.signingPayload := rfl
  have hslots : slots.Ordered := ((Trie.Node.canonical_empty.put _ _).put _ _).ordered
  have hslots' : slots'.Ordered := ((Trie.Node.canonical_empty.put _ _).put _ _).ordered
  have htexts : textOf slots = textOf slots' := rfl
  exact ⟨⟨hnested, hswapped, hmap, hvalues nested swapped.normalize hnested hswapped hmap⟩,
    ⟨hkeys, hkeys', (hobjects members members.reverse hkeys hkeys').mp horders⟩,
    ⟨hpayload, hsigned signed unsigned hpayload⟩, hheaders header header rfl,
    (hwork .zero .zero 7 7).2 rfl, (hcode "a" "a" code code).2 rfl,
    haccounts .empty .empty trivial trivial rfl,
    ⟨hslots, hslots', htexts, hwords slots slots' hslots hslots' htexts⟩,
    htransactions .empty .empty trivial trivial rfl⟩

end WorkLedger
