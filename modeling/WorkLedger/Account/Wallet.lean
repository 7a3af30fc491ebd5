/-
# Wallets

A wallet is a secret key with the account it controls.  What a wallet signs, and what is
checked, are the thirty-two bytes of the digest of a value.
-/
import WorkLedger.Account.Basic
import WorkLedger.Signature.Schnorr

namespace WorkLedger

/-- A secret key and its account. -/
structure Wallet where
  key : SecretKey
  account : Account

namespace Wallet

/-- The wallet of a key, its account running `code` and holding the starting balance. -/
def ofKey (key : SecretKey) (code : List Word) : Wallet :=
  ⟨key, .new key.publicKey.address startingBalance code⟩

/-- The address of the account. -/
def address (w : Wallet) : String := w.account.address

/-- Signs a value. -/
def sign? {α : Type} [ToJson α] (w : Wallet) (value : α) : Option Signature :=
  w.key.sign? (digestOf value).bytes

end Wallet

/-- Whether a signature of the value was made with the key that the address names. -/
def verifySignature {α : Type} [ToJson α] (address : String) (value : α) (g : Signature) :
    Bool :=
  match PublicKey.ofAddress? address with
  | some key => key.verifies (digestOf value).bytes g
  | none => false

end WorkLedger
