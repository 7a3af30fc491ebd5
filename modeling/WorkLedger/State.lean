/-
# The world state

A trie of accounts, and a trie of contract storage for each key.  Storage is bound to the
state root through the account: whenever an account is stored, it is stamped with the root
that its storage has at that moment.
-/
import Std.Data.HashMap
import WorkLedger.Account.Basic
import WorkLedger.Machine.Basic

namespace WorkLedger

/-- Accounts and contract storage by key. -/
structure State where
  accounts : Trie Account
  storage : Std.HashMap String (Trie Word)

namespace State

/-- The state before any block. -/
def empty : State := ⟨.empty, ∅⟩

instance : Inhabited State := ⟨empty⟩

/-- The account under a key. -/
def account? (s : State) (key : String) : Option Account := s.accounts.get? key

/-- The digest of all accounts, and through them of all storage. -/
def root (s : State) : Digest := s.accounts.root

/-- The balance of the account under a key. -/
def balance? (s : State) (key : String) : Option UInt64 := (s.account? key).map (·.balance)

/-- The storage under a key, if it has been created. -/
def storage? (s : State) (key : String) : Option (Trie Word) := s.storage[key]?

/-- The storage under a key, empty if it has not been created. -/
def storageAt (s : State) (key : String) : Trie Word := (s.storage? key).getD .empty

/-- Replaces the storage under a key.  The root does not change before the account is stored
again. -/
def setStorage (s : State) (key : String) (storage : Trie Word) : State :=
  { s with storage := s.storage.insert key storage }

/-- Stores an account under a key, stamped with the root of the storage there, which is
created if it is missing. -/
def putAccount (s : State) (key : String) (a : Account) : State :=
  let storage := s.storageAt key
  { accounts := s.accounts.put key { a with storageRoot := some storage.root }
    storage := s.storage.insert key storage }

end State

end WorkLedger
