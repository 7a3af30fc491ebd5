/-
# The pool of pending transactions

Transactions are found by identifier and kept in the order of their arrival.  The first
transaction of an identifier stays until it is cleared.
-/
import Std.Data.HashMap
import WorkLedger.Transaction.Basic

namespace WorkLedger

/-- Pending transactions. -/
structure Pool where
  /-- The transactions by identifier. -/
  transactions : Std.HashMap String Transaction
  /-- The identifiers in the order of arrival. -/
  order : List String

namespace Pool

/-- The pool without transactions. -/
def empty : Pool := ⟨∅, []⟩

instance : Inhabited Pool := ⟨empty⟩

/-- Whether a transaction of that identifier is pending. -/
def contains (p : Pool) (id : String) : Bool := p.transactions.contains id

/-- The number of pending transactions. -/
def size (p : Pool) : Nat := p.transactions.size

/-- The pending transactions in the order of their arrival. -/
def toList (p : Pool) : List Transaction := p.order.filterMap fun id => p.transactions[id]?

/-- Adds a transaction at the end, and whether it was added: not if its identifier is
pending. -/
def add (p : Pool) (t : Transaction) : Bool × Pool :=
  if p.contains t.id then (false, p)
  else (true, ⟨p.transactions.insert t.id t, p.order ++ [t.id]⟩)

/-- Takes the transactions of a series out of a map, and counts those that were in it. -/
def removeAll : List Transaction → Std.HashMap String Transaction →
    Std.HashMap String Transaction × Nat
  | [], m => (m, 0)
  | t :: rest, m =>
      if m.contains t.id then
        let (left, removed) := removeAll rest (m.erase t.id)
        (left, removed + 1)
      else removeAll rest m

/-- Removes the transactions of a series.  The order is gone through only if one of them was
pending. -/
def clear (p : Pool) (series : List Transaction) : Pool :=
  let (left, removed) := removeAll series p.transactions
  ⟨left, if removed > 0 then p.order.filter fun id => left.contains id else p.order⟩

end Pool

end WorkLedger
