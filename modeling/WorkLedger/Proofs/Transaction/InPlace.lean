/-
# Transactions in place

A transaction changes a state by one write after another, and it works out amounts on its way
that are 64-bit numbers.  Here every kind is spelled out write by write, with arithmetic that
stops where an amount would wrap around.

Steps in place do what `run` says: where that gives a state they end in it, and where it gives an
error they stop with the error before the first write.  The one exception is a transfer whose
charge, the value together with the gas, is no 64-bit number.  All other amounts stay in range,
whatever the code of the recipient is.
-/
import WorkLedger.Proofs.Transaction.PerKey

namespace WorkLedger

/-! ## Steps -/

/-- The amounts that a transfer works out. -/
inductive Amount where
  /-- Value and gas together. -/
  | charge
  /-- What the sender has left. -/
  | debited
  /-- What the recipient has in the end. -/
  | credited

/-- Why a transaction stops. -/
inductive Stop where
  | refused (e : TransactionError)
  /-- The amount is no 64-bit number. -/
  | leavesRange (amount : Amount)

/-- Steps that write to a state as they go.  What was written before a stop stays. -/
abbrev Steps (α : Type) := ExceptT Stop (StateM State) α

/-- The outcome of steps, and the state after them. -/
def Steps.on {α : Type} (m : Steps α) (s : State) : Except Stop α × State := m.run s

namespace Amount

/-- A sum that has to be in range. -/
def add (amount : Amount) (a b : UInt64) : Except Stop UInt64 :=
  if UInt64.size ≤ a.toNat + b.toNat then .error (.leavesRange amount) else .ok (a + b)

/-- A difference that has to be in range. -/
def sub (amount : Amount) (a b : UInt64) : Except Stop UInt64 :=
  if a < b then .error (.leavesRange amount) else .ok (a - b)

variable {amount : Amount} {a b : UInt64}

theorem add_of_lt (h : a.toNat + b.toNat < UInt64.size) : amount.add a b = .ok (a + b) :=
  if_neg (Nat.not_le.mpr h)

theorem add_of_le (h : UInt64.size ≤ a.toNat + b.toNat) :
    amount.add a b = .error (.leavesRange amount) :=
  if_pos h

theorem sub_of_le (h : b ≤ a) : amount.sub a b = .ok (a - b) :=
  if_neg (UInt64.not_lt.mpr h)

end Amount

namespace Transaction

/-- Moves value in place. -/
def transferInPlace (t : Transaction) : Steps Unit := do
  let s ← get
  let sender ← ofExcept ((t.payer s).mapError .refused)
  let recipient ← ofExcept ((t.payee s).mapError .refused)
  -- The code runs on a copy of its storage.
  let (gasUsed, storage) ← ofExcept ((t.call s recipient).mapError .refused)
  let charge ← ofExcept (Amount.charge.add t.value gasUsed)
  if t.sender ≠ t.recipient ∧ UInt64.size ≤ recipient.balance.toNat + charge.toNat then
    throw (.refused (.balanceOverflow t.recipient))
  let debited ← ofExcept (Amount.debited.sub sender.balance charge)
  modify (·.putAccount t.sender { sender with balance := debited })
  if let some left := storage then modify (·.setStorage t.recipient left)
  -- The recipient is read again, who may be the sender.
  let s ← get
  let recipient := (s.account? t.recipient).getD recipient
  let credited ← ofExcept (Amount.credited.add recipient.balance charge)
  modify (·.putAccount t.recipient { recipient with balance := credited })

/-- Runs a transaction in place. -/
def inPlace (t : Transaction) : Steps Unit :=
  match t.data with
  | .transact => t.transferInPlace
  | .createAccount _ => do
      let s ← get
      let a ← ofExcept ((t.newAccount s).mapError .refused)
      modify (·.putAccount a.storageKey a)
  | .miningReward => do
      let s ← get
      let a := (s.account? t.recipient).getD (.new t.recipient 0 [])
      if UInt64.size ≤ a.balance.toNat + t.value.toNat then
        throw (.refused (.balanceOverflow t.recipient))
      modify (·.putAccount t.recipient { a with balance := a.balance + t.value })

end Transaction

/-! ## Steps against computations -/

namespace Steps

variable {α : Type} {start s : State}

/-- From `s` on steps come to the outcome of `x`.  At a state they end in it; at an error they stop
with it, and the state is that at the `start`. -/
def Realizes (start : State) (m : Steps Unit) (s : State)
    (x : Except TransactionError State) : Prop :=
  m.on s = match x with
    | .ok s' => (.ok (), s')
    | .error e => (.error (.refused e), start)

namespace Realizes

variable {k : α → Steps Unit} {y : Except TransactionError State}

theorem read_bind {k : State → Steps Unit} (h : Realizes start (k s) s y) :
    Realizes start (get >>= k) s y := h

theorem write {f : State → State} : Realizes start (modify f) s (.ok (f s)) := rfl

theorem write_bind {f : State → State} {k : Unit → Steps Unit}
    (h : Realizes start (k ()) (f s) y) : Realizes start (modify f >>= k) s y := h

/-- An amount in range stops nothing. -/
theorem amount_bind {x : Except Stop α} {a : α} (hx : x = .ok a)
    (h : Realizes start (k a) s y) : Realizes start (ofExcept x >>= k) s y := by
  rw [hx]
  exact h

/-- A rule that refuses stops both, if nothing is written yet. -/
theorem rule_bind {x : Except TransactionError α} {f : α → Except TransactionError State}
    (h : ∀ a, x = .ok a → Realizes s (k a) s (f a)) :
    Realizes s (ofExcept (x.mapError .refused) >>= k) s (x >>= f) := by
  cases x with
  | error e => rfl
  | ok a => exact h a rfl

theorem check {c : Prop} {_ : Decidable c} {e : TransactionError} {k : PUnit → Steps Unit}
    {f : PUnit → Except TransactionError State} (h : ¬c → Realizes s (k ⟨⟩) s (f ⟨⟩)) :
    Realizes s (if c then throw (.refused e) >>= k else k ⟨⟩) s
      (if c then throw e >>= f else f ⟨⟩) := by
  by_cases hc : c
  · rw [if_pos hc, if_pos hc]
    rfl
  · rw [if_neg hc, if_neg hc]
    exact h hc

end Realizes

end Steps

namespace Transaction

open Steps

variable {t : Transaction} {s : State}

/-! ## Amounts in range -/

/-- The charge of a transfer that passes the rules is no 64-bit number. -/
def Overcharges (t : Transaction) (s : State) : Prop :=
  t.data = .transact ∧ ∃ sender recipient gasUsed storage,
    t.payer s = .ok sender ∧ t.payee s = .ok recipient ∧
    t.call s recipient = .ok (gasUsed, storage) ∧
    UInt64.size ≤ t.value.toNat + gasUsed.toNat

theorem Overcharges.size_le (h : t.Overcharges s) :
    UInt64.size ≤ t.value.toNat + (t.gasUsed s).toNat := by
  obtain ⟨hdata, sender, recipient, gasUsed, storage, -, hpayee, hcall, hwraps⟩ := h
  rw [gasUsed_of_call hdata hpayee hcall]
  exact hwraps

/-- The recipient as it is read again can take the charge: a sender gets back what was taken, and
anybody else has passed the check. -/
theorem credited_lt {sender recipient : Account} {charge : UInt64} (debited : State)
    (hs : s.accounts.Sound) (hsender : s.account? t.sender = some sender)
    (hrecipient : s.account? t.recipient = some recipient) (hcovered : charge ≤ sender.balance)
    (hroom : ¬(t.sender ≠ t.recipient ∧
      UInt64.size ≤ recipient.balance.toNat + charge.toNat))
    (hdebited : debited.accounts =
      (s.putAccount t.sender { sender with balance := sender.balance - charge }).accounts) :
    ((debited.account? t.recipient).getD recipient).balance.toNat + charge.toNat <
      UInt64.size := by
  obtain ⟨reread, hreread, -, hbalance⟩ := exists_reread hs hsender hrecipient
    (s.writes_putAccount t.sender { sender with balance := sender.balance - charge })
  have hagain : debited.account? t.recipient = some reread := by
    rw [State.account?, hdebited]
    exact hreread
  rw [hagain, Option.getD_some, hbalance]
  by_cases hself : t.recipient = t.sender
  · rw [hself, hsender] at hrecipient
    cases hrecipient
    rw [if_pos hself, UInt64.toNat_sub_of_le _ _ hcovered,
      Nat.sub_add_cancel (UInt64.le_iff_toNat_le.mp hcovered)]
    exact sender.balance.toNat_lt_size
  · rw [if_neg hself, UInt64.sub_zero]
    exact Nat.not_le.mp fun hfull => hroom ⟨fun h => hself h.symm, hfull⟩

/-! ## In place and at once -/

theorem transferInPlace_realizes (hs : s.accounts.Sound) (hdata : t.data = .transact)
    (hcharge : ¬t.Overcharges s) : Realizes s t.transferInPlace s (t.runTransact s) := by
  unfold transferInPlace runTransact
  refine .read_bind (.rule_bind fun sender hpayer => .rule_bind fun recipient hpayee => ?_)
  refine .rule_bind ?_
  rintro ⟨gasUsed, storage⟩ hcall
  obtain ⟨hsender, hfunds⟩ := payer_eq_ok.mp hpayer
  have hrecipient := payee_eq_ok.mp hpayee
  have hfits : t.value.toNat + gasUsed.toNat < UInt64.size := by
    refine Nat.not_le.mp fun hwraps => hcharge ?_
    exact ⟨hdata, sender, recipient, gasUsed, storage, hpayer, hpayee, hcall, hwraps⟩
  have hcovered : t.charged gasUsed ≤ sender.balance :=
    UInt64.le_iff_toNat_le.mpr (charged_le hfunds hcall)
  refine .amount_bind (Amount.add_of_lt hfits) (.check fun hroom => ?_)
  refine .amount_bind (Amount.sub_of_le hcovered) (.write_bind ?_)
  have hcredited := fun debited => credited_lt debited hs hsender hrecipient hcovered hroom
  cases storage with
  | none => exact .read_bind (.amount_bind (Amount.add_of_lt (hcredited _ rfl)) .write)
  | some left =>
      exact .write_bind (.read_bind (.amount_bind (Amount.add_of_lt (hcredited _ rfl)) .write))

/-- In place a transaction does what `run` says, and an error leaves the state alone. -/
theorem inPlace_realizes (hs : s.accounts.Sound) (hcharge : ¬t.Overcharges s) :
    Realizes s t.inPlace s (t.run s) := by
  unfold inPlace run
  cases hdata : t.data with
  | transact => exact transferInPlace_realizes hs hdata hcharge
  | createAccount fields => exact .read_bind (.rule_bind fun a _ => .write)
  | miningReward =>
      exact .read_bind (.check (f := fun _ => .ok _) fun _ => .write)

/-- A charge that is no 64-bit number stops the transfer before it has written anything. -/
theorem Overcharges.inPlace_on (h : t.Overcharges s) :
    t.inPlace.on s = (.error (.leavesRange .charge), s) := by
  obtain ⟨hdata, sender, recipient, gasUsed, storage, hpayer, hpayee, hcall, hwraps⟩ := h
  have hstop : (Amount.charge.add t.value gasUsed) = .error (.leavesRange .charge) :=
    Amount.add_of_le hwraps
  unfold inPlace transferInPlace
  simp only [hdata]
  show Steps.on (ofExcept ((t.payer s).mapError .refused) >>= _) s = _
  rw [hpayer]
  show Steps.on (ofExcept ((t.payee s).mapError .refused) >>= _) s = _
  rw [hpayee]
  show Steps.on (ofExcept ((t.call s recipient).mapError .refused) >>= _) s = _
  rw [hcall]
  show Steps.on (ofExcept (Amount.charge.add t.value gasUsed) >>= _) s = _
  rw [hstop]
  rfl

/-- Nothing but the charge ever leaves its range. -/
theorem inPlace_leavesRange_iff (hs : s.accounts.Sound) {amount : Amount} {s' : State} :
    t.inPlace.on s = (.error (.leavesRange amount), s') ↔
      amount = .charge ∧ s' = s ∧ t.Overcharges s := by
  constructor
  · intro h
    by_cases hcharge : t.Overcharges s
    · rw [hcharge.inPlace_on] at h
      cases h
      exact ⟨rfl, rfl, hcharge⟩
    · have hrun := inPlace_realizes hs hcharge
      unfold Realizes at hrun
      rw [h] at hrun
      split at hrun
      · exact nomatch hrun
      · exact nomatch hrun
  · rintro ⟨rfl, rfl, hcharge⟩
    exact hcharge.inPlace_on

end Transaction

end WorkLedger
