/-
# Messages and chains in place

A node takes in a message or a longer chain by writing to one place after another: those of the
chain, the pool and the epoch.  Here the writes of a node are spelled out around those of its
chain.  They do what the node's own `handle` and `sync` say: what is taken in has been written
when they are through, and what is refused leaves all that the node holds as it was.
-/
import WorkLedger.Proofs.Chain.Atomicity
import WorkLedger.Proofs.Node.Calls

namespace WorkLedger

/-- The places of a node that messages and chains write to. -/
structure NodePlaces extends Places where
  epoch : Nat

/-- Steps of a node that write as they go.  What was written before a failure stays. -/
abbrev NodeUpdate (α : Type) := ExceptT NodeError (StateM NodePlaces) α

/-- The outcome of an update, and the places after it. -/
def NodeUpdate.on {α : Type} (m : NodeUpdate α) (p : NodePlaces) : Except NodeError α × NodePlaces :=
  m.run p

/-- The places of a node, with anything in the copy that its chain runs blocks on. -/
def Node.places (n : Node) (copy : Progress) : NodePlaces :=
  ⟨⟨n.chain.blocks, n.chain.nonempty, n.chain.progress, n.pool, copy⟩, n.epoch⟩

/-- The node with what the places hold. -/
def Node.holding (n : Node) (p : NodePlaces) : Node :=
  { n with chain := p.chain, pool := p.pool, epoch := p.epoch }

namespace NodePlaces

/-- A change of the chain among the steps of a node. -/
def change (m : Update ChainError Unit) : NodeUpdate Unit := ExceptT.mk fun p =>
  let (result, places) := m.on p.toPlaces
  (result.mapError .chain, { p with toPlaces := places })

/-- The chain has changed. -/
def count : NodeUpdate Unit := modify fun p => { p with epoch := p.epoch + 1 }

/-- Clears the transactions of blocks from the pool, one block after another. -/
def clearEach : List Block → NodeUpdate Unit
  | [] => pure ()
  | b :: rest => do
      modify fun p => { p with pool := p.pool.clear b.transactions }
      clearEach rest

/-- Puts a transaction into the pool: its identifier behind the others, and then the transaction
under it. -/
def poolTransaction (t : Transaction) : NodeUpdate Unit := do
  if t.isReward then throw (.rewardNotAccepted t.id)
  let p ← get
  if p.chain.contains t.id then throw (.duplicateTransaction t.id)
  if p.pool.contains t.id then throw (.duplicateTransaction t.id)
  modify fun p => { p with pool := { p.pool with order := p.pool.order ++ [t.id] } }
  modify fun p =>
    { p with pool := { p.pool with transactions := p.pool.transactions.insert t.id t } }

/-- Takes in a message. -/
def handle : Message → NodeUpdate Unit
  | .block b => do
      change (Places.add Block.validate b)
      count
  | .transaction t => poolTransaction t

/-- Adopts a longer chain and clears its transactions from the pool. -/
def sync (candidate : List Block) : NodeUpdate Unit := do
  change (Places.replace Block.validate candidate)
  count
  let p ← get
  clearEach p.blocks

/-- From `p` on an update comes to the outcome of `x`.  At a result it is through and that is the
node then; at an error it has stopped with that error, and the node is as it was. -/
def Realizes (n : Node) (m : NodeUpdate Unit) (p : NodePlaces) (x : Except NodeError Node) :
    Prop :=
  match x with
  | .ok n' => ∃ p', m.on p = (.ok (), p') ∧ n.holding p' = n'
  | .error e => ∃ p', m.on p = (.error e, p') ∧ n.holding p' = n

variable {n : Node} {m : Update ChainError Unit} {p : NodePlaces} {q : Places}

theorem holding_of_held {c : Chain} {pool : Pool} (h : q.held = (c, pool)) (epoch : Nat) :
    n.holding ⟨q, epoch⟩ = { n with chain := c, pool := pool, epoch := epoch } := by
  cases h
  rfl

/-! ## Runs of updates -/

/-- A change of the chain is followed by the rest, or an error in it stops everything. -/
theorem on_change_bind (m : Update ChainError Unit) (k : Unit → NodeUpdate Unit) (p : NodePlaces) :
    (change m >>= k).on p = match m.on p.toPlaces with
      | (.ok (), q) => (k ()).on ⟨q, p.epoch⟩
      | (.error e, q) => (.error (.chain e), ⟨q, p.epoch⟩) := by
  show ExceptT.bindCont k ((m.on p.toPlaces).1.mapError .chain) ⟨(m.on p.toPlaces).2, _⟩ = _
  rcases m.on p.toPlaces with ⟨r, q⟩
  cases r <;> rfl

/-- Clearing cannot fail. -/
theorem on_clearEach (blocks : List Block) (p : NodePlaces) : (clearEach blocks).on p =
    (.ok (), { p with pool := blocks.foldl (fun pool b => pool.clear b.transactions) p.pool }) := by
  induction blocks generalizing p with
  | nil => rfl
  | cons b rest ih => exact ih { p with pool := p.pool.clear b.transactions }

namespace Realizes

variable {copy : Progress}

theorem get_bind {k : NodePlaces → NodeUpdate Unit} {x : Except NodeError Node}
    (h : Realizes n (k p) p x) : Realizes n (get >>= k) p x := h

/-- A check that complains stops both, before anything was written. -/
theorem check {c : Prop} {_ : Decidable c} {e : NodeError} {k : PUnit → NodeUpdate Unit}
    {x : Except NodeError Node} (h : ¬c → Realizes n (k ⟨⟩) (n.places copy) x) :
    Realizes n (if c then throw e >>= k else k ⟨⟩) (n.places copy)
      (if c then .error e else x) := by
  by_cases hc : c
  · rw [if_pos hc, if_pos hc]
    exact ⟨n.places copy, rfl, rfl⟩
  · rw [if_neg hc, if_neg hc]
    exact h hc

/-- A change that the chain realizes is followed by the rest. -/
theorem change_bind {β : Type} {x : Except ChainError β} {post : β → Places → Prop}
    {k : Unit → NodeUpdate Unit} {f : β → Except NodeError Node}
    (hm : Update.Realizes (n.chain, n.pool) m (n.places copy).toPlaces x post)
    (h : ∀ b q, post b q → Realizes n (k ()) ⟨q, n.epoch⟩ (f b)) :
    Realizes n (change m >>= k) (n.places copy) (x.mapError .chain >>= f) := by
  cases x with
  | error e =>
      obtain ⟨q, hon, hheld⟩ := hm
      refine ⟨⟨q, n.epoch⟩, ?_, holding_of_held hheld n.epoch⟩
      rw [on_change_bind, hon]
      rfl
  | ok b =>
      obtain ⟨q, hon, hpost⟩ := hm
      have hrest := h b q hpost
      have hstep : (change m >>= k).on (n.places copy) = (k ()).on ⟨q, n.epoch⟩ := by
        rw [on_change_bind, hon]
        rfl
      show Realizes n (change m >>= k) (n.places copy) (f b)
      unfold Realizes at hrest ⊢
      rw [hstep]
      exact hrest

end Realizes

/-! ## Both ways in -/

theorem realizes_poolTransaction (n : Node) (copy : Progress) (t : Transaction) :
    Realizes n (poolTransaction t) (n.places copy) (n.poolTransaction t) := by
  rw [Node.poolTransaction_eq]
  unfold poolTransaction
  refine .check fun _ => ?_
  refine .get_bind ?_
  refine .check fun _ => ?_
  refine .check fun _ => ?_
  exact ⟨_, rfl, rfl⟩

/-- Taking in a message in place is what the node's `handle` says. -/
theorem realizes_handle (n : Node) (copy : Progress) (message : Message) :
    Realizes n (handle message) (n.places copy) (n.handle message) := by
  cases message with
  | transaction t => exact realizes_poolTransaction n copy t
  | block b =>
      have hadd : Update.Realizes (n.chain, n.pool) (Places.add Block.validate b)
          (n.places copy).toPlaces (n.chain.addBlock Block.validate b n.pool)
          (fun r q => q.held = r) :=
        Places.add_realizes Block.validate b (n.places copy).toPlaces
      show Realizes n _ _ (n.addBlock b)
      rw [Node.addBlock_eq]
      refine .change_bind hadd fun r q hheld => ?_
      exact ⟨_, rfl, holding_of_held hheld (n.epoch + 1)⟩

/-- Adopting a chain in place is what the node's `sync` says. -/
theorem realizes_sync (n : Node) (copy : Progress) (candidate : List Block) :
    Realizes n (sync candidate) (n.places copy) (n.sync candidate) := by
  have hreplace : Update.Realizes (n.chain, n.pool) (Places.replace Block.validate candidate)
      (n.places copy).toPlaces (n.chain.replace Block.validate candidate)
      (fun c q => q.held = (c, n.pool)) :=
    Places.replace_realizes Block.validate candidate (n.places copy).toPlaces
  rw [Node.sync_eq]
  refine .change_bind hreplace fun c q hheld => ?_
  obtain ⟨hchain, hpool⟩ := Prod.mk.inj hheld
  have hblocks : q.blocks = c.blocks := congrArg Chain.blocks hchain
  refine ⟨_, on_clearEach q.blocks ⟨q, n.epoch + 1⟩, ?_⟩
  show { n with chain := q.chain, pool := q.blocks.foldl _ q.pool, epoch := n.epoch + 1 } = _
  rw [hchain, hblocks, hpool]

end NodePlaces

end WorkLedger
