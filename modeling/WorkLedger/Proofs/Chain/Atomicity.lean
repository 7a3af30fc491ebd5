/-
# Additions and replacements leave no trace when they fail

A chain, its state, its identifiers and the pool are separate places, and a change writes to one
after another.  Transactions are run on a copy of the state, each on what the one before has
left there, and a failure leaves in the copy what was written until then.

Here both changes are spelled out write by write.  They do in place what the chain's own
`addBlock` and `replace` say: when those give a result the places hold it, and when they give an
error nothing but the copy has been written to, whatever the rule is.  Under the consensus rule
an accepted block runs, and to the state in which its validation has ended.
-/
import WorkLedger.Proofs.Chain.Adoption
import WorkLedger.Proofs.Pool.Listing

namespace WorkLedger

/-! ## Places -/

/-- The places that a change of the chain reads and writes. -/
structure Places where
  blocks : List Block
  nonempty : blocks ≠ []
  live : Progress
  pool : Pool
  /-- What blocks are run on before they count. -/
  copy : Progress

/-- Steps that write as they go.  What was written before a failure stays. -/
abbrev Update (ε α : Type) := ExceptT ε (StateM Places) α

/-- The outcome of an update, and the places after it. -/
def Update.on {ε α : Type} (m : Update ε α) (p : Places) : Except ε α × Places := m.run p

namespace Places

/-- The chain that the places hold. -/
def chain (p : Places) : Chain := ⟨p.blocks, p.live, p.nonempty⟩

/-- The same places with another state in the copy. -/
def copyState (p : Places) (s : State) : Places := { p with copy := { p.copy with state := s } }

/-- The same places with more identifiers in the copy. -/
def copyIds (p : Places) (ids : List String) : Places :=
  { p with copy := { p.copy with included := p.copy.included.insertMany ids } }

/-- Runs transactions on the copy, up to the first failure. -/
def runOnCopy : List Transaction → Update TransactionError Unit
  | [] => pure ()
  | t :: rest => do
      let p ← get
      let s ← ofExcept (t.run p.copy.state)
      modify (·.copyState s)
      runOnCopy rest

/-- Adds a block on top of the tip, and clears its transactions from the pool. -/
def add (rule : BlockRule) (b : Block) : Update ChainError Unit := do
  if b.header.number = 0 then throw .genesisResubmitted
  let p ← get
  ofExcept ((p.live.check rule p.chain.tip b).mapError .block)
  modify (·.copyState p.live.state)
  ExceptT.adapt .execution (runOnCopy b.transactions)
  -- From here on nothing can fail.
  modify fun p => { p with live := { p.live with state := p.copy.state } }
  modify fun p => { p with live := { p.live with included := p.live.included.insertMany b.ids } }
  modify fun p => { p with pool := p.pool.clear b.transactions }
  modify fun p => { p with blocks := p.blocks ++ [b], nonempty := by simp }

/-- Runs on the copy the blocks that follow `last`, checking each. -/
def replayOnCopy (rule : BlockRule) : (last : Block) → List Block → Update ChainFault Unit
  | _, [] => pure ()
  | last, b :: rest => do
      if b.header.number = 0 then throw .genesisRepeated
      let p ← get
      ofExcept ((p.copy.check rule last b).mapError (.block b.header.number))
      ExceptT.adapt (.execution b.header.number) (runOnCopy b.transactions)
      modify (·.copyIds b.ids)
      replayOnCopy rule b rest

/-- Adopts a longer chain. -/
def replace (rule : BlockRule) (candidate : List Block) : Update ChainError Unit := do
  let p ← get
  if candidate.length ≤ p.blocks.length then
    throw (.shorterOrEqualChain candidate.length p.blocks.length)
  match candidate with
  | [] => throw (.invalidChain .notGenesis)
  | first :: rest => do
      if first ≠ genesis then throw (.invalidChain .notGenesis)
      modify fun p => { p with copy := .start }
      ExceptT.adapt .invalidChain (replayOnCopy rule first rest)
      -- Here, too, all checks are behind.
      modify fun p => { p with blocks := first :: rest, nonempty := by simp }
      modify fun p => { p with live := { p.live with state := p.copy.state } }
      modify fun p => { p with live := { p.live with included := p.copy.included } }

end Places

/-! ## Runs of updates -/

/-- What callers see of the places: the chain and the pool. -/
def Places.held (p : Places) : Chain × Pool := (p.chain, p.pool)

namespace Update

variable {ε δ α β : Type} {held : Chain × Pool} {p : Places}

/-- From `p` on an update comes to the outcome of `x`.  At a result it is through and `post`
holds; at an error it has stopped with that error, and what is held stays as it is. -/
def Realizes (held : Chain × Pool) (m : Update ε Unit) (p : Places) (x : Except ε β)
    (post : β → Places → Prop) : Prop :=
  match x with
  | .ok b => ∃ p', m.on p = (.ok (), p') ∧ post b p'
  | .error e => ∃ p', m.on p = (.error e, p') ∧ p'.held = held

variable {x : Except ε α} {post : β → Places → Prop}

namespace Realizes

theorem get_bind {k : Places → Update ε Unit} {y : Except ε β}
    (h : Realizes held (k p) p y post) : Realizes held (get >>= k) p y post := h

theorem modify_bind {f : Places → Places} {k : Unit → Update ε Unit} {y : Except ε β}
    (h : Realizes held (k ()) (f p) y post) : Realizes held (modify f >>= k) p y post := h

/-- A check that complains stops both. -/
theorem check {c : Prop} {_ : Decidable c} {e : ε} {k : PUnit → Update ε Unit}
    {f : PUnit → Except ε β} (hheld : p.held = held)
    (h : ¬c → Realizes held (k ⟨⟩) p (f ⟨⟩) post) :
    Realizes held (if c then throw e >>= k else k ⟨⟩) p
      (if c then throw e >>= f else f ⟨⟩) post := by
  by_cases hc : c
  · rw [if_pos hc, if_pos hc]
    exact ⟨p, rfl, hheld⟩
  · rw [if_neg hc, if_neg hc]
    exact h hc

theorem ofExcept_bind {k : α → Update ε Unit} {f : α → Except ε β} (hheld : p.held = held)
    (h : ∀ a, x = .ok a → Realizes held (k a) p (f a) post) :
    Realizes held (ofExcept x >>= k) p (x >>= f) post := by
  cases hx : x with
  | error e => exact ⟨p, rfl, hheld⟩
  | ok a => exact h a hx

/-- A part that realizes its own computation is followed by the rest. -/
theorem adapt_bind {g : ε → δ} {m : Update ε Unit} {k : Unit → Update δ Unit}
    {f : α → Except δ β} {mid : α → Places → Prop} (hm : Realizes held m p x mid)
    (h : ∀ a p', mid a p' → Realizes held (k ()) p' (f a) post) :
    Realizes held (ExceptT.adapt g m >>= k) p (x.mapError g >>= f) post := by
  cases x with
  | error e =>
      obtain ⟨p', hon, hheld⟩ := hm
      refine ⟨p', ?_, hheld⟩
      show ExceptT.bindCont k ((m.on p).1.mapError g) (m.on p).2 = _
      rw [hon]
      rfl
  | ok a =>
      obtain ⟨p', hon, hmid⟩ := hm
      have hrest := h a p' hmid
      have hstep : Update.on (ExceptT.adapt g m >>= k) p = (k ()).on p' := by
        show ExceptT.bindCont k ((m.on p).1.mapError g) (m.on p).2 = _
        rw [hon]
        rfl
      show Realizes held (ExceptT.adapt g m >>= k) p (f a) post
      unfold Realizes at hrest ⊢
      rw [hstep]
      exact hrest

theorem map {m : Update ε Unit} {g : α → β} {mid : α → Places → Prop}
    (hm : Realizes held m p x mid) (h : ∀ a p', mid a p' → post (g a) p') :
    Realizes held m p (x >>= fun a => pure (g a)) post := by
  cases x with
  | error e => exact hm
  | ok a =>
      obtain ⟨p', hon, hmid⟩ := hm
      exact ⟨p', hon, h a p' hmid⟩

end Realizes

end Update

/-! ## Both changes -/

namespace Places

open Update

variable {p : Places} {held : Chain × Pool}

theorem runOnCopy_realizes (series : List Transaction) (hheld : p.held = held) :
    Realizes held (runOnCopy series) p (Transaction.runSeries series p.copy.state)
      fun s p' => p' = p.copyState s := by
  induction series generalizing p with
  | nil => exact ⟨p, rfl, rfl⟩
  | cons t rest ih =>
      rw [Transaction.runSeries_cons]
      exact .get_bind (.ofExcept_bind hheld fun s _ => .modify_bind (ih hheld))

/-- The copy of a state makes the progress that the state would make. -/
theorem runOnCopy_realizes_run {g : Progress} {b : Block} (hheld : p.held = held)
    (hcopy : p.copy.state = g.state) :
    Realizes held (runOnCopy b.transactions) p (g.run b)
      fun g' p' => p' = p.copyState g'.state ∧ g'.included = g.included.insertMany b.ids := by
  have hseries := runOnCopy_realizes b.transactions hheld
  rw [hcopy] at hseries
  exact hseries.map fun s p' hp' => ⟨hp', rfl⟩

/-- Adding a block in place is what the chain's addition says, under every rule. -/
theorem add_realizes (rule : BlockRule) (b : Block) (p : Places) :
    Realizes p.held (add rule b) p (p.chain.addBlock rule b p.pool) fun r p' => p'.held = r := by
  have hextend : Realizes p.held (add rule b) p (p.chain.extend rule b)
      fun c p' => p'.held = (c, p.pool.clear b.transactions) := by
    unfold add Chain.extend
    refine .check rfl fun _ => ?_
    refine .get_bind (.ofExcept_bind rfl fun _ _ => .modify_bind ?_)
    refine .adapt_bind (runOnCopy_realizes_run rfl rfl) ?_
    rintro ⟨s, included⟩ _ ⟨rfl, rfl⟩
    exact .modify_bind (.modify_bind (.modify_bind ⟨_, rfl, rfl⟩))
  exact hextend.map fun _ _ hheld => hheld

theorem replayOnCopy_realizes (rule : BlockRule) (last : Block) (rest : List Block)
    (hheld : p.held = held) :
    Realizes held (replayOnCopy rule last rest) p (Chain.replayFrom rule last rest p.copy)
      fun g p' => p' = { p with copy := g } := by
  induction rest generalizing last p with
  | nil => exact ⟨p, rfl, rfl⟩
  | cons b rest ih =>
      rw [replayOnCopy, Chain.replayFrom]
      refine .check hheld fun _ => ?_
      refine .get_bind (.ofExcept_bind hheld fun _ _ => ?_)
      refine .adapt_bind (runOnCopy_realizes_run hheld rfl) ?_
      -- What is held does not look at the copy, so it is the same before the next block.
      rintro ⟨s, included⟩ _ ⟨rfl, rfl⟩
      exact .modify_bind (ih b hheld)

/-- Once the length is checked, a replacement is a replay of the rest on top of genesis. -/
theorem replace_cons_of_longer (rule : BlockRule) {c : Chain} {first : Block} {rest : List Block}
    (h : ¬(first :: rest).length ≤ c.blocks.length) :
    c.replace rule (first :: rest) = (do
      if first ≠ genesis then throw (.invalidChain .notGenesis)
      let g ← (Chain.replayFrom rule first rest .start).mapError .invalidChain
      return ⟨first :: rest, g, by simp⟩) := by
  unfold Chain.replace
  rw [dif_neg h]
  by_cases hfirst : first = genesis
  · rw [if_neg (not_not_intro hfirst)]
    have hreplay : Chain.replay rule (first :: rest) = Chain.replayFrom rule first rest .start :=
      if_pos hfirst
    cases hrest : Chain.replayFrom rule first rest .start with
    | error fault =>
        rw [hrest] at hreplay
        simp only [hreplay]
        rfl
    | ok g =>
        rw [hrest] at hreplay
        simp only [hreplay]
        rfl
  · have hreplay : Chain.replay rule (first :: rest) = .error .notGenesis := if_neg hfirst
    rw [if_pos hfirst]
    simp only [hreplay]
    rfl

/-- Adopting a chain in place is what the chain's replacement says, under every rule. -/
theorem replace_realizes (rule : BlockRule) (candidate : List Block) (p : Places) :
    Realizes p.held (replace rule candidate) p (p.chain.replace rule candidate)
      fun c p' => p'.held = (c, p.pool) := by
  unfold replace
  refine .get_bind ?_
  by_cases hlength : candidate.length ≤ p.blocks.length
  · have hchain : p.chain.replace rule candidate =
        .error (.shorterOrEqualChain candidate.length p.blocks.length) := dif_pos hlength
    rw [hchain, if_pos hlength]
    exact ⟨p, rfl, rfl⟩
  rw [if_neg hlength]
  cases candidate with
  | nil => exact absurd (Nat.zero_le _) hlength
  | cons first rest =>
      rw [replace_cons_of_longer rule hlength]
      refine .check rfl fun _ => .modify_bind ?_
      refine .adapt_bind (replayOnCopy_realizes rule first rest rfl) ?_
      rintro g _ rfl
      exact .modify_bind (.modify_bind ⟨_, rfl, rfl⟩)

end Places

/-! ## Whole or not at all -/

namespace Chain

/-- A block fails to run only after it has passed all checks. -/
theorem extend_eq_execution {rule : BlockRule} {c : Chain} {b : Block} {e : TransactionError} :
    c.extend rule b = .error (.execution e) ↔ b.header.number ≠ 0 ∧
      c.progress.check rule c.tip b = .ok () ∧ c.progress.run b = .error e := by
  unfold extend
  by_cases hnumber : b.header.number = 0
  · rw [if_pos hnumber]
    exact ⟨nofun, fun h => absurd hnumber h.1⟩
  rw [if_neg hnumber]
  cases hcheck : c.progress.check rule c.tip b with
  | error e' => exact ⟨nofun, fun h => nomatch h.2.1⟩
  | ok _ =>
      cases hrun : c.progress.run b with
      | error e' =>
          constructor
          · rintro ⟨⟩
            exact ⟨hnumber, rfl, rfl⟩
          · rintro ⟨-, -, ⟨⟩⟩
            rfl
      | ok g => exact ⟨nofun, fun h => nomatch h.2.2⟩

/-- Under the consensus rule no block fails to run. -/
theorem extend_ne_execution (c : Chain) (b : Block) (e : TransactionError) :
    c.extend Block.validate b ≠ .error (.execution e) := by
  intro h
  obtain ⟨hnumber, hcheck, hrun⟩ := extend_eq_execution.mp h
  obtain ⟨g, hstep⟩ := Progress.exists_extends_of_check hnumber hcheck
  rw [hstep.ran] at hrun
  exact nomatch hrun

theorem addBlock_eq_error {rule : BlockRule} {c : Chain} {b : Block} {pool : Pool}
    {e : ChainError} : c.addBlock rule b pool = .error e ↔ c.extend rule b = .error e := by
  unfold addBlock
  cases c.extend rule b with
  | error e' =>
      constructor
      · rintro ⟨⟩
        rfl
      · rintro ⟨⟩
        rfl
  | ok c' => exact ⟨nofun, nofun⟩

/-- What the consensus rule accepts is added, unless its number has wrapped around or it carries
a transaction again. -/
theorem exists_extend_iff {c : Chain} {b : Block} :
    (∃ c', c.extend Block.validate b = .ok c') ↔ b.header.number ≠ 0 ∧
      Block.validate c.tip b c.state = .ok () ∧ ∀ id ∈ b.ids, c.contains id = false := by
  constructor
  · rintro ⟨c', h⟩
    obtain ⟨hstep, -⟩ := extend_eq_ok.mp h
    obtain ⟨hvalid, hreplays⟩ := Progress.check_eq_ok.mp hstep.checked
    exact ⟨hstep.number, hvalid, Progress.rejectReplays_eq_ok.mp hreplays⟩
  · rintro ⟨hnumber, hvalid, hfresh⟩
    obtain ⟨g, hstep⟩ := Progress.exists_extends_of_check hnumber
      (Progress.check_eq_ok.mpr ⟨hvalid, Progress.rejectReplays_eq_ok.mpr hfresh⟩)
    exact ⟨⟨c.blocks ++ [b], g, by simp⟩, extend_eq_ok.mpr ⟨hstep, rfl⟩⟩

/-- Whatever calls a chain and a pool arose from: what the consensus rule accepts is added, if it
is new, and never fails to run; a block that is added leads to the state in which its validation
has ended and leaves of the pool, in order, what it does not carry; a chain that is adopted is
longer.  And whatever the rule is, both changes do in place what they say, or leave chain and
pool alone. -/
theorem change_whole_or_none (calls : List Call) (poolCalls : List Pool.Call) (b : Block)
    (candidate : List Block) :
    let c := afterAll Block.validate calls
    let pool := Pool.afterAll poolCalls
    ((∃ r, c.addBlock Block.validate b pool = .ok r) ↔ b.header.number ≠ 0 ∧
      Block.validate c.tip b c.state = .ok () ∧ ∀ id ∈ b.ids, c.contains id = false) ∧
    (∀ e, c.addBlock Block.validate b pool ≠ .error (.execution e)) ∧
    (∀ c' pool', c.addBlock Block.validate b pool = .ok (c', pool') →
      c'.blocks = c.blocks ++ [b] ∧
      Transaction.validateAndRun b.transactions c.state = .ok c'.state ∧
      pool'.toList = pool.toList.filter fun t => t.id ∉ b.ids) ∧
    (∀ c', c.replace Block.validate candidate = .ok c' → c.length < c'.length) ∧
    ∀ (rule : BlockRule) (p : Places),
      Update.Realizes p.held (Places.add rule b) p (p.chain.addBlock rule b p.pool)
        (fun r p' => p'.held = r) ∧
      Update.Realizes p.held (Places.replace rule candidate) p (p.chain.replace rule candidate)
        (fun c' p' => p'.held = (c', p.pool)) := by
  intro c pool
  refine ⟨?accepted, fun e h => extend_ne_execution c b e (addBlock_eq_error.mp h), ?added,
    fun c' h => length_lt_of_replace h,
    fun rule p => ⟨Places.add_realizes rule b p, Places.replace_realizes rule candidate p⟩⟩
  case accepted =>
    rw [← exists_extend_iff]
    constructor
    · rintro ⟨⟨c', pool'⟩, h⟩
      exact ⟨c', (addBlock_eq_ok.mp h).1⟩
    · rintro ⟨c', h⟩
      exact ⟨(c', _), addBlock_eq_ok.mpr ⟨h, rfl⟩⟩
  case added =>
    intro c' pool' h
    obtain ⟨hextend, rfl⟩ := addBlock_eq_ok.mp h
    obtain ⟨hstep, hblocks⟩ := extend_eq_ok.mp hextend
    exact ⟨hblocks, hstep.validateAndRun, (Pool.indexed_afterAll poolCalls).toList_clear _⟩

/-- A series that pays the miner and then fails. -/
def failingMidway : List Transaction :=
  [.reward "miner" "reward", ⟨"spend", "nobody", "miner", 1, 0, .transact, none⟩]

/-- A block is added to a new chain, and clears what it carries out of a pool of two; and where
any block is accepted, one that fails after it has paid the miner changes nothing. -/
theorem change_whole_or_none_after_genesis :
    let b := afterGenesis "miner" "reward" [] .empty
    let other := Transaction.reward "miner" "other"
    let pool := Pool.afterAll [.add (.reward "miner" "reward"), .add other]
    let failing : Block := ⟨{ genesis.header with number := 1 }, failingMidway⟩
    let p : Places := ⟨[genesis], List.cons_ne_nil _ _, .start, pool, .start⟩
    (∃ c' pool', new.addBlock Block.validate b pool = .ok (c', pool') ∧
      c'.blocks = [genesis, b] ∧ pool'.toList = [other]) ∧
    (∃ s, Transaction.runPrefix failing.transactions .empty = (s, some (.unknownSender "nobody")) ∧
      (s.account? "miner").isSome) ∧
    ∃ p', (Places.add Block.acceptAny failing).on p =
      (.error (.execution (.unknownSender "nobody")), p') ∧ p'.held = p.held := by
  intro b other pool failing p
  have hempty (id : String) : Pool.empty.contains id = false := Std.HashMap.contains_empty
  have hprefix : ∃ s, Transaction.runPrefix failing.transactions .empty =
      (s, some (.unknownSender "nobody")) ∧ (s.account? "miner").isSome := ⟨_, rfl, rfl⟩
  refine ⟨?_, hprefix, ?_⟩
  · obtain ⟨haccepted, -, hadd, -⟩ := change_whole_or_none []
      [.add (.reward "miner" "reward"), .add other] b []
    have hvalid : Block.validate genesis b .empty = .ok () :=
      Block.validate_eq_ok.mpr (.inr (accepted_afterGenesis_nil "miner" "reward"))
    obtain ⟨⟨c', pool'⟩, hok⟩ := haccepted.mpr
      ⟨by decide, hvalid, fun _ _ => Std.HashSet.contains_empty⟩
    obtain ⟨hblocks, -, hpool⟩ := hadd c' pool' hok
    refine ⟨c', pool', hok, hblocks, hpool.trans ?_⟩
    have hnew : (Pool.empty.add (.reward "miner" "reward")).2.contains other.id = false := by
      rw [Pool.contains_eq, Pool.getElem?_add (hempty _), if_neg (by decide), ← Pool.contains_eq]
      exact hempty _
    have htwo : pool.toList = [.reward "miner" "reward", other] := by
      show ((Pool.empty.add (.reward "miner" "reward")).2.add other).2.toList = _
      rw [(Pool.indexed_empty.add _).toList_add hnew, Pool.indexed_empty.toList_add (hempty _)]
      rfl
    show pool.toList.filter _ = _
    rw [htwo]
    decide
  · obtain ⟨-, -, -, -, hplaces⟩ := change_whole_or_none []
      [.add (.reward "miner" "reward"), .add other] failing []
    obtain ⟨s, hs, -⟩ := hprefix
    have hrun : failing.run .empty = .error (.unknownSender "nobody") := by
      unfold Block.run Transaction.runSeries
      rw [hs]
    have hfail : p.chain.addBlock Block.acceptAny failing p.pool =
        .error (.execution (.unknownSender "nobody")) := by
      refine addBlock_eq_error.mpr (extend_eq_execution.mpr ⟨by decide, ?_, ?_⟩)
      · exact Progress.check_eq_ok.mpr
          ⟨rfl, Progress.rejectReplays_eq_ok.mpr fun _ _ => Std.HashSet.contains_empty⟩
      · show (failing.run .empty >>= _) = _
        rw [hrun]
        rfl
    have hrealizes := (hplaces Block.acceptAny p).1
    rw [hfail] at hrealizes
    exact hrealizes

end Chain

end WorkLedger
