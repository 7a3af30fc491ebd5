/-
# What is pending

What stands in the pool is not on the chain.  A transaction is taken in only if its identifier
is in no block, and whatever changes the chain clears the pool of what the new chain carries:
one block more, a longer chain taken over, a block of the node's own.  A reorganization may drop
blocks, but then it is the new chain alone that counts.

Nothing gets lost on the way.  A pending transaction stays pending until its identifier is on the
chain, or until the node sifts its pool and finds that the transaction fails on top of those
that are kept before it.  What is refused, a message or a chain, takes nothing out of the pool,
also where the node writes to one place after another.
-/
import Mathlib.Data.List.Nodup
import WorkLedger.Proofs.Chain.Inclusion
import WorkLedger.Proofs.Node.InPlace
import WorkLedger.Proofs.Node.Jobs

namespace WorkLedger

/-! ## What a change of the chain includes -/

namespace Chain

variable {c c' : Chain} {b : Block} {candidate : List Block}

/-- One block more on the chain includes its identifiers. -/
theorem contains_of_extend {rule : BlockRule} (h : c.extend rule b = .ok c') (id : String) :
    c'.contains id = true ↔ c.contains id = true ∨ id ∈ b.ids :=
  Progress.contains_of_run (extend_eq_ok.mp h).1.ran id

/-- A chain taken over includes the identifiers of its blocks and no others. -/
theorem contains_of_replace (h : c.replace Block.validate candidate = .ok c') (id : String) :
    c'.contains id = true ↔ id ∈ (c'.blocks.flatMap (·.transactions)).map (·.id) := by
  obtain ⟨-, hblocks, hreplay⟩ := replace_eq_ok.mp h
  rw [← hblocks] at hreplay
  have hindex := (replay_eq_ok_iff_grown.mp hreplay).nodup_ids.2 id
  rw [List.map_flatMap]
  exact hindex

end Chain

namespace Node

variable {n n' : Node} {t : Transaction} {call : Call}

/-! ## One step -/

/-- No pending transaction is on the chain. -/
def Apart (n : Node) : Prop := ∀ t ∈ n.pool.toList, n.chain.contains t.id = false

/-- A pending transaction fails on what the chain and those kept before it lead to. -/
def Fails (n : Node) (t : Transaction) : Prop :=
  ∃ before behind s e, n.pool.toList = before ++ t :: behind ∧
    Transaction.validateAndRun (sift n.chain before n.chain.state).1 n.chain.state = .ok s ∧
    (t.validate s >>= fun _ => t.run s) = .error e

/-- Every transaction that was pending still is, unless the chain has it or it was found to
fail when the pool was sifted. -/
def Accounts (n : Node) (call : Call) (n' : Node) : Prop :=
  ∀ t ∈ n.pool.toList, t ∈ n'.pool.toList ∨ n'.chain.contains t.id = true ∨
    (call.mines = true ∧ n.Fails t)

/-- Whatever a step does, the pool stays apart from the chain and is accounted for. -/
structure Tidy (n : Node) (call : Call) (n' : Node) : Prop where
  apart : n'.Apart
  accounts : n.Accounts call n'

theorem Apart.tidy_self (h : n.Apart) : Tidy n call n :=
  ⟨h, fun _ ht => .inl ht⟩

/-- A chain whose identifiers are cleared from the pool. -/
theorem Apart.tidy_clear (h : n.Apart) (hpool : n.pool.Indexed) {c : Chain}
    {gone : List Transaction} (hchain : n'.chain = c) (hcleared : n'.pool = n.pool.clear gone)
    (hin : ∀ id ∈ gone.map (·.id), c.contains id = true)
    (hout : ∀ id, c.contains id = true → id ∈ gone.map (·.id) ∨ n.chain.contains id = true) :
    Tidy n call n' := by
  constructor
  case apart =>
    intro t ht
    rw [hcleared] at ht
    obtain ⟨hold, hkept⟩ := hpool.mem_toList_clear.mp ht
    rw [hchain]
    refine Bool.eq_false_iff.mpr fun hcontains => ?_
    rcases hout t.id hcontains with hgone | hbefore
    · exact hkept hgone
    · rw [h t hold] at hbefore
      exact nomatch hbefore
  case accounts =>
    intro t ht
    rw [hchain, hcleared]
    by_cases hgone : t.id ∈ gone.map (·.id)
    · exact .inr (.inl (hin t.id hgone))
    · exact .inl (hpool.mem_toList_clear.mpr ⟨ht, hgone⟩)

theorem Apart.tidy_poolTransaction (h : n.Apart) (hpool : n.pool.Indexed)
    (hok : n.poolTransaction t = .ok n') : Tidy n call n' := by
  obtain ⟨-, hchain, hnew, rfl⟩ := poolTransaction_eq_ok.mp hok
  have hlist := hpool.toList_add hnew
  constructor
  case apart =>
    intro u hu
    have hmem : u ∈ n.pool.toList ++ [t] := hlist ▸ hu
    rcases List.mem_append.mp hmem with hold | hlast
    · exact h u hold
    · rw [List.mem_singleton.mp hlast]
      exact hchain
  case accounts =>
    intro u hu
    have hmem : u ∈ n.pool.toList ++ [t] := List.mem_append_left _ hu
    exact .inl (hlist ▸ hmem)

theorem Apart.tidy_addBlock (h : n.Apart) (hpool : n.pool.Indexed) {b : Block}
    (hok : n.addBlock b = .ok n') : Tidy n call n' := by
  obtain ⟨c, hextend, rfl⟩ := addBlock_eq_ok.mp hok
  have hcontains := Chain.contains_of_extend hextend
  refine h.tidy_clear hpool rfl rfl ?_ ?_
  · intro id hid
    exact (hcontains id).mpr (.inr hid)
  · intro id hid
    exact ((hcontains id).mp hid).symm

theorem Apart.tidy_sync (h : n.Apart) (hpool : n.pool.Indexed) {candidate : List Block}
    (hok : n.sync candidate = .ok n') : Tidy n call n' := by
  obtain ⟨c, hreplace, rfl⟩ := sync_eq_ok.mp hok
  have hcontains := Chain.contains_of_replace hreplace
  refine h.tidy_clear hpool rfl rfl ?_ ?_
  · intro id hid
    exact (hcontains id).mpr hid
  · intro id hid
    exact .inl ((hcontains id).mp hid)

/-! ## Mining -/

/-- A stale transaction that is not on the chain has failed. -/
theorem Apart.fails_of_mem_stale (h : n.Apart) (ht : t ∈ n.stale) : n.Fails t := by
  have hpending : t ∈ n.pool.toList :=
    (sublist_sift n.chain n.pool.toList n.chain.state).2.subset ht
  obtain ⟨before, behind, s, hlist, hbefore, hfails⟩ := exists_before_of_mem_stale ht
  refine ⟨before, behind, s, ?_⟩
  cases happly : (t.validate s >>= fun _ => t.run s) with
  | error e => exact ⟨e, hlist, hbefore, rfl⟩
  | ok next =>
      obtain ⟨_, hvalid, hrun⟩ := bind_eq_ok.mp happly
      exact absurd ⟨h t hpending, hvalid, hrun⟩ (hfails next)

/-- Of two pending transactions with one identifier there is only one. -/
theorem mem_stale_of_id (hpool : n.pool.Indexed) (ht : t ∈ n.pool.toList)
    (hid : t.id ∈ n.stale.map (·.id)) : t ∈ n.stale := by
  obtain ⟨u, hu, heq⟩ := List.mem_map.mp hid
  have hpending : u ∈ n.pool.toList :=
    (sublist_sift n.chain n.pool.toList n.chain.state).2.subset hu
  rw [← List.inj_on_of_nodup_map hpool.nodup_ids hpending ht heq]
  exact hu

/-- Sifting drops what has failed and nothing else. -/
theorem Apart.tidy_opened (h : n.Apart) (hpool : n.pool.Indexed) (hmines : call.mines = true) :
    Tidy n call n.opened.idle := by
  constructor
  case apart =>
    intro t ht
    exact h t (hpool.mem_toList_clear.mp ht).1
  case accounts =>
    intro t ht
    by_cases hgone : t.id ∈ n.stale.map (·.id)
    · have hstale : t ∈ n.stale := mem_stale_of_id hpool ht hgone
      exact .inr (.inr ⟨hmines, h.fails_of_mem_stale hstale⟩)
    · exact .inl (hpool.mem_toList_clear.mpr ⟨ht, hgone⟩)

/-- Mining accounts for what was pending: it sifts the pool, and a block found is on the chain. -/
theorem Apart.tidy_mine (h : n.Apart) (hpool : n.pool.Indexed) (link : Link) (rewardId : String)
    (draws : Nat → Draw) (attempts : Nat) :
    Tidy n (.mine link rewardId draws attempts)
      (n.mine link rewardId draws attempts).node := by
  unfold mine
  cases hmining : n.mining with
  | true =>
      rw [openJob_of_mining hmining]
      exact h.tidy_self
  | false =>
      rw [openJob_of_idle hmining]
      have hsifted : Tidy n (.mine link rewardId draws attempts) n.opened.idle :=
        h.tidy_opened hpool rfl
      rcases closeJob_cases link n.opened (n.ticket rewardId)
        (n.opened.search (n.ticket rewardId) draws attempts) with hnode | ⟨b, hadd⟩
      · simp only [hnode]
        exact hsifted
      · have hadded : Tidy n.opened.idle (.handle (.block b)) _ :=
          hsifted.apart.tidy_addBlock (hpool.clear n.stale) hadd
        refine ⟨hadded.apart, fun t ht => ?_⟩
        rcases hsifted.accounts t ht with hpending | hchain | hfails
        · rcases hadded.accounts t hpending with hpending | hchain | ⟨hmines, -⟩
          · exact .inl hpending
          · exact .inr (.inl hchain)
          · exact nomatch hmines
        · have hnew : n.opened.idle.chain.contains t.id = false := h t ht
          rw [hnew] at hchain
          exact nomatch hchain
        · exact .inr (.inr hfails)

/-! ## Calls -/

/-- Whatever is called, the pool stays apart from the chain and is accounted for. -/
theorem Apart.tidy_after (h : n.Apart) (hpool : n.pool.Indexed) (call : Call) :
    Tidy n call (n.after call) := by
  cases call with
  | submit link t =>
      simp only [after, submit]
      cases hok : n.poolTransaction t with
      | error e => exact h.tidy_self
      | ok n' =>
          have htidy : Tidy n (.submit link t) n' := h.tidy_poolTransaction hpool hok
          cases link with
          | up => exact htidy
          | down reason => exact htidy
  | handle m =>
      simp only [after]
      cases hok : n.handle m with
      | error e => exact h.tidy_self
      | ok n' =>
          cases m with
          | block b => exact h.tidy_addBlock hpool hok
          | transaction t => exact h.tidy_poolTransaction hpool hok
  | sync candidate =>
      simp only [after]
      cases hok : n.sync candidate with
      | error e => exact h.tidy_self
      | ok n' => exact h.tidy_sync hpool hok
  | mine link rewardId draws attempts => exact h.tidy_mine hpool link rewardId draws attempts

/-- A run of calls keeps pool and chain apart. -/
theorem Apart.afterAll (h : n.Apart) (hn : n.Regular) (calls : List Call) :
    (n.afterAll calls).Apart := by
  induction calls generalizing n with
  | nil => exact h
  | cons call rest ih =>
      have htidy := h.tidy_after hn.pool call
      exact ih htidy.apart (hn.step (step_after n call))

/-- A message or a chain that is refused takes nothing out of the pool. -/
theorem after_of_refused {e : NodeError} :
    (∀ m, n.handle m = .error e → n.after (.handle m) = n) ∧
      ∀ candidate, n.sync candidate = .error e → n.after (.sync candidate) = n := by
  constructor
  · intro m h
    simp only [after, h]
    rfl
  · intro candidate h
    simp only [after, h]
    rfl

/-- After any calls on a new node no pending transaction is on the chain, none is a reward, and
each has its identifier to itself.  One call more leaves what was pending in the pool, or its
identifier on the chain, or it is a mining that found it to fail on top of what it kept before
it; and a message or a chain that is refused changes nothing.  In place, write by write, messages
and chains do just this, and an error leaves chain, pool and epoch as they were. -/
theorem pending_afterAll (name : String) (wallet : Wallet) (calls : List Call) :
    let n := (new name wallet).afterAll calls
    (∀ t ∈ n.pool.toList, n.chain.contains t.id = false ∧ t.isReward = false) ∧
    (n.pool.toList.map (·.id)).Nodup ∧
    (∀ id, n.pool.contains id = true ↔ id ∈ n.pool.toList.map (·.id)) ∧
    (∀ call : Call,
      (∀ t ∈ n.pool.toList, t ∈ (n.after call).pool.toList ∨
        (n.after call).chain.contains t.id = true ∨ (call.mines = true ∧ n.Fails t)) ∧
      (∀ m e, n.handle m = .error e → n.after (.handle m) = n) ∧
      ∀ candidate e, n.sync candidate = .error e → n.after (.sync candidate) = n) ∧
    ∀ copy : Progress,
      (∀ m, NodePlaces.Realizes n (NodePlaces.handle m) (n.places copy) (n.handle m)) ∧
      ∀ candidate,
        NodePlaces.Realizes n (NodePlaces.sync candidate) (n.places copy) (n.sync candidate) := by
  intro n
  have hn : n.Regular := ((regular_new name wallet).afterAll calls).1
  have hnew : (new name wallet).Apart := fun _ ht => nomatch ht
  have hapart : n.Apart := hnew.afterAll (regular_new name wallet) calls
  refine ⟨fun t ht => ⟨hapart t ht, hn.rewards t ht⟩, hn.pool.nodup_ids, ?_, ?_, ?_⟩
  · intro id
    rw [hn.pool.ids_toList, hn.pool.mem_order, Pool.contains_eq]
  · intro call
    refine ⟨(hapart.tidy_after hn.pool call).accounts, ?_, ?_⟩
    · exact fun m e h => after_of_refused.1 m h
    · exact fun candidate e h => after_of_refused.2 candidate h
  · intro copy
    exact ⟨NodePlaces.realizes_handle n copy, NodePlaces.realizes_sync n copy⟩

/-- A transfer that nobody signed. -/
def unsignedTransfer : Transaction := ⟨"transfer", "nobody", "somebody", 1, 0, .transact, none⟩

theorem validate_unsignedTransfer (s : State) :
    unsignedTransfer.validate s = .error (.invalidSignature "transfer") := rfl

/-- One is a secret. -/
theorem one_range : 0 < 1 ∧ 1 < Curve.n := by decide

/-- A new node, its wallet that of the secret 1, to which the unsigned transfer came. -/
def solicited : Node :=
  (new "node" (.ofKey ⟨1, one_range⟩ [])).afterAll [.handle (.transaction unsignedTransfer)]

theorem solicited_eq : solicited = { new "node" (.ofKey ⟨1, one_range⟩ []) with
    pool := (Pool.empty.add unsignedTransfer).2 } := by
  have hpool : (new "node" (.ofKey ⟨1, one_range⟩ [])).handle (.transaction unsignedTransfer) =
      .ok _ :=
    poolTransaction_eq_ok.mpr
      ⟨rfl, Std.HashSet.contains_empty, Std.HashMap.contains_empty, rfl⟩
  show (new "node" _).after (.handle (.transaction unsignedTransfer)) = _
  simp only [after, hpool]
  rfl

theorem toList_solicited : solicited.pool.toList = [unsignedTransfer] := by
  rw [solicited_eq]
  exact Pool.indexed_empty.toList_add Std.HashMap.contains_empty

theorem indexed_solicited : solicited.pool.Indexed :=
  ((regular_new "node" _).afterAll [.handle (.transaction unsignedTransfer)]).1.pool

theorem handle_unsignedTransfer_again : solicited.handle (.transaction unsignedTransfer) =
    .error (.duplicateTransaction "transfer") := by
  have hchain : solicited.chain.contains "transfer" = false := by
    rw [solicited_eq]
    exact Std.HashSet.contains_empty
  have hpool : solicited.pool.contains "transfer" = true := by
    rw [indexed_solicited.contains_iff, toList_solicited]
    exact List.mem_singleton_self _
  refine (poolTransaction_eq solicited unsignedTransfer).trans ?_
  exact (if_neg (ne_true_of_eq_false hchain)).trans (if_pos hpool)

/-- Mining drops the transfer although no block is found, and no block has it: it has failed.
When it comes a second time instead, it is refused and nothing is written. -/
theorem fails_unsignedTransfer :
    let mine : Call := .mine .up "reward" (fun _ => ⟨0, 0⟩) 0
    unsignedTransfer ∈ solicited.pool.toList ∧
      unsignedTransfer ∉ (solicited.after mine).pool.toList ∧
      (solicited.after mine).chain.contains "transfer" = false ∧
      solicited.Fails unsignedTransfer ∧
      ∃ p, (NodePlaces.handle (.transaction unsignedTransfer)).on (solicited.places .start) =
        (.error (.duplicateTransaction "transfer"), p) ∧ solicited.holding p = solicited := by
  intro mine
  have hpending : unsignedTransfer ∈ solicited.pool.toList := by
    rw [toList_solicited]
    exact List.mem_singleton_self _
  have hidle : solicited.mining = false := by
    rw [solicited_eq]
    rfl
  have hafter : solicited.after mine = solicited.opened.idle := by
    show (solicited.mine .up "reward" (fun _ => ⟨0, 0⟩) 0).node = _
    unfold Node.mine
    rw [openJob_of_idle hidle]
    rfl
  have hfails : ∀ s', ¬ Applies solicited.chain unsignedTransfer solicited.chain.state s' := by
    rintro s' ⟨-, hvalid, -⟩
    rw [validate_unsignedTransfer] at hvalid
    exact nomatch hvalid
  have hempty : solicited.opened.idle.pool.toList = [] := by
    show (solicited.pool.clear solicited.stale).toList = []
    rw [toList_clear_stale indexed_solicited, applicable_eq, toList_solicited]
    show (sift _ [unsignedTransfer] _).1 = []
    rw [sift_cons_of_not_applies hfails]
    rfl
  have hgone : unsignedTransfer ∉ (solicited.after mine).pool.toList := by
    rw [hafter, hempty]
    exact List.not_mem_nil
  have hnew : (solicited.after mine).chain.contains "transfer" = false := by
    rw [hafter, solicited_eq]
    exact Std.HashSet.contains_empty
  obtain ⟨-, -, -, hcalls, hplaces⟩ := pending_afterAll "node" (.ofKey ⟨1, one_range⟩ [])
    [.handle (.transaction unsignedTransfer)]
  refine ⟨hpending, hgone, hnew, ?failed, ?again⟩
  case failed =>
    rcases (hcalls mine).1 unsignedTransfer hpending with hpooled | hchain | ⟨-, hfailed⟩
    · exact absurd hpooled hgone
    · exact absurd hchain (Bool.eq_false_iff.mp hnew)
    · exact hfailed
  case again =>
    have hagain : NodePlaces.Realizes solicited _ _ (solicited.handle _) :=
      (hplaces .start).1 (.transaction unsignedTransfer)
    rw [handle_unsignedTransfer_again] at hagain
    exact hagain

end Node

end WorkLedger
