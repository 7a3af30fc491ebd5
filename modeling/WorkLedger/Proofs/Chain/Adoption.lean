/-
# Adopting a longer chain

Taking over a chain as a whole and following it block by block are one decision.  A candidate
is adopted exactly if it is longer, starts with genesis, and a fresh chain accepts its other
blocks one after another; what is then held is that fresh chain, with its state and its
identifiers.  So a chain that some node has grown is adopted by every node that holds a
shorter one.
-/
import WorkLedger.Proofs.Block.Mined
import WorkLedger.Proofs.Chain.Consistency

namespace WorkLedger.Chain

/-- Adds blocks one after another, each clearing its transactions from the pool. -/
def addAll (rule : BlockRule) : Chain → Pool → List Block → Except ChainError (Chain × Pool)
  | c, pool, [] => .ok (c, pool)
  | c, pool, b :: rest => do
      let (c, pool) ← c.addBlock rule b pool
      addAll rule c pool rest

theorem addAll_cons_eq_ok {rule : BlockRule} {c c' : Chain} {pool pool' : Pool} {b : Block}
    {rest : List Block} :
    addAll rule c pool (b :: rest) = .ok (c', pool') ↔
      ∃ next, c.extend rule b = .ok next ∧
        addAll rule next (pool.clear b.transactions) rest = .ok (c', pool') := by
  simp only [addAll, bind_eq_ok]
  constructor
  · rintro ⟨⟨next, cleared⟩, hadd, h⟩
    obtain ⟨hextend, rfl⟩ := addBlock_eq_ok.mp hadd
    exact ⟨next, hextend, h⟩
  · rintro ⟨next, hextend, h⟩
    exact ⟨(next, _), addBlock_eq_ok.mpr ⟨hextend, rfl⟩, h⟩

/-- Adding blocks and replaying them from the tip on take the same steps. -/
theorem exists_addAll_eq_ok {rule : BlockRule} {c c' : Chain} (pool : Pool) {rest : List Block} :
    (∃ pool', addAll rule c pool rest = .ok (c', pool')) ↔
      c'.blocks = c.blocks ++ rest ∧ replayFrom rule c.tip rest c.progress = .ok c'.progress := by
  induction rest generalizing c pool with
  | nil =>
      rw [List.append_nil]
      constructor
      · rintro ⟨_, ⟨⟩⟩
        exact ⟨rfl, rfl⟩
      · rintro ⟨hblocks, hprogress⟩
        have hc' := eq_of hblocks (Except.ok.inj hprogress).symm
        exact ⟨pool, by rw [hc']; rfl⟩
  | cons b rest ih =>
      simp only [addAll_cons_eq_ok, replayFrom_cons_eq_ok]
      constructor
      · rintro ⟨pool', next, hextend, h⟩
        obtain ⟨hblocks, hreplay⟩ := (ih _).mp ⟨pool', h⟩
        obtain ⟨hstep, hnext⟩ := extend_eq_ok.mp hextend
        have htip : next.tip = b := by simp [tip, hnext]
        rw [htip] at hreplay
        exact ⟨by rw [hblocks, hnext, List.append_assoc]; rfl, next.progress, hstep, hreplay⟩
      · rintro ⟨hblocks, g', hstep, hreplay⟩
        let next : Chain := ⟨c.blocks ++ [b], g', by simp⟩
        have htip : next.tip = b := by simp [tip, next]
        obtain ⟨pool', h⟩ := (ih (c := next) (pool.clear b.transactions)).mpr
          ⟨by rw [hblocks]; simp [next], by rw [htip]; exact hreplay⟩
        exact ⟨pool', next, extend_eq_ok.mpr ⟨hstep, rfl⟩, h⟩

/-- A candidate replays from genesis to what a fresh chain holds that has added its blocks. -/
theorem replay_eq_ok_iff_addAll {rule : BlockRule} {c : Chain} {candidate : List Block}
    (pool : Pool) :
    (c.blocks = candidate ∧ replay rule candidate = .ok c.progress) ↔
      ∃ rest pool', candidate = genesis :: rest ∧ addAll rule new pool rest = .ok (c, pool') := by
  rw [replay_eq_ok]
  constructor
  · rintro ⟨hblocks, rest, rfl, h⟩
    obtain ⟨pool', hadd⟩ := (exists_addAll_eq_ok (c := new) pool).mpr ⟨hblocks, h⟩
    exact ⟨rest, pool', rfl, hadd⟩
  · rintro ⟨rest, pool', rfl, hadd⟩
    obtain ⟨hblocks, h⟩ := (exists_addAll_eq_ok pool).mp ⟨pool', hadd⟩
    exact ⟨hblocks, rest, rfl, h⟩

/-- A chain that has grown is adopted by every shorter one, and as it is. -/
theorem replace_of_grown {rule : BlockRule} {held longer : Chain}
    (h : Grown rule longer.blocks longer.progress) (hlength : held.length < longer.length) :
    held.replace rule longer.blocks = .ok longer :=
  replace_eq_ok.mpr ⟨hlength, rfl, replay_eq_ok_iff_grown.mpr h⟩

/-- Adopting a candidate is adding its blocks to a fresh chain, and a chain that arose from
calls is adopted wherever a shorter one is held. -/
theorem replace_eq_ok_iff_addAll (calls : List Call) :
    let held := afterAll Block.validate calls
    (∀ (candidate : List Block) (pool : Pool) (fresh : Chain),
      held.replace Block.validate candidate = .ok fresh ↔
        held.length < candidate.length ∧ ∃ rest pool', candidate = genesis :: rest ∧
          addAll Block.validate new pool rest = .ok (fresh, pool')) ∧
    ∀ calls' : List Call,
      let longer := afterAll Block.validate calls'
      held.length < longer.length → held.replace Block.validate longer.blocks = .ok longer := by
  intro held
  constructor
  · intro candidate pool fresh
    rw [replace_eq_ok, replay_eq_ok_iff_addAll pool]
  · intro calls' longer hlength
    exact replace_of_grown (grown_afterAll Block.validate calls') hlength

/-- Whatever calls made a chain, offering it to a new one makes it again. -/
theorem afterAll_replace {rule : BlockRule} {calls : List Call}
    (hlength : new.length < (afterAll rule calls).length) :
    afterAll rule [.replace (afterAll rule calls).blocks] = afterAll rule calls := by
  have hreplace := replace_of_grown (grown_afterAll rule calls) hlength
  show after rule new (.replace (afterAll rule calls).blocks) = _
  simp only [after, hreplace]

/-- A block that may follow genesis extends a new chain. -/
theorem exists_extend_new {b : Block} (h : Accepted genesis b .empty) :
    ∃ c, new.extend Block.validate b = .ok c := by
  have hnumber : b.header.number ≠ 0 := by
    rw [h.number]
    decide
  obtain ⟨g, hstep⟩ := h.exists_extends (g := .start) hnumber
    fun _ _ => Std.HashSet.contains_empty
  exact ⟨⟨[genesis, b], g, by simp⟩, extend_eq_ok.mpr ⟨hstep, rfl⟩⟩

/-- A block that may follow genesis can be added to a new chain. -/
theorem blocks_add_of_accepted {b : Block} (h : Accepted genesis b .empty) :
    (afterAll Block.validate [.add b .empty]).blocks = [genesis, b] := by
  obtain ⟨c, hextend⟩ := exists_extend_new h
  have hadd : new.addBlock Block.validate b .empty = .ok (c, _) :=
    addBlock_eq_ok.mpr ⟨hextend, rfl⟩
  show (after Block.validate new (.add b .empty)).blocks = _
  simp only [after, hadd]
  exact (extend_eq_ok.mp hextend).2

/-- A block on top of genesis makes a chain of two. -/
theorem exists_calls_length_two :
    ∃ calls : List Call, (afterAll Block.validate calls).length = 2 :=
  ⟨_, congrArg List.length (blocks_add_of_accepted (accepted_afterGenesis_nil "miner" "reward"))⟩

/-- The chain of genesis alone adopts one of two blocks. -/
theorem new_replace_length_two : ∃ calls : List Call,
    let longer := afterAll Block.validate calls
    new.length < longer.length ∧ new.replace Block.validate longer.blocks = .ok longer := by
  obtain ⟨calls, hlength⟩ := exists_calls_length_two
  have hlt : new.length < (afterAll Block.validate calls).length := by
    rw [hlength]
    decide
  exact ⟨calls, hlt, (replace_eq_ok_iff_addAll []).2 calls hlt⟩

end WorkLedger.Chain
