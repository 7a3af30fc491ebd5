/-
# How chains grow

A chain changes by two calls: one block is added on top of the tip, or a longer chain is
replayed from genesis and taken over.  Both come down to one step, `Extends`: a block whose
number is not zero, which the rule accepts on top of the last block and which repeats no
earlier transaction, is run.  `Grown` is what arises from the genesis block by such steps, and
`grown_afterAll` says that no sequence of calls leads to anything else.
-/
import WorkLedger.Chain
import WorkLedger.Proofs.Outcome

namespace WorkLedger

/-- One block more: `b` follows `last` and takes the progress from `g` to `g'`. -/
structure Extends (rule : BlockRule) (last : Block) (g : Progress) (b : Block) (g' : Progress) :
    Prop where
  number : b.header.number ≠ 0
  checked : g.check rule last b = .ok ()
  ran : g.run b = .ok g'

/-- The blocks from genesis on, and the progress that running them has made. -/
inductive Grown (rule : BlockRule) : List Block → Progress → Prop
  | genesis : Grown rule [genesis] .start
  | extend {blocks : List Block} {last b : Block} {g g' : Progress} :
      Grown rule blocks g → blocks.getLast? = some last → Extends rule last g b g' →
      Grown rule (blocks ++ [b]) g'

namespace Progress

theorem check_eq_ok {rule : BlockRule} {g : Progress} {last block : Block} :
    g.check rule last block = .ok () ↔
      rule last block g.state = .ok () ∧ g.rejectReplays block = .ok () := by
  simp only [check, bind_eq_ok]
  exact ⟨fun ⟨_, h⟩ => h, fun h => ⟨_, h⟩⟩

theorem rejectReplays_eq_ok {g : Progress} {b : Block} :
    g.rejectReplays b = .ok () ↔ ∀ id ∈ b.ids, g.included.contains id = false := by
  unfold rejectReplays
  split
  · rename_i id h
    have hfound := List.find?_some h
    refine ⟨nofun, fun hall => ?_⟩
    rw [hall id (List.mem_of_find?_eq_some h)] at hfound
    exact nomatch hfound
  · rename_i h
    refine ⟨fun _ id hid => ?_, fun _ => rfl⟩
    simpa using List.find?_eq_none.mp h id hid

theorem run_eq_ok {g g' : Progress} {b : Block} :
    g.run b = .ok g' ↔ ∃ s, b.run g.state = .ok s ∧ g' = ⟨s, g.included.insertMany b.ids⟩ := by
  simp only [run, bind_eq_ok, pure_eq_ok, eq_comm (b := g')]

end Progress

namespace Chain

/-! ## The two ways to take a step -/

theorem eq_of {c c' : Chain} (hblocks : c.blocks = c'.blocks) (hprogress : c.progress = c'.progress) :
    c = c' := by
  cases c
  cases c'
  cases hblocks
  cases hprogress
  rfl

theorem getLast?_blocks (c : Chain) : c.blocks.getLast? = some c.tip :=
  List.getLast?_eq_some_getLast c.nonempty

theorem extend_eq_ok {rule : BlockRule} {c c' : Chain} {b : Block} :
    c.extend rule b = .ok c' ↔
      Extends rule c.tip c.progress b c'.progress ∧ c'.blocks = c.blocks ++ [b] := by
  unfold extend
  constructor
  · intro h
    obtain ⟨hnumber, h⟩ := check_eq_ok.mp h
    obtain ⟨_, hchecked, h⟩ := bind_eq_ok.mp h
    obtain ⟨g', hran, h⟩ := bind_eq_ok.mp h
    have hc' := pure_eq_ok.mp h
    subst hc'
    exact ⟨⟨hnumber, mapError_eq_ok.mp hchecked, mapError_eq_ok.mp hran⟩, rfl⟩
  · rintro ⟨hstep, hblocks⟩
    refine check_eq_ok.mpr ⟨hstep.number, ?_⟩
    refine bind_eq_ok.mpr ⟨(), mapError_eq_ok.mpr hstep.checked, ?_⟩
    refine bind_eq_ok.mpr ⟨c'.progress, mapError_eq_ok.mpr hstep.ran, ?_⟩
    exact pure_eq_ok.mpr (eq_of hblocks.symm rfl)

theorem addBlock_eq_ok {rule : BlockRule} {c c' : Chain} {b : Block} {pool pool' : Pool} :
    c.addBlock rule b pool = .ok (c', pool') ↔
      c.extend rule b = .ok c' ∧ pool' = pool.clear b.transactions := by
  simp only [addBlock, bind_eq_ok, pure_eq_ok, Prod.mk.injEq]
  constructor
  · rintro ⟨_, h, rfl, rfl⟩
    exact ⟨h, rfl⟩
  · rintro ⟨h, rfl⟩
    exact ⟨c', h, rfl, rfl⟩

theorem replayFrom_cons_eq_ok {rule : BlockRule} {last b : Block} {rest : List Block}
    {g g'' : Progress} :
    replayFrom rule last (b :: rest) g = .ok g'' ↔
      ∃ g', Extends rule last g b g' ∧ replayFrom rule b rest g' = .ok g'' := by
  rw [replayFrom]
  constructor
  · intro h
    obtain ⟨hnumber, h⟩ := check_eq_ok.mp h
    obtain ⟨_, hchecked, h⟩ := bind_eq_ok.mp h
    obtain ⟨g', hran, h⟩ := bind_eq_ok.mp h
    exact ⟨g', ⟨hnumber, mapError_eq_ok.mp hchecked, mapError_eq_ok.mp hran⟩, h⟩
  · rintro ⟨g', hstep, h⟩
    refine check_eq_ok.mpr ⟨hstep.number, ?_⟩
    refine bind_eq_ok.mpr ⟨(), mapError_eq_ok.mpr hstep.checked, ?_⟩
    exact bind_eq_ok.mpr ⟨g', mapError_eq_ok.mpr hstep.ran, h⟩

theorem replay_eq_ok {rule : BlockRule} {blocks : List Block} {g : Progress} :
    replay rule blocks = .ok g ↔
      ∃ rest, blocks = genesis :: rest ∧ replayFrom rule genesis rest .start = .ok g := by
  cases blocks with
  | nil => exact ⟨nofun, fun ⟨_, h, _⟩ => nomatch h⟩
  | cons first rest =>
      by_cases hfirst : first = genesis
      · subst hfirst
        simp only [replay, if_true, List.cons.injEq, true_and]
        exact ⟨fun h => ⟨rest, rfl, h⟩, fun ⟨_, hrest, h⟩ => hrest ▸ h⟩
      · rw [replay, if_neg hfirst]
        refine ⟨nofun, ?_⟩
        rintro ⟨_, hrest, -⟩
        exact absurd (List.cons.inj hrest).1 hfirst

theorem replace_eq_ok {rule : BlockRule} {c c' : Chain} {candidate : List Block} :
    c.replace rule candidate = .ok c' ↔
      c.length < candidate.length ∧ c'.blocks = candidate ∧
        replay rule candidate = .ok c'.progress := by
  unfold replace length
  split
  · rename_i h
    exact ⟨nofun, fun h' => absurd h (Nat.not_le.mpr h'.1)⟩
  · rename_i h
    split
    · rename_i fault hreplay
      refine ⟨nofun, fun h' => ?_⟩
      rw [hreplay] at h'
      exact nomatch h'.2.2
    · rename_i g hreplay
      constructor
      · rintro ⟨⟩
        exact ⟨Nat.not_le.mp h, rfl, hreplay⟩
      · rintro ⟨-, hblocks, hprogress⟩
        rw [hreplay] at hprogress
        cases hprogress
        exact congrArg Except.ok (eq_of hblocks.symm rfl)

theorem length_of_extend {rule : BlockRule} {c c' : Chain} {b : Block}
    (h : c.extend rule b = .ok c') : c'.length = c.length + 1 := by
  rw [length, (extend_eq_ok.mp h).2, List.length_append]
  rfl

theorem length_lt_of_replace {rule : BlockRule} {c c' : Chain} {candidate : List Block}
    (h : c.replace rule candidate = .ok c') : c.length < c'.length := by
  obtain ⟨hlength, hblocks, -⟩ := replace_eq_ok.mp h
  rw [← hblocks] at hlength
  exact hlength

/-! ## Replaying is growing -/

/-- Replaying blocks on top of a grown chain grows it by them. -/
theorem grown_of_replayFrom {rule : BlockRule} {blocks : List Block} {g g' : Progress}
    {last : Block} (hgrown : Grown rule blocks g) (hlast : blocks.getLast? = some last)
    {rest : List Block} (h : replayFrom rule last rest g = .ok g') :
    Grown rule (blocks ++ rest) g' := by
  induction rest generalizing blocks g last with
  | nil =>
      cases h
      simpa using hgrown
  | cons b rest ih =>
      obtain ⟨next, hstep, h⟩ := replayFrom_cons_eq_ok.mp h
      have := ih (hgrown.extend hlast hstep) (by simp) h
      simpa using this

theorem replayFrom_append_eq_ok {rule : BlockRule} {last b : Block} {rest : List Block}
    {g g'' : Progress} :
    replayFrom rule last (rest ++ [b]) g = .ok g'' ↔
      ∃ g' tip, replayFrom rule last rest g = .ok g' ∧ (last :: rest).getLast? = some tip ∧
        Extends rule tip g' b g'' := by
  induction rest generalizing last g with
  | nil =>
      rw [List.nil_append, replayFrom_cons_eq_ok]
      constructor
      · rintro ⟨_, hstep, ⟨⟩⟩
        exact ⟨g, last, rfl, rfl, hstep⟩
      · rintro ⟨_, _, ⟨⟩, ⟨⟩, hstep⟩
        exact ⟨g'', hstep, rfl⟩
  | cons a rest ih =>
      simp only [List.cons_append, replayFrom_cons_eq_ok, ih, List.getLast?_cons_cons]
      constructor
      · rintro ⟨next, hstep, g', tip, hrest, htip, hlast⟩
        exact ⟨g', tip, ⟨next, hstep, hrest⟩, htip, hlast⟩
      · rintro ⟨g', tip, ⟨next, hstep, hrest⟩, htip, hlast⟩
        exact ⟨next, hstep, g', tip, hrest, htip, hlast⟩

/-- A replay from genesis succeeds for the chains that can grow, and with their progress. -/
theorem replay_eq_ok_iff_grown {rule : BlockRule} {blocks : List Block} {g : Progress} :
    replay rule blocks = .ok g ↔ Grown rule blocks g := by
  rw [replay_eq_ok]
  constructor
  · rintro ⟨rest, rfl, h⟩
    exact grown_of_replayFrom .genesis rfl h
  · intro h
    induction h with
    | genesis => exact ⟨[], rfl, rfl⟩
    | extend _ hlast hstep ih =>
        obtain ⟨rest, rfl, hrest⟩ := ih
        exact ⟨rest ++ [_], rfl, replayFrom_append_eq_ok.mpr ⟨_, _, hrest, hlast, hstep⟩⟩

/-! ## Calls -/

/-- A call that may change a chain. -/
inductive Call where
  /-- Adds a block, and clears its transactions from a pool. -/
  | add (b : Block) (pool : Pool)
  /-- Offers another chain. -/
  | replace (candidate : List Block)

/-- The chain after a call; a call that is refused changes nothing. -/
def after (rule : BlockRule) (c : Chain) : Call → Chain
  | .add b pool =>
      match c.addBlock rule b pool with
      | .ok (c, _) => c
      | .error _ => c
  | .replace candidate =>
      match c.replace rule candidate with
      | .ok c => c
      | .error _ => c

/-- The chain after a sequence of calls on a new one. -/
def afterAll (rule : BlockRule) (calls : List Call) : Chain := calls.foldl (after rule) new

theorem grown_after {rule : BlockRule} {c : Chain} (h : Grown rule c.blocks c.progress)
    (call : Call) : Grown rule (c.after rule call).blocks (c.after rule call).progress := by
  cases call with
  | add b pool =>
      cases hadd : c.addBlock rule b pool with
      | error e => simpa only [after, hadd] using h
      | ok r =>
          obtain ⟨hstep, hblocks⟩ := extend_eq_ok.mp (addBlock_eq_ok.mp hadd).1
          simp only [after, hadd, hblocks]
          exact h.extend c.getLast?_blocks hstep
  | replace candidate =>
      cases hreplace : c.replace rule candidate with
      | error e => simpa only [after, hreplace] using h
      | ok c' =>
          obtain ⟨-, hblocks, hreplay⟩ := replace_eq_ok.mp hreplace
          simp only [after, hreplace, hblocks]
          exact replay_eq_ok_iff_grown.mp hreplay

/-- Whatever is called, the chain has grown from genesis. -/
theorem grown_afterAll (rule : BlockRule) (calls : List Call) :
    Grown rule (afterAll rule calls).blocks (afterAll rule calls).progress := by
  suffices h : ∀ c : Chain, Grown rule c.blocks c.progress →
      Grown rule (calls.foldl (after rule) c).blocks (calls.foldl (after rule) c).progress from
    h new .genesis
  induction calls with
  | nil => exact fun c h => h
  | cons call calls ih => exact fun c h => ih (c.after rule call) (grown_after h call)

end Chain

end WorkLedger
