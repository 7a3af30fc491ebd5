/-
# Every transaction once

The rule refuses a block that repeats an identifier, a chain refuses one that repeats an
identifier of an earlier block, and what it compares with are the identifiers of the blocks
that it holds.  So over all blocks of a chain every identifier occurs once at most, and it is
found in the index exactly if it occurs, whichever blocks were dropped on the way.
-/
import WorkLedger.Proofs.Block.Accepted
import WorkLedger.Proofs.Chain.Growth

namespace WorkLedger

/-- The identifiers of all transactions of blocks, in order. -/
def idsOf (blocks : List Block) : List String := blocks.flatMap Block.ids

theorem idsOf_append (blocks : List Block) (b : Block) :
    idsOf (blocks ++ [b]) = idsOf blocks ++ b.ids := by
  simp [idsOf]

theorem Block.nodup_ids_of_validate {last b : Block} {s : State}
    (h : Block.validate last b s = .ok ()) : b.ids.Nodup := by
  rcases validate_eq_ok.mp h with rfl | h
  · exact List.nodup_nil
  · exact h.ids

/-- One block more in the index. -/
theorem Progress.contains_of_run {g g' : Progress} {b : Block} (h : g.run b = .ok g')
    (id : String) :
    g'.included.contains id = true ↔ g.included.contains id = true ∨ id ∈ b.ids := by
  obtain ⟨s, -, rfl⟩ := run_eq_ok.mp h
  rw [Std.HashSet.contains_insertMany_list]
  simp

/-- The identifiers of a grown chain differ, and they are those in the index. -/
theorem Grown.nodup_ids {blocks : List Block} {g : Progress}
    (h : Grown Block.validate blocks g) :
    (idsOf blocks).Nodup ∧ ∀ id, g.included.contains id = true ↔ id ∈ idsOf blocks := by
  induction h with
  | genesis =>
      refine ⟨List.nodup_nil, fun id => ?_⟩
      exact ⟨fun h => absurd h (by simp [Progress.start]), nofun⟩
  | @extend blocks last b g g' _ _ hstep ih =>
      obtain ⟨hnodup, hindex⟩ := ih
      obtain ⟨hvalid, hfresh⟩ := Progress.check_eq_ok.mp hstep.checked
      have hnew := Progress.rejectReplays_eq_ok.mp hfresh
      rw [idsOf_append]
      constructor
      · refine List.nodup_append.mpr ⟨hnodup, Block.nodup_ids_of_validate hvalid, ?_⟩
        rintro id hold _ hid rfl
        have hcontains := (hindex id).mpr hold
        rw [hnew id hid] at hcontains
        exact nomatch hcontains
      · intro id
        rw [Progress.contains_of_run hstep.ran, hindex, List.mem_append]

/-- After any calls every identifier occurs once at most in all blocks of the chain, and the
chain contains exactly those that occur. -/
theorem Chain.nodup_ids_afterAll (calls : List Call) :
    let c := afterAll Block.validate calls
    (idsOf c.blocks).Nodup ∧ ∀ id, c.contains id = true ↔ id ∈ idsOf c.blocks :=
  (grown_afterAll Block.validate calls).nodup_ids

end WorkLedger
