/-
# Accepted blocks

What the consensus rule asks of a block, one field for each check.  `validate_eq_ok` says that
the rule accepts the genesis block anywhere, and otherwise exactly the blocks that are
`Accepted`.
-/
import WorkLedger.Block.Validation
import WorkLedger.Proofs.Transaction.Series

namespace WorkLedger

/-- A block that may follow another on top of a state. -/
structure Accepted (last block : Block) (s : State) : Prop where
  parentHash : block.header.parentHash = last.hash
  number : block.header.number = last.header.number + 1
  difficulty : distance last.header.difficulty block.header.difficulty ≤ 1
  work : block.header.proofOfWork ≤ last.header.target
  transactionsRoot : block.header.transactionsRoot = transactionsRoot block.transactions
  ids : block.ids.Nodup
  stateRoot : block.header.stateRoot = s.root
  /-- There is one reward, and it is the beneficiary's. -/
  reward : ∃ t, block.transactions.filter (·.isReward) = [t] ∧
    t.recipient = block.header.beneficiary
  series : ∃ s', Transaction.validateAndRun block.transactions s = .ok s'

/-! ## The single checks -/

theorem firstRepeated?_eq_none {l : List String} :
    ∀ {before : List String}, firstRepeated? before l = none ↔
      l.Nodup ∧ ∀ id ∈ l, id ∉ before := by
  induction l with
  | nil => simp [firstRepeated?]
  | cons id rest ih =>
      intro before
      by_cases h : id ∈ before
      · simp [firstRepeated?, h]
      · simp only [firstRepeated?, if_neg h, ih, List.nodup_cons, List.mem_cons]
        constructor
        · rintro ⟨hrest, hout⟩
          refine ⟨⟨fun hid => (hout id hid) (.inl rfl), hrest⟩, ?_⟩
          rintro x (rfl | hx) hb
          · exact h hb
          · exact hout x hx (.inr hb)
        · rintro ⟨⟨hid, hrest⟩, hout⟩
          refine ⟨hrest, fun x hx hb => ?_⟩
          rcases hb with rfl | hb
          · exact hid hx
          · exact hout x (.inr hx) hb

namespace Block

theorem paysBeneficiary_iff {b : Block} :
    b.paysBeneficiary = true ↔ ∃ t, b.transactions.filter (·.isReward) = [t] ∧
      t.recipient = b.header.beneficiary := by
  unfold paysBeneficiary
  split
  · rename_i t h
    simp [h]
  · rename_i h
    exact ⟨nofun, fun ⟨t, ht, _⟩ => absurd ht (h t)⟩

/-- A block that passes all checks before the last can only fail in its transactions. -/
theorem validate_of_checks {last block : Block} {s : State} (hgenesis : block ≠ genesis)
    (hparent : block.header.parentHash = last.hash)
    (hnumber : block.header.number = last.header.number + 1)
    (hdifficulty : distance last.header.difficulty block.header.difficulty ≤ 1)
    (hwork : block.header.proofOfWork ≤ last.header.target)
    (hroot : block.header.transactionsRoot = transactionsRoot block.transactions)
    (hids : block.ids.Nodup) (hstate : block.header.stateRoot = s.root)
    (hreward : block.paysBeneficiary = true) :
    Block.validate last block s =
      (Transaction.validateSeries block.transactions s).mapError .transaction := by
  have hrepeated : firstRepeated? [] block.ids = none :=
    firstRepeated?_eq_none.mpr ⟨hids, fun _ _ => List.not_mem_nil⟩
  unfold validate
  rw [if_neg hgenesis]
  refine (if_neg (not_not_intro hparent)).trans ?_
  refine (if_neg (not_not_intro hnumber)).trans ?_
  refine (if_neg (Nat.not_lt.mpr hdifficulty)).trans ?_
  refine (if_neg (not_not_intro hwork)).trans ?_
  refine (if_neg (not_not_intro hroot)).trans ?_
  simp only [hrepeated]
  refine (if_neg (not_not_intro hstate)).trans ?_
  exact if_neg (by rw [hreward]; exact Bool.false_ne_true)

/-- The rule accepts the genesis block, and what is `Accepted`. -/
theorem validate_eq_ok {last block : Block} {s : State} :
    Block.validate last block s = .ok () ↔ block = genesis ∨ Accepted last block s := by
  by_cases hgenesis : block = genesis
  · exact ⟨fun _ => .inl hgenesis, fun _ => if_pos hgenesis⟩
  · constructor
    · intro h
      unfold validate at h
      rw [if_neg hgenesis] at h
      obtain ⟨hparent, h⟩ := check_eq_ok.mp h
      obtain ⟨hnumber, h⟩ := check_eq_ok.mp h
      obtain ⟨hdifficulty, h⟩ := check_eq_ok.mp h
      obtain ⟨hwork, h⟩ := check_eq_ok.mp h
      obtain ⟨hroot, h⟩ := check_eq_ok.mp h
      cases hids : firstRepeated? [] block.ids with
      | some id =>
          simp only [hids] at h
          exact nomatch h
      | none =>
          simp only [hids] at h
          obtain ⟨hstate, h⟩ := check_eq_ok.mp h
          obtain ⟨hreward, h⟩ := check_eq_ok.mp h
          have hseries := Transaction.validateSeries_eq_ok.mp (mapError_eq_ok.mp h)
          exact .inr {
            parentHash := Decidable.not_not.mp hparent
            number := Decidable.not_not.mp hnumber
            difficulty := Nat.not_lt.mp hdifficulty
            work := Decidable.not_not.mp hwork
            transactionsRoot := Decidable.not_not.mp hroot
            ids := (firstRepeated?_eq_none.mp hids).1
            stateRoot := Decidable.not_not.mp hstate
            reward := paysBeneficiary_iff.mp (by simpa using hreward)
            series := hseries }
    · rintro (h | h)
      · exact absurd h hgenesis
      · rw [validate_of_checks hgenesis h.parentHash h.number h.difficulty h.work
          h.transactionsRoot h.ids h.stateRoot (paysBeneficiary_iff.mpr h.reward)]
        exact mapError_eq_ok.mpr (Transaction.validateSeries_eq_ok.mpr h.series)

end Block

end WorkLedger
