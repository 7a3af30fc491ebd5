/-
# Tries as maps

A tree is `Canonical` if the labels side by side ascend and no branch is dead, that is, every
node has a value or nodes below it.  Writing keeps a tree canonical.  On canonical trees
writing and reading are those of a map, and a tree is determined by what it holds, so the
order in which entries were put cannot be seen in it.
-/
import WorkLedger.Trie.Basic

namespace WorkLedger.Trie

namespace Forest

variable {α : Type}

/-- Every label is above the bound, as far as the first label tells. -/
def Above (bound : Char) : Forest α → Prop
  | .nil => True
  | .cons c _ _ _ => bound < c

/-- Labels ascend, and every node has a value or children. -/
def Canonical : Forest α → Prop
  | .nil => True
  | .cons c w children rest =>
      (w.isSome ∨ children ≠ .nil) ∧ children.Canonical ∧ rest.Canonical ∧ rest.Above c

/-- Labels ascend, here and below every node.  Unlike in a canonical forest, branches may be
dead. -/
def Ordered : Forest α → Prop
  | .nil => True
  | .cons c _ children rest => children.Ordered ∧ rest.Ordered ∧ rest.Above c

theorem Canonical.ordered {f : Forest α} (hf : f.Canonical) : f.Ordered := by
  induction f with
  | nil => trivial
  | cons c w children rest ihc ihr => exact ⟨ihc hf.2.1, ihr hf.2.2.1, hf.2.2.2⟩

theorem Above.trans {a b : Char} {f : Forest α} (hab : a < b) (h : f.Above b) : f.Above a := by
  cases f with
  | nil => trivial
  | cons c w children rest => exact Char.lt_trans hab h

/-! ## Reading -/

@[simp]
theorem get?_nil (c : Char) (cs : List Char) : (nil : Forest α).get? c cs = none := rfl

theorem get?_cons_self_nil {c : Char} {w : Option α} {children rest : Forest α} :
    (cons c w children rest).get? c [] = w := by
  simp [get?]

theorem get?_cons_self_cons {c d : Char} {ds : List Char} {w : Option α}
    {children rest : Forest α} :
    (cons c w children rest).get? c (d :: ds) = children.get? d ds := by
  simp [get?]

theorem get?_cons_of_ne {b c : Char} (h : b ≠ c) {bs : List Char} {w : Option α}
    {children rest : Forest α} : (cons c w children rest).get? b bs = rest.get? b bs := by
  simp [get?, h]

theorem get?_eq_none_of_above {f : Forest α} {b : Char} (hf : f.Canonical) (h : f.Above b)
    (bs : List Char) : f.get? b bs = none := by
  induction f with
  | nil => rfl
  | cons c w children rest _ ih =>
      have hbc : b < c := h
      rw [get?_cons_of_ne (Char.ne_of_lt hbc)]
      exact ih hf.2.2.1 (hf.2.2.2.trans hbc)

/-! ## Writing -/

theorem branch_ne_nil (v : α) (c : Char) (cs : List Char) (rest : Forest α) :
    branch v c cs rest ≠ .nil := by
  cases cs <;> exact nofun

theorem put_ne_nil (v : α) (c : Char) (cs : List Char) (f : Forest α) : f.put v c cs ≠ .nil := by
  cases f with
  | nil => exact branch_ne_nil v c cs .nil
  | cons d w children rest =>
      unfold put
      split
      · exact branch_ne_nil v c cs _
      · split
        · split <;> exact nofun
        · exact nofun

theorem above_branch {b c : Char} (h : b < c) (v : α) (cs : List Char) (rest : Forest α) :
    (branch v c cs rest).Above b := by
  cases cs <;> exact h

theorem above_put {b c : Char} {f : Forest α} (hbc : b < c) (h : f.Above b) (v : α)
    (cs : List Char) : (f.put v c cs).Above b := by
  cases f with
  | nil => exact above_branch hbc v cs .nil
  | cons d w children rest =>
      unfold put
      split
      · exact above_branch hbc v cs _
      · split
        · split <;> exact h
        · exact h

theorem canonical_branch (v : α) (c : Char) (cs : List Char) {rest : Forest α}
    (hrest : rest.Canonical) (h : rest.Above c) : (branch v c cs rest).Canonical := by
  induction cs generalizing c rest with
  | nil => exact ⟨.inl rfl, trivial, hrest, h⟩
  | cons d ds ih =>
      exact ⟨.inr (branch_ne_nil v d ds .nil), ih d trivial trivial, hrest, h⟩

theorem Canonical.put {f : Forest α} (hf : f.Canonical) (v : α) (c : Char) (cs : List Char) :
    (f.put v c cs).Canonical := by
  induction f generalizing c cs with
  | nil => exact canonical_branch v c cs trivial trivial
  | cons d w children rest ihc ihr =>
      obtain ⟨hlive, hchildren, hrest, habove⟩ := hf
      unfold Forest.put
      split
      · rename_i hlt
        exact canonical_branch v c cs ⟨hlive, hchildren, hrest, habove⟩ hlt
      · rename_i hnlt
        split
        · cases cs with
          | nil => exact ⟨.inl rfl, hchildren, hrest, habove⟩
          | cons e es => exact ⟨.inr (put_ne_nil v e es children), ihc hchildren e es, hrest, habove⟩
        · rename_i hne
          have hdc : d < c := by grind
          exact ⟨hlive, hchildren, ihr hrest c cs, above_put hdc habove v cs⟩

theorem get?_branch (v : α) (c : Char) (cs : List Char) (rest : Forest α) (b : Char)
    (bs : List Char) : (branch v c cs rest).get? b bs =
      if b = c then (if bs = cs then some v else none) else rest.get? b bs := by
  induction cs generalizing b c bs rest with
  | nil =>
      split
      · rename_i hbc
        subst hbc
        cases bs with
        | nil => exact get?_cons_self_nil
        | cons _ _ => exact get?_cons_self_cons
      · rename_i hbc
        exact get?_cons_of_ne hbc
  | cons d ds ih =>
      split
      · rename_i hbc
        subst hbc
        cases bs with
        | nil => exact get?_cons_self_nil
        | cons e es =>
            unfold branch
            rw [get?_cons_self_cons, ih]
            by_cases hed : e = d
            · simp [hed]
            · simp [hed]
      · rename_i hbc
        exact get?_cons_of_ne hbc

/-- Reading after writing. -/
theorem get?_put {f : Forest α} (hf : f.Canonical) (v : α) (c : Char) (cs : List Char) (b : Char)
    (bs : List Char) :
    (f.put v c cs).get? b bs = if b = c ∧ bs = cs then some v else f.get? b bs := by
  induction f generalizing b bs c cs with
  | nil =>
      show (branch v c cs .nil).get? b bs = _
      rw [get?_branch]
      by_cases hbc : b = c <;> simp [hbc]
  | cons d w children rest ihc ihr =>
      unfold put
      split
      · rename_i hlt
        rw [get?_branch]
        by_cases hbc : b = c
        · -- There was nothing below the new label.
          subst hbc
          have hnone := get?_eq_none_of_above (f := cons d w children rest) hf hlt bs
          simp [hnone]
        · simp [hbc]
      · rename_i hnlt
        obtain ⟨-, hchildren, hrest, -⟩ := hf
        split
        · rename_i hcd
          subst hcd
          by_cases hbc : b = c
          · subst hbc
            cases cs with
            | nil =>
                cases bs with
                | nil => simp [get?_cons_self_nil]
                | cons _ _ => simp [get?_cons_self_cons]
            | cons e es =>
                cases bs with
                | nil => simp [get?_cons_self_nil]
                | cons _ _ => simp [get?_cons_self_cons, ihc hchildren]
          · cases cs with
            | nil => simp [hbc, get?_cons_of_ne hbc]
            | cons _ _ => simp [hbc, get?_cons_of_ne hbc]
        · rename_i hcd
          by_cases hbd : b = d
          · subst hbd
            have hbc : b ≠ c := fun h => hcd h.symm
            cases bs with
            | nil => simp [hbc, get?_cons_self_nil]
            | cons _ _ => simp [hbc, get?_cons_self_cons]
          · rw [get?_cons_of_ne hbd, get?_cons_of_ne hbd, ihr hrest]

/-! ## Determinacy -/

/-- The first node of a canonical forest leads to a value. -/
theorem Canonical.exists_get? {c : Char} {w : Option α} {children rest : Forest α}
    (hf : (cons c w children rest).Canonical) :
    ∃ cs, ((cons c w children rest).get? c cs).isSome := by
  induction children generalizing c w rest with
  | nil =>
      rcases hf.1 with hw | hw
      · exact ⟨[], by rwa [get?_cons_self_nil]⟩
      · exact absurd rfl hw
  | cons d u grandchildren siblings ih _ =>
      obtain ⟨ds, hds⟩ := ih hf.2.1
      exact ⟨d :: ds, by rwa [get?_cons_self_cons]⟩

/-- Canonical forests that read alike are equal. -/
theorem Canonical.ext {f g : Forest α} (hf : f.Canonical) (hg : g.Canonical)
    (h : ∀ b bs, f.get? b bs = g.get? b bs) : f = g := by
  -- A first label that the other forest lacks would lead to a value that it does not hold.
  have hfirst : ∀ {c w children rest} {g : Forest α}, (cons c w children rest).Canonical →
      g.Canonical → g.Above c → (∀ b bs, (cons c w children rest).get? b bs = g.get? b bs) →
      False := by
    intro c w children rest g hf hg habove h
    obtain ⟨cs, hcs⟩ := hf.exists_get?
    rw [h, get?_eq_none_of_above hg habove] at hcs
    exact nomatch hcs
  induction f generalizing g with
  | nil =>
      cases g with
      | nil => rfl
      | cons d u kids rest =>
          exact (hfirst hg (g := .nil) trivial trivial fun b bs => (h b bs).symm).elim
  | cons c w children rest ihc ihr =>
      cases g with
      | nil => exact (hfirst hf (g := .nil) trivial trivial h).elim
      | cons d u kids more =>
          have hcd : c = d := by
            by_cases hlt : c < d
            · exact (hfirst hf hg hlt h).elim
            · by_cases hgt : d < c
              · exact (hfirst hg hf hgt fun b bs => (h b bs).symm).elim
              · exact Char.le_antisymm (Char.not_lt.mp hgt) (Char.not_lt.mp hlt)
          subst hcd
          have hw : w = u := by simpa only [get?_cons_self_nil] using h c []
          have hchildren : children = kids := ihc hf.2.1 hg.2.1 fun b bs => by
            simpa only [get?_cons_self_cons] using h c (b :: bs)
          have hrest : rest = more := ihr hf.2.2.1 hg.2.2.1 fun b bs => by
            by_cases hbc : b = c
            · subst hbc
              rw [get?_eq_none_of_above hf.2.2.1 hf.2.2.2, get?_eq_none_of_above hg.2.2.1 hg.2.2.2]
            · simpa only [get?_cons_of_ne hbc] using h b bs
          rw [hw, hchildren, hrest]

end Forest

namespace Node

variable {α : Type}

/-- A tree whose labels ascend and that has no dead branch. -/
def Canonical (n : Node α) : Prop := n.children.Canonical

/-- Labels ascend everywhere in the tree. -/
def Ordered (n : Node α) : Prop := n.children.Ordered

theorem Canonical.ordered {n : Node α} (hn : n.Canonical) : n.Ordered :=
  Forest.Canonical.ordered hn

theorem canonical_empty : (empty : Node α).Canonical := trivial

theorem get?_empty (key : String) : (empty : Node α).get? key = none := by
  unfold get?
  split <;> rfl

theorem Canonical.put {n : Node α} (hn : n.Canonical) (key : String) (v : α) :
    (n.put key v).Canonical := by
  unfold Node.put
  split
  · exact hn
  · exact Forest.Canonical.put hn v _ _

/-- Reading after writing. -/
theorem get?_put {n : Node α} (hn : n.Canonical) (key : String) (v : α) (k : String) :
    (n.put key v).get? k = if k = key then some v else n.get? k := by
  simp only [← String.toList_inj]
  unfold put get?
  cases key.toList with
  | nil => cases k.toList <;> simp
  | cons c cs =>
      cases k.toList with
      | nil => simp
      | cons b bs => simp [Forest.get?_put hn]

/-- Canonical trees that read alike are equal. -/
theorem Canonical.ext {m n : Node α} (hm : m.Canonical) (hn : n.Canonical)
    (h : ∀ key, m.get? key = n.get? key) : m = n := by
  have hvalue : m.value = n.value := by simpa [get?] using h ""
  have hchildren : m.children = n.children := Forest.Canonical.ext hm hn fun b bs => by
    simpa [get?] using h (String.ofList (b :: bs))
  cases m
  cases n
  cases hvalue
  cases hchildren
  rfl

end Node

end WorkLedger.Trie

namespace WorkLedger.Trie

/-! ## Trees with their roots -/

variable {α : Type} [ToJson α]

/-- The tree is canonical and the root is its digest. -/
structure Sound (t : Trie α) : Prop where
  canonical : t.node.Canonical
  root : t.root = digestOf t.node

theorem sound_ofNode {n : Node α} (h : n.Canonical) : (ofNode n).Sound := ⟨h, rfl⟩

theorem sound_empty : (empty : Trie α).Sound := sound_ofNode Node.canonical_empty

theorem Sound.put {t : Trie α} (h : t.Sound) (key : String) (v : α) : (t.put key v).Sound :=
  sound_ofNode (h.canonical.put key v)

theorem get?_empty (key : String) : (empty : Trie α).get? key = none := Node.get?_empty key

theorem get?_put {t : Trie α} (h : t.Sound) (key : String) (v : α) (k : String) :
    (t.put key v).get? k = if k = key then some v else t.get? k :=
  Node.get?_put h.canonical key v k

/-- Tries that hold the same are equal. -/
theorem Sound.ext {t u : Trie α} (ht : t.Sound) (hu : u.Sound)
    (h : ∀ key, t.get? key = u.get? key) : t = u := by
  have hnode : t.node = u.node := ht.canonical.ext hu.canonical h
  have hroot : t.root = u.root := by rw [ht.root, hu.root, hnode]
  cases t
  cases u
  cases hnode
  cases hroot
  rfl

/-- Puts under two keys do not care which comes first. -/
theorem Sound.put_comm {t : Trie α} (h : t.Sound) {key key' : String} (hne : key ≠ key')
    (v v' : α) : (t.put key v).put key' v' = (t.put key' v').put key v := by
  refine ((h.put key v).put key' v').ext ((h.put key' v').put key v) fun k => ?_
  rw [get?_put (h.put key v), get?_put h, get?_put (h.put key' v'), get?_put h]
  by_cases hk : k = key'
  · rw [if_pos hk, if_pos hk, if_neg fun heq => hne (heq.symm.trans hk)]
  · rw [if_neg hk, if_neg hk]

end WorkLedger.Trie
