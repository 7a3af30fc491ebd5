/-
# The root tells the tree

The normal form of a tree shows it label by label, as long as its labels already stand in the
order of a map.  So the text of such a tree tells the tree; and where no two texts collide, equal
roots come from equal trees, and the root commits to everything that the trie holds.
-/
import WorkLedger.Proofs.Json.Faithful
import WorkLedger.Proofs.Trie.Map

namespace WorkLedger.Trie

variable {α : Type} [ToJson α]

/-! ## The form of a forest -/

theorem singleton_lt {c d : Char} : String.singleton c < String.singleton d ↔ c < d := by
  rw [String.lt_iff, String.toList_singleton, String.toList_singleton, List.cons_lt_cons_iff]
  simp

theorem singleton_inj {c d : Char} (h : String.singleton c = String.singleton d) : c = d := by
  have := congrArg String.toList h
  simpa using this

/-- The form of a node with its value and its children. -/
def nodeJson (w : Option α) (children : Forest α) : Json :=
  .obj [("value", Json.ofOption toJson w), ("childMap", .obj children.members)]

namespace Forest

/-- The members of an ordered forest stay in their order. -/
theorem normalizeMembers_cons {c : Char} {w : Option α} {children rest : Forest α}
    (h : (cons c w children rest).Ordered) :
    Json.normalizeMembers (cons c w children rest).members =
      (String.singleton c, (nodeJson w children).normalize) ::
        Json.normalizeMembers rest.members := by
  induction rest generalizing c w children with
  | nil => rfl
  | cons d u kids more _ ih =>
      have hlt : String.singleton c < String.singleton d := singleton_lt.mpr h.2.2
      have hrest := ih h.2.1
      show Json.insertMember _ _ (Json.normalizeMembers (cons d u kids more).members) = _
      rw [hrest]
      exact if_pos hlt

theorem normalize_nodeJson_inj {w u : Option α} {children kids : Forest α}
    (h : (nodeJson w children).normalize = (nodeJson u kids).normalize) :
    (Json.ofOption toJson w).normalize = (Json.ofOption toJson u).normalize ∧
      Json.normalizeMembers children.members = Json.normalizeMembers kids.members := by
  have hfield := Json.lookup_eq_of_normalize_eq h (by simp) (by simp)
  have hvalue := hfield "value"
  have hchildren := hfield "childMap"
  simp only [List.lookup_cons, beq_self_eq_true, Option.map_some, Option.some.injEq] at hvalue
  simp [List.lookup_cons, Json.normalize] at hchildren
  exact ⟨hvalue, hchildren⟩

/-- The normal form of an ordered forest tells the forest. -/
theorem Ordered.normalizeMembers_inj (hα : Faithful α) {f g : Forest α} (hf : f.Ordered)
    (hg : g.Ordered)
    (h : Json.normalizeMembers f.members = Json.normalizeMembers g.members) : f = g := by
  induction f generalizing g with
  | nil =>
      cases g with
      | nil => rfl
      | cons d u kids more =>
          rw [normalizeMembers_cons hg] at h
          exact nomatch h
  | cons c w children rest ihc ihr =>
      cases g with
      | nil =>
          rw [normalizeMembers_cons hf] at h
          exact nomatch h
      | cons d u kids more =>
          rw [normalizeMembers_cons hf, normalizeMembers_cons hg] at h
          obtain ⟨hfirst, hmore⟩ := List.cons.inj h
          obtain ⟨hlabel, hnode⟩ := Prod.mk.inj hfirst
          obtain ⟨hvalue, hchildren⟩ := normalize_nodeJson_inj hnode
          rw [singleton_inj hlabel, hα.ofOption_inj hvalue, ihc hf.1 hg.1 hchildren,
            ihr hf.2.1 hg.2.1 hmore]

end Forest

/-! ## The form of a tree -/

namespace Node

/-- The normal form of an ordered tree tells the tree. -/
theorem Ordered.normalize_inj (hα : Faithful α) {m n : Node α} (hm : m.Ordered)
    (hn : n.Ordered) (h : (toJson m).normalize = (toJson n).normalize) : m = n := by
  obtain ⟨hvalue, hchildren⟩ := Forest.normalize_nodeJson_inj (w := m.value) (u := n.value) h
  have hv : m.value = n.value := hα.ofOption_inj hvalue
  have hc : m.children = n.children := Forest.Ordered.normalizeMembers_inj hα hm hn hchildren
  cases m
  cases n
  cases hv
  cases hc
  rfl

end Node

/-- Tries of equal roots are equal, unless their texts collide. -/
theorem Sound.eq_of_root_eq (hα : Faithful α) {t u : Trie α} {texts : List String} (ht : t.Sound)
    (hu : u.Sound) (hfree : CollisionFree texts) (htext : textOf t.node ∈ texts)
    (hutext : textOf u.node ∈ texts) (hroot : t.root = u.root) : t = u := by
  rw [ht.root, hu.root] at hroot
  have hnormal := hfree.normalize_eq htext hutext hroot
  have hnode : t.node = u.node := ht.canonical.ordered.normalize_inj hα hu.canonical.ordered hnormal
  exact ht.ext hu fun key => congrArg (Node.get? · key) hnode

end WorkLedger.Trie
