/-
# Tries after puts

A trie is filled by putting one value after another, and the last value put under a key is the one
it holds.  Nothing else of the puts is left in it: neither their order, nor the values that were
replaced.  Puts that end in the same map lead to the same tree and to the same root, and where the
texts of two trees do not collide the root tells the map.
-/
import WorkLedger.Proofs.Json.Records
import WorkLedger.Proofs.Trie.Commitment

namespace WorkLedger.Trie

variable {α : Type}

/-! ## The last put -/

/-- The value of the last put under a key. -/
def lastPut? (puts : List (String × α)) (key : String) : Option α :=
  (puts.filter (·.1 = key)).getLast?.map (·.2)

section LastPut

variable {puts : List (String × α)} {key : String} {v : α}

theorem lastPut?_append (puts more : List (String × α)) (key : String) :
    lastPut? (puts ++ more) key = (lastPut? more key).or (lastPut? puts key) := by
  simp only [lastPut?, List.filter_append, List.getLast?_append]
  cases (more.filter (·.1 = key)).getLast? with
  | none => rfl
  | some e => rfl

theorem lastPut?_singleton (k : String) (v : α) (key : String) :
    lastPut? [(k, v)] key = if key = k then some v else none := by
  by_cases h : key = k
  · simp [lastPut?, h]
  · simp [lastPut?, h, Ne.symm h]

theorem lastPut?_cons (k : String) (v : α) (puts : List (String × α)) (key : String) :
    lastPut? ((k, v) :: puts) key =
      (lastPut? puts key).or (if key = k then some v else none) := by
  rw [← List.singleton_append, lastPut?_append, lastPut?_singleton]

/-- Without a value the key was never put. -/
theorem lastPut?_eq_none : lastPut? puts key = none ↔ key ∉ puts.map Prod.fst := by
  induction puts with
  | nil => exact ⟨fun _ => List.not_mem_nil, fun _ => rfl⟩
  | cons e puts ih =>
      rw [lastPut?_cons, Option.or_eq_none_iff, ih, List.map_cons, List.mem_cons, not_or, and_comm]
      by_cases h : key = e.1
      · simp [h]
      · simp [h]

/-- A value is that of a put with no later one under the same key. -/
theorem lastPut?_eq_some : lastPut? puts key = some v ↔
    ∃ before after, puts = before ++ (key, v) :: after ∧ key ∉ after.map Prod.fst := by
  constructor
  · intro h
    induction puts with
    | nil => exact nomatch h
    | cons e puts ih =>
        rw [lastPut?_cons] at h
        cases hlater : lastPut? puts key with
        | some w =>
            rw [hlater, Option.some_or] at h
            obtain ⟨before, after, rfl, hafter⟩ := ih (hlater.trans h)
            exact ⟨e :: before, after, rfl, hafter⟩
        | none =>
            rw [hlater, Option.none_or] at h
            split at h
            · rename_i hkey
              subst hkey
              cases h
              exact ⟨[], puts, rfl, lastPut?_eq_none.mp hlater⟩
            · exact nomatch h
  · rintro ⟨before, after, rfl, hafter⟩
    rw [lastPut?_append, lastPut?_cons, lastPut?_eq_none.mpr hafter, if_pos rfl]
    rfl

theorem mem_of_lastPut? (h : lastPut? puts key = some v) : (key, v) ∈ puts := by
  obtain ⟨before, after, rfl, -⟩ := lastPut?_eq_some.mp h
  exact List.mem_append_cons_self

end LastPut

/-! ## Filling a trie -/

variable [ToJson α]

/-- The trie after further puts. -/
def putEach (t : Trie α) (puts : List (String × α)) : Trie α :=
  puts.foldl (fun t e => t.put e.1 e.2) t

/-- The trie after puts on an empty one. -/
def ofPuts (puts : List (String × α)) : Trie α := empty.putEach puts

theorem Sound.putEach {t : Trie α} (h : t.Sound) (puts : List (String × α)) :
    (t.putEach puts).Sound := by
  induction puts generalizing t with
  | nil => exact h
  | cons e puts ih => exact ih (h.put e.1 e.2)

/-- What is read was put last, or was there before all puts. -/
theorem get?_putEach {t : Trie α} (h : t.Sound) (puts : List (String × α)) (key : String) :
    (t.putEach puts).get? key = (lastPut? puts key).or (t.get? key) := by
  induction puts generalizing t with
  | nil => rfl
  | cons e puts ih =>
      show ((t.put e.1 e.2).putEach puts).get? key = _
      rw [ih (h.put e.1 e.2), get?_put h, lastPut?_cons, Option.or_assoc]
      by_cases hkey : key = e.1
      · rw [if_pos hkey, if_pos hkey, Option.some_or]
      · rw [if_neg hkey, if_neg hkey, Option.none_or]

theorem sound_ofPuts (puts : List (String × α)) : (ofPuts puts).Sound := sound_empty.putEach puts

theorem get?_ofPuts (puts : List (String × α)) (key : String) :
    (ofPuts puts).get? key = lastPut? puts key := by
  rw [ofPuts, get?_putEach sound_empty, get?_empty, Option.or_none]

/-- Puts lead to the same trie exactly if they end in the same map. -/
theorem ofPuts_eq_iff {puts others : List (String × α)} :
    ofPuts puts = ofPuts others ↔ ∀ key, lastPut? puts key = lastPut? others key := by
  constructor
  · intro h key
    rw [← get?_ofPuts, ← get?_ofPuts, h]
  · intro h
    refine (sound_ofPuts puts).ext (sound_ofPuts others) ?_
    intro key
    rw [get?_ofPuts, get?_ofPuts, h]

/-- Whatever was put under whatever keys: the trie holds the value last put under each key and
nothing else, and its root is the digest of its tree.  Puts that end in the same map lead to the
same tree and so to the same root; and puts that lead to the same root end in the same map, unless
the texts of the two trees collide. -/
theorem ofPuts_authenticates (puts others : List (String × α)) :
    (∀ key v, (ofPuts puts).get? key = some v ↔
      ∃ before after, puts = before ++ (key, v) :: after ∧ key ∉ after.map Prod.fst) ∧
    (∀ key, (ofPuts puts).get? key = none ↔ key ∉ puts.map Prod.fst) ∧
    (ofPuts puts).root = digestOf (ofPuts puts).node ∧
    ((∀ key, lastPut? puts key = lastPut? others key) →
      (ofPuts puts).node = (ofPuts others).node ∧ (ofPuts puts).root = (ofPuts others).root) ∧
    (Faithful α → CollisionFree [textOf (ofPuts puts).node, textOf (ofPuts others).node] →
      (ofPuts puts).root = (ofPuts others).root →
        ∀ key, lastPut? puts key = lastPut? others key) := by
  have ht : (ofPuts puts).Sound := sound_ofPuts puts
  have hu : (ofPuts others).Sound := sound_ofPuts others
  refine ⟨?held, ?absent, ht.root, ?same, ?told⟩
  case held =>
    intro key v
    rw [get?_ofPuts, lastPut?_eq_some]
  case absent =>
    intro key
    rw [get?_ofPuts, lastPut?_eq_none]
  case same =>
    intro h
    rw [ofPuts_eq_iff.mpr h]
    exact ⟨rfl, rfl⟩
  case told =>
    intro hα hfree hroot
    have heq : ofPuts puts = ofPuts others :=
      ht.eq_of_root_eq hα hu hfree (by simp) (by simp) hroot
    exact ofPuts_eq_iff.mp heq

/-- The empty key, a key with a prefix of it, a key outside of ASCII, and one that is put twice. -/
def scattered : List (String × UInt64) := [("", 1), ("ab", 5), ("abc", 3), ("é", 4), ("ab", 2)]

/-- The same map from other puts. -/
def gathered : List (String × UInt64) := [("é", 4), ("abc", 3), ("ab", 2), ("", 1)]

theorem lastPut?_scattered (key : String) : lastPut? scattered key = lastPut? gathered key := by
  simp only [scattered, gathered, lastPut?_cons]
  by_cases h : key = "ab"
  · subst h
    rfl
  · simp only [if_neg h]
    by_cases h1 : key = ""
    · subst h1
      rfl
    · simp only [if_neg h1, Option.or_none]
      by_cases h3 : key = "abc"
      · subst h3
        rfl
      · simp only [if_neg h3, Option.or_none]

theorem ofPuts_scattered : Faithful UInt64 ∧
    CollisionFree [textOf (ofPuts scattered).node, textOf (ofPuts gathered).node] ∧
    (ofPuts scattered).root = (ofPuts gathered).root ∧
    (ofPuts scattered).get? "ab" = some 2 ∧ (ofPuts scattered).get? "a" = none ∧
    lastPut? gathered "ab" = some 2 := by
  obtain ⟨hheld, habsent, -, hsame, htold⟩ := ofPuts_authenticates scattered gathered
  obtain ⟨hnode, hroot⟩ := hsame lastPut?_scattered
  have hfree : CollisionFree [textOf (ofPuts scattered).node, textOf (ofPuts gathered).node] := by
    rw [hnode]
    simp [CollisionFree]
  have hlast : (ofPuts scattered).get? "ab" = some 2 :=
    (hheld "ab" 2).mpr ⟨[("", 1), ("ab", 5), ("abc", 3), ("é", 4)], [], rfl, List.not_mem_nil⟩
  refine ⟨faithful_uint64, hfree, hroot, hlast, (habsent "a").mpr (by decide), ?_⟩
  rw [← htold faithful_uint64 hfree hroot, ← get?_ofPuts, hlast]

end WorkLedger.Trie
