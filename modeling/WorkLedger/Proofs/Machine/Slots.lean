/-
# Contract storage is a map from words

A slot of contract storage has a text for its key: the kind of the word that names it, a colon and
the word as it is shown.  No two words have one key, whatever numbers and texts they are: the kinds
start with different letters, a fraction shows its one stroke between digits, and a text stands in
its key as it is.  So a trie that was only ever written under such keys is a map from words to
words, and code does on the trie what it does on the map.
-/
import Mathlib.Data.List.Induction
import Std.Data.String.ToInt
import WorkLedger.Proofs.Json.Numbers
import WorkLedger.Proofs.Machine.Simulation
import WorkLedger.Proofs.Machine.Words
import WorkLedger.Proofs.Trie.Puts

namespace WorkLedger

/-! ## The key of a slot -/

theorem stroke_notMem_repr (n : Nat) : '/' ∉ n.repr.toList := by
  rw [Nat.toList_repr]
  intro hmem
  exact nomatch isDigit_of_mem_toDigits hmem

theorem stroke_notMem_toString (n : Int) : '/' ∉ (toString n).toList := by
  cases n with
  | ofNat m => exact stroke_notMem_repr m
  | negSucc m =>
      show '/' ∉ ("-" ++ m.succ.repr).toList
      rw [String.toList_append, List.mem_append, not_or]
      exact ⟨by decide, stroke_notMem_repr m.succ⟩

namespace Rational

theorem toList_text_of_ne {r : Rational} (h : r.den ≠ 1) :
    r.text.toList = (toString r.num).toList ++ '/' :: r.den.repr.toList := by
  rw [text, if_neg h, String.toList_append, String.toList_append, List.append_assoc]
  rfl

/-- Whether a number is whole can be seen from its text. -/
theorem stroke_mem_text {r : Rational} : '/' ∈ r.text.toList ↔ r.den ≠ 1 := by
  by_cases hden : r.den = 1
  · rw [text, if_pos hden]
    exact ⟨fun hmem => absurd hmem (stroke_notMem_toString r.num), fun hne => absurd hden hne⟩
  · rw [toList_text_of_ne hden]
    exact ⟨fun _ => hden, fun _ => List.mem_append_right _ List.mem_cons_self⟩

theorem text_inj {a b : Rational} (h : a.text = b.text) : a = b := by
  have hwhole : a.den = 1 ↔ b.den = 1 := by
    rw [← not_iff_not, ← ne_eq, ← ne_eq, ← stroke_mem_text, ← stroke_mem_text, h]
  by_cases ha : a.den = 1
  · have hb : b.den = 1 := hwhole.mp ha
    rw [text, text, if_pos ha, if_pos hb] at h
    exact ext (Int.repr_inj.mp h) (ha.trans hb.symm)
  · have hb : b.den ≠ 1 := fun hb => ha (hwhole.mpr hb)
    have hlists : a.text.toList = b.text.toList := congrArg String.toList h
    rw [toList_text_of_ne ha, toList_text_of_ne hb] at hlists
    obtain ⟨hnum, -, hden⟩ := (List.append_cons_inj_of_notMem (stroke_notMem_toString a.num)
      (stroke_notMem_repr a.den)).mp hlists
    exact ext (Int.repr_inj.mp (String.toList_inj.mp hnum))
      (Nat.repr_inj.mp (String.toList_inj.mp hden))

end Rational

/-- The kinds of words start with different letters. -/
theorem Word.storageKey_number_ne_text (r : Rational) (s : String) :
    (number r).storageKey ≠ (text s).storageKey := by
  intro h
  have hhead : (number r).storageKey.toList.head? = (text s).storageKey.toList.head? :=
    congrArg (fun key => key.toList.head?) h
  simp [storageKey, kind] at hhead

/-- The key tells the word. -/
theorem Word.storageKey_inj {v w : Word} : v.storageKey = w.storageKey ↔ v = w := by
  constructor
  · intro h
    cases v with
    | number a =>
        cases w with
        | number b =>
            have htext : a.text = b.text := (String.append_right_inj "number:").mp h
            rw [Rational.text_inj htext]
        | text s => exact (storageKey_number_ne_text a s h).elim
    | text s =>
        cases w with
        | number b => exact (storageKey_number_ne_text b s h.symm).elim
        | text t =>
            have htext : s = t := (String.append_right_inj "text:").mp h
            rw [htext]
  · rintro rfl
    rfl

/-! ## Maps from words -/

/-- A map from words to words. -/
structure WordMap where
  /-- The word stored under a word. -/
  get? : Word → Option Word

namespace WordMap

instance : Storage WordMap :=
  ⟨fun m key => m.get? key, fun m key value => ⟨fun w => if w = key then some value else m.get? w⟩⟩

/-- The map after words were stored under words, one after another. -/
def ofWrites (writes : List (Word × Word)) : WordMap :=
  writes.foldl (fun m e => Storage.store m e.1 e.2) ⟨fun _ => none⟩

theorem ofWrites_append_singleton (writes : List (Word × Word)) (key value : Word) :
    ofWrites (writes ++ [(key, value)]) = Storage.store (ofWrites writes) key value := by
  rw [ofWrites, List.foldl_append]
  rfl

end WordMap

/-- The trie after words were stored under the keys of words, one after another. -/
def Trie.ofWrites (writes : List (Word × Word)) : Trie Word :=
  ofPuts (writes.map fun e => (e.1.storageKey, e.2))

theorem Trie.ofWrites_append_singleton (writes : List (Word × Word)) (key value : Word) :
    ofWrites (writes ++ [(key, value)]) = (ofWrites writes).put key.storageKey value := by
  rw [ofWrites, List.map_append, ofPuts, putEach, List.foldl_append]
  rfl

/-- A trie holds what the map holds, each word under the key of the word that names its slot, and
holds nothing else. -/
def Trie.Corresponds (t : Trie Word) (m : WordMap) : Prop :=
  ∀ key v, t.get? key = some v ↔ ∃ w, key = w.storageKey ∧ m.get? w = some v

namespace Trie

theorem Corresponds.put {t : Trie Word} {m : WordMap} (h : t.Corresponds m) (ht : t.Sound)
    (key value : Word) :
    (t.put key.storageKey value).Corresponds (Storage.store m key value) := by
  intro k v
  rw [get?_put ht]
  constructor
  · intro hget
    split at hget
    · rename_i hk
      exact ⟨key, hk, (if_pos rfl).trans hget⟩
    · rename_i hk
      obtain ⟨w, rfl, hw⟩ := (h k v).mp hget
      have hne : w ≠ key := fun heq => hk (congrArg Word.storageKey heq)
      exact ⟨w, rfl, (if_neg hne).trans hw⟩
  · rintro ⟨w, rfl, hw⟩
    by_cases heq : w = key
    · have hvalue : some value = some v := (if_pos heq).symm.trans hw
      rw [if_pos (congrArg Word.storageKey heq), hvalue]
    · have hold : m.get? w = some v := (if_neg heq).symm.trans hw
      rw [if_neg (fun hk => heq (Word.storageKey_inj.mp hk))]
      exact (h _ v).mpr ⟨w, rfl, hold⟩

theorem Corresponds.get?_storageKey {t : Trie Word} {m : WordMap} (h : t.Corresponds m)
    (w : Word) : t.get? w.storageKey = m.get? w := by
  refine Option.ext ?_
  intro v
  rw [h]
  constructor
  · rintro ⟨w', hkey, hw⟩
    rwa [Word.storageKey_inj.mp hkey]
  · intro hw
    exact ⟨w, rfl, hw⟩

theorem sound_ofWrites (writes : List (Word × Word)) : (ofWrites writes).Sound := sound_ofPuts _

theorem corresponds_ofWrites (writes : List (Word × Word)) :
    (ofWrites writes).Corresponds (WordMap.ofWrites writes) := by
  induction writes using List.reverseRecOn with
  | nil =>
      intro key v
      rw [ofWrites, List.map_nil, get?_ofPuts]
      exact ⟨nofun, fun ⟨_, _, hv⟩ => nomatch hv⟩
  | append_singleton writes e ih =>
      rw [ofWrites_append_singleton, WordMap.ofWrites_append_singleton]
      exact ih.put (sound_ofWrites writes) e.1 e.2

theorem Sound.ofNode_node {t : Trie Word} (h : t.Sound) : ofNode t.node = t := by
  rw [ofNode, ← h.root]

end Trie

/-! ## Code on the trie and on the map -/

/-- The tree and the map after the same writes: those in `writes` and those that code made. -/
def SameWrites (writes : List (Word × Word)) (n : Trie.Node Word) (m : WordMap) : Prop :=
  ∃ stored, n = (Trie.ofWrites (writes ++ stored)).node ∧ m = .ofWrites (writes ++ stored)

theorem simulation_sameWrites (writes : List (Word × Word)) :
    Simulation (SameWrites writes) := by
  refine ⟨?load, ?store⟩
  case load =>
    rintro _ _ ⟨stored, rfl, rfl⟩ key
    exact (Trie.corresponds_ofWrites (writes ++ stored)).get?_storageKey key
  case store =>
    rintro _ _ ⟨stored, rfl, rfl⟩ key value
    refine ⟨stored ++ [(key, value)], ?_, ?_⟩
    · rw [← List.append_assoc, Trie.ofWrites_append_singleton]
      rfl
    · rw [← List.append_assoc, WordMap.ofWrites_append_singleton]

/-- On a trie that was only written under the keys of words, code does what it does on the map of
the same writes: it comes to the same result, gas or fault, and what it leaves corresponds, both
being the old content with the same further writes.  Two words never share a slot, so a word stored
under one leaves what is read under every other. -/
theorem runOnTrie_eq_on_words (code : List Word) (writes : List (Word × Word)) :
    (runOnTrie code (.ofWrites writes)).1 = (runCode code (WordMap.ofWrites writes)).1 ∧
    (Trie.ofWrites writes).Corresponds (.ofWrites writes) ∧
    (runOnTrie code (.ofWrites writes)).2.Corresponds (runCode code (WordMap.ofWrites writes)).2 ∧
    (∃ stored, (runOnTrie code (.ofWrites writes)).2 = .ofWrites (writes ++ stored) ∧
      (runCode code (WordMap.ofWrites writes)).2 = .ofWrites (writes ++ stored)) ∧
    (∀ v w : Word, v.storageKey = w.storageKey ↔ v = w) ∧
    (∀ key value w : Word,
      Storage.load (Storage.store (Trie.ofWrites writes).node key value) w =
        if w = key then some value else Storage.load (Trie.ofWrites writes).node w) := by
  have hsame : SameWrites writes (Trie.ofWrites writes).node (.ofWrites writes) :=
    ⟨[], by rw [List.append_nil], by rw [List.append_nil]⟩
  obtain ⟨hresult, stored, hnode, hmap⟩ := (simulation_sameWrites writes).runCode code hsame
  have htrie : (runOnTrie code (.ofWrites writes)).2 = .ofWrites (writes ++ stored) := by
    show Trie.ofNode (runCode code (Trie.ofWrites writes).node).2 = _
    rw [hnode, (Trie.sound_ofWrites _).ofNode_node]
  refine ⟨hresult, Trie.corresponds_ofWrites writes, ?_, ⟨stored, htrie, hmap⟩, ?_, ?slots⟩
  · rw [htrie, hmap]
    exact Trie.corresponds_ofWrites _
  · intro v w
    exact Word.storageKey_inj
  case slots =>
    intro key value w
    have hstored := (Trie.corresponds_ofWrites writes).put (Trie.sound_ofWrites writes) key value
    have hold := (Trie.corresponds_ofWrites writes).get?_storageKey w
    show ((Trie.ofWrites writes).put key.storageKey value).get? w.storageKey =
      if w = key then some value else (Trie.ofWrites writes).get? w.storageKey
    rw [hstored.get?_storageKey, hold]
    rfl

end WorkLedger
