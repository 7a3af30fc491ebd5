/-
# The pool as a list

A pool keeps its transactions in two places, by identifier and in the order of arrival.  A
pool that is `Indexed` has the same in both, every transaction under its own identifier.  Seen
as a list such a pool holds each identifier once; adding puts a transaction at the end of the
list, clearing a series takes out the identifiers of the series and leaves the rest in order.
-/
import Mathlib.Data.List.Basic
import Std.Data.HashMap.Lemmas
import WorkLedger.Pool

namespace WorkLedger.Pool

/-- The order lists the identifiers of the transactions, each once, and every transaction is
found under its own. -/
structure Indexed (p : Pool) : Prop where
  nodup : p.order.Nodup
  mem_order : ∀ id, id ∈ p.order ↔ (p.transactions[id]?).isSome = true
  id_eq : ∀ (id : String) (t : Transaction), p.transactions[id]? = some t → t.id = id

variable {p : Pool} {t : Transaction} {id : String}

theorem indexed_empty : empty.Indexed where
  nodup := List.nodup_nil
  mem_order := by simp [empty]
  id_eq := by simp [empty]

/-! ## Looking -/

theorem contains_eq (p : Pool) (id : String) : p.contains id = (p.transactions[id]?).isSome :=
  Std.HashMap.contains_eq_isSome_getElem?

theorem Indexed.contains_iff_mem_order (h : p.Indexed) (id : String) :
    p.contains id = true ↔ id ∈ p.order := by
  rw [contains_eq, h.mem_order]

/-- The identifiers of the list are the order of arrival. -/
theorem Indexed.ids_toList (h : p.Indexed) : p.toList.map (·.id) = p.order := by
  have hself : ∀ id ∈ p.order, (p.transactions[id]?).map (·.id) = some id := by
    intro id hid
    obtain ⟨t, ht⟩ := Option.isSome_iff_exists.mp ((h.mem_order id).mp hid)
    rw [ht, Option.map_some, h.id_eq id t ht]
  rw [toList, List.map_filterMap, List.filterMap_congr hself, List.filterMap_some]

theorem Indexed.nodup_ids (h : p.Indexed) : (p.toList.map (·.id)).Nodup := by
  rw [h.ids_toList]
  exact h.nodup

theorem Indexed.contains_iff (h : p.Indexed) (id : String) :
    p.contains id = true ↔ id ∈ p.toList.map (·.id) := by
  rw [h.ids_toList, h.contains_iff_mem_order]

/-- The order and the keys of the map are the same identifiers, none of them twice. -/
theorem Indexed.size_eq (h : p.Indexed) : p.size = p.toList.length := by
  have hperm : p.transactions.keys.Perm p.order := by
    refine (List.perm_ext_iff_of_nodup Std.HashMap.nodup_keys h.nodup).mpr fun id => ?_
    rw [Std.HashMap.mem_keys, Std.HashMap.mem_iff_contains]
    exact h.contains_iff_mem_order id
  have hlength : p.toList.length = p.order.length := by
    rw [← h.ids_toList, List.length_map]
  rw [size, ← Std.HashMap.length_keys, hperm.length_eq, hlength]

/-! ## Adding -/

theorem add_of_not_contains (h : p.contains t.id = false) :
    p.add t = (true, ⟨p.transactions.insert t.id t, p.order ++ [t.id]⟩) := by
  rw [add, if_neg (by rw [h]; exact nofun)]

theorem add_of_contains (h : p.contains t.id = true) : p.add t = (false, p) := if_pos h

theorem getElem?_add (h : p.contains t.id = false) (id : String) :
    (p.add t).2.transactions[id]? = if id = t.id then some t else p.transactions[id]? := by
  rw [add_of_not_contains h, Std.HashMap.getElem?_insert]
  simp only [beq_iff_eq, eq_comm (a := t.id)]

theorem Indexed.add (h : p.Indexed) (t : Transaction) : (p.add t).2.Indexed := by
  cases hcontains : p.contains t.id with
  | true =>
      rw [add_of_contains hcontains]
      exact h
  | false =>
      have hnew : t.id ∉ p.order := by
        rw [h.mem_order, ← contains_eq, hcontains]
        exact nofun
      have horder : (p.add t).2.order = p.order ++ [t.id] := by
        rw [add_of_not_contains hcontains]
      constructor
      case nodup =>
        rw [horder]
        refine List.nodup_append.mpr ⟨h.nodup, List.pairwise_singleton _ _, ?_⟩
        rintro id hid _ hmem rfl
        exact hnew (List.mem_singleton.mp hmem ▸ hid)
      case mem_order =>
        intro id
        rw [horder, getElem?_add hcontains, List.mem_append, List.mem_singleton, h.mem_order]
        split
        · rename_i heq
          simp [heq]
        · rename_i hne
          simp [hne]
      case id_eq =>
        intro id u hget
        rw [getElem?_add hcontains] at hget
        split at hget
        · rename_i heq
          cases hget
          exact heq.symm
        · exact h.id_eq id u hget

/-- What is new goes to the end. -/
theorem Indexed.toList_add (h : p.Indexed) (hcontains : p.contains t.id = false) :
    (p.add t).2.toList = p.toList ++ [t] := by
  have hnew : ∀ id ∈ p.order, (p.add t).2.transactions[id]? = p.transactions[id]? := by
    intro id hid
    refine (getElem?_add hcontains id).trans (if_neg ?_)
    rintro rfl
    rw [h.mem_order, ← contains_eq, hcontains] at hid
    exact nomatch hid
  have hlast : (p.add t).2.transactions[t.id]? = some t :=
    (getElem?_add hcontains t.id).trans (if_pos rfl)
  have horder : (p.add t).2.order = p.order ++ [t.id] := by
    rw [add_of_not_contains hcontains]
  rw [toList, horder, List.filterMap_append, List.filterMap_congr hnew]
  simp [hlast, toList]

/-! ## Clearing -/

theorem getElem?_removeAll (series : List Transaction) (m : Std.HashMap String Transaction)
    (id : String) :
    (removeAll series m).1[id]? = if id ∈ series.map (·.id) then none else m[id]? := by
  induction series generalizing m with
  | nil => rfl
  | cons t rest ih =>
      rw [removeAll]
      split
      · rw [ih, Std.HashMap.getElem?_erase, List.map_cons]
        by_cases hid : id = t.id
        · simp [hid]
        · simp [hid, Ne.symm hid]
      · rename_i habsent
        rw [ih, List.map_cons]
        by_cases hid : id = t.id
        · rw [hid, if_pos List.mem_cons_self,
            Std.HashMap.getElem?_eq_none_of_contains_eq_false (Bool.eq_false_iff.mpr habsent),
            ite_self]
        · simp [hid]

/-- What removes nothing leaves the map. -/
theorem removeAll_of_eq_zero {series : List Transaction} {m : Std.HashMap String Transaction}
    (h : (removeAll series m).2 = 0) : (removeAll series m).1 = m := by
  induction series with
  | nil => rfl
  | cons t rest ih =>
      rw [removeAll] at h ⊢
      split at h
      · exact nomatch h
      · rename_i habsent
        rw [if_neg habsent]
        exact ih h

theorem removeAll_append (xs ys : List Transaction) (m : Std.HashMap String Transaction) :
    removeAll (xs ++ ys) m = ((removeAll ys (removeAll xs m).1).1,
      (removeAll xs m).2 + (removeAll ys (removeAll xs m).1).2) := by
  induction xs generalizing m with
  | nil => simp [removeAll]
  | cons t rest ih =>
      rw [List.cons_append, removeAll, removeAll]
      split
      · rw [ih]
        simp only [Nat.add_right_comm]
      · exact ih m

theorem clear_eq (p : Pool) (series : List Transaction) :
    p.clear series = ⟨(removeAll series p.transactions).1,
      if 0 < (removeAll series p.transactions).2 then
        p.order.filter fun id => (removeAll series p.transactions).1.contains id
      else p.order⟩ := rfl

theorem clear_of_eq_zero {series : List Transaction}
    (h : (removeAll series p.transactions).2 = 0) : p.clear series = p := by
  rw [clear_eq, if_neg (Nat.not_lt.mpr (Nat.le_of_eq h)), removeAll_of_eq_zero h]

theorem clear_of_pos {series : List Transaction} (h : 0 < (removeAll series p.transactions).2) :
    p.clear series = ⟨(removeAll series p.transactions).1,
      p.order.filter fun id => (removeAll series p.transactions).1.contains id⟩ := by
  rw [clear_eq, if_pos h]

theorem transactions_clear (p : Pool) (series : List Transaction) :
    (p.clear series).transactions = (removeAll series p.transactions).1 := rfl

theorem getElem?_clear (p : Pool) (series : List Transaction) (id : String) :
    (p.clear series).transactions[id]? =
      if id ∈ series.map (·.id) then none else p.transactions[id]? := by
  rw [transactions_clear, getElem?_removeAll]

/-- Where nothing was removed, nothing in the order has to go. -/
theorem Indexed.order_clear (h : p.Indexed) (series : List Transaction) :
    (p.clear series).order =
      p.order.filter fun id => ((p.clear series).transactions[id]?).isSome := by
  rcases Nat.eq_zero_or_pos (removeAll series p.transactions).2 with hzero | hpos
  · rw [clear_of_eq_zero hzero]
    exact (List.filter_eq_self.mpr fun id hid => (h.mem_order id).mp hid).symm
  · rw [clear_of_pos hpos]
    exact List.filter_congr fun id _ => Std.HashMap.contains_eq_isSome_getElem?

theorem Indexed.clear (h : p.Indexed) (series : List Transaction) :
    (p.clear series).Indexed where
  nodup := by
    rw [h.order_clear]
    exact h.nodup.filter _
  mem_order := by
    intro id
    rw [h.order_clear, List.mem_filter, h.mem_order, getElem?_clear]
    split
    · simp
    · simp
  id_eq := by
    intro id t hget
    rw [getElem?_clear] at hget
    split at hget
    · exact nomatch hget
    · exact h.id_eq id t hget

/-- The identifiers of the series go, the others stay where they are. -/
theorem Indexed.toList_clear (h : p.Indexed) (series : List Transaction) :
    (p.clear series).toList = p.toList.filter fun t => t.id ∉ series.map (·.id) := by
  unfold toList
  rw [h.order_clear, List.filterMap_filter, List.filter_filterMap]
  refine List.filterMap_congr fun id hid => ?_
  obtain ⟨t, ht⟩ := Option.isSome_iff_exists.mp ((h.mem_order id).mp hid)
  rw [getElem?_clear, ht, Option.filter_some, h.id_eq id t ht]
  by_cases hmem : id ∈ series.map (·.id)
  · rw [if_pos hmem]
    refine (if_neg ?_).symm
    rw [decide_eq_true_iff]
    exact not_not_intro hmem
  · rw [if_neg hmem]
    exact (if_pos (decide_eq_true hmem)).symm

theorem Indexed.mem_toList_clear (h : p.Indexed) {series : List Transaction} :
    t ∈ (p.clear series).toList ↔ t ∈ p.toList ∧ t.id ∉ series.map (·.id) := by
  rw [h.toList_clear, List.mem_filter, decide_eq_true_iff]

theorem contains_clear_of_mem (p : Pool) {series : List Transaction} (ht : t ∈ series) :
    (p.clear series).contains t.id = false := by
  rw [contains_eq, getElem?_clear, if_pos (List.mem_map_of_mem ht)]
  rfl

/-- When all the first transactions are cleared, only later ones are left. -/
theorem Indexed.sublist_clear (h : p.Indexed) {first later series : List Transaction}
    (hlist : p.toList.Sublist (first ++ later)) (hfirst : ∀ t ∈ first, t ∈ series) :
    (p.clear series).toList.Sublist later := by
  have hgone : first.filter (fun t => t.id ∉ series.map (·.id)) = [] := by
    refine List.filter_eq_nil_iff.mpr fun t ht => ?_
    rw [decide_eq_true_iff]
    exact not_not_intro (List.mem_map_of_mem (hfirst t ht))
  have hleft := hlist.filter fun t => t.id ∉ series.map (·.id)
  rw [List.filter_append, hgone, List.nil_append, ← h.toList_clear] at hleft
  exact hleft.trans List.filter_sublist

/-- Clearing one series after another is clearing both at once. -/
theorem clear_clear (p : Pool) (xs ys : List Transaction) :
    (p.clear xs).clear ys = p.clear (xs ++ ys) := by
  have happend := removeAll_append xs ys p.transactions
  rcases Nat.eq_zero_or_pos (removeAll xs p.transactions).2 with hxs | hxs
  · rw [clear_of_eq_zero hxs]
    rw [clear_eq, clear_eq, happend, removeAll_of_eq_zero hxs, hxs, Nat.zero_add]
  · have hboth : 0 < (removeAll (xs ++ ys) p.transactions).2 := by
      rw [happend]
      exact Nat.lt_of_lt_of_le hxs (Nat.le_add_right _ _)
    rw [clear_of_pos hboth, happend]
    rcases Nat.eq_zero_or_pos (removeAll ys (p.clear xs).transactions).2 with hys | hys
    · have hsame : (removeAll ys (removeAll xs p.transactions).1).1 = (removeAll xs p.transactions).1 :=
        removeAll_of_eq_zero hys
      rw [clear_of_eq_zero hys, clear_of_pos hxs, hsame]
    · rw [clear_of_pos hys, clear_of_pos hxs]
      simp only [mk.injEq, true_and, List.filter_filter]
      refine List.filter_congr fun id _ => ?_
      simp only [Std.HashMap.contains_eq_isSome_getElem?, getElem?_removeAll]
      split
      · rfl
      · rw [Bool.and_self]

/-! ## Calls -/

/-- A call that changes a pool. -/
inductive Call where
  | add (t : Transaction)
  | clear (series : List Transaction)

/-- The pool after a call. -/
def after (p : Pool) : Call → Pool
  | .add t => (p.add t).2
  | .clear series => p.clear series

/-- The pool after a sequence of calls on an empty one. -/
def afterAll (calls : List Call) : Pool := calls.foldl after empty

theorem Indexed.after (h : p.Indexed) (call : Call) : (p.after call).Indexed := by
  cases call with
  | add t => exact h.add t
  | clear series => exact h.clear series

/-- Whatever is called, the two places of a pool agree. -/
theorem indexed_afterAll (calls : List Call) : (afterAll calls).Indexed :=
  List.foldlRecOn calls Pool.after indexed_empty fun _ h call _ => h.after call

/-- What a call makes of a list of pending transactions. -/
def listAfter (l : List Transaction) : Call → List Transaction
  | .add t => if t.id ∈ l.map (·.id) then l else l ++ [t]
  | .clear series => l.filter fun t => t.id ∉ series.map (·.id)

theorem Indexed.toList_after (h : p.Indexed) (call : Call) :
    (p.after call).toList = listAfter p.toList call := by
  cases call with
  | clear series => exact h.toList_clear series
  | add t =>
      show (p.add t).2.toList = if t.id ∈ p.toList.map (·.id) then p.toList else p.toList ++ [t]
      cases hcontains : p.contains t.id with
      | true => rw [add_of_contains hcontains, if_pos ((h.contains_iff t.id).mp hcontains)]
      | false =>
          have hnew : t.id ∉ p.toList.map (·.id) := by
            rw [← h.contains_iff, hcontains]
            exact nofun
          rw [h.toList_add hcontains, if_neg hnew]

theorem toList_afterAll (calls : List Call) : (afterAll calls).toList = calls.foldl listAfter [] := by
  have hrun : ∀ (p : Pool), p.Indexed →
      (calls.foldl after p).toList = calls.foldl listAfter p.toList := by
    induction calls with
    | nil => exact fun _ _ => rfl
    | cons call rest ih =>
        intro p hp
        rw [List.foldl_cons, ih _ (hp.after call), hp.toList_after call, List.foldl_cons]
  exact hrun empty indexed_empty

/-- A pool is a list of transactions in which no identifier comes twice.

After any calls the two places agree, the pool as a list is what the calls make of a list, and what
it holds, how many and which identifiers, is what the list holds.  A transaction is added, and then
at the end, if and only if its identifier is not pending; otherwise nothing changes, whatever else
is in the transaction.  Clearing a series takes out the transactions whose identifiers are in the
series, and leaves the others in their order. -/
theorem refines_list (calls : List Call) :
    let p := afterAll calls
    let ids := p.toList.map (·.id)
    p.Indexed ∧ p.toList = calls.foldl listAfter [] ∧
    ids.Nodup ∧ ids = p.order ∧ p.size = p.toList.length ∧
    (∀ id, p.contains id = true ↔ id ∈ ids) ∧
    (∀ t : Transaction,
      (t.id ∉ ids → (p.add t).1 = true ∧ (p.add t).2.toList = p.toList ++ [t]) ∧
      (t.id ∈ ids → p.add t = (false, p))) ∧
    ∀ series, (p.clear series).toList = p.toList.filter fun t => t.id ∉ series.map (·.id) := by
  intro p ids
  have hp : p.Indexed := indexed_afterAll calls
  refine ⟨hp, toList_afterAll calls, hp.nodup_ids, hp.ids_toList, hp.size_eq, hp.contains_iff,
    fun t => ⟨?new, ?pending⟩, hp.toList_clear⟩
  case new =>
    intro hnew
    have hcontains : p.contains t.id = false := by
      rw [← Bool.not_eq_true, hp.contains_iff]
      exact hnew
    refine ⟨?_, hp.toList_add hcontains⟩
    rw [add_of_not_contains hcontains]
  case pending =>
    intro hmem
    exact add_of_contains ((hp.contains_iff t.id).mpr hmem)

/-- Added, cleared with a stranger and added again; then another of the same identifier comes. -/
theorem refines_list_again :
    let t : Transaction := ⟨"1", "ada", "bea", 5, 5, .transact, none⟩
    let other : Transaction := ⟨"1", "cy", "dan", 7, 7, .transact, none⟩
    let stranger : Transaction := ⟨"2", "ada", "bea", 5, 5, .transact, none⟩
    let p := afterAll [.add t, .clear [stranger, t, t], .add t]
    p.toList = [t] ∧ p.add other = (false, p) ∧ (p.add stranger).2.toList = [t, stranger] := by
  intro t other stranger p
  obtain ⟨-, hlist, -, -, -, -, hadd, -⟩ := refines_list [.add t, .clear [stranger, t, t], .add t]
  have hp : p.toList = [t] := hlist
  have hids : p.toList.map (·.id) = ["1"] := by
    rw [hp]
    rfl
  have hother : other.id ∈ p.toList.map (·.id) := by
    rw [hids]
    exact List.mem_singleton.mpr rfl
  have hstranger : stranger.id ∉ p.toList.map (·.id) := by
    rw [hids]
    decide
  exact ⟨hp, (hadd other).2 hother,
    ((hadd stranger).1 hstranger).2.trans (congrArg (· ++ [stranger]) hp)⟩

end WorkLedger.Pool
