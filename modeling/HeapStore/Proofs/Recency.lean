import HeapStore.Recency
import Mathlib.Data.List.Basic

/-!
# Laws of the recency map

A recency map seen through `peek` is a finite map: each operation changes
the one key it names (`peek_put`, `peek_remove`, `peek_modify`), and the
walk from least to most recently used meets every key once
(`mem_toList`, `nodup_keys`). A write moves its key to the end of the walk
and a removal takes it out (`toList_put`, `toList_remove`).

An entry also holds the time of its last use. `entries_put_of_ne` and its
siblings say that an operation on one key leaves value and time of all
other keys as they are, and `put_modify_of_ne` and its siblings that it does
not matter to it what their values are.
-/

namespace HeapStore

namespace Recency

/-! ## Stamps

The stamps of a walk ascend, so it is known once its members are known. -/

section

variable {κ : Type}

def stampLt (a b : Nat × κ) : Prop := a.1 < b.1

theorem pairwise_stampLt (map : Std.ExtTreeMap Nat κ) : map.toList.Pairwise stampLt :=
  map.ordered_keys_toList.imp Nat.compare_eq_lt.1

theorem eq_of_mem_iff {xs ys : List (Nat × κ)} (hxs : xs.Pairwise stampLt)
    (hys : ys.Pairwise stampLt) (h : ∀ pair, pair ∈ xs ↔ pair ∈ ys) : xs = ys := by
  have hnodup : ∀ zs : List (Nat × κ), zs.Pairwise stampLt → zs.Nodup := by
    intro zs hzs
    refine hzs.imp ?_
    rintro a _ hlt rfl
    exact Nat.lt_irrefl _ hlt
  refine List.Perm.eq_of_pairwise ?_ hxs hys ?_
  · intro a b _ _ hab hba
    exact absurd hab (Nat.lt_asymm hba)
  · exact (List.perm_ext_iff_of_nodup (hnodup xs hxs) (hnodup ys hys)).2 h

end

variable {κ ν : Type} [Ord κ] [Std.TransOrd κ]

/-! ## The empty map -/

@[simp] theorem peek_empty (key : κ) : (empty : Recency κ ν).peek key = none := by
  simp [peek, empty]

theorem contains_iff {map : Recency κ ν} {key : κ} :
    map.contains key = true ↔ (map.peek key).isSome := by
  simp [contains, peek, Std.ExtTreeMap.isSome_getElem?_eq_contains]

/-! ## The walk -/

theorem mem_order_toList (map : Recency κ ν) (stamp : Nat) (key : κ) :
    (stamp, key) ∈ map.order.toList ↔ ∃ value, map.entries[key]? = some (value, stamp) := by
  rw [Std.ExtTreeMap.mem_toList_iff_getElem?_eq_some, map.inverse]

theorem keys_eq_map_order (map : Recency κ ν) : map.keys = map.order.toList.map Prod.snd := by
  have h : map.order.values = map.order.foldr (fun _ key keys => key :: keys) [] := by
    obtain ⟨⟨tree⟩⟩ := map.order
    induction tree using Quotient.ind
    rfl
  rw [keys, h, Std.ExtTreeMap.foldr_eq_foldr_toList]
  induction map.order.toList with
  | nil => rfl
  | cons pair pairs ih => rw [List.foldr_cons, ih, List.map_cons]

/-- Every stamp in the order has its entry, so the walk drops none. -/
theorem map_fst_toList (map : Recency κ ν) : map.toList.map Prod.fst = map.keys := by
  have hmem : ∀ pair ∈ map.order.toList, ∃ value, map.entries[pair.2]? = some (value, pair.1) :=
    fun pair h => (map.mem_order_toList pair.1 pair.2).1 h
  rw [keys_eq_map_order, toList]
  generalize map.order.toList = stamps at hmem
  induction stamps with
  | nil => rfl
  | cons pair stamps ih =>
      obtain ⟨value, hvalue⟩ := hmem pair List.mem_cons_self
      simp only [List.filterMap_cons, hvalue, Option.map_some, List.map_cons]
      rw [ih fun pair h => hmem pair (List.mem_cons_of_mem _ h)]

theorem nodup_keys (map : Recency κ ν) : map.keys.Nodup := by
  rw [keys_eq_map_order, List.nodup_iff_pairwise_ne, List.pairwise_map]
  refine (Std.ExtTreeMap.distinct_keys_toList (t := map.order)).imp_of_mem ?_
  rintro ⟨s, k⟩ ⟨s', k'⟩ hs hs' hne (rfl : k = k')
  obtain ⟨v, hv⟩ := (map.mem_order_toList s k).1 hs
  obtain ⟨v', hv'⟩ := (map.mem_order_toList s' k).1 hs'
  rw [hv, Option.some.injEq, Prod.mk.injEq] at hv'
  exact hne (Std.LawfulEqCmp.compare_eq_iff_eq.2 hv'.2)

theorem mem_toList {map : Recency κ ν} {key : κ} {value : ν} :
    (key, value) ∈ map.toList ↔ map.peek key = some value := by
  simp only [toList, List.mem_filterMap, Option.map_eq_some_iff, Prod.mk.injEq, peek]
  constructor
  · rintro ⟨⟨stamp, k⟩, -, ⟨v, s⟩, h, rfl, rfl⟩
    exact ⟨(v, s), h, rfl⟩
  · rintro ⟨⟨v, stamp⟩, h, rfl⟩
    exact ⟨(stamp, key), (map.mem_order_toList stamp key).2 ⟨v, h⟩, (v, stamp), h, rfl, rfl⟩

theorem mem_keys {map : Recency κ ν} {key : κ} :
    key ∈ map.keys ↔ (map.peek key).isSome := by
  rw [← map_fst_toList, List.mem_map, Option.isSome_iff_exists]
  constructor
  · rintro ⟨⟨k, v⟩, h, rfl⟩
    exact ⟨v, mem_toList.1 h⟩
  · rintro ⟨v, h⟩
    exact ⟨(key, v), mem_toList.2 h, rfl⟩

theorem mem_keys_of_peek {map : Recency κ ν} {key : κ} {value : ν}
    (h : map.peek key = some value) : key ∈ map.keys :=
  mem_keys.2 (Option.isSome_of_eq_some h)

/-- The pair at a stamp of the walk. -/
def pairAt (map : Recency κ ν) (stamped : Nat × κ) : Option (κ × ν) :=
  (map.peek stamped.2).map fun value => (stamped.2, value)

theorem toList_eq_filterMap (map : Recency κ ν) :
    map.toList = map.order.toList.filterMap map.pairAt := by
  refine List.filterMap_congr fun stamped _ => ?_
  rw [pairAt, peek, Option.map_map]
  rfl

theorem fst_of_pairAt {map : Recency κ ν} {stamped : Nat × κ} {pair : κ × ν}
    (h : map.pairAt stamped = some pair) : pair.1 = stamped.2 := by
  obtain ⟨_, -, rfl⟩ := Option.map_eq_some_iff.1 h
  rfl

/-! ## Sizes -/

variable [Std.LawfulEqOrd κ]

theorem length_keys (map : Recency κ ν) : map.keys.length = map.size := by
  have hperm : map.keys.Perm map.entries.keys := by
    rw [List.perm_ext_iff_of_nodup map.nodup_keys Std.ExtTreeMap.nodup_keys]
    intro key
    rw [mem_keys, Std.ExtTreeMap.mem_keys, ← contains_iff, contains,
      Std.ExtTreeMap.contains_iff_mem]
  rw [hperm.length_eq, Std.ExtTreeMap.length_keys, size]

theorem length_toList (map : Recency κ ν) : map.toList.length = map.size := by
  rw [← length_keys, ← map_fst_toList, List.length_map]

theorem size_put (map : Recency κ ν) (key : κ) (value : ν) :
    (map.put key value).size = if (map.peek key).isSome then map.size else map.size + 1 := by
  simp only [put, size, Std.ExtTreeMap.size_insert, ← contains_iff, contains,
    Std.ExtTreeMap.contains_iff_mem]

theorem size_remove (map : Recency κ ν) (key : κ) :
    (map.remove key).size = if (map.peek key).isSome then map.size - 1 else map.size := by
  simp only [remove, size, Std.ExtTreeMap.size_erase, ← contains_iff, contains,
    Std.ExtTreeMap.contains_iff_mem]

theorem size_pos {map : Recency κ ν} {key : κ} {value : ν} (h : map.peek key = some value) :
    0 < map.size := by
  rw [← length_keys]
  exact List.length_pos_of_mem (mem_keys_of_peek h)

/-! ## Entries after an operation -/

theorem entries_modify (map : Recency κ ν) (key : κ) (f : ν → ν) :
    (map.modify key f).entries
      = match map.entries[key]? with
        | none => map.entries
        | some (value, stamp) => map.entries.insert key (f value, stamp) := by
  unfold modify
  split <;> rename_i h <;> simp only [h]

theorem size_modify (map : Recency κ ν) (key : κ) (f : ν → ν) :
    (map.modify key f).size = map.size := by
  simp only [size, entries_modify]
  split
  · rfl
  · rename_i h
    rw [Std.ExtTreeMap.size_insert, if_pos]
    exact Std.ExtTreeMap.mem_iff_isSome_getElem?.2 (by rw [h]; rfl)

theorem order_modify (map : Recency κ ν) (key : κ) (f : ν → ν) :
    (map.modify key f).order = map.order := by
  unfold modify
  split <;> rfl

theorem clock_modify (map : Recency κ ν) (key : κ) (f : ν → ν) :
    (map.modify key f).clock = map.clock := by
  unfold modify
  split <;> rfl

theorem keys_modify (map : Recency κ ν) (key : κ) (f : ν → ν) :
    (map.modify key f).keys = map.keys := by
  rw [keys, order_modify, keys]

variable [DecidableEq κ]

theorem entries_put_of_ne (map : Recency κ ν) {key k : κ} (value : ν) (h : key ≠ k) :
    (map.put key value).entries[k]? = map.entries[k]? := by
  simp only [put, Std.ExtTreeMap.getElem?_insert, Std.LawfulEqCmp.compare_eq_iff_eq, if_neg h]

theorem entries_remove_of_ne (map : Recency κ ν) {key k : κ} (h : key ≠ k) :
    (map.remove key).entries[k]? = map.entries[k]? := by
  simp only [remove, Std.ExtTreeMap.getElem?_erase, Std.LawfulEqCmp.compare_eq_iff_eq, if_neg h]

theorem entries_modify_of_ne (map : Recency κ ν) {key k : κ} (f : ν → ν) (h : key ≠ k) :
    (map.modify key f).entries[k]? = map.entries[k]? := by
  rw [entries_modify]
  split
  · rfl
  · simp only [Std.ExtTreeMap.getElem?_insert, Std.LawfulEqCmp.compare_eq_iff_eq, if_neg h]

theorem getElem?_entries_modify (map : Recency κ ν) (key : κ) (f : ν → ν) (k : κ) :
    (map.modify key f).entries[k]?
      = if key = k then map.entries[k]?.map fun entry => (f entry.1, entry.2)
        else map.entries[k]? := by
  split
  · rename_i h
    subst h
    rw [entries_modify]
    split
    · rename_i hnone
      simp [hnone]
    · rename_i hsome
      simp [hsome]
  · rename_i h
    exact entries_modify_of_ne _ _ h

theorem peek_modify (map : Recency κ ν) (key : κ) (f : ν → ν) (k : κ) :
    (map.modify key f).peek k = if key = k then (map.peek k).map f else map.peek k := by
  rw [peek, getElem?_entries_modify]
  split
  · simp only [peek, Option.map_map, Function.comp_def]
  · rfl

/-! ## Operations on two keys

What is done to one key does not depend on the value of another one. -/

section

omit [Std.LawfulEqOrd κ] [DecidableEq κ] in
theorem eq_of_fields {map map' : Recency κ ν} (hentries : map'.entries = map.entries)
    (horder : map'.order = map.order) (hclock : map'.clock = map.clock) : map' = map := by
  cases map
  cases map'
  cases hentries
  cases horder
  cases hclock
  rfl

variable {key k : κ} {f : ν → ν}

theorem orderWithout_modify_of_ne (map : Recency κ ν) (h : key ≠ k) :
    (map.modify key f).orderWithout k = map.orderWithout k := by
  rw [orderWithout, entries_modify_of_ne _ _ h, order_modify, orderWithout]

theorem put_modify_of_ne (map : Recency κ ν) (value : ν) (h : key ≠ k) :
    (map.modify key f).put k value = (map.put k value).modify key f := by
  refine eq_of_fields (Std.ExtTreeMap.ext_getElem? fun j => ?_) ?_ ?_
  · simp only [getElem?_entries_modify, put, Std.ExtTreeMap.getElem?_insert,
      Std.LawfulEqCmp.compare_eq_iff_eq, clock_modify]
    by_cases hkey : key = j
    · subst hkey
      simp [Ne.symm h]
    · simp [hkey]
  · simp only [put, order_modify, orderWithout_modify_of_ne _ h, clock_modify]
  · simp only [put, clock_modify]

theorem remove_modify_of_ne (map : Recency κ ν) (h : key ≠ k) :
    (map.modify key f).remove k = (map.remove k).modify key f := by
  refine eq_of_fields (Std.ExtTreeMap.ext_getElem? fun j => ?_) ?_ ?_
  · simp only [getElem?_entries_modify, remove, Std.ExtTreeMap.getElem?_erase,
      Std.LawfulEqCmp.compare_eq_iff_eq]
    by_cases hkey : key = j
    · subst hkey
      simp [Ne.symm h]
    · simp [hkey]
  · simp only [remove, order_modify, orderWithout_modify_of_ne _ h]
  · simp only [remove, clock_modify]

theorem modify_modify_of_ne (map : Recency κ ν) (g : ν → ν) (h : key ≠ k) :
    (map.modify key f).modify k g = (map.modify k g).modify key f := by
  refine eq_of_fields (Std.ExtTreeMap.ext_getElem? fun j => ?_) ?_ ?_
  · simp only [getElem?_entries_modify]
    by_cases hkey : key = j
    · subst hkey
      simp [Ne.symm h]
    · simp [hkey]
  · simp only [order_modify]
  · simp only [clock_modify]

end

/-! ## The walk after an operation -/

omit [Std.LawfulEqOrd κ] in
theorem toList_orderWithout (map : Recency κ ν) (key : κ) :
    (map.orderWithout key).toList = map.order.toList.filter (·.2 ≠ key) := by
  refine eq_of_mem_iff (pairwise_stampLt _) ((pairwise_stampLt _).filter _) ?_
  rintro ⟨stamp, k⟩
  simp [Std.ExtTreeMap.mem_toList_iff_getElem?_eq_some, getElem?_orderWithout]

theorem toList_order_put (map : Recency κ ν) (key : κ) (value : ν) :
    (map.put key value).order.toList
      = map.order.toList.filter (·.2 ≠ key) ++ [(map.clock, key)] := by
  have hbelow : ∀ pair ∈ map.order.toList, pair.1 < map.clock := by
    rintro ⟨stamp, k⟩ hmem
    exact map.below stamp k (Std.ExtTreeMap.mem_toList_iff_getElem?_eq_some.1 hmem)
  refine eq_of_mem_iff (pairwise_stampLt _) ?_ ?_
  · rw [List.pairwise_append]
    refine ⟨(pairwise_stampLt _).filter _, List.pairwise_singleton _ _, ?_⟩
    intro a ha b hb
    rw [List.mem_singleton.1 hb]
    exact hbelow a (List.mem_filter.1 ha).1
  · rintro ⟨stamp, k⟩
    rw [List.mem_append, ← toList_orderWithout, List.mem_singleton, put,
      Std.ExtTreeMap.mem_toList_iff_getElem?_eq_some, Std.ExtTreeMap.getElem?_insert,
      Std.ExtTreeMap.mem_toList_iff_getElem?_eq_some]
    simp only [Std.LawfulEqCmp.compare_eq_iff_eq]
    split
    · rename_i hstamp
      subst hstamp
      have hnot : (map.orderWithout key)[map.clock]? ≠ some k := fun h =>
        Nat.lt_irrefl _ (map.below _ _ ((map.getElem?_orderWithout key k _).1 h).1)
      simp [hnot, eq_comm]
    · rename_i hstamp
      simp [Ne.symm hstamp]

omit [Std.LawfulEqOrd κ] in
/-- Two maps that differ at one key have the same walk beside it. -/
theorem filterMap_pairAt {map map' : Recency κ ν} {key : κ}
    (h : ∀ k, k ≠ key → map'.peek k = map.peek k) (stamps : List (Nat × κ)) :
    (stamps.filter (·.2 ≠ key)).filterMap map'.pairAt
      = (stamps.filterMap map.pairAt).filter (·.1 ≠ key) := by
  induction stamps with
  | nil => rfl
  | cons stamped stamps ih =>
      by_cases hkey : stamped.2 = key
      · rw [List.filter_cons_of_neg (by simpa using hkey), ih, List.filterMap_cons]
        split
        · rfl
        · rename_i pair hpair
          rw [List.filter_cons_of_neg (by simpa [fst_of_pairAt hpair] using hkey)]
      · have hsame : map'.pairAt stamped = map.pairAt stamped := by
          rw [pairAt, h _ hkey, pairAt]
        rw [List.filter_cons_of_pos (by simpa using hkey), List.filterMap_cons,
          List.filterMap_cons, hsame]
        split
        · exact ih
        · rename_i pair hpair
          rw [List.filter_cons_of_pos (by simpa [fst_of_pairAt hpair] using hkey), ih]

theorem toList_remove (map : Recency κ ν) (key : κ) :
    (map.remove key).toList = map.toList.filter (·.1 ≠ key) := by
  have hpeek : ∀ k, k ≠ key → (map.remove key).peek k = map.peek k := fun k hk => by
    rw [peek_remove, if_neg hk.symm]
  rw [toList_eq_filterMap, toList_eq_filterMap, ← filterMap_pairAt hpeek, ← toList_orderWithout]
  rfl

theorem toList_put (map : Recency κ ν) (key : κ) (value : ν) :
    (map.put key value).toList = map.toList.filter (·.1 ≠ key) ++ [(key, value)] := by
  have hpeek : ∀ k, k ≠ key → (map.put key value).peek k = map.peek k := fun k hk => by
    rw [peek_put, if_neg hk.symm]
  have hlast : (map.put key value).pairAt (map.clock, key) = some (key, value) := by
    simp [pairAt, peek_put]
  rw [toList_eq_filterMap, toList_eq_filterMap, ← filterMap_pairAt hpeek, toList_order_put,
    List.filterMap_append, List.filterMap_cons, hlast, List.filterMap_nil]

theorem keys_put (map : Recency κ ν) (key : κ) (value : ν) :
    (map.put key value).keys = map.keys.filter (· ≠ key) ++ [key] := by
  rw [← map_fst_toList, toList_put, List.map_append, ← map_fst_toList, List.filter_map]
  rfl

theorem toList_modify (map : Recency κ ν) (key : κ) (f : ν → ν) :
    (map.modify key f).toList
      = map.toList.map fun pair => if pair.1 = key then (pair.1, f pair.2) else pair := by
  rw [toList_eq_filterMap, toList_eq_filterMap, order_modify, List.map_filterMap]
  refine List.filterMap_congr fun stamped _ => ?_
  rw [pairAt, pairAt, peek_modify, Option.map_map]
  by_cases hkey : key = stamped.2
  · subst hkey
    rw [if_pos rfl, Option.map_map]
    simp [Function.comp_def]
  · rw [if_neg hkey]
    simp [Function.comp_def, Ne.symm hkey]

end Recency

end HeapStore
