import Std.Data.ExtTreeMap

/-!
# A map that remembers how recently its keys were used

`Recency κ ν` maps keys to values and keeps the keys in the order of
their last use. Writing a key (`put`) and asking for it (`get`) use it;
looking at it (`peek`), changing its value in place (`modify`) and
removing it do not. The map never drops anything by itself: its owner
walks `toList`, least recently used first, and removes what it chooses.

Every use stamps the key with the next tick of a clock. `entries` holds
value and stamp of each key, `order` the key of each stamp. The two are
inverse to each other and all stamps lie before the clock; both facts are
part of the type, so each operation proves them on the way
(`inverse`, `below`).
-/

namespace HeapStore

/-- A map with the order in which its keys were last used. -/
structure Recency (κ ν : Type) [Ord κ] [Std.TransOrd κ] where
  /-- The value of each key, and when it was last used. -/
  entries : Std.ExtTreeMap κ (ν × Nat)
  /-- The key that was used at each time, if it was not used since. -/
  order : Std.ExtTreeMap Nat κ
  /-- The time of the next use. -/
  clock : Nat
  inverse : ∀ (k : κ) (s : Nat), order[s]? = some k ↔ ∃ v, entries[k]? = some (v, s)
  below : ∀ (s : Nat) (k : κ), order[s]? = some k → s < clock

namespace Recency

variable {κ ν : Type} [Ord κ] [Std.TransOrd κ]

/-- The map without keys. -/
def empty : Recency κ ν where
  entries := ∅
  order := ∅
  clock := 0
  inverse := by simp
  below := by simp

instance : Inhabited (Recency κ ν) := ⟨empty⟩

/-- The value of a key. -/
def peek (map : Recency κ ν) (key : κ) : Option ν := map.entries[key]?.map Prod.fst

/-- Whether there is such a key. -/
def contains (map : Recency κ ν) (key : κ) : Bool := map.entries.contains key

/-- The number of keys. -/
def size (map : Recency κ ν) : Nat := map.entries.size

/-- Whether there is no key. -/
def isEmpty (map : Recency κ ν) : Bool := map.entries.isEmpty

/-- Keys and values, least recently used first. -/
def toList (map : Recency κ ν) : List (κ × ν) :=
  map.order.toList.filterMap fun (_, key) =>
    map.entries[key]?.map fun (value, _) => (key, value)

/-- The keys, least recently used first. -/
def keys (map : Recency κ ν) : List κ := map.order.values

/-- The stamps without that of `key`. -/
def orderWithout (map : Recency κ ν) (key : κ) : Std.ExtTreeMap Nat κ :=
  match map.entries[key]? with
  | some (_, stamp) => map.order.erase stamp
  | none => map.order

theorem getElem?_orderWithout (map : Recency κ ν) (key k : κ) (s : Nat) :
    (map.orderWithout key)[s]? = some k ↔ map.order[s]? = some k ∧ k ≠ key := by
  have hinv := map.inverse
  unfold orderWithout
  split
  · rename_i v stamp h
    rw [Std.ExtTreeMap.getElem?_erase]
    simp only [Std.LawfulEqCmp.compare_eq_iff_eq]
    constructor
    · intro hs
      split at hs
      · simp at hs
      · refine ⟨hs, fun hk => ?_⟩
        subst hk
        obtain ⟨v', hv'⟩ := (hinv _ _).1 hs
        rw [h] at hv'
        simp_all
    · rintro ⟨hs, hk⟩
      rw [if_neg]
      · exact hs
      · rintro rfl
        have := (hinv key stamp).2 ⟨v, h⟩
        rw [hs] at this
        exact hk (Option.some.inj this)
  · rename_i h
    refine ⟨fun hs => ⟨hs, fun hk => ?_⟩, fun hs => hs.1⟩
    subst hk
    obtain ⟨v', hv'⟩ := (hinv _ _).1 hs
    rw [h] at hv'
    simp at hv'

variable [Std.LawfulEqOrd κ]

/-- Sets the value of a key and makes it the most recently used one. -/
def put (map : Recency κ ν) (key : κ) (value : ν) : Recency κ ν where
  entries := map.entries.insert key (value, map.clock)
  order := (map.orderWithout key).insert map.clock key
  clock := map.clock + 1
  inverse := by
    intro k s
    have hinv := map.inverse k s
    have hbelow := map.below s k
    have hout := map.getElem?_orderWithout key k s
    have hkey : compare key k = .eq ↔ key = k := Std.LawfulEqCmp.compare_eq_iff_eq
    rw [Std.ExtTreeMap.getElem?_insert, Std.ExtTreeMap.getElem?_insert]
    by_cases hk : key = k <;> by_cases hs : map.clock = s <;>
      simp [hk, hs, hkey] <;> grind
  below := by
    intro s k
    have hbelow := map.below s k
    have hout := map.getElem?_orderWithout key k s
    rw [Std.ExtTreeMap.getElem?_insert]
    by_cases hs : map.clock = s <;> grind

/-- Lets a time pass without a use. -/
def tick (map : Recency κ ν) : Recency κ ν :=
  { map with
    clock := map.clock + 1
    below := fun s k h => Nat.lt_succ_of_lt (map.below s k h) }

/-- Asks for the value of a key. A key that is there becomes the most
recently used one; the question takes its time from the clock either way. -/
def get (map : Recency κ ν) (key : κ) : Option ν × Recency κ ν :=
  match map.peek key with
  | some value => (some value, map.put key value)
  | none => (none, map.tick)

/-- Drops a key. -/
def remove (map : Recency κ ν) (key : κ) : Recency κ ν where
  entries := map.entries.erase key
  order := map.orderWithout key
  clock := map.clock
  inverse := by
    intro k s
    have hinv := map.inverse k s
    have hout := map.getElem?_orderWithout key k s
    have hkey : compare key k = .eq ↔ key = k := Std.LawfulEqCmp.compare_eq_iff_eq
    rw [Std.ExtTreeMap.getElem?_erase]
    by_cases hk : key = k <;> simp [hk, hkey] <;> grind
  below := by
    intro s k h
    exact map.below s k ((map.getElem?_orderWithout key k s).1 h).1

/-- Changes the value of a key, which does not count as a use. -/
def modify (map : Recency κ ν) (key : κ) (f : ν → ν) : Recency κ ν :=
  match h : map.entries[key]? with
  | none => map
  | some (value, stamp) =>
    { map with
      entries := map.entries.insert key (f value, stamp)
      inverse := by
        intro k s
        have hinv := map.inverse k s
        have hkey : compare key k = .eq ↔ key = k := Std.LawfulEqCmp.compare_eq_iff_eq
        rw [Std.ExtTreeMap.getElem?_insert]
        by_cases hk : key = k <;> simp [hk, hkey] <;> grind }

/-! ## Values after an operation -/

variable [DecidableEq κ]

theorem peek_put (map : Recency κ ν) (key : κ) (value : ν) (k : κ) :
    (map.put key value).peek k = if key = k then some value else map.peek k := by
  simp only [put, peek, Std.ExtTreeMap.getElem?_insert, Std.LawfulEqCmp.compare_eq_iff_eq]
  split <;> rfl

theorem peek_remove (map : Recency κ ν) (key k : κ) :
    (map.remove key).peek k = if key = k then none else map.peek k := by
  simp only [remove, peek, Std.ExtTreeMap.getElem?_erase, Std.LawfulEqCmp.compare_eq_iff_eq]
  split <;> rfl

end Recency

end HeapStore
