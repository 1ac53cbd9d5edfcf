import HeapStore.Proofs.Recency

/-!
# A recency map is a list

Told without stamps, a recency map is a list of keys with their values, each
key once, the least recently used one first (`Walk`). A use takes the pair of
its key out of the list and adds it at the end; a removal takes it out; what
only looks leaves the list as it is.

The map keeps this list in two indexes, values and stamps by key and keys by
stamp, which each call has to change alike. Calls on the map are answered as
the list answers them, and the walk through the map is the list that they
leave (`acts_as_walk`). The clock counts the calls that ask or write, also for
keys that are not there, so each stamp is handed out once.
-/

namespace HeapStore

/-- Keys and their values, least recently used first. -/
abbrev Walk (κ ν : Type) := List (κ × ν)

inductive RecencyCall (κ ν : Type) where
  | get (key : κ)
  | peek (key : κ)
  | put (key : κ) (value : ν)
  | remove (key : κ)
  | contains (key : κ)
  | len

inductive RecencyAnswer (ν : Type) where
  /-- What the key had when the call was made. -/
  | value (value : Option ν)
  | found (found : Bool)
  | count (count : Nat)
deriving DecidableEq

namespace RecencyCall

variable {κ ν : Type}

/-- Whether a call takes a time from the clock. -/
def ticks : RecencyCall κ ν → Bool
  | .get _ | .put _ _ => true
  | _ => false

/-- The answers to calls, one after the other, and what they leave. -/
def runAll {σ : Type} (run : RecencyCall κ ν → σ → RecencyAnswer ν × σ) :
    List (RecencyCall κ ν) → σ → List (RecencyAnswer ν) × σ
  | [], state => ([], state)
  | call :: calls, state =>
    let (answer, state) := run call state
    let (answers, last) := runAll run calls state
    (answer :: answers, last)

end RecencyCall

/-! ## Calls on a list -/

namespace Walk

variable {κ ν : Type} [DecidableEq κ]

def value? (walk : Walk κ ν) (key : κ) : Option ν :=
  (walk.find? fun pair => pair.1 = key).map Prod.snd

def without (walk : Walk κ ν) (key : κ) : Walk κ ν := walk.filter fun pair => pair.1 ≠ key

/-- The list with a pair at its end, in place of any other pair of the key. -/
def use (walk : Walk κ ν) (key : κ) (value : ν) : Walk κ ν := walk.without key ++ [(key, value)]

def run (call : RecencyCall κ ν) (walk : Walk κ ν) : RecencyAnswer ν × Walk κ ν :=
  match call with
  | .get key =>
    match walk.value? key with
    | some value => (.value (some value), walk.use key value)
    | none => (.value none, walk)
  | .peek key => (.value (walk.value? key), walk)
  | .put key value => (.value (walk.value? key), walk.use key value)
  | .remove key => (.value (walk.value? key), walk.without key)
  | .contains key => (.found (walk.value? key).isSome, walk)
  | .len => (.count walk.length, walk)

end Walk

/-! ## Calls on the map -/

namespace Recency

variable {κ ν : Type} [Ord κ] [Std.TransOrd κ]

/-- Each stamp is that of one key. -/
theorem eq_of_stamp {map : Recency κ ν} {k k' : κ} {v v' : ν} {stamp : Nat}
    (h : map.entries[k]? = some (v, stamp)) (h' : map.entries[k']? = some (v', stamp)) :
    k = k' := by
  have horder := (map.inverse k stamp).2 ⟨v, h⟩
  have horder' := (map.inverse k' stamp).2 ⟨v', h'⟩
  exact Option.some.inj (horder.symm.trans horder')

theorem value?_toList [DecidableEq κ] (map : Recency κ ν) (key : κ) :
    Walk.value? map.toList key = map.peek key := by
  refine Option.ext fun value => ?_
  rw [Walk.value?, Option.map_eq_some_iff, ← mem_toList]
  constructor
  · rintro ⟨⟨k, v⟩, hfind, rfl⟩
    obtain rfl : k = key := by simpa using List.find?_some hfind
    exact List.mem_of_find?_eq_some hfind
  · intro hmem
    have hsome : (map.toList.find? fun pair => pair.1 = key).isSome :=
      List.find?_isSome.2 ⟨_, hmem, by simp⟩
    obtain ⟨⟨k, v⟩, hfind⟩ := Option.isSome_iff_exists.1 hsome
    obtain rfl : k = key := by simpa using List.find?_some hfind
    have hfound := mem_toList.1 (List.mem_of_find?_eq_some hfind)
    have hvalue := mem_toList.1 hmem
    exact ⟨_, hfind, Option.some.inj (hfound.symm.trans hvalue)⟩

variable [Std.LawfulEqOrd κ]

def run (call : RecencyCall κ ν) (map : Recency κ ν) : RecencyAnswer ν × Recency κ ν :=
  match call with
  | .get key =>
    let (value, map) := map.get key
    (.value value, map)
  | .peek key => (.value (map.peek key), map)
  | .put key value => (.value (map.peek key), map.put key value)
  | .remove key => (.value (map.peek key), map.remove key)
  | .contains key => (.found (map.contains key), map)
  | .len => (.count map.size, map)

theorem clock_run (call : RecencyCall κ ν) (map : Recency κ ν) :
    (map.run call).2.clock = map.clock + if call.ticks then 1 else 0 := by
  cases call with
  | get key =>
      simp only [run, get]
      cases map.peek key <;> rfl
  | peek _ | put _ _ | remove _ | contains _ | len => rfl

theorem clock_runAll (calls : List (RecencyCall κ ν)) (map : Recency κ ν) :
    (RecencyCall.runAll run calls map).2.clock
      = map.clock + calls.countP RecencyCall.ticks := by
  induction calls generalizing map with
  | nil => rfl
  | cons call calls ih =>
      simp only [RecencyCall.runAll, ih, clock_run, List.countP_cons]
      omega

variable [DecidableEq κ]

/-- A call is answered as by the list, and leaves the list that it leaves. -/
theorem run_toList (call : RecencyCall κ ν) (map : Recency κ ν) :
    Walk.run call map.toList = ((map.run call).1, (map.run call).2.toList) := by
  cases call with
  | get key =>
      simp only [Walk.run, run, get, value?_toList]
      cases map.peek key with
      | none => rfl
      | some value => exact congrArg (Prod.mk _) (map.toList_put key value).symm
  | peek key => rw [Walk.run, value?_toList, run]
  | put key value =>
      rw [Walk.run, value?_toList]
      exact congrArg (Prod.mk _) (map.toList_put key value).symm
  | remove key =>
      rw [Walk.run, value?_toList]
      exact congrArg (Prod.mk _) (map.toList_remove key).symm
  | contains key => rw [Walk.run, value?_toList, run, ← Bool.eq_iff_iff.2 contains_iff]
  | len => rw [Walk.run, length_toList, run]

theorem runAll_toList (calls : List (RecencyCall κ ν)) (map : Recency κ ν) :
    RecencyCall.runAll Walk.run calls map.toList
      = ((RecencyCall.runAll run calls map).1, (RecencyCall.runAll run calls map).2.toList) := by
  induction calls generalizing map with
  | nil => rfl
  | cons call calls ih => simp only [RecencyCall.runAll, run_toList, ih]

/-- After any calls on an empty map: they were answered as by a list, which
has each key once and through which the map is walked; values and stamps are
inverse to each other, so that no two keys have one stamp; and every stamp
lies below the clock, which has counted the calls that ask or write. -/
theorem acts_as_walk (calls : List (RecencyCall κ ν)) :
    let map := (RecencyCall.runAll run calls (empty : Recency κ ν)).2
    let walk := (RecencyCall.runAll Walk.run calls ([] : Walk κ ν)).2
    (RecencyCall.runAll run calls (empty : Recency κ ν)).1
      = (RecencyCall.runAll Walk.run calls ([] : Walk κ ν)).1 ∧
    (map.toList = walk ∧ map.keys = walk.map Prod.fst ∧ map.size = walk.length ∧
      (walk.map Prod.fst).Nodup) ∧
    (∀ (key : κ) (stamp : Nat), map.order[stamp]? = some key
      ↔ ∃ value, map.entries[key]? = some (value, stamp)) ∧
    (∀ (key key' : κ) (value value' : ν) (stamp : Nat),
      map.entries[key]? = some (value, stamp) → map.entries[key']? = some (value', stamp) →
        key = key') ∧
    (∀ (key : κ) (value : ν) (stamp : Nat),
      map.entries[key]? = some (value, stamp) → stamp < map.clock) ∧
    map.clock = calls.countP RecencyCall.ticks := by
  intro map walk
  have hruns := runAll_toList calls (empty : Recency κ ν)
  have hlist : map.toList = walk := (congrArg Prod.snd hruns).symm
  refine ⟨(congrArg Prod.fst hruns).symm, ⟨hlist, ?_, ?_, ?_⟩, map.inverse,
    fun _ _ _ _ _ => eq_of_stamp, ?_, ?_⟩
  · rw [← hlist, map_fst_toList]
  · rw [← hlist, length_toList]
  · rw [← hlist, map_fst_toList]
    exact map.nodup_keys
  · intro key value stamp hentry
    exact map.below stamp key ((map.inverse key stamp).2 ⟨value, hentry⟩)
  · rw [clock_runAll]
    exact Nat.zero_add _

/-- Of three keys the first is asked for, the second is written again and the
third is removed. -/
theorem acts_as_walk_threeKeys :
    let calls : List (RecencyCall Nat String) :=
      [.put 1 "a", .put 2 "b", .put 3 "c", .get 1, .get 4, .put 2 "d", .remove 3, .len]
    (RecencyCall.runAll run calls empty).1
      = [.value none, .value none, .value none, .value (some "a"), .value none,
        .value (some "b"), .value (some "c"), .count 2] ∧
    (RecencyCall.runAll run calls empty).2.toList = [(1, "a"), (2, "d")] ∧
    (RecencyCall.runAll run calls empty).2.clock = 6 := by
  intro calls
  obtain ⟨hanswers, ⟨hlist, -⟩, -, -, -, hclock⟩ := acts_as_walk calls
  refine ⟨?_, ?_, ?_⟩
  · rw [hanswers]
    decide
  · rw [hlist]
    decide
  · rw [hclock]
    decide

end Recency

end HeapStore
