import HeapStore.Query.Aggregate
import Mathlib.Data.List.Induction

/-!
# Totals in words and in numbers

The totals of a group are kept in words of 64 bits. Over fewer than 2³² rows
they are the exact numbers (`Accumulator.toInt_count_of`,
`Accumulator.toInt_sum_of`), so the result of an aggregate function is what the
function means for the integers, cut to 32 bits (`Accumulator.result_exact`).
Only counts and sums can be cut: extremes are values of the group, and an
average lies between them.

The order in which the values are added does not matter
(`Accumulator.of_perm`).
-/

namespace HeapStore

/-! ## Numbers -/

/-- The integers among the values of some rows. -/
def numbers (values : List (Option Int32)) : List Int :=
  values.filterMap fun value => value.map Int32.toInt

def exactSum (numbers : List Int) : Int := numbers.foldr (· + ·) 0

/-- What an aggregate function is for a group of so many rows with these
numbers. An average is truncated toward zero. -/
def AggregateFn.Means : AggregateFn → (size : Nat) → (numbers : List Int) → Int → Prop
  | .count, size, _, result => result = size
  | .sum, _, numbers, result => result = exactSum numbers
  | .avg, size, numbers, result => result = (exactSum numbers).tdiv size
  | .min, _, numbers, result => result ∈ numbers ∧ ∀ n ∈ numbers, result ≤ n
  | .max, _, numbers, result => result ∈ numbers ∧ ∀ n ∈ numbers, n ≤ result

/-- The integer of 32 bits that is nearest. -/
def nearest (n : Int) : Int := max Int32.minValue.toInt (min n Int32.maxValue.toInt)

theorem nearest_eq {n : Int} (hlow : Int32.minValue.toInt ≤ n) (hhigh : n ≤ Int32.maxValue.toInt) :
    nearest n = n := by
  rw [nearest, Int.min_eq_left hhigh, Int.max_eq_right hlow]

theorem numbers_concat (values : List (Option Int32)) (value : Option Int32) :
    numbers (values ++ [value]) = numbers values ++ (value.map Int32.toInt).toList := by
  cases value <;> simp [numbers]

theorem length_numbers_le (values : List (Option Int32)) :
    (numbers values).length ≤ values.length := List.length_filterMap_le _ _

theorem numbers_bounds {values : List (Option Int32)} :
    ∀ n ∈ numbers values, Int32.minValue.toInt ≤ n ∧ n ≤ Int32.maxValue.toInt := by
  intro n h
  obtain ⟨value, -, hvalue⟩ := List.mem_filterMap.1 h
  obtain ⟨word, -, rfl⟩ := Option.map_eq_some_iff.1 hvalue
  exact ⟨word.minValue_le_toInt, word.toInt_le⟩

theorem exactSum_append (a b : List Int) : exactSum (a ++ b) = exactSum a + exactSum b := by
  induction a with
  | nil => simp [exactSum]
  | cons n a ih =>
      simp only [exactSum, List.cons_append, List.foldr_cons] at ih ⊢
      rw [ih, Int.add_assoc]

theorem exactSum_bounds {numbers : List Int} {low high : Int}
    (h : ∀ n ∈ numbers, low ≤ n ∧ n ≤ high) :
    low * numbers.length ≤ exactSum numbers ∧ exactSum numbers ≤ high * numbers.length := by
  induction numbers with
  | nil => simp [exactSum]
  | cons n numbers ih =>
      obtain ⟨hn, hnumbers⟩ := List.forall_mem_cons.1 h
      have hrest := ih hnumbers
      simp only [exactSum, List.foldr_cons, List.length_cons, Int.natCast_succ, Int.mul_add,
        Int.mul_one] at hrest ⊢
      omega

/-! ## Words of 64 bits -/

/-- A number that is no longer than the sum of 2³² numbers of 32 bits is a
word. -/
theorem bmod_of_small {n : Int} (hlow : Int32.minValue.toInt * UInt32.size ≤ n)
    (hhigh : n ≤ Int32.maxValue.toInt * UInt32.size) : n.bmod UInt64.size = n := by
  have hmin : Int32.minValue.toInt = -2147483648 := rfl
  have hmax : Int32.maxValue.toInt = 2147483647 := rfl
  simp only [hmin, hmax, UInt32.size] at hlow hhigh
  rw [UInt64.size]
  apply Int.bmod_eq_of_le <;> omega

theorem exactSum_small {values : List (Option Int32)} (h : values.length ≤ UInt32.size) :
    Int32.minValue.toInt * UInt32.size ≤ exactSum (numbers values) ∧
      exactSum (numbers values) ≤ Int32.maxValue.toInt * UInt32.size := by
  obtain ⟨hlow, hhigh⟩ := exactSum_bounds (@numbers_bounds values)
  have hlength := length_numbers_le values
  have hmin : Int32.minValue.toInt = -2147483648 := rfl
  have hmax : Int32.maxValue.toInt = 2147483647 := rfl
  rw [hmin] at hlow ⊢
  rw [hmax] at hhigh ⊢
  omega

namespace Accumulator

/-! ## Adding a row -/

theorem toInt_min_add (totals : Accumulator) (word : Int32) :
    (totals.add (some word)).min.toInt = Min.min word.toInt totals.min.toInt := by
  simp only [add, Int32.lt_iff_toInt_lt]
  split <;> omega

theorem toInt_max_add (totals : Accumulator) (word : Int32) :
    (totals.add (some word)).max.toInt = Max.max word.toInt totals.max.toInt := by
  simp only [add, Int32.lt_iff_toInt_lt]
  split <;> omega

/-- Two rows give the same totals in either order. -/
theorem add_right_comm (totals : Accumulator) (a b : Option Int32) :
    (totals.add a).add b = (totals.add b).add a := by
  match a, b with
  | none, none => rfl
  | none, some _ => rfl
  | some _, none => rfl
  | some v, some w =>
      rw [Accumulator.mk.injEq]
      refine ⟨rfl, ?_, ?_, ?_⟩
      · show totals.sum + v.toInt64 + w.toInt64 = totals.sum + w.toInt64 + v.toInt64
        rw [Int64.add_assoc, Int64.add_comm v.toInt64, ← Int64.add_assoc]
      · rw [← Int32.toInt_inj]
        simp only [toInt_min_add]
        omega
      · rw [← Int32.toInt_inj]
        simp only [toInt_max_add]
        omega

/-! ## Totals of some rows -/

/-- The totals of rows with these values. -/
def of (values : List (Option Int32)) : Accumulator := values.foldl add empty

theorem of_concat (values : List (Option Int32)) (value : Option Int32) :
    of (values ++ [value]) = (of values).add value := by
  simp [of]

theorem toInt_count_of {values : List (Option Int32)} (h : values.length ≤ UInt32.size) :
    (of values).count.toInt = values.length := by
  induction values using List.reverseRecOn with
  | nil => rfl
  | append_singleton values value ih =>
      rw [List.length_append, List.length_singleton] at h
      have hadd : (of (values ++ [value])).count = (of values).count + 1 := by
        rw [of_concat]
        cases value <;> rfl
      have hone : (1 : Int64).toInt = 1 := rfl
      rw [hadd, Int64.toInt_add, ih (by omega), hone, List.length_append, List.length_singleton,
        Int.natCast_add, Int.natCast_one]
      simp only [UInt32.size] at h
      apply Int.bmod_eq_of_le <;> omega

theorem toInt_sum_of {values : List (Option Int32)} (h : values.length ≤ UInt32.size) :
    (of values).sum.toInt = exactSum (numbers values) := by
  induction values using List.reverseRecOn with
  | nil => rfl
  | append_singleton values value ih =>
      obtain ⟨hlow, hhigh⟩ := exactSum_small h
      rw [List.length_append, List.length_singleton] at h
      rw [of_concat, numbers_concat]
      rw [numbers_concat] at hlow hhigh
      cases value with
      | none =>
          rw [Option.map_none, Option.toList_none, List.append_nil]
          exact ih (by omega)
      | some word =>
          have hsum : exactSum (numbers values ++ [word.toInt])
              = exactSum (numbers values) + word.toInt := by
            rw [exactSum_append]
            simp [exactSum]
          rw [Option.map_some, Option.toList_some, hsum] at hlow hhigh ⊢
          rw [add, Int64.toInt_add, ih (by omega), Int32.toInt_toInt64,
            bmod_of_small hlow hhigh]

/-- The least of the values and the far end. -/
theorem min_of (values : List (Option Int32)) :
    (of values).min.toInt ∈ Int32.maxValue.toInt :: numbers values ∧
      ∀ n ∈ numbers values, (of values).min.toInt ≤ n := by
  induction values using List.reverseRecOn with
  | nil => exact ⟨List.mem_cons_self, nofun⟩
  | append_singleton values value ih =>
      obtain ⟨hmem, hle⟩ := ih
      rw [of_concat, numbers_concat]
      cases value with
      | none =>
          rw [Option.map_none, Option.toList_none, List.append_nil]
          exact ⟨hmem, hle⟩
      | some word =>
          rw [toInt_min_add, Option.map_some, Option.toList_some, ← List.cons_append]
          refine ⟨?_, fun n hn => ?_⟩
          · rcases Int.le_total word.toInt (of values).min.toInt with hless | hless
            · rw [Int.min_eq_left hless]
              exact List.mem_append_right _ (List.mem_singleton_self _)
            · rw [Int.min_eq_right hless]
              exact List.mem_append_left _ hmem
          · rcases List.mem_append.1 hn with hn | hn
            · exact Int.le_trans (Int.min_le_right ..) (hle n hn)
            · rw [List.mem_singleton.1 hn]
              exact Int.min_le_left ..

/-- The greatest of the values and the far end. -/
theorem max_of (values : List (Option Int32)) :
    (of values).max.toInt ∈ Int32.minValue.toInt :: numbers values ∧
      ∀ n ∈ numbers values, n ≤ (of values).max.toInt := by
  induction values using List.reverseRecOn with
  | nil => exact ⟨List.mem_cons_self, nofun⟩
  | append_singleton values value ih =>
      obtain ⟨hmem, hle⟩ := ih
      rw [of_concat, numbers_concat]
      cases value with
      | none =>
          rw [Option.map_none, Option.toList_none, List.append_nil]
          exact ⟨hmem, hle⟩
      | some word =>
          rw [toInt_max_add, Option.map_some, Option.toList_some, ← List.cons_append]
          refine ⟨?_, fun n hn => ?_⟩
          · rcases Int.le_total word.toInt (of values).max.toInt with hless | hless
            · rw [Int.max_eq_right hless]
              exact List.mem_append_left _ hmem
            · rw [Int.max_eq_left hless]
              exact List.mem_append_right _ (List.mem_singleton_self _)
          · rcases List.mem_append.1 hn with hn | hn
            · exact Int.le_trans (hle n hn) (Int.le_max_right ..)
            · rw [List.mem_singleton.1 hn]
              exact Int.le_max_left ..

/-- Where there is a value, no trace of the far ends is left. -/
theorem min_mem {values : List (Option Int32)} (h : numbers values ≠ []) :
    (of values).min.toInt ∈ numbers values := by
  obtain ⟨n, hn⟩ := List.exists_mem_of_ne_nil _ h
  obtain ⟨hmem, hle⟩ := min_of values
  rcases List.mem_cons.1 hmem with hend | hmem
  · rwa [Int.le_antisymm (hle n hn) (hend ▸ (numbers_bounds n hn).2)]
  · exact hmem

theorem max_mem {values : List (Option Int32)} (h : numbers values ≠ []) :
    (of values).max.toInt ∈ numbers values := by
  obtain ⟨n, hn⟩ := List.exists_mem_of_ne_nil _ h
  obtain ⟨hmem, hle⟩ := max_of values
  rcases List.mem_cons.1 hmem with hend | hmem
  · rwa [Int.le_antisymm (hend ▸ (numbers_bounds n hn).1) (hle n hn)]
  · exact hmem

/-- The order of the values does not matter. -/
theorem of_perm {values others : List (Option Int32)} (h : values.Perm others) :
    of values = of others :=
  h.foldl_eq' (fun a _ b _ totals => add_right_comm totals a b) empty

/-! ## Results -/

theorem toInt_clamp (value : Int64) : (clamp value).toInt = nearest value.toInt := by
  have hmin : Int32.minValue.toInt = -2147483648 := rfl
  have hmax : Int32.maxValue.toInt = 2147483647 := rfl
  rw [clamp, nearest]
  simp only [Int64.lt_iff_toInt_lt, Int32.toInt_toInt64]
  split
  · omega
  split
  · omega
  · have hbmod : value.toInt.bmod (2 ^ 32) = value.toInt := by
      apply Int.bmod_eq_of_le <;> omega
    rw [Int64.toInt_toInt32, hbmod]
    omega

/-- An average is no less than the least value and no more than the
greatest. -/
theorem tdiv_bounds {values : List (Option Int32)} (hlength : (numbers values).length = values.length)
    (hsize : 0 < values.length) :
    Int32.minValue.toInt ≤ (exactSum (numbers values)).tdiv values.length ∧
      (exactSum (numbers values)).tdiv values.length ≤ Int32.maxValue.toInt := by
  obtain ⟨hlow, hhigh⟩ := exactSum_bounds (@numbers_bounds values)
  have hpos : (0 : Int) < values.length := Int.natCast_pos.2 hsize
  rw [hlength] at hlow hhigh
  refine ⟨Int.le_tdiv_of_mul_le hpos hlow, ?_⟩
  have hdiv := Int.tdiv_le_tdiv hpos hhigh
  rwa [Int.mul_tdiv_cancel _ (Int.ne_of_gt hpos)] at hdiv

/-- Over fewer than 2³² rows, a result is what the function means, cut to 32
bits. An average or an extreme needs no cut; it needs a number in each row. -/
theorem result_exact {values : List (Option Int32)} {fn : AggregateFn} (hsize : 0 < values.length)
    (hsmall : values.length ≤ UInt32.size)
    (hlength : fn ≠ .count → (numbers values).length = values.length) :
    ∃ exact, fn.Means values.length (numbers values) exact ∧
      ((of values).result fn).toInt = nearest exact ∧
      (fn = .avg ∨ fn = .min ∨ fn = .max → ((of values).result fn).toInt = exact) := by
  have hcount := toInt_count_of hsmall
  have hsum := toInt_sum_of hsmall
  have hnumbers : fn ≠ .count → numbers values ≠ [] := fun hfn hnil => by
    rw [← hlength hfn, hnil] at hsize
    exact Nat.lt_irrefl _ hsize
  cases fn with
  | count =>
      exact ⟨_, rfl, (toInt_clamp _).trans (congrArg nearest hcount), nofun⟩
  | sum =>
      exact ⟨_, rfl, (toInt_clamp _).trans (congrArg nearest hsum), nofun⟩
  | avg =>
      obtain ⟨hlow, hhigh⟩ := tdiv_bounds (hlength nofun) hsize
      have hone : ¬(of values).count < 1 := by
        rw [Int64.lt_iff_toInt_lt, hcount, show (1 : Int64).toInt = 1 from rfl]
        omega
      have hword : ((of values).sum / (of values).count).toInt
          = (exactSum (numbers values)).tdiv values.length := by
        rw [Int64.toInt_div, hsum, hcount]
        exact bmod_of_small (Int.le_trans (by decide) hlow) (Int.le_trans hhigh (by decide))
      have hresult : ((of values).result .avg).toInt
          = nearest ((exactSum (numbers values)).tdiv values.length) := by
        simp only [result, if_neg hone, toInt_clamp, hword]
      exact ⟨_, rfl, hresult, fun _ => hresult.trans (nearest_eq hlow hhigh)⟩
  | min =>
      have hmem := min_mem (hnumbers nofun)
      obtain ⟨hlow, hhigh⟩ := numbers_bounds _ hmem
      have hresult : ((of values).result .min).toInt = nearest (of values).min.toInt := by
        simp only [result, toInt_clamp, Int32.toInt_toInt64]
      exact ⟨_, ⟨hmem, (min_of values).2⟩, hresult, fun _ => hresult.trans (nearest_eq hlow hhigh)⟩
  | max =>
      have hmem := max_mem (hnumbers nofun)
      obtain ⟨hlow, hhigh⟩ := numbers_bounds _ hmem
      have hresult : ((of values).result .max).toInt = nearest (of values).max.toInt := by
        simp only [result, toInt_clamp, Int32.toInt_toInt64]
      exact ⟨_, ⟨hmem, (max_of values).2⟩, hresult, fun _ => hresult.trans (nearest_eq hlow hhigh)⟩

end Accumulator

end HeapStore
