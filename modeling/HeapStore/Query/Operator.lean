import HeapStore.Query.Aggregate
import HeapStore.Query.Predicate

/-!
# Operators

A query is a stack of operators over a source. Items - tuples, and errors
met on the way - are pulled from the top, as many as are asked for: a
request names the item it wants to stop at, and gets all items up to and
including the first such one (`takeUntil`). Asking for anything yields the
next item, asking for nothing yields all that is left.

- A filter passes errors on, and the tuples that satisfy its predicate.
- An aggregate draws its input when it is first asked, up to the first
  item it cannot use; that item, an error, is then all it ever yields.
  Otherwise it yields its rows, and can be rewound to the first.

What a source is, and in which surroundings it yields its items, is open
(`Source`): given rows are one, a scan of a table is another.

Main statement: `cut_append` (cutting a list at an item loses nothing).
-/

namespace HeapStore

/-- What operators pass on: a tuple, or an error in its place. -/
abbrev Item := Except Error Tuple

/-- The tuples among items that are all tuples. -/
theorem Item.filterMap_toOption (tuples : List Tuple) :
    (tuples.map Except.ok : List Item).filterMap Except.toOption = tuples := by
  rw [List.filterMap_map]
  exact List.filterMap_some

theorem Item.mem_filterMap_toOption {items : List Item} {tuple : Tuple} :
    tuple ∈ items.filterMap Except.toOption ↔ .ok tuple ∈ items := by
  rw [List.mem_filterMap]
  constructor
  · rintro ⟨cause | other, hitem, htuple⟩
    · cases htuple
    · cases htuple
      exact hitem
  · exact fun hitem => ⟨_, hitem, rfl⟩

/-! ## Cutting a list -/

/-- The items up to and including the first that `stop` holds of, and
those behind it; or all items, and nothing, if there is none. -/
def cut {α : Type} (stop : α → Bool) : List α → List α × Option (List α)
  | [] => ([], none)
  | a :: rest =>
    if stop a then ([a], some rest)
    else (a :: (cut stop rest).1, (cut stop rest).2)

theorem cut_append {α : Type} (stop : α → Bool) (items : List α) :
    (cut stop items).1 ++ (cut stop items).2.getD [] = items := by
  induction items with
  | nil => rfl
  | cons a rest ih =>
    simp only [cut]
    split
    · rfl
    · simp [ih]

section

variable {α : Type} {stop : α → Bool} {items taken rest : List α}

theorem cut_eq_some (h : cut stop items = (taken, some rest)) :
    taken ++ rest = items ∧ ∃ item ∈ taken, stop item = true := by
  refine ⟨by simpa only [h, Option.getD_some] using cut_append stop items, ?_⟩
  induction items generalizing taken with
  | nil => cases h
  | cons item items ih =>
    simp only [cut] at h
    split at h
    · rename_i hstop
      cases h
      exact ⟨item, List.mem_singleton_self _, hstop⟩
    · obtain ⟨htaken, hrest⟩ := Prod.mk.inj h
      subst htaken
      obtain ⟨last, hmem, hstop⟩ := ih (Prod.ext rfl hrest)
      exact ⟨last, List.mem_cons_of_mem _ hmem, hstop⟩

theorem cut_eq_none (h : cut stop items = (taken, none)) : taken = items := by
  simpa only [h, Option.getD_none, List.append_nil] using cut_append stop items

end

/-! ## Sources -/

/-- Something that yields items, in the surroundings `m`. -/
class Source (m : Type → Type) (σ : Type) where
  /-- The items up to and including the first that `stop` holds of, or
  all of them, and the source as it is then. -/
  takeUntil : (stop : Item → Bool) → σ → m (List Item × σ)
  /-- The source from its start, if it can be started again. -/
  rewind? : σ → Option σ

/-- Given items are a source that can be read once. -/
instance : Source Id (List Item) where
  takeUntil stop items := pure ((cut stop items).1, (cut stop items).2.getD [])
  rewind? _ := none

/-! ## Operators -/

/-- A stack of operators over a source. -/
inductive Operator (σ : Type) where
  | source (input : σ)
  | filter (predicate : Predicate) (input : Operator σ)
  /-- An aggregate that has not drawn its input. -/
  | aggregate (spec : Aggregate) (input : Operator σ)
  /-- An aggregate with its rows, of which `taken` have been yielded. -/
  | grouped (spec : Aggregate) (rows : List Tuple) (taken : Nat)

namespace Operator

variable {m : Type → Type} {σ : Type}

/-- Whether a filter lets an item pass. -/
def passes (predicate : Predicate) : Item → Bool
  | .ok tuple => predicate.holds tuple
  | .error _ => true

/-- A usable item's tuple, or the error that the aggregate ends with. -/
def usable (spec : Aggregate) : Item → Except Error Tuple
  | .error cause => .error cause
  | .ok tuple =>
    match spec.refuses tuple with
    | some cause => .error cause
    | none => .ok tuple

/-- Whether an aggregate cannot use an item. -/
def unusable (spec : Aggregate) (item : Item) : Bool := !(usable spec item).isOk

/-- The rows of an aggregate over the given items. -/
def rowsOf (spec : Aggregate) (items : List Item) : Except Error (List Tuple) := do
  spec.rows (← items.mapM (usable spec))

/-- The rows not yielded yet, up to and including the first that `stop`
holds of. -/
def takeRows (stop : Item → Bool) (spec : Aggregate) (rows : List Tuple) (taken : Nat) :
    List Item × Operator σ :=
  let items := (cut stop ((rows.drop taken).map .ok)).1
  (items, .grouped spec rows (taken + items.length))

/-- The items up to and including the first that `stop` holds of, or all
that are left, and the stack as it is then. -/
def takeUntil [Monad m] [Source m σ] (stop : Item → Bool) :
    Operator σ → m (List Item × Operator σ)
  | .source input => do
    let (items, input) ← Source.takeUntil stop input
    return (items, .source input)
  | .filter predicate input => do
    let (items, input) ← takeUntil (fun item => passes predicate item && stop item) input
    return (items.filter (passes predicate), .filter predicate input)
  | .aggregate spec input => do
    let (items, _) ← takeUntil (unusable spec) input
    match rowsOf spec items with
    | .error cause => return ([.error cause], .grouped spec [] 0)
    | .ok rows => return takeRows stop spec rows 0
  | .grouped spec rows taken => return takeRows stop spec rows taken

/-- The next item, if there is one. -/
def next [Monad m] [Source m σ] (operator : Operator σ) : m (Option Item × Operator σ) := do
  let (items, operator) ← operator.takeUntil fun _ => true
  return (items.head?, operator)

/-- All items that are left. -/
def rest [Monad m] [Source m σ] (operator : Operator σ) : m (List Item × Operator σ) :=
  operator.takeUntil fun _ => false

/-- The stack from its start, if its top can be rewound: an aggregate
replays its rows, and a source, or a filter right above one, is as good as
the source. -/
def rewind? (m : Type → Type) [Source m σ] : Operator σ → Option (Operator σ)
  | .source input => (Source.rewind? m input).map .source
  | .filter predicate (.source input) =>
    (Source.rewind? m input).map fun input => .filter predicate (.source input)
  | .filter _ _ => none
  | .aggregate spec input => some (.aggregate spec input)
  | .grouped spec rows _ => some (.grouped spec rows 0)

/-- The stack without the filter on its top, if there is one. -/
def dropFilter : Operator σ → Operator σ
  | .filter _ input => input
  | operator => operator

end Operator

end HeapStore
