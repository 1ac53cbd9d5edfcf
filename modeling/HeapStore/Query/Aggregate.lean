import HeapStore.Tuple

/-!
# Aggregates

An aggregate sums up one field of its input, group by group: it yields
one row per group, in the order in which the groups were first seen. A
row is the group's value and the result, or the result alone when there
is no grouping; then all rows are one group. No rows give no groups.

The totals of a group are kept in words (`Accumulator`), and a result
beyond 32 bits is cut to the nearest value that fits.

`Aggregate.make` checks the request against the schema of the input: all
functions but `count` need an integer field. Since rows need not keep what
that schema promises, each is checked again (`Aggregate.refuses`).
-/

namespace HeapStore

/-! ## Totals -/

/-- The running totals of one group. -/
structure Accumulator where
  count : Int64
  sum : Int64
  min : Int32
  max : Int32
deriving DecidableEq, Repr

namespace Accumulator

/-- The totals of no rows. The extremes start at the far ends, so that
the first value replaces both. -/
def empty : Accumulator :=
  { count := 0, sum := 0, min := Int32.maxValue, max := Int32.minValue }

/-- Counts a row, and adds its value if it has one. -/
def add (totals : Accumulator) (value : Option Int32) : Accumulator :=
  match value with
  | none => { totals with count := totals.count + 1 }
  | some value =>
    { count := totals.count + 1
      sum := totals.sum + value.toInt64
      min := if value < totals.min then value else totals.min
      max := if totals.max < value then value else totals.max }

/-- The nearest number of 32 bits. -/
def clamp (value : Int64) : Int32 :=
  if value < Int32.minValue.toInt64 then Int32.minValue
  else if Int32.maxValue.toInt64 < value then Int32.maxValue
  else value.toInt32

/-- The result of a function over the rows added so far. -/
def result (totals : Accumulator) (fn : AggregateFn) : Int32 :=
  clamp (match fn with
    | .count => totals.count
    | .sum => totals.sum
    | .avg => totals.sum / (if totals.count < 1 then 1 else totals.count)
    | .min => totals.min.toInt64
    | .max => totals.max.toInt64)

end Accumulator

/-! ## Groups -/

/-- Groups of rows, in the order in which they were first seen. The key
is the group's value, or nothing when there is no grouping. -/
abbrev Groups := List (Option Field × Accumulator)

namespace Groups

/-- Adds a row to the group with its key, or to a new group behind the
others. -/
def add (groups : Groups) (key : Option Field) (value : Option Int32) : Groups :=
  match groups with
  | [] => [(key, Accumulator.empty.add value)]
  | (k, totals) :: rest =>
    if k = key then (k, totals.add value) :: rest
    else (k, totals) :: add rest key value

end Groups

/-! ## Aggregates -/

/-- A checked request for an aggregate. -/
structure Aggregate where
  field : Nat
  group : Option Nat
  fn : AggregateFn
  /-- The schema of the rows it yields. -/
  output : Schema
deriving DecidableEq, Repr

namespace Aggregate

/-- The name of the result's column. -/
def columnName (fn : AggregateFn) (name : Option String) : String :=
  match name with
  | some name => fn.text ++ "(" ++ name ++ ")"
  | none => fn.text

/-- The column that shows a group's value. -/
def groupColumn (input : Schema) (group : Nat) : Except Error Column :=
  match input.columns[group]? with
  | some column => .ok column
  | none => .error (.schemaMismatch (.noGroupField group))

/-- Checks a request against the schema of the input. -/
def make (input : Schema) (field : Nat) (group : Option Nat) (fn : AggregateFn) :
    Except Error Aggregate :=
  match input.columns[field]? with
  | none => .error (.schemaMismatch (.noAggregateField field))
  | some column =>
    if column.type ≠ .int ∧ fn ≠ .count then
      .error (.schemaMismatch (.needsInt fn field column.type))
    else
      let result : Column := ⟨.int, some (columnName fn column.name)⟩
      match group with
      | none => .ok { field, group, fn, output := ⟨[result]⟩ }
      | some i =>
        (groupColumn input i).map fun column =>
          { field, group, fn, output := ⟨[column, result]⟩ }

/-- The key of the group a row belongs to. -/
def keyOf (aggregate : Aggregate) (tuple : Tuple) : Option Field :=
  aggregate.group.bind tuple.field?

/-- The value that a row adds to its group. -/
def valueOf (aggregate : Aggregate) (tuple : Tuple) : Option Int32 :=
  (tuple.field? aggregate.field).bind Field.asInt?

/-- Why a row cannot be aggregated: it lacks the group's field or the
aggregated one, or the latter is no integer where one is needed. -/
def refuses (aggregate : Aggregate) (tuple : Tuple) : Option Error :=
  match aggregate.group.filter (tuple.fields.length ≤ ·) with
  | some group => some (.schemaMismatch (.noField group))
  | none =>
    match tuple.field? aggregate.field with
    | none => some (.schemaMismatch (.noField aggregate.field))
    | some field =>
      if field.asInt?.isNone ∧ aggregate.fn ≠ .count then
        some (.schemaMismatch (.notInt aggregate.field))
      else none

/-- The groups of the given rows. -/
def groups (aggregate : Aggregate) (tuples : List Tuple) : Groups :=
  tuples.foldl (fun groups tuple => groups.add (aggregate.keyOf tuple) (aggregate.valueOf tuple)) []

/-- The row of one group. -/
def row (aggregate : Aggregate) (key : Option Field) (totals : Accumulator) :
    Except Error Tuple :=
  Tuple.make aggregate.output (key.toList ++ [.int (totals.result aggregate.fn)])

/-- The rows of all groups. -/
def rows (aggregate : Aggregate) (tuples : List Tuple) : Except Error (List Tuple) :=
  (aggregate.groups tuples).mapM fun (key, totals) => aggregate.row key totals

end Aggregate

end HeapStore
