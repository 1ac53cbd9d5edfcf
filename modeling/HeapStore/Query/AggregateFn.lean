/-!
# Aggregate functions

The five ways in which a group of rows can be summed up.
-/

namespace HeapStore

/-- An aggregate function. `avg` is the integer average, truncated toward
zero. -/
inductive AggregateFn where
  | count
  | min
  | max
  | sum
  | avg
deriving DecidableEq, Repr

/-- The aggregate functions. -/
def AggregateFn.all : List AggregateFn := [.count, .min, .max, .sum, .avg]

/-- The name of an aggregate function, as column names and messages show
it. -/
def AggregateFn.text : AggregateFn → String
  | .count => "count"
  | .min => "min"
  | .max => "max"
  | .sum => "sum"
  | .avg => "avg"

end HeapStore
