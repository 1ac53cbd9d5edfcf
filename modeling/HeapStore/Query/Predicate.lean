import HeapStore.Tuple

/-!
# Predicates

A predicate compares one field of a tuple with a constant. Fields of
different types never compare, so every comparison of them is false, also
"not equal". `LIKE` asks whether the right string occurs in the left one;
on integers it is equality.

Main statement: `Text.occursIn_iff` (the search finds exactly the
contiguous parts).
-/

namespace HeapStore

namespace Text

/-- Whether `needle` occurs in a text as a contiguous part. -/
def occursIn (needle : List Char) : List Char → Bool
  | [] => needle.isEmpty
  | c :: rest => needle.isPrefixOf (c :: rest) || occursIn needle rest

theorem occursIn_iff {needle text : List Char} :
    occursIn needle text = true ↔ needle <:+: text := by
  induction text with
  | nil => simp [occursIn]
  | cons c rest ih => simp [occursIn, ih, List.infix_cons_iff]

end Text

/-- A comparison of two fields. -/
inductive CompareOp where
  | equals
  | greater
  | less
  | lessOrEqual
  | greaterOrEqual
  | like
  | notEquals
deriving DecidableEq, Repr

namespace CompareOp

/-- The comparisons. -/
def all : List CompareOp :=
  [.equals, .greater, .less, .lessOrEqual, .greaterOrEqual, .like, .notEquals]

/-- How a comparison is written. -/
def text : CompareOp → String
  | .equals => "="
  | .greater => ">"
  | .less => "<"
  | .lessOrEqual => "<="
  | .greaterOrEqual => ">="
  | .like => "LIKE"
  | .notEquals => "<>"

/-- Whether two fields in the given order satisfy a comparison. -/
def allows : CompareOp → Ordering → Bool
  | .equals, order | .like, order => order = .eq
  | .notEquals, order => order ≠ .eq
  | .greater, order => order = .gt
  | .less, order => order = .lt
  | .lessOrEqual, order => order ≠ .gt
  | .greaterOrEqual, order => order ≠ .lt

/-- Whether `left op right` holds. -/
def apply (op : CompareOp) (left right : Field) : Bool :=
  match op, left, right with
  | .like, .string left, .string right => Text.occursIn right.toList left.toList
  | op, left, right =>
    match left.compare? right with
    | some order => op.allows order
    | none => false

end CompareOp

/-- A comparison of one field of a tuple with a constant. -/
structure Predicate where
  field : Nat
  op : CompareOp
  operand : Field
deriving DecidableEq, Repr

namespace Predicate

/-- Whether a tuple satisfies the predicate. One without the field does
not. -/
def holds (predicate : Predicate) (tuple : Tuple) : Bool :=
  match tuple.field? predicate.field with
  | some field => predicate.op.apply field predicate.operand
  | none => false

/-- How a predicate is shown. -/
def text (predicate : Predicate) : String :=
  "$" ++ toString predicate.field ++ " " ++ predicate.op.text ++ " " ++ predicate.operand.text

end Predicate

end HeapStore
