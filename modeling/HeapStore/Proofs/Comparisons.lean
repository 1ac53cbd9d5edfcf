import HeapStore.Proofs.Pulling
import HeapStore.Proofs.Utf8Order

/-!
# What comparisons mean

All comparisons but `LIKE` look at one order of two fields (`Field.compare?`), which only
fields of one type have. On integers it is the order of the numbers, on strings that of
their bytes, which is that of their characters (`Text.encode_lt_iff`). `LIKE` finds a part
of a string, in its characters and in its bytes alike (`Text.encode_isInfix_iff`).

A comparison and its complement exclude each other, and of two fields of one type one of
them holds (`CompareOp.apply_complement`). So a filter and the one with the complement
share out the rows that have the field with the operand's type (`Dealt`), and no others.

Headline: `comparisons_agree_with_one_order`.
-/

namespace HeapStore

/-! ## The order of two fields -/

namespace Field

variable {a b c : Field}

theorem isSome_compare?_iff : (a.compare? b).isSome ↔ a.type = b.type := by
  cases a <;> cases b <;> simp [compare?, type]

theorem exists_compare? (h : a.type = b.type) : ∃ order, a.compare? b = some order :=
  Option.isSome_iff_exists.1 (isSome_compare?_iff.2 h)

theorem compare?_of_type_ne (h : a.type ≠ b.type) : a.compare? b = none :=
  Option.not_isSome_iff_eq_none.1 (mt isSome_compare?_iff.1 h)

theorem compare?_swap (a b : Field) : b.compare? a = (a.compare? b).map Ordering.swap := by
  cases a <;> cases b
  case int.int m n => exact congrArg some Std.OrientedCmp.eq_swap
  case string.string s t => exact congrArg some Std.OrientedCmp.eq_swap
  case int.string => rfl
  case string.int => rfl

theorem compare?_eq_eq_iff : a.compare? b = some .eq ↔ a = b := by
  cases a <;> cases b <;> simp [compare?]

theorem compare?_lt_trans (hab : a.compare? b = some .lt) (hbc : b.compare? c = some .lt) :
    a.compare? c = some .lt := by
  cases a <;> cases b <;> cases c <;> simp only [compare?, Option.some.injEq, reduceCtorEq] at *
  case int.int.int => exact Std.TransCmp.lt_trans hab hbc
  case string.string.string => exact Std.TransCmp.lt_trans hab hbc

end Field

/-! ## Comparisons -/

namespace CompareOp

variable {op other : CompareOp} {a b c : Field}

/-- The comparison that holds of two fields of one type if this one does not. -/
def complement? : CompareOp → Option CompareOp
  | .equals => some .notEquals
  | .notEquals => some .equals
  | .less => some .greaterOrEqual
  | .greaterOrEqual => some .less
  | .greater => some .lessOrEqual
  | .lessOrEqual => some .greater
  | .like => none

theorem apply_eq (hop : op ≠ .like) :
    op.apply a b = ((a.compare? b).map op.allows).getD false := by
  cases op <;> simp only [apply]
  case like => exact absurd rfl hop
  all_goals cases a.compare? b <;> rfl

theorem apply_of_type_ne (h : a.type ≠ b.type) (op : CompareOp) : op.apply a b = false := by
  by_cases hop : op = .like
  · subst hop
    cases a <;> cases b <;> first | exact absurd rfl h | rfl
  · rw [apply_eq hop, Field.compare?_of_type_ne h]
    rfl

theorem allows_complement (h : op.complement? = some other) (order : Ordering) :
    other.allows order = !op.allows order := by
  cases op <;> cases h <;> cases order <;> rfl

theorem apply_complement (hop : op.complement? = some other) (h : a.type = b.type) :
    other.apply a b = !op.apply a b := by
  have hne : op ≠ .like ∧ other ≠ .like := by cases op <;> cases hop <;> decide
  obtain ⟨order, horder⟩ := Field.exists_compare? h
  rw [apply_eq hne.1, apply_eq hne.2, horder]
  exact allows_complement hop order

/-- The one of `<`, `=` and `>` that an order allows. -/
def sign : Ordering → CompareOp
  | .lt => .less
  | .eq => .equals
  | .gt => .greater

/-- The comparisons of two fields of one type are those of an order. -/
structure Consistent (a b : Field) : Prop where
  one : ∃! op, op ∈ [less, equals, greater] ∧ op.apply a b = true
  equals_iff : equals.apply a b = true ↔ a = b
  greater_eq : greater.apply b a = less.apply a b
  lessOrEqual_eq : lessOrEqual.apply a b = (less.apply a b || equals.apply a b)
  greaterOrEqual_eq : greaterOrEqual.apply a b = (greater.apply a b || equals.apply a b)
  notEquals_eq : notEquals.apply a b = !equals.apply a b

theorem consistent (h : a.type = b.type) : Consistent a b := by
  obtain ⟨order, horder⟩ := Field.exists_compare? h
  have hback : b.compare? a = some order.swap := by rw [Field.compare?_swap, horder]; rfl
  have hequals : order = .eq ↔ a = b := by
    rw [← Field.compare?_eq_eq_iff, horder, Option.some.injEq]
  constructor
  case one =>
    have hmem : sign order ∈ [less, equals, greater] := by cases order <;> decide
    have hone : ∀ op ∈ [less, equals, greater], op.apply a b = true ↔ op = sign order := by
      cases order <;> simp [apply_eq, horder, allows, sign]
    exact ⟨sign order, ⟨hmem, (hone _ hmem).2 rfl⟩, fun op hop => (hone op hop.1).1 hop.2⟩
  case equals_iff =>
    rw [← hequals]
    cases order <;> simp [apply_eq, horder, allows]
  case greater_eq => cases order <;> simp [apply_eq, horder, hback, allows]
  case lessOrEqual_eq => cases order <;> simp [apply_eq, horder, allows]
  case greaterOrEqual_eq => cases order <;> simp [apply_eq, horder, allows]
  case notEquals_eq => cases order <;> simp [apply_eq, horder, allows]

theorem less_iff : less.apply a b = true ↔ a.compare? b = some .lt := by
  rw [apply_eq (by decide)]
  cases a.compare? b <;> simp [allows]

theorem less_trans (hab : less.apply a b = true) (hbc : less.apply b c = true) :
    less.apply a c = true := by
  rw [less_iff] at *
  exact Field.compare?_lt_trans hab hbc

theorem less_int_iff (m n : Int32) :
    less.apply (.int m) (.int n) = true ↔ m.toInt < n.toInt := by
  rw [less_iff, Field.compare?, Option.some.injEq, Std.compare_eq_lt, Int32.lt_iff_toInt_lt]

theorem less_string_iff (s t : String) :
    less.apply (.string s) (.string t) = true ↔ s.toList < t.toList := by
  rw [less_iff, Field.compare?, Option.some.injEq, ← String.lt_iff]
  exact compareOfLessAndEq_eq_lt

theorem like_string_iff (s t : String) :
    like.apply (.string s) (.string t) = true ↔ t.toList <:+: s.toList :=
  Text.occursIn_iff

end CompareOp

/-! ## Filters with complementary comparisons -/

section Dealt

variable {α : Type}

/-- The items are dealt out to two lists, which keep their order. -/
inductive Dealt : List α → List α → List α → Prop where
  | nil : Dealt [] [] []
  | first {item : α} {items left right : List α} : Dealt items left right →
      Dealt (item :: items) (item :: left) right
  | second {item : α} {items left right : List α} : Dealt items left right →
      Dealt (item :: items) left (item :: right)

theorem dealt_filter (keep : α → Bool) (items : List α) :
    Dealt items (items.filter keep) (items.filter fun item => !keep item) := by
  induction items with
  | nil => exact .nil
  | cons item items ih =>
      cases hkeep : keep item with
      | true => simpa [hkeep] using Dealt.first ih
      | false => simpa [hkeep] using Dealt.second ih

theorem Dealt.mem_iff {item : α} {items left right : List α} (h : Dealt items left right) :
    item ∈ items ↔ item ∈ left ∨ item ∈ right := by
  induction h with
  | nil => simp
  | first _ ih => simp only [List.mem_cons, ih, or_assoc]
  | second _ ih => simp only [List.mem_cons, ih, or_left_comm]

end Dealt

/-- The tuple has the field, and it is of the type. -/
def Tuple.hasField (i : Nat) (type : FieldType) (tuple : Tuple) : Bool :=
  (tuple.field? i).map Field.type = some type

namespace Predicate

variable {i : Nat} {op other : CompareOp} {operand : Field} {tuple : Tuple}

theorem hasField_of_holds (h : holds ⟨i, op, operand⟩ tuple = true) :
    tuple.hasField i operand.type = true := by
  rw [holds] at h
  cases hfield : tuple.field? i with
  | none => simp [hfield] at h
  | some field =>
      have htype : field.type = operand.type := by
        by_contra hne
        have hfalse : op.apply field operand = false := CompareOp.apply_of_type_ne hne op
        simp [hfield, hfalse] at h
      simp [Tuple.hasField, hfield, htype]

theorem holds_complement (hop : op.complement? = some other)
    (h : tuple.hasField i operand.type = true) :
    holds ⟨i, other, operand⟩ tuple = !holds ⟨i, op, operand⟩ tuple := by
  rw [holds, holds]
  cases hfield : tuple.field? i with
  | none => simp [Tuple.hasField, hfield] at h
  | some field =>
      have htype : field.type = operand.type := by simpa [Tuple.hasField, hfield] using h
      exact CompareOp.apply_complement hop htype

/-- The rows that satisfy a comparison are among those that have the field. -/
theorem filter_holds (predicate : Predicate) (rows : List Tuple) :
    (rows.filter (Tuple.hasField predicate.field predicate.operand.type)).filter predicate.holds
      = rows.filter predicate.holds := by
  rw [List.filter_filter]
  refine List.filter_congr fun row _ => ?_
  cases hholds : predicate.holds row with
  | false => rfl
  | true => exact hasField_of_holds hholds

/-- Of the rows that have the field those that do not satisfy a comparison satisfy its
complement. -/
theorem dealt_holds (hop : op.complement? = some other) (i : Nat) (operand : Field)
    (rows : List Tuple) : Dealt (rows.filter (Tuple.hasField i operand.type))
      (rows.filter (holds ⟨i, op, operand⟩)) (rows.filter (holds ⟨i, other, operand⟩)) := by
  have hrest : (rows.filter (Tuple.hasField i operand.type)).filter (holds ⟨i, other, operand⟩)
      = (rows.filter (Tuple.hasField i operand.type)).filter
          fun row => !holds ⟨i, op, operand⟩ row :=
    List.filter_congr fun row hrow => holds_complement hop (List.mem_filter.1 hrow).2
  rw [← filter_holds ⟨i, op, operand⟩, ← filter_holds ⟨i, other, operand⟩, hrest]
  exact dealt_filter _ _

end Predicate

namespace Pipeline

open Operator

/-- Asked again and again, the stack yields the rows, and then nothing. -/
def Yields (stack : Pipeline) (rows : List Tuple) : Prop :=
  ∀ n, (pulls n stack).1 = (List.range n).map fun k => rows[k]?.map .ok

theorem yields_filter (predicate : Predicate) (rows : List Tuple) :
    Yields (.filter predicate (.source (rows.map .ok))) (rows.filter predicate.holds) := by
  intro n
  have hleft : left (.filter predicate (.source (rows.map .ok)))
      = (rows.filter predicate.holds).map .ok := by
    rw [left, left, List.filter_map]
    rfl
  rw [(pulls_eq n _).1, hleft]
  exact List.map_congr_left fun k _ => List.getElem?_map

end Pipeline

/-- Of two fields of one type one of `<`, `=` and `>` holds, `<` is an order, and the other
comparisons are made of these. Numbers are compared as numbers, and strings by their bytes,
which is by the code points of their characters. `LIKE` tells whether a string is part of
another, in characters or in bytes, and whether two numbers are equal. Fields of different
types satisfy no comparison.

Filters with complementary comparisons share out the rows that have the field with the
operand's type, and keep their order. Neither yields another row. -/
theorem comparisons_agree_with_one_order :
    (∀ a b : Field, a.type = b.type → CompareOp.Consistent a b) ∧
    (∀ a b c : Field, CompareOp.less.apply a b = true → CompareOp.less.apply b c = true →
      CompareOp.less.apply a c = true) ∧
    (∀ m n : Int32,
      (CompareOp.less.apply (.int m) (.int n) = true ↔ m.toInt < n.toInt) ∧
      CompareOp.like.apply (.int m) (.int n) = CompareOp.equals.apply (.int m) (.int n)) ∧
    (∀ s t : String,
      (CompareOp.less.apply (.string s) (.string t) = true ↔ Text.utf8 s < Text.utf8 t) ∧
      (CompareOp.less.apply (.string s) (.string t) = true ↔
        s.toList.map Char.toNat < t.toList.map Char.toNat) ∧
      (CompareOp.like.apply (.string s) (.string t) = true ↔ t.toList <:+: s.toList) ∧
      (CompareOp.like.apply (.string s) (.string t) = true ↔ Text.utf8 t <:+: Text.utf8 s) ∧
      CompareOp.like.apply (.string s) (.string "") = true) ∧
    (∀ (op : CompareOp) (a b : Field), a.type ≠ b.type → op.apply a b = false) ∧
    (∀ (op other : CompareOp), op.complement? = some other →
      ∀ (i : Nat) (operand : Field) (rows : List Tuple), ∃ kept rest : List Tuple,
        Pipeline.Yields (.filter ⟨i, op, operand⟩ (.source (rows.map .ok))) kept ∧
        Pipeline.Yields (.filter ⟨i, other, operand⟩ (.source (rows.map .ok))) rest ∧
        Dealt (rows.filter (Tuple.hasField i operand.type)) kept rest ∧
        ∀ row, row ∈ kept ∨ row ∈ rest → row.hasField i operand.type = true) := by
  refine ⟨fun a b => CompareOp.consistent, fun a b c => CompareOp.less_trans,
    fun m n => ⟨CompareOp.less_int_iff m n, rfl⟩, fun s t => ?_, fun op a b hne =>
      CompareOp.apply_of_type_ne hne op, fun op other hop i operand rows => ?_⟩
  · have hlike := CompareOp.like_string_iff s t
    have hless := CompareOp.less_string_iff s t
    refine ⟨hless.trans Text.encode_lt_iff.symm, hless.trans Text.map_toNat_lt_iff.symm, hlike,
      hlike.trans Text.encode_isInfix_iff.symm, ?_⟩
    exact (CompareOp.like_string_iff s "").2 List.nil_infix
  · have hdealt := Predicate.dealt_holds hop i operand rows
    refine ⟨_, _, Pipeline.yields_filter _ rows, Pipeline.yields_filter _ rows, hdealt,
      fun row hrow => ?_⟩
    exact (List.mem_filter.1 (hdealt.mem_iff.2 hrow)).2

/-- A row of these fields. -/
def Tuple.plain (fields : List Field) : Tuple where
  schema := .unnamed (fields.map Field.type)
  fields
  record := none
  conforms := by simp [Schema.unnamed, Schema.types]

/-- A string of one byte is less than one of two bytes. Of five rows, three have an
integer to be compared. -/
theorem comparisons_agree_with_one_order_mixedRows :
    (∃! op, op ∈ [CompareOp.less, .equals, .greater] ∧
      op.apply (.string "z") (.string "é") = true) ∧
    CompareOp.less.apply (.string "z") (.string "é") = true ∧
    ∃ kept rest : List Tuple,
      let rows := [[.int 3], [.string "x"], [.int 1], [], [.int 2]].map Tuple.plain
      Pipeline.Yields (.filter ⟨0, .less, .int 3⟩ (.source (rows.map .ok))) kept ∧
      Pipeline.Yields (.filter ⟨0, .greaterOrEqual, .int 3⟩ (.source (rows.map .ok))) rest ∧
      Dealt ([[.int 3], [.int 1], [.int 2]].map Tuple.plain) kept rest := by
  obtain ⟨hconsistent, -, -, hstrings, -, hfilters⟩ := comparisons_agree_with_one_order
  obtain ⟨kept, rest, hkept, hrest, hdealt, -⟩ := hfilters .less .greaterOrEqual rfl 0 (.int 3)
    ([[.int 3], [.string "x"], [.int 1], [], [.int 2]].map Tuple.plain)
  exact ⟨(hconsistent (.string "z") (.string "é") rfl).one,
    (hstrings "z" "é").1.2 (by decide +kernel), kept, rest, hkept, hrest, hdealt⟩

end HeapStore
