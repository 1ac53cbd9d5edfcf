/-!
# Tables, pages, records and transactions

The identifiers of the engine. A table is known by a 32-bit number, a
page by its table and its position in the table's file, a record by its
page and slot. A transaction is known by a 64-bit number.

Pages are ordered by table, then by position; `PageId` and `TableId` are
keys of sorted maps, so their orders come with the instances that the map
library asks for.

The texts of identifiers appear in messages. A table's number means
little to a reader, so each text takes the way tables are named as a
parameter (`TableNaming`); `TableId.digits`, the plain number, is the
usual one.
-/

namespace HeapStore

/-- The identity of a table. -/
structure TableId where
  val : UInt32
deriving DecidableEq, Repr, Inhabited

/-- The identity of a transaction. -/
structure TxnId where
  val : UInt64
deriving DecidableEq, Repr, Inhabited

/-- The identity of a page: a position within one table's file. -/
structure PageId where
  table : TableId
  page : UInt32
deriving DecidableEq, Repr, Inhabited

/-- The durable address of a stored tuple: page and slot. -/
structure RecordId where
  page : PageId
  slot : UInt16
deriving DecidableEq, Repr, Inhabited

/-! ## Orders -/

instance : Ord TableId := ⟨compareOn TableId.val⟩

instance : Std.TransOrd TableId :=
  inferInstanceAs (Std.TransCmp (compareOn TableId.val))

instance : Std.LawfulEqOrd TableId where
  eq_of_compare {a b} h := by
    cases a; cases b
    exact congrArg TableId.mk (Std.LawfulEqOrd.eq_of_compare h)

instance : Ord TxnId := ⟨compareOn TxnId.val⟩

instance : Std.TransOrd TxnId :=
  inferInstanceAs (Std.TransCmp (compareOn TxnId.val))

instance : Std.LawfulEqOrd TxnId where
  eq_of_compare {a b} h := by
    cases a; cases b
    exact congrArg TxnId.mk (Std.LawfulEqOrd.eq_of_compare h)

instance : Ord PageId := ⟨compareLex (compareOn PageId.table) (compareOn PageId.page)⟩

instance : Std.TransOrd PageId :=
  inferInstanceAs (Std.TransCmp (compareLex (compareOn PageId.table) (compareOn PageId.page)))

instance : Std.LawfulEqOrd PageId where
  eq_of_compare {a b} h := by
    have h' : (compareOn PageId.table a b).then (compareOn PageId.page a b) = .eq := h
    rw [Ordering.then_eq_eq] at h'
    cases a; cases b
    exact congr (congrArg PageId.mk (Std.LawfulEqOrd.eq_of_compare h'.1))
      (Std.LawfulEqOrd.eq_of_compare h'.2)

/-! ## Texts -/

/-- How tables are named in texts. -/
abbrev TableNaming := TableId → String

/-- A table's number in decimal. -/
def TableId.digits (table : TableId) : String := toString table.val.toNat

/-- The text of a table, as messages show it. -/
def TableId.text (naming : TableNaming) (table : TableId) : String :=
  "TableId(" ++ naming table ++ ")"

/-- The text of a page, as messages show it. -/
def PageId.text (naming : TableNaming) (page : PageId) : String :=
  "PageId(" ++ naming page.table ++ ":" ++ toString page.page.toNat ++ ")"

/-- The text of a record's address, as messages show it. -/
def RecordId.text (naming : TableNaming) (record : RecordId) : String :=
  record.page.text naming ++ "#" ++ toString record.slot.toNat

/-- The text of a transaction, as messages show it. -/
def TxnId.text (txn : TxnId) : String := "Txn(" ++ toString txn.val.toNat ++ ")"

end HeapStore
