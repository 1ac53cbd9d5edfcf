import HeapStore.Proofs.Slots
import HeapStore.Proofs.StoredPages

/-!
# Histories

What should be in the files after a run of calls, told without pages and
pools. The files hold tuples at addresses (`Rows`). A successful insert or
delete is a `Change` of one address, which waits until its transaction
commits; then its changes come behind those committed before
(`History.note`). `Rows.replay` applies changes one after the other.
-/

namespace HeapStore

/-! ## Rows and changes -/

/-- The tuples at their addresses. -/
abbrev Rows := RecordId → Option Tuple

/-- What an address holds from now on. -/
structure Change where
  record : RecordId
  value : Option Tuple

namespace Rows

def apply (rows : Rows) (change : Change) : Rows :=
  fun record => if record = change.record then change.value else rows record

def replay (rows : Rows) (changes : List Change) : Rows := changes.foldl apply rows

variable {rows rows' : Rows} {record : RecordId}

theorem replay_append (rows : Rows) (changes more : List Change) :
    rows.replay (changes ++ more) = (rows.replay changes).replay more :=
  List.foldl_append

theorem replay_concat (rows : Rows) (changes : List Change) (change : Change) :
    rows.replay (changes ++ [change]) = (rows.replay changes).apply change :=
  replay_append rows changes [change]

/-- An address does not depend on what others hold. -/
theorem replay_congr (h : rows record = rows' record) (changes : List Change) :
    rows.replay changes record = rows'.replay changes record := by
  induction changes generalizing rows rows' with
  | nil => exact h
  | cons change changes ih =>
      refine ih ?_
      rw [apply, apply]
      split
      · rfl
      · exact h

theorem replay_of_not_mem (rows : Rows) {changes : List Change}
    (h : ∀ change ∈ changes, change.record ≠ record) :
    rows.replay changes record = rows record := by
  induction changes generalizing rows with
  | nil => rfl
  | cons change changes ih =>
      have hrest := ih (rows.apply change) fun c hc => h c (List.mem_cons_of_mem _ hc)
      refine hrest.trans ?_
      rw [apply, if_neg (h change List.mem_cons_self).symm]

end Rows

/-- The rows in the files. -/
def Engine.rows (engine : Engine) : Rows :=
  fun record => (engine.stored? record.page).bind fun page => page.slot? record.slot

/-! ## Histories -/

/-- The changes of a run, as far as they last. -/
structure History where
  /-- Changes of transactions that have not ended, in the order in which
  they were made. -/
  pending : TxnId → List Change
  /-- Changes of transactions that have committed, in that order. -/
  committed : List Change

/-- A tuple as it is read back from an address where it is stored. -/
def Catalog.reread (catalog : Catalog) (record : RecordId) (tuple : Tuple) : Tuple :=
  match catalog.file record.page.table with
  | .ok file => ((Tuple.decode? file.schema tuple.encode).getD tuple).withRecord (some record)
  | .error _ => tuple

namespace History

def empty : History := ⟨fun _ => [], []⟩

/-- A transaction has made a change. -/
def add (history : History) (txn : TxnId) (change : Change) : History :=
  { history with
    pending := fun t => if t = txn then history.pending t ++ [change] else history.pending t }

/-- The changes of a transaction are forgotten. -/
def drop (history : History) (txn : TxnId) : History :=
  { history with pending := fun t => if t = txn then [] else history.pending t }

/-- The changes of a transaction last. -/
def commit (history : History) (txn : TxnId) : History :=
  { history.drop txn with committed := history.committed ++ history.pending txn }

/-- The history after a call, by its result. -/
def note (history : History) (catalog : Catalog) (call : Call)
    (result : EStateM.Result Failure Engine Answer) : History :=
  match call, result with
  | .insert txn _ _, .ok (.tuple tuple) _ =>
    match tuple.record with
    | some record => history.add txn ⟨record, some (catalog.reread record tuple)⟩
    | none => history
  | .delete txn (some record), .ok _ _ => history.add txn ⟨record, none⟩
  | .commit txn, .ok _ _ => history.commit txn
  | .commit txn, .error _ _ => history.drop txn
  | .abort txn, _ => history.drop txn
  | _, _ => history

/-- The history of a run that goes on from an engine. -/
def noteAll (history : History) (engine : Engine) : List Call → History
  | [] => history
  | call :: calls =>
    (history.note engine.catalog call (call.run engine)).noteAll (call.after engine) calls

/-- The history of a run. -/
def ofCalls (calls : List Call) (start : Engine) : History := empty.noteAll start calls

end History

/-- Whether a call is part of the work of transactions. The others are for
administration: they write or drop pages, or give locks back, behind the
transactions' backs. -/
def Call.isTransactional : Call → Bool
  | .flushPage _ | .flushPages _ | .flushAll | .discard _ | .release _ _ => false
  | _ => true

/-! ## All addresses -/

namespace RecordId

/-- The addresses of a table, by page and then by slot. -/
def ofTable (table : TableId) : List RecordId :=
  (List.range UInt32.size).flatMap fun page =>
    (List.range UInt16.size).map fun slot => ⟨⟨table, page.toUInt32⟩, slot.toUInt16⟩

variable {table : TableId}

theorem mem_ofTable {record : RecordId} : record ∈ ofTable table ↔ record.page.table = table := by
  simp only [ofTable, List.mem_flatMap, List.mem_map, List.mem_range]
  constructor
  · rintro ⟨page, -, slot, -, rfl⟩
    rfl
  · rintro rfl
    refine ⟨_, record.page.page.toNat_lt, _, record.slot.toNat_lt, ?_⟩
    simp [Nat.toUInt32, Nat.toUInt16]

/-- The list names each address once, in ascending order. -/
theorem ascending_ofTable : (ofTable table).Pairwise fun a b =>
    a.page.page < b.page.page ∨ a.page.page = b.page.page ∧ a.slot < b.slot := by
  rw [ofTable, List.pairwise_flatMap]
  constructor
  · intro page _
    rw [List.pairwise_map]
    refine List.pairwise_lt_range.imp_of_mem fun {s s'} hs hs' hlt => .inr ⟨rfl, ?_⟩
    rw [List.mem_range] at hs hs'
    rwa [UInt16.lt_iff_toNat_lt, UInt16.toNat_ofNat_of_lt' hs, UInt16.toNat_ofNat_of_lt' hs']
  · refine List.pairwise_lt_range.imp_of_mem fun {n n'} hn hn' hlt => ?_
    rw [List.mem_range] at hn hn'
    intro a ha b hb
    obtain ⟨slot, -, rfl⟩ := List.mem_map.1 ha
    obtain ⟨slot', -, rfl⟩ := List.mem_map.1 hb
    refine .inl (UInt32.lt_iff_toNat_lt.2 ?_)
    rwa [UInt32.toNat_ofNat_of_lt' hn, UInt32.toNat_ofNat_of_lt' hn']

end RecordId

end HeapStore
