import HeapStore.Proofs.Readers

/-!
# Durability

After any calls on behalf of transactions the files hold what was in them at
first, with the changes of the transactions that have committed, in the order
of their commits: nothing of a transaction that is still running or has been
aborted. Whoever then starts over with a fresh pool and scans a table reads
just this, provided the pool has room for a page (`durability`).
-/

namespace HeapStore

open HeapStore.Action Engine

/-- A page with slots has bytes. -/
theorem HeapFile.size_ne_zero {file : HeapFile}
    (h : 1 ≤ Page.slotsPerPage file.pageSize file.schema) : file.pageSize ≠ 0 := by
  intro hzero
  rw [hzero, Page.slotsPerPage, Nat.zero_mul, Nat.zero_div] at h
  exact absurd h (by decide)

/-- A run starts in step with an empty history. -/
theorem Sound.of_empty {capacity : Nat} {start : Engine} (hreg : start.catalog.Registered)
    (hslots : ∀ id file, start.catalog.file id = .ok file →
      Page.slotsPerPage file.pageSize file.schema ≤ UInt16.size)
    (hstart : start.pool = .empty capacity) (hlog : start.log.Reliable) : Sound capacity start :=
  ⟨hreg, hslots, .of_empty hstart, .of_empty hstart, hlog⟩

/-- What a fresh pool shows after a run is what the files hold then. -/
theorem Sound.scan_ends {capacity : Nat} {table : TableId} {file : HeapFile} {count : UInt32}
    {e : Engine} (h : Sound capacity e) (hfile : e.catalog.file table = .ok file)
    (hcount : file.pageCount e.disk = .ok count) (capacity' : Nat) (txn : TxnId) :
    (Scan.start file txn).rest.Ends { e with pool := .empty capacity' } (fun answer _ => answer.1 =
        if capacity' = 0 then List.replicate count.toNat (.error .bufferPoolFull)
        else ((RecordId.ofTable table).filterMap e.rows).map .ok)
      (fun _ _ => False) :=
  scan_reads (e := { e with pool := .empty capacity' }) (.of_empty rfl) h.registered
    (fun _ _ hx => h.slotCount_stored hx) hfile hcount

/-- Durability and atomicity. A run of calls of transactions, with a log that
never refuses, on an empty pool over registered files whose pages have up to
2¹⁶ slots and which do not outgrow their page numbers: the rows in the files
are those of the start with the committed changes of the run. A scan through
a fresh pool yields the rows of its table in the order of their addresses;
only a pool without room for a single page refuses every page. -/
theorem durability {capacity : Nat} {start : Engine} (hreg : start.catalog.Registered)
    (hslots : ∀ id file, start.catalog.file id = .ok file →
      1 ≤ Page.slotsPerPage file.pageSize file.schema ∧
        Page.slotsPerPage file.pageSize file.schema ≤ UInt16.size)
    (hstart : start.pool = .empty capacity) (hlog : start.log.Reliable) (calls : List Call)
    (hcalls : ∀ call ∈ calls, call.isTransactional = true)
    (hwithin : Within start (Call.afterAll calls start)) :
    (Call.afterAll calls start).rows = start.rows.replay (History.ofCalls calls start).committed ∧
    ∀ capacity' table file txn, start.catalog.file table = .ok file →
      ∃ count items scan e',
        file.pageCount (Call.afterAll calls start).disk = .ok count ∧
        (Scan.start file txn).rest { Call.afterAll calls start with pool := .empty capacity' }
          = .ok (items, scan) e' ∧
        items = if capacity' = 0 then List.replicate count.toNat (.error .bufferPoolFull)
          else ((RecordId.ofTable table).filterMap
            (start.rows.replay (History.ofCalls calls start).committed)).map .ok := by
  have hsound : Sound capacity start :=
    .of_empty hreg (fun id file hfile => (hslots id file hfile).2) hstart hlog
  obtain ⟨htracks, hsound'⟩ := Tracks.run calls hsound hcalls hwithin (.of_empty hstart)
  have hrows := htracks.rows
  refine ⟨hrows, fun capacity' table file txn hfile => ?_⟩
  have hsize := HeapFile.size_ne_zero (hslots table file hfile).1
  have hcount : file.pageCount (Call.afterAll calls start).disk = .ok _ :=
    HeapFile.pageCount_eq hsize
  rw [← (Call.grows_all calls start).catalog] at hfile
  have hscan := hsound'.scan_ends hfile hcount capacity' txn
  cases hrun : (Scan.start file txn).rest
      { Call.afterAll calls start with pool := .empty capacity' } with
  | ok answer e' =>
      have hitems := hscan.of_ok hrun
      rw [hrows] at hitems
      exact ⟨_, answer.1, answer.2, e', hcount, rfl, hitems⟩
  | error failure e' => exact (hscan.of_error hrun).elim

/-- One transaction that has committed a row of the first table, and one that
is about to insert a row of the second. -/
def Call.oneCommit : List Call :=
  [.insert ⟨1⟩ ⟨0⟩ (.single 7), .insert ⟨2⟩ ⟨1⟩ (.single 8), .commit ⟨1⟩]

def Engine.oneCommitted : Engine := Call.afterAll Call.oneCommit (.twoTables 4 .none)

theorem durability_oneCommit :
    (Engine.oneCommitted.rows ⟨⟨⟨0⟩, 0⟩, 0⟩).map Tuple.fields
      = some [.int 7] ∧
    Engine.oneCommitted.rows ⟨⟨⟨1⟩, 0⟩, 0⟩ = none ∧
    ∃ scan e', (Scan.start (.pairs 0 "a") ⟨3⟩).rest
        { Engine.oneCommitted with pool := .empty 1 }
      = .ok (((RecordId.ofTable ⟨0⟩).filterMap Engine.oneCommitted.rows).map .ok, scan) e' := by
  have hwithin : Within (.twoTables 4 .none) .oneCommitted := by
    intro id file hfile _
    rcases file_twoTables hfile with ⟨rfl, rfl⟩ | ⟨rfl, rfl⟩ <;> decide +kernel
  have hslots : ∀ id file, (Engine.twoTables 4 .none).catalog.file id = .ok file →
      1 ≤ Page.slotsPerPage file.pageSize file.schema ∧
        Page.slotsPerPage file.pageSize file.schema ≤ UInt16.size := by
    intro id file hfile
    rcases file_twoTables hfile with ⟨rfl, rfl⟩ | ⟨rfl, rfl⟩ <;> decide
  obtain ⟨hrows, hscan⟩ := durability (registered_twoTables 4 .none) hslots rfl
    LogSink.reliable_memory Call.oneCommit (by decide) hwithin
  obtain ⟨_, items, scan, e', -, hrun, hitems⟩ := hscan 1 ⟨0⟩ (.pairs 0 "a") ⟨3⟩ rfl
  rw [← hrows, if_neg (by decide)] at hitems
  refine ⟨?_, ?_, scan, e', hitems ▸ hrun⟩
  · rw [Engine.oneCommitted, hrows]
    decide +kernel
  · rw [Engine.oneCommitted, hrows]
    decide +kernel

/-- A pool without room shows nothing of what has been committed. -/
theorem scan_may_miss_rows :
    ¬∃ scan e', (Scan.start (.pairs 0 "a") ⟨3⟩).rest
        { Engine.oneCommitted with pool := .empty 0 }
      = .ok (((RecordId.ofTable ⟨0⟩).filterMap Engine.oneCommitted.rows).map .ok, scan) e' := by
  have hrefused : (match (Scan.start (.pairs 0 "a") ⟨3⟩).rest
        { Engine.oneCommitted with pool := .empty 0 } with
      | .ok (items, _) _ => items.any fun item => !item.isOk
      | .error _ _ => false) = true := by decide +kernel
  rintro ⟨scan, e', hrun⟩
  rw [hrun] at hrefused
  simp only [List.any_map, List.any_eq_true] at hrefused
  obtain ⟨row, -, hrow⟩ := hrefused
  cases hrow

end HeapStore
