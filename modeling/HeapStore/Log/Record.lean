import HeapStore.Address
import HeapStore.Bytes.Word

/-!
# Log records

Before a page is written to its file, its change is logged: who changed
it, and its bytes before and after. A record is stored as

    | length | txn (8) | table | page | before length | before | after length | after |

where all numbers but the transaction's have four bytes and `length`
counts what follows it.

Reading takes records off the front of a buffer, one call at a time
(`decode`), and tells what each call leaves. A buffer too short for a
length is left as it is; a length that the buffer or the format cannot
fulfil is taken off alone; and a record of which all bytes are there is
taken off even if the lengths inside it are wrong.

Main statement: `length_lt_of_decode` (a record that was read is gone
from the buffer), which ends the reading of a whole log (`decodeAll`).
-/

namespace HeapStore

/-- The change of one page by one transaction. -/
structure LogRecord where
  txn : TxnId
  page : PageId
  before : Bytes
  after : Bytes
deriving DecidableEq, Repr

namespace LogRecord

/-- The number of bytes of a record's numbers, without its length. -/
def fixedLength : Nat := 24

/-- The stored form without its length. -/
def encodeBody (record : LogRecord) : Bytes :=
  Bytes.ofWord64 record.txn.val ++ Bytes.ofWord32 record.page.table.val
    ++ Bytes.ofWord32 record.page.page
    ++ Bytes.ofWord32 record.before.length.toUInt32 ++ record.before
    ++ Bytes.ofWord32 record.after.length.toUInt32 ++ record.after

/-- The stored form. -/
def encode (record : LogRecord) : Bytes :=
  Bytes.ofWord32 record.encodeBody.length.toUInt32 ++ record.encodeBody

/-- Reads a record without its length, which must fill `body`. -/
def decodeBody (body : Bytes) : Option LogRecord := do
  let (txn, body) ← Bytes.takeWord64? body
  let (table, body) ← Bytes.takeWord32? body
  let (page, body) ← Bytes.takeWord32? body
  let (beforeLength, body) ← Bytes.takeWord32? body
  if body.length < beforeLength.toNat + 4 then none
  else
    let (afterLength, after) ← Bytes.takeWord32? (body.drop beforeLength.toNat)
    if after.length ≠ afterLength.toNat then none
    else
      return {
        txn := ⟨txn⟩
        page := ⟨⟨table⟩, page⟩
        before := body.take beforeLength.toNat
        after }

/-- Reads the record at the front of a buffer; yields what is left of the
buffer, also when there is no record. -/
def decode (buffer : Bytes) : Option LogRecord × Bytes :=
  match Bytes.takeWord32? buffer with
  | none => (none, buffer)
  | some (length, rest) =>
    if rest.length < length.toNat ∨ length.toNat < fixedLength then (none, rest)
    else (decodeBody (rest.take length.toNat), rest.drop length.toNat)

theorem length_encodeBody (record : LogRecord) :
    record.encodeBody.length = fixedLength + record.before.length + record.after.length := by
  simp [encodeBody, fixedLength]
  omega

theorem length_lt_of_takeWord32? {data rest : Bytes} {word : UInt32}
    (h : Bytes.takeWord32? data = some (word, rest)) : data.length = rest.length + 4 := by
  unfold Bytes.takeWord32? at h
  split at h
  · simp only [Option.some.injEq, Prod.mk.injEq] at h
    simp [← h.2]
  · simp at h

/-- A call that yields a record leaves less than it was given. -/
theorem length_lt_of_decode {buffer rest : Bytes} {record : LogRecord}
    (h : decode buffer = (some record, rest)) : rest.length < buffer.length := by
  unfold decode at h
  split at h
  · simp at h
  · rename_i length data htake
    split at h
    · simp at h
    · simp only [Prod.mk.injEq] at h
      rw [← h.2, length_lt_of_takeWord32? htake, List.length_drop]
      omega

/-- The records at the front of a buffer, up to the first call that
yields none. -/
def decodeAll (buffer : Bytes) : List LogRecord :=
  match _h : decode buffer with
  | (none, _) => []
  | (some record, rest) => record :: decodeAll rest
termination_by buffer.length
decreasing_by exact length_lt_of_decode ‹_›

end LogRecord

end HeapStore
