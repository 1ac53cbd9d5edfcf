import HeapStore.Log.Record

/-!
# Log records as bytes

A record has one stored form, and reading accepts nothing else: a call of
`LogRecord.decode` yields a record if and only if the buffer starts with the
stored form of that record, and leaves what follows it (`decode_eq_some_iff`).
So no stored form is the beginning of another one, and the beginning of a stored
form is no record.

Lengths are read before the bytes that they count, from a buffer that may say
anything. `decodeWatched` reads the same format with every single read under
watch: a read beyond the end of the buffer makes it fail. It never does
(`decodeWatched_eq`).

Headline: `decode_exact`.
-/

namespace HeapStore

namespace LogRecord

variable {record : LogRecord} {buffer body rest : Bytes}

/-- The lengths of the record fit into their words. -/
def Fits (record : LogRecord) : Prop :=
  fixedLength + record.before.length + record.after.length < UInt32.size

instance (record : LogRecord) : Decidable record.Fits := inferInstanceAs (Decidable (_ < _))

/-! ## The one stored form of a record -/

theorem toNat_toUInt32 {n : Nat} (h : n < UInt32.size) : n.toUInt32.toNat = n :=
  UInt32.toNat_ofNat_of_lt' h

theorem toUInt32_eq {n : Nat} {w : UInt32} (h : n = w.toNat) : n.toUInt32 = w := by
  rw [h]
  exact UInt32.ofNat_toNat

theorem decodeBody_encodeBody (h : record.Fits) : decodeBody record.encodeBody = some record := by
  have hbefore : record.before.length.toUInt32.toNat = record.before.length :=
    toNat_toUInt32 (by unfold Fits at h; omega)
  have hafter : record.after.length.toUInt32.toNat = record.after.length :=
    toNat_toUInt32 (by unfold Fits at h; omega)
  simp [decodeBody, encodeBody, List.append_assoc, Bytes.takeWord64?_ofWord64_append,
    Bytes.takeWord32?_ofWord32_append, hbefore, hafter]

/-- The lengths in a body that is read are those of the record. -/
theorem eq_encodeBody_of_decodeBody (h : decodeBody body = some record) :
    body = record.encodeBody := by
  obtain ⟨⟨txn, body₁⟩, htxn, h⟩ := Option.bind_eq_some_iff.1 h
  obtain ⟨⟨table, body₂⟩, htable, h⟩ := Option.bind_eq_some_iff.1 h
  obtain ⟨⟨page, body₃⟩, hpage, h⟩ := Option.bind_eq_some_iff.1 h
  obtain ⟨⟨beforeLength, body₄⟩, hbefore, h⟩ := Option.bind_eq_some_iff.1 h
  rw [Bytes.takeWord64?_eq_some_iff] at htxn
  rw [Bytes.takeWord32?_eq_some_iff] at htable hpage hbefore
  dsimp only at h
  split at h
  · cases h
  rename_i hlong
  obtain ⟨⟨afterLength, after⟩, hafter, h⟩ := Option.bind_eq_some_iff.1 h
  rw [Bytes.takeWord32?_eq_some_iff] at hafter
  dsimp only at h
  split at h
  · cases h
  rename_i hfills
  cases h
  have hbefore' : (body₄.take beforeLength.toNat).length = beforeLength.toNat := by
    rw [List.length_take]
    omega
  have hafter' : after.length = afterLength.toNat := Decidable.not_not.1 hfills
  have hsplit : body₄ = body₄.take beforeLength.toNat ++ (Bytes.ofWord32 afterLength ++ after) := by
    rw [← hafter, List.take_append_drop]
  dsimp only [encodeBody]
  rw [toUInt32_eq hbefore', toUInt32_eq hafter', htxn, htable, hpage, hbefore]
  simp only [List.append_assoc]
  rw [← hsplit]

/-- A call yields a record if the buffer starts with its stored form, and only
then. -/
theorem decode_eq_some_iff :
    decode buffer = (some record, rest) ↔ record.Fits ∧ buffer = record.encode ++ rest := by
  constructor
  · intro h
    unfold decode at h
    split at h
    · cases h
    rename_i length data htake
    rw [Bytes.takeWord32?_eq_some_iff] at htake
    split at h
    · cases h
    rename_i hlengths
    rw [Prod.mk.injEq] at h
    obtain ⟨hbody, hrest⟩ := h
    have hencode := eq_encodeBody_of_decodeBody hbody
    have hlength : record.encodeBody.length = length.toNat := by
      rw [← hencode, List.length_take]
      omega
    constructor
    · have hword := length.toNat_lt_size
      rw [← hlength, length_encodeBody] at hword
      exact hword
    · rw [encode, toUInt32_eq hlength, htake, ← hencode, ← hrest, List.append_assoc,
        List.take_append_drop]
  · rintro ⟨hfits, rfl⟩
    have hlength : record.encodeBody.length.toUInt32.toNat = record.encodeBody.length := by
      rw [toNat_toUInt32]
      rw [length_encodeBody]
      exact hfits
    have hfixed : fixedLength ≤ record.encodeBody.length := by
      rw [length_encodeBody]
      omega
    rw [decode, encode, List.append_assoc, Bytes.takeWord32?_ofWord32_append]
    dsimp only
    rw [hlength, if_neg (by simp; omega), List.take_left, List.drop_left,
      decodeBody_encodeBody hfits]

theorem decode_eq_none_iff :
    (decode buffer).1 = none
      ↔ ∀ (record : LogRecord) (rest : Bytes), record.Fits → buffer ≠ record.encode ++ rest := by
  constructor
  · intro hnone record rest hfits hbuffer
    rw [decode_eq_some_iff.2 ⟨hfits, hbuffer⟩] at hnone
    cases hnone
  · intro hother
    rcases hdecode : decode buffer with ⟨_ | record, rest⟩
    · rfl
    · obtain ⟨hfits, hbuffer⟩ := decode_eq_some_iff.1 hdecode
      exact absurd hbuffer (hother record rest hfits)

/-- The beginning of a stored form is no record: it would be the stored form of
another record, and the whole would be read as that one. -/
theorem decode_cut_eq_none {cut : Bytes} (hfits : record.Fits) (hcut : cut <+: record.encode)
    (hstrict : cut ≠ record.encode) : (decode cut).1 = none := by
  refine decode_eq_none_iff.2 fun other left hother hbuffer => hstrict ?_
  obtain ⟨missing, hmissing⟩ := hcut
  have hshort : decode record.encode = (some other, left ++ missing) :=
    decode_eq_some_iff.2 ⟨hother, by rw [← hmissing, hbuffer, List.append_assoc]⟩
  have hwhole : decode record.encode = (some record, []) :=
    decode_eq_some_iff.2 ⟨hfits, (List.append_nil _).symm⟩
  rw [hwhole, Prod.mk.injEq] at hshort
  obtain ⟨-, rfl⟩ := List.append_eq_nil_iff.1 hshort.2.symm
  rwa [List.append_nil] at hmissing

/-- What a call leaves is the end of the buffer. -/
theorem decode_suffix (buffer : Bytes) : (decode buffer).2 <:+ buffer := by
  unfold decode
  split
  · exact List.suffix_rfl
  · rename_i length data htake
    rw [Bytes.takeWord32?_eq_some_iff] at htake
    have hdata : data <:+ buffer := ⟨_, htake.symm⟩
    split
    · exact hdata
    · exact (List.drop_suffix _ _).trans hdata

end LogRecord

/-! ## Reading under watch -/

/-- The first `count` bytes of a buffer and what follows them; nothing when there
are fewer. -/
def Bytes.takeBytes? (count : Nat) (data : Bytes) : Option (Bytes × Bytes) :=
  if data.length < count then none else some (data.take count, data.drop count)

namespace LogRecord

/-- `decodeBody` that fails when a read goes beyond the end of the body. -/
def decodeBodyWatched (body : Bytes) : Option (Option LogRecord) := do
  let (txn, body) ← Bytes.takeWord64? body
  let (table, body) ← Bytes.takeWord32? body
  let (page, body) ← Bytes.takeWord32? body
  let (beforeLength, body) ← Bytes.takeWord32? body
  if body.length < beforeLength.toNat + 4 then return none
  else
    let (before, body) ← Bytes.takeBytes? beforeLength.toNat body
    let (afterLength, body) ← Bytes.takeWord32? body
    if body.length ≠ afterLength.toNat then return none
    else
      let (after, _) ← Bytes.takeBytes? afterLength.toNat body
      return some { txn := ⟨txn⟩, page := ⟨⟨table⟩, page⟩, before, after }

/-- `decode` that fails when a read goes beyond the end of the buffer. -/
def decodeWatched (buffer : Bytes) : Option (Option LogRecord × Bytes) :=
  if buffer.length < 4 then some (none, buffer)
  else do
    let (length, rest) ← Bytes.takeWord32? buffer
    if rest.length < length.toNat ∨ length.toNat < fixedLength then return (none, rest)
    else
      let (body, rest) ← Bytes.takeBytes? length.toNat rest
      return (← decodeBodyWatched body, rest)

variable {record : LogRecord} {buffer body rest : Bytes}

theorem decodeBodyWatched_eq (h : fixedLength ≤ body.length) :
    decodeBodyWatched body = some (decodeBody body) := by
  unfold fixedLength at h
  obtain ⟨txn, htxn⟩ := Bytes.exists_takeWord64? body (by omega)
  obtain ⟨table, htable⟩ := Bytes.exists_takeWord32? (body.drop 8) (by simp; omega)
  obtain ⟨page, hpage⟩ := Bytes.exists_takeWord32? ((body.drop 8).drop 4) (by simp; omega)
  obtain ⟨beforeLength, hbefore⟩ :=
    Bytes.exists_takeWord32? (((body.drop 8).drop 4).drop 4) (by simp; omega)
  generalize hleft : (((body.drop 8).drop 4).drop 4).drop 4 = left at hbefore
  simp only [decodeBodyWatched, decodeBody, htxn, htable, hpage, hbefore, Option.bind_eq_bind,
    Option.bind_some]
  split
  · rfl
  rename_i hlong
  obtain ⟨afterLength, hafter⟩ :=
    Bytes.exists_takeWord32? (left.drop beforeLength.toNat) (by simp; omega)
  simp only [Bytes.takeBytes?, if_neg (show ¬left.length < beforeLength.toNat by omega),
    hafter, Option.bind_some]
  split
  · rfl
  rename_i hfills
  have hafter' := Decidable.not_not.1 hfills
  simp only [if_neg (Nat.lt_irrefl _), ← hafter', List.take_length]
  rfl

/-- No call reads beyond the end of the buffer. -/
theorem decodeWatched_eq (buffer : Bytes) : decodeWatched buffer = some (decode buffer) := by
  rw [decodeWatched]
  split
  · rename_i hshort
    have hnone : Bytes.takeWord32? buffer = none := by
      unfold Bytes.takeWord32?
      split
      · simp at hshort
        omega
      · rfl
    rw [decode, hnone]
  rename_i hlong
  obtain ⟨length, htake⟩ := Bytes.exists_takeWord32? buffer (by omega)
  rw [decode, htake]
  dsimp only [Option.bind_eq_bind, Option.bind_some]
  split
  · rfl
  rename_i hlengths
  have henough : ¬(buffer.drop 4).length < length.toNat := by omega
  rw [Bytes.takeBytes?, if_neg henough]
  dsimp only [Option.bind_some]
  rw [decodeBodyWatched_eq (by rw [List.length_take]; omega)]
  rfl

end LogRecord

/-- Writing and reading a record are inverse to each other:

- the stored form of a record whose lengths fit into their words is read as that
  record, and what follows it is left;
- a record that is read was stored in front of what is left;
- the beginning of a stored form is not read as a record;
- no call reads beyond the end of the buffer, whatever the buffer says, and what
  it leaves is the end of the buffer. -/
theorem decode_exact :
    (∀ (record : LogRecord) (rest : Bytes), record.Fits →
      LogRecord.decode (record.encode ++ rest) = (some record, rest)) ∧
    (∀ (buffer : Bytes) (record : LogRecord) (rest : Bytes),
      LogRecord.decode buffer = (some record, rest) → buffer = record.encode ++ rest) ∧
    (∀ (record : LogRecord) (cut : Bytes), record.Fits → cut <+: record.encode →
      cut ≠ record.encode → (LogRecord.decode cut).1 = none) ∧
    ∀ buffer : Bytes, LogRecord.decodeWatched buffer = some (LogRecord.decode buffer) ∧
      (LogRecord.decode buffer).2 <:+ buffer := by
  refine ⟨fun record rest hfits => ?_, fun buffer record rest h => ?_,
    fun record cut => LogRecord.decode_cut_eq_none, fun buffer => ?_⟩
  · exact LogRecord.decode_eq_some_iff.2 ⟨hfits, rfl⟩
  · exact (LogRecord.decode_eq_some_iff.1 h).2
  · exact ⟨LogRecord.decodeWatched_eq buffer, LogRecord.decode_suffix buffer⟩

/-- A record of 31 bytes. -/
def LogRecord.small : LogRecord := ⟨⟨9⟩, ⟨⟨4⟩, 2⟩, [1], [2, 3]⟩

theorem decode_exact_small :
    LogRecord.decode (LogRecord.small.encode ++ [255, 255, 255, 255, 0])
      = (some .small, [255, 255, 255, 255, 0]) ∧
    (LogRecord.decode (LogRecord.small.encode.take 30)).1 = none := by
  have hfits : LogRecord.small.Fits := by decide
  obtain ⟨hwritten, -, hcut, -⟩ := decode_exact
  exact ⟨hwritten _ _ hfits, hcut _ _ hfits (List.take_prefix _ _) (by decide +kernel)⟩

end HeapStore
