import HeapStore.Proofs.LogFiles

/-!
# Logs with a torn tail

A writer that is stopped in the middle of a record leaves its beginning at the
end of the file. The next writer goes on right behind it, and the reader, which
takes a record for as long as its length says, reads across the seam. What was
written before the tear is read, but of what was written after it nothing is
sure, forced or not:

- as long as the torn record misses more bytes than were written since, nothing
  is read behind the tear;
- once there are enough, and the tear was in the new bytes of the page, the
  reader makes up a record that nobody wrote, with stored forms of the later
  records for the missing bytes.

The later records are read if and only if the file happens to read the same from
the tear on as it would without the torn bytes.

Headlines: `torn_tail_reading`, `torn_tail_loses_forced_record`.
-/

namespace HeapStore

namespace LogRecord

variable {record torn : LogRecord} {records : List LogRecord} {buffer tail more : Bytes}

/-! ## What is read from any bytes -/

/-- What is read stands at the front of the buffer, and no record follows it. -/
theorem exists_rest_of_decodeAll (buffer : Bytes) :
    ∃ rest, buffer = encodeAll (decodeAll buffer) ++ rest ∧ decodeAll rest = [] := by
  induction buffer using decodeAll.induct with
  | case1 buffer rest hnone =>
      have hread : decodeAll buffer = [] := decodeAll_of_none (by rw [hnone])
      exact ⟨buffer, by rw [hread]; rfl, hread⟩
  | case2 buffer record rest hsome ih =>
      obtain ⟨last, hrest, hlast⟩ := ih
      refine ⟨last, ?_, hlast⟩
      rw [decodeAll_of_some hsome, encodeAll_cons, List.append_assoc, ← hrest]
      exact (decode_eq_some_iff.1 hsome).2

theorem decodeAll_eq_iff (hfits : ∀ record ∈ records, record.Fits) :
    decodeAll buffer = records
      ↔ ∃ rest, buffer = encodeAll records ++ rest ∧ decodeAll rest = [] := by
  constructor
  · rintro rfl
    exact exists_rest_of_decodeAll buffer
  · rintro ⟨rest, rfl, hrest⟩
    rw [decodeAll_encodeAll_append hfits, hrest, List.append_nil]

/-! ## Across the tear -/

theorem length_encode (record : LogRecord) :
    record.encode.length = 4 + fixedLength + record.before.length + record.after.length := by
  rw [encode, List.length_append, Bytes.length_ofWord32, length_encodeBody]
  omega

/-- The first four bytes of a stored form tell its length. -/
theorem length_encode_eq (hrecord : record.Fits) (htorn : torn.Fits)
    (hword : record.encode.take 4 = torn.encode.take 4) :
    record.encode.length = torn.encode.length := by
  have htake : ∀ r : LogRecord, r.encode.take 4 = Bytes.ofWord32 r.encodeBody.length.toUInt32 :=
    fun r => List.take_left' (Bytes.length_ofWord32 _)
  rw [htake, htake, Bytes.ofWord32_inj] at hword
  have hlength := congrArg UInt32.toNat hword
  rw [toNat_toUInt32, toNat_toUInt32, length_encodeBody, length_encodeBody] at hlength
  · rw [length_encode, length_encode]
    omega
  · rw [length_encodeBody]
    exact htorn
  · rw [length_encodeBody]
    exact hrecord

/-- A record that still misses bytes keeps the reader from all that follows. -/
theorem decodeAll_of_missing (htorn : torn.Fits) (htail : tail <+: torn.encode)
    (hlength : 4 ≤ tail.length) (hmissing : tail.length + more.length < torn.encode.length) :
    decodeAll (tail ++ more) = [] := by
  refine decodeAll_of_none (decode_eq_none_iff.2 fun other rest hother hbuffer => ?_)
  have hword : other.encode.take 4 = torn.encode.take 4 := by
    obtain ⟨missing, hencode⟩ := htail
    have hlong := length_encode other
    have hstart : (tail ++ more).take 4 = tail.take 4 := List.take_append_of_le_length hlength
    rw [← hencode, List.take_append_of_le_length hlength, ← hstart, hbuffer,
      List.take_append_of_le_length (by omega)]
  have hsame := length_encode_eq hother htorn hword
  have hbytes := congrArg List.length hbuffer
  rw [List.length_append, List.length_append] at hbytes
  omega

/-- The stored form up to the new bytes of the page. -/
def encodeFront (record : LogRecord) : Bytes :=
  Bytes.ofWord32 record.encodeBody.length.toUInt32 ++ (Bytes.ofWord64 record.txn.val
    ++ Bytes.ofWord32 record.page.table.val ++ Bytes.ofWord32 record.page.page
    ++ Bytes.ofWord32 record.before.length.toUInt32 ++ record.before
    ++ Bytes.ofWord32 record.after.length.toUInt32)

theorem encode_eq_front (record : LogRecord) :
    record.encode = record.encodeFront ++ record.after := by
  simp only [encode, encodeFront, encodeBody, List.append_assoc]

/-- The front counts the new bytes and does not depend on them otherwise. -/
theorem encode_with_after {after : Bytes} (hlength : after.length = record.after.length) :
    { record with after }.encode = record.encodeFront ++ after := by
  rw [encode_eq_front]
  simp only [encodeFront, length_encodeBody, hlength]

/-- A record torn in the new bytes of its page is completed by what follows. -/
theorem decodeAll_of_completed (htorn : torn.Fits) (htail : tail <+: torn.encode)
    (hlength : torn.encodeFront.length ≤ tail.length)
    (hmissing : torn.encode.length ≤ tail.length + more.length) :
    decodeAll (tail ++ more)
      = { torn with
          after := Bytes.slice (tail ++ more) torn.encodeFront.length torn.after.length }
        :: decodeAll ((tail ++ more).drop torn.encode.length) := by
  have hfront : tail.take torn.encodeFront.length = torn.encodeFront := by
    obtain ⟨missing, hencode⟩ := htail
    have htake := congrArg (List.take torn.encodeFront.length) hencode
    rwa [List.take_append_of_le_length hlength, encode_eq_front, List.take_left] at htake
  have htotal : torn.encode.length = torn.encodeFront.length + torn.after.length := by
    rw [encode_eq_front, List.length_append]
  have hafter : (Bytes.slice (tail ++ more) torn.encodeFront.length torn.after.length).length
      = torn.after.length := by
    rw [Bytes.length_slice, List.length_append]
    omega
  refine decodeAll_of_some (decode_eq_some_iff.2 ⟨?_, ?_⟩)
  · unfold Fits at htorn ⊢
    dsimp only
    rw [hafter]
    exact htorn
  · have hsplit := List.take_append_drop torn.encodeFront.length (tail ++ more)
    rw [List.take_append_of_le_length hlength, hfront] at hsplit
    rw [encode_with_after hafter, Bytes.slice, htotal, ← List.drop_drop, List.append_assoc,
      List.take_append_drop]
    exact hsplit.symm

/-- A record that is read across the tear goes on with the torn bytes: if they
were more than its beginning, it would be read from them alone. -/
theorem prefix_of_decodeAll_eq {first : LogRecord} (htorn : torn.Fits)
    (htail : tail <+: torn.encode) (hstrict : tail ≠ torn.encode) (hfirst : first.Fits)
    (hread : decodeAll (tail ++ more) = first :: records) : tail <+: first.encode := by
  obtain ⟨rest, hbytes, -⟩ := exists_rest_of_decodeAll (tail ++ more)
  rw [hread, encodeAll_cons, List.append_assoc] at hbytes
  rcases List.prefix_or_prefix_of_prefix (List.prefix_append tail more) ⟨_, hbytes.symm⟩ with
    hin | ⟨left, hleft⟩
  · exact hin
  · have hnone := decode_cut_eq_none htorn htail hstrict
    exact absurd hleft.symm (decode_eq_none_iff.1 hnone first left hfirst)

end LogRecord

/-! ## Writing behind the tear -/

theorem LogFile.Carries.writeAll {log : LogFile} {data : Bytes} (h : log.Carries data)
    (hopen : log.writer.isSome) (records : List LogRecord) :
    (LogCall.afterAll (records.map .write) log).Carries (data ++ LogRecord.encodeAll records) ∧
      (LogCall.afterAll (records.map .write) log).writer.isSome := by
  induction records generalizing log data with
  | nil => exact ⟨by simpa [LogCall.afterAll, LogRecord.encodeAll] using h, hopen⟩
  | cons record records ih =>
      obtain ⟨log', hwrite, hlog', hopen'⟩ := h.write hopen record
      have hrun : (LogCall.run (.write record) log).2 = log' := by rw [LogCall.run, hwrite]
      rw [LogRecord.encodeAll_cons, ← List.append_assoc, List.map_cons, LogCall.afterAll,
        List.foldl_cons, hrun]
      exact ih hlog' hopen'

/-- What is read of a log with a torn tail, after more records were written behind
the tear and a force was answered without an error. The records before the tear
are read, followed by whatever the bytes from the tear on say:

- these say the records written since if and only if they are the stored forms
  of these records, with something behind them that is no record; the torn bytes
  are then the beginning of the first of these records;
- while the bytes written since are fewer than the torn record misses, they say
  nothing;
- when they are enough, and the tear is in the new bytes of the page, they say a
  record whose page is filled up with them. -/
theorem torn_tail_reading {records new : List LogRecord} {torn : LogRecord} {tail : Bytes}
    (hfits : ∀ record ∈ records ++ new, record.Fits) (htorn : torn.Fits)
    (htail : tail <+: torn.encode) (hstrict : tail ≠ torn.encode) {log : LogFile}
    (hlog : log = LogCall.afterAll (.openWriter :: new.map .write)
      (.closed (some (LogRecord.encodeAll records ++ tail)))) :
    ∃ log', log.force = (.ok (), log') ∧
      log'.records
        = .ok (records ++ LogRecord.decodeAll (tail ++ LogRecord.encodeAll new)) ∧
      (log'.records = .ok (records ++ new) ↔
        ∃ rest, tail ++ LogRecord.encodeAll new = LogRecord.encodeAll new ++ rest ∧
          LogRecord.decodeAll rest = []) ∧
      (log'.records = .ok (records ++ new) → ∀ first ∈ new.head?, tail <+: first.encode) ∧
      (4 ≤ tail.length →
        tail.length + (LogRecord.encodeAll new).length < torn.encode.length →
        log'.records = .ok records) ∧
      (torn.encodeFront.length ≤ tail.length →
        torn.encode.length ≤ tail.length + (LogRecord.encodeAll new).length →
        log'.records = .ok (records ++
          { torn with
            after := Bytes.slice (tail ++ LogRecord.encodeAll new) torn.encodeFront.length
              torn.after.length }
          :: LogRecord.decodeAll
            ((tail ++ LogRecord.encodeAll new).drop torn.encode.length))) := by
  have hopened : (LogFile.closed (some (LogRecord.encodeAll records ++ tail))).openWriter.Carries
      (LogRecord.encodeAll records ++ tail) := (LogFile.carries_closed _).openWriter
  obtain ⟨hcarries, hopen⟩ := hopened.writeAll rfl new
  obtain ⟨log', hforce, -, hcontent⟩ := hcarries.force hopen
  have hrecords : ∀ record ∈ records, record.Fits :=
    fun record hrecord => hfits record (List.mem_append_left _ hrecord)
  have hnew : ∀ record ∈ new, record.Fits :=
    fun record hrecord => hfits record (List.mem_append_right _ hrecord)
  have hread : log'.records
      = .ok (records ++ LogRecord.decodeAll (tail ++ LogRecord.encodeAll new)) := by
    rw [LogFile.records, hcontent, List.append_assoc]
    exact congrArg Except.ok (LogRecord.decodeAll_encodeAll_append hrecords _)
  have hsame : log'.records = .ok (records ++ new)
      ↔ LogRecord.decodeAll (tail ++ LogRecord.encodeAll new) = new := by
    rw [hread, Except.ok.injEq, List.append_cancel_left_eq]
  refine ⟨log', hlog ▸ hforce, hread, hsame.trans (LogRecord.decodeAll_eq_iff hnew),
    fun hall first hfirst => ?_, fun hlength hmissing => ?_, fun hlength hmissing => ?_⟩
  · obtain ⟨later, rfl⟩ := List.head?_eq_some_iff.1 hfirst
    exact LogRecord.prefix_of_decodeAll_eq htorn htail hstrict
      (hnew first List.mem_cons_self) (hsame.1 hall)
  · rw [hread, LogRecord.decodeAll_of_missing htorn htail hlength hmissing, List.append_nil]
  · rw [hread, LogRecord.decodeAll_of_completed htorn htail hlength hmissing]

/-- The last byte of a record is missing, and another record is written and forced
behind it: one record is read, which nobody wrote, and not the forced one. -/
theorem torn_tail_reading_phantom :
    ∃ log', (LogCall.afterAll [.openWriter, .write { LogRecord.small with txn := ⟨10⟩ }]
        (.closed (some (LogRecord.small.encode.take 30)))).force = (.ok (), log') ∧
      log'.records = .ok [{ LogRecord.small with after := [2, 27] }] := by
  obtain ⟨log', hforce, -, -, -, -, hcompleted⟩ := @torn_tail_reading []
    [{ LogRecord.small with txn := ⟨10⟩ }] .small (LogRecord.small.encode.take 30)
    (by decide) (by decide) (List.take_prefix _ _) (by decide +kernel) _ rfl
  refine ⟨log', hforce, ?_⟩
  rw [hcompleted (by decide +kernel) (by decide +kernel),
    LogRecord.decodeAll_of_none (by decide +kernel)]
  rfl

theorem torn_tail_loses_forced_record :
    ¬∀ (records new : List LogRecord) (torn : LogRecord) (tail : Bytes),
      (∀ record ∈ torn :: (records ++ new), record.Fits) →
      tail <+: torn.encode → tail ≠ [] → tail ≠ torn.encode →
      ∀ log', (LogCall.afterAll (.openWriter :: new.map .write)
          (.closed (some (LogRecord.encodeAll records ++ tail)))).force = (.ok (), log') →
        log'.records = .ok (records ++ new) := by
  intro hall
  have hsmall : LogRecord.small.Fits := by decide
  have hread := hall [] [{ LogRecord.small with txn := ⟨10⟩ }] .small
    (LogRecord.small.encode.take 30) (by decide) (List.take_prefix _ _) (by decide +kernel)
    (by decide +kernel) _ rfl
  have hprefix : LogRecord.small.encode.take 30
      <+: { LogRecord.small with txn := ⟨10⟩ : LogRecord }.encode :=
    LogRecord.prefix_of_decodeAll_eq hsmall (List.take_prefix _ _) (by decide +kernel)
      (by decide) (Except.ok.inj hread)
  exact absurd hprefix (by decide +kernel)

end HeapStore
