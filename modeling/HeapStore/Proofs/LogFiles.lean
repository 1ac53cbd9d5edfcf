import HeapStore.Log.File
import HeapStore.Proofs.LogRecords

/-!
# Reading a log back

A log is read from its first byte on, record after record, until a call yields
none. A file that holds whole records is so read to its end, and one that was
cut yields the records before the cut (`LogRecord.decodeAll_take`).

Between two forces a record may be in the file, with the writer, or partly in
both. Whatever the writer keeps back comes right behind what is in the file: the
two together are the old contents and all that was written since
(`LogFile.Carries`). Every call on a medium that takes all bytes keeps this, and
after a force or a close the writer keeps nothing back.

Headline: `log_reads_back`.
-/

namespace HeapStore

namespace LogRecord

variable {record : LogRecord} {records : List LogRecord} {buffer rest : Bytes}

/-! ## Records in a row -/

/-- The stored forms of the records, one behind the other. -/
def encodeAll (records : List LogRecord) : Bytes := records.flatMap encode

theorem encodeAll_cons : encodeAll (record :: records) = record.encode ++ encodeAll records :=
  List.flatMap_cons

theorem encodeAll_append (first second : List LogRecord) :
    encodeAll (first ++ second) = encodeAll first ++ encodeAll second :=
  List.flatMap_append

theorem decodeAll_of_some (h : decode buffer = (some record, rest)) :
    decodeAll buffer = record :: decodeAll rest := by
  rw [decodeAll]
  split
  · rename_i hnone
    rw [h] at hnone
    cases hnone
  · rename_i hsome
    rw [h] at hsome
    cases hsome
    rfl

theorem decodeAll_of_none (h : (decode buffer).1 = none) : decodeAll buffer = [] := by
  rw [decodeAll]
  split
  · rfl
  · rename_i hsome
    rw [hsome] at h
    cases h

theorem decodeAll_encodeAll_append (hfits : ∀ record ∈ records, record.Fits) (rest : Bytes) :
    decodeAll (encodeAll records ++ rest) = records ++ decodeAll rest := by
  induction records with
  | nil => rfl
  | cons record records ih =>
      have hrecord : record.Fits := hfits record List.mem_cons_self
      rw [encodeAll_cons, List.append_assoc,
        decodeAll_of_some (decode_eq_some_iff.2 ⟨hrecord, rfl⟩),
        ih fun other hother => hfits other (List.mem_cons_of_mem _ hother)]
      rfl

theorem decodeAll_nil : decodeAll [] = [] :=
  decodeAll_of_none rfl

theorem decodeAll_encodeAll (hfits : ∀ record ∈ records, record.Fits) :
    decodeAll (encodeAll records) = records := by
  have hread := decodeAll_encodeAll_append hfits []
  rwa [List.append_nil, decodeAll_nil, List.append_nil] at hread

/-! ## Cut files -/

/-- The records whose stored forms, one behind the other, lie wholly before `cut`. -/
def wholeBefore (cut : Nat) (records : List LogRecord) : List LogRecord :=
  (records.zipIdx.filter fun (_, i) => (encodeAll (records.take (i + 1))).length ≤ cut).map Prod.fst

theorem wholeBefore_cons (cut : Nat) (record : LogRecord) (records : List LogRecord) :
    wholeBefore cut (record :: records)
      = if record.encode.length ≤ cut
        then record :: wholeBefore (cut - record.encode.length) records
        else [] := by
  have hends : ∀ i, (encodeAll ((record :: records).take (i + 1))).length
      = record.encode.length + (encodeAll (records.take i)).length := fun i => by
    rw [List.take_succ_cons, encodeAll_cons, List.length_append]
  have hfirst : (encodeAll (records.take 0)).length = 0 := rfl
  simp only [wholeBefore, hends]
  rw [List.zipIdx_cons, List.zipIdx_succ, List.filter_cons, List.filter_map, hfirst]
  split
  · rename_i hwhole
    rw [Nat.add_zero, decide_eq_true_eq] at hwhole
    rw [if_pos hwhole, List.map_cons, List.map_map]
    congr 2
    refine List.filter_congr fun (_, i) _ => decide_eq_decide.2 ?_
    dsimp only
    omega
  · rename_i htorn
    rw [Nat.add_zero, decide_eq_true_eq] at htorn
    rw [if_neg htorn, List.map_map, List.map_eq_nil_iff, List.filter_eq_nil_iff]
    intro entry _ hentry
    have hlate := of_decide_eq_true hentry
    omega

theorem decodeAll_take (hfits : ∀ record ∈ records, record.Fits) (cut : Nat) :
    decodeAll ((encodeAll records).take cut) = wholeBefore cut records := by
  induction records generalizing cut with
  | nil =>
      rw [encodeAll, List.flatMap_nil, List.take_nil, decodeAll_nil]
      rfl
  | cons record records ih =>
      have hrecord : record.Fits := hfits record List.mem_cons_self
      rw [encodeAll_cons, wholeBefore_cons, List.take_append]
      split
      · rename_i hwhole
        rw [List.take_of_length_le hwhole,
          decodeAll_of_some (decode_eq_some_iff.2 ⟨hrecord, rfl⟩),
          ih fun other hother => hfits other (List.mem_cons_of_mem _ hother)]
      · rename_i htorn
        have hnothing : cut - record.encode.length = 0 := by omega
        have hstrict : record.encode.take cut ≠ record.encode := fun heq => by
          have hlength := congrArg List.length heq
          rw [List.length_take] at hlength
          omega
        rw [hnothing, List.take_zero, List.append_nil]
        exact decodeAll_of_none (decode_cut_eq_none hrecord (List.take_prefix _ _) hstrict)

end LogRecord

/-! ## What a log carries -/

namespace LogFile

/-- A file that nobody has open, on a medium that takes all bytes. -/
def closed (content : Option Bytes) : LogFile := { content, full := false, writer := none }

/-- What was written and has not reached the file. -/
def pending (log : LogFile) : Bytes := log.writer.elim [] LogWriter.pending

/-- The file as it is after everything from position `cut` on was lost. -/
def cutTo (log : LogFile) (cut : Nat) : LogFile :=
  { log with content := log.content.map (·.take cut) }

/-- On a medium that takes all bytes, `data` is what is in the file, followed by
what the writer keeps back. -/
structure Carries (log : LogFile) (data : Bytes) : Prop where
  healthy : log.full = false
  sound : ∀ writer, log.writer = some writer → writer.failure = none
  bytes : log.bytes ++ log.pending = data

variable {log : LogFile} {content data : Bytes} {writer : LogWriter}

theorem flush_healthy (content : Bytes) (writer : LogWriter) :
    flush false content writer = (content ++ writer.pending, { writer with pending := [] }) := by
  simp [flush, transfer]

/-- Taking bytes adds them behind all others. -/
theorem accept_healthy (hsound : writer.failure = none) (content data : Bytes) :
    ∃ content' pending', accept false content writer data = (content', ⟨pending', none⟩) ∧
      content' ++ pending' = content ++ writer.pending ++ data := by
  obtain ⟨pending, failure⟩ := writer
  cases hsound
  have htransfer : ∀ content, transfer false content data = .ok (content ++ data) := fun _ => by
    simp [transfer]
  by_cases hfits : data.length > bufferSize - pending.length
  · by_cases hsmall : data.length < bufferSize
    · refine ⟨content ++ pending, data, ?_, rfl⟩
      simp [accept, flush_healthy, hfits, hsmall]
    · refine ⟨content ++ pending ++ data, [], ?_, List.append_nil _⟩
      simp [accept, flush_healthy, hfits, hsmall, htransfer]
  · by_cases hsmall : data.length < bufferSize
    · refine ⟨content, pending ++ data, ?_, (List.append_assoc _ _ _).symm⟩
      simp [accept, hfits, hsmall]
    · -- Bytes as many as the buffer takes fit only if it is empty.
      have hempty : pending = [] :=
        List.length_eq_zero_iff.1 (by unfold bufferSize at hfits hsmall; omega)
      refine ⟨content ++ data, pending, ?_, by simp [hempty]⟩
      simp [accept, hfits, hsmall, htransfer]

/-! ## Operations -/

theorem carries_closed (content : Option Bytes) : (closed content).Carries (content.getD []) where
  healthy := rfl
  sound := fun _ hwriter => by cases hwriter
  bytes := List.append_nil _

namespace Carries

theorem content_eq (h : log.Carries data) (hnothing : log.pending = [])
    (hfile : log.content.isSome) : log.content = some data := by
  obtain ⟨content, hcontent⟩ := Option.isSome_iff_exists.1 hfile
  have hbytes := h.bytes
  rw [hnothing, List.append_nil, LogFile.bytes, hcontent] at hbytes
  rw [hcontent, ← hbytes]
  rfl

theorem close (h : log.Carries data) : log.close.Carries data ∧ log.close.writer = none := by
  unfold LogFile.close
  split
  · rename_i hwriter
    exact ⟨h, hwriter⟩
  · rename_i writer hwriter
    refine ⟨⟨h.healthy, fun _ hnone => (by cases hnone), ?_⟩, rfl⟩
    have hbytes := h.bytes
    rw [pending, hwriter] at hbytes
    simpa [pending, LogFile.bytes, h.healthy, flush_healthy] using hbytes

theorem openWriter (h : log.Carries data) : log.openWriter.Carries data where
  healthy := h.close.1.healthy
  sound := fun _ hwriter => by
    cases hwriter
    rfl
  bytes := by
    have hbytes := h.close.1.bytes
    rw [pending, h.close.2] at hbytes
    exact hbytes

/-- A write to an open log is accepted, and its bytes come behind all others. -/
theorem write (h : log.Carries data) (hopen : log.writer.isSome) (record : LogRecord) :
    ∃ log', log.write record = (.ok (), log') ∧ log'.Carries (data ++ record.encode) ∧
      log'.writer.isSome := by
  obtain ⟨writer, hwriter⟩ := Option.isSome_iff_exists.1 hopen
  obtain ⟨content, pending, haccept, hbytes⟩ :=
    accept_healthy (h.sound writer hwriter) log.bytes record.encode
  refine ⟨{ log with content := some content, writer := some ⟨pending, none⟩ }, ?_,
    ⟨h.healthy, fun _ hnew => (by cases hnew; rfl), ?_⟩, rfl⟩
  · rw [LogFile.write, hwriter, h.healthy]
    dsimp only
    rw [haccept]
  · have hdata := h.bytes
    rw [LogFile.pending, hwriter] at hdata
    rw [← hdata]
    exact hbytes

/-- A force of an open log is accepted and brings everything into the file. -/
theorem force (h : log.Carries data) (hopen : log.writer.isSome) :
    ∃ log', log.force = (.ok (), log') ∧ log'.Carries data ∧ log'.content = some data := by
  obtain ⟨⟨pending, failure⟩, hwriter⟩ := Option.isSome_iff_exists.1 hopen
  obtain rfl : failure = none := h.sound _ hwriter
  have hdata := h.bytes
  rw [LogFile.pending, hwriter] at hdata
  refine ⟨{ log with content := some data, writer := some ⟨[], none⟩ }, ?_,
    ⟨h.healthy, fun _ hnew => (by cases hnew; rfl), List.append_nil _⟩, rfl⟩
  rw [LogFile.force, hwriter]
  simp [h.healthy, flush_healthy, ← hdata]

end Carries

end LogFile

/-! ## Runs -/

/-- What a client does with a log file. -/
inductive LogCall where
  | openWriter
  | write (record : LogRecord)
  | force
  | close
deriving DecidableEq

namespace LogCall

def run (call : LogCall) (log : LogFile) : Except Error Unit × LogFile :=
  match call with
  | .openWriter => (.ok (), log.openWriter)
  | .write record => log.write record
  | .force => log.force
  | .close => (.ok (), log.close)

def afterAll (calls : List LogCall) (log : LogFile) : LogFile :=
  calls.foldl (fun log call => (call.run log).2) log

/-- The record that a call has written, if it was answered without an error. -/
def recorded (call : LogCall) (log : LogFile) : List LogRecord :=
  match call, (call.run log).1 with
  | .write record, .ok () => [record]
  | _, _ => []

/-- The records that calls have written, in order. -/
def written : List LogCall → LogFile → List LogRecord
  | [], _ => []
  | call :: calls, log => call.recorded log ++ written calls (call.run log).2

end LogCall

namespace LogFile

variable {log : LogFile} {data : Bytes}

theorem write_eq_ok_iff (h : log.Carries data) (record : LogRecord) :
    (log.write record).1 = .ok () ↔ log.writer.isSome := by
  constructor
  · intro hok
    unfold LogFile.write at hok
    split at hok
    · cases hok
    · rename_i hwriter
      rw [hwriter]
      rfl
  · intro hopen
    obtain ⟨log', hwrite, -⟩ := h.write hopen record
    rw [hwrite]

theorem force_eq_ok_iff (h : log.Carries data) : (log.force).1 = .ok () ↔ log.writer.isSome := by
  constructor
  · intro hok
    unfold LogFile.force at hok
    split at hok
    · cases hok
    · rename_i hwriter
      rw [hwriter]
      rfl
  · intro hopen
    obtain ⟨log', hforce, -⟩ := h.force hopen
    rw [hforce]

/-- A call adds what it has written. -/
theorem Carries.run (h : log.Carries data) (call : LogCall) :
    (call.run log).2.Carries (data ++ LogRecord.encodeAll (call.recorded log)) := by
  cases call with
  | openWriter =>
      simpa [LogCall.run, LogCall.recorded, LogRecord.encodeAll] using h.openWriter
  | write record =>
      by_cases hopen : log.writer.isSome
      · obtain ⟨log', hwrite, hlog', -⟩ := h.write hopen record
        simpa [LogCall.run, LogCall.recorded, hwrite, LogRecord.encodeAll] using hlog'
      · rw [Option.not_isSome_iff_eq_none] at hopen
        simpa [LogCall.run, LogCall.recorded, LogFile.write, hopen, LogRecord.encodeAll] using h
  | force =>
      by_cases hopen : log.writer.isSome
      · obtain ⟨log', hforce, hlog', -⟩ := h.force hopen
        simpa [LogCall.run, LogCall.recorded, hforce, LogRecord.encodeAll] using hlog'
      · rw [Option.not_isSome_iff_eq_none] at hopen
        simpa [LogCall.run, LogCall.recorded, LogFile.force, hopen, LogRecord.encodeAll] using h
  | close =>
      simpa [LogCall.run, LogCall.recorded, LogRecord.encodeAll] using h.close.1

theorem Carries.afterAll (h : log.Carries data) (calls : List LogCall) :
    (LogCall.afterAll calls log).Carries
      (data ++ LogRecord.encodeAll (LogCall.written calls log)) := by
  induction calls generalizing log data with
  | nil => simpa [LogCall.afterAll, LogCall.written, LogRecord.encodeAll] using h
  | cons call calls ih =>
      rw [LogCall.written, LogRecord.encodeAll_append, ← List.append_assoc]
      exact ih (h.run call)

/-! ## The file is there -/

theorem isSome_content_run (h : log.content.isSome) (call : LogCall) :
    (call.run log).2.content.isSome := by
  cases call with
  | openWriter => rfl
  | write record =>
      rw [LogCall.run, LogFile.write]
      split
      · exact h
      · rfl
  | force =>
      rw [LogCall.run, LogFile.force]
      split
      · exact h
      · rfl
  | close =>
      rw [LogCall.run, LogFile.close]
      split
      · exact h
      · rfl

theorem isSome_content_afterAll (h : log.content.isSome) (calls : List LogCall) :
    (LogCall.afterAll calls log).content.isSome := by
  induction calls generalizing log with
  | nil => exact h
  | cons call calls ih => exact ih (isSome_content_run h call)

/-- Opening a log makes its file. -/
theorem isSome_content_of_mem {calls : List LogCall} (hopened : .openWriter ∈ calls)
    (log : LogFile) : (LogCall.afterAll calls log).content.isSome := by
  induction calls generalizing log with
  | nil => cases hopened
  | cons call calls ih =>
      rcases List.mem_cons.1 hopened with rfl | hlater
      · have hfile : log.openWriter.content.isSome := rfl
        exact isSome_content_afterAll hfile calls
      · exact ih hlater _

/-- A file of whole records is read to its end, or to the cut. -/
theorem records_of_content {records : List LogRecord} (hfits : ∀ record ∈ records, record.Fits)
    (hcontent : log.content = some (LogRecord.encodeAll records)) :
    log.records = .ok records ∧
      ∀ cut, (log.cutTo cut).records = .ok (LogRecord.wholeBefore cut records) := by
  constructor
  · rw [LogFile.records, hcontent]
    exact congrArg Except.ok (LogRecord.decodeAll_encodeAll hfits)
  · intro cut
    rw [LogFile.records, cutTo, hcontent]
    exact congrArg Except.ok (LogRecord.decodeAll_take hfits cut)

end LogFile

/-- A log file that was absent or held whole records is opened, written, forced
and closed, any number of times, on a medium that takes all bytes. Writes and
forces are answered without an error while the log is open. After a force that
is answered so, and after a close, reading the file yields the records that it
held at first and those written since, in order; and when the file is then cut,
it yields just the records that lie wholly before the cut. -/
theorem log_reads_back {stored : Option (List LogRecord)} {calls : List LogCall}
    (hopened : .openWriter ∈ calls) {start log : LogFile}
    (hstart : start = .closed (stored.map LogRecord.encodeAll))
    (hlog : log = LogCall.afterAll calls start)
    (hfits : ∀ record ∈ stored.getD [] ++ LogCall.written calls start, record.Fits) :
    (∀ record, (log.write record).1 = .ok () ↔ log.writer.isSome) ∧
    ((log.force).1 = .ok () ↔ log.writer.isSome) ∧
    ∀ log', log.force = (.ok (), log') ∨ log.close = log' →
      log'.records = .ok (stored.getD [] ++ LogCall.written calls start) ∧
      ∀ cut, (log'.cutTo cut).records
        = .ok (LogRecord.wholeBefore cut (stored.getD [] ++ LogCall.written calls start)) := by
  have hcarries : log.Carries
      (LogRecord.encodeAll (stored.getD [] ++ LogCall.written calls start)) := by
    have hfirst : start.Carries (LogRecord.encodeAll (stored.getD [])) := by
      rw [hstart]
      cases stored <;> exact LogFile.carries_closed _
    rw [LogRecord.encodeAll_append, hlog]
    exact hfirst.afterAll calls
  refine ⟨LogFile.write_eq_ok_iff hcarries, LogFile.force_eq_ok_iff hcarries, fun log' hdone => ?_⟩
  refine LogFile.records_of_content hfits ?_
  rcases hdone with hforce | rfl
  · have hopen : log.writer.isSome := (LogFile.force_eq_ok_iff hcarries).1 (by rw [hforce])
    obtain ⟨_, hforce', -, hcontent⟩ := hcarries.force hopen
    rw [hforce] at hforce'
    cases hforce'
    exact hcontent
  · obtain ⟨hclosed, hnobody⟩ := hcarries.close
    refine hclosed.content_eq (by rw [LogFile.pending, hnobody]; rfl) ?_
    have hfile : log.content.isSome := hlog ▸ LogFile.isSome_content_of_mem hopened start
    exact LogFile.isSome_content_run hfile .close

/-- A log of one record. -/
def LogFile.ofSmall : LogFile := .closed (some (LogRecord.encodeAll [.small]))

/-- It is opened twice, for one record each time. -/
def LogCall.twoOpenings : List LogCall :=
  [.openWriter, .write .small, .close, .openWriter, .write { LogRecord.small with before := [] }]

theorem log_reads_back_twoOpenings :
    (LogCall.afterAll LogCall.twoOpenings .ofSmall).close.records
      = .ok [.small, .small, { LogRecord.small with before := [] }] ∧
    ((LogCall.afterAll LogCall.twoOpenings .ofSmall).close.cutTo 80).records
      = .ok [.small, .small] := by
  have hread := @log_reads_back (some [.small]) LogCall.twoOpenings (by decide) .ofSmall _ rfl rfl
    (by decide +kernel)
  obtain ⟨hrecords, hcut⟩ := hread.2.2 _ (.inr rfl)
  have hwritten : [LogRecord.small] ++ LogCall.written LogCall.twoOpenings .ofSmall
      = [.small, .small, { LogRecord.small with before := [] }] := by
    decide +kernel
  have hcut80 : LogRecord.wholeBefore 80 [.small, .small, { LogRecord.small with before := [] }]
      = [.small, .small] := by
    decide +kernel
  constructor
  · rw [← hwritten]
    exact hrecords
  · rw [← hcut80, ← hwritten]
    exact hcut 80

end HeapStore
