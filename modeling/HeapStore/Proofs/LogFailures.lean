import HeapStore.Proofs.LogFiles

/-!
# Failures of a log

A record that was written is kept back, so it is a later request that meets the
medium's refusal of its bytes, and that request need not be a force. The medium may
also refuse bytes at one time and take them at another. So what a force may answer
hangs on everything that happened before it.

As long as nothing was refused, what is in the file and what the writer keeps back
are together the old contents and all records written since; what is refused is not
lost, but stays with the writer (`LogFile.Holds`). From the first refusal on the
log is at rest: no request changes the file or what the writer keeps back, and every
force gives the reason of that refusal (`LogFile.afterAll_of_failure`).

Headline: `log_failure_is_remembered`.
-/

namespace HeapStore

/-- What is asked of an open log, and whether the medium refuses bytes meanwhile. -/
inductive LogRequest where
  | write (full : Bool) (record : LogRecord)
  | force (full : Bool)
deriving DecidableEq

namespace LogRequest

def run : LogRequest → LogFile → Except Error Unit × LogFile
  | .write full record, log => { log with full }.write record
  | .force full, log => { log with full }.force

def afterAll (requests : List LogRequest) (log : LogFile) : LogFile :=
  requests.foldl (fun log request => (request.run log).2) log

/-- Whether the medium refuses bytes while the request is served. -/
def full : LogRequest → Bool
  | .write full _ => full
  | .force full => full

def record? : LogRequest → Option LogRecord
  | .write _ record => some record
  | .force _ => none

/-- The records that are written, in order. -/
def records (requests : List LogRequest) : List LogRecord := requests.filterMap record?

end LogRequest

namespace LogFile

variable {log : LogFile} {full : Bool} {content old : Bytes} {writer : LogWriter}
  {kept : List LogRecord} {reason : String}

/-- The first failure of the open writer. -/
def failure? (log : LogFile) : Option String := log.writer.bind LogWriter.failure

/-! ## After a failure -/

theorem accept_of_failure (h : writer.failure = some reason) (content data : Bytes) :
    accept full content writer data = (content, writer) := by
  rw [accept, h]
  rfl

/-- After a failure nothing changes but the medium, and a force gives the reason. -/
theorem run_of_failure (hfile : log.content.isSome) (h : log.failure? = some reason)
    (request : LogRequest) :
    (request.run log).2 = { log with full := request.full } ∧
      ∀ full, request = .force full → (request.run log).1 = .error (.log reason) := by
  obtain ⟨writer, hwriter, hfailure⟩ := Option.bind_eq_some_iff.1 h
  obtain ⟨content, hcontent⟩ := Option.isSome_iff_exists.1 hfile
  cases request with
  | write full record =>
      refine ⟨?_, nofun⟩
      simp [LogRequest.run, LogFile.write, hwriter, accept_of_failure hfailure, LogFile.bytes,
        hcontent, LogRequest.full]
  | force full =>
      refine ⟨?_, fun _ _ => ?_⟩
      all_goals
        simp [LogRequest.run, LogFile.force, hwriter, hfailure, LogFile.bytes, hcontent,
          LogRequest.full]

theorem afterAll_of_failure (hfile : log.content.isSome) (h : log.failure? = some reason)
    (requests : List LogRequest) :
    (LogRequest.afterAll requests log).content = log.content ∧
      (LogRequest.afterAll requests log).writer = log.writer := by
  induction requests generalizing log with
  | nil => exact ⟨rfl, rfl⟩
  | cons request requests ih =>
      obtain ⟨hsame, -⟩ := run_of_failure hfile h request
      have hrest : LogRequest.afterAll (request :: requests) log
          = LogRequest.afterAll requests { log with full := request.full } :=
        congrArg (LogRequest.afterAll requests) hsame
      rw [hrest]
      exact ih hfile h

/-! ## Before a failure -/

theorem transfer_cases (full : Bool) (content data : Bytes) :
    transfer full content data = .ok (content ++ data) ∨
      full = true ∧ transfer full content data = .error noSpace := by
  rw [transfer]
  split
  · rename_i hrefused
    exact .inr ⟨hrefused.1, rfl⟩
  · exact .inl rfl

theorem flush_cases (full : Bool) (content pending : Bytes) :
    flush full content ⟨pending, none⟩ = (content ++ pending, ⟨[], none⟩) ∨
      full = true ∧ flush full content ⟨pending, none⟩ = (content, ⟨pending, some noSpace⟩) := by
  rcases transfer_cases full content pending with htaken | ⟨hfull, hrefused⟩
  · exact .inl (by simp only [flush, htaken])
  · exact .inr ⟨hfull, by simp only [flush, hrefused]⟩

/-- Bytes come behind all others; or the medium refuses bytes, and these are the only
ones that are lost. -/
theorem accept_cases (full : Bool) (content pending data : Bytes) :
    (∃ content' pending', accept full content ⟨pending, none⟩ data = (content', ⟨pending', none⟩) ∧
      content' ++ pending' = content ++ pending ++ data) ∨
    full = true ∧ ∃ content' pending',
      accept full content ⟨pending, none⟩ data = (content', ⟨pending', some noSpace⟩) ∧
      content' ++ pending' = content ++ pending := by
  by_cases hfits : data.length > bufferSize - pending.length
  · rcases flush_cases full content pending with hflush | ⟨hfull, hflush⟩
    · by_cases hsmall : data.length < bufferSize
      · refine .inl ⟨content ++ pending, data, ?_, rfl⟩
        simp [accept, hfits, hflush, hsmall]
      · rcases transfer_cases full (content ++ pending) data with htaken | ⟨hfull, hrefused⟩
        · refine .inl ⟨content ++ pending ++ data, [], ?_, List.append_nil _⟩
          simp [accept, hfits, hflush, hsmall, htaken]
        · refine .inr ⟨hfull, content ++ pending, [], ?_, List.append_nil _⟩
          simp [accept, hfits, hflush, hsmall, hrefused]
    · refine .inr ⟨hfull, content, pending, ?_, rfl⟩
      simp [accept, hfits, hflush]
  · by_cases hsmall : data.length < bufferSize
    · refine .inl ⟨content, pending ++ data, ?_, (List.append_assoc _ _ _).symm⟩
      simp [accept, hfits, hsmall]
    · -- Bytes as many as the buffer takes fit only if it is empty.
      have hempty : pending = [] :=
        List.length_eq_zero_iff.1 (by unfold bufferSize at hfits hsmall; omega)
      rcases transfer_cases full content data with htaken | ⟨hfull, hrefused⟩
      · refine .inl ⟨content ++ data, pending, ?_, by simp [hempty]⟩
        simp [accept, hfits, hsmall, htaken]
      · refine .inr ⟨hfull, content, pending, ?_, rfl⟩
        simp [accept, hfits, hsmall, hrefused]

/-- A log that was opened at the end of `old`: the stored forms of `kept` are in the
file behind `old`, or else with the writer. -/
structure Holds (log : LogFile) (old : Bytes) (kept : List LogRecord) : Prop where
  isOpen : log.writer.isSome
  isMade : log.content.isSome
  bytes : log.bytes ++ log.pending = old ++ LogRecord.encodeAll kept

namespace Holds

theorem congr {log' : LogFile} (h : log.Holds old kept) (hcontent : log'.content = log.content)
    (hwriter : log'.writer = log.writer) : log'.Holds old kept where
  isOpen := hwriter ▸ h.isOpen
  isMade := hcontent ▸ h.isMade
  bytes := by
    rw [LogFile.bytes, pending, hcontent, hwriter]
    exact h.bytes

theorem exists_pending (h : log.Holds old kept) (hsound : log.failure? = none) :
    ∃ content pending, log = ⟨some content, log.full, some ⟨pending, none⟩⟩ ∧
      content ++ pending = old ++ LogRecord.encodeAll kept := by
  obtain ⟨content, full, writer⟩ := log
  obtain ⟨content, rfl⟩ := Option.isSome_iff_exists.1 h.isMade
  obtain ⟨⟨pending, failure⟩, rfl⟩ := Option.isSome_iff_exists.1 h.isOpen
  obtain rfl : failure = none := hsound
  exact ⟨content, pending, rfl, h.bytes⟩

/-- A record is taken, or it is the one that the medium refuses. -/
theorem write_cases (h : log.Holds old kept) (hsound : log.failure? = none) (full : Bool)
    (record : LogRecord) {log' : LogFile}
    (hrun : ((LogRequest.write full record).run log).2 = log') :
    (log'.Holds old (kept ++ [record]) ∧ log'.failure? = none) ∨
      full = true ∧ log'.Holds old kept ∧ log'.failure? = some noSpace := by
  obtain ⟨content, pending, hlog, hbytes⟩ := h.exists_pending hsound
  have haccepted : log' =
      ⟨some (accept full content ⟨pending, none⟩ record.encode).1, full,
        some (accept full content ⟨pending, none⟩ record.encode).2⟩ := by
    rw [← hrun, hlog]
    rfl
  rcases accept_cases full content pending record.encode with
    ⟨content', pending', haccept, htaken⟩ | ⟨hfull, content', pending', haccept, hlost⟩
  · rw [haccept] at haccepted
    subst haccepted
    refine .inl ⟨⟨rfl, rfl, ?_⟩, rfl⟩
    have hone : LogRecord.encodeAll [record] = record.encode := List.append_nil _
    rw [LogRecord.encodeAll_append, hone, ← List.append_assoc, ← hbytes]
    exact htaken
  · rw [haccept] at haccepted
    subst haccepted
    exact .inr ⟨hfull, ⟨rfl, rfl, hlost.trans hbytes⟩, rfl⟩

/-- A force brings everything into the file, or finds that the medium refuses. -/
theorem force_cases (h : log.Holds old kept) (hsound : log.failure? = none) (full : Bool)
    {answer : Except Error Unit} {log' : LogFile}
    (hrun : (LogRequest.force full).run log = (answer, log')) :
    log'.Holds old kept ∧
    ((full = false ∧ answer = .ok () ∧ log'.failure? = none ∧
        log'.content = some (old ++ LogRecord.encodeAll kept)) ∨
      full = true ∧ ∃ reason, answer = .error (.log reason) ∧ log'.failure? = some reason) := by
  obtain ⟨content, pending, hlog, hbytes⟩ := h.exists_pending hsound
  rw [hlog] at hrun
  cases full with
  | false =>
      obtain ⟨rfl, rfl⟩ : .ok () = answer ∧
          ⟨some (content ++ pending), false, some ⟨[], none⟩⟩ = log' := by
        simpa [LogRequest.run, LogFile.force, LogFile.bytes, flush_healthy] using hrun
      rw [hbytes]
      exact ⟨⟨rfl, rfl, List.append_nil _⟩, .inl ⟨rfl, rfl, rfl, rfl⟩⟩
  | true =>
      obtain ⟨content', pending', reason, hbytes', rfl, rfl⟩ : ∃ content' pending' reason,
          content' ++ pending' = content ++ pending ∧ .error (.log reason) = answer ∧
          ⟨some content', true, some ⟨pending', some reason⟩⟩ = log' := by
        rcases flush_cases true content pending with hflush | ⟨-, hflush⟩
        · refine ⟨content ++ pending, [], notSyncable, List.append_nil _, ?_⟩
          simpa [LogRequest.run, LogFile.force, LogFile.bytes, hflush] using hrun
        · refine ⟨content, pending, noSpace, rfl, ?_⟩
          simpa [LogRequest.run, LogFile.force, LogFile.bytes, hflush] using hrun
      exact ⟨⟨rfl, rfl, hbytes'.trans hbytes⟩, .inr ⟨rfl, reason, rfl, rfl⟩⟩

end Holds

/-! ## Runs -/

/-- Of the records that were `written` a beginning is held: all of them, unless there
is a failure. -/
def Retains (log : LogFile) (old : Bytes) (written : List LogRecord) : Prop :=
  ∃ kept, kept <+: written ∧ log.Holds old kept ∧ (log.failure? = none → kept = written)

theorem Retains.run {written : List LogRecord} (h : log.Retains old written)
    (request : LogRequest) :
    (request.run log).2.Retains old (written ++ request.record?.toList) := by
  obtain ⟨kept, hkept, hholds, hall⟩ := h
  cases hfailure : log.failure? with
  | some reason =>
      obtain ⟨hsame, -⟩ := run_of_failure hholds.isMade hfailure request
      rw [hsame]
      refine ⟨kept, hkept.trans (List.prefix_append _ _), hholds.congr rfl rfl, fun hnone => ?_⟩
      have hfailure' : log.failure? = none := hnone
      rw [hfailure] at hfailure'
      cases hfailure'
  | none =>
      obtain rfl := hall hfailure
      cases request with
      | write full record =>
          rcases hholds.write_cases hfailure full record rfl with
            ⟨htaken, -⟩ | ⟨-, hlost, hfailure'⟩
          · exact ⟨_, List.prefix_rfl, htaken, fun _ => rfl⟩
          · refine ⟨kept, List.prefix_append _ _, hlost, fun hnone => ?_⟩
            rw [hfailure'] at hnone
            cases hnone
      | force full =>
          obtain ⟨hheld, -⟩ := hholds.force_cases hfailure full rfl
          refine ⟨kept, List.prefix_append _ _, hheld, fun _ => (List.append_nil kept).symm⟩

theorem retains_afterAll {written : List LogRecord} (h : log.Retains old written)
    (requests : List LogRequest) :
    (LogRequest.afterAll requests log).Retains old (written ++ LogRequest.records requests) := by
  induction requests generalizing log written with
  | nil => rwa [LogRequest.records, List.filterMap_nil, List.append_nil]
  | cons request requests ih =>
      have hrecords : LogRequest.records (request :: requests)
          = request.record?.toList ++ LogRequest.records requests := by
        cases request <;> rfl
      rw [hrecords, ← List.append_assoc]
      exact ih (h.run request)

theorem retains_openWriter (start : LogFile) :
    start.openWriter.Retains start.close.bytes [] :=
  ⟨[], List.prefix_rfl, ⟨rfl, rfl, rfl⟩, fun _ => rfl⟩

/-- Only a medium that refuses bytes makes a log fail. -/
theorem failure?_run {written : List LogRecord} (h : log.Retains old written)
    (hsound : log.failure? = none) {request : LogRequest} (hhealthy : request.full = false) :
    (request.run log).2.failure? = none := by
  obtain ⟨kept, -, hholds, -⟩ := h
  cases request with
  | write full record =>
      rcases hholds.write_cases hsound full record rfl with ⟨-, hsound'⟩ | ⟨hfull, -⟩
      · exact hsound'
      · exact absurd (hfull.symm.trans hhealthy) (by decide)
  | force full =>
      obtain ⟨-, ⟨-, -, hsound', -⟩ | ⟨hfull, -⟩⟩ := hholds.force_cases hsound full rfl
      · exact hsound'
      · exact absurd (hfull.symm.trans hhealthy) (by decide)

theorem failure?_afterAll {written : List LogRecord} (h : log.Retains old written)
    (hsound : log.failure? = none) {requests : List LogRequest}
    (hhealthy : ∀ request ∈ requests, request.full = false) :
    (LogRequest.afterAll requests log).failure? = none := by
  induction requests generalizing log written with
  | nil => exact hsound
  | cons request requests ih =>
      obtain ⟨hfirst, hothers⟩ := List.forall_mem_cons.1 hhealthy
      exact ih (h.run request) (failure?_run h hsound hfirst) hothers

/-- A force is answered without an error when everything written is in the file, or
with a reason that the log then has for all time. -/
theorem Retains.force {written : List LogRecord} (h : log.Retains old written)
    {answer : Except Error Unit} {log' : LogFile}
    (hrun : (LogRequest.force full).run log = (answer, log')) :
    (answer = .ok () ∧ log'.content = some (old ++ LogRecord.encodeAll written)) ∨
      ∃ reason, answer = .error (.log reason) ∧ log'.content.isSome ∧
        log'.failure? = some reason := by
  obtain ⟨kept, -, hholds, hall⟩ := h
  cases hfailure : log.failure? with
  | some reason =>
      obtain ⟨hsame, hanswer⟩ := run_of_failure hholds.isMade hfailure (.force full)
      rw [hrun] at hsame hanswer
      obtain rfl : log' = { log with full } := hsame
      exact .inr ⟨reason, hanswer full rfl, hholds.isMade, hfailure⟩
  | none =>
      obtain rfl := hall hfailure
      obtain ⟨hheld, ⟨-, hanswer, -, hcontent⟩ | ⟨-, reason, hanswer, hfailure'⟩⟩ :=
        hholds.force_cases hfailure full hrun
      · exact .inl ⟨hanswer, hcontent⟩
      · exact .inr ⟨reason, hanswer, hheld.isMade, hfailure'⟩

/-- The log is at rest: whatever is asked of it, the file stays as it is, and every
force gives the reason. -/
structure Fails (log : LogFile) (reason : String) : Prop where
  content : ∀ later, (LogRequest.afterAll later log).content = log.content
  force : ∀ later full,
    ((LogRequest.force full).run (LogRequest.afterAll later log)).1 = .error (.log reason)

theorem fails (hfile : log.content.isSome) (h : log.failure? = some reason) :
    log.Fails reason := by
  refine ⟨fun later => (afterAll_of_failure hfile h later).1, fun later full => ?_⟩
  obtain ⟨hcontent, hwriter⟩ := afterAll_of_failure hfile h later
  have hfailure : (LogRequest.afterAll later log).failure? = some reason := by
    rw [failure?, hwriter]
    exact h
  exact (run_of_failure (hcontent ▸ hfile) hfailure (.force full)).2 full rfl

end LogFile

/-- A log is opened at the end of a file, or of what a log that was open makes of it
when it is closed. Records are written to it and it is forced, while the medium takes
bytes at one time and refuses them at another.

- A force is answered without an error only if the file then holds what it held at
  first and the records written since, in order.
- The error of a force is one of the log. From then on, whatever is written and
  whether or not the medium takes bytes again, nothing is added to the file, and
  every force gives the same error. It is the same from the first refusal on, also
  when a write has met it.
- The file and what the writer keeps back, to be added when the log is closed, hold
  no records but those written before the first refusal, in order.
- As long as the medium takes all bytes there is no error. -/
theorem log_failure_is_remembered (start : LogFile) (requests : List LogRequest) :
    let log := LogRequest.afterAll requests start.openWriter
    (∀ full log', (LogRequest.force full).run log = (.ok (), log') →
      log'.content
        = some (start.close.bytes ++ LogRecord.encodeAll (LogRequest.records requests))) ∧
    (∀ full cause log', (LogRequest.force full).run log = (.error cause, log') →
      ∃ reason, cause = .log reason ∧ log'.Fails reason) ∧
    (∀ reason, log.failure? = some reason → log.Fails reason) ∧
    log.Retains start.close.bytes (LogRequest.records requests) ∧
    ((∀ request ∈ requests, request.full = false) →
      ((LogRequest.force false).run log).1 = .ok ()) := by
  intro log
  have hretains : log.Retains start.close.bytes (LogRequest.records requests) :=
    LogFile.retains_afterAll start.retains_openWriter requests
  refine ⟨fun full log' hrun => ?_, fun full cause log' hrun => ?_, fun reason hfailure => ?_,
    hretains, fun hhealthy => ?_⟩
  · obtain ⟨-, hcontent⟩ | ⟨reason, hanswer, -⟩ := hretains.force hrun
    · exact hcontent
    · cases hanswer
  · obtain ⟨hanswer, -⟩ | ⟨reason, hanswer, hfile, hfailure⟩ := hretains.force hrun
    · cases hanswer
    · cases hanswer
      exact ⟨reason, rfl, LogFile.fails hfile hfailure⟩
  · obtain ⟨kept, -, hholds, -⟩ := hretains
    exact LogFile.fails hholds.isMade hfailure
  · have hsound : log.failure? = none :=
      LogFile.failure?_afterAll start.retains_openWriter rfl hhealthy
    obtain ⟨kept, -, hholds, -⟩ := hretains
    obtain ⟨-, ⟨-, hanswer, -⟩ | ⟨hfull, -⟩⟩ := hholds.force_cases hsound false rfl
    · exact hanswer
    · cases hfull

/-- A record is forced; another one meets a medium that refuses bytes, which its force
finds out; a third is written, and the medium takes bytes again. -/
theorem log_failure_is_remembered_refusedOnce :
    let log := LogRequest.afterAll [.write false .small, .force false, .write false .small,
      .force true] LogFile.ofSmall.openWriter
    ((LogRequest.force false).run (LogRequest.afterAll [.write false .small, .force false]
      LogFile.ofSmall.openWriter)).1 = .ok () ∧
    log.failure? = some LogFile.noSpace ∧
    log.content = some (LogRecord.encodeAll [.small, .small]) ∧
    (LogRequest.afterAll [.write false .small] log).content = log.content ∧
    ((LogRequest.force false).run (LogRequest.afterAll [.write false .small] log)).1
      = .error (.log LogFile.noSpace) := by
  intro log
  obtain ⟨-, -, -, -, hforce⟩ := log_failure_is_remembered .ofSmall
    [.write false .small, .force false]
  obtain ⟨-, -, hfails, -⟩ := log_failure_is_remembered .ofSmall
    [.write false .small, .force false, .write false .small, .force true]
  have hfailure : log.failure? = some LogFile.noSpace := by decide +kernel
  have hlog := hfails _ hfailure
  exact ⟨hforce (by decide), hfailure, by decide +kernel, hlog.content _, hlog.force _ false⟩

end HeapStore
