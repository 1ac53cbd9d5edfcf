import HeapStore.Engine.Completion
import HeapStore.Proofs.Actions
import HeapStore.Proofs.Recency

/-!
# What ending a transaction does

Writing back and restoring walk over the pages that a transaction changed.
For one page, `WritesBack` and `Restores` say what has happened when this
succeeds; when it fails, it was impossible, and at most the log has moved
on. For the walk, `WritesUpTo` and `RestoresUpTo` say which pages are left.

Headline lemmas: `flushPages_ends`, `restorePages_ends`, `commit_ends` and
`abort_ends`.
-/

namespace HeapStore

open HeapStore.Action Engine

/-- The log after it took a record and became durable, if it did not refuse
either. -/
def LogSink.accept? (log : LogSink) (record : LogRecord) : Option LogSink :=
  match log.write record with
  | (.ok (), log) =>
    match log.force with
    | (.ok (), log) => some log
    | (.error _, _) => none
  | (.error _, _) => none

/-- The engine after the locks of a transaction were given back, which
happens when no page with its changes is left. -/
def Engine.letGo (engine : Engine) (txn : TxnId) : Engine :=
  { engine with
    pool :=
      if (engine.pool.dirtiedBy txn).isEmpty then engine.pool.releaseAll txn else engine.pool }

theorem mem_dirtiedBy {pool : Pool} {txn : TxnId} {page : PageId} :
    page ∈ pool.dirtiedBy txn
      ↔ ∃ frame, pool.cache.peek page = some frame ∧ frame.page.dirtier = some txn := by
  simp [Pool.dirtiedBy, Recency.mem_toList]

theorem nodup_dirtiedBy (pool : Pool) (txn : TxnId) : (pool.dirtiedBy txn).Nodup := by
  refine List.Nodup.sublist (List.filter_sublist.map Prod.fst) ?_
  rw [Recency.map_fst_toList]
  exact pool.cache.nodup_keys

theorem releaseIfClean_ends {txn : TxnId} {e : Engine} {answered : Unit → Engine → Prop}
    {failed : Failure → Engine → Prop} :
    (releaseIfClean txn).Ends e answered failed ↔ answered () (e.letGo txn) := Iff.rfl

/-! ## One page -/

/-- A page is written back: nothing is done for a clean one, and a dirty one
is logged, written to its file and clean from then on. -/
inductive WritesBack (page : PageId) : Engine → Engine → Prop where
  | clean {e : Engine}
      (hclean : ∀ frame, e.pool.cache.peek page = some frame → frame.page.dirtier = none) :
      WritesBack page e e
  | dirty {e : Engine} {frame : Frame} {txn : TxnId} {file : HeapFile} {log : LogSink}
      {disk : Disk} (hpeek : e.pool.cache.peek page = some frame)
      (hdirty : frame.page.dirtier = some txn)
      (hfile : e.catalog.file frame.page.id.table = .ok file)
      (hlog : e.log.accept? (recordOf txn frame.page) = some log)
      (hwrite : file.writePage e.disk frame.page = .ok disk) :
      WritesBack page e { e with disk, log, pool := e.pool.store frame.page.markClean }

/-- A page is replaced by a clean copy of what its file holds. -/
inductive Restores (page : PageId) : Engine → Engine → Prop where
  | mk {e : Engine} {file : HeapFile} {loaded : Page} {disk : Disk}
      (hfile : e.catalog.file page.table = .ok file)
      (hread : file.readPage e.disk page = .ok (loaded, disk)) :
      Restores page e { e with disk, pool := (e.pool.install loaded).2 }

theorem writeBack_ends (page : PageId) (e : Engine) :
    (writeBack page).Ends e (fun _ => WritesBack page e)
      (fun _ e' => (∀ e'', ¬WritesBack page e e'') ∧ ∃ log, e' = { e with log }) := by
  simp only [writeBack, ends_bind, ends_get]
  split
  · rename_i hnone
    exact .clean fun frame hpeek => by rw [hnone] at hpeek; cases hpeek
  rename_i resident copy hpeek
  split
  · rename_i hclean
    refine .clean fun frame hpeek' => ?_
    rw [hpeek, Option.some.injEq] at hpeek'
    rw [← hpeek', hclean]
  rename_i txn hdirty
  -- The page is dirty, so each step that fails leaves no way to write it.
  have hstuck : (∀ file log disk, e.catalog.file resident.id.table = .ok file →
      e.log.accept? (recordOf txn resident) = some log →
      file.writePage e.disk resident ≠ .ok disk) →
      ∀ e'', ¬WritesBack page e e'' := by
    intro h e'' hwrites
    cases hwrites with
    | clean hclean =>
        rw [hclean _ hpeek] at hdirty
        cases hdirty
    | dirty hpeek' hdirty' hfile hlog hwrite =>
        obtain rfl := Option.some.inj (hpeek.symm.trans hpeek')
        obtain rfl := Option.some.inj (hdirty.symm.trans hdirty')
        exact h _ _ _ hfile hlog hwrite
  simp only [ends_bind, ends_fileOf]
  split
  case h_2 =>
    rename_i cause hcause
    refine ⟨hstuck fun file _ _ hfile => ?_, e.log, rfl⟩
    rw [hcause] at hfile
    cases hfile
  rename_i file hfile
  rw [ends_writeLog]
  split
  case h_2 =>
    rename_i log hlog
    refine ⟨hstuck fun _ _ _ _ haccept => ?_, log, rfl⟩
    simp [LogSink.accept?, hlog] at haccept
  rename_i log hlog
  rw [ends_forceLog]
  split
  case h_2 =>
    rename_i log' hforce
    refine ⟨hstuck fun _ _ _ _ haccept => ?_, log', rfl⟩
    simp [LogSink.accept?, hlog, hforce] at haccept
  rename_i log' hforce
  rw [ends_writePage]
  split
  case h_2 =>
    rename_i failure hfailure
    refine ⟨hstuck fun file' _ _ hfile' _ hwrite => ?_, log', rfl⟩
    obtain rfl := Except.ok.inj (hfile.symm.trans hfile')
    rw [hfailure] at hwrite
    cases hwrite
  rename_i disk hwrite
  exact .dirty hpeek hdirty hfile (by simp [LogSink.accept?, hlog, hforce]) hwrite

theorem restorePage_ends (page : PageId) (e : Engine) :
    (restorePage page).Ends e (fun _ => Restores page e)
      (fun _ e' => (∀ e'', ¬Restores page e e'') ∧ e' = e) := by
  simp only [restorePage, ends_bind, ends_fileOf, ends_readPage, ends_install, ends_pure]
  split
  case h_2 =>
    rename_i cause hcause
    refine ⟨fun e'' h => ?_, trivial⟩
    cases h with
    | mk hfile _ => rw [hcause] at hfile; cases hfile
  rename_i file hfile
  split
  case h_2 =>
    rename_i failure hfailure
    refine ⟨fun e'' h => ?_, trivial⟩
    cases h with
    | mk hfile' hread =>
        obtain rfl := Except.ok.inj (hfile.symm.trans hfile')
        rw [hfailure] at hread
        cases hread
  rename_i loaded disk hread
  exact .mk hfile hread

/-! ## All pages of a transaction -/

/-- The pages changed by a transaction are written back, in order, up to
`rest`. -/
def WritesUpTo (txn : TxnId) (rest : List PageId) (e e' : Engine) : Prop :=
  ∃ written, e.pool.dirtiedBy txn = written ++ rest ∧ Through WritesBack written e e'

/-- The pages changed by a transaction are restored, in order, up to
`rest`. -/
def RestoresUpTo (txn : TxnId) (rest : List PageId) (e e' : Engine) : Prop :=
  ∃ restored, e.pool.dirtiedBy txn = restored ++ rest ∧ Through Restores restored e e'

theorem flushPages_ends (txn : TxnId) (e : Engine) :
    (flushPages txn).Ends e (fun _ => WritesUpTo txn [] e)
      (fun _ e' => ∃ page rest e₁ log, WritesUpTo txn (page :: rest) e e₁
        ∧ (∀ e'', ¬WritesBack page e₁ e'') ∧ e' = { e₁ with log }) := by
  simp only [flushPages, ends_bind, ends_get]
  refine (ends_forM writeBack_ends _ e).mono ?_ ?_
  · intro _ e' h
    exact ⟨_, (List.append_nil _).symm, h⟩
  · rintro _ e' ⟨written, page, rest, e₁, hpages, hwritten, hstuck, log, rfl⟩
    exact ⟨page, rest, e₁, log, ⟨written, hpages, hwritten⟩, hstuck, rfl⟩

theorem restorePages_ends (txn : TxnId) (e : Engine) :
    (restorePages txn).Ends e (fun _ => RestoresUpTo txn [] e)
      (fun _ e' => ∃ page rest, RestoresUpTo txn (page :: rest) e e'
        ∧ ∀ e'', ¬Restores page e' e'') := by
  simp only [restorePages, ends_bind, ends_get]
  refine (ends_forM restorePage_ends _ e).mono ?_ ?_
  · intro _ e' h
    exact ⟨_, (List.append_nil _).symm, h⟩
  · rintro _ e' ⟨restored, page, rest, e₁, hpages, hrestored, hstuck, rfl⟩
    exact ⟨page, rest, ⟨restored, hpages, hrestored⟩, hstuck⟩

/-! ## Commit and abort -/

/-- An abort. What could not be restored when it fails is left as it
was, and locks are given back unless the failure is a broken contract. -/
theorem abort_ends (txn : TxnId) (e : Engine) :
    (abort txn).Ends e (fun _ e' => ∃ e₁, RestoresUpTo txn [] e e₁ ∧ e' = e₁.letGo txn)
      (fun _ e' => ∃ page rest e₁, RestoresUpTo txn (page :: rest) e e₁
        ∧ (∀ e'', ¬Restores page e₁ e'') ∧ (e' = e₁ ∨ e' = e₁.letGo txn)) := by
  simp only [abort, ends_bind, ends_attempt, releaseIfClean_ends, ends_ofExcept]
  refine (restorePages_ends txn e).mono ?_ ?_
  · intro _ e₁ h
    exact ⟨e₁, h, rfl⟩
  · rintro (cause | cause) e₁ ⟨page, rest, hup, hstuck⟩
    · exact ⟨page, rest, e₁, hup, hstuck, .inr rfl⟩
    · exact ⟨page, rest, e₁, hup, hstuck, .inl rfl⟩

/-- A commit. When it fails, a page could not be written; the pages before
it are written all the same, and the others are restored as far as
possible. -/
theorem commit_ends (txn : TxnId) (e : Engine) :
    (commit txn).Ends e (fun _ e' => ∃ e₁, WritesUpTo txn [] e e₁ ∧ e' = e₁.letGo txn)
      (fun _ e' => ∃ page rest e₁ log, WritesUpTo txn (page :: rest) e e₁
        ∧ (∀ e'', ¬WritesBack page e₁ e'')
        ∧ (e' = { e₁ with log }
          ∨ ∃ unrestored e₂, RestoresUpTo txn unrestored { e₁ with log } e₂
            ∧ (e' = e₂ ∨ e' = e₂.letGo txn))) := by
  simp only [commit, ends_bind, ends_attempt]
  refine (flushPages_ends txn e).mono ?_ ?_
  · intro _ e₁ h
    exact ⟨e₁, h, rfl⟩
  · rintro (cause | cause) _ ⟨page, rest, e₁, log, hup, hstuck, rfl⟩
    · simp only [releaseIfClean_ends, ends_ofExcept]
      refine (restorePages_ends txn { e₁ with log }).mono ?_ ?_
      · intro _ e₂ h
        exact ⟨page, rest, e₁, log, hup, hstuck, .inr ⟨[], e₂, h, .inr rfl⟩⟩
      · rintro (cause' | cause') e₂ ⟨page', rest', h, -⟩
        · exact ⟨page, rest, e₁, log, hup, hstuck, .inr ⟨page' :: rest', e₂, h, .inr rfl⟩⟩
        · exact ⟨page, rest, e₁, log, hup, hstuck, .inr ⟨page' :: rest', e₂, h, .inl rfl⟩⟩
    · exact ⟨page, rest, e₁, log, hup, hstuck, .inl rfl⟩

end HeapStore
