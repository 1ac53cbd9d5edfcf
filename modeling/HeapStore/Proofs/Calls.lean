import HeapStore.Proofs.Completion
import HeapStore.Proofs.Moves
import HeapStore.Proofs.Slots

/-!
# Calls on the pool

A `Call` is one operation that a client asks of the pool; a run makes one
call after the other (`Call.afterAll`), and goes on whatever a call
answers.

However a call ends, it has made a number of moves (`Call.moves`). So what
every `Move` keeps holds in every state of every run. Giving back a lock
on the client's own account is the one call that is not made of moves; it
changes the locks and nothing else.
-/

namespace HeapStore

open HeapStore.Action Engine

/-- What a client asks of the pool. -/
inductive Call where
  | getPage (txn : TxnId) (page : PageId) (access : Access)
  | evict (latched : Frame → Bool)
  | insert (txn : TxnId) (table : TableId) (tuple : Tuple)
  | delete (txn : TxnId) (record : Option RecordId)
  | scan (stop : Item → Bool) (scan : Scan)
  | commit (txn : TxnId)
  | abort (txn : TxnId)
  | flushPage (page : PageId)
  | flushPages (txn : TxnId)
  | flushAll
  | discard (page : PageId)
  | release (txn : TxnId) (page : PageId)

/-- What the pool answers. -/
inductive Answer where
  | frame (frame : Frame)
  | tuple (tuple : Tuple)
  | items (items : List Item) (scan : Scan)
  | done

namespace Call

def run : Call → Action Answer
  | .getPage txn page access => Answer.frame <$> Engine.getPage txn page access
  | .evict latched => (fun _ => .done) <$> Engine.evict latched
  | .insert txn table tuple => Answer.tuple <$> Engine.insert txn table tuple
  | .delete txn record => (fun _ => .done) <$> Engine.delete txn record
  | .scan stop source => (fun (items, source) => .items items source) <$> source.takeUntil stop
  | .commit txn => (fun _ => .done) <$> Engine.commit txn
  | .abort txn => (fun _ => .done) <$> Engine.abort txn
  | .flushPage page => (fun _ => .done) <$> Engine.writeBack page
  | .flushPages txn => (fun _ => .done) <$> Engine.flushPages txn
  | .flushAll => (fun _ => .done) <$> Engine.flushAll
  | .discard page => (fun _ => .done) <$> Engine.discard page
  | .release txn page => (fun _ => .done) <$> Engine.release txn page

/-- The transaction for which a call looks at pages. -/
def reader? : Call → Option TxnId
  | .getPage txn _ _ => some txn
  | .insert txn _ _ => some txn
  | .delete txn _ => some txn
  | .scan _ source => some source.txn
  | _ => none

/-- The engine after a call, whatever it answered. -/
def after (call : Call) (engine : Engine) : Engine := call.run.after engine

/-- The engine after a number of calls, one after the other. -/
def afterAll (calls : List Call) (engine : Engine) : Engine :=
  calls.foldl (fun engine call => call.after engine) engine

end Call

/-! ## Moves -/

/-- The moves that calls are made of. -/
inductive Move : Engine → Engine → Prop where
  | quiet {txn : TxnId} {e e' : Engine} (h : Quiet txn e e') : Move e e'
  /-- An owner changes its page. -/
  | change {e : Engine} {txn : TxnId} {page : PageId} {frame : Frame} {changed : Page}
      (hpeek : e.pool.cache.peek page = some frame) (howns : e.pool.locks.Owns txn page)
      (hchanged : frame.page.Becomes changed) : Move e (e.store (changed.markDirty txn))
  | log {e : Engine} {log : LogSink} : Move e { e with log }
  | writeBack {page : PageId} {e e' : Engine} (h : WritesBack page e e') : Move e e'
  /-- A resident page is restored. -/
  | restore {page : PageId} {e e' : Engine} (hresident : (e.pool.cache.peek page).isSome)
      (h : Restores page e e') : Move e e'
  | letGo {txn : TxnId} {e : Engine} : Move e (e.letGo txn)
  | discard {page : PageId} {e : Engine} : Move e { e with pool := e.pool.discard page }

/-- Any number of moves. -/
abbrev MovePath : Engine → Engine → Prop := Relation.ReflTransGen Move

instance : Std.Refl MovePath := ⟨fun _ => .refl⟩

variable {e e' : Engine} {txn : TxnId}

theorem QuietPath.movePath (h : QuietPath txn e e') : MovePath e e' := by
  induction h with
  | refl => exact .refl
  | tail _ hmove ih => exact ih.tail (.quiet hmove)

theorem Inserts.movePath {tuple answer : Tuple} (h : Inserts txn tuple e answer e') :
    MovePath e e' := by
  cases h with
  | mk hpath hpeek howns hinsert =>
      exact hpath.movePath.tail (.change hpeek howns (.insert hinsert))

theorem Deletes.movePath {record : RecordId} (h : Deletes txn record e e') : MovePath e e' := by
  cases h with
  | mk hpath hpeek howns hdelete =>
      exact hpath.movePath.tail (.change hpeek howns (.delete hdelete))

theorem Action.Through.writesBack_movePath {pages : List PageId}
    (h : Through WritesBack pages e e') : MovePath e e' := by
  induction h with
  | nil => exact .refl
  | cons hstep _ ih => exact .head (.writeBack hstep) ih

theorem Restores.isSome_peek {page p : PageId} (h : Restores page e e')
    (hresident : (e.pool.cache.peek p).isSome) : (e'.pool.cache.peek p).isSome := by
  cases h with
  | mk _ _ =>
      simp only [Pool.install, Recency.peek_put]
      split
      · rfl
      · exact hresident

theorem Action.Through.restores_movePath {pages : List PageId} (h : Through Restores pages e e')
    (hresident : ∀ page ∈ pages, (e.pool.cache.peek page).isSome) : MovePath e e' := by
  induction h with
  | nil => exact .refl
  | cons hstep _ ih =>
      refine .head (.restore (hresident _ List.mem_cons_self) hstep) (ih fun page hmem => ?_)
      exact hstep.isSome_peek (hresident page (List.mem_cons_of_mem _ hmem))

theorem WritesUpTo.movePath {rest : List PageId} (h : WritesUpTo txn rest e e') :
    MovePath e e' := by
  obtain ⟨written, -, hwritten⟩ := h
  exact hwritten.writesBack_movePath

theorem RestoresUpTo.movePath {rest : List PageId} (h : RestoresUpTo txn rest e e') :
    MovePath e e' := by
  obtain ⟨restored, hpages, hrestored⟩ := h
  refine hrestored.restores_movePath fun page hmem => ?_
  have hdirtied : page ∈ e.pool.dirtiedBy txn := by
    rw [hpages]
    exact List.mem_append_left _ hmem
  obtain ⟨frame, hpeek, -⟩ := mem_dirtiedBy.1 hdirtied
  rw [hpeek]
  rfl

/-! ## The moves of a call -/

theorem writeBack_moves (page : PageId) : (writeBack page).Moves MovePath := by
  intro e
  refine (writeBack_ends page e).mono ?_ ?_
  · exact fun _ _ h => .single (.writeBack h)
  · rintro _ _ ⟨-, log, rfl⟩
    exact .single .log

theorem commit_moves (txn : TxnId) : (Engine.commit txn).Moves MovePath := by
  intro e
  refine (commit_ends txn e).mono ?_ ?_
  · rintro _ _ ⟨e₁, h, rfl⟩
    exact h.movePath.tail .letGo
  · rintro _ e' ⟨page, rest, e₁, log, h, -, hrest⟩
    have hlog : MovePath e { e₁ with log } := h.movePath.tail .log
    rcases hrest with rfl | ⟨unrestored, e₂, hrestore, rfl | rfl⟩
    · exact hlog
    · exact hlog.trans hrestore.movePath
    · exact (hlog.trans hrestore.movePath).tail .letGo

theorem abort_moves (txn : TxnId) : (Engine.abort txn).Moves MovePath := by
  intro e
  refine (abort_ends txn e).mono ?_ ?_
  · rintro _ _ ⟨e₁, h, rfl⟩
    exact h.movePath.tail .letGo
  · rintro _ e' ⟨page, rest, e₁, h, -, rfl | rfl⟩
    · exact h.movePath
    · exact h.movePath.tail .letGo

namespace Call

theorem moves (call : Call) (hrelease : ∀ txn page, call ≠ .release txn page) :
    call.run.Moves MovePath := by
  cases call with
  | getPage txn page access =>
      exact Moves.map (fun e => (getPage_moves txn page access e).mono
        (fun _ _ h => h.movePath) (fun _ _ h => h.movePath)) _
  | evict latched =>
      exact Moves.map (fun e => (evict_moves ⟨0⟩ latched e).mono
        (fun _ _ h => h.movePath) (fun _ _ h => h.movePath)) _
  | insert txn table tuple =>
      exact Moves.map (fun e => (insert_ends txn table tuple e).mono
        (fun _ _ h => h.movePath) (fun _ _ h => h.movePath)) _
  | delete txn record =>
      exact Moves.map (fun e => (delete_ends txn record e).mono
        (fun _ _ ⟨_, _, h⟩ => h.movePath) (fun _ _ h => h.movePath)) _
  | scan stop source =>
      exact Moves.map (fun e => (scan_moves stop source e).mono
        (fun _ _ h => h.movePath) (fun _ _ h => h.movePath)) _
  | commit txn => exact (commit_moves txn).map _
  | abort txn => exact (abort_moves txn).map _
  | flushPage page => exact (writeBack_moves page).map _
  | flushPages txn =>
      refine Moves.map (fun e => ?_) _
      refine (flushPages_ends txn e).mono (fun _ _ h => h.movePath) ?_
      rintro _ _ ⟨page, rest, e₁, log, h, -, rfl⟩
      exact h.movePath.tail .log
  | flushAll =>
      refine Moves.map (fun e => ?_) _
      simp only [Engine.flushAll, ends_bind, ends_get]
      exact Moves.forM (fun page _ => writeBack_moves page) e
  | discard page =>
      have hdiscard : (Engine.discard page).Moves MovePath :=
        fun _ => ends_updatePool.2 (.single .discard)
      exact hdiscard.map _
  | release txn page => exact absurd rfl (hrelease txn page)

/-- A call gives a lock back, or makes a number of moves. -/
theorem release_or_movePath (call : Call) (e : Engine) :
    (∃ txn page, call = .release txn page) ∨ MovePath e (call.after e) := by
  by_cases hcall : ∃ txn page, call = .release txn page
  · exact .inl hcall
  · exact .inr ((call.moves fun txn page heq => hcall ⟨txn, page, heq⟩).after e)

end Call

/-! ## A small engine -/

/-- A file of integers, two on each page of nine bytes. -/
def HeapFile.pairs (number : Nat) (name : String) : HeapFile :=
  { handle := { number, path := name, name, pageSize := 9 }
    absolutePath := "/" ++ name
    id := ⟨number.toUInt32⟩
    schema := .unnamed [.int] }

/-- An engine with two empty tables and no page in its pool. -/
def Engine.twoTables (capacity : Nat) (refusals : Refusals) : Engine :=
  { disk := { root := "", files := ∅, traffic := [⟨0, 0⟩, ⟨0, 0⟩] }
    catalog :=
      { byId := ((∅ : Std.ExtTreeMap TableId TableEntry).insert ⟨0⟩ ⟨.pairs 0 "a", "a", ""⟩).insert
          ⟨1⟩ ⟨.pairs 1 "b", "b", ""⟩
        byName := ((∅ : Std.ExtTreeMap String TableId).insert "a" ⟨0⟩).insert "b" ⟨1⟩ }
    log := .memory (.empty refusals)
    pool := .empty capacity }

theorem file_twoTables {capacity : Nat} {refusals : Refusals} {id : TableId} {file : HeapFile}
    (h : (Engine.twoTables capacity refusals).catalog.file id = .ok file) :
    (id = ⟨0⟩ ∧ file = .pairs 0 "a") ∨ (id = ⟨1⟩ ∧ file = .pairs 1 "b") := by
  simp only [Engine.twoTables, Catalog.file, Catalog.entry, Catalog.entry?,
    Std.ExtTreeMap.getElem?_insert, Std.LawfulEqCmp.compare_eq_iff_eq] at h
  by_cases hb : (⟨1⟩ : TableId) = id
  · rw [if_pos hb] at h
    cases h
    exact .inr ⟨hb.symm, rfl⟩
  · rw [if_neg hb] at h
    by_cases ha : (⟨0⟩ : TableId) = id
    · rw [if_pos ha] at h
      cases h
      exact .inl ⟨ha.symm, rfl⟩
    · rw [if_neg ha] at h
      simp [Except.map] at h

/-- A row of one integer. -/
def Tuple.single (value : Int32) : Tuple := ⟨.unnamed [.int], [.int value], none, rfl⟩

end HeapStore
