import HeapStore.HeapFile.Edit
import HeapStore.HeapFile.Scan
import HeapStore.Proofs.Actions
import HeapStore.Proofs.Locks
import HeapStore.Proofs.Recency

/-!
# What access to pages does

Getting pages, scanning, inserting and deleting are made of the same few
moves: a lock is granted, a resident page is used, a clean page leaves the
pool, a page comes into it, a file grows by an empty page, a lock that was
taken for one look is given back. None of them changes a tuple (`Quiet`).
An insert or delete that succeeds ends with one more move, which replaces
a page that the transaction owns by a changed one (`Inserts`, `Deletes`).

This file takes the actions apart into these moves, once and for all:
whatever the moves keep is kept by the actions. Headline lemmas:
`getPage_ends`, `scan_moves`, `insert_ends`, `delete_ends`.
-/

namespace HeapStore

open HeapStore.Action Engine

/-- The engine with one resident page changed in place. -/
def Engine.store (engine : Engine) (page : Page) : Engine :=
  { engine with pool := engine.pool.store page }

/-! ## The moves -/

/-- How a pool comes to have room for one more page. -/
inductive MakesRoom : Engine → Engine → Prop where
  | spare {e : Engine} (hroom : e.pool.isFull = false) : MakesRoom e e
  | evict {e : Engine} {page : PageId} (hfull : e.pool.isFull = true)
      (hvictim : e.pool.victim? (fun _ => false) = some page) :
      MakesRoom e { e with pool := e.pool.discard page }

/-- How a transaction gets a page that it may lock: from the pool, or else
from the file into the pool. -/
inductive Fetches (txn : TxnId) (page : PageId) (mode : LockMode) :
    Engine → Frame → Engine → Prop where
  | hit {e : Engine} {locks : LockTable} {frame : Frame}
      (hlock : e.pool.locks.acquire? txn page mode = some locks)
      (hpeek : e.pool.cache.peek page = some frame) :
      Fetches txn page mode e frame
        { e with pool := { e.pool with locks, cache := e.pool.cache.put page frame } }
  | miss {e e₁ : Engine} {locks : LockTable} {file : HeapFile} {loaded : Page} {disk : Disk}
      (hlock : e.pool.locks.acquire? txn page mode = some locks)
      (habsent : e.pool.cache.peek page = none)
      (hfile : e.catalog.file page.table = .ok file)
      (hroom : MakesRoom { e with pool := { e.pool with locks } } e₁)
      (hread : file.readPage e₁.disk page = .ok (loaded, disk)) :
      Fetches txn page mode e ⟨loaded, e₁.pool.copies⟩
        { e₁ with disk, pool := (e₁.pool.install loaded).2 }

/-- A move of a transaction's access to pages that changes no tuple. -/
inductive Quiet (txn : TxnId) : Engine → Engine → Prop where
  | lock {e : Engine} {page : PageId} {mode : LockMode} {locks : LockTable}
      (hlock : e.pool.locks.acquire? txn page mode = some locks) :
      Quiet txn e { e with pool := { e.pool with locks } }
  | use {e : Engine} {page : PageId} {frame : Frame}
      (hheld : e.pool.locks.holds txn page = true)
      (hpeek : e.pool.cache.peek page = some frame) :
      Quiet txn e { e with pool := { e.pool with cache := e.pool.cache.put page frame } }
  | drop {e : Engine} {page : PageId} {frame : Frame}
      (hpeek : e.pool.cache.peek page = some frame) (hclean : frame.page.isDirty = false) :
      Quiet txn e { e with pool := e.pool.discard page }
  | load {e e₁ : Engine} {page : PageId} {file : HeapFile} {loaded : Page} {disk : Disk}
      (habsent : e.pool.cache.peek page = none)
      (hfile : e.catalog.file page.table = .ok file)
      (hroom : MakesRoom e e₁)
      (hread : file.readPage e₁.disk page = .ok (loaded, disk)) :
      Quiet txn e { e₁ with disk, pool := (e₁.pool.install loaded).2 }
  | append {e : Engine} {table : TableId} {file : HeapFile} {page : PageId} {disk : Disk}
      (hfile : e.catalog.file table = .ok file)
      (happend : file.appendPage e.disk = .ok (page, disk)) :
      Quiet txn e { e with disk }
  /-- A page is looked at under a lock that is taken for this alone. -/
  | giveBack {e e₁ : Engine} {page : PageId} {frame : Frame}
      (hheld : e.pool.locks.holds txn page = false)
      (hfetch : Fetches txn page .shared e frame e₁) :
      Quiet txn e { e₁ with pool := e₁.pool.release txn page }

/-- Any number of quiet moves. -/
abbrev QuietPath (txn : TxnId) : Engine → Engine → Prop := Relation.ReflTransGen (Quiet txn)

instance (txn : TxnId) : Std.Refl (QuietPath txn) := ⟨fun _ => .refl⟩

theorem Fetches.catalog_eq {txn : TxnId} {page : PageId} {mode : LockMode} {e e' : Engine}
    {frame : Frame} (h : Fetches txn page mode e frame e') : e'.catalog = e.catalog := by
  cases h with
  | hit _ _ => rfl
  | miss _ _ _ hroom _ => cases hroom <;> rfl

theorem Quiet.catalog_eq {txn : TxnId} {e e' : Engine} (h : Quiet txn e e') :
    e'.catalog = e.catalog := by
  cases h with
  | lock _ => rfl
  | use _ _ => rfl
  | drop _ _ => rfl
  | load _ _ hroom _ => cases hroom <;> rfl
  | append _ _ => rfl
  | giveBack _ hfetch => exact hfetch.catalog_eq

theorem QuietPath.catalog_eq {txn : TxnId} {e e' : Engine} (h : QuietPath txn e e') :
    e'.catalog = e.catalog := by
  induction h with
  | refl => rfl
  | tail _ hmove ih => rw [hmove.catalog_eq, ih]

/-! ## Room for a page -/

theorem Pool.peek_empty (capacity : Nat) (page : PageId) :
    (empty capacity).cache.peek page = none :=
  Recency.peek_empty page

theorem peek_of_victim? {pool : Pool} {latched : Frame → Bool} {page : PageId}
    (h : pool.victim? latched = some page) :
    ∃ frame, pool.cache.peek page = some frame ∧ frame.page.isDirty = false := by
  obtain ⟨⟨id, frame⟩, hfind, rfl⟩ := Option.map_eq_some_iff.1 h
  have hmem := List.mem_of_find?_eq_some hfind
  have hclean := List.find?_some hfind
  simp only [Bool.and_eq_true, Bool.not_eq_eq_eq_not, Bool.not_true] at hclean
  exact ⟨frame, Recency.mem_toList.1 hmem, hclean.1⟩

theorem quiet_of_victim? (txn : TxnId) {e : Engine} {latched : Frame → Bool} {page : PageId}
    (h : e.pool.victim? latched = some page) :
    Quiet txn e { e with pool := e.pool.discard page } := by
  obtain ⟨frame, hpeek, hclean⟩ := peek_of_victim? h
  exact .drop hpeek hclean

theorem evict_moves (txn : TxnId) (latched : Frame → Bool) :
    (evict latched).Moves (QuietPath txn) := by
  intro e
  rw [ends_evict]
  split
  · rename_i page hvictim
    exact .single (quiet_of_victim? txn hvictim)
  · exact .refl

theorem makeRoom_ends (e : Engine) :
    makeRoom.Ends e (fun _ e₁ => MakesRoom e e₁) (fun _ e₁ => e₁ = e) := by
  rw [ends_makeRoom]
  split
  · rename_i hfull
    rw [ends_evict]
    split
    · rename_i page hvictim
      exact .evict hfull hvictim
    · rfl
  · rename_i hroom
    exact .spare (by simpa using hroom)

theorem MakesRoom.quiet (txn : TxnId) {e e₁ : Engine} (h : MakesRoom e e₁) :
    QuietPath txn e e₁ := by
  cases h with
  | spare _ => exact .refl
  | evict _ hvictim => exact .single (quiet_of_victim? txn hvictim)

theorem MakesRoom.peek_eq_none {e e₁ : Engine} {page : PageId} (h : MakesRoom e e₁)
    (habsent : e.pool.cache.peek page = none) : e₁.pool.cache.peek page = none := by
  cases h with
  | spare _ => exact habsent
  | evict _ _ =>
      simp only [Pool.discard, Recency.peek_remove]
      split
      · rfl
      · exact habsent

/-! ## Getting a page -/

theorem getPage_of_refused {txn : TxnId} {page : PageId} {access : Access} {e : Engine}
    (h : e.pool.locks.acquire? txn page access.lockMode = none) :
    getPage txn page access e = .error (.error (.transactionAborted txn page)) e := by
  simp only [getPage, bind_apply, lock_apply, h]

/-- A page that cannot be got may have cost a lock and a clean page. -/
theorem getPage_ends (txn : TxnId) (page : PageId) (access : Access) (e : Engine) :
    (getPage txn page access).Ends e (Fetches txn page access.lockMode e)
      (fun _ => QuietPath txn e) := by
  simp only [getPage, ends_bind, ends_lock, ends_touch]
  split
  case h_2 => exact .refl
  rename_i locks hlock
  have hlocked : QuietPath txn e { e with pool := { e.pool with locks } } := .single (.lock hlock)
  split
  · rename_i frame hpeek
    exact .hit hlock hpeek
  · rename_i habsent
    simp only [ends_fileOf, ends_readPage, ends_install]
    split
    case h_2 => exact hlocked
    rename_i file hfile
    refine (makeRoom_ends _).mono ?_ ?_
    · intro _ e₁ hroom
      split
      · rename_i loaded disk hread
        exact .miss hlock habsent hfile hroom hread
      · exact hlocked.trans (hroom.quiet txn)
    · rintro _ _ rfl
      exact hlocked

theorem Fetches.quiet {txn : TxnId} {page : PageId} {mode : LockMode} {e e' : Engine}
    {frame : Frame} (h : Fetches txn page mode e frame e') : QuietPath txn e e' := by
  cases h with
  | hit hlock hpeek =>
      have hheld := LockTable.holds_of_acquire? hlock
      exact .trans (.single (.lock hlock)) (.single (.use hheld hpeek))
  | miss hlock habsent hfile hroom hread =>
      exact .trans (.single (.lock hlock)) (.single (.load habsent hfile hroom hread))

theorem getPage_moves (txn : TxnId) (page : PageId) (access : Access) :
    (getPage txn page access).Moves (QuietPath txn) :=
  fun e => (getPage_ends txn page access e).mono (fun _ _ h => h.quiet) (fun _ _ h => h)

/-- A page that was got is in the pool. -/
theorem Fetches.peek {txn : TxnId} {page : PageId} {mode : LockMode} {e e' : Engine}
    {frame : Frame} (h : Fetches txn page mode e frame e') :
    e'.pool.cache.peek page = some frame := by
  cases h with
  | hit _ _ => simp [Recency.peek_put]
  | miss _ _ _ _ hread =>
      simp [Pool.install, Recency.peek_put, HeapFile.id_of_readPage hread]

theorem Fetches.acquire? {txn : TxnId} {page : PageId} {mode : LockMode} {e e' : Engine}
    {frame : Frame} (h : Fetches txn page mode e frame e') :
    e.pool.locks.acquire? txn page mode = some e'.pool.locks := by
  cases h with
  | hit hlock _ => exact hlock
  | miss hlock _ _ hroom _ => cases hroom <;> exact hlock

/-! ## Scanning -/

/-- The walk over the pages that are left, after the items of one page. -/
def Scan.goOn (stop : Item → Bool) (file : HeapFile) (txn : TxnId) (count : Nat)
    (nextPage : UInt32) : List Item × Option (List Item) → Action (List Item × Scan)
  | (items, some rest) =>
    return (items, { file, txn, nextPage := nextPage + 1,
                     pending := rest.filterMap Except.toOption })
  | (items, none) => do
    let (more, scan) ← takePages stop file txn count (nextPage + 1)
    return (items ++ more, scan)

theorem takePages_succ {stop : Item → Bool} {file : HeapFile} {txn : TxnId} (count : Nat)
    (nextPage : UInt32) (e : Engine) :
    Scan.takePages stop file txn (count + 1) nextPage e
      = match Engine.getPage txn ⟨file.id, nextPage⟩ .read e with
        | .ok frame e₁ =>
          Scan.goOn stop file txn count nextPage (cut stop (frame.page.tuples.map .ok)) e₁
        | .error (.error cause) e₁ =>
          Scan.goOn stop file txn count nextPage (cut stop [.error cause]) e₁
        | .error (.violation cause) e₁ => .error (.violation cause) e₁ := by
  rw [Scan.takePages, bind_apply]
  unfold Action.attempt
  rcases Engine.getPage txn ⟨file.id, nextPage⟩ .read e with ⟨frame, e₁⟩ | ⟨cause | cause, e₁⟩
  · dsimp only
    generalize cut stop (frame.page.tuples.map .ok) = cuts
    obtain ⟨items, _ | rest⟩ := cuts <;> rfl
  · dsimp only
    generalize cut stop [.error cause] = cuts
    obtain ⟨items, _ | rest⟩ := cuts <;> rfl
  · rfl

theorem takePages_moves (stop : Item → Bool) (file : HeapFile) (txn : TxnId) (count : Nat)
    (next : UInt32) : (Scan.takePages stop file txn count next).Moves (QuietPath txn) := by
  induction count generalizing next with
  | zero => exact Moves.pure _
  | succ count ih =>
      refine (getPage_moves txn ⟨file.id, next⟩ .read).attempt.bind fun answer => ?_
      rcases answer with cause | frame
      all_goals
        refine Moves.bind (Moves.pure _) fun cuts => ?_
        obtain ⟨items, _ | rest⟩ := cuts
        · exact (ih (next + 1)).bind fun _ => Moves.pure _
        · exact Moves.pure _

theorem scan_moves (stop : Item → Bool) (scan : Scan) :
    (scan.takeUntil stop).Moves (QuietPath scan.txn) := by
  unfold Scan.takeUntil
  split
  · exact Moves.pure _
  · refine Moves.bind ?_ fun count => (takePages_moves _ _ _ _ _).bind fun _ => Moves.pure _
    intro e
    rw [ends_pageCount]
    split <;> exact .refl

/-! ## Inserting -/

/-- An insert that succeeds: at the end the tuple goes onto a page that
the transaction owns. -/
inductive Inserts (txn : TxnId) (tuple : Tuple) : Engine → Tuple → Engine → Prop where
  | mk {e e₁ : Engine} {page : PageId} {frame : Frame} {record : RecordId} {changed : Page}
      (hpath : QuietPath txn e e₁)
      (hpeek : e₁.pool.cache.peek page = some frame) (howns : e₁.pool.locks.Owns txn page)
      (hinsert : frame.page.insert tuple = .ok (record, changed)) :
      Inserts txn tuple e (tuple.withRecord (some record)) (e₁.store (changed.markDirty txn))

variable {txn : TxnId} {table : TableId} {file : HeapFile} {tuple : Tuple} {e e₁ : Engine}

theorem Inserts.after {answer : Tuple} {e' : Engine}
    (hpath : QuietPath txn e e₁) (h : Inserts txn tuple e₁ answer e') :
    Inserts txn tuple e answer e' := by
  cases h with
  | mk hpath' hpeek howns hinsert =>
      exact .mk (hpath.trans hpath') hpeek howns hinsert

theorem insertInto_ends {page : PageId} {frame : Frame}
    (h : Fetches txn page .exclusive e frame e₁) :
    (HeapFile.insertInto frame txn tuple).Ends e₁ (fun answer => Inserts txn tuple e answer.2)
      (fun _ => QuietPath txn e) := by
  simp only [HeapFile.insertInto, ends_bind, ends_ofExcept]
  split
  · rename_i answer hanswer
    obtain ⟨record, changed⟩ := answer
    exact .mk h.quiet h.peek (LockTable.owns_of_acquire? h.acquire?) hanswer
  · exact h.quiet

/-- A search that ends without an answer has changed no tuple, and one
that ends with an answer has inserted. -/
theorem insertWithin_ends (count : Nat) (next : UInt32) (e : Engine) :
    (HeapFile.insertWithin file txn tuple count next).Ends e
      (fun answer e' => match answer with
        | some answer => Inserts txn tuple e answer.2 e'
        | none => QuietPath txn e e')
      (fun _ => QuietPath txn e) := by
  induction count generalizing next e with
  | zero => exact .refl
  | succ count ih =>
      simp only [HeapFile.insertWithin, ends_bind, ends_holds]
      refine (getPage_ends txn ⟨file.id, next⟩ .read e).mono ?_ fun _ _ h => h
      intro frame e₁ hfetch
      split
      · simp only [ends_bind]
        refine (getPage_ends txn ⟨file.id, next⟩ .write e₁).mono ?_
          fun _ _ h => hfetch.quiet.trans h
        intro frame e₂ hfetch'
        refine (insertInto_ends hfetch').mono ?_ fun _ _ h => hfetch.quiet.trans h
        exact fun _ _ h => h.after hfetch.quiet
      · have hrest : ∀ e₂, QuietPath txn e e₂ →
            (HeapFile.insertWithin file txn tuple count (next + 1)).Ends e₂
              (fun answer e' => match answer with
                | some answer => Inserts txn tuple e answer.2 e'
                | none => QuietPath txn e e')
              (fun _ => QuietPath txn e) := by
          intro e₂ hpath
          refine (ih (next + 1) e₂).mono ?_ fun _ _ h => hpath.trans h
          rintro (_ | answer) e' h
          · exact hpath.trans h
          · exact h.after hpath
        split
        · rename_i hheld
          simp only [ends_bind, ends_release]
          exact hrest _ (.single (.giveBack (by simpa using hheld) hfetch))
        · exact hrest _ hfetch.quiet

theorem insertAppended_ends (hfile : e.catalog.file table = .ok file) :
    (HeapFile.insertAppended file txn tuple).Ends e
      (fun answer => Inserts txn tuple e answer.2) (fun _ => QuietPath txn e) := by
  simp only [HeapFile.insertAppended, ends_bind, ends_appendPage]
  split
  case h_2 => exact .refl
  rename_i page disk happend
  have hpath : QuietPath txn e { e with disk } := .single (.append hfile happend)
  refine (getPage_ends txn page .write _).mono ?_ fun _ _ h => hpath.trans h
  intro frame e₁ hfetch
  refine (insertInto_ends hfetch).mono ?_ fun _ _ h => hpath.trans h
  exact fun _ _ h => h.after hpath

theorem insertBehind_ends (retries : Nat) (hfile : e.catalog.file table = .ok file) :
    (HeapFile.insertBehind file txn tuple retries).Ends e
      (fun answer => Inserts txn tuple e answer.2) (fun _ => QuietPath txn e) := by
  induction retries generalizing e with
  | zero => exact insertAppended_ends hfile
  | succ retries ih =>
      simp only [HeapFile.insertBehind, ends_bind, ends_attempt]
      refine (insertAppended_ends hfile).mono ?_ ?_
      · exact fun _ _ h => h
      · rintro (cause | cause) e₁ hpath
        · have hfile₁ : e₁.catalog.file table = .ok file := by rw [hpath.catalog_eq, hfile]
          dsimp only
          split
          · rename_i heq
            cases heq
          · refine (ih hfile₁).mono ?_ fun _ _ h => hpath.trans h
            exact fun _ _ h => h.after hpath
          · exact hpath
        · exact hpath

/-- An insert that fails may have cost locks, clean pages and empty pages
in the file, but no tuple. -/
theorem insert_ends (txn : TxnId) (table : TableId) (tuple : Tuple) (e : Engine) :
    (Engine.insert txn table tuple).Ends e (Inserts txn tuple e)
      (fun _ => QuietPath txn e) := by
  simp only [Engine.insert, ends_bind, ends_fileOf]
  split
  case h_2 => exact .refl
  rename_i file hfile
  unfold HeapFile.insert
  split
  · exact .refl
  · simp only [ends_bind, ends_pageCount]
    split
    case h_2 => exact .refl
    rename_i count _
    refine (insertWithin_ends count.toNat 0 e).mono ?_ fun _ _ h => h
    rintro (_ | answer) e₁ h
    · have hfile₁ : e₁.catalog.file table = .ok file := by rw [h.catalog_eq, hfile]
      refine (insertBehind_ends _ hfile₁).mono ?_ fun _ _ h' => h.trans h'
      exact fun _ _ h' => h'.after h
    · exact h

/-! ## Deleting -/

/-- A delete that succeeds: a slot of a page that the transaction owns is
freed. -/
inductive Deletes (txn : TxnId) (record : RecordId) : Engine → Engine → Prop where
  | mk {e e₁ : Engine} {frame : Frame} {changed : Page}
      (hpath : QuietPath txn e e₁)
      (hpeek : e₁.pool.cache.peek record.page = some frame)
      (howns : e₁.pool.locks.Owns txn record.page)
      (hdelete : frame.page.delete (some record) = .ok changed) :
      Deletes txn record e (e₁.store (changed.markDirty txn))

theorem delete_ends (txn : TxnId) (record : Option RecordId) (e : Engine) :
    (Engine.delete txn record).Ends e
      (fun _ e' => ∃ address, record = some address ∧ Deletes txn address e e')
      (fun _ => QuietPath txn e) := by
  cases record with
  | none => exact .refl
  | some record =>
      simp only [Engine.delete, ends_bind, ends_fileOf]
      split
      case h_2 => exact .refl
      simp only [HeapFile.delete]
      split
      · exact .refl
      · simp only [ends_bind]
        refine (getPage_ends txn record.page .write e).mono ?_ fun _ _ h => h
        intro frame e₁ hfetch
        rw [ends_ofExcept]
        split
        · rename_i changed hdelete
          exact ⟨record, rfl, .mk hfetch.quiet hfetch.peek
            (LockTable.owns_of_acquire? hfetch.acquire?) hdelete⟩
        · exact hfetch.quiet

end HeapStore
