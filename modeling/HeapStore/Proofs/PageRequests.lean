import HeapStore.Proofs.ChangedPages
import HeapStore.Proofs.GrantOrder
import HeapStore.Proofs.TableIndexes

/-!
# Requests for pages

A request for a page is granted or not by the lock table. Granted, it is
answered from the pool, or else the table is looked up, room is made and the
page is read, each of which may end it. What it has done by then depends on how
far it came: the lock is taken, a clean page may be gone.

Pages leave the pool only to make room, and then it is the clean one that was
not used for longest (`Pool.Leaves`). Nothing else in the pool changes, and
nothing in the files and in the log (`Engine.Spares`).

Headline: `page_request_effect`.
-/

namespace HeapStore

open HeapStore.Action Engine

/-- What an action answers. -/
def Action.answer {α : Type} (action : Action α) (engine : Engine) : Except Failure α :=
  match action engine with
  | .ok answer _ => .ok answer
  | .error failure _ => .error failure

theorem Action.ends_answer {α : Type} {action : Action α} {engine : Engine}
    {R : Except Failure α → Engine → Prop} :
    action.Ends engine (fun answer => R (.ok answer)) (fun failure => R (.error failure))
      ↔ R (action.answer engine) (action.after engine) := by
  unfold Ends answer after
  cases action engine <;> rfl

/-! ## Room for a page -/

/-- The pages that are left in a pool when one more has room: all of them if
there is room already, or else all but the clean one that was not used for
longest. -/
inductive Pool.Leaves (pool : Pool) : List (PageId × Frame) → Prop where
  | spare (hroom : pool.cache.size < pool.capacity) : pool.Leaves pool.cache.toList
  | evict {dirty rest : List (PageId × Frame)} {victim : PageId × Frame}
      (hfull : pool.capacity ≤ pool.cache.size)
      (hpages : pool.cache.toList = dirty ++ victim :: rest)
      (hdirty : ∀ pair ∈ dirty, pair.2.page.isDirty = true)
      (hclean : victim.2.page.isDirty = false) : pool.Leaves (dirty ++ rest)

namespace Pool

variable {pool : Pool} {page : PageId} {frame : Frame} {kept : List (PageId × Frame)}

theorem isFull_iff : pool.isFull = true ↔ pool.capacity ≤ pool.cache.size :=
  decide_eq_true_iff

theorem isFull_eq_false_iff : pool.isFull = false ↔ pool.cache.size < pool.capacity := by
  rw [← Bool.not_eq_true, isFull_iff, Nat.not_le]

/-- Without its entry, a key is gone from the walk, as no key is there
twice. -/
theorem toList_discard {before rest : List (PageId × Frame)}
    (hpages : pool.cache.toList = before ++ (page, frame) :: rest) :
    (pool.discard page).cache.toList = before ++ rest := by
  have hnodup := pool.cache.nodup_keys
  rw [← Recency.map_fst_toList, hpages, List.map_append, List.map_cons,
    List.nodup_middle, List.nodup_cons] at hnodup
  have hothers : ∀ pair ∈ before ++ rest, pair.1 ≠ page := by
    intro pair hmem hpair
    refine hnodup.1 ?_
    rw [← List.map_append]
    exact List.mem_map.2 ⟨pair, hmem, hpair⟩
  rw [Pool.discard, Recency.toList_remove, hpages, List.filter_append,
    List.filter_cons_of_neg (by simp), ← List.filter_append]
  exact List.filter_eq_self.2 fun pair hmem => decide_eq_true (hothers pair hmem)

theorem victim?_eq_none_iff : pool.victim? (fun _ => false) = none
    ↔ ∀ p frame, pool.cache.peek p = some frame → frame.page.isDirty = true := by
  simp [victim?, Recency.mem_toList]

theorem Leaves.sublist (h : pool.Leaves kept) : kept.Sublist pool.cache.toList := by
  cases h with
  | spare _ => exact List.Sublist.refl _
  | evict _ hpages _ _ =>
      rw [hpages]
      exact (List.Sublist.refl _).append (List.sublist_cons_self _ _)

theorem Leaves.mem_of_dirty (h : pool.Leaves kept) (hpeek : pool.cache.peek page = some frame)
    (hdirty : frame.page.isDirty = true) : (page, frame) ∈ kept := by
  have hmem := Recency.mem_toList.2 hpeek
  cases h with
  | spare _ => exact hmem
  | evict _ hpages _ hclean =>
      rw [hpages, List.mem_append, List.mem_cons] at hmem
      rcases hmem with hmem | rfl | hmem
      · exact List.mem_append_left _ hmem
      · rw [hdirty] at hclean
        cases hclean
      · exact List.mem_append_right _ hmem

end Pool

section

variable {txn other : TxnId} {page p : PageId} {access : Access} {locks : LockTable}
  {file : HeapFile} {frame : Frame} {kept : List (PageId × Frame)} {e e₁ e' : Engine}

theorem MakesRoom.leaves (h : MakesRoom e e₁) : e.pool.Leaves e₁.pool.cache.toList := by
  cases h with
  | spare hroom => exact .spare (Pool.isFull_eq_false_iff.1 hroom)
  | evict hfull hvictim =>
      obtain ⟨⟨victim, frame⟩, hfind, rfl⟩ := Option.map_eq_some_iff.1 hvictim
      obtain ⟨hclean, dirty, rest, hpages, hdirty⟩ := List.find?_eq_some_iff_append.1 hfind
      have hleft := Pool.toList_discard hpages
      dsimp only at hleft ⊢
      rw [hleft]
      exact .evict (Pool.isFull_iff.1 hfull) hpages (by simpa using hdirty) (by simpa using hclean)

theorem MakesRoom.locks_eq (h : MakesRoom e e₁) : e₁.pool.locks = e.pool.locks := by
  cases h <;> rfl

theorem MakesRoom.log_eq (h : MakesRoom e e₁) : e₁.log = e.log := by
  cases h <;> rfl

/-! ## The outcomes of a request -/

/-- What a request for a page comes to: its answer, and the engine it leaves. -/
inductive Requests (txn : TxnId) (page : PageId) (mode : LockMode) (e : Engine) :
    Except Failure Frame → Engine → Prop where
  | refused (hlock : e.pool.locks.acquire? txn page mode = none) :
      Requests txn page mode e (.error (.error (.transactionAborted txn page))) e
  | hit {locks : LockTable} {frame : Frame}
      (hlock : e.pool.locks.acquire? txn page mode = some locks)
      (hpeek : e.pool.cache.peek page = some frame) :
      Requests txn page mode e (.ok frame)
        { e with pool := { e.pool with locks, cache := e.pool.cache.put page frame } }
  | unknown {locks : LockTable} {cause : Error}
      (hlock : e.pool.locks.acquire? txn page mode = some locks)
      (habsent : e.pool.cache.peek page = none)
      (hfile : e.catalog.file page.table = .error cause) :
      Requests txn page mode e (.error (.error cause)) { e with pool := { e.pool with locks } }
  | full {locks : LockTable} {file : HeapFile}
      (hlock : e.pool.locks.acquire? txn page mode = some locks)
      (habsent : e.pool.cache.peek page = none)
      (hfile : e.catalog.file page.table = .ok file) (hfull : e.pool.isFull = true)
      (hnone : e.pool.victim? (fun _ => false) = none) :
      Requests txn page mode e (.error (.error .bufferPoolFull))
        { e with pool := { e.pool with locks } }
  | unread {e₁ : Engine} {locks : LockTable} {file : HeapFile} {failure : Failure}
      (hlock : e.pool.locks.acquire? txn page mode = some locks)
      (habsent : e.pool.cache.peek page = none)
      (hfile : e.catalog.file page.table = .ok file)
      (hroom : MakesRoom { e with pool := { e.pool with locks } } e₁)
      (hread : file.readPage e₁.disk page = .error failure) :
      Requests txn page mode e (.error failure) e₁
  | load {e₁ : Engine} {locks : LockTable} {file : HeapFile} {loaded : Page} {disk : Disk}
      (hlock : e.pool.locks.acquire? txn page mode = some locks)
      (habsent : e.pool.cache.peek page = none)
      (hfile : e.catalog.file page.table = .ok file)
      (hroom : MakesRoom { e with pool := { e.pool with locks } } e₁)
      (hread : file.readPage e₁.disk page = .ok (loaded, disk)) :
      Requests txn page mode e (.ok ⟨loaded, e₁.pool.copies⟩)
        { e₁ with disk, pool := (e₁.pool.install loaded).2 }

theorem getPage_requests (txn : TxnId) (page : PageId) (access : Access) (e : Engine) :
    Requests txn page access.lockMode e ((getPage txn page access).answer e)
      ((getPage txn page access).after e) := by
  refine ends_answer.1 ?_
  simp only [getPage, ends_bind, ends_lock, ends_touch]
  split
  case h_2 =>
    rename_i hlock
    exact .refused hlock
  rename_i locks hlock
  split
  · rename_i frame hpeek
    exact .hit hlock hpeek
  rename_i habsent
  simp only [ends_fileOf, ends_install]
  split
  case h_2 =>
    rename_i cause hfile
    exact .unknown hlock habsent hfile
  rename_i file hfile
  have hread : ∀ e₁, MakesRoom { e with pool := { e.pool with locks } } e₁ →
      (readPage file page).Ends e₁
        (fun loaded e₂ => Requests txn page access.lockMode e (.ok ⟨loaded, e₂.pool.copies⟩)
          { e₂ with pool := (e₂.pool.install loaded).2 })
        (fun failure => Requests txn page access.lockMode e (.error failure)) := by
    intro e₁ hroom
    rw [ends_readPage]
    split
    · rename_i loaded disk hread
      change Requests txn page access.lockMode e (.ok ⟨loaded, e₁.pool.copies⟩)
        { e₁ with disk, pool := (e₁.pool.install loaded).2 }
      exact .load hlock habsent hfile hroom hread
    · rename_i failure hread
      exact .unread hlock habsent hfile hroom hread
  rw [ends_makeRoom]
  split
  · rename_i hfull
    rw [ends_evict]
    split
    · rename_i victim hvictim
      exact hread _ (.evict hfull hvictim)
    · rename_i hnone
      exact .full hlock habsent hfile hfull hnone
  · rename_i hroom
    exact hread _ (.spare (by simpa using hroom))

/-- Past the end of its file, a page is not found. -/
theorem HeapFile.readPage_of_past {disk : Disk} (hsize : file.pageSize ≠ 0)
    (hpast : (file.wholePages disk).toUInt32 ≤ page.page) :
    file.readPage disk page = .error (.error (.pageNotFound page)) := by
  rw [readPage]
  split
  · rfl
  · simp only [pageCount_eq hsize, bind, Except.bind, if_pos hpast]

theorem Disk.writes_countRead (disk : Disk) (handle : FileHandle) :
    (disk.countRead handle).traffic.map Traffic.writes = disk.traffic.map Traffic.writes := by
  refine List.ext_getElem? fun number => ?_
  simp only [countRead, List.getElem?_map, List.getElem?_modify]
  cases disk.traffic[number]? with
  | none => rfl
  | some traffic => by_cases hnumber : handle.number = number <;> simp [hnumber]

theorem HeapFile.writes_readPage {disk disk' : Disk} {loaded : Page}
    (h : file.readPage disk page = .ok (loaded, disk')) :
    disk'.traffic.map Traffic.writes = disk.traffic.map Traffic.writes := by
  rw [readPage_eq (has_of_readPage h)] at h
  cases h
  exact Disk.writes_countRead _ _

/-- A page that comes into the pool is the one used last. -/
theorem toList_install {pool : Pool} {disk disk' : Disk} {loaded : Page}
    (habsent : pool.cache.peek page = none)
    (hread : file.readPage disk page = .ok (loaded, disk')) :
    (pool.install loaded).2.cache.toList = pool.cache.toList ++ [(page, ⟨loaded, pool.copies⟩)] := by
  have hothers : pool.cache.toList.filter (·.1 ≠ page) = pool.cache.toList := by
    refine List.filter_eq_self.2 fun pair hmem => decide_eq_true fun hpair => ?_
    rw [← hpair, Recency.mem_toList.1 hmem] at habsent
    cases habsent
  rw [Pool.install, HeapFile.id_of_readPage hread, Recency.toList_put, hothers]

/-! ## What requests leave alone -/

/-- No page with changes is dropped, nothing is written, and the order in which
the other pages were used stays. -/
structure Engine.Spares (page : PageId) (e e' : Engine) : Prop where
  catalog : e'.catalog = e.catalog
  files : e'.disk.files = e.disk.files
  writes : e'.disk.traffic.map Traffic.writes = e.disk.traffic.map Traffic.writes
  log : e'.log = e.log
  dirty : ∀ p frame, e.pool.cache.peek p = some frame → frame.page.isDirty = true →
    e'.pool.cache.peek p = some frame
  order : (e'.pool.cache.keys.filter (· ≠ page)).Sublist e.pool.cache.keys

theorem Engine.Spares.of_locks (page : PageId) (e : Engine) (locks : LockTable) :
    e.Spares page { e with pool := { e.pool with locks } } :=
  ⟨rfl, rfl, rfl, rfl, fun _ _ hpeek _ => hpeek, List.filter_sublist⟩

/-- The pages are those that were there before, but for some that are clean, and
then perhaps the page that was asked for. -/
theorem Engine.Spares.of_toList {added : List (PageId × Frame)} (hcatalog : e'.catalog = e.catalog)
    (hfiles : e'.disk.files = e.disk.files)
    (hwrites : e'.disk.traffic.map Traffic.writes = e.disk.traffic.map Traffic.writes)
    (hlog : e'.log = e.log) (hpages : e'.pool.cache.toList = kept ++ added)
    (hkept : kept.Sublist e.pool.cache.toList) (hadded : ∀ pair ∈ added, pair.1 = page)
    (hdirty : ∀ p frame, e.pool.cache.peek p = some frame → frame.page.isDirty = true →
      (p, frame) ∈ kept ++ added) : e.Spares page e' := by
  refine ⟨hcatalog, hfiles, hwrites, hlog, fun p frame hpeek hchanged => ?_, ?_⟩
  · rw [← Recency.mem_toList, hpages]
    exact hdirty p frame hpeek hchanged
  · have hnone : (added.map Prod.fst).filter (· ≠ page) = [] := by
      simpa [List.filter_eq_nil_iff] using fun p frame hmem => hadded (p, frame) hmem
    rw [← Recency.map_fst_toList, hpages, List.map_append, List.filter_append, hnone,
      List.append_nil, ← Recency.map_fst_toList]
    exact List.filter_sublist.trans (hkept.map _)

theorem Requests.spares {mode : LockMode} {answer : Except Failure Frame}
    (h : Requests txn page mode e answer e') : e.Spares page e' := by
  cases h with
  | refused _ => exact .of_locks page e _
  | hit _ hpeek =>
      refine .of_toList rfl rfl rfl rfl (Recency.toList_put _ _ _) List.filter_sublist (by simp)
        fun p frame' hpeek' _ => ?_
      by_cases hp : p = page
      · subst hp
        obtain rfl := Option.some.inj (hpeek.symm.trans hpeek')
        simp
      · exact List.mem_append_left _ (List.mem_filter.2 ⟨Recency.mem_toList.2 hpeek', by simpa⟩)
  | unknown _ _ _ | full _ _ _ _ _ => exact .of_locks page e _
  | unread _ _ _ hroom _ =>
      refine .of_toList hroom.catalog_eq (by rw [hroom.disk_eq]) (by rw [hroom.disk_eq])
        hroom.log_eq (List.append_nil _).symm hroom.leaves.sublist (by simp) fun p frame hpeek h => ?_
      exact List.mem_append_left _ (hroom.leaves.mem_of_dirty hpeek h)
  | load _ habsent _ hroom hread =>
      have hpages := toList_install (hroom.peek_eq_none habsent) hread
      refine .of_toList hroom.catalog_eq ?_ ?_ hroom.log_eq hpages hroom.leaves.sublist (by simp)
        fun p frame hpeek h => List.mem_append_left _ (hroom.leaves.mem_of_dirty hpeek h)
      · rw [HeapFile.files_readPage hread, hroom.disk_eq]
      · rw [HeapFile.writes_readPage hread, hroom.disk_eq]

/-- A request that is granted takes the lock, whatever it answers then. -/
theorem Requests.acquire? {mode : LockMode} {answer : Except Failure Frame}
    (h : Requests txn page mode e answer e')
    (hgranted : e.pool.locks.acquire? txn page mode ≠ none) :
    e.pool.locks.acquire? txn page mode = some e'.pool.locks := by
  cases h with
  | refused hrefused => exact absurd hrefused hgranted
  | hit hlock _ | unknown hlock _ _ | full hlock _ _ _ _ => exact hlock
  | unread hlock _ _ hroom _ | load hlock _ _ hroom _ =>
      exact hlock.trans (congrArg some hroom.locks_eq.symm)

end

/-! ## Runs -/

theorem Move.proper {e e' : Engine} (h : Move e e') (hproper : e.pool.locks.Proper) :
    e'.pool.locks.Proper := by
  cases h with
  | quiet h =>
      cases h with
      | lock hlock => exact hproper.acquire? hlock
      | use _ _ | drop _ _ | append _ _ => exact hproper
      | load _ _ hroom _ => exact hroom.locks_eq.symm ▸ hproper
      | giveBack _ hfetch => exact (hproper.acquire? hfetch.acquire?).release _ _
  | change _ _ _ | log | discard => exact hproper
  | writeBack h => cases h <;> exact hproper
  | restore _ h => cases h; exact hproper
  | letGo =>
      unfold Engine.letGo
      split
      · exact hproper.releaseAll _
      · exact hproper

theorem MovePath.proper {e e' : Engine} (h : MovePath e e') (hproper : e.pool.locks.Proper) :
    e'.pool.locks.Proper := by
  induction h with
  | refl => exact hproper
  | tail _ hmove ih => exact hmove.proper ih

theorem Call.proper (call : Call) {e : Engine} (h : e.pool.locks.Proper) :
    (call.after e).pool.locks.Proper := by
  rcases call.release_or_movePath e with ⟨txn, page, rfl⟩ | hpath
  · exact h.release txn page
  · exact MovePath.proper hpath h

/-- The engines that one comes to with a pool: by any calls, and by any changes
of files, catalog and log in between. -/
inductive Engine.Reached : Engine → Prop where
  | start {e : Engine} {capacity : Nat} (hpool : e.pool = .empty capacity)
      (hindexed : e.catalog.Indexed) : Reached e
  | call {e : Engine} (call : Call) (h : Reached e) : Reached (call.after e)
  | surroundings {e : Engine} {disk : Disk} {catalog : Catalog} {log : LogSink}
      (hindexed : catalog.Indexed) (h : Reached e) : Reached { e with disk, catalog, log }

namespace Engine.Reached

variable {e : Engine}

theorem proper (h : e.Reached) : e.pool.locks.Proper := by
  induction h with
  | start hpool _ =>
      rw [hpool]
      exact .empty
  | call call _ ih => exact call.proper ih
  | surroundings _ _ ih => exact ih

theorem indexed (h : e.Reached) : e.catalog.Indexed := by
  induction h with
  | start _ hindexed => exact hindexed
  | call call _ ih =>
      rw [(call.grows _).catalog]
      exact ih
  | surroundings hindexed _ _ => exact hindexed

theorem afterAll (h : e.Reached) (calls : List Call) : (Call.afterAll calls e).Reached := by
  induction calls generalizing e with
  | nil => exact h
  | cons call calls ih => exact ih (h.call call)

end Engine.Reached

/-! ## The effect of a request -/

namespace Catalog

variable {catalog : Catalog} {id : TableId} {file : HeapFile} {cause : Error}

theorem Indexed.id_of_file (h : catalog.Indexed) (hfile : catalog.file id = .ok file) :
    file.id = id := by
  rw [Catalog.file] at hfile
  cases hentry : catalog.entry id with
  | error cause =>
      rw [hentry] at hfile
      cases hfile
  | ok entry =>
      rw [hentry] at hfile
      cases hfile
      exact h.keyed id entry (entry_eq_ok_iff.1 hentry)

theorem eq_tableNotFound (h : catalog.file id = .error cause) : cause = .tableNotFound id := by
  rw [Catalog.file, entry] at h
  cases hentry : catalog.entry? id <;> rw [hentry] at h <;> cases h
  rfl

end Catalog

/-- What a request comes to for a page of a file that is not in the pool. -/
structure Engine.Loads (e : Engine) (page : PageId) (file : HeapFile)
    (answer : Except Failure Frame) (e' : Engine) : Prop where
  full_iff : answer = .error (.error .bufferPoolFull) ↔ e.pool.capacity ≤ e.pool.cache.size ∧
    ∀ p frame, e.pool.cache.peek p = some frame → frame.page.isDirty = true
  of_full : answer = .error (.error .bufferPoolFull) → e'.pool.cache = e.pool.cache
  /-- With room made, the page is read if the file has it. -/
  of_room : answer ≠ .error (.error .bufferPoolFull) → ∃ kept count, e.pool.Leaves kept ∧
    file.pageCount e.disk = .ok count ∧
    (answer = .error (.error (.pageNotFound page)) ↔ count ≤ page.page) ∧
    (count ≤ page.page → e'.pool.cache.toList = kept) ∧
    (page.page < count → ∃ copy,
      answer = .ok ⟨.ofBytes page file.schema (file.pageBytes e.disk page.page), copy⟩ ∧
      e'.pool.cache.toList = kept ++
        [(page, ⟨.ofBytes page file.schema (file.pageBytes e.disk page.page), copy⟩)])

theorem Pool.Leaves.congr {pool pool' : Pool} {kept : List (PageId × Frame)} (h : pool.Leaves kept)
    (hcapacity : pool'.capacity = pool.capacity) (hcache : pool'.cache = pool.cache) :
    pool'.Leaves kept := by
  cases h with
  | spare hroom =>
      rw [← hcache] at hroom ⊢
      exact .spare (hcapacity ▸ hroom)
  | evict hfull hpages hdirty hclean =>
      rw [← hcache] at hfull hpages
      exact .evict (hcapacity ▸ hfull) hpages hdirty hclean

/-- Where room was made, not all the room was taken by pages with changes. -/
theorem MakesRoom.not_full {e e₁ : Engine} (h : MakesRoom e e₁) :
    ¬(e.pool.capacity ≤ e.pool.cache.size ∧
      ∀ p frame, e.pool.cache.peek p = some frame → frame.page.isDirty = true) := by
  rintro ⟨hfull, hdirty⟩
  cases h with
  | spare hroom => exact absurd hfull (Nat.not_le.2 (Pool.isFull_eq_false_iff.1 hroom))
  | evict _ hvictim =>
      obtain ⟨frame, hpeek, hclean⟩ := peek_of_victim? hvictim
      rw [hdirty _ frame hpeek] at hclean
      cases hclean

namespace Requests

variable {txn : TxnId} {page : PageId} {mode : LockMode} {answer : Except Failure Frame}
  {file : HeapFile} {frame : Frame} {e e' : Engine}

theorem eq_of_refused (h : Requests txn page mode e answer e')
    (hrefused : e.pool.locks.acquire? txn page mode = none) :
    answer = .error (.error (.transactionAborted txn page)) ∧ e' = e := by
  cases h with
  | refused _ => exact ⟨rfl, rfl⟩
  | hit hlock _ | unknown hlock _ _ | full hlock _ _ _ _ | unread hlock _ _ _ _
  | load hlock _ _ _ _ =>
      rw [hrefused] at hlock
      cases hlock

theorem of_peek (h : Requests txn page mode e answer e')
    (hgranted : e.pool.locks.acquire? txn page mode ≠ none)
    (hpeek : e.pool.cache.peek page = some frame) : answer = .ok frame ∧
      e'.pool.cache.toList = e.pool.cache.toList.filter (·.1 ≠ page) ++ [(page, frame)] := by
  cases h with
  | refused hrefused => exact absurd hrefused hgranted
  | hit _ hpeek' =>
      obtain rfl := Option.some.inj (hpeek.symm.trans hpeek')
      exact ⟨rfl, Recency.toList_put _ _ _⟩
  | unknown _ habsent _ | full _ habsent _ _ _ | unread _ habsent _ _ _ | load _ habsent _ _ _ =>
      rw [hpeek] at habsent
      cases habsent

theorem of_unknown {cause : Error} (h : Requests txn page mode e answer e')
    (hgranted : e.pool.locks.acquire? txn page mode ≠ none)
    (habsent : e.pool.cache.peek page = none) (hunknown : e.catalog.file page.table = .error cause) :
    answer = .error (.error cause) ∧ e'.pool.cache = e.pool.cache := by
  cases h with
  | refused hrefused => exact absurd hrefused hgranted
  | hit _ hpeek =>
      rw [habsent] at hpeek
      cases hpeek
  | unknown _ _ hfile =>
      obtain rfl := Except.error.inj (hunknown.symm.trans hfile)
      exact ⟨rfl, rfl⟩
  | full _ _ hfile _ _ | unread _ _ hfile _ _ | load _ _ hfile _ _ =>
      rw [hunknown] at hfile
      cases hfile

theorem loads (h : Requests txn page mode e answer e')
    (hgranted : e.pool.locks.acquire? txn page mode ≠ none)
    (habsent : e.pool.cache.peek page = none) (hfile : e.catalog.file page.table = .ok file)
    (hid : file.id = page.table) (hsize : file.pageSize ≠ 0) : e.Loads page file answer e' := by
  have hcount : file.pageCount e.disk = .ok (file.wholePages e.disk).toUInt32 :=
    HeapFile.pageCount_eq hsize
  cases h with
  | refused hrefused => exact absurd hrefused hgranted
  | hit _ hpeek =>
      rw [habsent] at hpeek
      cases hpeek
  | unknown _ _ hfile' =>
      rw [hfile] at hfile'
      cases hfile'
  | full _ _ _ hfull hnone =>
      refine ⟨?_, fun _ => rfl, fun hnot => absurd rfl hnot⟩
      exact iff_of_true rfl ⟨Pool.isFull_iff.1 hfull, Pool.victim?_eq_none_iff.1 hnone⟩
  | @unread e₁ locks _ failure _ _ hfile' hroom hread =>
      obtain rfl := Except.ok.inj (hfile.symm.trans hfile')
      rw [hroom.disk_eq] at hread
      have hpast : (file.wholePages e.disk).toUInt32 ≤ page.page := by
        by_contra hbelow
        rw [HeapFile.readPage_eq ⟨hid.symm, hsize, UInt32.not_le.1 hbelow⟩] at hread
        cases hread
      rw [HeapFile.readPage_of_past hsize hpast] at hread
      cases hread
      refine ⟨iff_of_false nofun hroom.not_full, nofun, fun _ =>
        ⟨_, _, hroom.leaves.congr rfl rfl, hcount, ?_, fun _ => rfl, ?_⟩⟩
      · exact iff_of_true rfl hpast
      · exact fun hbelow => absurd hpast (UInt32.not_le.2 hbelow)
  | @load e₁ locks _ loaded disk _ _ hfile' hroom hread =>
      obtain rfl := Except.ok.inj (hfile.symm.trans hfile')
      have hpages := toList_install (hroom.peek_eq_none habsent) hread
      rw [hroom.disk_eq] at hread
      have hhas := HeapFile.has_of_readPage hread
      rw [HeapFile.readPage_eq hhas] at hread
      cases hread
      refine ⟨iff_of_false nofun hroom.not_full, nofun, fun _ =>
        ⟨_, _, hroom.leaves.congr rfl rfl, hcount, ?_, ?_, fun _ => ⟨_, rfl, hpages⟩⟩⟩
      · exact iff_of_false nofun (UInt32.not_le.2 hhas.below)
      · exact fun hpast => absurd hpast (UInt32.not_le.2 hhas.below)

end Requests

/-- In every state that one comes to with a pool:

- A request for a page whose lock cannot be granted is refused, and changes
  nothing.
- Any other request leaves the transaction with the page locked as it asked, or
  stronger, whatever the answer. A page that is in the pool is the answer, and
  used last then. For a page of a table that is known, whose pages are not
  empty, room is made and the page is read (`Engine.Loads`).
- No request drops a page with changes, writes anything, changes the order in
  which other pages were used, or changes another lock. -/
theorem page_request_effect {e : Engine} (h : e.Reached) (txn : TxnId) (page : PageId)
    (access : Access) :
    let answer := (getPage txn page access).answer e
    let e' := (getPage txn page access).after e
    (¬e.pool.locks.Admits txn page access.lockMode →
      answer = .error (.error (.transactionAborted txn page)) ∧ e' = e) ∧
    (e.pool.locks.Admits txn page access.lockMode →
      (∃ mode, e'.pool.locks.mode? txn page = some mode ∧ access.lockMode ≤ mode) ∧
      (∀ frame, e.pool.cache.peek page = some frame → answer = .ok frame ∧
        e'.pool.cache.toList = e.pool.cache.toList.filter (·.1 ≠ page) ++ [(page, frame)]) ∧
      (e.pool.cache.peek page = none →
        (∀ cause, e.catalog.file page.table = .error cause →
          answer = .error (.error (.tableNotFound page.table)) ∧
            e'.pool.cache = e.pool.cache) ∧
        ∀ file, e.catalog.file page.table = .ok file → file.pageSize ≠ 0 →
          e.Loads page file answer e')) ∧
    e.Spares page e' ∧
    ∀ other p, other ≠ txn ∨ p ≠ page →
      e'.pool.locks.mode? other p = e.pool.locks.mode? other p := by
  intro answer e'
  have hrequests : Requests txn page access.lockMode e answer e' := getPage_requests ..
  have hadmits_iff : (e.pool.locks.acquire? txn page access.lockMode).isSome
      ↔ e.pool.locks.Admits txn page access.lockMode := h.proper.acquire?_isSome_iff
  refine ⟨fun hnot => ?_, fun hadmits => ?_, hrequests.spares, fun other p hother => ?_⟩
  · rw [← hadmits_iff, Option.not_isSome_iff_eq_none] at hnot
    exact hrequests.eq_of_refused hnot
  · have hgranted : e.pool.locks.acquire? txn page access.lockMode ≠ none :=
      Option.isSome_iff_ne_none.1 (hadmits_iff.2 hadmits)
    refine ⟨?_, fun frame => hrequests.of_peek hgranted, fun habsent => ⟨?_, ?_⟩⟩
    · rw [h.proper.mode?_acquire? (hrequests.acquire? hgranted), if_pos ⟨rfl, rfl⟩]
      refine ⟨_, rfl, ?_⟩
      cases e.pool.locks.mode? txn page with
      | none => exact LockMode.le_refl _
      | some held => exact LockMode.le_stronger_right _ _
    · intro cause hunknown
      obtain rfl := Catalog.eq_tableNotFound hunknown
      exact hrequests.of_unknown hgranted habsent hunknown
    · intro file hfile
      exact hrequests.loads hgranted habsent hfile (h.indexed.id_of_file hfile)
  · by_cases hgranted : e.pool.locks.acquire? txn page access.lockMode = none
    · rw [(hrequests.eq_of_refused hgranted).2]
    · rw [h.proper.mode?_acquire? (hrequests.acquire? hgranted), if_neg]
      rintro ⟨rfl, rfl⟩
      exact hother.elim (· rfl) (· rfl)

theorem indexed_twoTables (capacity : Nat) (refusals : Refusals) :
    (twoTables capacity refusals).catalog.Indexed := by
  have hcatalog : (twoTables capacity refusals).catalog
      = CatalogCall.afterAll [.register (.pairs 0 "a") "a" "", .register (.pairs 1 "b") "b" ""]
          .empty := by
    rfl
  rw [hcatalog]
  exact CatalogCall.indexed_afterAll .empty _

/-- A full pool of a page with changes and a clean one, in this order. -/
def Engine.halfDirty : Engine :=
  Call.afterAll [.insert ⟨2⟩ ⟨1⟩ (.single 1), .insert ⟨2⟩ ⟨1⟩ (.single 2),
    .insert ⟨2⟩ ⟨1⟩ (.single 3), .commit ⟨2⟩, .insert ⟨1⟩ ⟨0⟩ (.single 7),
    .getPage ⟨3⟩ ⟨⟨1⟩, 0⟩ .read] (.twoTables 2 .none)

/-- The page with changes is passed over, though it was not used for longer. -/
theorem page_request_effect_halfDirty :
    halfDirty.Reached ∧ halfDirty.pool.cache.keys = [⟨⟨0⟩, 0⟩, ⟨⟨1⟩, 0⟩] ∧
      ((getPage ⟨3⟩ ⟨⟨1⟩, 1⟩ .read).after halfDirty).pool.cache.keys = [⟨⟨0⟩, 0⟩, ⟨⟨1⟩, 1⟩] ∧
      (∃ copy, (getPage ⟨3⟩ ⟨⟨1⟩, 1⟩ .read).answer halfDirty = .ok
        ⟨.ofBytes ⟨⟨1⟩, 1⟩ (HeapFile.pairs 1 "b").schema
          ((HeapFile.pairs 1 "b").pageBytes halfDirty.disk 1), copy⟩) ∧
      halfDirty.Spares ⟨⟨1⟩, 1⟩ ((getPage ⟨3⟩ ⟨⟨1⟩, 1⟩ .read).after halfDirty) := by
  have hreached : halfDirty.Reached := .afterAll (.start rfl (indexed_twoTables 2 .none)) _
  obtain ⟨-, hgranted, hspares, -⟩ := page_request_effect hreached ⟨3⟩ ⟨⟨1⟩, 1⟩ .read
  have hadmits : halfDirty.pool.locks.Admits ⟨3⟩ ⟨⟨1⟩, 1⟩ .shared :=
    hreached.proper.acquire?_isSome_iff.1 (by decide +kernel)
  have habsent : halfDirty.pool.cache.peek ⟨⟨1⟩, 1⟩ = none := by decide +kernel
  have hclean : (halfDirty.pool.cache.peek ⟨⟨1⟩, 0⟩).any (!·.page.isDirty) = true := by
    decide +kernel
  have hfile : halfDirty.catalog.file ⟨1⟩ = .ok (.pairs 1 "b") := by decide +kernel
  have hloads := ((hgranted hadmits).2.2 habsent).2 _ hfile (by decide)
  have hroom : (getPage ⟨3⟩ ⟨⟨1⟩, 1⟩ .read).answer halfDirty
      ≠ .error (.error .bufferPoolFull) := by
    intro hfull
    obtain ⟨frame, hpeek, hframe⟩ := (Option.any_eq_true _ _).1 hclean
    rw [(hloads.full_iff.1 hfull).2 _ frame hpeek] at hframe
    cases hframe
  obtain ⟨kept, count, -, hcount, -, -, hread⟩ := hloads.of_room hroom
  obtain rfl : count = 2 := Except.ok.inj (hcount.symm.trans (by decide +kernel))
  obtain ⟨copy, hanswer, -⟩ := hread (by decide)
  exact ⟨hreached, by decide +kernel, by decide +kernel, ⟨copy, hanswer⟩, hspares⟩

/-- A table whose pages are empty. -/
def Engine.unpaged : Engine :=
  { twoTables 4 .none with
    catalog := ((Catalog.empty.register
      { HeapFile.pairs 0 "a" with handle := ⟨0, "a", "a", 0⟩ } "a" "").2) }

/-- Where pages are empty there is no telling how many the file has, and a
request for one breaks off: it neither yields a page nor refuses one. -/
theorem page_request_may_break_off :
    unpaged.Reached ∧ unpaged.pool.locks.Admits ⟨1⟩ ⟨⟨0⟩, 0⟩ .shared ∧
      unpaged.pool.cache.peek ⟨⟨0⟩, 0⟩ = none ∧ unpaged.pool.isFull = false ∧
      (∃ file, unpaged.catalog.file ⟨0⟩ = .ok file ∧
        (unpaged.disk.content file.handle.name).length ≤
          Disk.pageOffset file.handle 0) ∧
      (getPage ⟨1⟩ ⟨⟨0⟩, 0⟩ .read).answer unpaged = .error (.violation .zeroPageSize) := by
  have hindexed : unpaged.catalog.Indexed :=
    CatalogCall.indexed_after .empty (.register _ "a" "")
  have hreached : unpaged.Reached := .start rfl hindexed
  refine ⟨hreached, hreached.proper.acquire?_isSome_iff.1 ?_, ?_, ?_, ⟨_, rfl, ?_⟩, ?_⟩
  all_goals decide +kernel

end HeapStore
