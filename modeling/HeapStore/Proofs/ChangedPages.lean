import HeapStore.Proofs.Endings
import Mathlib.Data.List.Nodup

/-!
# Changed pages

Which clean pages are resident is a matter of capacity and of luck. The pages
with changes are not: they stay until they are written or restored. The
`Face` of an engine is what is left of it when clean pages, copies and the
traffic on the files are left out.

A page that somebody gets is a changed one, or else the one in the file, and it
can be had unless all the room is taken by changed pages. So what a get
yields, and which face it leaves, depends on the face and the capacity alone
(`lookUp_congr`, `Coherent.getPage_face`).
-/

namespace HeapStore

open HeapStore.Action Engine

/-! ## The changed pages of a walk -/

/-- The pages with changes among frames. -/
def changedOf (frames : List (PageId × Frame)) : List (PageId × Page) :=
  (frames.filter fun (_, frame) => frame.page.isDirty).map fun (page, frame) => (page, frame.page)

/-- The pages with changes, least recently used first. -/
def Pool.changed (pool : Pool) : List (PageId × Page) := changedOf pool.cache.toList

/-- The list without a page. -/
def dropPage (page : PageId) (changed : List (PageId × Page)) : List (PageId × Page) :=
  changed.filter (·.1 ≠ page)

/-- The list after a page was used. -/
def usePage (page : PageId) (x : Page) (changed : List (PageId × Page)) : List (PageId × Page) :=
  dropPage page changed ++ if x.isDirty then [(page, x)] else []

/-- The page was used last. -/
def Pool.Latest (pool : Pool) (page : PageId) (frame : Frame) : Prop :=
  ∃ others, pool.cache.toList = others ++ [(page, frame)] ∧ ∀ other ∈ others, other.1 ≠ page

section

variable {pool pool' : Pool} {page : PageId} {frame : Frame} {x : Page}

theorem mem_changed : (page, x) ∈ pool.changed
    ↔ ∃ frame, pool.cache.peek page = some frame ∧ frame.page = x ∧ x.isDirty = true := by
  simp only [Pool.changed, changedOf, List.mem_map, List.mem_filter, Prod.exists,
    Recency.mem_toList, Prod.mk.injEq]
  constructor
  · rintro ⟨_, frame, ⟨hpeek, hdirty⟩, rfl, rfl⟩
    exact ⟨frame, hpeek, rfl, hdirty⟩
  · rintro ⟨frame, hpeek, rfl, hdirty⟩
    exact ⟨page, frame, ⟨hpeek, hdirty⟩, rfl, rfl⟩

theorem map_fst_changed (pool : Pool) : pool.changed.map Prod.fst
    = (pool.cache.toList.filter fun (_, frame) => frame.page.isDirty).map Prod.fst := by
  rw [Pool.changed, changedOf, List.map_map]
  rfl

theorem nodup_changed (pool : Pool) : (pool.changed.map Prod.fst).Nodup := by
  rw [map_fst_changed]
  refine List.Nodup.sublist (List.filter_sublist.map Prod.fst) ?_
  rw [Recency.map_fst_toList]
  exact pool.cache.nodup_keys

theorem dirtiedBy_eq (pool : Pool) (txn : TxnId) :
    pool.dirtiedBy txn = (pool.changed.filter (·.2.dirtier = some txn)).map Prod.fst := by
  rw [Pool.changed, changedOf, List.filter_map, List.map_map, List.filter_filter, Pool.dirtiedBy]
  congr 2
  funext pair
  by_cases htxn : pair.2.page.dirtier = some txn <;> simp [htxn, Page.isDirty]

/-! ## How many there are -/

theorem length_changed_le (pool : Pool) : pool.changed.length ≤ pool.cache.size := by
  rw [← Recency.length_toList, Pool.changed, changedOf, List.length_map]
  exact List.length_filter_le _ _

theorem length_changed_lt (hpeek : pool.cache.peek page = some frame)
    (hclean : frame.page.isDirty = false) : pool.changed.length < pool.cache.size := by
  rw [← Recency.length_toList, Pool.changed, changedOf, List.length_map]
  refine List.length_filter_lt_length_iff_exists.2 ⟨(page, frame), Recency.mem_toList.2 hpeek, ?_⟩
  simpa using hclean

theorem length_changed_eq (h : pool.victim? (fun _ => false) = none) :
    pool.changed.length = pool.cache.size := by
  rw [← Recency.length_toList, Pool.changed, changedOf, List.length_map, List.filter_eq_self.2]
  rintro ⟨page, frame⟩ hmem
  simpa using List.find?_eq_none.1 (Option.map_eq_none_iff.1 h) (page, frame) hmem

/-- A changed page that is used moves to the end. -/
theorem length_usePage (hmem : (page, x) ∈ pool.changed) :
    (usePage page x pool.changed).length = pool.changed.length := by
  obtain ⟨_, -, -, hdirty⟩ := mem_changed.1 hmem
  have hkey : page ∈ pool.changed.map Prod.fst := List.mem_map.2 ⟨_, hmem, rfl⟩
  have hkeys : (dropPage page pool.changed).map Prod.fst
      = (pool.changed.map Prod.fst).erase page := by
    rw [(nodup_changed pool).erase_eq_filter, List.filter_map]
    congr 1
    exact List.filter_congr fun pair _ => by simp [bne, beq_eq_decide]
  have hdrop := congrArg List.length hkeys
  have hpos := List.length_pos_of_mem hmem
  rw [List.length_map, List.length_erase_of_mem hkey, List.length_map] at hdrop
  rw [usePage, if_pos hdirty, List.length_append, List.length_singleton, hdrop]
  omega

/-! ## What happens to them -/

theorem dropPage_changedOf (page : PageId) (frames : List (PageId × Frame)) :
    changedOf (frames.filter (·.1 ≠ page)) = dropPage page (changedOf frames) := by
  rw [changedOf, changedOf, dropPage, List.filter_map, List.filter_filter, List.filter_filter]
  congr 1
  exact List.filter_congr fun pair _ => Bool.and_comm _ _

theorem changedOf_append (frames frames' : List (PageId × Frame)) :
    changedOf (frames ++ frames') = changedOf frames ++ changedOf frames' := by
  rw [changedOf, List.filter_append, List.map_append, changedOf, changedOf]

theorem changedOf_singleton (page : PageId) (frame : Frame) :
    changedOf [(page, frame)] = if frame.page.isDirty then [(page, frame.page)] else [] := by
  by_cases hdirty : frame.page.isDirty <;> simp [changedOf, hdirty]

theorem changed_put (hcache : pool'.cache = pool.cache.put page frame) :
    pool'.changed = usePage page frame.page pool.changed := by
  rw [Pool.changed, hcache, Recency.toList_put, changedOf_append, dropPage_changedOf,
    changedOf_singleton]
  rfl

theorem latest_put (hcache : pool'.cache = pool.cache.put page frame) :
    pool'.Latest page frame := by
  refine ⟨_, by rw [hcache, Recency.toList_put], fun other hmem => ?_⟩
  simpa using (List.mem_filter.1 hmem).2

theorem Pool.Latest.peek (h : pool.Latest page frame) : pool.cache.peek page = some frame := by
  obtain ⟨others, hlist, -⟩ := h
  refine Recency.mem_toList.1 ?_
  rw [hlist]
  exact List.mem_append_right _ (List.mem_singleton_self _)

theorem changed_remove (hcache : pool'.cache = pool.cache.remove page) :
    pool'.changed = dropPage page pool.changed := by
  rw [Pool.changed, hcache, Recency.toList_remove, dropPage_changedOf]
  rfl

theorem dropPage_eq_self {changed : List (PageId × Page)}
    (h : ∀ x, (page, x) ∉ changed) : dropPage page changed = changed := by
  refine List.filter_eq_self.2 ?_
  rintro ⟨p, x⟩ hmem
  exact decide_eq_true fun (hp : p = page) => h x (hp ▸ hmem)

/-- A page that is marked clean is a changed page no more. -/
theorem changed_store_clean (hclean : x.isDirty = false) :
    (pool.store x).changed = dropPage x.id pool.changed := by
  simp only [Pool.changed, Pool.store, Recency.toList_modify, changedOf, dropPage]
  induction pool.cache.toList with
  | nil => rfl
  | cons pair pairs ih =>
      obtain ⟨p, frame⟩ := pair
      by_cases hp : p = x.id
      · by_cases hdirty : frame.page.isDirty <;> simp_all
      · by_cases hdirty : frame.page.isDirty <;> simp_all

/-- The page used last is replaced at the end of the walk. -/
theorem toList_store_last {others : List (PageId × Frame)}
    (hlist : pool.cache.toList = others ++ [(x.id, frame)])
    (hothers : ∀ other ∈ others, other.1 ≠ x.id) :
    (pool.store x).cache.toList = others ++ [(x.id, { frame with page := x })] := by
  have hsame : others.map (fun pair => if pair.1 = x.id then (pair.1, { pair.2 with page := x })
      else pair) = others := by
    refine (List.map_congr_left fun pair hmem => if_neg (hothers pair hmem)).trans ?_
    exact List.map_id' _
  rw [Pool.store, Recency.toList_modify, hlist, List.map_append, hsame]
  simp

/-- A page that is changed right after it was used stays at the end. -/
theorem changed_store_latest (hlatest : pool.Latest x.id frame) :
    (pool.store x).changed = usePage x.id x pool.changed := by
  obtain ⟨others, hlist, hothers⟩ := hlatest
  have hfilter : others.filter (·.1 ≠ x.id) = others :=
    List.filter_eq_self.2 fun pair hmem => decide_eq_true (hothers pair hmem)
  have hlast : dropPage x.id pool.changed = changedOf others := by
    rw [Pool.changed, ← dropPage_changedOf, hlist, List.filter_append, hfilter]
    simp
  rw [Pool.changed, toList_store_last hlist hothers, changedOf_append, changedOf_singleton, usePage,
    hlast]

end

/-! ## Files without their traffic -/

section

variable {disk disk' : Disk} {file : HeapFile} {page : PageId} {x : Page}

theorem except_map_eq_map {α β : Type} {f : α → β} {r r' : Except Failure α}
    (h : r'.map f = r.map f) : (∃ failure, r = .error failure ∧ r' = .error failure)
      ∨ ∃ a a', r = .ok a ∧ r' = .ok a' ∧ f a' = f a := by
  rcases r with failure | a <;> rcases r' with failure' | a'
  · cases h
    exact .inl ⟨failure, rfl, rfl⟩
  · cases h
  · cases h
  · exact .inr ⟨a, a', rfl, rfl, Except.ok.inj h⟩

theorem Disk.sparse_congr (h : disk'.files = disk.files) (name : String) :
    disk'.sparse name = disk.sparse name := by
  rw [sparse, h, sparse]

theorem HeapFile.pageCount_congr (h : disk'.files = disk.files) :
    file.pageCount disk' = file.pageCount disk := by
  rw [pageCount, Disk.pageCount, Disk.sparse_congr h, pageCount, Disk.pageCount]

theorem Disk.readPage_congr (h : disk'.files = disk.files) (handle : FileHandle) (number : UInt32)
    (size : Nat) : (disk'.readPage handle number size).map Prod.fst
      = (disk.readPage handle number size).map Prod.fst := by
  simp only [readPage, sparse_congr h]
  split
  · rfl
  · split <;> rfl

theorem HeapFile.readPage_congr (h : disk'.files = disk.files) :
    (file.readPage disk' page).map Prod.fst = (file.readPage disk page).map Prod.fst := by
  simp only [readPage, pageCount_congr h]
  split
  · rfl
  cases file.pageCount disk with
  | error failure => rfl
  | ok count =>
      simp only [bind, Except.bind]
      split
      · rfl
      rcases except_map_eq_map (Disk.readPage_congr h file.handle page.page file.pageSize) with
        ⟨failure, hread, hread'⟩ | ⟨r, r', hread, hread', hdata⟩
      · rw [hread, hread']
      · simp only [hread, hread', Except.map, pure, Except.pure, hdata]

theorem HeapFile.writePage_congr (file : HeapFile) (x : Page) (h : disk'.files = disk.files) :
    (file.writePage disk' x).map Disk.files = (file.writePage disk x).map Disk.files := by
  simp only [writePage, Disk.writePage, Disk.sparse_congr h]
  split
  · rfl
  · simp only [Except.map, Disk.countWrite, Disk.putSparse, h]

theorem HeapFile.appendPage_congr (file : HeapFile) (h : disk'.files = disk.files) :
    (file.appendPage disk').map (fun (page, disk) => (page, disk.files))
      = (file.appendPage disk).map fun (page, disk) => (page, disk.files) := by
  simp only [appendPage, pageCount_congr h]
  cases file.pageCount disk with
  | error failure => rfl
  | ok count =>
      simp only [bind, Except.bind]
      cases file.emptyPage count with
      | error failure => rfl
      | ok blank =>
          dsimp only
          rcases except_map_eq_map (file.writePage_congr blank h) with
            ⟨failure, hwrite, hwrite'⟩ | ⟨written, written', hwrite, hwrite', hfiles⟩
          · rw [hwrite, hwrite']
          · simp only [hwrite, hwrite', Except.map, pure, Except.pure, hfiles]

theorem HeapFile.files_readPage {loaded : Page}
    (h : file.readPage disk page = .ok (loaded, disk')) : disk'.files = disk.files := by
  have hhas := has_of_readPage h
  rw [readPage_eq hhas] at h
  cases h
  rfl

end

/-! ## The face of an engine -/

/-- What an engine shows whatever clean pages are resident. -/
structure Face where
  catalog : Catalog
  files : Std.ExtTreeMap String Sparse
  log : LogSink
  locks : LockTable
  changed : List (PageId × Page)

def Engine.face (e : Engine) : Face :=
  { catalog := e.catalog
    files := e.disk.files
    log := e.log
    locks := e.pool.locks
    changed := e.pool.changed }

/-- A page of the pool, if it has changes. -/
def Engine.changed? (e : Engine) (page : PageId) : Option Page :=
  ((e.pool.cache.peek page).map Frame.page).filter Page.isDirty

/-- What a transaction sees that gets a page. -/
def Engine.lookUp (e : Engine) (page : PageId) : Except Failure Page :=
  match e.changed? page with
  | some x => .ok x
  | none =>
    match e.catalog.file page.table with
    | .error cause => .error (.error cause)
    | .ok file =>
      if e.pool.capacity ≤ e.pool.changed.length then .error (.error .bufferPoolFull)
      else (file.readPage e.disk page).map Prod.fst

section

variable {capacity : Nat} {txn : TxnId} {page : PageId} {frame : Frame} {x : Page}
  {e e₁ e' : Engine}

theorem changed?_eq_some_iff : e.changed? page = some x ↔ (page, x) ∈ e.pool.changed := by
  simp only [Engine.changed?, Option.filter_eq_some_iff, Option.map_eq_some_iff, mem_changed]
  constructor
  · rintro ⟨⟨frame, hpeek, rfl⟩, hdirty⟩
    exact ⟨frame, hpeek, rfl, hdirty⟩
  · rintro ⟨frame, hpeek, rfl, hdirty⟩
    exact ⟨⟨frame, hpeek, rfl⟩, hdirty⟩

theorem changed?_congr (h : e'.face = e.face) : e'.changed? page = e.changed? page := by
  have hchanged : e'.pool.changed = e.pool.changed := congrArg Face.changed h
  refine Option.ext fun x => ?_
  rw [changed?_eq_some_iff, changed?_eq_some_iff, hchanged]

theorem changed?_of_dirty (hpeek : e.pool.cache.peek page = some frame)
    (hdirty : frame.page.isDirty = true) : e.changed? page = some frame.page :=
  changed?_eq_some_iff.2 (mem_changed.2 ⟨frame, hpeek, rfl, hdirty⟩)

theorem changed?_of_clean (hpeek : e.pool.cache.peek page = some frame)
    (hclean : frame.page.isDirty = false) : e.changed? page = none := by
  rw [Engine.changed?, hpeek]
  simp [hclean]

theorem changed?_of_absent (habsent : e.pool.cache.peek page = none) : e.changed? page = none := by
  rw [Engine.changed?, habsent]
  rfl

theorem dropPage_of_unchanged (h : e.changed? page = none) :
    dropPage page e.pool.changed = e.pool.changed := by
  refine dropPage_eq_self fun x hmem => ?_
  rw [changed?_eq_some_iff.2 hmem] at h
  cases h

/-- With the same face, a bigger pool yields what a smaller one yields, unless
the smaller one is full. -/
theorem lookUp_congr (h : e'.face = e.face) (hle : e.pool.capacity ≤ e'.pool.capacity) :
    e.lookUp page = .error (.error .bufferPoolFull) ∨ e'.lookUp page = e.lookUp page := by
  have hchanged : e'.pool.changed = e.pool.changed := congrArg Face.changed h
  have hcatalog : e'.catalog = e.catalog := congrArg Face.catalog h
  have hfiles : e'.disk.files = e.disk.files := congrArg Face.files h
  simp only [Engine.lookUp, changed?_congr h, hchanged, hcatalog]
  split
  · exact .inr rfl
  split
  · exact .inr rfl
  split
  · exact .inl rfl
  rename_i hroom
  right
  rw [if_neg fun hfull => hroom (Nat.le_trans hle hfull), HeapFile.readPage_congr hfiles]

/-! ## Getting a page -/

theorem face_install {file : HeapFile} {loaded : Page} {disk : Disk}
    (hread : file.readPage e.disk page = .ok (loaded, disk)) :
    Engine.face { e with disk, pool := (e.pool.install loaded).2 }
        = { e.face with changed := usePage page loaded e.pool.changed }
      ∧ (e.pool.install loaded).2.Latest page ⟨loaded, e.pool.copies⟩ := by
  have hcache : (e.pool.install loaded).2.cache
      = e.pool.cache.put page ⟨loaded, e.pool.copies⟩ := by
    rw [← HeapFile.id_of_readPage hread]
    rfl
  refine ⟨?_, latest_put hcache⟩
  simp only [Engine.face, changed_put hcache, HeapFile.files_readPage hread]
  rfl

/-- Room is made by dropping a clean page, and cannot be made when all pages
have changes. -/
theorem Coherent.makeRoom_face (h : Coherent capacity e) :
    makeRoom.Ends e
      (fun _ e₁ => MakesRoom e e₁ ∧ e₁.face = e.face ∧ e.pool.changed.length < capacity)
      (fun failure e₁ => failure = .error .bufferPoolFull ∧ e₁ = e
        ∧ capacity ≤ e.pool.changed.length) := by
  have hle := length_changed_le e.pool
  have hsize := h.size_le
  have hcapacity := h.capacity_eq
  rw [ends_makeRoom]
  split
  · rename_i hfull
    rw [ends_evict]
    split
    · rename_i victim hvictim
      obtain ⟨frame, hpeek, hclean⟩ := peek_of_victim? hvictim
      have hlt := length_changed_lt hpeek hclean
      refine ⟨.evict hfull hvictim, ?_, by omega⟩
      have hdropped : (e.pool.discard victim).changed = dropPage victim e.pool.changed :=
        changed_remove rfl
      have hsame := hdropped.trans (dropPage_of_unchanged (changed?_of_clean hpeek hclean))
      simp only [Engine.face, hsame]
      rfl
    · rename_i hnone
      have heq := length_changed_eq hnone
      simp only [Pool.isFull, decide_eq_true_eq] at hfull
      exact ⟨rfl, rfl, by omega⟩
  · rename_i hroom
    simp only [Pool.isFull, decide_eq_true_eq] at hroom
    exact ⟨.spare (by simpa [Pool.isFull] using hroom), rfl, by omega⟩

/-- A resident page is what a look-up yields. -/
theorem Coherent.lookUp_of_peek (h : Coherent capacity e)
    (hpeek : e.pool.cache.peek page = some frame) : e.lookUp page = .ok frame.page := by
  unfold Engine.lookUp
  cases hdirty : frame.page.isDirty with
  | true => rw [changed?_of_dirty hpeek hdirty]
  | false =>
      have hfew : ¬e.pool.capacity ≤ e.pool.changed.length := by
        rw [h.capacity_eq, Nat.not_le]
        exact Nat.lt_of_lt_of_le (length_changed_lt hpeek hdirty) h.size_le
      have hclean : frame.page.dirtier = none := by simpa [Page.isDirty] using hdirty
      obtain ⟨file, hfile, hhas, -⟩ := h.stored_file hpeek
      have hread := HeapFile.readPage_eq hhas
      have hstored := (h.mirrors page frame hpeek).stored_of_clean hclean
      rw [stored?_of_readPage hfile hread] at hstored
      rw [changed?_of_clean hpeek hdirty]
      simp only [hfile]
      rw [if_neg hfew, hread, ← Option.some.inj hstored]
      rfl

/-- A get that may lock answers what a look-up yields, and uses the page. When
it fails, it may have cost a clean page. -/
theorem Coherent.getPage_face {access : Access} {locks : LockTable} (h : Coherent capacity e)
    (hlock : e.pool.locks.acquire? txn page access.lockMode = some locks) :
    (getPage txn page access).Ends e
      (fun frame e₁ => e.lookUp page = .ok frame.page
        ∧ e₁.face = { e.face with locks, changed := usePage page frame.page e.pool.changed }
        ∧ e₁.pool.Latest page frame ∧ Coherent capacity e₁)
      (fun failure e₁ => e.lookUp page = .error failure ∧ e₁.face = { e.face with locks }
        ∧ Coherent capacity e₁) := by
  have hlocked := h.acquire hlock
  simp only [getPage, ends_bind, ends_lock, ends_touch, hlock]
  split
  · rename_i frame hpeek
    have hused : Pool.changed { e.pool with locks, cache := e.pool.cache.put page frame }
        = usePage page frame.page e.pool.changed := changed_put rfl
    refine ⟨h.lookUp_of_peek hpeek, ?_, latest_put rfl, hlocked.use hpeek⟩
    simp only [Engine.face, hused]
  rename_i habsent
  have hclean := changed?_of_absent habsent
  simp only [ends_fileOf, ends_readPage, ends_install]
  split
  case h_2 =>
    rename_i cause hcause
    exact ⟨by simp only [Engine.lookUp, hclean, hcause], rfl, hlocked⟩
  rename_i file hfile
  refine hlocked.makeRoom_face.mono ?_ ?_
  · rintro _ e₁ ⟨hroom, hface, hfew⟩
    have hlookUp : e.lookUp page = (file.readPage e₁.disk page).map Prod.fst := by
      have hfew' : ¬e.pool.capacity ≤ e.pool.changed.length := by
        rw [h.capacity_eq]
        exact Nat.not_le.2 hfew
      simp only [Engine.lookUp, hclean, hfile]
      rw [if_neg hfew', hroom.disk_eq]
    split
    · rename_i loaded disk hread
      obtain ⟨hinstalled, hlatest⟩ := face_install hread
      refine ⟨by rw [hlookUp, hread]; rfl, ?_, hlatest, hlocked.load hfile hroom hread⟩
      rw [hinstalled, hface, show e₁.pool.changed = e.pool.changed from congrArg Face.changed hface]
      rfl
    · rename_i failure hread
      exact ⟨by rw [hlookUp, hread]; rfl, hface, (hlocked.makesRoom hroom).1⟩
  · rintro _ _ ⟨rfl, rfl, hmany⟩
    refine ⟨?_, rfl, hlocked⟩
    simp only [Engine.lookUp, hclean, hfile]
    exact if_pos (h.capacity_eq ▸ hmany)

/-! ## Changing a page -/

theorem face_store (hlatest : e.pool.Latest x.id frame) :
    (e.store x).face = { e.face with changed := usePage x.id x e.pool.changed } := by
  simp only [Engine.face, Engine.store, changed_store_latest hlatest]
  rfl

/-! ## Writing a page back -/

/-- Writes a record and forces the log. -/
def LogSink.submit (log : LogSink) (record : LogRecord) : Except Error Unit × LogSink :=
  match log.write record with
  | (.ok (), log) => log.force
  | (.error cause, log) => (.error cause, log)

theorem LogSink.submit_of_accept? {log log' : LogSink} {record : LogRecord}
    (h : log.accept? record = some log') : log.submit record = (.ok (), log') := by
  unfold accept? at h
  split at h
  · rename_i log₁ hwrite
    split at h
    · rename_i log₂ hforce
      cases h
      simp only [submit, hwrite, hforce]
    · cases h
  · cases h

theorem Refuses.submit {cause : Error} (h : Refuses page cause e e') :
    ∃ frame txn log, e.pool.cache.peek page = some frame ∧ frame.page.dirtier = some txn
      ∧ e.log.submit (recordOf txn frame.page) = (.error cause, log) ∧ e' = { e with log } := by
  cases h with
  | write hpeek hdirty hwrite =>
      exact ⟨_, _, _, hpeek, hdirty, by simp only [LogSink.submit, hwrite], rfl⟩
  | force hpeek hdirty hwrite hforce =>
      exact ⟨_, _, _, hpeek, hdirty, by simp only [LogSink.submit, hwrite, hforce], rfl⟩

theorem exists_of_changed? (h : e.changed? page = some x) :
    ∃ frame txn, e.pool.cache.peek page = some frame ∧ frame.page = x ∧ x.dirtier = some txn := by
  obtain ⟨frame, hpeek, hpage, hdirty⟩ := mem_changed.1 (changed?_eq_some_iff.1 h)
  obtain ⟨txn, htxn⟩ := Option.isSome_iff_exists.1 hdirty
  exact ⟨frame, txn, hpeek, hpage, htxn⟩

/-- Whether a page with changes is written back is up to the log. -/
theorem Coherent.writeBack_face (hreg : e.catalog.Registered) (h : Coherent capacity e)
    (hchanged : e.changed? page = some x) (hdirty : x.dirtier = some txn) :
    (writeBack page).Ends e
      (fun _ e₁ => ∃ log file disk, e.log.submit (recordOf txn x) = (.ok (), log)
        ∧ e.catalog.file page.table = .ok file ∧ file.writePage e.disk x = .ok disk
        ∧ e₁.face = { e.face with
            log, files := disk.files, changed := dropPage page e.pool.changed }
        ∧ Coherent capacity e₁)
      (fun failure e₁ => ∃ cause log, e.log.submit (recordOf txn x) = (.error cause, log)
        ∧ failure = .error cause ∧ e₁ = { e with log }) := by
  obtain ⟨frame, -, hpeek, rfl, -⟩ := exists_of_changed? hchanged
  refine (h.writeBack_ends page).mono ?_ ?_
  · intro _ e₁ hwrites
    have h₁ := h.writesBack hreg hwrites
    cases hwrites with
    | clean hclean => cases (hclean frame hpeek).symm.trans hdirty
    | dirty hpeek' hdirty' hfile hlog hwrite =>
        rename_i frame' txn' file log disk
        obtain rfl := Option.some.inj (hpeek.symm.trans hpeek')
        obtain rfl := Option.some.inj (hdirty.symm.trans hdirty')
        have hid := h.id_eq hpeek
        have hmarked : (e.pool.store frame.page.markClean).changed
            = dropPage page e.pool.changed := by
          rw [changed_store_clean rfl, show frame.page.markClean.id = page from hid]
        refine ⟨log, file, disk, LogSink.submit_of_accept? hlog, hid ▸ hfile, hwrite, ?_, h₁⟩
        simp only [Engine.face, hmarked]
        rfl
  · rintro _ e₁ ⟨cause, rfl, hrefuses⟩
    obtain ⟨frame', txn', log, hpeek', hdirty', hsubmit, rfl⟩ := hrefuses.submit
    obtain rfl := Option.some.inj (hpeek.symm.trans hpeek')
    obtain rfl := Option.some.inj (hdirty.symm.trans hdirty')
    exact ⟨cause, log, hsubmit, rfl, rfl⟩

theorem writeBack_of_unchanged (h : e.changed? page = none) : writeBack page e = .ok () e := by
  simp only [writeBack, bind_apply, show (get : Action Engine) e = .ok e e from rfl]
  cases hpeek : e.pool.cache.peek page with
  | none => rfl
  | some frame =>
      cases hdirty : frame.page.dirtier with
      | none =>
          simp only [hdirty]
          rfl
      | some txn =>
          rw [changed?_of_dirty hpeek (by rw [Page.isDirty, hdirty]; rfl)] at h
          cases h

theorem WritesBack.changed?_eq_none {p : PageId} (hwrites : WritesBack p e e')
    (h : e.changed? page = none) : e'.changed? page = none := by
  cases hwrites with
  | clean _ => exact h
  | dirty _ _ _ _ _ =>
      simp only [Engine.changed?, Pool.store, Recency.peek_modify]
      split
      · cases e.pool.cache.peek page <;> rfl
      · exact h

/-- Pages without changes do not matter when pages are written back. -/
theorem forM_writeBack_filter {keep : PageId → Bool} (pages : List PageId)
    (h : ∀ page, keep page = false → e.changed? page = none) :
    pages.forM writeBack e = (pages.filter keep).forM writeBack e := by
  induction pages generalizing e with
  | nil => rfl
  | cons page pages ih =>
      rw [show (page :: pages).forM writeBack = (writeBack page >>= fun _ => pages.forM writeBack)
        from rfl, bind_apply]
      cases hkeep : keep page with
      | false =>
          rw [writeBack_of_unchanged (h page hkeep), List.filter_cons_of_neg (by simp [hkeep])]
          exact ih h
      | true =>
          rw [List.filter_cons_of_pos hkeep, show (page :: pages.filter keep).forM writeBack
            = (writeBack page >>= fun _ => (pages.filter keep).forM writeBack) from rfl, bind_apply]
          have hwritten := writeBack_ends page e
          cases hresult : writeBack page e with
          | error failure e₁ => rfl
          | ok answer e₁ =>
              have hwrites : WritesBack page e e₁ := hwritten.of_ok hresult
              exact ih fun p hp => hwrites.changed?_eq_none (h p hp)

theorem flushAll_apply (e : Engine) :
    flushAll e = (e.pool.changed.map Prod.fst).forM writeBack e := by
  have hkeys : e.pool.cache.keys.filter (fun page => (e.changed? page).isSome)
      = e.pool.changed.map Prod.fst := by
    rw [map_fst_changed, ← Recency.map_fst_toList, List.filter_map]
    congr 1
    refine List.filter_congr ?_
    rintro ⟨page, frame⟩ hmem
    have hpeek := Recency.mem_toList.1 hmem
    simp only [Function.comp_apply]
    cases hdirty : frame.page.isDirty with
    | true => rw [changed?_of_dirty hpeek hdirty]; rfl
    | false => rw [changed?_of_clean hpeek hdirty]; rfl
  rw [← hkeys, ← forM_writeBack_filter _ fun page hnone => by simpa using hnone]
  rfl

/-! ## Restoring pages -/

theorem Action.Through.face_restores {pages : List PageId} (h : Through Restores pages e e') :
    e'.face = { e.face with changed := e.pool.changed.filter (·.1 ∉ pages) } := by
  induction h with
  | nil => simp [Engine.face]
  | @cons page pages e e₁ e₂ hstep _ ih =>
      have hfirst : e₁.face = { e.face with changed := dropPage page e.pool.changed } := by
        cases hstep with
        | mk hfile hread =>
            obtain ⟨data, rfl, -⟩ := HeapFile.eq_ofBytes_of_readPage hread
            rw [(face_install hread).1, usePage, if_neg (by simp [Page.isDirty, Page.ofBytes]),
              List.append_nil]
      have hfilter : e₁.pool.changed.filter (·.1 ∉ pages)
          = e.pool.changed.filter (·.1 ∉ page :: pages) := by
        rw [show e₁.pool.changed = _ from congrArg Face.changed hfirst, dropPage,
          List.filter_filter]
        refine List.filter_congr fun pair _ => ?_
        simp [Bool.and_comm]
      rw [ih, hfirst, hfilter]

/-- Restoring takes the changes of a transaction out of the pool. -/
theorem Coherent.restorePages_face (hreg : e.catalog.Registered) (h : Coherent capacity e)
    (txn : TxnId) :
    (restorePages txn).Ends e
      (fun _ e₁ => e₁.face
          = { e.face with changed := e.pool.changed.filter (·.1 ∉ e.pool.dirtiedBy txn) }
        ∧ Coherent capacity e₁) (fun _ _ => False) := by
  refine (h.restorePages_ends hreg txn).mono ?_ fun _ _ hfail => hfail
  intro _ e₁ hrestores
  have h₁ := h.restored hreg hrestores
  obtain ⟨pages, hpages, hrestored⟩ := hrestores
  rw [List.append_nil] at hpages
  rw [hpages]
  exact ⟨hrestored.face_restores, h₁⟩

/-! ## Giving locks back and dropping pages -/

theorem face_letGo (hface : e'.face = e.face) (txn : TxnId) :
    (e'.letGo txn).face = (e.letGo txn).face := by
  have hdirtied : e'.pool.dirtiedBy txn = e.pool.dirtiedBy txn := by
    rw [dirtiedBy_eq, dirtiedBy_eq, show e'.pool.changed = e.pool.changed from
      congrArg Face.changed hface]
  unfold Engine.letGo
  rw [hdirtied]
  split
  · exact congrArg (fun face : Face => { face with locks := face.locks.releaseAll txn }) hface
  · exact hface

theorem face_discard (page : PageId) :
    Engine.face { e with pool := e.pool.discard page }
      = { e.face with changed := dropPage page e.pool.changed } := by
  have hdropped : (e.pool.discard page).changed = dropPage page e.pool.changed :=
    changed_remove rfl
  simp only [Engine.face, hdropped]
  rfl

end

end HeapStore
