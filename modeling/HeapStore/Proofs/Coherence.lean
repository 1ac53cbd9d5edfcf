import HeapStore.Proofs.StoredPages

/-!
# Cache coherence

A resident page mirrors its file (`Page.Mirrors`): without changes it is the
stored page, and with changes it still knows the bytes of the stored page.
Every move keeps this for all resident pages, and keeps their number within
the capacity (`Coherent.move`): what comes into the pool comes from the file,
changes capture the bytes before them, and what is written is clean.

Headline: `cache_coherence`.
-/

namespace HeapStore

open HeapStore.Action Engine

/-- A resident page agrees with the stored one, up to changes whose bytes
before are known. -/
structure Page.Mirrors (page : Page) (stored : Option Page) : Prop where
  stored : stored = some page.beforePage
  length : page.data.length = page.beforeData.length
  clean : page.dirtier = none → page.before = none

theorem Page.Mirrors.of_ofBytes {id : PageId} {schema : Schema} {data : Bytes}
    {stored : Option Page} (h : stored = some (.ofBytes id schema data)) :
    (Page.ofBytes id schema data).Mirrors stored :=
  ⟨h, rfl, fun _ => rfl⟩

/-- Without changes a page is the stored one. -/
theorem Page.Mirrors.stored_of_clean {page : Page} {stored : Option Page} (h : page.Mirrors stored)
    (hclean : page.dirtier = none) : stored = some page := by
  rw [h.stored]
  obtain ⟨id, schema, data, dirtier, before⟩ := page
  obtain rfl : dirtier = none := hclean
  obtain rfl : before = none := h.clean rfl
  rfl

/-- All resident pages mirror their files, and there is room for them. -/
structure Coherent (capacity : Nat) (e : Engine) : Prop where
  capacity_eq : e.pool.capacity = capacity
  size_le : e.pool.cache.size ≤ capacity
  mirrors : ∀ page frame, e.pool.cache.peek page = some frame →
    frame.page.Mirrors (e.stored? page)

namespace Coherent

variable {capacity : Nat} {e e₁ e' : Engine} {page : PageId} {frame : Frame}

theorem of_empty (h : e.pool = .empty capacity) : Coherent capacity e := by
  refine ⟨by rw [h]; rfl, ?_, fun page frame hpeek => ?_⟩
  · rw [h]
    exact Nat.zero_le _
  · rw [h, Pool.peek_empty] at hpeek
    cases hpeek

/-- A page is found under its identity. -/
theorem id_eq (h : Coherent capacity e) (hpeek : e.pool.cache.peek page = some frame) :
    frame.page.id = page := by
  obtain ⟨file, -, -, hpage⟩ := stored?_eq_some_iff.1 (h.mirrors page frame hpeek).stored
  exact congrArg Page.id hpage

/-- The stored page of a resident one is where the resident one says. -/
theorem stored_file (h : Coherent capacity e) (hpeek : e.pool.cache.peek page = some frame) :
    ∃ file, e.catalog.file page.table = .ok file ∧ file.Has e.disk page
      ∧ file.schema = frame.page.schema
      ∧ file.pageBytes e.disk page.page = frame.page.beforeData := by
  obtain ⟨file, hfile, hhas, hpage⟩ :=
    stored?_eq_some_iff.1 (h.mirrors page frame hpeek).stored
  exact ⟨file, hfile, hhas, (congrArg Page.schema hpage).symm, (congrArg Page.data hpage).symm⟩

/-! ## Changes of the pool -/

theorem of_cache (h : Coherent capacity e) (hcapacity : e'.pool.capacity = e.pool.capacity)
    (hsize : e'.pool.cache.size ≤ capacity)
    (hstored : ∀ page x, e.stored? page = some x → e'.stored? page = some x)
    (hcache : ∀ page frame, e'.pool.cache.peek page = some frame →
      e.pool.cache.peek page = some frame ∨ frame.page.Mirrors (e'.stored? page)) :
    Coherent capacity e' := by
  refine ⟨hcapacity.trans h.capacity_eq, hsize, fun page frame hpeek => ?_⟩
  rcases hcache page frame hpeek with hold | hmirrors
  · have hm := h.mirrors page frame hold
    exact ⟨hstored _ _ hm.stored, hm.length, hm.clean⟩
  · exact hmirrors

/-- Locks and log play no part. -/
theorem of_eq (h : Coherent capacity e) (hcapacity : e'.pool.capacity = e.pool.capacity)
    (hcache : e'.pool.cache = e.pool.cache)
    (hstored : ∀ page x, e.stored? page = some x → e'.stored? page = some x) :
    Coherent capacity e' := by
  refine h.of_cache hcapacity ?_ hstored fun page frame hpeek => .inl ?_
  · rw [hcache]
    exact h.size_le
  · rwa [hcache] at hpeek

theorem discard (h : Coherent capacity e) (page : PageId) :
    Coherent capacity { e with pool := e.pool.discard page } := by
  refine h.of_cache rfl ?_ (fun _ _ hx => hx) fun p frame hpeek => .inl ?_
  · have hsize := h.size_le
    simp only [Pool.discard, Recency.size_remove]
    split <;> omega
  · simp only [Pool.discard, Recency.peek_remove] at hpeek
    split at hpeek
    · cases hpeek
    · exact hpeek

/-- With room made, one more page fits. -/
theorem makesRoom (h : Coherent capacity e) (hroom : MakesRoom e e₁) :
    Coherent capacity e₁ ∧ e₁.pool.cache.size < capacity := by
  cases hroom with
  | spare hroom =>
      refine ⟨h, ?_⟩
      have hcapacity := h.capacity_eq
      simp only [Pool.isFull, decide_eq_false_iff_not] at hroom
      omega
  | evict _ hvictim =>
      refine ⟨h.discard _, ?_⟩
      obtain ⟨victim, hvictim, -⟩ := peek_of_victim? hvictim
      have hpos := Recency.size_pos hvictim
      have hsize := h.size_le
      simp only [Pool.discard, Recency.size_remove, hvictim, Option.isSome_some, if_true]
      omega

/-- A page comes from its file. -/
theorem install {file : HeapFile} {disk : Disk} {loaded : Page} (h : Coherent capacity e)
    (hsize : e.pool.cache.size < capacity ∨ (e.pool.cache.peek page).isSome)
    (hfile : e.catalog.file page.table = .ok file)
    (hread : file.readPage e.disk page = .ok (loaded, disk)) :
    Coherent capacity { e with disk, pool := (e.pool.install loaded).2 } := by
  have hstored : e.stored? page = some loaded := stored?_of_readPage hfile hread
  obtain ⟨data, rfl, -⟩ := HeapFile.eq_ofBytes_of_readPage hread
  have hsame : ∀ p, Engine.stored?
      { e with disk, pool := (e.pool.install (.ofBytes page file.schema data)).2 } p
        = e.stored? p := fun p =>
    stored?_congr rfl (HeapFile.content_readPage hread)
  refine h.of_cache rfl ?_ (fun p x hx => by rw [hsame, hx]) fun p frame hpeek => ?_
  · have hle := h.size_le
    rw [show (e.pool.install (.ofBytes page file.schema data)).2.cache
      = e.pool.cache.put page _ from rfl, Recency.size_put]
    split
    · exact hle
    · rename_i habsent
      rcases hsize with hlt | hresident
      · exact hlt
      · exact absurd hresident habsent
  · simp only [Pool.install, Recency.peek_put] at hpeek
    split at hpeek
    · rename_i hp
      obtain rfl : page = p := hp
      cases hpeek
      exact .inr (.of_ofBytes (by rw [hsame, hstored]))
    · exact .inl hpeek

theorem use (h : Coherent capacity e) (hpeek : e.pool.cache.peek page = some frame) :
    Coherent capacity { e with pool := { e.pool with cache := e.pool.cache.put page frame } } := by
  refine h.of_cache rfl ?_ (fun _ _ hx => hx) fun p frame' hpeek' => .inl ?_
  · rw [Recency.size_put, hpeek]
    exact h.size_le
  · simp only [Recency.peek_put] at hpeek'
    split at hpeek'
    · rename_i hp
      cases hpeek'
      rw [← hp, hpeek]
    · exact hpeek'

/-- A page is replaced where it is, by one that mirrors what is stored
then. -/
theorem store (changed : Page) (h : Coherent capacity e)
    (hpeek : e.pool.cache.peek page = some frame) (hid : changed.id = frame.page.id)
    (he' : e'.pool = e.pool.store changed)
    (hstored : ∀ p x, p ≠ page → e.stored? p = some x → e'.stored? p = some x)
    (hmirrors : changed.Mirrors (e'.stored? page)) : Coherent capacity e' := by
  have hkey : changed.id = page := by rw [hid, h.id_eq hpeek]
  refine ⟨by rw [he', ← h.capacity_eq]; rfl, ?_, fun p frame' hpeek' => ?_⟩
  · rw [he', Pool.store, Recency.size_modify]
    exact h.size_le
  · rw [he', Pool.store, Recency.peek_modify, hkey] at hpeek'
    split at hpeek'
    · rename_i hp
      subst hp
      rw [hpeek] at hpeek'
      cases hpeek'
      exact hmirrors
    · rename_i hp
      have hm := h.mirrors p frame' hpeek'
      exact ⟨hstored p _ (Ne.symm hp) hm.stored, hm.length, hm.clean⟩

/-! ## Moves -/

theorem acquire {txn : TxnId} {mode : LockMode} {locks : LockTable} (h : Coherent capacity e)
    (_ : e.pool.locks.acquire? txn page mode = some locks) :
    Coherent capacity { e with pool := { e.pool with locks } } :=
  h.of_eq rfl rfl fun _ _ hx => hx

theorem release (h : Coherent capacity e) (txn : TxnId) (page : PageId) :
    Coherent capacity { e with pool := e.pool.release txn page } :=
  h.of_eq rfl rfl fun _ _ hx => hx

theorem log (h : Coherent capacity e) (log : LogSink) : Coherent capacity { e with log } :=
  h.of_eq rfl rfl fun _ _ hx => hx

theorem letGo (h : Coherent capacity e) (txn : TxnId) : Coherent capacity (e.letGo txn) := by
  unfold Engine.letGo
  split
  · exact h.of_eq rfl rfl fun _ _ hx => hx
  · exact h

theorem load {file : HeapFile} {disk : Disk} {loaded : Page} (h : Coherent capacity e)
    (hfile : e.catalog.file page.table = .ok file) (hroom : MakesRoom e e₁)
    (hread : file.readPage e₁.disk page = .ok (loaded, disk)) :
    Coherent capacity { e₁ with disk, pool := (e₁.pool.install loaded).2 } := by
  obtain ⟨h₁, hsize⟩ := h.makesRoom hroom
  refine h₁.install (.inl hsize) ?_ hread
  rw [hroom.catalog_eq, hfile]

theorem fetches {txn : TxnId} {mode : LockMode} (h : Coherent capacity e)
    (hfetch : Fetches txn page mode e frame e₁) : Coherent capacity e₁ := by
  cases hfetch with
  | hit hlock hpeek => exact (h.acquire hlock).use hpeek
  | miss hlock _ hfile hroom hread => exact (h.acquire hlock).load hfile hroom hread

/-- What is stored after a page with changes has been written. -/
theorem writesBack_eq {txn : TxnId} (hreg : e.catalog.Registered) (h : Coherent capacity e)
    (hpeek : e.pool.cache.peek page = some frame) (hdirty : frame.page.dirtier = some txn)
    (hwrites : WritesBack page e e') :
    e'.pool = e.pool.store frame.page.markClean ∧
      ∀ p, e'.stored? p = if p = page then some frame.page.markClean else e.stored? p := by
  cases hwrites with
  | clean hclean =>
      rw [hclean frame hpeek] at hdirty
      cases hdirty
  | dirty hpeek' hdirty' hfile hlog hwrite =>
      rename_i frame' txn' file log disk
      obtain rfl := Option.some.inj (hpeek.symm.trans hpeek')
      obtain ⟨file', hfile', hhas, hschema, -⟩ := h.stored_file hpeek
      have hid := h.id_eq hpeek
      obtain rfl := Except.ok.inj ((hid ▸ hfile).symm.trans hfile')
      refine ⟨rfl, fun p => ?_⟩
      have hstored : Engine.stored?
          { e with disk, log, pool := e.pool.store frame.page.markClean } p
            = if p = frame.page.id then some (.ofBytes p file.schema frame.page.data)
              else e.stored? p :=
        (stored?_congr rfl fun _ => rfl).trans
          (stored?_write hreg hfile (hid.symm ▸ hhas) hwrite p)
      rw [hstored, hid]
      split
      · rename_i hp
        rw [hp, ← hid, hschema]
        rfl
      · rfl

/-- A page that is written is clean, and mirrors what was written. -/
theorem writesBack (hreg : e.catalog.Registered) (h : Coherent capacity e)
    (hwrites : WritesBack page e e') : Coherent capacity e' := by
  have hwrites' := hwrites
  cases hwrites with
  | clean _ => exact h
  | dirty hpeek hdirty hfile hlog hwrite =>
      rename_i frame txn file log disk
      obtain ⟨hpool, hstored⟩ := h.writesBack_eq hreg hpeek hdirty hwrites'
      refine h.store frame.page.markClean hpeek rfl hpool ?_ ?_
      · intro p x hp hx
        rw [hstored, if_neg hp, hx]
      · rw [hstored, if_pos rfl]
        exact ⟨rfl, rfl, fun _ => rfl⟩

theorem quiet {txn : TxnId} (hreg : e.catalog.Registered) (hwithin : Within e e')
    (h : Coherent capacity e) (hmove : Quiet txn e e') : Coherent capacity e' := by
  cases hmove with
  | lock hlock => exact h.acquire hlock
  | use _ hpeek => exact h.use hpeek
  | drop _ _ => exact h.discard _
  | load _ hfile hroom hread => exact h.load hfile hroom hread
  | append hfile happend =>
      refine h.of_eq rfl rfl fun p x hx => ?_
      rcases stored?_append hreg hfile happend (hwithin _ _ hfile) p with hsame | ⟨hnone, -⟩
      · rw [hsame, hx]
      · rw [hnone] at hx
        cases hx
  | giveBack _ hfetch => exact (h.fetches hfetch).release _ _

/-- A page with changes still knows the bytes before them. -/
theorem change {txn : TxnId} {changed : Page} (h : Coherent capacity e)
    (hpeek : e.pool.cache.peek page = some frame) (hchanged : frame.page.Becomes changed) :
    Coherent capacity (e.store (changed.markDirty txn)) := by
  have hm := h.mirrors page frame hpeek
  refine h.store (changed.markDirty txn) hpeek hchanged.id_eq rfl (fun _ _ _ hx => hx)
    ⟨?_, ?_, nofun⟩
  · rw [hchanged.beforePage_eq]
    exact hm.stored
  · have hbefore := congrArg Page.data (hchanged.beforePage_eq txn)
    exact (hchanged.length_data.trans hm.length).trans (congrArg List.length hbefore.symm)

theorem move (hreg : e.catalog.Registered) (hwithin : Within e e') (h : Coherent capacity e)
    (hmove : Move e e') : Coherent capacity e' := by
  cases hmove with
  | quiet hmove => exact h.quiet hreg hwithin hmove
  | change hpeek howns hchanged => exact h.change hpeek hchanged
  | log => exact h.log _
  | writeBack hwrites => exact h.writesBack hreg hwrites
  | restore hresident hrestores =>
      cases hrestores with
      | mk hfile hread => exact h.install (.inr hresident) hfile hread
  | letGo => exact h.letGo _
  | discard => exact h.discard _

theorem movePath (hreg : e.catalog.Registered) (hwithin : Within e e') (h : Coherent capacity e)
    (hpath : MovePath e e') : Coherent capacity e' := by
  induction hpath with
  | refl => exact h
  | tail hpath hmove ih =>
      have hgrows := MovePath.grows hpath
      have hmid := ih (hmove.grows.within_left hwithin)
      refine hmid.move ?_ (hgrows.within_right hwithin) hmove
      rw [hgrows.catalog]
      exact hreg

theorem call (hreg : e.catalog.Registered) (call : Call) (hwithin : Within e (call.after e))
    (h : Coherent capacity e) : Coherent capacity (call.after e) := by
  rcases call.release_or_movePath e with ⟨txn, page, rfl⟩ | hpath
  · exact h.release txn page
  · exact h.movePath hreg hwithin hpath

theorem run (hreg : e.catalog.Registered) (calls : List Call)
    (hwithin : Within e (Call.afterAll calls e)) (h : Coherent capacity e) :
    Coherent capacity (Call.afterAll calls e) := by
  induction calls generalizing e with
  | nil => exact h
  | cons call calls ih =>
      have hcall := call.grows e
      have hfirst := h.call hreg call ((Call.grows_all calls _).within_left hwithin)
      refine ih ?_ (hcall.within_right hwithin) hfirst
      rw [hcall.catalog]
      exact hreg

end Coherent

/-- After any calls on an empty pool over registered files, none of which
outgrows its page numbers: no more pages are resident than the pool has room
for, and each of them is a whole page of its file, found under its identity.
Without changes it holds the bytes in the file and nothing else; with changes
the bytes before them are those in the file. -/
theorem cache_coherence {capacity : Nat} {start : Engine} (hreg : start.catalog.Registered)
    (hstart : start.pool = .empty capacity) (calls : List Call)
    (hwithin : Within start (Call.afterAll calls start)) :
    (Call.afterAll calls start).pool.cache.size ≤ capacity ∧
    ∀ page frame, (Call.afterAll calls start).pool.cache.peek page = some frame →
      frame.page.id = page ∧
      ∃ file count, start.catalog.file page.table = .ok file ∧
        file.pageCount (Call.afterAll calls start).disk = .ok count ∧ page.page < count ∧
        frame.page.data.length = file.pageSize ∧
        (frame.page.dirtier = none → frame.page.before = none ∧
          frame.page.data = file.pageBytes (Call.afterAll calls start).disk page.page) ∧
        (frame.page.dirtier ≠ none →
          frame.page.beforeData
            = file.pageBytes (Call.afterAll calls start).disk page.page) := by
  have h := (Coherent.of_empty hstart).run hreg calls hwithin
  have hgrows := Call.grows_all calls start
  refine ⟨h.size_le, fun page frame hpeek => ⟨h.id_eq hpeek, ?_⟩⟩
  obtain ⟨file, hfile, hhas, -, hbytes⟩ := h.stored_file hpeek
  have hm := h.mirrors page frame hpeek
  refine ⟨file, _, ?_, HeapFile.pageCount_eq hhas.size, hhas.below, ?_, ?_, fun _ => hbytes.symm⟩
  · rw [← hgrows.catalog, hfile]
  · rw [hm.length, ← hbytes, hhas.length_pageBytes]
  · intro hclean
    have hbefore := hm.clean hclean
    refine ⟨hbefore, ?_⟩
    rw [hbytes, Page.beforeData, hbefore, Option.getD_none]

theorem cache_coherence_inserted :
    ∃ frame, (Call.afterAll [.insert ⟨1⟩ ⟨0⟩ (.single 7)] (.twoTables 1 .none)).pool.cache.peek
        ⟨⟨0⟩, 0⟩ = some frame ∧
      frame.page.dirtier = some ⟨1⟩ ∧
      frame.page.beforeData = (HeapFile.pairs 0 "a").pageBytes
        (Call.afterAll [.insert ⟨1⟩ ⟨0⟩ (.single 7)] (.twoTables 1 .none)).disk 0 := by
  have hdirty : ((Call.afterAll [.insert ⟨1⟩ ⟨0⟩ (.single 7)]
      (.twoTables 1 .none)).pool.cache.peek ⟨⟨0⟩, 0⟩).map (fun frame => frame.page.dirtier)
        = some (some ⟨1⟩) := by decide +kernel
  have hwithin : Within (.twoTables 1 .none)
      (Call.afterAll [.insert ⟨1⟩ ⟨0⟩ (.single 7)] (.twoTables 1 .none)) := by
    intro id file hfile _
    rcases file_twoTables hfile with ⟨rfl, rfl⟩ | ⟨rfl, rfl⟩ <;> decide +kernel
  obtain ⟨frame, hpeek, hdirtier⟩ := Option.map_eq_some_iff.1 hdirty
  obtain ⟨-, file, -, hfile, -, -, -, -, hbefore⟩ :=
    (cache_coherence (registered_twoTables 1 .none) rfl _ hwithin).2 _ frame hpeek
  obtain ⟨-, rfl⟩ | ⟨hid, -⟩ := file_twoTables hfile
  · exact ⟨frame, hpeek, hdirtier, hbefore (by rw [hdirtier]; nofun)⟩
  · cases hid

end HeapStore
