import HeapStore.Proofs.Simulation

/-!
# Scans among readers

Where nobody writes (`Reading`), what the pool shows is what the files hold.
Every page may be locked for reading, and if there is no room left for it,
there is a clean page to drop, as long as the pool has room for one page at
all (`Reading.getPage_ends`). So a scan meets every page of its file and
yields the rows of the table in the order of their addresses (`scan_reads`).
-/

namespace HeapStore

open HeapStore.Action Engine

/-! ## Shared locks -/

namespace LockTable

theorem exists_grant?_shared {grants : List Grant} (h : ∀ grant ∈ grants, grant.mode = .shared)
    (txn : TxnId) : ∃ grants', grant? grants txn .shared = some grants'
      ∧ ∀ grant ∈ grants', grant.mode = .shared := by
  unfold grant?
  split
  · exact ⟨_, rfl, by simp⟩
  · rename_i held
    have hheld := h held (List.mem_singleton_self _)
    split
    · exact ⟨[held], by simp, h⟩
    · refine ⟨[held, ⟨txn, .shared⟩], by simp [hheld], ?_⟩
      simp [hheld]
  · rename_i several _ _
    simp only [if_neg (show ¬LockMode.shared = .exclusive by decide)]
    split
    · exact ⟨_, rfl, h⟩
    · refine ⟨_, rfl, fun grant hgrant => ?_⟩
      rcases List.mem_append.1 hgrant with hold | hnew
      · exact h grant hold
      · rw [List.mem_singleton.1 hnew]

/-- Where all locks are shared, one more is granted. -/
theorem exists_acquire?_shared {table : LockTable}
    (h : ∀ page, ∀ grant ∈ table.held page, grant.mode = .shared) (txn : TxnId) (page : PageId) :
    ∃ table', table.acquire? txn page .shared = some table'
      ∧ ∀ p, ∀ grant ∈ table'.held p, grant.mode = .shared := by
  obtain ⟨grants, hgrants, hshared⟩ := exists_grant?_shared (h page) txn
  have hacquire : table.acquire? txn page .shared = some ⟨table.grants.insert page grants⟩ := by
    rw [acquire?, hgrants, Option.map_some]
  refine ⟨_, hacquire, fun p grant hgrant => ?_⟩
  obtain ⟨grants', hgrants', hheld⟩ := held_of_acquire? hacquire p
  obtain rfl := Option.some.inj (hgrants.symm.trans hgrants')
  rw [hheld] at hgrant
  split at hgrant
  · exact hshared grant hgrant
  · exact h p grant hgrant

end LockTable

/-! ## Nobody writes -/

/-- All locks are shared, and no page has changes. -/
structure Reading (capacity : Nat) (e : Engine) : Prop where
  shared : ∀ page, ∀ grant ∈ e.pool.locks.held page, grant.mode = .shared
  clean : ∀ page frame, e.pool.cache.peek page = some frame → frame.page.dirtier = none
  coherent : Coherent capacity e

namespace Reading

variable {capacity : Nat} {txn : TxnId} {page : PageId} {frame : Frame} {e e₁ e' : Engine}

theorem of_empty (h : e.pool = .empty capacity) : Reading capacity e := by
  refine ⟨fun page grant hgrant => ?_, fun page frame hpeek => ?_, .of_empty h⟩
  · rw [h] at hgrant
    simp [Pool.empty, LockTable.held, LockTable.empty] at hgrant
  · rw [h, Pool.peek_empty] at hpeek
    cases hpeek

/-- A full pool has a page to drop, unless it has no room for any. -/
theorem size_eq_zero (h : Reading capacity e)
    (hvictim : e.pool.victim? (fun _ => false) = none) : e.pool.cache.size = 0 := by
  have hnone : ∀ pair ∈ e.pool.cache.toList, pair.2.page.isDirty = true := by
    simpa [Pool.victim?] using hvictim
  have hempty : e.pool.cache.toList = [] := by
    refine List.eq_nil_iff_forall_not_mem.2 fun ⟨page, frame⟩ hmem => ?_
    have hdirty := hnone _ hmem
    rw [Page.isDirty, h.clean page frame (Recency.mem_toList.1 hmem)] at hdirty
    cases hdirty
  rw [← Recency.length_keys, ← Recency.map_fst_toList, hempty]
  rfl

/-- A page that was got is as it is stored, and still nobody writes. -/
theorem fetches (h : Reading capacity e) (hfetch : Fetches txn page .shared e frame e₁) :
    Reading capacity e₁ ∧ e.stored? page = some frame.page := by
  have hcoherent := h.coherent.fetches hfetch
  have hclean : ∀ p frame', e₁.pool.cache.peek p = some frame' → frame'.page.dirtier = none := by
    intro p frame' hpeek
    by_contra hdirty
    exact hdirty (h.clean p frame' ((hfetch.peek_dirty hdirty).1 hpeek))
  refine ⟨⟨?_, hclean, hcoherent⟩, ?_⟩
  · obtain ⟨locks, hlocks, hshared⟩ := LockTable.exists_acquire?_shared h.shared txn page
    obtain rfl := Option.some.inj (hlocks.symm.trans hfetch.acquire?)
    exact hshared
  · have hmirrors := hcoherent.mirrors page frame hfetch.peek
    rw [stored?_congr hfetch.catalog_eq hfetch.content_eq] at hmirrors
    exact hmirrors.stored_of_clean (hclean page frame hfetch.peek)

/-- Getting a stored page fails for want of any room alone. -/
theorem getPage_ends (h : Reading capacity e) {x : Page} (hstored : e.stored? page = some x) :
    (getPage txn page .read).Ends e
      (fun frame e₁ => capacity ≠ 0 ∧ Fetches txn page .shared e frame e₁)
      (fun failure e₁ => capacity = 0 ∧ failure = .error .bufferPoolFull
        ∧ Reading capacity e₁ ∧ e₁.catalog = e.catalog ∧ e₁.disk = e.disk) := by
  obtain ⟨file, hfile, hhas, -⟩ := stored?_eq_some_iff.1 hstored
  obtain ⟨locks, hlock, hshared⟩ := LockTable.exists_acquire?_shared h.shared txn page
  have hlocked : Reading capacity { e with pool := { e.pool with locks } } :=
    ⟨hshared, h.clean, h.coherent.acquire hlock⟩
  have hresident : ∀ page frame, e.pool.cache.peek page = some frame → capacity ≠ 0 :=
    fun _ _ hpeek => Nat.ne_of_gt (Nat.lt_of_lt_of_le (Recency.size_pos hpeek) h.coherent.size_le)
  have hread := HeapFile.readPage_eq hhas
  simp only [getPage, ends_bind, ends_lock, ends_touch,
    show Access.lockMode .read = .shared from rfl, hlock]
  split
  · rename_i frame hpeek
    exact ⟨hresident page frame hpeek, .hit hlock hpeek⟩
  rename_i habsent
  simp only [ends_fileOf, ends_makeRoom, ends_readPage, ends_install, ends_evict, hfile, hread]
  split
  · rename_i hfull
    split
    · rename_i victim hvictim
      obtain ⟨_, hpeek, -⟩ := peek_of_victim? hvictim
      exact ⟨hresident victim _ hpeek, .miss hlock habsent hfile (.evict hfull hvictim) hread⟩
    · rename_i hvictim
      have hzero := hlocked.size_eq_zero hvictim
      have hle := of_decide_eq_true hfull
      rw [hzero, hlocked.coherent.capacity_eq] at hle
      exact ⟨Nat.le_zero.1 hle, trivial, hlocked, trivial, trivial⟩
  · rename_i hspare
    have hspare := eq_false_of_ne_true hspare
    have hlt : e.pool.cache.size < e.pool.capacity :=
      Nat.lt_of_not_le (of_decide_eq_false hspare)
    rw [h.coherent.capacity_eq] at hlt
    exact ⟨Nat.ne_zero_of_lt hlt, .miss hlock habsent hfile (.spare hspare) hread⟩

end Reading

/-! ## Scanning -/

theorem cut_false {α : Type} (items : List α) : cut (fun _ => false) items = (items, none) := by
  induction items with
  | nil => rfl
  | cons item items ih => simp [cut, ih]

/-- What a scan yields at a page of its file. -/
def Engine.itemsOf (engine : Engine) (capacity : Nat) (page : PageId) : List Item :=
  if capacity = 0 then [.error .bufferPoolFull]
  else ((engine.stored? page).elim [] Page.tuples).map .ok

section

variable {capacity : Nat} {table : TableId} {file : HeapFile} {txn : TxnId} {e e₁ : Engine}

/-- The items at a page, and nobody writes after the look at it either. -/
theorem Reading.look_ends (h : Reading capacity e) {page : PageId} {x : Page}
    (hstored : e.stored? page = some x) :
    (attempt (getPage txn page .read)).Ends e
      (fun answer e₁ => Reading capacity e₁ ∧ (∀ p, e₁.stored? p = e.stored? p) ∧
        (match answer with
          | .ok frame => frame.page.tuples.map .ok
          | .error cause => [.error cause]) = e.itemsOf capacity page)
      (fun _ _ => False) := by
  rw [ends_attempt]
  refine (h.getPage_ends hstored).mono ?_ ?_
  · rintro frame e₁ ⟨hcapacity, hfetch⟩
    obtain ⟨h₁, hpage⟩ := h.fetches hfetch
    refine ⟨h₁, fun p => stored?_congr hfetch.catalog_eq hfetch.content_eq, ?_⟩
    rw [itemsOf, if_neg hcapacity, hpage]
    rfl
  · rintro _ e₁ ⟨hcapacity, rfl, h₁, hcatalog, hdisk⟩
    refine ⟨h₁, fun p => stored?_congr hcatalog fun name => by rw [hdisk], ?_⟩
    rw [itemsOf, if_pos hcapacity]

theorem Reading.takePages_ends (count first : Nat) (h : Reading capacity e)
    (hstored : ∀ n ∈ List.range' first count, ∃ x, e.stored? ⟨file.id, n.toUInt32⟩ = some x) :
    (Scan.takePages (fun _ => false) file txn count first.toUInt32).Ends e
      (fun answer _ => answer.1
        = (List.range' first count).flatMap fun n => e.itemsOf capacity ⟨file.id, n.toUInt32⟩)
      (fun _ _ => False) := by
  induction count generalizing first e with
  | zero => exact ends_pure.2 rfl
  | succ count ih =>
      rw [List.range'_succ] at hstored ⊢
      obtain ⟨x, hx⟩ := hstored first List.mem_cons_self
      have hnext : first.toUInt32 + 1 = (first + 1).toUInt32 := by
        simp [Nat.toUInt32, UInt32.ofNat_add]
      simp only [Scan.takePages, ends_bind]
      refine (h.look_ends hx).mono ?_ fun _ _ hfail => hfail
      rintro answer e₁ ⟨h₁, hsame, hitems⟩
      have hrest := ih (first + 1) h₁ fun n hn => by
        rw [hsame]
        exact hstored n (List.mem_cons_of_mem _ hn)
      have hlater : ∀ p, e₁.itemsOf capacity p = e.itemsOf capacity p := fun p => by
        rw [itemsOf, hsame, itemsOf]
      rcases answer with cause | frame
      all_goals
        simp only [ends_bind, ends_pure, cut_false, hnext]
        refine hrest.mono ?_ fun _ _ hfail => hfail
        rintro ⟨more, scan⟩ e₂ hmore
        simp only [hlater] at hmore
        rw [List.flatMap_cons, ← hitems, ← hmore]

/-- A page that the file does not have has no rows. -/
theorem Engine.rows_eq_none {record : RecordId} (h : e.stored? record.page = none) :
    e.rows record = none := by
  rw [Engine.rows, h, Option.bind_none]

/-- The rows on a page, slot by slot. -/
theorem Engine.rows_on_page (page : PageId)
    (hslots : ∀ x, e.stored? page = some x → x.slotCount ≤ UInt16.size) :
    ((List.range UInt16.size).filterMap fun slot => e.rows ⟨page, slot.toUInt16⟩)
      = (e.stored? page).elim [] Page.tuples := by
  cases hx : e.stored? page with
  | none =>
      rw [Option.elim_none, List.filterMap_eq_nil_iff]
      exact fun slot _ => rows_eq_none hx
  | some x =>
      rw [Option.elim_some, Page.tuples_eq_slots (hslots x hx)]
      refine List.filterMap_congr fun slot _ => ?_
      rw [Engine.rows, hx, Option.bind_some]

/-- The rows of a table are those on its pages. -/
theorem Engine.rows_ofTable {count : UInt32}
    (hslots : ∀ page x, e.stored? page = some x → x.slotCount ≤ UInt16.size)
    (hbehind : ∀ n, count ≤ n → e.stored? ⟨table, n⟩ = none) :
    (RecordId.ofTable table).filterMap e.rows
      = (List.range count.toNat).flatMap fun n =>
          (e.stored? ⟨table, n.toUInt32⟩).elim [] Page.tuples := by
  obtain ⟨spare, hspare⟩ : ∃ spare, UInt32.size = count.toNat + spare :=
    ⟨UInt32.size - count.toNat, by have := count.toNat_lt_size; omega⟩
  have hpage : ∀ n : Nat, ((List.range UInt16.size).map fun slot =>
      (⟨⟨table, n.toUInt32⟩, slot.toUInt16⟩ : RecordId)).filterMap e.rows
        = (e.stored? ⟨table, n.toUInt32⟩).elim [] Page.tuples := by
    intro n
    rw [List.filterMap_map, ← e.rows_on_page _ (hslots _)]
    rfl
  have hnone : ((List.range spare).map (count.toNat + ·)).flatMap (fun n =>
      (e.stored? ⟨table, n.toUInt32⟩).elim [] Page.tuples) = [] := by
    rw [List.flatMap_eq_nil_iff]
    intro n hn
    obtain ⟨i, hi, rfl⟩ := List.mem_map.1 hn
    have hi := List.mem_range.1 hi
    rw [hbehind, Option.elim_none]
    rw [UInt32.le_iff_toNat_le, UInt32.toNat_ofNat_of_lt' (by omega)]
    exact Nat.le_add_right _ _
  rw [RecordId.ofTable, List.filterMap_flatMap]
  simp only [hpage]
  rw [hspare, List.range_add, List.flatMap_append, hnone, List.append_nil]

/-- A scan of a file, from an engine where nobody writes: the rows of the
table in the order of their addresses, or one refusal a page if the pool
has no room for a single one. -/
theorem scan_reads (h : Reading capacity e) (hreg : e.catalog.Registered)
    (hslots : ∀ page x, e.stored? page = some x → x.slotCount ≤ UInt16.size)
    (hfile : e.catalog.file table = .ok file) {count : UInt32}
    (hcount : file.pageCount e.disk = .ok count) :
    (Scan.start file txn).rest.Ends e (fun answer _ => answer.1 =
        if capacity = 0 then List.replicate count.toNat (.error .bufferPoolFull)
        else ((RecordId.ofTable table).filterMap e.rows).map .ok)
      (fun _ _ => False) := by
  obtain ⟨hsize, hwhole⟩ := HeapFile.size_of_pageCount hcount
  have hid := hreg.keyed _ _ hfile
  have hstored : ∀ n, n < count → ∃ x, e.stored? ⟨table, n⟩ = some x := by
    intro n hn
    rw [hwhole] at hn
    exact ⟨_, stored?_eq_some_iff.2 ⟨file, hfile, ⟨hid.symm, hsize, hn⟩, rfl⟩⟩
  have hbehind : ∀ n, count ≤ n → e.stored? ⟨table, n⟩ = none := by
    intro n hn
    refine Option.eq_none_iff_forall_ne_some.2 fun x hx => ?_
    obtain ⟨file', hfile', hhas, -⟩ := stored?_eq_some_iff.1 hx
    obtain rfl := Except.ok.inj (hfile.symm.trans hfile')
    rw [hwhole] at hn
    exact UInt32.not_lt.2 hn hhas.below
  have hpages : (Scan.takePages (fun _ => false) file txn count.toNat 0).Ends e
      (fun answer _ => answer.1
        = (List.range count.toNat).flatMap fun n => e.itemsOf capacity ⟨table, n.toUInt32⟩)
      (fun _ _ => False) := by
    rw [List.range_eq_range', ← hid]
    refine h.takePages_ends count.toNat 0 fun n hn => ?_
    have hlt := (List.mem_range'_1.1 hn).2
    have hbits := count.toNat_lt_size
    rw [hid]
    refine hstored _ ?_
    rw [UInt32.lt_iff_toNat_lt, UInt32.toNat_ofNat_of_lt' (by omega)]
    omega
  simp only [Scan.rest, Scan.takeUntil, Scan.start, List.map_nil, cut, ends_bind, ends_pageCount,
    hcount]
  refine hpages.mono ?_ fun _ _ hfail => hfail
  rintro ⟨items, scan⟩ e₁ hitems
  refine ends_pure.2 (hitems.trans ?_)
  split
  · rename_i hcapacity
    simp only [itemsOf, if_pos hcapacity]
    rw [← List.map_eq_flatMap, List.map_const', List.length_range]
  · rename_i hcapacity
    simp only [itemsOf, if_neg hcapacity]
    rw [rows_ofTable hslots hbehind, List.map_flatMap]

end

end HeapStore
