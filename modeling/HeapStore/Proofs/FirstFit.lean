import HeapStore.Proofs.Searching

/-!
# The first room there is

A tuple that is inserted goes into the free slot with the lowest address, on
whichever pages are in the pool and whatever locks the transaction has. Only
where no slot is free does the file grow, by one page, and the tuple goes into
its first slot. A delete frees the slot that it names. Either changes one
address (`Engine.Rewrites`): no other tuple, no file and, but for the lock on
the page of that address, no lock.

Headline: `edits_touch_one_slot`.
-/

namespace HeapStore

open HeapStore.Action Engine

/-! ## What is to be seen of a table -/

/-- The tuples as one sees them who gets the pages. -/
def Engine.shown (engine : Engine) : Rows :=
  fun record => (engine.view? record.page).bind fun page => page.slot? record.slot

/-- The slot is to be seen, and has no tuple. -/
def Engine.Free (engine : Engine) (record : RecordId) : Prop :=
  ∃ x, engine.view? record.page = some x ∧ record.slot.toNat < x.slotCount ∧
    x.isUsed record.slot.toNat = false

/-- The transaction changes what is at one address, and gets the page of this
address for itself. All else stays. -/
structure Engine.Rewrites (txn : TxnId) (change : Change) (e e' : Engine) : Prop where
  shown : e'.shown = e.shown.apply change
  dirty : ∃ frame, e'.pool.cache.peek change.record.page = some frame ∧
    frame.page.dirtier = some txn
  modes : ∀ other p, e'.pool.locks.mode? other p
    = if other = txn ∧ p = change.record.page then some .exclusive
      else e.pool.locks.mode? other p
  catalog : e'.catalog = e.catalog
  log : e'.log = e.log

/-- The address is the first one in the table that is free; or none is, and it
is the first one of a page that the file grows by. -/
inductive Engine.FirstFits (file : HeapFile) (record : RecordId) (e e' : Engine) : Prop where
  | free (hfree : e.Free record)
      (hfirst : ∀ r, r.page.table = record.page.table → e.Free r →
        record.page.page < r.page.page ∨
          record.page.page = r.page.page ∧ record.slot ≤ r.slot)
      (hfiles : ∀ name, e'.disk.content name = e.disk.content name)
  | behind (hfull : ∀ r, r.page.table = record.page.table → ¬e.Free r)
      (hcount : file.pageCount e.disk = .ok record.page.page) (hslot : record.slot = 0)
      (hgains : file.GainsPage e.disk e'.disk)

section

variable {capacity : Nat} {txn : TxnId} {tuple : Tuple} {table : TableId} {file : HeapFile}
  {page p : PageId} {changed : Page} {old new : Frame} {answer : Frame × Tuple} {e e₁ e' : Engine}

/-- A file of whole pages grows by zeroes when all of them are full. -/
theorem Engine.FirstFits.content_of_full {record : RecordId} (h : e.FirstFits file record e')
    (hfull : ∀ r, r.page.table = record.page.table → ¬e.Free r)
    (hwhole : file.pageSize ∣ (e.disk.content file.handle.name).length) :
    e'.disk.content file.handle.name
      = e.disk.content file.handle.name ++ Bytes.zeros file.pageSize := by
  cases h with
  | free hfree _ _ => exact absurd hfree (hfull record rfl)
  | behind _ _ _ hgains => exact hgains.content_of_dvd hwhole

theorem Engine.shown_congr (h : ∀ p, e'.view? p = e.view? p) : e'.shown = e.shown := by
  funext record
  rw [Engine.shown, h, Engine.shown]

theorem Edits.rewrites {change : Change} (h : Edits capacity txn page e changed old new e')
    (hpage : change.record.page = page)
    (hslots : ∀ slot, changed.slot? slot
      = if slot = change.record.slot then change.value else old.page.slot? slot) :
    e.Rewrites txn change e' := by
  refine ⟨?_, ⟨new, hpage ▸ h.latest.peek, ?_⟩, hpage ▸ h.mode?_eq, h.catalog_eq, h.log_eq⟩
  · funext record
    have hrecord : record = change.record
        ↔ record.page = page ∧ record.slot = change.record.slot := by
      rw [← hpage]
      cases record
      cases change.record
      simp
    rw [Engine.shown, h.view?_eq, Rows.apply]
    simp only [hrecord]
    by_cases hp : record.page = page
    · simp only [hp, if_true, Option.bind_some, Page.slot?_markClean, hslots, true_and,
        Engine.shown, h.view_old]
    · simp only [hp, if_false, false_and, Engine.shown]
  · rw [h.new_eq]
    rfl

/-- A page in the pool has as many slots as its file says. -/
theorem Coherent.slotCount_eq (h : Coherent capacity e)
    (hpeek : e.pool.cache.peek page = some old) :
    ∃ file, e.catalog.file page.table = .ok file ∧
      old.page.slotCount = Page.slotsPerPage file.pageSize file.schema := by
  obtain ⟨file, hfile, hhas, hschema, hbytes⟩ := h.stored_file hpeek
  refine ⟨file, hfile, ?_⟩
  rw [hschema, ← hhas.length_pageBytes, hbytes, ← (h.mirrors page old hpeek).length]
  rfl

theorem Edits.exists_before (h : Edits capacity txn page e changed old new e') :
    ∃ e₁, Coherent capacity e₁ ∧ e₁.pool.cache.peek page = some old ∧
      e₁.catalog = e.catalog := by
  cases h with
  | mk hgot _ => exact ⟨_, hgot.ready.coherent, hgot.latest.peek, hgot.keeps.catalog⟩

/-- What an insert on a page does: the first free slot is filled. -/
theorem Places.rewrites (h : Places capacity txn tuple page e answer e')
    (hslots : ∀ id file, e.catalog.file id = .ok file →
      Page.slotsPerPage file.pageSize file.schema ≤ UInt16.size) :
    ∃ record, answer.2 = tuple.withRecord (some record) ∧ record.page = page ∧
      e.Free record ∧ (∀ r, r.page = page → e.Free r → record.slot ≤ r.slot) ∧
      e.Rewrites txn ⟨record, some (e.catalog.reread record answer.2)⟩ e' ∧
      ∀ name, e'.disk.content name = e.disk.content name := by
  cases h with
  | @mk old new record changed e' hinsert hedits =>
      obtain ⟨e₁, hcoherent, hpeek, hcatalog⟩ := hedits.exists_before
      obtain ⟨file, hfile, hcount⟩ := hcoherent.slotCount_eq hpeek
      have hle : old.page.slotCount ≤ UInt16.size := by
        rw [hcount]
        rw [hcatalog] at hfile
        exact hslots _ _ hfile
      obtain ⟨hid, hrows⟩ := Page.slot?_insert hinsert hle
      have hpage : record.page = page := hid.trans (hcoherent.id_eq hpeek)
      have hreread := hcoherent.decode?_of_insert hpeek hinsert
      rw [hcatalog] at hreread
      simp only [hreread] at hrows
      obtain ⟨-, free, hfirst, hrecord, -⟩ := Page.insert_eq_ok hinsert
      obtain ⟨hlt, hfree, hbelow⟩ := Page.firstFree?_eq_some_iff.1 hfirst
      have hslot : record.slot.toNat = free := by
        rw [hrecord]
        exact UInt16.toNat_ofNat_of_lt' (Nat.lt_of_lt_of_le hlt hle)
      refine ⟨record, rfl, hpage, ?_, ?_, hedits.rewrites hpage hrows, hedits.content_eq⟩
      · refine ⟨old.page.markClean, hpage ▸ hedits.view_old, ?_⟩
        rw [hslot]
        exact ⟨hlt, hfree⟩
      · rintro r hr ⟨x, hview, -, hunused⟩
        rw [hr, hedits.view_old] at hview
        cases hview
        refine UInt16.not_lt.1 fun hless => ?_
        rw [UInt16.lt_iff_toNat_lt, hslot] at hless
        have hused := hbelow _ hless
        exact absurd (hused.symm.trans hunused) (by decide)

theorem Engine.Filled.not_free {r : RecordId} (h : e.Filled r.page) : ¬e.Free r := by
  rintro ⟨x, hview, hlt, hfree⟩
  obtain ⟨y, hview', hfull⟩ := h
  obtain rfl := Option.some.inj (hview.symm.trans hview')
  exact absurd ((hfull _ hlt).symm.trans hfree) (by decide)

theorem Engine.Rewrites.before {change : Change} (h : e₁.Rewrites txn change e')
    (hshown : e₁.shown = e.shown)
    (hmodes : ∀ other p, e₁.pool.locks.mode? other p = e.pool.locks.mode? other p)
    (hcatalog : e₁.catalog = e.catalog) (hlog : e₁.log = e.log) : e.Rewrites txn change e' := by
  refine ⟨hshown ▸ h.shown, h.dirty, fun other p => ?_, h.catalog.trans hcatalog,
    h.log.trans hlog⟩
  rw [h.modes, hmodes]

/-- A page of zeroes shows no tuple. -/
theorem Ready.shown_appendPage {disk : Disk} (h : Ready capacity e)
    (hfile : e.catalog.file table = .ok file)
    (happend : file.appendPage e.disk = .ok (page, disk))
    (hfew : file.wholePages disk < UInt32.size) : Engine.shown { e with disk } = e.shown := by
  obtain ⟨-, hnone, hview⟩ := h.appendPage hfile happend hfew
  funext record
  rw [Engine.shown, hview, Engine.shown]
  split
  · rename_i hp
    rw [hp, hnone, Option.bind_some, Page.slot?_zeros]
    rfl
  · rfl

theorem Ready.free_of_append {disk : Disk} (h : Ready capacity e)
    (hfile : e.catalog.file table = .ok file)
    (happend : file.appendPage e.disk = .ok (page, disk))
    (hfew : file.wholePages disk < UInt32.size) : Engine.Free { e with disk } ⟨page, 0⟩ := by
  obtain ⟨-, -, hview⟩ := h.appendPage hfile happend hfew
  have hfirst := Page.firstFree?_zeros page (h.roomy _ _ hfile)
  obtain ⟨hlt, hfree, -⟩ := Page.firstFree?_eq_some_iff.1 hfirst
  exact ⟨_, (hview page).trans (if_pos rfl), hlt, hfree⟩

/-- In a file whose pages are full no slot is free. -/
theorem Ready.not_free_of_full {count : UInt32} (h : Ready capacity e)
    (hfile : e.catalog.file table = .ok file) (hcount : file.pageCount e.disk = .ok count)
    (hfull : ∀ m : UInt32, 0 ≤ m → m.toNat < (0 : UInt32).toNat + count.toNat →
      e.Filled ⟨file.id, m⟩) {r : RecordId} (hr : r.page.table = table) : ¬e.Free r := by
  intro hfree
  refine Engine.Filled.not_free ?_ hfree
  obtain ⟨x, hview, -⟩ := hfree
  obtain ⟨stored, hstored⟩ := Option.ne_none_iff_exists'.1 (h.coherent.stored_of_view hview)
  obtain ⟨file', hfile', hhas, -⟩ := stored?_eq_some_iff.1 hstored
  obtain rfl := Except.ok.inj (hfile.symm.trans (hr ▸ hfile'))
  obtain ⟨-, rfl⟩ := HeapFile.size_of_pageCount hcount
  have hpage : (⟨file.id, r.page.page⟩ : PageId) = r.page := by
    rw [← hhas.table]
  rw [← hpage]
  refine hfull r.page.page UInt32.zero_le ?_
  rw [UInt32.toNat_zero, Nat.zero_add]
  exact UInt32.lt_iff_toNat_lt.1 hhas.below

theorem PutsIn.firstFits (h : PutsIn capacity txn tuple file e (.ok answer) e')
    (hready : Ready capacity e) (hfile : e.catalog.file table = .ok file)
    (hslots : ∀ id file, e.catalog.file id = .ok file →
      Page.slotsPerPage file.pageSize file.schema ≤ UInt16.size) :
    ∃ record, answer.2 = tuple.withRecord (some record) ∧ record.page.table = table ∧
      e.FirstFits file record e' ∧
      e.Rewrites txn ⟨record, some (e.catalog.reread record answer.2)⟩ e' := by
  have hid := hready.registered.keyed _ _ hfile
  cases h with
  | within hsearch =>
      cases hsearch with
      | @found n _ _ _ hfull hplaces =>
          obtain ⟨record, hanswer, hpage, hfree, hleast, hrewrites, hfiles⟩ :=
            hplaces.rewrites hslots
          have htable : record.page.table = table := by
            rw [hpage]
            exact hid
          refine ⟨record, hanswer, htable, .free hfree (fun r hr hfree' => ?_) hfiles, hrewrites⟩
          have hr' : r.page = ⟨file.id, r.page.page⟩ := by
            rw [hid, ← htable, ← hr]
          rw [hpage]
          by_cases hlt : r.page.page < n
          · refine absurd hfree' (Engine.Filled.not_free ?_)
            rw [hr']
            exact hfull _ UInt32.zero_le hlt
          · by_cases heq : n = r.page.page
            · refine .inr ⟨heq, hleast r ?_ hfree'⟩
              rw [hr', heq]
            · exact .inl (UInt32.lt_of_le_of_ne (UInt32.not_lt.1 hlt) heq)
  | @behind count _ e₁ _ hcount hsearch happends =>
      cases hsearch with
      | nothing hready₁ hkeeps hmodes hfull =>
          cases happends with
          | @placed page disk _ _ happend hfew hplaces =>
              have hfile₁ : e₁.catalog.file table = .ok file := by rw [hkeeps.catalog, hfile]
              have hwhole : file.wholePages e₁.disk = file.wholePages e.disk := by
                rw [HeapFile.wholePages, hkeeps.content_eq, HeapFile.wholePages]
              have hnumber := HeapFile.page_of_appendPage happend
              obtain ⟨-, hcounted⟩ := HeapFile.size_of_pageCount hcount
              obtain ⟨record, hanswer, rfl, -, hleast, hrewrites, hfiles⟩ :=
                hplaces.rewrites (by rw [hkeeps.catalog]; exact hslots)
              have htable : record.page.table = table := by
                rw [hnumber]
                exact hid
              refine ⟨record, hanswer, htable, .behind ?_ ?_ ?_ ?_, ?_⟩
              · exact fun r hr => hready.not_free_of_full hfile hcount hfull (hr.trans htable)
              · rw [hcount, hcounted, hnumber, hwhole]
              · have hblank := hready₁.free_of_append hfile₁ happend hfew
                exact UInt16.le_zero_iff.1 (hleast ⟨record.page, 0⟩ rfl hblank)
              · exact (HeapFile.gainsPage_appendPage happend hfew).congr hkeeps.content_eq hfiles
              · rw [← hkeeps.catalog]
                refine hrewrites.before ?_ hmodes hkeeps.catalog hkeeps.log
                rw [hready₁.shown_appendPage hfile₁ happend hfew, Engine.shown_congr hkeeps.view]

end

/-! ## Inserts and deletes -/

/-- Inserts a tuple into a table, and tries it on so many pages at most that are
appended in vain. -/
def Engine.insertTrying (retries : Nat) (txn : TxnId) (table : TableId) (tuple : Tuple) :
    Action Tuple := do
  let file ← fileOf table
  let (_, tuple) ← file.insertTrying retries txn tuple
  return tuple

section

variable {capacity : Nat} {txn : TxnId} {tuple stored : Tuple} {table : TableId}
  {record? : Option RecordId} {file : HeapFile} {e e' : Engine}

theorem Engine.insertTrying_apply (hfile : e.catalog.file table = .ok file) (retries : Nat) :
    Engine.insertTrying retries txn table tuple e
      = (Prod.snd <$> file.insertTrying retries txn tuple) e := by
  rw [Engine.insertTrying, bind_apply, fileOf_apply, hfile]
  rfl

/-- However many pages an insert might append, it appends one at most. -/
theorem Ready.insertTrying_eq (h : Ready capacity e)
    (hnumbered : ((Engine.insert txn table tuple).after e).Numbered) (retries : Nat) :
    Engine.insertTrying retries txn table tuple e = Engine.insert txn table tuple e := by
  cases hfile : e.catalog.file table with
  | ok file =>
      have hfew := hnumbered.insertFile hfile
      rw [Engine.insertTrying_apply hfile, insert_apply hfile, HeapFile.insert_eq, map_apply,
        map_apply, h.insertTrying_apply hfile hfew,
        h.insertTrying_apply hfile hfew HeapFile.retryBound]
  | error cause =>
      rw [Engine.insertTrying, Engine.insert, bind_apply, bind_apply, fileOf_apply, hfile]

theorem Page.isUsed_of_delete {page changed : Page} {record : RecordId}
    (h : page.delete (some record) = .ok changed) : page.isUsed record.slot.toNat = true := by
  simp only [delete] at h
  split at h
  · cases h
  · split at h
    · cases h
    · rename_i hused
      simpa using hused

/-- What a delete on a page does: a slot that was used is free. -/
theorem Edits.delete_rewrites {record : RecordId} {changed : Page} {old new : Frame}
    (h : Edits capacity txn record.page e changed old new e')
    (hdelete : old.page.delete (some record) = .ok changed) :
    (e.shown record).isSome ∧ e.Rewrites txn ⟨record, none⟩ e' := by
  refine ⟨?_, h.rewrites rfl (Page.slot?_delete hdelete).2⟩
  rw [Engine.shown, h.view_old, Option.bind_some, Page.slot?_markClean, Page.slot?_eq_row?,
    Page.isSome_row?]
  exact Page.isUsed_of_delete hdelete

end

/-- In every state of every run over registered files, whose pages have 1 to
2¹⁶ slots each:

- An insert appends one page at most, however many it might append. The tuple
  goes into the free slot with the lowest address in its table; if there is none,
  the file grows by a page, and it goes into the first slot of that page. A file
  of whole pages keeps its bytes then, with the zeroes of one page behind them.
  The slot holds the tuple, as it is read back.
- A delete frees the slot that was asked for, and leaves the files alone.
- Either changes what is at one address, whose page is in the pool then, changed
  by the transaction and locked by it for itself; no other address changes, and
  no other lock. -/
theorem edits_touch_one_slot {capacity : Nat} {start e : Engine}
    (hreg : start.catalog.Registered) (hstart : start.pool = .empty capacity)
    (hslots : ∀ id file, start.catalog.file id = .ok file →
      1 ≤ Page.slotsPerPage file.pageSize file.schema ∧
        Page.slotsPerPage file.pageSize file.schema ≤ UInt16.size)
    (calls : List Call) (he : e = Call.afterAll calls start) (hnumbered : e.Numbered)
    (txn : TxnId) :
    (∀ table tuple, ((Engine.insert txn table tuple).after e).Numbered →
      (∀ retries, Engine.insertTrying retries txn table tuple e
        = Engine.insert txn table tuple e) ∧
      ∀ stored e', Engine.insert txn table tuple e = .ok stored e' →
        ∃ file record, e.catalog.file table = .ok file ∧
          stored = tuple.withRecord (some record) ∧ record.page.table = table ∧
          e.FirstFits file record e' ∧
          ((∀ r, r.page.table = table → ¬e.Free r) →
            file.pageSize ∣ (e.disk.content file.handle.name).length →
            e'.disk.content file.handle.name
              = e.disk.content file.handle.name ++ Bytes.zeros file.pageSize) ∧
          e.Rewrites txn ⟨record, some (e.catalog.reread record stored)⟩ e') ∧
    ∀ record? e', Engine.delete txn record? e = .ok () e' →
      ∃ record, record? = some record ∧ (e.shown record).isSome ∧
        e.Rewrites txn ⟨record, none⟩ e' ∧
        ∀ name, e'.disk.content name = e.disk.content name := by
  subst he
  have hready := Ready.afterAll hreg hstart (fun id file hfile => (hslots id file hfile).1)
    calls hnumbered
  have hslots' : ∀ id file, (Call.afterAll calls start).catalog.file id = .ok file →
      Page.slotsPerPage file.pageSize file.schema ≤ UInt16.size := by
    rw [(Call.grows_all calls start).catalog]
    exact fun id file hfile => (hslots id file hfile).2
  refine ⟨fun table tuple hafter => ⟨hready.insertTrying_eq hafter, fun stored e' hrun => ?_⟩,
    fun record? e' hrun => ?_⟩
  · obtain ⟨file, new, hfile, hputs⟩ := (hready.insert_ends hafter).of_ok hrun
    obtain ⟨record, hrecord, htable, hfits, hrewrites⟩ := hputs.firstFits hready hfile hslots'
    exact ⟨file, record, hfile, hrecord, htable, hfits,
      fun hfull => hfits.content_of_full (htable.symm ▸ hfull), hrewrites⟩
  · obtain ⟨record, old, new, changed, hrecord, hdelete, hedits⟩ :=
      (hready.delete_ends txn record?).of_ok hrun
    obtain ⟨hshown, hrewrites⟩ := hedits.delete_rewrites hdelete
    exact ⟨record, hrecord, hshown, hrewrites, hedits.content_eq⟩

/-- Two rows on the one page of a table, which is full with them. -/
def Engine.oneFullPage : Engine :=
  Call.afterAll [.insert ⟨1⟩ ⟨0⟩ (.single 7), .insert ⟨1⟩ ⟨0⟩ (.single 8)] (.twoTables 2 .none)

/-- Another row goes onto a second page, and one of the first two can be deleted. -/
theorem edits_touch_one_slot_thirdRow :
    (∃ stored e', Engine.insert ⟨1⟩ ⟨0⟩ (.single 9) oneFullPage = .ok stored e' ∧
      stored.record = some ⟨⟨⟨0⟩, 1⟩, 0⟩ ∧
      oneFullPage.FirstFits (.pairs 0 "a") ⟨⟨⟨0⟩, 1⟩, 0⟩ e' ∧
      (e'.shown ⟨⟨⟨0⟩, 1⟩, 0⟩).isSome) ∧
    ∃ e', Engine.delete ⟨1⟩ (some ⟨⟨⟨0⟩, 0⟩, 0⟩) oneFullPage = .ok () e' ∧
      e'.shown ⟨⟨⟨0⟩, 0⟩, 0⟩ = none ∧
      e'.shown ⟨⟨⟨0⟩, 0⟩, 1⟩ = oneFullPage.shown ⟨⟨⟨0⟩, 0⟩, 1⟩ := by
  have hgrows : Grows (.twoTables 2 .none) oneFullPage := Call.grows_all _ _
  have hnumbered : oneFullPage.Numbered :=
    numbered_twoTables hgrows (by decide +kernel) (by decide +kernel)
  have hafter : ((Engine.insert ⟨1⟩ ⟨0⟩ (.single 9)).after oneFullPage).Numbered :=
    numbered_twoTables (hgrows.trans (insert_grows _ _ _ _)) (by decide +kernel) (by decide +kernel)
  have hcalls : oneFullPage = Call.afterAll _ (.twoTables 2 .none) := rfl
  obtain ⟨hinsert, hdelete⟩ := edits_touch_one_slot (registered_twoTables 2 .none) rfl
    (fun id file hfile => by rw [slots_twoTables id file hfile]; decide) _ hcalls hnumbered ⟨1⟩
  constructor
  · have hanswer : ((Engine.insert ⟨1⟩ ⟨0⟩ (.single 9)).answer oneFullPage).toOption.map
        Tuple.record = some (some ⟨⟨⟨0⟩, 1⟩, 0⟩) := by decide +kernel
    rw [Action.answer] at hanswer
    cases hrun : Engine.insert ⟨1⟩ ⟨0⟩ (.single 9) oneFullPage with
    | error failure e' =>
        rw [hrun] at hanswer
        cases hanswer
    | ok stored e' =>
        rw [hrun] at hanswer
        obtain ⟨file, record, hfile, rfl, -, hfits, -, hrewrites⟩ :=
          (hinsert ⟨0⟩ (.single 9) hafter).2 _ _ hrun
        obtain rfl : record = ⟨⟨⟨0⟩, 1⟩, 0⟩ := Option.some.inj (Option.some.inj hanswer)
        rw [hgrows.catalog] at hfile
        rcases file_twoTables hfile with ⟨-, rfl⟩ | ⟨hid, -⟩
        · refine ⟨_, e', rfl, rfl, hfits, ?_⟩
          rw [hrewrites.shown, Rows.apply, if_pos rfl]
          rfl
        · cases hid
  · have hanswer : (Engine.delete ⟨1⟩ (some ⟨⟨⟨0⟩, 0⟩, 0⟩)).answer oneFullPage = .ok () := by
      decide +kernel
    rw [Action.answer] at hanswer
    cases hrun : Engine.delete ⟨1⟩ (some ⟨⟨⟨0⟩, 0⟩, 0⟩) oneFullPage with
    | error failure e' =>
        rw [hrun] at hanswer
        cases hanswer
    | ok _ e' =>
        obtain ⟨record, hrecord, -, hrewrites, -⟩ := hdelete _ _ hrun
        cases hrecord
        refine ⟨e', rfl, ?_, ?_⟩
        · rw [hrewrites.shown, Rows.apply, if_pos rfl]
        · rw [hrewrites.shown, Rows.apply, if_neg (by decide)]

end HeapStore
