import HeapStore.Proofs.Searching

/-!
# Edits that fail

An insert or delete that fails has changed no data: it fails before it comes to
change a page (`Engine.Unedited`). What may stay behind is one lock, and of an
insert an empty page at the end of the file.

The changed page that an edit hands back is still in the pool, used last. To
take it into the pool once more (`Engine.adopt`) neither changes anything that
shows nor can it fail; so an edit with this step at its end fails when the edit
fails, and not otherwise.

Headline: `failed_edit_changes_no_data`.
-/

namespace HeapStore

open HeapStore.Action Engine

/-! ## No data is changed -/

/-- The pages that there were look as before, changed pages stay as they are
with the bytes before the changes, nothing is logged, and no lock is lost. -/
structure Engine.Unedited (txn : TxnId) (e e' : Engine) : Prop where
  view : ∀ p x, e.view? p = some x → e'.view? p = some x
  dirty : ∀ p frame, frame.page.dirtier ≠ none →
    (e'.pool.cache.peek p = some frame ↔ e.pool.cache.peek p = some frame)
  log : e'.log = e.log
  /-- One lock of the transaction may have been granted or become stronger. -/
  locks : ∃ page, e.pool.locks.Gains txn page e'.pool.locks

section

variable {capacity : Nat} {txn : TxnId} {tuple : Tuple} {table : TableId} {file : HeapFile}
  {page : PageId} {changed : Page} {old new : Frame} {failure : Failure} {e e₁ e' : Engine}

theorem BreaksOff.unedited (h : BreaksOff txn e e') : e.Unedited txn e' :=
  ⟨fun p x hview => by rw [h.keeps.view, hview], h.keeps.dirty, h.keeps.log, h.gains⟩

/-- An insert that fails may have appended a page, but has placed no tuple. -/
theorem PutsIn.unedited (h : PutsIn capacity txn tuple file e (.error failure) e')
    (hfile : e.catalog.file table = .ok file) : e.Unedited txn e' ∧
      ((∀ name, e'.disk.content name = e.disk.content name) ∨
        file.GainsPage e.disk e'.disk) := by
  cases h with
  | broken hbreaks => exact ⟨hbreaks.unedited, .inl hbreaks.keeps.content_eq⟩
  | @behind _ _ e₁ _ _ hsearch happends =>
      cases hsearch with
      | nothing hready₁ hkeeps hmodes _ =>
          have hfile₁ : e₁.catalog.file table = .ok file := by rw [hkeeps.catalog, hfile]
          cases happends with
          | @unread page disk _ _ happend hfew _ hbreaks =>
              obtain ⟨-, hnone, hview⟩ := hready₁.appendPage hfile₁ happend hfew
              obtain ⟨p, hgains⟩ := hbreaks.gains
              refine ⟨⟨fun p x hx => ?_, fun p frame hdirty => ?_, ?_, p, hgains.congr hmodes⟩,
                .inr ?_⟩
              · rw [hbreaks.keeps.view, hview, if_neg, hkeeps.view, hx]
                rintro rfl
                rw [hkeeps.view, hx] at hnone
                cases hnone
              · exact (hbreaks.keeps.dirty p frame hdirty).trans (hkeeps.dirty p frame hdirty)
              · exact hbreaks.keeps.log.trans hkeeps.log
              · exact (HeapFile.gainsPage_appendPage happend hfew).congr hkeeps.content_eq
                  hbreaks.keeps.content_eq
          | unwritten =>
              have hbreaks : BreaksOff txn e e' := (BreaksOff.refl txn e').before hkeeps hmodes
              exact ⟨hbreaks.unedited, .inl hbreaks.keeps.content_eq⟩

end

/-! ## Pages that are handed back -/

/-- Takes a page into the pool that an edit handed back, marked as changed once
more, unless it is there. -/
def Engine.adopt (txn : TxnId) (frame : Frame) : Action Unit := do
  let marked := frame.page.markDirty txn
  match ← touch marked.id with
  | some resident =>
    if resident.copy = frame.copy then updatePool (·.store marked)
  | none =>
    makeRoom
    updatePool fun pool =>
      { pool with cache := pool.cache.put marked.id { frame with page := marked } }

/-- An insert that takes the page into the pool which it is handed back. -/
def Engine.insertAdopting (txn : TxnId) (table : TableId) (tuple : Tuple) : Action Tuple := do
  let file ← fileOf table
  let (frame, tuple) ← file.insert txn tuple
  adopt txn frame
  return tuple

/-- A delete that takes the page into the pool which it is handed back. -/
def Engine.deleteAdopting (txn : TxnId) (record : Option RecordId) : Action Unit := do
  match record with
  | none => Action.refuse .invalidRecordId
  | some record =>
    let file ← fileOf record.page.table
    let frame ← file.delete txn (some record)
    adopt txn frame

/-- Nothing has changed but the clock of the pool. -/
structure Engine.Seems (e e' : Engine) : Prop where
  disk : e'.disk = e.disk
  catalog : e'.catalog = e.catalog
  log : e'.log = e.log
  capacity : e'.pool.capacity = e.pool.capacity
  pages : e'.pool.cache.toList = e.pool.cache.toList
  locks : e'.pool.locks = e.pool.locks
  copies : e'.pool.copies = e.pool.copies

section

variable {capacity : Nat} {txn : TxnId} {tuple : Tuple} {table : TableId}
  {record? : Option RecordId} {page : PageId} {changed : Page} {old new frame : Frame}
  {failure : Failure} {pool : Pool} {e e' : Engine}

/-- A page that was used last and is used again. -/
theorem Pool.Latest.toList_put (h : pool.Latest page frame) :
    (pool.cache.put page frame).toList = pool.cache.toList := by
  obtain ⟨others, hlist, hothers⟩ := h
  rw [Recency.toList_put, hlist, List.filter_append, List.filter_eq_self.2]
  · simp
  · exact fun pair hmem => decide_eq_true (hothers pair hmem)

/-- A changed page is in the pool, so that it need not be taken into it. -/
theorem Edits.adopt_ends (h : Edits capacity txn page e changed old new e') :
    (adopt txn new).Ends e' (fun _ => e'.Seems) (fun _ _ => False) := by
  have hmarked : new.page.markDirty txn = new.page := by
    rw [h.new_eq]
    rfl
  have hid : new.page.id = page := by
    rw [h.new_eq]
    exact h.id_eq
  simp only [adopt, ends_bind, ends_touch, hmarked, hid, h.latest.peek, if_true, ends_updatePool]
  refine ⟨rfl, rfl, rfl, rfl, ?_, rfl, rfl⟩
  have hused := h.latest.toList_put
  obtain ⟨others, hlist, hothers⟩ := h.latest
  rw [← hid] at hlist hothers hused ⊢
  exact (toList_store_last (hused.trans hlist) hothers).trans hlist.symm

theorem PutsIn.adopt_ends {file : HeapFile} {answer : Frame × Tuple}
    (h : PutsIn capacity txn tuple file e (.ok answer) e') :
    (adopt txn answer.1).Ends e' (fun _ => e'.Seems) (fun _ _ => False) := by
  have hplaced : ∃ page e₁, Places capacity txn tuple page e₁ answer e' := by
    cases h with
    | within hsearch =>
        cases hsearch with
        | found _ _ hplaces => exact ⟨_, _, hplaces⟩
    | behind _ _ happends =>
        cases happends with
        | placed _ _ hplaces => exact ⟨_, _, hplaces⟩
  obtain ⟨page, e₁, hplaces⟩ := hplaced
  cases hplaces with
  | mk _ hedits => exact hedits.adopt_ends

/-- Both actions end in the same way: with the same failure, or with the same
answer and engines that differ in the clocks of their pools alone. -/
def Action.SeemsLike {α : Type} (action' action : Action α) (e : Engine) : Prop :=
  action'.Ends e (fun answer e' => ∃ e₁, action e = .ok answer e₁ ∧ e₁.Seems e')
    (fun failure e' => action e = .error failure e')

theorem Action.ends_apply {α : Type} (action : Action α) (e : Engine) :
    action.Ends e (fun answer e' => action e = .ok answer e')
      (fun failure e' => action e = .error failure e') := by
  unfold Ends
  cases action e <;> rfl

theorem Ready.insertAdopting_seems (h : Ready capacity e)
    (hnumbered : ((Engine.insert txn table tuple).after e).Numbered) :
    (insertAdopting txn table tuple).SeemsLike (Engine.insert txn table tuple) e := by
  rw [Action.SeemsLike, insertAdopting, ends_bind, ends_fileOf]
  split
  · rename_i file hfile
    have hends := h.insertFile_ends hfile (hnumbered.insertFile hfile)
    simp only [insert_apply hfile, map_apply, ends_bind]
    refine (ends_apply (file.insert txn tuple) e).mono ?_ ?_
    · intro answer e₁ hrun
      refine (hends.of_ok hrun).adopt_ends.mono ?_ fun _ _ hfalse => hfalse.elim
      intro _ e' hseems
      exact ⟨e₁, by rw [hrun], hseems⟩
    · intro failure e₁ hrun
      rw [hrun]
  · rename_i cause hfile
    rw [Engine.insert, bind_apply, fileOf_apply, hfile]

theorem Ready.deleteAdopting_seems (h : Ready capacity e) (txn : TxnId)
    (record? : Option RecordId) :
    (deleteAdopting txn record?).SeemsLike (Engine.delete txn record?) e := by
  cases record? with
  | none => exact rfl
  | some record =>
      simp only [Action.SeemsLike, Engine.delete, deleteAdopting, ends_bind, ends_fileOf, bind_apply,
        fileOf_apply]
      cases e.catalog.file record.page.table with
      | error cause => rfl
      | ok file =>
          have hends := h.deleteFile_ends file txn record
          refine (ends_apply (file.delete txn (some record)) e).mono ?_ ?_
          · intro new e₁ hrun
            obtain ⟨old, changed, -, hedits⟩ := hends.of_ok hrun
            refine hedits.adopt_ends.mono ?_ fun _ _ hfalse => hfalse.elim
            intro _ e' hseems
            refine ⟨e₁, ?_, hseems⟩
            simp only [hrun]
            rfl
          · intro failure e₁ hrun
            simp only [hrun]

end

/-- The tuple that a client has in hand after an insert: it is given its address
as soon as it is on a page. -/
def Engine.inHand (txn : TxnId) (table : TableId) (tuple : Tuple) (e : Engine) : Tuple :=
  match Engine.insert txn table tuple e with
  | .ok stored _ => stored
  | .error _ _ => tuple

/-- In every state of every run over registered files, whose pages have a slot
each:

- An insert or delete that fails, however it fails, leaves the pages as they look
  and the changed ones as they are, the log, and the locks but for one of the
  transaction, which is not lost. The files stay, but for a page of zeroes that an
  insert may have appended: to a file of whole pages behind all of its bytes.
- If the page that is handed back is taken into the pool at the end, this does not
  fail and changes nothing that shows. So an insert with this step fails in the
  same cases, and the tuple in the client's hand is then what it was before. -/
theorem failed_edit_changes_no_data {capacity : Nat} {start e : Engine}
    (hreg : start.catalog.Registered) (hstart : start.pool = .empty capacity)
    (hroomy : ∀ id file, start.catalog.file id = .ok file →
      1 ≤ Page.slotsPerPage file.pageSize file.schema)
    (calls : List Call) (he : e = Call.afterAll calls start) (hnumbered : e.Numbered)
    (txn : TxnId) :
    (∀ table tuple, ((Engine.insert txn table tuple).after e).Numbered →
      (∀ failure e', Engine.insert txn table tuple e = .error failure e' →
        e.Unedited txn e' ∧
        ((∀ name, e'.disk.content name = e.disk.content name) ∨
          ∃ file, e.catalog.file table = .ok file ∧ file.GainsPage e.disk e'.disk ∧
            (file.pageSize ∣ (e.disk.content file.handle.name).length →
              e'.disk.content file.handle.name
                = e.disk.content file.handle.name ++ Bytes.zeros file.pageSize))) ∧
      (insertAdopting txn table tuple).SeemsLike (Engine.insert txn table tuple) e ∧
      ∀ failure e', insertAdopting txn table tuple e = .error failure e' →
        inHand txn table tuple e = tuple) ∧
    ∀ record?,
      (∀ failure e', Engine.delete txn record? e = .error failure e' →
        e.Unedited txn e' ∧ ∀ name, e'.disk.content name = e.disk.content name) ∧
      (deleteAdopting txn record?).SeemsLike (Engine.delete txn record?) e := by
  subst he
  have hready := Ready.afterAll hreg hstart hroomy calls hnumbered
  refine ⟨fun table tuple hafter => ⟨fun failure e' hrun => ?_,
    hready.insertAdopting_seems hafter, fun failure e' hrun => ?_⟩,
    fun record? => ⟨fun failure e' hrun => ?_, hready.deleteAdopting_seems txn record?⟩⟩
  · rcases (hready.insert_ends hafter).of_error hrun with rfl | ⟨file, hfile, hputs⟩
    · exact ⟨(BreaksOff.refl txn _).unedited, .inl fun _ => rfl⟩
    · obtain ⟨hunedited, hfiles⟩ := hputs.unedited hfile
      exact ⟨hunedited, hfiles.imp_right fun hgains =>
        ⟨file, hfile, hgains, hgains.content_of_dvd⟩⟩
  · have hfailed := (hready.insertAdopting_seems hafter).of_error hrun
    rw [inHand, hfailed]
  · have hbreaks := (hready.delete_ends txn record?).of_error hrun
    exact ⟨hbreaks.unedited, hbreaks.keeps.content_eq⟩

/-- The only page that has room in the pool is full with two rows. -/
def Engine.noRoomLeft : Engine :=
  Call.afterAll [.insert ⟨1⟩ ⟨0⟩ (.single 7), .insert ⟨1⟩ ⟨0⟩ (.single 8)] (.twoTables 1 .none)

/-- A third row has a page in the file, but none in the pool. -/
theorem failed_edit_changes_no_data_noRoomLeft :
    ∃ e', Engine.insert ⟨1⟩ ⟨0⟩ (.single 9) noRoomLeft = .error (.error .bufferPoolFull) e' ∧
      noRoomLeft.Unedited ⟨1⟩ e' ∧
      (HeapFile.pairs 0 "a").GainsPage noRoomLeft.disk e'.disk ∧
      e'.disk.content "a" = noRoomLeft.disk.content "a" ++ Bytes.zeros 9 := by
  have hgrows : Grows (.twoTables 1 .none) noRoomLeft := Call.grows_all _ _
  have hnumbered : noRoomLeft.Numbered :=
    numbered_twoTables hgrows (by decide +kernel) (by decide +kernel)
  have hafter : ((Engine.insert ⟨1⟩ ⟨0⟩ (.single 9)).after noRoomLeft).Numbered :=
    numbered_twoTables (hgrows.trans (insert_grows _ _ _ _)) (by decide +kernel) (by decide +kernel)
  have hcalls : noRoomLeft = Call.afterAll _ (.twoTables 1 .none) := rfl
  obtain ⟨hinsert, -⟩ := failed_edit_changes_no_data (registered_twoTables 1 .none) rfl
    (fun id file hfile => by rw [slots_twoTables id file hfile]; decide) _ hcalls hnumbered ⟨1⟩
  have hfailure : (match Engine.insert ⟨1⟩ ⟨0⟩ (.single 9) noRoomLeft with
      | .ok _ _ => none
      | .error failure e' => some (failure, (HeapFile.pairs 0 "a").wholePages e'.disk))
        = some (.error .bufferPoolFull, 2) := by decide +kernel
  have hpages : (HeapFile.pairs 0 "a").wholePages noRoomLeft.disk = 1 := by decide +kernel
  cases hrun : Engine.insert ⟨1⟩ ⟨0⟩ (.single 9) noRoomLeft with
  | ok stored e' =>
      rw [hrun] at hfailure
      cases hfailure
  | error failure e' =>
      rw [hrun] at hfailure
      obtain ⟨rfl, hgrown⟩ := Prod.mk.inj (Option.some.inj hfailure)
      obtain ⟨hunedited, hsame | ⟨file, hfile, hgains, hzeros⟩⟩ :=
        (hinsert ⟨0⟩ (.single 9) hafter).1 _ _ hrun
      · rw [HeapFile.wholePages, hsame, ← HeapFile.wholePages, hpages] at hgrown
        cases hgrown
      · rw [hgrows.catalog] at hfile
        rcases file_twoTables hfile with ⟨-, rfl⟩ | ⟨hid, -⟩
        · exact ⟨e', rfl, hunedited, hgains, hzeros (by decide +kernel)⟩
        · cases hid

end HeapStore
