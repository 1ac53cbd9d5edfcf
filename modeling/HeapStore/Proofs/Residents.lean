import HeapStore.Proofs.Endings
import HeapStore.Proofs.Simulation

/-!
# Resident pages and their files

A page in the pool should have the size and the types of the file that the
catalog has for its table (`Pool.Suits`). A page that is read from its file does,
and what calls do to a page changes neither (`Move.origin`). So under one catalog
pages that fit go on to fit.

Writing back needs this: a file takes a page of its own page size only, and ends
the call for good if it is handed another one (`Failure.isMisfit`). Nothing else
that a call does can end so (`Call.sized`).
-/

namespace HeapStore

open HeapStore.Action Engine

/-! ## Pages that fit -/

/-- A page has the size and the types of a file's pages. -/
structure Page.Suits (page : Page) (file : HeapFile) : Prop where
  length : page.data.length = file.pageSize
  types : page.schema.types = file.schema.types

/-- Pages are found under their names. -/
def Pool.Keyed (pool : Pool) : Prop :=
  ∀ page frame, pool.cache.peek page = some frame → frame.page.id = page

/-- Resident pages of registered tables fit. -/
def Pool.Suits (pool : Pool) (catalog : Catalog) : Prop :=
  ∀ page frame file, pool.cache.peek page = some frame → catalog.file page.table = .ok file →
    frame.page.Suits file

/-- Where a page that is resident under a name comes from: it was there before,
with other bytes perhaps, or was read from the file of its table. -/
inductive Engine.Origin (e : Engine) (page : PageId) (x : Page) : Prop where
  | kept {old : Frame} (hpeek : e.pool.cache.peek page = some old) (hid : x.id = old.page.id)
      (hschema : x.schema = old.page.schema)
      (hlength : x.data.length = old.page.data.length)
  | loaded {file : HeapFile} (hfile : e.catalog.file page.table = .ok file)
      (hhas : file.Has e.disk page) (hid : x.id = page) (hsuits : x.Suits file)

section

variable {e e₁ e' : Engine} {txn : TxnId} {page p : PageId} {frame : Frame} {file : HeapFile}

theorem Page.suits_of_readPage {disk disk' : Disk} {loaded : Page}
    (h : file.readPage disk p = .ok (loaded, disk')) : loaded.id = p ∧ loaded.Suits file := by
  have hhas := HeapFile.has_of_readPage h
  rw [HeapFile.readPage_eq hhas] at h
  cases h
  exact ⟨rfl, hhas.length_pageBytes, rfl⟩

theorem Engine.Origin.same (h : e.pool.cache.peek page = some frame) :
    e.Origin page frame.page := .kept h rfl rfl rfl

theorem Pool.peek_of_discard {pool : Pool}
    (h : (pool.discard p).cache.peek page = some frame) : pool.cache.peek page = some frame := by
  rw [Pool.discard, Recency.peek_remove] at h
  split at h
  · cases h
  · exact h

theorem MakesRoom.peek_of_peek (hroom : MakesRoom e e₁)
    (h : e₁.pool.cache.peek page = some frame) : e.pool.cache.peek page = some frame := by
  cases hroom with
  | spare _ => exact h
  | evict _ _ => exact Pool.peek_of_discard h

theorem origin_install {loaded : Page} {disk : Disk}
    (hkept : ∀ page frame, e₁.pool.cache.peek page = some frame →
      e.pool.cache.peek page = some frame)
    (hfile : e.catalog.file p.table = .ok file) (hread : file.readPage e.disk p = .ok (loaded, disk))
    (hpeek : (e₁.pool.install loaded).2.cache.peek page = some frame) :
    e.Origin page frame.page := by
  obtain ⟨hid, hsuits⟩ := Page.suits_of_readPage hread
  rw [Pool.install, Recency.peek_put, hid] at hpeek
  split at hpeek
  · rename_i hp
    subst hp
    cases hpeek
    exact .loaded hfile (HeapFile.has_of_readPage hread) hid hsuits
  · exact .same (hkept _ _ hpeek)

theorem Fetches.origin {mode : LockMode} {fetched : Frame}
    (hfetch : Fetches txn p mode e fetched e')
    (hpeek : e'.pool.cache.peek page = some frame) : e.Origin page frame.page := by
  cases hfetch with
  | hit _ hhit =>
      rw [peek_use hhit] at hpeek
      exact .same hpeek
  | miss _ _ hfile hroom hread =>
      exact origin_install (fun _ _ h => hroom.peek_of_peek h) hfile (hroom.disk_eq ▸ hread) hpeek

theorem Quiet.origin (hmove : Quiet txn e e') (hpeek : e'.pool.cache.peek page = some frame) :
    e.Origin page frame.page := by
  cases hmove with
  | lock _ => exact .same hpeek
  | use _ hhit =>
      rw [peek_use hhit] at hpeek
      exact .same hpeek
  | drop _ _ => exact .same (Pool.peek_of_discard hpeek)
  | load _ hfile hroom hread =>
      exact origin_install (fun _ _ h => hroom.peek_of_peek h) hfile (hroom.disk_eq ▸ hread) hpeek
  | append _ _ => exact .same hpeek
  | giveBack _ hfetch => exact hfetch.origin hpeek

theorem origin_store {changing : Frame} (x : Page) (hkeyed : e.pool.Keyed)
    (hresident : e.pool.cache.peek p = some changing) (hid : x.id = changing.page.id)
    (hschema : x.schema = changing.page.schema)
    (hlength : x.data.length = changing.page.data.length)
    (hpeek : (e.pool.store x).cache.peek page = some frame) : e.Origin page frame.page := by
  rw [Pool.store, Recency.peek_modify, hid, hkeyed p changing hresident] at hpeek
  split at hpeek
  · rename_i hp
    subst hp
    rw [hresident] at hpeek
    cases hpeek
    exact .kept hresident hid hschema hlength
  · exact .same hpeek

/-- Every resident page was there before a move, or was read in the course of
it. -/
theorem Move.origin (hkeyed : e.pool.Keyed) (hmove : Move e e')
    (hpeek : e'.pool.cache.peek page = some frame) : e.Origin page frame.page := by
  cases hmove with
  | quiet hmove => exact hmove.origin hpeek
  | change hresident _ hchanged =>
      refine origin_store (Page.markDirty _ _) hkeyed hresident hchanged.id_eq ?_
        hchanged.length_data hpeek
      obtain ⟨data, -, rfl⟩ := hchanged.capture_eq
      rfl
  | log => exact .same hpeek
  | writeBack hwrites =>
      cases hwrites with
      | clean _ => exact .same hpeek
      | dirty hresident _ _ _ _ =>
          exact origin_store (Page.markClean _) hkeyed hresident rfl rfl rfl hpeek
  | restore _ hrestores =>
      cases hrestores with
      | mk hfile hread => exact origin_install (fun _ _ h => h) hfile hread hpeek
  | letGo =>
      rw [Tracks.cache_letGo] at hpeek
      exact .same hpeek
  | discard => exact .same (Pool.peek_of_discard hpeek)

theorem Move.keyed (hkeyed : e.pool.Keyed) (hmove : Move e e') : e'.pool.Keyed := by
  intro page frame hpeek
  cases hmove.origin hkeyed hpeek with
  | kept hold hid _ _ => rw [hid, hkeyed page _ hold]
  | loaded _ _ hid _ => exact hid

theorem Move.suits (hkeyed : e.pool.Keyed) (hsuits : e.pool.Suits e.catalog) (hmove : Move e e') :
    e'.pool.Suits e.catalog := by
  intro page frame file hpeek hfile
  cases hmove.origin hkeyed hpeek with
  | kept hold hid hschema hlength =>
      obtain ⟨hold_length, hold_types⟩ := hsuits page _ file hold hfile
      exact ⟨by rw [hlength, hold_length], by rw [hschema, hold_types]⟩
  | loaded hfile' _ _ hfresh =>
      obtain rfl := Except.ok.inj (hfile'.symm.trans hfile)
      exact hfresh

theorem MovePath.keyed (hkeyed : e.pool.Keyed) (hpath : MovePath e e') : e'.pool.Keyed := by
  induction hpath with
  | refl => exact hkeyed
  | tail _ hmove ih => exact hmove.keyed ih

theorem MovePath.suits (hkeyed : e.pool.Keyed) (hsuits : e.pool.Suits e.catalog)
    (hpath : MovePath e e') : e'.pool.Suits e.catalog := by
  induction hpath with
  | refl => exact hsuits
  | tail hpath hmove ih =>
      have hcatalog := (MovePath.grows hpath).catalog
      rw [← hcatalog] at ih ⊢
      exact hmove.suits (MovePath.keyed hkeyed hpath) ih

theorem Call.keyed (hkeyed : e.pool.Keyed) (call : Call) : (call.after e).pool.Keyed := by
  rcases call.release_or_movePath e with ⟨txn, page, rfl⟩ | hpath
  · exact hkeyed
  · exact MovePath.keyed hkeyed hpath

/-- Pages that fit go on to fit. -/
theorem Call.suits (hkeyed : e.pool.Keyed) (hsuits : e.pool.Suits e.catalog) (call : Call) :
    (call.after e).pool.Suits e.catalog := by
  rcases call.release_or_movePath e with ⟨txn, page, rfl⟩ | hpath
  · exact hsuits
  · exact MovePath.suits hkeyed hsuits hpath

end

/-! ## Pages of the right size -/

/-- The end of a call that has handed a page of another size to a file. -/
def Failure.isMisfit : Failure → Bool
  | .violation (.bufferSize _ _) => true
  | _ => false

/-- An action that does not end so. -/
def Action.Sized {α : Type} (action : Action α) (e : Engine) : Prop :=
  action.Ends e (fun _ _ => True) fun failure _ => failure.isMisfit = false

namespace Action.Sized

variable {α β : Type} {action : Action α} {next : α → Action β} {e : Engine}

theorem pure (answer : α) (e : Engine) : (Pure.pure answer : Action α).Sized e := trivial

theorem bind (h : action.Sized e)
    (hnext : ∀ answer e', action e = .ok answer e' → (next answer).Sized e') :
    (action >>= next).Sized e := by
  rw [Sized, ends_bind]
  unfold Sized Ends at h
  unfold Ends
  split
  · rename_i answer e' hrun
    exact hnext answer e' hrun
  · rename_i failure e' hrun
    rw [hrun] at h
    exact h

theorem map (h : action.Sized e) (f : α → β) : (f <$> action).Sized e :=
  ends_map.2 (h.mono (fun _ _ _ => trivial) fun _ _ hfail => hfail)

theorem attempt (h : action.Sized e) : (Action.attempt action).Sized e := by
  rw [Sized, ends_attempt]
  refine h.mono (fun _ _ _ => trivial) ?_
  rintro (cause | cause) _ hfail
  · trivial
  · exact hfail

theorem ofExcept (answer : Except Error α) (e : Engine) : (Action.ofExcept answer).Sized e := by
  rw [Sized, ends_ofExcept]
  split
  · trivial
  · rfl

/-- What keeps an invariant may be done to one item after the other. -/
theorem forM {ι : Type} {f : ι → Action Unit} {I : Engine → Prop}
    (h : ∀ item e, I e → (f item).Sized e ∧ I ((f item).after e)) (items : List ι) (he : I e) :
    (items.forM f).Sized e := by
  refine (ends_forM_of_invariant (S := fun _ _ _ => True)
    (F := fun _ failure _ _ => failure.isMisfit = false) (I := I) ?_ items he).mono
    (fun _ _ _ => trivial) ?_
  · intro item e he
    obtain ⟨hsized, hafter⟩ := h item e he
    unfold Sized Ends at hsized
    unfold Action.after at hafter
    unfold Ends
    split <;> simp_all
  · rintro failure _ ⟨_, _, _, _, -, -, -, hfail⟩
    exact hfail

end Action.Sized

section

variable {e : Engine} {file : HeapFile} {page : PageId} {txn : TxnId}

theorem HeapFile.isMisfit_pageCount {disk : Disk} {failure : Failure}
    (h : file.pageCount disk = .error failure) : failure.isMisfit = false := by
  rw [HeapFile.pageCount, Disk.pageCount] at h
  split at h
  · cases h
    rfl
  · cases h

theorem Disk.isMisfit_missing (handle : FileHandle) (number : UInt32) :
    (missing handle number).isMisfit = false := by
  unfold missing
  dsimp only
  split
  · rfl
  split
  · rfl
  split <;> rfl

theorem HeapFile.isMisfit_readPage {disk : Disk} {failure : Failure}
    (h : file.readPage disk page = .error failure) : failure.isMisfit = false := by
  unfold HeapFile.readPage at h
  split at h
  · cases h
    rfl
  cases hcount : file.pageCount disk with
  | error cause =>
      simp only [hcount, bind, Except.bind] at h
      cases h
      exact isMisfit_pageCount hcount
  | ok count =>
      simp only [hcount, bind, Except.bind, Disk.readPage, pageSize, ne_eq, not_true_eq_false,
        if_false] at h
      split at h
      · cases h
        rfl
      split at h
      · rename_i hread
        split at hread
        · cases hread
          cases h
          exact Disk.isMisfit_missing _ _
        · cases hread
      · cases h

theorem HeapFile.isMisfit_appendPage {disk : Disk} {failure : Failure}
    (h : file.appendPage disk = .error failure) : failure.isMisfit = false := by
  cases hcount : file.pageCount disk with
  | error cause =>
      simp only [appendPage, hcount, bind, Except.bind] at h
      cases h
      exact isMisfit_pageCount hcount
  | ok count =>
      simp only [appendPage, hcount, bind, Except.bind, emptyPage] at h
      split at h
      · rename_i hlarge
        split at hlarge
        · cases hlarge
          cases h
          rfl
        · cases hlarge
      · rename_i blank hblank
        split at hblank
        · cases hblank
        · cases hblank
          obtain ⟨disk', hwrite⟩ : ∃ disk', file.writePage disk
              (.ofBytes ⟨file.id, count⟩ file.schema (Bytes.zeros file.pageSize)) = .ok disk' :=
            exists_writePage (Bytes.length_zeros _) disk
          rw [hwrite] at h
          cases h

/-! ## What cannot misfit -/

theorem fileOf_sized (table : TableId) (e : Engine) : (fileOf table).Sized e := by
  rw [Sized, ends_fileOf]
  split
  · trivial
  · rfl

theorem pageCount_sized (file : HeapFile) (e : Engine) : (pageCount file).Sized e := by
  rw [Sized, ends_pageCount]
  split
  · trivial
  · rename_i h
    exact HeapFile.isMisfit_pageCount h

theorem readPage_sized (file : HeapFile) (page : PageId) (e : Engine) :
    (readPage file page).Sized e := by
  rw [Sized, ends_readPage]
  split
  · trivial
  · rename_i h
    exact HeapFile.isMisfit_readPage h

theorem appendPage_sized (file : HeapFile) (e : Engine) : (appendPage file).Sized e := by
  rw [Sized, ends_appendPage]
  split
  · trivial
  · rename_i h
    exact HeapFile.isMisfit_appendPage h

theorem evict_sized (latched : Frame → Bool) (e : Engine) : (evict latched).Sized e := by
  rw [Sized, ends_evict]
  split
  · trivial
  · rfl

theorem getPage_sized (txn : TxnId) (page : PageId) (access : Access) (e : Engine) :
    (getPage txn page access).Sized e := by
  have hlock : (lock txn page access.lockMode).Sized e := by
    rw [Sized, ends_lock]
    split
    · trivial
    · rfl
  have hroom : ∀ e, makeRoom.Sized e := fun e => by
    rw [Sized, ends_makeRoom]
    split
    · exact evict_sized _ e
    · trivial
  have htouch : ∀ e, (touch page).Sized e := fun e => by
    rw [Sized, ends_touch]
    split <;> trivial
  refine hlock.bind fun _ e₁ _ => (htouch e₁).bind fun resident e₂ _ => ?_
  split
  · trivial
  · refine (fileOf_sized page.table e₂).bind fun file e₃ _ => (hroom e₃).bind fun _ e₄ _ => ?_
    exact (readPage_sized file page e₄).bind fun _ _ _ => trivial

theorem insertInto_sized (frame : Frame) (txn : TxnId) (tuple : Tuple) (e : Engine) :
    (HeapFile.insertInto frame txn tuple).Sized e :=
  (Sized.ofExcept _ e).bind fun _ _ _ => trivial

theorem insertWithin_sized (file : HeapFile) (txn : TxnId) (tuple : Tuple) (count : Nat)
    (next : UInt32) (e : Engine) : (file.insertWithin txn tuple count next).Sized e := by
  induction count generalizing next e with
  | zero => trivial
  | succ count ih =>
      refine (show (holds txn ⟨file.id, next⟩).Sized e from trivial).bind fun held e₁ _ => ?_
      refine (getPage_sized txn _ .read e₁).bind fun frame e₂ _ => ?_
      split
      · refine (getPage_sized txn _ .write e₂).bind fun frame e₃ _ => ?_
        exact (insertInto_sized frame txn tuple e₃).bind fun _ _ _ => trivial
      · split
        · exact (show (release txn _).Sized e₂ from trivial).bind fun _ e₃ _ => ih (next + 1) e₃
        · exact ih (next + 1) e₂

theorem insertAppended_sized (file : HeapFile) (txn : TxnId) (tuple : Tuple) (e : Engine) :
    (file.insertAppended txn tuple).Sized e := by
  refine (appendPage_sized file e).bind fun page e₁ _ => ?_
  refine (getPage_sized txn page .write e₁).bind fun frame e₂ _ => ?_
  exact insertInto_sized frame txn tuple e₂

theorem insertBehind_sized (file : HeapFile) (txn : TxnId) (tuple : Tuple) (retries : Nat)
    (e : Engine) : (file.insertBehind txn tuple retries).Sized e := by
  induction retries generalizing e with
  | zero => exact insertAppended_sized file txn tuple e
  | succ retries ih =>
      refine (insertAppended_sized file txn tuple e).attempt.bind fun answer e₁ _ => ?_
      split
      · trivial
      · exact ih e₁
      · rfl

theorem insert_sized (txn : TxnId) (table : TableId) (tuple : Tuple) (e : Engine) :
    (Engine.insert txn table tuple).Sized e := by
  refine (fileOf_sized table e).bind fun file e₁ _ => Sized.bind ?_ fun _ _ _ => trivial
  unfold HeapFile.insert
  split
  · rfl
  refine (pageCount_sized file e₁).bind fun count e₂ _ => ?_
  refine (insertWithin_sized file txn tuple count.toNat 0 e₂).bind fun found e₃ _ => ?_
  split
  · trivial
  · exact insertBehind_sized file txn tuple _ e₃

theorem delete_sized (txn : TxnId) (record : Option RecordId) (e : Engine) :
    (Engine.delete txn record).Sized e := by
  cases record with
  | none => rfl
  | some record =>
      refine (fileOf_sized record.page.table e).bind fun file e₁ _ =>
        Sized.bind ?_ fun _ _ _ => trivial
      simp only [HeapFile.delete]
      split
      · rfl
      refine (getPage_sized txn record.page .write e₁).bind fun frame e₂ _ => ?_
      exact (Sized.ofExcept _ e₂).bind fun _ _ _ => trivial

theorem takePages_sized (stop : Item → Bool) (file : HeapFile) (txn : TxnId) (count : Nat)
    (next : UInt32) (e : Engine) : (Scan.takePages stop file txn count next).Sized e := by
  induction count generalizing next e with
  | zero => trivial
  | succ count ih =>
      refine (getPage_sized txn ⟨file.id, next⟩ .read e).attempt.bind fun answer e₁ _ => ?_
      rcases answer with cause | frame
      all_goals
        refine (Sized.pure _ e₁).bind fun cuts e₂ _ => ?_
        obtain ⟨items, _ | rest⟩ := cuts
        · exact (ih (next + 1) e₂).bind fun _ _ _ => trivial
        · trivial

theorem scan_sized (stop : Item → Bool) (scan : Scan) (e : Engine) :
    (scan.takeUntil stop).Sized e := by
  unfold Scan.takeUntil
  split
  · trivial
  · refine (pageCount_sized scan.file e).bind fun count e₁ _ => ?_
    exact (takePages_sized stop scan.file scan.txn _ _ e₁).bind fun _ _ _ => trivial

theorem restorePages_sized (txn : TxnId) (e : Engine) : (restorePages txn).Sized e := by
  have hrestore : ∀ page e, (restorePage page).Sized e := fun page e =>
    (fileOf_sized page.table e).bind fun file e₁ _ =>
      (readPage_sized file page e₁).bind fun _ _ _ => trivial
  refine (show (get : Action Engine).Sized e from trivial).bind fun engine e₁ _ => ?_
  exact Sized.forM (I := fun _ => True) (fun page e _ => ⟨hrestore page e, trivial⟩) _ trivial

/-! ## Writing back -/

/-- A page that fits its file can be written to it. -/
theorem writeBack_sized (hkeyed : e.pool.Keyed) (hsuits : e.pool.Suits e.catalog)
    (page : PageId) : (writeBack page).Sized e := by
  simp only [writeBack, Sized, ends_bind, ends_get]
  split
  · trivial
  rename_i x copy hpeek
  split
  · trivial
  rename_i writer hdirty
  have hid : x.id = page := hkeyed page _ hpeek
  simp only [ends_bind, ends_fileOf, ends_writeLog, ends_forceLog, ends_writePage, hid]
  split
  case h_2 => rfl
  rename_i file hfile
  obtain ⟨disk, hwrite⟩ := HeapFile.exists_writePage (hsuits page _ file hpeek hfile).length e.disk
  rw [hwrite]
  split
  case h_2 => rfl
  split
  · trivial
  · rfl

theorem forM_writeBack_sized (hkeyed : e.pool.Keyed) (hsuits : e.pool.Suits e.catalog)
    (pages : List PageId) : (pages.forM writeBack).Sized e := by
  refine Sized.forM (I := fun e' => e'.pool.Keyed ∧ e'.pool.Suits e'.catalog)
    (fun page e' h => ⟨writeBack_sized h.1 h.2 page, ?_⟩) pages ⟨hkeyed, hsuits⟩
  have hpath : MovePath e' ((writeBack page).after e') := (writeBack_moves page).after e'
  refine ⟨MovePath.keyed h.1 hpath, ?_⟩
  rw [(MovePath.grows hpath).catalog]
  exact MovePath.suits h.1 h.2 hpath

theorem flushPages_sized (hkeyed : e.pool.Keyed) (hsuits : e.pool.Suits e.catalog)
    (txn : TxnId) : (flushPages txn).Sized e :=
  forM_writeBack_sized hkeyed hsuits (e.pool.dirtiedBy txn)

theorem commit_sized (hkeyed : e.pool.Keyed) (hsuits : e.pool.Suits e.catalog)
    (txn : TxnId) : (Engine.commit txn).Sized e := by
  have hend : ∀ (outcome : Except Error Unit) e,
      (releaseIfClean txn >>= fun _ => Action.ofExcept outcome).Sized e := fun outcome e =>
    (show (releaseIfClean txn).Sized e from trivial).bind fun _ e₁ _ => Sized.ofExcept outcome e₁
  refine (flushPages_sized hkeyed hsuits txn).attempt.bind fun outcome e₁ _ => ?_
  split
  · exact hend _ e₁
  · exact (restorePages_sized txn e₁).attempt.bind fun _ e₂ _ => hend _ e₂

theorem abort_sized (txn : TxnId) (e : Engine) : (Engine.abort txn).Sized e := by
  refine (restorePages_sized txn e).attempt.bind fun outcome e₁ _ => ?_
  exact (show (releaseIfClean txn).Sized e₁ from trivial).bind fun _ e₂ _ =>
    Sized.ofExcept outcome e₂

/-- As long as the resident pages fit, no call hands a file a page of another
size. -/
theorem Call.sized (hkeyed : e.pool.Keyed) (hsuits : e.pool.Suits e.catalog) (call : Call) :
    call.run.Sized e := by
  cases call with
  | getPage txn page access => exact (getPage_sized txn page access e).map _
  | evict latched => exact (evict_sized latched e).map _
  | insert txn table tuple => exact (insert_sized txn table tuple e).map _
  | delete txn record => exact (delete_sized txn record e).map _
  | scan stop source => exact (scan_sized stop source e).map _
  | commit txn => exact (commit_sized hkeyed hsuits txn).map _
  | abort txn => exact (abort_sized txn e).map _
  | flushPage page => exact (writeBack_sized hkeyed hsuits page).map _
  | flushPages txn => exact (flushPages_sized hkeyed hsuits txn).map _
  | flushAll => exact (show Engine.flushAll.Sized e from forM_writeBack_sized hkeyed hsuits _).map _
  | discard page => trivial
  | release txn page => trivial

end

end HeapStore
