import HeapStore.Proofs.LockDiscipline
import Mathlib.Data.List.Find

/-!
# Unseen pages

An action is blind to a page if it does the same with another page in its place,
answer and failure included (`Action.Blind`). This passes through sequencing
(`Action.Blind.bind`), so it falls apart into the steps that actions are built
from. Most of them do not look into the pool, or work on a page of another name;
the one that looks at all pages, the search for a page to evict, only asks which
ones have changes.

A page with changes of one transaction hides from all others (`Engine.Hides`):
they are refused the page whenever they come to it, and do not get hold of it
otherwise. So the calls made for them are blind to it (`Call.blind`).
-/

namespace HeapStore

open HeapStore.Action Engine

/-! ## Actions that do not see a page -/

/-- The action does not see the resident page of that name. With `x` in its place
it gives the same answer, or fails in the same way, and leaves the same engine, but
that `x` is in this place again. -/
def Action.Blind {α : Type} (action : Action α) (x : Page) (e : Engine) : Prop :=
  action (e.store x) = match action e with
    | .ok answer e' => .ok answer (e'.store x)
    | .error failure e' => .error failure (e'.store x)

namespace Action.Blind

variable {α β : Type} {action : Action α} {next : α → Action β} {x : Page} {e : Engine}

theorem pure (answer : α) (x : Page) (e : Engine) : (Pure.pure answer : Action α).Blind x e := rfl

theorem refuse (cause : Error) (x : Page) (e : Engine) :
    (Action.refuse cause : Action α).Blind x e := rfl

theorem ofExcept (answer : Except Error α) (x : Page) (e : Engine) :
    (Action.ofExcept answer).Blind x e := by
  cases answer <;> rfl

theorem bind (h : action.Blind x e)
    (hnext : ∀ answer e', action e = .ok answer e' → (next answer).Blind x e') :
    (action >>= next).Blind x e := by
  rw [Blind, bind_apply, bind_apply, h]
  cases hrun : action e with
  | ok answer e' => exact hnext answer e' hrun
  | error failure e' => rfl

theorem map (h : action.Blind x e) (f : α → β) : (f <$> action).Blind x e := by
  rw [Blind, map_apply, map_apply, h]
  cases action e <;> rfl

theorem attempt (h : action.Blind x e) : (Action.attempt action).Blind x e := by
  rw [Blind, Action.attempt, h]
  rcases hrun : action e with ⟨answer, e'⟩ | ⟨cause | cause, e'⟩ <;>
    simp only [Action.attempt, hrun]

end Action.Blind

section

variable {x y : Page} {e e₁ e' : Engine} {txn : TxnId} {page : PageId} {frame : Frame}

/-! ## Steps that do not look into the pool -/

theorem Engine.catalog_store (e : Engine) (x : Page) : (e.store x).catalog = e.catalog := rfl

theorem Engine.disk_store (e : Engine) (x : Page) : (e.store x).disk = e.disk := rfl

theorem Engine.locks_store (e : Engine) (x : Page) : (e.store x).pool.locks = e.pool.locks := rfl

theorem fileOf_blind (table : TableId) (x : Page) (e : Engine) : (fileOf table).Blind x e := by
  rw [Blind, fileOf_apply, fileOf_apply, catalog_store]
  cases e.catalog.file table <;> rfl

theorem pageCount_blind (file : HeapFile) (x : Page) (e : Engine) :
    (Engine.pageCount file).Blind x e := by
  rw [Blind, pageCount_apply, pageCount_apply, disk_store]
  cases file.pageCount e.disk <;> rfl

theorem appendPage_blind (file : HeapFile) (x : Page) (e : Engine) :
    (Engine.appendPage file).Blind x e := by
  rw [Blind, appendPage_apply, appendPage_apply, disk_store]
  cases file.appendPage e.disk <;> rfl

theorem readPage_blind (file : HeapFile) (page : PageId) (x : Page) (e : Engine) :
    (Engine.readPage file page).Blind x e := by
  rw [Blind, readPage_apply, readPage_apply, disk_store]
  cases file.readPage e.disk page <;> rfl

theorem lock_blind (txn : TxnId) (page : PageId) (mode : LockMode) (x : Page) (e : Engine) :
    (lock txn page mode).Blind x e := by
  rw [Blind, lock_apply, lock_apply, locks_store]
  cases e.pool.locks.acquire? txn page mode <;> rfl

theorem holds_blind (txn : TxnId) (page : PageId) (x : Page) (e : Engine) :
    (holds txn page).Blind x e := rfl

theorem release_blind (txn : TxnId) (page : PageId) (x : Page) (e : Engine) :
    (release txn page).Blind x e := rfl

/-! ## Steps that work on another page -/

theorem Pool.peek_store_of_ne (pool : Pool) (hne : x.id ≠ page) :
    (pool.store x).cache.peek page = pool.cache.peek page := by
  rw [Pool.store, Recency.peek_modify, if_neg hne]

theorem Pool.use_store_of_ne (pool : Pool) (frame : Frame) (hne : x.id ≠ page) :
    { pool.store x with cache := (pool.store x).cache.put page frame }
      = ({ pool with cache := pool.cache.put page frame } : Pool).store x := by
  simp only [Pool.store, Recency.put_modify_of_ne _ _ hne]

theorem Pool.discard_store_of_ne (pool : Pool) (hne : x.id ≠ page) :
    (pool.store x).discard page = (pool.discard page).store x := by
  simp only [Pool.discard, Pool.store, Recency.remove_modify_of_ne _ hne]

theorem Pool.install_store_of_ne (pool : Pool) (hne : x.id ≠ y.id) :
    ((pool.store x).install y).2 = (pool.install y).2.store x := by
  simp only [Pool.install, Pool.store, Recency.put_modify_of_ne _ _ hne]

theorem Pool.store_store_of_ne (pool : Pool) (hne : x.id ≠ y.id) :
    (pool.store x).store y = (pool.store y).store x := by
  simp only [Pool.store, Recency.modify_modify_of_ne _ _ hne]

/-- A change of the pool alone, which is the same change with `x` in its place. -/
theorem Action.Blind.of_pool {α : Type} {action : Action α} {pool pool' : Pool} (answer : α)
    (hrun : action e = .ok answer { e with pool })
    (hrun' : action (e.store x) = .ok answer { e with pool := pool' })
    (hpool : pool' = pool.store x) : action.Blind x e := by
  rw [Blind, hrun, hrun', hpool]
  rfl

theorem touch_blind (hne : x.id ≠ page) : (touch page).Blind x e := by
  have hstore : (e.store x).pool.cache.peek page = e.pool.cache.peek page :=
    e.pool.peek_store_of_ne hne
  cases hpeek : e.pool.cache.peek page with
  | none => rw [Blind, touch_apply, touch_apply, hstore, hpeek]
  | some frame =>
      refine .of_pool (some frame) ?_ ?_ (e.pool.use_store_of_ne frame hne)
      · rw [touch_apply, hpeek]
      · rw [touch_apply, hstore, hpeek]
        rfl

theorem install_blind (hne : x.id ≠ y.id) : (install y).Blind x e :=
  .of_pool ⟨y, e.pool.copies⟩ rfl rfl (e.pool.install_store_of_ne hne)

theorem store_blind (hne : x.id ≠ y.id) : (updatePool (·.store y)).Blind x e :=
  .of_pool () rfl rfl (e.pool.store_store_of_ne hne)

/-! ## Making room -/

theorem Pool.isFull_store (pool : Pool) (x : Page) : (pool.store x).isFull = pool.isFull := by
  simp only [isFull, store, Recency.size_modify]

/-- A page with changes is no victim, whatever the changes are. -/
theorem Pool.victim?_store {pool : Pool} (hpeek : pool.cache.peek x.id = some frame)
    (hdirty : frame.page.isDirty = true) (hx : x.isDirty = true) (latched : Frame → Bool) :
    (pool.store x).victim? latched = pool.victim? latched := by
  rw [victim?, store, Recency.toList_modify, List.find?_map, Option.map_map]
  -- Of each page the search asks the same as before, and it answers with its name.
  have hsame : ∀ pair ∈ pool.cache.toList,
      ((fun pair : PageId × Frame => !pair.2.page.isDirty && !latched pair.2) ∘
          fun pair => if pair.1 = x.id then (pair.1, { pair.2 with page := x }) else pair) pair
        = (!pair.2.page.isDirty && !latched pair.2) := by
    rintro ⟨page, resident⟩ hmem
    by_cases hpage : page = x.id
    · obtain rfl : frame = resident :=
        Option.some.inj (hpeek.symm.trans (hpage ▸ Recency.mem_toList.1 hmem))
      simp [hpage, hx, hdirty]
    · simp [hpage]
  have hfst : (Prod.fst ∘ fun pair : PageId × Frame =>
      if pair.1 = x.id then (pair.1, { pair.2 with page := x }) else pair) = Prod.fst := by
    funext pair
    dsimp only [Function.comp]
    split <;> rfl
  rw [hfst, List.find?_congr hsame]
  rfl

theorem evict_blind (hpeek : e.pool.cache.peek x.id = some frame)
    (hdirty : frame.page.isDirty = true) (hx : x.isDirty = true) (latched : Frame → Bool) :
    (evict latched).Blind x e := by
  have hstore : (e.store x).pool.victim? latched = e.pool.victim? latched :=
    Pool.victim?_store hpeek hdirty hx latched
  cases hvictim : e.pool.victim? latched with
  | none => rw [Blind, evict_apply, evict_apply, hstore, hvictim]
  | some page =>
      obtain ⟨victim, hresident, hclean⟩ := peek_of_victim? hvictim
      have hne : x.id ≠ page := by
        rintro rfl
        obtain rfl := Option.some.inj (hpeek.symm.trans hresident)
        rw [hdirty] at hclean
        cases hclean
      refine .of_pool () ?_ ?_ (e.pool.discard_store_of_ne hne)
      · rw [evict_apply, hvictim]
      · rw [evict_apply, hstore, hvictim]
        rfl

theorem makeRoom_blind (hpeek : e.pool.cache.peek x.id = some frame)
    (hdirty : frame.page.isDirty = true) (hx : x.isDirty = true) : makeRoom.Blind x e := by
  rw [Blind, makeRoom_apply, makeRoom_apply,
    show (e.store x).pool.isFull = _ from e.pool.isFull_store x]
  split
  · exact evict_blind hpeek hdirty hx _
  · rfl

/-- Another page can be got without a look at this one, which is not in the way when
room is made. -/
theorem getPage_blind (hpeek : e.pool.cache.peek x.id = some frame)
    (hdirty : frame.page.isDirty = true) (hx : x.isDirty = true) (hne : x.id ≠ page) (txn : TxnId)
    (access : Access) : (Engine.getPage txn page access).Blind x e := by
  refine (lock_blind txn page access.lockMode x e).bind fun _ e₁ hlock => ?_
  have hpeek₁ : e₁.pool.cache.peek x.id = some frame := by
    rw [lock_apply] at hlock
    split at hlock <;> cases hlock
    exact hpeek
  refine (touch_blind hne).bind fun resident e₂ htouch => ?_
  cases resident with
  | some resident => exact .pure resident x e₂
  | none =>
      obtain rfl := touch_eq_none htouch
      refine (fileOf_blind page.table x e₂).bind fun file e₃ hfile => ?_
      obtain ⟨-, rfl⟩ := fileOf_eq_ok hfile
      refine (makeRoom_blind hpeek₁ hdirty hx).bind fun _ e₄ _ => ?_
      refine (readPage_blind file page x e₄).bind fun loaded e₅ hread => install_blind ?_
      rw [readPage_apply] at hread
      split at hread <;> cases hread
      rename_i hread
      rw [HeapFile.id_of_readPage hread]
      exact hne

/-! ## Pages with changes of others -/

/-- The page of `x`'s name holds changes of a transaction other than `txn`. So would
`x` in its place. -/
structure Engine.Hides (e : Engine) (txn : TxnId) (x : Page) : Prop where
  guarded : Guarded e
  changed : ∃ frame writer, e.pool.cache.peek x.id = some frame ∧
    frame.page.dirtier = some writer ∧ txn ≠ writer
  dirty : x.isDirty = true

namespace Engine.Hides

variable {file : HeapFile}

/-- The pool alone matters. -/
theorem of_pool (h : e.Hides txn x) (hpool : e'.pool = e.pool) : e'.Hides txn x := by
  obtain ⟨frame, writer, hpeek, hdirty, hne⟩ := h.changed
  refine ⟨h.guarded.of_locks (by rw [hpool]) fun _ _ _ _ _ howns => by rwa [hpool], ?_, h.dirty⟩
  exact ⟨frame, writer, by rw [hpool, hpeek], hdirty, hne⟩

theorem quietPath (h : e.Hides txn x) (hpath : QuietPath txn e e') : e'.Hides txn x := by
  obtain ⟨frame, writer, hpeek, hdirty, hne⟩ := h.changed
  refine ⟨h.guarded.movePath hpath.movePath, ⟨frame, writer, ?_, hdirty, hne⟩, h.dirty⟩
  rw [Recency.peek, hpath.entries_eq h.guarded hpeek hdirty hne, ← Recency.peek, hpeek]

theorem acquire?_eq_none (h : e.Hides txn x) (mode : LockMode) :
    e.pool.locks.acquire? txn x.id mode = none := by
  obtain ⟨frame, writer, hpeek, hdirty, hne⟩ := h.changed
  exact (h.guarded.owned _ _ _ hpeek hdirty).acquire?_eq_none hne

theorem getPage_eq (h : e.Hides txn x) (access : Access) :
    getPage txn x.id access e = .error (.error (.transactionAborted txn x.id)) e :=
  getPage_of_refused (h.acquire?_eq_none access.lockMode)

/-! ## Getting a page -/

theorem getPage (h : e.Hides txn x) (page : PageId) (access : Access) :
    (Engine.getPage txn page access).Blind x e := by
  by_cases hne : x.id = page
  · subst hne
    have hstore : (e.store x).pool.locks.acquire? txn x.id access.lockMode = none :=
      h.acquire?_eq_none _
    rw [Blind, h.getPage_eq, getPage_of_refused hstore]
  · obtain ⟨frame, writer, hpeek, hdirty, -⟩ := h.changed
    have hdirty : frame.page.isDirty = true := by rw [Page.isDirty, hdirty]; rfl
    exact getPage_blind hpeek hdirty h.dirty hne txn access

/-! ## Inserting and deleting -/

/-- A page that the transaction owns is another one. -/
theorem ne_of_owns (h : e.Hides txn x) (howns : e.pool.locks.Owns txn page) : x.id ≠ page := by
  obtain ⟨frame, writer, hpeek, hdirty, hne⟩ := h.changed
  rintro rfl
  have hgrants := howns.symm.trans (h.guarded.owned _ _ _ hpeek hdirty)
  cases hgrants
  exact hne rfl

/-- So is a page that it changes. -/
theorem change (h : e.Hides txn x) (hfetch : Fetches txn page .exclusive e₁ frame e)
    {changed : Page} (hchanged : frame.page.Becomes changed) :
    (updatePool (·.store (changed.markDirty txn))).Blind x e := by
  refine store_blind ?_
  rw [show (changed.markDirty txn).id = changed.id from rfl, hchanged.id_eq,
    h.guarded.keyed _ _ hfetch.peek]
  exact h.ne_of_owns (LockTable.owns_of_acquire? hfetch.acquire?)

theorem insertInto (h : e.Hides txn x) (hfetch : Fetches txn page .exclusive e₁ frame e)
    (tuple : Tuple) : (HeapFile.insertInto frame txn tuple).Blind x e := by
  refine (Blind.ofExcept (frame.page.insert tuple) x e).bind fun answer e₂ hrun => ?_
  obtain ⟨hinsert, rfl⟩ := ofExcept_eq_ok hrun
  exact (h.change hfetch (.insert hinsert)).bind fun _ e₃ _ => .pure _ x e₃

theorem insertWithin (h : e.Hides txn x) (file : HeapFile) (tuple : Tuple) (count : Nat)
    (next : UInt32) : (file.insertWithin txn tuple count next).Blind x e := by
  induction count generalizing next e with
  | zero => exact .pure none x e
  | succ count ih =>
      refine (holds_blind txn ⟨file.id, next⟩ x e).bind fun held e₁ hheld => ?_
      cases hheld
      refine (h.getPage ⟨file.id, next⟩ .read).bind fun frame e₁ hget => ?_
      have hfetch := (getPage_ends txn ⟨file.id, next⟩ .read e).of_ok hget
      have h₁ := h.quietPath hfetch.quiet
      split
      · refine (h₁.getPage ⟨file.id, next⟩ .write).bind fun frame e₂ hget => ?_
        have hfetch₂ := (getPage_ends txn ⟨file.id, next⟩ .write e₁).of_ok hget
        exact ((h₁.quietPath hfetch₂.quiet).insertInto hfetch₂ tuple).bind
          fun answer e₃ _ => .pure (some answer) x e₃
      · split
        · rename_i hheld
          refine (release_blind txn ⟨file.id, next⟩ x e₁).bind fun _ e₂ hrelease => ?_
          cases hrelease
          exact ih (h.quietPath (.single (.giveBack (by simpa using hheld) hfetch))) (next + 1)
        · exact ih h₁ (next + 1)

theorem insertAppended (h : e.Hides txn x) (file : HeapFile) (tuple : Tuple) :
    (file.insertAppended txn tuple).Blind x e := by
  refine (appendPage_blind file x e).bind fun page e₁ happend => ?_
  have h₁ : e₁.Hides txn x := by
    rw [appendPage_apply] at happend
    split at happend <;> cases happend
    exact h.of_pool rfl
  refine (h₁.getPage page .write).bind fun frame e₂ hget => ?_
  have hfetch := (getPage_ends txn page .write e₁).of_ok hget
  exact (h₁.quietPath hfetch.quiet).insertInto hfetch tuple

theorem insertBehind (h : e.Hides txn x) {table : TableId}
    (hfile : e.catalog.file table = .ok file) (tuple : Tuple) (retries : Nat) :
    (file.insertBehind txn tuple retries).Blind x e := by
  induction retries generalizing e with
  | zero => exact h.insertAppended file tuple
  | succ retries ih =>
      -- There is another try after a refusal only, which has left the page alone.
      have hends : (Action.attempt (file.insertAppended txn tuple)).Ends e
          (fun answer e' => ∀ cause, answer = .error cause → QuietPath txn e e')
          (fun _ _ => True) := by
        refine ends_attempt.2 ((insertAppended_ends hfile).mono (fun _ _ _ => nofun) ?_)
        rintro (cause | cause) e' hpath
        · exact fun _ _ => hpath
        · trivial
      refine (h.insertAppended file tuple).attempt.bind fun answer e₁ hrun => ?_
      split
      · exact .pure _ x e₁
      · have hpath := hends.of_ok hrun _ rfl
        exact ih (h.quietPath hpath) (by rw [hpath.catalog_eq, hfile])
      · exact .refuse _ x e₁

theorem insert (h : e.Hides txn x) (table : TableId) (tuple : Tuple) :
    (Engine.insert txn table tuple).Blind x e := by
  refine (fileOf_blind table x e).bind fun file e₁ hrun =>
    Blind.bind ?_ fun answer e₂ _ => .pure _ x e₂
  obtain ⟨hfile, rfl⟩ := fileOf_eq_ok hrun
  unfold HeapFile.insert
  split
  · exact .refuse _ x e₁
  refine (pageCount_blind file x e₁).bind fun count e₂ hcount => ?_
  obtain rfl := pageCount_eq_ok hcount
  refine (h.insertWithin file tuple count.toNat 0).bind fun found e₃ hrun => ?_
  cases found with
  | some answer => exact .pure answer x e₃
  | none =>
      have hpath : QuietPath txn e₂ e₃ := (insertWithin_ends count.toNat 0 e₂).of_ok hrun
      exact (h.quietPath hpath).insertBehind (by rw [hpath.catalog_eq, hfile]) tuple _

theorem delete (h : e.Hides txn x) (record : Option RecordId) :
    (Engine.delete txn record).Blind x e := by
  cases record with
  | none => exact .refuse _ x e
  | some record =>
      refine (fileOf_blind record.page.table x e).bind fun file e₁ hrun =>
        Blind.bind ?_ fun _ e₂ _ => .pure _ x e₂
      obtain ⟨-, rfl⟩ := fileOf_eq_ok hrun
      simp only [HeapFile.delete]
      split
      · exact .refuse _ x e₁
      refine (h.getPage record.page .write).bind fun frame e₂ hget => ?_
      have hfetch := (getPage_ends txn record.page .write e₁).of_ok hget
      have hblind := Blind.ofExcept (frame.page.delete (some record)) x e₂
      refine hblind.bind fun changed e₃ hrun => ?_
      obtain ⟨hdelete, rfl⟩ := ofExcept_eq_ok hrun
      exact ((h.quietPath hfetch.quiet).change hfetch (.delete hdelete)).bind
        fun _ e₄ _ => .pure _ x e₄

/-! ## Scanning -/

theorem takePages (h : e.Hides txn x) (stop : Item → Bool) (file : HeapFile) (count : Nat)
    (next : UInt32) : (Scan.takePages stop file txn count next).Blind x e := by
  induction count generalizing next e with
  | zero => exact .pure _ x e
  | succ count ih =>
      refine (h.getPage ⟨file.id, next⟩ .read).attempt.bind fun answer e₁ hrun => ?_
      have hpath : QuietPath txn e e₁ :=
        ((getPage_moves txn ⟨file.id, next⟩ .read).attempt e).of_ok hrun
      rcases answer with cause | frame
      all_goals
        refine (Blind.pure _ x e₁).bind fun cuts e₂ hcuts => ?_
        cases hcuts
        generalize cut stop _ = cuts
        obtain ⟨items, _ | rest⟩ := cuts
        · exact (ih (h.quietPath hpath) (next + 1)).bind fun _ e₃ _ => .pure _ x e₃
        · exact .pure _ x e₁

theorem takeUntil {scan : Scan} (h : e.Hides scan.txn x) (stop : Item → Bool) :
    (scan.takeUntil stop).Blind x e := by
  unfold Scan.takeUntil
  split
  · exact .pure _ x e
  · refine (pageCount_blind scan.file x e).bind fun count e₁ hcount => ?_
    obtain rfl := pageCount_eq_ok hcount
    exact (h.takePages stop scan.file _ scan.nextPage).bind fun _ e₂ _ => .pure _ x e₂

end Engine.Hides

/-- Whatever a transaction asks for, it does not see a page with changes of
another one. -/
theorem Call.blind (h : e.Hides txn x) {call : Call} (hcall : call.reader? = some txn) :
    call.run.Blind x e := by
  cases call with
  | getPage other page access =>
      cases hcall
      exact (h.getPage page access).map _
  | insert other table tuple =>
      cases hcall
      exact (h.insert table tuple).map _
  | delete other record =>
      cases hcall
      exact (h.delete record).map _
  | scan stop scan =>
      cases hcall
      exact (h.takeUntil stop).map _
  | evict _ | commit _ | abort _ | flushPage _ | flushPages _ | flushAll | discard _
  | release _ _ => cases hcall

end

end HeapStore
