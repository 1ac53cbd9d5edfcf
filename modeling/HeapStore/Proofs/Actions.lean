import HeapStore.Engine
import Mathlib.Logic.Relation

/-!
# Reasoning about actions

An action either answers or fails, and either way leaves an engine.
`action.Ends engine answered failed` says what holds in both cases. It
passes through sequencing from the back to the front (`ends_bind`), so
the statement about a long action falls apart into statements about the
steps it is built from; each step has its own equivalence below
(`ends_lock`, `ends_readPage` and so on).

Many facts only concern the engines before and after. `action.Moves R`
says that they are related by `R` however the action ends; for a
reflexive and transitive `R` this is closed under everything actions are
built with.
-/

namespace HeapStore

namespace Action

variable {α β : Type}

/-- Where an action that starts from `engine` may end. -/
def Ends (action : Action α) (engine : Engine) (answered : α → Engine → Prop)
    (failed : Failure → Engine → Prop) : Prop :=
  match action engine with
  | .ok answer engine => answered answer engine
  | .error failure engine => failed failure engine

/-- The engine that an action leaves. -/
def after (action : Action α) (engine : Engine) : Engine :=
  match action engine with
  | .ok _ engine => engine
  | .error _ engine => engine

variable {action : Action α} {next : α → Action β} {engine engine' : Engine}
  {answered answered' : α → Engine → Prop} {failed failed' : Failure → Engine → Prop}

theorem Ends.mono (h : action.Ends engine answered failed)
    (hanswered : ∀ answer engine, answered answer engine → answered' answer engine)
    (hfailed : ∀ failure engine, failed failure engine → failed' failure engine) :
    action.Ends engine answered' failed' := by
  unfold Ends at *
  split at h
  · exact hanswered _ _ h
  · exact hfailed _ _ h

theorem Ends.of_ok {answer : α} (h : action.Ends engine answered failed)
    (hok : action engine = .ok answer engine') : answered answer engine' := by
  simpa only [Ends, hok] using h

theorem Ends.of_error {failure : Failure} (h : action.Ends engine answered failed)
    (herror : action engine = .error failure engine') : failed failure engine' := by
  simpa only [Ends, herror] using h

theorem after_of_ok {answer : α} (h : action engine = .ok answer engine') :
    action.after engine = engine' := by
  rw [after, h]

theorem after_of_error {failure : Failure} (h : action engine = .error failure engine') :
    action.after engine = engine' := by
  rw [after, h]

theorem ends_after {R : Engine → Prop} :
    action.Ends engine (fun _ => R) (fun _ => R) ↔ R (action.after engine) := by
  unfold Ends after
  cases action engine <;> rfl

/-! ## Ways to build actions -/

theorem bind_apply (action : Action α) (next : α → Action β) (engine : Engine) :
    (action >>= next) engine = match action engine with
      | .ok answer engine => next answer engine
      | .error failure engine => .error failure engine := by
  simp only [bind, EStateM.bind]
  cases action engine <;> rfl

theorem ends_bind {answered : β → Engine → Prop} :
    (action >>= next).Ends engine answered failed
      ↔ action.Ends engine (fun answer engine => (next answer).Ends engine answered failed)
          failed := by
  simp only [Ends, bind_apply]
  cases action engine <;> rfl

theorem ends_pure {answer : α} :
    (pure answer : Action α).Ends engine answered failed ↔ answered answer engine := Iff.rfl

theorem ends_ofExcept {answer : Except Error α} :
    (ofExcept answer).Ends engine answered failed ↔ match answer with
      | .ok answer => answered answer engine
      | .error cause => failed (.error cause) engine := by
  cases answer <;> rfl

theorem ofExcept_eq_ok {answer : Except Error α} {a : α}
    (h : ofExcept answer engine = .ok a engine') : answer = .ok a ∧ engine' = engine := by
  cases answer <;> cases h
  exact ⟨rfl, rfl⟩

theorem ends_ofResult {answer : Except Failure α} :
    (ofResult answer).Ends engine answered failed ↔ match answer with
      | .ok answer => answered answer engine
      | .error failure => failed failure engine := by
  cases answer <;> rfl

theorem ends_attempt {answered : Except Error α → Engine → Prop} :
    (attempt action).Ends engine answered failed
      ↔ action.Ends engine (fun answer => answered (.ok answer)) fun
          | .error cause => answered (.error cause)
          | .violation cause => failed (.violation cause) := by
  unfold Ends attempt
  rcases action engine with ⟨answer, engine⟩ | ⟨cause | cause, engine⟩ <;> rfl

theorem map_apply (f : α → β) (action : Action α) (engine : Engine) :
    (f <$> action) engine = match action engine with
      | .ok answer engine => .ok (f answer) engine
      | .error failure engine => .error failure engine := by
  simp only [Functor.map, EStateM.map]
  cases action engine <;> rfl

theorem ends_map {f : α → β} {answered : β → Engine → Prop} :
    (f <$> action).Ends engine answered failed
      ↔ action.Ends engine (fun answer => answered (f answer)) failed := by
  simp only [Ends, map_apply]
  cases action engine <;> rfl

theorem after_map (f : α → β) (action : Action α) (engine : Engine) :
    (f <$> action).after engine = action.after engine := by
  simp only [after, map_apply]
  cases action engine <;> rfl

/-! ## Actions on a list of items -/

/-- One step for each item, in order. -/
inductive Through {ι : Type} (S : ι → Engine → Engine → Prop) :
    List ι → Engine → Engine → Prop where
  | nil {e : Engine} : Through S [] e e
  | cons {item : ι} {items : List ι} {e e₁ e₂ : Engine} (hstep : S item e e₁)
      (hrest : Through S items e₁ e₂) : Through S (item :: items) e e₂

/-- A walk over items that fails has made its steps for the items before the
one that it fails on, and none for those behind. -/
theorem ends_forM {ι : Type} {f : ι → Action Unit} {S : ι → Engine → Engine → Prop}
    {F : ι → Failure → Engine → Engine → Prop}
    (h : ∀ item e, (f item).Ends e (fun _ => S item e) (fun failure => F item failure e))
    (items : List ι) (e : Engine) :
    (items.forM f).Ends e (fun _ => Through S items e) (fun failure e' =>
      ∃ done item rest e₁, items = done ++ item :: rest ∧ Through S done e e₁
        ∧ F item failure e₁ e') := by
  induction items generalizing e with
  | nil => exact .nil
  | cons item items ih =>
      rw [show (item :: items).forM f = (f item >>= fun _ => items.forM f) from rfl, ends_bind]
      refine (h item e).mono ?_ ?_
      · intro _ e₁ hstep
        refine (ih e₁).mono (fun _ _ hrest => .cons hstep hrest) ?_
        rintro failure e' ⟨done, stuck, rest, e₂, rfl, hdone, hfail⟩
        exact ⟨item :: done, stuck, rest, e₂, rfl, .cons hstep hdone, hfail⟩
      · intro failure e' hfail
        exact ⟨[], item, items, e, rfl, .nil, hfail⟩

/-! ## Related engines -/

/-- However the action ends, the engine it leaves is related to the one it
started from. -/
def Moves (R : Engine → Engine → Prop) (action : Action α) : Prop :=
  ∀ engine, action.Ends engine (fun _ => R engine) (fun _ => R engine)

variable {R : Engine → Engine → Prop}

theorem Moves.after (h : action.Moves R) (engine : Engine) : R engine (action.after engine) :=
  ends_after.1 (h engine)

theorem Moves.pure [Std.Refl R] (answer : α) : (Pure.pure answer : Action α).Moves R :=
  fun engine => ends_pure.2 (Std.Refl.refl engine)

theorem Moves.bind [IsTrans Engine R] (h : action.Moves R)
    (hnext : ∀ answer, (next answer).Moves R) : (action >>= next).Moves R := by
  intro engine
  rw [ends_bind]
  refine (h engine).mono ?_ fun _ _ h => h
  intro answer middle hmiddle
  exact (hnext answer middle).mono (fun _ _ h => IsTrans.trans _ _ _ hmiddle h)
    (fun _ _ h => IsTrans.trans _ _ _ hmiddle h)

theorem Moves.map (h : action.Moves R) (f : α → β) : (f <$> action).Moves R := by
  intro engine
  exact ends_map.2 (h engine)

theorem Moves.attempt (h : action.Moves R) : (Action.attempt action).Moves R := by
  intro engine
  rw [ends_attempt]
  refine (h engine).mono (fun _ _ h => h) ?_
  rintro (cause | cause) _ h <;> exact h

theorem Moves.forM [Std.Refl R] [IsTrans Engine R] {f : α → Action Unit} {items : List α}
    (h : ∀ item ∈ items, (f item).Moves R) : (items.forM f).Moves R := by
  induction items with
  | nil => exact Moves.pure ()
  | cons item items ih =>
      exact (h item List.mem_cons_self).bind fun _ =>
        ih fun item hitem => h item (List.mem_cons_of_mem _ hitem)

end Action

/-! ## The steps of the engine -/

namespace Engine

open HeapStore.Action

variable {engine : Engine} {failed : Failure → Engine → Prop}

theorem ends_updatePool {f : Pool → Pool} {answered : Unit → Engine → Prop} :
    (updatePool f).Ends engine answered failed
      ↔ answered () { engine with pool := f engine.pool } := Iff.rfl

theorem ends_get {answered : Engine → Engine → Prop} :
    (get : Action Engine).Ends engine answered failed ↔ answered engine engine := Iff.rfl

theorem fileOf_apply (table : TableId) (engine : Engine) :
    fileOf table engine = match engine.catalog.file table with
      | .ok file => .ok file engine
      | .error cause => .error (.error cause) engine := by
  simp only [fileOf, bind_apply, show (get : Action Engine) engine = .ok engine engine from rfl]
  cases engine.catalog.file table <;> rfl

theorem fileOf_eq_ok {table : TableId} {file : HeapFile} {engine' : Engine}
    (h : fileOf table engine = .ok file engine') :
    engine.catalog.file table = .ok file ∧ engine' = engine := by
  rw [fileOf_apply] at h
  split at h <;> cases h
  exact ⟨by assumption, rfl⟩

theorem ends_fileOf {table : TableId} {answered : HeapFile → Engine → Prop} :
    (fileOf table).Ends engine answered failed ↔ match engine.catalog.file table with
      | .ok file => answered file engine
      | .error cause => failed (.error cause) engine := by
  simp only [Ends, fileOf_apply]
  cases engine.catalog.file table <;> rfl

theorem pageCount_apply (file : HeapFile) (engine : Engine) :
    pageCount file engine = match file.pageCount engine.disk with
      | .ok count => .ok count engine
      | .error failure => .error failure engine := by
  simp only [pageCount, bind_apply, show (get : Action Engine) engine = .ok engine engine from rfl]
  cases file.pageCount engine.disk <;> rfl

theorem pageCount_eq_ok {file : HeapFile} {count : UInt32} {engine' : Engine}
    (h : pageCount file engine = .ok count engine') : engine' = engine := by
  rw [pageCount_apply] at h
  split at h <;> cases h
  rfl

theorem ends_pageCount {file : HeapFile} {answered : UInt32 → Engine → Prop} :
    (pageCount file).Ends engine answered failed ↔ match file.pageCount engine.disk with
      | .ok count => answered count engine
      | .error failure => failed failure engine := by
  simp only [Ends, pageCount_apply]
  cases file.pageCount engine.disk <;> rfl

theorem readPage_apply (file : HeapFile) (page : PageId) (engine : Engine) :
    readPage file page engine = match file.readPage engine.disk page with
      | .ok (page, disk) => .ok page { engine with disk }
      | .error failure => .error failure engine := by
  simp only [readPage, bind_apply, show (get : Action Engine) engine = .ok engine engine from rfl]
  cases file.readPage engine.disk page <;> rfl

theorem ends_readPage {file : HeapFile} {page : PageId} {answered : Page → Engine → Prop} :
    (readPage file page).Ends engine answered failed ↔ match file.readPage engine.disk page with
      | .ok (page, disk) => answered page { engine with disk }
      | .error failure => failed failure engine := by
  simp only [Ends, readPage_apply]
  cases file.readPage engine.disk page <;> rfl

theorem ends_writePage {file : HeapFile} {page : Page} {answered : Unit → Engine → Prop} :
    (writePage file page).Ends engine answered failed
      ↔ match file.writePage engine.disk page with
        | .ok disk => answered () { engine with disk }
        | .error failure => failed failure engine := by
  simp only [writePage, ends_bind, ends_get, ends_ofResult]
  cases file.writePage engine.disk page <;> rfl

theorem appendPage_apply (file : HeapFile) (engine : Engine) :
    appendPage file engine = match file.appendPage engine.disk with
      | .ok (page, disk) => .ok page { engine with disk }
      | .error failure => .error failure engine := by
  simp only [appendPage, bind_apply, show (get : Action Engine) engine = .ok engine engine from rfl]
  cases file.appendPage engine.disk <;> rfl

theorem ends_appendPage {file : HeapFile} {answered : PageId → Engine → Prop} :
    (appendPage file).Ends engine answered failed ↔ match file.appendPage engine.disk with
      | .ok (page, disk) => answered page { engine with disk }
      | .error failure => failed failure engine := by
  simp only [Ends, appendPage_apply]
  cases file.appendPage engine.disk <;> rfl

theorem ends_writeLog {record : LogRecord} {answered : Unit → Engine → Prop} :
    (writeLog record).Ends engine answered failed ↔ match engine.log.write record with
      | (.ok (), log) => answered () { engine with log }
      | (.error cause, log) => failed (.error cause) { engine with log } := by
  simp only [writeLog, ends_bind, ends_get, ends_ofExcept]
  rcases engine.log.write record with ⟨answer | answer, log⟩ <;> rfl

theorem ends_forceLog {answered : Unit → Engine → Prop} :
    forceLog.Ends engine answered failed ↔ match engine.log.force with
      | (.ok (), log) => answered () { engine with log }
      | (.error cause, log) => failed (.error cause) { engine with log } := by
  simp only [forceLog, ends_bind, ends_get, ends_ofExcept]
  rcases engine.log.force with ⟨answer | answer, log⟩ <;> rfl

theorem ends_install {page : Page} {answered : Frame → Engine → Prop} :
    (install page).Ends engine answered failed
      ↔ answered ⟨page, engine.pool.copies⟩
          { engine with pool := (engine.pool.install page).2 } := Iff.rfl

theorem touch_apply (page : PageId) (engine : Engine) :
    touch page engine = match engine.pool.cache.peek page with
      | some frame => .ok (some frame)
          { engine with pool := { engine.pool with cache := engine.pool.cache.put page frame } }
      | none => .ok none engine := by
  simp only [touch, bind_apply, show (get : Action Engine) engine = .ok engine engine from rfl,
    Recency.get]
  cases engine.pool.cache.peek page <;> rfl

theorem touch_eq_none {page : PageId} {engine' : Engine}
    (h : touch page engine = .ok none engine') : engine' = engine := by
  rw [touch_apply] at h
  split at h <;> cases h
  rfl

theorem ends_touch {page : PageId} {answered : Option Frame → Engine → Prop} :
    (touch page).Ends engine answered failed ↔ match engine.pool.cache.peek page with
      | some frame => answered (some frame)
          { engine with pool := { engine.pool with cache := engine.pool.cache.put page frame } }
      | none => answered none engine := by
  simp only [Ends, touch_apply]
  cases engine.pool.cache.peek page <;> rfl

theorem lock_apply (txn : TxnId) (page : PageId) (mode : LockMode) (engine : Engine) :
    lock txn page mode engine = match engine.pool.locks.acquire? txn page mode with
      | some locks => .ok () { engine with pool := { engine.pool with locks } }
      | none => .error (.error (.transactionAborted txn page)) engine := by
  simp only [lock, bind_apply, Pool.lock?,
    show (get : Action Engine) engine = .ok engine engine from rfl]
  cases engine.pool.locks.acquire? txn page mode <;> rfl

theorem ends_lock {txn : TxnId} {page : PageId} {mode : LockMode}
    {answered : Unit → Engine → Prop} :
    (lock txn page mode).Ends engine answered failed
      ↔ match engine.pool.locks.acquire? txn page mode with
        | some locks => answered () { engine with pool := { engine.pool with locks } }
        | none => failed (.error (.transactionAborted txn page)) engine := by
  simp only [Ends, lock_apply]
  cases engine.pool.locks.acquire? txn page mode <;> rfl

theorem evict_apply (latched : Frame → Bool) (engine : Engine) :
    evict latched engine = match engine.pool.victim? latched with
      | some page => .ok () { engine with pool := engine.pool.discard page }
      | none => .error (.error .bufferPoolFull) engine := by
  simp only [evict, bind_apply, show (get : Action Engine) engine = .ok engine engine from rfl,
    Pool.evict?]
  cases engine.pool.victim? latched <;> rfl

theorem ends_evict {latched : Frame → Bool} {answered : Unit → Engine → Prop} :
    (evict latched).Ends engine answered failed ↔ match engine.pool.victim? latched with
      | some page => answered () { engine with pool := engine.pool.discard page }
      | none => failed (.error .bufferPoolFull) engine := by
  simp only [Ends, evict_apply]
  cases engine.pool.victim? latched <;> rfl

theorem makeRoom_apply (engine : Engine) :
    makeRoom engine = if engine.pool.isFull then evict (fun _ => false) engine
      else .ok () engine := by
  simp only [makeRoom, bind_apply, show (get : Action Engine) engine = .ok engine engine from rfl]
  split <;> rfl

theorem ends_makeRoom {answered : Unit → Engine → Prop} :
    makeRoom.Ends engine answered failed
      ↔ if engine.pool.isFull then (evict fun _ => false).Ends engine answered failed
        else answered () engine := by
  rw [Ends, makeRoom_apply]
  cases engine.pool.isFull <;> rfl

theorem ends_holds {txn : TxnId} {page : PageId} {answered : Bool → Engine → Prop} :
    (holds txn page).Ends engine answered failed
      ↔ answered (engine.pool.locks.holds txn page) engine := Iff.rfl

theorem ends_release {txn : TxnId} {page : PageId} {answered : Unit → Engine → Prop} :
    (release txn page).Ends engine answered failed
      ↔ answered () { engine with pool := engine.pool.release txn page } := Iff.rfl

end Engine

end HeapStore
