import HeapStore.Proofs.ChangedPages

/-!
# Two pools in lockstep

Two engines are `Alike` when they have the same face and the second one has at
least as much room. As long as the first one is not full, every action gives
the same answer on both, or fails on both with the same failure, and leaves
them alike. `Lockstep` says this of the results of an action; the failures it
excuses are those after which nothing is said about the second engine.

Only a get can find the pool full (`Alike.getPage`). What else there is depends
on the face alone; an append needs on top that page numbers do not run out,
which is known at the end of the action and therefore before it
(`Action.Moves.after_bind`).
-/

namespace HeapStore

open HeapStore.Action Engine

/-! ## Actions let files grow -/

/-- What comes later in an action moves on from what the first part left. -/
theorem Action.Moves.after_bind {α β : Type} {R : Engine → Engine → Prop} [Std.Refl R]
    {action : Action α} {next : α → Action β} (hnext : ∀ answer, (next answer).Moves R)
    (e : Engine) : R (action.after e) ((action >>= next).after e) := by
  unfold Action.after
  rw [bind_apply]
  cases action e with
  | ok answer e₁ => exact (hnext answer).after e₁
  | error failure e₁ => exact Std.Refl.refl e₁

theorem Action.after_bind_of_ok {α β : Type} {action : Action α} {next : α → Action β}
    {answer : α} {e e₁ : Engine} (h : action e = .ok answer e₁) :
    (action >>= next).after e = (next answer).after e₁ := by
  rw [Action.after, bind_apply, h, Action.after]

instance : Std.Refl Grows := ⟨Grows.refl⟩

instance : IsTrans Engine Grows := ⟨fun _ _ _ => Grows.trans⟩

section

variable {file : HeapFile} {txn : TxnId} {tuple : Tuple}

theorem insertInto_grows (frame : Frame) : (HeapFile.insertInto frame txn tuple).Moves Grows := by
  intro e
  simp only [HeapFile.insertInto, ends_bind, ends_ofExcept]
  split
  · exact .of_content rfl fun _ => rfl
  · exact .refl e

theorem getInsert_grows (page : PageId) : Moves Grows (do
    let frame ← Engine.getPage txn page .write
    HeapFile.insertInto frame txn tuple) := by
  refine Moves.bind (fun e => ?_) insertInto_grows
  exact (getPage_moves txn page .write e).mono (fun _ _ h => h.movePath.grows)
    fun _ _ h => h.movePath.grows

theorem insertAppended_grows : (HeapFile.insertAppended file txn tuple).Moves Grows := by
  refine Moves.bind (fun e => ?_) getInsert_grows
  rw [ends_appendPage]
  split
  · rename_i page disk happend
    obtain ⟨-, hwrite⟩ := HeapFile.appendPage_eq_ok happend
    exact .of_writePage rfl rfl hwrite
  · exact .refl e

theorem insertBehind_succ (retries : Nat) (e : Engine) :
    HeapFile.insertBehind file txn tuple (retries + 1) e
      = match HeapFile.insertAppended file txn tuple e with
        | .error (.error (.pageFull _)) e₁ => HeapFile.insertBehind file txn tuple retries e₁
        | result => result := by
  rw [HeapFile.insertBehind, bind_apply, attempt]
  cases HeapFile.insertAppended file txn tuple e with
  | ok answer e₁ => rfl
  | error failure e₁ =>
      rcases failure with cause | cause
      · cases cause <;> rfl
      · rfl

theorem insertBehind_grows (retries : Nat) :
    (HeapFile.insertBehind file txn tuple retries).Moves Grows := by
  induction retries with
  | zero => exact insertAppended_grows
  | succ retries ih =>
      refine insertAppended_grows.attempt.bind fun answer => ?_
      split
      · exact Moves.pure _
      · exact ih
      · exact fun e => Grows.refl e

/-- The first page that is appended is followed by others at most. -/
theorem insertAppended_grows_insertBehind (retries : Nat) (e : Engine) :
    Grows ((HeapFile.insertAppended file txn tuple).after e)
      ((HeapFile.insertBehind file txn tuple (retries + 1)).after e) := by
  unfold Action.after
  rw [insertBehind_succ]
  cases HeapFile.insertAppended file txn tuple e with
  | ok answer e₁ => exact .refl e₁
  | error failure e₁ =>
      rcases failure with cause | cause
      case violation => exact .refl e₁
      cases cause
      case pageFull => exact (insertBehind_grows retries).after e₁
      all_goals exact .refl e₁

end

/-! ## Agreement -/

/-- Two engines with the same face, the second one with no less room. -/
structure Alike (small large : Nat) (e e' : Engine) : Prop where
  le : small ≤ large
  face : e'.face = e.face
  registered : e.catalog.Registered
  coherent : Coherent small e
  coherent' : Coherent large e'

/-- What an action does on two engines. -/
inductive Lockstep {α : Type} (small large : Nat) (excused : Failure → Prop)
    (answered : α → α → Engine → Engine → Prop) :
    EStateM.Result Failure Engine α → EStateM.Result Failure Engine α → Prop where
  | answer {a a' : α} {e e' : Engine} (h : answered a a' e e') :
      Lockstep small large excused answered (.ok a e) (.ok a' e')
  | failure {failure : Failure} {e e' : Engine} (h : Alike small large e e') :
      Lockstep small large excused answered (.error failure e) (.error failure e')
  | excused {failure : Failure} {e : Engine} {result : EStateM.Result Failure Engine α}
      (h : excused failure) : Lockstep small large excused answered (.error failure e) result

/-- The pool is full. -/
def IsFull (failure : Failure) : Prop := failure = .error .bufferPoolFull

/-- Nothing is excused. -/
def Unexcused (_ : Failure) : Prop := False

namespace Lockstep

variable {α β : Type} {small large : Nat} {excused : Failure → Prop}
  {answered : α → α → Engine → Engine → Prop} {action action' : Action α}
  {next next' : α → Action β} {e e' : Engine}

theorem bind {answered' : β → β → Engine → Engine → Prop}
    (h : Lockstep small large excused answered (action e) (action' e'))
    (hnext : ∀ a a' e₁ e₁', action e = .ok a e₁ → answered a a' e₁ e₁' →
      Lockstep small large excused answered' (next a e₁) (next' a' e₁')) :
    Lockstep small large excused answered' ((action >>= next) e) ((action' >>= next') e') := by
  rw [bind_apply, bind_apply]
  generalize action e = result at h hnext
  generalize action' e' = result' at h
  cases h with
  | answer h => exact hnext _ _ _ _ rfl h
  | failure h => exact .failure h
  | excused h => exact .excused h

theorem attempt {action : Action Unit}
    (h : Lockstep small large Unexcused (fun _ _ => Alike small large) (action e) (action e')) :
    Lockstep small large Unexcused (fun r r' e₁ e₁' => r' = r ∧ Alike small large e₁ e₁')
      (Action.attempt action e) (Action.attempt action e') := by
  unfold Action.attempt
  generalize action e = result at h
  generalize action e' = result' at h
  cases h with
  | answer h => exact .answer ⟨rfl, h⟩
  | @failure failure e₁ e₁' h =>
      cases failure with
      | error cause => exact .answer ⟨rfl, h⟩
      | violation cause => exact .failure h
  | excused h => exact h.elim

/-- From what is known about each of the two. -/
theorem of_ends {p p' : α → Engine → Prop} {q q' : Failure → Engine → Prop}
    (h : action.Ends e p q) (h' : action.Ends e' p' q')
    (hanswer : ∀ a e₁ a' e₁', p a e₁ → p' a' e₁' → answered a a' e₁ e₁')
    (hfailure : ∀ failure e₁ failure' e₁', q failure e₁ → q' failure' e₁' →
      excused failure ∨ failure' = failure ∧ Alike small large e₁ e₁')
    (hmore : ∀ a e₁ failure' e₁', p a e₁ → ¬q' failure' e₁')
    (hless : ∀ failure e₁ a' e₁', q failure e₁ → p' a' e₁' → excused failure) :
    Lockstep small large excused answered (action e) (action e') := by
  unfold Ends at h h'
  generalize action e = result at h
  generalize action e' = result' at h'
  rcases result with ⟨a, e₁⟩ | ⟨failure, e₁⟩ <;> rcases result' with ⟨a', e₁'⟩ | ⟨failure', e₁'⟩
  · exact .answer (hanswer _ _ _ _ h h')
  · exact absurd h' (hmore _ _ _ _ h)
  · exact .excused (hless _ _ _ _ h h')
  · rcases hfailure _ _ _ _ h h' with hexcused | ⟨rfl, halike⟩
    · exact .excused hexcused
    · exact .failure halike

theorem of_excused {result : EStateM.Result Failure Engine α}
    (h : action.Ends e (fun _ _ => False) (fun failure _ => excused failure)) :
    Lockstep small large excused answered (action e) result := by
  unfold Ends at h
  generalize action e = result at h
  rcases result with ⟨a, e₁⟩ | ⟨failure, e₁⟩
  · exact h.elim
  · exact .excused h

end Lockstep

namespace Alike

variable {α : Type} {small large : Nat} {excused : Failure → Prop}
  {answered : α → α → Engine → Engine → Prop} {e e' e₁ e₁' : Engine} {txn : TxnId}
  {page : PageId} {frame frame' : Frame} {file : HeapFile} {table : TableId} {tuple : Tuple}

theorem catalog (h : Alike small large e e') : e'.catalog = e.catalog :=
  congrArg Face.catalog h.face

theorem files (h : Alike small large e e') : e'.disk.files = e.disk.files :=
  congrArg Face.files h.face

theorem log (h : Alike small large e e') : e'.log = e.log := congrArg Face.log h.face

theorem locks (h : Alike small large e e') : e'.pool.locks = e.pool.locks :=
  congrArg Face.locks h.face

theorem changed (h : Alike small large e e') : e'.pool.changed = e.pool.changed :=
  congrArg Face.changed h.face

theorem registered' (h : Alike small large e e') : e'.catalog.Registered := by
  rw [h.catalog]
  exact h.registered

theorem next (h : Alike small large e e') (hface : e₁'.face = e₁.face)
    (hcatalog : e₁.catalog = e.catalog) (hcoherent : Coherent small e₁)
    (hcoherent' : Coherent large e₁') : Alike small large e₁ e₁' :=
  ⟨h.le, hface, hcatalog ▸ h.registered, hcoherent, hcoherent'⟩

/-! ## Reading catalog and sizes -/

theorem fileOf_bind {next : HeapFile → Action α} (h : Alike small large e e')
    (hnext : ∀ file, e.catalog.file table = .ok file →
      Lockstep small large excused answered (next file e) (next file e')) :
    Lockstep small large excused answered ((fileOf table >>= next) e)
      ((fileOf table >>= next) e') := by
  rw [bind_apply, bind_apply, fileOf_apply, fileOf_apply, h.catalog]
  cases hfile : e.catalog.file table with
  | ok file => exact hnext file hfile
  | error cause => exact .failure h

theorem pageCount_bind {next : UInt32 → Action α} (h : Alike small large e e')
    (hnext : ∀ count, file.pageCount e.disk = .ok count →
      Lockstep small large excused answered (next count e) (next count e')) :
    Lockstep small large excused answered ((Engine.pageCount file >>= next) e)
      ((Engine.pageCount file >>= next) e') := by
  rw [bind_apply, bind_apply, pageCount_apply, pageCount_apply, HeapFile.pageCount_congr h.files]
  cases hcount : file.pageCount e.disk with
  | ok count => exact hnext count hcount
  | error failure => exact .failure h

/-! ## Getting pages -/

theorem lookUp (h : Alike small large e e') (page : PageId) :
    e.lookUp page = .error (.error .bufferPoolFull) ∨ e'.lookUp page = e.lookUp page := by
  refine lookUp_congr h.face ?_
  rw [h.coherent.capacity_eq, h.coherent'.capacity_eq]
  exact h.le

/-- The page was got from both pools, and is the same. -/
structure Got (small large : Nat) (page : PageId) (frame frame' : Frame)
    (e e' : Engine) : Prop where
  same : frame'.page = frame.page
  latest : e.pool.Latest page frame
  latest' : e'.pool.Latest page frame'
  alike : Alike small large e e'

theorem getPage (h : Alike small large e e') (txn : TxnId) (page : PageId) (access : Access) :
    Lockstep small large IsFull (Got small large page) (Engine.getPage txn page access e)
      (Engine.getPage txn page access e') := by
  cases hlock : e.pool.locks.acquire? txn page access.lockMode with
  | none =>
      rw [getPage_of_refused hlock, getPage_of_refused (by rw [h.locks, hlock])]
      exact .failure h
  | some locks =>
      have hends := h.coherent.getPage_face hlock
      have hends' := h.coherent'.getPage_face (by rw [h.locks, hlock])
      simp only [h.face, h.changed] at hends'
      rcases h.lookUp page with hfull | hsame
      · simp only [hfull] at hends
        refine .of_excused (hends.mono ?_ ?_)
        · rintro frame e₁ ⟨hlookUp, -⟩
          cases hlookUp
        · rintro failure e₁ ⟨hlookUp, -⟩
          exact (Except.error.inj hlookUp).symm
      rw [hsame] at hends'
      refine .of_ends hends hends' ?_ ?_ ?_ ?_
      · rintro frame e₁ frame' e₁' ⟨hlookUp, hface, hlatest, hc⟩ ⟨hlookUp', hface', hlatest', hc'⟩
        have hpage : frame'.page = frame.page := Except.ok.inj (hlookUp'.symm.trans hlookUp)
        refine ⟨hpage, hlatest, hlatest', h.next ?_ (congrArg Face.catalog hface) hc hc'⟩
        rw [hface', hface, hpage]
      · rintro failure e₁ failure' e₁' ⟨hlookUp, hface, hc⟩ ⟨hlookUp', hface', hc'⟩
        refine .inr ⟨Except.error.inj (hlookUp'.symm.trans hlookUp), ?_⟩
        exact h.next (hface'.trans hface.symm) (congrArg Face.catalog hface) hc hc'
      · rintro frame e₁ failure' e₁' ⟨hlookUp, -⟩ ⟨hlookUp', -⟩
        cases hlookUp.symm.trans hlookUp'
      · rintro failure e₁ frame' e₁' ⟨hlookUp, -⟩ ⟨hlookUp', -⟩
        cases hlookUp.symm.trans hlookUp'

/-! ## Inserting and deleting -/

theorem change {changed : Page} (h : Got small large page frame frame' e e')
    (hbecomes : frame.page.Becomes changed) (txn : TxnId) :
    Alike small large (e.store (changed.markDirty txn)) (e'.store (changed.markDirty txn)) := by
  have halike := h.alike
  have hpeek := h.latest.peek
  have hpeek' := h.latest'.peek
  have hid : (changed.markDirty txn).id = page :=
    hbecomes.id_eq.trans (halike.coherent.id_eq hpeek)
  have hface := face_store (hid.symm ▸ h.latest)
  have hface' := face_store (hid.symm ▸ h.latest')
  refine halike.next ?_ rfl (halike.coherent.change hpeek hbecomes)
    (halike.coherent'.change hpeek' (h.same.symm ▸ hbecomes))
  rw [hface, hface', halike.face, halike.changed]

theorem insertInto (h : Got small large page frame frame' e e') (txn : TxnId) (tuple : Tuple) :
    Lockstep small large excused (fun a a' e₁ e₁' => a'.2 = a.2 ∧ Alike small large e₁ e₁')
      (HeapFile.insertInto frame txn tuple e) (HeapFile.insertInto frame' txn tuple e') := by
  simp only [HeapFile.insertInto, bind_apply, h.same]
  cases hinsert : frame.page.insert tuple with
  | error cause => exact .failure h.alike
  | ok inserted =>
      obtain ⟨record, changed⟩ := inserted
      exact .answer ⟨rfl, change h (.insert hinsert) txn⟩

theorem release (h : Alike small large e e') (txn : TxnId) (page : PageId) :
    Alike small large { e with pool := e.pool.release txn page }
      { e' with pool := e'.pool.release txn page } := by
  refine h.next ?_ rfl (h.coherent.release txn page) (h.coherent'.release txn page)
  exact congrArg (fun face : Face => { face with locks := face.locks.release txn page }) h.face

theorem insertWithin (h : Alike small large e e') (count : Nat) (next : UInt32) :
    Lockstep small large IsFull
      (fun a a' e₁ e₁' => a'.map Prod.snd = a.map Prod.snd ∧ Alike small large e₁ e₁')
      (HeapFile.insertWithin file txn tuple count next e)
      (HeapFile.insertWithin file txn tuple count next e') := by
  induction count generalizing next e e' with
  | zero => exact .answer ⟨rfl, h⟩
  | succ count ih =>
      have hheld : ∀ e, Engine.holds txn ⟨file.id, next⟩ e
          = .ok (e.pool.locks.holds txn ⟨file.id, next⟩) e := fun _ => rfl
      rw [HeapFile.insertWithin, bind_apply, bind_apply, hheld, hheld, h.locks]
      refine (h.getPage txn ⟨file.id, next⟩ .read).bind ?_
      rintro frame frame' e₁ e₁' - hgot
      rw [hgot.same]
      split
      · refine (hgot.alike.getPage txn ⟨file.id, next⟩ .write).bind ?_
        rintro frame frame' e₂ e₂' - hgot
        refine (insertInto hgot txn tuple).bind ?_
        rintro a a' e₃ e₃' - ⟨htuple, halike⟩
        exact .answer ⟨by simp [htuple], halike⟩
      · split
        · exact ih (hgot.alike.release txn ⟨file.id, next⟩) (next + 1)
        · exact ih hgot.alike (next + 1)

theorem within (h : Alike small large e e') (hfiles : e₁'.disk.files = e₁.disk.files)
    (hwithin : Within e e₁) : Within e' e₁' := by
  have hcontent : ∀ {disk disk' : Disk}, disk'.files = disk.files → ∀ name,
      disk'.content name = disk.content name := fun heq name => by
    rw [Disk.content, Disk.sparse_congr heq, Disk.content]
  intro id file hfile hfew
  rw [h.catalog] at hfile
  rw [HeapFile.wholePages, hcontent h.files] at hfew
  rw [HeapFile.wholePages, hcontent hfiles]
  exact hwithin id file hfile hfew

theorem appendPage (h : Alike small large e e') (hfile : e.catalog.file table = .ok file)
    (hwithin : Within e ((Engine.appendPage file).after e)) :
    Lockstep small large excused (fun page page' e₁ e₁' => page' = page ∧ Alike small large e₁ e₁')
      (Engine.appendPage file e) (Engine.appendPage file e') := by
  rw [Action.after, appendPage_apply] at hwithin
  rw [appendPage_apply, appendPage_apply]
  rcases except_map_eq_map (file.appendPage_congr h.files) with
    ⟨failure, happend, happend'⟩ | ⟨⟨page, disk⟩, ⟨page', disk'⟩, happend, happend', hsame⟩
  · rw [happend, happend']
    exact .failure h
  obtain ⟨rfl, hfiles⟩ := Prod.mk.inj hsame
  rw [happend] at hwithin
  rw [happend, happend']
  have hquiet : Quiet ⟨0⟩ e { e with disk } := .append hfile happend
  have hquiet' : Quiet ⟨0⟩ e' { e' with disk := disk' } :=
    .append (by rw [h.catalog, hfile]) happend'
  refine .answer ⟨rfl, h.next ?_ rfl (h.coherent.quiet h.registered hwithin hquiet)
    (h.coherent'.quiet h.registered' (h.within hfiles hwithin) hquiet')⟩
  have hface : Engine.face { e' with disk := disk' } = { e'.face with files := disk'.files } := rfl
  rw [hface, hfiles, h.face]
  rfl

theorem insertAppended (h : Alike small large e e') (hfile : e.catalog.file table = .ok file)
    (hwithin : Within e ((HeapFile.insertAppended file txn tuple).after e)) :
    Lockstep small large IsFull (fun a a' e₁ e₁' => a'.2 = a.2 ∧ Alike small large e₁ e₁')
      (HeapFile.insertAppended file txn tuple e) (HeapFile.insertAppended file txn tuple e') := by
  have hgrows : Grows ((Engine.appendPage file).after e)
      ((HeapFile.insertAppended file txn tuple).after e) := Moves.after_bind getInsert_grows e
  refine (h.appendPage hfile (hgrows.within_left hwithin)).bind ?_
  rintro page _ e₁ e₁' - ⟨rfl, halike⟩
  refine (halike.getPage txn _ .write).bind ?_
  rintro frame frame' e₂ e₂' - hgot
  exact insertInto hgot txn tuple

theorem insertBehind (h : Alike small large e e') (hfile : e.catalog.file table = .ok file)
    (retries : Nat) (hwithin : Within e ((HeapFile.insertBehind file txn tuple retries).after e)) :
    Lockstep small large IsFull (fun a a' e₁ e₁' => a'.2 = a.2 ∧ Alike small large e₁ e₁')
      (HeapFile.insertBehind file txn tuple retries e)
      (HeapFile.insertBehind file txn tuple retries e') := by
  induction retries generalizing e e' with
  | zero => exact h.insertAppended hfile hwithin
  | succ retries ih =>
      have hfirst := (insertAppended_grows_insertBehind retries e).within_left hwithin
      have happended := h.insertAppended hfile hfirst
      have hgrows : Grows e ((HeapFile.insertAppended file txn tuple).after e) :=
        insertAppended_grows.after e
      unfold Action.after at hwithin hgrows
      rw [insertBehind_succ] at hwithin
      rw [insertBehind_succ, insertBehind_succ]
      generalize HeapFile.insertAppended file txn tuple e = result at happended hwithin hgrows
      generalize HeapFile.insertAppended file txn tuple e' = result' at happended
      cases happended with
      | answer hsame => exact .answer hsame
      | excused hfull =>
          obtain rfl := hfull
          exact .excused rfl
      | @failure failure e₁ e₁' halike =>
          rcases failure with cause | cause
          case violation => exact .failure halike
          cases cause
          case pageFull =>
            refine ih halike ?_ (hgrows.within_right hwithin)
            rw [hgrows.catalog, hfile]
          all_goals exact .failure halike

theorem insertInFile (h : Alike small large e e') (hfile : e.catalog.file table = .ok file)
    (hwithin : Within e ((file.insert txn tuple).after e)) :
    Lockstep small large IsFull (fun a a' e₁ e₁' => a'.2 = a.2 ∧ Alike small large e₁ e₁')
      (file.insert txn tuple e) (file.insert txn tuple e') := by
  unfold HeapFile.insert at hwithin ⊢
  split
  · exact .failure h
  rename_i hagrees
  rw [if_neg hagrees] at hwithin
  refine h.pageCount_bind fun count hcount => ?_
  have hcounted : Engine.pageCount file e = .ok count e := by rw [pageCount_apply, hcount]
  rw [after_bind_of_ok hcounted] at hwithin
  refine (h.insertWithin count.toNat 0).bind ?_
  rintro found found' e₁ e₁' hfound ⟨hsame, halike⟩
  rw [after_bind_of_ok hfound] at hwithin
  rcases found with _ | inserted <;> rcases found' with _ | inserted'
  · have hquiet : QuietPath txn e e₁ :=
      (insertWithin_ends count.toNat 0 e).of_ok hfound
    have hgrows := hquiet.movePath.grows
    have hfile₁ : e₁.catalog.file table = .ok file := by rw [hgrows.catalog, hfile]
    exact halike.insertBehind hfile₁ HeapFile.retryBound (hgrows.within_right hwithin)
  · cases hsame
  · cases hsame
  · exact .answer ⟨Option.some.inj hsame, halike⟩

theorem insert (h : Alike small large e e') (txn : TxnId) (table : TableId) (tuple : Tuple)
    (hwithin : Within e ((Engine.insert txn table tuple).after e)) :
    Lockstep small large IsFull (fun a a' e₁ e₁' => a' = a ∧ Alike small large e₁ e₁')
      (Engine.insert txn table tuple e) (Engine.insert txn table tuple e') := by
  refine h.fileOf_bind fun file hfile => ?_
  have hfound : fileOf table e = .ok file e := by rw [fileOf_apply, hfile]
  rw [Engine.insert, after_bind_of_ok hfound] at hwithin
  have hinserted : Within e ((file.insert txn tuple).after e) := by
    refine Grows.within_left ?_ hwithin
    exact Moves.after_bind (fun _ => Moves.pure _) e
  refine (h.insertInFile hfile hinserted).bind ?_
  rintro a a' e₁ e₁' - ⟨hsame, halike⟩
  exact .answer ⟨hsame, halike⟩

theorem deleteInFile (h : Alike small large e e') (file : HeapFile) (txn : TxnId)
    (record : RecordId) :
    Lockstep small large IsFull (fun _ _ => Alike small large) (file.delete txn (some record) e)
      (file.delete txn (some record) e') := by
  unfold HeapFile.delete
  dsimp only
  split
  · exact .failure h
  refine (h.getPage txn record.page .write).bind ?_
  rintro frame frame' e₁ e₁' - hgot
  simp only [bind_apply, hgot.same]
  cases hdelete : frame.page.delete (some record) with
  | error cause => exact .failure hgot.alike
  | ok changed => exact .answer (change hgot (.delete hdelete) txn)

theorem delete (h : Alike small large e e') (txn : TxnId) (record : Option RecordId) :
    Lockstep small large IsFull (fun _ _ => Alike small large) (Engine.delete txn record e)
      (Engine.delete txn record e') := by
  cases record with
  | none => exact .failure h
  | some record =>
      refine h.fileOf_bind fun file hfile => ?_
      exact (h.deleteInFile file txn record).bind fun _ _ _ _ _ halike => .answer halike

/-! ## Writing back -/

theorem writeBack (h : Alike small large e e') (page : PageId) :
    Lockstep small large Unexcused (fun _ _ => Alike small large) (Engine.writeBack page e)
      (Engine.writeBack page e') := by
  have hsame : e'.changed? page = e.changed? page := changed?_congr h.face
  cases hchanged : e.changed? page with
  | none =>
      rw [writeBack_of_unchanged hchanged, writeBack_of_unchanged (hsame.trans hchanged)]
      exact .answer h
  | some x =>
      obtain ⟨-, txn, -, -, hdirty⟩ := exists_of_changed? hchanged
      have hends' := h.coherent'.writeBack_face h.registered' (hsame.trans hchanged) hdirty
      simp only [h.face, h.log, h.changed] at hends'
      refine .of_ends (h.coherent.writeBack_face h.registered hchanged hdirty) hends' ?_ ?_ ?_ ?_
      · rintro _ e₁ _ e₁' ⟨log, file, disk, hlog, hfile, hwrite, hface, hc⟩
          ⟨log', file', disk', hlog', hfile', hwrite', hface', hc'⟩
        rw [h.catalog] at hfile'
        obtain ⟨-, rfl⟩ := Prod.mk.inj (hlog.symm.trans hlog')
        obtain rfl := Except.ok.inj (hfile.symm.trans hfile')
        have hfiles := file.writePage_congr x h.files
        rw [hwrite, hwrite'] at hfiles
        refine h.next ?_ (congrArg Face.catalog hface) hc hc'
        rw [hface, hface', Except.ok.inj hfiles]
      · rintro _ e₁ _ e₁' ⟨cause, log, hlog, rfl, rfl⟩ ⟨cause', log', hlog', rfl, rfl⟩
        obtain ⟨hcause, rfl⟩ := Prod.mk.inj (hlog.symm.trans hlog')
        rw [Except.error.inj hcause]
        refine .inr ⟨rfl, h.next ?_ rfl (h.coherent.log log) (h.coherent'.log log)⟩
        exact congrArg (fun face : Face => { face with log }) h.face
      · rintro _ e₁ _ e₁' ⟨log, file, disk, hlog, -⟩ ⟨cause, log', hlog', -⟩
        cases hlog.symm.trans hlog'
      · rintro _ e₁ _ e₁' ⟨cause, log, hlog, -⟩ ⟨log', file, disk, hlog', -⟩
        cases hlog.symm.trans hlog'

theorem forM_writeBack (h : Alike small large e e') (pages : List PageId) :
    Lockstep small large Unexcused (fun _ _ => Alike small large) (pages.forM Engine.writeBack e)
      (pages.forM Engine.writeBack e') := by
  induction pages generalizing e e' with
  | nil => exact .answer h
  | cons page pages ih => exact (h.writeBack page).bind fun _ _ _ _ _ halike => ih halike

theorem dirtiedBy (h : Alike small large e e') (txn : TxnId) :
    e'.pool.dirtiedBy txn = e.pool.dirtiedBy txn := by
  rw [dirtiedBy_eq, dirtiedBy_eq, h.changed]

theorem flushPages (h : Alike small large e e') (txn : TxnId) :
    Lockstep small large Unexcused (fun _ _ => Alike small large) (Engine.flushPages txn e)
      (Engine.flushPages txn e') := by
  have happly : ∀ e, Engine.flushPages txn e
      = (e.pool.dirtiedBy txn).forM Engine.writeBack e := fun _ => rfl
  rw [happly, happly, h.dirtiedBy]
  exact h.forM_writeBack _

theorem flushAll (h : Alike small large e e') :
    Lockstep small large Unexcused (fun _ _ => Alike small large) (Engine.flushAll e)
      (Engine.flushAll e') := by
  rw [flushAll_apply, flushAll_apply, h.changed]
  exact h.forM_writeBack _

/-! ## Ending a transaction -/

theorem restorePages (h : Alike small large e e') (txn : TxnId) :
    Lockstep small large Unexcused (fun _ _ => Alike small large) (Engine.restorePages txn e)
      (Engine.restorePages txn e') := by
  have hends' := h.coherent'.restorePages_face h.registered' txn
  simp only [h.face, h.changed, h.dirtiedBy] at hends'
  refine .of_ends (h.coherent.restorePages_face h.registered txn) hends' ?_ ?_ ?_ ?_
  · rintro _ e₁ _ e₁' ⟨hface, hc⟩ ⟨hface', hc'⟩
    exact h.next (hface'.trans hface.symm) (congrArg Face.catalog hface) hc hc'
  · exact fun _ _ _ _ hfail => hfail.elim
  · exact fun _ _ _ _ _ hfail => hfail
  · exact fun _ _ _ _ hfail => hfail.elim

theorem letGo (h : Alike small large e e') (txn : TxnId) :
    Alike small large (e.letGo txn) (e'.letGo txn) :=
  h.next (face_letGo h.face txn) rfl (h.coherent.letGo txn) (h.coherent'.letGo txn)

theorem settle (h : Alike small large e e') (txn : TxnId) (outcome : Except Error Unit) :
    Lockstep small large Unexcused (fun _ _ => Alike small large)
      ((do releaseIfClean txn; Action.ofExcept outcome) e)
      ((do releaseIfClean txn; Action.ofExcept outcome) e') := by
  cases outcome with
  | ok _ => exact .answer (h.letGo txn)
  | error _ => exact .failure (h.letGo txn)

theorem abort (h : Alike small large e e') (txn : TxnId) :
    Lockstep small large Unexcused (fun _ _ => Alike small large) (Engine.abort txn e)
      (Engine.abort txn e') := by
  refine (h.restorePages txn).attempt.bind ?_
  rintro outcome _ e₁ e₁' - ⟨rfl, halike⟩
  exact halike.settle txn _

theorem commit (h : Alike small large e e') (txn : TxnId) :
    Lockstep small large Unexcused (fun _ _ => Alike small large) (Engine.commit txn e)
      (Engine.commit txn e') := by
  refine (h.flushPages txn).attempt.bind ?_
  rintro outcome _ e₁ e₁' - ⟨rfl, halike⟩
  split
  · exact halike.settle txn _
  · refine (halike.restorePages txn).attempt.bind ?_
    rintro _ _ e₂ e₂' - ⟨-, halike⟩
    exact halike.settle txn _

theorem discard (h : Alike small large e e') (page : PageId) :
    Alike small large { e with pool := e.pool.discard page }
      { e' with pool := e'.pool.discard page } := by
  refine h.next ?_ rfl (h.coherent.discard page) (h.coherent'.discard page)
  rw [face_discard, face_discard, h.face, h.changed]

end Alike

end HeapStore
