import HeapStore.Proofs.Outcomes
import Mathlib.Data.List.Basic

/-!
# Commits that fail

A commit writes one page after the other, each as soon as the log has taken
its record. When the log refuses, the pages that follow are rolled back, but
those before are written already (`LogSink.accepted`), and stay written. So a
failed commit leaves the files alone exactly if the pages that the log
accepted hold what the files held before
(`commit_error_leaves_files_iff`).
-/

namespace HeapStore

open HeapStore.Action Engine

/-- The pages changed by a transaction, least recently used first. -/
def Pool.changesOf (pool : Pool) (txn : TxnId) : List Page :=
  (pool.dirtiedBy txn).filterMap fun page => (pool.cache.peek page).map Frame.page

/-- The pages whose records the log takes before it refuses the first one. -/
def LogSink.accepted (txn : TxnId) : LogSink → List Page → List Page
  | _, [] => []
  | log, page :: pages =>
    match log.accept? (recordOf txn page) with
    | some log => page :: log.accepted txn pages
    | none => []

variable {capacity : Nat} {e e₁ e' : Engine} {txn : TxnId} {page : PageId} {frame : Frame}

/-! ## What the log decides -/

theorem WritesBack.accept?_eq (hwrites : WritesBack page e e')
    (hpeek : e.pool.cache.peek page = some frame) (hdirty : frame.page.dirtier = some txn) :
    e.log.accept? (recordOf txn frame.page) = some e'.log := by
  cases hwrites with
  | clean hclean =>
      rw [hclean frame hpeek] at hdirty
      cases hdirty
  | dirty hpeek' hdirty' _ hlog _ =>
      obtain rfl := Option.some.inj (hpeek.symm.trans hpeek')
      obtain rfl := Option.some.inj (hdirty.symm.trans hdirty')
      exact hlog

/-- The pages that are written are those that the log accepts. -/
theorem Action.Through.accepted_eq {written : List PageId} {rest : List Page}
    (hreg : e.catalog.Registered) (h : Coherent capacity e) (hnodup : written.Nodup)
    (hdirtied : e.Dirtied txn written) (hwritten : Through WritesBack written e e') :
    e.log.accepted txn
        ((written.filterMap fun page => (e.pool.cache.peek page).map Frame.page) ++ rest)
      = (written.filterMap fun page => (e.pool.cache.peek page).map Frame.page)
        ++ e'.log.accepted txn rest := by
  refine hwritten.writes_induction (motive := fun written e e' => e.log.accepted txn
    ((written.filterMap fun page => (e.pool.cache.peek page).map Frame.page) ++ rest)
      = (written.filterMap fun page => (e.pool.cache.peek page).map Frame.page)
        ++ e'.log.accepted txn rest) ?_ ?_ hreg h hnodup hdirtied
  · exact fun _ => rfl
  · intro page pages e e₁ e₂ frame _ _ hpeek hdirty _ hstep _ hothers ih
    have hsame : (pages.filterMap fun page => (e₁.pool.cache.peek page).map Frame.page)
        = pages.filterMap fun page => (e.pool.cache.peek page).map Frame.page :=
      List.filterMap_congr fun p hp => by rw [hothers p hp]
    rw [hsame] at ih
    rw [List.filterMap_cons_some (by rw [hpeek]; rfl), List.cons_append, List.cons_append,
      LogSink.accepted, hstep.accept?_eq hpeek hdirty]
    exact congrArg (frame.page :: ·) ih

/-- In a coherent engine a page that cannot be written is refused by the
log. -/
theorem accepted_of_stuck {pages : List Page} (h : Coherent capacity e)
    (hpeek : e.pool.cache.peek page = some frame) (hdirty : frame.page.dirtier = some txn)
    (hstuck : ∀ e', ¬WritesBack page e e') : e.log.accepted txn (frame.page :: pages) = [] := by
  rw [LogSink.accepted]
  split
  · rename_i log hlog
    obtain ⟨e', hwrites⟩ := exists_writesBack h hpeek hdirty hlog
    exact absurd hwrites (hstuck e')
  · rfl

/-! ## What is left in the files -/

theorem Bytes.writeAt_slice {data : Bytes} {offset count : Nat}
    (hfits : offset + count ≤ data.length) :
    writeAt data offset (slice data offset count) = data := by
  have hlength : (slice data offset count).length = count := by
    rw [length_slice]
    omega
  have hzeros : zeros (offset - data.length) = [] := by
    rw [show offset - data.length = 0 by omega]
    rfl
  rw [writeAt, hlength, hzeros, List.append_nil, slice, List.append_assoc, ← List.drop_drop,
    List.take_append_drop, List.take_append_drop]

/-- A page that holds what the file holds may be written without a trace. -/
theorem WritesBack.content_eq (h : Coherent capacity e)
    (hpeek : e.pool.cache.peek page = some frame)
    (hsame : frame.page.data = frame.page.beforeData) (hwrites : WritesBack page e e')
    (name : String) : e'.disk.content name = e.disk.content name := by
  cases hwrites with
  | clean _ => rfl
  | dirty hpeek' hdirty hfile hlog hwrite =>
      rename_i frame' txn file log disk
      obtain rfl := Option.some.inj (hpeek.symm.trans hpeek')
      obtain ⟨file', hfile', hhas, -, hbytes⟩ := h.stored_file hpeek
      rw [h.id_eq hpeek] at hfile
      obtain rfl := Except.ok.inj (hfile.symm.trans hfile')
      by_cases hname : name = file.handle.name
      · have hcontent := Disk.content_writePage hwrite
        rw [h.id_eq hpeek, hsame, ← hbytes] at hcontent
        rw [hname]
        exact hcontent.trans (Bytes.writeAt_slice hhas.fits)
      · exact Disk.content_writePage_of_ne hwrite hname

theorem Action.Through.content_eq {written : List PageId} (hreg : e.catalog.Registered)
    (h : Coherent capacity e) (hnodup : written.Nodup) (hdirtied : e.Dirtied txn written)
    (hwritten : Through WritesBack written e e')
    (hsame : ∀ page ∈ written, ∀ frame, e.pool.cache.peek page = some frame →
      frame.page.data = frame.page.beforeData) (name : String) :
    e'.disk.content name = e.disk.content name := by
  revert hsame
  refine hwritten.writes_induction (motive := fun written e e' =>
    (∀ page ∈ written, ∀ frame, e.pool.cache.peek page = some frame →
      frame.page.data = frame.page.beforeData) →
        e'.disk.content name = e.disk.content name) ?_ ?_ hreg h hnodup hdirtied
  · exact fun _ _ => rfl
  · intro page pages e e₁ e₂ frame _ h hpeek _ _ hstep _ hothers ih hsame
    rw [ih fun p hp frame' hframe' => ?_]
    · exact hstep.content_eq h hpeek (hsame page List.mem_cons_self frame hpeek) name
    · rw [hothers p hp] at hframe'
      exact hsame p (List.mem_cons_of_mem _ hp) frame' hframe'

theorem mem_changesOf {pages : List PageId} {x : Page} :
    x ∈ (pages.filterMap fun page => (e.pool.cache.peek page).map Frame.page)
      ↔ ∃ page ∈ pages, ∃ frame, e.pool.cache.peek page = some frame ∧ frame.page = x := by
  simp only [List.mem_filterMap, Option.map_eq_some_iff]

/-- A commit that fails has written the pages that the log accepted, not
all of them, and touched no other file content. -/
theorem commit_error (hreg : e.catalog.Registered) (h : Coherent capacity e) {failure : Failure}
    (hcommit : Engine.commit txn e = .error failure e') :
    ∃ written page rest e₁, e.pool.dirtiedBy txn = written ++ page :: rest ∧
      Through WritesBack written e e₁ ∧
      (∀ name, e'.disk.content name = e₁.disk.content name) ∧
      e.log.accepted txn (e.pool.changesOf txn)
        = written.filterMap fun page => (e.pool.cache.peek page).map Frame.page := by
  obtain ⟨page, rest, e₁, log, ⟨written, hpages, hwritten⟩, hstuck, hend⟩ :=
    (commit_ends txn e).of_error hcommit
  obtain ⟨hnodup, hnot, hdirtied, frame, hpeek, hdirty⟩ := dirtiedBy_split hpages
  obtain ⟨h₁, hwrote⟩ := hwritten.wrote hreg h hnodup hdirtied
  refine ⟨written, page, rest, e₁, hpages, hwritten, fun name => ?_, ?_⟩
  · rcases hend with rfl | ⟨unrestored, e₂, ⟨restored, -, hrestored⟩, rfl | rfl⟩
    · rfl
    · exact hrestored.restored.content name
    · exact hrestored.restored.content name
  · have hpeek₁ : e₁.pool.cache.peek page = some frame := by
      rw [hwrote.peek_of_not_mem page hnot, hpeek]
    rw [Pool.changesOf, hpages, List.filterMap_append,
      hwritten.accepted_eq hreg h hnodup hdirtied, List.filterMap_cons_some (by rw [hpeek]; rfl),
      accepted_of_stuck h₁ hpeek₁ hdirty hstuck, List.append_nil]

/-- In every state that calls on an empty pool lead to: a commit that fails
has written exactly the changed pages that the log accepted, not all of
them, and it has left the files as they were if and only if each of these
holds the bytes that it had before the changes. -/
theorem commit_error_leaves_files_iff {start : Engine} (hreg : start.catalog.Registered)
    (hstart : start.pool = .empty capacity) (calls : List Call)
    (hwithin : Within start (Call.afterAll calls start)) {failure : Failure}
    (he : e = Call.afterAll calls start)
    (hcommit : Engine.commit txn e = .error failure e') :
    (e.log.accepted txn (e.pool.changesOf txn)).length < (e.pool.changesOf txn).length ∧
    (∀ page ∈ e.log.accepted txn (e.pool.changesOf txn),
      e'.stored? page.id = some page.markClean) ∧
    (∀ id, (∀ page ∈ e.log.accepted txn (e.pool.changesOf txn), page.id ≠ id) →
      e'.stored? id = e.stored? id) ∧
    ((∀ name, e'.disk.content name = e.disk.content name)
      ↔ ∀ page ∈ e.log.accepted txn (e.pool.changesOf txn), page.data = page.beforeData) := by
  have h : Coherent capacity e := he ▸ (Coherent.of_empty hstart).run hreg calls hwithin
  have hreg : e.catalog.Registered := by
    rw [he, (Call.grows_all calls start).catalog]
    exact hreg
  have hcatalog : e'.catalog = e.catalog :=
    (MovePath.grows ((commit_moves txn e).of_error hcommit)).catalog
  obtain ⟨written, page, rest, e₁, hpages, hwritten, hcontent, haccepted⟩ :=
    commit_error hreg h hcommit
  obtain ⟨hnodup, -, hdirtied, stuck, hstuck, -⟩ := dirtiedBy_split hpages
  obtain ⟨-, hwrote⟩ := hwritten.wrote hreg h hnodup hdirtied
  have hstored : ∀ p, e'.stored? p = e₁.stored? p := fun p => by
    refine stored?_congr ?_ hcontent
    rw [hcatalog, (Through.writesBack_movePath hwritten).grows.catalog]
  have hpage : ∀ x ∈ written.filterMap fun p => (e.pool.cache.peek p).map Frame.page,
      e'.stored? x.id = some x.markClean ∧ e.stored? x.id = some x.beforePage := by
    intro x hx
    obtain ⟨p, hp, frame, hpeek, rfl⟩ := mem_changesOf.1 hx
    rw [h.id_eq hpeek, hstored]
    exact ⟨hwrote.stored_of_mem p hp frame hpeek, (h.mirrors p frame hpeek).stored⟩
  rw [haccepted]
  refine ⟨?_, fun x hx => (hpage x hx).1, ?_, ?_⟩
  · rw [Pool.changesOf, hpages, List.filterMap_append, List.length_append,
      List.filterMap_cons_some (by rw [hstuck]; rfl), List.length_cons]
    omega
  · intro id hid
    rw [hstored]
    refine hwrote.stored_of_not_mem id fun hmem => ?_
    obtain ⟨frame, hpeek, -⟩ := hdirtied id hmem
    exact hid frame.page (mem_changesOf.2 ⟨id, hmem, frame, hpeek, rfl⟩) (h.id_eq hpeek)
  · constructor
    · intro hsame x hx
      obtain ⟨hafter, hbefore⟩ := hpage x hx
      rw [stored?_congr hcatalog hsame, hbefore, Option.some.injEq] at hafter
      exact (congrArg Page.data hafter).symm
    · intro hsame name
      rw [hcontent]
      refine hwritten.content_eq hreg h hnodup hdirtied ?_ name
      intro p hp frame hpeek
      exact hsame frame.page (mem_changesOf.2 ⟨p, hp, frame, hpeek, rfl⟩)

/-! ## Two pages and one force -/

/-- An engine after one transaction has inserted into both of its tables. The
log will refuse to be forced a second time. -/
def Engine.twoRows : Engine :=
  Call.afterAll [.insert ⟨1⟩ ⟨0⟩ (.single 7), .insert ⟨1⟩ ⟨1⟩ (.single 8)]
    (.twoTables 4 ⟨fun _ => false, fun call => call = 2⟩)

theorem within_twoRows :
    Within (.twoTables 4 ⟨fun _ => false, fun call => call = 2⟩) .twoRows := by
  intro id file hfile _
  rcases file_twoTables hfile with ⟨rfl, rfl⟩ | ⟨rfl, rfl⟩ <;> decide +kernel

theorem commit_error_leaves_files_iff_twoRows :
    ∃ failure e', Engine.commit ⟨1⟩ .twoRows = .error failure e' ∧
      ¬∀ name, e'.disk.content name = Engine.twoRows.disk.content name := by
  have hfails : (match Engine.commit ⟨1⟩ .twoRows with
      | .ok _ _ => false
      | .error _ _ => true) = true := by decide +kernel
  have hchanged : ¬∀ page ∈ Engine.twoRows.log.accepted ⟨1⟩ (Engine.twoRows.pool.changesOf ⟨1⟩),
      page.data = page.beforeData := by decide +kernel
  cases hcommit : Engine.commit ⟨1⟩ .twoRows with
  | ok answer e' =>
      rw [hcommit] at hfails
      cases hfails
  | error failure e' =>
      refine ⟨failure, e', rfl, fun hsame => hchanged ?_⟩
      exact (commit_error_leaves_files_iff (registered_twoTables 4 _) rfl _ within_twoRows rfl
        hcommit).2.2.2.1 hsame

/-- A commit that fails may leave a page written. -/
theorem commit_error_may_leave_page :
    ¬∀ (start e e' : Engine) (calls : List Call) (txn : TxnId) (failure : Failure),
      start.catalog.Registered → start.pool = .empty 4 → e = Call.afterAll calls start →
      Engine.commit txn e = .error failure e' →
      ∀ name, e'.disk.content name = e.disk.content name := by
  intro hclaim
  have hfails : (match Engine.commit ⟨1⟩ .twoRows with
      | .ok _ _ => false
      | .error _ e' => e'.disk.content "a" = [1, 7, 0, 0, 0, 0, 0, 0, 0] ∧
          Engine.twoRows.disk.content "a" = Bytes.zeros 9) = true := by decide +kernel
  cases hcommit : Engine.commit ⟨1⟩ .twoRows with
  | ok answer e' =>
      rw [hcommit] at hfails
      cases hfails
  | error failure e' =>
      simp only [hcommit, decide_eq_true_eq] at hfails
      obtain ⟨hafter, hbefore⟩ := hfails
      have hsame := hclaim _ .twoRows e' _ _ failure (registered_twoTables 4 _) rfl rfl hcommit "a"
      rw [hafter, hbefore] at hsame
      exact absurd hsame (by decide)

end HeapStore
