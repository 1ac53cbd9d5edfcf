import HeapStore.Proofs.Endings
import HeapStore.Proofs.History
import HeapStore.Proofs.LockDiscipline

/-!
# Files, pool and history

The files hold what has been committed, and nothing else. Between two calls
this is the simulation `Tracks`: the rows in the files are those of the
history, and a changed page in the pool is ahead of its file by the pending
changes of its owner.

Quiet moves change neither rows nor changed pages (`Quiet.rows_eq`,
`Quiet.peek_dirty`). A change puts a page of the pool one change further
ahead (`Tracks.change`), a commit lets the files catch up
(`Tracks.commit`), and an abort takes the pages back (`Tracks.abort`).

Headline: `Tracks.run`.
-/

namespace HeapStore

open HeapStore.Action Engine

/-! ## Logs that never refuse -/

/-- A log that takes every record and is forced every time, now and after
whatever is asked of it. -/
def LogSink.Reliable (log : LogSink) : Prop :=
  ∃ works : LogSink → Prop, works log ∧ ∀ log, works log →
    (∀ record, (log.write record).1 = .ok () ∧ works (log.write record).2) ∧
      log.force.1 = .ok () ∧ works log.force.2

theorem LogSink.Reliable.accept? {log : LogSink} (h : log.Reliable) (record : LogRecord) :
    ∃ log', log.accept? record = some log' ∧ log'.Reliable := by
  obtain ⟨works, hworks, hstep⟩ := h
  obtain ⟨hwrite, hwritten⟩ := (hstep log hworks).1 record
  obtain ⟨-, hforce, hforced⟩ := hstep _ hwritten
  rcases hw : log.write record with ⟨answer, log₁⟩
  rw [hw] at hwrite hforce hforced
  rcases hf : log₁.force with ⟨answer', log₂⟩
  rw [hf] at hforce hforced
  obtain rfl : answer = .ok () := hwrite
  obtain rfl : answer' = .ok () := hforce
  exact ⟨log₂, by simp [LogSink.accept?, hw, hf], works, hforced, hstep⟩

theorem LogSink.reliable_memory : (LogSink.memory (.empty .none)).Reliable := by
  refine ⟨fun log => ∃ memory, log = .memory memory ∧ memory.refusals = .none,
    ⟨_, rfl, rfl⟩, ?_⟩
  rintro _ ⟨memory, rfl, hrefusals⟩
  refine ⟨fun record => ⟨?_, ?_⟩, ?_, ?_⟩
  · simp [LogSink.write, MemoryLog.write, hrefusals, Refusals.none]
  · refine ⟨(memory.write record).2, rfl, ?_⟩
    simp [MemoryLog.write, hrefusals, Refusals.none]
  · simp [LogSink.force, MemoryLog.force, hrefusals, Refusals.none]
  · refine ⟨memory.force.2, rfl, ?_⟩
    simp [MemoryLog.force, hrefusals, Refusals.none]

/-! ## Quiet moves -/

section

variable {txn : TxnId} {page : PageId} {frame : Frame} {e e₁ e' : Engine}

/-- A clean page that leaves takes no page with changes along. -/
theorem peek_dirty_discard {p : PageId} {dropped : Frame}
    (hpeek : e.pool.cache.peek p = some dropped) (hclean : dropped.page.isDirty = false)
    (hdirty : frame.page.dirtier ≠ none) :
    (e.pool.discard p).cache.peek page = some frame ↔ e.pool.cache.peek page = some frame := by
  simp only [Pool.discard, Recency.peek_remove]
  split
  · rename_i hp
    subst hp
    constructor
    · intro hnone
      cases hnone
    · intro hpeek'
      obtain rfl := Option.some.inj (hpeek.symm.trans hpeek')
      rw [Page.isDirty, Option.isSome_eq_false_iff, Option.isNone_iff_eq_none] at hclean
      exact absurd hclean hdirty
  · exact Iff.rfl

theorem MakesRoom.peek_dirty (hroom : MakesRoom e e₁) (hdirty : frame.page.dirtier ≠ none) :
    e₁.pool.cache.peek page = some frame ↔ e.pool.cache.peek page = some frame := by
  cases hroom with
  | spare _ => exact Iff.rfl
  | evict _ hvictim =>
      obtain ⟨victim, hpeek, hclean⟩ := peek_of_victim? hvictim
      exact peek_dirty_discard hpeek hclean hdirty

/-- A page that comes from its file was not in the pool, and is clean. -/
theorem peek_dirty_install {file : HeapFile} {p : PageId} {disk disk' : Disk} {loaded : Page}
    (habsent : e.pool.cache.peek p = none) (hread : file.readPage disk p = .ok (loaded, disk'))
    (hdirty : frame.page.dirtier ≠ none) :
    (e.pool.install loaded).2.cache.peek page = some frame
      ↔ e.pool.cache.peek page = some frame := by
  obtain ⟨data, rfl, -⟩ := HeapFile.eq_ofBytes_of_readPage hread
  simp only [Pool.install, Recency.peek_put]
  split
  · rename_i hp
    obtain rfl : p = page := hp
    rw [habsent]
    constructor
    · intro hpeek
      cases hpeek
      exact absurd rfl hdirty
    · intro hnone
      cases hnone
  · exact Iff.rfl

theorem peek_use {p : PageId} {used : Frame} (hpeek : e.pool.cache.peek p = some used) :
    (e.pool.cache.put p used).peek page = e.pool.cache.peek page := by
  rw [Recency.peek_put]
  split
  · rename_i hp
    rw [← hp, hpeek]
  · rfl

theorem Fetches.peek_dirty {p : PageId} {mode : LockMode} {fetched : Frame}
    (hfetch : Fetches txn p mode e fetched e₁) (hdirty : frame.page.dirtier ≠ none) :
    e₁.pool.cache.peek page = some frame ↔ e.pool.cache.peek page = some frame := by
  cases hfetch with
  | hit _ hpeek => rw [peek_use hpeek]
  | miss _ habsent _ hroom hread =>
      rw [peek_dirty_install (hroom.peek_eq_none habsent) hread hdirty]
      exact hroom.peek_dirty hdirty

/-- Quiet moves neither change nor drop pages with changes. -/
theorem Quiet.peek_dirty (hmove : Quiet txn e e') (hdirty : frame.page.dirtier ≠ none) :
    e'.pool.cache.peek page = some frame ↔ e.pool.cache.peek page = some frame := by
  cases hmove with
  | lock _ => exact Iff.rfl
  | use _ hpeek => rw [peek_use hpeek]
  | drop hpeek hclean => exact peek_dirty_discard hpeek hclean hdirty
  | load habsent _ hroom hread =>
      rw [peek_dirty_install (hroom.peek_eq_none habsent) hread hdirty]
      exact hroom.peek_dirty hdirty
  | append _ _ => exact Iff.rfl
  | giveBack _ hfetch => exact hfetch.peek_dirty hdirty

theorem rows_congr (hcatalog : e'.catalog = e.catalog)
    (hcontent : ∀ name, e'.disk.content name = e.disk.content name) : e'.rows = e.rows := by
  funext record
  rw [Engine.rows, stored?_congr hcatalog hcontent, Engine.rows]

/-- Quiet moves leave the rows: a page that is appended has none. -/
theorem Quiet.rows_eq (hreg : e.catalog.Registered) (hwithin : Within e e')
    (hmove : Quiet txn e e') : e'.rows = e.rows := by
  cases hmove with
  | lock _ => rfl
  | use _ _ => rfl
  | drop _ _ => rfl
  | load _ _ hroom hread =>
      refine rows_congr hroom.catalog_eq fun name => ?_
      rw [HeapFile.content_readPage hread, hroom.disk_eq]
  | append hfile happend =>
      funext record
      rw [Engine.rows, Engine.rows]
      rcases stored?_append hreg hfile happend (hwithin _ _ hfile) record.page with
        hsame | ⟨hnone, hblank⟩
      · rw [hsame]
      · rw [hnone, hblank]
        exact Page.slot?_zeros _ _ _ _
  | giveBack _ hfetch => exact rows_congr hfetch.catalog_eq hfetch.content_eq

end

/-! ## The simulation -/

/-- The files hold what is committed, and a changed page in the pool is ahead
by the pending changes of its owner. -/
structure Tracks (base : Rows) (e : Engine) (history : History) : Prop where
  rows : e.rows = base.replay history.committed
  placed : ∀ txn, ∀ change ∈ history.pending txn, ∃ frame,
    e.pool.cache.peek change.record.page = some frame ∧ frame.page.dirtier = some txn
  ahead : ∀ page frame txn, e.pool.cache.peek page = some frame →
    frame.page.dirtier = some txn →
    ∀ slot, frame.page.slot? slot = e.rows.replay (history.pending txn) ⟨page, slot⟩

/-- What the simulation rests on: registered files with pages of up to 2¹⁶
slots, a pool that mirrors them under proper locks, and a reliable log. -/
structure Sound (capacity : Nat) (e : Engine) : Prop where
  registered : e.catalog.Registered
  slots : ∀ id file, e.catalog.file id = .ok file →
    Page.slotsPerPage file.pageSize file.schema ≤ UInt16.size
  coherent : Coherent capacity e
  guarded : Guarded e
  reliable : e.log.Reliable

namespace Tracks

variable {base : Rows} {history : History} {capacity : Nat} {txn : TxnId} {page : PageId}
  {frame : Frame} {e e₁ e' : Engine}

theorem of_empty (h : e.pool = .empty capacity) : Tracks e.rows e .empty := by
  refine ⟨rfl, nofun, fun page frame txn hpeek => ?_⟩
  rw [h, Pool.peek_empty] at hpeek
  cases hpeek

/-- Locks, log and clean pages play no part. -/
theorem of_peek (h : Tracks base e history) (hrows : e'.rows = e.rows)
    (hpeek : ∀ page frame, frame.page.dirtier ≠ none →
      (e'.pool.cache.peek page = some frame ↔ e.pool.cache.peek page = some frame)) :
    Tracks base e' history := by
  constructor
  · rw [hrows, h.rows]
  · intro txn change hchange
    obtain ⟨frame, hframe, hdirty⟩ := h.placed txn change hchange
    have hne : frame.page.dirtier ≠ none := by
      rw [hdirty]
      nofun
    exact ⟨frame, (hpeek _ _ hne).2 hframe, hdirty⟩
  · intro page frame txn hframe hdirty slot
    have hne : frame.page.dirtier ≠ none := by
      rw [hdirty]
      nofun
    rw [hrows]
    exact h.ahead page frame txn ((hpeek _ _ hne).1 hframe) hdirty slot

theorem quietPath (hreg : e.catalog.Registered) (hwithin : Within e e')
    (h : Tracks base e history) (hpath : QuietPath txn e e') : Tracks base e' history := by
  induction hpath with
  | refl => exact h
  | tail hpath hmove ih =>
      have hgrows := MovePath.grows (QuietPath.movePath hpath)
      have hmid := ih (hmove.grows.within_left hwithin)
      refine hmid.of_peek ?_ fun _ _ hdirty => hmove.peek_dirty hdirty
      refine hmove.rows_eq ?_ (hgrows.within_right hwithin)
      rw [hgrows.catalog]
      exact hreg

/-- A page is ahead of its file by the pending changes of whoever owns it. -/
theorem slot?_of_owns (hsound : Sound capacity e) (h : Tracks base e history)
    (hpeek : e.pool.cache.peek page = some frame) (howns : e.pool.locks.Owns txn page)
    (slot : UInt16) :
    frame.page.slot? slot = e.rows.replay (history.pending txn) ⟨page, slot⟩ := by
  cases hdirty : frame.page.dirtier with
  | some writer =>
      have hgrants := howns.symm.trans (hsound.guarded.owned page frame writer hpeek hdirty)
      cases hgrants
      exact h.ahead page frame txn hpeek hdirty slot
  | none =>
      have hm := hsound.coherent.mirrors page frame hpeek
      have hrow : e.rows ⟨page, slot⟩ = frame.page.slot? slot := by
        rw [Engine.rows, hm.stored_of_clean hdirty]
        rfl
      rw [Rows.replay_of_not_mem, hrow]
      intro change hchange hrecord
      obtain ⟨frame', hpeek', hdirty'⟩ := h.placed txn change hchange
      rw [hrecord] at hpeek'
      obtain rfl := Option.some.inj (hpeek.symm.trans hpeek')
      rw [hdirty] at hdirty'
      cases hdirty'

/-- The owner of a page changes one of its slots. -/
theorem change {changed : Page} {change : Change} (hsound : Sound capacity e)
    (h : Tracks base e history) (hpeek : e.pool.cache.peek page = some frame)
    (howns : e.pool.locks.Owns txn page) (hid : changed.id = frame.page.id)
    (hpage : change.record.page = page)
    (hslots : ∀ slot, changed.slot? slot
      = if slot = change.record.slot then change.value else frame.page.slot? slot) :
    Tracks base (e.store (changed.markDirty txn)) (history.add txn change) := by
  have hkey : (changed.markDirty txn).id = page :=
    hid.trans (hsound.guarded.keyed page frame hpeek)
  have hcache : ∀ p, (e.store (changed.markDirty txn)).pool.cache.peek p
      = if page = p then (e.pool.cache.peek p).map fun frame =>
          { frame with page := changed.markDirty txn } else e.pool.cache.peek p := by
    intro p
    rw [Engine.store, Pool.store, Recency.peek_modify, hkey]
  have hrows : (e.store (changed.markDirty txn)).rows = e.rows := rfl
  constructor
  · exact hrows.trans h.rows
  · intro t c hc
    have hold : c = change ∧ t = txn ∨ c ∈ history.pending t := by
      simp only [History.add] at hc
      split at hc
      · rename_i ht
        rcases List.mem_append.1 hc with hc | hc
        · exact .inr hc
        · exact .inl ⟨List.mem_singleton.1 hc, ht⟩
      · exact .inr hc
    rw [hcache]
    rcases hold with ⟨rfl, rfl⟩ | hc
    · rw [if_pos hpage.symm, hpage, hpeek]
      exact ⟨_, rfl, rfl⟩
    · obtain ⟨frame', hpeek', hdirty'⟩ := h.placed t c hc
      split
      · rename_i hp
        rw [← hp] at hpeek' ⊢
        have howns' := hsound.guarded.owned page frame' t hpeek' hdirty'
        cases howns.symm.trans howns'
        rw [hpeek']
        exact ⟨_, rfl, rfl⟩
      · exact ⟨frame', hpeek', hdirty'⟩
  · intro p frame' t hpeek' hdirty' slot
    rw [hrows]
    rw [hcache] at hpeek'
    split at hpeek'
    · rename_i hp
      subst hp
      rw [hpeek] at hpeek'
      cases hpeek'
      obtain rfl : txn = t := Option.some.inj hdirty'
      simp only [History.add, if_true, Rows.replay_concat, Rows.apply]
      rw [Page.slot?_markDirty, hslots]
      by_cases hslot : slot = change.record.slot
      · have hrecord : (⟨page, slot⟩ : RecordId) = change.record := by
          rw [hslot, ← hpage]
        rw [if_pos hslot, if_pos hrecord]
      · have hrecord : (⟨page, slot⟩ : RecordId) ≠ change.record := fun heq =>
          hslot (congrArg RecordId.slot heq)
        rw [if_neg hslot, if_neg hrecord]
        exact h.slot?_of_owns hsound hpeek howns slot
    · rename_i hp
      have hahead := h.ahead p frame' t hpeek' hdirty' slot
      simp only [History.add]
      split
      · have hrecord : (⟨p, slot⟩ : RecordId) ≠ change.record := fun heq =>
          hp (hpage.symm.trans (congrArg RecordId.page heq).symm)
        rw [Rows.replay_concat, Rows.apply, if_neg hrecord, hahead]
      · exact hahead

/-- The end of a transaction: its pages are clean then, and those of the
others are as they were, in the pool and in the files. -/
theorem settle {committed : List Change} (h : Tracks base e history)
    (hrows : e'.rows = base.replay committed)
    (hothers : ∀ record, record.page ∉ e.pool.dirtiedBy txn → e'.rows record = e.rows record)
    (hclean : ∀ page ∈ e.pool.dirtiedBy txn, ∀ frame, e'.pool.cache.peek page = some frame →
      frame.page.dirtier = none)
    (hpeek : ∀ page, page ∉ e.pool.dirtiedBy txn →
      e'.pool.cache.peek page = e.pool.cache.peek page) :
    Tracks base e' { history.drop txn with committed } := by
  refine ⟨hrows, ?_, ?_⟩
  · intro t change hchange
    simp only [History.drop] at hchange
    split at hchange
    · cases hchange
    · rename_i ht
      obtain ⟨frame, hframe, hdirty⟩ := h.placed t change hchange
      refine ⟨frame, ?_, hdirty⟩
      rw [hpeek, hframe]
      intro hmem
      obtain ⟨frame', hframe', hdirty'⟩ := mem_dirtiedBy.1 hmem
      obtain rfl := Option.some.inj (hframe.symm.trans hframe')
      exact ht (Option.some.inj (hdirty.symm.trans hdirty'))
  · intro p frame t hframe hdirty slot
    have hnot : p ∉ e.pool.dirtiedBy txn := by
      intro hmem
      rw [hclean p hmem frame hframe] at hdirty
      cases hdirty
    rw [hpeek p hnot] at hframe
    have ht : t ≠ txn := fun heq => hnot (mem_dirtiedBy.2 ⟨frame, hframe, heq ▸ hdirty⟩)
    simp only [History.drop, if_neg ht]
    rw [Rows.replay_congr (hothers ⟨p, slot⟩ hnot)]
    exact h.ahead p frame t hframe hdirty slot

theorem cache_letGo (e : Engine) (txn : TxnId) : (e.letGo txn).pool.cache = e.pool.cache := by
  unfold letGo
  split <;> rfl

theorem rows_letGo (e : Engine) (txn : TxnId) : (e.letGo txn).rows = e.rows := rfl

/-- The files catch up with the pages of a transaction. -/
theorem commit (hreg : e.catalog.Registered) (hcoherent : Coherent capacity e)
    (h : Tracks base e history) (hwrites : WritesUpTo txn [] e e₁) :
    Tracks base (e₁.letGo txn) (history.commit txn) := by
  obtain ⟨written, hpages, hwritten⟩ := hwrites
  rw [List.append_nil] at hpages
  subst hpages
  obtain ⟨-, hwrote⟩ := hwritten.wrote hreg hcoherent (nodup_dirtiedBy _ _)
    (dirtied_dirtiedBy e txn)
  have hothers : ∀ record : RecordId, record.page ∉ e.pool.dirtiedBy txn →
      e₁.rows record = e.rows record := by
    intro record hnot
    rw [Engine.rows, hwrote.stored_of_not_mem _ hnot, Engine.rows]
  have hrows : e₁.rows = e.rows.replay (history.pending txn) := by
    funext record
    by_cases hmem : record.page ∈ e.pool.dirtiedBy txn
    · obtain ⟨frame, hpeek, hdirty⟩ := mem_dirtiedBy.1 hmem
      rw [Engine.rows, hwrote.stored_of_mem _ hmem frame hpeek]
      exact h.ahead _ frame txn hpeek hdirty record.slot
    · rw [hothers record hmem, Rows.replay_of_not_mem]
      rintro change hchange rfl
      exact hmem (mem_dirtiedBy.2 (h.placed txn change hchange))
  refine h.settle ?_ hothers ?_ ?_
  · rw [rows_letGo, hrows, h.rows, Rows.replay_append]
  · intro p hmem frame hpeek
    obtain ⟨old, hold, -⟩ := mem_dirtiedBy.1 hmem
    rw [cache_letGo, hwrote.peek_of_mem p hmem old hold] at hpeek
    cases hpeek
    rfl
  · intro p hnot
    rw [cache_letGo, hwrote.peek_of_not_mem p hnot]

/-- The pages of a transaction are taken back. -/
theorem abort (hcoherent : Coherent capacity e) (h : Tracks base e history)
    (hrestores : RestoresUpTo txn [] e e₁) :
    Tracks base (e₁.letGo txn) (history.drop txn) := by
  obtain ⟨restored, hpages, hrestored⟩ := hrestores
  rw [List.append_nil] at hpages
  subst hpages
  have hback := hrestored.restored
  have hrows : e₁.rows = e.rows := rows_congr hback.catalog hback.content
  refine h.settle ?_ ?_ ?_ ?_
  · rw [rows_letGo, hrows, h.rows]
  · intro record _
    rw [rows_letGo, hrows]
  · intro p hmem frame hpeek
    obtain ⟨old, hold, -⟩ := mem_dirtiedBy.1 hmem
    obtain ⟨copy, hpeek'⟩ := hback.peek_of_mem p hmem _ (hcoherent.mirrors p old hold).stored
    rw [cache_letGo, hpeek'] at hpeek
    cases hpeek
    rfl
  · intro p hnot
    rw [cache_letGo, hback.peek_of_not_mem p hnot]

end Tracks

/-! ## Sound engines -/

theorem Quiet.log_eq {txn : TxnId} {e e' : Engine} (h : Quiet txn e e') : e'.log = e.log := by
  cases h with
  | lock _ => rfl
  | use _ _ => rfl
  | drop _ _ => rfl
  | load _ _ hroom _ => cases hroom <;> rfl
  | append _ _ => rfl
  | giveBack _ hfetch =>
      cases hfetch with
      | hit _ _ => rfl
      | miss _ _ _ hroom _ => cases hroom <;> rfl

theorem QuietPath.log_eq {txn : TxnId} {e e' : Engine} (h : QuietPath txn e e') :
    e'.log = e.log := by
  induction h with
  | refl => rfl
  | tail _ hmove ih => rw [hmove.log_eq, ih]

theorem Action.Through.reliable {pages : List PageId} {e e' : Engine}
    (h : Through WritesBack pages e e') (hlog : e.log.Reliable) : e'.log.Reliable := by
  induction h with
  | nil => exact hlog
  | cons hstep _ ih =>
      refine ih ?_
      cases hstep with
      | clean _ => exact hlog
      | dirty _ _ _ haccept _ =>
          obtain ⟨log, hlog', hreliable⟩ := hlog.accept? _
          obtain rfl := Option.some.inj (hlog'.symm.trans haccept)
          exact hreliable

theorem Action.Through.log_restores {pages : List PageId} {e e' : Engine}
    (h : Through Restores pages e e') : e'.log = e.log := by
  induction h with
  | nil => rfl
  | cons hstep _ ih =>
      rw [ih]
      cases hstep
      rfl

namespace Sound

variable {capacity : Nat} {txn : TxnId} {page : PageId} {frame : Frame} {e e₁ e' : Engine}

theorem movePath (h : Sound capacity e) (hwithin : Within e e') (hpath : MovePath e e')
    (hlog : e'.log.Reliable) : Sound capacity e' := by
  have hcatalog := hpath.grows.catalog
  refine ⟨?_, ?_, h.coherent.movePath h.registered hwithin hpath, h.guarded.movePath hpath, hlog⟩
  · rw [hcatalog]
    exact h.registered
  · rw [hcatalog]
    exact h.slots

theorem quietPath (h : Sound capacity e) (hwithin : Within e e') (hpath : QuietPath txn e e') :
    Sound capacity e' := by
  refine h.movePath hwithin hpath.movePath ?_
  rw [hpath.log_eq]
  exact h.reliable

theorem slotCount_stored (h : Sound capacity e) {x : Page} (hx : e.stored? page = some x) :
    x.slotCount ≤ UInt16.size := by
  obtain ⟨file, hfile, hhas, rfl⟩ := stored?_eq_some_iff.1 hx
  have hslots := h.slots _ _ hfile
  rw [← hhas.length_pageBytes] at hslots
  exact hslots

theorem slotCount_le (h : Sound capacity e) (hpeek : e.pool.cache.peek page = some frame) :
    frame.page.slotCount ≤ UInt16.size := by
  have hm := h.coherent.mirrors page frame hpeek
  have hcount : frame.page.slotCount = frame.page.beforePage.slotCount :=
    Page.slotCount_congr rfl hm.length
  rw [hcount]
  exact h.slotCount_stored hm.stored

/-- With a reliable log every commit succeeds. -/
theorem commit_ends (h : Sound capacity e) (txn : TxnId) : (Engine.commit txn).Ends e
    (fun _ e' => ∃ e₁, WritesUpTo txn [] e e₁ ∧ e' = e₁.letGo txn) (fun _ _ => False) := by
  refine (HeapStore.commit_ends txn e).mono (fun _ _ hok => hok) ?_
  rintro _ _ ⟨page, rest, e₁, log, ⟨written, hpages, hwritten⟩, hstuck, -⟩
  obtain ⟨hnodup, hnot, hdirtied, frame, hpeek, hdirty⟩ := dirtiedBy_split hpages
  obtain ⟨h₁, hwrote⟩ := hwritten.wrote h.registered h.coherent hnodup hdirtied
  rw [← hwrote.peek_of_not_mem page hnot] at hpeek
  obtain ⟨log', hlog', -⟩ := (hwritten.reliable h.reliable).accept? (recordOf txn frame.page)
  obtain ⟨e'', hwrites⟩ := exists_writesBack h₁ hpeek hdirty hlog'
  exact hstuck e'' hwrites

/-- Every abort succeeds. -/
theorem abort_ends (h : Sound capacity e) (txn : TxnId) : (Engine.abort txn).Ends e
    (fun _ e' => ∃ e₁, RestoresUpTo txn [] e e₁ ∧ e' = e₁.letGo txn) (fun _ _ => False) :=
  h.coherent.abort_ends h.registered txn

end Sound

/-! ## Calls -/

section

variable {base : Rows} {history : History} {capacity : Nat} {txn : TxnId} {e e' : Engine}

/-- What is read back of a tuple that was put on a page. -/
theorem Coherent.decode?_of_insert {page : PageId} {frame : Frame} {tuple : Tuple}
    {record : RecordId} {changed : Page} (h : Coherent capacity e)
    (hpeek : e.pool.cache.peek page = some frame)
    (hinsert : frame.page.insert tuple = .ok (record, changed)) :
    (Tuple.decode? frame.page.schema tuple.encode).map (·.withRecord (some record))
      = some (e.catalog.reread record (tuple.withRecord (some record))) := by
  obtain ⟨file, hfile, -, hschema, -⟩ := h.stored_file hpeek
  obtain ⟨htypes, free, -, hrecord, -⟩ := Page.insert_eq_ok hinsert
  have hkey : record.page = page := (congrArg RecordId.page hrecord).trans (h.id_eq hpeek)
  -- The tuple has the width of the page's schema, so it can be read.
  have hread : ∃ read, Tuple.decode? frame.page.schema tuple.encode = some read := by
    cases hdecode : Tuple.decode? frame.page.schema tuple.encode with
    | some read => exact ⟨read, rfl⟩
    | none =>
        have hshort := Tuple.decode?_eq_none_iff.1 hdecode
        rw [Tuple.length_encode, Schema.width, Schema.width, htypes] at hshort
        exact absurd hshort (Nat.lt_irrefl _)
  obtain ⟨read, hread⟩ := hread
  have hencode : (tuple.withRecord (some record)).encode = tuple.encode := rfl
  simp only [Catalog.reread, hkey, hfile, hschema, hencode, hread]
  rfl

/-- What a change of a page does to rows and history, after a quiet path. -/
theorem Tracks.inserts {tuple answer : Tuple} (hsound : Sound capacity e) (hwithin : Within e e')
    (h : Tracks base e history) (hinserts : Inserts txn tuple e answer e') :
    ∃ record, answer.record = some record ∧
      Tracks base e' (history.add txn ⟨record, some (e.catalog.reread record answer)⟩) := by
  cases hinserts with
  | mk hpath hpeek howns hinsert =>
      rename_i e₁ page frame record changed
      have hwithin₁ : Within e e₁ := hwithin
      have hsound₁ := hsound.quietPath hwithin₁ hpath
      have h₁ := h.quietPath hsound.registered hwithin₁ hpath
      obtain ⟨hpage, hslots⟩ := Page.slot?_insert hinsert (hsound₁.slotCount_le hpeek)
      have hkey : record.page = page := hpage.trans (hsound₁.coherent.id_eq hpeek)
      refine ⟨record, rfl, h₁.change hsound₁ hpeek howns ?_ hkey fun slot => ?_⟩
      · exact (Page.Becomes.insert hinsert).id_eq
      · rw [hslots, hsound₁.coherent.decode?_of_insert hpeek hinsert, hpath.catalog_eq]

theorem Tracks.deletes {record : RecordId} (hsound : Sound capacity e) (hwithin : Within e e')
    (h : Tracks base e history) (hdeletes : Deletes txn record e e') :
    Tracks base e' (history.add txn ⟨record, none⟩) := by
  cases hdeletes with
  | mk hpath hpeek howns hdelete =>
      rename_i e₁ frame changed
      have hwithin₁ : Within e e₁ := hwithin
      have hsound₁ := hsound.quietPath hwithin₁ hpath
      have h₁ := h.quietPath hsound.registered hwithin₁ hpath
      obtain ⟨-, hslots⟩ := Page.slot?_delete hdelete
      exact h₁.change hsound₁ hpeek howns (Page.Becomes.delete hdelete).id_eq rfl hslots

theorem Tracks.quietly (hsound : Sound capacity e) (hwithin : Within e e')
    (h : Tracks base e history) (hpath : QuietPath txn e e') :
    Tracks base e' history ∧ e'.log.Reliable := by
  refine ⟨h.quietPath hsound.registered hwithin hpath, ?_⟩
  rw [hpath.log_eq]
  exact hsound.reliable

/-- The simulation goes on with every call that is part of the work of
transactions, and the log goes on working. -/
theorem Tracks.call {call : Call} (hsound : Sound capacity e)
    (hcall : call.isTransactional = true) (hwithin : Within e (call.after e))
    (h : Tracks base e history) :
    Tracks base (call.after e) (history.note e.catalog call (call.run e)) ∧
      (call.after e).log.Reliable := by
  cases call with
  | getPage txn page access =>
      have hpath : QuietPath txn e ((Call.getPage txn page access).after e) :=
        ((getPage_moves txn page access).map Answer.frame).after e
      exact h.quietly hsound hwithin hpath
  | evict latched =>
      have hpath : QuietPath ⟨0⟩ e ((Call.evict latched).after e) :=
        ((evict_moves ⟨0⟩ latched).map fun _ => Answer.done).after e
      exact h.quietly hsound hwithin hpath
  | scan stop source =>
      have hpath : QuietPath source.txn e ((Call.scan stop source).after e) :=
        ((scan_moves stop source).map fun answer => Answer.items answer.1 answer.2).after e
      exact h.quietly hsound hwithin hpath
  | insert txn table tuple =>
      simp only [Call.after, Call.run, after_map, map_apply] at hwithin ⊢
      cases hrun : Engine.insert txn table tuple e with
      | ok answer e' =>
          rw [after_of_ok hrun] at hwithin ⊢
          have hinserts := (insert_ends txn table tuple e).of_ok hrun
          obtain ⟨record, hrecord, htracks⟩ := h.inserts hsound hwithin hinserts
          simp only [History.note, hrecord]
          refine ⟨htracks, ?_⟩
          cases hinserts with
          | mk hpath _ _ _ =>
              have hreliable := hsound.reliable
              rwa [← hpath.log_eq] at hreliable
      | error failure e' =>
          rw [after_of_error hrun] at hwithin ⊢
          exact h.quietly hsound hwithin ((insert_ends txn table tuple e).of_error hrun)
  | delete txn record =>
      simp only [Call.after, Call.run, after_map, map_apply] at hwithin ⊢
      cases hrun : Engine.delete txn record e with
      | ok answer e' =>
          rw [after_of_ok hrun] at hwithin ⊢
          obtain ⟨address, rfl, hdeletes⟩ := (delete_ends txn record e).of_ok hrun
          refine ⟨h.deletes hsound hwithin hdeletes, ?_⟩
          cases hdeletes with
          | mk hpath _ _ _ =>
              have hreliable := hsound.reliable
              rwa [← hpath.log_eq] at hreliable
      | error failure e' =>
          rw [after_of_error hrun] at hwithin ⊢
          have htracks := h.quietly hsound hwithin ((delete_ends txn record e).of_error hrun)
          cases record <;> exact htracks
  | commit txn =>
      simp only [Call.after, Call.run, after_map, map_apply]
      cases hrun : Engine.commit txn e with
      | ok answer e' =>
          rw [after_of_ok hrun]
          obtain ⟨e₁, hwrites, rfl⟩ := (hsound.commit_ends txn).of_ok hrun
          refine ⟨h.commit hsound.registered hsound.coherent hwrites, ?_⟩
          obtain ⟨written, -, hwritten⟩ := hwrites
          exact hwritten.reliable hsound.reliable
      | error failure e' => exact ((hsound.commit_ends txn).of_error hrun).elim
  | abort txn =>
      simp only [Call.after, Call.run, after_map, map_apply]
      cases hrun : Engine.abort txn e with
      | ok answer e' =>
          rw [after_of_ok hrun]
          obtain ⟨e₁, hrestores, rfl⟩ := (hsound.abort_ends txn).of_ok hrun
          refine ⟨h.abort hsound.coherent hrestores, ?_⟩
          obtain ⟨restored, -, hrestored⟩ := hrestores
          have hreliable := hsound.reliable
          rwa [← hrestored.log_restores] at hreliable
      | error failure e' => exact ((hsound.abort_ends txn).of_error hrun).elim
  | flushPage _ | flushPages _ | flushAll | discard _ | release _ _ => cases hcall

theorem Sound.call {call : Call} (h : Sound capacity e) (hcall : call.isTransactional = true)
    (hwithin : Within e (call.after e)) (hlog : (call.after e).log.Reliable) :
    Sound capacity (call.after e) := by
  have hmoves : call.run.Moves MovePath := by
    refine call.moves ?_
    rintro txn page rfl
    cases hcall
  exact h.movePath hwithin (hmoves.after e) hlog

/-- The simulation along a run. -/
theorem Tracks.run (calls : List Call) (hsound : Sound capacity e)
    (hcalls : ∀ call ∈ calls, call.isTransactional = true)
    (hwithin : Within e (Call.afterAll calls e)) (h : Tracks base e history) :
    Tracks base (Call.afterAll calls e) (history.noteAll e calls) ∧
      Sound capacity (Call.afterAll calls e) := by
  induction calls generalizing e history with
  | nil => exact ⟨h, hsound⟩
  | cons call calls ih =>
      have hcall := hcalls call List.mem_cons_self
      have hfirst : Within e (call.after e) := (Call.grows_all calls _).within_left hwithin
      obtain ⟨htracks, hlog⟩ := h.call hsound hcall hfirst
      exact ih (hsound.call hcall hfirst hlog)
        (fun c hc => hcalls c (List.mem_cons_of_mem _ hc))
        ((call.grows e).within_right hwithin) htracks

end

end HeapStore
