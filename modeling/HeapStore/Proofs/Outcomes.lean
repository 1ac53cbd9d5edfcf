import HeapStore.Proofs.Coherence

/-!
# What is on disk after a commit or an abort

In a coherent engine nothing but the log can keep a page from being written,
and nothing can keep it from being restored (`exists_writesBack`,
`exists_restores`). Writing back and restoring concern the pages that they
name and leave all others as they are (`Wrote`, `Restored`).
-/

namespace HeapStore

open HeapStore.Action Engine

variable {capacity : Nat} {e e₁ e' : Engine} {txn : TxnId} {page : PageId} {frame : Frame}

/-! ## What is possible -/

theorem exists_writesBack {log : LogSink} (h : Coherent capacity e)
    (hpeek : e.pool.cache.peek page = some frame) (hdirty : frame.page.dirtier = some txn)
    (hlog : e.log.accept? (recordOf txn frame.page) = some log) :
    ∃ e', WritesBack page e e' := by
  obtain ⟨file, hfile, hhas, -, hbytes⟩ := h.stored_file hpeek
  have hlength : frame.page.data.length = file.pageSize := by
    rw [(h.mirrors _ _ hpeek).length, ← hbytes, hhas.length_pageBytes]
  obtain ⟨disk, hwrite⟩ := HeapFile.exists_writePage hlength e.disk
  rw [← h.id_eq hpeek] at hfile
  exact ⟨_, .dirty hpeek hdirty hfile hlog hwrite⟩

theorem exists_restores (h : Coherent capacity e)
    (hpeek : e.pool.cache.peek page = some frame) : ∃ e', Restores page e e' := by
  obtain ⟨file, hfile, hhas, -⟩ := h.stored_file hpeek
  exact ⟨_, .mk hfile (HeapFile.readPage_eq hhas)⟩

/-! ## Writing back -/

/-- The pages named are written and clean, and all others as they were. -/
structure Wrote (pages : List PageId) (e e' : Engine) : Prop where
  peek_of_mem : ∀ page ∈ pages, ∀ frame, e.pool.cache.peek page = some frame →
    e'.pool.cache.peek page = some { frame with page := frame.page.markClean }
  stored_of_mem : ∀ page ∈ pages, ∀ frame, e.pool.cache.peek page = some frame →
    e'.stored? page = some frame.page.markClean
  peek_of_not_mem : ∀ page, page ∉ pages → e'.pool.cache.peek page = e.pool.cache.peek page
  stored_of_not_mem : ∀ page, page ∉ pages → e'.stored? page = e.stored? page

theorem Wrote.refl (e : Engine) : Wrote [] e e :=
  ⟨nofun, nofun, fun _ _ => rfl, fun _ _ => rfl⟩

theorem WritesBack.wrote (hreg : e.catalog.Registered) (h : Coherent capacity e)
    (hpeek : e.pool.cache.peek page = some frame) (hdirty : frame.page.dirtier = some txn)
    (hwrites : WritesBack page e e') : Wrote [page] e e' := by
  obtain ⟨hpool, hstored⟩ := h.writesBack_eq hreg hpeek hdirty hwrites
  have hcache : ∀ p, e'.pool.cache.peek p
      = if page = p then (e.pool.cache.peek p).map fun frame' =>
          { frame' with page := frame.page.markClean } else e.pool.cache.peek p := by
    intro p
    rw [hpool, Pool.store, Recency.peek_modify,
      show frame.page.markClean.id = page from h.id_eq hpeek]
  constructor
  · intro p hp frame' hframe'
    obtain rfl := List.mem_singleton.1 hp
    obtain rfl := Option.some.inj (hpeek.symm.trans hframe')
    rw [hcache, if_pos rfl, hpeek]
    rfl
  · intro p hp frame' hframe'
    obtain rfl := List.mem_singleton.1 hp
    obtain rfl := Option.some.inj (hpeek.symm.trans hframe')
    rw [hstored, if_pos rfl]
  · intro p hp
    have hne : page ≠ p := fun heq => hp (List.mem_singleton.2 heq.symm)
    rw [hcache, if_neg hne]
  · intro p hp
    have hne : p ≠ page := fun heq => hp (List.mem_singleton.2 heq)
    rw [hstored, if_neg hne]

theorem Wrote.cons {pages : List PageId} (h : Wrote [page] e e₁) (h' : Wrote pages e₁ e')
    (hnot : page ∉ pages) : Wrote (page :: pages) e e' := by
  have hne : ∀ p ∈ pages, p ∉ [page] := by
    intro p hp heq
    exact hnot (List.mem_singleton.1 heq ▸ hp)
  constructor
  · intro p hp frame hpeek
    rcases List.mem_cons.1 hp with rfl | hp
    · rw [h'.peek_of_not_mem _ hnot]
      exact h.peek_of_mem _ List.mem_cons_self frame hpeek
    · refine h'.peek_of_mem p hp frame ?_
      rw [h.peek_of_not_mem p (hne p hp), hpeek]
  · intro p hp frame hpeek
    rcases List.mem_cons.1 hp with rfl | hp
    · rw [h'.stored_of_not_mem _ hnot]
      exact h.stored_of_mem _ List.mem_cons_self frame hpeek
    · refine h'.stored_of_mem p hp frame ?_
      rw [h.peek_of_not_mem p (hne p hp), hpeek]
  · intro p hp
    obtain ⟨hpage, hpages⟩ := not_or.1 fun hor => hp (List.mem_cons.2 hor)
    rw [h'.peek_of_not_mem p hpages]
    exact h.peek_of_not_mem p fun heq => hpage (List.mem_singleton.1 heq)
  · intro p hp
    obtain ⟨hpage, hpages⟩ := not_or.1 fun hor => hp (List.mem_cons.2 hor)
    rw [h'.stored_of_not_mem p hpages]
    exact h.stored_of_not_mem p fun heq => hpage (List.mem_singleton.1 heq)

/-- The pages are changed by the transaction. -/
def Engine.Dirtied (e : Engine) (txn : TxnId) (pages : List PageId) : Prop :=
  ∀ page ∈ pages, ∃ frame, e.pool.cache.peek page = some frame ∧ frame.page.dirtier = some txn

theorem dirtied_dirtiedBy (e : Engine) (txn : TxnId) : e.Dirtied txn (e.pool.dirtiedBy txn) :=
  fun _ => mem_dirtiedBy.1

/-- A walk over the changed pages that stops at one of them: those before it
are others, and changed as well. -/
theorem dirtiedBy_split {done rest : List PageId}
    (h : e.pool.dirtiedBy txn = done ++ page :: rest) :
    done.Nodup ∧ page ∉ done ∧ e.Dirtied txn done ∧
      ∃ frame, e.pool.cache.peek page = some frame ∧ frame.page.dirtier = some txn := by
  have hnodup := nodup_dirtiedBy e.pool txn
  have hdirtied := dirtied_dirtiedBy e txn
  rw [h] at hnodup hdirtied
  obtain ⟨hdone, -, hdisjoint⟩ := List.nodup_append.1 hnodup
  refine ⟨hdone, ?_, ?_, ?_⟩
  · exact fun hmem => hdisjoint page hmem page List.mem_cons_self rfl
  · exact fun p hp => hdirtied p (List.mem_append_left _ hp)
  · exact hdirtied page (List.mem_append_right _ List.mem_cons_self)

/-- Induction along a walk that writes pages of one transaction. Each page
is still as it was at the start when its turn comes. -/
theorem Action.Through.writes_induction {motive : List PageId → Engine → Engine → Prop}
    (nil : ∀ {e}, Coherent capacity e → motive [] e e)
    (cons : ∀ {page pages e e₁ e₂ frame}, e.catalog.Registered → Coherent capacity e →
      e.pool.cache.peek page = some frame → frame.page.dirtier = some txn → page ∉ pages →
      WritesBack page e e₁ → Wrote [page] e e₁ →
      (∀ p ∈ pages, e₁.pool.cache.peek p = e.pool.cache.peek p) →
      motive pages e₁ e₂ → motive (page :: pages) e e₂)
    {pages : List PageId} (hreg : e.catalog.Registered) (h : Coherent capacity e)
    (hnodup : pages.Nodup) (hdirtied : e.Dirtied txn pages)
    (hwritten : Through WritesBack pages e e') : motive pages e e' := by
  induction hwritten with
  | nil => exact nil h
  | cons hstep _ ih =>
      rename_i page pages e e₁ e₂ hrest
      obtain ⟨hnot, hnodup⟩ := List.nodup_cons.1 hnodup
      obtain ⟨frame, hpeek, hdirty⟩ := hdirtied page List.mem_cons_self
      have hwrote := hstep.wrote hreg h hpeek hdirty
      have hothers : ∀ p ∈ pages, e₁.pool.cache.peek p = e.pool.cache.peek p := fun p hp =>
        hwrote.peek_of_not_mem p fun heq => hnot (List.mem_singleton.1 heq ▸ hp)
      have hreg₁ : e₁.catalog.Registered := by
        rw [hstep.grows.catalog]
        exact hreg
      refine cons hreg h hpeek hdirty hnot hstep hwrote hothers ?_
      refine ih hreg₁ (h.writesBack hreg hstep) hnodup fun p hp => ?_
      obtain ⟨frame', hframe', hdirty'⟩ := hdirtied p (List.mem_cons_of_mem _ hp)
      exact ⟨frame', by rw [hothers p hp, hframe'], hdirty'⟩

/-- A walk that writes pages leaves the engine coherent. -/
theorem Action.Through.wrote {pages : List PageId} (hreg : e.catalog.Registered)
    (h : Coherent capacity e) (hnodup : pages.Nodup) (hdirtied : e.Dirtied txn pages)
    (hwritten : Through WritesBack pages e e') : Coherent capacity e' ∧ Wrote pages e e' := by
  refine hwritten.writes_induction (motive := fun pages e e' => Coherent capacity e'
    ∧ Wrote pages e e') ?_ ?_ hreg h hnodup hdirtied
  · intro e h
    exact ⟨h, .refl e⟩
  · intro page pages e e₁ e₂ frame _ _ _ _ hnot _ hfirst _ ih
    exact ⟨ih.1, hfirst.cons ih.2 hnot⟩

/-! ## Restoring -/

/-- The pages named are as stored, and all others as they were. No file has
changed. -/
structure Restored (pages : List PageId) (e e' : Engine) : Prop where
  peek_of_mem : ∀ page ∈ pages, ∀ x, e.stored? page = some x →
    ∃ copy, e'.pool.cache.peek page = some ⟨x, copy⟩
  peek_of_not_mem : ∀ page, page ∉ pages → e'.pool.cache.peek page = e.pool.cache.peek page
  catalog : e'.catalog = e.catalog
  content : ∀ name, e'.disk.content name = e.disk.content name

theorem Restored.stored_eq {pages : List PageId} (h : Restored pages e e') (page : PageId) :
    e'.stored? page = e.stored? page :=
  stored?_congr h.catalog h.content

theorem Restores.restored (hrestores : Restores page e e') : Restored [page] e e' := by
  cases hrestores with
  | mk hfile hread =>
      rename_i file loaded disk
      have hid := HeapFile.id_of_readPage hread
      refine ⟨?_, ?_, rfl, HeapFile.content_readPage hread⟩
      · intro p hp x hx
        obtain rfl := List.mem_singleton.1 hp
        obtain rfl := Option.some.inj ((stored?_of_readPage hfile hread).symm.trans hx)
        refine ⟨e.pool.copies, ?_⟩
        rw [Pool.install, Recency.peek_put, if_pos hid]
      · intro p hp
        have hne : page ≠ p := fun heq => hp (List.mem_singleton.2 heq.symm)
        rw [Pool.install, Recency.peek_put, if_neg (by rwa [hid])]

theorem Action.Through.restored {pages : List PageId} (hrestored : Through Restores pages e e') :
    Restored pages e e' := by
  induction hrestored with
  | nil => exact ⟨nofun, fun _ _ => rfl, rfl, fun _ => rfl⟩
  | cons hstep _ ih =>
      rename_i page pages e e₁ e₂ hrest
      have hfirst := hstep.restored
      refine ⟨?_, ?_, ih.catalog.trans hfirst.catalog, fun name => ?_⟩
      · intro p hp x hx
        by_cases hmem : p ∈ pages
        · refine ih.peek_of_mem p hmem x ?_
          rw [hfirst.stored_eq, hx]
        · have hpage : p ∈ [page] := by
            rcases List.mem_cons.1 hp with rfl | hp
            · exact List.mem_cons_self
            · exact absurd hp hmem
          rw [ih.peek_of_not_mem p hmem]
          exact hfirst.peek_of_mem p hpage x hx
      · intro p hp
        obtain ⟨hpage, hpages⟩ := not_or.1 fun hor => hp (List.mem_cons.2 hor)
        rw [ih.peek_of_not_mem p hpages]
        exact hfirst.peek_of_not_mem p fun heq => hpage (List.mem_singleton.1 heq)
      · rw [ih.content, hfirst.content]

end HeapStore
