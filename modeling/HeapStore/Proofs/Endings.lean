import HeapStore.Proofs.Outcomes

/-!
# How transactions end

In a coherent engine nothing but the log can refuse to end a transaction. The
files take each page that is written and give back each page that is restored,
so a page that is not written back was refused by the log (`Refuses`), and
rolling back always works, also after a commit that failed
(`Coherent.commit_ends`, `Coherent.abort_ends`).
-/

namespace HeapStore

open HeapStore.Action Engine

/-- A walk whose steps keep an invariant. -/
theorem Action.ends_forM_of_invariant {ι : Type} {f : ι → Action Unit}
    {S : ι → Engine → Engine → Prop} {F : ι → Failure → Engine → Engine → Prop}
    {I : Engine → Prop}
    (h : ∀ item e, I e →
      (f item).Ends e (fun _ e' => S item e e' ∧ I e') (fun failure => F item failure e))
    (items : List ι) {e : Engine} (he : I e) :
    (items.forM f).Ends e (fun _ e' => Through S items e e' ∧ I e') (fun failure e' =>
      ∃ done item rest e₁, items = done ++ item :: rest ∧ Through S done e e₁ ∧ I e₁
        ∧ F item failure e₁ e') := by
  induction items generalizing e with
  | nil => exact ⟨.nil, he⟩
  | cons item items ih =>
      rw [show (item :: items).forM f = (f item >>= fun _ => items.forM f) from rfl, ends_bind]
      refine (h item e he).mono ?_ ?_
      · rintro _ e₁ ⟨hstep, he₁⟩
        refine (ih he₁).mono ?_ ?_
        · rintro _ e' ⟨hrest, he'⟩
          exact ⟨.cons hstep hrest, he'⟩
        · rintro failure e' ⟨done, stuck, rest, e₂, rfl, hdone, he₂, hfail⟩
          exact ⟨item :: done, stuck, rest, e₂, rfl, .cons hstep hdone, he₂, hfail⟩
      · intro failure e' hfail
        exact ⟨[], item, items, e, rfl, .nil, he, hfail⟩

/-- The log refuses the record of a page, or to be forced after it. -/
inductive Refuses (page : PageId) (cause : Error) : Engine → Engine → Prop where
  | write {e : Engine} {frame : Frame} {txn : TxnId} {log : LogSink}
      (hpeek : e.pool.cache.peek page = some frame) (hdirty : frame.page.dirtier = some txn)
      (hwrite : e.log.write (recordOf txn frame.page) = (.error cause, log)) :
      Refuses page cause e { e with log }
  | force {e : Engine} {frame : Frame} {txn : TxnId} {log log' : LogSink}
      (hpeek : e.pool.cache.peek page = some frame) (hdirty : frame.page.dirtier = some txn)
      (hwrite : e.log.write (recordOf txn frame.page) = (.ok (), log))
      (hforce : log.force = (.error cause, log')) :
      Refuses page cause e { e with log := log' }

variable {capacity : Nat} {e e₁ e' : Engine} {txn : TxnId} {page : PageId} {cause : Error}

theorem Refuses.exists_log (h : Refuses page cause e e') : ∃ log, e' = { e with log } := by
  cases h with
  | write _ _ _ => exact ⟨_, rfl⟩
  | force _ _ _ _ => exact ⟨_, rfl⟩

namespace Coherent

/-! ## Writing back -/

theorem writeBack_ends (h : Coherent capacity e) (page : PageId) :
    (writeBack page).Ends e (fun _ => WritesBack page e)
      (fun failure e' => ∃ cause, failure = .error cause ∧ Refuses page cause e e') := by
  simp only [writeBack, ends_bind, ends_get]
  split
  · rename_i hnone
    exact .clean fun frame hpeek => by rw [hnone] at hpeek; cases hpeek
  rename_i resident copy hpeek
  split
  · rename_i hclean
    refine .clean fun frame hpeek' => ?_
    obtain rfl := Option.some.inj (hpeek.symm.trans hpeek')
    exact hclean
  rename_i txn hdirty
  obtain ⟨file, hfile, hhas, -, hbytes⟩ := h.stored_file hpeek
  have hlength : resident.data.length = file.pageSize := by
    rw [(h.mirrors _ _ hpeek).length, ← hbytes, hhas.length_pageBytes]
  rw [← h.id_eq hpeek] at hfile
  simp only [ends_bind, ends_fileOf, hfile]
  rw [ends_writeLog]
  split
  case h_2 =>
    rename_i cause log hwrite
    exact ⟨cause, rfl, .write hpeek hdirty hwrite⟩
  rename_i log hwrite
  rw [ends_forceLog]
  split
  case h_2 =>
    rename_i cause log' hforce
    exact ⟨cause, rfl, .force hpeek hdirty hwrite hforce⟩
  rename_i log' hforce
  obtain ⟨disk, hdisk⟩ := HeapFile.exists_writePage hlength e.disk
  rw [ends_writePage]
  simp only [hdisk]
  exact .dirty hpeek hdirty hfile (by simp [LogSink.accept?, hwrite, hforce]) hdisk

theorem forM_writeBack_ends (hreg : e.catalog.Registered) (h : Coherent capacity e)
    (pages : List PageId) :
    (pages.forM writeBack).Ends e (fun _ => Through WritesBack pages e)
      (fun failure e' => ∃ cause written page rest e₁, failure = .error cause
        ∧ pages = written ++ page :: rest ∧ Through WritesBack written e e₁
        ∧ Refuses page cause e₁ e') := by
  have hstep : ∀ page e, e.catalog.Registered ∧ Coherent capacity e →
      (writeBack page).Ends e
        (fun _ e' => WritesBack page e e' ∧ e'.catalog.Registered ∧ Coherent capacity e')
        (fun failure e' => ∃ cause, failure = .error cause ∧ Refuses page cause e e') := by
    rintro page e ⟨hreg, h⟩
    refine (h.writeBack_ends page).mono ?_ fun _ _ hfail => hfail
    intro _ e' hwrites
    refine ⟨hwrites, ?_, h.writesBack hreg hwrites⟩
    rw [hwrites.grows.catalog]
    exact hreg
  refine (ends_forM_of_invariant hstep pages ⟨hreg, h⟩).mono ?_ ?_
  · rintro _ e' ⟨hwritten, -⟩
    exact hwritten
  · rintro failure e' ⟨written, page, rest, e₁, hpages, hwritten, -, cause, hcause, hrefuses⟩
    exact ⟨cause, written, page, rest, e₁, hcause, hpages, hwritten, hrefuses⟩

theorem flushPages_ends (hreg : e.catalog.Registered) (h : Coherent capacity e) (txn : TxnId) :
    (flushPages txn).Ends e (fun _ => WritesUpTo txn [] e)
      (fun failure e' => ∃ cause page rest e₁, failure = .error cause
        ∧ WritesUpTo txn (page :: rest) e e₁ ∧ Refuses page cause e₁ e') := by
  simp only [flushPages, ends_bind, ends_get]
  refine (h.forM_writeBack_ends hreg _).mono ?_ ?_
  · intro _ e' hwritten
    exact ⟨_, (List.append_nil _).symm, hwritten⟩
  · rintro failure e' ⟨cause, written, page, rest, e₁, hcause, hpages, hwritten, hrefuses⟩
    exact ⟨cause, page, rest, e₁, hcause, ⟨written, hpages, hwritten⟩, hrefuses⟩

/-! ## Restoring -/

theorem restored {rest : List PageId} (hreg : e.catalog.Registered) (h : Coherent capacity e)
    (hrestores : RestoresUpTo txn rest e e₁) : Coherent capacity e₁ := by
  have hpath := hrestores.movePath
  obtain ⟨_, -, hrestored⟩ := hrestores
  have hwithin : Within e e₁ := by
    intro id file _ hfew
    rw [HeapFile.wholePages, hrestored.restored.content]
    exact hfew
  exact h.movePath hreg hwithin hpath

theorem restorePages_ends (hreg : e.catalog.Registered) (h : Coherent capacity e) (txn : TxnId) :
    (restorePages txn).Ends e (fun _ => RestoresUpTo txn [] e) (fun _ _ => False) := by
  refine (HeapStore.restorePages_ends txn e).mono (fun _ _ hok => hok) ?_
  rintro _ e₁ ⟨page, rest, hup, hstuck⟩
  have h₁ := h.restored hreg hup
  obtain ⟨restored, hpages, hrestored⟩ := hup
  obtain ⟨-, hnot, -, frame, hpeek, -⟩ := dirtiedBy_split hpages
  rw [← hrestored.restored.peek_of_not_mem page hnot] at hpeek
  obtain ⟨e'', hrestores⟩ := exists_restores h₁ hpeek
  exact hstuck e'' hrestores

/-! ## Commit and abort -/

theorem abort_ends (hreg : e.catalog.Registered) (h : Coherent capacity e) (txn : TxnId) :
    (abort txn).Ends e (fun _ e' => ∃ e₁, RestoresUpTo txn [] e e₁ ∧ e' = e₁.letGo txn)
      (fun _ _ => False) := by
  simp only [abort, ends_bind, ends_attempt, releaseIfClean_ends, ends_ofExcept]
  refine (h.restorePages_ends hreg txn).mono ?_ fun _ _ hfail => hfail.elim
  intro _ e₁ hrestored
  exact ⟨e₁, hrestored, rfl⟩

theorem commit_ends (hreg : e.catalog.Registered) (h : Coherent capacity e) (txn : TxnId) :
    (commit txn).Ends e (fun _ e' => ∃ e₁, WritesUpTo txn [] e e₁ ∧ e' = e₁.letGo txn)
      (fun failure e' => ∃ cause page rest e₁ e₂ e₃, failure = .error cause
        ∧ WritesUpTo txn (page :: rest) e e₁ ∧ Refuses page cause e₁ e₂
        ∧ RestoresUpTo txn [] e₂ e₃ ∧ e' = e₃.letGo txn) := by
  simp only [commit, ends_bind, ends_attempt]
  refine (h.flushPages_ends hreg txn).mono ?_ ?_
  · intro _ e₁ hwritten
    exact ⟨e₁, hwritten, rfl⟩
  · rintro _ e₂ ⟨cause, page, rest, e₁, rfl, hwritten, hrefuses⟩
    obtain ⟨log, rfl⟩ := hrefuses.exists_log
    obtain ⟨written, hpages, hthrough⟩ := hwritten
    obtain ⟨hnodup, -, hdirtied, -⟩ := dirtiedBy_split hpages
    obtain ⟨h₁, -⟩ := hthrough.wrote hreg h hnodup hdirtied
    have hreg₂ : ({ e₁ with log } : Engine).catalog.Registered := by
      rw [(Through.writesBack_movePath hthrough).grows.catalog]
      exact hreg
    simp only [releaseIfClean_ends, ends_ofExcept]
    refine ((h₁.log log).restorePages_ends hreg₂ txn).mono ?_ fun _ _ hfail => hfail.elim
    intro _ e₃ hrestored
    exact ⟨cause, page, rest, e₁, _, e₃, rfl, ⟨written, hpages, hthrough⟩, hrefuses, hrestored,
      rfl⟩

end Coherent

end HeapStore
