import HeapStore.Proofs.RepeatableRead
import HeapStore.Proofs.SlotMap

/-!
# Repeatable scans

A scan locks the pages that it reads, and no more. A transaction that scans a
table to its end, and scans it again, meets the same tuples in the same order,
whatever happens in between. Behind them come the tuples on pages that were
appended meanwhile, which it had no lock on (`repeatable_scan`).

The transaction must not have changed the table itself, nor ended, nor given
back one of its pages (`Call.GoesOn`), and nobody may give back the lock on a
page with changes of his own (`Call.KeepsLocks`). A scan need not be read in one
go: `ReadsOut` is a scan that is read by and by, with any other calls between
two looks at it.
-/

namespace HeapStore

open HeapStore.Action Engine

/-! ## Cutting -/

/-- Cutting a list of tuples gives tuples. -/
theorem append_pending {stop : Item → Bool} {tuples : List Tuple} {taken rest : List Item}
    (h : cut stop (tuples.map .ok) = (taken, some rest)) :
    taken ++ (rest.filterMap Except.toOption).map .ok = tuples.map .ok := by
  obtain ⟨hsplit, -⟩ := cut_eq_some h
  obtain ⟨left, right, rfl, hleft, hright⟩ := List.append_eq_map_iff.1 hsplit
  rw [← hleft, ← hright, List.filterMap_map, List.map_append]
  simp [Function.comp_def, Except.toOption]

/-! ## What goes on -/

/-- A call with which a transaction neither ends nor gives back a page of the
table. -/
def Call.GoesOn (txn : TxnId) (table : TableId) : Call → Prop
  | .commit t | .abort t => t ≠ txn
  | .release t page => ¬(t = txn ∧ page.table = table)
  | _ => True

section

variable {capacity : Nat} {history : History} {txn : TxnId} {table : TableId} {page : PageId}
  {x : Page} {e e₁ : Engine} {call : Call}

theorem Pinned.fetches {other : TxnId} {p : PageId} {mode : LockMode} {frame : Frame}
    (hcoherent : Coherent capacity e) (h : Pinned txn page x e)
    (hfetch : Fetches other p mode e frame e₁) : Pinned txn page x e₁ :=
  ⟨LockTable.holds_acquire? hfetch.acquire? h.held, by rw [hfetch.view?_eq hcoherent, h.view]⟩

/-- Changes of a transaction are remembered until it ends. -/
theorem History.pending_note (history : History) (catalog : Catalog)
    (hgoes : call.GoesOn txn table) (result : EStateM.Result Failure Engine Answer) :
    history.pending txn ⊆ (history.note catalog call result).pending txn := by
  have hadd : ∀ t change, history.pending txn ⊆ (history.add t change).pending txn := by
    intro t change
    simp only [History.add]
    split
    · exact List.subset_append_left _ _
    · exact fun _ h => h
  have hdrop : ∀ t ≠ txn, (history.drop t).pending txn = history.pending txn := by
    intro t hne
    simp only [History.drop, if_neg hne.symm]
  unfold History.note
  split
  · split
    · exact hadd _ _
    · exact fun _ h => h
  · exact hadd _ _
  · rw [History.commit]
    exact fun _ h => by rwa [hdrop _ hgoes]
  · rw [hdrop _ hgoes]
    exact fun _ h => h
  · rw [hdrop _ hgoes]
    exact fun _ h => h
  · exact fun _ h => h

theorem History.pending_noteAll (history : History) (calls : List Call)
    (hgoes : ∀ call ∈ calls, call.GoesOn txn table) (e : Engine) :
    history.pending txn ⊆ (history.noteAll e calls).pending txn := by
  induction calls generalizing history e with
  | nil => exact fun _ h => h
  | cons call calls ih =>
      have hfirst := history.pending_note e.catalog (hgoes call List.mem_cons_self) (call.run e)
      exact fun _ h => ih _ (fun c hc => hgoes c (List.mem_cons_of_mem _ hc)) _ (hfirst h)

theorem Call.KeepsLocks.of_append {calls more : List Call}
    (h : Call.KeepsLocks history (calls ++ more) e) : Call.KeepsLocks history calls e := by
  induction calls generalizing history e with
  | nil => trivial
  | cons call calls ih => exact ⟨h.1, ih h.2⟩

theorem Call.afterAll_append (calls more : List Call) (e : Engine) :
    Call.afterAll (calls ++ more) e = Call.afterAll more (Call.afterAll calls e) :=
  List.foldl_append

theorem History.noteAll_append (history : History) (calls more : List Call) (e : Engine) :
    history.noteAll e (calls ++ more)
      = (history.noteAll e calls).noteAll (Call.afterAll calls e) more := by
  induction calls generalizing history e with
  | nil => rfl
  | cons call calls ih => exact ih _ _

/-- An engine is in order before some calls. In their course the transaction goes on,
and has not changed the table at their end. -/
structure Ahead (capacity : Nat) (history : History) (txn : TxnId) (table : TableId)
    (calls : List Call) (e : Engine) : Prop where
  orderly : Orderly capacity history e
  within : Within e (Call.afterAll calls e)
  keeps : Call.KeepsLocks history calls e
  goes : ∀ call ∈ calls, call.GoesOn txn table
  untouched : ∀ change ∈ (history.noteAll e calls).pending txn, change.record.page.table ≠ table

theorem Ahead.left {calls more : List Call}
    (h : Ahead capacity history txn table (calls ++ more) e) :
    Ahead capacity history txn table calls e where
  orderly := h.orderly
  within := by
    have hwithin := h.within
    rw [Call.afterAll_append] at hwithin
    exact (Call.grows_all more _).within_left hwithin
  keeps := h.keeps.of_append
  goes call hmem := h.goes call (List.mem_append_left _ hmem)
  untouched change hmem := by
    refine h.untouched change ?_
    rw [History.noteAll_append]
    exact History.pending_noteAll _ more
      (fun call hmem => h.goes call (List.mem_append_right _ hmem)) _ hmem

theorem Ahead.right {calls more : List Call}
    (h : Ahead capacity history txn table (calls ++ more) e) :
    Ahead capacity (history.noteAll e calls) txn table more (Call.afterAll calls e) := by
  obtain ⟨horderly, hkeeps⟩ := h.orderly.run calls h.left.within h.keeps
  have hwithin := h.within
  have huntouched := h.untouched
  rw [Call.afterAll_append] at hwithin
  rw [History.noteAll_append] at huntouched
  exact {
    orderly := horderly
    within := (Call.grows_all calls e).within_right hwithin
    keeps := hkeeps
    goes := fun call hmem => h.goes call (List.mem_append_right _ hmem)
    untouched := huntouched }

theorem Ahead.orderly_after {calls : List Call} (h : Ahead capacity history txn table calls e) :
    Orderly capacity (history.noteAll e calls) (Call.afterAll calls e) :=
  (h.orderly.run calls h.within ((List.append_nil calls).symm ▸ h.keeps)).1

/-- An edit is a change. -/
theorem Call.exists_change {edit : Edit} (history : History) (catalog : Catalog)
    {result : EStateM.Result Failure Engine Answer} (h : call.edit? txn page result = some edit) :
    ∃ change ∈ (history.note catalog call result).pending txn, change.record.page = page := by
  unfold Call.edit? at h
  split at h
  · rename_i t table tuple stored e'
    split at h
    · rename_i record hrecord
      split at h
      · rename_i hown
        simp only [History.note, hrecord, History.add, if_pos hown.1.symm]
        exact ⟨_, List.mem_append_right _ (List.mem_singleton_self _), hown.2⟩
      · cases h
    · cases h
  · rename_i t record answer e'
    split at h
    · rename_i hown
      simp only [History.note, History.add, if_pos hown.1.symm]
      exact ⟨_, List.mem_append_right _ (List.mem_singleton_self _), hown.2⟩
    · cases h
  · cases h

/-- A page that a transaction holds, and has not changed, is clean. -/
theorem Orderly.clean (h : Orderly capacity history e) (hpinned : Pinned txn page x e)
    (hunchanged : ∀ change ∈ history.pending txn, change.record.page ≠ page) {frame : Frame}
    (hpeek : e.pool.cache.peek page = some frame) : frame.page.dirtier = none := by
  by_contra hdirty
  obtain ⟨writer, hwriter⟩ := Option.ne_none_iff_exists'.1 hdirty
  obtain rfl := (h.guarded.owned page frame writer hpeek hwriter).eq_of_holds hpinned.held
  obtain ⟨change, hchange, hpage⟩ := h.accounts page frame txn hpeek hwriter
  exact hunchanged change hchange hpage

/-- A page that its holder does not change stays as it is for him. -/
theorem Pinned.call_of_unchanged (h : Orderly capacity history e)
    (hwithin : Within e (call.after e)) (hgoes : call.GoesOn txn page.table)
    (hunchanged : ∀ change ∈ (history.note e.catalog call (call.run e)).pending txn,
      change.record.page ≠ page)
    (hpinned : Pinned txn page x e) : Pinned txn page x (call.after e) := by
  have hbefore : ∀ change ∈ history.pending txn, change.record.page ≠ page :=
    fun change hmem => hunchanged change (history.pending_note e.catalog hgoes (call.run e) hmem)
  have hspares : call.Spares txn page e := by
    cases call with
    | commit t => exact hgoes
    | abort t => exact hgoes
    | release t p => exact fun hboth => hgoes ⟨hboth.1, by rw [hboth.2]⟩
    | discard p => exact fun _ frame hpeek => h.clean hpinned hbefore hpeek
    | _ => trivial
  obtain ⟨y, hy, hlast⟩ := hpinned.call h.registered h.coherent h.guarded hwithin hspares
  cases hedit : call.edit? txn page (call.run e) with
  | none =>
      rw [hedit] at hy
      cases hy
      exact hlast
  | some edit =>
      obtain ⟨change, hmem, hpage⟩ := Call.exists_change history e.catalog hedit
      exact absurd hpage (hunchanged change hmem)

end

/-! ## The pages of a scan -/

/-- The transaction holds the first pages of a table, and sees these. -/
def PinsAll (txn : TxnId) (table : TableId) (pages : List Page) (e : Engine) : Prop :=
  ∀ (n : Nat) (x : Page), pages[n]? = some x → Pinned txn ⟨table, n.toUInt32⟩ x e

section

variable {capacity : Nat} {history : History} {txn : TxnId} {table : TableId} {file : HeapFile}
  {pages : List Page} {e e₁ e' : Engine}

theorem PinsAll.fetches {other : TxnId} {p : PageId} {mode : LockMode} {frame : Frame}
    (hcoherent : Coherent capacity e) (h : PinsAll txn table pages e)
    (hfetch : Fetches other p mode e frame e₁) : PinsAll txn table pages e₁ :=
  fun n x hx => (h n x hx).fetches hcoherent hfetch

theorem PinsAll.concat {x : Page} (h : PinsAll txn table pages e)
    (hx : Pinned txn ⟨table, pages.length.toUInt32⟩ x e) :
    PinsAll txn table (pages ++ [x]) e := by
  intro n y hy
  rcases Nat.lt_trichotomy n pages.length with hlt | rfl | hgt
  · rw [List.getElem?_append_left hlt] at hy
    exact h n y hy
  · rw [List.getElem?_concat_length] at hy
    cases hy
    exact hx
  · rw [List.getElem?_eq_none (by rw [List.length_append]; exact hgt)] at hy
    cases hy

/-- The pages of an unchanged table stay as they are for those who hold them. -/
theorem PinsAll.run {calls : List Call} (hahead : Ahead capacity history txn table calls e)
    (h : PinsAll txn table pages e) : PinsAll txn table pages (Call.afterAll calls e) := by
  induction calls generalizing history e with
  | nil => exact h
  | cons call calls ih =>
      have hfirst : Ahead capacity history txn table [call] e := Ahead.left hahead
      have hrest : Ahead capacity (history.noteAll e [call]) txn table calls
        (Call.afterAll [call] e) := Ahead.right hahead
      refine ih hrest fun n x hx => ?_
      refine (h n x hx).call_of_unchanged hahead.orderly hfirst.within
        (hfirst.goes call (List.mem_singleton_self _)) fun change hmem hpage => ?_
      exact hfirst.untouched change hmem (by rw [hpage])

/-- A scan that has gone through the given pages, and yielded the given items
until now. -/
structure Underway (txn : TxnId) (file : HeapFile) (pages : List Page) (yielded : List Item)
    (scan : Scan) (e : Engine) : Prop where
  file_eq : scan.file = file
  txn_eq : scan.txn = txn
  next_eq : scan.nextPage = pages.length.toUInt32
  few : pages.length < UInt32.size
  pinned : PinsAll txn file.id pages e
  items_eq : yielded ++ scan.pending.map .ok = (pages.flatMap Page.tuples).map .ok

theorem Underway.start (e : Engine) : Underway txn file [] [] (.start file txn) e :=
  ⟨rfl, rfl, rfl, by decide, fun _ _ h => absurd h (by simp), rfl⟩

/-- Pages that are read are pinned, one after the other. -/
theorem PinsAll.takePages_ends (stop : Item → Bool) (count : Nat) (hcoherent : Coherent capacity e)
    (h : PinsAll txn file.id pages e) (hfew : pages.length + count < UInt32.size) :
    (Scan.takePages stop file txn count pages.length.toUInt32).Ends e
      (fun answer e' => (∀ cause, .error cause ∉ answer.1) →
        (∀ name, e'.disk.content name = e.disk.content name) ∧
        ∃ more, Underway txn file (pages ++ more)
            ((pages.flatMap Page.tuples).map .ok ++ answer.1) answer.2 e' ∧
          ((∀ item ∈ answer.1, stop item = false) → more.length = count ∧ answer.2.pending = []))
      (fun _ _ => True) := by
  induction count generalizing pages e with
  | zero =>
      refine ends_pure.2 fun _ =>
        ⟨fun _ => rfl, [], ⟨rfl, rfl, ?_, ?_, ?_, ?_⟩, fun _ => ⟨rfl, rfl⟩⟩
      · rw [List.append_nil]
      · rwa [List.append_nil]
      · rwa [List.append_nil]
      · simp
  | succ count ih =>
      simp only [Scan.takePages, ends_bind, ends_attempt]
      refine (getPage_ends txn ⟨file.id, pages.length.toUInt32⟩ .read e).mono ?_ ?_
      · intro frame e₁ hfetch
        have hcoherent₁ := hcoherent.fetches hfetch
        have hpinned : Pinned txn ⟨file.id, pages.length.toUInt32⟩ frame.page e₁ :=
          ⟨LockTable.holds_of_acquire? hfetch.acquire?, view?_of_peek hfetch.peek⟩
        have hpins := (h.fetches hcoherent hfetch).concat hpinned
        have hnext : pages.length.toUInt32 + 1 = (pages ++ [frame.page]).length.toUInt32 := by
          simp [Nat.toUInt32, UInt32.ofNat_add]
        simp only [ends_pure]
        generalize hcut : cut stop (frame.page.tuples.map .ok) = cuts
        obtain ⟨taken, _ | rest⟩ := cuts
        · obtain rfl := cut_eq_none hcut
          simp only [ends_bind, ends_pure, hnext]
          have hfew₁ : (pages ++ [frame.page]).length + count < UInt32.size := by
            rw [List.length_append, List.length_singleton]
            omega
          refine (ih hcoherent₁ hpins hfew₁).mono ?_ fun _ _ _ => trivial
          rintro ⟨items, scan⟩ e₂ hrest herrors
          obtain ⟨hdisk, more, hunder, hend⟩ :=
            hrest fun cause hmem => herrors cause (List.mem_append_right _ hmem)
          refine ⟨fun name => (hdisk name).trans (hfetch.content_eq name), frame.page :: more,
            ?_, fun hstop => ?_⟩
          · simpa using hunder
          · obtain ⟨hlength, hpending⟩ :=
              hend fun item hmem => hstop item (List.mem_append_right _ hmem)
            exact ⟨congrArg (· + 1) hlength, hpending⟩
        · refine fun _ => ⟨hfetch.content_eq, [frame.page], ⟨rfl, rfl, hnext, ?_, hpins, ?_⟩, ?_⟩
          · rw [List.length_append, List.length_singleton]
            omega
          · simp only [List.append_assoc, append_pending hcut]
            simp
          · intro hstop
            obtain ⟨-, item, hmem, hitem⟩ := cut_eq_some hcut
            rw [hstop item hmem] at hitem
            cases hitem
      · rintro (cause | cause) e₁ -
        · have hcut : (cut stop [(.error cause : Item)]).1 = [.error cause] := by
            simp only [cut]
            split <;> rfl
          simp only [ends_pure]
          generalize cut stop [(.error cause : Item)] = cuts at hcut
          obtain ⟨taken, _ | rest⟩ := cuts
          all_goals obtain rfl := hcut
          · simp only [ends_bind, ends_pure]
            refine (takePages_moves stop file txn count _ e₁).mono ?_ fun _ _ _ => trivial
            exact fun _ _ _ herrors => absurd (List.mem_cons_self) (herrors cause)
          · exact fun herrors => absurd (List.mem_cons_self) (herrors cause)
        · trivial

/-- Pages that are held are in the file. -/
theorem PinsAll.length_le (hcoherent : Coherent capacity e)
    (hfile : e.catalog.file table = .ok file) (h : PinsAll txn table pages e)
    (hfew : pages.length < UInt32.size) {count : UInt32}
    (hcount : file.pageCount e.disk = .ok count) : pages.length ≤ count.toNat := by
  obtain ⟨-, hwhole⟩ := HeapFile.size_of_pageCount hcount
  by_contra hmore
  have hn : count.toNat < pages.length := Nat.lt_of_not_le hmore
  have hpinned := h count.toNat _ (List.getElem?_eq_getElem hn)
  obtain ⟨x, hx⟩ := Option.ne_none_iff_exists'.1 (hcoherent.stored_of_view hpinned.view)
  obtain ⟨file', hfile', hhas, -⟩ := stored?_eq_some_iff.1 hx
  obtain rfl := Except.ok.inj (hfile.symm.trans hfile')
  have hbelow := hhas.below
  rw [← hwhole, UInt32.lt_iff_toNat_lt, UInt32.toNat_ofNat_of_lt' (by omega)] at hbelow
  exact Nat.lt_irrefl _ hbelow

/-- A look at a scan takes it further. If nothing was there to stop at, it has
come to the end of the file. -/
theorem Underway.takeUntil_ends {scan : Scan} {yielded : List Item} (stop : Item → Bool)
    (hcoherent : Coherent capacity e) (hfile : e.catalog.file file.id = .ok file)
    (h : Underway txn file pages yielded scan e) :
    (scan.takeUntil stop).Ends e
      (fun answer e' => (∀ cause, .error cause ∉ answer.1) →
        ∃ more, Underway txn file (pages ++ more) (yielded ++ answer.1) answer.2 e' ∧
          ((∀ item ∈ answer.1, stop item = false) → answer.2.pending = [] ∧
            file.pageCount e'.disk = .ok (pages ++ more).length.toUInt32))
      (fun _ _ => True) := by
  have hitems := h.items_eq
  simp only [Scan.takeUntil]
  generalize hcut : cut stop (scan.pending.map .ok) = cuts
  obtain ⟨taken, _ | rest⟩ := cuts
  · obtain rfl := cut_eq_none hcut
    simp only [ends_bind, ends_pageCount, h.file_eq, h.txn_eq, h.next_eq]
    split
    · rename_i count hcount
      have hle := h.pinned.length_le hcoherent hfile h.few hcount
      have hnext : pages.length.toUInt32.toNat = pages.length :=
        UInt32.toNat_ofNat_of_lt' h.few
      have hlast := count.toNat_lt_size
      simp only [hnext]
      refine (h.pinned.takePages_ends stop (count.toNat - pages.length) hcoherent
        (by omega)).mono ?_ fun _ _ _ => trivial
      rintro ⟨items, scan'⟩ e' hread herrors
      obtain ⟨hdisk, more, hunder, hend⟩ :=
        hread fun cause hmem => herrors cause (List.mem_append_right _ hmem)
      refine ⟨more, ?_, fun hstop => ?_⟩
      · simpa only [← List.append_assoc, hitems] using hunder
      · obtain ⟨hlength, hpending⟩ :=
          hend fun item hmem => hstop item (List.mem_append_right _ hmem)
        refine ⟨hpending, ?_⟩
        obtain ⟨hsize, hwhole⟩ := HeapFile.size_of_pageCount hcount
        have hsame : file.wholePages e'.disk = file.wholePages e.disk := by
          rw [HeapFile.wholePages, hdisk, HeapFile.wholePages]
        rw [HeapFile.pageCount_eq hsize, hsame, ← hwhole, List.length_append, hlength,
          Nat.add_sub_cancel' hle]
        simp
    · trivial
  · refine ends_pure.2 fun _ => ⟨[], ?_, fun hstop => ?_⟩
    · refine ⟨h.file_eq, h.txn_eq, ?_, ?_, ?_, ?_⟩
      · simpa using h.next_eq
      · simpa using h.few
      · simpa using h.pinned
      · simpa only [List.append_assoc, append_pending hcut, List.append_nil] using hitems
    · obtain ⟨-, item, hmem, hitem⟩ := cut_eq_some hcut
      rw [hstop item hmem] at hitem
      cases hitem

end

/-! ## Reading a scan out -/

/-- A scan is read to its end in the course of calls, and yields these items. Any
other calls may stand between two looks at it; the last look has met nothing to
stop at. -/
inductive ReadsOut : Scan → List Call → Engine → List Item → Prop where
  | last {scan scan' : Scan} {stop : Item → Bool} {e e' : Engine} {items : List Item}
      (hlook : scan.takeUntil stop e = .ok (items, scan') e')
      (hend : ∀ item ∈ items, stop item = false) : ReadsOut scan [.scan stop scan] e items
  | look {scan scan' : Scan} {stop : Item → Bool} {e e' : Engine} {items more : List Item}
      {others calls : List Call} (hlook : scan.takeUntil stop e = .ok (items, scan') e')
      (hrest : ReadsOut scan' calls (Call.afterAll others e') more) :
      ReadsOut scan (.scan stop scan :: (others ++ calls)) e (items ++ more)

section

variable {capacity : Nat} {history : History} {txn : TxnId} {file : HeapFile}
  {pages : List Page} {e : Engine}

theorem Call.after_scan {scan scan' : Scan} {stop : Item → Bool} {items : List Item} {e' : Engine}
    (hlook : scan.takeUntil stop e = .ok (items, scan') e') :
    (Call.scan stop scan).after e = e' := by
  rw [Call.after, Call.run, after_map, after_of_ok hlook]

/-- The pages that a scan went through are held at its end, and its items are
the tuples on them. -/
theorem ReadsOut.pins {scan : Scan} {calls : List Call} {yielded items : List Item}
    (h : ReadsOut scan calls e items) (hahead : Ahead capacity history txn file.id calls e)
    (hfile : e.catalog.file file.id = .ok file)
    (hunder : Underway txn file pages yielded scan e) (herrors : ∀ cause, .error cause ∉ items) :
    ∃ all, PinsAll txn file.id all (Call.afterAll calls e) ∧ all.length < UInt32.size ∧
      yielded ++ items = (all.flatMap Page.tuples).map .ok ∧
      file.pageCount (Call.afterAll calls e).disk = .ok all.length.toUInt32 := by
  induction h generalizing history pages yielded with
  | @last scan scan' stop e e' items hlook hend =>
      obtain ⟨more, hunder', hlast⟩ :=
        (hunder.takeUntil_ends stop hahead.orderly.coherent hfile).of_ok hlook herrors
      obtain ⟨hpending, hcount⟩ := hlast hend
      have hitems := hunder'.items_eq
      rw [show scan'.pending = [] from hpending, List.map_nil, List.append_nil] at hitems
      refine ⟨pages ++ more, ?_, hunder'.few, hitems, ?_⟩
      · simpa only [Call.afterAll, List.foldl_cons, List.foldl_nil, Call.after_scan hlook]
          using hunder'.pinned
      · simpa only [Call.afterAll, List.foldl_cons, List.foldl_nil, Call.after_scan hlook]
          using hcount
  | @look scan scan' stop e e' items more others calls hlook hrest ih =>
      have hafter := Call.after_scan hlook
      obtain ⟨found, hunder', -⟩ :=
        (hunder.takeUntil_ends stop hahead.orderly.coherent hfile).of_ok hlook
          fun cause hmem => herrors cause (List.mem_append_left _ hmem)
      have hlooked : Ahead capacity (history.noteAll e [.scan stop scan]) txn file.id
        (others ++ calls) (Call.afterAll [.scan stop scan] e) := Ahead.right hahead
      simp only [Call.afterAll, List.foldl_cons, List.foldl_nil, hafter] at hlooked
      have hcatalog : (Call.afterAll others e').catalog = e.catalog := by
        rw [(Call.grows_all others e').catalog, ← hafter, (Call.grows _ e).catalog]
      obtain ⟨all, hall, hfew, hitems, hcount⟩ := ih hlooked.right (by rwa [hcatalog])
        { hunder' with pinned := hunder'.pinned.run hlooked.left }
        fun cause hmem => herrors cause (List.mem_append_right _ hmem)
      have hrun : Call.afterAll (.scan stop scan :: (others ++ calls)) e
          = Call.afterAll calls (Call.afterAll others e') := by
        rw [← Call.afterAll_append, ← hafter]
        rfl
      rw [hrun]
      exact ⟨all, hall, hfew, by rw [← List.append_assoc, hitems], hcount⟩

theorem Coherent.id_of_view {page : PageId} {x : Page} (h : Coherent capacity e)
    (hview : e.view? page = some x) : x.id = page := by
  cases hpeek : e.pool.cache.peek page with
  | some frame =>
      rw [view?_of_peek hpeek] at hview
      cases hview
      exact h.id_eq hpeek
  | none =>
      rw [view?_of_absent hpeek] at hview
      obtain ⟨file, -, -, rfl⟩ := stored?_eq_some_iff.1 hview
      rfl

/-- What is held is seen as one page only. -/
theorem PinsAll.flatMap_tuples_eq {table : TableId} {all : List Page}
    (h : PinsAll txn table pages e) (hall : PinsAll txn table all e)
    (hle : pages.length ≤ all.length) :
    (all.take pages.length).flatMap Page.tuples = pages.flatMap Page.tuples := by
  have hclean : (all.take pages.length).map Page.markClean = pages.map Page.markClean := by
    refine List.ext_getElem (by simp [hle]) fun n hn hn' => ?_
    simp only [List.length_map] at hn'
    have hpage := (h n _ (List.getElem?_eq_getElem hn')).view
    have hother := (hall n _ (List.getElem?_eq_getElem (Nat.lt_of_lt_of_le hn' hle))).view
    rw [hpage, Option.some.injEq] at hother
    simpa using hother.symm
  have htuples : ∀ pages : List Page,
      pages.flatMap Page.tuples = (pages.map Page.markClean).flatMap Page.tuples := by
    intro pages
    rw [List.flatMap_map]
    rfl
  rw [htuples, hclean, ← htuples]

/-- The tuples behind the first pages that are held are on later pages. -/
theorem PinsAll.later {table : TableId} {all : List Page} (hcoherent : Coherent capacity e)
    (h : PinsAll txn table all e) (hfew : all.length < UInt32.size) {count : Nat}
    (hcount : count < UInt32.size) {item : Item}
    (hmem : item ∈ ((all.drop count).flatMap Page.tuples).map .ok) :
    ∃ tuple record, item = .ok tuple ∧ tuple.record = some record ∧
      record.page.table = table ∧ count.toUInt32 ≤ record.page.page := by
  obtain ⟨tuple, htuple, rfl⟩ := List.mem_map.1 hmem
  obtain ⟨page, hpage, htuple⟩ := List.mem_flatMap.1 htuple
  obtain ⟨i, hi, rfl⟩ := List.getElem_of_mem hpage
  rw [List.length_drop] at hi
  have hat := h (count + i) _ (List.getElem?_eq_getElem (by omega))
  have hid := hcoherent.id_of_view hat.view
  obtain ⟨record, hrecord, hplace⟩ := Page.record_of_mem_tuples htuple
  rw [List.getElem_drop] at hplace
  refine ⟨tuple, record, rfl, hrecord, ?_, ?_⟩
  · rw [hplace]
    exact congrArg PageId.table hid
  · rw [hplace, show all[count + i].id.page = _ from congrArg PageId.page hid,
      UInt32.le_iff_toNat_le, UInt32.toNat_ofNat_of_lt' hcount,
      UInt32.toNat_ofNat_of_lt' (by omega)]
    exact Nat.le_add_right _ _

end

/-! ## Two scans -/

/-- In the course of a run a transaction scans a table to its end, and scans it
again, each time without errors. It does not end in between, and has not changed the
table. -/
structure ScansTwice (start : Engine) (file : HeapFile) (txn : TxnId)
    (done first between second : List Call) (items items' : List Item) : Prop where
  reads : ReadsOut (.start file txn) first (Call.afterAll done start) items
  rereads : ReadsOut (.start file txn) second
    (Call.afterAll (done ++ first ++ between) start) items'
  no_error : ∀ cause, .error cause ∉ items
  no_error' : ∀ cause, .error cause ∉ items'
  unended : ∀ call ∈ first ++ between ++ second, call ≠ .commit txn ∧ call ≠ .abort txn
  untouched : ∀ change ∈ (History.ofCalls (done ++ first ++ between ++ second) start).pending txn,
    change.record.page.table ≠ file.id

/-- A transaction that scans a table twice meets the same tuples at the same
addresses in the same order, if it does not give back a page of the table and nobody
gives back a page with his own changes. Behind them come those on pages that have
been appended since the end of the first scan: with no such page the items are the
same altogether. -/
theorem repeatable_scan {capacity : Nat} {start : Engine}
    (hreg : start.catalog.Registered) (hstart : start.pool = .empty capacity)
    {table : TableId} {file : HeapFile} (hfile : start.catalog.file table = .ok file)
    {txn : TxnId} {done first between second : List Call} {items items' : List Item}
    (htwice : ScansTwice start file txn done first between second items items')
    (hreleases : ∀ page, .release txn page ∈ first ++ between ++ second → page.table ≠ table)
    (hkeeps : Call.KeepsLocks .empty (done ++ first ++ between ++ second) start)
    (hwithin : Within start (Call.afterAll (done ++ first ++ between ++ second) start)) :
    ∃ count, file.pageCount (Call.afterAll (done ++ first) start).disk = .ok count ∧
      (∃ appended, items' = items ++ appended ∧
        ∀ item ∈ appended, ∃ tuple record, item = .ok tuple ∧ tuple.record = some record ∧
          record.page.table = table ∧ count ≤ record.page.page) ∧
      (file.pageCount (Call.afterAll (done ++ first ++ between ++ second) start).disk = .ok count →
        items' = items) := by
  obtain rfl : file.id = table := hreg.keyed _ _ hfile
  obtain ⟨hfirst, hsecond, herrors, herrors', hunended, huntouched⟩ := htwice
  have hgoes : ∀ call ∈ first ++ between ++ second, call.GoesOn txn file.id := by
    intro call hmem
    have hends := hunended call hmem
    cases call with
    | commit t => exact fun heq => hends.1 (by rw [heq])
    | abort t => exact fun heq => hends.2 (by rw [heq])
    | release t page => exact fun hboth => hreleases page (hboth.1 ▸ hmem) hboth.2
    | _ => trivial
  simp only [List.append_assoc, History.ofCalls, History.noteAll_append, Call.afterAll_append] at *
  have hgrows := Call.grows_all done start
  have hlast := Call.grows_all (first ++ (between ++ second)) (Call.afterAll done start)
  simp only [Call.afterAll_append] at hlast
  obtain ⟨horderly, hkeeps₀⟩ := Orderly.run
    ⟨hreg, .of_empty hstart, .of_empty hstart, .of_empty hstart⟩ done
    (hlast.within_left hwithin) hkeeps
  generalize Call.afterAll done start = e₀ at *
  -- From here on the transaction goes on and leaves the table alone.
  have hahead : Ahead capacity (History.empty.noteAll start done) txn file.id
      (first ++ (between ++ second)) e₀ := {
    orderly := horderly
    within := hgrows.within_right (by simpa only [Call.afterAll_append])
    keeps := hkeeps₀
    goes := hgoes
    untouched := by simpa only [History.noteAll_append] }
  have hahead₁ := hahead.right
  have hahead₂ := hahead₁.right
  have hcoherent := hahead₂.orderly_after.coherent
  have hfile₀ : e₀.catalog.file file.id = .ok file := by rwa [hgrows.catalog]
  have hfile₁ : (Call.afterAll first e₀).catalog.file file.id = .ok file := by
    rwa [(Call.grows_all first e₀).catalog]
  have hfile₂ : (Call.afterAll between (Call.afterAll first e₀)).catalog.file file.id
      = .ok file := by rwa [(Call.grows_all between _).catalog]
  obtain ⟨pages, hpages, hfew, hitems, hcount⟩ :=
    hfirst.pins hahead.left hfile₀ (.start e₀) herrors
  obtain ⟨all, hall, hfew', hitems', hcount'⟩ :=
    hsecond.pins hahead₂ hfile₂ (.start _) herrors'
  -- The pages of the first scan are still held, and seen, behind the second.
  have hpages₃ := (hpages.run hahead₁.left).run hahead₂
  have hle := hpages₃.length_le hcoherent (by rwa [(Call.grows_all second _).catalog]) hfew hcount'
  rw [UInt32.toNat_ofNat_of_lt' hfew'] at hle
  have hsplit : items'
      = items ++ ((all.drop pages.length).flatMap Page.tuples).map .ok := by
    rw [List.nil_append] at hitems hitems'
    rw [hitems, hitems', ← hpages₃.flatMap_tuples_eq hall hle, ← List.map_append,
      ← List.flatMap_append, List.take_append_drop]
  refine ⟨pages.length.toUInt32, hcount,
    ⟨_, hsplit, fun item hmem => hall.later hcoherent hfew' hfew hmem⟩, fun hsame => ?_⟩
  rw [hcount', Except.ok.injEq] at hsame
  have hlength := congrArg UInt32.toNat hsame
  rw [UInt32.toNat_ofNat_of_lt' hfew, UInt32.toNat_ofNat_of_lt' hfew'] at hlength
  rw [hsplit, ← hlength, List.drop_length]
  exact List.append_nil items

/-! ## Scans read in one go -/

/-- A scan that is read in one go. -/
def Call.whole (file : HeapFile) (txn : TxnId) : Call := .scan (fun _ => false) (.start file txn)

/-- Whether all that a scan meets is so many tuples. -/
def Engine.meets (engine : Engine) (scan : Scan) (count : Nat) : Bool :=
  match scan.rest engine with
  | .ok (items, _) _ => items.length == count && items.all Except.isOk
  | .error _ _ => false

theorem exists_readsOut {e : Engine} {file : HeapFile} {txn : TxnId} {count : Nat}
    (h : e.meets (.start file txn) count = true) :
    ∃ items, ReadsOut (.start file txn) [.whole file txn] e items ∧
      (∀ cause, .error cause ∉ items) ∧ items.length = count := by
  unfold Engine.meets at h
  split at h
  · rename_i items scan' e' hread
    rw [Bool.and_eq_true, beq_iff_eq, List.all_eq_true] at h
    refine ⟨items, .last hread fun _ _ => rfl, fun cause hmem => ?_, h.1⟩
    cases h.2 _ hmem
  · cases h

theorem exists_scansTwice {start : Engine} {file : HeapFile} {txn : TxnId}
    {done between : List Call} {count count' : Nat}
    (hreads : (Call.afterAll done start).meets (.start file txn) count = true)
    (hrereads : (Call.afterAll (done ++ [.whole file txn] ++ between) start).meets
      (.start file txn) count' = true)
    (hunended : ∀ call ∈ between, call ≠ .commit txn ∧ call ≠ .abort txn)
    (huntouched : ((History.ofCalls
      (done ++ [.whole file txn] ++ between ++ [.whole file txn]) start).pending txn).isEmpty) :
    ∃ items items', ScansTwice start file txn done [.whole file txn] between [.whole file txn]
      items items' ∧ items.length = count ∧ items'.length = count' := by
  obtain ⟨items, hitems, herrors, hcount⟩ := exists_readsOut hreads
  obtain ⟨items', hitems', herrors', hcount'⟩ := exists_readsOut hrereads
  refine ⟨items, items', ⟨hitems, hitems', herrors, herrors', fun call hmem => ?_, ?_⟩, hcount,
    hcount'⟩
  · simp only [List.mem_append, List.mem_singleton] at hmem
    rcases hmem with (rfl | hmem) | rfl
    · exact ⟨nofun, nofun⟩
    · exact hunended call hmem
    · exact ⟨nofun, nofun⟩
  · rw [List.isEmpty_iff.1 huntouched]
    exact nofun

/-- Between two scans somebody inserts behind a page that is full. -/
theorem repeatable_scan_fullPage :
    let start := Engine.twoTables 2 .none
    let file := HeapFile.pairs 0 "a"
    let put (value : Int32) : Call := .insert ⟨2⟩ ⟨0⟩ (.single value)
    ∃ items items', ScansTwice start file ⟨1⟩ [put 7, put 8, .commit ⟨2⟩] [.whole file ⟨1⟩]
        [put 9, .commit ⟨2⟩] [.whole file ⟨1⟩] items items' ∧
      items.length = 2 ∧ items'.length = 3 ∧ ∃ appended, items' = items ++ appended := by
  intro start file put
  have hother : (⟨2⟩ : TxnId) ≠ ⟨1⟩ := by decide
  have hcommit : Call.commit ⟨2⟩ ≠ .commit ⟨1⟩ := fun heq => hother (Call.commit.inj heq)
  obtain ⟨items, items', htwice, hcount, hcount'⟩ :=
    @exists_scansTwice start file ⟨1⟩ [put 7, put 8, .commit ⟨2⟩] [put 9, .commit ⟨2⟩] 2 3
      (by decide +kernel) (by decide +kernel) (by simp [put, hcommit]) (by decide +kernel)
  have hfile : start.catalog.file ⟨0⟩ = .ok file := by decide +kernel
  have hreleases : ∀ page, Call.release ⟨1⟩ page
      ∈ [.whole file ⟨1⟩] ++ [put 9, .commit ⟨2⟩] ++ [.whole file ⟨1⟩] → page.table ≠ ⟨0⟩ := by
    simp [put, Call.whole]
  have hkeeps : Call.KeepsLocks .empty ([put 7, put 8, .commit ⟨2⟩] ++ [.whole file ⟨1⟩]
      ++ [put 9, .commit ⟨2⟩] ++ [.whole file ⟨1⟩]) start :=
    ⟨nofun, nofun, nofun, nofun, nofun, nofun, nofun, trivial⟩
  have hwithin : Within start (Call.afterAll ([put 7, put 8, .commit ⟨2⟩] ++ [.whole file ⟨1⟩]
      ++ [put 9, .commit ⟨2⟩] ++ [.whole file ⟨1⟩]) start) := by
    intro id other hfile _
    rcases file_twoTables hfile with ⟨rfl, rfl⟩ | ⟨rfl, rfl⟩ <;> decide +kernel
  obtain ⟨count, -, ⟨appended, hsplit, -⟩, -⟩ := repeatable_scan (registered_twoTables 2 .none)
    rfl hfile htwice hreleases hkeeps hwithin
  exact ⟨items, items', htwice, hcount, hcount', appended, hsplit⟩

/-- The second scan of a transaction may meet other tuples than the first: a page
was appended, or it has given back the page itself, or somebody has given back a page
with changes, and then takes them back. -/
theorem rescan_may_differ :
    let start := Engine.twoTables 2 .none
    let file := HeapFile.pairs 0 "a"
    let put (value : Int32) : Call := .insert ⟨2⟩ ⟨0⟩ (.single value)
    let page : PageId := ⟨⟨0⟩, 0⟩
    (∃ items items', ScansTwice start file ⟨1⟩ [] [.whole file ⟨1⟩] [put 7, .commit ⟨2⟩]
        [.whole file ⟨1⟩] items items' ∧
      Call.KeepsLocks .empty [.whole file ⟨1⟩, put 7, .commit ⟨2⟩, .whole file ⟨1⟩] start ∧
      items.length = 0 ∧ items'.length = 1) ∧
    (∃ items items', ScansTwice start file ⟨1⟩ [put 7, .commit ⟨2⟩] [.whole file ⟨1⟩]
        [.release ⟨1⟩ page, put 8, .commit ⟨2⟩] [.whole file ⟨1⟩] items items' ∧
      items.length = 1 ∧ items'.length = 2) ∧
    (∃ items items', ScansTwice start file ⟨1⟩
        [put 7, .commit ⟨2⟩, put 8, .release ⟨2⟩ page] [.whole file ⟨1⟩] [.abort ⟨2⟩]
        [.whole file ⟨1⟩] items items' ∧
      items.length = 2 ∧ items'.length = 1) := by
  intro start file put page
  have hother : (⟨2⟩ : TxnId) ≠ ⟨1⟩ := by decide
  have hcommit : Call.commit ⟨2⟩ ≠ .commit ⟨1⟩ := fun heq => hother (Call.commit.inj heq)
  have habort : Call.abort ⟨2⟩ ≠ .abort ⟨1⟩ := fun heq => hother (Call.abort.inj heq)
  refine ⟨?_, ?_, ?_⟩
  · obtain ⟨items, items', htwice, hcount, hcount'⟩ :=
      @exists_scansTwice start file ⟨1⟩ [] [put 7, .commit ⟨2⟩] 0 1 (by decide +kernel)
        (by decide +kernel) (by simp [put, hcommit]) (by decide +kernel)
    exact ⟨items, items', htwice, ⟨nofun, nofun, nofun, nofun, trivial⟩, hcount, hcount'⟩
  · exact exists_scansTwice (by decide +kernel) (by decide +kernel) (by simp [put, hcommit])
      (by decide +kernel)
  · exact exists_scansTwice (by decide +kernel) (by decide +kernel) (by simp [habort])
      (by decide +kernel)

end HeapStore
