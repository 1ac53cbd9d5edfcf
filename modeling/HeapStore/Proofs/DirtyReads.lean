import HeapStore.Proofs.SlotMap
import HeapStore.Proofs.UnseenPages
import HeapStore.Proofs.Views

/-!
# No dirty reads

While a page has changes of one transaction, nothing that another one asks for
reads it (`Engine.Withholds`). The page itself is refused, and so is a delete there.
An insert puts its tuple on another page. A scan that comes by the page has the
refusal among its items where the tuples of the page would stand, and goes on with
the next page (`Scan.Misses`). All answers are those that the calls would give if
the page held other changes.

Headline: `lock_discipline`, for every state of a run in which no transaction gives
back the lock on a page with its changes.
-/

namespace HeapStore

open HeapStore.Action Engine

/-! ## What a scan yields -/

/-- The tuple has an address, on a page of this kind. -/
def Tuple.LiesOn (tuple : Tuple) (p : PageId → Prop) : Prop :=
  ∃ record, tuple.record = some record ∧ p record.page

theorem Tuple.LiesOn.mono {tuple : Tuple} {p q : PageId → Prop} (h : tuple.LiesOn p)
    (hpq : ∀ page, p page → q page) : tuple.LiesOn q := by
  obtain ⟨record, hrecord, hp⟩ := h
  exact ⟨record, hrecord, hpq _ hp⟩

/-- What a scan yields that misses a page, and what is left of it. No tuple lies on
the page, unless it was pending before. If the scan came by the page, there is the
refusal in its place: the tuples of the pages in front of it stand before, those of
the pages behind it after. -/
structure Scan.Misses (scan : Scan) (page : PageId) (items : List Item) (later : Scan) :
    Prop where
  absent : ∀ tuple, .ok tuple ∈ items ∨ tuple ∈ later.pending →
    tuple ∈ scan.pending ∨ tuple.LiesOn (· ≠ page)
  refusal : scan.file.id = page.table → scan.nextPage ≤ page.page → page.page < later.nextPage →
    ∃ before after, items = before ++ .error (.transactionAborted scan.txn page) :: after ∧
      (∀ tuple, .ok tuple ∈ before → tuple ∈ scan.pending ∨ tuple.LiesOn (·.page < page.page)) ∧
      ∀ tuple, .ok tuple ∈ after ∨ tuple ∈ later.pending → tuple.LiesOn (page.page < ·.page)

namespace Scan

variable {txn : TxnId} {page p : PageId} {file : HeapFile} {next : UInt32} {own more : List Item}
  {later : Scan} {stop : Item → Bool}

/-- The items of one page, for a scan that does not see `page`. -/
structure ItemsAt (txn : TxnId) (page p : PageId) (own : List Item) : Prop where
  tuples : ∀ tuple, .ok tuple ∈ own → p ≠ page ∧ tuple.LiesOn (· = p)
  refused : p = page → own = [.error (.transactionAborted txn page)]

/-- What a scan yields that goes on at a page, without looking at `page`. -/
structure PassesBy (txn : TxnId) (page : PageId) (file : HeapFile) (next : UInt32)
    (items : List Item) (later : Scan) : Prop where
  misses : Misses ⟨file, txn, next, []⟩ page items later
  next_le : next ≤ later.nextPage
  behind : ∀ tuple, .ok tuple ∈ items ∨ tuple ∈ later.pending → tuple.LiesOn (next ≤ ·.page)

theorem ItemsAt.refused_of_le (h : ItemsAt txn page ⟨file.id, next⟩ own)
    (htable : file.id = page.table) (hle : next ≤ page.page) (hge : page.page ≤ next) :
    own = [.error (.transactionAborted txn page)] := by
  refine h.refused ?_
  rw [htable, UInt32.le_antisymm hle hge]

/-- A scan that stops on a page. -/
theorem ItemsAt.stops {taken rest : List Item} (h : ItemsAt txn page ⟨file.id, next⟩ own)
    (hnext : next.toNat + 1 < UInt32.size) (hcut : cut stop own = (taken, some rest)) :
    PassesBy txn page file next taken ⟨file, txn, next + 1, rest.filterMap Except.toOption⟩ := by
  obtain ⟨happend, -⟩ := cut_eq_some hcut
  have hown : ∀ tuple, .ok tuple ∈ taken ∨ tuple ∈ rest.filterMap Except.toOption →
      .ok tuple ∈ own := by
    rintro tuple (hmem | hmem)
    · exact happend ▸ List.mem_append_left _ hmem
    · exact happend ▸ List.mem_append_right _ (Item.mem_filterMap_toOption.1 hmem)
  refine ⟨⟨fun tuple hmem => .inr ?_, fun htable hle hlt => ?_⟩, ?_, fun tuple hmem => ?_⟩
  · obtain ⟨hne, hlies⟩ := h.tuples tuple (hown tuple hmem)
    exact hlies.mono fun _ hpage => hpage ▸ hne
  · obtain rfl := h.refused_of_le htable hle ((lt_succ_iff_le hnext).1 hlt)
    simp only [cut] at hcut
    split at hcut <;> cases hcut
    refine ⟨[], [], rfl, ?_, ?_⟩ <;> simp
  · exact le_succ_of_lt hnext
  · exact (h.tuples tuple (hown tuple hmem)).2.mono fun _ hpage => hpage ▸ UInt32.le_refl next

/-- A scan that goes on behind a page. -/
theorem ItemsAt.goesOn (h : ItemsAt txn page ⟨file.id, next⟩ own)
    (hnext : next.toNat + 1 < UInt32.size)
    (hmore : PassesBy txn page file (next + 1) more later) :
    PassesBy txn page file next (own ++ more) later := by
  have hcases : ∀ tuple, .ok tuple ∈ own ++ more ∨ tuple ∈ later.pending →
      .ok tuple ∈ own ∨ (.ok tuple ∈ more ∨ tuple ∈ later.pending) := by
    rintro tuple (hmem | hmem)
    · exact (List.mem_append.1 hmem).imp_right .inl
    · exact .inr (.inr hmem)
  refine ⟨⟨fun tuple hmem => .inr ?_, fun htable hle hlt => ?_⟩,
    UInt32.le_trans (le_succ_of_lt hnext) hmore.next_le, fun tuple hmem => ?_⟩
  · rcases hcases tuple hmem with hmem | hmem
    · obtain ⟨hne, hlies⟩ := h.tuples tuple hmem
      exact hlies.mono fun _ hpage => hpage ▸ hne
    · exact (hmore.misses.absent tuple hmem).resolve_left nofun
  · -- The refusal is the one item of this page, or is among the items behind it.
    by_cases hge : page.page ≤ next
    · obtain rfl := h.refused_of_le htable hle hge
      refine ⟨[], more, rfl, nofun, fun tuple hmem => ?_⟩
      refine (hmore.behind tuple hmem).mono fun _ hpage => ?_
      exact UInt32.lt_of_le_of_lt hge ((succ_le_iff_lt hnext).1 hpage)
    · rw [UInt32.not_le] at hge
      obtain ⟨before, after, rfl, hbefore, hafter⟩ :=
        hmore.misses.refusal htable ((succ_le_iff_lt hnext).2 hge) hlt
      refine ⟨own ++ before, after, by rw [List.append_assoc], fun tuple hmem => .inr ?_, hafter⟩
      rcases List.mem_append.1 hmem with hmem | hmem
      · exact (h.tuples tuple hmem).2.mono fun _ hpage => hpage ▸ hge
      · exact (hbefore tuple hmem).resolve_left nofun
  · rcases hcases tuple hmem with hmem | hmem
    · exact (h.tuples tuple hmem).2.mono fun _ hpage => hpage ▸ UInt32.le_refl next
    · refine (hmore.behind tuple hmem).mono fun _ hpage => ?_
      exact UInt32.le_trans (le_succ_of_lt hnext) hpage

end Scan

section

variable {txn : TxnId} {page : PageId} {x : Page} {e : Engine} {frame : Frame}

/-- What a transaction finds on the pages that it looks at. -/
theorem Engine.Hides.itemsAt (h : e.Hides txn x) (page : PageId) :
    (Engine.getPage txn page .read).Ends e
      (fun frame _ => Scan.ItemsAt txn x.id page (frame.page.tuples.map .ok))
      (fun failure _ => ∀ cause, failure = .error cause →
        Scan.ItemsAt txn x.id page [.error cause]) := by
  by_cases hpage : page = x.id
  · subst hpage
    rw [Ends, h.getPage_eq]
    rintro cause hcause
    cases hcause
    exact ⟨fun _ hmem => by simp at hmem, fun _ => rfl⟩
  · refine (getPage_ends txn page .read e).mono ?_ fun _ _ _ cause _ => ?_
    · intro frame e₁ hfetch
      refine ⟨fun tuple hmem => ⟨hpage, ?_⟩, fun heq => absurd heq hpage⟩
      obtain ⟨other, hother, heq⟩ := List.mem_map.1 hmem
      cases heq
      have hkeyed := (h.quietPath hfetch.quiet).guarded.keyed _ _ hfetch.peek
      exact hkeyed ▸ Page.record_of_mem_tuples hother
    · exact ⟨fun _ hmem => by simp at hmem, fun heq => absurd heq hpage⟩

theorem Engine.Hides.passesBy (h : e.Hides txn x) (stop : Item → Bool) (file : HeapFile)
    (count : Nat) (next : UInt32) (hfits : next.toNat + count < UInt32.size) :
    (Scan.takePages stop file txn count next).Ends e
      (fun answer _ => Scan.PassesBy txn x.id file next answer.1 answer.2) (fun _ _ => True) := by
  induction count generalizing next e with
  | zero =>
      refine ⟨⟨fun _ hmem => hmem.elim nofun nofun, fun _ hle hlt => ?_⟩, UInt32.le_refl next,
        fun _ hmem => hmem.elim nofun nofun⟩
      exact absurd hle (UInt32.not_le.2 hlt)
  | succ count ih =>
      have hnext : next.toNat + 1 < UInt32.size := by omega
      have hsucc := toNat_succ_of_lt hnext
      have hgo : ∀ own e₁, Scan.ItemsAt txn x.id ⟨file.id, next⟩ own → e₁.Hides txn x →
          (Scan.goOn stop file txn count next (cut stop own)).Ends e₁
            (fun answer _ => Scan.PassesBy txn x.id file next answer.1 answer.2)
            (fun _ _ => True) := by
        intro own e₁ hown h₁
        rcases hcut : cut stop own with ⟨taken, _ | rest⟩
        · obtain rfl := cut_eq_none hcut
          rw [Scan.goOn, ends_bind]
          refine (ih h₁ (next + 1) (by omega)).mono ?_ fun _ _ _ => trivial
          exact fun _ _ hmore => hown.goesOn hnext hmore
        · exact hown.stops hnext hcut
      have hitems := h.itemsAt ⟨file.id, next⟩
      have hpath := getPage_moves txn ⟨file.id, next⟩ .read e
      -- A page that cannot be got is an item as well, so both ends of the get go on.
      unfold Ends at hitems hpath ⊢
      rw [takePages_succ]
      generalize Engine.getPage txn ⟨file.id, next⟩ .read e = result at hitems hpath
      rcases result with ⟨frame, e₁⟩ | ⟨cause | cause, e₁⟩
      · exact hgo _ e₁ hitems (h.quietPath hpath)
      · exact hgo _ e₁ (hitems cause rfl) (h.quietPath hpath)
      · trivial

/-- Every scan of the transaction misses the page. -/
theorem Engine.Hides.misses {scan : Scan} (h : e.Hides scan.txn x) (stop : Item → Bool) :
    (scan.takeUntil stop).Ends e (fun answer _ => scan.Misses x.id answer.1 answer.2)
      (fun _ _ => True) := by
  have hpending : ∀ tuple, .ok tuple ∈ (scan.pending.map .ok : List Item) ↔ tuple ∈ scan.pending :=
    fun tuple => by simp
  unfold Scan.takeUntil
  rcases hcut : cut stop (scan.pending.map .ok) with ⟨taken, _ | rest⟩
  · obtain rfl := cut_eq_none hcut
    simp only [ends_bind, ends_pageCount]
    split
    case h_2 => trivial
    rename_i count _
    have hfits : scan.nextPage.toNat + (count.toNat - scan.nextPage.toNat) < UInt32.size := by
      have hcount := count.toNat_lt
      have hnext := scan.nextPage.toNat_lt
      change _ < 2 ^ 32
      omega
    refine (h.passesBy stop scan.file _ scan.nextPage hfits).mono ?_ fun _ _ _ => trivial
    rintro ⟨more, later⟩ e₁ ⟨hmisses, -, -⟩
    refine ⟨fun tuple hmem => ?_, fun htable hle hlt => ?_⟩
    · rw [List.mem_append, hpending, or_assoc] at hmem
      exact hmem.imp_right fun hmem => (hmisses.absent tuple hmem).resolve_left nofun
    · obtain ⟨before, after, rfl, hbefore, hafter⟩ := hmisses.refusal htable hle hlt
      refine ⟨scan.pending.map .ok ++ before, after, (List.append_assoc ..).symm,
        fun tuple hmem => ?_, hafter⟩
      rw [List.mem_append, hpending] at hmem
      exact hmem.imp_right fun hmem => (hbefore tuple hmem).resolve_left nofun
  · obtain ⟨happend, -⟩ := cut_eq_some hcut
    refine ⟨fun tuple hmem => .inl ?_, fun _ hle hlt => absurd hle (UInt32.not_le.2 hlt)⟩
    rw [← hpending, ← happend, List.mem_append]
    exact hmem.imp_right Item.mem_filterMap_toOption.1

/-! ## Answers -/

/-- No call for the transaction `other` reads the page or uses it, as long as it has
changes of somebody else. -/
structure Engine.Withholds (e : Engine) (page : PageId) (other : TxnId) : Prop where
  getPage : ∀ access,
    Engine.getPage other page access e = .error (.error (.transactionAborted other page)) e
  scan : ∀ stop (scan : Scan) items later e', scan.txn = other →
    scan.takeUntil stop e = .ok (items, later) e' → scan.Misses page items later
  insert : ∀ table tuple stored e', Engine.insert other table tuple e = .ok stored e' →
    stored.LiesOn (· ≠ page)
  delete : ∀ record, record.page = page →
    ∃ cause, Engine.delete other (some record) e = .error (.error cause) e ∧
      ∀ file, e.catalog.file page.table = .ok file → file.id = page.table →
        cause = .transactionAborted other page
  /-- The calls give the same answers whatever changes the page has. -/
  blind : ∀ (call : Call) (x : Page), call.reader? = some other → x.id = page →
    x.isDirty = true → call.run.Blind x e
  /-- The page stays as it is, with the time of its last use. -/
  unused : ∀ call : Call, call.reader? = some other →
    (call.after e).pool.cache.entries[page]? = e.pool.cache.entries[page]?

/-- What is inserted comes to lie on a page that the transaction has for itself. -/
theorem Engine.Hides.liesOn_of_insert {table : TableId} {tuple stored : Tuple} {e' : Engine}
    (h : e.Hides txn x) (hinsert : Engine.insert txn table tuple e = .ok stored e') :
    stored.LiesOn (· ≠ x.id) := by
  cases (insert_ends txn table tuple e).of_ok hinsert with
  | mk hpath hpeek howns hput =>
      have h₁ := h.quietPath hpath
      refine ⟨_, rfl, ?_⟩
      rw [Page.page_of_insert hput, h₁.guarded.keyed _ _ hpeek]
      exact (h₁.ne_of_owns howns).symm

theorem Engine.Hides.refuses_delete {record : RecordId} (h : e.Hides txn x)
    (hrecord : record.page = x.id) :
    ∃ cause, Engine.delete txn (some record) e = .error (.error cause) e ∧
      ∀ file, e.catalog.file x.id.table = .ok file → file.id = x.id.table →
        cause = .transactionAborted txn x.id := by
  have hrun : ∀ file cause, e.catalog.file x.id.table = .ok file →
      file.delete txn (some record) e = .error (.error cause) e →
      Engine.delete txn (some record) e = .error (.error cause) e := by
    intro file cause hfile hdelete
    simp only [Engine.delete, bind_apply, fileOf_apply, hrecord, hfile, hdelete]
  cases hfile : e.catalog.file x.id.table with
  | error cause =>
      refine ⟨cause, ?_, fun file hfound _ => ?_⟩
      · simp only [Engine.delete, bind_apply, fileOf_apply, hrecord, hfile]
      · cases hfound
  | ok file =>
      -- A file that is not the one of the table is not even asked for the page.
      by_cases hid : x.id.table = file.id
      · refine ⟨_, hrun file (.transactionAborted txn x.id) hfile ?_, fun _ _ _ => rfl⟩
        simp only [HeapFile.delete, hrecord, hid, ne_eq, not_true, if_false, bind_apply,
          h.getPage_eq]
      · refine ⟨_, hrun file (.tupleNotFound record) hfile ?_, fun file' hfile hid' => ?_⟩
        · simp only [HeapFile.delete, hrecord, ne_eq, hid, not_false_eq_true, if_true]
          rfl
        · cases hfile
          exact absurd hid'.symm hid

theorem Guarded.withholds {writer other : TxnId} (h : Guarded e)
    (hpeek : e.pool.cache.peek page = some frame) (hdirty : frame.page.dirtier = some writer)
    (hne : other ≠ writer) : e.Withholds page other := by
  have hides : ∀ y : Page, y.id = page → y.isDirty = true → e.Hides other y := by
    rintro y rfl hy
    exact ⟨h, ⟨frame, writer, hpeek, hdirty, hne⟩, hy⟩
  have hid : frame.page.id = page := h.keyed page frame hpeek
  have hframe := hides frame.page hid (by rw [Page.isDirty, hdirty]; rfl)
  constructor
  · intro access
    exact hid ▸ hframe.getPage_eq access
  · rintro stop scan items later e' rfl hscan
    exact hid ▸ (hframe.misses stop).of_ok hscan
  · intro table tuple stored e' hinsert
    exact hid ▸ hframe.liesOn_of_insert hinsert
  · intro record hrecord
    exact hid ▸ hframe.refuses_delete (hrecord.trans hid.symm)
  · intro call y hcall hy hdirty
    exact Call.blind (hides y hy hdirty) hcall
  · intro call hcall
    exact Call.entries_eq h hcall hpeek hdirty hne

end

/-! ## The discipline -/

/-- In every state of a run that starts with an empty pool:

- the transaction that changed a resident page has its exclusive lock, and
  nobody else has a lock there;
- a commit or abort that leaves changes in the pool leaves the locks;
- the page is withheld from all other transactions. -/
theorem lock_discipline {capacity : Nat} {start e : Engine}
    (hstart : start.pool = .empty capacity) (hrun : Relation.ReflTransGen Step start e) :
    (∀ page frame writer, e.pool.cache.peek page = some frame →
      frame.page.dirtier = some writer →
      e.pool.locks.mode? writer page = some .exclusive ∧
        ∀ other, other ≠ writer → e.pool.locks.mode? other page = none) ∧
    (∀ txn call, call = Call.commit txn ∨ call = Call.abort txn →
      (call.after e).pool.dirtiedBy txn ≠ [] → (call.after e).pool.locks = e.pool.locks) ∧
    (∀ page frame writer other, e.pool.cache.peek page = some frame →
      frame.page.dirtier = some writer → other ≠ writer → e.Withholds page other) := by
  have h : Guarded e := (Guarded.of_empty hstart).run hrun
  refine ⟨?_, ?_, fun page frame writer other => h.withholds⟩
  · intro page frame writer hpeek hdirty
    have howns := h.owned page frame writer hpeek hdirty
    refine ⟨howns.mode?, fun other hne => ?_⟩
    simpa [LockTable.holds] using howns.not_holds hne
  · rintro txn call (rfl | rfl) hleft
    · have hafter : (Call.commit txn).after e = (Engine.commit txn).after e := after_map _ _ _
      rw [hafter] at hleft ⊢
      exact locks_commit hleft
    · have hafter : (Call.abort txn).after e = (Engine.abort txn).after e := after_map _ _ _
      rw [hafter] at hleft ⊢
      exact locks_abort hleft

/-- A transaction has changed a page and could not commit, as the catalog did not know
the table. Now the tables are back. -/
def Engine.stranded : Engine :=
  let inserted := (Call.insert ⟨1⟩ ⟨0⟩ (.single 7)).after (twoTables 2 .none)
  let failed := (Call.commit ⟨1⟩).after { inserted with catalog := .empty }
  { failed with catalog := (twoTables 2 .none).catalog }

/-- The failed commit has left the page locked. A second attempt, without the tables
again, leaves it so too, and another transaction's scan of the table has the
refusal among its items. -/
theorem lock_discipline_stranded :
    (stranded.pool.cache.peek ⟨⟨0⟩, 0⟩).map (fun frame => frame.page.dirtier) = some (some ⟨1⟩) ∧
      stranded.pool.locks.mode? ⟨1⟩ ⟨⟨0⟩, 0⟩ = some .exclusive ∧
      ((Call.commit ⟨1⟩).after { stranded with catalog := .empty }).pool.locks
        = stranded.pool.locks ∧
      ∃ items later e', (Scan.start (.pairs 0 "a") ⟨2⟩).rest stranded = .ok (items, later) e' ∧
        .error (.transactionAborted ⟨2⟩ ⟨⟨0⟩, 0⟩) ∈ items := by
  have hinsert : Step (twoTables 2 .none)
      ((Call.insert ⟨1⟩ ⟨0⟩ (.single 7)).after (twoTables 2 .none)) := .call nofun
  have hcommit : ∀ e, Step e ((Call.commit ⟨1⟩).after e) := fun _ => .call nofun
  have hrun : Relation.ReflTransGen Step (twoTables 2 .none) stranded :=
    .tail (.tail (.tail (.single hinsert) .surroundings) (hcommit _)) .surroundings
  have hdirty : (stranded.pool.cache.peek ⟨⟨0⟩, 0⟩).map (fun frame => frame.page.dirtier)
      = some (some ⟨1⟩) := by decide +kernel
  obtain ⟨frame, hpeek, hdirtier⟩ := Option.map_eq_some_iff.1 hdirty
  obtain ⟨howned, -, hwithheld⟩ := lock_discipline rfl hrun
  have hleft : ((Call.commit ⟨1⟩).after { stranded with catalog := .empty }).pool.dirtiedBy ⟨1⟩
      ≠ [] := by decide +kernel
  refine ⟨hdirty, (howned _ frame _ hpeek hdirtier).1,
    (lock_discipline rfl (hrun.tail .surroundings)).2.1 ⟨1⟩ _ (.inl rfl) hleft, ?_⟩
  -- The scan has come by the page when it ends.
  have hpast : (match (Scan.start (.pairs 0 "a") ⟨2⟩).rest stranded with
      | .ok (_, later) _ => some later.nextPage
      | .error _ _ => none) = some 1 := by decide +kernel
  split at hpast
  case h_2 => cases hpast
  rename_i items later e' hscan
  have hmisses := (hwithheld _ frame _ ⟨2⟩ hpeek hdirtier (by decide)).scan _ _ items later e' rfl
    hscan
  have hbehind : (0 : UInt32) < later.nextPage := by
    rw [Option.some.inj hpast]
    decide
  obtain ⟨before, after, rfl, -, -⟩ := hmisses.refusal rfl (UInt32.le_refl 0) hbehind
  exact ⟨_, later, e', hscan, List.mem_append_right before List.mem_cons_self⟩

end HeapStore
