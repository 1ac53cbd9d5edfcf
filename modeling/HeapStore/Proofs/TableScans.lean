import HeapStore.Proofs.Addresses
import HeapStore.Proofs.PageLooks
import HeapStore.Proofs.Transparency

/-!
# A scan from its start to its end

A scan that is asked for one item after the other, with nothing else in
between, looks at each page of its file once, from the first to the last
(`Scan.Walk`). What it yields are the items of these pages, one page behind the
other (`Scan.Walk.drains`): of a page that it is given the tuples in the used
slots, of one that it is refused the error.

On the way it may drop pages, also such as it has read before; but a look
disturbs nothing that a later look shows, so each page is shown as it was at the
start (`Scan.Walk.answers_getElem?`).

Headline: `scan_sees_each_tuple_once`.
-/

namespace HeapStore

open HeapStore.Action Engine

/-! ## Items and runs -/

/-- The items of a page, or of the refusal in its place. -/
def Scan.itemsOf : Except Error Page → List Item
  | .ok page => page.tuples.map .ok
  | .error cause => [.error cause]

/-- A scan that is asked for its next item until there is none yields these
items. -/
inductive Scan.Drains : Scan → Engine → List Item → Scan → Engine → Prop where
  | stop {scan last : Scan} {e e' : Engine} (hnext : scan.next e = .ok (none, last) e') :
      Drains scan e [] last e'
  | item {scan more last : Scan} {e e₁ e' : Engine} {item : Item} {items : List Item}
      (hnext : scan.next e = .ok (some item, more) e₁) (hrest : Drains more e₁ items last e') :
      Drains scan e (item :: items) last e'

/-- A scan that was pulled from, in whatever engines. -/
inductive Scan.Continues (scan : Scan) : Scan → Prop where
  | refl : Continues scan scan
  | pull {before later : Scan} {stop : Item → Bool} {items : List Item} {e e' : Engine}
      (h : Continues scan before) (hpull : before.takeUntil stop e = .ok (items, later) e') :
      Continues scan later

/-- Looks at the pages of a file, from the `n`-th on. -/
inductive Scan.Walk (file : HeapFile) (txn : TxnId) :
    Engine → (n : Nat) → List (Except Error Page) → Engine → Prop where
  | done {e : Engine} {n : Nat} : Walk file txn e n [] e
  | look {e e₁ e' : Engine} {n : Nat} {answer : Except Error Page}
      {answers : List (Except Error Page)}
      (hlook : Looks txn ⟨file.id, n.toUInt32⟩ e answer e₁)
      (hrest : Walk file txn e₁ (n + 1) answers e') : Walk file txn e n (answer :: answers) e'

section

variable {txn : TxnId} {file : HeapFile} {stop : Item → Bool} {item : Item} {items rest : List Item}
  {scan more last last' : Scan} {outcome : Except Error Frame} {answer : Except Error Page}
  {answers : List (Except Error Page)} {count : UInt32} {n : Nat} {e e₁ e' e'' : Engine}

/-- A scan has one way to run. -/
theorem Scan.Drains.unique {others : List Item} (h : scan.Drains e items last e')
    (h' : scan.Drains e others last' e'') : others = items ∧ last' = last ∧ e'' = e' := by
  induction h generalizing others with
  | stop hnext =>
      cases h' with
      | stop hnext' =>
          cases hnext.symm.trans hnext'
          exact ⟨rfl, rfl, rfl⟩
      | item hnext' _ => cases hnext.symm.trans hnext'
  | item hnext _ ih =>
      cases h' with
      | stop hnext' => cases hnext.symm.trans hnext'
      | item hnext' hrest' =>
          cases hnext.symm.trans hnext'
          obtain ⟨rfl, hlast, he⟩ := ih hrest'
          exact ⟨rfl, hlast, he⟩

/-- The first items of a scan, at most `k`. -/
def Scan.firstItems : (k : Nat) → Scan → Engine → List Item
  | 0, _, _ => []
  | k + 1, scan, e =>
    match scan.next e with
    | .ok (some item, more) e₁ => item :: firstItems k more e₁
    | _ => []

theorem Scan.Drains.firstItems_eq (h : scan.Drains e items last e') (k : Nat) :
    scan.firstItems k e = items.take k := by
  induction h generalizing k with
  | stop hnext =>
      cases k with
      | zero => rfl
      | succ k => rw [firstItems, hnext]; rfl
  | item hnext _ ih =>
      cases k with
      | zero => rfl
      | succ k => rw [firstItems, hnext, List.take_succ_cons]; exact congrArg _ (ih k)

/-! ## One pull -/

namespace Scan

theorem itemsOf_eq_cons (h : itemsOf answer = item :: rest) :
    rest = (rest.filterMap Except.toOption).map .ok := by
  cases answer with
  | error cause =>
      cases h
      rfl
  | ok page =>
      obtain ⟨tuple, tuples, -, -, rfl⟩ := List.map_eq_cons_iff.1 h
      rw [Item.filterMap_toOption]

theorem takePages_of_look {nextPage : UInt32} (k : Nat)
    (hlook : attempt (getPage txn ⟨file.id, nextPage⟩ .read) e = .ok outcome e₁) :
    takePages stop file txn (k + 1) nextPage e
      = goOn stop file txn k nextPage (cut stop (itemsOf (outcome.map Frame.page))) e₁ := by
  rw [takePages, bind_apply, hlook]
  cases outcome with
  | ok frame =>
      dsimp only [Except.map, itemsOf]
      generalize cut stop (frame.page.tuples.map .ok) = cuts
      obtain ⟨taken, _ | rest⟩ := cuts <;> rfl
  | error cause =>
      dsimp only [Except.map, itemsOf]
      generalize cut stop [.error cause] = cuts
      obtain ⟨taken, _ | rest⟩ := cuts <;> rfl

/-- A tuple that is pending is the next item. -/
theorem next_of_pending {tuple : Tuple} {tuples : List Tuple} (h : scan.pending = tuple :: tuples) :
    scan.next e = .ok (some (.ok tuple), { scan with pending := tuples }) e := by
  rw [next, takeUntil, h]
  simp only [List.map_cons, cut, if_true, Item.filterMap_toOption]
  rfl

/-- Without one, the pages that are left are looked at. -/
theorem next_of_empty (hcount : file.pageCount e.disk = .ok count) {nextPage : UInt32} :
    next ⟨file, txn, nextPage, []⟩ e
      = (do
          let (items, scan) ← takePages (fun _ => true) file txn
            (count.toNat - nextPage.toNat) nextPage
          return (items.head?, scan)) e := by
  have hpageCount : Engine.pageCount file e = .ok count e := by
    change ofResult (file.pageCount e.disk) e = .ok count e
    rw [hcount]
    rfl
  rw [next, takeUntil]
  simp only [List.map_nil, cut, bind_apply, hpageCount, List.nil_append]
  cases takePages (fun _ => true) file txn (count.toNat - nextPage.toNat) nextPage e <;> rfl

end Scan

/-! ## From page to page -/

theorem Engine.Undisturbed.pageCount_eq (h : e.Undisturbed e') (file : HeapFile) :
    file.pageCount e'.disk = file.pageCount e.disk := by
  simp only [HeapFile.pageCount, Disk.pageCount, Disk.sparse, h.files]

theorem toUInt32_succ (n : Nat) : n.toUInt32 + 1 = (n + 1).toUInt32 := by
  simp [Nat.toUInt32, UInt32.ofNat_add]

namespace Scan

/-- The scan of a file from a page on. -/
def fromPage (file : HeapFile) (txn : TxnId) (n : Nat) : Scan := ⟨file, txn, n.toUInt32, []⟩

section

variable (hlook : Looks txn ⟨file.id, n.toUInt32⟩ e answer e₁)
  (hcount : file.pageCount e.disk = .ok count) (hn : n < count.toNat)

include hlook hcount hn

theorem next_of_look :
    (fromPage file txn n).next e
      = (do
          let (items, scan) ← goOn (fun _ => true) file txn (count.toNat - (n + 1)) n.toUInt32
            (cut (fun _ => true) (itemsOf answer))
          return (items.head?, scan)) e₁ := by
  obtain ⟨outcome, hrun, rfl⟩ := hlook.run
  have hnat : n.toUInt32.toNat = n :=
    UInt32.toNat_ofNat_of_lt' (Nat.lt_trans hn count.toNat_lt)
  rw [fromPage, next_of_empty hcount, hnat, show count.toNat - n = count.toNat - (n + 1) + 1 by omega,
    bind_apply, takePages_of_look _ hrun, bind_apply]

/-- A page without tuples is passed over. -/
theorem next_of_look_nil (hitems : itemsOf answer = []) :
    (fromPage file txn n).next e = (fromPage file txn (n + 1)).next e₁ := by
  have hcount₁ := (hlook.undisturbed.pageCount_eq file).trans hcount
  have hnat : (n + 1).toUInt32.toNat = n + 1 :=
    UInt32.toNat_ofNat_of_lt' (Nat.lt_of_le_of_lt hn count.toNat_lt)
  rw [next_of_look hlook hcount hn, hitems, fromPage, next_of_empty hcount₁, hnat]
  simp only [cut, goOn, toUInt32_succ, bind_apply, List.nil_append]
  cases takePages (fun _ => true) file txn (count.toNat - (n + 1)) (n + 1).toUInt32 e₁ <;> rfl

/-- The first item of a page is yielded, and the others are pending. -/
theorem next_of_look_cons (hitems : itemsOf answer = item :: rest) :
    (fromPage file txn n).next e
      = .ok (some item, ⟨file, txn, (n + 1).toUInt32, rest.filterMap Except.toOption⟩) e₁ := by
  rw [next_of_look hlook hcount hn, hitems]
  simp only [cut, if_true, goOn, toUInt32_succ]
  rfl

end

/-- Behind the last page there is no item. -/
theorem next_of_past (hcount : file.pageCount e.disk = .ok count) (hn : n = count.toNat) :
    ∃ last, (fromPage file txn n).next e = .ok (none, last) e := by
  have hnat : n.toUInt32.toNat = n := UInt32.toNat_ofNat_of_lt' (hn ▸ count.toNat_lt)
  rw [fromPage, next_of_empty hcount, hnat, hn, Nat.sub_self]
  exact ⟨_, rfl⟩

theorem Drains.of_next_eq {other : Scan} (hnext : other.next e₁ = scan.next e)
    (h : scan.Drains e items last e') : other.Drains e₁ items last e' := by
  cases h with
  | stop hstop => exact .stop (hnext.trans hstop)
  | item hitem hrest => exact .item (hnext.trans hitem) hrest

/-- What is pending comes first. -/
theorem Drains.of_pending {nextPage : UInt32} (tuples : List Tuple)
    (h : Drains ⟨file, txn, nextPage, []⟩ e items last e') :
    Drains ⟨file, txn, nextPage, tuples⟩ e (tuples.map .ok ++ items) last e' := by
  induction tuples with
  | nil => exact h
  | cons tuple tuples ih => exact .item (next_of_pending rfl) ih

/-! ## The walk over all pages -/

namespace Walk

/-- A scan yields the items of the pages that it looks at. -/
theorem drains (h : Walk file txn e n answers e') (hcount : file.pageCount e.disk = .ok count)
    (hn : n + answers.length = count.toNat) :
    ∃ last, (fromPage file txn n).Drains e (answers.flatMap itemsOf) last e' := by
  induction h with
  | done =>
      obtain ⟨last, hnext⟩ := next_of_past hcount hn
      exact ⟨last, .stop hnext⟩
  | @look e e₁ e' n answer answers hlook _ ih =>
      rw [List.length_cons] at hn
      have hcount₁ := (hlook.undisturbed.pageCount_eq file).trans hcount
      obtain ⟨last, hrest⟩ := ih hcount₁ (by omega)
      refine ⟨last, ?_⟩
      rw [List.flatMap_cons]
      cases hitems : itemsOf answer with
      | nil =>
          exact hrest.of_next_eq (next_of_look_nil hlook hcount (by omega) hitems)
      | cons item rest =>
          refine .item (next_of_look_cons hlook hcount (by omega) hitems) ?_
          have hpending := Drains.of_pending (rest.filterMap Except.toOption) hrest
          rwa [← itemsOf_eq_cons hitems] at hpending

theorem undisturbed (h : Walk file txn e n answers e') : e.Undisturbed e' := by
  induction h with
  | done => exact .refl _
  | look hlook _ ih => exact hlook.undisturbed.trans ih

/-- Only locks of the transaction on these pages have changed. -/
theorem others (h : Walk file txn e n answers e') {other : TxnId} {p : PageId}
    (hother : other ≠ txn ∨ ∀ i < answers.length, p ≠ ⟨file.id, (n + i).toUInt32⟩) :
    e'.pool.locks.mode? other p = e.pool.locks.mode? other p := by
  induction h with
  | done => rfl
  | @look e e₁ e' n answer answers hlook _ ih =>
      rw [ih, hlook.others other p]
      · exact hother.imp_right fun hne => hne 0 (by simp)
      · refine hother.imp_right fun hne i hi => ?_
        have hpage := hne (i + 1) (by simpa using hi)
        rwa [Nat.add_right_comm]

/-- Each page is answered as if it had been the first to be asked for. -/
theorem answers_getElem? (h : Walk file txn e n answers e') {i : Nat}
    (hi : answers[i]? = some answer) : e.Answers txn ⟨file.id, (n + i).toUInt32⟩ answer := by
  induction h generalizing i with
  | done => cases hi
  | look hlook _ ih =>
      cases i with
      | zero =>
          cases hi
          exact hlook.answers
      | succ i =>
          have hlater := ih hi
          rw [Nat.add_right_comm] at hlater
          exact hlater.of_undisturbed hlook.undisturbed fun other hne =>
            hlook.others other _ (.inl hne)

/-- Each page that could be locked is locked in the end. -/
theorem locked (h : Walk file txn e n answers e') (hn : n + answers.length ≤ UInt32.size) {i : Nat}
    (hi : i < answers.length)
    (hadmits : e.pool.locks.Admits txn ⟨file.id, (n + i).toUInt32⟩ .shared) :
    ∃ mode, e'.pool.locks.mode? txn ⟨file.id, (n + i).toUInt32⟩ = some mode := by
  induction h generalizing i with
  | done => cases hi
  | @look e e₁ e' n answer answers hlook hrest ih =>
      rw [List.length_cons] at hn hi
      cases i with
      | zero =>
          rw [hrest.others (.inr fun j hj heq => ?_)]
          · exact hlook.locked hadmits
          · have hnat := congrArg (fun page => page.page.toNat) heq
            rw [UInt32.toNat_ofNat_of_lt' (by omega), UInt32.toNat_ofNat_of_lt' (by omega)] at hnat
            omega
      | succ i =>
          have hadmits₁ := (LockTable.admits_congr fun other hne =>
            hlook.others other _ (.inl hne)).2 hadmits
          rw [← Nat.add_assoc, Nat.add_right_comm] at hadmits₁ ⊢
          exact ih (by omega) (by omega) hadmits₁

end Walk

/-- The pages from one on can be looked at, in every state that one comes to
with a pool. -/
theorem exists_walk (k : Nat) (h : e.Reached) (hfile : e.catalog.file file.id = .ok file)
    (hcount : file.pageCount e.disk = .ok count) (hn : n + k = count.toNat) :
    ∃ answers e', answers.length = k ∧ Walk file txn e n answers e' := by
  induction k generalizing e n with
  | zero => exact ⟨[], e, rfl, .done⟩
  | succ k ih =>
      obtain ⟨hsize, hpages⟩ := HeapFile.size_of_pageCount hcount
      have hbelow : n.toUInt32 < (file.wholePages e.disk).toUInt32 := by
        rw [← hpages, UInt32.lt_iff_toNat_lt,
          UInt32.toNat_ofNat_of_lt' (Nat.lt_of_lt_of_le (by omega) (Nat.le_of_lt count.toNat_lt))]
        omega
      obtain ⟨answer, e₁, hlook⟩ := @Reached.looks ⟨file.id, n.toUInt32⟩ file e h txn hfile
        ⟨rfl, hsize, hbelow⟩
      obtain ⟨answers, e', hlength, hrest⟩ := ih hlook.reached
        (hlook.undisturbed.catalog ▸ hfile) ((hlook.undisturbed.pageCount_eq file).trans hcount)
        (show n + 1 + k = count.toNat by omega)
      exact ⟨answer :: answers, e', by rw [List.length_cons, hlength], .look hlook hrest⟩

/-! ## Rewinding -/

theorem takePages_ends (stop : Item → Bool) (file : HeapFile) (txn : TxnId) (k : Nat)
    (nextPage : UInt32) (e : Engine) :
    (takePages stop file txn k nextPage).Ends e
      (fun answer _ => answer.2.file = file ∧ answer.2.txn = txn) (fun _ _ => True) := by
  induction k generalizing nextPage e with
  | zero => exact ⟨rfl, rfl⟩
  | succ k ih =>
      have hgo : ∀ cuts e₁, (goOn stop file txn k nextPage cuts).Ends e₁
          (fun answer _ => answer.2.file = file ∧ answer.2.txn = txn) (fun _ _ => True) := by
        rintro ⟨taken, _ | rest⟩ e₁
        · rw [goOn, ends_bind]
          exact ih (nextPage + 1) e₁
        · exact ⟨rfl, rfl⟩
      unfold Ends
      rw [takePages_succ]
      rcases getPage txn ⟨file.id, nextPage⟩ .read e with ⟨frame, e₁⟩ | ⟨cause | cause, e₁⟩
      · exact hgo _ e₁
      · exact hgo _ e₁
      · trivial

theorem takeUntil_ends (stop : Item → Bool) (scan : Scan) (e : Engine) :
    (scan.takeUntil stop).Ends e (fun answer _ => answer.2.rewind = scan.rewind)
      (fun _ _ => True) := by
  rw [takeUntil]
  generalize cut stop (scan.pending.map .ok) = cuts
  obtain ⟨taken, _ | rest⟩ := cuts
  · simp only [ends_bind, ends_pageCount]
    split
    · refine (takePages_ends stop scan.file scan.txn _ scan.nextPage e).mono ?_ fun _ _ _ => trivial
      rintro ⟨items, later⟩ _ ⟨hfile, htxn⟩
      change Scan.start later.file later.txn = Scan.start scan.file scan.txn
      rw [hfile, htxn]
    · trivial
  · rfl

/-- A scan that is rewound starts over, wherever it was. -/
theorem Continues.rewind_eq {later : Scan} (h : scan.Continues later) :
    later.rewind = scan.rewind := by
  induction h with
  | refl => rfl
  | @pull before later stop items e e' _ hpull ih =>
      exact ((takeUntil_ends stop before e).of_ok hpull).trans ih

end Scan

/-! ## The tuples of a page and their addresses -/

/-- A page lists the tuples of its used slots, in the order of the slots, each
under the address of its slot. -/
structure Page.Lists (x : Page) (page : PageId) : Prop where
  slots : x.slotCount ≤ UInt16.size
  used : x.usedSlots = (List.range x.slotCount).filter x.isUsed
  tuples : x.tuples.map .ok = x.usedSlots.map fun slot => x.tuple slot.toUInt16
  records : x.tuples.map Tuple.record = x.usedSlots.map fun slot => some ⟨page, slot.toUInt16⟩

theorem Page.lists (x : Page) (hslots : x.slotCount ≤ UInt16.size) : x.Lists x.id :=
  ⟨hslots, x.usedSlots_eq, map_ok_tuples hslots, record_tuples hslots⟩

/-- The pages of a table, in the pool and in its file, have addresses for all
their slots. -/
structure Engine.FewSlots (e : Engine) (file : HeapFile) : Prop where
  stored : Page.slotsPerPage file.pageSize file.schema ≤ UInt16.size
  resident : ∀ n frame, e.pool.cache.peek ⟨file.id, n⟩ = some frame →
    frame.page.slotCount ≤ UInt16.size

theorem Engine.Shows.lists {x : Page} {n : UInt32} (h : e.Shows ⟨file.id, n⟩ x)
    (hkeyed : e.pool.Keyed) (hfile : e.catalog.file file.id = .ok file) (hfew : e.FewSlots file) :
    x.Lists ⟨file.id, n⟩ := by
  cases h with
  | resident hpeek =>
      have hlists := Page.lists _ (hfew.resident n _ hpeek)
      rwa [hkeyed _ _ hpeek] at hlists
  | reload hreloads =>
      obtain ⟨file', hfile', hhas, rfl⟩ := stored?_eq_some_iff.1 hreloads.stored
      obtain rfl := Except.ok.inj (hfile.symm.trans hfile')
      refine Page.lists _ ?_
      rw [Page.slotCount, Page.layout, Page.Layout.make, Page.size]
      change Page.slotsPerPage (file.pageBytes e.disk n).length file.schema ≤ UInt16.size
      rw [hhas.length_pageBytes]
      exact hfew.stored

/-- The addresses of the tuples among some items. -/
def addresses (items : List Item) : List RecordId :=
  items.filterMap fun item => item.toOption.bind Tuple.record

theorem addresses_of_ok {x : Page} {page : PageId} (h : x.Lists page) :
    addresses (Scan.itemsOf (.ok x)) = x.usedSlots.map fun slot => ⟨page, slot.toUInt16⟩ := by
  have hrecords := congrArg (List.filterMap id) h.records
  rw [List.filterMap_map, List.filterMap_map] at hrecords
  rw [addresses, Scan.itemsOf, List.filterMap_map, ← List.filterMap_eq_map]
  exact hrecords

/-- No address comes twice if each page lists its own. -/
theorem nodup_addresses {table : TableId} {shown : List (Except Error Page)}
    (hfew : shown.length ≤ UInt32.size)
    (hlists : ∀ (n : Nat) (x : Page), shown[n]? = some (.ok x) → x.Lists ⟨table, n.toUInt32⟩) :
    (addresses (shown.flatMap Scan.itemsOf)).Nodup := by
  have hpage : ∀ n (hn : n < shown.length), ∀ record ∈ addresses (Scan.itemsOf shown[n]),
      record.page = ⟨table, n.toUInt32⟩ := by
    intro n hn record hrecord
    cases hanswer : shown[n] with
    | error cause =>
        rw [hanswer] at hrecord
        cases hrecord
    | ok x =>
        rw [hanswer, addresses_of_ok (hlists n x (List.getElem?_eq_some_iff.2 ⟨hn, hanswer⟩))]
          at hrecord
        obtain ⟨slot, -, rfl⟩ := List.mem_map.1 hrecord
        rfl
  have hflat : addresses (shown.flatMap Scan.itemsOf)
      = shown.flatMap fun answer => addresses (Scan.itemsOf answer) := List.filterMap_flatMap ..
  rw [hflat, List.nodup_flatMap]
  refine ⟨fun answer hanswer => ?_, List.pairwise_iff_getElem.2 fun n m hn hm hlt record hn' hm' => ?_⟩
  · cases answer with
    | error cause => exact List.nodup_nil
    | ok x =>
        obtain ⟨n, hn⟩ := List.mem_iff_getElem?.1 hanswer
        have hx := hlists n x hn
        rw [addresses_of_ok hx]
        have hnodup := Page.nodup_record_tuples hx.slots
        rw [hx.records, ← Function.comp_def some, ← List.map_map] at hnodup
        exact List.Nodup.of_map some hnodup
  · have heq := (hpage n hn record hn').symm.trans (hpage m hm record hm')
    have hnat := congrArg (fun page => page.page.toNat) heq
    rw [UInt32.toNat_ofNat_of_lt' (by omega), UInt32.toNat_ofNat_of_lt' (by omega)] at hnat
    omega

end

/-! ## The scan of a table -/

/-- What a scan of a table that is run to its end yields, and what it leaves. -/
structure Engine.Scanned (e : Engine) (file : HeapFile) (txn : TxnId) (scan : Scan)
    (shown : List (Except Error Page)) (e' : Engine) : Prop where
  pages : (file.pageCount e.disk).map UInt32.toNat = .ok shown.length
  /-- Asked for the next item until there is none, it yields the items of the
  pages, page by page. -/
  drains : ∃ last, ∀ items last' e'', scan.Drains e items last' e'' ↔
    items = shown.flatMap Scan.itemsOf ∧ last' = last ∧ e'' = e'
  answers : ∀ (n : Nat) (answer : Except Error Page), shown[n]? = some answer →
    e.Answers txn ⟨file.id, n.toUInt32⟩ answer
  lists : ∀ (n : Nat) (x : Page), shown[n]? = some (.ok x) → x.Lists ⟨file.id, n.toUInt32⟩
  once : (addresses (shown.flatMap Scan.itemsOf)).Nodup
  undisturbed : e.Undisturbed e'
  /-- In a pool that agrees with the files, it shows what is there to be seen,
  and leaves it as it is. -/
  views : ∀ capacity, Coherent capacity e → (∀ page, e'.view? page = e.view? page) ∧
    ∀ (n : Nat) (x : Page), shown[n]? = some (.ok x) →
      e.view? ⟨file.id, n.toUInt32⟩ = some x.markClean
  locked : ∀ (n : Nat) (answer : Except Error Page), shown[n]? = some answer →
    answer ≠ .error (.transactionAborted txn ⟨file.id, n.toUInt32⟩) →
      ∃ mode, e'.pool.locks.mode? txn ⟨file.id, n.toUInt32⟩ = some mode
  others : ∀ other page, other ≠ txn →
    e'.pool.locks.mode? other page = e.pool.locks.mode? other page
  rewinds : ∀ later, scan.Continues later → later.rewind = scan

theorem Engine.Answers.admits {txn : TxnId} {page : PageId} {answer : Except Error Page}
    {e : Engine} (h : e.Answers txn page answer)
    (hne : answer ≠ .error (.transactionAborted txn page)) :
    e.pool.locks.Admits txn page .shared := by
  cases h with
  | aborted _ => exact absurd rfl hne
  | full hlock _ _ | shown hlock _ => exact hlock

/-- A walk over all pages of a file is what a scan from its start comes to. -/
theorem Scan.Walk.scanned {e e' : Engine} {file : HeapFile} {txn : TxnId}
    {shown : List (Except Error Page)} {count : UInt32} (hwalk : Walk file txn e 0 shown e')
    (hreached : e.Reached) (hfile : e.catalog.file file.id = .ok file) (hfew : e.FewSlots file)
    (hcount : file.pageCount e.disk = .ok count) (hlength : shown.length = count.toNat) :
    e.Scanned file txn (.start file txn) shown e' := by
  have hsmall : shown.length < UInt32.size := hlength ▸ count.toNat_lt_size
  have hanswers : ∀ (n : Nat) (answer : Except Error Page), shown[n]? = some answer →
      e.Answers txn ⟨file.id, n.toUInt32⟩ answer := fun n answer hn => by
    have hanswer := hwalk.answers_getElem? hn
    rwa [Nat.zero_add] at hanswer
  have hshows : ∀ (n : Nat) (x : Page), shown[n]? = some (.ok x) →
      e.Shows ⟨file.id, n.toUInt32⟩ x := fun n x hn => by
    cases hanswers n _ hn with
    | shown _ hshows => exact hshows
  have hlists := fun n x hn => (hshows n x hn).lists hreached.keyed hfile hfew
  obtain ⟨last, hdrains⟩ := hwalk.drains hcount (by omega)
  refine ⟨by rw [hcount, hlength]; rfl, ⟨last, fun items last' e'' => ⟨hdrains.unique, ?_⟩⟩,
    hanswers, hlists, nodup_addresses (Nat.le_of_lt hsmall) hlists, hwalk.undisturbed,
    fun capacity hcoherent => ⟨hwalk.undisturbed.view?_eq hcoherent,
      fun n x hn => (hshows n x hn).view?_eq hcoherent⟩,
    fun n answer hn hne => ?_, fun other page hne => hwalk.others (.inl hne),
    fun later hlater => hlater.rewind_eq⟩
  · rintro ⟨rfl, rfl, rfl⟩
    exact hdrains
  · obtain ⟨hlt, -⟩ := List.getElem?_eq_some_iff.1 hn
    have hlocked := hwalk.locked (by omega) hlt
    rw [Nat.zero_add] at hlocked
    exact hlocked ((hanswers n answer hn).admits hne)

theorem openScan_eq {e : Engine} {table : TableId} {file : HeapFile}
    (hfile : e.catalog.file table = .ok file) (txn : TxnId) (label : Option String) :
    ∃ opened, openScan txn table label e = .ok opened e ∧ opened.table = table ∧
      opened.scan = .start file txn := by
  rw [Catalog.file] at hfile
  cases hentry : e.catalog.entry table with
  | error cause =>
      rw [hentry] at hfile
      cases hfile
  | ok entry =>
      rw [hentry] at hfile
      cases hfile
      have hrun : openScan txn table label e
          = (ofExcept (e.catalog.entry table) >>= fun entry => pure
              { label := label.getD entry.name, table
                schema := entry.file.schema.aliased (label.getD entry.name)
                scan := .start entry.file txn }) e := rfl
      rw [hentry] at hrun
      exact ⟨_, hrun, rfl, rfl⟩

/-- In every state that one comes to with a pool, a scan of a known table whose
pages are not empty, and have addresses for all their slots, comes to its end.
It yields one page after the other, once each: the tuples of the used slots under
their addresses, from the copy in the pool or from the file; or one error if
the page is locked by another transaction, or if it has no room. Nothing is
changed that can be seen. -/
theorem scan_sees_each_tuple_once {e : Engine} (hreached : e.Reached) {table : TableId}
    {file : HeapFile} (hfile : e.catalog.file table = .ok file) (hsize : file.pageSize ≠ 0)
    (hfew : e.FewSlots file) (txn : TxnId) (label : Option String) :
    file.id = table ∧ ∃ opened, openScan txn table label e = .ok opened e ∧
      opened.table = table ∧ opened.scan = .start file txn ∧
      ∃ shown e', e.Scanned file txn opened.scan shown e' := by
  obtain rfl : file.id = table := hreached.indexed.id_of_file hfile
  obtain ⟨opened, hopen, htable, hscan⟩ := openScan_eq hfile txn label
  have hcount : file.pageCount e.disk = .ok (file.wholePages e.disk).toUInt32 :=
    HeapFile.pageCount_eq hsize
  obtain ⟨shown, e', hlength, hwalk⟩ := Scan.exists_walk _ hreached hfile hcount (Nat.zero_add _)
  exact ⟨rfl, opened, hopen, htable, hscan, shown, e',
    hscan ▸ hwalk.scanned hreached hfile hfew hcount hlength⟩

/-- In a pool of two pages, one of them with changes, the second page of a table
takes the place of the first one, whose tuples were yielded before. -/
theorem scan_sees_each_tuple_once_halfDirty :
    halfDirty.Reached ∧ halfDirty.catalog.file ⟨1⟩ = .ok (.pairs 1 "b") ∧
      halfDirty.FewSlots (.pairs 1 "b") ∧
      ∃ opened shown e', openScan ⟨3⟩ ⟨1⟩ none halfDirty = .ok opened halfDirty ∧
        halfDirty.Scanned (.pairs 1 "b") ⟨3⟩ opened.scan shown e' ∧ shown.length = 2 ∧
        (shown.flatMap Scan.itemsOf).map (fun item => item.toOption.map Tuple.fields)
          = [some [.int 1], some [.int 2], some [.int 3]] := by
  have hreached : halfDirty.Reached := .afterAll (.start rfl (indexed_twoTables 2 .none)) _
  have hfile : halfDirty.catalog.file ⟨1⟩ = .ok (.pairs 1 "b") := by decide +kernel
  have hresident : ∀ pair ∈ halfDirty.pool.cache.toList,
      pair.2.page.slotCount ≤ UInt16.size := by decide +kernel
  have hfew : halfDirty.FewSlots (.pairs 1 "b") :=
    ⟨by decide, fun n frame hpeek => hresident ⟨⟨⟨1⟩, n⟩, frame⟩ (Recency.mem_toList.2 hpeek)⟩
  obtain ⟨-, opened, hopen, -, hscan, shown, e', hscanned⟩ :=
    scan_sees_each_tuple_once hreached hfile (by decide) hfew ⟨3⟩ none
  refine ⟨hreached, hfile, hfew, opened, shown, e', hopen, hscanned, ?_, ?_⟩
  · have hpages := hscanned.pages
    have hcount : (HeapFile.pairs 1 "b").pageCount halfDirty.disk = .ok 2 := by decide +kernel
    rw [hcount] at hpages
    exact (Except.ok.inj hpages).symm
  · obtain ⟨last, hdrains⟩ := hscanned.drains
    have hfirst := ((hdrains _ _ _).2 ⟨rfl, rfl, rfl⟩).firstItems_eq 4
    have hfields : (opened.scan.firstItems 4 halfDirty).map
        (fun item => item.toOption.map Tuple.fields)
          = [some [.int 1], some [.int 2], some [.int 3]] := by
      rw [hscan]
      decide +kernel
    have hlength := congrArg List.length hfields
    rw [hfirst] at hfields hlength
    rwa [List.take_of_length_le] at hfields
    simp only [List.length_map, List.length_take, List.length_cons, List.length_nil] at hlength
    omega

/-- Where pages are empty there is no telling how many the file has, and a scan
breaks off at once: it has no items, but it has no end either. -/
theorem scan_may_break_off :
    unpaged.Reached ∧ (∃ file, unpaged.catalog.file ⟨0⟩ = .ok file ∧ unpaged.FewSlots file) ∧
      ∃ opened, openScan ⟨1⟩ ⟨0⟩ none unpaged = .ok opened unpaged ∧
        opened.scan.next unpaged = .error (.violation .zeroPageSize) unpaged ∧
        ∀ items last e', ¬opened.scan.Drains unpaged items last e' := by
  have hindexed : unpaged.catalog.Indexed :=
    CatalogCall.indexed_after .empty (.register _ "a" "")
  have hnext : (Scan.start { HeapFile.pairs 0 "a" with handle := ⟨0, "a", "a", 0⟩ } ⟨1⟩).next unpaged
      = .error (.violation .zeroPageSize) unpaged := rfl
  obtain ⟨opened, hopen, -, hscan⟩ := @openScan_eq unpaged ⟨0⟩ _ rfl ⟨1⟩ none
  refine ⟨.start rfl hindexed, ⟨_, rfl, by decide, fun n frame hpeek => ?_⟩, opened, hopen,
    hscan ▸ hnext, fun items last e' hdrains => ?_⟩
  · cases hpeek
  · rw [hscan] at hdrains
    cases hdrains with
    | stop hstop => cases hnext.symm.trans hstop
    | item hitem _ => cases hnext.symm.trans hitem

end HeapStore
