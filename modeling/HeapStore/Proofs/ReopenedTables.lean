import HeapStore.Proofs.Residents
import HeapStore.Proofs.TableIndexes

/-!
# Tables that go and come back

A table may be taken out of the catalog while pages of it are in the pool, and be
registered again later, in the same file: `home` tells the file of every table,
whether it is registered or not (`Catalog.DrawsOn`).

What is in the pool then stays as good as it was. The pages are whole pages of
their files, whatever happens to the files otherwise (`Engine.Backed`). And if
nobody else writes to resident pages, the pool is as coherent as with a catalog
that never forgets a table (`Engine.CoherentWith`): a ghost, which the engine does
not have and no proof about a single call has to know of.

Headline: `coherent_of_turns`, for states in which the tables of all resident pages
are registered.
-/

namespace HeapStore

open HeapStore.Action Engine

/-! ## Files of tables -/

/-- A file that is open a second time, as the same table. -/
structure HeapFile.Reopens (file old : HeapFile) : Prop where
  id : file.id = old.id
  name : file.handle.name = old.handle.name
  pageSize : file.pageSize = old.pageSize
  schema : file.schema = old.schema

/-- The page that a file has, without changes. -/
def HeapFile.pageOf (file : HeapFile) (disk : Disk) (page : PageId) : Page :=
  .ofBytes page file.schema (file.pageBytes disk page.page)

namespace Catalog

/-- The table is registered. -/
def Knows (catalog : Catalog) (table : TableId) : Prop := ∃ file, catalog.file table = .ok file

/-- Tables that are registered are in the files given for them. -/
def DrawsOn (catalog : Catalog) (home : TableId → HeapFile) : Prop :=
  ∀ table file, catalog.file table = .ok file → file.Reopens (home table)

end Catalog

variable {home : TableId → HeapFile} {e e' : Engine} {txn : TxnId} {page : PageId}
  {file old : HeapFile} {disk disk' : Disk} {capacity : Nat}

namespace HeapFile

theorem Reopens.wholePages_eq (h : file.Reopens old) (disk : Disk) :
    file.wholePages disk = old.wholePages disk := by
  rw [wholePages, wholePages, h.name, h.pageSize]

theorem Reopens.has_iff (h : file.Reopens old) : file.Has disk page ↔ old.Has disk page := by
  constructor
  · rintro ⟨htable, hsize, hbelow⟩
    exact ⟨h.id ▸ htable, h.pageSize ▸ hsize, h.wholePages_eq disk ▸ hbelow⟩
  · rintro ⟨htable, hsize, hbelow⟩
    exact ⟨h.id ▸ htable, fun heq => hsize (h.pageSize ▸ heq), h.wholePages_eq disk ▸ hbelow⟩

theorem Reopens.pageOf_eq (h : file.Reopens old) (disk : Disk) (page : PageId) :
    file.pageOf disk page = old.pageOf disk page := by
  have hsize : file.handle.pageSize = old.handle.pageSize := h.pageSize
  simp only [pageOf, pageBytes, Disk.pageOffset, h.pageSize, hsize, h.name, h.schema]

theorem pageOf_congr (h : ∀ name, disk'.content name = disk.content name) (page : PageId) :
    file.pageOf disk' page = file.pageOf disk page := by
  rw [pageOf, pageBytes, h, pageOf, pageBytes]

theorem pageOf_of_readPage {loaded : Page} (h : file.readPage disk page = .ok (loaded, disk')) :
    loaded = file.pageOf disk page := by
  rw [readPage_eq (has_of_readPage h)] at h
  cases h
  rfl

end HeapFile

namespace Catalog

variable {catalog : Catalog}

theorem file_eq_ok_iff {table : TableId} : catalog.file table = .ok file ↔
    ∃ entry : TableEntry, catalog.byId[table]? = some entry ∧ entry.file = file := by
  rw [Catalog.file, entry, entry?]
  cases catalog.byId[table]? <;> simp [Except.map]

theorem drawsOn_iff : catalog.DrawsOn home ↔
    ∀ (table : TableId) (entry : TableEntry), catalog.byId[table]? = some entry →
      entry.file.Reopens (home table) := by
  simp only [DrawsOn, file_eq_ok_iff]
  constructor
  · exact fun h table entry hentry => h table _ ⟨entry, hentry, rfl⟩
  · rintro h table _ ⟨entry, hentry, rfl⟩
    exact h table entry hentry

/-- A file that is registered has to be the one the table was in. Tables that lose
their name on this account do no harm. -/
theorem DrawsOn.register {name key : String} (h : catalog.DrawsOn home)
    (hfile : file.Reopens (home file.id)) : (catalog.register file name key).2.DrawsOn home := by
  unfold Catalog.register add
  cases catalog.rival? file with
  | some rival => exact h
  | none =>
      rw [drawsOn_iff] at h ⊢
      intro table entry hentry
      simp only [Std.ExtTreeMap.getElem?_insert, Std.LawfulEqCmp.compare_eq_iff_eq,
        byId_forgetId] at hentry
      split at hentry
      · rename_i htable
        cases hentry
        exact htable ▸ hfile
      · refine h table entry ?_
        unfold forgetName at hentry
        split at hentry
        · rw [Std.ExtTreeMap.getElem?_erase] at hentry
          split at hentry
          · cases hentry
          · exact hentry
        · exact hentry

end Catalog

/-! ## Pages of registered tables can be read -/

/-- The engines that one comes to with a pool: by any calls, and by changes of
files, catalog and log in between which leave each table in its file and cut no
file short. -/
inductive Engine.ReachedOver (home : TableId → HeapFile) : Engine → Prop where
  | start {e : Engine} {capacity : Nat} (hpool : e.pool = .empty capacity)
      (hdraws : e.catalog.DrawsOn home) : ReachedOver home e
  | call {e : Engine} (call : Call) (h : ReachedOver home e) : ReachedOver home (call.after e)
  | surroundings {e : Engine} {disk : Disk} {catalog : Catalog} {log : LogSink}
      (hdraws : catalog.DrawsOn home)
      (hlength : ∀ table, (e.disk.content (home table).handle.name).length ≤
        (disk.content (home table).handle.name).length)
      (h : ReachedOver home e) : ReachedOver home { e with disk, catalog, log }

theorem Engine.ReachedOver.afterAll (h : e.ReachedOver home) (calls : List Call) :
    (Call.afterAll calls e).ReachedOver home := by
  induction calls generalizing e with
  | nil => exact h
  | cons call calls ih => exact ih (h.call call)

/-- The pages in the pool are whole pages of their files. -/
structure Engine.Backed (home : TableId → HeapFile) (e : Engine) : Prop where
  keyed : e.pool.Keyed
  draws : e.catalog.DrawsOn home
  held : ∀ page frame, e.pool.cache.peek page = some frame →
    page.table = (home page.table).id ∧ (home page.table).pageSize ≠ 0 ∧
      page.page.toNat < (home page.table).wholePages e.disk

namespace Engine.Backed

theorem move (h : e.Backed home) (hmove : Move e e') : e'.Backed home := by
  have hgrows := hmove.grows
  refine ⟨hmove.keyed h.keyed, ?_, fun page frame hpeek => ?_⟩
  · rw [hgrows.catalog]
    exact h.draws
  have hle := hgrows.wholePages_le (home page.table)
  cases hmove.origin h.keyed hpeek with
  | kept hold _ _ _ =>
      obtain ⟨htable, hsize, hlt⟩ := h.held page _ hold
      exact ⟨htable, hsize, Nat.lt_of_lt_of_le hlt hle⟩
  | loaded hfile hhas _ _ =>
      have hhas := (h.draws _ _ hfile).has_iff.1 hhas
      exact ⟨hhas.table, hhas.size, Nat.lt_of_lt_of_le hhas.toNat_lt hle⟩

theorem movePath (h : e.Backed home) (hpath : MovePath e e') : e'.Backed home := by
  induction hpath with
  | refl => exact h
  | tail _ hmove ih => exact ih.move hmove

theorem call (h : e.Backed home) (call : Call) : (call.after e).Backed home := by
  rcases call.release_or_movePath e with ⟨txn, page, rfl⟩ | hpath
  · exact ⟨h.keyed, h.draws, h.held⟩
  · exact h.movePath hpath

theorem of_reached (h : e.ReachedOver home) : e.Backed home := by
  induction h with
  | start hpool hdraws =>
      refine ⟨fun page frame hpeek => ?_, hdraws, fun page frame hpeek => ?_⟩ <;>
        rw [hpool, Pool.peek_empty] at hpeek <;> cases hpeek
  | call call _ ih => exact ih.call call
  | surroundings hdraws hlength _ ih =>
      refine ⟨ih.keyed, hdraws, fun page frame hpeek => ?_⟩
      obtain ⟨htable, hsize, hlt⟩ := ih.held page frame hpeek
      exact ⟨htable, hsize, Nat.lt_of_lt_of_le hlt (Nat.div_le_div_right (hlength _))⟩

theorem has (h : e.Backed home) {frame : Frame} (hpeek : e.pool.cache.peek page = some frame)
    (hfew : (home page.table).wholePages e.disk < UInt32.size) :
    (home page.table).Has e.disk page :=
  (HeapFile.has_iff hfew).2 (h.held page frame hpeek)

end Engine.Backed

/-! ## Homes -/

/-- Every table has a file of its own. -/
structure Homes (home : TableId → HeapFile) : Prop where
  id : ∀ table, (home table).id = table
  apart : ∀ table other, (home table).handle.name = (home other).handle.name → table = other

theorem Catalog.DrawsOn.registered {catalog : Catalog} (hhomes : Homes home)
    (h : catalog.DrawsOn home) : catalog.Registered := by
  refine ⟨fun table file hfile => ?_, fun table other file file' hfile hfile' hname => ?_⟩
  · rw [(h table file hfile).id, hhomes.id]
  · refine hhomes.apart table other ?_
    rw [← (h table file hfile).name, hname, (h other file' hfile').name]

/-- What is stored of a page, when its table is registered. -/
theorem stored?_eq_some_iff_of_drawsOn {x : Page} (h : e.catalog.DrawsOn home) :
    e.stored? page = some x ↔ e.catalog.Knows page.table ∧ (home page.table).Has e.disk page ∧
      x = (home page.table).pageOf e.disk page := by
  rw [stored?_eq_some_iff]
  constructor
  · rintro ⟨file, hfile, hhas, rfl⟩
    have hopen := h _ _ hfile
    exact ⟨⟨file, hfile⟩, hopen.has_iff.1 hhas, hopen.pageOf_eq e.disk page⟩
  · rintro ⟨⟨file, hfile⟩, hhas, rfl⟩
    have hopen := h _ _ hfile
    exact ⟨file, hfile, hopen.has_iff.2 hhas, (hopen.pageOf_eq e.disk page).symm⟩

/-- The pool does not mind another catalog and other files, if all resident pages
are known there and are the same. -/
theorem Coherent.of_drawsOn (h : Coherent capacity e) (hdraws : e.catalog.DrawsOn home)
    (hdraws' : e'.catalog.DrawsOn home) (hpool : e'.pool = e.pool)
    (hthere : ∀ page frame, e.pool.cache.peek page = some frame →
      e'.catalog.Knows page.table ∧ (home page.table).Has e'.disk page ∧
        (home page.table).pageOf e'.disk page = (home page.table).pageOf e.disk page) :
    Coherent capacity e' := by
  refine ⟨by rw [hpool, h.capacity_eq], by rw [hpool]; exact h.size_le, fun page frame hpeek => ?_⟩
  rw [hpool] at hpeek
  obtain ⟨hstored, hlength, hclean⟩ := h.mirrors page frame hpeek
  obtain ⟨-, -, hbefore⟩ := (stored?_eq_some_iff_of_drawsOn hdraws).1 hstored
  obtain ⟨hknown, hhas, hkept⟩ := hthere page frame hpeek
  refine ⟨(stored?_eq_some_iff_of_drawsOn hdraws').2 ⟨hknown, hhas, ?_⟩, hlength, hclean⟩
  rw [hkept, hbefore]

/-! ## Moves with more tables -/

/-- Each table that the one catalog knows is in the same file for the other. -/
def Catalog.Extends (kept catalog : Catalog) : Prop :=
  ∀ table file, catalog.file table = .ok file → kept.file table = .ok file

/-- The engine with another catalog. -/
def Engine.withCatalog (e : Engine) (catalog : Catalog) : Engine := { e with catalog }

section

variable {kept : Catalog} {mode : LockMode} {frame : Frame}

theorem MakesRoom.withCatalog (h : MakesRoom e e') (kept : Catalog) :
    MakesRoom (e.withCatalog kept) (e'.withCatalog kept) := by
  cases h with
  | spare hroom => exact .spare hroom
  | evict hfull hvictim => exact .evict hfull hvictim

theorem Fetches.withCatalog (hkept : kept.Extends e.catalog)
    (h : Fetches txn page mode e frame e') :
    Fetches txn page mode (e.withCatalog kept) frame (e'.withCatalog kept) := by
  cases h with
  | hit hlock hpeek => exact .hit hlock hpeek
  | @miss e₁ locks file loaded disk hlock habsent hfile hroom hread =>
      exact @Fetches.miss txn page mode (e.withCatalog kept) (e₁.withCatalog kept) locks file loaded
        disk hlock habsent (hkept _ _ hfile) (hroom.withCatalog kept) hread

theorem Quiet.withCatalog (hkept : kept.Extends e.catalog) (h : Quiet txn e e') :
    Quiet txn (e.withCatalog kept) (e'.withCatalog kept) := by
  cases h with
  | lock hlock => exact .lock hlock
  | use hheld hpeek => exact .use hheld hpeek
  | drop hpeek hclean => exact .drop hpeek hclean
  | @load e₁ page file loaded disk habsent hfile hroom hread =>
      exact @Quiet.load txn (e.withCatalog kept) (e₁.withCatalog kept) page file loaded disk habsent
        (hkept _ _ hfile) (hroom.withCatalog kept) hread
  | append hfile happend => exact .append (hkept _ _ hfile) happend
  | @giveBack e₁ page frame hheld hfetch =>
      exact @Quiet.giveBack txn (e.withCatalog kept) (e₁.withCatalog kept) page frame hheld
        (hfetch.withCatalog hkept)

/-- What is done to registered tables can be done when there are more of them. -/
theorem Move.withCatalog (hkept : kept.Extends e.catalog) (h : Move e e') :
    Move (e.withCatalog kept) (e'.withCatalog kept) := by
  cases h with
  | quiet hmove => exact .quiet (hmove.withCatalog hkept)
  | change hpeek howns hchanged => exact .change hpeek howns hchanged
  | log => exact .log
  | writeBack hwrites =>
      cases hwrites with
      | clean hclean => exact .writeBack (.clean hclean)
      | dirty hpeek hdirty hfile hlog hwrite =>
          exact .writeBack (.dirty hpeek hdirty (hkept _ _ hfile) hlog hwrite)
  | restore hresident hrestores =>
      cases hrestores with
      | mk hfile hread => exact .restore hresident (.mk (hkept _ _ hfile) hread)
  | letGo => exact .letGo
  | discard => exact .discard

theorem MovePath.withCatalog (hkept : kept.Extends e.catalog) (h : MovePath e e') :
    MovePath (e.withCatalog kept) (e'.withCatalog kept) := by
  induction h with
  | refl => exact .refl
  | tail hpath hmove ih =>
      refine ih.tail (hmove.withCatalog ?_)
      rwa [(MovePath.grows hpath).catalog]

end

/-! ## A catalog that forgets no table -/

/-- The tables of two catalogs. Where both know a table, it is in the file that the
first one says. -/
def Catalog.union (catalog kept : Catalog) : Catalog :=
  { byId := kept.byId ∪ catalog.byId, byName := catalog.byName }

namespace Catalog

variable {catalog kept : Catalog} {table : TableId}

theorem file_union : (catalog.union kept).file table = .ok file ↔
    catalog.file table = .ok file ∨ ¬catalog.Knows table ∧ kept.file table = .ok file := by
  have hnot : ¬catalog.Knows table ↔ catalog.byId[table]? = none := by
    simp only [Knows, file_eq_ok_iff]
    cases catalog.byId[table]? <;> simp
  rw [hnot, file_eq_ok_iff, file_eq_ok_iff, file_eq_ok_iff]
  simp only [union, Std.ExtTreeMap.getElem?_union]
  cases catalog.byId[table]? <;> simp

theorem extends_union (catalog kept : Catalog) : (catalog.union kept).Extends catalog :=
  fun _ _ hfile => file_union.2 (.inl hfile)

theorem Knows.union (h : kept.Knows table) (catalog : Catalog) :
    (catalog.union kept).Knows table := by
  by_cases hknown : catalog.Knows table
  · exact hknown.imp fun _ hfile => file_union.2 (.inl hfile)
  · exact h.imp fun _ hfile => file_union.2 (.inr ⟨hknown, hfile⟩)

theorem DrawsOn.union (h : catalog.DrawsOn home) (hkept : kept.DrawsOn home) :
    (catalog.union kept).DrawsOn home := by
  intro table file hfile
  rcases file_union.1 hfile with hfile | ⟨-, hfile⟩
  · exact h table file hfile
  · exact hkept table file hfile

end Catalog

/-- With a catalog in which tables stay that are gone, the engine is coherent. -/
structure Engine.CoherentWith (home : TableId → HeapFile) (capacity : Nat) (kept : Catalog)
    (e : Engine) : Prop where
  draws : kept.DrawsOn home
  covers : kept.Extends e.catalog
  coherent : Coherent capacity (e.withCatalog kept)

/-! ## Runs -/

/-- A step of a run: a call, or a change of files, catalog and log in between which
leaves each table in its file, cuts no file short, and writes to no page that is in
the pool. -/
inductive Engine.Turn (home : TableId → HeapFile) : Engine → Engine → Prop where
  | call {e : Engine} (call : Call) : Turn home e (call.after e)
  | surroundings {e : Engine} {disk : Disk} {catalog : Catalog} {log : LogSink}
      (hdraws : catalog.DrawsOn home)
      (hlength : ∀ table, (e.disk.content (home table).handle.name).length ≤
        (disk.content (home table).handle.name).length)
      (hkept : ∀ page ∈ e.pool.cache.keys,
        (home page.table).pageOf disk page = (home page.table).pageOf e.disk page) :
      Turn home e { e with disk, catalog, log }

namespace Engine.Turn

theorem reachedOver (hturn : Turn home e e') (h : e.ReachedOver home) : e'.ReachedOver home := by
  cases hturn with
  | call call => exact h.call call
  | surroundings hdraws hlength _ => exact h.surroundings hdraws hlength

theorem wholePages_le (hturn : Turn home e e') (table : TableId) :
    (home table).wholePages e.disk ≤ (home table).wholePages e'.disk := by
  cases hturn with
  | call call => exact (call.grows e).wholePages_le _
  | surroundings _ hlength _ => exact Nat.div_le_div_right (hlength table)

end Engine.Turn

theorem turns_afterAll (home : TableId → HeapFile) (calls : List Call) (e : Engine) :
    Relation.ReflTransGen (Turn home) e (Call.afterAll calls e) := by
  induction calls generalizing e with
  | nil => exact .refl
  | cons call calls ih => exact .head (.call call) (ih _)

namespace Engine.CoherentWith

variable {kept : Catalog}

theorem call (hhomes : Homes home) (h : e.CoherentWith home capacity kept) (call : Call)
    (hfew : ∀ table, (home table).wholePages (call.after e).disk < UInt32.size) :
    (call.after e).CoherentWith home capacity kept := by
  refine ⟨h.draws, (call.grows e).catalog ▸ h.covers, ?_⟩
  rcases call.release_or_movePath e with ⟨txn, page, rfl⟩ | hpath
  · exact h.coherent.release txn page
  · refine h.coherent.movePath (h.draws.registered hhomes) ?_ (hpath.withCatalog h.covers)
    intro table file hfile _
    rw [(h.draws table file hfile).wholePages_eq]
    exact hfew table

/-- The catalog in which tables stay takes in those that are new. -/
theorem surroundings {catalog : Catalog} {log : LogSink} (h : e.CoherentWith home capacity kept)
    (hback : Backed home { e with disk, catalog, log })
    (hkept : ∀ page ∈ e.pool.cache.keys,
      (home page.table).pageOf disk page = (home page.table).pageOf e.disk page)
    (hfew : ∀ table, (home table).wholePages disk < UInt32.size) :
    Engine.CoherentWith home capacity (catalog.union kept) { e with disk, catalog, log } := by
  have hdraws := hback.draws.union h.draws
  refine ⟨hdraws, catalog.extends_union kept, ?_⟩
  refine h.coherent.of_drawsOn h.draws hdraws rfl fun page frame hpeek => ?_
  have hstored := (h.coherent.mirrors page frame hpeek).stored
  obtain ⟨hknown, -, -⟩ := (stored?_eq_some_iff_of_drawsOn h.draws).1 hstored
  exact ⟨hknown.union catalog, hback.has hpeek (hfew _),
    hkept page (Recency.mem_keys_of_peek hpeek)⟩

theorem turns {start : Engine} (hhomes : Homes home) (hstart : start.pool = .empty capacity)
    (hdraws : start.catalog.DrawsOn home) (hrun : Relation.ReflTransGen (Turn home) start e)
    (hfew : ∀ table, (home table).wholePages e.disk < UInt32.size) :
    e.ReachedOver home ∧ ∃ kept, e.CoherentWith home capacity kept := by
  induction hrun with
  | refl => exact ⟨.start hstart hdraws, _, hdraws, fun _ _ hfile => hfile, .of_empty hstart⟩
  | tail _ hturn ih =>
      obtain ⟨hreached, kept, h⟩ := ih fun table =>
        Nat.lt_of_le_of_lt (hturn.wholePages_le table) (hfew table)
      have hreached' := hturn.reachedOver hreached
      refine ⟨hreached', ?_⟩
      cases hturn with
      | call call => exact ⟨kept, h.call hhomes call hfew⟩
      | surroundings _ _ hkept => exact ⟨_, h.surroundings (.of_reached hreached') hkept hfew⟩

end Engine.CoherentWith

/-- Whatever tables were gone meanwhile: when all that have resident pages are back,
the engine is coherent, and each table has its own file. -/
theorem coherent_of_turns {start : Engine} (hhomes : Homes home)
    (hstart : start.pool = .empty capacity) (hdraws : start.catalog.DrawsOn home)
    (hrun : Relation.ReflTransGen (Turn home) start e)
    (hfew : ∀ table, (home table).wholePages e.disk < UInt32.size)
    (hknown : ∀ page ∈ e.pool.cache.keys, e.catalog.Knows page.table) :
    Coherent capacity e ∧ e.catalog.Registered := by
  obtain ⟨hreached, kept, h⟩ := CoherentWith.turns hhomes hstart hdraws hrun hfew
  have hback := Backed.of_reached hreached
  refine ⟨h.coherent.of_drawsOn h.draws hback.draws rfl fun page frame hpeek => ?_,
    hback.draws.registered hhomes⟩
  exact ⟨hknown page (Recency.mem_keys_of_peek hpeek), hback.has hpeek (hfew _), rfl⟩

/-! ## Homes of the two tables -/

/-- Every table has a file of its own. The first two are those of the small
engine. -/
def Engine.ownHomes (table : TableId) : HeapFile :=
  .pairs table.val.toNat
    (if table = ⟨0⟩ then "a" else String.ofList (List.replicate table.val.toNat 'b'))

theorem homes_ownHomes : Homes ownHomes := by
  have hname : ∀ table, (ownHomes table).handle.name
      = if table = ⟨0⟩ then "a" else String.ofList (List.replicate table.val.toNat 'b') :=
    fun _ => rfl
  have hne : ∀ n, "a" ≠ String.ofList (List.replicate n 'b') := by
    intro n heq
    have hlist : ['a'] = List.replicate n 'b' := by simpa using congrArg String.toList heq
    have hmem : 'a' ∈ List.replicate n 'b' := hlist ▸ List.mem_singleton_self _
    exact absurd (List.mem_replicate.1 hmem).2 (by decide)
  refine ⟨fun table => ?_, fun table other hsame => ?_⟩
  · change (⟨table.val.toNat.toUInt32⟩ : TableId) = table
    simp
  · rw [hname, hname] at hsame
    split at hsame <;> split at hsame
    · rename_i hfirst hfirst'
      rw [hfirst, hfirst']
    · exact absurd hsame (hne _)
    · exact absurd hsame.symm (hne _)
    · have hlength := congrArg (fun name : String => name.toList.length) hsame
      simp only [String.toList_ofList, List.length_replicate] at hlength
      exact congrArg TableId.mk (UInt32.toNat_inj.1 hlength)

/-- The file of the second table is opened again, and registered by another
name. -/
def Engine.reopened (e : Engine) : Engine :=
  { e with
    disk := { e.disk with traffic := e.disk.traffic ++ [⟨0, 0⟩] }
    catalog := (e.catalog.register
      { HeapFile.pairs 1 "b" with handle := ⟨2, "b", "b", 9⟩ } "c" "").2 }

theorem drawsOn_twoTables (hfirst : home ⟨0⟩ = .pairs 0 "a") (hsecond : home ⟨1⟩ = .pairs 1 "b")
    (capacity : Nat) (refusals : Refusals) :
    (twoTables capacity refusals).catalog.DrawsOn home := by
  intro table file hfile
  rcases file_twoTables hfile with ⟨rfl, rfl⟩ | ⟨rfl, rfl⟩
  · exact hfirst ▸ ⟨rfl, rfl, rfl, rfl⟩
  · exact hsecond ▸ ⟨rfl, rfl, rfl, rfl⟩

end HeapStore
