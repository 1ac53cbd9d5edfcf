import HeapStore.Catalog

/-!
# The two indexes of the catalog

A table is found by its name and by its identity. In every catalog that
registrations lead to, the two ways lead to the same tables
(`Catalog.Indexed`), whatever names and files were given, also when files of
different paths have one identity.

A registration may do away with two tables at once: the one that had the name,
and the one that had the identity. What it leaves is told index by index
(`Indexed.byId_add`, `Indexed.byName_add`): in each index, the new table, and
those of the old ones that collide with it in neither.

Headline: `tables_by_name_and_id`.
-/

namespace HeapStore

namespace Catalog

variable {catalog catalog' : Catalog} {file : HeapFile} {name key n : String} {id : TableId}
  {entry : TableEntry}

/-- The indexes are inverse to each other, and each entry stands under the
identity of its file. -/
structure Indexed (catalog : Catalog) : Prop where
  inverse : ∀ (name : String) (id : TableId), catalog.byName[name]? = some id
    ↔ ∃ entry, catalog.byId[id]? = some entry ∧ entry.name = name
  keyed : ∀ (id : TableId) (entry : TableEntry), catalog.byId[id]? = some entry →
    entry.file.id = id

/-! ## Looking up -/

theorem entry_eq_ok_iff : catalog.entry id = .ok entry ↔ catalog.byId[id]? = some entry := by
  rw [Catalog.entry, entry?]
  cases catalog.byId[id]? <;> simp

theorem entry_eq_error (h : catalog.byId[id]? = none) :
    catalog.entry id = .error (.tableNotFound id) := by
  rw [Catalog.entry, entry?, h]

theorem entry_congr (h : catalog'.byId[id]? = catalog.byId[id]?) :
    catalog'.entry id = catalog.entry id := by
  rw [Catalog.entry, entry?, h, Catalog.entry, entry?]

theorem lookup_eq_ok_iff : catalog.lookup name = .ok id ↔ catalog.byName[name]? = some id := by
  rw [lookup]
  cases catalog.byName[name]? <;> simp

theorem lookup_eq_error (h : catalog.byName[name]? = none) :
    catalog.lookup name = .error (.tableNameNotFound name) := by
  rw [lookup, h]

theorem lookup_congr (h : catalog'.byName[name]? = catalog.byName[name]?) :
    catalog'.lookup name = catalog.lookup name := by
  rw [lookup, h, lookup]

theorem mem_ids : id ∈ catalog.ids ↔ ∃ entry, catalog.byId[id]? = some entry := by
  rw [ids, Std.ExtTreeMap.mem_keys, Std.ExtTreeMap.mem_iff_isSome_getElem?,
    Option.isSome_iff_exists]

/-! ## Collisions -/

theorem rival?_eq_some_iff {rival : HeapFile} : catalog.rival? file = some rival
    ↔ ∃ entry, catalog.byId[file.id]? = some entry ∧
      entry.file.absolutePath ≠ file.absolutePath ∧ entry.file = rival := by
  rw [rival?, entry?]
  cases catalog.byId[file.id]? with
  | none => simp
  | some entry =>
      by_cases hpath : entry.file.absolutePath = file.absolutePath <;> simp [hpath]

theorem rival?_eq_none_iff : catalog.rival? file = none
    ↔ ∀ entry, catalog.byId[file.id]? = some entry →
      entry.file.absolutePath = file.absolutePath := by
  rw [rival?, entry?]
  cases catalog.byId[file.id]? with
  | none => simp
  | some entry =>
      by_cases hpath : entry.file.absolutePath = file.absolutePath <;> simp [hpath]

/-! ## What a registration leaves -/

/-- The catalog without a table that is looked for by name. The name still
leads to its identity. -/
theorem Indexed.byId_forgetName (h : catalog.Indexed) (name : String) (id : TableId) :
    (catalog.forgetName name).byId[id]? = catalog.byId[id]?.filter (·.name ≠ name) := by
  have hlost : (catalog.forgetName name).byId[id]?
      = if catalog.byName[name]? = some id then none else catalog.byId[id]? := by
    unfold forgetName
    cases catalog.byName[name]? with
    | none => simp
    | some old =>
        simp only [Std.ExtTreeMap.getElem?_erase, Std.LawfulEqCmp.compare_eq_iff_eq,
          Option.some.injEq]
  rw [hlost]
  simp only [h.inverse]
  cases catalog.byId[id]? with
  | none => simp
  | some entry => by_cases hname : entry.name = name <;> simp [hname, Option.filter_some]

theorem byName_forgetName (catalog : Catalog) (name : String) :
    (catalog.forgetName name).byName = catalog.byName := by
  unfold forgetName
  split <;> rfl

theorem byId_forgetId (catalog : Catalog) (gone id : TableId) :
    (catalog.forgetId gone).byId[id]? = if gone = id then none else catalog.byId[id]? := by
  unfold forgetId
  cases hgone : catalog.byId[gone]? with
  | none =>
      by_cases hid : gone = id
      · subst hid
        simpa using hgone
      · simp [hid]
  | some entry =>
      simp only [Std.ExtTreeMap.getElem?_erase, Std.LawfulEqCmp.compare_eq_iff_eq]

theorem byName_forgetId (catalog : Catalog) (gone : TableId) (n : String) :
    (catalog.forgetId gone).byName[n]?
      = if catalog.byId[gone]?.map TableEntry.name = some n then none
        else catalog.byName[n]? := by
  unfold forgetId
  cases hgone : catalog.byId[gone]? with
  | none => simp
  | some entry =>
      simp only [Std.ExtTreeMap.getElem?_erase, Std.LawfulEqCmp.compare_eq_iff_eq,
        Option.map_some, Option.some.injEq]

/-- By identity: the new table, and the others that do not have its name. -/
theorem Indexed.byId_add (h : catalog.Indexed) (hadd : catalog.add file name key = .ok catalog')
    (id : TableId) : catalog'.byId[id]?
      = if id = file.id then some ⟨file, name, key⟩
        else catalog.byId[id]?.filter (·.name ≠ name) := by
  unfold add at hadd
  split at hadd
  · cases hadd
  cases hadd
  simp only [Std.ExtTreeMap.getElem?_insert, Std.LawfulEqCmp.compare_eq_iff_eq, byId_forgetId,
    h.byId_forgetName]
  by_cases hid : file.id = id
  · rw [if_pos hid, if_pos hid.symm]
  · rw [if_neg hid, if_neg hid, if_neg (Ne.symm hid)]

/-- By name: the new table, and the others that do not have its identity. -/
theorem Indexed.byName_add (h : catalog.Indexed)
    (hadd : catalog.add file name key = .ok catalog') (n : String) : catalog'.byName[n]?
      = if n = name then some file.id else catalog.byName[n]?.filter (· ≠ file.id) := by
  unfold add at hadd
  split at hadd
  · cases hadd
  cases hadd
  simp only [Std.ExtTreeMap.getElem?_insert, Std.LawfulEqCmp.compare_eq_iff_eq, byName_forgetId,
    h.byId_forgetName, byName_forgetName]
  by_cases hname : name = n
  · rw [if_pos hname, if_pos hname.symm]
  rw [if_neg hname, if_neg (Ne.symm hname)]
  -- The name goes if it is that of the entry that had the identity.
  have hgone : (catalog.byId[file.id]?.filter (·.name ≠ name)).map TableEntry.name = some n
      ↔ catalog.byName[n]? = some file.id := by
    rw [h.inverse n file.id]
    cases catalog.byId[file.id]? with
    | none => simp
    | some entry =>
        by_cases hentry : entry.name = name
        · simp [hentry, hname]
        · simp [hentry, Option.filter_some]
  simp only [hgone]
  cases catalog.byName[n]? with
  | none => simp
  | some old => by_cases hold : old = file.id <;> simp [hold, Option.filter_some]

namespace Indexed

theorem empty : Indexed .empty :=
  ⟨by simp [Catalog.empty], by simp [Catalog.empty]⟩

theorem add (h : catalog.Indexed) (hadd : catalog.add file name key = .ok catalog') :
    catalog'.Indexed := by
  constructor
  · intro n id
    rw [h.byName_add hadd, h.byId_add hadd]
    by_cases hn : n = name <;> by_cases hid : id = file.id
    · simp [hn, hid]
    · simp [hn, hid, Ne.symm hid, Option.filter_eq_some_iff]
    · subst hid
      simp [hn, Ne.symm hn]
    · rw [if_neg hn, if_neg hid, Option.filter_eq_some_iff, h.inverse n id]
      constructor
      · rintro ⟨⟨entry, hentry, rfl⟩, -⟩
        exact ⟨entry, by simpa [hn] using hentry, rfl⟩
      · rintro ⟨entry, hentry, rfl⟩
        exact ⟨⟨entry, (Option.filter_eq_some_iff.1 hentry).1, rfl⟩, by simpa using hid⟩
  · intro id entry hentry
    rw [h.byId_add hadd] at hentry
    by_cases hid : id = file.id
    · rw [if_pos hid] at hentry
      cases hentry
      exact hid.symm
    · rw [if_neg hid] at hentry
      exact h.keyed id entry (Option.filter_eq_some_iff.1 hentry).1

end Indexed

/-! ## Registering -/

/-- Another file has the identity of this one. -/
def Collides (catalog : Catalog) (file : HeapFile) : Prop :=
  ∃ entry, catalog.entry file.id = .ok entry ∧ entry.file.absolutePath ≠ file.absolutePath

/-- Registers a table; a refusal leaves the catalog as it is. -/
def register (catalog : Catalog) (file : HeapFile) (name key : String) :
    Except Error TableId × Catalog :=
  match catalog.add file name key with
  | .ok catalog => (.ok file.id, catalog)
  | .error cause => (.error cause, catalog)

/-- What registering a table makes of a catalog. -/
structure Registers (file : HeapFile) (name key : String) (catalog catalog' : Catalog) : Prop where
  lookup : catalog'.lookup name = .ok file.id
  entry : catalog'.entry file.id = .ok ⟨file, name, key⟩
  /-- The table that had the name is gone, under its identity and under any name. -/
  replacedName : ∀ old, catalog.lookup name = .ok old → old ≠ file.id →
    catalog'.entry old = .error (.tableNotFound old) ∧ ∀ n, catalog'.lookup n ≠ .ok old
  /-- The table that had the identity is gone, under its name and under any identity. -/
  replacedId : ∀ old, catalog.entry file.id = .ok old → old.name ≠ name →
    catalog'.lookup old.name = .error (.tableNameNotFound old.name) ∧
      ∀ id entry, catalog'.entry id = .ok entry → entry.name ≠ old.name
  /-- All other names lead where they led before. -/
  otherNames : ∀ n, n ≠ name → catalog.lookup n ≠ .ok file.id →
    catalog'.lookup n = catalog.lookup n
  /-- All other identities lead where they led before. -/
  otherIds : ∀ id, id ≠ file.id → catalog.lookup name ≠ .ok id →
    catalog'.entry id = catalog.entry id

theorem register_of_collision (hentry : catalog.entry file.id = .ok entry)
    (hpath : entry.file.absolutePath ≠ file.absolutePath) :
    catalog.register file name key
      = (.error (.tableIdCollision file.id file.absolutePath entry.file.absolutePath), catalog) := by
  have hrival : catalog.rival? file = some entry.file :=
    rival?_eq_some_iff.2 ⟨entry, entry_eq_ok_iff.1 hentry, hpath, rfl⟩
  rw [register, add_eq_error_iff.2 ⟨entry.file, hrival, rfl⟩]

theorem exists_add (h : ¬catalog.Collides file) (name key : String) :
    ∃ catalog', catalog.add file name key = .ok catalog' := by
  have hnone : catalog.rival? file = none := by
    refine rival?_eq_none_iff.2 fun entry hentry => Decidable.not_not.1 fun hpath => ?_
    exact h ⟨entry, entry_eq_ok_iff.2 hentry, hpath⟩
  rw [add, hnone]
  exact ⟨_, rfl⟩

theorem Indexed.registers (h : catalog.Indexed)
    (hadd : catalog.add file name key = .ok catalog') :
    Registers file name key catalog catalog' := by
  have hafter := h.add hadd
  have hlookup : catalog'.lookup name = .ok file.id := by
    rw [lookup_eq_ok_iff, h.byName_add hadd, if_pos rfl]
  constructor
  case lookup => exact hlookup
  case entry => rw [entry_eq_ok_iff, h.byId_add hadd, if_pos rfl]
  case replacedName =>
    intro old hold hne
    obtain ⟨former, hformer, hcalled⟩ := (h.inverse name old).1 (lookup_eq_ok_iff.1 hold)
    have hgone : catalog'.byId[old]? = none := by
      rw [h.byId_add hadd, if_neg hne, hformer, Option.filter_some, hcalled]
      simp
    refine ⟨entry_eq_error hgone, fun n hn => ?_⟩
    obtain ⟨entry, hentry, -⟩ := (hafter.inverse n old).1 (lookup_eq_ok_iff.1 hn)
    rw [hgone] at hentry
    cases hentry
  case replacedId =>
    intro old hold hne
    have hcalled := (h.inverse old.name file.id).2 ⟨old, entry_eq_ok_iff.1 hold, rfl⟩
    have hgone : catalog'.byName[old.name]? = none := by
      rw [h.byName_add hadd, if_neg hne, hcalled, Option.filter_some]
      simp
    refine ⟨lookup_eq_error hgone, fun id entry hentry heq => ?_⟩
    have hfound := (hafter.inverse old.name id).2 ⟨entry, entry_eq_ok_iff.1 hentry, heq⟩
    rw [hgone] at hfound
    cases hfound
  case otherNames =>
    intro n hn hother
    refine lookup_congr ?_
    rw [h.byName_add hadd, if_neg hn]
    cases hid : catalog.byName[n]? with
    | none => rfl
    | some id =>
        have hne : id ≠ file.id := by
          rintro rfl
          exact hother (lookup_eq_ok_iff.2 hid)
        simp [Option.filter_some, hne]
  case otherIds =>
    intro id hid hother
    refine entry_congr ?_
    rw [h.byId_add hadd, if_neg hid]
    cases hentry : catalog.byId[id]? with
    | none => rfl
    | some entry =>
        have hne : entry.name ≠ name := by
          rintro rfl
          exact hother (lookup_eq_ok_iff.2 ((h.inverse entry.name id).2 ⟨entry, hentry, rfl⟩))
        simp [Option.filter_some, hne]

end Catalog

/-! ## Runs -/

inductive CatalogCall where
  | register (file : HeapFile) (name key : String)
  | clear

namespace CatalogCall

def after : CatalogCall → Catalog → Catalog
  | .register file name key, catalog => (catalog.register file name key).2
  | .clear, _ => .empty

def afterAll (calls : List CatalogCall) (catalog : Catalog) : Catalog :=
  calls.foldl (fun catalog call => call.after catalog) catalog

variable {catalog : Catalog}

theorem indexed_after (h : catalog.Indexed) (call : CatalogCall) :
    (call.after catalog).Indexed := by
  cases call with
  | register file name key =>
      simp only [after, Catalog.register]
      cases hadd : catalog.add file name key with
      | ok catalog' => exact h.add hadd
      | error cause => exact h
  | clear => exact .empty

theorem indexed_afterAll (h : catalog.Indexed) (calls : List CatalogCall) :
    (afterAll calls catalog).Indexed := by
  induction calls generalizing catalog with
  | nil => exact h
  | cons call calls ih => exact ih (indexed_after h call)

end CatalogCall

/-- In every catalog that registrations and clearings lead to:

- a name leads to an identity exactly if the identity leads to an entry of that
  name, whose file has that identity; the identities listed are those that a
  name leads to;
- a file is refused if and only if another file has its identity, and then
  nothing has changed; any other file is registered in place of the table that
  had its name and the one that had its identity, and all other tables are
  found as before. -/
theorem tables_by_name_and_id (calls : List CatalogCall) :
    let catalog := CatalogCall.afterAll calls .empty
    ((∀ name id, catalog.lookup name = .ok id
        ↔ ∃ entry, catalog.entry id = .ok entry ∧ entry.name = name) ∧
      (∀ id entry, catalog.entry id = .ok entry → entry.file.id = id) ∧
      ∀ id, id ∈ catalog.ids ↔ ∃ name, catalog.lookup name = .ok id) ∧
    ∀ file name key,
      (∀ entry, catalog.entry file.id = .ok entry →
        entry.file.absolutePath ≠ file.absolutePath →
        catalog.register file name key
          = (.error (.tableIdCollision file.id file.absolutePath entry.file.absolutePath),
              catalog)) ∧
      (¬catalog.Collides file → ∃ catalog', catalog.register file name key = (.ok file.id, catalog')
        ∧ Catalog.Registers file name key catalog catalog') := by
  intro catalog
  have h : catalog.Indexed := CatalogCall.indexed_afterAll .empty calls
  refine ⟨⟨fun name id => ?_, fun id entry hentry => ?_, fun id => ?_⟩,
    fun file name key => ⟨fun entry => Catalog.register_of_collision, fun hfree => ?_⟩⟩
  · simp only [Catalog.lookup_eq_ok_iff, Catalog.entry_eq_ok_iff, h.inverse]
  · exact h.keyed id entry (Catalog.entry_eq_ok_iff.1 hentry)
  · rw [Catalog.mem_ids]
    constructor
    · rintro ⟨entry, hentry⟩
      exact ⟨entry.name, Catalog.lookup_eq_ok_iff.2 ((h.inverse _ _).2 ⟨entry, hentry, rfl⟩)⟩
    · rintro ⟨name, hname⟩
      obtain ⟨entry, hentry, -⟩ := (h.inverse name id).1 (Catalog.lookup_eq_ok_iff.1 hname)
      exact ⟨entry, hentry⟩
  · obtain ⟨catalog', hadd⟩ := Catalog.exists_add hfree name key
    exact ⟨catalog', by rw [Catalog.register, hadd], h.registers hadd⟩

/-- An empty file at a path, under an identity. -/
def HeapFile.blank (path : String) (id : UInt32) : HeapFile :=
  { handle := { number := 0, path, name := path, pageSize := 9 }
    absolutePath := path
    id := ⟨id⟩
    schema := ⟨[]⟩ }

/-- The file of one table is registered under the name of another: of the two
tables one is left. A file that has the identity of a third is refused. -/
theorem tables_by_name_and_id_threeFiles :
    let catalog := CatalogCall.afterAll [.register (.blank "a" 1) "first" "",
      .register (.blank "b" 2) "second" "", .register (.blank "c" 3) "third" ""] .empty
    catalog.register (.blank "d" 3) "second" ""
        = (.error (.tableIdCollision ⟨3⟩ "d" "c"), catalog) ∧
    ∃ catalog', catalog.register (.blank "a" 1) "second" "key" = (.ok ⟨1⟩, catalog') ∧
      catalog'.lookup "second" = .ok ⟨1⟩ ∧
      catalog'.entry ⟨2⟩ = .error (.tableNotFound ⟨2⟩) ∧
      catalog'.lookup "first" = .error (.tableNameNotFound "first") ∧
      catalog'.lookup "third" = .ok ⟨3⟩ := by
  intro catalog
  obtain ⟨-, hregister⟩ := tables_by_name_and_id [.register (.blank "a" 1) "first" "",
    .register (.blank "b" 2) "second" "", .register (.blank "c" 3) "third" ""]
  have hfirst : catalog.entry ⟨1⟩ = .ok ⟨.blank "a" 1, "first", ""⟩ :=
    Catalog.entry_eq_ok_iff.2 (by decide +kernel)
  have hsecond : catalog.lookup "second" = .ok ⟨2⟩ :=
    Catalog.lookup_eq_ok_iff.2 (by decide +kernel)
  have hthird : catalog.entry ⟨3⟩ = .ok ⟨.blank "c" 3, "third", ""⟩ :=
    Catalog.entry_eq_ok_iff.2 (by decide +kernel)
  have hthirdName : catalog.lookup "third" = .ok ⟨3⟩ :=
    Catalog.lookup_eq_ok_iff.2 (by decide +kernel)
  refine ⟨(hregister (.blank "d" 3) "second" "").1 _ hthird (by decide), ?_⟩
  have hfree : ¬catalog.Collides (.blank "a" 1) := by
    rintro ⟨entry, hentry, hpath⟩
    obtain rfl := Except.ok.inj (hfirst.symm.trans hentry)
    exact hpath rfl
  obtain ⟨catalog', hregistered, h⟩ := (hregister (.blank "a" 1) "second" "key").2 hfree
  refine ⟨catalog', hregistered, h.lookup, (h.replacedName ⟨2⟩ hsecond (by decide)).1,
    (h.replacedId _ hfirst (by decide)).1, ?_⟩
  rw [h.otherNames "third" (by decide), hthirdName]
  rw [hthirdName]
  exact fun heq => absurd (Except.ok.inj heq) (by decide)

end HeapStore
