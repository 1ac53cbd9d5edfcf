import HeapStore.Proofs.PageArrays
import HeapStore.Proofs.SchemaLoading
import HeapStore.Proofs.TableIndexes
import HeapStore.Proofs.Utf8

/-!
# The tables that a schema file loads

Loading a schema is a fold over its lines. Each line that is not blank declares a table,
and the tables are added one after the other (`Catalog.Loading.declare`) up to the first
line that declares none. That line is reported by its number among all lines, blank ones
included, and what was added before it stays.

What the lines of a text are is said by `Text.Lined`: a line ends with a line feed, and
with the carriage return in front of it if there is one.

A declaration replaces what was registered under its name or for its file. So of several
declarations of one name the last one is found (`Catalog.Declared.last`), and every table
of another name and another file is found as before (`Catalog.Declared.others`).

Headline: `schema_loads_up_to_first_bad_line`.
-/

namespace HeapStore

/-! ## Lines -/

namespace Text

/-- The text consists of the lines. Only the last one may lack its line feed, and then it
is not empty. -/
inductive Lined : List (List Char) → List Char → Prop where
  | nil : Lined [] []
  | last {line : List Char} : line ≠ [] → '\n' ∉ line → Lined [line] line
  | fed {line text : List Char} {lines : List (List Char)} : '\n' ∉ line →
      line.getLast? ≠ some '\r' → Lined lines text → Lined (line :: lines) (line ++ '\n' :: text)
  | returned {line text : List Char} {lines : List (List Char)} : '\n' ∉ line →
      Lined lines text → Lined (line :: lines) (line ++ '\r' :: '\n' :: text)

variable {line text : List Char} {lines : List (List Char)}

theorem linesFrom_append (run : List Char) (h : '\n' ∉ line) (rest : List Char) :
    linesFrom run (line ++ rest) = linesFrom (line.reverse ++ run) rest := by
  induction line generalizing run with
  | nil => rfl
  | cons c line ih =>
      rw [List.mem_cons, not_or] at h
      rw [List.cons_append, linesFrom, ih _ h.2, List.reverse_cons, List.append_assoc,
        List.singleton_append]
      exact fun hc => h.1 hc.symm

theorem endLine_reverse (h : line.getLast? ≠ some '\r') : endLine line.reverse = line := by
  rw [endLine.eq_def]
  split
  · rename_i back hback
    rw [List.reverse_eq_cons_iff] at hback
    simp [hback] at h
  · exact List.reverse_reverse line

theorem Lined.lines_eq (h : Lined lines text) : Text.lines text = lines := by
  unfold Text.lines
  induction h with
  | nil => rfl
  | @last line hsome hline =>
      have hread := linesFrom_append [] hline []
      simp only [List.append_nil] at hread
      rw [hread, linesFrom, if_neg (by simpa using hsome), List.reverse_reverse]
  | fed hline hend _ ih =>
      rw [linesFrom_append [] hline, List.append_nil, linesFrom, endLine_reverse hend, ih]
  | returned hline _ ih =>
      rw [linesFrom_append [] hline, List.append_nil, linesFrom, linesFrom, endLine,
        List.reverse_reverse, ih]
      decide

theorem lined_linesFrom {run : List Char} (h : '\n' ∉ run) (text : List Char) :
    Lined (linesFrom run text) (run.reverse ++ text) := by
  induction text generalizing run with
  | nil =>
      cases run with
      | nil => exact .nil
      | cons c run => simpa [linesFrom] using Lined.last (by simp) (by simpa [and_comm] using h)
  | cons c text ih =>
      by_cases hc : c = '\n'
      · subst hc
        have hrest : Lined (linesFrom [] text) text := ih List.not_mem_nil
        rw [linesFrom, endLine.eq_def]
        split
        · rename_i run
          rw [List.mem_cons, not_or] at h
          simpa using Lined.returned (by simpa using h.2) hrest
        · rename_i hend
          refine .fed (by simpa using h) ?_ hrest
          rw [List.getLast?_reverse]
          intro hhead
          obtain ⟨back, rfl⟩ := List.head?_eq_some_iff.1 hhead
          exact hend back rfl
      · rw [linesFrom]
        · have hrun : '\n' ∉ c :: run := by simp [h, Ne.symm hc]
          simpa using ih hrun
        · exact hc

/-- A text consists of its lines and of no others. -/
theorem lines_eq_iff : Text.lines text = lines ↔ Lined lines text :=
  ⟨fun h => h ▸ lined_linesFrom List.not_mem_nil text, Lined.lines_eq⟩

theorem decode?_encode (text : List Char) : decode? (encode text) = some text := by
  rw [decode?, decodeLossy_encode, if_pos rfl]

end Text

/-! ## Files -/

namespace Disk

variable {disk disk' : Disk} {path name : String}

/-- The disk after a file in its directory has been opened. -/
def withFile (disk : Disk) (path : String) : Disk :=
  { disk with
    files := disk.files.insertIfNew path []
    traffic := disk.traffic ++ [⟨0, 0⟩] }

theorem root_withFile (disk : Disk) (path : String) : (disk.withFile path).root = disk.root := rfl

/-- Which paths without a slash name a file. The other files have no part in it. -/
theorem locate_of_plain (hplain : '/' ∉ path.toList) (hsome : path ≠ "") :
    disk.locate path =
      if '\x00' ∈ path.toList then .error .nulByte
      else if maxPathLength < (Text.utf8 (disk.root ++ "/" ++ path)).length then
        .error .invalidFilename
      else if path.toList = dot ∨ path.toList = dotDot then .error .isADirectory
      else if isLong path.toList then .error .invalidFilename
      else .ok path := by
  have hne : path.toList ≠ [] := by simpa using hsome
  have hhead : path.toList.head? ≠ some '/' := by
    intro hhead
    exact hplain (List.mem_of_head? hhead)
  simp [locate, Text.splitAt_of_not_mem hplain, hne, hhead, walk, bind, Except.bind, throw,
    throwThe, MonadExceptOf.throw, pure, Except.pure]

theorem locate_congr (hroot : disk'.root = disk.root) (hplain : '/' ∉ path.toList)
    (hsome : path ≠ "") : disk'.locate path = disk.locate path := by
  rw [locate_of_plain hplain hsome, locate_of_plain hplain hsome, hroot]

theorem eq_of_locate (hplain : '/' ∉ path.toList) (hsome : path ≠ "")
    (h : disk.locate path = .ok name) : name = path := by
  rw [locate_of_plain hplain hsome] at h
  grind

theorem openFile_of_plain (hplain : '/' ∉ path.toList) (hsome : path ≠ "")
    (h : disk.locate path = .ok name) (pageSize : Nat) :
    disk.openFile path pageSize
      = .ok ({ number := disk.traffic.length, path, name := path, pageSize },
          disk.withFile path) := by
  obtain rfl := eq_of_locate hplain hsome h
  exact openFile_of_locate h pageSize

end Disk

/-! ## Declared tables -/

namespace Definition

/-- The definitions on the lines, one on each that is not blank. -/
def declared (lines : List (List Char)) : Except Fault (List Definition) :=
  (lines.filter fun line => !line.all Text.isBlank).mapM parse

/-- The name of the table's file. -/
def fileName (definition : Definition) : String := definition.name ++ ".dat"

/-- The absolute path of the table's file. -/
def path (definition : Definition) (root : String) : String := root ++ "/" ++ definition.fileName

/-- The identity of the table. -/
def id (definition : Definition) (root : String) : TableId :=
  HeapFile.idOfPath (definition.path root)

/-- The table's file as it is opened on a disk. -/
def file (definition : Definition) (disk : Disk) (pageSize : Nat) : HeapFile where
  handle :=
    { number := disk.traffic.length
      path := definition.fileName
      name := definition.fileName
      pageSize }
  absolutePath := definition.path disk.root
  id := definition.id disk.root
  schema := Catalog.schemaOf definition

variable {lines before after : List (List Char)} {line : List Char} {fault : Fault}
  {definition other : Definition} {definitions : List Definition}

theorem path_inj {root : String} (h : definition.path root = other.path root) :
    definition.name = other.name := by
  simpa [path, fileName] using h

theorem fileName_ne_empty (definition : Definition) : definition.fileName ≠ "" := by
  simp [fileName]

theorem plain_fileName (h : '/' ∉ definition.name.toList) :
    '/' ∉ definition.fileName.toList := by
  simpa [fileName] using h

theorem declared_cons_of_blank (hblank : line.all Text.isBlank = true)
    (lines : List (List Char)) : declared (line :: lines) = declared lines := by
  simp [declared, hblank]

theorem declared_cons (hsome : ¬line.all Text.isBlank = true) (lines : List (List Char)) :
    declared (line :: lines) = parse line >>= fun definition =>
      declared lines >>= fun rest => .ok (definition :: rest) := by
  simp only [declared, List.filter_cons, hsome, Bool.not_false, if_true, List.mapM_cons]
  rfl

theorem declared_cons_eq_ok_iff (hsome : ¬line.all Text.isBlank = true) :
    declared (line :: lines) = .ok definitions ↔
      ∃ definition rest, parse line = .ok definition ∧ declared lines = .ok rest ∧
        definitions = definition :: rest := by
  simp only [declared_cons hsome, bind_eq_ok_iff, Except.ok.injEq]
  constructor
  · rintro ⟨definition, hparse, rest, hrest, rfl⟩
    exact ⟨definition, rest, hparse, hrest, rfl⟩
  · rintro ⟨definition, rest, hparse, hrest, rfl⟩
    exact ⟨definition, hparse, rest, hrest, rfl⟩

/-- If not all lines are read, one is the first that is not. -/
theorem exists_first_bad (h : declared lines = .error fault) :
    ∃ before line after definitions, lines = before ++ line :: after ∧
      declared before = .ok definitions ∧ ¬Text.Blank line ∧ parse line = .error fault := by
  induction lines with
  | nil => cases h
  | cons line lines ih =>
      by_cases hblank : line.all Text.isBlank = true
      · rw [declared_cons_of_blank hblank] at h
        obtain ⟨before, bad, after, definitions, rfl, hbefore, hbad⟩ := ih h
        refine ⟨line :: before, bad, after, definitions, rfl, ?_, hbad⟩
        rwa [declared_cons_of_blank hblank]
      rw [declared_cons hblank] at h
      cases hparse : parse line with
      | error cause =>
          rw [hparse] at h
          cases h
          exact ⟨[], line, lines, [], rfl, rfl, mt Text.blank_iff_all.1 hblank, hparse⟩
      | ok definition =>
          rw [hparse] at h
          cases hlines : declared lines with
          | ok rest =>
              rw [hlines] at h
              cases h
          | error cause =>
              rw [hlines] at h
              cases h
              obtain ⟨before, bad, after, definitions, rfl, hbefore, hbad⟩ := ih hlines
              exact ⟨line :: before, bad, after, definition :: definitions, rfl,
                (declared_cons_eq_ok_iff hblank).2 ⟨_, _, hparse, hbefore, rfl⟩, hbad⟩

end Definition

namespace Catalog

variable {disk : Disk} {catalog catalog' : Catalog} {state state' : Loading}
  {definition : Definition} {definitions : List Definition} {pageSize : Nat}

/-- Adds a declared table. -/
def Loading.declare (pageSize : Nat) (state : Loading) (definition : Definition) : Loading where
  disk := state.disk.withFile definition.fileName
  catalog := (state.catalog.register (definition.file state.disk pageSize) definition.name
    definition.key).2

/-- The tables can be loaded: they have names without a slash and files that can be
opened, and no other file, registered or declared, has the identity of one of these. -/
structure Loadable (state : Loading) (definitions : List Definition) : Prop where
  plain : ∀ d ∈ definitions, '/' ∉ d.name.toList
  opens : ∀ d ∈ definitions, ∃ name, state.disk.locate d.fileName = .ok name
  free : ∀ d ∈ definitions, ∀ entry,
    state.catalog.entry (d.id state.disk.root) = .ok entry →
      entry.file.absolutePath = d.path state.disk.root
  apart : ∀ d ∈ definitions, ∀ e ∈ definitions,
    d.id state.disk.root = e.id state.disk.root → d.path state.disk.root = e.path state.disk.root

theorem Loading.indexed_declare (hindexed : state.catalog.Indexed) (pageSize : Nat)
    (definition : Definition) : (state.declare pageSize definition).catalog.Indexed :=
  CatalogCall.indexed_after hindexed (.register ..)

theorem Loadable.exists_add (h : Loadable state (definition :: definitions)) (pageSize : Nat) :
    ∃ catalog', state.catalog.add (definition.file state.disk pageSize) definition.name
      definition.key = .ok catalog' := by
  refine Catalog.exists_add ?_ definition.name definition.key
  rintro ⟨entry, hentry, hpath⟩
  exact hpath (h.free definition List.mem_cons_self entry hentry)

theorem Loadable.disk_openFile (h : Loadable state (definition :: definitions))
    (pageSize : Nat) : state.disk.openFile definition.fileName pageSize
      = .ok ((definition.file state.disk pageSize).handle,
          state.disk.withFile definition.fileName) := by
  obtain ⟨name, hname⟩ := h.opens definition List.mem_cons_self
  have hplain := Definition.plain_fileName (h.plain definition List.mem_cons_self)
  exact Disk.openFile_of_plain hplain definition.fileName_ne_empty hname pageSize

theorem Loadable.openFile (h : Loadable state (definition :: definitions)) (pageSize : Nat) :
    HeapFile.openFile state.disk definition.fileName (schemaOf definition) pageSize
      = .ok (definition.file state.disk pageSize, state.disk.withFile definition.fileName) := by
  rw [HeapFile.openFile, h.disk_openFile]
  rfl

theorem Loading.declare_of_add (hadd : state.catalog.add (definition.file state.disk pageSize)
    definition.name definition.key = .ok catalog') : state.declare pageSize definition
      = ⟨state.disk.withFile definition.fileName, catalog'⟩ := by
  rw [Loading.declare, register, hadd]

/-- A declared table is opened and added. -/
theorem Loadable.loadTable (h : Loadable state (definition :: definitions)) (pageSize : Nat) :
    loadTable pageSize definition state
      = .ok (definition.id state.disk.root) (state.declare pageSize definition) := by
  obtain ⟨catalog', hadd⟩ := h.exists_add pageSize
  have hget : (get : EStateM Error Loading Loading) state = .ok state state := rfl
  have hset : ∀ next now : Loading,
      (set next : EStateM Error Loading PUnit) now = .ok ⟨⟩ next := fun _ _ => rfl
  have hopen := h.openFile pageSize
  rw [Definition.fileName] at hopen
  rw [Loading.declare_of_add hadd]
  simp only [Catalog.loadTable, bind, EStateM.bind, hget, hopen, hset, hadd]
  rfl

theorem Loadable.registers (hindexed : state.catalog.Indexed)
    (h : Loadable state (definition :: definitions)) (pageSize : Nat) :
    Registers (definition.file state.disk pageSize) definition.name definition.key state.catalog
      (state.declare pageSize definition).catalog := by
  obtain ⟨catalog', hadd⟩ := h.exists_add pageSize
  rw [Loading.declare_of_add hadd]
  exact hindexed.registers hadd

theorem Loadable.tail (hindexed : state.catalog.Indexed)
    (h : Loadable state (definition :: definitions)) :
    Loadable (state.declare pageSize definition) definitions := by
  obtain ⟨catalog', hadd⟩ := h.exists_add pageSize
  rw [Loading.declare_of_add hadd]
  constructor
  case plain => exact (List.forall_mem_cons.1 h.plain).2
  case opens =>
    intro d hd
    obtain ⟨name, hname⟩ := h.opens d (List.mem_cons_of_mem _ hd)
    have hplain := Definition.plain_fileName (h.plain d (List.mem_cons_of_mem _ hd))
    have hroot := state.disk.root_withFile definition.fileName
    exact ⟨name, (Disk.locate_congr hroot hplain d.fileName_ne_empty).trans hname⟩
  case free =>
    intro d hd entry hentry
    rw [entry_eq_ok_iff, hindexed.byId_add hadd] at hentry
    -- Either it is the new table that has the identity, or one that was there before.
    split at hentry
    · rename_i hid
      cases hentry
      exact h.apart definition List.mem_cons_self d (List.mem_cons_of_mem _ hd) hid.symm
    · have hold := (Option.filter_eq_some_iff.1 hentry).1
      exact h.free d (List.mem_cons_of_mem _ hd) entry (entry_eq_ok_iff.2 hold)
  case apart =>
    intro d hd e he
    exact h.apart d (List.mem_cons_of_mem _ hd) e (List.mem_cons_of_mem _ he)

/-- The lines are loaded by adding the tables that they declare. -/
theorem Loadable.loadLines {lines : List (List Char)} (hindexed : state.catalog.Indexed)
    (hlines : Definition.declared lines = .ok definitions) (h : Loadable state definitions)
    (number : Nat) :
    loadLines pageSize number lines state
      = .ok (definitions.map (Definition.id · state.disk.root))
          (definitions.foldl (Loading.declare pageSize) state) := by
  induction lines generalizing definitions state number with
  | nil =>
      cases hlines
      rfl
  | cons line lines ih =>
      by_cases hblank : line.all Text.isBlank = true
      · rw [Definition.declared_cons_of_blank hblank] at hlines
        have hrest := ih hindexed hlines h (number + 1)
        simp only [Catalog.loadLines, loadLine, if_pos hblank, bind, EStateM.bind, pure,
          EStateM.pure, hrest]
        rfl
      · obtain ⟨definition, rest, hparse, hrest, rfl⟩ :=
          (Definition.declared_cons_eq_ok_iff hblank).1 hlines
        have htable := h.loadTable pageSize
        have hrest := ih (Loading.indexed_declare hindexed pageSize definition) hrest
          (h.tail hindexed) (number + 1)
        simp only [Catalog.loadLines, loadLine, if_neg hblank, hparse, bind, EStateM.bind, pure,
          EStateM.pure, htable, hrest]
        rfl

/-! ## What the declarations leave -/

theorem root_foldl_declare (pageSize : Nat) (definitions : List Definition) (state : Loading) :
    (definitions.foldl (Loading.declare pageSize) state).disk.root = state.disk.root := by
  induction definitions generalizing state with
  | nil => rfl
  | cons definition definitions ih => exact ih _

theorem indexed_foldl_declare (pageSize : Nat) (definitions : List Definition)
    (hindexed : state.catalog.Indexed) :
    (definitions.foldl (Loading.declare pageSize) state).catalog.Indexed := by
  induction definitions generalizing state with
  | nil => exact hindexed
  | cons definition definitions ih =>
      exact ih (Loading.indexed_declare hindexed pageSize definition)

theorem Loadable.foldl {before rest : List Definition} (hindexed : state.catalog.Indexed)
    (h : Loadable state (before ++ rest)) (pageSize : Nat) :
    Loadable (before.foldl (Loading.declare pageSize) state) rest := by
  induction before generalizing state with
  | nil => exact h
  | cons definition before ih =>
      exact ih (Loading.indexed_declare hindexed pageSize definition) (h.tail hindexed)

theorem Loadable.content_foldl (hindexed : state.catalog.Indexed) (h : Loadable state definitions)
    (name : String) : (definitions.foldl (Loading.declare pageSize) state).disk.content name
      = state.disk.content name := by
  induction definitions generalizing state with
  | nil => rfl
  | cons definition definitions ih =>
      obtain ⟨-, hcontent, -⟩ := Disk.openFile_eq_ok (h.disk_openFile pageSize)
      exact (ih (Loading.indexed_declare hindexed pageSize definition) (h.tail hindexed)).trans
        (hcontent name)

theorem Indexed.lookup_name {id : TableId} {entry : TableEntry} (h : catalog.Indexed)
    (hentry : catalog.entry id = .ok entry) : catalog.lookup entry.name = .ok id :=
  lookup_eq_ok_iff.2 ((h.inverse entry.name id).2 ⟨entry, entry_eq_ok_iff.1 hentry, rfl⟩)

theorem Indexed.name_eq {id : TableId} {entry : TableEntry} {name : String} (h : catalog.Indexed)
    (hlookup : catalog.lookup name = .ok id) (hentry : catalog.entry id = .ok entry) :
    entry.name = name := by
  obtain ⟨found, hfound, hname⟩ := (h.inverse name id).1 (lookup_eq_ok_iff.1 hlookup)
  rw [entry_eq_ok_iff, hfound] at hentry
  cases hentry
  exact hname

/-- A table of another name and another file is not touched. -/
theorem Loadable.entry_foldl {id : TableId} {entry : TableEntry}
    (hindexed : state.catalog.Indexed) (h : Loadable state definitions)
    (hentry : state.catalog.entry id = .ok entry)
    (hnames : ∀ d ∈ definitions, entry.name ≠ d.name)
    (hpaths : ∀ d ∈ definitions, entry.file.absolutePath ≠ d.path state.disk.root)
    (pageSize : Nat) :
    (definitions.foldl (Loading.declare pageSize) state).catalog.entry id = .ok entry := by
  induction definitions generalizing state with
  | nil => exact hentry
  | cons definition definitions ih =>
      -- Under the identity of the new table only its own file can have been registered.
      have hid : id ≠ definition.id state.disk.root := by
        rintro rfl
        exact hpaths definition List.mem_cons_self (h.free definition List.mem_cons_self _ hentry)
      have hother : state.catalog.lookup definition.name ≠ .ok id := fun hlookup =>
        hnames definition List.mem_cons_self (hindexed.name_eq hlookup hentry)
      have hkept : (state.declare pageSize definition).catalog.entry id = .ok entry :=
        ((h.registers hindexed pageSize).otherIds id hid hother).trans hentry
      exact ih (Loading.indexed_declare hindexed pageSize definition) (h.tail hindexed) hkept
        (List.forall_mem_cons.1 hnames).2 (List.forall_mem_cons.1 hpaths).2

/-- What adding the declared tables one after the other makes of a state. -/
structure Declared (pageSize : Nat) (definitions : List Definition) (state state' : Loading) :
    Prop where
  eq_foldl : state' = definitions.foldl (Loading.declare pageSize) state
  /-- Of several declarations of a name the last one counts, and there is one table of
  that name. -/
  last : ∀ before d after, definitions = before ++ d :: after → (∀ e ∈ after, d.name ≠ e.name) →
    state'.catalog.lookup d.name = .ok (d.id state.disk.root) ∧
    state'.catalog.entry (d.id state.disk.root)
      = .ok ⟨d.file (before.foldl (Loading.declare pageSize) state).disk pageSize, d.name,
          d.key⟩ ∧
    ∀ id entry, state'.catalog.entry id = .ok entry → entry.name = d.name →
      id = d.id state.disk.root
  /-- Tables of other names and other files are found as before. -/
  others : ∀ id entry, state.catalog.entry id = .ok entry →
    (∀ d ∈ definitions, entry.name ≠ d.name) →
    (∀ d ∈ definitions, entry.file.absolutePath ≠ d.path state.disk.root) →
    state'.catalog.entry id = .ok entry ∧ state'.catalog.lookup entry.name = .ok id
  /-- At most empty files are made. -/
  contents : ∀ name, state'.disk.content name = state.disk.content name

/-- The last declaration of a name is found after the others. -/
theorem Loadable.entry_last {before after : List Definition} (hindexed : state.catalog.Indexed)
    (h : Loadable state (before ++ definition :: after))
    (hlast : ∀ e ∈ after, definition.name ≠ e.name) (pageSize : Nat) :
    ((before ++ definition :: after).foldl (Loading.declare pageSize) state).catalog.entry
        (definition.id state.disk.root)
      = .ok ⟨definition.file (before.foldl (Loading.declare pageSize) state).disk pageSize,
          definition.name, definition.key⟩ := by
  have hindexed' := indexed_foldl_declare pageSize before hindexed
  have hloadable := h.foldl hindexed pageSize
  have hroot := root_foldl_declare pageSize before state
  rw [List.foldl_append, List.foldl_cons, ← hroot]
  exact (hloadable.tail hindexed').entry_foldl (Loading.indexed_declare hindexed' pageSize _)
    (hloadable.registers hindexed' pageSize).entry hlast
    (fun e he hpath => hlast e he (Definition.path_inj hpath)) pageSize

theorem Loadable.declared (hindexed : state.catalog.Indexed) (h : Loadable state definitions) :
    Declared pageSize definitions state (definitions.foldl (Loading.declare pageSize) state) := by
  have hafter := indexed_foldl_declare pageSize definitions hindexed
  constructor
  case eq_foldl => rfl
  case last =>
    rintro before d after rfl hlast
    have hentry := h.entry_last hindexed hlast pageSize
    have hlookup := hafter.lookup_name hentry
    refine ⟨hlookup, hentry, fun id entry hid hname => ?_⟩
    have hfound := hafter.lookup_name hid
    rw [hname, hlookup] at hfound
    exact (Except.ok.inj hfound).symm
  case others =>
    intro id entry hentry hnames hpaths
    have hkept := h.entry_foldl hindexed hentry hnames hpaths pageSize
    exact ⟨hkept, hafter.lookup_name hkept⟩
  case contents => exact h.content_foldl hindexed

end Catalog

/-- Loading a schema file, into any catalog, is the fold of its lines up to the first bad
one. If every line that is not blank declares a table, the tables are added one after the
other, and their identities are the answer. If a line declares none, loading ends with its
number among all lines, and the tables of the lines before it have been added. -/
theorem schema_loads_up_to_first_bad_line (calls : List CatalogCall) (disk : Disk)
    (pageSize : Nat) (file : String) (text : List Char)
    (hfile : disk.content? file = some (Text.encode text)) :
    let state : Catalog.Loading := ⟨disk, CatalogCall.afterAll calls .empty⟩
    let lines := Text.lines text
    Text.Lined lines text ∧
    (∀ definitions, Definition.declared lines = .ok definitions →
      Catalog.Loadable state definitions →
      ∃ state', Catalog.loadFile pageSize file state
          = .ok (definitions.map (Definition.id · disk.root)) state' ∧
        Catalog.Declared pageSize definitions state state') ∧
    (∀ before line after definitions fault, lines = before ++ line :: after →
      Definition.declared before = .ok definitions → ¬Text.Blank line →
      Definition.parse line = .error fault → Catalog.Loadable state definitions →
      ∃ state', Catalog.loadFile pageSize file state
          = .error (.schemaParse (before.length + 1) fault) state' ∧
        Catalog.Declared pageSize definitions state state') ∧
    ((∃ definitions, Definition.declared lines = .ok definitions) ∨
      ∃ before line after definitions fault, lines = before ++ line :: after ∧
        Definition.declared before = .ok definitions ∧ ¬Text.Blank line ∧
        Definition.parse line = .error fault) := by
  intro state lines
  have hindexed : state.catalog.Indexed := CatalogCall.indexed_afterAll .empty calls
  have hload : Catalog.loadFile pageSize file state = Catalog.loadLines pageSize 1 lines state :=
    Catalog.loadFile_of_text hfile (Text.decode?_encode text)
  refine ⟨Text.lines_eq_iff.1 rfl, ?_, ?_, ?_⟩
  · intro definitions hlines hloadable
    refine ⟨_, ?_, hloadable.declared hindexed⟩
    rw [hload, hloadable.loadLines hindexed hlines]
  · intro before line after definitions fault hlines hbefore hblank hparse hloadable
    refine ⟨_, ?_, hloadable.declared hindexed⟩
    rw [hload, hlines, Catalog.loadLines_of_refused hblank hparse,
      hloadable.loadLines hindexed hbefore]
  · cases hlines : Definition.declared lines with
    | ok definitions => exact .inl ⟨definitions, rfl⟩
    | error fault =>
        obtain ⟨before, line, after, definitions, h⟩ := Definition.exists_first_bad hlines
        exact .inr ⟨before, line, after, definitions, fault, h⟩

/-- A text that declares one name twice and ends with a line that is no declaration. -/
def redeclaring : List Char := "t (a int)\r\n\nt (b string pk)\nt b".toList

/-- The name was registered before, for another file. Loading ends in the fourth line; the
name leads to its second declaration, and the other table is found as before. -/
theorem schema_loads_up_to_first_bad_line_redeclaring :
    let calls := [.register (.blank "/d/1" 1) "t" "", .register (.blank "/d/2" 2) "u" ""]
    let disk := (Disk.empty "/d").put "schema" (Text.encode redeclaring)
    let state : Catalog.Loading := ⟨disk, CatalogCall.afterAll calls .empty⟩
    ∃ state' file,
      Catalog.loadFile 64 "schema" state = .error (.schemaParse 4 .missingOpen) state' ∧
      state'.catalog.lookup "t" = .ok file.id ∧
      state'.catalog.entry file.id = .ok ⟨file, "t", "b"⟩ ∧
      file.schema = ⟨[⟨.string, some "b"⟩]⟩ ∧
      state'.catalog.lookup "u" = .ok ⟨2⟩ := by
  intro calls disk state
  let first : Definition := ⟨"t", [("a", .int)], ""⟩
  let second : Definition := ⟨"t", [("b", .string)], "b"⟩
  have hpath : ∀ d ∈ [first, second], d.path "/d" = "/d/t.dat" := by decide
  have hloadable : Catalog.Loadable state [first, second] := by
    constructor
    case plain => decide
    case opens =>
      have hlocate : disk.locate "t.dat" = .ok "t.dat" := by decide +kernel
      have hname : ∀ d ∈ [first, second], d.fileName = "t.dat" := by decide
      intro d hd
      rw [hname d hd]
      exact ⟨_, hlocate⟩
    case free =>
      intro d hd entry hentry
      have hnone : state.catalog.byId[HeapFile.idOfPath "/d/t.dat"]? = none := by decide +kernel
      rw [Catalog.entry_eq_ok_iff] at hentry
      have hid : d.id state.disk.root = HeapFile.idOfPath "/d/t.dat" :=
        congrArg HeapFile.idOfPath (hpath d hd)
      rw [hid, hnone] at hentry
      cases hentry
    case apart => exact fun d hd e he _ => (hpath d hd).trans (hpath e he).symm
  obtain ⟨-, -, hbad, -⟩ := schema_loads_up_to_first_bad_line calls disk 64 "schema" redeclaring
    (by decide +kernel)
  obtain ⟨state', hload, h⟩ := hbad ["t (a int)".toList, [], "t (b string pk)".toList]
    "t b".toList [] [first, second] .missingOpen (by decide +kernel) (by decide +kernel)
    (by decide +kernel) (by decide +kernel) hloadable
  obtain ⟨hlookup, hentry, -⟩ := h.last [first] second [] rfl (by simp)
  have hother : state.catalog.entry ⟨2⟩ = .ok ⟨.blank "/d/2" 2, "u", ""⟩ :=
    Catalog.entry_eq_ok_iff.2 (by decide +kernel)
  refine ⟨state', second.file (state.declare 64 first).disk 64, hload, hlookup, hentry, rfl, ?_⟩
  refine (h.others ⟨2⟩ _ hother (by decide) fun d hd => ?_).2
  rw [show d.path state.disk.root = _ from hpath d hd]
  decide

end HeapStore
