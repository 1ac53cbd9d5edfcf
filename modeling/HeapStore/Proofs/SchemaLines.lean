import Mathlib.Data.List.Forall2
import Mathlib.Data.List.Induction
import HeapStore.Catalog.Definition
import HeapStore.Proofs.Words

/-!
# Schema lines

How a line of schema text is written (`Definition.IsLine`): a name, the columns
between parentheses with commas between them, blanks wherever words, commas and
parentheses meet, and some text behind the last parenthesis. A column is written
(`Definition.ColumnText.Written`) as its name, its type in any letter case
(`FieldType.Spelled`), and `pk` if it is the key.

Reading goes the other way and is exact (`Definition.parse_eq_ok_iff`): a line
defines a table exactly if it is written so, where the parenthesis that ends the
columns is the last of the line. That one way of writing gives the definition:
name and columns of a line are determined (`Definition.IsLine.unique`). The names of
the columns may hold parentheses: the first `(` and the last `)` of the line are
never theirs.

Main statement: `Definition.written_line_parses`.
-/

namespace HeapStore

/-! ## Type names -/

namespace FieldType

/-- The name of a type, in lower case. -/
def letters : FieldType → List Char
  | .int => ['i', 'n', 't']
  | .string => ['s', 't', 'r', 'i', 'n', 'g']

/-- The word is the name of the type, with each letter in lower or upper case. -/
def Spelled (type : FieldType) (word : List Char) : Prop :=
  List.Forall₂ (fun letter c => c = letter ∨ c = letter.toUpper) type.letters word

theorem toNat_toLower (c : Char) :
    c.toLower.toNat = if 65 ≤ c.toNat ∧ c.toNat ≤ 90 then c.toNat + 32 else c.toNat := by
  have hcode : c.val ≥ 'A'.val ∧ c.val ≤ 'Z'.val ↔ 65 ≤ c.toNat ∧ c.toNat ≤ 90 := by
    simp [UInt32.le_iff_toNat_le]
  split
  · rename_i h
    have hlower : c.toLower = _ := dif_pos (hcode.2 h)
    have hadd : (c.val + ('a'.val - 'A'.val)).toNat = (c.toNat + 32) % 2 ^ 32 :=
      UInt32.toNat_add _ _
    rw [hlower]
    exact hadd.trans (Nat.mod_eq_of_lt (by omega))
  · rename_i h
    have hsame : c.toLower = c := dif_neg (mt hcode.1 h)
    rw [hsame]

theorem toNat_toUpper (c : Char) :
    c.toUpper.toNat = if 97 ≤ c.toNat ∧ c.toNat ≤ 122 then c.toNat - 32 else c.toNat := by
  have hcode : 'a'.val ≤ c.val ∧ c.val ≤ 'z'.val ↔ 97 ≤ c.toNat ∧ c.toNat ≤ 122 := by
    simp [UInt32.le_iff_toNat_le]
  split
  · rename_i h
    have hupper : c.toUpper = _ := dif_pos (hcode.2 h)
    have hadd : (c.val + ('A'.val - 'a'.val)).toNat = (c.toNat + (2 ^ 32 - 32)) % 2 ^ 32 :=
      UInt32.toNat_add _ _
    rw [hupper]
    refine hadd.trans ?_
    omega
  · rename_i h
    have hsame : c.toUpper = c := dif_neg (mt hcode.1 h)
    rw [hsame]

theorem toLower_eq_iff {letter c : Char} (h : 97 ≤ letter.toNat ∧ letter.toNat ≤ 122) :
    c.toLower = letter ↔ c = letter ∨ c = letter.toUpper := by
  simp only [← Char.toNat_inj, toNat_toLower, toNat_toUpper, if_pos h]
  split <;> omega

theorem map_toLower_eq_iff {letters word : List Char}
    (hlower : ∀ letter ∈ letters, 97 ≤ letter.toNat ∧ letter.toNat ≤ 122) :
    word.map Char.toLower = letters ↔
      List.Forall₂ (fun letter c => c = letter ∨ c = letter.toUpper) letters word := by
  induction letters generalizing word with
  | nil => rw [List.map_eq_nil_iff, List.forall₂_nil_left_iff]
  | cons letter letters ih =>
      rw [List.forall_mem_cons] at hlower
      cases word with
      | nil => simp
      | cons c word =>
          rw [List.map_cons, List.cons.injEq, List.forall₂_cons, toLower_eq_iff hlower.1,
            ih hlower.2]

theorem spelled_iff {type : FieldType} {word : List Char} :
    type.Spelled word ↔ word.map Char.toLower = type.letters := by
  refine (map_toLower_eq_iff ?_).symm
  cases type <;> simp [letters]

theorem ofName?_eq_some_iff {type : FieldType} {word : List Char} :
    ofName? word = some type ↔ type.Spelled word := by
  rw [spelled_iff, ofName?]
  cases type <;> grind [letters]

theorem Spelled.not_mem_comma {type : FieldType} {word : List Char} (h : type.Spelled word) :
    ',' ∉ word := fun hmem => by
  have hlower : ',' ∈ type.letters := spelled_iff.1 h ▸ List.mem_map_of_mem hmem
  cases type <;> exact absurd hlower (by decide)

end FieldType

namespace Definition

variable {name front middle tail line part : List Char} {column : ColumnText}
  {columns : List ColumnText} {definition : Definition}

/-! ## Columns -/

/-- The words of a column whose type is spelled `typeName`. -/
def ColumnText.words (column : ColumnText) (typeName : List Char) : List (List Char) :=
  column.name.toList :: typeName :: if column.isKey then [['p', 'k']] else []

/-- The part of a line is the column: its words, with blanks around them. -/
def ColumnText.Written (column : ColumnText) (part : List Char) : Prop :=
  ∃ typeName, column.type.Spelled typeName ∧ Text.Spaced (column.words typeName) part

theorem typeOfWord_eq_ok_iff {word : List Char} {type : FieldType} :
    typeOfWord word = .ok type ↔ type.Spelled word := by
  rw [← FieldType.ofName?_eq_some_iff, typeOfWord]
  cases FieldType.ofName? word <;> simp

theorem map_eq_ok_iff {α β : Type} {f : α → β} {result : Except Fault α} {b : β} :
    result.map f = .ok b ↔ ∃ a, result = .ok a ∧ f a = b := by
  cases result <;> simp [Except.map]

theorem bind_eq_ok_iff {α β : Type} {f : α → Except Fault β} {result : Except Fault α} {b : β} :
    result >>= f = .ok b ↔ ∃ a, result = .ok a ∧ f a = .ok b := by
  cases result <;> simp [bind, Except.bind]

/-- A part is read as the column that is written there. -/
theorem parseColumn_eq_ok_iff : parseColumn part = .ok column ↔ column.Written part := by
  simp only [ColumnText.Written, ← Text.words_eq_iff, ColumnText.words]
  constructor
  · intro h
    rw [parseColumn] at h
    split at h
    · rename_i first second hwords
      obtain ⟨type, htype, rfl⟩ := map_eq_ok_iff.1 h
      exact ⟨second, typeOfWord_eq_ok_iff.1 htype, by simp [hwords]⟩
    · rename_i first second mark hwords
      split at h
      · rename_i hmark
        obtain ⟨type, htype, rfl⟩ := map_eq_ok_iff.1 h
        exact ⟨second, typeOfWord_eq_ok_iff.1 htype, by simp [hwords, hmark]⟩
      · cases h
    · cases h
  · rintro ⟨typeName, hspelled, hwords⟩
    obtain ⟨name, type, isKey⟩ := column
    have htype := typeOfWord_eq_ok_iff.2 hspelled
    cases isKey <;> simp_all [parseColumn, Except.map]

/-- A comma in a part is one of the column's name. -/
theorem ColumnText.Written.comma_mem_iff (h : column.Written part) :
    ',' ∈ part ↔ ',' ∈ column.name.toList := by
  obtain ⟨typeName, hspelled, hwords⟩ := h
  constructor
  · intro hmem
    rcases hwords.mem hmem with hblank | ⟨word, hword, hmem⟩
    · exact absurd hblank (by decide)
    · rw [ColumnText.words, List.mem_cons, List.mem_cons] at hword
      rcases hword with rfl | rfl | hword
      · exact hmem
      · exact absurd hmem hspelled.not_mem_comma
      · split at hword
        · rw [List.mem_singleton.1 hword] at hmem
          exact absurd hmem (by decide)
        · cases hword
  · exact hwords.mem_of_mem_word List.mem_cons_self

/-- A list of parts is read column by column. -/
theorem mapM_eq_ok_iff {parts : List (List Char)} :
    parts.mapM parseColumn = .ok columns ↔ List.Forall₂ ColumnText.Written columns parts := by
  induction parts generalizing columns with
  | nil =>
      rw [List.mapM_nil, List.forall₂_nil_right_iff]
      exact ⟨fun h => (Except.ok.inj h).symm, fun h => h ▸ rfl⟩
  | cons part parts ih =>
      simp only [List.mapM_cons, bind_eq_ok_iff, parseColumn_eq_ok_iff, ih,
        List.forall₂_cons_right_iff]
      constructor
      · rintro ⟨column, hcolumn, rest, hrest, heq⟩
        exact ⟨column, rest, hcolumn, hrest, (Except.ok.inj heq).symm⟩
      · rintro ⟨column, rest, hcolumn, hrest, rfl⟩
        exact ⟨column, hcolumn, rest, hrest, rfl⟩

/-- No part holds a comma as long as no name of a column does. -/
theorem noComma_iff {parts : List (List Char)}
    (h : List.Forall₂ ColumnText.Written columns parts) :
    (∀ column ∈ columns, ',' ∉ column.name.toList) ↔ ∀ part ∈ parts, ',' ∉ part := by
  induction h with
  | nil => simp
  | cons hpart _ ih => rw [List.forall_mem_cons, List.forall_mem_cons, hpart.comma_mem_iff, ih]

/-! ## Where the parentheses are -/

theorem findIdx?_of_not_mem {c : Char} {text : List Char} (h : c ∉ text) :
    text.findIdx? (· == c) = none :=
  List.findIdx?_eq_none_iff.2 fun _ hd => beq_false_of_ne fun heq => h (heq ▸ hd)

theorem findIdx?_append_cons {c : Char} (h : c ∉ front) (back : List Char) :
    (front ++ c :: back).findIdx? (· == c) = some front.length := by
  rw [List.findIdx?_append, findIdx?_of_not_mem h]
  simp [List.findIdx?_cons]

theorem lastIdx?_of_not_mem {c : Char} {text : List Char} (h : c ∉ text) :
    lastIdx? c text = none := by
  rw [lastIdx?, findIdx?_of_not_mem (mt List.mem_reverse.1 h)]
  rfl

theorem lastIdx?_append_cons {c : Char} (h : c ∉ tail) (front : List Char) :
    lastIdx? c (front ++ c :: tail) = some front.length := by
  rw [lastIdx?, List.reverse_append, List.reverse_cons, List.append_assoc,
    List.singleton_append, findIdx?_append_cons (mt List.mem_reverse.1 h)]
  simp

theorem exists_last {c : Char} {text : List Char} (h : c ∈ text) :
    ∃ front tail, text = front ++ c :: tail ∧ c ∉ tail := by
  obtain ⟨back, front, hback, hnone⟩ := List.eq_append_cons_of_mem (List.mem_reverse.2 h)
  refine ⟨front.reverse, back.reverse, ?_, mt List.mem_reverse.1 hnone⟩
  rw [← List.reverse_reverse text, hback]
  simp

/-- The first `(` and the last `)` cut a line in one way. -/
theorem shape_inj {front' middle' tail' : List Char} (hfront : '(' ∉ front)
    (hfront' : '(' ∉ front') (htail : ')' ∉ tail) (htail' : ')' ∉ tail')
    (h : front ++ '(' :: (middle ++ ')' :: tail) = front' ++ '(' :: (middle' ++ ')' :: tail')) :
    front = front' ∧ middle = middle' ∧ tail = tail' := by
  have hstart : some front.length = some front'.length := by
    rw [← findIdx?_append_cons hfront, h, findIdx?_append_cons hfront']
  obtain ⟨rfl, hrest⟩ := List.append_inj h (Option.some.inj hstart)
  rw [List.cons.injEq] at hrest
  have hstop : some middle.length = some middle'.length := by
    rw [← lastIdx?_append_cons htail, hrest.2, lastIdx?_append_cons htail']
  obtain ⟨rfl, hclose⟩ := List.append_inj hrest.2 (Option.some.inj hstop)
  exact ⟨rfl, rfl, (List.cons.inj hclose).2⟩

/-! ## Lines -/

/-- The definition that a name and columns give. -/
def ofColumns (name : List Char) (columns : List ColumnText) : Definition where
  name := String.ofList name
  columns := columns.map fun column => (column.name, column.type)
  key := keyOf columns

/-- The line is the table with this name and these columns, and `tail` behind it. Any
blanks may stand around the name and around each word of a column; the name itself may
hold blanks, and the names of columns parentheses. -/
structure IsLine (name : List Char) (columns : List ColumnText) (tail line : List Char) :
    Prop where
  name_ne_nil : name ≠ []
  trimmed : Text.IsTrimmed name
  noOpen : '(' ∉ name
  columns_ne_nil : columns ≠ []
  noComma : ∀ column ∈ columns, ',' ∉ column.name.toList
  layout : ∃ before after parts, Text.Blank before ∧ Text.Blank after ∧
    List.Forall₂ ColumnText.Written columns parts ∧
    line = before ++ (name ++ after) ++ '(' :: ([','].intercalate parts ++ ')' :: tail)

/-- A table is written on a line exactly if its name and its columns are found there:
the name before the first `(`, the columns between commas behind it. -/
theorem isLine_iff : IsLine name columns tail line ↔ name ≠ [] ∧ ∃ front middle,
    '(' ∉ front ∧ line = front ++ '(' :: (middle ++ ')' :: tail) ∧ Text.trim front = name ∧
      (Text.splitAt ',' middle).mapM parseColumn = .ok columns := by
  constructor
  · intro h
    obtain ⟨before, after, parts, hbefore, hafter, hparts, rfl⟩ := h.layout
    have hfront : '(' ∉ before ++ (name ++ after) := by
      simp only [List.mem_append, not_or]
      exact ⟨hbefore.not_mem (by decide), h.noOpen, hafter.not_mem (by decide)⟩
    have hsome : parts ≠ [] := by
      rintro rfl
      exact h.columns_ne_nil (List.forall₂_nil_right_iff.1 hparts)
    have hsplit := Text.splitAt_intercalate hsome ((noComma_iff hparts).1 h.noComma)
    exact ⟨h.name_ne_nil, _, _, hfront, rfl, Text.trim_append hbefore hafter h.trimmed,
      by rw [hsplit, mapM_eq_ok_iff.2 hparts]⟩
  · rintro ⟨hname, front, middle, hfront, rfl, rfl, hcolumns⟩
    obtain ⟨before, after, hbefore, hafter, hblanks, htrimmed⟩ := Text.exists_blanks front
    have hparts := mapM_eq_ok_iff.1 hcolumns
    refine ⟨hname, htrimmed, fun hmem => hfront ?_, ?_,
      (noComma_iff hparts).2 Text.not_mem_of_mem_splitAt, before, after, _, hbefore, hafter,
      hparts, ?_⟩
    · rw [hblanks]
      exact List.mem_append_right _ (List.mem_append_left _ hmem)
    · rintro rfl
      exact Text.splitAt_ne_nil _ _ (List.forall₂_nil_left_iff.1 hparts)
    · rw [← hblanks, Text.intercalate_splitAt]

/-- What stands on a line is determined: behind the table no `)` is left. -/
theorem IsLine.unique {name' tail' : List Char} {columns' : List ColumnText}
    (h : IsLine name columns tail line) (h' : IsLine name' columns' tail' line)
    (htail : ')' ∉ tail) (htail' : ')' ∉ tail') :
    name = name' ∧ columns = columns' ∧ tail = tail' := by
  obtain ⟨-, front, middle, hfront, rfl, rfl, hcolumns⟩ := isLine_iff.1 h
  obtain ⟨-, front', middle', hfront', hline, rfl, hcolumns'⟩ := isLine_iff.1 h'
  obtain ⟨rfl, rfl, rfl⟩ := shape_inj hfront hfront' htail htail' hline
  rw [hcolumns] at hcolumns'
  exact ⟨rfl, Except.ok.inj hcolumns', rfl⟩

/-! ## Reading a line -/

/-- What is read from a line with its two parentheses. -/
theorem parse_of_shape (hfront : '(' ∉ front) (htail : ')' ∉ tail) :
    parse (front ++ '(' :: (middle ++ ')' :: tail)) =
      if (Text.trim front).isEmpty then .error .missingName
      else ((Text.splitAt ',' middle).mapM parseColumn).map (ofColumns (Text.trim front)) := by
  have hlast : lastIdx? ')' (front ++ '(' :: (middle ++ ')' :: tail))
      = some (front ++ '(' :: middle).length := by
    have hcut := lastIdx?_append_cons htail (front ++ '(' :: middle)
    rwa [List.append_assoc, List.cons_append] at hcut
  have htake : (front ++ '(' :: (middle ++ ')' :: tail)).take front.length = front :=
    List.take_left
  have hdrop : ((front ++ '(' :: (middle ++ ')' :: tail)).take
      (front ++ '(' :: middle).length).drop (front.length + 1) = middle := by
    rw [← List.cons_append, ← List.append_assoc, List.take_left, List.append_cons]
    exact List.drop_left' (by simp)
  simp only [parse, findIdx?_append_cons hfront, hlast, htake, hdrop]
  rw [if_neg (by simp)]
  split
  · rfl
  · cases (Text.splitAt ',' middle).mapM parseColumn <;> rfl

/-- A line that defines a table has its two parentheses. -/
theorem exists_shape_of_parse (h : parse line = .ok definition) :
    ∃ front middle tail, '(' ∉ front ∧ ')' ∉ tail ∧
      line = front ++ '(' :: (middle ++ ')' :: tail) := by
  by_cases hopen : '(' ∈ line
  · obtain ⟨front, rest, hfirst, hfront⟩ := List.eq_append_cons_of_mem hopen
    by_cases hclose : ')' ∈ line
    · obtain ⟨before, tail, hlast, htail⟩ := exists_last hclose
      have hstart := findIdx?_append_cons hfront rest
      have hstop := lastIdx?_append_cons htail before
      rw [← hfirst] at hstart
      rw [← hlast] at hstop
      simp only [parse, hstart, hstop] at h
      -- the last `)` stands either behind the first `(`, or in front of it
      rcases List.append_eq_append_iff.1 (hfirst.symm.trans hlast) with
        ⟨between, rfl, hbetween⟩ | ⟨between, rfl, hbetween⟩
      · cases between with
        | nil => simp at hbetween
        | cons c middle =>
            obtain ⟨rfl, rfl⟩ := List.cons.inj hbetween
            exact ⟨front, middle, tail, hfront, htail, hfirst⟩
      · cases between with
        | nil => simp at hbetween
        | cons c middle =>
            rw [if_pos (by simp)] at h
            cases h
    · rw [hfirst, parse, findIdx?_append_cons hfront, ← hfirst, lastIdx?_of_not_mem hclose] at h
      cases h
  · rw [parse, findIdx?_of_not_mem hopen] at h
    cases h

/-- A line is read as a table exactly if that table is written there. -/
theorem parse_eq_ok_iff : parse line = .ok definition ↔ ∃ name columns tail,
    IsLine name columns tail line ∧ ')' ∉ tail ∧ definition = ofColumns name columns := by
  constructor
  · intro h
    obtain ⟨front, middle, tail, hfront, htail, rfl⟩ := exists_shape_of_parse h
    rw [parse_of_shape hfront htail] at h
    split at h
    · cases h
    · rename_i hname
      obtain ⟨columns, hcolumns, rfl⟩ := map_eq_ok_iff.1 h
      exact ⟨_, columns, tail, isLine_iff.2 ⟨by simpa using hname, front, middle, hfront, rfl,
        rfl, hcolumns⟩, htail, rfl⟩
  · rintro ⟨name, columns, tail, h, htail, rfl⟩
    obtain ⟨hname, front, middle, hfront, rfl, rfl, hcolumns⟩ := isLine_iff.1 h
    rw [parse_of_shape hfront htail, if_neg (by simpa using hname), hcolumns]
    rfl

/-! ## The key -/

/-- The key of a table with these columns: the name of the last column that is
marked, or nothing if none is. -/
inductive IsKeyOf : List ColumnText → String → Prop where
  | marked {front : List ColumnText} {column : ColumnText} {back : List ColumnText}
      (hmark : column.isKey = true) (hlast : ∀ other ∈ back, other.isKey = false) :
      IsKeyOf (front ++ column :: back) column.name
  | unmarked {columns : List ColumnText} (hnone : ∀ column ∈ columns, column.isKey = false) :
      IsKeyOf columns ""

theorem keyOf_concat : keyOf (columns ++ [column])
    = if column.isKey = true then column.name else keyOf columns := by
  rw [keyOf, List.filter_append, List.filter_singleton]
  cases column.isKey <;> simp [keyOf]

theorem isKeyOf_keyOf (columns : List ColumnText) : IsKeyOf columns (keyOf columns) := by
  induction columns using List.reverseRecOn with
  | nil => exact .unmarked fun _ hmem => absurd hmem List.not_mem_nil
  | append_singleton columns column ih =>
      rw [keyOf_concat]
      split
      · rename_i hmark
        exact .marked hmark fun _ hmem => absurd hmem List.not_mem_nil
      · rename_i hplain
        have hplain : column.isKey = false := Bool.eq_false_iff.2 hplain
        generalize keyOf columns = key at ih
        cases ih with
        | marked hmark hlast =>
            rw [List.append_assoc, List.cons_append]
            exact .marked hmark (List.forall_mem_append.2 ⟨hlast, by simpa using hplain⟩)
        | unmarked hnone =>
            exact .unmarked (List.forall_mem_append.2 ⟨hnone, by simpa using hplain⟩)

/-- A line on which a table is written, with blanks wherever they may stand, is read as
that table: its name, its columns with their types in order, and as key the name of the
last column that is marked. -/
theorem written_line_parses {gap : List Char} (hline : IsLine name columns gap line)
    (hgap : Text.Blank gap) : ∃ key, IsKeyOf columns key ∧ parse line = .ok
      ⟨String.ofList name, columns.map fun column => (column.name, column.type), key⟩ :=
  ⟨keyOf columns, isKeyOf_keyOf columns,
    parse_eq_ok_iff.2 ⟨name, columns, gap, hline, hgap.not_mem (by decide), rfl⟩⟩

/-- Columns whose names hold parentheses, two of them marked. -/
def oddColumns : List ColumnText :=
  [⟨"a(b)", .int, true⟩, ⟨")", .string, false⟩, ⟨"e((", .int, true⟩]

/-- The table `my) table` with the odd columns, as somebody may write it. -/
def oddLine : List Char :=
  "\u3000my) table ( a(b)  InT pk ,)\tsTRING,e(( INT\u2003pk ) \t".toList

theorem written_line_parses_parentheses :
    IsLine "my) table".toList oddColumns " \t".toList oddLine ∧ ∃ key, IsKeyOf oddColumns key ∧
      parse oddLine
        = .ok ⟨"my) table", [("a(b)", .int), (")", .string), ("e((", .int)], key⟩ := by
  have hline : IsLine "my) table".toList oddColumns " \t".toList oddLine :=
    isLine_iff.2 ⟨by decide, "\u3000my) table ".toList,
      " a(b)  InT pk ,)\tsTRING,e(( INT\u2003pk ".toList, by decide, by decide +kernel,
      by decide +kernel, by decide +kernel⟩
  exact ⟨hline, written_line_parses hline (by decide)⟩

end Definition

end HeapStore
