import HeapStore.Catalog.Load
import HeapStore.Proofs.SchemaLines

/-!
# What schema lines say and what is read of them

A line is the rendering of a definition (`Definition.Renders`) if nothing stands on
it but the definition: behind the columns there are only blanks, and the key is the one
column that is marked. A line that is read as a definition holds it, but is no
rendering of it if it holds more, and there are two places for more
(`Definition.IsLine.renders_iff`): behind the last `)` any text is skipped, and of
several marks all but the last are.

Every other line is refused. Loading goes on line by line (`Catalog.loadLines_append`)
and ends at the first line that is refused, with its number.

Main statement: `Definition.line_reading`.
-/

namespace HeapStore

namespace Definition

variable {name tail line : List Char} {columns : List ColumnText} {definition : Definition}

/-! ## Renderings -/

/-- The line is the definition, up to blanks and the letter case of the types: nothing
stands behind the columns, and `pk` marks the key and no other column. -/
def Renders (definition : Definition) (line : List Char) : Prop :=
  ∃ columns gap, IsLine definition.name.toList columns gap line ∧ Text.Blank gap ∧
    definition.columns = columns.map (fun column => (column.name, column.type)) ∧
    (columns.filter ColumnText.isKey).map ColumnText.name
      = if definition.key = "" then [] else [definition.key]

theorem IsLine.name_isWord (h : IsLine name columns tail line) :
    ∀ column ∈ columns, Text.IsWord column.name.toList := by
  obtain ⟨-, -, parts, -, -, hparts, -⟩ := h.layout
  clear h
  induction hparts with
  | nil => exact fun _ hmem => absurd hmem List.not_mem_nil
  | cons hpart _ ih =>
      obtain ⟨_, -, hwords⟩ := hpart
      exact List.forall_mem_cons.2 ⟨hwords.isWord _ List.mem_cons_self, ih⟩

/-- One mark, or none, is the key and leaves no other. -/
theorem keyOf_of_marks (hnames : ∀ column ∈ columns, column.name ≠ "")
    (h : (columns.filter ColumnText.isKey).length ≤ 1) :
    (columns.filter ColumnText.isKey).map ColumnText.name
      = if keyOf columns = "" then [] else [keyOf columns] := by
  rw [keyOf]
  rcases hmarks : columns.filter ColumnText.isKey with _ | ⟨column, _ | ⟨other, marks⟩⟩
  · simp
  · have hmem : column ∈ columns.filter ColumnText.isKey := hmarks ▸ List.mem_cons_self
    simp [hnames column (List.mem_of_mem_filter hmem)]
  · rw [hmarks] at h
    simp at h

/-- What is read from a line is all that stands there exactly if no text follows the
last `)` and at most one column is marked. -/
theorem IsLine.renders_iff (h : IsLine name columns tail line) (htail : ')' ∉ tail) :
    (ofColumns name columns).Renders line ↔
      Text.Blank tail ∧ (columns.filter ColumnText.isKey).length ≤ 1 := by
  have hname : (ofColumns name columns).name.toList = name := String.toList_ofList
  constructor
  · rintro ⟨columns', gap, hline, hgap, -, hmarks⟩
    rw [hname] at hline
    obtain ⟨-, rfl, rfl⟩ := hline.unique h (hgap.not_mem (by decide)) htail
    refine ⟨hgap, ?_⟩
    rw [← List.length_map, hmarks]
    split <;> simp
  · rintro ⟨hblank, hmarks⟩
    refine ⟨columns, tail, hname.symm ▸ h, hblank, rfl, keyOf_of_marks ?_ hmarks⟩
    intro column hmem heq
    exact (h.name_isWord column hmem).ne_nil (heq ▸ rfl)

/-- The definition stands on the line: it has these columns, and `tail` follows behind
the last `)`. -/
structure StandsOn (definition : Definition) (columns : List ColumnText)
    (tail line : List Char) : Prop where
  isLine : IsLine definition.name.toList columns tail line
  isLast : ')' ∉ tail
  eq_ofColumns : definition = ofColumns definition.name.toList columns

theorem parse_eq_ok_iff_standsOn :
    parse line = .ok definition ↔ ∃ columns tail, definition.StandsOn columns tail line := by
  rw [parse_eq_ok_iff]
  constructor
  · rintro ⟨name, columns, tail, h, htail, rfl⟩
    have hname : (ofColumns name columns).name.toList = name := String.toList_ofList
    exact ⟨columns, tail, hname.symm ▸ h, htail, by rw [hname]⟩
  · rintro ⟨columns, tail, h⟩
    exact ⟨_, columns, tail, h.isLine, h.isLast, h.eq_ofColumns⟩

theorem StandsOn.renders_iff (h : definition.StandsOn columns tail line) :
    definition.Renders line ↔
      Text.Blank tail ∧ (columns.filter ColumnText.isKey).length ≤ 1 := by
  rw [h.eq_ofColumns]
  exact h.isLine.renders_iff h.isLast

end Definition

/-! ## Loading -/

namespace Catalog

/-- The lines are loaded one after the other. -/
theorem loadLines_append (pageSize number : Nat) (before rest : List (List Char)) :
    loadLines pageSize number (before ++ rest) = do
      let tables ← loadLines pageSize number before
      let more ← loadLines pageSize (number + before.length) rest
      return tables ++ more := by
  induction before generalizing number with
  | nil => simp [loadLines]
  | cons line before ih =>
      have hnumber : number + 1 + before.length = number + (before.length + 1) := by omega
      simp only [loadLines, List.cons_append, List.length_cons, ih, hnumber, bind_assoc,
        pure_bind, List.append_assoc]

/-- A line that is refused ends the loading, unless an earlier one does. -/
theorem loadLines_of_refused {pageSize : Nat} {before after : List (List Char)}
    {line : List Char} {fault : Definition.Fault} (hblank : ¬Text.Blank line)
    (hline : Definition.parse line = .error fault) (state : Loading) :
    loadLines pageSize 1 (before ++ line :: after) state =
      match loadLines pageSize 1 before state with
      | .ok _ state => .error (.schemaParse (before.length + 1) fault) state
      | .error cause state => .error cause state := by
  have hrefused : ∀ state, loadLines pageSize (1 + before.length) (line :: after) state
      = .error (.schemaParse (before.length + 1) fault) state := by
    intro state
    have hnumber : 1 + before.length = before.length + 1 := Nat.add_comm _ _
    have hstops : ¬line.all Text.isBlank = true := mt Text.blank_iff_all.2 hblank
    rw [hnumber]
    simp only [loadLines, loadLine, if_neg hstops, hline]
    rfl
  rw [loadLines_append]
  simp only [bind, EStateM.bind]
  cases loadLines pageSize 1 before state with
  | ok tables state => simp only [hrefused]
  | error cause state => rfl

/-- A schema file is loaded as the lines that it holds. -/
theorem loadFile_of_text {pageSize : Nat} {file : String} {data : Bytes} {text : List Char}
    {state : Loading} (hfile : state.disk.content? file = some data)
    (htext : Text.decode? data = some text) :
    loadFile pageSize file state = loadLines pageSize 1 (Text.lines text) state := by
  have hget : (get : EStateM Error Loading Loading) state = .ok state state := rfl
  simp only [loadFile, bind, EStateM.bind, hget, hfile, htext]
  rfl

end Catalog

namespace Definition

/-- What is read of a line. It is accepted exactly if a definition stands on it, and this
is the one that is read. The line is its rendering exactly if only blanks follow the last
`)` and at most one column is marked; else it holds text that is skipped. Any other line
that is not blank is refused, and ends the loading of a file with its number, unless an
earlier line does. -/
theorem line_reading (line : List Char) :
    (∀ definition, parse line = .ok definition ↔
      ∃ columns tail, definition.StandsOn columns tail line) ∧
    (∀ (definition : Definition) (columns : List ColumnText) (tail : List Char),
      definition.StandsOn columns tail line → (definition.Renders line ↔
        Text.Blank tail ∧ (columns.filter ColumnText.isKey).length ≤ 1)) ∧
    ((¬∃ definition columns tail, StandsOn definition columns tail line) → ¬Text.Blank line →
      ∃ fault, parse line = .error fault ∧ ∀ pageSize file data text before after state,
        state.disk.content? file = some data → Text.decode? data = some text →
        Text.lines text = before ++ line :: after →
        Catalog.loadFile pageSize file state =
          match Catalog.loadLines pageSize 1 before state with
          | .ok _ state => .error (.schemaParse (before.length + 1) fault) state
          | .error cause state => .error cause state) := by
  refine ⟨fun definition => parse_eq_ok_iff_standsOn, fun definition columns tail h =>
    h.renders_iff, fun hnone hblank => ?_⟩
  cases hline : parse line with
  | ok definition => exact absurd ⟨definition, parse_eq_ok_iff_standsOn.1 hline⟩ hnone
  | error fault =>
      refine ⟨fault, rfl, fun pageSize file data text before after state hfile htext hlines => ?_⟩
      rw [Catalog.loadFile_of_text hfile htext, hlines]
      exact Catalog.loadLines_of_refused hblank hline state

/-- A line with text behind its columns, and one with two marks, are both accepted. -/
theorem accepted_line_may_hold_more :
    (∃ definition, parse "t (a int) x".toList = .ok definition ∧
      ¬definition.Renders "t (a int) x".toList) ∧
    (∃ definition, parse "t (a int pk, b int pk)".toList = .ok definition ∧
      ¬definition.Renders "t (a int pk, b int pk)".toList) := by
  have hbehind : StandsOn ⟨"t", [("a", .int)], ""⟩ [⟨"a", .int, false⟩] " x".toList
      "t (a int) x".toList :=
    ⟨isLine_iff.2 ⟨by decide, "t ".toList, "a int".toList, by decide, by decide,
      by decide, by decide⟩, by decide, by decide⟩
  have hmarks : StandsOn ⟨"t", [("a", .int), ("b", .int)], "b"⟩
      [⟨"a", .int, true⟩, ⟨"b", .int, true⟩] [] "t (a int pk, b int pk)".toList :=
    ⟨isLine_iff.2 ⟨by decide, "t ".toList, "a int pk, b int pk".toList, by decide, by decide,
      by decide, by decide⟩, by decide, by decide⟩
  exact ⟨⟨_, parse_eq_ok_iff_standsOn.2 ⟨_, _, hbehind⟩, mt hbehind.renders_iff.1 (by decide)⟩,
    ⟨_, parse_eq_ok_iff_standsOn.2 ⟨_, _, hmarks⟩, mt hmarks.renders_iff.1 (by decide)⟩⟩

end Definition

end HeapStore
