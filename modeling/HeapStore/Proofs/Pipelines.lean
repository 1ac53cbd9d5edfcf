import HeapStore.Proofs.Pulling

/-!
# What a pipeline means

Every stage of a query has a meaning as a function from lists to lists. A
filter keeps, in order, the errors and the tuples that satisfy its predicate.
An aggregate of a list with an item it cannot use yields the error that this
item is, or stands for, and nothing else (`AggregateRequest.fault?`); so does
one with a group whose value is not of the column's type
(`AggregateRequest.misfit?`). Otherwise it yields a row for each group, in the
order in which the groups are first met.

A stack of stages that was accepted yields, item by item, what the meanings of
its stages make of the source, one after the other; a filter takes from its
input just the items up to the one it yields; and an aggregate that was
rewound yields its rows again, but not its error (`yields_meaning`).
-/

namespace HeapStore

/-- What an aggregate is asked to do, with the schema it is told its input
has. -/
structure AggregateRequest where
  input : Schema
  field : Nat
  group : Option Nat
  fn : AggregateFn

/-! ## The meaning of an aggregate -/

namespace AggregateRequest

/-- The aggregate, if the request is accepted. -/
def make (request : AggregateRequest) : Except Error Aggregate :=
  Aggregate.make request.input request.field request.group request.fn

/-- The error that an item ends the aggregate with: itself, or that it lacks a
field, or that it has no integer to aggregate. -/
def fault? (request : AggregateRequest) : Item → Option Error
  | .error cause => some cause
  | .ok tuple =>
    match request.group.filter fun group => (tuple.field? group).isNone,
      tuple.field? request.field with
    | some group, _ => some (.schemaMismatch (.noField group))
    | none, none => some (.schemaMismatch (.noField request.field))
    | none, some value =>
      if value.type ≠ .int ∧ request.fn ≠ .count then
        some (.schemaMismatch (.notInt request.field))
      else none

/-- The group a tuple belongs to: its value there, or nothing when there is no
grouping. -/
def key (request : AggregateRequest) (tuple : Tuple) : Option Field :=
  request.group.bind tuple.field?

/-- The groups, in the order in which they are first met. -/
def keys (request : AggregateRequest) (tuples : List Tuple) : List (Option Field) :=
  (tuples.map request.key).eraseDups

/-- The error that a group ends the aggregate with: that its value is not of
the type that the column has. -/
def misfit? (request : AggregateRequest) : Option Field → Option Error
  | none => none
  | some value =>
    let type := request.group.bind request.input.type?
    if type = some value.type then none
    else some (.schemaMismatch (.fieldType 0 value.type type))

/-- The columns of a row. -/
def output (request : AggregateRequest) : Schema :=
  ⟨(request.group.bind (request.input.columns[·]?)).toList ++
    [⟨.int, some (Aggregate.columnName request.fn (request.input.name? request.field))⟩]⟩

/-- The totals of one group. -/
def totals (request : AggregateRequest) (tuples : List Tuple) (key : Option Field) : Accumulator :=
  let members := tuples.filter fun tuple => request.key tuple = key
  (members.map fun tuple => (tuple.field? request.field).bind Field.asInt?).foldl
    Accumulator.add Accumulator.empty

/-- The row of one group: its value, if there is grouping, and the result. -/
def row (request : AggregateRequest) (tuples : List Tuple) (key : Option Field) : Item :=
  Tuple.make request.output
    (key.toList ++ [.int ((request.totals tuples key).result request.fn)])

/-- What an aggregate makes of a list. -/
def meaning (request : AggregateRequest) (items : List Item) : List Item :=
  match items.findSome? request.fault? with
  | some cause => [.error cause]
  | none =>
    let tuples := items.filterMap Except.toOption
    match (request.keys tuples).findSome? request.misfit? with
    | some cause => [.error cause]
    | none => (request.keys tuples).map (request.row tuples)

end AggregateRequest

/-! ## The meaning of a pipeline -/

/-- One stage of a query. -/
inductive Stage where
  | filter (predicate : Predicate)
  | aggregate (request : AggregateRequest)

namespace Stage

/-- What a stage makes of a list. -/
def meaning : Stage → List Item → List Item
  | .filter predicate, items => items.filter (Operator.passes predicate)
  | .aggregate request, items => request.meaning items

end Stage

namespace Pipeline

open Operator

/-- The stages on top of a stack, each on those before it, if all are
accepted. -/
def stack? : List Stage → Pipeline → Except Error Pipeline
  | [], top => .ok top
  | .filter predicate :: stages, top => stack? stages (.filter predicate top)
  | .aggregate request :: stages, top => do stack? stages (.aggregate (← request.make) top)

/-- What the stages make of a list, one after the other. -/
def meaning (stages : List Stage) (items : List Item) : List Item :=
  stages.foldl (fun items stage => stage.meaning items) items

end Pipeline

/-! ## Accepted requests -/

namespace AggregateRequest

variable {request : AggregateRequest}

/-- The aggregate of a request. -/
def checked (request : AggregateRequest) : Aggregate :=
  { field := request.field, group := request.group, fn := request.fn, output := request.output }

/-- An accepted request makes its aggregate, and its group's column exists. -/
theorem make_eq_ok {spec : Aggregate} (h : request.make = .ok spec) :
    spec = request.checked ∧
      ∀ group ∈ request.group, (request.input.columns[group]?).isSome := by
  obtain ⟨input, field, group, fn⟩ := request
  simp only [make, Aggregate.make] at h
  rcases hcolumn : input.columns[field]? with _ | column
  · simp [hcolumn] at h
  rw [hcolumn] at h
  by_cases hneeds : column.type ≠ .int ∧ fn ≠ .count
  · simp [hneeds] at h
  simp only [if_neg hneeds] at h
  rcases group with _ | group
  · have hspec := (Except.ok.inj h).symm
    exact ⟨by simp [hspec, checked, output, Schema.name?, hcolumn], nofun⟩
  rcases hshown : input.columns[group]? with _ | shown
  · simp [Aggregate.groupColumn, hshown, Except.map] at h
  simp only [Aggregate.groupColumn, hshown, Except.map] at h
  have hspec := (Except.ok.inj h).symm
  refine ⟨?_, fun other hother => by rw [← Option.some.inj hother, hshown]; rfl⟩
  simp [hspec, checked, output, Schema.name?, hcolumn, hshown]

/-- The items an aggregate can use are those that are no fault. -/
theorem usable_checked (request : AggregateRequest) (item : Item) :
    Operator.usable request.checked item =
      match request.fault? item with
      | some cause => .error cause
      | none => item := by
  cases item with
  | error cause => rfl
  | ok tuple =>
      have hlacks : (fun group => (tuple.field? group).isNone) =
          fun group => decide (tuple.fields.length ≤ group) := by
        funext group
        rw [Bool.eq_iff_iff, decide_eq_true_iff, Option.isNone_iff_eq_none]
        exact List.getElem?_eq_none_iff
      have hint : ∀ value : Field, value.asInt?.isNone = true ↔ value.type ≠ .int := by
        intro value
        cases value <;> simp [Field.asInt?, Field.type]
      simp only [Operator.usable, Aggregate.refuses, fault?, checked, hlacks, hint]
      cases request.group.filter fun group => decide (tuple.fields.length ≤ group) with
      | some group => rfl
      | none =>
          cases tuple.field? request.field with
          | none => rfl
          | some value =>
              by_cases hbad : value.type ≠ .int ∧ request.fn ≠ .count
              · simp only [if_pos hbad]
              · simp only [if_neg hbad]

/-- An aggregate reads up to the first fault, and has all tuples if there is
none. -/
theorem mapM_usable (items : List Item) :
    (cut (Operator.unusable request.checked) items).1.mapM (Operator.usable request.checked) =
      match items.findSome? request.fault? with
      | some cause => .error cause
      | none => .ok (items.filterMap Except.toOption) := by
  induction items with
  | nil => rfl
  | cons item items ih =>
      have husable := usable_checked request item
      cases hfault : request.fault? item with
      | some cause =>
          simp only [hfault] at husable
          simp [cut, Operator.unusable, husable, hfault, Except.isOk, Except.toBool, bind,
            Except.bind]
      | none =>
          simp only [hfault] at husable
          cases item with
          | error cause => simp [fault?] at hfault
          | ok tuple =>
              simp only [cut, Operator.unusable, husable, Except.isOk, Except.toBool,
                Bool.not_true, Bool.false_eq_true, if_false, List.mapM_cons,
                List.findSome?_cons, hfault]
              change (do
                let rest ← (cut (Operator.unusable request.checked) items).1.mapM
                  (Operator.usable request.checked)
                pure (tuple :: rest)) = _
              rw [ih]
              cases items.findSome? request.fault? <;> rfl

end AggregateRequest

/-! ## Groups -/

/-- Adding to a table of totals changes those of one key, which is put at the
end if it is new. -/
theorem Groups.add_table {keys : List (Option Field)} {totals : Option Field → Accumulator}
    (hnodup : keys.Nodup) (key : Option Field) (value : Option Int32)
    (hnew : key ∉ keys → totals key = .empty) :
    Groups.add (keys.map fun k => (k, totals k)) key value =
      (if key ∈ keys then keys else keys ++ [key]).map fun k =>
        (k, if k = key then (totals k).add value else totals k) := by
  induction keys with
  | nil => simp [Groups.add, hnew]
  | cons k keys ih =>
      obtain ⟨hk, hkeys⟩ := List.nodup_cons.1 hnodup
      by_cases heq : k = key
      · subst heq
        have hothers : ∀ other ∈ keys, ¬ other = k := fun other hother h => hk (h ▸ hother)
        simp only [List.map_cons, Groups.add, List.mem_cons, true_or, if_true]
        congr 1
        exact List.map_congr_left fun other hother => by rw [if_neg (hothers other hother)]
      · have hne : ¬ key = k := fun h => heq h.symm
        simp only [List.map_cons, Groups.add, heq, if_false, List.mem_cons, hne, false_or]
        rw [ih hkeys fun h => hnew (by simp [hne, h])]
        split <;> simp [heq]

namespace AggregateRequest

variable {request : AggregateRequest} {tuples : List Tuple} {tuple : Tuple} {key : Option Field}

theorem mem_keys : key ∈ request.keys tuples ↔ ∃ tuple ∈ tuples, request.key tuple = key := by
  simp [keys, List.mem_eraseDups]

theorem keys_append :
    request.keys (tuples ++ [tuple]) =
      if request.key tuple ∈ request.keys tuples then request.keys tuples
      else request.keys tuples ++ [request.key tuple] := by
  have hmem : request.key tuple ∈ request.keys tuples ↔
      request.key tuple ∈ tuples.map request.key := List.mem_eraseDups
  simp only [hmem]
  simp only [keys, List.map_append, List.map_cons, List.map_nil, List.eraseDups_append]
  split
  · simp_all [List.removeAll]
  · simp_all [List.removeAll, List.eraseDups_cons]

theorem totals_append :
    request.totals (tuples ++ [tuple]) key =
      if key = request.key tuple then
        (request.totals tuples key).add ((tuple.field? request.field).bind Field.asInt?)
      else request.totals tuples key := by
  by_cases h : request.key tuple = key
  · simp [totals, h]
  · have h' : ¬ key = request.key tuple := fun heq => h heq.symm
    simp [totals, h, h']

theorem totals_of_not_mem (h : key ∉ request.keys tuples) :
    request.totals tuples key = .empty := by
  have hnone : tuples.filter (fun tuple => request.key tuple = key) = [] := by
    simpa [mem_keys] using h
  simp [totals, hnone]

theorem keys_append_nodup (h : (request.keys tuples).Nodup) :
    (request.keys (tuples ++ [tuple])).Nodup := by
  rw [keys_append]
  split
  · exact h
  · rename_i hnew
    exact List.nodup_append.2 ⟨h, by simp, by grind⟩

/-- The groups met so far, and their totals. -/
def table (request : AggregateRequest) (tuples : List Tuple) : Groups :=
  (request.keys tuples).map fun key => (key, request.totals tuples key)

theorem table_append (h : (request.keys tuples).Nodup) :
    (request.table tuples).add (request.checked.keyOf tuple) (request.checked.valueOf tuple) =
      request.table (tuples ++ [tuple]) := by
  rw [table, Groups.add_table h _ _ totals_of_not_mem, table, keys_append]
  simp only [totals_append]
  rfl

/-- An aggregate ends up with the groups of its tuples, in the order in which
they are first met. -/
theorem groups_checked (tuples : List Tuple) :
    request.checked.groups tuples = request.table tuples := by
  have hrun : ∀ met : List Tuple, (request.keys met).Nodup →
      tuples.foldl (fun groups tuple =>
        groups.add (request.checked.keyOf tuple) (request.checked.valueOf tuple))
        (request.table met) = request.table (met ++ tuples) := by
    induction tuples with
    | nil => intro met _; simp
    | cons tuple tuples ih =>
        intro met hmet
        rw [List.foldl_cons, table_append hmet, ih _ (keys_append_nodup hmet)]
        simp
  exact hrun [] (by simp [keys])

/-! ## Rows -/

/-- Fields make a tuple, or do not match. -/
theorem make_or_mismatch (schema : Schema) (fields : List Field) :
    match (Tuple.mismatch? schema fields).map Error.schemaMismatch with
    | some cause => Tuple.make schema fields = .error cause
    | none => ∃ tuple, Tuple.make schema fields = .ok tuple ∧ tuple.schema = schema ∧
        tuple.fields = fields := by
  unfold Tuple.make
  split <;> rename_i h <;> split <;> simp_all

/-- The fields of a row make a tuple of the output, unless the group is a
misfit. -/
theorem mismatch?_row (hgroup : ∀ group ∈ request.group, (request.input.columns[group]?).isSome)
    (hkey : key.isSome = request.group.isSome) (result : Int32) :
    (Tuple.mismatch? request.output (key.toList ++ [.int result])).map .schemaMismatch =
      request.misfit? key := by
  obtain ⟨input, field, group, fn⟩ := request
  cases group with
  | none =>
      obtain rfl : key = none := by simpa using hkey
      rfl
  | some group =>
      obtain ⟨value, rfl⟩ : ∃ value, key = some value := Option.isSome_iff_exists.1 hkey
      obtain ⟨⟨type, name⟩, hcolumn⟩ := Option.isSome_iff_exists.1 (hgroup group rfl)
      simp only at hcolumn
      simp only [output, misfit?, Option.bind_some, hcolumn, Schema.type?]
      cases type <;> cases value <;> rfl

/-- A group has a row with its value and the result, unless it is a misfit. -/
theorem row_or_misfit (tuples : List Tuple)
    (hgroup : ∀ group ∈ request.group, (request.input.columns[group]?).isSome)
    (hkey : key.isSome = request.group.isSome) :
    match request.misfit? key with
    | some cause => request.row tuples key = .error cause
    | none => ∃ row, request.row tuples key = .ok row ∧ row.schema = request.output ∧
        row.fields = key.toList ++ [.int ((request.totals tuples key).result request.fn)] := by
  rw [← mismatch?_row hgroup hkey ((request.totals tuples key).result request.fn)]
  exact make_or_mismatch _ _

/-- A tuple that is no fault has the field it is grouped by. -/
theorem isSome_key (h : request.fault? (.ok tuple) = none) :
    (request.key tuple).isSome = request.group.isSome := by
  cases hgroup : request.group with
  | none => simp [key, hgroup]
  | some group =>
      simp only [fault?, hgroup] at h
      cases hfield : tuple.field? group with
      | none => simp [Option.filter_some, hfield] at h
      | some value => simp [key, hgroup, hfield]

/-- All rows are made, or the first misfit is what comes of it. -/
theorem mapM_row (tuples : List Tuple) {keys : List (Option Field)}
    (hgroup : ∀ group ∈ request.group, (request.input.columns[group]?).isSome)
    (hkeys : ∀ key ∈ keys, key.isSome = request.group.isSome) :
    match keys.findSome? request.misfit? with
    | some cause => keys.mapM (request.row tuples) = .error cause
    | none => ∃ rows, keys.mapM (request.row tuples) = .ok rows ∧
        rows.map .ok = keys.map (request.row tuples) := by
  induction keys with
  | nil => exact ⟨[], rfl, rfl⟩
  | cons key keys ih =>
      obtain ⟨hkey, hkeys⟩ := List.forall_mem_cons.1 hkeys
      have hrow := row_or_misfit tuples hgroup hkey
      have hrows := ih hkeys
      rw [List.findSome?_cons, List.mapM_cons, List.map_cons]
      cases hmisfit : request.misfit? key with
      | some cause =>
          simp only [hmisfit] at hrow
          simp only [hrow]
          rfl
      | none =>
          simp only [hmisfit] at hrow
          obtain ⟨row, hrow, -⟩ := hrow
          simp only [hrow]
          revert hrows
          cases keys.findSome? request.misfit? with
          | some cause => intro hrows; simp only at hrows; rw [hrows]; rfl
          | none =>
              rintro ⟨rows, hrows, hall⟩
              exact ⟨row :: rows, by rw [hrows]; rfl, by rw [List.map_cons, hall]⟩

theorem yields_rows {tuples : List Tuple}
    (hgroup : ∀ group ∈ request.group, (request.input.columns[group]?).isSome)
    (husable : ∀ tuple ∈ tuples, request.fault? (.ok tuple) = none) :
    Pipeline.yields (request.checked.rows tuples) =
      match (request.keys tuples).findSome? request.misfit? with
      | some cause => [.error cause]
      | none => (request.keys tuples).map (request.row tuples) := by
  have hkeys : ∀ key ∈ request.keys tuples, key.isSome = request.group.isSome := by
    intro key hkey
    obtain ⟨tuple, htuple, rfl⟩ := mem_keys.1 hkey
    exact isSome_key (husable tuple htuple)
  have hrows := mapM_row tuples hgroup hkeys
  have hmade : request.checked.rows tuples =
      (request.keys tuples).mapM (request.row tuples) := by
    rw [Aggregate.rows, groups_checked, table, List.mapM_map]
    rfl
  rw [hmade]
  revert hrows
  cases (request.keys tuples).findSome? request.misfit? with
  | some cause => intro hrows; simp only at hrows; rw [hrows]; rfl
  | none => rintro ⟨rows, hrows, hall⟩; rw [hrows]; exact hall

/-- What an aggregate makes of a list is what its request means. -/
theorem yields_checked (hgroup : ∀ group ∈ request.group, (request.input.columns[group]?).isSome)
    (items : List Item) :
    Pipeline.yields (Operator.rowsOf request.checked
        (cut (Operator.unusable request.checked) items).1) = request.meaning items := by
  rw [Operator.rowsOf, mapM_usable, meaning]
  cases hfault : items.findSome? request.fault? with
  | some cause => rfl
  | none =>
      refine yields_rows hgroup fun tuple htuple => ?_
      obtain ⟨item, hitem, hok⟩ := List.mem_filterMap.1 htuple
      have hnone := List.findSome?_eq_none_iff.1 hfault item hitem
      cases item with
      | error cause => simp [Except.toOption] at hok
      | ok other =>
          obtain rfl : other = tuple := by simpa [Except.toOption] using hok
          exact hnone

end AggregateRequest

/-! ## Stacks of stages -/

namespace Pipeline

open Operator

variable {stages : List Stage} {below top input : Pipeline} {spec : Aggregate}

/-- What is still to come of accepted stages is what they make of what is
still to come below them. -/
theorem left_stack (h : stack? stages below = .ok top) : top.left = meaning stages below.left := by
  induction stages generalizing below with
  | nil =>
      obtain rfl : below = top := Except.ok.inj h
      rfl
  | cons stage stages ih =>
      cases stage with
      | filter predicate => exact ih h
      | aggregate request =>
          cases hmake : request.make with
          | error cause => simp [stack?, hmake, bind, Except.bind] at h
          | ok spec =>
              obtain ⟨rfl, hgroup⟩ := AggregateRequest.make_eq_ok hmake
              have hrest : stack? stages (.aggregate request.checked below) = .ok top := by
                simpa [stack?, hmake, bind, Except.bind] using h
              rw [ih hrest, left, AggregateRequest.yields_checked hgroup]
              rfl

/-! ## Rewinding -/

theorem pulls_grouped (spec : Aggregate) (rows : List Tuple) (taken n : Nat) :
    ∃ taken', (pulls n (.grouped spec rows taken)).2 = .grouped spec rows taken' := by
  induction n generalizing taken with
  | zero => exact ⟨taken, rfl⟩
  | succ n ih => exact ih _

/-- The first request an aggregate gets makes it draw its input, once; it then
has its rows, or none if it yields an error. -/
theorem pull_aggregate (spec : Aggregate) (input : Pipeline) :
    ∃ rows taken, (pull (.aggregate spec input)).2 = .grouped spec rows taken ∧
      (rows.map .ok : List Item) = (left (.aggregate spec input)).filter Except.isOk ∧
      ((∃ cause, left (.aggregate spec input) = [.error cause]) ∨
        left (.aggregate spec input) = rows.map .ok) := by
  have hpull : (pull (.aggregate spec input)).2 =
      (draw (fun _ => true) (.aggregate spec input)).2 := rfl
  rw [hpull, draw_aggregate, (draw_left _ input).1, left]
  cases rowsOf spec (cut (unusable spec) (left input)).1 with
  | error cause => exact ⟨[], 0, rfl, rfl, .inl ⟨cause, rfl⟩⟩
  | ok rows =>
      refine ⟨rows, _, rfl, (List.filter_eq_self.2 fun item hitem => ?_).symm, .inr rfl⟩
      obtain ⟨row, -, rfl⟩ := List.mem_map.1 hitem
      rfl

/-- An aggregate that was asked at least once can be rewound to its rows, over
and over; the error it ended with, if it did, does not come again. -/
theorem rewind_aggregate (spec : Aggregate) (input : Pipeline) :
    ∃ rewound : Pipeline,
      (∀ n, 0 < n → rewind? Id (pulls n (.aggregate spec input)).2 = some rewound) ∧
      (∀ n, rewind? Id (pulls n rewound).2 = some rewound) ∧
      rewound.left = (left (.aggregate spec input)).filter Except.isOk ∧
      ((∃ cause, left (.aggregate spec input) = [.error cause]) ∨
        left (.aggregate spec input) = rewound.left) := by
  obtain ⟨rows, taken, hstate, hrows, hall⟩ := pull_aggregate spec input
  refine ⟨.grouped spec rows 0, fun n hn => ?_, fun n => ?_, hrows, hall⟩
  · obtain ⟨n, rfl⟩ : ∃ k, n = k + 1 := ⟨n - 1, by omega⟩
    rw [pulls, hstate]
    obtain ⟨taken', hlater⟩ := pulls_grouped spec rows taken n
    rw [hlater]
    rfl
  · obtain ⟨taken', hlater⟩ := pulls_grouped spec rows 0 n
    rw [hlater]
    rfl

/-! ## Stacks mean what their stages mean -/

/-- A stack of accepted stages over given items yields what the stages make of
these items, one call after the other, and then nothing. A filter that yields
an item has taken from its input just the items up to that one, so without the
filter the input goes on behind it. An aggregate yields its rows or just one
error, and when it is rewound, its rows again, or nothing. -/
theorem yields_meaning {items : List Item} {stages : List Stage} {top : Pipeline}
    (h : stack? stages (.source items) = .ok top) :
    (∀ n, (pulls n top).1 = (List.range n).map ((meaning stages items)[·]?)) ∧
    (∀ predicate (input : Pipeline), ∃ skipped : List Item,
      (∀ item ∈ skipped, passes predicate item = false) ∧
      (∀ item ∈ (pull (.filter predicate input)).1, passes predicate item = true) ∧
      pulls (skipped.length + 1) input =
        (skipped.map some ++ [(pull (.filter predicate input)).1],
          (pull (.filter predicate input)).2.dropFilter)) ∧
    (∀ spec input, top = .aggregate spec input →
      ((∃ cause, meaning stages items = [.error cause]) ∨
        ∀ item ∈ meaning stages items, item.isOk = true) ∧
      rewind? Id top = some top ∧
      ∃ rewound : Pipeline,
        (∀ n, 0 < n → rewind? Id (pulls n top).2 = some rewound) ∧
        (∀ n, rewind? Id (pulls n rewound).2 = some rewound) ∧
        ∀ n, (pulls n rewound).1 =
          (List.range n).map (((meaning stages items).filter Except.isOk)[·]?)) := by
  have hleft : top.left = meaning stages items := left_stack h
  refine ⟨fun n => by rw [(pulls_eq n top).1, hleft], pull_filter_takes, ?_⟩
  rintro spec input rfl
  obtain ⟨rewound, hfirst, hagain, hrows, hall⟩ := rewind_aggregate spec input
  rw [hleft] at hrows hall
  refine ⟨hall.imp_right fun heq item hitem => ?_, rfl, rewound, hfirst, hagain, fun n => ?_⟩
  · rw [heq, hrows] at hitem
    exact (List.mem_filter.1 hitem).2
  · rw [(pulls_eq n rewound).1, hrows]

/-- Four sales, as region and amount, one of them for nothing. -/
def fourSales : List Item :=
  [(1, 10), (2, 4), (1, 0), (1, -2)].map fun (region, amount) =>
    Tuple.make (.unnamed [.int, .int]) [.int region, .int amount]

/-- The sums by region of the sales that are not for nothing. -/
def sumByRegion : List Stage :=
  [.filter { field := 1, op := .notEquals, operand := .int 0 },
    .aggregate { input := .unnamed [.int, .int], field := 1, group := some 0, fn := .sum }]

theorem yields_meaning_fourSales :
    ∃ top, stack? sumByRegion (.source fourSales) = .ok top ∧
      (pulls 3 top).1.map (Option.map fun item => item.toOption.map Tuple.fields) =
        [some (some [.int 1, .int 8]), some (some [.int 2, .int 4]), none] ∧
      ∃ rewound : Pipeline, rewind? Id (pulls 1 top).2 = some rewound ∧
        (pulls 2 rewound).1.map (Option.map fun item => item.toOption.map Tuple.fields) =
          [some (some [.int 1, .int 8]), some (some [.int 2, .int 4])] := by
  have haccepted : stack? sumByRegion (.source fourSales) = .ok _ := rfl
  refine ⟨_, haccepted, ?_⟩
  obtain ⟨hitems, -, hrewind⟩ := yields_meaning haccepted
  obtain ⟨-, -, rewound, hfirst, -, hagain⟩ := hrewind _ _ rfl
  refine ⟨?_, rewound, hfirst 1 (by decide), ?_⟩
  · rw [hitems]; decide +kernel
  · rw [hagain]; decide +kernel

end Pipeline

end HeapStore
