import HeapStore.Proofs.Pipelines
import HeapStore.Proofs.Totals
import Mathlib.Data.List.Forall2

/-!
# Aggregates of conforming tuples

Tuples that have the schema an aggregate was told of are no fault and no
misfit, so there is a row for each group and no error
(`AggregateRequest.meaning_eq_rows`). What a row shows is the mathematical value
of the function over the numbers of its group, cut to 32 bits
(`AggregateRequest.Shows`), and the words behind it do not overflow at any
point (`AggregateRequest.groups_exact`). The order of the tuples within a group
does not matter.

The headline is `aggregate_matches_integers`.
-/

namespace HeapStore

namespace AggregateRequest

variable {request : AggregateRequest} {spec : Aggregate} {tuples : List Tuple} {tuple : Tuple}
  {key : Option Field}

/-! ## Groups and their numbers -/

/-- The tuples of a group. -/
def members (request : AggregateRequest) (tuples : List Tuple) (key : Option Field) :
    List Tuple :=
  tuples.filter fun tuple => request.key tuple = key

/-- The integer that is aggregated. -/
def value (request : AggregateRequest) (tuple : Tuple) : Option Int32 :=
  (tuple.field? request.field).bind Field.asInt?

/-- The numbers of a group. -/
def groupNumbers (request : AggregateRequest) (tuples : List Tuple) (key : Option Field) :
    List Int :=
  numbers ((request.members tuples key).map request.value)

/-- A row that shows a group and the value of the aggregate function for it,
which is that over the integers unless it needs more than 32 bits. -/
def Shows (request : AggregateRequest) (tuples : List Tuple) (key : Option Field)
    (row : Tuple) : Prop :=
  ∃ (result : Int32) (exact : Int),
    row.fields = key.toList ++ [.int result] ∧
      request.fn.Means (request.members tuples key).length (request.groupNumbers tuples key)
        exact ∧
      result.toInt = nearest exact ∧
      (request.fn = .avg ∨ request.fn = .min ∨ request.fn = .max → result.toInt = exact)

theorem totals_eq (request : AggregateRequest) (tuples : List Tuple) (key : Option Field) :
    request.totals tuples key
      = Accumulator.of ((request.members tuples key).map request.value) := rfl

theorem keys_nodup (request : AggregateRequest) (tuples : List Tuple) :
    (request.keys tuples).Nodup := by
  induction tuples using List.reverseRecOn with
  | nil => exact List.nodup_nil
  | append_singleton tuples tuple ih => exact keys_append_nodup ih

/-- The groups are in the order of their first tuples. -/
theorem keys_pairwise (request : AggregateRequest) (tuples : List Tuple) :
    (request.keys tuples).Pairwise fun a b =>
      (tuples.map request.key).idxOf a < (tuples.map request.key).idxOf b := by
  induction tuples using List.reverseRecOn with
  | nil => exact List.Pairwise.nil
  | append_singleton tuples tuple ih =>
      have hmet : ∀ key ∈ request.keys tuples, key ∈ tuples.map request.key := fun key hkey =>
        List.mem_eraseDups.1 hkey
      have hold : (request.keys tuples).Pairwise fun a b =>
          ((tuples ++ [tuple]).map request.key).idxOf a
            < ((tuples ++ [tuple]).map request.key).idxOf b := by
        refine ih.imp_of_mem fun ha hb hless => ?_
        rwa [List.map_append, List.idxOf_append, List.idxOf_append, if_pos (hmet _ ha),
          if_pos (hmet _ hb)]
      rw [keys_append]
      split
      · exact hold
      · rename_i hnew
        refine List.pairwise_append.2 ⟨hold, List.pairwise_singleton .., fun a ha b hb => ?_⟩
        have hnew : b ∉ tuples.map request.key := by
          rw [List.mem_singleton.1 hb]
          exact fun hmem => hnew (List.mem_eraseDups.2 hmem)
        rw [List.map_append, List.idxOf_append, List.idxOf_append, if_pos (hmet _ ha),
          if_neg hnew]
        have hlt := List.idxOf_lt_length_of_mem (hmet _ ha)
        omega

/-! ## Conforming tuples -/

theorem exists_column (h : request.make = .ok spec) :
    ∃ column, request.input.columns[request.field]? = some column ∧
      (column.type = .int ∨ request.fn = .count) := by
  obtain ⟨input, field, group, fn⟩ := request
  simp only [make, Aggregate.make] at h
  rcases hcolumn : input.columns[field]? with _ | column
  · simp [hcolumn] at h
  rw [hcolumn] at h
  by_cases hneeds : column.type ≠ .int ∧ fn ≠ .count
  · simp [hneeds] at h
  · exact ⟨column, rfl, by simpa [or_iff_not_imp_left] using hneeds⟩

theorem type_of_agrees (h : tuple.schema.agrees request.input = true) (i : Nat) :
    (tuple.field? i).map Field.type = request.input.type? i := by
  rw [Schema.type?_eq, ← Schema.agrees_iff.1 h, ← tuple.conforms, List.getElem?_map]
  rfl

/-- A tuple has a field of each column's type. -/
theorem exists_field {i : Nat} {column : Column} (h : tuple.schema.agrees request.input = true)
    (hcolumn : request.input.columns[i]? = some column) :
    ∃ field, tuple.field? i = some field ∧ field.type = column.type := by
  have htype := type_of_agrees h i
  rw [Schema.type?, hcolumn] at htype
  exact Option.map_eq_some_iff.1 htype

/-- A tuple of the input's schema can be aggregated. -/
theorem fault?_of_agrees (hmake : request.make = .ok spec)
    (h : tuple.schema.agrees request.input = true) : request.fault? (.ok tuple) = none := by
  obtain ⟨column, hcolumn, hint⟩ := exists_column hmake
  obtain ⟨field, hfield, htype⟩ := exists_field h hcolumn
  have hgroup : request.group.filter (fun group => (tuple.field? group).isNone) = none := by
    rw [Option.filter_eq_none_iff]
    intro group hgroup hnone
    obtain ⟨shown, hshown⟩ := Option.isSome_iff_exists.1 ((make_eq_ok hmake).2 group hgroup)
    obtain ⟨value, hvalue, -⟩ := exists_field h hshown
    rw [hvalue] at hnone
    cases hnone
  have husable : ¬(field.type ≠ .int ∧ request.fn ≠ .count) := fun ⟨hne, hfn⟩ =>
    hint.elim (fun heq => hne (htype.trans heq)) hfn
  simp only [fault?, hgroup, hfield, if_neg husable]

/-- Its group has the type of the column. -/
theorem misfit?_of_agrees (h : tuple.schema.agrees request.input = true) :
    request.misfit? (request.key tuple) = none := by
  cases hkey : request.key tuple with
  | none => rfl
  | some value =>
      obtain ⟨group, hgroup, hvalue⟩ := Option.bind_eq_some_iff.1 hkey
      have htype := type_of_agrees h group
      rw [hvalue, Option.map_some] at htype
      rw [misfit?, hgroup, Option.bind_some, if_pos htype.symm]

/-- Its number is there, unless it is not needed. -/
theorem exists_value (hmake : request.make = .ok spec) (hfn : request.fn ≠ .count)
    (h : tuple.schema.agrees request.input = true) : ∃ word, request.value tuple = some word := by
  obtain ⟨column, hcolumn, hint⟩ := exists_column hmake
  obtain ⟨field, hfield, htype⟩ := exists_field h hcolumn
  rw [hint.resolve_right hfn] at htype
  cases field with
  | int word => exact ⟨word, by rw [value, hfield]; rfl⟩
  | string text => cases htype

/-! ## Rows of conforming tuples -/

section Conforming

variable (hmake : request.make = .ok spec)
  (hconform : ∀ tuple ∈ tuples, tuple.schema.agrees request.input = true)

include hmake hconform

/-- There is a row for each group, and nothing else. -/
theorem meaning_eq_rows :
    request.meaning (tuples.map .ok) = (request.keys tuples).map (request.row tuples) := by
  have hfault : (tuples.map Except.ok : List Item).findSome? request.fault? = none := by
    refine List.findSome?_eq_none_iff.2 fun item hitem => ?_
    obtain ⟨tuple, htuple, rfl⟩ := List.mem_map.1 hitem
    exact fault?_of_agrees hmake (hconform tuple htuple)
  have hmisfit : (request.keys tuples).findSome? request.misfit? = none := by
    refine List.findSome?_eq_none_iff.2 fun key hkey => ?_
    obtain ⟨tuple, htuple, rfl⟩ := mem_keys.1 hkey
    exact misfit?_of_agrees (hconform tuple htuple)
  simp only [meaning, hfault, Item.filterMap_toOption, hmisfit]

/-- Pulled from, the aggregate yields the rows one by one, and then nothing. -/
theorem pulls_eq_rows (n : Nat) :
    (Pipeline.pulls n (.aggregate spec (.source (tuples.map .ok)))).1
      = (List.range n).map (((request.keys tuples).map (request.row tuples))[·]?) := by
  obtain ⟨rfl, hgroup⟩ := make_eq_ok hmake
  rw [(Pipeline.pulls_eq n _).1, Pipeline.left, yields_checked hgroup, Pipeline.left,
    meaning_eq_rows hmake hconform]

theorem length_groupNumbers (hfn : request.fn ≠ .count) (key : Option Field) :
    (request.groupNumbers tuples key).length = (request.members tuples key).length := by
  have hvalues : ∀ tuple ∈ request.members tuples key,
      ((request.value tuple).map Int32.toInt).isSome = true := fun tuple htuple => by
    obtain ⟨word, hword⟩ := exists_value hmake hfn (hconform tuple (List.mem_filter.1 htuple).1)
    rw [hword]
    rfl
  rw [groupNumbers, numbers, List.filterMap_map, List.length_filterMap_eq_countP]
  exact List.countP_eq_length.2 hvalues

/-- Each group has its row, which shows what the function means for it. -/
theorem exists_row (hsmall : tuples.length ≤ UInt32.size) (hkey : key ∈ request.keys tuples) :
    ∃ row, request.row tuples key = .ok row ∧ row.schema = spec.output ∧
      request.Shows tuples key row := by
  obtain ⟨rfl, hgroup⟩ := make_eq_ok hmake
  obtain ⟨tuple, htuple, rfl⟩ := mem_keys.1 hkey
  have hrow := row_or_misfit tuples hgroup
    (isSome_key (fault?_of_agrees hmake (hconform tuple htuple)))
  rw [misfit?_of_agrees (hconform tuple htuple)] at hrow
  obtain ⟨row, hrow, hschema, hfields⟩ := hrow
  refine ⟨row, hrow, hschema, ?_⟩
  have hmember : tuple ∈ request.members tuples (request.key tuple) :=
    List.mem_filter.2 ⟨htuple, by simp⟩
  have hlength : ((request.members tuples (request.key tuple)).map request.value).length
      = (request.members tuples (request.key tuple)).length := List.length_map _
  obtain ⟨exact, hmeans, hnearest, hsame⟩ := @Accumulator.result_exact
    ((request.members tuples (request.key tuple)).map request.value) request.fn
    (hlength ▸ List.length_pos_of_mem hmember)
    (hlength ▸ Nat.le_trans (List.length_filter_le _ _) hsmall)
    (fun hfn => hlength ▸ length_groupNumbers hmake hconform hfn _)
  rw [hlength] at hmeans
  exact ⟨_, exact, hfields, hmeans, hnearest, hsame⟩

end Conforming

/-- At no point has a word of the totals overflown. -/
theorem groups_exact (hsmall : tuples.length ≤ UInt32.size) {totals : Accumulator}
    (h : (key, totals) ∈ request.checked.groups tuples) :
    totals.count.toInt = (request.members tuples key).length ∧
      totals.sum.toInt = exactSum (request.groupNumbers tuples key) := by
  rw [groups_checked, table] at h
  obtain ⟨met, -, heq⟩ := List.mem_map.1 h
  cases heq
  have hlength : ((request.members tuples key).map request.value).length ≤ UInt32.size := by
    rw [List.length_map]
    exact Nat.le_trans (List.length_filter_le _ _) hsmall
  have hcount := Accumulator.toInt_count_of hlength
  rw [List.length_map] at hcount
  exact ⟨hcount, Accumulator.toInt_sum_of hlength⟩

/-- Tuples that are reordered within their groups have the same totals. -/
theorem totals_perm {permuted : List Tuple}
    (h : (request.members permuted key).Perm (request.members tuples key)) :
    request.totals permuted key = request.totals tuples key := by
  rw [totals_eq, totals_eq]
  exact Accumulator.of_perm (h.map request.value)

/-- Where each key has its row, there is a list of the rows. -/
theorem exists_rows {shows : Option Field → Tuple → Prop} {keys : List (Option Field)}
    (h : ∀ key ∈ keys, ∃ row, request.row tuples key = .ok row ∧ shows key row) :
    ∃ rows : List Tuple, keys.map (request.row tuples) = rows.map .ok ∧
      List.Forall₂ shows keys rows := by
  induction keys with
  | nil => exact ⟨[], rfl, .nil⟩
  | cons key keys ih =>
      obtain ⟨⟨row, hrow, hshows⟩, hkeys⟩ := List.forall_mem_cons.1 h
      obtain ⟨rows, hrows, hall⟩ := ih hkeys
      exact ⟨row :: rows, by rw [List.map_cons, hrow, hrows, List.map_cons], .cons hshows hall⟩

theorem keys_of_ungrouped (hgroup : request.group = none) (hne : tuples ≠ []) :
    request.keys tuples = [none] := by
  have hkey : ∀ tuple, request.key tuple = none := fun tuple => by rw [key, hgroup]; rfl
  induction tuples using List.reverseRecOn with
  | nil => exact absurd rfl hne
  | append_singleton tuples tuple ih =>
      rw [keys_append, hkey tuple]
      cases tuples with
      | nil => rfl
      | cons first tuples => rw [ih (List.cons_ne_nil _ _), if_pos (List.mem_singleton_self _)]

end AggregateRequest

/-- An accepted aggregate over fewer than 2³² tuples of its input's schema
yields one row for each group, in the order in which the groups are first met,
and no error. A row shows the value of the function over the integers, cut to
32 bits. Whatever part of the tuples was added, the words of 64 bits hold the
exact numbers. Tuples that are reordered within their groups give the same
rows. -/
theorem aggregate_matches_integers {request : AggregateRequest} {spec : Aggregate}
    {tuples : List Tuple} (hmake : request.make = .ok spec)
    (hsmall : tuples.length < UInt32.size)
    (hconform : ∀ tuple ∈ tuples, tuple.schema.agrees request.input = true) :
    ∃ rows : List Tuple,
      (∀ n, (Pipeline.pulls n (.aggregate spec (.source (tuples.map .ok)))).1
        = (List.range n).map ((rows.map .ok : List Item)[·]?)) ∧
      rows.map .ok = (request.keys tuples).map (request.row tuples) ∧
      List.Forall₂ (request.Shows tuples) (request.keys tuples) rows ∧
      (∀ row ∈ rows, row.schema = spec.output ∧ row.fields.map Field.type = spec.output.types) ∧
      (request.keys tuples).Nodup ∧
      (∀ key, key ∈ request.keys tuples ↔ ∃ tuple ∈ tuples, request.key tuple = key) ∧
      ((request.keys tuples).Pairwise fun a b =>
        (tuples.map request.key).idxOf a < (tuples.map request.key).idxOf b) ∧
      (tuples = [] → rows = []) ∧
      (request.group = none → tuples ≠ [] → rows.length = 1) ∧
      (request.fn ≠ .count → ∀ key,
        (request.groupNumbers tuples key).length = (request.members tuples key).length) ∧
      (∀ done, done <+: tuples → ∀ key totals, (key, totals) ∈ spec.groups done →
        totals.count.toInt = (request.members done key).length ∧
          totals.sum.toInt = exactSum (request.groupNumbers done key)) ∧
      ∀ permuted : List Tuple,
        (∀ key, (request.members permuted key).Perm (request.members tuples key)) →
        (∀ key, request.totals permuted key = request.totals tuples key) ∧
          ∀ n, (Pipeline.pulls n (.aggregate spec (.source (permuted.map .ok)))).1
            = (List.range n).map (((request.keys permuted).map (request.row tuples))[·]?) := by
  have hle := Nat.le_of_lt hsmall
  have hrow := fun key hkey =>
    @AggregateRequest.exists_row request spec tuples key hmake hconform hle hkey
  obtain ⟨rows, hrows, hshows⟩ := AggregateRequest.exists_rows fun key hkey =>
    (hrow key hkey).imp fun row h => ⟨h.1, h.2.2⟩
  have hpulls := AggregateRequest.pulls_eq_rows hmake hconform
  have hgroups := AggregateRequest.make_eq_ok hmake
  refine ⟨rows, fun n => hrows ▸ hpulls n, hrows.symm, hshows, fun row hmem => ?_,
    request.keys_nodup tuples, fun key => AggregateRequest.mem_keys,
    request.keys_pairwise tuples, ?_, fun hgroup hne => ?_,
    fun hfn => AggregateRequest.length_groupNumbers hmake hconform hfn,
    fun done hdone key totals htotals => ?_, fun permuted hperm => ⟨?_, fun n => ?_⟩⟩
  · obtain ⟨key, hkey, heq⟩ := List.mem_map.1 (hrows ▸ List.mem_map_of_mem hmem)
    obtain ⟨other, hother, hschema, -⟩ := hrow key hkey
    cases heq.symm.trans hother
    exact ⟨hschema, hschema ▸ row.conforms⟩
  · rintro rfl
    exact List.forall₂_nil_left_iff.1 hshows
  · rw [← hshows.length_eq, AggregateRequest.keys_of_ungrouped hgroup hne, List.length_singleton]
  · rw [hgroups.1] at htotals
    exact AggregateRequest.groups_exact (Nat.le_trans hdone.length_le hle) htotals
  · exact fun key => AggregateRequest.totals_perm (hperm key)
  · have hconform' : ∀ tuple ∈ permuted, tuple.schema.agrees request.input = true := by
      intro tuple htuple
      have hmember : tuple ∈ request.members permuted (request.key tuple) :=
        List.mem_filter.2 ⟨htuple, by simp⟩
      exact hconform tuple (List.mem_filter.1 ((hperm _).mem_iff.1 hmember)).1
    have hsame : request.row permuted = request.row tuples := by
      funext key
      rw [AggregateRequest.row, AggregateRequest.totals_perm (hperm key)]
      rfl
    rw [AggregateRequest.pulls_eq_rows hmake hconform', hsame]

/-- Three sales, as region and amount. -/
def threeSales : List Tuple :=
  [(1, 3), (2, 4), (1, -10)].map fun (region, amount) =>
    ⟨.unnamed [.int, .int], [.int region, .int amount], none, rfl⟩

/-- The averages of the amounts by region. -/
def averageByRegion : AggregateRequest :=
  { input := .unnamed [.int, .int], field := 1, group := some 0, fn := .avg }

/-- What is yielded of some sales. -/
def yieldedFields (spec : Aggregate) (tuples : List Tuple) : List (Option (Option (List Field))) :=
  (Pipeline.pulls 3 (.aggregate spec (.source (tuples.map .ok)))).1.map
    (Option.map fun item => item.toOption.map Tuple.fields)

/-- The average of 3 and -10 is cut to -3, also when the two are swapped. -/
theorem aggregate_matches_integers_average :
    ∃ spec, averageByRegion.make = .ok spec ∧ threeSales.length < UInt32.size ∧
      (∀ tuple ∈ threeSales, tuple.schema.agrees averageByRegion.input = true) ∧
      yieldedFields spec threeSales
        = [some (some [.int 1, .int (-3)]), some (some [.int 2, .int 4]), none] ∧
      yieldedFields spec threeSales.reverse = yieldedFields spec threeSales := by
  have hmake : averageByRegion.make = .ok averageByRegion.checked := rfl
  have hsmall : threeSales.length < UInt32.size := by decide
  have hconform : ∀ tuple ∈ threeSales, tuple.schema.agrees averageByRegion.input = true := by
    decide +kernel
  obtain ⟨rows, hpulls, hrows, -, -, -, -, -, -, -, -, -, hpermuted⟩ :=
    aggregate_matches_integers hmake hsmall hconform
  have hreversed := (hpermuted threeSales.reverse fun key => (List.reverse_perm _).filter _).2
  refine ⟨_, hmake, hsmall, hconform, ?_, ?_⟩
  · rw [yieldedFields, hpulls, hrows]
    decide +kernel
  · rw [yieldedFields, yieldedFields, hreversed, hpulls, hrows]
    rfl

end HeapStore
