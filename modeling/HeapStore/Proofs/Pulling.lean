import HeapStore.Query.Operator

/-!
# Pulling from a stack

Each stack over given items has a list of items still to come (`left`), and a
request takes the front of that list, up to and including the item it stops at
(`draw_left`). So asking for the next item gives the list's head and leaves
its tail, whatever the stack is made of (`pull_eq`, `pulls_eq`).

A request that stops late does what one that stops early does, and then goes
on (`draw_split`). Therefore a request for many items is the same as asking
for one at a time until one is met to stop at, and leaves the stack as the
single calls leave it (`draw_one_by_one`, `draw_eq_pulls`). For a filter that
is the loop over its input (`pull_filter`).
-/

namespace HeapStore

/-! ## Cutting a list -/

section Cut

variable {α : Type} {stop early late : α → Bool}

theorem cut_true (items : List α) :
    (cut (fun _ => true) items).1 = items.head?.toList ∧
      (cut (fun _ => true) items).2.getD [] = items.tail := by
  cases items <;> simp [cut]

/-- Cutting what a filter lets through, at an item, is letting through what
was cut at an item that it lets through. -/
theorem cut_filter (keep stop : α → Bool) (items : List α) :
    (cut (fun a => keep a && stop a) items).1.filter keep = (cut stop (items.filter keep)).1 ∧
      ((cut (fun a => keep a && stop a) items).2.getD []).filter keep =
        (cut stop (items.filter keep)).2.getD [] := by
  induction items with
  | nil => exact ⟨rfl, rfl⟩
  | cons a rest ih =>
      cases hkeep : keep a <;> cases hstop : stop a <;>
        simp [cut, hkeep, hstop, ih]

/-- What is behind the cut is what is left when as many items as it has in
front of it are dropped. -/
theorem drop_cut (stop : α → Bool) (items : List α) :
    items.drop (cut stop items).1.length = (cut stop items).2.getD [] := by
  conv => lhs; arg 2; rw [← cut_append stop items]
  exact List.drop_left

/-- Whether these items end with one to stop at early, but none to stop at
late. -/
def unfinished (early late : α → Bool) (items : List α) : Bool :=
  items.any early && !items.any late

theorem unfinished_filter (keep : α → Bool) (items : List α) :
    unfinished early late (items.filter keep) =
      unfinished (fun a => keep a && early a) (fun a => keep a && late a) items := by
  simp [unfinished, List.any_filter]

/-- Cutting late is cutting early, and if that was not late enough, cutting
the rest. -/
theorem cut_split (h : ∀ a, late a = true → early a = true) (items : List α) :
    cut late items =
      if unfinished early late (cut early items).1 then
        ((cut early items).1 ++ (cut late ((cut early items).2.getD [])).1,
          (cut late ((cut early items).2.getD [])).2)
      else cut early items := by
  induction items with
  | nil => rfl
  | cons a rest ih =>
      cases hearly : early a with
      | true => cases hlate : late a <;> simp [cut, unfinished, hearly, hlate]
      | false =>
          have hlate : late a = false := by
            cases hlate : late a with
            | false => rfl
            | true => rw [h a hlate] at hearly; exact hearly
          have hrest : unfinished early late (a :: (cut early rest).1) =
              unfinished early late (cut early rest).1 := by
            simp [unfinished, hearly, hlate]
          simp only [cut, hearly, hlate, Bool.false_eq_true, if_false, hrest]
          rw [ih]
          split <;> simp

end Cut

/-! ## Stacks over given items -/

/-- A stack of operators over given items. -/
abbrev Pipeline := Operator (List Item)

namespace Pipeline

open Operator

/-- The items up to and including the first that `stop` holds of, or all that
are left, and the stack as it is then. -/
def draw (stop : Item → Bool) (stack : Pipeline) : List Item × Pipeline :=
  Id.run (stack.takeUntil stop)

/-- The next item, if there is one, and the stack as it is then. -/
def pull (stack : Pipeline) : Option Item × Pipeline := Id.run stack.next

/-- What `n` calls for the next item give, one after the other, and the stack
as it is then. -/
def pulls : Nat → Pipeline → List (Option Item) × Pipeline
  | 0, stack => ([], stack)
  | n + 1, stack => (stack.pull.1 :: (pulls n stack.pull.2).1, (pulls n stack.pull.2).2)

/-- What an aggregate yields: its rows, or the error it ends with. -/
def yields : Except Error (List Tuple) → List Item
  | .error cause => [.error cause]
  | .ok rows => rows.map .ok

/-- The items still to come. -/
def left : Pipeline → List Item
  | .source items => items
  | .filter predicate input => (left input).filter (passes predicate)
  | .aggregate spec input => yields (rowsOf spec (cut (unusable spec) (left input)).1)
  | .grouped _ rows taken => (rows.drop taken).map .ok

variable {stop early late : Item → Bool} {predicate : Predicate} {spec : Aggregate}
  {rows : List Tuple} {taken : Nat} {items : List Item} {stack input : Pipeline}

theorem draw_source :
    draw stop (.source items) =
      ((cut stop items).1, .source ((cut stop items).2.getD [])) := rfl

theorem draw_filter :
    draw stop (.filter predicate input) =
      ((draw (fun item => passes predicate item && stop item) input).1.filter (passes predicate),
        .filter predicate (draw (fun item => passes predicate item && stop item) input).2) := rfl

theorem draw_grouped :
    draw stop (.grouped spec rows taken) =
      ((cut stop (left (.grouped spec rows taken))).1,
        .grouped spec rows (taken + (cut stop (left (.grouped spec rows taken))).1.length)) := rfl

theorem draw_aggregate :
    draw stop (.aggregate spec input) =
      match rowsOf spec (draw (unusable spec) input).1 with
      | .error cause => ([.error cause], .grouped spec [] 0)
      | .ok rows => draw stop (.grouped spec rows 0) := by
  change (match rowsOf spec (draw (unusable spec) input).1 with
    | .error cause => pure ([.error cause], .grouped spec [] 0)
    | .ok rows => pure (takeRows stop spec rows 0) : Id (List Item × Pipeline)) = _
  cases rowsOf spec (draw (unusable spec) input).1 <;> rfl

/-- Once the rows in front of the cut are yielded, those behind it are left. -/
theorem left_grouped_add (stop : Item → Bool) :
    left (.grouped spec rows (taken + (cut stop (left (.grouped spec rows taken))).1.length)) =
      (cut stop (left (.grouped spec rows taken))).2.getD [] := by
  conv => lhs; rw [left, ← List.drop_drop, List.map_drop]
  exact drop_cut stop _

/-! ## What a request gives -/

/-- A request gets the items still to come, up to and including the first it
stops at, and leaves the others. -/
theorem draw_left (stop : Item → Bool) (stack : Pipeline) :
    (draw stop stack).1 = (cut stop stack.left).1 ∧
      (draw stop stack).2.left = (cut stop stack.left).2.getD [] := by
  induction stack generalizing stop with
  | source items => exact ⟨rfl, rfl⟩
  | filter predicate input ih =>
      have hcut := cut_filter (passes predicate) stop (left input)
      simp only [draw_filter, left, (ih _).1, (ih _).2]
      exact hcut
  | aggregate spec input ih =>
      rw [draw_aggregate, (ih _).1, left]
      cases rowsOf spec (cut (unusable spec) (left input)).1 with
      | error cause => cases hstop : stop (.error cause) <;> simp [cut, left, yields, hstop]
      | ok rows => exact ⟨rfl, left_grouped_add stop⟩
  | grouped spec rows taken => exact ⟨rfl, left_grouped_add stop⟩

/-- The next item is the first of those still to come. -/
theorem pull_eq (stack : Pipeline) :
    stack.pull.1 = stack.left.head? ∧ stack.pull.2.left = stack.left.tail := by
  obtain ⟨hgot, hleft⟩ := draw_left (fun _ => true) stack
  refine ⟨?_, hleft.trans (cut_true _).2⟩
  calc stack.pull.1 = (draw (fun _ => true) stack).1.head? := rfl
    _ = stack.left.head?.toList.head? := by rw [hgot, (cut_true _).1]
    _ = stack.left.head? := by cases stack.left.head? <;> rfl

/-- The `n`-th call gets the `n`-th of the items still to come, and nothing
once there are no more. -/
theorem pulls_eq (n : Nat) (stack : Pipeline) :
    (pulls n stack).1 = (List.range n).map (stack.left[·]?) ∧
      (pulls n stack).2.left = stack.left.drop n := by
  induction n generalizing stack with
  | zero => exact ⟨rfl, rfl⟩
  | succ n ih =>
      obtain ⟨hitem, htail⟩ := pull_eq stack
      obtain ⟨hitems, hleft⟩ := ih stack.pull.2
      constructor
      · rw [pulls, hitem, hitems, htail, List.range_succ_eq_map]
        simp [List.head?_eq_getElem?, Function.comp_def]
      · rw [pulls, hleft, htail, List.drop_tail]

/-! ## One item at a time -/

theorem draw_split_grouped (h : ∀ item, late item = true → early item = true) :
    draw late (.grouped spec rows taken) =
      if unfinished early late (draw early (.grouped spec rows taken)).1 then
        ((draw early (.grouped spec rows taken)).1 ++
            (draw late (draw early (.grouped spec rows taken)).2).1,
          (draw late (draw early (.grouped spec rows taken)).2).2)
      else draw early (.grouped spec rows taken) := by
  simp only [draw_grouped, left_grouped_add]
  rw [cut_split h (left (.grouped spec rows taken))]
  cases unfinished early late (cut early (left (.grouped spec rows taken))).1 <;>
    simp [Nat.add_assoc]

/-- Asking for more is asking for less, and if that was not enough, asking
again. -/
theorem draw_split (h : ∀ item, late item = true → early item = true) (stack : Pipeline) :
    draw late stack =
      if unfinished early late (draw early stack).1 then
        ((draw early stack).1 ++ (draw late (draw early stack).2).1,
          (draw late (draw early stack).2).2)
      else draw early stack := by
  induction stack generalizing early late with
  | source items =>
      have hcut := cut_split h items
      rw [draw_source, hcut, draw_source]
      cases unfinished early late (cut early items).1 <;> rfl
  | filter predicate input ih =>
      have hboth : ∀ item, (passes predicate item && late item) = true →
          (passes predicate item && early item) = true := by grind
      rw [draw_filter, ih hboth, draw_filter, unfinished_filter]
      split
      · simp [draw_filter]
      · rfl
  | aggregate spec input ih =>
      simp only [draw_aggregate]
      cases rowsOf spec (draw (unusable spec) input).1 with
      | error cause =>
          -- the error is all there is, so nothing is added by asking again
          simp [draw_grouped, left, cut]
      | ok rows => exact draw_split_grouped h
  | grouped spec rows taken => exact draw_split_grouped h

/-- A request is a loop over single items. -/
theorem draw_one_by_one (stop : Item → Bool) (stack : Pipeline) :
    draw stop stack =
      match stack.pull with
      | (none, after) => ([], after)
      | (some item, after) =>
        if stop item then ([item], after)
        else (item :: (draw stop after).1, (draw stop after).2) := by
  have hall : ∀ item, stop item = true → (fun _ : Item => true) item = true := fun _ _ => rfl
  have hone : (draw (fun _ => true) stack).1 = stack.left.head?.toList := by
    rw [(draw_left _ stack).1, (cut_true _).1]
  have hpull : stack.pull = (stack.left.head?, (draw (fun _ => true) stack).2) :=
    Prod.ext (pull_eq stack).1 rfl
  have hdraw : draw (fun _ => true) stack =
      (stack.left.head?.toList, (draw (fun _ => true) stack).2) := Prod.ext hone rfl
  rw [draw_split hall stack, hpull, hdraw]
  cases stack.left.head? with
  | none => simp [unfinished]
  | some item => cases hstop : stop item <;> simp [unfinished, hstop]

theorem pull_filter_eq (predicate : Predicate) (input : Pipeline) :
    pull (.filter predicate input) =
      (((draw (passes predicate) input).1.filter (passes predicate)).head?,
        .filter predicate (draw (passes predicate) input).2) := by
  change ((draw (fun _ => true) (.filter predicate input)).1.head?,
    (draw (fun _ => true) (.filter predicate input)).2) = _
  simp only [draw_filter, Bool.and_true]

/-- A filter asks its input for items until one passes, or there are none. -/
theorem pull_filter (predicate : Predicate) (input : Pipeline) :
    pull (.filter predicate input) =
      match input.pull with
      | (none, after) => (none, .filter predicate after)
      | (some item, after) =>
        if passes predicate item then (some item, .filter predicate after)
        else pull (.filter predicate after) := by
  rw [pull_filter_eq, draw_one_by_one]
  rcases input.pull with ⟨_ | item, after⟩
  · rfl
  · cases hpass : passes predicate item <;> simp [hpass, pull_filter_eq]

/-- After a request the stack is as single calls leave it that pass over the
items in front of the one to stop at, and get that one. -/
theorem draw_eq_pulls (stop : Item → Bool) (stack : Pipeline) :
    ∃ skipped last,
      (∀ item ∈ skipped, stop item = false) ∧ (∀ item ∈ last, stop item = true) ∧
      (draw stop stack).1 = skipped ++ last.toList ∧
      pulls (skipped.length + 1) stack = (skipped.map some ++ [last], (draw stop stack).2) := by
  induction hleft : stack.left generalizing stack with
  | nil =>
      obtain ⟨hgot, -⟩ := pull_eq stack
      rcases hpull : stack.pull with ⟨got, after⟩
      rw [hpull, hleft] at hgot
      obtain rfl : got = none := hgot
      have hdraw : draw stop stack = ([], after) := by rw [draw_one_by_one, hpull]
      exact ⟨[], none, by simp, by simp, by rw [hdraw]; rfl, by simp [pulls, hdraw, hpull]⟩
  | cons item rest ih =>
      obtain ⟨hgot, hafter⟩ := pull_eq stack
      rcases hpull : stack.pull with ⟨got, after⟩
      rw [hpull, hleft] at hgot hafter
      obtain rfl : got = some item := hgot
      have hdraw := draw_one_by_one stop stack
      rw [hpull] at hdraw
      cases hstop : stop item with
      | true =>
          simp only [hstop, if_true] at hdraw
          exact ⟨[], some item, by simp, by simpa using hstop, by rw [hdraw]; rfl,
            by simp [pulls, hdraw, hpull]⟩
      | false =>
          simp only [hstop, Bool.false_eq_true, if_false] at hdraw
          obtain ⟨skipped, last, hskipped, hlast, hitems, hcalls⟩ := ih after hafter
          refine ⟨item :: skipped, last, ?_, hlast, by rw [hdraw, hitems]; rfl, ?_⟩
          · simpa [hstop] using hskipped
          · rw [List.length_cons, pulls, hpull, hcalls, hdraw]
            rfl

/-- A filter takes from its input the items up to the one it yields, and no
others. -/
theorem pull_filter_takes (predicate : Predicate) (input : Pipeline) :
    ∃ skipped : List Item,
      (∀ item ∈ skipped, passes predicate item = false) ∧
      (∀ item ∈ (pull (.filter predicate input)).1, passes predicate item = true) ∧
      pulls (skipped.length + 1) input =
        (skipped.map some ++ [(pull (.filter predicate input)).1],
          (pull (.filter predicate input)).2.dropFilter) := by
  obtain ⟨skipped, last, hskipped, hlast, hdrawn, hcalls⟩ :=
    draw_eq_pulls (passes predicate) input
  have hnone : skipped.filter (passes predicate) = [] := by simpa using hskipped
  have hyield : (pull (.filter predicate input)).1 = last := by
    rw [pull_filter_eq, hdrawn, List.filter_append, hnone, List.nil_append]
    cases last with
    | none => rfl
    | some item => simp [hlast item rfl]
  refine ⟨skipped, hskipped, hyield ▸ hlast, ?_⟩
  rw [hcalls, hyield, pull_filter_eq]
  rfl

end Pipeline

end HeapStore
