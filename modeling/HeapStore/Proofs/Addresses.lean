import HeapStore.Proofs.SlotMap
import Mathlib.Data.List.Nodup

/-!
# The addresses of the tuples on a page

The address of a tuple has 16 bits for the number of a slot. On a page of up to
2¹⁶ slots they are enough (`Page.Addressable`): no two tuples that are listed
have one address, each is found under its own, and a delete with it takes this
tuple away and no other.

Nothing keeps a page from having more slots, as only its size decides. A used
slot is then listed as what the slot with the same number modulo 2¹⁶ holds
(`Page.tuples_eq_mod`), and two tuples may be known by one address. So the
pages of a size are addressable for all calls exactly when they have up to 2¹⁶
slots (`addressable_iff`).
-/

namespace HeapStore

/-- Any schema has a tuple. -/
theorem Schema.exists_tuple (schema : Schema) : ∃ tuple : Tuple, tuple.schema = schema := by
  obtain ⟨tuple, htuple⟩ : ∃ tuple,
      Tuple.decode? schema (Bytes.zeros schema.width) = some tuple := by
    rw [← Option.ne_none_iff_exists', Ne, Tuple.decode?_eq_none_iff, Bytes.length_zeros]
    omega
  rw [Tuple.decode?] at htuple
  split at htuple
  · cases htuple
  · exact ⟨tuple, by cases htuple; rfl⟩

namespace Page

/-! ## The addresses that are listed -/

/-- What a page lists of its used slots, at any size: the tuple in the slot
whose number the address has. -/
theorem tuples_eq_mod (page : Page) :
    page.tuples = page.usedSlots.filterMap fun slot => page.row? (slot % UInt16.size) := by
  rw [tuples_eq]
  refine List.filterMap_congr fun slot _ => ?_
  rw [← slot?, slot?_eq_row?]
  rfl

theorem mem_tuples_iff {page : Page} (hslots : page.slotCount ≤ UInt16.size) {tuple : Tuple} :
    tuple ∈ page.tuples ↔ ∃ slot < page.slotCount, page.row? slot = some tuple := by
  simp [tuples_slotMap hslots, SlotMap.tuples, slotMap]

theorem recordId_inj {page : Page} {s t : Nat} (hs : s < UInt16.size) (ht : t < UInt16.size) :
    page.recordId s = page.recordId t ↔ s = t := by
  refine ⟨fun h => ?_, fun h => by rw [h]⟩
  have hslot : s.toUInt16 = t.toUInt16 := congrArg RecordId.slot h
  have hnat := congrArg UInt16.toNat hslot
  rwa [UInt16.toNat_ofNat_of_lt' hs, UInt16.toNat_ofNat_of_lt' ht] at hnat

theorem record_tuples {page : Page} (hslots : page.slotCount ≤ UInt16.size) :
    page.tuples.map Tuple.record = page.usedSlots.map fun slot => some (page.recordId slot) := by
  rw [tuples_slotMap hslots, SlotMap.tuples, List.map_filterMap, usedSlots_eq,
    ← List.filterMap_eq_map, List.filterMap_filter]
  refine List.filterMap_congr fun slot _ => ?_
  have hsome := page.isSome_row? slot
  cases hrow : page.row? slot with
  | none =>
      rw [hrow] at hsome
      simp [slotMap, hrow, ← hsome]
  | some tuple =>
      rw [hrow] at hsome
      simp [slotMap, hrow, ← hsome, record_of_row? hrow]

theorem nodup_record_tuples {page : Page} (hslots : page.slotCount ≤ UInt16.size) :
    (page.tuples.map Tuple.record).Nodup := by
  rw [record_tuples hslots, usedSlots_eq]
  refine List.Nodup.map_on ?_ (List.nodup_range.filter _)
  intro s hs t ht heq
  have hs := List.mem_range.1 (List.mem_of_mem_filter hs)
  have ht := List.mem_range.1 (List.mem_of_mem_filter ht)
  exact (recordId_inj (by omega) (by omega)).1 (Option.some.inj heq)

/-- The laws of addresses: each tuple that is listed has one of its own. -/
structure Addressable (page : Page) : Prop where
  /-- There is a tuple in the list for each used slot. -/
  one_each : page.tuples.length = page.usedSlots.length
  distinct : (page.tuples.map Tuple.record).Nodup
  found : ∀ tuple ∈ page.tuples, ∃ slot, tuple.record = some ⟨page.id, slot⟩ ∧
    page.tuple slot = .ok tuple
  /-- A tuple that is put in is listed under the address that is answered. -/
  insert : ∀ tuple record changed, page.insert tuple = .ok (record, changed) →
    ∃ stored, Tuple.decode? page.schema tuple.encode = some stored ∧
      changed.tuples.Perm (stored.withRecord (some record) :: page.tuples)
  delete : ∀ tuple ∈ page.tuples, ∃ changed, page.delete tuple.record = .ok changed ∧
    changed.tuples = page.tuples.filter fun other => other.record ≠ tuple.record

end Page

/-! ## Changing a list at one place -/

/-- A value is added to those of a list of keys when a key gets one. -/
theorem perm_filterMap_set {α : Type} {keys : List Nat} {key : Nat} {f g : Nat → Option α}
    {value : α} (hnodup : keys.Nodup) (hmem : key ∈ keys) (hnone : f key = none)
    (hg : ∀ k, g k = if k = key then some value else f k) :
    (keys.filterMap g).Perm (value :: keys.filterMap f) := by
  have hrest : (keys.erase key).filterMap g = (keys.erase key).filterMap f := by
    refine List.filterMap_congr fun k hk => ?_
    rw [hg, if_neg fun heq => hnodup.not_mem_erase (heq ▸ hk)]
  have hsplit := List.perm_cons_erase hmem
  have hleft : (keys.filterMap g).Perm (value :: (keys.erase key).filterMap f) := by
    have := hsplit.filterMap g
    rwa [List.filterMap_cons_some (by rw [hg, if_pos rfl]), hrest] at this
  have hright : (keys.filterMap f).Perm ((keys.erase key).filterMap f) := by
    have := hsplit.filterMap f
    rwa [List.filterMap_cons_none hnone] at this
  exact hleft.trans (hright.symm.cons value)

namespace Page

theorem addressable {page : Page} (hslots : page.slotCount ≤ UInt16.size) : page.Addressable where
  one_each := by
    simpa using congrArg List.length (record_tuples hslots)
  distinct := nodup_record_tuples hslots
  found tuple hmem := by
    obtain ⟨slot, hlt, hrow⟩ := (mem_tuples_iff hslots).1 hmem
    have hslot : slot.toUInt16.toNat = slot := UInt16.toNat_ofNat_of_lt' (by omega)
    refine ⟨slot.toUInt16, record_of_row? hrow, ?_⟩
    rw [tuple_eq, hslot, if_neg (by omega), hrow]
  insert tuple record changed hinsert := by
    obtain ⟨htypes, -⟩ := insert_eq_ok hinsert
    obtain ⟨stored, hstored⟩ := Tuple.exists_decode?_encode (Schema.agrees_iff.2 htypes)
    obtain ⟨free, hfree, rfl, hrows⟩ := row?_insert hinsert
    obtain ⟨hlt, hunused, -⟩ := firstFree?_eq_some_iff.1 hfree
    have hcount : changed.slotCount = page.slotCount :=
      congrArg SlotMap.size (Becomes.insert hinsert).slotMap_eq
    have hnone : page.row? free = none := by
      rw [← Option.isNone_iff_eq_none, isNone_row?, hunused]
      rfl
    refine ⟨stored, hstored, ?_⟩
    rw [hstored] at hrows
    rw [tuples_slotMap hslots, tuples_slotMap (by omega)]
    simp only [SlotMap.tuples, slotMap, hcount]
    exact perm_filterMap_set List.nodup_range (List.mem_range.2 hlt) hnone hrows
  delete tuple hmem := by
    obtain ⟨slot, hlt, hrow⟩ := (mem_tuples_iff hslots).1 hmem
    have hslot : slot.toUInt16.toNat = slot := UInt16.toNat_ofNat_of_lt' (by omega)
    have hrecord := record_of_row? hrow
    have hused : page.isUsed (page.recordId slot).slot.toNat = true := by
      rw [show (page.recordId slot).slot.toNat = slot from hslot, ← isSome_row?, hrow]
      rfl
    obtain ⟨changed, hdelete⟩ := delete_of_isUsed rfl hused
    have hcount : changed.slotCount = page.slotCount :=
      congrArg SlotMap.size (Becomes.delete hdelete).slotMap_eq
    refine ⟨changed, by rw [hrecord, hdelete], ?_⟩
    rw [tuples_slotMap hslots, tuples_slotMap (by omega), hrecord]
    simp only [SlotMap.tuples, slotMap, hcount, List.filter_filterMap]
    refine List.filterMap_congr fun t ht => ?_
    have ht := List.mem_range.1 ht
    rw [row?_delete hdelete, show (page.recordId slot).slot.toNat = slot from hslot]
    cases hrow' : page.row? t with
    | none => simp
    | some other =>
        have hother : other.record = some (page.recordId slot) ↔ t = slot := by
          rw [record_of_row? hrow', Option.some.injEq, recordId_inj (by omega) (by omega)]
        by_cases heq : t = slot
        · simp [heq, hother.2 heq, Option.filter]
        · simp [heq, hother, Option.filter]

/-! ## Pages with more slots than addresses -/

theorem isUsed_insert {page changed : Page} {tuple : Tuple} {record : RecordId} {free : Nat}
    (h : page.insert tuple = .ok (record, changed)) (hfree : page.firstFree? = some free)
    (slot : Nat) : changed.isUsed slot = (decide (slot = free) || page.isUsed slot) := by
  obtain ⟨htypes, -⟩ := insert_eq_ok h
  obtain ⟨stored, hstored⟩ := Tuple.exists_decode?_encode (Schema.agrees_iff.2 htypes)
  obtain ⟨free', hfree', -, hrows⟩ := row?_insert h
  obtain rfl : free = free' := Option.some.inj (hfree.symm.trans hfree')
  rw [← isSome_row?, ← isSome_row?, hrows]
  by_cases hslot : slot = free
  · simp [hslot, hstored]
  · simp [hslot]

/-- Inserts into a page whose first slots are used fill the next ones. -/
theorem isUsed_runAll_insert {tuple : Tuple} (count : Nat) {page : Page} {filled : Nat}
    (hagrees : tuple.schema.agrees page.schema = true)
    (hused : ∀ slot, page.isUsed slot = decide (slot < filled))
    (hroom : filled + count ≤ page.slotCount) (slot : Nat) :
    (PageCall.runAll (List.replicate count (.insert tuple)) page).2.isUsed slot
      = decide (slot < filled + count) := by
  induction count generalizing page filled with
  | zero => exact hused slot
  | succ count ih =>
      have hfree : page.firstFree? = some filled := by
        rw [firstFree?_eq_some_iff]
        simp only [hused]
        refine ⟨by omega, by simp, fun t ht => by simpa using ht⟩
      obtain ⟨changed, hinsert⟩ := insert_of_firstFree? hagrees hfree
      have hrun : (PageCall.run (.insert tuple) page).2 = changed := by
        simp only [PageCall.run, Slotted.insert, hinsert]
      have hmap := (Becomes.insert hinsert).slotMap_eq
      have hcount : changed.slotCount = page.slotCount := congrArg SlotMap.size hmap
      have hschema : changed.schema = page.schema := congrArg SlotMap.schema hmap
      have hnext : ∀ slot, changed.isUsed slot = decide (slot < filled + 1) := by
        intro slot
        rw [isUsed_insert hinsert hfree, hused, ← Bool.decide_or]
        exact decide_eq_decide.2 (by omega)
      rw [List.replicate_succ, PageCall.runAll]
      simp only [hrun]
      rw [ih (by rw [hschema, hagrees]) hnext (by omega)]
      exact decide_eq_decide.2 (by omega)

/-- A page of zeroes that gets more tuples than there are addresses lists two of
them under one address. -/
theorem exists_not_nodup {id : PageId} {schema : Schema} {size : Nat}
    (hslots : UInt16.size < slotsPerPage size schema) :
    ∃ calls, ¬((PageCall.runAll calls
      (ofBytes id schema (Bytes.zeros size))).2.tuples.map Tuple.record).Nodup := by
  obtain ⟨tuple, rfl⟩ := schema.exists_tuple
  have hcount : (ofBytes id tuple.schema (Bytes.zeros size)).slotCount
      = slotsPerPage size tuple.schema := by
    simp [slotCount, layout, Layout.make, Page.size, ofBytes]
  have hempty : ∀ slot, (ofBytes id tuple.schema (Bytes.zeros size)).isUsed slot
      = decide (slot < 0) := by
    intro slot
    have hbit : slotBit (Bytes.zeros size) slot = false := by
      rw [slotBit_eq, Bytes.zeros, List.getElem?_replicate]
      split <;> simp
    simp [isUsed, ofBytes, hbit]
  refine ⟨List.replicate (UInt16.size + 1) (.insert tuple), fun hnodup => ?_⟩
  generalize hpage : (PageCall.runAll (List.replicate (UInt16.size + 1) (.insert tuple))
    (ofBytes id tuple.schema (Bytes.zeros size))).2 = page at hnodup
  have hused : ∀ slot, page.isUsed slot = decide (slot < UInt16.size + 1) := by
    intro slot
    rw [← hpage, isUsed_runAll_insert _ (Schema.agrees_iff.2 rfl) hempty (by omega), Nat.zero_add]
  -- The first slot is listed, and once more for the slot whose address is the same.
  obtain ⟨first, hfirst⟩ : ∃ first, page.row? 0 = some first := by
    rw [← Option.isSome_iff_exists, isSome_row?, hused]
    rfl
  have hslots' : page.usedSlots = List.range (UInt16.size + 1) := by
    have hlast : page.slotCount = slotsPerPage size tuple.schema := by
      rw [← hpage, slotCount_runAll, hcount]
    obtain ⟨spare, hspare⟩ : ∃ spare, page.slotCount = UInt16.size + 1 + spare :=
      ⟨page.slotCount - (UInt16.size + 1), by omega⟩
    rw [usedSlots_eq, hspare, List.range_add, List.filter_append, List.filter_eq_self.2,
      List.filter_eq_nil_iff.2, List.append_nil]
    · intro slot hslot
      obtain ⟨i, -, rfl⟩ := List.mem_map.1 hslot
      rw [hused, decide_eq_true_eq]
      omega
    · intro slot hslot
      simpa [hused] using List.mem_range.1 hslot
  have hhead : first ∈ (List.range UInt16.size).filterMap
      fun slot => page.row? (slot % UInt16.size) :=
    List.mem_filterMap.2 ⟨0, by simp [UInt16.size], by simpa using hfirst⟩
  rw [tuples_eq_mod, hslots', List.range_succ, List.filterMap_append, List.map_append,
    List.nodup_append] at hnodup
  refine hnodup.2.2 first.record (List.mem_map_of_mem hhead) first.record ?_ rfl
  simp [hfirst]

end Page

/-- The addresses on the pages of a size are in order, whatever is put in and
taken out, if and only if the size gives up to 2¹⁶ slots. With more slots two
tuples can come to have one address, also on a page that starts out empty, and
what is listed for a used slot is the tuple in the slot that has its number
modulo 2¹⁶. -/
theorem addressable_iff (id : PageId) (schema : Schema) (size : Nat) :
    ((∀ data : Bytes, data.length = size → ∀ calls,
        (PageCall.runAll calls (Page.ofBytes id schema data)).2.Addressable)
      ↔ Page.slotsPerPage size schema ≤ UInt16.size) ∧
    (UInt16.size < Page.slotsPerPage size schema → ∃ calls,
      ¬((PageCall.runAll calls
        (Page.ofBytes id schema (Bytes.zeros size))).2.tuples.map Tuple.record).Nodup) ∧
    ∀ page : Page, page.tuples
      = page.usedSlots.filterMap fun slot => page.row? (slot % UInt16.size) := by
  refine ⟨⟨fun hall => ?_, fun hslots data hlength calls => ?_⟩, Page.exists_not_nodup,
    Page.tuples_eq_mod⟩
  · by_contra hmore
    obtain ⟨calls, hcalls⟩ := @Page.exists_not_nodup id _ _ (Nat.lt_of_not_le hmore)
    exact hcalls (hall _ (Bytes.length_zeros size) calls).distinct
  · refine Page.addressable ?_
    rw [Page.slotCount_runAll]
    subst hlength
    exact hslots

/-- The last slot of a page may hold a tuple that is not listed: here one
without fields, which the bit alone stores. -/
theorem used_slot_may_be_unlisted :
    let page := Page.ofBytes ⟨⟨1⟩, 0⟩ ⟨[]⟩ (Bytes.zeros 8192 ++ [1])
    page.usedSlots = [65536] ∧ page.tuples = [] ∧ ¬page.Addressable := by
  intro page
  have hcount : page.slotCount = 65544 := by
    simp [page, Page.slotCount, Page.layout, Page.size, Page.ofBytes, Page.Layout.make,
      Page.slotsPerPage, Schema.width, Schema.types, FieldType.totalWidth]
  have hused : ∀ slot < 65544, page.isUsed slot = (slot == 65536) := by
    intro slot hslot
    have hbyte : page.data[slot / 8]? = some (if slot / 8 = 8192 then 1 else 0) := by
      simp only [page, Page.ofBytes, Bytes.zeros, List.getElem?_append, List.length_replicate,
        List.getElem?_replicate]
      by_cases hlast : slot / 8 = 8192
      · simp [hlast]
      · simp [hlast, show slot / 8 < 8192 by omega]
    rw [Page.isUsed, Page.slotBit_eq, hbyte, hcount]
    by_cases hlast : slot / 8 = 8192
    · obtain ⟨i, hi, rfl⟩ : ∃ i < 8, slot = 65536 + i := ⟨slot - 65536, by omega, by omega⟩
      have hone : ∀ i < 8, (1 : UInt8).toNat.testBit i = decide (i = 0) := by decide
      have hmod : (65536 + i) % 8 = i := by omega
      rw [if_pos hlast, Option.getD_some, hmod, hone i hi, decide_eq_true hslot,
        Bool.true_and]
      exact decide_eq_decide.2 (by omega)
    · have hne : slot ≠ 65536 := by omega
      simp [hlast, hne]
  have hslots : page.usedSlots = [65536] := by
    rw [Page.usedSlots_eq, hcount,
      List.filter_congr fun slot hslot => hused slot (List.mem_range.1 hslot), List.filter_beq,
      List.count_eq_one_of_mem List.nodup_range (by simp)]
    rfl
  have htuples : page.tuples = [] := by
    have hfirst : page.row? 0 = none := by
      rw [← Option.isNone_iff_eq_none, Page.isNone_row?, hused 0 (by decide)]
      rfl
    simp [Page.tuples_eq_mod, hslots, hfirst]
  refine ⟨hslots, htuples, fun haddressable => ?_⟩
  have hcounts := haddressable.one_each
  rw [hslots, htuples] at hcounts
  cases hcounts

end HeapStore
