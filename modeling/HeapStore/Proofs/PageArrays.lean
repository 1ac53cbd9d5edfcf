import HeapStore.Disk

/-!
# A file as an array of pages

Through a handle a file is an array of pages. `PageAccess.Leaves` says what calls
make of it: a page is what was last written to it, or what the file held there
when it was opened, with zeroes where there was nothing; the file is as long as
the writes needed; and the handle counts the calls that succeed. One read and one
write leave that (`PageAccess.leaves_read`, `PageAccess.leaves_write`), and so do
any calls one after the other (`PageAccess.leaves_runAll`). Only a page of which
the file holds every byte can be read.

Pages are compared by their bytes (`Bytes.byteAt`), which are zero behind the
end: so a gap that comes to lie within the file changes no page.

The headline is `file_is_page_array`. A position has 63 bits, and who reads
farther behind is told so: `read_past_end_may_be_no_position`.
-/

namespace HeapStore

namespace Bytes

/-! ## Bytes by position -/

/-- The byte at a position. Behind the end all bytes are zero. -/
def byteAt (data : Bytes) (i : Nat) : UInt8 := data[i]?.getD 0

/-- The bytes `offset, …, offset + count - 1`, also behind the end. -/
def window (data : Bytes) (offset count : Nat) : Bytes :=
  (List.range count).map fun i => data.byteAt (offset + i)

variable {data patch : Bytes} {offset start count i : Nat}

theorem slice_eq_window (h : offset + count ≤ data.length) :
    slice data offset count = window data offset count := by
  apply List.ext_getElem?
  intro i
  rw [slice, window, List.getElem?_take, List.getElem?_drop, List.getElem?_map]
  split
  · rename_i hi
    rw [List.getElem?_range hi, Option.map_some, byteAt, List.getElem?_eq_getElem (by omega),
      Option.getD_some]
  · rename_i hi
    rw [List.getElem?_eq_none (by simpa using hi), Option.map_none]

/-- In front of a patch nothing changes: a gap that it leaves is made of zeroes. -/
theorem byteAt_writeAt_of_lt (h : i < offset) : byteAt (writeAt data offset patch) i
    = byteAt data i := by
  rcases Nat.lt_or_ge i data.length with hin | hgap
  · rw [byteAt, getElem?_writeAt_of_lt _ _ _ h hin, byteAt]
  · have hzero : (writeAt data offset patch)[i]? = some 0 := by
      rw [writeAt, List.append_assoc, List.getElem?_append_left (by simp; omega),
        List.getElem?_append_right (by simp; omega), zeros, List.getElem?_replicate,
        if_pos (by simp; omega)]
    rw [byteAt, hzero, byteAt, List.getElem?_eq_none hgap, Option.getD_some, Option.getD_none]

theorem byteAt_writeAt_of_le (h : offset + patch.length ≤ i) :
    byteAt (writeAt data offset patch) i = byteAt data i := by
  rw [byteAt, getElem?_writeAt_of_le _ _ _ h, byteAt]

theorem window_writeAt : window (writeAt data offset patch) offset patch.length = patch := by
  rw [← slice_eq_window (by rw [length_writeAt]; omega), slice_writeAt]

theorem window_writeAt_of_disjoint
    (h : start + count ≤ offset ∨ offset + patch.length ≤ start) :
    window (writeAt data offset patch) start count = window data start count := by
  refine List.map_congr_left fun i hi => ?_
  rw [List.mem_range] at hi
  rcases h with hfront | hbehind
  · exact byteAt_writeAt_of_lt (by omega)
  · exact byteAt_writeAt_of_le (by omega)

end Bytes

namespace Disk

/-! ## Single calls -/

variable {disk disk' : Disk} {handle : FileHandle} {page : UInt32} {data : Bytes}

theorem readPage_eq_ok
    (h : (page.toNat + 1) * handle.pageSize ≤ (disk.content handle.name).length) :
    disk.readPage handle page handle.pageSize
      = .ok (Bytes.window (disk.content handle.name) (page.toNat * handle.pageSize)
          handle.pageSize, disk.countRead handle) := by
  rw [Nat.succ_mul] at h
  have hlength : (Bytes.window (disk.content handle.name) (page.toNat * handle.pageSize)
      handle.pageSize).length = handle.pageSize := by
    rw [Bytes.window, List.length_map, List.length_range]
  rw [readPage, if_neg (Decidable.not_not.2 rfl)]
  simp only [slice_sparse, pageOffset, Bytes.slice_eq_window h, hlength, Nat.lt_irrefl, if_false]

theorem eq_countRead_of_readPage {size : Nat}
    (h : disk.readPage handle page size = .ok (data, disk')) : disk' = disk.countRead handle := by
  unfold readPage at h
  split at h
  · cases h
  · dsimp only at h
    split at h
    · cases h
    · cases h
      rfl

/-- Why a page that the file does not hold cannot be read. A page that no file
can hold has no position. -/
theorem readPage_eq_error (hsize : 0 < handle.pageSize)
    (hmemory : handle.pageSize ≤ Bytes.maxLength)
    (h : (disk.content handle.name).length < (page.toNat + 1) * handle.pageSize) :
    disk.readPage handle page handle.pageSize = .error (
      if page.toNat * handle.pageSize ≤ Bytes.maxLength then .error (.io .unexpectedEof)
      else if page.toNat * handle.pageSize < UInt64.size then .error (.io .invalidOffset)
      else .violation (.tooLarge (page.toNat * handle.pageSize))) := by
  rw [Nat.succ_mul] at h
  have hcut : ((disk.sparse handle.name).slice (pageOffset handle page) handle.pageSize).length
      < handle.pageSize := by
    rw [slice_sparse, Bytes.length_slice, pageOffset]
    omega
  have hpositions : Bytes.maxLength < UInt64.size := by decide
  rw [readPage, if_neg (Decidable.not_not.2 rfl)]
  dsimp only
  rw [if_pos hcut, missing, pageOffset, if_neg (Nat.not_lt.2 hmemory)]
  congr 1
  split
  · rw [if_neg (by omega), if_neg (by omega)]
  · split
    · rw [if_neg (by omega), if_pos (by omega)]
    · rw [if_pos (by omega)]

theorem length_writePage (h : disk.writePage handle page data = .ok disk') :
    (disk'.content handle.name).length
      = max (disk.content handle.name).length ((page.toNat + 1) * handle.pageSize) := by
  rw [content_writePage h, Bytes.length_writeAt, length_of_writePage h, pageOffset, Nat.succ_mul]

/-- A write changes no byte of another page. -/
theorem byteAt_writePage (h : disk.writePage handle page data = .ok disk') {i : Nat}
    (hi : i < page.toNat * handle.pageSize ∨ (page.toNat + 1) * handle.pageSize ≤ i) :
    Bytes.byteAt (disk'.content handle.name) i = Bytes.byteAt (disk.content handle.name) i := by
  rw [Nat.succ_mul] at hi
  rw [content_writePage h]
  rcases hi with hfront | hbehind
  · exact Bytes.byteAt_writeAt_of_lt hfront
  · exact Bytes.byteAt_writeAt_of_le (by rwa [length_of_writePage h])

theorem window_writePage (h : disk.writePage handle page data = .ok disk') (other : UInt32) :
    Bytes.window (disk'.content handle.name) (other.toNat * handle.pageSize) handle.pageSize
      = if page = other then data else
        Bytes.window (disk.content handle.name) (other.toNat * handle.pageSize)
          handle.pageSize := by
  rw [content_writePage h, pageOffset]
  split
  · rename_i hsame
    rw [← hsame, ← length_of_writePage h, Bytes.window_writeAt]
  · rename_i hne
    refine Bytes.window_writeAt_of_disjoint ?_
    rw [length_of_writePage h, ← Nat.succ_mul, ← Nat.succ_mul]
    rcases Nat.lt_or_gt_of_ne fun heq => hne (UInt32.toNat_inj.1 heq) with hbelow | habove
    · exact .inr (Nat.mul_le_mul_right _ hbelow)
    · exact .inl (Nat.mul_le_mul_right _ habove)

/-! ## Traffic -/

/-- The handle was opened on this disk. -/
def Opened (disk : Disk) (handle : FileHandle) : Prop := handle.number < disk.traffic.length

theorem Opened.countRead (h : disk.Opened handle) : (disk.countRead handle).Opened handle := by
  simpa [Opened, Disk.countRead] using h

theorem Opened.trafficOf_countRead (h : disk.Opened handle) :
    (disk.countRead handle).trafficOf handle
      = { disk.trafficOf handle with reads := (disk.trafficOf handle).reads + 1 } := by
  rw [Opened] at h
  simp [trafficOf, Disk.countRead, List.getD_eq_getElem?_getD, List.getElem?_eq_getElem h]

theorem Opened.writePage (h : disk.Opened handle)
    (hwrite : disk.writePage handle page data = .ok disk') :
    disk'.Opened handle ∧ disk'.trafficOf handle
      = { disk.trafficOf handle with writes := (disk.trafficOf handle).writes + 1 } := by
  rw [Opened] at h
  unfold Disk.writePage at hwrite
  split at hwrite
  · cases hwrite
  · cases hwrite
    simp [Opened, trafficOf, countWrite, putSparse, List.getD_eq_getElem?_getD, h]

theorem openFile_of_locate {path name : String} (h : disk.locate path = .ok name)
    (pageSize : Nat) :
    disk.openFile path pageSize = .ok ({ number := disk.traffic.length, path, name, pageSize },
      { disk with
        files := disk.files.insertIfNew name []
        traffic := disk.traffic ++ [⟨0, 0⟩] }) := by
  rw [openFile, h]

/-- Opening a file changes no content. -/
theorem openFile_eq_ok {path : String} {pageSize : Nat}
    (h : disk.openFile path pageSize = .ok (handle, disk')) :
    handle.pageSize = pageSize ∧ (∀ name, disk'.content name = disk.content name) ∧
      disk'.Opened handle ∧ disk'.trafficOf handle = ⟨0, 0⟩ := by
  unfold openFile at h
  split at h
  · cases h
  · rename_i name hname
    cases h
    refine ⟨rfl, fun other => ?_, by simp [Opened], by simp [trafficOf]⟩
    simp only [content, sparse, Std.ExtTreeMap.getElem?_insertIfNew]
    split
    · rename_i hnew
      have heq : name = other := Std.LawfulEqOrd.eq_of_compare hnew.1
      rw [← heq, Std.ExtTreeMap.getElem?_eq_none hnew.2]
      rfl
    · rfl

end Disk

/-! ## Sequences of calls -/

/-- A call on a file of pages. -/
inductive PageAccess where
  | read (page : UInt32)
  | write (page : UInt32) (data : Bytes)

namespace PageAccess

def isRead : PageAccess → Bool
  | .read _ => true
  | .write .. => false

def isWrite (call : PageAccess) : Bool := !call.isRead

/-- Where the bytes end that a call writes. -/
def reach (pageSize : Nat) : PageAccess → Nat
  | .read _ => 0
  | .write page _ => (page.toNat + 1) * pageSize

/-- What is written is a page, and a file can be so long that it holds it. -/
def Fits (pageSize : Nat) : PageAccess → Prop
  | .read _ => True
  | .write page data =>
    data.length = pageSize ∧ (PageAccess.write page data).reach pageSize ≤ Bytes.maxLength

instance (pageSize : Nat) : DecidablePred (Fits pageSize)
  | .read _ => .isTrue trivial
  | .write _ _ => inferInstanceAs (Decidable (_ ∧ _))

/-- The answer to a call, which for a write is empty, and the disk after it. -/
def run (handle : FileHandle) : PageAccess → Disk → Except Failure Bytes × Disk
  | .read page, disk =>
    match disk.readPage handle page handle.pageSize with
    | .ok (data, after) => (.ok data, after)
    | .error failure => (.error failure, disk)
  | .write page data, disk =>
    match disk.writePage handle page data with
    | .ok after => (.ok [], after)
    | .error failure => (.error failure, disk)

/-- The answers to calls, one after the other, and the disk after them. -/
def runAll (handle : FileHandle) : List PageAccess → Disk → List (Except Failure Bytes) × Disk
  | [], disk => ([], disk)
  | call :: calls, disk =>
    let (answer, after) := call.run handle disk
    let (answers, last) := runAll handle calls after
    (answer :: answers, last)

/-- What was written to a page last. -/
def lastWritten? (page : UInt32) : List PageAccess → Option Bytes
  | [] => none
  | .read _ :: calls => lastWritten? page calls
  | .write other data :: calls =>
    match lastWritten? page calls with
    | some later => some later
    | none => if other = page then some data else none

/-- How many of the calls of one kind succeeded. -/
def succeeded (kind : PageAccess → Bool) (calls : List PageAccess)
    (answers : List (Except Failure Bytes)) : Nat :=
  (calls.zip answers).countP fun (call, answer) => kind call && answer.isOk

variable {handle : FileHandle} {call : PageAccess} {calls : List PageAccess}
  {disk middle after : Disk} {answer : Except Failure Bytes} {answers : List (Except Failure Bytes)}

/-- What calls make of a file: how long it is then, which bytes each page has,
and what was counted. -/
structure Leaves (handle : FileHandle) (calls : List PageAccess) (disk : Disk)
    (answers : List (Except Failure Bytes)) (after : Disk) : Prop where
  opened : after.Opened handle
  length : (after.content handle.name).length
    = calls.foldl (fun length call => max length (call.reach handle.pageSize))
      (disk.content handle.name).length
  page : ∀ page : UInt32,
    Bytes.window (after.content handle.name) (page.toNat * handle.pageSize) handle.pageSize
      = (lastWritten? page calls).getD
        (Bytes.window (disk.content handle.name) (page.toNat * handle.pageSize) handle.pageSize)
  reads : (after.trafficOf handle).reads
    = (disk.trafficOf handle).reads + .ofNat (succeeded isRead calls answers)
  writes : (after.trafficOf handle).writes
    = (disk.trafficOf handle).writes + .ofNat (succeeded isWrite calls answers)

theorem Leaves.nil (hopened : disk.Opened handle) : Leaves handle [] disk [] disk where
  opened := hopened
  length := rfl
  page _ := rfl
  reads := (UInt32.add_zero _).symm
  writes := (UInt32.add_zero _).symm

theorem lastWritten?_cons (page : UInt32) (call : PageAccess) (calls : List PageAccess) :
    lastWritten? page (call :: calls)
      = (lastWritten? page calls).or (lastWritten? page [call]) := by
  cases call with
  | read other => rw [lastWritten?, lastWritten?, lastWritten?, Option.or_none]
  | write other data =>
      simp only [lastWritten?]
      cases lastWritten? page calls <;> rfl

theorem succeeded_cons (kind : PageAccess → Bool) (call : PageAccess) (calls : List PageAccess)
    (answer : Except Failure Bytes) (answers : List (Except Failure Bytes)) :
    succeeded kind (call :: calls) (answer :: answers)
      = succeeded kind [call] [answer] + succeeded kind calls answers := by
  simp only [succeeded, List.zip_cons_cons, List.countP_cons, List.zip_nil_right,
    List.countP_nil]
  omega

theorem Leaves.cons (hfirst : Leaves handle [call] disk [answer] middle)
    (hrest : Leaves handle calls middle answers after) :
    Leaves handle (call :: calls) disk (answer :: answers) after where
  opened := hrest.opened
  length := by rw [hrest.length, hfirst.length, List.foldl_cons, List.foldl_cons, List.foldl_nil]
  page page := by
    rw [hrest.page, hfirst.page, lastWritten?_cons page call calls]
    cases lastWritten? page calls <;> rfl
  reads := by
    rw [hrest.reads, hfirst.reads, succeeded_cons isRead call calls, UInt32.ofNat_add,
      UInt32.add_assoc]
  writes := by
    rw [hrest.writes, hfirst.writes, succeeded_cons isWrite call calls, UInt32.ofNat_add,
      UInt32.add_assoc]

theorem leaves_read (hopened : disk.Opened handle) (page : UInt32) :
    Leaves handle [.read page] disk [((PageAccess.read page).run handle disk).1]
      ((PageAccess.read page).run handle disk).2 := by
  have hlength : (disk.content handle.name).length = max (disk.content handle.name).length 0 :=
    (Nat.max_eq_left (Nat.zero_le _)).symm
  rw [run]
  cases hread : disk.readPage handle page handle.pageSize with
  | error failure =>
      exact ⟨hopened, hlength, fun _ => rfl, (UInt32.add_zero _).symm, (UInt32.add_zero _).symm⟩
  | ok result =>
      obtain ⟨data, after⟩ := result
      obtain rfl := Disk.eq_countRead_of_readPage hread
      refine ⟨hopened.countRead, hlength, fun _ => rfl, ?_, ?_⟩
      · rw [hopened.trafficOf_countRead]
        rfl
      · rw [hopened.trafficOf_countRead]
        exact (UInt32.add_zero _).symm

theorem leaves_write (hopened : disk.Opened handle) (page : UInt32) {data : Bytes}
    (hlength : data.length = handle.pageSize) :
    Leaves handle [.write page data] disk [((PageAccess.write page data).run handle disk).1]
      ((PageAccess.write page data).run handle disk).2 := by
  obtain ⟨after, hwrite⟩ := Disk.exists_writePage hlength disk page
  obtain ⟨hafter, htraffic⟩ := hopened.writePage hwrite
  rw [run, hwrite]
  refine ⟨hafter, Disk.length_writePage hwrite, fun other => ?_, ?_, ?_⟩
  · rw [Disk.window_writePage hwrite]
    simp only [lastWritten?]
    split <;> rfl
  · rw [htraffic]
    exact (UInt32.add_zero _).symm
  · rw [htraffic]
    rfl

theorem leaves_runAll (hopened : disk.Opened handle)
    (hfits : ∀ call ∈ calls, call.Fits handle.pageSize) :
    Leaves handle calls disk (runAll handle calls disk).1 (runAll handle calls disk).2 := by
  induction calls generalizing disk with
  | nil => exact .nil hopened
  | cons call calls ih =>
      rw [List.forall_mem_cons] at hfits
      have hfirst : Leaves handle [call] disk [(call.run handle disk).1]
          (call.run handle disk).2 := by
        cases call with
        | read page => exact leaves_read hopened page
        | write page data => exact leaves_write hopened page hfits.1.1
      exact hfirst.cons (ih hfirst.opened hfits.2)

theorem succeeded_le (kind : PageAccess → Bool) (calls : List PageAccess)
    (answers : List (Except Failure Bytes)) : succeeded kind calls answers ≤ calls.length := by
  refine Nat.le_trans List.countP_le_length ?_
  rw [List.length_zip]
  exact Nat.min_le_left ..

end PageAccess

open PageAccess in
/-- A file that was opened in pages of some size, after any reads and writes of
pages: it is as long as the writes needed. A page can be read if and only if the
file holds every byte of it, and is then what was last written to it, or else
what the file held at first, with zeroes where it ended. A write touches the
bytes of its page and no others. What is counted are the calls that succeeded. -/
theorem file_is_page_array {start disk : Disk} {path : String} {handle : FileHandle}
    {pageSize : Nat} (hopen : start.openFile path pageSize = .ok (handle, disk))
    (hsize : 0 < pageSize) (hmemory : pageSize ≤ Bytes.maxLength) {calls : List PageAccess}
    (hfits : ∀ call ∈ calls, call.Fits pageSize) (hfew : calls.length < UInt32.size) :
    let initial := start.content handle.name
    let answers := (runAll handle calls disk).1
    let after := (runAll handle calls disk).2
    let data := after.content handle.name
    data.length
      = calls.foldl (fun length call => max length (call.reach pageSize)) initial.length ∧
    (data.length / pageSize < UInt32.size → ∃ count, after.pageCount handle = .ok count ∧
      count.toNat = data.length / pageSize) ∧
    (∀ page : UInt32,
      ((page.toNat + 1) * pageSize ≤ data.length →
        after.readPage handle page pageSize = .ok (
          (lastWritten? page calls).getD (Bytes.window initial (page.toNat * pageSize) pageSize),
          after.countRead handle)) ∧
      (data.length < (page.toNat + 1) * pageSize →
        after.readPage handle page pageSize = .error (
          if page.toNat * pageSize ≤ Bytes.maxLength then .error (.io .unexpectedEof)
          else if page.toNat * pageSize < UInt64.size then .error (.io .invalidOffset)
          else .violation (.tooLarge (page.toNat * pageSize))))) ∧
    (∀ page patch, (PageAccess.write page patch).Fits pageSize → ∃ changed,
      after.writePage handle page patch = .ok changed ∧
        (changed.content handle.name).length = max data.length ((page.toNat + 1) * pageSize) ∧
        Bytes.window (changed.content handle.name) (page.toNat * pageSize) pageSize = patch ∧
        ∀ i, i < page.toNat * pageSize ∨ (page.toNat + 1) * pageSize ≤ i →
          Bytes.byteAt (changed.content handle.name) i = Bytes.byteAt data i) ∧
    (after.trafficOf handle).reads.toNat = succeeded isRead calls answers ∧
    (after.trafficOf handle).writes.toNat = succeeded isWrite calls answers := by
  intro initial answers after data
  obtain ⟨rfl, hcontent, hopened, hfresh⟩ := Disk.openFile_eq_ok hopen
  have hleaves := leaves_runAll hopened hfits
  have hfewer : ∀ kind, succeeded kind calls answers < UInt32.size := fun kind =>
    Nat.lt_of_le_of_lt (succeeded_le kind calls answers) hfew
  refine ⟨?_, fun hcountable => ?_, fun page => ⟨fun hthere => ?_, fun hmissing => ?_⟩,
    fun page patch hpatch => ?_, ?_, ?_⟩
  · rw [hleaves.length, hcontent]
  · rw [Disk.pageCount, if_neg (Nat.ne_of_gt hsize), Disk.length_sparse]
    exact ⟨_, rfl, UInt32.toNat_ofNat_of_lt' hcountable⟩
  · rw [Disk.readPage_eq_ok hthere, hleaves.page, hcontent]
  · exact Disk.readPage_eq_error hsize hmemory hmissing
  · obtain ⟨changed, hwrite⟩ := Disk.exists_writePage hpatch.1 after page
    refine ⟨changed, hwrite, Disk.length_writePage hwrite, ?_, fun i hi =>
      Disk.byteAt_writePage hwrite hi⟩
    rw [Disk.window_writePage hwrite, if_pos rfl]
  · rw [hleaves.reads, hfresh, UInt32.zero_add]
    exact UInt32.toNat_ofNat_of_lt' (hfewer isRead)
  · rw [hleaves.writes, hfresh, UInt32.zero_add]
    exact UInt32.toNat_ofNat_of_lt' (hfewer isWrite)

/-- A file of three bytes in pages of two, of which the fourth one is written
first, so that the second one is whole. -/
theorem file_is_page_array_gap :
    ∃ handle disk,
      ((Disk.empty "/d").put "d.dat" [1, 2, 3]).openFile "d.dat" 2 = .ok (handle, disk) ∧
      let calls : List PageAccess := [.read 1, .write 3 [7, 8], .read 1, .write 0 [5, 6]]
      let after := (PageAccess.runAll handle calls disk).2
      (∀ call ∈ calls, call.Fits 2) ∧ (after.content handle.name).length = 8 ∧
        after.readPage handle 1 2 = .ok ([3, 0], after.countRead handle) ∧
        after.readPage handle 4 2 = .error (.error (.io .unexpectedEof)) ∧
        (after.trafficOf handle).reads.toNat = 1 ∧
        (after.trafficOf handle).writes.toNat = 2 := by
  have hlocate : ((Disk.empty "/d").put "d.dat" [1, 2, 3]).locate "d.dat" = .ok "d.dat" := rfl
  have hopen := Disk.openFile_of_locate hlocate 2
  have hstart : ((Disk.empty "/d").put "d.dat" [1, 2, 3]).content "d.dat" = [1, 2, 3] :=
    Disk.content_put_self ..
  refine ⟨_, _, hopen, ?_⟩
  intro calls after
  have hfits : ∀ call ∈ calls, call.Fits 2 := by decide +kernel
  obtain ⟨hlength, -, hpages, -, hreads, hwrites⟩ :=
    file_is_page_array hopen (by decide) (by decide) hfits (by decide)
  dsimp only at hlength hpages
  rw [hstart] at hlength hpages
  have hlong := hlength.trans (show _ = 8 by decide +kernel)
  rw [hlong] at hpages
  refine ⟨hfits, hlong, ((hpages 1).1 (by decide)).trans ?_, ((hpages 4).2 (by decide)).trans rfl,
    hreads.trans ?_, hwrites.trans ?_⟩
  · rfl
  · decide +kernel
  · decide +kernel

/-- No file has a position for the last but one page of so many bytes. -/
theorem read_past_end_may_be_no_position :
    ∃ handle disk, (Disk.empty "/d").openFile "d.dat" 2147483650 = .ok (handle, disk) ∧
      (disk.content handle.name).length < (4294967294 + 1) * 2147483650 ∧
      disk.readPage handle 4294967294 2147483650 = .error (.error (.io .invalidOffset)) := by
  have hlocate : (Disk.empty "/d").locate "d.dat" = .ok "d.dat" := rfl
  have hopen := Disk.openFile_of_locate hlocate 2147483650
  have hempty := (Disk.openFile_eq_ok hopen).2.1 "d.dat"
  refine ⟨_, _, hopen, ?_, (Disk.readPage_eq_error (by decide) (by decide) ?_).trans ?_⟩
  · dsimp only
    rw [hempty]
    decide
  · dsimp only
    rw [hempty]
    decide
  · rw [if_neg (by decide), if_pos (by decide)]

end HeapStore
