import HeapStore.Proofs.Calls

/-!
# The pages in the files

`Engine.stored? page` is the page as its file has it. It depends on the
catalog and the contents of the files alone. A read changes no stored page,
a write changes the one it names, and an append adds one without tuples
(`stored?_write`, `stored?_append`), provided that each file is registered
once (`Catalog.Registered`).

The number of a page has 32 bits. `Engine.Within` says that no file outgrows
this; files never shrink, so what holds at the end of a run holds all the way
(`Grows.within_left`, `Grows.within_right`).
-/

namespace HeapStore

open HeapStore.Action Engine

/-! ## Numbers of pages -/

section

variable {m n : UInt32}

theorem toNat_succ_of_lt (h : n.toNat + 1 < UInt32.size) : (n + 1).toNat = n.toNat + 1 := by
  rw [UInt32.toNat_add, UInt32.toNat_one]
  exact Nat.mod_eq_of_lt h

theorem lt_succ_iff_le (h : n.toNat + 1 < UInt32.size) : m < n + 1 ↔ m ≤ n := by
  rw [UInt32.lt_iff_toNat_lt, UInt32.le_iff_toNat_le, toNat_succ_of_lt h, Nat.lt_succ_iff]

theorem succ_le_iff_lt (h : n.toNat + 1 < UInt32.size) : n + 1 ≤ m ↔ n < m := by
  rw [UInt32.lt_iff_toNat_lt, UInt32.le_iff_toNat_le, toNat_succ_of_lt h, Nat.succ_le_iff]

theorem le_succ_of_lt (h : n.toNat + 1 < UInt32.size) : n ≤ n + 1 :=
  UInt32.le_of_lt ((lt_succ_iff_le h).2 (UInt32.le_refl n))

end

/-! ## A page of a file -/

namespace HeapFile

/-- The number of whole pages, however many bits it takes. -/
def wholePages (file : HeapFile) (disk : Disk) : Nat :=
  (disk.content file.handle.name).length / file.pageSize

/-- The bytes at the place of a page. -/
def pageBytes (file : HeapFile) (disk : Disk) (page : UInt32) : Bytes :=
  Bytes.slice (disk.content file.handle.name) (Disk.pageOffset file.handle page) file.pageSize

/-- The file has the page. -/
structure Has (file : HeapFile) (disk : Disk) (page : PageId) : Prop where
  table : page.table = file.id
  size : file.pageSize ≠ 0
  below : page.page < (file.wholePages disk).toUInt32

variable {file : HeapFile} {disk disk' : Disk} {page : PageId}

theorem pageCount_eq (hsize : file.pageSize ≠ 0) :
    file.pageCount disk = .ok (file.wholePages disk).toUInt32 := by
  rw [pageSize] at hsize
  rw [pageCount, Disk.pageCount, if_neg hsize, Disk.length_sparse]
  rfl

theorem size_of_pageCount {count : UInt32} (h : file.pageCount disk = .ok count) :
    file.pageSize ≠ 0 ∧ count = (file.wholePages disk).toUInt32 := by
  have hsize : file.pageSize ≠ 0 := by
    intro hzero
    rw [pageSize] at hzero
    simp [pageCount, Disk.pageCount, hzero] at h
  rw [pageCount_eq hsize, Except.ok.injEq] at h
  exact ⟨hsize, h.symm⟩

theorem Has.toNat_lt (h : file.Has disk page) : page.page.toNat < file.wholePages disk := by
  have hlt := UInt32.lt_iff_toNat_lt.1 h.below
  rw [Nat.toUInt32, UInt32.toNat_ofNat'] at hlt
  exact Nat.lt_of_lt_of_le hlt (Nat.mod_le _ _)

/-- A page that the file has lies within the file. -/
theorem Has.fits (h : file.Has disk page) :
    Disk.pageOffset file.handle page.page + file.pageSize
      ≤ (disk.content file.handle.name).length := by
  have hmul : (page.page.toNat + 1) * file.pageSize ≤ file.wholePages disk * file.pageSize :=
    Nat.mul_le_mul_right _ h.toNat_lt
  have hdiv : file.wholePages disk * file.pageSize ≤ (disk.content file.handle.name).length :=
    Nat.div_mul_le_self _ _
  rw [Nat.succ_mul] at hmul
  exact Nat.le_trans hmul hdiv

theorem Has.length_pageBytes (h : file.Has disk page) :
    (file.pageBytes disk page.page).length = file.pageSize := by
  have hfits := h.fits
  rw [pageBytes, Bytes.length_slice]
  omega

/-- What a read yields. -/
theorem readPage_eq (h : file.Has disk page) :
    file.readPage disk page
      = .ok (.ofBytes page file.schema (file.pageBytes disk page.page),
          disk.countRead file.handle) := by
  have hnot : ¬(file.wholePages disk).toUInt32 ≤ page.page := by
    simpa [UInt32.not_le] using h.below
  have hlength := h.length_pageBytes
  have hslice : (disk.sparse file.handle.name).slice (Disk.pageOffset file.handle page.page)
      file.handle.pageSize = file.pageBytes disk page.page := by
    rw [Disk.slice_sparse]
    rfl
  rw [readPage, if_neg (Decidable.not_not.2 h.table), pageCount_eq h.size]
  simp only [bind, Except.bind, if_neg hnot, Disk.readPage, hslice]
  rw [pageSize] at hlength
  simp [pageSize, hlength, pure, Except.pure]

theorem has_of_readPage {loaded : Page} (h : file.readPage disk page = .ok (loaded, disk')) :
    file.Has disk page := by
  unfold readPage at h
  split at h
  · cases h
  · rename_i htable
    cases hcount : file.pageCount disk with
    | error failure => simp [hcount, bind, Except.bind] at h
    | ok count =>
        obtain ⟨hsize, rfl⟩ := size_of_pageCount hcount
        refine ⟨Decidable.not_not.1 htable, hsize, ?_⟩
        simp only [hcount, bind, Except.bind] at h
        split at h
        · cases h
        · rename_i hnot
          exact UInt32.not_le.1 hnot

theorem has_congr (h : file.wholePages disk' = file.wholePages disk) :
    file.Has disk' page ↔ file.Has disk page := by
  constructor <;> rintro ⟨htable, hsize, hbelow⟩ <;> refine ⟨htable, hsize, ?_⟩
  · rwa [h] at hbelow
  · rwa [h]

theorem has_congr_content (h : disk'.content file.handle.name = disk.content file.handle.name) :
    file.Has disk' page ↔ file.Has disk page :=
  has_congr (by rw [wholePages, h, wholePages])

/-- As long as 32 bits are enough for the number of pages, they are counted
right. -/
theorem has_iff (hfew : file.wholePages disk < UInt32.size) : file.Has disk page
    ↔ page.table = file.id ∧ file.pageSize ≠ 0 ∧ page.page.toNat < file.wholePages disk := by
  have hbelow : page.page < (file.wholePages disk).toUInt32
      ↔ page.page.toNat < file.wholePages disk := by
    rw [UInt32.lt_iff_toNat_lt, UInt32.toNat_ofNat_of_lt' hfew]
  rw [← hbelow]
  exact ⟨fun h => ⟨h.table, h.size, h.below⟩, fun h => ⟨h.1, h.2.1, h.2.2⟩⟩

/-! ## Writing and appending -/

theorem exists_writePage {x : Page} (h : x.data.length = file.pageSize) (disk : Disk) :
    ∃ disk', file.writePage disk x = .ok disk' :=
  Disk.exists_writePage h disk x.id.page

variable {m n : UInt32} {data : Bytes}

theorem pageBytes_writePage_self (h : disk.writePage file.handle n data = .ok disk') :
    file.pageBytes disk' n = data := by
  rw [pageBytes, Disk.content_writePage h, pageSize, ← Disk.length_of_writePage h,
    Bytes.slice_writeAt]

/-- A page within the file keeps its bytes when another page is written. -/
theorem pageBytes_writePage_of_ne (h : disk.writePage file.handle n data = .ok disk')
    (hne : m ≠ n) (hfits : Disk.pageOffset file.handle m + file.pageSize
      ≤ (disk.content file.handle.name).length) :
    file.pageBytes disk' m = file.pageBytes disk m := by
  have hlength := Disk.length_of_writePage h
  have hne' : m.toNat ≠ n.toNat := fun heq => hne (UInt32.toNat_inj.1 heq)
  rw [pageBytes, Disk.content_writePage h]
  rcases Nat.lt_or_gt_of_ne hne' with hlt | hgt
  · have hmul : (m.toNat + 1) * file.pageSize ≤ n.toNat * file.pageSize :=
      Nat.mul_le_mul_right _ hlt
    rw [Nat.succ_mul] at hmul
    exact Bytes.slice_writeAt_of_le _ _ hmul hfits
  · have hmul : (n.toNat + 1) * file.pageSize ≤ m.toNat * file.pageSize :=
      Nat.mul_le_mul_right _ hgt
    rw [Nat.succ_mul] at hmul
    refine Bytes.slice_writeAt_of_ge _ _ ?_
    rw [hlength]
    exact hmul

/-- A write within the file leaves the number of pages. -/
theorem wholePages_writePage (h : disk.writePage file.handle n data = .ok disk')
    (hfits : Disk.pageOffset file.handle n + file.pageSize
      ≤ (disk.content file.handle.name).length) :
    file.wholePages disk' = file.wholePages disk := by
  rw [pageSize] at hfits
  rw [wholePages, Disk.content_writePage h, Bytes.length_writeAt, Disk.length_of_writePage h,
    Nat.max_eq_left hfits, wholePages]

theorem appendPage_eq_ok (h : file.appendPage disk = .ok (page, disk')) :
    file.pageSize ≠ 0 ∧ disk.writePage file.handle (file.wholePages disk).toUInt32
      (Bytes.zeros file.pageSize) = .ok disk' := by
  cases hcount : file.pageCount disk with
  | error failure => simp [appendPage, hcount, bind, Except.bind] at h
  | ok count =>
      obtain ⟨hsize, rfl⟩ := size_of_pageCount hcount
      refine ⟨hsize, ?_⟩
      simp only [appendPage, hcount, bind, Except.bind, emptyPage] at h
      split at h
      · cases h
      · rename_i blank hblank
        split at hblank
        · cases hblank
        · cases hblank
          simp only [writePage, Page.ofBytes, pure, Except.pure] at h
          split at h
          · cases h
          · rename_i disk'' hwrite
            cases h
            exact hwrite

/-- An appended page is behind the last one. -/
theorem wholePages_appendPage (h : file.appendPage disk = .ok (page, disk'))
    (hfew : file.wholePages disk < UInt32.size) :
    file.wholePages disk' = file.wholePages disk + 1 := by
  obtain ⟨hsize, hwrite⟩ := appendPage_eq_ok h
  have hoffset : Disk.pageOffset file.handle (file.wholePages disk).toUInt32
      = file.wholePages disk * file.pageSize := by
    rw [Disk.pageOffset, UInt32.toNat_ofNat_of_lt' hfew, pageSize]
  have hlt : (disk.content file.handle.name).length
      < (file.wholePages disk + 1) * file.pageSize :=
    Nat.lt_mul_of_div_lt (Nat.lt_succ_self _) (Nat.pos_of_ne_zero hsize)
  have hlength : (disk'.content file.handle.name).length
      = (file.wholePages disk + 1) * file.pageSize := by
    rw [Disk.content_writePage hwrite, Bytes.length_writeAt, hoffset, Bytes.length_zeros,
      ← Nat.succ_mul]
    exact Nat.max_eq_right (Nat.le_of_lt hlt)
  rw [wholePages, hlength, Nat.mul_div_cancel _ (Nat.pos_of_ne_zero hsize)]

/-- Where the number of pages has more than 32 bits, the place of the
appended page is within the file. -/
theorem fits_of_many (hmany : UInt32.size ≤ file.wholePages disk) :
    Disk.pageOffset file.handle (file.wholePages disk).toUInt32 + file.pageSize
      ≤ (disk.content file.handle.name).length := by
  have hlt : (file.wholePages disk).toUInt32.toNat < file.wholePages disk :=
    Nat.lt_of_lt_of_le (UInt32.toNat_lt _) hmany
  have hmul := Nat.mul_le_mul_right file.pageSize hlt
  rw [Nat.succ_mul] at hmul
  exact Nat.le_trans hmul (Nat.div_mul_le_self _ _)

theorem content_readPage {loaded : Page} (h : file.readPage disk page = .ok (loaded, disk'))
    (name : String) : disk'.content name = disk.content name := by
  obtain ⟨data, -, hread⟩ := eq_ofBytes_of_readPage h
  exact Disk.content_readPage hread name

end HeapFile

/-! ## The stored page -/

/-- A page as its file has it. -/
def Engine.stored? (engine : Engine) (page : PageId) : Option Page :=
  match engine.catalog.file page.table with
  | .error _ => none
  | .ok file =>
    match file.readPage engine.disk page with
    | .ok (page, _) => some page
    | .error _ => none

/-- Each table of the catalog has its own file, and is known by the
identity of the file. -/
structure Catalog.Registered (catalog : Catalog) : Prop where
  keyed : ∀ id file, catalog.file id = .ok file → file.id = id
  apart : ∀ id id' file file', catalog.file id = .ok file → catalog.file id' = .ok file' →
    file.handle.name = file'.handle.name → id = id'

theorem registered_twoTables (capacity : Nat) (refusals : Refusals) :
    (twoTables capacity refusals).catalog.Registered := by
  constructor
  · intro id file hfile
    rcases file_twoTables hfile with ⟨rfl, rfl⟩ | ⟨rfl, rfl⟩ <;> rfl
  · intro id id' file file' hfile hfile' hname
    rcases file_twoTables hfile with ⟨rfl, rfl⟩ | ⟨rfl, rfl⟩ <;>
      rcases file_twoTables hfile' with ⟨rfl, rfl⟩ | ⟨rfl, rfl⟩
    · rfl
    · exact absurd hname (by decide)
    · exact absurd hname (by decide)
    · rfl

namespace Engine

variable {e e' : Engine} {file : HeapFile} {page p : PageId} {x : Page}

theorem stored?_eq_some_iff : e.stored? page = some x
    ↔ ∃ file, e.catalog.file page.table = .ok file ∧ file.Has e.disk page
      ∧ x = .ofBytes page file.schema (file.pageBytes e.disk page.page) := by
  unfold stored?
  constructor
  · intro h
    split at h
    · cases h
    · rename_i file hfile
      split at h
      · rename_i loaded disk hread
        cases h
        have hhas := HeapFile.has_of_readPage hread
        rw [HeapFile.readPage_eq hhas] at hread
        cases hread
        exact ⟨file, hfile, hhas, rfl⟩
      · cases h
  · rintro ⟨file, hfile, hhas, rfl⟩
    rw [hfile]
    simp only [HeapFile.readPage_eq hhas]

theorem stored?_of_readPage {disk : Disk} (hfile : e.catalog.file page.table = .ok file)
    (hread : file.readPage e.disk page = .ok (x, disk)) : e.stored? page = some x := by
  simp only [stored?, hfile, hread]

/-- A page is stored as before if its place in its file is untouched. -/
theorem stored?_frame (hcatalog : e'.catalog = e.catalog)
    (h : ∀ file, e.catalog.file page.table = .ok file →
      (file.Has e'.disk page ↔ file.Has e.disk page) ∧
        (file.Has e.disk page →
          file.pageBytes e'.disk page.page = file.pageBytes e.disk page.page)) :
    e'.stored? page = e.stored? page := by
  refine Option.ext fun x => ?_
  rw [stored?_eq_some_iff, stored?_eq_some_iff, hcatalog]
  refine exists_congr fun file => and_congr_right fun hfile => ?_
  obtain ⟨hhas, hbytes⟩ := h file hfile
  rw [hhas]
  refine and_congr_right fun hhas => ?_
  rw [hbytes hhas]

theorem stored?_congr (hcatalog : e'.catalog = e.catalog)
    (hcontent : ∀ name, e'.disk.content name = e.disk.content name) :
    e'.stored? page = e.stored? page := by
  refine stored?_frame hcatalog fun file _ => ⟨HeapFile.has_congr_content (hcontent _), fun _ => ?_⟩
  rw [HeapFile.pageBytes, hcontent, HeapFile.pageBytes]

/-- Pages of other tables are in other files. -/
theorem stored?_of_ne (hreg : e.catalog.Registered) {id : TableId} {disk : Disk}
    (hfile : e.catalog.file id = .ok file)
    (hcontent : ∀ name, name ≠ file.handle.name → disk.content name = e.disk.content name)
    (hne : p.table ≠ id) : Engine.stored? { e with disk } p = e.stored? p := by
  refine stored?_frame rfl fun file' hfile' => ?_
  have hname : disk.content file'.handle.name = e.disk.content file'.handle.name :=
    hcontent _ fun heq => hne (hreg.apart _ _ _ _ hfile' hfile heq)
  refine ⟨HeapFile.has_congr_content hname, fun _ => ?_⟩
  rw [HeapFile.pageBytes, hname, HeapFile.pageBytes]

/-- A write to a page that the file has changes this page and no other. -/
theorem stored?_write (hreg : e.catalog.Registered) {disk : Disk}
    (hfile : e.catalog.file x.id.table = .ok file) (hhas : file.Has e.disk x.id)
    (hwrite : file.writePage e.disk x = .ok disk) (p : PageId) :
    Engine.stored? { e with disk } p
      = if p = x.id then some (.ofBytes p file.schema x.data) else e.stored? p := by
  have hwhole : file.wholePages disk = file.wholePages e.disk :=
    HeapFile.wholePages_writePage hwrite hhas.fits
  by_cases hp : p = x.id
  · subst hp
    rw [if_pos rfl, stored?_eq_some_iff]
    refine ⟨file, hfile, (HeapFile.has_congr hwhole).2 hhas, ?_⟩
    rw [HeapFile.pageBytes_writePage_self hwrite]
  rw [if_neg hp]
  by_cases htable : p.table = x.id.table
  · have hpage : p.page ≠ x.id.page := by
      intro hpage
      obtain ⟨t, n⟩ := p
      exact hp (by rw [show t = x.id.table from htable, show n = x.id.page from hpage])
    refine stored?_frame rfl fun file' hfile' => ?_
    rw [htable] at hfile'
    obtain rfl := Except.ok.inj (hfile.symm.trans hfile')
    exact ⟨HeapFile.has_congr hwhole,
      fun hold => HeapFile.pageBytes_writePage_of_ne hwrite hpage hold.fits⟩
  · exact stored?_of_ne hreg hfile (fun _ => Disk.content_writePage_of_ne hwrite) htable

/-- An append leaves the stored pages, and may add one without tuples. -/
theorem stored?_append (hreg : e.catalog.Registered) {id : TableId} {disk : Disk}
    (hfile : e.catalog.file id = .ok file) (happend : file.appendPage e.disk = .ok (page, disk))
    (hwithin : file.wholePages e.disk < UInt32.size → file.wholePages disk < UInt32.size)
    (p : PageId) :
    Engine.stored? { e with disk } p = e.stored? p
      ∨ e.stored? p = none ∧ Engine.stored? { e with disk } p
          = some (.ofBytes p file.schema (Bytes.zeros file.pageSize)) := by
  obtain ⟨hsize, hwrite⟩ := HeapFile.appendPage_eq_ok happend
  by_cases htable : p.table = id
  case neg =>
    exact .inl (stored?_of_ne hreg hfile (fun _ => Disk.content_writePage_of_ne hwrite) htable)
  rw [← htable] at hfile
  by_cases hfew : file.wholePages e.disk < UInt32.size
  · have hfew' := hwithin hfew
    have hwhole := HeapFile.wholePages_appendPage happend hfew
    by_cases hp : p.page.toNat = file.wholePages e.disk
    · have hnumber : p.page = (file.wholePages e.disk).toUInt32 := by
        rw [← UInt32.toNat_inj, hp, UInt32.toNat_ofNat_of_lt' hfew]
      refine .inr ⟨?_, ?_⟩
      · refine Option.eq_none_iff_forall_ne_some.2 fun x hx => ?_
        obtain ⟨file', hfile', hhas, -⟩ := stored?_eq_some_iff.1 hx
        obtain rfl := Except.ok.inj (hfile.symm.trans hfile')
        have hlt := ((HeapFile.has_iff hfew).1 hhas).2.2
        omega
      · rw [stored?_eq_some_iff]
        refine ⟨file, hfile, (HeapFile.has_iff hfew').2 ⟨?_, hsize, by omega⟩, ?_⟩
        · exact (hreg.keyed _ _ hfile).symm
        · rw [hnumber, HeapFile.pageBytes_writePage_self hwrite]
    · refine .inl (stored?_frame rfl fun file' hfile' => ?_)
      obtain rfl := Except.ok.inj (hfile.symm.trans hfile')
      refine ⟨?_, fun hold => ?_⟩
      · have hlt : p.page.toNat < file.wholePages disk
            ↔ p.page.toNat < file.wholePages e.disk := by omega
        rw [HeapFile.has_iff hfew', HeapFile.has_iff hfew, hlt]
      · refine HeapFile.pageBytes_writePage_of_ne hwrite ?_ hold.fits
        exact fun heq => UInt32.lt_irrefl _ (heq ▸ hold.below)
  · have hfits := HeapFile.fits_of_many (Nat.le_of_not_lt hfew)
    have hwhole := HeapFile.wholePages_writePage hwrite hfits
    refine .inl (stored?_frame rfl fun file' hfile' => ?_)
    obtain rfl := Except.ok.inj (hfile.symm.trans hfile')
    refine ⟨HeapFile.has_congr hwhole, fun hold => ?_⟩
    refine HeapFile.pageBytes_writePage_of_ne hwrite ?_ hold.fits
    exact fun heq => UInt32.lt_irrefl _ (heq ▸ hold.below)

end Engine

/-! ## Files that grow -/

/-- No file becomes shorter, and the tables stay the same. -/
structure Grows (e e' : Engine) : Prop where
  catalog : e'.catalog = e.catalog
  length : ∀ name, (e.disk.content name).length ≤ (e'.disk.content name).length

/-- No file whose pages can be numbered outgrows its page numbers. -/
def Engine.Within (e e' : Engine) : Prop :=
  ∀ id file, e.catalog.file id = .ok file →
    file.wholePages e.disk < UInt32.size → file.wholePages e'.disk < UInt32.size

namespace Grows

variable {e e₁ e₂ e' : Engine}

theorem of_content (hcatalog : e'.catalog = e.catalog)
    (hcontent : ∀ name, e'.disk.content name = e.disk.content name) : Grows e e' :=
  ⟨hcatalog, fun name => Nat.le_of_eq (by rw [hcontent])⟩

theorem refl (e : Engine) : Grows e e := of_content rfl fun _ => rfl

theorem trans (h : Grows e e₁) (h' : Grows e₁ e₂) : Grows e e₂ :=
  ⟨h'.catalog.trans h.catalog, fun name => Nat.le_trans (h.length name) (h'.length name)⟩

theorem wholePages_le (h : Grows e e') (file : HeapFile) :
    file.wholePages e.disk ≤ file.wholePages e'.disk :=
  Nat.div_le_div_right (h.length _)

theorem within_left (h : Grows e₁ e₂) (hwithin : Within e e₂) : Within e e₁ :=
  fun id file hfile hfew => Nat.lt_of_le_of_lt (h.wholePages_le file) (hwithin id file hfile hfew)

theorem within_right (h : Grows e e₁) (hwithin : Within e e₂) : Within e₁ e₂ := by
  intro id file hfile hfew
  rw [h.catalog] at hfile
  exact hwithin id file hfile (Nat.lt_of_le_of_lt (h.wholePages_le file) hfew)

theorem of_writePage {file : HeapFile} {n : UInt32} {data : Bytes} {disk : Disk}
    (hcatalog : e'.catalog = e.catalog) (hdisk : e'.disk = disk)
    (hwrite : e.disk.writePage file.handle n data = .ok disk) : Grows e e' := by
  refine ⟨hcatalog, fun name => ?_⟩
  rw [hdisk]
  by_cases hname : name = file.handle.name
  · rw [hname, Disk.content_writePage hwrite, Bytes.length_writeAt]
    exact Nat.le_max_left _ _
  · exact Nat.le_of_eq (by rw [Disk.content_writePage_of_ne hwrite hname])

theorem of_readPage {file : HeapFile} {page : PageId} {loaded : Page} {disk : Disk}
    (hcatalog : e'.catalog = e.catalog) (hdisk : e'.disk = disk)
    (hread : file.readPage e.disk page = .ok (loaded, disk)) : Grows e e' := by
  refine of_content hcatalog fun name => ?_
  rw [hdisk, HeapFile.content_readPage hread]

end Grows

theorem MakesRoom.disk_eq {e e₁ : Engine} (h : MakesRoom e e₁) : e₁.disk = e.disk := by
  cases h <;> rfl

theorem MakesRoom.catalog_eq {e e₁ : Engine} (h : MakesRoom e e₁) : e₁.catalog = e.catalog := by
  cases h <;> rfl

theorem Fetches.content_eq {txn : TxnId} {page : PageId} {mode : LockMode} {e e₁ : Engine}
    {frame : Frame} (h : Fetches txn page mode e frame e₁) (name : String) :
    e₁.disk.content name = e.disk.content name := by
  cases h with
  | hit _ _ => rfl
  | miss _ _ _ hroom hread =>
      rw [HeapFile.content_readPage hread, hroom.disk_eq]

theorem Quiet.grows {txn : TxnId} {e e' : Engine} (h : Quiet txn e e') : Grows e e' := by
  cases h with
  | lock _ => exact .of_content rfl fun _ => rfl
  | use _ _ => exact .of_content rfl fun _ => rfl
  | drop _ _ => exact .of_content rfl fun _ => rfl
  | load _ _ hroom hread =>
      exact .of_readPage hroom.catalog_eq rfl (hroom.disk_eq ▸ hread)
  | append _ happend =>
      obtain ⟨-, hwrite⟩ := HeapFile.appendPage_eq_ok happend
      exact .of_writePage rfl rfl hwrite
  | giveBack _ hfetch => exact .of_content hfetch.catalog_eq hfetch.content_eq

theorem WritesBack.grows {page : PageId} {e e' : Engine} (h : WritesBack page e e') :
    Grows e e' := by
  cases h with
  | clean _ => exact .refl e
  | dirty _ _ _ _ hwrite => exact .of_writePage rfl rfl hwrite

theorem Move.grows {e e' : Engine} (h : Move e e') : Grows e e' := by
  cases h with
  | quiet h => exact h.grows
  | change _ _ _ => exact .of_content rfl fun _ => rfl
  | log => exact .of_content rfl fun _ => rfl
  | writeBack h => exact h.grows
  | restore _ h =>
      cases h with
      | mk _ hread => exact .of_readPage rfl rfl hread
  | letGo => exact .of_content rfl fun _ => rfl
  | discard => exact .of_content rfl fun _ => rfl

theorem MovePath.grows {e e' : Engine} (h : MovePath e e') : Grows e e' := by
  induction h with
  | refl => exact .refl e
  | tail _ hmove ih => exact ih.trans hmove.grows

theorem Call.grows (call : Call) (e : Engine) : Grows e (call.after e) := by
  rcases call.release_or_movePath e with ⟨txn, page, rfl⟩ | hpath
  · exact .of_content rfl fun _ => rfl
  · exact MovePath.grows hpath

theorem Call.grows_all (calls : List Call) (e : Engine) : Grows e (afterAll calls e) := by
  induction calls generalizing e with
  | nil => exact .refl e
  | cons call calls ih => exact (call.grows e).trans (ih _)

end HeapStore
