import HeapStore.Proofs.Lockstep

/-!
# Cache transparency

How much room a pool has cannot be told from its answers, as long as there is
enough. A run is seen through its `Observation`s: after each call what the call
answered, the locks, the bytes of the files and the log. Two pools with
different room hit and miss at different places and drop different pages, but
they are `Alike` all the way, and so are observed to do the same.

A scan goes on after it found the pool full, but it cannot hide it any more:
from then on all room is taken by changed pages (`Crowded`), so nothing is read
and nothing else goes wrong.

Headline: `cache_transparency`.
-/

namespace HeapStore

open HeapStore.Action Engine

/-! ## Scanning -/

/-- All room is taken by changed pages. -/
structure Crowded (capacity : Nat) (e : Engine) : Prop where
  coherent : Coherent capacity e
  many : capacity ≤ e.pool.changed.length

section

variable {small large : Nat} {e e' : Engine} {txn : TxnId} {page : PageId} {file : HeapFile}
  {stop : Item → Bool}

/-- With no room, what is seen is a changed page or else an answer. -/
theorem Crowded.lookUp (h : Crowded small e) (page : PageId) :
    (∃ x, (page, x) ∈ e.pool.changed ∧ e.lookUp page = .ok x)
      ∨ ∃ cause, e.lookUp page = .error (.error cause) := by
  unfold Engine.lookUp
  split
  · rename_i x hx
    exact .inl ⟨x, changed?_eq_some_iff.1 hx, rfl⟩
  right
  split
  · exact ⟨_, rfl⟩
  · rw [if_pos (by rw [h.coherent.capacity_eq]; exact h.many)]
    exact ⟨_, rfl⟩

theorem Crowded.getPage (h : Crowded small e) (txn : TxnId) (page : PageId) (access : Access) :
    (Engine.getPage txn page access).Ends e (fun _ => Crowded small)
      (fun failure e₁ => (∃ cause, failure = .error cause) ∧ Crowded small e₁) := by
  cases hlock : e.pool.locks.acquire? txn page access.lockMode with
  | none =>
      rw [Ends, getPage_of_refused hlock]
      exact ⟨⟨_, rfl⟩, h⟩
  | some locks =>
      refine (h.coherent.getPage_face hlock).mono ?_ ?_
      · rintro frame e₁ ⟨hlookUp, hface, -, hc⟩
        refine ⟨hc, ?_⟩
        rcases h.lookUp page with ⟨x, hmem, hx⟩ | ⟨cause, hcause⟩
        · obtain rfl := Except.ok.inj (hx.symm.trans hlookUp)
          rw [show e₁.pool.changed = _ from congrArg Face.changed hface, length_usePage hmem]
          exact h.many
        · cases hcause.symm.trans hlookUp
      · rintro failure e₁ ⟨hlookUp, hface, hc⟩
        refine ⟨?_, hc, ?_⟩
        · rcases h.lookUp page with ⟨x, -, hx⟩ | ⟨cause, hcause⟩
          · cases hx.symm.trans hlookUp
          · exact ⟨cause, Except.error.inj (hlookUp.symm.trans hcause)⟩
        · rw [show e₁.pool.changed = _ from congrArg Face.changed hface]
          exact h.many

theorem Catalog.file_ne_full (catalog : Catalog) (table : TableId) :
    catalog.file table ≠ .error .bufferPoolFull := by
  unfold Catalog.file Catalog.entry
  split <;> exact nofun

theorem HeapFile.readPage_ne_full (file : HeapFile) (disk : Disk) (page : PageId) :
    file.readPage disk page ≠ .error (.error .bufferPoolFull) := by
  have hmissing : Disk.missing file.handle page.page ≠ .error .bufferPoolFull := by
    unfold Disk.missing
    dsimp only
    split
    · exact nofun
    split
    · exact nofun
    split <;> exact nofun
  intro h
  simp only [HeapFile.readPage, HeapFile.pageCount, Disk.pageCount, Disk.readPage, bind,
    Except.bind] at h
  split at h
  · cases h
  split at h
  · rename_i hcount
    split at hcount <;> cases hcount
    cases h
  split at h
  · cases h
  split at h
  · rename_i hread
    split at hread
    · cases hread
      cases h
    · split at hread
      · cases hread
        exact hmissing (Except.error.inj h)
      · cases hread
  · cases h

/-- Only changed pages can fill a pool. -/
theorem le_of_lookUp (h : e.lookUp page = .error (.error .bufferPoolFull)) :
    e.pool.capacity ≤ e.pool.changed.length := by
  unfold Engine.lookUp at h
  split at h
  · cases h
  split at h
  · rename_i cause hcause
    obtain rfl := Failure.error.inj (Except.error.inj h)
    exact absurd hcause (e.catalog.file_ne_full page.table)
  rename_i file hfile
  split at h
  · assumption
  cases hread : file.readPage e.disk page with
  | ok read =>
      rw [hread] at h
      cases h
  | error failure =>
      rw [hread] at h
      obtain rfl := Except.error.inj h
      exact absurd hread (file.readPage_ne_full e.disk page)

theorem Coherent.crowded_of_full {access : Access} {e₁ : Engine} (h : Coherent small e)
    (hget : Engine.getPage txn page access e = .error (.error .bufferPoolFull) e₁) :
    Crowded small e₁ := by
  cases hlock : e.pool.locks.acquire? txn page access.lockMode with
  | none =>
      rw [getPage_of_refused hlock] at hget
      cases hget
  | some locks =>
      obtain ⟨hlookUp, hface, hc⟩ := (h.getPage_face hlock).of_error hget
      refine ⟨hc, ?_⟩
      rw [show e₁.pool.changed = _ from congrArg Face.changed hface, ← h.capacity_eq]
      exact le_of_lookUp hlookUp

/-- With no room a scan still comes to its end. -/
theorem Crowded.takePages (h : Crowded small e) (stop : Item → Bool) (file : HeapFile)
    (txn : TxnId) (count : Nat) (nextPage : UInt32) :
    ∃ answer e₁, Scan.takePages stop file txn count nextPage e = .ok answer e₁ := by
  induction count generalizing nextPage e with
  | zero => exact ⟨_, _, rfl⟩
  | succ count ih =>
      have hgo : ∀ cuts {e₁}, Crowded small e₁ →
          ∃ answer e₂, Scan.goOn stop file txn count nextPage cuts e₁ = .ok answer e₂ := by
        rintro ⟨items, _ | rest⟩ e₁ h₁
        · obtain ⟨⟨more, scan⟩, e₂, hmore⟩ := ih h₁ (nextPage + 1)
          exact ⟨_, _, by rw [Scan.goOn, bind_apply, hmore]; rfl⟩
        · exact ⟨_, _, rfl⟩
      have hget := h.getPage txn ⟨file.id, nextPage⟩ .read
      unfold Ends at hget
      rw [takePages_succ]
      generalize Engine.getPage txn ⟨file.id, nextPage⟩ .read e = result at hget
      rcases result with ⟨frame, e₁⟩ | ⟨cause | cause, e₁⟩
      · exact hgo _ hget
      · exact hgo _ hget.2
      · obtain ⟨⟨_, hcause⟩, -⟩ := hget
        cases hcause

/-- One of the items says that the pool was full. -/
def ShowsFull (result : EStateM.Result Failure Engine (List Item × Scan)) : Prop :=
  ∃ items scan e₁, result = .ok (items, scan) e₁ ∧ .error .bufferPoolFull ∈ items

theorem ShowsFull.prepend {action : Action (List Item × Scan)} (h : ShowsFull (action e))
    (items : List Item) :
    ShowsFull ((do let (more, scan) ← action; return (items ++ more, scan)) e) := by
  obtain ⟨more, scan, e₁, hmore, hmem⟩ := h
  exact ⟨items ++ more, scan, e₁, by rw [bind_apply, hmore]; rfl, List.mem_append_right _ hmem⟩

theorem Crowded.showsFull {cuts : List Item × Option (List Item)} (h : Crowded small e)
    (hmem : .error .bufferPoolFull ∈ cuts.1) (count : Nat) (nextPage : UInt32) :
    ShowsFull (Scan.goOn stop file txn count nextPage cuts e) := by
  obtain ⟨items, _ | rest⟩ := cuts
  · obtain ⟨⟨more, scan⟩, e₁, hmore⟩ := h.takePages stop file txn count (nextPage + 1)
    exact ⟨items ++ more, scan, e₁, by rw [Scan.goOn, bind_apply, hmore]; rfl,
      List.mem_append_left _ hmem⟩
  · exact ⟨items, _, e, rfl, hmem⟩

/-- Two scans agree, unless one shows that the pool was full. -/
def ScansAgree (small large : Nat)
    (result result' : EStateM.Result Failure Engine (List Item × Scan)) : Prop :=
  ShowsFull result ∨ Lockstep small large Unexcused
    (fun a a' e e' => a' = a ∧ Alike small large e e') result result'

theorem ScansAgree.prepend {action : Action (List Item × Scan)}
    (h : ScansAgree small large (action e) (action e')) (items : List Item) :
    ScansAgree small large ((do let (more, scan) ← action; return (items ++ more, scan)) e)
      ((do let (more, scan) ← action; return (items ++ more, scan)) e') := by
  rcases h with hfull | hsame
  · exact .inl (hfull.prepend items)
  · refine .inr (hsame.bind ?_)
    rintro a _ e₁ e₁' - ⟨rfl, halike⟩
    exact .answer ⟨rfl, halike⟩

theorem Alike.takePages (h : Alike small large e e') (count : Nat) (nextPage : UInt32) :
    ScansAgree small large (Scan.takePages stop file txn count nextPage e)
      (Scan.takePages stop file txn count nextPage e') := by
  induction count generalizing nextPage e e' with
  | zero => exact .inr (.answer ⟨rfl, h⟩)
  | succ count ih =>
      have hgo : ∀ cuts {e₁ e₁'}, Alike small large e₁ e₁' →
          ScansAgree small large (Scan.goOn stop file txn count nextPage cuts e₁)
            (Scan.goOn stop file txn count nextPage cuts e₁') := by
        rintro ⟨items, _ | rest⟩ e₁ e₁' halike
        · exact (ih halike (nextPage + 1)).prepend items
        · exact .inr (.answer ⟨rfl, halike⟩)
      have hget := h.getPage txn ⟨file.id, nextPage⟩ .read
      rw [takePages_succ, takePages_succ]
      generalize hresult : Engine.getPage txn ⟨file.id, nextPage⟩ .read e = result at hget
      generalize Engine.getPage txn ⟨file.id, nextPage⟩ .read e' = result' at hget
      cases hget with
      | answer hgot =>
          dsimp only
          rw [hgot.same]
          exact hgo _ hgot.alike
      | @failure failure e₁ e₁' halike =>
          cases failure with
          | error cause => exact hgo _ halike
          | violation cause => exact .inr (.failure halike)
      | excused hfull =>
          -- What the larger pool does from here on does not matter any more.
          obtain rfl := hfull
          have hcrowded := h.coherent.crowded_of_full hresult
          refine .inl (hcrowded.showsFull ?_ count nextPage)
          simp only [cut]
          split <;> exact List.mem_singleton_self _

theorem Alike.takeUntil (h : Alike small large e e') (stop : Item → Bool) (scan : Scan) :
    ScansAgree small large (scan.takeUntil stop e) (scan.takeUntil stop e') := by
  unfold Scan.takeUntil
  generalize cut stop (scan.pending.map .ok) = cuts
  obtain ⟨items, _ | rest⟩ := cuts
  · dsimp only
    rw [bind_apply, bind_apply, pageCount_apply, pageCount_apply,
      HeapFile.pageCount_congr h.files]
    cases scan.file.pageCount e.disk with
    | error failure => exact .inr (.failure h)
    | ok count => exact (h.takePages _ _).prepend items
  · exact .inr (.answer ⟨rfl, h⟩)

end

/-! ## What is seen of a run -/

/-- The answer without the number of the copy that it shows. -/
def Answer.plain : Answer → Answer
  | .frame shown => .frame { shown with copy := 0 }
  | answer => answer

/-- What is seen of a call. -/
structure Observation where
  outcome : Except Failure Answer
  locks : LockTable
  bytes : String → Option Bytes
  log : LogSink

/-- Whether the pool is reported to be full. For a scan this is one of the
items. -/
def Observation.reportsFull (observation : Observation) : Bool :=
  match observation.outcome with
  | .error failure => failure = .error .bufferPoolFull
  | .ok (.items items _) => items.any fun
    | .error .bufferPoolFull => true
    | _ => false
  | .ok _ => false

namespace Call

def outcome (call : Call) (e : Engine) : Except Failure Answer :=
  match call.run e with
  | .ok answer _ => .ok answer.plain
  | .error failure _ => .error failure

def observe (call : Call) (e : Engine) : Observation :=
  { outcome := call.outcome e
    locks := (call.after e).pool.locks
    bytes := (call.after e).disk.content?
    log := (call.after e).log }

/-- What is seen of a run, call by call. -/
def observations : List Call → Engine → List Observation
  | [], _ => []
  | call :: calls, e => call.observe e :: observations calls (call.after e)

end Call

/-! ## One call -/

section

variable {small large : Nat} {e e' : Engine}

/-- The answers look the same. -/
def SameAnswer (small large : Nat) (a a' : Answer) (e e' : Engine) : Prop :=
  a'.plain = a.plain ∧ Alike small large e e'

theorem Lockstep.answer_map {α : Type} {excused : Failure → Prop} {action : Action α}
    {answered : α → α → Engine → Engine → Prop} {f : α → Answer}
    (h : Lockstep small large excused answered (action e) (action e'))
    (hexcused : ∀ failure, excused failure → IsFull failure)
    (hanswered : ∀ a a' e₁ e₁', answered a a' e₁ e₁' → SameAnswer small large (f a) (f a') e₁ e₁') :
    Lockstep small large IsFull (SameAnswer small large) ((f <$> action) e)
      ((f <$> action) e') := by
  rw [map_apply, map_apply]
  generalize action e = result at h
  generalize action e' = result' at h
  cases h with
  | answer h => exact .answer (hanswered _ _ _ _ h)
  | failure h => exact .failure h
  | excused h => exact .excused (hexcused _ h)

theorem ShowsFull.reportsFull {stop : Item → Bool} {source : Scan}
    (h : ShowsFull (source.takeUntil stop e)) :
    ((Call.scan stop source).observe e).reportsFull = true := by
  obtain ⟨items, rest, e₁, hresult, hmem⟩ := h
  simp only [Call.observe, Call.outcome, Call.run, map_apply, hresult, Answer.plain,
    Observation.reportsFull]
  exact List.any_eq_true.2 ⟨_, hmem, rfl⟩

/-- A call on two engines, of which the first one has room for it. -/
theorem Alike.run (h : Alike small large e e') (call : Call)
    (hcall : ∀ latched, call ≠ .evict latched) (hwithin : Within e (call.after e))
    (hroom : (call.observe e).reportsFull = false) :
    Lockstep small large IsFull (SameAnswer small large) (call.run e) (call.run e') := by
  have hfull : ∀ failure, IsFull failure → IsFull failure := fun _ h => h
  have hnever : ∀ failure, Unexcused failure → IsFull failure := fun _ h => h.elim
  cases call with
  | getPage txn page access =>
      refine (h.getPage txn page access).answer_map hfull ?_
      rintro frame frame' e₁ e₁' hgot
      exact ⟨by simp only [Answer.plain, hgot.same], hgot.alike⟩
  | evict latched => exact absurd rfl (hcall latched)
  | insert txn table tuple =>
      rw [Call.after, Call.run, after_map] at hwithin
      refine (h.insert txn table tuple hwithin).answer_map hfull ?_
      rintro tuple _ e₁ e₁' ⟨rfl, halike⟩
      exact ⟨rfl, halike⟩
  | delete txn record =>
      exact (h.delete txn record).answer_map hfull fun _ _ _ _ halike => ⟨rfl, halike⟩
  | scan stop source =>
      rcases h.takeUntil stop source with hshows | hsame
      · rw [hshows.reportsFull] at hroom
        cases hroom
      · refine hsame.answer_map hnever ?_
        rintro items _ e₁ e₁' ⟨rfl, halike⟩
        exact ⟨rfl, halike⟩
  | commit txn =>
      exact (h.commit txn).answer_map hnever fun _ _ _ _ halike => ⟨rfl, halike⟩
  | abort txn =>
      exact (h.abort txn).answer_map hnever fun _ _ _ _ halike => ⟨rfl, halike⟩
  | flushPage page =>
      exact (h.writeBack page).answer_map hnever fun _ _ _ _ halike => ⟨rfl, halike⟩
  | flushPages txn =>
      exact (h.flushPages txn).answer_map hnever fun _ _ _ _ halike => ⟨rfl, halike⟩
  | flushAll => exact h.flushAll.answer_map hnever fun _ _ _ _ halike => ⟨rfl, halike⟩
  | discard page => exact .answer ⟨rfl, h.discard page⟩
  | release txn page => exact .answer ⟨rfl, h.release txn page⟩

theorem Alike.observe (h : Alike small large e e') (call : Call)
    (hcall : ∀ latched, call ≠ .evict latched) (hwithin : Within e (call.after e))
    (hroom : (call.observe e).reportsFull = false) :
    call.observe e' = call.observe e ∧ Alike small large (call.after e) (call.after e') := by
  have hrun := h.run call hcall hwithin hroom
  have hseen : ∀ {e₁ e₁'}, Alike small large e₁ e₁' → e₁'.pool.locks = e₁.pool.locks
      ∧ e₁'.disk.content? = e₁.disk.content? ∧ e₁'.log = e₁.log := by
    intro e₁ e₁' halike
    refine ⟨halike.locks, funext fun name => ?_, halike.log⟩
    rw [Disk.content?, Disk.content?, halike.files]
  simp only [Call.observe, Call.outcome, Call.after, Action.after, Observation.reportsFull]
    at hroom ⊢
  generalize call.run e = result at hrun hroom
  generalize call.run e' = result' at hrun
  cases hrun with
  | answer hanswer =>
      obtain ⟨hplain, halike⟩ := hanswer
      obtain ⟨hlocks, hbytes, hlog⟩ := hseen halike
      exact ⟨by simp only [hplain, hlocks, hbytes, hlog], halike⟩
  | failure halike =>
      obtain ⟨hlocks, hbytes, hlog⟩ := hseen halike
      exact ⟨by simp only [hlocks, hbytes, hlog], halike⟩
  | excused hfull =>
      obtain rfl := hfull
      simp at hroom

/-! ## A run -/

theorem Alike.observations (h : Alike small large e e') (calls : List Call)
    (hcalls : ∀ call ∈ calls, ∀ latched, call ≠ .evict latched)
    (hwithin : Within e (Call.afterAll calls e))
    (hroom : ∀ seen ∈ Call.observations calls e, seen.reportsFull = false) :
    Call.observations calls e' = Call.observations calls e := by
  induction calls generalizing e e' with
  | nil => rfl
  | cons call calls ih =>
      have hfirst := (Call.grows_all calls (call.after e)).within_left hwithin
      obtain ⟨hseen, halike⟩ := h.observe call (hcalls call List.mem_cons_self) hfirst
        (hroom _ List.mem_cons_self)
      have hrest := ih halike (fun call hmem => hcalls call (List.mem_cons_of_mem _ hmem))
        ((call.grows e).within_right hwithin)
        fun seen hmem => hroom seen (List.mem_cons_of_mem _ hmem)
      rw [Call.observations, Call.observations, hseen, hrest]

theorem Pool.changed_empty (capacity : Nat) : (Pool.empty capacity).changed = [] := by
  refine List.eq_nil_iff_forall_not_mem.2 ?_
  rintro ⟨page, x⟩ hmem
  obtain ⟨frame, hpeek, -⟩ := mem_changed.1 hmem
  rw [Pool.peek_empty] at hpeek
  cases hpeek

theorem Alike.of_empty (hle : small ≤ large) (hreg : e.catalog.Registered)
    (hstart : e.pool = .empty small) : Alike small large e { e with pool := .empty large } := by
  refine ⟨hle, ?_, hreg, .of_empty hstart, .of_empty rfl⟩
  simp only [Engine.face, hstart, Pool.changed_empty]
  rfl

end

/-- Any calls but for evictions, on an empty pool over registered files, none of
which outgrows its page numbers: as long as no call reports that the pool is
full, a pool with more room is observed to do the same, and is not full
either. -/
theorem cache_transparency {small large : Nat} {start : Engine} (hle : small ≤ large)
    (hreg : start.catalog.Registered) (hstart : start.pool = .empty small) (calls : List Call)
    (hcalls : ∀ call ∈ calls, ∀ latched, call ≠ .evict latched)
    (hwithin : Within start (Call.afterAll calls start))
    (hroom : ∀ seen ∈ Call.observations calls start, seen.reportsFull = false) :
    Call.observations calls { start with pool := .empty large } = Call.observations calls start ∧
      ∀ seen ∈ Call.observations calls { start with pool := .empty large },
        seen.reportsFull = false := by
  have hsame := (Alike.of_empty hle hreg hstart).observations calls hcalls hwithin hroom
  refine ⟨hsame, ?_⟩
  rw [hsame]
  exact hroom

/-- Two tables in turn, with room for a page of one of them only. -/
def Call.inTurn : List Call :=
  [.insert ⟨1⟩ ⟨0⟩ (.single 7), .commit ⟨1⟩, .insert ⟨2⟩ ⟨1⟩ (.single 8), .commit ⟨2⟩,
    .getPage ⟨3⟩ ⟨⟨0⟩, 0⟩ .read, .scan (fun _ => false) (.start (.pairs 1 "b") ⟨3⟩)]

theorem cache_transparency_inTurn :
    Call.observations Call.inTurn (.twoTables 2 .none)
        = Call.observations Call.inTurn (.twoTables 1 .none) ∧
      (Call.afterAll Call.inTurn (.twoTables 1 .none)).pool.cache.contains ⟨⟨0⟩, 0⟩ = false ∧
      (Call.afterAll Call.inTurn (.twoTables 2 .none)).pool.cache.contains ⟨⟨0⟩, 0⟩ = true := by
  have hcalls : ∀ call ∈ Call.inTurn, ∀ latched, call ≠ .evict latched := by
    intro call hmem latched heq
    subst heq
    simp [Call.inTurn] at hmem
  have hwithin : Within (.twoTables 1 .none) (Call.afterAll Call.inTurn (.twoTables 1 .none)) := by
    intro id file hfile _
    rcases file_twoTables hfile with ⟨rfl, rfl⟩ | ⟨rfl, rfl⟩ <;> decide +kernel
  have hroom : ∀ seen ∈ Call.observations Call.inTurn (.twoTables 1 .none),
      seen.reportsFull = false := by decide +kernel
  have hle : 1 ≤ 2 := by decide
  obtain ⟨hsame, -⟩ := cache_transparency hle (registered_twoTables 1 .none) rfl Call.inTurn hcalls
    hwithin hroom
  exact ⟨hsame, by decide +kernel, by decide +kernel⟩

end HeapStore
