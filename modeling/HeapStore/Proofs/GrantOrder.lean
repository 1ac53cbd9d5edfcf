import HeapStore.Proofs.SharedLocks

/-!
# The order of granting

Requests that can all be granted one after the other can be granted in any
other order, and lead to the same locks: whichever of several waiters wakes
first, the table they leave is the same.

What a transaction holds in the end is the strongest of what it had and what it
asked for (`LockTable.wanted?`), and the strongest of several modes does not
depend on their order. On the way locks only grow, so whatever a request meets,
in whatever order, is no stronger than what is held in the end. The final locks
do not conflict, hence no two locks on the way do.

Headline: `granted_in_every_order`.
-/

namespace HeapStore

/-! ## Stronger and weaker modes -/

namespace LockMode

variable {a b c : LockMode}

theorem stronger_comm (a b : LockMode) : a.stronger b = b.stronger a := by
  cases a <;> cases b <;> rfl

theorem stronger_assoc (a b c : LockMode) :
    (a.stronger b).stronger c = a.stronger (b.stronger c) := by
  cases a <;> rfl

instance : Std.Commutative stronger := ⟨stronger_comm⟩

instance : Std.Associative stronger := ⟨stronger_assoc⟩

instance : LE LockMode := ⟨fun a b => a.stronger b = b⟩

theorem le_refl (a : LockMode) : a ≤ a := by
  cases a <;> rfl

theorem le_trans (hab : a ≤ b) (hbc : b ≤ c) : a ≤ c := by
  change a.stronger b = b at hab
  change b.stronger c = c at hbc
  change a.stronger c = c
  rw [← hbc, ← stronger_assoc, hab]

theorem le_stronger_left (a b : LockMode) : a ≤ a.stronger b := by
  cases a <;> cases b <;> rfl

theorem le_stronger_right (a b : LockMode) : b ≤ a.stronger b := by
  cases a <;> cases b <;> rfl

theorem eq_shared_of_le (h : a ≤ shared) : a = shared := by
  cases a with
  | shared => rfl
  | exclusive => cases h

theorem compatible_iff : a.compatible b = true ↔ a = shared ∧ b = shared := by
  cases a <;> cases b <;> simp [compatible]

/-- Modes weaker than compatible ones are compatible. -/
theorem compatible_of_le {a' b' : LockMode} (ha : a ≤ a') (hb : b ≤ b')
    (h : a'.compatible b' = true) : a.compatible b = true := by
  obtain ⟨rfl, rfl⟩ := compatible_iff.1 h
  exact compatible_iff.2 ⟨eq_shared_of_le ha, eq_shared_of_le hb⟩

end LockMode

/-- Two transactions on one page have compatible locks. -/
theorem Holders.compatible {grants : List Grant} {txn other : TxnId} {mode held : LockMode}
    (h : Holders grants) (hmode : ⟨txn, mode⟩ ∈ grants) (hheld : ⟨other, held⟩ ∈ grants)
    (hne : other ≠ txn) : held.compatible mode = true := by
  cases h with
  | nobody => cases hmode
  | writer owner =>
      cases List.mem_singleton.1 hmode
      cases List.mem_singleton.1 hheld
      exact absurd rfl hne
  | readers _ hshared _ =>
      exact LockMode.compatible_iff.2 ⟨hshared _ hheld, hshared _ hmode⟩

/-! ## What is held after all requests -/

/-- The mode that a request asks for, if it is about this lock. -/
def LockRequest.modeFor? (request : LockRequest) (txn : TxnId) (page : PageId) : Option LockMode :=
  if txn = request.txn ∧ page = request.page then some request.mode else none

namespace LockTable

/-- The table after every request was granted in turn, or nothing when one of
them cannot be. -/
def acquireAll? (table : LockTable) (requests : List LockRequest) : Option LockTable :=
  requests.foldlM (fun table request => table.acquire? request.txn request.page request.mode) table

/-- The strongest of the mode that `txn` has on `page` and those asked for. -/
def wanted? (table : LockTable) (requests : List LockRequest) (txn : TxnId) (page : PageId) :
    Option LockMode :=
  (requests.map (·.modeFor? txn page)).foldl (Option.merge .stronger) (table.mode? txn page)

/-- No two transactions hold a page in conflicting modes. -/
def Harmonious (modes : TxnId → PageId → Option LockMode) : Prop :=
  ∀ txn other page mode held, other ≠ txn → modes txn page = some mode →
    modes other page = some held → held.compatible mode = true

variable {table table' : LockTable} {request : LockRequest} {requests order : List LockRequest}
  {txn : TxnId} {page : PageId} {mode : LockMode}

theorem acquireAll?_cons : table.acquireAll? (request :: requests)
    = (table.acquire? request.txn request.page request.mode).bind (·.acquireAll? requests) :=
  rfl

theorem wanted?_perm (horder : order.Perm requests) (txn : TxnId) (page : PageId) :
    table.wanted? order txn page = table.wanted? requests txn page :=
  (horder.map _).foldl_eq _

theorem exists_foldl_merge (asked : List (Option LockMode)) (mode : LockMode) :
    ∃ mode', asked.foldl (Option.merge .stronger) (some mode) = some mode' ∧ mode ≤ mode' := by
  induction asked generalizing mode with
  | nil => exact ⟨mode, rfl, LockMode.le_refl mode⟩
  | cons first asked ih =>
      cases first with
      | none => exact ih mode
      | some more =>
          obtain ⟨mode', hfold, hle⟩ := ih (mode.stronger more)
          exact ⟨mode', hfold, LockMode.le_trans (LockMode.le_stronger_left mode more) hle⟩

/-- What a transaction has is part of what it wants. -/
theorem exists_wanted?_of_mode? (requests : List LockRequest)
    (hmode : table.mode? txn page = some mode) :
    ∃ mode', table.wanted? requests txn page = some mode' ∧ mode ≤ mode' := by
  rw [wanted?, hmode]
  exact exists_foldl_merge _ mode

/-- What a transaction asks for is part of what it wants. -/
theorem exists_wanted?_of_request (table : LockTable) (request : LockRequest)
    (requests : List LockRequest) :
    ∃ mode', table.wanted? (request :: requests) request.txn request.page = some mode' ∧
      request.mode ≤ mode' := by
  rw [wanted?, List.map_cons, List.foldl_cons, LockRequest.modeFor?, if_pos ⟨rfl, rfl⟩]
  cases hmode : table.mode? request.txn request.page with
  | none => exact exists_foldl_merge _ request.mode
  | some had =>
      obtain ⟨mode', hfold, hle⟩ := exists_foldl_merge
        (requests.map (·.modeFor? request.txn request.page)) (had.stronger request.mode)
      exact ⟨mode', hfold, LockMode.le_trans (LockMode.le_stronger_right had request.mode) hle⟩

/-- Requests that are all granted leave nobody waiting. -/
theorem grantWaiting_of_acquireAll? (hgranted : table.acquireAll? requests = some table') :
    table.grantWaiting requests = (table', []) := by
  induction requests generalizing table with
  | nil =>
      cases hgranted
      rfl
  | cons request requests ih =>
      rw [acquireAll?_cons] at hgranted
      obtain ⟨table₁, hacquire, hrest⟩ := Option.bind_eq_some_iff.1 hgranted
      rw [grantWaiting, hacquire]
      exact ih hrest

namespace Proper

/-- A granted request counts as had instead of asked for. -/
theorem wanted?_acquire? (h : table.Proper)
    (hacquire : table.acquire? request.txn request.page request.mode = some table') :
    table'.wanted? requests = table.wanted? (request :: requests) := by
  funext txn page
  rw [LockTable.wanted?, LockTable.wanted?, List.map_cons, List.foldl_cons,
    h.mode?_acquire? hacquire, LockRequest.modeFor?]
  split
  · rename_i hlock
    obtain ⟨rfl, rfl⟩ := hlock
    cases table.mode? request.txn request.page <;> rfl
  · cases table.mode? txn page <;> rfl

theorem harmonious (h : table.Proper) : Harmonious table.mode? := by
  intro txn other page mode held hne hmode hheld
  rw [h.mode?_eq_some_iff] at hmode hheld
  exact (h.holders page).compatible hmode hheld hne

/-- Granting gives everybody what it wants. -/
theorem acquireAll? (h : table.Proper) (hgranted : table.acquireAll? requests = some table') :
    table'.Proper ∧ table'.mode? = table.wanted? requests := by
  induction requests generalizing table with
  | nil =>
      cases hgranted
      exact ⟨h, rfl⟩
  | cons request requests ih =>
      rw [acquireAll?_cons] at hgranted
      obtain ⟨table₁, hacquire, hrest⟩ := Option.bind_eq_some_iff.1 hgranted
      obtain ⟨hproper, hmodes⟩ := ih (h.acquire? hacquire) hrest
      exact ⟨hproper, hmodes.trans (h.wanted?_acquire? hacquire)⟩

/-- Requests can be granted in the order given if what is wanted in the end does
not conflict: a lock that a request meets on the way is part of what its holder
wants in the end. -/
theorem exists_acquireAll? (h : table.Proper) (hwanted : Harmonious (table.wanted? requests)) :
    ∃ table', table.acquireAll? requests = some table' := by
  induction requests generalizing table with
  | nil => exact ⟨table, rfl⟩
  | cons request requests ih =>
      have hadmits : table.Admits request.txn request.page request.mode := by
        intro other held hne hheld
        obtain ⟨mode', hmode', hle⟩ := exists_wanted?_of_request table request requests
        obtain ⟨held', hheld', hle'⟩ := exists_wanted?_of_mode? (request :: requests) hheld
        exact LockMode.compatible_of_le hle' hle
          (hwanted _ other request.page mode' held' hne hmode' hheld')
      obtain ⟨table₁, hacquire⟩ := Option.isSome_iff_exists.1 (h.acquire?_isSome_iff.2 hadmits)
      rw [← h.wanted?_acquire? hacquire] at hwanted
      obtain ⟨table', hrest⟩ := ih (h.acquire? hacquire) hwanted
      refine ⟨table', ?_⟩
      rw [acquireAll?_cons, hacquire]
      exact hrest

end Proper

end LockTable

/-- In every state that calls on an empty lock table lead to: requests that are
all granted in one order are all granted in every order, without anyone being
left to wait, and each transaction then holds each page in the same mode. -/
theorem granted_in_every_order (calls : List LockCall) {table table' : LockTable}
    (htable : table = LockCall.afterAll calls .empty) {requests order : List LockRequest}
    (horder : order.Perm requests) (hgranted : table.acquireAll? requests = some table') :
    ∃ table'', table.acquireAll? order = some table'' ∧
      table.grantWaiting order = (table'', []) ∧
      ∀ txn page, table''.mode? txn page = table'.mode? txn page := by
  have h : table.Proper := htable ▸ LockTable.Proper.empty.afterAll calls
  obtain ⟨hproper', hmodes'⟩ := h.acquireAll? hgranted
  have hsame : table.wanted? order = table.wanted? requests := by
    funext txn page
    exact LockTable.wanted?_perm horder txn page
  have hwanted : LockTable.Harmonious (table.wanted? order) := by
    rw [hsame, ← hmodes']
    exact hproper'.harmonious
  obtain ⟨table'', horder'⟩ := h.exists_acquireAll? hwanted
  refine ⟨table'', horder', LockTable.grantWaiting_of_acquireAll? horder', fun txn page => ?_⟩
  rw [(h.acquireAll? horder').2, hsame, ← hmodes']

/-- A transaction asks to share a page and then to have it for itself; another
one reads the next page. -/
def LockRequest.upgrade : List LockRequest :=
  [⟨⟨1⟩, ⟨⟨0⟩, 0⟩, .shared⟩, ⟨⟨2⟩, ⟨⟨0⟩, 1⟩, .shared⟩, ⟨⟨1⟩, ⟨⟨0⟩, 0⟩, .exclusive⟩]

theorem granted_in_every_order_upgrade :
    ∃ table, (LockCall.afterAll [.acquire ⟨1⟩ ⟨⟨0⟩, 0⟩ .shared] .empty).acquireAll?
        LockRequest.upgrade.reverse = some table ∧
      table.mode? ⟨1⟩ ⟨⟨0⟩, 0⟩ = some .exclusive := by
  have hmode : ((LockCall.afterAll [.acquire ⟨1⟩ ⟨⟨0⟩, 0⟩ .shared] .empty).acquireAll?
      LockRequest.upgrade).map (·.mode? ⟨1⟩ ⟨⟨0⟩, 0⟩) = some (some .exclusive) := by
    decide +kernel
  obtain ⟨table', hgranted, hmode'⟩ := Option.map_eq_some_iff.1 hmode
  obtain ⟨table, horder, -, hmodes⟩ :=
    granted_in_every_order _ rfl (List.reverse_perm _) hgranted
  exact ⟨table, horder, (hmodes _ _).trans hmode'⟩

end HeapStore
