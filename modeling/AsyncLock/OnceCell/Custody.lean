import AsyncLock.OnceCell.Agreement

/-! # Where the values are

A history of a once cell with what has become of the values: handed in by a caller or produced
by a closure, handed back, dropped. The cell keeps its value beside the state word only, so that
a write, `take` and the drop of the cell each trust the state to say whether there is one.
-/
namespace AsyncLock.OnceCell
set_option autoImplicit false

open Interleaving

variable {α : Type*}

/-- What `set` or `try_set` returns. -/
inductive Result (α : Type*) where
  | ok
  | err (value : α)
deriving DecidableEq

/-- The value handed in with a call. -/
def Call.value : Call α → Option α
  | initAs _ (.given value) | trySet value => some value
  | _ => none

namespace Object

/-- The value that a `set` or `try_set` has not stored. -/
def pending : Object α → Option α
  | init _ (.given _) (.write _ value) => some value
  | init _ (.given _) (.store _) | init _ (.given _) (.notifyActive _) => none
  | init _ (.given _) (.notifyPassive _) | init _ (.given _) (.finish _ true) => none
  | init _ (.given _) (.read true) | init _ (.given _) .readSet => none
  | init _ (.given value) _ => some value
  | trySet (.exchange value) | trySet (.write value) => some value
  | _ => none

/-- A `set` or `try_set` that has stored its value. -/
def kept : Object α → Bool
  | init _ (.given _) (.store _) | init _ (.given _) (.notifyActive _) => true
  | init _ (.given _) (.notifyPassive _) | init _ (.given _) (.finish _ true) => true
  | init _ (.given _) (.read true) | init _ (.given _) .readSet => true
  | trySet .store | trySet .notifyActive | trySet .notifyPassive => true
  | _ => false

/-- The values that a call or a future holds. -/
def held : Object α → List α
  | init _ (.closure _) (.write _ value) => [value]
  | o => o.pending.toList

/-- The value that a closure returns with the action. -/
def produced (c : Choice α) : Object α → List α
  | init _ (.closure _) (.run _) =>
    match c with
    | .succeed value => [value]
    | _ => []
  | _ => []

/-- The value that the action moves into the slot. -/
def written : Object α → Option α
  | init _ _ (.write _ value) | trySet (.write value) => some value
  | _ => none

/-- What the action returns from `set` or `try_set`. -/
def result (s : OnceCell α) : Object α → Option (Result α)
  | init _ (.given _) .readSet => some .ok
  | init _ (.given value) (.read false) => some (.err value)
  | trySet (.exchange value) => if s.state = .uninitialized then none else some (.err value)
  | trySet .notifyPassive => some .ok
  | _ => none

/-- The values that go with a future or a call that ends without a result. -/
def discarded (c : Choice α) : Object α → List α
  | init _ (.given value) .check | init _ (.given value) .wait =>
    match c with
    | .drop => [value]
    | _ => []
  | init _ (.given value) (.leave _) => [value]
  | _ => []

end Object

def Result.handedBack : Option (Result α) → List α
  | some (.err value) => [value]
  | _ => []

/-- `take`: what it returns. -/
def taken (s : OnceCell α) : Option α := if s.state = .initialized then s.value else none

/-- `drop` of the cell: the value that `drop_in_place` destroys. -/
def dropInPlace (s : OnceCell α) : OnceCell α × Option α :=
  if s.state = .initialized then ({ s with value := none }, s.value) else (s, none)

/-- A cell and the values of its history. A store and a result are listed with the position of
the call; `live` is false once the cell has been dropped or consumed. -/
structure Custody (α : Type*) where
  cell : State (OnceCell α) (Object α)
  live : Bool
  given : List α
  returned : List α
  dropped : List α
  calls : List (Nat × α)
  stores : List (Nat × α)
  sinceTake : List (Nat × α)
  results : List (Nat × Result α)
deriving DecidableEq

inductive Deed (α : Type*) where
  | action (a : Action (Call α) (Choice α))
  | access (a : Access α)
  | intoInner
  | dropCell
deriving DecidableEq

namespace Custody

def new : Custody α := ⟨⟨OnceCell.new, []⟩, true, [], [], [], [], [], [], []⟩

def fromValue (value : α) : Custody α :=
  ⟨⟨OnceCell.fromValue value, []⟩, true, [value], [], [], [], [], [], []⟩

/-- Nothing borrows the cell. -/
def Free (h : Custody α) : Prop := ∀ o ∈ h.cell.pool, o.borrows = false

instance (h : Custody α) : Decidable h.Free :=
  inferInstanceAs (Decidable (∀ o ∈ h.cell.pool, o.borrows = false))

def call (h : Custody α) (k : Call α) : Custody α :=
  { h with
    cell := ⟨h.cell.mem, h.cell.pool ++ [create h.cell.mem k]⟩
    given := h.given ++ k.value.toList
    calls := h.calls ++ k.value.toList.map fun v => (h.cell.pool.length, v) }

def act (p : Platform) (h : Custody α) (i : Nat) (c : Choice α) : Option (Custody α) :=
  (h.cell.pool[i]?).bind fun o => ((machine p).next h.cell (.act i c)).map fun cell =>
    { h with
      cell := cell
      given := h.given ++ o.produced c
      returned := h.returned ++ Result.handedBack (o.result h.cell.mem)
      dropped := h.dropped ++ o.discarded c
      stores := h.stores ++ o.written.toList.map fun v => (i, v)
      sinceTake := h.sinceTake ++ o.written.toList.map fun v => (i, v)
      results := h.results ++ (o.result h.cell.mem).toList.map fun r => (i, r) }

def take (h : Custody α) : Custody α :=
  { h with
    cell := ⟨h.cell.mem.access .take, h.cell.pool⟩
    returned := h.returned ++ h.cell.mem.taken.toList
    sinceTake := [] }

def getMut (h : Custody α) (value : α) : Custody α :=
  if h.cell.mem.state = .initialized then
    { h with
      cell := ⟨h.cell.mem.access (.getMut value), h.cell.pool⟩
      given := h.given ++ [value]
      dropped := h.dropped ++ h.cell.mem.value.toList }
  else h

def drop (h : Custody α) : Custody α :=
  { h with
    cell := ⟨h.cell.mem.dropInPlace.1, h.cell.pool⟩
    live := false
    dropped := h.dropped ++ h.cell.mem.dropInPlace.2.toList }

def next (p : Platform) (h : Custody α) : Deed α → Option (Custody α)
  | .action (.call k) => if h.live then some (h.call k) else none
  | .action (.act i c) => if h.live then h.act p i c else none
  | .access (.getMut value) => if h.live ∧ h.Free then some (h.getMut value) else none
  | .access .take => if h.live ∧ h.Free then some h.take else none
  | .intoInner => if h.live ∧ h.Free then some h.take.drop else none
  | .dropCell => if h.live ∧ h.Free then some h.drop else none

def run (p : Platform) : Custody α → List (Deed α) → Option (Custody α)
  | h, [] => some h
  | h, d :: rest => (h.next p d).bind fun h' => h'.run p rest

/-! ## The places of a value -/

/-- With a caller or its future, also while it has written the slot and not the state. -/
def withCallers (h : Custody α) : List α :=
  h.cell.pool.flatMap Object.held ++
    if h.cell.mem.state = .initialized then [] else h.cell.mem.value.toList

/-- In the cell, whose state is then `Initialized`. -/
def inCell (h : Custody α) : List α :=
  if h.cell.mem.state = .initialized then h.cell.mem.value.toList else []

end Custody

/-! ## One step -/

variable {p : Platform} {i : Nat} {c : Choice α} {s s' : OnceCell α} {o o' : Object α}
  {new : List (Object α)}

/-- A dropped future goes nowhere but out. -/
theorem step_dropped {blocking : Bool} {init : Init α} {at_ : InitPoint α}
    (h : step p i .drop s (.init blocking init at_) = some (s', o', new))
    (hAt : at_ = .check ∨ at_ = .wait) : o' = .gone := by
  rcases hAt with rfl | rfl <;>
  · simp only [step, stepInit] at h
    split at h <;> cases h
    rfl

theorem step_run {blocking listener : Bool} {init : Init α}
    (h : step p i c s (.init blocking init (.run listener)) = some (s', o', new)) :
    s' = s ∧ ∃ at_, stepRun c blocking listener init = some at_ ∧ o' = .init blocking init at_ := by
  obtain ⟨r, hStep, hEq⟩ := Option.map_eq_some_iff.mp h
  cases hEq
  obtain ⟨at_, hRun, hEq⟩ := Option.map_eq_some_iff.mp hStep
  cases hEq
  exact ⟨rfl, at_, hRun, rfl⟩

theorem step_trySetLose {value : α}
    (h : step p i c s (.trySet (.exchange value)) = some (s', .gone, new)) :
    s.state ≠ .uninitialized := by
  intro hFree
  simp [step, stepTrySet, begin, hFree] at h

section Values

attribute [local simp] Object.held Object.pending Object.produced Object.result Object.discarded
  Result.handedBack

theorem run_values {blocking listener : Bool} {init : Init α} {at_ : InitPoint α}
    (h : stepRun c blocking listener init = some at_) (s : OnceCell α) :
    (Object.produced c (.init blocking init (.run listener)) ++
      (Object.held (.init blocking init (.run listener)) ++ s.value.toList)).Perm
    (Object.held (.init blocking init at_) ++ s.value.toList) := by
  cases init with
  | closure fallible =>
    cases c with
    | go => cases h
    | succeed value =>
      cases h
      exact .refl _
    | panic =>
      cases h
      exact .refl _
    | fail | drop =>
      simp only [stepRun] at h
      split at h <;> cases h
      exact .refl _
  | given value =>
    cases c <;> cases h
    exact .refl _

/-- No value comes into being or disappears in an action. -/
theorem step_values (h : step p i c s o = some (s', o', new))
    (hEmpty : o.claims = 1 → s.value = none) :
    (o.produced c ++ (o.held ++ s.value.toList)).Perm
      (o'.held ++ (Result.handedBack (o.result s) ++ (o.discarded c ++ s'.value.toList))) := by
  have hActs := (step_acts h).1
  cases hActs with
  | initSucceed _ _ init | initFail _ _ init =>
    obtain ⟨_, at_, hRun, hEq⟩ := step_run h
    rw [hEq]
    have hValues := run_values hRun s
    cases init <;> simpa using hValues
  | initFast _ _ init | initSlow _ _ init =>
    cases init with
    | closure => simp
    | given value =>
      cases c with
      | drop => cases step_dropped h (.inl rfl)
      | _ => simp
  | initConsume _ _ init =>
    cases init with
    | closure => simp
    | given value =>
      cases c with
      | drop => cases step_dropped h (.inr rfl)
      | _ => simp
  | initWrite _ _ init _ value =>
    have hNone := hEmpty rfl
    cases init <;> simp [hNone]
  | trySetWrite _ value =>
    have hNone := hEmpty rfl
    simp [hNone]
  | trySetBegin _ _ hFree => simp [hFree]
  | trySetLose =>
    have hTaken := step_trySetLose h
    simp [hTaken]
  | initFinish _ _ init _ ran => cases init <;> cases ran <;> simp
  | initUnpolled _ init | initCancel _ init => cases init <;> simp
  | initDone _ _ init | initWait _ _ init | initQueue _ _ init | initFree _ _ init
  | initListen _ _ init | initBegin _ _ init | initLose _ _ init | initStore _ _ init
  | initNotifyActive _ _ init | initNotifyPassive _ _ init | initDropGuard _ _ init
  | initNotifyNext _ _ init | initLeave _ _ init | setReturn _ _ init => cases init <;> simp
  | initRead _ _ _ ran => cases ran <;> simp
  | _ => simp

end Values

/-- A `set` or `try_set` keeps its value until the action that stores it or hands it back. -/
theorem step_pending (h : step p i c s o = some (s', o', new)) {v : α}
    (hPending : o'.pending = some v) : o.pending = some v ∧ o.written = none := by
  have hActs := (step_acts h).1
  cases hActs with
  | initSucceed _ _ init | initFail _ _ init =>
    obtain ⟨_, at_, hRun, hEq⟩ := step_run h
    rw [hEq] at hPending
    cases init with
    | closure => cases at_ <;> cases hPending
    | given value =>
      cases c <;> cases hRun
      exact ⟨hPending, rfl⟩
  | initFinish _ _ init _ ran => cases init <;> cases ran <;> exact ⟨hPending, rfl⟩
  | initFast _ _ init | initSlow _ _ init | initConsume _ _ init
  | initDone _ _ init | initWait _ _ init | initQueue _ _ init | initFree _ _ init
  | initListen _ _ init | initBegin _ _ init | initLose _ _ init | initStore _ _ init
  | initNotifyActive _ _ init | initNotifyPassive _ _ init | initDropGuard _ _ init
  | initNotifyNext _ _ init | initLeave _ _ init | initWrite _ _ init =>
    cases init <;> first | exact ⟨hPending, rfl⟩ | cases hPending
  | trySetBegin => exact ⟨hPending, rfl⟩
  | _ => cases hPending

theorem step_kept (h : step p i c s o = some (s', o', new)) (hKept : o'.kept = true) :
    o.kept = true ∨ ∃ v, o.pending = some v ∧ o.written = some v := by
  have hActs := (step_acts h).1
  cases hActs with
  | initSucceed _ _ init | initFail _ _ init =>
    obtain ⟨_, at_, hRun, hEq⟩ := step_run h
    rw [hEq] at hKept
    cases init with
    | closure => cases at_ <;> cases hKept
    | given value =>
      cases c <;> cases hRun
      cases hKept
  | initFinish _ _ init _ ran =>
    cases init <;> cases ran <;> first | exact .inl rfl | cases hKept
  | initWrite _ _ init _ value =>
    cases init with
    | closure => cases hKept
    | given => exact .inr ⟨value, rfl, rfl⟩
  | trySetWrite _ value => exact .inr ⟨value, rfl, rfl⟩
  | initFast _ _ init | initSlow _ _ init | initConsume _ _ init
  | initDone _ _ init | initWait _ _ init | initQueue _ _ init | initFree _ _ init
  | initListen _ _ init | initBegin _ _ init | initLose _ _ init | initStore _ _ init
  | initNotifyActive _ _ init | initNotifyPassive _ _ init | initDropGuard _ _ init
  | initNotifyNext _ _ init | initLeave _ _ init =>
    cases init <;> first | exact .inl rfl | cases hKept
  | trySetStore | trySetNotifyActive | setRead => exact .inl rfl
  | _ => cases hKept

/-- A call returns `Ok` after its store, and `Err` with the value that it still has. -/
theorem step_result (h : step p i c s o = some (s', o', new)) {r : Result α}
    (hResult : o.result s = some r) : o.written = none ∧
      ((r = .ok ∧ o.kept = true) ∨ ∃ v, r = .err v ∧ o.pending = some v ∧ o' = .gone) := by
  have hActs := (step_acts h).1
  cases hActs with
  | initSucceed _ _ init | initFail _ _ init | initFast _ _ init | initSlow _ _ init
  | initConsume _ _ init | initDone _ _ init | initWait _ _ init | initQueue _ _ init
  | initFree _ _ init | initListen _ _ init | initBegin _ _ init | initLose _ _ init
  | initStore _ _ init | initNotifyActive _ _ init | initNotifyPassive _ _ init
  | initDropGuard _ _ init | initNotifyNext _ _ init | initLeave _ _ init
  | initWrite _ _ init | initUnpolled _ init | initCancel _ init | initFinish _ _ init =>
    cases init <;> cases hResult
  | setRead => cases hResult
  | setLose _ _ value =>
    cases hResult
    exact ⟨rfl, .inr ⟨value, rfl, rfl, rfl⟩⟩
  | setReturn _ _ init =>
    cases init <;> cases hResult
    exact ⟨rfl, .inl ⟨rfl, rfl⟩⟩
  | trySetBegin _ _ hFree =>
    simp only [Object.result, if_pos hFree] at hResult
    cases hResult
  | trySetLose _ value =>
    simp only [Object.result, if_neg (step_trySetLose h)] at hResult
    cases hResult
    exact ⟨rfl, .inr ⟨value, rfl, rfl, rfl⟩⟩
  | trySetNotifyPassive =>
    cases hResult
    exact ⟨rfl, .inl ⟨rfl, rfl⟩⟩
  | _ => cases hResult

theorem step_written (h : step p i c s o = some (s', o', new)) :
    s'.value = if o.written.isSome then o.written else s.value := by
  have hActs := (step_acts h).1
  cases hActs with
  | initWrite | trySetWrite => rfl
  | initLeave | initFinish | initCancel | waitCancel | waitReturn => simp [Object.written]
  | _ => rfl

theorem claims_of_written {v : α} (h : o.written = some v) : o.claims = 1 := by
  cases o with
  | init blocking init at_ => cases at_ <;> first | rfl | cases h
  | trySet at_ => cases at_ <;> first | rfl | cases h
  | _ => cases h

/-! ## Every history -/

theorem mem_recorded {β : Type*} {past : List (Nat × β)} {i j : Nat} {entry : Option β} {v : β} :
    (j, v) ∈ past ++ entry.toList.map (fun v => (i, v)) ↔
      (j, v) ∈ past ∨ (entry = some v ∧ j = i) := by
  simp only [List.mem_append, List.mem_map, Option.mem_toList, Prod.mk.injEq]
  apply or_congr_right
  constructor
  · rintro ⟨_, hEntry, rfl, rfl⟩
    exact ⟨hEntry, rfl⟩
  · rintro ⟨hEntry, rfl⟩
    exact ⟨v, hEntry, rfl, rfl⟩

structure Kept (p : Platform) (h : Custody α) : Prop where
  life : h.live = true → Life p h.cell
  balance : h.given.Perm (h.cell.pool.flatMap Object.held ++
    (h.returned ++ (h.dropped ++ h.cell.mem.value.toList)))
  ended : h.live = false → h.Free ∧ h.cell.mem.value = none
  since_le : h.sinceTake.length ≤ 1
  since_empty : h.live = true → h.cell.mem.value = none → h.sinceTake = []
  placed : ∀ i v, (i, v) ∈ h.calls ∨ (i, v) ∈ h.stores → i < h.cell.pool.length
  unique : ∀ i v w, (i, v) ∈ h.calls → (i, w) ∈ h.calls → v = w
  pending : ∀ i o v, h.cell.pool[i]? = some o → o.pending = some v →
    (i, v) ∈ h.calls ∧ ∀ w, (i, w) ∉ h.stores
  kept : ∀ i o, h.cell.pool[i]? = some o → o.kept = true →
    ∃ v, (i, v) ∈ h.calls ∧ (i, v) ∈ h.stores
  results : ∀ i r, (i, r) ∈ h.results → ∃ v, (i, v) ∈ h.calls ∧
    ((r = .ok ∧ (i, v) ∈ h.stores) ∨
      (r = .err v ∧ (∀ w, (i, w) ∉ h.stores) ∧ h.cell.pool[i]? = some .gone))

/-- What an action of the object at a position leaves in the history. -/
structure Acted (p : Platform) (h h' : Custody α) (i : Nat) (c : Choice α) (o o' : Object α) :
    Prop where
  get : h.cell.pool[i]? = some o
  step : step p i c h.cell.mem o = some (h'.cell.mem, o', [])
  cell : (machine p).Step h.cell h'.cell
  pool : h'.cell.pool = h.cell.pool.set i o'
  live : h'.live = h.live
  given : h'.given = h.given ++ o.produced c
  returned : h'.returned = h.returned ++ Result.handedBack (o.result h.cell.mem)
  dropped : h'.dropped = h.dropped ++ o.discarded c
  calls : h'.calls = h.calls
  since : h'.sinceTake = h.sinceTake ++ o.written.toList.map fun v => (i, v)
  mem_stores : ∀ j v, (j, v) ∈ h'.stores ↔ (j, v) ∈ h.stores ∨ (o.written = some v ∧ j = i)
  mem_results : ∀ j r, (j, r) ∈ h'.results ↔
    (j, r) ∈ h.results ∨ (o.result h.cell.mem = some r ∧ j = i)

theorem acted_of_act {h h' : Custody α} (hAct : h.act p i c = some h') :
    ∃ o o', Acted p h h' i c o o' := by
  obtain ⟨o, hGet, hRest⟩ := Option.bind_eq_some_iff.mp hAct
  obtain ⟨cell, hNext, rfl⟩ := Option.map_eq_some_iff.mp hRest
  obtain ⟨mem, o', new, hStep, rfl⟩ := Machine.next_act_at hGet hNext
  change step p i c h.cell.mem o = some (mem, o', new) at hStep
  obtain ⟨_, rfl⟩ := step_acts hStep
  exact ⟨o, o', hGet, hStep, ⟨_, hNext⟩, List.append_nil _, rfl, rfl, rfl, rfl, rfl, rfl,
    fun _ _ => mem_recorded, fun _ _ => mem_recorded⟩

namespace Acted

variable {h h' : Custody α}

theorem get_cases (ha : Acted p h h' i c o o') {j : Nat} {q : Object α}
    (hq : h'.cell.pool[j]? = some q) : (j = i ∧ q = o') ∨ (j ≠ i ∧ h.cell.pool[j]? = some q) := by
  rw [ha.pool] at hq
  exact get_of_set hq

theorem not_stored (ha : Acted p h h' i c o o') {j : Nat} (hBefore : ∀ w, (j, w) ∉ h.stores)
    (hNot : j = i → o.written = none) (w : α) : (j, w) ∉ h'.stores := by
  intro hMem
  rcases (ha.mem_stores j w).mp hMem with hMem | ⟨hSome, hEq⟩
  · exact hBefore w hMem
  · rw [hNot hEq] at hSome
    cases hSome

theorem empty_of_claims (ha : Acted p h h' i c o o') (hk : Kept p h) (hLive : h.live = true)
    (hClaims : o.claims = 1) : h.cell.mem.value = none := by
  have hLedger := (sound_of_life (hk.life hLive)).ledger
  obtain ⟨others, hPool, _⟩ := exists_others ha.get
  rw [hPool Object.claims, hClaims] at hLedger
  exact hLedger.claims_state.2.2.2

theorem balance (ha : Acted p h h' i c o o') (hk : Kept p h) (hLive : h.live = true) :
    h'.given.Perm (h'.cell.pool.flatMap Object.held ++
      (h'.returned ++ (h'.dropped ++ h'.cell.mem.value.toList))) := by
  obtain ⟨others, hPool, hSet⟩ := exists_perm_others ha.get
  have hBalance := hk.balance
  have hValues := step_values ha.step (ha.empty_of_claims hk hLive)
  have hBefore := hPool.flatMap_right Object.held
  have hAfter := (hSet o').flatMap_right Object.held
  rw [ha.given, ha.returned, ha.dropped, ha.pool]
  classical
  rw [List.perm_iff_count] at hBalance hValues hBefore hAfter ⊢
  intro a
  have hBalance := hBalance a
  have hValues := hValues a
  have hBefore := hBefore a
  have hAfter := hAfter a
  simp only [List.flatMap_cons, List.count_append] at hBalance hValues hBefore hAfter ⊢
  omega

theorem since_le (ha : Acted p h h' i c o o') (hk : Kept p h) (hLive : h.live = true) :
    h'.sinceTake.length ≤ 1 := by
  have hLe := hk.since_le
  rw [ha.since]
  cases hValue : o.written with
  | none => simpa [hValue] using hLe
  | some v =>
    have hEmpty := ha.empty_of_claims hk hLive (claims_of_written hValue)
    simp [hk.since_empty hLive hEmpty]

theorem since_empty (ha : Acted p h h' i c o o') (hk : Kept p h) (hLive : h.live = true)
    (_ : h'.live = true) (hNone : h'.cell.mem.value = none) : h'.sinceTake = [] := by
  rw [step_written ha.step] at hNone
  rw [ha.since]
  cases hValue : o.written with
  | none =>
    rw [hValue] at hNone
    simpa [hValue] using hk.since_empty hLive hNone
  | some v =>
    rw [hValue] at hNone
    cases hNone

theorem pending (ha : Acted p h h' i c o o') (hk : Kept p h) (j : Nat) (q : Object α) (v : α)
    (hq : h'.cell.pool[j]? = some q) (hv : q.pending = some v) :
    (j, v) ∈ h'.calls ∧ ∀ w, (j, w) ∉ h'.stores := by
  rw [ha.calls]
  rcases ha.get_cases hq with ⟨rfl, rfl⟩ | ⟨hji, hOld⟩
  · obtain ⟨hBefore, hNot⟩ := step_pending ha.step hv
    obtain ⟨hCall, hStore⟩ := hk.pending j o v ha.get hBefore
    exact ⟨hCall, ha.not_stored hStore fun _ => hNot⟩
  · obtain ⟨hCall, hStore⟩ := hk.pending j q v hOld hv
    exact ⟨hCall, ha.not_stored hStore fun hEq => absurd hEq hji⟩

theorem kept (ha : Acted p h h' i c o o') (hk : Kept p h) (j : Nat) (q : Object α)
    (hq : h'.cell.pool[j]? = some q) (hKept : q.kept = true) :
    ∃ v, (j, v) ∈ h'.calls ∧ (j, v) ∈ h'.stores := by
  rw [ha.calls]
  rcases ha.get_cases hq with ⟨rfl, rfl⟩ | ⟨_, hOld⟩
  · rcases step_kept ha.step hKept with hBefore | ⟨v, hBefore, hValue⟩
    · obtain ⟨v, hCall, hStore⟩ := hk.kept j o ha.get hBefore
      exact ⟨v, hCall, (ha.mem_stores j v).mpr (.inl hStore)⟩
    · have hCall := (hk.pending j o v ha.get hBefore).1
      exact ⟨v, hCall, (ha.mem_stores j v).mpr (.inr ⟨hValue, rfl⟩)⟩
  · obtain ⟨v, hCall, hStore⟩ := hk.kept j q hOld hKept
    exact ⟨v, hCall, (ha.mem_stores j v).mpr (.inl hStore)⟩

theorem results (ha : Acted p h h' i c o o') (hk : Kept p h) (j : Nat) (r : Result α)
    (hMem : (j, r) ∈ h'.results) : ∃ v, (j, v) ∈ h'.calls ∧
      ((r = .ok ∧ (j, v) ∈ h'.stores) ∨
        (r = .err v ∧ (∀ w, (j, w) ∉ h'.stores) ∧ h'.cell.pool[j]? = some .gone)) := by
  rw [ha.calls, ha.pool]
  rcases (ha.mem_results j r).mp hMem with hMem | ⟨hr, rfl⟩
  · obtain ⟨v, hCall, hResult⟩ := hk.results j r hMem
    refine ⟨v, hCall, ?_⟩
    rcases hResult with ⟨rfl, hStore⟩ | ⟨rfl, hStore, hGone⟩
    · exact .inl ⟨rfl, (ha.mem_stores j v).mpr (.inl hStore)⟩
    · -- what is gone does not act
      have hji : j ≠ i := by
        rintro rfl
        have hStep := ha.step
        rw [ha.get] at hGone
        cases hGone
        cases hStep
      refine .inr ⟨rfl, ha.not_stored hStore fun hEq => absurd hEq hji, ?_⟩
      rw [List.getElem?_set_ne (Ne.symm hji), hGone]
  · obtain ⟨hNot, ⟨rfl, hKept⟩ | ⟨v, rfl, hPending, rfl⟩⟩ := step_result ha.step hr
    · obtain ⟨v, hCall, hStore⟩ := hk.kept j o ha.get hKept
      exact ⟨v, hCall, .inl ⟨rfl, (ha.mem_stores j v).mpr (.inl hStore)⟩⟩
    · obtain ⟨hCall, hStore⟩ := hk.pending j o v ha.get hPending
      obtain ⟨hi, _⟩ := List.getElem?_eq_some_iff.mp ha.get
      exact ⟨v, hCall, .inr ⟨rfl, ha.not_stored hStore fun _ => hNot, List.getElem?_set_self hi⟩⟩

end Acted

theorem create_values (m : OnceCell α) (k : Call α) :
    (create m k).pending = k.value ∧ (create m k).kept = false ∧
      (create m k).held = k.value.toList := by
  cases k with
  | initAs blocking init => cases init <;> exact ⟨rfl, rfl, rfl⟩
  | _ => exact ⟨rfl, rfl, rfl⟩

namespace Kept

variable {h h' : Custody α}

/-- Nobody has called or stored anything from a position that is not taken yet. -/
theorem fresh (hk : Kept p h) (v : α) :
    (h.cell.pool.length, v) ∉ h.calls ∧ (h.cell.pool.length, v) ∉ h.stores :=
  ⟨fun hMem => Nat.lt_irrefl _ (hk.placed _ v (.inl hMem)),
    fun hMem => Nat.lt_irrefl _ (hk.placed _ v (.inr hMem))⟩

theorem call (hk : Kept p h) (hLive : h.live = true) (k : Call α) : Kept p (h.call k) := by
  obtain ⟨hPending, hKept, hHeld⟩ := create_values h.cell.mem k
  have hCalls (i : Nat) (v : α) : (i, v) ∈ (h.call k).calls ↔
      (i, v) ∈ h.calls ∨ (k.value = some v ∧ i = h.cell.pool.length) := mem_recorded
  have hFresh := hk.fresh
  have hNever (hOver : h.live = false) : False := by simp [hLive] at hOver
  refine ⟨fun _ => .step (hk.life hLive) ⟨.call k, rfl⟩, ?_, fun hOver => (hNever hOver).elim,
    hk.since_le, hk.since_empty, ?_, ?_, ?_, ?_, ?_⟩
  · have hBalance := hk.balance
    classical
    rw [List.perm_iff_count] at hBalance ⊢
    intro a
    have := hBalance a
    simp only [Custody.call, List.flatMap_append, List.flatMap_cons, List.flatMap_nil, hHeld,
      List.count_append, List.append_nil] at this ⊢
    omega
  · intro i v hMem
    rw [hCalls] at hMem
    have hLength : (h.call k).cell.pool.length = h.cell.pool.length + 1 := by simp [Custody.call]
    rcases hMem with (hMem | ⟨_, rfl⟩) | hMem
    · have := hk.placed i v (.inl hMem)
      omega
    · omega
    · have := hk.placed i v (.inr hMem)
      omega
  · intro i v w hv hw
    rw [hCalls] at hv hw
    rcases hv with hv | ⟨hv, rfl⟩
    · rcases hw with hw | ⟨_, rfl⟩
      · exact hk.unique i v w hv hw
      · exact absurd hv (hFresh v).1
    · rcases hw with hw | ⟨hw, _⟩
      · exact absurd hw (hFresh w).1
      · exact Option.some.inj (hv.symm.trans hw)
  · intro i o v hGet hv
    rcases get_of_append hGet with hOld | ⟨rfl, rfl⟩
    · obtain ⟨hCall, hStore⟩ := hk.pending i o v hOld hv
      exact ⟨(hCalls i v).mpr (.inl hCall), hStore⟩
    · exact ⟨(hCalls _ v).mpr (.inr ⟨hPending ▸ hv, rfl⟩), fun w => (hFresh w).2⟩
  · intro i o hGet ho
    rcases get_of_append hGet with hOld | ⟨rfl, rfl⟩
    · obtain ⟨v, hCall, hStore⟩ := hk.kept i o hOld ho
      exact ⟨v, (hCalls i v).mpr (.inl hCall), hStore⟩
    · rw [hKept] at ho
      cases ho
  · intro i r hMem
    obtain ⟨v, hCall, hResult⟩ := hk.results i r hMem
    refine ⟨v, (hCalls i v).mpr (.inl hCall), hResult.imp_right fun hErr => ?_⟩
    obtain ⟨rfl, hStore, hGone⟩ := hErr
    refine ⟨rfl, hStore, ?_⟩
    change (h.cell.pool ++ [create h.cell.mem k])[i]? = some .gone
    rw [List.getElem?_append_left (List.getElem?_eq_some_iff.mp hGone).1, hGone]

theorem act (hk : Kept p h) (hLive : h.live = true) {i : Nat} {c : Choice α}
    (hAct : h.act p i c = some h') : Kept p h' := by
  obtain ⟨o, o', ha⟩ := acted_of_act hAct
  have hLength : h'.cell.pool.length = h.cell.pool.length := by rw [ha.pool, List.length_set]
  obtain ⟨hi, _⟩ := List.getElem?_eq_some_iff.mp ha.get
  refine ⟨fun _ => .step (hk.life hLive) ha.cell, ha.balance hk hLive, fun hOver => ?_,
    ha.since_le hk hLive, ha.since_empty hk hLive, ?_, ?_, ha.pending hk, ha.kept hk,
    ha.results hk⟩
  · rw [ha.live, hLive] at hOver
    cases hOver
  · intro j v hMem
    rw [hLength]
    rw [ha.calls, ha.mem_stores] at hMem
    rcases hMem with hCall | hStore | ⟨_, rfl⟩
    · exact hk.placed j v (.inl hCall)
    · exact hk.placed j v (.inr hStore)
    · exact hi
  · rw [ha.calls]
    exact hk.unique

/-- While nobody borrows the cell a value is there exactly where the state says so. -/
theorem value_of_free (hk : Kept p h) (hLive : h.live = true) (hFree : h.Free) :
    h.cell.mem.value.isSome ↔ h.cell.mem.state = .initialized := by
  have hSlot := (sound_of_life (hk.life hLive)).ledger.slot
  have hNone : census Object.hasWritten h.cell.pool = 0 := census_eq_zero fun o ho => by
    have := hFree o ho
    cases o <;> first | rfl | cases this
  rw [hNone] at hSlot
  simpa using hSlot

theorem take (hk : Kept p h) (hLive : h.live = true) (hFree : h.Free) : Kept p h.take := by
  have hNever (hOver : h.live = false) : False := by simp [hLive] at hOver
  refine ⟨fun _ => .exclusive (hk.life hLive) .take hFree, ?_, fun hOver => (hNever hOver).elim,
    Nat.zero_le _, fun _ _ => rfl, hk.placed, hk.unique, hk.pending, hk.kept, hk.results⟩
  have hBalance := hk.balance
  have hMoved : (h.cell.mem.value.toList).Perm
      (h.cell.mem.taken.toList ++ (h.cell.mem.access .take).value.toList) := by
    unfold taken access
    split <;> simp
  classical
  rw [List.perm_iff_count] at hBalance hMoved ⊢
  intro a
  have hBalance := hBalance a
  have hMoved := hMoved a
  simp only [Custody.take, List.count_append] at hBalance hMoved ⊢
  omega

theorem getMut (hk : Kept p h) (hLive : h.live = true) (hFree : h.Free) (value : α) :
    Kept p (h.getMut value) := by
  unfold Custody.getMut
  split
  · rename_i hInit
    have hAccess : (h.cell.mem.access (.getMut value)).value = some value := by
      simp [access, hInit]
    have hNever (hOver : h.live = false) : False := by simp [hLive] at hOver
    refine ⟨fun _ => .exclusive (hk.life hLive) (.getMut value) hFree, ?_,
      fun hOver => (hNever hOver).elim, hk.since_le, ?_, hk.placed, hk.unique, hk.pending, hk.kept,
      hk.results⟩
    · have hBalance := hk.balance
      classical
      rw [List.perm_iff_count] at hBalance ⊢
      intro a
      have hBalance := hBalance a
      simp only [hAccess, Option.toList_some, List.count_append] at hBalance ⊢
      omega
    · intro _ hNone
      rw [hAccess] at hNone
      cases hNone
  · exact hk

/-- The drop of the cell destroys the value if there is one. -/
theorem drop (hk : Kept p h) (hLive : h.live = true) (hFree : h.Free) : Kept p h.drop := by
  refine ⟨nofun, ?_, fun _ => ⟨hFree, ?_⟩, hk.since_le, nofun, hk.placed, hk.unique, hk.pending,
    hk.kept, hk.results⟩
  rotate_left
  · have hSlot := hk.value_of_free hLive hFree
    change h.cell.mem.dropInPlace.1.value = none
    unfold dropInPlace
    split_ifs with hInit
    · rfl
    · rwa [← hSlot, Option.not_isSome_iff_eq_none] at hInit
  have hBalance := hk.balance
  have hMoved : (h.cell.mem.value.toList).Perm
      (h.cell.mem.dropInPlace.2.toList ++ h.cell.mem.dropInPlace.1.value.toList) := by
    unfold dropInPlace
    split <;> simp
  classical
  rw [List.perm_iff_count] at hBalance hMoved ⊢
  intro a
  have hBalance := hBalance a
  have hMoved := hMoved a
  simp only [Custody.drop, List.count_append] at hBalance hMoved ⊢
  omega

theorem next (hk : Kept p h) {d : Deed α} (hNext : h.next p d = some h') : Kept p h' := by
  cases d with
  | action a =>
    cases a with
    | call k =>
      simp only [Custody.next] at hNext
      split_ifs at hNext with hLive
      cases hNext
      exact hk.call hLive k
    | act i c =>
      simp only [Custody.next] at hNext
      split_ifs at hNext with hLive
      exact hk.act hLive hNext
  | access a =>
    cases a with
    | getMut value =>
      simp only [Custody.next] at hNext
      split_ifs at hNext with hOpen
      cases hNext
      exact hk.getMut hOpen.1 hOpen.2 value
    | take =>
      simp only [Custody.next] at hNext
      split_ifs at hNext with hOpen
      cases hNext
      exact hk.take hOpen.1 hOpen.2
  | intoInner =>
    simp only [Custody.next] at hNext
    split_ifs at hNext with hOpen
    cases hNext
    exact (hk.take hOpen.1 hOpen.2).drop hOpen.1 hOpen.2
  | dropCell =>
    simp only [Custody.next] at hNext
    split_ifs at hNext with hOpen
    cases hNext
    exact hk.drop hOpen.1 hOpen.2

theorem run (hk : Kept p h) {deeds : List (Deed α)} (hRun : h.run p deeds = some h') :
    Kept p h' := by
  induction deeds generalizing h with
  | nil =>
    cases hRun
    exact hk
  | cons d rest ih =>
    obtain ⟨h₁, hNext, hRest⟩ := Option.bind_eq_some_iff.mp hRun
    exact ih (hk.next hNext) hRest

theorem of_new : Kept p (Custody.new (α := α)) :=
  ⟨fun _ => .new, .refl _, nofun, Nat.zero_le _, fun _ _ => rfl, nofun, nofun, nofun, nofun, nofun⟩

theorem of_fromValue (value : α) : Kept p (Custody.fromValue value) :=
  ⟨fun _ => .fromValue value, .refl _, nofun, Nat.zero_le _, fun _ _ => rfl, nofun, nofun, nofun,
    nofun, nofun⟩

end Kept

/-- A cell as `new` and `From` make it. -/
inductive Custody.Starts : Custody α → Prop
  | new : Starts Custody.new
  | fromValue (value : α) : Starts (Custody.fromValue value)

theorem Custody.places_perm (h : Custody α) : (h.cell.pool.flatMap Object.held ++
    (h.returned ++ (h.dropped ++ h.cell.mem.value.toList))).Perm
    (h.withCallers ++ h.inCell ++ h.returned ++ h.dropped) := by
  classical
  rw [List.perm_iff_count]
  intro a
  unfold withCallers inCell
  split_ifs <;> simp only [List.count_append, List.count_nil] <;> omega

/-- Every value of a history is in exactly one place: with its caller or future, in the cell,
handed back, or dropped; a cell that is gone has none left. `set` and `try_set` return `Ok`
exactly if they have stored their own value, which they hand back with `Err` otherwise. Between
two `take`s at most one value is stored. -/
theorem value_custody {h₀ h : Custody α} (hStart : h₀.Starts) {deeds : List (Deed α)}
    (hRun : h₀.run p deeds = some h) :
    h.given.Perm (h.withCallers ++ h.inCell ++ h.returned ++ h.dropped) ∧
    (h.live = true → h.cell.mem.state = .initialized → ∃ v, h.inCell = [v]) ∧
    (h.live = true → h.cell.mem.state ≠ .initialized → h.cell.mem.value.isSome →
      census Object.hasWritten h.cell.pool = 1) ∧
    (h.live = false → h.withCallers = [] ∧ h.inCell = []) ∧
    (∀ i v w, (i, v) ∈ h.calls → (i, w) ∈ h.calls → v = w) ∧
    (∀ i r, (i, r) ∈ h.results → ∃ v, (i, v) ∈ h.calls ∧
      ((r = .ok ∧ (i, v) ∈ h.stores) ∨ (r = .err v ∧ ∀ w, (i, w) ∉ h.stores))) ∧
    h.sinceTake.length ≤ 1 := by
  have hKept : Kept p h := by
    cases hStart with
    | new => exact Kept.of_new.run hRun
    | fromValue value => exact (Kept.of_fromValue value).run hRun
  refine ⟨hKept.balance.trans h.places_perm, fun hLive hInit => ?_, fun hLive hNot hSome => ?_,
    fun hOver => ?_, hKept.unique, fun i r hMem => ?_, hKept.since_le⟩
  · have hSlot := (sound_of_life (hKept.life hLive)).ledger.slot
    obtain ⟨v, hValue⟩ := Option.isSome_iff_exists.mp (hSlot.mpr (.inl hInit))
    exact ⟨v, by simp [Custody.inCell, hInit, hValue]⟩
  · obtain ⟨hCount, hSlot⟩ := (sound_of_life (hKept.life hLive)).ledger
    have hPos := (hSlot.mp hSome).resolve_left hNot
    split at hCount <;> omega
  · obtain ⟨hFree, hNone⟩ := hKept.ended hOver
    have hHeld : h.cell.pool.flatMap Object.held = [] := by
      rw [List.flatMap_eq_nil_iff]
      intro o ho
      have := hFree o ho
      cases o <;> first | rfl | cases this
    unfold Custody.withCallers Custody.inCell
    rw [hHeld, hNone]
    split_ifs <;> exact ⟨rfl, rfl⟩
  · obtain ⟨v, hCall, hResult⟩ := hKept.results i r hMem
    exact ⟨v, hCall, hResult.imp_right fun hErr => ⟨hErr.1, hErr.2.1⟩⟩

/-- A `try_set` wins, a `set` hands its value back, and after a `take` a closure fails and another
one stores. -/
def setTakeDrop : List (Deed Nat) :=
  [.action (.call (.trySet 5)), .action (.act 0 .go), .action (.call (.set 6)),
    .action (.act 1 .go), .action (.act 0 .go), .action (.act 0 .go), .action (.act 0 .go),
    .action (.act 0 .go), .action (.act 1 .go), .action (.act 1 .go), .action (.act 1 .go),
    .access .take, .action (.call .getOrTryInit), .action (.act 2 .go), .action (.act 2 .go),
    .action (.act 2 .go), .action (.act 2 .fail), .action (.act 2 .go), .action (.act 2 .go),
    .action (.act 2 .go), .action (.call .getOrInit), .action (.act 3 .go),
    .action (.act 3 .go), .action (.act 3 .go), .action (.act 3 (.succeed 7)),
    .action (.act 3 .go), .action (.act 3 .go), .action (.act 3 .go), .action (.act 3 .go),
    .action (.act 3 .go), .action (.act 3 .go), .action (.act 3 .go), .dropCell]

def afterDrop : Custody Nat :=
  ⟨⟨⟨Event.new, Event.new, .initialized, none⟩, [.gone, .gone, .gone, .gone]⟩, false, [5, 6, 7],
    [6, 5], [7], [(0, 5), (1, 6)], [(0, 5), (3, 7)], [(3, 7)], [(0, .ok), (1, .err 6)]⟩

theorem value_custody_setTakeDrop :
    afterDrop.given.Perm
      (afterDrop.withCallers ++ afterDrop.inCell ++ afterDrop.returned ++ afterDrop.dropped) ∧
    afterDrop.sinceTake.length ≤ 1 := by
  have hCustody := value_custody (p := platform64) .new
    (show Custody.new.run platform64 setTakeDrop = some afterDrop by decide +kernel)
  exact ⟨hCustody.1, hCustody.2.2.2.2.2.2⟩

end AsyncLock.OnceCell
