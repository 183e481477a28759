import AsyncLock.Interleaving.Leak
import AsyncLock.RwLock.Accounting

/-! # The reader count does not overflow

`WordOp` lists the ways in which the code changes the state word, with what each computes on a
machine word (`result`) and when this is the operation on natural numbers that the code means
(`Exact`): no carry out of the word, none into the writer bit, no borrow. `try_read` and `read`
test the bound in every round of their loops, the upgradable paths once before theirs; these
rely on the owner of the inner mutex being the only one there, counted by `looping`.
-/
namespace AsyncLock.RwLock
set_option autoImplicit false

open Interleaving

variable {α : Type*}

inductive WordOp where
  /-- `compare_exchange(state, state + ONE_READER)`, with the last observed state. -/
  | addReader (state : Nat)
  /-- `compare_exchange(expected, WRITER_BIT)`. -/
  | exchangeWriter (expected : Nat)
  /-- `fetch_or(WRITER_BIT)`. -/
  | fetchOr
  /-- `fetch_and(!WRITER_BIT)`. -/
  | fetchAnd
  /-- `fetch_add(ONE_READER - WRITER_BIT)`. -/
  | fetchAdd
  | fetchSub (n : Nat)
deriving DecidableEq

namespace WordOp

/-- What the operation makes of the state word. A compare-exchange may fail. -/
def Yields (p : Platform) (before after : Nat) : WordOp → Prop
  | addReader state =>
    after = before ∨ (before = state ∧ after = wrappingAdd p.bits state oneReader)
  | exchangeWriter expected => after = before ∨ (before = expected ∧ after = writerBit)
  | fetchOr => after = before ||| writerBit
  | fetchAnd => after = Nat.ldiff before writerBit
  | fetchAdd => after = wrappingAdd p.bits before (oneReader - writerBit)
  | fetchSub n => after = wrappingSub p.bits before n

def Follows (p : Platform) (before after : Nat) : Option WordOp → Prop
  | some op => op.Yields p before after
  | none => after = before

/-- The operation as it is meant, in natural numbers. The upper bits count the readers; with
what becomes of these, each equation also says what becomes of the writer bit. -/
def Exact (p : Platform) (before after : Nat) : WordOp → Prop
  | addReader state => state + oneReader ≤ p.usizeMax ∧ after % 2 = before % 2 ∧
      (after = before ∨ (before = state ∧ after = before + oneReader))
  | exchangeWriter expected => after = before ∨ (before = expected ∧ after = writerBit)
  | fetchOr => after = before + writerBit ∧ after ≤ p.usizeMax ∧ after / 2 = before / 2
  | fetchAnd => before = after + writerBit ∧ after / 2 = before / 2
  | fetchAdd => after = before + (oneReader - writerBit) ∧ after ≤ p.usizeMax ∧
      after / 2 = before / 2 + 1
  | fetchSub n => n ≤ before ∧ after = before - n ∧ after / 2 + 1 = before / 2

end WordOp

/-- The increment of `try_read` and `read`, which follows two tests. -/
def checkedAdd (p : Platform) (state : Nat) : Option WordOp :=
  if state &&& writerBit = 0 ∧ state ≤ p.isizeMax then some (.addReader state) else none

namespace Object

/-- The operation on the state word in the next action. -/
def wordOp (p : Platform) (c : Choice α) : Object → Option WordOp
  | tryRead _ (.loop state) | read _ (.loop state _) => checkedAdd p state
  | tryUpgradable _ (.exchange state) | upgradableRead _ (.exchange _ state) =>
    some (.addReader state)
  | readGuard _ =>
    match c with
    | .drop => some (.fetchSub oneReader)
    | _ => none
  | upgradableGuard _ _ =>
    match c with
    | .drop => some (.fetchSub oneReader)
    | .tryUpgrade => some (.exchangeWriter oneReader)
    | .upgrade _ => some (.fetchSub (oneReader - writerBit))
    | _ => none
  | tryWrite _ .exchange => some (.exchangeWriter 0)
  | write _ (.setBit _) => some .fetchOr
  | waiting _ _ _ (.idle _) =>
    match c with
    | .drop => some .fetchAnd
    | _ => none
  | writeGuard _ _ =>
    match c with
    | .drop => some .fetchAnd
    | .downgrade | .downgradeToUpgradable => some .fetchAdd
    | _ => none
  | _ => none

/-- The value of the state word that a read or an upgradable read has observed last. -/
def observed : Object → Nat
  | tryUpgradable _ (.exchange state) | upgradableRead _ (.exchange _ state) => state
  | tryRead _ (.loop state) | read _ (.unpolled state) | read _ (.loop state _) => state
  | _ => 0

end Object

theorem follows_checkedAdd_same (p : Platform) (word state : Nat) :
    WordOp.Follows p word word (checkedAdd p state) := by
  unfold checkedAdd
  split
  · exact .inl rfl
  · rfl

theorem isizeMax_add_two_lt (p : Platform) : p.isizeMax + 2 < 2 ^ p.bits := by
  have := p.pow_bits
  have := p.le_half
  unfold Platform.isizeMax
  omega

theorem follows_checkedAdd_take {p : Platform} {state : Nat} (hBit : state % 2 = 0)
    (hSmall : state ≤ p.isizeMax) : WordOp.Follows p state (state + 2) (checkedAdd p state) := by
  have hFits := isizeMax_add_two_lt p
  rw [checkedAdd, and_writerBit, if_pos ⟨hBit, hSmall⟩]
  exact .inr ⟨rfl, (wrappingAdd_of_lt (by omega)).symm⟩

variable {p : Platform} {i : Nat} {c : Choice α} {s s' : RwLock α} {o o' : Object}
  {new : List Object}

/-- Every change of the state word is one of the operations. -/
theorem step_follows (h : step p i c s o = some (s', o', new)) :
    WordOp.Follows p s.state s'.state (o.wordOp p c) := by
  cases step_acts h with
  | tryReadLook _ _ at_ | tryReadFail _ _ at_ | tryReadAbort _ _ at_ =>
    cases at_ with
    | load => rfl
    | loop state => exact follows_checkedAdd_same p s.state state
  | readAbort _ _ state | readRetry _ _ state | readListen _ _ state | readConsume _ _ state =>
    exact follows_checkedAdd_same p s.state state
  | readCancelListener _ _ state =>
    rw [(discardNoWriter_state i s true).1]
    exact follows_checkedAdd_same p s.state state
  | tryReadTake _ _ hBit hSmall | readTake _ _ _ hBit hSmall =>
    exact follows_checkedAdd_take hBit hSmall
  | tryUpgradableRetry | upgradableRetry | tryUpgradeFail | tryWriteGiveUp => exact .inl rfl
  | tryUpgradableTake | upgradableTake => exact .inr ⟨rfl, rfl⟩
  | tryUpgrade _ _ hAlone => exact .inr ⟨hAlone, rfl⟩
  | tryWriteTake _ _ hFree => exact .inr ⟨hFree, rfl⟩
  | readFinish => exact (discardNoWriter_state i s _).1
  | upgradableFinish | writeAcquired | writeWaits => exact (discardLockOps_state i s _).1
  | writeFinish | writeUnlocked => exact (discardNoReaders_state i s _).1
  | waitingBegin kind form chain listener =>
    cases c with
    | drop =>
      -- an idle future that is dropped does not begin to check
      simp [step, stepWaiting] at h
    | _ => rfl
  | _ => rfl

/-! ## Every operation is exact -/

theorem step_observed (h : step p i c s o = some (s', o', new)) :
    (o'.observed = o.observed ∨ o'.observed = s.state ∨ o'.observed = 0) ∧
      ∀ n ∈ new, n.observed = 0 := by
  cases step_acts h with
  | upgradableAcquire _ _ _ _ _ r | writeAcquire _ _ _ _ _ r =>
    cases r <;> exact ⟨.inr (.inr rfl), by simp⟩
  | _ => simp [Object.observed]

def wordMax (p : Platform) : Nat := 2 ^ (p.bits - 1) + 3

theorem wordMax_add_two_lt (p : Platform) : wordMax p + 2 < 2 ^ p.bits := by
  have := p.pow_bits
  have := p.le_half
  unfold wordMax
  omega

theorem Ledger.le_wordMax {mutex state starved reader holder looping writer granted : Nat}
    (h : Ledger p mutex state starved reader holder looping writer granted) :
    state ≤ wordMax p := by
  have hOwners := h.mutex.owners_le
  have hState := h.state_eq
  have hReaders := h.reader_le
  unfold wordMax
  omega

variable {value : α}

theorem state_le {t : State (RwLock α) Object} (h : (machine p).Reaches (initial value) t)
    (hAlive : Alive Object.Aborted t) : t.mem.state ≤ wordMax p :=
  (ledger_of_reaches h hAlive).le_wordMax

theorem observed_le {t : State (RwLock α) Object} (h : (machine p).Reaches (initial value) t)
    (hAlive : Alive Object.Aborted t) : ∀ o ∈ t.pool, o.observed ≤ wordMax p := by
  apply Machine.invariant_alive (P := fun t => ∀ o ∈ t.pool, o.observed ≤ wordMax p)
    aborted_stuck h hAlive
  · simp [initial]
  intro t t' hPast hAlive hStep _ ht o ho
  have hState := state_le hPast hAlive
  rcases Machine.step_cases hStep with ⟨k, rfl⟩ | ⟨i, c, q, mem, q', new, hGet, hAct, rfl⟩
  · rcases List.mem_append.mp ho with hOld | hNew
    · exact ht o hOld
    · cases List.mem_singleton.mp hNew
      cases k
      case readAs => exact hState
      all_goals exact Nat.zero_le _
  · obtain ⟨hSelf, hNew⟩ := step_observed hAct
    have hBefore := ht q (List.mem_of_getElem? hGet)
    rcases mem_of_act ho with hOld | rfl | hMem
    · exact ht o hOld
    · omega
    · rw [hNew o hMem]
      exact Nat.zero_le _

namespace WordOp

variable {before : Nat}

theorem exact_addReader {after state : Nat} (hState : state ≤ wordMax p)
    (h : (addReader state).Yields p before after) : (addReader state).Exact p before after := by
  have hFits := wordMax_add_two_lt p
  have hMax : state + oneReader ≤ p.usizeMax := Nat.le_sub_one_of_lt (by simp [oneReader]; omega)
  rcases h with rfl | ⟨rfl, rfl⟩
  · exact ⟨hMax, rfl, .inl rfl⟩
  · rw [wrappingAdd_of_lt (by simp [oneReader]; omega)]
    exact ⟨hMax, Nat.add_mod_right before 2, .inr ⟨rfl, rfl⟩⟩

theorem exact_fetchOr (hBefore : before ≤ wordMax p) (hBit : before % 2 = 0) :
    fetchOr.Exact p before (before ||| writerBit) := by
  have hFits := wordMax_add_two_lt p
  have hOr : before ||| writerBit = before + 1 := by
    rw [writerBit, or_one]
    omega
  rw [hOr]
  exact ⟨rfl, Nat.le_sub_one_of_lt (by omega), by omega⟩

theorem exact_fetchAnd (hBit : before % 2 = 1) :
    fetchAnd.Exact p before (Nat.ldiff before writerBit) := by
  rw [writerBit, ldiff_one]
  exact ⟨by simp [writerBit]; omega, by omega⟩

theorem exact_fetchAdd (hBefore : before ≤ wordMax p) (hBit : before % 2 = 1) :
    fetchAdd.Exact p before (wrappingAdd p.bits before (oneReader - writerBit)) := by
  have hFits := wordMax_add_two_lt p
  rw [oneReader_sub_writerBit, wrappingAdd_of_lt (by omega)]
  exact ⟨rfl, Nat.le_sub_one_of_lt (by omega), by omega⟩

theorem exact_fetchSub (n : Nat) (hBefore : before ≤ wordMax p) (hReader : 2 ≤ before)
    (hn : n = 2 ∨ (n = 1 ∧ before % 2 = 0)) :
    (fetchSub n).Exact p before (wrappingSub p.bits before n) := by
  have hFits := wordMax_add_two_lt p
  rw [wrappingSub_of_le (by omega) (by omega)]
  exact ⟨by omega, rfl, by omega⟩

end WordOp

/-- Who does an operation, in terms of what a `Ledger` counts. -/
def WordOp.By (o : Object) : WordOp → Prop
  | addReader state => o.observed = state
  | exchangeWriter _ => True
  | fetchOr => o.holder = 1
  | fetchAnd => o.writer + o.granted = 1
  | fetchAdd => o.granted = 1
  | fetchSub n => o.reader = 1 ∧ (n = 2 ∨ (n = 1 ∧ o.holder = 1))

theorem checkedAdd_by {state : Nat} {op : WordOp} (hObserved : o.observed = state)
    (h : checkedAdd p state = some op) : op.By o := by
  unfold checkedAdd at h
  split at h <;> cases h
  exact hObserved

theorem by_of_wordOp {op : WordOp} (h : o.wordOp p c = some op) : op.By o := by
  cases o with
  | tryRead arc at_ =>
    cases at_ with
    | load => cases h
    | loop state => exact checkedAdd_by rfl h
  | read form f =>
    cases f with
    | loop state listener => exact checkedAdd_by rfl h
    | _ => cases h
  | tryUpgradable arc at_ | upgradableRead form at_ | tryWrite arc at_ | write form at_ =>
    cases at_ <;> cases h
    constructor
  | waiting kind form chain w =>
    cases w <;> cases c <;> cases h
    rfl
  | readGuard arc =>
    cases c <;> cases h
    exact ⟨rfl, .inl rfl⟩
  | upgradableGuard arc chain =>
    cases c with
    | drop =>
      cases h
      exact ⟨rfl, .inl rfl⟩
    | upgrade blocking =>
      cases h
      exact ⟨rfl, .inr ⟨rfl, rfl⟩⟩
    | tryUpgrade =>
      cases h
      trivial
    | _ => cases h
  | writeGuard arc chain => cases c <;> cases h <;> rfl
  | _ => cases h

/-- In every state that a `Ledger` describes the next operation is exact. -/
theorem exact_of_yields {total : (Object → Nat) → Nat} (hs : Balanced p s fun f => f o + total f)
    (hObserved : o.observed ≤ wordMax p) {after : Nat} {op : WordOp} (hBy : op.By o)
    (h : op.Yields p s.state after) : op.Exact p s.state after := by
  unfold Balanced at hs
  have hWord := hs.le_wordMax
  obtain ⟨⟨_, hOwners, _⟩, hState, _, _⟩ := hs
  dsimp only at hOwners hState
  cases op with
  | addReader state => exact WordOp.exact_addReader (hBy ▸ hObserved) h
  | exchangeWriter expected => exact h
  | fetchOr =>
    rw [h]
    have hHolder : o.holder = 1 := hBy
    exact WordOp.exact_fetchOr hWord (by omega)
  | fetchAnd =>
    rw [h]
    have hSet : o.writer + o.granted = 1 := hBy
    exact WordOp.exact_fetchAnd (by omega)
  | fetchAdd =>
    rw [h]
    have hGranted : o.granted = 1 := hBy
    exact WordOp.exact_fetchAdd hWord (by omega)
  | fetchSub n =>
    rw [h]
    obtain ⟨hReader, hHolder⟩ := hBy
    exact WordOp.exact_fetchSub n hWord (by omega) (by omega)

theorem act_exact {t : State (RwLock α) Object} (h : (machine p).Reaches (initial value) t)
    (hAlive : Alive Object.Aborted t) (hGet : t.pool[i]? = some o)
    (hStep : step p i c t.mem o = some (s', o', new)) :
    match o.wordOp p c with
    | some op => op.Exact p t.mem.state s'.state
    | none => s'.state = t.mem.state := by
  have hFollows := step_follows hStep
  split
  · rename_i op hOp
    rw [hOp] at hFollows
    obtain ⟨others, hPool, _⟩ := exists_others hGet
    have hBalanced := balanced_of_reaches h hAlive
    simp only [hPool] at hBalanced
    have hObserved := observed_le h hAlive o (List.mem_of_getElem? hGet)
    exact exact_of_yields hBalanced hObserved (by_of_wordOp hOp) hFollows
  · rename_i hOp
    rw [hOp] at hFollows
    exact hFollows

/-! ## With leaks -/

def leakyInitial (value : α) : State (RwLock α) (Leakable Object) := ⟨RwLock.new value, []⟩

/-- Whatever guards and futures are leaked, the reader count stays far below the width of the
word, and every operation on the word is exact. -/
theorem reader_count_bounded {t : State (RwLock α) (Leakable Object)}
    (h : (machine p).leaky.Reaches (leakyInitial value) t)
    (hAlive : Alive Object.Aborted t.objects) :
    t.mem.state ≤ 2 ^ (p.bits - 1) + 3 ∧
      ∀ (i : Nat) (c : Choice α) (o : Object) (t' : State (RwLock α) (Leakable Object)),
        t.pool[i]? = some (.held o) → (machine p).leaky.next t (.act i (.act c)) = some t' →
        match o.wordOp p c with
        | some op => op.Exact p t.mem.state t'.mem.state
        | none => t'.mem.state = t.mem.state := by
  have hReaches : (machine p).Reaches (initial value) t.objects := Machine.reaches_of_leaky h
  refine ⟨state_le hReaches hAlive, fun i c o t' hGet hNext => ?_⟩
  obtain ⟨mem, o', new, hStep, rfl⟩ := Machine.next_act_at hGet hNext
  exact act_exact hReaches hAlive (State.get_objects hGet) (Machine.leaky_act hStep)

def leakThenUpgradable : List (Action Call (LeakChoice (Choice Nat))) :=
  [.call .tryRead, .act 0 (.act (.go false)), .act 0 (.act (.go false)), .act 0 .forget,
    .call .tryUpgradableRead, .act 1 (.act (.go false)), .act 1 (.act (.go false))]

def oneLeaked : State (RwLock Nat) (Leakable Object) :=
  ⟨⟨⟨1, Event.new⟩, Event.new, Event.new, 2, 7⟩,
    [.leaked (.readGuard false), .held (.tryUpgradable false (.exchange 2))]⟩

def oneLeakedAfter : State (RwLock Nat) (Leakable Object) :=
  ⟨⟨⟨1, Event.new⟩, Event.new, Event.new, 4, 7⟩,
    [.leaked (.readGuard false), .held (.upgradableGuard false 1)]⟩

theorem reader_count_bounded_leakThenUpgradable :
    oneLeaked.mem.state ≤ 2 ^ 63 + 3 ∧ (WordOp.addReader 2).Exact platform64 2 4 := by
  have hBounded := reader_count_bounded (p := platform64)
    (Machine.reaches_of_run _ leakThenUpgradable (leakyInitial 7) oneLeaked (by decide +kernel))
    (by simp [Alive, oneLeaked, State.objects, Leakable.object, Object.Aborted])
  exact ⟨hBounded.1, hBounded.2 1 (.go false) _ oneLeakedAfter rfl (by decide +kernel)⟩

end AsyncLock.RwLock
