import AsyncLock.Interleaving.Census
import AsyncLock.RwLock.Transitions

/-! # The two words of the reader-writer lock

Every object has at most one part in the ownership of the inner mutex: it holds the mutex with
the writer bit clear, it is about to count itself as an upgradable reader, it has set the
writer bit and waits, or it has been granted the write lock. `Ledger` ties these parts, with the
readers and the starved lock operations, to the mutex word and the state word.
-/
namespace AsyncLock.RwLock
set_option autoImplicit false

open Interleaving

/-- What an owner of the inner mutex is; `inCall` is one in the middle of an acquire or release
call. -/
inductive Owner where
  | upgradableGuard
  | writeGuard
  | waitingReaders
  | upgrade
  | inCall
deriving DecidableEq

namespace Object

def starved : Object → Nat
  | upgradableRead _ (.acquire f) | write _ (.acquiring f) => f.starved
  | _ => 0

/-- An active reader, counted in the upper bits of the state. -/
def reader : Object → Nat
  | readGuard _ | upgradableGuard _ _ | upgradableDowngrading _ | writeDowngrading _ _ => 1
  | _ => 0

/-- Owns the inner mutex with the writer bit clear. -/
def holder : Object → Nat
  | upgradableRead _ (.acquire f) | write _ (.acquiring f) => f.owns
  | upgradableRead _ (.load _) | tryUpgradable _ .load | upgradableGuard _ _ => 1
  | upgradableUnlocking | unlocking => 1
  | tryWrite _ .exchange | write _ (.setBit _) => 1
  | writeUnlocking _ .notifyNoWriter | writeUnlocking _ .unlockMutex => 1
  | writeDowngrading _ .unlockMutex => 1
  | _ => 0

/-- Owns the inner mutex and is in the loop that increments the number of readers. -/
def looping : Object → Nat
  | upgradableRead _ (.exchange _ _) | tryUpgradable _ (.exchange _) => 1
  | _ => 0

/-- Owns the inner mutex and has set the writer bit, and waits for the readers. -/
def writer : Object → Nat
  | write _ (.listen _) | write _ (.replace _ false) | waiting _ _ _ _ => 1
  | _ => 0

def granted : Object → Nat
  | writeGuard _ _ | write _ (.replace _ true) => 1
  | _ => 0

def owns (o : Object) : Nat := o.holder + o.looping + o.writer + o.granted

def owner : Object → Option Owner
  | upgradableGuard _ _ => some .upgradableGuard
  | writeGuard _ _ => some .writeGuard
  | waiting .write _ _ _ => some .waitingReaders
  | waiting .upgrade _ _ _ => some .upgrade
  -- in the middle of an acquire call
  | upgradableRead _ (.acquire (.takeMutex _)) | write _ (.acquiring (.takeMutex _)) => some .inCall
  | tryUpgradable _ .load | tryUpgradable _ (.exchange _) => some .inCall
  | upgradableRead _ (.load _) | upgradableRead _ (.exchange _ _) => some .inCall
  | tryWrite _ .exchange | write _ (.setBit _) => some .inCall
  | write _ (.listen _) | write _ (.replace _ _) => some .inCall
  -- in the middle of a release or downgrade call
  | upgradableUnlocking | unlocking => some .inCall
  | writeUnlocking _ .notifyNoWriter | writeUnlocking _ .unlockMutex => some .inCall
  | writeDowngrading _ .unlockMutex => some .inCall
  | _ => none

def Aborted : Object → Prop
  | aborted => True
  | upgradableRead _ (.acquire f) | write _ (.acquiring f) => f.Aborted
  | _ => False

/-- The parts in the ownership of the mutex are disjoint. -/
theorem owns_eq (o : Object) : o.owns = o.owner.isSome.toNat := by
  cases o with
  | waiting kind => cases kind <;> rfl
  | upgradableRead form at_ =>
    cases at_ with
    | acquire f => cases f <;> rfl
    | _ => rfl
  | write form at_ =>
    cases at_ with
    | acquiring f => cases f <;> rfl
    | replace listener acquired => cases acquired <;> rfl
    | _ => rfl
  | tryUpgradable arc at_ | tryWrite arc at_ => cases at_ <;> rfl
  | writeUnlocking listener at_ => cases at_ <;> rfl
  | writeDowngrading arc at_ => cases at_ <;> rfl
  | _ => rfl

end Object

structure Ledger (p : Platform) (mutex state starved reader holder looping writer granted : Nat) :
    Prop where
  mutex : Accounts p mutex (holder + looping + writer + granted) starved
  state_eq : state = 2 * reader + writer + granted
  reader_le : 2 * reader + 2 * looping ≤ 2 ^ (p.bits - 1) + 2
  exclusive : 0 < granted → reader = 0

namespace Ledger

variable {p : Platform} {mutex state starved reader holder looping writer granted : Nat}

theorem new (p : Platform) : Ledger p 0 0 0 0 0 0 0 0 :=
  ⟨Accounts.new p, rfl, Nat.zero_le _, fun h => absurd h (by decide)⟩

theorem state_lt (h : Ledger p mutex state starved reader holder looping writer granted) :
    state + 4 < 2 ^ p.bits := by
  have hOwners := h.mutex.owners_le
  have hState := h.state_eq
  have hReaders := h.reader_le
  have := p.pow_bits
  have := p.le_half
  omega

theorem withMutex (h : Ledger p mutex state starved reader holder looping writer granted)
    {mutex' holder' starved' : Nat}
    (hMutex : Accounts p mutex' (holder' + looping + writer + granted) starved') :
    Ledger p mutex' state starved' reader holder' looping writer granted :=
  ⟨hMutex, h.state_eq, h.reader_le, h.exclusive⟩

theorem lockStep {i : Nat} {d : LockChoice} {m m' : Mutex} {f : Lock} {r : LockOutcome}
    (h : Ledger p m.state state (f.starved + starved) reader (f.owns + holder) looping writer
      granted) (hLock : f.step p i d m = some (m', r)) (hAlive : ¬ r.Aborted) :
    Ledger p m'.state state (r.starved + starved) reader (r.owns + holder) looping writer
      granted := by
  apply h.withMutex
  have hMutex : Accounts p m.state (f.owns + (holder + looping + writer + granted))
      (f.starved + starved) := by simpa only [Nat.add_assoc] using h.mutex
  simpa only [Nat.add_assoc] using Lock.step_accounts hLock hAlive hMutex

theorem tryLock (h : Ledger p 0 state starved reader holder looping writer granted) :
    Ledger p 1 state starved reader (1 + holder) looping writer granted := by
  apply h.withMutex
  simpa [Nat.add_assoc] using h.mutex.acquire rfl

theorem unlock (h : Ledger p mutex state starved reader (1 + holder) looping writer granted) :
    Ledger p (wrappingSub p.bits mutex 1) state starved reader holder looping writer granted := by
  apply h.withMutex
  apply Accounts.release
  simpa [Nat.add_assoc] using h.mutex

/-- The increment of `try_read` and `read`, on a value with the writer bit clear. -/
theorem addReader (h : Ledger p mutex state starved reader holder looping writer granted)
    (hBit : state % 2 = 0) (hSmall : state ≤ p.isizeMax) :
    Ledger p mutex (state + 2) starved (1 + reader) holder looping writer granted := by
  obtain ⟨hMutex, hState, hReaders, _⟩ := h
  have := hMutex.owners_le
  unfold Platform.isizeMax at hSmall
  have := p.le_half
  have hEven : 2 ^ (p.bits - 1) % 2 = 0 := p.half_even
  exact ⟨hMutex, by omega, by omega, by omega⟩

/-- The test before the loop that counts an upgradable reader. -/
theorem enterLoop (h : Ledger p mutex state starved reader (1 + holder) looping writer granted)
    (hSmall : state ≤ p.isizeMax) :
    Ledger p mutex state starved reader holder (1 + looping) writer granted := by
  obtain ⟨hMutex, hState, _, hExclusive⟩ := h
  have := hMutex.owners_le
  unfold Platform.isizeMax at hSmall
  have := p.half_even
  have := p.le_half
  refine ⟨?_, hState, by omega, hExclusive⟩
  rwa [show holder + (1 + looping) = 1 + holder + looping by omega]

/-- The increment of an upgradable reader, on any value. -/
theorem leaveLoop (h : Ledger p mutex state starved reader holder (1 + looping) writer granted) :
    Ledger p mutex (wrappingAdd p.bits state 2) starved (1 + reader) (1 + holder) looping writer
      granted := by
  have hLt := h.state_lt
  obtain ⟨hMutex, hState, hReaders, _⟩ := h
  have := hMutex.owners_le
  rw [wrappingAdd_of_lt (by omega)]
  refine ⟨?_, by omega, by omega, by omega⟩
  rwa [show 1 + holder + looping = holder + (1 + looping) by omega]

theorem removeReader
    (h : Ledger p mutex state starved (1 + reader) holder looping writer granted) :
    Ledger p mutex (wrappingSub p.bits state 2) starved reader holder looping writer granted := by
  have hLt := h.state_lt
  obtain ⟨hMutex, hState, hReaders, hExclusive⟩ := h
  rw [wrappingSub_of_le (by omega) (by omega)]
  exact ⟨hMutex, by omega, by omega, by omega⟩

theorem holder_state (h : Ledger p mutex state starved reader (1 + holder) looping writer granted) :
    state = 2 * reader ∧ holder = 0 ∧ looping = 0 ∧ writer = 0 ∧ granted = 0 := by
  have := h.mutex.owners_le
  have := h.state_eq
  omega

theorem writer_state (h : Ledger p mutex state starved reader holder looping (1 + writer) granted) :
    state = 2 * reader + 1 ∧ holder = 0 ∧ looping = 0 ∧ writer = 0 ∧ granted = 0 := by
  have := h.mutex.owners_le
  have := h.state_eq
  omega

theorem granted_state
    (h : Ledger p mutex state starved reader holder looping writer (1 + granted)) :
    state = 1 ∧ reader = 0 ∧ holder = 0 ∧ looping = 0 ∧ writer = 0 ∧ granted = 0 := by
  have := h.mutex.owners_le
  have := h.state_eq
  have := h.exclusive (by omega)
  omega

/-- `fetch_or(WRITER_BIT)` by an owner that has not set it. -/
theorem setBit (h : Ledger p mutex state starved reader (1 + holder) looping writer granted) :
    Ledger p mutex (state ||| writerBit) starved reader holder looping (1 + writer) granted := by
  obtain ⟨hState, rfl, rfl, rfl, rfl⟩ := h.holder_state
  rw [writerBit, or_one]
  exact ⟨h.mutex, by omega, h.reader_le, by omega⟩

theorem grant (h : Ledger p mutex state starved reader holder looping (1 + writer) granted)
    (hAlone : state = 1) :
    Ledger p mutex state starved reader holder looping writer (1 + granted) := by
  obtain ⟨hState, rfl, rfl, rfl, rfl⟩ := h.writer_state
  exact ⟨h.mutex, by omega, h.reader_le, by omega⟩

theorem tryWrite (h : Ledger p mutex 0 starved reader (1 + holder) looping writer granted) :
    Ledger p mutex 1 starved reader holder looping writer (1 + granted) := by
  obtain ⟨hState, rfl, rfl, rfl, rfl⟩ := h.holder_state
  exact ⟨h.mutex, by omega, h.reader_le, by omega⟩

theorem tryUpgrade
    (h : Ledger p mutex 2 starved (1 + reader) (1 + holder) looping writer granted) :
    Ledger p mutex 1 starved reader holder looping writer (1 + granted) := by
  obtain ⟨hState, rfl, rfl, rfl, rfl⟩ := h.holder_state
  have hReaders := h.reader_le
  exact ⟨h.mutex, by omega, by omega, by omega⟩

/-- `fetch_sub(ONE_READER - WRITER_BIT)`. -/
theorem upgrade
    (h : Ledger p mutex state starved (1 + reader) (1 + holder) looping writer granted) :
    Ledger p mutex (wrappingSub p.bits state 1) starved reader holder looping (1 + writer)
      granted := by
  have hLt := h.state_lt
  obtain ⟨hState, rfl, rfl, rfl, rfl⟩ := h.holder_state
  have hReaders := h.reader_le
  rw [wrappingSub_of_le (by omega) (by omega)]
  exact ⟨h.mutex, by omega, by omega, by omega⟩

/-- `fetch_and(!WRITER_BIT)` by a writer that gives up. -/
theorem cancel (h : Ledger p mutex state starved reader holder looping (1 + writer) granted) :
    Ledger p mutex (Nat.ldiff state writerBit) starved reader (1 + holder) looping writer
      granted := by
  obtain ⟨hState, rfl, rfl, rfl, rfl⟩ := h.writer_state
  rw [writerBit, ldiff_one]
  exact ⟨h.mutex, by omega, h.reader_le, by omega⟩

/-- `fetch_and(!WRITER_BIT)` by the owner of the write lock. -/
theorem writeUnlock (h : Ledger p mutex state starved reader holder looping writer (1 + granted)) :
    Ledger p mutex (Nat.ldiff state writerBit) starved reader (1 + holder) looping writer
      granted := by
  obtain ⟨rfl, rfl, rfl, rfl, rfl, rfl⟩ := h.granted_state
  rw [writerBit, ldiff_one]
  exact ⟨h.mutex, rfl, h.reader_le, fun _ => rfl⟩

/-- `fetch_add(ONE_READER - WRITER_BIT)`. -/
theorem downgrade (h : Ledger p mutex state starved reader holder looping writer (1 + granted)) :
    Ledger p mutex (wrappingAdd p.bits state 1) starved (1 + reader) (1 + holder) looping writer
      granted := by
  have hLt := h.state_lt
  obtain ⟨rfl, rfl, rfl, rfl, rfl, rfl⟩ := h.granted_state
  rw [wrappingAdd_of_lt (by omega)]
  have := p.le_half
  exact ⟨h.mutex, by omega, by omega, by omega⟩

end Ledger

variable {α : Type*} {p : Platform}

def Balanced (p : Platform) (s : RwLock α) (total : (Object → Nat) → Nat) : Prop :=
  Ledger p s.mutex.state s.state (total Object.starved) (total Object.reader)
    (total Object.holder) (total Object.looping) (total Object.writer) (total Object.granted)

attribute [local simp] Object.starved Object.reader Object.holder Object.looping Object.writer
  Object.granted

theorem step_balanced {i : Nat} {c : Choice α} {s s' : RwLock α} {o o' : Object}
    {new : List Object} (h : step p i c s o = some (s', o', new)) (hAlive : ¬ o'.Aborted)
    {total : (Object → Nat) → Nat} (hs : Balanced p s fun f => f o + total f) :
    Balanced p s' fun f => f o' + census f new + total f := by
  unfold Balanced at hs ⊢
  cases step_acts h with
  | tryReadTake _ _ hBit hSmall | readTake _ _ _ hBit hSmall =>
    simpa using Ledger.addReader (by simpa using hs) hBit hSmall
  | tryUpgradableLock _ _ hFree | tryWriteLock _ _ hFree =>
    rw [hFree] at hs
    simpa using Ledger.tryLock (by simpa using hs)
  | readUnlockLast | readUnlock | upgradableUnlockLast | upgradableUnlock =>
    simpa using Ledger.removeReader (by simpa using hs)
  | tryUpgradableLoad _ _ hSmall | upgradableLoad _ _ _ hSmall =>
    simpa using Ledger.enterLoop (by simpa using hs) hSmall
  | tryUpgradableTake | upgradableTake =>
    simpa using Ledger.leaveLoop (by simpa using hs)
  | upgradableAcquire _ _ f _ m r hLock | writeAcquire _ _ f _ m r hLock =>
    have hRunning := Ledger.lockStep (by simpa using hs) hLock
    cases r with
    | running f' => simpa [upgradableOutcome, writeOutcome, LockOutcome.starved, LockOutcome.owns]
        using hRunning hAlive
    | _ => simpa [upgradableOutcome, writeOutcome, LockOutcome.starved, LockOutcome.owns]
        using hRunning id
  | tryReadAbort | readAbort | tryUpgradableAbort | upgradableAbort => exact absurd trivial hAlive
  | upgradableDowngrade | writeUnlockMutex | writeDowngradeMutex | unlock =>
    simpa using Ledger.unlock (by simpa using hs)
  | tryUpgrade _ _ hAlone =>
    rw [hAlone] at hs
    simpa using Ledger.tryUpgrade (by simpa using hs)
  | upgrade => simpa using Ledger.upgrade (by simpa using hs)
  | tryWriteTake _ _ hFree =>
    rw [hFree] at hs
    simpa using Ledger.tryWrite (by simpa using hs)
  | writeSetBit => simpa using Ledger.setBit (by simpa using hs)
  | writeSetBitAgain _ _ _ hSet =>
    -- the bit cannot be set already: the mutex has one owner
    have hState := Ledger.holder_state (by simpa using hs)
    omega
  | waitingReady _ _ _ _ _ hAlone => simpa using Ledger.grant (by simpa using hs) hAlone
  | waitingCancel => simpa using Ledger.cancel (by simpa using hs)
  | writeUnlock => simpa using Ledger.writeUnlock (by simpa using hs)
  | writeDowngrade | downgradeToUpgradable => simpa using Ledger.downgrade (by simpa using hs)
  | _ => simpa using hs

theorem aborted_stuck (i : Nat) (c : Choice α) (s : RwLock α) (o : Object) (h : o.Aborted) :
    (machine p).step i c s o = none := by
  have hLock (form : Form) (f : Lock) (hf : f.Aborted) : lockStep p i c s form f = none := by
    cases c <;> simp [lockStep, Lock.step_aborted hf]
  cases o with
  | upgradableRead form at_ =>
    cases at_ with
    | acquire f => simp [machine, step, stepUpgradableRead, hLock form f h]
    | _ => cases h
  | write form at_ =>
    cases at_ with
    | acquiring f => simp [machine, step, stepWrite, hLock form f h]
    | _ => cases h
  | aborted => rfl
  | _ => cases h

theorem balanced_of_reaches {value : α} {s : State (RwLock α) Object}
    (h : (machine p).Reaches (initial value) s) (hAlive : Alive Object.Aborted s) :
    Balanced p s.mem fun f => census f s.pool := by
  apply Machine.invariant_alive (P := fun s => Balanced p s.mem fun f => census f s.pool)
    aborted_stuck h hAlive (Ledger.new p)
  intro s s' _ _ hStep hAlive' hs
  rcases Machine.step_others hStep with ⟨k, rfl⟩ |
    ⟨i, c, o, mem, o', new, others, _, hAct, rfl, hMem, hPool, hPool'⟩
  · cases k <;> simpa [Balanced, machine, create, Lock.starved, Lock.owns] using hs
  · simp only [hPool, hPool'] at hs ⊢
    exact step_balanced hAct (hAlive' o' hMem) hs

theorem ledger_of_reaches {value : α} {s : State (RwLock α) Object}
    (h : (machine p).Reaches (initial value) s) (hAlive : Alive Object.Aborted s) :
    Ledger p s.mem.mutex.state s.mem.state (census Object.starved s.pool)
      (census Object.reader s.pool) (census Object.holder s.pool) (census Object.looping s.pool)
      (census Object.writer s.pool) (census Object.granted s.pool) := balanced_of_reaches h hAlive

/-! ## Readers and writers exclude each other -/

def readers (s : State (RwLock α) Object) : Nat := census Object.reader s.pool

def owners (s : State (RwLock α) Object) : Nat :=
  census (fun o => o.owner.isSome.toNat) s.pool

theorem owners_eq (s : State (RwLock α) Object) :
    owners s = census Object.holder s.pool + census Object.looping s.pool +
      census Object.writer s.pool + census Object.granted s.pool := by
  simp only [owners, ← Object.owns_eq]
  simp only [← census_add]
  rfl

/-- Has set the writer bit and not cleared it. -/
def Object.setsBit (o : Object) : Prop :=
  o.owner = some .writeGuard ∨ o.owner = some .waitingReaders ∨ o.owner = some .upgrade ∨
    ∃ form listener, o = .write form (.listen listener) ∨
      ∃ acquired, o = .write form (.replace listener acquired)

theorem Object.setsBit_of_pos {o : Object} (h : 0 < o.writer + o.granted) : o.setsBit := by
  cases o with
  | writeGuard => exact .inl rfl
  | waiting kind =>
    cases kind
    · exact .inr (.inl rfl)
    · exact .inr (.inr (.inl rfl))
  | write form at_ =>
    cases at_ with
    | listen listener => exact .inr (.inr (.inr ⟨form, listener, .inl rfl⟩))
    | replace listener acquired => exact .inr (.inr (.inr ⟨form, listener, .inr ⟨acquired, rfl⟩⟩))
    | _ => cases h
  | _ => cases h

variable {value : α} {s : State (RwLock α) Object}

theorem state_shiftRight (h : (machine p).Reaches (initial value) s)
    (hAlive : Alive Object.Aborted s) : s.mem.state >>> 1 = readers s := by
  obtain ⟨hMutex, hState, _, _⟩ := ledger_of_reaches h hAlive
  have := hMutex.owners_le
  rw [Nat.shiftRight_eq_div_pow, readers]
  omega

theorem one_owner (h : (machine p).Reaches (initial value) s)
    (hAlive : Alive Object.Aborted s) : owners s ≤ 1 ∧ s.mem.mutex.state % 2 = owners s := by
  obtain ⟨hMutex, _, _, _⟩ := ledger_of_reaches h hAlive
  have hLe := hMutex.owners_le
  have hEq := hMutex.state_eq
  rw [owners_eq]
  omega

theorem owner_unique (h : (machine p).Reaches (initial value) s)
    (hAlive : Alive Object.Aborted s) {i j : Nat} {o o' : Object} (hi : s.pool[i]? = some o)
    (hj : s.pool[j]? = some o') (hOwner : o.owner.isSome) (hOwner' : o'.owner.isSome) : i = j := by
  by_contra hNe
  have hTwo := add_le_census (fun o : Object => o.owner.isSome.toNat) hNe hi hj
  have hOne := (one_owner h hAlive).1
  simp only [hOwner, hOwner', Bool.toNat_true] at hTwo
  unfold owners at hOne
  omega

theorem bit_has_owner (h : (machine p).Reaches (initial value) s)
    (hAlive : Alive Object.Aborted s) (hBit : s.mem.state % 2 = 1) :
    ∃ o ∈ s.pool, o.owner.isSome ∧ o.setsBit := by
  obtain ⟨_, hState, _, _⟩ := ledger_of_reaches h hAlive
  have hPos : 0 < census (fun o : Object => o.writer + o.granted) s.pool := by
    rw [census_add]
    omega
  obtain ⟨o, ho, hPart⟩ := (census_pos_iff _ _).mp hPos
  have hPart : 0 < o.writer + o.granted := hPart
  refine ⟨o, ho, ?_, Object.setsBit_of_pos hPart⟩
  have hOwns := o.owns_eq
  unfold Object.owns at hOwns
  cases hOwner : o.owner with
  | some k => rfl
  | none =>
    rw [hOwner, Option.isSome_none, Bool.toNat_false] at hOwns
    omega

theorem writeGuard_excludes (h : (machine p).Reaches (initial value) s)
    (hAlive : Alive Object.Aborted s) {i : Nat} {arc : Bool} {chain : Nat}
    (hGuard : s.pool[i]? = some (.writeGuard arc chain)) :
    s.mem.state = 1 ∧ readers s = 0 ∧ ∀ j o, s.pool[j]? = some o → j ≠ i →
      o.owner = none ∧ o.reader = 0 := by
  have hLedger := ledger_of_reaches h hAlive
  obtain ⟨others, hPool, _⟩ := exists_others hGuard
  rw [hPool Object.granted] at hLedger
  obtain ⟨hState, hReaders, _⟩ := hLedger.granted_state
  refine ⟨hState, hReaders, fun j o hj hji => ⟨?_, ?_⟩⟩
  · rw [← Option.not_isSome_iff_eq_none]
    exact fun hOwner => hji (owner_unique h hAlive hj hGuard hOwner rfl)
  · have := le_census Object.reader (List.mem_of_getElem? hj)
    omega

/-- Exclusion and accounting: the upper bits count the active readers; the mutex has at most
one owner, of one of the kinds of `Owner`; only an owner has the writer bit set; a write guard
excludes every reader and every other owner. -/
theorem exclusion (h : (machine p).Reaches (initial value) s) (hAlive : Alive Object.Aborted s) :
    s.mem.state >>> 1 = readers s ∧
      (owners s ≤ 1 ∧ s.mem.mutex.state % 2 = owners s) ∧
      (s.mem.state % 2 = 1 → ∃ o ∈ s.pool, o.owner.isSome ∧ o.setsBit) ∧
      ∀ (i : Nat) (arc : Bool) (chain : Nat), s.pool[i]? = some (.writeGuard arc chain) →
        s.mem.state = 1 ∧ readers s = 0 ∧ ∀ j o, s.pool[j]? = some o → j ≠ i →
          o.owner = none ∧ o.reader = 0 :=
  ⟨state_shiftRight h hAlive, one_owner h hAlive, bit_has_owner h hAlive,
    fun _ _ _ hGuard => writeGuard_excludes h hAlive hGuard⟩

def writeAfterRead : List (Action Call (Choice Nat)) :=
  [.call .tryRead, .act 0 (.go false), .act 0 (.go false), .call .write, .act 1 (.go false),
    .act 1 (.go false), .act 1 (.go false), .act 1 (.go false), .act 1 (.go false),
    .act 1 (.go false), .act 0 .drop, .act 0 (.go false), .act 1 (.go false), .act 1 (.go false)]

def writeGranted : State (RwLock Nat) Object :=
  ⟨⟨⟨1, Event.new⟩, ⟨[⟨1, some .single⟩]⟩, Event.new, 1, 7⟩,
    [.gone, .writeDone true, .writeGuard false 1]⟩

theorem exclusion_writeAfterRead :
    writeGranted.mem.state >>> 1 = readers writeGranted ∧ owners writeGranted ≤ 1 := by
  have := exclusion (p := platform64)
    (Machine.reaches_of_run _ writeAfterRead (initial 7) writeGranted (by decide +kernel))
    (by simp [Alive, writeGranted, Object.Aborted])
  exact ⟨this.1, this.2.1.1⟩

end AsyncLock.RwLock
