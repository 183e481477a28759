import AsyncLock.Barrier.Completion
import AsyncLock.Mutex.Completion
import AsyncLock.RwLock.InnerMutex
import AsyncLock.RwLock.Overflow

/-! # Nothing aborts below a quarter of the word

Where a counter could overflow the code aborts the process, and most results on a run ask for one
without an abort. There is none in a run in which there are never more than a quarter as many
objects as there are words: the tests compare half of the word with twice a number of objects, to
which the one that makes the test does not belong.
-/
namespace AsyncLock
set_option autoImplicit false

open Interleaving

def Platform.quarter (p : Platform) : Nat := 2 ^ (p.bits - 2)

theorem Platform.two_mul_quarter (p : Platform) : 2 * p.quarter = 2 ^ (p.bits - 1) := by
  have := p.eight_le
  rw [quarter, ← pow_succ']
  congr 1
  omega

theorem Platform.half_usizeMax (p : Platform) : p.usizeMax / 2 = p.isizeMax := by
  have := p.pow_bits
  have := p.le_half
  unfold usizeMax isizeMax
  omega

/-- An abort is that of a lock operation which finds the word above half. -/
theorem Lock.cause_of_abort {p : Platform} {i : Nat} {c : LockChoice} {m m' : Mutex} {f : Lock}
    {r : LockOutcome} (h : f.step p i c m = some (m', r)) (hAborted : r.Aborted) :
    f.starved = 0 ∧ p.isizeMax < m.state := by
  rw [← p.half_usizeMax]
  cases step_acts h with
  | abort elapsed listener =>
    refine ⟨rfl, ?_⟩
    by_contra hSmall
    simp only [step, poll, if_neg hSmall] at h
    split at h <;> cases h
  | _ => cases hAborted

/-- Twice the objects that count, but for the one that acts, and one for the lowest bit. -/
theorem word_le {ω : Type*} {p : Platform} {f live : ω → Nat} {pool : List ω} {i : Nat} {o : ω}
    (hLe : ∀ q, f q ≤ live q) (hGet : pool[i]? = some o) (hSelf : f o + 1 ≤ live o)
    (hFew : census live pool ≤ p.quarter) {word low : Nat} (hWord : word = low + 2 * census f pool)
    (hLow : low ≤ 1) : word ≤ p.isizeMax := by
  obtain ⟨others, hPool, _⟩ := exists_others hGet
  have hOthers := census_le hLe others
  have hQuarter := p.two_mul_quarter
  rw [hPool] at hFew hWord
  unfold Platform.isizeMax
  omega

/-! ## The mutex -/

namespace Mutex

variable {p : Platform}

/-- A lock operation that has not returned. -/
def Object.locks : Object → Nat
  | lock _ _ => 1
  | _ => 0

theorem Object.starved_le_locks (o : Object) : o.starved ≤ o.locks := by
  cases o with
  | lock form f => cases f <;> first | exact Nat.le_refl _ | exact Nat.zero_le _
  | _ => exact Nat.le_refl _

/-- At most a quarter of the words' number of lock operations at a time. -/
def Few (p : Platform) (s : State Mutex Object) (_ : Action Call LockChoice) : Prop :=
  census Object.locks s.pool ≤ p.quarter

instance (s : State Mutex Object) (a : Action Call LockChoice) : Decidable (Few p s a) :=
  inferInstanceAs (Decidable (_ ≤ _))

theorem no_abort_of_few_locks {acts : List (Action Call LockChoice)} {s : State Mutex Object}
    (h : (machine p).run initial acts = some s) (hFew : (machine p).Along (Few p) initial acts) :
    Alive Object.Aborted s := by
  refine Machine.invariant_along (P := Alive Object.Aborted) h hFew (by simp [Alive, initial]) ?_
  intro u a v hPast hOk hNext hu
  rcases Machine.next_others hNext with ⟨k, rfl, rfl⟩ |
    ⟨i, c, o, mem, o', new, others, rfl, hGet, hAct, rfl, _, _, _⟩
  · exact hu.append (by cases k <;> exact id)
  · have hAccounts := accounts_of_reaches hPast hu
    refine hu.act ?_ fun n hn => ?_
    · intro hAborted
      cases step_acts hAct with
      | lockRun form f f' _ hLock =>
        obtain ⟨hStarved, hBig⟩ := Lock.cause_of_abort hLock hAborted
        have hSelf : (Object.lock form f).starved + 1 ≤ (Object.lock form f).locks := by
          rw [show (Object.lock form f).starved = 0 from hStarved]
          exact Nat.le_refl _
        have hSmall := word_le Object.starved_le_locks hGet hSelf hOk hAccounts.state_eq
          hAccounts.owners_le
        omega
      | _ => cases hAborted
    · rcases step_new hAct with rfl | ⟨arc, rfl⟩
      · cases hn
      · rw [List.mem_singleton.mp hn]
        exact id

theorem no_abort_of_few_locks_starveAndDrop :
    Alive Object.Aborted (⟨⟨1, ⟨[⟨1, none⟩]⟩⟩, [.gone, .lock ⟨false, false⟩ .dropListener,
      .guard false]⟩ : State Mutex Object) :=
  no_abort_of_few_locks (show (machine platform64).run initial starveAndDrop = some _ by decide)
    (by decide)

end Mutex

/-! ## The barrier -/

namespace Barrier

open Mutex

variable {n : Nat} {p : Platform}

/-- A wait that has not returned. -/
def Object.waits : Object → Nat
  | wait _ _ => 1
  | _ => 0

theorem Object.starved_le_waits (o : Object) : o.role.starved ≤ o.waits := by
  cases o with
  | wait blocking at_ =>
    cases at_ with
    | lock f | reacquiring _ _ f =>
      cases f <;> first | exact Nat.le_refl _ | exact Nat.zero_le _
    | _ => exact Nat.zero_le _
  | _ => exact Nat.le_refl _

def Few (p : Platform) (s : State Barrier Object) (_ : Action Call Choice) : Prop :=
  census Object.waits s.pool ≤ p.quarter

instance (s : State Barrier Object) (a : Action Call Choice) : Decidable (Few p s a) :=
  inferInstanceAs (Decidable (_ ≤ _))

theorem cause_of_abort {i : Nat} {c : Choice} {s s' : Barrier} {o o' : Object}
    {new : List Object} (h : step n p i c s o = some (s', o', new)) (hAborted : o'.Aborted) :
    o.role.starved = 0 ∧ o.waits = 1 ∧ p.isizeMax < s.mutex.state := by
  obtain ⟨blocking, at_, rfl, hActs, rfl⟩ := step_acts h
  cases hActs with
  | lock f d m r hLock | relock _ _ f d m r hLock =>
    cases r with
    | running f' =>
      obtain ⟨hStarved, hBig⟩ := Lock.cause_of_abort hLock hAborted
      exact ⟨hStarved, rfl, hBig⟩
    | _ => cases hAborted
  | notifyLockOps after => cases after <;> cases hAborted
  | _ => cases hAborted

theorem no_abort_of_few_waits {acts : List (Action Call Choice)} {s : State Barrier Object}
    (h : (machine n p).run initial acts = some s)
    (hFew : (machine n p).Along (Few p) initial acts) : Alive Object.Aborted s := by
  refine Machine.invariant_along (P := Alive Object.Aborted) h hFew (by simp [Alive, initial]) ?_
  intro u a v hPast hOk hNext hu
  rcases Machine.next_others hNext with ⟨k, rfl, rfl⟩ |
    ⟨i, c, o, mem, o', new, others, rfl, hGet, hAct, rfl, _, _, _⟩
  · exact hu.append id
  · obtain ⟨rfl, _⟩ := step_use hAct
    have hRoles : Alive (fun o => o.role.Aborted) u :=
      fun q hq hAborted => hu q hq (Object.role_aborted.mp hAborted)
    have hAccounts := (host n p).accounts_of_reaches hPast hRoles
    refine hu.act (fun hAborted => ?_) (by simp)
    obtain ⟨hStarved, hWaits, hBig⟩ := cause_of_abort hAct hAborted
    have hSmall := word_le Object.starved_le_waits hGet (by omega) hOk hAccounts.state_eq
      hAccounts.owners_le
    omega

theorem no_abort_of_few_waits_meetAndWait : Alive Object.Aborted thirdWaits :=
  no_abort_of_few_waits
    (show (machine 2 platform64).run initial meetAndWait = some thirdWaits by decide +kernel)
    (by decide +kernel)

end Barrier

/-! ## The reader-writer lock -/

namespace RwLock

open Mutex

variable {α : Type*} {p : Platform}

/-- Has not come to its end. -/
def Object.lives : Object → Nat
  | gone => 0
  | _ => 1

def Few (p : Platform) (s : State (RwLock α) Object) (_ : Action Call (Choice α)) : Prop :=
  census Object.lives s.pool ≤ p.quarter

instance (s : State (RwLock α) Object) (a : Action Call (Choice α)) : Decidable (Few p s a) :=
  inferInstanceAs (Decidable (_ ≤ _))

section

variable {i : Nat} {c : Choice α} {s s' : RwLock α} {o o' : Object} {new : List Object}

theorem Object.lives_eq (h : step p i c s o = some (s', o', new)) : o.lives = 1 := by
  cases o with
  | gone => cases h
  | _ => rfl

theorem Object.starved_le_lives (o : Object) : o.starved ≤ o.lives := by
  cases o with
  | upgradableRead _ at_ =>
    cases at_ with
    | acquire f => cases f <;> first | exact Nat.le_refl _ | exact Nat.zero_le _
    | _ => exact Nat.zero_le _
  | write _ at_ =>
    cases at_ with
    | acquiring f => cases f <;> first | exact Nat.le_refl _ | exact Nat.zero_le _
    | _ => exact Nat.zero_le _
  | _ => exact Nat.zero_le _

theorem Object.reader_le_lives (o : Object) : o.reader ≤ o.lives := by
  cases o <;> first | exact Nat.le_refl _ | exact Nat.zero_le _

theorem observed_of_reader (h : step p i c s o = some (s', o', new)) (ho : o.reader ≠ 0) :
    o'.observed = 0 := by
  cases step_acts h <;> first | rfl | exact absurd rfl ho

theorem lt_of_poll_aborted {state : Nat} {listener : Bool}
    (h : (Read.loop state listener).poll p i s = some (s', .aborted)) : p.isizeMax < state := by
  by_contra hSmall
  have hLe : ¬ state > p.isizeMax := hSmall
  simp only [Read.poll, if_neg hLe] at h
  split_ifs at h
  · split at h <;> cases h
  all_goals cases h

/-- An abort is that of a lock operation on the inner mutex, or of a read that has observed too
many readers, or finds them. -/
theorem cause_of_abort (h : step p i c s o = some (s', o', new)) (hAborted : o'.Aborted) :
    (o.starved = 0 ∧ p.isizeMax < s.mutex.state) ∨ p.isizeMax < o.observed ∨
      (o.reader = 0 ∧ p.isizeMax < s.state) := by
  cases step_acts h with
  | upgradableAcquire _ form f d m r hLock | writeAcquire _ form f d m r hLock =>
    cases r with
    | running f' => exact .inl (Lock.cause_of_abort hLock hAborted)
    | _ => cases hAborted
  | tryReadAbort _ arc at_ =>
    refine .inr (.inl ?_)
    by_contra hSmall
    cases at_ with
    | load => cases h
    | loop state =>
      have hLe : ¬ state > p.isizeMax := hSmall
      simp only [step, alone, stepTryRead, if_neg hLe] at h
      split at h
      · cases h
      · split at h <;> cases h
  | readAbort _ form state listener =>
    refine .inr (.inl ?_)
    cases c with
    | go elapsed =>
      obtain ⟨⟨s₁, r⟩, hPoll, hEq⟩ := Option.map_eq_some_iff.mp h
      cases r <;> cases hEq
      exact lt_of_poll_aborted hPoll
    | drop =>
      simp only [step] at h
      split at h
      · cases h
      · obtain ⟨_, _, hEq⟩ := Option.map_eq_some_iff.mp h
        cases hEq
    | _ => cases h
  | tryUpgradableAbort _ arc =>
    refine .inr (.inr ⟨rfl, ?_⟩)
    by_contra hSmall
    simp [step, alone, stepTryUpgradable, hSmall] at h
  | upgradableAbort _ form listener =>
    refine .inr (.inr ⟨rfl, ?_⟩)
    by_contra hSmall
    simp [step, stepUpgradableRead, hSmall] at h
  | _ => cases hAborted

end

/-- Nobody has aborted, and while there are few objects nobody has observed too many readers. -/
structure Calm (p : Platform) (s : State (RwLock α) Object) : Prop where
  alive : Alive Object.Aborted s
  observed : census Object.lives s.pool ≤ p.quarter → ∀ o ∈ s.pool, o.observed ≤ p.isizeMax

namespace Calm

variable {value : α} {u : State (RwLock α) Object}

/-- A new read has looked at a count to which it does not belong. -/
theorem call (hu : Calm p u) (hPast : (machine p).Reaches (initial value) u) (k : Call) :
    Calm p ⟨u.mem, u.pool ++ [create u.mem k]⟩ := by
  constructor
  · exact hu.alive.append (by cases k <;> exact id)
  · intro hFew o ho
    have hLedger := ledger_of_reaches hPast hu.alive
    have hState := hLedger.state_eq
    have hOwners := hLedger.mutex.owners_le
    have hReaders := census_le Object.reader_le_lives u.pool
    have hQuarter := p.two_mul_quarter
    simp only [census_append, census_cons, census_nil] at hFew
    rcases List.mem_append.mp ho with hOld | hNew
    · exact hu.observed (by omega) o hOld
    · rw [List.mem_singleton.mp hNew]
      unfold Platform.isizeMax
      cases k with
      | readAs form =>
        simp only [create, Object.observed, Object.lives] at hFew ⊢
        omega
      | _ => exact Nat.zero_le _

theorem act (hu : Calm p u) (hPast : (machine p).Reaches (initial value) u)
    (hFew : census Object.lives u.pool ≤ p.quarter) {i : Nat} {c : Choice α} {s' : RwLock α}
    {o o' : Object} {new : List Object} (hGet : u.pool[i]? = some o)
    (hAct : step p i c u.mem o = some (s', o', new)) : Calm p ⟨s', u.pool.set i o' ++ new⟩ := by
  have hLedger := ledger_of_reaches hPast hu.alive
  have hState := hLedger.state_eq
  have hOwners := hLedger.mutex.owners_le
  have hLives := Object.lives_eq hAct
  have hWord (hReader : o.reader = 0) : u.mem.state ≤ p.isizeMax :=
    word_le Object.reader_le_lives hGet (by omega) hFew
      (show _ = census Object.writer u.pool + census Object.granted u.pool + _ by omega) (by omega)
  have hMutex (hStarved : o.starved = 0) : u.mem.mutex.state ≤ p.isizeMax :=
    word_le Object.starved_le_lives hGet (by omega) hFew hLedger.mutex.state_eq hOwners
  have hObserved := hu.observed hFew
  constructor
  · refine hu.alive.act (fun hAborted => ?_) fun n hn hAborted => ?_
    · rcases cause_of_abort hAct hAborted with ⟨hStarved, hBig⟩ | hBig | ⟨hReader, hBig⟩
      · exact absurd (hMutex hStarved) (by omega)
      · exact absurd (hObserved o (List.mem_of_getElem? hGet)) (by omega)
      · exact absurd (hWord hReader) (by omega)
    · rw [← Object.role_aborted] at hAborted
      rcases (step_use hAct).2 n hn with hRole | hRole <;> rw [hRole] at hAborted <;>
        exact hAborted
  · intro _ q hq
    obtain ⟨hSelf, hNew⟩ := step_observed hAct
    rcases mem_of_act hq with hOld | rfl | hMem
    · exact hObserved q hOld
    · by_cases hReader : o.reader = 0
      · rcases hSelf with hSame | hState' | hZero
        · rw [hSame]
          exact hObserved o (List.mem_of_getElem? hGet)
        · rw [hState']
          exact hWord hReader
        · rw [hZero]
          exact Nat.zero_le _
      · rw [observed_of_reader hAct hReader]
        exact Nat.zero_le _
    · rw [hNew q hMem]
      exact Nat.zero_le _

end Calm

theorem no_abort_of_few_objects {value : α} {acts : List (Action Call (Choice α))}
    {s : State (RwLock α) Object} (h : (machine p).run (initial value) acts = some s)
    (hFew : (machine p).Along (Few p) (initial value) acts) : Alive Object.Aborted s := by
  have hCalm : Calm p s := Machine.invariant_along (P := Calm p) h hFew
    ⟨by simp [Alive, initial], by simp [initial]⟩
    fun u a v hPast hOk hNext hu => by
      cases a with
      | call k =>
        cases hNext
        exact hu.call hPast k
      | act i c =>
        obtain ⟨o, mem, o', new, hGet, hAct, rfl⟩ := Machine.next_act hNext
        exact hu.act hPast hOk hGet hAct
  exact hCalm.alive

theorem no_abort_of_few_objects_writeAfterRead : Alive Object.Aborted writeGranted :=
  no_abort_of_few_objects
    (show (machine platform64).run (initial 7) writeAfterRead = some writeGranted by
      decide +kernel) (by decide +kernel)

end RwLock

end AsyncLock
