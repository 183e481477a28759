import AsyncLock.RwLock.Machine

/-! # What a step of the reader-writer lock can do

`Acts` has one constructor for each transition of an object, with the tests of the source that
lead to it. Every invariant of the lock is proved by cases on it.
-/
namespace AsyncLock.RwLock
set_option autoImplicit false

open Interleaving

variable {α : Type*}

inductive Acts (p : Platform) (i : Nat) (s : RwLock α) :
    Choice α → Object → RwLock α → Object → List Object → Prop
  | tryReadLook (c : Choice α) (arc : Bool) (at_ : TryReadPoint) :
      Acts p i s c (.tryRead arc at_) s (.tryRead arc (.loop s.state)) []
  | tryReadFail (c : Choice α) (arc : Bool) (at_ : TryReadPoint) :
      Acts p i s c (.tryRead arc at_) s .gone []
  | tryReadAbort (c : Choice α) (arc : Bool) (at_ : TryReadPoint) :
      Acts p i s c (.tryRead arc at_) s .aborted []
  | tryReadTake (c : Choice α) (arc : Bool) (hBit : s.state % 2 = 0)
      (hSmall : s.state ≤ p.isizeMax) : Acts p i s c (.tryRead arc (.loop s.state))
      { s with state := s.state + 2 } (.readGuard arc) []
  | readBegin (c : Choice α) (form : Form) (state : Nat) :
      Acts p i s c (.read form (.unpolled state)) s (.read form (.loop state false)) []
  | readAbort (c : Choice α) (form : Form) (state : Nat) (listener : Bool) :
      Acts p i s c (.read form (.loop state listener)) s .aborted []
  | readTake (c : Choice α) (form : Form) (listener : Bool) (hBit : s.state % 2 = 0)
      (hSmall : s.state ≤ p.isizeMax) : Acts p i s c (.read form (.loop s.state listener))
      { s with state := s.state + 2 } (.readDone listener) [.readGuard form.arc]
  | readRetry (c : Choice α) (form : Form) (state : Nat) (listener : Bool)
      (hBit : state % 2 = 0) : Acts p i s c (.read form (.loop state listener)) s
      (.read form (.loop s.state listener)) []
  | readListen (c : Choice α) (form : Form) (state : Nat) (hBit : state % 2 = 1) :
      Acts p i s c (.read form (.loop state false))
      { s with noWriter := s.noWriter.listen i } (.read form (.reload true)) []
  | readConsume (c : Choice α) (form : Form) (state : Nat) (hBit : state % 2 = 1)
      (hMark : (s.noWriter.markOf i).isSome) : Acts p i s c (.read form (.loop state true))
      { s with noWriter := s.noWriter.remove i } (.read form .passOn) []
  | readPassOn (c : Choice α) (form : Form) :
      Acts p i s c (.read form .passOn) s.notifyNoWriter (.read form (.reload false)) []
  | readReload (c : Choice α) (form : Form) (listener : Bool) :
      Acts p i s c (.read form (.reload listener)) s (.read form (.loop s.state listener)) []
  | readCancel (c : Choice α) (form : Form) (state : Nat) :
      Acts p i s c (.read form (.unpolled state)) s .gone []
  | readCancelListener (c : Choice α) (form : Form) (state : Nat) (hBit : state % 2 = 1) :
      Acts p i s c (.read form (.loop state true)) (discardNoWriter i s true) .gone []
  | readFinish (c : Choice α) (listener : Bool) :
      Acts p i s c (.readDone listener) (discardNoWriter i s listener) .gone []
  | readUnlockLast (arc : Bool) (hLast : s.state / 2 = 1) :
      Acts p i s .drop (.readGuard arc) (s.fetchSub p 2) .readUnlocking []
  | readUnlock (arc : Bool) (hLast : s.state / 2 ≠ 1) :
      Acts p i s .drop (.readGuard arc) (s.fetchSub p 2) .gone []
  | readNotify (c : Choice α) : Acts p i s c .readUnlocking s.notifyNoReaders .gone []
  | tryUpgradableLock (c : Choice α) (arc : Bool) (hFree : s.mutex.state = 0) :
      Acts p i s c (.tryUpgradable arc .lock) { s with mutex := { s.mutex with state := 1 } }
      (.tryUpgradable arc .load) []
  | tryUpgradableFail (c : Choice α) (arc : Bool) :
      Acts p i s c (.tryUpgradable arc .lock) s .gone []
  | tryUpgradableAbort (c : Choice α) (arc : Bool) :
      Acts p i s c (.tryUpgradable arc .load) s .aborted []
  | tryUpgradableLoad (c : Choice α) (arc : Bool) (hSmall : s.state ≤ p.isizeMax) :
      Acts p i s c (.tryUpgradable arc .load) s (.tryUpgradable arc (.exchange s.state)) []
  | tryUpgradableTake (c : Choice α) (arc : Bool) :
      Acts p i s c (.tryUpgradable arc (.exchange s.state)) (s.fetchAdd p 2)
      (.upgradableGuard arc i) []
  | tryUpgradableRetry (c : Choice α) (arc : Bool) (state : Nat) :
      Acts p i s c (.tryUpgradable arc (.exchange state)) s
      (.tryUpgradable arc (.exchange s.state)) []
  | upgradableAcquire (c : Choice α) (form : Form) (f : Lock) (d : LockChoice) (m : Mutex)
      (r : LockOutcome) (hLock : f.step p i d s.mutex = some (m, r)) :
      Acts p i s c (.upgradableRead form (.acquire f)) { s with mutex := m }
      (upgradableOutcome form r) []
  | upgradableAbort (c : Choice α) (form : Form) (listener : Bool) :
      Acts p i s c (.upgradableRead form (.load listener)) s .aborted []
  | upgradableLoad (c : Choice α) (form : Form) (listener : Bool)
      (hSmall : s.state ≤ p.isizeMax) : Acts p i s c (.upgradableRead form (.load listener)) s
      (.upgradableRead form (.exchange listener s.state)) []
  | upgradableTake (c : Choice α) (form : Form) (listener : Bool) :
      Acts p i s c (.upgradableRead form (.exchange listener s.state)) (s.fetchAdd p 2)
      (.upgradableDone listener) [.upgradableGuard form.arc i]
  | upgradableRetry (c : Choice α) (form : Form) (listener : Bool) (state : Nat) :
      Acts p i s c (.upgradableRead form (.exchange listener state)) s
      (.upgradableRead form (.exchange listener s.state)) []
  | upgradableFinish (c : Choice α) (listener : Bool) :
      Acts p i s c (.upgradableDone listener) (discardLockOps i s listener) .gone []
  | upgradableUnlockLast (arc : Bool) (chain : Nat) (hLast : s.state / 2 = 1) :
      Acts p i s .drop (.upgradableGuard arc chain) (s.fetchSub p 2) .upgradableUnlocking []
  | upgradableUnlock (arc : Bool) (chain : Nat) (hLast : s.state / 2 ≠ 1) :
      Acts p i s .drop (.upgradableGuard arc chain) (s.fetchSub p 2) .unlocking []
  | upgradableDowngrade (arc : Bool) (chain : Nat) :
      Acts p i s .downgrade (.upgradableGuard arc chain) (s.unlockMutex p)
      (.upgradableDowngrading arc) []
  | tryUpgrade (arc : Bool) (chain : Nat) (hAlone : s.state = 2) :
      Acts p i s .tryUpgrade (.upgradableGuard arc chain) { s with state := 1 }
      (.writeGuard arc chain) []
  | tryUpgradeFail (arc : Bool) (chain : Nat) (hOthers : s.state ≠ 2) :
      Acts p i s .tryUpgrade (.upgradableGuard arc chain) s (.upgradableGuard arc chain) []
  | upgrade (arc blocking : Bool) (chain : Nat) :
      Acts p i s (.upgrade blocking) (.upgradableGuard arc chain) (s.fetchSub p 1)
      (.waiting .upgrade ⟨arc, blocking⟩ chain (.idle false)) []
  | upgradableNotify (c : Choice α) :
      Acts p i s c .upgradableUnlocking s.notifyNoReaders .unlocking []
  | upgradableDowngraded (c : Choice α) (arc : Bool) :
      Acts p i s c (.upgradableDowngrading arc) s.notifyLockOps (.readGuard arc) []
  | tryWriteLock (c : Choice α) (arc : Bool) (hFree : s.mutex.state = 0) :
      Acts p i s c (.tryWrite arc .lock) { s with mutex := { s.mutex with state := 1 } }
      (.tryWrite arc .exchange) []
  | tryWriteFail (c : Choice α) (arc : Bool) : Acts p i s c (.tryWrite arc .lock) s .gone []
  | tryWriteTake (c : Choice α) (arc : Bool) (hFree : s.state = 0) :
      Acts p i s c (.tryWrite arc .exchange) { s with state := 1 } (.writeGuard arc i) []
  | tryWriteGiveUp (c : Choice α) (arc : Bool) :
      Acts p i s c (.tryWrite arc .exchange) s .unlocking []
  | writeAcquire (c : Choice α) (form : Form) (f : Lock) (d : LockChoice) (m : Mutex)
      (r : LockOutcome) (hLock : f.step p i d s.mutex = some (m, r)) :
      Acts p i s c (.write form (.acquiring f)) { s with mutex := m } (writeOutcome form r) []
  | writeSetBit (c : Choice α) (form : Form) (listener : Bool) :
      Acts p i s c (.write form (.setBit listener)) s.setWriterBit
      (.write form (.listen listener)) []
  | writeSetBitAgain (c : Choice α) (form : Form) (listener : Bool) (hSet : s.state = 1) :
      Acts p i s c (.write form (.setBit listener)) s.setWriterBit
      (.write form (.replace listener true)) []
  | writeListen (c : Choice α) (form : Form) (listener : Bool) :
      Acts p i s c (.write form (.listen listener))
      { s with noReaders := s.noReaders.listen i } (.write form (.replace listener false)) []
  | writeAcquired (c : Choice α) (form : Form) (listener : Bool) :
      Acts p i s c (.write form (.replace listener true)) (discardLockOps i s listener)
      (.writeDone false) [.writeGuard form.arc i]
  | writeWaits (c : Choice α) (form : Form) (listener : Bool) :
      Acts p i s c (.write form (.replace listener false)) (discardLockOps i s listener)
      (.waiting .write form i (.check true)) []
  | waitingBegin (c : Choice α) (kind : WaitingKind) (form : Form) (chain : Nat)
      (listener : Bool) : Acts p i s c (.waiting kind form chain (.idle listener)) s
      (.waiting kind form chain (.check listener)) []
  | waitingReady (c : Choice α) (kind : WaitingKind) (form : Form) (chain : Nat)
      (listener : Bool) (hAlone : s.state = 1) :
      Acts p i s c (.waiting kind form chain (.check listener)) s (.writeDone listener)
      [.writeGuard form.arc chain]
  | waitingSleep (c : Choice α) (kind : WaitingKind) (form : Form) (chain : Nat)
      (hReaders : s.state ≠ 1) : Acts p i s c (.waiting kind form chain (.check true)) s
      (.waiting kind form chain .wait) []
  | waitingRegister (c : Choice α) (kind : WaitingKind) (form : Form) (chain : Nat)
      (hReaders : s.state ≠ 1) : Acts p i s c (.waiting kind form chain (.check false)) s
      (.waiting kind form chain .listen) []
  | waitingListen (c : Choice α) (kind : WaitingKind) (form : Form) (chain : Nat) :
      Acts p i s c (.waiting kind form chain .listen)
      { s with noReaders := s.noReaders.listen i } (.waiting kind form chain (.check true)) []
  | waitingConsume (c : Choice α) (kind : WaitingKind) (form : Form) (chain : Nat)
      (hMark : (s.noReaders.markOf i).isSome) : Acts p i s c (.waiting kind form chain .wait)
      { s with noReaders := s.noReaders.remove i } (.waiting kind form chain (.check false)) []
  | waitingPending (c : Choice α) (kind : WaitingKind) (form : Form) (chain : Nat) :
      Acts p i s c (.waiting kind form chain .wait) s (.waiting kind form chain (.idle true)) []
  | waitingCancel (kind : WaitingKind) (form : Form) (chain : Nat)
      (listener : Bool) : Acts p i s .drop (.waiting kind form chain (.idle listener))
      s.clearWriterBit (.writeUnlocking listener .notifyNoWriter) []
  | writeFinish (c : Choice α) (listener : Bool) :
      Acts p i s c (.writeDone listener) (discardNoReaders i s listener) .gone []
  | writeUnlock (arc : Bool) (chain : Nat) : Acts p i s .drop (.writeGuard arc chain)
      s.clearWriterBit (.writeUnlocking false .notifyNoWriter) []
  | writeDowngrade (arc : Bool) (chain : Nat) :
      Acts p i s .downgrade (.writeGuard arc chain) (s.fetchAdd p 1)
      (.writeDowngrading arc .unlockMutex) []
  | downgradeToUpgradable (arc : Bool) (chain : Nat) :
      Acts p i s .downgradeToUpgradable (.writeGuard arc chain) (s.fetchAdd p 1)
      (.upgradableGuard arc chain) []
  | writeValue (arc : Bool) (chain : Nat) (value : α) :
      Acts p i s (.write value) (.writeGuard arc chain) { s with value := value }
      (.writeGuard arc chain) []
  | writeUnlockNotify (c : Choice α) (listener : Bool) :
      Acts p i s c (.writeUnlocking listener .notifyNoWriter) s.notifyNoWriter
      (.writeUnlocking listener .unlockMutex) []
  | writeUnlockMutex (c : Choice α) (listener : Bool) :
      Acts p i s c (.writeUnlocking listener .unlockMutex) (s.unlockMutex p)
      (.writeUnlocking listener .notifyLockOps) []
  | writeUnlockNotifyOps (c : Choice α) (listener : Bool) :
      Acts p i s c (.writeUnlocking listener .notifyLockOps) s.notifyLockOps
      (.writeUnlocking listener .dropListener) []
  | writeUnlocked (c : Choice α) (listener : Bool) :
      Acts p i s c (.writeUnlocking listener .dropListener) (discardNoReaders i s listener)
      .gone []
  | writeDowngradeMutex (c : Choice α) (arc : Bool) :
      Acts p i s c (.writeDowngrading arc .unlockMutex) (s.unlockMutex p)
      (.writeDowngrading arc .notifyLockOps) []
  | writeDowngradeNotifyOps (c : Choice α) (arc : Bool) :
      Acts p i s c (.writeDowngrading arc .notifyLockOps) s.notifyLockOps
      (.writeDowngrading arc .notifyNoWriter) []
  | writeDowngraded (c : Choice α) (arc : Bool) :
      Acts p i s c (.writeDowngrading arc .notifyNoWriter) s.notifyNoWriter (.readGuard arc) []
  | unlock (c : Choice α) : Acts p i s c .unlocking (s.unlockMutex p) .notifyingLockOps []
  | unlocked (c : Choice α) : Acts p i s c .notifyingLockOps s.notifyLockOps .gone []

variable {p : Platform} {i : Nat} {c : Choice α} {s s' : RwLock α}

@[simp] theorem and_writerBit (state : Nat) : state &&& writerBit = state % 2 :=
  Nat.and_one_is_mod state

@[simp] theorem oneReader_sub_writerBit : oneReader - writerBit = 1 := rfl

theorem compareExchange_cases (s : RwLock α) (expected new : Nat) :
    (s.state = expected ∧ s.compareExchange expected new = some { s with state := new }) ∨
    (s.state ≠ expected ∧ s.compareExchange expected new = none) := by
  unfold compareExchange
  split
  · exact .inl ⟨‹_›, rfl⟩
  · exact .inr ⟨‹_›, rfl⟩

theorem tryLockMutex_cases (s : RwLock α) :
    (s.mutex.state = 0 ∧
      s.tryLockMutex = some { s with mutex := { s.mutex with state := 1 } }) ∨
    s.tryLockMutex = none := by
  unfold tryLockMutex Mutex.tryLock
  split
  · exact .inl ⟨‹_›, rfl⟩
  · exact .inr rfl

theorem lastReader_iff (state : Nat) : lastReader state = true ↔ state / 2 = 1 := by
  simp only [lastReader, writerBit, oneReader, ldiff_one, decide_eq_true_eq]
  omega

theorem lockStep_eq_some {form : Form} {f : Lock} {r : LockOutcome}
    (h : lockStep p i c s form f = some (s', r)) :
    ∃ d m, f.step p i d s.mutex = some (m, r) ∧ s' = { s with mutex := m } := by
  cases c with
  | go elapsed => exact ⟨_, Lock.step_within h⟩
  | drop =>
    simp only [lockStep] at h
    split at h
    · cases h
    · exact ⟨_, Lock.step_within h⟩
  | _ => cases h

/-! ## Object by object -/

section

variable {o' : Object} {new : List Object}

theorem acts_tryRead {arc : Bool} {at_ : TryReadPoint}
    (h : stepTryRead p s arc at_ = (s', o')) : Acts p i s c (.tryRead arc at_) s' o' [] := by
  cases at_ with
  | load =>
    cases h
    exact .tryReadLook _ _ _
  | loop state =>
    simp only [stepTryRead, and_writerBit] at h
    split_ifs at h with hBit hBig
    · cases h
      exact .tryReadFail _ _ _
    · cases h
      exact .tryReadAbort _ _ _
    · rcases compareExchange_cases s state (state + oneReader) with ⟨rfl, hEq⟩ | ⟨_, hEq⟩ <;>
        rw [hEq] at h <;> cases h
      · exact .tryReadTake _ _ (by omega) (by omega)
      · exact .tryReadLook _ _ _

theorem acts_read {form : Form} {f : Read}
    (h : step p i c s (.read form f) = some (s', o', new)) :
    Acts p i s c (.read form f) s' o' new := by
  cases c with
  | go elapsed =>
    obtain ⟨⟨s₁, r⟩, hPoll, hEq⟩ := Option.map_eq_some_iff.mp h
    cases f with
    | unpolled state =>
      cases hPoll
      cases hEq
      exact .readBegin _ _ _
    | loop state listener =>
      simp only [Read.poll, and_writerBit] at hPoll
      split_ifs at hPoll with hBit hBig hListener hMark
      · cases hPoll
        cases hEq
        exact .readAbort _ _ _ _
      · rcases compareExchange_cases s state (state + oneReader) with ⟨rfl, hEx⟩ | ⟨_, hEx⟩ <;>
          rw [hEx] at hPoll <;> cases hPoll <;> cases hEq
        · exact .readTake _ _ _ hBit (by omega)
        · exact .readRetry _ _ _ _ hBit
      · cases hPoll
        cases hEq
        subst hListener
        exact .readConsume _ _ _ (by omega) hMark
      · cases hPoll
        cases hEq
        rw [Bool.not_eq_true] at hListener
        subst hListener
        exact .readListen _ _ _ (by omega)
    | passOn =>
      cases hPoll
      cases hEq
      exact .readPassOn _ _
    | reload listener =>
      cases hPoll
      cases hEq
      exact .readReload _ _ _
  | drop =>
    simp only [step] at h
    split at h
    · cases h
    · obtain ⟨s₁, hDrop, hEq⟩ := Option.map_eq_some_iff.mp h
      cases hEq
      cases f with
      | unpolled state =>
        cases hDrop
        exact .readCancel _ _ _
      | loop state listener =>
        simp only [Read.drop, and_writerBit] at hDrop
        split at hDrop
        · rename_i hParked
          cases hDrop
          rw [hParked.1]
          exact .readCancelListener _ _ _ (by omega)
        · cases hDrop
      | _ => cases hDrop
  | _ => cases h

theorem acts_tryUpgradable {arc : Bool} {at_ : TryUpgradablePoint}
    (h : stepTryUpgradable p i s arc at_ = (s', o')) :
    Acts p i s c (.tryUpgradable arc at_) s' o' [] := by
  cases at_ with
  | lock =>
    rw [stepTryUpgradable] at h
    rcases tryLockMutex_cases s with ⟨hFree, hEq⟩ | hEq <;> rw [hEq] at h <;> cases h
    · exact .tryUpgradableLock _ _ hFree
    · exact .tryUpgradableFail _ _
  | load =>
    rw [stepTryUpgradable] at h
    split at h <;> cases h
    · exact .tryUpgradableAbort _ _
    · exact .tryUpgradableLoad _ _ (by omega)
  | exchange state =>
    rw [stepTryUpgradable] at h
    rcases compareExchange_cases s state (wrappingAdd p.bits state oneReader) with
      ⟨rfl, hEq⟩ | ⟨_, hEq⟩ <;> rw [hEq] at h <;> cases h
    · exact .tryUpgradableTake _ _
    · exact .tryUpgradableRetry _ _ _

theorem acts_upgradableRead {form : Form} {at_ : UpgradablePoint}
    (h : stepUpgradableRead p i c s form at_ = some (s', o', new)) :
    Acts p i s c (.upgradableRead form at_) s' o' new := by
  cases at_ with
  | acquire f =>
    obtain ⟨⟨s₁, r⟩, hLock, hEq⟩ := Option.map_eq_some_iff.mp h
    cases hEq
    obtain ⟨d, m, hStep, rfl⟩ := lockStep_eq_some hLock
    exact .upgradableAcquire _ _ _ _ _ _ hStep
  | load listener =>
    rw [stepUpgradableRead] at h
    split at h <;> cases h
    · exact .upgradableAbort _ _ _
    · exact .upgradableLoad _ _ _ (by omega)
  | exchange listener state =>
    rw [stepUpgradableRead] at h
    rcases compareExchange_cases s state (wrappingAdd p.bits state oneReader) with
      ⟨rfl, hEq⟩ | ⟨_, hEq⟩ <;> rw [hEq] at h <;> cases h
    · exact .upgradableTake _ _ _
    · exact .upgradableRetry _ _ _ _

theorem acts_upgradableGuard {arc : Bool} {chain : Nat}
    (h : stepUpgradableGuard p c s arc chain = some (s', o')) :
    Acts p i s c (.upgradableGuard arc chain) s' o' [] := by
  cases c with
  | drop =>
    simp only [stepUpgradableGuard, lastReader_iff] at h
    split at h <;> cases h
    · exact .upgradableUnlockLast _ _ ‹_›
    · exact .upgradableUnlock _ _ ‹_›
  | downgrade =>
    cases h
    exact .upgradableDowngrade _ _
  | tryUpgrade =>
    simp only [stepUpgradableGuard] at h
    rcases compareExchange_cases s oneReader writerBit with ⟨hAlone, hEq⟩ | ⟨hOthers, hEq⟩ <;>
      rw [hEq] at h <;> cases h
    · exact .tryUpgrade _ _ hAlone
    · exact .tryUpgradeFail _ _ hOthers
  | upgrade blocking =>
    cases h
    exact .upgrade _ _ _
  | _ => cases h

theorem acts_tryWrite {arc : Bool} {at_ : TryWritePoint} (h : stepTryWrite i s arc at_ = (s', o')) :
    Acts p i s c (.tryWrite arc at_) s' o' [] := by
  cases at_ with
  | lock =>
    rw [stepTryWrite] at h
    rcases tryLockMutex_cases s with ⟨hFree, hEq⟩ | hEq <;> rw [hEq] at h <;> cases h
    · exact .tryWriteLock _ _ hFree
    · exact .tryWriteFail _ _
  | exchange =>
    rw [stepTryWrite] at h
    rcases compareExchange_cases s 0 writerBit with ⟨hFree, hEq⟩ | ⟨_, hEq⟩ <;>
      rw [hEq] at h <;> cases h
    · exact .tryWriteTake _ _ hFree
    · exact .tryWriteGiveUp _ _

theorem acts_write {form : Form} {at_ : WritePoint}
    (h : stepWrite p i c s form at_ = some (s', o', new)) :
    Acts p i s c (.write form at_) s' o' new := by
  cases at_ with
  | acquiring f =>
    obtain ⟨⟨s₁, r⟩, hLock, hEq⟩ := Option.map_eq_some_iff.mp h
    cases hEq
    obtain ⟨d, m, hStep, rfl⟩ := lockStep_eq_some hLock
    exact .writeAcquire _ _ _ _ _ _ hStep
  | setBit listener =>
    rw [stepWrite] at h
    split at h <;> cases h
    · exact .writeSetBitAgain _ _ _ ‹_›
    · exact .writeSetBit _ _ _
  | listen listener =>
    cases h
    exact .writeListen _ _ _
  | replace listener acquired =>
    cases acquired <;> cases h
    · exact .writeWaits _ _ _
    · exact .writeAcquired _ _ _

theorem acts_waiting {kind : WaitingKind} {form : Form} {chain : Nat} {w : Waiting}
    (h : stepWaiting i c s kind form chain w = some (s', o', new)) :
    Acts p i s c (.waiting kind form chain w) s' o' new := by
  cases c with
  | go elapsed =>
    obtain ⟨⟨s₁, r⟩, hPoll, hEq⟩ := Option.map_eq_some_iff.mp h
    cases w with
    | idle listener =>
      cases hPoll
      cases hEq
      exact .waitingBegin _ _ _ _ _
    | check listener =>
      simp only [Waiting.poll] at hPoll
      split_ifs at hPoll with hAlone hListener <;> cases hPoll <;> cases hEq
      · exact .waitingReady _ _ _ _ _ hAlone
      · subst hListener
        exact .waitingSleep _ _ _ _ hAlone
      · rw [Bool.not_eq_true] at hListener
        subst hListener
        exact .waitingRegister _ _ _ _ hAlone
    | listen =>
      cases hPoll
      cases hEq
      exact .waitingListen _ _ _ _
    | wait =>
      simp only [Waiting.poll] at hPoll
      split_ifs at hPoll with hMark <;> cases hPoll <;> cases hEq
      · exact .waitingConsume _ _ _ _ hMark
      · exact .waitingPending _ _ _ _
  | drop =>
    cases w with
    | idle listener =>
      simp only [stepWaiting] at h
      split at h <;> cases h
      exact .waitingCancel _ _ _ _
    | _ => cases h
  | _ => cases h

theorem acts_writeGuard {arc : Bool} {chain : Nat}
    (h : stepWriteGuard p c s arc chain = some (s', o')) :
    Acts p i s c (.writeGuard arc chain) s' o' [] := by
  cases c <;> cases h <;> constructor

end

theorem step_acts {o o' : Object} {new : List Object}
    (h : step p i c s o = some (s', o', new)) : Acts p i s c o s' o' new := by
  have hAlone {r : RwLock α × Object} (h : some (alone r) = some (s', o', new)) :
      r = (s', o') ∧ new = [] := by
    cases h
    exact ⟨rfl, rfl⟩
  have hMap {r : Option (RwLock α × Object)} (h : r.map alone = some (s', o', new)) :
      r = some (s', o') ∧ new = [] := by
    obtain ⟨r, rfl, hEq⟩ := Option.map_eq_some_iff.mp h
    cases hEq
    exact ⟨rfl, rfl⟩
  cases o with
  | tryRead arc at_ =>
    obtain ⟨hStep, rfl⟩ := hAlone h
    exact acts_tryRead hStep
  | read form f => exact acts_read h
  | readGuard arc =>
    cases c with
    | drop =>
      simp only [step, lastReader_iff] at h
      split at h <;> cases h
      · exact .readUnlockLast _ ‹_›
      · exact .readUnlock _ ‹_›
    | _ => cases h
  | tryUpgradable arc at_ =>
    obtain ⟨hStep, rfl⟩ := hAlone h
    exact acts_tryUpgradable hStep
  | upgradableRead form at_ => exact acts_upgradableRead h
  | upgradableGuard arc chain =>
    obtain ⟨hStep, rfl⟩ := hMap h
    exact acts_upgradableGuard hStep
  | tryWrite arc at_ =>
    obtain ⟨hStep, rfl⟩ := hAlone h
    exact acts_tryWrite hStep
  | write form at_ => exact acts_write h
  | waiting kind form chain w => exact acts_waiting h
  | writeGuard arc chain =>
    obtain ⟨hStep, rfl⟩ := hMap h
    exact acts_writeGuard hStep
  | writeUnlocking listener at_ => cases at_ <;> cases h <;> constructor
  | writeDowngrading arc at_ => cases at_ <;> cases h <;> constructor
  | readDone | readUnlocking | upgradableDone | upgradableUnlocking | upgradableDowngrading |
      writeDone | unlocking | notifyingLockOps => cases h; constructor
  | aborted | gone => cases h

end AsyncLock.RwLock
