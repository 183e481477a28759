import AsyncLock.Interleaving.Tally
import AsyncLock.Mutex.Lock

/-! # The mutex

The objects are calls of `try_lock`, lock futures, guards, and the finished futures that have
not been dropped yet. Every lock operation of every form goes through the same actions.
-/
namespace AsyncLock.Mutex
set_option autoImplicit false

open Interleaving

inductive Object where
  | tryLock (arc : Bool)
  | lock (form : Form) (f : Lock)
  | finished (listener : Bool)
  | guard (arc : Bool)
  | unlocking
  | gone
deriving DecidableEq

inductive Call where
  | lockAs (form : Form)
  | tryLockAs (arc : Bool)
deriving DecidableEq

namespace Call

def lock : Call := lockAs ⟨false, false⟩

def lockBlocking : Call := lockAs ⟨false, true⟩

def lockArc : Call := lockAs ⟨true, false⟩

def lockArcBlocking : Call := lockAs ⟨true, true⟩

def tryLock : Call := tryLockAs false

def tryLockArc : Call := tryLockAs true

end Call

def create (_ : Mutex) : Call → Object
  | .lockAs form => .lock form .unpolled
  | .tryLockAs arc => .tryLock arc

/-- Where a lock operation has got to, with the guard it returns once it is ready. -/
def lockStep (form : Form) : Mutex × LockOutcome → Mutex × Object × List Object
  | (m, .running f) => (m, .lock form f, [])
  | (m, .ready listener) => (m, .finished listener, [.guard form.arc])
  | (m, .dropped) => (m, .gone, [])

def step (p : Platform) (i : Nat) (c : LockChoice) (m : Mutex) :
    Object → Option (Mutex × Object × List Object)
  | .tryLock arc =>
    match m.tryLock with
    | some m' => some (m', .guard arc, [])
    | none => some (m, .gone, [])
  | .lock form f =>
    if form.blocking ∧ c = .drop then none else (f.step p i c m).map (lockStep form)
  | .finished listener =>
    some (if listener then { m with lockOps := m.lockOps.discard i } else m, .gone, [])
  | .guard _ => some (m.unlockUnchecked p, .unlocking, [])
  | .unlocking => some (m.notifyLockOps, .gone, [])
  | .gone => none

def machine (p : Platform) : Machine Mutex Object Call LockChoice := ⟨create, step p⟩

def initial : State Mutex Object := ⟨Mutex.new, []⟩

namespace Object

/-- A live guard, or an operation that has set the lock bit and not returned its guard yet. -/
def owns : Object → Nat
  | lock _ f => f.owns
  | guard _ => 1
  | _ => 0

def starved : Object → Nat
  | lock _ f => f.starved
  | _ => 0

def listens : Object → Bool
  | lock _ f => f.listens
  | finished listener => listener
  | _ => false

def Aborted : Object → Prop
  | lock _ f => f.Aborted
  | _ => False

end Object

/-- One constructor for each transition of an object. -/
inductive Acts (p : Platform) (i : Nat) (m : Mutex) (c : LockChoice) :
    Object → Mutex → Object → List Object → Prop
  | tryTake (arc : Bool) (hFree : m.state = 0) :
      Acts p i m c (.tryLock arc) { m with state := 1 } (.guard arc) []
  | tryFail (arc : Bool) : Acts p i m c (.tryLock arc) m .gone []
  | lockRun (form : Form) (f f' : Lock) (m' : Mutex)
      (hLock : f.step p i c m = some (m', .running f')) :
      Acts p i m c (.lock form f) m' (.lock form f') []
  | lockReady (form : Form) (f : Lock) (m' : Mutex) (listener : Bool)
      (hLock : f.step p i c m = some (m', .ready listener)) :
      Acts p i m c (.lock form f) m' (.finished listener) [.guard form.arc]
  | lockDrop (form : Form) (f : Lock) (m' : Mutex)
      (hLock : f.step p i c m = some (m', .dropped)) : Acts p i m c (.lock form f) m' .gone []
  | finish : Acts p i m c (.finished false) m .gone []
  | finishListener :
      Acts p i m c (.finished true) { m with lockOps := m.lockOps.discard i } .gone []
  | unlock (arc : Bool) : Acts p i m c (.guard arc) (m.unlockUnchecked p) .unlocking []
  | unlockNotify : Acts p i m c .unlocking m.notifyLockOps .gone []

theorem step_acts {p : Platform} {i : Nat} {c : LockChoice} {m m' : Mutex} {o o' : Object}
    {new : List Object} (h : step p i c m o = some (m', o', new)) : Acts p i m c o m' o' new := by
  cases o with
  | tryLock arc =>
    simp only [step] at h
    split at h
    · obtain ⟨hFree, rfl⟩ := tryLock_eq_some ‹_›
      cases h
      exact .tryTake _ hFree
    · cases h
      exact .tryFail _
  | lock form f =>
    simp only [step] at h
    split at h
    · cases h
    · obtain ⟨⟨m₁, r⟩, hLock, hResult⟩ := Option.map_eq_some_iff.mp h
      cases r <;> cases hResult
      · exact .lockRun _ _ _ _ hLock
      · exact .lockReady _ _ _ _ hLock
      · exact .lockDrop _ _ _ hLock
  | finished listener => cases listener <;> cases h <;> constructor
  | guard | unlocking =>
    cases h
    constructor
  | gone => cases h

theorem step_new {p : Platform} {i : Nat} {c : LockChoice} {m m' : Mutex} {o o' : Object}
    {new : List Object} (h : step p i c m o = some (m', o', new)) :
    new = [] ∨ ∃ arc, new = [.guard arc] := by
  cases step_acts h with
  | lockReady => exact .inr ⟨_, rfl⟩
  | _ => exact .inl rfl

end AsyncLock.Mutex
