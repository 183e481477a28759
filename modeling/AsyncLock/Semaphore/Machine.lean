import AsyncLock.Interleaving.Ownership
import AsyncLock.Word

/-! # The semaphore

The objects are calls of `try_acquire` and `add_permits`, acquire futures, guards, and what is
left of them. `try_acquire` is a retry loop on a value read before: `load` reads it, `exchange`
is the `compare_exchange_weak` from that value, which may fail spuriously.
-/
namespace AsyncLock
set_option autoImplicit false

open Interleaving

structure Semaphore where
  count : Nat
  event : Event
deriving DecidableEq

namespace Semaphore

def new (n : Nat) : Semaphore := ⟨n, Event.new⟩

inductive TryPoint where
  | load
  | exchange (count : Nat)
deriving DecidableEq

inductive TryOutcome where
  | retry (count : Nat)
  | acquired
  | failed
deriving DecidableEq

/-- The head of the loop of `try_acquire`, with the last value read. -/
def tryLoop (count : Nat) : TryOutcome := if count = 0 then .failed else .retry count

/-- One atomic action of `try_acquire`, and of `try_acquire_arc`. -/
def tryAcquire (bits : Nat) (spurious : Bool) (s : Semaphore) : TryPoint → Semaphore × TryOutcome
  | .load => (s, tryLoop s.count)
  | .exchange count =>
    if s.count = count ∧ ¬ spurious then
      ({ s with count := wrappingSub bits count 1 }, .acquired)
    else (s, tryLoop s.count)

/-- Where an acquire future is, and whether its `listener` is `Some` where this does not follow.
`pending` is before the first poll and after a poll that returned `Pending`; `register` is
before `listen()`; `wait` is at `strategy.poll`, where a blocking call sleeps. -/
inductive AcquirePoint where
  | pending (listener : Bool)
  | trying (listener : Bool) (at_ : TryPoint)
  | register
  | wait
deriving DecidableEq

inductive Object where
  | tryAcquire (arc : Bool) (at_ : TryPoint)
  | acquire (form : Form) (at_ : AcquirePoint)
  | finished (listener : Bool)
  | guard (arc : Bool)
  | releasing
  | forgotten (arc : Bool)
  | addPermits (n : Nat)
  | adding (n : Nat)
  | added (n : Nat)
  | gone
deriving DecidableEq

inductive Call where
  | acquireAs (form : Form)
  | tryAcquireAs (arc : Bool)
  | addPermits (n : Nat)
deriving DecidableEq

namespace Call

def acquire : Call := acquireAs ⟨false, false⟩

def acquireBlocking : Call := acquireAs ⟨false, true⟩

def acquireArc : Call := acquireAs ⟨true, false⟩

def acquireArcBlocking : Call := acquireAs ⟨true, true⟩

def tryAcquire : Call := tryAcquireAs false

def tryAcquireArc : Call := tryAcquireAs true

end Call

/-- `go` takes the next action of a call, of a poll or of a drop under way; `drop` and `forget`
are what an owner may do with a future or a guard. -/
inductive Choice where
  | go (spurious : Bool)
  | drop
  | forget
deriving DecidableEq

def create (_ : Semaphore) : Call → Object
  | .acquireAs form => .acquire form (.pending false)
  | .tryAcquireAs arc => .tryAcquire arc .load
  | .addPermits n => .addPermits n

/-- `poll_with_strategy` of `AcquireInner` and of `AcquireArcInner`. -/
def pollAcquire (bits i : Nat) (spurious : Bool) (s : Semaphore) (form : Form) :
    AcquirePoint → Option (Semaphore × Object × List Object)
  | .pending listener => some (s, .acquire form (.trying listener .load), [])
  | .trying listener at_ =>
    match s.tryAcquire bits spurious at_ with
    | (s', .acquired) => some (s', .finished listener, [.guard form.arc])
    | (s', .retry count) => some (s', .acquire form (.trying listener (.exchange count)), [])
    | (s', .failed) => some (s', .acquire form (if listener then .wait else .register), [])
  | .register =>
    some ({ s with event := s.event.listen i }, .acquire form (.trying true .load), [])
  | .wait =>
    if (s.event.markOf i).isSome then
      some ({ s with event := s.event.remove i }, .acquire form (.trying false .load), [])
    else if form.blocking then none
    else some (s, .acquire form (.pending true), [])

def dropAcquire (i : Nat) (s : Semaphore) (form : Form) :
    AcquirePoint → Option (Semaphore × Object × List Object)
  | .pending listener =>
    if form.blocking then none
    else some (if listener then { s with event := s.event.discard i } else s, .gone, [])
  | _ => none

def step (bits i : Nat) (c : Choice) (s : Semaphore) :
    Object → Option (Semaphore × Object × List Object)
  | .tryAcquire arc at_ =>
    match c with
    | .go spurious =>
      match s.tryAcquire bits spurious at_ with
      | (s', .acquired) => some (s', .guard arc, [])
      | (s', .retry count) => some (s', .tryAcquire arc (.exchange count), [])
      | (s', .failed) => some (s', .gone, [])
    | _ => none
  | .acquire form at_ =>
    match c with
    | .go spurious => pollAcquire bits i spurious s form at_
    | .drop => dropAcquire i s form at_
    | .forget => none
  | .finished listener =>
    some (if listener then { s with event := s.event.discard i } else s, .gone, [])
  | .guard arc =>
    match c with
    | .drop => some ({ s with count := wrappingAdd bits s.count 1 }, .releasing, [])
    | .forget => some (s, .forgotten arc, [])
    | .go _ => none
  | .releasing => some ({ s with event := s.event.notify 1 }, .gone, [])
  | .addPermits n => some ({ s with count := wrappingAdd bits s.count n }, .adding n, [])
  | .adding n => some ({ s with event := s.event.notify n }, .added n, [])
  | .forgotten _ | .added _ | .gone => none

def machine (bits : Nat) : Machine Semaphore Object Call Choice := ⟨create, step bits⟩

def initial (n : Nat) : State Semaphore Object := ⟨Semaphore.new n, []⟩

/-! ## What a step can do -/

theorem tryLoop_cases (count : Nat) :
    (count = 0 ∧ tryLoop count = .failed) ∨ (count ≠ 0 ∧ tryLoop count = .retry count) := by
  unfold tryLoop
  split
  · exact .inl ⟨‹_›, rfl⟩
  · exact .inr ⟨‹_›, rfl⟩

/-- An action of `try_acquire` takes a permit from the value it expects, or changes nothing:
it goes on with the value it has read, unless that is 0. -/
theorem tryAcquire_cases (bits : Nat) (spurious : Bool) (s : Semaphore) (at_ : TryPoint) :
    (at_ = .exchange s.count ∧ s.tryAcquire bits spurious at_ =
      ({ s with count := wrappingSub bits s.count 1 }, .acquired)) ∨
    (s.count = 0 ∧ s.tryAcquire bits spurious at_ = (s, .failed)) ∨
    (s.count ≠ 0 ∧ s.tryAcquire bits spurious at_ = (s, .retry s.count)) := by
  have hLoop := tryLoop_cases s.count
  cases at_ with
  | load =>
    right
    rcases hLoop with ⟨hZero, hEq⟩ | ⟨hZero, hEq⟩
    · exact .inl ⟨hZero, by rw [tryAcquire, hEq]⟩
    · exact .inr ⟨hZero, by rw [tryAcquire, hEq]⟩
  | exchange count =>
    rw [tryAcquire]
    split
    · rename_i hTake
      exact .inl ⟨by rw [hTake.1], by rw [hTake.1]⟩
    · rcases hLoop with ⟨hZero, hEq⟩ | ⟨hZero, hEq⟩
      · exact .inr (.inl ⟨hZero, by rw [hEq]⟩)
      · exact .inr (.inr ⟨hZero, by rw [hEq]⟩)

inductive Acts (bits i : Nat) (s : Semaphore) :
    Choice → Object → Semaphore → Object → List Object → Prop
  | tryTake (c : Choice) (arc : Bool) : Acts bits i s c (.tryAcquire arc (.exchange s.count))
      { s with count := wrappingSub bits s.count 1 } (.guard arc) []
  | tryRetry (c : Choice) (arc : Bool) (at_ : TryPoint) (h : s.count ≠ 0) :
      Acts bits i s c (.tryAcquire arc at_) s (.tryAcquire arc (.exchange s.count)) []
  | tryFail (c : Choice) (arc : Bool) (at_ : TryPoint) (h : s.count = 0) :
      Acts bits i s c (.tryAcquire arc at_) s .gone []
  | poll (c : Choice) (form : Form) (listener : Bool) :
      Acts bits i s c (.acquire form (.pending listener)) s
        (.acquire form (.trying listener .load)) []
  | take (c : Choice) (form : Form) (listener : Bool) :
      Acts bits i s c (.acquire form (.trying listener (.exchange s.count)))
        { s with count := wrappingSub bits s.count 1 } (.finished listener) [.guard form.arc]
  | retry (c : Choice) (form : Form) (listener : Bool) (at_ : TryPoint) (h : s.count ≠ 0) :
      Acts bits i s c (.acquire form (.trying listener at_)) s
        (.acquire form (.trying listener (.exchange s.count))) []
  | toWait (c : Choice) (form : Form) (at_ : TryPoint) (h : s.count = 0) :
      Acts bits i s c (.acquire form (.trying true at_)) s (.acquire form .wait) []
  | toRegister (c : Choice) (form : Form) (at_ : TryPoint) (h : s.count = 0) :
      Acts bits i s c (.acquire form (.trying false at_)) s (.acquire form .register) []
  | register (c : Choice) (form : Form) : Acts bits i s c (.acquire form .register)
      { s with event := s.event.listen i } (.acquire form (.trying true .load)) []
  | consume (c : Choice) (form : Form) (h : (s.event.markOf i).isSome) :
      Acts bits i s c (.acquire form .wait)
        { s with event := s.event.remove i } (.acquire form (.trying false .load)) []
  | toPending (c : Choice) (form : Form) (h : ¬ (s.event.markOf i).isSome)
      (hForm : form.blocking = false) :
      Acts bits i s c (.acquire form .wait) s (.acquire form (.pending true)) []
  | cancel (c : Choice) (form : Form) :
      Acts bits i s c (.acquire form (.pending false)) s .gone []
  | cancelListener (c : Choice) (form : Form) : Acts bits i s c (.acquire form (.pending true))
      { s with event := s.event.discard i } .gone []
  | finish (c : Choice) : Acts bits i s c (.finished false) s .gone []
  | finishListener (c : Choice) :
      Acts bits i s c (.finished true) { s with event := s.event.discard i } .gone []
  | release (arc : Bool) : Acts bits i s .drop (.guard arc)
      { s with count := wrappingAdd bits s.count 1 } .releasing []
  | forget (arc : Bool) : Acts bits i s .forget (.guard arc) s (.forgotten arc) []
  | releaseNotify (c : Choice) :
      Acts bits i s c .releasing { s with event := s.event.notify 1 } .gone []
  | addPermits (c : Choice) (n : Nat) : Acts bits i s c (.addPermits n)
      { s with count := wrappingAdd bits s.count n } (.adding n) []
  | addNotify (c : Choice) (n : Nat) :
      Acts bits i s c (.adding n) { s with event := s.event.notify n } (.added n) []

theorem step_acts {bits i : Nat} {c : Choice} {s s' : Semaphore} {o o' : Object}
    {new : List Object} (h : step bits i c s o = some (s', o', new)) :
    Acts bits i s c o s' o' new := by
  cases o with
  | tryAcquire arc at_ =>
    cases c with
    | go spurious =>
      simp only [step] at h
      rcases tryAcquire_cases bits spurious s at_ with ⟨rfl, hTry⟩ | ⟨hZero, hTry⟩ |
        ⟨hZero, hTry⟩ <;> rw [hTry] at h <;> cases h
      · exact .tryTake _ _
      · exact .tryFail _ _ _ hZero
      · exact .tryRetry _ _ _ hZero
    | _ => cases h
  | acquire form at_ =>
    cases c with
    | go spurious =>
      cases at_ with
      | pending listener =>
        cases h
        exact .poll _ _ _
      | trying listener at_ =>
        simp only [step, pollAcquire] at h
        rcases tryAcquire_cases bits spurious s at_ with ⟨rfl, hTry⟩ | ⟨hZero, hTry⟩ |
          ⟨hZero, hTry⟩ <;> rw [hTry] at h
        · cases h
          exact .take _ _ _
        · cases listener <;> cases h
          · exact .toRegister _ _ _ hZero
          · exact .toWait _ _ _ hZero
        · cases h
          exact .retry _ _ _ _ hZero
      | register =>
        cases h
        exact .register _ _
      | wait =>
        simp only [step, pollAcquire] at h
        split_ifs at h with hMark hBlocking <;> cases h
        · exact .consume _ _ hMark
        · exact .toPending _ _ hMark (by simpa using hBlocking)
    | drop =>
      cases at_ with
      | pending listener =>
        simp only [step, dropAcquire] at h
        split_ifs at h <;> cases h
        · rename_i hListener
          subst hListener
          exact .cancelListener _ _
        · rename_i hListener
          rw [Bool.not_eq_true] at hListener
          subst hListener
          exact .cancel _ _
      | _ => cases h
    | forget => cases h
  | finished listener => cases listener <;> cases h <;> constructor
  | guard arc => cases c <;> cases h <;> constructor
  | releasing | addPermits | adding => cases h; constructor
  | forgotten | added | gone => cases h

end Semaphore
end AsyncLock
