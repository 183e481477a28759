import AsyncLock.Interleaving.Census
import AsyncLock.Barrier.Machine

/-! # Arrivals and stages

Seen from the counter, a `wait` is at one of six stages, and `Moves` says what an action can do to
the stage and to the numbers. The numbers change, and are compared with what a task
remembers, under the mutex alone, so at most one task is between its increment of `count` and
the comparison that ends its arrival.
-/
namespace AsyncLock.Barrier
set_option autoImplicit false

open Interleaving

/-- `counted` and `last` are the stages of an arrival under way, at which `count` includes it and
has not been reset. -/
inductive Stage where
  | outside
  | counted (localGen ticket : Nat)
  | last (ticket : Nat)
  | leader (ticket : Nat)
  | follower (localGen ticket : Nat)
  | passed (ticket : Nat)
deriving DecidableEq

/-- The generation of an arrival: generation `k` has the arrivals `k * n + 1` to `(k + 1) * n`. -/
def generation (n ticket : Nat) : Nat := (ticket - 1) / n

namespace Stage

def ticket : Stage → Option Nat
  | outside => none
  | counted _ t | last t | leader t | follower _ t | passed t => some t

def arriving : Stage → Nat
  | counted _ _ | last _ => 1
  | _ => 0

/-- What a task at a stage knows of its arrival, after `arrivals` of them. -/
def Placed (n arrivals : Nat) : Stage → Prop
  | outside => True
  | counted localGen t => t = arrivals ∧ 1 ≤ t ∧ localGen = generation n t % 2 ^ 64
  | last t => t = arrivals ∧ 1 ≤ t ∧ n ∣ t
  | leader t => 1 ≤ t ∧ t ≤ arrivals ∧ n ∣ t
  | follower localGen t =>
    1 ≤ t ∧ t ≤ arrivals ∧ ¬ n ∣ t ∧ localGen = generation n t % 2 ^ 64
  | passed t => 1 ≤ t ∧ t ≤ arrivals ∧ ¬ n ∣ t ∧ (generation n t + 1) * n ≤ arrivals

/-- Further arrivals change nothing for a task whose own arrival is over. -/
theorem Placed.mono {n a a' : Nat} {x : Stage} (h : x.Placed n a) (hLe : a ≤ a')
    (hOver : x.arriving = 0 ∨ a' = a) : x.Placed n a' := by
  rcases hOver with hOver | rfl
  · cases x with
    | outside => trivial
    | counted | last => cases hOver
    | leader t => exact ⟨h.1, h.2.1.trans hLe, h.2.2⟩
    | follower g t => exact ⟨h.1, h.2.1.trans hLe, h.2.2⟩
    | passed t => exact ⟨h.1, h.2.1.trans hLe, h.2.2.1, h.2.2.2.trans hLe⟩
  · exact h

theorem Placed.ticket_le {n a t : Nat} {x : Stage} (h : x.Placed n a) (ht : x.ticket = some t) :
    t ≤ a := by
  cases x with
  | outside => cases ht
  | counted | last =>
    cases ht
    exact h.1.le
  | leader | follower | passed =>
    cases ht
    exact h.2.1

theorem Placed.ticket_pos {n a t : Nat} {x : Stage} (h : x.Placed n a) (ht : x.ticket = some t) :
    1 ≤ t := by
  cases x with
  | outside => cases ht
  | counted | last =>
    cases ht
    exact h.2.1
  | leader | follower | passed =>
    cases ht
    exact h.1

end Stage

def After.stage : After → Stage
  | .wait localGen ticket => .follower localGen ticket
  | .ready true ticket => .leader ticket
  | .ready false ticket => .passed ticket

theorem After.arriving_stage (after : After) : after.stage.arriving = 0 := by
  rcases after with _ | ⟨_ | _, _⟩ <;> rfl

namespace WaitPoint

def stage : WaitPoint → Stage
  | lock _ | locked _ | arrive => .outside
  | compare localGen ticket => .counted localGen ticket
  | advance ticket => .last ticket
  | notify ticket => .leader ticket
  | unlock after | notifyLockOps after => after.stage
  | listen localGen ticket | waiting localGen ticket => .follower localGen ticket
  | reacquiring localGen ticket _ | reacquired localGen ticket _ => .follower localGen ticket
  | recheck localGen ticket => .follower localGen ticket

def owns : WaitPoint → Nat
  | lock f | reacquiring _ _ f => f.owns
  | notifyLockOps _ | waiting _ _ => 0
  | _ => 1

def starved : WaitPoint → Nat
  | lock f | reacquiring _ _ f => f.starved
  | _ => 0

def Aborted : WaitPoint → Prop
  | lock f | reacquiring _ _ f => f.Aborted
  | _ => False

end WaitPoint

namespace Object

def stage : Object → Stage
  | wait _ at_ => at_.stage
  | ready true ticket => .leader ticket
  | ready false ticket => .passed ticket
  | gone => .outside

def owns : Object → Nat
  | wait _ at_ => at_.owns
  | _ => 0

def starved : Object → Nat
  | wait _ at_ => at_.starved
  | _ => 0

def arriving (o : Object) : Nat := o.stage.arriving

def ticket (o : Object) : Option Nat := o.stage.ticket

def bears (t : Nat) (o : Object) : Nat := if o.ticket = some t then 1 else 0

def Aborted : Object → Prop
  | wait _ at_ => at_.Aborted
  | _ => False

/-- An arrival is counted and ended by the owner of the mutex. -/
theorem arriving_le_owns (o : Object) : o.arriving ≤ o.owns := by
  cases o with
  | wait blocking at_ =>
    cases at_ with
    | unlock after | notifyLockOps after =>
      have : (wait blocking (.unlock after)).arriving = 0 := after.arriving_stage
      have : (wait blocking (.notifyLockOps after)).arriving = 0 := after.arriving_stage
      omega
    | compare | advance => exact Nat.le_refl 1
    | _ => exact Nat.zero_le _
  | ready isLeader => cases isLeader <;> exact Nat.le_refl 0
  | gone => exact Nat.le_refl 0

end Object

/-- What an action does to the stage of its task and to the numbers; `owns` is 1 where it is an
action of the owner of the mutex. -/
inductive Moves (n : Nat) (s s' : Barrier) (owns : Nat) : Stage → Stage → Prop
  | stay (x : Stage) (hCount : s'.count = s.count) (hGen : s'.generationId = s.generationId)
      (hArrivals : s'.arrivals = s.arrivals) : Moves n s s' owns x x
  | arrive (hOwns : owns = 1) (hNumbers : s' = s.arrive) :
      Moves n s s' owns .outside (.counted s.generationId (s.arrivals + 1))
  | follow (localGen ticket : Nat) (hNumbers : s' = s) (hCount : s.count < n) :
      Moves n s s' owns (.counted localGen ticket) (.follower localGen ticket)
  | lead (localGen ticket : Nat) (hNumbers : s' = s) (hCount : n ≤ s.count) :
      Moves n s s' owns (.counted localGen ticket) (.last ticket)
  | advance (ticket : Nat) (hNumbers : s' = s.advance) :
      Moves n s s' owns (.last ticket) (.leader ticket)
  | leave (localGen ticket : Nat) (hOwns : owns = 1) (hNumbers : s' = s)
      (hOver : localGen ≠ s.generationId ∨ n ≤ s.count) :
      Moves n s s' owns (.follower localGen ticket) (.passed ticket)
  | cancel (localGen ticket : Nat) (hCount : s'.count = s.count)
      (hGen : s'.generationId = s.generationId) (hArrivals : s'.arrivals = s.arrivals) :
      Moves n s s' owns (.follower localGen ticket) .outside

@[simp] theorem dropLock_fields (i : Nat) (s : Barrier) (listener : Bool) :
    (dropLock i s listener).mutex.state = s.mutex.state ∧
      (dropLock i s listener).count = s.count ∧
      (dropLock i s listener).generationId = s.generationId ∧
      (dropLock i s listener).arrivals = s.arrivals := by
  cases listener <;> exact ⟨rfl, rfl, rfl, rfl⟩

variable {n : Nat} {p : Platform} {i : Nat} {c : Choice} {s s' : Barrier} {o o' : Object}
  {new : List Object}

theorem step_moves (h : step n p i c s o = some (s', o', new)) :
    Moves n s s' o.owns o.stage o'.stage := by
  obtain ⟨blocking, at_, rfl, hActs, rfl⟩ := step_acts h
  cases hActs with
  | lock f d m r => cases r <;> exact .stay _ rfl rfl rfl
  | relock localGen ticket f d m r =>
    cases r with
    | dropped => exact .cancel _ _ rfl rfl rfl
    | _ => exact .stay _ rfl rfl rfl
  | locked | relocked => exact .stay _ (by simp) (by simp) (by simp)
  | arrive => exact .arrive rfl rfl
  | follow _ _ hCount => exact .follow _ _ rfl hCount
  | lead _ _ hCount => exact .lead _ _ rfl hCount
  | advance => exact .advance _ rfl
  | notifyLockOps after => rcases after with _ | ⟨_ | _, _⟩ <;> exact .stay _ rfl rfl rfl
  | cancel => exact .cancel _ _ rfl rfl rfl
  | leave _ _ hOver => exact .leave _ _ rfl rfl hOver
  | _ => exact .stay _ rfl rfl rfl

theorem step_accounts (h : step n p i c s o = some (s', o', new)) (hAlive : ¬ o'.Aborted)
    {owners starved : Nat}
    (hs : Accounts p s.mutex.state (o.owns + owners) (o.starved + starved)) :
    Accounts p s'.mutex.state (o'.owns + owners) (o'.starved + starved) := by
  obtain ⟨blocking, at_, rfl, hActs, rfl⟩ := step_acts h
  cases hActs with
  | lock f d m r hLock | relock localGen ticket f d m r hLock =>
    have hRunning := Lock.step_accounts hLock
    cases r with
    | running f' => exact hRunning hAlive hs
    | _ => exact hRunning id hs
  | locked | relocked =>
    rw [(dropLock_fields _ _ _).1]
    exact hs
  | unlock after =>
    have hOwner : Accounts p s.mutex.state (1 + owners) starved := by
      simpa [Object.owns, Object.starved, WaitPoint.owns, WaitPoint.starved] using hs
    simpa [Object.owns, Object.starved, WaitPoint.owns, WaitPoint.starved] using hOwner.release
  | notifyLockOps after => cases after <;> exact hs
  | _ => exact hs

end AsyncLock.Barrier
