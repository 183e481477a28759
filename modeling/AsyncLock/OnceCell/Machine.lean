import AsyncLock.Interleaving.Ownership
import AsyncLock.Word

/-! # The once cell

The objects are the calls of `get`, `wait`, `get_or_try_init`, `get_or_init`, `set` and
`try_set` with their futures, and the references they return. `get_unchecked` is an action of
its own, which reads the slot whatever the state is. An initializer may succeed, return an
error, panic, or have its future dropped.
-/
namespace AsyncLock
set_option autoImplicit false

open Interleaving

inductive CellState where
  | uninitialized
  | initializing
  | initialized
deriving DecidableEq

/-- The slot is `none` while it is uninitialized memory or its value has been moved out. -/
structure OnceCell (α : Type*) where
  activeInitializers : Event
  passiveWaiters : Event
  state : CellState
  value : Option α
deriving DecidableEq

namespace OnceCell

variable {α : Type*}

def new : OnceCell α := ⟨Event.new, Event.new, .uninitialized, none⟩

def fromValue (value : α) : OnceCell α := ⟨Event.new, Event.new, .initialized, some value⟩

/-- The `compare_exchange` that makes the caller the one that initializes the cell. -/
def begin (s : OnceCell α) : Option (OnceCell α) :=
  if s.state = .uninitialized then some { s with state := .initializing } else none

/-- `ptr::write`. -/
@[simps] def write (s : OnceCell α) (value : α) : OnceCell α := { s with value := some value }

@[simps] def store (s : OnceCell α) (state : CellState) : OnceCell α := { s with state := state }

@[simps] def notifyActive (p : Platform) (s : OnceCell α) : OnceCell α :=
  { s with activeInitializers := s.activeInitializers.notifyAdditional p.usizeMax }

@[simps] def notifyPassive (p : Platform) (s : OnceCell α) : OnceCell α :=
  { s with passiveWaiters := s.passiveWaiters.notifyAdditional p.usizeMax }

/-- The notification of the next initializer by the drop of a `Guard`. -/
@[simps] def notifyNext (s : OnceCell α) : OnceCell α :=
  { s with activeInitializers := s.activeInitializers.notify 1 }

def discardActive (i : Nat) (s : OnceCell α) (listener : Bool) : OnceCell α :=
  if listener then { s with activeInitializers := s.activeInitializers.discard i } else s

def discardPassive (i : Nat) (s : OnceCell α) (listener : Bool) : OnceCell α :=
  if listener then { s with passiveWaiters := s.passiveWaiters.discard i } else s

inductive GetPoint where
  | load
  | read
deriving DecidableEq

/-- The points of `wait`; `read` is its `get_unchecked`, reached from the first check, from the
second with the listener still there, and from the listener. -/
inductive WaitPoint (α : Type*) where
  | check
  | listen
  | recheck
  | await
  | read (listener : Bool)
  | dropListener (value : Option α)
deriving DecidableEq

/-- What a call would initialize the cell with: the closure of `get_or_try_init`, that of
`get_or_init`, which does not fail, or the value of `set`. -/
inductive Init (α : Type*) where
  | closure (fallible : Bool)
  | given (value : α)
deriving DecidableEq

/-- The points of `get_or_try_init` and `initialize_or_wait`. The flag `listener` says whether
`event_listener` is `Some`; `ran` whether the closure has been called. -/
inductive InitPoint (α : Type*) where
  | check
  | loop (listener : Bool)
  | listen
  | wait
  | exchange (listener : Bool)
  | run (listener : Bool)
  | write (listener : Bool) (value : α)
  | store (listener : Bool)
  | notifyActive (listener : Bool)
  | notifyPassive (listener : Bool)
  | dropGuard (listener : Bool)
  | notifyNext (listener : Bool)
  | leave (listener : Bool)
  | finish (listener ran : Bool)
  | read (ran : Bool)
  | readSet
deriving DecidableEq

inductive TrySetPoint (α : Type*) where
  | exchange (value : α)
  | write (value : α)
  | store
  | notifyActive
  | notifyPassive
deriving DecidableEq

/-- `returned` is a live reference to the value, as `get_unchecked` has found it. -/
inductive Object (α : Type*) where
  | get (at_ : GetPoint)
  | wait (blocking : Bool) (at_ : WaitPoint α)
  | init (blocking : Bool) (init : Init α) (at_ : InitPoint α)
  | trySet (at_ : TrySetPoint α)
  | returned (value : Option α)
  | gone
deriving DecidableEq

inductive Call (α : Type*) where
  | get
  | waitAs (blocking : Bool)
  | initAs (blocking : Bool) (init : Init α)
  | trySet (value : α)
deriving DecidableEq

namespace Call

def wait : Call α := waitAs false

def waitBlocking : Call α := waitAs true

def getOrTryInit : Call α := initAs false (.closure true)

def getOrTryInitBlocking : Call α := initAs true (.closure true)

def getOrInit : Call α := initAs false (.closure false)

def getOrInitBlocking : Call α := initAs true (.closure false)

def set (value : α) : Call α := initAs false (.given value)

def setBlocking (value : α) : Call α := initAs true (.given value)

end Call

/-- `go` takes the next action of a call, a poll or a drop under way; `drop` drops a future
between two polls, or a reference; the others are what a running closure may do. -/
inductive Choice (α : Type*) where
  | go
  | drop
  | succeed (value : α)
  | fail
  | panic
deriving DecidableEq

def create (_ : OnceCell α) : Call α → Object α
  | .get => .get .load
  | .waitAs blocking => .wait blocking .check
  | .initAs blocking init => .init blocking init .check
  | .trySet value => .trySet (.exchange value)

def stepGet (s : OnceCell α) : GetPoint → Object α
  | .load => if s.state = .initialized then .get .read else .gone
  | .read => .returned s.value

def stepWait (i : Nat) (c : Choice α) (s : OnceCell α) (blocking : Bool) :
    WaitPoint α → Option (OnceCell α × Object α)
  | .check =>
    match c with
    | .go =>
      if s.state = .initialized then some (s, .wait blocking (.read false))
      else some (s, .wait blocking .listen)
    | .drop => if blocking then none else some (s, .gone)
    | _ => none
  | .listen =>
    some ({ s with passiveWaiters := s.passiveWaiters.listen i }, .wait blocking .recheck)
  | .recheck =>
    if s.state = .initialized then some (s, .wait blocking (.read true))
    else some (s, .wait blocking .await)
  | .await =>
    match c with
    | .go =>
      if (s.passiveWaiters.markOf i).isSome then
        -- the state is not checked again
        some ({ s with passiveWaiters := s.passiveWaiters.remove i }, .wait blocking (.read false))
      else none
    | .drop => if blocking then none else some (discardPassive i s true, .gone)
    | _ => none
  | .read listener =>
    if listener then some (s, .wait blocking (.dropListener s.value))
    else some (s, .returned s.value)
  | .dropListener value => some (discardPassive i s true, .returned value)

/-- What the closure or the future it has returned does next. -/
def stepRun (c : Choice α) (blocking : Bool) (listener : Bool) :
    Init α → Option (InitPoint α)
  | .closure fallible =>
    match c with
    | .succeed value => some (.write listener value)
    | .fail => if fallible then some (.dropGuard listener) else none
    | .panic => some (.dropGuard listener)
    | .drop => if blocking then none else some (.dropGuard listener)
    | .go => none
  | .given value =>
    match c with
    | .go => some (.write listener value)
    | _ => none

/-- `get_or_try_init`, `get_or_init`, `set` and their blocking forms. -/
def stepInit (p : Platform) (i : Nat) (c : Choice α) (s : OnceCell α) (blocking : Bool)
    (init : Init α) : InitPoint α → Option (OnceCell α × Object α)
  | .check =>
    match c with
    | .go =>
      if s.state = .initialized then some (s, .init blocking init (.read false))
      else some (s, .init blocking init (.loop false))
    | .drop => if blocking then none else some (s, .gone)
    | _ => none
  | .loop listener =>
    match s.state with
    | .initialized => some (s, .init blocking init (.finish listener false))
    | .initializing =>
      if listener then some (s, .init blocking init .wait)
      else some (s, .init blocking init .listen)
    | .uninitialized => some (s, .init blocking init (.exchange listener))
  | .listen =>
    some ({ s with activeInitializers := s.activeInitializers.listen i },
      .init blocking init (.loop true))
  | .wait =>
    match c with
    | .go =>
      if (s.activeInitializers.markOf i).isSome then
        some ({ s with activeInitializers := s.activeInitializers.remove i },
          .init blocking init (.loop false))
      else none
    | .drop => if blocking then none else some (discardActive i s true, .gone)
    | _ => none
  | .exchange listener =>
    match s.begin with
    | some s' => some (s', .init blocking init (.run listener))
    | none => some (s, .init blocking init (.loop listener))
  | .run listener => (stepRun c blocking listener init).map fun at_ => (s, .init blocking init at_)
  | .write listener value => some (s.write value, .init blocking init (.store listener))
  | .store listener => some (s.store .initialized, .init blocking init (.notifyActive listener))
  | .notifyActive listener =>
    some (s.notifyActive p, .init blocking init (.notifyPassive listener))
  | .notifyPassive listener =>
    some (s.notifyPassive p, .init blocking init (.finish listener true))
  | .dropGuard listener =>
    some (s.store .uninitialized, .init blocking init (.notifyNext listener))
  | .notifyNext listener => some (s.notifyNext, .init blocking init (.leave listener))
  | .leave listener => some (discardActive i s listener, .gone)
  | .finish listener ran => some (discardActive i s listener, .init blocking init (.read ran))
  | .read ran =>
    match init with
    | .closure _ => some (s, .returned s.value)
    | .given _ => if ran then some (s, .init blocking init .readSet) else some (s, .gone)
  | .readSet => some (s, .returned s.value)

def stepTrySet (p : Platform) (s : OnceCell α) : TrySetPoint α → OnceCell α × Object α
  | .exchange value =>
    match s.begin with
    | some s' => (s', .trySet (.write value))
    | none => (s, .gone)
  | .write value => (s.write value, .trySet .store)
  | .store => (s.store .initialized, .trySet .notifyActive)
  | .notifyActive => (s.notifyActive p, .trySet .notifyPassive)
  | .notifyPassive => (s.notifyPassive p, .gone)

def step (p : Platform) (i : Nat) (c : Choice α) (s : OnceCell α) (o : Object α) :
    Option (OnceCell α × Object α × List (Object α)) :=
  match o with
  | .get at_ => some (s, stepGet s at_, [])
  | .wait blocking at_ => (stepWait i c s blocking at_).map fun r => (r.1, r.2, [])
  | .init blocking init at_ => (stepInit p i c s blocking init at_).map fun r => (r.1, r.2, [])
  | .trySet at_ => some ((stepTrySet p s at_).1, (stepTrySet p s at_).2, [])
  | .returned _ => some (s, .gone, [])
  | .gone => none

def machine (p : Platform) : Machine (OnceCell α) (Object α) (Call α) (Choice α) :=
  ⟨create, step p⟩

/-! ## Exclusive access -/

/-- `get_mut` with what is written through it, `take`, and `into_inner`, which takes. -/
inductive Access (α : Type*) where
  | getMut (value : α)
  | take
deriving DecidableEq

def access (s : OnceCell α) : Access α → OnceCell α
  | .getMut value => if s.state = .initialized then { s with value := some value } else s
  | .take =>
    if s.state = .initialized then { s with value := none, state := .uninitialized } else s

def Object.borrows : Object α → Bool
  | gone => false
  | _ => true

/-- The states of a cell over its life: an exclusive access has to wait until nothing borrows
the cell. -/
inductive Life (p : Platform) : State (OnceCell α) (Object α) → Prop
  | new : Life p ⟨OnceCell.new, []⟩
  | fromValue (value : α) : Life p ⟨OnceCell.fromValue value, []⟩
  | step {s s' : State (OnceCell α) (Object α)} (h : Life p s) (hStep : (machine p).Step s s') :
      Life p s'
  | exclusive {s : State (OnceCell α) (Object α)} (h : Life p s) (a : Access α)
      (hFree : ∀ o ∈ s.pool, o.borrows = false) : Life p ⟨s.mem.access a, s.pool⟩

end OnceCell
end AsyncLock
