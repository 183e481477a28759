import AsyncLock.RwLock.Transitions

/-! # The reader-writer lock behind an `Arc`

Callers hold `Arc`s, and calls and futures borrow one of them. A guard of an `_arc` operation and
an `UpgradeArc` have an `Arc` of their own: the field of the upgradable and of the write guard,
the pointer from `Arc::into_raw` of the read guard, the `ManuallyDrop` of the future. What is left
of such an owner while it is dropped keeps it to the end, and then gives it up.
-/
namespace AsyncLock.RwLock
set_option autoImplicit false

open Interleaving

variable {α : Type*}

/-- `lent` has the position of a caller's `Arc` once for each borrow of it. -/
structure Shared (α : Type*) where
  lock : RwLock α
  strong : Nat
  lent : List Nat
deriving DecidableEq

namespace Shared

/-- `Arc::new`. -/
def new (value : α) : Shared α := ⟨RwLock.new value, 1, []⟩

/-- `Arc::clone`. -/
@[simps] def clone (m : Shared α) : Shared α := { m with strong := m.strong + 1 }

/-- The drop of an `Arc`. -/
@[simps] def release (m : Shared α) : Shared α := { m with strong := m.strong - 1 }

@[simps] def lend (handle : Nat) (m : Shared α) : Shared α := { m with lent := handle :: m.lent }

@[simps] def giveBack (handle : Nat) (m : Shared α) : Shared α :=
  { m with lent := m.lent.erase handle }

end Shared

/-- What keeps the lock for an object: the `Arc` of a caller, or one of its own. A finished
`UpgradeArc` has neither. -/
inductive Hold where
  | borrows (handle : Nat)
  | owns
  | finished
deriving DecidableEq

inductive ArcObject where
  | arc
  | op (o : Object) (hold : Hold)
  | gone
deriving DecidableEq

inductive ArcChoice (α : Type*) where
  | clone
  | drop
  | call (k : Call)
  | act (c : Choice α)
deriving DecidableEq

/-- A guard of an `_arc` operation, or one that is being downgraded. -/
def Object.isArcGuard : Object → Bool
  | readGuard arc | upgradableGuard arc _ | upgradableDowngrading arc => arc
  | writeGuard arc _ | writeDowngrading arc _ => arc
  | _ => false

/-- The guard that a call or a future makes of the `Arc` it borrows: `self.clone()`, and
`from_arc` for a read guard. The guard of another operation borrows what the operation did. -/
def makeGuard (handle : Nat) (m : Shared α) (guard : Object) : Shared α × ArcObject :=
  if guard.isArcGuard then (m.clone, .op guard .owns)
  else (m.lend handle, .op guard (.borrows handle))

/-- A borrower after one of its actions. The call or future is over when it is `gone`, or when it
is a `try_` call that has become a guard. -/
def settle (handle : Nat) (m : Shared α) (o' : Object) : Shared α × ArcObject :=
  if o' = .gone then (m.giveBack handle, .gone)
  else if o'.isArcGuard then ((m.giveBack handle).clone, .op o' .owns)
  else (m, .op o' (.borrows handle))

def stepBorrower (handle : Nat) (m : Shared α) (o' : Object) :
    List Object → Shared α × ArcObject × List ArcObject
  | [] => ((settle handle m o').1, (settle handle m o').2, [])
  | guard :: _ =>
    let r := makeGuard handle m guard
    ((settle handle r.1 o').1, (settle handle r.1 o').2, [r.2])

/-- An owner after one of its actions. The conversions hand the `Arc` on by `into_arc` and
`from_arc`, and `UpgradeArc` takes it over in `upgrade`, without a change of the count. A ready
`UpgradeArc` hands it to the guard: `ManuallyDrop::take`. -/
def stepOwner (m : Shared α) (o' : Object) : List Object → Shared α × ArcObject × List ArcObject
  | [] => (m, .op o' .owns, [])
  | guard :: _ => (m, .op o' .finished, [.op guard .owns])

/-- The drop of a finished `UpgradeArc` leaves the `Arc` alone: `is_ready`. -/
def stepFinished (m : Shared α) (o' : Object) : Shared α × ArcObject × List ArcObject :=
  if o' = .gone then (m, .gone, []) else (m, .op o' .finished, [])

def stepOp (p : Platform) (i : Nat) (c : Choice α) (m : Shared α) (o : Object) (hold : Hold) :
    Option (Shared α × ArcObject × List ArcObject) :=
  (step p i c m.lock o).map fun r =>
    let m' := { m with lock := r.1 }
    match hold with
    | .borrows handle => stepBorrower handle m' r.2.1 r.2.2
    | .owns => stepOwner m' r.2.1 r.2.2
    | .finished => stepFinished m' r.2.1

/-- A caller does not drop an `Arc` while it is borrowed. -/
def arcStep (p : Platform) (i : Nat) (c : ArcChoice α) (m : Shared α) :
    ArcObject → Option (Shared α × ArcObject × List ArcObject)
  | .arc =>
    match c with
    | .clone => some (m.clone, .arc, [.arc])
    | .drop => if i ∈ m.lent then none else some (m.release, .gone, [])
    | .call k => some (m.lend i, .arc, [.op (create m.lock k) (.borrows i)])
    | .act _ => none
  | .op o hold =>
    match c with
    | .act c =>
      -- the last thing in the drop of a guard, or of an `UpgradeArc` that is not ready
      if o = .gone ∧ hold = .owns then some (m.release, .gone, [])
      else stepOp p i c m o hold
    | _ => none
  | .gone => none

def arcMachine (p : Platform) : Machine (Shared α) ArcObject Empty (ArcChoice α) :=
  ⟨fun _ => nofun, arcStep p⟩

def arcInitial (value : α) : State (Shared α) ArcObject := ⟨Shared.new value, [.arc]⟩

end AsyncLock.RwLock
