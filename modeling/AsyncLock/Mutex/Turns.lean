import AsyncLock.Mutex.Host

/-! # Lock operations do not keep each other busy

Between two changes of the lock bit the lock operations of a pool come to rest. A woken operation
that finds the mutex taken goes back to sleep and has used up a notification. It passes one on at
most once before it is starved; a starved one does so only where the mutex is free, and there the
next starved operation that wakes takes it.
-/
namespace AsyncLock
set_option autoImplicit false

open Interleaving

def Mutex.held (m : Mutex) : Bool := m.state % 2 = 1

namespace Lock

/-- How often the operation, with the guard it returns, may still change the lock bit. -/
def turns : Lock → Nat
  | takeMutex _ => 1
  | dropListener | aborting _ => 0
  | _ => 2

/-- What it may still do before the lock bit changes, where a notification counts 4. -/
def effort (held : Bool) : Lock → Nat
  | unpolled | tryWoken => 14
  | listen | passOn => 13
  | tryListening => 12
  | waiting => 11
  | starve false => 8
  | fairPassOn => 5
  | takeMutex _ => 2
  | starve true | dropListener => 1
  | fairListen => if held then 2 else 7
  | fairTry => if held then 1 else 6
  | fairGrab => if held then 3 else 1
  | fairWaiting | aborting _ => 0

end Lock

namespace LockOutcome

def turns : LockOutcome → Nat
  | running f => f.turns
  | ready _ => 1
  | dropped => 0

def effort (held : Bool) : LockOutcome → Nat
  | running f => f.effort held
  | ready listener => listener.toNat
  | dropped => 0

end LockOutcome

/-- The lock bit may change fewer times from now on, or it has not changed and there is less to
do before it does. -/
def Mutex.Lessens (m m' : Mutex) (turns turns' : Nat) (effort effort' : Bool → Nat) : Prop :=
  turns' < turns ∨ (turns' = turns ∧ m'.held = m.held ∧
    4 * m'.lockOps.marks + effort' m.held < 4 * m.lockOps.marks + effort m.held)

namespace Lock

variable {p : Platform} {i : Nat} {c : LockChoice} {m m' : Mutex} {f : Lock} {r : LockOutcome}

theorem toFairPassOn_free (h : fairTry.step p i c m = some (m', .running fairPassOn)) :
    m.held = false := by
  cases c with
  | drop => cases h
  | go elapsed =>
    simp only [step, poll] at h
    split_ifs at h with hAlone hHeld <;> cases h
    simpa [Mutex.held] using hHeld

attribute [local simp] turns effort LockOutcome.turns LockOutcome.effort

theorem step_lessens (h : f.step p i c m = some (m', r)) :
    m.Lessens m' f.turns r.turns (fun held => f.effort held) fun held => r.effort held := by
  have hHeldIs : m.held = decide (m.state % 2 = 1) := rfl
  cases step_acts h with
  | takeFast | takeListening | takeWoken | fairTake | fairGrab | abort | cancel | cancelListener
  | cancelStarved => exact .inl (by simp)
  | toSlow | toWaiting | toStarve | toPassOn | overtime | toListen =>
    exact .inr ⟨rfl, rfl, by simp⟩
  | listen => exact .inr ⟨rfl, rfl, by simp⟩
  | fairListen => exact .inr ⟨rfl, rfl, by cases m.held <;> simp⟩
  | consume _ hMark =>
    have := Event.marks_remove_lt hMark
    exact .inr ⟨rfl, rfl, by simp; omega⟩
  | fairConsume _ hMark =>
    have := Event.marks_remove_lt hMark
    exact .inr ⟨rfl, rfl, by cases m.held <;> simp <;> omega⟩
  | passOn | fairPassOn =>
    have := m.lockOps.marks_notify_le 1
    exact .inr ⟨rfl, rfl, by simp [Mutex.notifyLockOps]; omega⟩
  | starveListening | starve =>
    refine .inr ⟨rfl, ?_, by cases m.held <;> simp⟩
    simp [Mutex.held, wrappingAdd_two_mod_two p.bits_pos]
  | toFairWaiting _ hHeld => exact .inr ⟨rfl, rfl, by simp [Mutex.held, hHeld]⟩
  | toFairPassOn => exact .inr ⟨rfl, rfl, by simp [toFairPassOn_free h]⟩
  | fairGrabHeld _ hHeld => exact .inr ⟨rfl, rfl, by simp [Mutex.held, hHeld]⟩
  | takeMutex _ listener =>
    refine .inr ⟨rfl, ?_, by cases listener <;> simp⟩
    simp [Mutex.held, wrappingSub_two_mod_two p.bits_pos]
  | dropListener =>
    have := m.lockOps.marks_discard_le i
    exact .inr ⟨rfl, rfl, by simp; omega⟩

/-- An operation that cannot go on is asleep, or the process is over. -/
theorem asleep_of_none (h : ∀ e, f.step p i (.go e) m = none) : f.Aborted ∨
    ((f = waiting ∨ f = fairWaiting) ∧ ¬ (m.lockOps.markOf i).isSome) := by
  have hNone := h false
  cases f with
  | waiting | fairWaiting =>
    refine .inr ⟨by simp, fun hMark => ?_⟩
    simp [step, poll, hMark] at hNone
  | aborting listener => exact .inl trivial
  | unpolled =>
    simp only [step, poll] at hNone
    split at hNone <;> cases hNone
  | tryListening | tryWoken | starve | fairTry | fairGrab =>
    simp only [step, poll] at hNone
    split_ifs at hNone
  | _ => cases hNone

end Lock

namespace Mutex
namespace Role

def turns : Role → Nat
  | locking f => f.turns
  | owner _ => 1
  | _ => 0

def effort (held : Bool) : Role → Nat
  | locking f => f.effort held
  | apart listener | owner listener => listener.toNat
  | unlocking => 5

end Role

namespace Use

variable {p : Platform} {i : Nat} {m m' : Mutex} {e : Effect} {r r' : Role} {handed : Nat}

attribute [local simp] Role.turns Role.effort Role.ofOutcome LockOutcome.turns LockOutcome.effort
  Lock.turns Lock.effort

theorem keeps (h : Use p i m .keeps r m' r' handed) :
    m' = m ∧ r'.turns + handed = r.turns ∧ ∀ held, r'.effort held = r.effort held := by
  cases h with
  | stay => exact ⟨rfl, rfl, fun _ => rfl⟩
  | hand | abort => exact ⟨rfl, by simp, fun _ => rfl⟩

theorem lessens (h : Use p i m .lessens r m' r' handed) :
    m.Lessens m' r.turns (r'.turns + handed) (fun held => r.effort held)
      fun held => r'.effort held := by
  cases h with
  | abortOwner | unlock => exact .inl (by simp)
  | lock f c _ r hLock =>
    have hLess := Lock.step_lessens hLock
    cases r <;> exact hLess
  | lockHand f c _ listener hLock => exact Lock.step_lessens hLock
  | discardLeft | discard | discardHand =>
    have := m.lockOps.marks_discard_le i
    exact .inr ⟨by simp, rfl, by simp; omega⟩
  | notify =>
    have := m.lockOps.marks_notify_le 1
    exact .inr ⟨rfl, rfl, by simp [notifyLockOps]; omega⟩

end Use

namespace Host

variable {σ ω : Type*} {p : Platform} {mutex : σ → Mutex} {role : ω → Role}

def turns (role : ω → Role) (s : State σ ω) : Nat := census (fun o => (role o).turns) s.pool

def effort (mutex : σ → Mutex) (role : ω → Role) (s : State σ ω) : Nat :=
  4 * (mutex s.mem).lockOps.marks +
    census (fun o => (role o).effort (mutex s.mem).held) s.pool

theorem census_turns {new : List ω}
    (h : ∀ n ∈ new, role n = .apart false ∨ role n = .owner false) :
    census (fun n => (role n).turns) new = census (fun n => (role n).owns) new := by
  induction new with
  | nil => rfl
  | cons n rest ih =>
    rw [census_cons, census_cons, ih fun q hq => h q (List.mem_cons_of_mem n hq)]
    rcases h n List.mem_cons_self with hRole | hRole <;> rw [hRole] <;> rfl

section

variable {s s' : State σ ω} {i : Nat} {e : Effect} {o o' : ω} {new others : List ω}
  (hNew : ∀ n ∈ new, role n = .apart false ∨ role n = .owner false)
  (hPool : ∀ f, census f s.pool = f o + census f others)
  (hPool' : ∀ f, census f s'.pool = f o' + census f new + census f others)
include hNew hPool hPool'

theorem keeps (hUse : Use p i (mutex s.mem) .keeps (role o) (mutex s'.mem) (role o')
    (census (fun n => (role n).owns) new)) :
    turns role s' = turns role s ∧ effort mutex role s' = effort mutex role s := by
  obtain ⟨hSame, hTurns, hEffort⟩ := hUse.keeps
  unfold turns effort
  rw [hPool', hPool', hPool, hPool, census_turns hNew, hSame, hEffort,
    census_new (f := fun r => r.effort _) rfl rfl hNew]
  omega

theorem lessens (hUse : Use p i (mutex s.mem) .lessens (role o) (mutex s'.mem) (role o')
    (census (fun n => (role n).owns) new)) : turns role s' < turns role s ∨
      (turns role s' = turns role s ∧ effort mutex role s' < effort mutex role s) := by
  unfold turns effort
  rw [hPool', hPool', hPool, hPool, census_turns hNew,
    census_new (f := fun r => r.effort _) rfl rfl hNew]
  rcases hUse.lessens with hLess | ⟨hTurn, hHeld, hCost⟩
  · exact .inl (by omega)
  · refine .inr ⟨by omega, ?_⟩
    rw [hHeld]
    dsimp only at hCost
    omega

/-- What may still begin to lock, how often the lock bit may still change, what there is to do
until it changes, and what leaves the mutex alone. -/
def rank {β γ : Type*} (mutex : σ → Mutex) (role : ω → Role) (s : State σ ω) (starts : β)
    (ends : γ) : β ×ₗ Nat ×ₗ Nat ×ₗ γ :=
  toLex (starts, toLex (turns role s, toLex (effort mutex role s, ends)))

theorem rank_lt {β γ : Type*} [PartialOrder β] [Preorder γ] {starts starts' : β}
    {ends ends' : γ} (hUse : Use p i (mutex s.mem) e (role o) (mutex s'.mem) (role o')
      (census (fun n => (role n).owns) new)) (hLe : starts' ≤ starts)
    (hStarts : e = .starts → starts' < starts) (hEnds : e = .keeps → ends' < ends) :
    rank mutex role s' starts' ends' < rank mutex role s starts ends := by
  simp only [rank, Prod.Lex.toLex_lt_toLex]
  rcases hLe.lt_or_eq with hLt | rfl
  · exact .inl hLt
  · refine .inr ⟨rfl, ?_⟩
    cases e with
    | starts => exact absurd (hStarts rfl) (lt_irrefl _)
    | keeps =>
      obtain ⟨hTurns, hEffort⟩ := keeps hNew hPool hPool' hUse
      exact .inr ⟨hTurns, .inr ⟨hEffort, hEnds rfl⟩⟩
    | lessens =>
      rcases lessens hNew hPool hPool' hUse with hTurns | ⟨hTurns, hEffort⟩
      · exact .inl hTurns
      · exact .inr ⟨hTurns, .inl hEffort⟩

end

end Host
end Mutex
end AsyncLock
