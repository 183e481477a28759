import AsyncLock.Semaphore.Repair
import AsyncLock.Interleaving.Completion

/-! # Every acquire gets a permit that is left over

Once nobody calls the semaphore any more, its operations come to an end, unless a future is polled
again and again without a reason or the weak exchange fails for ever. As long as no guard is
forgotten they end where all permits are back, and then nobody is left waiting unless no permit was
ever granted: a wake-up that is lost at first has been made up for.
-/
namespace AsyncLock.Semaphore
set_option autoImplicit false

open Interleaving

namespace Object

/-- How often the object may still change the count or notify, or leave. -/
def turns : Object → Nat
  | acquire _ _ => 4
  | tryAcquire _ _ => 3
  | guard _ | addPermits _ => 2
  | releasing | adding _ | finished _ => 1
  | _ => 0

end Object

/-- The exchange from the present value is nearer than one from another, which fails. -/
def TryPoint.effort (count : Nat) (at_ : TryPoint) : Nat := if at_ = .exchange count then 0 else 1

/-- What an object may still do before it takes a turn, where a mark counts 10. -/
def Object.effort (count : Nat) (marked : Bool) : Object → Nat
  | acquire _ (.pending false) => 8
  | acquire _ (.trying false at_) => 6 + at_.effort count
  | acquire _ .register => 5
  | acquire _ (.pending true) => if marked then 4 else 0
  | acquire _ (.trying true at_) => 2 + at_.effort count
  | acquire _ .wait => 1
  | tryAcquire _ at_ => at_.effort count
  | _ => 0

def effortAt (s : Semaphore) (i : Nat) (o : Object) : Nat :=
  o.effort s.count (s.event.markOf i).isSome

/-- No exchange fails without a reason, and a future with a listener is polled only if that has
been notified. -/
def roused (s : State Semaphore Object) (i : Nat) : Choice → Prop
  | .go spurious => spurious = false ∧
      ∀ form, s.pool[i]? = some (.acquire form (.pending true)) → (s.mem.event.markOf i).isSome
  | _ => True

variable {bits i : Nat} {c : Choice} {s s' : Semaphore} {o o' : Object} {new : List Object}

/-! ## Every run ends -/

theorem TryPoint.effort_load (count : Nat) : TryPoint.load.effort count = 1 := rfl

theorem TryPoint.effort_exchange (count : Nat) : (TryPoint.exchange count).effort count = 0 :=
  if_pos rfl

attribute [local simp] Object.turns effortAt Object.effort TryPoint.effort_load
  TryPoint.effort_exchange

/-- An action takes one of the turns, or changes the event at its own entry alone. -/
theorem step_lessens (h : step bits i c s o = some (s', o', new)) (hSure : c ≠ .go true)
    (hRoused : ∀ form, c = .go false → o = .acquire form (.pending true) →
      (s.event.markOf i).isSome) :
    o'.turns + census Object.turns new < o.turns ∨
      (new = [] ∧ o'.turns = o.turns ∧ (∀ j q, j ≠ i → s'.effortAt j q = s.effortAt j q) ∧
        10 * s'.event.marks + s'.effortAt i o' < 10 * s.event.marks + s.effortAt i o) := by
  -- an exchange that expects the present value succeeds
  have hGo : ∀ spurious, c = .go spurious → c = .go false := by
    rintro (_ | _) hc
    · exact hc
    · exact absurd hc hSure
  cases step_acts h with
  | tryTake | tryFail | take | cancel | cancelListener | finish | finishListener | release
  | forget | releaseNotify | addPermits | addNotify => exact .inl (by simp)
  | tryRetry _ arc at_ =>
    have hEffort : at_.effort s.count = 1 := by
      refine if_neg ?_
      rintro rfl
      cases c with
      | go spurious =>
        cases hGo _ rfl
        simp [step, Semaphore.tryAcquire] at h
      | _ => cases h
    exact .inr ⟨rfl, rfl, fun _ _ _ => rfl, by simp [hEffort]⟩
  | retry _ form listener at_ =>
    have hEffort : at_.effort s.count = 1 := by
      refine if_neg ?_
      rintro rfl
      cases c with
      | go spurious =>
        cases hGo _ rfl
        simp [step, pollAcquire, Semaphore.tryAcquire] at h
      | _ => cases h
    exact .inr ⟨rfl, rfl, fun _ _ _ => rfl, by cases listener <;> simp [hEffort]⟩
  | poll _ form listener =>
    refine .inr ⟨rfl, rfl, fun _ _ _ => rfl, ?_⟩
    cases listener with
    | false => simp
    | true =>
      cases c with
      | go spurious => simp [hRoused form (hGo _ rfl) rfl]
      | drop =>
        simp only [step, dropAcquire] at h
        split at h <;> simp at h
      | forget => cases h
  | toWait | toRegister => exact .inr ⟨rfl, rfl, fun _ _ _ => rfl, by simp; omega⟩
  | register =>
    refine .inr ⟨rfl, rfl, fun j q _ => ?_, by simp⟩
    rw [effortAt, Event.isSome_markOf_listen, effortAt]
  | consume _ _ hMark =>
    have := Event.marks_remove_lt hMark
    refine .inr ⟨rfl, rfl, fun j q hij => ?_, by simp; omega⟩
    rw [effortAt, Event.isSome_markOf_remove hij, effortAt]
  | toPending _ _ hUnmarked => exact .inr ⟨rfl, rfl, fun _ _ _ => rfl, by simp [hUnmarked]⟩

def rank (s : State Semaphore Object) : Nat ×ₗ Nat :=
  toLex (census Object.turns s.pool,
    10 * s.mem.event.marks + censusAt s.mem.effortAt s.pool)

theorem rank_lt {s s' : State Semaphore Object} (h : (machine bits).Works roused s s') :
    rank s' < rank s := by
  obtain ⟨i, c, o, o', new, others, hOk, hGet, hAct, hSet, hPool, hPool'⟩ :=
    Machine.works_others h
  have hSure : c ≠ .go true := by
    rintro rfl
    cases hOk.1
  have hRoused : ∀ form, c = .go false → o = .acquire form (.pending true) →
      (s.mem.event.markOf i).isSome := by
    rintro form rfl rfl
    exact hOk.2 form hGet
  simp only [rank, Prod.Lex.toLex_lt_toLex, hPool, hPool']
  rcases step_lessens hAct hSure hRoused with hTurns | ⟨rfl, hTurns, hOthers, hEffort⟩
  · exact .inl (by omega)
  · refine .inr ⟨by rw [hTurns, census_nil]; rfl, ?_⟩
    rw [hSet, List.append_nil]
    have hSum := censusAt_set hGet hOthers o'
    omega

theorem acc_works (s : State Semaphore Object) :
    Acc (fun v u => (machine bits).Works roused u v) s :=
  Machine.acc_of_rank (P := fun _ => True) rank (fun _ _ _ h => ⟨trivial, rank_lt h⟩) trivial

/-! ## Where a run ends -/

/-- No future is dropped and no guard is forgotten. -/
def goes (s : State Semaphore Object) (i : Nat) (c : Choice) : Prop :=
  roused s i c ∧ c ≠ .forget ∧ (c = .drop → s.pool[i]?.any (0 < Object.holds ·))

/-- Nothing is left to be done by it before it is notified. -/
def Settled (s : Semaphore) (i : Nat) (o : Object) : Prop :=
  o = .gone ∨ (∃ k, o = .added k) ∨ (∃ arc, o = .forgotten arc) ∨
    (o.Parked ∧ o.Resting ∧ ¬ (s.event.markOf i).isSome)

theorem settled_of_none (h : ∀ c, c ≠ .forget → (c = .drop → 0 < o.holds) →
      (∀ spurious, c = .go spurious → spurious = false ∧
        ∀ form, o = .acquire form (.pending true) → (s.event.markOf i).isSome) →
      step bits i c s o = none) : s.Settled i o := by
  have hGo (hRoused : ∀ form, o = .acquire form (.pending true) → (s.event.markOf i).isSome) :
      step bits i (.go false) s o = none := by
    refine h _ (by simp) (by simp) ?_
    rintro spurious hEq
    cases hEq
    exact ⟨rfl, hRoused⟩
  cases o with
  | gone => exact .inl rfl
  | added k => exact .inr (.inl ⟨k, rfl⟩)
  | forgotten arc => exact .inr (.inr (.inl ⟨arc, rfl⟩))
  | guard arc => cases h .drop (by simp) (fun _ => Nat.one_pos) (by simp)
  | finished | releasing | addPermits | adding => cases hGo (by simp)
  | tryAcquire arc at_ =>
    have hNone := hGo (by simp)
    simp only [step] at hNone
    rcases tryAcquire_cases bits false s at_ with ⟨_, hTry⟩ | ⟨_, hTry⟩ | ⟨_, hTry⟩ <;>
      rw [hTry] at hNone <;> cases hNone
  | acquire form at_ =>
    cases at_ with
    | register => cases hGo (by simp)
    | trying listener at_ =>
      have hNone := hGo (by simp)
      simp only [step, pollAcquire] at hNone
      rcases tryAcquire_cases bits false s at_ with ⟨_, hTry⟩ | ⟨_, hTry⟩ | ⟨_, hTry⟩ <;>
        rw [hTry] at hNone <;> cases hNone
    | pending listener =>
      cases listener with
      | false => cases hGo (by simp)
      | true =>
        refine .inr (.inr (.inr ⟨trivial, trivial, fun hMark => ?_⟩))
        cases hGo fun _ _ => hMark
    | wait =>
      have hNone := hGo (by simp)
      simp only [step, pollAcquire] at hNone
      split_ifs at hNone with hMark hBlocking
      exact .inr (.inr (.inr ⟨trivial, hBlocking, hMark⟩))

theorem settled_of_stuck {s : State Semaphore Object} (h : (machine bits).Stuck goes s) (i : Nat)
    (o : Object) (hGet : s.pool[i]? = some o) : s.mem.Settled i o := by
  refine settled_of_none fun c hKeeps hDrop hGo => show step bits i c s.mem o = none from ?_
  refine Machine.next_eq_none hGet (h i c ⟨?_, hKeeps, fun hc => ?_⟩)
  · cases c with
    | go spurious =>
      obtain ⟨hSure, hRoused⟩ := hGo spurious rfl
      exact ⟨hSure, fun form hForm => hRoused form (Option.some.inj (hGet.symm.trans hForm))⟩
    | _ => trivial
  · rw [hGet]
    exact decide_eq_true (hDrop hc)

theorem not_forgotten_of_run {n : Nat} {acts : List (Action Call Choice)}
    {s : State Semaphore Object} (h : (machine bits).run (initial n) acts = some s)
    (hKeeps : ∀ a ∈ acts, Unforgotten a) (arc : Bool) : .forgotten arc ∉ s.pool := by
  refine Machine.invariant_along (P := fun s => .forgotten arc ∉ s.pool) h
    (Machine.along_of_forall hKeeps) nofun ?_
  intro u a v _ hKept hNext hu hMem
  rcases Machine.next_others hNext with ⟨k, rfl, rfl⟩ |
    ⟨i, c, o, mem, o', new, others, rfl, hGet, hAct, rfl, _⟩
  · rcases List.mem_append.mp hMem with hOld | hNew
    · exact hu hOld
    · cases k <;> cases List.mem_singleton.mp hNew
  · rcases mem_of_act hMem with hOld | hSelf | hNew
    · exact hu hOld
    · cases step_acts hAct with
      | forget => exact hKept
      | _ => cases hSelf
    · cases step_acts hAct with
      | take => cases List.mem_singleton.mp hNew
      | _ => cases hNew

def allBack : State Semaphore Object :=
  ⟨⟨2, Event.new⟩, [.gone, .gone, .gone, .gone, .gone, .gone]⟩

/-- The thread that has slept over a permit takes it, and both permits come back. -/
def dropAllGuards : List (Action Call Choice) :=
  dropThirdGuard ++ [.act 3 (.go false), .act 3 (.go false), .act 3 (.go false), .act 3 (.go false),
    .act 5 .drop, .act 5 (.go false)]

end AsyncLock.Semaphore
