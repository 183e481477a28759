import AsyncLock.OnceCell.Wakeup
import AsyncLock.Interleaving.Completion

/-! # Every call of the once cell returns

An initializer that is woken may find that another one is at work and sleep again, so it goes
round its loop as often as the state changes under it. Each caller changes the state at most twice,
so, once nobody calls the cell any more, its calls come to an end: in an initialized cell all of
them, in an uninitialized one all but those that wait for somebody else to initialize it.
-/
namespace AsyncLock.OnceCell
set_option autoImplicit false

open Interleaving

variable {α : Type*}

namespace Object

/-- How often the call may still change the state or notify. -/
def turns : Object α → Nat
  | init _ _ .check | init _ _ (.loop _) | init _ _ .listen | init _ _ .wait => 4
  | init _ _ (.exchange _) | trySet (.exchange _) => 4
  | init _ _ (.run _) | init _ _ (.write _ _) | init _ _ (.store _) => 3
  | trySet (.write _) | trySet .store => 3
  | init _ _ (.notifyActive _) | init _ _ (.dropGuard _) | trySet .notifyActive => 2
  | init _ _ (.notifyPassive _) | init _ _ (.notifyNext _) | trySet .notifyPassive => 1
  | _ => 0

/-- What it may still do before one of these happens, where a notification counts 10. -/
def effort (free : Bool) : Object α → Nat
  | init _ _ .check | wait _ .check => 9
  | init _ _ (.exchange _) => if free then 4 else 8
  | wait _ .listen => 8
  | init _ _ (.loop false) | wait _ .recheck => 7
  | init _ _ .listen => 6
  | init _ _ (.loop true) => 5
  | get .load | init _ _ (.finish _ _) | wait _ (.read true) => 4
  | get .read | init _ _ (.read _) | wait _ (.read false) | wait _ (.dropListener _) => 3
  | init _ _ (.run _) => 3
  | init _ _ (.write _ _) | init _ _ .readSet | trySet (.write _) => 2
  | init _ _ (.store _) | trySet .store | init _ _ (.leave _) | returned _ => 1
  | wait _ .await => 1
  | _ => 0

theorem ParkedActive.resting {o : Object α} (h : o.ParkedActive) :
    o.Resting ∧ o.claims = 0 ∧ o.hasWritten = 0 := by
  cases o with
  | init blocking init at_ => cases at_ <;> first | exact ⟨trivial, rfl, rfl⟩ | cases h
  | _ => cases h

theorem ParkedPassive.resting {o : Object α} (h : o.ParkedPassive) :
    o.Resting ∧ o.claims = 0 ∧ o.hasWritten = 0 := by
  cases o with
  | wait blocking at_ => cases at_ <;> first | exact ⟨trivial, rfl, rfl⟩ | cases h
  | _ => cases h

theorem ParkedPassive.not_active {o : Object α} (h : o.ParkedPassive) : ¬ o.ParkedActive := by
  cases o with
  | wait => exact id
  | _ => cases h

end Object

def free (s : OnceCell α) : Bool := s.state = .uninitialized

def marks (s : OnceCell α) : Nat := s.activeInitializers.marks + s.passiveWaiters.marks

variable {p : Platform} {i : Nat} {c : Choice α} {s s' : OnceCell α} {o o' : Object α}
  {new : List (Object α)}

/-! ## Every run ends -/

attribute [local simp] Object.turns Object.effort

theorem free_of_exchange {blocking listener : Bool} {init : Init α}
    (h : step p i c s (.init blocking init (.loop listener)) =
      some (s', .init blocking init (.exchange listener), new)) : s.free = true := by
  cases hState : s.state with
  | uninitialized => simp [free, hState]
  | initializing => cases listener <;> simp [step, stepInit, hState] at h
  | initialized => simp [step, stepInit, hState] at h

theorem not_free_of_loop {blocking listener : Bool} {init : Init α}
    (h : step p i c s (.init blocking init (.exchange listener)) =
      some (s', .init blocking init (.loop listener), new)) : s.free = false := by
  rcases begin_cases s with ⟨_, hEq⟩ | hEq
  · simp [step, stepInit, hEq] at h
  · unfold begin at hEq
    split at hEq
    · cases hEq
    · simpa [free]

theorem marks_discardActive_le (i : Nat) (s : OnceCell α) (listener : Bool) :
    (discardActive i s listener).marks ≤ s.marks := by
  cases listener with
  | false => exact Nat.le_refl _
  | true =>
    have := s.activeInitializers.marks_discard_le i
    simp only [marks, discardActive, if_true]
    omega

theorem marks_discardPassive_le (i : Nat) (s : OnceCell α) (listener : Bool) :
    (discardPassive i s listener).marks ≤ s.marks := by
  cases listener with
  | false => exact Nat.le_refl _
  | true =>
    have := s.passiveWaiters.marks_discard_le i
    simp only [marks, discardPassive, if_true]
    omega

theorem step_lessens (h : step p i c s o = some (s', o', new)) :
    o'.turns < o.turns ∨ (o'.turns = o.turns ∧ s'.free = s.free ∧
      10 * s'.marks + o'.effort s.free < 10 * s.marks + o.effort s.free) := by
  obtain ⟨hActs, rfl⟩ := step_acts h
  cases hActs with
  | initFast | initUnpolled | initDone | initCancel | initBegin | initStore | initNotifyActive
  | initNotifyPassive | initDropGuard | initNotifyNext | initFail | trySetBegin | trySetLose
  | trySetStore | trySetNotifyActive | trySetNotifyPassive => exact .inl (by simp)
  | initFree => exact .inr ⟨rfl, rfl, by cases ‹Bool› <;> simp [free_of_exchange h]⟩
  | initLose => exact .inr ⟨rfl, rfl, by cases ‹Bool› <;> simp [not_free_of_loop h]⟩
  | waitListen | initListen => exact .inr ⟨rfl, rfl, by simp [marks]⟩
  | waitConsume _ _ hMark | initConsume _ _ _ hMark =>
    have := Event.marks_remove_lt hMark
    exact .inr ⟨rfl, rfl, by simp [marks]; omega⟩
  | waitCancel | waitReturn =>
    have := marks_discardPassive_le i s true
    exact .inr ⟨rfl, by simp [free], by simp; omega⟩
  | initLeave _ _ _ listener | initFinish _ _ _ listener =>
    have := marks_discardActive_le i s listener
    exact .inr ⟨rfl, by simp [free], by simp; omega⟩
  | initWrite | trySetWrite => exact .inr ⟨rfl, rfl, by simp [marks]⟩
  | _ => exact .inr ⟨rfl, rfl, by simp⟩

def rank (s : State (OnceCell α) (Object α)) : Nat ×ₗ Nat :=
  toLex (census Object.turns s.pool,
    10 * s.mem.marks + census (fun o => o.effort s.mem.free) s.pool)

theorem rank_lt {ok : State (OnceCell α) (Object α) → Nat → Choice α → Prop}
    {s s' : State (OnceCell α) (Object α)} (h : (machine p).Works ok s s') :
    rank s' < rank s := by
  obtain ⟨i, c, o, o', new, others, _, _, hAct, _, hPool, hPool'⟩ := Machine.works_others h
  obtain ⟨_, rfl⟩ := step_acts hAct
  simp only [rank, Prod.Lex.toLex_lt_toLex, hPool, hPool', census_nil]
  rcases step_lessens hAct with hTurns | ⟨hTurns, hFree, hEffort⟩
  · exact .inl (by omega)
  · exact .inr ⟨by omega, by rw [hFree]; omega⟩

theorem acc_works (ok : State (OnceCell α) (Object α) → Nat → Choice α → Prop)
    (s : State (OnceCell α) (Object α)) : Acc (fun v u => (machine p).Works ok u v) s :=
  Machine.acc_of_rank (P := fun _ => True) rank (fun _ _ _ h => ⟨trivial, rank_lt h⟩) trivial

/-! ## Where a run ends -/

/-- No future is dropped; a closure that runs comes to some end. -/
def goes (_ : State (OnceCell α) (Object α)) (_ : Nat) (c : Choice α) : Prop := c ≠ .drop

theorem asleep_of_none (h : ∀ c, c ≠ .drop → step p i c s o = none) : o = .gone ∨
    (o.ParkedActive ∧ ¬ (s.activeInitializers.markOf i).isSome) ∨
    (o.ParkedPassive ∧ ¬ (s.passiveWaiters.markOf i).isSome) := by
  have hGo := h .go (by simp)
  cases o with
  | gone => exact .inl rfl
  | get | trySet | returned => cases hGo
  | wait blocking at_ =>
    cases at_ with
    | await =>
      refine .inr (.inr ⟨trivial, fun hMark => ?_⟩)
      simp [step, stepWait, hMark] at hGo
    | check | recheck =>
      simp only [step, stepWait] at hGo
      split at hGo <;> cases hGo
    | read listener => cases listener <;> cases hGo
    | _ => cases hGo
  | init blocking init at_ =>
    cases at_ with
    | wait =>
      refine .inr (.inl ⟨trivial, fun hMark => ?_⟩)
      simp [step, stepInit, hMark] at hGo
    | check =>
      simp only [step, stepInit] at hGo
      split at hGo <;> cases hGo
    | loop listener =>
      cases hState : s.state <;> cases listener <;> simp [step, stepInit, hState] at hGo
    | exchange listener =>
      rcases begin_cases s with ⟨_, hEq⟩ | hEq <;> simp [step, stepInit, hEq] at hGo
    | run listener =>
      cases init with
      | closure => cases h .panic (by simp)
      | given => cases hGo
    | read ran => cases init <;> cases ran <;> cases hGo
    | _ => cases hGo

variable {r t : State (OnceCell α) (Object α)}

/-- Where nobody can go on, an initialized cell is left by everybody and an uninitialized one by
all but its waiters; no initialization is under way. -/
theorem settled_of_stuck (h : Life p r) (hFree : ∀ o ∈ r.pool, o.borrows = false)
    {acts : List (Action (Call α) (Choice α))} (hRun : (machine p).run r acts = some t)
    (hFits : (machine p).Along (fun u _ => u.mem.Fits p) r acts)
    (hStuck : (machine p).Stuck goes t) :
    (t.mem.state = .initialized ∧ ∀ o ∈ t.pool, o = .gone) ∨
      (t.mem.state = .uninitialized ∧ ∀ o ∈ t.pool, o = .gone ∨ o.ParkedPassive) := by
  have hAsleep (j : Nat) (o : Object α) (hGet : t.pool[j]? = some o) : o = .gone ∨
      (o.ParkedActive ∧ ¬ (t.mem.activeInitializers.markOf j).isSome) ∨
      (o.ParkedPassive ∧ ¬ (t.mem.passiveWaiters.markOf j).isSome) :=
    asleep_of_none fun c hGoes => Machine.next_eq_none hGet (hStuck j c hGoes)
  have hResting : ∀ o ∈ t.pool, o.Resting ∧ o.claims = 0 ∧ o.hasWritten = 0 := by
    intro o ho
    obtain ⟨j, hGet⟩ := List.getElem?_of_mem ho
    rcases hAsleep j o hGet with rfl | ⟨hPark, _⟩ | ⟨hPark, _⟩
    · exact ⟨trivial, rfl, rfl⟩
    · exact hPark.resting
    · exact hPark.resting
  have hLife := life_of_reaches h (Machine.reaches_of_run _ acts r t hRun)
  cases hState : t.mem.state with
  | initializing =>
    have hCount := (sound_of_life hLife).ledger.initializing
    rw [hState, if_pos rfl, census_eq_zero fun o ho => (hResting o ho).2.1,
      census_eq_zero fun o ho => (hResting o ho).2.2] at hCount
    cases hCount
  | initialized =>
    refine .inl ⟨rfl, fun o ho => ?_⟩
    obtain ⟨j, hGet⟩ := List.getElem?_of_mem ho
    rcases hAsleep j o hGet with hGone | ⟨hPark, hUnmarked⟩ | ⟨hPark, hUnmarked⟩
    · exact hGone
    · have hActive := settled_of_run (useActive p) id h hFree (fun _ => ownedActive_of_life) hRun
        (hFits.mono fun _ _ => And.left)
      have hQuiet := census_eq_zero fun o ho => (hResting o ho).1.notifies.1
      exact absurd (hActive hState hQuiet j o hGet hPark) hUnmarked
    · have hPassive := settled_of_run (usePassive p) id h hFree
        (fun _ hLife => (sound_of_life hLife).owned) hRun (hFits.mono fun _ _ => And.right)
      have hQuiet := census_eq_zero fun o ho => (hResting o ho).1.notifies.2
      exact absurd (hPassive hState hQuiet j o hGet hPark) hUnmarked
  | uninitialized =>
    refine .inr ⟨rfl, fun o ho => ?_⟩
    obtain ⟨j, hGet⟩ := List.getElem?_of_mem ho
    rcases hAsleep j o hGet with hGone | ⟨hPark, _⟩ | ⟨hPark, _⟩
    · exact .inl hGone
    · -- a parked initializer of an uninitialized cell has been notified, and could go on
      have hOwned := ownedActive_of_life hLife
      have hChain := chain_of_life hLife hState (hOwned.owners_ne_nil ho hPark.listens)
      obtain ⟨k, q, hGet', hPark', hMark⟩ := hOwned.exists_parked hChain
        (fun q hq hListens => ((hResting q hq).1.parked hListens).resolve_right fun hClaims => by
          rw [(hResting q hq).2.1] at hClaims
          cases hClaims)
        fun q hq => (hResting q hq).1.rouses
      rcases hAsleep k q hGet' with rfl | ⟨_, hUnmarked⟩ | ⟨hPassive, _⟩
      · cases hPark'
      · exact absurd hMark hUnmarked
      · exact absurd hPark' hPassive.not_active
    · exact .inr hPark

/-! ## Where no initialization fails -/

/-- A closure succeeds and no future is dropped. -/
def Succeeds : Action (Call α) (Choice α) → Prop
  | .act _ .fail | .act _ .panic | .act _ .drop => False
  | _ => True

instance [DecidableEq α] : ∀ a : Action (Call α) (Choice α), Decidable (Succeeds a)
  | .act _ .fail | .act _ .panic | .act _ .drop => inferInstanceAs (Decidable False)
  | .act _ .go | .act _ (.succeed _) | .call _ => inferInstanceAs (Decidable True)

def Call.initializes : Call α → Bool
  | initAs _ _ | trySet _ => true
  | _ => false

namespace Object

/-- Has still to find out whether it is the one that initializes the cell. -/
def Contends : Object α → Prop
  | init _ _ .check | init _ _ (.loop _) | init _ _ .listen | init _ _ .wait => True
  | init _ _ (.exchange _) | trySet (.exchange _) => True
  | _ => False

/-- About to give the initialization up. -/
def Failing : Object α → Prop
  | init _ _ (.dropGuard _) => True
  | _ => False

theorem ParkedPassive.not_contends {o : Object α} (h : o.ParkedPassive) : ¬ o.Contends := by
  cases o with
  | wait => exact id
  | _ => cases h

end Object

theorem step_failing (h : step p i c s o = some (s', o', new))
    (hSure : Succeeds (.act (κ := Call α) i c)) : ¬ o'.Failing := by
  obtain ⟨hActs, _⟩ := step_acts h
  cases hActs with
  | initFail _ _ init =>
    cases init <;> cases c <;> first | exact hSure.elim | cases h
  | _ => exact id

theorem step_contends (h : step p i c s o = some (s', o', new))
    (hSure : Succeeds (.act (κ := Call α) i c)) :
    (s.state ≠ .uninitialized → ¬ o.Failing → s'.state ≠ .uninitialized) ∧
      (s.state = .uninitialized → o.Contends → o'.Contends ∨ s'.state ≠ .uninitialized) := by
  obtain ⟨hActs, _⟩ := step_acts h
  cases hActs with
  | initFast _ _ _ hInit | initDone _ _ _ _ hInit =>
    exact ⟨fun hState _ => hState, fun hState => absurd (hState.symm.trans hInit) nofun⟩
  | initUnpolled | initCancel => exact hSure.elim
  | initBegin | trySetBegin | initStore | trySetStore =>
    exact ⟨fun _ _ => nofun, fun _ _ => .inr nofun⟩
  | trySetLose =>
    refine ⟨fun hState _ => hState, fun hState _ => ?_⟩
    simp [step, stepTrySet, begin, hState] at h
  | initDropGuard => exact ⟨fun _ hFailing => absurd trivial hFailing, fun _ => False.elim⟩
  | initLeave | initFinish | waitReturn | waitCancel =>
    exact ⟨fun hState _ => by simpa using hState, fun _ => False.elim⟩
  | initSlow | initQueue | initFree | initListen | initConsume | initLose | initWait =>
    exact ⟨fun hState _ => hState, fun _ _ => .inl trivial⟩
  | _ => exact ⟨fun hState _ => hState, fun _ => False.elim⟩

/-- The cell is not uninitialized, or somebody is still going to try. -/
def Contended (s : State (OnceCell α) (Object α)) : Prop :=
  (∀ o ∈ s.pool, ¬ o.Failing) ∧
    (s.mem.state ≠ .uninitialized ∨ ∃ o ∈ s.pool, o.Contends)

theorem not_failing_of_next {u v : State (OnceCell α) (Object α)}
    {a : Action (Call α) (Choice α)} (hSure : Succeeds a)
    (hNext : (machine p).next u a = some v) (hu : ∀ o ∈ u.pool, ¬ o.Failing) :
    ∀ o ∈ v.pool, ¬ o.Failing := by
  intro q hq
  rcases Machine.next_others hNext with ⟨k, rfl, rfl⟩ |
    ⟨i, c, o, mem, o', new, others, rfl, _, hAct, rfl, _, _, _⟩
  · rcases List.mem_append.mp hq with hOld | hNew
    · exact hu q hOld
    · rw [List.mem_singleton.mp hNew]
      cases k <;> exact id
  · obtain ⟨_, rfl⟩ := step_acts hAct
    rcases mem_of_act hq with hOld | rfl | hNew
    · exact hu q hOld
    · exact step_failing hAct hSure
    · cases hNew

theorem contended_of_next {u v : State (OnceCell α) (Object α)}
    {a : Action (Call α) (Choice α)} (hSure : Succeeds a)
    (hNext : (machine p).next u a = some v) (hu : Contended u) : Contended v := by
  obtain ⟨hFailing, hContends⟩ := hu
  refine ⟨not_failing_of_next hSure hNext hFailing, ?_⟩
  cases a with
  | call k =>
    cases hNext
    exact hContends.imp_right fun ⟨o, ho, hCon⟩ => ⟨o, List.mem_append_left _ ho, hCon⟩
  | act i c =>
    obtain ⟨o, mem, o', new, hGet, hAct, rfl⟩ := Machine.next_act hNext
    obtain ⟨hKept, hTried⟩ := step_contends hAct hSure
    by_cases hState : u.mem.state = .uninitialized
    · obtain ⟨q, hq, hCon⟩ := hContends.resolve_left (absurd hState)
      obtain ⟨j, hGet'⟩ := List.getElem?_of_mem hq
      by_cases hji : j = i
      · subst hji
        cases hGet.symm.trans hGet'
        have hSelf := List.mem_of_getElem? (get_act_self hGet o' new)
        exact (hTried hState hCon).symm.imp_right fun hCon' => ⟨o', hSelf, hCon'⟩
      · exact .inr ⟨q, List.mem_of_getElem? (get_act_other hGet' hji o' new), hCon⟩
    · exact .inl (hKept hState (hFailing o (List.mem_of_getElem? hGet)))

theorem contended_of_run (hGone : ∀ o ∈ r.pool, o = .gone)
    {acts : List (Action (Call α) (Choice α))} (hRun : (machine p).run r acts = some t)
    (hSure : ∀ a ∈ acts, Succeeds a) (hCalled : ∃ k, .call k ∈ acts ∧ k.initializes) :
    Contended t := by
  obtain ⟨k, hk, hInit⟩ := hCalled
  obtain ⟨before, after, rfl⟩ := List.append_of_mem hk
  rw [Machine.run_append] at hRun
  obtain ⟨u, hBefore, hRest⟩ := Option.bind_eq_some_iff.mp hRun
  obtain ⟨v, hCall, hAfter⟩ := Option.bind_eq_some_iff.mp hRest
  have hFailing : ∀ o ∈ u.pool, ¬ o.Failing := by
    refine Machine.invariant_along (P := fun s => ∀ o ∈ s.pool, ¬ o.Failing) hBefore
      (Machine.along_of_forall fun a ha => hSure a (List.mem_append_left _ ha)) ?_
      fun _ _ _ _ hOk hNext => not_failing_of_next hOk hNext
    intro o ho
    rw [hGone o ho]
    exact id
  refine Machine.invariant_along (P := Contended) hAfter
    (Machine.along_of_forall fun a ha => hSure a (by simp [ha])) ?_
    fun _ _ _ _ hOk hNext => contended_of_next hOk hNext
  refine ⟨not_failing_of_next (hSure _ hk) hCall hFailing, .inr ?_⟩
  cases hCall
  refine ⟨create u.mem k, List.mem_append_right _ List.mem_cons_self, ?_⟩
  cases k with
  | initAs | trySet => trivial
  | _ => cases hInit

/-- Without new calls every run ends. While no future is dropped, it ends in an initialized cell
that everybody has left, or in an uninitialized one where only calls of `wait` are left, asleep. If
no closure has failed and somebody has called for an initialization, the cell is initialized. -/
theorem calls_complete (h : Life p r) (hFree : ∀ o ∈ r.pool, o.borrows = false)
    {acts : List (Action (Call α) (Choice α))} (hRun : (machine p).run r acts = some t)
    (hFits : (machine p).Along (fun u _ => u.mem.Fits p) r acts) :
    ¬ (machine p).Endless (fun _ _ _ => True) t ∧ ((machine p).Stuck goes t →
      ((t.mem.state = .initialized ∧ ∀ o ∈ t.pool, o = .gone) ∨
        (t.mem.state = .uninitialized ∧ ∀ o ∈ t.pool, o = .gone ∨ o.ParkedPassive)) ∧
      ((∀ a ∈ acts, Succeeds a) → (∃ k, .call k ∈ acts ∧ k.initializes) →
        t.mem.state = .initialized)) := by
  refine ⟨Machine.not_endless_of_acc (acc_works _ t), fun hStuck => ?_⟩
  have hSettled := settled_of_stuck h hFree hRun hFits hStuck
  refine ⟨hSettled, fun hSure hCalled => ?_⟩
  obtain ⟨_, hContended⟩ := contended_of_run (gone_of_borrows hFree) hRun hSure hCalled
  rcases hSettled with ⟨hInit, _⟩ | ⟨hUninit, hLeft⟩
  · exact hInit
  · -- somebody would still be about to try, but only waiters are left
    obtain ⟨o, ho, hCon⟩ := hContended.resolve_left (absurd hUninit)
    rcases hLeft o ho with rfl | hPark
    · cases hCon
    · exact absurd hCon hPark.not_contends

/-- The caller that has slept behind the closure and the waiter return their references. -/
def everybodyReturns : List (Action (Call Nat) (Choice Nat)) :=
  succeedThere ++ [.act 0 .go] ++ List.replicate 5 (.act 1 .go) ++ List.replicate 3 (.act 2 .go)

def everybodyGone : State (OnceCell Nat) (Object Nat) :=
  ⟨⟨Event.new, Event.new, .initialized, some 7⟩, [.gone, .gone, .gone]⟩

theorem calls_complete_everybodyReturns :
    ¬ (machine platform64).Endless (fun _ _ _ => True) everybodyGone ∧
      everybodyGone.mem.state = .initialized := by
  have hComplete := calls_complete (p := platform64) .new nofun
    (show (machine platform64).run ⟨OnceCell.new, []⟩ everybodyReturns = some everybodyGone by
      decide +kernel) (by decide +kernel)
  refine ⟨hComplete.1, (hComplete.2 fun i c _ => ?_).2 (by decide) ⟨.getOrInit, by decide, rfl⟩⟩
  rcases i with _ | _ | _ | i <;> rfl

end AsyncLock.OnceCell
