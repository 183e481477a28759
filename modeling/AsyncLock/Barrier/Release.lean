import AsyncLock.Barrier.Generations
import AsyncLock.Interleaving.Ownership

/-! # The barrier releases everybody

A waiter queues its entry before it gives the mutex back, while its generation is the current
one, and the leader that ends the generation notifies every entry before it gives the mutex back.
So an entry without a mark belongs to the current generation, unless a leader is about to
notify. A waiter of an ended generation that has the mutex again leaves with its result.
-/
namespace AsyncLock.Barrier
set_option autoImplicit false

open Interleaving

namespace Object

/-- The generation for which it has an entry of the event. -/
def queuedFor : Object → Option Nat
  | wait _ (.unlock (.wait localGen _)) | wait _ (.notifyLockOps (.wait localGen _)) =>
    some localGen
  | wait _ (.waiting localGen _) => some localGen
  | _ => none

def listens (o : Object) : Bool := o.queuedFor.isSome

def notifies : Object → Nat
  | wait _ (.notify _) => 1
  | _ => 0

/-- The generation it has found to be the current one since it has the mutex. -/
def agreesOn : Object → Option Nat
  | wait _ (.compare localGen _) | wait _ (.listen localGen _) => some localGen
  | wait _ (.unlock (.wait localGen _)) => some localGen
  | _ => none

theorem owns_of_agreesOn {o : Object} {g : Nat} (h : o.agreesOn = some g) : o.owns = 1 := by
  cases o with
  | wait blocking at_ => cases at_ <;> first | rfl | cases h
  | _ => cases h

theorem owns_of_notifies {o : Object} (h : 0 < o.notifies) : o.owns = 1 := by
  cases o with
  | wait blocking at_ => cases at_ <;> first | rfl | cases h
  | _ => cases h

end Object

variable {n : Nat} {p : Platform} {i : Nat} {c : Choice} {s s' : Barrier} {o o' : Object}
  {new : List Object}

/-! ## One step -/

theorem discard_of_unmarked {q : Event} {i : Nat} (h : q.markOf i = none) :
    q.discard i = q.remove i := by
  rw [Event.discard, h]

theorem step_access (h : step n p i c s o = some (s', o', new)) :
    Event.Access i s.event o.listens s'.event o'.listens := by
  obtain ⟨blocking, at_, rfl, hActs, rfl⟩ := step_acts h
  cases hActs with
  | lock f d m r => cases r <;> exact .leave _ _
  | relock localGen ticket f d m r => cases r <;> exact .leave _ _
  | locked listener | relocked _ _ listener => cases listener <;> exact .leave _ _
  | listen => exact .listen _
  | notify => exact .notify _ _ _
  | unlock after => rcases after with _ | ⟨_, _⟩ <;> exact .leave _ _
  | notifyLockOps after => rcases after with _ | ⟨_, _⟩ <;> exact .leave _ _
  | wake =>
    -- a wake-up for no reason removes an entry that is not marked
    cases hMark : s.event.markOf i with
    | none =>
      rw [← discard_of_unmarked hMark]
      exact .discard _
    | some kind => exact .consume _ (by rw [hMark]; rfl)
  | cancel => exact .discard _
  | _ => exact .leave _ _

/-- The generation is changed by an owner of the mutex who notifies next. -/
theorem step_generation (h : step n p i c s o = some (s', o', new)) :
    s'.generationId = s.generationId ∨ (o.owns = 1 ∧ o'.notifies = 1) := by
  obtain ⟨blocking, at_, rfl, hActs, rfl⟩ := step_acts h
  cases hActs with
  | advance => exact .inr ⟨rfl, rfl⟩
  | locked | relocked => exact .inl (by simp)
  | _ => exact .inl rfl

theorem step_notifies (h : step n p i c s o = some (s', o', new)) (ho : o.notifies ≠ 0) :
    s'.event = s.event.notify p.usizeMax := by
  obtain ⟨blocking, at_, rfl, hActs, rfl⟩ := step_acts h
  cases hActs with
  | notify => rfl
  | _ => exact absurd rfl ho

theorem step_agrees (h : step n p i c s o = some (s', o', new))
    (ho : ∀ g, o.agreesOn = some g → g = s.generationId) {g : Nat}
    (ho' : o'.agreesOn = some g) : g = s'.generationId := by
  obtain ⟨blocking, at_, rfl, hActs, rfl⟩ := step_acts h
  cases hActs with
  | arrive =>
    cases ho'
    rfl
  | follow | listen =>
    cases ho'
    exact ho _ rfl
  | again _ _ hGen =>
    cases ho'
    exact hGen
  | lock f d m r => cases r <;> cases ho'
  | relock localGen ticket f d m r => cases r <;> cases ho'
  | notifyLockOps after => cases after <;> cases ho'
  | _ => cases ho'

/-- An entry is queued for the generation that its owner has found to be the current one. -/
theorem step_queues (h : step n p i c s o = some (s', o', new)) {g : Nat}
    (ho' : o'.queuedFor = some g) : s'.generationId = s.generationId ∧ o.notifies = 0 ∧
      (o.agreesOn = some g ∨ (o.queuedFor = some g ∧ s'.event = s.event)) := by
  obtain ⟨blocking, at_, rfl, hActs, rfl⟩ := step_acts h
  cases hActs with
  | listen => exact ⟨rfl, rfl, .inl ho'⟩
  | unlock after =>
    cases after with
    | wait => exact ⟨rfl, rfl, .inr ⟨ho', rfl⟩⟩
    | ready => cases ho'
  | notifyLockOps after =>
    cases after with
    | wait => exact ⟨rfl, rfl, .inr ⟨ho', rfl⟩⟩
    | ready => cases ho'
  | lock f d m r => cases r <;> cases ho'
  | relock localGen ticket f d m r => cases r <;> cases ho'
  | _ => cases ho'

/-! ## Every run -/

/-- The event counts its entries with a `usize`. -/
def Fits (p : Platform) (s : Barrier) : Prop := s.event.entries.length ≤ p.usizeMax

structure Roused (s : State Barrier Object) : Prop where
  owned : Owned Object.listens s.mem.event s.pool
  agrees : ∀ o ∈ s.pool, ∀ g, o.agreesOn = some g → g = s.mem.generationId
  notified : ∀ j o g, s.pool[j]? = some o → o.queuedFor = some g →
    (s.mem.event.markOf j).isSome ∨ g = s.mem.generationId ∨ 0 < census Object.notifies s.pool

namespace Roused

variable {s s' : State Barrier Object}

theorem create (h : Roused s) (k : Call) :
    Roused ⟨s.mem, s.pool ++ [(machine n p).create s.mem k]⟩ := by
  obtain ⟨blocking⟩ := k
  refine ⟨?_, ?_, ?_⟩
  · apply h.owned.append
    intro o ho
    rw [List.mem_singleton.mp ho]
    rfl
  · intro o ho g hAgrees
    rcases List.mem_append.mp ho with ho | ho
    · exact h.agrees o ho g hAgrees
    · rw [List.mem_singleton.mp ho] at hAgrees
      cases hAgrees
  · intro j o g hGet hQueued
    rw [census_append]
    rcases get_of_append hGet with hOld | ⟨_, rfl⟩
    · rcases h.notified j o g hOld hQueued with hMark | hGen | hNotify
      · exact .inl hMark
      · exact .inr (.inl hGen)
      · exact .inr (.inr (Nat.lt_add_right _ hNotify))
    · cases hQueued

section

variable {others : List Object} {mem : Barrier} {j g : Nat} {q : Object}

theorem agrees_of_other (h : Roused s) (hSound : Sound n p s) (hGet : s.pool[i]? = some o)
    (hAct : Barrier.step n p i c s.mem o = some (mem, o', new)) (hji : j ≠ i)
    (hj : s.pool[j]? = some q) (hAgrees : q.agreesOn = some g) : g = mem.generationId := by
  have hSame := h.agrees q (List.mem_of_getElem? hj) g hAgrees
  rcases step_generation hAct with hGen | ⟨hOwns, _⟩
  · rw [hGen, hSame]
  · -- two owners of the mutex
    have hTwo := add_le_census Object.owns (Ne.symm hji) hGet hj
    have hOne := hSound.mutex.owners_le
    have := Object.owns_of_agreesOn hAgrees
    omega

theorem notified_of_self (h : Roused s) (hPool : ∀ f, census f s.pool = f o + census f others)
    (hGet : s.pool[i]? = some o) (hAct : Barrier.step n p i c s.mem o = some (mem, o', new))
    (hQueued : o'.queuedFor = some g) : (mem.event.markOf i).isSome ∨ g = mem.generationId ∨
      0 < o'.notifies + census Object.notifies others := by
  obtain ⟨hSame, hQuiet, hAgrees | ⟨hBefore, hEvent⟩⟩ := step_queues hAct hQueued
  · have hSelf := h.agrees o (List.mem_of_getElem? hGet) g hAgrees
    exact .inr (.inl (by rw [hSame, hSelf]))
  · have hOld := h.notified i o g hGet hBefore
    rw [hPool, hQuiet] at hOld
    rw [hEvent, hSame]
    rcases hOld with hMark | hCurrent | hLeft
    · exact .inl hMark
    · exact .inr (.inl hCurrent)
    · exact .inr (.inr (by omega))

theorem notified_of_other (h : Roused s) (hFits : s.mem.Fits p)
    (hPool : ∀ f, census f s.pool = f o + census f others)
    (hAct : Barrier.step n p i c s.mem o = some (mem, o', new)) (hji : j ≠ i)
    (hj : s.pool[j]? = some q) (hQueued : q.queuedFor = some g) :
    (mem.event.markOf j).isSome ∨ g = mem.generationId ∨
      0 < o'.notifies + census Object.notifies others := by
  by_cases hNotify : o.notifies = 0
  · rcases h.notified j q g hj hQueued with hMark | hSame | hLeft
    · exact .inl ((step_access hAct).isSome_markOf_other hji hMark)
    · rcases step_generation hAct with hGen | ⟨_, hLeads⟩
      · exact .inr (.inl (by rw [hGen, hSame]))
      · exact .inr (.inr (by omega))
    · rw [hPool] at hLeft
      exact .inr (.inr (by omega))
  · have hListens : q.listens = true := by
      rw [Object.listens, hQueued]
      rfl
    rw [step_notifies hAct hNotify]
    exact .inl (Event.isSome_markOf_notify ((h.owned j).mpr ⟨q, hj, hListens⟩) hFits)

end

theorem step (h : Roused s) (hSound : Sound n p s) (hFits : s.mem.Fits p)
    (hStep : (machine n p).Step s s') : Roused s' := by
  rcases Machine.step_others hStep with ⟨k, rfl⟩ |
    ⟨i, c, o, mem, o', new, others, hGet, hAct, rfl, _, hPool, hPool'⟩
  · exact h.create k
  · obtain ⟨_, _, _, _, rfl⟩ := step_acts hAct
    refine ⟨h.owned.act hGet (step_access hAct) nofun, ?_, ?_⟩
    · intro q hq g hAgrees
      obtain ⟨j, hj⟩ := List.getElem?_of_mem (List.append_nil _ ▸ hq)
      rcases get_of_set hj with ⟨rfl, rfl⟩ | ⟨hji, hj⟩
      · exact step_agrees hAct (h.agrees o (List.mem_of_getElem? hGet)) hAgrees
      · exact h.agrees_of_other hSound hGet hAct hji hj hAgrees
    · intro j q g hj hQueued
      rw [hPool', census_nil]
      rcases get_of_set (List.append_nil _ ▸ hj) with ⟨rfl, rfl⟩ | ⟨hji, hj⟩
      · exact h.notified_of_self hPool hGet hAct hQueued
      · exact h.notified_of_other hFits hPool hAct hji hj hQueued

end Roused

theorem roused_of_run (hn : 1 ≤ n) {acts : List (Action Call Choice)} {s : State Barrier Object}
    (h : (machine n p).run initial acts = some s) (hAlive : Alive Object.Aborted s)
    (hFits : (machine n p).Along (fun t _ => t.mem.Fits p) initial acts) : Roused s := by
  suffices hGuarded : Alive Object.Aborted s → Roused s from hGuarded hAlive
  apply Machine.invariant_along (P := fun t => Alive Object.Aborted t → Roused t) h hFits
  · exact fun _ => ⟨Owned.nil _, nofun, nofun⟩
  · intro t a t' hPast hLength hNext ht hAlive'
    have hBefore := Machine.alive_of_step aborted_stuck ⟨a, hNext⟩ hAlive'
    exact (ht hBefore).step (sound_of_reaches hn hPast hBefore) hLength ⟨a, hNext⟩

/-! ## A waiter of an ended generation -/

/-- It waits for a generation that is over, is getting the mutex again, or leaves. -/
def Object.Returning (g t : Nat) : Object → Prop
  | wait _ (.notifyLockOps (.wait g' t')) | wait _ (.waiting g' t') => g' = g ∧ t' = t
  | wait _ (.reacquiring g' t' _) | wait _ (.reacquired g' t' _) => g' = g ∧ t' = t
  | wait _ (.recheck g' t') => g' = g ∧ t' = t
  | wait _ (.unlock (.ready false t')) | wait _ (.notifyLockOps (.ready false t')) => t' = t
  | ready false t' => t' = t
  | gone => True
  | _ => False

theorem step_returning (h : step n p i c s o = some (s', o', new)) {g t : Nat}
    (ho : o.Returning g t)
    (hOver : ∀ blocking, o = .wait blocking (.recheck g t) → g ≠ s.generationId) :
    o'.Returning g t := by
  obtain ⟨blocking, at_, rfl, hActs, rfl⟩ := step_acts h
  cases hActs with
  | unlock after => rcases after with _ | ⟨_ | _, _⟩ <;> first | exact ho | cases ho
  | notifyLockOps after => rcases after with _ | ⟨_ | _, _⟩ <;> exact ho
  | wake | relocked => exact ho
  | cancel => trivial
  | relock localGen ticket f d m r => cases r <;> first | exact ho | trivial
  | again localGen ticket hGen =>
    obtain ⟨rfl, rfl⟩ := ho
    exact absurd hGen (hOver blocking rfl)
  | leave => exact ho.2
  | _ => cases ho

theorem step_arrivals (h : step n p i c s o = some (s', o', new)) : s.arrivals ≤ s'.arrivals := by
  rcases (step_moves h).ticket with ⟨hSame, _⟩ | ⟨hNext, _⟩ | ⟨hSame, _⟩ <;> omega

section Stale

variable {s s' : State Barrier Object} {g t : Nat}

/-- To a waiter that has the mutex the numbers tell all arrivals. -/
theorem Sound.numbers_of_owner (h : Sound n p s) {o : Object} (ho : o ∈ s.pool)
    (hOwns : o.owns = 1) (hStage : o.stage = .follower g t) :
    s.mem.count = s.mem.arrivals % n ∧ s.mem.generationId = s.mem.arrivals / n % 2 ^ 64 := by
  have hNone : census Object.arriving s.pool = 0 := by
    obtain ⟨i, hGet⟩ := List.getElem?_of_mem ho
    obtain ⟨others, hPool, _⟩ := exists_others hGet
    have hOne := h.mutex.owners_le
    have hLe := census_le Object.arriving_le_owns others
    have hSelf : o.arriving = 0 := by
      rw [Object.arriving, hStage]
      rfl
    rw [hPool] at hOne ⊢
    omega
  obtain ⟨_, hCount, hGen⟩ := h.counts
  rw [hNone, Nat.sub_zero] at hCount hGen
  exact ⟨hCount, hGen⟩

theorem generation_lt_of_stale (hn : 1 ≤ n) (h : Sound n p s)
    (hFree : s.mem.mutex.state % 2 = 0) {o : Object} (ho : o ∈ s.pool)
    (hStage : o.stage = .follower g t) (hStale : g ≠ s.mem.generationId) :
    g = generation n t % 2 ^ 64 ∧ generation n t < s.mem.arrivals / n := by
  have hPlaced := h.placed o ho
  rw [hStage] at hPlaced
  obtain ⟨_, hLe, _, rfl⟩ := hPlaced
  have hMono : generation n t ≤ s.mem.arrivals / n := Nat.div_le_div_right (by omega)
  refine ⟨rfl, Nat.lt_of_le_of_ne hMono fun hEq => hStale ?_⟩
  rw [(numbers_of_free h hn hFree).2.2, hEq]

/-- From the end of its generation on, for less than 2 ^ 64 further ones. -/
theorem returning_of_reaches (hn : 1 ≤ n) (h : (machine n p).Reaches initial s)
    (hGen : g = generation n t % 2 ^ 64) (hEnded : generation n t < s.mem.arrivals / n) {i : Nat}
    {o : Object} (hGet : s.pool[i]? = some o) (ho : o.Returning g t)
    (hPath : (machine n p).Reaches s s') (hAlive : Alive Object.Aborted s')
    (hFew : s'.mem.arrivals / n < generation n t + 2 ^ 64) :
    s.mem.arrivals ≤ s'.mem.arrivals ∧ ∃ o', s'.pool[i]? = some o' ∧ o'.Returning g t := by
  induction hPath with
  | refl => exact ⟨Nat.le_refl _, o, hGet, ho⟩
  | @tail u u' hPast hStep ih =>
    have hBefore := Machine.alive_of_step aborted_stuck hStep hAlive
    have hArrivals : u.mem.arrivals ≤ u'.mem.arrivals := by
      rcases Machine.step_cases hStep with ⟨k, rfl⟩ | ⟨j, c, q, mem, q', new, _, hAct, rfl⟩
      · exact Nat.le_refl _
      · exact step_arrivals hAct
    have hDiv : u.mem.arrivals / n ≤ u'.mem.arrivals / n := Nat.div_le_div_right hArrivals
    obtain ⟨hLater, q, hq, hReturning⟩ := ih hBefore (by omega)
    refine ⟨by omega, ?_⟩
    rcases Machine.get_of_step hStep hq with hSame | ⟨c, m, q', new, hAct, hq'⟩
    · exact ⟨q, hSame, hReturning⟩
    · refine ⟨q', hq', step_returning hAct hReturning ?_⟩
      rintro blocking rfl
      have hSound := sound_of_reaches hn (h.trans hPast) hBefore
      rw [(hSound.numbers_of_owner (List.mem_of_getElem? hq) rfl rfl).2, hGen]
      have hMono : s.mem.arrivals / n ≤ u.mem.arrivals / n := Nat.div_le_div_right hLater
      omega

/-- With the mutex it returns by its own next four actions. -/
theorem returns_of_reacquired {i : Nat} {blocking listener : Bool}
    (hGet : s.pool[i]? = some (.wait blocking (.reacquired g t listener)))
    (hOver : g ≠ s.mem.generationId) :
    ∃ s', (machine n p).run s (List.replicate 4 (.act i (.go false false))) = some s' ∧
      s'.pool[i]? = some (.ready false t) := by
  apply Machine.exists_run_cons hGet rfl
  intro u hMem hu
  have hCheck : stepWait n p i (.go false false) u.mem blocking (.recheck g t) =
      some (u.mem, .wait blocking (.unlock (.ready false t))) := by
    refine if_neg fun hSame => hOver (hSame.1.trans ?_)
    rw [hMem]
    exact (dropLock_fields _ _ _).2.2.1
  apply Machine.exists_run_cons hu (by simp only [machine, step, hCheck]; rfl)
  intro v _ hv
  apply Machine.exists_run_cons hv rfl
  intro w _ hw
  apply Machine.exists_run_cons hw rfl
  intro x _ hx
  exact ⟨x, rfl, hx⟩

/-- A waiter of the current generation queues a fresh entry before it gives the mutex back. -/
theorem requeues (hn : 1 ≤ n) (hSound : Sound n p s)
    (hOwned : Owned Object.listens s.mem.event s.pool) {i : Nat} {blocking : Bool}
    (hGet : s.pool[i]? = some (.wait blocking (.recheck g t)))
    (hGen : g = s.mem.generationId) : i ∉ s.mem.event.owners ∧
      ∃ s', (machine n p).run s (List.replicate 2 (.act i (.go false false))) = some s' ∧
        s'.pool[i]? = some (.wait blocking (.unlock (.wait g t))) ∧
        i ∈ s'.mem.event.owners := by
  have hCount := (hSound.numbers_of_owner (List.mem_of_getElem? hGet) rfl rfl).1
  have hLess : s.mem.count < n := hCount ▸ Nat.mod_lt _ hn
  constructor
  · intro hQueued
    obtain ⟨o, ho, hListens⟩ := (hOwned i).mp hQueued
    rw [hGet] at ho
    cases ho
    cases hListens
  · have hCheck : stepWait n p i (.go false false) s.mem blocking (.recheck g t) =
        some (s.mem, .wait blocking (.listen g t)) := if_pos ⟨hGen, hLess⟩
    apply Machine.exists_run_cons hGet (by simp only [machine, step, hCheck]; rfl)
    intro u _ hu
    apply Machine.exists_run_cons hu rfl
    intro v hv hGet'
    exact ⟨v, rfl, hGet', by simp [hv]⟩

end Stale

/-! ## Results -/

variable {s s' : State Barrier Object}

/-- While the mutex is free a waiter has an entry or is getting the mutex again. -/
theorem follower_of_free (blocking : Bool) {at_ : WaitPoint} {g t : Nat}
    (hStage : at_.stage = .follower g t) (hOwns : at_.owns = 0) :
    ((Object.wait blocking at_).queuedFor = some g ∨ ∃ f, at_ = .reacquiring g t f) ∧
      (Object.wait blocking at_).Returning g t := by
  cases at_ with
  | notifyLockOps after =>
    rcases after with ⟨g', t'⟩ | ⟨_ | _, t'⟩ <;> cases hStage
    exact ⟨.inl rfl, rfl, rfl⟩
  | waiting g' t' =>
    cases hStage
    exact ⟨.inl rfl, rfl, rfl⟩
  | reacquiring g' t' f =>
    cases hStage
    exact ⟨.inr ⟨f, rfl⟩, rfl, rfl⟩
  | lock | compare | advance | notify => cases hStage
  | _ => cases hOwns

/-- A waiter of an ended generation is not left with an entry that nobody has marked. -/
theorem notified_of_stale (hSound : Sound n p s) (hRoused : Roused s)
    (hFree : s.mem.mutex.state % 2 = 0) {i g : Nat} {o : Object} (hGet : s.pool[i]? = some o)
    (hQueued : o.queuedFor = some g) (hStale : g ≠ s.mem.generationId) :
    (s.mem.event.markOf i).isSome := by
  rcases hRoused.notified i o g hGet hQueued with hMark | hGen | hNotify
  · exact hMark
  · exact absurd hGen hStale
  · -- a leader that has not notified yet holds the mutex
    obtain ⟨q, hq, hLeads⟩ := (census_pos_iff _ _).mp hNotify
    have hLe := le_census Object.owns hq
    have := Object.owns_of_notifies hLeads
    have := hSound.nobody_owns hFree
    omega

/-- It leaves once it has the mutex, whatever happens before. -/
theorem returns_of_stale (hn : 1 ≤ n) (hReach : (machine n p).Reaches initial s)
    (hSound : Sound n p s) (hFree : s.mem.mutex.state % 2 = 0) {i g t : Nat} {blocking : Bool}
    {at_ : WaitPoint} (hGet : s.pool[i]? = some (.wait blocking at_))
    (hStage : at_.stage = .follower g t) (hReturning : (Object.wait blocking at_).Returning g t)
    (hStale : g ≠ s.mem.generationId) (hPath : (machine n p).Reaches s s')
    (hAlive : Alive Object.Aborted s') (hFew : s'.mem.arrivals / n < generation n t + 2 ^ 64) :
    ∃ o', s'.pool[i]? = some o' ∧ o'.Returning g t ∧
      ∀ blocking' listener, o' = .wait blocking' (.reacquired g t listener) →
        ∃ s'', (machine n p).run s' (List.replicate 4 (.act i (.go false false))) = some s'' ∧
          s''.pool[i]? = some (.ready false t) := by
  have ho := List.mem_of_getElem? hGet
  obtain ⟨hGen, hEnded⟩ := generation_lt_of_stale hn hSound hFree ho hStage hStale
  obtain ⟨hLater, o', ho', hReturning'⟩ :=
    returning_of_reaches hn hReach hGen hEnded hGet hReturning hPath hAlive hFew
  refine ⟨o', ho', hReturning', ?_⟩
  rintro blocking' listener rfl
  apply returns_of_reacquired ho'
  have hSound' := sound_of_reaches hn (hReach.trans hPath) hAlive
  rw [(hSound'.numbers_of_owner (List.mem_of_getElem? ho') rfl rfl).2, hGen]
  have hMono : s.mem.arrivals / n ≤ s'.mem.arrivals / n := Nat.div_le_div_right hLater
  omega

theorem notified_of_leader (hFits : s.mem.Fits p) {j t : Nat} {blocking : Bool} {c : Choice}
    (hGet : s.pool[j]? = some (.wait blocking (.notify t)))
    (hNext : (machine n p).next s (.act j c) = some s') :
    ∀ i ∈ s.mem.event.owners, (s'.mem.event.markOf i).isSome := by
  obtain ⟨mem, o', new, hAct, rfl⟩ := Machine.next_act_at hGet hNext
  cases hAct
  exact fun i hi => Event.isSome_markOf_notify hi hFits

/-- Nobody is left behind. With the mutex free, a waiter of an ended generation has been notified
or is getting the mutex again, and leaves once it has it; a waiter of the current one has an
entry or is getting the mutex again. Whoever finds its generation current has a fresh entry
before it gives the mutex back, and the leader notifies all entries. -/
theorem everybody_released (hn : 1 ≤ n) {acts : List (Action Call Choice)}
    (hRun : (machine n p).run initial acts = some s) (hAlive : Alive Object.Aborted s)
    (hFits : (machine n p).Along (fun u _ => u.mem.Fits p) initial acts) :
    (s.mem.mutex.state % 2 = 0 → ∀ (i : Nat) (blocking : Bool) (at_ : WaitPoint) (g t : Nat),
      s.pool[i]? = some (.wait blocking at_) → at_.stage = .follower g t →
      (g ≠ s.mem.generationId →
        ((s.mem.event.markOf i).isSome ∨ ∃ f, at_ = .reacquiring g t f) ∧
        ∀ s', (machine n p).Reaches s s' → Alive Object.Aborted s' →
          s'.mem.arrivals / n < generation n t + 2 ^ 64 →
          ∃ o', s'.pool[i]? = some o' ∧ o'.Returning g t ∧
            ∀ blocking' listener, o' = .wait blocking' (.reacquired g t listener) →
              ∃ s'', (machine n p).run s' (List.replicate 4 (.act i (.go false false))) =
                some s'' ∧ s''.pool[i]? = some (.ready false t)) ∧
      (g = s.mem.generationId →
        i ∈ s.mem.event.owners ∨ ∃ f, at_ = .reacquiring g t f)) ∧
    (∀ (i : Nat) (blocking : Bool) (g t : Nat),
      s.pool[i]? = some (.wait blocking (.recheck g t)) → g = s.mem.generationId →
      i ∉ s.mem.event.owners ∧
        ∃ s', (machine n p).run s (List.replicate 2 (.act i (.go false false))) = some s' ∧
          s'.pool[i]? = some (.wait blocking (.unlock (.wait g t))) ∧
          i ∈ s'.mem.event.owners) ∧
    (∀ (i : Nat) (blocking : Bool) (g t : Nat),
      s.pool[i]? = some (.wait blocking (.unlock (.wait g t))) →
      g = s.mem.generationId ∧ i ∈ s.mem.event.owners) ∧
    ∀ (j t : Nat) (blocking : Bool) (c : Choice) (s' : State Barrier Object), s.mem.Fits p →
      s.pool[j]? = some (.wait blocking (.notify t)) →
      (machine n p).next s (.act j c) = some s' →
      ∀ i ∈ s.mem.event.owners, (s'.mem.event.markOf i).isSome := by
  have hReach := Machine.reaches_of_run _ acts initial s hRun
  have hSound := sound_of_reaches hn hReach hAlive
  have hRoused := roused_of_run hn hRun hAlive hFits
  refine ⟨fun hFree i blocking at_ g t hGet hStage => ?_, ?_, ?_, ?_⟩
  · have hOwns : at_.owns = 0 := Nat.le_zero.mp
      (hSound.nobody_owns hFree ▸ le_census Object.owns (List.mem_of_getElem? hGet))
    obtain ⟨hWhere, hReturning⟩ := follower_of_free blocking hStage hOwns
    refine ⟨fun hStale => ⟨?_, fun s' hPath hAlive' hFew => ?_⟩, fun hGen => ?_⟩
    · exact hWhere.imp_left fun hQueued =>
        notified_of_stale hSound hRoused hFree hGet hQueued hStale
    · exact returns_of_stale hn hReach hSound hFree hGet hStage hReturning hStale hPath hAlive' hFew
    · refine hWhere.imp_left fun hQueued => (hRoused.owned i).mpr ⟨_, hGet, ?_⟩
      rw [Object.listens, hQueued]
      rfl
  · exact fun i blocking g t hGet hGen => requeues hn hSound hRoused.owned hGet hGen
  · intro i blocking g t hGet
    exact ⟨hRoused.agrees _ (List.mem_of_getElem? hGet) g rfl,
      (hRoused.owned i).mpr ⟨_, hGet, rfl⟩⟩
  · exact fun j t blocking c s' hFits' hGet hNext =>
      notified_of_leader hFits' hGet hNext

instance (p : Platform) (s : Barrier) : Decidable (s.Fits p) :=
  inferInstanceAs (Decidable (_ ≤ _))

def leaderLeaves : List (Action Call Choice) :=
  [.call .wait, .call .wait] ++ List.replicate 7 (.act 0 (.go false false)) ++
    List.replicate 8 (.act 1 (.go false false))

def leaderGone : State Barrier Object :=
  ⟨⟨⟨0, Event.new⟩, 0, 1, ⟨[⟨0, some .single⟩]⟩, 2⟩, [.wait false (.waiting 0 1), .ready true 2]⟩

def followerLocked : State Barrier Object :=
  ⟨⟨⟨1, Event.new⟩, 0, 1, Event.new, 2⟩, [.wait false (.reacquired 0 1 false), .ready true 2]⟩

theorem everybody_released_leaderLeaves :
    ((leaderGone.mem.event.markOf 0).isSome ∨
      ∃ f, WaitPoint.waiting 0 1 = .reacquiring 0 1 f) ∧
    ∃ s'', (machine 2 platform64).run followerLocked
      (List.replicate 4 (.act 0 (.go false false))) = some s'' ∧
        s''.pool[0]? = some (.ready false 1) := by
  have hReleased := everybody_released (n := 2) (p := platform64) (by decide)
    (show (machine 2 platform64).run initial leaderLeaves = some leaderGone by decide +kernel)
    (by simp [Alive, leaderGone, Object.Aborted, WaitPoint.Aborted]) (by decide +kernel)
  obtain ⟨hMark, hLater⟩ := (hReleased.1 rfl 0 false (.waiting 0 1) 0 1 rfl rfl).1 (by decide)
  refine ⟨hMark, ?_⟩
  obtain ⟨o', hGet, _, hReturns⟩ := hLater followerLocked
    (Machine.reaches_of_run _ (List.replicate 2 (.act 0 (.go false false))) _ _
      (by decide +kernel))
    (by simp [Alive, followerLocked, Object.Aborted, WaitPoint.Aborted]) (by decide)
  exact hReturns false false (Option.some.inj hGet).symm

end AsyncLock.Barrier
