import AsyncLock.Barrier.Release

/-! # Dropped waits stay counted

A `wait` future that is dropped has no way to take its arrival back, so `count` is that of the tasks
at the barrier as long as nobody who has arrived in the current generation is dropped, and the
leader is then the last of `n` tasks that are there. Which generation an arrival is one of is told
by its number, and which one is current by the number of arrivals.
-/
namespace AsyncLock.Barrier
set_option autoImplicit false

open Interleaving

/-- The generation under way. Its last arrival belongs to it until `generation_id` has changed. -/
def currentGeneration (n : Nat) (s : State Barrier Object) : Nat :=
  (s.mem.arrivals - census Object.arriving s.pool) / n

namespace Object

/-- The arrival of an unfinished `wait` that has not been dropped. -/
def waitingTicket : Object → Option Nat
  | wait _ (.reacquiring _ _ .dropListener) => none
  | wait _ at_ => at_.stage.ticket
  | _ => none

/-- It is such a `wait`, and has arrived in the generation `k` of a barrier of `n`. -/
def present (n k : Nat) (o : Object) : Nat :=
  match o.waitingTicket with
  | some t => if generation n t = k then 1 else 0
  | none => 0

/-- The arrival of a task that has passed the barrier, or is being dropped. -/
def overTicket : Object → Option Nat
  | wait _ (.reacquiring _ t .dropListener) => some t
  | o => match o.stage with
    | .leader t | .passed t => some t
    | _ => none

/-- The arrival of a pending `wait` whose drop is the action. -/
def withdraws : Choice → Object → Option Nat
  | .drop, wait _ (.waiting _ t) | .drop, wait _ (.reacquiring _ t _) => some t
  | _, _ => none

end Object

/-- The action does not drop a pending `wait` that has arrived in the current generation. -/
def KeepsArrivals (n : Nat) (s : State Barrier Object) : Action Call Choice → Prop
  | .call _ => True
  | .act i c =>
    ∀ o ∈ s.pool[i]?, ∀ t ∈ o.withdraws c, generation n t ≠ currentGeneration n s

instance (n : Nat) (s : State Barrier Object) : ∀ a, Decidable (KeepsArrivals n s a)
  | .call _ => inferInstanceAs (Decidable True)
  | .act i c => inferInstanceAs (Decidable
    (∀ o ∈ s.pool[i]?, ∀ t ∈ Object.withdraws c o, generation n t ≠ currentGeneration n s))

variable {n : Nat} {p : Platform} {i : Nat} {c : Choice} {s s' : Barrier} {o o' : Object}
  {new : List Object}

/-! ## One step -/

theorem present_of_none {k : Nat} (h : o.waitingTicket = none) : o.present n k = 0 := by
  simp only [Object.present, h]

theorem present_of_over {k t : Nat} (h : o.waitingTicket = some t) (hOver : generation n t ≠ k) :
    o.present n k = 0 := by
  simp only [Object.present, h, if_neg hOver]

theorem ticket_of_waiting {t : Nat} (h : o.waitingTicket = some t) : o.ticket = some t := by
  cases o with
  | wait blocking at_ =>
    cases at_ with
    | reacquiring g u f => cases f <;> first | exact h | cases h
    | _ => exact h
  | _ => cases h

theorem ticket_of_over {t : Nat} (h : o.overTicket = some t) : o.ticket = some t := by
  have hStage (hOver : (match o.stage with
      | .leader u | .passed u => some u
      | _ => none) = some t) : o.ticket = some t := by
    unfold Object.ticket
    cases hx : o.stage <;> rw [hx] at hOver <;> first | exact hOver | cases hOver
  cases o with
  | wait blocking at_ =>
    cases at_ with
    | reacquiring g u f => cases f <;> first | exact h | cases h
    | _ => exact hStage h
  | _ => exact hStage h

/-- A lock operation is dropped by a `drop`, or because it is being dropped. -/
theorem lock_dropped {f : Lock} {d : LockChoice} {m m' : Mutex} {r : LockOutcome}
    (h : f.step p i d m = some (m', r)) (hr : r = .dropped ∨ r = .running .dropListener) :
    d = .drop ∨ f = .dropListener := by
  cases Lock.step_acts h with
  | cancel | cancelListener | cancelStarved => exact .inl rfl
  | dropListener => exact .inr rfl
  | _ => rcases hr with hr | hr <;> cases hr

theorem waitingTicket_reacquiring (blocking : Bool) (g t : Nat) (f : Lock) :
    (Object.wait blocking (.reacquiring g t f)).waitingTicket =
      if f = .dropListener then none else some t := by
  cases f <;> rfl

theorem overTicket_reacquiring (blocking : Bool) (g t : Nat) (f : Lock) :
    (Object.wait blocking (.reacquiring g t f)).overTicket =
      if f = .dropListener then some t else none := by
  cases f <;> rfl

theorem relock_cases {blocking : Bool} {g t : Nat} {f : Lock}
    (h : step n p i c s (.wait blocking (.reacquiring g t f)) = some (s', o', new)) :
    ∃ d m r, f.step p i d s.mutex = some (m, r) ∧ s' = { s with mutex := m } ∧
      o' = reacquireOutcome blocking g t r ∧ (d = .drop → c = .drop) := by
  obtain ⟨⟨s₁, q⟩, hStep, hEq⟩ := Option.map_eq_some_iff.mp h
  cases hEq
  obtain ⟨⟨s₂, r⟩, hLock, hEq⟩ := Option.map_eq_some_iff.mp hStep
  cases hEq
  cases c with
  | go elapsed wake =>
    have hPoll : ∃ m, f.step p i (.go elapsed) s.mutex = some (m, r) ∧
        s₂ = { s with mutex := m } := Lock.step_within hLock
    obtain ⟨m, hPoll, rfl⟩ := hPoll
    exact ⟨_, m, r, hPoll, rfl, rfl, nofun⟩
  | drop =>
    simp only [lockStep] at hLock
    split at hLock
    · cases hLock
    · have hDrop : ∃ m, f.step p i .drop s.mutex = some (m, r) ∧
          s₂ = { s with mutex := m } := Lock.step_within hLock
      obtain ⟨m, hDrop, rfl⟩ := hDrop
      exact ⟨_, m, r, hDrop, rfl, rfl, fun _ => rfl⟩

theorem of_none_eq_some {P : Nat → Prop} (t : Nat) (h : none = some t) : P t := by cases h

theorem relock_tickets {blocking : Bool} {g t : Nat} {f : Lock}
    (ho : o = .wait blocking (.reacquiring g t f)) (h : step n p i c s o = some (s', o', new)) :
    (o'.waitingTicket = o.waitingTicket ∨ ∃ t, o.waitingTicket = some t ∧
      o'.waitingTicket = none ∧ (o.withdraws c = some t ∨ o.overTicket = some t)) ∧
    ∀ t, o'.overTicket = some t → o.overTicket = some t ∨ o.withdraws c = some t := by
  subst ho
  obtain ⟨d, m, r, hLock, -, rfl, hChoice⟩ := relock_cases h
  rw [waitingTicket_reacquiring, overTicket_reacquiring]
  by_cases hf : f = .dropListener
  · subst hf
    cases d with
    | go elapsed =>
      cases hLock
      exact ⟨.inl rfl, of_none_eq_some⟩
    | drop => cases hLock
  · have hDrop (hr : r = .dropped ∨ r = .running .dropListener) :
        (Object.wait blocking (.reacquiring g t f)).withdraws c = some t := by
      rw [hChoice ((lock_dropped hLock hr).resolve_right hf)]
      rfl
    rw [if_neg hf, if_neg hf]
    cases r with
    | running f' =>
      simp only [reacquireOutcome, waitingTicket_reacquiring, overTicket_reacquiring]
      split_ifs with hf'
      · have hWithdraws := hDrop (.inr (by rw [hf']))
        refine ⟨.inr ⟨t, rfl, rfl, .inl hWithdraws⟩, fun u hu => ?_⟩
        cases hu
        exact .inr hWithdraws
      · exact ⟨.inl rfl, fun _ hu => hu.elim⟩
    | ready listener => exact ⟨.inl rfl, of_none_eq_some⟩
    | dropped => exact ⟨.inr ⟨t, rfl, rfl, .inl (hDrop (.inl rfl))⟩, of_none_eq_some⟩

/-- What an action does to the arrival of its task: it is counted, the task is the last of its
generation, or the task stays, is dropped, or has passed the barrier. -/
theorem step_tickets (h : step n p i c s o = some (s', o', new)) :
    (s' = s.arrive ∧ o.waitingTicket = none ∧ o'.waitingTicket = some (s.arrivals + 1) ∧
      o'.overTicket = none ∧ o'.arriving = 1) ∨
    s' = s.advance ∨
    ((s'.count = s.count ∧ s'.arrivals = s.arrivals) ∧
      (o'.waitingTicket = o.waitingTicket ∨ ∃ t, o.waitingTicket = some t ∧
        o'.waitingTicket = none ∧ (o.withdraws c = some t ∨ o.overTicket = some t)) ∧
      ∀ t, o'.overTicket = some t → o.overTicket = some t ∨ o.withdraws c = some t ∨
        ∃ g, o.stage = .follower g t ∧ o.owns = 1 ∧ (g ≠ s.generationId ∨ n ≤ s.count)) := by
  obtain ⟨blocking, at_, rfl, hActs, rfl⟩ := step_acts h
  cases hActs with
  | arrive => exact .inl ⟨rfl, rfl, rfl, rfl, rfl⟩
  | advance t => exact .inr (.inl rfl)
  | lock f d m r =>
    refine .inr (.inr ⟨⟨rfl, rfl⟩, ?_, ?_⟩)
    · cases r <;> exact .inl rfl
    · cases r <;> exact of_none_eq_some
  | locked | relocked => exact .inr (.inr ⟨by simp, .inl rfl, fun t ht => .inl ht⟩)
  | leave g t hOver =>
    refine .inr (.inr ⟨⟨rfl, rfl⟩, .inl rfl, fun u hu => ?_⟩)
    cases hu
    exact .inr (.inr ⟨g, rfl, rfl, hOver⟩)
  | notifyLockOps after =>
    rcases after with ⟨g, t⟩ | ⟨_ | _, t⟩
    · exact .inr (.inr ⟨⟨rfl, rfl⟩, .inl rfl, fun u hu => .inl hu⟩)
    all_goals
      exact .inr (.inr ⟨⟨rfl, rfl⟩, .inr ⟨t, rfl, rfl, .inr rfl⟩, fun u hu => .inl hu⟩)
  | cancel g t =>
    have hDrop : c = .drop := by
      cases c with
      | drop => rfl
      | go elapsed wake =>
        simp only [step, stepWait] at h
        split_ifs at h <;> simp at h
    subst hDrop
    exact .inr (.inr ⟨⟨rfl, rfl⟩, .inr ⟨t, rfl, rfl, .inl rfl⟩, of_none_eq_some⟩)
  | relock g t f d m r =>
    obtain ⟨hTicket, hOver⟩ := relock_tickets rfl h
    exact .inr (.inr ⟨⟨rfl, rfl⟩, hTicket, fun u hu => (hOver u hu).imp_right .inl⟩)
  | _ => exact .inr (.inr ⟨⟨rfl, rfl⟩, .inl rfl, fun t ht => .inl ht⟩)

/-! ## The current generation -/

namespace Sound

variable {s s' : State Barrier Object}

/-- The number that the source keeps is that of the current generation. -/
theorem generationId_eq (h : Sound n p s) :
    s.mem.generationId = currentGeneration n s % 2 ^ 64 := h.counts.generation_eq

theorem arrivals_eq (h : Sound n p s) :
    s.mem.arrivals = currentGeneration n s * n + s.mem.count := by
  obtain ⟨hLe, hCount, _⟩ := h.counts
  have hSplit := Nat.div_add_mod' (s.mem.arrivals - census Object.arriving s.pool) n
  unfold currentGeneration
  omega

theorem currentGeneration_eq (hn : 1 ≤ n) (h : Sound n p s) (h' : Sound n p s')
    (hSame : s'.mem.arrivals + s.mem.count = s.mem.arrivals + s'.mem.count) :
    currentGeneration n s' = currentGeneration n s := by
  have hBefore := h.arrivals_eq
  have hAfter := h'.arrivals_eq
  apply Nat.eq_of_mul_eq_mul_right hn
  omega

theorem current_of_arriving (h : Sound n p s) {o : Object} (ho : o ∈ s.pool)
    (hOne : o.arriving = 1) : currentGeneration n s = generation n s.mem.arrivals := by
  rw [currentGeneration, h.one_arriving ho hOne]
  rfl

/-- Where nobody is counted every arrival is one of an earlier generation. -/
theorem not_current_of_empty (hn : 1 ≤ n) (h : Sound n p s) (hEmpty : s.mem.count = 0) {o : Object}
    (ho : o ∈ s.pool) {t : Nat} (hTicket : o.ticket = some t) :
    generation n t ≠ currentGeneration n s := by
  intro hEq
  have hPlaced := h.placed o ho
  have hLe := hPlaced.ticket_le hTicket
  have hLow := (generation_bounds hn (hPlaced.ticket_pos hTicket)).1
  have hArrivals := h.arrivals_eq
  rw [hEq] at hLow
  omega

/-- A follower that leaves with its result was one of an earlier generation. -/
theorem not_current_of_leave (hn : 1 ≤ n) (h : Sound n p s) {o : Object} (ho : o ∈ s.pool)
    {g t : Nat} (hStage : o.stage = .follower g t) (hOwns : o.owns = 1)
    (hOver : g ≠ s.mem.generationId ∨ n ≤ s.mem.count) :
    generation n t ≠ currentGeneration n s := by
  have hPlaced := h.placed o ho
  rw [hStage] at hPlaced
  obtain ⟨_, _, _, rfl⟩ := hPlaced
  rcases hOver with hOther | hFull
  · intro hEq
    rw [h.generationId_eq, hEq] at hOther
    exact hOther rfl
  · have hCount := (h.numbers_of_owner ho hOwns hStage).1
    have hMod := Nat.mod_lt s.mem.arrivals hn
    omega

end Sound

/-! ## Every run -/

structure Withdrawn (n : Nat) (s : State Barrier Object) : Prop where
  outdated : ∀ o ∈ s.pool, ∀ t, o.overTicket = some t → generation n t ≠ currentGeneration n s
  counted : census (Object.present n (currentGeneration n s)) s.pool = s.mem.count

namespace Withdrawn

variable {s s' : State Barrier Object}

/-- The generation is over for everybody who has arrived. -/
theorem of_empty (hn : 1 ≤ n) (hSound : Sound n p s) (hEmpty : s.mem.count = 0) :
    Withdrawn n s := by
  have hNone (o : Object) (ho : o ∈ s.pool) (t : Nat) (ht : o.ticket = some t) :=
    hSound.not_current_of_empty hn hEmpty ho ht
  constructor
  · exact fun o ho t ht => hNone o ho t (ticket_of_over ht)
  · rw [hEmpty]
    apply census_eq_zero
    intro o ho
    cases hTicket : o.waitingTicket with
    | none => exact present_of_none hTicket
    | some t => exact present_of_over hTicket (hNone o ho t (ticket_of_waiting hTicket))

section

variable {o o' : Object} {others pool : List Object} {mem : Barrier}

theorem outdated_of_others (h : Withdrawn n s) (hOthers : ∀ q ∈ pool, q ∈ s.pool ∨ q = o')
    (hGen : currentGeneration n ⟨mem, pool⟩ = currentGeneration n s)
    (hOver : ∀ t, o'.overTicket = some t → generation n t ≠ currentGeneration n s) :
    ∀ q ∈ pool, ∀ t, q.overTicket = some t → generation n t ≠ currentGeneration n ⟨mem, pool⟩ := by
  intro q hq t ht
  rw [hGen]
  rcases hOthers q hq with hOld | rfl
  · exact h.outdated q hOld t ht
  · exact hOver t ht

theorem create (h : Withdrawn n s) (k : Call)
    (hGen : currentGeneration n ⟨s.mem, s.pool ++ [(machine n p).create s.mem k]⟩ =
      currentGeneration n s) :
    Withdrawn n ⟨s.mem, s.pool ++ [(machine n p).create s.mem k]⟩ := by
  obtain ⟨blocking⟩ := k
  constructor
  · exact h.outdated_of_others (fun q hq => (List.mem_append.mp hq).imp_right List.mem_singleton.mp)
      hGen of_none_eq_some
  · rw [hGen, census_append, census_cons, present_of_none rfl]
    exact h.counted

theorem arrive (h : Withdrawn n s) (hPool : ∀ f, census f s.pool = f o + census f others)
    (hPool' : ∀ f, census f pool = f o' + census f others)
    (hOthers : ∀ q ∈ pool, q ∈ s.pool ∨ q = o')
    (hGen : currentGeneration n ⟨s.mem.arrive, pool⟩ = currentGeneration n s)
    (hOutside : o.waitingTicket = none) {t : Nat} (hArrives : o'.waitingTicket = some t)
    (hCurrent : generation n t = currentGeneration n s) (hNew : o'.overTicket = none) :
    Withdrawn n ⟨s.mem.arrive, pool⟩ := by
  constructor
  · exact h.outdated_of_others hOthers hGen (by simp [hNew])
  · have hCounted := h.counted
    have hMine : o'.present n (currentGeneration n s) = 1 := by
      simp only [Object.present, hArrives, if_pos hCurrent]
    rw [hPool, present_of_none hOutside] at hCounted
    rw [hGen, hPool', hMine, arrive_count]
    omega

theorem stay (h : Withdrawn n s) (hPool : ∀ f, census f s.pool = f o + census f others)
    (hPool' : ∀ f, census f pool = f o' + census f others)
    (hOthers : ∀ q ∈ pool, q ∈ s.pool ∨ q = o') (hCount : mem.count = s.mem.count)
    (hGen : currentGeneration n ⟨mem, pool⟩ = currentGeneration n s)
    (hTicket : o'.waitingTicket = o.waitingTicket ∨ ∃ t, o.waitingTicket = some t ∧
      o'.waitingTicket = none ∧ generation n t ≠ currentGeneration n s)
    (hOver : ∀ t, o'.overTicket = some t → generation n t ≠ currentGeneration n s) :
    Withdrawn n ⟨mem, pool⟩ := by
  constructor
  · exact h.outdated_of_others hOthers hGen hOver
  · have hCounted := h.counted
    have hMine : o'.present n (currentGeneration n s) = o.present n (currentGeneration n s) := by
      rcases hTicket with hTicket | ⟨t, hBefore, hAfter, hGone⟩
      · simp only [Object.present, hTicket]
      · rw [present_of_none hAfter, present_of_over hBefore hGone]
    rw [hPool] at hCounted
    rw [hGen, hPool', hMine, hCount]
    omega

end

theorem step (hn : 1 ≤ n) (h : Withdrawn n s) (hSound : Sound n p s) (hSound' : Sound n p s')
    {a : Action Call Choice} (hKeeps : KeepsArrivals n s a)
    (hNext : (machine n p).next s a = some s') : Withdrawn n s' := by
  rcases Machine.next_others hNext with ⟨k, _, rfl⟩ |
    ⟨i, c, o, mem, o', new, others, rfl, hGet, hAct, rfl, hMem, hPool, hPool'⟩
  · exact h.create k (hSound.currentGeneration_eq hn hSound' rfl)
  · obtain ⟨_, _, _, _, rfl⟩ := step_acts hAct
    have ho := List.mem_of_getElem? hGet
    have hWithdraws (t : Nat) (ht : o.withdraws c = some t) :
        generation n t ≠ currentGeneration n s := hKeeps o hGet t ht
    have hOthers (q : Object) (hq : q ∈ s.pool.set i o' ++ []) : q ∈ s.pool ∨ q = o' :=
      (mem_of_act hq).imp_right fun hNew => hNew.resolve_right List.not_mem_nil
    rcases step_tickets hAct with ⟨rfl, hOutside, hArrives, hNew, hOne⟩ | rfl |
      ⟨⟨hCount, hArrivals⟩, hTicket, hOver⟩
    · have hGen : currentGeneration n ⟨s.mem.arrive, s.pool.set i o' ++ []⟩ =
          currentGeneration n s := by
        apply hSound.currentGeneration_eq hn hSound'
        simp only [arrive_arrivals, arrive_count]
        omega
      have hCurrent := (hSound'.current_of_arriving hMem hOne).symm.trans hGen
      exact h.arrive hPool hPool' hOthers hGen hOutside hArrives hCurrent hNew
    · exact of_empty hn hSound' (advance_count s.mem)
    · have hGen : currentGeneration n ⟨mem, s.pool.set i o' ++ []⟩ = currentGeneration n s := by
        apply hSound.currentGeneration_eq hn hSound'
        rw [hCount, hArrivals]
      refine h.stay hPool hPool' hOthers hCount hGen ?_ fun t ht => ?_
      · refine hTicket.imp_right fun ⟨t, hBefore, hAfter, hGone⟩ => ⟨t, hBefore, hAfter, ?_⟩
        exact hGone.elim (hWithdraws t) (h.outdated o ho t)
      · rcases hOver t ht with hBefore | hDrop | ⟨g, hStage, hOwns, hEnded⟩
        · exact h.outdated o ho t hBefore
        · exact hWithdraws t hDrop
        · exact hSound.not_current_of_leave hn ho hStage hOwns hEnded

end Withdrawn

theorem withdrawn_of_run (hn : 1 ≤ n) {acts : List (Action Call Choice)}
    {s : State Barrier Object} (h : (machine n p).run initial acts = some s)
    (hAlive : Alive Object.Aborted s)
    (hKeeps : (machine n p).Along (KeepsArrivals n) initial acts) : Withdrawn n s := by
  suffices hGuarded : Alive Object.Aborted s → Withdrawn n s from hGuarded hAlive
  apply Machine.invariant_along (P := fun t => Alive Object.Aborted t → Withdrawn n t) h hKeeps
  · exact fun hNew => Withdrawn.of_empty hn (sound_of_reaches (p := p) hn .refl hNew) rfl
  · intro t a t' hPast hKept hNext ht hAlive'
    have hBefore := Machine.alive_of_step aborted_stuck ⟨a, hNext⟩ hAlive'
    exact (ht hBefore).step hn (sound_of_reaches hn hPast hBefore)
      (sound_of_reaches hn (hPast.tail ⟨a, hNext⟩) hAlive') hKept hNext

theorem Sound.count_of_last (hn : 1 ≤ n) {s : State Barrier Object} (h : Sound n p s) {o : Object}
    (ho : o ∈ s.pool) {t : Nat} (hStage : o.stage = .last t) : s.mem.count = n := by
  have hOne : o.arriving = 1 := by
    rw [Object.arriving, hStage]
    rfl
  have hPlaced := h.placed o ho
  rw [hStage] at hPlaced
  have hCounts := h.counts
  rw [h.one_arriving ho hOne] at hCounts
  have hFull := (hCounts.lead_iff hn).mpr (hPlaced.1 ▸ hPlaced.2.2)
  obtain ⟨a, _, hCount, _⟩ := hCounts.counted
  have hMod := Nat.mod_lt a hn
  omega

/-- As long as no pending `wait` is dropped in the generation in which it has arrived, `count`
tells the tasks that wait in the current generation, and a leader that releases its own is one of
`n` tasks that have arrived in it and have not been dropped. -/
theorem count_of_undropped (hn : 1 ≤ n) {acts : List (Action Call Choice)}
    {s : State Barrier Object} (h : (machine n p).run initial acts = some s)
    (hAlive : Alive Object.Aborted s)
    (hKeeps : (machine n p).Along (KeepsArrivals n) initial acts) :
    (s.mem.mutex.state % 2 = 0 →
      s.mem.count = census (Object.present n (currentGeneration n s)) s.pool) ∧
    ∀ (i t : Nat) (blocking : Bool), s.pool[i]? = some (.wait blocking (.advance t)) →
      census (Object.present n (generation n t)) s.pool = n := by
  have hCounted := (withdrawn_of_run hn h hAlive hKeeps).counted
  refine ⟨fun _ => hCounted.symm, fun i t blocking hGet => ?_⟩
  have hSound := sound_of_reaches hn (Machine.reaches_of_run _ acts initial s h) hAlive
  have hMem := List.mem_of_getElem? hGet
  have hPlaced := hSound.placed _ hMem
  rw [hPlaced.1, ← hSound.current_of_arriving hMem rfl, hCounted]
  exact hSound.count_of_last hn hMem rfl

def dropLater : List (Action Call Choice) :=
  leaderLeaves ++ [.call .wait] ++ List.replicate 7 (.act 2 (.go false false)) ++ [.act 0 .drop]

def droppedLater : State Barrier Object :=
  ⟨⟨⟨0, Event.new⟩, 1, 1, ⟨[⟨2, some .single⟩]⟩, 3⟩,
    [.gone, .ready true 2, .wait false (.waiting 1 3)]⟩

theorem count_of_undropped_dropLater :
    droppedLater.mem.count =
      census (Object.present 2 (currentGeneration 2 droppedLater)) droppedLater.pool :=
  (count_of_undropped (n := 2) (p := platform64) (by decide)
    (show (machine 2 platform64).run initial dropLater = some droppedLater by decide +kernel)
    (by simp [Alive, droppedLater, Object.Aborted, WaitPoint.Aborted])
    (by decide +kernel)).1 rfl

/-- Of two tasks the first arrives, waits and is dropped; the second is then a leader alone. -/
def dropThenLead : List (Action Call Choice) :=
  [.call .wait] ++ List.replicate 7 (.act 0 (.go false false)) ++ [.act 0 .drop, .call .wait] ++
    List.replicate 4 (.act 1 (.go false false))

theorem dropped_wait_counts :
    (∃ s, (machine 2 platform64).run initial (dropThenLead.take 9) = some s ∧
      s.mem.mutex.state % 2 = 0 ∧
      s.mem.count ≠ census (Object.present 2 (currentGeneration 2 s)) s.pool) ∧
    ∃ s, (machine 2 platform64).run initial dropThenLead = some s ∧
      s.pool[1]? = some (.wait false (.advance 2)) ∧
      census (Object.present 2 (generation 2 2)) s.pool ≠ 2 :=
  ⟨⟨⟨⟨⟨0, Event.new⟩, 1, 0, Event.new, 1⟩, [.gone]⟩, by decide +kernel, rfl, by decide⟩,
    ⟨⟨⟨⟨1, Event.new⟩, 2, 0, Event.new, 2⟩, [.gone, .wait false (.advance 2)]⟩,
      by decide +kernel, rfl, by decide⟩⟩

end AsyncLock.Barrier
