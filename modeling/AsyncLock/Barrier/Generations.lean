import AsyncLock.Barrier.Arrivals

/-! # One leader for every `n` arrivals

While the mutex is free `count` is the number of arrivals modulo `n` and `generation_id` that of
the completed generations. A follower leaves when it finds, as the owner of the mutex, another
generation than its own, and the last arrival of a generation never waits.
-/
namespace AsyncLock.Barrier
set_option autoImplicit false

open Interleaving

variable {n : Nat} {p : Platform}

/-- The numbers of a barrier with an arrival under way, or none. -/
structure Counts (n : Nat) (s : Barrier) (arriving : Nat) : Prop where
  arriving_le : arriving ≤ s.arrivals
  count_eq : s.count = (s.arrivals - arriving) % n + arriving
  generation_eq : s.generationId = (s.arrivals - arriving) / n % 2 ^ 64

/-! ## Arithmetic of generations -/

theorem mod_of_succ_lt {n a : Nat} (h : a % n + 1 < n) : (a + 1) % n = a % n + 1 := by
  have hOne : 1 % n = 1 := Nat.mod_eq_of_lt (by omega)
  rw [Nat.add_mod, hOne, Nat.mod_eq_of_lt h]

theorem dvd_succ_iff {n a : Nat} (hn : 1 ≤ n) : n ∣ a + 1 ↔ n ≤ a % n + 1 := by
  obtain ⟨m, rfl⟩ := Nat.exists_eq_add_of_le' hn
  have hLt := Nat.mod_lt a hn
  rw [Nat.dvd_iff_mod_eq_zero, Nat.succ_mod_succ_eq_zero_iff]
  omega

/-! ## One step -/

section Step

variable {s s' : Barrier} {owns others : Nat} {x x' : Stage}

theorem Counts.congr (h : Counts n s others) (hCount : s'.count = s.count)
    (hGen : s'.generationId = s.generationId) (hArrivals : s'.arrivals = s.arrivals) :
    Counts n s' others := by
  obtain ⟨hLe, hCountEq, hGenEq⟩ := h
  exact ⟨by omega, by rw [hCount, hArrivals, hCountEq], by rw [hGen, hArrivals, hGenEq]⟩

theorem Counts.counted (h : Counts n s 1) :
    ∃ a, s.arrivals = a + 1 ∧ s.count = a % n + 1 ∧ s.generationId = a / n % 2 ^ 64 := by
  obtain ⟨hLe, hCount, hGen⟩ := h
  exact ⟨s.arrivals - 1, by omega, hCount, hGen⟩

theorem Counts.arrive (h : Counts n s 0) : Counts n s.arrive 1 := by
  obtain ⟨_, hCount, hGen⟩ := h
  exact ⟨by simp, by simpa using hCount, by simpa using hGen⟩

theorem Counts.follow (hn : 1 ≤ n) (h : Counts n s 1) (hCount : s.count < n) :
    Counts n s 0 ∧ ¬ n ∣ s.arrivals := by
  obtain ⟨a, hArrivals, hCountEq, hGen⟩ := h.counted
  have hMod := mod_of_succ_lt (show a % n + 1 < n by omega)
  have hNot : ¬ n ∣ a + 1 := by
    rw [dvd_succ_iff hn]
    omega
  refine ⟨⟨Nat.zero_le _, ?_, ?_⟩, by rwa [hArrivals]⟩
  · rw [hCountEq, hArrivals, Nat.sub_zero, hMod, Nat.add_zero]
  · rw [hGen, hArrivals, Nat.sub_zero, Nat.succ_div_of_not_dvd hNot]

/-- The comparison sends on exactly the arrivals that `n` divides. -/
theorem Counts.lead_iff (hn : 1 ≤ n) (h : Counts n s 1) : n ≤ s.count ↔ n ∣ s.arrivals := by
  obtain ⟨a, hArrivals, hCountEq, _⟩ := h.counted
  rw [hArrivals, dvd_succ_iff hn, hCountEq]

theorem Counts.advance (h : Counts n s 1) (hDvd : n ∣ s.arrivals) : Counts n s.advance 0 := by
  obtain ⟨a, hArrivals, _, hGen⟩ := h.counted
  refine ⟨Nat.zero_le _, ?_, ?_⟩
  · simpa using (Nat.mod_eq_zero_of_dvd hDvd).symm
  · rw [hArrivals] at hDvd
    rw [advance_generationId, advance_arrivals, Nat.sub_zero, hArrivals,
      Nat.succ_div_of_dvd hDvd, hGen, wrappingAdd, Nat.mod_add_mod]

theorem Counts.later (hn : 1 ≤ n) (h : Counts n s 0) {t : Nat} (ht : 1 ≤ t)
    (hLe : t ≤ s.arrivals)
    (hOver : generation n t % 2 ^ 64 ≠ s.generationId ∨ n ≤ s.count) :
    (generation n t + 1) * n ≤ s.arrivals := by
  obtain ⟨_, hCount, hGen⟩ := h
  have hLt := Nat.mod_lt s.arrivals hn
  rcases hOver with hOther | hFull
  · have hNe : generation n t ≠ s.arrivals / n := by
      intro hEq
      rw [hEq] at hOther
      exact hOther hGen.symm
    have hMono : generation n t ≤ s.arrivals / n := Nat.div_le_div_right (by omega)
    calc (generation n t + 1) * n ≤ s.arrivals / n * n := Nat.mul_le_mul_right n (by omega)
      _ ≤ s.arrivals := Nat.div_mul_le_self _ _
  · rw [Nat.sub_zero, Nat.add_zero] at hCount
    omega

theorem Moves.counts (hn : 1 ≤ n) (h : Moves n s s' owns x x')
    (hFree : owns = 1 → others = 0) (hOne : x.arriving + others ≤ 1)
    (hx : x.Placed n s.arrivals) (hs : Counts n s (x.arriving + others)) :
    Counts n s' (x'.arriving + others) := by
  cases h with
  | stay _ hCount hGen hArrivals | cancel _ _ hCount hGen hArrivals =>
    exact hs.congr hCount hGen hArrivals
  | arrive hOwns hNumbers =>
    subst hNumbers
    obtain rfl := hFree hOwns
    exact Counts.arrive hs
  | follow localGen ticket hNumbers hCount =>
    subst hNumbers
    obtain rfl : others = 0 := Nat.le_zero.mp (Nat.le_of_add_le_add_left hOne)
    exact (Counts.follow hn hs hCount).1
  | advance ticket hNumbers =>
    subst hNumbers
    obtain rfl : others = 0 := Nat.le_zero.mp (Nat.le_of_add_le_add_left hOne)
    exact Counts.advance hs (hx.1 ▸ hx.2.2)
  | lead _ _ hNumbers | leave _ _ _ hNumbers =>
    subst hNumbers
    exact hs

theorem Moves.placed (hn : 1 ≤ n) (h : Moves n s s' owns x x')
    (hFree : owns = 1 → others = 0) (hOne : x.arriving + others ≤ 1)
    (hx : x.Placed n s.arrivals) (hs : Counts n s (x.arriving + others)) :
    x'.Placed n s'.arrivals := by
  cases h with
  | stay _ _ _ hArrivals => rwa [hArrivals]
  | arrive hOwns hNumbers =>
    subst hNumbers
    obtain rfl := hFree hOwns
    exact ⟨rfl, Nat.le_add_left 1 _, hs.generation_eq⟩
  | follow localGen ticket hNumbers hCount =>
    subst hNumbers
    obtain rfl : others = 0 := Nat.le_zero.mp (Nat.le_of_add_le_add_left hOne)
    obtain ⟨hEq, hPos, hGen⟩ := hx
    exact ⟨hPos, hEq.le, hEq ▸ (Counts.follow hn hs hCount).2, hGen⟩
  | lead localGen ticket hNumbers hCount =>
    subst hNumbers
    obtain rfl : others = 0 := Nat.le_zero.mp (Nat.le_of_add_le_add_left hOne)
    obtain ⟨hEq, hPos, _⟩ := hx
    exact ⟨hEq, hPos, hEq ▸ (Counts.lead_iff hn hs).mp hCount⟩
  | advance ticket hNumbers =>
    subst hNumbers
    exact ⟨hx.2.1, hx.1.le, hx.2.2⟩
  | leave localGen ticket hOwns hNumbers hOver =>
    subst hNumbers
    obtain rfl := hFree hOwns
    obtain ⟨hPos, hLe, hNot, rfl⟩ := hx
    exact ⟨hPos, hLe, hNot, Counts.later hn hs hPos hLe hOver⟩
  | cancel => trivial

/-- A task gets its number when it arrives, and only a follower can give it up. -/
theorem Moves.ticket (h : Moves n s s' owns x x') :
    (s'.arrivals = s.arrivals ∧ x'.ticket = x.ticket) ∨
    (s'.arrivals = s.arrivals + 1 ∧ owns = 1 ∧ x = .outside ∧
      x'.ticket = some (s.arrivals + 1)) ∨
    (s'.arrivals = s.arrivals ∧ x'.ticket = none ∧ ∃ g t, x = .follower g t) := by
  cases h with
  | stay _ _ _ hArrivals => exact .inl ⟨hArrivals, rfl⟩
  | arrive hOwns hNumbers =>
    subst hNumbers
    exact .inr (.inl ⟨rfl, hOwns, rfl, rfl⟩)
  | cancel g t _ _ hArrivals => exact .inr (.inr ⟨hArrivals, rfl, g, t, rfl⟩)
  | follow _ _ hNumbers | lead _ _ hNumbers | advance _ hNumbers | leave _ _ _ hNumbers =>
    subst hNumbers
    exact .inl ⟨rfl, rfl⟩

end Step

/-! ## Every run -/

structure Sound (n : Nat) (p : Platform) (s : State Barrier Object) : Prop where
  mutex : Accounts p s.mem.mutex.state (census Object.owns s.pool) (census Object.starved s.pool)
  counts : Counts n s.mem (census Object.arriving s.pool)
  placed : ∀ o ∈ s.pool, o.stage.Placed n s.mem.arrivals
  bearer_unique : ∀ t, census (Object.bears t) s.pool ≤ 1
  bearer_exists : ∀ t, 1 ≤ t → t ≤ s.mem.arrivals → n ∣ t → 0 < census (Object.bears t) s.pool

theorem Object.bears_of_ticket {o : Object} {t : Nat} (h : o.ticket = some t) (u : Nat) :
    o.bears u = if t = u then 1 else 0 := by
  simp [bears, h]

theorem Object.bears_of_none {o : Object} (h : o.ticket = none) (u : Nat) :
    o.bears u = 0 := by
  simp [bears, h]

theorem Object.bears_pos_iff {o : Object} {t : Nat} :
    0 < o.bears t ↔ o.ticket = some t := by
  unfold bears
  split <;> simp [*]

/-- What an action means for the arrival with a number: it is taken by the task that arrives, it
stays with the task it has, or the task gives up, as only a follower does. -/
theorem step_bears {i : Nat} {c : Choice} {s s' : Barrier} {o o' : Object} {new : List Object}
    (h : step n p i c s o = some (s', o', new)) (ho : o.stage.Placed n s.arrivals) (t : Nat) :
    (t = s.arrivals + 1 ∧ o.bears t = 0 ∧ o'.bears t = 1) ∨
    (o'.bears t = o.bears t ∧ (t ≤ s'.arrivals → t ≤ s.arrivals)) ∨
    (o'.bears t = 0 ∧ ¬ n ∣ t) := by
  have hTicket : (s'.arrivals = s.arrivals ∧ o'.ticket = o.ticket) ∨
      (s'.arrivals = s.arrivals + 1 ∧ o.owns = 1 ∧ o.stage = .outside ∧
        o'.ticket = some (s.arrivals + 1)) ∨
      (s'.arrivals = s.arrivals ∧ o'.ticket = none ∧ ∃ g u, o.stage = .follower g u) :=
    (step_moves h).ticket
  rcases hTicket with ⟨hSame, hEq⟩ | ⟨hNext, _, hOutside, hEq⟩ | ⟨hSame, hEq, g, u, hFollower⟩
  · exact .inr (.inl ⟨by rw [Object.bears, hEq, Object.bears], hSame ▸ id⟩)
  · have hBefore : o.bears t = 0 := Object.bears_of_none (by rw [Object.ticket, hOutside]; rfl) t
    rw [hBefore, Object.bears_of_ticket hEq]
    split_ifs with hNew
    · exact .inl ⟨hNew.symm, rfl, rfl⟩
    · exact .inr (.inl ⟨rfl, by omega⟩)
  · have hOld := Object.bears_of_ticket (o := o) (by rw [Object.ticket, hFollower]; rfl) t
    rw [Object.bears_of_none hEq, hOld]
    split_ifs with hMine
    · rw [hFollower] at ho
      exact .inr (.inr ⟨rfl, hMine ▸ ho.2.2.1⟩)
    · exact .inr (.inl ⟨rfl, hSame ▸ id⟩)

namespace Sound

variable {s s' : State Barrier Object}

theorem arriving_le_owns (s : State Barrier Object) :
    census Object.arriving s.pool ≤ census Object.owns s.pool :=
  census_le Object.arriving_le_owns _

theorem no_bearer (h : Sound n p s) {t : Nat} (ht : s.mem.arrivals < t) :
    census (Object.bears t) s.pool = 0 := by
  by_contra hPos
  obtain ⟨o, ho, hBears⟩ := (census_pos_iff _ _).mp (Nat.pos_of_ne_zero hPos)
  have := (h.placed o ho).ticket_le (Object.bears_pos_iff.mp hBears)
  omega

theorem create (h : Sound n p s) (k : Call) :
    Sound n p ⟨s.mem, s.pool ++ [(machine n p).create s.mem k]⟩ := by
  cases k with
  | waitAs blocking =>
    refine ⟨?_, ?_, ?_, ?_, ?_⟩
    · simpa [machine, Barrier.create, Object.owns, Object.starved, WaitPoint.owns,
        WaitPoint.starved, Lock.owns, Lock.starved] using h.mutex
    · simpa [machine, Barrier.create, Object.arriving, Object.stage, WaitPoint.stage,
        Stage.arriving] using h.counts
    · intro o ho
      rcases List.mem_append.mp ho with ho | ho
      · exact h.placed o ho
      · rw [List.mem_singleton.mp ho]
        trivial
    · intro t
      rw [census_append, census_cons, Object.bears_of_none rfl]
      exact h.bearer_unique t
    · intro t ht hLe hDvd
      rw [census_append]
      exact Nat.lt_add_right _ (h.bearer_exists t ht hLe hDvd)

theorem step (hn : 1 ≤ n) (h : Sound n p s) (hStep : (machine n p).Step s s')
    (hAlive : Alive Object.Aborted s') : Sound n p s' := by
  rcases Machine.step_others hStep with ⟨k, rfl⟩ |
    ⟨i, c, o, mem, o', new, others, hGet, hAct, rfl, hMem, hPool, hPool'⟩
  · exact h.create k
  · have ho := h.placed o (List.mem_of_getElem? hGet)
    have hMoves := step_moves hAct
    obtain ⟨_, _, _, _, rfl⟩ := step_acts hAct
    have hMutex := h.mutex
    have hCounts := h.counts
    have hOwners := hMutex.owners_le
    have hArriving : census Object.arriving others ≤ census Object.owns others :=
      census_le Object.arriving_le_owns _
    have hSelf := o.arriving_le_owns
    rw [hPool] at hCounts hOwners
    rw [hPool, hPool] at hMutex
    have hFree (hOwns : o.owns = 1) : census Object.arriving others = 0 := by omega
    have hOne : o.arriving + census Object.arriving others ≤ 1 := by omega
    refine ⟨?_, ?_, ?_, ?_, ?_⟩
    · rw [hPool', hPool', census_nil, census_nil]
      exact step_accounts hAct (hAlive o' hMem) hMutex
    · rw [hPool', census_nil]
      exact hMoves.counts hn hFree hOne ho hCounts
    · intro q hq
      rcases mem_of_act hq with hq | rfl | hNew
      · rcases hMoves.ticket with ⟨hSame, _⟩ | ⟨hNext, hOwns, hOutside, _⟩ | ⟨hSame, _⟩
        · exact (h.placed q hq).mono hSame.ge (.inr hSame)
        · have hNone : census Object.arriving s.pool = 0 := by
            rw [hPool, hFree hOwns, Object.arriving, hOutside]
            rfl
          have hOver : q.arriving = 0 := Nat.le_zero.mp (hNone ▸ le_census Object.arriving hq)
          exact (h.placed q hq).mono ((Nat.le_succ _).trans hNext.ge) (.inl hOver)
        · exact (h.placed q hq).mono hSame.ge (.inr hSame)
      · exact hMoves.placed hn hFree hOne ho hCounts
      · cases hNew
    · intro t
      have hOld := h.bearer_unique t
      rw [hPool] at hOld
      rw [hPool', census_nil]
      rcases step_bears hAct ho t with ⟨rfl, hBefore, hAfter⟩ | ⟨hSame, _⟩ | ⟨hAfter, _⟩
      · have hNone := h.no_bearer (Nat.lt_add_one s.mem.arrivals)
        rw [hPool] at hNone
        omega
      · rwa [hSame]
      · omega
    · intro t ht hLe hDvd
      rw [hPool', census_nil]
      rcases step_bears hAct ho t with ⟨_, _, hAfter⟩ | ⟨hSame, hOld⟩ | ⟨_, hNot⟩
      · omega
      · rw [hSame]
        have hExists := h.bearer_exists t ht (hOld hLe) hDvd
        rwa [hPool] at hExists
      · exact absurd hDvd hNot

end Sound

theorem aborted_stuck (i : Nat) (c : Choice) (s : Barrier) (o : Object) (h : o.Aborted) :
    (machine n p).step i c s o = none := by
  have hLock (blocking : Bool) (f : Lock) (hf : f.Aborted) :
      lockStep p i c s blocking f = none := by
    cases c <;> simp [lockStep, Lock.step_aborted hf]
  cases o with
  | wait blocking at_ =>
    cases at_ with
    | lock f | reacquiring _ _ f => simp [machine, Barrier.step, stepWait, hLock blocking f h]
    | _ => cases h
  | _ => cases h

theorem sound_of_reaches (hn : 1 ≤ n) {s : State Barrier Object}
    (h : (machine n p).Reaches initial s) (hAlive : Alive Object.Aborted s) : Sound n p s := by
  apply Machine.invariant_alive (P := Sound n p) aborted_stuck h hAlive
  · exact ⟨Accounts.new p, ⟨Nat.le_refl 0, by simp [initial, new], by simp [initial, new]⟩, nofun,
      fun _ => Nat.zero_le _, fun t ht hLe => absurd (ht.trans hLe) (by decide)⟩
  · intro s s' _ _ hStep hAlive' hs
    exact hs.step hn hStep hAlive'

/-! ## The leader never waits -/

def Object.remaining : Object → Nat
  | wait _ (.compare _ _) => 5
  | wait _ (.advance _) => 4
  | wait _ (.notify _) => 3
  | wait _ (.unlock _) => 2
  | wait _ (.notifyLockOps _) => 1
  | _ => 0

variable {s : State Barrier Object}

theorem Sound.one_arriving (h : Sound n p s) {o : Object} (ho : o ∈ s.pool)
    (hOne : o.arriving = 1) : census Object.arriving s.pool = 1 := by
  have := le_census Object.arriving ho
  have := h.mutex.owners_le
  have := Sound.arriving_le_owns s
  omega

theorem Sound.full (hn : 1 ≤ n) (h : Sound n p s) {o : Object} {g t : Nat} (ho : o ∈ s.pool)
    (hStage : o.stage = .counted g t) (hDvd : n ∣ t) : n ≤ s.mem.count := by
  have hOne : o.arriving = 1 := by
    rw [Object.arriving, hStage]
    rfl
  have hPlaced := h.placed o ho
  rw [hStage] at hPlaced
  have hCounts := h.counts
  rw [h.one_arriving ho hOne] at hCounts
  exact (hCounts.lead_iff hn).mpr (hPlaced.1 ▸ hDvd)

/-- The last arrival of a generation has its result, or its next action is open to it. -/
theorem leader_step (hn : 1 ≤ n) (h : Sound n p s) {i t : Nat} {o : Object} (c : Choice)
    (hGet : s.pool[i]? = some o) (hTicket : o.ticket = some t) (hDvd : n ∣ t) :
    o = .ready true t ∨ ∃ mem o', (machine n p).step i c s.mem o = some (mem, o', []) ∧
      o'.ticket = some t ∧ o'.remaining + 1 = o.remaining ∧ ¬ o'.Aborted := by
  have ho := List.mem_of_getElem? hGet
  have hStays (u : Nat) (hStage : (∃ g, o.stage = .follower g u) ∨ o.stage = .passed u) :
      False := by
    have hPlaced := h.placed o ho
    unfold Object.ticket at hTicket
    rcases hStage with ⟨g, hStage⟩ | hStage <;>
    · rw [hStage] at hTicket hPlaced
      cases hTicket
      exact hPlaced.2.2.1 hDvd
  cases o with
  | wait blocking at_ =>
    cases at_ with
    | lock | locked | arrive => cases hTicket
    | compare g u =>
      cases hTicket
      have hFull := h.full hn ho rfl hDvd
      have hStep : stepWait n p i c s.mem blocking (.compare g t) =
          some (s.mem, .wait blocking (.advance t)) := if_neg (by omega)
      exact .inr ⟨s.mem, .wait blocking (.advance t), by simp [machine, step, hStep], rfl, rfl, id⟩
    | advance u =>
      cases hTicket
      exact .inr ⟨_, _, rfl, rfl, rfl, id⟩
    | notify u =>
      cases hTicket
      exact .inr ⟨_, _, rfl, rfl, rfl, id⟩
    | unlock after =>
      rcases after with ⟨g, u⟩ | ⟨_ | _, u⟩
      · exact (hStays u (.inl ⟨g, rfl⟩)).elim
      · exact (hStays u (.inr rfl)).elim
      · cases hTicket
        exact .inr ⟨_, _, rfl, rfl, rfl, id⟩
    | notifyLockOps after =>
      rcases after with ⟨g, u⟩ | ⟨_ | _, u⟩
      · exact (hStays u (.inl ⟨g, rfl⟩)).elim
      · exact (hStays u (.inr rfl)).elim
      · cases hTicket
        exact .inr ⟨_, _, rfl, rfl, rfl, id⟩
    | listen g u | waiting g u | reacquiring g u | reacquired g u | recheck g u =>
      exact (hStays u (.inl ⟨g, rfl⟩)).elim
  | ready isLeader u =>
    cases isLeader
    · exact (hStays u (.inr rfl)).elim
    · cases hTicket
      exact .inl rfl
  | gone => cases hTicket

/-- It returns by its own next actions, whatever the other tasks are doing. -/
theorem leader_returns (hn : 1 ≤ n) (h : (machine n p).Reaches initial s)
    (hAlive : Alive Object.Aborted s) {i t : Nat} {o : Object} (hGet : s.pool[i]? = some o)
    (hTicket : o.ticket = some t) (hDvd : n ∣ t) :
    ∃ s', (machine n p).run s (List.replicate o.remaining (.act i (.go false false))) = some s' ∧
      s'.pool[i]? = some (.ready true t) := by
  induction hLeft : o.remaining generalizing s o with
  | zero =>
    rcases leader_step hn (sound_of_reaches hn h hAlive) (.go false false) hGet hTicket hDvd with
      rfl | ⟨_, _, _, _, hPos, _⟩
    · exact ⟨s, rfl, hGet⟩
    · omega
  | succ left ih =>
    rcases leader_step hn (sound_of_reaches hn h hAlive) (.go false false) hGet hTicket hDvd with
      rfl | ⟨mem, o', hStep, hTicket', hPos, hAlive'⟩
    · cases hLeft
    · have hNext := Machine.next_act_of_step hGet hStep
      obtain ⟨s', hRun, hReady⟩ := ih (h.tail ⟨_, hNext⟩)
        (hAlive.act hAlive' nofun) (get_act_self hGet o' []) hTicket' (by omega)
      refine ⟨s', ?_, hReady⟩
      rw [List.replicate_succ, Machine.run, hNext]
      exact hRun

theorem Object.remaining_le (o : Object) : o.remaining ≤ 5 := by
  cases o with
  | wait blocking at_ => cases at_ <;> simp [remaining]
  | _ => simp [remaining]

/-! ## Results -/

theorem generation_bounds (hn : 1 ≤ n) {t : Nat} (ht : 1 ≤ t) :
    generation n t * n + 1 ≤ t ∧ t ≤ (generation n t + 1) * n ∧
      (n ∣ t ↔ t = (generation n t + 1) * n) := by
  have hLow : generation n t * n ≤ t - 1 := Nat.div_mul_le_self _ _
  have hHigh : t - 1 < (generation n t + 1) * n := by
    rw [generation, Nat.mul_comm]
    exact Nat.lt_mul_div_succ _ hn
  refine ⟨by omega, by omega, fun ⟨m, hm⟩ => ?_, fun hEq => hEq ▸ Nat.dvd_mul_left _ _⟩
  -- the multiples of `n` between the bounds
  have hAbove : generation n t < m := by
    apply Nat.lt_of_mul_lt_mul_right (a := n)
    rw [Nat.mul_comm m n]
    omega
  have hBelow : (generation n t + 1) * n ≤ m * n := Nat.mul_le_mul_right n hAbove
  rw [Nat.mul_comm m n] at hBelow
  omega

theorem Sound.nobody_owns (h : Sound n p s) (hFree : s.mem.mutex.state % 2 = 0) :
    census Object.owns s.pool = 0 := by
  have := h.mutex.state_eq
  have := h.mutex.owners_le
  omega

theorem numbers_of_free (h : Sound n p s) (hn : 1 ≤ n) (hFree : s.mem.mutex.state % 2 = 0) :
    s.mem.count < n ∧ s.mem.count = s.mem.arrivals % n ∧
      s.mem.generationId = s.mem.arrivals / n % 2 ^ 64 := by
  have hNone : census Object.arriving s.pool = 0 :=
    Nat.le_zero.mp (h.nobody_owns hFree ▸ Sound.arriving_le_owns s)
  obtain ⟨_, hCount, hGen⟩ := h.counts
  rw [hNone, Nat.sub_zero] at hCount hGen
  exact ⟨hCount ▸ Nat.mod_lt _ hn, hCount, hGen⟩

theorem last_arrival_returns (hn : 1 ≤ n) (h : (machine n p).Reaches initial s)
    (hAlive : Alive Object.Aborted s) {k : Nat} (hk : (k + 1) * n ≤ s.mem.arrivals) :
    ∃ i o m s', s.pool[i]? = some o ∧ Object.ticket o = some ((k + 1) * n) ∧ m ≤ 5 ∧
      (machine n p).run s (List.replicate m (.act i (.go false false))) = some s' ∧
      s'.pool[i]? = some (Object.ready true ((k + 1) * n)) := by
  have hDvd : n ∣ (k + 1) * n := Nat.dvd_mul_left _ _
  have hPos : 1 ≤ (k + 1) * n := Nat.mul_pos (Nat.succ_pos k) hn
  obtain ⟨o, ho, hBears⟩ := (census_pos_iff _ _).mp
    ((sound_of_reaches hn h hAlive).bearer_exists _ hPos hk hDvd)
  obtain ⟨i, hGet⟩ := List.getElem?_of_mem ho
  have hTicket := Object.bears_pos_iff.mp hBears
  obtain ⟨s', hRun, hReady⟩ := leader_returns hn h hAlive hGet hTicket hDvd
  exact ⟨i, o, o.remaining, s', hGet, hTicket, o.remaining_le, hRun, hReady⟩

theorem result_placed (h : Sound n p s) (hn : 1 ≤ n) {i t : Nat} {isLeader : Bool}
    (hReady : s.pool[i]? = some (.ready isLeader t)) :
    ∃ k, k * n + 1 ≤ t ∧ t ≤ (k + 1) * n ∧ (k + 1) * n ≤ s.mem.arrivals ∧
      (isLeader = true ↔ t = (k + 1) * n) := by
  have hPlaced := h.placed _ (List.mem_of_getElem? hReady)
  refine ⟨generation n t, ?_⟩
  cases isLeader with
  | true =>
    obtain ⟨hPos, hLe, hDvd⟩ := hPlaced
    obtain ⟨hLow, hHigh, hLast⟩ := generation_bounds hn hPos
    exact ⟨hLow, hHigh, hLast.mp hDvd ▸ hLe, by simpa using hLast.mp hDvd⟩
  | false =>
    obtain ⟨hPos, _, hNot, hOver⟩ := hPlaced
    obtain ⟨hLow, hHigh, hLast⟩ := generation_bounds hn hPos
    exact ⟨hLow, hHigh, hOver, by simpa using fun hEq => hNot (hLast.mpr hEq)⟩

theorem ticket_unique (h : Sound n p s) {i j t : Nat} {o o' : Object} (hi : s.pool[i]? = some o)
    (hj : s.pool[j]? = some o') (ho : o.ticket = some t) (ho' : o'.ticket = some t) : i = j := by
  by_contra hNe
  have hTwo := add_le_census (Object.bears t) hNe hi hj
  have hOne := h.bearer_unique t
  rw [Object.bears_of_ticket ho, Object.bears_of_ticket ho', if_pos rfl] at hTwo
  omega

/-- With the mutex free the numbers tell the arrivals; the last arrival of every generation has
its result or gets it by at most five actions of its own; a result is given after the last arrival
of its generation, and makes a leader of that arrival alone. -/
theorem one_leader_per_generation (hn : 1 ≤ n) (h : (machine n p).Reaches initial s)
    (hAlive : Alive Object.Aborted s) :
    (s.mem.mutex.state % 2 = 0 → s.mem.count < n ∧ s.mem.count = s.mem.arrivals % n ∧
      s.mem.generationId = s.mem.arrivals / n % 2 ^ 64) ∧
    (∀ k, (k + 1) * n ≤ s.mem.arrivals → ∃ i o m s', s.pool[i]? = some o ∧
      Object.ticket o = some ((k + 1) * n) ∧ m ≤ 5 ∧
      (machine n p).run s (List.replicate m (.act i (.go false false))) = some s' ∧
      s'.pool[i]? = some (Object.ready true ((k + 1) * n))) ∧
    (∀ (i t : Nat) (isLeader : Bool), s.pool[i]? = some (.ready isLeader t) →
      ∃ k, k * n + 1 ≤ t ∧ t ≤ (k + 1) * n ∧ (k + 1) * n ≤ s.mem.arrivals ∧
        (isLeader = true ↔ t = (k + 1) * n)) ∧
    ∀ (i j t : Nat) (o o' : Object), s.pool[i]? = some o → s.pool[j]? = some o' →
      o.ticket = some t → o'.ticket = some t → i = j := by
  have hSound := sound_of_reaches hn h hAlive
  exact ⟨numbers_of_free hSound hn, fun k hk => last_arrival_returns hn h hAlive hk,
    fun _ _ _ hReady => result_placed hSound hn hReady,
    fun _ _ _ _ _ hi hj ho ho' => ticket_unique hSound hi hj ho ho'⟩

def meeting : List (Action Call Choice) :=
  [.call .wait, .call .wait] ++ List.replicate 7 (.act 0 (.go false false)) ++
    List.replicate 8 (.act 1 (.go false false)) ++ List.replicate 6 (.act 0 (.go false false))

def met : State Barrier Object :=
  ⟨⟨⟨0, Event.new⟩, 0, 1, Event.new, 2⟩, [.ready false 1, .ready true 2]⟩

theorem one_leader_per_generation_meeting :
    met.mem.generationId = met.mem.arrivals / 2 % 2 ^ 64 ∧
      ∃ k, k * 2 + 1 ≤ 1 ∧ 1 ≤ (k + 1) * 2 ∧ (k + 1) * 2 ≤ met.mem.arrivals ∧
        (false = true ↔ 1 = (k + 1) * 2) := by
  have := one_leader_per_generation (n := 2) (p := platform64) (by decide)
    (Machine.reaches_of_run _ meeting initial met (by decide +kernel))
    (by simp [Alive, met, Object.Aborted])
  exact ⟨(this.1 rfl).2.2, this.2.2.1 0 1 false rfl⟩

end AsyncLock.Barrier
