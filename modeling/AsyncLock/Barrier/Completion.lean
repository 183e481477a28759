import AsyncLock.Barrier.Withdrawal
import AsyncLock.Mutex.Turns

/-! # Every wait returns

A `wait` that is woken queues on the mutex, only to find perhaps that its generation goes on and to
sleep again. Each such round takes a mark of the event, marks come from leaders, and an arrival
leads at most once; in between the mutex lets everybody through. So, for any number of tasks and
in whatever order they act, all the full generations leave, each with one leader.
-/
namespace AsyncLock.Barrier
set_option autoImplicit false

open Interleaving Mutex

namespace WaitPoint

/-- What the task has to do with the mutex. -/
def role : WaitPoint → Role
  | lock f | reacquiring _ _ f => .locking f
  | locked listener | reacquired _ _ listener => .owner listener
  | notifyLockOps _ => .unlocking
  | waiting _ _ => .apart false
  | _ => .owner false

/-- May still end a generation and notify those who wait. -/
def heralds : WaitPoint → Nat
  | lock _ | locked _ | arrive | compare _ _ | advance _ | notify _ => 1
  | _ => 0

/-- The actions until it uses the mutex again. -/
def ends : WaitPoint → Nat
  | locked _ | reacquired _ _ _ => 5
  | arrive => 4
  | compare _ _ | recheck _ _ => 3
  | listen _ _ | advance _ => 2
  | notify _ | waiting _ _ => 1
  | _ => 0

end WaitPoint

namespace Object

def role : Object → Role
  | wait _ at_ => at_.role
  | _ => .apart false

def heralds : Object → Nat
  | wait _ at_ => at_.heralds
  | _ => 0

def ends : Object → Nat
  | wait _ at_ => at_.ends
  | _ => 0

theorem role_aborted {o : Object} : o.role.Aborted ↔ o.Aborted := by
  cases o with
  | wait blocking at_ => cases at_ <;> exact Iff.rfl
  | _ => exact Iff.rfl

end Object

/-- A future that sleeps on the event is woken only by a notification. -/
def reasoned (_ : State Barrier Object) (_ : Nat) : Choice → Prop
  | .go _ wake => wake = false
  | .drop => True

variable {n : Nat} {p : Platform} {i : Nat} {c : Choice} {s s' : Barrier} {o o' : Object}
  {new : List Object}

/-! ## One step -/

theorem use_dropLock (i : Nat) (s : Barrier) (listener : Bool) :
    (∃ e, Use p i s.mutex e (.owner listener) (dropLock i s listener).mutex (.owner false) 0 ∧
      e ≠ .starts) ∧ (dropLock i s listener).event = s.event := by
  cases listener
  · exact ⟨⟨_, .stay _, nofun⟩, rfl⟩
  · exact ⟨⟨_, .discard, nofun⟩, rfl⟩

attribute [local simp] Object.ends WaitPoint.ends

theorem step_use (h : step n p i c s o = some (s', o', new)) :
    new = [] ∧ ∃ e, Use p i s.mutex e o.role s'.mutex o'.role 0 ∧
      (o'.heralds < o.heralds ∨ (o'.heralds = o.heralds ∧ s'.event.marks ≤ s.event.marks)) ∧
      (e = .starts → o'.heralds = o.heralds ∧
        ∀ u k, reasoned u k c → s'.event.marks < s.event.marks) ∧
      (e = .keeps → o'.ends < o.ends) := by
  obtain ⟨blocking, at_, rfl, hActs, rfl⟩ := step_acts h
  refine ⟨rfl, ?_⟩
  cases hActs with
  | lock f d m r hLock =>
    cases r with
    | running f' => exact ⟨_, .lock f d m _ hLock, .inr ⟨rfl, Nat.le_refl _⟩, nofun, nofun⟩
    | ready listener => exact ⟨_, .lock f d m _ hLock, .inr ⟨rfl, Nat.le_refl _⟩, nofun, nofun⟩
    | dropped => exact ⟨_, .lock f d m _ hLock, .inl Nat.one_pos, nofun, nofun⟩
  | relock g t f d m r hLock =>
    cases r <;> exact ⟨_, .lock f d m _ hLock, .inr ⟨rfl, Nat.le_refl _⟩, nofun, nofun⟩
  | locked listener =>
    obtain ⟨⟨e, hUse, hStarts⟩, hEvent⟩ := use_dropLock (p := p) i s listener
    exact ⟨e, hUse, .inr ⟨rfl, by rw [hEvent]⟩, fun he => absurd he hStarts,
      fun _ => by simp⟩
  | relocked g t listener =>
    obtain ⟨⟨e, hUse, hStarts⟩, hEvent⟩ := use_dropLock (p := p) i s listener
    exact ⟨e, hUse, .inr ⟨rfl, by rw [hEvent]⟩, fun he => absurd he hStarts,
      fun _ => by simp⟩
  | arrive | lead => exact ⟨_, .stay _, .inr ⟨rfl, Nat.le_refl _⟩, nofun, fun _ => by simp⟩
  | advance => exact ⟨_, .stay _, .inr ⟨rfl, Nat.le_refl _⟩, nofun, fun _ => by simp⟩
  | again | leave => exact ⟨_, .stay _, .inr ⟨rfl, Nat.le_refl _⟩, nofun, fun _ => by simp⟩
  | follow | notify => exact ⟨_, .stay _, .inl Nat.one_pos, nofun, fun _ => by simp⟩
  | listen =>
    exact ⟨_, .stay _, .inr ⟨rfl, (Event.marks_listen _ _).le⟩, nofun, fun _ => by simp⟩
  | unlock after => exact ⟨_, .unlock, .inr ⟨rfl, Nat.le_refl _⟩, nofun, nofun⟩
  | notifyLockOps after =>
    cases after <;> exact ⟨_, .notify, .inr ⟨rfl, Nat.le_refl _⟩, nofun, nofun⟩
  | wake g t =>
    refine ⟨_, .start, .inr ⟨rfl, Event.marks_remove_le _ _⟩, fun _ => ⟨rfl, ?_⟩, nofun⟩
    intro u k hReason
    cases c with
    | drop =>
      cases blocking <;> simp [step, stepWait] at h
    | go elapsed wake =>
      cases hReason
      simp only [step, stepWait, Bool.false_eq_true, or_false] at h
      split_ifs at h with hMark
      · exact Event.marks_remove_lt hMark
      · cases h
  | cancel =>
    exact ⟨_, .stay _, .inr ⟨rfl, Event.marks_discard_le _ _⟩, nofun, fun _ => by simp⟩

theorem host (n : Nat) (p : Platform) :
    Host p (machine n p) initial Barrier.mutex Object.role where
  word := rfl
  empty := rfl
  create _ k := by
    obtain ⟨blocking⟩ := k
    exact .inr rfl
  use i c s o s' o' new h := by
    obtain ⟨rfl, e, hUse, _⟩ := step_use h
    exact ⟨e, hUse, nofun⟩
  aborted i c s o h := aborted_stuck i c s o (Object.role_aborted.mp h)

/-! ## Every run ends -/

def rank (s : State Barrier Object) : (Nat ×ₗ Nat) ×ₗ Nat ×ₗ Nat ×ₗ Nat :=
  Host.rank Barrier.mutex Object.role s
    (toLex (census Object.heralds s.pool, s.mem.event.marks)) (census Object.ends s.pool)

theorem rank_lt {s s' : State Barrier Object} (h : (machine n p).Works reasoned s s') :
    rank s' < rank s := by
  obtain ⟨i, c, o, o', new, others, hOk, _, hAct, _, hPool, hPool'⟩ := Machine.works_others h
  obtain ⟨rfl, e, hUse, hLe, hStarts, hEnds⟩ := step_use hAct
  refine Host.rank_lt nofun hPool hPool' hUse ?_ (fun he => ?_) (fun he => ?_)
  · rw [Prod.Lex.toLex_le_toLex, hPool, hPool', census_nil]
    rcases hLe with hLess | ⟨hSame, hMarks⟩
    · exact .inl (by omega)
    · exact .inr ⟨by omega, hMarks⟩
  · obtain ⟨hSame, hMarks⟩ := hStarts he
    rw [Prod.Lex.toLex_lt_toLex, hPool, hPool', census_nil]
    exact .inr ⟨by omega, hMarks s i hOk⟩
  · have := hEnds he
    rw [hPool, hPool', census_nil]
    omega

theorem acc_works (s : State Barrier Object) :
    Acc (fun v u => (machine n p).Works reasoned u v) s :=
  Machine.acc_of_rank (P := fun _ => True) rank (fun _ _ _ h => ⟨trivial, rank_lt h⟩) trivial

/-! ## Where a run ends -/

/-- Nobody is dropped, and no future that sleeps on the event is woken for no reason. -/
def goes (_ : State Barrier Object) (_ : Nat) : Choice → Prop
  | .go _ wake => wake = false
  | .drop => False

theorem asleep_of_none (hAlive : ¬ o.Aborted)
    (h : ∀ elapsed, step n p i (.go elapsed false) s o = none) :
    (∃ isLeader t, o = .ready isLeader t) ∨ o = .gone ∨
      (∃ blocking g t, o = .wait blocking (.waiting g t) ∧ ¬ (s.event.markOf i).isSome) ∨
      (o.role.Parked ∧ o.role.Resting ∧ ¬ (s.mutex.lockOps.markOf i).isSome) := by
  cases o with
  | ready isLeader t => exact .inl ⟨isLeader, t, rfl⟩
  | gone => exact .inr (.inl rfl)
  | wait blocking at_ =>
    have hPoint (e : Bool) : stepWait n p i (.go e false) s blocking at_ = none := by
      simpa [step] using h e
    have hLock {f : Lock} (hf : ∀ e, f.step p i (.go e) s.mutex = none) (hLives : ¬ f.Aborted) :
        (Role.locking f).Parked ∧ (Role.locking f).Resting ∧
          ¬ (s.mutex.lockOps.markOf i).isSome := by
      rcases Lock.asleep_of_none hf with hAborted | ⟨rfl | rfl, hMark⟩
      · exact absurd hAborted hLives
      · exact ⟨trivial, .inr (.inl rfl), hMark⟩
      · exact ⟨trivial, .inr (.inr rfl), hMark⟩
    cases at_ with
    | lock f | reacquiring _ _ f =>
      refine .inr (.inr (.inr (hLock (fun e => ?_) hAlive)))
      simpa [stepWait, lockStep] using hPoint e
    | waiting g t =>
      refine .inr (.inr (.inl ⟨blocking, g, t, rfl, fun hMark => ?_⟩))
      have hNone := hPoint false
      simp [stepWait, hMark] at hNone
    | compare | recheck =>
      have hNone := hPoint false
      simp only [stepWait] at hNone
      split at hNone <;> cases hNone
    | _ => cases hPoint false

/-- Has its result or has been dropped, or sleeps on the event and has not been notified. -/
def Settled (s : Barrier) (i : Nat) (o : Object) : Prop :=
  (∃ isLeader t, o = .ready isLeader t) ∨ o = .gone ∨
    ∃ blocking g t, o = .wait blocking (.waiting g t) ∧ ¬ (s.event.markOf i).isSome

theorem Settled.role (h : s.Settled i o) : o.role = .apart false := by
  rcases h with ⟨_, _, rfl⟩ | rfl | ⟨_, _, _, rfl, _⟩ <;> rfl

theorem settled_of_stuck {s : State Barrier Object} (h : (machine n p).Reaches initial s)
    (hAlive : Alive Object.Aborted s) (hStuck : (machine n p).Stuck goes s) :
    ∀ i o, s.pool[i]? = some o → s.mem.Settled i o := by
  have hAsleep (i : Nat) (o : Object) (hGet : s.pool[i]? = some o) : s.mem.Settled i o ∨
      (o.role.Parked ∧ o.role.Resting ∧ ¬ (s.mem.mutex.lockOps.markOf i).isSome) := by
    rcases asleep_of_none (hAlive o (List.mem_of_getElem? hGet)) fun e =>
        Machine.next_eq_none hGet (hStuck i (.go e false) rfl) with hReady | hGone | hWait | hPark
    · exact .inl (.inl hReady)
    · exact .inl (.inr (.inl hGone))
    · exact .inl (.inr (.inr hWait))
    · exact .inr hPark
  have hResting : ∀ o ∈ s.pool, o.role.Resting := by
    intro o ho
    obtain ⟨i, hGet⟩ := List.getElem?_of_mem ho
    rcases hAsleep i o hGet with hSettled | ⟨_, hRest, _⟩
    · rw [hSettled.role]
      rfl
    · exact hRest
  have hHost := host n p
  have hFree : s.mem.mutex.state % 2 = 0 := by
    have hAccounts := hHost.accounts_of_reaches h
      fun o ho hAborted => hAlive o ho (Object.role_aborted.mp hAborted)
    have hOwners : Host.owners Object.role s = 0 := by
      refine census_eq_zero fun o ho => ?_
      obtain ⟨i, hGet⟩ := List.getElem?_of_mem ho
      rcases hAsleep i o hGet with hSettled | ⟨hPark, _, _⟩
      · rw [hSettled.role]
        rfl
      · exact hPark.owns
    have := hAccounts.state_eq
    omega
  intro i o hGet
  rcases hAsleep i o hGet with hSettled | ⟨hPark, _, _⟩
  · exact hSettled
  · -- somebody is parked on the mutex, so somebody has been notified, who could go on
    obtain ⟨j, q, hGet', hPark', hMark⟩ := hHost.parked_notified h hResting hFree
      ⟨o, List.mem_of_getElem? hGet, hPark⟩
    rcases hAsleep j q hGet' with hSettled | ⟨_, _, hUnmarked⟩
    · rw [hSettled.role] at hPark'
      cases hPark'
    · exact absurd hMark hUnmarked

/-! ## Nobody is dropped -/

def Undropped : Action Call Choice → Prop
  | .act _ .drop => False
  | _ => True

instance : ∀ a, Decidable (Undropped a)
  | .act _ .drop => inferInstanceAs (Decidable False)
  | .act _ (.go _ _) | .call _ => inferInstanceAs (Decidable True)

namespace Object

/-- Dropped, or in the middle of its drop. -/
def Leaving : Object → Prop
  | wait _ (.lock f) | wait _ (.reacquiring _ _ f) => f = .dropListener
  | gone => True
  | _ => False

def arrived (o : Object) : Nat := o.ticket.isSome.toNat

end Object

theorem lockStep_go {elapsed wake : Bool} {blocking : Bool} {f : Lock} {r : LockOutcome}
    (h : lockStep p i (.go elapsed wake) s blocking f = some (s', r)) (hf : f ≠ .dropListener) :
    r ≠ .dropped ∧ r ≠ .running .dropListener ∧ s'.arrivals = s.arrivals := by
  have hStep : ∃ m, f.step p i (.go elapsed) s.mutex = some (m, r) ∧ s' = { s with mutex := m } :=
    Lock.step_within h
  obtain ⟨m, hLock, rfl⟩ := hStep
  have hNever (hr : r = .dropped ∨ r = .running .dropListener) : False := by
    rcases lock_dropped hLock hr with hDrop | hDrop
    · cases hDrop
    · exact hf hDrop
  exact ⟨fun hr => hNever (.inl hr), fun hr => hNever (.inr hr), rfl⟩

theorem step_arrived {elapsed wake : Bool}
    (h : step n p i (.go elapsed wake) s o = some (s', o', new)) (ho : ¬ o.Leaving) :
    ¬ o'.Leaving ∧ s'.arrivals + o.arrived = s.arrivals + o'.arrived := by
  cases o with
  | wait blocking at_ =>
    obtain ⟨⟨s₁, q⟩, hStep, hEq⟩ := Option.map_eq_some_iff.mp h
    cases hEq
    cases at_ with
    | lock f | reacquiring g t f =>
      obtain ⟨⟨s₂, r⟩, hLock, hEq⟩ := Option.map_eq_some_iff.mp hStep
      cases hEq
      obtain ⟨hKept, hGoes, hArrivals⟩ := lockStep_go hLock ho
      cases r with
      | dropped => exact absurd rfl hKept
      | running f' => exact ⟨fun hLeaves => hGoes (congrArg _ hLeaves), by rw [hArrivals]; rfl⟩
      | ready listener => exact ⟨id, by rw [hArrivals]; rfl⟩
    | locked listener | reacquired g t listener =>
      cases hStep
      exact ⟨id, by rw [(dropLock_fields _ _ _).2.2.2]; rfl⟩
    | arrive =>
      cases hStep
      exact ⟨id, by simp [Object.arrived, Object.ticket, Object.stage, WaitPoint.stage,
        Stage.ticket]⟩
    | waiting g t =>
      simp only [stepWait] at hStep
      split at hStep <;> cases hStep
      refine ⟨fun hLeaves => ?_, rfl⟩
      cases hLeaves
    | compare g t | recheck g t =>
      simp only [stepWait] at hStep
      split at hStep <;> cases hStep <;> exact ⟨id, rfl⟩
    | unlock after | notifyLockOps after =>
      cases hStep
      rcases after with _ | ⟨_ | _, _⟩ <;> exact ⟨id, rfl⟩
    | _ =>
      cases hStep
      exact ⟨id, rfl⟩
  | _ => cases h

/-- As long as nobody is dropped, everybody who is past its arrival has been counted. -/
theorem arrivals_of_undropped {acts : List (Action Call Choice)} {s : State Barrier Object}
    (h : (machine n p).run initial acts = some s) (hUndropped : ∀ a ∈ acts, Undropped a) :
    (∀ o ∈ s.pool, ¬ o.Leaving) ∧ s.mem.arrivals = census Object.arrived s.pool := by
  refine Machine.invariant_along (P := fun s => (∀ o ∈ s.pool, ¬ o.Leaving) ∧
    s.mem.arrivals = census Object.arrived s.pool) h (Machine.along_of_forall hUndropped)
    ⟨nofun, rfl⟩ ?_
  rintro u a u' _ hKept hNext ⟨hStay, hCount⟩
  rcases Machine.next_others hNext with ⟨k, _, rfl⟩ |
    ⟨i, c, o, mem, o', new, others, rfl, hGet, hAct, rfl, _, hPool, hPool'⟩
  · obtain ⟨blocking⟩ := k
    refine ⟨fun o ho => ?_, by rw [census_append]; exact hCount⟩
    rcases List.mem_append.mp ho with ho | ho
    · exact hStay o ho
    · rw [List.mem_singleton.mp ho]
      exact nofun
  · obtain ⟨rfl, _⟩ := step_use hAct
    cases c with
    | drop => cases hKept
    | go elapsed wake =>
      obtain ⟨hStays, hSelf⟩ := step_arrived hAct (hStay o (List.mem_of_getElem? hGet))
      refine ⟨fun q hq => ?_, ?_⟩
      · rcases mem_of_act hq with hOld | rfl | hMem
        · exact hStay q hOld
        · exact hStays
        · cases hMem
      · rw [hPool] at hCount
        rw [hPool', census_nil]
        change mem.arrivals = _
        omega

/-! ## Where nobody is left -/

/-- Has been told that it is the leader. -/
def Object.leads : Object → Nat
  | ready true _ => 1
  | _ => 0

theorem multiples (n m : Nat) :
    census (fun t => if n ∣ t then 1 else 0) (List.range' 1 m) = m / n := by
  induction m with
  | zero => simp
  | succ m ih =>
    rw [List.range'_1_concat, census_append, ih, Nat.succ_div, Nat.add_comm 1 m]
    rfl

section

variable {s : State Barrier Object}

/-- As many arrivals as objects, each with a number of its own, have the numbers from 1 on. -/
theorem Sound.tickets (h : Sound n p s) (hAll : s.mem.arrivals = census Object.arrived s.pool)
    (hLength : s.mem.arrivals = s.pool.length) :
    (s.pool.filterMap Object.ticket).Perm (List.range' 1 s.pool.length) := by
  have hTotal : (s.pool.filterMap Object.ticket).length = s.pool.length := by
    rw [← census_eq_length (f := fun _ => 1) fun _ _ => rfl, census_filterMap, ← hLength, hAll]
    refine census_congr fun o _ => ?_
    unfold Object.arrived
    cases o.ticket <;> rfl
  refine (List.subperm_of_subset (List.nodup_iff_count.mpr fun t => ?_) fun t ht => ?_)
    |>.perm_of_length_le (by rw [hTotal, List.length_range'])
  · rw [count_eq_census, census_filterMap]
    refine (census_congr fun o _ => ?_).trans_le (h.bearer_unique t)
    unfold Object.bears
    cases o.ticket <;> simp
  · obtain ⟨o, ho, hTicket⟩ := List.mem_filterMap.mp ht
    have hPlaced := h.placed o ho
    have hLe := hPlaced.ticket_le hTicket
    have hPos := hPlaced.ticket_pos hTicket
    rw [List.mem_range'_1]
    omega

/-- The result of an arrival, or its place, where nobody can go on. -/
theorem Sound.settled (hn : 1 ≤ n) (h : Sound n p s) (hRoused : Roused s)
    (hSettled : ∀ i o, s.pool[i]? = some o → s.mem.Settled i o)
    (hStay : ∀ o ∈ s.pool, ¬ o.Leaving) (hFew : s.mem.arrivals < 2 ^ 64 * n)
    (hFree : s.mem.mutex.state % 2 = 0) {i : Nat} {o : Object} (hGet : s.pool[i]? = some o) :
    ∃ t, o.ticket = some t ∧ o.leads = (if n ∣ t then 1 else 0) ∧
      (t ≤ s.mem.arrivals / n * n → o = .ready (decide (n ∣ t)) t) ∧
      (s.mem.arrivals / n * n < t → ∃ blocking g, o = .wait blocking (.waiting g t)) := by
  have ho := List.mem_of_getElem? hGet
  have hPlaced := h.placed o ho
  rcases hSettled i o hGet with ⟨isLeader, t, rfl⟩ | rfl | ⟨blocking, g, t, rfl, hUnmarked⟩
  · cases isLeader with
    | true =>
      obtain ⟨_, hLe, hDvd⟩ := hPlaced
      have hFull := Nat.mul_le_mul_right n (Nat.div_le_div_right (c := n) hLe)
      rw [Nat.div_mul_cancel hDvd] at hFull
      exact ⟨t, rfl, by rw [if_pos hDvd]; rfl, fun _ => by rw [decide_eq_true hDvd],
        fun hLt => absurd hLt (by omega)⟩
    | false =>
      obtain ⟨hPos, _, hNot, hOver⟩ := hPlaced
      have hHigh := (generation_bounds hn hPos).2.1
      have hFull := Nat.mul_le_mul_right n ((Nat.le_div_iff_mul_le hn).mpr hOver)
      exact ⟨t, rfl, by rw [if_neg hNot]; rfl, fun _ => by rw [decide_eq_false hNot],
        fun hLt => absurd hLt (by omega)⟩
  · exact absurd trivial (hStay _ ho)
  · obtain ⟨hPos, hLe, hNot, hGen⟩ := hPlaced
    obtain ⟨hLow, hHigh, _⟩ := generation_bounds hn hPos
    have hQuiet : census Object.notifies s.pool = 0 := by
      refine census_eq_zero fun q hq => ?_
      obtain ⟨j, hGet'⟩ := List.getElem?_of_mem hq
      rcases hSettled j q hGet' with ⟨_, _, rfl⟩ | rfl | ⟨_, _, _, rfl, _⟩ <;> rfl
    -- it has an entry without a mark, so its generation is the current one
    have hCurrent : g = s.mem.generationId := by
      rcases hRoused.notified i _ g hGet rfl with hMark | hSame | hNotify
      · exact absurd hMark hUnmarked
      · exact hSame
      · omega
    have hNumbers := (numbers_of_free h hn hFree).2.2
    have hMono : generation n t ≤ s.mem.arrivals / n := Nat.div_le_div_right (by omega)
    have hBound : s.mem.arrivals / n < 2 ^ 64 :=
      (Nat.div_lt_iff_lt_mul hn).mpr hFew
    rw [hCurrent, hNumbers, Nat.mod_eq_of_lt hBound, Nat.mod_eq_of_lt (by omega)] at hGen
    rw [hGen]
    exact ⟨t, rfl, by rw [if_neg hNot]; rfl, fun hOver => absurd hLow (by omega),
      fun _ => ⟨blocking, g, rfl⟩⟩

end

/-- Every run without new calls and spurious wake-ups ends. Where it ends, if nobody has been
dropped, the mutex is free and nobody queues on it; `m` tasks have arrived, `m / n` of them have
returned as leaders, the members of full generations have returned, and the others, fewer than
`n`, sleep. -/
theorem waits_complete (hn : 1 ≤ n) {acts : List (Action Call Choice)} {s : State Barrier Object}
    (h : (machine n p).run initial acts = some s) (hAlive : Alive Object.Aborted s)
    (hFits : (machine n p).Along (fun u _ => u.mem.Fits p) initial acts)
    (hFew : s.pool.length < 2 ^ 64 * n) :
    ¬ (machine n p).Endless reasoned s ∧
      ((machine n p).Stuck goes s → (∀ a ∈ acts, Undropped a) →
        s.mem.mutex.state = 0 ∧ s.mem.count = s.pool.length % n ∧
        census Object.leads s.pool = s.pool.length / n ∧
        (s.pool.filterMap Object.ticket).Perm (List.range' 1 s.pool.length) ∧
        ∀ (i : Nat) (o : Object), s.pool[i]? = some o → ∃ t, o.ticket = some t ∧
          (t ≤ s.pool.length / n * n → o = .ready (decide (n ∣ t)) t) ∧
          (s.pool.length / n * n < t → ∃ blocking g, o = .wait blocking (.waiting g t))) := by
  refine ⟨Machine.not_endless_of_acc (acc_works s), fun hStuck hUndropped => ?_⟩
  have hReach := Machine.reaches_of_run _ acts _ s h
  have hSound := sound_of_reaches hn hReach hAlive
  have hSettled := settled_of_stuck hReach hAlive hStuck
  obtain ⟨hStay, hArrived⟩ := arrivals_of_undropped h hUndropped
  have hRole {f : Role → Nat} (hf : f (.apart false) = 0) :
      census (fun o => f (Object.role o)) s.pool = 0 := by
    refine census_eq_zero fun o ho => ?_
    obtain ⟨i, hGet⟩ := List.getElem?_of_mem ho
    rw [(hSettled i o hGet).role, hf]
  have hWord : s.mem.mutex.state = 0 := by
    have hAccounts := (host n p).accounts_of_reaches hReach
      fun o ho hAborted => hAlive o ho (Object.role_aborted.mp hAborted)
    have hEq := hAccounts.state_eq
    rwa [Host.owners, Host.starvedOps, hRole rfl, hRole rfl] at hEq
  have hFree : s.mem.mutex.state % 2 = 0 := by rw [hWord]
  have hLength : s.mem.arrivals = s.pool.length := by
    rw [hArrived]
    refine census_eq_length fun o ho => ?_
    obtain ⟨i, hGet⟩ := List.getElem?_of_mem ho
    rcases hSettled i o hGet with ⟨isLeader, _, rfl⟩ | rfl | ⟨_, _, _, rfl, _⟩
    · cases isLeader <;> rfl
    · exact absurd trivial (hStay _ ho)
    · rfl
  have hTickets := hSound.tickets hArrived hLength
  have hEach (i : Nat) (o : Object) (hGet : s.pool[i]? = some o) :=
    hSound.settled hn (roused_of_run hn h hAlive hFits) hSettled hStay (hLength ▸ hFew) hFree hGet
  refine ⟨hWord, ?_, ?_, hTickets, fun i o hGet => ?_⟩
  · rw [(numbers_of_free hSound hn hFree).2.1, hLength]
  · rw [← multiples, ← census_perm _ hTickets, census_filterMap]
    refine census_congr fun o ho => ?_
    obtain ⟨i, hGet⟩ := List.getElem?_of_mem ho
    obtain ⟨t, hTicket, hLeads, _⟩ := hEach i o hGet
    rw [hTicket, hLeads]
    rfl
  · obtain ⟨t, hTicket, _, hResult⟩ := hEach i o hGet
    rw [hLength] at hResult
    exact ⟨t, hTicket, hResult⟩

/-- Two tasks meet, and a third one waits for a fourth. -/
def meetAndWait : List (Action Call Choice) :=
  meeting ++ [.call .wait] ++ List.replicate 7 (.act 2 (.go false false))

def thirdWaits : State Barrier Object :=
  ⟨⟨Mutex.new, 1, 1, ⟨[⟨2, none⟩]⟩, 3⟩,
    [.ready false 1, .ready true 2, .wait false (.waiting 1 3)]⟩

theorem waits_complete_meetAndWait :
    ¬ (machine 2 platform64).Endless reasoned thirdWaits ∧
      thirdWaits.mem.count = thirdWaits.pool.length % 2 ∧
      census Object.leads thirdWaits.pool = thirdWaits.pool.length / 2 := by
  have hComplete := waits_complete (n := 2) (p := platform64) (by decide)
    (show (machine 2 platform64).run initial meetAndWait = some thirdWaits by decide +kernel)
    (by simp [Alive, thirdWaits, Object.Aborted, WaitPoint.Aborted]) (by decide +kernel)
    (by decide)
  have hEnd := hComplete.2 (fun i c hGoes => ?_) (by decide)
  · exact ⟨hComplete.1, hEnd.2.1, hEnd.2.2.1⟩
  · cases c with
    | drop => cases hGoes
    | go elapsed wake =>
      cases hGoes
      rcases i with _ | _ | _ | i <;> rfl

end AsyncLock.Barrier
