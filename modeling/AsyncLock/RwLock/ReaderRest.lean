import AsyncLock.Interleaving.Handover
import AsyncLock.RwLock.Listeners
import AsyncLock.RwLock.WritePreference

/-! # Whether readers behind a writer come to rest

A reader that is woken hands the notification to the next one before it looks at the state. With
the writer bit set it queues itself again, behind the readers that are still there, so that the
notification may come back to it, unless it meets an entry that nobody is polling for or there is
no second reader. A reader in the middle of a poll, on its way into the queue, is one as well.
-/
namespace AsyncLock.RwLock
set_option autoImplicit false

open Interleaving

instance (o : Object) : Decidable o.ReaderParked := by
  unfold Object.ReaderParked
  split <;> infer_instance

namespace Object

/-- A read future whose first poll has begun. -/
def polled : Object → Bool
  | read _ (.unpolled _) => false
  | read _ _ => true
  | _ => false

/-- Such a future, unless it has seen so many readers that its next action is an abort. -/
def goesOn (p : Platform) : Object → Bool
  | read _ (.loop state _) => state % 2 = 1 ∨ state ≤ p.isizeMax
  | o => o.polled

/-- A read future that has taken its entry and has not yet called `no_writer.notify(1)`. -/
def passesOn : Object → Bool
  | read _ .passOn => true
  | _ => false

end Object

variable {α : Type*}

/-- The object at a position is a read future that waits for its entry to be marked. -/
def waits (s : State (RwLock α) Object) (i : Nat) : Bool :=
  s.pool[i]?.any fun o => decide o.ReaderParked

def goesOn (p : Platform) (s : State (RwLock α) Object) (i : Nat) : Bool :=
  s.pool[i]?.any (Object.goesOn p)

/-- An action, other than an abort, in a poll of a read future. A future that waits has one only
while its entry is marked. -/
def PollStep (p : Platform) (s t : State (RwLock α) Object) : Prop :=
  (∃ i o elapsed, s.pool[i]? = some o ∧ o.polled = true ∧
    (machine p).next s (.act i (.go elapsed)) = some t) ∧ Alive Object.Aborted t

/-- The polls of the readers come to an end, with none of those that wait marked. -/
def Rests (p : Platform) (s : State (RwLock α) Object) : Prop :=
  (¬ ∃ run : Nat → State (RwLock α) Object,
    run 0 = s ∧ ∀ n, PollStep p (run n) (run (n + 1))) ∧
  ∀ t, Relation.ReflTransGen (PollStep p) s t → (∀ u, ¬ PollStep p t u) →
    ∀ i, waits t i = true → t.mem.noWriter.markOf i = none

/-- A notification is at an entry or with a reader that is about to hand it on. -/
def Carried (s : State (RwLock α) Object) : Prop :=
  s.mem.noWriter.Notified ∨ ∃ o ∈ s.pool, o.passesOn = true

/-- A notification is there, at least two readers can hand it on, and each entry is of one that
can. -/
def Spins (p : Platform) (s : State (RwLock α) Object) : Prop :=
  Carried s ∧ 2 ≤ census (fun o => (o.goesOn p).toNat) s.pool ∧
    ∀ i ∈ s.mem.noWriter.owners, goesOn p s i = true

instance (s : State (RwLock α) Object) : Decidable (Carried s) :=
  inferInstanceAs (Decidable (_ ∨ _))

instance (p : Platform) (s : State (RwLock α) Object) : Decidable (Spins p s) :=
  inferInstanceAs (Decidable (_ ∧ _))

namespace Object

theorem readerParked_iff (o : Object) :
    o.ReaderParked ↔ ∃ form state, o = .read form (.loop state true) ∧ state % 2 = 1 := by
  constructor
  · intro h
    cases o with
    | read form f =>
      cases f with
      | loop state listener =>
        obtain ⟨rfl, hBit⟩ := h
        exact ⟨form, state, rfl, hBit⟩
      | _ => cases h
    | _ => cases h
  · rintro ⟨form, state, rfl, hBit⟩
    exact ⟨rfl, hBit⟩

theorem exists_of_passesOn {o : Object} (h : o.passesOn = true) :
    ∃ form, o = .read form .passOn := by
  cases o with
  | read form f =>
    cases f with
    | passOn => exact ⟨form, rfl⟩
    | _ => cases h
  | _ => cases h

end Object

theorem waits_iff (s : State (RwLock α) Object) (i : Nat) : waits s i = true ↔
    ∃ form state, s.pool[i]? = some (.read form (.loop state true)) ∧ state % 2 = 1 := by
  rw [waits, Option.any_eq_true]
  simp only [decide_eq_true_eq, Object.readerParked_iff]
  constructor
  · rintro ⟨_, hGet, form, state, rfl, hBit⟩
    exact ⟨form, state, hGet, hBit⟩
  · rintro ⟨form, state, hGet, hBit⟩
    exact ⟨_, hGet, form, state, rfl, hBit⟩

theorem goesOn_of_get {p : Platform} {s : State (RwLock α) Object} {i : Nat} {o : Object}
    (hGet : s.pool[i]? = some o) : goesOn p s i = o.goesOn p := by
  rw [goesOn, hGet, Option.any_some]

/-! ## One action of a poll -/

namespace Object

/-- The actions of a poll up to the next look at the listener. -/
def pollsLeft : Object → Nat
  | read _ .passOn => 4
  | read _ (.reload false) => 3
  | read _ (.loop state false) => 3 - state % 2
  | read _ (.reload true) => 1
  | read _ (.loop state true) => 1 - state % 2
  | _ => 0

end Object

/-- What a poll does while the writer bit is set. -/
inductive PollActs (p : Platform) (i : Nat) (s : RwLock α) : Object → RwLock α → Object → Prop
  | retry (form : Form) (state : Nat) (listener : Bool) (hBit : state % 2 = 0)
      (hLow : state ≤ p.isizeMax) : PollActs p i s (.read form (.loop state listener)) s
      (.read form (.loop s.state listener))
  | consume (form : Form) (state : Nat) (hBit : state % 2 = 1)
      (hMark : (s.noWriter.markOf i).isSome) :
      PollActs p i s (.read form (.loop state true)) { s with noWriter := s.noWriter.remove i }
      (.read form .passOn)
  | passOn (form : Form) :
      PollActs p i s (.read form .passOn) s.notifyNoWriter (.read form (.reload false))
  | reload (form : Form) (listener : Bool) : PollActs p i s (.read form (.reload listener)) s
      (.read form (.loop s.state listener))
  | listen (form : Form) (state : Nat) (hBit : state % 2 = 1) :
      PollActs p i s (.read form (.loop state false))
      { s with noWriter := s.noWriter.listen i } (.read form (.reload true))

variable {p : Platform} {i : Nat}

theorem step_pollActs {elapsed : Bool} {s s' : RwLock α} {o o' : Object} {new : List Object}
    (h : (machine p).step i (.go elapsed) s o = some (s', o', new)) (ho : o.polled = true)
    (hOdd : s.state % 2 = 1) (hAlive : ¬ o'.Aborted) : new = [] ∧ PollActs p i s o s' o' := by
  have h : step p i (.go elapsed) s o = some (s', o', new) := h
  cases o with
  | read form f =>
    obtain ⟨⟨m, r⟩, hPoll, hEq⟩ := Option.map_eq_some_iff.mp h
    cases f with
    | unpolled state => cases ho
    | loop state listener =>
      by_cases hBit : state % 2 = 0
      · simp only [Read.poll, and_writerBit, hBit, if_true] at hPoll
        split_ifs at hPoll with hHigh
        · cases hPoll
          cases hEq
          exact absurd trivial hAlive
        · -- the exchange expects a state without the bit
          have hOther : s.state ≠ state := by
            rintro rfl
            omega
          rw [compareExchange, if_neg hOther] at hPoll
          cases hPoll
          cases hEq
          exact ⟨rfl, .retry _ _ _ hBit (Nat.le_of_not_lt hHigh)⟩
      · have hSet : state % 2 = 1 := by omega
        simp only [Read.poll, and_writerBit, hSet, Nat.one_ne_zero, if_false] at hPoll
        split_ifs at hPoll with hListener hMark
        · cases hPoll
          cases hEq
          rw [hListener]
          exact ⟨rfl, .consume _ _ hSet hMark⟩
        · cases hPoll
          cases hEq
          rw [Bool.not_eq_true] at hListener
          rw [hListener]
          exact ⟨rfl, .listen _ _ hSet⟩
    | passOn =>
      cases hPoll
      cases hEq
      exact ⟨rfl, .passOn _⟩
    | reload listener =>
      cases hPoll
      cases hEq
      exact ⟨rfl, .reload _ _⟩
  | _ => cases ho

namespace PollActs

variable {s s' : RwLock α} {o o' : Object}

/-- It is open to the future, whatever the others do. -/
theorem step (h : PollActs p i s o s' o') (hOdd : s.state % 2 = 1) :
    (machine p).step i (.go false) s o = some (s', o', []) := by
  cases h with
  | retry form state listener hBit hLow =>
    have hOther : s.state ≠ state := by
      rintro rfl
      omega
    have hExchange : s.compareExchange state (state + oneReader) = none := if_neg hOther
    simp [machine, RwLock.step, Read.poll, hBit, Nat.not_lt.mpr hLow, hExchange, readOutcome]
  | consume form state hBit hMark =>
    simp [machine, RwLock.step, Read.poll, hBit, hMark, readOutcome]
  | passOn | reload => rfl
  | listen form state hBit => simp [machine, RwLock.step, Read.poll, hBit, readOutcome]

theorem state_eq (h : PollActs p i s o s' o') : s'.state = s.state := by
  cases h <;> rfl

theorem alive (h : PollActs p i s o s' o') : ¬ o'.Aborted := by
  cases h <;> exact id

theorem polled (h : PollActs p i s o s' o') : o.polled = true := by
  cases h <;> rfl

theorem goesOn (h : PollActs p i s o s' o') (hOdd : s.state % 2 = 1) :
    o.goesOn p = true ∧ o'.goesOn p = true := by
  cases h with
  | retry _ _ _ _ hLow => exact ⟨decide_eq_true (.inr hLow), decide_eq_true (.inl hOdd)⟩
  | consume _ _ hBit => exact ⟨decide_eq_true (.inl hBit), rfl⟩
  | passOn => exact ⟨rfl, rfl⟩
  | reload => exact ⟨rfl, decide_eq_true (.inl hOdd)⟩
  | listen _ _ hBit => exact ⟨decide_eq_true (.inl hBit), rfl⟩

/-- Only the consumption of an entry puts the next look further off. -/
theorem pollsLeft (h : PollActs p i s o s' o') (hOdd : s.state % 2 = 1) :
    o'.pollsLeft < o.pollsLeft ∨ (o'.passesOn = true ∧ o'.pollsLeft ≤ 4) := by
  cases h with
  | retry _ _ listener hBit =>
    left
    cases listener <;> simp [Object.pollsLeft, hBit, hOdd]
  | consume => exact .inr ⟨rfl, le_rfl⟩
  | passOn => exact .inl (Nat.lt_succ_self 3)
  | reload _ listener =>
    left
    cases listener <;> simp [Object.pollsLeft, hOdd]
  | listen _ _ hBit =>
    left
    simp [Object.pollsLeft, hBit]

theorem owners (h : PollActs p i s o s' o') :
    ∀ j ∈ s'.noWriter.owners, j = i ∨ j ∈ s.noWriter.owners := by
  intro j hj
  cases h with
  | retry | reload => exact .inr hj
  | consume => exact .inr ((Event.mem_owners_remove _ _ _).mp hj).2
  | passOn => exact .inr (by simpa using hj)
  | listen => exact (List.mem_append.mp (by simpa using hj)).symm.imp List.mem_singleton.mp id

end PollActs

/-- A reader that can go on waits, is about to hand a notification on, or has an action that
touches no mark. -/
theorem pollActs_cases {o : Object} (h : o.goesOn p = true) (s : RwLock α) :
    o.ReaderParked ∨ o.passesOn = true ∨ ∃ s' o', PollActs p i s o s' o' ∧
      (s.noWriter.Notified → s'.noWriter.Notified) := by
  cases o with
  | read form f =>
    cases f with
    | unpolled => cases h
    | loop state listener =>
      rcases Nat.mod_two_eq_zero_or_one state with hBit | hBit
      · have hLow : state ≤ p.isizeMax := by
          have hEither : state % 2 = 1 ∨ state ≤ p.isizeMax := of_decide_eq_true h
          omega
        exact .inr (.inr ⟨_, _, .retry form state listener hBit hLow, id⟩)
      · cases listener with
        | true => exact .inl ⟨rfl, hBit⟩
        | false => exact .inr (.inr ⟨_, _, .listen form state hBit, fun hs => hs.listen i⟩)
    | passOn => exact .inr (.inl rfl)
    | reload listener => exact .inr (.inr ⟨_, _, .reload form listener, id⟩)
  | _ => cases h

/-! ## Runs of polls -/

variable {value : α} {s u t : State (RwLock α) Object}

theorem orderlyWriter_of_reaches (h : (machine p).Reaches (initial value) s)
    (hAlive : Alive Object.Aborted s) : s.mem.noWriter.Orderly := by
  apply Machine.invariant_alive (P := fun s => s.mem.noWriter.Orderly) aborted_stuck h hAlive
    Event.orderly_new
  intro s s' hPast hBefore hStep _ hs
  have hOwned := ownedWriter_of_reaches hPast hBefore
  rcases Machine.step_cases hStep with ⟨k, rfl⟩ | ⟨i, c, o, m, o', new, hGet, hAct, rfl⟩
  · exact hs
  · have hListens := hOwned.mem_owners_iff hGet
    cases step_acts hAct with
    | readListen => exact hs.listen (by rw [hListens]; exact nofun)
    | readConsume => exact hs.remove _
    | readPassOn | writeUnlockNotify | writeDowngraded => exact hs.notify
    | readCancelListener => exact hs.discard _
    | readFinish _ listener =>
      cases listener
      · exact hs
      · exact hs.discard _
    | writeFinish _ listener | writeUnlocked _ listener | upgradableFinish _ listener
    | writeWaits _ _ listener | writeAcquired _ _ listener => cases listener <;> exact hs
    | _ => exact hs

/-- What holds in the course of the polls that began in the state `s`. -/
structure Polling (p : Platform) (value : α) (s u : State (RwLock α) Object) : Prop where
  reaches : (machine p).Reaches (initial value) u
  alive : Alive Object.Aborted u
  odd : u.mem.state % 2 = 1
  same : ∀ j, goesOn p u j = goesOn p s j

theorem Polling.start (h : (machine p).Reaches (initial value) s)
    (hAlive : Alive Object.Aborted s) (hOdd : s.mem.state % 2 = 1) : Polling p value s s :=
  ⟨h, hAlive, hOdd, fun _ => rfl⟩

namespace Polling

theorem mem_owners_iff (h : Polling p value s u) {o : Object} (hGet : u.pool[i]? = some o) :
    i ∈ u.mem.noWriter.owners ↔ o.listensWriter = true :=
  (ownedWriter_of_reaches h.reaches h.alive).mem_owners_iff hGet

theorem orderly (h : Polling p value s u) : u.mem.noWriter.Orderly :=
  orderlyWriter_of_reaches h.reaches h.alive

theorem step (h : Polling p value s u) {o o' : Object} {m : RwLock α}
    (hGet : u.pool[i]? = some o) (hActs : PollActs p i u.mem o m o') :
    PollStep p u ⟨m, u.pool.set i o'⟩ ∧ Polling p value s ⟨m, u.pool.set i o'⟩ := by
  have hNext := Machine.next_act_of_step (M := machine p) hGet (hActs.step h.odd)
  have hAlive : Alive Object.Aborted ⟨m, u.pool.set i o' ++ []⟩ :=
    h.alive.act hActs.alive (List.forall_mem_nil _)
  rw [List.append_nil] at hNext hAlive
  obtain ⟨hOld, hNew⟩ := hActs.goesOn h.odd
  refine ⟨⟨⟨i, o, false, hGet, hActs.polled, hNext⟩, hAlive⟩,
    ⟨h.reaches.tail ⟨_, hNext⟩, hAlive, hActs.state_eq ▸ h.odd, fun j => ?_⟩⟩
  rw [← h.same j]
  by_cases hij : i = j
  · subst hij
    obtain ⟨hi, _⟩ := List.getElem?_eq_some_iff.mp hGet
    have hSelf : (u.pool.set i o')[i]? = some o' := List.getElem?_set_self hi
    rw [goesOn_of_get hGet, hOld, goesOn, hSelf, Option.any_some, hNew]
  · rw [goesOn, goesOn, List.getElem?_set_ne hij]

theorem goesOn_of_acts (h : Polling p value s u) {o o' : Object} {m : RwLock α}
    (hGet : u.pool[i]? = some o) (hActs : PollActs p i u.mem o m o') : goesOn p s i = true := by
  rw [← h.same i, goesOn_of_get hGet]
  exact (hActs.goesOn h.odd).1

theorem step_cases (h : Polling p value s u) (hStep : PollStep p u t) :
    Polling p value s t ∧ ∃ i o m o', u.pool[i]? = some o ∧ PollActs p i u.mem o m o' ∧
      t = ⟨m, u.pool.set i o'⟩ := by
  obtain ⟨⟨i, o, elapsed, hGet, hPolled, hNext⟩, hAlive⟩ := hStep
  obtain ⟨m, o', new, hAct, rfl⟩ := Machine.next_act_at hGet hNext
  have hMem : o' ∈ u.pool.set i o' ++ new :=
    List.mem_of_getElem? (get_act_self hGet o' new)
  obtain ⟨rfl, hActs⟩ := step_pollActs hAct hPolled h.odd (hAlive o' hMem)
  rw [List.append_nil]
  exact ⟨(h.step hGet hActs).2, i, o, m, o', hGet, hActs, rfl⟩

theorem of_run (h : Polling p value s u) (hRun : Relation.ReflTransGen (PollStep p) u t) :
    Polling p value s t := by
  induction hRun with
  | refl => exact h
  | tail _ hStep ih => exact (ih.step_cases hStep).1

end Polling

/-! ## The polls that come to an end -/

/-- A bound on the entries that may still be consumed, which each consumption lowers. -/
theorem no_infinite_run_of_potential (hStart : Polling p value s s)
    (P : State (RwLock α) Object → Prop) (potential : Event → Nat) (hs : P s)
    (hStep : ∀ u i o m o', Polling p value s u → P u → u.pool[i]? = some o →
      PollActs p i u.mem o m o' → P ⟨m, u.pool.set i o'⟩ ∧
        potential m.noWriter ≤ potential u.mem.noWriter ∧
        (o'.passesOn = true → potential m.noWriter < potential u.mem.noWriter)) :
    ¬ ∃ run : Nat → State (RwLock α) Object,
      run 0 = s ∧ ∀ n, PollStep p (run n) (run (n + 1)) := by
  apply no_infinite_run_of_measure (P := fun u => Polling p value s u ∧ P u)
    (fun u => 5 * potential u.mem.noWriter + census Object.pollsLeft u.pool) ?_ ⟨hStart, hs⟩
  rintro u t ⟨hu, hP⟩ hPoll
  obtain ⟨ht, i, o, m, o', hGet, hActs, rfl⟩ := hu.step_cases hPoll
  obtain ⟨hAfter, hLe, hLess⟩ := hStep u i o m o' hu hP hGet hActs
  obtain ⟨others, hBefore, hSet⟩ := exists_others hGet
  refine ⟨⟨ht, hAfter⟩, ?_⟩
  rw [hBefore, hSet]
  dsimp only
  rcases hActs.pollsLeft hu.odd with hFewer | ⟨hConsumed, hFew⟩
  · omega
  · have := hLess hConsumed
    omega

theorem takeWhile_append_of_mem {β : Type*} {f : β → Bool} {xs : List β} {x : β} (hx : x ∈ xs)
    (hf : f x = false) (ys : List β) : (xs ++ ys).takeWhile f = xs.takeWhile f := by
  induction xs with
  | nil => cases hx
  | cons y xs ih =>
    rw [List.cons_append, List.takeWhile_cons, List.takeWhile_cons]
    split
    · rename_i hy
      rcases List.mem_cons.mp hx with rfl | hx
      · rw [hf] at hy
        cases hy
      · rw [ih hx]
    · rfl

/-- The notification does not get past an entry that nobody polls for. -/
theorem ends_of_idle_entry (hStart : Polling p value s s) {d : Nat}
    (hd : d ∈ s.mem.noWriter.owners) (hIdle : goesOn p s d = false) :
    ¬ ∃ run : Nat → State (RwLock α) Object,
      run 0 = s ∧ ∀ n, PollStep p (run n) (run (n + 1)) := by
  apply no_infinite_run_of_potential hStart (fun u => d ∈ u.mem.noWriter.owners)
    (fun q => (q.owners.takeWhile (goesOn p s)).length) hd
  intro u i o m o' hu hd hGet hActs
  have hOn := hu.goesOn_of_acts hGet hActs
  cases hActs with
  | retry | reload => exact ⟨hd, le_rfl, nofun⟩
  | consume form state hBit hMark =>
    have hNe : d ≠ i := by
      rintro rfl
      rw [hIdle] at hOn
      cases hOn
    obtain ⟨rest, hOwners, hRest, _⟩ := hu.orderly.front hMark
    have hLess : ((u.mem.noWriter.remove i).owners.takeWhile (goesOn p s)).length <
        (u.mem.noWriter.owners.takeWhile (goesOn p s)).length := by
      rw [hOwners, hRest, List.takeWhile_cons_of_pos hOn, List.length_cons]
      exact Nat.lt_succ_self _
    exact ⟨by simpa [hNe] using hd, hLess.le, fun _ => hLess⟩
  | passOn => exact ⟨by simpa using hd, by simp, nofun⟩
  | listen => exact ⟨by simp [hd], by simp [takeWhile_append_of_mem hd hIdle], nofun⟩

open Classical in
/-- A single reader has nobody to hand the notification to. -/
theorem ends_of_single (hStart : Polling p value s s) {a : Nat}
    (hEntries : ∀ j ∈ s.mem.noWriter.owners, j = a) (hOnly : ∀ j, goesOn p s j = true → j = a) :
    ¬ ∃ run : Nat → State (RwLock α) Object,
      run 0 = s ∧ ∀ n, PollStep p (run n) (run (n + 1)) := by
  apply no_infinite_run_of_potential hStart (fun u => ∀ j ∈ u.mem.noWriter.owners, j = a)
    (fun q => if q.Notified then 1 else 0) hEntries
  intro u i o m o' hu hEntries hGet hActs
  obtain rfl : i = a := hOnly i (hu.goesOn_of_acts hGet hActs)
  cases hActs with
  | retry | reload => exact ⟨hEntries, le_rfl, nofun⟩
  | consume form state hBit hMark =>
    obtain ⟨rest, hOwners, hRest, hUnmarked⟩ := hu.orderly.front hMark
    refine ⟨fun j hj => hEntries j (by simpa using And.right (by simpa using hj)), ?_⟩
    simp [Event.notified_of_markOf hMark, hUnmarked]
  | passOn form =>
    have hNone : u.mem.noWriter.owners = [] := by
      apply List.eq_nil_iff_forall_not_mem.mpr
      intro j hj
      obtain rfl := hEntries j hj
      exact nomatch (hu.mem_owners_iff hGet).mp hj
    have hAfter : (u.mem.noWriter.notify 1).owners = [] := by simpa using hNone
    refine ⟨by simp [hNone], ?_, nofun⟩
    simp [Event.not_notified_of_owners hAfter]
  | listen form state =>
    have hSame : (u.mem.noWriter.listen i).Notified ↔ u.mem.noWriter.Notified :=
      ⟨Event.Notified.of_listen, fun h => h.listen i⟩
    exact ⟨by simpa [or_imp, forall_and] using hEntries, by simp [hSame], nofun⟩

/-- Without a notification each reader goes to sleep. -/
theorem ends_of_not_carried (hStart : Polling p value s s) (h : ¬ Carried s) :
    ¬ ∃ run : Nat → State (RwLock α) Object,
      run 0 = s ∧ ∀ n, PollStep p (run n) (run (n + 1)) := by
  apply no_infinite_run_of_potential hStart (fun u => ¬ Carried u) (fun _ => 0) h
  intro u i o m o' hu hNone hGet hActs
  have hOther (ho' : o'.passesOn = false) (hMarks : m.noWriter.Notified →
      u.mem.noWriter.Notified) : ¬ Carried ⟨m, u.pool.set i o'⟩ := by
    rintro (hNotified | ⟨q, hq, hPasses⟩)
    · exact hNone (.inl (hMarks hNotified))
    · rcases List.mem_or_eq_of_mem_set hq with hOld | rfl
      · exact hNone (.inr ⟨q, hOld, hPasses⟩)
      · rw [ho'] at hPasses
        cases hPasses
  cases hActs with
  | retry | reload => exact ⟨hOther rfl id, le_rfl, nofun⟩
  | consume form state hBit hMark =>
    exact absurd (.inl (Event.notified_of_markOf hMark)) hNone
  | passOn form => exact absurd (.inr ⟨_, List.mem_of_getElem? hGet, rfl⟩) hNone
  | listen => exact ⟨hOther rfl Event.Notified.of_listen, le_rfl, nofun⟩

theorem ends_of_not_spins (hStart : Polling p value s s) (h : ¬ Spins p s) :
    ¬ ∃ run : Nat → State (RwLock α) Object,
      run 0 = s ∧ ∀ n, PollStep p (run n) (run (n + 1)) := by
  by_cases hCarried : Carried s
  · by_cases hAll : ∀ i ∈ s.mem.noWriter.owners, goesOn p s i = true
    · have hFew : ¬ 2 ≤ census (fun o => (o.goesOn p).toNat) s.pool :=
        fun hTwo => h ⟨hCarried, hTwo, hAll⟩
      have hOne (i j : Nat) (hi : goesOn p s i = true) (hj : goesOn p s j = true) : j = i := by
        by_contra hji
        obtain ⟨o, ho, hOn⟩ := (Option.any_eq_true _ _).mp hi
        obtain ⟨q, hq, hOn'⟩ := (Option.any_eq_true _ _).mp hj
        have hTwo := add_le_census (fun o => (Object.goesOn p o).toNat) hji hq ho
        rw [hOn, hOn'] at hTwo
        exact hFew hTwo
      by_cases hSome : ∃ a, goesOn p s a = true
      · obtain ⟨a, ha⟩ := hSome
        exact ends_of_single hStart (fun j hj => hOne a j ha (hAll j hj)) fun j => hOne a j ha
      · rintro ⟨run, rfl, hRun⟩
        obtain ⟨_, i, o, m, o', hGet, hActs, _⟩ := hStart.step_cases (hRun 0)
        exact hSome ⟨i, hStart.goesOn_of_acts hGet hActs⟩
    · simp only [not_forall, Bool.not_eq_true] at hAll
      obtain ⟨d, hd, hIdle⟩ := hAll
      exact ends_of_idle_entry hStart hd hIdle
  · exact ends_of_not_carried hStart hCarried

/-! ## The polls that do not -/

theorem carried_of_beside {j : Nat} {o o' : Object} {m : RwLock α} (hGet : u.pool[j]? = some o)
    (hCarrier : o.passesOn = true) (hji : j ≠ i) : Carried ⟨m, u.pool.set i o'⟩ := by
  refine .inr ⟨o, List.mem_of_getElem? (i := j) ?_, hCarrier⟩
  rwa [List.getElem?_set_ne hji.symm]

/-- A step of a reader between its two looks at the listener loses nothing. -/
theorem Carried.pass {o o' : Object} {m : RwLock α} (h : Carried u) (hGet : u.pool[i]? = some o)
    (hPasses : o.passesOn = false) (hMarks : u.mem.noWriter.Notified → m.noWriter.Notified) :
    Carried ⟨m, u.pool.set i o'⟩ := by
  rcases h with hNotified | ⟨q, hq, hCarrier⟩
  · exact .inl (hMarks hNotified)
  · obtain ⟨j, hj⟩ := List.getElem?_of_mem hq
    refine carried_of_beside hj hCarrier ?_
    rintro rfl
    cases hGet.symm.trans hj
    rw [hPasses] at hCarrier
    cases hCarrier

/-- The notification is lost by one step alone, that of the only reader that carries it when nobody
is queued, and another step can be taken instead. -/
theorem Spins.exists_step (hu : Polling p value s u) (h : Spins p u) :
    ∃ i o m o', u.pool[i]? = some o ∧ PollActs p i u.mem o m o' ∧
      Carried ⟨m, u.pool.set i o'⟩ := by
  obtain ⟨hCarried, hTwo, hAll⟩ := h
  by_cases hMid : ∃ i o, u.pool[i]? = some o ∧ o.passesOn = false ∧
      ∃ m o', PollActs p i u.mem o m o' ∧ (u.mem.noWriter.Notified → m.noWriter.Notified)
  · obtain ⟨i, o, hGet, hPasses, m, o', hActs, hMarks⟩ := hMid
    exact ⟨i, o, m, o', hGet, hActs, hCarried.pass hGet hPasses hMarks⟩
  -- otherwise each reader that can go on waits in the queue or carries a notification
  have hStill (i : Nat) (o : Object) (hGet : u.pool[i]? = some o) (hOn : o.goesOn p = true) :
      o.ReaderParked ∨ o.passesOn = true := by
    rcases pollActs_cases (i := i) hOn u.mem with hParked | hPasses | hActs
    · exact .inl hParked
    · exact .inr hPasses
    · by_contra hNeither
      rw [not_or, Bool.not_eq_true] at hNeither
      exact hMid ⟨i, o, hGet, hNeither.2, hActs⟩
  by_cases hNotified : u.mem.noWriter.Notified
  · obtain ⟨i, hMark⟩ := hNotified.exists_markOf
    have hQueued := Event.mem_owners_of_markOf hMark
    obtain ⟨o, hGet, hOn⟩ := (Option.any_eq_true _ _).mp (hAll i hQueued)
    have hListens := (hu.mem_owners_iff hGet).mp hQueued
    rcases hStill i o hGet hOn with hParked | hPasses
    · obtain ⟨form, state, rfl, hBit⟩ := o.readerParked_iff.mp hParked
      refine ⟨i, _, _, _, hGet, .consume form state hBit hMark, .inr ⟨.read form .passOn, ?_, rfl⟩⟩
      exact List.mem_set (List.getElem?_eq_some_iff.mp hGet).1 _
    · obtain ⟨form, rfl⟩ := Object.exists_of_passesOn hPasses
      cases hListens
  · obtain ⟨o, ho, hCarrier⟩ := hCarried.resolve_left hNotified
    obtain ⟨j, hGet⟩ := List.getElem?_of_mem ho
    obtain ⟨form, rfl⟩ := Object.exists_of_passesOn hCarrier
    by_cases hEmpty : u.mem.noWriter.owners = []
    · obtain ⟨k, q, hkj, hq, hPos⟩ := exists_beside hGet
        (f := fun o => (o.goesOn p).toNat) (by exact hTwo)
      have hOn : q.goesOn p = true := by simpa [Nat.pos_iff_ne_zero] using hPos
      rcases hStill k q hq hOn with hParked | hPasses
      · obtain ⟨form', state, rfl, hBit⟩ := q.readerParked_iff.mp hParked
        have hQueued := (hu.mem_owners_iff hq).mpr rfl
        rw [hEmpty] at hQueued
        cases hQueued
      · obtain ⟨form', rfl⟩ := Object.exists_of_passesOn hPasses
        exact ⟨k, _, _, _, hq, .passOn form', carried_of_beside hGet rfl hkj.symm⟩
    · exact ⟨j, _, _, _, hGet, .passOn form, .inl (Event.notified_notify _ Nat.one_pos hEmpty)⟩

theorem Spins.step (hu : Polling p value s u) (h : Spins p u) :
    ∃ t, PollStep p u t ∧ Polling p value s t ∧ Spins p t := by
  obtain ⟨i, o, m, o', hGet, hActs, hCarried⟩ := h.exists_step hu
  obtain ⟨hPoll, ht⟩ := hu.step hGet hActs
  obtain ⟨_, hTwo, hAll⟩ := h
  obtain ⟨hOn, hOn'⟩ := hActs.goesOn hu.odd
  refine ⟨_, hPoll, ht, hCarried, ?_, fun j hj => ?_⟩
  · obtain ⟨others, hBefore, hSet⟩ := exists_others hGet
    rw [hBefore, hOn] at hTwo
    rwa [hSet, hOn']
  · rw [ht.same j, ← hu.same j]
    rcases hActs.owners j hj with rfl | hOld
    · rw [goesOn_of_get hGet, hOn]
    · exact hAll j hOld

theorem spins_forever (hStart : Polling p value s s) (h : Spins p s) :
    ∃ run : Nat → State (RwLock α) Object,
      run 0 = s ∧ ∀ n, PollStep p (run n) (run (n + 1)) := by
  refine infinite_run_of_recurring (P := fun u => Polling p value s u ∧ Spins p u) ?_ ⟨hStart, h⟩
  rintro u ⟨hu, hSpins⟩
  obtain ⟨t, hPoll, ht⟩ := hSpins.step hu
  exact ⟨t, .single hPoll, ht⟩

theorem unmarked_at_rest (ht : Polling p value s t) (hEnd : ∀ u, ¬ PollStep p t u)
    (hWaits : waits t i = true) : t.mem.noWriter.markOf i = none := by
  by_contra hMark
  have hMarked := Option.isSome_iff_ne_none.mpr hMark
  obtain ⟨form, state, hGet, hBit⟩ := (waits_iff t i).mp hWaits
  exact hEnd _ (ht.step hGet (.consume form state hBit hMarked)).1

/-- While the writer bit is set, the polls of the readers come to an end unless a notification is
there, two readers or more can hand it on and each entry is of one of them. -/
theorem readers_rest_iff (h : (machine p).Reaches (initial value) s)
    (hAlive : Alive Object.Aborted s) (hBit : BitSet s) : Rests p s ↔ ¬ Spins p s := by
  have hStart := Polling.start h hAlive ((bitSet_iff s).mp hBit)
  constructor
  · intro hRests hSpins
    exact hRests.1 (spins_forever hStart hSpins)
  · intro hSpins
    refine ⟨ends_of_not_spins hStart hSpins, fun t hRun hEnd i hWaits => ?_⟩
    exact unmarked_at_rest (hStart.of_run hRun) hEnd hWaits

def queueReader (i : Nat) : List (Action Call (Choice Nat)) :=
  .call .read :: List.replicate 3 (.act i (.go false))

/-- The first writer leaves and another one comes before any reader has been polled. -/
def nextWriter (i : Nat) : List (Action Call (Choice Nat)) :=
  .act 0 .drop :: List.replicate 4 (.act 0 (.go false)) ++
    [.call .tryWrite, .act i (.go false), .act i (.go false)]

def firstWriter : List (Action Call (Choice Nat)) :=
  [.call .tryWrite, .act 0 (.go false), .act 0 (.go false)]

def oneBehind : State (RwLock Nat) Object :=
  ⟨⟨⟨1, Event.new⟩, Event.new, ⟨[⟨1, some .single⟩]⟩, 1, 7⟩,
    [.gone, .read ⟨false, false⟩ (.loop 1 true), .writeGuard false 2]⟩

def twoBehind : State (RwLock Nat) Object :=
  ⟨⟨⟨1, Event.new⟩, Event.new, ⟨[⟨1, some .single⟩, ⟨2, none⟩]⟩, 1, 7⟩,
    [.gone, .read ⟨false, false⟩ (.loop 1 true), .read ⟨false, false⟩ (.loop 1 true),
      .writeGuard false 3]⟩

theorem readers_rest_iff_oneBehind : Rests platform64 oneBehind :=
  (readers_rest_iff (Machine.reaches_of_run _ (firstWriter ++ queueReader 1 ++ nextWriter 2)
    (initial 7) oneBehind (by decide +kernel)) (by simp [Alive, oneBehind, Object.Aborted])
    (by decide)).mpr (by decide)

/-- Two readers hand the notification to each other while the second writer holds the lock. -/
theorem twoBehind_spins : (machine platform64).Reaches (initial 7) twoBehind ∧
    BitSet twoBehind ∧ ∃ run : Nat → State (RwLock Nat) Object,
      run 0 = twoBehind ∧ ∀ n, PollStep platform64 (run n) (run (n + 1)) := by
  have hReaches : (machine platform64).Reaches (initial 7) twoBehind :=
    Machine.reaches_of_run _ (firstWriter ++ queueReader 1 ++ queueReader 2 ++ nextWriter 3)
      (initial 7) twoBehind (by decide +kernel)
  have hStart := Polling.start hReaches (by simp [Alive, twoBehind, Object.Aborted]) rfl
  exact ⟨hReaches, by decide, spins_forever hStart (by decide)⟩

end AsyncLock.RwLock
