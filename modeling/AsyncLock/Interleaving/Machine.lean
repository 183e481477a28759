import Mathlib.Logic.Relation
import Mathlib.Data.List.Induction
import Mathlib.Data.List.Perm.Basic

/-! # Pools of objects over one shared memory

A machine has a shared memory and a pool of objects (calls in progress, futures, guards).
One step is one atomic action of one object, or the creation of an object by a new call, so
a run is an arbitrary interleaving of any number of objects. An object is named by its
position in the pool: positions are never reused, and a step may append further objects.
-/
namespace AsyncLock.Interleaving
set_option autoImplicit false

variable {σ ω κ χ : Type*}

theorem get_of_append {pool : List ω} {o q : ω} {i : Nat} (h : (pool ++ [o])[i]? = some q) :
    pool[i]? = some q ∨ (i = pool.length ∧ q = o) := by
  rcases Nat.lt_trichotomy i pool.length with hi | rfl | hi
  · exact .inl (by rwa [List.getElem?_append_left hi] at h)
  · exact .inr ⟨rfl, by simpa using h.symm⟩
  · rw [List.getElem?_eq_none (by simp; omega)] at h
    cases h

theorem get_of_set {pool : List ω} {o q : ω} {i j : Nat} (h : (pool.set i o)[j]? = some q) :
    (j = i ∧ q = o) ∨ (j ≠ i ∧ pool[j]? = some q) := by
  by_cases hij : i = j
  · subst hij
    have hi : i < pool.length := by simpa using (List.getElem?_eq_some_iff.mp h).1
    rw [List.getElem?_set_self hi] at h
    exact .inl ⟨rfl, (Option.some.inj h).symm⟩
  · rw [List.getElem?_set_ne hij] at h
    exact .inr ⟨Ne.symm hij, h⟩

/-- Who an object is after an action: the one that has acted, another one, or a new one. -/
theorem get_of_act {pool new : List ω} {o q : ω} {i j : Nat}
    (h : (pool.set i o ++ new)[j]? = some q) :
    (j = i ∧ q = o) ∨ (j ≠ i ∧ pool[j]? = some q) ∨ (pool.length ≤ j ∧ q ∈ new) := by
  rcases Nat.lt_or_ge j (pool.set i o).length with hj | hj
  · rw [List.getElem?_append_left hj] at h
    exact (get_of_set h).imp_right .inl
  · rw [List.getElem?_append_right hj] at h
    rw [List.length_set] at hj
    exact .inr (.inr ⟨hj, List.mem_of_getElem? h⟩)

theorem mem_of_act {pool new : List ω} {o q : ω} {i : Nat} (h : q ∈ pool.set i o ++ new) :
    q ∈ pool ∨ q = o ∨ q ∈ new := by
  rcases List.mem_append.mp h with hSet | hNew
  · exact (List.mem_or_eq_of_mem_set hSet).imp_right .inl
  · exact .inr (.inr hNew)

theorem get_act_self {pool : List ω} {o : ω} {i : Nat} (hGet : pool[i]? = some o) (o' : ω)
    (new : List ω) : (pool.set i o' ++ new)[i]? = some o' := by
  obtain ⟨hi, _⟩ := List.getElem?_eq_some_iff.mp hGet
  rw [List.getElem?_append_left (by simpa using hi), List.getElem?_set_self hi]

theorem get_act_other {pool : List ω} {q : ω} {i j : Nat} (hGet : pool[j]? = some q)
    (hji : j ≠ i) (o' : ω) (new : List ω) : (pool.set i o' ++ new)[j]? = some q := by
  obtain ⟨hj, _⟩ := List.getElem?_eq_some_iff.mp hGet
  rw [List.getElem?_append_left (by simpa using hj), List.getElem?_set_ne (Ne.symm hji), hGet]

/-- `create` is the object of a new call, `step` one atomic action of the object at a position:
the memory after it, what the object has become and the objects it has brought into being. -/
structure Machine (σ ω κ χ : Type*) where
  create : σ → κ → ω
  step : Nat → χ → σ → ω → Option (σ × ω × List ω)

structure State (σ ω : Type*) where
  mem : σ
  pool : List ω
deriving DecidableEq

inductive Action (κ χ : Type*) where
  | call (k : κ)
  | act (i : Nat) (c : χ)
deriving DecidableEq

namespace Machine

def next (M : Machine σ ω κ χ) (s : State σ ω) : Action κ χ → Option (State σ ω)
  | .call k => some ⟨s.mem, s.pool ++ [M.create s.mem k]⟩
  | .act i c => (s.pool[i]?).bind fun o =>
    (M.step i c s.mem o).map fun r => ⟨r.1, s.pool.set i r.2.1 ++ r.2.2⟩

def run (M : Machine σ ω κ χ) : State σ ω → List (Action κ χ) → Option (State σ ω)
  | s, [] => some s
  | s, a :: rest => (M.next s a).bind fun s' => M.run s' rest

theorem run_append (M : Machine σ ω κ χ) (xs ys : List (Action κ χ)) (s : State σ ω) :
    M.run s (xs ++ ys) = (M.run s xs).bind fun t => M.run t ys := by
  induction xs generalizing s with
  | nil => rfl
  | cons a xs ih =>
    simp only [List.cons_append, run, Option.bind_assoc]
    exact congrArg _ (funext fun t => ih t)

def Step (M : Machine σ ω κ χ) (s s' : State σ ω) : Prop := ∃ a, M.next s a = some s'

def Reaches (M : Machine σ ω κ χ) : State σ ω → State σ ω → Prop := Relation.ReflTransGen M.Step

theorem reaches_of_run (M : Machine σ ω κ χ) (acts : List (Action κ χ)) (s s' : State σ ω)
    (h : M.run s acts = some s') : M.Reaches s s' := by
  induction acts generalizing s with
  | nil => cases h; exact .refl
  | cons a rest ih =>
    obtain ⟨t, hNext, hRest⟩ := Option.bind_eq_some_iff.mp h
    exact .head ⟨a, hNext⟩ (ih t hRest)

theorem next_act {M : Machine σ ω κ χ} {s s' : State σ ω} {i : Nat} {c : χ}
    (h : M.next s (.act i c) = some s') :
    ∃ o mem o' new, s.pool[i]? = some o ∧ M.step i c s.mem o = some (mem, o', new) ∧
      s' = ⟨mem, s.pool.set i o' ++ new⟩ := by
  obtain ⟨o, hGet, hRest⟩ := Option.bind_eq_some_iff.mp h
  obtain ⟨⟨mem, o', new⟩, hStep, hResult⟩ := Option.map_eq_some_iff.mp hRest
  exact ⟨o, mem, o', new, hGet, hStep, hResult.symm⟩

theorem next_act_at {M : Machine σ ω κ χ} {s s' : State σ ω} {i : Nat} {c : χ} {o : ω}
    (hGet : s.pool[i]? = some o) (h : M.next s (.act i c) = some s') :
    ∃ mem o' new, M.step i c s.mem o = some (mem, o', new) ∧
      s' = ⟨mem, s.pool.set i o' ++ new⟩ := by
  obtain ⟨q, mem, o', new, hGet', hStep, hEq⟩ := next_act h
  cases hGet.symm.trans hGet'
  exact ⟨mem, o', new, hStep, hEq⟩

theorem next_act_of_step {M : Machine σ ω κ χ} {s : State σ ω} {i : Nat} {c : χ} {o o' : ω}
    {mem : σ} {new : List ω} (hGet : s.pool[i]? = some o)
    (hStep : M.step i c s.mem o = some (mem, o', new)) :
    M.next s (.act i c) = some ⟨mem, s.pool.set i o' ++ new⟩ := by
  simp [next, hGet, hStep]

/-- A run that begins with an action of one object and goes on with further ones of it. -/
theorem exists_run_cons {M : Machine σ ω κ χ} {s : State σ ω} {i : Nat} {c : χ} {o o' : ω}
    {mem : σ} {rest : List (Action κ χ)} {Q : State σ ω → Prop} (hGet : s.pool[i]? = some o)
    (hStep : M.step i c s.mem o = some (mem, o', []))
    (hRest : ∀ u : State σ ω, u.mem = mem → u.pool[i]? = some o' →
      ∃ t, M.run u rest = some t ∧ Q t) :
    ∃ t, M.run s (.act i c :: rest) = some t ∧ Q t := by
  rw [run, next_act_of_step hGet hStep]
  exact hRest _ rfl (get_act_self hGet o' [])

theorem step_cases {M : Machine σ ω κ χ} {s s' : State σ ω} (h : M.Step s s') :
    (∃ k, s' = ⟨s.mem, s.pool ++ [M.create s.mem k]⟩) ∨
    (∃ i c o mem o' new, s.pool[i]? = some o ∧ M.step i c s.mem o = some (mem, o', new) ∧
      s' = ⟨mem, s.pool.set i o' ++ new⟩) := by
  obtain ⟨a, ha⟩ := h
  cases a with
  | call k => exact .inl ⟨k, (Option.some.inj ha).symm⟩
  | act i c =>
    obtain ⟨o, mem, o', new, hGet, hStep, hEq⟩ := next_act ha
    exact .inr ⟨i, c, o, mem, o', new, hGet, hStep, hEq⟩

/-- Every action of a run meets a condition in the state in which it is taken. -/
def Along (M : Machine σ ω κ χ) (ok : State σ ω → Action κ χ → Prop) :
    State σ ω → List (Action κ χ) → Prop
  | _, [] => True
  | s, a :: rest => ok s a ∧
    match M.next s a with
    | some s' => M.Along ok s' rest
    | none => True

instance decidableAlong (M : Machine σ ω κ χ) (ok : State σ ω → Action κ χ → Prop)
    [∀ s a, Decidable (ok s a)] : ∀ s acts, Decidable (M.Along ok s acts)
  | _, [] => inferInstanceAs (Decidable True)
  | s, a :: rest =>
    match h : M.next s a with
    | some s' =>
      have := decidableAlong M ok s' rest
      decidable_of_iff (ok s a ∧ M.Along ok s' rest) (by simp [Along, h])
    | none => decidable_of_iff (ok s a) (by simp [Along, h])

theorem Along.mono {M : Machine σ ω κ χ} {ok ok' : State σ ω → Action κ χ → Prop}
    (hMono : ∀ s a, ok s a → ok' s a) {acts : List (Action κ χ)} {s : State σ ω}
    (h : M.Along ok s acts) : M.Along ok' s acts := by
  induction acts generalizing s with
  | nil => trivial
  | cons a rest ih =>
    refine ⟨hMono s a h.1, ?_⟩
    have hRest := h.2
    split
    · rename_i s' hNext
      rw [hNext] at hRest
      exact ih hRest
    · trivial

theorem along_of_forall {M : Machine σ ω κ χ} {ok : Action κ χ → Prop} {acts : List (Action κ χ)}
    {s : State σ ω} (h : ∀ a ∈ acts, ok a) : M.Along (fun _ a => ok a) s acts := by
  induction acts generalizing s with
  | nil => trivial
  | cons a rest ih =>
    refine ⟨h a List.mem_cons_self, ?_⟩
    split
    · exact ih fun b hb => h b (List.mem_cons_of_mem a hb)
    · trivial

/-- A condition that an invariant of the state and of the actions to come implies. -/
theorem along_of_invariant {M : Machine σ ω κ χ} {ok : State σ ω → Action κ χ → Prop}
    {P : State σ ω → List (Action κ χ) → Prop} (hOk : ∀ s a rest, P s (a :: rest) → ok s a)
    (hStep : ∀ s a rest s', P s (a :: rest) → M.next s a = some s' → P s' rest)
    {acts : List (Action κ χ)} {s : State σ ω} (hs : P s acts) : M.Along ok s acts := by
  induction acts generalizing s with
  | nil => trivial
  | cons a rest ih =>
    refine ⟨hOk s a rest hs, ?_⟩
    split
    · rename_i s' hNext
      exact ih (hStep s a rest s' hs hNext)
    · trivial

/-- Two conditions that agree as long as the run has met one of them. -/
theorem along_iff {M : Machine σ ω κ χ} {ok ok' : State σ ω → Action κ χ → Prop}
    {P : State σ ω → List (Action κ χ) → Prop}
    (hIff : ∀ s a rest, P s (a :: rest) → (ok s a ↔ ok' s a))
    (hStep : ∀ s a rest s', P s (a :: rest) → ok' s a → M.next s a = some s' → P s' rest)
    {acts : List (Action κ χ)} {s : State σ ω} (hs : P s acts) :
    M.Along ok s acts ↔ M.Along ok' s acts := by
  induction acts generalizing s with
  | nil => rfl
  | cons a rest ih =>
    rw [Along, Along, hIff s a rest hs]
    apply and_congr_right
    intro hOk
    cases hNext : M.next s a with
    | none => rfl
    | some s' => exact ih (hStep s a rest s' hs hOk hNext)

theorem invariant {M : Machine σ ω κ χ} {P : State σ ω → Prop} {s₀ s : State σ ω}
    (h : M.Reaches s₀ s) (h₀ : P s₀)
    (hStep : ∀ s s', M.Reaches s₀ s → M.Step s s' → P s → P s') : P s := by
  induction h with
  | refl => exact h₀
  | tail hPast hLast ih => exact hStep _ _ hPast hLast ih

theorem invariant_along {M : Machine σ ω κ χ} {ok : State σ ω → Action κ χ → Prop}
    {P : State σ ω → Prop} {acts : List (Action κ χ)} {s₀ s : State σ ω}
    (h : M.run s₀ acts = some s) (hAlong : M.Along ok s₀ acts) (h₀ : P s₀)
    (hStep : ∀ s a s', M.Reaches s₀ s → ok s a → M.next s a = some s' → P s → P s') : P s := by
  suffices hGeneral : ∀ t, M.Reaches s₀ t → M.run t acts = some s → M.Along ok t acts →
      P t → P s from hGeneral s₀ .refl h hAlong h₀
  clear h hAlong h₀
  induction acts with
  | nil =>
    intro t _ hRun _ ht
    cases hRun
    exact ht
  | cons a rest ih =>
    intro t hPast hRun hAlong ht
    obtain ⟨t', hNext, hRest⟩ := Option.bind_eq_some_iff.mp hRun
    simp only [Along, hNext] at hAlong
    exact ih t' (hPast.tail ⟨a, hNext⟩) hRest hAlong.2 (hStep t a t' hPast hAlong.1 hNext ht)

/-- A property of an object and its position that it has from its creation and keeps. -/
theorem forall_at_of_reaches {M : Machine σ ω κ χ} {P : Nat → ω → Prop} {s₀ s : State σ ω}
    (h : M.Reaches s₀ s) (h₀ : ∀ i o, s₀.pool[i]? = some o → P i o)
    (hCreate : ∀ i m k, P i (M.create m k))
    (hStep : ∀ i c m o m' o' new, M.step i c m o = some (m', o', new) → P i o →
      P i o' ∧ ∀ j, ∀ n ∈ new, P j n) : ∀ i o, s.pool[i]? = some o → P i o := by
  refine invariant (P := fun s => ∀ i o, s.pool[i]? = some o → P i o) h h₀ ?_
  intro s s' _ hNext hs i o ho
  rcases step_cases hNext with ⟨k, rfl⟩ | ⟨j, c, p, mem, p', new, hGet, hAct, rfl⟩
  · rcases get_of_append ho with hOld | ⟨_, rfl⟩
    · exact hs i o hOld
    · exact hCreate i s.mem k
  · obtain ⟨hSelf, hNew⟩ := hStep _ _ _ _ _ _ _ hAct (hs j p hGet)
    rcases get_of_act ho with ⟨rfl, rfl⟩ | ⟨_, hOld⟩ | ⟨_, hMem⟩
    · exact hSelf
    · exact hs i o hOld
    · exact hNew i o hMem

theorem forall_of_reaches {M : Machine σ ω κ χ} {P : ω → Prop} {s₀ s : State σ ω}
    (h : M.Reaches s₀ s) (h₀ : ∀ o ∈ s₀.pool, P o) (hCreate : ∀ m k, P (M.create m k))
    (hStep : ∀ i c m o m' o' new, M.step i c m o = some (m', o', new) → P o →
      P o' ∧ ∀ n ∈ new, P n) : ∀ o ∈ s.pool, P o := by
  intro o ho
  obtain ⟨i, hGet⟩ := List.getElem?_of_mem ho
  refine forall_at_of_reaches (P := fun _ o => P o) h
    (fun i o h => h₀ o (List.mem_of_getElem? h)) (fun _ m k => hCreate m k) ?_ i o hGet
  intro i c m o m' o' new hAct ho
  obtain ⟨hSelf, hNew⟩ := hStep i c m o m' o' new hAct ho
  exact ⟨hSelf, fun _ => hNew⟩

theorem get_of_step {M : Machine σ ω κ χ} {s s' : State σ ω} (h : M.Step s s') {i : Nat} {o : ω}
    (hGet : s.pool[i]? = some o) : s'.pool[i]? = some o ∨
      ∃ c m o' new, M.step i c s.mem o = some (m, o', new) ∧ s'.pool[i]? = some o' := by
  rcases step_cases h with ⟨k, rfl⟩ | ⟨j, c, p, mem, p', new, hGet', hAct, rfl⟩
  · obtain ⟨hi, _⟩ := List.getElem?_eq_some_iff.mp hGet
    exact .inl (by rw [List.getElem?_append_left hi, hGet])
  · by_cases hij : i = j
    · subst hij
      rw [hGet'] at hGet
      cases hGet
      exact .inr ⟨c, mem, p', new, hAct, get_act_self hGet' p' new⟩
    · exact .inl (get_act_other hGet hij p' new)

/-- The last action of object `i` along a run, with the state in which it was taken. -/
def ActedLast (M : Machine σ ω κ χ) (s₀ : State σ ω) (acts : List (Action κ χ)) (i : Nat)
    (ok : State σ ω → χ → Prop) : Prop :=
  ∃ before c after u, acts = before ++ .act i c :: after ∧ M.run s₀ before = some u ∧ ok u c ∧
    ∀ c', .act i c' ∉ after

theorem ActedLast.mono {M : Machine σ ω κ χ} {s₀ : State σ ω} {acts : List (Action κ χ)}
    {i : Nat} {ok ok' : State σ ω → χ → Prop} (h : M.ActedLast s₀ acts i ok)
    (hMono : ∀ u c, ok u c → ok' u c) : M.ActedLast s₀ acts i ok' := by
  obtain ⟨before, c, after, u, hActs, hRun, hOk, hAfter⟩ := h
  exact ⟨before, c, after, u, hActs, hRun, hMono u c hOk, hAfter⟩

/-- An object that is no longer as it came into being owes it to its last action. -/
theorem actedLast_of_run {M : Machine σ ω κ χ} {P : ω → Prop} {s₀ s : State σ ω}
    (h₀ : ∀ o ∈ s₀.pool, ¬ P o) (hCreate : ∀ m k, ¬ P (M.create m k))
    (hNew : ∀ i c m o m' o' new, M.step i c m o = some (m', o', new) → ∀ n ∈ new, ¬ P n)
    {acts : List (Action κ χ)} (h : M.run s₀ acts = some s) {i : Nat} {o : ω}
    (hGet : s.pool[i]? = some o) (ho : P o) : M.ActedLast s₀ acts i fun u c =>
      ∃ q m new, u.pool[i]? = some q ∧ M.step i c u.mem q = some (m, o, new) := by
  induction acts using List.reverseRecOn generalizing s with
  | nil =>
    cases h
    exact absurd ho (h₀ o (List.mem_of_getElem? hGet))
  | append_singleton acts a ih =>
    rw [run_append] at h
    obtain ⟨u, hRun, hLast⟩ := Option.bind_eq_some_iff.mp h
    obtain ⟨s', hNext, hEnd⟩ := Option.bind_eq_some_iff.mp hLast
    cases hEnd
    -- either this was the action of the object, or the object was there before it
    have hEarlier (hBefore : u.pool[i]? = some o) (hOther : ∀ c', a ≠ .act i c') :
        M.ActedLast s₀ (acts ++ [a]) i fun u c =>
          ∃ q m new, u.pool[i]? = some q ∧ M.step i c u.mem q = some (m, o, new) := by
      obtain ⟨before, c, after, v, rfl, hv, hOk, hAfter⟩ := ih hRun hBefore
      refine ⟨before, c, after ++ [a], v, by simp, hv, hOk, fun c' hMem => ?_⟩
      rcases List.mem_append.mp hMem with hMem | hMem
      · exact hAfter c' hMem
      · exact hOther c' (List.mem_singleton.mp hMem).symm
    cases a with
    | call k =>
      cases hNext
      rcases get_of_append hGet with hOld | ⟨_, rfl⟩
      · exact hEarlier hOld nofun
      · exact absurd ho (hCreate _ _)
    | act j c =>
      obtain ⟨q, m, q', new, hq, hStep, rfl⟩ := next_act hNext
      rcases get_of_act hGet with ⟨rfl, rfl⟩ | ⟨hij, hOld⟩ | ⟨_, hMem⟩
      · exact ⟨acts, c, [], u, rfl, hRun, ⟨q, m, new, hq, hStep⟩, nofun⟩
      · refine hEarlier hOld fun c' hEq => hij ?_
        cases hEq
        rfl
      · exact absurd ho (hNew _ _ _ _ _ _ _ hStep o hMem)

theorem stable_at {M : Machine σ ω κ χ} {P : ω → Prop}
    (hStep : ∀ i c m o m' o' new, M.step i c m o = some (m', o', new) → P o → P o')
    {s s' : State σ ω} (h : M.Reaches s s') {i : Nat} {o : ω} (hGet : s.pool[i]? = some o)
    (ho : P o) : ∃ o', s'.pool[i]? = some o' ∧ P o' := by
  refine invariant (P := fun s => ∃ o, s.pool[i]? = some o ∧ P o) h ⟨o, hGet, ho⟩ ?_
  rintro t t' _ hNext ⟨q, hq, hPq⟩
  rcases get_of_step hNext hq with hSame | ⟨c, m, q', new, hAct, hq'⟩
  · exact ⟨q, hSame, hPq⟩
  · exact ⟨q', hq', hStep _ _ _ _ _ _ _ hAct hPq⟩

end Machine

/-- No object of the pool has come to a point where the whole process stops. -/
def Alive (dead : ω → Prop) (s : State σ ω) : Prop := ∀ o ∈ s.pool, ¬ dead o

theorem Alive.append {dead : ω → Prop} {s : State σ ω} (h : Alive dead s) {o : ω}
    (ho : ¬ dead o) : Alive dead ⟨s.mem, s.pool ++ [o]⟩ := by
  intro q hq
  rcases List.mem_append.mp hq with hOld | hNew
  · exact h q hOld
  · rw [List.mem_singleton.mp hNew]
    exact ho

theorem Alive.act {dead : ω → Prop} {s : State σ ω} (h : Alive dead s) {i : Nat} {o : ω}
    {mem : σ} {new : List ω} (ho : ¬ dead o) (hNew : ∀ n ∈ new, ¬ dead n) :
    Alive dead ⟨mem, s.pool.set i o ++ new⟩ := by
  intro q hq
  rcases mem_of_act hq with hOld | rfl | hMem
  · exact h q hOld
  · exact ho
  · exact hNew q hMem

namespace Machine

/-- A dead object never acts again, so a state without dead objects has a past without them. -/
theorem alive_of_step {M : Machine σ ω κ χ} {dead : ω → Prop}
    (hStuck : ∀ i c m o, dead o → M.step i c m o = none) {s s' : State σ ω} (h : M.Step s s')
    (hs' : Alive dead s') : Alive dead s := by
  intro o ho hDead
  rcases step_cases h with ⟨k, rfl⟩ | ⟨i, c, p, mem, p', new, hGet, hStep, rfl⟩
  · exact hs' o (List.mem_append_left _ ho) hDead
  · obtain ⟨j, hj, rfl⟩ := List.mem_iff_getElem.mp ho
    have hij : i ≠ j := by
      rintro rfl
      have hp : s.pool[i] = p := by simpa [List.getElem?_eq_getElem hj] using hGet
      rw [hStuck i c s.mem p (hp ▸ hDead)] at hStep
      cases hStep
    refine hs' _ (List.mem_append_left _ ?_) hDead
    exact List.mem_iff_getElem.mpr ⟨j, by simpa using hj, List.getElem_set_ne hij _⟩

theorem alive_of_reaches {M : Machine σ ω κ χ} {dead : ω → Prop}
    (hStuck : ∀ i c m o, dead o → M.step i c m o = none) {s s' : State σ ω} (h : M.Reaches s s')
    (hs' : Alive dead s') : Alive dead s := by
  induction h with
  | refl => exact hs'
  | tail _ hLast ih => exact ih (alive_of_step hStuck hLast hs')

theorem invariant_alive {M : Machine σ ω κ χ} {dead : ω → Prop}
    (hStuck : ∀ i c m o, dead o → M.step i c m o = none) {P : State σ ω → Prop}
    {s₀ s : State σ ω} (h : M.Reaches s₀ s) (hAlive : Alive dead s) (h₀ : P s₀)
    (hStep : ∀ s s', M.Reaches s₀ s → Alive dead s → M.Step s s' → Alive dead s' → P s → P s') :
    P s := by
  induction h with
  | refl => exact h₀
  | tail hPast hLast ih =>
    have hBefore := alive_of_step hStuck hLast hAlive
    exact hStep _ _ hPast hBefore hLast hAlive (ih hBefore)

end Machine
end AsyncLock.Interleaving
