import AsyncLock.Interleaving.Machine

/-! # Counting over a pool

An invariant that ties the shared memory to the objects is an equation between the memory and
a sum over the pool. A step changes the summand of the object that acts and adds those of the
objects it creates; the sum over the others is the same before and after.
-/
namespace AsyncLock.Interleaving
set_option autoImplicit false

variable {σ ω κ χ : Type*}

def census (f : ω → Nat) : List ω → Nat
  | [] => 0
  | o :: pool => f o + census f pool

@[simp] theorem census_nil (f : ω → Nat) : census f [] = 0 := rfl

@[simp] theorem census_cons (f : ω → Nat) (o : ω) (pool : List ω) :
    census f (o :: pool) = f o + census f pool := rfl

@[simp] theorem census_append (f : ω → Nat) (pool new : List ω) :
    census f (pool ++ new) = census f pool + census f new := by
  induction pool with
  | nil => simp
  | cons o pool ih =>
    rw [List.cons_append, census_cons, census_cons, ih]
    omega

theorem census_add (f g : ω → Nat) (pool : List ω) :
    census (fun o => f o + g o) pool = census f pool + census g pool := by
  induction pool with
  | nil => rfl
  | cons o pool ih =>
    simp only [census_cons, ih]
    omega

theorem census_perm (f : ω → Nat) {pool pool' : List ω} (h : pool.Perm pool') :
    census f pool = census f pool' := by
  induction h with
  | nil => rfl
  | cons o _ ih => rw [census_cons, census_cons, ih]
  | swap o p pool =>
    simp only [census_cons]
    omega
  | trans _ _ ih ih' => rw [ih, ih']

/-- The objects other than the one at a position, whatever that one becomes. -/
theorem exists_perm_others {pool : List ω} {i : Nat} {o : ω} (h : pool[i]? = some o) :
    ∃ others, pool.Perm (o :: others) ∧ ∀ o', (pool.set i o').Perm (o' :: others) := by
  obtain ⟨hi, rfl⟩ := List.getElem?_eq_some_iff.mp h
  exact ⟨pool.eraseIdx i, (List.getElem_cons_eraseIdx_perm hi).symm,
    fun o' => List.set_perm_cons_eraseIdx hi o'⟩

/-- The objects other than the one at a position, for every summand at once. -/
theorem exists_others {pool : List ω} {i : Nat} {o : ω} (h : pool[i]? = some o) :
    ∃ others, (∀ f, census f pool = f o + census f others) ∧
      ∀ o' f, census f (pool.set i o') = f o' + census f others := by
  obtain ⟨others, hPool, hSet⟩ := exists_perm_others h
  exact ⟨others, fun f => census_perm f hPool, fun o' f => census_perm f (hSet o')⟩

theorem census_pos_iff (f : ω → Nat) (pool : List ω) :
    0 < census f pool ↔ ∃ o ∈ pool, 0 < f o := by
  induction pool with
  | nil => simp
  | cons o pool ih =>
    rw [census_cons, List.exists_mem_cons_iff, ← ih]
    omega

theorem census_eq_zero {f : ω → Nat} {pool : List ω} (h : ∀ o ∈ pool, f o = 0) :
    census f pool = 0 := by
  by_contra hPos
  obtain ⟨o, ho, hf⟩ := (census_pos_iff f pool).mp (Nat.pos_of_ne_zero hPos)
  rw [h o ho] at hf
  cases hf

theorem census_eq_length {f : ω → Nat} {pool : List ω} (h : ∀ o ∈ pool, f o = 1) :
    census f pool = pool.length := by
  induction pool with
  | nil => rfl
  | cons o pool ih =>
    rw [census_cons, h o List.mem_cons_self, ih fun q hq => h q (List.mem_cons_of_mem o hq),
      List.length_cons, Nat.add_comm]

theorem census_congr {f g : ω → Nat} {pool : List ω} (h : ∀ o ∈ pool, f o = g o) :
    census f pool = census g pool := by
  induction pool with
  | nil => rfl
  | cons o pool ih =>
    rw [census_cons, census_cons, h o List.mem_cons_self,
      ih fun q hq => h q (List.mem_cons_of_mem o hq)]

/-- A sum over the labels that some objects bear is one over the objects. -/
theorem census_filterMap {α : Type*} (label : ω → Option α) (f : α → Nat) (pool : List ω) :
    census f (pool.filterMap label) = census (fun o => (label o).elim 0 f) pool := by
  induction pool with
  | nil => rfl
  | cons o pool ih =>
    cases hLabel : label o with
    | none => rw [List.filterMap_cons_none hLabel, ih, census_cons, hLabel, Option.elim_none,
        Nat.zero_add]
    | some a => rw [List.filterMap_cons_some hLabel, census_cons, ih, census_cons, hLabel,
        Option.elim_some]

theorem count_eq_census {α : Type*} [DecidableEq α] (a : α) (l : List α) :
    l.count a = census (fun b => if b = a then 1 else 0) l := by
  induction l with
  | nil => rfl
  | cons b l ih =>
    rw [List.count_cons, ih, census_cons, Nat.add_comm]
    simp only [beq_iff_eq]

theorem census_le {f g : ω → Nat} (h : ∀ o, f o ≤ g o) (pool : List ω) :
    census f pool ≤ census g pool := by
  induction pool with
  | nil => simp
  | cons o pool ih =>
    have := h o
    simp only [census_cons]
    omega

theorem le_census (f : ω → Nat) {pool : List ω} {o : ω} (h : o ∈ pool) :
    f o ≤ census f pool := by
  induction pool with
  | nil => cases h
  | cons p pool ih =>
    rw [census_cons]
    rcases List.mem_cons.mp h with rfl | h
    · omega
    · have := ih h
      omega

theorem add_le_census (f : ω → Nat) {pool : List ω} {i j : Nat} {o p : ω} (hij : i ≠ j)
    (ho : pool[i]? = some o) (hp : pool[j]? = some p) : f o + f p ≤ census f pool := by
  obtain ⟨hj, rfl⟩ := List.getElem?_eq_some_iff.mp hp
  obtain ⟨hi, rfl⟩ := List.getElem?_eq_some_iff.mp ho
  have hMem : pool[j] ∈ pool.eraseIdx i := by
    rw [List.mem_eraseIdx_iff_getElem]
    exact ⟨j, hj, Ne.symm hij, rfl⟩
  have hLe := le_census f hMem
  rw [census_perm f (List.getElem_cons_eraseIdx_perm hi).symm, census_cons]
  omega

/-- An object that is not all that is counted has another one beside it. -/
theorem exists_beside {f : ω → Nat} {pool : List ω} {i : Nat} {o : ω} (ho : pool[i]? = some o)
    (h : f o < census f pool) : ∃ j p, j ≠ i ∧ pool[j]? = some p ∧ 0 < f p := by
  obtain ⟨hi, rfl⟩ := List.getElem?_eq_some_iff.mp ho
  rw [census_perm f (List.getElem_cons_eraseIdx_perm hi).symm, census_cons] at h
  obtain ⟨p, hp, hPos⟩ := (census_pos_iff f (pool.eraseIdx i)).mp (by omega)
  obtain ⟨j, hj, hji, rfl⟩ := List.mem_eraseIdx_iff_getElem.mp hp
  exact ⟨j, pool[j], hji, List.getElem?_eq_getElem hj, hPos⟩

theorem Machine.next_others {M : Machine σ ω κ χ} {s s' : State σ ω} {a : Action κ χ}
    (h : M.next s a = some s') :
    (∃ k, a = .call k ∧ s' = ⟨s.mem, s.pool ++ [M.create s.mem k]⟩) ∨
    (∃ i c o mem o' new others, a = .act i c ∧ s.pool[i]? = some o ∧
      M.step i c s.mem o = some (mem, o', new) ∧ s' = ⟨mem, s.pool.set i o' ++ new⟩ ∧
      o' ∈ s'.pool ∧ (∀ f, census f s.pool = f o + census f others) ∧
      ∀ f, census f s'.pool = f o' + census f new + census f others) := by
  cases a with
  | call k => exact .inl ⟨k, rfl, (Option.some.inj h).symm⟩
  | act i c =>
    obtain ⟨o, mem, o', new, hGet, hStep, rfl⟩ := next_act h
    obtain ⟨others, hPool, hSet⟩ := exists_others hGet
    obtain ⟨hi, _⟩ := List.getElem?_eq_some_iff.mp hGet
    refine .inr ⟨i, c, o, mem, o', new, others, rfl, hGet, hStep, rfl, ?_, hPool, fun f => ?_⟩
    · exact List.mem_append_left _ (List.mem_set hi o')
    · rw [census_append, hSet]
      omega

theorem Machine.step_others {M : Machine σ ω κ χ} {s s' : State σ ω} (h : M.Step s s') :
    (∃ k, s' = ⟨s.mem, s.pool ++ [M.create s.mem k]⟩) ∨
    (∃ i c o mem o' new others, s.pool[i]? = some o ∧ M.step i c s.mem o = some (mem, o', new) ∧
      s' = ⟨mem, s.pool.set i o' ++ new⟩ ∧ o' ∈ s'.pool ∧
      (∀ f, census f s.pool = f o + census f others) ∧
      ∀ f, census f s'.pool = f o' + census f new + census f others) := by
  obtain ⟨a, ha⟩ := h
  rcases next_others ha with ⟨k, _, hCall⟩ | ⟨i, c, o, mem, o', new, others, _, hAct⟩
  · exact .inl ⟨k, hCall⟩
  · exact .inr ⟨i, c, o, mem, o', new, others, hAct⟩

end AsyncLock.Interleaving
