import AsyncLock.Interleaving.Census
import Mathlib.Data.Prod.Lex
import Mathlib.Order.WellFounded

/-! # Runs without new calls

Once nobody calls the machine any more, the objects it has go on by themselves. Such a run ends
if every action lowers a rank in a well-founded order; where it ends, nobody can act. A rank is
put together from sums over the pool, one below the other: a sum may grow as soon as one above
it becomes smaller.
-/
namespace AsyncLock.Interleaving
set_option autoImplicit false

variable {σ ω κ χ : Type*}

/-- A sum over the pool whose summands depend on the positions too. -/
def censusAt (f : Nat → ω → Nat) (pool : List ω) : Nat := census id (pool.mapIdx f)

/-- If an action changes the summand of its own object alone, the sum changes by as much. -/
theorem censusAt_set {f f' : Nat → ω → Nat} {pool : List ω} {i : Nat} {o : ω}
    (hGet : pool[i]? = some o) (hOthers : ∀ j q, j ≠ i → f' j q = f j q) (o' : ω) :
    censusAt f' (pool.set i o') + f i o = censusAt f pool + f' i o' := by
  have hMap : (pool.set i o').mapIdx f' = (pool.mapIdx f).set i (f' i o') := by
    refine List.ext_getElem? fun j => ?_
    rw [List.getElem?_mapIdx, List.getElem?_set, List.getElem?_set, List.getElem?_mapIdx,
      List.length_mapIdx]
    by_cases hij : i = j
    · subst hij
      have hi := (List.getElem?_eq_some_iff.mp hGet).1
      simp [hi]
    · rw [if_neg hij, if_neg hij]
      cases pool[j]? with
      | none => rfl
      | some q => exact congrArg some (hOthers j q (Ne.symm hij))
  have hHere : (pool.mapIdx f)[i]? = some (f i o) := by rw [List.getElem?_mapIdx, hGet]; rfl
  obtain ⟨others, hPool, hSet⟩ := exists_others hHere
  rw [censusAt, hMap, censusAt, hPool, hSet, id, id]
  omega

namespace Machine

/-- One action of an object, among those that are admitted. -/
def Works (M : Machine σ ω κ χ) (ok : State σ ω → Nat → χ → Prop) (s s' : State σ ω) : Prop :=
  ∃ i c, ok s i c ∧ M.next s (.act i c) = some s'

/-- No admitted action is possible. -/
def Stuck (M : Machine σ ω κ χ) (ok : State σ ω → Nat → χ → Prop) (s : State σ ω) : Prop :=
  ∀ i c, ok s i c → M.next s (.act i c) = none

def Endless (M : Machine σ ω κ χ) (ok : State σ ω → Nat → χ → Prop) (s : State σ ω) : Prop :=
  ∃ run : Nat → State σ ω, run 0 = s ∧ ∀ n, M.Works ok (run n) (run (n + 1))

variable {M : Machine σ ω κ χ} {ok : State σ ω → Nat → χ → Prop} {s t : State σ ω}

theorem reaches_of_works (h : Relation.ReflTransGen (M.Works ok) s t) : M.Reaches s t := by
  refine Relation.ReflTransGen.mono ?_ s t h
  rintro u v ⟨i, c, _, hNext⟩
  exact ⟨.act i c, hNext⟩

theorem works_of_run (acts : List (Nat × χ)) (hOk : ∀ u, ∀ a ∈ acts, ok u a.1 a.2)
    (h : M.run s (acts.map fun a => .act a.1 a.2) = some t) :
    Relation.ReflTransGen (M.Works ok) s t := by
  induction acts generalizing s with
  | nil =>
    cases h
    exact .refl
  | cons a rest ih =>
    obtain ⟨u, hNext, hRest⟩ := Option.bind_eq_some_iff.mp h
    have hTail := ih (fun u b hb => hOk u b (List.mem_cons_of_mem a hb)) hRest
    exact .head ⟨a.1, a.2, hOk s a List.mem_cons_self, hNext⟩ hTail

theorem next_eq_none {i : Nat} {c : χ} {o : ω} (hGet : s.pool[i]? = some o)
    (h : M.next s (.act i c) = none) : M.step i c s.mem o = none := by
  simpa [next, hGet] using h

/-- Every action keeps a condition and lowers the rank, so there are finitely many of them. -/
theorem acc_of_rank {β : Type*} [Preorder β] [WellFoundedLT β] {P : State σ ω → Prop}
    (rank : State σ ω → β)
    (hStep : ∀ u v, P u → M.Works ok u v → P v ∧ rank v < rank u) (hs : P s) :
    Acc (fun v u => M.Works ok u v) s := by
  have hRank : Acc (· < ·) (rank s) := WellFoundedLT.apply _
  generalize hr : rank s = r at hRank
  induction hRank generalizing s with
  | intro r _ ih =>
    refine .intro s fun v hWorks => ?_
    obtain ⟨hv, hLess⟩ := hStep s v hs hWorks
    exact ih (rank v) (hr ▸ hLess) hv rfl

theorem not_endless_of_acc (h : Acc (fun v u => M.Works ok u v) s) : ¬ M.Endless ok s := by
  rintro ⟨run, rfl, hRun⟩
  exact not_acc_iff_exists_descending_chain.mpr ⟨run, rfl, hRun⟩ h

theorem works_others {s' : State σ ω} (h : M.Works ok s s') :
    ∃ i c o o' new others, ok s i c ∧ s.pool[i]? = some o ∧
      M.step i c s.mem o = some (s'.mem, o', new) ∧ s'.pool = s.pool.set i o' ++ new ∧
      (∀ f, census f s.pool = f o + census f others) ∧
      ∀ f, census f s'.pool = f o' + census f new + census f others := by
  obtain ⟨i, c, hOk, hNext⟩ := h
  rcases next_others hNext with ⟨k, hCall, _⟩ |
    ⟨j, d, o, mem, o', new, others, hEq, hGet, hAct, rfl, _, hPool⟩
  · cases hCall
  · cases hEq
    exact ⟨i, c, o, o', new, others, hOk, hGet, hAct, rfl, hPool⟩

end Machine
end AsyncLock.Interleaving
