import AsyncLock.Interleaving.Machine

/-! # Counting the actions of one object along a run

`tally` adds up a weight over the actions that one object executes in a run. A quantity of
the object that every action changes by the difference of two weights pays for the one with
the other over the whole run.
-/
namespace AsyncLock.Interleaving
set_option autoImplicit false

variable {σ ω κ χ : Type*}

/-- The value of the object at a position, and that of a fresh object while there is none. -/
def valueAt (g : ω → Nat) (fresh : Nat) (pool : List ω) (i : Nat) : Nat :=
  (pool[i]?.map g).getD fresh

namespace Machine

def weight (f : χ → ω → Nat) (i : Nat) (s : State σ ω) : Action κ χ → Nat
  | .call _ => 0
  | .act j c => if j = i then (s.pool[i]?.map (f c)).getD 0 else 0

def tally (M : Machine σ ω κ χ) (f : χ → ω → Nat) (i : Nat) :
    State σ ω → List (Action κ χ) → Nat
  | _, [] => 0
  | s, a :: rest => weight f i s a +
    match M.next s a with
    | some s' => M.tally f i s' rest
    | none => 0

variable {M : Machine σ ω κ χ}

/-- What one step means for one position: its object acts, or it stays as it is, or the step
creates an object there. -/
theorem next_at {s s' : State σ ω} {a : Action κ χ} (h : M.next s a = some s') (i : Nat) :
    (∃ j c o m' o' new, M.step j c s.mem o = some (m', o', new) ∧ s.pool[i]? = some o ∧
      s'.pool[i]? = some o' ∧ ∀ f : χ → ω → Nat, weight f i s a = f c o) ∨
    ((∀ f : χ → ω → Nat, weight f i s a = 0) ∧ (s'.pool[i]? = s.pool[i]? ∨
      (s.pool[i]? = none ∧ ∃ o, s'.pool[i]? = some o ∧
        ((∃ k, o = M.create s.mem k) ∨
          ∃ j c p m' p' new, M.step j c s.mem p = some (m', p', new) ∧ o ∈ new)))) := by
  cases a with
  | call k =>
    cases h
    refine .inr ⟨fun _ => rfl, ?_⟩
    rcases Nat.lt_trichotomy i s.pool.length with hi | rfl | hi
    · exact .inl (List.getElem?_append_left hi)
    · exact .inr ⟨by simp, M.create s.mem k, by simp, .inl ⟨k, rfl⟩⟩
    · left
      rw [List.getElem?_eq_none (by simp; omega), List.getElem?_eq_none (Nat.le_of_lt hi)]
  | act j c =>
    obtain ⟨o, mem, o', new, hGet, hAct, rfl⟩ := next_act h
    by_cases hji : j = i
    · subst hji
      exact .inl ⟨j, c, o, mem, o', new, hAct, hGet, get_act_self hGet o' new,
        fun f => by simp [weight, hGet]⟩
    · refine .inr ⟨fun f => if_neg hji, ?_⟩
      by_cases hi : i < s.pool.length
      · left
        rw [List.getElem?_append_left (by simpa using hi), List.getElem?_set_ne hji]
      · have hNone : s.pool[i]? = none := List.getElem?_eq_none (by omega)
        rw [hNone, List.getElem?_append_right (by simp; omega)]
        cases hNew : new[i - (s.pool.set j o').length]? with
        | none => exact .inl rfl
        | some n =>
          exact .inr ⟨rfl, n, rfl, .inr ⟨j, c, o, mem, o', new, hAct, List.mem_of_getElem? hNew⟩⟩

variable {g : ω → Nat} {fresh : Nat} {f₁ f₂ : χ → ω → Nat}

/-- What an object is worth at the end of a run plus what it has spent is what it was worth
at the beginning plus what it has earned. -/
theorem tally_balance (hCreate : ∀ m k, g (M.create m k) = fresh)
    (hStep : ∀ i c m o m' o' new, M.step i c m o = some (m', o', new) →
      g o' + f₁ c o = g o + f₂ c o ∧ ∀ n ∈ new, g n = fresh)
    {acts : List (Action κ χ)} {s s' : State σ ω} (h : M.run s acts = some s') (i : Nat) :
    valueAt g fresh s'.pool i + M.tally f₁ i s acts =
      valueAt g fresh s.pool i + M.tally f₂ i s acts := by
  induction acts generalizing s with
  | nil => cases h; rfl
  | cons a rest ih =>
    obtain ⟨t, hNext, hRest⟩ := Option.bind_eq_some_iff.mp h
    have hTail := ih hRest
    have hHead : valueAt g fresh t.pool i + weight f₁ i s a =
        valueAt g fresh s.pool i + weight f₂ i s a := by
      rcases next_at hNext i with ⟨j, c, o, m', o', new, hAct, hGet, hGet', hWeight⟩ |
        ⟨hWeight, hSame | ⟨hNone, o, hGet', ⟨k, rfl⟩ | ⟨j, c, p, m', p', new, hAct, hMem⟩⟩⟩
      · simpa [valueAt, hGet, hGet', hWeight] using (hStep _ _ _ _ _ _ _ hAct).1
      · simp [valueAt, hSame, hWeight]
      · simp [valueAt, hNone, hGet', hWeight, hCreate]
      · simp [valueAt, hNone, hGet', hWeight, (hStep _ _ _ _ _ _ _ hAct).2 o hMem]
    simp only [tally, hNext]
    omega

theorem tally_le (hCreate : ∀ m k, g (M.create m k) ≤ fresh)
    (hStep : ∀ i c m o m' o' new, M.step i c m o = some (m', o', new) →
      g o' + f₁ c o ≤ g o ∧ ∀ n ∈ new, g n ≤ fresh)
    {acts : List (Action κ χ)} {s s' : State σ ω} (h : M.run s acts = some s') (i : Nat) :
    valueAt g fresh s'.pool i + M.tally f₁ i s acts ≤ valueAt g fresh s.pool i := by
  induction acts generalizing s with
  | nil => cases h; exact Nat.le_refl _
  | cons a rest ih =>
    obtain ⟨t, hNext, hRest⟩ := Option.bind_eq_some_iff.mp h
    have hTail := ih hRest
    have hHead : valueAt g fresh t.pool i + weight f₁ i s a ≤ valueAt g fresh s.pool i := by
      rcases next_at hNext i with ⟨j, c, o, m', o', new, hAct, hGet, hGet', hWeight⟩ |
        ⟨hWeight, hSame | ⟨hNone, o, hGet', ⟨k, rfl⟩ | ⟨j, c, p, m', p', new, hAct, hMem⟩⟩⟩
      · simpa [valueAt, hGet, hGet', hWeight] using (hStep _ _ _ _ _ _ _ hAct).1
      · simp [valueAt, hSame, hWeight]
      · simpa [valueAt, hNone, hGet', hWeight] using hCreate s.mem k
      · simpa [valueAt, hNone, hGet', hWeight] using (hStep _ _ _ _ _ _ _ hAct).2 o hMem
    simp only [tally, hNext]
    omega

end Machine
end AsyncLock.Interleaving
