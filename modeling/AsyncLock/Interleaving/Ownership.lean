import AsyncLock.Interleaving.Event

/-! # Which objects own the entries of an event

An object that holds a listener owns exactly one entry of the queue, and every entry is owned
by such an object. This is kept as long as each action uses the event in one of the ways of
`Event.Access`.
-/
namespace AsyncLock.Interleaving
set_option autoImplicit false

variable {ω : Type*}

/-- One use of an event by object `i`, which holds a listener before and after as the flags
say. -/
inductive Event.Access (i : Nat) : Event → Bool → Event → Bool → Prop
  | leave (q : Event) (b : Bool) : Access i q b q b
  | listen (q : Event) : Access i q false (q.listen i) true
  | notify (q : Event) (n : Nat) (b : Bool) : Access i q b (q.notify n) b
  | notifyAdditional (q : Event) (n : Nat) (b : Bool) : Access i q b (q.notifyAdditional n) b
  | consume (q : Event) (h : (q.markOf i).isSome) : Access i q true (q.remove i) false
  | discard (q : Event) : Access i q true (q.discard i) false

namespace Event.Access

variable {i : Nat} {q q' : Event} {b b' : Bool}

theorem mem_owners_other (h : Event.Access i q b q' b') {j : Nat} (hij : j ≠ i) :
    j ∈ q'.owners ↔ j ∈ q.owners := by
  cases h <;> simp [hij]

theorem mem_owners_self (h : Event.Access i q b q' b') (hb : i ∈ q.owners ↔ b = true) :
    i ∈ q'.owners ↔ b' = true := by
  cases h <;> simp_all

/-- An object that uses the event takes no mark away from another. -/
theorem isSome_markOf_other (h : Event.Access i q b q' b') {j : Nat} (hij : j ≠ i)
    (hMark : (q.markOf j).isSome) : (q'.markOf j).isSome := by
  rw [Event.markOf_isSome_iff] at hMark ⊢
  obtain ⟨e, he, rfl, hSome⟩ := hMark
  have hRemove : e ∈ (q.remove i).entries := List.mem_filter.mpr ⟨he, by simpa using hij⟩
  cases h with
  | leave => exact ⟨e, he, rfl, hSome⟩
  | listen => exact ⟨e, List.mem_append_left _ he, rfl, hSome⟩
  | notify => exact ⟨e, Event.markFirst_keeps _ _ he hSome, rfl, hSome⟩
  | notifyAdditional => exact ⟨e, Event.markFirst_keeps _ _ he hSome, rfl, hSome⟩
  | consume => exact ⟨e, hRemove, rfl, hSome⟩
  | discard =>
    refine ⟨e, ?_, rfl, hSome⟩
    unfold Event.discard
    split
    · exact hRemove
    · exact Event.markFirst_keeps _ _ hRemove hSome
    · exact Event.markFirst_keeps _ _ hRemove hSome

end Event.Access

def Owned (listens : ω → Bool) (q : Event) (pool : List ω) : Prop :=
  ∀ j, j ∈ q.owners ↔ ∃ o, pool[j]? = some o ∧ listens o = true

namespace Owned

variable {listens : ω → Bool} {q q' : Event} {pool : List ω}

theorem nil (listens : ω → Bool) : Owned listens Event.new [] := by
  intro j
  simp

theorem append (h : Owned listens q pool) {new : List ω} (hNew : ∀ o ∈ new, listens o = false) :
    Owned listens q (pool ++ new) := by
  intro j
  rw [h j]
  constructor
  · rintro ⟨o, hGet, hListens⟩
    have hj := (List.getElem?_eq_some_iff.mp hGet).1
    exact ⟨o, by rw [List.getElem?_append_left hj, hGet], hListens⟩
  · rintro ⟨o, hGet, hListens⟩
    by_cases hj : j < pool.length
    · exact ⟨o, by rwa [List.getElem?_append_left hj] at hGet, hListens⟩
    · rw [List.getElem?_append_right (by omega)] at hGet
      rw [hNew o (List.mem_of_getElem? hGet)] at hListens
      cases hListens

theorem mem_owners_iff (h : Owned listens q pool) {i : Nat} {o : ω} (hGet : pool[i]? = some o) :
    i ∈ q.owners ↔ listens o = true := by
  rw [h i]
  simp [hGet]

theorem set (h : Owned listens q pool) {i : Nat} {o o' : ω} (hGet : pool[i]? = some o)
    (hAccess : Event.Access i q (listens o) q' (listens o')) :
    Owned listens q' (pool.set i o') := by
  intro j
  obtain ⟨hi, _⟩ := List.getElem?_eq_some_iff.mp hGet
  by_cases hij : j = i
  · subst hij
    rw [hAccess.mem_owners_self (h.mem_owners_iff hGet)]
    simp [List.getElem?_set_self hi]
  · rw [hAccess.mem_owners_other hij, h j, List.getElem?_set_ne (Ne.symm hij)]

theorem act (h : Owned listens q pool) {i : Nat} {o o' : ω} {new : List ω}
    (hGet : pool[i]? = some o) (hAccess : Event.Access i q (listens o) q' (listens o'))
    (hNew : ∀ p ∈ new, listens p = false) : Owned listens q' (pool.set i o' ++ new) :=
  (h.set hGet hAccess).append hNew

theorem owners_ne_nil (h : Owned listens q pool) {o : ω} (ho : o ∈ pool)
    (hListens : listens o = true) : q.owners ≠ [] := by
  obtain ⟨j, hGet⟩ := List.getElem?_of_mem ho
  exact List.ne_nil_of_mem ((h j).mpr ⟨o, hGet, hListens⟩)

theorem exists_notified (h : Owned listens q pool) (hq : q.Notified) :
    ∃ j o, pool[j]? = some o ∧ listens o = true ∧ (q.markOf j).isSome := by
  obtain ⟨j, hMark⟩ := hq.exists_markOf
  obtain ⟨o, hGet, hListens⟩ := (h j).mp (Event.mem_owners_of_markOf hMark)
  exact ⟨j, o, hGet, hListens, hMark⟩

theorem owners_ne_nil_of_census (h : Owned listens q pool) {f : ω → Nat}
    (hf : ∀ o, 0 < f o → listens o = true) (hPos : 0 < census f pool) : q.owners ≠ [] := by
  obtain ⟨o, ho, hfo⟩ := (census_pos_iff f pool).mp hPos
  exact h.owners_ne_nil ho (hf o hfo)

/-- A queue that is notified, or is about to be, has notified one of the listeners at rest. -/
theorem exists_parked (h : Owned listens q pool) {notifies : ω → Nat} {parked : ω → Prop}
    (hChain : q.Notified ∨ 0 < census notifies pool)
    (hParked : ∀ o ∈ pool, listens o = true → parked o) (hRest : ∀ o ∈ pool, notifies o = 0) :
    ∃ j o, pool[j]? = some o ∧ parked o ∧ (q.markOf j).isSome := by
  rcases hChain with hMark | hNotify
  · obtain ⟨j, o, hGet, hListens, hMark⟩ := h.exists_notified hMark
    exact ⟨j, o, hGet, hParked o (List.mem_of_getElem? hGet) hListens, hMark⟩
  · rw [census_eq_zero hRest] at hNotify
    cases hNotify

end Owned

namespace Machine

variable {σ κ χ : Type*} {M : Machine σ ω κ χ} (event : σ → Event) {listens : ω → Bool}

theorem owned_of_step {s s' : State σ ω} (hStep : M.Step s s')
    (h : Owned listens (event s.mem) s.pool) (hCreate : ∀ m k, listens (M.create m k) = false)
    (hAccess : ∀ i c o m' o' new, M.step i c s.mem o = some (m', o', new) → o' ∈ s'.pool →
      Event.Access i (event s.mem) (listens o) (event m') (listens o') ∧
        ∀ n ∈ new, listens n = false) : Owned listens (event s'.mem) s'.pool := by
  rcases step_others hStep with ⟨k, rfl⟩ | ⟨i, c, o, m', o', new, _, hGet, hAct, rfl, hMem, _⟩
  · apply h.append
    intro o ho
    rw [List.mem_singleton.mp ho]
    exact hCreate _ _
  · obtain ⟨hSelf, hNew⟩ := hAccess i c o m' o' new hAct hMem
    exact h.act hGet hSelf hNew

theorem owned_of_reaches {s₀ s : State σ ω} (h : M.Reaches s₀ s)
    (h₀ : Owned listens (event s₀.mem) s₀.pool) (hCreate : ∀ m k, listens (M.create m k) = false)
    (hAccess : ∀ i c m o m' o' new, M.step i c m o = some (m', o', new) →
      Event.Access i (event m) (listens o) (event m') (listens o') ∧
        ∀ n ∈ new, listens n = false) : Owned listens (event s.mem) s.pool :=
  invariant (P := fun s => Owned listens (event s.mem) s.pool) h h₀ fun s _ _ hStep hs =>
    owned_of_step event hStep hs hCreate fun i c o m' o' new hAct _ =>
      hAccess i c s.mem o m' o' new hAct

end Machine
end AsyncLock.Interleaving
