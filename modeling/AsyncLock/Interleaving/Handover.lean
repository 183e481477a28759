import AsyncLock.Interleaving.Ownership
import Mathlib.Order.WellFounded

/-! # A notification that is handed on

A queue that is only ever notified once at a time, and again when a marked entry is dropped, has
no mark behind its first entry. Whether a run in which listeners hand such a notification on
comes to an end is a question of a measure that each step lowers, or of a condition that comes
back.
-/
namespace AsyncLock.Interleaving
set_option autoImplicit false

/-! ## Runs that end and runs that do not -/

section

variable {σ : Type*} {r : σ → σ → Prop}

theorem no_infinite_run_of_measure {P : σ → Prop} (measure : σ → Nat)
    (hStep : ∀ s t, P s → r s t → P t ∧ measure t < measure s) {s : σ} (hs : P s) :
    ¬ ∃ run : Nat → σ, run 0 = s ∧ ∀ n, r (run n) (run (n + 1)) := by
  rintro ⟨run, rfl, hRun⟩
  have hAll (n : Nat) : P (run n) ∧ measure (run n) + n ≤ measure (run 0) := by
    induction n with
    | zero => exact ⟨hs, le_rfl⟩
    | succ n ih =>
      obtain ⟨hNext, hLess⟩ := hStep _ _ ih.1 (hRun n)
      exact ⟨hNext, by omega⟩
  have := (hAll (measure (run 0) + 1)).2
  omega

/-- Runs that lead from the condition back to it can be put end to end. -/
theorem infinite_run_of_recurring {P : σ → Prop}
    (hBack : ∀ s, P s → ∃ t, Relation.TransGen r s t ∧ P t) {s : σ} (hs : P s) :
    ∃ run : Nat → σ, run 0 = s ∧ ∀ n, r (run n) (run (n + 1)) := by
  have hNotAcc : ¬ Acc (fun t s => r s t) s := by
    intro hAcc
    have hTrans : Acc (Relation.TransGen fun t s => r s t) s := hAcc.transGen
    induction hTrans with
    | intro s _ ih =>
      obtain ⟨t, hRun, ht⟩ := hBack s hs
      have hSwap : Relation.TransGen (fun t s => r s t) t s := Relation.transGen_swap.mpr hRun
      exact ih t hSwap ht (hAcc.inv_of_transGen hSwap)
  exact not_acc_iff_exists_descending_chain.mp hNotAcc

end

/-! ## A mark at the front -/

namespace Event

/-- Nobody is queued twice, and only the first entry may be marked. -/
structure Orderly (q : Event) : Prop where
  nodup : q.owners.Nodup
  tail : ∀ e ∈ q.entries.tail, e.mark = none

theorem markFirst_zero (kind : Notification) (entries : List Entry) :
    markFirst kind 0 entries = entries := by
  induction entries with
  | nil => rfl
  | cons e rest ih => rw [markFirst, if_pos (.inl rfl), ih]

theorem owners_remove (q : Event) (i : Nat) : (q.remove i).owners = q.owners.filter (· ≠ i) := by
  simp [owners, remove, List.filter_map, Function.comp_def]

theorem orderly_new : Orderly new := ⟨List.nodup_nil, by simp [new]⟩

namespace Orderly

variable {q : Event} {i : Nat}

theorem listen (h : q.Orderly) (hi : i ∉ q.owners) : (q.listen i).Orderly := by
  constructor
  · rw [owners_listen]
    refine List.nodup_append.mpr ⟨h.nodup, by simp, ?_⟩
    rintro j hj k hk rfl
    rw [List.mem_singleton.mp hk] at hj
    exact hi hj
  · intro e he
    unfold Event.listen at he
    cases hEntries : q.entries with
    | nil => simp [hEntries] at he
    | cons d rest =>
      have hTail := h.tail
      simp only [hEntries, List.cons_append, List.tail_cons, List.mem_append,
        List.mem_singleton] at he hTail
      rcases he with he | rfl
      · exact hTail e he
      · rfl

theorem remove (h : q.Orderly) (i : Nat) : (q.remove i).Orderly := by
  constructor
  · rw [owners_remove]
    exact h.nodup.filter _
  · intro e he
    have hTail := h.tail
    unfold Event.remove at he
    cases hEntries : q.entries with
    | nil => simp [hEntries] at he
    | cons d rest =>
      simp only [hEntries, List.tail_cons] at he hTail
      rw [List.filter_cons] at he
      split at he
      · exact hTail e (List.mem_of_mem_filter he)
      · exact hTail e (List.mem_of_mem_filter (List.mem_of_mem_tail he))

/-- One mark on a queue without marks goes to the first entry. -/
theorem markFirst_one (kind : Notification) {q : Event} (h : q.owners.Nodup)
    (hUnmarked : ¬ q.Notified) : Orderly ⟨markFirst kind 1 q.entries⟩ := by
  constructor
  · rwa [owners, map_owner_markFirst]
  · cases hEntries : q.entries with
    | nil => simp [markFirst]
    | cons d rest =>
      have hNone (e : Entry) (he : e ∈ d :: rest) : e.mark = none := by
        by_contra hMark
        exact hUnmarked ⟨e, by rwa [hEntries], Option.isSome_iff_ne_none.mpr hMark⟩
      have hFirst := hNone d List.mem_cons_self
      simp only [markFirst, hFirst, Option.isSome_none, Nat.one_ne_zero, Bool.false_eq_true,
        or_self, if_false, Nat.sub_self, markFirst_zero, List.tail_cons]
      exact fun e he => hNone e (List.mem_cons_of_mem _ he)

theorem notify_eq_of_notified (hNotified : q.Notified) : q.notify 1 = q := by
  have hPos : 0 < q.entries.countP fun e => e.mark.isSome :=
    List.countP_pos_iff.mpr hNotified
  rw [Event.notify, Nat.sub_eq_zero_of_le hPos, markFirst_zero]

theorem notify (h : q.Orderly) : (q.notify 1).Orderly := by
  by_cases hNotified : q.Notified
  · rwa [notify_eq_of_notified hNotified]
  · have hZero : (q.entries.countP fun e => e.mark.isSome) = 0 := by
      rw [List.countP_eq_zero]
      exact fun e he hMark => hNotified ⟨e, he, hMark⟩
    rw [Event.notify, hZero]
    exact markFirst_one .single h.nodup hNotified

/-- The entry that is marked is the first one. -/
theorem front (h : q.Orderly) (hMark : (q.markOf i).isSome) :
    ∃ rest, q.owners = i :: rest ∧ (q.remove i).owners = rest ∧ ¬ (q.remove i).Notified := by
  obtain ⟨e, he, rfl, hSome⟩ := (markOf_isSome_iff q i).mp hMark
  have hNodup := h.nodup
  have hTail := h.tail
  cases hEntries : q.entries with
  | nil =>
    rw [hEntries] at he
    cases he
  | cons d rest =>
    rw [hEntries] at he hTail
    have hOwners : q.owners = d.owner :: rest.map Entry.owner := by rw [owners, hEntries]; rfl
    rcases List.mem_cons.mp he with rfl | he
    · rw [hOwners] at hNodup
      have hRest : (q.remove e.owner).owners = rest.map Entry.owner := by
        rw [owners_remove, hOwners, List.filter_cons_of_neg (by simp)]
        refine List.filter_eq_self.mpr fun j hj => ?_
        have hNot := (List.nodup_cons.mp hNodup).1
        simpa using fun hEq : j = e.owner => hNot (hEq ▸ hj)
      refine ⟨_, hOwners, hRest, ?_⟩
      rintro ⟨d, hd, hMark⟩
      simp only [Event.remove, hEntries, List.mem_filter, decide_eq_true_eq] at hd
      rcases List.mem_cons.mp hd.1 with rfl | hMem
      · exact hd.2 rfl
      · rw [hTail d hMem] at hMark
        cases hMark
    · rw [hTail e he] at hSome
      cases hSome

theorem discard (h : q.Orderly) (i : Nat) : (q.discard i).Orderly := by
  have hRemove := h.remove i
  unfold Event.discard
  split
  · exact hRemove
  · exact hRemove.notify
  · rename_i hMark
    obtain ⟨_, _, _, hUnmarked⟩ := h.front (i := i) (by rw [hMark]; rfl)
    exact markFirst_one .additional hRemove.nodup hUnmarked

end Orderly
end Event
end AsyncLock.Interleaving
