import Mathlib.Data.Nat.Count

/-!
# Polling within a budget

Something is polled until it has been found so many times, and not more than so many polls in vain are
allowed before. `HitAt p n vain j` says that the find behind `n` others is that of poll `j`.
-/

namespace Polls

section Step

variable {p : ℕ → Prop} [DecidablePred p] {n vain j : ℕ}

/-- Poll `j` finds something, `n` polls before it did, and no more than `vain` did not. -/
def HitAt (p : ℕ → Prop) [DecidablePred p] (n vain j : ℕ) : Prop :=
  Nat.count p j = n ∧ p j ∧ j ≤ n + vain

theorem hitAt_first (h0 : p 0) : HitAt p 0 vain 0 := ⟨Nat.count_zero p, h0, Nat.zero_le _⟩

theorem hitAt_find (h0 : p 0) :
    HitAt p (n + 1) vain (j + 1) ↔ HitAt (fun i => p (i + 1)) n vain j := by
  rw [HitAt, HitAt, Nat.count_succ', if_pos h0]
  refine and_congr (by omega) (and_congr_right fun _ => by omega)

theorem hitAt_vain (h0 : ¬ p 0) :
    HitAt p n (vain + 1) (j + 1) ↔ HitAt (fun i => p (i + 1)) n vain j := by
  rw [HitAt, HitAt, Nat.count_succ', if_neg h0]
  refine and_congr (by omega) (and_congr_right fun _ => by omega)

theorem HitAt.pos (h0 : ¬ p 0) (h : HitAt p n vain j) : 0 < j := by
  rcases j with _ | j
  · exact absurd h.2.1 h0
  · exact Nat.succ_pos j

theorem HitAt.pos_of_succ (h : HitAt p (n + 1) vain j) : 0 < j := by
  rcases j with _ | j
  · exact absurd h.1 (by rw [Nat.count_zero]; omega)
  · exact Nat.succ_pos j

/-- Without a poll in vain to spare, the first has to find something. -/
theorem HitAt.hit_zero (h : HitAt p n 0 j) : p 0 := by
  by_contra h0
  obtain ⟨j, rfl⟩ := Nat.exists_eq_add_of_lt (h.pos h0)
  obtain ⟨hcount, -, hle⟩ := h
  rw [Nat.zero_add, Nat.count_succ', if_neg h0] at hcount
  have := Nat.count_le (p := fun i => p (i + 1)) (n := j)
  omega

end Step

end Polls
