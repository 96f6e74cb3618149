import LpcTools.Lib.Loop
import Mathlib.Data.List.Chain

/-!
# Loops that try each block again

A loop goes over blocks by an index, with a count of the attempts the block has had. A turn goes on
to the next block with the count cleared, or tries the same block again with one more attempt
counted (`Retries`). Whatever the count was at the start, no block gets more than `k` turns
(`Retries.countP_index_le`), so the whole loop takes at most `k` for each block
(`Retries.countP_le`).
-/

open Run

namespace Loop

variable {ε S α β : Type} (L : Loop ε S α β)

/-- The locals and states at the loop's head, in the order it passes through them. -/
def heads (a : α) (s : S) : List (α × S) :=
  match _h : L.body a s with
  | .ok (.inl a') s' => (a, s) :: heads a' s'
  | .ok (.inr _) _ => [(a, s)]
  | .error _ _ => [(a, s)]
termination_by L.rank a s
decreasing_by exact L.rank_lt _h

/-- A turn at `p` leaves the loop, with `r` as the result of the whole run. -/
def LeavesWith (p : α × S) (r : EStateM.Result ε S β) : Prop :=
  (∃ b t, L.body p.1 p.2 = .ok (.inr b) t ∧ r = .ok b t) ∨
    ∃ e t, L.body p.1 p.2 = .error e t ∧ r = .error e t

variable {L} {a a' : α} {s s' t : S} {b : β} {e : ε}

theorem heads_inl (h : L.body a s = .ok (.inl a') s') :
    L.heads a s = (a, s) :: L.heads a' s' := by
  rw [heads]
  split <;> rename_i h' <;> rw [h] at h' <;> simp at h'
  obtain ⟨rfl, rfl⟩ := h'
  rfl

theorem heads_inr (h : L.body a s = .ok (.inr b) t) : L.heads a s = [(a, s)] := by
  rw [heads]
  split <;> simp_all

theorem heads_error (h : L.body a s = .error e t) : L.heads a s = [(a, s)] := by
  rw [heads]
  split <;> simp_all

/-- The list starts where the loop does. -/
theorem heads_eq_cons (a : α) (s : S) : ∃ l, L.heads a s = (a, s) :: l := by
  rcases h : L.body a s with ⟨a' | b, s'⟩ | ⟨e, s'⟩
  · exact ⟨_, heads_inl h⟩
  · exact ⟨[], heads_inr h⟩
  · exact ⟨[], heads_error h⟩

/-- From each head to the next is one turn. -/
theorem heads_isChain (a : α) (s : S) : (L.heads a s).IsChain L.Turn := by
  induction a, s using L.run_induction with
  | step a s ih =>
    rcases h : L.body a s with ⟨a' | b, s'⟩ | ⟨e, s'⟩
    · obtain ⟨l, hl⟩ := heads_eq_cons (L := L) a' s'
      have hchain := ih a' s' h
      rw [heads_inl h]
      rw [hl] at hchain ⊢
      exact .cons_cons h hchain
    · rw [heads_inr h]
      exact .singleton _
    · rw [heads_error h]
      exact .singleton _

/-- The turn at the last head leaves the loop, and the run ends as it does. -/
theorem heads_getLast (a : α) (s : S) :
    ∃ p, (L.heads a s).getLast? = some p ∧ L.LeavesWith p (L.run a s) := by
  induction a, s using L.run_induction with
  | step a s ih =>
    rcases h : L.body a s with ⟨a' | b, s'⟩ | ⟨e, s'⟩
    · obtain ⟨p, hlast, hleaves⟩ := ih a' s' h
      refine ⟨p, ?_, by rwa [run_inl h]⟩
      rw [heads_inl h, List.getLast?_cons, hlast]
      rfl
    · exact ⟨(a, s), by rw [heads_inr h]; rfl, .inl ⟨b, s', h, run_inr h⟩⟩
    · exact ⟨(a, s), by rw [heads_error h]; rfl, .inr ⟨e, s', h, run_error h⟩⟩

variable (L) in
/-- A turn that goes round again is at one of the `n` blocks. It goes on to the next block, or counts
one more attempt at this one, fewer than `k`. -/
def Retries (n k : ℕ) (index : α → ℕ) (tries : S → ℕ) : Prop :=
  ∀ a s a' s', L.body a s = .ok (.inl a') s' → index a < n ∧
    (index a' = index a + 1 ∧ tries s' = 0 ∨
      index a' = index a ∧ tries s' = tries s + 1 ∧ tries s' < k)

namespace Retries

variable {n k : ℕ} {index : α → ℕ} {tries : S → ℕ} (hL : L.Retries n k index tries)
include hL

/-- The index never falls, and never passes the number of blocks. -/
theorem index_mem (a : α) (s : S) (ha : index a ≤ n) {p : α × S} (hp : p ∈ L.heads a s) :
    index a ≤ index p.1 ∧ index p.1 ≤ n := by
  induction a, s using L.run_induction with
  | step a s ih =>
    rcases h : L.body a s with ⟨a' | b, s'⟩ | ⟨e, s'⟩
    · rw [heads_inl h, List.mem_cons] at hp
      obtain ⟨hlt, hnext⟩ := hL a s a' s' h
      rcases hp with rfl | hp
      · exact ⟨le_rfl, ha⟩
      · have := ih a' s' h (by omega) hp
        omega
    · rw [heads_inr h, List.mem_singleton] at hp
      rw [hp]
      exact ⟨le_rfl, ha⟩
    · rw [heads_error h, List.mem_singleton] at hp
      rw [hp]
      exact ⟨le_rfl, ha⟩

/-- The blocks before the one the loop starts at get no turn. -/
theorem countP_index_lt (a : α) (s : S) (ha : index a ≤ n) {j : ℕ} (hj : j < index a) :
    (L.heads a s).countP (fun p => index p.1 = j) = 0 := by
  rw [List.countP_eq_zero]
  intro p hp
  have := (hL.index_mem a s ha hp).1
  simp only [decide_eq_true_eq]
  omega

/-- The block the loop starts at gets the attempts that are left of `k`, or a single turn. -/
theorem countP_index_self (a : α) (s : S) :
    (L.heads a s).countP (fun p => index p.1 = index a) ≤ max 1 (k - tries s) := by
  induction a, s using L.run_induction with
  | step a s ih =>
    rcases h : L.body a s with ⟨a' | b, s'⟩ | ⟨e, s'⟩
    · obtain ⟨hlt, ⟨hnext, -⟩ | ⟨hsame, htries, hk⟩⟩ := hL a s a' s' h
      · rw [heads_inl h, List.countP_cons_of_pos (by simp),
          hL.countP_index_lt a' s' (by omega) (by omega)]
        omega
      · have := ih a' s' h
        rw [heads_inl h, List.countP_cons_of_pos (by simp)]
        rw [hsame] at this
        omega
    · rw [heads_inr h, List.countP_singleton, if_pos (by simp)]
      exact le_max_left _ _
    · rw [heads_error h, List.countP_singleton, if_pos (by simp)]
      exact le_max_left _ _

/-- No block gets more than `k` turns. -/
theorem countP_index_le (hk : 0 < k) (j : ℕ) (a : α) (s : S) :
    (L.heads a s).countP (fun p => index p.1 = j) ≤ k := by
  induction a, s using L.run_induction with
  | step a s ih =>
    by_cases hj : index a = j
    · have := hL.countP_index_self a s
      rw [hj] at this
      omega
    · rcases h : L.body a s with ⟨a' | b, s'⟩ | ⟨e, s'⟩
      · rw [heads_inl h, List.countP_cons_of_neg (by simpa using hj)]
        exact ih a' s' h
      · rw [heads_inr h, List.countP_cons_of_neg (by simpa using hj)]
        simp
      · rw [heads_error h, List.countP_cons_of_neg (by simpa using hj)]
        simp

/-- The whole loop takes at most `k` turns for each block. -/
theorem countP_le (hk : 0 < k) (a : α) (s : S) :
    (L.heads a s).countP (fun p => index p.1 < n) ≤ k * n := by
  -- by the number of blocks looked at
  suffices h : ∀ m, (L.heads a s).countP (fun p => index p.1 < m) ≤ k * m from h n
  intro m
  induction m with
  | zero => simp
  | succ m ih =>
    have hblock := hL.countP_index_le hk m a s
    have hsplit : (L.heads a s).countP (fun p => index p.1 < m + 1) ≤
        (L.heads a s).countP (fun p => index p.1 < m) +
          (L.heads a s).countP (fun p => index p.1 = m) := by
      generalize L.heads a s = l
      induction l with
      | nil => simp
      | cons p l ih =>
        simp only [List.countP_cons, decide_eq_true_eq]
        split_ifs <;> omega
    rw [Nat.mul_succ]
    omega

/-- The count is below `k` all along, if it is at the start. -/
theorem tries_lt (hk : 0 < k) (a : α) (s : S) (hs : tries s < k) {p : α × S}
    (hp : p ∈ L.heads a s) : tries p.2 < k := by
  induction a, s using L.run_induction with
  | step a s ih =>
    rcases h : L.body a s with ⟨a' | b, s'⟩ | ⟨e, s'⟩
    · rw [heads_inl h, List.mem_cons] at hp
      rcases hp with rfl | hp
      · exact hs
      · refine ih a' s' h ?_ hp
        obtain ⟨-, ⟨-, h0⟩ | ⟨-, -, hlt⟩⟩ := hL a s a' s' h
        · rw [h0]
          exact hk
        · exact hlt
    · rw [heads_inr h, List.mem_singleton] at hp
      rw [hp]
      exact hs
    · rw [heads_error h, List.mem_singleton] at hp
      rw [hp]
      exact hs

/-- The count is that of the turns this block has had in this run, and of the attempts counted before
it if the block is the first. -/
theorem tries_eq (a : α) (s : S) (ha : index a ≤ n) {pre post : List (α × S)} {p : α × S}
    (hp : L.heads a s = pre ++ p :: post) :
    tries p.2 = pre.countP (fun q => index q.1 = index p.1) +
      if index p.1 = index a then tries s else 0 := by
  induction a, s using L.run_induction generalizing pre with
  | step a s ih =>
    obtain ⟨l, hl⟩ := heads_eq_cons (L := L) a s
    rcases pre with _ | ⟨q, pre⟩
    · rw [hl, List.nil_append, List.cons.injEq] at hp
      rw [← hp.1, if_pos rfl, List.countP_nil, Nat.zero_add]
    · have hend : ∀ {c : α × S}, L.heads a s ≠ [c] := by
        intro c he
        rw [he] at hp
        have := congrArg List.length hp
        simp at this
      rcases h : L.body a s with ⟨a' | b, s'⟩ | ⟨e, s'⟩
      · obtain ⟨hlt, hnext⟩ := hL a s a' s' h
        rw [heads_inl h, List.cons_append, List.cons.injEq] at hp
        obtain ⟨rfl, hp⟩ := hp
        have ha' : index a' ≤ n := by
          rcases hnext with ⟨he, -⟩ | ⟨he, -⟩ <;> omega
        have hge := (hL.index_mem a' s' ha' (p := p) (by rw [hp]; simp)).1
        have htries := ih a' s' h ha' hp
        rw [List.countP_cons]
        simp only [decide_eq_true_eq]
        split_ifs at htries ⊢ <;> omega
      · exact absurd (heads_inr h) hend
      · exact absurd (heads_error h) hend

end Retries

end Loop
