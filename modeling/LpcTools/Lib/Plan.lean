import LpcTools.Lib.Loop
import Mathlib.Data.List.Infix

/-!
# Runs that follow a plan

What a run does is observed as a list that grows. A run follows a plan if it adds an initial part of it,
and all of it when it returns a value that says so (`Follows`). A sequence of runs each of which is
needed for the next follows the plans one behind the other (`Follows.bind`), and in a plan of blocks an
entry stands behind all of the blocks before its own (`exists_of_blocks`).
-/

open Run

variable {ε S α β γ : Type}

/-- The run from `s` on adds to what is observed an initial part of the plan, and the whole plan if it
returns a value with `P`. -/
def Follows (obs : S → List γ) (P : α → Prop) (plan : List γ) (s : S)
    (r : EStateM.Result ε S α) : Prop :=
  ∃ l, obs (final r) = obs s ++ l ∧ l <+: plan ∧ ∀ a t, r = .ok a t → P a → l = plan

section Rules

variable {obs : S → List γ} {P : α → Prop} {Q : β → Prop} {plan plan' : List γ} {s : S}
  {r : EStateM.Result ε S α} {x : EStateM ε S α} {f : α → EStateM ε S β}

/-- Nothing is observed. -/
theorem Follows.quiet (h : obs (final r) = obs s) : Follows obs P [] s r :=
  ⟨[], by rw [h, List.append_nil], List.prefix_rfl, fun _ _ _ _ => rfl⟩

theorem Follows.mono {P' : α → Prop} (h : Follows obs P plan s r) (hP : ∀ a, P' a → P a) :
    Follows obs P' plan s r := by
  obtain ⟨l, hobs, hpre, hall⟩ := h
  exact ⟨l, hobs, hpre, fun a t hr ha => hall a t hr (hP a ha)⟩

/-- One plan behind the other. Where the second run is not needed nothing more happens, and the value
says that the plan was not completed. -/
theorem Follows.bind (hx : Follows obs P plan s (x s)) (hf : ∀ a t, x s = .ok a t →
      P a ∧ Follows obs Q plan' t (f a t) ∨ ∃ b, f a t = .ok b t ∧ ¬ Q b) :
    Follows obs Q (plan ++ plan') s ((x >>= f) s) := by
  obtain ⟨l, hobs, hpre, hall⟩ := hx
  rcases hr : x s with ⟨a, t⟩ | ⟨e, t⟩ <;> rw [hr] at hobs
  · rw [bind_ok hr]
    rcases hf a t hr with ⟨ha, l', hobs', hpre', hall'⟩ | ⟨b, hb, hno⟩
    · obtain rfl := hall a t hr ha
      refine ⟨l ++ l', ?_, (List.prefix_append_right_inj l).2 hpre', fun b u hu hb => ?_⟩
      · rw [hobs', ← List.append_assoc]
        exact congrArg (· ++ l') hobs
      · rw [hall' b u hu hb]
    · rw [hb]
      refine ⟨l, hobs, hpre.trans (List.prefix_append _ _), fun b' u hu hb' => ?_⟩
      cases hu
      exact absurd hb' hno
  · rw [bind_error hr]
    exact ⟨l, hobs, hpre.trans (List.prefix_append _ _), fun _ _ hu => by cases hu⟩

end Rules

section Blocks

variable {block : ℕ → List γ} {before after : List γ} {c : γ}

/-- An entry of a plan of blocks stands behind the blocks before its own, and what comes before it in
its own. -/
theorem exists_of_blocks : ∀ (n i : ℕ) (before : List γ),
    before ++ c :: after = (List.range' i n).flatMap block → ∃ j pre post, i ≤ j ∧ j < i + n ∧
      block j = pre ++ c :: post ∧ before = (List.range' i (j - i)).flatMap block ++ pre
  | 0, _, _, h => by simp at h
  | n + 1, i, before, h => by
    have hlater (b : List γ)
        (hb : b ++ c :: after = (List.range' (i + 1) n).flatMap block) :
        ∃ j pre post, i ≤ j ∧ j < i + (n + 1) ∧ block j = pre ++ c :: post ∧
          block i ++ b = (List.range' i (j - i)).flatMap block ++ pre := by
      obtain ⟨j, pre, post, hj, hlt, hsplit, hpre⟩ := exists_of_blocks n (i + 1) b hb
      refine ⟨j, pre, post, by omega, by omega, hsplit, ?_⟩
      rw [hpre, show j - i = (j - (i + 1)) + 1 by omega, List.range'_succ, List.flatMap_cons,
        List.append_assoc]
    rw [List.range'_succ, List.flatMap_cons] at h
    rcases List.append_eq_append_iff.1 h with ⟨pre, hblock, hrest⟩ | ⟨b, rfl, hrest⟩
    · -- it begins in the first block, or is the first entry behind it
      rcases pre with _ | ⟨c', post⟩
      · rw [List.append_nil] at hblock
        rw [← hblock]
        have := hlater [] hrest
        rwa [List.append_nil] at this
      · obtain ⟨rfl, -⟩ := List.cons.inj hrest
        refine ⟨i, before, post, by omega, by omega, hblock, ?_⟩
        rw [Nat.sub_self]
        rfl
    · exact hlater b hrest.symm

/-- An entry that is not in the first part is in the second. -/
theorem exists_of_append {l l' before : List γ} (h : l ++ l' = before ++ c :: after) (hc : c ∉ l) :
    ∃ b, before = l ++ b ∧ l' = b ++ c :: after := by
  rcases List.append_eq_append_iff.1 h with ⟨b, hb, hrest⟩ | ⟨m, rfl, hrest⟩
  · exact ⟨b, hb, hrest⟩
  · rcases m with _ | ⟨c', m⟩
    · exact ⟨[], by simp, by simpa using hrest.symm⟩
    · refine absurd ?_ hc
      rw [(List.cons.inj hrest).1]
      exact List.mem_append_right _ List.mem_cons_self

/-- An entry behind which a marked one does not come again is the marked one or behind it. -/
theorem mem_behind {l pre mid : List γ} {t : γ} (h : l ++ c :: after = pre ++ t :: mid)
    (hmid : c ∉ mid) : t = c ∨ t ∈ after := by
  rcases List.append_eq_append_iff.1 h with ⟨m, -, hrest⟩ | ⟨m, -, hrest⟩
  · rcases m with _ | ⟨c', m⟩
    · exact .inl (List.cons.inj hrest).1.symm
    · refine .inr ?_
      rw [(List.cons.inj hrest).2]
      exact List.mem_append_right _ List.mem_cons_self
  · rcases m with _ | ⟨t', m⟩
    · exact .inl (List.cons.inj hrest).1
    · refine absurd ?_ hmid
      rw [(List.cons.inj hrest).2]
      exact List.mem_append_right _ List.mem_cons_self

end Blocks
