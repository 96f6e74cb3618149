import LpcTools.Lib.Loop

/-!
# Runs over two states

Two runs over states of their own are alike if they end in the same way, with the same value or the
same fault, and leave states that are related (`Run.Alike`). There is one rule for each way to build a
computation. Two loops are alike if their bodies are, at all locals that keep an invariant
(`Loop.alike`).
-/

namespace Run

variable {ε S T α β : Type}

inductive Alike (R : S → T → Prop) : EStateM.Result ε S α → EStateM.Result ε T α → Prop
  | ok (a : α) {s : S} {t : T} (h : R s t) : Alike R (.ok a s) (.ok a t)
  | error (e : ε) {s : S} {t : T} (h : R s t) : Alike R (.error e s) (.error e t)

section Rules

variable {R R' : S → T → Prop} {x : EStateM ε S α} {y : EStateM ε T α} {f : α → EStateM ε S β}
  {g : α → EStateM ε T β} {r : EStateM.Result ε S α} {r' : EStateM.Result ε T α} {s : S} {t : T}

theorem Alike.final (h : Alike R r r') : R (final r) (final r') := by
  cases h with
  | ok a h => exact h
  | error e h => exact h

theorem Alike.eq_ok {a : α} {s' : S} (h : Alike R r r') (hr : r = .ok a s') :
    ∃ t', r' = .ok a t' ∧ R s' t' := by
  subst hr
  cases h with
  | ok _ h => exact ⟨_, rfl, h⟩

theorem Alike.pure (a : α) (h : R s t) :
    Alike R ((pure a : EStateM ε S α) s) ((pure a : EStateM ε T α) t) := .ok a h

theorem Alike.throw (e : ε) (h : R s t) :
    Alike R ((throw e : EStateM ε S α) s) ((throw e : EStateM ε T α) t) := .error e h

/-- What comes next may use that the first of the two runs came so far. -/
theorem Alike.bind (hx : Alike R (x s) (y t))
    (hf : ∀ a s' t', x s = .ok a s' → R s' t' → Alike R (f a s') (g a t')) :
    Alike R ((x >>= f) s) ((y >>= g) t) := by
  rcases hr : x s with ⟨a, s'⟩ | ⟨e, s'⟩ <;> rcases hr' : y t with ⟨b, t'⟩ | ⟨e', t'⟩ <;>
    rw [hr, hr'] at hx
  · cases hx with
    | ok _ h =>
      rw [bind_ok hr, bind_ok hr']
      exact hf a s' t' hr h
  · cases hx
  · cases hx
  · cases hx with
    | error _ h =>
      rw [bind_error hr, bind_error hr']
      exact .error e h

theorem Alike.map (k : α → β) (hx : Alike R (x s) (y t)) :
    Alike R ((k <$> x) s) ((k <$> y) t) := by
  rcases hr : x s with ⟨a, s'⟩ | ⟨e, s'⟩ <;> rcases hr' : y t with ⟨b, t'⟩ | ⟨e', t'⟩ <;>
    rw [hr, hr'] at hx
  · cases hx with
    | ok _ h =>
      rw [map_ok hr, map_ok hr']
      exact .ok (k a) h
  · cases hx
  · cases hx
  · cases hx with
    | error _ h =>
      rw [map_error hr, map_error hr']
      exact .error e h

theorem Alike.ite {p : Prop} [Decidable p] {x' : EStateM ε S α} {y' : EStateM ε T α}
    (hx : p → Alike R (x s) (y t)) (hy : ¬ p → Alike R (x' s) (y' t)) :
    Alike R ((if p then x else x') s) ((if p then y else y') t) := by
  by_cases hp : p
  · rw [if_pos hp, if_pos hp]
    exact hx hp
  · rw [if_neg hp, if_neg hp]
    exact hy hp

/-- Each run goes on with the state it finds. -/
theorem Alike.get {f : S → EStateM ε S β} {g : T → EStateM ε T β} (h : Alike R (f s s) (g t t)) :
    Alike R ((get >>= f) s) ((get >>= g) t) := h

theorem Alike.modify {u : S → S} {v : T → T} (h : R (u s) (v t)) :
    Alike (ε := ε) R ((modify u : EStateM ε S PUnit) s) ((modify v : EStateM ε T PUnit) t) := .ok _ h

end Rules

end Run

open Run

/-- Two loops with bodies that are alike take the same turns. -/
theorem Loop.alike {ε S T α β : Type} {R : S → T → Prop} {L : Loop ε S α β} {L' : Loop ε T α β}
    {I : α → Prop} (hbody : ∀ a s t, I a → R s t → Alike R (L.body a s) (L'.body a t))
    (hkeep : ∀ a s a' s', I a → L.body a s = .ok (.inl a') s' → I a') {a : α} {s : S} {t : T}
    (ha : I a) (h : R s t) : Alike R (L.run a s) (L'.run a t) := by
  revert t ha
  induction a, s using L.run_induction with
  | step a s ih =>
    intro t ha h
    have hb := hbody a s t ha h
    rcases hr : L.body a s with ⟨a' | b, s'⟩ | ⟨e, s'⟩ <;> rcases hr' : L'.body a t with
      ⟨c' | c, t'⟩ | ⟨e', t'⟩ <;> rw [hr, hr'] at hb <;> cases hb
    · rename_i hst
      rw [run_inl hr, run_inl hr']
      exact ih a' s' hr (hkeep a s a' s' ha hr) hst
    · rename_i hst
      rw [run_inr hr, run_inr hr']
      exact .ok b hst
    · rename_i hst
      rw [run_error hr, run_error hr']
      exact .error e hst
