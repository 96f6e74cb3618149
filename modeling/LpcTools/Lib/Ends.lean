import LpcTools.Lib.Loop

/-!
# Pre- and postconditions

`Ends r P Q` says that a run that returned has left what `P` asks for, and one that faulted what `Q`
asks for. There is one rule for each way to build a computation, and the loop's is the invariant.
-/

namespace Run

variable {ε S α β : Type}

def Ends (r : EStateM.Result ε S α) (P : α → S → Prop) (Q : ε → S → Prop) : Prop :=
  match r with
  | .ok a s => P a s
  | .error e s => Q e s

/-- How a run faulted, if it did. -/
def fault : EStateM.Result ε S α → Option ε
  | .ok _ _ => none
  | .error e _ => some e

@[simp] theorem fault_ok (a : α) (s : S) : fault (.ok a s : EStateM.Result ε S α) = none := rfl

@[simp] theorem fault_error (e : ε) (s : S) : fault (.error e s : EStateM.Result ε S α) = some e :=
  rfl

section Rules

variable {r : EStateM.Result ε S α} {P P' : α → S → Prop} {Q Q' : ε → S → Prop}
  {P₂ : β → S → Prop} {x : EStateM ε S α} {f : α → EStateM ε S β} {a : α} {e : ε} {s : S}

theorem Ends.ok (h : Ends r P Q) (hr : r = .ok a s) : P a s := by
  rw [hr] at h
  exact h

theorem Ends.error (h : Ends r P Q) (hr : r = .error e s) : Q e s := by
  rw [hr] at h
  exact h

theorem Ends.mono (h : Ends r P Q) (hP : ∀ a s, P a s → P' a s) (hQ : ∀ e s, Q e s → Q' e s) :
    Ends r P' Q' := by
  rcases r with ⟨a, s⟩ | ⟨e, s⟩
  · exact hP a s h
  · exact hQ e s h

theorem Ends.and (h : Ends r P Q) (h' : Ends r P' Q') :
    Ends r (fun a s => P a s ∧ P' a s) (fun e s => Q e s ∧ Q' e s) := by
  rcases r with ⟨a, s⟩ | ⟨e, s⟩ <;> exact ⟨h, h'⟩

/-- What holds of the final state either way. -/
theorem Ends.of_final {R : S → Prop} (h : R (final r)) : Ends r (fun _ => R) (fun _ => R) := by
  rcases r with ⟨a, s⟩ | ⟨e, s⟩ <;> exact h

theorem Ends.pure (h : P a s) : Ends ((pure a : EStateM ε S α) s) P Q := h

theorem Ends.bind (hx : Ends (x s) P Q) (hf : ∀ a t, P a t → Ends (f a t) P₂ Q) :
    Ends ((x >>= f) s) P₂ Q := by
  rcases h : x s with ⟨a, t⟩ | ⟨e, t⟩ <;> rw [h] at hx
  · rw [bind_ok h]
    exact hf a t hx
  · rw [bind_error h]
    exact hx

theorem Ends.bind_ok {t : S} (hx : x s = .ok a t) (hf : Ends (f a t) P₂ Q) :
    Ends ((x >>= f) s) P₂ Q := by
  rw [Run.bind_ok hx]
  exact hf

theorem Ends.map {g : α → β} (hx : Ends (x s) (fun a => P₂ (g a)) Q) : Ends ((g <$> x) s) P₂ Q := by
  rcases h : x s with ⟨a, t⟩ | ⟨e, t⟩ <;> rw [h] at hx
  · rw [map_ok h]
    exact hx
  · rw [map_error h]
    exact hx

theorem Ends.ite {p : Prop} [Decidable p] {y : EStateM ε S α} (hx : p → Ends (x s) P Q)
    (hy : ¬ p → Ends (y s) P Q) : Ends ((if p then x else y) s) P Q := by
  by_cases hp : p
  · rw [if_pos hp]
    exact hx hp
  · rw [if_neg hp]
    exact hy hp

end Rules

end Run

open Run

/-- What holds at the head of a loop, every turn keeps, and the last one leaves with its result. -/
theorem Loop.ends {ε S α β : Type} {L : Loop ε S α β} {I : α → S → Prop} {P : β → S → Prop}
    {Q : ε → S → Prop}
    (hbody : ∀ a s, I a s → Ends (L.body a s) (fun r t => Sum.elim (I · t) (P · t) r) Q)
    {a : α} {s : S} (h : I a s) : Ends (L.run a s) P Q := by
  induction a, s using L.run_induction with
  | step a s ih =>
    have hb := hbody a s h
    rcases hr : L.body a s with ⟨a' | b, t⟩ | ⟨e, t⟩ <;> rw [hr] at hb
    · rw [run_inl hr]
      exact ih a' t hr hb
    · rw [run_inr hr]
      exact hb
    · rw [run_error hr]
      exact hb
