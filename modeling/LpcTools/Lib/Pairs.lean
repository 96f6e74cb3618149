import LpcTools.Lib.Ends

/-!
# Two runs side by side

Two runs are `Paired` when both return, or both fault in the same way, and what they leave is related.
What is built of computations that are paired is paired, and for two loops the invariant relates their
heads.
-/

namespace Run

variable {ε S T α α' β β' : Type}

def Paired (P : α → S → α' → T → Prop) (Q : S → T → Prop) :
    EStateM.Result ε S α → EStateM.Result ε T α' → Prop
  | .ok a s, .ok a' t => P a s a' t
  | .error e s, .error e' t => e = e' ∧ Q s t
  | _, _ => False

section Rules

variable {P P' : α → S → α' → T → Prop} {P₂ : β → S → β' → T → Prop} {Q Q' : S → T → Prop}
  {r : EStateM.Result ε S α} {r' : EStateM.Result ε T α'} {x : EStateM ε S α} {x' : EStateM ε T α'}
  {f : α → EStateM ε S β} {f' : α' → EStateM ε T β'} {s : S} {t : T}

theorem Paired.mono (h : Paired P Q r r') (hP : ∀ a s a' t, P a s a' t → P' a s a' t)
    (hQ : ∀ s t, Q s t → Q' s t) : Paired P' Q' r r' := by
  rcases r with ⟨a, s⟩ | ⟨e, s⟩ <;> rcases r' with ⟨a', t⟩ | ⟨e', t⟩
  · exact hP a s a' t h
  · exact h
  · exact h
  · exact ⟨h.1, hQ s t h.2⟩

theorem Paired.bind (hx : Paired P Q (x s) (x' t))
    (hf : ∀ a s a' t, P a s a' t → Paired P₂ Q (f a s) (f' a' t)) :
    Paired P₂ Q ((x >>= f) s) ((x' >>= f') t) := by
  rcases h : x s with ⟨a, s₁⟩ | ⟨e, s₁⟩ <;> rcases h' : x' t with ⟨a', t₁⟩ | ⟨e', t₁⟩ <;>
    rw [h, h'] at hx
  · rw [Run.bind_ok h, Run.bind_ok h']
    exact hf a s₁ a' t₁ hx
  · exact absurd hx id
  · exact absurd hx id
  · rw [bind_error h, bind_error h']
    exact hx

theorem Paired.map {g : α → β} {g' : α' → β'}
    (hx : Paired (fun a s a' t => P₂ (g a) s (g' a') t) Q (x s) (x' t)) :
    Paired P₂ Q ((g <$> x) s) ((g' <$> x') t) := by
  rcases h : x s with ⟨a, s₁⟩ | ⟨e, s₁⟩ <;> rcases h' : x' t with ⟨a', t₁⟩ | ⟨e', t₁⟩ <;>
    rw [h, h'] at hx
  · rw [map_ok h, map_ok h']
    exact hx
  · exact absurd hx id
  · exact absurd hx id
  · rw [map_error h, map_error h']
    exact hx

/-- Runs that leave the same are the same. -/
theorem Paired.eq {P : α → S → α → S → Prop} {Q : S → S → Prop} {r r' : EStateM.Result ε S α}
    (h : Paired P Q r r') (hP : ∀ a s a' s', P a s a' s' → a = a' ∧ s = s')
    (hQ : ∀ s s', Q s s' → s = s') : r = r' := by
  rcases r with ⟨a, s⟩ | ⟨e, s⟩ <;> rcases r' with ⟨a', s'⟩ | ⟨e', s'⟩
  · obtain ⟨rfl, rfl⟩ := hP _ _ _ _ h
    rfl
  · exact absurd h id
  · exact absurd h id
  · obtain ⟨rfl, hs⟩ := h
    rw [hQ _ _ hs]

end Rules

/-- The two loops go round again together, or are left together. -/
def Together (I : α → S → α' → T → Prop) (P : β → S → β' → T → Prop) :
    α ⊕ β → S → α' ⊕ β' → T → Prop
  | .inl a, s, .inl a', t => I a s a' t
  | .inr b, s, .inr b', t => P b s b' t
  | _, _, _, _ => False

end Run

open Run

/-- What relates the heads of two loops, a turn of both keeps, or both are left together. -/
theorem Loop.paired {ε S T α α' β β' : Type} {L : Loop ε S α β} {L' : Loop ε T α' β'}
    {I : α → S → α' → T → Prop} {P : β → S → β' → T → Prop} {Q : S → T → Prop}
    (hbody : ∀ a s a' t, I a s a' t → Paired (Together I P) Q (L.body a s) (L'.body a' t))
    {a : α} {s : S} {a' : α'} {t : T} (h : I a s a' t) : Paired P Q (L.run a s) (L'.run a' t) := by
  induction a, s using L.run_induction generalizing a' t with
  | step a s ih =>
    have hb := hbody a s a' t h
    rcases hr : L.body a s with ⟨a₁ | b, s₁⟩ | ⟨e, s₁⟩ <;>
      rcases hr' : L'.body a' t with ⟨a₁' | b', t₁⟩ | ⟨e', t₁⟩ <;> rw [hr, hr'] at hb
    · rw [run_inl hr, run_inl hr']
      exact ih a₁ s₁ hr hb
    · exact absurd hb id
    · exact absurd hb id
    · exact absurd hb id
    · rw [run_inr hr, run_inr hr']
      exact hb
    · exact absurd hb id
    · exact absurd hb id
    · exact absurd hb id
    · rw [run_error hr, run_error hr']
      exact hb
