import Mathlib.Logic.Relation
import Mathlib.Order.Basic
import Mathlib.Tactic.Common

/-!
# Computations that may fault, and loops that end

A computation over a state returns a value or faults, and leaves a state either way
(`EStateM`). A loop is a body over its locals that goes round again or leaves, with a rank that
falls at every turn. `Loop.run_spec` says how a loop ends: at locals it reaches, the body leaves
or faults.
-/

namespace Run

variable {ε S α β : Type}

section Bind

variable {x : EStateM ε S α} {f : α → EStateM ε S β} {s t u : S} {a : α} {b : β} {e : ε}

theorem bind_ok (h : x s = .ok a t) : (x >>= f) s = f a t := by
  change EStateM.bind x f s = _
  simp only [EStateM.bind, h]

theorem bind_error (h : x s = .error e t) : (x >>= f) s = .error e t := by
  change EStateM.bind x f s = _
  simp only [EStateM.bind, h]

theorem bind_eq_ok : (x >>= f) s = .ok b u ↔ ∃ a t, x s = .ok a t ∧ f a t = .ok b u := by
  rcases h : x s with ⟨a, t⟩ | ⟨e, t⟩
  · rw [bind_ok h]
    refine ⟨fun hf => ⟨a, t, rfl, hf⟩, ?_⟩
    rintro ⟨a', t', hx, hf⟩
    cases hx
    exact hf
  · rw [bind_error h]
    simp

theorem bind_ite_eq_ok {p : α → Prop} [DecidablePred p] {g k : α → β} :
    (x >>= fun a => if p a then pure (g a) else pure (k a)) s = .ok b u ↔
      ∃ a, x s = .ok a u ∧ b = if p a then g a else k a := by
  rw [bind_eq_ok]
  refine exists_congr fun a => ?_
  constructor
  · rintro ⟨t, hx, hr⟩
    split_ifs at hr with hp <;> cases hr
    · exact ⟨hx, by rw [if_pos hp]⟩
    · exact ⟨hx, by rw [if_neg hp]⟩
  · rintro ⟨hx, rfl⟩
    exact ⟨u, hx, by split_ifs <;> rfl⟩

theorem map_ok {g : α → β} (h : x s = .ok a t) : (g <$> x) s = .ok (g a) t := by
  change EStateM.map g x s = _
  simp only [EStateM.map, h]

theorem map_error {g : α → β} (h : x s = .error e t) : (g <$> x) s = .error e t := by
  change EStateM.map g x s = _
  simp only [EStateM.map, h]

theorem map_congr {g : α → β} {y : EStateM ε S α} (h : x s = y s) : (g <$> x) s = (g <$> y) s := by
  change EStateM.map g x s = EStateM.map g y s
  simp only [EStateM.map, h]

end Bind

@[simp] theorem pure_apply (a : α) (s : S) : (pure a : EStateM ε S α) s = .ok a s := rfl

theorem pure_eq_ok {a a' : α} {s t : S} :
    (pure a : EStateM ε S α) s = .ok a' t ↔ a' = a ∧ t = s := by
  rw [pure_apply, EStateM.Result.ok.injEq]
  exact and_congr eq_comm eq_comm

@[simp] theorem get_apply (s : S) : (get : EStateM ε S S) s = .ok s s := rfl

@[simp] theorem modify_apply (g : S → S) (s : S) :
    (modify g : EStateM ε S PUnit) s = .ok ⟨⟩ (g s) := rfl

@[simp] theorem throw_apply (e : ε) (s : S) : (throw e : EStateM ε S α) s = .error e s := rfl

/-- The state a run leaves, whether it returned or faulted. -/
def final : EStateM.Result ε S α → S
  | .ok _ s => s
  | .error _ s => s

@[simp] theorem final_ok (a : α) (s : S) : final (.ok a s : EStateM.Result ε S α) = s := rfl

@[simp] theorem final_error (e : ε) (s : S) : final (.error e s : EStateM.Result ε S α) = s := rfl

/-- The value a run returned, if it did. -/
def value : EStateM.Result ε S α → Option α
  | .ok a _ => some a
  | .error _ _ => none

@[simp] theorem value_ok (a : α) (s : S) : value (.ok a s : EStateM.Result ε S α) = some a := rfl

@[simp] theorem final_map (g : α → β) (x : EStateM ε S α) (s : S) :
    final ((g <$> x) s) = final (x s) := by
  rcases h : x s with ⟨a, t⟩ | ⟨e, t⟩
  · rw [map_ok h]
    rfl
  · rw [map_error h]
    rfl

@[simp] theorem value_map (g : α → β) (x : EStateM ε S α) (s : S) :
    value ((g <$> x) s) = (value (x s)).map g := by
  rcases h : x s with ⟨a, t⟩ | ⟨e, t⟩
  · rw [map_ok h]
    rfl
  · rw [map_error h]
    rfl

/-- What both parts of a sequence do to the state, the sequence does, for a transitive relation. -/
theorem bind_final {R : S → S → Prop} {x : EStateM ε S α} {f : α → EStateM ε S β} {s : S}
    (htrans : ∀ {s t u}, R s t → R t u → R s u) (hx : R s (final (x s)))
    (hf : ∀ a t, x s = .ok a t → R t (final (f a t))) : R s (final ((x >>= f) s)) := by
  rcases h : x s with ⟨a, t⟩ | ⟨e, t⟩ <;> rw [h] at hx
  · rw [bind_ok h]
    exact htrans hx (hf a t h)
  · rwa [bind_error h]

/-- A sequence goes on from what its first part leaves. -/
theorem final_bind {R : S → S → Prop} {x : EStateM ε S α} {f : α → EStateM ε S β} {s : S}
    (hrefl : ∀ s, R s s) (hf : ∀ a t, x s = .ok a t → R t (final (f a t))) :
    R (final (x s)) (final ((x >>= f) s)) := by
  rcases h : x s with ⟨a, t⟩ | ⟨e, t⟩
  · rw [bind_ok h]
    exact hf a t h
  · rw [bind_error h]
    exact hrefl t

end Run

open Run

/-- A loop over locals `α`, left with a `β`. The body says whether to go round again, and the rank
falls when it does. -/
structure Loop (ε S α β : Type) where
  body : α → EStateM ε S (α ⊕ β)
  rank : α → S → ℕ
  rank_lt : ∀ {a s a' s'}, body a s = .ok (.inl a') s' → rank a' s' < rank a s

namespace Loop

variable {ε S α β : Type} (L : Loop ε S α β)

def runFrom (a : α) (s : S) : EStateM.Result ε S β :=
  match _h : L.body a s with
  | .ok (.inl a') s' => runFrom a' s'
  | .ok (.inr b) s' => .ok b s'
  | .error e s' => .error e s'
termination_by L.rank a s
decreasing_by exact L.rank_lt _h

def run (a : α) : EStateM ε S β := fun s => L.runFrom a s

variable {L} {a a' : α} {s s' t : S} {b : β} {e : ε}

theorem run_inl (h : L.body a s = .ok (.inl a') s') : L.run a s = L.run a' s' := by
  unfold run
  rw [runFrom]
  split <;> rename_i h' <;> rw [h] at h' <;> simp at h'
  obtain ⟨rfl, rfl⟩ := h'
  rfl

theorem run_inr (h : L.body a s = .ok (.inr b) s') : L.run a s = .ok b s' := by
  unfold run
  rw [runFrom]
  split <;> rename_i h' <;> rw [h] at h' <;> simp at h'
  obtain ⟨rfl, rfl⟩ := h'
  rfl

theorem run_error (h : L.body a s = .error e s') : L.run a s = .error e s' := by
  unfold run
  rw [runFrom]
  split <;> rename_i h' <;> rw [h] at h' <;> simp at h'
  obtain ⟨rfl, rfl⟩ := h'
  rfl

variable (L) in
/-- One turn of the body that goes round again. -/
def Turn (p q : α × S) : Prop := L.body p.1 p.2 = .ok (.inl q.1) q.2

variable (L) in
/-- The locals and states the loop passes through at its head. -/
def Reaches : α × S → α × S → Prop := Relation.ReflTransGen L.Turn

/-- The proof follows the turns the loop takes. -/
theorem run_induction {motive : α → S → Prop}
    (step : ∀ a s, (∀ a' s', L.body a s = .ok (.inl a') s' → motive a' s') → motive a s)
    (a : α) (s : S) : motive a s := by
  induction hn : L.rank a s using Nat.strongRecOn generalizing a s with
  | ind n ih =>
    subst hn
    exact step a s fun a' s' h => ih _ (L.rank_lt h) a' s' rfl

/-- The loop ends: at some locals it reaches, the body leaves or faults. -/
theorem run_spec (a : α) (s : S) : ∃ a' s', L.Reaches (a, s) (a', s') ∧
    ((∃ b t, L.body a' s' = .ok (.inr b) t ∧ L.run a s = .ok b t)
      ∨ ∃ e t, L.body a' s' = .error e t ∧ L.run a s = .error e t) := by
  induction a, s using L.run_induction with
  | step a s ih =>
    rcases h : L.body a s with ⟨a' | b, s'⟩ | ⟨e, s'⟩
    · obtain ⟨a'', s'', hr, hend⟩ := ih a' s' h
      refine ⟨a'', s'', .head (show L.Turn (a, s) (a', s') from h) hr, ?_⟩
      rwa [run_inl h]
    · exact ⟨a, s, .refl, .inl ⟨b, s', h, run_inr h⟩⟩
    · exact ⟨a, s, .refl, .inr ⟨e, s', h, run_error h⟩⟩

/-- A loop whose body never faults is left with a value. -/
theorem run_total (hbody : ∀ a s e t, L.body a s ≠ .error e t) (a : α) (s : S) :
    ∃ b t, L.run a s = .ok b t := by
  obtain ⟨a', s', -, ⟨b, t, -, hrun⟩ | ⟨e, t, hb, -⟩⟩ := run_spec (L := L) a s
  · exact ⟨b, t, hrun⟩
  · exact absurd hb (hbody _ _ _ _)

/-- What every turn does to the state, the whole run does, for a transitive relation. -/
theorem run_final {R : S → S → Prop} (htrans : ∀ {s t u}, R s t → R t u → R s u)
    (hbody : ∀ a s, R s (final (L.body a s))) (a : α) (s : S) : R s (final (L.run a s)) := by
  induction a, s using L.run_induction with
  | step a s ih =>
    have hb := hbody a s
    rcases h : L.body a s with ⟨a' | b, s'⟩ | ⟨e, s'⟩ <;> rw [h] at hb
    · rw [run_inl h]
      exact htrans hb (ih a' s' h)
    · rwa [run_inr h]
    · rwa [run_error h]

/-- What the first turn does to some state, the run does. -/
theorem final_of_body {R : S → S → Prop} (htrans : ∀ {s t u}, R s t → R t u → R s u)
    (hbody : ∀ a s, R s (final (L.body a s))) (h : R t (final (L.body a s))) :
    R t (final (L.run a s)) := by
  rcases hb : L.body a s with ⟨a' | b, s'⟩ | ⟨e, s'⟩ <;> rw [hb] at h
  · rw [run_inl hb]
    exact htrans h (run_final (R := R) htrans hbody a' s')
  · rwa [run_inr hb]
  · rwa [run_error hb]

end Loop
