import LpcTools.Lib.Loop

/-!
# Computations that are given a bound

A computation with a bound may have to say that the bound was too small, by a value that is kept for that.
It settles if from some bound on it has one result, which is not that value (`Settles`). What is built from
computations that settle does so too.
-/

namespace Run

variable {ε S α β : Type}

def Settles (stuck : α) (x : ℕ → EStateM ε S α) (s : S) : Prop :=
  ∃ r, (∀ t, r ≠ .ok stuck t) ∧ ∃ n, ∀ bound ≥ n, x bound s = r

section Settles

variable {u : α} {v : β} {x : ℕ → EStateM ε S α} {f : ℕ → α → EStateM ε S β} {s s' : S}

/-- A result that does not depend on the bound. -/
theorem Settles.const {y : EStateM ε S α} (h : ∀ t, y s ≠ .ok u t) : Settles u (fun _ => y) s :=
  ⟨y s, h, 0, fun _ _ => rfl⟩

theorem Settles.pure {a : α} (h : a ≠ u) : Settles u (fun _ => (pure a : EStateM ε S α)) s :=
  .const fun _ hr => h (by cases hr; rfl)

/-- A step is taken, which uses the bound up by one. -/
theorem Settles.step {x' : ℕ → EStateM ε S α} (h : Settles u x' s')
    (heq : ∀ bound, x (bound + 1) s = x' bound s') : Settles u x s := by
  obtain ⟨r, hr, n, hn⟩ := h
  refine ⟨r, hr, n + 1, fun bound hle => ?_⟩
  obtain ⟨bound, rfl⟩ : ∃ k, bound = k + 1 := ⟨bound - 1, by omega⟩
  rw [heq, hn bound (by omega)]

theorem Settles.stop {r : EStateM.Result ε S α} (hr : ∀ t, r ≠ .ok u t) (heq : ∀ bound, x (bound + 1) s = r) :
    Settles u x s := by
  refine ⟨r, hr, 1, fun bound hle => ?_⟩
  obtain ⟨bound, rfl⟩ : ∃ k, bound = k + 1 := ⟨bound - 1, by omega⟩
  exact heq bound

theorem Settles.bind (hx : Settles u x s) (hf : ∀ a t, a ≠ u → Settles v (fun bound => f bound a) t) :
    Settles v (fun bound => x bound >>= f bound) s := by
  obtain ⟨r, hr, n, hn⟩ := hx
  rcases r with ⟨a, t⟩ | ⟨e, t⟩
  · have ha : a ≠ u := by
      rintro rfl
      exact hr t rfl
    obtain ⟨r', hr', n', hn'⟩ := hf a t ha
    exact ⟨r', hr', max n n', fun bound hle => (bind_ok (hn bound (by omega))).trans (hn' bound (by omega))⟩
  · exact ⟨.error e t, fun t' ht => (by cases ht), n, fun bound hle => bind_error (hn bound hle)⟩

/-- The bound only matters to what comes behind. -/
theorem Settles.lift {y : EStateM ε S α} (hf : ∀ a t, Settles v (fun bound => f bound a) t) :
    Settles v (fun bound => y >>= f bound) s := by
  rcases hy : y s with ⟨a, t⟩ | ⟨e, t⟩
  · obtain ⟨r, hr, n, hn⟩ := hf a t
    exact ⟨r, hr, n, fun bound hle => (bind_ok hy).trans (hn bound hle)⟩
  · exact ⟨.error e t, fun t' ht => (by cases ht), 0, fun bound _ => bind_error hy⟩

end Settles

end Run
