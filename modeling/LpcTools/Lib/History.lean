import Mathlib.Tactic.Common

/-!
# Sequences in which each entry is allowed by those before it

`Guarded ok stop before l` says of the entries `l`, made after `before`, that `ok` allows each by all
that came before it, and that nothing comes behind an entry that stops. What it says of an entry does
not depend on how the sequence was put together (`Guarded.split`).
-/

namespace History

variable {α : Type} (ok : List α → α → Prop) (stop : α → Prop)

def Guarded : List α → List α → Prop
  | _, [] => True
  | before, a :: l => ok before a ∧ (stop a → l = []) ∧ Guarded (before ++ [a]) l

variable {ok stop}

theorem Guarded.nil (before : List α) : Guarded ok stop before [] := trivial

theorem Guarded.single {before : List α} {a : α} (h : ok before a) : Guarded ok stop before [a] :=
  ⟨h, fun _ => rfl, trivial⟩

theorem Guarded.append : ∀ {before l l' : List α}, Guarded ok stop before l →
    (∀ a ∈ l, ¬ stop a) → Guarded ok stop (before ++ l) l' → Guarded ok stop before (l ++ l')
  | before, [], l', _, _, h' => by rwa [List.append_nil] at h'
  | before, a :: l, l', ⟨hok, _, h⟩, hrun, h' => by
    refine ⟨hok, fun hstop => absurd hstop (hrun a List.mem_cons_self), ?_⟩
    refine Guarded.append h (fun b hb => hrun b (List.mem_cons_of_mem _ hb)) ?_
    rwa [List.append_assoc, List.singleton_append]

/-- What holds of an entry, wherever it stands. -/
theorem Guarded.split : ∀ {before pre post : List α} {a : α},
    Guarded ok stop before (pre ++ a :: post) → ok (before ++ pre) a ∧ (stop a → post = [])
  | before, [], post, a, ⟨hok, hstop, _⟩ => by
    rw [List.append_nil]
    exact ⟨hok, hstop⟩
  | before, b :: pre, post, a, ⟨_, _, h⟩ => by
    have := Guarded.split h
    rwa [List.append_assoc, List.singleton_append] at this

end History
