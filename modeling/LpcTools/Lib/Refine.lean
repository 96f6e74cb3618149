import Mathlib.Tactic.Common

/-!
# Histories of two machines

A machine that may break down refines one that may not if, in states that are related, a step that the
second allows does not break the first down and leaves related states (`Refine.Keeps`). Then a whole
history of allowed steps does not break it down either (`Refine.Keeps.run`). A step of the first may stand
for any number of steps of the second (`Refine.KeepsAll.run`).
-/

namespace Refine

variable {α β ι : Type} {step : α → ι → Option α} {perform : β → ι → β} {ok : β → ι → Prop}
  {R : α → β → Prop}

/-- Each step is allowed in the state in which it is taken. -/
def Along (perform : β → ι → β) (ok : β → ι → Prop) : β → List ι → Prop
  | _, [] => True
  | b, i :: is => ok b i ∧ Along perform ok (perform b i) is

def Keeps (step : α → ι → Option α) (perform : β → ι → β) (ok : β → ι → Prop) (R : α → β → Prop) : Prop :=
  ∀ a b i, R a b → ok b i → ∃ a', step a i = some a' ∧ R a' (perform b i)

theorem Along.append : ∀ {b : β} {is js : List ι}, Along perform ok b is →
    Along perform ok (is.foldl perform b) js → Along perform ok b (is ++ js)
  | _, [], _, _, hjs => hjs
  | _, _ :: _, _, ⟨hi, his⟩, hjs => ⟨hi, his.append hjs⟩

theorem Along.of_append : ∀ {b : β} {is js : List ι}, Along perform ok b (is ++ js) →
    Along perform ok b is ∧ Along perform ok (is.foldl perform b) js
  | _, [], _, h => ⟨trivial, h⟩
  | _, _ :: _, _, ⟨hi, h⟩ => ⟨⟨hi, h.of_append.1⟩, h.of_append.2⟩

/-- The inputs stand for others. -/
theorem Along.map {κ : Type} {f : κ → ι} : ∀ {b : β} {ks : List κ}, Along perform ok b (ks.map f) →
    Along (fun b k => perform b (f k)) (fun b k => ok b (f k)) b ks
  | _, [], _ => trivial
  | _, _ :: _, ⟨hk, hks⟩ => ⟨hk, hks.map⟩

theorem Keeps.run (hkeeps : Keeps step perform ok R) : ∀ {is : List ι} {a : α} {b : β}, R a b →
    Along perform ok b is → ∃ a', is.foldlM step a = some a' ∧ R a' (is.foldl perform b)
  | [], a, _, hab, _ => ⟨a, rfl, hab⟩
  | i :: is, a, b, hab, ⟨hi, his⟩ => by
    obtain ⟨a₁, hstep, hab₁⟩ := hkeeps a b i hab hi
    obtain ⟨a', hrun, hab'⟩ := hkeeps.run hab₁ his
    refine ⟨a', ?_, hab'⟩
    rw [List.foldlM_cons, hstep]
    exact hrun

section Many

variable {κ : Type} {move : α → κ → Option α} {asks : κ → List ι → Prop}

def KeepsAll (move : α → κ → Option α) (asks : κ → List ι → Prop) (perform : β → ι → β) (ok : β → ι → Prop)
    (R : α → β → Prop) : Prop :=
  ∀ a b k is, R a b → asks k is → Along perform ok b is → ∃ a', move a k = some a' ∧ R a' (is.foldl perform b)

theorem KeepsAll.run (hkeeps : KeepsAll move asks perform ok R) {ks : List κ} {iss : List (List ι)}
    (hasks : List.Forall₂ asks ks iss) : ∀ {a : α} {b : β}, R a b → Along perform ok b iss.flatten →
      ∃ a', ks.foldlM move a = some a' ∧ R a' (iss.flatten.foldl perform b) := by
  induction hasks with
  | nil => exact fun {a b} hab _ => ⟨a, rfl, hab⟩
  | cons hk _ ih =>
    intro a b hab hok
    rw [List.flatten_cons] at hok
    obtain ⟨his, hrest⟩ := hok.of_append
    obtain ⟨a₁, hmove, hab₁⟩ := hkeeps a b _ _ hab hk his
    obtain ⟨a', hrun, hab'⟩ := ih hab₁ hrest
    refine ⟨a', ?_, ?_⟩
    · rw [List.foldlM_cons, hmove]
      exact hrun
    · rw [List.flatten_cons, List.foldl_append]
      exact hab'

end Many

end Refine
