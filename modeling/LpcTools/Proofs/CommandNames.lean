import LpcTools.Tools
import LpcTools.Wire
import LpcTools.Proofs.Layout

/-!
# Which strings run a command

Both tools compare a string with a name over the length of the name, so every longer string that
starts with it is taken for it. No name starts with another one, and the strings that go wrong are
exactly those (`runs_named_iff`).
-/

namespace LpcTools

open Run Decimal

section Tables

variable {α : Type} (table : List (α × String)) (cmd : List UInt8)

/-- The command whose name the string is. -/
def named : Option α := (table.find? fun entry => bytes entry.2.toList = cmd).map Prod.fst

/-- The string is not a name with something behind it. -/
def Unextended : Prop :=
  ∀ entry ∈ table, bytes entry.2.toList <+: cmd → bytes entry.2.toList = cmd

/-- No name starts with another one. -/
def PrefixFree : Prop :=
  ∀ entry ∈ table, ∀ entry' ∈ table, bytes entry.2.toList <+: bytes entry'.2.toList →
    bytes entry.2.toList = bytes entry'.2.toList

instance : Decidable (Unextended table cmd) :=
  inferInstanceAs (Decidable (∀ entry ∈ table, _ → _))

instance : Decidable (PrefixFree table) :=
  inferInstanceAs (Decidable (∀ entry ∈ table, ∀ entry' ∈ table, _ → _))

variable {table cmd}

theorem find?_congr {p q : α → Bool} : ∀ {l : List α}, (∀ a ∈ l, p a = q a) → l.find? p = l.find? q
  | [], _ => rfl
  | a :: l, h => by
    rw [List.find?_cons, List.find?_cons, h a List.mem_cons_self,
      find?_congr fun a ha => h a (List.mem_cons_of_mem _ ha)]

theorem lookup_eq_named (hcmd : Unextended table cmd) : lookup table cmd = named table cmd := by
  unfold lookup named
  congr 1
  refine find?_congr fun entry hentry => ?_
  rw [Bool.eq_iff_iff, startOf, List.isPrefixOf_iff_prefix, decide_eq_true_eq]
  refine ⟨hcmd entry hentry, ?_⟩
  rintro rfl
  exact List.prefix_rfl

/-- A longer string is found, and is no name. -/
theorem lookup_of_extended (hfree : PrefixFree table) (hcmd : ¬ Unextended table cmd) :
    (∃ a, lookup table cmd = some a) ∧ named table cmd = none := by
  unfold Unextended at hcmd
  push Not at hcmd
  obtain ⟨entry, hentry, hpre, hne⟩ := hcmd
  constructor
  · rw [← Option.isSome_iff_exists, lookup, Option.isSome_map, List.find?_isSome]
    exact ⟨entry, hentry, List.isPrefixOf_iff_prefix.2 hpre⟩
  · rw [named, Option.map_eq_none_iff, List.find?_eq_none]
    intro entry' hentry' hname
    obtain rfl := of_decide_eq_true hname
    exact hne (hfree entry hentry entry' hentry' hpre)

end Tables

theorem ispCmdsList_prefixFree : PrefixFree ispCmdsList := by decide

theorem progCmdsList_prefixFree : PrefixFree progCmdsList := by decide

section Tools

variable (cmd : List UInt8)

/-- `lpcisp` runs the command that has this name, and reports every other string. -/
def IspRunsNamed : Prop :=
  ∀ {σ : Type} (E : Sys σ) (args : List (List UInt8)) (h : Host σ),
    ispHandleCommand E (some cmd) args h = match named ispCmdsList cmd with
      | none => .ok (-2) h
      | some command => command.run E args h

/-- So does `lpcprog`, for a part it has found. -/
def ProgRunsNamed : Prop :=
  ∀ {σ : Type} (E : Sys σ) (find : ℤ → Option PartDesc) (calcUserCode devId : ℤ) (part : PartDesc)
    (args : List (List UInt8)) (h : Host σ), find devId = some part →
    progHandleCommand E find calcUserCode (some cmd) devId args h =
      match named progCmdsList cmd with
      | none => .ok (-3) h
      | some command => command.run E part calcUserCode args h

/-- On a line that is dead, and without arguments, no command returns what an unknown one does. -/
theorem IspCommand.run_ne (command : IspCommand) :
    value (command.run (Sys.plain Unit) [] (.start () 0 0 0)) ≠ some (-2) := by
  cases command <;> decide +kernel

theorem ProgCommand.run_ne (command : ProgCommand) :
    value (command.run (Sys.plain Unit) ⟨0, 0, 0, 0, 0, 0, 0, 0, 0⟩ 0 [] (.start () 0 0 0)) ≠
      some (-3) := by
  cases command <;> decide +kernel

variable {cmd}

theorem ispRunsNamed_iff : IspRunsNamed cmd ↔ Unextended ispCmdsList cmd := by
  constructor
  · intro hruns
    by_contra hcmd
    obtain ⟨⟨command, hlookup⟩, hnamed⟩ := lookup_of_extended ispCmdsList_prefixFree hcmd
    have hrun := hruns (Sys.plain Unit) [] (.start () 0 0 0)
    simp only [ispHandleCommand, hlookup, hnamed] at hrun
    exact command.run_ne (congrArg value hrun)
  · intro hcmd σ E args h
    rw [ispHandleCommand, ← lookup_eq_named hcmd]
    rcases lookup ispCmdsList cmd with _ | command <;> rfl

theorem progRunsNamed_iff : ProgRunsNamed cmd ↔ Unextended progCmdsList cmd := by
  constructor
  · intro hruns
    by_contra hcmd
    obtain ⟨⟨command, hlookup⟩, hnamed⟩ := lookup_of_extended progCmdsList_prefixFree hcmd
    have hrun := hruns (Sys.plain Unit) (fun _ => some ⟨0, 0, 0, 0, 0, 0, 0, 0, 0⟩) 0 0 _ []
      (.start () 0 0 0) rfl
    simp only [progHandleCommand, hlookup, hnamed] at hrun
    exact command.run_ne (congrArg value hrun)
  · intro hcmd σ E find calcUserCode devId part args h hfind
    rw [progHandleCommand, hfind, ← lookup_eq_named hcmd]
    rcases lookup progCmdsList cmd with _ | command <;> rfl

end Tools

/-- A string runs the command it names and no other exactly when it is not a name with something
behind it. -/
theorem runs_named_iff (cmd : List UInt8) :
    (IspRunsNamed cmd ↔ Unextended ispCmdsList cmd) ∧
      (ProgRunsNamed cmd ↔ Unextended progCmdsList cmd) :=
  ⟨ispRunsNamed_iff, progRunsNamed_iff⟩

/-- A string that no command has for its name erases the sectors 0 to 7, and one that no command of
`lpcprog` has runs `flash`. -/
theorem erases_unnamed :
    let E := (scripted fun _ => 100).sys (Sys.plain _)
    let cmd := bytes "erase-all".toList
    let r := ispHandleCommand E (some cmd) [bytes ['0'], bytes ['7']]
      (.start (.quiet [bytes "0\r\n".toList]) 0 0 0)
    named ispCmdsList cmd = none ∧ value r = some 0 ∧
      (final r).requested = [bytes "E 0 7\r\n".toList] ∧ ¬ IspRunsNamed cmd ∧
      ¬ ProgRunsNamed (bytes "flashy".toList) := by
  refine ⟨by decide, by decide +kernel, by decide +kernel, ?_, ?_⟩
  · rw [ispRunsNamed_iff]
    decide
  · rw [progRunsNamed_iff]
    decide

end LpcTools
