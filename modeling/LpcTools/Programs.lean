import LpcTools.Identify

/-!
# The programs on an open line

What `main` of `lpcisp` and of `lpcprog` does once the serial device is open. `lpcisp` opens a session
or runs one command, whose value only decides what is printed.
-/

namespace LpcTools

variable {σ : Type} (E : Sys σ)

/-- What one of the programs is started for. The search of the parts file goes with `lpcprog`. -/
inductive Invocation where
  | synchronize
  | isp (cmd : List UInt8) (args : List (List UInt8))
  | prog (freq : UInt32) (find : UInt64 → Option PartEntry) (calcUserCode : ℤ) (cmd : List UInt8)
      (args : List (List UInt8))

/-- The frequency `lpcisp` synchronizes with, which no option changes. -/
def ispCrystalFreq : UInt32 := 10000

/-- The exit value, `none` while the polls of a connection go on. -/
def Invocation.run (fuel : ℕ) : Invocation → Prog σ (Option ℤ)
  | synchronize => do
    match ← ispConnect E fuel ispCrystalFreq with
    | none => return none
    | some _ => return some 0
  | isp cmd args => do
    let _ ← ispHandleCommand E (some cmd) args
    return some 0
  | prog freq find calcUserCode cmd args => lpcprog E fuel freq find calcUserCode cmd args

end LpcTools
