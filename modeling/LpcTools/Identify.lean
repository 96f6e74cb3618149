import LpcTools.Connect
import LpcTools.Parts
import LpcTools.Tools

/-!
# How `lpcprog` comes to a part

The target is connected and asked for its part id, which is an `int` that is also a status or an error
of the request, and the part is looked for in the parts file.
-/

namespace LpcTools

variable {σ : Type} (E : Sys σ)

/-- The connection, with the request that is sent for nothing when it fails. It is not over where the
polls run out. -/
def syncTarget (fuel : ℕ) (freq : UInt32) : Prog σ Bool := do
  match ← ispConnect E fuel freq with
  | none => return false
  | some syncRet =>
    if syncRet < 0 then do
      let _ ← ispCmdPartId E 1
      return true
    else return true

def progConnectAndId (fuel : ℕ) (freq : UInt32) : Prog σ (Option ℤ) := do
  if ← syncTarget E fuel freq then some <$> ispCmdPartId E 1
  else return none

/-- An `int` where a `uint64_t` is asked for. -/
def toUint64 (z : ℤ) : UInt64 := UInt64.ofNat (z % 2 ^ 64).toNat

/-- The search of a parts file; a search that runs out of the buffer finds nothing. -/
def findPart (einval : Bool) (stale : ℕ → ℕ → UInt8) (partsFile : Option (List UInt8))
    (devId : UInt64) : Option PartEntry :=
  (findPartInFile einval stale devId partsFile).join

/-- What `main` does with the id: a negative one is a failure to connect. -/
def partFor (find : UInt64 → Option PartEntry) (devId : ℤ) : Option PartEntry :=
  if devId < 0 then none else find (toUint64 devId)

/-- The end of `main`, from the connection on. -/
def lpcprog (fuel : ℕ) (freq : UInt32) (find : UInt64 → Option PartEntry) (calcUserCode : ℤ)
    (command : List UInt8) (args : List (List UInt8)) : Prog σ (Option ℤ) := do
  match ← progConnectAndId E fuel freq with
  | none => return none
  | some devId =>
    if devId < 0 then return some (-1)
    else do
      let _ ← progHandleCommand E (fun id => (find (toUint64 id)).map PartEntry.desc) calcUserCode
        (some command) devId args
      return some 0

end LpcTools
