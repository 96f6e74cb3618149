import LpcTools.Wrapper
import LpcTools.ProgCommands

/-!
# The command tables of `lpcisp` and `lpcprog`
-/

namespace LpcTools

open Decimal

inductive IspCommand where
  | unlock
  | writeToRam
  | readMemory
  | prepareForWrite
  | copyRamToFlash
  | go
  | erase
  | blankCheck
  | readPartId
  | readBootVersion
  | compare
  | readUid
  deriving DecidableEq

def ispCmdsList : List (IspCommand × String) := [
  (.unlock, "unlock"),
  (.writeToRam, "write-to-ram"),
  (.readMemory, "read-memory"),
  (.prepareForWrite, "prepare-for-write"),
  (.copyRamToFlash, "copy-ram-to-flash"),
  (.go, "go"),
  (.erase, "erase"),
  (.blankCheck, "blank-check"),
  (.readPartId, "read-part-id"),
  (.readBootVersion, "read-boot-version"),
  (.compare, "compare"),
  (.readUid, "read-uid")]

inductive ProgCommand where
  | dump
  | flash
  | id
  | blank
  | go
  deriving DecidableEq

def progCmdsList : List (ProgCommand × String) := [
  (.dump, "dump"),
  (.flash, "flash"),
  (.id, "id"),
  (.blank, "blank"),
  (.go, "go")]

/-- The first command of the table whose whole name `cmd` starts with. -/
def lookup {α : Type} (table : List (α × String)) (cmd : List UInt8) : Option α :=
  (table.find? fun entry => startOf (bytes entry.2.toList) cmd).map Prod.fst

variable {σ : Type} (E : Sys σ)

def IspCommand.run (args : List (List UInt8)) : IspCommand → Prog σ ℤ
  | .unlock => ispCmdUnlock E 0
  | .readPartId => ispCmdPartId E 0
  | .readBootVersion => ispCmdBootVersion E
  | .readUid => ispCmdReadUid E
  | .writeToRam => ispCmdWriteToRam E args
  | .readMemory => ispCmdReadMemory E args
  | .prepareForWrite => ispCmdPrepareForWrite E args
  | .copyRamToFlash => ispCmdCopyRamToFlash E args
  | .go => ispCmdGo E args
  | .erase => ispCmdErase E args
  | .blankCheck => ispCmdBlankCheck E args
  | .compare => ispCmdCompare E args

def ispHandleCommand (cmd : Option (List UInt8)) (args : List (List UInt8)) : Prog σ ℤ :=
  match cmd with
  | none => pure (-1)
  | some cmd =>
    match lookup ispCmdsList cmd with
    | none => pure (-2)
    | some command => command.run E args

def ProgCommand.run (part : PartDesc) (calcUserCode : ℤ) (args : List (List UInt8)) :
    ProgCommand → Prog σ ℤ
  | .dump =>
    match args with
    | [filename] => dumpToFile E part filename
    | _ => pure (-4)
  | .flash =>
    match args with
    | [filename] => flashTarget E part filename calcUserCode
    | _ => pure (-4)
  | .id => getIds E
  | .blank => eraseFlash E part
  | .go => startProg E part

/-- `findPart` is the search of the parts file for a device id. -/
def progHandleCommand (findPart : ℤ → Option PartDesc) (calcUserCode : ℤ)
    (cmd : Option (List UInt8)) (devId : ℤ) (args : List (List UInt8)) : Prog σ ℤ :=
  match cmd with
  | none => pure (-1)
  | some cmd =>
    match findPart devId with
    | none => pure (-2)
    | some part =>
      match lookup progCmdsList cmd with
      | none => pure (-3)
      | some command => command.run E part calcUserCode args

end LpcTools
