import LpcTools.Check
import LpcTools.Lib.Getopt
import LpcTools.Lib.Leading
import LpcTools.Programs

/-!
# `main` of the three programs

From the words behind the name of the program to the exit value. `Shell` is what a process finds besides
the system: whether options have to come first, the serial devices and the files that `fopen` opens. What
is printed and the memory for the words are left out.
-/

namespace LpcTools

open Decimal Getopt

/-- `atoi`: a `long` that is kept in its range, in an `int`. -/
def atoi (text : List UInt8) : ℤ :=
  toInt (max (-2 ^ 63) (min (2 ^ 63 - 1) ((leading text).getD 0)) % 2 ^ 64).toNat

/-- `B115200`. -/
def serialBaud : ℤ := 0x1002

structure Shell (σ : Type) where
  sys : Sys σ
  posixlyCorrect : Bool
  openDevice : Word → Option σ
  /-- The line set up for a speed. -/
  setAttr : ℤ → σ → σ
  partsFile : Word → Option (List UInt8)
  einval : Bool
  stale : ℕ → ℕ → UInt8

variable {σ : Type}

def Sys.withTrace (E : Sys σ) (traceOn : Bool) : Sys σ := { E with traceOn := traceOn }

/-- How a program ends: before a line is open, or with what it has done on it. -/
inductive Outcome (σ : Type) where
  | exit (code : ℤ)
  | ran (result : EStateM.Result Fault (Host σ) (Option ℤ))

def ispSerialOpen (S : Shell σ) (baudrate : ℤ) (serialDevice : Option Word) : Except ℤ σ :=
  match serialDevice with
  | none => throw (-2)
  | some device =>
    match S.openDevice device with
    | none => throw (-1)
    | some env => pure (S.setAttr baudrate env)

/-- The loop over the options, and the operands behind it. -/
def parameters {α : Type} (T : Table) (take : α → Found → Except ℤ α) (o : α) (posixlyCorrect : Bool)
    (argv : List Word) : Except ℤ (α × List Word) := do
  let o ← (T.scan posixlyCorrect none argv).1.foldlM take o
  return (o, (T.scan posixlyCorrect none argv).2)

section Isp

def ispTable : Table where
  optstring := bytes "sb:thv".toList
  longopts := [
    ⟨bytes "synchronize".toList, false, 's'.toUInt8⟩,
    ⟨bytes "baudrate".toList, true, 'b'.toUInt8⟩,
    ⟨bytes "trace".toList, false, 't'.toUInt8⟩,
    ⟨bytes "help".toList, false, 'h'.toUInt8⟩,
    ⟨bytes "version".toList, false, 'v'.toUInt8⟩]
  dash := by decide

structure IspOptions where
  baudrate : ℤ
  synchronize : Bool
  traceOn : Bool

def IspOptions.default : IspOptions := ⟨serialBaud, false, false⟩

/-- The `switch` of an option, with the exit value of one that ends the program. -/
def IspOptions.take (o : IspOptions) : Found → Except ℤ IspOptions
  | .option c arg =>
    if c = 'b'.toUInt8 then pure { o with baudrate := atoi (arg.getD []) }
    else if c = 't'.toUInt8 then pure { o with traceOn := true }
    else if c = 's'.toUInt8 then pure { o with synchronize := true }
    else if c = 'v'.toUInt8 then throw 0
    else throw 0
  | .unknown => throw 0

/-- What is done on the open line. -/
def ispServe (E : Sys σ) (fuel : ℕ) (synchronize : Bool) (operands : List Word) : Prog σ (Option ℤ) :=
  if synchronize then
    match operands with
    | _ :: _ => return some (-1)
    | [] => Invocation.synchronize.run E fuel
  else
    match operands with
    | [] => return some (-1)
    | command :: args => (Invocation.isp command args).run E fuel

/-- `main` behind its options. -/
def ispStart (S : Shell σ) (fuel : ℕ) (o : IspOptions) (operands : List Word) : Outcome σ :=
  match operands with
  | [] => .exit 0
  | device :: operands =>
    match ispSerialOpen S o.baudrate (some device) with
    | .error _ => .exit (-1)
    | .ok env =>
      .ran (ispServe (S.sys.withTrace o.traceOn) fuel o.synchronize operands (.start env 0 0 0))

def lpcispMain (S : Shell σ) (fuel : ℕ) (argv : List Word) : Outcome σ :=
  match parameters ispTable IspOptions.take .default S.posixlyCorrect argv with
  | .error code => .exit code
  | .ok (o, operands) => ispStart S fuel o operands

end Isp

section Prog

def progTable : Table where
  optstring := bytes "p:c:d:b:tf:nhv".toList
  longopts := [
    ⟨bytes "parts".toList, true, 'p'.toUInt8⟩,
    ⟨bytes "command".toList, true, 'c'.toUInt8⟩,
    ⟨bytes "device".toList, true, 'd'.toUInt8⟩,
    ⟨bytes "baudrate".toList, true, 'b'.toUInt8⟩,
    ⟨bytes "trace".toList, false, 't'.toUInt8⟩,
    ⟨bytes "freq".toList, true, 'f'.toUInt8⟩,
    ⟨bytes "no-user-code".toList, false, 'n'.toUInt8⟩,
    ⟨bytes "help".toList, false, 'h'.toUInt8⟩,
    ⟨bytes "version".toList, false, 'v'.toUInt8⟩]
  dash := by decide

structure ProgOptions where
  partsFileName : Option Word
  command : Option Word
  device : Option Word
  baudrate : ℤ
  traceOn : Bool
  crystalFreq : ℤ
  calcUserCode : ℤ

def ProgOptions.default : ProgOptions := ⟨none, none, none, serialBaud, false, 10000, 1⟩

def ProgOptions.take (o : ProgOptions) : Found → Except ℤ ProgOptions
  | .option c arg =>
    if c = 'p'.toUInt8 then pure { o with partsFileName := arg }
    else if c = 'c'.toUInt8 then pure { o with command := arg }
    else if c = 'd'.toUInt8 then pure { o with device := arg }
    else if c = 'b'.toUInt8 then pure { o with baudrate := atoi (arg.getD []) }
    else if c = 't'.toUInt8 then pure { o with traceOn := true }
    else if c = 'f'.toUInt8 then pure { o with crystalFreq := atoi (arg.getD []) }
    else if c = 'n'.toUInt8 then pure { o with calcUserCode := 0 }
    else if c = 'v'.toUInt8 then throw 0
    else throw 0
  | .unknown => throw 0

def defaultPartFileNameEtc : Word := bytes "/etc/lpctools_parts.def".toList

def defaultPartFileNameCurrent : Word := bytes "./lpctools_parts.def".toList

/-- The parts file that is asked for, or the first of the defaults that is there. -/
def partsFileNameOf (partsFile : Word → Option (List UInt8)) : Option Word → Option Word
  | some name => some name
  | none =>
    if (partsFile defaultPartFileNameCurrent).isSome then some defaultPartFileNameCurrent
    else if (partsFile defaultPartFileNameEtc).isSome then some defaultPartFileNameEtc
    else none

def progStart (S : Shell σ) (fuel : ℕ) (o : ProgOptions) (operands : List Word) : Outcome σ :=
  match o.command with
  | none => .exit (-1)
  | some command =>
    match partsFileNameOf S.partsFile o.partsFileName with
    | none => .exit (-1)
    | some partsFileName =>
      match o.device with
      | none => .exit 0
      | some device =>
        match ispSerialOpen S o.baudrate (some device) with
        | .error _ => .exit (-1)
        | .ok env =>
          .ran ((Invocation.prog (toUnsigned o.crystalFreq)
            (findPart S.einval S.stale (S.partsFile partsFileName)) o.calcUserCode command operands).run
            (S.sys.withTrace o.traceOn) fuel (.start env 0 0 0))

def lpcprogMain (S : Shell σ) (fuel : ℕ) (argv : List Word) : Outcome σ :=
  match parameters progTable ProgOptions.take .default S.posixlyCorrect argv with
  | .error code => .exit code
  | .ok (o, operands) => progStart S fuel o operands

end Prog

section Check

def checkTable : Table where
  optstring := bytes "nshv".toList
  longopts := [
    ⟨bytes "no-user-code".toList, false, 'n'.toUInt8⟩,
    ⟨bytes "skip-crp-verification".toList, false, 's'.toUInt8⟩,
    ⟨bytes "help".toList, false, 'h'.toUInt8⟩,
    ⟨bytes "version".toList, false, 'v'.toUInt8⟩]
  dash := by decide

structure CheckOptions where
  calcUserCode : Bool
  checkCrp : Bool

def CheckOptions.default : CheckOptions := ⟨true, true⟩

def CheckOptions.take (o : CheckOptions) : Found → Except ℤ CheckOptions
  | .option c _ =>
    if c = 'n'.toUInt8 then pure { o with calcUserCode := false }
    else if c = 's'.toUInt8 then pure { o with checkCrp := false }
    else if c = 'v'.toUInt8 then throw 0
    else throw (-1)
  | .unknown => throw (-1)

def checkMain (E : Sys σ) (posixlyCorrect : Bool) (fileSize : Word → Option ℕ) (argv : List Word) :
    Prog σ ℤ :=
  match parameters checkTable CheckOptions.take .default posixlyCorrect argv with
  | .error code => return code
  | .ok (o, operands) =>
    match operands with
    | [filename] => binaryCheck E o.calcUserCode o.checkCrp (fileSize filename) filename
    | _ => return -1

end Check

end LpcTools
