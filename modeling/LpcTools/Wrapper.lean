import LpcTools.Transfer
import LpcTools.Files

/-!
# The commands of `lpcisp`

`isp_wrapper.c`: the arguments of a command, the checks they get, and the requests it makes.
-/

namespace LpcTools

open Run Decimal

def ramMaxSize : ℕ := 8 * 1024

/-- The size of the reply buffers of this file and of `prog_commands.c`. -/
def shortRepBufsize : ℕ := 40

/-- `strtoul(arg, NULL, 0)` of an argument, which ends with a zero byte. -/
def argValue (arg : List UInt8) : ℕ := ((strtoul 0 (arg ++ [0])).map Prod.fst).getD 0

def bit (n k : ℕ) : ℕ := n >>> k % 2

variable {σ : Type} (E : Sys σ)

def ispCmdReadMemory (args : List (List UInt8)) : Prog σ ℤ :=
  match args with
  | arg₀ :: arg₁ :: outFileName :: rest =>
    let addr := argValue arg₀
    let count := argValue arg₁
    if addr % 4 ≠ 0 ∨ count % 4 ≠ 0 then pure (-11)
    else do
      let uuencoded := (rest.head?.map argValue).getD 1 % 2 ^ 32
      let h ← get
      if !E.malloc h.env count then return -10
      else do
        let (len, data) ← ispReadMemory E (.replicate count none) (UInt32.ofNat addr)
          (UInt32.ofNat count) uuencoded
        ispBuffToFile E data (toUnsigned len) outFileName
  | _ => pure (-12)

def ispCmdWriteToRam (args : List (List UInt8)) : Prog σ ℤ :=
  match args with
  | arg₀ :: inFileName :: rest =>
    let addr := argValue arg₀
    if addr % 4 ≠ 0 then pure (-14)
    else do
      let uuencode := (rest.head?.map argValue).getD 1 % 2 ^ 32
      let fileBuff ← uninit E ramMaxSize
      let h ← get
      let (ret, got) ← ispFileToBuff E ramMaxSize inFileName
      let bytesRead := (toUnsigned ret).toNat
      -- an error is a large number here, and the data then goes past the end of the buffer
      if bytesRead = 0 then return -13
      else do
        let padded := if bytesRead % 4 ≠ 0 then bytesRead / 4 * 4 + 4 else bytesRead
        ispSendBufToRam E (E.object h.env (overlay fileBuff 0 got)) addr (UInt32.ofNat padded)
          uuencode
  | _ => pure (-15)

def ispCmdAddressWrapper (args : List (List UInt8)) (cmd : UInt8) : Prog σ ℤ :=
  match args with
  | [arg₀, arg₁, arg₂] =>
    let addr1 := argValue arg₀
    let addr2 := argValue arg₁
    let length := argValue arg₂
    let send := ispSendCmdAddress E cmd (UInt32.ofNat addr1) (UInt32.ofNat addr2)
      (UInt32.ofNat length)
    if cmd = 'M'.toUInt8 then
      if addr1 % 4 ≠ 0 ∨ addr2 % 4 ≠ 0 ∨ length % 4 ≠ 0 then pure (-7) else send
    else if cmd = 'C'.toUInt8 then
      if addr1 % 256 ≠ 0 ∨ addr2 % 4 ≠ 0 then pure (-8)
      else if bit length 8 + bit length 9 + bit length 10 + bit length 12 ≠ 1 then pure (-7)
      else send
    else pure (-6)
  | _ => pure (-7)

/-- The numbers that follow a status, as `n` of them are read off a reply of at least three
characters. -/
def readResult (n : ℕ) : Prog σ ℤ := do
  let buf ← uninit E shortRepBufsize
  let (len, got) ← readMore E shortRepBufsize 3
  if len ≤ 0 then return -3
  else
    match readNumbers n (overlay buf 0 got) with
    | none => throw .replyBuffer
    | some _ => return 0

def ispCmdCompare (args : List (List UInt8)) : Prog σ ℤ := do
  let ret ← ispCmdAddressWrapper E args 'M'.toUInt8
  if ret = 0 then return 0
  else if ret = 10 then readResult E 1
  else return -1

def ispCmdCopyRamToFlash (args : List (List UInt8)) : Prog σ ℤ :=
  ispCmdAddressWrapper E args 'C'.toUInt8

def ispCmdGo (args : List (List UInt8)) : Prog σ ℤ :=
  match args with
  | [arg₀, mode] =>
    let addr := argValue arg₀
    if addr < 0x200 then pure (-6)
    else if startOf mode (bytes ['t', 'h', 'u', 'm', 'b']) then
      ispSendCmdGo E (UInt32.ofNat addr) 'T'.toUInt8
    else if startOf mode (bytes ['a', 'r', 'm']) then
      ispSendCmdGo E (UInt32.ofNat addr) 'A'.toUInt8
    else pure (-5)
  | _ => pure (-7)

def ispCmdSectorsSkel (args : List (List UInt8)) (cmd : UInt8) : Prog σ ℤ :=
  match args with
  | [arg₀, arg₁] => ispSendCmdSectors E cmd (toInt (argValue arg₀)) (toInt (argValue arg₁)) 0
  | _ => pure (-7)

def ispCmdBlankCheck (args : List (List UInt8)) : Prog σ ℤ := do
  let ret ← ispCmdSectorsSkel E args 'I'.toUInt8
  if ret < 0 then return ret
  else if ret = 8 then readResult E 2
  else if ret = 7 then return -2
  else if ret = 12 then return -1
  -- success, and every other code
  else return 0

def ispCmdPrepareForWrite (args : List (List UInt8)) : Prog σ ℤ :=
  ispCmdSectorsSkel E args 'P'.toUInt8

def ispCmdErase (args : List (List UInt8)) : Prog σ ℤ := ispCmdSectorsSkel E args 'E'.toUInt8

end LpcTools
