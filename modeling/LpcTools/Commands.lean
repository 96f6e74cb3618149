import LpcTools.Serial
import LpcTools.Uu
import LpcTools.Lib.Decimal

/-!
# The requests of `isp_commands.c`

Every sender puts its request on the line and reads the status the device answers with. They differ
in the text, in the buffer the answer is read into and in the values they return for their own
errors. All but `isp_send_cmd_no_args` read the answer over the text of the request.
-/

namespace LpcTools

open Decimal Uuencode

def serialBufsize : ℕ := 1300

def repBufsize : ℕ := 100

def dataBlockOk : List UInt8 := bytes ['O', 'K', '\r', '\n']

def dataBlockResend : List UInt8 := bytes ['R', 'E', 'S', 'E', 'N', 'D', '\r', '\n']

def unlock : List UInt8 := bytes ['U', ' ', '2', '3', '1', '3', '0', '\r', '\n']

def readUid : List UInt8 := bytes ['N', '\r', '\n']

def readPartId : List UInt8 := bytes ['J', '\r', '\n']

def readBootVersion : List UInt8 := bytes ['K', '\r', '\n']

def errorCodes : List String := [
  "CMD_SUCCESS",
  "INVALID_COMMAND",
  "SRC_ADDR_ERROR",
  "DST_ADDR_ERROR",
  "SRC_ADDR_NOT_MAPPED",
  "DST_ADDR_NOT_MAPPED",
  "COUNT_ERROR",
  "INVALID_SECTOR",
  "SECTOR_NOT_BLANK",
  "SECTOR_NOT_PREPARED_FOR_WRITE_OPERATION",
  "COMPARE_ERROR",
  "BUSY",
  "PARAM_ERROR",
  "ADDR_ERROR",
  "ADDR_NOT_MAPPED",
  "CMD_LOCKED",
  "INVALID_CODE",
  "INVALID_BAUD_RATE",
  "INVALID_STOP_BIT",
  "CODE_READ_PROTECTION_ENABLED"]

variable {σ : Type} (E : Sys σ)

/-- The code read off a reply buffer. -/
def ispRetCode (buf : List UInt8) (quiet : ℤ) : Prog σ ℤ :=
  match strtoul 10 buf with
  | none => throw .replyBuffer
  | some (v, _) => do
    let ret := v % 2 ^ 32
    if quiet ≠ 1 then
      -- the test lets the code that equals the number of entries through
      if errorCodes.length < ret then emit (.errorCode ret none)
      else if ret ≠ 0 ∨ E.traceOn then
        match errorCodes[ret]? with
        | none => throw .errorCodes
        | some name => emit (.errorCode ret (some name))
    return toInt ret

/-- What `snprintf` leaves in a buffer of `size` bytes. -/
def snprintf (buf : List UInt8) (size : ℕ) (text : List UInt8) : List UInt8 :=
  overlay buf 0 (text.take (size - 1) ++ [0])

/-- A sender: the request `text`, the buffer `buf` the answer is read into, how many bytes of it the
read may fill, and what is returned when the request cannot be sent or no answer comes. -/
def askStatus (text buf : List UInt8) (readSize : ℕ) (unsent silent quiet : ℤ) :
    Prog σ Answer := do
  let n ← ispSerialWrite E text
  if n ≠ text.length then return .failed unsent
  else do
    let (len, got) ← ispSerialRead E readSize 3
    if len ≤ 0 then return .failed silent
    else .status <$> ispRetCode E (overlay buf 0 got) quiet

/-- A sender that logs the request and its answer. -/
def sendRequest (text buf : List UInt8) (readSize : ℕ) (unsent silent quiet : ℤ) :
    Prog σ Answer := do
  let answer ← askStatus E text buf readSize unsent silent quiet
  emit (.request text answer)
  return answer

def ispSendCmdNoArgs (cmd : List UInt8) (quiet : ℤ) : Prog σ ℤ := do
  let buf ← uninit E 5
  Answer.ret <$> sendRequest E cmd buf 3 (-5) (-4) quiet

/-- A sender that builds the request in the buffer it reads the answer into. -/
def sendFormatted (size : ℕ) (text : List UInt8) (readSize : ℕ) (unsent silent quiet : ℤ) :
    Prog σ Answer := do
  let buf ← uninit E size
  let buf := snprintf buf size text
  sendRequest E (buf.take (min text.length size)) buf readSize unsent silent quiet

def twoArgsText (cmd : UInt8) (arg1 arg2 : ℕ) : List UInt8 :=
  cmd :: ' '.toUInt8 :: (decimal arg1 ++ ' '.toUInt8 :: (decimal arg2 ++ crlf))

def ispSendCmdTwoArgs (cmd : UInt8) (arg1 arg2 : UInt32) : Prog σ ℤ :=
  Answer.ret <$> sendFormatted E repBufsize (twoArgsText cmd arg1.toNat arg2.toNat) 3 (-5) (-4) 0

def addressText (cmd : UInt8) (addr1 addr2 length : ℕ) : List UInt8 :=
  cmd :: ' '.toUInt8 :: (decimal addr1 ++ ' '.toUInt8 ::
    (decimal addr2 ++ ' '.toUInt8 :: (decimal length ++ crlf)))

def ispSendCmdAddress (cmd : UInt8) (addr1 addr2 length : UInt32) : Prog σ ℤ :=
  Answer.ret <$> sendFormatted E serialBufsize
    (addressText cmd addr1.toNat addr2.toNat length.toNat) 3 (-5) (-4) 0

def goText (addr : ℕ) (mode : UInt8) : List UInt8 :=
  'G'.toUInt8 :: ' '.toUInt8 :: (decimal addr ++ ' '.toUInt8 :: mode :: crlf)

def ispSendCmdGo (addr : UInt32) (mode : UInt8) : Prog σ ℤ :=
  if addr < 0x200 then pure (-6)
  else if mode ≠ 'T'.toUInt8 ∧ mode ≠ 'A'.toUInt8 then pure (-5)
  else do
    let answer ← sendFormatted E serialBufsize (goText addr.toNat mode) serialBufsize (-4) (-3) 0
    match answer with
    | .failed ret => return ret
    | .status code => return if code ≠ 0 then -1 else 0

def ispSendCmdSectors (cmd : UInt8) (firstSector lastSector quiet : ℤ) : Prog σ ℤ :=
  if lastSector < firstSector then pure (-6)
  else Answer.ret <$> sendFormatted E serialBufsize
    (twoArgsText cmd (toUnsigned firstSector).toNat (toUnsigned lastSector).toNat) 3
    (-5) (-4) quiet

def ispCmdUnlock (quiet : ℤ) : Prog σ ℤ := do
  let ret ← ispSendCmdNoArgs E unlock quiet
  return if ret ≠ 0 then -1 else 0

/-- A read of what follows a status. -/
def readMore (bufSize minRead : ℕ) : Prog σ (ℤ × List UInt8) := do
  let (len, got) ← ispSerialRead E bufSize minRead
  emit (.replied (0 < len))
  return (len, got)

/-- `n` numbers read one after the other off a reply buffer. -/
def readNumbers : ℕ → List UInt8 → Option (List ℕ)
  | 0, _ => some []
  | n + 1, s => do
    let (v, rest) ← strtoul 10 s
    let vs ← readNumbers n rest
    some (v :: vs)

/-- A command without arguments whose answer is followed by `n` numbers, in a reply of at least
`minRead` bytes. -/
def readReply (cmd : List UInt8) (quiet : ℤ) (minRead n : ℕ) (value : List ℕ → ℤ) : Prog σ ℤ := do
  let buf ← uninit E repBufsize
  let ret ← ispSendCmdNoArgs E cmd quiet
  if ret ≠ 0 then return ret
  else do
    let (len, got) ← readMore E repBufsize minRead
    if len ≤ 0 then return -2
    else
      match readNumbers n (overlay buf 0 got) with
      | none => throw .replyBuffer
      | some vs => return value vs

def ispCmdReadUid : Prog σ ℤ := readReply E readUid 0 50 4 fun _ => 0

/-- The part id is an `unsigned long`, returned as an `int`. -/
def ispCmdPartId (quiet : ℤ) : Prog σ ℤ :=
  readReply E readPartId quiet 15 1 fun vs => toInt (vs.headD 0)

def ispCmdBootVersion : Prog σ ℤ := readReply E readBootVersion 0 20 2 fun _ => 0

end LpcTools
