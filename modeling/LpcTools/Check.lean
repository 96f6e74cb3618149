import LpcTools.ProgCommands

/-!
# `lpc_binary_check`

The check of an image file, with or without a user code computed for it. `fileSize` is what `stat`
says of the file.
-/

namespace LpcTools

variable {σ : Type} (E : Sys σ)

/-- A line the checker prints about the image. -/
inductive Report where
  | updated
  | checksum (found expected : UInt32)
  | crp (word : UInt32)
  | activated (word : UInt32)
  deriving DecidableEq

/-- The last check, and what is returned if it finds nothing. -/
def verifyCrp (checkCrp : Bool) (data : List UInt8) (ret : ℤ) : Prog σ (ℤ × List Report) :=
  if checkCrp then
    match word data (crpOffset / 4) with
    | none => throw .image
    | some crp => return if isCrp crp then (-4, [.crp crp, .activated crp]) else (ret, [.crp crp])
  else return (ret, [])

/-- The checks of an image of which `size` bytes are at the start of the buffer `data`. -/
def checkImage (calcUserCode checkCrp : Bool) (size : ℤ) (data filename : List UInt8) :
    Prog σ (ℤ × List Report) :=
  match userCode data, word data 7 with
  | some cksum, some v₇ =>
    if calcUserCode then do
      let data := overlay data 28 (bytesOfWord cksum)
      let _ ← ispBuffToFile E (data.map some) (toUnsigned size) filename
      let (ret, reports) ← verifyCrp checkCrp data 0
      return (ret, .updated :: reports)
    else if cksum ≠ v₇ then do
      let (ret, reports) ← verifyCrp checkCrp data (-3)
      return (ret, .checksum v₇ cksum :: reports)
    else verifyCrp checkCrp data 0
  | _, _ => throw .image

/-- The value returned, and what is printed about the image. The length goes to `isp_file_to_buff` as
an `unsigned int`. -/
def binaryCheckReport (calcUserCode checkCrp : Bool) (fileSize : Option ℕ) (filename : List UInt8) :
    Prog σ (ℤ × List Report) :=
  match fileSize with
  | none => return (-2, [])
  | some stSize => do
    let h ← get
    if !E.malloc h.env stSize then return (-2, [])
    else do
      let data ← uninit E stSize
      let (size, got) ← ispFileToBuff E (stSize % 2 ^ 32) filename
      if size ≤ 0 then return (-2, [])
      else checkImage E calcUserCode checkCrp size (overlay data 0 got) filename

def binaryCheck (calcUserCode checkCrp : Bool) (fileSize : Option ℕ) (filename : List UInt8) :
    Prog σ ℤ :=
  Prod.fst <$> binaryCheckReport E calcUserCode checkCrp fileSize filename

end LpcTools
