import LpcTools.Transfer
import LpcTools.Files

/-!
# The commands of `lpcprog`

`prog_commands.c`, for a part described in the parts file. The host is little-endian where the image
is read as words.
-/

namespace LpcTools

open Run

structure PartDesc where
  flashBase : UInt32
  flashSize : UInt32
  flashNbSectors : UInt32
  resetVectorOffset : UInt32
  ramBase : UInt32
  ramSize : UInt32
  ramBuffOffset : UInt32
  ramBuffSize : UInt32
  uuencode : UInt32
  deriving DecidableEq

def crpOffset : ℕ := 0x2FC

def crpNoIsp : UInt32 := 0x4E697370

def crpCrp1 : UInt32 := 0x12345678

def crpCrp2 : UInt32 := 0x87654321

def crpCrp3 : UInt32 := 0x43218765

/-- The size of the reply buffer of `erase_flash`. -/
def progRepBufsize : ℕ := 40

/-- Four bytes as a word of a little-endian host. -/
def wordOf (a b c d : UInt8) : UInt32 :=
  UInt32.ofNat (a.toNat + b.toNat * 2 ^ 8 + c.toNat * 2 ^ 16 + d.toNat * 2 ^ 24)

def bytesOfWord (w : UInt32) : List UInt8 :=
  [UInt8.ofNat w.toNat, UInt8.ofNat (w.toNat / 2 ^ 8), UInt8.ofNat (w.toNat / 2 ^ 16),
    UInt8.ofNat (w.toNat / 2 ^ 24)]

/-- `v[k]` for a pointer to words at the start of `data`. -/
def word (data : List UInt8) (k : ℕ) : Option UInt32 := do
  let a ← data[4 * k]?
  let b ← data[4 * k + 1]?
  let c ← data[4 * k + 2]?
  let d ← data[4 * k + 3]?
  some (wordOf a b c d)

def calcWriteSize (sectorSize ramBuffSize : UInt32) : UInt32 :=
  let writeSize := if sectorSize < ramBuffSize then sectorSize else ramBuffSize
  if 4096 ≤ writeSize then 4096
  else if 1024 ≤ writeSize then 1024
  else if 512 ≤ writeSize then 512
  else if 256 ≤ writeSize then 256
  else if 64 ≤ writeSize then 64
  else 0

variable {σ : Type} (E : Sys σ)

def getIds : Prog σ ℤ := do
  let _ ← ispCmdPartId E 0
  let _ ← ispCmdReadUid E
  let _ ← ispCmdBootVersion E
  return 0

def dumpToFile (part : PartDesc) (filename : List UInt8) : Prog σ ℤ := do
  let h ← get
  if !E.malloc h.env part.flashSize.toNat then return -10
  else do
    let (_, data) ← ispReadMemory E (.replicate part.flashSize.toNat none) part.flashBase
      part.flashSize part.uuencode.toNat
    ispBuffToFile E data part.flashSize filename

/-- The loop of `erase_flash`, from sector `i` on with `n` sectors left. -/
def eraseSectors : ℕ → ℕ → Prog σ ℤ
  | 0, _ => pure 0
  | n + 1, i => do
    let ret ← ispSendCmdSectors E 'I'.toUInt8 i i 1
    if ret = 0 then eraseSectors n (i + 1)
    else if ret < 0 then return ret
    else do
      let _ ← readMore E progRepBufsize 3
      let ret ← ispSendCmdSectors E 'P'.toUInt8 i i 1
      if ret ≠ 0 then return ret
      else do
        let ret ← ispSendCmdSectors E 'E'.toUInt8 i i 1
        if ret ≠ 0 then return ret
        else eraseSectors n (i + 1)

def eraseFlash (part : PartDesc) : Prog σ ℤ := do
  let ret ← ispCmdUnlock E 1
  if ret ≠ 0 then return -1
  else eraseSectors E (toInt part.flashNbSectors.toNat).toNat 0

/-- The word at the start of an object whose bytes are all set. -/
def firstWord (data : List Cell) : UInt32 := (word (data.map (·.getD 0)) 0).getD 0

def startProg (part : PartDesc) : Prog σ ℤ := do
  let (len, data) ← ispReadMemory E (.replicate 4 (some 0))
    (part.flashBase + part.resetVectorOffset) 4 part.uuencode.toNat
  if len ≠ 4 then return len
  else do
    let addr := firstWord data
    let ret ← ispCmdUnlock E 1
    if ret ≠ 0 then return -1
    else if addr % 2 = 1 then ispSendCmdGo E (addr - 1) 'T'.toUInt8
    else ispSendCmdGo E addr 'A'.toUInt8

/-- The two's complement of the sum of the first seven words. -/
def userCode (data : List UInt8) : Option UInt32 :=
  (List.range 7).foldlM (fun cksum k => (cksum - ·) <$> word data k) 0

/-- The image the buffer holds once its user code is set or checked. -/
def patchUserCode (data : List UInt8) (calcUserCode : ℤ) : Prog σ (Option (List UInt8)) :=
  match userCode data, word data 7 with
  | some cksum, some v₇ =>
    if calcUserCode = 1 then pure (some (overlay data 28 (bytesOfWord cksum)))
    else if cksum ≠ v₇ then pure none
    else pure (some data)
  | _, _ => throw .image

/-- What becomes of an image does not depend on the host. -/
theorem patchUserCode_cases (data : List UInt8) (calcUserCode : ℤ) :
    (∃ r, ∀ {σ : Type} (h : Host σ), patchUserCode data calcUserCode h = .ok r h) ∨
      ∀ {σ : Type} (h : Host σ), patchUserCode data calcUserCode h = .error .image h := by
  unfold patchUserCode
  rcases userCode data with _ | cksum
  · exact .inr fun _ => rfl
  · rcases word data 7 with _ | v₇
    · exact .inr fun _ => rfl
    · left
      simp only []
      split_ifs
      · exact ⟨_, fun _ => rfl⟩
      · exact ⟨_, fun _ => rfl⟩
      · exact ⟨_, fun _ => rfl⟩

theorem patchUserCode_some {σ : Type} {h h' : Host σ} {data data' : List UInt8} {calcUserCode : ℤ}
    (hp : patchUserCode data calcUserCode h = .ok (some data') h') : ∃ cksum v₇,
      userCode data = some cksum ∧ word data 7 = some v₇ ∧
      data' = if calcUserCode = 1 then overlay data 28 (bytesOfWord cksum) else data := by
  unfold patchUserCode at hp
  rcases hcksum : userCode data with _ | cksum <;> rw [hcksum] at hp
  · cases hp
  · rcases hword : word data 7 with _ | v₇ <;> rw [hword] at hp
    · cases hp
    · refine ⟨cksum, v₇, rfl, rfl, ?_⟩
      simp only [] at hp
      split_ifs at hp ⊢ with hcalc hcode <;> cases hp <;> rfl

def isCrp (crp : UInt32) : Bool := crp = crpNoIsp || crp = crpCrp1 || crp = crpCrp2 || crp = crpCrp3

/-- The loop of `flash_target`, from block `i` on with `n` blocks left. -/
def flashBlocks (part : PartDesc) (data : List UInt8) (writeSize sectorSize ramAddr : UInt32) :
    ℕ → ℕ → Prog σ ℤ
  | 0, _ => pure 0
  | n + 1, i => do
    let offset := UInt32.ofNat i * writeSize
    if sectorSize = 0 then throw .divideByZero
    else do
      let currentSector := toInt (offset / sectorSize).toNat
      let ret ← ispSendCmdSectors E 'P'.toUInt8 currentSector currentSector 1
      if ret ≠ 0 then return ret
      else do
        let h ← get
        let ret ← ispSendBufToRam E ((E.object h.env data).drop offset.toNat) ramAddr.toNat
          writeSize part.uuencode.toNat
        if ret ≠ 0 then return ret
        else do
          let ret ← ispSendCmdAddress E 'C'.toUInt8 (part.flashBase + offset) ramAddr writeSize
          if ret ≠ 0 then return ret
          else flashBlocks part data writeSize sectorSize ramAddr n (i + 1)

/-- What `flash_target` does with an image loaded into the buffer: the checks, then the blocks. -/
def flashImage (part : PartDesc) (image : List UInt8) (writeSize sectorSize ramAddr : UInt32)
    (calcUserCode : ℤ) : Prog σ ℤ := do
  let size := UInt32.ofNat image.length
  let filled := image ++ .replicate (part.flashSize.toNat - image.length) 0
  match ← patchUserCode filled calcUserCode with
  | none => return -5
  | some data =>
    match word data (crpOffset / 4) with
    | none => throw .image
    | some crp =>
      if isCrp crp then return -6
      else if writeSize = 0 then throw .divideByZero
      else
        let blocks := size / writeSize + if size % writeSize ≠ 0 then 1 else 0
        if part.flashSize < blocks * writeSize then return -7
        else flashBlocks E part data writeSize sectorSize ramAddr blocks.toNat 0

def flashTarget (part : PartDesc) (filename : List UInt8) (calcUserCode : ℤ) : Prog σ ℤ :=
  if part.flashNbSectors = 0 then throw .divideByZero
  else
    let sectorSize := part.flashSize / part.flashNbSectors
    let ramAddr := part.ramBase + part.ramBuffOffset
    let writeSize := calcWriteSize sectorSize part.ramBuffSize
    if part.ramBase + part.ramSize < ramAddr then pure (-1)
    else if writeSize = 0 then pure (-2)
    else do
      let ret ← eraseFlash E part
      if ret ≠ 0 then return -3
      else do
        let h ← get
        if !E.malloc h.env part.flashSize.toNat then return -4
        else do
          let (size, image) ← ispFileToBuff E part.flashSize.toNat filename
          if size ≤ 0 then return -5
          else flashImage E part image writeSize sectorSize ramAddr calcUserCode

end LpcTools
