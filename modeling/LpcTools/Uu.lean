import LpcTools.C
import LpcTools.Lib.Uuencode

/-!
# `isp_uu_encode` and `isp_uu_decode`

Both walk their source with an index and store at a growing `new_size`, so what they store is the
list of the bytes stored in order. A read outside the source's memory, or a store past the `room`
the destination has, is `none`.
-/

namespace LpcTools

open Uuencode

def uuencodeAddedVal : ℕ := 32

def uuencodeZero : UInt8 := 96

def lineDataLengthMax : ℕ := 45

section Encode

variable (src : Mem)

/-- The `for` loop that gets one triplet, over what is left of its `j`s. -/
def getTriplet (pos i lineLength : ℕ) : List ℕ → ℕ → Option ℕ
  | [], intTriplet => some intTriplet
  | j :: js, intTriplet => do
    let c ← src (pos + i + j)
    let intTriplet := intTriplet ||| c.toNat <<< (8 * (2 - j))
    -- "if not enough data, leave it as nul": the test comes after the read
    if lineLength < i + j then some intTriplet
    else getTriplet pos i lineLength js intTriplet

def storeSextet (v : ℕ) : UInt8 :=
  if v = 0 then uuencodeZero else UInt8.ofNat (v + uuencodeAddedVal)

def storeTriplet (intTriplet : ℕ) : List UInt8 :=
  [0, 1, 2, 3].map fun j => storeSextet (intTriplet >>> (6 * (3 - j)) &&& 0x3F)

def encodeLine (pos lineLength i : ℕ) : Option (List UInt8) :=
  if i < lineLength then do
    let t ← getTriplet src pos i lineLength [0, 1, 2] 0
    let rest ← encodeLine pos lineLength (i + 3)
    some (storeTriplet t ++ rest)
  else some []
termination_by lineLength - i

def encodeLines (origSize pos : ℕ) : Option (List UInt8) :=
  if pos < origSize then do
    let lineLength := min (origSize - pos) lineDataLengthMax
    let line ← encodeLine src pos lineLength 0
    let rest ← encodeLines origSize (pos + lineLength)
    some (UInt8.ofNat (lineLength + uuencodeAddedVal) :: (line ++ crlf) ++ rest)
  else some []
termination_by origSize - pos
decreasing_by simp only [lineDataLengthMax]; omega

/-- The length returned and the text stored. -/
def ispUuEncode (origSize : UInt32) : Option (ℤ × List UInt8) := do
  let dest ← encodeLines src origSize.toNat 0
  some (toInt dest.length, dest)

end Encode

section Decode

variable (src : Mem)

/-- The four characters at `pos` as 24 bits. -/
def getQuartet (pos : ℕ) : Option ℕ := do
  let a ← src pos
  let b ← src (pos + 1)
  let c ← src (pos + 2)
  let d ← src (pos + 3)
  some (triplet a b c d)

/-- The inner `while`, with `left` bytes of the line still to decode. A last group is cut short by
the `break`. -/
def decodeLine (pos left : ℕ) : Option (List UInt8 × ℕ) :=
  if left = 0 then some ([], pos)
  else do
    let t ← getQuartet src pos
    let (rest, next) ← decodeLine (pos + 4) (left - 3)
    some ((tripletBytes t).take left ++ rest, next)
termination_by left

/-- The line length read off a `char`, as an `unsigned int`. -/
def lineLengthOf (c : UInt8) : ℕ := ((charVal c - uuencodeAddedVal) % 2 ^ 32).toNat

def findNextLine (origSize pos : ℕ) : Option ℕ := do
  let c ← src pos
  if charVal c < uuencodeAddedVal ∧ pos < origSize then findNextLine origSize (pos + 1)
  else some pos
termination_by origSize - pos

theorem le_of_decodeLine : ∀ {left pos : ℕ} {out : List UInt8} {next : ℕ},
    decodeLine src pos left = some (out, next) → pos ≤ next := by
  intro left
  induction left using Nat.strongRecOn with
  | ind left ih =>
    intro pos out next h
    rw [decodeLine] at h
    split at h
    · cases h
      exact le_rfl
    · simp only [Option.bind_eq_bind, Option.bind_eq_some_iff] at h
      obtain ⟨t, -, ⟨rest, n⟩, hr, heq⟩ := h
      cases heq
      have := ih (left - 3) (by omega) hr
      omega

theorem le_of_findNextLine {origSize : ℕ} : ∀ {pos next : ℕ},
    findNextLine src origSize pos = some next → pos ≤ next := by
  intro pos
  induction hk : origSize - pos using Nat.strongRecOn generalizing pos with
  | ind k ih =>
    intro next h
    rw [findNextLine] at h
    simp only [Option.bind_eq_bind, Option.bind_eq_some_iff] at h
    obtain ⟨c, -, h⟩ := h
    split at h
    · have := ih (origSize - (pos + 1)) (by omega) rfl h
      omega
    · cases h
      exact le_rfl

def decodeLines (origSize room pos : ℕ) (dest : List UInt8) : Option (List UInt8) :=
  if pos < origSize then
    match src pos with
    | none => none
    | some c =>
      if c = uuencodeZero then some dest
      else
        match _hline : decodeLine src (pos + 1) (lineLengthOf c) with
        | none => none
        | some (line, pos') =>
          if room < dest.length + line.length then none
          else
            match _hnext : findNextLine src origSize pos' with
            | none => none
            | some next => decodeLines origSize room next (dest ++ line)
  else some dest
termination_by origSize - pos
decreasing_by
  have := le_of_decodeLine src _hline
  have := le_of_findNextLine src _hnext
  omega

theorem decodeLines_eq (origSize room pos : ℕ) (dest : List UInt8) :
    decodeLines src origSize room pos dest = if pos < origSize then do
      let c ← src pos
      if c = uuencodeZero then some dest
      else do
        let (line, pos') ← decodeLine src (pos + 1) (lineLengthOf c)
        if room < dest.length + line.length then none
        else do
          let next ← findNextLine src origSize pos'
          decodeLines src origSize room next (dest ++ line)
    else some dest := by
  rw [decodeLines]
  split
  · rcases src pos with _ | c
    · rfl
    · simp only [Option.bind_eq_bind, Option.bind_some]
      split
      · rfl
      · split <;> rename_i hl <;> rw [hl]
        · rfl
        · simp only [Option.bind_some]
          split
          · rfl
          · split <;> rename_i hn <;> rw [hn] <;> rfl
  · rfl

/-- The size returned and the bytes stored, into a destination of `room` bytes. -/
def ispUuDecode (room : ℕ) (origSize : UInt32) : Option (ℤ × List UInt8) := do
  let dest ← decodeLines src origSize.toNat room 0 []
  some (toInt dest.length, dest)

end Decode

end LpcTools
