import LpcTools.ProgCommands
import LpcTools.Lib.Decimal

/-!
# `find_part_in_file`

The parts file is read a piece at a time, a line or as much of it as the buffer takes. What lies in
the buffer behind the end of a piece is whatever was there before.
-/

namespace LpcTools

open Decimal

def confReadBufSize : ℕ := 250

def partNameLength : ℕ := 25

/-- The size of `struct part_desc`, and where its values start, with pointers of eight bytes. -/
def sizeofPartDesc : ℕ := 56

def offsetofFlashBase : ℕ := 20

/-- The number of values of a part. -/
def nval : ℕ := (sizeofPartDesc - offsetofFlashBase) / 4

/-- A part with its id, and what has been stored of its name. -/
structure PartEntry where
  partId : ℕ
  name : List UInt8
  desc : PartDesc
  deriving DecidableEq

/-- The values in the order of the fields. -/
def PartDesc.ofValues (v : List UInt32) : PartDesc where
  flashBase := v.getD 0 0
  flashSize := v.getD 1 0
  flashNbSectors := v.getD 2 0
  resetVectorOffset := v.getD 3 0
  ramBase := v.getD 4 0
  ramSize := v.getD 5 0
  ramBuffOffset := v.getD 6 0
  ramBuffSize := v.getD 7 0
  uuencode := v.getD 8 0

/-- How the search fails: it runs out of the buffer, or there is no part to be had. -/
inductive LineError where
  | past
  | refused
  deriving DecidableEq

/-- A line, with its line feed, of at most so many characters, and what follows. -/
def takeLine : ℕ → List UInt8 → List UInt8 × List UInt8
  | 0, file => ([], file)
  | _ + 1, [] => ([], [])
  | n + 1, c :: file =>
    if c = '\n'.toUInt8 then ([c], file)
    else (c :: (takeLine n file).1, (takeLine n file).2)

theorem takeLine_append : ∀ (n : ℕ) (file : List UInt8),
    (takeLine n file).1 ++ (takeLine n file).2 = file
  | 0, file => rfl
  | _ + 1, [] => rfl
  | n + 1, c :: file => by
    rw [takeLine]
    split_ifs
    · rfl
    · rw [List.cons_append, takeLine_append n file]

theorem takeLine_ne_nil (n : ℕ) (c : UInt8) (file : List UInt8) :
    (takeLine (n + 1) (c :: file)).1 ≠ [] := by
  rw [takeLine]
  split_ifs <;> simp

/-- What `fgets` gives up to the end of the file. -/
def pieces : List UInt8 → List (List UInt8)
  | [] => []
  | c :: file =>
    (takeLine (confReadBufSize - 1) (c :: file)).1 ::
      pieces (takeLine (confReadBufSize - 1) (c :: file)).2
termination_by file => file.length
decreasing_by
  have happ := congrArg List.length (takeLine_append (confReadBufSize - 1) (c :: file))
  have hpos : 0 < (takeLine (confReadBufSize - 1) (c :: file)).1.length :=
    List.length_pos_iff.2 (takeLine_ne_nil (confReadBufSize - 2) c file)
  rw [List.length_append] at happ
  omega

def ofOption {α : Type} (x : Option α) : Except LineError α :=
  match x with
  | none => throw .past
  | some a => pure a

/-- The search for the `L` a name starts with. -/
def skipToName : List UInt8 → Except LineError (List UInt8)
  | [] => throw .past
  | c :: endp => if c ≠ 0 ∧ c ≠ 'L'.toUInt8 then skipToName endp else pure (c :: endp)

/-- The `for` loop over the name, with room for so many characters, and the check behind it. -/
def copyName : ℕ → List UInt8 → Except LineError (List UInt8 × List UInt8)
  | _, [] => throw .past
  | 0, c :: endp => if c = ','.toUInt8 then pure ([], c :: endp) else throw .refused
  | n + 1, c :: endp =>
    if c = 0 then throw .refused
    else if c = ','.toUInt8 then pure ([], c :: endp)
    else do
      let (name, endp) ← copyName n endp
      return (c :: name, endp)

/-- The loop over the values. `einval` says whether `strtoul` reports a number without digits, as it
need not. -/
def readValues (einval : Bool) : ℕ → List UInt8 → Except LineError (List UInt32)
  | 0, _ => pure []
  | n + 1, endp => do
    let nptr ← ofOption (if endp = [] then none else some endp.tail)
    let (v, endp) ← ofOption (strtoul 0 nptr)
    let value := UInt32.ofNat v
    if value = 0 ∧ einval = true ∧ endp.length = nptr.length then throw .refused
    else do
      let values ← readValues einval n endp
      return value :: values

/-- The name and the values behind the id. -/
def readPart (einval : Bool) (endp : List UInt8) : Except LineError (List UInt8 × List UInt32) := do
  let endp ← skipToName endp
  let (name, endp) ← copyName partNameLength endp
  let values ← readValues einval nval endp
  return (name, values)

/-- A comment or an empty line. -/
def isSkipped (piece : List UInt8) : Bool :=
  piece.head? = some '#'.toUInt8 || piece.head? = some '\n'.toUInt8

/-- The `while` loop. `buffer` is what the buffer holds for a piece. -/
def findIn (einval : Bool) (buffer : ℕ → List UInt8 → List UInt8) (devId : ℕ) :
    ℕ → List (List UInt8) → Except LineError PartEntry
  | _, [] => throw .refused
  | line, piece :: rest =>
    if isSkipped piece then findIn einval buffer devId (line + 1) rest
    else do
      let (partId, endp) ← ofOption (strtoul 0 (buffer line piece))
      if partId ≠ devId then findIn einval buffer devId (line + 1) rest
      else do
        let (name, values) ← readPart einval endp
        return ⟨partId, name, .ofValues values⟩

/-- The buffer with a piece in it, over what it held. -/
def lineBuffer (stale : ℕ → ℕ → UInt8) (line : ℕ) (piece : List UInt8) : List UInt8 :=
  piece ++ 0 :: (List.range (confReadBufSize - 1 - piece.length)).map (stale line)

/-- A part, or nothing; and `none` where the scan of a line runs out of the buffer. -/
def partOf (r : Except LineError PartEntry) : Option (Option PartEntry) :=
  match r with
  | .ok part => some (some part)
  | .error .refused => some none
  | .error .past => none

def findPartInFile (einval : Bool) (stale : ℕ → ℕ → UInt8) (devId : UInt64)
    (partsFile : Option (List UInt8)) : Option (Option PartEntry) :=
  match partsFile with
  | none => some none
  | some file => partOf (findIn einval (lineBuffer stale) devId.toNat 1 (pieces file))

end LpcTools
