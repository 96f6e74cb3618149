import LpcTools.Host

/-!
# `isp_buff_to_file` and `isp_file_to_buff`
-/

namespace LpcTools

/-- `strncmp(s, text, strlen(s)) == 0` -/
def startOf (s text : List UInt8) : Bool := s.isPrefixOf text

/-- The name is taken for the standard stream, and so is an empty one. -/
def isStdStream (filename : List UInt8) : Bool := startOf filename ['-'.toUInt8]

variable {σ : Type} (E : Sys σ)

/-- The first `n` cells from the start of an object, with nothing received past its end. -/
def cellsAt (data : List Cell) (n : ℕ) : List Cell := data.take n ++ .replicate (n - data.length) none

def ispBuffToFile (data : List Cell) (len : UInt32) (filename : List UInt8) : Prog σ ℤ := do
  let h ← get
  if !isStdStream filename && !E.openOutput h.env filename then return -1
  else do
    let ret ← match E.save h.env len.toNat with
      | none => pure (-1)
      | some n => do
        emit (.saved (cellsAt data n))
        pure (toInt n)
    return if ret ≠ toInt len.toNat then -2 else ret

/-- The `do` loop of `isp_file_to_buff`, over what the reads of the file give. -/
def readFile (len : ℕ) : List ReadOutcome → List UInt8 → ℤ × List UInt8
  | [], got => (toInt got.length, got)
  | .data bs :: reads, got =>
    let bs := bs.take (len - got.length)
    if bs = [] then (toInt got.length, got)
    else if got.length + bs.length < len then readFile len reads (got ++ bs)
    else (toInt (got.length + bs.length), got ++ bs)
  | .again :: reads, got =>
    if got.length < len then readFile len reads got else (toInt got.length, got)
  | .error :: _, got => (-12, got)

/-- The value returned and the bytes stored from the start of the buffer on. -/
def ispFileToBuff (len : ℕ) (filename : List UInt8) : Prog σ (ℤ × List UInt8) := do
  let h ← get
  if isStdStream filename then return readFile len (E.stdin h.env) []
  else
    match E.openInput h.env filename with
    | none => return (-13, [])
    | some reads => return readFile len reads []

/-- Loading a file neither faults nor touches the line. -/
theorem ispFileToBuff_eq {E : Sys σ} (len : ℕ) (filename : List UInt8) (h : Host σ) :
    ∃ r, ispFileToBuff E len filename h = .ok r h := by
  unfold ispFileToBuff
  rw [Run.bind_ok (Run.get_apply _)]
  split_ifs
  · exact ⟨_, rfl⟩
  · rcases E.openInput h.env filename with _ | reads <;> exact ⟨_, rfl⟩

end LpcTools
