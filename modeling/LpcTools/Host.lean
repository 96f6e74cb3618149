import LpcTools.C
import LpcTools.Lib.Loop

/-!
# The program and the system it runs on

`Sys` is everything outside the program: the serial line, the files, the allocator and the content
of fresh stack memory, over a state of its own. A `Prog` runs over that state and the program's
static variables, and keeps a log for the statements about its runs. It faults where C's behaviour
is undefined.
-/

namespace LpcTools

/-- What `read` gives: bytes (none at end of file), `EAGAIN` or another error. -/
inductive ReadOutcome where
  | data (bs : List UInt8)
  | again
  | error
  deriving DecidableEq

inductive WriteOutcome where
  | wrote (n : ℕ)
  | again
  | error
  deriving DecidableEq

/-- A byte of allocated memory, `none` while nothing has been stored in it. -/
abbrev Cell := Option UInt8

structure Sys (σ : Type) where
  read : σ → ℕ → ReadOutcome × σ
  write : σ → List UInt8 → WriteOutcome × σ
  /-- What fresh memory holds, on the stack or allocated. -/
  stack : σ → ℕ → UInt8
  /-- What is past the end of an object, where that can be read. -/
  beyond : σ → ℕ → Option UInt8
  malloc : σ → ℕ → Bool
  /-- What successive reads of the input file give, up to its end. -/
  openInput : σ → List UInt8 → Option (List ReadOutcome)
  stdin : σ → List ReadOutcome
  openOutput : σ → List UInt8 → Bool
  /-- How many bytes a write of that many bytes to the output file takes. -/
  save : σ → ℕ → Option ℕ
  traceOn : Bool
  read_le : ∀ {s n bs t}, read s n = (.data bs, t) → bs.length ≤ n
  write_le : ∀ {s bs n t}, write s bs = (.wrote n, t) → n ≤ bs.length
  save_le : ∀ {s n k}, save s n = some k → k ≤ n
  write_pos : ∀ {s bs n t}, write s bs = (.wrote n, t) → bs ≠ [] → 0 < n

/-- A system without files, on which every allocation succeeds. -/
def Sys.plain (σ : Type) : Sys σ where
  read := fun s _ => (.again, s)
  write := fun s _ => (.error, s)
  stack := fun _ _ => 0
  beyond := fun _ _ => none
  malloc := fun _ _ => true
  openInput := fun _ _ => none
  stdin := fun _ => []
  openOutput := fun _ _ => true
  save := fun _ n => some n
  traceOn := false
  read_le := by
    intro s n bs t h
    cases h
  write_le := by
    intro s bs n t h
    cases h
  save_le := by
    intro s n k h
    cases h
    exact Nat.le_refl n
  write_pos := by
    intro s bs n t h
    cases h

/-- What a pointer to an object sees. -/
def Sys.object {σ : Type} (E : Sys σ) (s : σ) (data : List UInt8) : Mem := fun i =>
  if i < data.length then data[i]? else E.beyond s (i - data.length)

/-- Where C's behaviour is undefined, by the object that is left. -/
inductive Fault where
  | serialBuffer
  | replyBuffer
  | errorCodes
  | transfer
  | overflow
  | source
  | sendBuffer
  | image
  | divideByZero
  deriving DecidableEq

/-- What became of a request: the status code read, or the sender's own error. -/
inductive Answer where
  | status (code : ℤ)
  | failed (ret : ℤ)
  deriving DecidableEq

/-- What most senders return. -/
def Answer.ret : Answer → ℤ
  | status code => code
  | failed ret => ret

inductive Event where
  | request (text : List UInt8) (answer : Answer)
  | errorCode (code : ℕ) (name : Option String)
  | timeout
  /-- The receive buffer handed to the decoder, with the size of the block and the room left. -/
  | received (buf : List UInt8) (blocksize room : ℕ)
  /-- Bytes of device memory received; in a block, with the right checksum. -/
  | took (bytes : List UInt8)
  /-- The acknowledgement of these has been sent. -/
  | acked (bytes : List UInt8)
  /-- Whether the host took the reply to a block it sent for an acceptance, or, of data sent as it is,
  whether all of it went out. -/
  | sent (accepted : Bool)
  /-- Whether anything came of what follows a status. -/
  | replied (answered : Bool)
  /-- What was written to the output file. -/
  | saved (cells : List Cell)
  deriving DecidableEq

structure Host (σ : Type) where
  env : σ
  nextReadChar : UInt8
  resendRequestForBlock : ℕ
  resendRequestedForBlock : ℕ
  log : List Event

/-- A program start: what a process, or a call in it, finds in the static variables. -/
def Host.start {σ : Type} (env : σ) (nextReadChar : UInt8) (resendRequest resendRequested : ℕ) :
    Host σ :=
  ⟨env, nextReadChar, resendRequest, resendRequested, []⟩

abbrev Prog (σ α : Type) := EStateM Fault (Host σ) α

variable {σ : Type}

def Host.emit (h : Host σ) (e : Event) : Host σ := { h with log := h.log ++ [e] }

def Host.logged (h : Host σ) (es : List Event) : Host σ := { h with log := h.log ++ es }

def emit (e : Event) : Prog σ Unit := modify fun h => h.emit e

/-- A buffer of `n` bytes nothing has been stored in. -/
def uninit (E : Sys σ) (n : ℕ) : Prog σ (List UInt8) := do
  let h ← get
  return (List.range n).map (E.stack h.env)

@[simp] theorem Host.emit_log (h : Host σ) (e : Event) : (h.emit e).log = h.log ++ [e] := rfl

@[simp] theorem Host.emit_env (h : Host σ) (e : Event) : (h.emit e).env = h.env := rfl

@[simp] theorem Host.emit_nextReadChar (h : Host σ) (e : Event) :
    (h.emit e).nextReadChar = h.nextReadChar := rfl

@[simp] theorem Host.emit_resendRequestForBlock (h : Host σ) (e : Event) :
    (h.emit e).resendRequestForBlock = h.resendRequestForBlock := rfl

@[simp] theorem Host.emit_resendRequestedForBlock (h : Host σ) (e : Event) :
    (h.emit e).resendRequestedForBlock = h.resendRequestedForBlock := rfl

@[simp] theorem emit_apply (e : Event) (h : Host σ) : emit e h = .ok () (h.emit e) := rfl

@[simp] theorem uninit_apply (E : Sys σ) (n : ℕ) (h : Host σ) :
    uninit E n h = .ok ((List.range n).map (E.stack h.env)) h := rfl

end LpcTools
