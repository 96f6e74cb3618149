import LpcTools.Commands

/-!
# `isp_serial_empty_buffer` and `isp_connect`

The echo of a message is dropped up to its line end, a character at a time. A line that never ends
one keeps the host in that loop, so a session is opened within a number of polls, `fuel`, and is
`none` while the loop goes on.
-/

namespace LpcTools

open Decimal Uuencode

def synchroStart : List UInt8 := bytes ['?']

def synchro : List UInt8 :=
  bytes ['S', 'y', 'n', 'c', 'h', 'r', 'o', 'n', 'i', 'z', 'e', 'd', '\r', '\n']

def synchroOk : List UInt8 := bytes ['O', 'K', '\r', '\n']

def synchroEchoOff : List UInt8 := bytes ['A', ' ', '0', '\r', '\n']

variable {σ : Type} (E : Sys σ)

/-- How the loop of `isp_serial_empty_buffer` is left. -/
inductive Drained where
  | polling
  | returned
  /-- With what is then in `unused`. -/
  | left (unused : UInt8)
  deriving DecidableEq

/-- The condition of the `do` loop of `isp_serial_empty_buffer`. -/
def endsLine (unused : UInt8) : Bool := unused = '\r'.toUInt8 || unused = '\n'.toUInt8

def drainLine : ℕ → UInt8 → ℕ → Prog σ Drained
  | 0, _, _ => pure .polling
  | fuel + 1, unused, loops => fun h =>
    match E.read h.env 1 with
    | (.data [], env) => .ok .returned { h with env := env }
    | (.data (c :: _), env) =>
      if endsLine c then .ok (.left c) { h with env := env }
      else drainLine fuel c loops { h with env := env }
    | (.again, env) =>
      if 100 < loops then .ok (.left unused) ({ h with env := env }.emit .timeout)
      else if endsLine unused then .ok (.left unused) { h with env := env }
      else drainLine fuel unused (loops + 1) { h with env := env }
    | (.error, env) => .ok .returned { h with env := env }

/-- One more read behind a carriage return, whose result is not looked at. -/
def readBehind (unused : UInt8) : Prog σ UInt8 := fun h =>
  if unused = '\r'.toUInt8 then
    match E.read h.env 1 with
    | (.data (c :: _), env) => .ok c { h with env := env }
    | (_, env) => .ok unused { h with env := env }
  else .ok unused h

/-- Whether it has returned within so many polls. -/
def ispSerialEmptyBuffer (fuel : ℕ) : Prog σ Bool := do
  match ← drainLine E fuel 0 0 with
  | .polling => return false
  | .returned => return true
  | .left unused => do
    let unused ← readBehind E unused
    if unused = '\n'.toUInt8 then return true
    else do
      modify fun h => { h with nextReadChar := unused }
      return true

section Polls

variable {E} {fuel loops : ℕ} {unused c : UInt8} {bs : List UInt8} {env : σ} {h h₁ : Host σ}

theorem drainLine_char (hread : E.read h.env 1 = (.data (c :: bs), env)) (hc : endsLine c = false) :
    drainLine E (fuel + 1) unused loops h = drainLine E fuel c loops { h with env := env } := by
  rw [drainLine]
  simp only [hread, hc, Bool.false_eq_true, if_false]

theorem drainLine_end (hread : E.read h.env 1 = (.data (c :: bs), env)) (hc : endsLine c = true) :
    drainLine E (fuel + 1) unused loops h = .ok (.left c) { h with env := env } := by
  rw [drainLine]
  simp only [hread, hc, if_true]

theorem drainLine_again (hread : E.read h.env 1 = (.again, env)) (hloops : ¬ 100 < loops)
    (hun : endsLine unused = false) : drainLine E (fuel + 1) unused loops h =
      drainLine E fuel unused (loops + 1) { h with env := env } := by
  rw [drainLine]
  simp only [hread, if_neg hloops, hun, Bool.false_eq_true, if_false]

theorem drainLine_timeout (hread : E.read h.env 1 = (.again, env)) (hloops : 100 < loops) :
    drainLine E (fuel + 1) unused loops h =
      .ok (.left unused) ({ h with env := env }.emit .timeout) := by
  rw [drainLine]
  simp only [hread, if_pos hloops]

/-- What is behind the carriage return has come, and it is a line feed. -/
theorem ispSerialEmptyBuffer_feed (hrun : drainLine E fuel 0 0 h = .ok (.left '\r'.toUInt8) h₁)
    (hread : E.read h₁.env 1 = (.data ('\n'.toUInt8 :: bs), env)) :
    ispSerialEmptyBuffer E fuel h = .ok true { h₁ with env := env } := by
  have hbehind : readBehind E '\r'.toUInt8 h₁ = .ok '\n'.toUInt8 { h₁ with env := env } := by
    unfold readBehind
    simp only [hread, if_true]
  unfold ispSerialEmptyBuffer
  rw [Run.bind_ok hrun]
  simp only []
  rw [Run.bind_ok hbehind]
  rfl

/-- It has not, and the carriage return is kept back. -/
theorem ispSerialEmptyBuffer_bare (hrun : drainLine E fuel 0 0 h = .ok (.left '\r'.toUInt8) h₁)
    (hread : E.read h₁.env 1 = (.again, env)) : ispSerialEmptyBuffer E fuel h =
      .ok true { h₁ with env := env, nextReadChar := '\r'.toUInt8 } := by
  have hbehind : readBehind E '\r'.toUInt8 h₁ = .ok '\r'.toUInt8 { h₁ with env := env } := by
    unfold readBehind
    simp only [hread, if_true]
  unfold ispSerialEmptyBuffer
  rw [Run.bind_ok hrun]
  simp only []
  rw [Run.bind_ok hbehind]
  rfl

/-- The host has given up inside the line, and keeps the last character of it back. -/
theorem ispSerialEmptyBuffer_inside (hrun : drainLine E fuel 0 0 h = .ok (.left c) h₁)
    (hc : endsLine c = false) :
    ispSerialEmptyBuffer E fuel h = .ok true { h₁ with nextReadChar := c } := by
  have hne : c ≠ '\r'.toUInt8 ∧ c ≠ '\n'.toUInt8 := by
    constructor <;> rintro rfl <;> cases hc
  unfold ispSerialEmptyBuffer
  rw [Run.bind_ok hrun]
  simp only []
  rw [Run.bind_ok (show readBehind E c h₁ = .ok c h₁ by rw [readBehind, if_neg hne.1]),
    if_neg hne.2]
  rfl

end Polls

/-- A message, its echo dropped, and what is read of the reply over the reply before it. -/
def exchange (fuel : ℕ) (message : List UInt8) (minRead : ℕ) (buf : List UInt8) :
    Prog σ (Option (List UInt8)) := do
  let _ ← ispSerialWrite E message
  if ← ispSerialEmptyBuffer E fuel then do
    let (_, got) ← ispSerialRead E repBufsize minRead
    return some (overlay buf 0 got)
  else return none

/-- What `%d` prints. -/
def signedDecimal (z : ℤ) : List UInt8 :=
  if z < 0 then '-'.toUInt8 :: decimal z.natAbs else decimal z.natAbs

/-- The frequency line, of which `snprintf` keeps seven characters. -/
def freqText (crystalFreq : UInt32) : List UInt8 :=
  (signedDecimal (toInt crystalFreq.toNat) ++ crlf).take 7

def ispConnect (fuel : ℕ) (crystalFreq : UInt32) : Prog σ (Option ℤ) := do
  let buf ← uninit E repBufsize
  let n ← ispSerialWrite E synchroStart
  if n ≠ synchroStart.length then return some (-5)
  else do
    let (len, got) ← ispSerialRead E repBufsize synchro.length
    if len < 0 then return some (-4)
    else
      let buf := overlay buf 0 got
      if buf.take synchro.length ≠ synchro then return some (-3)
      else do
        match ← exchange E fuel synchro synchroOk.length buf with
        | none => return none
        | some buf =>
          if buf.take synchroOk.length ≠ synchroOk then return some (-2)
          else do
            match ← exchange E fuel (freqText crystalFreq) synchroOk.length buf with
            | none => return none
            | some buf =>
              if buf.take synchroOk.length ≠ synchroOk then return some (-2)
              else do
                match ← exchange E fuel synchroEchoOff 3 buf with
                | none => return none
                -- what the device answered is not looked at
                | some _ => return some 1

end LpcTools
