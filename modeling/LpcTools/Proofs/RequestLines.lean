import LpcTools.Proofs.StatusCodes
import LpcTools.Proofs.TypedNumbers

/-!
# What a request line says

A sender puts one line on the line, and the numbers in it stand for themselves: read back as they
are printed, behind a blank each, they are the arguments. So no two requests of a kind look alike.
-/

namespace LpcTools

open Run Decimal Uuencode

section Puts

variable {σ : Type} {E : Sys σ} {h h' : Host (σ × Talk)} {text buf : List UInt8} {n : ℕ}

/-- The line takes all it is given. -/
def Sys.Takes (E : Sys σ) : Prop := ∀ s bs, (E.write s bs).1 = .wrote bs.length

/-- The text is all that has been said, and the whole of it on a line that takes it. -/
def Puts (E : Sys σ) (text : List UInt8) (h h' : Host (σ × Talk)) : Prop :=
  ∃ k, h'.env.2.sent = h.env.2.sent ++ text.take k ∧ (E.Takes → k = text.length)

theorem Sys.Takes.recorded (hall : E.Takes) : E.recorded.Takes := by
  intro s bs
  have htakes := hall s.1 bs
  simp only [Sys.recorded]
  rcases hw : E.write s.1 bs with ⟨_ | _ | _, env⟩ <;> rw [hw] at htakes
  · exact htakes
  · cases htakes
  · cases htakes

theorem ispSerialWrite_puts (htext : text.length < 2 ^ 31) (h : Host (σ × Talk)) :
    Puts E text h (final (ispSerialWrite E.recorded text h)) := by
  have hsaid := ispSerialWrite_said (E := E) htext h
  rcases hwrite : ispSerialWrite E.recorded text h with ⟨ret, h'⟩ | ⟨f, h'⟩
  · obtain ⟨-, k, -, hk, hret⟩ := hsaid.ok hwrite
    refine ⟨k, by rw [final_ok, hk, Talk.sent_say], fun hall => hret ?_⟩
    obtain ⟨env, hrun⟩ := ispSerialWrite_takes hall.recorded text h
    rw [hwrite] at hrun
    cases hrun
    exact toInt_of_lt htext
  · exact (hsaid.error hwrite).elim

theorem sendRequest_puts (unsent silent quiet : ℤ) (htext : text.length < 2 ^ 31)
    (h : Host (σ × Talk)) :
    Puts E text h (final (sendRequest E.recorded text buf n unsent silent quiet h)) := by
  rw [Puts, sendRequest_sent]
  exact ispSerialWrite_puts htext h

/-- Every sender says its request and nothing else. -/
theorem Sender.send_puts {s : Sender} (hs : s.Sent) (E : Sys σ) (h : Host (σ × Talk)) :
    Puts E s.text h (final (s.send E.recorded h)) := by
  obtain ⟨buf, -, hsend⟩ := send_eq (E := E.recorded) hs h
  rw [hsend, final_map]
  exact sendRequest_puts s.failures.1 s.failures.2 s.quiet hs.text_lt h

end Puts

/-- A request with numbers in it. -/
inductive Numbered where
  | twoArgs (cmd : UInt8) (arg1 arg2 : UInt32)
  | address (cmd : UInt8) (addr1 addr2 length : UInt32)
  | sectors (cmd : UInt8) (firstSector lastSector quiet : ℤ)
  | go (addr : UInt32) (mode : UInt8)

namespace Numbered

def sender : Numbered → Sender
  | twoArgs cmd arg1 arg2 => .request (.twoArgs cmd arg1 arg2)
  | address cmd addr1 addr2 length => .request (.address cmd addr1 addr2 length)
  | sectors cmd firstSector lastSector quiet => .request (.sectors cmd firstSector lastSector quiet)
  | go addr mode => .go addr mode

inductive Kind where
  | twoArgs
  | address
  | sectors
  | go
  deriving DecidableEq

def kind : Numbered → Kind
  | twoArgs _ _ _ => .twoArgs
  | address _ _ _ _ => .address
  | sectors _ _ _ _ => .sectors
  | go _ _ => .go

/-- How many numbers there are. -/
def Kind.numbers : Kind → ℕ
  | twoArgs => 2
  | address => 3
  | sectors => 2
  | go => 1

/-- The letter of the command, its numbers and the mode. Sectors are taken modulo 2^32. -/
def asked : Numbered → UInt8 × List ℕ × List UInt8
  | twoArgs cmd arg1 arg2 => (cmd, [arg1.toNat, arg2.toNat], [])
  | address cmd addr1 addr2 length => (cmd, [addr1.toNat, addr2.toNat, length.toNat], [])
  | sectors cmd firstSector lastSector _ =>
    (cmd, [(toUnsigned firstSector).toNat, (toUnsigned lastSector).toNat], [])
  | go addr mode => ('G'.toUInt8, [addr.toNat], [mode])

/-- `n` numbers, each behind a blank, and what is behind them. -/
def readFields : ℕ → List UInt8 → Option (List ℕ × List UInt8)
  | 0, s => some ([], s)
  | _ + 1, [] => none
  | n + 1, c :: s =>
    if c = ' '.toUInt8 then do
      let (v, s) ← strtoul 10 s
      let (vs, s) ← readFields n s
      some (v :: vs, s)
    else none

/-- The mode, where there is one, and the end of the line. -/
def Kind.readEnd : Kind → List UInt8 → Option (List UInt8)
  | go, c :: mode :: s => if c = ' '.toUInt8 ∧ s = crlf then some [mode] else none
  | go, _ => none
  | _, s => if s = crlf then some [] else none

def Kind.readLine (k : Kind) : List UInt8 → Option (UInt8 × List ℕ × List UInt8)
  | [] => none
  | cmd :: s => do
    let (vs, s) ← readFields k.numbers s
    let mode ← k.readEnd s
    some (cmd, vs, mode)

section Reading

theorem readFields_decimal {n v : ℕ} {vs : List ℕ} {c : UInt8} {s rest : List UInt8}
    (hv : v < 2 ^ 32) (hc : Stops c) (hs : readFields n (c :: s) = some (vs, rest)) :
    readFields (n + 1) (' '.toUInt8 :: (decimal v ++ c :: s)) = some (v :: vs, rest) := by
  have hread := strtoul_decimal (show ∀ c ∈ ([] : List UInt8), isSpace c = true by simp)
    (show v ≤ ulongMax by rw [ulongMax]; omega) hc s
  rw [List.nil_append] at hread
  simp only [readFields, if_true, hread, Option.bind_eq_bind, Option.bind_some, hs]

theorem Kind.readLine_of_fields {k : Kind} {cmd : UInt8} {s rest mode : List UInt8} {vs : List ℕ}
    (hs : readFields k.numbers s = some (vs, rest)) (hrest : k.readEnd rest = some mode) :
    k.readLine (cmd :: s) = some (cmd, vs, mode) := by
  simp only [readLine, hs, hrest, Option.bind_eq_bind, Option.bind_some]

/-- A request is read back as what was asked for. -/
theorem readLine_text (r : Numbered) : r.kind.readLine r.sender.text = some r.asked := by
  have hblank : Stops ' '.toUInt8 := by decide
  have hend : Stops '\r'.toUInt8 := by decide
  have hnone (s : List UInt8) : readFields 0 s = some ([], s) := rfl
  have htwo (a b : UInt32) := readFields_decimal a.toNat_lt hblank
    (readFields_decimal b.toNat_lt hend (hnone crlf))
  rcases r with ⟨cmd, a, b⟩ | ⟨cmd, a, b, n⟩ | ⟨cmd, first, last, quiet⟩ | ⟨addr, mode⟩
  · exact Kind.readLine_of_fields (htwo a b) rfl
  · exact Kind.readLine_of_fields (readFields_decimal a.toNat_lt hblank (htwo b n)) rfl
  · exact Kind.readLine_of_fields (htwo (toUnsigned first) (toUnsigned last)) rfl
  · exact Kind.readLine_of_fields (readFields_decimal addr.toNat_lt hblank (hnone _)) rfl

end Reading

section Line

/-- A line that is not ended before its end. -/
def IsLine (text : List UInt8) : Prop := ∃ body, text = body ++ crlf ∧ Unended body

theorem isLine_crlf : IsLine crlf := ⟨[], rfl, fun c hc => by cases hc⟩

theorem IsLine.append {a text : List UInt8} (ha : Unended a) (ht : IsLine text) :
    IsLine (a ++ text) := by
  obtain ⟨body, rfl, hbody⟩ := ht
  refine ⟨a ++ body, (List.append_assoc a body crlf).symm, fun c hc => ?_⟩
  rcases List.mem_append.1 hc with hc | hc
  · exact ha c hc
  · exact hbody c hc

theorem IsLine.cons {c : UInt8} {text : List UInt8} (hc : endsLine c = false) (ht : IsLine text) :
    IsLine (c :: text) :=
  ht.append (a := [c]) fun d hd => by rwa [List.mem_singleton.1 hd]

/-- A number behind a blank. -/
theorem IsLine.number {text : List UInt8} (n : ℕ) (ht : IsLine text) :
    IsLine (' '.toUInt8 :: (decimal n ++ text)) :=
  (ht.append (unended_decimal n)).cons (by decide)

theorem isLine_text {r : Numbered} (hs : r.sender.Sent) (hcmd : endsLine r.asked.1 = false) :
    IsLine r.sender.text := by
  rcases r with ⟨cmd, a, b⟩ | ⟨cmd, a, b, n⟩ | ⟨cmd, first, last, quiet⟩ | ⟨addr, mode⟩
  · exact ((isLine_crlf.number b.toNat).number a.toNat).cons hcmd
  · exact (((isLine_crlf.number n.toNat).number b.toNat).number a.toNat).cons hcmd
  · exact ((isLine_crlf.number (toUnsigned last).toNat).number (toUnsigned first).toNat).cons hcmd
  · have hmode : endsLine mode = false := by
      rcases hs.2 with rfl | rfl <;> rfl
    have hend : IsLine (' '.toUInt8 :: mode :: crlf) := (isLine_crlf.cons hmode).cons (by decide)
    exact (hend.number addr.toNat).cons hcmd

theorem text_lt_bufSize (r : Numbered) : r.sender.text.length < r.sender.bufSize := by
  have hrep : 25 < repBufsize := by decide
  have hserial : 36 < serialBufsize := by decide
  rcases r with ⟨cmd, a, b⟩ | ⟨cmd, a, b, n⟩ | ⟨cmd, first, last, quiet⟩ | ⟨addr, mode⟩
  · exact Nat.lt_of_le_of_lt (twoArgsText_length cmd a b) hrep
  · exact Nat.lt_of_le_of_lt (addressText_length cmd a b n) hserial
  · exact Nat.lt_of_le_of_lt (twoArgsText_length cmd _ _) (Nat.lt_trans (by decide) hserial)
  · exact Nat.lt_of_le_of_lt (goText_length addr mode) (Nat.lt_trans (by decide) hserial)

end Line

/-- The request goes out as a whole line, which says what is asked for, and only that. -/
structure Unambiguous (r : Numbered) : Prop where
  puts : ∀ {σ : Type} (E : Sys σ) (h : Host (σ × Talk)),
    Puts E r.sender.text h (final (r.sender.send E.recorded h))
  line : IsLine r.sender.text
  fits : r.sender.text.length < r.sender.bufSize
  reads : r.kind.readLine r.sender.text = some r.asked
  distinct : ∀ r' : Numbered, r'.kind = r.kind → r'.sender.text = r.sender.text → r'.asked = r.asked

end Numbered

/-- Every request that is sent is a line of its own, whatever the numbers. -/
theorem Numbered.unambiguous (r : Numbered) (hs : r.sender.Sent)
    (hcmd : endsLine r.asked.1 = false) : r.Unambiguous where
  puts := fun E h => Sender.send_puts hs E h
  line := isLine_text hs hcmd
  fits := text_lt_bufSize r
  reads := readLine_text r
  distinct := by
    intro r' hkind htext
    have hread := readLine_text r'
    rw [hkind, htext, readLine_text r] at hread
    exact (Option.some.inj hread).symm

theorem Numbered.unambiguous_copy :
    (Numbered.address 'C'.toUInt8 0x1000 0x10000300 4096).Unambiguous :=
  Numbered.unambiguous (.address 'C'.toUInt8 0x1000 0x10000300 4096) trivial (by decide)

end LpcTools
