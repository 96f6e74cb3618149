import LpcTools.Host
import LpcTools.Lib.Decimal

/-!
# `isp_dump`

A buffer as `hexdump -C` shows it. One counter runs over each row twice, first for the numbers and
then for the characters. What has been printed is the state.
-/

namespace LpcTools

open Run Decimal

abbrev Printer := EStateM Fault (List UInt8)

def printf (text : List UInt8) : Printer Unit := modify fun out => out ++ text

@[simp] theorem printf_apply (text out : List UInt8) : printf text out = .ok () (out ++ text) := rfl

/-- `%x` with at least so many digits, filled up with zeros. -/
def hexText (width n : ℕ) : List UInt8 :=
  let digits := bytes (Nat.toDigits 16 n)
  .replicate (width - digits.length) '0'.toUInt8 ++ digits

/-- `isgraph`, in the locale a program starts with. -/
def isgraph (c : UInt8) : Bool := 0x21 ≤ c && c ≤ 0x7E

/-- The counter and whether it is the second pass over the row. -/
structure DumpLocals where
  count : UInt32
  pass : Bool

def blankColumn : List UInt8 := bytes [' ', ' ', ' ']

section Counter

theorem counter_succ (count : UInt32) : (count + 1).toNat = (count.toNat + 1) % 2 ^ 32 :=
  UInt32.toNat_add _ _

theorem counter_back (count : UInt32) : (count - 0x10).toNat = (2 ^ 32 - 16 + count.toNat) % 2 ^ 32 :=
  UInt32.toNat_sub _ _

variable {count : UInt32}

theorem counter_and : count &&& 0x0F ≠ 0 ↔ count.toNat % 16 ≠ 0 := by
  have hmod : (count &&& 0x0F).toNat = count.toNat % 16 := by
    rw [UInt32.toNat_and]
    exact Nat.and_two_pow_sub_one_eq_mod _ 4
  rw [← hmod, Ne, ← UInt32.toNat_inj]
  rfl

theorem counter_mod : count % 0x10 = 0 ↔ count.toNat % 16 = 0 := by
  rw [← UInt32.toNat_inj, UInt32.toNat_mod]
  rfl

end Counter

/-- `while (count & 0x0F)` -/
def padLoop : Loop Fault (List UInt8) UInt32 UInt32 where
  body := fun count out =>
    if count &&& 0x0F ≠ 0 then .ok (.inl (count + 1)) (out ++ blankColumn)
    else .ok (.inr count) out
  rank := fun count _ => (16 - count.toNat % 16) % 16
  rank_lt := by
    intro count out count' out' h
    split_ifs at h with hcol <;> cases h
    rw [counter_and] at hcol
    rw [counter_succ]
    omega

/-- The columns that are missing in the row are left blank. -/
theorem padLoop_run : ∀ (k : ℕ) (count : UInt32) (out : List UInt8),
    (16 - count.toNat % 16) % 16 = k → ∃ count', count'.toNat = (count.toNat + k) % 2 ^ 32 ∧
      padLoop.run count out = .ok count' (out ++ (List.replicate k blankColumn).flatten)
  | 0, count, out, hk => by
    have hlt := count.toNat_lt
    have hcol : ¬ (count &&& 0x0F ≠ 0) := by
      rw [counter_and]
      omega
    refine ⟨count, by omega, Loop.run_inr ?_⟩
    simp only [padLoop, if_neg hcol, List.replicate_zero, List.flatten_nil, List.append_nil]
  | k + 1, count, out, hk => by
    have hcol : count &&& 0x0F ≠ 0 := by
      rw [counter_and]
      omega
    obtain ⟨count', hcount, hrun⟩ := padLoop_run k (count + 1) (out ++ blankColumn) (by
      rw [counter_succ]
      omega)
    refine ⟨count', by rw [hcount, counter_succ]; omega, ?_⟩
    have hbody : padLoop.body count out = .ok (.inl (count + 1)) (out ++ blankColumn) := by
      simp only [padLoop, if_pos hcol]
    rw [Loop.run_inl hbody, hrun, List.replicate_succ, List.flatten_cons, List.append_assoc]

/-- At the end of the buffer the row is filled up, and its second pass begins. -/
def endRow (bufSize : UInt32) (l : DumpLocals) : Printer DumpLocals :=
  if l.count = bufSize then do
    let count ← padLoop.run l.count
    return ⟨count - 0x10, true⟩
  else return l

def rowOffset (count : ℕ) : List UInt8 :=
  bytes [' '] ++ hexText 8 count ++ bytes [' ', ' ']

def rowBar : List UInt8 := bytes [' ', '|']

def rowEnd : List UInt8 := bytes ['|', '\n']

def hexColumn (c : UInt8) : List UInt8 := hexText 2 c.toNat ++ bytes [' ']

def graphColumn (c : UInt8) : UInt8 := if isgraph c then c else '.'.toUInt8

def printByte (buf : Mem) (l : DumpLocals) : Printer Unit := do
  if l.count % 0x10 = 0 then
    printf (if l.pass then rowBar else rowOffset l.count.toNat)
  match buf l.count.toNat with
  | none => throw .source
  | some c => printf (if l.pass then [graphColumn c] else hexColumn c)

/-- The end of the body of the `while` loop, from `count++` on. -/
def nextByte (bufSize : UInt32) (l : DumpLocals) : Printer (DumpLocals ⊕ Unit) :=
  let count := l.count + 1
  if count % 0x10 = 0 then
    if l.pass then
      if count = bufSize then return .inr ()
      else do
        printf rowEnd
        return .inl ⟨count, false⟩
    else return .inl ⟨count - 0x10, true⟩
  else return .inl ⟨count, l.pass⟩

def dumpBody (buf : Mem) (bufSize : UInt32) (l : DumpLocals) : Printer (DumpLocals ⊕ Unit) :=
  if l.count < bufSize ∨ l.pass = false then do
    let l ← endRow bufSize l
    printByte buf l
    nextByte bufSize l
  else return .inr ()

section Rank

variable {buf : Mem} {bufSize : UInt32} {l l' : DumpLocals} {out out' : List UInt8}

/-- Rows left, passes left in the row, columns left in the pass. -/
def DumpLocals.left (l : DumpLocals) : ℕ :=
  (2 ^ 28 - l.count.toNat / 16) * 34 + (if l.pass then 0 else 17) + (16 - l.count.toNat % 16)

/-- A first pass that starts at the end of the buffer, which no run does, would go back by a row. -/
def dumpRank (bufSize : UInt32) (l : DumpLocals) : ℕ :=
  l.left + if l.count = bufSize ∧ l.count.toNat % 16 = 0 ∧ l.pass = false then 34 else 0

theorem left_first (h : l.pass = false) :
    l.left = (2 ^ 28 - l.count.toNat / 16) * 34 + 17 + (16 - l.count.toNat % 16) := by
  simp [DumpLocals.left, h]

theorem left_second (h : l.pass = true) :
    l.left = (2 ^ 28 - l.count.toNat / 16) * 34 + (16 - l.count.toNat % 16) := by
  simp [DumpLocals.left, h]

theorem left_le_rank : l.left ≤ dumpRank bufSize l := Nat.le_add_right _ _

theorem rank_eq_left (h : l.count = bufSize → l.count.toNat % 16 = 0 → l.pass = true) :
    dumpRank bufSize l = l.left := by
  rw [dumpRank, if_neg, Nat.add_zero]
  rintro ⟨hend, hcol, hpass⟩
  simp [h hend hcol] at hpass

theorem endRow_of_ne (h : l.count ≠ bufSize) : endRow bufSize l out = .ok l out := by
  unfold endRow
  rw [if_neg h]
  rfl

/-- The second pass begins where the row does. -/
theorem endRow_of_eq (h : l.count = bufSize) (out : List UInt8) : ∃ count : UInt32,
    count.toNat = 16 * ((2 ^ 28 - 1 + (l.count.toNat + 15) / 16) % 2 ^ 28) ∧
    endRow bufSize l out = .ok ⟨count, true⟩
      (out ++ (List.replicate ((16 - l.count.toNat % 16) % 16) blankColumn).flatten) := by
  obtain ⟨count, hcount, hrun⟩ := padLoop_run _ l.count out rfl
  have hrow : l.count.toNat + (16 - l.count.toNat % 16) % 16 = 16 * ((l.count.toNat + 15) / 16) := by
    omega
  rw [hrow] at hcount
  refine ⟨count - 0x10, by rw [counter_back, hcount]; omega, ?_⟩
  unfold endRow
  rw [if_pos h, bind_ok hrun]
  rfl

theorem left_endRow (hgo : l.count < bufSize ∨ l.pass = false)
    (hrun : endRow bufSize l out = .ok l' out') :
    l'.left ≤ dumpRank bufSize l ∧ (l'.pass = true → l'.count.toNat + 1 < 2 ^ 32) := by
  have hlt := l.count.toNat_lt
  have hsize := bufSize.toNat_lt
  by_cases hend : l.count = bufSize
  · have hpass : l.pass = false := hgo.resolve_left (by rw [hend]; exact UInt32.lt_irrefl _)
    obtain ⟨count, hcount, hrun'⟩ := endRow_of_eq hend out
    rw [hrun'] at hrun
    cases hrun
    refine ⟨?_, fun _ => by simp only []; omega⟩
    rw [left_second rfl, hcount]
    by_cases hcol : l.count.toNat % 16 = 0
    · rw [dumpRank, if_pos ⟨hend, hcol, hpass⟩, left_first hpass]
      omega
    · rw [rank_eq_left fun _ he => absurd he hcol, left_first hpass]
      omega
  · rw [endRow_of_ne hend] at hrun
    cases hrun
    refine ⟨left_le_rank, fun hpass => ?_⟩
    have hless := UInt32.lt_iff_toNat_lt.1 (hgo.resolve_right (by simp [hpass]))
    omega

theorem rank_nextByte (hpass : l.pass = true → l.count.toNat + 1 < 2 ^ 32)
    (hrun : nextByte bufSize l out = .ok (.inl l') out') : dumpRank bufSize l' < l.left := by
  have hlt := l.count.toNat_lt
  have hsucc := counter_succ l.count
  simp only [nextByte] at hrun
  split_ifs at hrun with hcol hsecond hend
  · cases hrun
  · have hfits := hpass hsecond
    cases hrun
    rw [counter_mod, hsucc] at hcol
    rw [rank_eq_left fun he _ => absurd he hend, left_first rfl, left_second hsecond, hsucc]
    omega
  · cases hrun
    rw [counter_mod, hsucc] at hcol
    rw [rank_eq_left fun _ _ => rfl, left_second rfl, left_first (by simpa using hsecond), counter_back,
      hsucc]
    omega
  · cases hrun
    rw [counter_mod] at hcol
    rw [rank_eq_left fun _ he => absurd he hcol]
    rw [hsucc] at hcol
    rcases hl : l.pass with _ | _
    · rw [left_first rfl, left_first hl, hsucc]
      omega
    · rw [left_second rfl, left_second hl, hsucc]
      omega

/-- Every turn comes nearer to the end, whatever it prints. -/
theorem rank_dumpBody (hrun : dumpBody buf bufSize l out = .ok (.inl l') out') :
    dumpRank bufSize l' < dumpRank bufSize l := by
  unfold dumpBody at hrun
  split_ifs at hrun with hgo
  · obtain ⟨l₁, out₁, hrow, hrun⟩ := bind_eq_ok.1 hrun
    obtain ⟨⟨⟩, out₂, -, hnext⟩ := bind_eq_ok.1 hrun
    obtain ⟨hle, hfits⟩ := left_endRow hgo hrow
    exact (rank_nextByte hfits hnext).trans_le hle
  · cases hrun

end Rank

def dumpLoop (buf : Mem) (bufSize : UInt32) : Loop Fault (List UInt8) DumpLocals Unit where
  body := dumpBody buf bufSize
  rank := fun l _ => dumpRank bufSize l
  rank_lt := rank_dumpBody

def ispDump (buf : Mem) (bufSize : UInt32) : Printer Unit :=
  if bufSize = 0 then return ()
  else do
    (dumpLoop buf bufSize).run ⟨0, false⟩
    printf rowEnd

end LpcTools
