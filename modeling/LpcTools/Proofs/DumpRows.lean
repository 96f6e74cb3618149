import LpcTools.IspDump
import LpcTools.Lib.Ends

/-!
# The rows of a dump

`isp_dump` prints a row after the other, each byte of it once as a number and once as a character. The
invariant is what has been printed of the row when the counter stands at a column of it.
-/

namespace LpcTools

open Run Decimal

section Text

variable {data : List UInt8} {i j : ℕ} {c : UInt8} {pass : Bool}

/-- The bytes of a row, sixteen in all but the last. -/
def rowBytes (data : List UInt8) (i : ℕ) : List UInt8 := (data.drop (16 * i)).take 16

def rowNumbers (data : List UInt8) (i : ℕ) : List UInt8 :=
  rowOffset (16 * i) ++ (rowBytes data i).flatMap hexColumn ++
    (List.replicate (16 - (rowBytes data i).length) blankColumn).flatten

def dumpRow (data : List UInt8) (i : ℕ) : List UInt8 :=
  rowNumbers data i ++ rowBar ++ (rowBytes data i).map graphColumn ++ rowEnd

/-- How many rows there are bytes for. -/
def dumpRows (data : List UInt8) : ℕ := (data.length + 15) / 16

def dumpText (data : List UInt8) : List UInt8 := (List.range (dumpRows data)).flatMap (dumpRow data)

/-- What the pass has printed when it has come to a column. -/
def passText (data : List UInt8) (pass : Bool) (i j : ℕ) : List UInt8 :=
  if pass then rowNumbers data i ++ if j = 0 then [] else rowBar ++ ((rowBytes data i).take j).map graphColumn
  else if j = 0 then [] else rowOffset (16 * i) ++ ((rowBytes data i).take j).flatMap hexColumn

/-- What is printed for a byte. -/
def byteText (pass : Bool) (i j : ℕ) (c : UInt8) : List UInt8 :=
  (if j = 0 then if pass then rowBar else rowOffset (16 * i) else []) ++
    if pass then [graphColumn c] else hexColumn c

theorem rowBytes_length : (rowBytes data i).length = min 16 (data.length - 16 * i) := by
  simp [rowBytes]

theorem rowBytes_get (hj : j < 16) : (rowBytes data i)[j]? = data[16 * i + j]? := by
  simp [rowBytes, hj]

/-- The rows are the data, one behind the other. -/
theorem rows_take (data : List UInt8) : ∀ k,
    (List.range k).flatMap (rowBytes data) = data.take (16 * k)
  | 0 => rfl
  | k + 1 => by
    rw [List.range_succ, List.flatMap_append, rows_take data k, List.flatMap_singleton, rowBytes,
      Nat.mul_add, List.take_add]

theorem take_rowBytes (hj : j < 16) (hc : data[16 * i + j]? = some c) :
    (rowBytes data i).take (j + 1) = (rowBytes data i).take j ++ [c] := by
  rw [List.take_add_one, rowBytes_get hj, hc]
  rfl

theorem passText_succ (hj : j < 16) (hc : data[16 * i + j]? = some c) :
    passText data pass i (j + 1) = passText data pass i j ++ byteText pass i j c := by
  have htake := take_rowBytes hj hc
  rcases Nat.eq_zero_or_pos j with rfl | hpos
  · cases pass <;> simp [passText, byteText, htake]
  · cases pass <;> simp [passText, byteText, htake, Nat.ne_of_gt hpos]

/-- The first pass, filled up, leaves what the second one starts with. -/
theorem passText_first (hpos : 0 < j) (hlen : (rowBytes data i).length = j) :
    passText data false i j ++ (List.replicate (16 - j) blankColumn).flatten =
      passText data true i 0 := by
  simp [passText, rowNumbers, Nat.ne_of_gt hpos, hlen, List.take_of_length_le hlen.le]

/-- With its end, the second pass completes the row. -/
theorem passText_second (hpos : 0 < j) (hlen : (rowBytes data i).length = j) :
    passText data true i j ++ rowEnd = dumpRow data i := by
  simp [passText, dumpRow, Nat.ne_of_gt hpos, List.take_of_length_le hlen.le]

end Text

section Rows

variable {data s out : List UInt8} {bufSize : UInt32} {l : DumpLocals}

/-- The counter stands at a column of a row, and the rows before it and the pass so far are printed. -/
def DumpAt (data s : List UInt8) (l : DumpLocals) (out : List UInt8) : Prop :=
  ∃ i j, l.count.toNat = 16 * i + j ∧ j < 16 ∧ 16 * i < data.length ∧ 16 * i + j ≤ data.length ∧
    out = s ++ ((List.range i).flatMap (dumpRow data) ++ passText data l.pass i j)

theorem endRow_keeps (hsize : bufSize.toNat = data.length) (hat : DumpAt data s l out)
    (hgo : l.count < bufSize ∨ l.pass = false) : ∃ l' out', endRow bufSize l out = .ok l' out' ∧
      l'.count.toNat < data.length ∧ DumpAt data s l' out' := by
  obtain ⟨i, j, hcount, hj, hi, hle, hout⟩ := hat
  by_cases hend : l.count = bufSize
  · have hlt := bufSize.toNat_lt
    have hpass : l.pass = false := hgo.resolve_left (by rw [hend]; exact UInt32.lt_irrefl _)
    obtain ⟨count, hstart, hrun⟩ := endRow_of_eq hend out
    rw [hend, hsize] at hcount
    have hpos : 0 < j := by omega
    have hlen : (rowBytes data i).length = j := by
      rw [rowBytes_length]
      omega
    rw [hend, hsize, hcount] at hstart hrun
    have hstart' : count.toNat = 16 * i := by omega
    refine ⟨_, _, hrun, by simp only []; omega, i, 0, hstart', by decide, hi, by omega, ?_⟩
    have hpad : (16 - (16 * i + j) % 16) % 16 = 16 - j := by omega
    rw [hout, hpass, hpad, ← passText_first hpos hlen]
    simp only [List.append_assoc]
  · have hne : l.count.toNat ≠ data.length := by
      intro he
      exact hend (UInt32.toNat_inj.1 (he.trans hsize.symm))
    exact ⟨l, out, endRow_of_ne hend, by omega, i, j, hcount, hj, hi, hle, hout⟩

theorem printByte_run {i j : ℕ} {c : UInt8} (hcount : l.count.toNat = 16 * i + j) (hj : j < 16)
    (hc : data[16 * i + j]? = some c) :
    printByte (Mem.of data) l out = .ok () (out ++ byteText l.pass i j c) := by
  have hread : Mem.of data l.count.toNat = some c := by rw [hcount, Mem.of, hc]
  have hcol : l.count % 0x10 = 0 ↔ j = 0 := by
    rw [counter_mod]
    omega
  unfold printByte byteText
  by_cases h0 : j = 0
  · rw [if_pos (hcol.2 h0), if_pos h0, bind_ok (printf_apply _ _), hread]
    simp [hcount, h0]
  · rw [if_neg (mt hcol.1 h0), if_neg h0]
    simp only [hread]
    rfl

/-- The rest of the body: the counter goes to the next column, the next pass or the next row. -/
theorem nextByte_keeps {i j : ℕ} (hsize : bufSize.toNat = data.length)
    (hcount : l.count.toNat = 16 * i + j) (hj : j < 16) (hlt : 16 * i + j < data.length)
    (hout : out = s ++ ((List.range i).flatMap (dumpRow data) ++ passText data l.pass i (j + 1))) :
    Ends (nextByte bufSize l out) (fun r out' => Sum.elim (DumpAt data s · out')
      (fun _ => out' ++ rowEnd = s ++ dumpText data) r) (fun _ _ => False) := by
  have hmax := bufSize.toNat_lt
  have hsucc : (l.count + 1).toNat = 16 * i + (j + 1) := by
    rw [counter_succ]
    omega
  have hcol : (l.count + 1) % 0x10 = 0 ↔ j + 1 = 16 := by
    rw [counter_mod, hsucc]
    omega
  have hlen : j + 1 = 16 → (rowBytes data i).length = j + 1 := fun hfull => by
    rw [rowBytes_length]
    omega
  unfold nextByte
  refine Ends.ite (fun hend => ?_) fun hcols => ?_
  · have hfull := hcol.1 hend
    refine Ends.ite (fun hpass => ?_) fun hpass => ?_
    · rw [hpass] at hout
      have hrow : out ++ rowEnd = s ++ (List.range (i + 1)).flatMap (dumpRow data) := by
        rw [hout, List.append_assoc, List.append_assoc, passText_second (Nat.succ_pos j) (hlen hfull),
          List.range_succ, List.flatMap_append, List.flatMap_singleton]
      refine Ends.ite (fun hlast => ?_) fun hmore => ?_
      · -- the last row was a full one
        have hrows : dumpRows data = i + 1 := by
          rw [dumpRows, ← hsize, ← hlast, hsucc]
          omega
        change out ++ rowEnd = s ++ dumpText data
        rw [hrow, dumpText, hrows]
      · have hne : data.length ≠ 16 * i + (j + 1) := fun he =>
          hmore (UInt32.toNat_inj.1 (hsucc.trans (he.symm.trans hsize.symm)))
        refine Ends.bind_ok (printf_apply _ _) ?_
        refine ⟨i + 1, 0, by simp only []; omega, by decide, by omega, by omega, ?_⟩
        rw [hrow]
        simp [passText]
    · rw [eq_false_of_ne_true hpass] at hout
      refine ⟨i, 0, ?_, by decide, by omega, by omega, ?_⟩
      · simp only [counter_back, hsucc]
        omega
      · have hpad : 16 - (j + 1) = 0 := by omega
        rw [hout, ← passText_first (Nat.succ_pos j) (hlen hfull), hpad]
        simp
  · have hlater := mt hcol.2 hcols
    exact ⟨i, j + 1, hsucc, by omega, by omega, by omega, hout⟩

theorem dumpBody_keeps (hsize : bufSize.toNat = data.length) (hat : DumpAt data s l out) :
    Ends (dumpBody (Mem.of data) bufSize l out) (fun r out' => Sum.elim (DumpAt data s · out')
      (fun _ => out' ++ rowEnd = s ++ dumpText data) r) (fun _ _ => False) := by
  unfold dumpBody
  refine Ends.ite (fun hgo => ?_) fun hdone => ?_
  · obtain ⟨l₁, out₁, hrow, hlt, hat₁⟩ := endRow_keeps hsize hat hgo
    obtain ⟨i, j, hcount, hj, hi, hle, hout⟩ := hat₁
    rw [hcount] at hlt
    have hc : data[16 * i + j]? = some data[16 * i + j] := List.getElem?_eq_getElem hlt
    refine Ends.bind_ok hrow (Ends.bind_ok (printByte_run hcount hj hc) ?_)
    refine nextByte_keeps hsize hcount hj hlt ?_
    rw [passText_succ hj hc, hout]
    simp only [List.append_assoc]
  · -- the second pass has come to the end of a row that is not full
    obtain ⟨i, j, hcount, hj, hi, hle, hout⟩ := hat
    obtain ⟨hsecond, hpass⟩ := not_or.1 hdone
    have hend : data.length = 16 * i + j := by
      rw [UInt32.lt_iff_toNat_lt] at hsecond
      omega
    have hpos : 0 < j := by omega
    have hlen : (rowBytes data i).length = j := by
      rw [rowBytes_length]
      omega
    have hrows : dumpRows data = i + 1 := by
      rw [dumpRows]
      omega
    change out ++ rowEnd = s ++ dumpText data
    rw [hout, eq_true_of_ne_false hpass, List.append_assoc, List.append_assoc,
      passText_second hpos hlen, dumpText, hrows, List.range_succ, List.flatMap_append,
      List.flatMap_singleton]

end Rows

/-- A dump ends, reads nothing but the buffer and prints its rows, which are the bytes of the buffer, each
once. -/
theorem ispDump_rows (buf : ℕ → UInt8) (bufSize : UInt32) (out : List UInt8) :
    let data := (List.range bufSize.toNat).map buf
    ispDump (Mem.of data) bufSize out = .ok () (out ++ dumpText data) ∧
      (List.range (dumpRows data)).flatMap (rowBytes data) = data := by
  intro data
  have hsize : bufSize.toNat = data.length := by simp [data]
  refine ⟨?_, (rows_take data _).trans (List.take_of_length_le (by rw [dumpRows]; omega))⟩
  unfold ispDump
  by_cases h0 : bufSize = 0
  · have hnil : data = [] := by simp [data, h0]
    rw [if_pos h0, hnil]
    exact congrArg (EStateM.Result.ok ()) (List.append_nil out).symm
  · have hpos : 0 < data.length := by
      rw [← hsize]
      exact Nat.pos_of_ne_zero fun he => h0 (UInt32.toNat_inj.1 he)
    have hloop : Ends ((dumpLoop (Mem.of data) bufSize).run ⟨0, false⟩ out)
        (fun _ out' => out' ++ rowEnd = out ++ dumpText data) (fun _ _ => False) :=
      Loop.ends (I := DumpAt data out) (fun _ _ hat => dumpBody_keeps hsize hat)
        ⟨0, 0, rfl, by decide, hpos, Nat.zero_le _, by simp [passText]⟩
    rw [if_neg h0]
    rcases hrun : (dumpLoop (Mem.of data) bufSize).run ⟨0, false⟩ out with ⟨⟨⟩, out'⟩ | ⟨f, out'⟩
    · rw [bind_ok hrun, printf_apply, hloop.ok hrun]
    · exact (hloop.error hrun).elim

example : dumpText [0x7F, 0x45, 0x4C, 0x46, 0x00] =
    bytes " 00000000  7f 45 4c 46 00                                   |.ELF.|\n".toList := by
  decide

end LpcTools
