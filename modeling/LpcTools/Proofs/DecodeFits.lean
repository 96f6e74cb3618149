import LpcTools.Transfer

/-!
# Which texts the decoder can decode

`isp_uu_decode` believes the length a line starts with. It stays inside its two objects just if every
line it comes to announces no more bytes than there is room for, and ends inside the buffer.
-/

namespace LpcTools

open Decimal Uuencode

/-- Where the decoder takes the next line to start: behind the characters below a blank. -/
def nextLine (buf : List UInt8) (blocksize pos : ℕ) : ℕ :=
  pos + (((buf.take blocksize).drop pos).takeWhile fun c => charVal c < uuencodeAddedVal).length

/-- Where the characters of a line of `n` bytes at `pos` end. -/
def lineEnd (pos n : ℕ) : ℕ := pos + 1 + 4 * ((n + 2) / 3)

/-- The lines of the text from `pos` on announce no more bytes than there is room for, and each has
its characters and one more in the buffer. -/
inductive LinesFit (buf : List UInt8) (blocksize : ℕ) : ℕ → ℕ → Prop where
  | done {room pos : ℕ} (hpos : blocksize ≤ pos) : LinesFit buf blocksize room pos
  | zero {room pos : ℕ} (hpos : pos < blocksize) (hc : buf[pos]? = some uuencodeZero) :
      LinesFit buf blocksize room pos
  | line {room pos : ℕ} {c : UInt8} (hpos : pos < blocksize) (hc : buf[pos]? = some c)
      (hne : c ≠ uuencodeZero) (hroom : lineLengthOf c ≤ room)
      (hend : lineEnd pos (lineLengthOf c) < buf.length)
      (hrest : LinesFit buf blocksize (room - lineLengthOf c)
        (nextLine buf blocksize (lineEnd pos (lineLengthOf c)))) :
      LinesFit buf blocksize room pos

/-- A receive buffer whose block and whose checksum can be read: the lines fit, and the number
behind them ends inside the buffer. -/
def BlockFits (buf : List UInt8) (blocksize room : ℕ) : Prop :=
  LinesFit buf blocksize room 0 ∧ (strtoul 10 (buf.drop blocksize)).isSome

section Scan

variable {buf : List UInt8} {blocksize : ℕ}

theorem le_nextLine (buf : List UInt8) (blocksize pos : ℕ) : pos ≤ nextLine buf blocksize pos :=
  Nat.le_add_right _ _

theorem findNextLine_eq (hbs : blocksize < buf.length) : ∀ {pos : ℕ}, pos < buf.length →
    findNextLine (Mem.of buf) blocksize pos = some (nextLine buf blocksize pos) := by
  intro pos
  induction hk : blocksize - pos using Nat.strongRecOn generalizing pos with
  | ind k ih =>
    intro hpos
    have hc : Mem.of buf pos = some buf[pos] := List.getElem?_eq_getElem hpos
    rw [findNextLine, hc]
    simp only [Option.bind_eq_bind, Option.bind_some]
    by_cases hlt : pos < blocksize
    · have hdrop : (buf.take blocksize).drop pos = buf[pos] :: (buf.take blocksize).drop (pos + 1) := by
        rw [List.drop_eq_getElem_cons (by rw [List.length_take]; omega), List.getElem_take]
      by_cases hlow : charVal buf[pos] < uuencodeAddedVal
      · rw [if_pos ⟨hlow, hlt⟩, ih _ (by omega) rfl (by omega), nextLine, nextLine, hdrop,
          List.takeWhile_cons_of_pos (by simpa using hlow), List.length_cons, Nat.add_right_comm,
          Nat.add_assoc]
      · rw [if_neg (by tauto), nextLine, hdrop, List.takeWhile_cons_of_neg (by simpa using hlow),
          List.length_nil, Nat.add_zero]
    · have hdrop : (buf.take blocksize).drop pos = [] := by
        rw [List.drop_eq_nil_iff, List.length_take]
        omega
      rw [if_neg (by tauto), nextLine, hdrop, List.takeWhile_nil, List.length_nil, Nat.add_zero]

theorem getQuartet_isSome {pos : ℕ} : (getQuartet (Mem.of buf) pos).isSome ↔ pos + 3 < buf.length := by
  unfold getQuartet Mem.of
  constructor
  · intro h
    by_contra hlt
    have hnone : buf[pos + 3]? = none := List.getElem?_eq_none (by omega)
    rw [hnone] at h
    simp at h
  · intro h
    rw [List.getElem?_eq_getElem (show pos < buf.length by omega),
      List.getElem?_eq_getElem (show pos + 1 < buf.length by omega),
      List.getElem?_eq_getElem (show pos + 2 < buf.length by omega), List.getElem?_eq_getElem h]
    rfl

/-- A line is decoded just if its characters are there. -/
theorem decodeLine_cases (buf : List UInt8) (left : ℕ) : ∀ pos : ℕ,
    (left = 0 ∨ pos + 4 * ((left + 2) / 3) ≤ buf.length) ∧
        (∃ out, decodeLine (Mem.of buf) pos left = some (out, pos + 4 * ((left + 2) / 3)) ∧
          out.length = left) ∨
      left ≠ 0 ∧ buf.length < pos + 4 * ((left + 2) / 3) ∧
        decodeLine (Mem.of buf) pos left = none := by
  induction left using Nat.strongRecOn with
  | ind left ih =>
    intro pos
    rw [decodeLine]
    by_cases h0 : left = 0
    · rw [if_pos h0, h0]
      exact .inl ⟨.inl rfl, [], rfl, rfl⟩
    · rw [if_neg h0]
      by_cases hq : pos + 3 < buf.length
      · obtain ⟨t, ht⟩ := Option.isSome_iff_exists.1 (getQuartet_isSome.2 hq)
        have hsize : pos + 4 * ((left + 2) / 3) = pos + 4 + 4 * ((left - 3 + 2) / 3) := by omega
        rw [ht, hsize]
        simp only [Option.bind_eq_bind, Option.bind_some]
        rcases ih (left - 3) (by omega) (pos + 4) with ⟨hfit, out, hout, hlen⟩ | ⟨h3, hlt, hnone⟩
        · refine .inl ⟨.inr (by omega), (tripletBytes t).take left ++ out, by rw [hout]; rfl, ?_⟩
          rw [List.length_append, List.length_take, hlen, tripletBytes_length]
          omega
        · exact .inr ⟨h0, hlt, by rw [hnone]; rfl⟩
      · have hnone : getQuartet (Mem.of buf) pos = none := by
          rw [← Option.not_isSome_iff_eq_none, getQuartet_isSome]
          exact hq
        rw [hnone]
        exact .inr ⟨h0, by omega, rfl⟩

end Scan

section Lines

variable {buf : List UInt8} {blocksize : ℕ}

theorem decodeLines_length {src : Mem} {origSize room : ℕ} : ∀ {pos : ℕ} {dest out : List UInt8},
    dest.length ≤ room → decodeLines src origSize room pos dest = some out → out.length ≤ room := by
  intro pos
  induction hk : origSize - pos using Nat.strongRecOn generalizing pos with
  | ind k ih =>
    intro dest out hdest h
    rw [decodeLines_eq] at h
    by_cases hpos : pos < origSize
    · rw [if_pos hpos] at h
      simp only [Option.bind_eq_bind, Option.bind_eq_some_iff] at h
      obtain ⟨c, -, h⟩ := h
      split_ifs at h with hzero
      · cases h
        exact hdest
      · rw [Option.bind_eq_some_iff] at h
        obtain ⟨⟨line, pos'⟩, hline, h⟩ := h
        simp only [] at h
        split_ifs at h with hroom
        rw [Option.bind_eq_some_iff] at h
        obtain ⟨next, hnext, h⟩ := h
        have h1 := le_of_decodeLine src hline
        have h2 := le_of_findNextLine src hnext
        refine ih (origSize - next) (by omega) rfl ?_ h
        rw [List.length_append]
        omega
    · rw [if_neg hpos] at h
      cases h
      exact hdest

theorem decodeLines_isSome (hbs : blocksize < buf.length) {room : ℕ} :
    ∀ {pos : ℕ} {dest : List UInt8}, dest.length ≤ room →
      ((decodeLines (Mem.of buf) blocksize room pos dest).isSome ↔
        LinesFit buf blocksize (room - dest.length) pos) := by
  intro pos
  induction hk : blocksize - pos using Nat.strongRecOn generalizing pos with
  | ind k ih =>
    intro dest hdest
    rw [decodeLines_eq]
    by_cases hpos : pos < blocksize
    · have hc : buf[pos]? = some buf[pos] := List.getElem?_eq_getElem (by omega)
      rw [if_pos hpos, show Mem.of buf pos = some buf[pos] from hc]
      simp only [Option.bind_eq_bind, Option.bind_some]
      by_cases hzero : buf[pos] = uuencodeZero
      · rw [if_pos hzero]
        exact iff_of_true rfl (.zero hpos (hc.trans (congrArg some hzero)))
      · rw [if_neg hzero]
        -- the only way for a line that is not the last
        have hinv : LinesFit buf blocksize (room - dest.length) pos →
            lineLengthOf buf[pos] ≤ room - dest.length ∧
            lineEnd pos (lineLengthOf buf[pos]) < buf.length ∧
            LinesFit buf blocksize (room - dest.length - lineLengthOf buf[pos])
              (nextLine buf blocksize (lineEnd pos (lineLengthOf buf[pos]))) := by
          rintro (hdone | ⟨-, hc'⟩ | ⟨-, hc', -, hroom, hend, hrest⟩)
          · omega
          · exact absurd (Option.some.inj (hc.symm.trans hc')) hzero
          · obtain rfl := Option.some.inj (hc.symm.trans hc')
            exact ⟨hroom, hend, hrest⟩
        rcases decodeLine_cases buf (lineLengthOf buf[pos]) (pos + 1) with
          ⟨hfit, out, hout, hlen⟩ | ⟨h0, hlt, hnone⟩
        · rw [hout]
          simp only [Option.bind_some, hlen]
          by_cases hroom : room < dest.length + lineLengthOf buf[pos]
          · rw [if_pos hroom]
            refine iff_of_false (by simp) fun hf => ?_
            have := (hinv hf).1
            omega
          · rw [if_neg hroom]
            by_cases hend : lineEnd pos (lineLengthOf buf[pos]) < buf.length
            · have hle := le_nextLine buf blocksize (lineEnd pos (lineLengthOf buf[pos]))
              have hdest' : (dest ++ out).length ≤ room := by
                rw [List.length_append]
                omega
              have hrest := ih (blocksize - nextLine buf blocksize (lineEnd pos (lineLengthOf buf[pos])))
                (by rw [lineEnd] at hle ⊢; omega) rfl hdest'
              rw [List.length_append, hlen, ← Nat.sub_sub] at hrest
              rw [← lineEnd, findNextLine_eq hbs hend, Option.bind_some, hrest]
              exact ⟨.line hpos hc hzero (by omega) hend, fun hf => (hinv hf).2.2⟩
            · have hnone : findNextLine (Mem.of buf) blocksize (lineEnd pos (lineLengthOf buf[pos])) =
                  none := by
                rw [findNextLine, Mem.of, List.getElem?_eq_none (Nat.not_lt.1 hend)]
                rfl
              rw [← lineEnd, hnone]
              exact iff_of_false (by simp) fun hf => hend (hinv hf).2.1
        · rw [hnone]
          refine iff_of_false (by simp) fun hf => ?_
          have := (hinv hf).2.1
          rw [lineEnd] at this
          omega
    · rw [if_neg hpos]
      exact iff_of_true rfl (.done (Nat.not_lt.1 hpos))

end Lines

end LpcTools
