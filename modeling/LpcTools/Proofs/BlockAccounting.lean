import LpcTools.Proofs.Receiving
import LpcTools.Proofs.EncoderReads

/-!
# Blocks and their sizes

The number of blocks, the size of a block's text and the text itself come from three computations.
They agree because lines are cut off the data 45 bytes at a time, and a block is twenty of them: the
lines of the whole data are those of the blocks, one after the other (`encodedLines_append`).
-/

namespace LpcTools

open Run Decimal Uuencode

/-- Data cut into blocks of at most 900 bytes. -/
def blocksOf (data : List UInt8) : List (List UInt8) :=
  if data = [] then [] else data.take 900 :: blocksOf (data.drop 900)
termination_by data.length
decreasing_by
  have := List.length_pos_iff.2 ‹_›
  simp only [List.length_drop]
  omega

/-- What holds of a block of bytes behind `before` others, and of its text. -/
structure BlockText (data : Mem) (count : UInt32) (before : ℕ) (bs text : List UInt8) : Prop where
  encoded : ispUuEncode (data.drop before) (UInt32.ofNat bs.length) = some ((text.length : ℤ), text)
  remaining : getRemainingBlocksize count (UInt32.ofNat before) = text.length
  sum : (calcChecksum bs).toNat = checksum bs
  sum_fits : (decimal (checksum bs) ++ crlf).length < 12
  fits : text.length + (decimal (checksum bs) ++ crlf).length ≤ serialBufsize
  sent : ∀ (σ : Type) (E : Sys σ) (h : Host σ),
    blockToSend E (data.drop before) (UInt32.ofNat bs.length) h
      = .ok (text ++ (decimal (checksum bs) ++ crlf)) h
  lines : ∃ ls, text = textOf ls ∧ bytesOf ls = bs ∧
    ∀ l ∈ ls, l.size ≤ 45 ∧ (∀ c ∈ l.chars, 33 ≤ c ∧ c ≤ 96) ∧ l.ending = crlf

/-- The blocks of `count` bytes, their texts, and the text of all of it. -/
structure Accounted (data : Mem) (m : ℕ → UInt8) (count : UInt32) (texts : ℕ → List UInt8) :
    Prop where
  blocks : (blocksOf (slice m 0 count.toNat)).length = (getNbBlocks count).toNat
  block : ∀ b bs, (blocksOf (slice m 0 count.toNat))[b]? = some bs →
    BlockText data count (900 * b) bs (texts b)
  whole : ispUuEncode data count = some
    ((((List.range (getNbBlocks count).toNat).flatMap texts).length : ℤ),
      (List.range (getNbBlocks count).toNat).flatMap texts)

section Drop

variable {src : Mem} {a : ℕ}

theorem getTriplet_drop (pos i lineLength : ℕ) : ∀ (js : List ℕ) (t : ℕ),
    getTriplet (src.drop a) pos i lineLength js t = getTriplet src (a + pos) i lineLength js t
  | [], _ => rfl
  | j :: js, t => by
    have hread : src.drop a (pos + i + j) = src (a + pos + i + j) := by
      simp only [Mem.drop, Nat.add_assoc]
    rw [getTriplet, getTriplet, hread]
    simp only [getTriplet_drop pos i lineLength js]

theorem encodeLine_drop (pos lineLength i : ℕ) :
    encodeLine (src.drop a) pos lineLength i = encodeLine src (a + pos) lineLength i := by
  induction hk : lineLength - i using Nat.strongRecOn generalizing i with
  | ind k ih =>
    rw [encodeLine, encodeLine.eq_def src]
    by_cases hlt : i < lineLength
    · rw [if_pos hlt, if_pos hlt, getTriplet_drop, ih _ (by omega) (i + 3) rfl]
    · rw [if_neg hlt, if_neg hlt]

/-- Encoding what is at a pointer is encoding from there on. -/
theorem encodeLines_drop (n pos : ℕ) :
    encodeLines (src.drop a) n pos = encodeLines src (a + n) (a + pos) := by
  induction hk : n - pos using Nat.strongRecOn generalizing pos with
  | ind k ih =>
    rw [encodeLines, encodeLines.eq_def src]
    by_cases hlt : pos < n
    · have h45 : lineDataLengthMax = 45 := rfl
      have hsub : a + n - (a + pos) = n - pos := Nat.add_sub_add_left a n pos
      rw [if_pos hlt, if_pos (by omega)]
      simp only [hsub, encodeLine_drop, Nat.add_assoc]
      rw [ih _ (by omega) (pos + min (n - pos) lineDataLengthMax) rfl]
    · rw [if_neg hlt, if_neg (by omega)]

end Drop

section Lines

variable (m : ℕ → UInt8)

/-- Lines that fill up to `k` are followed by those from `k` on. -/
theorem encodedLines_append {n k : ℕ} (hk : k ≤ n) (pos : ℕ) (hpos : pos ≤ k)
    (h45 : 45 ∣ k - pos) :
    encodedLines m n pos = encodedLines m k pos ++ encodedLines m n k := by
  induction hd : k - pos using Nat.strongRecOn generalizing pos with
  | ind d ih =>
    by_cases hlt : pos < k
    · have hfull : min (n - pos) 45 = 45 := by omega
      have hfull' : min (k - pos) 45 = 45 := by omega
      rw [encodedLines.eq_def m n pos, encodedLines.eq_def m k pos, dif_pos hlt,
        dif_pos (by omega)]
      simp only [hfull, hfull', List.cons_append]
      rw [ih _ (by omega) (pos + 45) (by omega) (by omega) rfl]
    · obtain rfl : pos = k := by omega
      rw [encodedLines.eq_def m pos pos, dif_neg hlt, List.nil_append]

theorem encodedLines_spec {n pos : ℕ} {l : Uuencode.Line} (hl : l ∈ encodedLines m n pos) :
    l.size ≤ 45 ∧ (∀ c ∈ l.chars, 33 ≤ c ∧ c ≤ 96) ∧ l.ending = crlf := by
  induction hk : n - pos using Nat.strongRecOn generalizing pos with
  | ind k ih =>
    rw [encodedLines] at hl
    split_ifs at hl with hlt
    · rcases List.mem_cons.1 hl with rfl | hl
      · refine ⟨Nat.min_le_right _ _, ?_, rfl⟩
        simp only [encodedLine, encodeLine_charsOf, Option.getD_some]
        exact charsOf_bounds _
      · exact ih _ (by omega) hl rfl
    · cases hl

/-- The text of block `b`. -/
def blockText (count b : ℕ) : List UInt8 :=
  textOf (encodedLines m (900 * b + blockSize count b) (900 * b))

/-- The text from block `b` on is that of the blocks from there on. -/
theorem textOf_encodedLines (count b : ℕ) : textOf (encodedLines m count (900 * b)) =
    (List.range' b (nbBlocks count - b)).flatMap (blockText m count) := by
  induction hk : nbBlocks count - b generalizing b with
  | zero =>
    rw [nbBlocks] at hk
    rw [encodedLines, dif_neg (by omega)]
    rfl
  | succ k ih =>
    have hnext := ih (b + 1) (by omega)
    rw [nbBlocks] at hk
    have hsize : 900 * b + blockSize count b = min (900 * (b + 1)) count := by
      rw [blockSize]
      omega
    rw [List.range'_succ, List.flatMap_cons, ← hnext, blockText, hsize, textOf, textOf, textOf,
      ← List.flatMap_append]
    congr 1
    rcases Nat.le_total (900 * (b + 1)) count with hle | hle
    · rw [Nat.min_eq_left hle]
      exact encodedLines_append m hle _ (by omega) (by omega)
    · rw [Nat.min_eq_right hle, encodedLines.eq_def m count (900 * (b + 1)), dif_neg (by omega),
        List.append_nil]

end Lines

theorem blocksOf_slice (m : ℕ → UInt8) (count b : ℕ) : blocksOf (slice m (900 * b) (count - 900 * b))
    = (List.range' b (nbBlocks count - b)).map (block m count) := by
  induction hk : nbBlocks count - b generalizing b with
  | zero =>
    rw [nbBlocks] at hk
    rw [blocksOf, show count - 900 * b = 0 by omega]
    rfl
  | succ k ih =>
    have hnext := ih (b + 1) (by omega)
    rw [nbBlocks] at hk
    have hne : slice m (900 * b) (count - 900 * b) ≠ [] := by
      rw [← List.length_pos_iff, slice_length]
      omega
    rw [blocksOf, if_neg hne, List.range'_succ, List.map_cons, ← hnext, block, blockSize]
    rcases Nat.le_total 900 (count - 900 * b) with hle | hle
    · rw [slice_take m _ hle, slice_drop m _ hle, Nat.min_eq_right hle, Nat.sub_sub,
        ← Nat.mul_succ]
    · rw [List.take_of_length_le (by rwa [slice_length]), Nat.min_eq_left hle,
        List.drop_eq_nil_of_le (by rwa [slice_length]), show count - 900 * (b + 1) = 0 by omega,
        slice_zero]

theorem mapM_of_some {data : Mem} {m : ℕ → UInt8} : ∀ {is : List ℕ},
    (∀ i ∈ is, data i = some (m i)) → is.mapM data = some (is.map m)
  | [], _ => rfl
  | i :: is, h => by
    rw [List.mapM_cons, h i List.mem_cons_self,
      mapM_of_some fun j hj => h j (List.mem_cons_of_mem _ hj)]
    rfl

section Accounting

variable {data : Mem} {m : ℕ → UInt8} {count : UInt32}

theorem blockText_spec (hdata : ∀ i < 3 * ((count.toNat + 2) / 3), data i = some (m i)) {b : ℕ}
    (hb : b < nbBlocks count.toNat) :
    BlockText data count (900 * b) (block m count.toNat b) (blockText m count.toNat b) := by
  have hcount := count.toNat_lt
  have hlt := hb
  rw [nbBlocks] at hlt
  have hsize : blockSize count.toNat b ≤ 900 := Nat.min_le_right _ _
  have hend : 900 * b + blockSize count.toNat b ≤ count.toNat := by
    rw [blockSize]
    omega
  have hlen : (block m count.toNat b).length = blockSize count.toNat b := slice_length ..
  have hn : (UInt32.ofNat (block m count.toNat b).length).toNat = blockSize count.toNat b := by
    rw [hlen, UInt32.toNat_ofNat_of_lt' (by rw [UInt32.size]; omega)]
  obtain ⟨htotal, hstd, hbytes⟩ :=
    encodeLines_total m (900 * b + blockSize count.toNat b) (900 * b)
  rw [Nat.add_sub_cancel_left] at hbytes
  have htext : (blockText m count.toNat b).length = textLength (blockSize count.toNat b) := by
    rw [blockText, hstd.textOf_length, hbytes, slice_length]
  have hfit := textLength_le hsize
  have hline := decimal_checksum_length (hlen.trans_le hsize)
  have henc : ispUuEncode (data.drop (900 * b)) (UInt32.ofNat (block m count.toNat b).length)
      = some (((blockText m count.toNat b).length : ℤ), blockText m count.toNat b) := by
    have hcongr : encodeLines data (900 * b + blockSize count.toNat b) (900 * b)
        = encodeLines (Mem.total m) (900 * b + blockSize count.toNat b) (900 * b) :=
      encodeLines_congr (fun k hk => hdata k (by omega)) (900 * b) (.inl (by omega))
    rw [ispUuEncode, hn, encodeLines_drop, Nat.add_zero, hcongr, htotal, ← toInt_of_lt (by omega)]
    rfl
  refine ⟨henc, ?_, calcChecksum_of_le (hlen.trans_le hsize), by omega,
    by rw [serialBufsize]; omega, ?_, ⟨_, rfl, hbytes, fun l hl => encodedLines_spec m hl⟩⟩
  · rw [getRemainingBlocksize_eq (UInt32.toNat_ofNat_of_lt' (by rw [UInt32.size]; omega)) hb, htext]
  · intro σ E h
    refine blockToSend_of_text henc ?_ (hlen.trans_le hsize) (by omega) h
    rw [hn, block, slice]
    exact mapM_of_some fun i hi => hdata _ (by
      rw [List.mem_range] at hi
      omega)

/-- The block accounting agrees with the encoder, for data of which the last started group can be
read. -/
theorem accounted (hcount : count.toNat ≤ 2 ^ 30)
    (hdata : ∀ i < 3 * ((count.toNat + 2) / 3), data i = some (m i)) :
    Accounted data m count (blockText m count.toNat) := by
  have hblocks := blocksOf_slice m count.toNat 0
  rw [Nat.mul_zero, Nat.sub_zero, Nat.sub_zero] at hblocks
  obtain ⟨htotal, hstd, hbytes⟩ := encodeLines_total m count.toNat 0
  have hwhole := textOf_encodedLines m count.toNat 0
  rw [Nat.mul_zero, Nat.sub_zero, ← List.range_eq_range'] at hwhole
  refine ⟨?_, ?_, ?_⟩
  · rw [hblocks, List.length_map, List.length_range', getNbBlocks_toNat]
  · intro b bs hb
    rw [hblocks, List.getElem?_map, Option.map_eq_some_iff] at hb
    obtain ⟨b', hb', rfl⟩ := hb
    rw [← List.range_eq_range', List.getElem?_eq_some_iff] at hb'
    obtain ⟨hlt, rfl⟩ := hb'
    rw [List.length_range] at hlt
    rw [List.getElem_range]
    exact blockText_spec hdata hlt
  · have hcongr : encodeLines data count.toNat 0 = encodeLines (Mem.total m) count.toNat 0 :=
      encodeLines_congr hdata 0 (.inl (Nat.dvd_zero 3))
    have hlen := hstd.textOf_length
    have hlt : textLength count.toNat < 2 ^ 31 := by
      rw [textLength]
      omega
    rw [hbytes, slice_length, Nat.sub_zero] at hlen
    rw [getNbBlocks_toNat, ← hwhole, ispUuEncode, hcongr, htotal, ← toInt_of_lt (by omega)]
    rfl

/-- Two blocks. -/
theorem accounted_thousand :
    Accounted (Mem.total fun _ => 7) (fun _ => 7) 1000 (blockText (fun _ => 7) 1000) :=
  accounted (by decide) fun _ _ => rfl

end Accounting

end LpcTools
