import LpcTools.Proofs.Sending

/-!
# The blocks `isp_read_memory` receives

A block is decoded into the data before it is judged, so what is right is the data in front of it:
the blocks acknowledged so far. A refused block is overwritten by the next transmission of it.
-/

namespace LpcTools

open Run Decimal Uuencode

theorem getRemainingBlocksize_eq {count total : UInt32} {b : ℕ} (htotal : total.toNat = 900 * b)
    (hlt : b < nbBlocks count.toNat) :
    getRemainingBlocksize count total = textLength (blockSize count.toNat b) := by
  have hcount := count.toNat_lt
  rw [nbBlocks] at hlt
  have hsub : (count - total).toNat = count.toNat - 900 * b := by
    rw [UInt32.toNat_sub_of_le _ _ (by rw [UInt32.le_iff_toNat_le]; omega), htotal]
  unfold getRemainingBlocksize
  rw [hsub, blockSize, textLength, maxDataBlockSize, lineDataLength, maxBytesPerLine, linesPerBlock]
  simp only []
  by_cases hfull : 900 ≤ count.toNat - 900 * b
  · rw [if_pos hfull]
    omega
  · rw [if_neg hfull]
    split_ifs <;> omega

theorem blockSize_pos {count b : ℕ} (hlt : b < nbBlocks count) : 0 < blockSize count b := by
  rw [nbBlocks] at hlt
  rw [blockSize]
  omega

theorem min_succ_blocks (count b : ℕ) :
    min (900 * (b + 1)) count = min (900 * b) count + blockSize count b := by
  rw [blockSize]
  omega

/-- The locals with the first `b` blocks of the data acknowledged. -/
structure ReceiveLocals.At (l : ReceiveLocals) (m : ℕ → UInt8) (count b : ℕ) : Prop where
  i : l.i.toNat = b
  total : l.totalBytesReceived.toNat = min (900 * b) count
  length : l.data.length = count
  data : l.data.take (min (900 * b) count) = (slice m 0 (min (900 * b) count)).map some

namespace ReceiveLocals.At

variable {l : ReceiveLocals} {m : ℕ → UInt8} {count : UInt32} {b : ℕ}

theorem start {data : List Cell} (hdata : data.length = count.toNat) (buf : List UInt8) :
    (ReceiveLocals.mk 0 0 data buf).At m count.toNat 0 :=
  ⟨rfl, by simp, hdata, by simp [slice]⟩

theorem total_eq (hl : l.At m count.toNat b) (hlt : b < nbBlocks count.toNat) :
    l.totalBytesReceived.toNat = 900 * b := by
  have := hl.total
  rw [nbBlocks] at hlt
  omega

theorem lt (hl : l.At m count.toNat b) (hlt : b < nbBlocks count.toNat) :
    l.i < getNbBlocks count := by
  rw [UInt32.lt_iff_toNat_lt, getNbBlocks_toNat, hl.i]
  exact hlt

/-- Whatever a block decodes to, it does not touch the data in front of it. -/
theorem decoded (hl : l.At m count.toNat b) {new : List Cell}
    (hnew : new.length = blockSize count.toNat b) (buf : List UInt8) :
    (ReceiveLocals.mk l.i l.totalBytesReceived
      (overlay l.data l.totalBytesReceived.toNat new) buf).At m count.toNat b := by
  have hfit : min (900 * b) count.toNat + new.length ≤ l.data.length := by
    have := min_succ_blocks count.toNat b
    rw [hl.length]
    omega
  rw [hl.total]
  refine ⟨hl.i, hl.total, (overlay_length hfit).trans hl.length, ?_⟩
  rw [take_overlay (by omega)]
  exact hl.data

theorem next (hl : l.At m count.toNat b) (hlt : b < nbBlocks count.toNat) (buf : List UInt8) :
    (ReceiveLocals.mk (l.i + 1)
      (l.totalBytesReceived + UInt32.ofNat (block m count.toNat b).length)
      (overlay l.data l.totalBytesReceived.toNat ((block m count.toNat b).map some)) buf).At
      m count.toNat (b + 1) := by
  have hcount := count.toNat_lt
  have hsucc := min_succ_blocks count.toNat b
  have hlen : (block m count.toNat b).length = blockSize count.toNat b := slice_length ..
  have hle : blockSize count.toNat b ≤ 900 := Nat.min_le_right _ _
  have hfit : min (900 * b) count.toNat + ((block m count.toNat b).map some).length ≤
      l.data.length := by
    rw [List.length_map, hlen, hl.length]
    omega
  have hi : (l.i + 1).toNat = b + 1 := by
    rw [nbBlocks] at hlt
    rw [UInt32.toNat_add, UInt32.toNat_one, hl.i, Nat.mod_eq_of_lt (by omega)]
  have htotal : (l.totalBytesReceived + UInt32.ofNat (block m count.toNat b).length).toNat =
      min (900 * (b + 1)) count.toNat := by
    rw [UInt32.toNat_add, UInt32.toNat_ofNat', hl.total, hlen, hsucc]
    omega
  rw [hl.total]
  refine ⟨hi, htotal, (overlay_length hfit).trans hl.length, ?_⟩
  have hle : min (900 * b) count.toNat ≤ l.data.length := by omega
  calc (overlay l.data (min (900 * b) count.toNat) ((block m count.toNat b).map some)).take
        (min (900 * (b + 1)) count.toNat)
      = (overlay l.data (min (900 * b) count.toNat) ((block m count.toNat b).map some)).take
        (min (900 * b) count.toNat + ((block m count.toNat b).map some).length) := by
        rw [List.length_map, hlen, hsucc]
    _ = l.data.take (min (900 * b) count.toNat) ++ (block m count.toNat b).map some :=
        take_add_overlay hle
    _ = (slice m 0 (min (900 * (b + 1)) count.toNat)).map some := by
        rw [hl.data, ← List.map_append, slice_block]

/-- All blocks are all of the data. -/
theorem result (hl : l.At m count.toNat (nbBlocks count.toNat)) :
    l.result = (toInt count.toNat, (slice m 0 count.toNat).map some) := by
  have hall : min (900 * nbBlocks count.toNat) count.toNat = count.toNat := by
    rw [nbBlocks]
    omega
  have hdata := hl.data
  rw [hall, List.take_of_length_le (Nat.le_of_eq hl.length)] at hdata
  rw [ReceiveLocals.result, hl.total, hall, hdata]

end ReceiveLocals.At

section Turn

variable {σ : Type} {E : Sys σ} {h h₁ h₂ : Host σ} {m : ℕ → UInt8} {count : UInt32} {b : ℕ}
  {l : ReceiveLocals}

/-- Two reads of one stream fill the buffer as one would. -/
theorem receiveBlock_of_reads {blocksize k j : ℕ} {s : List UInt8} (buf : List UInt8) (hk0 : 0 < k)
    (hk : k ≤ s.length) (hfit : s.length < serialBufsize)
    (hread : ispSerialRead E serialBufsize blocksize h = .ok (toInt k, s.take k) h₁)
    (hj : k + j ≤ s.length)
    (hread' : ispSerialRead E (serialBufsize - k) (if blocksize < k then 0 else 3) h₁ =
      .ok (toInt j, (s.drop k).take j) h₂) :
    receiveBlock E blocksize buf h = .ok (some (overlay buf 0 (s.take (k + j)))) h₂ := by
  rw [serialBufsize] at hfit
  have hlen : (s.take k).length = k := by rw [List.length_take, Nat.min_eq_left hk]
  have hmin : (if (blocksize : ℤ) < (k : ℤ) then 0 else 3) = if blocksize < k then 0 else 3 := by
    split_ifs <;> first | rfl | omega
  rw [toInt_of_lt (by omega)] at hread hread'
  unfold receiveBlock
  rw [bind_ok hread]
  simp only [if_neg (show ¬ (k : ℤ) ≤ 0 by omega), hmin, Int.toNat_natCast]
  rw [bind_ok hread']
  have hoverlay := overlay_append (l := buf) (s.take k) ((s.drop k).take j)
  rw [hlen, ← List.take_add] at hoverlay
  simp only [if_neg (show ¬ ((k : ℤ) + (j : ℤ)) < 0 by omega), hoverlay]
  rfl

/-- A buffer that starts with the text of some lines, with more behind them, decodes to their
bytes. What is taken for the checksum is what the buffer holds from there on. -/
theorem decodeBlock_lines {room : ℕ} {ls : List Uuencode.Line} {got : List UInt8}
    (buf : List UInt8) (hgot : got ≠ [])
    (hlen : (textOf ls).length < 2 ^ 32) (hroom : (bytesOf ls).length ≤ room) :
    decodeBlock room (textOf ls).length (overlay buf 0 (textOf ls ++ got)) h =
      match strtoul 10 (got ++ buf.drop ((textOf ls).length + got.length)) with
      | none => .error .transfer (h.emit (.received (overlay buf 0 (textOf ls ++ got))
          (textOf ls).length room))
      | some (received, _) =>
        .ok (bytesOf ls, decide (calcChecksum (bytesOf ls) = UInt32.ofNat received))
          (h.emit (.received (overlay buf 0 (textOf ls ++ got)) (textOf ls).length room)) := by
  have hbuf : overlay buf 0 (textOf ls ++ got) =
      textOf ls ++ (got ++ buf.drop ((textOf ls).length + got.length)) := by
    rw [overlay_zero, List.length_append, List.append_assoc]
  have hsee : Sees (Mem.of (overlay buf 0 (textOf ls ++ got))) 0 (textOf ls) := by
    rw [hbuf]
    exact Sees.of_append [] _ _
  have hafter : (Mem.of (overlay buf 0 (textOf ls ++ got)) (textOf ls).length).isSome := by
    rw [hbuf, Mem.of, List.getElem?_append_right (Nat.le_refl _), Nat.sub_self]
    obtain ⟨c, got', rfl⟩ := List.exists_cons_of_ne_nil hgot
    rfl
  have hdrop : (overlay buf 0 (textOf ls ++ got)).drop (textOf ls).length =
      got ++ buf.drop ((textOf ls).length + got.length) := by
    rw [hbuf, List.drop_left]
  unfold decodeBlock
  rw [bind_ok (emit_apply _ _), ispUuDecode_textOf ls hsee hafter hlen hroom, hdrop]
  rcases strtoul 10 (got ++ buf.drop ((textOf ls).length + got.length)) with _ | ⟨v, rest⟩ <;> rfl

/-- A turn goes on from the block that is received. -/
theorem receiveTurn_of_block {buf : List UInt8} (hl : l.At m count.toNat b)
    (hlt : b < nbBlocks count.toNat)
    (hrec : receiveBlock E (textLength (blockSize count.toNat b)) l.buf h = .ok (some buf) h₁) :
    receiveTurn E count (getNbBlocks count) l h =
      (decodeBlock (count.toNat - 900 * b) (textLength (blockSize count.toNat b)) buf >>= fun p =>
        answerBlock E { l with
          data := overlay l.data l.totalBytesReceived.toNat (p.1.map some), buf := buf } p.1 p.2)
        h₁ := by
  have htotal := hl.total_eq hlt
  rw [← getRemainingBlocksize_eq htotal hlt] at hrec ⊢
  unfold receiveTurn
  rw [if_pos (hl.lt hlt)]
  simp only []
  rw [bind_ok hrec, hl.length, htotal]

theorem decodeBlock_final (room blocksize : ℕ) (buf : List UInt8) (h : Host σ) :
    final (decodeBlock room blocksize buf h) = h.emit (.received buf blocksize room) := by
  unfold decodeBlock
  rw [bind_ok (emit_apply _ _)]
  rcases ispUuDecode (Mem.of buf) room (UInt32.ofNat blocksize) with _ | ⟨ret, decoded⟩
  · rfl
  · rcases strtoul 10 (buf.drop blocksize) with _ | ⟨received, rest⟩ <;> rfl

/-- What is handed to the decoder stays in the log. -/
theorem receiveTurn_received {buf : List UInt8} (hl : l.At m count.toNat b)
    (hlt : b < nbBlocks count.toNat)
    (hrec : receiveBlock E (textLength (blockSize count.toNat b)) l.buf h = .ok (some buf) h₁) :
    Grows (h₁.emit (.received buf (textLength (blockSize count.toNat b)) (count.toNat - 900 * b)))
      (final (receiveTurn E count (getNbBlocks count) l h)) := by
  rw [receiveTurn_of_block hl hlt hrec, ← decodeBlock_final]
  refine final_bind (R := Grows) Grows.refl ?_
  rintro ⟨decoded, correct⟩ h₂ -
  exact (Grows.frame E).answerBlock _ _ _ h₂

theorem receiveTurn_grows (hl : l.At m count.toNat b) (hlt : b < nbBlocks count.toNat)
    (h : Host σ) :
    Grows (final (receiveBlock E (textLength (blockSize count.toNat b)) l.buf h))
      (final (receiveTurn E count (getNbBlocks count) l h)) := by
  rw [← getRemainingBlocksize_eq (hl.total_eq hlt) hlt]
  unfold receiveTurn
  rw [if_pos (hl.lt hlt)]
  refine final_bind (R := Grows) Grows.refl fun received h₁ _ => ?_
  rcases received with _ | buf
  · exact .refl h₁
  · refine (Grows.frame E).bind ((Grows.frame E).decodeBlock _ _ _ h₁) ?_
    rintro ⟨decoded, correct⟩ h₂ -
    exact (Grows.frame E).answerBlock _ _ _ h₂

theorem receiveTurn_done (hl : l.At m count.toNat (nbBlocks count.toNat)) (h : Host σ) :
    receiveTurn E count (getNbBlocks count) l h =
      .ok (.inr (toInt count.toNat, (slice m 0 count.toNat).map some)) h := by
  have hi : ¬ l.i < getNbBlocks count := by
    rw [UInt32.lt_iff_toNat_lt, getNbBlocks_toNat, hl.i]
    omega
  rw [← hl.result]
  exact receiveTurn_eq_ok.2 (.inl ⟨hi, rfl, rfl⟩)

/-- The blocks follow the request. -/
theorem ispReadMemory_grows (data : List Cell) (addr count : UInt32) (uu : ℕ) (h : Host σ) :
    Grows (final (ispSendCmdTwoArgs E 'R'.toUInt8 addr count h))
      (final (ispReadMemory E data addr count uu h)) := by
  unfold ispReadMemory
  refine final_bind (R := Grows) Grows.refl fun ret h₁ _ => ?_
  by_cases hret : ret ≠ 0
  · rw [if_pos hret]
    exact .refl h₁
  · rw [if_neg hret]
    by_cases huu : uu = 0
    · rw [if_pos huu]
      exact (Grows.frame E).readRaw _ _ h₁
    · rw [if_neg huu, bind_ok (uninit_apply _ _ _)]
      exact (Grows.frame E).receiveLoop _ _ _ h₁

theorem ispReadMemory_of_grant (data : List Cell) {addr : UInt32} {uu : ℕ} (huu : uu ≠ 0)
    (hgrant : ispSendCmdTwoArgs E 'R'.toUInt8 addr count h = .ok 0 h₁) :
    ispReadMemory E data addr count uu h = (receiveLoop E count (getNbBlocks count)).run
      ⟨0, 0, data, (List.range serialBufsize).map (E.stack h₁.env)⟩ h₁ := by
  unfold ispReadMemory
  rw [bind_ok hgrant, if_neg (by decide), if_neg huu, bind_ok (uninit_apply _ _ _)]

end Turn

end LpcTools
