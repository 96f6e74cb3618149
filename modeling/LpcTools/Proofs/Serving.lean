import LpcTools.Proofs.BlockSender
import LpcTools.Proofs.Commanding
import LpcTools.Proofs.ReadSafety

/-!
# Reading from a faithful device

Asked for its memory, a device sends all of it at once, or block after block as they are acknowledged.
The blocks arrive as they were sent, so none of them is asked for again.
-/

namespace LpcTools

open Run Decimal Uuencode

/-- The content of an address, which is RAM where no sector of the flash is. -/
def Chip.memory (c : Chip) (sector : UInt32 → Option ℕ) (a : UInt32) : UInt8 :=
  if (sector a).isSome then c.flash a else c.ram a

/-- The bytes from an address on, as a function of their offset. -/
def Chip.memoryFrom (c : Chip) (sector : UInt32 → Option ℕ) (addr : UInt32) (i : ℕ) : UInt8 :=
  c.memory sector (addr + UInt32.ofNat i)

/-- What is on the line when these bytes are still to be acknowledged: the first block of them with its
checksum, in two pieces or in one. -/
def Awaited (bs : List UInt8) (pieces : List (List UInt8)) : Prop :=
  if bs = [] then pieces = []
  else ∃ ls, Standard ls ∧ bytesOf ls = bs.take 900 ∧
    (pieces = [textOf ls, checksumLine (bs.take 900)] ∨
      pieces = [textOf ls ++ checksumLine (bs.take 900)])

/-- The device sends its memory when it is asked to. `sends` is what is still to be acknowledged. -/
structure Serves {δ : Type} (L : Line δ) (sector : UInt32 → Option ℕ) (uu : ℕ) (chip : δ → Chip)
    (sends : δ → List UInt8) : Prop where
  grant : ∀ d (addr count : UInt32), (chip d).expects = none → count ≠ 0 →
    let bs := slice ((chip d).memoryFrom sector addr) 0 count.toNat
    ∃ pieces d',
      L.hear d (twoArgsText 'R'.toUInt8 addr.toNat count.toNat) = (statusText 0 :: pieces, d') ∧
      chip d' = chip d ∧ (uu = 0 → pieces = [bs]) ∧ (uu ≠ 0 → Awaited bs pieces ∧ sends d' = bs)
  next : uu ≠ 0 → ∀ d, (chip d).expects = none → sends d ≠ [] → ∃ pieces d',
    L.hear d dataBlockOk = (pieces, d') ∧ chip d' = chip d ∧
    Awaited ((sends d).drop 900) pieces ∧ sends d' = (sends d).drop 900

section Awaited

variable {bs : List UInt8} {pieces : List (List UInt8)}

/-- However many of the pieces have come with the status. -/
theorem Awaited.arrived (ha : Awaited bs pieces) (k : ℕ) :
    Awaited bs (rest (pieces.take k).flatten 0 ++ pieces.drop k) := by
  unfold Awaited at ha ⊢
  by_cases hbs : bs = []
  · rw [if_pos hbs] at ha ⊢
    rw [ha, List.take_nil, List.drop_nil]
    rfl
  · rw [if_neg hbs] at ha ⊢
    obtain ⟨ls, hstd, hbytes, hpieces⟩ := ha
    have htext : textOf ls ≠ [] := by
      have hlen := hstd.textOf_length
      have hpos := List.length_pos_iff.2 hbs
      have htake : (bs.take 900).length = min 900 bs.length := List.length_take
      have := textLength_pos (show 0 < (bytesOf ls).length by rw [hbytes]; omega)
      exact List.ne_nil_of_length_pos (by omega)
    refine ⟨ls, hstd, hbytes, ?_⟩
    rcases hpieces with rfl | rfl
    · rcases k with _ | _ | k
      · exact .inl rfl
      · left
        simp [rest, htext]
      · right
        simp [rest, htext]
    · right
      rcases k with _ | k
      · rfl
      · simp [rest, htext]

theorem drop_slice (m : ℕ → UInt8) (a k j : ℕ) : (slice m a k).drop j = slice m (a + j) (k - j) := by
  refine List.ext_getElem (by simp) fun i h₁ h₂ => ?_
  simp [slice, Nat.add_assoc]

theorem take_slice (m : ℕ → UInt8) (a k j : ℕ) : (slice m a k).take j = slice m a (min k j) := by
  refine List.ext_getElem (by simp [Nat.min_comm]) fun i h₁ h₂ => ?_
  simp [slice]

/-- The first of the blocks that are left. -/
theorem take_drop_blocks (m : ℕ → UInt8) (count b : ℕ) :
    ((slice m 0 count).drop (900 * b)).take 900 = block m count b := by
  rw [drop_slice, take_slice, Nat.zero_add]
  rfl

theorem drop_blocks_eq_nil {m : ℕ → UInt8} {count b : ℕ} :
    (slice m 0 count).drop (900 * b) = [] ↔ nbBlocks count ≤ b := by
  rw [List.drop_eq_nil_iff, slice_length, nbBlocks]
  omega

end Awaited

variable {δ : Type} {L : Line δ} {O : Sys (Wire δ)} {sector : UInt32 → Option ℕ} {uu : ℕ}
  {chip : δ → Chip} {sends : δ → List UInt8} {h h₁ : Host (Wire δ)}

section Blocks

variable {m : ℕ → UInt8} {count : UInt32} {b : ℕ} {c : Chip} {l : ReceiveLocals}

/-- The first `b` blocks have been acknowledged, and the next one is on the line. -/
structure Serving (chip : δ → Chip) (sends : δ → List UInt8) (c : Chip) (m : ℕ → UInt8) (count b : ℕ)
    (h : Host (Wire δ)) : Prop where
  nextReadChar : h.nextReadChar = 0
  chip : chip h.env.dev = c
  sends : sends h.env.dev = (slice m 0 count).drop (900 * b)
  pending : Awaited ((slice m 0 count).drop (900 * b)) h.env.pending

theorem receiveTurn_serving (hp : Line.Prompt L.arrive) (S : Serves L sector uu chip sends)
    (huu : uu ≠ 0) (hc : c.expects = none) (hl : l.At m count.toNat b) (hlt : b < nbBlocks count.toNat)
    (hs : Serving chip sends c m count.toNat b h) : ∃ l' h',
    receiveTurn (L.sys O) count (getNbBlocks count) l h = .ok (.inl l') h' ∧
      l'.At m count.toNat (b + 1) ∧ Serving chip sends c m count.toNat (b + 1) h' := by
  have hleft : (slice m 0 count.toNat).drop (900 * b) ≠ [] := by
    rw [Ne, drop_blocks_eq_nil]
    omega
  have hpend := hs.pending
  rw [Awaited, if_neg hleft, take_drop_blocks] at hpend
  obtain ⟨ls, hstd, hbytes, hw⟩ := hpend
  obtain ⟨buf, n, h₁, hR, hpend₁, hturn⟩ := receiveTurn_whole (L := L) (O := O) hp hs.nextReadChar hl
    hlt hstd (by rw [hbytes]; exact slice_length ..) hw
  rw [hbytes, answerBlock_sys, if_pos (decide_eq_true rfl)] at hturn
  refine ⟨_, _, hturn, hl.next hlt buf, ?_⟩
  obtain ⟨pieces, d', hhear, hchip, hawait, hsends⟩ := S.next huu h₁.env.dev
    (by rw [hR.dev, hs.chip, hc]) (by rw [hR.dev, hs.sends]; exact hleft)
  rw [hR.dev, hs.sends, List.drop_drop, ← Nat.mul_succ] at hawait hsends
  have henv : (L.wrote h₁.env dataBlockOk).dev = d' ∧ (L.wrote h₁.env dataBlockOk).pending = pieces := by
    rw [Line.wrote, hhear, hpend₁]
    exact ⟨rfl, rfl⟩
  refine ⟨hR.nextReadChar.trans hs.nextReadChar, ?_, ?_, ?_⟩
  · change chip (L.wrote h₁.env dataBlockOk).dev = c
    rw [henv.1, hchip, hR.dev, hs.chip]
  · change sends (L.wrote h₁.env dataBlockOk).dev = _
    rw [henv.1, hsends]
  · change Awaited _ (L.wrote h₁.env dataBlockOk).pending
    rw [henv.2]
    exact hawait

theorem receiveLoop_serving (hp : Line.Prompt L.arrive) (S : Serves L sector uu chip sends)
    (huu : uu ≠ 0) (hc : c.expects = none) (l : ReceiveLocals) (h : Host (Wire δ)) : ∀ b, l.At m count.toNat b →
    b ≤ nbBlocks count.toNat → Serving chip sends c m count.toNat b h → ∃ h',
      (receiveLoop (L.sys O) count (getNbBlocks count)).run l h =
        .ok (toInt count.toNat, (slice m 0 count.toNat).map some) h' ∧
      Serving chip sends c m count.toNat (nbBlocks count.toNat) h' := by
  induction l, h using (receiveLoop (L.sys O) count (getNbBlocks count)).run_induction with
  | step l h ih =>
    intro b hl hle hs
    by_cases hlt : b < nbBlocks count.toNat
    · obtain ⟨l', h', hturn, hl', hs'⟩ := receiveTurn_serving (O := O) hp S huu hc hl hlt hs
      rw [receiveLoop_inl hturn]
      exact ih l' h' hturn (b + 1) hl' hlt hs'
    · obtain rfl : b = nbBlocks count.toNat := Nat.le_antisymm hle (Nat.le_of_not_lt hlt)
      exact ⟨h, receiveLoop_inr (receiveTurn_done hl h), hs⟩

end Blocks

/-- A read from a device that sends its memory gives that memory. -/
theorem ispReadMemory_served (hp : Line.Prompt L.arrive) (S : Serves L sector uu chip sends)
    (hi : Idle chip h) (O : Sys (Wire δ)) (addr : UInt32) {count : UInt32} (hcount : count ≠ 0)
    (hlt : count.toNat < 2 ^ 31) {data : List Cell} (hdata : data.length = count.toNat) : ∃ h',
    ispReadMemory (L.sys O) data addr count uu h = .ok (toInt count.toNat,
      (slice ((chip h.env.dev).memoryFrom sector addr) 0 count.toNat).map some) h' ∧
    Idle chip h' ∧ chip h'.env.dev = chip h.env.dev := by
  obtain ⟨pieces, d', hhear, hchip, hraw, hblocks⟩ := S.grant h.env.dev addr count hi.expects hcount
  set m := (chip h.env.dev).memoryFrom sector addr
  obtain ⟨buf, heq⟩ := ispSendCmdTwoArgs_eq (E := L.sys O) 'R'.toUInt8 addr count h
  have hlen := twoArgsText_length 'R'.toUInt8 addr count
  obtain ⟨k, h₁, es, hsend, hR, hpend, -, -⟩ := sendRequest_piece (O := O) buf (-5) (-4) 0 pieces hp
    hi.nextReadChar hi.pending hhear (Nat.lt_of_le_of_lt hlen (by decide)) (by decide)
  have hgrant : ispSendCmdTwoArgs (L.sys O) 'R'.toUInt8 addr count h = .ok 0 h₁ :=
    heq.trans (map_ok hsend)
  have hdev : h₁.env.dev = d' := hR.dev.trans (by rw [Line.told, Line.wrote, hhear])
  have hnext : h₁.nextReadChar = 0 := hR.nextReadChar.trans hi.nextReadChar
  by_cases huu : uu = 0
  · have hpos : (slice m 0 count.toNat) ≠ [] := by
      refine List.ne_nil_of_length_pos ?_
      rw [slice_length]
      exact Nat.pos_of_ne_zero fun h0 => hcount (UInt32.toNat_inj.1 h0)
    have hpend₁ : h₁.env.pending = [slice m 0 count.toNat] := by
      rw [hpend, hraw huu]
      rcases k with _ | k
      · rfl
      · simp [rest, hpos]
    have hone : 0 < count.toNat := by simpa using List.length_pos_iff.2 hpos
    obtain ⟨h₂, hread, hR₂, hpend₂, -⟩ := Line.ispSerialRead_whole (L := L) (O := O) hp hone
      (Nat.le_refl _) hnext hpend₁ (by rw [slice_length])
    have hall : (slice m 0 count.toNat).take count.toNat = slice m 0 count.toNat :=
      List.take_of_length_le (by rw [slice_length])
    rw [hall, slice_length] at hread
    have hstore : store data 0 (slice m 0 count.toNat) (h₂.emit (.took (slice m 0 count.toNat))) =
        .ok ((slice m 0 count.toNat).map some) (h₂.emit (.took (slice m 0 count.toNat))) := by
      rw [store_zero (by rw [slice_length, hdata]), overlay_zero, List.drop_of_length_le, List.append_nil]
      rw [List.length_map, slice_length, hdata]
    refine ⟨h₂.emit (.took (slice m 0 count.toNat)), ?_, ⟨hR₂.nextReadChar.trans hnext, ?_, ?_⟩, ?_⟩
    · unfold ispReadMemory readRaw
      rw [bind_ok hgrant, if_neg (by decide), if_pos huu, bind_ok hread]
      simp only []
      rw [bind_ok (emit_apply _ _), bind_ok hstore, if_neg (by rw [toInt_of_lt hlt]; omega), if_pos trivial]
      rfl
    · change h₂.env.pending = []
      rw [hpend₂, rest_of_length_le (by rw [slice_length])]
    · change (chip h₂.env.dev).expects = none
      rw [hR₂.dev, hdev, hchip, hi.expects]
    · change chip h₂.env.dev = _
      rw [hR₂.dev, hdev, hchip]
  · obtain ⟨hawait, hsends⟩ := hblocks huu
    have hserving : Serving chip sends (chip h.env.dev) m count.toNat 0 h₁ := by
      refine ⟨hnext, by rw [hdev, hchip], by rw [hdev, hsends]; rfl, ?_⟩
      rw [hpend]
      exact hawait.arrived k
    obtain ⟨h', hrun, hdone⟩ := receiveLoop_serving (O := O) hp S huu hi.expects _ h₁ 0
      (.start hdata ((List.range serialBufsize).map ((L.sys O).stack h₁.env))) (Nat.zero_le _) hserving
    refine ⟨h', (ispReadMemory_of_grant data huu hgrant).trans hrun, ⟨hdone.nextReadChar, ?_, ?_⟩,
      hdone.chip⟩
    · have hnone := hdone.pending
      rwa [Awaited, if_pos (drop_blocks_eq_nil.2 (Nat.le_refl _))] at hnone
    · rw [hdone.chip, hi.expects]

end LpcTools
