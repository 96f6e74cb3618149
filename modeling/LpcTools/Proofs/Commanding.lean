import LpcTools.ProgCommands
import LpcTools.Proofs.Answers
import LpcTools.Proofs.Device

/-!
# Commands to a faithful device

With nothing left on the line, a command returns the status the device answers it with. A refused
blank check leaves its two numbers, and a code of two digits its line feed, which the next read of
`erase_flash` takes off the line.
-/

namespace LpcTools

open Run Decimal Uuencode

variable {δ : Type} {L : Line δ} {O : Sys (Wire δ)} {sector : UInt32 → Option ℕ} {uu : ℕ}
  {chip : δ → Chip} {h h' : Host (Wire δ)}

/-- Nothing is left on the line, and the device waits for a command. -/
structure Idle (chip : δ → Chip) (h : Host (Wire δ)) : Prop where
  nextReadChar : h.nextReadChar = 0
  pending : h.env.pending = []
  expects : (chip h.env.dev).expects = none

/-- The command has been sent, and the status `s` read of the reply. -/
structure Obeyed (L : Line δ) (sector : UInt32 → Option ℕ) (chip : δ → Chip) (c : Command)
    (h : Host (Wire δ)) (s : ℕ) (h' : Host (Wire δ)) : Prop where
  code : s ≤ 19
  nextReadChar : h'.nextReadChar = 0
  requested : h'.resendRequestedForBlock = h.resendRequestedForBlock
  pending : ∃ reply, L.hear h.env.dev c.text = ([reply], h'.env.dev) ∧ c.Reply s reply ∧
    h'.env.pending = rest reply 3
  heard : h'.env.heard = h.env.heard ++ [(c.text, [])]
  done : s = 0 → c.Holds sector (chip h.env.dev) ∧
    chip h'.env.dev = c.effect sector (chip h.env.dev)
  refused : s ≠ 0 → chip h'.env.dev = chip h.env.dev

theorem reply_take {c : Command} {s : ℕ} (hs : s ≤ 19) {reply : List UInt8} (hr : c.Reply s reply) :
    3 ≤ reply.length ∧ reply.length ≤ 28 ∧ reply.take 3 = (statusText s).take 3 := by
  obtain ⟨h3, h4⟩ := statusText_length hs
  rcases hr with rfl | ⟨-, -, offset, content, rfl⟩
  · exact ⟨h3, by omega, rfl⟩
  · have hoffset := decimal_length_uint32 offset
    have hcontent := decimal_length_uint32 content
    refine ⟨?_, ?_, List.take_append_of_le_length h3⟩
    · rw [List.length_append]
      omega
    · simp only [statusText, List.length_append, show crlf.length = 2 from rfl] at h4 ⊢
      omega

theorem sendRequest_obeyed (F : Faithful L sector uu chip) (hi : Idle chip h) (c : Command)
    (hlen : c.text.length < 2 ^ 31) (buf : List UInt8) (unsent silent quiet : ℤ) :
    ∃ (s : ℕ) (h' : Host (Wire δ)),
    sendRequest (L.sys O) c.text buf 3 unsent silent quiet h = .ok (.status s) h' ∧
      Obeyed L sector chip c h s h' := by
  obtain ⟨s, hs, reply, d', hhear, hreply, hdone, hrefused⟩ := F.command h.env.dev c hi.expects
  obtain ⟨h3, -, htake⟩ := reply_take hs hreply
  have hpend : (L.told h c.text).env.pending = [reply] := by
    rw [Line.told, Line.wrote, hhear, hi.pending]
    rfl
  obtain ⟨h₁, hread, hR, hpend₁, -⟩ := Line.ispSerialRead_whole (L := L) (O := O)
    (h := L.told h c.text) F.prompt (by omega) (Nat.le_refl 3) hi.nextReadChar hpend h3
  have hthree : (reply.take 3).length = 3 := by rw [List.length_take]; omega
  rw [hthree] at hread hR
  obtain ⟨tail, hcode⟩ := strtoul_statusText (.inl rfl) hs (.inl rfl) buf
  rw [List.nil_append, ← htake] at hcode
  obtain ⟨es, -, hsend⟩ := sendRequest_of_read buf unsent silent quiet hlen (by decide) (by decide)
    hread hcode (Nat.lt_of_le_of_lt hs (by decide))
  have hdev : h₁.env.dev = d' := by rw [hR.dev, Line.told, Line.wrote, hhear]
  refine ⟨s, _, hsend, hs, hR.nextReadChar.trans hi.nextReadChar, hR.requested,
    ⟨reply, hhear.trans (by rw [← hdev]; rfl), hreply, hpend₁⟩, ?_, ?_, ?_⟩
  · exact hR.heard.trans (by rw [Line.told, Line.wrote, Wire.unread, hi.pending, List.flatten_nil])
  · intro h0
    change c.Holds sector _ ∧ chip h₁.env.dev = _
    rw [hdev]
    exact hdone h0
  · intro h0
    change chip h₁.env.dev = _
    rw [hdev]
    exact hrefused h0

section Obeyed

variable {c : Command} {s : ℕ}

theorem Obeyed.dev (ho : Obeyed L sector chip c h s h') :
    h'.env.dev = (L.hear h.env.dev c.text).2 := by
  obtain ⟨reply, hhear, -⟩ := ho.pending
  rw [hhear]

theorem Obeyed.pending_zero (ho : Obeyed L sector chip c h 0 h') : h'.env.pending = [] := by
  obtain ⟨reply, -, hr | ⟨hne, -⟩, hpend⟩ := ho.pending
  · rw [hpend, hr]
    rfl
  · exact absurd rfl hne

/-- The status read is that of the reply. -/
theorem Obeyed.status (ho : Obeyed L sector chip c h s h') {t : ℕ} (ht : t ≤ 19)
    {reply : List UInt8} (hr : c.Reply t reply) (hhear : (L.hear h.env.dev c.text).1 = [reply]) :
    s = t := by
  obtain ⟨reply', hhear', hr', -⟩ := ho.pending
  rw [hhear'] at hhear
  obtain ⟨-, -, htake⟩ := reply_take ho.code hr'
  obtain ⟨-, -, htake'⟩ := reply_take ht hr
  rw [(List.cons.inj hhear).1, htake'] at htake
  obtain ⟨tail, hcode⟩ := strtoul_statusText (.inl rfl) ho.code (.inl rfl) []
  obtain ⟨tail', hcode'⟩ := strtoul_statusText (.inl rfl) ht (.inl rfl) []
  rw [List.nil_append] at hcode hcode'
  rw [← htake, hcode'] at hcode
  cases hcode
  rfl

/-- A willing device answers with 0 when that is true. -/
theorem Obeyed.willing {refusals : δ → ℕ} (hw : Willing L sector chip refusals)
    (ho : Obeyed L sector chip c h s h') (hi : Idle chip h) (hc : c.Holds sector (chip h.env.dev)) :
    s = 0 :=
  ho.status (Nat.zero_le 19) (.inl rfl) (hw.command h.env.dev c hi.expects hc)

/-- A command that is carried out leaves the device waiting for the next. -/
theorem Obeyed.idle (ho : Obeyed L sector chip c h 0 h')
    (hexpects : (c.effect sector (chip h.env.dev)).expects = none) : Idle chip h' :=
  ⟨ho.nextReadChar, ho.pending_zero, by rw [(ho.done rfl).2, hexpects]⟩

theorem Obeyed.passed (ho : Obeyed L sector chip c h s h') {P : δ → Prop} (hP : P h'.env.dev) :
    Passed L P h h' := .single ho.heard ho.dev hP

/-- The flash is what it was at `h`. -/
def Unwritten (chip : δ → Chip) (h : Host (Wire δ)) (d : δ) : Prop :=
  (chip d).flash = (chip h.env.dev).flash

/-- A command that does nothing to the flash. -/
theorem Obeyed.unwritten (ho : Obeyed L sector chip c h s h')
    (heffect : (c.effect sector (chip h.env.dev)).flash = (chip h.env.dev).flash) :
    Passed L (Unwritten chip h) h h' := by
  refine ho.passed ?_
  by_cases hs : s = 0
  · rw [Unwritten, (ho.done hs).2, heffect]
  · rw [Unwritten, ho.refused hs]

/-- A read takes all that a refused command has left on the line. -/
theorem Obeyed.drained (F : Faithful L sector uu chip) (ho : Obeyed L sector chip c h s h')
    (hs : s ≠ 0) (hi : Idle chip h) : ∃ r h'', readMore (L.sys O) progRepBufsize 3 h' = .ok r h'' ∧
      Idle chip h'' ∧ h''.env.dev = h'.env.dev ∧ h''.env.heard = h'.env.heard ∧
      h''.resendRequestedForBlock = h'.resendRequestedForBlock := by
  obtain ⟨reply, -, hr, hpend⟩ := ho.pending
  obtain ⟨h3, h28, -⟩ := reply_take ho.code hr
  have hwait : h'.env.pending = [] ∨ ∃ c, h'.env.pending = [c] ∧ c ≠ [] ∧ c.length ≤ progRepBufsize := by
    rw [hpend, rest]
    split_ifs with hnil
    · exact .inl rfl
    · refine .inr ⟨_, rfl, hnil, ?_⟩
      rw [List.length_drop, progRepBufsize]
      omega
  obtain ⟨ret, got, h₁, hread, hpend₁, hdev, hnext⟩ := Line.ispSerialRead_drain (O := O) F.prompt
    (show 0 < 3 by omega) (show 3 ≤ progRepBufsize by decide) ho.nextReadChar hwait
  have hheard := Line.ispSerialRead_heard (L := L) (O := O) progRepBufsize 3 h'
  have hpolled := ispSerialRead_polled (E := L.sys O) progRepBufsize 3 h'
  rw [hread, final_ok] at hheard hpolled
  refine ⟨(ret, got), h₁.emit (.replied (0 < ret)), ?_, ⟨hnext, hpend₁, ?_⟩, hdev, hheard,
    hpolled.requested⟩
  · unfold readMore
    rw [bind_ok hread]
    rfl
  · change (chip h₁.env.dev).expects = none
    rw [hdev, ho.refused hs, hi.expects]

end Obeyed

section Senders

variable (F : Faithful L sector uu chip) (hi : Idle chip h) (O)

include F hi

theorem ispCmdUnlock_obeyed (quiet : ℤ) : ∃ (s : ℕ) (h' : Host (Wire δ)), ispCmdUnlock (L.sys O) quiet h =
    .ok (if s ≠ 0 then -1 else 0) h' ∧ Obeyed L sector chip .unlock h s h' := by
  obtain ⟨s, h', hsend, ho⟩ := sendRequest_obeyed (O := O) F hi .unlock (by decide)
    ((List.range 5).map ((L.sys O).stack h.env)) (-5) (-4) quiet
  refine ⟨s, h', ?_, ho⟩
  unfold ispCmdUnlock ispSendCmdNoArgs
  rw [bind_ok (bind_ok (uninit_apply _ _ _) |>.trans (map_ok hsend))]
  by_cases hs : s = 0
  · rw [hs]
    rfl
  · rw [if_pos hs, if_pos (by rw [Answer.ret]; omega)]
    rfl

theorem ispSendCmdSectors_obeyed {c : Command} {cmd : UInt8} {first last : ℤ} (quiet : ℤ)
    (hle : first ≤ last)
    (htext : c.text = twoArgsText cmd (toUnsigned first).toNat (toUnsigned last).toNat) :
    ∃ (s : ℕ) (h' : Host (Wire δ)),
    ispSendCmdSectors (L.sys O) cmd first last quiet h = .ok s h' ∧
      Obeyed L sector chip c h s h' := by
  have hlen := twoArgsText_length cmd (toUnsigned first) (toUnsigned last)
  obtain ⟨s, h', hsend, ho⟩ := sendRequest_obeyed (O := O) F hi c (by rw [htext]; omega)
    (snprintf ((List.range serialBufsize).map ((L.sys O).stack h.env)) serialBufsize c.text) (-5) (-4)
    quiet
  refine ⟨s, h', ?_, ho⟩
  unfold ispSendCmdSectors
  rw [if_neg (Int.not_lt.2 hle), ← htext]
  rw [← htext] at hlen
  exact map_ok ((sendFormatted_eq (by rw [serialBufsize]; omega) 3 (-5) (-4) quiet h).trans hsend)

theorem ispSendCmdTwoArgs_obeyed {c : Command} {cmd : UInt8} {arg1 arg2 : UInt32}
    (htext : c.text = twoArgsText cmd arg1.toNat arg2.toNat) : ∃ (s : ℕ) (h' : Host (Wire δ)),
    ispSendCmdTwoArgs (L.sys O) cmd arg1 arg2 h = .ok s h' ∧ Obeyed L sector chip c h s h' := by
  have hlen := twoArgsText_length cmd arg1 arg2
  obtain ⟨s, h', hsend, ho⟩ := sendRequest_obeyed (O := O) F hi c (by rw [htext]; omega)
    (snprintf ((List.range repBufsize).map ((L.sys O).stack h.env)) repBufsize c.text) (-5) (-4) 0
  refine ⟨s, h', ?_, ho⟩
  unfold ispSendCmdTwoArgs
  rw [← htext]
  rw [← htext] at hlen
  exact map_ok ((sendFormatted_eq (by rw [repBufsize]; omega) 3 (-5) (-4) 0 h).trans hsend)

theorem ispSendCmdAddress_obeyed {c : Command} {cmd : UInt8} {addr1 addr2 length : UInt32}
    (htext : c.text = addressText cmd addr1.toNat addr2.toNat length.toNat) : ∃ (s : ℕ) (h' : Host (Wire δ)),
    ispSendCmdAddress (L.sys O) cmd addr1 addr2 length h = .ok s h' ∧
      Obeyed L sector chip c h s h' := by
  have hlen := addressText_length cmd addr1 addr2 length
  obtain ⟨s, h', hsend, ho⟩ := sendRequest_obeyed (O := O) F hi c (by rw [htext]; omega)
    (snprintf ((List.range serialBufsize).map ((L.sys O).stack h.env)) serialBufsize c.text) (-5) (-4) 0
  refine ⟨s, h', ?_, ho⟩
  unfold ispSendCmdAddress
  rw [← htext]
  rw [← htext] at hlen
  exact map_ok ((sendFormatted_eq (by rw [serialBufsize]; omega) 3 (-5) (-4) 0 h).trans hsend)

end Senders

end LpcTools
