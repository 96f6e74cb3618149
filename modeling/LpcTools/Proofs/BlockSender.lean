import LpcTools.Proofs.Receiving

/-!
# Reading from a device that resends what was damaged

The device sends its memory in blocks, each followed by its checksum, goes on to the next block when
one is acknowledged and sends it again when it is refused.
-/

namespace LpcTools

open Run Decimal Uuencode

inductive Stage where
  | idle
  /-- Block `b` is on the line for the `k + 1`st time. -/
  | sending (b k : ℕ)

/-- What a device with memory `m` sends for the first `count` bytes of it: the right text of every
block, and the damaged ones sent before it. Damage keeps the lines' lengths and ends, and shows in
the checksum. -/
structure BlockSender (m : ℕ → UInt8) (count : ℕ) where
  right : ℕ → List Uuencode.Line
  damaged : ℕ → List (List Uuencode.Line)
  right_standard : ∀ b, Standard (right b)
  right_bytes : ∀ b, bytesOf (right b) = block m count b
  damaged_shape : ∀ b, ∀ ls ∈ damaged b,
    ls.map (fun l => (l.size, l.ending)) = (right b).map (fun l => (l.size, l.ending))
  damaged_caught : ∀ b, ∀ ls ∈ damaged b, checksum (bytesOf ls) ≠ checksum (block m count b)

theorem standard_of_shape : ∀ {ls ls' : List Uuencode.Line}, Standard ls' →
    ls.map (fun l => (l.size, l.ending)) = ls'.map (fun l => (l.size, l.ending)) → Standard ls
  | [], _, _, _ => trivial
  | l :: ls, [], _, h => by simp at h
  | l :: ls, l' :: ls', hs, h => by
    rw [List.map_cons, List.map_cons] at h
    obtain ⟨hl, hls⟩ := List.cons.inj h
    obtain ⟨hsize, hend⟩ := Prod.mk.inj hl
    obtain ⟨hle, hcrlf, hfull⟩ := hs.head
    refine Standard.cons (by rw [hsize]; exact hle) (hend.trans hcrlf) (fun hne => ?_)
      (standard_of_shape hs.tail hls)
    rw [hsize]
    refine hfull fun hnil => hne ?_
    rw [hnil] at hls
    exact List.map_eq_nil_iff.1 hls

theorem bytesOf_length_of_shape {ls ls' : List Uuencode.Line}
    (h : ls.map (fun l => (l.size, l.ending)) = ls'.map (fun l => (l.size, l.ending))) :
    (bytesOf ls).length = (bytesOf ls').length := by
  have hsizes := congrArg (List.map Prod.fst) h
  rw [List.map_map, List.map_map] at hsizes
  rw [bytesOf_length, bytesOf_length]
  exact congrArg List.sum hsizes

def checksumLine (bs : List UInt8) : List UInt8 := decimal (checksum bs) ++ crlf

namespace BlockSender

variable {m : ℕ → UInt8} {count : ℕ} (D : BlockSender m count)

/-- The text sent for a block, by how often it has been sent before. -/
def sent (b k : ℕ) : List Uuencode.Line := (D.damaged b)[k]?.getD (D.right b)

/-- What is put on the line for a block, `cut` into pieces. -/
def onLine (cut : List UInt8 → List (List UInt8)) (b k : ℕ) : List (List UInt8) :=
  if b < nbBlocks count then cut (textOf (D.sent b k)) ++ cut (checksumLine (block m count b))
  else []

def line (cut : List UInt8 → List (List UInt8)) (arrive : ℕ → ℕ) : Line Stage where
  hear := fun stage text =>
    match stage with
    | .idle => (cut (statusText 0) ++ D.onLine cut 0 0, .sending 0 0)
    | .sending b k =>
      if text = dataBlockOk then (D.onLine cut (b + 1) 0, .sending (b + 1) 0)
      else if text = dataBlockResend then (D.onLine cut b (k + 1), .sending b (k + 1))
      else ([], .sending b k)
  arrive := arrive

/-- What the host answers up to block `b`: each damaged transmission is refused, and the right one
acknowledged. -/
def answers (b : ℕ) : List (List UInt8) :=
  (List.range b).flatMap fun b => List.replicate (D.damaged b).length dataBlockResend ++ [dataBlockOk]

variable {D}

theorem sent_of_lt {b k : ℕ} (hk : k < (D.damaged b).length) :
    D.sent b k = (D.damaged b)[k] ∧ D.sent b k ∈ D.damaged b := by
  rw [sent, List.getElem?_eq_getElem hk]
  exact ⟨rfl, List.getElem_mem hk⟩

theorem sent_of_le {b k : ℕ} (hk : (D.damaged b).length ≤ k) : D.sent b k = D.right b := by
  rw [sent, List.getElem?_eq_none hk]
  rfl

theorem sent_shape (b k : ℕ) : (D.sent b k).map (fun l => (l.size, l.ending)) =
    (D.right b).map (fun l => (l.size, l.ending)) := by
  by_cases hk : k < (D.damaged b).length
  · exact D.damaged_shape b _ (sent_of_lt hk).2
  · rw [sent_of_le (Nat.le_of_not_lt hk)]

theorem sent_length (b k : ℕ) : (bytesOf (D.sent b k)).length = blockSize count b ∧
    (textOf (D.sent b k)).length = textLength (blockSize count b) := by
  have hlen : (bytesOf (D.sent b k)).length = blockSize count b := by
    rw [bytesOf_length_of_shape (sent_shape b k), D.right_bytes, block, slice_length]
  exact ⟨hlen, by
    rw [(standard_of_shape (D.right_standard b) (sent_shape b k)).textOf_length, hlen]⟩

theorem caught_iff (b k : ℕ) : checksum (bytesOf (D.sent b k)) = checksum (block m count b) ↔
    (D.damaged b).length ≤ k := by
  constructor
  · intro heq
    by_contra hlt
    exact D.damaged_caught b _ (sent_of_lt (Nat.lt_of_not_le hlt)).2 heq
  · intro hk
    rw [sent_of_le hk, D.right_bytes]

end BlockSender

theorem checksum_block_lt (m : ℕ → UInt8) (count b : ℕ) :
    checksum (block m count b) < 10 ^ 6 := by
  have hle := checksum_le (block m count b)
  have hlen : (block m count b).length ≤ 900 := by
    rw [block, slice_length]
    exact Nat.min_le_right _ _
  omega

theorem checksumLine_length (m : ℕ → UInt8) (count b : ℕ) :
    3 ≤ (checksumLine (block m count b)).length ∧
      (checksumLine (block m count b)).length ≤ 8 := by
  have hpos := decimal_length_pos (checksum (block m count b))
  have hle := decimal_length_le 5 _ (checksum_block_lt m count b)
  rw [checksumLine, List.length_append, show crlf.length = 2 from rfl]
  omega

theorem strtoul_checksumLine (m : ℕ → UInt8) (count b : ℕ) (rest : List UInt8) :
    strtoul 10 (checksumLine (block m count b) ++ rest) =
      some (checksum (block m count b), 13 :: 10 :: rest) := by
  have hlt := checksum_block_lt m count b
  rw [checksumLine, List.append_assoc]
  exact strtoul_decimal (show ∀ c ∈ ([] : List UInt8), isSpace c = true by simp)
    (by rw [ulongMax]; omega) (by decide) _

/-- Sums of blocks are compared as they are. -/
theorem calcChecksum_eq_iff {bs : List UInt8} (hbs : bs.length ≤ 900) {v : ℕ} (hv : v < 2 ^ 32) :
    calcChecksum bs = UInt32.ofNat v ↔ checksum bs = v := by
  have hle := checksum_le bs
  rw [← UInt32.toNat_inj, calcChecksum_toNat, UInt32.toNat_ofNat', Nat.mod_eq_of_lt hv,
    Nat.mod_eq_of_lt (by omega)]

theorem textLength_pos {n : ℕ} (hn : 0 < n) : 0 < textLength n := by
  rw [textLength]
  omega

section Whole

variable {δ : Type} {L : Line δ} {O : Sys (Wire δ)} {h : Host (Wire δ)}

/-- A text and its checksum line, delivered in two pieces or in one, are received whole. -/
theorem receiveBlock_whole (buf : List UInt8) (hp : Line.Prompt L.arrive) (h0 : h.nextReadChar = 0)
    {text line : List UInt8} (hw : h.env.pending = [text, line] ∨ h.env.pending = [text ++ line])
    (htext : 0 < text.length) (hline : 3 ≤ line.length)
    (hfit : text.length + line.length < serialBufsize) : ∃ h',
    receiveBlock (L.sys O) text.length buf h = .ok (some (overlay buf 0 (text ++ line))) h' ∧
      Line.Read h (text.length + line.length) h' ∧ h'.env.pending = [] := by
  set s := text ++ line with hs
  have hlen : s.length = text.length + line.length := List.length_append
  have hsfit : s.take serialBufsize = s := List.take_of_length_le (by omega)
  have hend (k : ℕ) (h₁ : Host (Wire δ)) (hk : k = s.length) (hpend : h₁.env.pending = [])
      (hread : ispSerialRead (L.sys O) serialBufsize text.length h = .ok (toInt k, s.take k) h₁)
      (hR : Line.Read h k h₁) : ∃ h',
      receiveBlock (L.sys O) text.length buf h = .ok (some (overlay buf 0 s)) h' ∧
        Line.Read h (text.length + line.length) h' ∧ h'.env.pending = [] := by
    subst hk
    obtain ⟨h₂, hread', hR', hpend'⟩ := Line.ispSerialRead_empty (L := L) (O := O) (m := 0)
      (n := serialBufsize - s.length) (Nat.zero_le _) (by omega) (hR.nextReadChar.trans h0) hpend
    have hrec := receiveBlock_of_reads (j := 0) buf (by omega) (Nat.le_refl _)
      (by omega) hread (by omega) (by rw [if_pos (by omega)]; exact hread')
    rw [Nat.add_zero, List.take_length] at hrec
    exact ⟨h₂, hrec, by rw [← hlen]; exact hR.trans hR', hpend'⟩
  rcases hw with hw | hw
  · obtain ⟨k, h₁, hk, hread, hR, hpend, -⟩ := Line.ispSerialRead_piece (O := O) hp htext
      (show text.length ≤ serialBufsize by omega) h0 hw (Nat.le_refl _)
    by_cases hk1 : k = 1
    · -- the text has come alone, and the second read waits for the checksum
      have htake : (h.env.pending.take k).flatten = text := by rw [hw, hk1]; simp
      have htfit : text.take serialBufsize = text := List.take_of_length_le (by omega)
      have hpend₁ : h₁.env.pending = [line] := by
        rw [hpend, htake, rest_of_length_le (by omega), hw, hk1]
        rfl
      rw [htake, htfit] at hread hR
      obtain ⟨h₂, hread', hR', hpend', -⟩ := Line.ispSerialRead_whole (L := L) (O := O) hp
        (m := 3) (n := serialBufsize - text.length) (by decide) (by omega)
        (hR.nextReadChar.trans h0) hpend₁ hline
      have hlfit : line.take (serialBufsize - text.length) = line :=
        List.take_of_length_le (by omega)
      rw [hlfit] at hread' hR'
      have hst : s.take text.length = text := List.take_left' rfl
      have hsd : (s.drop text.length).take line.length = line := by
        rw [hs, List.drop_left, List.take_length]
      have hrec := receiveBlock_of_reads (j := line.length) (s := s) buf htext (by omega)
        (by omega) (by rw [hst]; exact hread) (by omega)
        (by rw [if_neg (Nat.lt_irrefl _), hsd]; exact hread')
      rw [← hlen, List.take_length] at hrec
      exact ⟨h₂, hrec, hR.trans hR', by rw [hpend', rest_of_length_le (by omega)]⟩
    · have hall : [text, line].length ≤ k := by
        simp only [List.length_cons, List.length_nil]
        omega
      have htake : (h.env.pending.take k).flatten = s := by
        rw [hw, List.take_of_length_le hall]
        simp [hs]
      rw [htake, hsfit] at hread hR
      refine hend s.length h₁ rfl ?_ (by rw [List.take_length]; exact hread) hR
      rw [hpend, htake, rest_of_length_le (by omega), hw, List.drop_of_length_le hall]
      rfl
  · obtain ⟨h₁, hread, hR, hpend, -⟩ := Line.ispSerialRead_whole (L := L) (O := O) hp htext
      (show text.length ≤ serialBufsize by omega) h0 hw (by omega)
    rw [hsfit] at hread hR
    exact hend s.length h₁ rfl (by rw [hpend, rest_of_length_le (by omega)])
      (by rw [List.take_length]; exact hread) hR

/-- An answer to a block reaches the device unless the host gives up. -/
theorem answerBlock_sys {l : ReceiveLocals} {decoded : List UInt8} (correct : Bool) :
    answerBlock (L.sys O) l decoded correct h =
      if correct then .ok (.inl ⟨l.i + 1, l.totalBytesReceived + UInt32.ofNat decoded.length, l.data,
        l.buf⟩) ((L.told (h.acknowledged decoded) dataBlockOk).emit (.acked decoded))
      else if 3 ≤ h.resendRequestForBlock then .ok (.inr l.result) h.damaged
      else .ok (.inl l) (L.told h.damaged dataBlockResend) := by
  rcases correct with _ | _
  · rw [if_neg (by decide)]
    by_cases hc : 3 ≤ h.resendRequestForBlock
    · rw [if_pos hc]
      exact answerBlock_eq_ok.2 (.inr (.inl ⟨rfl, Nat.lt_succ_of_le hc, rfl, rfl⟩))
    · rw [if_neg hc]
      exact answerBlock_eq_ok.2 (.inr (.inr ⟨rfl, Nat.lt_of_not_le hc, _,
        Line.ispSerialWrite_sys _ _, rfl⟩))
  · rw [if_pos rfl]
    exact answerBlock_eq_ok.2 (.inl ⟨rfl, _, _, Line.ispSerialWrite_sys _ _, .inr ⟨rfl, rfl, rfl⟩⟩)

/-- A turn that receives a block whole, be it right or damaged. -/
theorem receiveTurn_whole (hp : Line.Prompt L.arrive) (h0 : h.nextReadChar = 0) {m : ℕ → UInt8}
    {count : UInt32} {b : ℕ} {l : ReceiveLocals} (hl : l.At m count.toNat b)
    (hlt : b < nbBlocks count.toNat) {ls : List Uuencode.Line} (hstd : Standard ls)
    (hbytes : (bytesOf ls).length = blockSize count.toNat b)
    (hw : h.env.pending = [textOf ls, checksumLine (block m count.toNat b)] ∨
      h.env.pending = [textOf ls ++ checksumLine (block m count.toNat b)]) :
    ∃ buf n h₁, Line.Read h n h₁ ∧ h₁.env.pending = [] ∧
      receiveTurn (L.sys O) count (getNbBlocks count) l h =
        answerBlock (L.sys O) { l with
          data := overlay l.data l.totalBytesReceived.toNat ((bytesOf ls).map some), buf := buf }
          (bytesOf ls) (decide (checksum (bytesOf ls) = checksum (block m count.toNat b)))
          (h₁.emit (.received buf (textLength (blockSize count.toNat b)) (count.toNat - 900 * b))) := by
  obtain ⟨hl3, hl8⟩ := checksumLine_length m count.toNat b
  have hsize : blockSize count.toNat b ≤ 900 := Nat.min_le_right _ _
  have htext : (textOf ls).length = textLength (blockSize count.toNat b) := by
    rw [hstd.textOf_length, hbytes]
  have htle := textLength_le hsize
  have htpos := textLength_pos (blockSize_pos hlt)
  obtain ⟨h₁, hrec, hR, hpend₁⟩ := receiveBlock_whole (L := L) (O := O) l.buf hp h0 hw (by omega) hl3
    (by rw [serialBufsize]; omega)
  rw [htext] at hrec
  set B := overlay l.buf 0 (textOf ls ++ checksumLine (block m count.toNat b)) with hB
  have hroom : (bytesOf ls).length ≤ count.toNat - 900 * b := by
    rw [hbytes]
    exact Nat.min_le_left _ _
  have hcorrect : decide (calcChecksum (bytesOf ls) =
      UInt32.ofNat (checksum (block m count.toNat b))) =
      decide (checksum (bytesOf ls) = checksum (block m count.toNat b)) := by
    have hlt := checksum_block_lt m count.toNat b
    rw [decide_eq_decide, calcChecksum_eq_iff (by omega) (by omega)]
  have hdec := decodeBlock_lines (h := h₁) l.buf
    (List.length_pos_iff.1 (Nat.lt_of_lt_of_le (by decide) hl3)) (by omega) hroom
  rw [strtoul_checksumLine, htext, ← hB] at hdec
  simp only [hcorrect] at hdec
  refine ⟨B, _, h₁, hR, hpend₁, ?_⟩
  rw [receiveTurn_of_block hl hlt hrec, bind_ok hdec]

end Whole

section Recovery

variable {m : ℕ → UInt8} {count : UInt32} {D : BlockSender m count.toNat} {arrive : ℕ → ℕ}
  {O : Sys (Wire Stage)}

/-- Block `b` is on the line for the `k + 1`st time, and nothing else. -/
structure OnLine (D : BlockSender m count.toNat) (request : List UInt8) (b k : ℕ)
    (h : Host (Wire Stage)) : Prop where
  nextReadChar : h.nextReadChar = 0
  counter : h.resendRequestForBlock = k
  dev : h.env.dev = .sending b k
  few : k ≤ (D.damaged b).length
  done : nbBlocks count.toNat ≤ b → k = 0
  pending : h.env.pending = D.onLine whole b k ∨
    b < nbBlocks count.toNat ∧ h.env.pending = [(D.onLine whole b k).flatten]
  heard : h.env.heard.map Prod.fst = request :: (D.answers b ++ .replicate k dataBlockResend)

theorem OnLine.emit {request : List UInt8} {b k : ℕ} {h : Host (Wire Stage)}
    (hon : OnLine D request b k h) (e : Event) : OnLine D request b k (h.emit e) :=
  ⟨hon.nextReadChar, hon.counter, hon.dev, hon.few, hon.done, hon.pending, hon.heard⟩

theorem OnLine.next {request : List UInt8} {b k : ℕ} {h h₁ : Host (Wire Stage)}
    (hon : OnLine D request b k h) (hk : k = (D.damaged b).length) {n : ℕ}
    (hR : Line.Read h n h₁) (hpend : h₁.env.pending = []) (h₂ : Host (Wire Stage))
    (henv : h₂.env = h₁.env) (hnext : h₂.nextReadChar = h₁.nextReadChar)
    (hcounter : h₂.resendRequestForBlock = 0) :
    OnLine D request (b + 1) 0 ((D.line whole arrive).told h₂ dataBlockOk) := by
  have hhear : (D.line whole arrive).hear h₂.env.dev dataBlockOk =
      (D.onLine whole (b + 1) 0, .sending (b + 1) 0) := by
    rw [henv, hR.dev, hon.dev]
    rfl
  refine ⟨hnext.trans (hR.nextReadChar.trans hon.nextReadChar), hcounter, ?_, Nat.zero_le _, fun _ => rfl,
    .inl ?_, ?_⟩
  · rw [Line.told, Line.wrote, hhear]
  · rw [Line.told, Line.wrote, hhear, henv, hpend]
    rfl
  · rw [Line.told, Line.wrote, List.map_append, henv, hR.heard, hon.heard, hk,
      BlockSender.answers, BlockSender.answers, List.range_succ, List.flatMap_append]
    simp

theorem OnLine.again {request : List UInt8} {b k : ℕ} {h h₁ : Host (Wire Stage)}
    (hon : OnLine D request b k h) (hlt : b < nbBlocks count.toNat)
    (hk : k < (D.damaged b).length) {n : ℕ}
    (hR : Line.Read h n h₁) (hpend : h₁.env.pending = []) (h₂ : Host (Wire Stage))
    (henv : h₂.env = h₁.env) (hnext : h₂.nextReadChar = h₁.nextReadChar)
    (hcounter : h₂.resendRequestForBlock = k + 1) :
    OnLine D request b (k + 1) ((D.line whole arrive).told h₂ dataBlockResend) := by
  have hhear : (D.line whole arrive).hear h₂.env.dev dataBlockResend =
      (D.onLine whole b (k + 1), .sending b (k + 1)) := by
    rw [henv, hR.dev, hon.dev]
    rfl
  refine ⟨hnext.trans (hR.nextReadChar.trans hon.nextReadChar), hcounter, ?_, hk,
    fun hle => absurd hlt (Nat.not_lt.2 hle), .inl ?_, ?_⟩
  · rw [Line.told, Line.wrote, hhear]
  · rw [Line.told, Line.wrote, hhear, henv, hpend]
    rfl
  · rw [Line.told, Line.wrote, List.map_append, henv, hR.heard, hon.heard, List.replicate_succ']
    simp

/-- One turn receives a transmission whole, and acknowledges it or asks for it again. -/
theorem receiveTurn_onLine (hp : Line.Prompt arrive) (hfew : ∀ b, (D.damaged b).length ≤ 3)
    {request : List UInt8} {b k : ℕ} {l : ReceiveLocals} {h : Host (Wire Stage)}
    (hl : l.At m count.toNat b) (hlt : b < nbBlocks count.toNat) (hon : OnLine D request b k h) :
    ∃ l' h' b' k', receiveTurn ((D.line whole arrive).sys O) count (getNbBlocks count) l h =
        .ok (.inl l') h' ∧
      l'.At m count.toNat b' ∧ b' ≤ nbBlocks count.toNat ∧ OnLine D request b' k' h' := by
  obtain ⟨hbytes, -⟩ := D.sent_length b k
  have hpend : h.env.pending = [textOf (D.sent b k), checksumLine (block m count.toNat b)] ∨
      h.env.pending = [textOf (D.sent b k) ++ checksumLine (block m count.toNat b)] := by
    have := hon.pending
    rw [BlockSender.onLine, if_pos hlt, whole, whole] at this
    simpa [hlt] using this
  obtain ⟨buf, n, h₁, hR, hpend₁, hturn⟩ := receiveTurn_whole (L := D.line whole arrive) (O := O) hp
    hon.nextReadChar hl hlt (standard_of_shape (D.right_standard b) (D.sent_shape b k)) hbytes hpend
  set h₂ := h₁.emit (.received buf (textLength (blockSize count.toNat b)) (count.toNat - 900 * b))
  simp only [D.caught_iff] at hturn
  rw [answerBlock_sys] at hturn
  by_cases hk : (D.damaged b).length ≤ k
  · rw [if_pos (decide_eq_true hk), D.sent_of_le hk, D.right_bytes] at hturn
    exact ⟨_, _, b + 1, 0, hturn, hl.next hlt buf, hlt,
      (hon.next (Nat.le_antisymm hon.few hk) hR hpend₁ (h₂.acknowledged (block m count.toNat b)) rfl
        rfl rfl).emit _⟩
  · have hcounter : h₂.resendRequestForBlock = k := hR.request.trans hon.counter
    have := hfew b
    rw [if_neg (by simpa using hk), hcounter, if_neg (by omega)] at hturn
    exact ⟨_, _, b, k + 1, hturn, hl.decoded (by rw [List.length_map, hbytes]) buf, Nat.le_of_lt hlt,
      hon.again hlt (Nat.lt_of_not_le hk) hR hpend₁ _ rfl rfl (congrArg (· + 1) hcounter)⟩

theorem receiveLoop_onLine (hp : Line.Prompt arrive) (hfew : ∀ b, (D.damaged b).length ≤ 3)
    {request : List UInt8} (l : ReceiveLocals) (h : Host (Wire Stage)) : ∀ b k : ℕ,
    l.At m count.toNat b → b ≤ nbBlocks count.toNat → OnLine D request b k h → ∃ h',
      (receiveLoop ((D.line whole arrive).sys O) count (getNbBlocks count)).run l h =
        .ok (toInt count.toNat, (slice m 0 count.toNat).map some) h' ∧
      OnLine D request (nbBlocks count.toNat) 0 h' := by
  induction l, h using
    (receiveLoop ((D.line whole arrive).sys O) count (getNbBlocks count)).run_induction with
  | step l h ih =>
    intro b k hl hle hon
    by_cases hlt : b < nbBlocks count.toNat
    · obtain ⟨l', h', b', k', hturn, hl', hle', hon'⟩ := receiveTurn_onLine (O := O) hp hfew hl hlt hon
      rw [receiveLoop_inl hturn]
      exact ih l' h' hturn b' k' hl' hle' hon'
    · obtain rfl : b = nbBlocks count.toNat := Nat.le_antisymm hle (Nat.le_of_not_lt hlt)
      obtain rfl := hon.done (Nat.le_refl _)
      exact ⟨h, receiveLoop_inr (receiveTurn_done hl h), hon⟩

theorem BlockSender.onLine_pieces (hlt : 0 < nbBlocks count.toNat) (k : ℕ) :
    rest ((D.onLine whole 0 0).take k).flatten 0 ++ (D.onLine whole 0 0).drop k =
        D.onLine whole 0 0 ∨
      rest ((D.onLine whole 0 0).take k).flatten 0 ++ (D.onLine whole 0 0).drop k =
        [(D.onLine whole 0 0).flatten] := by
  have htext : textOf (D.sent 0 0) ≠ [] := by
    have := textLength_pos (blockSize_pos hlt)
    rw [← (D.sent_length 0 0).2] at this
    exact List.length_pos_iff.1 this
  rw [BlockSender.onLine, if_pos hlt, whole, whole]
  rcases k with _ | _ | k <;> simp [rest, htext]

/-- The request for a read is granted, and the first block is on the line. -/
theorem grant_onLine (hp : Line.Prompt arrive) (addr : UInt32) (c' : ℕ) : ∃ h',
    ispSendCmdTwoArgs ((D.line whole arrive).sys O) 'R'.toUInt8 addr count
      (.start (.quiet .idle) 0 0 c') = .ok 0 h' ∧
    OnLine D (twoArgsText 'R'.toUInt8 addr.toNat count.toNat) 0 0 h' := by
  obtain ⟨buf, heq⟩ := ispSendCmdTwoArgs_eq (E := (D.line whole arrive).sys O) 'R'.toUInt8 addr count
    (.start (.quiet .idle) 0 0 c')
  have hlen := twoArgsText_length 'R'.toUInt8 addr count
  obtain ⟨k, h', es, hsend, hR, hpend, -, -⟩ := sendRequest_piece (L := D.line whole arrive) (O := O)
    (d := .sending 0 0) (s := 0) buf (-5) (-4) 0 (h := .start (.quiet .idle) 0 0 c')
    (D.onLine whole 0 0) hp rfl rfl rfl (Nat.lt_of_le_of_lt hlen (by decide)) (by decide)
  refine ⟨h', heq.trans (map_ok hsend), hR.nextReadChar, hR.request, hR.dev, Nat.zero_le _,
    fun _ => rfl, ?_, by rw [hR.heard]; rfl⟩
  by_cases hlt : 0 < nbBlocks count.toNat
  · rw [hpend]
    exact (D.onLine_pieces hlt k).imp_right fun h => ⟨hlt, h⟩
  · left
    rw [hpend, BlockSender.onLine, if_neg hlt, List.take_nil, List.drop_nil]
    rfl

end Recovery

section Results

/-- A read gets over up to three damaged transmissions of every block: the memory at `addr` has been
asked for and is what the data holds, every damaged transmission has been refused and every right one
acknowledged. -/
theorem read_recovers (arrive : ℕ → ℕ) (hp : Line.Prompt arrive) (O : Sys (Wire Stage))
    (memory : ℕ → UInt8) (addr count : UInt32)
    (D : BlockSender (fun i => memory (addr.toNat + i)) count.toNat)
    (hfew : ∀ b, (D.damaged b).length ≤ 3) (data : List Cell) (hdata : data.length = count.toNat)
    {uu : ℕ} (huu : uu ≠ 0) (c' : ℕ) : ∃ h',
    ispReadMemory ((D.line whole arrive).sys O) data addr count uu (.start (.quiet .idle) 0 0 c') =
      .ok (toInt count.toNat, (slice memory addr.toNat count.toNat).map some) h' ∧
    h'.env.heard.map Prod.fst =
      twoArgsText 'R'.toUInt8 addr.toNat count.toNat :: D.answers (nbBlocks count.toNat) := by
  obtain ⟨h₁, hgrant, hon⟩ := grant_onLine (O := O) (D := D) hp addr c'
  obtain ⟨h', hrun, hon'⟩ := receiveLoop_onLine (O := O) hp hfew _ h₁ 0 0
    (.start hdata ((List.range serialBufsize).map (((D.line whole arrive).sys O).stack h₁.env)))
    (Nat.zero_le _) hon
  have hslice : slice (fun i => memory (addr.toNat + i)) 0 count.toNat =
      slice memory addr.toNat count.toNat := by simp [slice]
  rw [hslice] at hrun
  refine ⟨h', (ispReadMemory_of_grant data huu hgrant).trans hrun, ?_⟩
  rw [hon'.heard, List.replicate_zero, List.append_nil]

/-- The device that encodes as the host does and damages nothing. -/
def BlockSender.encoding (m : ℕ → UInt8) (count : ℕ) : BlockSender m count where
  right := fun b => encodedLines (fun i => m (900 * b + i)) (blockSize count b) 0
  damaged := fun _ => []
  right_standard := fun b => (encodeLines_total (fun i => m (900 * b + i)) _ 0).2.1
  right_bytes := fun b => by
    rw [(encodeLines_total (fun i => m (900 * b + i)) _ 0).2.2, block]
    simp [slice]
  damaged_shape := fun _ _ h => by cases h
  damaged_caught := fun _ _ h => by cases h

/-- A read asks for the memory at `addr` and returns all of it, in spite of damaged transmissions. The
length comes back as the `int` the function returns. -/
theorem ispReadMemory_recovers (arrive : ℕ → ℕ) (hp : Line.Prompt arrive) (O : Sys (Wire Stage))
    (memory : ℕ → UInt8) (addr count : UInt32)
    (D : BlockSender (fun i => memory (addr.toNat + i)) count.toNat)
    (hfew : ∀ b, (D.damaged b).length ≤ 3) (data : List Cell) (hdata : data.length = count.toNat)
    {uu : ℕ} (huu : uu ≠ 0) (c' : ℕ) : ∃ h',
    ispReadMemory ((D.line whole arrive).sys O) data addr count uu (.start (.quiet .idle) 0 0 c') =
      .ok (toInt count.toNat, (slice memory addr.toNat count.toNat).map some) h' ∧
    h'.env.heard.map Prod.fst = twoArgsText 'R'.toUInt8 addr.toNat count.toNat ::
      (List.range (nbBlocks count.toNat)).flatMap (fun b =>
        List.replicate (D.damaged b).length dataBlockResend ++ [dataBlockOk]) ∧
    (count.toNat < 2 ^ 31 → toInt count.toNat = count.toNat) := by
  obtain ⟨h', hrun, hheard⟩ := read_recovers arrive hp O memory addr count D hfew data hdata huu c'
  exact ⟨h', hrun, hheard, toInt_of_lt⟩

/-- Every address holds its own last byte. -/
def lastBytes (a : ℕ) : UInt8 := UInt8.ofNat a

/-- The line of 132, 133, 134, 135 with a bit of its fourth character turned over. -/
def damagedLine : Uuencode.Line where
  size := 4
  chars := [65, 40, 54, 39, 65, 88, 66, 41]
  ending := crlf
  size_pos := Nat.succ_pos 3
  size_le := Nat.le_add_right 4 59
  chars_length := rfl
  ending_lt := crlf_lt

theorem damagedLine_shape : [damagedLine].map (fun l => (l.size, l.ending)) =
    ((BlockSender.encoding (fun i => lastBytes (256 + i)) 904).right 1).map
      fun l => (l.size, l.ending) := by decide +kernel

theorem damagedLine_caught :
    checksum (bytesOf [damagedLine]) ≠ checksum (block (fun i => lastBytes (256 + i)) 904 1) := by decide

/-- Two blocks, of which the second one is damaged three times before it comes right. -/
def thriceDamaged : BlockSender (fun i => lastBytes (256 + i)) 904 :=
  { BlockSender.encoding (fun i => lastBytes (256 + i)) 904 with
    damaged := fun b => if b = 1 then .replicate 3 [damagedLine] else []
    damaged_shape := by
      intro b ls hls
      split_ifs at hls with hb
      · rw [List.eq_of_mem_replicate hls, hb]
        exact damagedLine_shape
      · cases hls
    damaged_caught := by
      intro b ls hls
      split_ifs at hls with hb
      · rw [List.eq_of_mem_replicate hls, hb]
        exact damagedLine_caught
      · cases hls }

theorem ispReadMemory_recovers_damaged : ∃ h',
    ispReadMemory ((thriceDamaged.line whole fun _ => 1).sys (Sys.plain _)) (.replicate 904 none) 256 904 1
      (.start (.quiet .idle) 0 0 0) =
      .ok (toInt 904, (slice lastBytes 256 904).map some) h' ∧
    h'.env.heard.map Prod.fst = twoArgsText 'R'.toUInt8 256 904 ::
      (List.range (nbBlocks 904)).flatMap (fun b =>
        List.replicate (thriceDamaged.damaged b).length dataBlockResend ++ [dataBlockOk]) ∧
    (904 < 2 ^ 31 → toInt 904 = (904 : ℕ)) :=
  ispReadMemory_recovers (fun _ => 1) (fun t => ⟨0, by decide, Nat.one_pos⟩) (Sys.plain _)
    lastBytes 256 904 thriceDamaged
    (fun b => by simp only [thriceDamaged]; split_ifs <;> decide) (.replicate 904 none)
    List.length_replicate Nat.one_ne_zero 0

/-- A read of 2^31 bytes returns a negative number, though all of them have been received. -/
theorem ispReadMemory_recovers_negative : ∃ h' received,
    ispReadMemory (((BlockSender.encoding (fun _ => 0) 2147483648).line whole fun _ => 1).sys
      (Sys.plain _)) (.replicate 2147483648 none) 0 2147483648 1 (.start (.quiet .idle) 0 0 0) =
      .ok (-2147483648, received) h' ∧ (-2147483648 : ℤ) ≠ 2147483648 := by
  obtain ⟨h', hrun, -⟩ := read_recovers (fun _ => 1)
    (fun t => ⟨0, by decide, Nat.one_pos⟩) (Sys.plain _) (fun _ => 0) 0 2147483648
    (BlockSender.encoding (fun _ => 0) 2147483648) (fun b => Nat.zero_le 3)
    (.replicate 2147483648 none) List.length_replicate Nat.one_ne_zero 0
  exact ⟨h', _, hrun, by decide⟩

end Results

end LpcTools
