import LpcTools.Proofs.BlockSender

/-!
# Reading with the bytes arriving in any pieces

The second read of a turn waits for the checksum only when nothing of it has come with the block, and
then for three characters of up to eight. What it leaves on the line is read as the start of the next
block.
-/

namespace LpcTools

open Run Decimal Uuencode

theorem getElem?_of_isPrefix {α : Type} {l l' : List α} (h : l <+: l') {i : ℕ} {a : α}
    (ha : l[i]? = some a) : l'[i]? = some a := by
  obtain ⟨t, rfl⟩ := h
  obtain ⟨hi, -⟩ := List.getElem?_eq_some_iff.1 ha
  rwa [List.getElem?_append_left hi]

section Shifted

theorem digit_range : ∀ d < 10, 48 ≤ digit d ∧ digit d ≤ 57 := by decide

theorem checksumLine_chars (bs : List UInt8) :
    ∀ c ∈ checksumLine bs, c.toNat < 33 ∨ 48 ≤ c.toNat ∧ c.toNat ≤ 57 := by
  intro c hc
  rcases List.mem_append.1 hc with hc | hc
  · obtain ⟨d, ds, hlt, hdec, -⟩ := decimal_digits (checksum bs)
    rw [hdec] at hc
    obtain ⟨e, he, rfl⟩ := List.mem_map.1 hc
    exact .inr (digit_range e (hlt e he))
  · left
    rw [crlf, List.mem_cons, List.mem_singleton] at hc
    rcases hc with rfl | rfl <;> decide

/-- What is left of a checksum line starts with a character of it and ends with the line feed. -/
theorem drop_checksumLine {bs w : List UInt8} {r : ℕ} (hr : w = (checksumLine bs).drop r)
    (hw : w ≠ []) : ∃ c, w[0]? = some c ∧ c ∈ checksumLine bs ∧ w[w.length - 1]? = some 10 := by
  have hlen : w.length = (checksumLine bs).length - r := by rw [hr, List.length_drop]
  have hpos := List.length_pos_iff.2 hw
  have hget (i : ℕ) : w[i]? = (checksumLine bs)[r + i]? := by rw [hr, List.getElem?_drop]
  refine ⟨(checksumLine bs)[r], ?_, List.getElem_mem (by omega), ?_⟩
  · rw [hget, Nat.add_zero, List.getElem?_eq_getElem (by omega)]
  · have hend : checksumLine bs = (decimal (checksum bs) ++ [13]) ++ [10] := by
      rw [checksumLine, List.append_assoc]
      rfl
    have hlast : (checksumLine bs)[(checksumLine bs).length - 1]? = some 10 := by
      rw [hend, List.length_append, List.length_singleton, Nat.add_sub_cancel]
      exact List.getElem?_concat_length
    rw [hget, ← hlast]
    congr 1
    omega

/-- A block read from behind the rest of a checksum line on is not what was sent for it: the first
character would have to stand for a line with the line feed among its characters. -/
theorem take_shifted {ls : List Uuencode.Line} (hls : ls ≠ [])
    (hprint : ∀ l ∈ ls, ∀ c ∈ l.chars, 32 ≤ c) {bs w : List UInt8} {r : ℕ}
    (hr : w = (checksumLine bs).drop r) (hw : w ≠ []) (hlen : w.length < 24) (tail : List UInt8) :
    (w ++ (textOf ls ++ tail)).take (textOf ls).length ≠ textOf ls := by
  intro heq
  obtain ⟨l, ls, rfl⟩ := List.exists_cons_of_ne_nil hls
  obtain ⟨c, hc, hmem, hlast⟩ := drop_checksumLine hr hw
  have hpos := List.length_pos_iff.2 hw
  have htext : textOf (l :: ls) = UInt8.ofNat (l.size + 32) :: (l.chars ++ (l.ending ++ textOf ls)) := by
    rw [textOf_cons, Line.text, List.cons_append, List.append_assoc]
  have hget {i : ℕ} {a : UInt8} (hi : w[i]? = some a) (hi' : i < (textOf (l :: ls)).length) :
      (textOf (l :: ls))[i]? = some a := by
    have hiw := (List.getElem?_eq_some_iff.1 hi).1
    rw [← heq, List.getElem?_take_of_lt hi', List.getElem?_append_left hiw, hi]
  have hchars := l.chars_length
  have hsize := l.size_le
  have hspos := l.size_pos
  have hlong : (textOf (l :: ls)).length = 1 + (l.chars.length + (l.ending ++ textOf ls).length) := by
    rw [htext, List.length_cons, List.length_append]
    omega
  have hhead : UInt8.ofNat (l.size + 32) = c := by
    have := hget hc (by omega)
    rw [htext] at this
    exact Option.some.inj this
  have hcval : c.toNat = l.size + 32 := by
    rw [← hhead, UInt8.toNat_ofNat']
    omega
  -- a digit stands for a line of sixteen bytes or more
  have hdigit : 48 ≤ c.toNat := by
    rcases checksumLine_chars bs c hmem with hlt | hge
    · omega
    · exact hge.1
  have h10 := hget hlast (by omega)
  rw [htext] at h10
  rcases hi : w.length - 1 with _ | i
  · rw [hi, List.getElem?_cons_zero, Option.some.injEq, hhead] at h10
    rw [h10] at hdigit
    exact absurd hdigit (by decide)
  · rw [hi, List.getElem?_cons_succ, List.getElem?_append_left (by omega)] at h10
    have := hprint l List.mem_cons_self 10 (List.mem_of_getElem? h10)
    exact absurd this (by decide)

end Shifted

section Cut

variable {δ : Type} {L : Line δ} {O : Sys (Wire δ)} {h : Host (Wire δ)}

theorem heard_frame : Frame (L.sys O) fun h h' => h.env.heard <+: h'.env.heard where
  refl := fun _ => List.prefix_rfl
  trans := fun p q => p.trans q
  write := fun bs h => by
    rw [Line.ispSerialWrite_sys]
    exact List.prefix_append _ _
  read := fun n m h => by simp [Line.ispSerialRead_heard]
  counters := fun _ _ _ => List.prefix_rfl
  emit := fun _ _ _ => List.prefix_rfl

/-- A block is received with at least one character of what follows it, unless the host gives up. -/
theorem receiveBlock_cut (buf : List UInt8) {blocksize : ℕ} {s : List UInt8}
    (hpos : 0 < blocksize) (hmax : blocksize + 3 ≤ serialBufsize) (hs : h.env.unread = s)
    (hlen : s.length < serialBufsize) (h0 : h.nextReadChar = 0) :
    .timeout ∈ (final (receiveBlock (L.sys O) blocksize buf h)).log ∨ ∃ n h₁,
    receiveBlock (L.sys O) blocksize buf h = .ok (some (overlay buf 0 (s.take n))) h₁ ∧
      Line.Read h n h₁ ∧ blocksize < n ∧ h₁.log = h.log := by
  have hbuf : serialBufsize = 1300 := rfl
  obtain ⟨k, h₁, hread, hR, -, hlog⟩ := Line.ispSerialRead_sys (L := L) (O := O) (h := h)
    (show blocksize ≤ serialBufsize by omega) h0 (by decide)
  have hk := hR.le
  have hun : h₁.env.unread = s.drop k := by rw [hR.unread, hs]
  rw [hs] at hread hk
  rcases hlog with ⟨hbk, hlog⟩ | hlog
  · obtain ⟨j, h₂, hread', hR', -, hlog'⟩ := Line.ispSerialRead_sys (L := L) (O := O) (h := h₁)
      (n := serialBufsize - k) (m := if blocksize < k then 0 else 3) (by split_ifs <;> omega)
      (hR.nextReadChar.trans h0) (by omega)
    have hj := hR'.le
    rw [hun, List.length_drop] at hj
    rw [hun] at hread'
    have hrec := receiveBlock_of_reads buf (by omega) hk hlen hread (by omega) hread'
    rcases hlog' with ⟨hmin, hlog'⟩ | hlog'
    · refine .inr ⟨k + j, h₂, hrec, hR.trans hR', ?_, hlog'.trans hlog⟩
      split_ifs at hmin <;> omega
    · left
      rw [hrec, final_ok, hlog']
      simp
  · left
    have hgrow : Grows h₁ (final (receiveBlock (L.sys O) blocksize buf h)) := by
      unfold receiveBlock
      rw [bind_ok hread]
      by_cases hk0 : toInt k ≤ 0
      · simp only [if_pos hk0]
        exact .refl h₁
      · simp only [if_neg hk0]
        refine (Grows.frame (L.sys O)).bind ((Grows.frame _).read _ _ h₁) ?_
        rintro ⟨more, got'⟩ h₂ -
        by_cases hmore : toInt k + more < 0
        · simp only [if_pos hmore]
          exact .refl h₂
        · simp only [if_neg hmore]
          exact .refl h₂
    exact hgrow.subset (by rw [hlog]; simp)

end Cut

/-- The receive buffers as they were handed to the decoder, in order. -/
def receivedBufs (log : List Event) : List (List UInt8) :=
  log.filterMap fun e => match e with
    | .received buf _ _ => some buf
    | _ => none

section Timing

variable {m : ℕ → UInt8} {count : UInt32}

/-- A read that every block survives at its first transmission: each is handed to the decoder as it
was sent, each is acknowledged, and the result is the device's memory. -/
structure Undisturbed (D : BlockSender m count.toNat) (request : List UInt8)
    (r : EStateM.Result Fault (Host (Wire Stage)) (ℤ × List Cell)) : Prop where
  answers : (final r).env.heard.map Prod.fst =
    request :: .replicate (nbBlocks count.toNat) dataBlockOk
  blocks : ∀ b < nbBlocks count.toNat, ∃ buf, (receivedBufs (final r).log)[b]? = some buf ∧
    buf.take (textOf (D.right b)).length = textOf (D.right b)
  result : value r = some (toInt count.toNat, (slice m 0 count.toNat).map some)

/-- What had been read of the checksum line of block `b` when it was answered, and what was in the
buffer behind it before (`stack` at first), make up the checksum. -/
def Completed (D : BlockSender m count.toNat) (stack : List UInt8) (h : Host (Wire Stage)) (b : ℕ) :
    Prop := ∃ left old v tail,
  (h.env.heard.map Prod.snd)[b + 1]? = some left ∧ (stack :: receivedBufs h.log)[b]? = some old ∧
  let line := checksumLine (block m count.toNat b)
  let n := line.length - left.length
  strtoul 10 (line.take n ++ old.drop ((textOf (D.right b)).length + n)) = some (v, tail) ∧
    calcChecksum (block m count.toNat b) = UInt32.ofNat v

/-- Every block was answered with its checksum line read to the end. Of the last one, enough of it
was read. -/
def LinesRead (D : BlockSender m count.toNat) (stack : List UInt8) (h : Host (Wire Stage)) : Prop :=
  ∀ b < nbBlocks count.toNat, (h.env.heard.map Prod.snd)[b + 1]? = some [] ∨
    b + 1 = nbBlocks count.toNat ∧ Completed D stack h b

variable {D : BlockSender m count.toNat} {request stack : List UInt8} {arrive : ℕ → ℕ}
  {O : Sys (Wire Stage)} {b : ℕ} {l : ReceiveLocals} {h h₁ : Host (Wire Stage)}
  {r : EStateM.Result Fault (Host (Wire Stage)) (ℤ × List Cell)}

theorem Undisturbed.answer (hu : Undisturbed D request r) (hlt : b < nbBlocks count.toNat) :
    ((final r).env.heard.map Prod.fst)[b + 1]? = some dataBlockOk := by
  rw [hu.answers, List.getElem?_cons_succ, List.getElem?_replicate_of_lt hlt]

variable (D request stack) in
/-- Without an answer to a block, neither holds. -/
theorem not_of_unanswered (hlt : b < nbBlocks count.toNat)
    (hlen : (final r).env.heard.length = b + 1) :
    ¬ Undisturbed D request r ∧ ¬ LinesRead D stack (final r) := by
  have hnone {α : Type} (f : List UInt8 × List UInt8 → α) :
      ((final r).env.heard.map f)[b + 1]? = none :=
    List.getElem?_eq_none (by rw [List.length_map, hlen])
  constructor
  · intro hu
    have := hu.answer hlt
    rw [hnone] at this
    cases this
  · intro hl
    rcases hl b hlt with hnil | ⟨-, left, old, v, tail, hleft, -⟩
    · rw [hnone] at hnil
      cases hnil
    · rw [hnone] at hleft
      cases hleft

/-- The first `b` blocks are accepted. -/
structure Accepted (D : BlockSender m count.toNat) (request stack : List UInt8) (b : ℕ)
    (l : ReceiveLocals) (h : Host (Wire Stage)) : Prop where
  locals : l.At m count.toNat b
  nextReadChar : h.nextReadChar = 0
  dev : h.env.dev = .sending b 0
  answers : h.env.heard.map Prod.fst = request :: .replicate b dataBlockOk
  received : (receivedBufs h.log).length = b
  blocks : ∀ j < b, ∃ buf, (receivedBufs h.log)[j]? = some buf ∧
    buf.take (textOf (D.right j)).length = textOf (D.right j)
  buf : (stack :: receivedBufs h.log)[b]? = some l.buf

theorem receivedBufs_append (log : List Event) (buf : List UInt8) (n k : ℕ) (es : List Event)
    (hes : receivedBufs es = []) :
    receivedBufs (log ++ .received buf n k :: es) = receivedBufs log ++ [buf] := by
  rw [receivedBufs, List.filterMap_append]
  exact congrArg (fun t => receivedBufs log ++ buf :: t) hes

/-- The host once it has acknowledged the block in `buf`. -/
def ackedHost (D : BlockSender m count.toNat) (arrive : ℕ → ℕ) (b : ℕ) (buf : List UInt8)
    (h₁ : Host (Wire Stage)) : Host (Wire Stage) :=
  ((D.line singles arrive).told ((h₁.emit (.received buf (textLength (blockSize count.toNat b))
    (count.toNat - 900 * b))).acknowledged (block m count.toNat b)) dataBlockOk).emit
      (.acked (block m count.toNat b))

theorem receivedBufs_acked (hlog : h₁.log = h.log) (buf : List UInt8) :
    receivedBufs (ackedHost D arrive b buf h₁).log = receivedBufs h.log ++ [buf] := by
  rw [← hlog, ← receivedBufs_append h₁.log buf (textLength (blockSize count.toNat b))
    (count.toNat - 900 * b) [.took (block m count.toNat b), .acked (block m count.toNat b)] rfl]
  change receivedBufs (((_ ++ _) ++ _) ++ _) = _
  rw [List.append_assoc, List.append_assoc]
  rfl

variable (arrive) in
theorem Accepted.next (ha : Accepted D request stack b l h) (hlt : b < nbBlocks count.toNat) {n : ℕ}
    (hR : Line.Read h n h₁) (hlog : h₁.log = h.log) {buf : List UInt8}
    (hbuf : buf.take (textOf (D.right b)).length = textOf (D.right b)) :
    Accepted D request stack (b + 1)
      ⟨l.i + 1, l.totalBytesReceived + UInt32.ofNat (block m count.toNat b).length,
        overlay l.data l.totalBytesReceived.toNat ((block m count.toNat b).map some), buf⟩
      (ackedHost D arrive b buf h₁) := by
  have hlog' : receivedBufs (ackedHost D arrive b buf h₁).log = receivedBufs h.log ++ [buf] :=
    receivedBufs_acked hlog buf
  refine ⟨ha.locals.next hlt buf, hR.nextReadChar.trans ha.nextReadChar, ?_, ?_, ?_, ?_, ?_⟩
  · change ((D.line singles arrive).hear h₁.env.dev dataBlockOk).2 = _
    rw [hR.dev, ha.dev]
    rfl
  · change (h₁.env.heard ++ [(dataBlockOk, h₁.env.unread)]).map Prod.fst = _
    rw [hR.heard, List.map_append, ha.answers, List.replicate_succ']
    rfl
  · rw [hlog', List.length_append, ha.received]
    rfl
  · intro j hj
    rw [hlog']
    by_cases hjb : j < b
    · rw [List.getElem?_append_left (by rw [ha.received]; exact hjb)]
      exact ha.blocks j hjb
    · obtain rfl : j = b := by omega
      refine ⟨buf, ?_, hbuf⟩
      rw [List.getElem?_append_right (Nat.le_of_eq ha.received), ha.received, Nat.sub_self]
      rfl
  · rw [hlog', List.getElem?_cons_succ, List.getElem?_append_right (Nat.le_of_eq ha.received),
      ha.received, Nat.sub_self]
    rfl

/-- Every block so far was answered with nothing unread, and only the next one is on the line. -/
structure Clean (D : BlockSender m count.toNat) (b : ℕ) (h : Host (Wire Stage)) : Prop where
  lefts : ∀ j < b, (h.env.heard.map Prod.snd)[j + 1]? = some []
  unread : h.env.unread = (D.onLine singles b 0).flatten

theorem BlockSender.flatten_onLine (hright : D.damaged b = []) (hlt : b < nbBlocks count.toNat) :
    (D.onLine singles b 0).flatten =
      textOf (D.right b) ++ checksumLine (block m count.toNat b) := by
  have hsent : D.sent b 0 = D.right b := D.sent_of_le (by rw [hright]; exact Nat.le_refl 0)
  rw [BlockSender.onLine, if_pos hlt, hsent, List.flatten_append, flatten_singles, flatten_singles]

theorem BlockSender.right_length (hright : D.damaged b = []) :
    (bytesOf (D.right b)).length = blockSize count.toNat b ∧
      (textOf (D.right b)).length = textLength (blockSize count.toNat b) := by
  have hsent : D.sent b 0 = D.right b := D.sent_of_le (by rw [hright]; exact Nat.le_refl 0)
  rw [← hsent]
  exact D.sent_length b 0

theorem blockSize_le (count b : ℕ) : blockSize count b ≤ 900 := Nat.min_le_right _ _

variable (arrive) in
/-- What a turn receives when the last `w` bytes of an earlier line are still in front of the block. -/
theorem Accepted.receive (ha : Accepted D request stack b l h) (hlt : b < nbBlocks count.toNat)
    (hright : D.damaged b = []) {w : List UInt8} (hw : w.length < 24)
    (hun : h.env.unread = w ++ (D.onLine singles b 0).flatten) :
    .timeout ∈ (final (receiveBlock ((D.line singles arrive).sys O)
      (textLength (blockSize count.toNat b)) l.buf h)).log ∨ ∃ r h₁, 0 < r ∧
    receiveBlock ((D.line singles arrive).sys O) (textLength (blockSize count.toNat b)) l.buf h =
      .ok (some (overlay l.buf 0 ((w ++ (textOf (D.right b) ++
        checksumLine (block m count.toNat b))).take ((textOf (D.right b)).length + r)))) h₁ ∧
    Line.Read h ((textOf (D.right b)).length + r) h₁ ∧ h₁.log = h.log := by
  obtain ⟨-, htext⟩ := D.right_length hright
  have hle := textLength_le (blockSize_le count.toNat b)
  have hline := (checksumLine_length m count.toNat b).2
  have hsize : serialBufsize = 1300 := rfl
  rw [D.flatten_onLine hright hlt] at hun
  have hpos : 0 < (textOf (D.right b)).length := by
    rw [htext]
    exact textLength_pos (blockSize_pos hlt)
  rw [← htext] at hle ⊢
  rcases receiveBlock_cut (L := D.line singles arrive) (O := O) l.buf hpos (by omega) hun
    (by simp only [List.length_append]; omega) ha.nextReadChar with htime | ⟨n, h₁, hrec, hR, hn, hlog⟩
  · exact .inl htime
  · obtain ⟨r, rfl⟩ : ∃ r, n = (textOf (D.right b)).length + r := ⟨n - (textOf (D.right b)).length, by omega⟩
    exact .inr ⟨r, h₁, by omega, hrec, hR, hlog⟩

/-- What a turn comes to that has received the lines of block `b` and reads `checksum` after them. -/
def checkedTurn (D : BlockSender m count.toNat) (arrive : ℕ → ℕ) (b : ℕ) (l : ReceiveLocals)
    (buf : List UInt8) (h₁ : Host (Wire Stage)) (checksum : Option (ℕ × List UInt8)) :
    EStateM.Result Fault (Host (Wire Stage)) (ReceiveLocals ⊕ (ℤ × List Cell)) :=
  let h₂ := h₁.emit (.received buf (textLength (blockSize count.toNat b)) (count.toNat - 900 * b))
  let data := overlay l.data l.totalBytesReceived.toNat ((block m count.toNat b).map some)
  match checksum with
  | none => .error .transfer h₂
  | some (v, _) =>
    if calcChecksum (block m count.toNat b) = UInt32.ofNat v then
      .ok (.inl ⟨l.i + 1, l.totalBytesReceived + UInt32.ofNat (block m count.toNat b).length,
        data, buf⟩) (ackedHost D arrive b buf h₁)
    else if 3 ≤ h₂.resendRequestForBlock then
      .ok (.inr (ReceiveLocals.result { l with data := data, buf := buf })) h₂.damaged
    else .ok (.inl { l with data := data, buf := buf })
      ((D.line singles arrive).told h₂.damaged dataBlockResend)

/-- One turn with `r` characters of the checksum line received. -/
theorem Accepted.turn (ha : Accepted D request stack b l h) (hlt : b < nbBlocks count.toNat)
    (hright : D.damaged b = []) {got : List UInt8} (hgot : got ≠ []) {buf : List UInt8}
    (hbuf : buf = overlay l.buf 0 (textOf (D.right b) ++ got))
    (hrec : receiveBlock ((D.line singles arrive).sys O) (textLength (blockSize count.toNat b)) l.buf
      h = .ok (some buf) h₁) :
    receiveTurn ((D.line singles arrive).sys O) count (getNbBlocks count) l h =
      checkedTurn D arrive b l buf h₁
        (strtoul 10 (got ++ l.buf.drop ((textOf (D.right b)).length + got.length))) := by
  obtain ⟨hbytes, htext⟩ := D.right_length hright
  have hle := textLength_le (blockSize_le count.toNat b)
  have hroom : (bytesOf (D.right b)).length ≤ count.toNat - 900 * b := by
    rw [hbytes]
    exact Nat.min_le_left _ _
  have hdec := decodeBlock_lines (h := h₁) l.buf hgot (by omega) hroom
  rw [htext, ← hbuf, D.right_bytes] at hdec
  rw [receiveTurn_of_block ha.locals hlt hrec, htext]
  rcases hv : strtoul 10 (got ++ l.buf.drop (textLength (blockSize count.toNat b) + got.length))
    with _ | ⟨v, tail⟩
  · rw [hv] at hdec
    exact bind_error hdec
  · rw [hv] at hdec
    rw [bind_ok hdec, answerBlock_sys, checkedTurn]
    -- the answer depends on what was taken for the checksum
    by_cases hok : calcChecksum (block m count.toNat b) = UInt32.ofNat v
    · simp only [decide_eq_true hok, if_pos hok, if_true]
      rfl
    · simp only [decide_eq_false hok, if_neg hok, Bool.false_eq_true, if_false]

theorem LinesRead.left {f : Host (Wire Stage)} (hl : LinesRead D stack f)
    (hlt : b < nbBlocks count.toNat) {w : List UInt8}
    (hw : (f.env.heard.map Prod.snd)[b + 1]? = some w) :
    w = [] ∨ b + 1 = nbBlocks count.toNat ∧ Completed D stack f b := by
  rcases hl b hlt with hnil | hlast
  · rw [hw] at hnil
    exact .inl (Option.some.inj hnil)
  · exact .inr hlast

/-- What is left of a checksum line and is no end of one spoils the next block. -/
theorem Accepted.not_of_left (ha : Accepted D request stack (b + 1) l h)
    (hlt : b + 1 < nbBlocks count.toNat) (hright : D.damaged (b + 1) = [])
    (hprint : ∀ l ∈ D.right (b + 1), ∀ c ∈ l.chars, 32 ≤ c) {w : List UInt8} {r : ℕ} (hw : w ≠ [])
    (hr : w = (checksumLine (block m count.toNat b)).drop r)
    (hleft : (h.env.heard.map Prod.snd)[b + 1]? = some w)
    (hun : h.env.unread = w ++ (D.onLine singles (b + 1) 0).flatten)
    {t : EStateM.Result Fault (Host (Wire Stage)) (ℤ × List Cell)}
    (ht : t = (receiveLoop ((D.line singles arrive).sys O) count (getNbBlocks count)).run l h)
    (htime : .timeout ∉ (final t).log) :
    ¬ Undisturbed D request t ∧ ¬ LinesRead D stack (final t) := by
  set L := D.line singles arrive with hL
  have hgrow {x : Host (Wire Stage)}
      (hx : Grows x (final (receiveTurn (L.sys O) count (getNbBlocks count) l h))) :
      Grows x (final t) := by
    rw [ht]
    exact Loop.final_of_body (R := Grows) Grows.trans ((Grows.frame _).receiveTurn _ _) hx
  have hwlen : w.length < 24 := by
    have := (checksumLine_length m count.toNat b).2
    rw [hr, List.length_drop]
    omega
  constructor
  · intro hu
    rcases ha.receive arrive (O := O) hlt hright hwlen hun with
      htime' | ⟨r', h₁, hr', hrec, hR, hlog⟩
    · exact htime ((hgrow (receiveTurn_grows ha.locals hlt h)).subset htime')
    · set buf := overlay l.buf 0 ((w ++ (textOf (D.right (b + 1)) ++
        checksumLine (block m count.toNat (b + 1)))).take ((textOf (D.right (b + 1))).length + r'))
        with hbuf
      have hlast : (receivedBufs (h₁.emit (.received buf (textLength
          (blockSize count.toNat (b + 1))) (count.toNat - 900 * (b + 1)))).log)[b + 1]? = some buf := by
        rw [Host.emit_log, receivedBufs_append _ _ _ _ [] rfl, hlog,
          List.getElem?_append_right (Nat.le_of_eq ha.received), ha.received, Nat.sub_self]
        rfl
      have hfinal := getElem?_of_isPrefix
        ((hgrow (receiveTurn_received ha.locals hlt hrec)).filterMap _) hlast
      obtain ⟨buf', hbuf', htake⟩ := hu.blocks (b + 1) hlt
      obtain rfl : buf' = buf := Option.some.inj (hbuf'.symm.trans hfinal)
      have hls : D.right (b + 1) ≠ [] := by
        intro hnil
        have := (D.right_length hright).1
        rw [hnil] at this
        exact Nat.ne_of_gt (blockSize_pos hlt) this.symm
      have hle := hR.le
      rw [hun, D.flatten_onLine hright hlt] at hle
      have htake' : buf.take (textOf (D.right (b + 1))).length = (w ++ (textOf (D.right (b + 1)) ++
          checksumLine (block m count.toNat (b + 1)))).take (textOf (D.right (b + 1))).length := by
        have hlen : (textOf (D.right (b + 1))).length ≤ ((w ++ (textOf (D.right (b + 1)) ++
            checksumLine (block m count.toNat (b + 1)))).take
              ((textOf (D.right (b + 1))).length + r')).length := by
          rw [List.length_take]
          omega
        rw [hbuf, overlay_zero, List.take_append_of_le_length hlen, List.take_take,
          Nat.min_eq_left (Nat.le_add_right _ _)]
      exact take_shifted hls hprint hr hw hwlen _ (htake'.symm.trans htake)
  · intro hl
    have hheard : h.env.heard <+: (final t).env.heard := by
      rw [ht]
      exact heard_frame.receiveLoop _ _ _ h
    rcases hl.left (by omega) (getElem?_of_isPrefix (hheard.map _) hleft) with hnil | ⟨hlast, -⟩
    · exact hw hnil
    · omega

theorem Accepted.heard_length (ha : Accepted D request stack b l h) :
    h.env.heard.length = b + 1 := by
  have := congrArg List.length ha.answers
  rwa [List.length_map, List.length_cons, List.length_replicate] at this

/-- A block that is refused, and the rest of its checksum line. -/
theorem Accepted.not_of_refused (ha : Accepted D request stack b l h)
    (hlt : b < nbBlocks count.toNat) {r v : ℕ} {tail : List UInt8}
    (hr : r ≤ (checksumLine (block m count.toNat b)).length)
    (hv : strtoul 10 ((checksumLine (block m count.toNat b)).take r ++
      l.buf.drop ((textOf (D.right b)).length + r)) = some (v, tail))
    (hok : calcChecksum (block m count.toNat b) ≠ UInt32.ofNat v)
    {l' : ReceiveLocals} {h₂ : Host (Wire Stage)} (hgrow₂ : Grows h h₂)
    (hheard₂ : h₂.env.heard = h.env.heard)
    (hun : h₂.env.unread = (checksumLine (block m count.toNat b)).drop r)
    {t : EStateM.Result Fault (Host (Wire Stage)) (ℤ × List Cell)}
    (ht : t = (receiveLoop ((D.line singles arrive).sys O) count (getNbBlocks count)).run l'
      ((D.line singles arrive).told h₂ dataBlockResend)) :
    ¬ Undisturbed D request t ∧ ¬ LinesRead D stack (final t) := by
  have hgrow : Grows h (final t) := by
    rw [ht]
    exact hgrow₂.trans ((Grows.frame _).receiveLoop _ _ l' ((D.line singles arrive).told h₂ _))
  have hheard : h.env.heard ++ [(dataBlockResend, (checksumLine (block m count.toNat b)).drop r)] <+:
      (final t).env.heard := by
    rw [ht, ← hheard₂, ← hun]
    exact heard_frame.receiveLoop _ _ l' ((D.line singles arrive).told h₂ _)
  set line := checksumLine (block m count.toNat b) with hline
  have hlen := ha.heard_length
  have hnew {α : Type} (f : List UInt8 × List UInt8 → α) :
      ((final t).env.heard.map f)[b + 1]? = some (f (dataBlockResend, line.drop r)) := by
    refine getElem?_of_isPrefix (hheard.map f) ?_
    rw [List.map_append, List.getElem?_append_right (by rw [List.length_map, hlen]),
      List.length_map, hlen, Nat.sub_self]
    rfl
  constructor
  · intro hu
    have := hu.answer hlt
    rw [hnew] at this
    exact absurd (Option.some.inj this) (show dataBlockResend ≠ dataBlockOk by decide)
  · intro hl
    rcases hl.left hlt (hnew _) with hnil | ⟨-, left, old, v', tail', hleft, hold, hv', hok'⟩
    · -- nothing is left: the whole line has been read
      have hall : line.length ≤ r := by rwa [List.drop_eq_nil_iff] at hnil
      have hcheck := strtoul_checksumLine m count.toNat b
        (l.buf.drop ((textOf (D.right b)).length + r))
      rw [List.take_of_length_le hall, hcheck] at hv
      have hlt' := checksum_block_lt m count.toNat b
      have hle : (block m count.toNat b).length ≤ 900 := by
        rw [block, slice_length]
        exact blockSize_le _ _
      rw [← (Prod.mk.inj (Option.some.inj hv)).1] at hok
      exact hok ((calcChecksum_eq_iff hle (by omega)).2 rfl)
    · have hold' : (stack :: receivedBufs (final t).log)[b]? = some l.buf :=
        getElem?_of_isPrefix (List.cons_prefix_cons.2 ⟨rfl, hgrow.filterMap _⟩) ha.buf
      obtain rfl : old = l.buf := Option.some.inj (hold.symm.trans hold')
      obtain rfl : left = line.drop r := Option.some.inj (hleft.symm.trans (hnew _))
      have hn : line.length - (line.drop r).length = r := by
        rw [List.length_drop]
        omega
      rw [hn, hv] at hv'
      rw [(Prod.mk.inj (Option.some.inj hv')).1] at hok
      exact hok hok'

variable (arrive) in
/-- What a turn does from a clean start, `r` being how much of the checksum line it has read. -/
theorem Accepted.clean_turn (ha : Accepted D request stack b l h) (hc : Clean D b h)
    (hlt : b < nbBlocks count.toNat) (hright : D.damaged b = []) :
    .timeout ∈ (final (receiveTurn ((D.line singles arrive).sys O) count (getNbBlocks count) l
      h)).log ∨ ∃ r n h₁ buf, r ≤ (checksumLine (block m count.toNat b)).length ∧
    Line.Read h n h₁ ∧ h₁.log = h.log ∧
    h₁.env.unread = (checksumLine (block m count.toNat b)).drop r ∧
    buf.take (textOf (D.right b)).length = textOf (D.right b) ∧
    receiveTurn ((D.line singles arrive).sys O) count (getNbBlocks count) l h =
      checkedTurn D arrive b l buf h₁ (strtoul 10 ((checksumLine (block m count.toNat b)).take r ++
        l.buf.drop ((textOf (D.right b)).length + r))) := by
  have hflat := D.flatten_onLine hright hlt
  rcases ha.receive arrive (O := O) (w := []) hlt hright (by decide) hc.unread with
    htime | ⟨r, h₁, hr, hrec, hR, hlog⟩
  · exact .inl ((receiveTurn_grows ha.locals hlt h).subset htime)
  right
  set line := checksumLine (block m count.toNat b)
  set text := textOf (D.right b)
  have hrle : r ≤ line.length := by
    have := hR.le
    rw [hc.unread, hflat, List.length_append] at this
    omega
  have hgot : (line.take r).length = r := by rw [List.length_take, Nat.min_eq_left hrle]
  have htake : ([] ++ (text ++ line)).take (text.length + r) = text ++ line.take r := by
    rw [List.nil_append, List.take_length_add_append]
  rw [htake] at hrec
  have hturn := ha.turn hlt hright (List.length_pos_iff.1 (by rwa [hgot])) rfl hrec
  rw [hgot] at hturn
  refine ⟨r, _, h₁, _, hrle, hR, hlog, ?_, ?_, hturn⟩
  · rw [hR.unread, hc.unread, hflat, ← List.drop_drop, List.drop_left]
  · rw [overlay_zero, List.append_assoc, List.take_left]

variable (arrive) in
/-- A block is acknowledged with `w` left of its checksum line. -/
theorem Accepted.acked (ha : Accepted D request stack b l h) {n : ℕ} (hR : Line.Read h n h₁)
    (buf : List UInt8) {w : List UInt8} (hw : h₁.env.unread = w) :
    (ackedHost D arrive b buf h₁).env.heard.map Prod.snd = h.env.heard.map Prod.snd ++ [w] ∧
      (ackedHost D arrive b buf h₁).env.unread = w ++ (D.onLine singles (b + 1) 0).flatten := by
  constructor
  · change (h₁.env.heard ++ [(dataBlockOk, h₁.env.unread)]).map Prod.snd = _
    rw [hR.heard, hw, List.map_append]
    rfl
  · change (h₁.env.pending ++ ((D.line singles arrive).hear h₁.env.dev dataBlockOk).1).flatten = _
    rw [List.flatten_append, hR.dev, ha.dev, ← hw]
    rfl

variable (arrive O) in
/-- What the last block leaves on the line does not matter. -/
theorem Accepted.done (ha : Accepted D request stack (nbBlocks count.toNat) l h)
    (hlines : LinesRead D stack h) {t : EStateM.Result Fault (Host (Wire Stage)) (ℤ × List Cell)}
    (ht : t = (receiveLoop ((D.line singles arrive).sys O) count (getNbBlocks count)).run l h) :
    Undisturbed D request t ↔ LinesRead D stack (final t) := by
  rw [ht.trans (receiveLoop_inr (receiveTurn_done ha.locals h))]
  exact iff_of_true ⟨ha.answers, ha.blocks, rfl⟩ hlines

theorem receiveLoop_timing (hright : ∀ b, D.damaged b = [])
    (hprint : ∀ b, ∀ l ∈ D.right b, ∀ c ∈ l.chars, 32 ≤ c) (l : ReceiveLocals)
    (h : Host (Wire Stage)) : ∀ b, Accepted D request stack b l h → Clean D b h →
    b ≤ nbBlocks count.toNat → ∀ t,
    t = (receiveLoop ((D.line singles arrive).sys O) count (getNbBlocks count)).run l h →
    .timeout ∉ (final t).log → (Undisturbed D request t ↔ LinesRead D stack (final t)) := by
  induction l, h using
    (receiveLoop ((D.line singles arrive).sys O) count (getNbBlocks count)).run_induction with
  | step l h ih =>
    intro b ha hc hle t ht htime
    by_cases hlt : b < nbBlocks count.toNat
    · rcases ha.clean_turn arrive (O := O) hc hlt (hright b) with
        htime' | ⟨r, n, h₁, buf, hr, hR, hlog, hun, hbuf, hturn⟩
      · refine absurd ?_ htime
        rw [ht]
        exact (Loop.final_of_body (R := Grows) Grows.trans ((Grows.frame _).receiveTurn _ _)
          (.refl _)).subset htime'
      have hlen : h₁.env.heard.length = b + 1 := (congrArg List.length hR.heard).trans ha.heard_length
      rcases hv : strtoul 10 ((checksumLine (block m count.toNat b)).take r ++
        l.buf.drop ((textOf (D.right b)).length + r)) with _ | ⟨v, tail⟩ <;>
        rw [hv, checkedTurn] at hturn
      · have hfault := ht.trans (Loop.run_error hturn)
        have hnot := not_of_unanswered D request stack (r := t) hlt
          (by rw [hfault]; exact hlen)
        exact iff_of_false hnot.1 hnot.2
      by_cases hok : calcChecksum (block m count.toNat b) = UInt32.ofNat v
      · simp only [if_pos hok] at hturn
        have hnext := ha.next arrive hlt hR hlog hbuf
        obtain ⟨hsnd, hun'⟩ := ha.acked arrive hR buf hun
        set w := (checksumLine (block m count.toNat b)).drop r with hw
        have hlefts (j : ℕ) (hj : j < b) :
            ((ackedHost D arrive b buf h₁).env.heard.map Prod.snd)[j + 1]? = some [] := by
          rw [hsnd]
          exact getElem?_of_isPrefix (List.prefix_append _ _) (hc.lefts j hj)
        have hleft : ((ackedHost D arrive b buf h₁).env.heard.map Prod.snd)[b + 1]? = some w := by
          rw [hsnd, List.getElem?_append_right (by rw [List.length_map, ha.heard_length]),
            List.length_map, ha.heard_length, Nat.sub_self]
          rfl
        rw [receiveLoop_inl hturn] at ht
        by_cases hnil : w = []
        · rw [hnil] at hleft hun'
          refine ih _ _ hturn (b + 1) hnext ⟨fun j hj => ?_, hun'⟩ hlt t ht htime
          rcases Nat.lt_succ_iff_lt_or_eq.1 hj with hjb | rfl
          · exact hlefts j hjb
          · exact hleft
        by_cases hlast : b + 1 = nbBlocks count.toNat
        · -- enough of the last line has been read
          refine (hlast ▸ hnext).done arrive O (fun j hj => ?_) ht
          rcases Nat.lt_succ_iff_lt_or_eq.1 (hlast ▸ hj) with hjb | rfl
          · exact .inl (hlefts j hjb)
          · refine .inr ⟨hlast, w, l.buf, v, tail, hleft, ?_, ?_, hok⟩
            · refine getElem?_of_isPrefix (List.cons_prefix_cons.2 ⟨rfl, ?_⟩) ha.buf
              rw [receivedBufs_acked hlog]
              exact List.prefix_append _ _
            · have hn : (checksumLine (block m count.toNat j)).length - w.length = r := by
                rw [hw, List.length_drop]
                omega
              simp only [hn]
              exact hv
        · have hnot := hnext.not_of_left (by omega) (hright _) (hprint _) hnil hw hleft hun' ht htime
          exact iff_of_false hnot.1 hnot.2
      · simp only [if_neg hok] at hturn
        split_ifs at hturn with hretry
        · have hleave := ht.trans (receiveLoop_inr hturn)
          have hnot := not_of_unanswered D request stack (r := t) hlt
            (by rw [hleave]; exact hlen)
          exact iff_of_false hnot.1 hnot.2
        · rw [receiveLoop_inl hturn] at ht
          have hlog' : Grows h (h₁.emit (.received buf (textLength (blockSize count.toNat b))
              (count.toNat - 900 * b))).damaged := by
            rw [Grows, ← hlog]
            exact List.prefix_append _ _
          have hnot := ha.not_of_refused hlt hr hv hok hlog' hR.heard hun ht
          exact iff_of_false hnot.1 hnot.2
    · obtain rfl : b = nbBlocks count.toNat := Nat.le_antisymm hle (Nat.le_of_not_lt hlt)
      exact ha.done arrive O (fun j hj => .inl (hc.lefts j hj)) ht

/-- However the bytes are cut, a read is undisturbed if and only if every checksum line was read to
its end before the block was answered (of the last one, enough of it). -/
theorem ispReadMemory_undisturbed_iff (O : Sys (Wire Stage)) (arrive : ℕ → ℕ)
    (memory : ℕ → UInt8) (addr count : UInt32)
    (D : BlockSender (fun i => memory (addr.toNat + i)) count.toNat)
    (hright : ∀ b, D.damaged b = []) (hprint : ∀ b, ∀ l ∈ D.right b, ∀ c ∈ l.chars, 32 ≤ c)
    (data : List Cell) (hdata : data.length = count.toNat) {uu : ℕ} (huu : uu ≠ 0) (c c' : ℕ)
    (htime : .timeout ∉ (final (ispReadMemory ((D.line singles arrive).sys O) data addr count uu
      (.start (.quiet .idle) 0 c c'))).log) : ∃ h₁,
    ispSendCmdTwoArgs ((D.line singles arrive).sys O) 'R'.toUInt8 addr count
      (.start (.quiet .idle) 0 c c') = .ok 0 h₁ ∧
    let run := ispReadMemory ((D.line singles arrive).sys O) data addr count uu
      (.start (.quiet .idle) 0 c c')
    (Undisturbed D (twoArgsText 'R'.toUInt8 addr.toNat count.toNat) run ↔
      LinesRead D ((List.range serialBufsize).map (O.stack h₁.env)) (final run)) := by
  have hhear (text : List UInt8) : (D.line singles arrive).hear .idle text =
      (singles (statusText 0) ++ D.onLine singles 0 0, .sending 0 0) := rfl
  have hflat : (singles (statusText 0) ++ D.onLine singles 0 0).flatten =
      statusText 0 ++ (D.onLine singles 0 0).flatten := by
    rw [List.flatten_append, flatten_singles]
  rcases ispSendCmdTwoArgs_cut (O := O) 'R'.toUInt8 addr count c c' (hhear _) hflat with
    htime' | ⟨h₁, es, hgrant, h0, hdev, hun, hheard, hes, hlog⟩
  · exact absurd ((ispReadMemory_grows _ _ _ _ _).subset htime') htime
  · refine ⟨h₁, hgrant, ?_⟩
    have hrun := ispReadMemory_of_grant data huu hgrant
    have hstack : ((D.line singles arrive).sys O).stack = O.stack := rfl
    rw [hstack] at hrun
    generalize (List.range serialBufsize).map (O.stack h₁.env) = stack at hrun ⊢
    have hbufs : receivedBufs h₁.log = [] := by
      rw [hlog]
      refine List.filterMap_eq_nil_iff.2 fun e he => ?_
      rcases List.mem_append.1 he with he | he
      · obtain ⟨code, name, rfl⟩ := hes e he
        rfl
      · rw [List.mem_singleton.1 he]
    refine receiveLoop_timing hright hprint _ h₁ 0 ⟨.start hdata _, h0, hdev, ?_, ?_, ?_, ?_⟩
      ⟨fun j hj => absurd hj (Nat.not_lt_zero j), hun⟩ (Nat.zero_le _) _ hrun htime
    · rw [hheard]
      rfl
    · rw [hbufs]
      rfl
    · exact fun j hj => absurd hj (Nat.not_lt_zero j)
    · rfl

end Timing

section Tens

/-- Four bytes of ten: the checksum line has two digits. -/
def tens : BlockSender (fun _ => 10) (4 : UInt32).toNat := .encoding _ _

theorem tens_printable : ∀ b, ∀ l ∈ tens.right b, ∀ c ∈ l.chars, 32 ≤ c
  | 0 => by decide +kernel
  | b + 1 => by
    have hsize : blockSize (4 : UInt32).toNat (b + 1) = 0 := by
      rw [blockSize, show (4 : UInt32).toNat = 4 from rfl]
      omega
    have hnil : tens.right (b + 1) = [] := by
      unfold tens BlockSender.encoding
      simp only [hsize]
      rw [encodedLines, dif_neg (Nat.lt_irrefl 0)]
    rw [hnil]
    exact fun l hl => by cases hl

theorem ispReadMemory_undisturbed_iff_tens : ∃ h₁,
    ispSendCmdTwoArgs ((tens.line singles fun _ => 100).sys (Sys.plain _)) 'R'.toUInt8 256 4
      (.start (.quiet .idle) 0 0 0) = .ok 0 h₁ ∧
    let run := ispReadMemory ((tens.line singles fun _ => 100).sys (Sys.plain _))
      (.replicate 4 none) 256 4 1 (.start (.quiet .idle) 0 0 0)
    (Undisturbed tens (twoArgsText 'R'.toUInt8 256 4) run ↔
      LinesRead tens ((List.range serialBufsize).map ((Sys.plain _).stack h₁.env))
        (final run)) :=
  ispReadMemory_undisturbed_iff (Sys.plain _) (fun _ => 100) (fun _ => 10) 256 4 tens
    (fun _ => rfl) tens_printable (.replicate 4 none) rfl Nat.one_ne_zero 0 0 (by decide +kernel)

/-- The block has come with one of the two digits, and the rest a poll too late: the host asks for
the block again. -/
theorem ispReadMemory_disturbed :
    let run := ispReadMemory ((tens.line singles fun t =>
      if t = 0 then 3 else if t = 1 then 12 else if t = 2 then 0 else 100).sys (Sys.plain _))
      (.replicate 4 none) 256 4 1 (.start (.quiet .idle) 0 0 0)
    .timeout ∉ (final run).log ∧ value run = none ∧
    (final run).env.heard.map Prod.fst = [twoArgsText 'R'.toUInt8 256 4, dataBlockResend] := by
  decide +kernel

end Tens

end LpcTools
