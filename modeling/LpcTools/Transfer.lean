import LpcTools.Commands

/-!
# `isp_read_memory` and `isp_send_buf_to_ram`

The two transfers. Data goes in blocks of at most 900 bytes, each uuencoded and followed by the sum
of its bytes, and the side that receives answers every block with `OK` or `RESEND`. The retry
counters are static variables, so they live in the `Host`.
-/

namespace LpcTools

open Run Decimal Uuencode

def lineDataLength : ℕ := 45

def linesPerBlock : ℕ := 20

def maxBytesPerLine : ℕ := 63

def maxDataBlockSize : ℕ := 900

/-- The length of the text of the next block, without its checksum. -/
def getRemainingBlocksize (count actualCount : UInt32) : ℕ :=
  let remain := (count - actualCount).toNat
  if maxDataBlockSize ≤ remain then maxBytesPerLine * linesPerBlock
  else
    let nbLastLines := remain / lineDataLength + if remain % lineDataLength ≠ 0 then 1 else 0
    remain / 3 * 4 + (if remain % 3 ≠ 0 then 4 else 0) + 3 * nbLastLines

/-- The number of blocks of the transmitted data. -/
def getNbBlocks (count : UInt32) : UInt32 :=
  let lines := count / UInt32.ofNat lineDataLength +
    if count % UInt32.ofNat lineDataLength ≠ 0 then 1 else 0
  lines / UInt32.ofNat linesPerBlock + if lines % UInt32.ofNat linesPerBlock ≠ 0 then 1 else 0

def calcChecksum (data : List UInt8) : UInt32 :=
  data.foldl (fun sum c => sum + UInt32.ofNat c.toNat) 0

variable {σ : Type} (E : Sys σ)

/-- Bytes stored in an object at an offset. -/
def store (data : List Cell) (k : ℕ) (new : List UInt8) : Prog σ (List Cell) :=
  if data.length < k + new.length then throw .transfer
  else pure (overlay data k (new.map some))

/-- The branch of `isp_read_memory` for data that is not uuencoded. -/
def readRaw (data : List Cell) (count : ℕ) : Prog σ (ℤ × List Cell) := do
  let (len, got) ← ispSerialRead E count count
  emit (.took got)
  let data ← store data 0 got
  if len ≤ 0 then return (-6, data)
  else if len = toInt count then return (len, data)
  else do
    let (more, got) ← ispSerialRead E (count - len.toNat) (count - len.toNat)
    emit (.took got)
    let data ← store data len.toNat got
    if 2 ^ 31 ≤ len + more then throw .overflow
    else if len + more < 0 then return (-5, data)
    else return (len + more, data)

/-- The reads of a block and of its checksum, over what the receive buffer still holds. `none` where
the loop is left. -/
def receiveBlock (blocksize : ℕ) (buf : List UInt8) : Prog σ (Option (List UInt8)) := do
  let (len, got) ← ispSerialRead E serialBufsize blocksize
  if len ≤ 0 then return none
  else do
    let minRead := if (blocksize : ℤ) < len then 0 else 3
    let (more, got') ← ispSerialRead E (serialBufsize - len.toNat) minRead
    if len + more < 0 then return none
    else return some (overlay (overlay buf 0 got) len.toNat got')

/-- What a received block decodes to, and whether its checksum is right. -/
def decodeBlock (room blocksize : ℕ) (buf : List UInt8) : Prog σ (List UInt8 × Bool) := do
  emit (.received buf blocksize room)
  match ispUuDecode (Mem.of buf) room (UInt32.ofNat blocksize), strtoul 10 (buf.drop blocksize) with
  | some (_, decoded), some (received, _) =>
    return (decoded, calcChecksum decoded = UInt32.ofNat received)
  | _, _ => throw .transfer

structure ReceiveLocals where
  i : UInt32
  totalBytesReceived : UInt32
  data : List Cell
  buf : List UInt8

def ReceiveLocals.result (l : ReceiveLocals) : ℤ × List Cell :=
  (toInt l.totalBytesReceived.toNat, l.data)

def Host.acknowledged (h : Host σ) (decoded : List UInt8) : Host σ :=
  { h with resendRequestForBlock := 0 }.emit (.took decoded)

def Host.damaged (h : Host σ) : Host σ :=
  { h with resendRequestForBlock := h.resendRequestForBlock + 1 }

/-- What the receiver does with a decoded block. -/
def answerBlock (l : ReceiveLocals) (decoded : List UInt8) (correct : Bool) :
    Prog σ (ReceiveLocals ⊕ (ℤ × List Cell)) :=
  if correct then do
    modify fun h => h.acknowledged decoded
    let n ← ispSerialWrite E dataBlockOk
    if n ≠ dataBlockOk.length then return .inr l.result
    else do
      emit (.acked decoded)
      return .inl ⟨l.i + 1, l.totalBytesReceived + UInt32.ofNat decoded.length, l.data, l.buf⟩
  else do
    modify Host.damaged
    let h ← get
    if 3 < h.resendRequestForBlock then return .inr l.result
    else do
      let n ← ispSerialWrite E dataBlockResend
      if n ≠ dataBlockResend.length then return .inr l.result
      -- back to the block before, and on to this one again
      else return .inl { l with i := l.i - 1 + 1 }

def receiveTurn (count blocks : UInt32) (l : ReceiveLocals) :
    Prog σ (ReceiveLocals ⊕ (ℤ × List Cell)) :=
  if l.i < blocks then do
    let total := l.totalBytesReceived.toNat
    let blocksize := getRemainingBlocksize count l.totalBytesReceived
    match ← receiveBlock E blocksize l.buf with
    | none => return .inr l.result
    | some buf => do
      let (decoded, correct) ← decodeBlock (l.data.length - total) blocksize buf
      answerBlock E { l with data := overlay l.data total (decoded.map some), buf := buf } decoded
        correct
  else return .inr l.result

/-- The text of the block of `datasize` bytes at the start of `data`, with its checksum, as it goes
out of a buffer on the stack. -/
def blockToSend (data : Mem) (datasize : UInt32) : Prog σ (List UInt8) := do
  let buf ← uninit E serialBufsize
  match ispUuEncode data datasize, (List.range datasize.toNat).mapM data with
  | some (_, text), some bs => do
    let checksum := decimal (calcChecksum bs).toNat ++ crlf
    let size := text.length + checksum.length
    if serialBufsize < text.length + min (checksum.length + 1) 12 then throw .sendBuffer
    else return (overlay (overlay buf 0 text) text.length (checksum.take 11 ++ [0])).take size
  | _, _ => throw .source

structure SendLocals where
  i : UInt32
  totalBytesSent : UInt32

def Host.accepted (h : Host σ) : Host σ := { h with resendRequestedForBlock := 0 }.emit (.sent true)

def Host.refused (h : Host σ) : Host σ :=
  { h with resendRequestedForBlock := h.resendRequestedForBlock + 1 }.emit (.sent false)

/-- What the sender does with the reply to a block. -/
def takeReply (l : SendLocals) (datasize : UInt32) (repbuf : List UInt8) : Prog σ (SendLocals ⊕ ℤ) :=
  if repbuf.take dataBlockOk.length = dataBlockOk then do
    modify Host.accepted
    return .inl ⟨l.i + 1, l.totalBytesSent + datasize⟩
  else do
    modify Host.refused
    let h ← get
    if 3 ≤ h.resendRequestedForBlock then return .inr (-2)
    else return .inl { l with i := l.i - 1 + 1 }

def sendTurn (data : Mem) (count blocks : UInt32) (l : SendLocals) : Prog σ (SendLocals ⊕ ℤ) :=
  if l.i < blocks then do
    let datasize := min (count - l.totalBytesSent) (UInt32.ofNat maxDataBlockSize)
    let text ← blockToSend E (data.drop l.totalBytesSent.toNat) datasize
    let n ← ispSerialWrite E text
    if n ≠ text.length then return .inr (-6)
    else do
      let repbuf ← uninit E repBufsize
      let (len, got) ← ispSerialRead E repBufsize 4
      if len ≤ 0 then return .inr (-5)
      else takeReply l datasize (overlay repbuf 0 got)
  else return .inr 0

section Turns

variable {E} {count blocks : UInt32} {h h' : Host σ}

theorem receiveBlock_polled (blocksize : ℕ) (buf : List UInt8) (h : Host σ) :
    Polled h (final (receiveBlock E blocksize buf h)) := by
  unfold receiveBlock
  refine bind_final (R := Polled) Polled.trans (ispSerialRead_polled _ _ h) ?_
  rintro ⟨len, got⟩ h₁ -
  by_cases hlen : len ≤ 0
  · simp only [if_pos hlen, pure_apply]
    exact .refl h₁
  · simp only [if_neg hlen]
    refine bind_final (R := Polled) Polled.trans (ispSerialRead_polled _ _ h₁) ?_
    rintro ⟨more, got'⟩ h₂ -
    by_cases hmore : len + more < 0
    · simp only [if_pos hmore]
      exact .refl h₂
    · simp only [if_neg hmore]
      exact .refl h₂

theorem decodeBlock_eq_ok {room blocksize : ℕ} {buf decoded : List UInt8} {correct : Bool} :
    decodeBlock room blocksize buf h = .ok (decoded, correct) h' ↔
      h' = h.emit (.received buf blocksize room) ∧ ∃ ret received rest,
        ispUuDecode (Mem.of buf) room (UInt32.ofNat blocksize) = some (ret, decoded) ∧
        strtoul 10 (buf.drop blocksize) = some (received, rest) ∧
        correct = decide (calcChecksum decoded = UInt32.ofNat received) := by
  unfold decodeBlock
  rw [bind_ok (emit_apply _ _)]
  rcases ispUuDecode (Mem.of buf) room (UInt32.ofNat blocksize) with _ | ⟨ret, out⟩
  · simp
  · rcases strtoul 10 (buf.drop blocksize) with _ | ⟨received, rest⟩
    · simp
    · simp only [pure_apply, EStateM.Result.ok.injEq, Prod.mk.injEq, Option.some.injEq]
      constructor
      · rintro ⟨⟨rfl, rfl⟩, rfl⟩
        exact ⟨rfl, ret, received, rest, ⟨rfl, rfl⟩, ⟨rfl, rfl⟩, rfl⟩
      · rintro ⟨rfl, _, _, _, ⟨rfl, rfl⟩, ⟨rfl, rfl⟩, rfl⟩
        exact ⟨⟨rfl, rfl⟩, rfl⟩

theorem answerBlock_eq_ok {l : ReceiveLocals} {decoded : List UInt8} {correct : Bool}
    {r : ReceiveLocals ⊕ (ℤ × List Cell)} :
    answerBlock E l decoded correct h = .ok r h' ↔
      (correct = true ∧ ∃ n h₁, ispSerialWrite E dataBlockOk (h.acknowledged decoded) = .ok n h₁ ∧
        (n ≠ dataBlockOk.length ∧ r = .inr l.result ∧ h' = h₁ ∨
          n = dataBlockOk.length ∧ h' = h₁.emit (.acked decoded) ∧ r = .inl ⟨l.i + 1,
            l.totalBytesReceived + UInt32.ofNat decoded.length, l.data, l.buf⟩)) ∨
      (correct = false ∧ 3 < h.damaged.resendRequestForBlock ∧ r = .inr l.result ∧
        h' = h.damaged) ∨
      (correct = false ∧ h.damaged.resendRequestForBlock ≤ 3 ∧
        ∃ n, ispSerialWrite E dataBlockResend h.damaged = .ok n h' ∧
        r = if n ≠ dataBlockResend.length then .inr l.result else .inl l) := by
  unfold answerBlock
  rcases correct with _ | _
  · simp only [Bool.false_eq_true, false_and, false_or, if_false, true_and]
    rw [bind_ok (modify_apply _ _), bind_ok (get_apply _)]
    by_cases hc : 3 < h.damaged.resendRequestForBlock
    · rw [if_pos hc]
      simp only [hc, true_and, Nat.not_le.2 hc, false_and, or_false]
      exact pure_eq_ok
    · rw [if_neg hc, bind_ite_eq_ok]
      simp only [hc, false_and, Nat.le_of_not_lt hc, true_and, false_or, UInt32.sub_add_cancel]
  · simp only [Bool.true_eq_false, false_and, or_false, if_true, true_and]
    rw [bind_ok (modify_apply _ _), bind_eq_ok]
    refine exists_congr fun n => exists_congr fun h₁ => and_congr_right fun _ => ?_
    by_cases hn : n = dataBlockOk.length
    · rw [if_neg (not_not.2 hn), bind_ok (emit_apply _ _)]
      simp only [hn, ne_eq, not_true_eq_false, false_and, true_and, false_or]
      exact pure_eq_ok.trans and_comm
    · rw [if_pos hn]
      simp only [hn, ne_eq, not_false_eq_true, true_and, false_and, or_false]
      exact pure_eq_ok

theorem receiveTurn_eq_ok {l : ReceiveLocals} {r : ReceiveLocals ⊕ (ℤ × List Cell)} :
    receiveTurn E count blocks l h = .ok r h' ↔
      (¬ l.i < blocks ∧ r = .inr l.result ∧ h' = h) ∨
      (l.i < blocks ∧ r = .inr l.result ∧
        receiveBlock E (getRemainingBlocksize count l.totalBytesReceived) l.buf h = .ok none h') ∨
      (l.i < blocks ∧ ∃ buf h₁ decoded correct h₂,
        receiveBlock E (getRemainingBlocksize count l.totalBytesReceived) l.buf h =
          .ok (some buf) h₁ ∧
        decodeBlock (l.data.length - l.totalBytesReceived.toNat)
          (getRemainingBlocksize count l.totalBytesReceived) buf h₁ = .ok (decoded, correct) h₂ ∧
        answerBlock E { l with
          data := overlay l.data l.totalBytesReceived.toNat (decoded.map some), buf := buf }
          decoded correct h₂ = .ok r h') := by
  unfold receiveTurn
  by_cases hi : l.i < blocks
  · rw [if_pos hi, bind_eq_ok]
    simp only [hi, true_and, not_true_eq_false, false_and, false_or]
    constructor
    · rintro ⟨_ | buf, h₁, hr, hk⟩
      · cases hk
        exact .inl ⟨rfl, hr⟩
      · obtain ⟨⟨decoded, correct⟩, h₂, hd, ha⟩ := bind_eq_ok.1 hk
        exact .inr ⟨buf, h₁, decoded, correct, h₂, hr, hd, ha⟩
    · rintro (⟨rfl, hr⟩ | ⟨buf, h₁, decoded, correct, h₂, hr, hd, ha⟩)
      · exact ⟨none, h', hr, rfl⟩
      · exact ⟨some buf, h₁, hr, bind_eq_ok.2 ⟨_, h₂, hd, ha⟩⟩
  · rw [if_neg hi]
    simp only [hi, not_false_eq_true, true_and, false_and, or_false]
    exact pure_eq_ok

theorem receiveTurn_inl {l l' : ReceiveLocals}
    (hr : receiveTurn E count blocks l h = .ok (.inl l') h') : l.i < blocks ∧
      (l'.i = l.i + 1 ∧ h'.resendRequestForBlock = 0 ∨
        l'.i = l.i ∧ h'.resendRequestForBlock = h.resendRequestForBlock + 1 ∧
          h'.resendRequestForBlock ≤ 3) := by
  rcases receiveTurn_eq_ok.1 hr with ⟨-, he, -⟩ | ⟨-, he, -⟩ |
    ⟨hi, buf, h₁, decoded, correct, h₂, hrec, hdec, hans⟩
  · cases he
  · cases he
  · refine ⟨hi, ?_⟩
    have hp₁ := receiveBlock_polled (E := E) (getRemainingBlocksize count l.totalBytesReceived)
      l.buf h
    rw [hrec, final_ok] at hp₁
    obtain ⟨rfl, -⟩ := decodeBlock_eq_ok.1 hdec
    rcases answerBlock_eq_ok.1 hans with ⟨-, n, h₃, hw, ⟨-, he, -⟩ | ⟨-, rfl, he⟩⟩ |
      ⟨-, -, he, -⟩ | ⟨-, hc, n, hw, he⟩
    · cases he
    · have hp₂ := ispSerialWrite_polled (E := E) dataBlockOk
        ((h₁.emit (.received buf (getRemainingBlocksize count l.totalBytesReceived)
          (l.data.length - l.totalBytesReceived.toNat))).acknowledged decoded)
      rw [hw, final_ok] at hp₂
      cases he
      exact .inl ⟨rfl, hp₂.request⟩
    · cases he
    · have hp₂ := ispSerialWrite_polled (E := E) dataBlockResend
        (h₁.emit (.received buf (getRemainingBlocksize count l.totalBytesReceived)
          (l.data.length - l.totalBytesReceived.toNat))).damaged
      rw [hw, final_ok] at hp₂
      split_ifs at he
      cases he
      refine .inr ⟨rfl, hp₂.request.trans ?_, hp₂.request.trans_le hc⟩
      exact congrArg (· + 1) hp₁.request

theorem blockToSend_final (data : Mem) (datasize : UInt32) (h : Host σ) :
    final (blockToSend E data datasize h) = h := by
  unfold blockToSend
  rw [bind_ok (uninit_apply _ _ _)]
  rcases ispUuEncode data datasize with _ | ⟨ret, out⟩
  · rfl
  · rcases (List.range datasize.toNat).mapM data with _ | bs
    · rfl
    · simp only []
      split_ifs <;> rfl

theorem blockToSend_eq_ok {data : Mem} {datasize : UInt32} {text : List UInt8}
    (ht : blockToSend E data datasize h = .ok text h') : h' = h := by
  have := blockToSend_final (E := E) data datasize h
  rwa [ht] at this

theorem takeReply_eq_ok {l : SendLocals} {datasize : UInt32} {repbuf : List UInt8}
    {r : SendLocals ⊕ ℤ} :
    takeReply l datasize repbuf h = .ok r h' ↔
      (repbuf.take dataBlockOk.length = dataBlockOk ∧
        r = .inl ⟨l.i + 1, l.totalBytesSent + datasize⟩ ∧ h' = h.accepted) ∨
      (repbuf.take dataBlockOk.length ≠ dataBlockOk ∧ h' = h.refused ∧
        r = if 3 ≤ h.refused.resendRequestedForBlock then .inr (-2) else .inl l) := by
  unfold takeReply
  by_cases hok : repbuf.take dataBlockOk.length = dataBlockOk
  · rw [if_pos hok, bind_ok (modify_apply _ _)]
    simp only [pure_apply, EStateM.Result.ok.injEq, hok, true_and, ne_eq, not_true_eq_false,
      false_and, or_false, eq_comm]
  · rw [if_neg hok, bind_ok (modify_apply _ _), bind_ok (get_apply _)]
    simp only [hok, false_and, false_or, ne_eq, not_false_eq_true, true_and,
      UInt32.sub_add_cancel]
    constructor
    · intro he
      split_ifs at he with hc <;> cases he
      · exact ⟨rfl, by rw [if_pos hc]⟩
      · exact ⟨rfl, by rw [if_neg hc]⟩
    · rintro ⟨rfl, rfl⟩
      split_ifs <;> rfl

theorem sendTurn_eq_ok {data : Mem} {l : SendLocals} {r : SendLocals ⊕ ℤ} :
    sendTurn E data count blocks l h = .ok r h' ↔
      (¬ l.i < blocks ∧ r = .inr 0 ∧ h' = h) ∨
      (l.i < blocks ∧ ∃ text n h₁,
        blockToSend E (data.drop l.totalBytesSent.toNat)
          (min (count - l.totalBytesSent) (UInt32.ofNat maxDataBlockSize)) h = .ok text h ∧
        ispSerialWrite E text h = .ok n h₁ ∧
        ((n ≠ text.length ∧ r = .inr (-6) ∧ h' = h₁) ∨
          (n = text.length ∧ ∃ len got h₂,
            ispSerialRead E repBufsize 4 h₁ = .ok (len, got) h₂ ∧
            ((len ≤ 0 ∧ r = .inr (-5) ∧ h' = h₂) ∨
              (0 < len ∧ takeReply l
                (min (count - l.totalBytesSent) (UInt32.ofNat maxDataBlockSize))
                (overlay ((List.range repBufsize).map (E.stack h₁.env)) 0 got) h₂ =
                  .ok r h'))))) := by
  unfold sendTurn
  by_cases hi : l.i < blocks
  · rw [if_pos hi]
    simp only [hi, not_true_eq_false, false_and, true_and, false_or]
    constructor
    · intro he
      obtain ⟨text, h₀, ht, hk⟩ := bind_eq_ok.1 he
      obtain rfl := blockToSend_eq_ok ht
      obtain ⟨n, h₁, hw, he⟩ := bind_eq_ok.1 hk
      refine ⟨text, n, h₁, ht, hw, ?_⟩
      by_cases hn : n = text.length
      · rw [if_neg (not_not.2 hn), bind_ok (uninit_apply _ _ _)] at he
        obtain ⟨⟨len, got⟩, h₂, hr, he⟩ := bind_eq_ok.1 he
        refine .inr ⟨hn, len, got, h₂, hr, ?_⟩
        by_cases hlen : len ≤ 0
        · simp only [if_pos hlen] at he
          cases he
          exact .inl ⟨hlen, rfl, rfl⟩
        · simp only [if_neg hlen] at he
          exact .inr ⟨Int.not_le.1 hlen, he⟩
      · rw [if_pos hn] at he
        cases he
        exact .inl ⟨hn, rfl, rfl⟩
    · rintro ⟨text, n, h₁, ht, hw, hk⟩
      rw [bind_ok ht, bind_ok hw]
      rcases hk with ⟨hn, rfl, rfl⟩ | ⟨hn, len, got, h₂, hr, hk⟩
      · rw [if_pos hn]
        rfl
      · rw [if_neg (not_not.2 hn), bind_ok (uninit_apply _ _ _), bind_ok hr]
        rcases hk with ⟨hlen, rfl, rfl⟩ | ⟨hlen, hk⟩
        · simp only [if_pos hlen]
          rfl
        · simp only [if_neg (Int.not_le.2 hlen)]
          exact hk
  · rw [if_neg hi]
    simp only [hi, not_false_eq_true, true_and, false_and, or_false]
    exact pure_eq_ok

theorem sendTurn_inl {data : Mem} {l l' : SendLocals}
    (hr : sendTurn E data count blocks l h = .ok (.inl l') h') : l.i < blocks ∧
      (l'.i = l.i + 1 ∧ h'.resendRequestedForBlock = 0 ∨
        l'.i = l.i ∧ h'.resendRequestedForBlock = h.resendRequestedForBlock + 1 ∧
          h'.resendRequestedForBlock < 3) := by
  rcases sendTurn_eq_ok.1 hr with ⟨-, he, -⟩ | ⟨hi, text, n, h₁, -, hw, hk⟩
  · cases he
  · refine ⟨hi, ?_⟩
    rcases hk with ⟨-, he, -⟩ | ⟨-, len, got, h₂, hread, ⟨-, he, -⟩ | ⟨-, hk⟩⟩
    · cases he
    · cases he
    · have hp₁ := ispSerialWrite_polled (E := E) text h
      have hp₂ := ispSerialRead_polled (E := E) repBufsize 4 h₁
      rw [hw, final_ok] at hp₁
      rw [hread, final_ok] at hp₂
      rcases takeReply_eq_ok.1 hk with ⟨-, he, rfl⟩ | ⟨-, rfl, he⟩
      · cases he
        exact .inl ⟨rfl, rfl⟩
      · split_ifs at he with hc
        cases he
        refine .inr ⟨rfl, ?_, Nat.lt_of_not_le hc⟩
        exact congrArg (· + 1) (hp₂.requested.trans hp₁.requested)

end Turns

theorem toNat_succ_of_lt {i blocks : UInt32} (hi : i < blocks) : (i + 1).toNat = i.toNat + 1 := by
  have := blocks.toNat_lt
  have := UInt32.lt_iff_toNat_lt.1 hi
  rw [UInt32.toNat_add, UInt32.toNat_one, Nat.mod_eq_of_lt (by omega)]

/-- One more block, or one more attempt at the same. -/
theorem rank_lt_of_turn {i i' blocks : UInt32} {k c c' m : ℕ} (hi : i < blocks) (hm : m < k)
    (h : i' = i + 1 ∧ c' = 0 ∨ i' = i ∧ c' = c + 1 ∧ c' ≤ m) :
    (blocks.toNat - i'.toNat) * k + (m - c') < (blocks.toNat - i.toNat) * k + (m - c) := by
  have hlt : i.toNat < blocks.toNat := UInt32.lt_iff_toNat_lt.1 hi
  rcases h with ⟨rfl, rfl⟩ | ⟨rfl, rfl, hle⟩
  · obtain ⟨d, hd⟩ : ∃ d, blocks.toNat - i.toNat = d + 1 := ⟨blocks.toNat - i.toNat - 1, by omega⟩
    rw [toNat_succ_of_lt hi, show blocks.toNat - (i.toNat + 1) = d by omega, hd, Nat.succ_mul]
    omega
  · omega

def receiveLoop (count blocks : UInt32) :
    Loop Fault (Host σ) ReceiveLocals (ℤ × List Cell) where
  body := receiveTurn E count blocks
  rank := fun l h => (blocks.toNat - l.i.toNat) * 4 + (3 - h.resendRequestForBlock)
  rank_lt := by
    intro l h l' h' hr
    obtain ⟨hi, ht⟩ := receiveTurn_inl hr
    exact rank_lt_of_turn hi (by decide) ht

def sendLoop (data : Mem) (count blocks : UInt32) : Loop Fault (Host σ) SendLocals ℤ where
  body := sendTurn E data count blocks
  rank := fun l h => (blocks.toNat - l.i.toNat) * 3 + (2 - h.resendRequestedForBlock)
  rank_lt := by
    intro l h l' h' hr
    obtain ⟨hi, ⟨he, hc⟩ | ⟨he, hc, hlt⟩⟩ := sendTurn_inl hr
    · exact rank_lt_of_turn hi (by decide) (.inl ⟨he, hc⟩)
    · exact rank_lt_of_turn hi (by decide) (.inr ⟨he, hc, by omega⟩)

theorem receiveLoop_inl {E : Sys σ} {count blocks : UInt32} {l l' : ReceiveLocals} {h h' : Host σ}
    (hturn : receiveTurn E count blocks l h = .ok (.inl l') h') :
    (receiveLoop E count blocks).run l h = (receiveLoop E count blocks).run l' h' :=
  Loop.run_inl hturn

theorem receiveLoop_inr {E : Sys σ} {count blocks : UInt32} {l : ReceiveLocals} {h h' : Host σ}
    {r : ℤ × List Cell} (hturn : receiveTurn E count blocks l h = .ok (.inr r) h') :
    (receiveLoop E count blocks).run l h = .ok r h' :=
  Loop.run_inr hturn

theorem sendLoop_inl {E : Sys σ} {data : Mem} {count blocks : UInt32} {l l' : SendLocals}
    {h h' : Host σ} (hturn : sendTurn E data count blocks l h = .ok (.inl l') h') :
    (sendLoop E data count blocks).run l h = (sendLoop E data count blocks).run l' h' :=
  Loop.run_inl hturn

/-- The value returned and what `data` holds then. -/
def ispReadMemory (data : List Cell) (addr count : UInt32) (uuencoded : ℕ) :
    Prog σ (ℤ × List Cell) := do
  let ret ← ispSendCmdTwoArgs E 'R'.toUInt8 addr count
  if ret ≠ 0 then return (ret, data)
  else if uuencoded = 0 then readRaw E data count.toNat
  else do
    let buf ← uninit E serialBufsize
    (receiveLoop E count (getNbBlocks count)).run ⟨0, 0, data, buf⟩

/-- The address is an `unsigned long` that the request takes as an `unsigned int`. -/
def ispSendBufToRam (data : Mem) (addr : ℕ) (count : UInt32) (performUuencode : ℕ) :
    Prog σ ℤ := do
  let ret ← ispSendCmdTwoArgs E 'W'.toUInt8 (UInt32.ofNat addr) count
  if ret ≠ 0 then return -8
  else if performUuencode = 0 then
    match (List.range count.toNat).mapM data with
    | none => throw .source
    | some bs => do
      let n ← ispSerialWrite E bs
      emit (.sent (n = toInt count.toNat))
      return if n ≠ toInt count.toNat then -7 else 0
  else (sendLoop E data count (getNbBlocks count)).run ⟨0, 0⟩

end LpcTools
