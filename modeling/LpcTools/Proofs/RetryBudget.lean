import LpcTools.Lib.Pairs
import LpcTools.Proofs.Attempts
import LpcTools.Proofs.ReadSafety
import LpcTools.Proofs.Sending

/-!
# What is left of the retry counters of earlier transfers

Both counters are static and cleared by a success only. A receiver gives up at the fourth failure in a
row, whoever's they are, a sender at the third, so that neither keeps to three attempts of its own
(`retryBudget_iff`).
-/

namespace LpcTools

open Run Decimal Uuencode

variable {σ : Type}

section Blind

/-- The same host with other counters. -/
def Host.recount (f f' : ℕ → ℕ) (h : Host σ) : Host σ :=
  { h with
    resendRequestForBlock := f h.resendRequestForBlock
    resendRequestedForBlock := f' h.resendRequestedForBlock }

@[simp] theorem Host.recount_env (f f' : ℕ → ℕ) (h : Host σ) : (h.recount f f').env = h.env := rfl

@[simp] theorem Host.recount_nextReadChar (f f' : ℕ → ℕ) (h : Host σ) :
    (h.recount f f').nextReadChar = h.nextReadChar := rfl

/-- Other counters change nothing but the counters. -/
def Blind {α : Type} (f f' : ℕ → ℕ) (x : Prog σ α) : Prop :=
  ∀ h, Paired (fun a s a' t => a = a' ∧ t = s.recount f f') (fun s t => t = s.recount f f') (x h)
    (x (h.recount f f'))

variable {E : Sys σ} {f f' : ℕ → ℕ} {α β : Type}

theorem Blind.pure (a : α) : Blind f f' (Pure.pure a : Prog σ α) := fun _ => ⟨rfl, rfl⟩

theorem Blind.throw (e : Fault) : Blind f f' (MonadExcept.throw e : Prog σ α) := fun _ => ⟨rfl, rfl⟩

theorem Blind.bind {x : Prog σ α} {k : α → Prog σ β} (hx : Blind f f' x)
    (hk : ∀ a, Blind f f' (k a)) : Blind f f' (x >>= k) := by
  intro h
  refine Paired.bind (hx h) ?_
  rintro a s a' t ⟨rfl, rfl⟩
  exact hk a s

theorem Blind.map {x : Prog σ α} (g : α → β) (hx : Blind f f' x) : Blind f f' (g <$> x) := by
  intro h
  refine Paired.map ((hx h).mono ?_ fun _ _ he => he)
  rintro a s a' t ⟨rfl, rfl⟩
  exact ⟨rfl, rfl⟩

theorem Blind.ite {p : Prop} [Decidable p] {x y : Prog σ α} (hx : Blind f f' x)
    (hy : Blind f f' y) : Blind f f' (if p then x else y) := by
  split_ifs
  · exact hx
  · exact hy

theorem Blind.loop {L : Loop Fault (Host σ) α β} (hL : ∀ a, Blind f f' (L.body a)) (a : α) :
    Blind f f' (L.run a) := by
  intro h
  refine Loop.paired (I := fun a s a' t => a = a' ∧ t = s.recount f f') ?_ ⟨rfl, rfl⟩
  rintro a s a' t ⟨rfl, rfl⟩
  refine (hL a s).mono ?_ fun _ _ he => he
  rintro (a₁ | b) s₁ r t₁ ⟨rfl, rfl⟩
  · exact ⟨rfl, rfl⟩
  · exact ⟨rfl, rfl⟩

theorem blind_emit (e : Event) : Blind f f' (emit e : Prog σ Unit) := fun _ => ⟨rfl, rfl⟩

theorem blind_uninit (n : ℕ) : Blind f f' (uninit E n) := fun _ => ⟨rfl, rfl⟩

theorem blind_write (text : List UInt8) : Blind f f' (ispSerialWrite E text) := by
  refine Blind.loop (fun l h => ?_) _
  simp only [serialWriteLoop, Host.recount_env]
  rcases E.write h.env (text.drop l.count) with ⟨_ | _ | _, env⟩
  · simp only []
    split_ifs <;> exact ⟨rfl, rfl⟩
  · simp only []
    split_ifs <;> exact ⟨rfl, rfl⟩
  · exact ⟨rfl, rfl⟩

theorem blind_readLoop (n m : ℕ) (l : ReadLocals) : Blind f f' ((serialReadLoop E n m).run l) := by
  refine Blind.loop (fun l h => ?_) _
  simp only [serialReadLoop, Host.recount_env]
  rcases E.read h.env (n - l.got.length) with ⟨_ | _ | _, env⟩
  · simp only []
    split_ifs <;> exact ⟨rfl, rfl⟩
  · simp only []
    split_ifs <;> exact ⟨rfl, rfl⟩
  · exact ⟨rfl, rfl⟩

theorem blind_read (n m : ℕ) : Blind f f' (ispSerialRead E n m) := by
  intro h
  unfold ispSerialRead
  rw [Host.recount_nextReadChar]
  split_ifs
  · exact ⟨rfl, rfl⟩
  · exact blind_readLoop n m _ h
  · exact ⟨rfl, rfl⟩
  · exact blind_readLoop n m _ { h with nextReadChar := 0 }

theorem blind_ispRetCode (buf : List UInt8) (quiet : ℤ) : Blind f f' (ispRetCode E buf quiet) := by
  unfold ispRetCode
  rcases strtoul 10 buf with _ | ⟨v, rest⟩
  · exact .throw _
  · simp only []
    refine .ite (.ite (.bind (blind_emit _) fun _ => .pure _) (.ite ?_ (.pure _))) (.pure _)
    rcases errorCodes[v % 2 ^ 32]? with _ | name
    · exact .throw _
    · exact .bind (blind_emit _) fun _ => .pure _

theorem blind_sendRequest (text buf : List UInt8) (n : ℕ) (unsent silent quiet : ℤ) :
    Blind f f' (sendRequest E text buf n unsent silent quiet) := by
  unfold sendRequest askStatus
  refine .bind (.bind (blind_write text) fun k => .ite (.pure _) (.bind (blind_read n 3) fun r => ?_))
    fun a => .bind (blind_emit _) fun _ => .pure _
  exact .ite (.pure _) (.map _ (blind_ispRetCode _ _))

theorem blind_ispSendCmdTwoArgs (cmd : UInt8) (arg1 arg2 : UInt32) :
    Blind f f' (ispSendCmdTwoArgs E cmd arg1 arg2) :=
  .map _ (.bind (blind_uninit _) fun _ => blind_sendRequest _ _ _ _ _ _)

theorem blind_readRaw (data : List Cell) (count : ℕ) : Blind f f' (readRaw E data count) := by
  have hstore (data : List Cell) (k : ℕ) (new : List UInt8) :
      Blind f f' (store data k new : Prog σ (List Cell)) := .ite (.throw _) (.pure _)
  unfold readRaw
  refine .bind (blind_read _ _) fun r => .bind (blind_emit _) fun _ => .bind (hstore _ _ _) fun data₁ => ?_
  refine .ite (.pure _) (.ite (.pure _) (.bind (blind_read _ _) fun r' => .bind (blind_emit _) fun _ => ?_))
  exact .bind (hstore _ _ _) fun data₂ => .ite (.throw _) (.ite (.pure _) (.pure _))

/-- A read without blocks sees no counter. -/
theorem blind_ispReadMemory {uu : ℕ} {count : UInt32} (hnone : uu = 0 ∨ count = 0)
    (data : List Cell) (addr : UInt32) : Blind f f' (ispReadMemory E data addr count uu) := by
  unfold ispReadMemory
  refine .bind (blind_ispSendCmdTwoArgs _ _ _) fun ret => .ite (.pure _) ?_
  by_cases huu : uu = 0
  · rw [if_pos huu]
    exact blind_readRaw _ _
  · rw [if_neg huu, hnone.resolve_left huu]
    refine .bind (blind_uninit _) fun buf => .loop (fun l => ?_) _
    change Blind f f' (receiveTurn E 0 0 l)
    unfold receiveTurn
    rw [if_neg (UInt32.not_lt.2 UInt32.zero_le)]
    exact .pure _

theorem blind_blockToSend (data : Mem) (datasize : UInt32) : Blind f f' (blockToSend E data datasize) := by
  unfold blockToSend
  refine .bind (blind_uninit _) fun buf => ?_
  rcases ispUuEncode data datasize with _ | ⟨ret, text⟩
  · exact .throw _
  · rcases (List.range datasize.toNat).mapM data with _ | bs
    · exact .throw _
    · exact .ite (.throw _) (.pure _)

/-- The sender sees its own counter only. -/
theorem blind_sendTurn (data : Mem) (count blocks : UInt32) (l : SendLocals) :
    Blind f id (sendTurn E data count blocks l) := by
  unfold sendTurn
  refine .ite ?_ (.pure _)
  refine .bind (blind_blockToSend _ _) fun text => .bind (blind_write _) fun n => .ite (.pure _) ?_
  refine .bind (blind_uninit _) fun repbuf => .bind (blind_read _ _) fun r => .ite (.pure _) ?_
  unfold takeReply
  refine .ite (.bind (fun h => ⟨rfl, rfl⟩) fun _ => .pure _) (.bind (fun h => ⟨rfl, rfl⟩) fun _ => ?_)
  intro h
  rw [bind_ok (get_apply _), bind_ok (get_apply _)]
  exact Blind.ite (p := 3 ≤ h.resendRequestedForBlock) (.pure _) (.pure _) h

/-- A transfer to the device sees the sender's counter only, and none without blocks. -/
theorem blind_ispSendBufToRam {uu : ℕ} {count : UInt32} (hnone : uu = 0 ∨ count = 0 ∨ f' = id)
    (data : Mem) (addr : ℕ) : Blind f f' (ispSendBufToRam E data addr count uu) := by
  unfold ispSendBufToRam
  refine .bind (blind_ispSendCmdTwoArgs _ _ _) fun ret => .ite (.pure _) ?_
  by_cases huu : uu = 0
  · rw [if_pos huu]
    rcases (List.range count.toNat).mapM data with _ | bs
    · exact .throw _
    · exact .bind (blind_write _) fun n => .bind (blind_emit _) fun _ => .pure _
  · rw [if_neg huu]
    refine .loop (fun l => ?_) _
    rcases hnone.resolve_left huu with rfl | rfl
    · change Blind f f' (sendTurn E data 0 0 l)
      unfold sendTurn
      rw [if_neg (UInt32.not_lt.2 UInt32.zero_le)]
      exact .pure _
    · exact blind_sendTurn data count _ l

end Blind

/-- A process that has made no transfer, where this one stands. -/
def Host.fresh (h : Host σ) : Host σ := h.recount (fun _ => 0) fun _ => 0

def SameButCounters (h h' : Host σ) : Prop :=
  h'.env = h.env ∧ h'.nextReadChar = h.nextReadChar ∧ h'.log = h.log

/-- Nothing of the call depends on the transfers made before it. -/
def Forgets {α : Type} (x : Prog σ α) (h : Host σ) : Prop :=
  Paired (fun a s a' t => a = a' ∧ SameButCounters s t) SameButCounters (x h) (x h.fresh)

/-- A failed attempt is the last of its block if two have failed before it in the same call, and else is
followed by another. The attempts are the turns of the loop over the blocks. -/
def ThreeAttempts {α : Type} (attempts : List (α × Host σ)) (index : α → UInt32)
    (failed givenUp again : α × Host σ → Host σ → Prop) : Prop :=
  ∀ pre p post, attempts = pre ++ p :: post → ∀ h, failed p h →
    if pre.countP (fun q => index q.1 = index p.1) = 2 then givenUp p h else again p h

section Read

variable (E : Sys σ) (data : List Cell) (addr count : UInt32) (uu : ℕ)

/-- The turns of the loop over the blocks in a call of `isp_read_memory`. -/
def readAttempts (h : Host σ) : List (ReceiveLocals × Host σ) :=
  match ispSendCmdTwoArgs E 'R'.toUInt8 addr count h with
  | .ok ret h₁ =>
    if ret ≠ 0 ∨ uu = 0 then []
    else (receiveLoop E count (getNbBlocks count)).heads
      ⟨0, 0, data, (List.range serialBufsize).map (E.stack h₁.env)⟩ h₁
  | .error _ _ => []

/-- The block has come, and decodes, but its checksum is wrong. -/
def DamagedAt (p : ReceiveLocals × Host σ) (h : Host σ) : Prop :=
  ∃ buf h₁ decoded, p.1.i < getNbBlocks count ∧
    receiveBlock E (getRemainingBlocksize count p.1.totalBytesReceived) p.1.buf p.2 =
      .ok (some buf) h₁ ∧
    decodeBlock (p.1.data.length - p.1.totalBytesReceived.toNat)
      (getRemainingBlocksize count p.1.totalBytesReceived) buf h₁ = .ok (decoded, false) h

/-- A call of `isp_read_memory` gives every block three attempts, whatever the counters are when it is
made, and does not depend on them. -/
def ReadKeepsBudget (h : Host σ) : Prop :=
  ThreeAttempts (readAttempts E data addr count uu h) ReceiveLocals.i (DamagedAt E count)
    (fun p h => ∃ r, receiveTurn E count (getNbBlocks count) p.1 p.2 = .ok (.inr r) h.damaged)
    (fun p h => ∀ h₁, ispSerialWrite E dataBlockResend h.damaged = .ok dataBlockResend.length h₁ →
      ∃ l, receiveTurn E count (getNbBlocks count) p.1 p.2 = .ok (.inl l) h₁) ∧
  Forgets (ispReadMemory E data addr count uu) h

end Read

section Send

variable (E : Sys σ) (data : Mem) (addr : ℕ) (count : UInt32) (uu : ℕ)

/-- The turns of the loop over the blocks in a call of `isp_send_buf_to_ram`. -/
def sendAttempts (h : Host σ) : List (SendLocals × Host σ) :=
  match ispSendCmdTwoArgs E 'W'.toUInt8 (UInt32.ofNat addr) count h with
  | .ok ret h₁ =>
    if ret ≠ 0 ∨ uu = 0 then []
    else (sendLoop E data count (getNbBlocks count)).heads ⟨0, 0⟩ h₁
  | .error _ _ => []

/-- The block has been sent, and the reply to it is not that it is accepted. -/
def RefusedAt (p : SendLocals × Host σ) (h : Host σ) : Prop :=
  ∃ text h₁ len got, p.1.i < getNbBlocks count ∧
    blockToSend E (data.drop p.1.totalBytesSent.toNat)
      (min (count - p.1.totalBytesSent) (UInt32.ofNat maxDataBlockSize)) p.2 = .ok text p.2 ∧
    ispSerialWrite E text p.2 = .ok text.length h₁ ∧
    ispSerialRead E repBufsize 4 h₁ = .ok (len, got) h ∧ 0 < len ∧
    (overlay ((List.range repBufsize).map (E.stack h₁.env)) 0 got).take dataBlockOk.length ≠
      dataBlockOk

/-- A call of `isp_send_buf_to_ram` gives every block three attempts, whatever the counters are when it
is made, and does not depend on them. -/
def SendKeepsBudget (h : Host σ) : Prop :=
  ThreeAttempts (sendAttempts E data addr count uu h) SendLocals.i (RefusedAt E data count)
    (fun p h => sendTurn E data count (getNbBlocks count) p.1 p.2 = .ok (.inr (-2)) h.refused)
    (fun p h => sendTurn E data count (getNbBlocks count) p.1 p.2 = .ok (.inl p.1) h.refused) ∧
  Forgets (ispSendBufToRam E data addr count uu) h

end Send

section Keeps

variable {E : Sys σ} {uu : ℕ} {count : UInt32} {h : Host σ}

theorem Blind.forgets {α : Type} {x : Prog σ α} {f f' : ℕ → ℕ} (hx : Blind f f' x)
    (hfresh : h.fresh = h.recount f f') : Forgets x h := by
  unfold Forgets
  rw [hfresh]
  refine (hx h).mono ?_ ?_
  · rintro a s a' t ⟨rfl, rfl⟩
    exact ⟨rfl, rfl, rfl, rfl⟩
  · rintro s t rfl
    exact ⟨rfl, rfl, rfl⟩

theorem readKeepsBudget_of_none (hnone : uu = 0 ∨ count = 0) (data : List Cell) (addr : UInt32)
    (h : Host σ) : ReadKeepsBudget E data addr count uu h := by
  refine ⟨fun pre p post hsplit h₂ hfailed => ?_, (blind_ispReadMemory hnone data addr).forgets rfl⟩
  obtain ⟨buf, h₁, decoded, hi, -⟩ := hfailed
  exfalso
  rcases hnone with rfl | rfl
  · unfold readAttempts at hsplit
    split at hsplit
    · rw [if_pos (.inr rfl)] at hsplit
      simp at hsplit
    · simp at hsplit
  · exact UInt32.not_lt.2 UInt32.zero_le hi

/-- What a refused attempt comes to. -/
theorem RefusedAt.turn {data : Mem} {p : SendLocals × Host σ} (hp : RefusedAt E data count p h) :
    h.resendRequestedForBlock = p.2.resendRequestedForBlock ∧
      sendTurn E data count (getNbBlocks count) p.1 p.2 =
        .ok (if 3 ≤ p.2.resendRequestedForBlock + 1 then .inr (-2) else .inl p.1) h.refused := by
  obtain ⟨text, h₁, len, got, hi, hblock, hwrite, hread, hlen, hne⟩ := hp
  have hp₁ := ispSerialWrite_polled (E := E) text p.2
  have hp₂ := ispSerialRead_polled (E := E) repBufsize 4 h₁
  rw [hwrite, final_ok] at hp₁
  rw [hread, final_ok] at hp₂
  have hsame : h.resendRequestedForBlock = p.2.resendRequestedForBlock :=
    hp₂.requested.trans hp₁.requested
  have htake : takeReply p.1 (min (count - p.1.totalBytesSent) (UInt32.ofNat maxDataBlockSize))
      (overlay ((List.range repBufsize).map (E.stack h₁.env)) 0 got) h =
        .ok (if 3 ≤ h.refused.resendRequestedForBlock then .inr (-2) else .inl p.1) h.refused :=
    takeReply_eq_ok.2 (.inr ⟨hne, rfl, rfl⟩)
  refine ⟨hsame, ?_⟩
  rw [← hsame]
  exact sendTurn_eq_ok.2 (.inr ⟨hi, text, text.length, h₁, hblock, hwrite,
    .inr ⟨rfl, len, got, h, hread, .inr ⟨hlen, htake⟩⟩⟩)

theorem RefusedAt.given {data : Mem} {p : SendLocals × Host σ} (hp : RefusedAt E data count p h)
    (hc : 2 ≤ p.2.resendRequestedForBlock) :
    sendTurn E data count (getNbBlocks count) p.1 p.2 = .ok (.inr (-2)) h.refused := by
  rw [hp.turn.2, if_pos (by omega)]

/-- A request leaves a counter that is 0. -/
theorem ispSendCmdTwoArgs_zero (hzero : h.resendRequestedForBlock = 0) {cmd : UInt8}
    {arg1 arg2 : UInt32} {ret : ℤ} {h₁ : Host σ}
    (hask : ispSendCmdTwoArgs E cmd arg1 arg2 h = .ok ret h₁) : h₁.resendRequestedForBlock = 0 := by
  have hsame : h.recount id (fun _ => 0) = h := by
    simp [Host.recount, ← hzero]
  have hblind : Blind id (fun _ => 0) (ispSendCmdTwoArgs E cmd arg1 arg2) :=
    blind_ispSendCmdTwoArgs cmd arg1 arg2
  have hpaired := hblind h
  rw [hsame, hask] at hpaired
  rw [hpaired.2]
  rfl

/-- From a process whose last block was not refused, a sender keeps to three attempts. -/
theorem sendAttempts_three (hzero : h.resendRequestedForBlock = 0) (data : Mem) (addr : ℕ) :
    ThreeAttempts (sendAttempts E data addr count uu h) SendLocals.i (RefusedAt E data count)
      (fun p h => sendTurn E data count (getNbBlocks count) p.1 p.2 = .ok (.inr (-2)) h.refused)
      (fun p h => sendTurn E data count (getNbBlocks count) p.1 p.2 = .ok (.inl p.1) h.refused) := by
  intro pre p post hsplit h₂ hrefused
  obtain ⟨-, hturn⟩ := hrefused.turn
  unfold sendAttempts at hsplit
  split at hsplit
  · rename_i ret h₁ hask
    split_ifs at hsplit with hnone
    · simp at hsplit
    · have hretries := (sendLoop_retried E data count (getNbBlocks count)).retries
      have hstart := ispSendCmdTwoArgs_zero hzero hask
      have htries := hretries.tries_eq ⟨0, 0⟩ h₁ (Nat.zero_le _) hsplit
      have hlt := hretries.tries_lt (by decide) ⟨0, 0⟩ h₁ (by omega) (p := p) (by rw [hsplit]; simp)
      rw [hstart, ite_self, Nat.add_zero] at htries
      simp only [UInt32.toNat_inj] at htries
      by_cases hcount : pre.countP (fun q => q.1.i = p.1.i) = 2
      · rw [if_pos hcount]
        exact hturn.trans (by rw [if_pos (by omega)])
      · rw [if_neg hcount]
        exact hturn.trans (by rw [if_neg (by omega)])
  · simp at hsplit

theorem sendKeepsBudget_of_zero (hnone : uu = 0 ∨ count = 0 ∨ h.resendRequestedForBlock = 0)
    (data : Mem) (addr : ℕ) : SendKeepsBudget E data addr count uu h := by
  by_cases hzero : h.resendRequestedForBlock = 0
  · refine ⟨sendAttempts_three hzero data addr, (blind_ispSendBufToRam (f := fun _ => 0)
      (.inr (.inr rfl)) data addr).forgets ?_⟩
    simp [Host.fresh, Host.recount, hzero]
  · have hnone' : uu = 0 ∨ count = 0 := by
      rcases hnone with h0 | h0 | h0
      · exact .inl h0
      · exact .inr h0
      · exact absurd h0 hzero
    refine ⟨fun pre p post hsplit h₂ hfailed => ?_, (blind_ispSendBufToRam
      (hnone'.imp_right .inl) data addr).forgets rfl⟩
    obtain ⟨text, h₁, len, got, hi, -⟩ := hfailed
    exfalso
    rcases hnone' with rfl | rfl
    · unfold sendAttempts at hsplit
      split at hsplit
      · rw [if_pos (.inr rfl)] at hsplit
        simp at hsplit
      · simp at hsplit
    · exact UInt32.not_lt.2 UInt32.zero_le hi

end Keeps

section Stubborn

/-- A block with a wrong checksum. -/
def damagedText : List UInt8 := uuencodeZero :: (.replicate 1296 ' '.toUInt8 ++ statusText 1)

/-- A device that grants every request, sends damaged blocks and refuses those sent to it. -/
def stubbornSys : Sys Unit :=
  { Sys.plain Unit with
    read := fun s n => (.data ((if n = 3 then statusText 0 else
      if n = serialBufsize then damagedText else dataBlockResend).take n), s)
    write := fun s bs => (.wrote bs.length, s)
    read_le := by
      intro s n bs t h
      cases h
      exact List.length_take_le _ _
    write_le := by
      intro s bs n t h
      cases h
      exact Nat.le_refl _
    write_pos := by
      intro s bs n t h hne
      cases h
      exact List.length_pos_iff.2 hne }

variable {h : Host Unit} {count : UInt32}

theorem stubborn_write {text : List UInt8} (htext : text.length < 2 ^ 31) (h : Host Unit) :
    ispSerialWrite stubbornSys text h = .ok text.length h := by
  have hbody : (serialWriteLoop stubbornSys text).body ⟨0, 0⟩ h =
      .ok (.inr (toInt (0 + (text.drop 0).length))) h := by
    simp only [serialWriteLoop, stubbornSys, List.drop_zero, Nat.zero_add, Nat.lt_irrefl, if_false]
  unfold ispSerialWrite
  rw [Loop.run_inr hbody, List.drop_zero, Nat.zero_add, toInt_of_lt htext]

theorem stubborn_read {n m : ℕ} {got : List UInt8} (hgot : (if n = 3 then statusText 0 else
      if n = serialBufsize then damagedText else dataBlockResend).take n = got)
    (hmin : m ≤ n) (hm : m ≤ got.length) (hlt : got.length < 2 ^ 31) (h0 : h.nextReadChar = 0) :
    ispSerialRead stubbornSys n m h = .ok (got.length, got) h := by
  have hread : stubbornSys.read h.env n = (.data got, h.env) := by
    rw [← hgot]
    rfl
  have hbody : (serialReadLoop stubbornSys n m).body ⟨[], 0⟩ h = .ok (.inr (got.length, got)) h := by
    simp only [serialReadLoop, List.length_nil, Nat.sub_zero, hread, ReadLocals.test, List.nil_append]
    by_cases hnil : got = []
    · rw [if_pos hnil, hnil]
      rfl
    · rw [if_neg hnil, if_neg (Nat.not_lt.2 hm), toInt_of_lt hlt]
  unfold ispSerialRead
  rw [if_neg (Nat.not_lt.2 hmin), if_pos h0, Loop.run_inr hbody]

/-- Every request is granted. -/
theorem stubborn_ask (cmd : UInt8) (arg1 arg2 : UInt32) (h0 : h.nextReadChar = 0) :
    ispSendCmdTwoArgs stubbornSys cmd arg1 arg2 h =
      .ok 0 (h.emit (.request (twoArgsText cmd arg1.toNat arg2.toNat) (.status 0))) := by
  obtain ⟨buf, hask⟩ := ispSendCmdTwoArgs_eq (E := stubbornSys) cmd arg1 arg2 h
  have hlen := twoArgsText_length cmd arg1 arg2
  have hcode : ispRetCode stubbornSys (overlay buf 0 (statusText 0)) 0 h = .ok 0 h := by
    unfold ispRetCode
    rw [strtoul_status buf (by decide)]
    rfl
  have hread : ispSerialRead stubbornSys 3 3 h = .ok ((statusText 0).length, statusText 0) h :=
    stubborn_read rfl (by decide) (by decide) (by decide) h0
  have hstatus : askStatus stubbornSys (twoArgsText cmd arg1.toNat arg2.toNat) buf 3 (-5) (-4) 0 h =
      .ok (.status 0) h := by
    unfold askStatus
    rw [bind_ok (stubborn_write (by omega) h), if_neg (not_not.2 rfl), bind_ok hread]
    exact map_ok hcode
  rw [hask]
  refine map_ok (a := Answer.status 0) ?_
  unfold sendRequest
  rw [bind_ok hstatus]
  rfl

theorem damagedText_length : damagedText.length = serialBufsize := by
  rw [damagedText, List.length_cons, List.length_append, List.length_replicate,
    statusText_length_of_lt (by decide)]
  rfl

theorem getRemainingBlocksize_pos (hcount : count ≠ 0) : 0 < getRemainingBlocksize count 0 := by
  have hpos : 0 < count.toNat := Nat.pos_of_ne_zero fun h0 => hcount (UInt32.toNat_inj.1 h0)
  unfold getRemainingBlocksize maxDataBlockSize maxBytesPerLine linesPerBlock lineDataLength
  rw [UInt32.sub_zero]
  simp only []
  split_ifs <;> omega

theorem stubborn_receiveBlock {blocksize : ℕ} (hbs : blocksize ≤ 1260) {buf : List UInt8}
    (hbuf : buf.length = serialBufsize) (h0 : h.nextReadChar = 0) :
    receiveBlock stubbornSys blocksize buf h = .ok (some damagedText) h := by
  have hsize : serialBufsize = 1300 := rfl
  have hlen := damagedText_length
  have htake : (if serialBufsize = 3 then statusText 0 else
      if serialBufsize = serialBufsize then damagedText else dataBlockResend).take serialBufsize =
        damagedText := by
    rw [if_neg (by decide), if_pos rfl, List.take_of_length_le hlen.le]
  have hread := stubborn_read htake (show blocksize ≤ serialBufsize by omega)
    (by omega) (by omega) h0
  have hmore : ispSerialRead stubbornSys 0 0 h = .ok (([] : List UInt8).length, []) h :=
    stubborn_read rfl (Nat.le_refl 0) (Nat.le_refl 0) (by decide) h0
  have hpos : ¬ (damagedText.length : ℤ) ≤ 0 := by omega
  have hroom : serialBufsize - (damagedText.length : ℤ).toNat = 0 := by omega
  have hlong : (blocksize : ℤ) < (damagedText.length : ℤ) := by omega
  unfold receiveBlock
  rw [bind_ok hread]
  simp only [if_neg hpos, if_pos hlong, hroom]
  rw [bind_ok hmore]
  simp only [List.length_nil, Int.natCast_zero, Int.add_zero]
  rw [if_neg (by omega), overlay_nil, overlay_zero, hlen, ← hbuf, List.drop_length, List.append_nil]
  rfl

theorem stubborn_decodeBlock {blocksize : ℕ} (hpos : 0 < blocksize) (hbs : blocksize ≤ 1260)
    (room : ℕ) (h : Host Unit) : decodeBlock room blocksize damagedText h =
      .ok ([], false) (h.emit (.received damagedText blocksize room)) := by
  have hdec : ispUuDecode (Mem.of damagedText) room (UInt32.ofNat blocksize) = some (toInt 0, []) := by
    unfold ispUuDecode
    rw [decodeLines_eq]
    split_ifs <;> rfl
  have hnum : strtoul 10 (damagedText.drop blocksize) = some (1, '\r'.toUInt8 :: ['\n'.toUInt8]) := by
    obtain ⟨k, rfl⟩ : ∃ k, blocksize = k + 1 := ⟨blocksize - 1, by omega⟩
    rw [damagedText, List.drop_succ_cons, List.drop_append_of_le_length (by rw [List.length_replicate]; omega),
      List.drop_replicate]
    refine strtoul_decimal (fun c hc => ?_) (by decide) (by decide) _
    rw [(List.mem_replicate.1 hc).2]
    decide
  exact decodeBlock_eq_ok.2 ⟨rfl, _, _, _, hdec, hnum, by decide⟩

/-- A head of the loop over the blocks on this device. -/
structure Stuck (count : UInt32) (l : ReceiveLocals) (h : Host Unit) : Prop where
  i : l.i < getNbBlocks count
  total : l.totalBytesReceived = 0
  buf : l.buf.length = serialBufsize
  next : h.nextReadChar = 0

def stuckEvent (count : UInt32) (l : ReceiveLocals) : Event :=
  .received damagedText (getRemainingBlocksize count 0) l.data.length

/-- Every block comes damaged, and is asked for again as long as the counter allows. -/
theorem Stuck.turn (hcount : count ≠ 0) {l : ReceiveLocals} (hl : Stuck count l h) :
    DamagedAt stubbornSys count (l, h) (h.emit (stuckEvent count l)) ∧
      receiveTurn stubbornSys count (getNbBlocks count) l h =
        .ok (if 3 < h.resendRequestForBlock + 1 then .inr l.result else .inl { l with buf := damagedText })
          (h.emit (stuckEvent count l)).damaged := by
  have hbs := getRemainingBlocksize_le count 0
  have hblock := stubborn_receiveBlock hbs hl.buf hl.next
  have hdec := stubborn_decodeBlock (getRemainingBlocksize_pos hcount) hbs l.data.length h
  have htotal : l.totalBytesReceived.toNat = 0 := by
    rw [hl.total]
    rfl
  have hstore : ({ l with data := overlay l.data 0 (([] : List UInt8).map some), buf := damagedText } :
      ReceiveLocals) = { l with buf := damagedText } := by
    rw [List.map_nil, overlay_nil]
  constructor
  · refine ⟨damagedText, h, [], hl.i, ?_, ?_⟩
    · rw [hl.total]
      exact hblock
    · rw [htotal, hl.total]
      exact hdec
  · refine receiveTurn_eq_ok.2 (.inr (.inr ⟨hl.i, damagedText, h, [], false,
      h.emit (stuckEvent count l), ?_, ?_, ?_⟩))
    · rw [hl.total]
      exact hblock
    · rw [htotal, hl.total]
      exact hdec
    · rw [htotal, hstore]
      by_cases hc : 3 < h.resendRequestForBlock + 1
      · rw [if_pos hc]
        exact answerBlock_eq_ok.2 (.inr (.inl ⟨rfl, hc, rfl, rfl⟩))
      · rw [if_neg hc]
        exact answerBlock_eq_ok.2 (.inr (.inr ⟨rfl, Nat.le_of_not_lt hc, _, stubborn_write (by decide) _, rfl⟩))

theorem Stuck.goes (hcount : count ≠ 0) {l : ReceiveLocals} (hl : Stuck count l h)
    (hc : h.resendRequestForBlock < 3) : receiveTurn stubbornSys count (getNbBlocks count) l h =
      .ok (.inl { l with buf := damagedText }) (h.emit (stuckEvent count l)).damaged := by
  rw [(hl.turn hcount).2, if_neg (by omega)]

theorem Stuck.again {l : ReceiveLocals} (hl : Stuck count l h) :
    Stuck count { l with buf := damagedText } (h.emit (stuckEvent count l)).damaged where
  i := hl.i
  total := hl.total
  buf := damagedText_length
  next := hl.next

/-- How often a block is received depends on the counter. -/
theorem Stuck.run_log (hcount : count ≠ 0) : ∀ (n : ℕ) {l : ReceiveLocals} {h : Host Unit},
    Stuck count l h → n = 3 - h.resendRequestForBlock →
    (final ((receiveLoop stubbornSys count (getNbBlocks count)).run l h)).log.length =
      h.log.length + n + 1
  | 0, l, h, hl, hn => by
    have hturn := (hl.turn hcount).2
    rw [if_pos (by omega)] at hturn
    rw [receiveLoop_inr hturn]
    exact List.length_append
  | n + 1, l, h, hl, hn => by
    have hturn := hl.goes hcount (by omega)
    have hnext : (h.emit (stuckEvent count l)).damaged.resendRequestForBlock =
      h.resendRequestForBlock + 1 := rfl
    have hlen : (h.emit (stuckEvent count l)).damaged.log.length = h.log.length + 1 :=
      List.length_append
    rw [receiveLoop_inl hturn, Stuck.run_log hcount n hl.again (by omega), hlen]
    omega

theorem Stuck.start (hcount : count ≠ 0) (data : List Cell) (h0 : h.nextReadChar = 0) :
    Stuck count ⟨0, 0, data, (List.range serialBufsize).map (stubbornSys.stack h.env)⟩ h where
  i := by
    have hpos : 0 < count.toNat := Nat.pos_of_ne_zero fun h0 => hcount (UInt32.toNat_inj.1 h0)
    rw [UInt32.lt_iff_toNat_lt, getNbBlocks_toNat, nbBlocks, UInt32.toNat_zero]
    omega
  total := rfl
  buf := by rw [List.length_map, List.length_range]
  next := h0

theorem Forgets.log {α : Type} {x : Prog σ α} {h : Host σ} (hx : Forgets x h) :
    (final (x h.fresh)).log = (final (x h)).log := by
  unfold Forgets at hx
  rcases h₁ : x h with ⟨a, s⟩ | ⟨e, s⟩ <;> rcases h₂ : x h.fresh with ⟨a', t⟩ | ⟨e', t⟩ <;>
    rw [h₁, h₂] at hx
  · exact hx.2.2.2
  · exact absurd hx id
  · exact absurd hx id
  · exact hx.2.2.2

variable {uu : ℕ}

theorem stubborn_ispReadMemory (huu : uu ≠ 0) (data : List Cell) (addr count : UInt32)
    (h0 : h.nextReadChar = 0) :
    let h₁ := h.emit (.request (twoArgsText 'R'.toUInt8 addr.toNat count.toNat) (.status 0))
    let l : ReceiveLocals := ⟨0, 0, data, (List.range serialBufsize).map (stubbornSys.stack h.env)⟩
    ispReadMemory stubbornSys data addr count uu h =
        (receiveLoop stubbornSys count (getNbBlocks count)).run l h₁ ∧
      readAttempts stubbornSys data addr count uu h =
        (receiveLoop stubbornSys count (getNbBlocks count)).heads l h₁ := by
  have hask := stubborn_ask 'R'.toUInt8 addr count h0
  constructor
  · unfold ispReadMemory
    rw [bind_ok hask, if_neg (not_not.2 rfl), if_neg huu, bind_ok (uninit_apply _ _ _)]
  · unfold readAttempts
    rw [hask]
    simp only []
    rw [if_neg fun hnone => hnone.elim (fun hne => hne rfl) huu]

/-- A receiver of blocks has four attempts in a fresh process, and fewer after others have failed. -/
theorem not_readKeepsBudget (huu : uu ≠ 0) (hcount : count ≠ 0) (data : List Cell) (addr : UInt32)
    (h0 : h.nextReadChar = 0) : ¬ ReadKeepsBudget stubbornSys data addr count uu h := by
  rintro ⟨hthree, hforgets⟩
  obtain ⟨hrun, hattempts⟩ := stubborn_ispReadMemory huu data addr count h0
  have hstuck := Stuck.start (h := h.emit (.request (twoArgsText 'R'.toUInt8 addr.toNat count.toNat)
    (.status 0))) hcount data h0
  have hzero : h.resendRequestForBlock = 0 := by
    have hlog := congrArg List.length hforgets.log
    obtain ⟨hrun', -⟩ := stubborn_ispReadMemory (h := h.fresh) huu data addr count h0
    have hstuck' := Stuck.start (h := h.fresh.emit (.request (twoArgsText 'R'.toUInt8 addr.toNat
      count.toNat) (.status 0))) hcount data h0
    rw [hrun, hrun'] at hlog
    have hlen := hstuck.run_log hcount _ rfl
    have hlen' := hstuck'.run_log hcount _ rfl
    have hevents := hlen'.symm.trans (hlog.trans hlen)
    simp only [Host.emit_log, Host.emit_resendRequestForBlock, List.length_append,
      Host.fresh, Host.recount] at hevents
    omega
  -- the third failure of the first block
  have hturn₁ := hstuck.goes hcount (show h.resendRequestForBlock < 3 by omega)
  have hturn₂ := hstuck.again.goes hcount (show h.resendRequestForBlock + 1 < 3 by omega)
  have hturn₃ := hstuck.again.again.goes hcount (show h.resendRequestForBlock + 1 + 1 < 3 by omega)
  have hdamaged := (hstuck.again.again.turn hcount).1
  have hheads {l l' : ReceiveLocals} {s s' : Host Unit}
      (hturn : receiveTurn stubbornSys count (getNbBlocks count) l s = .ok (.inl l') s') :=
    Loop.heads_inl (L := receiveLoop stubbornSys count (getNbBlocks count)) hturn
  obtain ⟨post, hpost⟩ := Loop.heads_eq_cons (L := receiveLoop stubbornSys count (getNbBlocks count))
    _ _
  rw [hheads hturn₁, hheads hturn₂, hpost] at hattempts
  have hgiven := hthree [_, _] _ post hattempts _ hdamaged
  rw [if_pos (by simp)] at hgiven
  obtain ⟨r, hr⟩ := hgiven
  cases hturn₃.symm.trans hr

theorem stubborn_refused (m : ℕ → UInt8) {l : SendLocals} (hi : l.i < getNbBlocks count)
    (h0 : h.nextReadChar = 0) : RefusedAt stubbornSys (Mem.total m) count (l, h) h := by
  have hsize : (min (count - l.totalBytesSent) (UInt32.ofNat maxDataBlockSize)).toNat ≤ 900 := by
    have hmin : min (count - l.totalBytesSent) (UInt32.ofNat maxDataBlockSize) =
        if count - l.totalBytesSent ≤ UInt32.ofNat maxDataBlockSize then count - l.totalBytesSent
        else UInt32.ofNat maxDataBlockSize := rfl
    rw [hmin]
    split_ifs with hle
    · exact UInt32.le_iff_toNat_le.1 hle
    · exact Nat.le_refl 900
  obtain ⟨text, hblock, hlen, -⟩ := blockToSend_total (E := stubbornSys)
    (fun i => m (l.totalBytesSent.toNat + i)) hsize h
  refine ⟨text, h, dataBlockResend.length, dataBlockResend, hi, hblock, stubborn_write (by omega) h,
    stubborn_read (by decide) (by decide) (by decide) (by decide) h0, by decide, ?_⟩
  rw [overlay_zero, List.take_append_of_le_length (by decide)]
  decide

/-- A sender does not keep to three attempts if blocks have been refused before. -/
theorem not_sendKeepsBudget (huu : uu ≠ 0) (hcount : count ≠ 0) (m : ℕ → UInt8) (addr : ℕ)
    (h0 : h.nextReadChar = 0) (hne : h.resendRequestedForBlock ≠ 0) :
    ¬ SendKeepsBudget stubbornSys (Mem.total m) addr count uu h := by
  rintro ⟨hthree, -⟩
  have hask := stubborn_ask 'W'.toUInt8 (UInt32.ofNat addr) count h0
  set h₁ := h.emit (.request (twoArgsText 'W'.toUInt8 (UInt32.ofNat addr).toNat count.toNat)
    (.status 0)) with hh₁
  have hi : (⟨0, 0⟩ : SendLocals).i < getNbBlocks count := (Stuck.start hcount [] h0).i
  have hattempts : sendAttempts stubbornSys (Mem.total m) addr count uu h =
      (sendLoop stubbornSys (Mem.total m) count (getNbBlocks count)).heads ⟨0, 0⟩ h₁ := by
    unfold sendAttempts
    rw [hask]
    simp only []
    rw [if_neg fun hnone => hnone.elim (fun hne => hne rfl) huu]
  obtain ⟨post, hpost⟩ := Loop.heads_eq_cons
    (L := sendLoop stubbornSys (Mem.total m) count (getNbBlocks count)) ⟨0, 0⟩ h₁
  have hrefused := stubborn_refused m hi (show h₁.nextReadChar = 0 from h0)
  have hagain := hthree [] _ post (hattempts.trans hpost) _ hrefused
  rw [if_neg (by simp)] at hagain
  by_cases hone : h.resendRequestedForBlock = 1
  · -- the second failure is the last
    rw [hpost] at hattempts
    have hrefused₂ := stubborn_refused m hi (show h₁.refused.nextReadChar = 0 from h0)
    have hgiven := hrefused₂.given (show 2 ≤ h.resendRequestedForBlock + 1 by omega)
    obtain ⟨post₂, hpost₂⟩ := Loop.heads_eq_cons
      (L := sendLoop stubbornSys (Mem.total m) count (getNbBlocks count)) ⟨0, 0⟩ h₁.refused
    rw [← hpost, Loop.heads_inl (L := sendLoop stubbornSys (Mem.total m) count (getNbBlocks count))
      hagain, hpost₂] at hattempts
    have hagain₂ := hthree [_] _ post₂ hattempts _ hrefused₂
    rw [if_neg (by simp)] at hagain₂
    cases hgiven.symm.trans hagain₂
  · have hgiven := hrefused.given (show 2 ≤ h.resendRequestedForBlock by omega)
    cases hgiven.symm.trans hagain

end Stubborn

/-- Every call of `isp_read_memory` that finds these counters keeps to its budget. -/
def ReadsWithin (data : List Cell) (addr count : UInt32) (uu c c' : ℕ) : Prop :=
  ∀ {σ : Type} (E : Sys σ) (h : Host σ), h.resendRequestForBlock = c →
    h.resendRequestedForBlock = c' → ReadKeepsBudget E data addr count uu h

/-- Every call of `isp_send_buf_to_ram` that finds these counters keeps to its budget. -/
def SendsWithin (data : Mem) (addr : ℕ) (count : UInt32) (uu c c' : ℕ) : Prop :=
  ∀ {σ : Type} (E : Sys σ) (h : Host σ), h.resendRequestForBlock = c →
    h.resendRequestedForBlock = c' → SendKeepsBudget E data addr count uu h

end LpcTools
