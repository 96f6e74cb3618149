import LpcTools.Transfer

/-!
# What a run cannot undo

A relation between the states before and after that holds over every read and write of the line,
every change of a retry counter and every event that is logged holds over the transfers made of them.
-/

namespace LpcTools

open Run

/-- All events but requests, what follows their status, and what is written to the output file. -/
def Event.onLine : Event → Bool
  | .request _ _ => false
  | .replied _ => false
  | .saved _ => false
  | _ => true

variable {σ : Type}

structure Frame (E : Sys σ) (R : Host σ → Host σ → Prop) : Prop where
  refl : ∀ h, R h h
  trans : ∀ {h h' h'' : Host σ}, R h h' → R h' h'' → R h h''
  write : ∀ bs h, R h (final (ispSerialWrite E bs h))
  read : ∀ n m h, R h (final (ispSerialRead E n m h))
  counters : ∀ h c c', R h { h with resendRequestForBlock := c, resendRequestedForBlock := c' }
  emit : ∀ h e, e.onLine = true → R h (h.emit e)

namespace Frame

variable {E : Sys σ} {R : Host σ → Host σ → Prop} (F : Frame E R)

include F

theorem bind {α β : Type} {x : Prog σ α} {f : α → Prog σ β} {h : Host σ} (hx : R h (final (x h)))
    (hf : ∀ a h', x h = .ok a h' → R h' (final (f a h'))) : R h (final ((x >>= f) h)) :=
  bind_final (R := R) F.trans hx hf

theorem ispRetCode (buf : List UInt8) (quiet : ℤ) (h : Host σ) :
    R h (final (ispRetCode E buf quiet h)) := by
  unfold LpcTools.ispRetCode
  rcases Decimal.strtoul 10 buf with _ | ⟨v, rest⟩
  · exact F.refl h
  · simp only []
    by_cases hq : quiet ≠ 1
    · rw [if_pos hq]
      by_cases hlen : errorCodes.length < v % 2 ^ 32
      · rw [if_pos hlen]
        exact F.emit _ _ rfl
      · rw [if_neg hlen]
        by_cases hv : v % 2 ^ 32 ≠ 0 ∨ E.traceOn = true
        · rw [if_pos hv]
          rcases errorCodes[v % 2 ^ 32]? with _ | name
          · exact F.refl h
          · exact F.emit _ _ rfl
        · rw [if_neg hv]
          exact F.refl h
    · rw [if_neg hq]
      exact F.refl h

theorem askStatus (text buf : List UInt8) (readSize : ℕ) (unsent silent quiet : ℤ) (h : Host σ) :
    R h (final (askStatus E text buf readSize unsent silent quiet h)) := by
  unfold LpcTools.askStatus
  refine F.bind (F.write _ h) ?_
  intro n h₁ _
  by_cases hn : n ≠ text.length
  · rw [if_pos hn]
    exact F.refl h₁
  · rw [if_neg hn]
    refine F.bind (F.read _ _ h₁) ?_
    rintro ⟨len, got⟩ h₂ -
    by_cases hlen : len ≤ 0
    · simp only [if_pos hlen]
      exact F.refl h₂
    · simp only [if_neg hlen, final_map]
      exact F.ispRetCode _ _ h₂

theorem store (data : List Cell) (k : ℕ) (new : List UInt8) (h : Host σ) :
    R h (final (store data k new h)) := by
  unfold LpcTools.store
  split_ifs <;> exact F.refl h

theorem readRaw (data : List Cell) (count : ℕ) (h : Host σ) :
    R h (final (readRaw E data count h)) := by
  unfold LpcTools.readRaw
  refine F.bind (F.read _ _ h) ?_
  rintro ⟨len, got⟩ h₁ -
  refine F.bind (F.emit _ _ rfl) fun _ h₂ _ => F.bind (F.store _ _ _ h₂) fun data₁ h₃ _ => ?_
  by_cases hlen : len ≤ 0
  · rw [if_pos hlen]
    exact F.refl h₃
  · rw [if_neg hlen]
    by_cases hcount : len = toInt count
    · rw [if_pos hcount]
      exact F.refl h₃
    · rw [if_neg hcount]
      refine F.bind (F.read _ _ h₃) ?_
      rintro ⟨more, got'⟩ h₄ -
      refine F.bind (F.emit _ _ rfl) fun _ h₅ _ => F.bind (F.store _ _ _ h₅) fun data₂ h₆ _ => ?_
      split_ifs <;> exact F.refl h₆

theorem receiveBlock (blocksize : ℕ) (buf : List UInt8) (h : Host σ) :
    R h (final (receiveBlock E blocksize buf h)) := by
  unfold LpcTools.receiveBlock
  refine F.bind (F.read _ _ h) ?_
  rintro ⟨len, got⟩ h₁ -
  by_cases hlen : len ≤ 0
  · simp only [if_pos hlen]
    exact F.refl h₁
  · simp only [if_neg hlen]
    refine F.bind (F.read _ _ h₁) ?_
    rintro ⟨more, got'⟩ h₂ -
    by_cases hmore : len + more < 0
    · simp only [if_pos hmore]
      exact F.refl h₂
    · simp only [if_neg hmore]
      exact F.refl h₂

theorem decodeBlock (room blocksize : ℕ) (buf : List UInt8) (h : Host σ) :
    R h (final (decodeBlock room blocksize buf h)) := by
  unfold LpcTools.decodeBlock
  refine F.bind (F.emit _ _ rfl) fun _ h₁ _ => ?_
  rcases ispUuDecode (Mem.of buf) room (UInt32.ofNat blocksize) with _ | ⟨ret, decoded⟩
  · exact F.refl h₁
  · rcases Decimal.strtoul 10 (buf.drop blocksize) with _ | ⟨received, rest⟩ <;> exact F.refl h₁

theorem acknowledged (decoded : List UInt8) (h : Host σ) : R h (h.acknowledged decoded) :=
  F.trans (F.counters h 0 h.resendRequestedForBlock) (F.emit _ _ rfl)

theorem damaged (h : Host σ) : R h h.damaged :=
  F.counters h (h.resendRequestForBlock + 1) h.resendRequestedForBlock

theorem answerBlock (l : ReceiveLocals) (decoded : List UInt8) (correct : Bool) (h : Host σ) :
    R h (final (answerBlock E l decoded correct h)) := by
  unfold LpcTools.answerBlock
  rcases correct with _ | _
  · simp only [Bool.false_eq_true, if_false]
    refine F.bind (F.damaged h) fun _ h₁ _ => ?_
    rw [bind_ok (get_apply _)]
    by_cases hc : 3 < h₁.resendRequestForBlock
    · rw [if_pos hc]
      exact F.refl h₁
    · rw [if_neg hc]
      refine F.bind (F.write _ h₁) fun n h₂ _ => ?_
      split_ifs <;> exact F.refl h₂
  · simp only [if_true]
    refine F.bind (F.acknowledged decoded h) fun _ h₁ _ => F.bind (F.write _ h₁) fun n h₂ _ => ?_
    by_cases hn : n ≠ dataBlockOk.length
    · rw [if_pos hn]
      exact F.refl h₂
    · rw [if_neg hn]
      exact F.bind (F.emit h₂ (.acked decoded) rfl) fun _ h₃ _ => F.refl h₃

theorem receiveTurn (count blocks : UInt32) (l : ReceiveLocals) (h : Host σ) :
    R h (final (receiveTurn E count blocks l h)) := by
  unfold LpcTools.receiveTurn
  by_cases hi : l.i < blocks
  · rw [if_pos hi]
    refine F.bind (F.receiveBlock _ _ h) fun received h₁ _ => ?_
    rcases received with _ | buf
    · exact F.refl h₁
    · refine F.bind (F.decodeBlock _ _ _ h₁) ?_
      rintro ⟨decoded, correct⟩ h₂ -
      exact F.answerBlock _ _ _ h₂
  · rw [if_neg hi]
    exact F.refl h

theorem receiveLoop (count blocks : UInt32) (l : ReceiveLocals) (h : Host σ) :
    R h (final ((receiveLoop E count blocks).run l h)) :=
  Loop.run_final (R := R) F.trans (F.receiveTurn count blocks) l h

theorem takeReply (l : SendLocals) (datasize : UInt32) (repbuf : List UInt8) (h : Host σ) :
    R h (final (takeReply l datasize repbuf h)) := by
  unfold LpcTools.takeReply
  by_cases hok : repbuf.take dataBlockOk.length = dataBlockOk
  · rw [if_pos hok]
    exact F.trans (F.counters h h.resendRequestForBlock 0) (F.emit _ _ rfl)
  · rw [if_neg hok]
    have hrefused : R h h.refused :=
      F.trans (F.counters h h.resendRequestForBlock (h.resendRequestedForBlock + 1)) (F.emit _ _ rfl)
    refine F.bind hrefused fun _ h₁ _ => ?_
    rw [bind_ok (get_apply _)]
    split_ifs <;> exact F.refl h₁

theorem sendTurn (data : Mem) (count blocks : UInt32) (l : SendLocals) (h : Host σ) :
    R h (final (sendTurn E data count blocks l h)) := by
  unfold LpcTools.sendTurn
  by_cases hi : l.i < blocks
  · rw [if_pos hi]
    refine F.bind (by rw [blockToSend_final]; exact F.refl h) fun text h₁ _ => ?_
    refine F.bind (F.write _ h₁) fun n h₂ _ => ?_
    by_cases hn : n ≠ text.length
    · rw [if_pos hn]
      exact F.refl h₂
    · rw [if_neg hn, bind_ok (uninit_apply _ _ _)]
      refine F.bind (F.read _ _ h₂) ?_
      rintro ⟨len, got⟩ h₃ -
      by_cases hlen : len ≤ 0
      · simp only [if_pos hlen]
        exact F.refl h₃
      · simp only [if_neg hlen]
        exact F.takeReply _ _ _ h₃
  · rw [if_neg hi]
    exact F.refl h

theorem sendLoop (data : Mem) (count blocks : UInt32) (l : SendLocals) (h : Host σ) :
    R h (final ((sendLoop E data count blocks).run l h)) :=
  Loop.run_final (R := R) F.trans (F.sendTurn data count blocks) l h

section Request

variable (hreq : ∀ h text answer, R h (h.emit (.request text answer)))

include hreq

theorem sendRequest (text buf : List UInt8) (readSize : ℕ) (unsent silent quiet : ℤ)
    (h : Host σ) : R h (final (sendRequest E text buf readSize unsent silent quiet h)) := by
  unfold LpcTools.sendRequest
  refine F.bind (F.askStatus _ _ _ _ _ _ h) fun answer h₁ _ => ?_
  exact hreq h₁ text answer

theorem ispSendCmdTwoArgs (cmd : UInt8) (arg1 arg2 : UInt32) (h : Host σ) :
    R h (final (ispSendCmdTwoArgs E cmd arg1 arg2 h)) := by
  unfold LpcTools.ispSendCmdTwoArgs sendFormatted
  rw [final_map, bind_ok (uninit_apply _ _ _)]
  exact F.sendRequest hreq _ _ _ _ _ _ h

theorem ispReadMemory (data : List Cell) (addr count : UInt32) (uu : ℕ) (h : Host σ) :
    R h (final (ispReadMemory E data addr count uu h)) := by
  unfold LpcTools.ispReadMemory
  refine F.bind (F.ispSendCmdTwoArgs hreq _ _ _ h) fun ret h₁ _ => ?_
  by_cases hret : ret ≠ 0
  · rw [if_pos hret]
    exact F.refl h₁
  · rw [if_neg hret]
    by_cases huu : uu = 0
    · rw [if_pos huu]
      exact F.readRaw _ _ h₁
    · rw [if_neg huu, bind_ok (uninit_apply _ _ _)]
      exact F.receiveLoop _ _ _ h₁

end Request

end Frame

section Grows

variable {E : Sys σ} {h h' h'' : Host σ}

/-- Nothing that was logged is lost. -/
def Grows (h h' : Host σ) : Prop := h.log <+: h'.log

theorem Grows.refl (h : Host σ) : Grows h h := List.prefix_rfl

theorem Grows.trans (p : Grows h h') (q : Grows h' h'') : Grows h h'' := List.IsPrefix.trans p q

theorem Grows.emit (h : Host σ) (e : Event) : Grows h (h.emit e) := List.prefix_append _ _

theorem Polled.grows (p : Polled h h') : Grows h h' := by
  obtain ⟨ts, -, hlog⟩ := p.log
  rw [Grows, hlog]
  exact List.prefix_append _ _

theorem Grows.frame (E : Sys σ) : Frame E Grows where
  refl := .refl
  trans := .trans
  write := fun bs h => (ispSerialWrite_polled bs h).grows
  read := fun n m h => (ispSerialRead_polled n m h).grows
  counters := fun h _ _ => .refl h
  emit := fun h e _ => .emit h e

end Grows

end LpcTools
