import LpcTools.Lib.Alike
import LpcTools.Proofs.Answers
import LpcTools.Proofs.Sending

/-!
# What the transfers see of the system

A system mirrors another if it answers alike to every read, and to every write of something from a
given vocabulary. A run that says nothing else is then the same on both, with states that are still
related at its end. Every function is followed through once, with what it may say as a hypothesis.
-/

namespace LpcTools

open Run Decimal Uuencode

variable {σ τ : Type}

/-- The system `F` answers as `E` does, in states related by `R`, to all that is in the vocabulary
`V`. What is left of a message that is taken in part is in it too. -/
structure Mirrors (E : Sys σ) (F : Sys τ) (R : σ → τ → Prop) (V : List UInt8 → Prop) : Prop where
  read : ∀ {s t n r s'}, R s t → E.read s n = (r, s') → ∃ t', F.read t n = (r, t') ∧ R s' t'
  write : ∀ {s t bs r s'}, R s t → V bs → E.write s bs = (r, s') →
    ∃ t', F.write t bs = (r, t') ∧ R s' t'
  suffix : ∀ {s bs n s'}, V bs → E.write s bs = (.wrote n, s') → n < bs.length → V (bs.drop n)
  stack : ∀ {s t}, R s t → E.stack s = F.stack t
  beyond : ∀ {s t}, R s t → E.beyond s = F.beyond t
  malloc : ∀ {s t}, R s t → E.malloc s = F.malloc t
  openInput : ∀ {s t}, R s t → E.openInput s = F.openInput t
  stdin : ∀ {s t}, R s t → E.stdin s = F.stdin t
  openOutput : ∀ {s t}, R s t → E.openOutput s = F.openOutput t
  save : ∀ {s t}, R s t → E.save s = F.save t
  traceOn : E.traceOn = F.traceOn

/-- Two hosts in related systems, with the same static variables and the same log. -/
structure Twin (R : σ → τ → Prop) (h : Host σ) (k : Host τ) : Prop where
  env : R h.env k.env
  nextReadChar : h.nextReadChar = k.nextReadChar
  request : h.resendRequestForBlock = k.resendRequestForBlock
  requested : h.resendRequestedForBlock = k.resendRequestedForBlock
  log : h.log = k.log

variable {E : Sys σ} {F : Sys τ} {R : σ → τ → Prop} {V : List UInt8 → Prop} {h : Host σ} {k : Host τ}

section Hosts

theorem Twin.of_env (p : Twin R h k) {s : σ} {t : τ} (hst : R s t) :
    Twin R { h with env := s } { k with env := t } :=
  ⟨hst, p.nextReadChar, p.request, p.requested, p.log⟩

theorem Twin.emit (p : Twin R h k) (e : Event) : Twin R (h.emit e) (k.emit e) :=
  ⟨p.env, p.nextReadChar, p.request, p.requested, congrArg (· ++ [e]) p.log⟩

theorem Twin.keep (p : Twin R h k) (c : UInt8) :
    Twin R { h with nextReadChar := c } { k with nextReadChar := c } :=
  ⟨p.env, rfl, p.request, p.requested, p.log⟩

theorem Twin.acknowledged (p : Twin R h k) (decoded : List UInt8) :
    Twin R (h.acknowledged decoded) (k.acknowledged decoded) :=
  ⟨p.env, p.nextReadChar, rfl, p.requested, congrArg (· ++ [Event.took decoded]) p.log⟩

theorem Twin.damaged (p : Twin R h k) : Twin R h.damaged k.damaged :=
  ⟨p.env, p.nextReadChar, congrArg (· + 1) p.request, p.requested, p.log⟩

theorem Twin.accepted (p : Twin R h k) : Twin R h.accepted k.accepted :=
  ⟨p.env, p.nextReadChar, p.request, rfl, congrArg (· ++ [Event.sent true]) p.log⟩

theorem Twin.refused (p : Twin R h k) : Twin R h.refused k.refused :=
  ⟨p.env, p.nextReadChar, p.request, congrArg (· + 1) p.requested,
    congrArg (· ++ [Event.sent false]) p.log⟩

theorem alike_emit {α : Type} {f : Unit → Prog σ α} {g : Unit → Prog τ α} (e : Event)
    (hf : Alike (Twin R) (f () (h.emit e)) (g () (k.emit e))) :
    Alike (Twin R) ((emit e >>= f) h) ((emit e >>= g) k) := by
  rw [bind_ok (emit_apply e h), bind_ok (emit_apply e k)]
  exact hf

end Hosts

theorem length_of_mapM {f : ℕ → Option UInt8} : ∀ {is : List ℕ} {bs : List UInt8},
    is.mapM f = some bs → bs.length = is.length
  | [], _, h => by
    cases h
    rfl
  | i :: is, bs, h => by
    rw [List.mapM_cons] at h
    simp only [Option.bind_eq_bind, Option.bind_eq_some_iff] at h
    obtain ⟨c, -, cs, hcs, hbs⟩ := h
    cases hbs
    rw [List.length_cons, List.length_cons, length_of_mapM hcs]

variable (K : Mirrors E F R V) (p : Twin R h k)

include K p

section Line

theorem alike_uninit (n : ℕ) : Alike (Twin R) (uninit E n h) (uninit F n k) := by
  rw [uninit_apply, uninit_apply, K.stack p.env]
  exact .ok _ p

theorem alike_write {buf : List UInt8} (hbuf : V buf) :
    Alike (Twin R) (ispSerialWrite E buf h) (ispSerialWrite F buf k) := by
  refine Loop.alike (I := fun l => V (buf.drop l.count)) ?_ ?_ (show V (buf.drop 0) from hbuf) p
  · intro l h k hl p
    simp only [serialWriteLoop]
    rcases hw : E.write h.env (buf.drop l.count) with ⟨r, s'⟩
    obtain ⟨t', hw', hst⟩ := K.write p.env hl hw
    rw [hw']
    rcases r with nb | _ | _
    · simp only []
      split_ifs
      · exact .ok _ (p.of_env hst)
      · exact .ok _ (p.of_env hst)
    · simp only []
      split_ifs
      · exact .ok _ ((p.of_env hst).emit _)
      · exact .ok _ (p.of_env hst)
      · exact .ok _ (p.of_env hst)
    · exact .ok _ (p.of_env hst)
  · intro l s l' s' hl hbody
    simp only [serialWriteLoop] at hbody
    rcases hw : E.write s.env (buf.drop l.count) with ⟨nb | _ | _, env⟩ <;> rw [hw] at hbody
    · simp only [] at hbody
      split_ifs at hbody with hlt <;> cases hbody
      have := K.suffix hl hw (by rw [List.length_drop]; omega)
      rwa [List.drop_drop] at this
    · simp only [] at hbody
      split_ifs at hbody <;> cases hbody
      exact hl
    · cases hbody

omit p in
theorem alike_readLoop (n m : ℕ) (l : ReadLocals) {h : Host σ} {k : Host τ} (p : Twin R h k) :
    Alike (Twin R) ((serialReadLoop E n m).run l h) ((serialReadLoop F n m).run l k) := by
  refine Loop.alike (I := fun _ => True) ?_ (fun _ _ _ _ _ _ => trivial) trivial p
  intro l h k _ p
  simp only [serialReadLoop]
  rcases hr : E.read h.env (n - l.got.length) with ⟨r, s'⟩
  obtain ⟨t', hr', hst⟩ := K.read p.env hr
  rw [hr']
  rcases r with bs | _ | _
  · simp only []
    split_ifs
    · exact .ok _ (p.of_env hst)
    · exact .ok _ (p.of_env hst)
  · simp only []
    split_ifs
    · exact .ok _ ((p.of_env hst).emit _)
    · exact .ok _ (p.of_env hst)
  · exact .ok _ (p.of_env hst)

theorem alike_read (n m : ℕ) : Alike (Twin R) (ispSerialRead E n m h) (ispSerialRead F n m k) := by
  unfold ispSerialRead
  rw [← p.nextReadChar]
  split_ifs
  · exact .ok _ p
  · exact alike_readLoop K n m _ p
  · exact .error _ p
  · exact alike_readLoop K n m _ (p.keep 0)

theorem alike_ispRetCode (buf : List UInt8) (quiet : ℤ) :
    Alike (Twin R) (ispRetCode E buf quiet h) (ispRetCode F buf quiet k) := by
  unfold ispRetCode
  rcases strtoul 10 buf with _ | ⟨v, rest⟩
  · exact .throw _ p
  · simp only [K.traceOn]
    split_ifs
    · exact alike_emit _ (.pure _ (p.emit _))
    · rcases errorCodes[v % 2 ^ 32]? with _ | name
      · exact .error _ p
      · exact alike_emit _ (.pure _ (p.emit _))
    · exact .pure _ p
    · exact .pure _ p

end Line

section Requests

theorem alike_sendRequest {text : List UInt8} (htext : V text) (buf : List UInt8) (n : ℕ)
    (unsent silent quiet : ℤ) : Alike (Twin R) (sendRequest E text buf n unsent silent quiet h)
      (sendRequest F text buf n unsent silent quiet k) := by
  unfold sendRequest askStatus
  refine .bind ?_ fun answer _ _ _ q => alike_emit _ (.pure _ (q.emit _))
  refine .bind (alike_write K p htext) fun sent _ _ _ q => .ite (fun _ => .pure _ q) fun _ => ?_
  refine .bind (alike_read K q n 3) ?_
  rintro ⟨len, got⟩ _ _ - q
  exact .ite (fun _ => .pure _ q) fun _ => .map _ (alike_ispRetCode K q _ _)

theorem alike_sendFormatted {text : List UInt8} {size : ℕ} (htext : V text)
    (hlen : text.length < size) (n : ℕ) (unsent silent quiet : ℤ) :
    Alike (Twin R) (sendFormatted E size text n unsent silent quiet h)
      (sendFormatted F size text n unsent silent quiet k) := by
  rw [sendFormatted_eq hlen, sendFormatted_eq hlen, K.stack p.env]
  exact alike_sendRequest K p htext _ n unsent silent quiet

theorem alike_ispSendCmdNoArgs {cmd : List UInt8} (hcmd : V cmd) (quiet : ℤ) :
    Alike (Twin R) (ispSendCmdNoArgs E cmd quiet h) (ispSendCmdNoArgs F cmd quiet k) := by
  unfold ispSendCmdNoArgs
  exact .bind (alike_uninit K p 5) fun buf _ _ _ q => .map _ (alike_sendRequest K q hcmd buf 3 _ _ quiet)

theorem alike_ispSendCmdTwoArgs {cmd : UInt8} {arg1 arg2 : UInt32}
    (htext : V (twoArgsText cmd arg1.toNat arg2.toNat)) :
    Alike (Twin R) (ispSendCmdTwoArgs E cmd arg1 arg2 h) (ispSendCmdTwoArgs F cmd arg1 arg2 k) := by
  have hlen := twoArgsText_length cmd arg1 arg2
  exact .map _ (alike_sendFormatted K p htext (by rw [repBufsize]; omega) _ _ _ _)

theorem alike_ispSendCmdAddress {cmd : UInt8} {addr1 addr2 length : UInt32}
    (htext : V (addressText cmd addr1.toNat addr2.toNat length.toNat)) :
    Alike (Twin R) (ispSendCmdAddress E cmd addr1 addr2 length h)
      (ispSendCmdAddress F cmd addr1 addr2 length k) := by
  have hlen := addressText_length cmd addr1 addr2 length
  exact .map _ (alike_sendFormatted K p htext (by rw [serialBufsize]; omega) _ _ _ _)

theorem alike_ispSendCmdSectors {cmd : UInt8} {first last : ℤ}
    (htext : V (twoArgsText cmd (toUnsigned first).toNat (toUnsigned last).toNat)) (quiet : ℤ) :
    Alike (Twin R) (ispSendCmdSectors E cmd first last quiet h)
      (ispSendCmdSectors F cmd first last quiet k) := by
  have hlen := twoArgsText_length cmd (toUnsigned first) (toUnsigned last)
  unfold ispSendCmdSectors
  refine .ite (fun _ => .pure _ p) fun _ => ?_
  exact .map _ (alike_sendFormatted K p htext (by rw [serialBufsize]; omega) _ _ _ _)

theorem alike_ispSendCmdGo {addr : UInt32} {mode : UInt8} (htext : V (goText addr.toNat mode)) :
    Alike (Twin R) (ispSendCmdGo E addr mode h) (ispSendCmdGo F addr mode k) := by
  have hlen := goText_length addr mode
  unfold ispSendCmdGo
  refine .ite (fun _ => .pure _ p) fun _ => .ite (fun _ => .pure _ p) fun _ => ?_
  refine .bind (alike_sendFormatted K p htext (by rw [serialBufsize]; omega) _ _ _ _) ?_
  intro answer _ _ _ q
  cases answer with
  | failed ret => exact .pure _ q
  | status code => exact .pure _ q

theorem alike_ispCmdUnlock (htext : V unlock) (quiet : ℤ) :
    Alike (Twin R) (ispCmdUnlock E quiet h) (ispCmdUnlock F quiet k) := by
  unfold ispCmdUnlock
  exact .bind (alike_ispSendCmdNoArgs K p htext quiet) fun ret _ _ _ q => .pure _ q

theorem alike_readMore (n m : ℕ) : Alike (Twin R) (readMore E n m h) (readMore F n m k) := by
  unfold readMore
  refine .bind (alike_read K p n m) ?_
  rintro ⟨len, got⟩ _ _ - q
  exact alike_emit _ (.pure _ (q.emit _))

theorem alike_readReply {cmd : List UInt8} (hcmd : V cmd) (quiet : ℤ) (m n : ℕ) (value : List ℕ → ℤ) :
    Alike (Twin R) (readReply E cmd quiet m n value h) (readReply F cmd quiet m n value k) := by
  unfold readReply
  refine .bind (alike_uninit K p repBufsize) fun buf _ _ _ q => ?_
  refine .bind (alike_ispSendCmdNoArgs K q hcmd quiet) fun ret _ _ _ q => .ite (fun _ => .pure _ q) fun _ => ?_
  refine .bind (alike_readMore K q repBufsize m) ?_
  rintro ⟨len, got⟩ _ _ - q
  refine .ite (fun _ => .pure _ q) fun _ => ?_
  rcases readNumbers n (overlay buf 0 got) with _ | vs
  · exact .throw _ q
  · exact .pure _ q

end Requests

section Reading

omit K in
theorem alike_store (data : List Cell) (n : ℕ) (new : List UInt8) :
    Alike (Twin R) ((store data n new : Prog σ _) h) ((store data n new : Prog τ _) k) := by
  unfold store
  exact .ite (fun _ => .throw _ p) fun _ => .pure _ p

theorem alike_readRaw (data : List Cell) (count : ℕ) :
    Alike (Twin R) (readRaw E data count h) (readRaw F data count k) := by
  unfold readRaw
  refine .bind (alike_read K p count count) ?_
  rintro ⟨len, got⟩ _ _ - q
  refine alike_emit _ (.bind (alike_store (q.emit _) _ _ _) fun data _ _ _ q => ?_)
  refine .ite (fun _ => .pure _ q) fun _ => .ite (fun _ => .pure _ q) fun _ => ?_
  refine .bind (alike_read K q _ _) ?_
  rintro ⟨more, got'⟩ _ _ - q
  refine alike_emit _ ?_
  refine .bind (alike_store (q.emit _) _ _ _) fun data _ _ _ q => .ite (fun _ => .throw _ q) fun _ => ?_
  exact .ite (fun _ => .pure _ q) fun _ => .pure _ q

theorem alike_receiveBlock (blocksize : ℕ) (buf : List UInt8) :
    Alike (Twin R) (receiveBlock E blocksize buf h) (receiveBlock F blocksize buf k) := by
  unfold receiveBlock
  refine .bind (alike_read K p _ _) ?_
  rintro ⟨len, got⟩ _ _ - q
  refine .ite (fun _ => .pure _ q) fun _ => .bind (alike_read K q _ _) ?_
  rintro ⟨more, got'⟩ _ _ - q
  exact .ite (fun _ => .pure _ q) fun _ => .pure _ q

omit K in
theorem alike_decodeBlock (room blocksize : ℕ) (buf : List UInt8) :
    Alike (Twin R) ((decodeBlock room blocksize buf : Prog σ _) h)
      ((decodeBlock room blocksize buf : Prog τ _) k) := by
  unfold decodeBlock
  refine alike_emit _ ?_
  rcases ispUuDecode (Mem.of buf) room (UInt32.ofNat blocksize) with _ | ⟨ret, out⟩
  · exact .throw _ (p.emit _)
  · rcases strtoul 10 (buf.drop blocksize) with _ | ⟨received, rest⟩
    · exact .throw _ (p.emit _)
    · exact .pure _ (p.emit _)

/-- The acknowledgements of a transfer from the device. -/
def Acknowledges (V : List UInt8 → Prop) : Prop := V dataBlockOk ∧ V dataBlockResend

theorem alike_answerBlock (hack : Acknowledges V) (l : ReceiveLocals) (decoded : List UInt8)
    (correct : Bool) : Alike (Twin R) (answerBlock E l decoded correct h)
      (answerBlock F l decoded correct k) := by
  unfold answerBlock
  refine .ite (fun _ => ?_) fun _ => ?_
  · refine .bind (.modify (p.acknowledged decoded)) fun _ _ _ _ q => ?_
    refine .bind (alike_write K q hack.1) fun n _ _ _ q => .ite (fun _ => .pure _ q) fun _ => ?_
    exact alike_emit _ (.pure _ (q.emit _))
  · refine .bind (.modify p.damaged) fun _ _ _ _ q => .get ?_
    rw [q.request]
    refine .ite (fun _ => .pure _ q) fun _ => .bind (alike_write K q hack.2) fun n _ _ _ q => ?_
    exact .ite (fun _ => .pure _ q) fun _ => .pure _ q

theorem alike_receiveTurn (hack : Acknowledges V) (count blocks : UInt32) (l : ReceiveLocals) :
    Alike (Twin R) (receiveTurn E count blocks l h) (receiveTurn F count blocks l k) := by
  unfold receiveTurn
  refine .ite (fun _ => ?_) fun _ => .pure _ p
  refine .bind (alike_receiveBlock K p _ _) fun r _ _ _ q => ?_
  rcases r with _ | buf
  · exact .pure _ q
  · refine .bind (alike_decodeBlock q _ _ _) ?_
    rintro ⟨decoded, correct⟩ _ _ - q
    exact alike_answerBlock K q hack _ _ _

theorem alike_ispReadMemory (hack : Acknowledges V) {addr count : UInt32}
    (htext : V (twoArgsText 'R'.toUInt8 addr.toNat count.toNat)) (data : List Cell) (uu : ℕ) :
    Alike (Twin R) (ispReadMemory E data addr count uu h) (ispReadMemory F data addr count uu k) := by
  unfold ispReadMemory
  refine .bind (alike_ispSendCmdTwoArgs K p htext) fun ret _ _ _ q => .ite (fun _ => .pure _ q) fun _ => ?_
  refine .ite (fun _ => alike_readRaw K q data _) fun _ => ?_
  refine .bind (alike_uninit K q _) fun buf _ _ _ q => ?_
  exact Loop.alike (I := fun _ => True) (fun l _ _ _ q => alike_receiveTurn K q hack count _ l)
    (fun _ _ _ _ _ _ => trivial) trivial q

end Reading

section Sending

/-- The texts of the blocks that are sent. -/
def SaysBlocks (E : Sys σ) (V : List UInt8 → Prop) : Prop :=
  ∀ (data : Mem) (n : UInt32) (h : Host σ) (text : List UInt8), n.toNat ≤ 900 →
    blockToSend E data n h = .ok text h → V text

theorem alike_blockToSend (data : Mem) (n : UInt32) :
    Alike (Twin R) (blockToSend E data n h) (blockToSend F data n k) := by
  unfold blockToSend
  refine .bind (alike_uninit K p _) fun buf _ _ _ q => ?_
  rcases ispUuEncode data n with _ | ⟨ret, text⟩
  · exact .throw _ q
  · rcases (List.range n.toNat).mapM data with _ | bs
    · exact .throw _ q
    · exact .ite (fun _ => .throw _ q) fun _ => .pure _ q

omit K in
theorem alike_takeReply (l : SendLocals) (datasize : UInt32) (repbuf : List UInt8) :
    Alike (Twin R) ((takeReply l datasize repbuf : Prog σ _) h)
      ((takeReply l datasize repbuf : Prog τ _) k) := by
  unfold takeReply
  refine .ite (fun _ => ?_) fun _ => ?_
  · exact .bind (.modify p.accepted) fun _ _ _ _ q => .pure _ q
  · refine .bind (.modify p.refused) fun _ _ _ _ q => .get ?_
    rw [q.requested]
    exact .ite (fun _ => .pure _ q) fun _ => .pure _ q

theorem alike_sendTurn (hblocks : SaysBlocks E V) (data : Mem) (count blocks : UInt32)
    (l : SendLocals) :
    Alike (Twin R) (sendTurn E data count blocks l h) (sendTurn F data count blocks l k) := by
  unfold sendTurn
  refine .ite (fun _ => ?_) fun _ => .pure _ p
  refine .bind (alike_blockToSend K p _ _) fun text h₁ _ htext q => ?_
  obtain rfl := blockToSend_eq_ok htext
  have hsize : (min (count - l.totalBytesSent) (UInt32.ofNat maxDataBlockSize)).toNat ≤ 900 := by
    rw [UInt32.toNat_min]
    exact Nat.min_le_right _ _
  refine .bind (alike_write K q (hblocks _ _ _ _ hsize htext)) fun n _ _ _ q => .ite (fun _ => .pure _ q) fun _ => ?_
  refine .bind (alike_uninit K q _) fun repbuf _ _ _ q => .bind (alike_read K q _ _) ?_
  rintro ⟨len, got⟩ _ _ - q
  exact .ite (fun _ => .pure _ q) fun _ => alike_takeReply q _ _ _

theorem alike_ispSendBufToRam {addr : ℕ} {count : UInt32} {uu : ℕ}
    (htext : V (twoArgsText 'W'.toUInt8 (UInt32.ofNat addr).toNat count.toNat))
    (hblocks : uu ≠ 0 → SaysBlocks E V)
    (hraw : uu = 0 → ∀ bs : List UInt8, bs.length = count.toNat → V bs) (data : Mem) :
    Alike (Twin R) (ispSendBufToRam E data addr count uu h) (ispSendBufToRam F data addr count uu k) := by
  unfold ispSendBufToRam
  refine .bind (alike_ispSendCmdTwoArgs K p htext) fun ret _ _ _ q => .ite (fun _ => .pure _ q) fun _ => ?_
  refine .ite (fun huu => ?_) fun huu => ?_
  · rcases hbs : (List.range count.toNat).mapM data with _ | bs
    · exact .throw _ q
    · have hlen : bs.length = count.toNat := by
        rw [length_of_mapM hbs, List.length_range]
      refine .bind (alike_write K q (hraw huu bs hlen)) fun n _ _ _ q => ?_
      exact alike_emit _ (.pure _ (q.emit _))
  · exact Loop.alike (I := fun _ => True) (fun l _ _ _ q => alike_sendTurn K q (hblocks huu) data count _ l)
      (fun _ _ _ _ _ _ => trivial) trivial q

end Sending

end LpcTools
