import LpcTools.Proofs.Answers
import LpcTools.Proofs.DecodeFits
import LpcTools.Proofs.Receiving

/-!
# What `isp_read_memory` leaves, whatever it receives

A block is decoded before it is judged, so a text that does not fit is decoded as well. As long as
all that is received fits, the data starts with the bytes taken so far: those acknowledged, and the
last block if its acknowledgement could not be sent.
-/

namespace LpcTools

open Run Decimal Uuencode

def Event.taken : Event → Option (List UInt8)
  | .took bs => some bs
  | _ => none

def Event.acknowledged : Event → Option (List UInt8)
  | .acked bs => some bs
  | _ => none

/-- The bytes received: in a block, with the right checksum. -/
def tookBytes (log : List Event) : List UInt8 := (log.filterMap Event.taken).flatten

/-- Those of them whose acknowledgement has been sent. -/
def ackedBytes (log : List Event) : List UInt8 := (log.filterMap Event.acknowledged).flatten

section Bytes

variable {σ : Type}

@[simp] theorem tookBytes_append (a b : List Event) :
    tookBytes (a ++ b) = tookBytes a ++ tookBytes b := by
  simp [tookBytes]

@[simp] theorem ackedBytes_append (a b : List Event) :
    ackedBytes (a ++ b) = ackedBytes a ++ ackedBytes b := by
  simp [ackedBytes]

theorem tookBytes_seen (h : Host σ) : tookBytes h.seen = tookBytes h.log := by
  rw [tookBytes, Host.filterMap_seen, tookBytes]
  rintro (_ | _ | _ | _ | _ | _ | _ | _ | _) he <;> first | rfl | cases he

theorem ackedBytes_seen (h : Host σ) : ackedBytes h.seen = ackedBytes h.log := by
  rw [ackedBytes, Host.filterMap_seen, ackedBytes]
  rintro (_ | _ | _ | _ | _ | _ | _ | _ | _) he <;> first | rfl | cases he

end Bytes

/-- The receive buffers handed to the decoder are as long as they should be, and decodable. -/
def Fitting (log : List Event) : Prop :=
  ∀ buf blocksize room, .received buf blocksize room ∈ log → BlockFits buf blocksize room

def Buffered (log : List Event) : Prop :=
  ∀ buf blocksize room, .received buf blocksize room ∈ log → buf.length = serialBufsize

theorem Fitting.append {a b : List Event} (ha : Fitting a) (hb : Fitting b) : Fitting (a ++ b) :=
  fun _ _ _ hm => (List.mem_append.1 hm).elim (ha _ _ _) (hb _ _ _)

theorem Buffered.append {a b : List Event} (ha : Buffered a) (hb : Buffered b) : Buffered (a ++ b) :=
  fun _ _ _ hm => (List.mem_append.1 hm).elim (ha _ _ _) (hb _ _ _)

variable {σ : Type} {E : Sys σ} {h : Host σ}

/-- Between two blocks. -/
structure Receiving (count : ℕ) (l : ReceiveLocals) (log : List Event) : Prop where
  length : l.data.length = count
  buf : l.buf.length = serialBufsize
  total : l.totalBytesReceived.toNat = (ackedBytes log).length
  fits : (ackedBytes log).length ≤ count
  data : l.data.take (ackedBytes log).length = (ackedBytes log).map some
  took : tookBytes log = ackedBytes log
  fitting : Fitting log
  buffered : Buffered log

/-- At the end of a transfer. -/
structure Received (count : ℕ) (r : ℤ × List Cell) (log : List Event) : Prop where
  len : r.1 = toInt (ackedBytes log).length
  length : r.2.length = count
  acked : ackedBytes log <+: tookBytes log
  fits : (tookBytes log).length ≤ count
  data : r.2.take (tookBytes log).length = (tookBytes log).map some
  fitting : Fitting log
  buffered : Buffered log

/-- A text that does not fit has been handed to the decoder. -/
def Misfit (f : Fault) (h : Host σ) : Prop := f = .transfer ∧ ¬ Fitting h.seen ∧ Buffered h.seen

theorem Receiving.result {count : ℕ} {l : ReceiveLocals} {log : List Event}
    (R : Receiving count l log) : Received count l.result log where
  len := congrArg toInt R.total
  length := R.length
  acked := by simp [R.took]
  fits := by
    rw [R.took]
    exact R.fits
  data := by
    rw [R.took]
    exact R.data
  fitting := R.fitting
  buffered := R.buffered

theorem getRemainingBlocksize_le (count total : UInt32) : getRemainingBlocksize count total ≤ 1260 := by
  unfold getRemainingBlocksize maxDataBlockSize maxBytesPerLine linesPerBlock lineDataLength
  simp only []
  split_ifs <;> omega

theorem receiveBlock_ends {blocksize : ℕ} {buf : List UInt8} (hbs : blocksize ≤ 1260)
    (hbuf : buf.length = serialBufsize) (h0 : h.nextReadChar = 0) :
    Ends (receiveBlock E blocksize buf h) (fun r h' => h'.nextReadChar = 0 ∧ h'.seen = h.seen ∧
      ∀ buf', r = some buf' → buf'.length = serialBufsize) (fun _ _ => False) := by
  have hsize : serialBufsize = 1300 := rfl
  unfold receiveBlock
  obtain ⟨len, got, h₁, hread, hgot, hnext, hlen⟩ := ispSerialRead_spec (E := E)
    (show blocksize ≤ serialBufsize by omega) h0
  have hseen := (ispSerialRead_polled (E := E) serialBufsize blocksize h).seen
  rw [hread] at hseen
  rw [bind_ok hread]
  by_cases hpos : len ≤ 0
  · simp only [if_pos hpos]
    exact ⟨hnext, hseen, fun _ he => by cases he⟩
  · obtain rfl : len = got.length := by
      rcases hlen with rfl | ⟨-, hle, -⟩
      · exact toInt_of_lt (by omega)
      · omega
    simp only [if_neg hpos, Int.toNat_natCast]
    have hmin : (if (blocksize : ℤ) < (got.length : ℤ) then 0 else 3) ≤ serialBufsize - got.length := by
      split_ifs <;> omega
    obtain ⟨more, got', h₂, hread', hgot', hnext', -⟩ := ispSerialRead_spec (E := E) hmin hnext
    have hseen' := (ispSerialRead_polled (E := E) (serialBufsize - got.length)
      (if (blocksize : ℤ) < (got.length : ℤ) then 0 else 3) h₁).seen
    rw [hread'] at hseen'
    rw [bind_ok hread']
    by_cases hmore : (got.length : ℤ) + more < 0
    · simp only [if_pos hmore]
      exact ⟨hnext', hseen'.trans hseen, fun _ he => by cases he⟩
    · simp only [if_neg hmore]
      refine ⟨hnext', hseen'.trans hseen, ?_⟩
      intro buf' he
      cases he
      have hfirst : (overlay buf 0 got).length = buf.length := overlay_length (by omega)
      rw [overlay_length (by omega), hfirst, hbuf]

theorem decodeBlock_ends {room blocksize : ℕ} {buf : List UInt8} (hbs : blocksize ≤ 1260)
    (hbuf : buf.length = serialBufsize) (hlong : Buffered h.seen) :
    Ends (decodeBlock room blocksize buf h) (fun r h' => BlockFits buf blocksize room ∧
      r.1.length ≤ room ∧ h' = h.emit (.received buf blocksize room)) Misfit := by
  have hsize : serialBufsize = 1300 := rfl
  have hseen : (h.emit (.received buf blocksize room)).seen = h.seen ++ [.received buf blocksize room] :=
    Host.seen_emit rfl
  have hmem : .received buf blocksize room ∈ (h.emit (.received buf blocksize room)).seen := by
    rw [hseen]
    simp
  have hbuffered : Buffered (h.emit (.received buf blocksize room)).seen := by
    rw [hseen]
    refine hlong.append fun _ _ _ hm => ?_
    cases List.mem_singleton.1 hm
    exact hbuf
  have hsome : (decodeLines (Mem.of buf) blocksize room 0 []).isSome ↔
      LinesFit buf blocksize room 0 := decodeLines_isSome (by omega) (Nat.zero_le room)
  have hmod : (UInt32.ofNat blocksize).toNat = blocksize := by
    rw [UInt32.toNat_ofNat']
    omega
  unfold decodeBlock
  refine Ends.bind_ok (emit_apply _ _) ?_
  rw [ispUuDecode, hmod]
  rcases hdec : decodeLines (Mem.of buf) blocksize room 0 [] with _ | out
  · refine ⟨rfl, fun hf => ?_, hbuffered⟩
    have := hsome.2 (hf _ _ _ hmem).1
    rw [hdec] at this
    cases this
  · rcases hnum : strtoul 10 (buf.drop blocksize) with _ | ⟨received, rest⟩
    · refine ⟨rfl, fun hf => ?_, hbuffered⟩
      have := (hf _ _ _ hmem).2
      rw [hnum] at this
      cases this
    · refine ⟨⟨hsome.1 (by rw [hdec]; rfl), by rw [hnum]; rfl⟩, ?_, rfl⟩
      exact decodeLines_length (by simp) hdec

section Block

variable {count : UInt32} {l : ReceiveLocals} {log : List Event} {decoded buf : List UInt8}
  {blocksize : ℕ}

/-- A block is stored behind those before it. -/
theorem Receiving.stored (R : Receiving count.toNat l log) (hbuf : buf.length = serialBufsize)
    (hroom : decoded.length ≤ l.data.length - l.totalBytesReceived.toNat) {room : ℕ}
    (hfit : BlockFits buf blocksize room) :
    Receiving count.toNat ⟨l.i, l.totalBytesReceived,
      overlay l.data l.totalBytesReceived.toNat (decoded.map some), buf⟩
      (log ++ [.received buf blocksize room]) := by
  have hlen := R.length
  have htotal := R.total
  have hle := R.fits
  have hacked : ackedBytes (log ++ [.received buf blocksize room]) = ackedBytes log := by
    rw [ackedBytes_append]
    exact List.append_nil _
  refine ⟨?_, hbuf, by rw [hacked, htotal], by rwa [hacked], ?_, ?_, ?_, ?_⟩
  · rw [overlay_length (by rw [List.length_map]; omega), hlen]
  · rw [hacked, htotal, take_overlay (by omega), R.data]
  · rw [hacked, tookBytes_append, R.took]
    exact List.append_nil _
  · refine R.fitting.append fun _ _ _ hm => ?_
    cases List.mem_singleton.1 hm
    exact hfit
  · refine R.buffered.append fun _ _ _ hm => ?_
    cases List.mem_singleton.1 hm
    exact hbuf

/-- With the block at the end of the data counted, and with its acknowledgement counted too. -/
theorem Receiving.taken (R : Receiving count.toNat l log)
    (hfits : (ackedBytes log).length + decoded.length ≤ count.toNat)
    (hdata : l.data.take ((ackedBytes log).length + decoded.length) =
      (ackedBytes log ++ decoded).map some) :
    Received count.toNat l.result (log ++ [.took decoded]) ∧
    Receiving count.toNat ⟨l.i + 1, l.totalBytesReceived + UInt32.ofNat decoded.length, l.data,
      l.buf⟩ (log ++ [.took decoded, .acked decoded]) := by
  have hcount := count.toNat_lt
  have htook : tookBytes [.took decoded] = decoded := List.append_nil _
  have hacked : ackedBytes [.took decoded] = [] := rfl
  have htook₂ : tookBytes [.took decoded, .acked decoded] = decoded := List.append_nil _
  have hacked₂ : ackedBytes [.took decoded, .acked decoded] = decoded := List.append_nil _
  have hnone : ∀ es : List Event, es = [.took decoded] ∨ es = [.took decoded, .acked decoded] →
      ∀ buf blocksize room, .received buf blocksize room ∉ es := by
    rintro es (rfl | rfl) buf blocksize room hm <;> simp at hm
  constructor
  · refine ⟨?_, R.length, ?_, ?_, ?_, ?_, ?_⟩
    · rw [ackedBytes_append, hacked, List.append_nil]
      exact R.result.len
    · rw [ackedBytes_append, tookBytes_append, hacked, R.took, List.append_nil]
      exact List.prefix_append _ _
    · rw [tookBytes_append, R.took, htook, List.length_append]
      exact hfits
    · rw [tookBytes_append, R.took, htook, List.length_append]
      exact hdata
    · exact R.fitting.append fun _ _ _ hm => absurd hm (hnone _ (.inl rfl) _ _ _)
    · exact R.buffered.append fun _ _ _ hm => absurd hm (hnone _ (.inl rfl) _ _ _)
  · refine ⟨R.length, R.buf, ?_, ?_, ?_, ?_, ?_, ?_⟩
    · rw [ackedBytes_append, hacked₂, List.length_append, UInt32.toNat_add, UInt32.toNat_ofNat',
        R.total]
      omega
    · rw [ackedBytes_append, hacked₂, List.length_append]
      exact hfits
    · rw [ackedBytes_append, hacked₂, List.length_append]
      exact hdata
    · rw [tookBytes_append, ackedBytes_append, R.took, htook₂, hacked₂]
    · exact R.fitting.append fun _ _ _ hm => absurd hm (hnone _ (.inr rfl) _ _ _)
    · exact R.buffered.append fun _ _ _ hm => absurd hm (hnone _ (.inr rfl) _ _ _)

/-- How a turn ends, and so the loop: `I` holds if it goes round again. -/
theorem answerBlock_ends (R : Receiving count.toNat l h.seen) (h0 : h.nextReadChar = 0)
    (hfits : (ackedBytes h.seen).length + decoded.length ≤ count.toNat)
    (hdata : l.data.take ((ackedBytes h.seen).length + decoded.length) =
      (ackedBytes h.seen ++ decoded).map some) (correct : Bool) :
    Ends (answerBlock E l decoded correct h) (fun r h' => Sum.elim
      (fun l' => Receiving count.toNat l' h'.seen ∧ h'.nextReadChar = 0)
      (fun r => Received count.toNat r h'.seen) r) Misfit := by
  obtain ⟨htaken, hacked⟩ := R.taken hfits hdata
  unfold answerBlock
  rcases correct with _ | _
  · simp only [Bool.false_eq_true, if_false]
    refine Ends.bind_ok (modify_apply _ _) (Ends.bind_ok (get_apply _) ?_)
    by_cases hc : 3 < h.damaged.resendRequestForBlock
    · rw [if_pos hc]
      exact R.result
    · rw [if_neg hc]
      obtain ⟨n, h₁, hwrite, hnext⟩ := ispSerialWrite_total (E := E) dataBlockResend h.damaged
      have hseen : h₁.seen = h.seen := by
        have := (ispSerialWrite_polled (E := E) dataBlockResend h.damaged).seen
        rwa [hwrite] at this
      refine Ends.bind_ok hwrite ?_
      by_cases hn : n ≠ dataBlockResend.length
      · rw [if_pos hn]
        refine Ends.pure ?_
        rw [hseen]
        exact R.result
      · rw [if_neg hn]
        refine Ends.pure ?_
        rw [hseen, UInt32.sub_add_cancel]
        exact ⟨R, hnext.trans h0⟩
  · simp only [if_true]
    refine Ends.bind_ok (modify_apply _ _) ?_
    obtain ⟨n, h₁, hwrite, hnext⟩ := ispSerialWrite_total (E := E) dataBlockOk
      (h.acknowledged decoded)
    have hseen : h₁.seen = h.seen ++ [.took decoded] := by
      have := (ispSerialWrite_polled (E := E) dataBlockOk (h.acknowledged decoded)).seen
      rw [hwrite] at this
      exact this.trans (Host.seen_emit rfl)
    refine Ends.bind_ok hwrite ?_
    by_cases hn : n ≠ dataBlockOk.length
    · rw [if_pos hn]
      refine Ends.pure ?_
      rw [hseen]
      exact htaken
    · rw [if_neg hn]
      refine Ends.bind_ok (emit_apply _ _) (Ends.pure ?_)
      rw [Host.seen_emit rfl, hseen, List.append_assoc]
      exact ⟨hacked, hnext.trans h0⟩

theorem receiveTurn_ends {blocks : UInt32} (R : Receiving count.toNat l h.seen)
    (h0 : h.nextReadChar = 0) :
    Ends (receiveTurn E count blocks l h) (fun r h' => Sum.elim
      (fun l' => Receiving count.toNat l' h'.seen ∧ h'.nextReadChar = 0)
      (fun r => Received count.toNat r h'.seen) r) Misfit := by
  have hbs := getRemainingBlocksize_le count l.totalBytesReceived
  unfold receiveTurn
  by_cases hi : l.i < blocks
  · rw [if_pos hi]
    refine Ends.bind ((receiveBlock_ends hbs R.buf h0).mono (fun _ _ hp => hp)
      (fun _ _ hf => hf.elim)) ?_
    rintro (_ | buf) h₁ ⟨hnext, hseen, hlen⟩
    · refine Ends.pure ?_
      rw [hseen]
      exact R.result
    · have hbuf := hlen buf rfl
      rw [← hseen] at R
      refine Ends.bind (decodeBlock_ends hbs hbuf R.buffered) ?_
      rintro ⟨decoded, correct⟩ h₂ ⟨hfit, hroom, rfl⟩
      have hdec := R.stored hbuf hroom hfit
      have htotal := R.total
      have hle := R.fits
      have hdata := R.length
      rw [← Host.seen_emit rfl] at hdec
      have hacked := hdec.total.symm
      have hplace : l.totalBytesReceived.toNat ≤ l.data.length := by omega
      simp only [] at hroom hacked
      refine answerBlock_ends hdec hnext ?_ ?_ correct
      · rw [hacked]
        omega
      · have htake : (overlay l.data l.totalBytesReceived.toNat (decoded.map some)).take
            (l.totalBytesReceived.toNat + (decoded.map some).length) = _ := take_add_overlay hplace
        rw [List.length_map] at htake
        rw [hacked, htake, List.map_append, ← hdec.data, hacked, take_overlay hplace]
  · rw [if_neg hi]
    exact R.result

theorem receiveLoop_ends {blocks : UInt32} (R : Receiving count.toNat l h.seen)
    (h0 : h.nextReadChar = 0) :
    Ends ((receiveLoop E count blocks).run l h) (fun r h' => Received count.toNat r h'.seen) Misfit :=
  Loop.ends (I := fun l h => Receiving count.toNat l h.seen ∧ h.nextReadChar = 0)
    (fun _ _ hI => receiveTurn_ends hI.1 hI.2) ⟨R, h0⟩

end Block

section Raw

/-- What the reads of data that is not uuencoded leave, out of the bytes they gave. -/
structure RawRead (count : ℕ) (data : List Cell) (r : ℤ × List Cell) (got : List UInt8) : Prop where
  fits : got.length ≤ count
  data : r.2 = overlay data 0 (got.map some)
  sign : r.1 = -6 ∨ r.1 = -5 ∨ 0 ≤ r.1 ∧ r.1 ≤ got.length ∧ 0 < got.length
  whole : got.length = count → 0 < count → count < 2 ^ 31 → r.1 = count

/-- Nothing but bytes taken as they are. -/
def Taken (es : List Event) : Prop := ∀ e ∈ es, ∃ bs, e = .took bs

theorem Taken.append {a b : List Event} (ha : Taken a) (hb : Taken b) : Taken (a ++ b) :=
  fun e he => (List.mem_append.1 he).elim (ha e) (hb e)

theorem store_zero {data : List Cell} {new : List UInt8} (hfit : new.length ≤ data.length) :
    store data 0 new h = .ok (overlay data 0 (new.map some)) h := by
  unfold store
  rw [if_neg (by omega)]
  rfl

/-- The length summed up over the two reads is no more than has come, and all of it if all has. -/
theorem sum_of_reads {n m count : ℕ} {more : ℤ} (hpos : 0 < n) (hn : n ≤ count)
    (hcount : count < 2 ^ 32) (hall : (n : ℤ) ≠ toInt count) (hm : m ≤ count - n)
    (hmore : more = toInt m ∨ -1 ≤ more ∧ more ≤ 0 ∧ (m < count - n ∨ m = 0)) :
    (0 ≤ (n : ℤ) + more → (n : ℤ) + more ≤ (n + m : ℕ)) ∧
      (n + m = count → count < 2 ^ 31 → (n : ℤ) + more = count) := by
  have hne : count < 2 ^ 31 → n ≠ count := by
    rintro hlt rfl
    exact hall (toInt_of_lt hlt).symm
  rcases hmore with rfl | ⟨hge, hle, hshort⟩
  · by_cases hlt : m < 2 ^ 31
    · rw [toInt_of_lt hlt]
      omega
    · rw [toInt_of_le (Nat.not_lt.1 hlt) (by omega)]
      omega
  · refine ⟨fun _ => by omega, fun hsum hlt => ?_⟩
    have := hne hlt
    omega

/-- How data that is not uuencoded is read: in one read that gives nothing or everything, or in two. -/
inductive RawReads (E : Sys σ) (count : ℕ) (data : List Cell) (h : Host σ) :
    EStateM.Result Fault (Host σ) (ℤ × List Cell) → Prop where
  | broken {len : ℤ} {got : List UInt8} {h₁ : Host σ}
      (hread : ispSerialRead E count count h = .ok (len, got) h₁) (hseen : h₁.seen = h.seen)
      (hle : got.length ≤ count) (hlen : len ≤ 0)
      (hshort : len = toInt got.length ∨ got.length < count ∨ got.length = 0) :
      RawReads E count data h (.ok (-6, overlay data 0 (got.map some)) (h₁.emit (.took got)))
  | whole {got : List UInt8} {h₁ : Host σ}
      (hread : ispSerialRead E count count h = .ok (got.length, got) h₁) (hseen : h₁.seen = h.seen)
      (hpos : 0 < got.length) (hall : got.length = count) :
      RawReads E count data h (.ok (got.length, overlay data 0 (got.map some)) (h₁.emit (.took got)))
  | two {got got' : List UInt8} {more : ℤ} {h₁ h₂ : Host σ}
      (hread : ispSerialRead E count count h = .ok (got.length, got) h₁) (hpos : 0 < got.length)
      (hlt : got.length < count) (hne : (got.length : ℤ) ≠ toInt count)
      (hread' : ispSerialRead E (count - got.length) (count - got.length) (h₁.emit (.took got))
        = .ok (more, got') h₂) (hle' : got'.length ≤ count - got.length)
      (hmore : more = toInt got'.length ∨
        -1 ≤ more ∧ more ≤ 0 ∧ (got'.length < count - got.length ∨ got'.length = 0))
      (hseen : (h₂.emit (.took got')).seen = h.seen ++ [.took got, .took got']) :
      RawReads E count data h (if 2 ^ 31 ≤ (got.length : ℤ) + more then
          .error .overflow (h₂.emit (.took got'))
        else .ok (if (got.length : ℤ) + more < 0 then -5 else got.length + more,
          overlay data 0 ((got ++ got').map some)) (h₂.emit (.took got')))

theorem readRaw_reads {count : ℕ} {data : List Cell} (hdata : count ≤ data.length)
    (hcount : count < 2 ^ 32) (h0 : h.nextReadChar = 0) : RawReads E count data h (readRaw E data count h) := by
  obtain ⟨len, got, h₁, hread, hgot, hnext, hlen⟩ := ispSerialRead_spec (E := E)
    (Nat.le_refl count) h0
  have hseen : h₁.seen = h.seen := by
    have := (ispSerialRead_polled (E := E) count count h).seen
    rwa [hread] at this
  unfold readRaw
  rw [Run.bind_ok hread]
  simp only []
  rw [Run.bind_ok (emit_apply _ _), Run.bind_ok (store_zero (by omega))]
  by_cases hpos : len ≤ 0
  · rw [if_pos hpos]
    exact .broken hread hseen hgot hpos (hlen.imp_right fun hshort => hshort.2.2)
  · obtain ⟨rfl, hint⟩ : len = got.length ∧ got.length < 2 ^ 31 := by
      rcases hlen with rfl | ⟨-, hle, -⟩
      · rw [toInt] at hpos ⊢
        split_ifs at hpos ⊢ <;> omega
      · omega
    rw [if_neg hpos]
    by_cases hall : (got.length : ℤ) = toInt count
    · rw [if_pos hall]
      refine .whole hread hseen (by omega) ?_
      rw [toInt] at hall
      split_ifs at hall <;> omega
    · rw [if_neg hall]
      simp only [Int.toNat_natCast]
      obtain ⟨more, got', h₂, hread', hgot', -, hmore⟩ := ispSerialRead_spec (E := E)
        (h := h₁.emit (.took got)) (Nat.le_refl (count - got.length)) hnext
      have hseen' : (h₂.emit (.took got')).seen = h.seen ++ [.took got, .took got'] := by
        have := (ispSerialRead_polled (E := E) (count - got.length) (count - got.length)
          (h₁.emit (.took got))).seen
        rw [hread', final_ok, Host.seen_emit rfl, hseen] at this
        rw [Host.seen_emit rfl, this, List.append_assoc]
        rfl
      have hstore : store (overlay data 0 (got.map some)) got.length got' (h₂.emit (.took got')) =
          .ok (overlay data 0 ((got ++ got').map some)) (h₂.emit (.took got')) := by
        have hlen' : (overlay data 0 (got.map some)).length = data.length :=
          overlay_length (by rw [List.length_map]; omega)
        have happ := overlay_append (l := data) (got.map some) (got'.map some)
        rw [List.length_map] at happ
        unfold store
        rw [if_neg (by omega), happ, List.map_append]
        rfl
      have hlt : got.length < count := by
        refine Nat.lt_of_le_of_ne hgot fun heq => hall ?_
        rw [← heq, toInt_of_lt hint]
      have htwo : RawReads E count data h _ :=
        .two hread (by omega) hlt hall hread' hgot' hmore hseen'
      rw [Run.bind_ok hread']
      simp only []
      rw [Run.bind_ok (emit_apply _ _), Run.bind_ok hstore]
      split_ifs at htwo ⊢ <;> exact htwo

theorem tookBytes_one (bs : List UInt8) : tookBytes [.took bs] = bs := List.append_nil _

theorem tookBytes_two (a b : List UInt8) : tookBytes [.took a, .took b] = a ++ b :=
  (tookBytes_append [.took a] [.took b]).trans (by rw [tookBytes_one, tookBytes_one])

theorem Taken.one (bs : List UInt8) : Taken [.took bs] :=
  fun _ he => ⟨bs, List.mem_singleton.1 he⟩

theorem readRaw_ends {count : ℕ} {data : List Cell} (hdata : count ≤ data.length)
    (hcount : count < 2 ^ 32) (h0 : h.nextReadChar = 0) :
    Ends (readRaw E data count h) (fun r h' => ∃ es, Taken es ∧ h'.seen = h.seen ++ es ∧
        RawRead count data r (tookBytes es))
      (fun f h' => f = .overflow ∧ ∃ es, Taken es ∧ h'.seen = h.seen ++ es) := by
  have hreads := readRaw_reads (E := E) hdata hcount h0
  generalize readRaw E data count h = run at hreads ⊢
  rcases hreads with
    @⟨len, got, h₁, hread, hseen, hle, hlen, hshort⟩ | @⟨got, h₁, hread, hseen, hpos, hall⟩ |
    @⟨got, got', more, h₁, h₂, hread, hpos, hlt, hne, hread', hle', hmore, hseen⟩
  · refine ⟨[.took got], .one got, by rw [Host.seen_emit rfl, hseen], ?_⟩
    rw [tookBytes_one]
    refine ⟨hle, rfl, .inl rfl, fun hall hc hlt => ?_⟩
    rcases hshort with rfl | hshort
    · rw [hall, toInt_of_lt hlt] at hlen
      omega
    · omega
  · refine ⟨[.took got], .one got, by rw [Host.seen_emit rfl, hseen], ?_⟩
    rw [tookBytes_one]
    exact ⟨hall.le, rfl, .inr (.inr ⟨by simp, by simp, hpos⟩), fun hall' _ _ => by simp [hall']⟩
  · have htwo : Taken [.took got, .took got'] := (Taken.one got).append (.one got')
    obtain ⟨hsum, hwhole⟩ := sum_of_reads hpos hlt.le hcount hne hle' hmore
    by_cases hover : 2 ^ 31 ≤ (got.length : ℤ) + more
    · rw [if_pos hover]
      exact ⟨rfl, _, htwo, hseen⟩
    · rw [if_neg hover]
      refine ⟨_, htwo, hseen, ?_⟩
      rw [tookBytes_two]
      have hfit : (got ++ got').length ≤ count := by
        rw [List.length_append]
        omega
      have hall : (got ++ got').length = count → count < 2 ^ 31 → (got.length : ℤ) + more = count := by
        rw [List.length_append]
        exact hwhole
      by_cases hneg : (got.length : ℤ) + more < 0
      · simp only [if_pos hneg]
        refine ⟨hfit, rfl, .inr (.inl rfl), fun hall' _ hlt => ?_⟩
        have := hall hall' hlt
        omega
      · simp only [if_neg hneg]
        refine ⟨hfit, rfl, .inr (.inr ⟨Int.not_lt.1 hneg, ?_, ?_⟩), fun hall' _ => hall hall'⟩
        · rw [List.length_append]
          exact hsum (Int.not_lt.1 hneg)
        · rw [List.length_append]
          omega

end Raw

section Memory

variable {data : List Cell} {count : UInt32}

/-- How a call of `isp_read_memory` that returns has gone, if it is the first thing logged. -/
inductive ReadEnds (text : List UInt8) (count uu : ℕ) (data : List Cell) :
    ℤ × List Cell → Host σ → Prop where
  | refused {ret : ℤ} {a : Answer} {h : Host σ} (hne : ret ≠ 0)
      (hrange : -2 ^ 31 ≤ ret ∧ ret < 2 ^ 31) (hret : a.ret = ret)
      (hstatus : 0 ≤ ret → a = .status ret) (hseen : h.seen = [.request text a]) :
      ReadEnds text count uu data (ret, data) h
  | raw {r : ℤ × List Cell} {es : List Event} {h : Host σ} (huu : uu = 0) (htaken : Taken es)
      (hseen : h.seen = .request text (.status 0) :: es) (hr : RawRead count data r (tookBytes es)) :
      ReadEnds text count uu data r h
  | blocks {r : ℤ × List Cell} {h : Host σ} (huu : uu ≠ 0)
      (hoff : h.offLine = [.request text (.status 0)]) (hr : Received count r h.seen) :
      ReadEnds text count uu data r h

/-- A fault that is no access outside the data or the receive buffer. -/
def OtherFault (f : Fault) (h : Host σ) : Prop :=
  f ≠ .transfer ∧ f ≠ .serialBuffer ∧ Fitting h.seen ∧ Buffered h.seen

theorem Fitting.of_forall {es : List Event}
    (hes : ∀ buf blocksize room, .received buf blocksize room ∉ es) : Fitting es ∧ Buffered es :=
  ⟨fun _ _ _ hm => absurd hm (hes _ _ _), fun _ _ _ hm => absurd hm (hes _ _ _)⟩

theorem Taken.not_received {text : List UInt8} {a : Answer} {es : List Event} (hes : Taken es) :
    Fitting (.request text a :: es) ∧ Buffered (.request text a :: es) := by
  refine Fitting.of_forall fun buf blocksize room hm => ?_
  rcases List.mem_cons.1 hm with hm | hm
  · cases hm
  · obtain ⟨bs, he⟩ := hes _ hm
    cases he

/-- The loop over the blocks starts behind the request. -/
theorem Receiving.start (hdata : data.length = count.toNat) {text buf : List UInt8}
    (hbuf : buf.length = serialBufsize) :
    Receiving count.toNat ⟨0, 0, data, buf⟩ [.request text (.status 0)] := by
  have hnone : Fitting [.request text (.status 0)] ∧ Buffered [.request text (.status 0)] :=
    Taken.not_received fun _ hm => by cases hm
  exact ⟨hdata, hbuf, rfl, Nat.zero_le _, rfl, rfl, hnone.1, hnone.2⟩

theorem ReadEnds.fitting {text : List UInt8} {count uu : ℕ} {r : ℤ × List Cell} {h' : Host σ}
    (hr : ReadEnds text count uu data r h') : Fitting h'.seen ∧ Buffered h'.seen := by
  rcases hr with ⟨-, -, -, -, hseen⟩ | ⟨-, htaken, hseen, -⟩ | ⟨-, -, hr⟩
  · rw [hseen]
    exact Taken.not_received fun _ hm => by cases hm
  · rw [hseen]
    exact htaken.not_received
  · exact ⟨hr.fitting, hr.buffered⟩

theorem ispReadMemory_ends (hdata : data.length = count.toNat) (addr : UInt32) (uu : ℕ)
    (hstart : h.seen = []) :
    Ends (ispReadMemory E data addr count uu h)
      (ReadEnds (twoArgsText 'R'.toUInt8 addr.toNat count.toNat) count.toNat uu data)
      (fun f h' => Misfit f h' ∨ OtherFault f h') := by
  unfold ispReadMemory
  refine Ends.bind ((ispSendCmdTwoArgs_ends 'R'.toUInt8 addr count h).mono (fun _ _ hp => hp) ?_) ?_
  · rintro f h₁ ⟨hf, hseen⟩
    right
    have hnil : Fitting ([] : List Event) ∧ Buffered [] := Fitting.of_forall fun _ _ _ hm => by cases hm
    rw [OtherFault, hseen, hstart]
    rcases hf with rfl | rfl <;> exact ⟨by decide, by decide, hnil⟩
  · rintro ret h₁ ⟨hrange, a, hret, hstatus, hseen⟩
    rw [hstart, List.nil_append] at hseen
    by_cases hne : ret ≠ 0
    · rw [if_pos hne]
      exact .refused hne hrange hret (fun hle => (hstatus hle).1) hseen
    · obtain rfl : ret = 0 := not_not.1 hne
      obtain ⟨rfl, hnext⟩ := hstatus (Int.le_refl 0)
      rw [if_neg hne]
      by_cases huu : uu = 0
      · rw [if_pos huu]
        refine (readRaw_ends (Nat.le_of_eq hdata.symm) count.toNat_lt hnext).mono ?_ ?_
        · rintro r h₂ ⟨es, htaken, hseen₂, hr⟩
          exact .raw huu htaken (hseen₂.trans (congrArg (· ++ es) hseen)) hr
        · rintro f h₂ ⟨rfl, es, htaken, hseen₂⟩
          rw [hseen] at hseen₂
          rw [OtherFault, hseen₂]
          exact .inr ⟨by decide, by decide, htaken.not_received⟩
      · rw [if_neg huu]
        refine Ends.bind_ok (uninit_apply _ _ _) ?_
        have hbuf : ((List.range serialBufsize).map (E.stack h₁.env)).length = serialBufsize := by
          rw [List.length_map, List.length_range]
        generalize (List.range serialBufsize).map (E.stack h₁.env) = buf at hbuf ⊢
        have hR : Receiving count.toNat ⟨0, 0, data, buf⟩ h₁.seen := by
          rw [hseen]
          exact .start hdata hbuf
        have hoff := (Host.offLine_frame E).receiveLoop count (getNbBlocks count)
          ⟨0, 0, data, buf⟩ h₁
        have hoff₁ : h₁.offLine =
            [.request (twoArgsText 'R'.toUInt8 addr.toNat count.toNat) (.status 0)] := by
          rw [Host.offLine_seen, hseen]
          rfl
        rw [hoff₁] at hoff
        refine ((receiveLoop_ends hR hnext).and (Ends.of_final (R := fun h' : Host σ => h'.offLine =
          [.request (twoArgsText 'R'.toUInt8 addr.toNat count.toNat) (.status 0)]) hoff)).mono ?_ ?_
        · exact fun r h₂ hr => .blocks huu hr.2 hr.1
        · exact fun f h₂ hf => .inl hf.1

/-- A call of `isp_read_memory` reads and writes outside the data and the receive buffer just if it
hands a text to the decoder that does not fit. -/
theorem ispReadMemory_safe_iff {data : List Cell} {count : UInt32}
    (hdata : data.length = count.toNat) (addr : UInt32) (uu : ℕ) (env : σ) (nextReadChar : UInt8)
    (c c' : ℕ) :
    let run := ispReadMemory E data addr count uu (.start env nextReadChar c c')
    Buffered (final run).log ∧
      (fault run ≠ some .transfer ∧ fault run ≠ some .serialBuffer ↔ Fitting (final run).log) := by
  intro run
  have hends := ispReadMemory_ends (E := E) hdata addr uu (h := .start env nextReadChar c c') rfl
  have hlog : (∀ h : Host σ, Buffered h.seen → Buffered h.log) ∧
      ∀ h : Host σ, Fitting h.seen ↔ Fitting h.log := by
    refine ⟨fun h hb _ _ _ hm => hb _ _ _ ((Host.mem_seen rfl).2 hm), fun h => ⟨?_, ?_⟩⟩
    · exact fun hf _ _ _ hm => hf _ _ _ ((Host.mem_seen rfl).2 hm)
    · exact fun hf _ _ _ hm => hf _ _ _ ((Host.mem_seen rfl).1 hm)
  change Ends run _ _ at hends
  rcases run with ⟨r, h'⟩ | ⟨f, h'⟩
  · obtain ⟨hfit, hbuf⟩ := hends.fitting
    exact ⟨hlog.1 _ hbuf, iff_of_true ⟨by simp, by simp⟩ ((hlog.2 _).1 hfit)⟩
  · rcases hends with ⟨rfl, hfit, hbuf⟩ | ⟨hne, hne', hfit, hbuf⟩
    · exact ⟨hlog.1 _ hbuf, iff_of_false (by simp) (mt (hlog.2 _).2 hfit)⟩
    · exact ⟨hlog.1 _ hbuf, iff_of_true ⟨by simpa using hne, by simpa using hne'⟩ ((hlog.2 _).1 hfit)⟩

/-- Four bytes of ten, in a block with its checksum. -/
def fourTens : List UInt8 := [36, 34, 64, 72, 42, 34, 64, 72, 42, 13, 10, 52, 48, 13, 10]

theorem ispReadMemory_safe_iff_tens :
    let run := ispReadMemory ((scripted fun _ => 100).sys (Sys.plain _)) (.replicate 4 none) 256 4 1
      (.start (.quiet [statusText 0 ++ fourTens]) 0 0 0)
    Buffered (final run).log ∧
      (fault run ≠ some .transfer ∧ fault run ≠ some .serialBuffer ↔ Fitting (final run).log) :=
  ispReadMemory_safe_iff (E := (scripted fun _ => 100).sys (Sys.plain _)) rfl 256 1
    (Wire.quiet [statusText 0 ++ fourTens]) 0 0 0

/-- A line that says it has 94 bytes. -/
theorem ispReadMemory_unsafe :
    fault (ispReadMemory ((scripted fun _ => 100).sys (Sys.plain _)) (.replicate 4 none) 256 4 1
      (.start (.quiet [statusText 0 ++ '~'.toUInt8 :: .replicate 150 'A'.toUInt8]) 0 0 0)) =
      some .transfer := by
  decide +kernel

end Memory

end LpcTools
