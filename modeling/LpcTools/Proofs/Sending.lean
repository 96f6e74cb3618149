import LpcTools.Transfer
import LpcTools.Proofs.Requests
import LpcTools.Proofs.UuCodec

/-!
# The blocks `isp_send_buf_to_ram` sends

A transmission carries the block whose number is the count of replies the sender took for an
acceptance so far. What the device does is a parameter here: a property of the host and the line that
every exchange of a block and a reply keeps.
-/

namespace LpcTools

open Run Decimal Uuencode

def checksum (bs : List UInt8) : ℕ := (bs.map UInt8.toNat).sum

theorem foldl_checksum : ∀ (bs : List UInt8) (sum : UInt32),
    (bs.foldl (fun sum c => sum + UInt32.ofNat c.toNat) sum).toNat =
      (sum.toNat + checksum bs) % 2 ^ 32
  | [], sum => by
    rw [List.foldl_nil, checksum, List.map_nil, List.sum_nil, Nat.add_zero,
      Nat.mod_eq_of_lt sum.toNat_lt]
  | c :: bs, sum => by
    rw [List.foldl_cons, foldl_checksum bs, UInt32.toNat_add, UInt32.toNat_ofNat', checksum,
      checksum, List.map_cons, List.sum_cons]
    omega

theorem calcChecksum_toNat (bs : List UInt8) :
    (calcChecksum bs).toNat = checksum bs % 2 ^ 32 := by
  rw [calcChecksum, foldl_checksum, UInt32.toNat_zero, Nat.zero_add]

theorem checksum_le (bs : List UInt8) : checksum bs ≤ 255 * bs.length := by
  induction bs with
  | nil => exact Nat.le_refl 0
  | cons c bs ih =>
    have hc := c.toNat_lt
    simp only [checksum, List.map_cons, List.sum_cons, List.length_cons] at ih ⊢
    omega

/-- The text is the encoding of `bs` followed by the decimal sum of its bytes. -/
def Carries (text bs : List UInt8) : Prop := ∃ enc : List UInt8,
  text = enc ++ (decimal (checksum bs) ++ crlf) ∧ enc.length = textLength bs.length ∧
  ∀ (after : ℕ → UInt8) (room : ℕ), bs.length ≤ room →
    ispUuDecode (Mem.followed enc after) room (UInt32.ofNat enc.length) =
      some (toInt bs.length, bs)

/-- The size of block `b`. -/
def blockSize (count b : ℕ) : ℕ := min (count - 900 * b) 900

def block (m : ℕ → UInt8) (count b : ℕ) : List UInt8 := slice m (900 * b) (blockSize count b)

def nbBlocks (count : ℕ) : ℕ := (count + 899) / 900

/-- Rounding up, as the code does it. -/
theorem toNat_div_up (n : UInt32) {d : ℕ} (hd : 1 < d) (hd' : d < 2 ^ 32) :
    (n / UInt32.ofNat d + if n % UInt32.ofNat d ≠ 0 then 1 else 0).toNat =
      (n.toNat + (d - 1)) / d := by
  have hlt := n.toNat_lt
  have hd0 : (UInt32.ofNat d).toNat = d := UInt32.toNat_ofNat_of_lt' hd'
  have hdiv := Nat.div_add_mod n.toNat d
  have hmod : n % UInt32.ofNat d ≠ 0 ↔ n.toNat % d ≠ 0 := by
    rw [Ne, ← UInt32.toNat_inj, UInt32.toNat_mod, hd0, UInt32.toNat_zero]
  have hsmall : n.toNat / d < 2 ^ 31 :=
    Nat.div_lt_of_lt_mul (by rw [Nat.mul_comm]; exact Nat.lt_of_lt_of_le hlt (by omega))
  have hlt' := Nat.mod_lt n.toNat (show 0 < d by omega)
  rw [UInt32.toNat_add, UInt32.toNat_div, hd0]
  symm
  by_cases h : n.toNat % d = 0
  · rw [if_neg (by rw [hmod]; exact not_not.2 h), UInt32.toNat_zero, Nat.add_zero,
      Nat.mod_eq_of_lt (by omega)]
    refine Nat.div_eq_of_lt_le ?_ ?_
    · rw [Nat.mul_comm]
      omega
    · rw [Nat.succ_mul, Nat.mul_comm]
      omega
  · rw [if_pos (hmod.2 h), UInt32.toNat_one, Nat.mod_eq_of_lt (by omega)]
    refine Nat.div_eq_of_lt_le ?_ ?_
    · rw [Nat.succ_mul, Nat.mul_comm]
      omega
    · rw [Nat.succ_mul, Nat.succ_mul, Nat.mul_comm]
      omega

/-- Blocks in a row are the data from its start on. -/
theorem slice_block (m : ℕ → UInt8) (count b : ℕ) :
    slice m 0 (min (900 * b) count) ++ block m count b =
      slice m 0 (min (900 * (b + 1)) count) := by
  rw [block, blockSize]
  rcases Nat.le_total (900 * b) count with hle | hle
  · rw [Nat.min_eq_left hle, show min (900 * (b + 1)) count = 900 * b + min (count - 900 * b) 900 by
      omega, slice_add, Nat.zero_add]
  · rw [Nat.sub_eq_zero_of_le hle, Nat.min_eq_right hle,
      show min (900 * (b + 1)) count = count by omega]
    simp [slice]

theorem getNbBlocks_toNat (count : UInt32) : (getNbBlocks count).toNat = nbBlocks count.toNat := by
  rw [getNbBlocks, toNat_div_up _ (by decide) (by decide), toNat_div_up _ (by decide) (by decide),
    lineDataLength, linesPerBlock, nbBlocks]
  omega

theorem textLength_le {n : ℕ} (h : n ≤ 900) : textLength n ≤ 1260 := by
  rw [textLength]
  omega

theorem mapM_total (m : ℕ → UInt8) (n : ℕ) :
    (List.range n).mapM (Mem.total m) = some (slice m 0 n) := by
  rw [slice]
  simp only [Nat.zero_add]
  exact List.mapM_pure

theorem mapM_part {data : Mem} {m : ℕ → UInt8} (hdata : ∀ i c, data i = some c → m i = c) :
    ∀ is : List ℕ, is.mapM data = is.mapM (Mem.total m) ∨
      is.mapM data = none ∧ ∃ i ∈ is, data i = none
  | [] => .inl rfl
  | i :: is => by
    rw [List.mapM_cons, List.mapM_cons]
    rcases hc : data i with _ | c
    · exact .inr ⟨rfl, i, List.mem_cons_self, hc⟩
    · have htotal : Mem.total m i = some c := by rw [Mem.total, hdata _ _ hc]
      rw [htotal]
      rcases mapM_part hdata is with heq | ⟨hnone, k, hk, hmem⟩
      · rw [heq]
        exact .inl rfl
      · rw [hnone]
        exact .inr ⟨rfl, k, List.mem_cons_of_mem _ hk, hmem⟩

section BlockToSend

variable {σ : Type} {E : Sys σ}

theorem calcChecksum_of_le {bs : List UInt8} (h : bs.length ≤ 900) :
    (calcChecksum bs).toNat = checksum bs := by
  have := checksum_le bs
  rw [calcChecksum_toNat, Nat.mod_eq_of_lt (by omega)]

theorem decimal_checksum_length {bs : List UInt8} (h : bs.length ≤ 900) :
    (decimal (checksum bs) ++ crlf).length ≤ 8 := by
  have hc := checksum_le bs
  have := decimal_length_le 5 (checksum bs) (by omega)
  rw [List.length_append, show crlf.length = 2 from rfl]
  omega

/-- A block goes out as its text and its checksum, and both fit the buffer. -/
theorem blockToSend_of_text {data : Mem} {n : UInt32} {len : ℤ} {text bs : List UInt8}
    (henc : ispUuEncode data n = some (len, text))
    (hdata : (List.range n.toNat).mapM data = some bs) (hbs : bs.length ≤ 900)
    (htext : text.length ≤ 1260) (h : Host σ) :
    blockToSend E data n h = .ok (text ++ (decimal (checksum bs) ++ crlf)) h := by
  have hsize := decimal_checksum_length hbs
  unfold blockToSend
  rw [bind_ok (uninit_apply _ _ _), henc, hdata]
  simp only [calcChecksum_of_le hbs]
  rw [if_neg (by rw [serialBufsize]; omega)]
  have htake : (decimal (checksum bs) ++ crlf).take 11 = decimal (checksum bs) ++ crlf :=
    List.take_of_length_le (by omega)
  rw [htake, pure_apply, take_overlay_overlay]

theorem blockToSend_total (m : ℕ → UInt8) {n : UInt32} (hn : n.toNat ≤ 900) (h : Host σ) :
    ∃ text, blockToSend E (Mem.total m) n h = .ok text h ∧ text.length ≤ 1268 ∧
      Carries text (slice m 0 n.toNat) := by
  obtain ⟨ls, henc, hstd, hbytes, hlen⟩ := ispUuEncode_total m n
  have hle := textLength_le hn
  have hbs : (slice m 0 n.toNat).length ≤ 900 := by rwa [slice_length]
  have hsize := decimal_checksum_length hbs
  refine ⟨textOf ls ++ (decimal (checksum (slice m 0 n.toNat)) ++ crlf),
    blockToSend_of_text henc (mapM_total m n.toNat) hbs (by omega) h, ?_, textOf ls, rfl,
    by rw [hlen, slice_length], ?_⟩
  · rw [List.length_append]
    omega
  · intro after room hroom
    rw [← hbytes] at hroom ⊢
    refine ispUuDecode_textOf ls (Sees.followed _ after) ?_ (by omega) hroom
    rw [Mem.followed, if_neg (Nat.lt_irrefl _)]
    rfl

/-- With data that can be read in part, the same text goes out, or the run breaks off. -/
theorem blockToSend_part {data : Mem} {m : ℕ → UInt8}
    (hdata : ∀ i c, data i = some c → m i = c) (n : UInt32) (h : Host σ) :
    blockToSend E data n h = blockToSend E (Mem.total m) n h ∨
      blockToSend E data n h = .error .source h ∧ ∃ k < n.toNat + 2, data k = none := by
  unfold blockToSend
  rw [bind_ok (uninit_apply _ _ _), bind_ok (uninit_apply _ _ _), ispUuEncode, ispUuEncode]
  rcases encodeLines_part hdata n.toNat 0 with heq | ⟨hnone, hmem⟩
  · rw [heq]
    rcases mapM_part hdata (List.range n.toNat) with hmap | ⟨hmap, k, hk, hmem⟩
    · rw [hmap]
      exact .inl rfl
    · right
      rw [hmap]
      refine ⟨?_, k, by rw [List.mem_range] at hk; omega, hmem⟩
      rcases encodeLines (Mem.total m) n.toNat 0 <;> rfl
  · right
    rw [hnone]
    exact ⟨rfl, hmem⟩

end BlockToSend

section Turn

variable {δ : Type} {L : Line δ} {O : Sys (Wire δ)} {data : Mem} {count blocks : UInt32}
  {l : SendLocals} {h h₁ : Host (Wire δ)} {text got : List UInt8} {k : ℕ}

/-- The size of the next block, as the code computes it. -/
def SendLocals.datasize (l : SendLocals) (count : UInt32) : UInt32 :=
  min (count - l.totalBytesSent) (UInt32.ofNat maxDataBlockSize)

theorem sendTurn_of_read (data : Mem) (blocks : UInt32) (hi : l.i < blocks)
    (htext : blockToSend (L.sys O) (data.drop l.totalBytesSent.toNat) (l.datasize count) h =
      .ok text h) (hlen : text.length < 2 ^ 31) (hk : k < 2 ^ 31)
    (hread : ispSerialRead (L.sys O) repBufsize 4 (L.told h text) = .ok (toInt k, got) h₁) :
    sendTurn (L.sys O) data count blocks l h =
      if k = 0 then .ok (.inr (-5)) h₁
      else takeReply l (l.datasize count)
        (overlay ((List.range repBufsize).map (O.stack (L.told h text).env)) 0 got) h₁ := by
  unfold sendTurn
  rw [if_pos hi, ← SendLocals.datasize]
  simp only []
  rw [bind_ok htext, bind_ok (Line.ispSerialWrite_sys text h), toInt_of_lt hlen,
    if_neg (not_not.2 rfl), bind_ok (uninit_apply _ _ _), bind_ok hread, toInt_of_lt hk]
  by_cases hk0 : k = 0
  · rw [if_pos hk0]
    simp only [if_pos (show (k : ℤ) ≤ 0 by omega)]
    rfl
  · rw [if_neg hk0]
    simp only [if_neg (show ¬ (k : ℤ) ≤ 0 by omega)]
    rfl

theorem takeReply_of_four {datasize : UInt32} {repbuf : List UInt8} (hgot : 4 ≤ got.length) :
    takeReply l datasize (overlay repbuf 0 got) h₁ =
      if got.take 4 = dataBlockOk then
        .ok (.inl ⟨l.i + 1, l.totalBytesSent + datasize⟩) h₁.accepted
      else if 3 ≤ h₁.refused.resendRequestedForBlock then .ok (.inr (-2)) h₁.refused
      else .ok (.inl l) h₁.refused := by
  have htake : (overlay repbuf 0 got).take dataBlockOk.length = got.take 4 := by
    rw [show dataBlockOk.length = 4 from rfl, overlay, List.take_zero, List.nil_append,
      List.take_append_of_le_length hgot]
  by_cases hok : got.take 4 = dataBlockOk
  · rw [if_pos hok]
    exact takeReply_eq_ok.2 (.inl ⟨htake.trans hok, rfl, rfl⟩)
  · rw [if_neg hok]
    refine (takeReply_eq_ok.2 (.inr ⟨by rwa [htake], rfl, rfl⟩)).trans ?_
    by_cases hc : 3 ≤ h₁.refused.resendRequestedForBlock
    · rw [if_pos hc, if_pos hc]
    · rw [if_neg hc, if_neg hc]

end Turn

/-- The texts of the transmissions so far, `ds` being what the sender took the replies for. -/
structure Transmitted (m : ℕ → UInt8) (count : ℕ) (ds : List Bool) (texts : List (List UInt8)) :
    Prop where
  length : texts.length = ds.length
  carries : ∀ k (hk : k < texts.length),
    Carries texts[k] (block m count ((ds.take k).count true))

theorem Transmitted.snoc {m : ℕ → UInt8} {count : ℕ} {ds : List Bool} {texts : List (List UInt8)}
    {text : List UInt8} (ht : Transmitted m count ds texts)
    (hc : Carries text (block m count (ds.count true))) (d : Bool) :
    Transmitted m count (ds ++ [d]) (texts ++ [text]) := by
  refine ⟨by rw [List.length_append, List.length_append, ht.length]; rfl, fun k hk => ?_⟩
  rw [List.length_append, List.length_singleton] at hk
  by_cases hlt : k < texts.length
  · rw [List.getElem_append_left hlt, List.take_append_of_le_length (by rw [← ht.length]; omega)]
    exact ht.carries k hlt
  · obtain rfl : k = texts.length := by omega
    rwa [List.getElem_concat_length rfl, List.take_left' ht.length.symm]

/-- What the sender took the replies for, in order. -/
def decisions (log : List Event) : List Bool :=
  log.filterMap fun e => match e with
    | .sent accepted => some accepted
    | _ => none

theorem decisions_append (log log' : List Event) :
    decisions (log ++ log') = decisions log ++ decisions log' := List.filterMap_append

theorem decisions_of_polled {σ : Type} {h h' : Host σ} (p : Polled h h') :
    decisions h'.log = decisions h.log := by
  obtain ⟨ts, hts, hlog⟩ := p.log
  have hnone : decisions ts = [] := by
    refine List.filterMap_eq_nil_iff.2 fun e he => ?_
    rw [hts e he]
  rw [hlog, decisions_append, hnone, List.append_nil]

/-- Where the sender stands once it has taken the replies to its transmissions for `ds`. -/
structure Sending {δ : Type} (m : ℕ → UInt8) (count : ℕ) (request : List UInt8) (ds : List Bool)
    (h : Host (Wire δ)) : Prop where
  decided : decisions h.log = ds
  heard : ∃ texts, h.env.heard.map Prod.fst = request :: texts ∧ Transmitted m count ds texts

/-- The locals that go with it. -/
structure SendLocals.At (l : SendLocals) (count : ℕ) (ds : List Bool) : Prop where
  i : l.i.toNat = ds.count true
  total : l.totalBytesSent.toNat = min (900 * ds.count true) count

section Run

variable {δ : Type} {L : Line δ} {O : Sys (Wire δ)} {m : ℕ → UInt8} {count : UInt32}

theorem SendLocals.At.datasize {l : SendLocals} {ds : List Bool} (hl : l.At count.toNat ds)
    (hlt : ds.count true < nbBlocks count.toNat) :
    l.totalBytesSent.toNat = 900 * ds.count true ∧
      (l.datasize count).toNat = blockSize count.toNat (ds.count true) := by
  have htotal := hl.total
  have hcount := count.toNat_lt
  rw [nbBlocks] at hlt
  have h900 : l.totalBytesSent.toNat = 900 * ds.count true := by omega
  refine ⟨h900, ?_⟩
  have hsub : (count - l.totalBytesSent).toNat = count.toNat - 900 * ds.count true := by
    rw [UInt32.toNat_sub_of_le _ _ (by rw [UInt32.le_iff_toNat_le]; omega), h900]
  rw [SendLocals.datasize, blockSize, ← hsub]
  have hmin : min (count - l.totalBytesSent) (UInt32.ofNat maxDataBlockSize) =
    if count - l.totalBytesSent ≤ UInt32.ofNat maxDataBlockSize then count - l.totalBytesSent
    else UInt32.ofNat maxDataBlockSize := rfl
  have hmax : (UInt32.ofNat maxDataBlockSize).toNat = 900 := rfl
  rw [hmin]
  by_cases h : count - l.totalBytesSent ≤ UInt32.ofNat maxDataBlockSize
  · rw [if_pos h]
    rw [UInt32.le_iff_toNat_le, hmax] at h
    omega
  · rw [if_neg h, hmax]
    rw [UInt32.le_iff_toNat_le, hmax] at h
    omega

theorem SendLocals.At.next {l : SendLocals} {ds : List Bool} (hl : l.At count.toNat ds)
    (hlt : ds.count true < nbBlocks count.toNat) :
    (SendLocals.mk (l.i + 1) (l.totalBytesSent + l.datasize count)).At count.toNat
      (ds ++ [true]) := by
  obtain ⟨htotal, hsize⟩ := hl.datasize hlt
  have hi := hl.i
  have hcount := count.toNat_lt
  rw [blockSize] at hsize
  rw [nbBlocks] at hlt
  constructor
  · rw [UInt32.toNat_add, UInt32.toNat_one, hi, List.count_append, List.count_singleton_self,
      Nat.mod_eq_of_lt (by omega)]
  · rw [UInt32.toNat_add, htotal, hsize, List.count_append, List.count_singleton_self]
    omega

/-- An exchange of a block and a reply keeps `W`, a property of what the replies were taken for so
far and of the host and the line, or else ends in a state that is `bad` and stays so. -/
structure Exchanges (L : Line δ) (O : Sys (Wire δ)) (m : ℕ → UInt8) (count : ℕ)
    (W : List Bool → Host (Wire δ) → Prop) (bad : Host (Wire δ) → Prop) : Prop where
  bad_of_grows : ∀ {h h' : Host (Wire δ)}, Grows h h' → bad h → bad h'
  of_env : ∀ {ds : List Bool} {h h' : Host (Wire δ)}, W ds h → h'.env = h.env →
    h'.nextReadChar = h.nextReadChar → W ds h'
  turn : ∀ {ds : List Bool} {h : Host (Wire δ)} {text : List UInt8}, W ds h →
    ds.count true < nbBlocks count → Carries text (block m count (ds.count true)) → ∃ k h₁,
      ispSerialRead (L.sys O) repBufsize 4 (L.told h text) =
        .ok (toInt k, (L.stream h.env text).take k) h₁ ∧
      k ≤ repBufsize ∧ h₁.env.heard = (L.told h text).env.heard ∧
      (bad h₁ ∨ 4 ≤ k ∧ k ≤ (L.stream h.env text).length ∧
        W (ds ++ [decide ((L.stream h.env text).take 4 = dataBlockOk)]) h₁)

theorem Sending.next {request text : List UInt8} {ds : List Bool} {h h₁ : Host (Wire δ)}
    (hs : Sending m count.toNat request ds h)
    (hc : Carries text (block m count.toNat (ds.count true)))
    (hheard : h₁.env.heard = (L.told h text).env.heard)
    (hlog : decisions h₁.log = decisions h.log) (h₂ : Host (Wire δ)) (henv : h₂.env = h₁.env)
    (d : Bool) (hlog' : h₂.log = h₁.log ++ [.sent d]) :
    Sending m count.toNat request (ds ++ [d]) h₂ := by
  obtain ⟨texts, htexts, ht⟩ := hs.heard
  constructor
  · rw [hlog', decisions_append, hlog, hs.decided]
    rfl
  · refine ⟨texts ++ [text], ?_, ht.snoc hc d⟩
    rw [henv, hheard, Line.told, Line.wrote, List.map_append, htexts]
    rfl

/-- What the replies do to `S`, which may look at all of the host. -/
def Takes (L : Line δ) (m : ℕ → UInt8) (count : ℕ) (S : List Bool → Host (Wire δ) → Prop) : Prop :=
  ∀ {ds : List Bool} {h h₁ : Host (Wire δ)} {text : List UInt8}, S ds h →
    Carries text (block m count (ds.count true)) → h₁.env.heard = (L.told h text).env.heard →
    Polled h h₁ → S (ds ++ [true]) h₁.accepted ∧ S (ds ++ [false]) h₁.refused

theorem Sending.takes (request : List UInt8) : Takes L m count.toNat (Sending m count.toNat request) := by
  intro ds h h₁ text hs hc hheard hp
  exact ⟨hs.next hc hheard (decisions_of_polled hp) h₁.accepted rfl true rfl,
    hs.next hc hheard (decisions_of_polled hp) h₁.refused rfl false rfl⟩

/-- The loop, entered with `ds` behind it, has all the blocks accepted, or gives up on one. -/
structure Settled (count : ℕ) (S W : List Bool → Host (Wire δ) → Prop) (ds ds' : List Bool) (ret : ℤ)
    (h' : Host (Wire δ)) : Prop where
  takes : S ds' h'
  keeps : W ds' h'
  le : ds'.count true ≤ nbBlocks count
  all : ret = 0 ↔ ds'.count true = nbBlocks count
  last : ret = 0 → ds' = ds ∨ ∃ before, ds' = before ++ [true]
  thrice : ret ≠ 0 → 3 ≤ h'.resendRequestedForBlock

theorem Settled.of_next {count : ℕ} {S W : List Bool → Host (Wire δ) → Prop} {ds ds' : List Bool}
    {d : Bool} {ret : ℤ} {h' : Host (Wire δ)} (hlt : ds.count true < nbBlocks count)
    (hs : Settled count S W (ds ++ [d]) ds' ret h') : Settled count S W ds ds' ret h' := by
  refine ⟨hs.takes, hs.keeps, hs.le, hs.all, fun h0 => .inr ?_, hs.thrice⟩
  rcases hs.last h0 with rfl | hbefore
  · cases d
    · -- a block that is refused last has not been accepted
      have hall := hs.all.1 h0
      rw [List.count_append, show [false].count true = 0 from rfl] at hall
      omega
    · exact ⟨ds, rfl⟩
  · exact hbefore

/-- The loop ends with every block accepted, or gives up on one, or breaks off where the data cannot be
read. -/
theorem sendLoop_turns {W S : List Bool → Host (Wire δ) → Prop} {bad : Host (Wire δ) → Prop}
    (X : Exchanges L O m count.toNat W bad) (hS : Takes L m count.toNat S) {data : Mem}
    (hdata : ∀ i c, data i = some c → m i = c) (l : SendLocals) (h : Host (Wire δ)) :
    ∀ ds : List Bool, l.At count.toNat ds → ds.count true ≤ nbBlocks count.toNat → S ds h → W ds h →
    bad (final ((sendLoop (L.sys O) data count (getNbBlocks count)).run l h)) ∨
    ((∃ i < count.toNat + 2, data i = none) ∧ ∃ h' ds',
      (sendLoop (L.sys O) data count (getNbBlocks count)).run l h = .error .source h' ∧ W ds' h') ∨
    ∃ ret h' ds', (sendLoop (L.sys O) data count (getNbBlocks count)).run l h = .ok ret h' ∧
      Settled count.toNat S W ds ds' ret h' := by
  induction l, h using (sendLoop (L.sys O) data count (getNbBlocks count)).run_induction with
  | step l h ih =>
    intro ds hl hle hs hW
    have hblocks : l.i < getNbBlocks count ↔ ds.count true < nbBlocks count.toNat := by
      rw [UInt32.lt_iff_toNat_lt, getNbBlocks_toNat, hl.i]
    by_cases hi : l.i < getNbBlocks count
    · have hlt := hblocks.1 hi
      obtain ⟨htotal, hsize⟩ := hl.datasize hlt
      obtain ⟨text, htext, hlen, hc⟩ := blockToSend_total (E := L.sys O)
        (fun i => m (900 * ds.count true + i)) (n := l.datasize count)
        (by rw [hsize]; exact Nat.min_le_right _ _) h
      have hblock : slice (fun i => m (900 * ds.count true + i)) 0 (l.datasize count).toNat =
          block m count.toNat (ds.count true) := by
        rw [block, hsize]
        simp [slice]
      rw [hblock] at hc
      have hdrop : ∀ i c, data.drop l.totalBytesSent.toNat i = some c →
          (fun i => m (900 * ds.count true + i)) i = c :=
        fun i c hi => hdata _ _ (by rw [← htotal]; exact hi)
      rcases blockToSend_part (E := L.sys O) hdrop (l.datasize count) h with
        heq | ⟨hfault, k, hk, hnone⟩
      · rw [htext] at heq
        obtain ⟨k, h₁, hread, hk, hheard, hcase⟩ := X.turn hW hlt hc
        have hturn := sendTurn_of_read data (getNbBlocks count) hi heq (by omega)
          (by rw [repBufsize] at hk; omega) hread
        rcases hcase with hbad | ⟨hk4, hkl, hW'⟩
        · left
          refine X.bad_of_grows (Loop.final_of_body (R := Grows) Grows.trans
            ((Grows.frame _).sendTurn _ _ _) ?_) hbad
          simp only [sendLoop, hturn]
          by_cases hk0 : k = 0
          · rw [if_pos hk0]
            exact .refl h₁
          · rw [if_neg hk0]
            exact (Grows.frame (L.sys O)).takeReply _ _ _ _
        · have hp : Polled h h₁ := by
            have hp := ispSerialRead_polled (E := L.sys O) repBufsize 4 (L.told h text)
            rw [hread, final_ok] at hp
            exact ⟨hp.request, hp.requested, hp.log⟩
          obtain ⟨hyes, hno⟩ := hS hs hc hheard hp
          have hfour : ((L.stream h.env text).take k).take 4 = (L.stream h.env text).take 4 := by
            rw [List.take_take, Nat.min_eq_left hk4]
          rw [if_neg (by omega), takeReply_of_four (by rw [List.length_take]; omega), hfour] at hturn
          by_cases hok : (L.stream h.env text).take 4 = dataBlockOk
          · rw [if_pos hok] at hturn
            rw [decide_eq_true hok] at hW'
            rw [sendLoop_inl hturn]
            refine (ih _ _ hturn _ (hl.next hlt) ?_ hyes (X.of_env hW' rfl rfl)).imp_right
              (Or.imp_right ?_)
            · rw [List.count_append, List.count_singleton_self]
              omega
            · rintro ⟨ret, h', ds', hrun, hsettled⟩
              exact ⟨ret, h', ds', hrun, hsettled.of_next hlt⟩
          · rw [if_neg hok] at hturn
            rw [decide_eq_false hok] at hW'
            have hcount : (ds ++ [false]).count true = ds.count true := by
              rw [List.count_append]
              rfl
            by_cases hc3 : 3 ≤ h₁.refused.resendRequestedForBlock
            · right; right
              rw [if_pos hc3] at hturn
              refine ⟨-2, _, _, Loop.run_inr hturn, hno, X.of_env hW' rfl rfl, by rwa [hcount], ?_,
                by simp, fun _ => hc3⟩
              rw [hcount]
              omega
            · rw [if_neg hc3] at hturn
              rw [sendLoop_inl hturn]
              refine (ih _ _ hturn _ ⟨by rw [hcount, hl.i], by rw [hcount, hl.total]⟩
                (by rwa [hcount]) hno (X.of_env hW' rfl rfl)).imp_right (Or.imp_right ?_)
              rintro ⟨ret, h', ds', hrun, hsettled⟩
              exact ⟨ret, h', ds', hrun, hsettled.of_next hlt⟩
      · right; left
        have hturn : sendTurn (L.sys O) data count (getNbBlocks count) l h = .error .source h := by
          unfold sendTurn
          rw [if_pos hi, ← SendLocals.datasize]
          exact bind_error hfault
        refine ⟨⟨900 * ds.count true + k, ?_, by rw [← htotal]; exact hnone⟩, h, ds,
          Loop.run_error hturn, hW⟩
        rw [hsize, blockSize] at hk
        rw [nbBlocks] at hlt
        omega
    · right; right
      have hdone : sendTurn (L.sys O) data count (getNbBlocks count) l h =
          .ok (.inr 0) h := sendTurn_eq_ok.2 (.inl ⟨hi, rfl, rfl⟩)
      exact ⟨0, h, ds, Loop.run_inr hdone, hs, hW, hle, by rw [hblocks] at hi; omega,
        fun _ => .inl rfl, fun h0 => absurd rfl h0⟩

/-- The loop ends with every block accepted, or gives up on one. -/
theorem sendLoop_run {W : List Bool → Host (Wire δ) → Prop} {bad : Host (Wire δ) → Prop}
    (X : Exchanges L O m count.toNat W bad) {request : List UInt8} (l : SendLocals)
    (h : Host (Wire δ)) (ds : List Bool) (hl : l.At count.toNat ds)
    (hle : ds.count true ≤ nbBlocks count.toNat) (hs : Sending m count.toNat request ds h)
    (hW : W ds h) :
    bad (final ((sendLoop (L.sys O) (Mem.total m) count (getNbBlocks count)).run l h)) ∨
    ∃ ret h' ds', (sendLoop (L.sys O) (Mem.total m) count (getNbBlocks count)).run l h =
        .ok ret h' ∧
      Sending m count.toNat request ds' h' ∧ W ds' h' ∧
      ds'.count true ≤ nbBlocks count.toNat ∧
      (ret = 0 ↔ ds'.count true = nbBlocks count.toNat) := by
  have hdata : ∀ i c, Mem.total m i = some c → m i = c := fun i c hi => Option.some.inj hi
  rcases sendLoop_turns X (Sending.takes request) hdata l h ds hl hle hs hW with
    hbad | ⟨⟨i, -, hi⟩, -⟩ |
    ⟨ret, h', ds', hrun, hs', hW', hle', hret, -, -⟩
  · exact .inl hbad
  · cases hi
  · exact .inr ⟨ret, h', ds', hrun, hs', hW', hle', hret⟩

/-- The blocks follow the request. -/
theorem ispSendBufToRam_grows {data : Mem} {addr uu : ℕ} (huu : uu ≠ 0) (h : Host (Wire δ)) :
    Grows (final (ispSendCmdTwoArgs (L.sys O) 'W'.toUInt8 (UInt32.ofNat addr) count h))
      (final (ispSendBufToRam (L.sys O) data addr count uu h)) := by
  unfold ispSendBufToRam
  refine final_bind (R := Grows) Grows.refl fun ret h₁ _ => ?_
  by_cases hret : ret ≠ 0
  · rw [if_pos hret]
    exact .refl h₁
  · rw [if_neg hret, if_neg huu]
    exact (Grows.frame _).sendLoop _ _ _ _ h₁

theorem ispSendBufToRam_of_grant {σ : Type} {E : Sys σ} {data : Mem} {addr : ℕ} {h h' : Host σ}
    (hgrant : ispSendCmdTwoArgs E 'W'.toUInt8 (UInt32.ofNat addr) count h = .ok 0 h') {uu : ℕ}
    (huu : uu ≠ 0) : ispSendBufToRam E data addr count uu h =
      (sendLoop E data count (getNbBlocks count)).run ⟨0, 0⟩ h' := by
  unfold ispSendBufToRam
  rw [bind_ok hgrant, if_neg (by decide), if_neg huu]

theorem Sending.start {request : List UInt8} {h : Host (Wire δ)} (hlog : decisions h.log = [])
    (hheard : h.env.heard.map Prod.fst = [request]) : Sending m count.toNat request [] h :=
  ⟨hlog, [], hheard, rfl, fun _ hk => by cases hk⟩

theorem SendLocals.At.start : (SendLocals.mk 0 0).At count.toNat [] := ⟨rfl, by simp⟩

end Run

end LpcTools
