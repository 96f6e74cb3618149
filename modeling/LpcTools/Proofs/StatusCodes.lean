import LpcTools.Lib.Leading
import LpcTools.Lib.Numerals
import LpcTools.Proofs.StatusReplies

/-!
# What a status is read as

A sender reads its status off a buffer in which the received bytes lie over older ones, and the value
read is cut to 32 bits. It is right if and only if the received bytes start with a number and go on
behind it, and the number is not cut to another one that is no error.
-/

namespace LpcTools

open Run Decimal Uuencode

/-- A sender that reads a status. -/
inductive Sender where
  | request (r : Request)
  | go (addr : UInt32) (mode : UInt8)

namespace Sender

def text : Sender → List UInt8
  | request r => r.text
  | go addr mode => goText addr.toNat mode

/-- The size of the buffer the status is read into. -/
def bufSize : Sender → ℕ
  | request r => r.bufSize
  | go _ _ => serialBufsize

/-- How much of it the read may fill. -/
def readSize : Sender → ℕ
  | request _ => 3
  | go _ _ => serialBufsize

def quiet : Sender → ℤ
  | request r => r.quiet
  | go _ _ => 0

/-- What is returned when the request cannot be sent, and when no answer comes. -/
def failures : Sender → ℤ × ℤ
  | request _ => (-5, -4)
  | go _ _ => (-4, -3)

/-- The request is put on the line. -/
def Sent : Sender → Prop
  | request r => r.Sent
  | go addr mode => ¬ addr < 0x200 ∧ (mode = 'T'.toUInt8 ∨ mode = 'A'.toUInt8)

/-- What the sender returns for what became of its request. -/
def ret : Sender → Answer → ℤ
  | request _ => Answer.ret
  | go _ _ => fun answer =>
    match answer with
    | .failed ret => ret
    | .status code => if code ≠ 0 then -1 else 0

theorem Sent.text_lt {s : Sender} (hs : s.Sent) : s.text.length < 2 ^ 31 := by
  rcases s with r | ⟨addr, mode⟩
  · exact Request.Sent.text_lt hs
  · exact Nat.lt_of_le_of_lt (goText_length addr mode) (by decide)

section Send

variable {σ : Type} (E : Sys σ)

def send : Sender → Prog σ ℤ
  | request r => r.send E
  | go addr mode => ispSendCmdGo E addr mode

/-- The request and the read of its status, into a buffer that holds `buf`. -/
def ask (s : Sender) (buf : List UInt8) : Prog σ Answer :=
  askStatus E s.text buf s.readSize s.failures.1 s.failures.2 s.quiet

variable {E}

/-- Every sender asks for its status in a buffer of its size. -/
theorem send_eq {s : Sender} (hs : s.Sent) (h : Host σ) : ∃ buf, buf.length = s.bufSize ∧
    s.send E h = (s.ret <$> do
      let answer ← s.ask E buf
      emit (.request s.text answer)
      return answer) h := by
  rcases s with r | ⟨addr, mode⟩
  · exact Request.send_eq E hs h
  · have hlt : (goText addr.toNat mode).length < serialBufsize :=
      Nat.lt_of_le_of_lt (goText_length addr mode) (by decide)
    have hmode : ¬ (mode ≠ 'T'.toUInt8 ∧ mode ≠ 'A'.toUInt8) := fun hne =>
      hs.2.elim hne.1 hne.2
    have hbuf : ((List.range serialBufsize).map (E.stack h.env)).length = serialBufsize := by
      rw [List.length_map, List.length_range]
    refine ⟨_, snprintf_length hbuf (show 0 < serialBufsize by decide), Eq.trans ?_
      (map_congr (sendFormatted_eq hlt serialBufsize (-4) (-3) 0 h))⟩
    change ispSendCmdGo E addr mode h = _
    unfold ispSendCmdGo
    rw [if_neg hs.1, if_neg hmode]
    refine congrFun (congrArg (sendFormatted E _ _ _ _ _ _ >>= ·) (funext fun answer => ?_)) h
    rcases answer with code | ret <;> rfl

end Send

end Sender

section Value

variable {σ : Type} {E : Sys σ} {buf rest : List UInt8} {n : ℕ}

/-- The code that equals the number of entries is looked up past the table, unless nothing is
printed. -/
theorem ispRetCode_value (quiet : ℤ) (h : Host σ) (hn : strtoul 10 buf = some (n, rest)) :
    value (ispRetCode E buf quiet h) =
      if quiet ≠ 1 ∧ n % 2 ^ 32 = errorCodes.length then none else some (toInt n) := by
  have hmod : toInt (n % 2 ^ 32) = toInt n := by rw [toInt, toInt, Nat.mod_mod]
  have hlen : errorCodes.length = 20 := rfl
  unfold ispRetCode
  simp only [hn, hmod]
  by_cases hq : quiet ≠ 1
  · rw [if_pos hq]
    by_cases hlt : errorCodes.length < n % 2 ^ 32
    · rw [if_pos hlt, if_neg fun hand => absurd hand.2 (by omega)]
      rfl
    · rw [if_neg hlt]
      by_cases hlast : n % 2 ^ 32 = errorCodes.length
      · rw [if_pos (Or.inl (by omega)), if_pos ⟨hq, hlast⟩, List.getElem?_eq_none (by omega)]
        rfl
      · rw [if_neg (show ¬ (quiet ≠ 1 ∧ n % 2 ^ 32 = errorCodes.length) from fun hand =>
          hlast hand.2)]
        by_cases hprint : n % 2 ^ 32 ≠ 0 ∨ E.traceOn = true
        · rw [if_pos hprint, List.getElem?_eq_getElem (show n % 2 ^ 32 < errorCodes.length by omega)]
          rfl
        · rw [if_neg hprint]
          rfl
  · rw [if_neg hq, if_neg (show ¬ (quiet ≠ 1 ∧ n % 2 ^ 32 = errorCodes.length) from fun hand =>
      hq hand.1)]
    rfl

end Value

section Cut

/-- The value comes through an `unsigned long`, an `unsigned int` and an `int` as itself or as a
negative one. -/
def Survives (z : ℤ) : Prop := 0 ≤ z ∧ z < 2 ^ 31 ∨ 2 ^ 31 ≤ z % 2 ^ 32 ∨ 2 ^ 64 ≤ z.natAbs

instance (z : ℤ) : Decidable (Survives z) := inferInstanceAs (Decidable (_ ∨ _))

variable {z : ℤ} {neg : Bool} {n : ℕ}

/-- What is left of a number in 32 bits. -/
theorem wrapLong_mod (hz : z = if neg then -(n : ℤ) else n) :
    ((wrapLong neg n % 2 ^ 32 : ℕ) : ℤ) = if 2 ^ 64 ≤ z.natAbs then 2 ^ 32 - 1 else z % 2 ^ 32 := by
  have hmax : ulongMax = 2 ^ 64 - 1 := rfl
  have hn : z.natAbs = n := by
    rw [hz]
    split_ifs <;> omega
  rw [hn, wrapLong]
  by_cases hbig : ulongMax < n
  · rw [if_pos hbig, if_pos (by omega), hmax]
    rfl
  · rw [if_neg hbig, if_neg (show ¬ 2 ^ 64 ≤ n by omega)]
    split_ifs at hz ⊢ <;> omega

/-- The number is returned, or a negative value, if and only if it survives. -/
theorem survives_iff (hz : z = if neg then -(n : ℤ) else n) :
    Survives z ↔ (toInt (wrapLong neg n) = 0 → z = 0) ∧
      (toInt (wrapLong neg n) ≠ 0 → z = toInt (wrapLong neg n) ∨ toInt (wrapLong neg n) < 0) := by
  have hmod := wrapLong_mod hz
  rw [Survives, toInt]
  generalize wrapLong neg n % 2 ^ 32 = w at hmod ⊢
  split_ifs at hmod ⊢ <;> omega

/-- Only 20 itself is taken for 20. -/
theorem wrapLong_twenty (hz : z = if neg then -(n : ℤ) else n) (hs : Survives z) :
    wrapLong neg n % 2 ^ 32 = 20 ↔ z = 20 := by
  have hmod := wrapLong_mod hz
  rw [Survives] at hs
  generalize wrapLong neg n % 2 ^ 32 = w at hmod ⊢
  split_ifs at hmod <;> omega

end Cut

namespace Sender

section Judging

variable {s : Sender} {got : List UInt8}

/-- The request has gone out, and the read of the status has delivered `got`. -/
def Receives {σ : Type} (s : Sender) (E : Sys σ) (got : List UInt8) (h h' : Host σ) : Prop :=
  ∃ h₁ len, ispSerialWrite E s.text h = .ok s.text.length h₁ ∧
    ispSerialRead E s.readSize 3 h₁ = .ok (len, got) h' ∧ 0 < len

/-- What is made of the received bytes is 0 only if they start with the number 0, and else the number
they start with or an error, whatever the buffer held before. -/
def Judges (s : Sender) (got : List UInt8) : Prop :=
  ∃ v : ℤ, (v = 0 → leading got = some 0) ∧ (v ≠ 0 → leading got = some v ∨ v < 0) ∧
    ∀ (σ : Type) (E : Sys σ) (buf : List UInt8) (h h' : Host σ), buf.length = s.bufSize →
      s.Receives E got h h' → value (s.ask E buf h) = some (.status v)

theorem Receives.ask_eq {σ : Type} {E : Sys σ} {h h' : Host σ} (hr : s.Receives E got h h')
    (buf : List UInt8) : s.ask E buf h =
      (Answer.status <$> ispRetCode E (overlay buf 0 got) s.quiet) h' := by
  obtain ⟨h₁, len, hwrite, hread, hpos⟩ := hr
  unfold ask askStatus
  rw [bind_ok hwrite, if_neg (not_not.2 rfl), bind_ok hread]
  simp only [if_neg (Int.not_le.2 hpos)]

/-- The value of a number that goes on behind its digits does not depend on the rest of the
buffer. -/
theorem Receives.ask_value {σ : Type} {E : Sys σ} {h h' : Host σ} (hr : s.Receives E got h h')
    {n : ℕ} {rest : List UInt8} (hn : strtoul 10 got = some (n, rest)) (buf : List UInt8) :
    value (s.ask E buf h) =
      if s.quiet ≠ 1 ∧ n % 2 ^ 32 = errorCodes.length then none else some (.status (toInt n)) := by
  have hbuf := strtoul_append hn (buf.drop got.length)
  rw [← overlay_zero] at hbuf
  rw [hr.ask_eq buf, value_map, ispRetCode_value s.quiet h' hbuf]
  split_ifs <;> rfl

/-- Bytes that fit the read come in, on a line that delivers them. -/
theorem receives_scripted (hne : got ≠ []) (hfit : got.length ≤ s.readSize)
    (htext : s.text.length < 2 ^ 31) : ∃ h',
      s.Receives ((scripted fun _ => 1).sys (Sys.plain _)) got (.start (.quiet [got]) 0 0 0) h' := by
  have hsize : 3 ≤ s.readSize ∧ s.readSize < 2 ^ 31 := by
    rcases s with r | ⟨addr, mode⟩
    · exact ⟨Nat.le_refl 3, (by decide : 3 < 2 ^ 31)⟩
    · exact (by decide : 3 ≤ serialBufsize ∧ serialBufsize < 2 ^ 31)
  let told := (scripted fun _ => 1).told (.start (.quiet [got]) 0 0 0) s.text
  have hpend : told.env.pending = [got] := rfl
  have hunread : told.env.unread = got := by rw [Wire.unread, hpend, List.flatten_singleton]
  obtain ⟨k, h', hread, hR, -, -⟩ := Line.ispSerialRead_sys (L := scripted fun _ => 1)
    (O := Sys.plain _) (h := told) hsize.1 rfl (by omega)
  obtain ⟨ret, got', h'', hread', hdrained, -, -⟩ := Line.ispSerialRead_drain
    (L := scripted fun _ => 1) (O := Sys.plain _) (h := told) (fun t => ⟨0, by omega, Nat.one_pos⟩)
    (by decide) hsize.1 rfl (.inr ⟨got, hpend, hne, hfit⟩)
  rw [hread] at hread'
  obtain ⟨-, rfl⟩ := EStateM.Result.ok.inj hread'
  -- all of the line is read, so what was taken is all of it
  have hall := hR.unread
  rw [Wire.unread, hdrained, List.flatten_nil, eq_comm, List.drop_eq_nil_iff, hunread] at hall
  have hk : k = got.length := Nat.le_antisymm (hunread ▸ hR.le) hall
  rw [hunread, hk, List.take_length] at hread
  refine ⟨h', told, _, ?_, hread, ?_⟩
  · rw [Line.ispSerialWrite_sys, toInt_of_lt htext]
  · have := List.length_pos_iff.2 hne
    rw [toInt_of_lt (by omega)]
    omega

/-- The sender itself returns what is made of the reply. -/
theorem Judges.send_value {σ : Type} {E : Sys σ} {h h' : Host σ} (hj : s.Judges got) (hs : s.Sent)
    (hr : s.Receives E got h h') : ∃ v : ℤ, (v = 0 → leading got = some 0) ∧
      (v ≠ 0 → leading got = some v ∨ v < 0) ∧ value (s.send E h) = some (s.ret (.status v)) := by
  obtain ⟨v, hzero, hnonzero, hall⟩ := hj
  obtain ⟨buf, hbuf, hsend⟩ := send_eq (E := E) hs h
  refine ⟨v, hzero, hnonzero, ?_⟩
  have hask := hall σ E buf h h' hbuf hr
  rw [hsend, value_map]
  rcases hrun : s.ask E buf h with ⟨answer, h₁⟩ | ⟨f, h₁⟩ <;> rw [hrun] at hask <;> cases hask
  rw [bind_ok hrun]
  rfl

/-- What is judged right goes on behind its number, which survives and is not looked up past the
table. -/
theorem Judges.told (hj : s.Judges got) (hne : got ≠ []) (hfit : got.length ≤ s.readSize)
    (htext : s.text.length < 2 ^ 31) : numberEnd got ≠ [] ∧
      ∃ z, leading got = some z ∧ Survives z ∧ (s.quiet ≠ 1 → z ≠ 20) := by
  obtain ⟨v, hzero, hnonzero, hall⟩ := hj
  obtain ⟨h', hr⟩ := receives_scripted hne hfit htext
  have hrun := hall _ _ (.replicate s.bufSize 49) _ h' List.length_replicate hr
  have hend : numberEnd got ≠ [] := by
    intro hnil
    -- the digits of the reply go on into the older ones
    have hold := numberEnd_digits (d := 49) (k := s.bufSize - got.length) hnil (by decide)
    have hnone := strtoul_ten (overlay (.replicate s.bufSize 49) 0 got)
    rw [overlay_zero, List.drop_replicate, if_pos hold, ← List.drop_replicate, ← overlay_zero]
      at hnone
    rw [hr.ask_eq, value_map] at hrun
    unfold ispRetCode at hrun
    simp only [hnone] at hrun
    cases hrun
  refine ⟨hend, ?_⟩
  rcases strtoul_leading hend with ⟨hnone, hread⟩ | ⟨neg, n, hlead, hread⟩
  · rw [hr.ask_value hread, if_neg fun hand => absurd hand.2 (by decide)] at hrun
    cases hrun
    exact absurd (hzero rfl) (by rw [hnone]; simp)
  · rw [hr.ask_value hread] at hrun
    split_ifs at hrun with htable
    cases hrun
    have hsurvives : Survives (if neg then -(n : ℤ) else n) := by
      rw [survives_iff rfl]
      refine ⟨fun h0 => ?_, fun h0 => ?_⟩
      · exact Option.some.inj (hlead.symm.trans (hzero h0))
      · exact (hnonzero h0).imp_left fun h => Option.some.inj (hlead.symm.trans h)
    exact ⟨_, hlead, hsurvives, fun hquiet hz =>
      htable ⟨hquiet, (wrapLong_twenty rfl hsurvives).2 hz⟩⟩

theorem judges_of (hend : numberEnd got ≠ []) {z : ℤ} (hz : leading got = some z)
    (hsurvives : Survives z) (hquiet : s.quiet ≠ 1 → z ≠ 20) : s.Judges got := by
  rcases strtoul_leading hend with ⟨hnone, -⟩ | ⟨neg, n, hlead, hread⟩
  · rw [hnone] at hz
    cases hz
  · have hval : z = if neg then -(n : ℤ) else n := Option.some.inj (hz.symm.trans hlead)
    obtain ⟨hzero, hnonzero⟩ := (survives_iff hval).1 hsurvives
    refine ⟨toInt (wrapLong neg n), fun h0 => ?_, fun h0 => ?_, ?_⟩
    · rw [hz, hzero h0]
    · exact (hnonzero h0).imp_left fun h => by rw [hz, h]
    · intro σ E buf h h' _ hr
      rw [hr.ask_value hread, if_neg]
      exact fun hand => hquiet hand.1 ((wrapLong_twenty hval hsurvives).1 hand.2)

end Judging

end Sender

/-- The status read is right, whatever was in the buffer, if and only if the received bytes start with
a number and go on behind it, and it survives and is not the one past the table that is printed. -/
theorem Sender.judges_iff (s : Sender) (hs : s.Sent) {got : List UInt8} (hne : got ≠ [])
    (hfit : got.length ≤ s.readSize) : s.Judges got ↔
      numberEnd got ≠ [] ∧ ∃ z, leading got = some z ∧ Survives z ∧ (s.quiet ≠ 1 → z ≠ 20) := by
  constructor
  · exact fun hj => hj.told hne hfit hs.text_lt
  · rintro ⟨hend, z, hz, hsurvives, hquiet⟩
    exact judges_of hend hz hsurvives hquiet

theorem Sender.judges_iff_locked : (Sender.request unlockRequest).Judges (bytes ['1', '5', '\r']) ↔
    numberEnd (bytes ['1', '5', '\r']) ≠ [] ∧ ∃ z, leading (bytes ['1', '5', '\r']) = some z ∧
      Survives z ∧ ((Sender.request unlockRequest).quiet ≠ 1 → z ≠ 20) :=
  Sender.judges_iff (.request unlockRequest) unlockRequest_sent (by decide) (by decide)

/-- An acknowledgement of something else passes for a success. -/
theorem Sender.judges_refuted : ¬ (Sender.request unlockRequest).Judges (bytes ['O', 'K', '\r']) ∧
    value ((Sender.request unlockRequest).send ((scripted fun _ => 100).sys (Sys.plain _))
      (.start (.quiet [dataBlockOk]) 0 0 0)) = some 0 := by
  constructor
  · intro hj
    obtain ⟨-, z, hz, -⟩ := hj.told (by decide) (by decide) (by decide)
    have hnone : leading (bytes ['O', 'K', '\r']) = none := by decide
    rw [hnone] at hz
    cases hz
  · decide +kernel

section Lookup

variable {σ : Type} {E : Sys σ} {buf : List UInt8} {quiet : ℤ} {h : Host σ}

/-- The number read is looked up at an entry of the table or not at all, and one that is not in the
table is reported as unknown, where anything is reported. -/
structure LooksInside (E : Sys σ) (buf : List UInt8) (quiet : ℤ) (h : Host σ) : Prop where
  inside : fault (ispRetCode E buf quiet h) ≠ some .errorCodes
  unknown : ∀ {n : ℕ} {rest : List UInt8}, strtoul 10 buf = some (n, rest) →
    errorCodes.length ≤ n → (final (ispRetCode E buf quiet h)).log =
      h.log ++ if quiet = 1 then [] else [.errorCode (n % 2 ^ 32) none]

theorem ispRetCode_unread (hn : strtoul 10 buf = none) :
    ispRetCode E buf quiet h = .error .replyBuffer h := by
  unfold ispRetCode
  rw [hn]
  rfl

theorem looksInside_quiet (hq : quiet = 1) : LooksInside E buf quiet h := by
  have hrun : ispRetCode E buf quiet h = .error .replyBuffer h ∨
      ∃ ret, ispRetCode E buf quiet h = .ok ret h := by
    rcases hn : strtoul 10 buf with _ | ⟨n, rest⟩
    · exact .inl (ispRetCode_unread hn)
    · unfold ispRetCode
      simp only [hn, if_neg (not_not.2 hq)]
      exact .inr ⟨_, rfl⟩
  rcases hrun with hrun | ⟨ret, hrun⟩
  · refine ⟨by rw [hrun]; simp, fun _ _ => ?_⟩
    rw [hrun, if_pos hq, List.append_nil]
    rfl
  · refine ⟨by rw [hrun]; simp, fun _ _ => ?_⟩
    rw [hrun, if_pos hq, List.append_nil]
    rfl

/-- What becomes of a number that may be printed. -/
theorem ispRetCode_printed {n : ℕ} {rest : List UInt8} (hq : quiet ≠ 1)
    (hn : strtoul 10 buf = some (n, rest)) :
    ispRetCode E buf quiet h =
      if errorCodes.length < n % 2 ^ 32 then
        .ok (toInt (n % 2 ^ 32)) (h.emit (.errorCode (n % 2 ^ 32) none))
      else if n % 2 ^ 32 ≠ 0 ∨ E.traceOn then
        match errorCodes[n % 2 ^ 32]? with
        | none => .error .errorCodes h
        | some name => .ok (toInt (n % 2 ^ 32)) (h.emit (.errorCode (n % 2 ^ 32) (some name)))
      else .ok (toInt (n % 2 ^ 32)) h := by
  unfold ispRetCode
  simp only [hn, if_pos hq]
  by_cases hlen : errorCodes.length < n % 2 ^ 32
  · rw [if_pos hlen, if_pos hlen]
    rfl
  · rw [if_neg hlen, if_neg hlen]
    by_cases hprint : n % 2 ^ 32 ≠ 0 ∨ E.traceOn = true
    · rw [if_pos hprint, if_pos hprint]
      rcases errorCodes[n % 2 ^ 32]? with _ | name <;> rfl
    · rw [if_neg hprint, if_neg hprint]
      rfl

theorem ispRetCode_inside_iff {n : ℕ} {rest : List UInt8} (hq : quiet ≠ 1)
    (hn : strtoul 10 buf = some (n, rest)) :
    fault (ispRetCode E buf quiet h) ≠ some .errorCodes ↔ n % 2 ^ 32 ≠ errorCodes.length := by
  have hlength : errorCodes.length = 20 := rfl
  rw [ispRetCode_printed hq hn]
  rcases Nat.lt_trichotomy errorCodes.length (n % 2 ^ 32) with hlt | heq | hgt
  · rw [if_pos hlt]
    exact iff_of_true (by simp) (Nat.ne_of_gt hlt)
  · rw [if_neg (by omega), if_pos (.inl (by omega)), List.getElem?_eq_none (by omega)]
    exact iff_of_false (by simp) (by omega)
  · rw [if_neg (by omega), List.getElem?_eq_getElem hgt]
    refine iff_of_true ?_ (Nat.ne_of_lt hgt)
    split_ifs <;> simp

/-- A number that is inside once it is cut is not reported as unknown. -/
theorem ispRetCode_not_unknown {n : ℕ} {rest : List UInt8} (hq : quiet ≠ 1)
    (hn : strtoul 10 buf = some (n, rest)) (hlt : n % 2 ^ 32 < errorCodes.length) :
    (final (ispRetCode E buf quiet h)).log ≠ h.log ++ [.errorCode (n % 2 ^ 32) none] := by
  rw [ispRetCode_printed hq hn, if_neg (by omega), List.getElem?_eq_getElem hlt]
  split_ifs <;> simp

end Lookup

/-- A status stays inside the table just if, cut to an `unsigned int`, it is not the number of entries,
and one from outside is unknown just if what is cut off does not bring it inside. With `quiet` there is
no lookup. -/
theorem looksInside_iff {σ : Type} (E : Sys σ) (buf : List UInt8) (quiet : ℤ) (h : Host σ) :
    (fault (ispRetCode E buf quiet h) ≠ some .errorCodes ↔
      quiet = 1 ∨ ∀ n rest, strtoul 10 buf = some (n, rest) → n % 2 ^ 32 ≠ errorCodes.length) ∧
    (LooksInside E buf quiet h ↔
      quiet = 1 ∨ ∀ n rest, strtoul 10 buf = some (n, rest) →
        n < errorCodes.length ∨ errorCodes.length < n % 2 ^ 32) := by
  have hlength : errorCodes.length = 20 := rfl
  by_cases hq : quiet = 1
  · have hquiet : LooksInside E buf quiet h := looksInside_quiet hq
    exact ⟨iff_of_true hquiet.inside (.inl hq), iff_of_true hquiet (.inl hq)⟩
  rcases hn : strtoul 10 buf with _ | ⟨n, rest⟩
  · have hrun : ispRetCode E buf quiet h = .error .replyBuffer h := ispRetCode_unread hn
    have hinside : fault (ispRetCode E buf quiet h) ≠ some .errorCodes := by
      rw [hrun]
      simp
    refine ⟨iff_of_true hinside (.inr ?_), iff_of_true ⟨hinside, fun he => ?_⟩ (.inr ?_)⟩
    · rintro n rest ⟨⟩
    · rw [hn] at he
      cases he
    · rintro n rest ⟨⟩
  have hiff := ispRetCode_inside_iff (E := E) (h := h) hq hn
  refine ⟨hiff.trans ⟨fun hne => .inr ?_, fun hcond => hcond.resolve_left hq n rest rfl⟩,
    fun hinside => .inr ?_, fun hcond => ?_⟩
  · rintro n' rest' ⟨⟩
    exact hne
  · rintro n' rest' ⟨⟩
    by_contra hout
    have hunknown := hinside.unknown hn (by omega)
    have hne := hiff.1 hinside.inside
    rw [if_neg hq] at hunknown
    exact ispRetCode_not_unknown hq hn (by omega) hunknown
  · have hout := hcond.resolve_left hq n rest rfl
    refine ⟨hiff.2 (by omega), fun he hle => ?_⟩
    rw [hn] at he
    cases he
    rw [ispRetCode_printed hq hn, if_pos (by omega), if_neg hq]
    rfl

/-- The status 20 is looked up past the end, also where a command gets it. -/
theorem looksInside_twenty :
    ¬ LooksInside (Sys.plain Unit) (statusText 20) 0 (.start () 0 0 0) ∧
      fault (ispSendCmdTwoArgs ((scripted fun _ => 100).sys (Sys.plain _)) 'R'.toUInt8 0 4
        (.start (.quiet [statusText 20]) 0 0 0)) = some .errorCodes := by
  constructor
  · intro hinside
    exact hinside.inside (by decide)
  · decide +kernel

end LpcTools
