import LpcTools.Proofs.Answers

/-!
# Which command a status is taken for

Three characters are read for a status, so a code of two digits leaves its line feed on the line.
The first one left is harmless: it is skipped as white space in front of every later code, as long as
these have one digit. A second code of two digits is then read without the character that ends it,
and what it is taken for depends on what the buffer held before.
-/

namespace LpcTools

open Run Decimal Uuencode

theorem snprintf_length {buf text : List UInt8} {size : ℕ} (hbuf : buf.length = size)
    (hsize : 0 < size) : (snprintf buf size text).length = size := by
  rw [snprintf, overlay_length, hbuf]
  rw [List.length_append, List.length_take, List.length_singleton, hbuf]
  omega

/-- A request of one of the four senders that return the status. -/
inductive Request where
  | noArgs (cmd : List UInt8) (quiet : ℤ)
  | twoArgs (cmd : UInt8) (arg1 arg2 : UInt32)
  | address (cmd : UInt8) (addr1 addr2 length : UInt32)
  | sectors (cmd : UInt8) (firstSector lastSector quiet : ℤ)

namespace Request

/-- The request is put on the line. -/
def Sent : Request → Prop
  | noArgs cmd _ => cmd.length < 2 ^ 31
  | sectors _ firstSector lastSector _ => firstSector ≤ lastSector
  | _ => True

def text : Request → List UInt8
  | noArgs cmd _ => cmd
  | twoArgs cmd arg1 arg2 => twoArgsText cmd arg1.toNat arg2.toNat
  | address cmd addr1 addr2 length => addressText cmd addr1.toNat addr2.toNat length.toNat
  | sectors cmd firstSector lastSector _ =>
    twoArgsText cmd (toUnsigned firstSector).toNat (toUnsigned lastSector).toNat

/-- The size of the buffer the status is read into. -/
def bufSize : Request → ℕ
  | noArgs _ _ => 5
  | twoArgs _ _ _ => repBufsize
  | address _ _ _ _ => serialBufsize
  | sectors _ _ _ _ => serialBufsize

def quiet : Request → ℤ
  | noArgs _ quiet => quiet
  | twoArgs _ _ _ => 0
  | address _ _ _ _ => 0
  | sectors _ _ _ quiet => quiet

variable {σ : Type} (E : Sys σ)

def send : Request → Prog σ ℤ
  | noArgs cmd quiet => ispSendCmdNoArgs E cmd quiet
  | twoArgs cmd arg1 arg2 => ispSendCmdTwoArgs E cmd arg1 arg2
  | address cmd addr1 addr2 length => ispSendCmdAddress E cmd addr1 addr2 length
  | sectors cmd firstSector lastSector quiet =>
    ispSendCmdSectors E cmd firstSector lastSector quiet

theorem Sent.text_lt {r : Request} (hr : r.Sent) : r.text.length < 2 ^ 31 := by
  rcases r with ⟨cmd, quiet⟩ | ⟨cmd, arg1, arg2⟩ | ⟨cmd, addr1, addr2, length⟩ |
    ⟨cmd, first, last, quiet⟩
  · exact hr
  · exact Nat.lt_of_le_of_lt (twoArgsText_length cmd arg1 arg2) (by decide)
  · exact Nat.lt_of_le_of_lt (addressText_length cmd addr1 addr2 length) (by decide)
  · exact Nat.lt_of_le_of_lt (twoArgsText_length cmd _ _) (by decide)

/-- Every sender asks for its status in a buffer of its size. -/
theorem send_eq {r : Request} (hr : r.Sent) (h : Host σ) : ∃ buf, buf.length = r.bufSize ∧
    r.send E h = (Answer.ret <$> sendRequest E r.text buf 3 (-5) (-4) r.quiet) h := by
  have hformat (size : ℕ) (text : List UInt8) (hlen : text.length < size) (quiet : ℤ) :
      ∃ buf, buf.length = size ∧ (Answer.ret <$> sendFormatted E size text 3 (-5) (-4) quiet) h =
        (Answer.ret <$> sendRequest E text buf 3 (-5) (-4) quiet) h :=
    ⟨_, snprintf_length (by rw [List.length_map, List.length_range]) (Nat.zero_lt_of_lt hlen),
      map_congr (sendFormatted_eq hlen 3 (-5) (-4) quiet h)⟩
  rcases r with ⟨cmd, quiet⟩ | ⟨cmd, arg1, arg2⟩ | ⟨cmd, addr1, addr2, length⟩ |
    ⟨cmd, first, last, quiet⟩
  · exact ⟨(List.range 5).map (E.stack h.env), by rw [List.length_map, List.length_range]; rfl, rfl⟩
  · exact hformat repBufsize _ (Nat.lt_of_le_of_lt (twoArgsText_length cmd arg1 arg2) (by decide)) 0
  · exact hformat serialBufsize _
      (Nat.lt_of_le_of_lt (addressText_length cmd addr1 addr2 length) (by decide)) 0
  · have := hformat serialBufsize (twoArgsText cmd (toUnsigned first).toNat (toUnsigned last).toNat)
      (Nat.lt_of_le_of_lt (twoArgsText_length cmd _ _) (by decide)) quiet
    unfold send ispSendCmdSectors
    simp only [if_neg (Int.not_lt.2 (show first ≤ last from hr))]
    exact this

end Request

/-- Requests sent one after the other, and the values they return. -/
def session {σ : Type} (E : Sys σ) : List Request → Prog σ (List ℤ)
  | [] => pure []
  | r :: rs => do
    let ret ← r.send E
    (ret :: ·) <$> session E rs

/-- A device that answers every message with the next status, byte by byte. -/
def statusLine (arrive : ℕ → ℕ) : Line (List ℕ) where
  hear := fun statuses _ =>
    match statuses with
    | [] => ([], [])
    | s :: rest => ((statusText s).map ([·]), rest)
  arrive := arrive

/-- How many of the codes have two digits. -/
def longCodes (statuses : List ℕ) : ℕ := statuses.countP (10 ≤ ·)

/-- What three characters of a reply are, behind what an earlier one has left. -/
theorem take_statusText {left : List UInt8} {s : ℕ} (hleft : left = [] ∨ left = [10])
    (hs : s ≤ 19) (hfit : left = [] ∨ s < 10) : ∃ r,
    (left ++ statusText s).take 3 = left ++ (decimal s ++ 13 :: r) ∧
    (left ++ statusText s).drop 3 = if s < 10 then left else [10] := by
  by_cases hshort : s < 10
  · rw [if_pos hshort, statusText, decimal_of_lt hshort]
    rcases hleft with rfl | rfl
    · exact ⟨[10], rfl, rfl⟩
    · exact ⟨[], rfl, rfl⟩
  · rw [if_neg hshort]
    obtain rfl : left = [] := hfit.resolve_right hshort
    rw [statusText, decimal_of_le (Nat.le_of_not_lt hshort),
      decimal_of_lt (show s / 10 < 10 by omega)]
    exact ⟨[], rfl, rfl⟩

theorem strtoul_statusText {left : List UInt8} {s : ℕ} (hleft : left = [] ∨ left = [10])
    (hs : s ≤ 19) (hfit : left = [] ∨ s < 10) (buf : List UInt8) : ∃ rest,
    strtoul 10 (overlay buf 0 ((left ++ statusText s).take 3)) = some (s, rest) := by
  obtain ⟨tail, htake, -⟩ := take_statusText hleft hs hfit
  have hws : ∀ c ∈ left, isSpace c = true := by
    rcases hleft with rfl | rfl
    · simp
    · simp [isSpace]
  refine ⟨13 :: (tail ++ buf.drop (0 + (left ++ (decimal s ++ 13 :: tail)).length)), ?_⟩
  rw [htake, overlay, List.take_zero, List.nil_append, List.append_assoc, List.append_assoc]
  exact strtoul_decimal hws (by rw [ulongMax]; omega) (by decide) _

/-- What is left on the line stands for a code of two digits that has gone by. -/
theorem longCodes_next {left : List UInt8} {s : ℕ} {rest : List ℕ} (hfit : left = [] ∨ s < 10) :
    longCodes rest + (if s < 10 then left else [10]).length = longCodes (s :: rest) + left.length := by
  have hcons : longCodes (s :: rest) = longCodes rest + if 10 ≤ s then 1 else 0 := by
    simp [longCodes, List.countP_cons]
  by_cases hshort : s < 10
  · rw [hcons, if_pos hshort, if_neg (Nat.not_le.2 hshort), Nat.add_zero]
  · rw [hcons, if_neg hshort, if_pos (Nat.le_of_not_lt hshort), hfit.resolve_right hshort]
    rfl

section Session

variable {O : Sys (Wire (List ℕ))} (arrive : ℕ → ℕ) {h : Host (Wire (List ℕ))} {left : List UInt8}
  {s : ℕ} {rest : List ℕ}

theorem stream_status (hdev : h.env.dev = s :: rest) (hun : h.env.unread = left)
    (text : List UInt8) :
    (statusLine arrive).stream h.env text = left ++ statusText s := by
  rw [Line.stream, hun, statusLine, hdev]
  exact congrArg (left ++ ·) (flatten_singles _)

/-- One call: where the reply can be told from what is left of earlier ones, its status is
returned. -/
theorem send_status {r : Request} (hr : r.Sent) (h0 : h.nextReadChar = 0)
    (hdev : h.env.dev = s :: rest) (hun : h.env.unread = left) (hleft : left = [] ∨ left = [10])
    (hs : s ≤ 19) (hfit : left = [] ∨ s < 10) :
    .timeout ∈ (final (r.send ((statusLine arrive).sys O) h)).log ∨ ∃ h',
      r.send ((statusLine arrive).sys O) h = .ok s h' ∧ h'.nextReadChar = 0 ∧
      h'.env.dev = rest ∧ h'.env.unread = if s < 10 then left else [10] := by
  obtain ⟨buf, -, heq⟩ := Request.send_eq ((statusLine arrive).sys O) hr h
  have hstream := stream_status arrive hdev hun r.text
  obtain ⟨-, -, hdrop⟩ := take_statusText hleft hs hfit
  obtain ⟨tail, hcode⟩ := strtoul_statusText hleft hs hfit buf
  rw [← hstream] at hcode
  have hlt : s < errorCodes.length := Nat.lt_of_le_of_lt hs (by decide)
  rcases sendRequest_status buf (-5) (-4) r.quiet hr.text_lt h0 hcode hlt with
    htime | ⟨h', es, hsend, hR, -, -⟩
  · left
    rwa [heq, final_map]
  · right
    refine ⟨h', heq.trans (map_ok hsend), hR.nextReadChar.trans h0, ?_, ?_⟩
    · rw [hR.dev, Line.told, Line.wrote, statusLine, hdev]
    · rw [hR.unread, Line.told, Line.unread_wrote, hstream, hdrop]

theorem session_grows : ∀ (rs : List Request) (h : Host (Wire (List ℕ))), (∀ r ∈ rs, r.Sent) →
    Grows h (final (session ((statusLine arrive).sys O) rs h))
  | [], h, _ => .refl h
  | r :: rs, h, hrs => by
    unfold session
    obtain ⟨buf, -, heq⟩ := Request.send_eq ((statusLine arrive).sys O) (hrs r List.mem_cons_self) h
    refine bind_final (R := Grows) Grows.trans ?_ fun ret h₁ _ => ?_
    · rw [heq, final_map]
      exact Grows.sendRequest _ _ _ _ _ _ h
    · rw [final_map]
      exact session_grows rs h₁ fun r hr => hrs r (List.mem_cons_of_mem _ hr)

/-- A session of which the codes can all be told apart. -/
theorem session_statuses : ∀ (statuses : List ℕ) (rs : List Request) (left : List UInt8)
    (h : Host (Wire (List ℕ))), (∀ s ∈ statuses, s ≤ 19) → rs.length = statuses.length →
    (∀ r ∈ rs, r.Sent) → h.nextReadChar = 0 → h.env.dev = statuses → h.env.unread = left →
    left = [] ∨ left = [10] → longCodes statuses + left.length ≤ 1 →
    .timeout ∈ (final (session ((statusLine arrive).sys O) rs h)).log ∨
      value (session ((statusLine arrive).sys O) rs h) = some (statuses.map (↑))
  | [], rs, left, h, _, hlen, _, _, _, _, _, _ => by
    obtain rfl := List.length_eq_zero_iff.1 hlen
    exact .inr rfl
  | s :: rest, [], left, h, _, hlen, _, _, _, _, _, _ => by cases hlen
  | s :: rest, r :: rs, left, h, hle, hlen, hrs, h0, hdev, hun, hleft, hcount => by
    have hfit : left = [] ∨ s < 10 := by
      refine hleft.imp_right fun hl => Nat.lt_of_not_le fun hlong => ?_
      rw [longCodes, List.countP_cons, if_pos (by simpa using hlong), hl] at hcount
      simp at hcount
    unfold session
    rcases send_status arrive (O := O) (hrs r List.mem_cons_self) h0 hdev hun hleft
      (hle s List.mem_cons_self) hfit with htime | ⟨h₁, hsend, h0', hdev', hun'⟩
    · left
      rcases hx : r.send ((statusLine arrive).sys O) h with ⟨ret, h₁⟩ | ⟨e, h₁⟩
      · rw [hx, final_ok] at htime
        rw [bind_ok hx, final_map]
        exact (session_grows arrive rs h₁ fun r hr => hrs r (List.mem_cons_of_mem _ hr)).subset htime
      · rw [hx, final_error] at htime
        rwa [bind_error hx]
    · have ih := session_statuses rest rs _ h₁ (fun s hs => hle s (List.mem_cons_of_mem _ hs))
        (Nat.succ.inj hlen) (fun r hr => hrs r (List.mem_cons_of_mem _ hr)) h0' hdev' hun'
        (by split_ifs; exacts [hleft, .inr rfl]) (by rwa [longCodes_next hfit])
      rw [bind_ok hsend, final_map, value_map]
      exact ih.imp_right fun hvalue => by rw [hvalue]; rfl

end Session

section Misread

/-- A second code of two digits is read up to its last digit only. -/
theorem strtoul_unended : ∀ s, 10 ≤ s → s ≤ 19 →
    strtoul 10 (overlay (List.replicate 5 48) 0 (([10] ++ statusText s).take 3)) = none := by
  intro s h10 h19
  interval_cases s <;> decide

/-- A system whose stack memory is full of digits. -/
def digitsOnStack : Sys (Wire (List ℕ)) := { Sys.plain _ with stack := fun _ _ => 48 }

/-- The system with a device of which every reply is there at once. -/
def promptSys : Sys (Wire (List ℕ)) := (statusLine fun _ => 8).sys digitsOnStack

def unlockRequest : Request := .noArgs unlock 0

theorem unlockRequest_sent : unlockRequest.Sent := by
  unfold unlockRequest Request.Sent
  decide

variable {h : Host (Wire (List ℕ))} {left : List UInt8} {s : ℕ} {rest : List ℕ}

/-- Between two calls of the session. -/
structure Between (h : Host (Wire (List ℕ))) (statuses : List ℕ) (left : List UInt8) : Prop where
  nextReadChar : h.nextReadChar = 0
  dev : h.env.dev = statuses
  unread : h.env.unread = left
  pending : h.env.pending.length ≤ 1
  log : .timeout ∉ h.log

theorem statusText_length {s : ℕ} (hs : s ≤ 19) :
    3 ≤ (statusText s).length ∧ (statusText s).length ≤ 4 := by
  have hpos := decimal_length_pos s
  have hle := decimal_length_le 1 s (by omega)
  rw [statusText, List.length_append, show crlf.length = 2 from rfl]
  omega

theorem read_prompt (hb : Between h (s :: rest) left) (hs : s ≤ 19) (text : List UInt8) : ∃ h₁,
    Between h₁ rest ((left ++ statusText s).drop 3) ∧
    ispSerialRead promptSys 3 3 ((statusLine fun _ => 8).told h text) =
      .ok (toInt 3, (left ++ statusText s).take 3) h₁ := by
  have hstream := stream_status (fun _ => 8) hb.dev hb.unread text
  obtain ⟨h3, h4⟩ := statusText_length hs
  have hpend : ((statusLine fun _ => 8).wrote h.env text).pending.length ≤ 8 := by
    have := hb.pending
    simp only [Line.wrote, statusLine, hb.dev, List.length_append, List.length_map]
    omega
  have hlen : ((left ++ statusText s).take 3).length = 3 := by
    rw [List.length_take, List.length_append]
    omega
  obtain ⟨h₁, hread, hR, hpend', hlog⟩ := Line.ispSerialRead_eager (L := statusLine fun _ => 8)
    (O := digitsOnStack) (h := (statusLine fun _ => 8).told h text) (by decide) (Nat.le_refl 3)
    hb.nextReadChar hpend (by rw [Line.told, Line.unread_wrote, hstream, List.length_append]; omega)
  rw [Line.told, Line.unread_wrote, hstream, hlen] at hread hR
  refine ⟨h₁, ⟨hR.nextReadChar.trans hb.nextReadChar, ?_, ?_, hpend', ?_⟩, hread⟩
  · rw [hR.dev, Line.wrote, statusLine, hb.dev]
  · rw [hR.unread, Line.unread_wrote, hstream]
  · rw [hlog]
    exact hb.log

theorem Between.logged {statuses : List ℕ} (hb : Between h statuses left) {es : List Event}
    (hes : .timeout ∉ es) : Between (h.logged es) statuses left :=
  ⟨hb.nextReadChar, hb.dev, hb.unread, hb.pending, by simpa [Host.logged, hb.log] using hes⟩

/-- With digits left in the buffer, a second code of two digits runs off its end. -/
theorem session_misread : ∀ (statuses : List ℕ) (left : List UInt8) (h : Host (Wire (List ℕ))),
    (∀ s ∈ statuses, s ≤ 19) → Between h statuses left →
    left = [] ∨ left = [10] → 2 ≤ longCodes statuses + left.length →
    value (session promptSys (.replicate statuses.length unlockRequest) h) = none ∧
      .timeout ∉ (final (session promptSys (.replicate statuses.length unlockRequest) h)).log
  | [], left, h, _, _, hleft, hcount => by
    rcases hleft with rfl | rfl <;> simp [longCodes] at hcount
  | s :: rest, left, h, hle, hb, hleft, hcount => by
    have hs := hle s List.mem_cons_self
    obtain ⟨h₁, hb₁, hread⟩ := read_prompt hb hs unlock
    have hsend : unlockRequest.send promptSys h =
      (Answer.ret <$> sendRequest promptSys unlock (.replicate 5 48) 3 (-5) (-4) 0) h := rfl
    rw [List.length_cons, List.replicate_succ]
    unfold session
    by_cases hfit : left = [] ∨ s < 10
    · obtain ⟨-, -, hdrop⟩ := take_statusText hleft hs hfit
      obtain ⟨tail, hcode⟩ := strtoul_statusText hleft hs hfit (.replicate 5 48)
      obtain ⟨es, hes, hreq⟩ := sendRequest_of_read (.replicate 5 48) (-5) (-4) 0 (by decide)
        (by decide) (by decide) hread hcode (Nat.lt_of_le_of_lt hs (by decide))
      rw [hdrop] at hb₁
      have ih := session_misread rest _ (h₁.logged (es ++ [.request unlock (.status s)]))
        (fun s hs => hle s (List.mem_cons_of_mem _ hs)) (hb₁.logged (hes.timeout_not_mem _ _))
        (by split_ifs; exacts [hleft, .inr rfl]) (by rwa [longCodes_next hfit])
      rw [bind_ok (hsend.trans (map_ok hreq)), value_map, final_map, ih.1]
      exact ⟨rfl, ih.2⟩
    · rw [not_or, Nat.not_lt] at hfit
      have hask := askStatus_of_read (.replicate 5 48) (-5) (-4) 0 (by decide) (by decide) hread
      rw [hleft.resolve_left hfit.1] at hask
      have hfault : ispRetCode promptSys (overlay (List.replicate 5 48) 0
          (([10] ++ statusText s).take 3)) 0 h₁ = .error .replyBuffer h₁ := by
        unfold ispRetCode
        rw [strtoul_unended s hfit.2 hs]
        rfl
      have hreq : sendRequest promptSys unlock (.replicate 5 48) 3 (-5) (-4) 0 h =
          .error .replyBuffer h₁ := by
        unfold sendRequest
        exact bind_error (hask.trans (map_error hfault))
      rw [bind_error (hsend.trans (map_error hreq))]
      exact ⟨rfl, hb₁.log⟩

end Misread

/-- Every call returns the status of its own request, however the replies arrive and whatever the
requests and the stack hold, if and only if at most one of the codes has two digits. -/
theorem session_statuses_iff {statuses : List ℕ} (hle : ∀ s ∈ statuses, s ≤ 19) :
    (∀ (O : Sys (Wire (List ℕ))) (arrive : ℕ → ℕ) (rs : List Request) (c c' : ℕ),
      rs.length = statuses.length → (∀ r ∈ rs, r.Sent) →
      let run := session ((statusLine arrive).sys O) rs (.start (.quiet statuses) 0 c c')
      .timeout ∉ (final run).log → value run = some (statuses.map (↑))) ↔
    longCodes statuses ≤ 1 := by
  constructor
  · intro hall
    by_contra hlong
    obtain ⟨hnone, htime⟩ := session_misread statuses [] (.start (.quiet statuses) 0 0 0) hle
      ⟨rfl, rfl, rfl, by simp [Host.start, Wire.quiet], by simp [Host.start]⟩ (.inl rfl)
      (by rw [List.length_nil, Nat.add_zero]; omega)
    have := hall digitsOnStack (fun _ => 8) (.replicate statuses.length unlockRequest) 0 0
      List.length_replicate (fun r hr => List.eq_of_mem_replicate hr ▸ unlockRequest_sent) htime
    rw [promptSys] at hnone
    rw [hnone] at this
    cases this
  · intro hcount O arrive rs c c' hlen hrs run htime
    exact (session_statuses arrive statuses rs [] _ hle hlen hrs rfl rfl rfl (.inl rfl)
      (by simpa using hcount)).resolve_left htime

theorem session_statuses_iff_five :
    value (session ((statusLine fun _ => 8).sys (Sys.plain _)) (.replicate 5 unlockRequest)
      (.start (.quiet [0, 8, 19, 7, 0]) 0 0 0)) = some [0, 8, 19, 7, 0] :=
  (session_statuses_iff (by decide)).2 (by decide) (Sys.plain _) (fun _ => 8)
    (.replicate 5 unlockRequest) 0 0 rfl
    (fun r hr => List.eq_of_mem_replicate hr ▸ unlockRequest_sent) (by decide +kernel)

/-- Three unlock requests answered with code 19: the third call returns 1. -/
theorem session_statuses_misread :
    let run := session ((statusLine fun _ => 8).sys (Sys.plain _)) (.replicate 3 unlockRequest)
      (.start (.quiet [19, 19, 19]) 0 0 0)
    .timeout ∉ (final run).log ∧ value run = some [19, 19, 1] := by
  decide +kernel

end LpcTools
