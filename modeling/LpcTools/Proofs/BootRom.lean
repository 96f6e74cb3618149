import LpcTools.Identify
import LpcTools.Proofs.Lagged

/-!
# Connecting to a boot ROM

A boot ROM that waits for the question mark is synchronised. One that is synchronised already takes it
for the start of its next line, so that the first request for the part id is refused, and the second
is answered. Nothing is left on the line either way.
-/

namespace LpcTools

open Run Decimal Uuencode LateLine

/-- What a boot ROM waits for: the character that tells it the speed, the line that acknowledges its
answer, the frequency, or a command. -/
inductive BootPhase where
  | waiting
  | synchronizing
  | clocking
  | commanding
  deriving DecidableEq

structure BootRom where
  phase : BootPhase
  echo : Bool
  /-- The start of a line, of which the rest has not come yet. -/
  line : List UInt8

namespace BootRom

/-- A device that has just been reset. -/
def reset (echo : Bool) : BootRom := ⟨.waiting, echo, []⟩

/-- A device that is synchronised, with its echo off. -/
def synced : BootRom := ⟨.commanding, false, []⟩

variable (id : ℕ) (other : BootRom → List UInt8 → List UInt8 × BootRom)

/-- What comes of a whole line. The commands that are not sent here do as `other` says. -/
def obey (r : BootRom) (line : List UInt8) : List UInt8 × BootRom :=
  match r.phase with
  | .waiting => ([], r)
  | .synchronizing =>
    if line = synchro then (synchroOk, { r with phase := .clocking })
    else ([], { r with phase := .waiting })
  | .clocking => (synchroOk, { r with phase := .commanding })
  | .commanding =>
    if line = synchroEchoOff then (statusText 0, { r with echo := false })
    else if line = readPartId then (statusText 0 ++ (decimal id ++ crlf), r)
    -- no command starts with the question mark
    else if line.head? = some '?'.toUInt8 then (statusText 1, r)
    else other r line

/-- What comes of a character. -/
def receive (r : BootRom) (c : UInt8) : List UInt8 × BootRom :=
  if r.phase = .waiting then
    if c = '?'.toUInt8 then (synchro, ⟨.synchronizing, true, []⟩) else ([], r)
  else if c = '\n'.toUInt8 then
    let (reply, r') := obey id other { r with line := [] } (r.line ++ [c])
    ((if r.echo then [c] else []) ++ reply, r')
  else (if r.echo then [c] else [], { r with line := r.line ++ [c] })

/-- What comes of a message. -/
def hear (r : BootRom) : List UInt8 → List UInt8 × BootRom
  | [] => ([], r)
  | c :: cs =>
    let (out, r') := receive id other r c
    let (more, r'') := hear r' cs
    (out ++ more, r'')

variable {id : ℕ} {other : BootRom → List UInt8 → List UInt8 × BootRom}

/-- A line is echoed and then obeyed, with what had come of it before. -/
theorem hear_line {body : List UInt8} (hbody : '\n'.toUInt8 ∉ body) : ∀ {r : BootRom},
    r.phase ≠ .waiting → r.hear id other (body ++ ['\n'.toUInt8]) =
      ((if r.echo then body ++ ['\n'.toUInt8] else []) ++
        (obey id other { r with line := [] } (r.line ++ (body ++ ['\n'.toUInt8]))).1,
      (obey id other { r with line := [] } (r.line ++ (body ++ ['\n'.toUInt8]))).2) := by
  induction body with
  | nil =>
    intro r hr
    simp only [List.nil_append, hear, receive, if_neg hr, if_true, List.append_nil]
  | cons c body ih =>
    intro r hr
    have hc : c ≠ '\n'.toUInt8 := fun he => hbody (he ▸ List.mem_cons_self)
    have := ih (fun hm => hbody (List.mem_cons_of_mem c hm)) (r := { r with line := r.line ++ [c] }) hr
    simp only [List.cons_append, hear, receive, if_neg hr, if_neg hc, this]
    rcases r.echo with _ | _ <;> simp

end BootRom

/-- A line with a boot ROM at its end. -/
def bootLine (id : ℕ) (other : BootRom → List UInt8 → List UInt8 × BootRom) (lag : ℕ → ℕ) :
    LateLine BootRom :=
  ⟨BootRom.hear id other, lag⟩

theorem bootLine_hear (id : ℕ) (other : BootRom → List UInt8 → List UInt8 × BootRom) (lag : ℕ → ℕ) :
    (bootLine id other lag).hear = BootRom.hear id other := rfl

section Texts

theorem Unended.feed_not_mem {line : List UInt8} (hline : Unended line) :
    '\n'.toUInt8 ∉ line ++ ['\r'.toUInt8] := by
  intro hm
  rcases List.mem_append.1 hm with hm | hm
  · exact absurd (hline _ hm) (by decide)
  · exact absurd (List.mem_singleton.1 hm) (by decide)

end Texts

section Connect

variable {id : ℕ} {other : BootRom → List UInt8 → List UInt8 × BootRom} {lag : ℕ → ℕ}
  {O : Sys (Lagged BootRom)} {h : Host (Lagged BootRom)} {fuel : ℕ} {freq : UInt32}

/-- A line that is echoed and obeyed. -/
theorem hear_echoed {r : BootRom} (hr : r.phase ≠ .waiting) (hecho : r.echo = true)
    (hempty : r.line = []) {line : List UInt8} (hline : Unended line) :
    (bootLine id other lag).hear r (line ++ crlf) =
      (line ++ crlf ++ (r.obey id other (line ++ crlf)).1, (r.obey id other (line ++ crlf)).2) := by
  have hr' : { r with line := [] } = r := by rw [← hempty]
  have hsplit : line ++ crlf = line ++ ['\r'.toUInt8] ++ ['\n'.toUInt8] := by
    rw [List.append_assoc]
    rfl
  rw [bootLine_hear, hsplit, BootRom.hear_line hline.feed_not_mem hr, if_pos hecho, hr', hempty,
    List.nil_append]

theorem hear_start (echo : Bool) : (bootLine id other lag).hear (.reset echo) synchroStart =
    (synchro, ⟨.synchronizing, true, []⟩) := rfl

/-- The synchronisation text without its line end. -/
def synchroLine : List UInt8 :=
  bytes ['S', 'y', 'n', 'c', 'h', 'r', 'o', 'n', 'i', 'z', 'e', 'd']

theorem hear_synchro : (bootLine id other lag).hear ⟨.synchronizing, true, []⟩ (synchroLine ++ crlf) =
    (synchroLine ++ crlf ++ synchroOk, ⟨.clocking, true, []⟩) := by
  rw [hear_echoed (by decide) rfl rfl (by decide)]
  simp only [BootRom.obey, if_pos (show synchroLine ++ crlf = synchro by decide)]

theorem hear_freq {line : List UInt8} (hline : Unended line) :
    (bootLine id other lag).hear ⟨.clocking, true, []⟩ (line ++ crlf) =
      (line ++ crlf ++ synchroOk, ⟨.commanding, true, []⟩) := by
  rw [hear_echoed (by decide) rfl rfl hline]
  rfl

theorem hear_echoOff : (bootLine id other lag).hear ⟨.commanding, true, []⟩
    (bytes ['A', ' ', '0'] ++ crlf) = (bytes ['A', ' ', '0'] ++ crlf ++ statusText 0, .synced) := by
  have hobey : (⟨.commanding, true, []⟩ : BootRom).obey id other (bytes ['A', ' ', '0'] ++ crlf) =
      (statusText 0, .synced) := by
    unfold BootRom.obey
    exact if_pos (by decide)
  rw [hear_echoed (by decide) rfl rfl (by decide), hobey]

theorem take_overlay_self (buf text : List UInt8) : (overlay buf 0 text).take text.length = text := by
  rw [overlay_zero, List.take_left' rfl]

/-- A session is opened with a device that waits for it. -/
theorem ispConnect_reset (hlag : ∀ k, lag k ≤ 101) (hfreq : freq.toNat < 10 ^ 5) (hfuel : 114 ≤ fuel)
    {echo : Bool} (hs : Stands h (.reset echo) []) : ∃ h',
      ispConnect ((bootLine id other lag).sys O) fuel freq h = .ok (some 1) h' ∧
      Stands h' .synced [] := by
  have hfit : synchro.length ≤ repBufsize := by decide
  have hok : synchroOk.length ≤ repBufsize := by decide
  have hpos : 0 < synchroOk.length := by decide
  have hdigits := decimal_length_le 4 _ hfreq
  obtain ⟨stack, hstack⟩ : ∃ stack, (List.range repBufsize).map
      (((bootLine id other lag).sys O).stack h.env) = stack := ⟨_, rfl⟩
  -- the answer to the question mark
  obtain ⟨h₁, hwrite, hs₁⟩ := hs.write (L := bootLine id other lag) (O := O) hlag synchroStart
  rw [hear_start, List.nil_append] at hs₁
  obtain ⟨h₂, hread, hs₂⟩ := hs₁.read (L := bootLine id other lag) (O := O)
    (show 0 < synchro.length by decide) hfit
  rw [List.take_of_length_le hfit] at hread
  rw [List.drop_of_length_le hfit] at hs₂
  -- its acknowledgement, the frequency and the end of the echo
  obtain ⟨h₃, hsync, hs₃⟩ := hs₂.exchange (L := bootLine id other lag) (O := O) fuel hlag
    (by decide) hear_synchro (by rw [show synchroLine.length = 12 from rfl]; omega) hpos hok hok
    (overlay stack 0 synchro)
  obtain ⟨h₄, hclock, hs₄⟩ := hs₃.exchange (L := bootLine id other lag) (O := O) fuel hlag
    (unended_decimal freq.toNat) (hear_freq (unended_decimal freq.toNat)) (by omega) hpos hok hok
    (overlay (overlay stack 0 synchro) 0 synchroOk)
  obtain ⟨h₅, hoff, hs₅⟩ := hs₄.exchange (L := bootLine id other lag) (O := O) fuel hlag
    (by decide) hear_echoOff (by rw [show (bytes ['A', ' ', '0']).length = 3 from rfl]; omega)
    (show 0 < 3 by decide) (by decide) (by decide)
    (overlay (overlay (overlay stack 0 synchro) 0 synchroOk) 0 synchroOk)
  refine ⟨h₅, ?_, hs₅⟩
  rw [show synchroLine ++ crlf = synchro by decide] at hsync
  rw [show bytes ['A', ' ', '0'] ++ crlf = synchroEchoOff by decide] at hoff
  have hacked (buf text : List UInt8) : ¬ (overlay buf 0 text).take text.length ≠ text :=
    not_not.2 (take_overlay_self buf text)
  unfold ispConnect
  rw [bind_ok (uninit_apply _ _ _), hstack, bind_ok hwrite, if_neg (by decide), bind_ok hread]
  simp only [if_neg (show ¬ toInt synchro.length < 0 by decide)]
  rw [if_neg (hacked _ _), bind_ok hsync]
  simp only []
  rw [if_neg (hacked _ _), freqText_eq hfreq, bind_ok hclock]
  simp only []
  rw [if_neg (hacked _ _), bind_ok hoff]
  rfl

/-- A device that is synchronised takes the question mark for the start of a line. -/
def spoiled : BootRom := ⟨.commanding, false, synchroStart⟩

theorem hear_spoiling : (bootLine id other lag).hear .synced synchroStart = ([], spoiled) := rfl

/-- No session is opened with a device that is synchronised, which answers nothing. -/
theorem ispConnect_synced (hlag : ∀ k, lag k ≤ 101) (hs : Stands h .synced [])
    (hstack : ((List.range repBufsize).map (O.stack h.env)).take synchro.length ≠ synchro) : ∃ h',
      ispConnect ((bootLine id other lag).sys O) fuel freq h = .ok (some (-3)) h' ∧
      Stands h' spoiled [] := by
  obtain ⟨h₁, hwrite, hs₁⟩ := hs.write (L := bootLine id other lag) (O := O) hlag synchroStart
  rw [hear_spoiling, List.nil_append] at hs₁
  obtain ⟨h₂, hread, hs₂⟩ := hs₁.read (L := bootLine id other lag) (O := O)
    (show 0 < synchro.length by decide) (show synchro.length ≤ repBufsize by decide)
  rw [List.take_nil] at hread
  rw [List.drop_nil] at hs₂
  have hother : ((List.range repBufsize).map (((bootLine id other lag).sys O).stack h.env)).take
      synchro.length ≠ synchro := hstack
  refine ⟨h₂, ?_, hs₂⟩
  unfold ispConnect
  rw [bind_ok (uninit_apply _ _ _), bind_ok hwrite, if_neg (by decide), bind_ok hread]
  simp only [if_neg (show ¬ toInt ([] : List UInt8).length < 0 by decide), overlay_nil]
  rw [if_pos hother]
  rfl

/-- A request is taken with what had come of its line before. -/
theorem hear_request (line : List UInt8) :
    (bootLine id other lag).hear ⟨.commanding, false, line⟩ readPartId =
      (BootRom.synced.obey id other (line ++ readPartId)) := by
  have hsplit : readPartId = ['J'.toUInt8, '\r'.toUInt8] ++ ['\n'.toUInt8] := rfl
  rw [bootLine_hear, hsplit, BootRom.hear_line (by decide) (r := ⟨.commanding, false, line⟩)
    (show BootPhase.commanding ≠ .waiting by decide), if_neg Bool.false_ne_true]
  rfl

/-- The request of which the line is spoiled is refused. -/
theorem hear_refused : (bootLine id other lag).hear spoiled readPartId =
    (statusText 1 ++ [], .synced) := by
  rw [spoiled, hear_request, BootRom.obey, BootRom.synced]
  simp only [if_neg (show synchroStart ++ readPartId ≠ synchroEchoOff by decide),
    if_neg (show synchroStart ++ readPartId ≠ readPartId by decide), List.append_nil]
  exact if_pos rfl

theorem hear_partId : (bootLine id other lag).hear .synced readPartId =
    (statusText 0 ++ (decimal id ++ crlf), .synced) := by
  rw [BootRom.synced, hear_request, BootRom.obey, BootRom.synced]
  simp only [List.nil_append, if_neg (show readPartId ≠ synchroEchoOff by decide), if_true]

theorem ispCmdPartId_spoiled (hlag : ∀ k, lag k ≤ 101) (hs : Stands h spoiled []) : ∃ h',
    ispCmdPartId ((bootLine id other lag).sys O) 1 h = .ok 1 h' ∧ Stands h' .synced [] := by
  obtain ⟨h₁, hsend, hs₁⟩ := hs.request (L := bootLine id other lag) (O := O) hlag (by decide)
    (by decide) hear_refused 1
  refine ⟨h₁, ?_, hs₁⟩
  unfold ispCmdPartId readReply
  rw [bind_ok (uninit_apply _ _ _), bind_ok hsend]
  rfl

/-- The id is read to the end of its line. -/
theorem ispCmdPartId_synced (hlag : ∀ k, lag k ≤ 101) (hid : id < 2 ^ 31) (hs : Stands h .synced []) :
    ∃ h', ispCmdPartId ((bootLine id other lag).sys O) 1 h = .ok id h' ∧ Stands h' .synced [] := by
  have hlen := decimal_length_le 9 id (by omega)
  have hfit : (decimal id ++ crlf).length ≤ repBufsize := by
    rw [List.length_append, show crlf.length = 2 from rfl, repBufsize]
    omega
  have hpos := decimal_length_pos id
  obtain ⟨h₁, hsend, hs₁⟩ := hs.request (L := bootLine id other lag) (O := O) hlag (by decide)
    (by decide) hear_partId 1
  obtain ⟨h₂, hread, hs₂⟩ := hs₁.read (L := bootLine id other lag) (O := O) (show 0 < 15 by decide)
    (show 15 ≤ repBufsize by decide)
  rw [List.take_of_length_le hfit] at hread
  rw [List.drop_of_length_le hfit] at hs₂
  refine ⟨h₂.emit (.replied (0 < toInt (decimal id ++ crlf).length)), ?_, hs₂.emit _⟩
  have hmore : readMore ((bootLine id other lag).sys O) repBufsize 15 h₁ =
      .ok (toInt (decimal id ++ crlf).length, decimal id ++ crlf)
        (h₂.emit (.replied (0 < toInt (decimal id ++ crlf).length))) := by
    unfold readMore
    rw [bind_ok hread]
    rfl
  unfold ispCmdPartId readReply
  rw [bind_ok (uninit_apply _ _ _), bind_ok hsend, if_neg (by decide), bind_ok hmore]
  have hlt : ¬ toInt (decimal id ++ crlf).length ≤ 0 := by
    rw [toInt_of_lt (by rw [repBufsize] at hfit; omega), List.length_append]
    omega
  obtain ⟨rest, hnumber⟩ : ∃ rest, strtoul 10 (overlay ((List.range repBufsize).map
      (((bootLine id other lag).sys O).stack h.env)) 0 (decimal id ++ crlf)) = some (id, rest) := by
    rw [overlay_zero, List.append_assoc]
    exact ⟨_, strtoul_decimal (show ∀ c ∈ ([] : List UInt8), isSpace c = true by simp)
      (by rw [ulongMax]; omega) (by decide) _⟩
  simp only [if_neg hlt, readNumbers, hnumber, Option.bind_eq_bind, Option.bind_some, List.headD_cons,
    toInt_of_lt hid]
  rfl

end Connect

/-- Whichever of the two states a boot ROM is in, its id is returned and nothing is left over. -/
theorem progConnectAndId_connects {id : ℕ} (hid : id < 2 ^ 31)
    (other : BootRom → List UInt8 → List UInt8 × BootRom) {lag : ℕ → ℕ} (hlag : ∀ k, lag k ≤ 101)
    {O : Sys (Lagged BootRom)} {rom : BootRom} (hrom : (∃ echo, rom = .reset echo) ∨ rom = .synced)
    (hstack : ((List.range repBufsize).map (O.stack (.idle rom))).take synchro.length ≠ synchro)
    {freq : UInt32} (hfreq : freq.toNat < 10 ^ 5) {fuel : ℕ} (hfuel : 114 ≤ fuel) (c c' : ℕ) : ∃ h',
      progConnectAndId ((bootLine id other lag).sys O) fuel freq (.start (.idle rom) 0 c c') =
        .ok (some (id : ℤ)) h' ∧ h'.env.unread = [] ∧ h'.nextReadChar = 0 := by
  have hs : Stands (.start (.idle rom) 0 c c') rom [] := ⟨rfl, rfl, Nat.zero_le _, rfl⟩
  have hsync : ∃ h₁, syncTarget ((bootLine id other lag).sys O) fuel freq (.start (.idle rom) 0 c c') =
      .ok true h₁ ∧ Stands h₁ .synced [] := by
    unfold syncTarget
    rcases hrom with ⟨echo, rfl⟩ | rfl
    · obtain ⟨h₁, hconnect, hs₁⟩ : ∃ h₁, ispConnect ((bootLine id other lag).sys O) fuel freq
          (.start (.idle (.reset echo)) 0 c c') = .ok (some 1) h₁ ∧ Stands h₁ .synced [] :=
        ispConnect_reset hlag hfreq hfuel hs
      refine ⟨h₁, ?_, hs₁⟩
      rw [bind_ok hconnect]
      rfl
    · obtain ⟨h₁, hconnect, hs₁⟩ : ∃ h₁, ispConnect ((bootLine id other lag).sys O) fuel freq
          (.start (.idle .synced) 0 c c') = .ok (some (-3)) h₁ ∧ Stands h₁ spoiled [] :=
        ispConnect_synced hlag hs hstack
      obtain ⟨h₂, hrefused, hs₂⟩ : ∃ h₂, ispCmdPartId ((bootLine id other lag).sys O) 1 h₁ =
          .ok 1 h₂ ∧ Stands h₂ .synced [] := ispCmdPartId_spoiled hlag hs₁
      refine ⟨h₂, ?_, hs₂⟩
      rw [bind_ok hconnect]
      simp only []
      rw [if_pos (by decide), bind_ok hrefused]
      rfl
  obtain ⟨h₁, hdone, hs₁⟩ := hsync
  obtain ⟨h₂, hpart, hs₂⟩ : ∃ h₂, ispCmdPartId ((bootLine id other lag).sys O) 1 h₁ = .ok id h₂ ∧
      Stands h₂ .synced [] := ispCmdPartId_synced hlag hid hs₁
  refine ⟨h₂, ?_, hs₂.unread, hs₂.nextReadChar⟩
  unfold progConnectAndId
  rw [bind_ok hdone, if_pos rfl]
  exact map_ok hpart

theorem progConnectAndId_connects_synced : ∃ h', progConnectAndId
    ((bootLine 637615927 (fun r _ => ([], r)) fun k => k % 102).sys (Sys.plain _)) 114 10000
      (.start (.idle .synced) 0 0 0) = .ok (some 637615927) h' ∧ h'.env.unread = [] ∧
        h'.nextReadChar = 0 :=
  progConnectAndId_connects (by decide) _ (fun k => by omega) (.inr rfl) (by decide) (by decide)
    (by decide) 0 0

end LpcTools
