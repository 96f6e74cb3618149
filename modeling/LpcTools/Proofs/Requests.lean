import LpcTools.Proofs.Frame
import LpcTools.Wire

/-!
# What a request does

To the log it adds, whatever the line does; and on a line with a device at its end it returns the
status read off the bytes that were waiting and the reply to it.
-/

namespace LpcTools

open Run Decimal Uuencode

theorem Grows.sendRequest {σ : Type} {E : Sys σ} (text buf : List UInt8) (readSize : ℕ)
    (unsent silent quiet : ℤ) (h : Host σ) :
    Grows h (final (sendRequest E text buf readSize unsent silent quiet h)) :=
  (Grows.frame E).sendRequest (fun _ _ _ => .emit _ _) _ _ _ _ _ _ h

/-- Events that only say what a code means. -/
def Codes (es : List Event) : Prop := ∀ e ∈ es, ∃ code name, e = .errorCode code name

theorem Codes.nil : Codes [] := fun e he => by cases he

theorem Codes.single (code : ℕ) (name : Option String) : Codes [.errorCode code name] :=
  fun _ he => ⟨code, name, List.mem_singleton.1 he⟩

theorem Codes.timeout_not_mem {es : List Event} (hes : Codes es) (text : List UInt8)
    (answer : Answer) : .timeout ∉ es ++ [.request text answer] := by
  intro hm
  rcases List.mem_append.1 hm with hm | hm
  · obtain ⟨code, name, he⟩ := hes _ hm
    cases he
  · cases List.mem_singleton.1 hm

/-- A code that is in the table is returned as it is read. -/
theorem ispRetCode_eq {σ : Type} {E : Sys σ} {buf rest : List UInt8} {v : ℕ} (quiet : ℤ)
    (h : Host σ) (hv : strtoul 10 buf = some (v, rest)) (hlt : v < errorCodes.length) :
    ∃ es, Codes es ∧ ispRetCode E buf quiet h = .ok v (h.logged es) := by
  have hlen : errorCodes.length = 20 := rfl
  have hmod : v % 2 ^ 32 = v := by omega
  unfold ispRetCode
  simp only [hv, hmod, toInt_of_lt (show v < 2 ^ 31 by omega)]
  by_cases hq : quiet ≠ 1
  · rw [if_pos hq, if_neg (by omega)]
    by_cases hne : v ≠ 0 ∨ E.traceOn = true
    · rw [if_pos hne, List.getElem?_eq_getElem hlt]
      exact ⟨[.errorCode v (some errorCodes[v])], .single _ _, rfl⟩
    · rw [if_neg hne]
      exact ⟨[], .nil, by simp [Host.logged]⟩
  · rw [if_neg hq]
    exact ⟨[], .nil, by simp [Host.logged]⟩

section Texts

variable {σ : Type} {E : Sys σ}

/-- A request that fits the buffer goes out whole. -/
theorem sendFormatted_eq {size : ℕ} {text : List UInt8} (hlen : text.length < size) (n : ℕ)
    (unsent silent quiet : ℤ) (h : Host σ) :
    sendFormatted E size text n unsent silent quiet h =
      sendRequest E text (snprintf ((List.range size).map (E.stack h.env)) size text) n unsent
        silent quiet h := by
  have htext : (snprintf ((List.range size).map (E.stack h.env)) size text).take
      (min text.length size) = text := by
    have hfit : text.take (size - 1) = text := List.take_of_length_le (by omega)
    rw [snprintf, Nat.min_eq_left (Nat.le_of_lt hlen), hfit, overlay, List.take_zero,
      List.nil_append, List.append_assoc, List.take_left' rfl]
  unfold sendFormatted
  rw [bind_ok (uninit_apply _ _ _), htext]

theorem decimal_length_uint32 (n : UInt32) : (decimal n.toNat).length ≤ 10 :=
  decimal_length_le 9 _ (Nat.lt_trans n.toNat_lt (by decide))

theorem twoArgsText_length (cmd : UInt8) (arg1 arg2 : UInt32) :
    (twoArgsText cmd arg1.toNat arg2.toNat).length ≤ 25 := by
  have h1 := decimal_length_uint32 arg1
  have h2 := decimal_length_uint32 arg2
  simp only [twoArgsText, List.length_cons, List.length_append, show crlf.length = 2 from rfl]
  omega

theorem ispSendCmdTwoArgs_eq (cmd : UInt8) (arg1 arg2 : UInt32) (h : Host σ) : ∃ buf,
    ispSendCmdTwoArgs E cmd arg1 arg2 h =
      (Answer.ret <$> sendRequest E (twoArgsText cmd arg1.toNat arg2.toNat) buf 3 (-5) (-4) 0) h := by
  have hlen := twoArgsText_length cmd arg1 arg2
  refine ⟨_, map_congr (sendFormatted_eq ?_ 3 (-5) (-4) 0 h)⟩
  rw [repBufsize]
  omega

end Texts

def statusText (s : ℕ) : List UInt8 := decimal s ++ crlf

theorem statusText_length_of_lt {s : ℕ} (hs : s < 10) : (statusText s).length = 3 := by
  rw [statusText, decimal_of_lt hs]
  rfl

theorem strtoul_status (buf : List UInt8) {s : ℕ} (hs : s < 10) :
    strtoul 10 (overlay buf 0 (statusText s)) = some (s, 13 :: 10 :: buf.drop 3) := by
  rw [overlay, List.take_zero, List.nil_append, Nat.zero_add, statusText_length_of_lt hs, statusText,
    List.append_assoc]
  exact strtoul_decimal (show ∀ c ∈ ([] : List UInt8), isSpace c = true by simp)
    (by rw [ulongMax]; omega) (by decide) _

section Sys

variable {δ : Type} {L : Line δ} {O : Sys (Wire δ)} {h : Host (Wire δ)}

/-- The bytes the host finds after a message: those it had not read, and the reply. -/
def Line.stream (L : Line δ) (w : Wire δ) (text : List UInt8) : List UInt8 :=
  w.unread ++ (L.hear w.dev text).1.flatten

theorem Line.unread_wrote (w : Wire δ) (text : List UInt8) :
    (L.wrote w text).unread = L.stream w text := by
  rw [Wire.unread, Line.wrote, List.flatten_append]
  rfl

section Read

variable {text got tail : List UInt8} {n k s : ℕ} (buf : List UInt8) (unsent silent quiet : ℤ)
  {h₁ : Host (Wire δ)}

/-- A request goes on from the read of its status. -/
theorem askStatus_of_read (htext : text.length < 2 ^ 31) (hk : k < 2 ^ 31)
    (hread : ispSerialRead (L.sys O) n 3 (L.told h text) = .ok (toInt k, got) h₁) :
    askStatus (L.sys O) text buf n unsent silent quiet h =
      if k = 0 then .ok (.failed silent) h₁
      else (Answer.status <$> ispRetCode (L.sys O) (overlay buf 0 got) quiet) h₁ := by
  unfold askStatus
  rw [bind_ok (Line.ispSerialWrite_sys text h), toInt_of_lt htext, if_neg (not_not.2 rfl),
    bind_ok hread, toInt_of_lt hk]
  by_cases hk0 : k = 0
  · rw [if_pos hk0]
    simp only [if_pos (show (k : ℤ) ≤ 0 by omega)]
    rfl
  · rw [if_neg hk0]
    simp only [if_neg (show ¬ (k : ℤ) ≤ 0 by omega)]

theorem sendRequest_of_read (htext : text.length < 2 ^ 31) (hk : k < 2 ^ 31) (hk0 : k ≠ 0)
    (hread : ispSerialRead (L.sys O) n 3 (L.told h text) = .ok (toInt k, got) h₁)
    (hs : strtoul 10 (overlay buf 0 got) = some (s, tail)) (hlt : s < errorCodes.length) :
    ∃ es, Codes es ∧ sendRequest (L.sys O) text buf n unsent silent quiet h =
      .ok (.status s) (h₁.logged (es ++ [.request text (.status s)])) := by
  obtain ⟨es, hes, hcode⟩ := ispRetCode_eq (E := L.sys O) quiet h₁ hs hlt
  have hask := askStatus_of_read buf unsent silent quiet htext hk hread
  rw [if_neg hk0, map_ok hcode] at hask
  refine ⟨es, hes, ?_⟩
  have hlog : h₁.logged (es ++ [.request text (.status s)]) =
      (h₁.logged es).emit (.request text (.status s)) := by
    simp [Host.emit, Host.logged]
  unfold sendRequest
  rw [bind_ok hask, hlog]
  rfl

theorem sendRequest_read_grows (htext : text.length < 2 ^ 31) (hk : k < 2 ^ 31)
    (hread : ispSerialRead (L.sys O) n 3 (L.told h text) = .ok (toInt k, got) h₁) :
    Grows h₁ (final (sendRequest (L.sys O) text buf n unsent silent quiet h)) := by
  have hask := askStatus_of_read buf unsent silent quiet htext hk hread
  have hgrow : Grows h₁ (final (askStatus (L.sys O) text buf n unsent silent quiet h)) := by
    rw [hask]
    by_cases hk0 : k = 0
    · rw [if_pos hk0]
      exact .refl h₁
    · rw [if_neg hk0, final_map]
      exact (Grows.frame _).ispRetCode _ _ h₁
  unfold sendRequest
  exact bind_final (R := fun _ => Grows h₁) (fun _ hq => hq) hgrow fun answer h₂ hx => by
    rw [hx, final_ok] at hgrow
    exact hgrow.trans (Grows.emit _ _)

/-- A request whose status is read whole, in three characters at most, returns it unless the host
has given up. -/
theorem sendRequest_status (htext : text.length < 2 ^ 31) (h0 : h.nextReadChar = 0)
    (hs : strtoul 10 (overlay buf 0 ((L.stream h.env text).take 3)) = some (s, tail))
    (hlt : s < errorCodes.length) :
    .timeout ∈ (final (sendRequest (L.sys O) text buf 3 unsent silent quiet h)).log ∨ ∃ h' es,
      sendRequest (L.sys O) text buf 3 unsent silent quiet h = .ok (.status s) h' ∧
      Line.Read (L.told h text) 3 h' ∧ Codes es ∧
      h'.log = h.log ++ (es ++ [.request text (.status s)]) := by
  obtain ⟨k, h₁, hread, hR, hk, hlog⟩ := Line.ispSerialRead_sys (L := L) (O := O) (Nat.le_refl 3)
    (h := L.told h text) h0 (by decide)
  rcases hlog with ⟨hk', hlog⟩ | hlog
  · right
    obtain rfl : k = 3 := Nat.le_antisymm hk hk'
    rw [Line.told, Line.unread_wrote] at hread
    obtain ⟨es, hes, hsend⟩ := sendRequest_of_read buf unsent silent quiet htext (by decide)
      (by decide) hread hs hlt
    exact ⟨_, es, hsend, hR.logged _, hes, congrArg (· ++ (es ++ [.request text (.status s)])) hlog⟩
  · left
    exact (sendRequest_read_grows buf unsent silent quiet htext (by omega) hread).subset (by rw [hlog]; simp)

/-- A status that arrives whole leaves what comes behind it, of which some pieces may have arrived
with it. -/
theorem sendRequest_piece {d : δ} (cs : List (List UInt8)) (hp : Line.Prompt L.arrive)
    (h0 : h.nextReadChar = 0) (hpend : h.env.pending = [])
    (hhear : L.hear h.env.dev text = (statusText s :: cs, d)) (htext : text.length < 2 ^ 31)
    (hs : s < 10) :
    ∃ k h' es, sendRequest (L.sys O) text buf 3 unsent silent quiet h = .ok (.status s) h' ∧
      Line.Read (L.told h text) 3 h' ∧
      h'.env.pending = rest (cs.take k).flatten 0 ++ cs.drop k ∧ Codes es ∧
      h'.log = h.log ++ (es ++ [.request text (.status s)]) := by
  have hpend' : (L.told h text).env.pending = statusText s :: cs := by
    rw [Line.told, Line.wrote, hhear, hpend]
    rfl
  have hlen := statusText_length_of_lt hs
  obtain ⟨k, h₁, hk, hread, hR, hpend₁, hlog⟩ := Line.ispSerialRead_piece (L := L) (O := O)
    (h := L.told h text) hp (by decide) (Nat.le_refl 3) h0 hpend' (by rw [hlen])
  obtain ⟨k, rfl⟩ : ∃ j, k = j + 1 := ⟨k - 1, by omega⟩
  have htake : ((L.told h text).env.pending.take (k + 1)).flatten =
      statusText s ++ (cs.take k).flatten := by rw [hpend']; rfl
  have hthree : (statusText s ++ (cs.take k).flatten).take 3 = statusText s :=
    List.take_left' hlen
  rw [htake, hthree, hlen] at hread hR
  have hrest : rest (statusText s ++ (cs.take k).flatten) 3 = rest (cs.take k).flatten 0 := by
    rw [rest, rest, List.drop_left' hlen, List.drop_zero]
  rw [htake, hrest, hpend'] at hpend₁
  obtain ⟨es, hes, hsend⟩ := sendRequest_of_read buf unsent silent quiet htext (by decide)
    (by decide) hread (strtoul_status buf hs) (Nat.lt_of_lt_of_le hs (by decide))
  exact ⟨k, _, es, hsend, hR.logged _, hpend₁, hes, congrArg (· ++ _) hlog⟩

/-- A status that arrives whole is all that the line gives. -/
theorem sendRequest_whole {d : δ} (hp : Line.Prompt L.arrive) (h0 : h.nextReadChar = 0)
    (hpend : h.env.pending = []) (hhear : L.hear h.env.dev text = ([statusText s], d))
    (htext : text.length < 2 ^ 31) (hs : s < 10) :
    ∃ h' es, sendRequest (L.sys O) text buf 3 unsent silent quiet h = .ok (.status s) h' ∧
      h'.nextReadChar = 0 ∧ h'.env.pending = [] ∧ h'.env.dev = d ∧
      h'.env.heard = h.env.heard ++ [(text, [])] ∧ Codes es ∧
      h'.log = h.log ++ (es ++ [.request text (.status s)]) := by
  obtain ⟨k, h', es, hsend, hR, hpend', hes, hlog⟩ := sendRequest_piece (O := O) buf unsent silent
    quiet [] hp h0 hpend hhear htext hs
  refine ⟨h', es, hsend, hR.nextReadChar.trans h0, ?_, ?_, ?_, hes, hlog⟩
  · rw [hpend', List.take_nil, List.drop_nil]
    rfl
  · exact hR.dev.trans (by rw [Line.told, Line.wrote, hhear])
  · exact hR.heard.trans (by rw [Line.told, Line.wrote, Wire.unread, hpend, List.flatten_nil])

end Read

/-- The first request of a call, granted, with the reply cut in any way. -/
theorem ispSendCmdTwoArgs_cut {d d' : δ} {pieces : List (List UInt8)} {more : List UInt8}
    (cmd : UInt8) (arg1 arg2 : UInt32) (c c' : ℕ)
    (hhear : L.hear d (twoArgsText cmd arg1.toNat arg2.toNat) = (pieces, d'))
    (hpieces : pieces.flatten = statusText 0 ++ more) :
    .timeout ∈ (final (ispSendCmdTwoArgs (L.sys O) cmd arg1 arg2 (.start (.quiet d) 0 c c'))).log ∨
    ∃ h' es, ispSendCmdTwoArgs (L.sys O) cmd arg1 arg2 (.start (.quiet d) 0 c c') = .ok 0 h' ∧
      h'.nextReadChar = 0 ∧ h'.env.dev = d' ∧ h'.env.unread = more ∧
      h'.env.heard = [(twoArgsText cmd arg1.toNat arg2.toNat, [])] ∧ Codes es ∧
      h'.log = es ++ [.request (twoArgsText cmd arg1.toNat arg2.toNat) (.status 0)] := by
  obtain ⟨buf, heq⟩ := ispSendCmdTwoArgs_eq (E := L.sys O) cmd arg1 arg2 (.start (.quiet d) 0 c c')
  have hlen := twoArgsText_length cmd arg1 arg2
  set text := twoArgsText cmd arg1.toNat arg2.toNat
  have hstream : L.stream (.quiet d) text = statusText 0 ++ more := by
    rw [Line.stream, ← hpieces]
    exact congrArg (fun p : List (List UInt8) × δ => p.1.flatten) hhear
  have hthree : (statusText 0 ++ more).take 3 = statusText 0 := List.take_left' rfl
  have hcode := strtoul_status buf (show 0 < 10 by decide)
  rw [← hthree, ← hstream] at hcode
  rcases sendRequest_status (L := L) (O := O) (h := .start (.quiet d) 0 c c') buf (-5) (-4) 0
    (Nat.lt_of_le_of_lt hlen (by decide)) rfl hcode (by decide) with
    htime | ⟨h', es, hsend, hR, hes, hlog⟩
  · left
    rwa [heq, final_map]
  · right
    refine ⟨h', es, heq.trans (map_ok hsend), hR.nextReadChar, ?_, ?_, hR.heard, hes, hlog⟩
    · rw [hR.dev]
      exact congrArg Prod.snd hhear
    · have hun : h'.env.unread = (L.stream (.quiet d) text).drop 3 :=
        hR.unread.trans (congrArg (List.drop 3) (Line.unread_wrote _ _))
      rw [hun, hstream]
      exact List.drop_left' rfl

end Sys

end LpcTools
