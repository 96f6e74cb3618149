import LpcTools.Proofs.Answers
import LpcTools.Proofs.Session

/-!
# Requests that come to nothing

A boot ROM that waits for a session hears nothing but a question mark, and one whose line has been
spoiled refuses the next request. A command of `lpcisp` then stops at its first request.
-/

namespace LpcTools

open Run Decimal

variable {δ : Type} {L : Line δ} {id : Identity} {O : Sys (Wire (Session δ))} {s s' : Session δ}
  {h : Host (Wire (Session δ))}

/-- What is said is not heard, or refused. -/
def Session.Denies (id : Identity) (L : Line δ) (s s' : Session δ) : Prop :=
  ∀ text, text ≠ synchroStart → ∃ pieces, (L.session id).hear s text = (pieces, s') ∧
    (pieces = [] ∨ pieces = [statusText 1])

theorem Session.denies_waiting (id : Identity) (L : Line δ) (hs : s.phase = .waiting) : s.Denies id L s := by
  intro text htext
  refine ⟨[], ?_, .inl rfl⟩
  simp only [Line.session, Session.hear, hs, if_neg htext]

theorem Session.denies_spoiled (id : Identity) (L : Line δ) (d : δ) :
    Session.Denies id L ⟨.commanding, false, true, d⟩ (.ready d) := by
  intro text htext
  refine ⟨[statusText 1], ?_, .inr rfl⟩
  simp only [Line.session, Session.hear, Session.obey, Bool.false_eq_true, if_false, if_true, if_neg htext]
  rfl

section Texts

theorem twoArgsText_ne_start (cmd : UInt8) (arg1 arg2 : ℕ) : twoArgsText cmd arg1 arg2 ≠ synchroStart := by
  simp [twoArgsText, synchroStart, bytes]

theorem addressText_ne_start (cmd : UInt8) (addr1 addr2 length : ℕ) :
    addressText cmd addr1 addr2 length ≠ synchroStart := by
  simp [addressText, synchroStart, bytes]

end Texts

section Senders

variable (he : Line.Eager L.arrive) (hden : s.Denies id L s') (hs : Line.Stands h s [])

include he hden hs

theorem sendRequest_denied {text : List UInt8} (htext : text ≠ synchroStart) (hlen : text.length < 2 ^ 31)
    (buf : List UInt8) (unsent : ℤ) {silent : ℤ} (hsilent : silent < 0) (quiet : ℤ) : ∃ answer h',
    sendRequest ((L.session id).sys O) text buf 3 unsent silent quiet h = .ok answer h' ∧
      (answer.ret < 0 ∨ answer.ret = 1) ∧ Line.Stands h' s' [] := by
  obtain ⟨pieces, hhear, hpieces⟩ := hden text htext
  have hsolid : ∀ c ∈ pieces, c ≠ [] := by
    rcases hpieces with rfl | rfl
    · simp
    · decide
  have hbs : ([] ++ pieces.flatten).length ≤ 3 := by
    rcases hpieces with rfl | rfl <;> decide
  obtain ⟨h₁, hread, hs₁⟩ := Line.Stands.read (L := L.session id) (O := O) he (hs.write hhear hsolid)
    (show 0 < 3 by omega) (Nat.le_refl 3) hbs
  rcases hpieces with rfl | rfl
  · have hask := askStatus_of_read buf unsent silent quiet hlen (show 0 < 2 ^ 31 by omega) hread
    rw [if_pos rfl] at hask
    refine ⟨.failed silent, h₁.emit (.request text (.failed silent)), ?_, .inl hsilent, hs₁.emit _⟩
    unfold sendRequest
    rw [bind_ok hask]
    rfl
  · obtain ⟨es, -, hsend⟩ := sendRequest_of_read buf unsent silent quiet hlen (show 3 < 2 ^ 31 by omega)
      (by decide) hread (strtoul_status buf (show 1 < 10 by omega)) (by decide)
    exact ⟨_, _, hsend, .inr rfl, hs₁.dev, hs₁.unread, hs₁.solid, hs₁.nextReadChar, hs₁.request, hs₁.requested⟩

theorem sendFormatted_denied (size : ℕ) {text : List UInt8} (htext : text ≠ synchroStart)
    (hlen : text.length < size) (hsize : size < 2 ^ 31) (unsent : ℤ) {silent : ℤ} (hsilent : silent < 0)
    (quiet : ℤ) : ∃ answer h',
    sendFormatted ((L.session id).sys O) size text 3 unsent silent quiet h = .ok answer h' ∧
      (answer.ret < 0 ∨ answer.ret = 1) ∧ Line.Stands h' s' [] := by
  rw [sendFormatted_eq hlen]
  exact sendRequest_denied he hden hs htext (by omega) _ unsent hsilent quiet

theorem ispSendCmdNoArgs_denied {cmd : List UInt8} (hcmd : cmd ≠ synchroStart) (hlen : cmd.length < 2 ^ 31)
    (quiet : ℤ) : ∃ ret h', ispSendCmdNoArgs ((L.session id).sys O) cmd quiet h = .ok ret h' ∧
      (ret < 0 ∨ ret = 1) ∧ Line.Stands h' s' [] := by
  obtain ⟨answer, h', hsend, hret, hs'⟩ := sendRequest_denied (O := O) he hden hs hcmd hlen
    ((List.range 5).map (((L.session id).sys O).stack h.env)) (-5) (show (-4 : ℤ) < 0 by decide) quiet
  refine ⟨answer.ret, h', ?_, hret, hs'⟩
  unfold ispSendCmdNoArgs
  rw [bind_ok (uninit_apply _ _ _)]
  exact map_ok hsend

theorem ispSendCmdTwoArgs_denied (cmd : UInt8) (arg1 arg2 : UInt32) : ∃ ret h',
    ispSendCmdTwoArgs ((L.session id).sys O) cmd arg1 arg2 h = .ok ret h' ∧ (ret < 0 ∨ ret = 1) ∧
      Line.Stands h' s' [] := by
  have hlen := twoArgsText_length cmd arg1 arg2
  obtain ⟨answer, h', hsend, hret, hs'⟩ := sendFormatted_denied (O := O) he hden hs repBufsize
    (twoArgsText_ne_start cmd arg1.toNat arg2.toNat) (by rw [repBufsize]; omega) (by decide) (-5)
    (show (-4 : ℤ) < 0 by decide) 0
  exact ⟨answer.ret, h', map_ok hsend, hret, hs'⟩

theorem ispSendCmdSectors_denied (cmd : UInt8) {first last : ℤ} (hle : first ≤ last) (quiet : ℤ) : ∃ ret h',
    ispSendCmdSectors ((L.session id).sys O) cmd first last quiet h = .ok ret h' ∧ Line.Stands h' s' [] := by
  have hlen := twoArgsText_length cmd (toUnsigned first) (toUnsigned last)
  obtain ⟨answer, h', hsend, -, hs'⟩ := sendFormatted_denied (O := O) he hden hs serialBufsize
    (twoArgsText_ne_start cmd (toUnsigned first).toNat (toUnsigned last).toNat)
    (by rw [serialBufsize]; omega) (by decide) (-5) (show (-4 : ℤ) < 0 by decide) quiet
  refine ⟨answer.ret, h', ?_, hs'⟩
  unfold ispSendCmdSectors
  rw [if_neg (Int.not_lt.2 hle)]
  exact map_ok hsend

theorem ispSendCmdAddress_denied (cmd : UInt8) (addr1 addr2 length : UInt32) : ∃ ret h',
    ispSendCmdAddress ((L.session id).sys O) cmd addr1 addr2 length h = .ok ret h' ∧
      Line.Stands h' s' [] := by
  have hlen := addressText_length cmd addr1 addr2 length
  obtain ⟨answer, h', hsend, -, hs'⟩ := sendFormatted_denied (O := O) he hden hs serialBufsize
    (addressText_ne_start cmd addr1.toNat addr2.toNat length.toNat) (by rw [serialBufsize]; omega) (by decide)
    (-5) (show (-4 : ℤ) < 0 by decide) 0
  exact ⟨answer.ret, h', map_ok hsend, hs'⟩

theorem ispCmdUnlock_denied (quiet : ℤ) : ∃ ret h',
    ispCmdUnlock ((L.session id).sys O) quiet h = .ok ret h' ∧ Line.Stands h' s' [] := by
  obtain ⟨ret, h', hsend, -, hs'⟩ := ispSendCmdNoArgs_denied (O := O) he hden hs
    (show unlock ≠ synchroStart by decide) (by decide) quiet
  refine ⟨if ret ≠ 0 then -1 else 0, h', ?_, hs'⟩
  unfold ispCmdUnlock
  rw [bind_ok hsend]
  rfl

theorem readReply_denied {cmd : List UInt8} (hcmd : cmd ≠ synchroStart) (hlen : cmd.length < 2 ^ 31)
    (quiet : ℤ) (minRead n : ℕ) (value : List ℕ → ℤ) : ∃ ret h',
    readReply ((L.session id).sys O) cmd quiet minRead n value h = .ok ret h' ∧ Line.Stands h' s' [] := by
  obtain ⟨ret, h', hsend, hret, hs'⟩ := ispSendCmdNoArgs_denied (O := O) he hden hs hcmd hlen quiet
  have hne : ret ≠ 0 := by omega
  refine ⟨ret, h', ?_, hs'⟩
  unfold readReply
  rw [bind_ok (uninit_apply _ _ _), bind_ok hsend, if_pos hne]
  rfl

theorem ispSendBufToRam_denied (data : Mem) (addr : ℕ) (count : UInt32) (uu : ℕ) : ∃ ret h',
    ispSendBufToRam ((L.session id).sys O) data addr count uu h = .ok ret h' ∧ Line.Stands h' s' [] := by
  obtain ⟨ret, h', hsend, hret, hs'⟩ := ispSendCmdTwoArgs_denied (O := O) he hden hs 'W'.toUInt8
    (UInt32.ofNat addr) count
  have hne : ret ≠ 0 := by omega
  refine ⟨-8, h', ?_, hs'⟩
  unfold ispSendBufToRam
  rw [bind_ok hsend, if_pos hne]
  rfl

end Senders

end LpcTools
