import LpcTools.Proofs.Requests
import LpcTools.Lib.Ends
import LpcTools.Lib.Numerals

/-!
# What a request leaves, whatever the line does

One entry in the log, notes aside, and a value that is negative unless it is the status read.
-/

namespace LpcTools

open Run Decimal Uuencode

/-- Entries that only say how the host fared with the line. -/
def Event.isNote : Event → Bool
  | .timeout => true
  | .errorCode _ _ => true
  | _ => false

variable {σ : Type}

/-- The log without its notes. -/
def Host.seen (h : Host σ) : List Event := h.log.filter fun e => !e.isNote

section Seen

variable {h h' : Host σ} {e : Event}

theorem Host.seen_emit (he : e.isNote = false) : (h.emit e).seen = h.seen ++ [e] := by
  simp [Host.seen, he]

theorem Host.seen_note (he : e.isNote = true) : (h.emit e).seen = h.seen := by
  simp [Host.seen, he]

theorem Host.mem_seen (he : e.isNote = false) : e ∈ h.seen ↔ e ∈ h.log := by
  simp [Host.seen, he]

theorem Host.filterMap_seen {α : Type} {f : Event → Option α}
    (hf : ∀ e, e.isNote = true → f e = none) : h.seen.filterMap f = h.log.filterMap f := by
  rw [Host.seen, List.filterMap_filter]
  congr 1
  funext e
  rcases he : e.isNote
  · simp
  · simp [hf e he]

theorem Polled.seen (p : Polled h h') : h'.seen = h.seen := by
  obtain ⟨ts, hts, hlog⟩ := p.log
  have hnil : ts.filter (fun e => !e.isNote) = [] := by
    rw [List.filter_eq_nil_iff]
    intro e he
    rw [hts e he]
    simp [Event.isNote]
  rw [Host.seen, hlog, List.filter_append, hnil, List.append_nil]
  rfl

end Seen

variable {E : Sys σ}

/-- The requests made and what became of them, and what has been written to the output file. -/
def Host.offLine (h : Host σ) : List Event := h.log.filter fun e => !e.onLine

theorem Host.offLine_emit {h : Host σ} {e : Event} (he : e.onLine = true) :
    (h.emit e).offLine = h.offLine := by
  simp [Host.offLine, he]

theorem Host.offLine_seen (h : Host σ) : h.offLine = h.seen.filter fun e => !e.onLine := by
  rw [Host.offLine, Host.seen, List.filter_filter]
  congr 1
  funext e
  rcases e with _ | _ | _ | _ | _ | _ | _ | _ | _ <;> rfl

theorem Polled.offLine {h h' : Host σ} (p : Polled h h') : h'.offLine = h.offLine := by
  rw [Host.offLine_seen, p.seen, ← Host.offLine_seen]

theorem Host.offLine_frame (E : Sys σ) : Frame E fun h h' => h'.offLine = h.offLine where
  refl := fun _ => rfl
  trans := fun p q => Eq.trans q p
  write := fun bs h => (ispSerialWrite_polled bs h).offLine
  read := fun n m h => (ispSerialRead_polled n m h).offLine
  counters := fun _ _ _ => rfl
  emit := fun _ _ he => Host.offLine_emit he

theorem ispRetCode_ends (buf : List UInt8) (quiet : ℤ) (h : Host σ) :
    Ends (ispRetCode E buf quiet h) (fun ret h' => (-2 ^ 31 ≤ ret ∧ ret < 2 ^ 31) ∧
        h'.seen = h.seen ∧ h'.nextReadChar = h.nextReadChar)
      (fun f h' => (f = .replyBuffer ∨ f = .errorCodes) ∧ h'.seen = h.seen) := by
  unfold ispRetCode
  rcases strtoul 10 buf with _ | ⟨v, rest⟩
  · exact ⟨.inl rfl, rfl⟩
  · simp only []
    by_cases hq : quiet ≠ 1
    · rw [if_pos hq]
      by_cases hlen : errorCodes.length < v % 2 ^ 32
      · rw [if_pos hlen]
        exact ⟨toInt_range _, Host.seen_note rfl, rfl⟩
      · rw [if_neg hlen]
        by_cases hv : v % 2 ^ 32 ≠ 0 ∨ E.traceOn = true
        · rw [if_pos hv]
          rcases errorCodes[v % 2 ^ 32]? with _ | name
          · exact ⟨.inr rfl, rfl⟩
          · exact ⟨toInt_range _, Host.seen_note rfl, rfl⟩
        · rw [if_neg hv]
          exact ⟨toInt_range _, rfl, rfl⟩
    · rw [if_neg hq]
      exact ⟨toInt_range _, rfl, rfl⟩

/-- A request has been logged with what became of it, for which a sender returns `ret`. Nothing is
kept back of a reply. -/
def Asked (h : Host σ) (text : List UInt8) (ret : ℤ) (h' : Host σ) : Prop :=
  (-2 ^ 31 ≤ ret ∧ ret < 2 ^ 31) ∧ ∃ a : Answer, a.ret = ret ∧
    (0 ≤ ret → a = .status ret ∧ h'.nextReadChar = 0) ∧ h'.seen = h.seen ++ [.request text a]

/-- The run broke off in the answer to a request. -/
def BrokenOff (h : Host σ) (f : Fault) (h' : Host σ) : Prop :=
  (f = .replyBuffer ∨ f = .errorCodes) ∧ h'.seen = h.seen

section Senders

theorem askStatus_ends {text buf : List UInt8} {n : ℕ} {unsent silent : ℤ} (quiet : ℤ) (h : Host σ)
    (hn : 3 ≤ n) (hu : -8 ≤ unsent ∧ unsent < 0) (hs : -8 ≤ silent ∧ silent < 0) :
    Ends (askStatus E text buf n unsent silent quiet h)
      (fun a h' => (-2 ^ 31 ≤ a.ret ∧ a.ret < 2 ^ 31) ∧ (∀ ret, a = .failed ret → ret < 0) ∧
        (∀ code, a = .status code → h'.nextReadChar = 0) ∧ h'.seen = h.seen)
      (BrokenOff h) := by
  unfold askStatus
  obtain ⟨k, h₁, hwrite, -⟩ := ispSerialWrite_total (E := E) text h
  have hseen₁ := (ispSerialWrite_polled (E := E) text h).seen
  rw [hwrite] at hseen₁
  rw [bind_ok hwrite]
  by_cases hk : k ≠ text.length
  · rw [if_pos hk]
    refine ⟨by rw [Answer.ret]; omega, ?_, ?_, hseen₁⟩
    · rintro ret he
      cases he
      exact hu.2
    · rintro code he
      cases he
  · rw [if_neg hk]
    obtain ⟨⟨len, got⟩, h₂, hread, hnext⟩ := ispSerialRead_total (E := E) (h := h₁) hn (by omega)
    have hseen₂ := (ispSerialRead_polled (E := E) n 3 h₁).seen
    rw [hread] at hseen₂
    rw [bind_ok hread]
    by_cases hlen : len ≤ 0
    · simp only [if_pos hlen]
      refine ⟨by rw [Answer.ret]; omega, ?_, ?_, hseen₂.trans hseen₁⟩
      · rintro ret he
        cases he
        exact hs.2
      · rintro code he
        cases he
    · simp only [if_neg hlen]
      refine Ends.map ((ispRetCode_ends _ quiet h₂).mono ?_ ?_)
      · rintro code h₃ ⟨hrange, hseen₃, hnext₃⟩
        refine ⟨hrange, ?_, fun _ _ => hnext₃.trans hnext, (hseen₃.trans hseen₂).trans hseen₁⟩
        rintro ret he
        cases he
      · rintro f h₃ ⟨hf, hseen₃⟩
        exact ⟨hf, (hseen₃.trans hseen₂).trans hseen₁⟩

theorem sendRequest_ends {text buf : List UInt8} {n : ℕ} {unsent silent : ℤ} (quiet : ℤ)
    (h : Host σ) (hn : 3 ≤ n) (hu : -8 ≤ unsent ∧ unsent < 0)
    (hs : -8 ≤ silent ∧ silent < 0) :
    Ends (sendRequest E text buf n unsent silent quiet h) (fun a h' => Asked h text a.ret h' ∧
      (∀ ret, a = .failed ret → ret < 0)) (BrokenOff h) := by
  unfold sendRequest
  refine (askStatus_ends quiet h hn hu hs).bind ?_
  rintro a h₁ ⟨hrange, hfail, hnext, hseen⟩
  refine ⟨⟨hrange, a, rfl, ?_, ?_⟩, hfail⟩
  · intro hret
    rcases a with code | ret
    · exact ⟨rfl, hnext code rfl⟩
    · exact absurd (hfail ret rfl) (Int.not_lt.2 hret)
  · rw [Host.seen_emit rfl, hseen]

theorem ispSendCmdNoArgs_ends (cmd : List UInt8) (quiet : ℤ) (h : Host σ) :
    Ends (ispSendCmdNoArgs E cmd quiet h) (Asked h cmd) (BrokenOff h) := by
  unfold ispSendCmdNoArgs
  rw [bind_ok (uninit_apply _ _ _)]
  refine Ends.map ((sendRequest_ends quiet h (Nat.le_refl 3) (by decide) (by decide)).mono ?_ ?_)
  · exact fun a h' ha => ha.1
  · exact fun f h' hf => hf

theorem sendFormatted_ends {size n : ℕ} {text : List UInt8} {unsent silent : ℤ} (quiet : ℤ)
    (h : Host σ) (hlen : text.length < size) (hn : 3 ≤ n) (hu : -8 ≤ unsent ∧ unsent < 0)
    (hs : -8 ≤ silent ∧ silent < 0) :
    Ends (sendFormatted E size text n unsent silent quiet h) (fun a h' => Asked h text a.ret h' ∧
      (∀ ret, a = .failed ret → ret < 0)) (BrokenOff h) := by
  rw [sendFormatted_eq hlen]
  exact sendRequest_ends quiet h hn hu hs

theorem ispSendCmdTwoArgs_ends (cmd : UInt8) (arg1 arg2 : UInt32) (h : Host σ) :
    Ends (ispSendCmdTwoArgs E cmd arg1 arg2 h) (Asked h (twoArgsText cmd arg1.toNat arg2.toNat))
      (BrokenOff h) := by
  have hlen := twoArgsText_length cmd arg1 arg2
  unfold ispSendCmdTwoArgs
  refine Ends.map ((sendFormatted_ends 0 h (by rw [repBufsize]; omega) (Nat.le_refl 3) (by decide)
    (by decide)).mono ?_ ?_)
  · exact fun a h' ha => ha.1
  · exact fun f h' hf => hf

theorem addressText_length (cmd : UInt8) (addr1 addr2 length : UInt32) :
    (addressText cmd addr1.toNat addr2.toNat length.toNat).length ≤ 36 := by
  have h1 := decimal_length_uint32 addr1
  have h2 := decimal_length_uint32 addr2
  have h3 := decimal_length_uint32 length
  simp only [addressText, List.length_cons, List.length_append, show crlf.length = 2 from rfl]
  omega

theorem ispSendCmdAddress_ends (cmd : UInt8) (addr1 addr2 length : UInt32) (h : Host σ) :
    Ends (ispSendCmdAddress E cmd addr1 addr2 length h)
      (Asked h (addressText cmd addr1.toNat addr2.toNat length.toNat)) (BrokenOff h) := by
  have hlen := addressText_length cmd addr1 addr2 length
  unfold ispSendCmdAddress
  refine Ends.map ((sendFormatted_ends 0 h (by rw [serialBufsize]; omega) (Nat.le_refl 3)
    (by decide) (by decide)).mono ?_ ?_)
  · exact fun a h' ha => ha.1
  · exact fun f h' hf => hf

theorem ispSendCmdSectors_ends (cmd : UInt8) {first last : ℤ} (quiet : ℤ) (h : Host σ)
    (hle : first ≤ last) : Ends (ispSendCmdSectors E cmd first last quiet h)
      (Asked h (twoArgsText cmd (toUnsigned first).toNat (toUnsigned last).toNat)) (BrokenOff h) := by
  have hlen := twoArgsText_length cmd (toUnsigned first) (toUnsigned last)
  unfold ispSendCmdSectors
  rw [if_neg (Int.not_lt.2 hle)]
  refine Ends.map ((sendFormatted_ends quiet h (by rw [serialBufsize]; omega) (Nat.le_refl 3)
    (by decide) (by decide)).mono ?_ ?_)
  · exact fun a h' ha => ha.1
  · exact fun f h' hf => hf

/-- The zero behind the request ends the number, whatever is read over its start. -/
theorem strtoul_over_request {text got : List UInt8} {size : ℕ} (stack : List UInt8)
    (hlen : text.length < size) (hgot : got.length ≤ text.length) :
    ∃ v rest, strtoul 10 (overlay (snprintf stack size text) 0 got) = some (v, rest) := by
  have hfit : text.take (size - 1) = text := List.take_of_length_le (by omega)
  have hbuf : overlay (snprintf stack size text) 0 got = got ++ text.drop got.length ++ [0] ++
      stack.drop (text ++ [0]).length := by
    rw [snprintf, hfit, overlay_zero, overlay_zero, List.append_assoc text,
      List.drop_append_of_le_length hgot]
    simp only [List.append_assoc]
  obtain ⟨v, u, hv⟩ := strtoul_terminated 10 (got ++ text.drop got.length)
  rw [hbuf]
  exact ⟨v, _, strtoul_append hv _⟩

/-- A sender that neither keeps its reply in a buffer of its own nor says what a code means does not
break off. -/
theorem askStatus_quiet {text : List UInt8} {size n : ℕ} (stack : List UInt8) (unsent silent : ℤ)
    (h : Host σ) (hlen : text.length < size) (hn : n ≤ text.length) (h3 : 3 ≤ n) :
    ∃ a h', askStatus E text (snprintf stack size text) n unsent silent 1 h = .ok a h' := by
  obtain ⟨k, h₁, hwrite, -⟩ := ispSerialWrite_total (E := E) text h
  unfold askStatus
  rw [bind_ok hwrite]
  by_cases hk : k ≠ text.length
  · rw [if_pos hk]
    exact ⟨_, _, rfl⟩
  · rw [if_neg hk]
    obtain ⟨len, got, h₂, hread, hgot, -⟩ := ispSerialRead_fits (E := E) (h := h₁) h3 (by omega)
    rw [bind_ok hread]
    by_cases hneg : len ≤ 0
    · simp only [if_pos hneg]
      exact ⟨_, _, rfl⟩
    · obtain ⟨v, rest, hv⟩ := strtoul_over_request stack hlen (hgot.trans hn)
      have hcode : ispRetCode E (overlay (snprintf stack size text) 0 got) 1 h₂ =
          .ok (toInt (v % 2 ^ 32)) h₂ := by
        unfold ispRetCode
        rw [hv]
        rfl
      simp only [if_neg hneg, map_ok hcode]
      exact ⟨_, _, rfl⟩

theorem ispSendCmdSectors_quiet (cmd : UInt8) {first last : ℤ} (h : Host σ) (hle : first ≤ last) :
    Ends (ispSendCmdSectors E cmd first last 1 h)
      (Asked h (twoArgsText cmd (toUnsigned first).toNat (toUnsigned last).toNat))
      (fun _ _ => False) := by
  have hlen := twoArgsText_length cmd (toUnsigned first) (toUnsigned last)
  have hpos : 3 ≤ (twoArgsText cmd (toUnsigned first).toNat (toUnsigned last).toNat).length := by
    simp only [twoArgsText, List.length_cons, List.length_append, show crlf.length = 2 from rfl]
    omega
  have hsize : (twoArgsText cmd (toUnsigned first).toNat (toUnsigned last).toNat).length <
      serialBufsize := by
    rw [serialBufsize]
    omega
  have hends := ispSendCmdSectors_ends (E := E) cmd 1 h hle
  obtain ⟨a, h', hask⟩ := askStatus_quiet (E := E)
    ((List.range serialBufsize).map (E.stack h.env)) (-5) (-4) h hsize hpos (Nat.le_refl 3)
  have hok : ispSendCmdSectors E cmd first last 1 h = .ok a.ret (h'.emit (.request
      (twoArgsText cmd (toUnsigned first).toNat (toUnsigned last).toNat) a)) := by
    unfold ispSendCmdSectors
    rw [if_neg (Int.not_lt.2 hle)]
    exact map_ok ((sendFormatted_eq hsize 3 (-5) (-4) 1 h).trans (bind_ok hask))
  rw [hok] at hends ⊢
  exact hends

theorem goText_length (addr : UInt32) (mode : UInt8) : (goText addr.toNat mode).length ≤ 16 := by
  have h1 := decimal_length_uint32 addr
  simp only [goText, List.length_cons, List.length_append, show crlf.length = 2 from rfl]
  omega

end Senders

end LpcTools
