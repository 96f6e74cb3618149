import Mathlib.Data.List.Forall2
import LpcTools.Proofs.RequestLines

/-!
# The frequency that is told

`isp_connect` tells its four messages one after the other, and of the third, the frequency,
`snprintf` keeps seven characters. They are the number with its line end just where it has five digits
at most.
-/

namespace LpcTools

open Run Decimal Uuencode

variable {σ : Type} {E : Sys σ}

section Messages

variable {h h' h'' : Host (σ × Talk)} {message : List UInt8} {ms : List (List UInt8)}

/-- The messages are all that has been said, each cut only by a line that does not take it. -/
def PutsAll (E : Sys σ) (ms : List (List UInt8)) (h h' : Host (σ × Talk)) : Prop :=
  ∃ parts, List.Forall₂ (· <+: ·) parts ms ∧ h'.env.2.sent = h.env.2.sent ++ parts.flatten ∧
    (E.Takes → parts = ms)

theorem PutsAll.refl (E : Sys σ) (h : Host (σ × Talk)) : PutsAll E [] h h :=
  ⟨[], .nil, (List.append_nil _).symm, fun _ => rfl⟩

theorem PutsAll.of_sent (p : PutsAll E ms h h') (he : h''.env.2.sent = h'.env.2.sent) :
    PutsAll E ms h h'' := by
  obtain ⟨parts, hparts, hsent, hall⟩ := p
  exact ⟨parts, hparts, he.trans hsent, hall⟩

theorem PutsAll.snoc (p : PutsAll E ms h h') (q : Puts E message h' h'') :
    PutsAll E (ms ++ [message]) h h'' := by
  obtain ⟨parts, hparts, hsent, hall⟩ := p
  obtain ⟨k, hmore, hwhole⟩ := q
  refine ⟨parts ++ [message.take k], List.rel_append hparts (.cons (List.take_prefix _ _) .nil), ?_,
    fun htakes => ?_⟩
  · rw [hmore, hsent, List.flatten_append, List.flatten_singleton, List.append_assoc]
  · rw [hall htakes, hwhole htakes, List.take_length]

end Messages

section Silent

theorem drainLine_sent : ∀ (fuel : ℕ) (unused : UInt8) (loops : ℕ) (h : Host (σ × Talk)),
    (final (drainLine E.recorded fuel unused loops h)).env.2.sent = h.env.2.sent
  | 0, _, _, _ => rfl
  | fuel + 1, unused, loops, h => by
    have hheard : ∀ {r : ReadOutcome} {env : σ × Talk},
        E.recorded.read h.env 1 = (r, env) → env.2.sent = h.env.2.sent :=
      fun hr => by rw [recorded_read hr, Talk.sent_hear]
    unfold drainLine
    rcases hr : E.recorded.read h.env 1 with ⟨(_ | ⟨c, bs⟩) | _ | _, env⟩
    · exact hheard hr
    · simp only []
      split_ifs
      · exact hheard hr
      · exact (drainLine_sent fuel c loops { h with env := env }).trans (hheard hr)
    · simp only []
      split_ifs
      · exact hheard hr
      · exact hheard hr
      · exact (drainLine_sent fuel unused (loops + 1) { h with env := env }).trans (hheard hr)
    · exact hheard hr

theorem readBehind_sent (unused : UInt8) (h : Host (σ × Talk)) :
    (final (readBehind E.recorded unused h)).env.2.sent = h.env.2.sent := by
  have hheard : ∀ {r : ReadOutcome} {env : σ × Talk},
      E.recorded.read h.env 1 = (r, env) → env.2.sent = h.env.2.sent :=
    fun hr => by rw [recorded_read hr, Talk.sent_hear]
  unfold readBehind
  split_ifs
  · rcases hr : E.recorded.read h.env 1 with ⟨(_ | ⟨c, bs⟩) | _ | _, env⟩ <;> exact hheard hr
  · rfl

/-- Dropping an echo says nothing. -/
theorem ispSerialEmptyBuffer_sent (fuel : ℕ) (h : Host (σ × Talk)) :
    (final (ispSerialEmptyBuffer E.recorded fuel h)).env.2.sent = h.env.2.sent := by
  unfold ispSerialEmptyBuffer
  refine (bind_sent fun d h₁ => ?_).trans (drainLine_sent fuel 0 0 h)
  rcases d with _ | _ | c
  · rfl
  · rfl
  · refine (bind_sent fun c' h₂ => ?_).trans (readBehind_sent c h₁)
    split_ifs <;> rfl

/-- An exchange says its message and nothing else. -/
theorem exchange_puts {fuel m : ℕ} {message buf : List UInt8} (hmessage : message.length < 2 ^ 31)
    (h : Host (σ × Talk)) : Puts E message h (final (exchange E.recorded fuel message m buf h)) := by
  have hsent : (final (exchange E.recorded fuel message m buf h)).env.2.sent =
      (final (ispSerialWrite E.recorded message h)).env.2.sent := by
    unfold exchange
    refine bind_sent fun n h₁ => ?_
    refine (bind_sent fun done h₂ => ?_).trans (ispSerialEmptyBuffer_sent fuel h₁)
    split_ifs
    · exact (bind_sent fun _ _ => rfl).trans (ispSerialRead_sent repBufsize m h₂)
    · rfl
  rw [Puts, hsent]
  exact ispSerialWrite_puts hmessage h

end Silent

section Session

/-- The messages of a session, with what is told of the frequency. -/
def messages (freqLine : List UInt8) : List (List UInt8) :=
  [synchroStart, synchro, freqLine, synchroEchoOff]

/-- A run has told an initial part of the messages, and all of them if it opens the session. -/
def TellsMessages (E : Sys σ) (freqLine : List UInt8) (h : Host (σ × Talk))
    (r : EStateM.Result Fault (Host (σ × Talk)) (Option ℤ)) : Prop :=
  ∃ j, PutsAll E ((messages freqLine).take j) h (final r) ∧ (value r = some (some 1) → j = 4)

theorem ispConnect_tells (fuel : ℕ) (crystalFreq : UInt32) (h : Host (σ × Talk)) :
    TellsMessages E (freqText crystalFreq) h (ispConnect E.recorded fuel crystalFreq h) := by
  set ms := messages (freqText crystalFreq) with hms
  have hstop {ret : Option ℤ} {h' : Host (σ × Talk)} (j : ℕ) (hp : PutsAll E (ms.take j) h h')
      (hret : ret ≠ some 1) : ∃ j, PutsAll E (ms.take j) h h' ∧ (ret = some 1 → j = 4) :=
    ⟨j, hp, fun he => absurd he hret⟩
  have hfault {r : EStateM.Result Fault (Host (σ × Talk)) (Option ℤ)}
      (hr : Ends r (fun ret h' => ∃ j, PutsAll E (ms.take j) h h' ∧ (ret = some 1 → j = 4))
        (fun _ h' => ∃ j, PutsAll E (ms.take j) h h')) :
      TellsMessages E (freqText crystalFreq) h r := by
    rcases r with ⟨ret, h'⟩ | ⟨f, h'⟩
    · obtain ⟨j, hp, hall⟩ := hr
      exact ⟨j, hp, fun he => hall (Option.some.inj he)⟩
    · obtain ⟨j, hp⟩ := hr
      exact ⟨j, hp, fun he => by cases he⟩
  refine hfault ?_
  -- every step tells the next message, and what it makes of the answer tells nothing
  have hstep {α : Type} {x : Prog (σ × Talk) α} {message : List UInt8} {h₁ : Host (σ × Talk)} (j : ℕ)
      (hx : Puts E message h₁ (final (x h₁))) (hp : PutsAll E (ms.take j) h h₁)
      (hj : ms.take (j + 1) = ms.take j ++ [message]) :
      Ends (x h₁) (fun _ h' => PutsAll E (ms.take (j + 1)) h h')
        (fun _ h' => ∃ j, PutsAll E (ms.take j) h h') := by
    have hnext := hp.snoc hx
    rw [← hj] at hnext
    exact (Ends.of_final hnext).mono (fun _ _ hn => hn) fun _ _ hn => ⟨j + 1, hn⟩
  unfold ispConnect
  refine Ends.bind_ok (uninit_apply _ _ _) ?_
  refine Ends.bind (hstep 0 (ispSerialWrite_puts (by decide) h) (.refl E h) rfl) fun n h₁ hp₁ => ?_
  refine Ends.ite (fun _ => hstop 1 hp₁ (by decide)) fun _ => ?_
  have hread : Ends (ispSerialRead E.recorded repBufsize synchro.length h₁)
      (fun _ h' => PutsAll E (ms.take 1) h h') (fun _ h' => ∃ j, PutsAll E (ms.take j) h h') :=
    (Ends.of_final (hp₁.of_sent (ispSerialRead_sent repBufsize synchro.length h₁))).mono
      (fun _ _ hn => hn) fun _ _ hn => ⟨1, hn⟩
  refine Ends.bind hread fun r h₂ hp₂ => ?_
  refine Ends.ite (fun _ => hstop 1 hp₂ (by decide)) fun _ => ?_
  refine Ends.ite (fun _ => hstop 1 hp₂ (by decide)) fun _ => ?_
  refine Ends.bind (hstep 1 (exchange_puts (by decide) h₂) hp₂ rfl) fun b h₃ hp₃ => ?_
  rcases b with _ | buf
  · exact hstop 2 hp₃ (by decide)
  refine Ends.ite (fun _ => hstop 2 hp₃ (by decide)) fun _ => ?_
  refine Ends.bind (hstep 2 (exchange_puts (freqText_length crystalFreq) h₃) hp₃ rfl)
    fun b h₄ hp₄ => ?_
  rcases b with _ | buf
  · exact hstop 3 hp₄ (by decide)
  refine Ends.ite (fun _ => hstop 3 hp₄ (by decide)) fun _ => ?_
  refine Ends.bind (hstep 3 (exchange_puts (by decide) h₄) hp₄ rfl) fun b h₅ hp₅ => ?_
  rcases b with _ | buf
  · exact hstop 4 hp₅ (by decide)
  · exact ⟨4, hp₅, fun _ => rfl⟩

end Session

section Opened

/-- A line that takes everything, with the bytes that each read will find, which do not depend on
it. -/
def canned : Sys (List (List UInt8)) :=
  { Sys.plain (List (List UInt8)) with
    read := fun s n =>
      match s with
      | [] => (.again, [])
      | bs :: rest => (.data (bs.take n), rest)
    write := fun s bs => (.wrote bs.length, s)
    read_le := by
      intro s n bs t h
      rcases s with _ | ⟨bs', rest⟩ <;> cases h
      exact List.length_take_le _ _
    write_le := by
      intro s bs n t h
      cases h
      exact Nat.le_refl _
    write_pos := by
      intro s bs n t h hne
      cases h
      exact List.length_pos_iff.2 hne }

theorem canned_takes : canned.Takes := fun _ _ => rfl

variable {h : Host (List (List UInt8) × Talk)} {reply : List UInt8} {rest : List (List UInt8)}

/-- The host with what is left to be read. -/
structure Left (rest : List (List UInt8)) (h : Host (List (List UInt8) × Talk)) : Prop where
  env : h.env.1 = rest
  nextReadChar : h.nextReadChar = 0

theorem Left.write (hl : Left rest h) (message : List UInt8) : ∃ h',
    ispSerialWrite canned.recorded message h = .ok (toInt message.length) h' ∧ Left rest h' := by
  refine ⟨{ h with env := (h.env.1, h.env.2.say (message.take message.length)) }, Loop.run_inr ?_,
    ⟨hl.env, hl.nextReadChar⟩⟩
  simp [serialWriteLoop, Sys.recorded, canned]

theorem Left.read {n m : ℕ} (hl : Left (reply :: rest) h) (hm : m ≤ reply.length)
    (hn : reply.length ≤ n) (hne : reply ≠ []) : ∃ h',
    ispSerialRead canned.recorded n m h = .ok (toInt reply.length, reply) h' ∧ Left rest h' := by
  have hread : canned.recorded.read h.env n = (.data reply, rest, h.env.2.hear reply) := by
    simp only [Sys.recorded, canned, hl.env, List.take_of_length_le hn]
  refine ⟨{ h with env := (rest, h.env.2.hear reply) }, ?_, ⟨rfl, hl.nextReadChar⟩⟩
  unfold ispSerialRead
  rw [if_neg (Nat.not_lt.2 (Nat.le_trans hm hn)), if_pos hl.nextReadChar]
  refine Loop.run_inr ?_
  simp only [serialReadLoop, ReadLocals.test, List.length_nil, Nat.sub_zero, hread, if_neg hne,
    List.nil_append, if_neg (Nat.not_lt.2 hm)]

/-- An exchange whose echo is an empty line. -/
theorem Left.exchange {m : ℕ} (hl : Left (['\n'.toUInt8] :: reply :: rest) h) (fuel : ℕ)
    (message buf : List UInt8) (hm : m ≤ reply.length) (hn : reply.length ≤ repBufsize)
    (hne : reply ≠ []) : ∃ h', LpcTools.exchange canned.recorded (fuel + 1) message m buf h =
      .ok (some (overlay buf 0 reply)) h' ∧ Left rest h' := by
  obtain ⟨h₁, hwrite, hl₁⟩ := hl.write message
  have hecho : canned.recorded.read h₁.env 1 =
      (.data ['\n'.toUInt8], reply :: rest, h₁.env.2.hear ['\n'.toUInt8]) := by
    simp only [Sys.recorded, canned, hl₁.env, List.take_succ_cons, List.take_zero]
  have hempty : ispSerialEmptyBuffer canned.recorded (fuel + 1) h₁ =
      .ok true { h₁ with env := (reply :: rest, h₁.env.2.hear ['\n'.toUInt8]) } := by
    unfold ispSerialEmptyBuffer
    rw [bind_ok (drainLine_end hecho rfl)]
    rfl
  obtain ⟨h₂, hread, hl₂⟩ := Left.read (n := repBufsize)
    (h := { h₁ with env := (reply :: rest, h₁.env.2.hear ['\n'.toUInt8]) })
    ⟨rfl, hl₁.nextReadChar⟩ hm hn hne
  refine ⟨h₂, ?_, hl₂⟩
  unfold LpcTools.exchange
  rw [bind_ok hwrite, bind_ok hempty, if_pos rfl, bind_ok hread]
  rfl

/-- What a device lets a session be opened with. -/
def openingReads : List (List UInt8) :=
  [synchro, ['\n'.toUInt8], synchroOk, ['\n'.toUInt8], synchroOk, ['\n'.toUInt8], statusText 0]

/-- The session is opened on that line, whatever the frequency. -/
theorem ispConnect_canned (crystalFreq : UInt32) : value (ispConnect canned.recorded 1 crystalFreq
    (.start (openingReads, .quiet) 0 0 0)) = some (some 1) := by
  have hok : synchroOk.length ≤ repBufsize := by decide
  have hl : Left openingReads (.start (openingReads, .quiet) 0 0 0) := ⟨rfl, rfl⟩
  have hacked (buf text : List UInt8) : ¬ (overlay buf 0 text).take text.length ≠ text := by
    rw [overlay_zero, List.take_left' rfl]
    exact not_not.2 rfl
  obtain ⟨h₁, hwrite, hl₁⟩ := hl.write synchroStart
  obtain ⟨h₂, hread, hl₂⟩ := hl₁.read (n := repBufsize) (Nat.le_refl _) (by decide) (by decide)
  unfold ispConnect
  rw [bind_ok (uninit_apply _ _ _), bind_ok hwrite, if_neg (by decide), bind_ok hread]
  simp only [if_neg (show ¬ toInt synchro.length < 0 by decide)]
  rw [if_neg (hacked _ _)]
  obtain ⟨h₃, hsync, hl₃⟩ := hl₂.exchange 0 synchro (overlay _ 0 synchro) (Nat.le_refl _) hok (by decide)
  rw [bind_ok hsync]
  simp only []
  rw [if_neg (hacked _ _)]
  obtain ⟨h₄, hfreq, hl₄⟩ := hl₃.exchange 0 (freqText crystalFreq) (overlay _ 0 synchroOk)
    (Nat.le_refl _) hok (by decide)
  rw [bind_ok hfreq]
  simp only []
  rw [if_neg (hacked _ _)]
  obtain ⟨h₅, hoff, -⟩ := hl₄.exchange (m := 3) 0 synchroEchoOff (overlay _ 0 synchroOk) (by decide)
    (by decide) (by decide)
  rw [bind_ok hoff]
  rfl

end Opened

/-- On every line and in every run what is told of the frequency is its digits and a line end. -/
def FreqComplete (crystalFreq : UInt32) : Prop :=
  ∀ {σ : Type} (E : Sys σ) (fuel : ℕ) (h : Host (σ × Talk)),
    TellsMessages E (decimal crystalFreq.toNat ++ crlf) h (ispConnect E.recorded fuel crystalFreq h)

/-- The line is complete just where the number has five digits at most. -/
theorem freqComplete_iff (crystalFreq : UInt32) :
    FreqComplete crystalFreq ↔ crystalFreq.toNat < 10 ^ 5 := by
  constructor
  · intro hcomplete
    have hopen := ispConnect_canned crystalFreq
    set h : Host (List (List UInt8) × Talk) := .start (openingReads, .quiet) 0 0 0
    obtain ⟨j, ⟨parts, -, hsent, hall⟩, hj⟩ := ispConnect_tells (E := canned) 1 crystalFreq h
    obtain ⟨j', ⟨parts', -, hsent', hall'⟩, hj'⟩ := hcomplete canned 1 h
    rw [hall canned_takes, hj hopen] at hsent
    rw [hall' canned_takes, hj' hopen, hsent] at hsent'
    -- the messages around the frequency are the same
    have hsame : freqText crystalFreq ++ synchroEchoOff =
        decimal crystalFreq.toNat ++ crlf ++ synchroEchoOff := by
      simpa [messages] using hsent'
    have hlen := congrArg List.length (List.append_cancel_right hsame)
    rw [List.length_append, show crlf.length = 2 from rfl] at hlen
    have hcut : (freqText crystalFreq).length ≤ 7 := List.length_take_le _ _
    have hlt := lt_pow_decimal_length crystalFreq.toNat
    exact hlt.trans_le (Nat.pow_le_pow_right (by decide) (by omega))
  · intro hfreq σ E fuel h
    rw [← freqText_eq hfreq]
    exact ispConnect_tells fuel crystalFreq h

/-- Of a frequency of six digits the line feed is lost. -/
theorem freqComplete_lost :
    let run := ispConnect ((scripted fun _ => 100).sys (Sys.plain _)).recorded 100 100000
      (.start (.quiet opening, .quiet) 0 0 0)
    (final run).env.2.sent = bytes "?Synchronized\r\n100000\rA 0\r\n".toList ∧
      ¬ FreqComplete 100000 := by
  intro run
  exact ⟨by decide +kernel, fun hcomplete => absurd ((freqComplete_iff 100000).1 hcomplete) (by decide)⟩

end LpcTools
