import LpcTools.Proofs.BootRom
import LpcTools.Proofs.Numbers

/-!
# A boot ROM in front of a device

What was said of a device so far is what it does once a session is open. Here it stands behind the
boot ROM that opens the session, and answers itself what the device is. The boot ROM takes a question
mark for the start of a line when a session is open already. On a line whose polls find what waits,
`lpcprog` gets to an open session from either state.
-/

namespace LpcTools

open Run Decimal Uuencode

/-- What a boot ROM knows of the device it is in. -/
structure Identity where
  partId : ℕ
  uid : List ℕ
  bootVersion : List ℕ
  partId_lt : partId < 2 ^ 31
  uid_length : uid.length = 4
  uid_lt : ∀ n ∈ uid, n < 2 ^ 32
  bootVersion_length : bootVersion.length = 2
  bootVersion_lt : ∀ n ∈ bootVersion, n < 2 ^ 8

/-- The numbers behind the status of a request for what the device is. -/
def Identity.answer (id : Identity) (text : List UInt8) : Option (List ℕ) :=
  if text = readPartId then some [id.partId]
  else if text = readUid then some id.uid
  else if text = readBootVersion then some id.bootVersion
  else none

/-- The requests for what a device is: the text, the least of the reply that is read, and how many
numbers are taken from it. -/
def idRequests : List (List UInt8 × ℕ × ℕ) :=
  [(readUid, 50, 4), (readPartId, 15, 1), (readBootVersion, 20, 2)]

theorem Identity.answer_fits (id : Identity) {cmd : List UInt8} {m n : ℕ}
    (hcmd : (cmd, m, n) ∈ idRequests) : ∃ ns, id.answer cmd = some ns ∧ ns ≠ [] ∧ ns.length = n ∧
      (∀ k ∈ ns, k < 2 ^ 32) ∧ (numbersText ns).length ≤ m ∧ m ≤ repBufsize ∧
      cmd.length < 2 ^ 31 := by
  have hpart := id.partId_lt
  have huid := id.uid_length
  have hboot := id.bootVersion_length
  simp only [idRequests, List.mem_cons, Prod.mk.injEq, List.not_mem_nil, or_false] at hcmd
  rcases hcmd with ⟨rfl, rfl, rfl⟩ | ⟨rfl, rfl, rfl⟩ | ⟨rfl, rfl, rfl⟩
  · refine ⟨id.uid, rfl, ?_, huid, id.uid_lt, ?_, by decide, by decide⟩
    · exact List.ne_nil_of_length_pos (by omega)
    · have := length_numbersText_le (w := 10) (show ∀ k ∈ id.uid, k < 10 ^ 10 by
        intro k hk
        have := id.uid_lt k hk
        omega) (by decide)
      rw [huid] at this
      omega
  · refine ⟨[id.partId], rfl, by simp, rfl, by simp; omega, ?_, by decide, by decide⟩
    have := length_numbersText_le (w := 10) (show ∀ k ∈ [id.partId], k < 10 ^ 10 by
      intro k hk
      rw [List.mem_singleton.1 hk]
      omega) (by decide)
    rw [List.length_singleton] at this
    omega
  · refine ⟨id.bootVersion, rfl, ?_, hboot, ?_, ?_, by decide, by decide⟩
    · exact List.ne_nil_of_length_pos (by omega)
    · intro k hk
      have := id.bootVersion_lt k hk
      omega
    · have := length_numbersText_le (w := 3) (show ∀ k ∈ id.bootVersion, k < 10 ^ 3 by
        intro k hk
        have := id.bootVersion_lt k hk
        omega) (by decide)
      rw [hboot] at this
      omega

structure Session (δ : Type) where
  phase : BootPhase
  echo : Bool
  /-- The line has begun with a question mark. -/
  spoiled : Bool
  dev : δ

variable {δ : Type}

namespace Session

/-- An open session, at the start of a line. -/
def ready (dev : δ) : Session δ := ⟨.commanding, false, false, dev⟩

/-- What comes of a message in an open session. -/
def obey (id : Identity) (L : Line δ) (s : Session δ) (text : List UInt8) :
    List (List UInt8) × Session δ :=
  if text = synchroStart then ([], { s with spoiled := true })
  else if s.spoiled then ([statusText 1], { s with spoiled := false })
  else if text = synchroEchoOff then ([statusText 0], { s with echo := false })
  else
    match id.answer text with
    | some ns => ([statusText 0, numbersText ns], s)
    | none => ((L.hear s.dev text).1, { s with dev := (L.hear s.dev text).2 })

def hear (id : Identity) (L : Line δ) (s : Session δ) (text : List UInt8) :
    List (List UInt8) × Session δ :=
  match s.phase with
  | .waiting =>
    if text = synchroStart then ([synchro], { s with phase := .synchronizing, echo := true })
    else ([], s)
  | .synchronizing =>
    if text = synchro then ([text, synchroOk], { s with phase := .clocking })
    else ([], { s with phase := .waiting })
  | .clocking => ([text, synchroOk], { s with phase := .commanding, spoiled := false })
  | .commanding =>
    let (pieces, s') := obey id L s text
    (if s.echo then text :: pieces else pieces, s')

end Session

/-- The line with the boot ROM in front of its device. -/
def Line.session (L : Line δ) (id : Identity) : Line (Session δ) where
  hear := Session.hear id L
  arrive := L.arrive

namespace Line

/-- Every poll finds something if something waits. -/
def Eager (arrive : ℕ → ℕ) : Prop := ∀ t, 0 < arrive t

/-- Between two steps of a program that has counted nothing yet: the device, and what waits. -/
structure Stands (h : Host (Wire δ)) (d : δ) (bs : List UInt8) : Prop where
  dev : h.env.dev = d
  unread : h.env.unread = bs
  solid : Solid h.env
  nextReadChar : h.nextReadChar = 0
  request : h.resendRequestForBlock = 0
  requested : h.resendRequestedForBlock = 0

section Stands

variable {L : Line δ} {O : Sys (Wire δ)} {h : Host (Wire δ)} {d d' : δ} {bs line : List UInt8}
  {n m fuel : ℕ}

theorem Stands.pending (hs : Stands h d []) : h.env.pending = [] := hs.solid.pending_eq_nil hs.unread

theorem Stands.emit (hs : Stands h d bs) (e : Event) : Stands (h.emit e) d bs :=
  ⟨hs.dev, hs.unread, hs.solid, hs.nextReadChar, hs.request, hs.requested⟩

theorem Stands.write (hs : Stands h d bs) {text : List UInt8} {pieces : List (List UInt8)}
    (hhear : L.hear d text = (pieces, d')) (hsolid : ∀ c ∈ pieces, c ≠ []) :
    Stands (L.told h text) d' (bs ++ pieces.flatten) := by
  have hdev := hs.dev
  subst hdev
  refine ⟨by rw [told, wrote, hhear], ?_, ?_, hs.nextReadChar, hs.request, hs.requested⟩
  · rw [told, wrote, hhear, Wire.unread, List.flatten_append, ← Wire.unread, hs.unread]
  · intro c hc
    rw [told, wrote, hhear, List.mem_append] at hc
    exact hc.elim (hs.solid c) (hsolid c)

/-- One character is taken off the line. -/
theorem Stands.take {c : UInt8} (he : Eager L.arrive) (hs : Stands h d (c :: bs)) : ∃ w,
    (L.sys O).read h.env 1 = (.data [c], w) ∧ Stands { h with env := w } d bs := by
  have hf : L.front h.env ≠ [] := by
    intro hnil
    rcases hs.solid.front_eq_nil hnil with hpend | h0
    · have := hs.unread
      rw [Wire.unread, hpend] at this
      cases this
    · exact absurd (he h.env.polls) (by omega)
  obtain ⟨tail, htail⟩ := front_unread (L := L) h.env
  obtain ⟨c', f, hfront⟩ := List.exists_cons_of_ne_nil hf
  rw [hfront, hs.unread, List.cons_append] at htail
  obtain ⟨rfl, -⟩ := List.cons.inj htail
  have htake : (L.front h.env).take 1 = [c'] := by rw [hfront, List.take_succ_cons, List.take_zero]
  refine ⟨L.took h.env 1, ?_, hs.dev, ?_, hs.solid.took 1, hs.nextReadChar, hs.request, hs.requested⟩
  · simp only [sys, if_neg hf, htake]
  · rw [unread_took, htake, hs.unread]
    rfl

theorem Stands.drain (unused : UInt8) (loops : ℕ) (he : Eager L.arrive) (hline : Unended line)
    (hs : Stands h d (line ++ '\r'.toUInt8 :: bs)) (hfuel : line.length < fuel) : ∃ h',
      drainLine (L.sys O) fuel unused loops h = .ok (.left '\r'.toUInt8) h' ∧ Stands h' d bs := by
  induction line generalizing fuel unused loops h with
  | nil =>
    obtain ⟨fuel, rfl⟩ := Nat.exists_eq_add_of_lt hfuel
    obtain ⟨w, hread, hs'⟩ := Stands.take (O := O) he hs
    rw [List.length_nil, Nat.zero_add]
    exact ⟨_, drainLine_end hread rfl, hs'⟩
  | cons c line ih =>
    obtain ⟨fuel, rfl⟩ : ∃ k, fuel = k + 1 := ⟨fuel - 1, by omega⟩
    rw [List.cons_append] at hs
    obtain ⟨w, hread, hs'⟩ := Stands.take (O := O) he hs
    rw [drainLine_char hread (hline c List.mem_cons_self)]
    exact ih _ _ (fun c' hc' => hline c' (List.mem_cons_of_mem c hc')) hs'
      (by rw [List.length_cons] at hfuel; omega)

/-- An echo is taken off the line with its end. -/
theorem Stands.emptyBuffer (he : Eager L.arrive) (hline : Unended line)
    (hs : Stands h d (line ++ crlf ++ bs)) (hfuel : line.length < fuel) : ∃ h',
    ispSerialEmptyBuffer (L.sys O) fuel h = .ok true h' ∧ Stands h' d bs := by
  have hsplit : line ++ crlf ++ bs = line ++ '\r'.toUInt8 :: '\n'.toUInt8 :: bs := by
    rw [List.append_assoc]
    rfl
  rw [hsplit] at hs
  obtain ⟨h₁, hdrain, hs₁⟩ := Stands.drain 0 0 (O := O) he hline hs hfuel
  obtain ⟨w, hread, hs₂⟩ := Stands.take (O := O) he hs₁
  exact ⟨_, ispSerialEmptyBuffer_feed hdrain hread, hs₂⟩

theorem Stands.read (he : Eager L.arrive) (hs : Stands h d bs) (hpos : 0 < m) (hmn : m ≤ n)
    (hle : bs.length ≤ m) : ∃ h',
    ispSerialRead (L.sys O) n m h = .ok (toInt bs.length, bs) h' ∧ Stands h' d [] := by
  obtain ⟨h', hread, hR, hpend⟩ := ispSerialRead_drains (L := L) (O := O) hpos hmn hs.nextReadChar
    hs.solid (timely_of_eager he _ _) (by rwa [hs.unread])
  rw [hs.unread] at hread
  refine ⟨h', hread, hR.dev.trans hs.dev, by rw [Wire.unread, hpend]; rfl, ?_,
    hR.nextReadChar.trans hs.nextReadChar, hR.request.trans hs.request,
    hR.requested.trans hs.requested⟩
  intro c hc
  rw [hpend] at hc
  cases hc

/-- A line that is echoed, and what is read behind the echo. -/
theorem Stands.exchange (fuel : ℕ) (he : Eager L.arrive) (hs : Stands h d []) (hline : Unended line)
    {reply : List UInt8} (hreply : reply ≠ [])
    (hhear : L.hear d (line ++ crlf) = ([line ++ crlf, reply], d')) (hfuel : line.length < fuel)
    (hlen : reply.length ≤ m) (hm : m ≤ repBufsize) (buf : List UInt8) : ∃ h',
    LpcTools.exchange (L.sys O) fuel (line ++ crlf) m buf h = .ok (some (overlay buf 0 reply)) h' ∧
      Stands h' d' [] := by
  have hpos := List.length_pos_iff.2 hreply
  have hs₁ := hs.write hhear (by
    intro c hc
    rcases List.mem_pair.1 hc with rfl | rfl
    · simp [crlf]
    · exact hreply)
  rw [List.nil_append, show [line ++ crlf, reply].flatten = line ++ crlf ++ reply by simp] at hs₁
  obtain ⟨h₂, hempty, hs₂⟩ := Stands.emptyBuffer (O := O) he hline hs₁ hfuel
  obtain ⟨h₃, hread, hs₃⟩ := Stands.read (O := O) he hs₂ (Nat.lt_of_lt_of_le hpos hlen) hm hlen
  refine ⟨h₃, ?_, hs₃⟩
  unfold LpcTools.exchange
  rw [bind_ok (ispSerialWrite_sys _ _), bind_ok hempty, if_pos rfl, bind_ok hread]
  rfl

end Stands

end Line

section Connect

variable {L : Line δ} {id : Identity} {O : Sys (Wire (Session δ))} {h : Host (Wire (Session δ))}
  {fuel : ℕ} {freq : UInt32} {s : Session δ}

theorem session_waiting (L : Line δ) (id : Identity) (hs : s.phase = .waiting) :
    (L.session id).hear s synchroStart = ([synchro], { s with phase := .synchronizing, echo := true }) := by
  simp only [Line.session, Session.hear, hs, if_true]

theorem session_synchro (hs : s.phase = .synchronizing) : (L.session id).hear s (synchroLine ++ crlf) =
    ([synchroLine ++ crlf, synchroOk], { s with phase := .clocking }) := by
  simp only [Line.session, Session.hear, hs]
  exact if_pos (by decide)

theorem session_freq (hs : s.phase = .clocking) (text : List UInt8) :
    (L.session id).hear s text =
      ([text, synchroOk], { s with phase := .commanding, spoiled := false }) := by
  simp only [Line.session, Session.hear, hs]

theorem session_echoOff (d : δ) :
    (L.session id).hear ⟨.commanding, true, false, d⟩ (bytes ['A', ' ', '0'] ++ crlf) =
      ([bytes ['A', ' ', '0'] ++ crlf, statusText 0], .ready d) := by
  simp only [Line.session, Session.hear, Session.obey, Bool.false_eq_true, if_false, if_true,
    if_neg (show bytes ['A', ' ', '0'] ++ crlf ≠ synchroStart by decide),
    if_pos (show bytes ['A', ' ', '0'] ++ crlf = synchroEchoOff by decide)]
  rfl

theorem session_spoil (L : Line δ) (id : Identity) (d : δ) (spoiled : Bool) :
    (L.session id).hear ⟨.commanding, false, spoiled, d⟩ synchroStart =
      ([], ⟨.commanding, false, true, d⟩) := by
  simp only [Line.session, Session.hear, Session.obey, Bool.false_eq_true, if_false, if_true]

theorem session_refuse (d : δ) : (L.session id).hear ⟨.commanding, false, true, d⟩ readPartId =
    ([statusText 1], .ready d) := by
  simp only [Line.session, Session.hear, Session.obey, Bool.false_eq_true, if_false, if_true,
    if_neg (show readPartId ≠ synchroStart by decide)]
  rfl

theorem session_identity (d : δ) {text : List UInt8} {ns : List ℕ} (hns : id.answer text = some ns) :
    (L.session id).hear (.ready d) text = ([statusText 0, numbersText ns], .ready d) := by
  have hne : text ≠ synchroStart ∧ text ≠ synchroEchoOff := by
    constructor <;> rintro rfl <;> cases hns
  simp only [Line.session, Session.hear, Session.obey, Session.ready, Bool.false_eq_true, if_false,
    if_neg hne.1, if_neg hne.2, hns]

/-- What the device itself answers. -/
def Delegated (text : List UInt8) : Prop :=
  text ∉ [synchroStart, synchroEchoOff, readPartId, readUid, readBootVersion]

theorem session_delegated (L : Line δ) (id : Identity) (d : δ) {text : List UInt8} (htext : Delegated text) :
    (L.session id).hear (.ready d) text = ((L.hear d text).1, .ready (L.hear d text).2) := by
  have hne : text ≠ synchroStart ∧ text ≠ synchroEchoOff ∧ text ≠ readPartId ∧ text ≠ readUid ∧
      text ≠ readBootVersion := by
    simpa [Delegated] using htext
  have hns : id.answer text = none := by
    unfold Identity.answer
    rw [if_neg hne.2.2.1, if_neg hne.2.2.2.1, if_neg hne.2.2.2.2]
  simp only [Line.session, Session.hear, Session.obey, Session.ready, Bool.false_eq_true, if_false,
    if_neg hne.1, if_neg hne.2.1, hns]

/-- A session is opened with a boot ROM that waits. -/
theorem ispConnect_waiting (he : Line.Eager L.arrive) (hfreq : freq.toNat < 10 ^ 5)
    (hfuel : 14 ≤ fuel) (hphase : s.phase = .waiting) (hs : Line.Stands h s []) : ∃ h',
    ispConnect ((L.session id).sys O) fuel freq h = .ok (some 1) h' ∧
      Line.Stands h' (.ready s.dev) [] := by
  have he' : Line.Eager (L.session id).arrive := he
  have hdigits := decimal_length_le 4 _ hfreq
  obtain ⟨stack, hstack⟩ : ∃ stack, (List.range repBufsize).map
      (((L.session id).sys O).stack h.env) = stack := ⟨_, rfl⟩
  -- the answer to the question mark
  have hs₁ := hs.write (session_waiting L id hphase) (by decide)
  obtain ⟨h₂, hread, hs₂⟩ := Line.Stands.read (O := O) (n := repBufsize) (m := synchro.length) he' hs₁
    (by decide) (by decide) (by decide)
  rw [List.nil_append, List.flatten_cons, List.flatten_nil, List.append_nil] at hread
  -- its acknowledgement, the frequency and the end of the echo
  obtain ⟨h₃, hsync, hs₃⟩ := Line.Stands.exchange (O := O) (m := synchroOk.length) fuel he'
    hs₂ (by decide) (by decide) (session_synchro rfl) (by rw [show synchroLine.length = 12 from rfl]; omega)
    (Nat.le_refl _) (by decide) (overlay stack 0 synchro)
  obtain ⟨h₄, hclock, hs₄⟩ := Line.Stands.exchange (O := O) (m := synchroOk.length) fuel he'
    hs₃ (unended_decimal freq.toNat) (by decide) (session_freq rfl _) (by omega)
    (Nat.le_refl _) (by decide) (overlay (overlay stack 0 synchro) 0 synchroOk)
  obtain ⟨h₅, hoff, hs₅⟩ := Line.Stands.exchange (O := O) (m := 3) fuel he' hs₄
    (show Unended (bytes ['A', ' ', '0']) by decide) (by decide) (session_echoOff s.dev)
    (by rw [show (bytes ['A', ' ', '0']).length = 3 from rfl]; omega) (by decide) (by decide)
    (overlay (overlay (overlay stack 0 synchro) 0 synchroOk) 0 synchroOk)
  refine ⟨h₅, ?_, hs₅⟩
  rw [show synchroLine ++ crlf = synchro by decide] at hsync
  rw [show bytes ['A', ' ', '0'] ++ crlf = synchroEchoOff by decide] at hoff
  have hacked (buf text : List UInt8) : ¬ (overlay buf 0 text).take text.length ≠ text :=
    not_not.2 (take_overlay_self buf text)
  unfold ispConnect
  rw [bind_ok (uninit_apply _ _ _), hstack, bind_ok (Line.ispSerialWrite_sys _ _), if_neg (by decide),
    bind_ok hread]
  simp only [if_neg (show ¬ toInt synchro.length < 0 by decide)]
  rw [if_neg (hacked _ _), bind_ok hsync]
  simp only []
  rw [if_neg (hacked _ _), freqText_eq hfreq, bind_ok hclock]
  simp only []
  rw [if_neg (hacked _ _), bind_ok hoff]
  rfl

/-- No session is opened where one is open already, and the line has been spoiled. -/
theorem ispConnect_open (fuel : ℕ) (freq : UInt32) (he : Line.Eager L.arrive) {d : δ} {spoiled : Bool}
    (hs : Line.Stands h ⟨.commanding, false, spoiled, d⟩ [])
    (hstack : ((List.range repBufsize).map (O.stack h.env)).take synchro.length ≠ synchro) : ∃ h',
    ispConnect ((L.session id).sys O) fuel freq h = .ok (some (-3)) h' ∧
      Line.Stands h' ⟨.commanding, false, true, d⟩ [] := by
  have hs₁ := hs.write (session_spoil L id d spoiled) (by decide)
  obtain ⟨h₂, hread, hs₂⟩ := Line.Stands.read (L := L.session id) (O := O) (n := repBufsize)
    (m := synchro.length) he hs₁ (by decide) (by decide) (by decide)
  have hother : ((List.range repBufsize).map (((L.session id).sys O).stack h.env)).take
      synchro.length ≠ synchro := hstack
  refine ⟨h₂, ?_, hs₂⟩
  unfold ispConnect
  rw [bind_ok (uninit_apply _ _ _), bind_ok (Line.ispSerialWrite_sys _ _), if_neg (by decide),
    bind_ok hread]
  simp only [List.flatten_nil, List.append_nil,
    if_neg (show ¬ toInt ([] : List UInt8).length < 0 by decide), overlay_nil]
  rw [if_pos hother]
  rfl

/-- The request of which the line is spoiled is refused. -/
theorem ispCmdPartId_refused (he : Line.Eager L.arrive) {d : δ}
    (hs : Line.Stands h ⟨.commanding, false, true, d⟩ []) : ∃ h',
    ispCmdPartId ((L.session id).sys O) 1 h = .ok 1 h' ∧ Line.Stands h' (.ready d) [] := by
  have hhear : (L.session id).hear h.env.dev readPartId = ([statusText 1], .ready d) := by
    rw [hs.dev, session_refuse]
  obtain ⟨k, h₁, es, hsend, hR, hpend, -, -⟩ := sendRequest_piece (O := O)
    ((List.range 5).map (((L.session id).sys O).stack h.env)) (-5) (-4) 1 []
    (Line.Timely.prompt (Line.timely_of_eager he 1)) hs.nextReadChar hs.pending hhear (by decide)
    (by decide)
  rw [List.take_nil, List.drop_nil, List.append_nil] at hpend
  refine ⟨h₁, ?_, hR.dev.trans ?_, ?_, ?_, hR.nextReadChar.trans hs.nextReadChar,
    hR.request.trans hs.request, hR.requested.trans hs.requested⟩
  · unfold ispCmdPartId readReply ispSendCmdNoArgs
    rw [bind_ok (uninit_apply _ _ _), bind_ok (bind_ok (uninit_apply _ _ _) |>.trans (map_ok hsend))]
    rfl
  · rw [Line.told, Line.wrote, hhear]
  · rw [Wire.unread, hpend]
    rfl
  · intro c hc
    rw [hpend] at hc
    cases hc

/-- The numbers of an open session are read as the boot ROM knows them. -/
theorem Line.Stands.reply (he : Line.Eager L.arrive) {d : δ} (hs : Line.Stands h (.ready d) [])
    {cmd : List UInt8} {ns : List ℕ} {m n : ℕ} (hcmd : (cmd, m, n) ∈ idRequests)
    (hns : id.answer cmd = some ns) (quiet : ℤ) (value : List ℕ → ℤ) : ∃ h',
    readReply ((L.session id).sys O) cmd quiet m n value h = .ok (value ns) h' ∧
      Line.Stands h' (.ready d) [] := by
  obtain ⟨ns', hns', hne, rfl, hlt, hlen, hm, hshort⟩ := id.answer_fits hcmd
  obtain rfl : ns' = ns := Option.some.inj (hns'.symm.trans hns)
  have hpos := length_numbersText_pos hne
  have hhear : (L.session id).hear h.env.dev cmd = ([statusText 0, numbersText ns'], .ready d) := by
    rw [hs.dev, session_identity d hns]
  have hsolid : ∀ c ∈ [numbersText ns'], c ≠ [] := by
    intro c hc
    rw [List.mem_singleton.1 hc]
    exact List.ne_nil_of_length_pos hpos
  obtain ⟨h', hrun, hdev, hpend, hnext, hrequest, hrequested⟩ := readReply_sent O hs.nextReadChar
    hs.pending hshort hne (fun n hn => by have := hlt n hn; rw [ulongMax]; omega) hhear hsolid
    (by simp) hlen hm (Line.timely_of_eager he _) quiet value
  refine ⟨h', hrun, hdev, by rw [Wire.unread, hpend]; rfl, ?_, hnext, hrequest.trans hs.request,
    hrequested.trans hs.requested⟩
  intro c hc
  rw [hpend] at hc
  cases hc

theorem Line.Stands.partId (id : Identity) (he : Line.Eager L.arrive) {d : δ} (hs : Line.Stands h (.ready d) [])
    (quiet : ℤ) : ∃ h',
    ispCmdPartId ((L.session id).sys O) quiet h = .ok id.partId h' ∧ Line.Stands h' (.ready d) [] := by
  obtain ⟨h', hrun, hs'⟩ := Line.Stands.reply (O := O) he hs (n := 1) (m := 15)
    (show (readPartId, 15, 1) ∈ idRequests by simp [idRequests])
    (show id.answer readPartId = some [id.partId] from rfl) quiet fun vs => toInt (vs.headD 0)
  refine ⟨h', ?_, hs'⟩
  rw [List.headD_cons, toInt_of_lt id.partId_lt] at hrun
  exact hrun

/-- From either state `lpcprog` comes to an open session and to the id of the device. -/
theorem progConnectAndId_session (he : Line.Eager L.arrive) (hfreq : freq.toNat < 10 ^ 5)
    (hfuel : 14 ≤ fuel) (hs : Line.Stands h s [])
    (hstate : s.phase = .waiting ∨ s.phase = .commanding ∧ s.echo = false)
    (hstack : ∀ env, ((List.range repBufsize).map (O.stack env)).take synchro.length ≠ synchro) : ∃ h',
    progConnectAndId ((L.session id).sys O) fuel freq h = .ok (some (id.partId : ℤ)) h' ∧
      Line.Stands h' (.ready s.dev) [] := by
  have hsync : ∃ h₁, syncTarget ((L.session id).sys O) fuel freq h = .ok true h₁ ∧
      Line.Stands h₁ (.ready s.dev) [] := by
    unfold syncTarget
    rcases hstate with hphase | ⟨hphase, hecho⟩
    · obtain ⟨h₁, hconnect, hs₁⟩ := ispConnect_waiting (O := O) he hfreq hfuel hphase hs
      refine ⟨h₁, ?_, hs₁⟩
      rw [bind_ok hconnect]
      rfl
    · obtain ⟨phase, echo, spoiled, d⟩ := s
      change phase = _ at hphase
      change echo = _ at hecho
      subst hphase hecho
      obtain ⟨h₁, hconnect, hs₁⟩ := ispConnect_open (O := O) fuel freq he hs
        (hstack _)
      obtain ⟨h₂, hrefused, hs₂⟩ := ispCmdPartId_refused (O := O) he hs₁
      refine ⟨h₂, ?_, hs₂⟩
      rw [bind_ok hconnect]
      simp only []
      rw [if_pos (by decide), bind_ok hrefused]
      rfl
  obtain ⟨h₁, hdone, hs₁⟩ := hsync
  obtain ⟨h₂, hpart, hs₂⟩ := Line.Stands.partId (O := O) id he hs₁ 1
  refine ⟨h₂, ?_, hs₂⟩
  unfold progConnectAndId
  rw [bind_ok hdone, if_pos rfl]
  exact map_ok hpart

/-- However the answer to a request for what the device is comes in pieces, and whenever these come
while the host waits, its buffer holds it, the numbers are read as they were sent, and nothing of it is
left on the line. -/
theorem Identity.answer_read (identity : Identity) {M : Line δ} {O : Sys (Wire δ)} {h : Host (Wire δ)}
    {cmd : List UInt8} {m n : ℕ} (hcmd : (cmd, m, n) ∈ idRequests) {ns : List ℕ}
    (hns : identity.answer cmd = some ns) (h0 : h.nextReadChar = 0) (hpend : h.env.pending = [])
    {pieces : List (List UInt8)} {d : δ} (hhear : M.hear h.env.dev cmd = (statusText 0 :: pieces, d))
    (hsolid : ∀ c ∈ pieces, c ≠ []) (htext : pieces.flatten = numbersText ns)
    (htime : Line.Timely M.arrive (pieces.length + 1)) (quiet : ℤ) (value : List ℕ → ℤ) : ∃ h',
    readReply (M.sys O) cmd quiet m n value h = .ok (value ns) h' ∧ h'.env.dev = d ∧
      h'.env.pending = [] ∧ h'.nextReadChar = 0 := by
  obtain ⟨ns', hns', hne, rfl, hlt, hlen, hm, hshort⟩ := identity.answer_fits hcmd
  obtain rfl : ns' = ns := Option.some.inj (hns'.symm.trans hns)
  obtain ⟨h', hrun, hdev, hnil, hnext, -, -⟩ := readReply_sent O h0 hpend hshort hne
    (fun n hn => by have := hlt n hn; rw [ulongMax]; omega) hhear hsolid htext hlen hm htime quiet value
  exact ⟨h', hrun, hdev, hnil, hnext⟩

/-- A device that sends its numbers a byte at a time. -/
def bytewise (ns : List ℕ) : Line Unit where
  hear := fun d _ => (statusText 0 :: singles (numbersText ns), d)
  arrive := fun _ => 1

def sampleIdentity : Identity where
  partId := 271786064
  uid := [1, 20, 300, 4294967295]
  bootVersion := [4, 13]
  partId_lt := by decide
  uid_length := rfl
  uid_lt := by decide
  bootVersion_length := rfl
  bootVersion_lt := by decide

theorem Identity.answer_read_uid : ∃ h' : Host (Wire Unit),
    readReply ((bytewise sampleIdentity.uid).sys (Sys.plain _)) readUid 0 50 4
      (fun vs => vs.getD 2 0) (.start (.quiet ()) 0 0 0) = .ok 300 h' ∧
      h'.env.dev = () ∧ h'.env.pending = [] ∧ h'.nextReadChar = 0 := by
  have hsolid : ∀ c ∈ singles (numbersText sampleIdentity.uid), c ≠ [] := by
    intro c hc
    obtain ⟨b, -, rfl⟩ := List.mem_map.1 hc
    simp
  exact sampleIdentity.answer_read (M := bytewise sampleIdentity.uid) (O := Sys.plain _)
    (by simp [idRequests]) rfl rfl rfl rfl hsolid (flatten_singles _)
    (Line.timely_of_eager (fun _ => Nat.one_pos) _) 0 fun vs => vs.getD 2 0

end Connect

end LpcTools
