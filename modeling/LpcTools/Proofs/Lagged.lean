import LpcTools.Proofs.Connecting

/-!
# A line on which every reply comes whole

The reply to a message is there after a number of polls that find nothing, and then all of it is. The
host waits for it unless they are more than it has patience for.
-/

namespace LpcTools

open Run Decimal Uuencode

/-- A line with a device at its end, what waits on it, and how many polls will not find that yet. -/
structure Lagged (δ : Type) where
  dev : δ
  unread : List UInt8
  wait : ℕ
  writes : ℕ

variable {δ : Type}

/-- A line on which nothing is waiting. -/
def Lagged.idle (dev : δ) : Lagged δ := ⟨dev, [], 0, 0⟩

/-- A device, as what it answers to a message, and how many polls the reply to each message takes. -/
structure LateLine (δ : Type) where
  hear : δ → List UInt8 → List UInt8 × δ
  lag : ℕ → ℕ

namespace LateLine

variable (L : LateLine δ)

def wrote (w : Lagged δ) (bs : List UInt8) : Lagged δ :=
  ⟨(L.hear w.dev bs).2, w.unread ++ (L.hear w.dev bs).1, L.lag w.writes, w.writes + 1⟩

/-- The system `O` with this line for its serial line. -/
def sys (O : Sys (Lagged δ)) : Sys (Lagged δ) :=
  { O with
    read := fun w n =>
      if w.wait ≠ 0 ∨ w.unread = [] then (.again, { w with wait := w.wait - 1 })
      else (.data (w.unread.take n), { w with unread := w.unread.drop n })
    write := fun w bs => (.wrote bs.length, L.wrote w bs)
    read_le := by
      intro w n bs t h
      split_ifs at h
      · cases h
      · rw [← ReadOutcome.data.inj (Prod.mk.inj h).1]
        exact List.length_take_le _ _
    write_le := by
      intro w bs n t h
      cases h
      exact Nat.le_refl _
    write_pos := by
      intro w bs n t h hne
      cases h
      exact List.length_pos_iff.2 hne }

/-- Between two steps of the host: the device, and what waits for the host, which has kept nothing
back and has patience enough. -/
structure Stands (h : Host (Lagged δ)) (d : δ) (s : List UInt8) : Prop where
  dev : h.env.dev = d
  unread : h.env.unread = s
  wait : h.env.wait ≤ 101
  nextReadChar : h.nextReadChar = 0

variable {L} {O : Sys (Lagged δ)} {h : Host (Lagged δ)} {d : δ} {s : List UInt8}

theorem Stands.emit (hs : Stands h d s) (e : Event) : Stands (h.emit e) d s :=
  ⟨hs.dev, hs.unread, hs.wait, hs.nextReadChar⟩

theorem Stands.logged (hs : Stands h d s) (es : List Event) : Stands (h.logged es) d s :=
  ⟨hs.dev, hs.unread, hs.wait, hs.nextReadChar⟩

/-- One poll in vain. -/
theorem Stands.polled (hs : Stands h d s) :
    Stands { h with env := { h.env with wait := h.env.wait - 1 } } d s :=
  ⟨hs.dev, hs.unread, Nat.le_trans (Nat.sub_le _ _) hs.wait, hs.nextReadChar⟩

theorem Stands.took (hs : Stands h d s) (n : ℕ) :
    Stands { h with env := { h.env with unread := h.env.unread.drop n } } d (s.drop n) :=
  ⟨hs.dev, congrArg (List.drop n) hs.unread, hs.wait, hs.nextReadChar⟩

theorem read_vain {w : Lagged δ} (hw : w.wait ≠ 0 ∨ w.unread = []) (n : ℕ) :
    (L.sys O).read w n = (.again, { w with wait := w.wait - 1 }) := if_pos hw

theorem read_data {w : Lagged δ} (hwait : w.wait = 0) (hne : w.unread ≠ []) (n : ℕ) :
    (L.sys O).read w n = (.data (w.unread.take n), { w with unread := w.unread.drop n }) :=
  if_neg fun hw => hw.elim (fun h => h hwait) hne

theorem Stands.write (hlag : ∀ k, L.lag k ≤ 101) (hs : Stands h d s) (bs : List UInt8) : ∃ h',
    ispSerialWrite (L.sys O) bs h = .ok (toInt bs.length) h' ∧
      Stands h' (L.hear d bs).2 (s ++ (L.hear d bs).1) := by
  refine ⟨{ h with env := L.wrote h.env bs }, Loop.run_inr ?_, ?_⟩
  · simp [serialWriteLoop, sys]
  · refine ⟨?_, ?_, hlag _, hs.nextReadChar⟩
    · rw [wrote, hs.dev]
    · rw [wrote, hs.dev, hs.unread]

section Read

variable {n m : ℕ}

theorem readTurn_vain (l : ReadLocals) (h : Host (Lagged δ))
    (hvain : h.env.wait ≠ 0 ∨ h.env.unread = []) :
    (serialReadLoop (L.sys O) n m).body l h =
      if 100 < l.loops then .ok (.inr (toInt l.got.length, l.got))
        ({ h with env := { h.env with wait := h.env.wait - 1 } }.emit .timeout)
      else .ok (ReadLocals.test m ⟨l.got, l.loops + 1⟩)
        { h with env := { h.env with wait := h.env.wait - 1 } } := by
  simp only [serialReadLoop, read_vain hvain]

/-- Nothing more comes, and the host gives up. -/
theorem readLoop_dry {got : List UInt8} (hm : got.length < m) : ∀ (k ℓ : ℕ) (h : Host (Lagged δ)),
    101 - ℓ = k → Stands h d [] → ∃ h',
      (serialReadLoop (L.sys O) n m).run ⟨got, ℓ⟩ h = .ok (toInt got.length, got) h' ∧
      Stands h' d []
  | 0, ℓ, h, hk, hs => by
    have hbody := readTurn_vain (L := L) (O := O) (n := n) (m := m) ⟨got, ℓ⟩ h (.inr hs.unread)
    rw [if_pos (by simp only []; omega)] at hbody
    exact ⟨_, Loop.run_inr hbody, hs.polled.emit .timeout⟩
  | k + 1, ℓ, h, hk, hs => by
    have hbody := readTurn_vain (L := L) (O := O) (n := n) (m := m) ⟨got, ℓ⟩ h (.inr hs.unread)
    have htest : ReadLocals.test m ⟨got, ℓ + 1⟩ = .inl ⟨got, ℓ + 1⟩ := if_pos hm
    rw [if_neg (by simp only []; omega), htest] at hbody
    obtain ⟨h', hrun, hs'⟩ := readLoop_dry hm k (ℓ + 1) _ (by omega) hs.polled
    exact ⟨h', (Loop.run_inl hbody).trans hrun, hs'⟩

/-- A reply is waited for and taken whole, as far as there is room for it. -/
theorem readLoop_reply (hm : 0 < m) (hmin : m ≤ n) (hne : s ≠ []) :
    ∀ (k ℓ : ℕ) (h : Host (Lagged δ)), h.env.wait = k → ℓ + k ≤ 101 → Stands h d s → ∃ h',
      (serialReadLoop (L.sys O) n m).run ⟨[], ℓ⟩ h =
        .ok (toInt (s.take n).length, s.take n) h' ∧ Stands h' d (s.drop n)
  | 0, ℓ, h, hk, hℓ, hs => by
    have htake : s.take n ≠ [] := by
      rw [Ne, List.take_eq_nil_iff, not_or]
      exact ⟨by omega, hne⟩
    have hdata := read_data (L := L) (O := O) hk (by rwa [hs.unread]) n
    have hbody : (serialReadLoop (L.sys O) n m).body ⟨[], ℓ⟩ h =
        .ok (ReadLocals.test m ⟨s.take n, ℓ⟩)
          { h with env := { h.env with unread := h.env.unread.drop n } } := by
      rw [hs.unread] at hdata ⊢
      simp only [serialReadLoop, List.length_nil, Nat.sub_zero, hdata, if_neg htake, List.nil_append]
    by_cases hlt : (s.take n).length < m
    · have hshort : s.drop n = [] := by
        rw [List.length_take] at hlt
        exact List.drop_of_length_le (by omega)
      have htest : ReadLocals.test m ⟨s.take n, ℓ⟩ = .inl ⟨s.take n, ℓ⟩ := if_pos hlt
      rw [htest] at hbody
      have hs' := hs.took n
      rw [hshort] at hs' ⊢
      obtain ⟨h', hrun, hs''⟩ := readLoop_dry hlt (101 - ℓ) ℓ _ rfl hs'
      exact ⟨h', (Loop.run_inl hbody).trans hrun, hs''⟩
    · have htest : ReadLocals.test m ⟨s.take n, ℓ⟩ = .inr (toInt (s.take n).length, s.take n) :=
        if_neg hlt
      rw [htest] at hbody
      exact ⟨_, Loop.run_inr hbody, hs.took n⟩
  | k + 1, ℓ, h, hk, hℓ, hs => by
    have hbody := readTurn_vain (L := L) (O := O) (n := n) (m := m) ⟨[], ℓ⟩ h
      (.inl (by rw [hk]; exact Nat.succ_ne_zero k))
    have htest : ReadLocals.test m ⟨[], ℓ + 1⟩ = .inl ⟨[], ℓ + 1⟩ := if_pos hm
    rw [if_neg (by simp only []; omega), htest] at hbody
    obtain ⟨h', hrun, hs'⟩ := readLoop_reply hm hmin hne k (ℓ + 1) _
      (show h.env.wait - 1 = k by omega) (by omega) hs.polled
    exact ⟨h', (Loop.run_inl hbody).trans hrun, hs'⟩

/-- A read takes what waits, as far as there is room for it, whether that is as much as it asks for
or not. -/
theorem Stands.read (hs : Stands h d s) (hm : 0 < m) (hmin : m ≤ n) : ∃ h',
    ispSerialRead (L.sys O) n m h = .ok (toInt (s.take n).length, s.take n) h' ∧
      Stands h' d (s.drop n) := by
  unfold ispSerialRead
  rw [if_neg (Nat.not_lt.2 hmin), if_pos hs.nextReadChar]
  by_cases hne : s = []
  · subst hne
    rw [List.take_nil, List.drop_nil]
    exact readLoop_dry hm 101 0 h rfl hs
  · exact readLoop_reply hm hmin hne _ 0 h rfl (by rw [Nat.zero_add]; exact hs.wait) hs

end Read

section Echo

/-- An echoed line goes up to its carriage return, and what is behind that is there. -/
theorem drainLine_stands {s : List UInt8} : ∀ (fuel : ℕ) (a : List UInt8) (unused : UInt8) (loops : ℕ)
    (h : Host (Lagged δ)), Stands h d (a ++ '\r'.toUInt8 :: s) → Unended a →
    endsLine unused = false → loops + h.env.wait ≤ 101 → a.length + h.env.wait < fuel → ∃ h',
      drainLine (L.sys O) fuel unused loops h = .ok (.left '\r'.toUInt8) h' ∧
      Stands h' d s ∧ h'.env.wait = 0
  | 0, a, unused, loops, h, _, _, _, _, hfuel => absurd hfuel (Nat.not_lt_zero _)
  | fuel + 1, a, unused, loops, h, hs, ha, hun, hloops, hfuel => by
    by_cases hwait : h.env.wait = 0
    · have hne : h.env.unread ≠ [] := by
        rw [hs.unread]
        simp
      have hdata := read_data (L := L) (O := O) hwait hne 1
      rw [hs.unread] at hdata
      have hs' := hs.took 1
      rw [hs.unread] at hs'
      rcases a with _ | ⟨c, a⟩
      · exact ⟨_, drainLine_end hdata rfl, hs', hwait⟩
      · have hc : endsLine c = false := ha c List.mem_cons_self
        rw [List.length_cons] at hfuel
        rw [drainLine_char hdata hc]
        exact drainLine_stands fuel a c loops _ hs' (fun e he => ha e (List.mem_cons_of_mem c he)) hc
          hloops (by simp only []; omega)
    · have hvain := read_vain (L := L) (O := O) (w := h.env) (.inl hwait) 1
      rw [drainLine_again hvain (by omega) hun]
      exact drainLine_stands fuel a unused (loops + 1) _ hs.polled ha hun (by simp only []; omega)
        (by simp only []; omega)

/-- An echoed line goes, with its line end. -/
theorem Stands.empty_buffer {line : List UInt8} {fuel : ℕ} (hs : Stands h d (line ++ crlf ++ s))
    (hline : Unended line) (hfuel : line.length + 101 < fuel) : ∃ h',
      ispSerialEmptyBuffer (L.sys O) fuel h = .ok true h' ∧ Stands h' d s := by
  have hwait := hs.wait
  rw [List.append_assoc] at hs
  obtain ⟨h₁, hrun, hs₁, hwait₁⟩ := drainLine_stands (L := L) (O := O) fuel line 0 0 h hs hline rfl
    (by omega) (by omega)
  have hdata := read_data (L := L) (O := O) hwait₁ (by rw [hs₁.unread]; simp) 1
  have hs₂ := hs₁.took 1
  rw [hs₁.unread] at hdata hs₂
  exact ⟨_, ispSerialEmptyBuffer_feed hrun hdata, hs₂⟩

end Echo

section Steps

/-- A message of one line, of which the echo goes and the reply is read. -/
theorem Stands.exchange {line reply : List UInt8} {d' : δ} {m : ℕ} (hs : Stands h d []) (fuel : ℕ)
    (hlag : ∀ k, L.lag k ≤ 101) (hline : Unended line)
    (hhear : L.hear d (line ++ crlf) = (line ++ crlf ++ reply, d')) (hfuel : line.length + 101 < fuel)
    (hm : 0 < m) (hmin : m ≤ repBufsize) (hreply : reply.length ≤ repBufsize) (buf : List UInt8) :
    ∃ h', LpcTools.exchange (L.sys O) fuel (line ++ crlf) m buf h =
        .ok (some (overlay buf 0 reply)) h' ∧ Stands h' d' [] := by
  obtain ⟨h₁, hwrite, hs₁⟩ := hs.write (O := O) hlag (line ++ crlf)
  rw [hhear, List.nil_append] at hs₁
  obtain ⟨h₂, hempty, hs₂⟩ := hs₁.empty_buffer (L := L) (O := O) hline hfuel
  obtain ⟨h₃, hread, hs₃⟩ := hs₂.read (L := L) (O := O) hm hmin
  rw [List.take_of_length_le hreply] at hread
  rw [List.drop_of_length_le hreply] at hs₃
  refine ⟨h₃, ?_, hs₃⟩
  unfold LpcTools.exchange
  rw [bind_ok hwrite, bind_ok hempty, if_pos rfl, bind_ok hread]
  rfl

/-- A request that is answered with a status of one digit. -/
theorem Stands.request {cmd more : List UInt8} {d' : δ} {code : ℕ} (hlag : ∀ k, L.lag k ≤ 101)
    (hs : Stands h d []) (hcmd : cmd.length < 2 ^ 31) (hcode : code < 10)
    (hhear : L.hear d cmd = (statusText code ++ more, d')) (quiet : ℤ) : ∃ h',
      ispSendCmdNoArgs (L.sys O) cmd quiet h = .ok (code : ℤ) h' ∧ Stands h' d' more := by
  obtain ⟨h₁, hwrite, hs₁⟩ := hs.write (O := O) hlag cmd
  rw [hhear, List.nil_append] at hs₁
  obtain ⟨h₂, hread, hs₂⟩ := hs₁.read (L := L) (O := O) (show 0 < 3 by decide) (Nat.le_refl 3)
  have hlen := statusText_length_of_lt hcode
  rw [List.take_left' hlen, hlen] at hread
  rw [List.drop_left' hlen] at hs₂
  obtain ⟨es, -, hret⟩ := ispRetCode_eq (E := L.sys O) quiet h₂
    (strtoul_status ((List.range 5).map ((L.sys O).stack h.env)) hcode)
    (Nat.lt_trans hcode (by decide))
  refine ⟨(h₂.logged es).emit (.request cmd (.status code)), ?_, (hs₂.logged es).emit _⟩
  have hask : askStatus (L.sys O) cmd ((List.range 5).map ((L.sys O).stack h.env)) 3 (-5) (-4) quiet h =
      .ok (.status code) (h₂.logged es) := by
    unfold askStatus
    rw [bind_ok hwrite, toInt_of_lt hcmd, if_neg (not_not.2 rfl), bind_ok hread]
    exact map_ok hret
  have hsend : sendRequest (L.sys O) cmd ((List.range 5).map ((L.sys O).stack h.env)) 3 (-5) (-4)
      quiet h = .ok (.status code) ((h₂.logged es).emit (.request cmd (.status code))) := by
    unfold sendRequest
    rw [bind_ok hask]
    rfl
  unfold ispSendCmdNoArgs
  rw [bind_ok (uninit_apply _ _ _)]
  exact map_ok hsend

end Steps

end LateLine

end LpcTools
