import LpcTools.Lib.Polls
import LpcTools.Proofs.Connecting

/-!
# What is left of an echo

An echoed line is dropped with its line feed if that has come by the poll right behind the carriage
return, which is not repeated. Else what was read last is kept back, and the next read stores it in
front of the rest of the line.
-/

namespace LpcTools

open Run Decimal Uuencode Polls

/-- An echo dropped, and what is read behind it. -/
def readPastEcho {σ : Type} (E : Sys σ) (fuel bufSize minRead : ℕ) :
    Prog σ (Option (ℤ × List UInt8)) := do
  if ← ispSerialEmptyBuffer E fuel then some <$> ispSerialRead E bufSize minRead else return none

variable {δ : Type} {L : Line δ} {O : Sys (Wire δ)} {h h' : Host (Wire δ)}

section Waiting

/-- What waits on the line at poll `t`, in whatever pieces it comes. -/
structure Waiting (h : Host (Wire δ)) (s : List UInt8) (t : ℕ) : Prop where
  pieces : [] ∉ h.env.pending
  unread : h.env.unread = s
  polls : h.env.polls = t

variable {c : UInt8} {s : List UInt8} {t : ℕ}

theorem Waiting.front_eq_nil_iff (hw : Waiting h s t) (hs : s ≠ []) :
    L.front h.env = [] ↔ L.arrive t = 0 := by
  obtain ⟨hpieces, hunread, rfl⟩ := hw
  rcases hpend : h.env.pending with _ | ⟨p, ps⟩
  · rw [Wire.unread, hpend] at hunread
    exact absurd hunread.symm hs
  · have hp : p ≠ [] := fun he => hpieces (by rw [hpend, he]; exact List.mem_cons_self)
    rw [Line.front, hpend]
    rcases L.arrive h.env.polls with _ | k
    · simp
    · simp [hp]

/-- A read of one character takes the first that waits, once it has come. -/
theorem Waiting.take_one (hw : Waiting h (c :: s) t) (ht : 0 < L.arrive t) :
    (L.front h.env).take 1 = [c] := by
  have hne : L.front h.env ≠ [] := fun he => Nat.ne_of_gt ht ((hw.front_eq_nil_iff (List.cons_ne_nil c s)).1 he)
  have hpre := Line.front_unread (L := L) h.env
  rw [hw.unread] at hpre
  rcases hf : L.front h.env with _ | ⟨d, f⟩
  · exact absurd hf hne
  · rw [hf] at hpre
    rw [(List.cons_prefix_cons.1 hpre).1]
    rfl

theorem Waiting.read_one (hw : Waiting h (c :: s) t) (ht : 0 < L.arrive t) :
    (L.sys O).read h.env 1 = (.data [c], L.took h.env 1) := by
  have hne : L.front h.env ≠ [] := fun he => Nat.ne_of_gt ht ((hw.front_eq_nil_iff (List.cons_ne_nil c s)).1 he)
  simp only [Line.sys, if_neg hne, hw.take_one ht]

theorem Waiting.read_none (hw : Waiting h s t) (hs : s ≠ []) (ht : ¬ 0 < L.arrive t) :
    (L.sys O).read h.env 1 = (.again, Line.poll h.env) := by
  simp only [Line.sys, if_pos ((hw.front_eq_nil_iff hs).2 (Nat.eq_zero_of_not_pos ht))]

theorem Waiting.poll (hw : Waiting h s t) : Waiting { h with env := Line.poll h.env } s (t + 1) :=
  ⟨hw.pieces, hw.unread, congrArg (· + 1) hw.polls⟩

theorem Waiting.took (hw : Waiting h (c :: s) t) (ht : 0 < L.arrive t) :
    Waiting { h with env := L.took h.env 1 } s (t + 1) := by
  refine ⟨?_, ?_, congrArg (· + 1) hw.polls⟩
  · simp only [Line.took, List.mem_append, not_or]
    refine ⟨?_, fun hm => hw.pieces (List.mem_of_mem_drop hm)⟩
    rw [rest]
    split_ifs with hnil
    · exact List.not_mem_nil
    · exact fun hm => hnil (List.mem_singleton.1 hm).symm
  · change (L.took h.env 1).unread = s
    rw [Line.unread_took, hw.take_one ht, hw.unread]
    rfl

end Waiting

section Drain

/-- The carriage return behind `n` characters is read at poll `t + j`, with no more than `vain` polls
in vain before it. -/
def ReadAt (arrive : ℕ → ℕ) (t n vain j : ℕ) : Prop := HitAt (fun i => 0 < arrive (t + i)) n vain j

variable {arrive : ℕ → ℕ} {t n vain j : ℕ}

theorem shift_arrive (arrive : ℕ → ℕ) (t : ℕ) :
    (fun i => 0 < arrive (t + (i + 1))) = fun i => 0 < arrive (t + 1 + i) :=
  funext fun i => by rw [Nat.add_assoc, Nat.add_comm 1]

theorem readAt_find (h0 : 0 < arrive t) :
    ReadAt arrive t (n + 1) vain (j + 1) ↔ ReadAt arrive (t + 1) n vain j := by
  rw [ReadAt, hitAt_find (p := fun i => 0 < arrive (t + i)) h0, ReadAt]
  simp only [shift_arrive]

theorem readAt_vain (h0 : ¬ 0 < arrive t) :
    ReadAt arrive t n (vain + 1) (j + 1) ↔ ReadAt arrive (t + 1) n vain j := by
  rw [ReadAt, hitAt_vain (p := fun i => 0 < arrive (t + i)) h0, ReadAt]
  simp only [shift_arrive]

/-- The carriage return comes in time, and it is read; or it does not, and the loop is left before
it. -/
theorem drainLine_waiting {s : List UInt8} : ∀ (fuel : ℕ) (a : List UInt8) (unused : UInt8)
    (loops t : ℕ) (h : Host (Wire δ)), Waiting h (a ++ '\r'.toUInt8 :: s) t → Unended a →
    endsLine unused = false → loops ≤ 101 → a.length + (102 - loops) < fuel →
    (∃ j h', ReadAt L.arrive t a.length (101 - loops) j ∧
      drainLine (L.sys O) fuel unused loops h = .ok (.left '\r'.toUInt8) h' ∧
      Waiting h' s (t + j + 1) ∧ h'.nextReadChar = h.nextReadChar ∧ h'.log = h.log) ∨
    ((∀ j, ¬ ReadAt L.arrive t a.length (101 - loops) j) ∧ ∃ b c t' h',
      drainLine (L.sys O) fuel unused loops h = .ok (.left c) h' ∧ endsLine c = false ∧
      Waiting h' (b ++ '\r'.toUInt8 :: s) t')
  | 0, a, unused, loops, t, h, _, _, _, _, hfuel => absurd hfuel (Nat.not_lt_zero _)
  | fuel + 1, a, unused, loops, t, h, hw, ha, hun, hloops, hfuel => by
    by_cases ht : 0 < L.arrive t
    · rcases a with _ | ⟨c, a⟩
      · have hread := Waiting.read_one (O := O) hw ht
        exact .inl ⟨0, _, hitAt_first ht, drainLine_end hread rfl, hw.took ht, rfl, rfl⟩
      · have hc : endsLine c = false := ha c List.mem_cons_self
        have hread := Waiting.read_one (O := O) hw ht
        have ih := drainLine_waiting fuel a c loops (t + 1) _ (hw.took ht)
          (fun d hd => ha d (List.mem_cons_of_mem c hd)) hc hloops
          (by rw [List.length_cons] at hfuel; omega)
        rw [drainLine_char hread hc]
        refine ih.imp ?_ ?_
        · rintro ⟨j, h', hj, hrun, hw', hrest⟩
          refine ⟨j + 1, h', (readAt_find ht).2 hj, hrun, ?_, hrest⟩
          rwa [Nat.add_right_comm t 1 j] at hw'
        · rintro ⟨hno, hrest⟩
          refine ⟨fun j hj => ?_, hrest⟩
          obtain ⟨j, rfl⟩ := Nat.exists_eq_add_of_lt (HitAt.pos_of_succ hj)
          rw [Nat.zero_add] at hj
          exact hno j ((readAt_find ht).1 hj)
    · have hread := Waiting.read_none (O := O) hw (by simp) ht
      by_cases hlast : 100 < loops
      · refine .inr ⟨fun j hj => ?_, a, unused, t + 1, { h with env := Line.poll h.env }.emit .timeout,
          ?_, hun, ?_⟩
        · rw [show 101 - loops = 0 by omega] at hj
          exact ht hj.hit_zero
        · exact drainLine_timeout hread hlast
        · exact ⟨hw.pieces, hw.unread, congrArg (· + 1) hw.polls⟩
      · have ih := drainLine_waiting fuel a unused (loops + 1) (t + 1) _ hw.poll ha hun (by omega)
          (by omega)
        rw [drainLine_again hread hlast hun, show 101 - loops = 101 - (loops + 1) + 1 by omega]
        refine ih.imp ?_ ?_
        · rintro ⟨j, h', hj, hrun, hw', hrest⟩
          refine ⟨j + 1, h', (readAt_vain ht).2 hj, hrun, ?_, hrest⟩
          rwa [Nat.add_right_comm t 1 j] at hw'
        · rintro ⟨hno, hrest⟩
          refine ⟨fun j hj => ?_, hrest⟩
          obtain ⟨j, rfl⟩ := Nat.exists_eq_add_of_lt (HitAt.pos ht hj)
          rw [Nat.zero_add] at hj
          exact hno j ((readAt_vain ht).1 hj)

/-- The carriage return comes in time, and the line feed by the next poll. -/
def EchoRead (arrive : ℕ → ℕ) (t n : ℕ) : Prop :=
  ∃ j, ReadAt arrive t n 101 j ∧ 0 < arrive (t + j + 1)

theorem ReadAt.unique {k : ℕ} (hj : ReadAt arrive t n vain j) (hk : ReadAt arrive t n vain k) :
    j = k :=
  Nat.count_injective hj.2.1 hk.2.1 (hj.1.trans hk.1.symm)

/-- The echo is gone, or there is more on the line, with what is kept back, than the reply. -/
theorem ispSerialEmptyBuffer_waiting {line reply : List UInt8} {fuel : ℕ} (hline : Unended line)
    (hw : Waiting h (line ++ crlf ++ reply) t) (hfuel : line.length + 103 ≤ fuel) :
    (EchoRead L.arrive t line.length ∧ ∃ h', ispSerialEmptyBuffer (L.sys O) fuel h = .ok true h' ∧
      h'.env.unread = reply ∧ h'.nextReadChar = h.nextReadChar ∧ h'.log = h.log) ∨
    (¬ EchoRead L.arrive t line.length ∧ ∃ h',
      ispSerialEmptyBuffer (L.sys O) fuel h = .ok true h' ∧
      reply.length < (keptBack h'.nextReadChar ++ h'.env.unread).length) := by
  rw [List.append_assoc] at hw
  change Waiting h (line ++ '\r'.toUInt8 :: '\n'.toUInt8 :: reply) t at hw
  rcases drainLine_waiting (L := L) (O := O) fuel line 0 0 t h hw hline rfl (by omega) (by omega) with
    ⟨j, h₁, hj, hrun, hw₁, hnext, hlog⟩ | ⟨hno, b, c, t', h₁, hrun, hc, hw₁⟩
  · by_cases hfeed : 0 < L.arrive (t + j + 1)
    · exact .inl ⟨⟨j, hj, hfeed⟩, _, ispSerialEmptyBuffer_feed hrun (hw₁.read_one (O := O) hfeed),
        (hw₁.took hfeed).unread, hnext, hlog⟩
    · refine .inr ⟨?_, _, ispSerialEmptyBuffer_bare hrun (hw₁.read_none (O := O) (by simp) hfeed), ?_⟩
      · rintro ⟨k, hk, hfeed'⟩
        rw [← hj.unique hk] at hfeed'
        exact hfeed hfeed'
      · change _ < (keptBack '\r'.toUInt8 ++ h₁.env.unread).length
        rw [hw₁.unread, List.length_append, List.length_cons]
        omega
  · refine .inr ⟨fun hr => ?_, _, ispSerialEmptyBuffer_inside hrun hc, ?_⟩
    · obtain ⟨j, hj, -⟩ := hr
      exact hno j hj
    · rw [hw₁.unread]
      simp only [List.length_append, List.length_cons]
      omega

end Drain

section Delivery

/-- What a read stores and what is left on the line are what was kept back and what was waiting. -/
theorem ispSerialRead_conserves {n m : ℕ} (hmin : m ≤ n) (hpos : 0 < n) (h : Host (Wire δ)) :
    Ends (ispSerialRead (L.sys O) n m h) (fun r h' =>
      r.2 ++ h'.env.unread = keptBack h.nextReadChar ++ h.env.unread) (fun _ _ => False) := by
  have hloop : ∀ (got : List UInt8) (h₀ : Host (Wire δ)), h₀.env = h.env →
      got = keptBack h.nextReadChar →
      Ends ((serialReadLoop (L.sys O) n m).run ⟨got, 0⟩ h₀) (fun r h' =>
        r.2 ++ h'.env.unread = keptBack h.nextReadChar ++ h.env.unread) (fun _ _ => False) := by
    intro got h₀ henv hgot
    refine Loop.ends (I := fun l s => l.got ++ s.env.unread =
      keptBack h.nextReadChar ++ h.env.unread) ?_ (by rw [henv, hgot])
    intro l s hI
    have htook : l.got ++ (L.front s.env).take (n - l.got.length) ++
        (L.took s.env (n - l.got.length)).unread = keptBack h.nextReadChar ++ h.env.unread := by
      have hpre : (L.front s.env).take (n - l.got.length) <+: s.env.unread :=
        (List.take_prefix _ _).trans (Line.front_unread s.env)
      rw [Line.unread_took, List.append_assoc, ← hI]
      conv_rhs => rw [← List.take_append_drop ((L.front s.env).take (n - l.got.length)).length
        s.env.unread, ← List.prefix_iff_eq_take.1 hpre]
    rw [Line.readTurn]
    split_ifs with hf hloops hnil
    · exact hI
    · unfold ReadLocals.test
      split_ifs <;> exact hI
    · rw [hnil, List.append_nil] at htook
      exact htook
    · unfold ReadLocals.test
      split_ifs <;> exact htook
  unfold ispSerialRead
  rw [if_neg (Nat.not_lt.2 hmin)]
  by_cases h0 : h.nextReadChar = 0
  · rw [if_pos h0]
    exact hloop [] h rfl (by rw [keptBack, if_pos h0])
  · rw [if_neg h0, if_neg (Nat.ne_of_gt hpos)]
    exact hloop _ { h with nextReadChar := 0 } rfl (by rw [keptBack, if_neg h0])

/-- The bytes behind the echo are delivered: those stored are the first of them, the others still
wait and no character is kept back; and they are as many as asked for, unless the read gave up. -/
def Delivers (L : Line δ) (O : Sys (Wire δ)) (fuel n m : ℕ) (h : Host (Wire δ))
    (reply : List UInt8) : Prop :=
  ∃ got h', readPastEcho (L.sys O) fuel n m h = .ok (some (toInt got.length, got)) h' ∧
    got ++ h'.env.unread = reply ∧ h'.nextReadChar = 0 ∧
    (m ≤ got.length ∨ h'.log = h.log ++ [.timeout])

/-- A read behind an echo, whatever was left of that. -/
theorem readPastEcho_conserves {fuel n m : ℕ} {len : ℤ} {got : List UInt8} {h₁ : Host (Wire δ)}
    (hmin : m ≤ n) (hpos : 0 < n) (hrun : ispSerialEmptyBuffer (L.sys O) fuel h = .ok true h₁)
    (hok : readPastEcho (L.sys O) fuel n m h = .ok (some (len, got)) h') :
    got ++ h'.env.unread = keptBack h₁.nextReadChar ++ h₁.env.unread := by
  have hends := ispSerialRead_conserves (L := L) (O := O) hmin hpos h₁
  unfold readPastEcho at hok
  rw [bind_ok hrun, if_pos rfl] at hok
  rcases hread : ispSerialRead (L.sys O) n m h₁ with ⟨r, h₂⟩ | ⟨f, h₂⟩
  · rw [map_ok hread] at hok
    cases hok
    exact hends.ok hread
  · rw [map_error hread] at hok
    cases hok

/-- In whatever pieces an echo and what follows it come, exactly that is delivered if and only if no
character was kept back before, the carriage return comes before the host gives up, and the line feed
has come by the poll behind it. -/
theorem readPastEcho_delivers_iff {line reply : List UInt8} {t fuel n m : ℕ} (hline : Unended line)
    (hw : Waiting h (line ++ crlf ++ reply) t) (hfuel : line.length + 103 ≤ fuel) (hmin : m ≤ n)
    (hpos : 0 < n) : Delivers L O fuel n m h reply ↔
      h.nextReadChar = 0 ∧ EchoRead L.arrive t line.length := by
  rcases ispSerialEmptyBuffer_waiting (L := L) (O := O) hline hw hfuel with
    ⟨hread, h₁, hrun, hunread, hnext, hlog⟩ | ⟨hnot, h₁, hrun, hmore⟩
  · constructor
    · rintro ⟨got, h', hok, hbytes, -⟩
      have hall := readPastEcho_conserves hmin hpos hrun hok
      rw [hbytes, hunread, hnext, List.self_eq_append_left, keptBack] at hall
      split_ifs at hall with h0
      exact ⟨h0, hread⟩
    · rintro ⟨h0, -⟩
      obtain ⟨k, h', hreply, hR, -, hlog'⟩ := Line.ispSerialRead_sys (L := L) (O := O) hmin
        (hnext.trans h0) hpos
      have hk : (reply.take k).length = k := by
        have := hR.le
        rw [hunread] at this
        rw [List.length_take]
        omega
      rw [hunread] at hreply
      refine ⟨reply.take k, h', ?_, ?_, hR.nextReadChar.trans (hnext.trans h0), ?_⟩
      · unfold readPastEcho
        rw [bind_ok hrun, if_pos rfl, map_ok hreply, hk]
      · rw [hR.unread, hunread, List.take_append_drop]
      · rw [hk, ← hlog]
        exact hlog'.imp_left And.left
  · refine iff_of_false ?_ fun hand => hnot hand.2
    rintro ⟨got, h', hok, hbytes, -⟩
    have hall := readPastEcho_conserves hmin hpos hrun hok
    rw [hbytes] at hall
    exact absurd (congrArg List.length hall) (Nat.ne_of_lt hmore)

/-- The echo of a line with an acknowledgement behind it, in single bytes. -/
def echoed : Host (Wire Unit) :=
  .start ⟨(), singles (bytes ['S', 'y', 'n', 'c'] ++ crlf ++ synchroOk), 0, []⟩ 0 0 0

/-- A line on which so many bytes have come at each poll. -/
def arriving (arrive : ℕ → ℕ) : Line Unit := ⟨fun _ _ => ([], ()), arrive⟩

theorem readPastEcho_delivers_iff_sync :
    Delivers (arriving fun _ => 1) (Sys.plain _) 107 repBufsize synchroOk.length echoed synchroOk ↔
      echoed.nextReadChar = 0 ∧ EchoRead (fun _ => 1) 0 4 :=
  readPastEcho_delivers_iff (L := arriving fun _ => 1) (O := Sys.plain _) (t := 0)
    (show Unended (bytes ['S', 'y', 'n', 'c']) by decide) ⟨by decide, by decide, rfl⟩ (by decide)
    (by decide) (by decide)

/-- One poll finds nothing, and the line end of the echo is taken for the start of the reply. -/
theorem readPastEcho_late :
    ¬ Delivers (arriving fun t => if t = 5 then 0 else 1) (Sys.plain _) 107 repBufsize
      synchroOk.length echoed synchroOk := by
  rintro ⟨got, h', hok, hbytes, -⟩
  have hvalue : value (readPastEcho ((arriving fun t => if t = 5 then 0 else 1).sys (Sys.plain _))
      107 repBufsize synchroOk.length echoed) = some (some (4, bytes ['\r', '\n', 'O', 'K'])) := by
    decide +kernel
  rw [hok] at hvalue
  rw [(Prod.mk.inj (Option.some.inj (Option.some.inj hvalue))).2] at hbytes
  exact absurd (List.cons.inj hbytes).1 (by decide)

end Delivery

end LpcTools
