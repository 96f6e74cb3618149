import LpcTools.Proofs.ReadSafety

/-!
# What a command may report as a success

Every request answered with success, or with one of the two codes that are results; a reply wherever
one is waited for; and all the data of every transfer gone over. The lemmas below say what the
building blocks of the commands add to the log of requests, and when their values are negative.
-/

namespace LpcTools

open Run Decimal Uuencode

/-- An answer that is a success: "sector not blank" is one for a blank check, and "compare error" for
a comparison. -/
def Event.Success : Event → Prop
  | .request text a => a = .status 0 ∨ text.head? = some 'I'.toUInt8 ∧ a = .status 8 ∨
    text.head? = some 'M'.toUInt8 ∧ a = .status 10
  | .replied answered => answered = true
  | _ => True

/-- How many requests of a kind have been granted. -/
def granted (cmd : UInt8) (log : List Event) : ℕ :=
  log.countP fun
    | .request text a => a = .status 0 ∧ text.head? = some cmd
    | _ => false

/-- How many blocks have been accepted, or pieces of data sent as they are. -/
def acceptances (log : List Event) : ℕ := log.count (.sent true)

/-- The bytes received for good. -/
def receivedBytes (uu : ℕ) (log : List Event) : List UInt8 :=
  if uu = 0 then tookBytes log else ackedBytes log

def bytesDue (count : ℕ) : ℕ := count

def acceptancesDue (uu count : ℕ) : ℕ := if uu = 0 then 1 else nbBlocks count

/-- The transfers granted to a request are for so many bytes each, and `done` is what is due for
them. -/
def Complete (log : List Event) (cmd : UInt8) (due : ℕ → ℕ) (done : ℕ) : Prop :=
  granted cmd log ≠ 0 → ∃ count : UInt32,
    (∀ text a, .request text a ∈ log → text.head? = some cmd →
      ∃ addr : UInt32, text = twoArgsText cmd addr.toNat count.toNat) ∧
    done = granted cmd log * due count.toNat

structure Succeeded (uu : ℕ) (log : List Event) : Prop where
  answers : ∀ e ∈ log, e.Success
  read : Complete log 'R'.toUInt8 bytesDue (receivedBytes uu log).length
  written : Complete log 'W'.toUInt8 (acceptancesDue uu) (acceptances log)

section Log

variable {σ : Type} {h h' : Host σ} {log : List Event}

theorem granted_offLine (cmd : UInt8) (h : Host σ) : granted cmd h.offLine = granted cmd h.log := by
  rw [granted, Host.offLine, List.countP_filter, granted]
  congr 1
  funext e
  rcases e with _ | _ | _ | _ | _ | _ | _ | _ | _ <;> simp [Event.onLine]

theorem Host.mem_offLine {e : Event} (he : e.onLine = false) : e ∈ h.offLine ↔ e ∈ h.log := by
  simp [Host.offLine, he]

theorem success_of_onLine {e : Event} (he : e.onLine = true) : e.Success := by
  rcases e with _ | _ | _ | _ | _ | _ | _ | _ | _ <;> trivial

theorem answers_offLine : (∀ e ∈ h.offLine, e.Success) ↔ ∀ e ∈ h.log, e.Success := by
  constructor
  · intro hoff e he
    rcases hl : e.onLine
    · exact hoff e ((Host.mem_offLine hl).2 he)
    · exact success_of_onLine hl
  · exact fun hlog e he => hlog e (List.mem_filter.1 he).1

theorem complete_offLine {cmd : UInt8} {due : ℕ → ℕ} {done : ℕ} :
    Complete h.offLine cmd due done ↔ Complete h.log cmd due done := by
  simp only [Complete, granted_offLine, Host.mem_offLine (e := .request _ _) rfl]

theorem Polled.acceptances (p : Polled h h') : acceptances h'.log = acceptances h.log := by
  obtain ⟨ts, hts, hlog⟩ := p.log
  have hnone : ts.count (.sent true) = 0 := by
    refine List.count_eq_zero_of_not_mem fun hm => ?_
    cases hts _ hm
  rw [hlog, LpcTools.acceptances, List.count_append, hnone]
  rfl

theorem acceptances_seen (h : Host σ) : acceptances h.seen = acceptances h.log :=
  List.count_filter rfl

end Log

variable {σ : Type} {E : Sys σ} {h h₁ h₂ : Host σ}

section Senders

theorem Asked.offLine {text : List UInt8} {ret : ℤ} (ha : Asked h text ret h₁) :
    ∃ a : Answer, a.ret = ret ∧ (0 ≤ ret → a = .status ret) ∧
      h₁.offLine = h.offLine ++ [.request text a] := by
  obtain ⟨-, a, hret, hstatus, hseen⟩ := ha
  refine ⟨a, hret, fun hle => (hstatus hle).1, ?_⟩
  rw [Host.offLine_seen, hseen, List.filter_append, ← Host.offLine_seen]
  rfl

theorem Asked.acceptances {text : List UInt8} {ret : ℤ} (ha : Asked h text ret h₁) :
    acceptances h₁.log = acceptances h.log := by
  obtain ⟨-, a, -, -, hseen⟩ := ha
  rw [← acceptances_seen, hseen, LpcTools.acceptances, List.count_append, ← acceptances_seen]
  rfl

theorem Asked.tookBytes {text : List UInt8} {ret : ℤ} (ha : Asked h text ret h₁) :
    tookBytes h₁.log = tookBytes h.log := by
  obtain ⟨-, a, -, -, hseen⟩ := ha
  rw [← tookBytes_seen, hseen, tookBytes_append, ← tookBytes_seen]
  exact List.append_nil _

theorem readMore_ends (bufSize minRead : ℕ) (h : Host σ) :
    Ends (readMore E bufSize minRead h) (fun r h' =>
      h'.offLine = h.offLine ++ [.replied (0 < r.1)] ∧ acceptances h'.log = acceptances h.log)
      (fun _ _ => True) := by
  have hp := ispSerialRead_polled (E := E) bufSize minRead h
  unfold readMore
  rcases hread : ispSerialRead E bufSize minRead h with ⟨⟨len, got⟩, h₁⟩ | ⟨f, h₁⟩ <;> rw [hread] at hp
  · refine Ends.bind_ok hread (Ends.bind_ok (emit_apply _ _) (Ends.pure ?_))
    rw [final_ok] at hp
    rw [← hp.offLine, ← hp.acceptances]
    exact ⟨by simp [Host.offLine, Event.onLine], by simp [acceptances]⟩
  · rw [bind_error hread]
    trivial

/-- A read with some room does not break off. -/
theorem readMore_total {bufSize minRead : ℕ} (hmin : minRead ≤ bufSize) (hpos : 0 < bufSize)
    (h : Host σ) : Ends (readMore E bufSize minRead h) (fun r h' =>
      h'.offLine = h.offLine ++ [.replied (0 < r.1)] ∧ acceptances h'.log = acceptances h.log)
      (fun _ _ => False) := by
  have hends := readMore_ends (E := E) bufSize minRead h
  obtain ⟨r, h₁, hread, -⟩ := ispSerialRead_total (E := E) (h := h) hmin hpos
  have hok : readMore E bufSize minRead h = .ok r (h₁.emit (.replied (0 < r.1))) := bind_ok hread
  rw [hok] at hends ⊢
  exact hends

/-- A request, and if it is granted, a reply. -/
theorem readReply_ends (cmd : List UInt8) (quiet : ℤ) (minRead n : ℕ) (value : List ℕ → ℤ)
    (h : Host σ) : Ends (readReply E cmd quiet minRead n value h) (fun ret h' =>
      (∃ h₁, Asked h cmd 0 h₁ ∧ (h'.offLine = h₁.offLine ++ [.replied true] ∨
        h'.offLine = h₁.offLine ++ [.replied false] ∧ ret = -2)) ∨ ret ≠ 0 ∧ Asked h cmd ret h')
      (fun _ _ => True) := by
  unfold readReply
  refine Ends.bind_ok (uninit_apply _ _ _) (Ends.bind ((ispSendCmdNoArgs_ends cmd quiet h).mono
    (fun _ _ hp => hp) (fun _ _ _ => trivial)) ?_)
  intro ret h₁ hasked
  by_cases hret : ret ≠ 0
  · rw [if_pos hret]
    exact .inr ⟨hret, hasked⟩
  · obtain rfl : ret = 0 := not_not.1 hret
    rw [if_neg hret]
    refine Ends.bind (readMore_ends repBufsize minRead h₁) ?_
    rintro ⟨len, got⟩ h₂ ⟨hmore, -⟩
    by_cases hlen : len ≤ 0
    · simp only [if_pos hlen]
      rw [decide_eq_false (Int.not_lt.2 hlen)] at hmore
      exact .inl ⟨h₁, hasked, .inr ⟨hmore, rfl⟩⟩
    · simp only [if_neg hlen]
      rw [decide_eq_true (Int.not_le.1 hlen)] at hmore
      rcases readNumbers n (overlay _ 0 got) with _ | vs
      · trivial
      · exact .inl ⟨h₁, hasked, .inl hmore⟩

theorem ispSendCmdGo_ends (addr : UInt32) (mode : UInt8) (h : Host σ) :
    Ends (ispSendCmdGo E addr mode h) (fun ret h' => ret < 0 ∧ h' = h ∨ ¬ addr < 0x200 ∧
      ∃ code, Asked h (goText addr.toNat mode) code h' ∧ (ret < 0 ∨ code = 0)) (fun _ _ => True) := by
  have hlen := goText_length addr mode
  unfold ispSendCmdGo
  by_cases haddr : addr < 0x200
  · rw [if_pos haddr]
    exact .inl ⟨by decide, rfl⟩
  · rw [if_neg haddr]
    by_cases hmode : mode ≠ 'T'.toUInt8 ∧ mode ≠ 'A'.toUInt8
    · rw [if_pos hmode]
      exact .inl ⟨by decide, rfl⟩
    · rw [if_neg hmode]
      refine Ends.bind ((sendFormatted_ends 0 h (by rw [serialBufsize]; omega) (by decide)
        (by decide) (by decide)).mono (fun _ _ hp => hp) (fun _ _ _ => trivial)) ?_
      rintro (code | ret) h₁ ⟨hasked, hfail⟩
      · refine Ends.pure (.inr ⟨haddr, code, hasked, ?_⟩)
        by_cases hcode : code ≠ 0
        · rw [if_pos hcode]
          exact .inl (by decide)
        · exact .inr (not_not.1 hcode)
      · exact .inr ⟨haddr, ret, hasked, .inl (hfail ret rfl)⟩

end Senders

section Transfers

variable {count : UInt32}

/-- A read of memory makes one request, and what it returns for a refusal is not 0. Data that is not
uuencoded and of which nothing comes is an error. -/
theorem ispReadMemory_asked {data : List Cell} (hdata : count.toNat ≤ data.length) (addr : UInt32)
    (uu : ℕ) (h : Host σ) : Ends (ispReadMemory E data addr count uu h) (fun r h' =>
      ∃ a, h'.offLine = h.offLine ++ [.request (twoArgsText 'R'.toUInt8 addr.toNat count.toNat) a] ∧
        (a = .status 0 ∧ (uu = 0 → tookBytes h'.log = tookBytes h.log → -6 ≤ r.1 ∧ r.1 < 0) ∨
          a ≠ .status 0 ∧ r.2 = data ∧ r.1 ≠ 0 ∧ -2 ^ 31 ≤ r.1 ∧ (0 ≤ r.1 → a = .status r.1)))
      (fun _ _ => True) := by
  unfold ispReadMemory
  refine Ends.bind ((ispSendCmdTwoArgs_ends 'R'.toUInt8 addr count h).mono (fun _ _ hp => hp)
    (fun _ _ _ => trivial)) ?_
  intro ret h₁ hasked
  obtain ⟨a, hret, hstatus, hoff⟩ := hasked.offLine
  by_cases hne : ret ≠ 0
  · rw [if_pos hne]
    refine ⟨a, hoff, .inr ⟨?_, rfl, hne, hasked.1.1, hstatus⟩⟩
    rintro rfl
    exact hne hret.symm
  · obtain rfl : ret = 0 := not_not.1 hne
    obtain rfl := hstatus (Int.le_refl 0)
    obtain ⟨-, a, -, hstatus, hseen⟩ := hasked
    have hnext := (hstatus (Int.le_refl 0)).2
    rw [if_neg hne]
    by_cases huu : uu = 0
    · rw [if_pos huu]
      have hframe := (Host.offLine_frame E).readRaw data count.toNat h₁
      refine ((readRaw_ends hdata count.toNat_lt hnext).and
        (Ends.of_final (R := fun h' : Host σ => h'.offLine = h₁.offLine) hframe)).mono ?_
        (fun _ _ _ => trivial)
      rintro r h₂ ⟨⟨es, -, hseen₂, hr⟩, hoff₂⟩
      refine ⟨.status 0, hoff₂.trans hoff, .inl ⟨rfl, fun _ htook => ?_⟩⟩
      have hnil : tookBytes es = [] := by
        rw [← tookBytes_seen, ← tookBytes_seen, hseen₂, hseen, tookBytes_append, tookBytes_append]
          at htook
        simpa [tookBytes, Event.taken] using htook
      have hsign := hr.sign
      rw [hnil, List.length_nil] at hsign
      omega
    · rw [if_neg huu]
      refine Ends.bind_ok (uninit_apply _ _ _) ?_
      have hframe := (Host.offLine_frame E).receiveLoop count (getNbBlocks count)
        ⟨0, 0, data, (List.range serialBufsize).map (E.stack h₁.env)⟩ h₁
      refine (Ends.of_final (R := fun h' : Host σ => h'.offLine = h₁.offLine) hframe).mono ?_
        (fun _ _ _ => trivial)
      exact fun r h₂ hoff₂ => ⟨.status 0, hoff₂.trans hoff, .inl ⟨rfl, fun h0 => absurd h0 huu⟩⟩

theorem acceptances_sent (h : Host σ) (accepted : Bool) : acceptances (h.emit (.sent accepted)).log =
    acceptances h.log + if accepted then 1 else 0 := by
  cases accepted <;> simp [acceptances, Host.emit]

/-- Between two turns of the sender, `n` blocks had been accepted before. -/
theorem sendTurn_accepts {data : Mem} {blocks : UInt32} {l : SendLocals} {n : ℕ}
    (hl : l.i.toNat ≤ blocks.toNat ∧ acceptances h.log = n + l.i.toNat) :
    Ends (sendTurn E data count blocks l h) (fun r h' => Sum.elim
      (fun l' => l'.i.toNat ≤ blocks.toNat ∧ acceptances h'.log = n + l'.i.toNat)
      (fun ret => ret ≤ 0 ∧ (ret = 0 → acceptances h'.log = n + blocks.toNat)) r)
      (fun _ _ => True) := by
  rcases hr : sendTurn E data count blocks l h with ⟨r, h'⟩ | ⟨f, h'⟩
  · rcases sendTurn_eq_ok.1 hr with ⟨hi, rfl, rfl⟩ | ⟨hi, text, k, h₁, -, hw, hk⟩
    · rw [UInt32.lt_iff_toNat_lt] at hi
      exact ⟨Int.le_refl 0, fun _ => by rw [hl.2]; omega⟩
    · rcases hk with ⟨-, rfl, rfl⟩ | ⟨-, len, got, h₂, hread, ⟨-, rfl, rfl⟩ | ⟨-, hk⟩⟩
      · exact ⟨by decide, fun he => by cases he⟩
      · exact ⟨by decide, fun he => by cases he⟩
      · have hacc₁ := (ispSerialWrite_polled (E := E) text h).acceptances
        have hacc₂ := (ispSerialRead_polled (E := E) repBufsize 4 h₁).acceptances
        rw [hw, final_ok] at hacc₁
        rw [hread, final_ok] at hacc₂
        have hsucc := toNat_succ_of_lt hi
        rw [UInt32.lt_iff_toNat_lt] at hi
        rcases takeReply_eq_ok.1 hk with ⟨-, rfl, rfl⟩ | ⟨-, rfl, rfl⟩
        · refine ⟨by simp only [hsucc]; omega, ?_⟩
          rw [Host.accepted, acceptances_sent]
          simp only [hsucc, if_true]
          rw [hacc₂, hacc₁, hl.2, Nat.add_assoc]
        · have hrefused : acceptances h₂.refused.log = acceptances h.log := by
            rw [Host.refused, acceptances_sent]
            exact hacc₂.trans hacc₁
          split_ifs with hc
          · exact ⟨by decide, fun he => by cases he⟩
          · exact ⟨hl.1, hrefused.trans hl.2⟩
  · trivial

/-- A transfer to the device makes one request, and returns 0 when all of it has been accepted. -/
theorem ispSendBufToRam_ends (data : Mem) (addr : ℕ) (uu : ℕ) (h : Host σ) :
    Ends (ispSendBufToRam E data addr count uu h) (fun ret h' => ∃ a,
      h'.offLine = h.offLine ++
        [.request (twoArgsText 'W'.toUInt8 (UInt32.ofNat addr).toNat count.toNat) a] ∧
      ret ≤ 0 ∧ (ret = 0 → a = .status 0 ∧
        acceptances h'.log = acceptances h.log + acceptancesDue uu count.toNat))
      (fun _ _ => True) := by
  unfold ispSendBufToRam
  refine Ends.bind ((ispSendCmdTwoArgs_ends 'W'.toUInt8 (UInt32.ofNat addr) count h).mono
    (fun _ _ hp => hp) (fun _ _ _ => trivial)) ?_
  intro ret h₁ hasked
  obtain ⟨a, -, hstatus, hoff⟩ := hasked.offLine
  have hacc := hasked.acceptances
  by_cases hne : ret ≠ 0
  · rw [if_pos hne]
    exact ⟨a, hoff, by decide, fun he => by cases he⟩
  · obtain rfl : ret = 0 := not_not.1 hne
    obtain rfl := hstatus (Int.le_refl 0)
    rw [if_neg hne, acceptancesDue]
    by_cases huu : uu = 0
    · rw [if_pos huu]
      rcases (List.range count.toNat).mapM data with _ | bs
      · trivial
      · obtain ⟨n, h₂, hwrite, -⟩ := ispSerialWrite_total (E := E) bs h₁
        have hp := ispSerialWrite_polled (E := E) bs h₁
        rw [hwrite, final_ok] at hp
        refine Ends.bind_ok hwrite (Ends.bind_ok (emit_apply _ _) (Ends.pure ?_))
        refine ⟨.status 0, (Host.offLine_emit rfl).trans (hp.offLine.trans hoff), ?_⟩
        by_cases hn : n ≠ toInt count.toNat
        · rw [if_pos hn]
          exact ⟨by decide, fun he => by cases he⟩
        · rw [if_neg hn, if_pos huu, acceptances_sent, decide_eq_true (not_not.1 hn), hp.acceptances,
            hacc]
          exact ⟨Int.le_refl 0, fun _ => ⟨rfl, rfl⟩⟩
    · rw [if_neg huu, if_neg huu]
      have hframe := (Host.offLine_frame E).sendLoop data count (getNbBlocks count) ⟨0, 0⟩ h₁
      have hloop : Ends ((sendLoop E data count (getNbBlocks count)).run ⟨0, 0⟩ h₁) (fun ret h' =>
          ret ≤ 0 ∧ (ret = 0 → acceptances h'.log = acceptances h₁.log + (getNbBlocks count).toNat))
          (fun _ _ => True) :=
        Loop.ends (I := fun l h => l.i.toNat ≤ (getNbBlocks count).toNat ∧
          acceptances h.log = acceptances h₁.log + l.i.toNat)
          (fun _ _ hI => sendTurn_accepts hI) ⟨Nat.zero_le _, rfl⟩
      refine (hloop.and (Ends.of_final (R := fun h' : Host σ => h'.offLine = h₁.offLine)
        hframe)).mono ?_ (fun _ _ _ => trivial)
      rintro ret h₂ ⟨⟨hle, hzero⟩, hoff₂⟩
      refine ⟨.status 0, hoff₂.trans hoff, hle, fun he => ⟨rfl, ?_⟩⟩
      rw [hzero he, hacc, getNbBlocks_toNat]

end Transfers

end LpcTools
