import LpcTools.Proofs.IspVerdicts

/-!
# The verdicts of `lpcprog`

`get_ids` looks at no answer at all, `dump_to_file` not at what came of the read, and `erase_flash`
takes any positive code of a blank check for "not blank". What `flash_target` returns for a block is
the code the block was refused with.
-/

namespace LpcTools

open Run Decimal Uuencode

/-- The positive codes that a command of `lpcprog` takes for failures or results. -/
def ProgCommand.Heeds : ProgCommand → List UInt8 → ℤ → Prop
  | .blank, text, code => text.head? = some 'U'.toUInt8 ∨ text.head? = some 'I'.toUInt8 ∧ code = 8
  | .flash, text, code => text.head? ∈ [some 'U'.toUInt8, some 'W'.toUInt8, some 'E'.toUInt8,
      some 'P'.toUInt8] ∨ text.head? = some 'I'.toUInt8 ∧ code = 8
  | .go, text, code => text.head? ≠ some 'R'.toUInt8 ∨ code = 4
  | _, _, _ => False

/-- Something comes wherever a reply is waited for. -/
def AllReplied (log : List Event) : Prop := ∀ answered, .replied answered ∈ log → answered = true

/-- A sector is prepared for a block, which is behind another request and not behind the result of a
blank check, without a positive code. -/
def BlocksPrepared (log : List Event) : Prop :=
  ∀ pre text a text' code post, (log.filter fun e => !e.onLine) =
    pre ++ .request text a :: .request text' (.status code) :: post →
    text'.head? = some 'P'.toUInt8 → code ≤ 0

/-- What the device has to do for the value of a command to be right. -/
def ProgCommand.Heeded (uu : ℕ) (log : List Event) : ProgCommand → Prop
  | .dump => (∀ text a, .request text a ∈ log → a = .status 0) ∧
    Complete log 'R'.toUInt8 bytesDue (receivedBytes uu log).length
  | .flash => Heeding ProgCommand.flash.Heeds log ∧ AllReplied log ∧ BlocksPrepared log
  | .id => (∀ text a, .request text a ∈ log → a = .status 0) ∧ AllReplied log
  | .blank => Heeding ProgCommand.blank.Heeds log ∧ AllReplied log
  | .go => Heeding ProgCommand.go.Heeds log ∧
    (Complete log 'R'.toUInt8 bytesDue (receivedBytes uu log).length ∨ uu = 0 ∧ tookBytes log = [])

variable {σ : Type} {E : Sys σ} {h h₁ h₂ : Host σ}

section Erase

/-- The answers to the blank checks, and what follows them, are what `erase_flash` takes them for. -/
def BlankChecked (es : List Event) : Prop :=
  AllReplied es ∧ ∀ text code, .request text (.status code) ∈ es →
    text.head? = some 'I'.toUInt8 → code ≤ 0 ∨ code = 8

/-- A value of `erase_flash`: it is right, or a positive code that a sector could not be prepared or
erased with. -/
def EraseVerdict (ret : ℤ) (es : List Event) : Prop :=
  Plain es ∧ (0 ≤ ret → BlankChecked es → (∀ e ∈ es, e.Success) ∨ 0 < ret ∧ ∃ text,
    (text.head? = some 'P'.toUInt8 ∨ text.head? = some 'E'.toUInt8) ∧
    .request text (.status ret) ∈ es)

/-- The last entry is a request. -/
def EndsAsked (log : List Event) : Prop := ∃ pre text a, log = pre ++ [.request text a]

theorem EndsAsked.append {a b : List Event} (hb : EndsAsked b) : EndsAsked (a ++ b) := by
  obtain ⟨pre, text, answer, rfl⟩ := hb
  exact ⟨a ++ pre, text, answer, (List.append_assoc _ _ _).symm⟩

theorem endsAsked_cons {text : List UInt8} {a : Answer} {es : List Event}
    (hes : es = [] ∨ EndsAsked es) : EndsAsked (.request text a :: es) := by
  rcases hes with rfl | hes
  · exact ⟨[], text, a, rfl⟩
  · exact hes.append (a := [.request text a])

theorem Plain.append {a b : List Event} (ha : Plain a) (hb : Plain b) : Plain (a ++ b) :=
  fun _ _ hm => (List.mem_append.1 hm).elim (ha _ _) (hb _ _)

theorem plain_request {cmd : UInt8} {text : List UInt8} {a : Answer}
    (hcmd : cmd ≠ 'R'.toUInt8 ∧ cmd ≠ 'W'.toUInt8) : Plain [.request (cmd :: text) a] := by
  intro text' a' hm
  cases List.mem_singleton.1 hm
  exact head_ne hcmd

theorem BlankChecked.left {a b : List Event} (hab : BlankChecked (a ++ b)) : BlankChecked a :=
  ⟨fun _ hm => hab.1 _ (List.mem_append_left _ hm),
    fun _ _ hm => hab.2 _ _ (List.mem_append_left _ hm)⟩

theorem BlankChecked.right {a b : List Event} (hab : BlankChecked (a ++ b)) : BlankChecked b :=
  ⟨fun _ hm => hab.1 _ (List.mem_append_right _ hm),
    fun _ _ hm => hab.2 _ _ (List.mem_append_right _ hm)⟩

/-- What has gone right so far leaves the verdict to what comes. -/
theorem EraseVerdict.append {ret : ℤ} {a b : List Event} (hb : EraseVerdict ret b) (ha : Plain a)
    (hok : BlankChecked a → ∀ e ∈ a, e.Success) : EraseVerdict ret (a ++ b) := by
  refine ⟨ha.append hb.1, fun hle hcheck => ?_⟩
  rcases hb.2 hle hcheck.right with hall | ⟨hpos, text, hhead, hm⟩
  · exact .inl fun e he => (List.mem_append.1 he).elim (hok hcheck.left e) (hall e)
  · exact .inr ⟨hpos, text, hhead, List.mem_append_right _ hm⟩

/-- A request that ends the erasure. -/
theorem EraseVerdict.last {cmd : UInt8} {text : List UInt8} {a : Answer} {ret : ℤ}
    (hcmd : cmd ≠ 'R'.toUInt8 ∧ cmd ≠ 'W'.toUInt8) (hstatus : 0 ≤ ret → a = .status ret)
    (hret : 0 ≤ ret → 0 < ret ∧ (cmd = 'P'.toUInt8 ∨ cmd = 'E'.toUInt8)) :
    EraseVerdict ret [.request (cmd :: text) a] := by
  refine ⟨plain_request hcmd, fun hle _ => .inr ⟨(hret hle).1, cmd :: text, ?_, ?_⟩⟩
  · exact (hret hle).2.imp (congrArg some) (congrArg some)
  · rw [hstatus hle]
    exact List.mem_singleton.2 rfl

/-- The request to do something with one sector. -/
def sectorText (cmd : UInt8) (i : ℕ) : List UInt8 :=
  twoArgsText cmd (toUnsigned i).toNat (toUnsigned i).toNat

/-- What a run over the `n` sectors from `i` on logs, and the value it ends with. -/
inductive Sweep : ℕ → ℕ → ℤ → List Event → Prop
  | done (i : ℕ) : Sweep i 0 0 []
  | blank {i n : ℕ} {ret : ℤ} {es : List Event} (hrest : Sweep (i + 1) n ret es) :
      Sweep i (n + 1) ret (.request (sectorText 'I'.toUInt8 i) (.status 0) :: es)
  | failed {i n : ℕ} {ret : ℤ} {a : Answer} (ha : a.ret = ret) (hret : ret < 0) :
      Sweep i (n + 1) ret [.request (sectorText 'I'.toUInt8 i) a]
  | unprepared {i n : ℕ} {ret s : ℤ} {a : Answer} (answered : Bool) (hs : 0 < s) (ha : a.ret = ret)
      (hret : ret ≠ 0) (hstatus : 0 ≤ ret → a = .status ret) :
      Sweep i (n + 1) ret [.request (sectorText 'I'.toUInt8 i) (.status s), .replied answered,
        .request (sectorText 'P'.toUInt8 i) a]
  | unerased {i n : ℕ} {ret s : ℤ} {a : Answer} (answered : Bool) (hs : 0 < s) (ha : a.ret = ret)
      (hret : ret ≠ 0) (hstatus : 0 ≤ ret → a = .status ret) :
      Sweep i (n + 1) ret [.request (sectorText 'I'.toUInt8 i) (.status s), .replied answered,
        .request (sectorText 'P'.toUInt8 i) (.status 0), .request (sectorText 'E'.toUInt8 i) a]
  | erased {i n : ℕ} {ret s : ℤ} {es : List Event} (answered : Bool) (hs : 0 < s)
      (hrest : Sweep (i + 1) n ret es) :
      Sweep i (n + 1) ret (.request (sectorText 'I'.toUInt8 i) (.status s) :: .replied answered ::
        .request (sectorText 'P'.toUInt8 i) (.status 0) ::
        .request (sectorText 'E'.toUInt8 i) (.status 0) :: es)

/-- A run never breaks off, and its log is one of these. -/
theorem eraseSectors_sweep : ∀ (n i : ℕ) (h : Host σ), Ends (eraseSectors E n i h)
    (fun ret h' => acceptances h'.log = acceptances h.log ∧
      ∃ es, h'.offLine = h.offLine ++ es ∧ Sweep i n ret es) (fun _ _ => False)
  | 0, i, h => ⟨rfl, [], (List.append_nil _).symm, .done i⟩
  | n + 1, i, h => by
    have ask : ∀ (cmd : UInt8) (h : Host σ), Ends (ispSendCmdSectors E cmd i i 1 h)
        (fun ret h' => Asked h (sectorText cmd i) ret h') (fun _ _ => False) := fun cmd h =>
      ispSendCmdSectors_quiet cmd h (Int.le_refl i)
    unfold eraseSectors
    refine Ends.bind (ask 'I'.toUInt8 h) ?_
    intro ret h₁ hasked
    obtain ⟨a₁, ha₁, hstatus₁, hoff₁⟩ := hasked.offLine
    by_cases h0 : ret = 0
    · -- already blank: on to the next sector
      rw [if_pos h0]
      refine (eraseSectors_sweep n (i + 1) h₁).mono ?_ (fun _ _ hf => hf)
      rintro ret' h' ⟨hacc, es, hoff, hsweep⟩
      obtain rfl := hstatus₁ (Int.le_of_eq h0.symm)
      rw [hoff₁, List.append_assoc, h0] at hoff
      exact ⟨hacc.trans hasked.acceptances, _, hoff, .blank hsweep⟩
    · rw [if_neg h0]
      by_cases hneg : ret < 0
      · rw [if_pos hneg]
        exact ⟨hasked.acceptances, _, hoff₁, .failed ha₁ hneg⟩
      · -- the answer is taken for "not blank", whatever positive code it is
        rw [if_neg hneg]
        have hpos : 0 < ret := by omega
        obtain rfl := hstatus₁ hpos.le
        refine Ends.bind (readMore_total (show 3 ≤ progRepBufsize by decide) (by decide) h₁) ?_
        rintro ⟨len, got⟩ h₂ ⟨hmore, hacc₂⟩
        rw [hoff₁, List.append_assoc] at hmore
        refine Ends.bind (ask 'P'.toUInt8 h₂) ?_
        intro ret₂ h₃ hasked₂
        obtain ⟨a₂, ha₂, hstatus₂, hoff₂⟩ := hasked₂.offLine
        have hacc₃ := hasked₂.acceptances.trans (hacc₂.trans hasked.acceptances)
        rw [hmore, List.append_assoc] at hoff₂
        by_cases hP : ret₂ ≠ 0
        · rw [if_pos hP]
          exact ⟨hacc₃, _, hoff₂, .unprepared _ hpos ha₂ hP hstatus₂⟩
        · obtain rfl : ret₂ = 0 := not_not.1 hP
          obtain rfl := hstatus₂ (Int.le_refl 0)
          rw [if_neg hP]
          refine Ends.bind (ask 'E'.toUInt8 h₃) ?_
          intro ret₃ h₄ hasked₃
          obtain ⟨a₃, ha₃, hstatus₃, hoff₃⟩ := hasked₃.offLine
          have hacc₄ := hasked₃.acceptances.trans hacc₃
          rw [hoff₂, List.append_assoc] at hoff₃
          by_cases hE : ret₃ ≠ 0
          · rw [if_pos hE]
            exact ⟨hacc₄, _, hoff₃, .unerased _ hpos ha₃ hE hstatus₃⟩
          · obtain rfl : ret₃ = 0 := not_not.1 hE
            obtain rfl := hstatus₃ (Int.le_refl 0)
            rw [if_neg hE]
            refine (eraseSectors_sweep n (i + 1) h₄).mono ?_ (fun _ _ hf => hf)
            rintro ret' h' ⟨hacc, es, hoff, hsweep⟩
            rw [hoff₃, List.append_assoc] at hoff
            exact ⟨hacc.trans hacc₄, _, hoff, .erased _ hpos hsweep⟩

theorem success_of_granted {text : List UInt8} : ∀ e ∈ [Event.request text (.status 0)], e.Success := by
  intro e he
  rw [List.mem_singleton.1 he]
  exact .inl rfl

/-- A sector found not blank, with the answers taken for what they are. -/
theorem checked_success {text : List UInt8} {s : ℤ} {answered : Bool} (hs : 0 < s)
    (hcheck : BlankChecked [.request ('I'.toUInt8 :: text) (.status s), .replied answered]) :
    ∀ e ∈ [Event.request ('I'.toUInt8 :: text) (.status s), .replied answered], e.Success := by
  obtain ⟨hreplied, hcodes⟩ := hcheck
  intro e he
  rcases List.mem_cons.1 he with rfl | he
  · rcases hcodes _ s List.mem_cons_self rfl with hcode | rfl
    · omega
    · exact .inr (.inl ⟨rfl, rfl⟩)
  · obtain rfl := List.mem_singleton.1 he
    exact hreplied _ (List.mem_cons_of_mem _ (List.mem_singleton.2 rfl))

theorem plain_checked {text : List UInt8} {a : Answer} {answered : Bool} :
    Plain [.request ('I'.toUInt8 :: text) a, .replied answered] :=
  (plain_request (by decide)).append fun _ _ hm => by cases List.mem_singleton.1 hm

theorem Sweep.endsAsked {i n : ℕ} {ret : ℤ} {es : List Event} (hs : Sweep i n ret es) :
    es = [] ∨ EndsAsked es := by
  induction hs with
  | done => exact .inl rfl
  | blank _ ih => exact .inr (endsAsked_cons ih)
  | failed => exact .inr ⟨[], _, _, rfl⟩
  | unprepared answered => exact .inr ⟨[_, .replied answered], _, _, rfl⟩
  | unerased answered => exact .inr ⟨[_, .replied answered, _], _, _, rfl⟩
  | @erased i n ret s es answered _ _ ih =>
    right
    exact (endsAsked_cons ih).append (a := [.request (sectorText 'I'.toUInt8 i) (.status s),
      .replied answered, .request (sectorText 'P'.toUInt8 i) (.status 0)])

theorem Sweep.verdict {i n : ℕ} {ret : ℤ} {es : List Event} (hs : Sweep i n ret es) :
    EraseVerdict ret es := by
  induction hs with
  | done => exact ⟨fun _ _ hm => (by cases hm), fun _ _ => .inl fun e he => (by cases he)⟩
  | blank _ ih => exact ih.append (plain_request (by decide)) fun _ => success_of_granted
  | failed ha hret =>
    exact .last (by decide) (fun hle => absurd hret (Int.not_lt.2 hle))
      fun hle => absurd hret (Int.not_lt.2 hle)
  | unprepared answered hs ha hret hstatus =>
    exact (EraseVerdict.last (by decide) hstatus fun hle => ⟨by omega, .inl rfl⟩).append plain_checked
      (checked_success hs)
  | unerased answered hs ha hret hstatus =>
    exact ((EraseVerdict.last (by decide) hstatus fun hle => ⟨by omega, .inr rfl⟩).append
      (plain_request (by decide)) fun _ => success_of_granted).append plain_checked
        (checked_success hs)
  | erased answered hs _ ih =>
    exact ((ih.append (plain_request (by decide)) fun _ => success_of_granted).append
      (plain_request (by decide)) fun _ => success_of_granted).append plain_checked
        (checked_success hs)

/-- What `erase_flash` logs. -/
inductive FlashSweep (n : ℕ) : ℤ → List Event → Prop
  | locked {a : Answer} (ha : a ≠ .status 0) : FlashSweep n (-1) [.request unlock a]
  | swept {ret : ℤ} {es : List Event} (hs : Sweep 0 n ret es) :
      FlashSweep n ret (.request unlock (.status 0) :: es)

theorem eraseFlash_sweep (part : PartDesc) (h : Host σ) : Ends (eraseFlash E part h)
    (fun ret h' => acceptances h'.log = acceptances h.log ∧ ∃ es, h'.offLine = h.offLine ++ es ∧
      FlashSweep (toInt part.flashNbSectors.toNat).toNat ret es) (BrokenOff h) := by
  unfold eraseFlash
  refine Ends.bind (ispCmdUnlock_ends 1 h) ?_
  rintro ret h₁ ⟨code, hasked, rfl⟩
  obtain ⟨a, ha, hstatus, hoff⟩ := hasked.offLine
  by_cases hcode : code ≠ 0
  · rw [if_pos hcode, if_pos (by decide)]
    refine ⟨hasked.acceptances, _, hoff, .locked ?_⟩
    rintro rfl
    exact hcode ha.symm
  · obtain rfl : code = 0 := not_not.1 hcode
    obtain rfl := hstatus (Int.le_refl 0)
    rw [if_neg hcode, if_neg (by decide)]
    refine (eraseSectors_sweep _ 0 h₁).mono ?_ (fun _ _ hf => hf.elim)
    rintro ret h' ⟨hacc, es, hoff', hsweep⟩
    rw [hoff, List.append_assoc] at hoff'
    exact ⟨hacc.trans hasked.acceptances, _, hoff', .swept hsweep⟩

theorem eraseFlash_ends (part : PartDesc) (h : Host σ) : Ends (eraseFlash E part h)
    (fun ret h' => acceptances h'.log = acceptances h.log ∧
      ∃ es, h'.offLine = h.offLine ++ es ∧ EndsAsked es ∧ EraseVerdict ret es)
    (fun _ _ => True) := by
  refine (eraseFlash_sweep part h).mono ?_ (fun _ _ _ => trivial)
  rintro ret h' ⟨hacc, es, hoff, hsweep⟩
  refine ⟨hacc, es, hoff, ?_⟩
  rcases hsweep with ⟨ha⟩ | ⟨hs⟩
  · refine ⟨endsAsked_cons (.inl rfl), plain_request (by decide), fun hle => ?_⟩
    exact absurd hle (by decide)
  · exact ⟨endsAsked_cons hs.endsAsked,
      hs.verdict.append (plain_request (by decide)) fun _ => success_of_granted⟩

theorem blankChecked_of_heeded {es : List Event}
    (hreplied : AllReplied h.log) (hoff : h.offLine = es)
    (hheed : ∀ text code, .request text (.status code) ∈ h.log →
      text.head? = some 'I'.toUInt8 → code ≤ 0 ∨ code = 8) : BlankChecked es := by
  subst hoff
  exact ⟨fun _ hm => hreplied _ ((Host.mem_offLine rfl).1 hm),
    fun _ _ hm => hheed _ _ ((Host.mem_offLine rfl).1 hm)⟩

theorem eraseFlash_succeeded (part : PartDesc) (uu : ℕ) (hstart : h.log = []) :
    Ends (eraseFlash E part h) (fun ret h' => 0 ≤ ret → ProgCommand.blank.Heeded uu h'.log →
      Succeeded uu h'.log) (fun _ _ => True) := by
  refine (eraseFlash_ends part h).mono ?_ (fun _ _ _ => trivial)
  rintro ret h' ⟨-, es, hoff, -, hplain, hverdict⟩ hle ⟨hheed, hreplied⟩
  rw [offLine_of_start hstart, List.nil_append] at hoff
  have hcheck : BlankChecked es := by
    refine blankChecked_of_heeded hreplied hoff fun text code hm hhead => ?_
    rcases hheed text code hm with hcode | hU | ⟨-, h8⟩
    · exact .inl hcode
    · rw [hhead] at hU
      exact absurd hU (by decide)
    · exact .inr h8
  have hok : ∀ e ∈ es, e.Success := by
    rcases hverdict hle hcheck with hok | ⟨hpos, text, hhead, hm⟩
    · exact hok
    · rw [← hoff, Host.mem_offLine rfl] at hm
      rcases hheed text ret hm with hcode | hU | ⟨hI, -⟩
      · omega
      · rcases hhead with hhead | hhead <;> rw [hhead] at hU <;> exact absurd hU (by decide)
      · rcases hhead with hhead | hhead <;> rw [hhead] at hI <;> exact absurd hI (by decide)
  have hsound : Sound (fun _ => True) h ret h' :=
    ⟨es, by rw [offLine_of_start hstart, hoff, List.nil_append], hplain, fun _ _ => hok⟩
  exact hsound.succeeded hstart hle fun _ _ _ => .inr trivial

end Erase

section Flash

/-- Between two requests of a flash, all has gone right so far. -/
structure Flashing (uu : ℕ) (writeSize : UInt32) (h : Host σ) : Prop where
  answers : ∀ e ∈ h.offLine, e.Success
  read : granted 'R'.toUInt8 h.offLine = 0
  writes : ∀ text a, .request text a ∈ h.offLine → text.head? = some 'W'.toUInt8 →
    ∃ addr : UInt32, text = twoArgsText 'W'.toUInt8 addr.toNat writeSize.toNat
  accepted : acceptances h.log = granted 'W'.toUInt8 h.offLine * acceptancesDue uu writeSize.toNat
  last : EndsAsked h.offLine

variable {uu : ℕ} {writeSize : UInt32}

theorem Flashing.succeeded (F : Flashing uu writeSize h) : Succeeded uu h.log where
  answers := answers_offLine.1 F.answers
  read := complete_offLine.1 fun hne => absurd F.read hne
  written := complete_offLine.1 fun _ => ⟨writeSize, F.writes, F.accepted⟩

theorem granted_append (cmd : UInt8) (a b : List Event) :
    granted cmd (a ++ b) = granted cmd a + granted cmd b := List.countP_append

/-- One more granted request, with the acceptances it is due. -/
theorem Flashing.requested (F : Flashing uu writeSize h) {text : List UInt8}
    (hoff : h₁.offLine = h.offLine ++ [.request text (.status 0)])
    (hread : granted 'R'.toUInt8 [.request text (.status 0)] = 0)
    (hwrite : text.head? = some 'W'.toUInt8 →
      ∃ addr : UInt32, text = twoArgsText 'W'.toUInt8 addr.toNat writeSize.toNat)
    (hacc : acceptances h₁.log = acceptances h.log +
      granted 'W'.toUInt8 [.request text (.status 0)] * acceptancesDue uu writeSize.toNat) :
    Flashing uu writeSize h₁ := by
  refine ⟨fun e he => ?_, ?_, fun text' a' hm hhead => ?_, ?_, ?_⟩
  · rw [hoff] at he
    rcases List.mem_append.1 he with he | he
    · exact F.answers e he
    · rw [List.mem_singleton.1 he]
      exact .inl rfl
  · rw [hoff, granted_append, F.read, hread]
  · rw [hoff] at hm
    rcases List.mem_append.1 hm with hm | hm
    · exact F.writes text' a' hm hhead
    · cases List.mem_singleton.1 hm
      exact hwrite hhead
  · rw [hacc, hoff, granted_append, F.accepted, Nat.add_mul]
  · rw [hoff]
    exact (endsAsked_cons (.inl rfl)).append

/-- A granted request without a transfer. -/
theorem Flashing.asked (F : Flashing uu writeSize h) {cmd : UInt8} {text : List UInt8}
    (hcmd : cmd ≠ 'R'.toUInt8 ∧ cmd ≠ 'W'.toUInt8) (ha : Asked h (cmd :: text) 0 h₁) :
    Flashing uu writeSize h₁ := by
  obtain ⟨a, -, hstatus, hoff⟩ := ha.offLine
  obtain rfl := hstatus (Int.le_refl 0)
  have hplain : Plain [.request (cmd :: text) (.status 0)] := plain_request hcmd
  obtain ⟨hR, hW⟩ := granted_of_plain hplain
  refine F.requested hoff hR (fun hhead => absurd hhead (head_ne hcmd).2) ?_
  rw [ha.acceptances, hW, Nat.zero_mul, Nat.add_zero]

/-- A block sent and accepted. -/
theorem Flashing.sent (F : Flashing uu writeSize h) {addr : UInt32}
    (hoff : h₁.offLine = h.offLine ++
      [.request (twoArgsText 'W'.toUInt8 addr.toNat writeSize.toNat) (.status 0)])
    (hacc : acceptances h₁.log = acceptances h.log + acceptancesDue uu writeSize.toNat) :
    Flashing uu writeSize h₁ := by
  refine F.requested hoff rfl (fun _ => ⟨addr, rfl⟩) (hacc.trans ?_)
  congr 1
  exact (Nat.one_mul _).symm

/-- What a part of a flash does: it adds to the log, and if the device is heeded in it and its value is
no error, all has gone right at its end. -/
def FlashStep (uu : ℕ) (writeSize : UInt32) (h : Host σ) (ret : ℤ) (h' : Host σ) : Prop :=
  h.offLine <+: h'.offLine ∧ (Flashing uu writeSize h → 0 ≤ ret →
    ProgCommand.flash.Heeded uu h'.log → Flashing uu writeSize h')

theorem FlashStep.refuse {ret : ℤ} (hret : ret < 0) (hpre : h.offLine <+: h₁.offLine) :
    FlashStep uu writeSize h ret h₁ := ⟨hpre, fun _ hle => absurd hret (Int.not_lt.2 hle)⟩

/-- What goes on from a later point has gone on from here. -/
theorem FlashStep.trans_ends {r : EStateM.Result Fault (Host σ) ℤ}
    (hpre : h.offLine <+: h₁.offLine)
    (hstep : Flashing uu writeSize h → Flashing uu writeSize h₁)
    (hr : Ends r (FlashStep uu writeSize h₁) (fun _ _ => True)) :
    Ends r (FlashStep uu writeSize h) (fun _ _ => True) :=
  hr.mono (fun _ _ h12 => ⟨hpre.trans h12.1, fun F => h12.2 (hstep F)⟩) (fun _ _ _ => trivial)

theorem flashBlocks_ends (part : PartDesc) (data : List UInt8) (sectorSize ramAddr : UInt32) :
    ∀ (n i : ℕ) (h : Host σ),
      Ends (flashBlocks E part data writeSize sectorSize ramAddr n i h)
        (FlashStep part.uuencode.toNat writeSize h) (fun _ _ => True)
  | 0, _, h => ⟨List.prefix_rfl, fun F _ _ => F⟩
  | n + 1, i, h => by
    unfold flashBlocks
    simp only []
    refine Ends.ite (fun _ => trivial) fun _ => ?_
    set sector := toInt (UInt32.ofNat i * writeSize / sectorSize).toNat
    refine Ends.bind ((ispSendCmdSectors_ends 'P'.toUInt8 1 h (Int.le_refl sector)).mono
      (fun _ _ hp => hp) (fun _ _ _ => trivial)) ?_
    intro ret₁ h₁ hasked₁
    obtain ⟨a₁, -, hstatus₁, hoff₁⟩ := hasked₁.offLine
    have hpre₁ : h.offLine <+: h₁.offLine := by
      rw [hoff₁]
      exact List.prefix_append _ _
    by_cases h0 : ret₁ ≠ 0
    · -- the code of a sector that cannot be prepared is returned as it is
      rw [if_pos h0]
      refine ⟨hpre₁, fun F hle hheed => ?_⟩
      obtain ⟨pre, text, a, hlast⟩ := F.last
      rw [hlast, hstatus₁ hle, List.append_assoc] at hoff₁
      have := hheed.2.2 pre text a _ ret₁ [] hoff₁ rfl
      omega
    · obtain rfl : ret₁ = 0 := not_not.1 h0
      rw [if_neg h0]
      refine Ends.bind_ok (get_apply _) (Ends.bind (ispSendBufToRam_ends _ _ _ h₁) ?_)
      rintro ret₂ h₂ ⟨a₂, hoff₂, hle₂, hall⟩
      have hpre₂ : h₁.offLine <+: h₂.offLine := by
        rw [hoff₂]
        exact List.prefix_append _ _
      by_cases h0 : ret₂ ≠ 0
      · rw [if_pos h0]
        exact .refuse (by omega) (hpre₁.trans hpre₂)
      · obtain rfl : ret₂ = 0 := not_not.1 h0
        obtain ⟨rfl, hacc⟩ := hall rfl
        rw [if_neg h0]
        refine Ends.bind ((ispSendCmdAddress_ends 'C'.toUInt8 _ _ _ h₂).mono
          (fun _ _ hp => hp) (fun _ _ _ => trivial)) ?_
        intro ret₃ h₃ hasked₃
        obtain ⟨a₃, -, hstatus₃, hoff₃⟩ := hasked₃.offLine
        have hpre₃ : h₂.offLine <+: h₃.offLine := by
          rw [hoff₃]
          exact List.prefix_append _ _
        have hstep : Flashing part.uuencode.toNat writeSize h →
            Flashing part.uuencode.toNat writeSize h₂ := fun F =>
          (F.asked (by decide) hasked₁).sent hoff₂ hacc
        refine FlashStep.trans_ends (hpre₁.trans hpre₂) hstep ?_
        by_cases h0 : ret₃ ≠ 0
        · rw [if_pos h0]
          refine ⟨hpre₃, fun _ hle hheed => ?_⟩
          have hm : .request _ a₃ ∈ h₃.log := (Host.mem_offLine rfl).1 (by
            rw [hoff₃]
            exact List.mem_append_right _ (List.mem_singleton.2 rfl))
          rw [hstatus₃ hle] at hm
          rcases hheed.1 _ ret₃ hm with hcode | hcode | ⟨hcode, -⟩
          · omega
          · exact absurd hcode (by simp [addressText]; decide)
          · exact absurd hcode (by simp [addressText]; decide)
        · obtain rfl : ret₃ = 0 := not_not.1 h0
          rw [if_neg h0]
          refine FlashStep.trans_ends hpre₃ (fun F => F.asked (by decide) hasked₃) ?_
          exact flashBlocks_ends part data sectorSize ramAddr n (i + 1) h₃

theorem patchUserCode_final (data : List UInt8) (calcUserCode : ℤ) (h : Host σ) :
    Ends (patchUserCode data calcUserCode h) (fun _ h' => h' = h) (fun _ _ => True) := by
  rcases patchUserCode_cases data calcUserCode with ⟨r, hr⟩ | hr
  · rw [hr]
    exact rfl
  · rw [hr]
    trivial

theorem flashImage_ends (part : PartDesc) (image : List UInt8)
    (writeSize sectorSize ramAddr : UInt32) (calcUserCode : ℤ) (h : Host σ) :
    Ends (flashImage E part image writeSize sectorSize ramAddr calcUserCode h)
      (FlashStep part.uuencode.toNat writeSize h) (fun _ _ => True) := by
  unfold flashImage
  simp only []
  refine Ends.bind (patchUserCode_final _ _ h) ?_
  rintro (_ | data) h' rfl
  · exact .refuse (by decide) List.prefix_rfl
  · simp only []
    rcases word data (crpOffset / 4) with _ | crp
    · trivial
    · simp only []
      generalize UInt32.ofNat image.length / writeSize +
        (if UInt32.ofNat image.length % writeSize ≠ 0 then 1 else 0) = blocks
      split_ifs
      · exact .refuse (by decide) List.prefix_rfl
      · trivial
      · exact .refuse (by decide) List.prefix_rfl
      · exact flashBlocks_ends part data sectorSize ramAddr _ 0 h'

theorem flashTarget_succeeded (part : PartDesc) (filename : List UInt8) (calcUserCode : ℤ)
    (hstart : h.log = []) : Ends (flashTarget E part filename calcUserCode h) (fun ret h' =>
      0 ≤ ret → ProgCommand.flash.Heeded part.uuencode.toNat h'.log →
      Succeeded part.uuencode.toNat h'.log) (fun _ _ => True) := by
  have hneg : ∀ {ret : ℤ} {h' : Host σ}, ret < 0 → 0 ≤ ret →
      ProgCommand.flash.Heeded part.uuencode.toNat h'.log → Succeeded part.uuencode.toNat h'.log :=
    fun hret hle => absurd hret (Int.not_lt.2 hle)
  unfold flashTarget
  by_cases hsectors : part.flashNbSectors = 0
  · rw [if_pos hsectors]
    trivial
  · rw [if_neg hsectors]
    simp only []
    by_cases hram : part.ramBase + part.ramSize < part.ramBase + part.ramBuffOffset
    · rw [if_pos hram]
      exact hneg (by decide)
    · rw [if_neg hram]
      set writeSize := calcWriteSize (part.flashSize / part.flashNbSectors) part.ramBuffSize
      by_cases hsize : writeSize = 0
      · rw [if_pos hsize]
        exact hneg (by decide)
      · rw [if_neg hsize]
        refine Ends.bind (eraseFlash_ends part h) ?_
        rintro ret h₁ ⟨hacc, es, hoff, hends, hplain, hverdict⟩
        rw [offLine_of_start hstart, List.nil_append] at hoff
        by_cases h0 : ret ≠ 0
        · rw [if_pos h0]
          exact hneg (by decide)
        · obtain rfl : ret = 0 := not_not.1 h0
          rw [if_neg h0]
          refine Ends.bind_ok (get_apply _) ?_
          by_cases hmalloc : (!E.malloc h₁.env part.flashSize.toNat) = true
          · rw [if_pos hmalloc]
            exact hneg (by decide)
          · rw [if_neg hmalloc]
            obtain ⟨⟨size, image⟩, hfile⟩ :=
              ispFileToBuff_eq (E := E) part.flashSize.toNat filename h₁
            refine Ends.bind_ok hfile ?_
            by_cases hempty : size ≤ 0
            · simp only [if_pos hempty]
              exact hneg (by decide)
            · simp only [if_neg hempty]
              refine (flashImage_ends part image writeSize _ _ calcUserCode h₁).mono ?_
                (fun _ _ _ => trivial)
              rintro ret h₂ ⟨hpre, hstep⟩ hle hheed
              refine (hstep ?_ hle hheed).succeeded
              -- the erasure is part of the run
              have hsub : ∀ e ∈ es, e ∈ h₂.log := fun e he =>
                (List.mem_filter.1 (hpre.subset (hoff ▸ he))).1
              have hcheck : BlankChecked es := by
                refine ⟨fun _ hm => hheed.2.1 _ (hsub _ hm), fun text code hm hhead => ?_⟩
                rcases hheed.1 text code (hsub _ hm) with hcode | hcode | ⟨-, h8⟩
                · exact .inl hcode
                · rw [hhead] at hcode
                  exact absurd hcode (by decide)
                · exact .inr h8
              obtain ⟨hR, hW⟩ := granted_of_plain hplain
              have hok : ∀ e ∈ es, e.Success := by
                rcases hverdict (Int.le_refl 0) hcheck with hok | ⟨hpos, -⟩
                · exact hok
                · omega
              rw [hstart] at hacc
              have hnone : ∀ text a, .request text a ∈ es → text.head? ≠ some 'W'.toUInt8 :=
                fun text a hm => (hplain text a hm).2
              rw [← hoff] at hok hR hW hnone hends
              refine ⟨hok, hR, fun text a hm hhead => absurd hhead (hnone text a hm), ?_, hends⟩
              rw [hacc, hW, Nat.zero_mul]
              rfl

end Flash

section Others

theorem dumpToFile_succeeded (part : PartDesc) (filename : List UInt8) (hstart : h.log = []) :
    Ends (dumpToFile E part filename h) (fun ret h' => 0 ≤ ret →
      ProgCommand.dump.Heeded part.uuencode.toNat h'.log →
      Succeeded part.uuencode.toNat h'.log) (fun _ _ => True) := by
  unfold dumpToFile
  refine Ends.bind_ok (get_apply _) ?_
  by_cases hmalloc : (!E.malloc h.env part.flashSize.toNat) = true
  · rw [if_pos hmalloc]
    exact fun hle => absurd hle (by decide)
  · rw [if_neg hmalloc]
    refine Ends.bind (ispReadMemory_asked (by simp) part.flashBase _ h) ?_
    rintro ⟨len, data⟩ h₁ ⟨a, hoff, -⟩
    refine (ispBuffToFile_asked data part.flashSize filename h₁).mono ?_ (fun _ _ _ => trivial)
    rintro ret h₂ ⟨hfile, -⟩ - ⟨hgrant, hall⟩
    rw [offLine_of_start hstart, List.nil_append] at hoff
    obtain ⟨es, hes, hplain, hok⟩ := offLine_of_file hfile
    rw [hoff] at hes
    obtain rfl := hgrant _ a ((Host.mem_offLine rfl).1 (by
      rw [hes]
      exact List.mem_cons_self))
    exact .of_read hes hplain hok hall

theorem getIds_succeeded (uu : ℕ) (hstart : h.log = []) : Ends (getIds E h) (fun ret h' => 0 ≤ ret →
    ProgCommand.id.Heeded uu h'.log → Succeeded uu h'.log) (fun _ _ => True) := by
  have hplain : ∀ {h : Host σ} {cmd : List UInt8} {minRead n : ℕ} {value : List ℕ → ℤ},
      cmd.head? ≠ some 'R'.toUInt8 ∧ cmd.head? ≠ some 'W'.toUInt8 →
      Ends (readReply E cmd 0 minRead n value h)
        (fun _ h' => ∃ es, h'.offLine = h.offLine ++ es ∧ Plain es) (fun _ _ => True) :=
    fun hcmd => (readReply_sound 0 _ _ _ _ hcmd).mono
      (fun _ _ ⟨es, hoff, hes, _⟩ => ⟨es, hoff, hes⟩) (fun _ _ _ => trivial)
  unfold getIds
  refine Ends.bind (hplain (by decide)) fun _ h₁ ⟨es₁, hoff₁, hes₁⟩ => Ends.bind (hplain (by decide))
    fun _ h₂ ⟨es₂, hoff₂, hes₂⟩ => Ends.bind (hplain (by decide))
    fun _ h₃ ⟨es₃, hoff₃, hes₃⟩ => Ends.pure ?_
  rintro - ⟨hgrant, hreplied⟩
  have hall : Plain h₃.offLine := by
    rw [hoff₃, hoff₂, hoff₁, offLine_of_start hstart]
    exact (hes₁.append hes₂).append hes₃
  obtain ⟨hR, hW⟩ := granted_of_plain hall
  rw [granted_offLine] at hR hW
  refine ⟨fun e he => ?_, fun hne => absurd hR hne, fun hne => absurd hW hne⟩
  rcases e with ⟨text, a⟩ | _ | _ | _ | _ | _ | _ | answered | _
  · exact .inl (hgrant text a he)
  · trivial
  · trivial
  · trivial
  · trivial
  · trivial
  · trivial
  · exact hreplied answered he
  · trivial

theorem firstWord_zero : firstWord (.replicate 4 (some 0)) = 0 := by decide

theorem startProg_succeeded (part : PartDesc) (hstart : h.log = []) :
    Ends (startProg E part h) (fun ret h' => 0 ≤ ret →
      ProgCommand.go.Heeded part.uuencode.toNat h'.log →
      Succeeded part.uuencode.toNat h'.log) (fun _ _ => True) := by
  unfold startProg
  refine Ends.bind (ispReadMemory_asked (by decide) (part.flashBase + part.resetVectorOffset)
    part.uuencode.toNat h) ?_
  rintro ⟨len, data⟩ h₁ ⟨a, hoff, hread⟩
  rw [offLine_of_start hstart, List.nil_append] at hoff
  by_cases h4 : len ≠ 4
  · simp only [if_pos h4]
    rintro hle ⟨hheed, hall⟩
    obtain rfl : a = .status 0 := by
      rcases hread with ⟨rfl, -⟩ | ⟨-, -, hne, -, hstatus⟩
      · rfl
      · obtain rfl := hstatus hle
        have hm : .request _ (.status len) ∈ h₁.log := (Host.mem_offLine rfl).1 (by
          rw [hoff]
          exact List.mem_cons_self)
        rcases hheed _ len hm with hcode | hcode | hcode
        · exact absurd (Int.le_antisymm hcode hle) hne
        · exact absurd rfl hcode
        · exact absurd hcode h4
    refine .of_read hoff (fun _ _ hm => (by cases hm)) (fun e he => (by cases he)) ?_
    rcases hall with hall | ⟨huu, hnone⟩
    · exact hall
    · rcases hread with ⟨-, hnothing⟩ | ⟨hne, -⟩
      · have := hnothing huu (by rw [hnone, hstart]; rfl)
        omega
      · exact absurd rfl hne
  · obtain rfl : len = 4 := not_not.1 h4
    simp only [if_neg h4]
    refine Ends.bind ((ispCmdUnlock_ends 1 h₁).mono (fun _ _ hp => hp) (fun _ _ _ => trivial)) ?_
    rintro ret h₂ ⟨code, hasked₂, rfl⟩
    by_cases hcode : code ≠ 0
    · rw [if_pos hcode, if_pos (by decide)]
      exact fun hle => absurd hle (by decide)
    · obtain rfl : code = 0 := not_not.1 hcode
      rw [if_neg hcode, if_neg (by decide)]
      have hgo : Ends ((if firstWord data % 2 = 1 then
          ispSendCmdGo E (firstWord data - 1) 'T'.toUInt8 else
          ispSendCmdGo E (firstWord data) 'A'.toUInt8) h₂)
          (fun ret h' => 0 ≤ ret → firstWord data ≠ 0 ∧ ∃ text, Asked h₂ ('G'.toUInt8 :: text) 0 h')
          (fun _ _ => True) := by
        refine Ends.ite (fun hodd => ?_) (fun heven => ?_)
        · refine (ispSendCmdGo_ends _ _ h₂).mono ?_ (fun _ _ _ => trivial)
          rintro ret h₃ (⟨hneg, -⟩ | ⟨-, code, hasked, hret⟩) hle
          · omega
          · obtain rfl := hret.resolve_left (Int.not_lt.2 hle)
            refine ⟨fun hzero => ?_, _, hasked⟩
            rw [hzero] at hodd
            exact absurd hodd (by decide)
        · refine (ispSendCmdGo_ends _ _ h₂).mono ?_ (fun _ _ _ => trivial)
          rintro ret h₃ (⟨hneg, -⟩ | ⟨haddr, code, hasked, hret⟩) hle
          · omega
          · obtain rfl := hret.resolve_left (Int.not_lt.2 hle)
            refine ⟨fun hzero => haddr ?_, _, hasked⟩
            rw [hzero]
            decide
      refine hgo.mono ?_ (fun _ _ _ => trivial)
      rintro ret h₃ hgo hle ⟨-, hall⟩
      obtain ⟨haddr, text, hasked₃⟩ := hgo hle
      rcases hread with ⟨rfl, hnothing⟩ | ⟨-, hdata, -⟩
      · obtain ⟨a₂, -, hstatus₂, hoff₂⟩ := hasked₂.offLine
        obtain rfl := hstatus₂ (Int.le_refl 0)
        obtain ⟨a₃, -, hstatus₃, hoff₃⟩ := hasked₃.offLine
        obtain rfl := hstatus₃ (Int.le_refl 0)
        rw [hoff₂, hoff, List.append_assoc, List.singleton_append] at hoff₃
        refine .of_read hoff₃ ((plain_request (by decide)).append (plain_request (by decide))) ?_ ?_
        · intro e he
          rcases List.mem_append.1 he with he | he <;> rw [List.mem_singleton.1 he] <;>
            exact .inl rfl
        · rcases hall with hall | ⟨huu, hnone⟩
          · exact hall
          · rw [hasked₃.tookBytes, hasked₂.tookBytes] at hnone
            have := hnothing huu (by rw [hnone, hstart]; rfl)
            omega
      · -- nothing was read, and the address is that of the zeros in the buffer
        obtain rfl : data = .replicate 4 (some 0) := hdata
        exact absurd firstWord_zero haddr

end Others

/-- What the device gets wrong, and a command of `lpcprog` heeds, makes its value negative. -/
theorem ProgCommand.run_succeeded (command : ProgCommand) (part : PartDesc) (calcUserCode : ℤ)
    (args : List (List UInt8)) (hstart : h.log = []) :
    Ends (command.run E part calcUserCode args h) (fun ret h' => 0 ≤ ret →
      command.Heeded part.uuencode.toNat h'.log → Succeeded part.uuencode.toNat h'.log)
      (fun _ _ => True) := by
  cases command with
  | dump =>
    rcases args with _ | ⟨filename, _ | ⟨arg₁, rest⟩⟩
    · exact fun hle => absurd hle (by decide)
    · exact dumpToFile_succeeded part filename hstart
    · exact fun hle => absurd hle (by decide)
  | flash =>
    rcases args with _ | ⟨filename, _ | ⟨arg₁, rest⟩⟩
    · exact fun hle => absurd hle (by decide)
    · exact flashTarget_succeeded part filename calcUserCode hstart
    · exact fun hle => absurd hle (by decide)
  | id => exact getIds_succeeded part.uuencode.toNat hstart
  | blank => exact eraseFlash_succeeded part part.uuencode.toNat hstart
  | go => exact startProg_succeeded part hstart

/-- A command of one of the two programs, as it is called. -/
inductive ToolCall where
  | isp (cmd : Option (List UInt8)) (args : List (List UInt8))
  | prog (findPart : ℤ → Option PartDesc) (calcUserCode : ℤ) (cmd : Option (List UInt8)) (devId : ℤ)
    (args : List (List UInt8))

namespace ToolCall

def run (E : Sys σ) : ToolCall → Prog σ ℤ
  | isp cmd args => ispHandleCommand E cmd args
  | prog findPart calcUserCode cmd devId args =>
    progHandleCommand E findPart calcUserCode cmd devId args

/-- Whether the transfers of the call are uuencoded. -/
def uuencoded : ToolCall → ℕ
  | isp cmd args => ((cmd.bind (lookup ispCmdsList)).map (·.uuencoded args)).getD 0
  | prog findPart _ _ devId _ => ((findPart devId).map (·.uuencode.toNat)).getD 0

/-- What the device gets wrong, the command that is called heeds. -/
def Heeded : ToolCall → List Event → Prop
  | isp cmd args, log => ∀ command, cmd.bind (lookup ispCmdsList) = some command →
    command.Heeded args log
  | prog findPart _ cmd devId _, log => ∀ part command, findPart devId = some part →
    cmd.bind (lookup progCmdsList) = some command → command.Heeded part.uuencode.toNat log

/-- A value that is not negative means success, in every run in which what the device gets wrong is
something the command heeds. -/
theorem succeeded_of_heeded (call : ToolCall) (env : σ) (nextReadChar : UInt8) (c c' : ℕ) {ret : ℤ} :
    let run := call.run E (.start env nextReadChar c c')
    value run = some ret → 0 ≤ ret → call.Heeded (final run).log →
      Succeeded call.uuencoded (final run).log := by
  intro run hvalue hle hheed
  rcases hrun : run with ⟨ret', h'⟩ | ⟨f, h'⟩ <;> rw [hrun] at hvalue hheed
  · cases hvalue
    rw [final_ok] at hheed ⊢
    change call.run E (.start env nextReadChar c c') = _ at hrun
    rcases call with ⟨_ | cmd, args⟩ | ⟨findPart, calcUserCode, _ | cmd, devId, args⟩
    · cases hrun
      exact absurd hle (by decide)
    · rcases hcmd : lookup ispCmdsList cmd with _ | command
      · simp only [ToolCall.run, ispHandleCommand, hcmd] at hrun
        cases hrun
        exact absurd hle (by decide)
      · simp only [ToolCall.run, ispHandleCommand, hcmd] at hrun
        simp only [ToolCall.uuencoded, Option.bind_some, hcmd, Option.map_some, Option.getD_some]
        exact (command.run_succeeded args rfl).ok hrun hle (hheed command hcmd)
    · cases hrun
      exact absurd hle (by decide)
    · rcases hpart : findPart devId with _ | part
      · simp only [ToolCall.run, progHandleCommand, hpart] at hrun
        cases hrun
        exact absurd hle (by decide)
      · rcases hcmd : lookup progCmdsList cmd with _ | command
        · simp only [ToolCall.run, progHandleCommand, hpart, hcmd] at hrun
          cases hrun
          exact absurd hle (by decide)
        · simp only [ToolCall.run, progHandleCommand, hpart, hcmd] at hrun
          simp only [ToolCall.uuencoded, hpart, Option.map_some, Option.getD_some]
          exact (command.run_succeeded part calcUserCode args rfl).ok hrun hle
            (hheed part command hpart hcmd)
  · cases hvalue

end ToolCall

section Calls

/-- A part with two sectors. -/
def twoSectors : PartDesc := ⟨0, 0x2000, 2, 4, 0x10000000, 0x400, 0x200, 0x100, 1⟩

/-- `lpcprog`'s `blank` -/
def blankCall : ToolCall :=
  .prog (fun _ => some twoSectors) 1 (some (bytes ['b', 'l', 'a', 'n', 'k'])) 0 []

/-- The first sector is not blank, and gets erased. The second one is. -/
theorem blankCall_succeeded :
    let run := blankCall.run ((scripted fun _ => 100).sys (Sys.plain _)) (.start (.quiet [statusText 0,
      statusText 8 ++ statusText 0 ++ statusText 7, statusText 0, statusText 0, statusText 0]) 0 0 0)
    value run = some 0 ∧ Succeeded blankCall.uuencoded (final run).log := by
  intro run
  have hvalue : value run = some 0 := by decide +kernel
  have hlog : (final run).log = [.request unlock (.status 0),
      .request (bytes "I 0 0\r\n".toList) (.status 8), .replied true,
      .request (bytes "P 0 0\r\n".toList) (.status 0), .request (bytes "E 0 0\r\n".toList) (.status 0),
      .request (bytes "I 1 1\r\n".toList) (.status 0)] := by decide +kernel
  refine ⟨hvalue, blankCall.succeeded_of_heeded (E := (scripted fun _ => 100).sys (Sys.plain _))
    (Wire.quiet _) 0 0 0 hvalue (Int.le_refl 0) ?_⟩
  intro part command _ hcommand
  obtain rfl : command = .blank := Option.some.inj (hcommand.symm.trans (by decide))
  change Heeding ProgCommand.blank.Heeds (final run).log ∧ AllReplied (final run).log
  rw [hlog]
  constructor
  · intro text code hm
    simp only [List.mem_cons, Event.request.injEq, Answer.status.injEq, reduceCtorEq, List.not_mem_nil,
      or_false, false_or] at hm
    rcases hm with ⟨-, rfl⟩ | ⟨rfl, rfl⟩ | ⟨-, rfl⟩ | ⟨-, rfl⟩ | ⟨-, rfl⟩
    · exact .inl (by decide)
    · exact .inr (.inr ⟨rfl, rfl⟩)
    · exact .inl (by decide)
    · exact .inl (by decide)
    · exact .inl (by decide)
  · intro answered hm
    simpa using hm

/-- `lpcisp`'s `erase 0 0` -/
def eraseCall : ToolCall :=
  .isp (some (bytes ['e', 'r', 'a', 's', 'e'])) [bytes ['0'], bytes ['0']]

/-- The device refuses with "sector not prepared", and the value is the positive code. -/
theorem eraseCall_misreported :
    let run := eraseCall.run ((scripted fun _ => 100).sys (Sys.plain _))
      (.start (.quiet [statusText 9]) 0 0 0)
    value run = some 9 ∧ ¬ Succeeded eraseCall.uuencoded (final run).log := by
  intro run
  have hlog : ∃ text, (final run).log = [.errorCode 9 (some "SECTOR_NOT_PREPARED_FOR_WRITE_OPERATION"),
      .request ('E'.toUInt8 :: text) (.status 9)] := ⟨bytes [' ', '0', ' ', '0', '\r', '\n'], by
        decide +kernel⟩
  refine ⟨by decide +kernel, fun hs => ?_⟩
  obtain ⟨text, hlog⟩ := hlog
  have hanswer := hs.answers (.request ('E'.toUInt8 :: text) (.status 9)) (by
    rw [hlog]
    exact List.mem_cons_of_mem _ List.mem_cons_self)
  rcases hanswer with hcode | ⟨-, hcode⟩ | ⟨-, hcode⟩ <;> cases hcode

end Calls

end LpcTools
