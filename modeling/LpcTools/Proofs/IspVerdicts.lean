import LpcTools.Tools
import LpcTools.Proofs.Verdicts

/-!
# The verdicts of `lpcisp`

The commands return device codes, lengths and errors alike, and only the sign of a value is looked
at. A command may be trusted with the codes it compares its value with; where it returns the code
itself, any positive one passes for a success.
-/

namespace LpcTools

open Run Decimal Uuencode

/-- The positive codes that a command of `lpcisp` takes for failures or results. -/
def IspCommand.Heeds : IspCommand → ℤ → Prop
  | .unlock, _ => True
  | .writeToRam, _ => True
  | .go, _ => True
  | .compare, _ => True
  | .blankCheck, code => code = 7 ∨ code = 8 ∨ code = 12
  | _, _ => False

/-- No request is answered with a positive code that is not heeded. -/
def Heeding (heeds : List UInt8 → ℤ → Prop) (log : List Event) : Prop :=
  ∀ text code, .request text (.status code) ∈ log → code ≤ 0 ∨ heeds text code

/-- Requests without a transfer. -/
def Plain (log : List Event) : Prop :=
  ∀ text a, .request text a ∈ log →
    text.head? ≠ some 'R'.toUInt8 ∧ text.head? ≠ some 'W'.toUInt8

/-- The mode of the transfer of a command of `lpcisp`. -/
def IspCommand.uuencoded (args : List (List UInt8)) : IspCommand → ℕ
  | .readMemory => ((args[3]?).map argValue).getD 1 % 2 ^ 32
  | .writeToRam => ((args[2]?).map argValue).getD 1 % 2 ^ 32
  | _ => 0

/-- What the device has to do for the value of a command to be right: it answers with no positive
code that the command does not heed, and once it has granted a read, it sends all of it, or nothing
in answer to a request for plain data. -/
def IspCommand.Heeded (command : IspCommand) (args : List (List UInt8)) (log : List Event) : Prop :=
  Heeding (fun _ => command.Heeds) log ∧ (command = .readMemory →
    Complete log 'R'.toUInt8 bytesDue (receivedBytes (command.uuencoded args) log).length ∨
      command.uuencoded args = 0 ∧ tookBytes log = [])

variable {σ : Type} {E : Sys σ} {h h₁ h₂ : Host σ} {heeds : ℤ → Prop}

section Sound

/-- A value that is right about requests without a transfer. -/
def Sound (heeds : ℤ → Prop) (h : Host σ) (ret : ℤ) (h' : Host σ) : Prop :=
  ∃ es, h'.offLine = h.offLine ++ es ∧ Plain es ∧
    (0 ≤ ret → Heeding (fun _ => heeds) es → ∀ e ∈ es, e.Success)

theorem granted_of_plain {log : List Event} (hlog : Plain log) :
    granted 'R'.toUInt8 log = 0 ∧ granted 'W'.toUInt8 log = 0 := by
  constructor <;> rw [granted, List.countP_eq_zero] <;> intro e he <;>
    rcases e with ⟨text, a⟩ | _ | _ | _ | _ | _ | _ | _ | _ <;> simp
  · exact fun _ => (hlog text a he).1
  · exact fun _ => (hlog text a he).2

theorem offLine_of_start (hstart : h.log = []) : h.offLine = [] := by
  rw [Host.offLine, hstart]
  rfl

theorem Sound.succeeded {ret : ℤ} {uu : ℕ} (hs : Sound heeds h ret h₁) (hstart : h.log = [])
    (hret : 0 ≤ ret) (hh : Heeding (fun _ => heeds) h₁.log) : Succeeded uu h₁.log := by
  obtain ⟨es, hoff, hplain, hok⟩ := hs
  rw [offLine_of_start hstart, List.nil_append] at hoff
  obtain ⟨hR, hW⟩ := granted_of_plain hplain
  rw [← hoff, granted_offLine] at hR hW
  refine ⟨answers_offLine.1 ?_, fun hne => absurd hR hne, fun hne => absurd hW hne⟩
  rw [hoff]
  refine hok hret fun text code hm => hh text code ?_
  rw [← hoff] at hm
  exact (Host.mem_offLine rfl).1 hm

/-- A text that starts with another letter. -/
theorem head_ne {cmd : UInt8} {text : List UInt8} (hcmd : cmd ≠ 'R'.toUInt8 ∧ cmd ≠ 'W'.toUInt8) :
    (cmd :: text).head? ≠ some 'R'.toUInt8 ∧ (cmd :: text).head? ≠ some 'W'.toUInt8 := by
  simpa using hcmd

theorem Sound.refuse {ret : ℤ} (hret : ret < 0) : Sound heeds h ret h :=
  ⟨[], (List.append_nil _).symm, fun _ _ hm => (by cases hm), fun hle => absurd hret (Int.not_lt.2 hle)⟩

/-- One request, and a value that is negative unless its answer is a success. -/
theorem Sound.asked {text : List UInt8} {code ret : ℤ} (ha : Asked h text code h₁)
    (hplain : text.head? ≠ some 'R'.toUInt8 ∧ text.head? ≠ some 'W'.toUInt8)
    (hok : 0 ≤ ret → (code ≤ 0 ∨ heeds code) →
      0 ≤ code ∧ Event.Success (.request text (.status code))) : Sound heeds h ret h₁ := by
  obtain ⟨a, hcode, hstatus, hoff⟩ := ha.offLine
  refine ⟨_, hoff, fun text' a' hm => ?_, fun hret hh e he => ?_⟩
  · cases List.mem_singleton.1 hm
    exact hplain
  · obtain rfl := List.mem_singleton.1 he
    rcases a with code' | fail
    · obtain rfl : code' = code := hcode
      exact (hok hret (hh text code' List.mem_cons_self)).2
    · by_cases hle : 0 ≤ code
      · cases hstatus hle
      · exact absurd (hok hret (.inl (by omega))).1 hle

/-- One request and a reply to it. -/
theorem Sound.replied {text : List UInt8} {code ret : ℤ} {answered : Bool} (ha : Asked h text code h₁)
    (hplain : text.head? ≠ some 'R'.toUInt8 ∧ text.head? ≠ some 'W'.toUInt8)
    (hok : Event.Success (.request text (.status code))) (hcode : 0 ≤ code)
    (hmore : h₂.offLine = h₁.offLine ++ [.replied answered]) (hret : answered = false → ret < 0) :
    Sound heeds h ret h₂ := by
  obtain ⟨a, -, hstatus, hoff⟩ := ha.offLine
  rw [hoff, List.append_assoc] at hmore
  refine ⟨_, hmore, fun text' a' hm => ?_, fun hle hh e he => ?_⟩
  · rcases List.mem_cons.1 hm with hm | hm
    · cases hm
      exact hplain
    · cases List.mem_singleton.1 hm
  · rcases List.mem_cons.1 he with rfl | he
    · rw [hstatus hcode]
      exact hok
    · obtain rfl := List.mem_singleton.1 he
      cases answered
      · exact absurd (hret rfl) (Int.not_lt.2 hle)
      · rfl

end Sound

section Commands

theorem readReply_sound {cmd : List UInt8} (quiet : ℤ) (minRead n : ℕ) (value : List ℕ → ℤ)
    (h : Host σ) (hplain : cmd.head? ≠ some 'R'.toUInt8 ∧ cmd.head? ≠ some 'W'.toUInt8) :
    Ends (readReply E cmd quiet minRead n value h) (Sound (fun _ => False) h) (fun _ _ => True) := by
  refine (readReply_ends cmd quiet minRead n value h).mono ?_ (fun _ _ _ => trivial)
  rintro ret h₂ (⟨h₁, hasked, hmore | ⟨hmore, rfl⟩⟩ | ⟨hne, hasked⟩)
  · exact .replied hasked hplain (.inl rfl) (Int.le_refl 0) hmore (fun he => by cases he)
  · exact .replied hasked hplain (.inl rfl) (Int.le_refl 0) hmore (fun _ => by decide)
  · refine .asked hasked hplain fun hle hh => ?_
    rcases hh with hh | hh
    · omega
    · exact hh.elim

theorem ispCmdUnlock_ends (quiet : ℤ) (h : Host σ) : Ends (ispCmdUnlock E quiet h)
    (fun ret h' => ∃ code, Asked h unlock code h' ∧ ret = if code ≠ 0 then -1 else 0)
    (BrokenOff h) := by
  unfold ispCmdUnlock
  exact (ispSendCmdNoArgs_ends unlock quiet h).bind fun code h₁ hasked => ⟨code, hasked, rfl⟩

/-- The sectors are those of the arguments, in order. -/
theorem ispCmdSectorsSkel_ends (args : List (List UInt8)) (cmd : UInt8) (h : Host σ) :
    Ends (ispCmdSectorsSkel E args cmd h) (fun ret h' => ret < 0 ∧ h' = h ∨
      ∃ first last, Asked h (twoArgsText cmd first last) ret h') (fun _ _ => True) := by
  unfold ispCmdSectorsSkel
  rcases args with _ | ⟨arg₀, _ | ⟨arg₁, _ | ⟨arg₂, rest⟩⟩⟩
  · exact .inl ⟨by decide, rfl⟩
  · exact .inl ⟨by decide, rfl⟩
  · simp only []
    by_cases hle : toInt (argValue arg₀) ≤ toInt (argValue arg₁)
    · refine (ispSendCmdSectors_ends cmd 0 h hle).mono ?_ (fun _ _ _ => trivial)
      exact fun ret h₁ hasked => .inr ⟨_, _, hasked⟩
    · unfold ispSendCmdSectors
      rw [if_pos (Int.not_le.1 hle)]
      exact .inl ⟨by decide, rfl⟩
  · exact .inl ⟨by decide, rfl⟩

/-- A command that returns the code it is answered. -/
theorem ispCmdSectorsSkel_sound (args : List (List UInt8)) {cmd : UInt8} (h : Host σ)
    (hcmd : cmd ≠ 'R'.toUInt8 ∧ cmd ≠ 'W'.toUInt8) :
    Ends (ispCmdSectorsSkel E args cmd h) (Sound (fun _ => False) h) (fun _ _ => True) := by
  refine (ispCmdSectorsSkel_ends args cmd h).mono ?_ (fun _ _ _ => trivial)
  rintro ret h₁ (⟨hneg, rfl⟩ | ⟨first, last, hasked⟩)
  · exact .refuse hneg
  · refine .asked hasked (head_ne hcmd) ?_
    rintro hle (hh | hh)
    · obtain rfl : ret = 0 := Int.le_antisymm hh hle
      exact ⟨hle, .inl rfl⟩
    · exact hh.elim

theorem ispCmdAddressWrapper_ends (args : List (List UInt8)) (cmd : UInt8) (h : Host σ) :
    Ends (ispCmdAddressWrapper E args cmd h) (fun ret h' => ret < 0 ∧ h' = h ∨
      ∃ addr1 addr2 length, Asked h (addressText cmd addr1 addr2 length) ret h') (fun _ _ => True) := by
  unfold ispCmdAddressWrapper
  rcases args with _ | ⟨arg₀, _ | ⟨arg₁, _ | ⟨arg₂, _ | ⟨arg₃, rest⟩⟩⟩⟩
  · exact .inl ⟨by decide, rfl⟩
  · exact .inl ⟨by decide, rfl⟩
  · exact .inl ⟨by decide, rfl⟩
  · have hsend : Ends (ispSendCmdAddress E cmd (UInt32.ofNat (argValue arg₀))
        (UInt32.ofNat (argValue arg₁)) (UInt32.ofNat (argValue arg₂)) h)
        (fun ret h' => ret < 0 ∧ h' = h ∨
          ∃ addr1 addr2 length, Asked h (addressText cmd addr1 addr2 length) ret h')
        (fun _ _ => True) :=
      (ispSendCmdAddress_ends _ _ _ _ h).mono
        (fun ret h₁ hasked => .inr ⟨_, _, _, hasked⟩) (fun _ _ _ => trivial)
    simp only []
    split_ifs
    · exact .inl ⟨by decide, rfl⟩
    · exact hsend
    · exact .inl ⟨by decide, rfl⟩
    · exact .inl ⟨by decide, rfl⟩
    · exact hsend
    · exact .inl ⟨by decide, rfl⟩
  · exact .inl ⟨by decide, rfl⟩

theorem readResult_ends (n : ℕ) (h : Host σ) : Ends (readResult E n h) (fun ret h' =>
    ∃ answered, h'.offLine = h.offLine ++ [.replied answered] ∧ (answered = false → ret < 0))
    (fun _ _ => True) := by
  unfold readResult
  refine Ends.bind_ok (uninit_apply _ _ _) (Ends.bind (readMore_ends shortRepBufsize 3 h) ?_)
  rintro ⟨len, got⟩ h₁ ⟨hmore, -⟩
  by_cases hlen : len ≤ 0
  · simp only [if_pos hlen]
    exact ⟨_, hmore, fun _ => by decide⟩
  · simp only [if_neg hlen]
    rw [decide_eq_true (Int.not_le.1 hlen)] at hmore
    rcases readNumbers n (overlay _ 0 got) with _ | vs
    · trivial
    · exact ⟨_, hmore, fun he => by cases he⟩

theorem ispCmdBlankCheck_sound (args : List (List UInt8)) (h : Host σ) :
    Ends (ispCmdBlankCheck E args h) (Sound IspCommand.blankCheck.Heeds h) (fun _ _ => True) := by
  unfold ispCmdBlankCheck
  refine Ends.bind (ispCmdSectorsSkel_ends args 'I'.toUInt8 h) ?_
  rintro ret h₁ (⟨hneg, rfl⟩ | ⟨first, last, hasked⟩)
  · rw [if_pos hneg]
    exact .refuse hneg
  · have hplain : (twoArgsText 'I'.toUInt8 first last).head? ≠ some 'R'.toUInt8 ∧
        (twoArgsText 'I'.toUInt8 first last).head? ≠ some 'W'.toUInt8 := head_ne (by decide)
    by_cases hneg : ret < 0
    · rw [if_pos hneg]
      exact .asked hasked hplain fun hle => absurd hneg (Int.not_lt.2 hle)
    · rw [if_neg hneg]
      by_cases h8 : ret = 8
      · subst h8
        rw [if_pos rfl]
        refine (readResult_ends 2 h₁).mono ?_ (fun _ _ _ => trivial)
        rintro ret h₂ ⟨answered, hmore, hret⟩
        exact .replied hasked hplain (.inr (.inl ⟨rfl, rfl⟩)) (by decide) hmore hret
      · rw [if_neg h8]
        by_cases h7 : ret = 7
        · rw [if_pos h7]
          exact .asked hasked hplain fun hle => absurd hle (by decide)
        · rw [if_neg h7]
          by_cases h12 : ret = 12
          · rw [if_pos h12]
            exact .asked hasked hplain fun hle => absurd hle (by decide)
          · rw [if_neg h12]
            refine .asked hasked hplain fun _ hh => ?_
            obtain rfl : ret = 0 := by
              rcases hh with hh | hh | hh | hh <;> omega
            exact ⟨Int.le_refl 0, .inl rfl⟩

theorem ispCmdCompare_sound (args : List (List UInt8)) (h : Host σ) :
    Ends (ispCmdCompare E args h) (Sound IspCommand.compare.Heeds h) (fun _ _ => True) := by
  unfold ispCmdCompare
  refine Ends.bind (ispCmdAddressWrapper_ends args 'M'.toUInt8 h) ?_
  rintro ret h₁ (⟨hneg, rfl⟩ | ⟨addr1, addr2, length, hasked⟩)
  · rw [if_neg (by omega), if_neg (by omega)]
    exact .refuse (by decide)
  · have hplain : (addressText 'M'.toUInt8 addr1 addr2 length).head? ≠ some 'R'.toUInt8 ∧
        (addressText 'M'.toUInt8 addr1 addr2 length).head? ≠ some 'W'.toUInt8 :=
      head_ne (by decide)
    by_cases h0 : ret = 0
    · subst h0
      rw [if_pos rfl]
      exact .asked hasked hplain fun _ _ => ⟨Int.le_refl 0, .inl rfl⟩
    · rw [if_neg h0]
      by_cases h10 : ret = 10
      · subst h10
        rw [if_pos rfl]
        refine (readResult_ends 1 h₁).mono ?_ (fun _ _ _ => trivial)
        rintro ret h₂ ⟨answered, hmore, hret⟩
        exact .replied hasked hplain (.inr (.inr ⟨rfl, rfl⟩)) (by decide) hmore hret
      · rw [if_neg h10]
        exact .asked hasked hplain fun hle => absurd hle (by decide)

theorem ispCmdUnlock_sound (quiet : ℤ) (h : Host σ) :
    Ends (ispCmdUnlock E quiet h) (Sound IspCommand.unlock.Heeds h) (fun _ _ => True) := by
  refine (ispCmdUnlock_ends quiet h).mono ?_ (fun _ _ _ => trivial)
  rintro ret h₁ ⟨code, hasked, rfl⟩
  refine .asked hasked (head_ne (by decide)) fun hle _ => ?_
  by_cases hcode : code ≠ 0
  · rw [if_pos hcode] at hle
    exact absurd hle (by decide)
  · obtain rfl : code = 0 := not_not.1 hcode
    exact ⟨Int.le_refl 0, .inl rfl⟩

theorem ispSendCmdGo_sound (addr : UInt32) (mode : UInt8) (h : Host σ) :
    Ends (ispSendCmdGo E addr mode h) (Sound IspCommand.go.Heeds h) (fun _ _ => True) := by
  refine (ispSendCmdGo_ends addr mode h).mono ?_ (fun _ _ _ => trivial)
  rintro ret h₁ (⟨hneg, rfl⟩ | ⟨-, code, hasked, hret⟩)
  · exact .refuse hneg
  · refine .asked hasked (head_ne (by decide)) fun hle _ => ?_
    obtain rfl : code = 0 := hret.resolve_left (Int.not_lt.2 hle)
    exact ⟨Int.le_refl 0, .inl rfl⟩

theorem ispCmdGo_sound (args : List (List UInt8)) (h : Host σ) :
    Ends (ispCmdGo E args h) (Sound IspCommand.go.Heeds h) (fun _ _ => True) := by
  unfold ispCmdGo
  rcases args with _ | ⟨arg₀, _ | ⟨mode, _ | ⟨arg₂, rest⟩⟩⟩
  · exact .refuse (by decide)
  · exact .refuse (by decide)
  · simp only []
    split_ifs
    · exact .refuse (by decide)
    · exact ispSendCmdGo_sound _ _ h
    · exact ispSendCmdGo_sound _ _ h
    · exact .refuse (by decide)
  · exact .refuse (by decide)

theorem ispCmdCopyRamToFlash_sound (args : List (List UInt8)) (h : Host σ) :
    Ends (ispCmdCopyRamToFlash E args h) (Sound (fun _ => False) h) (fun _ _ => True) := by
  refine (ispCmdAddressWrapper_ends args 'C'.toUInt8 h).mono ?_ (fun _ _ _ => trivial)
  rintro ret h₁ (⟨hneg, rfl⟩ | ⟨addr1, addr2, length, hasked⟩)
  · exact .refuse hneg
  · refine .asked hasked (head_ne (by decide)) ?_
    rintro hle (hh | hh)
    · obtain rfl : ret = 0 := Int.le_antisymm hh hle
      exact ⟨hle, .inl rfl⟩
    · exact hh.elim

end Commands

section Transfers

/-- Nothing but the write is logged, and the value is the length unless it is negative. -/
theorem ispBuffToFile_asked (data : List Cell) (len : UInt32) (filename : List UInt8) (h : Host σ) :
    Ends (ispBuffToFile E data len filename h) (fun ret h' =>
      (h' = h ∨ ∃ cells, h' = h.emit (.saved cells)) ∧ (ret < 0 ∨ ret = toInt len.toNat))
      (fun _ _ => True) := by
  unfold ispBuffToFile
  refine Ends.bind_ok (get_apply _) ?_
  by_cases hopen : (!isStdStream filename && !E.openOutput h.env filename) = true
  · rw [if_pos hopen]
    exact ⟨.inl rfl, .inl (by decide)⟩
  · rw [if_neg hopen]
    rcases E.save h.env len.toNat with _ | n
    · refine Ends.bind_ok (pure_apply _ _) (Ends.pure ⟨.inl rfl, ?_⟩)
      split_ifs
      · exact .inl (by decide)
      · exact .inl (by decide)
    · refine Ends.bind_ok (bind_ok (emit_apply _ _)) (Ends.pure ⟨.inr ⟨_, rfl⟩, ?_⟩)
      split_ifs with hne
      · exact .inl (by decide)
      · exact .inr (not_not.1 hne)

theorem Succeeded.of_write {uu : ℕ} {addr count : UInt32}
    (hoff : h.offLine = [.request (twoArgsText 'W'.toUInt8 addr.toNat count.toNat) (.status 0)])
    (hacc : acceptances h.log = acceptancesDue uu count.toNat) : Succeeded uu h.log := by
  refine ⟨answers_offLine.1 ?_, complete_offLine.1 ?_, complete_offLine.1 ?_⟩ <;> rw [hoff]
  · intro e he
    rw [List.mem_singleton.1 he]
    exact .inl rfl
  · exact fun hne => absurd rfl hne
  · refine fun _ => ⟨count, fun text a hm _ => ?_, ?_⟩
    · cases List.mem_singleton.1 hm
      exact ⟨addr, rfl⟩
    · rw [hacc]
      exact (Nat.one_mul _).symm

theorem ispCmdWriteToRam_succeeded (args : List (List UInt8)) (hstart : h.log = []) :
    Ends (ispCmdWriteToRam E args h) (fun ret h' => 0 ≤ ret →
      Succeeded (IspCommand.writeToRam.uuencoded args) h'.log) (fun _ _ => True) := by
  unfold ispCmdWriteToRam
  rcases args with _ | ⟨arg₀, _ | ⟨filename, rest⟩⟩
  · exact fun hle => absurd hle (by decide)
  · exact fun hle => absurd hle (by decide)
  · simp only []
    by_cases hodd : argValue arg₀ % 4 ≠ 0
    · rw [if_pos hodd]
      exact fun hle => absurd hle (by decide)
    · rw [if_neg hodd]
      obtain ⟨⟨ret, got⟩, hfile⟩ := ispFileToBuff_eq (E := E) ramMaxSize filename h
      refine Ends.bind_ok (uninit_apply _ _ _) (Ends.bind_ok (get_apply _) (Ends.bind_ok hfile ?_))
      by_cases hzero : (toUnsigned ret).toNat = 0
      · simp only [if_pos hzero]
        exact fun hle => absurd hle (by decide)
      · simp only [if_neg hzero]
        set count := UInt32.ofNat (if (toUnsigned ret).toNat % 4 ≠ 0 then
          (toUnsigned ret).toNat / 4 * 4 + 4 else (toUnsigned ret).toNat)
        have hmode : IspCommand.writeToRam.uuencoded (arg₀ :: filename :: rest) =
            (rest.head?.map argValue).getD 1 % 2 ^ 32 := by
          rw [List.head?_eq_getElem?]
          rfl
        rw [hmode]
        refine (ispSendBufToRam_ends _ (argValue arg₀) _ h).mono ?_ (fun _ _ _ => trivial)
        rintro ret h₁ ⟨a, hoff, hle, hall⟩ hge
        obtain ⟨rfl, hacc⟩ := hall (Int.le_antisymm hle hge)
        have hnone : acceptances h.log = 0 := by
          rw [hstart]
          rfl
        rw [offLine_of_start hstart, List.nil_append] at hoff
        rw [hnone, Nat.zero_add] at hacc
        exact .of_write hoff hacc

/-- A read whose request was granted, and of which all has come. -/
theorem Succeeded.of_read {uu : ℕ} {addr count : UInt32} {es : List Event}
    (hoff : h.offLine = .request (twoArgsText 'R'.toUInt8 addr.toNat count.toNat) (.status 0) :: es)
    (hes : Plain es) (hok : ∀ e ∈ es, e.Success)
    (hall : Complete h.log 'R'.toUInt8 bytesDue (receivedBytes uu h.log).length) : Succeeded uu h.log := by
  refine ⟨answers_offLine.1 ?_, hall, complete_offLine.1 ?_⟩ <;> rw [hoff]
  · intro e he
    rcases List.mem_cons.1 he with rfl | he
    · exact .inl rfl
    · exact hok e he
  · intro hne
    refine absurd ?_ hne
    have hcmd : 'R'.toUInt8 ≠ 'W'.toUInt8 := by decide
    rw [granted, List.countP_cons_of_neg (by simpa [twoArgsText] using hcmd)]
    exact (granted_of_plain hes).2

/-- A negative value comes out of `write` as it is, if all of it is written. -/
theorem toInt_toUnsigned {z : ℤ} (hneg : z < 0) (hge : -2 ^ 31 ≤ z) :
    toInt (toUnsigned z).toNat < 0 := by
  rw [toUnsigned, UInt32.toNat_ofNat', toInt]
  split_ifs <;> omega

theorem offLine_of_file (hfile : h₁ = h ∨ ∃ cells, h₁ = h.emit (.saved cells)) :
    ∃ es, h₁.offLine = h.offLine ++ es ∧ Plain es ∧ ∀ e ∈ es, e.Success := by
  rcases hfile with rfl | ⟨cells, rfl⟩
  · exact ⟨[], (List.append_nil _).symm, fun _ _ hm => (by cases hm), fun e he => (by cases he)⟩
  · refine ⟨[.saved cells], by simp [Host.offLine, Event.onLine], fun _ _ hm => ?_, fun e he => ?_⟩
    · cases List.mem_singleton.1 hm
    · rw [List.mem_singleton.1 he]
      trivial

theorem ispCmdReadMemory_succeeded (args : List (List UInt8)) (hstart : h.log = []) :
    Ends (ispCmdReadMemory E args h) (fun ret h' => 0 ≤ ret →
      IspCommand.readMemory.Heeded args h'.log →
      Succeeded (IspCommand.readMemory.uuencoded args) h'.log) (fun _ _ => True) := by
  unfold ispCmdReadMemory
  rcases args with _ | ⟨arg₀, _ | ⟨arg₁, _ | ⟨filename, rest⟩⟩⟩
  · exact fun hle => absurd hle (by decide)
  · exact fun hle => absurd hle (by decide)
  · exact fun hle => absurd hle (by decide)
  · simp only []
    by_cases hodd : argValue arg₀ % 4 ≠ 0 ∨ argValue arg₁ % 4 ≠ 0
    · rw [if_pos hodd]
      exact fun hle => absurd hle (by decide)
    · rw [if_neg hodd]
      refine Ends.bind_ok (get_apply _) ?_
      by_cases hmalloc : (!E.malloc h.env (argValue arg₁)) = true
      · rw [if_pos hmalloc]
        exact fun hle => absurd hle (by decide)
      · rw [if_neg hmalloc]
        have hmode : IspCommand.readMemory.uuencoded (arg₀ :: arg₁ :: filename :: rest) =
            (rest.head?.map argValue).getD 1 % 2 ^ 32 := by
          rw [List.head?_eq_getElem?]
          rfl
        simp only [IspCommand.Heeded, hmode]
        set uu := (rest.head?.map argValue).getD 1 % 2 ^ 32
        have hdata : (UInt32.ofNat (argValue arg₁)).toNat ≤
            (List.replicate (argValue arg₁) (none : Cell)).length := by
          rw [List.length_replicate, UInt32.toNat_ofNat']
          exact Nat.mod_le _ _
        refine Ends.bind (ispReadMemory_asked hdata (UInt32.ofNat (argValue arg₀)) uu h) ?_
        rintro ⟨len, data⟩ h₁ ⟨a, hoff, hread⟩
        refine (ispBuffToFile_asked data (toUnsigned len) filename h₁).mono ?_ (fun _ _ _ => trivial)
        rintro ret h₂ ⟨hfile, hret⟩ hle ⟨hheed, hall⟩
        rw [offLine_of_start hstart, List.nil_append] at hoff
        have hlen : 0 ≤ len ∨ len < -2 ^ 31 := by
          by_contra hneg
          have := toInt_toUnsigned (z := len) (by omega) (by omega)
          omega
        obtain ⟨es, hes, hplain, hok⟩ := offLine_of_file hfile
        rw [hoff] at hes
        obtain rfl : a = .status 0 := by
          rcases hread with ⟨rfl, -⟩ | ⟨-, -, hne, hge, hstatus⟩
          · rfl
          · obtain rfl := hstatus (by omega)
            have hm : .request _ (.status len) ∈ h₂.log := (Host.mem_offLine rfl).1 (by
              rw [hes]
              exact List.mem_cons_self)
            rcases hheed _ len hm with hcode | hcode
            · omega
            · exact hcode.elim
        refine .of_read hes hplain hok ?_
        rcases hall trivial with hall | ⟨huu, hnone⟩
        · exact hall
        · rcases hread with ⟨-, hnothing⟩ | ⟨hne, -⟩
          · have htook : tookBytes h₁.log = tookBytes h.log := by
              rw [hstart]
              rcases hfile with rfl | ⟨cells, rfl⟩
              · exact hnone
              · rw [Host.emit_log, tookBytes_append] at hnone
                exact (List.append_eq_nil_iff.1 hnone).1
            have := hnothing huu htook
            omega
          · exact absurd rfl hne

end Transfers

/-- What the device gets wrong, and a command of `lpcisp` heeds, makes its value negative. -/
theorem IspCommand.run_succeeded (command : IspCommand) (args : List (List UInt8))
    (hstart : h.log = []) : Ends (command.run E args h) (fun ret h' => 0 ≤ ret →
      command.Heeded args h'.log → Succeeded (command.uuencoded args) h'.log) (fun _ _ => True) := by
  have hsound : ∀ {x : Prog σ ℤ}, Ends (x h) (Sound command.Heeds h) (fun _ _ => True) →
      Ends (x h) (fun ret h' => 0 ≤ ret → command.Heeded args h'.log →
        Succeeded (command.uuencoded args) h'.log) (fun _ _ => True) := fun hx =>
    hx.mono (fun ret h₁ hs hle hh => hs.succeeded hstart hle hh.1) (fun _ _ _ => trivial)
  cases command with
  | unlock => exact hsound (ispCmdUnlock_sound 0 h)
  | writeToRam =>
    exact (ispCmdWriteToRam_succeeded args hstart).mono (fun _ _ hs hle _ => hs hle)
      (fun _ _ _ => trivial)
  | readMemory => exact ispCmdReadMemory_succeeded args hstart
  | prepareForWrite => exact hsound (ispCmdSectorsSkel_sound args h (by decide))
  | copyRamToFlash => exact hsound (ispCmdCopyRamToFlash_sound args h)
  | go => exact hsound (ispCmdGo_sound args h)
  | erase => exact hsound (ispCmdSectorsSkel_sound args h (by decide))
  | blankCheck => exact hsound (ispCmdBlankCheck_sound args h)
  | readPartId => exact hsound (readReply_sound 0 15 1 _ h (by decide))
  | readBootVersion => exact hsound (readReply_sound 0 20 2 _ h (by decide))
  | compare => exact hsound (ispCmdCompare_sound args h)
  | readUid => exact hsound (readReply_sound 0 50 4 _ h (by decide))

end LpcTools
