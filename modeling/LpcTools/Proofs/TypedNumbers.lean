import LpcTools.Proofs.CheckBounds
import LpcTools.Proofs.Connecting
import LpcTools.Proofs.RamInput

/-!
# Which requests name the numbers that were typed

A number is parsed as an `unsigned long` and goes into the request as 32 bits of it. Most checks are
made on the one and the request on the other, and the order of two sectors is that of the `int`s they
are stored in.
-/

namespace LpcTools

open Run Decimal

variable {σ : Type}

section Said

/-- All that the host has said. -/
def Talk.sent (t : Talk) : List UInt8 := (t.exchanges.map Prod.fst).flatten

theorem Talk.sent_say (t : Talk) (bs : List UInt8) : (t.say bs).sent = t.sent ++ bs := by
  unfold say
  split_ifs with hh hb
  · simp [sent, exchanges]
  · rw [hb, List.append_nil]
  · simp [sent, exchanges]

theorem Talk.sent_hear (t : Talk) (bs : List UInt8) : (t.hear bs).sent = t.sent := by
  simp [sent, hear, exchanges]

def SaysOn (h h' : Host (σ × Talk)) : Prop := h.env.2.sent <+: h'.env.2.sent

variable {E : Sys σ} {h h' h'' : Host (σ × Talk)} {text : List UInt8}

theorem SaysOn.refl (h : Host (σ × Talk)) : SaysOn h h := List.prefix_rfl

theorem SaysOn.trans (p : SaysOn h h') (q : SaysOn h' h'') : SaysOn h h'' := List.IsPrefix.trans p q

theorem SaysOn.of_write {bs : List UInt8} {r : WriteOutcome} {env : σ × Talk}
    (hw : E.recorded.write h.env bs = (r, env)) (he : h'.env = env) : SaysOn h h' := by
  rw [SaysOn, he, recorded_write hw, Talk.sent_say]
  exact List.prefix_append _ _

theorem ispSerialWrite_saysOn (bs : List UInt8) (h : Host (σ × Talk)) :
    SaysOn h (final (ispSerialWrite E.recorded bs h)) := by
  refine Loop.run_final (R := SaysOn) SaysOn.trans (fun l h => ?_) _ _
  simp only [serialWriteLoop]
  split
  · rename_i nb env hw
    split_ifs <;> exact .of_write hw rfl
  · rename_i env hw
    split_ifs <;> exact .of_write hw rfl
  · rename_i env hw
    exact .of_write hw rfl

theorem ispRetCode_env {S : Type} {E : Sys S} (buf : List UInt8) (quiet : ℤ) (h : Host S) :
    (final (ispRetCode E buf quiet h)).env = h.env := by
  unfold ispRetCode
  rcases strtoul 10 buf with _ | ⟨v, rest⟩
  · rfl
  · simp only []
    by_cases hq : quiet ≠ 1
    · rw [if_pos hq]
      by_cases hlen : errorCodes.length < v % 2 ^ 32
      · rw [if_pos hlen]
        rfl
      · rw [if_neg hlen]
        by_cases hv : v % 2 ^ 32 ≠ 0 ∨ E.traceOn = true
        · rw [if_pos hv]
          rcases errorCodes[v % 2 ^ 32]? with _ | name <;> rfl
        · rw [if_neg hv]
          rfl
    · rw [if_neg hq]
      rfl

/-- Behind a computation nothing is said by what says nothing. -/
theorem bind_sent {α β : Type} {x : Prog (σ × Talk) α} {f : α → Prog (σ × Talk) β}
    {h : Host (σ × Talk)} (hf : ∀ a h', (final (f a h')).env.2.sent = h'.env.2.sent) :
    (final ((x >>= f) h)).env.2.sent = (final (x h)).env.2.sent :=
  final_bind (R := fun s t : Host (σ × Talk) => t.env.2.sent = s.env.2.sent) (fun _ => rfl)
    fun a t _ => hf a t

theorem serialReadLoop_sent (n m : ℕ) (l : ReadLocals) (h : Host (σ × Talk)) :
    (final ((serialReadLoop E.recorded n m).run l h)).env.2.sent = h.env.2.sent := by
  refine Loop.run_final (R := fun h h' : Host (σ × Talk) => h'.env.2.sent = h.env.2.sent)
    (fun p q => Eq.trans q p) (fun l h => ?_) _ _
  have hheard : ∀ {r : ReadOutcome} {env : σ × Talk},
      E.recorded.read h.env (n - l.got.length) = (r, env) → env.2.sent = h.env.2.sent :=
    fun hr => by rw [recorded_read hr, Talk.sent_hear]
  simp only [serialReadLoop]
  split
  · rename_i bs env hr
    split_ifs <;> exact hheard hr
  · rename_i env hr
    split_ifs <;> exact hheard hr
  · rename_i env hr
    exact hheard hr

/-- A read says nothing. -/
theorem ispSerialRead_sent (n m : ℕ) (h : Host (σ × Talk)) :
    (final (ispSerialRead E.recorded n m h)).env.2.sent = h.env.2.sent := by
  unfold ispSerialRead
  split_ifs
  · rfl
  · exact serialReadLoop_sent n m _ h
  · rfl
  · exact serialReadLoop_sent n m _ { h with nextReadChar := 0 }

/-- What has been said stays said. -/
theorem SaysOn.frame (E : Sys σ) : Frame E.recorded SaysOn where
  refl := .refl
  trans := .trans
  write := ispSerialWrite_saysOn
  read := fun n m h => by rw [SaysOn, ispSerialRead_sent]
  counters := fun h _ _ => .refl h
  emit := fun h _ _ => .refl h

end Said

section Told

variable {E : Sys σ} {h h' h'' : Host (σ × Talk)} {text buf : List UInt8} {n : ℕ}
  {unsent silent : ℤ}

/-- The whole message has been said, and perhaps more. -/
def Told (text : List UInt8) (h h' : Host (σ × Talk)) : Prop :=
  h.env.2.sent ++ text <+: h'.env.2.sent

/-- No more than the start of the message has been said. -/
def PartTold (text : List UInt8) (h h' : Host (σ × Talk)) : Prop :=
  ∃ k, h'.env.2.sent = h.env.2.sent ++ text.take k

/-- The line takes all it is given, memory can be allocated, and a file is a byte. -/
structure Obliging (E : Sys σ) : Prop where
  write : ∀ s bs, (E.write s bs).1 = .wrote bs.length
  malloc : ∀ s n, E.malloc s n = true
  load : ∀ h filename, ∃ got, ispFileToBuff E ramMaxSize filename h = .ok (1, got) h

/-- The message has been said, but for what the line would not take of it. -/
def Begun (E : Sys σ) (text : List UInt8) (h h' : Host (σ × Talk)) : Prop :=
  Told text h h' ∨ ¬ Obliging E.recorded ∧ PartTold text h h'

theorem Told.saysOn (p : Told text h h') (q : SaysOn h' h'') : Told text h h'' :=
  List.IsPrefix.trans p q

theorem Told.ne (p : Told text h h') (hne : text ≠ []) : h'.env.2.sent ≠ h.env.2.sent := by
  intro he
  have hlen := p.length_le
  have hpos := List.length_pos_iff.2 hne
  rw [he, List.length_append] at hlen
  omega

/-- A sender has said its message, wholly if it does not fail. -/
def Said {α : Type} (E : Sys σ) (text : List UInt8) (h : Host (σ × Talk)) (val : α → ℤ)
    (r : EStateM.Result Fault (Host (σ × Talk)) α) : Prop :=
  Ends r (fun a h' => Begun E text h h' ∧ (0 ≤ val a → Told text h h')) (fun _ h' => Told text h h')

theorem Said.begun {α : Type} {val : α → ℤ} {r : EStateM.Result Fault (Host (σ × Talk)) α}
    (hr : Said E text h val r) : Begun E text h (final r) := by
  rcases r with ⟨a, h'⟩ | ⟨f, h'⟩
  · exact hr.1
  · exact .inl hr

/-- What follows a sender stops where that has failed. -/
theorem Said.bind {α β : Type} {x : Prog (σ × Talk) α} {f : α → Prog (σ × Talk) β} {val : α → ℤ}
    (hx : Said E text h val (x h)) (hstop : ∀ a h', val a < 0 → final (f a h') = h')
    (hon : ∀ a h', SaysOn h' (final (f a h'))) : Begun E text h (final ((x >>= f) h)) := by
  rcases hrun : x h with ⟨a, h'⟩ | ⟨e, h'⟩ <;> rw [hrun] at hx
  · rw [bind_ok hrun]
    by_cases hneg : val a < 0
    · rw [hstop a h' hneg]
      exact hx.1
    · exact .inl ((hx.2 (Int.not_lt.1 hneg)).saysOn (hon a h'))
  · rw [bind_error hrun]
    exact .inl hx

/-- What follows may leave the line alone. -/
theorem Begun.bind {α β : Type} {x : Prog (σ × Talk) α} {f : α → Prog (σ × Talk) β}
    (hx : Begun E text h (final (x h))) (hf : ∀ a h', (final (f a h')).env = h'.env) :
    Begun E text h (final ((x >>= f) h)) := by
  rcases hrun : x h with ⟨a, h'⟩ | ⟨e, h'⟩ <;> rw [hrun] at hx
  · rw [bind_ok hrun, Begun, Told, PartTold, hf a h']
    exact hx
  · rw [bind_error hrun]
    exact hx

theorem ispBuffToFile_env {E : Sys σ} (data : List Cell) (len : UInt32) (filename : List UInt8)
    (h : Host σ) : (final (ispBuffToFile E data len filename h)).env = h.env := by
  obtain ⟨ret, h', hrun, rfl | ⟨n, -, rfl⟩⟩ := ispBuffToFile_saved (E := E) data len filename h
  · rw [hrun]
    rfl
  · rw [hrun]
    rfl

/-- A write says its message if it returns its length. -/
theorem ispSerialWrite_told (htext : text.length < 2 ^ 31) (h : Host (σ × Talk)) :
    Ends (ispSerialWrite E.recorded text h) (fun n h' =>
      (n = text.length → Told text h h') ∧ (n ≠ text.length → ¬ Obliging E.recorded ∧
        PartTold text h h')) (fun _ _ => False) := by
  have hsaid := ispSerialWrite_said (E := E) htext h
  rcases hwrite : ispSerialWrite E.recorded text h with ⟨n, h'⟩ | ⟨f, h'⟩
  · obtain ⟨-, k, -, hsay, hn⟩ := hsaid.ok hwrite
    have hsent : h'.env.2.sent = h.env.2.sent ++ text.take k := by
      rw [hsay, Talk.sent_say]
    refine ⟨fun he => ?_, fun hne => ⟨fun hall => hne ?_, k, hsent⟩⟩
    · rw [Told, hsent, hn he, List.take_length]
    · obtain ⟨env, hrun⟩ := ispSerialWrite_takes hall.write text h
      rw [hwrite] at hrun
      cases hrun
      exact toInt_of_lt htext
  · exact (hsaid.error hwrite).elim

/-- A sender says nothing but its request. -/
theorem sendRequest_sent (unsent silent quiet : ℤ) (h : Host (σ × Talk)) :
    (final (sendRequest E.recorded text buf n unsent silent quiet h)).env.2.sent =
      (final (ispSerialWrite E.recorded text h)).env.2.sent := by
  have hask : (final (askStatus E.recorded text buf n unsent silent quiet h)).env.2.sent =
      (final (ispSerialWrite E.recorded text h)).env.2.sent := by
    unfold askStatus
    refine bind_sent fun k h₁ => ?_
    by_cases hk : k ≠ text.length
    · rw [if_pos hk]
      rfl
    · rw [if_neg hk]
      refine (bind_sent fun r h₂ => ?_).trans (ispSerialRead_sent n 3 h₁)
      by_cases hlen : r.1 ≤ 0
      · simp only [if_pos hlen]
        rfl
      · simp only [if_neg hlen, final_map, ispRetCode_env]
  exact (bind_sent fun _ _ => rfl).trans hask

/-- A request is all that its sender says. -/
theorem sendRequest_partTold (silent quiet : ℤ) (htext : text.length < 2 ^ 31)
    (h : Host (σ × Talk)) :
    PartTold text h (final (sendRequest E.recorded text buf n unsent silent quiet h)) := by
  have hsaid := ispSerialWrite_said (E := E) htext h
  rcases hwrite : ispSerialWrite E.recorded text h with ⟨k, h'⟩ | ⟨f, h'⟩
  · obtain ⟨-, k, -, hk, -⟩ := hsaid.ok hwrite
    refine ⟨k, ?_⟩
    rw [sendRequest_sent, hwrite, final_ok, hk, Talk.sent_say]
  · exact (hsaid.error hwrite).elim

theorem sendRequest_told (quiet : ℤ) (htext : text.length < 2 ^ 31) (hu : unsent < 0)
    (h : Host (σ × Talk)) :
    Said E text h Answer.ret (sendRequest E.recorded text buf n unsent silent quiet h) := by
  have hask : Said E text h Answer.ret
      (askStatus E.recorded text buf n unsent silent quiet h) := by
    unfold askStatus
    refine Ends.bind ((ispSerialWrite_told htext h).mono (fun _ _ hw => hw) fun _ _ hf => hf.elim) ?_
    rintro k h₁ ⟨hall, hpart⟩
    refine Ends.ite (fun hne => ?_) (fun he => ?_)
    · exact ⟨.inr (hpart hne), fun hret => absurd hret (Int.not_le.2 hu)⟩
    · have htold := hall (not_not.1 he)
      have hrest := (SaysOn.frame E).bind (x := ispSerialRead E.recorded n 3)
        (f := fun r => if r.1 ≤ 0 then pure (Answer.failed silent)
          else .status <$> ispRetCode E.recorded (overlay buf 0 r.2) quiet)
        ((SaysOn.frame E).read n 3 h₁) fun r h₂ _ => by
          split_ifs
          · exact .refl h₂
          · rw [final_map]
            exact (SaysOn.frame E).ispRetCode _ _ h₂
      refine (Ends.of_final (htold.saysOn hrest)).mono ?_ fun _ _ ht => ht
      exact fun a h' ht => ⟨.inl ht, fun _ => ht⟩
  unfold sendRequest
  exact Ends.bind hask fun a h' ha => ha

theorem sendFormatted_told {size : ℕ} (quiet : ℤ) (hlen : text.length < size)
    (hsize : size < 2 ^ 31) (hu : unsent < 0) (h : Host (σ × Talk)) :
    Said E text h Answer.ret (sendFormatted E.recorded size text n unsent silent quiet h) := by
  rw [sendFormatted_eq hlen]
  exact sendRequest_told quiet (by omega) hu h

theorem ispSendCmdTwoArgs_told (cmd : UInt8) (arg1 arg2 : UInt32) (h : Host (σ × Talk)) :
    Said E (twoArgsText cmd arg1.toNat arg2.toNat) h id
      (ispSendCmdTwoArgs E.recorded cmd arg1 arg2 h) := by
  have hlen := twoArgsText_length cmd arg1 arg2
  unfold ispSendCmdTwoArgs
  exact Ends.map (sendFormatted_told 0 (by rw [repBufsize]; omega) (by decide) (by decide) h)

theorem ispSendCmdAddress_told (cmd : UInt8) (addr1 addr2 length : UInt32) (h : Host (σ × Talk)) :
    Begun E (addressText cmd addr1.toNat addr2.toNat length.toNat) h
      (final (ispSendCmdAddress E.recorded cmd addr1 addr2 length h)) := by
  have hlen := addressText_length cmd addr1 addr2 length
  unfold ispSendCmdAddress
  rw [final_map]
  exact (sendFormatted_told 0 (by rw [serialBufsize]; omega) (by decide) (by decide) h).begun

theorem ispSendCmdSectors_told (cmd : UInt8) {first last : ℤ} (quiet : ℤ) (hle : first ≤ last)
    (h : Host (σ × Talk)) :
    Begun E (twoArgsText cmd (toUnsigned first).toNat (toUnsigned last).toNat) h
      (final (ispSendCmdSectors E.recorded cmd first last quiet h)) := by
  have hlen := twoArgsText_length cmd (toUnsigned first) (toUnsigned last)
  unfold ispSendCmdSectors
  rw [if_neg (Int.not_lt.2 hle), final_map]
  exact (sendFormatted_told quiet (by rw [serialBufsize]; omega) (by decide) (by decide) h).begun

theorem ispSendCmdGo_told {addr : UInt32} {mode : UInt8} (haddr : ¬ addr < 0x200)
    (hmode : mode = 'T'.toUInt8 ∨ mode = 'A'.toUInt8) (h : Host (σ × Talk)) :
    Begun E (goText addr.toNat mode) h (final (ispSendCmdGo E.recorded addr mode h)) := by
  have hlen := goText_length addr mode
  have hknown : ¬ (mode ≠ 'T'.toUInt8 ∧ mode ≠ 'A'.toUInt8) := by
    rintro ⟨hT, hA⟩
    exact hmode.elim hT hA
  unfold ispSendCmdGo
  rw [if_neg haddr, if_neg hknown]
  refine (sendFormatted_told 0 (by rw [serialBufsize]; omega) (by decide) (by decide) h).bind ?_ ?_
  · rintro (code | ret) h' - <;> rfl
  · rintro (code | ret) h' <;> exact .refl h'

/-- A transfer that is refused says its request only, and one that is granted says more behind it. -/
theorem transfer_told {β : Type} {f : ℤ → Prog (σ × Talk) β} {cmd : UInt8} {arg1 arg2 : UInt32}
    (hstop : ∀ ret h', ret ≠ 0 → final (f ret h') = h') (hon : ∀ h', SaysOn h' (final (f 0 h')))
    (h : Host (σ × Talk)) : Begun E (twoArgsText cmd arg1.toNat arg2.toNat) h
      (final ((ispSendCmdTwoArgs E.recorded cmd arg1 arg2 >>= f) h)) := by
  refine (ispSendCmdTwoArgs_told _ _ _ h).bind (fun ret h' hneg => ?_) fun ret h' => ?_
  · exact hstop ret h' (Int.ne_of_lt hneg)
  · by_cases hret : ret = 0
    · rw [hret]
      exact hon h'
    · rw [hstop ret h' hret]
      exact .refl h'

theorem ispReadMemory_told (data : List Cell) (addr count : UInt32) (uu : ℕ)
    (h : Host (σ × Talk)) : Begun E (twoArgsText 'R'.toUInt8 addr.toNat count.toNat) h
      (final (ispReadMemory E.recorded data addr count uu h)) := by
  unfold ispReadMemory
  refine transfer_told (fun ret h' hret => ?_) (fun h' => ?_) h
  · rw [if_pos hret]
    rfl
  · rw [if_neg (not_not.2 rfl)]
    by_cases huu : uu = 0
    · rw [if_pos huu]
      exact (SaysOn.frame E).readRaw _ _ h'
    · rw [if_neg huu, bind_ok (uninit_apply _ _ _)]
      exact (SaysOn.frame E).receiveLoop _ _ _ h'

theorem ispSendBufToRam_told (data : Mem) (addr : ℕ) (count : UInt32) (uu : ℕ)
    (h : Host (σ × Talk)) :
    Begun E (twoArgsText 'W'.toUInt8 (UInt32.ofNat addr).toNat count.toNat) h
      (final (ispSendBufToRam E.recorded data addr count uu h)) := by
  unfold ispSendBufToRam
  refine transfer_told (fun ret h' hret => ?_) (fun h' => ?_) h
  · rw [if_pos hret]
    rfl
  · rw [if_neg (not_not.2 rfl)]
    by_cases huu : uu = 0
    · rw [if_pos huu]
      rcases (List.range count.toNat).mapM data with _ | bs
      · exact .refl h'
      · exact (SaysOn.frame E).bind ((SaysOn.frame E).write bs h') fun n h'' _ => .refl h''
    · rw [if_neg huu]
      exact (SaysOn.frame E).sendLoop _ _ _ _ h'

end Told

/-- The calls that put numbers that were typed into a request. -/
inductive NumericCall where
  | readMemory (args : List (List UInt8))
  | writeToRam (args : List (List UInt8))
  | addressWrapper (args : List (List UInt8)) (cmd : UInt8)
  | go (args : List (List UInt8))
  | sectorsSkel (args : List (List UInt8)) (cmd : UInt8)

namespace NumericCall

def call (E : Sys σ) : NumericCall → Prog σ ℤ
  | readMemory args => ispCmdReadMemory E args
  | writeToRam args => ispCmdWriteToRam E args
  | addressWrapper args cmd => ispCmdAddressWrapper E args cmd
  | go args => ispCmdGo E args
  | sectorsSkel args cmd => ispCmdSectorsSkel E args cmd

/-- The addresses, counts and sector numbers among the arguments. -/
def typed : NumericCall → List ℕ
  | readMemory args => (args.take 2).map argValue
  | writeToRam args => (args.take 1).map argValue
  | addressWrapper args _ => args.map argValue
  | go args => (args.take 1).map argValue
  | sectorsSkel args _ => args.map argValue

def Fits (c : NumericCall) : Prop := ∀ v ∈ c.typed, v < 2 ^ 32

def InOrder : NumericCall → Prop
  | sectorsSkel [arg₀, arg₁] _ => argValue arg₀ ≤ argValue arg₁
  | _ => True

/-- The request names the numbers as they were parsed. How many bytes of a file are sent is not typed. -/
def Names : NumericCall → List UInt8 → Prop
  | readMemory (arg₀ :: arg₁ :: _), text =>
    text = twoArgsText 'R'.toUInt8 (argValue arg₀) (argValue arg₁)
  | writeToRam (arg₀ :: _), text => ∃ count, text = twoArgsText 'W'.toUInt8 (argValue arg₀) count
  | addressWrapper [arg₀, arg₁, arg₂] cmd, text =>
    text = addressText cmd (argValue arg₀) (argValue arg₁) (argValue arg₂)
  | go (arg₀ :: _), text => ∃ mode, text = goText (argValue arg₀) mode
  | sectorsSkel [arg₀, arg₁] cmd, text => text = twoArgsText cmd (argValue arg₀) (argValue arg₁)
  | _, _ => False

/-- The arguments that the checks of the call refuse: of the address to go to and of the sectors those
of the sender are all there are, and they see 32 bits of each. -/
def Refuses : NumericCall → Prop
  | readMemory (arg₀ :: arg₁ :: _ :: _) => argValue arg₀ % 4 ≠ 0 ∨ argValue arg₁ % 4 ≠ 0
  | writeToRam (arg₀ :: _ :: _) => argValue arg₀ % 4 ≠ 0
  | addressWrapper [arg₀, arg₁, arg₂] cmd =>
    if cmd = 'M'.toUInt8 then
      argValue arg₀ % 4 ≠ 0 ∨ argValue arg₁ % 4 ≠ 0 ∨ argValue arg₂ % 4 ≠ 0
    else if cmd = 'C'.toUInt8 then
      argValue arg₀ % 256 ≠ 0 ∨ argValue arg₁ % 4 ≠ 0 ∨ bit (argValue arg₂) 8 +
        bit (argValue arg₂) 9 + bit (argValue arg₂) 10 + bit (argValue arg₂) 12 ≠ 1
    else True
  | go [arg₀, mode] =>
    argValue arg₀ % 2 ^ 32 < 0x200 ∨ ¬ startOf mode (bytes ['t', 'h', 'u', 'm', 'b']) ∧
      ¬ startOf mode (bytes ['a', 'r', 'm'])
  | sectorsSkel [arg₀, arg₁] _ => toInt (argValue arg₁) < toInt (argValue arg₀)
  | _ => True

/-- The call has put nothing on the line, and has failed. -/
def Quiet (c : NumericCall) (E : Sys σ) (h : Host (σ × Talk)) : Prop :=
  (final (c.call E.recorded h)).env.2.sent = h.env.2.sent ∧
    ∃ ret < 0, value (c.call E.recorded h) = some ret

/-- Whatever the system, what the call puts on the line is a request that names the numbers typed, and
then they are in order and fit, or nothing. -/
def NamesTyped (c : NumericCall) : Prop :=
  ∀ {σ : Type} (E : Sys σ) (h : Host (σ × Talk)), c.Quiet E h ∨
    c.Fits ∧ c.InOrder ∧ ∃ text, c.Names text ∧
      (Told text h (final (c.call E.recorded h)) ∨ PartTold text h (final (c.call E.recorded h)))

section Calls

-- their equations are made here, once for the proofs below
attribute [local simp] call typed Fits InOrder Names Refuses

variable {c : NumericCall} {E : Sys σ} {h : Host (σ × Talk)}

theorem toNat_ofNat_of_lt {n : ℕ} (hn : n < 2 ^ 32) : (UInt32.ofNat n).toNat = n := by
  rw [UInt32.toNat_ofNat', Nat.mod_eq_of_lt hn]

theorem refuses_readMemory {S : Type} {E : Sys S} {args : List (List UInt8)}
    (hc : (readMemory args).Refuses) (h : Host S) :
    ∃ ret < 0, ispCmdReadMemory E args h = .ok ret h := by
  rcases args with _ | ⟨arg₀, _ | ⟨arg₁, _ | ⟨filename, rest⟩⟩⟩
  · exact ⟨-12, by decide, rfl⟩
  · exact ⟨-12, by decide, rfl⟩
  · exact ⟨-12, by decide, rfl⟩
  · simp only [Refuses] at hc
    refine ⟨-11, by decide, ?_⟩
    simp only [ispCmdReadMemory, if_pos hc]
    rfl

theorem refuses_writeToRam {S : Type} {E : Sys S} {args : List (List UInt8)}
    (hc : (writeToRam args).Refuses) (h : Host S) :
    ∃ ret < 0, ispCmdWriteToRam E args h = .ok ret h := by
  rcases args with _ | ⟨arg₀, _ | ⟨filename, rest⟩⟩
  · exact ⟨-15, by decide, rfl⟩
  · exact ⟨-15, by decide, rfl⟩
  · simp only [Refuses] at hc
    refine ⟨-14, by decide, ?_⟩
    simp only [ispCmdWriteToRam, if_pos hc]
    rfl

theorem refuses_addressWrapper {S : Type} {E : Sys S} {args : List (List UInt8)} {cmd : UInt8}
    (hc : (addressWrapper args cmd).Refuses) (h : Host S) :
    ∃ ret < 0, ispCmdAddressWrapper E args cmd h = .ok ret h := by
  rcases args with _ | ⟨arg₀, _ | ⟨arg₁, _ | ⟨arg₂, _ | ⟨arg₃, rest⟩⟩⟩⟩
  · exact ⟨-7, by decide, rfl⟩
  · exact ⟨-7, by decide, rfl⟩
  · exact ⟨-7, by decide, rfl⟩
  · simp only [Refuses] at hc
    simp only [ispCmdAddressWrapper]
    by_cases hM : cmd = 'M'.toUInt8
    · rw [if_pos hM] at hc
      rw [if_pos hM, if_pos hc]
      exact ⟨-7, by decide, rfl⟩
    · rw [if_neg hM] at hc
      rw [if_neg hM]
      by_cases hC : cmd = 'C'.toUInt8
      · rw [if_pos hC, ← or_assoc] at hc
        rw [if_pos hC]
        by_cases halign : argValue arg₀ % 256 ≠ 0 ∨ argValue arg₁ % 4 ≠ 0
        · rw [if_pos halign]
          exact ⟨-8, by decide, rfl⟩
        · rw [if_neg halign, if_pos (hc.resolve_left halign)]
          exact ⟨-7, by decide, rfl⟩
      · rw [if_neg hC]
        exact ⟨-6, by decide, rfl⟩
  · exact ⟨-7, by decide, rfl⟩

theorem refuses_go {S : Type} {E : Sys S} {args : List (List UInt8)} (hc : (go args).Refuses)
    (h : Host S) : ∃ ret < 0, ispCmdGo E args h = .ok ret h := by
  rcases args with _ | ⟨arg₀, _ | ⟨mode, _ | ⟨arg₂, rest⟩⟩⟩
  · exact ⟨-7, by decide, rfl⟩
  · exact ⟨-7, by decide, rfl⟩
  · have hlow (mode : UInt8) (hlt : argValue arg₀ % 2 ^ 32 < 0x200) :
        ispSendCmdGo E (UInt32.ofNat (argValue arg₀)) mode h = .ok (-6) h := by
      unfold ispSendCmdGo
      rw [if_pos (by rw [UInt32.lt_iff_toNat_lt, UInt32.toNat_ofNat']; exact hlt)]
      rfl
    simp only [Refuses] at hc
    simp only [ispCmdGo]
    split_ifs with haddr hthumb harm
    · exact ⟨-6, by decide, rfl⟩
    · exact ⟨-6, by decide, hlow _ (hc.resolve_right fun hno => hno.1 hthumb)⟩
    · exact ⟨-6, by decide, hlow _ (hc.resolve_right fun hno => hno.2 harm)⟩
    · exact ⟨-5, by decide, rfl⟩
  · exact ⟨-7, by decide, rfl⟩

theorem refuses_sectorsSkel {S : Type} {E : Sys S} {args : List (List UInt8)} {cmd : UInt8}
    (hc : (sectorsSkel args cmd).Refuses) (h : Host S) :
    ∃ ret < 0, ispCmdSectorsSkel E args cmd h = .ok ret h := by
  rcases args with _ | ⟨arg₀, _ | ⟨arg₁, _ | ⟨arg₂, rest⟩⟩⟩
  · exact ⟨-7, by decide, rfl⟩
  · exact ⟨-7, by decide, rfl⟩
  · simp only [Refuses] at hc
    refine ⟨-6, by decide, ?_⟩
    simp only [ispCmdSectorsSkel, ispSendCmdSectors, if_pos hc]
    rfl
  · exact ⟨-7, by decide, rfl⟩

/-- What the checks refuse is not sent. -/
theorem Refuses.call {S : Type} {E : Sys S} (hc : c.Refuses) (h : Host S) :
    ∃ ret < 0, c.call E h = .ok ret h := by
  cases c with
  | readMemory args => exact refuses_readMemory hc h
  | writeToRam args => exact refuses_writeToRam hc h
  | addressWrapper args cmd => exact refuses_addressWrapper hc h
  | go args => exact refuses_go hc h
  | sectorsSkel args cmd => exact refuses_sectorsSkel hc h

/-- A request goes out, with the numbers cut to 32 bits: it names them where they fit. -/
def Requests (c : NumericCall) (E : Sys σ) (h : Host (σ × Talk)) : Prop :=
  ∃ text, text ≠ [] ∧ (c.Fits → c.Names text) ∧ Begun E text h (final (c.call E.recorded h))

/-- The call fails for want of memory or of a file. -/
def Hindered (c : NumericCall) (E : Sys σ) (h : Host (σ × Talk)) : Prop :=
  ¬ Obliging E.recorded ∧ ∃ ret < 0, c.call E.recorded h = .ok ret h

theorem requests_readMemory {args : List (List UInt8)} (hc : ¬ (readMemory args).Refuses)
    (h : Host (σ × Talk)) : (readMemory args).Requests E h ∨ (readMemory args).Hindered E h := by
  rcases args with _ | ⟨arg₀, _ | ⟨arg₁, _ | ⟨filename, rest⟩⟩⟩
  · exact absurd trivial hc
  · exact absurd trivial hc
  · exact absurd trivial hc
  · simp only [Refuses] at hc
    simp only [Requests, Hindered, call, ispCmdReadMemory, if_neg hc]
    rw [bind_ok (get_apply _)]
    by_cases hm : E.recorded.malloc h.env (argValue arg₁) = true
    · left
      simp only [hm, Bool.not_true, Bool.false_eq_true, if_false]
      refine ⟨_, ?_, fun hfit => ?_, (ispReadMemory_told _ _ _ _ h).bind ?_⟩
      · exact List.cons_ne_nil _ _
      · simp only [Fits, typed, List.take, List.map, List.mem_cons, forall_eq_or_imp] at hfit
        simp only [Names, toNat_ofNat_of_lt hfit.1, toNat_ofNat_of_lt hfit.2.1]
      · exact fun r h' => ispBuffToFile_env _ _ _ h'
    · right
      refine ⟨fun hall => hm (hall.malloc _ _), -10, by decide, ?_⟩
      simp only [Bool.not_eq_true] at hm
      simp only [hm]
      rfl

theorem requests_writeToRam {args : List (List UInt8)} (hc : ¬ (writeToRam args).Refuses)
    (h : Host (σ × Talk)) : (writeToRam args).Requests E h ∨ (writeToRam args).Hindered E h := by
  rcases args with _ | ⟨arg₀, _ | ⟨filename, rest⟩⟩
  · exact absurd trivial hc
  · exact absurd trivial hc
  · simp only [Refuses, not_not] at hc
    obtain ⟨⟨ret, got⟩, hload⟩ := ispFileToBuff_eq (E := E.recorded) ramMaxSize filename h
    simp only [Requests, Hindered, call]
    rw [ispCmdWriteToRam_load hc hload]
    by_cases hret : (toUnsigned ret).toNat = 0
    · right
      rw [if_pos hret]
      refine ⟨fun hall => ?_, -13, by decide, rfl⟩
      obtain ⟨got', hone⟩ := hall.load h filename
      rw [hload] at hone
      cases hone
      exact absurd hret (by decide)
    · left
      rw [if_neg hret]
      refine ⟨_, ?_, fun hfit => ?_, ispSendBufToRam_told _ _ _ _ h⟩
      · exact List.cons_ne_nil _ _
      · simp only [Fits, typed, List.take, List.map, List.mem_cons, forall_eq_or_imp] at hfit
        exact ⟨_, by rw [toNat_ofNat_of_lt hfit.1]⟩

/-- Behind its checks the wrapper is the sender. -/
theorem ispCmdAddressWrapper_sends {S : Type} {E : Sys S} {arg₀ arg₁ arg₂ : List UInt8} {cmd : UInt8}
    (hc : ¬ (addressWrapper [arg₀, arg₁, arg₂] cmd).Refuses) (h : Host S) :
    ispCmdAddressWrapper E [arg₀, arg₁, arg₂] cmd h =
      ispSendCmdAddress E cmd (UInt32.ofNat (argValue arg₀)) (UInt32.ofNat (argValue arg₁))
        (UInt32.ofNat (argValue arg₂)) h := by
  simp only [Refuses] at hc
  simp only [ispCmdAddressWrapper]
  by_cases hM : cmd = 'M'.toUInt8
  · rw [if_pos hM] at hc
    rw [if_pos hM, if_neg hc]
  · rw [if_neg hM] at hc
    rw [if_neg hM]
    by_cases hC : cmd = 'C'.toUInt8
    · rw [if_pos hC, ← or_assoc, not_or] at hc
      rw [if_pos hC, if_neg hc.1, if_neg hc.2]
    · rw [if_neg hC] at hc
      exact absurd trivial hc

theorem requests_addressWrapper {args : List (List UInt8)} {cmd : UInt8}
    (hc : ¬ (addressWrapper args cmd).Refuses) (h : Host (σ × Talk)) :
    (addressWrapper args cmd).Requests E h := by
  rcases args with _ | ⟨arg₀, _ | ⟨arg₁, _ | ⟨arg₂, _ | ⟨arg₃, rest⟩⟩⟩⟩
  · exact absurd trivial hc
  · exact absurd trivial hc
  · exact absurd trivial hc
  · simp only [Requests, call, ispCmdAddressWrapper_sends hc]
    refine ⟨_, ?_, fun hfit => ?_, ispSendCmdAddress_told _ _ _ _ h⟩
    · exact List.cons_ne_nil _ _
    · simp only [Fits, typed, List.map, List.mem_cons, forall_eq_or_imp] at hfit
      simp only [Names, toNat_ofNat_of_lt hfit.1, toNat_ofNat_of_lt hfit.2.1,
        toNat_ofNat_of_lt hfit.2.2.1]
  · exact absurd trivial hc

theorem requests_go {args : List (List UInt8)} (hc : ¬ (go args).Refuses)
    (h : Host (σ × Talk)) : (go args).Requests E h := by
  rcases args with _ | ⟨arg₀, _ | ⟨mode, _ | ⟨arg₂, rest⟩⟩⟩
  · exact absurd trivial hc
  · exact absurd trivial hc
  · simp only [Refuses, not_or] at hc
    obtain ⟨hlow, hmode⟩ := hc
    have haddr : ¬ UInt32.ofNat (argValue arg₀) < 0x200 := by
      rw [UInt32.lt_iff_toNat_lt, UInt32.toNat_ofNat']
      exact hlow
    obtain ⟨m, hknown, hsend⟩ : ∃ m, (m = 'T'.toUInt8 ∨ m = 'A'.toUInt8) ∧
        ispCmdGo E.recorded [arg₀, mode] h =
          ispSendCmdGo E.recorded (UInt32.ofNat (argValue arg₀)) m h := by
      simp only [ispCmdGo]
      split_ifs with hmin hthumb harm
      · exact absurd (Nat.lt_of_le_of_lt (Nat.mod_le _ _) hmin) hlow
      · exact ⟨_, .inl rfl, rfl⟩
      · exact ⟨_, .inr rfl, rfl⟩
      · exact absurd ⟨hthumb, harm⟩ hmode
    simp only [Requests, call, hsend]
    refine ⟨_, ?_, fun hfit => ?_, ispSendCmdGo_told haddr hknown h⟩
    · exact List.cons_ne_nil _ _
    · simp only [Fits, typed, List.take, List.map, List.mem_cons, forall_eq_or_imp] at hfit
      exact ⟨m, by rw [toNat_ofNat_of_lt hfit.1]⟩
  · exact absurd trivial hc

theorem requests_sectorsSkel {args : List (List UInt8)} {cmd : UInt8}
    (hc : ¬ (sectorsSkel args cmd).Refuses) (h : Host (σ × Talk)) :
    (sectorsSkel args cmd).Requests E h := by
  rcases args with _ | ⟨arg₀, _ | ⟨arg₁, _ | ⟨arg₂, rest⟩⟩⟩
  · exact absurd trivial hc
  · exact absurd trivial hc
  · refine ⟨_, ?_, fun hfit => ?_, ispSendCmdSectors_told cmd 0 (Int.not_lt.1 hc) h⟩
    · exact List.cons_ne_nil _ _
    · simp only [Fits, typed, List.map, List.mem_cons, forall_eq_or_imp] at hfit
      simp only [Names, toUnsigned_toInt, toNat_ofNat_of_lt hfit.1, toNat_ofNat_of_lt hfit.2.1]
  · exact absurd trivial hc

/-- What the checks do not refuse goes out in a request, unless the file cannot be loaded or memory
not be allocated. -/
theorem requests_of_not_refuses (hc : ¬ c.Refuses) (h : Host (σ × Talk)) :
    c.Requests E h ∨ c.Hindered E h := by
  cases c with
  | readMemory args => exact requests_readMemory hc h
  | writeToRam args => exact requests_writeToRam hc h
  | addressWrapper args cmd => exact .inl (requests_addressWrapper hc h)
  | go args => exact .inl (requests_go hc h)
  | sectorsSkel args cmd => exact .inl (requests_sectorsSkel hc h)

/-- A system on which a call that is not refused gets its request out. -/
def obligingSys (σ : Type) : Sys σ :=
  { Sys.plain σ with
    write := fun s bs => (.wrote bs.length, s)
    openInput := fun _ _ => some [.data [65]]
    stdin := fun _ => [.data [65]]
    write_le := by
      intro s bs n t h
      cases h
      exact Nat.le_refl _
    write_pos := by
      intro s bs n t h hne
      cases h
      exact List.length_pos_iff.2 hne }

theorem obligingSys_obliging (σ : Type) : Obliging (obligingSys σ).recorded where
  write := fun _ _ => rfl
  malloc := fun _ _ => rfl
  load := by
    intro h filename
    unfold ispFileToBuff
    rw [bind_ok (get_apply _)]
    split_ifs <;> exact ⟨[65], rfl⟩

/-- What goes out where the checks let it fits and is in order, if it names what was typed. -/
theorem NamesTyped.fits (hnames : c.NamesTyped) (hc : ¬ c.Refuses) : c.Fits ∧ c.InOrder := by
  have hall := obligingSys_obliging Unit
  rcases hnames (obligingSys Unit) (.start ((), .quiet) 0 0 0) with ⟨hquiet, -⟩ | ⟨hfit, hle, -⟩
  · rcases requests_of_not_refuses (E := obligingSys Unit) hc (.start ((), .quiet) 0 0 0) with
      ⟨text, hne, -, htold | ⟨hnot, -⟩⟩ | ⟨hnot, -⟩
    · exact absurd hquiet (htold.ne hne)
    · exact absurd hall hnot
    · exact absurd hall hnot
  · exact ⟨hfit, hle⟩

end Calls

/-- A call names what was typed exactly when its checks refuse it, or the numbers fit 32 bits and
sectors are in order. -/
theorem namesTyped_iff (c : NumericCall) : c.NamesTyped ↔ c.Refuses ∨ c.Fits ∧ c.InOrder := by
  constructor
  · intro hnames
    by_cases hc : c.Refuses
    · exact .inl hc
    · exact .inr (hnames.fits hc)
  · intro hcond σ E h
    by_cases hc : c.Refuses
    · obtain ⟨ret, hneg, hrun⟩ := hc.call (E := E.recorded) h
      exact .inl ⟨by rw [hrun]; rfl, ret, hneg, by rw [hrun]; rfl⟩
    · obtain ⟨hfit, hle⟩ := hcond.resolve_left hc
      rcases requests_of_not_refuses (E := E) hc h with
        ⟨text, -, hnamed, hbegun⟩ | ⟨-, ret, hneg, hrun⟩
      · exact .inr ⟨hfit, hle, text, hnamed hfit, hbegun.imp id And.right⟩
      · exact .inl ⟨by rw [hrun]; rfl, ret, hneg, by rw [hrun]; rfl⟩

/-- Memory from 4294967296 on is asked for as memory from 0 on, and an erase of sectors 3000000000 to 5
is asked for. -/
theorem namesTyped_wrapped :
    let E := (scripted fun _ => 100).sys (Sys.plain _)
    let h := Host.start (.quiet [statusText 1], .quiet) 0 0 0
    let high := readMemory [bytes "4294967296".toList, bytes "4".toList, bytes "f".toList]
    let reversed := sectorsSkel [bytes "3000000000".toList, bytes "5".toList] 'E'.toUInt8
    (final (high.call E.recorded h)).env.2.sent = bytes "R 0 4\r\n".toList ∧
      (final (reversed.call E.recorded h)).env.2.sent = bytes "E 3000000000 5\r\n".toList ∧
      ¬ high.NamesTyped ∧ ¬ reversed.NamesTyped := by
  intro E h high reversed
  refine ⟨by decide +kernel, by decide +kernel, fun hnames => ?_, fun hnames => ?_⟩
  · have hc : ¬ high.Refuses := by
      simp only [high, Refuses]
      decide
    have hlt : argValue (bytes "4294967296".toList) < 2 ^ 32 :=
      (hnames.fits hc).1 _ List.mem_cons_self
    exact absurd hlt (by decide)
  · have hc : ¬ reversed.Refuses := by
      simp only [reversed, Refuses]
      decide
    have hle : argValue (bytes "3000000000".toList) ≤ argValue (bytes "5".toList) :=
      (hnames.fits hc).2
    exact absurd hle (by decide)

end NumericCall

end LpcTools
