import LpcTools.Proofs.ProgVerdicts
import LpcTools.Proofs.ReadSafety
import LpcTools.Proofs.TypedNumbers

/-!
# Where `start_prog` jumps to

A status of 4 for the read of the reset vector passes for four bytes of it, and the address is then
what it was before: 0, which the sender of the request refuses. No other request has the letter of this
one in it.
-/

namespace LpcTools

open Run Decimal Uuencode

variable {σ : Type} {E : Sys σ}

section Unsaid

/-- Of what has been said since, nothing has this letter in it. -/
def Unsaid (c : UInt8) (h h' : Host (σ × Talk)) : Prop :=
  ∃ s, h'.env.2.sent = h.env.2.sent ++ s ∧ c ∉ s

variable {c : UInt8} {h h' h'' : Host (σ × Talk)} {text buf : List UInt8}

theorem Unsaid.of_sent (he : h'.env.2.sent = h.env.2.sent) : Unsaid c h h' :=
  ⟨[], by rw [he, List.append_nil], List.not_mem_nil⟩

theorem Unsaid.refl (h : Host (σ × Talk)) : Unsaid c h h := .of_sent rfl

theorem Unsaid.trans (p : Unsaid c h h') (q : Unsaid c h' h'') : Unsaid c h h'' := by
  obtain ⟨s, hs, hc⟩ := p
  obtain ⟨s', hs', hc'⟩ := q
  refine ⟨s ++ s', by rw [hs', hs, List.append_assoc], fun hm => ?_⟩
  exact (List.mem_append.1 hm).elim hc hc'

theorem Unsaid.bind {α β : Type} {x : Prog (σ × Talk) α} {f : α → Prog (σ × Talk) β}
    (hx : Unsaid c h (final (x h))) (hf : ∀ a h', Unsaid c h' (final (f a h'))) :
    Unsaid c h (final ((x >>= f) h)) :=
  bind_final (R := Unsaid c) Unsaid.trans hx fun a h' _ => hf a h'

theorem ispSerialRead_unsaid (n m : ℕ) (h : Host (σ × Talk)) :
    Unsaid c h (final (ispSerialRead E.recorded n m h)) := .of_sent (ispSerialRead_sent n m h)

theorem PartTold.unsaid (p : PartTold text h h') (hc : c ∉ text) : Unsaid c h h' := by
  obtain ⟨k, hk⟩ := p
  exact ⟨text.take k, hk, fun hm => hc (List.mem_of_mem_take hm)⟩

theorem ispSerialWrite_unsaid (hc : c ∉ text) (htext : text.length < 2 ^ 31) (h : Host (σ × Talk)) :
    Unsaid c h (final (ispSerialWrite E.recorded text h)) := by
  have hsaid := ispSerialWrite_said (E := E) htext h
  rcases hwrite : ispSerialWrite E.recorded text h with ⟨n, h'⟩ | ⟨f, h'⟩
  · obtain ⟨-, k, -, hk, -⟩ := hsaid.ok hwrite
    exact PartTold.unsaid ⟨k, by rw [final_ok, hk, Talk.sent_say]⟩ hc
  · exact (hsaid.error hwrite).elim

theorem decimal_not_mem {c : UInt8} (hc : ∀ d < 10, digit d ≠ c) (n : ℕ) : c ∉ decimal n := by
  obtain ⟨d, ds, hlt, hl, -⟩ := decimal_digits n
  rw [hl]
  intro hm
  obtain ⟨e, he, rfl⟩ := List.mem_map.1 hm
  exact hc e (hlt e he) rfl

theorem ispCmdUnlock_unsaid (quiet : ℤ) (hc : c ∉ unlock) (h : Host (σ × Talk)) :
    Unsaid c h (final (ispCmdUnlock E.recorded quiet h)) := by
  unfold ispCmdUnlock ispSendCmdNoArgs
  refine Unsaid.bind ?_ fun ret h₁ => .refl h₁
  rw [bind_ok (uninit_apply _ _ _), final_map]
  exact (sendRequest_partTold _ _ (by decide) h).unsaid hc

theorem readRaw_unsaid (data : List Cell) (count : ℕ) (h : Host (σ × Talk)) :
    Unsaid c h (final (readRaw E.recorded data count h)) := by
  have hstore : ∀ (data : List Cell) (k : ℕ) (new : List UInt8) (h : Host (σ × Talk)),
      Unsaid c h (final (store data k new h)) := by
    intro data k new h
    unfold store
    split_ifs <;> exact .refl h
  unfold readRaw
  refine Unsaid.bind (ispSerialRead_unsaid _ _ h) fun r h₁ => ?_
  refine Unsaid.bind (.refl h₁) fun _ h₂ => Unsaid.bind (hstore _ _ _ h₂) fun data₁ h₃ => ?_
  by_cases hlen : r.1 ≤ 0
  · rw [if_pos hlen]
    exact .refl h₃
  · rw [if_neg hlen]
    by_cases hcount : r.1 = toInt count
    · rw [if_pos hcount]
      exact .refl h₃
    · rw [if_neg hcount]
      refine Unsaid.bind (ispSerialRead_unsaid _ _ h₃) fun r' h₄ => ?_
      refine Unsaid.bind (.refl h₄) fun _ h₅ => Unsaid.bind (hstore _ _ _ h₅) fun data₂ h₆ => ?_
      split_ifs <;> exact .refl h₆

theorem receiveBlock_unsaid (blocksize : ℕ) (buf : List UInt8) (h : Host (σ × Talk)) :
    Unsaid c h (final (receiveBlock E.recorded blocksize buf h)) := by
  unfold receiveBlock
  refine Unsaid.bind (ispSerialRead_unsaid _ _ h) fun r h₁ => ?_
  by_cases hlen : r.1 ≤ 0
  · simp only [if_pos hlen]
    exact .refl h₁
  · simp only [if_neg hlen]
    refine Unsaid.bind (ispSerialRead_unsaid _ _ h₁) fun r' h₂ => ?_
    by_cases hmore : r.1 + r'.1 < 0
    · simp only [if_pos hmore]
      exact .refl h₂
    · simp only [if_neg hmore]
      exact .refl h₂

theorem answerBlock_unsaid (hok : c ∉ dataBlockOk) (hresend : c ∉ dataBlockResend)
    (l : ReceiveLocals) (decoded : List UInt8) (correct : Bool) (h : Host (σ × Talk)) :
    Unsaid c h (final (answerBlock E.recorded l decoded correct h)) := by
  unfold answerBlock
  rcases correct with _ | _
  · simp only [Bool.false_eq_true, if_false]
    refine Unsaid.bind (.refl h) fun _ h₁ => ?_
    rw [bind_ok (get_apply _)]
    by_cases hc : 3 < h₁.resendRequestForBlock
    · rw [if_pos hc]
      exact .refl h₁
    · rw [if_neg hc]
      refine Unsaid.bind (ispSerialWrite_unsaid hresend (by decide) h₁) fun n h₂ => ?_
      split_ifs <;> exact .refl h₂
  · simp only [if_true]
    refine Unsaid.bind (.refl h) fun _ h₁ => ?_
    refine Unsaid.bind (ispSerialWrite_unsaid hok (by decide) h₁) fun n h₂ => ?_
    split_ifs <;> exact .refl h₂

theorem receiveLoop_unsaid (hok : c ∉ dataBlockOk) (hresend : c ∉ dataBlockResend)
    (count blocks : UInt32) (l : ReceiveLocals) (h : Host (σ × Talk)) :
    Unsaid c h (final ((receiveLoop E.recorded count blocks).run l h)) := by
  refine Loop.run_final (R := Unsaid c) Unsaid.trans (fun l h => ?_) l h
  change Unsaid c h (final (receiveTurn E.recorded count blocks l h))
  unfold receiveTurn
  by_cases hi : l.i < blocks
  · rw [if_pos hi]
    refine Unsaid.bind (receiveBlock_unsaid _ _ h) fun received h₁ => ?_
    rcases received with _ | buf
    · exact .refl h₁
    · refine Unsaid.bind (.of_sent (by rw [decodeBlock_final]; rfl)) fun r h₂ => ?_
      exact answerBlock_unsaid hok hresend _ _ _ h₂
  · rw [if_neg hi]
    exact .refl h

theorem ispReadMemory_unsaid (hdigit : ∀ d < 10, digit d ≠ c)
    (hc : c ∉ 'R'.toUInt8 :: ' '.toUInt8 :: crlf ++ dataBlockOk ++ dataBlockResend)
    (data : List Cell) (addr count : UInt32) (uu : ℕ) (h : Host (σ × Talk)) :
    Unsaid c h (final (ispReadMemory E.recorded data addr count uu h)) := by
  obtain ⟨buf, hask⟩ := ispSendCmdTwoArgs_eq (E := E.recorded) 'R'.toUInt8 addr count h
  have htext : c ∉ twoArgsText 'R'.toUInt8 addr.toNat count.toNat := by
    have hnum := decimal_not_mem hdigit
    simp only [List.mem_cons, List.mem_append, not_or] at hc
    simp only [twoArgsText, List.mem_cons, List.mem_append, not_or]
    exact ⟨hc.1.1.1, hc.1.1.2.1, hnum _, hc.1.1.2.1, hnum _, hc.1.1.2.2⟩
  have hlen := twoArgsText_length 'R'.toUInt8 addr count
  unfold ispReadMemory
  refine Unsaid.bind ?_ fun ret h₁ => ?_
  · rw [hask, final_map]
    exact (sendRequest_partTold _ _ (by omega) h).unsaid htext
  · by_cases hret : ret ≠ 0
    · rw [if_pos hret]
      exact .refl h₁
    · rw [if_neg hret]
      by_cases huu : uu = 0
      · rw [if_pos huu]
        exact readRaw_unsaid _ _ h₁
      · rw [if_neg huu, bind_ok (uninit_apply _ _ _)]
        simp only [List.mem_append, not_or] at hc
        exact receiveLoop_unsaid hc.1.2 hc.2 _ _ _ h₁

end Unsaid

section Vector

variable {h : Host σ} {text : List UInt8} {uu : ℕ} {r : ℤ × List Cell}

theorem bytes_of_four {l : List UInt8} (hlen : l.length = 4) : ∃ a b c d, l = [a, b, c, d] := by
  obtain ⟨a, l, rfl⟩ := List.exists_cons_of_length_eq_add_one hlen
  obtain ⟨b, c, d, rfl⟩ := List.length_eq_three.1 (Nat.succ.inj hlen)
  exact ⟨a, b, c, d, rfl⟩

/-- Four bytes have been received, or the read was refused with a status of 4. -/
theorem ReadEnds.four {data : List Cell} (hdata : data.length = 4) (hr : ReadEnds text 4 uu data r h)
    (hlen : r.1 = 4) : r.2 = data ∨ h.offLine = [.request text (.status 0)] ∧
      ∃ a b c d, tookBytes h.log = [a, b, c, d] ∧ r.2 = [some a, some b, some c, some d] := by
  rw [← tookBytes_seen]
  rcases hr with ⟨-, -, -, -, -⟩ | ⟨-, htaken, hseen, hr⟩ | ⟨-, hoff, hr⟩
  · exact .inl rfl
  · rename_i es
    have htook : tookBytes h.seen = tookBytes es := by
      rw [hseen, ← List.singleton_append, tookBytes_append]
      rfl
    have hfits := hr.fits
    have hlength : (tookBytes es).length = 4 := by
      have := hr.sign
      omega
    have hnone : es.filter (fun e => !e.onLine) = [] := by
      rw [List.filter_eq_nil_iff]
      intro e he
      obtain ⟨bs, rfl⟩ := htaken e he
      simp [Event.onLine]
    obtain ⟨a, b, c, d, hbytes⟩ := bytes_of_four hlength
    refine .inr ⟨?_, a, b, c, d, by rw [htook, hbytes], ?_⟩
    · rw [Host.offLine_seen, hseen, List.filter_cons_of_pos rfl, hnone]
    · rw [hr.data, hbytes, overlay_zero, List.drop_eq_nil_of_le (by rw [hdata]; exact Nat.le_refl 4)]
      rfl
  · have hfits := hr.fits
    have hacked := hr.acked.length_le
    have hlength : (tookBytes h.seen).length = 4 := by
      have := hr.len
      rw [hlen, toInt_of_lt (by omega)] at this
      omega
    obtain ⟨a, b, c, d, hbytes⟩ := bytes_of_four hlength
    refine .inr ⟨hoff, a, b, c, d, hbytes, ?_⟩
    have hall := hr.data
    rw [hlength, List.take_of_length_le (Nat.le_of_eq hr.length), hbytes] at hall
    exact hall

end Vector

/-- The request to jump to the address in the word, in the mode that its last bit stands for. -/
def jumpText (w : UInt32) : List UInt8 :=
  goText (w - w % 2).toNat (if w % 2 = 1 then 'T'.toUInt8 else 'A'.toUInt8)

/-- The request for the reset vector. -/
def vectorText (part : PartDesc) : List UInt8 :=
  twoArgsText 'R'.toUInt8 (part.flashBase + part.resetVectorOffset).toNat 4

@[simp] theorem jumpText_head (w : UInt32) : (jumpText w).head? = some 'G'.toUInt8 := rfl

@[simp] theorem vectorText_head (part : PartDesc) :
    (vectorText part).head? = some 'R'.toUInt8 := rfl

/-- No jump has been asked for yet, the read and the unlock have been granted, and the bytes of the word
have been received. -/
structure MayJump (part : PartDesc) (w : UInt32) (h : Host (σ × Talk)) : Prop where
  unsaid : 'G'.toUInt8 ∉ h.env.2.sent
  granted : h.offLine = [.request (vectorText part) (.status 0), .request unlock (.status 0)]
  received : ∃ a b c d, tookBytes h.log = [a, b, c, d] ∧ w = wordOf a b c d
  allowed : 0x200 ≤ w - w % 2

/-- The run has gone on from where it may jump, and all it has said since is the request to, or the
start of it. -/
structure Jumped (part : PartDesc) (w : UInt32) (h h' : Host (σ × Talk)) : Prop where
  may : MayJump part w h
  said : ∃ s, s <+: jumpText w ∧ h'.env.2.sent = h.env.2.sent ++ s
  asked : h'.offLine = h.offLine ∨ ∃ a, h'.offLine = h.offLine ++ [.request (jumpText w) a]

section Jump

variable {part : PartDesc} {h h' : Host (σ × Talk)} {w : UInt32}

/-- The address without its last bit is what is jumped to, in the mode of that bit. -/
theorem jump_eq {S : Type} (E : Sys S) (w : UInt32) :
    (if w % 2 = 1 then ispSendCmdGo E (w - 1) 'T'.toUInt8 else ispSendCmdGo E w 'A'.toUInt8) =
      ispSendCmdGo E (w - w % 2) (if w % 2 = 1 then 'T'.toUInt8 else 'A'.toUInt8) := by
  by_cases hodd : w % 2 = 1
  · rw [if_pos hodd, if_pos hodd, hodd]
  · have heven : w % 2 = 0 := by
      have hlt : (w % 2).toNat < 2 := by
        rw [UInt32.toNat_mod]
        exact Nat.mod_lt _ (by decide)
      have hne : (w % 2).toNat ≠ 1 := fun he => hodd (UInt32.toNat_inj.1 he)
      apply UInt32.toNat_inj.1
      rw [UInt32.toNat_zero]
      omega
    rw [if_neg hodd, if_neg hodd, heven, UInt32.sub_zero]

/-- A request to jump, and nothing else, if the address allows it. -/
theorem jump_said (hallowed : 0x200 ≤ w - w % 2) (h : Host (σ × Talk)) :
    let h' := final (ispSendCmdGo E.recorded (w - w % 2)
      (if w % 2 = 1 then 'T'.toUInt8 else 'A'.toUInt8) h)
    PartTold (jumpText w) h h' ∧
      (h'.offLine = h.offLine ∨ ∃ a, h'.offLine = h.offLine ++ [.request (jumpText w) a]) := by
  have hlen : (jumpText w).length ≤ 16 := goText_length (w - w % 2) _
  have hsize : serialBufsize = 1300 := rfl
  have hfinal : final (ispSendCmdGo E.recorded (w - w % 2)
      (if w % 2 = 1 then 'T'.toUInt8 else 'A'.toUInt8) h) =
      final (sendFormatted E.recorded serialBufsize (jumpText w) serialBufsize (-4) (-3) 0 h) := by
    unfold ispSendCmdGo
    rw [if_neg (UInt32.not_lt.2 hallowed), if_neg]
    · refine final_bind (R := fun s t => t = s) (fun _ => rfl) fun a h' _ => ?_
      rcases a with code | ret <;> rfl
    · split_ifs
      · exact fun hne => hne.1 rfl
      · exact fun hne => hne.2 rfl
  rw [hfinal, sendFormatted_eq (by omega)]
  refine ⟨sendRequest_partTold _ _ (by omega) h, ?_⟩
  have hends := sendFormatted_ends (E := E.recorded) (n := serialBufsize) 0 h
    (show (jumpText w).length < serialBufsize by omega) (by omega)
    (show -8 ≤ (-4 : ℤ) ∧ (-4 : ℤ) < 0 by decide) (show -8 ≤ (-3 : ℤ) ∧ (-3 : ℤ) < 0 by decide)
  rw [sendFormatted_eq (by omega)] at hends
  generalize sendRequest E.recorded (jumpText w) _ serialBufsize (-4) (-3) 0 h = run at hends ⊢
  rcases run with ⟨a, h'⟩ | ⟨f, h'⟩
  · obtain ⟨a', -, -, hoff⟩ := hends.1.offLine
    exact .inr ⟨a', hoff⟩
  · left
    rw [final_error, Host.offLine_seen, hends.2, ← Host.offLine_seen]

/-- In a run that jumps, a status of the read of the vector is 0. -/
theorem Jumped.granted {code : ℤ} (hj : Jumped part w h h')
    (hm : .request (vectorText part) (.status code) ∈ h'.log) : code = 0 := by
  have hmem := (Host.mem_offLine rfl).2 hm
  have hbefore : .request (vectorText part) (.status code) ∈ h.offLine → code = 0 := by
    rw [hj.may.granted]
    intro hm
    rcases List.mem_cons.1 hm with he | hm
    · cases he
      rfl
    · have htext := (Event.request.inj (List.mem_singleton.1 hm)).1
      exact absurd (congrArg List.head? htext) (by rw [vectorText_head]; decide)
  rcases hj.asked with hsame | ⟨a, hmore⟩
  · rw [hsame] at hmem
    exact hbefore hmem
  · rw [hmore] at hmem
    rcases List.mem_append.1 hmem with hmem | hmem
    · exact hbefore hmem
    · have htext := (Event.request.inj (List.mem_singleton.1 hmem)).1
      exact absurd (congrArg List.head? htext) (by rw [vectorText_head, jumpText_head]; decide)

end Jump

section Start

/-- How a run of `start_prog` ends: without a word of a jump, or in one. -/
theorem startProg_ends (E : Sys σ) (part : PartDesc) (env : σ) (c : UInt8) (r r' : ℕ) :
    let h' := final (startProg E.recorded part (.start (env, .quiet) c r r'))
    'G'.toUInt8 ∉ h'.env.2.sent ∨ ∃ w h₂, Jumped part w h₂ h' := by
  intro h'
  set h := Host.start (env, Talk.quiet) c r r'
  have hquiet : ∀ {h₁ : Host (σ × Talk)}, Unsaid 'G'.toUInt8 h h₁ → 'G'.toUInt8 ∉ h₁.env.2.sent := by
    rintro h₁ ⟨s, hs, hc⟩
    rw [hs]
    exact hc
  have hread := ispReadMemory_unsaid (E := E) (c := 'G'.toUInt8) (by decide) (by decide)
    (.replicate 4 (some 0)) (part.flashBase + part.resetVectorOffset) 4 part.uuencode.toNat h
  have hfour : (List.replicate 4 (some 0) : List Cell).length = (4 : UInt32).toNat := rfl
  have hends := ispReadMemory_ends (E := E.recorded) hfour
    (part.flashBase + part.resetVectorOffset) part.uuencode.toNat (h := h) rfl
  have hrun : h' = final (startProg E.recorded part h) := rfl
  unfold startProg at hrun
  rcases hr : ispReadMemory E.recorded (.replicate 4 (some 0)) (part.flashBase + part.resetVectorOffset) 4
    part.uuencode.toNat h with ⟨⟨len, data⟩, h₁⟩ | ⟨f, h₁⟩ <;> rw [hr] at hread hends
  · rw [bind_ok hr] at hrun
    by_cases h4 : len ≠ 4
    · simp only [if_pos h4] at hrun
      rw [hrun]
      exact .inl (hquiet hread)
    · simp only [if_neg h4] at hrun
      have hunlock := ispCmdUnlock_unsaid (E := E) (c := 'G'.toUInt8) 1 (by decide) h₁
      have hasked := ispCmdUnlock_ends (E := E.recorded) 1 h₁
      rcases hu : ispCmdUnlock E.recorded 1 h₁ with ⟨ret, h₂⟩ | ⟨f, h₂⟩ <;> rw [hu] at hunlock hasked
      · rw [bind_ok hu] at hrun
        have hunsaid := hquiet (hread.trans hunlock)
        by_cases hret : ret ≠ 0
        · rw [if_pos hret] at hrun
          rw [hrun]
          exact .inl hunsaid
        · rw [if_neg hret, jump_eq] at hrun
          obtain ⟨code, hasked, hcode⟩ := hasked
          obtain rfl : code = 0 := by
            by_contra hne
            rw [if_pos hne] at hcode
            omega
          set w := firstWord data with hw
          by_cases hlow : w - w % 2 < 0x200
          · unfold ispSendCmdGo at hrun
            rw [if_pos hlow] at hrun
            rw [hrun]
            exact .inl hunsaid
          · right
            obtain ⟨htold, hoff⟩ := jump_said (E := E) (UInt32.not_lt.1 hlow) h₂
            rw [← hrun] at htold hoff
            rcases ReadEnds.four rfl hends (not_not.1 h4) with hdata | ⟨hvector, a, b, c, d, htook, hdata⟩
            · simp only [] at hdata
              rw [hw, hdata, firstWord_zero] at hlow
              exact absurd (by decide) hlow
            · obtain ⟨answer, -, hstatus, hunlocked⟩ := hasked.offLine
              refine ⟨w, h₂, ⟨hunsaid, ?_, ⟨a, b, c, d, ?_, ?_⟩, UInt32.not_lt.1 hlow⟩, ?_, hoff⟩
              · rw [hunlocked, hvector, hstatus (Int.le_refl 0)]
                rfl
              · rw [hasked.tookBytes, htook]
              · simp only [] at hdata
                rw [hw, hdata]
                rfl
              · obtain ⟨k, hk⟩ := htold
                exact ⟨_, List.take_prefix k _, hk⟩
      · rw [bind_error hu] at hrun
        rw [hrun]
        exact .inl (hquiet (hread.trans hunlock))
  · rw [bind_error hr] at hrun
    rw [hrun]
    exact .inl (hquiet hread)

/-- A run of `start_prog` says nothing of a jump, unless the four bytes of the vector have come and the
device has been unlocked: then it asks once for a jump to where they say. A read refused with any
status is followed by none. -/
theorem startProg_jumps (E : Sys σ) (part : PartDesc) (env : σ) (c : UInt8) (r r' : ℕ) :
    let h' := final (startProg E.recorded part (.start (env, .quiet) c r r'))
    ('G'.toUInt8 ∉ h'.env.2.sent ∨ ∃ w h₂, Jumped part w h₂ h') ∧
      ∀ code, .request (vectorText part) (.status code) ∈ h'.log → code ≠ 0 →
        'G'.toUInt8 ∉ h'.env.2.sent := by
  intro h'
  have hends := startProg_ends E part env c r r'
  refine ⟨hends, fun code hm hne => hends.resolve_right ?_⟩
  rintro ⟨w, h₂, hj⟩
  exact hne (hj.granted hm)

end Start

end LpcTools
