import LpcTools.Proofs.Layout
import LpcTools.Proofs.RequestLines

/-!
# Which copies to the flash are asked for

`lpcisp` looks at four bits of the count of a copy and at no others, so it judges right just the
counts that have no others, and those it refuses (`copyJudged_iff`). `lpcprog` checks nothing of what
it makes of the parts file: what it copies `lpcisp` would let through just if the addresses of the
part are aligned and its blocks large enough (`flashTarget_copies_iff`).
-/

namespace LpcTools

open Run Decimal NumericCall

section Judged

/-- A copy of the user's manual. -/
structure CopyLegal (dst src n : ℕ) : Prop where
  flash : dst % 256 = 0
  ram : src % 4 = 0
  count : n = 256 ∨ n = 512 ∨ n = 1024 ∨ n = 4096

/-- What `isp_cmd_address_wrapper` adds up of the count. -/
def copyBits (n : ℕ) : ℕ := bit n 8 + bit n 9 + bit n 10 + bit n 12

/-- The count has no bits but those. -/
def OnlyCopyBits (n : ℕ) : Prop :=
  n = bit n 8 * 2 ^ 8 + bit n 9 * 2 ^ 9 + bit n 10 * 2 ^ 10 + bit n 12 * 2 ^ 12

theorem bit_le (n k : ℕ) : bit n k ≤ 1 := Nat.le_of_lt_succ (Nat.mod_lt _ (by decide))

theorem copyBits_of_count {n : ℕ} (hn : n = 256 ∨ n = 512 ∨ n = 1024 ∨ n = 4096) :
    copyBits n = 1 ∧ OnlyCopyBits n := by
  rcases hn with rfl | rfl | rfl | rfl <;> exact ⟨rfl, rfl⟩

theorem count_of_copyBits {n : ℕ} (hbits : copyBits n = 1) (honly : OnlyCopyBits n) :
    n = 256 ∨ n = 512 ∨ n = 1024 ∨ n = 4096 := by
  have h8 := bit_le n 8
  have h9 := bit_le n 9
  have h10 := bit_le n 10
  have h12 := bit_le n 12
  rw [copyBits] at hbits
  rw [OnlyCopyBits] at honly
  generalize bit n 8 = b8, bit n 9 = b9, bit n 10 = b10, bit n 12 = b12 at *
  omega

variable {σ : Type} {arg₀ arg₁ arg₂ : List UInt8}

/-- A legal copy is asked for, with 32 bits of each number, and for another the line is left alone. -/
def CopyJudged (arg₀ arg₁ arg₂ : List UInt8) : Prop :=
  ∀ {σ : Type} (E : Sys σ) (h : Host (σ × Talk)),
    let run := ispCmdAddressWrapper E.recorded [arg₀, arg₁, arg₂] 'C'.toUInt8 h
    let text := addressText 'C'.toUInt8 (UInt32.ofNat (argValue arg₀)).toNat
      (UInt32.ofNat (argValue arg₁)).toNat (UInt32.ofNat (argValue arg₂)).toNat
    (CopyLegal (argValue arg₀) (argValue arg₁) (argValue arg₂) → Puts E text h (final run)) ∧
      (¬ CopyLegal (argValue arg₀) (argValue arg₁) (argValue arg₂) →
        (final run).env.2.sent = h.env.2.sent ∧ ∃ ret < 0, value run = some ret)

/-- What the wrapper checks of a copy. -/
theorem not_refuses_copy : ¬ (addressWrapper [arg₀, arg₁, arg₂] 'C'.toUInt8).Refuses ↔
    argValue arg₀ % 256 = 0 ∧ argValue arg₁ % 4 = 0 ∧ copyBits (argValue arg₂) = 1 := by
  simp only [Refuses, if_neg (show 'C'.toUInt8 ≠ 'M'.toUInt8 by decide), if_true, not_or, not_not,
    ne_eq, copyBits]

theorem CopyLegal.not_refuses
    (hl : CopyLegal (argValue arg₀) (argValue arg₁) (argValue arg₂)) :
    ¬ (addressWrapper [arg₀, arg₁, arg₂] 'C'.toUInt8).Refuses :=
  not_refuses_copy.2 ⟨hl.flash, hl.ram, (copyBits_of_count hl.count).1⟩

theorem addressWrapper_puts {E : Sys σ}
    (hc : ¬ (addressWrapper [arg₀, arg₁, arg₂] 'C'.toUInt8).Refuses) (h : Host (σ × Talk)) :
    Puts E (addressText 'C'.toUInt8 (UInt32.ofNat (argValue arg₀)).toNat
        (UInt32.ofNat (argValue arg₁)).toNat (UInt32.ofNat (argValue arg₂)).toNat) h
      (final (ispCmdAddressWrapper E.recorded [arg₀, arg₁, arg₂] 'C'.toUInt8 h)) := by
  rw [ispCmdAddressWrapper_sends hc]
  exact Sender.send_puts (s := .request (.address 'C'.toUInt8 _ _ _)) trivial E h

end Judged

/-- `lpcisp` asks for exactly the legal copies just where an address is not aligned, or the four bits
of the count are not one, or the count has no others. -/
theorem copyJudged_iff (arg₀ arg₁ arg₂ : List UInt8) : CopyJudged arg₀ arg₁ arg₂ ↔
    argValue arg₀ % 256 ≠ 0 ∨ argValue arg₁ % 4 ≠ 0 ∨ copyBits (argValue arg₂) ≠ 1 ∨
      OnlyCopyBits (argValue arg₂) := by
  constructor
  · intro hjudged
    by_contra hcond
    simp only [not_or, not_not, ne_eq] at hcond
    obtain ⟨hflash, hram, hbits, hother⟩ := hcond
    have hc := not_refuses_copy.2 ⟨hflash, hram, hbits⟩
    have hnot : ¬ CopyLegal (argValue arg₀) (argValue arg₁) (argValue arg₂) := fun hl =>
      hother (copyBits_of_count hl.count).2
    -- on a line that takes it the request goes out all the same
    obtain ⟨k, hsent, hall⟩ := addressWrapper_puts (E := obligingSys Unit) hc
      (.start ((), .quiet) 0 0 0)
    obtain ⟨hsame, -⟩ := (hjudged (obligingSys Unit) (.start ((), .quiet) 0 0 0)).2 hnot
    rw [hall fun _ _ => rfl, List.take_length] at hsent
    rw [hsent] at hsame
    exact absurd (List.append_right_eq_self.1 hsame) (List.cons_ne_nil _ _)
  · intro hcond σ E h
    refine ⟨fun hl => addressWrapper_puts hl.not_refuses h, fun hnot => ?_⟩
    have hc : (addressWrapper [arg₀, arg₁, arg₂] 'C'.toUInt8).Refuses := by
      by_contra hc
      obtain ⟨hflash, hram, hbits⟩ := not_refuses_copy.1 hc
      rcases hcond with hne | hne | hne | honly
      · exact hne hflash
      · exact hne hram
      · exact hne hbits
      · exact hnot ⟨hflash, hram, count_of_copyBits hbits honly⟩
    obtain ⟨ret, hneg, hrun⟩ := refuses_addressWrapper hc h
    exact ⟨by rw [hrun]; rfl, ret, hneg, by rw [hrun]; rfl⟩

/-- A copy of 257 bytes is asked for. -/
theorem copyJudged_odd :
    let E := (scripted fun _ => 100).sys (Sys.plain _)
    let args := [bytes ['0'], bytes ['0'], bytes ['2', '5', '7']]
    (final (ispCmdAddressWrapper E.recorded args 'C'.toUInt8 (.start (.quiet [], .quiet) 0 0 0))).env.2.sent =
        bytes "C 0 0 257\r\n".toList ∧
      ¬ CopyJudged (bytes ['0']) (bytes ['0']) (bytes ['2', '5', '7']) := by
  intro E args
  have hsent : (final (ispCmdAddressWrapper E.recorded args 'C'.toUInt8
      (.start (.quiet [], .quiet) 0 0 0))).env.2.sent = bytes "C 0 0 257\r\n".toList := by
    decide +kernel
  refine ⟨hsent, fun hjudged => ?_⟩
  have hcount : argValue (bytes ['2', '5', '7']) = 257 := by decide
  obtain ⟨hsame, -⟩ := (hjudged ((scripted fun _ => 100).sys (Sys.plain _))
    (.start (.quiet [], .quiet) 0 0 0)).2 fun hl => absurd hl.count (by rw [hcount]; decide)
  rw [show _ = bytes "C 0 0 257\r\n".toList from hsent] at hsame
  exact absurd hsame (by decide)

section Copies

/-- A copy that is legal, and that `lpcisp` asks for where its numbers are typed. -/
structure Copyable (dst src n : UInt32) : Prop where
  legal : CopyLegal dst.toNat src.toNat n.toNat
  typed : ∀ {σ : Type} (E : Sys σ) (h : Host σ),
    ispCmdAddressWrapper E [decimal dst.toNat, decimal src.toNat, decimal n.toNat] 'C'.toUInt8 h =
      ispSendCmdAddress E 'C'.toUInt8 dst src n h

def CopiesPass (texts : List (List UInt8)) : Prop :=
  ∀ dst src n : UInt32, addressText 'C'.toUInt8 dst.toNat src.toNat n.toNat ∈ texts →
    Copyable dst src n

/-- The flash and the buffer of the part are aligned, and neither a sector nor the buffer is smaller
than the smallest copy. -/
structure PartDesc.CopyReady (part : PartDesc) : Prop where
  flash : part.flashBase.toNat % 256 = 0
  ram : (part.ramBase + part.ramBuffOffset).toNat % 4 = 0
  sector : 256 ≤ (part.flashSize / part.flashNbSectors).toNat
  buffer : 256 ≤ part.ramBuffSize.toNat

variable {part : PartDesc} {calcUserCode : ℤ} {image : List UInt8}
  {erasing texts : List (List UInt8)}

/-- A number that is typed as it is printed. -/
theorem argValue_decimal (n : UInt32) : argValue (decimal n.toNat) = n.toNat := by
  have hlt := n.toNat_lt
  have hnone : ∀ c ∈ ([] : List UInt8), isSpace c = true := fun _ hc => by cases hc
  have hread := strtoul_number hnone (numberValue_decimal n.toNat)
    (show n.toNat ≤ ulongMax by rw [ulongMax]; omega) (show EndsNumber 0 by decide) []
  rw [List.nil_append] at hread
  rw [argValue, hread]
  rfl

theorem CopyLegal.copyable {dst src n : UInt32} (hl : CopyLegal dst.toNat src.toNat n.toNat) :
    Copyable dst src n := by
  refine ⟨hl, fun E h => ?_⟩
  rw [← argValue_decimal dst, ← argValue_decimal src, ← argValue_decimal n] at hl
  rw [ispCmdAddressWrapper_sends hl.not_refuses, argValue_decimal, argValue_decimal,
    argValue_decimal, UInt32.ofNat_toNat, UInt32.ofNat_toNat, UInt32.ofNat_toNat]

/-- The block size is one of those of the manual where it is not that of a smaller one. -/
theorem calcWriteSize_count {sectorSize ramBuffSize : UInt32}
    (hne : calcWriteSize sectorSize ramBuffSize ≠ 0) :
    ((calcWriteSize sectorSize ramBuffSize).toNat = 256 ∨
      (calcWriteSize sectorSize ramBuffSize).toNat = 512 ∨
      (calcWriteSize sectorSize ramBuffSize).toNat = 1024 ∨
      (calcWriteSize sectorSize ramBuffSize).toNat = 4096) ↔
    256 ≤ sectorSize.toNat ∧ 256 ≤ ramBuffSize.toNat := by
  have hmin : 256 ≤ (if sectorSize < ramBuffSize then sectorSize else ramBuffSize).toNat ↔
      256 ≤ sectorSize.toNat ∧ 256 ≤ ramBuffSize.toNat := by
    split_ifs with h <;> rw [UInt32.lt_iff_toNat_lt] at h <;> omega
  rw [← hmin]
  unfold calcWriteSize at hne ⊢
  simp only [] at hne ⊢
  generalize (if sectorSize < ramBuffSize then sectorSize else ramBuffSize) = least at hne ⊢
  have h4096 : (4096 : UInt32).toNat = 4096 := rfl
  have h1024 : (1024 : UInt32).toNat = 1024 := rfl
  have h512 : (512 : UInt32).toNat = 512 := rfl
  have h256 : (256 : UInt32).toNat = 256 := rfl
  have h64 : (64 : UInt32).toNat = 64 := rfl
  simp only [UInt32.le_iff_toNat_le, h4096, h1024, h512, h256, h64] at hne ⊢
  split_ifs at hne ⊢ <;> first | exact absurd rfl hne | omega

/-- The address of a block of a flash that is aligned. -/
theorem blockAddr_mod (hflash : part.flashBase.toNat % 256 = 0)
    (hsize : part.writeSize.toNat % 256 = 0) (j : ℕ) : (part.blockAddr j).toNat % 256 = 0 := by
  have hoffset : j % 2 ^ 32 * part.writeSize.toNat % 256 = 0 := by
    rw [Nat.mul_mod, hsize, Nat.mul_zero, Nat.zero_mod]
  rw [PartDesc.blockAddr, UInt32.toNat_add, UInt32.toNat_mul, UInt32.toNat_ofNat']
  omega

theorem copiesPass_of_ready (hready : part.CopyReady) (hwrites : part.writeSize ≠ 0)
    (herasing : ∀ text ∈ erasing, NoTransfer text) (hpre : texts <+: part.plan image) :
    CopiesPass (erasing ++ texts) := by
  have hcount := (calcWriteSize_count hwrites).2 ⟨hready.sector, hready.buffer⟩
  have hsize : part.writeSize.toNat % 256 = 0 := by
    rcases hcount with he | he | he | he <;> rw [PartDesc.writeSize, he]
  intro dst src n hm
  obtain ⟨j, hj⟩ := mem_blockTexts herasing hpre hm fun hno => hno.2 rfl
  simp only [PartDesc.blockTexts, List.mem_cons, List.not_mem_nil, or_false] at hj
  rcases hj with htext | htext | htext
  · cases (List.cons.inj htext).1
  · cases (List.cons.inj htext).1
  · obtain ⟨-, rfl, rfl, rfl⟩ := addressText_inj htext
    exact CopyLegal.copyable ⟨blockAddr_mod hready.flash hsize j, hready.ram, hcount⟩

/-- The copy of the first block tells. -/
theorem ready_of_copiesPass (ha : part.Accepts calcUserCode image)
    (hpass : CopiesPass (erasing ++ part.plan image)) : part.CopyReady := by
  obtain ⟨-, -, -, hpos⟩ := ha.fits
  obtain ⟨after, hplan⟩ := plan_split hpos
  have hlegal := (hpass (part.blockAddr 0) part.ramAddr part.writeSize (by
    rw [hplan]
    simp [PartDesc.blockTexts])).legal
  have hbase : part.blockAddr 0 = part.flashBase := by simp [PartDesc.blockAddr]
  obtain ⟨hsector, hbuffer⟩ := (calcWriteSize_count ha.1.writes).1 hlegal.count
  exact ⟨hbase ▸ hlegal.flash, hlegal.ram, hsector, hbuffer⟩

end Copies

/-- Every copy that `flash_target` asks for, whatever the line and the system are like, would get
through `lpcisp`, just if the part of an accepted image is ready for copies. -/
theorem flashTarget_copies_iff (part : PartDesc) (calcUserCode : ℤ) (content : List UInt8) :
    (∀ (σ : Type) (E : Sys σ) (h : Host σ) (filename : List UInt8), h.log = [] →
      (∀ env, Gives E env filename content) →
      CopiesPass (final (flashTarget E part filename calcUserCode h)).requested) ↔
    (part.Accepts calcUserCode (content.take part.flashSize.toNat) → part.CopyReady) := by
  constructor
  · intro hpass ha
    obtain ⟨h', erasing, hrun, hreq, -⟩ := oneFile_requested ha
    have hall := hpass _ _ blankHost _ rfl
      (oneFile_gives (L := bootloader (fun _ => none) part.uuencode.toNat) ha.ne)
    rw [hrun, final_ok, hreq] at hall
    exact ready_of_copiesPass ha hall
  · intro hcond σ E h filename hstart hfile
    obtain ⟨erasing, texts, hp⟩ := flashTarget_planned part hfile calcUserCode h
    rw [hp.requested, requested_of_start hstart, List.nil_append]
    rcases hp.prefix_plan with rfl | ⟨ha, hpre⟩
    · rw [List.append_nil]
      exact fun dst src n hm => absurd rfl (hp.erasing _ hm).2
    · exact copiesPass_of_ready (hcond ha) ha.1.writes hp.erasing hpre

/-- The LPC810 with a buffer of 64 bytes. -/
def smallBuffer : PartDesc := { lpc810 with ramBuffSize := 0x40 }

theorem smallBuffer_accepts : smallBuffer.Accepts 0 ((List.replicate 0x300 0).take
    smallBuffer.flashSize.toNat) := by
  rw [List.take_of_length_le (by rw [List.length_replicate]; decide)]
  refine accepts_zeros ⟨by decide, by decide, by decide⟩ (by omega) (by omega) ?_
  rw [nbWrites, List.length_replicate]
  decide

/-- It is programmed with copies of 64 bytes, which `lpcisp` refuses. -/
theorem flashTarget_smallCopies : (∃ h',
    flashTarget ((bootloader (fun _ => none) 0).sys (oneFile (.replicate 0x300 0))) smallBuffer
      ['f'.toUInt8] 0 blankHost = .ok 0 h' ∧ ¬ CopiesPass h'.requested) ∧
    ∀ {σ : Type} (E : Sys σ) (h : Host σ), ispCmdAddressWrapper E
      [decimal 0, decimal 0x10000300, decimal 64] 'C'.toUInt8 h = .ok (-7) h := by
  constructor
  · obtain ⟨h', erasing, hrun, hreq, -⟩ := oneFile_requested smallBuffer_accepts
    refine ⟨h', hrun, fun hpass => ?_⟩
    rw [hreq] at hpass
    exact absurd (ready_of_copiesPass smallBuffer_accepts hpass).buffer (by decide)
  · intro σ E h
    have hdst : argValue (decimal 0) = 0 := argValue_decimal 0
    have hsrc : argValue (decimal 0x10000300) = 0x10000300 := argValue_decimal 0x10000300
    have hcount : argValue (decimal 64) = 64 := argValue_decimal 64
    simp only [ispCmdAddressWrapper, hdst, hsrc, hcount]
    rfl

end LpcTools
