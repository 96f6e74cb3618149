import LpcTools.Proofs.BenchHistory
import LpcTools.Proofs.Jumping

/-!
# What is programmed is what is started

`lpcprog go` reads the reset vector from the flash and jumps to it. On a bench the word is that of
the file that was programmed last, whatever has been done since that leaves the flash alone
(`Bench.starts_programmed`).
-/

namespace LpcTools

open Run Decimal Refine

variable {δ : Type}

/-- The word at the place of the reset vector. -/
def PartDesc.vector (part : PartDesc) (content : List UInt8) : UInt32 :=
  (word (content.drop part.resetVectorOffset.toNat) 0).getD 0

section Start

variable {L : Line δ} {O : Sys (Wire δ)} {part : PartDesc} {chip : δ → Chip} {sends : δ → List UInt8}
  {refusals : δ → ℕ} {k : Host (Wire δ)} {v : UInt32}

theorem PartDesc.vector_congr {a b : List UInt8}
    (h : ∀ i < 4, a[part.resetVectorOffset.toNat + i]? = b[part.resetVectorOffset.toNat + i]?) :
    part.vector a = part.vector b := by
  refine congrArg (·.getD 0) (word_congr fun i hi => ?_)
  rw [Nat.mul_zero, Nat.zero_add, List.getElem?_drop, List.getElem?_drop, h i hi]

/-- The bytes of the vector are those of the content of the flash. -/
theorem PartDesc.Sound.firstWord_slice (hs : part.Sound)
    (hoff : part.resetVectorOffset.toNat + 4 ≤ part.flashSize.toNat) (c : Chip) :
    firstWord ((slice (c.memoryFrom part.sectorAt (part.flashBase + part.resetVectorOffset)) 0 4).map some) =
      part.vector (part.contents c.flash) := by
  rw [firstWord, List.map_map]
  refine congrArg (·.getD 0) (word_congr fun i hi => ?_)
  have hin : part.resetVectorOffset.toNat + i < part.flashSize.toNat := by omega
  obtain ⟨sec, -, hat⟩ := hs.sectorAt hin
  rw [UInt32.ofNat_add, UInt32.ofNat_toNat, ← UInt32.add_assoc] at hat
  rw [Nat.mul_zero, Nat.zero_add, List.getElem?_drop]
  simp [slice, hi, Chip.memoryFrom, Chip.memory, hat, PartDesc.contents, hin, ← UInt32.add_assoc]

/-- A jump that the address allows is asked for, and answered with a status. -/
theorem ispSendCmdGo_heard (hp : Line.Prompt L.arrive) (hi : Idle chip k) (hallowed : 0x200 ≤ v - v % 2)
    {st : ℕ} (hst : st < 10) {d : δ} (hhear : L.hear k.env.dev (jumpText v) = ([statusText st], d)) : ∃ ret k',
    ispSendCmdGo (L.sys O) (v - v % 2) (if v % 2 = 1 then 'T'.toUInt8 else 'A'.toUInt8) k = .ok ret k' ∧
      k'.env.heard = k.env.heard ++ [(jumpText v, [])] := by
  have hlen : (jumpText v).length ≤ 16 := goText_length (v - v % 2) _
  have hsize : serialBufsize = 1300 := rfl
  have hthree := statusText_length_of_lt hst
  have hpend : (L.told k (jumpText v)).env.pending = [statusText st] := by
    rw [Line.told, Line.wrote, hhear, hi.pending]
    rfl
  obtain ⟨k₁, hread, hR, -, -⟩ := Line.ispSerialRead_whole (L := L) (O := O) (h := L.told k (jumpText v)) hp
    (show 0 < 3 by omega) (show 3 ≤ serialBufsize by omega) hi.nextReadChar hpend (by omega)
  rw [List.take_of_length_le (by omega)] at hread
  obtain ⟨es, -, hsend⟩ := sendRequest_of_read
    (snprintf ((List.range serialBufsize).map ((L.sys O).stack k.env)) serialBufsize (jumpText v)) (-4) (-3) 0
    (by omega) (by omega) (by omega) hread (strtoul_status _ hst) (Nat.lt_of_lt_of_le hst (by decide))
  refine ⟨if st ≠ 0 then -1 else 0, k₁.logged (es ++ [.request (jumpText v) (.status st)]), ?_,
    hR.heard.trans ?_⟩
  · unfold ispSendCmdGo
    rw [if_neg (UInt32.not_lt.2 hallowed), if_neg]
    · change (sendFormatted (L.sys O) serialBufsize (jumpText v) serialBufsize (-4) (-3) 0 >>= _) k = _
      rw [bind_ok ((sendFormatted_eq (by omega) _ _ _ _ k).trans hsend)]
      simp
    · split_ifs <;> simp
  · rw [Line.told, Line.wrote, Wire.unread, hi.pending, List.flatten_nil]

/-- The last that is said is the request to unlock the device, and behind it the jump if it is allowed. -/
theorem startProg_heard (F : Faithful L part.sectorAt part.uuencode.toNat chip)
    (W : Willing L part.sectorAt chip refusals)
    (V : Serves L part.sectorAt part.uuencode.toNat chip sends) (hs : part.Sound) (hi : Idle chip k)
    (hoff : part.resetVectorOffset.toNat + 4 ≤ part.flashSize.toNat)
    (hv : part.vector (part.contents (chip k.env.dev).flash) = v)
    (hgo : 0x200 ≤ v - v % 2 → ∀ d, (chip d).expects = none →
      ∃ st < 10, ∃ d', L.hear d (jumpText v) = ([statusText st], d')) : ∃ ret k' before,
    startProg (L.sys O) part k = .ok ret k' ∧
      k'.env.heard = before ++ (unlock, []) :: if 0x200 ≤ v - v % 2 then [(jumpText v, [])] else [] := by
  obtain ⟨k₁, hread, hi₁, hchip⟩ := ispReadMemory_served F.prompt V hi O
    (part.flashBase + part.resetVectorOffset) (show (4 : UInt32) ≠ 0 by decide) (by decide)
    (show (List.replicate 4 (some 0 : Cell)).length = _ from rfl)
  obtain ⟨st, k₂, hunlock, ho⟩ := ispCmdUnlock_obeyed (O := O) F hi₁ 1
  obtain rfl : st = 0 := ho.willing W hi₁ trivial
  have hi₂ := ho.idle hi₁.expects
  have hword : firstWord ((slice ((chip k.env.dev).memoryFrom part.sectorAt
      (part.flashBase + part.resetVectorOffset)) 0 (4 : UInt32).toNat).map some) = v :=
    (hs.firstWord_slice hoff _).trans hv
  have hrun : startProg (L.sys O) part k = ispSendCmdGo (L.sys O) (v - v % 2)
      (if v % 2 = 1 then 'T'.toUInt8 else 'A'.toUInt8) k₂ := by
    unfold startProg
    rw [bind_ok hread]
    simp only [hword]
    rw [if_neg (by decide), bind_ok hunlock, if_neg (by decide), ← jump_eq]
  rw [hrun]
  by_cases hallowed : 0x200 ≤ v - v % 2
  · obtain ⟨st, hst, d', hhear⟩ := hgo hallowed k₂.env.dev hi₂.expects
    obtain ⟨ret, k₃, hjump, hheard⟩ := ispSendCmdGo_heard (O := O) F.prompt hi₂ hallowed hst hhear
    refine ⟨ret, k₃, k₁.env.heard, hjump, ?_⟩
    rw [hheard, ho.heard, if_pos hallowed, List.append_assoc]
    rfl
  · refine ⟨-6, k₂, k₁.env.heard, ?_, ?_⟩
    · unfold ispSendCmdGo
      rw [if_pos (UInt32.not_le.1 hallowed)]
      rfl
    · rw [ho.heard, if_neg hallowed]
      rfl

end Start

section Bench

variable {S : Setup δ} {b : Bench δ} {s : Store}

theorem lookup_go : lookup progCmdsList (bytes "go".toList) = some .go := by decide

theorem saysGo_delegated : SaysGo Delegated :=
  fun _ => ⟨delegated_cons (by decide) _, delegated_cons (by decide) _⟩

theorem Represents.starts (hr : Represents S b s) (w : World)
    (hoff : S.part.resetVectorOffset.toNat + 4 ≤ S.part.flashSize.toNat) {v : UInt32}
    (hv : S.part.vector s.flash = v)
    (hgo : 0x200 ≤ v - v % 2 → ∀ d, (S.chip d).expects = none →
      ∃ st < 10, ∃ d', S.line.hear d (jumpText v) = ([statusText st], d')) : ∃ h before,
    b.lpcprog S w 0 "go" [] = some h ∧
      h.env.heard = before ++ (unlock, []) :: if 0x200 ≤ v - v % 2 then [(jumpText v, [])] else [] := by
  obtain ⟨k, hi, hdev, -, -, hrun⟩ := hr.delegated w 0 [] lookup_go
    ⟨saysReads_delegated, delegated_cons (by decide) _, saysGo_delegated⟩
  have hflash := hr.flash
  rw [← hdev] at hflash
  obtain ⟨ret, k', before, hstart, hheard⟩ := startProg_heard (O := w.over b.files _) S.faithful S.willing
    S.serves S.sound hi hoff (by rw [hflash, hv]) hgo
  obtain ⟨h', hprog, henv, -⟩ := hrun hstart
  exact ⟨h', before, hprog, by rw [henv]; exact hheard⟩

/-- What is before the user code goes to the flash as it is in the file. -/
theorem getElem?_flashed {part : PartDesc} {calcUserCode : ℤ} {content : List UInt8} {i : ℕ}
    (haccept : part.acceptable calcUserCode (content.take part.flashSize.toNat) = true)
    (hcode : i < 28) (hlen : i < (content.take part.flashSize.toNat).length) :
    (part.flashed calcUserCode (some content))[i]? = content[i]? := by
  obtain ⟨image, himage⟩ : ∃ image, content.take part.flashSize.toNat = image := ⟨_, rfl⟩
  have hcontent : image[i]? = content[i]? := by
    rw [← himage, List.getElem?_take_of_lt (by rw [List.length_take] at hlen; omega)]
  rw [himage] at haccept hlen
  have hpadded : i < (part.padded image).length := by
    rw [PartDesc.padded, List.length_append]
    omega
  have hexpected : (part.expected image calcUserCode)[i]? = (part.padded image)[i]? := by
    unfold PartDesc.expected
    split_ifs
    · have htake : i < ((part.padded image).take 28).length := by
        rw [List.length_take]
        omega
      rw [withUserCode, overlay, List.append_assoc, List.getElem?_append_left htake,
        List.getElem?_take_of_lt hcode]
    · rfl
  have hin : i < (part.expected image calcUserCode).length := by
    refine (List.getElem?_eq_some_iff.1 (hexpected.trans (List.getElem?_eq_getElem hpadded))).1
  simp only [PartDesc.flashed, himage, haccept, if_true]
  rw [List.getElem?_append_left hin, hexpected, PartDesc.padded, List.getElem?_append_left hlen, hcontent]

/-- The job leaves the flash alone. -/
def Job.LeavesFlash : Job → Prop
  | isp (.erase _) | isp (.copyRamToFlash _) | blank | flash _ _ => False
  | _ => True

theorem Job.perform_flash {part : PartDesc} {job : Job} (hjob : job.LeavesFlash) (s : Store) :
    (job.perform part s).flash = s.flash := by
  cases job with
  | check name calcUserCode checkCrp =>
    simp only [perform]
    split_ifs
    · rcases s.files name with _ | content <;> rfl
    · rfl
  | isp order =>
    rcases order.perform_cases part s with ⟨mode, hperform⟩ | hobeyed
    · rw [perform, hperform]
    · rw [perform]
      cases order with
      | erase args | copyRamToFlash args => exact False.elim hjob
      | prepareForWrite args =>
        obtain ⟨range, -, hs⟩ := Option.map_eq_some_iff.1 hobeyed
        rw [← hs]
      | writeToRam addr name mode =>
        simp only [Order.obeyed] at hobeyed
        split_ifs at hobeyed
        obtain ⟨content, -, hs⟩ := Option.map_eq_some_iff.1 hobeyed
        rw [← hs]
        rfl
      | readMemory addr count name mode =>
        simp only [Order.obeyed] at hobeyed
        split_ifs at hobeyed
        rw [← Option.some.inj hobeyed]
      | _ => rw [← Option.some.inj hobeyed]
  | blank | flash => exact False.elim hjob
  | _ => rfl

theorem Setup.perform_flash (S : Setup δ) {between : List (World × Job)}
    (hleaves : ∀ j ∈ between, j.2.LeavesFlash) (s : Store) : (between.foldl S.perform s).flash = s.flash := by
  induction between generalizing s with
  | nil => rfl
  | cons j between ih =>
    rw [List.foldl_cons, ih fun k hk => hleaves k (List.mem_cons_of_mem j hk)]
    exact Job.perform_flash (hleaves j List.mem_cons_self) s

/-- A file is programmed, anything may be done that leaves the flash alone, and `go` ends by asking for the
jump to the reset vector of the file, in the mode of its last bit, if it is an address that may be jumped to.
If it is not, there is no word of a jump behind the unlock. -/
theorem Bench.starts_programmed (S : Setup δ) {b : Bench δ} {s : Store} (hr : Represents S b s)
    (w w' : World)
    {name : FileName} {content : List UInt8} {calcUserCode : ℤ} (hfile : b.files name = some content)
    (haccept : S.part.acceptable calcUserCode (content.take S.part.flashSize.toNat) = true)
    (hvector : S.part.resetVectorOffset.toNat + 4 ≤ 28)
    (hlen : S.part.resetVectorOffset.toNat + 4 ≤ content.length) {v : UInt32}
    (hv : S.part.vector content = v) {between : List (World × Job)} (hleaves : ∀ j ∈ between, j.2.LeavesFlash)
    (hdef : S.Defined (S.perform s (w, .flash name calcUserCode)) between)
    (hgo : 0x200 ≤ v - v % 2 → ∀ d, (S.chip d).expects = none →
      ∃ st < 10, ∃ d', S.line.hear d (jumpText v) = ([statusText st], d')) : ∃ b' h before,
    ((w, .flash name calcUserCode) :: between).foldlM (Bench.turn S) b = some b' ∧
      b'.lpcprog S w' 0 "go" [] = some h ∧
      h.env.heard = before ++ (unlock, []) :: if 0x200 ≤ v - v % 2 then [(jumpText v, [])] else [] := by
  have hlow := S.sound.low
  have hall : S.Defined s ((w, .flash name calcUserCode) :: between) := ⟨trivial, hdef⟩
  obtain ⟨b', hrun, hr'⟩ := (bench_keeps S).run hr hall
  have hflash : (((w, Job.flash name calcUserCode) :: between).foldl S.perform s).flash =
      S.part.flashed calcUserCode (some content) := by
    rw [List.foldl_cons, S.perform_flash hleaves, ← hfile, hr.files]
    rfl
  obtain ⟨h, before, hprog, hheard⟩ := hr'.starts w' (v := v) (by omega) (by
    change S.part.vector (((w, Job.flash name calcUserCode) :: between).foldl S.perform s).flash = v
    rw [hflash, ← hv]
    exact PartDesc.vector_congr fun i hi => getElem?_flashed haccept (by omega) (by
      rw [List.length_take]
      omega)) hgo
  exact ⟨b', h, before, hrun, hprog, hheard⟩

end Bench

section Sample

/-- Zeros with a reset vector, of an address for the thumb mode. -/
def sampleProgram : List UInt8 := overlay zerosFile 4 [1, 2, 0, 0]

theorem sampleProgram_getElem? (i : ℕ) : sampleProgram[i]? =
    if 4 ≤ i ∧ i < 8 then [1, 2, 0, 0][i - 4]? else zerosFile[i]? :=
  getElem?_overlay (by rw [zerosFile_length]; decide) i

theorem sampleProgram_length : sampleProgram.length = 0x400 := by
  rw [sampleProgram, overlay_length (by rw [zerosFile_length]; decide), zerosFile_length]

theorem sampleProgram_vector : lpc1114.vector sampleProgram = 0x201 := by
  have hword : word (sampleProgram.drop lpc1114.resetVectorOffset.toNat) 0 = word [1, 2, 0, 0] 0 := by
    refine word_congr fun i hi => ?_
    have hoffset : lpc1114.resetVectorOffset.toNat = 4 := rfl
    rw [List.getElem?_drop, sampleProgram_getElem?, hoffset, if_pos (by omega)]
    congr 1
    omega
  rw [PartDesc.vector, hword]
  rfl

theorem sampleProgram_acceptable :
    lpc1114.acceptable 1 (sampleProgram.take lpc1114.flashSize.toNat) = true := by
  rw [List.take_of_length_le (by rw [sampleProgram_length]; decide)]
  obtain ⟨cksum, v₇, crp, hi⟩ := exists_image (show 0x300 ≤ sampleProgram.length by
    rw [sampleProgram_length]
    omega)
  have hcrp : word sampleProgram (crpOffset / 4) = word zerosFile (crpOffset / 4) := by
    refine word_congr fun i hi => ?_
    rw [sampleProgram_getElem?, if_neg (by rw [crpOffset]; omega)]
  rw [hi.crp, zerosFile, word_replicate (by rw [crpOffset]; omega)] at hcrp
  have hfill : Image (filled lpc1114 sampleProgram) cksum v₇ crp := hi.fill
  rw [hfill.acceptable_iff, Option.some.inj hcrp]
  exact ⟨List.ne_nil_of_length_pos (by rw [sampleProgram_length]; omega), .inl rfl, rfl⟩

/-- The device does not know the request. -/
theorem reader_jump {sector : UInt32 → Option ℕ} {uu : ℕ} {d : Chip × List UInt8}
    (hidle : d.1.expects = none) (v : UInt32) :
    (reader sector uu).hear d (jumpText v) = ([statusText 1], d) := by
  have hother {text : List UInt8} (hhead : text.head? ≠ some 'G'.toUInt8) : text ≠ jumpText v := by
    rintro rfl
    exact hhead rfl
  have hno : ¬ ∃ command : Command, command.text = jumpText v := by
    rintro ⟨c, htext⟩
    refine hother ?_ htext
    rw [c.head_text]
    cases c <;> simp only [Command.letter] <;> decide
  rw [reader_other]
  · simp only [bootloader, hidle, dif_neg hno]
  · rintro ⟨-, range, htext⟩
    exact hother (by simp [twoArgsText]; decide) htext
  · rintro ⟨-, -, htext⟩
    exact hother (by decide) htext.symm

/-- With the program in its files. -/
def programBench : Bench (Chip × List UInt8) := ⟨fun _ => some sampleProgram, sampleBench.wire⟩

theorem Bench.starts_programmed_sample : ∃ b' h before,
    [(plainWorld, Job.flash sampleName 1), (plainWorld, .dump otherName), (plainWorld, .reset)].foldlM
        (Bench.turn sampleSetup) programBench = some b' ∧
      b'.lpcprog sampleSetup plainWorld 0 "go" [] = some h ∧
      h.env.heard = before ++ (unlock, []) ::
        if (0x200 : UInt32) ≤ 0x201 - 0x201 % 2 then [(jumpText 0x201, [])] else [] := by
  have hr : Represents sampleSetup programBench { sampleStore with files := fun _ => some sampleProgram } :=
    sampleBench_represents.withFiles fun _ => some sampleProgram
  have hfile : programBench.files sampleName = some sampleProgram := rfl
  exact Bench.starts_programmed sampleSetup hr plainWorld plainWorld hfile
    sampleProgram_acceptable (by decide) (by rw [sampleProgram_length]; decide) sampleProgram_vector
    (by simp [Job.LeavesFlash]) ⟨trivial, trivial, trivial⟩
    fun _ d hidle => ⟨1, by omega, d, reader_jump hidle _⟩

end Sample

end LpcTools
