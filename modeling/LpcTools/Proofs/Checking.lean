import LpcTools.Check
import LpcTools.Proofs.Loading

/-!
# The checker and the flasher

`lpc_binary_check` looks at the words of the file, and `flash_target` at the words of the buffer the
file is loaded into. Both see the same words, so they come to the same verdict, and a file that has
been given its user code is programmed as the user code of `flash_target` makes it.
-/

namespace LpcTools

open Run

variable {σ : Type}

/-- The buffer of `flash_target` with an image in it. -/
def filled (part : PartDesc) (image : List UInt8) : List UInt8 :=
  image ++ .replicate (part.flashSize.toNat - image.length) 0

/-- `flash_target` gets past its checks of the image, with this in its buffer. -/
def PassesChecks (h : Host σ) (part : PartDesc) (image : List UInt8) (calcUserCode : ℤ)
    (data : List UInt8) : Prop :=
  patchUserCode (filled part image) calcUserCode h = .ok (some data) h ∧
    ∃ crp, word data (crpOffset / 4) = some crp ∧ isCrp crp = false

/-- The same system with other files. -/
def Sys.withFiles (E : Sys σ) (openInput : σ → List UInt8 → Option (List ReadOutcome)) : Sys σ :=
  { E with openInput := openInput }

/-- The file is written as it is asked for. -/
def Saves (E : Sys σ) (filename : List UInt8) : Prop :=
  ∀ env, E.openOutput env filename = true ∧ ∀ n, E.save env n = some n

/-- The image with its user code. -/
def withUserCode (content : List UInt8) (cksum : UInt32) : List UInt8 :=
  overlay content 28 (bytesOfWord cksum)

/-- The sum of the first words. -/
def wordSum (data : List UInt8) (n : ℕ) : Option UInt32 :=
  (List.range n).foldlM (fun sum k => (sum + ·) <$> word data k) 0

section Verdict

variable {E : Sys σ} {part : PartDesc} {image data : List UInt8} {h : Host σ} {calcUserCode : ℤ}

/-- An image that passes the checks is programmed, one that does not is refused at once. -/
theorem flashImage_passes (hpass : PassesChecks h part image calcUserCode data)
    {writeSize : UInt32} (hwrites : writeSize ≠ 0) (sectorSize ramAddr : UInt32) :
    flashImage E part image writeSize sectorSize ramAddr calcUserCode h =
      (let size := UInt32.ofNat image.length
      let blocks := size / writeSize + if size % writeSize ≠ 0 then 1 else 0
      if part.flashSize < blocks * writeSize then pure (-7)
      else flashBlocks E part data writeSize sectorSize ramAddr blocks.toNat 0 : Prog σ ℤ) h := by
  obtain ⟨hpatch, crp, hword, hcrp⟩ := hpass
  rw [filled] at hpatch
  unfold flashImage
  rw [bind_ok hpatch]
  simp only [hword, hcrp, Bool.false_eq_true, if_false, if_neg hwrites]

/-- The user code of a file, and the word that the checker compares. -/
structure Image (content : List UInt8) (cksum v₇ crp : UInt32) : Prop where
  length : 0x300 ≤ content.length
  userCode : LpcTools.userCode content = some cksum
  code : word content 7 = some v₇
  crp : word content (crpOffset / 4) = some crp

theorem exists_image {content : List UInt8} (hlen : 0x300 ≤ content.length) :
    ∃ cksum v₇ crp, Image content cksum v₇ crp := by
  obtain ⟨cksum, hcksum⟩ := exists_userCode (a := content) (by omega)
  exact ⟨cksum, _, _, hlen, hcksum, word_eq (by omega), word_eq (by rw [crpOffset]; omega)⟩

theorem Image.fill {content : List UInt8} {cksum v₇ crp : UInt32} (hi : Image content cksum v₇ crp) :
    Image (filled part content) cksum v₇ crp := by
  have hlen := hi.length
  refine ⟨?_, ?_, ?_, ?_⟩
  · rw [filled, List.length_append]
    omega
  · rw [filled, userCode_append (by omega), hi.userCode]
  · rw [filled, word_append (by omega), hi.code]
  · rw [filled, word_append (by rw [crpOffset]; omega), hi.crp]

theorem Image.patched {content : List UInt8} {cksum v₇ crp : UInt32} (hi : Image content cksum v₇ crp) :
    Image (withUserCode content cksum) cksum cksum crp := by
  have hlen := hi.length
  have hother (j : ℕ) (hj : j ≠ 7) : word (withUserCode content cksum) j = word content j :=
    word_overlay_other (k := 7) (by omega) hj
  refine ⟨?_, ?_, ?_, ?_⟩
  · rw [withUserCode, overlay_length (by rw [show (bytesOfWord cksum).length = 4 from rfl]; omega)]
    exact hlen
  · rw [userCode_congr fun k hk => hother k (by omega), hi.userCode]
  · exact word_overlay_self (k := 7) (by omega)
  · rw [hother _ (by decide), hi.crp]

theorem Image.filled_patched {content : List UInt8} {cksum v₇ crp : UInt32}
    (hi : Image content cksum v₇ crp) :
    filled part (withUserCode content cksum) = withUserCode (filled part content) cksum := by
  have hlen := hi.length
  have hfits : 28 + (bytesOfWord cksum).length ≤ content.length := by
    rw [show (bytesOfWord cksum).length = 4 from rfl]
    omega
  rw [filled, filled, withUserCode, withUserCode, overlay_length hfits, overlay_append_right hfits]

theorem Image.patchUserCode {content : List UInt8} {cksum v₇ crp : UInt32}
    (hi : Image content cksum v₇ crp) (calcUserCode : ℤ) (h : Host σ) :
    LpcTools.patchUserCode content calcUserCode h =
      .ok (if calcUserCode = 1 then some (withUserCode content cksum)
        else if cksum ≠ v₇ then none else some content) h := by
  unfold LpcTools.patchUserCode
  rw [hi.userCode, hi.code]
  simp only []
  split_ifs <;> rfl

/-- Which images get past the checks. -/
theorem Image.passes_iff {content : List UInt8} {cksum v₇ crp : UInt32}
    (hi : Image content cksum v₇ crp) (h : Host σ) :
    (∃ data, PassesChecks h part content 0 data) ↔ cksum = v₇ ∧ isCrp crp = false := by
  have hfill : Image (filled part content) cksum v₇ crp := hi.fill
  have hpatch := hfill.patchUserCode 0 h
  rw [if_neg (by decide)] at hpatch
  constructor
  · rintro ⟨data, hdata, crp', hword, hcrp⟩
    rw [hpatch] at hdata
    split_ifs at hdata with hne
    · cases hdata
    · cases hdata
      rw [hfill.crp] at hword
      cases hword
      exact ⟨not_not.1 hne, hcrp⟩
  · rintro ⟨rfl, hcrp⟩
    rw [if_neg (by simp)] at hpatch
    exact ⟨_, hpatch, crp, hfill.crp, hcrp⟩

end Verdict

section Runs

variable {E : Sys σ} {part : PartDesc} {filename content : List UInt8} {cksum v₇ crp : UInt32}
  {h : Host σ}

theorem binaryCheck_load (hmalloc : ∀ env n, E.malloc env n = true)
    (hfile : Gives E h.env filename content) (hload : 0 < toInt content.length)
    (hlen : content.length < 2 ^ 32) (calcUserCode checkCrp : Bool) :
    binaryCheck E calcUserCode checkCrp (some content.length) filename h =
      (Prod.fst <$> checkImage E calcUserCode checkCrp (toInt content.length) content filename) h := by
  have hloaded := ispFileToBuff_gives hfile content.length
  rw [List.take_length] at hloaded
  unfold binaryCheck
  refine map_congr ?_
  unfold binaryCheckReport
  simp only [Nat.mod_eq_of_lt hlen]
  rw [bind_ok (get_apply _), hmalloc, if_neg (by simp), bind_ok (uninit_apply _ _ _), bind_ok hloaded]
  simp only [if_neg (Int.not_le.2 hload)]
  rw [overlay_zero, List.drop_of_length_le (by simp), List.append_nil]

theorem Image.verify (hi : Image content cksum v₇ crp) (checkCrp : Bool) (ret : ℤ) : ∃ reports,
    verifyCrp checkCrp content ret h =
      .ok (if checkCrp = true ∧ isCrp crp = true then -4 else ret, reports) h := by
  unfold verifyCrp
  rw [hi.crp]
  rcases checkCrp with _ | _
  · exact ⟨_, rfl⟩
  · by_cases hcrp : isCrp crp = true
    · simp [hcrp]
    · simp [hcrp]

/-- What is returned for an image whose user code is not set. -/
theorem Image.checked (hi : Image content cksum v₇ crp) (checkCrp : Bool) (size : ℤ)
    (filename : List UInt8) : ∃ reports,
    checkImage E false checkCrp size content filename h =
      .ok (if checkCrp = true ∧ isCrp crp = true then -4 else if cksum ≠ v₇ then -3 else 0, reports)
        h := by
  unfold checkImage
  rw [hi.userCode, hi.code]
  simp only [Bool.false_eq_true, if_false]
  by_cases hne : cksum ≠ v₇
  · obtain ⟨reports, hverify⟩ := hi.verify (h := h) checkCrp (-3)
    rw [if_pos hne, if_pos hne, bind_ok hverify]
    exact ⟨_, rfl⟩
  · obtain ⟨reports, hverify⟩ := hi.verify (h := h) checkCrp 0
    rw [if_neg hne, if_neg hne, hverify]
    exact ⟨_, rfl⟩

theorem ispBuffToFile_saves (hsave : Saves E filename) (hname : isStdStream filename = false)
    {data : List UInt8} (hlen : data.length < 2 ^ 32) :
    ispBuffToFile E (data.map some) (toUnsigned (toInt data.length)) filename h =
      .ok (toInt data.length) (h.emit (.saved (data.map some))) := by
  have hcount : (toUnsigned (toInt data.length)).toNat = data.length := by
    rw [toUnsigned_toInt, UInt32.toNat_ofNat_of_lt' hlen]
  have hcells : cellsAt (data.map some) data.length = data.map some := by
    rw [cellsAt, List.length_map, Nat.sub_self, List.replicate_zero, List.append_nil,
      List.take_of_length_le (by rw [List.length_map])]
  obtain ⟨hopen, hall⟩ := hsave h.env
  unfold ispBuffToFile
  change (if (!isStdStream filename && !E.openOutput h.env filename) = true then _ else _ : Prog σ ℤ)
    h = _
  rw [hname, hopen, if_neg (by simp), hall, hcount]
  simp only [hcells]
  change EStateM.Result.ok (if toInt data.length ≠ toInt data.length then -2 else toInt data.length) _ = _
  rw [if_neg (by simp)]

theorem eraseSectors_withFiles (f : σ → List UInt8 → Option (List ReadOutcome)) (n i : ℕ) :
    eraseSectors (E.withFiles f) n i = eraseSectors E n i := by
  have hsend (cmd : UInt8) (first last quiet : ℤ) :
      ispSendCmdSectors (E.withFiles f) cmd first last quiet =
        ispSendCmdSectors E cmd first last quiet := rfl
  have hread (n m : ℕ) : readMore (E.withFiles f) n m = readMore E n m := rfl
  induction n generalizing i with
  | zero => rfl
  | succ n ih =>
    unfold eraseSectors
    simp only [hsend, hread, ih]

theorem flashBlocks_withFiles (f : σ → List UInt8 → Option (List ReadOutcome)) (part : PartDesc)
    (data : List UInt8) (writeSize sectorSize ramAddr : UInt32) (n i : ℕ) :
    flashBlocks (E.withFiles f) part data writeSize sectorSize ramAddr n i =
      flashBlocks E part data writeSize sectorSize ramAddr n i := by
  have hsend (cmd : UInt8) (first last quiet : ℤ) :
      ispSendCmdSectors (E.withFiles f) cmd first last quiet =
        ispSendCmdSectors E cmd first last quiet := rfl
  have hcopy (cmd : UInt8) (addr1 addr2 length : UInt32) :
      ispSendCmdAddress (E.withFiles f) cmd addr1 addr2 length =
        ispSendCmdAddress E cmd addr1 addr2 length := rfl
  have hblock (data : Mem) (addr : ℕ) (count : UInt32) (uu : ℕ) :
      ispSendBufToRam (E.withFiles f) data addr count uu = ispSendBufToRam E data addr count uu := rfl
  have hobject (env : σ) (data : List UInt8) : (E.withFiles f).object env data = E.object env data := rfl
  induction n generalizing i with
  | zero => rfl
  | succ n ih =>
    unfold flashBlocks
    simp only [hsend, hcopy, hblock, hobject, ih]

theorem withUserCode_length (hi : Image content cksum v₇ crp) :
    (withUserCode content cksum).length = content.length :=
  overlay_length (by rw [show (bytesOfWord cksum).length = 4 from rfl]; have := hi.length; omega)

/-- The two images come to the same blocks. -/
theorem flashImage_withUserCode (hi : Image content cksum v₇ crp)
    (f : σ → List UInt8 → Option (List ReadOutcome)) (writeSize sectorSize ramAddr : UInt32) :
    flashImage (E.withFiles f) part (withUserCode content cksum) writeSize sectorSize ramAddr 0 h =
      flashImage E part content writeSize sectorSize ramAddr 1 h := by
  have hlen := withUserCode_length hi
  have hfill : Image (filled part content) cksum v₇ crp := hi.fill
  have hpatched : Image (filled part (withUserCode content cksum)) cksum cksum crp := hi.patched.fill
  have hnew := hpatched.patchUserCode 0 h
  have hold := hfill.patchUserCode 1 h
  rw [if_neg (by decide), if_neg (by simp), hi.filled_patched] at hnew
  rw [if_pos rfl] at hold
  have hfilled : filled part (withUserCode content cksum) = withUserCode (filled part content) cksum :=
    hi.filled_patched
  rw [filled] at hnew hold
  rw [filled, filled] at hfilled
  unfold flashImage
  rw [hfilled, hlen, bind_ok hold, bind_ok hnew]
  simp only [flashBlocks_withFiles]

/-- What is programmed from the file with its user code is what is programmed from the file. -/
theorem flashTarget_withUserCode (hi : Image content cksum v₇ crp)
    (f : σ → List UInt8 → Option (List ReadOutcome)) (hfile : ∀ env, Gives E env filename content)
    (hfile' : ∀ env, Gives (E.withFiles f) env filename (withUserCode content cksum))
    (hfit : content.length ≤ part.flashSize.toNat) :
    flashTarget (E.withFiles f) part filename 0 h = flashTarget E part filename 1 h := by
  have hlen := withUserCode_length hi
  have herase : eraseFlash (E.withFiles f) part = eraseFlash E part := by
    unfold eraseFlash
    simp only [eraseSectors_withFiles]
    rfl
  unfold flashTarget
  simp only [herase]
  split_ifs
  · rfl
  · rfl
  · rfl
  · rcases hrun : eraseFlash E part h with ⟨ret, h₁⟩ | ⟨e, h₁⟩
    · rw [bind_ok hrun, bind_ok hrun]
      by_cases hret : ret ≠ 0
      · simp only [if_pos hret]
      · simp only [if_neg hret]
        change (if (!E.malloc h₁.env part.flashSize.toNat) = true then _ else _ : Prog σ ℤ) h₁ =
          (if (!E.malloc h₁.env part.flashSize.toNat) = true then _ else _ : Prog σ ℤ) h₁
        by_cases hmalloc : (!E.malloc h₁.env part.flashSize.toNat) = true
        · rw [if_pos hmalloc, if_pos hmalloc]
        · have hload := ispFileToBuff_gives (hfile h₁.env) part.flashSize.toNat
          have hload' := ispFileToBuff_gives (hfile' h₁.env) part.flashSize.toNat
          rw [List.take_of_length_le hfit] at hload
          rw [List.take_of_length_le (by omega), hlen] at hload'
          rw [if_neg hmalloc, if_neg hmalloc, bind_ok hload, bind_ok hload']
          by_cases hsize : toInt content.length ≤ 0
          · simp only [if_pos hsize]
          · simp only [if_neg hsize]
            exact flashImage_withUserCode hi f _ _ _
    · rw [bind_error hrun, bind_error hrun]

theorem userCode_eq {w : ℕ → UInt32} (h : ∀ k < 7, word content k = some (w k)) :
    userCode content = some (0 - w 0 - w 1 - w 2 - w 3 - w 4 - w 5 - w 6) := by
  have hrange : List.range 7 = [0, 1, 2, 3, 4, 5, 6] := rfl
  unfold userCode
  rw [hrange]
  simp only [List.foldlM_cons, List.foldlM_nil, h 0 (by omega), h 1 (by omega), h 2 (by omega),
    h 3 (by omega), h 4 (by omega), h 5 (by omega), h 6 (by omega)]
  rfl

theorem image_replicate {n : ℕ} (hlen : 0x300 ≤ n) : Image (.replicate n 0) 0 0 0 := by
  refine ⟨by simpa, ?_, word_replicate (by omega), word_replicate (by rw [crpOffset]; omega)⟩
  rw [userCode_eq (w := fun _ => 0) fun k hk => word_replicate (by omega)]
  rfl

/-- The user code makes up for the words before it. -/
theorem Image.sum (hi : Image content cksum v₇ crp) : wordSum (withUserCode content cksum) 8 = some 0 := by
  have hlen := hi.length
  obtain ⟨w, hw⟩ : ∃ w : ℕ → UInt32, ∀ k < 7, word content k = some (w k) :=
    ⟨fun k => (word content k).getD 0, fun k hk => by simp [word_eq (a := content) (k := k) (by omega)]⟩
  have hcode : cksum = 0 - w 0 - w 1 - w 2 - w 3 - w 4 - w 5 - w 6 :=
    Option.some.inj (hi.userCode.symm.trans (userCode_eq hw))
  have hother (j : ℕ) (hj : j < 7) : word (withUserCode content cksum) j = some (w j) :=
    (word_overlay_other (k := 7) (by omega) (by omega)).trans (hw j hj)
  have hrange : List.range 8 = [0, 1, 2, 3, 4, 5, 6, 7] := rfl
  unfold wordSum
  rw [hrange]
  simp only [List.foldlM_cons, List.foldlM_nil, hother 0 (by omega), hother 1 (by omega),
    hother 2 (by omega), hother 3 (by omega), hother 4 (by omega), hother 5 (by omega),
    hother 6 (by omega), hi.patched.code]
  change some (0 + w 0 + w 1 + w 2 + w 3 + w 4 + w 5 + w 6 + cksum) = some 0
  rw [hcode]
  congr 1
  grind

theorem getElem?_withUserCode (hi : Image content cksum v₇ crp) {i : ℕ} (h : i < 28 ∨ 32 ≤ i) :
    (withUserCode content cksum)[i]? = content[i]? := by
  have hlen := hi.length
  have hfour : (bytesOfWord cksum).length = 4 := rfl
  rw [withUserCode, getElem?_overlay (by omega), if_neg (by omega)]

/-- The code that is there already is written again. -/
theorem Image.twice (hi : Image content cksum v₇ crp) :
    withUserCode (withUserCode content cksum) cksum = withUserCode content cksum := by
  have hlen := hi.length
  have hfour : (bytesOfWord cksum).length = 4 := rfl
  have hlen' := withUserCode_length hi
  refine List.ext_getElem? fun i => ?_
  rw [withUserCode, getElem?_overlay (by omega)]
  split_ifs with h
  · rw [withUserCode, getElem?_overlay (by omega), if_pos h]
  · rfl

/-- A run of the checker that computes the user code writes the file with it. -/
theorem binaryCheck_saved (hmalloc : ∀ env n, E.malloc env n = true)
    (hfile : Gives E h.env filename content) (hsave : Saves E filename)
    (hload : 0 < toInt content.length) (hlen : content.length < 2 ^ 32)
    (hi : Image content cksum v₇ crp) (checkCrp : Bool) :
    final (binaryCheck E true checkCrp (some content.length) filename h) =
      h.emit (.saved ((withUserCode content cksum).map some)) := by
  have hlen' := withUserCode_length hi
  have hlt : (withUserCode content cksum).length < 2 ^ 32 := by omega
  have hsaved := ispBuffToFile_saves (h := h) hsave hfile.name hlt
  rw [hlen'] at hsaved
  obtain ⟨reports, hverify⟩ := hi.patched.verify (h := h.emit (.saved ((withUserCode content cksum).map some)))
    checkCrp 0
  rw [binaryCheck_load hmalloc hfile hload hlen, map_ok]
  · rfl
  · unfold checkImage
    rw [hi.userCode, hi.code]
    simp only [if_true]
    rw [← withUserCode, bind_ok hsaved, bind_ok hverify]
    rfl

end Runs

section Sample

/-- Sixteen bytes of every value. -/
def sixteens (n : ℕ) : List UInt8 := (List.range n).map fun i => UInt8.ofNat (i / 16)

theorem sixteens_length (n : ℕ) : (sixteens n).length = n := by simp [sixteens]

theorem sixteens_ne {n : ℕ} (hn : 0 < n) : sixteens n ≠ [] :=
  List.ne_nil_of_length_pos (by rwa [sixteens_length])

theorem sixteens_crp {n : ℕ} (hn : 0x300 ≤ n) :
    word (sixteens n) (crpOffset / 4) = some 0x2F2F2F2F := by
  rw [word_eq (by rw [sixteens_length, crpOffset]; omega)]
  simp only [sixteens, crpOffset, List.getElem_map, List.getElem_range]
  decide

/-- The image has a user code to be written, and no CRP pattern. -/
theorem sixteens_image {n : ℕ} (hn : 0x300 ≤ n) : ∃ cksum v₇,
    Image (sixteens n) cksum v₇ 0x2F2F2F2F := by
  obtain ⟨cksum, v₇, crp, hi⟩ := exists_image (show 0x300 ≤ (sixteens n).length by rwa [sixteens_length])
  have hcrp := hi.crp
  rw [sixteens_crp hn] at hcrp
  exact ⟨cksum, v₇, Option.some.inj hcrp ▸ hi⟩

theorem sixteens_userCode : userCode (sixteens 0x300) = some 0xFCFCFCFD := by decide +kernel

theorem sixteens_code : word (sixteens 0x300) 7 = some 0x01010101 := by decide +kernel

theorem sixteens_sum : wordSum (sixteens 0x300) 8 = some 0x04040404 := by decide +kernel

/-- A system of which every file is such an image. -/
def sixteensSys : Sys Unit := { Sys.plain Unit with openInput := fun _ _ => some [.data (sixteens 0x300)] }

theorem sixteensSys_gives (env : Unit) : Gives sixteensSys env ['f'.toUInt8] (sixteens 0x300) :=
  .single rfl rfl (sixteens_ne (by omega))

/-- A part that such an image fits into. -/
def smallPart : PartDesc := ⟨0, 0x1000, 4, 4, 0, 0x400, 0x300, 0x100, 0⟩

end Sample

end LpcTools
