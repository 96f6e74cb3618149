import LpcTools.Proofs.Bootloader
import LpcTools.Proofs.Flashing

/-!
# `flash_target` from end to end

With success the flash holds the image, filled up with zeros to the end of its last block, and is blank
behind it. On a device that does all that it is asked for, an image that passes the checks gets there.
-/

namespace LpcTools

open Run

/-- The content of the flash, from its base on. -/
def PartDesc.contents (part : PartDesc) (f : UInt32 → UInt8) : List UInt8 :=
  (List.range part.flashSize.toNat).map fun i => f (part.flashBase + UInt32.ofNat i)

/-- How many bytes are written for an image. -/
def PartDesc.written (part : PartDesc) (image : List UInt8) : ℕ :=
  (nbWrites image part.writeSize).toNat * part.writeSize.toNat

/-- An image with zeros to the end of its last block. -/
def PartDesc.padded (part : PartDesc) (image : List UInt8) : List UInt8 :=
  image ++ .replicate (part.written image - image.length) 0

/-- What an image is to become in the flash. The user code makes up for the words before it. -/
def PartDesc.expected (part : PartDesc) (image : List UInt8) (calcUserCode : ℤ) : List UInt8 :=
  if calcUserCode = 1 then
    withUserCode (part.padded image) (0 - (wordSum (part.padded image) 7).getD 0)
  else part.padded image

section Expected

variable {part : PartDesc} {image data : List UInt8} {calcUserCode size : ℤ}

theorem userCode_eq_sub (h : 28 ≤ data.length) :
    ∃ sum, wordSum data 7 = some sum ∧ userCode data = some (0 - sum) := by
  obtain ⟨w, hw⟩ : ∃ w : ℕ → UInt32, ∀ k < 7, word data k = some (w k) :=
    ⟨fun k => (word data k).getD 0, fun k hk => by simp [word_eq (a := data) (k := k) (by omega)]⟩
  have hrange : List.range 7 = [0, 1, 2, 3, 4, 5, 6] := rfl
  refine ⟨0 + w 0 + w 1 + w 2 + w 3 + w 4 + w 5 + w 6, ?_, ?_⟩
  · unfold wordSum
    rw [hrange]
    simp only [List.foldlM_cons, List.foldlM_nil, hw 0 (by omega), hw 1 (by omega),
      hw 2 (by omega), hw 3 (by omega), hw 4 (by omega), hw 5 (by omega), hw 6 (by omega)]
    rfl
  · rw [userCode_eq hw]
    congr 1
    grind

/-- What is written of an image that is approved. -/
theorem Approved.data_eq (ha : Approved part calcUserCode size image data) : ∃ cksum,
    userCode (filled part image) = some cksum ∧
    data = if calcUserCode = 1 then withUserCode (filled part image) cksum else filled part image := by
  obtain ⟨hpatch, -⟩ := ha.checks (Host.start () 0 0 0)
  obtain ⟨cksum, -, hcksum, -, hdata⟩ := patchUserCode_some hpatch
  exact ⟨cksum, hcksum, hdata⟩

/-- The blocks of an image reach as far as the image. -/
theorem PartDesc.written_bounds (hws : part.writeSize ≠ 0) (hlen : image.length < 2 ^ 32)
    (hpos : 0 < image.length) : image.length ≤ part.written image ∧ 64 ≤ part.written image ∧
      part.written image < image.length + part.writeSize.toNat := by
  obtain ⟨h64, -, -⟩ := part.writeSize_bounds hws
  have hnb := nbWrites_toNat image h64
  rw [Nat.mod_eq_of_lt hlen] at hnb
  have hdiv := Nat.div_add_mod (image.length + (part.writeSize.toNat - 1)) part.writeSize.toNat
  have hmod := Nat.mod_lt (image.length + (part.writeSize.toNat - 1))
    (show 0 < part.writeSize.toNat by omega)
  rw [← hnb, Nat.mul_comm] at hdiv
  rw [PartDesc.written]
  have hblock : 0 < (nbWrites image part.writeSize).toNat := by
    by_contra h0
    rw [Nat.eq_zero_of_not_pos h0, Nat.zero_mul] at hdiv
    omega
  have := Nat.le_mul_of_pos_left part.writeSize.toNat hblock
  omega

/-- The blocks of what is written are what is to become of the image. -/
theorem Approved.take_written (ha : Approved part calcUserCode size image data)
    (hws : part.writeSize ≠ 0) (hsize : size = toInt image.length)
    (hlen : image.length ≤ part.flashSize.toNat) (hpos : 0 < image.length) :
    data.take (part.written image) = part.expected image calcUserCode ∧
      (part.expected image calcUserCode).length = part.written image := by
  obtain ⟨hle, h64, -⟩ := PartDesc.written_bounds hws
    (Nat.lt_of_le_of_lt hlen part.flashSize.toNat_lt) hpos
  obtain ⟨hfits, -⟩ := ha.fits_toNat hsize hws
  have hpad : (part.padded image).length = part.written image := by
    rw [PartDesc.padded, List.length_append, List.length_replicate]
    omega
  have hsplit : filled part image =
      part.padded image ++ .replicate (part.flashSize.toNat - part.written image) 0 := by
    rw [filled, PartDesc.padded, List.append_assoc, List.replicate_append_replicate]
    congr 2
    rw [← PartDesc.written] at hfits
    omega
  obtain ⟨sum, hsum, hcode⟩ : ∃ sum, wordSum (part.padded image) 7 = some sum ∧
      userCode (part.padded image) = some (0 - sum) := userCode_eq_sub (by omega)
  obtain ⟨cksum, hcksum, hdata⟩ := ha.data_eq
  rw [hsplit, userCode_append (by omega), hcode] at hcksum
  cases hcksum
  have hfour : (bytesOfWord (0 - sum)).length = 4 := rfl
  rw [PartDesc.expected, hsum, Option.getD_some]
  split_ifs at hdata ⊢ with h1
  · rw [hdata, hsplit, withUserCode, overlay_append_right (by omega), ← withUserCode]
    have hlen' : (withUserCode (part.padded image) (0 - sum)).length = part.written image := by
      rw [withUserCode, overlay_length (by omega), hpad]
    exact ⟨by rw [← hlen', List.take_left], hlen'⟩
  · rw [hdata, hsplit]
    exact ⟨by rw [← hpad, List.take_left], hpad⟩

end Expected

/-- What is asked of the description of a part. -/
structure PartDesc.Sound (part : PartDesc) : Prop where
  sectors : part.flashNbSectors.toNat ∣ part.flashSize.toNat
  writes : part.writeSize ≠ 0
  blocks : part.writeSize.toNat ∣ part.sectorSize.toNat
  low : 0x300 ≤ part.flashSize.toNat
  high : part.flashSize.toNat < 2 ^ 31
  ram : ¬ part.ramBase + part.ramSize < part.ramAddr

section Sound

variable {part : PartDesc} {image data : List UInt8} {calcUserCode : ℤ}

theorem PartDesc.Sound.nbSectors (hs : part.Sound) :
    0 < part.flashNbSectors.toNat ∧ part.sectors = part.flashNbSectors.toNat ∧
      part.flashNbSectors.toNat * part.sectorSize.toNat = part.flashSize.toNat := by
  have hlow := hs.low
  have hhigh := hs.high
  have hle := Nat.le_of_dvd (by omega) hs.sectors
  have hpos : 0 < part.flashNbSectors.toNat := Nat.pos_of_dvd_of_pos hs.sectors (by omega)
  refine ⟨hpos, ?_, ?_⟩
  · rw [PartDesc.sectors, toInt_of_lt (by omega), Int.toNat_natCast]
  · rw [PartDesc.sectorSize, UInt32.toNat_div, Nat.mul_div_cancel' hs.sectors]

theorem PartDesc.Sound.usable (hs : part.Sound) : part.Usable := by
  refine ⟨fun h0 => ?_, hs.ram, hs.writes⟩
  have := hs.nbSectors.1
  rw [h0] at this
  exact absurd this (by decide)

/-- Every address of the flash is in one of its sectors. -/
theorem PartDesc.Sound.sectorAt (hs : part.Sound) {i : ℕ} (hi : i < part.flashSize.toNat) :
    ∃ s < part.sectors, part.sectorAt (part.flashBase + UInt32.ofNat i) = some s := by
  have hhigh := hs.high
  obtain ⟨-, hsectors, hmul⟩ := hs.nbSectors
  have hoffset := offset_toNat part.flashBase (show i < 2 ^ 32 by omega)
  refine ⟨i / part.sectorSize.toNat, ?_, ?_⟩
  · rw [hsectors]
    refine Nat.div_lt_of_lt_mul ?_
    rwa [Nat.mul_comm, hmul]
  · rw [PartDesc.sectorAt, if_pos (by rwa [UInt32.lt_iff_toNat_lt, hoffset]), hoffset]

/-- An image that fits is written in blocks that fit. -/
theorem PartDesc.Sound.written_le (hs : part.Sound) (hlen : image.length ≤ part.flashSize.toNat)
    (hpos : 0 < image.length) : part.written image ≤ part.flashSize.toNat := by
  obtain ⟨-, -, hlt⟩ := PartDesc.written_bounds hs.writes
    (Nat.lt_of_le_of_lt hlen part.flashSize.toNat_lt) hpos
  have hdvd : part.writeSize.toNat ∣ part.flashSize.toNat := by
    rw [← hs.nbSectors.2.2]
    exact Dvd.dvd.mul_left hs.blocks _
  obtain ⟨k, hk⟩ := hdvd
  have hnext : part.writeSize.toNat * (nbWrites image part.writeSize).toNat <
      part.writeSize.toNat * (k + 1) := by
    rw [PartDesc.written, Nat.mul_comm] at hlt
    rw [Nat.mul_succ]
    omega
  have hle := Nat.mul_le_mul_left part.writeSize.toNat
    (Nat.le_of_lt_succ (Nat.lt_of_mul_lt_mul_left hnext))
  rwa [← hk, Nat.mul_comm] at hle

/-- The flash with an image in it that is as it is expected, and blank behind it. -/
theorem contents_programmed (hs : part.Sound) {expected : List UInt8} {n : ℕ} {g : UInt32 → UInt8}
    (hdata : data.take n = expected) (hexpected : expected.length = n) (hn : n ≤ part.flashSize.toNat)
    (hblank : ∀ a s, part.sectorAt a = some s → s < part.sectors → g a = 0xFF) :
    part.contents (part.programmed data n g) =
      expected ++ .replicate (part.flashSize.toNat - n) 0xFF := by
  have hhigh := hs.high
  have hlen : n ≤ data.length := by
    rw [← hdata, List.length_take] at hexpected
    omega
  refine List.ext_getElem ?_ fun i hi _ => ?_
  · rw [PartDesc.contents, List.length_map, List.length_range, List.length_append,
      List.length_replicate]
    omega
  rw [PartDesc.contents, List.length_map, List.length_range] at hi
  simp only [PartDesc.contents, List.getElem_map, List.getElem_range]
  by_cases hlt : i < n
  · rw [programmed_of_lt hlt hlen (by omega), List.getElem_append_left (by omega)]
    simp only [← hdata, List.getElem_take]
  · obtain ⟨s, hsec, hat⟩ := hs.sectorAt hi
    rw [programmed_of_le (by rw [offset_toNat _ (by omega)]; omega),
      List.getElem_append_right (by omega), List.getElem_replicate]
    exact hblank _ s hat hsec

end Sound

/-- With success the flash holds what is expected of the file and nothing else. On a device that does all
that it is asked for, a file that passes the checks is programmed. -/
theorem flashTarget_correct {δ : Type} {L : Line δ} (O : Sys (Wire δ)) {part : PartDesc}
    {chip : δ → Chip} (F : Faithful L part.sectorAt part.uuencode.toNat chip) (hs : part.Sound)
    {h : Host (Wire δ)} (hi : Idle chip h) {filename content : List UInt8}
    (hfile : ∀ env, Gives (L.sys O) env filename content) (hpos : 0 < content.length)
    (hlen : content.length ≤ part.flashSize.toNat) (calcUserCode : ℤ) :
    (∀ h', flashTarget (L.sys O) part filename calcUserCode h = .ok 0 h' →
      part.contents (chip h'.env.dev).flash = part.expected content calcUserCode ++
        .replicate (part.flashSize.toNat - part.written content) 0xFF) ∧
    ∀ refusals, Willing L part.sectorAt chip refusals → h.resendRequestedForBlock = 0 →
      (∀ env n, O.malloc env n = true) →
      (part.uuencode ≠ 0 → part.flashSize.toNat < part.written content + 2 →
        ∀ env, ∀ i < 2, O.beyond env i ≠ none) →
      (∃ data, PassesChecks h part content calcUserCode data) →
      ∃ h', flashTarget (L.sys O) part filename calcUserCode h = .ok 0 h' := by
  have hhigh := hs.high
  have hload (h : Host (Wire δ)) : ispFileToBuff (L.sys O) part.flashSize.toNat filename h =
      .ok (toInt content.length, content) h := by
    have := ispFileToBuff_gives (hfile h.env) part.flashSize.toNat
    rwa [List.take_of_length_le hlen] at this
  have hwritten := hs.written_le hlen hpos
  constructor
  · intro h' hrun
    have hend := flashTarget_end (O := O) (fun _ => 0) F hi filename calcUserCode
    obtain ⟨-, -, g, -, hblank, h₁, size, image, data, hloaded, happroved, hflash⟩ := hend.done h' hrun
    rw [hload] at hloaded
    cases hloaded
    obtain ⟨htake, hexpected⟩ := happroved.take_written hs.writes rfl hlen hpos
    rw [hflash]
    exact contents_programmed hs htake hexpected hwritten hblank
  · rintro refusals hwilling h0 hmalloc hbeyond ⟨data, hpass⟩
    have happroved : Approved part calcUserCode (toInt content.length) content data := by
      refine ⟨by rw [toInt_of_lt (by omega)]; exact_mod_cast hpos, hpass.of_host, ?_⟩
      rw [UInt32.lt_iff_toNat_lt, UInt32.toNat_mul, Nat.mod_eq_of_lt]
      · exact Nat.not_lt.2 hwritten
      · exact Nat.lt_of_le_of_lt hwritten part.flashSize.toNat_lt
    obtain ⟨hfits, hroom⟩ := happroved.fits_toNat rfl hs.writes
    refine (flashTarget_end (O := O) refusals F hi filename calcUserCode).willing hwilling h0 _ _ data
      ⟨hs.usable, fun env => hmalloc env _, hload, happroved, fun env j hj => ?_⟩
    unfold Sys.object
    split_ifs with hin
    · simp [hin]
    · -- only the encoder looks behind the image
      rw [← PartDesc.written] at hfits hj
      have hover : j - data.length < overRead part.uuencode.toNat := by omega
      unfold overRead at hover hj
      split_ifs at hover hj with hraw
      · omega
      · refine hbeyond (fun h0 => hraw (by rw [h0]; rfl)) ?_ env _ hover
        omega

/-- An image of zeros. -/
def zerosFile : List UInt8 := .replicate 0x400 0

theorem zerosFile_length : zerosFile.length = 0x400 := List.length_replicate

/-- An image of two blocks and a half, which is given its user code on the way to the device. -/
theorem flashTarget_correct_sixteens :
    let O := (Sys.plain (Wire Chip)).withFiles fun _ _ => some [.data (sixteens 0xA00)]
    let h : Host (Wire Chip) := .start (.quiet halfFull) 0 0 0
    ∃ h', flashTarget ((bootloader lpc1114.sectorAt 1).sys O) lpc1114 ['f'.toUInt8] 1 h = .ok 0 h' ∧
      lpc1114.contents h'.env.dev.flash = lpc1114.expected (sixteens 0xA00) 1 ++
        .replicate (lpc1114.flashSize.toNat - 0xC00) 0xFF := by
  intro O h
  have hsound : lpc1114.Sound := ⟨by decide, by decide, by decide, by decide, by decide, by decide⟩
  have hdevice : Faithful (bootloader lpc1114.sectorAt 1) lpc1114.sectorAt lpc1114.uuencode.toNat id :=
    bootloader_faithful
  have hidle : Idle id h := ⟨rfl, rfl, rfl⟩
  have hfile (env : Wire Chip) : Gives ((bootloader lpc1114.sectorAt 1).sys O) env ['f'.toUInt8]
      (sixteens 0xA00) := .single rfl rfl (sixteens_ne (by omega))
  have hcorrect := flashTarget_correct O hdevice hsound hidle hfile
    (by rw [sixteens_length]; omega) (by rw [sixteens_length]; decide) 1
  have hpass : ∃ data, PassesChecks h lpc1114 (sixteens 0xA00) 1 data := by
    obtain ⟨cksum, v₇, hi⟩ := sixteens_image (show 0x300 ≤ 0xA00 by omega)
    exact ⟨_, hi.fill.patchUserCode 1 h, _, hi.fill.patched.crp, by decide⟩
  have hwritten : lpc1114.written (sixteens 0xA00) = 0xC00 := by
    rw [PartDesc.written, nbWrites, sixteens_length]
    rfl
  rw [hwritten] at hcorrect
  obtain ⟨h', hrun⟩ := hcorrect.2 (fun _ => 0) bootloader_willing rfl (fun _ _ => rfl)
    (fun _ hover => absurd hover (by decide)) hpass
  exact ⟨h', hrun, hcorrect.1 h' hrun⟩

end LpcTools
