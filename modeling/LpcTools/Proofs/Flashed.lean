import LpcTools.Proofs.EndToEnd

/-!
# What the flash holds after `flash_target`

On a device that does all that it is asked for, and for a sound part, every file has one outcome. What
fits the flash of a file that passes the checks is in it, as it is to become, and the rest is blank.
Another file, or none, leaves the flash blank, as it is erased before the file is looked at.
-/

namespace LpcTools

open Run

/-- The flash of a part with nothing in it. -/
def PartDesc.erased (part : PartDesc) : List UInt8 := .replicate part.flashSize.toNat 0xFF

/-- The checks of `flash_target`, of an image that fits the flash. -/
def PartDesc.acceptable (part : PartDesc) (calcUserCode : ℤ) (image : List UInt8) : Bool :=
  image ≠ [] && (calcUserCode = 1 || userCode (filled part image) = word (filled part image) 7) &&
    !((word (filled part image) (crpOffset / 4)).any isCrp)

/-- What becomes of the flash with a file. -/
def PartDesc.flashed (part : PartDesc) (calcUserCode : ℤ) : Option (List UInt8) → List UInt8
  | none => part.erased
  | some content =>
    let image := content.take part.flashSize.toNat
    if part.acceptable calcUserCode image then
      part.expected image calcUserCode ++
        .replicate (part.flashSize.toNat - part.written image) 0xFF
    else part.erased

/-- There is this file of the name, or none. -/
def FileIs {σ : Type} (E : Sys σ) (filename : List UInt8) : Option (List UInt8) → Prop
  | none => isStdStream filename = false ∧ ∀ env, E.openInput env filename = none
  | some content => ∀ env, Gives E env filename content

section Acceptable

variable {part : PartDesc} {image : List UInt8} {calcUserCode : ℤ}

theorem PartDesc.Sound.filled_image (hs : part.Sound) (image : List UInt8) :
    ∃ cksum v₇ crp, Image (filled part image) cksum v₇ crp := by
  refine exists_image ?_
  rw [filled, List.length_append, List.length_replicate]
  have := hs.low
  omega

theorem Image.acceptable_iff {cksum v₇ crp : UInt32} (hi : Image (filled part image) cksum v₇ crp) :
    part.acceptable calcUserCode image = true ↔
      image ≠ [] ∧ (calcUserCode = 1 ∨ cksum = v₇) ∧ isCrp crp = false := by
  simp [PartDesc.acceptable, hi.userCode, hi.code, hi.crp, and_assoc]

/-- An image that is acceptable is approved. -/
theorem PartDesc.Sound.approved (hs : part.Sound) (hlen : image.length ≤ part.flashSize.toNat)
    (haccept : part.acceptable calcUserCode image = true) :
    ∃ data, Approved part calcUserCode (toInt image.length) image data := by
  obtain ⟨cksum, v₇, crp, hi⟩ := hs.filled_image _
  obtain ⟨hne, hcode, hcrp⟩ := hi.acceptable_iff.1 haccept
  have hpos := List.length_pos_iff.2 hne
  have hhigh := hs.high
  have hwritten := hs.written_le hlen hpos
  have hload : 0 < toInt image.length := by
    rw [toInt_of_lt (by omega)]
    exact_mod_cast hpos
  have hfits : ¬ part.flashSize < nbWrites image part.writeSize * part.writeSize := by
    rw [UInt32.lt_iff_toNat_lt, UInt32.toNat_mul, Nat.mod_eq_of_lt]
    · exact Nat.not_lt.2 hwritten
    · exact Nat.lt_of_le_of_lt hwritten part.flashSize.toNat_lt
  by_cases hcalc : calcUserCode = 1
  · refine ⟨withUserCode (filled part image) cksum, hload, fun h => ⟨?_, crp, hi.patched.crp, hcrp⟩, hfits⟩
    rw [hi.patchUserCode, if_pos hcalc]
  · refine ⟨filled part image, hload, fun h => ⟨?_, crp, hi.crp, hcrp⟩, hfits⟩
    rw [hi.patchUserCode, if_neg hcalc, if_neg (not_not.2 (hcode.resolve_left hcalc))]

/-- Another is refused. -/
theorem PartDesc.Sound.refused {σ : Type} {E : Sys σ} (hs : part.Sound)
    (hne : image ≠ []) (haccept : part.acceptable calcUserCode image = false) (writeSize sectorSize ramAddr : UInt32)
    (h : Host σ) : ∃ ret, ret ≠ 0 ∧
      flashImage E part image writeSize sectorSize ramAddr calcUserCode h = .ok ret h := by
  obtain ⟨cksum, v₇, crp, hi⟩ := hs.filled_image _
  have hno := mt hi.acceptable_iff.2 (by rw [haccept]; simp)
  have hpatch := hi.patchUserCode calcUserCode h
  rw [filled] at hpatch
  unfold flashImage
  rw [bind_ok hpatch]
  by_cases hcalc : calcUserCode = 1
  · have hcrp : isCrp crp = true := by
      by_contra hcrp
      exact hno ⟨hne, .inl hcalc, Bool.eq_false_iff.2 hcrp⟩
    have hword := hi.patched.crp
    rw [filled] at hword
    refine ⟨-6, by decide, ?_⟩
    simp only [if_pos hcalc, hword, hcrp, if_true]
    rfl
  rw [if_neg hcalc]
  by_cases hcode : cksum = v₇
  · have hcrp : isCrp crp = true := by
      by_contra hcrp
      exact hno ⟨hne, .inr hcode, Bool.eq_false_iff.2 hcrp⟩
    have hword := hi.crp
    rw [filled] at hword
    refine ⟨-6, by decide, ?_⟩
    simp only [if_neg (not_not.2 hcode), hword, hcrp, if_true]
    rfl
  · refine ⟨-5, by decide, ?_⟩
    rw [if_pos hcode]
    rfl

end Acceptable

section Contents

variable {part : PartDesc} {f : UInt32 → UInt8}

theorem PartDesc.contents_length : (part.contents f).length = part.flashSize.toNat := by
  rw [PartDesc.contents, List.length_map, List.length_range]

theorem PartDesc.erased_length : part.erased.length = part.flashSize.toNat := List.length_replicate

theorem PartDesc.Sound.contents_erased (hs : part.Sound)
    (hblank : ∀ a s, part.sectorAt a = some s → s < part.sectors → f a = 0xFF) :
    part.contents f = part.erased := by
  refine List.ext_getElem (by rw [PartDesc.contents_length, PartDesc.erased_length]) fun i hi _ => ?_
  rw [PartDesc.contents_length] at hi
  obtain ⟨s, hsec, hat⟩ := hs.sectorAt hi
  simp only [PartDesc.contents, PartDesc.erased, List.getElem_map, List.getElem_range,
    List.getElem_replicate]
  exact hblank _ s hat hsec

end Contents

section Target

variable {δ : Type} {L : Line δ} {O : Sys (Wire δ)} {part : PartDesc} {chip : δ → Chip}
  {refusals : δ → ℕ} {h : Host (Wire δ)} {filename : List UInt8} {file : Option (List UInt8)}

theorem ispFileToBuff_missing {σ : Type} {E : Sys σ} (hname : isStdStream filename = false)
    (hmissing : ∀ env, E.openInput env filename = none) (len : ℕ) (h : Host σ) :
    ispFileToBuff E len filename h = .ok (-13, []) h := by
  unfold ispFileToBuff
  change (if isStdStream filename = true then _ else _ : Prog σ _) h = _
  rw [hname, if_neg Bool.false_ne_true, hmissing]
  rfl

/-- The flash is erased. -/
theorem eraseFlash_erased (F : Faithful L part.sectorAt part.uuencode.toNat chip)
    (W : Willing L part.sectorAt chip refusals) (hs : part.Sound) (hi : Idle chip h) : ∃ h',
    eraseFlash (L.sys O) part h = .ok 0 h' ∧ Idle chip h' ∧
      part.contents (chip h'.env.dev).flash = part.erased ∧
      h'.resendRequestedForBlock = h.resendRequestedForBlock := by
  obtain ⟨ret, h', herase, hswept⟩ := eraseFlash_swept (O := O) refusals F hi part
  obtain ⟨rfl, hrequested⟩ := hswept.willing W
  refine ⟨h', herase, hswept.idle rfl, hs.contents_erased fun a s ha hlt => ?_, hrequested⟩
  exact hswept.blank rfl a s ha (Nat.zero_le s) (by omega)

theorem flashTarget_flashed (F : Faithful L part.sectorAt part.uuencode.toNat chip)
    (W : Willing L part.sectorAt chip refusals) (hs : part.Sound) (hi : Idle chip h)
    (h0 : h.resendRequestedForBlock = 0) (hmalloc : ∀ env n, O.malloc env n = true)
    (hbeyond : ∀ env, ∀ i < 2, O.beyond env i ≠ none) (hfile : FileIs (L.sys O) filename file)
    (calcUserCode : ℤ) : ∃ ret h',
    flashTarget (L.sys O) part filename calcUserCode h = .ok ret h' ∧ Idle chip h' ∧
      part.contents (chip h'.env.dev).flash = part.flashed calcUserCode file := by
  obtain ⟨h₁, herase, hi₁, hcontents, -⟩ := eraseFlash_erased (O := O) F W hs hi
  have hmalloc₁ : (L.sys O).malloc h₁.env part.flashSize.toNat = true := hmalloc _ _
  have hrest := flashTarget_of_erased hs.usable herase filename calcUserCode
  rw [bind_ok (get_apply _), if_neg (by simp [hmalloc₁])] at hrest
  rcases file with _ | content
  · rw [bind_ok (ispFileToBuff_missing hfile.1 hfile.2 _ h₁)] at hrest
    exact ⟨-5, h₁, hrest, hi₁, hcontents⟩
  have hload (h : Host (Wire δ)) := ispFileToBuff_gives (hfile h.env) part.flashSize.toNat (h := h)
  obtain ⟨image, himage⟩ : ∃ image, content.take part.flashSize.toNat = image := ⟨_, rfl⟩
  have hlen : image.length ≤ part.flashSize.toNat := by
    rw [← himage]
    exact List.length_take_le _ _
  simp only [himage] at hload
  simp only [PartDesc.flashed, himage]
  rw [bind_ok (hload h₁)] at hrest
  rcases haccept : part.acceptable calcUserCode image with _ | _
  · simp only [Bool.false_eq_true, if_false]
    by_cases hne : image = []
    · subst hne
      exact ⟨-5, h₁, hrest, hi₁, hcontents⟩
    · have hpos : ¬ toInt image.length ≤ 0 := by
        have := List.length_pos_iff.2 hne
        have := hs.high
        rw [toInt_of_lt (by omega)]
        omega
      simp only [if_neg hpos] at hrest
      obtain ⟨ret, -, hrefused⟩ := hs.refused (E := L.sys O) hne haccept part.writeSize
        part.sectorSize part.ramAddr h₁
      exact ⟨ret, h₁, hrest.trans hrefused, hi₁, hcontents⟩
  · obtain ⟨data, happroved⟩ := hs.approved hlen haccept
    have hne : image ≠ [] := by
      obtain ⟨cksum, v₇, crp, hi⟩ := hs.filled_image _
      exact (hi.acceptable_iff.1 haccept).1
    have hpos := List.length_pos_iff.2 hne
    have hend := flashTarget_end (O := O) refusals F hi filename calcUserCode
    have hready : HostReady L O part filename calcUserCode (toInt image.length) image data := by
      refine ⟨hs.usable, fun env => hmalloc env _, hload, happroved, fun env j hj => ?_⟩
      obtain ⟨hfits, hroom⟩ := happroved.fits_toNat rfl hs.writes
      unfold Sys.object
      split_ifs with hin
      · simp [hin]
      · refine hbeyond env _ ?_
        unfold overRead at hj
        split_ifs at hj <;> omega
    obtain ⟨h', hrun⟩ := hend.willing W h0 _ _ _ hready
    obtain ⟨hi', -, g, -, hblank, h₂, size, image', data', hloaded, happroved', hflash⟩ :=
      hend.done h' hrun
    rw [hload] at hloaded
    cases hloaded
    obtain ⟨htake, hexpected⟩ := happroved'.take_written hs.writes rfl hlen hpos
    refine ⟨0, h', hrun, hi', ?_⟩
    rw [hflash, if_pos rfl]
    exact contents_programmed hs htake hexpected (hs.written_le hlen hpos) hblank

end Target

section Whole

variable {part : PartDesc} {content : List UInt8}

/-- An image of the whole flash is programmed as it is. -/
theorem PartDesc.Sound.flashed_whole (hs : part.Sound) (hlen : content.length = part.flashSize.toNat)
    {calcUserCode : ℤ} (hcalc : calcUserCode ≠ 1) :
    part.flashed calcUserCode (some content) =
      if part.acceptable calcUserCode content then content else part.erased := by
  have htake : content.take part.flashSize.toNat = content := List.take_of_length_le (by omega)
  have hlow := hs.low
  have hpos : 0 < content.length := by omega
  have hwritten := hs.written_le (Nat.le_of_eq hlen) hpos
  obtain ⟨hle, -, -⟩ := PartDesc.written_bounds hs.writes
    (show content.length < 2 ^ 32 by rw [hlen]; exact part.flashSize.toNat_lt) hpos
  have hpadding : part.written content - content.length = 0 := by omega
  have hbehind : part.flashSize.toNat - part.written content = 0 := by omega
  simp only [PartDesc.flashed, htake, PartDesc.expected, if_neg hcalc, PartDesc.padded, hpadding,
    hbehind, List.replicate_zero, List.append_nil]

end Whole

end LpcTools
