import LpcTools.Proofs.Erasing
import LpcTools.Proofs.Storing
import LpcTools.Proofs.Checking

/-!
# Programming a faithful device

`flash_target` erases the flash, then writes the image block after block from the base of the flash on.
At any time the flash is what it was, some of it erased, under the first blocks of an image that has
passed the checks.
-/

namespace LpcTools

open Run Decimal Uuencode

/-- The flash `f` with the first `n` bytes of the data in it. -/
def PartDesc.programmed (part : PartDesc) (data : List UInt8) (n : ℕ) (f : UInt32 → UInt8) :
    UInt32 → UInt8 := place f part.flashBase (data.take n)

def PartDesc.sectorSize (part : PartDesc) : UInt32 := part.flashSize / part.flashNbSectors

def PartDesc.ramAddr (part : PartDesc) : UInt32 := part.ramBase + part.ramBuffOffset

def PartDesc.writeSize (part : PartDesc) : UInt32 := calcWriteSize part.sectorSize part.ramBuffSize

/-- The sector of an address of the flash. -/
def PartDesc.sectorAt (part : PartDesc) (a : UInt32) : Option ℕ :=
  if a - part.flashBase < part.flashSize then
    some ((a - part.flashBase).toNat / part.sectorSize.toNat)
  else none

/-- The LPC810 of the parts file, a device that takes data as it is. -/
def lpc810 : PartDesc := ⟨0, 0x1000, 4, 0x04, 0x10000000, 0x400, 0x300, 0x100, 0⟩

/-- The LPC1114 of the parts file, which takes data encoded. -/
def lpc1114 : PartDesc := ⟨0, 0x8000, 8, 0x04, 0x10000000, 0x2000, 0x800, 0x400, 1⟩

section Programmed

variable {part : PartDesc} {data : List UInt8} {f : UInt32 → UInt8} {sector : UInt32 → Option ℕ}

theorem programmed_zero : part.programmed data 0 f = f := by
  rw [PartDesc.programmed, List.take_zero, place_nil]

theorem programmed_add {n k : ℕ} (hle : n + k ≤ data.length) (hlt : n + k < 2 ^ 32) :
    place (part.programmed data n f) (part.flashBase + UInt32.ofNat n) ((data.drop n).take k) =
      part.programmed data (n + k) f := by
  have hn : (data.take n).length = n := by
    rw [List.length_take]
    omega
  have hk : ((data.drop n).take k).length = k := by
    rw [List.length_take, List.length_drop]
    omega
  have happend : place (place f part.flashBase (data.take n))
      (part.flashBase + UInt32.ofNat (data.take n).length) ((data.drop n).take k) =
      place f part.flashBase (data.take n ++ (data.drop n).take k) :=
    place_append (by rw [hn, hk]; exact hlt)
  rw [hn] at happend
  rw [PartDesc.programmed, PartDesc.programmed, happend, List.take_add]

theorem offset_toNat (base : UInt32) {i : ℕ} (hi : i < 2 ^ 32) :
    (base + UInt32.ofNat i - base).toNat = i := by
  rw [UInt32.add_comm, UInt32.add_sub_cancel, UInt32.toNat_ofNat_of_lt' hi]

theorem ofNat_mul_toNat {i : ℕ} {size : UInt32} (hi : i * size.toNat < 2 ^ 32) :
    (UInt32.ofNat i * size).toNat = i * size.toNat := by
  rw [show UInt32.ofNat i * size = UInt32.ofNat (i * size.toNat) by
    rw [UInt32.ofNat_mul, UInt32.ofNat_toNat], UInt32.toNat_ofNat', Nat.mod_eq_of_lt hi]

theorem programmed_of_lt {i n : ℕ} (hi : i < n) (hn : n ≤ data.length) (hlt : n < 2 ^ 32) :
    part.programmed data n f (part.flashBase + UInt32.ofNat i) = data[i] := by
  have hoffset := offset_toNat part.flashBase (show i < 2 ^ 32 by omega)
  rw [PartDesc.programmed, place_of_lt (by rw [hoffset, List.length_take]; omega)]
  simp only [hoffset, List.getElem_take]

theorem programmed_of_le {a : UInt32} {n : ℕ} (ha : n ≤ (a - part.flashBase).toNat) :
    part.programmed data n f a = f a :=
  place_of_le (by rw [List.length_take]; omega)

/-- What is copied is what has been stored where it is copied from. -/
theorem copy_flash (c : Chip) {dst src count : UInt32} {ram : UInt32 → UInt8} {bs : List UInt8}
    (hram : c.ram = place ram src bs) (hlen : bs.length = count.toNat) :
    ((Command.copy dst src count).effect sector c).flash = place c.flash dst bs := by
  funext a
  change (if a - dst < count then c.ram (src + (a - dst)) else c.flash a) = _
  by_cases ha : a - dst < count
  · have hback : src + (a - dst) - src = a - dst := by
      rw [UInt32.add_comm, UInt32.add_sub_cancel]
    rw [UInt32.lt_iff_toNat_lt, ← hlen] at ha
    rw [if_pos (by rwa [UInt32.lt_iff_toNat_lt, ← hlen]), hram, place_of_lt ha,
      place_of_lt (by rw [hback]; exact ha)]
    simp only [hback]
  · rw [if_neg ha]
    rw [UInt32.lt_iff_toNat_lt, ← hlen] at ha
    rw [place_of_le (by omega)]

theorem slice_object {σ : Type} (E : Sys σ) (env : σ) {k n : ℕ} (hle : k + n ≤ data.length) :
    slice (fun j => ((E.object env data).drop k j).getD 0) 0 n = (data.drop k).take n := by
  refine List.ext_getElem (by simp; omega) fun j hj _ => ?_
  rw [slice_length] at hj
  have hlt : k + j < data.length := by omega
  simp [slice, Mem.drop, Sys.object, hlt]

end Programmed

variable {δ : Type} {L : Line δ} {O : Sys (Wire δ)} {sector : UInt32 → Option ℕ} {part : PartDesc}
  {chip : δ → Chip} {refusals : δ → ℕ} {h h₁ h' : Host (Wire δ)} {data : List UInt8}
  {f : UInt32 → UInt8} {writeSize : UInt32}

section Blocks

/-- How the loop over the blocks up to the `n`th ends. -/
structure BlocksEnd (L : Line δ) (O : Sys (Wire δ)) (sector : UInt32 → Option ℕ) (part : PartDesc)
    (chip : δ → Chip) (refusals : δ → ℕ) (data : List UInt8) (writeSize : UInt32) (f : UInt32 → UInt8)
    (n : ℕ) (h : Host (Wire δ)) (r : EStateM.Result Fault (Host (Wire δ)) ℤ) : Prop where
  passed : Passed L
    (fun d => ∃ k ≤ n, (chip d).flash = part.programmed data (k * writeSize.toNat) f) h (final r)
  done : ∀ h', r = .ok 0 h' → Idle chip h' ∧
    (chip h'.env.dev).flash = part.programmed data (n * writeSize.toNat) f
  willing : Willing L sector chip refusals → h.resendRequestedForBlock = 0 →
    (∀ env, ∀ j < n * writeSize.toNat + overRead part.uuencode.toNat, O.object env data j ≠ none) →
    ∃ h', r = .ok 0 h' ∧ h'.resendRequestedForBlock = 0

theorem BlocksEnd.stop {n : ℕ} {ret : ℤ} (hp : Passed L
      (fun d => ∃ k ≤ n, (chip d).flash = part.programmed data (k * writeSize.toNat) f) h h')
    (hret : ret ≠ 0) (hw : Willing L sector chip refusals → h.resendRequestedForBlock ≠ 0) :
    BlocksEnd L O sector part chip refusals data writeSize f n h (.ok ret h') := by
  refine ⟨hp, fun h₂ he => ?_, fun h h0 => absurd h0 (hw h)⟩
  cases he
  exact absurd rfl hret

variable (refusals)

theorem flashBlocks_end (data : List UInt8) (F : Faithful L sector part.uuencode.toNat chip)
    (hsize : writeSize ≠ 0) {sectorSize : UInt32} (hsector : sectorSize ≠ 0) (ramAddr : UInt32) :
    ∀ (n i : ℕ) (h : Host (Wire δ)),
    (i + n) * writeSize.toNat ≤ data.length → (i + n) * writeSize.toNat < 2 ^ 32 → Idle chip h →
    (chip h.env.dev).flash = part.programmed data (i * writeSize.toNat) f →
    BlocksEnd L O sector part chip refusals data writeSize f (i + n) h
      (flashBlocks (L.sys O) part data writeSize sectorSize ramAddr n i h)
  | 0, i, h, hle, hlt, hi, hflash => by
    refine ⟨.refl h, fun h' he => ?_, fun _ h0 _ => ⟨h, rfl, h0⟩⟩
    cases he
    exact ⟨hi, hflash⟩
  | n + 1, i, h, hle, hlt, hi, hflash => by
    have hnext : i * writeSize.toNat + writeSize.toNat ≤ (i + (n + 1)) * writeSize.toNat := by
      rw [← Nat.succ_mul]
      exact Nat.mul_le_mul_right _ (by omega)
    have hoffset : (UInt32.ofNat i * writeSize).toNat = i * writeSize.toNat :=
      ofNat_mul_toNat (by omega)
    have hoffset' : UInt32.ofNat i * writeSize = UInt32.ofNat (i * writeSize.toNat) := by
      apply UInt32.toNat_inj.1
      rw [hoffset, UInt32.toNat_ofNat', Nat.mod_eq_of_lt (by omega)]
    have hunwritten {h₁ h₂ : Host (Wire δ)} (hp : Passed L (Unwritten chip h₁) h₁ h₂)
        (hsame : (chip h₁.env.dev).flash = part.programmed data (i * writeSize.toNat) f) :
        Passed L (fun d => ∃ k ≤ i + (n + 1), (chip d).flash =
          part.programmed data (k * writeSize.toNat) f) h₁ h₂ :=
      hp.mono fun d hd => ⟨i, by omega, hd.trans hsame⟩
    unfold flashBlocks
    simp only []
    rw [if_neg hsector]
    set offset := UInt32.ofNat i * writeSize with hoff
    set current := toInt (offset / sectorSize).toNat
    obtain ⟨s, h₁, hprepare, ho⟩ := ispSendCmdSectors_obeyed O F hi
      (c := .prepare (toUnsigned current) (toUnsigned current)) 1 (Int.le_refl current) rfl
    have hp₁ := ho.unwritten rfl
    rw [bind_ok hprepare]
    by_cases hs : s = 0
    · subst hs
      have hi₁ := ho.idle hi.expects
      have hflash₁ := (hp₁.last (show Unwritten chip h h.env.dev from rfl)).trans hflash
      rw [if_neg (by decide), bind_ok (get_apply _)]
      have hdata : ∀ j c, (((L.sys O).object h₁.env data).drop offset.toNat) j = some c →
          (((O.object h₁.env data).drop offset.toNat) j).getD 0 = c := Mem.getD_eq _
      rcases ispSendBufToRam_stored (O := O) refusals F hi₁ hdata ramAddr.toNat hsize with
        ⟨⟨j, hj, hnone⟩, h₂, hfault, hp₂⟩ | ⟨ret, h₂, hsend, hst⟩
      · rw [bind_error hfault]
        refine ⟨(hunwritten hp₁ hflash).trans (hunwritten hp₂ hflash₁), fun _ he => (by cases he),
          fun _ _ hall => absurd hnone (hall _ _ ?_)⟩
        rw [hoffset]
        omega
      · rw [bind_ok hsend]
        have hp₂ := (hunwritten hp₁ hflash).trans (hunwritten hst.passed hflash₁)
        by_cases hret : ret = 0
        · subst hret
          have hi₂ := hst.idle rfl
          have hflash₂ := (hst.passed.last (show Unwritten chip h₁ h₁.env.dev from rfl)).trans hflash₁
          obtain ⟨s', h₃, hcopy, ho₃⟩ := ispSendCmdAddress_obeyed O F hi₂
            (c := .copy (part.flashBase + offset) ramAddr writeSize) rfl
          rw [if_neg (by decide), bind_ok hcopy]
          by_cases hs' : s' = 0
          · subst hs'
            have hram := hst.ram rfl
            rw [UInt32.ofNat_toNat, slice_object O _ (by rw [hoffset]; omega)] at hram
            have hflash₃ : (chip h₃.env.dev).flash =
                part.programmed data ((i + 1) * writeSize.toNat) f := by
              rw [(ho₃.done rfl).2, copy_flash _ hram, hflash₂, hoffset, hoffset',
                programmed_add (by omega) (by omega), Nat.succ_mul]
              rw [List.length_take, List.length_drop, hoffset]
              omega
            have hp₃ : Passed L (fun d => ∃ k ≤ i + (n + 1), (chip d).flash =
                part.programmed data (k * writeSize.toNat) f) h₂ h₃ :=
              ho₃.passed ⟨i + 1, by omega, hflash₃⟩
            rw [if_neg (by decide)]
            have hrest := flashBlocks_end data F hsize hsector ramAddr n (i + 1) h₃
              (by rwa [Nat.add_right_comm]) (by rwa [Nat.add_right_comm]) (ho₃.idle hi₂.expects) hflash₃
            rw [Nat.add_right_comm] at hrest
            refine ⟨(hp₂.trans hp₃).trans hrest.passed, hrest.done, fun hw h0 hall => ?_⟩
            exact hrest.willing hw (ho₃.requested.trans (hst.willing hw (ho.requested.trans h0)).2) hall
          · rw [if_pos (by exact_mod_cast hs')]
            refine .stop (hp₂.trans (ho₃.passed ⟨i, by omega, ?_⟩)) (by exact_mod_cast hs')
              fun hw _ => hs' (ho₃.willing hw hi₂ trivial)
            rw [ho₃.refused hs', hflash₂]
        · rw [if_pos hret]
          exact .stop hp₂ hret fun hw h0 => hret (hst.willing hw (ho.requested.trans h0)).1
    · rw [if_pos (by exact_mod_cast hs)]
      exact .stop (hunwritten hp₁ hflash) (by exact_mod_cast hs) fun hw _ =>
        hs (ho.willing hw hi trivial)

end Blocks

/-- The number of blocks that an image is written in. -/
def nbWrites (image : List UInt8) (writeSize : UInt32) : UInt32 :=
  UInt32.ofNat image.length / writeSize + if UInt32.ofNat image.length % writeSize ≠ 0 then 1 else 0

/-- The loaded image passes the checks, and `data` is what is written of it. -/
structure Approved (part : PartDesc) (calcUserCode size : ℤ) (image data : List UInt8) : Prop where
  loaded : 0 < size
  checks : ∀ {σ : Type} (h : Host σ), PassesChecks h part image calcUserCode data
  fits : ¬ part.flashSize < nbWrites image part.writeSize * part.writeSize

theorem PassesChecks.of_host {σ τ : Type} {h : Host σ} {image : List UInt8} {calcUserCode : ℤ}
    (hp : PassesChecks h part image calcUserCode data) (h' : Host τ) :
    PassesChecks h' part image calcUserCode data := by
  obtain ⟨hpatch, hcrp⟩ := hp
  refine ⟨?_, hcrp⟩
  rcases patchUserCode_cases (filled part image) calcUserCode with ⟨r, hr⟩ | hr
  · rw [hr] at hpatch ⊢
    cases hpatch
    rfl
  · rw [hr] at hpatch
    cases hpatch

section Image

variable {σ : Type} {E : Sys σ} {image : List UInt8} {calcUserCode size : ℤ}

/-- An image that is not approved is refused before anything is sent. -/
theorem flashImage_refused {h : Host σ} (hwrites : part.writeSize ≠ 0) (hsize : 0 < size)
    (hno : ∀ data, ¬ Approved part calcUserCode size image data) :
    (∃ ret, ret ≠ 0 ∧ flashImage E part image part.writeSize part.sectorSize part.ramAddr calcUserCode h =
      .ok ret h) ∨
    ∃ f, flashImage E part image part.writeSize part.sectorSize part.ramAddr calcUserCode h =
      .error f h := by
  by_cases hpass : ∃ data, PassesChecks h part image calcUserCode data
  · obtain ⟨data, hpass⟩ := hpass
    have hfits : part.flashSize < nbWrites image part.writeSize * part.writeSize := by
      by_contra hfits
      exact hno data ⟨hsize, hpass.of_host, hfits⟩
    left
    refine ⟨-7, by decide, ?_⟩
    rw [flashImage_passes hpass hwrites]
    simp only []
    rw [← nbWrites, if_pos hfits]
    rfl
  · unfold flashImage
    simp only []
    rw [← filled]
    rcases patchUserCode_cases (filled part image) calcUserCode with ⟨_ | data, hr⟩ | hr
    · left
      rw [bind_ok (hr h)]
      exact ⟨-5, by decide, rfl⟩
    · rw [bind_ok (hr h)]
      simp only []
      rcases hword : word data (crpOffset / 4) with _ | crp
      · exact .inr ⟨_, rfl⟩
      · have hcrp : isCrp crp = true := by
          by_contra hcrp
          exact hpass ⟨data, hr h, crp, hword, Bool.eq_false_iff.2 hcrp⟩
        left
        simp only [hcrp, if_true]
        exact ⟨-6, by decide, rfl⟩
    · right
      rw [bind_error (hr h)]
      exact ⟨_, rfl⟩

theorem Approved.unique {data' : List UInt8} (ha : Approved part calcUserCode size image data)
    (ha' : Approved part calcUserCode size image data') : data = data' := by
  obtain ⟨hpatch, -⟩ := ha.checks (Host.start () 0 0 0)
  obtain ⟨hpatch', -⟩ := ha'.checks (Host.start () 0 0 0)
  rw [hpatch] at hpatch'
  cases hpatch'
  rfl

theorem flashImage_approved {h : Host σ} (hwrites : part.writeSize ≠ 0)
    (ha : Approved part calcUserCode size image data) :
    flashImage E part image part.writeSize part.sectorSize part.ramAddr calcUserCode h =
      flashBlocks E part data part.writeSize part.sectorSize part.ramAddr
        (nbWrites image part.writeSize).toNat 0 h := by
  rw [flashImage_passes (ha.checks h) hwrites]
  simp only []
  rw [← nbWrites, if_neg ha.fits]

theorem calcWriteSize_cases (sectorSize ramBuffSize : UInt32) :
    calcWriteSize sectorSize ramBuffSize = 0 ∨ 64 ≤ (calcWriteSize sectorSize ramBuffSize).toNat ∧
      (calcWriteSize sectorSize ramBuffSize).toNat ≤ 4096 ∧
      64 ∣ (calcWriteSize sectorSize ramBuffSize).toNat := by
  unfold calcWriteSize
  simp only []
  split_ifs
  · exact .inr (by decide)
  · exact .inr (by decide)
  · exact .inr (by decide)
  · exact .inr (by decide)
  · exact .inr (by decide)
  · exact .inl rfl
  · exact .inr (by decide)
  · exact .inr (by decide)
  · exact .inr (by decide)
  · exact .inr (by decide)
  · exact .inr (by decide)
  · exact .inl rfl

/-- Neither a sector nor the buffer is smaller than a block. -/
theorem calcWriteSize_le (sectorSize ramBuffSize : UInt32) :
    (calcWriteSize sectorSize ramBuffSize).toNat ≤ sectorSize.toNat ∧
      (calcWriteSize sectorSize ramBuffSize).toNat ≤ ramBuffSize.toNat := by
  unfold calcWriteSize
  simp only []
  have hmin : (if sectorSize < ramBuffSize then sectorSize else ramBuffSize).toNat ≤
      sectorSize.toNat ∧
      (if sectorSize < ramBuffSize then sectorSize else ramBuffSize).toNat ≤ ramBuffSize.toNat := by
    split_ifs with h <;> rw [UInt32.lt_iff_toNat_lt] at h <;> omega
  generalize (if sectorSize < ramBuffSize then sectorSize else ramBuffSize) = least at hmin
  simp only [UInt32.le_iff_toNat_le]
  split_ifs with h h h h h <;> simp at h ⊢ <;> omega

theorem PartDesc.writeSize_bounds (hws : part.writeSize ≠ 0) :
    64 ≤ part.writeSize.toNat ∧ part.writeSize.toNat ≤ 4096 ∧ 64 ∣ part.writeSize.toNat :=
  (calcWriteSize_cases part.sectorSize part.ramBuffSize).resolve_left hws

/-- A flash of which blocks can be written has sectors of some size. -/
theorem PartDesc.sectorSize_ne (hws : part.writeSize ≠ 0) : part.sectorSize ≠ 0 := by
  obtain ⟨h64, -, -⟩ := part.writeSize_bounds hws
  have hsector := (calcWriteSize_le part.sectorSize part.ramBuffSize).1
  intro h0
  rw [PartDesc.writeSize, h0] at h64
  rw [h0] at hsector
  exact absurd (h64.trans hsector) (by decide)

theorem nbWrites_toNat (image : List UInt8) {writeSize : UInt32} (hws : 64 ≤ writeSize.toNat) :
    (nbWrites image writeSize).toNat =
      (image.length % 2 ^ 32 + (writeSize.toNat - 1)) / writeSize.toNat := by
  have h := toNat_div_up (UInt32.ofNat image.length) (d := writeSize.toNat) (by omega)
    writeSize.toNat_lt
  rwa [UInt32.ofNat_toNat, UInt32.toNat_ofNat'] at h

theorem patchUserCode_length {data' : List UInt8} {h h' : Host σ}
    (hp : patchUserCode data calcUserCode h = .ok (some data') h') : data'.length = data.length := by
  obtain ⟨cksum, v₇, -, hword, rfl⟩ := patchUserCode_some hp
  have hlen := length_of_word hword
  split_ifs
  · exact overlay_length (by rw [show (bytesOfWord cksum).length = 4 from rfl]; omega)
  · rfl

theorem filled_length (part : PartDesc) (image : List UInt8) :
    part.flashSize.toNat ≤ (filled part image).length := by
  rw [filled, List.length_append, List.length_replicate]
  omega

/-- What is written fits into the flash. -/
theorem Approved.fits_toNat (ha : Approved part calcUserCode size image data)
    (hsize : size = toInt image.length) (hws : part.writeSize ≠ 0) :
    (nbWrites image part.writeSize).toNat * part.writeSize.toNat ≤ part.flashSize.toNat ∧
      part.flashSize.toNat ≤ data.length := by
  obtain ⟨h64, h4096, -⟩ := part.writeSize_bounds hws
  have hlt : image.length % 2 ^ 32 < 2 ^ 31 := by
    have := ha.loaded
    rw [hsize, toInt] at this
    split_ifs at this with h
    · exact h
    · omega
  have hnb := nbWrites_toNat image h64
  have hle : (nbWrites image part.writeSize).toNat * part.writeSize.toNat ≤
      image.length % 2 ^ 32 + (part.writeSize.toNat - 1) := by
    rw [hnb]
    exact Nat.div_mul_le_self _ _
  have hfits := ha.fits
  rw [UInt32.lt_iff_toNat_lt, UInt32.toNat_mul, Nat.mod_eq_of_lt (by omega)] at hfits
  refine ⟨Nat.le_of_not_lt hfits, ?_⟩
  obtain ⟨hpatch, -⟩ := ha.checks (Host.start () 0 0 0)
  rw [patchUserCode_length hpatch]
  exact filled_length part image

end Image

/-- The part is described so that `flash_target` goes on to erase it. -/
structure PartDesc.Usable (part : PartDesc) : Prop where
  sectors : part.flashNbSectors ≠ 0
  ram : ¬ part.ramBase + part.ramSize < part.ramAddr
  writes : part.writeSize ≠ 0

/-- The part and what is loaded of the file pass all the checks of `flash_target`. -/
def PartDesc.Accepts (part : PartDesc) (calcUserCode : ℤ) (image : List UInt8) : Prop :=
  part.Usable ∧ ∃ data, Approved part calcUserCode (toInt image.length) image data

section Accepts

variable {image : List UInt8} {calcUserCode : ℤ}

theorem PartDesc.Accepts.ne {content : List UInt8}
    (ha : part.Accepts calcUserCode (content.take part.flashSize.toNat)) : content ≠ [] := by
  rintro rfl
  obtain ⟨-, data, hdata⟩ := ha
  exact absurd hdata.loaded (by simp [toInt])

/-- The blocks of an accepted image fill a part of the flash. -/
theorem PartDesc.Accepts.fits (ha : part.Accepts calcUserCode image) :
    (nbWrites image part.writeSize).toNat * part.writeSize.toNat ≤ part.flashSize.toNat ∧
      64 ≤ part.writeSize.toNat ∧ part.writeSize.toNat ≤ part.sectorSize.toNat ∧
      0 < (nbWrites image part.writeSize).toNat := by
  obtain ⟨husable, data, hdata⟩ := ha
  obtain ⟨h64, h4096, -⟩ := part.writeSize_bounds husable.writes
  refine ⟨(hdata.fits_toNat rfl husable.writes).1, h64,
    (calcWriteSize_le part.sectorSize part.ramBuffSize).1, ?_⟩
  have hlen : 0 < image.length % 2 ^ 32 := by
    have hloaded := hdata.loaded
    rw [toInt] at hloaded
    split_ifs at hloaded <;> omega
  rw [nbWrites_toNat image h64, Nat.div_pos_iff]
  omega

/-- An image of zeros passes the checks. -/
theorem accepts_zeros {n : ℕ} (husable : part.Usable) (hmin : 0x300 ≤ n) (hmax : n < 2 ^ 31)
    (hfits : ¬ part.flashSize < nbWrites (.replicate n 0) part.writeSize * part.writeSize) :
    part.Accepts 0 (.replicate n 0) := by
  have hzeros : Image (.replicate n 0) 0 0 0 := image_replicate hmin
  obtain ⟨data, hpass⟩ : ∃ data, PassesChecks (Host.start () 0 0 0) part (.replicate n 0) 0 data :=
    (hzeros.passes_iff _).2 ⟨rfl, rfl⟩
  refine ⟨husable, data, ?_, hpass.of_host, hfits⟩
  rw [List.length_replicate, toInt_of_lt hmax]
  omega

end Accepts

section Usable

variable {σ : Type} {E : Sys σ} {h h₁ : Host σ}

/-- What `flash_target` does with a part it can use. -/
theorem flashTarget_usable (husable : part.Usable) (filename : List UInt8) (calcUserCode : ℤ) :
    flashTarget E part filename calcUserCode =
      (do
        let ret ← eraseFlash E part
        if ret ≠ 0 then return -3
        else do
          let h ← get
          if !E.malloc h.env part.flashSize.toNat then return -4
          else do
            let (size, image) ← ispFileToBuff E part.flashSize.toNat filename
            if size ≤ 0 then return -5
            else flashImage E part image part.writeSize part.sectorSize part.ramAddr calcUserCode :
        Prog σ ℤ) := by
  unfold flashTarget
  rw [if_neg husable.sectors]
  simp only []
  rw [← PartDesc.sectorSize, ← PartDesc.ramAddr, ← PartDesc.writeSize, if_neg husable.ram,
    if_neg husable.writes]

/-- Nothing is done with another. -/
theorem flashTarget_unusable (hno : ¬ part.Usable) (filename : List UInt8) (calcUserCode : ℤ)
    (h : Host σ) :
    part.flashNbSectors = 0 ∧ flashTarget E part filename calcUserCode h = .error .divideByZero h ∨
      part.flashNbSectors ≠ 0 ∧
        ∃ ret, ret ≠ 0 ∧ flashTarget E part filename calcUserCode h = .ok ret h := by
  unfold flashTarget
  by_cases hsectors : part.flashNbSectors = 0
  · rw [if_pos hsectors]
    exact .inl ⟨hsectors, rfl⟩
  rw [if_neg hsectors]
  simp only []
  rw [← PartDesc.sectorSize, ← PartDesc.ramAddr, ← PartDesc.writeSize]
  refine .inr ⟨hsectors, ?_⟩
  by_cases hram : part.ramBase + part.ramSize < part.ramAddr
  · rw [if_pos hram]
    exact ⟨-1, by decide, rfl⟩
  rw [if_neg hram]
  by_cases hws : part.writeSize = 0
  · rw [if_pos hws]
    exact ⟨-2, by decide, rfl⟩
  · exact absurd ⟨hsectors, hram, hws⟩ hno

/-- What `flash_target` does once the flash is erased. -/
theorem flashTarget_of_erased (husable : part.Usable)
    (herase : eraseFlash E part h = .ok 0 h₁) (filename : List UInt8) (calcUserCode : ℤ) :
    flashTarget E part filename calcUserCode h =
      (do
        let h ← get
        if !E.malloc h.env part.flashSize.toNat then return -4
        else do
          let (size, image) ← ispFileToBuff E part.flashSize.toNat filename
          if size ≤ 0 then return -5
          else flashImage E part image part.writeSize part.sectorSize part.ramAddr calcUserCode :
        Prog σ ℤ) h₁ := by
  rw [flashTarget_usable husable, bind_ok herase, if_neg (by decide)]

end Usable

section Target

/-- What the flash `f` may have become while a file is programmed. -/
def PartlyFlashed {σ : Type} (E : Sys σ) (sector : UInt32 → Option ℕ) (part : PartDesc)
    (filename : List UInt8) (calcUserCode : ℤ) (f f' : UInt32 → UInt8) : Prop :=
  ∃ g, Erased sector part.sectors f g ∧ (f' = g ∨ ∃ (h : Host σ) (size : ℤ) (image data : List UInt8),
    part.Usable ∧ ispFileToBuff E part.flashSize.toNat filename h = .ok (size, image) h ∧
    Approved part calcUserCode size image data ∧
    ∃ k ≤ (nbWrites image part.writeSize).toNat,
      f' = part.programmed data (k * part.writeSize.toNat) g)

/-- What the flash `f` has become when a file has been programmed. -/
def FullyFlashed {σ : Type} (E : Sys σ) (sector : UInt32 → Option ℕ) (part : PartDesc)
    (filename : List UInt8) (calcUserCode : ℤ) (f f' : UInt32 → UInt8) : Prop :=
  ∃ g, Erased sector part.sectors f g ∧ (∀ a s, sector a = some s → s < part.sectors → g a = 0xFF) ∧
    ∃ (h : Host σ) (size : ℤ) (image data : List UInt8),
      ispFileToBuff E part.flashSize.toNat filename h = .ok (size, image) h ∧
      Approved part calcUserCode size image data ∧
      f' = part.programmed data ((nbWrites image part.writeSize).toNat * part.writeSize.toNat) g

/-- Everything goes well on the side of the host: the file can be read, its image is
approved, and all of it can be sent. -/
structure HostReady (L : Line δ) (O : Sys (Wire δ)) (part : PartDesc) (filename : List UInt8)
    (calcUserCode size : ℤ) (image data : List UInt8) : Prop where
  usable : part.Usable
  malloc : ∀ env, O.malloc env part.flashSize.toNat = true
  file : ∀ h, ispFileToBuff (L.sys O) part.flashSize.toNat filename h = .ok (size, image) h
  approved : Approved part calcUserCode size image data
  readable : ∀ env, ∀ j < (nbWrites image part.writeSize).toNat * part.writeSize.toNat +
    overRead part.uuencode.toNat, O.object env data j ≠ none

/-- How a run of `flash_target` ends. -/
structure TargetEnd (L : Line δ) (O : Sys (Wire δ)) (sector : UInt32 → Option ℕ) (part : PartDesc)
    (chip : δ → Chip) (refusals : δ → ℕ) (filename : List UInt8) (calcUserCode : ℤ)
    (h : Host (Wire δ)) (r : EStateM.Result Fault (Host (Wire δ)) ℤ) : Prop where
  passed : Passed L (fun d => PartlyFlashed (L.sys O) sector part filename calcUserCode
    (chip h.env.dev).flash (chip d).flash) h (final r)
  done : ∀ h', r = .ok 0 h' → Idle chip h' ∧ part.Usable ∧
    FullyFlashed (L.sys O) sector part filename calcUserCode (chip h.env.dev).flash
      (chip h'.env.dev).flash
  willing : Willing L sector chip refusals → h.resendRequestedForBlock = 0 →
    ∀ size image data, HostReady L O part filename calcUserCode size image data → ∃ h', r = .ok 0 h'

variable {filename : List UInt8} {calcUserCode : ℤ}

/-- A run that stops before anything is written. -/
theorem TargetEnd.stop {r : EStateM.Result Fault (Host (Wire δ)) ℤ}
    (hp : Passed L (OnlyErased sector chip part.sectors h) h (final r)) (hr : ∀ h', r ≠ .ok 0 h')
    (hw : Willing L sector chip refusals → ∀ size image data,
      ¬ HostReady L O part filename calcUserCode size image data) :
    TargetEnd L O sector part chip refusals filename calcUserCode h r :=
  ⟨hp.mono fun _ hd => ⟨_, hd, .inl rfl⟩, fun h' he => absurd he (hr h'),
    fun hwill _ size image data hready => absurd hready (hw hwill size image data)⟩

variable (refusals) in
theorem flashTarget_end (F : Faithful L sector part.uuencode.toNat chip) (hi : Idle chip h)
    (filename : List UInt8) (calcUserCode : ℤ) :
    TargetEnd L O sector part chip refusals filename calcUserCode h
      (flashTarget (L.sys O) part filename calcUserCode h) := by
  by_cases husable : part.Usable
  swap
  · rcases flashTarget_unusable (E := L.sys O) husable filename calcUserCode h with
      ⟨-, hrun⟩ | ⟨-, ret, hne, hrun⟩ <;> rw [hrun]
    · exact .stop (.refl h) (fun h' he => by cases he) fun _ _ _ _ hr => husable hr.usable
    · refine .stop (.refl h) (fun h' he => ?_) fun _ _ _ _ hr => husable hr.usable
      cases he
      exact hne rfl
  rw [flashTarget_usable husable]
  obtain ⟨ret, h₁, herase, hswept⟩ := eraseFlash_swept (O := O) refusals F hi part
  rw [bind_ok herase]
  by_cases hret : ret = 0
  · subst hret
    have hi₁ := hswept.idle rfl
    rw [if_neg (by decide), bind_ok (get_apply _)]
    by_cases hmalloc : (L.sys O).malloc h₁.env part.flashSize.toNat = true
    · obtain ⟨⟨size, image⟩, hfile⟩ := ispFileToBuff_eq (E := L.sys O) part.flashSize.toNat filename h₁
      rw [if_neg (by simpa using hmalloc), bind_ok hfile]
      simp only []
      by_cases hsize : size ≤ 0
      · rw [if_pos hsize]
        refine .stop hswept.passed (fun h' he => by cases he) fun _ size' _ _ hr => ?_
        have hsame := hfile.symm.trans (hr.file h₁)
        cases hsame
        exact absurd hr.approved.loaded (by omega)
      rw [if_neg hsize]
      by_cases happroved : ∃ data, Approved part calcUserCode size image data
      · obtain ⟨data, happroved⟩ := happroved
        obtain ⟨hfits, hlen⟩ := happroved.fits_toNat (ispFileToBuff_size hfile (by omega)) husable.writes
        have herased := hswept.passed.last (OnlyErased.refl h)
        rw [flashImage_approved husable.writes happroved]
        have hend := flashBlocks_end (O := O) (f := (chip h₁.env.dev).flash) refusals data F husable.writes
          (part.sectorSize_ne husable.writes) part.ramAddr (nbWrites image part.writeSize).toNat 0 h₁
          (by rw [Nat.zero_add]; omega)
          (by rw [Nat.zero_add]; exact Nat.lt_of_le_of_lt hfits part.flashSize.toNat_lt) hi₁
          (by rw [Nat.zero_mul, programmed_zero])
        rw [Nat.zero_add] at hend
        refine ⟨?_, fun h' he => ?_, fun hw h0 size' image' data' hr => ?_⟩
        · refine (hswept.passed.mono fun _ hd => ⟨_, hd, .inl rfl⟩).trans (hend.passed.mono ?_)
          rintro d ⟨k, hk, hflash⟩
          exact ⟨_, herased, .inr ⟨h₁, size, image, data, husable, hfile, happroved, k, hk,
            hflash⟩⟩
        · obtain ⟨hi', hflash⟩ := hend.done h' he
          exact ⟨hi', husable, _, herased,
            fun a s ha hs => hswept.blank rfl a s ha (Nat.zero_le s) (by omega),
            h₁, size, image, data, hfile, happroved, hflash⟩
        · have hsame := hfile.symm.trans (hr.file h₁)
          cases hsame
          obtain rfl := happroved.unique hr.approved
          obtain ⟨h', hrun, -⟩ := hend.willing hw ((hswept.willing hw).2.trans h0) hr.readable
          exact ⟨h', hrun⟩
      · have hno := not_exists.1 happroved
        have hnever : ∀ size' image' data, ¬ HostReady L O part filename calcUserCode size' image' data := by
          intro size' image' data hr
          have hsame := hfile.symm.trans (hr.file h₁)
          cases hsame
          exact hno data hr.approved
        rcases flashImage_refused (E := L.sys O) (h := h₁) husable.writes (by omega) hno with
          ⟨ret, hne, hrun⟩ | ⟨e, hrun⟩
        · rw [hrun]
          refine .stop hswept.passed (fun h' he => ?_) fun _ => hnever
          cases he
          exact hne rfl
        · rw [hrun]
          exact .stop hswept.passed (fun h' he => by cases he) fun _ => hnever
    · rw [if_pos (by simpa using hmalloc)]
      exact .stop hswept.passed (fun h' he => by cases he) fun _ _ _ _ hr => hmalloc (hr.malloc _)
  · rw [if_pos hret]
    exact .stop hswept.passed (fun h' he => by cases he) fun hw => absurd (hswept.willing hw).1 hret

end Target

end LpcTools
