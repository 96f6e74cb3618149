import LpcTools.Proofs.Bootloader
import LpcTools.Proofs.Flashing

/-!
# Code read protection is never programmed

A word with an erased byte in it is no CRP pattern, and blocks begin and end at multiples of 64 bytes,
so the word is always that of the flash before, one with erased bytes, or the one of the image, which
has been checked.
-/

namespace LpcTools

open Run

def PartDesc.crpByte (part : PartDesc) (f : UInt32 → UInt8) (i : ℕ) : UInt8 :=
  f (part.flashBase + UInt32.ofNat (crpOffset + i))

/-- The word that switches the protection on. -/
def PartDesc.crpWord (part : PartDesc) (f : UInt32 → UInt8) : UInt32 :=
  wordOf (part.crpByte f 0) (part.crpByte f 1) (part.crpByte f 2) (part.crpByte f 3)

section Patterns

variable {a b c d : UInt8}

theorem wordOf_toNat (a b c d : UInt8) : (wordOf a b c d).toNat =
    a.toNat + b.toNat * 2 ^ 8 + c.toNat * 2 ^ 16 + d.toNat * 2 ^ 24 := by
  have := a.toNat_lt
  have := b.toNat_lt
  have := c.toNat_lt
  have := d.toNat_lt
  rw [wordOf, UInt32.toNat_ofNat', Nat.mod_eq_of_lt (by omega)]

/-- There is no erased byte in a CRP pattern. -/
theorem not_erased_of_isCrp (h : isCrp (wordOf a b c d) = true) :
    a ≠ 0xFF ∧ b ≠ 0xFF ∧ c ≠ 0xFF ∧ d ≠ 0xFF := by
  have ha := a.toNat_lt
  have hb := b.toNat_lt
  have hc := c.toNat_lt
  have hd := d.toNat_lt
  have hff : ∀ x : UInt8, x ≠ 0xFF ↔ x.toNat ≠ 255 := fun x => by
    rw [Ne, ← UInt8.toNat_inj]
    rfl
  simp only [isCrp, Bool.or_eq_true, decide_eq_true_eq, ← UInt32.toNat_inj, wordOf_toNat] at h
  simp only [hff]
  rcases h with ((h | h) | h) | h
  · rw [show crpNoIsp.toNat = 0x4E697370 from rfl] at h
    omega
  · rw [show crpCrp1.toNat = 0x12345678 from rfl] at h
    omega
  · rw [show crpCrp2.toNat = 0x87654321 from rfl] at h
    omega
  · rw [show crpCrp3.toNat = 0x43218765 from rfl] at h
    omega

end Patterns

section Word

variable {part : PartDesc} {sector : UInt32 → Option ℕ} {f g : UInt32 → UInt8} {n : ℕ}
  {data : List UInt8}

/-- Erasing does not make a CRP pattern. -/
theorem crpWord_erased (he : Erased sector n f g) (hf : isCrp (part.crpWord f) = false) :
    isCrp (part.crpWord g) = false := by
  by_contra hg
  rw [Bool.not_eq_false] at hg
  obtain ⟨h0, h1, h2, h3⟩ := not_erased_of_isCrp hg
  have hsame {i : ℕ} (hi : part.crpByte g i ≠ 0xFF) : part.crpByte g i = part.crpByte f i :=
    (he _).resolve_right fun h => hi h.1
  rw [PartDesc.crpWord, hsame h0, hsame h1, hsame h2, hsame h3] at hg
  rw [PartDesc.crpWord, hg] at hf
  cases hf

/-- Whole blocks of the image are on one side of the word or on the other. -/
theorem crpWord_programmed (hn : 64 ∣ n) (hle : n ≤ data.length) (hlt : n < 2 ^ 32) {crp : UInt32}
    (hword : word data (crpOffset / 4) = some crp) :
    part.crpWord (part.programmed data n f) = if n ≤ crpOffset then part.crpWord f else crp := by
  have hoffset : crpOffset = 0x2FC := rfl
  rw [PartDesc.crpWord]
  split_ifs with h
  · have hbyte {i : ℕ} (hi : i < 4) :
        part.crpByte (part.programmed data n f) i = part.crpByte f i := by
      refine programmed_of_le ?_
      rw [offset_toNat _ (by omega)]
      omega
    rw [hbyte (by omega), hbyte (by omega), hbyte (by omega), hbyte (by omega), PartDesc.crpWord]
  · have hlen := length_of_word hword
    have hbyte {i : ℕ} (hi : i < 4) : part.crpByte (part.programmed data n f) i =
        data[4 * (crpOffset / 4) + i] :=
      programmed_of_lt (show crpOffset + i < n by omega) hle hlt
    rw [word_eq (by omega)] at hword
    rw [hbyte (by omega), hbyte (by omega), hbyte (by omega), hbyte (by omega)]
    exact Option.some.inj hword

end Word

/-- Whatever becomes of a run of `flash_target`, the device is in no state in which the flash has a CRP
pattern in the word that is looked at, if it had none before. -/
theorem flashTarget_no_crp {δ : Type} {L : Line δ} (O : Sys (Wire δ)) {sector : UInt32 → Option ℕ}
    {part : PartDesc} {chip : δ → Chip} (F : Faithful L sector part.uuencode.toNat chip)
    {h : Host (Wire δ)} (hi : Idle chip h) (filename : List UInt8) (calcUserCode : ℤ)
    (hcrp : isCrp (part.crpWord (chip h.env.dev).flash) = false) :
    Passed L (fun d => isCrp (part.crpWord (chip d).flash) = false) h
      (final (flashTarget (L.sys O) part filename calcUserCode h)) := by
  refine (flashTarget_end (O := O) (fun _ => 0) F hi filename calcUserCode).passed.mono ?_
  rintro d ⟨g, herased, hflash | ⟨h₁, size, image, data, husable, hfile, happroved, k, hk,
    hflash⟩⟩
  · rw [hflash]
    exact crpWord_erased herased hcrp
  · obtain ⟨hfits, hlen⟩ := happroved.fits_toNat (ispFileToBuff_size hfile happroved.loaded)
      husable.writes
    obtain ⟨-, -, h64⟩ := part.writeSize_bounds husable.writes
    obtain ⟨-, crp, hword, hok⟩ := happroved.checks h
    have hle : k * part.writeSize.toNat ≤ part.flashSize.toNat :=
      Nat.le_trans (Nat.mul_le_mul_right _ hk) hfits
    rw [hflash, crpWord_programmed (Dvd.dvd.mul_left h64 k) (by omega)
      (Nat.lt_of_le_of_lt hle part.flashSize.toNat_lt) hword]
    split_ifs
    · exact crpWord_erased herased hcrp
    · exact hok

/-- A device of which two sectors are not blank, and a file of two blocks and a half. -/
theorem flashTarget_no_crp_sixteens :
    let L := bootloader lpc1114.sectorAt 1
    let O := (Sys.plain (Wire Chip)).withFiles fun _ _ => some [.data (sixteens 0xA00)]
    let h : Host (Wire Chip) := .start (.quiet halfFull) 0 0 0
    Passed L (fun c => isCrp (lpc1114.crpWord c.flash) = false) h
      (final (flashTarget (L.sys O) lpc1114 ['f'.toUInt8] 1 h)) :=
  flashTarget_no_crp _ bootloader_faithful ⟨rfl, rfl, rfl⟩ _ 1 (by decide)

end LpcTools
