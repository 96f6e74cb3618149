import LpcTools.Proofs.Bootloader
import LpcTools.Proofs.Flashing

/-!
# What becomes of the flash when an image is refused

The flash is erased before the file is looked at, so an image that is refused finds it erased.
-/

namespace LpcTools

open Run

variable {δ : Type} {L : Line δ} {sector : UInt32 → Option ℕ} {part : PartDesc} {chip : δ → Chip}
  {h : Host (Wire δ)} {filename : List UInt8} {calcUserCode : ℤ}

/-- The host has a reason to refuse, whatever the device does: the description of the part, the file or
its image. -/
def Refused {σ : Type} (E : Sys σ) (part : PartDesc) (filename : List UInt8) (calcUserCode : ℤ) : Prop :=
  ∀ (h : Host σ) (size : ℤ) (image data : List UInt8),
    ispFileToBuff E part.flashSize.toNat filename h = .ok (size, image) h →
    ¬ (part.Usable ∧ Approved part calcUserCode size image data)

theorem Refused.only_erased {σ : Type} {E : Sys σ} {f f' : UInt32 → UInt8}
    (hr : Refused E part filename calcUserCode)
    (hp : PartlyFlashed E sector part filename calcUserCode f f') : Erased sector part.sectors f f' := by
  obtain ⟨g, herased, rfl | ⟨h₁, size, image, data, husable, hfile, happroved, -⟩⟩ := hp
  · exact herased
  · exact absurd ⟨husable, happroved⟩ (hr h₁ size image data hfile)

/-- Nothing of an image that is refused gets into the flash. It has been erased at most, and where it was
blank it is as it was. -/
theorem flashTarget_refused (F : Faithful L sector part.uuencode.toNat chip) (hi : Idle chip h)
    (O : Sys (Wire δ)) (hr : Refused (L.sys O) part filename calcUserCode) :
    let r := flashTarget (L.sys O) part filename calcUserCode h
    (∀ h', r ≠ .ok 0 h') ∧ Passed L (OnlyErased sector chip part.sectors h) h (final r) ∧
    ((∀ a s, sector a = some s → s < part.sectors → (chip h.env.dev).flash a = 0xFF) →
      (chip (final r).env.dev).flash = (chip h.env.dev).flash) := by
  have hend := flashTarget_end (O := O) (fun _ => 0) F hi filename calcUserCode
  have hpassed : Passed L (OnlyErased sector chip part.sectors h) h
      (final (flashTarget (L.sys O) part filename calcUserCode h)) :=
    hend.passed.mono fun d hd => hr.only_erased hd
  refine ⟨fun h' he => ?_, hpassed, fun hblank => ?_⟩
  · obtain ⟨-, husable, g, -, -, h₁, size, image, data, hfile, happroved, -⟩ := hend.done h' he
    exact hr h₁ size image data hfile ⟨husable, happroved⟩
  · funext a
    rcases hpassed.last (OnlyErased.refl h) a with hsame | ⟨herased, s, hs, ha⟩
    · exact hsame
    · rw [herased, hblank a s ha hs]

/-- There is no file. -/
theorem plain_refused : Refused ((bootloader lpc810.sectorAt 0).sys (Sys.plain _)) lpc810
    ['f'.toUInt8] 0 := by
  rintro h size image data hfile ⟨-, happroved⟩
  cases hfile
  exact absurd happroved.loaded (by decide)

/-- A device full of zeros. -/
def zeros : Host (Wire Chip) := .start (.quiet ⟨fun _ => 0, fun _ => 0, none⟩) 0 0 0

theorem flashTarget_refused_missing :
    let r := flashTarget ((bootloader lpc810.sectorAt 0).sys (Sys.plain _)) lpc810 ['f'.toUInt8] 0 zeros
    (∀ h', r ≠ .ok 0 h') ∧
    Passed (bootloader lpc810.sectorAt 0) (OnlyErased lpc810.sectorAt id lpc810.sectors zeros) zeros
      (final r) ∧
    ((∀ a s, lpc810.sectorAt a = some s → s < lpc810.sectors → zeros.env.dev.flash a = 0xFF) →
      (final r).env.dev.flash = zeros.env.dev.flash) :=
  flashTarget_refused bootloader_faithful ⟨rfl, rfl, rfl⟩ _ plain_refused

/-- The file is missing, and the flash has been erased. -/
theorem flashTarget_refused_erases : ∃ h',
    flashTarget ((bootloader lpc810.sectorAt 0).sys (Sys.plain _)) lpc810 ['f'.toUInt8] 0 zeros =
      .ok (-5) h' ∧
    h'.env.dev.flash 0 ≠ zeros.env.dev.flash 0 := by
  have hboot : Faithful (bootloader lpc810.sectorAt 0) lpc810.sectorAt 0 id := bootloader_faithful
  obtain ⟨ret, h₁, herase, hswept⟩ := eraseFlash_swept (O := Sys.plain _) (fun _ => 0) hboot
    (h := zeros) ⟨rfl, rfl, rfl⟩ lpc810
  obtain ⟨rfl, -⟩ := hswept.willing bootloader_willing
  have husable : lpc810.Usable := ⟨by decide, by decide, by decide⟩
  refine ⟨h₁, flashTarget_of_erased husable herase _ _, ?_⟩
  have hblank := hswept.blank rfl 0 0 (by decide) (Nat.le_refl 0) (by decide)
  change (id h₁.env.dev).flash 0 ≠ 0
  rw [hblank]
  decide

end LpcTools
