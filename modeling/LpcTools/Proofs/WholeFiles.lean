import LpcTools.Proofs.EndToEnd
import LpcTools.Proofs.RamFile

/-!
# Files that do not fit

`isp_file_to_buff` stops where its buffer is full, and what it returns does not tell whether there was
more in the file. So only files that fit are transferred whole: of a longer one the device gets the
start, with success, unless the start is refused for another reason.
-/

namespace LpcTools

open Run Uuencode

/-- Whenever `flash_target` succeeds, all of the file is in the flash. The word of the user code is not
taken from the file where it is calculated. -/
def FlashWhole (part : PartDesc) (calcUserCode : ℤ) (content : List UInt8) : Prop :=
  ∀ (δ : Type) (L : Line δ) (O : Sys (Wire δ)) (sector : UInt32 → Option ℕ) (chip : δ → Chip)
    (h h' : Host (Wire δ)) (filename : List UInt8),
    Faithful L sector part.uuencode.toNat chip → Idle chip h →
    (∀ env, Gives (L.sys O) env filename content) →
    flashTarget (L.sys O) part filename calcUserCode h = .ok 0 h' →
    content.length ≤ part.flashSize.toNat ∧ ∀ (i : ℕ) (hi : i < content.length),
      (calcUserCode = 1 → i < 28 ∨ 32 ≤ i) →
      (chip h'.env.dev).flash (part.flashBase + UInt32.ofNat i) = content[i]

/-- Whenever `isp_cmd_write_to_ram` succeeds, all of the file is in the RAM. -/
def RamWhole (arg₀ : List UInt8) (rest : List (List UInt8)) (content : List UInt8) : Prop :=
  ∀ (δ : Type) (L : Line δ) (O : Sys (Wire δ)) (sector : UInt32 → Option ℕ) (chip : δ → Chip)
    (h h' : Host (Wire δ)) (filename : List UInt8),
    Faithful L sector (argMode rest) chip → Idle chip h → Gives (L.sys O) h.env filename content →
    ispCmdWriteToRam (L.sys O) (arg₀ :: filename :: rest) h = .ok 0 h' →
    content.length ≤ ramMaxSize ∧ ∀ (i : ℕ) (hi : i < content.length),
      (chip h'.env.dev).ram (UInt32.ofNat (argValue arg₀) + UInt32.ofNat i) = content[i]

/-- A system with one file on it. -/
def oneFile (content : List UInt8) : Sys (Wire Chip) :=
  { Sys.plain (Wire Chip) with
    openInput := fun _ _ => some [.data content]
    beyond := fun _ _ => some 0 }

/-- A device of which all the memory is blank. -/
def blankHost : Host (Wire Chip) := .start (.quiet ⟨fun _ => 0xFF, fun _ => 0xFF, none⟩) 0 0 0

section Whole

variable {part : PartDesc} {image content data : List UInt8} {calcUserCode size : ℤ}

/-- What is written of the image itself. -/
theorem Approved.getElem? (ha : Approved part calcUserCode size image data) {i : ℕ}
    (hi : i < image.length) (hcode : calcUserCode = 1 → i < 28 ∨ 32 ≤ i) : data[i]? = image[i]? := by
  have hfilled : (filled part image)[i]? = image[i]? := List.getElem?_append_left hi
  obtain ⟨cksum, hcksum, hdata⟩ := ha.data_eq
  obtain ⟨-, crp, hword, -⟩ := ha.checks (Host.start () 0 0 0)
  rw [hdata]
  split_ifs with h1
  · have hlen : (filled part image).length = data.length := by
      obtain ⟨hpatch, -⟩ := ha.checks (Host.start () 0 0 0)
      exact (patchUserCode_length hpatch).symm
    have hroom := length_of_word hword
    have hfour : (bytesOfWord cksum).length = 4 := rfl
    have hmiss : i < 28 ∨ 28 + (bytesOfWord cksum).length ≤ i := hcode h1
    rw [crpOffset] at hroom
    rw [withUserCode, getElem?_overlay (by omega), if_neg (by omega), hfilled]
  · exact hfilled

theorem flashWhole_of_le (hlen : content.length ≤ part.flashSize.toNat) :
    FlashWhole part calcUserCode content := by
  intro δ L O sector chip h h' filename F hi hfile hrun
  refine ⟨hlen, fun i hlt hcode => ?_⟩
  obtain ⟨-, husable, g, -, -, h₁, size, image, data, hloaded, happroved, hflash⟩ :=
    (flashTarget_end (O := O) (fun _ => 0) F hi filename calcUserCode).done h' hrun
  rw [ispFileToBuff_gives (hfile h₁.env), List.take_of_length_le hlen] at hloaded
  cases hloaded
  obtain ⟨hfits, hroom⟩ := happroved.fits_toNat rfl husable.writes
  obtain ⟨hle, -, -⟩ := PartDesc.written_bounds husable.writes
    (Nat.lt_of_le_of_lt hlen part.flashSize.toNat_lt) (show 0 < content.length by omega)
  have hdata := happroved.getElem? hlt hcode
  have hin : i < data.length := by omega
  rw [List.getElem?_eq_getElem hlt, List.getElem?_eq_getElem hin, Option.some.injEq] at hdata
  rw [hflash, ← PartDesc.written, programmed_of_lt (Nat.lt_of_lt_of_le hlt hle)
    (Nat.le_trans hfits hroom) (Nat.lt_of_le_of_lt hfits part.flashSize.toNat_lt), hdata]

theorem oneFile_gives {L : Line Chip} (hne : content ≠ []) (env : Wire Chip) :
    Gives (L.sys (oneFile content)) env ['f'.toUInt8] content := .single rfl rfl hne

/-- What is loaded of a file is programmed with success if it is approved. -/
theorem oneFile_flashed (husable : part.Usable)
    (happroved : Approved part calcUserCode (toInt (content.take part.flashSize.toNat).length)
      (content.take part.flashSize.toNat) data) : ∃ h',
    flashTarget ((bootloader (fun _ => none) part.uuencode.toNat).sys (oneFile content)) part
      ['f'.toUInt8] calcUserCode blankHost = .ok 0 h' := by
  have hne : content ≠ [] := by
    rintro rfl
    exact absurd happroved.loaded (by simp [toInt])
  have hdevice : Faithful (bootloader (fun _ => none) part.uuencode.toNat) (fun _ => none)
    part.uuencode.toNat id := bootloader_faithful
  have hload (h : Host (Wire Chip)) := ispFileToBuff_gives (h := h)
    (oneFile_gives (L := bootloader (fun _ => none) part.uuencode.toNat) hne h.env)
    part.flashSize.toNat
  have hready : HostReady (bootloader (fun _ => none) part.uuencode.toNat) (oneFile content) part
      ['f'.toUInt8] calcUserCode (toInt (content.take part.flashSize.toNat).length)
      (content.take part.flashSize.toNat) data := by
    refine ⟨husable, fun _ => rfl, hload, happroved, fun env j _ => ?_⟩
    unfold Sys.object
    split_ifs with hin
    · simp [hin]
    · simp [oneFile]
  exact (flashTarget_end (O := oneFile content) (fun _ => 0) hdevice ⟨rfl, rfl, rfl⟩ ['f'.toUInt8]
    calcUserCode).willing bootloader_willing rfl _ _ data hready

/-- The start of a file that does not fit is programmed with success. -/
theorem not_flashWhole (hlong : part.flashSize.toNat < content.length) (husable : part.Usable)
    (happroved : Approved part calcUserCode (toInt part.flashSize.toNat)
      (content.take part.flashSize.toNat) data) : ¬ FlashWhole part calcUserCode content := by
  intro hwhole
  have hne : content ≠ [] := List.ne_nil_of_length_pos (by omega)
  have hlen : (content.take part.flashSize.toNat).length = part.flashSize.toNat := by
    rw [List.length_take, Nat.min_eq_left (Nat.le_of_lt hlong)]
  obtain ⟨h', hrun⟩ := oneFile_flashed husable (by rwa [hlen])
  obtain ⟨hle, -⟩ := hwhole _ _ _ _ _ _ _ _ bootloader_faithful (⟨rfl, rfl, rfl⟩ : Idle id blankHost)
    (oneFile_gives hne) hrun
  omega

variable {arg₀ : List UInt8} {rest : List (List UInt8)}

theorem ramWhole_of_le (hlen : content.length ≤ ramMaxSize) : RamWhole arg₀ rest content := by
  intro δ L O sector chip h h' filename F hi hfile hrun
  refine ⟨hlen, fun i hlt => ?_⟩
  have hne : content ≠ [] := List.ne_nil_of_length_pos (by omega)
  by_cases halign : argValue arg₀ % 4 = 0
  · obtain ⟨hle, -, -⟩ := wholeWords_bounds content.length
    have hroom := wholeWords_le hlen
    have hstored := ispCmdWriteToRam_stored (O := O) (fun _ => 0) F hi halign hfile hne
    simp only [List.take_of_length_le hlen] at hstored
    rcases hstored with ⟨-, f, h₁, hfault⟩ | ⟨m, ret, h₁, hslice, hrun', hst⟩
    · rw [hrun] at hfault
      cases hfault
    · rw [hrun] at hrun'
      cases hrun'
      have hoffset := offset_toNat (UInt32.ofNat (argValue arg₀)) (show i < 2 ^ 32 by
        rw [ramMaxSize] at hlen
        omega)
      have hstart : ((ramBuffer O h.env content).take (wholeWords content.length)).take content.length =
          content := by
        rw [List.take_take, Nat.min_eq_left hle, ramBuffer_take]
      have hbyte := congrArg (·[i]?) hstart
      simp only [List.getElem?_take, if_pos hlt] at hbyte
      rw [hst.ram rfl, toNat_ofNat_ram hroom, hslice, place, hoffset, List.getD_eq_getElem?_getD]
      simp only [List.getElem?_take]
      rw [hbyte, List.getElem?_eq_getElem hlt, Option.getD_some]
  · exact absurd hrun (ispCmdWriteToRam_unaligned halign h h')

theorem not_ramWhole (hlong : ramMaxSize < content.length) (halign : argValue arg₀ % 4 = 0) :
    ¬ RamWhole arg₀ rest content := by
  intro hwhole
  have hne : content ≠ [] := List.ne_nil_of_length_pos (by omega)
  have hdevice : Faithful (bootloader (fun _ => none) (argMode rest)) (fun _ => none) (argMode rest)
    id := bootloader_faithful
  have hidle : Idle id blankHost := ⟨rfl, rfl, rfl⟩
  have hfile : Gives ((bootloader (fun _ => none) (argMode rest)).sys (oneFile content)) blankHost.env
      ['f'.toUInt8] content := .single rfl rfl hne
  rcases ispCmdWriteToRam_stored (O := oneFile content) (fun _ => 0) hdevice hidle halign hfile hne with
    ⟨⟨-, -, i, -, hnone⟩, -⟩ | ⟨m, ret, h', -, hrun, hst⟩
  · cases hnone
  · obtain ⟨rfl, -⟩ := hst.willing bootloader_willing rfl
    obtain ⟨hle, -⟩ := hwhole _ _ _ _ _ _ _ _ hdevice hidle hfile hrun
    omega

end Whole

/-- Files that fit are transferred whole, and others are not but for those that are refused anyway. -/
theorem programmed_whole_iff (part : PartDesc) (calcUserCode : ℤ) (arg₀ : List UInt8)
    (rest : List (List UInt8)) (content : List UInt8) :
    (FlashWhole part calcUserCode content ↔ content.length ≤ part.flashSize.toNat ∨
      ∀ data, ¬ (part.Usable ∧ Approved part calcUserCode (toInt part.flashSize.toNat)
        (content.take part.flashSize.toNat) data)) ∧
    (RamWhole arg₀ rest content ↔ content.length ≤ ramMaxSize ∨ argValue arg₀ % 4 ≠ 0) := by
  refine ⟨⟨fun hwhole => ?_, fun hcond => ?_⟩, fun hwhole => ?_, fun hcond => ?_⟩
  · by_contra hcond
    obtain ⟨hlong, hall⟩ := not_or.1 hcond
    obtain ⟨data, hdata⟩ := not_forall.1 hall
    obtain ⟨husable, happroved⟩ := not_not.1 hdata
    exact not_flashWhole (by omega) husable happroved hwhole
  · rcases hcond with hlen | hno
    · exact flashWhole_of_le hlen
    · by_cases hlen : content.length ≤ part.flashSize.toNat
      · exact flashWhole_of_le hlen
      · intro δ L O sector chip h h' filename F hi hfile hrun
        obtain ⟨-, husable, g, -, -, h₁, size, image, data, hloaded, happroved, -⟩ :=
          (flashTarget_end (O := O) (fun _ => 0) F hi filename calcUserCode).done h' hrun
        rw [ispFileToBuff_gives (hfile h₁.env)] at hloaded
        cases hloaded
        rw [List.length_take, Nat.min_eq_left (by omega)] at happroved
        exact absurd ⟨husable, happroved⟩ (hno data)
  · by_contra hcond
    obtain ⟨hlong, halign⟩ := not_or.1 hcond
    exact not_ramWhole (by omega) (not_not.1 halign) hwhole
  · rcases hcond with hlen | halign
    · exact ramWhole_of_le hlen
    · intro δ L O sector chip h h' filename F hi hfile hrun
      exact absurd hrun (ispCmdWriteToRam_unaligned halign h h')

/-- One byte more than the flash of the LPC810 takes, and one more than goes into the buffer. -/
theorem longer_not_whole : ¬ FlashWhole lpc810 0 (.replicate 0x1001 0) ∧
    ¬ RamWhole ['0'.toUInt8] [] (.replicate 0x2001 0) := by
  constructor
  · have hzeros : Image (.replicate 0x1000 0) 0 0 0 := image_replicate (by omega)
    obtain ⟨data, hpass⟩ : ∃ data, PassesChecks blankHost lpc810 (.replicate 0x1000 0) 0 data :=
      (hzeros.passes_iff blankHost).2 ⟨rfl, rfl⟩
    have hlen : (List.replicate 0x1000 (0 : UInt8)).length = 0x1000 := List.length_replicate
    have happroved : Approved lpc810 0 (toInt lpc810.flashSize.toNat)
        (.take lpc810.flashSize.toNat (.replicate 0x1001 0)) data := by
      rw [List.take_replicate, show min lpc810.flashSize.toNat 0x1001 = 0x1000 from rfl]
      refine ⟨by decide, hpass.of_host, ?_⟩
      rw [nbWrites, hlen]
      decide
    refine not_flashWhole ?_ ⟨by decide, by decide, by decide⟩ happroved
    rw [List.length_replicate]
    decide
  · refine not_ramWhole ?_ (by decide)
    rw [List.length_replicate]
    decide

end LpcTools
