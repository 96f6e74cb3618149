import LpcTools.Proofs.Dump
import LpcTools.Proofs.RamFile
import LpcTools.Proofs.Reader

/-!
# A file to the RAM and back

`isp_cmd_write_to_ram` stores a file of whole words as it is, and `isp_cmd_read_memory` gets it back from
there.
-/

namespace LpcTools

open Run Uuencode

variable {δ : Type} {L : Line δ} {O : Sys (Wire δ)} {sector : UInt32 → Option ℕ} {uu : ℕ}
  {chip : δ → Chip} {sends : δ → List UInt8} {refusals : δ → ℕ} {h : Host (Wire δ)}

section Modes

variable {uu' : ℕ}

/-- Of the mode it only matters whether it is zero. -/
theorem Faithful.of_mode (F : Faithful L sector uu chip) (huu : uu' = 0 ↔ uu = 0) :
    Faithful L sector uu' chip :=
  ⟨F.prompt, F.command, fun h => F.block (mt huu.2 h), fun h => F.raw (huu.1 h)⟩

theorem Serves.of_mode (S : Serves L sector uu chip sends) (huu : uu' = 0 ↔ uu = 0) :
    Serves L sector uu' chip sends := by
  refine ⟨fun d addr count hidle hcount => ?_, fun h => S.next (mt huu.2 h)⟩
  obtain ⟨pieces, d', hhear, hchip, hraw, hblocks⟩ := S.grant d addr count hidle hcount
  exact ⟨pieces, d', hhear, hchip, fun h => hraw (huu.1 h), fun h => hblocks (mt huu.2 h)⟩

end Modes

section Commands

variable {addrArg countArg filename : List UInt8} {rest : List (List UInt8)}

/-- What is read is saved. -/
theorem ispCmdReadMemory_served (hp : Line.Prompt L.arrive)
    (S : Serves L sector (argMode rest) chip sends) (hi : Idle chip h)
    (haddr : argValue addrArg % 4 = 0) (hfour : argValue countArg % 4 = 0)
    (hpos : argValue countArg ≠ 0) (hlt : argValue countArg < 2 ^ 31)
    (hmalloc : ∀ env n, O.malloc env n = true) (hsave : Saves O filename)
    (hname : isStdStream filename = false) : ∃ h',
    ispCmdReadMemory (L.sys O) (addrArg :: countArg :: filename :: rest) h =
      .ok (argValue countArg) h' ∧
    savedCells h'.log = savedCells h.log ++ [(slice ((chip h.env.dev).memoryFrom sector
      (UInt32.ofNat (argValue addrArg))) 0 (argValue countArg)).map some] := by
  have hcount : (UInt32.ofNat (argValue countArg)).toNat = argValue countArg := by
    rw [UInt32.toNat_ofNat', Nat.mod_eq_of_lt (by omega)]
  have hne : UInt32.ofNat (argValue countArg) ≠ 0 := fun h0 => by
    rw [h0, UInt32.toNat_zero] at hcount
    exact hpos hcount.symm
  have hbuffer : (List.replicate (argValue countArg) (none : Cell)).length =
      (UInt32.ofNat (argValue countArg)).toNat := by rw [List.length_replicate, hcount]
  obtain ⟨h₁, hread, -, -⟩ := ispReadMemory_served hp S hi O (UInt32.ofNat (argValue addrArg)) hne
    (by rwa [hcount]) hbuffer
  rw [hcount] at hread
  set bs := slice ((chip h.env.dev).memoryFrom sector (UInt32.ofNat (argValue addrArg))) 0
    (argValue countArg)
  have hlen : bs.length = argValue countArg := slice_length ..
  have hsaved : ispBuffToFile (L.sys O) (bs.map some) (toUnsigned (toInt bs.length)) filename h₁ =
      .ok (toInt bs.length) (h₁.emit (.saved (bs.map some))) :=
    ispBuffToFile_saves hsave hname (by omega)
  have hkept := ispReadMemory_saved (E := L.sys O) (.replicate (argValue countArg) none)
    (UInt32.ofNat (argValue addrArg)) (UInt32.ofNat (argValue countArg)) (argMode rest) h
  rw [hread, final_ok] at hkept
  rw [hlen, toInt_of_lt hlt] at hsaved
  refine ⟨h₁.emit (.saved (bs.map some)), ?_, ?_⟩
  · unfold ispCmdReadMemory
    simp only [haddr, hfour, ne_eq, not_true_eq_false, or_self, if_false]
    rw [bind_ok (get_apply _)]
    change (if (!O.malloc h.env (argValue countArg)) = true then _ else _ : Prog _ ℤ) h = _
    rw [hmalloc, if_neg (by simp), ← argMode, bind_ok hread, toInt_of_lt hlt]
    exact hsaved
  · rw [Host.emit_log, savedCells_append, hkept]
    rfl

end Commands

/-- A file of whole words that is written to the RAM and read back from there is the same. -/
theorem write_read_same (O : Sys (Wire δ)) (F : Faithful L sector uu chip)
    (W : Willing L sector chip refusals) (S : Serves L sector uu chip sends) (hi : Idle chip h)
    (h0 : h.resendRequestedForBlock = 0) {addrArg countArg source output content : List UInt8}
    {writeRest readRest : List (List UInt8)} (haddr : argValue addrArg % 4 = 0)
    (hcount : argValue countArg = content.length) (hne : content ≠ []) (hfour : content.length % 4 = 0)
    (hmax : content.length ≤ ramMaxSize)
    (hroom : ∀ i < content.length,
      sector (UInt32.ofNat (argValue addrArg) + UInt32.ofNat i) = none)
    (hwriteMode : argMode writeRest = 0 ↔ uu = 0) (hreadMode : argMode readRest = 0 ↔ uu = 0)
    (hfile : Gives (L.sys O) h.env source content) (hmalloc : ∀ env n, O.malloc env n = true)
    (hsave : Saves O output) (hname : isStdStream output = false)
    (hbeyond : uu ≠ 0 → content.length = ramMaxSize → ∀ i < 2, O.beyond h.env i ≠ none) :
    ∃ h₁, ispCmdWriteToRam (L.sys O) (addrArg :: source :: writeRest) h = .ok 0 h₁ ∧
    ∀ h₂, h₂.env = h₁.env → h₂.nextReadChar = 0 → ∃ h₃,
      ispCmdReadMemory (L.sys O) (addrArg :: countArg :: output :: readRest) h₂ =
        .ok content.length h₃ ∧
      savedCells h₃.log = savedCells h₂.log ++ [content.map some] := by
  have hwhole : wholeWords content.length = content.length := if_neg (by omega)
  have hpos := List.length_pos_iff.2 hne
  have hwrite := ispCmdWriteToRam_stored (O := O) refusals (F.of_mode hwriteMode) hi haddr hfile hne
  simp only [List.take_of_length_le hmax, hwhole, ramBuffer_take] at hwrite
  rcases hwrite with ⟨⟨huu, hover, i, hlt, hnone⟩, -⟩ | ⟨m, ret, h₁, hslice, hrun, hst⟩
  · refine absurd hnone (hbeyond (mt hwriteMode.2 huu) ?_ i hlt)
    rw [ramMaxSize] at hmax hover ⊢
    omega
  obtain ⟨rfl, -⟩ := hst.willing W h0
  have hi₁ := hst.idle rfl
  have hram := hst.ram rfl
  rw [toNat_ofNat_ram hmax, hslice] at hram
  have hmemory : slice ((chip h₁.env.dev).memoryFrom sector (UInt32.ofNat (argValue addrArg))) 0
      content.length = content := by
    refine List.ext_getElem (slice_length ..) fun i _ hlt => ?_
    have hoffset := offset_toNat (UInt32.ofNat (argValue addrArg)) (show i < 2 ^ 32 by
      rw [ramMaxSize] at hmax
      omega)
    simp only [slice, List.getElem_map, List.getElem_range, Nat.zero_add, Chip.memoryFrom, Chip.memory,
      hroom i hlt, hram]
    rw [if_neg (by simp), place_of_lt (by rw [hoffset]; exact hlt)]
    simp only [hoffset]
  refine ⟨h₁, hrun, fun h₂ henv hnext => ?_⟩
  have hi₂ : Idle chip h₂ := ⟨hnext, by rw [henv, hi₁.pending], by rw [henv, hi₁.expects]⟩
  obtain ⟨h₃, hread, hsaved⟩ := ispCmdReadMemory_served F.prompt (S.of_mode hreadMode) hi₂ haddr
    (by rw [hcount, hfour]) (by omega) (by rw [hcount, ramMaxSize] at *; omega) hmalloc hsave hname
  rw [henv, hcount, hmemory] at hsaved
  rw [hcount] at hread
  exact ⟨h₃, hread, hsaved⟩

/-- Four bytes to address 0, encoded both ways. -/
theorem write_read_same_four :
    let L := reader (fun _ => none) 1
    let O := (Sys.plain (Wire (Chip × List UInt8))).withFiles fun _ _ => some [.data [76, 80, 67, 10]]
    let h : Host (Wire (Chip × List UInt8)) :=
      .start (.quiet (⟨fun _ => 0xFF, fun _ => 0xFF, none⟩, [])) 0 0 0
    ∃ h₁, ispCmdWriteToRam (L.sys O) [['0'.toUInt8], ['s'.toUInt8]] h = .ok 0 h₁ ∧
    ∀ h₂, h₂.env = h₁.env → h₂.nextReadChar = 0 → ∃ h₃,
      ispCmdReadMemory (L.sys O) [['0'.toUInt8], ['4'.toUInt8], ['o'.toUInt8]] h₂ = .ok 4 h₃ ∧
      savedCells h₃.log = savedCells h₂.log ++ [[76, 80, 67, 10].map some] := by
  intro L O h
  have haddr : argValue ['0'.toUInt8] % 4 = 0 := by decide
  have hcount : argValue ['4'.toUInt8] = [76, 80, 67, (10 : UInt8)].length := by decide
  have hmode : argMode [] = 0 ↔ 1 = 0 := by decide
  have hfile : Gives (L.sys O) h.env ['s'.toUInt8] [76, 80, 67, 10] := .single rfl rfl (by simp)
  have hsave : Saves O ['o'.toUInt8] := fun _ => ⟨rfl, fun _ => rfl⟩
  have hidle : Idle Prod.fst h := ⟨rfl, rfl, rfl⟩
  exact write_read_same O reader_faithful reader_willing (reader_serves _ 1) hidle rfl haddr hcount
    (by simp) rfl (by decide) (fun _ _ => rfl) hmode hmode hfile (fun _ _ => rfl) hsave rfl
    fun _ hfull => absurd hfull (by decide)

end LpcTools
