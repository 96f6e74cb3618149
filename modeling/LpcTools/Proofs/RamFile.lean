import LpcTools.Wrapper
import LpcTools.Proofs.Flashing

/-!
# A file to the RAM of a faithful device

`isp_cmd_write_to_ram` sends as much of the file as its buffer holds, up to the end of the last word,
with what the buffer held before in the bytes that are left over.
-/

namespace LpcTools

open Run

/-- The mode that a command takes from its last argument. -/
def argMode (rest : List (List UInt8)) : ℕ := (rest.head?.map argValue).getD 1 % 2 ^ 32

/-- A number of bytes, up to the end of the last word. -/
def wholeWords (n : ℕ) : ℕ := if n % 4 ≠ 0 then n / 4 * 4 + 4 else n

section Buffer

variable {σ : Type} {E : Sys σ} {env : σ} {image : List UInt8}

/-- The buffer on the stack, with an image in it. -/
def ramBuffer (E : Sys σ) (env : σ) (image : List UInt8) : List UInt8 :=
  overlay ((List.range ramMaxSize).map (E.stack env)) 0 image

theorem wholeWords_bounds (n : ℕ) : n ≤ wholeWords n ∧ wholeWords n < n + 4 ∧ wholeWords n % 4 = 0 := by
  unfold wholeWords
  split_ifs <;> omega

theorem wholeWords_le {n : ℕ} (h : n ≤ ramMaxSize) : wholeWords n ≤ ramMaxSize := by
  have := wholeWords_bounds n
  rw [ramMaxSize] at h ⊢
  omega

theorem toNat_ofNat_ram {n : ℕ} (h : n ≤ ramMaxSize) : (UInt32.ofNat n).toNat = n := by
  rw [ramMaxSize] at h
  rw [UInt32.toNat_ofNat', Nat.mod_eq_of_lt (by omega)]

theorem ramBuffer_length (h : image.length ≤ ramMaxSize) :
    (ramBuffer E env image).length = ramMaxSize := by
  rw [ramBuffer, overlay_length (by simpa using h), List.length_map, List.length_range]

theorem ramBuffer_take (image : List UInt8) : (ramBuffer E env image).take image.length = image := by
  rw [ramBuffer, overlay_zero, List.take_left]

variable {h : Host σ} {arg₀ filename content : List UInt8} {rest : List (List UInt8)}

/-- What is sent of a file. -/
theorem ispCmdWriteToRam_eq (halign : argValue arg₀ % 4 = 0) (hfile : Gives E h.env filename content)
    (hne : content ≠ []) :
    let image := content.take ramMaxSize
    ispCmdWriteToRam E (arg₀ :: filename :: rest) h =
      ispSendBufToRam E (E.object h.env (ramBuffer E h.env image)) (argValue arg₀)
        (UInt32.ofNat (wholeWords image.length)) (argMode rest) h := by
  intro image
  have hle : image.length ≤ ramMaxSize := List.length_take_le ..
  have hpos : image.length ≠ 0 := by
    have := List.length_pos_iff.2 hne
    rw [List.length_take, ramMaxSize]
    omega
  have hload := ispFileToBuff_gives hfile ramMaxSize
  have hcount : (toUnsigned (toInt image.length)).toNat = image.length := by
    rw [toUnsigned_toInt, toNat_ofNat_ram hle]
  unfold ispCmdWriteToRam
  simp only [halign, ne_eq, not_true_eq_false, if_false]
  rw [bind_ok (uninit_apply _ _ _), bind_ok (get_apply _), bind_ok hload]
  rw [← show image = content.take ramMaxSize from rfl]
  simp only [hcount, hpos, if_false]
  rfl

theorem ispCmdWriteToRam_unaligned (halign : argValue arg₀ % 4 ≠ 0) (h h' : Host σ) :
    ispCmdWriteToRam E (arg₀ :: filename :: rest) h ≠ .ok 0 h' := by
  intro hrun
  unfold ispCmdWriteToRam at hrun
  simp only [if_pos halign] at hrun
  cases hrun

end Buffer

variable {δ : Type} {L : Line δ} {O : Sys (Wire δ)} {sector : UInt32 → Option ℕ} {chip : δ → Chip}
  {h h' : Host (Wire δ)} {arg₀ filename content : List UInt8} {rest : List (List UInt8)}

/-- A file of which the start is stored. Only the encoder looks behind the buffer. -/
theorem ispCmdWriteToRam_stored (refusals : δ → ℕ) (F : Faithful L sector (argMode rest) chip)
    (hi : Idle chip h) (halign : argValue arg₀ % 4 = 0)
    (hfile : Gives (L.sys O) h.env filename content) (hne : content ≠ []) :
    let image := content.take ramMaxSize
    let count := wholeWords image.length
    ((argMode rest ≠ 0 ∧ ramMaxSize < count + 2 ∧ ∃ i < 2, O.beyond h.env i = none) ∧ ∃ f h',
      ispCmdWriteToRam (L.sys O) (arg₀ :: filename :: rest) h = .error f h') ∨
    ∃ m ret h', slice m 0 count = (ramBuffer O h.env image).take count ∧
      ispCmdWriteToRam (L.sys O) (arg₀ :: filename :: rest) h = .ok ret h' ∧
      Stored L sector chip refusals m (UInt32.ofNat (argValue arg₀)) (UInt32.ofNat count) h ret h' := by
  intro image count
  have hle : image.length ≤ ramMaxSize := List.length_take_le ..
  have hcount : count ≤ ramMaxSize := wholeWords_le hle
  have hbuffer : (ramBuffer O h.env image).length = ramMaxSize := ramBuffer_length hle
  have hsize := toNat_ofNat_ram hcount
  have hpos : UInt32.ofNat count ≠ 0 := fun h0 => by
    have hlen := List.length_pos_iff.2 hne
    have himage : image.length = min ramMaxSize content.length := List.length_take
    have hwhole : image.length ≤ count := (wholeWords_bounds image.length).1
    rw [h0, UInt32.toNat_zero] at hsize
    rw [ramMaxSize] at himage
    omega
  have hdata : ∀ j c, O.object h.env (ramBuffer O h.env image) j = some c →
      ((O.object h.env (ramBuffer O h.env image)).drop 0 j).getD 0 = c := by
    intro j c hj
    rw [Mem.drop, Nat.zero_add, hj, Option.getD_some]
  rw [ispCmdWriteToRam_eq halign hfile hne]
  rcases ispSendBufToRam_stored (O := O) refusals F hi hdata (argValue arg₀) hpos with
    ⟨⟨j, hj, hnone⟩, h', hrun, -⟩ | ⟨ret, h', hrun, hst⟩
  · left
    rw [hsize] at hj
    unfold Sys.object at hnone
    split_ifs at hnone with hin
    · rw [List.getElem?_eq_getElem hin] at hnone
      cases hnone
    · have hover : j - ramMaxSize < overRead (argMode rest) := by omega
      rw [hbuffer] at hnone hin
      unfold overRead at hover hj
      split_ifs at hover hj with hraw
      · omega
      · exact ⟨⟨hraw, by omega, _, hover, hnone⟩, .source, h', hrun⟩
  · exact .inr ⟨_, ret, h', slice_object O h.env (by omega), hrun, hst⟩

end LpcTools
