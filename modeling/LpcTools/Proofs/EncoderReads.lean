import LpcTools.Proofs.UuCodec

/-!
# What the encoder reads

The test for missing data comes after the read, and lets the first missing byte through, so a last
group of less than three bytes takes the bytes behind the data into the text. What the encoder
stores depends on whole groups (`encodeLines_congr`), and is the standard text of the data just
when there is no such last group (`encodesOnly_iff`).
-/

namespace LpcTools

open Uuencode

/-- Bytes stored one after the other from `dest[size]` on, where `size` is an `unsigned int`. -/
def Mem.stores (dest : Mem) (size : ℕ) : List UInt8 → Mem
  | [] => dest
  | c :: cs => Mem.stores (fun i => if i = size % 2 ^ 32 then some c else dest i) (size + 1) cs

/-- Whatever is behind the `n` bytes of data, and whether or not it can be read, the encoder returns,
and leaves in the destination the standard text of the data. -/
def EncodesOnly (m : ℕ → UInt8) (n : UInt32) : Prop :=
  ∀ src dest : Mem, (∀ i < n.toNat, src i = some (m i)) → ∃ len text,
    ispUuEncode src n = some (len, text) ∧
      ∀ i < (standardText (slice m 0 n.toNat)).length,
        dest.stores 0 text i = (standardText (slice m 0 n.toNat))[i]?

section Stores

theorem Mem.stores_of_le {i : ℕ} (hi : 2 ^ 32 ≤ i) : ∀ (text : List UInt8) (dest : Mem) (size : ℕ),
    dest.stores size text i = dest i
  | [], dest, size => rfl
  | c :: cs, dest, size => by
    have hlt := Nat.mod_lt size (show 0 < 2 ^ 32 by decide)
    rw [Mem.stores, Mem.stores_of_le hi cs, if_neg (by omega)]

theorem Mem.stores_of_lt {i : ℕ} : ∀ (text : List UInt8) (dest : Mem) {size : ℕ},
    size + text.length ≤ 2 ^ 32 → i < size → dest.stores size text i = dest i
  | [], _, _, _, _ => rfl
  | c :: cs, dest, size, hfit, hi => by
    rw [List.length_cons] at hfit
    have hsize : size % 2 ^ 32 = size := Nat.mod_eq_of_lt (by omega)
    rw [Mem.stores, Mem.stores_of_lt cs _ (by omega) (by omega), hsize, if_neg (by omega)]

theorem Mem.stores_add : ∀ (text : List UInt8) (dest : Mem) {size i : ℕ},
    size + text.length ≤ 2 ^ 32 → i < text.length → dest.stores size text (size + i) = text[i]?
  | [], _, _, _, _, hi => absurd hi (Nat.not_lt_zero _)
  | c :: cs, dest, size, 0, hfit, _ => by
    rw [List.length_cons] at hfit
    have hsize : size % 2 ^ 32 = size := Nat.mod_eq_of_lt (by omega)
    rw [Mem.stores, Mem.stores_of_lt cs _ (by omega) (by omega), hsize]
    exact if_pos (Nat.add_zero size)
  | c :: cs, dest, size, i + 1, hfit, hi => by
    rw [List.length_cons] at hfit hi
    rw [Mem.stores, show size + (i + 1) = size + 1 + i by omega,
      Mem.stores_add cs _ (by omega) (by omega), List.getElem?_cons_succ]

end Stores

section Reads

variable {src src' : Mem} {pos lineLength : ℕ}

theorem getTriplet_congr {i t : ℕ} (h : ∀ j < 3, src (pos + i + j) = src' (pos + i + j)) :
    getTriplet src pos i lineLength [0, 1, 2] t = getTriplet src' pos i lineLength [0, 1, 2] t := by
  simp only [getTriplet, h 0 (by decide), h 1 (by decide), h 2 (by decide)]

theorem encodeLine_congr (h : ∀ k < pos + 3 * ((lineLength + 2) / 3), src k = src' k) (i : ℕ)
    (hi : 3 ∣ i) : encodeLine src pos lineLength i = encodeLine src' pos lineLength i := by
  induction hk : lineLength - i using Nat.strongRecOn generalizing i with
  | ind k ih =>
    rw [encodeLine, encodeLine.eq_def src']
    by_cases hlt : i < lineLength
    · have htriplet : getTriplet src pos i lineLength [0, 1, 2] 0
          = getTriplet src' pos i lineLength [0, 1, 2] 0 :=
        getTriplet_congr fun j hj => h _ (by omega)
      rw [if_pos hlt, if_pos hlt, htriplet, ih _ (by omega) (i + 3) (by omega) rfl]
    · rw [if_neg hlt, if_neg hlt]

/-- The encoder reads whole groups of three bytes, and what it stores depends on these only. -/
theorem encodeLines_congr {n : ℕ} (h : ∀ k < 3 * ((n + 2) / 3), src k = src' k) (pos : ℕ)
    (hpos : 3 ∣ pos ∨ n ≤ pos) : encodeLines src n pos = encodeLines src' n pos := by
  induction hk : n - pos using Nat.strongRecOn generalizing pos with
  | ind k ih =>
    rw [encodeLines, encodeLines.eq_def src']
    by_cases hlt : pos < n
    · set l := min (n - pos) lineDataLengthMax with hl
      have h45 : lineDataLengthMax = 45 := rfl
      have hline : encodeLine src pos l 0 = encodeLine src' pos l 0 :=
        encodeLine_congr (fun k hk => h k (by omega)) 0 (Nat.dvd_zero 3)
      have hrest := ih (n - (pos + l)) (by omega) (pos + l) (by omega) rfl
      simp only [if_pos hlt, hline, hrest]
    · rw [if_neg hlt, if_neg hlt]

/-- Whatever is done about missing data, all three bytes of a group are read. -/
theorem getTriplet_none {i t j : ℕ} (hlt : i < lineLength) (hj : j < 3)
    (hsrc : src (pos + i + j) = none) : getTriplet src pos i lineLength [0, 1, 2] t = none := by
  have h1 : i + 1 ≤ lineLength := hlt
  obtain rfl | rfl | rfl : j = 0 ∨ j = 1 ∨ j = 2 := by omega
  · rw [Nat.add_zero] at hsrc
    simp [getTriplet, hsrc]
  · rcases h0 : src (pos + i) with _ | c
    · simp [getTriplet, h0]
    · simp [getTriplet, hsrc, hlt.le]
  · rcases h0 : src (pos + i) with _ | c
    · simp [getTriplet, h0]
    · rcases hone : src (pos + i + 1) with _ | d
      · simp [getTriplet, hone, hlt.le]
      · simp [getTriplet, hone, hsrc, Nat.not_lt.2 hlt.le, Nat.not_lt.2 h1]

theorem encodeLine_none {k : ℕ} (hsrc : src k = none) (i : ℕ) (hi : 3 ∣ i) (hle : pos + i ≤ k)
    (hk : k < pos + 3 * ((lineLength + 2) / 3)) : encodeLine src pos lineLength i = none := by
  induction hd : lineLength - i using Nat.strongRecOn generalizing i with
  | ind d ih =>
    have hlt : i < lineLength := by omega
    rw [encodeLine, if_pos hlt]
    by_cases hhere : k < pos + i + 3
    · rw [getTriplet_none hlt (show k - (pos + i) < 3 by omega)
        (by rw [show pos + i + (k - (pos + i)) = k by omega]; exact hsrc)]
      rfl
    · rw [ih _ (by omega) (i + 3) (by omega) (by omega) rfl]
      rcases getTriplet src pos i lineLength [0, 1, 2] 0 <;> rfl

/-- Every byte of the groups that the data starts is read. -/
theorem encodeLines_none {n k : ℕ} (hsrc : src k = none) (hk : k < 3 * ((n + 2) / 3)) (pos : ℕ)
    (hpos : 3 ∣ pos) (hle : pos ≤ k) : encodeLines src n pos = none := by
  induction hd : n - pos using Nat.strongRecOn generalizing pos with
  | ind d ih =>
    have hlt : pos < n := by omega
    have h45 : lineDataLengthMax = 45 := rfl
    rw [encodeLines, if_pos hlt]
    set l := min (n - pos) lineDataLengthMax with hl
    by_cases hhere : k < pos + 3 * ((l + 2) / 3)
    · simp only [encodeLine_none hsrc 0 (Nat.dvd_zero 3) hle hhere]
      rfl
    · simp only []
      rw [ih _ (by omega) (pos + l) (by omega) (by omega) rfl]
      rcases encodeLine src pos l 0 <;> rfl

end Reads

section Stored

variable (m : ℕ → UInt8)

theorem storeSextet_eq (v : ℕ) : storeSextet v = charOf v := rfl

theorem storeTriplet_eq (x y z : UInt8) :
    storeTriplet ((x.toNat * 256 + y.toNat) * 256 + z.toNat) = groupChars x y z := by
  have hx := x.toNat_lt
  have hy := y.toNat_lt
  have hz := z.toNat_lt
  set t := (x.toNat * 256 + y.toNat) * 256 + z.toNat with ht
  simp only [storeTriplet, List.map_cons, List.map_nil, storeSextet_eq, shiftRight_and_mask,
    groupChars, Nat.reduceSub, Nat.reduceMul, List.cons.injEq, and_true]
  refine ⟨?_, ?_, ?_, ?_⟩ <;> congr 1 <;> omega

/-- The characters of a line are those of the whole groups it starts. -/
theorem encodeLine_charsOf (pos lineLength : ℕ) (i : ℕ) :
    encodeLine (Mem.total m) pos lineLength i
      = some (charsOf (slice m (pos + i) (3 * ((lineLength - i + 2) / 3)))) := by
  induction hk : lineLength - i using Nat.strongRecOn generalizing i with
  | ind k ih =>
    rw [encodeLine]
    by_cases hlt : i < lineLength
    · have hgroups : 3 * ((k + 2) / 3) = 3 * ((lineLength - (i + 3) + 2) / 3) + 3 := by omega
      rw [if_pos hlt, getTriplet_total m hlt, ih _ (by omega) (i + 3) rfl, hgroups, slice_three,
        charsOf, ← storeTriplet_eq]
      rfl
    · rw [if_neg hlt, show k = 0 by omega]
      rfl

/-- Data in whole groups is encoded to its standard text. -/
theorem encodeLines_standard {n : ℕ} (h3 : 3 ∣ n) (pos : ℕ) (hpos : 3 ∣ pos) :
    encodeLines (Mem.total m) n pos = some (standardText (slice m pos (n - pos))) := by
  induction hk : n - pos using Nat.strongRecOn generalizing pos with
  | ind k ih =>
    rw [encodeLines, standardText]
    by_cases hlt : pos < n
    · have hne : slice m pos k ≠ [] := by
        rw [← List.length_pos_iff, slice_length]
        omega
      set l := min (n - pos) lineDataLengthMax with hl
      have h45 : lineDataLengthMax = 45 := rfl
      have htake : (slice m pos k).take 45 = slice m pos l := by
        rcases Nat.le_total 45 k with hle | hle
        · rw [slice_take m pos hle, hl, hk, h45, Nat.min_eq_right hle]
        · rw [List.take_of_length_le (by rwa [slice_length]), hl, hk, h45, Nat.min_eq_left hle]
      have hdrop : (slice m pos k).drop 45 = slice m (pos + l) (n - (pos + l)) := by
        rcases Nat.le_total 45 k with hle | hle
        · rw [slice_drop m pos hle, hl, hk, h45, Nat.min_eq_right hle]
          congr 1
          omega
        · rw [List.drop_eq_nil_of_le (by rwa [slice_length]),
            show n - (pos + l) = 0 by omega]
          rfl
      have hline := encodeLine_charsOf m pos l 0
      rw [Nat.add_zero, Nat.sub_zero, show 3 * ((l + 2) / 3) = l by omega] at hline
      rw [if_pos hlt, if_neg hne, htake, hdrop]
      simp only [hline, ih _ (by omega) (pos + l) (by omega) rfl, Option.bind_eq_bind,
        Option.bind_some, lineOf, slice_length, List.cons_append]
      rfl
    · rw [if_neg hlt, if_pos (by rw [show k = 0 by omega]; rfl)]

end Stored

theorem ispUuEncode_standard {m : ℕ → UInt8} {n : UInt32} {src : Mem} (h3 : 3 ∣ n.toNat)
    (hsrc : ∀ i < n.toNat, src i = some (m i)) :
    ispUuEncode src n = some (toInt (textLength n.toNat), standardText (slice m 0 n.toNat)) := by
  have hcongr : encodeLines src n.toNat 0 = encodeLines (Mem.total m) n.toNat 0 :=
    encodeLines_congr (fun k hk => hsrc k (by omega)) 0 (.inl (Nat.dvd_zero 3))
  have hlen := standardText_length (slice m 0 n.toNat)
  rw [slice_length] at hlen
  rw [ispUuEncode, hcongr, encodeLines_standard m h3 0 (Nat.dvd_zero 3), ← hlen]
  rfl

/-- The encoder emits only the data it was given when there is no last group to fill up, and as long
as the text has no more bytes than its `unsigned int` index can tell apart. -/
theorem encodesOnly_iff (m : ℕ → UInt8) (n : UInt32) :
    EncodesOnly m n ↔ 3 ∣ n.toNat ∧ textLength n.toNat ≤ 2 ^ 32 := by
  have hlen := standardText_length (slice m 0 n.toNat)
  rw [slice_length] at hlen
  constructor
  · intro h
    -- nothing but the data can be read, and nothing is in the destination yet
    obtain ⟨len, text, henc, htext⟩ := h (fun i => if i < n.toNat then some (m i) else none)
      (fun _ => none) fun i hi => if_pos hi
    have h3 : 3 ∣ n.toNat := by
      by_contra h3
      have hnone : encodeLines (fun i => if i < n.toNat then some (m i) else none) n.toNat 0
          = none := encodeLines_none (if_neg (lt_irrefl _)) (by omega) 0 (Nat.dvd_zero 3) (Nat.zero_le _)
      rw [ispUuEncode, hnone] at henc
      cases henc
    refine ⟨h3, ?_⟩
    by_contra hlong
    rw [Nat.not_le, ← hlen] at hlong
    have hlast := htext (2 ^ 32) hlong
    rw [Mem.stores_of_le le_rfl, List.getElem?_eq_getElem hlong] at hlast
    cases hlast
  · rintro ⟨h3, hfit⟩ src dest hsrc
    refine ⟨_, _, ispUuEncode_standard h3 hsrc, fun i hi => ?_⟩
    rw [← Nat.zero_add i, Mem.stores_add _ dest (by omega) hi, Nat.zero_add]

/-- One byte is encoded to different texts in two memories that agree on it, and cannot be encoded
at the end of what can be read. -/
theorem encoder_takes_more : ¬ (∀ m n, EncodesOnly m n) ∧
    ispUuEncode (Mem.of [65, 0, 0]) 1 = some (7, [33, 48, 48, 96, 96, 13, 10]) ∧
    ispUuEncode (Mem.of [65, 66, 67]) 1 = some (7, [33, 48, 52, 41, 35, 13, 10]) ∧
    ispUuEncode (Mem.of [65]) 1 = none := by
  refine ⟨fun h => ?_, by decide +kernel, by decide +kernel, by decide +kernel⟩
  obtain ⟨len, text, henc, -⟩ := h (fun _ => 65) 1 (Mem.of [65]) (fun _ => none) (by decide)
  have hnone : ispUuEncode (Mem.of [65]) 1 = none := by decide +kernel
  rw [hnone] at henc
  cases henc

end LpcTools
