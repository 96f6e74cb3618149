import LpcTools.Uu

/-!
# Encoding and decoding

The decoder reads lines of any sizes up to 63 with any characters in them
(`decodeLines_textOf`), provided the text is followed by a byte that can be read. The encoder
writes standard lines that stand for the bytes it is given (`encodeLines_total`), so decoding
undoes it. The two bytes it may read past the data only reach the unused part of a last group.
-/

namespace LpcTools

open Uuencode

/-- The memory holds the bytes of `l` from `pos` on. -/
def Sees (src : Mem) (pos : ℕ) (l : List UInt8) : Prop := ∀ i < l.length, src (pos + i) = l[i]?

section Sees

variable {src : Mem} {pos : ℕ}

theorem Sees.head {c : UInt8} {l : List UInt8} (h : Sees src pos (c :: l)) : src pos = some c :=
  h 0 (by simp)

theorem Sees.tail {c : UInt8} {l : List UInt8} (h : Sees src pos (c :: l)) :
    Sees src (pos + 1) l := by
  intro i hi
  have := h (i + 1) (by simp; omega)
  rw [List.getElem?_cons_succ] at this
  rwa [Nat.add_assoc, Nat.add_comm 1]

theorem Sees.left {a b : List UInt8} (h : Sees src pos (a ++ b)) : Sees src pos a := by
  intro i hi
  rw [h i (by rw [List.length_append]; omega), List.getElem?_append_left hi]

theorem Sees.right {a b : List UInt8} (h : Sees src pos (a ++ b)) :
    Sees src (pos + a.length) b := by
  intro i hi
  have := h (a.length + i) (by rw [List.length_append]; omega)
  rw [List.getElem?_append_right (by omega)] at this
  rwa [Nat.add_assoc, Nat.add_sub_cancel_left] at *

theorem Sees.of_append (a b c : List UInt8) : Sees (Mem.of (a ++ (b ++ c))) a.length b := by
  intro i hi
  rw [Mem.of, List.getElem?_append_right (by omega), Nat.add_sub_cancel_left,
    List.getElem?_append_left hi]

end Sees

section Decode

variable {src : Mem}

theorem decodeLine_chars : ∀ (left : ℕ) {pos : ℕ} {chars : List UInt8},
    chars.length = 4 * ((left + 2) / 3) → Sees src pos chars →
    decodeLine src pos left = some ((groupBytes chars).take left, pos + chars.length) := by
  intro left
  induction left using Nat.strongRecOn with
  | ind left ih =>
    intro pos chars hlen hsee
    rw [decodeLine]
    split
    · rename_i h0
      subst h0
      rw [List.length_eq_zero_iff.1 hlen]
      rfl
    · rename_i h0
      obtain ⟨a, b, c, d, rest, rfl⟩ : ∃ a b c d rest, chars = a :: b :: c :: d :: rest := by
        rcases chars with _ | ⟨a, _ | ⟨b, _ | ⟨c, _ | ⟨d, rest⟩⟩⟩⟩
        · simp only [List.length_nil] at hlen
          omega
        · simp only [List.length_cons, List.length_nil] at hlen
          omega
        · simp only [List.length_cons, List.length_nil] at hlen
          omega
        · simp only [List.length_cons, List.length_nil] at hlen
          omega
        · exact ⟨a, b, c, d, rest, rfl⟩
      simp only [List.length_cons] at hlen
      have hq : getQuartet src pos = some (triplet a b c d) := by
        simp only [getQuartet, hsee.head, hsee.tail.head, hsee.tail.tail.head,
          hsee.tail.tail.tail.head, Option.bind_eq_bind, Option.bind_some]
      rw [hq]
      have hrest := ih (left - 3) (by omega) (by omega) hsee.tail.tail.tail.tail
      simp only [Option.bind_eq_bind, Option.bind_some, hrest, groupBytes, List.length_cons,
        List.take_append, tripletBytes_length, Option.some.injEq, Prod.mk.injEq, true_and]
      omega

theorem findNextLine_ending {origSize : ℕ} {d : UInt8} : ∀ {ending : List UInt8} {pos : ℕ},
    Sees src pos ending → (∀ c ∈ ending, c < 32) → pos + ending.length ≤ origSize →
    src (pos + ending.length) = some d →
    (pos + ending.length < origSize → (uuencodeAddedVal : ℤ) ≤ charVal d) →
    findNextLine src origSize pos = some (pos + ending.length)
  | [], pos, _, _, _, hd, hstop => by
    simp only [List.length_nil, Nat.add_zero] at hd hstop ⊢
    rw [findNextLine, hd]
    simp only [Option.bind_eq_bind, Option.bind_some]
    rw [if_neg]
    rintro ⟨h1, h2⟩
    exact absurd h1 (Int.not_lt.2 (hstop h2))
  | c :: ending, pos, hsee, hlt, hle, hd, hstop => by
    have hc : c < 32 := hlt c List.mem_cons_self
    have hval : charVal c < uuencodeAddedVal := by
      rw [UInt8.lt_iff_toNat_lt] at hc
      rw [charVal, if_pos (by rw [UInt8.lt_iff_toNat_lt]; exact hc.trans (by decide))]
      exact_mod_cast hc
    simp only [List.length_cons] at hle hd hstop ⊢
    rw [findNextLine, hsee.head]
    simp only [Option.bind_eq_bind, Option.bind_some]
    rw [if_pos ⟨hval, by omega⟩, findNextLine_ending hsee.tail
      (fun c hc => hlt c (List.mem_cons_of_mem _ hc)) (by omega) (by rw [← hd]; congr 1; omega)
      (fun h => hstop (by omega))]
    congr 1
    omega

theorem lengthChar_spec : ∀ n < 64, 0 < n → charVal (UInt8.ofNat (n + 32)) = n + 32
    ∧ UInt8.ofNat (n + 32) ≠ uuencodeZero := by decide

theorem lineLengthOf_lengthChar {n : ℕ} (h : n < 64) (h0 : 0 < n) :
    lineLengthOf (UInt8.ofNat (n + 32)) = n := by
  rw [lineLengthOf, (lengthChar_spec n h h0).1, uuencodeAddedVal]
  omega

/-- The decoder stores the bytes the lines stand for, if the destination has room for them. -/
theorem decodeLines_textOf {origSize room : ℕ} (hafter : (src origSize).isSome) :
    ∀ (ls : List Line) {pos : ℕ} {dest : List UInt8}, Sees src pos (textOf ls) →
    pos + (textOf ls).length = origSize → dest.length + (bytesOf ls).length ≤ room →
    decodeLines src origSize room pos dest = some (dest ++ bytesOf ls)
  | [], pos, dest, _, hpos, _ => by
    rw [decodeLines, if_neg (by simp [textOf] at hpos; omega)]
    simp [bytesOf]
  | l :: ls, pos, dest, hsee, hpos, hroom => by
    obtain ⟨hval, hzero⟩ := lengthChar_spec l.size (by have := l.size_le; omega) l.size_pos
    have hsize := lineLengthOf_lengthChar (by have := l.size_le; omega) l.size_pos
    rw [textOf_cons] at hsee hpos
    rw [bytesOf_cons] at hroom
    simp only [List.length_append] at hpos hroom
    have htext := hsee.left
    have hlen := l.text_length
    rw [Line.text] at htext
    have hline := decodeLine_chars l.size l.chars_length htext.tail.left
    rw [← Line.bytes, l.chars_length] at hline
    -- what follows the line end is the next line's length character, or the end of the text
    obtain ⟨d, hd, hstop⟩ : ∃ d, src (pos + l.text.length) = some d
        ∧ (pos + l.text.length < origSize → (uuencodeAddedVal : ℤ) ≤ charVal d) := by
      rcases ls with _ | ⟨l', ls⟩
      · obtain ⟨d, hd⟩ := Option.isSome_iff_exists.1 hafter
        simp only [textOf, List.flatMap_nil, List.length_nil, Nat.add_zero] at hpos
        exact ⟨d, by rw [hpos]; exact hd, fun h => by omega⟩
      · have h' := hsee.right
        rw [textOf_cons, Line.text] at h'
        refine ⟨_, h'.left.head, fun _ => ?_⟩
        rw [(lengthChar_spec l'.size (by have := l'.size_le; omega) l'.size_pos).1,
          uuencodeAddedVal]
        omega
    have hend : pos + 1 + 4 * ((l.size + 2) / 3) + l.ending.length = pos + l.text.length := by
      omega
    have hending := htext.tail.right
    rw [l.chars_length] at hending
    have hfind : findNextLine src origSize (pos + 1 + 4 * ((l.size + 2) / 3))
        = some (pos + l.text.length) := by
      rw [← hend] at hd hstop ⊢
      exact findNextLine_ending hending l.ending_lt (by omega) hd hstop
    have ih : decodeLines src origSize room (pos + l.text.length) (dest ++ l.bytes)
        = some (dest ++ l.bytes ++ bytesOf ls) :=
      decodeLines_textOf hafter ls hsee.right (by omega) (by rw [List.length_append]; omega)
    rw [decodeLines_eq, if_pos (by omega), htext.head]
    simp only [Option.bind_eq_bind, Option.bind_some]
    rw [if_neg hzero, hsize, hline]
    simp only [Option.bind_some]
    rw [if_neg (by rw [l.bytes_length] at hroom ⊢; omega), hfind, Option.bind_some, ih,
      bytesOf_cons, List.append_assoc]

/-- `isp_uu_decode` on lines followed by a byte that can be read. -/
theorem ispUuDecode_textOf {room : ℕ} (ls : List Line) (hsee : Sees src 0 (textOf ls))
    (hafter : (src (textOf ls).length).isSome) (hlen : (textOf ls).length < 2 ^ 32)
    (hroom : (bytesOf ls).length ≤ room) :
    ispUuDecode src room (UInt32.ofNat (textOf ls).length)
      = some (toInt (bytesOf ls).length, bytesOf ls) := by
  have hn : (UInt32.ofNat (textOf ls).length).toNat = (textOf ls).length := by
    rw [UInt32.toNat_ofNat']
    omega
  rw [ispUuDecode, hn, decodeLines_textOf hafter ls hsee (by omega) (by simpa using hroom)]
  rfl

end Decode

section Encode

variable (m : ℕ → UInt8)

/-- The `k` bytes of memory from `a` on. -/
def slice (a k : ℕ) : List UInt8 := (List.range k).map fun j => m (a + j)

@[simp] theorem slice_length (a k : ℕ) : (slice m a k).length = k := by simp [slice]

@[simp] theorem slice_zero (a : ℕ) : slice m a 0 = [] := rfl

theorem slice_add (a k l : ℕ) : slice m a (k + l) = slice m a k ++ slice m (a + k) l := by
  simp [slice, List.range_add, Nat.add_assoc, Function.comp_def]

theorem slice_three (a k : ℕ) :
    slice m a (k + 3) = m a :: m (a + 1) :: m (a + 2) :: slice m (a + 3) k := by
  rw [Nat.add_comm k 3, slice_add]
  rfl

theorem slice_take (a : ℕ) {k l : ℕ} (h : l ≤ k) : (slice m a k).take l = slice m a l := by
  obtain ⟨d, rfl⟩ := Nat.exists_eq_add_of_le h
  rw [slice_add, List.take_left' (slice_length m a l)]

theorem slice_drop (a : ℕ) {k l : ℕ} (h : l ≤ k) :
    (slice m a k).drop l = slice m (a + l) (k - l) := by
  obtain ⟨d, rfl⟩ := Nat.exists_eq_add_of_le h
  rw [slice_add, List.drop_left' (slice_length m a l), Nat.add_sub_cancel_left]

theorem sextet_storeSextet {v : ℕ} (h : v < 64) : sextet (storeSextet v) = v := by
  rw [storeSextet]
  split
  · rename_i h0
    rw [h0]
    exact sextet_zero
  · exact sextet_ofNat v h

theorem getTriplet_total {pos i lineLength : ℕ} (h : i < lineLength) :
    getTriplet (Mem.total m) pos i lineLength [0, 1, 2] 0
      = some (((m (pos + i)).toNat * 256 + (m (pos + i + 1)).toNat) * 256
          + (m (pos + i + 2)).toNat) := by
  have h1 := (m (pos + i + 1)).toNat_lt
  have h2 := (m (pos + i + 2)).toNat_lt
  have hor : (m (pos + i)).toNat <<< 16 ||| (m (pos + i + 1)).toNat <<< 8
      ||| (m (pos + i + 2)).toNat
      = ((m (pos + i)).toNat * 256 + (m (pos + i + 1)).toNat) * 256 + (m (pos + i + 2)).toNat := by
    rw [show (16 : ℕ) = 8 + 8 from rfl, Nat.shiftLeft_add, ← Nat.shiftLeft_or_distrib,
      ← Nat.shiftLeft_add_eq_or_of_lt h1, ← Nat.shiftLeft_add_eq_or_of_lt h2, Nat.shiftLeft_eq,
      Nat.shiftLeft_eq]
  rw [← hor]
  simp only [getTriplet, Mem.total, Option.bind_eq_bind, Option.bind_some, Nat.add_zero,
    Nat.sub_zero, Nat.zero_or, if_neg (Nat.not_lt.2 h.le), if_neg (Nat.not_lt.2 h),
    Nat.reduceMul, Nat.reduceSub, Nat.shiftLeft_zero, ite_self]

/-- Six bits of a number. -/
theorem shiftRight_and_mask (t k : ℕ) : t >>> k &&& 0x3F = t / 2 ^ k % 64 := by
  rw [Nat.shiftRight_eq_div_pow, show (0x3F : ℕ) = 2 ^ 6 - 1 from rfl,
    Nat.and_two_pow_sub_one_eq_mod]

/-- The four characters stored for a triplet stand for its three bytes. -/
theorem groupBytes_storeTriplet (x y z : UInt8) (rest : List UInt8) :
    groupBytes (storeTriplet ((x.toNat * 256 + y.toNat) * 256 + z.toNat) ++ rest)
      = x :: y :: z :: groupBytes rest := by
  have hx := x.toNat_lt
  have hy := y.toNat_lt
  have hz := z.toNat_lt
  set t := (x.toNat * 256 + y.toNat) * 256 + z.toNat with ht
  have hsextet : ∀ k, sextet (storeSextet (t >>> k &&& 0x3F)) = t / 2 ^ k % 64 := fun k => by
    rw [shiftRight_and_mask]
    exact sextet_storeSextet (Nat.mod_lt _ (by decide))
  simp only [storeTriplet, List.map_cons, List.map_nil, List.cons_append, List.nil_append,
    groupBytes, Nat.reduceSub, Nat.reduceMul]
  rw [tripletBytes_triplet (x := x) (y := y) (z := z)]
  · rfl
  all_goals
    rw [hsextet]
    omega

theorem storeTriplet_length (t : ℕ) : (storeTriplet t).length = 4 := rfl

theorem encodeLine_total (pos lineLength : ℕ) : ∀ i, ∃ chars,
    encodeLine (Mem.total m) pos lineLength i = some chars
      ∧ chars.length = 4 * ((lineLength - i + 2) / 3)
      ∧ (groupBytes chars).take (lineLength - i) = slice m (pos + i) (lineLength - i) := by
  intro i
  induction hk : lineLength - i using Nat.strongRecOn generalizing i with
  | ind k ih =>
    rw [encodeLine]
    split
    · rename_i hi
      obtain ⟨chars, h1, h2, h3⟩ := ih (lineLength - (i + 3)) (by omega) (i + 3) rfl
      refine ⟨_, by rw [getTriplet_total m hi, h1]; rfl, ?_, ?_⟩
      · rw [List.length_append, storeTriplet_length, h2]
        omega
      · rw [groupBytes_storeTriplet]
        match k, hk with
        | 0, hk => omega
        | 1, hk => simp [slice]
        | 2, hk => simp [slice, List.range_succ, Nat.add_assoc]
        | k + 3, hk =>
          rw [show lineLength - (i + 3) = k by omega, ← Nat.add_assoc] at h3
          rw [Nat.add_comm k 3, slice_add, ← h3]
          simp [slice, List.range_succ, Nat.add_assoc, Nat.add_comm 3 k]
    · refine ⟨[], rfl, ?_, ?_⟩
      · simp
        omega
      · simp [slice, show k = 0 by omega]

/-- The line stored for `n` bytes at `pos`. -/
def encodedLine (pos n : ℕ) (hpos : 0 < n) (hle : n ≤ 45) : Line where
  size := n
  chars := (encodeLine (Mem.total m) pos n 0).getD []
  ending := crlf
  size_pos := hpos
  size_le := Nat.le_trans hle (by decide)
  chars_length := by
    obtain ⟨chars, henc, hlen, -⟩ := encodeLine_total m pos n 0
    rw [henc, Option.getD_some, hlen, Nat.sub_zero]
  ending_lt := crlf_lt

def encodedLines (origSize pos : ℕ) : List Line :=
  if h : pos < origSize then
    encodedLine m pos (min (origSize - pos) 45) (by omega) (Nat.min_le_right _ _) ::
      encodedLines origSize (pos + min (origSize - pos) 45)
  else []
termination_by origSize - pos

theorem encodedLine_spec (pos : ℕ) {n : ℕ} (hpos : 0 < n) (hle : n ≤ 45) :
    encodeLine (Mem.total m) pos n 0 = some (encodedLine m pos n hpos hle).chars ∧
      (encodedLine m pos n hpos hle).bytes = slice m pos n := by
  obtain ⟨chars, henc, hlen, hbytes⟩ := encodeLine_total m pos n 0
  have hchars : (encodedLine m pos n hpos hle).chars = chars := by
    change (encodeLine (Mem.total m) pos n 0).getD [] = chars
    rw [henc, Option.getD_some]
  rw [hchars, Line.bytes, hchars]
  exact ⟨henc, hbytes⟩

theorem encodedLines_ne_nil {origSize pos : ℕ} (h : encodedLines m origSize pos ≠ []) :
    pos < origSize := by
  by_contra hpos
  rw [encodedLines, dif_neg hpos] at h
  exact h rfl

/-- What is encoded is standard lines that stand for the bytes given, whatever follows these. -/
theorem encodeLines_total (origSize : ℕ) : ∀ pos,
    encodeLines (Mem.total m) origSize pos = some (textOf (encodedLines m origSize pos))
      ∧ Standard (encodedLines m origSize pos)
      ∧ bytesOf (encodedLines m origSize pos) = slice m pos (origSize - pos) := by
  intro pos
  induction hk : origSize - pos using Nat.strongRecOn generalizing pos with
  | ind k ih =>
    rw [encodeLines, encodedLines]
    by_cases hpos : pos < origSize
    · obtain ⟨htext, hstd, hbytes⟩ := ih (origSize - (pos + min (origSize - pos) 45)) (by omega) _ rfl
      obtain ⟨henc, hline⟩ := encodedLine_spec m pos
        (show 0 < min (origSize - pos) 45 by omega) (Nat.min_le_right _ _)
      rw [if_pos hpos, dif_pos hpos]
      refine ⟨?_, hstd.cons (Nat.min_le_right _ _) rfl ?_, ?_⟩
      · simp only [lineDataLengthMax, henc, htext, Option.bind_eq_bind, Option.bind_some]
        rfl
      · intro hne
        have := encodedLines_ne_nil m hne
        simp only [encodedLine]
        omega
      · rw [bytesOf_cons, hbytes, hline, ← slice_add]
        congr 1
        omega
    · rw [if_neg hpos, dif_neg hpos]
      exact ⟨rfl, trivial, by simp [bytesOf, slice, show k = 0 by omega]⟩

theorem ispUuEncode_total (origSize : UInt32) : ∃ ls,
    ispUuEncode (Mem.total m) origSize = some (toInt (textOf ls).length, textOf ls)
      ∧ Standard ls ∧ bytesOf ls = slice m 0 origSize.toNat
      ∧ (textOf ls).length = textLength origSize.toNat := by
  obtain ⟨h1, h2, h3⟩ := encodeLines_total m origSize.toNat 0
  refine ⟨_, by rw [ispUuEncode, h1]; rfl, h2, h3, ?_⟩
  rw [h2.textOf_length, h3, slice_length, Nat.sub_zero]

end Encode

section Part

variable {src : Mem} {m : ℕ → UInt8}

theorem getTriplet_part (hsrc : ∀ i c, src i = some c → m i = c) (pos i lineLength : ℕ) :
    ∀ (js : List ℕ) (t : ℕ), getTriplet src pos i lineLength js t =
        getTriplet (Mem.total m) pos i lineLength js t ∨
      getTriplet src pos i lineLength js t = none ∧ ∃ j ∈ js, src (pos + i + j) = none
  | [], t => .inl rfl
  | j :: js, t => by
    rw [getTriplet, getTriplet]
    rcases hc : src (pos + i + j) with _ | c
    · exact .inr ⟨rfl, j, List.mem_cons_self, hc⟩
    · have htotal : Mem.total m (pos + i + j) = some c := by rw [Mem.total, hsrc _ _ hc]
      simp only [htotal, Option.bind_eq_bind, Option.bind_some]
      by_cases hlt : lineLength < i + j
      · rw [if_pos hlt, if_pos hlt]
        exact .inl rfl
      · rw [if_neg hlt, if_neg hlt]
        refine (getTriplet_part hsrc pos i lineLength js _).imp_right fun ⟨hnone, k, hk, hsrc⟩ => ?_
        exact ⟨hnone, k, List.mem_cons_of_mem _ hk, hsrc⟩

theorem encodeLine_part (hsrc : ∀ i c, src i = some c → m i = c) (pos lineLength i : ℕ) :
    encodeLine src pos lineLength i = encodeLine (Mem.total m) pos lineLength i ∨
      encodeLine src pos lineLength i = none ∧ ∃ k < pos + lineLength + 2, src k = none := by
  induction hk : lineLength - i using Nat.strongRecOn generalizing i with
  | ind k ih =>
    rw [encodeLine.eq_def src pos lineLength i, encodeLine.eq_def (Mem.total m) pos lineLength i]
    by_cases hi : i < lineLength
    · rw [if_pos hi, if_pos hi]
      rcases getTriplet_part hsrc pos i lineLength [0, 1, 2] 0 with heq | ⟨hnone, j, hj, hmem⟩
      · rw [heq]
        rcases ih (lineLength - (i + 3)) (by omega) (i + 3) rfl with hrest | ⟨hrest, hmem⟩
        · rw [hrest]
          exact .inl rfl
        · right
          rw [hrest]
          refine ⟨?_, hmem⟩
          rcases getTriplet (Mem.total m) pos i lineLength [0, 1, 2] 0 <;> rfl
      · right
        rw [hnone]
        refine ⟨rfl, pos + i + j, ?_, hmem⟩
        simp only [List.mem_cons, List.not_mem_nil, or_false] at hj
        omega
    · rw [if_neg hi, if_neg hi]
      exact .inl rfl

/-- With a source that can be read in part, the encoder stores the same text, or it comes to a place
that cannot be read, at most two bytes past the end. -/
theorem encodeLines_part (hsrc : ∀ i c, src i = some c → m i = c) (origSize pos : ℕ) :
    encodeLines src origSize pos = encodeLines (Mem.total m) origSize pos ∨
      encodeLines src origSize pos = none ∧ ∃ k < origSize + 2, src k = none := by
  induction hk : origSize - pos using Nat.strongRecOn generalizing pos with
  | ind k ih =>
    rw [encodeLines, encodeLines]
    by_cases hpos : pos < origSize
    · rw [if_pos hpos, if_pos hpos]
      simp only []
      set n := min (origSize - pos) lineDataLengthMax with hn
      have hn0 : 0 < n := by
        rw [hn, lineDataLengthMax]
        omega
      have hle : n ≤ origSize - pos := Nat.min_le_left _ _
      rcases encodeLine_part hsrc pos n 0 with heq | ⟨hnone, j, hj, hmem⟩
      · rw [heq]
        rcases ih (origSize - (pos + n)) (by omega) (pos + n) rfl with hrest | ⟨hrest, hmem⟩
        · rw [hrest]
          exact .inl rfl
        · right
          rw [hrest]
          refine ⟨?_, hmem⟩
          rcases encodeLine (Mem.total m) pos n 0 <;> rfl
      · right
        rw [hnone]
        exact ⟨rfl, j, by omega, hmem⟩
    · rw [if_neg hpos, if_neg hpos]
      exact .inl rfl

end Part

section RoundTrip

/-- A text in memory, and what follows it there. -/
def Mem.followed (text : List UInt8) (after : ℕ → UInt8) : Mem := fun i =>
  if i < text.length then text[i]? else some (after i)

theorem Sees.followed (text : List UInt8) (after : ℕ → UInt8) :
    Sees (Mem.followed text after) 0 text := by
  intro i hi
  rw [Nat.zero_add, Mem.followed, if_pos hi]

theorem decode_encode (m after : ℕ → UInt8) (n : UInt32) : ∃ text,
    ispUuEncode (Mem.total m) n = some (toInt text.length, text)
      ∧ text.length = textLength n.toNat
      ∧ (text.length < 2 ^ 32 →
        ispUuDecode (Mem.followed text after) n.toNat (toUnsigned (toInt text.length))
          = some (toInt n.toNat, slice m 0 n.toNat)) := by
  obtain ⟨ls, h1, -, h3, h4⟩ := ispUuEncode_total m n
  refine ⟨textOf ls, h1, h4, fun hlen => ?_⟩
  rw [toUnsigned_toInt, ispUuDecode_textOf ls (.followed _ _) (by simp [Mem.followed]) hlen
    (by rw [h3, slice_length]), h3, slice_length]

/-- Decoding undoes encoding: the bytes come back, and the size returned is theirs, as the `int`
the function returns. -/
theorem ispUuDecode_ispUuEncode (m after : ℕ → UInt8) (n : UInt32) {len : ℤ} {text : List UInt8}
    (henc : ispUuEncode (Mem.total m) n = some (len, text)) (hfit : text.length < 2 ^ 32) :
    ispUuDecode (Mem.followed text after) n.toNat (toUnsigned len)
        = some (toInt n.toNat, slice m 0 n.toNat)
      ∧ (n.toNat < 2 ^ 31 → toInt n.toNat = n.toNat) := by
  obtain ⟨text', h1, -, h2⟩ := decode_encode m after n
  rw [h1] at henc
  cases henc
  exact ⟨h2 hfit, toInt_of_lt⟩

theorem ispUuDecode_ispUuEncode_four :
    ispUuDecode (Mem.followed [36, 33, 80, 33, 34, 33, 80, 96, 39, 13, 10] fun _ => 49)
        (4 : UInt32).toNat (toUnsigned 11)
      = some (toInt (4 : UInt32).toNat,
          slice (fun i => if i % 3 = 1 then 0 else if i = 2 then 66 else 7) 0 (4 : UInt32).toNat)
      ∧ ((4 : UInt32).toNat < 2 ^ 31 → toInt (4 : UInt32).toNat = (4 : UInt32).toNat) :=
  ispUuDecode_ispUuEncode _ _ 4 (by decide +kernel) (by decide)

/-- At 2^31 bytes the `int` returned is negative, though the text is short enough. -/
theorem ispUuDecode_ispUuEncode_negative : ∃ text,
    ispUuEncode (Mem.total fun _ => 0) 2147483648 = some (toInt text.length, text)
      ∧ text.length < 2 ^ 32
      ∧ (∃ out, ispUuDecode (Mem.followed text fun _ => 0) 2147483648
          (toUnsigned (toInt text.length)) = some (-2147483648, out))
      ∧ ¬ ∃ out, ispUuDecode (Mem.followed text fun _ => 0) 2147483648
          (toUnsigned (toInt text.length)) = some (2147483648, out) := by
  obtain ⟨text, h1, h2, h3⟩ := decode_encode (fun _ => 0) (fun _ => 0) 2147483648
  have hlen : text.length < 2 ^ 32 := by rw [h2]; decide
  have hn : (2147483648 : UInt32).toNat = 2147483648 := rfl
  rw [hn, show toInt 2147483648 = -2147483648 by decide] at h3
  refine ⟨text, h1, hlen, ⟨_, h3 hlen⟩, ?_⟩
  rintro ⟨out, hout⟩
  rw [h3 hlen] at hout
  cases hout

end RoundTrip

section Foreign

/-- The text of lines some encoder wrote, and what it stands for. -/
def writtenText (ws : List WrittenLine) : List UInt8 := ws.flatMap WrittenLine.text

def writtenData (ws : List WrittenLine) : List UInt8 := ws.flatMap WrittenLine.data

theorem textOf_line (ws : List WrittenLine) : textOf (ws.map WrittenLine.line) = writtenText ws := by
  rw [textOf, writtenText, List.flatMap_map]
  rfl

theorem bytesOf_line (ws : List WrittenLine) :
    bytesOf (ws.map WrittenLine.line) = writtenData ws := by
  rw [bytesOf, writtenData, List.flatMap_map]
  simp only [WrittenLine.line_bytes]

/-- The decoder takes any text an encoder may write: it stores the data, and returns how much that is
as an `int`. -/
theorem ispUuDecode_writtenText (ws : List WrittenLine) (after : ℕ → UInt8) {room : ℕ}
    (hlen : (writtenText ws).length < 2 ^ 32) (hroom : (writtenData ws).length ≤ room) :
    ispUuDecode (Mem.followed (writtenText ws) after) room (UInt32.ofNat (writtenText ws).length)
        = some (toInt (writtenData ws).length, writtenData ws)
      ∧ ((writtenData ws).length < 2 ^ 31 →
        toInt (writtenData ws).length = (writtenData ws).length) := by
  refine ⟨?_, toInt_of_lt⟩
  rw [← textOf_line] at hlen ⊢
  rw [← bytesOf_line] at hroom ⊢
  refine ispUuDecode_textOf _ (.followed _ _) ?_ hlen hroom
  rw [Mem.followed, if_neg (lt_irrefl _)]
  rfl

/-- A line of one byte with a blank for a zero and anything in what is unused, and a line without an
end. -/
def mixedLines : List WrittenLine :=
  [⟨[0], [32, 47, 200, 7], [10], by decide, by decide,
      .one 200 7 (.inl rfl) (u := 15) (by decide) (.inl rfl), by simp⟩,
    ⟨[0, 0, 0], [96, 32, 96, 96], [], by decide, by decide,
      .group (.inr ⟨rfl, rfl⟩) (.inl rfl) (.inr ⟨rfl, rfl⟩) (.inr ⟨rfl, rfl⟩) .nil, by simp⟩]

theorem ispUuDecode_mixedLines : ispUuDecode (Mem.followed (writtenText mixedLines) fun _ => 10) 4
      (UInt32.ofNat (writtenText mixedLines).length)
        = some (toInt (writtenData mixedLines).length, writtenData mixedLines)
      ∧ ((writtenData mixedLines).length < 2 ^ 31 →
        toInt (writtenData mixedLines).length = (writtenData mixedLines).length) :=
  ispUuDecode_writtenText mixedLines _ (by decide) (by decide)

def zeroLine : WrittenLine where
  data := List.replicate 63 0
  chars := List.replicate 84 96
  ending := []
  data_pos := by decide
  data_le := by decide
  written := by
    have hgroup : ∀ n, Written (List.replicate (3 * n) 0) (List.replicate (4 * n) 96) := by
      intro n
      induction n with
      | zero => exact .nil
      | succ n ih =>
        exact .group (.inr ⟨rfl, rfl⟩) (.inr ⟨rfl, rfl⟩) (.inr ⟨rfl, rfl⟩) (.inr ⟨rfl, rfl⟩) ih
    exact hgroup 21
  ending_lt := by simp

/-- With enough lines the `int` returned is negative, though the text is short enough. -/
theorem ispUuDecode_writtenText_negative :
    (writtenText (List.replicate 34087043 zeroLine)).length = 2897398655 ∧
      (writtenData (List.replicate 34087043 zeroLine)).length = 2147483709 ∧
      (∃ out, ispUuDecode (Mem.followed (writtenText (List.replicate 34087043 zeroLine)) fun _ => 0)
        2147483709 2897398655 = some (-2147483587, out)) ∧
      ¬ ∃ out, ispUuDecode (Mem.followed (writtenText (List.replicate 34087043 zeroLine)) fun _ => 0)
        2147483709 2897398655 = some (2147483709, out) := by
  set ws := List.replicate 34087043 zeroLine with hws
  have htext : (writtenText ws).length = 2897398655 := by
    rw [writtenText, List.length_flatMap, hws, List.map_replicate, List.sum_replicate_nat]
    rfl
  have hdata : (writtenData ws).length = 2147483709 := by
    rw [writtenData, List.length_flatMap, hws, List.map_replicate, List.sum_replicate_nat]
    rfl
  have hrun := (ispUuDecode_writtenText ws (fun _ => 0) (by omega) hdata.le).1
  rw [htext, hdata, show toInt 2147483709 = -2147483587 by decide] at hrun
  refine ⟨htext, hdata, ⟨_, hrun⟩, ?_⟩
  rintro ⟨out, hout⟩
  rw [show UInt32.ofNat 2897398655 = 2897398655 from rfl] at hrun
  rw [hrun] at hout
  cases hout

end Foreign

end LpcTools
