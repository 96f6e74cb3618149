import Mathlib.Tactic.Common
import Mathlib.Tactic.IntervalCases

/-!
# The uuencoded text format

A line is a length character, four characters for each started group of three bytes, and a line
end. A character stands for six bits, its distance from the blank, so the blank and the
back-quote both stand for zero. What the unused bits and characters of a last group hold is free.
`Standard` lines are full but for the last one, and end in CR LF.
-/

namespace Uuencode

/-- The six bits a character stands for. -/
def sextet (c : UInt8) : ℕ := ((c - 32) &&& 0x3F).toNat

/-- The 24 bits four characters stand for. -/
def triplet (a b c d : UInt8) : ℕ :=
  sextet a <<< 18 ||| sextet b <<< 12 ||| sextet c <<< 6 ||| sextet d

/-- The three bytes of 24 bits. -/
def tripletBytes (t : ℕ) : List UInt8 :=
  [UInt8.ofNat (t >>> 16), UInt8.ofNat (t >>> 8), UInt8.ofNat t]

/-- The bytes a run of characters stands for. -/
def groupBytes : List UInt8 → List UInt8
  | a :: b :: c :: d :: rest => tripletBytes (triplet a b c d) ++ groupBytes rest
  | _ => []

/-- A line of uuencoded text. -/
structure Line where
  size : ℕ
  chars : List UInt8
  ending : List UInt8
  size_pos : 0 < size
  size_le : size ≤ 63
  chars_length : chars.length = 4 * ((size + 2) / 3)
  ending_lt : ∀ c ∈ ending, c < 32

namespace Line

/-- The data bytes of the line. -/
def bytes (l : Line) : List UInt8 := (groupBytes l.chars).take l.size

def text (l : Line) : List UInt8 := UInt8.ofNat (l.size + 32) :: (l.chars ++ l.ending)

end Line

def textOf (ls : List Line) : List UInt8 := ls.flatMap Line.text

def bytesOf (ls : List Line) : List UInt8 := ls.flatMap Line.bytes

def crlf : List UInt8 := [13, 10]

theorem crlf_lt : ∀ c ∈ crlf, c < 32 := by simp [crlf]

/-- Lines as a sender cuts them: full but for the last one, each ended by CR LF. -/
def Standard : List Line → Prop
  | [] => True
  | [l] => l.size ≤ 45 ∧ l.ending = crlf
  | l :: ls => (l.size = 45 ∧ l.ending = crlf) ∧ Standard ls

/-- The length of the text of `n` bytes in standard lines. -/
def textLength (n : ℕ) : ℕ := 4 * ((n + 2) / 3) + 3 * ((n + 44) / 45)

section Bits

theorem sextet_lt (c : UInt8) : sextet c < 64 := by
  rw [sextet, UInt8.toNat_and]
  exact Nat.and_lt_two_pow _ (show (0x3F : UInt8).toNat < 2 ^ 6 by decide)

theorem sextet_ofNat : ∀ v < 64, sextet (UInt8.ofNat (v + 32)) = v := by decide

theorem sextet_zero : sextet 96 = 0 := by decide

theorem shiftLeft_or_shiftLeft (a : ℕ) {b : ℕ} (k : ℕ) (hb : b < 64) :
    a <<< (k + 6) ||| b <<< k = (a * 64 + b) <<< k := by
  rw [Nat.add_comm k, Nat.shiftLeft_add, ← Nat.shiftLeft_or_distrib,
    ← Nat.shiftLeft_add_eq_or_of_lt hb, Nat.shiftLeft_eq a]

theorem triplet_eq (a b c d : UInt8) :
    triplet a b c d = ((sextet a * 64 + sextet b) * 64 + sextet c) * 64 + sextet d := by
  rw [triplet, shiftLeft_or_shiftLeft _ 12 (sextet_lt b), shiftLeft_or_shiftLeft _ 6 (sextet_lt c)]
  exact shiftLeft_or_shiftLeft _ 0 (sextet_lt d)

theorem tripletBytes_eq (x y z : UInt8) :
    tripletBytes ((x.toNat * 256 + y.toNat) * 256 + z.toNat) = [x, y, z] := by
  have hx := x.toNat_lt
  have hy := y.toNat_lt
  have hz := z.toNat_lt
  simp only [tripletBytes, Nat.shiftRight_eq_div_pow, List.cons.injEq, and_true]
  refine ⟨?_, ?_, ?_⟩ <;> apply UInt8.toNat_inj.1 <;> rw [UInt8.toNat_ofNat'] <;> omega

/-- Four characters for the four sextets of three bytes stand for the three bytes. -/
theorem tripletBytes_triplet {a b c d x y z : UInt8}
    (ha : sextet a = x.toNat / 4) (hb : sextet b = x.toNat % 4 * 16 + y.toNat / 16)
    (hc : sextet c = y.toNat % 16 * 4 + z.toNat / 64) (hd : sextet d = z.toNat % 64) :
    tripletBytes (triplet a b c d) = [x, y, z] := by
  rw [← tripletBytes_eq x y z, triplet_eq, ha, hb, hc, hd]
  congr 1
  omega

end Bits

theorem tripletBytes_length (t : ℕ) : (tripletBytes t).length = 3 := rfl

theorem groupBytes_length : ∀ (n : ℕ) {c : List UInt8}, c.length = 4 * n →
    (groupBytes c).length = 3 * n
  | 0, [], _ => rfl
  | n + 1, a :: b :: c :: d :: cs, h => by
    have := groupBytes_length n (c := cs) (by simp at h; omega)
    rw [groupBytes, List.length_append, this, tripletBytes_length]
    omega
  | n + 1, [], h | n + 1, [_], h | n + 1, [_, _], h | n + 1, [_, _, _], h => by
    simp only [List.length_cons, List.length_nil] at h
    omega

namespace Line

variable (l : Line)

@[simp] theorem bytes_length : l.bytes.length = l.size := by
  rw [bytes, List.length_take, groupBytes_length _ l.chars_length]
  omega

theorem text_length : l.text.length = 1 + 4 * ((l.size + 2) / 3) + l.ending.length := by
  rw [text, List.length_cons, List.length_append, l.chars_length]
  omega

end Line

@[simp] theorem textOf_cons (l : Line) (ls : List Line) : textOf (l :: ls) = l.text ++ textOf ls :=
  rfl

@[simp] theorem bytesOf_cons (l : Line) (ls : List Line) :
    bytesOf (l :: ls) = l.bytes ++ bytesOf ls := rfl

theorem bytesOf_length (ls : List Line) : (bytesOf ls).length = (ls.map Line.size).sum := by
  induction ls with
  | nil => rfl
  | cons l ls ih => simp [ih]

namespace Standard

theorem tail {l : Line} {ls : List Line} (h : Standard (l :: ls)) : Standard ls := by
  rcases ls with _ | ⟨l', ls⟩
  · trivial
  · exact h.2

theorem head {l : Line} {ls : List Line} (h : Standard (l :: ls)) :
    l.size ≤ 45 ∧ l.ending = crlf ∧ (ls ≠ [] → l.size = 45) := by
  rcases ls with _ | ⟨l', ls⟩
  · exact ⟨h.1, h.2, fun h' => absurd rfl h'⟩
  · exact ⟨h.1.1.le, h.1.2, fun _ => h.1.1⟩

theorem cons {l : Line} {ls : List Line} (hs : l.size ≤ 45) (he : l.ending = crlf)
    (hfull : ls ≠ [] → l.size = 45) (h : Standard ls) : Standard (l :: ls) := by
  rcases ls with _ | ⟨l', ls⟩
  · exact ⟨hs, he⟩
  · exact ⟨⟨hfull (by simp), he⟩, h⟩

/-- How long standard text is depends only on how many bytes it carries. -/
theorem textOf_length : ∀ {ls : List Line}, Standard ls →
    (textOf ls).length = textLength (bytesOf ls).length
  | [], _ => rfl
  | l :: ls, h => by
    have ih := textOf_length h.tail
    obtain ⟨hs, he, hfull⟩ := h.head
    have hpos := l.size_pos
    rw [textOf_cons, bytesOf_cons, List.length_append, List.length_append, ih, l.text_length,
      l.bytes_length, he]
    rcases ls with _ | ⟨l', ls⟩
    · simp only [bytesOf, List.flatMap_nil, List.length_nil, textLength, crlf, List.length_cons]
      omega
    · rw [hfull (by simp)]
      simp only [textLength, crlf, List.length_cons, List.length_nil]
      omega

end Standard

section Writing

/-- The character written for six bits. -/
def charOf (v : ℕ) : UInt8 := if v = 0 then 96 else UInt8.ofNat (v + 32)

/-- The four characters written for three bytes. -/
def groupChars (x y z : UInt8) : List UInt8 :=
  [charOf (x.toNat / 4), charOf (x.toNat % 4 * 16 + y.toNat / 16),
    charOf (y.toNat % 16 * 4 + z.toNat / 64), charOf (z.toNat % 64)]

/-- The characters written for the data of a line, where missing bytes of the last group are nul. -/
def charsOf : List UInt8 → List UInt8
  | [] => []
  | [x] => groupChars x 0 0
  | [x, y] => groupChars x y 0
  | x :: y :: z :: rest => groupChars x y z ++ charsOf rest

def lineOf (data : List UInt8) : List UInt8 :=
  UInt8.ofNat (data.length + 32) :: (charsOf data ++ crlf)

/-- The standard text of some data, in lines of 45 bytes but for the last one. -/
def standardText (data : List UInt8) : List UInt8 :=
  if data = [] then [] else lineOf (data.take 45) ++ standardText (data.drop 45)
termination_by data.length
decreasing_by
  have := List.length_pos_iff.2 ‹_›
  simp only [List.length_drop]
  omega

theorem charOf_bounds : ∀ v < 64, 33 ≤ charOf v ∧ charOf v ≤ 96 := by decide

theorem charsOf_length : ∀ data : List UInt8, (charsOf data).length = 4 * ((data.length + 2) / 3)
  | [] => rfl
  | [_] => by simp [charsOf, groupChars]
  | [_, _] => by simp [charsOf, groupChars]
  | x :: y :: z :: rest => by
    rw [charsOf, List.length_append, charsOf_length rest]
    simp only [groupChars, List.length_cons, List.length_nil]
    omega

theorem groupChars_bounds {x y z c : UInt8} (hc : c ∈ groupChars x y z) : 33 ≤ c ∧ c ≤ 96 := by
  have hx := x.toNat_lt
  have hy := y.toNat_lt
  have hz := z.toNat_lt
  simp only [groupChars, List.mem_cons, List.not_mem_nil, or_false] at hc
  rcases hc with rfl | rfl | rfl | rfl <;> exact charOf_bounds _ (by omega)

theorem charsOf_bounds : ∀ (data : List UInt8), ∀ c ∈ charsOf data, 33 ≤ c ∧ c ≤ 96
  | [], c, hc => by simp [charsOf] at hc
  | [_], _, hc => groupChars_bounds hc
  | [_, _], _, hc => groupChars_bounds hc
  | x :: y :: z :: rest, c, hc => by
    rw [charsOf, List.mem_append] at hc
    exact hc.elim groupChars_bounds (charsOf_bounds rest c)

theorem standardText_length (data : List UInt8) :
    (standardText data).length = textLength data.length := by
  induction hn : data.length using Nat.strongRecOn generalizing data with
  | ind n ih =>
    subst hn
    rw [standardText]
    split_ifs with h
    · rw [h]
      rfl
    · have hpos := List.length_pos_iff.2 h
      rw [List.length_append, ih _ (by rw [List.length_drop]; omega) _ rfl, lineOf,
        List.length_cons, List.length_append, charsOf_length, List.length_take, List.length_drop]
      simp only [textLength, crlf, List.length_cons, List.length_nil]
      omega

end Writing

section Spelling

/-- The character is a spelling of six bits, with zero as a blank or as a back-quote. -/
def Spells (c : UInt8) (v : ℕ) : Prop := c = UInt8.ofNat (v + 32) ∨ v = 0 ∧ c = 96

/-- The characters are a spelling of the data of a line. The bits (`u`) and characters of the last
group that stand for no data are arbitrary. -/
inductive Written : List UInt8 → List UInt8 → Prop
  | nil : Written [] []
  | one {x a b : UInt8} {u : ℕ} (c d : UInt8) (ha : Spells a (x.toNat / 4)) (hu : u < 16)
      (hb : Spells b (x.toNat % 4 * 16 + u)) : Written [x] [a, b, c, d]
  | two {x y a b c : UInt8} {u : ℕ} (d : UInt8) (ha : Spells a (x.toNat / 4))
      (hb : Spells b (x.toNat % 4 * 16 + y.toNat / 16)) (hu : u < 4)
      (hc : Spells c (y.toNat % 16 * 4 + u)) : Written [x, y] [a, b, c, d]
  | group {x y z a b c d : UInt8} {data chars : List UInt8} (ha : Spells a (x.toNat / 4))
      (hb : Spells b (x.toNat % 4 * 16 + y.toNat / 16))
      (hc : Spells c (y.toNat % 16 * 4 + z.toNat / 64)) (hd : Spells d (z.toNat % 64))
      (hrest : Written data chars) : Written (x :: y :: z :: data) (a :: b :: c :: d :: chars)

/-- A line some encoder writes for its data. -/
structure WrittenLine where
  data : List UInt8
  chars : List UInt8
  ending : List UInt8
  data_pos : 0 < data.length
  data_le : data.length ≤ 63
  written : Written data chars
  ending_lt : ∀ c ∈ ending, c < 32

def WrittenLine.text (w : WrittenLine) : List UInt8 :=
  UInt8.ofNat (w.data.length + 32) :: (w.chars ++ w.ending)

theorem Spells.sextet {c : UInt8} {v : ℕ} (h : Spells c v) (hv : v < 64) : sextet c = v := by
  rcases h with rfl | ⟨rfl, rfl⟩
  · exact sextet_ofNat v hv
  · exact sextet_zero

theorem Written.chars_length {data chars : List UInt8} (h : Written data chars) :
    chars.length = 4 * ((data.length + 2) / 3) := by
  induction h with
  | nil => rfl
  | one => simp
  | two => simp
  | group _ _ _ _ _ ih =>
    simp only [List.length_cons, ih]
    omega

/-- The characters stand for the data they are a spelling of. -/
theorem Written.groupBytes_take {data chars : List UInt8} (h : Written data chars) :
    (groupBytes chars).take data.length = data := by
  induction h with
  | nil => rfl
  | @one x a b u c d ha hu hb =>
    have hx := x.toNat_lt
    have hc := sextet_lt c
    have hd := sextet_lt d
    have hy : (UInt8.ofNat (u * 16 + sextet c / 4)).toNat = u * 16 + sextet c / 4 := by
      rw [UInt8.toNat_ofNat']
      omega
    have hz : (UInt8.ofNat (sextet c % 4 * 64 + sextet d)).toNat = sextet c % 4 * 64 + sextet d := by
      rw [UInt8.toNat_ofNat']
      omega
    have hgroup : tripletBytes (triplet a b c d) =
        [x, UInt8.ofNat (u * 16 + sextet c / 4), UInt8.ofNat (sextet c % 4 * 64 + sextet d)] :=
      tripletBytes_triplet (ha.sextet (by omega)) ((hb.sextet (by omega)).trans (by rw [hy]; omega))
        (by rw [hy, hz]; omega) (by rw [hz]; omega)
    rw [groupBytes, hgroup]
    rfl
  | @two x y a b c u d ha hb hu hc =>
    have hx := x.toNat_lt
    have hy := y.toNat_lt
    have hd := sextet_lt d
    have hz : (UInt8.ofNat (u * 64 + sextet d)).toNat = u * 64 + sextet d := by
      rw [UInt8.toNat_ofNat']
      omega
    have hgroup : tripletBytes (triplet a b c d) = [x, y, UInt8.ofNat (u * 64 + sextet d)] :=
      tripletBytes_triplet (ha.sextet (by omega)) (hb.sextet (by omega))
        ((hc.sextet (by omega)).trans (by rw [hz]; omega)) (by rw [hz]; omega)
    rw [groupBytes, hgroup]
    rfl
  | @group x y z a b c d data chars ha hb hc hd hrest ih =>
    have hx := x.toNat_lt
    have hy := y.toNat_lt
    have hz := z.toNat_lt
    rw [groupBytes, tripletBytes_triplet (ha.sextet (by omega)) (hb.sextet (by omega))
      (hc.sextet (by omega)) (hd.sextet (by omega))]
    simp only [List.length_cons, List.cons_append, List.nil_append, List.take_succ_cons, ih]

/-- The line as the format has it. -/
def WrittenLine.line (w : WrittenLine) : Line :=
  ⟨w.data.length, w.chars, w.ending, w.data_pos, w.data_le, w.written.chars_length, w.ending_lt⟩

@[simp] theorem WrittenLine.line_bytes (w : WrittenLine) : w.line.bytes = w.data :=
  w.written.groupBytes_take

end Spelling

end Uuencode
