import Mathlib.Algebra.Group.Int.Defs
import Mathlib.Algebra.Group.Nat.Defs
import Mathlib.Tactic.Common
import Mathlib.Data.Nat.Notation
import Mathlib.Data.Int.Notation

/-!
# C's integers and memory

`unsigned int` is `UInt32`, `int` is `ℤ` with the conversions written out, and a `char` is a byte
read as a signed number. An object is the list of its bytes. What a pointer sees is a `Mem`: the
byte at each offset from it, or `none` outside any object, where an access faults.
-/

namespace LpcTools

/-- What a pointer sees: the byte at each offset from it, `none` where no object is. -/
abbrev Mem := ℕ → Option UInt8

/-- The bytes of an object from its start, nothing past its end. -/
def Mem.of (l : List UInt8) : Mem := fun i => l[i]?

/-- Memory that can be read everywhere. -/
def Mem.total (m : ℕ → UInt8) : Mem := fun i => some (m i)

def Mem.drop (m : Mem) (k : ℕ) : Mem := fun i => m (k + i)

/-- An unsigned value stored in an `int`. -/
def toInt (n : ℕ) : ℤ :=
  if n % 2 ^ 32 < 2 ^ 31 then ((n % 2 ^ 32 : ℕ) : ℤ) else ((n % 2 ^ 32 : ℕ) : ℤ) - 2 ^ 32

/-- An `int` stored in an `unsigned int`. -/
def toUnsigned (z : ℤ) : UInt32 := UInt32.ofNat (z % 2 ^ 32).toNat

/-- The value of a `char`, which is signed. -/
def charVal (c : UInt8) : ℤ := if c < 128 then (c.toNat : ℤ) else (c.toNat : ℤ) - 256

/-- `new` stored in `l` from offset `k` on. -/
def overlay {α : Type} (l : List α) (k : ℕ) (new : List α) : List α :=
  l.take k ++ new ++ l.drop (k + new.length)

theorem toInt_of_lt {n : ℕ} (h : n < 2 ^ 31) : toInt n = n := by
  rw [toInt, if_pos (by omega)]
  omega

theorem toInt_of_le {n : ℕ} (h : 2 ^ 31 ≤ n) (h' : n < 2 ^ 32) : toInt n = n - 2 ^ 32 := by
  rw [toInt, if_neg (by omega)]
  omega

theorem toInt_range (n : ℕ) : -2 ^ 31 ≤ toInt n ∧ toInt n < 2 ^ 31 := by
  rw [toInt]
  split <;> omega

theorem toInt_le (n : ℕ) : toInt n ≤ n := by
  rw [toInt]
  split <;> omega

/-- A count that is not returned as a negative number is returned as it is. -/
theorem toInt_of_nonneg {n : ℕ} (h : n < 2 ^ 32) (h0 : 0 ≤ toInt n) : toInt n = n := by
  rcases Nat.lt_or_ge n (2 ^ 31) with hlt | hge
  · exact toInt_of_lt hlt
  · rw [toInt_of_le hge h] at h0
    omega

theorem toUnsigned_natCast (n : ℕ) : toUnsigned n = UInt32.ofNat n := by
  apply UInt32.toNat_inj.1
  rw [toUnsigned, UInt32.toNat_ofNat', UInt32.toNat_ofNat']
  omega

theorem toUnsigned_toInt (n : ℕ) : toUnsigned (toInt n) = UInt32.ofNat n := by
  apply UInt32.toNat_inj.1
  rw [toUnsigned, UInt32.toNat_ofNat', UInt32.toNat_ofNat', toInt]
  split <;> omega

section Overlay

variable {α : Type} {l new : List α} {k : ℕ}

theorem overlay_length (h : k + new.length ≤ l.length) : (overlay l k new).length = l.length := by
  simp only [overlay, List.length_append, List.length_take, List.length_drop]
  omega

theorem take_overlay (h : k ≤ l.length) : (overlay l k new).take k = l.take k := by
  rw [overlay, List.append_assoc, List.take_append_of_le_length (by simp [h]), List.take_take,
    Nat.min_self]

theorem take_add_overlay (h : k ≤ l.length) :
    (overlay l k new).take (k + new.length) = l.take k ++ new := by
  rw [overlay, List.take_left']
  simp [h]

@[simp] theorem overlay_nil : overlay l k [] = l := by
  simp [overlay]

theorem overlay_zero (new : List α) : overlay l 0 new = new ++ l.drop new.length := by
  rw [overlay, List.take_zero, List.nil_append, Nat.zero_add]

theorem overlay_append (a b : List α) :
    overlay (overlay l 0 a) a.length b = overlay l 0 (a ++ b) := by
  rw [overlay_zero, overlay_zero, overlay, List.take_left, List.append_assoc, ← List.drop_drop,
    List.drop_left, List.length_append, List.drop_drop, List.append_assoc]

/-- A text, and another with more behind it stored at its end. -/
theorem take_overlay_overlay (a b c : List α) :
    (overlay (overlay l 0 a) a.length (b ++ c)).take (a.length + b.length) = a ++ b := by
  have hfirst : (overlay l 0 a).take a.length = a := by simp [overlay]
  rw [overlay, hfirst, List.append_assoc, List.append_assoc, ← List.append_assoc,
    ← List.length_append, List.take_left]

end Overlay

end LpcTools
