import Mathlib.Data.List.TakeWhile
import LpcTools.Lib.Decimal

/-!
# The number a text starts with

`leading s` is the number in decimal that `s` starts with after white space, with its sign, and
`numberEnd s` is what comes behind its digits. `strtoul` in base 10 gives that number as an `unsigned
long`, and nothing where the text ends with it (`strtoul_ten`).
-/

namespace Decimal

def isDigit (c : UInt8) : Bool := (digitIn 10 c).isSome

/-- The value of digits. -/
def numeral (ds : List UInt8) : ℕ := ds.foldl (fun acc c => acc * 10 + (digitIn 10 c).getD 0) 0

/-- Whether there is a minus sign, and what is behind the sign. -/
def splitSign : List UInt8 → Bool × List UInt8
  | [] => (false, [])
  | c :: cs =>
    if c = '-'.toUInt8 then (true, cs) else if c = '+'.toUInt8 then (false, cs)
    else (false, c :: cs)

/-- What is behind the white space and the sign, and whether that is a minus. -/
def unsigned (s : List UInt8) : Bool × List UInt8 := splitSign (s.dropWhile isSpace)

def numberDigits (s : List UInt8) : List UInt8 := (unsigned s).2.takeWhile isDigit

def numberEnd (s : List UInt8) : List UInt8 := (unsigned s).2.dropWhile isDigit

/-- The number that `s` starts with after white space. -/
def leading (s : List UInt8) : Option ℤ :=
  if numberDigits s = [] then none
  else some (if (unsigned s).1 then -(numeral (numberDigits s) : ℤ) else numeral (numberDigits s))

theorem skipSpaces_eq (s : List UInt8) :
    skipSpaces s = if s.dropWhile isSpace = [] then none else some (s.dropWhile isSpace) := by
  induction s with
  | nil => rfl
  | cons c s ih =>
    rw [skipSpaces, List.dropWhile_cons]
    by_cases hc : isSpace c = true
    · rw [if_pos hc, if_pos hc]
      exact ih
    · rw [if_neg hc, if_neg hc, if_neg (List.cons_ne_nil c s)]

theorem takeSign_eq (s : List UInt8) : takeSign s = if s = [] then none else some (splitSign s) := by
  rcases s with _ | ⟨c, s⟩
  · rfl
  · rw [if_neg (List.cons_ne_nil c s), takeSign, splitSign]

theorem takePrefix_ten (s : List UInt8) : takePrefix 10 s = if s = [] then none else some (10, s) := by
  rcases s with _ | ⟨c, s⟩
  · rfl
  · simp [takePrefix]

theorem scanDigits_ten (s : List UInt8) (acc : ℕ) : scanDigits 10 acc s =
    if s.dropWhile isDigit = [] then none
    else some ((s.takeWhile isDigit).foldl (fun acc c => acc * 10 + (digitIn 10 c).getD 0) acc,
      s.dropWhile isDigit) := by
  induction s generalizing acc with
  | nil => rfl
  | cons c s ih =>
    rw [scanDigits, List.dropWhile_cons, List.takeWhile_cons, isDigit]
    rcases hc : digitIn 10 c with _ | d
    · simp
    · simp only [Option.isSome_some, if_true, List.foldl_cons, hc, Option.getD_some]
      exact ih _

theorem takeWhile_eq_nil_iff_length (s : List UInt8) :
    (s.dropWhile isDigit).length = s.length ↔ s.takeWhile isDigit = [] := by
  have hlen := congrArg List.length (List.takeWhile_append_dropWhile (p := isDigit) (l := s))
  rw [List.length_append] at hlen
  rw [← List.length_eq_zero_iff]
  omega

/-- What `strtoul` makes of a number. -/
def wrapLong (neg : Bool) (n : ℕ) : ℕ :=
  if ulongMax < n then ulongMax else if neg then (2 ^ 64 - n) % 2 ^ 64 else n

theorem strtoul_ten (s : List UInt8) : strtoul 10 s =
    if numberEnd s = [] then none
    else if numberDigits s = [] then some (0, s)
    else some (wrapLong (unsigned s).1 (numeral (numberDigits s)), numberEnd s) := by
  have hsignEnd (ht : (unsigned s).2 = []) : numberEnd s = [] := by
    rw [numberEnd, ht, List.dropWhile_nil]
  have hspaceEnd (ht : s.dropWhile isSpace = []) : numberEnd s = [] := by
    rw [numberEnd, unsigned, ht]
    rfl
  simp only [strtoul, skipSpaces_eq]
  by_cases hspace : s.dropWhile isSpace = []
  · rw [if_pos hspace, if_pos (hspaceEnd hspace)]
    rfl
  · rw [if_neg hspace]
    simp only [Option.bind_eq_bind, Option.bind_some, takeSign_eq, if_neg hspace]
    change (takePrefix 10 (unsigned s).2).bind _ = _
    rw [takePrefix_ten]
    by_cases hsign : (unsigned s).2 = []
    · rw [if_pos hsign, if_pos (hsignEnd hsign)]
      rfl
    · simp only [if_neg hsign, Option.bind_some, scanDigits_ten]
      change Option.bind (if numberEnd s = [] then none else _) _ = _
      by_cases hlast : numberEnd s = []
      · rw [if_pos hlast, if_pos hlast]
        rfl
      · rw [if_neg hlast, if_neg hlast, Option.bind_some]
        simp only [takeWhile_eq_nil_iff_length]
        change (if numberDigits s = [] then _ else _) = _
        by_cases hnone : numberDigits s = []
        · rw [if_pos hnone, if_pos hnone]
        · rw [if_neg hnone, if_neg hnone]
          simp only [wrapLong]
          change (if ulongMax < numeral (numberDigits s) then some (ulongMax, numberEnd s)
            else if (unsigned s).1 then some ((2 ^ 64 - numeral (numberDigits s)) % 2 ^ 64, numberEnd s)
            else some (numeral (numberDigits s), numberEnd s)) = _
          split_ifs <;> rfl

/-- What `strtoul` makes of a text that goes on behind its number. -/
theorem strtoul_leading {s : List UInt8} (hs : numberEnd s ≠ []) :
    leading s = none ∧ strtoul 10 s = some (0, s) ∨ ∃ (neg : Bool) (n : ℕ),
      leading s = some (if neg then -(n : ℤ) else n) ∧
      strtoul 10 s = some (wrapLong neg n, numberEnd s) := by
  rw [strtoul_ten, if_neg hs]
  by_cases hnone : numberDigits s = []
  · rw [leading, if_pos hnone, if_pos hnone]
    exact .inl ⟨rfl, rfl⟩
  · rw [leading, if_neg hnone, if_neg hnone]
    exact .inr ⟨_, _, rfl, rfl⟩

/-- Digits behind a text that ends with its number are read as more digits of it. -/
theorem numberEnd_digits {s : List UInt8} (hs : numberEnd s = []) {k : ℕ} {d : UInt8}
    (hd : isDigit d = true ∧ isSpace d = false ∧ d ≠ '-'.toUInt8 ∧ d ≠ '+'.toUInt8) :
    numberEnd (s ++ List.replicate k d) = [] := by
  have hdigits (t : List UInt8) (ht : t.dropWhile isDigit = []) :
      (t ++ List.replicate k d).dropWhile isDigit = [] := by
    rw [List.dropWhile_append, ht, List.isEmpty_nil, if_pos rfl, List.dropWhile_eq_nil_iff]
    intro c hc
    rw [List.eq_of_mem_replicate hc]
    exact hd.1
  rw [numberEnd, unsigned] at hs ⊢
  rw [List.dropWhile_append]
  rcases hspace : s.dropWhile isSpace with _ | ⟨c, t⟩
  · rw [List.isEmpty_nil, if_pos rfl]
    rcases k with _ | k
    · rfl
    · rw [List.replicate_succ, List.dropWhile_cons_of_neg (by simp [hd.2.1]), splitSign,
        if_neg hd.2.2.1, if_neg hd.2.2.2, ← List.replicate_succ]
      exact hdigits [] rfl
  · rw [hspace, splitSign] at hs
    rw [List.isEmpty_cons, if_neg Bool.false_ne_true, List.cons_append, splitSign]
    split_ifs at hs ⊢ <;> exact hdigits _ hs

end Decimal
