import Mathlib.Tactic.Common
import Mathlib.Tactic.IntervalCases

/-!
# Numbers in text, as the C library prints and reads them

`decimal n` is what `%u` prints. `strtoul` reads a number off the bytes of an object, from the
place its pointer points at to the end of the object: it skips white space, takes a sign and a
base prefix, and stops at the first byte that is no digit. A number that runs into the end of the
object is a read outside it, and there `strtoul` is `none`.
-/

namespace Decimal

/-- The bytes of a text of ASCII characters. -/
def bytes (cs : List Char) : List UInt8 := cs.map Char.toUInt8

def decimal (n : ℕ) : List UInt8 := bytes (Nat.toDigits 10 n)

/-- `isspace`: the blank, and tab to carriage return. -/
def isSpace (c : UInt8) : Bool := c == ' '.toUInt8 || (9 ≤ c && c ≤ 13)

/-- The value of a digit or a letter. -/
def digitValue (c : UInt8) : Option ℕ :=
  if '0'.toUInt8 ≤ c ∧ c ≤ '9'.toUInt8 then some (c.toNat - '0'.toNat)
  else if 'a'.toUInt8 ≤ c ∧ c ≤ 'z'.toUInt8 then some (c.toNat - 'a'.toNat + 10)
  else if 'A'.toUInt8 ≤ c ∧ c ≤ 'Z'.toUInt8 then some (c.toNat - 'A'.toNat + 10)
  else none

def digitIn (base : ℕ) (c : UInt8) : Option ℕ := (digitValue c).filter (· < base)

def skipSpaces : List UInt8 → Option (List UInt8)
  | [] => none
  | c :: cs => if isSpace c then skipSpaces cs else some (c :: cs)

def takeSign : List UInt8 → Option (Bool × List UInt8)
  | [] => none
  | c :: cs => some <|
    if c = '-'.toUInt8 then (true, cs) else if c = '+'.toUInt8 then (false, cs)
    else (false, c :: cs)

/-- The base the digits are in, and where they start: a base of 0 is told by the prefix, and in
base 16 the prefix may be there. -/
def takePrefix (base : ℕ) : List UInt8 → Option (ℕ × List UInt8)
  | [] => none
  | c :: cs =>
    if c = '0'.toUInt8 ∧ (base = 0 ∨ base = 16) then do
      let x ← cs[0]?
      if x = 'x'.toUInt8 ∨ x = 'X'.toUInt8 then do
        let d ← cs[1]?
        if (digitIn 16 d).isSome then some (16, cs.drop 1)
        else some (if base = 0 then 8 else 16, c :: cs)
      else some (if base = 0 then 8 else 16, c :: cs)
    else some (if base = 0 then 10 else base, c :: cs)

def scanDigits (base : ℕ) : ℕ → List UInt8 → Option (ℕ × List UInt8)
  | _, [] => none
  | acc, c :: cs =>
    match digitIn base c with
    | some d => scanDigits base (acc * base + d) cs
    | none => some (acc, c :: cs)

/-- The largest `unsigned long`. -/
def ulongMax : ℕ := 2 ^ 64 - 1

/-- The value read and the bytes from the end pointer on, `none` where the number is not ended
inside the object. Without a digit the value is 0 and the end pointer has not moved. -/
def strtoul (base : ℕ) (s : List UInt8) : Option (ℕ × List UInt8) := do
  let s₁ ← skipSpaces s
  let (neg, s₂) ← takeSign s₁
  let (b, s₃) ← takePrefix base s₂
  let (v, rest) ← scanDigits b 0 s₃
  if rest.length = s₃.length then some (0, s)
  else if ulongMax < v then some (ulongMax, rest)
  else if neg then some ((2 ^ 64 - v) % 2 ^ 64, rest)
  else some (v, rest)

/-- A byte that ends a number in base 10. -/
def Stops (c : UInt8) : Prop := digitIn 10 c = none

instance (c : UInt8) : Decidable (Stops c) := inferInstanceAs (Decidable (_ = _))

/-- The character of a digit. -/
def digit (d : ℕ) : UInt8 := (Nat.digitChar d).toUInt8

theorem decimal_of_lt {n : ℕ} (h : n < 10) : decimal n = [digit n] := by
  rw [decimal, Nat.toDigits_of_lt_base h]
  rfl

theorem decimal_of_le {n : ℕ} (h : 10 ≤ n) : decimal n = decimal (n / 10) ++ [digit (n % 10)] := by
  rw [decimal, Nat.toDigits_eq_if (by decide), if_neg (by omega), bytes, List.map_append]
  rfl

/-- What holds of the one-digit texts and is kept by one more digit holds of every number. -/
theorem decimal_induction {P : ℕ → List UInt8 → Prop} (small : ∀ d < 10, P d [digit d])
    (more : ∀ n d, d < 10 → P n (decimal n) → P (n * 10 + d) (decimal n ++ [digit d])) (n : ℕ) :
    P n (decimal n) := by
  induction n using Nat.strongRecOn with
  | ind n ih =>
    rcases Nat.lt_or_ge n 10 with h | h
    · rw [decimal_of_lt h]
      exact small n h
    · have := more (n / 10) (n % 10) (Nat.mod_lt _ (by decide)) (ih _ (by omega))
      rwa [← decimal_of_le h, Nat.div_add_mod' n 10] at this

theorem decimal_ne_nil (n : ℕ) : decimal n ≠ [] :=
  decimal_induction (P := fun _ l => l ≠ []) (fun _ _ => by simp) (fun _ _ _ _ => by simp) n

theorem decimal_length_pos (n : ℕ) : 0 < (decimal n).length :=
  List.length_pos_iff.2 (decimal_ne_nil n)

theorem decimal_length_le : ∀ (k n : ℕ), n < 10 ^ (k + 1) → (decimal n).length ≤ k + 1
  | 0, n, h => by rw [decimal_of_lt (by omega)]; rfl
  | k + 1, n, h => by
    rcases Nat.lt_or_ge n 10 with h' | h'
    · rw [decimal_of_lt h']
      simp
    · have := decimal_length_le k (n / 10) (by rw [Nat.pow_succ] at h; omega)
      rw [decimal_of_le h', List.length_append, List.length_singleton]
      omega

theorem lt_pow_decimal_length (n : ℕ) : n < 10 ^ (decimal n).length := by
  refine decimal_induction (P := fun n l => n < 10 ^ l.length) (fun d hd => hd) ?_ n
  intro n d hd ih
  rw [List.length_append, List.length_singleton, Nat.pow_succ]
  omega

theorem digitIn_digit : ∀ d < 10, digitIn 10 (digit d) = some d := by decide

/-- The number text starts with a digit, and every byte of it is one. -/
theorem decimal_digits (n : ℕ) : ∃ d ds, (∀ e ∈ d :: ds, e < 10)
    ∧ decimal n = (d :: ds).map digit ∧ (d :: ds).foldl (· * 10 + ·) 0 = n := by
  refine decimal_induction (P := fun n l => ∃ d ds, (∀ e ∈ d :: ds, e < 10)
    ∧ l = (d :: ds).map digit ∧ (d :: ds).foldl (· * 10 + ·) 0 = n) ?_ ?_ n
  · intro d hd
    exact ⟨d, [], by simpa using hd, rfl, by simp⟩
  · rintro n e he ⟨d, ds, hlt, hl, hv⟩
    refine ⟨d, ds ++ [e], ?_, ?_, ?_⟩
    · intro x hx
      rw [← List.cons_append, List.mem_append, List.mem_singleton] at hx
      rcases hx with hx | rfl
      · exact hlt x hx
      · exact he
    · rw [hl, ← List.cons_append, List.map_append]
      rfl
    · rw [← List.cons_append, List.foldl_append, hv]
      rfl

theorem scanDigits_digits : ∀ {ds : List ℕ} (acc : ℕ) {c : UInt8} (r : List UInt8),
    (∀ e ∈ ds, e < 10) → Stops c →
    scanDigits 10 acc (ds.map digit ++ c :: r) = some (ds.foldl (· * 10 + ·) acc, c :: r)
  | [], acc, c, r, _, hc => by
    rw [Stops] at hc
    simp [scanDigits, hc]
  | d :: ds, acc, c, r, h, hc => by
    have ih := scanDigits_digits (acc * 10 + d) r (fun e he => h e (List.mem_cons_of_mem _ he)) hc
    simp only [List.map_cons, List.cons_append, scanDigits, digitIn_digit d (h d List.mem_cons_self),
      List.foldl_cons, ih]

theorem skipSpaces_append {ws : List UInt8} (h : ∀ c ∈ ws, isSpace c = true) (r : List UInt8) :
    skipSpaces (ws ++ r) = skipSpaces r := by
  induction ws with
  | nil => rfl
  | cons c ws ih =>
    simp only [List.cons_append, skipSpaces, h c List.mem_cons_self, if_true]
    exact ih fun c' hc' => h c' (List.mem_cons_of_mem _ hc')

/-- `strtoul` reads back what `%u` prints, after any white space, up to the byte that ends it. -/
theorem strtoul_decimal {ws : List UInt8} (hws : ∀ c ∈ ws, isSpace c = true) {n : ℕ}
    (hn : n ≤ ulongMax) {c : UInt8} (hc : Stops c) (r : List UInt8) :
    strtoul 10 (ws ++ (decimal n ++ c :: r)) = some (n, c :: r) := by
  obtain ⟨d, ds, hlt, hdec, hv⟩ := decimal_digits n
  have hd : d < 10 := hlt d List.mem_cons_self
  rw [hdec]
  have hscan := scanDigits_digits 0 r hlt hc
  rw [hv] at hscan
  have hlen : ¬ (c :: r).length = ((d :: ds).map digit ++ c :: r).length := by
    simp only [List.length_append, List.length_map, List.length_cons]
    omega
  rw [List.map_cons, List.cons_append] at hscan hlen ⊢
  have hskip : skipSpaces (digit d :: (ds.map digit ++ c :: r))
      = some (digit d :: (ds.map digit ++ c :: r)) := by
    rw [skipSpaces, if_neg]
    interval_cases d <;> decide
  have hsign : takeSign (digit d :: (ds.map digit ++ c :: r))
      = some (false, digit d :: (ds.map digit ++ c :: r)) := by
    rw [takeSign, if_neg (by interval_cases d <;> decide), if_neg (by interval_cases d <;> decide)]
  have hprefix : takePrefix 10 (digit d :: (ds.map digit ++ c :: r))
      = some (10, digit d :: (ds.map digit ++ c :: r)) := by
    simp [takePrefix]
  simp only [strtoul, skipSpaces_append hws, hskip, hsign, hprefix, hscan, Option.bind_eq_bind,
    Option.bind_some, if_neg hlen, if_neg (Nat.not_lt.2 hn), Bool.false_eq_true, if_false]

end Decimal
