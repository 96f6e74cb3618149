import LpcTools.Lib.Decimal

/-!
# Numbers written as in C

`numberValue` is the value of a number in decimal, in hexadecimal behind `0x`, or in octal behind `0`.
`strtoul` in base 0 reads it off any text in which white space may come before it and something that
is no digit behind it (`strtoul_number`). What `strtoul` reads does not depend on what lies behind the
end of the number (`strtoul_append`), and a zero byte ends every number (`strtoul_terminated`).
-/

namespace Decimal

def digitsValue (base : ℕ) (ds : List UInt8) : Option ℕ :=
  ds.foldlM (fun acc c => (digitIn base c).map (acc * base + ·)) 0

def numberValue : List UInt8 → Option ℕ
  | [] => none
  | c :: cs =>
    if c = '0'.toUInt8 then
      match cs with
      | x :: d :: ds =>
        if x = 'x'.toUInt8 ∨ x = 'X'.toUInt8 then digitsValue 16 (d :: ds)
        else digitsValue 8 (c :: x :: d :: ds)
      | _ => digitsValue 8 (c :: cs)
    else digitsValue 10 (c :: cs)

/-- Nothing but white space. -/
def Blank (ws : List UInt8) : Prop := ∀ c ∈ ws, isSpace c = true

/-- A character that ends a number in any base. -/
def EndsNumber (c : UInt8) : Prop :=
  digitIn 16 c = none ∧ c ≠ 'x'.toUInt8 ∧ c ≠ 'X'.toUInt8

instance (c : UInt8) : Decidable (EndsNumber c) := inferInstanceAs (Decidable (_ ∧ _))

section Append

variable {base v : ℕ} {s rest : List UInt8}

theorem skipSpaces_of_some {s₁ : List UInt8} (h : skipSpaces s = some s₁) (t : List UInt8) :
    skipSpaces (s ++ t) = some (s₁ ++ t) := by
  induction s with
  | nil => simp [skipSpaces] at h
  | cons c s ih =>
    simp only [List.cons_append, skipSpaces] at h ⊢
    split_ifs at h ⊢
    · exact ih h
    · cases h
      rfl

theorem takeSign_of_some {neg : Bool} {s₁ : List UInt8} (h : takeSign s = some (neg, s₁))
    (t : List UInt8) : takeSign (s ++ t) = some (neg, s₁ ++ t) := by
  rcases s with _ | ⟨c, s⟩
  · simp [takeSign] at h
  · simp only [List.cons_append, takeSign, Option.some.injEq] at h ⊢
    split_ifs at h ⊢ <;> cases h <;> rfl

theorem takePrefix_other {c : UInt8} (hc : ¬ (c = '0'.toUInt8 ∧ (base = 0 ∨ base = 16)))
    (cs : List UInt8) : takePrefix base (c :: cs) = some (if base = 0 then 10 else base, c :: cs) := by
  rw [takePrefix, if_neg hc]

/-- A base prefix, or a zero that only looks like one. -/
theorem takePrefix_zero {c x : UInt8} (hc : c = '0'.toUInt8 ∧ (base = 0 ∨ base = 16))
    (cs : List UInt8) : takePrefix base (c :: x :: cs) =
      if x = 'x'.toUInt8 ∨ x = 'X'.toUInt8 then
        (cs.head?).map fun d => if (digitIn 16 d).isSome then (16, cs)
          else (if base = 0 then 8 else 16, c :: x :: cs)
      else some (if base = 0 then 8 else 16, c :: x :: cs) := by
  rw [takePrefix, if_pos hc]
  simp only [List.getElem?_cons_zero, Option.bind_eq_bind, Option.bind_some]
  by_cases hx : x = 'x'.toUInt8 ∨ x = 'X'.toUInt8
  · rw [if_pos hx, if_pos hx]
    rcases cs with _ | ⟨d, cs⟩
    · rfl
    · simp only [List.getElem?_cons_succ, List.getElem?_cons_zero, Option.bind_some,
        List.head?_cons, Option.map_some]
      by_cases hd : (digitIn 16 d).isSome = true
      · rw [if_pos hd, if_pos hd]
        rfl
      · rw [if_neg hd, if_neg hd]
  · rw [if_neg hx, if_neg hx]

theorem takePrefix_of_some {b : ℕ} {s₁ : List UInt8} (h : takePrefix base s = some (b, s₁))
    (t : List UInt8) : takePrefix base (s ++ t) = some (b, s₁ ++ t) := by
  rcases s with _ | ⟨c, s⟩
  · simp [takePrefix] at h
  · by_cases hc : c = '0'.toUInt8 ∧ (base = 0 ∨ base = 16)
    · rcases s with _ | ⟨x, s⟩
      · simp [takePrefix, hc] at h
      · rw [takePrefix_zero hc] at h
        rw [List.cons_append, List.cons_append, takePrefix_zero hc]
        by_cases hx : x = 'x'.toUInt8 ∨ x = 'X'.toUInt8
        · rw [if_pos hx] at h ⊢
          rcases s with _ | ⟨d, s⟩
          · simp at h
          · simp only [List.head?_cons, Option.map_some, Option.some.injEq, List.cons_append] at h ⊢
            by_cases hd : (digitIn 16 d).isSome = true
            · rw [if_pos hd] at h ⊢
              cases h
              rfl
            · rw [if_neg hd] at h ⊢
              cases h
              rfl
        · rw [if_neg hx] at h ⊢
          cases h
          rfl
    · rw [takePrefix_other hc] at h
      rw [List.cons_append, takePrefix_other hc]
      cases h
      rfl

theorem scanDigits_of_some {acc : ℕ} (h : scanDigits base acc s = some (v, rest)) (t : List UInt8) :
    scanDigits base acc (s ++ t) = some (v, rest ++ t) := by
  induction s generalizing acc with
  | nil => simp [scanDigits] at h
  | cons c s ih =>
    simp only [List.cons_append, scanDigits] at h ⊢
    rcases hc : digitIn base c with _ | d <;> rw [hc] at h
    · cases h
      rfl
    · exact ih h

theorem strtoul_append (h : strtoul base s = some (v, rest)) (t : List UInt8) :
    strtoul base (s ++ t) = some (v, rest ++ t) := by
  simp only [strtoul, Option.bind_eq_bind, Option.bind_eq_some_iff] at h ⊢
  obtain ⟨s₁, h₁, ⟨neg, s₂⟩, h₂, ⟨b, s₃⟩, h₃, ⟨w, r⟩, h₄, hr⟩ := h
  refine ⟨_, skipSpaces_of_some h₁ t, _, takeSign_of_some h₂ t, _, takePrefix_of_some h₃ t, _,
    scanDigits_of_some h₄ t, ?_⟩
  simp only [List.length_append, Nat.add_right_cancel_iff] at hr ⊢
  split_ifs at hr ⊢ <;> cases hr <;> rfl

end Append

section Terminated

theorem skipSpaces_terminated (s : List UInt8) : ∃ u, skipSpaces (s ++ [0]) = some (u ++ [0]) := by
  induction s with
  | nil => exact ⟨[], rfl⟩
  | cons c s ih =>
    rw [List.cons_append, skipSpaces]
    split_ifs
    · exact ih
    · exact ⟨c :: s, rfl⟩

theorem scanDigits_terminated (base : ℕ) (s : List UInt8) (acc : ℕ) :
    ∃ v u, scanDigits base acc (s ++ [0]) = some (v, u ++ [0]) := by
  induction s generalizing acc with
  | nil =>
    refine ⟨acc, [], ?_⟩
    have hzero : digitIn base 0 = none := rfl
    simp [scanDigits, hzero]
  | cons c s ih =>
    rw [List.cons_append, scanDigits]
    rcases digitIn base c with _ | d
    · exact ⟨acc, c :: s, rfl⟩
    · exact ih _

theorem takePrefix_terminated (base : ℕ) (s : List UInt8) :
    ∃ b u, takePrefix base (s ++ [0]) = some (b, u ++ [0]) := by
  rcases s with _ | ⟨c, s⟩
  · refine ⟨if base = 0 then 10 else base, [], takePrefix_other ?_ []⟩
    exact fun hc => absurd hc.1 (by decide)
  · by_cases hc : c = '0'.toUInt8 ∧ (base = 0 ∨ base = 16)
    · rcases s with _ | ⟨x, s⟩
      · exact ⟨_, [c], (takePrefix_zero hc []).trans (if_neg (by decide))⟩
      · rw [List.cons_append, List.cons_append, takePrefix_zero hc]
        by_cases hx : x = 'x'.toUInt8 ∨ x = 'X'.toUInt8
        · rw [if_pos hx]
          obtain ⟨d, hd⟩ : ∃ d, (s ++ [0]).head? = some d := by
            rcases s with _ | ⟨d, s⟩
            · exact ⟨0, rfl⟩
            · exact ⟨d, rfl⟩
          rw [hd, Option.map_some]
          by_cases hdigit : (digitIn 16 d).isSome = true
          · rw [if_pos hdigit]
            exact ⟨16, s, rfl⟩
          · rw [if_neg hdigit]
            exact ⟨_, c :: x :: s, rfl⟩
        · rw [if_neg hx]
          exact ⟨_, c :: x :: s, rfl⟩
    · exact ⟨_, c :: s, takePrefix_other hc _⟩

/-- A number is ended by a zero byte at the latest. -/
theorem strtoul_terminated (base : ℕ) (s : List UInt8) :
    ∃ v u, strtoul base (s ++ [0]) = some (v, u ++ [0]) := by
  obtain ⟨s₁, h₁⟩ := skipSpaces_terminated s
  obtain ⟨neg, s₂, h₂⟩ : ∃ neg s₂, takeSign (s₁ ++ [0]) = some (neg, s₂ ++ [0]) := by
    rcases s₁ with _ | ⟨c, s₁⟩
    · exact ⟨false, [], rfl⟩
    · rw [List.cons_append, takeSign]
      split_ifs
      · exact ⟨true, s₁, rfl⟩
      · exact ⟨false, s₁, rfl⟩
      · exact ⟨false, c :: s₁, rfl⟩
  obtain ⟨b, s₃, h₃⟩ := takePrefix_terminated base s₂
  obtain ⟨v, u, h₄⟩ := scanDigits_terminated b s₃ 0
  simp only [strtoul, h₁, h₂, h₃, h₄, Option.bind_eq_bind, Option.bind_some]
  split_ifs
  · exact ⟨_, s, rfl⟩
  · exact ⟨_, u, rfl⟩
  · exact ⟨_, u, rfl⟩
  · exact ⟨_, u, rfl⟩

end Terminated

section Numbers

theorem digitIn_mono {a b : ℕ} (hab : a ≤ b) {c : UInt8} (hc : digitIn b c = none) :
    digitIn a c = none := by
  rw [digitIn, Option.filter_eq_none_iff] at hc ⊢
  intro d hd
  have := hc d hd
  simp only [decide_eq_true_eq] at this ⊢
  omega

theorem scanDigits_value {base : ℕ} {c : UInt8} (hc : digitIn base c = none) (r : List UInt8) :
    ∀ {ds : List UInt8} {acc v : ℕ},
      ds.foldlM (fun acc c => (digitIn base c).map (acc * base + ·)) acc = some v →
      scanDigits base acc (ds ++ c :: r) = some (v, c :: r)
  | [], acc, v, h => by
    cases h
    simp [scanDigits, hc]
  | d :: ds, acc, v, h => by
    rw [List.foldlM_cons] at h
    rcases hd : digitIn base d with _ | w
    · simp [hd] at h
    · simp only [hd, Option.map_some, Option.bind_eq_bind, Option.bind_some] at h
      simp only [List.cons_append, scanDigits, hd]
      exact scanDigits_value hc r h

theorem digit_of_digitsValue {base : ℕ} {d : UInt8} {ds : List UInt8} {v : ℕ}
    (h : digitsValue base (d :: ds) = some v) : (digitIn base d).isSome = true := by
  rw [digitsValue, List.foldlM_cons] at h
  rcases hd : digitIn base d with _ | w
  · simp [hd] at h
  · rfl

theorem digitIn_range {base : ℕ} (hbase : base ≤ 10) {c : UInt8} (hc : (digitIn base c).isSome = true) :
    48 ≤ c.toNat ∧ c.toNat ≤ 57 := by
  simp only [digitIn, Option.isSome_filter, Option.any_eq_true_iff_get] at hc
  obtain ⟨hsome, hlt⟩ := hc
  rcases hd : digitValue c with _ | d
  · simp [hd] at hsome
  · simp only [hd, Option.get_some, decide_eq_true_eq] at hlt
    simp only [digitValue] at hd
    split_ifs at hd with h1 h2 h3
    · rw [UInt8.le_iff_toNat_le, UInt8.le_iff_toNat_le] at h1
      exact h1
    · cases hd
      omega
    · cases hd
      omega

/-- A decimal digit is no white space and no sign. -/
theorem plain_of_digit {c : UInt8} (hc : (digitIn 10 c).isSome = true) :
    isSpace c = false ∧ c ≠ '-'.toUInt8 ∧ c ≠ '+'.toUInt8 := by
  obtain ⟨hle, -⟩ := digitIn_range (Nat.le_refl 10) hc
  refine ⟨?_, ?_, ?_⟩
  · have h13 : ¬ c ≤ 13 := by
      rw [UInt8.le_iff_toNat_le]
      change ¬ c.toNat ≤ 13
      omega
    have h32 : c ≠ ' '.toUInt8 := by
      rintro rfl
      exact absurd hle (by decide)
    simp [isSpace, h13, h32]
  · rintro rfl
    exact absurd hle (by decide)
  · rintro rfl
    exact absurd hle (by decide)

theorem octal_ne {c : UInt8} (hc : (digitIn 8 c).isSome = true) :
    c ≠ 'x'.toUInt8 ∧ c ≠ 'X'.toUInt8 := by
  obtain ⟨-, hle⟩ := digitIn_range (by omega) hc
  constructor <;> rintro rfl <;> exact absurd hle (by decide)

theorem numberValue_of_ne {c : UInt8} (hc : c ≠ '0'.toUInt8) (cs : List UInt8) :
    numberValue (c :: cs) = digitsValue 10 (c :: cs) := by
  rcases cs with _ | ⟨x, _ | ⟨d, ds⟩⟩ <;> simp [numberValue, hc]

/-- The base of a number, and its digits with what is behind them. -/
theorem takePrefix_number {t : List UInt8} {v : ℕ} (ht : numberValue t = some v) {c : UInt8}
    (hc : EndsNumber c) (r : List UInt8) : ∃ base ≤ 16, ∃ d ds,
      takePrefix 0 (t ++ c :: r) = some (base, d :: ds ++ c :: r) ∧
      digitsValue base (d :: ds) = some v ∧
      ∃ e es, t = e :: es ∧ (digitIn 10 e).isSome = true := by
  obtain ⟨-, hx, hX⟩ := hc
  rcases t with _ | ⟨e, es⟩
  · simp [numberValue] at ht
  · by_cases he : e = '0'.toUInt8
    · subst he
      simp only [numberValue, if_true] at ht
      have hzero : (digitIn 10 '0'.toUInt8).isSome = true := by decide
      rcases es with _ | ⟨x, _ | ⟨d, ds⟩⟩
      · refine ⟨8, by omega, '0'.toUInt8, [], ?_, ht, _, _, rfl, hzero⟩
        simp [takePrefix, hx, hX]
      · have hoct : (digitIn 8 x).isSome = true := by
          simp only [digitsValue, List.foldlM_cons] at ht
          rcases hd : digitIn 8 x with _ | w
          · simp [hd] at ht
          · rfl
        obtain ⟨hx', hX'⟩ := octal_ne hoct
        refine ⟨8, by omega, '0'.toUInt8, [x], ?_, ht, _, _, rfl, hzero⟩
        simp [takePrefix, hx', hX']
      · simp only [] at ht
        by_cases hpre : x = 'x'.toUInt8 ∨ x = 'X'.toUInt8
        · rw [if_pos hpre] at ht
          refine ⟨16, by omega, d, ds, ?_, ht, _, _, rfl, hzero⟩
          have hd := digit_of_digitsValue ht
          simp [takePrefix, hpre, hd]
        · rw [if_neg hpre] at ht
          refine ⟨8, by omega, '0'.toUInt8, x :: d :: ds, ?_, ht, _, _, rfl, hzero⟩
          simp [takePrefix, hpre]
    · rw [numberValue_of_ne he] at ht
      refine ⟨10, by omega, e, es, ?_, ht, e, es, rfl, digit_of_digitsValue ht⟩
      simp [takePrefix, he]

/-- `strtoul` in base 0 reads a number behind white space, up to the character that ends it. -/
theorem strtoul_number {ws t : List UInt8} {v : ℕ} (hws : Blank ws) (ht : numberValue t = some v)
    (hv : v ≤ ulongMax) {c : UInt8} (hc : EndsNumber c) (r : List UInt8) :
    strtoul 0 (ws ++ (t ++ c :: r)) = some (v, c :: r) := by
  obtain ⟨base, hbase, d, ds, hprefix, hvalue, e, es, rfl, he⟩ := takePrefix_number ht hc r
  obtain ⟨hspace, hminus, hplus⟩ := plain_of_digit he
  have hskip : skipSpaces (ws ++ (e :: es ++ c :: r)) = some (e :: es ++ c :: r) := by
    rw [skipSpaces_append hws, List.cons_append, skipSpaces, if_neg (by simp [hspace])]
  have hsign : takeSign (e :: es ++ c :: r) = some (false, e :: es ++ c :: r) := by
    rw [List.cons_append, takeSign, if_neg hminus, if_neg hplus]
  have hscan := scanDigits_value (digitIn_mono hbase hc.1) r hvalue
  have hlen : ¬ (c :: r).length = (d :: ds ++ c :: r).length := by
    simp only [List.length_append, List.length_cons]
    omega
  simp only [strtoul, hskip, hsign, hprefix, hscan, Option.bind_eq_bind, Option.bind_some,
    if_neg hlen, if_neg (Nat.not_lt.2 hv), Bool.false_eq_true, if_false]

/-- No number but 0 is printed with a zero in front. -/
theorem decimal_head {n : ℕ} (hn : 0 < n) {c : UInt8} {cs : List UInt8}
    (hdec : decimal n = c :: cs) : c ≠ '0'.toUInt8 := by
  induction n using Nat.strongRecOn generalizing cs with
  | ind n ih =>
    rcases Nat.lt_or_ge n 10 with h | h
    · rw [decimal_of_lt h] at hdec
      cases hdec
      interval_cases n <;> decide
    · rw [decimal_of_le h] at hdec
      rcases htop : decimal (n / 10) with _ | ⟨d, ds⟩
      · exact absurd htop (decimal_ne_nil _)
      · rw [htop] at hdec
        cases hdec
        exact ih (n / 10) (by omega) (by omega) htop

/-- What `%u` prints is a number. -/
theorem numberValue_decimal (n : ℕ) : numberValue (decimal n) = some n := by
  have hdigits : ∀ {ds : List ℕ} (acc : ℕ), (∀ e ∈ ds, e < 10) →
      (ds.map digit).foldlM (fun acc c => (digitIn 10 c).map (acc * 10 + ·)) acc =
        some (ds.foldl (· * 10 + ·) acc) := by
    intro ds
    induction ds with
    | nil => exact fun acc _ => rfl
    | cons d ds ih =>
      intro acc h
      simp only [List.map_cons, List.foldlM_cons, digitIn_digit d (h d List.mem_cons_self),
        Option.map_some, Option.bind_eq_bind, Option.bind_some, List.foldl_cons]
      exact ih _ fun e he => h e (List.mem_cons_of_mem _ he)
  rcases Nat.eq_zero_or_pos n with rfl | hpos
  · rfl
  · obtain ⟨d, ds, hlt, hdec, hv⟩ := decimal_digits n
    have hne : digit d ≠ '0'.toUInt8 := decimal_head hpos (hdec.trans (List.map_cons ..))
    rw [hdec, List.map_cons, numberValue_of_ne hne, ← List.map_cons, digitsValue,
      hdigits 0 hlt, hv]

end Numbers

end Decimal
