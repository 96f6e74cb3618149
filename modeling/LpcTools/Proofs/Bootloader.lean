import LpcTools.Proofs.Device

/-!
# A faithful and willing device

The device of this module does what a text asks for that the host can have sent. It answers a command
of no such text with code 1, and refuses a block that carries no bytes of the right number.
-/

namespace LpcTools

open Run Decimal Uuencode

section Texts

theorem decimal_append_inj {m n : ℕ} (hm : m < 2 ^ 32) (hn : n < 2 ^ 32) {c c' : UInt8} (hc : Stops c)
    (hc' : Stops c') {r r' : List UInt8} (h : decimal m ++ c :: r = decimal n ++ c' :: r') :
    m = n ∧ c :: r = c' :: r' := by
  have hnone : ∀ x ∈ ([] : List UInt8), isSpace x = true := by simp
  have hread := strtoul_decimal hnone (show m ≤ ulongMax by rw [ulongMax]; omega) hc r
  have hread' := strtoul_decimal hnone (show n ≤ ulongMax by rw [ulongMax]; omega) hc' r'
  rw [List.nil_append] at hread hread'
  rw [h, hread'] at hread
  cases hread
  exact ⟨rfl, rfl⟩

theorem twoArgsText_inj {c c' : UInt8} {a b a' b' : UInt32}
    (h : twoArgsText c a.toNat b.toNat = twoArgsText c' a'.toNat b'.toNat) :
    c = c' ∧ a = a' ∧ b = b' := by
  simp only [twoArgsText, List.cons.injEq, true_and] at h
  obtain ⟨hc, hrest⟩ := h
  obtain ⟨ha, hrest⟩ := decimal_append_inj a.toNat_lt a'.toNat_lt (by decide) (by decide) hrest
  obtain ⟨-, hrest⟩ := List.cons.inj hrest
  obtain ⟨hb, -⟩ := decimal_append_inj b.toNat_lt b'.toNat_lt (by decide) (by decide) hrest
  exact ⟨hc, UInt32.toNat_inj.1 ha, UInt32.toNat_inj.1 hb⟩

theorem addressText_inj {c c' : UInt8} {a b n a' b' n' : UInt32}
    (h : addressText c a.toNat b.toNat n.toNat = addressText c' a'.toNat b'.toNat n'.toNat) :
    c = c' ∧ a = a' ∧ b = b' ∧ n = n' := by
  simp only [addressText, List.cons.injEq, true_and] at h
  obtain ⟨hc, hrest⟩ := h
  obtain ⟨ha, hrest⟩ := decimal_append_inj a.toNat_lt a'.toNat_lt (by decide) (by decide) hrest
  obtain ⟨-, hrest⟩ := List.cons.inj hrest
  obtain ⟨hb, hrest⟩ := decimal_append_inj b.toNat_lt b'.toNat_lt (by decide) (by decide) hrest
  obtain ⟨-, hrest⟩ := List.cons.inj hrest
  obtain ⟨hn, -⟩ := decimal_append_inj n.toNat_lt n'.toNat_lt (by decide) (by decide) hrest
  exact ⟨hc, UInt32.toNat_inj.1 ha, UInt32.toNat_inj.1 hb, UInt32.toNat_inj.1 hn⟩

/-- The letter that the text of a command starts with. -/
def Command.letter : Command → UInt8
  | unlock => 'U'.toUInt8
  | blankCheck _ _ => 'I'.toUInt8
  | prepare _ _ => 'P'.toUInt8
  | erase _ _ => 'E'.toUInt8
  | write _ _ => 'W'.toUInt8
  | copy _ _ _ => 'C'.toUInt8

theorem Command.head_text (c : Command) : c.text.head? = some c.letter := by
  cases c <;> rfl

/-- A text is that of one command only. -/
theorem Command.text_inj {c c' : Command} (h : c.text = c'.text) : c = c' := by
  have hletter : c.letter = c'.letter := by
    have hhead := congrArg List.head? h
    rw [c.head_text, c'.head_text] at hhead
    exact Option.some.inj hhead
  have htwo {x y : UInt8} {a b a' b' : UInt32}
      (h : twoArgsText x a.toNat b.toNat = twoArgsText y a'.toNat b'.toNat) : a = a' ∧ b = b' :=
    (twoArgsText_inj h).2
  cases c <;> cases c' <;>
    first
    | rfl
    | (exact absurd hletter (by simp only [Command.letter]; decide))
    | (obtain ⟨rfl, rfl⟩ := htwo h; rfl)
    | (obtain ⟨-, rfl, rfl, rfl⟩ := addressText_inj h; rfl)

end Texts

/-- A block carries one list of bytes of its length only. -/
theorem Carries.unique {text bs bs' : List UInt8} (hc : Carries text bs) (hc' : Carries text bs')
    (hlen : bs.length = bs'.length) : bs = bs' := by
  obtain ⟨enc, htext, henc, hdec⟩ := hc
  obtain ⟨enc', htext', henc', hdec'⟩ := hc'
  obtain ⟨rfl, -⟩ := List.append_inj (htext.symm.trans htext') (by rw [henc, henc', hlen])
  have h := hdec (fun _ => 0) bs.length (Nat.le_refl _)
  rw [hdec' (fun _ => 0) bs.length (Nat.le_of_eq hlen.symm)] at h
  exact (Prod.mk.inj (Option.some.inj h)).2.symm

section Bootloader

variable (sector : UInt32 → Option ℕ) (uu : ℕ)

open Classical in
noncomputable def bootloader : Line Chip where
  hear := fun c text =>
    match c.expects with
    | none =>
      if h : ∃ command : Command, command.text = text then
        if h.choose.Holds sector c then ([statusText 0], h.choose.effect sector c)
        else ([statusText 8 ++ (statusText 0 ++ statusText 0)], c)
      else ([statusText 1], c)
    | some (_, n) =>
      if uu = 0 then ([], c.receive text)
      else if h : ∃ bs, bs.length = min n 900 ∧ Carries text bs then
        ([blockReply true], c.receive h.choose)
      else ([blockReply false], c)
  arrive := fun _ => 1

theorem bootloader_command {c : Chip} (hc : c.expects = none) (command : Command) :
    (command.Holds sector c ∧
      (bootloader sector uu).hear c command.text = ([statusText 0], command.effect sector c)) ∨
    ¬ command.Holds sector c ∧
      (bootloader sector uu).hear c command.text = ([statusText 8 ++ (statusText 0 ++ statusText 0)], c) := by
  have hex : ∃ command' : Command, command'.text = command.text := ⟨command, rfl⟩
  have hchoose : hex.choose = command := Command.text_inj hex.choose_spec
  simp only [bootloader, hc, dif_pos hex]
  rw [hchoose]
  by_cases hholds : command.Holds sector c
  · exact .inl ⟨hholds, if_pos hholds⟩
  · exact .inr ⟨hholds, if_neg hholds⟩

variable {sector uu}

theorem bootloader_block (huu : uu ≠ 0) {c : Chip} {addr : UInt32} {n : ℕ}
    (hc : c.expects = some (addr, n)) {text bs : List UInt8} (htext : Carries text bs)
    (hlen : bs.length = min n 900) :
    (bootloader sector uu).hear c text = ([blockReply true], c.receive bs) := by
  have hex : ∃ bs, bs.length = min n 900 ∧ Carries text bs := ⟨bs, hlen, htext⟩
  have hchoose : hex.choose = bs :=
    hex.choose_spec.2.unique htext (hex.choose_spec.1.trans hlen.symm)
  simp only [bootloader, hc, if_neg huu, dif_pos hex, hchoose]

theorem bootloader_faithful : Faithful (bootloader sector uu) sector uu id where
  prompt := fun t => ⟨0, by omega, Nat.one_pos⟩
  command := by
    intro c command hc
    rcases bootloader_command sector uu hc command with ⟨hholds, hhear⟩ | ⟨hno, hhear⟩
    · exact ⟨0, by omega, _, _, hhear, .inl rfl, fun _ => ⟨hholds, rfl⟩, fun h => absurd rfl h⟩
    · refine ⟨8, by omega, _, _, hhear, .inr ⟨by omega, ?_, 0, 0, rfl⟩, fun h => by omega, fun _ => rfl⟩
      cases command with
      | blankCheck first last => exact ⟨first, last, rfl⟩
      | _ => exact absurd trivial hno
  block := by
    intro huu c addr n text bs hc htext hlen
    exact ⟨true, _, bootloader_block huu hc htext hlen, rfl⟩
  raw := by
    intro huu c addr n bs hc _
    refine ⟨c.receive bs, ?_, rfl⟩
    have hc' : c.expects = some (addr, n) := hc
    simp only [bootloader, hc', if_pos huu]

theorem bootloader_willing :
    Willing (bootloader sector uu) sector id fun _ => 0 where
  command := by
    intro c command hc hholds
    rcases bootloader_command sector uu hc command with ⟨-, hhear⟩ | ⟨hno, -⟩
    · exact congrArg Prod.fst hhear
    · exact absurd hholds hno
  few := fun _ => Nat.zero_le 2
  refuse := by
    intro c addr n text bs d' hc htext hlen hhear
    have hc' : c.expects = some (addr, n) := hc
    by_cases huu : uu = 0
    · simp only [bootloader, hc', if_pos huu] at hhear
      cases (Prod.mk.inj hhear).1
    · rw [bootloader_block huu hc' htext hlen] at hhear
      exact absurd (Prod.mk.inj hhear).1 (by decide)

end Bootloader

/-- The first two sectors of 4096 bytes are full of sevens, and the others are blank. -/
def halfFull : Chip := ⟨fun a => if a < 0x2000 then 7 else 0xFF, fun _ => 0, none⟩

end LpcTools
