import LpcTools.Proofs.Bootloader
import LpcTools.Proofs.Flashing
import LpcTools.Proofs.ProgVerdicts

/-!
# What `erase_flash` leaves alone

On a device that knows a blank sector, `erase_flash` erases the other sectors, one after the other and
each once. What the host has sent, what is left on the line and what is in the flash are followed
together from sector to sector (`eraseFlash_clears`).
-/

namespace LpcTools

open Run Decimal Uuencode

/-- Every byte of the sector is erased. -/
def Blank (sector : UInt32 → Option ℕ) (f : UInt32 → UInt8) (s : ℕ) : Prop :=
  ∀ a, sector a = some s → f a = 0xFF

open Classical in
/-- The sectors that are not blank, of the first `n`. -/
noncomputable def written (sector : UInt32 → Option ℕ) (f : UInt32 → UInt8) (n : ℕ) : List ℕ :=
  (List.range n).filter fun s => ¬ Blank sector f s

def isErase (text : List UInt8) : Bool := text.head? == some 'E'.toUInt8

/-- The device answers the blank check of blank sectors with 0. A faithful one answers that of others
with a refusal. -/
def Truthful {δ : Type} (L : Line δ) (sector : UInt32 → Option ℕ) (chip : δ → Chip) : Prop :=
  ∀ d first last, (chip d).expects = none →
    (Command.blankCheck first last).Holds sector (chip d) →
    (L.hear d (Command.blankCheck first last).text).1 = [statusText 0]

/-- What a run of `erase_flash` over `n` sectors does to the flash `f`, and with which requests. -/
structure Clears (sector : UInt32 → Option ℕ) (n : ℕ) (f f' : UInt32 → UInt8) (ret : ℤ)
    (texts : List (List UInt8)) : Prop where
  blank : ret = 0 → ∀ s < n, Blank sector f' s
  once : ret = 0 → texts.filter isErase = (written sector f n).map (sectorText 'E'.toUInt8)
  kept : ∀ s < n, Blank sector f s →
    sectorText 'P'.toUInt8 s ∉ texts ∧ sectorText 'E'.toUInt8 s ∉ texts
  stopped : ret ≠ 0 → texts = [unlock] ∧ f' = f ∨ ∃ k < n,
    (texts.getLast? = some (sectorText 'P'.toUInt8 k) ∨
      texts.getLast? = some (sectorText 'E'.toUInt8 k)) ∧
    ∀ a s, sector a = some s → k < s → f' a = f a

/-- The requests about the `n` sectors from `i` on of which `k` are seen through, and the value the
run ends with. -/
inductive Cleared (blank : ℕ → Prop) : ℕ → ℕ → ℕ → ℤ → List (List UInt8) → Prop
  | done (i : ℕ) : Cleared blank i 0 0 0 []
  | skipped {i n k : ℕ} {ret : ℤ} {texts : List (List UInt8)} (hblank : blank i)
      (hrest : Cleared blank (i + 1) n k ret texts) :
      Cleared blank i (n + 1) (k + 1) ret (sectorText 'I'.toUInt8 i :: texts)
  | unprepared {i n : ℕ} {ret : ℤ} (hblank : ¬ blank i) (hret : ret ≠ 0) :
      Cleared blank i (n + 1) 0 ret [sectorText 'I'.toUInt8 i, sectorText 'P'.toUInt8 i]
  | unerased {i n : ℕ} {ret : ℤ} (hblank : ¬ blank i) (hret : ret ≠ 0) :
      Cleared blank i (n + 1) 0 ret
        [sectorText 'I'.toUInt8 i, sectorText 'P'.toUInt8 i, sectorText 'E'.toUInt8 i]
  | erased {i n k : ℕ} {ret : ℤ} {texts : List (List UInt8)} (hblank : ¬ blank i)
      (hrest : Cleared blank (i + 1) n k ret texts) :
      Cleared blank i (n + 1) (k + 1) ret (sectorText 'I'.toUInt8 i :: sectorText 'P'.toUInt8 i ::
        sectorText 'E'.toUInt8 i :: texts)

/-- The sectors from `i` up to `j` are blank, and the rest of the flash is what it was. -/
structure BlankUpTo (sector : UInt32 → Option ℕ) (i j : ℕ) (f f' : UInt32 → UInt8) : Prop where
  blank : ∀ s, i ≤ s → s < j → Blank sector f' s
  rest : ∀ a, (∀ s, sector a = some s → s < i ∨ j ≤ s) → f' a = f a

section Texts

variable {blank : ℕ → Prop} {i n k s : ℕ} {ret : ℤ} {texts : List (List UInt8)}

theorem sectorText_inj {cmd cmd' : UInt8} (hi : i < 2 ^ 31) (hs : s < 2 ^ 31)
    (he : sectorText cmd i = sectorText cmd' s) : i = s := by
  have hval : (toUnsigned i).toNat = (toUnsigned s).toNat := by rw [(twoArgsText_inj he).2.1]
  rw [toUnsigned_natCast, toUnsigned_natCast, UInt32.toNat_ofNat', UInt32.toNat_ofNat',
    Nat.mod_eq_of_lt (by omega), Nat.mod_eq_of_lt (by omega)] at hval
  exact hval

theorem sectorText_head {cmd cmd' : UInt8} (he : sectorText cmd i = sectorText cmd' s) :
    cmd = cmd' := (List.cons.inj he).1

open Classical in
/-- In a run that succeeds every sector is seen through, and those that are not blank are erased. -/
theorem Cleared.success (hc : Cleared blank i n k ret texts) (h0 : ret = 0) : k = n ∧
    texts.filter isErase =
      ((List.range' i n).filter fun s => ¬ blank s).map (sectorText 'E'.toUInt8) := by
  have hI (i : ℕ) : isErase (sectorText 'I'.toUInt8 i) = false := rfl
  have hP (i : ℕ) : isErase (sectorText 'P'.toUInt8 i) = false := rfl
  have hE (i : ℕ) : isErase (sectorText 'E'.toUInt8 i) = true := rfl
  induction hc with
  | done i => exact ⟨rfl, rfl⟩
  | skipped hblank _ ih =>
    obtain ⟨rfl, htexts⟩ := ih h0
    simp [List.range'_succ, hI, hblank, htexts]
  | unprepared _ hret => exact absurd h0 hret
  | unerased _ hret => exact absurd h0 hret
  | erased hblank _ ih =>
    obtain ⟨rfl, htexts⟩ := ih h0
    simp [List.range'_succ, hI, hP, hE, hblank, htexts]

/-- A run that fails stops at the first sector that is not seen through. -/
theorem Cleared.failure (hc : Cleared blank i n k ret texts) (hret : ret ≠ 0) : k < n ∧
    (texts.getLast? = some (sectorText 'P'.toUInt8 (i + k)) ∨
      texts.getLast? = some (sectorText 'E'.toUInt8 (i + k))) := by
  have hlast {text t : List UInt8} {texts : List (List UInt8)} (h : texts.getLast? = some t) :
      (text :: texts).getLast? = some t := by
    rw [List.getLast?_cons, h]
    rfl
  induction hc with
  | done i => exact absurd rfl hret
  | @skipped i n k _ _ _ _ ih =>
    obtain ⟨hk, htexts⟩ := ih hret
    rw [show i + 1 + k = i + (k + 1) by omega] at htexts
    exact ⟨by omega, htexts.imp hlast hlast⟩
  | unprepared => exact ⟨by omega, .inl rfl⟩
  | unerased => exact ⟨by omega, .inr rfl⟩
  | @erased i n k _ _ _ _ ih =>
    obtain ⟨hk, htexts⟩ := ih hret
    rw [show i + 1 + k = i + (k + 1) by omega] at htexts
    exact ⟨by omega, htexts.imp (hlast ∘ hlast ∘ hlast) (hlast ∘ hlast ∘ hlast)⟩

/-- Only sectors that are not blank are prepared or erased. -/
theorem Cleared.kept (hc : Cleared blank i n k ret texts) (hle : i + n ≤ 2 ^ 31) (hs : s < 2 ^ 31)
    (hblank : blank s) {cmd : UInt8} (hcmd : cmd ≠ 'I'.toUInt8) : sectorText cmd s ∉ texts := by
  have hI (i : ℕ) : sectorText cmd s ≠ sectorText 'I'.toUInt8 i := fun he => hcmd (sectorText_head he)
  have hother {i : ℕ} (hi : i < 2 ^ 31) (hne : ¬ blank i) (cmd' : UInt8) :
      sectorText cmd s ≠ sectorText cmd' i := fun he => hne (sectorText_inj hs hi he ▸ hblank)
  induction hc with
  | done i => simp
  | @skipped i n k _ _ _ _ ih => simp [hI i, ih (by omega)]
  | @unprepared i n _ hne => simp [hI i, hother (i := i) (by omega) hne]
  | @unerased i n _ hne => simp [hI i, hother (i := i) (by omega) hne]
  | @erased i n k _ _ hne _ ih => simp [hI i, hother (i := i) (by omega) hne, ih (by omega)]

end Texts

section Flash

variable {sector : UInt32 → Option ℕ} {i j s : ℕ} {f f₁ f' : UInt32 → UInt8}

theorem BlankUpTo.refl (i : ℕ) (f : UInt32 → UInt8) : BlankUpTo sector i i f f :=
  ⟨fun s hle hlt => by omega, fun _ _ => rfl⟩

theorem BlankUpTo.next (hfirst : BlankUpTo sector i (i + 1) f f₁)
    (hrest : BlankUpTo sector (i + 1) j f₁ f') (hle : i + 1 ≤ j) : BlankUpTo sector i j f f' := by
  constructor
  · intro s hs hlt a ha
    by_cases hi : s = i
    · subst hi
      rw [hrest.rest a fun t ht => .inl (by rw [ha] at ht; cases ht; omega)]
      exact hfirst.blank s (by omega) (by omega) a ha
    · exact hrest.blank s (by omega) hlt a ha
  · intro a ha
    rw [hrest.rest a fun t ht => (ha t ht).imp (by omega) id,
      hfirst.rest a fun t ht => (ha t ht).imp id (by omega)]

/-- Sectors outside are blank just if they were. -/
theorem BlankUpTo.blank_iff (hb : BlankUpTo sector i j f f') (hs : s < i ∨ j ≤ s) :
    Blank sector f' s ↔ Blank sector f s := by
  refine forall_congr' fun a => forall_congr' fun ha => ?_
  rw [hb.rest a fun t ht => by rw [ha] at ht; cases ht; exact hs]

theorem blankUpTo_of_blank (hblank : Blank sector f i) : BlankUpTo sector i (i + 1) f f := by
  refine ⟨fun s hle hlt => ?_, fun _ _ => rfl⟩
  rw [show s = i by omega]
  exact hblank

theorem blankCheck_holds (hi : i < 2 ^ 31) (c : Chip) :
    (Command.blankCheck (toUnsigned i) (toUnsigned i)).Holds sector c ↔ Blank sector c.flash i := by
  rw [Command.Holds, Blank]
  simp only [inSectors_self hi]

theorem blankUpTo_erase (hi : i < 2 ^ 31) (c : Chip) : BlankUpTo sector i (i + 1) c.flash
    ((Command.erase (toUnsigned i) (toUnsigned i)).effect sector c).flash := by
  constructor
  · intro s hle hlt a ha
    exact if_pos ((inSectors_self hi).2 (by rw [ha, show s = i by omega]))
  · intro a ha
    refine if_neg fun hin => ?_
    have := ha i ((inSectors_self hi).1 hin)
    omega

end Flash

section Device

variable {δ : Type} {L : Line δ} {O : Sys (Wire δ)} {sector : UInt32 → Option ℕ} {uu : ℕ}
  {chip : δ → Chip} {h h₁ h' : Host (Wire δ)} {c : Command} {i j n k s : ℕ} {ret : ℤ}
  {blank : ℕ → Prop} {texts : List (List UInt8)}

/-- The texts heard from `h` to `h'`. -/
def Heard (h h' : Host (Wire δ)) (texts : List (List UInt8)) : Prop :=
  h'.env.heard.map Prod.fst = h.env.heard.map Prod.fst ++ texts

theorem Heard.trans {texts' : List (List UInt8)} (hh : Heard h h₁ texts)
    (hh' : Heard h₁ h' texts') : Heard h h' (texts ++ texts') := by
  rw [Heard, hh', hh, List.append_assoc]

theorem Obeyed.heardText (ho : Obeyed L sector chip c h s h') : Heard h h' [c.text] := by
  rw [Heard, ho.heard, List.map_append]
  rfl

/-- A command that leaves the flash as it is, whatever it is answered with. -/
theorem Obeyed.flash (ho : Obeyed L sector chip c h s h')
    (heffect : (c.effect sector (chip h.env.dev)).flash = (chip h.env.dev).flash) :
    (chip h'.env.dev).flash = (chip h.env.dev).flash := by
  by_cases hs : s = 0
  · rw [(ho.done hs).2, heffect]
  · rw [ho.refused hs]

/-- How a run over the `n` sectors from `i` on ends. -/
def Clearing (sector : UInt32 → Option ℕ) (chip : δ → Chip) (blank : ℕ → Prop) (i n : ℕ)
    (h : Host (Wire δ)) (ret : ℤ) (h' : Host (Wire δ)) : Prop :=
  ∃ k texts, Heard h h' texts ∧ Cleared blank i n k ret texts ∧
    BlankUpTo sector i (i + k) (chip h.env.dev).flash (chip h'.env.dev).flash

/-- The device's answer to a blank check says whether the sector is blank. -/
theorem Obeyed.blank_iff (T : Truthful L sector chip) (hi : i < 2 ^ 31) (hidle : Idle chip h)
    (ho : Obeyed L sector chip (.blankCheck (toUnsigned i) (toUnsigned i)) h s h') :
    s = 0 ↔ Blank sector (chip h.env.dev).flash i := by
  constructor
  · intro hs
    exact (blankCheck_holds hi _).1 (ho.done hs).1
  · intro hblank
    exact ho.status (Nat.zero_le 19) (.inl rfl)
      (T h.env.dev _ _ hidle.expects ((blankCheck_holds hi _).2 hblank))

theorem FoundUsed.heardText {h₂ : Host (Wire δ)} (u : FoundUsed L sector chip i h s h₁ h₂) :
    Heard h h₂ [sectorText 'I'.toUInt8 i] := by
  rw [Heard, u.heard]
  exact u.check.heardText

theorem FoundUsed.flash {h₂ : Host (Wire δ)} (u : FoundUsed L sector chip i h s h₁ h₂) :
    (chip h₂.env.dev).flash = (chip h.env.dev).flash := by
  rw [u.dev, u.check.flash rfl]

/-- Blank sectors are skipped, and the others erased up to the one where a command is refused. By
recursion over the sectors: those that come are as they were. -/
theorem eraseSectors_clearing (F : Faithful L sector uu chip) (T : Truthful L sector chip) :
    ∀ (n i : ℕ) (h : Host (Wire δ)), i + n ≤ 2 ^ 31 → Idle chip h →
      (∀ s, i ≤ s → (Blank sector (chip h.env.dev).flash s ↔ blank s)) → ∃ ret h',
        eraseSectors (L.sys O) n i h = .ok ret h' ∧ Clearing sector chip blank i n h ret h'
  | 0, i, h, _, _, _ =>
    ⟨0, h, rfl, 0, [], (List.append_nil _).symm, .done i, .refl i _⟩
  | n + 1, i, h, hle, hidle, hblank => by
    have hs {s : ℕ} {h₁ : Host (Wire δ)}
        (ho : Obeyed L sector chip (.blankCheck (toUnsigned i) (toUnsigned i)) h s h₁) :
        s = 0 ↔ blank i := (ho.blank_iff T (by omega) hidle).trans (hblank i (Nat.le_refl i))
    cases eraseSectors_turn (O := O) F hidle n i with
    | @skipped h₁ ho hturn =>
      have hf₁ := ho.flash rfl
      have hb := (hs ho).1 rfl
      obtain ⟨ret, h', hrun, k, texts, htexts, hc, hrest⟩ := eraseSectors_clearing F T n (i + 1) h₁
        (by omega) (ho.idle hidle.expects) fun s hs => by rw [hf₁]; exact hblank s (by omega)
      have hi := blankUpTo_of_blank ((hblank i (Nat.le_refl i)).2 hb)
      rw [hf₁] at hrest
      refine ⟨ret, h', hturn.trans hrun, k + 1, _, ho.heardText.trans htexts, .skipped hb hc, ?_⟩
      rw [show i + (k + 1) = i + 1 + k by omega]
      exact hi.next hrest (by omega)
    | @unprepared s s' h₁ h₂ h₃ hfound ho₃ hs' hturn =>
      refine ⟨_, h₃, hturn, 0, _, hfound.heardText.trans ho₃.heardText,
        .unprepared (fun hb => hfound.used ((hs hfound.check).2 hb)) (by exact_mod_cast hs'), ?_⟩
      rw [ho₃.flash rfl, hfound.flash]
      exact .refl i _
    | @unerased s s' h₁ h₂ h₃ h₄ hfound ho₃ ho₄ hs' hturn =>
      refine ⟨_, h₄, hturn, 0, _, (hfound.heardText.trans ho₃.heardText).trans ho₄.heardText,
        .unerased (fun hb => hfound.used ((hs hfound.check).2 hb)) (by exact_mod_cast hs'), ?_⟩
      rw [ho₄.refused hs', ho₃.flash rfl, hfound.flash]
      exact .refl i _
    | @erased s h₁ h₂ h₃ h₄ hfound ho₃ ho₄ hturn =>
      have hi : BlankUpTo sector i (i + 1) (chip h.env.dev).flash (chip h₄.env.dev).flash := by
        rw [(ho₄.done rfl).2, ← hfound.flash, ← ho₃.flash rfl]
        exact blankUpTo_erase (by omega) _
      obtain ⟨ret, h', hrun, k, texts, htexts, hc, hrest⟩ := eraseSectors_clearing F T n (i + 1) h₄
        (by omega) (ho₄.idle (ho₃.idle hfound.idle.expects).expects) fun s hs =>
          (hi.blank_iff (.inr hs)).trans (hblank s (by omega))
      refine ⟨ret, h', hturn.trans hrun, k + 1, _,
        ((hfound.heardText.trans ho₃.heardText).trans ho₄.heardText).trans htexts,
        .erased (fun hb => hfound.used ((hs hfound.check).2 hb)) hc, ?_⟩
      rw [show i + (k + 1) = i + 1 + k by omega]
      exact hi.next hrest (by omega)

/-- `erase_flash` erases just what is not blank, each sector once and in order, and touches nothing behind
the sector where a command is refused. -/
theorem eraseFlash_clears (F : Faithful L sector uu chip) (T : Truthful L sector chip)
    (hidle : Idle chip h) (part : PartDesc) (hn : part.flashNbSectors.toNat < 2 ^ 31) :
    ∃ ret h' texts, eraseFlash (L.sys O) part h = .ok ret h' ∧ Heard h h' texts ∧
      Clears sector part.flashNbSectors.toNat (chip h.env.dev).flash (chip h'.env.dev).flash ret
        texts := by
  obtain ⟨s, h₁, hunlock, ho⟩ := ispCmdUnlock_obeyed O F hidle 1
  have hcount : (toInt part.flashNbSectors.toNat).toNat = part.flashNbSectors.toNat := by
    rw [toInt_of_lt hn, Int.toNat_natCast]
  have hf₁ := ho.flash rfl
  unfold eraseFlash
  rw [bind_ok hunlock, hcount]
  by_cases hs : s = 0
  · subst hs
    have hsame : ∀ s, 0 ≤ s → (Blank sector (chip h₁.env.dev).flash s ↔
        Blank sector (chip h.env.dev).flash s) := fun s _ => by rw [hf₁]
    obtain ⟨ret, h', hrun, k, texts, htexts, hc, hb⟩ := eraseSectors_clearing (O := O) F T
      part.flashNbSectors.toNat 0 h₁ (by omega) (ho.idle hidle.expects) hsame
    rw [hf₁, Nat.zero_add] at hb
    refine ⟨ret, h', _, hrun, ho.heardText.trans htexts, fun h0 s hlt => ?_, fun h0 => ?_,
      fun s hlt hblank => ⟨?_, ?_⟩, fun hret => .inr ⟨k, ?_⟩⟩
    · exact hb.blank s (Nat.zero_le s) (by rw [(hc.success h0).1]; exact hlt)
    · rw [written, List.range_eq_range']
      exact (hc.success h0).2
    · exact List.not_mem_cons_of_ne_of_not_mem (fun he => by cases (List.cons.inj he).1)
        (hc.kept (by omega) (by omega) hblank (by decide))
    · exact List.not_mem_cons_of_ne_of_not_mem (fun he => by cases (List.cons.inj he).1)
        (hc.kept (by omega) (by omega) hblank (by decide))
    · obtain ⟨hk, hlast⟩ := hc.failure hret
      rw [Nat.zero_add] at hlast
      refine ⟨hk, ?_, fun a t ha hlt => hb.rest a fun s hs => ?_⟩
      · have hcons (text t : List UInt8) (h : texts.getLast? = some t) :
            ([text] ++ texts).getLast? = some t := by
          rw [List.getLast?_append, h]
          rfl
        exact hlast.imp (hcons _ _) (hcons _ _)
      · rw [ha] at hs
        cases hs
        omega
  · rw [if_pos hs, if_pos (by decide)]
    refine ⟨-1, h₁, _, rfl, ho.heardText, fun h0 => absurd h0 (by decide), fun h0 => absurd h0 (by decide),
      fun s _ _ => ⟨?_, ?_⟩, fun _ => .inl ⟨rfl, hf₁⟩⟩
    · exact List.not_mem_cons_of_ne_of_not_mem (fun he => by cases (List.cons.inj he).1) List.not_mem_nil
    · exact List.not_mem_cons_of_ne_of_not_mem (fun he => by cases (List.cons.inj he).1) List.not_mem_nil

end Device

theorem bootloader_truthful (sector : UInt32 → Option ℕ) (uu : ℕ) :
    Truthful (bootloader sector uu) sector id :=
  fun c _ _ => bootloader_willing.command c _

/-- An LPC810 with nothing in its first sector. -/
noncomputable def partBlank : Host (Wire Chip) :=
  .start (.quiet ⟨fun a => if a < 0x400 then 0xFF else 0, fun _ => 0, none⟩) 0 0 0

theorem eraseFlash_clears_partBlank : ∃ ret h' texts,
    eraseFlash ((bootloader lpc810.sectorAt 0).sys (Sys.plain _)) lpc810 partBlank = .ok ret h' ∧
      Heard partBlank h' texts ∧ Clears lpc810.sectorAt lpc810.flashNbSectors.toNat
        partBlank.env.dev.flash h'.env.dev.flash ret texts :=
  eraseFlash_clears bootloader_faithful (bootloader_truthful _ _) ⟨rfl, rfl, rfl⟩ lpc810
    (by decide)

end LpcTools
