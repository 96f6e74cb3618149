import LpcTools.Proofs.Commanding

/-!
# Erasing a faithful device

`erase_flash` looks at one sector after the other. The flash never gets anything but erased bytes, and
with success the sectors seen are blank.
-/

namespace LpcTools

open Run Decimal Uuencode

/-- Some bytes in the first `n` sectors have been erased, and nothing else has been done. -/
def Erased (sector : UInt32 → Option ℕ) (n : ℕ) (f f' : UInt32 → UInt8) : Prop :=
  ∀ a, f' a = f a ∨ f' a = 0xFF ∧ ∃ s < n, sector a = some s

theorem Erased.refl (sector : UInt32 → Option ℕ) (n : ℕ) (f : UInt32 → UInt8) :
    Erased sector n f f := fun _ => .inl rfl

theorem Erased.trans {sector : UInt32 → Option ℕ} {n : ℕ} {f f' f'' : UInt32 → UInt8}
    (e : Erased sector n f f') (e' : Erased sector n f' f'') : Erased sector n f f'' := by
  intro a
  rcases e' a with h | h
  · rw [h]
    exact e a
  · exact .inr h

variable {δ : Type} {L : Line δ} {O : Sys (Wire δ)} {sector : UInt32 → Option ℕ} {uu : ℕ}
  {chip : δ → Chip} {refusals : δ → ℕ} {h h₁ h' : Host (Wire δ)} {N n i : ℕ} {ret : ℤ}

/-- The flash is that at `h`, but for erased bytes. -/
def OnlyErased (sector : UInt32 → Option ℕ) (chip : δ → Chip) (N : ℕ) (h : Host (Wire δ)) (d : δ) :
    Prop := Erased sector N (chip h.env.dev).flash (chip d).flash

theorem OnlyErased.refl (h : Host (Wire δ)) : OnlyErased sector chip N h h.env.dev :=
  Erased.refl _ _ _

/-- How a run over the `n` sectors from `i` on ends, of a flash of `N`. -/
structure Swept (L : Line δ) (sector : UInt32 → Option ℕ) (chip : δ → Chip) (refusals : δ → ℕ)
    (N i n : ℕ) (h : Host (Wire δ)) (ret : ℤ) (h' : Host (Wire δ)) : Prop where
  passed : Passed L (OnlyErased sector chip N h) h h'
  idle : ret = 0 → Idle chip h'
  blank : ret = 0 → ∀ a s, sector a = some s → i ≤ s → s < i + n → (chip h'.env.dev).flash a = 0xFF
  willing : Willing L sector chip refusals →
    ret = 0 ∧ h'.resendRequestedForBlock = h.resendRequestedForBlock

theorem Passed.erased_trans (p : Passed L (OnlyErased sector chip N h) h h₁)
    (q : Passed L (OnlyErased sector chip N h₁) h₁ h') : Passed L (OnlyErased sector chip N h) h h' := by
  have hlast := p.last (OnlyErased.refl h)
  exact p.trans (q.mono fun d hd => Erased.trans hlast hd)

theorem Obeyed.erased {c : Command} {s : ℕ} (ho : Obeyed L sector chip c h s h₁)
    (heffect : Erased sector N (chip h.env.dev).flash (c.effect sector (chip h.env.dev)).flash) :
    Passed L (OnlyErased sector chip N h) h h₁ := by
  refine ho.passed ?_
  by_cases hs : s = 0
  · rw [OnlyErased, (ho.done hs).2]
    exact heffect
  · rw [OnlyErased, ho.refused hs]
    exact .refl _ _ _

/-- A run that stops on the way. -/
theorem Swept.stop (hp : Passed L (OnlyErased sector chip N h) h h') (hret : ret ≠ 0)
    (hw : ¬ Willing L sector chip refusals) : Swept L sector chip refusals N i n h ret h' :=
  ⟨hp, fun h0 => absurd h0 hret, fun h0 => absurd h0 hret, fun h => absurd h hw⟩

/-- The run goes on behind a sector that is blank. -/
theorem Swept.next (hp : Passed L (OnlyErased sector chip N h) h h₁)
    (hblank : ∀ a, sector a = some i → (chip h₁.env.dev).flash a = 0xFF)
    (hrequested : Willing L sector chip refusals →
      h₁.resendRequestedForBlock = h.resendRequestedForBlock)
    (hs : Swept L sector chip refusals N (i + 1) n h₁ ret h') :
    Swept L sector chip refusals N i (n + 1) h ret h' := by
  refine ⟨hp.erased_trans hs.passed, hs.idle, fun h0 a s ha hle hlt => ?_, fun hw => ?_⟩
  · by_cases hi : s = i
    · have hlast := hs.passed.last (OnlyErased.refl h₁) a
      rw [hblank a (by rw [ha, hi])] at hlast
      exact hlast.elim id And.left
    · exact hs.blank h0 a s ha (by omega) (by omega)
  · exact ⟨(hs.willing hw).1, (hs.willing hw).2.trans (hrequested hw)⟩

theorem inSectors_self {a : UInt32} (hi : i < 2 ^ 31) :
    Command.InSectors sector (toUnsigned i) (toUnsigned i) a ↔ sector a = some i := by
  have hval : (toUnsigned i).toNat = i := by
    rw [toUnsigned_natCast, UInt32.toNat_ofNat', Nat.mod_eq_of_lt (by omega)]
  rw [Command.InSectors, hval]
  constructor
  · rintro ⟨s, hs, hle, hge⟩
    rw [hs, Nat.le_antisymm hge hle]
  · intro ha
    exact ⟨i, ha, Nat.le_refl i, Nat.le_refl i⟩

theorem erased_effect (hi : i < N) (hN : N < 2 ^ 31) (c : Chip) : Erased sector N c.flash
    ((Command.erase (toUnsigned i) (toUnsigned i)).effect sector c).flash := by
  intro a
  by_cases ha : Command.InSectors sector (toUnsigned i) (toUnsigned i) a
  · exact .inr ⟨if_pos ha, i, hi, (inSectors_self (by omega)).1 ha⟩
  · exact .inl (if_neg ha)

/-- The sector is not blank, and all of the answer that says so has been read. -/
structure FoundUsed (L : Line δ) (sector : UInt32 → Option ℕ) (chip : δ → Chip) (i : ℕ)
    (h : Host (Wire δ)) (s : ℕ) (h₁ h₂ : Host (Wire δ)) : Prop where
  check : Obeyed L sector chip (.blankCheck (toUnsigned i) (toUnsigned i)) h s h₁
  used : s ≠ 0
  idle : Idle chip h₂
  dev : h₂.env.dev = h₁.env.dev
  heard : h₂.env.heard = h₁.env.heard
  requested : h₂.resendRequestedForBlock = h₁.resendRequestedForBlock

/-- How the run goes on over `n + 1` sectors: by what becomes of the first. -/
inductive SectorTurn (L : Line δ) (O : Sys (Wire δ)) (sector : UInt32 → Option ℕ) (chip : δ → Chip)
    (n i : ℕ) (h : Host (Wire δ)) (r : EStateM.Result Fault (Host (Wire δ)) ℤ) : Prop
  | skipped {h₁ : Host (Wire δ)}
      (check : Obeyed L sector chip (.blankCheck (toUnsigned i) (toUnsigned i)) h 0 h₁)
      (run : r = eraseSectors (L.sys O) n (i + 1) h₁)
  | unprepared {s s' : ℕ} {h₁ h₂ h₃ : Host (Wire δ)} (found : FoundUsed L sector chip i h s h₁ h₂)
      (prepare : Obeyed L sector chip (.prepare (toUnsigned i) (toUnsigned i)) h₂ s' h₃)
      (refused : s' ≠ 0) (run : r = .ok s' h₃)
  | unerased {s s' : ℕ} {h₁ h₂ h₃ h₄ : Host (Wire δ)} (found : FoundUsed L sector chip i h s h₁ h₂)
      (prepare : Obeyed L sector chip (.prepare (toUnsigned i) (toUnsigned i)) h₂ 0 h₃)
      (erase : Obeyed L sector chip (.erase (toUnsigned i) (toUnsigned i)) h₃ s' h₄)
      (refused : s' ≠ 0) (run : r = .ok s' h₄)
  | erased {s : ℕ} {h₁ h₂ h₃ h₄ : Host (Wire δ)} (found : FoundUsed L sector chip i h s h₁ h₂)
      (prepare : Obeyed L sector chip (.prepare (toUnsigned i) (toUnsigned i)) h₂ 0 h₃)
      (erase : Obeyed L sector chip (.erase (toUnsigned i) (toUnsigned i)) h₃ 0 h₄)
      (run : r = eraseSectors (L.sys O) n (i + 1) h₄)

theorem eraseSectors_turn (F : Faithful L sector uu chip) (hi : Idle chip h) (n i : ℕ) :
    SectorTurn L O sector chip n i h (eraseSectors (L.sys O) (n + 1) i h) := by
  obtain ⟨s, h₁, hcheck, ho⟩ := ispSendCmdSectors_obeyed O F hi
    (c := .blankCheck (toUnsigned i) (toUnsigned i)) 1 (Int.le_refl (i : ℤ)) rfl
  rw [eraseSectors, bind_ok hcheck]
  by_cases hs : s = 0
  · subst hs
    exact .skipped ho rfl
  rw [if_neg (by exact_mod_cast hs), if_neg (by omega)]
  obtain ⟨r, h₂, hmore, hi₂, hdev, hheard, hrequested⟩ := ho.drained (O := O) F hs hi
  have hfound : FoundUsed L sector chip i h s h₁ h₂ := ⟨ho, hs, hi₂, hdev, hheard, hrequested⟩
  obtain ⟨s', h₃, hprepare, ho₃⟩ := ispSendCmdSectors_obeyed O F hi₂
    (c := .prepare (toUnsigned i) (toUnsigned i)) 1 (Int.le_refl (i : ℤ)) rfl
  rw [bind_ok hmore, bind_ok hprepare]
  by_cases hs' : s' = 0
  · subst hs'
    obtain ⟨s'', h₄, herase, ho₄⟩ := ispSendCmdSectors_obeyed O F (ho₃.idle hi₂.expects)
      (c := .erase (toUnsigned i) (toUnsigned i)) 1 (Int.le_refl (i : ℤ)) rfl
    rw [if_neg (by decide), bind_ok herase]
    by_cases hs'' : s'' = 0
    · subst hs''
      exact .erased hfound ho₃ ho₄ rfl
    · rw [if_pos (by exact_mod_cast hs'')]
      exact .unerased hfound ho₃ ho₄ hs'' rfl
  · rw [if_pos (by exact_mod_cast hs')]
    exact .unprepared hfound ho₃ hs' rfl

theorem FoundUsed.passed {s : ℕ} {h₂ : Host (Wire δ)} (u : FoundUsed L sector chip i h s h₁ h₂) :
    Passed L (OnlyErased sector chip N h) h h₂ :=
  (u.check.erased (.refl _ _ _)).trans (.of_env u.heard u.dev)

variable (refusals)

theorem eraseSectors_swept (F : Faithful L sector uu chip) (hN : N < 2 ^ 31) :
    ∀ (n i : ℕ) (h : Host (Wire δ)), i + n ≤ N → Idle chip h → ∃ ret h',
      eraseSectors (L.sys O) n i h = .ok ret h' ∧ Swept L sector chip refusals N i n h ret h'
  | 0, i, h, _, hi => by
    refine ⟨0, h, rfl, .refl h, fun _ => hi, fun _ a s _ hle hlt => ?_, fun _ => ⟨rfl, rfl⟩⟩
    omega
  | n + 1, i, h, hle, hi => by
    have hin (a : UInt32) : Command.InSectors sector (toUnsigned i) (toUnsigned i) a ↔
        sector a = some i := inSectors_self (by omega)
    cases eraseSectors_turn (O := O) F hi n i with
    | @skipped h₁ ho hturn =>
      obtain ⟨hblank, hchip⟩ := ho.done rfl
      obtain ⟨ret, h', hrun, hswept⟩ := eraseSectors_swept F hN n (i + 1) h₁ (by omega)
        (ho.idle hi.expects)
      refine ⟨ret, h', hturn.trans hrun,
        .next (ho.erased (.refl _ _ _)) (fun a ha => ?_) (fun _ => ho.requested) hswept⟩
      rw [hchip]
      exact hblank a ((hin a).2 ha)
    | unprepared hfound ho₃ hs' hturn =>
      exact ⟨_, _, hturn, .stop (hfound.passed.erased_trans (ho₃.erased (.refl _ _ _)))
        (by exact_mod_cast hs') fun hw => hs' (ho₃.willing hw hfound.idle trivial)⟩
    | unerased hfound ho₃ ho₄ hs'' hturn =>
      have hp₃ := hfound.passed.erased_trans (N := N) (ho₃.erased (.refl _ _ _))
      exact ⟨_, _, hturn, .stop (hp₃.erased_trans (ho₄.erased (erased_effect (by omega) hN _)))
        (by exact_mod_cast hs'') fun hw =>
          hs'' (ho₄.willing hw (ho₃.idle hfound.idle.expects) trivial)⟩
    | @erased s h₁ h₂ h₃ h₄ hfound ho₃ ho₄ hturn =>
      have hp₃ := hfound.passed.erased_trans (N := N) (ho₃.erased (.refl _ _ _))
      obtain ⟨-, hchip⟩ := ho₄.done rfl
      obtain ⟨ret, h', hrun, hswept⟩ := eraseSectors_swept F hN n (i + 1) h₄ (by omega)
        (ho₄.idle (ho₃.idle hfound.idle.expects).expects)
      refine ⟨ret, h', hturn.trans hrun, .next
        (hp₃.erased_trans (ho₄.erased (erased_effect (by omega) hN _))) (fun a ha => ?_)
        (fun _ => ?_) hswept⟩
      · rw [hchip]
        exact if_pos ((hin a).2 ha)
      · rw [ho₄.requested, ho₃.requested, hfound.requested, hfound.check.requested]

/-- The number of sectors that `erase_flash` goes over. -/
def PartDesc.sectors (part : PartDesc) : ℕ := (toInt part.flashNbSectors.toNat).toNat

theorem eraseFlash_swept (F : Faithful L sector uu chip) (hi : Idle chip h) (part : PartDesc) :
    ∃ ret h', eraseFlash (L.sys O) part h = .ok ret h' ∧
      Swept L sector chip refusals part.sectors 0 part.sectors h ret h' := by
  have hN : part.sectors < 2 ^ 31 := by
    have := toInt_range part.flashNbSectors.toNat
    rw [PartDesc.sectors]
    omega
  obtain ⟨s, h₁, hunlock, ho⟩ := ispCmdUnlock_obeyed O F hi 1
  have hp₁ : Passed L (OnlyErased sector chip part.sectors h) h h₁ := ho.erased (.refl _ _ _)
  unfold eraseFlash
  rw [bind_ok hunlock]
  by_cases hs : s = 0
  · subst hs
    obtain ⟨ret, h', hrun, hswept⟩ := eraseSectors_swept (O := O) refusals F hN part.sectors 0 h₁
      (by omega) (ho.idle hi.expects)
    refine ⟨ret, h', hrun, hp₁.erased_trans hswept.passed, hswept.idle, hswept.blank, fun hw => ?_⟩
    exact ⟨(hswept.willing hw).1, (hswept.willing hw).2.trans ho.requested⟩
  · rw [if_pos hs, if_pos (by decide)]
    exact ⟨-1, h₁, rfl, .stop hp₁ (by decide) fun hw => hs (ho.willing hw hi trivial)⟩

end LpcTools
