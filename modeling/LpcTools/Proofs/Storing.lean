import LpcTools.Proofs.Commanding

/-!
# A transfer to a faithful device

The blocks that are accepted are stored one behind the other, so with all of them accepted the RAM
holds the data. The flash stays as it is, however the transfer ends.
-/

namespace LpcTools

open Run Decimal Uuencode

/-- The device with the first `k` blocks of a transfer stored. -/
def Chip.stored (c : Chip) (m : ℕ → UInt8) (addr : UInt32) (count k : ℕ) : Chip :=
  { c with
    ram := place c.ram addr (slice m 0 (min (900 * k) count))
    expects :=
      if count ≤ 900 * k then none else some (addr + UInt32.ofNat (900 * k), count - 900 * k) }

section Stored

variable {c : Chip} {m : ℕ → UInt8} {addr : UInt32} {count k : ℕ}

theorem place_nil (f : UInt32 → UInt8) (addr : UInt32) : place f addr [] = f := by
  funext a
  exact place_of_le (Nat.zero_le _)

theorem Chip.stored_zero (sector : UInt32 → Option ℕ) (m : ℕ → UInt8) (addr count : UInt32)
    (c : Chip) : (Command.write addr count).effect sector c = c.stored m addr count.toNat 0 := by
  have hzero : count = 0 ↔ count.toNat ≤ 900 * 0 := by
    rw [← UInt32.toNat_inj, UInt32.toNat_zero]
    omega
  rw [Command.effect, Chip.stored, Nat.mul_zero, Nat.zero_min]
  simp only [slice, List.range_zero, List.map_nil, place_nil, Nat.sub_zero]
  by_cases h : count = 0
  · rw [if_pos h, if_pos (by simpa using hzero.1 h)]
  · rw [if_neg h, if_neg (by simpa using mt hzero.2 h), show UInt32.ofNat 0 = 0 from rfl,
      UInt32.add_zero]

theorem lt_of_nbBlocks (hk : k < nbBlocks count) : 900 * k < count := by
  rw [nbBlocks] at hk
  omega

/-- The next block goes behind the blocks before. -/
theorem Chip.stored_receive (c : Chip) (m : ℕ → UInt8) (addr : UInt32)
    (hk : k < nbBlocks count) (hcount : count < 2 ^ 32) :
    (c.stored m addr count k).receive (block m count k) = c.stored m addr count (k + 1) := by
  have hlt := lt_of_nbBlocks hk
  have hlen : (block m count k).length = min (count - 900 * k) 900 := slice_length ..
  have hbefore : (slice m 0 (min (900 * k) count)).length = 900 * k := by
    rw [slice_length]
    omega
  have hplace : place (place c.ram addr (slice m 0 (min (900 * k) count)))
      (addr + UInt32.ofNat (900 * k)) (block m count k) =
      place c.ram addr (slice m 0 (min (900 * (k + 1)) count)) := by
    rw [← slice_block, ← place_append (by omega), hbefore]
  have hexpects : (c.stored m addr count k).expects =
      some (addr + UInt32.ofNat (900 * k), count - 900 * k) := if_neg (by omega)
  rw [Chip.receive, hexpects]
  simp only [Chip.stored, hplace, Chip.mk.injEq, true_and]
  by_cases hlast : count ≤ 900 * (k + 1)
  · rw [if_pos hlast, if_pos (by omega)]
  · have hfull : (block m count k).length = 900 := by omega
    rw [if_neg hlast, if_neg (by omega), hfull, UInt32.add_assoc, ← UInt32.ofNat_add, Nat.mul_succ,
      Nat.sub_sub]

theorem Chip.stored_all (hk : nbBlocks count ≤ k) :
    c.stored m addr count k = { c with ram := place c.ram addr (slice m 0 count), expects := none } := by
  have hle : count ≤ 900 * k := by
    rw [nbBlocks] at hk
    omega
  rw [Chip.stored, if_pos hle, Nat.min_eq_right hle]

end Stored

variable {δ : Type} {L : Line δ} {O : Sys (Wire δ)} {sector : UInt32 → Option ℕ} {uu : ℕ}
  {chip : δ → Chip} {refusals : δ → ℕ} {h h' : Host (Wire δ)} {m : ℕ → UInt8} {count : UInt32}

/-- Between two exchanges of a transfer requested at `start`. -/
structure Storing (L : Line δ) (sector : UInt32 → Option ℕ) (chip : δ → Chip) (refusals : δ → ℕ)
    (m : ℕ → UInt8) (addr count : UInt32) (start : Host (Wire δ)) (ds : List Bool)
    (h : Host (Wire δ)) : Prop where
  nextReadChar : h.nextReadChar = 0
  pending : h.env.pending = []
  stored : chip h.env.dev = (chip start.env.dev).stored m addr count.toNat (ds.count true)
  passed : Passed L (Unwritten chip start) start h
  few : Willing L sector chip refusals → refusedSince ds ≤ refusals h.env.dev

/-- The host has counted the refusals, if it counts from 0. -/
def Counting (start : Host (Wire δ)) (ds : List Bool) (h : Host (Wire δ)) : Prop :=
  start.resendRequestedForBlock = 0 → h.resendRequestedForBlock = refusedSince ds

theorem counting_takes (start : Host (Wire δ)) : Takes L m count.toNat (Counting start) := by
  intro ds h h₁ text hs _ _ hp
  constructor
  · intro _
    rw [refusedSince_snoc]
    rfl
  · intro h0
    rw [refusedSince_snoc]
    exact congrArg (· + 1) (hp.requested.trans (hs h0))

theorem exchanges_stored (F : Faithful L sector uu chip) (huu : uu ≠ 0) (O : Sys (Wire δ))
    (m : ℕ → UInt8) (addr count : UInt32) (start : Host (Wire δ)) :
    Exchanges L O m count.toNat (Storing L sector chip refusals m addr count start) fun _ => False where
  bad_of_grows := fun _ hbad => hbad
  of_env := by
    intro ds h h' hW henv hnext
    refine ⟨hnext.trans hW.nextReadChar, henv ▸ hW.pending, henv ▸ hW.stored, ?_, henv ▸ hW.few⟩
    exact hW.passed.trans (.of_env (by rw [henv]) (by rw [henv]))
  turn := by
    intro ds h text hW hlt hc
    have hcount := count.toNat_lt
    have hk := lt_of_nbBlocks hlt
    have hexpects : (chip h.env.dev).expects =
        some (addr + UInt32.ofNat (900 * ds.count true), count.toNat - 900 * ds.count true) := by
      rw [hW.stored]
      exact if_neg (by omega)
    obtain ⟨accepted, d', hhear, hchip⟩ := F.block huu h.env.dev _ _ text _ hexpects hc
      (slice_length ..)
    have hstored : chip d' = (chip start.env.dev).stored m addr count.toNat
        ((ds ++ [accepted]).count true) := by
      rw [hchip, hW.stored, List.count_append]
      rcases accepted with _ | _
      · rfl
      · rw [if_pos rfl, Chip.stored_receive _ _ _ hlt hcount]
        rfl
    refine exchange_whole F.prompt hW.nextReadChar hW.pending hhear fun h₁ hR hpend hdev => ?_
    refine ⟨hR.nextReadChar.trans hW.nextReadChar, hpend, by rw [hdev, hstored], ?_, fun hw => ?_⟩
    · have hheard : h₁.env.heard = h.env.heard ++ [(text, h.env.unread)] := hR.heard
      refine hW.passed.trans (.single hheard (by rw [hdev, hhear]) ?_)
      rw [hdev, Unwritten, hstored]
      rfl
    · rw [refusedSince_snoc, hdev]
      rcases accepted with _ | _
      · rw [if_neg (by decide), hw.refuse h.env.dev _ _ text _ d' hexpects hc
          (slice_length ..) hhear]
        exact Nat.succ_le_succ (hW.few hw)
      · exact Nat.zero_le _

/-- How a transfer of `count` bytes of `m` to `addr` ends. -/
structure Stored (L : Line δ) (sector : UInt32 → Option ℕ) (chip : δ → Chip) (refusals : δ → ℕ)
    (m : ℕ → UInt8) (addr count : UInt32) (h : Host (Wire δ)) (ret : ℤ) (h' : Host (Wire δ)) :
    Prop where
  passed : Passed L (Unwritten chip h) h h'
  idle : ret = 0 → Idle chip h'
  ram : ret = 0 → (chip h'.env.dev).ram = place (chip h.env.dev).ram addr (slice m 0 count.toNat)
  willing : Willing L sector chip refusals → h.resendRequestedForBlock = 0 →
    ret = 0 ∧ h'.resendRequestedForBlock = 0

section Transfers

variable {data : Mem} {addr : UInt32}

/-- What is left to do when the device has granted the request. -/
theorem Storing.start (hg : Obeyed L sector chip (.write addr count) h 0 h') :
    Storing L sector chip refusals m addr count h [] h' := by
  obtain ⟨-, hchip⟩ := hg.done rfl
  rw [Chip.stored_zero sector m] at hchip
  exact ⟨hg.nextReadChar, hg.pending_zero, hchip, hg.unwritten rfl, fun _ => Nat.zero_le _⟩

variable (refusals)

/-- Blocks that are sent encoded. -/
theorem sendLoop_stored (F : Faithful L sector uu chip) (huu : uu ≠ 0)
    (hdata : ∀ i c, data i = some c → m i = c) (hcount : count ≠ 0)
    (hg : Obeyed L sector chip (.write addr count) h 0 h') :
    ((∃ i < count.toNat + 2, data i = none) ∧ ∃ h'',
      (sendLoop (L.sys O) data count (getNbBlocks count)).run ⟨0, 0⟩ h' = .error .source h'' ∧
      Passed L (Unwritten chip h) h h'') ∨
    ∃ ret h'', (sendLoop (L.sys O) data count (getNbBlocks count)).run ⟨0, 0⟩ h' = .ok ret h'' ∧
      Stored L sector chip refusals m addr count h ret h'' := by
  have hpos : 0 < nbBlocks count.toNat := by
    have : count.toNat ≠ 0 := fun h0 => hcount (UInt32.toNat_inj.1 h0)
    rw [nbBlocks]
    omega
  have hstart : Storing L sector chip refusals m addr count h [] h' := .start hg
  have hcounting : Counting h [] h' := hg.requested.trans
  rcases sendLoop_turns (exchanges_stored F huu O m addr count h) (counting_takes h) hdata ⟨0, 0⟩ h' []
    .start (Nat.zero_le _) hcounting hstart with hbad | ⟨hnone, h'', ds, hrun, hW⟩ |
    ⟨ret, h'', ds, hrun, hs, hW, hle, hret, hlast, hthree⟩
  · exact hbad.elim
  · exact .inl ⟨hnone, h'', hrun, hW.passed⟩
  · right
    have hall (h0 : ret = 0) : chip h''.env.dev =
        { chip h.env.dev with
          ram := place (chip h.env.dev).ram addr (slice m 0 count.toNat), expects := none } := by
      rw [hW.stored, Chip.stored_all (Nat.le_of_eq (hret.1 h0).symm)]
    refine ⟨ret, h'', hrun, hW.passed, fun h0 => ⟨hW.nextReadChar, hW.pending, by rw [hall h0]⟩,
      fun h0 => by rw [hall h0], fun hw hzero => ?_⟩
    have hfew := hW.few hw
    have htwo := hw.few h''.env.dev
    have h0 : ret = 0 := by
      by_contra hne
      have := hthree hne
      rw [hs hzero] at this
      omega
    refine ⟨h0, (hs hzero).trans ?_⟩
    rcases hlast h0 with rfl | ⟨before, rfl⟩
    · rfl
    · rw [refusedSince_snoc, if_pos rfl]

/-- Data that is sent as it is. -/
theorem ispSerialWrite_stored (F : Faithful L sector uu chip) (huu : uu = 0)
    (hcount : count ≠ 0) (hg : Obeyed L sector chip (.write addr count) h 0 h') :
    Stored L sector chip refusals m addr count h 0 ((L.told h' (slice m 0 count.toNat)).emit (.sent true)) := by
  obtain ⟨-, hchip⟩ := hg.done rfl
  have hexpects : (chip h'.env.dev).expects = some (addr, count.toNat) := by
    rw [hchip, Command.effect]
    exact if_neg hcount
  obtain ⟨d', hhear, hreceived⟩ := F.raw huu h'.env.dev addr _ _ hexpects (slice_length m 0 count.toNat)
  rw [Chip.receive, hexpects] at hreceived
  simp only [slice_length, Nat.le_refl, if_true] at hreceived
  have hdev : (L.told h' (slice m 0 count.toNat)).env.dev = d' := by
    rw [Line.told, Line.wrote, hhear]
  refine ⟨(hg.unwritten rfl).trans (.single rfl rfl ?_), fun _ => ⟨hg.nextReadChar, ?_, ?_⟩, fun _ => ?_,
    fun _ h0 => ⟨rfl, hg.requested.trans h0⟩⟩
  · change Unwritten chip h (L.told h' (slice m 0 count.toNat)).env.dev
    rw [hdev, Unwritten, hreceived, hchip]
    rfl
  · change (L.told h' (slice m 0 count.toNat)).env.pending = []
    rw [Line.told, Line.wrote, hhear, hg.pending_zero]
    rfl
  · change (chip (L.told h' (slice m 0 count.toNat)).env.dev).expects = none
    rw [hdev, hreceived]
  · change (chip (L.told h' (slice m 0 count.toNat)).env.dev).ram = _
    rw [hdev, hreceived, hchip]
    rfl

end Transfers

variable (refusals)

/-- What can be read of a memory, with zeros for the rest. -/
theorem Mem.getD_eq (data : Mem) (i : ℕ) (c : UInt8) (hc : data i = some c) : (data i).getD 0 = c := by
  rw [hc, Option.getD_some]

/-- How many bytes the encoder may look at past the end of its data. -/
def overRead (uu : ℕ) : ℕ := if uu = 0 then 0 else 2

/-- A transfer stores the data where it succeeds, and leaves the flash alone. It breaks off only where
the data cannot be read. -/
theorem ispSendBufToRam_stored (F : Faithful L sector uu chip) (hi : Idle chip h) {data : Mem}
    (hdata : ∀ i c, data i = some c → m i = c) (addr : ℕ) (hcount : count ≠ 0) :
    ((∃ i < count.toNat + overRead uu, data i = none) ∧ ∃ h',
      ispSendBufToRam (L.sys O) data addr count uu h = .error .source h' ∧
      Passed L (Unwritten chip h) h h') ∨
    ∃ ret h', ispSendBufToRam (L.sys O) data addr count uu h = .ok ret h' ∧
      Stored L sector chip refusals m (UInt32.ofNat addr) count h ret h' := by
  obtain ⟨s, h₁, hsend, ho⟩ := ispSendCmdTwoArgs_obeyed O F hi
    (show (Command.write (UInt32.ofNat addr) count).text = _ from rfl)
  by_cases hs : s = 0
  · subst hs
    by_cases huu : uu = 0
    · unfold ispSendBufToRam
      rw [bind_ok hsend, if_neg (by decide), if_pos huu]
      rcases mapM_part hdata (List.range count.toNat) with hmap | ⟨hnone, k, hk, hmem⟩
      · right
        rw [hmap, mapM_total]
        refine ⟨0, _, ?_, ispSerialWrite_stored refusals F huu hcount ho⟩
        simp only []
        rw [bind_ok (Line.ispSerialWrite_sys _ _), slice_length, bind_ok (emit_apply _ _)]
        simp
      · left
        rw [hnone]
        exact ⟨⟨k, by rw [List.mem_range] at hk; omega, hmem⟩, h₁, rfl, ho.unwritten rfl⟩
    · rw [ispSendBufToRam_of_grant hsend huu, overRead, if_neg huu]
      exact sendLoop_stored refusals F huu hdata hcount ho
  · right
    refine ⟨-8, h₁, ?_, ho.unwritten rfl, by simp, by simp, ?_⟩
    · unfold ispSendBufToRam
      rw [bind_ok hsend, if_pos (by exact_mod_cast hs)]
      rfl
    · intro hw _
      exact absurd (ho.willing hw hi trivial) hs

end LpcTools
