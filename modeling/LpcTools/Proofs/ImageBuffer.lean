import LpcTools.Proofs.BlockAccounting
import LpcTools.Proofs.ProgVerdicts
import LpcTools.Proofs.WholeFiles

/-!
# The buffer of the image

`flash_target` divides by the number of sectors before any check, reads a word of the image past the
first 0x2FC bytes of a flash that may be smaller, and hands blocks of no multiple of three bytes to an
encoder that reads whole groups. Everything else it does with the image is inside the buffer
(`flashTarget_within_iff`).
-/

namespace LpcTools

open Run Decimal Uuencode

/-- How far the encoder reads, of so many bytes. -/
def wholeGroups (n : ℕ) : ℕ := 3 * ((n + 2) / 3)

/-- All that is read of `count` bytes at a pointer, in the mode `uu`, can be read. -/
def ReadsAll (data : Mem) (count uu : ℕ) : Prop :=
  ∀ k < if uu = 0 then count else wholeGroups count, data k ≠ none

theorem exists_total {data : Mem} {n : ℕ} (h : ∀ k < n, data k ≠ none) :
    ∃ m : ℕ → UInt8, ∀ k < n, data k = some (m k) := by
  refine ⟨fun k => (data k).getD 0, fun k hk => ?_⟩
  rcases hc : data k with _ | c
  · exact absurd hc (h k hk)
  · simp only [hc, Option.getD_some]

theorem exists_unread {data : Mem} {n : ℕ} (h : ¬ ∀ k < n, data k ≠ none) :
    ∃ k < n, data k = none := by
  obtain ⟨k, hk⟩ := not_forall.1 h
  obtain ⟨hlt, hnone⟩ := Classical.not_imp.1 hk
  exact ⟨k, hlt, not_not.1 hnone⟩

section Send

variable {σ : Type} {E : Sys σ} {data : Mem} {count : UInt32} {l : SendLocals} {h : Host σ}

/-- A block is sent if the groups it starts can be read, and nothing else goes wrong. -/
theorem blockToSend_reads (data : Mem) {n : UInt32} (hn : n.toNat ≤ 900) (h : Host σ) :
    (∀ k < wholeGroups n.toNat, data k ≠ none) ∧ (∃ text, blockToSend E data n h = .ok text h) ∨
      (∃ k < wholeGroups n.toNat, data k = none) ∧ blockToSend E data n h = .error .source h := by
  by_cases hall : ∀ k < wholeGroups n.toNat, data k ≠ none
  · refine .inl ⟨hall, ?_⟩
    obtain ⟨m, hread⟩ := exists_total hall
    have hgroups : n.toNat ≤ wholeGroups n.toNat := by
      rw [wholeGroups]
      omega
    have hmap : (List.range n.toNat).mapM data = (List.range n.toNat).mapM (Mem.total m) := by
      rw [mapM_total, mapM_of_some fun i hi => hread i (by rw [List.mem_range] at hi; omega), slice]
      simp only [Nat.zero_add]
    obtain ⟨text, htext, -⟩ := blockToSend_total (E := E) m hn h
    refine ⟨text, htext ▸ ?_⟩
    have hlines : encodeLines data n.toNat 0 = encodeLines (Mem.total m) n.toNat 0 :=
      encodeLines_congr hread 0 (.inl (Nat.dvd_zero 3))
    unfold blockToSend
    rw [bind_ok (uninit_apply _ _ _), bind_ok (uninit_apply _ _ _), ispUuEncode, ispUuEncode, hmap,
      hlines]
  · obtain ⟨k, hlt, hnone⟩ := exists_unread hall
    refine .inr ⟨⟨k, hlt, hnone⟩, ?_⟩
    unfold blockToSend
    rw [bind_ok (uninit_apply _ _ _), ispUuEncode,
      encodeLines_none hnone hlt 0 (Nat.dvd_zero 3) (Nat.zero_le k)]
    rfl

/-- The blocks that have been accepted could be read. -/
def SentReads (data : Mem) (count : ℕ) (l : SendLocals) : Prop :=
  ∃ ds, l.At count ds ∧ ds.count true ≤ nbBlocks count ∧
    ∀ k < min (900 * ds.count true) (wholeGroups count), data k ≠ none

theorem sendTurn_reads (hl : SentReads data count.toNat l) :
    Ends (sendTurn E data count (getNbBlocks count) l h) (fun r _ => Sum.elim
        (SentReads data count.toNat)
        (fun ret => ret = 0 → ∀ k < wholeGroups count.toNat, data k ≠ none) r)
      (fun f _ => f = .source ∧ ∃ k < wholeGroups count.toNat, data k = none) := by
  obtain ⟨ds, hat, hle, hread⟩ := hl
  unfold sendTurn
  by_cases hi : l.i < getNbBlocks count
  · rw [if_pos hi, ← SendLocals.datasize]
    have hlt := hi
    rw [UInt32.lt_iff_toNat_lt, getNbBlocks_toNat, hat.i] at hlt
    obtain ⟨htotal, hsize⟩ := hat.datasize hlt
    have hgroups : 900 * ds.count true + wholeGroups (blockSize count.toNat (ds.count true)) =
        min (900 * (ds.count true + 1)) (wholeGroups count.toNat) := by
      rw [nbBlocks] at hlt
      rw [blockSize, wholeGroups, wholeGroups]
      omega
    have hsmall : (l.datasize count).toNat ≤ 900 := by
      rw [hsize]
      exact Nat.min_le_right _ _
    rcases blockToSend_reads (E := E) (data.drop l.totalBytesSent.toNat) hsmall h with
      ⟨hblock, text, htext⟩ | ⟨⟨k, hk, hnone⟩, hfault⟩
    · simp only []
      obtain ⟨n, h₁, hwrite, -⟩ := ispSerialWrite_total (E := E) text h
      refine Ends.bind_ok htext (Ends.bind_ok hwrite ?_)
      refine Ends.ite (fun _ => fun he => by cases he) fun _ => ?_
      obtain ⟨⟨len, got⟩, h₂, hreply, -⟩ := ispSerialRead_total (E := E) (h := h₁)
        (show 4 ≤ repBufsize by decide) (show 0 < repBufsize by decide)
      refine Ends.bind_ok (uninit_apply _ _ _) (Ends.bind_ok hreply ?_)
      by_cases hlen : len ≤ 0
      · simp only [if_pos hlen]
        exact fun he => by cases he
      simp only [if_neg hlen]
      unfold takeReply
      refine Ends.ite (fun _ => Ends.bind_ok (modify_apply _ _) ?_) fun _ =>
        Ends.bind_ok (modify_apply _ _) (Ends.bind_ok (get_apply _) (Ends.ite ?_ fun _ => ?_))
      · have hcount : (ds ++ [true]).count true = ds.count true + 1 := by
          rw [List.count_append, List.count_singleton_self]
        refine ⟨ds ++ [true], hat.next hlt, by omega, fun k hk => ?_⟩
        rw [hcount, ← hgroups] at hk
        by_cases hbefore : k < 900 * ds.count true
        · exact hread k (by omega)
        · have hhere := hblock (k - 900 * ds.count true) (by rw [hsize]; omega)
          rwa [Mem.drop, htotal, Nat.add_sub_cancel' (by omega)] at hhere
      · exact fun _ he => by cases he
      · rw [UInt32.sub_add_cancel]
        exact ⟨ds, hat, hle, hread⟩
    · rw [hsize] at hk
      rw [bind_error hfault]
      refine ⟨rfl, _, ?_, hnone⟩
      omega
  · rw [if_neg hi]
    intro _ k hk
    refine hread k ?_
    rw [UInt32.lt_iff_toNat_lt, getNbBlocks_toNat, hat.i, nbBlocks] at hi
    rw [nbBlocks] at hle
    rw [wholeGroups] at hk ⊢
    omega

theorem mapM_of_none : ∀ {is : List ℕ}, (∃ i ∈ is, data i = none) → is.mapM data = none
  | [], ⟨_, hm, _⟩ => by cases hm
  | i :: is, ⟨j, hm, hnone⟩ => by
    rw [List.mapM_cons]
    rcases List.mem_cons.1 hm with rfl | hm
    · rw [hnone]
      rfl
    · rw [mapM_of_none ⟨j, hm, hnone⟩]
      rcases data i <;> rfl

/-- A transfer reads all of its data if it succeeds, and breaks off where it cannot. -/
theorem ispSendBufToRam_reads (data : Mem) (addr : ℕ) (count : UInt32) (uu : ℕ) (h : Host σ) :
    Ends (ispSendBufToRam E data addr count uu h) (fun ret _ => ret = 0 → ReadsAll data count.toNat uu)
      (fun f h' => BrokenOff h f h' ∨ f = .source ∧ ¬ ReadsAll data count.toNat uu) := by
  unfold ispSendBufToRam
  refine Ends.bind ((ispSendCmdTwoArgs_ends 'W'.toUInt8 (UInt32.ofNat addr) count h).mono
    (fun _ _ _ => trivial) fun _ _ hf => .inl hf) ?_
  intro ret h₁ _
  refine Ends.ite (fun _ he => by cases he) fun _ => ?_
  by_cases huu : uu = 0
  · rw [if_pos huu]
    by_cases hall : ReadsAll data count.toNat uu
    · rw [ReadsAll, if_pos huu] at hall
      obtain ⟨m, hread⟩ := exists_total hall
      rw [mapM_of_some fun i hi => hread i (List.mem_range.1 hi)]
      obtain ⟨n, h₂, hwrite, -⟩ := ispSerialWrite_total (E := E) ((List.range count.toNat).map m) h₁
      refine Ends.bind_ok hwrite (Ends.bind_ok (emit_apply _ _) fun _ => ?_)
      rwa [ReadsAll, if_pos huu]
    · have hno := hall
      rw [ReadsAll, if_pos huu] at hno
      obtain ⟨k, hlt, hnone⟩ := exists_unread hno
      rw [mapM_of_none ⟨k, List.mem_range.2 hlt, hnone⟩]
      exact .inr ⟨rfl, hall⟩
  · rw [if_neg huu]
    have hloop : Ends ((sendLoop E data count (getNbBlocks count)).run ⟨0, 0⟩ h₁)
        (fun ret _ => ret = 0 → ∀ k < wholeGroups count.toNat, data k ≠ none)
        (fun f _ => f = .source ∧ ∃ k < wholeGroups count.toNat, data k = none) :=
      Loop.ends (L := sendLoop E data count (getNbBlocks count))
        (I := fun l _ => SentReads data count.toNat l) (fun _ _ hl => sendTurn_reads hl)
        ⟨[], .start, Nat.zero_le _, fun k hk => absurd hk (by simp)⟩
    refine hloop.mono (fun ret _ hread h0 k hk => ?_) fun f _ hf => .inr ⟨hf.1, fun hall => ?_⟩
    · rw [if_neg huu] at hk
      exact hread h0 k hk
    · obtain ⟨-, k, hk, hnone⟩ := hf
      exact hall k (by rwa [if_neg huu]) hnone

end Send

/-- A run breaks off neither in a division nor in the image. -/
def WithinBuffer {σ : Type} (r : EStateM.Result Fault (Host σ) ℤ) : Prop :=
  Ends r (fun _ _ => True) fun f _ => f ≠ .divideByZero ∧ f ≠ .image ∧ f ≠ .source

/-- The user code is calculated, or that of the image is right. -/
def CodeAgrees (part : PartDesc) (calcUserCode : ℤ) (image : List UInt8) : Prop :=
  calcUserCode = 1 ∨ userCode (filled part image) = word (filled part image) 7

/-- The part has sectors. If its image gets that far, the word of the code protection is in the flash,
and for an encoder the groups that the last block starts. -/
structure PartDesc.BufferSafe (part : PartDesc) (calcUserCode : ℤ) (image : List UInt8) : Prop where
  sectors : part.flashNbSectors ≠ 0
  protection : part.Usable → 0 < toInt image.length → CodeAgrees part calcUserCode image →
    0x300 ≤ part.flashSize.toNat
  encoder : part.uuencode ≠ 0 → part.Accepts calcUserCode image →
    ((nbWrites image part.writeSize).toNat - 1) * part.writeSize.toNat +
      wholeGroups part.writeSize.toNat ≤ part.flashSize.toNat

section Image

variable {σ : Type} {E : Sys σ} {part : PartDesc} {calcUserCode : ℤ} {image data : List UInt8}
  {h : Host σ}

theorem BrokenOff.within {h h' : Host σ} {f : Fault} (hf : BrokenOff h f h') :
    f ≠ .divideByZero ∧ f ≠ .image ∧ f ≠ .source := by
  rcases hf.1 with rfl | rfl <;> decide

/-- A flash in which blocks can be written has room for the vectors. -/
theorem PartDesc.Usable.vectors (husable : part.Usable) : 64 ≤ part.flashSize.toNat := by
  obtain ⟨h64, -, -⟩ := part.writeSize_bounds husable.writes
  have hsector := (calcWriteSize_le part.sectorSize part.ramBuffSize).1
  have hsize : part.sectorSize.toNat ≤ part.flashSize.toNat := by
    rw [PartDesc.sectorSize, UInt32.toNat_div]
    exact Nat.div_le_self _ _
  rw [PartDesc.writeSize] at h64
  omega

theorem filled_length_of_le (hle : image.length ≤ part.flashSize.toNat) :
    (filled part image).length = part.flashSize.toNat := by
  rw [filled, List.length_append, List.length_replicate]
  omega

/-- An image with vectors is refused for its user code, or kept at its length. -/
theorem patchUserCode_total (hlen : 32 ≤ (filled part image).length) (calcUserCode : ℤ) (h : Host σ) :
    (CodeAgrees part calcUserCode image ∧ ∃ data, data.length = (filled part image).length ∧
      patchUserCode (filled part image) calcUserCode h = .ok (some data) h) ∨
    ¬ CodeAgrees part calcUserCode image ∧
      patchUserCode (filled part image) calcUserCode h = .ok none h := by
  obtain ⟨cksum, hcksum⟩ := exists_userCode (a := filled part image) (by omega)
  obtain ⟨v₇, hv₇⟩ : ∃ v₇, word (filled part image) 7 = some v₇ := ⟨_, word_eq (by omega)⟩
  have hagrees : CodeAgrees part calcUserCode image ↔ calcUserCode = 1 ∨ cksum = v₇ := by
    rw [CodeAgrees, hcksum, hv₇, Option.some.injEq]
  have hrun : patchUserCode (filled part image) calcUserCode h =
      .ok (if calcUserCode = 1 then some (overlay (filled part image) 28 (bytesOfWord cksum))
        else if cksum ≠ v₇ then none else some (filled part image)) h := by
    unfold patchUserCode
    rw [hcksum, hv₇]
    simp only []
    split_ifs <;> rfl
  rw [hagrees, hrun]
  by_cases hcalc : calcUserCode = 1
  · rw [if_pos hcalc]
    refine .inl ⟨.inl hcalc, _, overlay_length ?_, rfl⟩
    rw [show (bytesOfWord cksum).length = 4 from rfl]
    omega
  · rw [if_neg hcalc]
    by_cases hcode : cksum = v₇
    · rw [if_neg (not_not.2 hcode)]
      exact .inl ⟨.inr hcode, _, rfl, rfl⟩
    · rw [if_pos hcode]
      exact .inr ⟨fun hno => hno.elim hcalc hcode, rfl⟩

/-- The word of the code protection is not in the flash. -/
theorem flashImage_short (husable : part.Usable) (hle : image.length ≤ part.flashSize.toNat)
    (hcode : CodeAgrees part calcUserCode image) (hshort : part.flashSize.toNat < 0x300) (h : Host σ) :
    flashImage E part image part.writeSize part.sectorSize part.ramAddr calcUserCode h =
      .error .image h := by
  have hvectors := husable.vectors
  have hlen := filled_length_of_le hle
  have h32 : 32 ≤ (filled part image).length := by omega
  rcases patchUserCode_total h32 calcUserCode h with ⟨-, data, hdata, hrun⟩ | ⟨hno, -⟩
  · have hword : word data (crpOffset / 4) = none := by
      rcases hc : word data (crpOffset / 4) with _ | crp
      · rfl
      · have := length_of_word hc
        rw [crpOffset] at this
        omega
    unfold flashImage
    simp only []
    rw [← filled, bind_ok hrun]
    simp only [hword]
    rfl
  · exact absurd hcode hno

/-- An image that is not approved is refused without a word outside the buffer. -/
theorem flashImage_within (husable : part.Usable) (hle : image.length ≤ part.flashSize.toNat)
    (hsize : 0 < toInt image.length)
    (hprotection : CodeAgrees part calcUserCode image → 0x300 ≤ part.flashSize.toNat)
    (hno : ∀ data, ¬ Approved part calcUserCode (toInt image.length) image data) (h : Host σ) :
    WithinBuffer (flashImage E part image part.writeSize part.sectorSize part.ramAddr calcUserCode h) := by
  have hvectors := husable.vectors
  have hlen := filled_length_of_le hle
  have h32 : 32 ≤ (filled part image).length := by omega
  rcases patchUserCode_total h32 calcUserCode h with ⟨hcode, data, hdata, hpatch⟩ | ⟨-, hpatch⟩
  · have hroom := hprotection hcode
    obtain ⟨crp, hcrp⟩ : ∃ crp, word data (crpOffset / 4) = some crp :=
      ⟨_, word_eq (by rw [crpOffset]; omega)⟩
    by_cases hset : isCrp crp = true
    · unfold flashImage
      simp only []
      rw [← filled, bind_ok hpatch]
      simp only [hcrp, if_pos hset]
      trivial
    · have hpass : PassesChecks h part image calcUserCode data :=
        ⟨hpatch, crp, hcrp, Bool.eq_false_iff.2 hset⟩
      rw [flashImage_passes hpass husable.writes]
      simp only []
      rw [← nbWrites]
      exact Ends.ite (fun _ => trivial) fun hfits => absurd ⟨hsize, hpass.of_host, hfits⟩ (hno data)
  · unfold flashImage
    simp only []
    rw [← filled, bind_ok hpatch]
    trivial

/-- Blocks of which everything that is read is in the buffer. -/
theorem flashBlocks_within {writeSize sectorSize : UInt32} (hsector : sectorSize ≠ 0)
    (ramAddr : UInt32) : ∀ (n i : ℕ) (h : Host σ),
    (∀ j, i ≤ j → j < i + n → ∀ env, ReadsAll
      ((E.object env data).drop (UInt32.ofNat j * writeSize).toNat) writeSize.toNat
      part.uuencode.toNat) →
    WithinBuffer (flashBlocks E part data writeSize sectorSize ramAddr n i h)
  | 0, _, _, _ => trivial
  | n + 1, i, h, hread => by
    unfold flashBlocks
    simp only []
    rw [if_neg hsector]
    refine Ends.bind ((ispSendCmdSectors_ends 'P'.toUInt8 1 h (Int.le_refl _)).mono
      (fun _ _ _ => trivial) fun _ _ hf => hf.within) fun ret h₁ _ => Ends.ite (fun _ => trivial) fun _ =>
        Ends.bind_ok (get_apply _) ?_
    refine Ends.bind ((ispSendBufToRam_reads _ ramAddr.toNat writeSize part.uuencode.toNat h₁).mono
      (fun _ _ _ => trivial) ?_) fun ret h₂ _ => Ends.ite (fun _ => trivial) fun _ => ?_
    · rintro f h₂ (hf | ⟨-, hno⟩)
      · exact hf.within
      · exact absurd (hread i (Nat.le_refl i) (by omega) h₁.env) hno
    · refine Ends.bind ((ispSendCmdAddress_ends 'C'.toUInt8 _ ramAddr writeSize h₂).mono
        (fun _ _ _ => trivial) fun _ _ hf => hf.within) fun ret h₃ _ =>
          Ends.ite (fun _ => trivial) fun _ => ?_
      exact flashBlocks_within hsector ramAddr n (i + 1) h₃ fun j hj hlt =>
        hread j (by omega) (by omega)

theorem object_ne_none (env : σ) {k : ℕ} (hk : k < data.length) : E.object env data k ≠ none := by
  rw [Sys.object, if_pos hk, List.getElem?_eq_getElem hk]
  exact Option.some_ne_none _

/-- The blocks of an accepted image are in the buffer, with the groups that the last one starts. -/
theorem PartDesc.Accepts.reads (ha : part.Accepts calcUserCode image)
    (hlen : part.flashSize.toNat ≤ data.length)
    (hencoder : part.uuencode ≠ 0 → ((nbWrites image part.writeSize).toNat - 1) *
      part.writeSize.toNat + wholeGroups part.writeSize.toNat ≤ part.flashSize.toNat) {j : ℕ}
    (hj : j < (nbWrites image part.writeSize).toNat) (env : σ) : ReadsAll
      ((E.object env data).drop (UInt32.ofNat j * part.writeSize).toNat) part.writeSize.toNat
      part.uuencode.toNat := by
  obtain ⟨hfits, -, -, -⟩ := ha.fits
  have hlt := part.flashSize.toNat_lt
  have hnext := (Nat.mul_le_mul_right part.writeSize.toNat (Nat.succ_le_of_lt hj)).trans hfits
  have hlast := Nat.mul_le_mul_right part.writeSize.toNat (Nat.le_sub_one_of_lt hj)
  rw [Nat.succ_mul] at hnext
  intro k hk
  rw [ofNat_mul_toNat (by omega), Mem.drop]
  refine object_ne_none env ?_
  split_ifs at hk with huu
  · omega
  · have := hencoder fun h0 => huu (by rw [h0]; rfl)
    omega

/-- With a safe description no run divides by zero or leaves the buffer. -/
theorem flashTarget_within {filename content : List UInt8}
    (hfile : ∀ env, Gives E env filename content)
    (hsafe : part.BufferSafe calcUserCode (content.take part.flashSize.toNat)) (h : Host σ) :
    WithinBuffer (flashTarget E part filename calcUserCode h) := by
  by_cases husable : part.Usable
  · rw [flashTarget_usable husable]
    refine Ends.bind ((eraseFlash_sweep part h).mono (fun _ _ _ => trivial) fun _ _ hf => hf.within)
      fun ret h₁ _ => Ends.ite (fun _ => trivial) fun _ => Ends.bind_ok (get_apply _) ?_
    refine Ends.ite (fun _ => trivial) fun _ =>
      Ends.bind_ok (ispFileToBuff_gives (hfile h₁.env) part.flashSize.toNat) ?_
    have hle : (content.take part.flashSize.toNat).length ≤ part.flashSize.toNat :=
      List.length_take_le ..
    by_cases hsize : toInt (content.take part.flashSize.toNat).length ≤ 0
    · simp only [if_pos hsize]
      trivial
    · simp only [if_neg hsize]
      have hpos := Int.not_le.1 hsize
      by_cases happroved : ∃ data, Approved part calcUserCode
          (toInt (content.take part.flashSize.toNat).length) (content.take part.flashSize.toNat) data
      · obtain ⟨data, hdata⟩ := happroved
        have ha : part.Accepts calcUserCode (content.take part.flashSize.toNat) :=
          ⟨husable, data, hdata⟩
        rw [flashImage_approved husable.writes hdata]
        exact flashBlocks_within (part.sectorSize_ne husable.writes) _ _ _ h₁ fun j _ hj => ha.reads
          (hdata.fits_toNat rfl husable.writes).2 (fun huu => hsafe.encoder huu ha) (by omega)
      · exact flashImage_within husable hle hpos (hsafe.protection husable hpos)
          (not_exists.1 happroved) h₁
  · rcases flashTarget_unusable (E := E) husable filename calcUserCode h with
      ⟨h0, -⟩ | ⟨-, ret, -, hrun⟩
    · exact absurd h0 hsafe.sectors
    · rw [hrun]
      trivial

end Image

section Failing

variable {part : PartDesc} {calcUserCode : ℤ} {content data : List UInt8}

/-- A system with one file on it, and nothing that can be read behind an object. -/
def fileOnly (σ : Type) (content : List UInt8) : Sys σ :=
  (Sys.plain σ).withFiles fun _ _ => some (if content = [] then [] else [.data content])

/-- A blank device in the mode of a part, and one file for it. -/
noncomputable abbrev blankTarget (part : PartDesc) (content : List UInt8) : Sys (Wire Chip) :=
  (bootloader (fun _ => none) part.uuencode.toNat).sys (fileOnly _ content)

theorem fileOnly_gives {L : Line Chip} (env : Wire Chip) :
    Gives (L.sys (fileOnly (Wire Chip) content)) env ['f'.toUInt8] content := by
  refine ⟨rfl, _, rfl, ?_, ?_⟩
  · intro r hr
    split_ifs at hr with h0
    · cases hr
    · rw [List.mem_singleton.1 hr]
      simpa using h0
  · split_ifs with h0
    · exact h0.symm
    · exact List.append_nil _

/-- The flash of a blank device is erased, and the image loaded. -/
theorem fileOnly_loaded (calcUserCode : ℤ) (husable : part.Usable)
    (hsize : 0 < toInt (content.take part.flashSize.toNat).length) : ∃ h₁ : Host (Wire Chip),
    Idle id h₁ ∧ h₁.resendRequestedForBlock = 0 ∧
    flashTarget (blankTarget part content) part ['f'.toUInt8] calcUserCode blankHost =
      flashImage (blankTarget part content) part (content.take part.flashSize.toNat) part.writeSize
        part.sectorSize part.ramAddr calcUserCode h₁ := by
  have hdevice : Faithful (bootloader (fun _ => none) part.uuencode.toNat) (fun _ => none)
    part.uuencode.toNat id := bootloader_faithful
  obtain ⟨ret, h₁, herase, hswept⟩ := eraseFlash_swept (O := fileOnly _ content) (fun _ => 0) hdevice
    (⟨rfl, rfl, rfl⟩ : Idle id blankHost) part
  obtain ⟨rfl, hrequested⟩ := hswept.willing bootloader_willing
  refine ⟨h₁, hswept.idle rfl, hrequested, ?_⟩
  have hmalloc : ¬ (!(blankTarget part content).malloc h₁.env part.flashSize.toNat) = true :=
    Bool.false_ne_true
  rw [flashTarget_of_erased husable herase, bind_ok (get_apply _), if_neg hmalloc,
    bind_ok (ispFileToBuff_gives (fileOnly_gives h₁.env) part.flashSize.toNat)]
  simp only [if_neg (Int.not_le.2 hsize)]

/-- The blocks behind those that have been written. -/
theorem flashBlocks_add {σ : Type} {E : Sys σ} {writeSize sectorSize ramAddr : UInt32} {b : ℕ} :
    ∀ {a i : ℕ} {h h₁ : Host σ},
    flashBlocks E part data writeSize sectorSize ramAddr a i h = .ok 0 h₁ →
    flashBlocks E part data writeSize sectorSize ramAddr (a + b) i h =
      flashBlocks E part data writeSize sectorSize ramAddr b (i + a) h₁
  | 0, i, h, h₁, hrun => by
    cases hrun
    rw [Nat.zero_add, Nat.add_zero]
  | a + 1, i, h, h₁, hrun => by
    have hzero {ret : ℤ} {k : Prog σ ℤ} {h' : Host σ}
        (hk : (if ret ≠ 0 then pure ret else k) h' = .ok 0 h₁) : ret = 0 ∧ k h' = .ok 0 h₁ := by
      by_cases hret : ret = 0
      · rw [if_neg (not_not.2 hret)] at hk
        exact ⟨hret, hk⟩
      · rw [if_pos hret] at hk
        cases hk
        exact absurd rfl hret
    rw [Nat.add_right_comm, Nat.add_comm a 1, ← Nat.add_assoc i]
    generalize hbehind : flashBlocks E part data writeSize sectorSize ramAddr b (i + 1 + a) h₁ = r
    unfold flashBlocks at hrun ⊢
    simp only [] at hrun ⊢
    by_cases hsector : sectorSize = 0
    · rw [if_pos hsector] at hrun
      cases hrun
    rw [if_neg hsector] at hrun ⊢
    obtain ⟨ret, h₂, hprepare, hrun⟩ := bind_eq_ok.1 hrun
    obtain ⟨rfl, hrun⟩ := hzero hrun
    rw [bind_ok hprepare, if_neg (by decide)]
    obtain ⟨_, _, hget, hrun⟩ := bind_eq_ok.1 hrun
    cases hget
    rw [bind_ok (get_apply _)]
    obtain ⟨ret, h₃, hsend, hrun⟩ := bind_eq_ok.1 hrun
    obtain ⟨rfl, hrun⟩ := hzero hrun
    rw [bind_ok hsend, if_neg (by decide)]
    obtain ⟨ret, h₄, hcopy, hrun⟩ := bind_eq_ok.1 hrun
    obtain ⟨rfl, hrun⟩ := hzero hrun
    rw [bind_ok hcopy, if_neg (by decide)]
    rw [← hbehind]
    exact flashBlocks_add hrun

/-- A block of which not all can be read breaks the run off, once it is encoded. -/
theorem flashBlocks_unread {h : Host (Wire Chip)} {m : ℕ} (hwrites : part.writeSize ≠ 0)
    (hidle : Idle id h) (hrequested : h.resendRequestedForBlock = 0)
    (hno : ∀ env, ¬ ReadsAll (((blankTarget part content).object env data).drop
      (UInt32.ofNat m * part.writeSize).toNat) part.writeSize.toNat part.uuencode.toNat) : ∃ h',
    flashBlocks (blankTarget part content) part data part.writeSize part.sectorSize part.ramAddr 1 m
      h = .error .source h' := by
  have hdevice : Faithful (bootloader (fun _ => none) part.uuencode.toNat) (fun _ => none)
    part.uuencode.toNat id := bootloader_faithful
  unfold flashBlocks
  simp only []
  rw [if_neg (part.sectorSize_ne hwrites)]
  set offset := UInt32.ofNat m * part.writeSize
  set current := toInt (offset / part.sectorSize).toNat
  obtain ⟨s, h₁, hprepare, ho⟩ := ispSendCmdSectors_obeyed (fileOnly _ content) hdevice hidle
    (c := .prepare (toUnsigned current) (toUnsigned current)) 1 (Int.le_refl current) rfl
  obtain rfl := ho.willing bootloader_willing hidle trivial
  rw [bind_ok hprepare, if_neg (by decide), bind_ok (get_apply _)]
  rcases ispSendBufToRam_stored (O := fileOnly _ content) (fun _ => 0) hdevice
    (ho.idle hidle.expects) (Mem.getD_eq _) part.ramAddr.toNat hwrites with
    ⟨-, h₂, hfault, -⟩ | ⟨ret, h₂, hsend, hst⟩
  · rw [bind_error hfault]
    exact ⟨h₂, rfl⟩
  · obtain ⟨rfl, -⟩ := hst.willing bootloader_willing (ho.requested.trans hrequested)
    exact absurd ((ispSendBufToRam_reads _ _ _ _ h₁).ok hsend rfl) (hno h₁.env)

/-- The last block of an accepted image is encoded past the end of the buffer. -/
theorem fileOnly_outside (ha : part.Accepts calcUserCode (content.take part.flashSize.toNat))
    (huu : part.uuencode ≠ 0) (hout : part.flashSize.toNat <
      ((nbWrites (content.take part.flashSize.toNat) part.writeSize).toNat - 1) *
        part.writeSize.toNat + wholeGroups part.writeSize.toNat) : ∃ h',
    flashTarget (blankTarget part content) part ['f'.toUInt8] calcUserCode blankHost =
      .error .source h' := by
  obtain ⟨hfits, h64, -, hpos⟩ := ha.fits
  obtain ⟨husable, data, hdata⟩ := ha
  obtain ⟨h₁, hidle₁, hrequested₁, hrun⟩ := fileOnly_loaded calcUserCode husable hdata.loaded
  have hlen : data.length = part.flashSize.toNat := by
    obtain ⟨hpatch, -⟩ := hdata.checks (Host.start () 0 0 0)
    rw [patchUserCode_length hpatch, filled_length_of_le (List.length_take_le ..)]
  have hlt := part.flashSize.toNat_lt
  rw [hrun, flashImage_approved husable.writes hdata]
  obtain ⟨m, hm⟩ : ∃ m, (nbWrites (content.take part.flashSize.toNat) part.writeSize).toNat = m + 1 :=
    ⟨_, (Nat.sub_add_cancel hpos).symm⟩
  rw [hm, Nat.succ_mul] at hfits
  rw [hm, Nat.add_sub_cancel] at hout
  rw [hm]
  have hdevice : Faithful (bootloader (fun _ => none) part.uuencode.toNat) (fun _ => none)
    part.uuencode.toNat id := bootloader_faithful
  have hmode : part.uuencode.toNat ≠ 0 := fun h0 => huu (UInt32.toNat_inj.1 h0)
  -- the blocks before are written
  have hend := flashBlocks_end (O := fileOnly _ content) (f := h₁.env.dev.flash) (fun _ => 0) data
    hdevice husable.writes (part.sectorSize_ne husable.writes) part.ramAddr m 0 h₁
    (by rw [Nat.zero_add]; omega) (by rw [Nat.zero_add]; omega) hidle₁
    (by rw [Nat.zero_mul, programmed_zero]; rfl)
  rw [Nat.zero_add] at hend
  obtain ⟨h₂, hblocks, hrequested₂⟩ := hend.willing bootloader_willing hrequested₁ fun env j hj => by
    rw [overRead, if_neg hmode] at hj
    exact object_ne_none env (by omega)
  rw [flashBlocks_add hblocks, Nat.zero_add]
  -- and the last one starts a group that does not end in the buffer
  refine flashBlocks_unread husable.writes (hend.done h₂ hblocks).1 hrequested₂ fun env hreads => ?_
  refine hreads (part.flashSize.toNat - m * part.writeSize.toNat) ?_ ?_
  · rw [if_neg hmode]
    omega
  · rw [Mem.drop, ofNat_mul_toNat (by omega), Nat.add_sub_cancel' (by omega), Sys.object,
      if_neg (by omega)]
    rfl

end Failing

/-- Whatever the file and the device, a run neither divides by zero nor leaves the buffer of the
image if and only if the description is safe for the image. -/
theorem flashTarget_within_iff (part : PartDesc) (calcUserCode : ℤ) (content : List UInt8) :
    (∀ (σ : Type) (E : Sys σ) (h : Host σ) (filename : List UInt8),
      (∀ env, Gives E env filename content) →
      WithinBuffer (flashTarget E part filename calcUserCode h)) ↔
    part.BufferSafe calcUserCode (content.take part.flashSize.toNat) := by
  refine ⟨fun hall => ?_, fun hsafe σ E h filename hfile => flashTarget_within hfile hsafe h⟩
  have hwithin := hall _ (blankTarget part content) blankHost ['f'.toUInt8] fileOnly_gives
  have hsectors : part.flashNbSectors ≠ 0 := by
    intro h0
    unfold flashTarget at hwithin
    rw [if_pos h0] at hwithin
    exact hwithin.1 rfl
  refine ⟨hsectors, fun husable hsize hcode => ?_, fun huu ha => ?_⟩
  · by_contra hshort
    obtain ⟨h₁, -, -, hrun⟩ := fileOnly_loaded calcUserCode husable hsize
    rw [hrun, flashImage_short husable (List.length_take_le ..) hcode (Nat.not_le.1 hshort)] at hwithin
    exact hwithin.2.1 rfl
  · by_contra hout
    obtain ⟨h', hrun⟩ := fileOnly_outside ha huu (Nat.not_le.1 hout)
    rw [hrun] at hwithin
    exact hwithin.2.2 rfl

/-- A part with no sectors. -/
def noSectors : PartDesc := { lpc810 with flashNbSectors := 0 }

/-- The size of its sectors is asked for before anything is checked. -/
theorem flashTarget_noSectors :
    (∀ env, Gives (blankTarget noSectors (.replicate 0x300 0)) env ['f'.toUInt8]
      (.replicate 0x300 0)) ∧
    ¬ WithinBuffer (flashTarget (blankTarget noSectors (.replicate 0x300 0)) noSectors
      ['f'.toUInt8] 0 blankHost) :=
  ⟨fileOnly_gives, fun hwithin => hwithin.1 rfl⟩

end LpcTools
