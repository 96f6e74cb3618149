import LpcTools.Lib.Plan
import LpcTools.Proofs.BlankChecks
import LpcTools.Proofs.WholeFiles

/-!
# Where `flash_target` writes

The requests of a run are an initial part of a plan that depends on the description of the part and on
the length of the image only. So the copies go where they should, and into prepared sectors, just when
those of the plan do (`flashTarget_prepared_iff`), and the buffer in RAM is where it should be just when
that of the plan is (`flashTarget_inRam_iff`).
-/

namespace LpcTools

open Run Decimal Uuencode

section Requests

variable {σ : Type} {E : Sys σ} {h h' : Host σ}

/-- The texts of the requests that have been made. -/
def Host.requested (h : Host σ) : List (List UInt8) := (exchanges h.log).map Prod.fst

theorem requested_of_offLine {es : List Event} (hoff : h'.offLine = h.offLine ++ es) :
    h'.requested = h.requested ++ (exchanges es).map Prod.fst := by
  rw [Host.requested, Host.requested, ← exchanges_offLine, hoff, exchanges, List.filterMap_append,
    List.map_append, ← exchanges, ← exchanges, exchanges_offLine]

theorem requested_of_offLine_eq (hoff : h'.offLine = h.offLine) : h'.requested = h.requested := by
  rw [Host.requested, ← exchanges_offLine, hoff, exchanges_offLine, Host.requested]

/-- A sender makes its request, unless it breaks off. -/
theorem follows_of_ends {text : List UInt8} {r : EStateM.Result Fault (Host σ) ℤ}
    (hr : Ends r (Asked h text) (BrokenOff h)) :
    Follows Host.requested (fun _ => True) [text] h r := by
  rcases r with ⟨ret, h'⟩ | ⟨f, h'⟩
  · have hasked : Asked h text ret h' := hr
    obtain ⟨a, -, -, hoff⟩ := hasked.offLine
    exact ⟨[text], requested_of_offLine hoff, List.prefix_rfl, fun _ _ _ _ => rfl⟩
  · have hseen : h'.seen = h.seen := And.right hr
    refine ⟨[], ?_, List.nil_prefix, fun _ _ hr => by cases hr⟩
    rw [List.append_nil]
    exact requested_of_offLine_eq (by rw [final_error, Host.offLine_seen, hseen, ← Host.offLine_seen])

theorem ispSendBufToRam_follows (data : Mem) (addr : ℕ) (count : UInt32) (uu : ℕ) (h : Host σ) :
    Follows Host.requested (fun ret => ret = 0)
      [twoArgsText 'W'.toUInt8 (UInt32.ofNat addr).toNat count.toNat] h
      (ispSendBufToRam E data addr count uu h) := by
  unfold ispSendBufToRam
  rw [← List.append_nil [_]]
  refine Follows.bind (P := fun ret => ret = 0) ((follows_of_ends
    (ispSendCmdTwoArgs_ends 'W'.toUInt8 (UInt32.ofNat addr) count h)).mono fun _ _ => trivial) ?_
  intro ret h₁ _
  by_cases hret : ret ≠ 0
  · rw [if_pos hret]
    exact .inr ⟨-8, rfl, by decide⟩
  · refine .inl ⟨not_not.1 hret, .quiet (requested_of_offLine_eq ?_)⟩
    rw [if_neg hret]
    by_cases huu : uu = 0
    · rw [if_pos huu]
      rcases (List.range count.toNat).mapM data with _ | bs
      · rfl
      · exact (Host.offLine_frame E).bind ((Host.offLine_frame E).write bs h₁) fun n h₂ _ =>
          (Host.offLine_frame E).emit h₂ (.sent (n = toInt count.toNat)) rfl
    · rw [if_neg huu]
      exact (Host.offLine_frame E).sendLoop data count (getNbBlocks count) ⟨0, 0⟩ h₁

/-- A request that is neither a write nor a copy. -/
def NoTransfer (text : List UInt8) : Prop :=
  text.head? ≠ some 'W'.toUInt8 ∧ text.head? ≠ some 'C'.toUInt8

theorem noTransfer_cons {cmd : UInt8} {text : List UInt8}
    (hcmd : cmd ≠ 'W'.toUInt8 ∧ cmd ≠ 'C'.toUInt8) : NoTransfer (cmd :: text) := by
  simpa [NoTransfer] using hcmd

theorem Sweep.noTransfer {i n : ℕ} {ret : ℤ} {es : List Event} (hs : Sweep i n ret es) :
    ∀ text ∈ (exchanges es).map Prod.fst, NoTransfer text := by
  have hI (i : ℕ) : NoTransfer (sectorText 'I'.toUInt8 i) := noTransfer_cons (by decide)
  have hP (i : ℕ) : NoTransfer (sectorText 'P'.toUInt8 i) := noTransfer_cons (by decide)
  have hE (i : ℕ) : NoTransfer (sectorText 'E'.toUInt8 i) := noTransfer_cons (by decide)
  have hcons {text : List UInt8} {a : Answer} {es : List Event} (ht : NoTransfer text)
      (hes : ∀ text ∈ (exchanges es).map Prod.fst, NoTransfer text) :
      ∀ text' ∈ (exchanges (.request text a :: es)).map Prod.fst, NoTransfer text' := by
    rw [exchanges_request, List.map_cons]
    exact List.forall_mem_cons.2 ⟨ht, hes⟩
  have hnil : ∀ text ∈ (exchanges []).map Prod.fst, NoTransfer text := fun _ hm => by cases hm
  induction hs with
  | done => exact hnil
  | blank _ ih => exact hcons (hI _) ih
  | failed => exact hcons (hI _) hnil
  | unprepared => exact hcons (hI _) (hcons (hP _) hnil)
  | unerased => exact hcons (hI _) (hcons (hP _) (hcons (hE _) hnil))
  | erased _ _ _ ih => exact hcons (hI _) (hcons (hP _) (hcons (hE _) ih))

/-- The requests of `erase_flash` are neither writes nor copies. -/
theorem eraseFlash_requests (part : PartDesc) (h : Host σ) : ∃ texts,
    (final (eraseFlash E part h)).requested = h.requested ++ texts ∧
    ∀ text ∈ texts, NoTransfer text := by
  have hunlock : NoTransfer unlock := noTransfer_cons (by decide)
  have hends := eraseFlash_sweep (E := E) part h
  rcases hr : eraseFlash E part h with ⟨ret, h'⟩ | ⟨f, h'⟩ <;> rw [hr] at hends
  · obtain ⟨-, es, hoff, hsweep⟩ := hends
    refine ⟨_, requested_of_offLine hoff, ?_⟩
    rcases hsweep with @⟨a, ha⟩ | @⟨_, es, hs⟩
    · exact List.forall_mem_cons.2 ⟨hunlock, fun _ hm => by cases hm⟩
    · rw [exchanges_request, List.map_cons]
      exact List.forall_mem_cons.2 ⟨hunlock, hs.noTransfer⟩
  · refine ⟨[], ?_, fun _ hm => by cases hm⟩
    rw [List.append_nil]
    exact requested_of_offLine_eq (by
      rw [final_error, Host.offLine_seen, And.right hends, ← Host.offLine_seen])

end Requests

section Plan

/-- The sector that is prepared for the block `j`, and where the block goes. -/
def PartDesc.blockSector (part : PartDesc) (j : ℕ) : UInt32 :=
  UInt32.ofNat j * part.writeSize / part.sectorSize

def PartDesc.blockAddr (part : PartDesc) (j : ℕ) : UInt32 :=
  part.flashBase + UInt32.ofNat j * part.writeSize

/-- The requests for the block `j`. -/
def PartDesc.blockTexts (part : PartDesc) (j : ℕ) : List (List UInt8) :=
  [twoArgsText 'P'.toUInt8 (part.blockSector j).toNat (part.blockSector j).toNat,
    twoArgsText 'W'.toUInt8 part.ramAddr.toNat part.writeSize.toNat,
    addressText 'C'.toUInt8 (part.blockAddr j).toNat part.ramAddr.toNat part.writeSize.toNat]

/-- The requests for an image, once the flash is erased. -/
def PartDesc.plan (part : PartDesc) (image : List UInt8) : List (List UInt8) :=
  (List.range' 0 (nbWrites image part.writeSize).toNat).flatMap part.blockTexts

variable {σ : Type} {E : Sys σ} {part : PartDesc} {h : Host σ}

theorem blockTexts_append (j : ℕ) (l : List (List UInt8)) : part.blockTexts j ++ l =
    [twoArgsText 'P'.toUInt8 (part.blockSector j).toNat (part.blockSector j).toNat] ++
      ([twoArgsText 'W'.toUInt8 part.ramAddr.toNat part.writeSize.toNat] ++
        ([addressText 'C'.toUInt8 (part.blockAddr j).toNat part.ramAddr.toNat part.writeSize.toNat] ++
          l)) := rfl

theorem flashBlocks_follows (hwrites : part.writeSize ≠ 0) (data : List UInt8) : ∀ (n i : ℕ) (h : Host σ),
    Follows Host.requested (fun ret => ret = 0) ((List.range' i n).flatMap part.blockTexts) h
      (flashBlocks E part data part.writeSize part.sectorSize part.ramAddr n i h)
  | 0, i, h => .quiet rfl
  | n + 1, i, h => by
    rw [List.range'_succ, List.flatMap_cons, blockTexts_append]
    unfold flashBlocks
    simp only []
    rw [if_neg (part.sectorSize_ne hwrites), ← PartDesc.blockSector, ← PartDesc.blockAddr]
    set current := toInt (part.blockSector i).toNat with hcurrent
    have hask := ispSendCmdSectors_ends (E := E) 'P'.toUInt8 1 h (Int.le_refl current)
    rw [hcurrent, toUnsigned_toInt, UInt32.ofNat_toNat, ← hcurrent] at hask
    -- each request is needed for the next
    have hstop : ∀ {ret : ℤ} {k : Prog σ ℤ} {h' : Host σ} {plan : List (List UInt8)},
        (ret = 0 → Follows Host.requested (fun ret => ret = 0) plan h' (k h')) →
        ret = 0 ∧ Follows Host.requested (fun ret => ret = 0) plan h'
            ((if ret ≠ 0 then pure ret else k) h') ∨
          ∃ b, (if ret ≠ 0 then pure ret else k) h' = .ok b h' ∧ ¬ b = 0 := by
      intro ret k h' plan hk
      by_cases hret : ret = 0
      · rw [if_neg (not_not.2 hret)]
        exact .inl ⟨hret, hk hret⟩
      · rw [if_pos hret]
        exact .inr ⟨ret, rfl, hret⟩
    refine Follows.bind (P := fun ret => ret = 0) ((follows_of_ends hask).mono fun _ _ => trivial)
      fun ret h₁ _ => hstop fun _ => ?_
    rw [bind_ok (get_apply _)]
    have hsend := ispSendBufToRam_follows (E := E)
      ((E.object h₁.env data).drop (UInt32.ofNat i * part.writeSize).toNat) part.ramAddr.toNat
      part.writeSize part.uuencode.toNat h₁
    rw [UInt32.ofNat_toNat] at hsend
    refine Follows.bind hsend fun ret h₂ _ => hstop fun _ => ?_
    refine Follows.bind (P := fun ret => ret = 0) ((follows_of_ends
      (ispSendCmdAddress_ends 'C'.toUInt8 _ _ _ h₂)).mono fun _ _ => trivial)
      fun ret h₃ _ => hstop fun _ => ?_
    exact flashBlocks_follows hwrites data n (i + 1) h₃

/-- A run asks for what erases the flash, and then for an initial part of the plan, if the checks are
passed. With success it asks for all of it. -/
structure Planned (part : PartDesc) (calcUserCode : ℤ) (image : List UInt8) (h : Host σ)
    (r : EStateM.Result Fault (Host σ) ℤ) (erasing texts : List (List UInt8)) : Prop where
  requested : (final r).requested = h.requested ++ (erasing ++ texts)
  erasing : ∀ text ∈ erasing, NoTransfer text
  prefix_plan : texts = [] ∨ part.Accepts calcUserCode image ∧ texts <+: part.plan image
  success : ∀ h', r = .ok 0 h' → part.Accepts calcUserCode image ∧ texts = part.plan image

variable {calcUserCode : ℤ} {image : List UInt8} {erasing : List (List UInt8)}
  {r : EStateM.Result Fault (Host σ) ℤ}

theorem Planned.stop (hreq : (final r).requested = h.requested ++ erasing)
    (herasing : ∀ text ∈ erasing, NoTransfer text) (hr : ∀ h', r ≠ .ok 0 h') :
    Planned part calcUserCode image h r erasing [] :=
  ⟨by rw [List.append_nil, hreq], herasing, .inl rfl, fun h' he => absurd he (hr h')⟩

theorem flashTarget_planned (part : PartDesc) {filename content : List UInt8}
    (hfile : ∀ env, Gives E env filename content) (calcUserCode : ℤ) (h : Host σ) :
    ∃ erasing texts, Planned part calcUserCode (content.take part.flashSize.toNat) h
      (flashTarget E part filename calcUserCode h) erasing texts := by
  have hsame {r : EStateM.Result Fault (Host σ) ℤ} (hf : final r = h) (hr : ∀ h', r ≠ .ok 0 h') :
      ∃ erasing texts, Planned part calcUserCode (content.take part.flashSize.toNat) h r
        erasing texts :=
    ⟨[], [], .stop (by rw [hf, List.append_nil]) (fun _ hm => by cases hm) hr⟩
  by_cases husable : part.Usable
  · obtain ⟨erasing, hreq, herasing⟩ := eraseFlash_requests (E := E) part h
    have hstop {r : EStateM.Result Fault (Host σ) ℤ} (hf : final r = final (eraseFlash E part h))
        (hr : ∀ h', r ≠ .ok 0 h') : ∃ erasing texts, Planned part calcUserCode
          (content.take part.flashSize.toNat) h r erasing texts :=
      ⟨erasing, [], .stop (by rw [hf, hreq]) herasing hr⟩
    rcases herase : eraseFlash E part h with ⟨ret, h₁⟩ | ⟨f, h₁⟩ <;> rw [herase] at hreq hstop
    · by_cases hret : ret = 0
      · subst hret
        rw [flashTarget_of_erased husable herase, bind_ok (get_apply _)]
        by_cases hmalloc : E.malloc h₁.env part.flashSize.toNat = true
        · rw [if_neg (by simpa using hmalloc),
            bind_ok (ispFileToBuff_gives (hfile h₁.env) part.flashSize.toNat)]
          simp only []
          by_cases hsize : toInt (content.take part.flashSize.toNat).length ≤ 0
          · rw [if_pos hsize]
            exact hstop rfl fun h' he => by cases he
          · rw [if_neg hsize]
            by_cases happroved : ∃ data, Approved part calcUserCode
                (toInt (content.take part.flashSize.toNat).length)
                (content.take part.flashSize.toNat) data
            · obtain ⟨data, hdata⟩ := happroved
              rw [flashImage_approved husable.writes hdata]
              obtain ⟨texts, hreq', hpre, hall⟩ := flashBlocks_follows (E := E) husable.writes data
                (nbWrites (content.take part.flashSize.toNat) part.writeSize).toNat 0 h₁
              refine ⟨erasing, texts, ?_, herasing, .inr ⟨⟨husable, data, hdata⟩, hpre⟩,
                fun h' he => ⟨⟨husable, data, hdata⟩, hall 0 h' he rfl⟩⟩
              rw [hreq', ← List.append_assoc, ← hreq]
              rfl
            · rcases flashImage_refused (E := E) (h := h₁) husable.writes (by omega)
                (not_exists.1 happroved) with ⟨ret, hne, hrun⟩ | ⟨e, hrun⟩
              · rw [hrun]
                refine hstop rfl fun h' he => ?_
                cases he
                exact hne rfl
              · rw [hrun]
                exact hstop rfl fun h' he => by cases he
        · rw [if_pos (by simpa using hmalloc)]
          exact hstop rfl fun h' he => by cases he
      · rw [flashTarget_usable husable, bind_ok herase, if_pos hret]
        exact hstop rfl fun h' he => by cases he
    · rw [flashTarget_usable husable, bind_error herase]
      exact hstop rfl fun h' he => by cases he
  · rcases flashTarget_unusable (E := E) husable filename calcUserCode h with
      ⟨-, hrun⟩ | ⟨-, ret, hne, hrun⟩ <;> rw [hrun]
    · exact hsame rfl fun h' he => by cases he
    · refine hsame rfl fun h' he => ?_
      cases he
      exact hne rfl

theorem requested_of_start (hstart : h.log = []) : h.requested = [] := by
  rw [Host.requested, hstart]
  rfl

/-- There is a run that asks for the whole plan. -/
theorem oneFile_requested {content : List UInt8}
    (ha : part.Accepts calcUserCode (content.take part.flashSize.toNat)) : ∃ h' erasing,
    flashTarget ((bootloader (fun _ => none) part.uuencode.toNat).sys (oneFile content)) part
        ['f'.toUInt8] calcUserCode blankHost = .ok 0 h' ∧
      h'.requested = erasing ++ part.plan (content.take part.flashSize.toNat) ∧
      ∀ text ∈ erasing, NoTransfer text := by
  obtain ⟨husable, data, hdata⟩ := ha
  obtain ⟨h', hrun⟩ := oneFile_flashed husable hdata
  obtain ⟨erasing, texts, hp⟩ := flashTarget_planned part (oneFile_gives
    (L := bootloader (fun _ => none) part.uuencode.toNat) (PartDesc.Accepts.ne ⟨husable, data, hdata⟩))
    calcUserCode blankHost
  obtain ⟨-, rfl⟩ := hp.success h' hrun
  have hreq := hp.requested
  rw [hrun, final_ok, requested_of_start (h := blankHost) rfl, List.nil_append] at hreq
  exact ⟨h', erasing, hrun, hreq, hp.erasing⟩

end Plan

section Blocks

variable {part : PartDesc} {calcUserCode : ℤ} {image data : List UInt8} {j : ℕ}

theorem blockSector_toNat (hj : j * part.writeSize.toNat < 2 ^ 32) :
    (part.blockSector j).toNat = j * part.writeSize.toNat / part.sectorSize.toNat := by
  rw [PartDesc.blockSector, UInt32.toNat_div, ofNat_mul_toNat hj]

theorem blockAddr_toNat (hj : j * part.writeSize.toNat < 2 ^ 32) : (part.blockAddr j).toNat =
    (part.flashBase.toNat + j * part.writeSize.toNat) % 2 ^ 32 := by
  rw [PartDesc.blockAddr, UInt32.toNat_add, ofNat_mul_toNat hj]

/-- The copy of a block is the last of its requests. -/
theorem blockTexts_copy {pre post : List (List UInt8)} {dst src n : UInt32}
    (h : part.blockTexts j = pre ++ addressText 'C'.toUInt8 dst.toNat src.toNat n.toNat :: post) :
    dst = part.blockAddr j ∧ src = part.ramAddr ∧ n = part.writeSize ∧
      pre = [twoArgsText 'P'.toUInt8 (part.blockSector j).toNat (part.blockSector j).toNat,
        twoArgsText 'W'.toUInt8 part.ramAddr.toNat part.writeSize.toNat] := by
  rw [PartDesc.blockTexts] at h
  rcases pre with _ | ⟨t, _ | ⟨t', _ | ⟨t'', pre⟩⟩⟩
  · cases (List.cons.inj (List.cons.inj h).1).1
  · cases (List.cons.inj (List.cons.inj (List.cons.inj h).2).1).1
  · simp only [List.cons_append, List.nil_append, List.cons.injEq] at h
    obtain ⟨rfl, rfl, hcopy, -⟩ := h
    obtain ⟨-, hdst, hsrc, hn⟩ := addressText_inj hcopy
    exact ⟨hdst.symm, hsrc.symm, hn.symm, rfl⟩
  · simp at h

/-- A copy in a run stands behind the blocks before its own, and the other requests for its own. -/
theorem exists_block {erasing texts before after : List (List UInt8)} {dst src n : UInt32}
    (herasing : ∀ text ∈ erasing, NoTransfer text) (hpre : texts <+: part.plan image)
    (h : erasing ++ texts =
      before ++ addressText 'C'.toUInt8 dst.toNat src.toNat n.toNat :: after) :
    ∃ j < (nbWrites image part.writeSize).toNat, dst = part.blockAddr j ∧ src = part.ramAddr ∧
      n = part.writeSize ∧ before = erasing ++ ((List.range' 0 j).flatMap part.blockTexts ++
        [twoArgsText 'P'.toUInt8 (part.blockSector j).toNat (part.blockSector j).toNat,
          twoArgsText 'W'.toUInt8 part.ramAddr.toNat part.writeSize.toNat]) := by
  obtain ⟨b, rfl, rfl⟩ := exists_of_append h fun hm => (herasing _ hm).2 rfl
  obtain ⟨rest, hplan⟩ := hpre
  rw [List.append_assoc, List.cons_append, PartDesc.plan] at hplan
  obtain ⟨j, pre, post, -, hj, hblock, rfl⟩ := exists_of_blocks _ 0 b hplan
  obtain ⟨rfl, rfl, rfl, rfl⟩ := blockTexts_copy hblock
  exact ⟨j, by omega, rfl, rfl, rfl, rfl⟩

/-- A write or a copy in a run belongs to a block. -/
theorem mem_blockTexts {erasing texts : List (List UInt8)} {text : List UInt8}
    (herasing : ∀ text ∈ erasing, NoTransfer text) (hpre : texts <+: part.plan image)
    (hm : text ∈ erasing ++ texts) (hno : ¬ NoTransfer text) : ∃ j, text ∈ part.blockTexts j := by
  rcases List.mem_append.1 hm with hm | hm
  · exact absurd (herasing _ hm) hno
  · obtain ⟨j, -, hj⟩ := List.mem_flatMap.1 (hpre.subset hm)
    exact ⟨j, hj⟩

/-- The whole plan, cut behind the block `j`. -/
theorem plan_split (hj : j < (nbWrites image part.writeSize).toNat) : ∃ after,
    part.plan image = (List.range' 0 j).flatMap part.blockTexts ++ (part.blockTexts j ++ after) := by
  set n := (nbWrites image part.writeSize).toNat
  refine ⟨(List.range' (j + 1) (n - (j + 1))).flatMap part.blockTexts, ?_⟩
  have hcut : List.range' 0 n = List.range' 0 j ++ j :: List.range' (j + 1) (n - (j + 1)) := by
    rw [← List.range'_succ, show n - (j + 1) + 1 = n - j by omega]
    have happend := List.range'_append_1 (s := 0) (m := j) (n := n - j)
    rw [Nat.zero_add] at happend
    rw [happend, show j + (n - j) = n by omega]
  rw [PartDesc.plan, hcut, List.flatMap_append, List.flatMap_cons]

end Blocks

section Prepared

/-- A request that prepares the sector. -/
def Prepares (sector : ℕ) (text : List UInt8) : Prop :=
  ∃ first last : UInt32, text = twoArgsText 'P'.toUInt8 first.toNat last.toNat ∧
    first.toNat ≤ sector ∧ sector ≤ last.toNat

def IsCopy (text : List UInt8) : Prop :=
  ∃ dst src n : UInt32, text = addressText 'C'.toUInt8 dst.toNat src.toNat n.toNat

/-- A copy of `n` bytes to `dst` stays in the flash, and each sector it gets into has been prepared
since the last copy. -/
structure CopyPrepared (part : PartDesc) (before : List (List UInt8)) (dst n : ℕ) : Prop where
  start : part.flashBase.toNat ≤ dst
  stop : dst + n ≤ part.flashBase.toNat + part.flashSize.toNat
  prepared : ∀ a, dst ≤ a → a < dst + n → ∃ pre text mid, before = pre ++ text :: mid ∧
    Prepares ((a - part.flashBase.toNat) / part.sectorSize.toNat) text ∧ ∀ t ∈ mid, ¬ IsCopy t

def CopiesPrepared (part : PartDesc) (texts : List (List UInt8)) : Prop :=
  ∀ (before after : List (List UInt8)) (dst src n : UInt32),
    texts = before ++ addressText 'C'.toUInt8 dst.toNat src.toNat n.toNat :: after →
    CopyPrepared part before dst.toNat n.toNat

/-- The addresses of `n` blocks can be told, and no block gets into two sectors. -/
structure PartDesc.Aligned (part : PartDesc) (n : ℕ) : Prop where
  below : part.flashBase.toNat + (n - 1) * part.writeSize.toNat < 2 ^ 32
  sectors : part.writeSize.toNat ∣ part.sectorSize.toNat ∨
    n * part.writeSize.toNat ≤ part.sectorSize.toNat

variable {part : PartDesc} {calcUserCode : ℤ} {image : List UInt8}
  {erasing texts : List (List UInt8)}

/-- A byte of a block lies in the sector of the first one. -/
theorem sector_of_aligned {j n r size sectorSize : ℕ} (hj : j < n) (hr : r < size)
    (h : size ∣ sectorSize ∨ n * size ≤ sectorSize) :
    (j * size + r) / sectorSize = j * size / sectorSize := by
  rcases h with ⟨q, rfl⟩ | hle
  · rw [← Nat.div_div_eq_div_mul, ← Nat.div_div_eq_div_mul, Nat.mul_div_cancel j (by omega),
      Nat.mul_comm j, Nat.mul_add_div (by omega), Nat.div_eq_of_lt hr, Nat.add_zero]
  · have hnext : (j + 1) * size ≤ n * size := Nat.mul_le_mul_right _ hj
    rw [Nat.succ_mul] at hnext
    rw [Nat.div_eq_of_lt (by omega), Nat.div_eq_of_lt (by omega)]

theorem copiesPrepared_of_aligned (ha : part.Accepts calcUserCode image)
    (halign : part.Aligned (nbWrites image part.writeSize).toNat)
    (herasing : ∀ text ∈ erasing, NoTransfer text) (hpre : texts <+: part.plan image) :
    CopiesPrepared part (erasing ++ texts) := by
  obtain ⟨hfits, h64, -, -⟩ := ha.fits
  have hlt := part.flashSize.toNat_lt
  rintro before after dst src n h
  obtain ⟨j, hj, rfl, -, rfl, rfl⟩ := exists_block herasing hpre h
  have hnext := (Nat.mul_le_mul_right part.writeSize.toNat (Nat.succ_le_of_lt hj)).trans hfits
  have hlast := Nat.mul_le_mul_right part.writeSize.toNat (Nat.le_sub_one_of_lt hj)
  rw [Nat.succ_mul] at hnext
  have haddr : (part.blockAddr j).toNat = part.flashBase.toNat + j * part.writeSize.toNat := by
    rw [blockAddr_toNat (by omega), Nat.mod_eq_of_lt (lt_of_le_of_lt (by omega) halign.below)]
  refine ⟨by omega, by omega, fun a hle hlt => ⟨_, _, [_], by rw [← List.append_assoc],
    ⟨_, _, rfl, ?_⟩, fun t ht => ?_⟩⟩
  · rw [show a - part.flashBase.toNat = j * part.writeSize.toNat +
      (a - (part.blockAddr j).toNat) by omega, sector_of_aligned hj (by omega) halign.sectors,
      blockSector_toNat (by omega)]
    exact ⟨Nat.le_refl _, Nat.le_refl _⟩
  · rintro ⟨dst, src, n, rfl⟩
    cases (List.cons.inj (List.mem_singleton.1 ht)).1

/-- Behind the copy of a block only the sector of the next one is prepared. -/
theorem prepares_next {i k : ℕ} {pre mid : List (List UInt8)} {text : List UInt8}
    (hbefore : erasing ++ ((List.range' 0 (i + 1)).flatMap part.blockTexts ++
      [twoArgsText 'P'.toUInt8 (part.blockSector (i + 1)).toNat (part.blockSector (i + 1)).toNat,
        twoArgsText 'W'.toUInt8 part.ramAddr.toNat part.writeSize.toNat]) = pre ++ text :: mid)
    (htext : Prepares k text) (hmid : ∀ t ∈ mid, ¬ IsCopy t) :
    k = (part.blockSector (i + 1)).toNat := by
  obtain ⟨first, last, rfl, hfirst, hlast⟩ := htext
  have hcopied : IsCopy (addressText 'C'.toUInt8 (part.blockAddr i).toNat part.ramAddr.toNat
    part.writeSize.toNat) := ⟨_, _, _, rfl⟩
  have hmark : (erasing ++ (List.range' 0 i).flatMap part.blockTexts ++
        [twoArgsText 'P'.toUInt8 (part.blockSector i).toNat (part.blockSector i).toNat,
          twoArgsText 'W'.toUInt8 part.ramAddr.toNat part.writeSize.toNat]) ++
      addressText 'C'.toUInt8 (part.blockAddr i).toNat part.ramAddr.toNat part.writeSize.toNat ::
        [twoArgsText 'P'.toUInt8 (part.blockSector (i + 1)).toNat (part.blockSector (i + 1)).toNat,
          twoArgsText 'W'.toUInt8 part.ramAddr.toNat part.writeSize.toNat] =
      pre ++ twoArgsText 'P'.toUInt8 first.toNat last.toNat :: mid := by
    rw [← hbefore, List.range'_1_concat, List.flatMap_append, List.flatMap_singleton, Nat.zero_add,
      PartDesc.blockTexts]
    simp
  rcases mem_behind hmark fun hm => hmid _ hm hcopied with htext | htext
  · cases (List.cons.inj htext).1
  · rcases List.mem_cons.1 htext with htext | htext
    · obtain ⟨-, rfl, rfl⟩ := twoArgsText_inj htext
      exact Nat.le_antisymm hlast hfirst
    · cases (List.cons.inj (List.mem_singleton.1 htext)).1

/-- A run that makes all the requests of the plan copies where it should only if the blocks are
aligned. -/
theorem aligned_of_copiesPrepared (ha : part.Accepts calcUserCode image)
    (hcopies : CopiesPrepared part (erasing ++ part.plan image)) :
    part.Aligned (nbWrites image part.writeSize).toNat := by
  obtain ⟨hfits, h64, hsector, hpos⟩ := ha.fits
  have hlt := part.flashSize.toNat_lt
  have hcopy (j : ℕ) (hj : j < (nbWrites image part.writeSize).toNat) :
      CopyPrepared part (erasing ++ ((List.range' 0 j).flatMap part.blockTexts ++
        [twoArgsText 'P'.toUInt8 (part.blockSector j).toNat (part.blockSector j).toNat,
          twoArgsText 'W'.toUInt8 part.ramAddr.toNat part.writeSize.toNat]))
        (part.blockAddr j).toNat part.writeSize.toNat := by
    obtain ⟨after, hplan⟩ := plan_split hj
    refine hcopies _ after _ part.ramAddr _ ?_
    rw [hplan, List.append_assoc, List.append_assoc]
    rfl
  have hbelow : part.flashBase.toNat +
      ((nbWrites image part.writeSize).toNat - 1) * part.writeSize.toNat < 2 ^ 32 := by
    have hlast := hcopy _ (Nat.sub_one_lt hpos.ne')
    have hstart := hlast.start
    have hle := Nat.mul_le_mul_right part.writeSize.toNat
      (Nat.sub_le (nbWrites image part.writeSize).toNat 1)
    have hbase := part.flashBase.toNat_lt
    rw [blockAddr_toNat (by omega)] at hstart
    omega
  refine ⟨hbelow, ?_⟩
  by_contra hno
  obtain ⟨hdvd, hlong⟩ := not_or.1 hno
  -- the block with the first byte of the second sector begins in the first
  set j := part.sectorSize.toNat / part.writeSize.toNat with hj
  have hmod := Nat.div_add_mod' part.sectorSize.toNat part.writeSize.toNat
  have hmodlt := Nat.mod_lt part.sectorSize.toNat (show 0 < part.writeSize.toNat by omega)
  have hmodpos := Nat.pos_of_ne_zero fun h0 => hdvd (Nat.dvd_of_mod_eq_zero h0)
  have hj1 : 1 ≤ j := (Nat.one_le_div_iff (by omega)).2 hsector
  have hjn : j < (nbWrites image part.writeSize).toNat :=
    (Nat.div_lt_iff_lt_mul (by omega)).2 (by omega)
  rw [← hj] at hmod
  have hlast := Nat.mul_le_mul_right part.writeSize.toNat (Nat.le_sub_one_of_lt hjn)
  have haddr : (part.blockAddr j).toNat = part.flashBase.toNat + j * part.writeSize.toNat := by
    rw [blockAddr_toNat (by omega), Nat.mod_eq_of_lt (by omega)]
  obtain ⟨pre, text, mid, hbefore, hprepares, hmid⟩ := (hcopy j hjn).prepared
    (part.flashBase.toNat + part.sectorSize.toNat) (by omega) (by omega)
  obtain ⟨i, hi⟩ : ∃ i, j = i + 1 := ⟨j - 1, by omega⟩
  rw [hi] at hbefore
  have hown := prepares_next hbefore hprepares hmid
  rw [Nat.add_sub_cancel_left, Nat.div_self (by omega), ← hi, blockSector_toNat (by omega),
    Nat.div_eq_of_lt (by omega)] at hown
  exact absurd hown (by decide)

/-- Every copy that `flash_target` asks for, whatever the line and the system are like, goes into the flash
and into prepared sectors, just if the blocks of an accepted image are aligned. -/
theorem flashTarget_prepared_iff (part : PartDesc) (calcUserCode : ℤ) (content : List UInt8) :
    (∀ (σ : Type) (E : Sys σ) (h : Host σ) (filename : List UInt8), h.log = [] →
      (∀ env, Gives E env filename content) →
      CopiesPrepared part (final (flashTarget E part filename calcUserCode h)).requested) ↔
    (part.Accepts calcUserCode (content.take part.flashSize.toNat) →
      part.Aligned (nbWrites (content.take part.flashSize.toNat) part.writeSize).toNat) := by
  constructor
  · intro hcopies ha
    obtain ⟨h', erasing, hrun, hreq, -⟩ := oneFile_requested ha
    have hall := hcopies _ _ blankHost _ rfl
      (oneFile_gives (L := bootloader (fun _ => none) part.uuencode.toNat) ha.ne)
    rw [hrun, final_ok, hreq] at hall
    exact aligned_of_copiesPrepared ha hall
  · intro hcond σ E h filename hstart hfile
    obtain ⟨erasing, texts, hp⟩ := flashTarget_planned part hfile calcUserCode h
    rw [hp.requested, requested_of_start hstart, List.nil_append]
    rcases hp.prefix_plan with rfl | ⟨ha, hpre⟩
    · intro before after dst src n he
      obtain ⟨b, -, hb⟩ := exists_of_append he fun hm => (hp.erasing _ hm).2 rfl
      simp at hb
    · exact copiesPrepared_of_aligned ha (hcond ha) hp.erasing hpre

/-- A part with sectors of one and a half blocks. -/
def unaligned : PartDesc := ⟨0, 0x600, 4, 4, 0x10000000, 0x400, 0x100, 0x100, 0⟩

theorem unaligned_accepts : unaligned.Accepts 0 ((List.replicate 0x300 0).take
    unaligned.flashSize.toNat) := by
  rw [List.take_of_length_le (by rw [List.length_replicate]; decide)]
  refine accepts_zeros ⟨by decide, by decide, by decide⟩ (by omega) (by omega) ?_
  rw [nbWrites, List.length_replicate]
  decide

/-- The second block gets into the second sector, which has not been prepared. -/
theorem flashTarget_unprepared : ∃ h',
    flashTarget ((bootloader (fun _ => none) 0).sys (oneFile (.replicate 0x300 0))) unaligned
      ['f'.toUInt8] 0 blankHost = .ok 0 h' ∧ ¬ CopiesPrepared unaligned h'.requested := by
  obtain ⟨h', erasing, hrun, hreq, -⟩ := oneFile_requested unaligned_accepts
  refine ⟨h', hrun, fun hcopies => ?_⟩
  rw [hreq] at hcopies
  have halign := aligned_of_copiesPrepared unaligned_accepts hcopies
  rw [List.take_of_length_le (by rw [List.length_replicate]; decide), nbWrites,
    List.length_replicate] at halign
  exact absurd halign.sectors (by decide)

end Prepared

section Ram

/-- `n` bytes from `addr` on are in the RAM. -/
def PartDesc.InRam (part : PartDesc) (addr n : ℕ) : Prop :=
  part.ramBase.toNat ≤ addr ∧ addr + n ≤ part.ramBase.toNat + part.ramSize.toNat

/-- All that is named in the RAM by a write or by a copy is there. -/
structure TransfersInRam (part : PartDesc) (texts : List (List UInt8)) : Prop where
  write : ∀ addr n : UInt32, twoArgsText 'W'.toUInt8 addr.toNat n.toNat ∈ texts →
    part.InRam addr.toNat n.toNat
  copy : ∀ dst src n : UInt32, addressText 'C'.toUInt8 dst.toNat src.toNat n.toNat ∈ texts →
    part.InRam src.toNat n.toNat

variable {part : PartDesc} {calcUserCode : ℤ} {image : List UInt8}
  {erasing texts : List (List UInt8)}

/-- A block fits behind the offset of the buffer, and the address of the buffer can be told. -/
structure PartDesc.BufferFits (part : PartDesc) : Prop where
  below : part.ramBase.toNat + part.ramBuffOffset.toNat < 2 ^ 32
  fits : part.ramBuffOffset.toNat + part.writeSize.toNat ≤ part.ramSize.toNat

theorem PartDesc.bufferFits_iff (part : PartDesc) :
    part.BufferFits ↔ part.InRam part.ramAddr.toNat part.writeSize.toNat := by
  have haddr : part.ramAddr.toNat =
      (part.ramBase.toNat + part.ramBuffOffset.toNat) % 2 ^ 32 := UInt32.toNat_add _ _
  have hoffset := part.ramBuffOffset.toNat_lt
  have hbase := part.ramBase.toNat_lt
  rw [PartDesc.InRam, haddr]
  constructor
  · rintro ⟨hbelow, hfits⟩
    rw [Nat.mod_eq_of_lt hbelow]
    omega
  · rintro ⟨hstart, hstop⟩
    constructor <;> omega

theorem transfersInRam_of_fits (hfits : part.BufferFits)
    (herasing : ∀ text ∈ erasing, NoTransfer text) (hpre : texts <+: part.plan image) :
    TransfersInRam part (erasing ++ texts) := by
  have hin := part.bufferFits_iff.1 hfits
  have hblock {text : List UInt8} (hm : text ∈ erasing ++ texts) (hno : ¬ NoTransfer text) :
      ∃ j, text ∈ part.blockTexts j := mem_blockTexts herasing hpre hm hno
  constructor
  · intro addr n hm
    obtain ⟨j, hj⟩ := hblock hm fun hno => hno.1 rfl
    simp only [PartDesc.blockTexts, List.mem_cons, List.not_mem_nil, or_false] at hj
    rcases hj with htext | htext | htext
    · cases (List.cons.inj htext).1
    · obtain ⟨-, rfl, rfl⟩ := twoArgsText_inj htext
      exact hin
    · cases (List.cons.inj htext).1
  · intro dst src n hm
    obtain ⟨j, hj⟩ := hblock hm fun hno => hno.2 rfl
    simp only [PartDesc.blockTexts, List.mem_cons, List.not_mem_nil, or_false] at hj
    rcases hj with htext | htext | htext
    · cases (List.cons.inj htext).1
    · cases (List.cons.inj htext).1
    · obtain ⟨-, -, rfl, rfl⟩ := addressText_inj htext
      exact hin

theorem fits_of_transfersInRam (ha : part.Accepts calcUserCode image)
    (hall : TransfersInRam part (erasing ++ part.plan image)) : part.BufferFits := by
  obtain ⟨-, -, -, hpos⟩ := ha.fits
  obtain ⟨after, hplan⟩ := plan_split hpos
  refine part.bufferFits_iff.2 (hall.write part.ramAddr part.writeSize ?_)
  rw [hplan]
  simp [PartDesc.blockTexts]

/-- Everything that `flash_target` names in the RAM is there, whatever the line and the system are like, just
if the buffer of a part with an accepted image fits. -/
theorem flashTarget_inRam_iff (part : PartDesc) (calcUserCode : ℤ) (content : List UInt8) :
    (∀ (σ : Type) (E : Sys σ) (h : Host σ) (filename : List UInt8), h.log = [] →
      (∀ env, Gives E env filename content) →
      TransfersInRam part (final (flashTarget E part filename calcUserCode h)).requested) ↔
    (part.Accepts calcUserCode (content.take part.flashSize.toNat) → part.BufferFits) := by
  constructor
  · intro hin ha
    obtain ⟨h', erasing, hrun, hreq, -⟩ := oneFile_requested ha
    have hall := hin _ _ blankHost _ rfl
      (oneFile_gives (L := bootloader (fun _ => none) part.uuencode.toNat) ha.ne)
    rw [hrun, final_ok, hreq] at hall
    exact fits_of_transfersInRam ha hall
  · intro hcond σ E h filename hstart hfile
    obtain ⟨erasing, texts, hp⟩ := flashTarget_planned part hfile calcUserCode h
    rw [hp.requested, requested_of_start hstart, List.nil_append]
    rcases hp.prefix_plan with rfl | ⟨ha, hpre⟩
    · rw [List.append_nil]
      exact ⟨fun addr n hm => absurd rfl (hp.erasing _ hm).1,
        fun dst src n hm => absurd rfl (hp.erasing _ hm).2⟩
    · exact transfersInRam_of_fits (hcond ha) hp.erasing hpre

/-- The LPC810 with its buffer at the end of the RAM. -/
def bufferAtEnd : PartDesc := { lpc810 with ramBuffOffset := 0x400 }

theorem bufferAtEnd_accepts : bufferAtEnd.Accepts 0 ((List.replicate 0x300 0).take
    bufferAtEnd.flashSize.toNat) := by
  rw [List.take_of_length_le (by rw [List.length_replicate]; decide)]
  refine accepts_zeros ⟨by decide, by decide, by decide⟩ (by omega) (by omega) ?_
  rw [nbWrites, List.length_replicate]
  decide

/-- All of it is written behind the RAM. -/
theorem flashTarget_behindRam : ∃ h',
    flashTarget ((bootloader (fun _ => none) 0).sys (oneFile (.replicate 0x300 0))) bufferAtEnd
      ['f'.toUInt8] 0 blankHost = .ok 0 h' ∧ ¬ TransfersInRam bufferAtEnd h'.requested := by
  obtain ⟨h', erasing, hrun, hreq, -⟩ := oneFile_requested bufferAtEnd_accepts
  refine ⟨h', hrun, fun hall => ?_⟩
  rw [hreq] at hall
  exact absurd (fits_of_transfersInRam bufferAtEnd_accepts hall).fits (by decide)

end Ram

end LpcTools
