import LpcTools.Proofs.IspVerdicts
import LpcTools.Lib.History

/-!
# The order of the requests of `lpcprog`

A run of a command is followed call by call, each sender function with the value it returned. What the
device needs before it erases, copies or jumps is asked for in the calls before, and a call that
fails is the last.
-/

namespace LpcTools

open Run History

/-- A call of a function that sends a request. -/
inductive Call where
  | unlock
  | partId
  | uid
  | bootVersion
  | readMemory (data : List Cell) (addr count : UInt32) (uuencoded : ℕ)
  | blankCheck (sector : ℤ)
  | prepare (sector : ℤ)
  | erase (sector : ℤ)
  | write (data : Mem) (addr : ℕ) (count : UInt32) (uuencode : ℕ)
  | copy (flashAddr ramAddr count : UInt32)
  | go (addr : UInt32) (mode : UInt8)

variable {σ : Type} (E : Sys σ)

def Call.run : Call → Prog σ ℤ
  | unlock => ispCmdUnlock E 1
  | partId => ispCmdPartId E 0
  | uid => ispCmdReadUid E
  | bootVersion => ispCmdBootVersion E
  | readMemory data addr count uuencoded => Prod.fst <$> ispReadMemory E data addr count uuencoded
  | blankCheck sector => ispSendCmdSectors E 'I'.toUInt8 sector sector 1
  | prepare sector => ispSendCmdSectors E 'P'.toUInt8 sector sector 1
  | erase sector => ispSendCmdSectors E 'E'.toUInt8 sector sector 1
  | write data addr count uuencode => ispSendBufToRam E data addr count uuencode
  | copy flashAddr ramAddr count => ispSendCmdAddress E 'C'.toUInt8 flashAddr ramAddr count
  | go addr mode => ispSendCmdGo E addr mode

/-- A call with the value it returned, `none` where the run broke off in it. -/
abbrev Made := Call × Option ℤ

/-- A run from one state of the host to another, by the calls made in it. Otherwise it only takes what
follows a status off the line and writes the output file. -/
inductive Calls : Host σ → List Made → Host σ → Prop
  | done (h : Host σ) : Calls h [] h
  | call (c : Call) {h h' : Host σ} {l : List Made} :
      Calls (final (c.run E h)) l h' → Calls h ((c, value (c.run E h)) :: l) h'
  | more (bufSize minRead : ℕ) {h h' : Host σ} {l : List Made} :
      Calls (final (readMore E bufSize minRead h)) l h' → Calls h l h'
  | save (data : List Cell) (len : UInt32) (filename : List UInt8) {h h' : Host σ}
      {l : List Made} : Calls (final (ispBuffToFile E data len filename h)) l h' → Calls h l h'

/-- The calls that begin or end what is done to a sector. -/
def Call.OnSector : Call → Prop
  | prepare _ => True
  | erase _ => True
  | copy _ _ _ => True
  | _ => False

/-- The last call of this kind has prepared the sector; `mid` are the calls made since. -/
def PreparedSince (before : List Made) (sector : ℤ) (mid : List Made) : Prop :=
  ∃ pre, before = pre ++ (.prepare sector, some 0) :: mid ∧ ∀ made ∈ mid, ¬ made.1.OnSector

/-- The sector that holds an address of the flash. -/
def PartDesc.sectorOf (part : PartDesc) (addr : UInt32) : ℤ :=
  toInt ((addr - part.flashBase) / (part.flashSize / part.flashNbSectors)).toNat

variable {E}

/-- What has to be done before a call. The block that is copied has been sent to the place in RAM it
is copied from, out of the image at the block's place in the flash. -/
def Call.Ready (E : Sys σ) (part : PartDesc) (image : List UInt8) (before : List Made) : Call → Prop
  | erase sector => (.unlock, some 0) ∈ before ∧ ∃ mid, PreparedSince before sector mid
  | copy flashAddr ramAddr count => (.unlock, some 0) ∈ before ∧
      ∃ mid, PreparedSince before (part.sectorOf flashAddr) mid ∧ ∃ env,
        (.write ((E.object env image).drop (flashAddr - part.flashBase).toNat) ramAddr.toNat count
          part.uuencode.toNat, some 0) ∈ mid
  | go _ _ => (.unlock, some 0) ∈ before
  | _ => True

/-- The calls of which anything but 0 is a failure. -/
def Call.MustSucceed : Call → Prop
  | unlock => True
  | prepare _ => True
  | erase _ => True
  | write _ _ _ _ => True
  | copy _ _ _ => True
  | _ => False

def Made.Stops (made : Made) : Prop :=
  made.2 = none ∨ made.1.MustSucceed ∧ made.2 ≠ some 0

/-- A run by its calls, each of them ready, with `P` of the value and the calls made for it. -/
def Traced {α : Type} (E : Sys σ) (part : PartDesc) (image : List UInt8) (before : List Made)
    (h : Host σ) (r : EStateM.Result Fault (Host σ) α) (P : α → List Made → Prop) : Prop :=
  ∃ calls, Calls E h calls (final r) ∧
    Guarded (fun before made => made.1.Ready E part image before) Made.Stops before calls ∧
    ∀ a, value r = some a → P a calls

section Rules

variable {α β : Type} {part : PartDesc} {image : List UInt8} {before : List Made}
  {h h₁ h' : Host σ} {P : α → List Made → Prop} {Q : β → List Made → Prop}

theorem Calls.append {l l' : List Made} (c : Calls E h l h₁) (c' : Calls E h₁ l' h') :
    Calls E h (l ++ l') h' := by
  induction c with
  | done h => exact c'
  | call c _ ih => exact .call c (ih c')
  | more n m _ ih => exact .more n m (ih c')
  | save data len filename _ ih => exact .save data len filename (ih c')

theorem Traced.mono {r : EStateM.Result Fault (Host σ) α} {P' : α → List Made → Prop}
    (ht : Traced E part image before h r P) (hP : ∀ a l, P a l → P' a l) :
    Traced E part image before h r P' := by
  obtain ⟨calls, hcalls, hguard, hvalue⟩ := ht
  exact ⟨calls, hcalls, hguard, fun a ha => hP a calls (hvalue a ha)⟩

theorem Traced.pure {a : α} (ha : P a []) :
    Traced E part image before h ((pure a : Prog σ α) h) P := by
  refine ⟨[], .done h, .nil before, fun b hb => ?_⟩
  cases hb
  exact ha

theorem Traced.throw {f : Fault} : Traced E part image before h ((throw f : Prog σ α) h) P :=
  ⟨[], .done h, .nil before, fun b hb => by cases hb⟩

theorem Traced.ite {p : Prop} [Decidable p] {x y : Prog σ α}
    (hx : p → Traced E part image before h (x h) P)
    (hy : ¬ p → Traced E part image before h (y h) P) :
    Traced E part image before h ((if p then x else y) h) P := by
  by_cases hp : p
  · rw [if_pos hp]
    exact hx hp
  · rw [if_neg hp]
    exact hy hp

/-- A function whose value has the call's value in it. -/
theorem Traced.call {c : Call} {x : Prog σ α} {g : α → ℤ} (hx : (g <$> x) h = c.run E h)
    (hready : c.Ready E part image before) :
    Traced E part image before h (x h) fun a l => l = [(c, some (g a))] := by
  have hfinal : final (x h) = final (c.run E h) := by
    rw [← hx, final_map]
  refine ⟨[(c, value (c.run E h))], .call c ?_, .single hready, fun a ha => ?_⟩
  · rw [hfinal]
    exact .done _
  · rw [← hx, value_map, ha]
    rfl

theorem Traced.ask (c : Call) (hready : c.Ready E part image before) :
    Traced E part image before h (c.run E h) fun ret l => l = [(c, some ret)] :=
  Traced.call (g := id) (by rw [id_map]) hready

theorem Traced.quiet {x : Prog σ α} (hx : Calls E h [] (final (x h))) :
    Traced E part image before h (x h) fun _ l => l = [] :=
  ⟨[], hx, .nil before, fun _ _ => rfl⟩

/-- A sequence goes on behind calls that did not stop it, or has nothing left to do. -/
theorem Traced.bind {x : Prog σ α} {f : α → Prog σ β}
    (hx : Traced E part image before h (x h) P)
    (hf : ∀ a h₁ l, x h = .ok a h₁ → P a l →
      (∀ made ∈ l, ¬ made.Stops) ∧
        Traced E part image (before ++ l) h₁ (f a h₁) (fun b l' => Q b (l ++ l')) ∨
      ∃ b, f a h₁ = .ok b h₁ ∧ Q b l) :
    Traced E part image before h ((x >>= f) h) Q := by
  obtain ⟨l, hcalls, hguard, hvalue⟩ := hx
  rcases hr : x h with ⟨a, h₁⟩ | ⟨e, h₁⟩ <;> rw [hr] at hcalls hvalue
  · rw [bind_ok hr]
    rcases hf a h₁ l hr (hvalue a rfl) with ⟨hrun, l', hcalls', hguard', hvalue'⟩ | ⟨b, hb, hQ⟩
    · exact ⟨l ++ l', hcalls.append hcalls', hguard.append hrun hguard', hvalue'⟩
    · rw [hb]
      refine ⟨l, hcalls, hguard, fun b' hb' => ?_⟩
      cases hb'
      exact hQ
  · rw [bind_error hr]
    exact ⟨l, hcalls, hguard, fun b hb => by cases hb⟩

theorem not_stops_success (c : Call) : ¬ Made.Stops (c, some 0) := by
  simp [Made.Stops]

theorem not_stops_result {c : Call} (hc : ¬ c.MustSucceed) (ret : ℤ) : ¬ Made.Stops (c, some ret) := by
  simp [Made.Stops, hc]

theorem Traced.require {c : Call} {x : Prog σ ℤ} {k : Prog σ β} {fail : ℤ → β}
    (hx : x = c.run E) (hready : c.Ready E part image before)
    (hk : ∀ h₁, Traced E part image (before ++ [(c, some 0)]) h₁ (k h₁)
      (fun b l => Q b ((c, some 0) :: l)))
    (hfail : ∀ ret, ret ≠ 0 → Q (fail ret) [(c, some ret)]) :
    Traced E part image before h
      ((x >>= fun ret => if ret ≠ 0 then Pure.pure (fail ret) else k) h) Q := by
  subst hx
  refine Traced.bind (Traced.ask c hready) ?_
  rintro ret h₁ l - rfl
  by_cases hret : ret ≠ 0
  · right
    rw [if_pos hret]
    exact ⟨fail ret, rfl, hfail ret hret⟩
  · left
    rw [if_neg hret, not_not.1 hret]
    refine ⟨fun made hmade => ?_, hk h₁⟩
    rw [List.mem_singleton.1 hmade]
    exact not_stops_success c

end Rules

section Erase

variable {part : PartDesc} {image : List UInt8} {before : List Made} {h : Host σ}

/-- A value of 0 means that every call went well. -/
def WentWell (ret : ℤ) (l : List Made) : Prop := ret = 0 → ∀ made ∈ l, ¬ made.Stops

theorem WentWell.cons {ret : ℤ} {made : Made} {l : List Made} (hl : WentWell ret l)
    (hmade : ¬ made.Stops) : WentWell ret (made :: l) := by
  intro hret m hm
  rcases List.mem_cons.1 hm with rfl | hm
  · exact hmade
  · exact hl hret m hm

theorem wentWell_of_ne {ret : ℤ} (hret : ret ≠ 0) (l : List Made) : WentWell ret l :=
  fun h0 => absurd h0 hret

theorem eraseSectors_traced : ∀ (n i : ℕ) (before : List Made) (h : Host σ),
    (.unlock, some 0) ∈ before →
    Traced E part image before h (eraseSectors E n i h) WentWell
  | 0, i, before, h, hunlock => Traced.pure fun _ made hm => by cases hm
  | n + 1, i, before, h, hunlock => by
    have hcheck : ∀ ret, ¬ Made.Stops (.blankCheck i, some ret) := not_stops_result id
    have hmem : ∀ l : List Made, (.unlock, some 0) ∈ before ++ l :=
      fun l => List.mem_append_left l hunlock
    unfold eraseSectors
    refine Traced.bind (Traced.ask (.blankCheck i) trivial) ?_
    rintro ret h₁ l - rfl
    have hrun : ∀ made ∈ [(Call.blankCheck i, some ret)], ¬ Made.Stops made := by
      intro made hm
      rw [List.mem_singleton.1 hm]
      exact hcheck ret
    by_cases h0 : ret = 0
    · left
      rw [if_pos h0]
      refine ⟨hrun, (eraseSectors_traced n (i + 1) _ h₁ (hmem _)).mono ?_⟩
      exact fun ret' l hl => hl.cons (hcheck ret)
    · rw [if_neg h0]
      by_cases hneg : ret < 0
      · right
        rw [if_pos hneg]
        exact ⟨ret, rfl, wentWell_of_ne h0 _⟩
      · left
        rw [if_neg hneg]
        refine ⟨hrun, ?_⟩
        refine Traced.bind (Traced.quiet (.more progRepBufsize 3 (.done _))) ?_
        rintro r h₂ l - rfl
        left
        rw [List.append_nil]
        refine ⟨fun made hm => (by cases hm), ?_⟩
        refine Traced.require (c := .prepare i) rfl trivial (fun h₃ => ?_)
          (fun ret' hne => wentWell_of_ne hne _)
        refine Traced.require (c := .erase i) rfl
          ⟨?_, [], ⟨_, rfl, fun made hm => by cases hm⟩⟩
          (fun h₄ => ?_) (fun ret' hne => wentWell_of_ne hne _)
        · rw [List.append_assoc]
          exact hmem _
        · refine (eraseSectors_traced n (i + 1) _ h₄ ?_).mono fun ret' l hl =>
            ((hl.cons (not_stops_success _)).cons (not_stops_success _)).cons (hcheck ret)
          rw [List.append_assoc, List.append_assoc]
          exact hmem _

theorem eraseFlash_traced : Traced E part image before h (eraseFlash E part h) fun ret l =>
    WentWell ret l ∧ (ret = 0 → (.unlock, some 0) ∈ l) := by
  unfold eraseFlash
  refine Traced.require (c := .unlock) rfl trivial (fun h₁ => ?_)
    (fun ret hne => ⟨wentWell_of_ne (by simp) _, fun he => by cases he⟩)
  refine (eraseSectors_traced _ 0 _ h₁ (by simp)).mono fun ret l hl => ?_
  exact ⟨hl.cons (not_stops_success _), fun _ => List.mem_cons_self⟩

end Erase

section Flash

variable {part : PartDesc} {before : List Made} {h : Host σ}

theorem flashBlocks_traced (part : PartDesc) (data : List UInt8) (writeSize ramAddr : UInt32) :
    ∀ (n i : ℕ) (before : List Made) (h : Host σ), (.unlock, some 0) ∈ before →
    Traced E part data before h (flashBlocks E part data writeSize
      (part.flashSize / part.flashNbSectors) ramAddr n i h) fun _ _ => True
  | 0, i, before, h, hunlock => Traced.pure trivial
  | n + 1, i, before, h, hunlock => by
    have hmem : ∀ l : List Made, (.unlock, some 0) ∈ before ++ l :=
      fun l => List.mem_append_left l hunlock
    unfold flashBlocks
    simp only []
    refine Traced.ite (fun _ => Traced.throw) fun _ => ?_
    set offset := UInt32.ofNat i * writeSize
    have hback : part.flashBase + offset - part.flashBase = offset := by
      rw [UInt32.add_comm, UInt32.add_sub_cancel]
    refine Traced.require (c := .prepare (part.sectorOf (part.flashBase + offset))) ?_ trivial
      (fun h₁ => ?_) (fun _ _ => trivial)
    · rw [PartDesc.sectorOf, hback]
      rfl
    · refine Traced.require (c := .write ((E.object h₁.env data).drop offset.toNat) ramAddr.toNat
        writeSize part.uuencode.toNat) rfl trivial (fun h₂ => ?_) (fun _ _ => trivial)
      refine Traced.require (c := .copy (part.flashBase + offset) ramAddr writeSize) rfl ?_
        (fun h₃ => ?_) (fun _ _ => trivial)
      · refine ⟨?_, [_], ⟨before, List.append_assoc _ _ _, ?_⟩, h₁.env, ?_⟩
        · rw [List.append_assoc]
          exact hmem _
        · intro made hm
          rw [List.mem_singleton.1 hm]
          exact id
        · rw [hback]
          exact List.mem_singleton.2 rfl
      · refine (flashBlocks_traced part data writeSize ramAddr n (i + 1) _ h₃ ?_).mono
          fun _ _ _ => trivial
        rw [List.append_assoc, List.append_assoc]
        exact hmem _

/-- The image that is flashed is known before anything is asked for. -/
theorem flashImage_traced (part : PartDesc) (image : List UInt8) (writeSize ramAddr : UInt32)
    (calcUserCode : ℤ) : ∃ data, ∀ (before : List Made) (h : Host σ), (.unlock, some 0) ∈ before →
      Traced E part data before h (flashImage E part image writeSize
        (part.flashSize / part.flashNbSectors) ramAddr calcUserCode h) fun _ _ => True := by
  unfold flashImage
  simp only []
  set filled := image ++ List.replicate (part.flashSize.toNat - image.length) 0
  rcases patchUserCode_cases filled calcUserCode with ⟨_ | data, hpatch⟩ | hpatch
  · refine ⟨[], fun before h _ => ?_⟩
    rw [bind_ok (hpatch h)]
    exact Traced.pure trivial
  · refine ⟨data, fun before h hunlock => ?_⟩
    rw [bind_ok (hpatch h)]
    simp only []
    rcases word data (crpOffset / 4) with _ | crp
    · exact Traced.throw
    · refine Traced.ite (fun _ => Traced.pure trivial) fun _ => ?_
      refine Traced.ite (fun _ => Traced.throw) fun _ => ?_
      refine Traced.ite (fun _ => Traced.pure trivial) fun _ => ?_
      exact flashBlocks_traced part data writeSize ramAddr _ 0 before h hunlock
  · refine ⟨[], fun before h _ => ?_⟩
    rw [bind_error (hpatch h)]
    exact Traced.throw

theorem flashTarget_traced (part : PartDesc) (filename : List UInt8) (calcUserCode : ℤ)
    (h : Host σ) : ∃ image,
      Traced E part image [] h (flashTarget E part filename calcUserCode h) fun _ _ => True := by
  unfold flashTarget
  by_cases hsectors : part.flashNbSectors = 0
  · rw [if_pos hsectors]
    exact ⟨[], Traced.throw⟩
  rw [if_neg hsectors]
  simp only []
  by_cases hram : part.ramBase + part.ramSize < part.ramBase + part.ramBuffOffset
  · rw [if_pos hram]
    exact ⟨[], Traced.pure trivial⟩
  rw [if_neg hram]
  set writeSize := calcWriteSize (part.flashSize / part.flashNbSectors) part.ramBuffSize
  by_cases hsize : writeSize = 0
  · rw [if_pos hsize]
    exact ⟨[], Traced.pure trivial⟩
  rw [if_neg hsize]
  -- the image is the one that is loaded from the file once the flash is erased
  obtain ⟨⟨size, loaded⟩, hfile⟩ := ispFileToBuff_eq (E := E) part.flashSize.toNat filename
    (final (eraseFlash E part h))
  obtain ⟨data, hdata⟩ := flashImage_traced (E := E) part loaded writeSize
    (part.ramBase + part.ramBuffOffset) calcUserCode
  refine ⟨data, Traced.bind eraseFlash_traced ?_⟩
  rintro ret h₁ l hr ⟨hwell, hunlock⟩
  rw [hr, final_ok] at hfile
  by_cases h0 : ret ≠ 0
  · rw [if_pos h0]
    exact .inr ⟨-3, rfl, trivial⟩
  obtain rfl : ret = 0 := not_not.1 h0
  rw [if_neg h0, bind_ok (get_apply _)]
  refine .inl ⟨hwell rfl, Traced.ite (fun _ => Traced.pure trivial) fun _ => ?_⟩
  rw [bind_ok hfile]
  refine Traced.ite (fun _ => Traced.pure trivial) fun _ => ?_
  exact hdata _ h₁ (hunlock rfl)

end Flash

section Commands

variable {part : PartDesc} {image : List UInt8} {before : List Made} {h : Host σ}

theorem dumpToFile_traced (filename : List UInt8) :
    Traced E part image before h (dumpToFile E part filename h) fun _ _ => True := by
  unfold dumpToFile
  rw [bind_ok (get_apply _)]
  refine Traced.ite (fun _ => Traced.pure trivial) fun _ => ?_
  refine Traced.bind (Traced.call (c := .readMemory (.replicate part.flashSize.toNat none)
    part.flashBase part.flashSize part.uuencode.toNat) (g := Prod.fst) rfl trivial) ?_
  rintro ⟨len, data⟩ h₁ l - rfl
  left
  refine ⟨fun made hm => ?_, (Traced.quiet (.save data part.flashSize filename (.done _))).mono
    fun _ _ _ => trivial⟩
  rw [List.mem_singleton.1 hm]
  exact not_stops_result id len

theorem getIds_traced : Traced E part image before h (getIds E h) fun _ _ => True := by
  have hrun : ∀ {c : Call} {ret : ℤ}, ¬ c.MustSucceed →
      ∀ made ∈ [(c, some ret)], ¬ Made.Stops made := by
    intro c ret hc made hm
    rw [List.mem_singleton.1 hm]
    exact not_stops_result hc ret
  unfold getIds
  refine Traced.bind (Traced.ask .partId trivial) fun ret h₁ l _ hl => .inl ⟨?_, ?_⟩
  · rw [hl]
    exact hrun id
  refine Traced.bind (Traced.ask .uid trivial) fun ret h₁ l _ hl => .inl ⟨?_, ?_⟩
  · rw [hl]
    exact hrun id
  refine Traced.bind (Traced.ask .bootVersion trivial) fun ret h₁ l _ hl => .inl ⟨?_, ?_⟩
  · rw [hl]
    exact hrun id
  exact Traced.pure trivial

theorem startProg_traced : Traced E part image before h (startProg E part h) fun _ _ => True := by
  unfold startProg
  refine Traced.bind (Traced.call (c := .readMemory (.replicate 4 (some 0))
    (part.flashBase + part.resetVectorOffset) 4 part.uuencode.toNat) (g := Prod.fst) rfl trivial) ?_
  rintro ⟨len, data⟩ h₁ l - rfl
  by_cases h4 : len ≠ 4
  · simp only [if_pos h4]
    exact .inr ⟨len, rfl, trivial⟩
  simp only [if_neg h4]
  refine .inl ⟨fun made hm => ?_, ?_⟩
  · rw [List.mem_singleton.1 hm]
    exact not_stops_result id len
  refine Traced.require (c := .unlock) rfl trivial (fun h₂ => ?_) (fun _ _ => trivial)
  have hgo : ∀ addr mode, Traced E part image
      (before ++ [(Call.readMemory (.replicate 4 (some 0))
        (part.flashBase + part.resetVectorOffset) 4 part.uuencode.toNat, some len)] ++
        [(.unlock, some 0)]) h₂ (ispSendCmdGo E addr mode h₂) fun _ _ => True :=
    fun addr mode => (Traced.ask (.go addr mode) (by simp [Call.Ready])).mono fun _ _ _ => trivial
  exact Traced.ite (fun _ => hgo _ _) fun _ => hgo _ _

end Commands

/-- In every run of a command of `lpcprog` each call is ready, and one that fails is the last. -/
theorem ProgCommand.run_ordered (command : ProgCommand) (part : PartDesc) (calcUserCode : ℤ)
    (args : List (List UInt8)) (h : Host σ) : ∃ image calls,
      Calls E h calls (final (command.run E part calcUserCode args h)) ∧
      ∀ pre made post, calls = pre ++ made :: post →
        made.1.Ready E part image pre ∧ (made.Stops → post = []) := by
  obtain ⟨image, calls, hcalls, hguard, -⟩ : ∃ image, Traced E part image [] h
      (command.run E part calcUserCode args h) fun _ _ => True := by
    cases command with
    | dump =>
      rcases args with _ | ⟨filename, _ | ⟨arg₁, rest⟩⟩
      · exact ⟨[], Traced.pure trivial⟩
      · exact ⟨[], dumpToFile_traced filename⟩
      · exact ⟨[], Traced.pure trivial⟩
    | flash =>
      rcases args with _ | ⟨filename, _ | ⟨arg₁, rest⟩⟩
      · exact ⟨[], Traced.pure trivial⟩
      · exact flashTarget_traced part filename calcUserCode h
      · exact ⟨[], Traced.pure trivial⟩
    | id => exact ⟨[], getIds_traced⟩
    | blank => exact ⟨[], eraseFlash_traced.mono fun _ _ _ => trivial⟩
    | go => exact ⟨[], startProg_traced⟩
  refine ⟨image, calls, hcalls, fun pre made post hsplit => ?_⟩
  subst hsplit
  exact hguard.split

end LpcTools
