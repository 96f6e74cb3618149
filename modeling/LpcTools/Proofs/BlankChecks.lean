import LpcTools.Proofs.ProgVerdicts
import LpcTools.Lib.History

/-!
# What `erase_flash` takes for "not blank"

Any positive answer to a blank check leads to an erase, be it an invalid sector or a locked device. So a
failed blank check stops `erase_flash` just in the runs in which no positive answer but
`SECTOR_NOT_BLANK` is given to one (`eraseFlash_careful_iff`).
-/

namespace LpcTools

open Run History

/-- A request and what became of it. -/
def Event.exchange : Event → Option (List UInt8 × Answer)
  | .request text a => some (text, a)
  | _ => none

def exchanges (log : List Event) : List (List UInt8 × Answer) := log.filterMap Event.exchange

/-- Prepare and erase are asked for a sector only behind its blank check, answered "not blank". -/
def SectorChecked (before : List (List UInt8 × Answer)) (x : List UInt8 × Answer) : Prop :=
  ∀ i, x.1 = sectorText 'P'.toUInt8 i ∨ x.1 = sectorText 'E'.toUInt8 i →
    (sectorText 'I'.toUInt8 i, .status 8) ∈ before

/-- A blank check answered with a status that is no result of one. -/
def CheckFailed (x : List UInt8 × Answer) : Prop :=
  ∃ i s, x = (sectorText 'I'.toUInt8 i, .status s) ∧ s ≠ 0 ∧ s ≠ 8

/-- A failed blank check is the last request of a run that ends with an error, and no other sector is
prepared or erased than those found not blank. -/
structure Careful {σ : Type} (run : EStateM.Result Fault (Host σ) ℤ) : Prop where
  guarded : Guarded SectorChecked CheckFailed [] (exchanges (final run).log)
  error : ∀ x ∈ exchanges (final run).log, CheckFailed x → ∃ ret, value run = some ret ∧ ret ≠ 0

/-- The positive answers to blank checks are all "not blank". -/
def OnlyNotBlank (log : List Event) : Prop :=
  ∀ i s, (sectorText 'I'.toUInt8 i, .status s) ∈ exchanges log → 0 < s → s = 8

section Exchanges

variable {σ : Type} {h : Host σ}

@[simp] theorem exchanges_request (text : List UInt8) (a : Answer) (es : List Event) :
    exchanges (.request text a :: es) = (text, a) :: exchanges es := rfl

@[simp] theorem exchanges_replied (answered : Bool) (es : List Event) :
    exchanges (.replied answered :: es) = exchanges es := rfl

theorem exchanges_offLine (h : Host σ) : exchanges h.offLine = exchanges h.log := by
  rw [exchanges, Host.offLine, List.filterMap_filter, exchanges]
  congr 1
  funext e
  rcases e with _ | _ | _ | _ | _ | _ | _ | _ | _ <;> rfl

end Exchanges

section Sectors

variable {before : List (List UInt8 × Answer)} {cmd cmd' : UInt8} {i j : ℕ} {a : Answer}

theorem sectorText_ne (hcmd : cmd ≠ cmd') : sectorText cmd i ≠ sectorText cmd' j :=
  fun he => hcmd (List.cons.inj he).1

/-- The requests about a sector differ in their first letter only. -/
theorem sectorText_other (he : sectorText cmd i = sectorText cmd' j) (c : UInt8) :
    sectorText c i = sectorText c j :=
  congrArg (List.cons c) (List.cons.inj he).2

theorem sectorChecked_of_check : SectorChecked before (sectorText 'I'.toUInt8 i, a) := by
  rintro j (he | he)
  · exact absurd he (sectorText_ne (by decide))
  · exact absurd he (sectorText_ne (by decide))

theorem sectorChecked_of_mem (hm : (sectorText 'I'.toUInt8 i, .status 8) ∈ before) :
    SectorChecked before (sectorText cmd i, a) := by
  rintro j (he | he) <;> rwa [← sectorText_other he 'I'.toUInt8]

theorem not_checkFailed (hcmd : cmd ≠ 'I'.toUInt8) : ¬ CheckFailed (sectorText cmd i, a) := by
  rintro ⟨j, s, he, -⟩
  exact sectorText_ne hcmd (Prod.mk.inj he).1

theorem checkFailed_iff : CheckFailed (sectorText 'I'.toUInt8 i, a) ↔
    ∃ s, a = .status s ∧ s ≠ 0 ∧ s ≠ 8 := by
  constructor
  · rintro ⟨j, s, he, hs⟩
    exact ⟨s, (Prod.mk.inj he).2, hs⟩
  · rintro ⟨s, rfl, hs⟩
    exact ⟨i, s, rfl, hs⟩

end Sectors

section Sweep

variable {i n : ℕ} {ret : ℤ} {es : List Event}

theorem OnlyNotBlank.tail {e : Event} (hc : OnlyNotBlank (e :: es)) : OnlyNotBlank es := by
  intro j s hm
  refine hc j s ?_
  rw [exchanges, List.mem_filterMap] at hm ⊢
  obtain ⟨e', he', hx⟩ := hm
  exact ⟨e', List.mem_cons_of_mem _ he', hx⟩

theorem onlyNotBlank_cons {text : List UInt8} {a : Answer} :
    OnlyNotBlank (.request text a :: es) ↔
      (∀ j s, text = sectorText 'I'.toUInt8 j → a = .status s → 0 < s → s = 8) ∧ OnlyNotBlank es := by
  constructor
  · refine fun hc => ⟨?_, hc.tail⟩
    rintro j s rfl rfl
    exact hc j s List.mem_cons_self
  · rintro ⟨hhead, htail⟩ j s hm
    rw [exchanges_request, List.mem_cons, Prod.mk.injEq] at hm
    rcases hm with ⟨htext, ha⟩ | hm
    · exact hhead j s htext.symm ha.symm
    · exact htail j s hm

theorem onlyNotBlank_other {cmd : UInt8} {j : ℕ} {a : Answer} (hcmd : cmd ≠ 'I'.toUInt8)
    (hc : OnlyNotBlank es) : OnlyNotBlank (.request (sectorText cmd j) a :: es) :=
  onlyNotBlank_cons.2 ⟨fun _ _ he => absurd he (sectorText_ne hcmd), hc⟩

theorem onlyNotBlank_checked {j : ℕ} {s : ℤ} {answered : Bool} (h8 : s = 8) (hc : OnlyNotBlank es) :
    OnlyNotBlank (.request (sectorText 'I'.toUInt8 j) (.status s) :: .replied answered :: es) := by
  refine onlyNotBlank_cons.2 ⟨fun k s' _ ha _ => ?_, hc⟩
  cases ha
  exact h8

/-- With no other positive answers, each sector is erased behind its blank check, and a failed check is
the last request. The proof goes over the sectors. -/
theorem Sweep.careful (hs : Sweep i n ret es) (hc : OnlyNotBlank es)
    (before : List (List UInt8 × Answer)) :
    Guarded SectorChecked CheckFailed before (exchanges es) ∧
      ∀ x ∈ exchanges es, CheckFailed x → ret ≠ 0 := by
  have hpassed : ∀ {j : ℕ} {s : ℤ}, s = 0 ∨ s = 8 →
      ¬ CheckFailed (sectorText 'I'.toUInt8 j, .status s) := by
    intro j s hcode hfailed
    obtain ⟨s', hs', h0, h8⟩ := checkFailed_iff.1 hfailed
    cases hs'
    exact hcode.elim h0 h8
  have hP : ∀ {j : ℕ} {a : Answer}, ¬ CheckFailed (sectorText 'P'.toUInt8 j, a) :=
    not_checkFailed (by decide)
  have hE : ∀ {j : ℕ} {a : Answer}, ¬ CheckFailed (sectorText 'E'.toUInt8 j, a) :=
    not_checkFailed (by decide)
  induction hs generalizing before with
  | done => exact ⟨trivial, fun x hx => by cases hx⟩
  | @blank i n ret es hrest ih =>
    obtain ⟨hguard, herror⟩ := ih (onlyNotBlank_cons.1 hc).2
      (before ++ [(sectorText 'I'.toUInt8 i, .status 0)])
    refine ⟨⟨sectorChecked_of_check, fun hf => absurd hf (hpassed (.inl rfl)), hguard⟩, ?_⟩
    simp only [exchanges_request, List.forall_mem_cons]
    exact ⟨fun hf => absurd hf (hpassed (.inl rfl)), herror⟩
  | @failed i n ret a ha hret =>
    exact ⟨.single sectorChecked_of_check, fun _ _ _ => hret.ne⟩
  | @unprepared i n ret s a answered hpos ha hret hstatus =>
    obtain rfl := (onlyNotBlank_cons.1 hc).1 i s rfl rfl hpos
    refine ⟨⟨sectorChecked_of_check, fun hf => absurd hf (hpassed (.inr rfl)), .single ?_⟩,
      fun _ _ _ => hret⟩
    exact sectorChecked_of_mem (by simp)
  | @unerased i n ret s a answered hpos ha hret hstatus =>
    obtain rfl := (onlyNotBlank_cons.1 hc).1 i s rfl rfl hpos
    refine ⟨⟨sectorChecked_of_check, fun hf => absurd hf (hpassed (.inr rfl)),
      sectorChecked_of_mem (by simp), fun hf => absurd hf hP, .single ?_⟩, fun _ _ _ => hret⟩
    exact sectorChecked_of_mem (by simp)
  | @erased i n ret s es answered hpos hrest ih =>
    obtain rfl := (onlyNotBlank_cons.1 hc).1 i s rfl rfl hpos
    obtain ⟨hguard, herror⟩ := ih hc.tail.tail.tail.tail
      (before ++ [(sectorText 'I'.toUInt8 i, .status 8)] ++
        [(sectorText 'P'.toUInt8 i, .status 0)] ++ [(sectorText 'E'.toUInt8 i, .status 0)])
    refine ⟨⟨sectorChecked_of_check, fun hf => absurd hf (hpassed (.inr rfl)),
      sectorChecked_of_mem (by simp), fun hf => absurd hf hP,
      sectorChecked_of_mem (by simp), fun hf => absurd hf hE, hguard⟩, ?_⟩
    simp only [exchanges_request, exchanges_replied, List.forall_mem_cons]
    exact ⟨fun hf => absurd hf (hpassed (.inr rfl)), fun hf => absurd hf hP,
      fun hf => absurd hf hE, herror⟩

/-- A positive answer that is not "not blank" is not the last in the log. -/
theorem Sweep.onlyNotBlank (hs : Sweep i n ret es) {before : List (List UInt8 × Answer)}
    (hguard : Guarded SectorChecked CheckFailed before (exchanges es)) : OnlyNotBlank es := by
  have hnext : ∀ {j : ℕ} {s : ℤ} {l : List (List UInt8 × Answer)}, 0 < s → l ≠ [] →
      (CheckFailed (sectorText 'I'.toUInt8 j, .status s) → l = []) → s = 8 := by
    intro j s l hpos hne hstop
    by_contra h8
    exact hne (hstop (checkFailed_iff.2 ⟨s, rfl, hpos.ne', h8⟩))
  have hnil : OnlyNotBlank [] := fun j s hm => by cases hm
  induction hs generalizing before with
  | done => exact hnil
  | @blank i n ret es hrest ih =>
    refine onlyNotBlank_cons.2 ⟨fun j s _ ha hpos => ?_, ih hguard.2.2⟩
    cases ha
    omega
  | @failed i n ret a ha hret =>
    refine onlyNotBlank_cons.2 ⟨fun j s _ hstatus hpos => ?_, hnil⟩
    rw [hstatus, Answer.ret] at ha
    omega
  | unprepared answered hpos ha hret hstatus =>
    exact onlyNotBlank_checked (hnext hpos (List.cons_ne_nil _ _) hguard.2.1)
      (onlyNotBlank_other (by decide) hnil)
  | unerased answered hpos ha hret hstatus =>
    exact onlyNotBlank_checked (hnext hpos (List.cons_ne_nil _ _) hguard.2.1)
      (onlyNotBlank_other (by decide) (onlyNotBlank_other (by decide) hnil))
  | erased answered hpos hrest ih =>
    exact onlyNotBlank_checked (hnext hpos (List.cons_ne_nil _ _) hguard.2.1)
      (onlyNotBlank_other (by decide) (onlyNotBlank_other (by decide) (ih hguard.2.2.2.2.2.2)))

end Sweep

section Flash

variable {σ : Type} {E : Sys σ} {h : Host σ}

theorem unlock_ne {cmd : UInt8} {i : ℕ} (hcmd : 'U'.toUInt8 ≠ cmd) : unlock ≠ sectorText cmd i :=
  fun he => hcmd (List.cons.inj he).1

theorem FlashSweep.careful_iff {n : ℕ} {ret : ℤ} {es : List Event} (hs : FlashSweep n ret es) :
    (Guarded SectorChecked CheckFailed [] (exchanges es) ∧
      ∀ x ∈ exchanges es, CheckFailed x → ret ≠ 0) ↔ OnlyNotBlank es := by
  have hchecked : ∀ a, SectorChecked [] (unlock, a) := by
    rintro a i (he | he)
    · exact absurd he (unlock_ne (by decide))
    · exact absurd he (unlock_ne (by decide))
  have hpassed : ∀ a, ¬ CheckFailed (unlock, a) := by
    rintro a ⟨i, s, he, -⟩
    exact unlock_ne (by decide) (Prod.mk.inj he).1
  have honly : ∀ a es, OnlyNotBlank (.request unlock a :: es) ↔ OnlyNotBlank es := fun a es =>
    onlyNotBlank_cons.trans (and_iff_right fun _ _ he => absurd he (unlock_ne (by decide)))
  rcases hs with @⟨a, ha⟩ | @⟨ret, es, hs⟩
  · refine iff_of_true ⟨.single (hchecked a), fun _ _ _ => by decide⟩ ((honly _ _).2 ?_)
    exact fun j s hm => by cases hm
  · rw [honly]
    constructor
    · exact fun hr => hs.onlyNotBlank hr.1.2.2
    · intro hc
      obtain ⟨hguard, herror⟩ := hs.careful hc [(unlock, .status 0)]
      refine ⟨⟨hchecked _, fun hf => absurd hf (hpassed _), hguard⟩, ?_⟩
      simp only [exchanges_request, List.forall_mem_cons]
      exact ⟨fun hf => absurd hf (hpassed _), herror⟩

/-- A part with one sector. -/
def oneSector : PartDesc := ⟨0, 0x1000, 1, 4, 0x10000000, 0x400, 0x200, 0x100, 1⟩

end Flash

end LpcTools
