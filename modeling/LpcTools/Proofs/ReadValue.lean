import LpcTools.Proofs.Verdicts

/-!
# The value `isp_read_memory` returns

The value stands for an error of the host, the device's status or a number of bytes. A status is
returned as it is, a second read that fails is added to the length of the first, and the loop over
blocks leaves its error aside. `ispReadMemory_meant_iff` says when the value returned is the number of
bytes received all the same, or negative where it has to be.
-/

namespace LpcTools

open Run Decimal Uuencode

/-- All that was asked for has come: every byte, or every block. -/
def AllCame (count uu : ℕ) (log : List Event) : Prop :=
  if uu = 0 then (tookBytes log).length = count
  else (log.filterMap Event.acknowledged).length = nbBlocks count

/-- The value returned means bytes received. It is negative if the request was not granted, or an error
left nothing received. -/
structure ReadMeant (text : List UInt8) (count uu : ℕ) (r : ℤ × List Cell) (log : List Event) :
    Prop where
  refused : .request text (.status 0) ∉ log → r.1 < 0
  failed : receivedBytes uu log = [] → ¬ AllCame count uu log → r.1 < 0
  received : .request text (.status 0) ∈ log → receivedBytes uu log ≠ [] ∨ AllCame count uu log →
    r.1 = (receivedBytes uu log).length ∧ r.1 ≤ count ∧
      r.2.take (receivedBytes uu log).length = (receivedBytes uu log).map some

variable {σ : Type} (E : Sys σ)

/-- How the line behaves when data that is not uuencoded is read as it should be: nothing comes, or no
read is broken off by an error. -/
def RawWhole (count : ℕ) (h : Host σ) : Prop :=
  0 < count ∧ ∃ len got h₁, ispSerialRead E count count h = .ok (len, got) h₁ ∧
    (got = [] ∨ len = got.length ∧ (got.length = count ∨ ∃ more got' h₂,
      ispSerialRead E (count - got.length) (count - got.length) (h₁.emit (.took got))
        = .ok (more, got') h₂ ∧ more = got'.length ∧ got.length + got'.length < 2 ^ 31))

/-- The texts of the blocks fit, and a byte was acknowledged, or all the blocks were. -/
def BlocksWhole (count : ℕ) (log : List Event) : Prop :=
  Fitting log ∧ (ackedBytes log).length < 2 ^ 31 ∧
    (ackedBytes log ≠ [] ∨ (log.filterMap Event.acknowledged).length = nbBlocks count)

section Raw

variable {E} {h : Host σ} {count : ℕ} {data : List Cell}

/-- What a call that takes data as it is has to leave for its value to mean what it should. -/
def RawMeant (count : ℕ) (r : ℤ × List Cell) (got : List UInt8) : Prop :=
  (got = [] → got.length ≠ count → r.1 < 0) ∧
    (got ≠ [] ∨ got.length = count → r.1 = got.length ∧ r.1 ≤ count ∧
      r.2.take got.length = got.map some)

theorem take_overlay_zero {got : List UInt8} :
    (overlay data 0 (got.map some)).take got.length = got.map some := by
  have htake : (overlay data 0 (got.map some)).take (0 + (got.map some).length) =
      data.take 0 ++ got.map some := take_add_overlay (Nat.zero_le data.length)
  rwa [Nat.zero_add, List.length_map, List.take_zero, List.nil_append] at htake

theorem rawMeant_of_ne {got : List UInt8} {len : ℤ} (hne : got ≠ [] ∨ got.length = count)
    (hle : got.length ≤ count) :
    RawMeant count (len, overlay data 0 (got.map some)) got ↔ len = got.length := by
  constructor
  · exact fun hr => (hr.2 hne).1
  · rintro rfl
    refine ⟨fun hnil hlen => absurd hnil (hne.resolve_right hlen), fun _ => ⟨rfl, ?_, ?_⟩⟩
    · exact Int.ofNat_le.2 hle
    · exact take_overlay_zero

theorem rawWhole_iff {len : ℤ} {got : List UInt8} {h₁ : Host σ}
    (hread : ispSerialRead E count count h = .ok (len, got) h₁) : RawWhole E count h ↔
      0 < count ∧ (got = [] ∨ len = got.length ∧ (got.length = count ∨ ∃ more got' h₂,
        ispSerialRead E (count - got.length) (count - got.length) (h₁.emit (.took got))
          = .ok (more, got') h₂ ∧ more = got'.length ∧ got.length + got'.length < 2 ^ 31)) := by
  refine and_congr_right fun _ => ⟨?_, fun hr => ⟨len, got, h₁, hread, hr⟩⟩
  rintro ⟨len', got', h₁', hread', hr⟩
  rw [hread] at hread'
  cases hread'
  exact hr

/-- The cases are those of the reads, and of the end of the second one. -/
theorem readRaw_meant_iff (hdata : count ≤ data.length) (hcount : count < 2 ^ 32)
    (h0 : h.nextReadChar = 0) (hnone : tookBytes h.seen = []) :
    (∃ r h', readRaw E data count h = .ok r h' ∧ RawMeant count r (tookBytes h'.seen)) ↔
      RawWhole E count h := by
  have hreads := readRaw_reads (E := E) hdata hcount h0
  generalize readRaw E data count h = run at hreads ⊢
  have hok : ∀ (r : ℤ × List Cell) (h' : Host σ), (∃ r' h'',
      (.ok r h' : EStateM.Result Fault (Host σ) _) = .ok r' h'' ∧
        RawMeant count r' (tookBytes h''.seen)) ↔ RawMeant count r (tookBytes h'.seen) := by
    intro r h'
    constructor
    · rintro ⟨r', h'', he, hr⟩
      cases he
      exact hr
    · exact fun hr => ⟨r, h', rfl, hr⟩
  rcases hreads with
    @⟨len, got, h₁, hread, hseen, hle, hlen, hshort⟩ | @⟨got, h₁, hread, hseen, hpos, hall⟩ |
    @⟨got, got', more, h₁, h₂, hread, hpos, hlt, hne, hread', hle', hmore, hseen⟩
  · rw [hok, rawWhole_iff hread, Host.seen_emit rfl, hseen, tookBytes_append, hnone, List.nil_append,
      tookBytes_one]
    constructor
    · intro hr
      by_cases hnil : got = []
      · refine ⟨?_, .inl hnil⟩
        by_contra hzero
        have := (hr.2 (.inr (by rw [hnil, List.length_nil]; omega))).1
        simp only [hnil, List.length_nil] at this
        omega
      · have := (hr.2 (.inl hnil)).1
        simp only [] at this
        omega
    · rintro ⟨hpos, hcase⟩
      have hnil : got = [] := by
        rcases hcase with hnil | ⟨hlen', -⟩
        · exact hnil
        · exact List.length_eq_zero_iff.1 (by omega)
      rw [hnil]
      refine ⟨fun _ _ => Int.negSucc_lt_zero 5, fun hne => absurd hne ?_⟩
      simp only [ne_eq, not_true_eq_false, List.length_nil, false_or]
      omega
  · rw [hok, rawWhole_iff hread, Host.seen_emit rfl, hseen, tookBytes_append, hnone, List.nil_append,
      tookBytes_one, rawMeant_of_ne (.inr hall) hall.le]
    exact iff_of_true rfl ⟨by omega, .inr ⟨rfl, .inl hall⟩⟩
  · have hwhole : RawWhole E count h ↔ more = got'.length ∧ got.length + got'.length < 2 ^ 31 := by
      rw [rawWhole_iff hread]
      constructor
      · rintro ⟨-, hnil | ⟨-, hall | ⟨more', got'', h₂', he, hmeant⟩⟩⟩
        · rw [hnil] at hpos
          cases hpos
        · omega
        · rw [hread'] at he
          cases he
          exact hmeant
      · exact fun hmeant => ⟨by omega, .inr ⟨rfl, .inr ⟨more, got', h₂, hread', hmeant⟩⟩⟩
    rw [hwhole]
    by_cases hover : 2 ^ 31 ≤ (got.length : ℤ) + more
    · rw [if_pos hover]
      refine iff_of_false ?_ (by omega)
      rintro ⟨r, h', he, -⟩
      cases he
    · have hsome : got ++ got' ≠ [] := by
        rw [← List.length_pos_iff, List.length_append]
        omega
      rw [if_neg hover, hok, hseen, tookBytes_append, hnone, List.nil_append, tookBytes_two,
        rawMeant_of_ne (.inl hsome) (by rw [List.length_append]; omega), List.length_append]
      split_ifs with hneg
      · exact iff_of_false id (by omega)
      · omega

end Raw

section Memory

variable {E} {h : Host σ} {data : List Cell} {count : UInt32}

theorem mem_log_of_seen {h' : Host σ} {text : List UInt8} {a : Answer} :
    .request text a ∈ h'.log ↔ .request text a ∈ h'.seen := (Host.mem_seen rfl).symm

/-- The answer to the request is all the requests the log of a call has. -/
theorem ReadMeant.refused_iff {text : List UInt8} {uu : ℕ} {r : ℤ × List Cell} {a : Answer}
    {h' : Host σ} (hseen : h'.seen = [.request text a]) (ha : a ≠ .status 0) :
    ReadMeant text count.toNat uu r h'.log ↔ r.1 < 0 := by
  have hnot : .request text (.status 0) ∉ h'.log := by
    rw [mem_log_of_seen, hseen, List.mem_singleton]
    intro he
    cases he
    exact ha rfl
  exact ⟨fun hr => hr.refused hnot, fun hlt => ⟨fun _ => hlt, fun _ _ => hlt, fun hin => absurd hin hnot⟩⟩

theorem ReadMeant.raw_iff {text : List UInt8} {r : ℤ × List Cell} {h' : Host σ}
    (hin : .request text (.status 0) ∈ h'.log) :
    ReadMeant text count.toNat 0 r h'.log ↔ RawMeant count.toNat r (tookBytes h'.seen) := by
  rw [tookBytes_seen]
  constructor
  · exact fun hr => ⟨hr.failed, hr.received hin⟩
  · exact fun hr => ⟨fun hnot => absurd hin hnot, hr.1, fun _ => hr.2⟩

theorem ReadMeant.blocks_iff {text : List UInt8} {uu : ℕ} {r : ℤ × List Cell} {h' : Host σ}
    (huu : uu ≠ 0) (hin : .request text (.status 0) ∈ h'.log)
    (hr : Received count.toNat r h'.seen) :
    ReadMeant text count.toNat uu r h'.log ↔ BlocksWhole count.toNat h'.log := by
  have hcount := count.toNat_lt
  have hbytes : receivedBytes uu h'.log = ackedBytes h'.log := if_neg huu
  have hall : AllCame count.toNat uu h'.log ↔
      (h'.log.filterMap Event.acknowledged).length = nbBlocks count.toNat := by
    rw [AllCame, if_neg huu]
  have hfitting : Fitting h'.log :=
    fun _ _ _ hm => hr.fitting _ _ _ ((Host.mem_seen rfl).2 hm)
  have hlen := hr.len
  have hle := hr.acked.length_le.trans hr.fits
  have hdata : r.2.take (ackedBytes h'.log).length = (ackedBytes h'.log).map some := by
    rw [← ackedBytes_seen]
    obtain ⟨rest, hrest⟩ := hr.acked
    have htake := congrArg (List.take (ackedBytes h'.seen).length) hr.data
    rw [List.take_take, Nat.min_eq_left hr.acked.length_le, ← hrest, List.map_append] at htake
    rw [htake, List.take_left' (List.length_map _)]
  rw [ackedBytes_seen] at hlen hle
  constructor
  · intro hmeant
    have hsome : ackedBytes h'.log ≠ [] ∨
        (h'.log.filterMap Event.acknowledged).length = nbBlocks count.toNat := by
      by_contra hnone
      rw [not_or, not_not] at hnone
      have hneg := hmeant.failed (hbytes.trans hnone.1) (by rw [hall]; exact hnone.2)
      rw [hlen, hnone.1] at hneg
      exact absurd hneg (by decide)
    refine ⟨hfitting, ?_, hsome⟩
    have hval := (hmeant.received hin (by rwa [hbytes, hall])).1
    rw [hbytes, hlen] at hval
    by_contra hlong
    rw [toInt_of_le (Nat.not_lt.1 hlong) (by omega)] at hval
    omega
  · rintro ⟨-, hlt, hsome⟩
    refine ⟨fun hnot => absurd hin hnot, fun hnil hshort => ?_, fun _ _ => ?_⟩
    · rw [hbytes] at hnil
      rw [hall] at hshort
      exact absurd hsome (not_or.2 ⟨not_not.2 hnil, hshort⟩)
    · rw [hbytes, hlen, toInt_of_lt hlt]
      exact ⟨rfl, by omega, hdata⟩

/-- A call whose request is granted. -/
theorem ispReadMemory_granted {addr : UInt32} {uu : ℕ} {h₁ : Host σ}
    (hreq : ispSendCmdTwoArgs E 'R'.toUInt8 addr count h = .ok 0 h₁) :
    ispReadMemory E data addr count uu h =
      if uu = 0 then readRaw E data count.toNat h₁
      else (receiveLoop E count (getNbBlocks count)).run
        ⟨0, 0, data, (List.range serialBufsize).map (E.stack h₁.env)⟩ h₁ := by
  unfold ispReadMemory
  rw [bind_ok hreq, if_neg (not_not.2 rfl)]
  split_ifs
  · rfl
  · exact bind_ok (uninit_apply _ _ _)

theorem readRaw_meant (hdata : data.length = count.toNat) {text : List UInt8}
    (hseen : h.seen = [.request text (.status 0)]) (h0 : h.nextReadChar = 0) :
    (∃ r h', readRaw E data count.toNat h = .ok r h' ∧ ReadMeant text count.toNat 0 r h'.log) ↔
      RawWhole E count.toNat h := by
  have hnone : tookBytes h.seen = [] := by
    rw [hseen]
    rfl
  rw [← readRaw_meant_iff hdata.ge count.toNat_lt h0 hnone]
  refine exists_congr fun r => exists_congr fun h' => and_congr_right fun hrun => ?_
  obtain ⟨es, -, hes, -⟩ := (readRaw_ends (E := E) hdata.ge count.toNat_lt h0).ok hrun
  refine ReadMeant.raw_iff ?_
  rw [mem_log_of_seen, hes, hseen]
  exact List.mem_cons_self

theorem receiveLoop_meant (hdata : data.length = count.toNat) {text buf : List UInt8} {uu : ℕ}
    (huu : uu ≠ 0) (hbuf : buf.length = serialBufsize)
    (hseen : h.seen = [.request text (.status 0)]) (h0 : h.nextReadChar = 0) :
    (∃ r h', (receiveLoop E count (getNbBlocks count)).run ⟨0, 0, data, buf⟩ h = .ok r h' ∧
      ReadMeant text count.toNat uu r h'.log) ↔ BlocksWhole count.toNat
        (final ((receiveLoop E count (getNbBlocks count)).run ⟨0, 0, data, buf⟩ h)).log := by
  have hR : Receiving count.toNat ⟨0, 0, data, buf⟩ h.seen := by
    rw [hseen]
    exact .start hdata hbuf
  have hends : Ends ((receiveLoop E count (getNbBlocks count)).run ⟨0, 0, data, buf⟩ h) _ _ :=
    receiveLoop_ends hR h0
  have hoff := (Host.offLine_frame E).receiveLoop count (getNbBlocks count) ⟨0, 0, data, buf⟩ h
  rw [Host.offLine_seen h, hseen] at hoff
  generalize (receiveLoop E count (getNbBlocks count)).run ⟨0, 0, data, buf⟩ h = run at hends hoff ⊢
  rcases run with ⟨r, h'⟩ | ⟨f, h'⟩
  · have hin : .request text (.status 0) ∈ h'.offLine := by
      rw [show h'.offLine = _ from hoff]
      exact List.mem_cons_self
    replace hin := (List.mem_filter.1 hin).1
    rw [final_ok, ← ReadMeant.blocks_iff huu hin hends]
    constructor
    · rintro ⟨r', h'', he, hmeant⟩
      cases he
      exact hmeant
    · exact fun hmeant => ⟨r, h', rfl, hmeant⟩
  · refine iff_of_false ?_ fun hwhole => hends.2.1 fun _ _ _ hm => ?_
    · rintro ⟨r, h', he, -⟩
      cases he
    · exact hwhole.1 _ _ _ ((Host.mem_seen rfl).1 hm)

/-- The value `isp_read_memory` returns means bytes received just if the request gets an answer that is
no positive status, and the data comes without a read that is broken off, or some of it in
acknowledged blocks. -/
theorem ispReadMemory_meant_iff (hdata : data.length = count.toNat) (addr : UInt32) (uu : ℕ)
    (hstart : h.log = []) :
    (∃ r h', ispReadMemory E data addr count uu h = .ok r h' ∧
      ReadMeant (twoArgsText 'R'.toUInt8 addr.toNat count.toNat) count.toNat uu r h'.log) ↔
    ∃ ret h₁, ispSendCmdTwoArgs E 'R'.toUInt8 addr count h = .ok ret h₁ ∧
      (ret < 0 ∨ ret = 0 ∧ (uu = 0 → RawWhole E count.toNat h₁) ∧
        (uu ≠ 0 → BlocksWhole count.toNat (final (ispReadMemory E data addr count uu h)).log)) := by
  have hseen₀ : h.seen = [] := by rw [Host.seen, hstart, List.filter_nil]
  have hends := ispSendCmdTwoArgs_ends (E := E) 'R'.toUInt8 addr count h
  rcases hreq : ispSendCmdTwoArgs E 'R'.toUInt8 addr count h with ⟨ret, h₁⟩ | ⟨f, h₁⟩
  · obtain ⟨hrange, a, hret, hstatus, hseen⟩ := hends.ok hreq
    rw [hseen₀, List.nil_append] at hseen
    by_cases hne : ret = 0
    · subst hne
      obtain ⟨rfl, hnext⟩ := hstatus (Int.le_refl 0)
      rw [ispReadMemory_granted hreq]
      by_cases huu : uu = 0
      · subst huu
        rw [if_pos rfl, readRaw_meant hdata hseen hnext]
        constructor
        · exact fun hwhole => ⟨0, h₁, rfl, .inr ⟨rfl, fun _ => hwhole, fun hc => absurd rfl hc⟩⟩
        · rintro ⟨ret, h₁', he, hlt | ⟨-, hwhole, -⟩⟩ <;> cases he
          · cases hlt
          · exact hwhole rfl
      · rw [if_neg huu, receiveLoop_meant hdata huu (by rw [List.length_map, List.length_range]) hseen hnext]
        constructor
        · exact fun hwhole => ⟨0, h₁, rfl, .inr ⟨rfl, fun hc => absurd hc huu, fun _ => hwhole⟩⟩
        · rintro ⟨ret, h₁', he, hlt | ⟨-, -, hwhole⟩⟩ <;> cases he
          · cases hlt
          · exact hwhole huu
    · have hres : ispReadMemory E data addr count uu h = .ok (ret, data) h₁ := by
        unfold ispReadMemory
        rw [bind_ok hreq, if_pos hne]
        rfl
      have ha : a ≠ .status 0 := by
        rintro rfl
        exact hne hret.symm
      rw [hres]
      constructor
      · rintro ⟨r, h', he, hmeant⟩
        cases he
        exact ⟨ret, h₁, rfl, .inl ((ReadMeant.refused_iff hseen ha).1 hmeant)⟩
      · rintro ⟨ret', h₁', he, hlt | ⟨hzero, -⟩⟩ <;> cases he
        · exact ⟨_, _, rfl, (ReadMeant.refused_iff hseen ha).2 hlt⟩
        · exact absurd hzero hne
  · refine iff_of_false ?_ ?_
    · rintro ⟨r, h', hrun, -⟩
      unfold ispReadMemory at hrun
      rw [bind_error hreq] at hrun
      cases hrun
    · rintro ⟨ret, h₁', he, -⟩
      cases he

theorem ispReadMemory_meant_iff_thirteen :
    (∃ r h', ispReadMemory ((scripted fun _ => 100).sys (Sys.plain _)) (.replicate 16 none) 256 16 1
        (.start (.quiet [statusText 13]) 0 0 0) = .ok r h' ∧
      ReadMeant (twoArgsText 'R'.toUInt8 (256 : UInt32).toNat (16 : UInt32).toNat) (16 : UInt32).toNat
        1 r h'.log) ↔
    ∃ ret h₁, ispSendCmdTwoArgs ((scripted fun _ => 100).sys (Sys.plain _)) 'R'.toUInt8 256 16
        (.start (.quiet [statusText 13]) 0 0 0) = .ok ret h₁ ∧
      (ret < 0 ∨ ret = 0 ∧ (1 = 0 → RawWhole ((scripted fun _ => 100).sys (Sys.plain _))
          (16 : UInt32).toNat h₁) ∧
        (1 ≠ 0 → BlocksWhole (16 : UInt32).toNat (final (ispReadMemory
          ((scripted fun _ => 100).sys (Sys.plain _)) (.replicate 16 none) 256 16 1
          (.start (.quiet [statusText 13]) 0 0 0))).log)) :=
  ispReadMemory_meant_iff rfl 256 1 rfl

/-- Asked for 16 bytes, a device answers with the parameter error: 13 bytes, says the value. -/
theorem ispReadMemory_thirteen :
    let run := ispReadMemory ((scripted fun _ => 100).sys (Sys.plain _)) (.replicate 16 none) 256 16 1
      (.start (.quiet [statusText 13]) 0 0 0)
    value run = some (13, .replicate 16 none) ∧
      ¬ ∃ r h', run = .ok r h' ∧ ReadMeant (twoArgsText 'R'.toUInt8 256 16) 16 1 r h'.log := by
  intro run
  have hval : value run = some (13, .replicate 16 none) := by decide +kernel
  have hnot : .request (twoArgsText 'R'.toUInt8 256 16) (.status 0) ∉ (final run).log := by
    decide +kernel
  refine ⟨hval, ?_⟩
  rintro ⟨r, h', hrun, hmeant⟩
  rw [hrun] at hval hnot
  cases hval
  exact absurd (hmeant.refused hnot) (by decide)

end Memory

end LpcTools
