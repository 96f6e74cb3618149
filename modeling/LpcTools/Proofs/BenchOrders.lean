import LpcTools.Proofs.BenchRuns
import LpcTools.Proofs.Denying
import LpcTools.Proofs.RoundTrip

/-!
# `lpcisp` on a bench

An order that its checks let through is carried out by an open session, comes to nothing where no session
has been opened, and is refused where the line has been spoiled, which the refusal makes good. A session is
opened where none is, and an open one is spoiled by that.
-/

namespace LpcTools

open Run Decimal Refine NumericCall

variable {δ : Type} {S : Setup δ} {b : Bench δ} {s : Store} {w : World}

section Memories

variable {part : PartDesc} {f f' : UInt32 → UInt8}

theorem PartDesc.contents_mapIdx {g : ℕ → UInt8 → UInt8} (h : ∀ i < part.flashSize.toNat,
      f' (part.flashBase + UInt32.ofNat i) = g i (f (part.flashBase + UInt32.ofNat i))) :
    part.contents f' = (part.contents f).mapIdx g := by
  refine List.ext_getElem (by simp [PartDesc.contents]) fun i hi _ => ?_
  rw [PartDesc.contents_length] at hi
  simp [PartDesc.contents, h i hi]

theorem PartDesc.sectorAt_offset {i : ℕ} (hi : i < part.flashSize.toNat) :
    part.sectorAt (part.flashBase + UInt32.ofNat i) = some (i / part.sectorSize.toNat) := by
  have hoffset := offset_toNat part.flashBase (show i < 2 ^ 32 by
    have := part.flashSize.toNat_lt
    omega)
  rw [PartDesc.sectorAt, if_pos (by rwa [UInt32.lt_iff_toNat_lt, hoffset]), hoffset]

/-- The flash behind an erase. -/
theorem contents_erase (first last : UInt32) (c : Chip) :
    part.contents ((Command.erase first last).effect part.sectorAt c).flash =
      (part.contents c.flash).mapIdx fun i b =>
        let sec := i / part.sectorSize.toNat
        if first.toNat ≤ sec ∧ sec ≤ last.toNat then 0xFF else b := by
  refine part.contents_mapIdx fun i hi => ?_
  have hin : Command.InSectors part.sectorAt first last (part.flashBase + UInt32.ofNat i) ↔
      first.toNat ≤ i / part.sectorSize.toNat ∧ i / part.sectorSize.toNat ≤ last.toNat := by
    rw [Command.InSectors, PartDesc.sectorAt_offset hi]
    simp
  simp only [Command.effect]
  by_cases h : first.toNat ≤ i / part.sectorSize.toNat ∧ i / part.sectorSize.toNat ≤ last.toNat
  · rw [if_pos h, if_pos (hin.2 h)]
  · rw [if_neg h, if_neg fun hs => h (hin.1 hs)]

/-- The flash behind a copy from the part of the RAM that is known. -/
theorem contents_copy {ram : UInt32 → Option UInt8} {c : Chip} (hram : ∀ a b, ram a = some b → c.ram a = b)
    {dst src count : UInt32} (hknown : ∀ k < count, (ram (src + k)).isSome) :
    part.contents ((Command.copy dst src count).effect part.sectorAt c).flash =
      (part.contents c.flash).mapIdx fun i b =>
        let k := part.flashBase + UInt32.ofNat i - dst
        if k < count then (ram (src + k)).getD 0 else b := by
  refine part.contents_mapIdx fun i _ => ?_
  simp only [Command.effect]
  split_ifs with hk
  · obtain ⟨b, hb⟩ := Option.isSome_iff_exists.1 (hknown _ hk)
    rw [hb, Option.getD_some, hram _ _ hb]
  · rfl

/-- What a known byte of the memory is. -/
theorem Represents.memory (hr : Represents S b s) {a : UInt32} {c : UInt8}
    (ha : s.memory S.part a = some c) : (S.chip b.wire.dev.dev).memory S.part.sectorAt a = c := by
  unfold Store.memory at ha
  rw [Chip.memory, PartDesc.sectorAt]
  split_ifs at ha ⊢ with hin
  · rw [← hr.flash, PartDesc.contents, List.getElem?_map] at ha
    rw [UInt32.lt_iff_toNat_lt] at hin
    rw [List.getElem?_range hin, Option.map_some, UInt32.ofNat_toNat, UInt32.add_comm,
      UInt32.sub_add_cancel] at ha
    exact Option.some.inj ha
  · exact absurd rfl ‹_›
  · exact absurd ‹_› (by simp)
  · exact hr.ram a c ha

end Memories

section Unasked

variable {σ : Type} {E : Sys σ} {h : Host σ} {args : List (List UInt8)}

theorem sectorRange_cases (args : List (List UInt8)) :
    (sectorRange args = none ∧ ∀ cmd, (sectorsSkel args cmd).Refuses) ∨ ∃ first last, args = [first, last] ∧
      toInt (argValue first) ≤ toInt (argValue last) ∧
      sectorRange args = some (UInt32.ofNat (argValue first), UInt32.ofNat (argValue last)) := by
  rcases args with _ | ⟨first, _ | ⟨last, _ | ⟨arg, rest⟩⟩⟩
  · exact .inl ⟨rfl, fun _ => trivial⟩
  · exact .inl ⟨rfl, fun _ => trivial⟩
  · by_cases hle : toInt (argValue first) ≤ toInt (argValue last)
    · exact .inr ⟨first, last, rfl, hle, if_pos hle⟩
    · exact .inl ⟨if_neg hle, fun _ => Int.not_le.1 hle⟩
  · exact .inl ⟨rfl, fun _ => trivial⟩

theorem copyRange_cases (args : List (List UInt8)) :
    copyRange args = none ∧ (addressWrapper args 'C'.toUInt8).Refuses ∨ ∃ dst src count,
      args = [dst, src, count] ∧ ¬ (addressWrapper args 'C'.toUInt8).Refuses ∧ copyRange args = some
        (UInt32.ofNat (argValue dst), UInt32.ofNat (argValue src), UInt32.ofNat (argValue count)) := by
  rcases args with _ | ⟨dst, _ | ⟨src, _ | ⟨count, _ | ⟨arg, rest⟩⟩⟩⟩
  · exact .inl ⟨rfl, trivial⟩
  · exact .inl ⟨rfl, trivial⟩
  · exact .inl ⟨rfl, trivial⟩
  · by_cases hc : (addressWrapper [dst, src, count] 'C'.toUInt8).Refuses
    · exact .inl ⟨if_neg fun h => not_refuses_copy.2 h hc, hc⟩
    · exact .inr ⟨dst, src, count, rfl, hc, if_pos (not_refuses_copy.1 hc)⟩
  · exact .inl ⟨rfl, trivial⟩

/-- Of an empty file nothing is sent. -/
theorem ispCmdWriteToRam_empty {arg₀ filename : List UInt8} {rest : List (List UInt8)}
    (halign : argValue arg₀ % 4 = 0) (hfile : Gives E h.env filename []) :
    ispCmdWriteToRam E (arg₀ :: filename :: rest) h = .ok (-13) h := by
  have hload := ispFileToBuff_gives hfile ramMaxSize
  unfold ispCmdWriteToRam
  simp only [halign, ne_eq, not_true_eq_false, if_false]
  rw [bind_ok (uninit_apply _ _ _), bind_ok (get_apply _), bind_ok hload]
  rfl

/-- Nothing is asked for, and nothing changes. -/
theorem Order.unasked {part : PartDesc} {order : Order}
    (hfiles : ∀ name : FileName, FileIs E name.text (s.files name))
    (hdef : order.Defined part s) (hnone : order.obeyed part s = none) :
    ∃ ret, order.command.run E order.args h = .ok ret h := by
  cases order with
  | prepareForWrite args | erase args =>
    rcases sectorRange_cases args with ⟨-, hc⟩ | ⟨first, last, -, -, hsome⟩
    · obtain ⟨ret, -, hrun⟩ := refuses_sectorsSkel (hc _) h
      exact ⟨ret, hrun⟩
    · simp [obeyed, hsome] at hnone
  | copyRamToFlash args =>
    rcases copyRange_cases args with ⟨-, hc⟩ | ⟨dst, src, count, -, -, hsome⟩
    · obtain ⟨ret, -, hrun⟩ := refuses_addressWrapper hc h
      exact ⟨ret, hrun⟩
    · simp [obeyed, hsome] at hnone
  | writeToRam addr name mode =>
    by_cases halign : argValue addr % 4 = 0
    · obtain ⟨content, hcontent⟩ := Option.isSome_iff_exists.1 (hdef halign).1
      have hfile := hfiles name
      rw [hcontent] at hfile
      simp only [obeyed, if_pos halign, hcontent, Option.map_eq_none_iff] at hnone
      obtain rfl : content = [] := by simpa using hnone
      exact ⟨-13, ispCmdWriteToRam_empty halign (hfile h.env)⟩
    · have hc : (NumericCall.writeToRam (addr :: name.text :: mode)).Refuses := halign
      obtain ⟨ret, -, hrun⟩ := refuses_writeToRam (E := E) hc h
      exact ⟨ret, hrun⟩
  | readMemory addr count name mode =>
    by_cases halign : argValue addr % 4 = 0 ∧ argValue count % 4 = 0
    · simp [obeyed, halign] at hnone
    · rw [not_and_or] at halign
      have hc : (NumericCall.readMemory (addr :: count :: name.text :: mode)).Refuses := halign
      obtain ⟨ret, -, hrun⟩ := refuses_readMemory (E := E) hc h
      exact ⟨ret, hrun⟩
  | _ => cases hnone

end Unasked

section Denied

variable {L : Line δ} {id : Identity} {O : Sys (Wire (Session δ))} {d d' : Session δ}
  {h : Host (Wire (Session δ))}

/-- An order that is asked for comes to nothing at its first request. Only a read goes on from there. -/
theorem Order.denied {part : PartDesc} {order : Order} {s' : Store} (he : Line.Eager L.arrive)
    (hden : d.Denies id L d') (hs : Line.Stands h d [])
    (hfiles : ∀ name : FileName, FileIs ((L.session id).sys O) name.text (s.files name))
    (hout : order.output = none) (hsome : order.obeyed part s = some s') : ∃ ret h',
    order.command.run ((L.session id).sys O) order.args h = .ok ret h' ∧ Line.Stands h' d' [] := by
  cases order with
  | unlock => exact ispCmdUnlock_denied he hden hs 0
  | readPartId => exact readReply_denied he hden hs (by decide) (by decide) 0 15 1 _
  | readBootVersion => exact readReply_denied he hden hs (by decide) (by decide) 0 20 2 _
  | readUid => exact readReply_denied he hden hs (by decide) (by decide) 0 50 4 _
  | prepareForWrite args | erase args =>
    rcases sectorRange_cases args with ⟨hnone, -⟩ | ⟨first, last, rfl, hle, -⟩
    · simp [obeyed, hnone] at hsome
    · exact ispSendCmdSectors_denied he hden hs _ hle 0
  | copyRamToFlash args =>
    rcases copyRange_cases args with ⟨hnone, -⟩ | ⟨dst, src, count, rfl, hc, -⟩
    · simp [obeyed, hnone] at hsome
    · obtain ⟨ret, h', hrun, hs'⟩ := ispSendCmdAddress_denied (O := O) he hden hs 'C'.toUInt8
        (UInt32.ofNat (argValue dst)) (UInt32.ofNat (argValue src)) (UInt32.ofNat (argValue count))
      exact ⟨ret, h', (ispCmdAddressWrapper_sends hc h).trans hrun, hs'⟩
  | writeToRam addr name mode =>
    have hfile := hfiles name
    simp only [obeyed] at hsome
    split_ifs at hsome with halign
    obtain ⟨content, hcontent, -⟩ := Option.map_eq_some_iff.1 hsome
    obtain ⟨hcontent, hne⟩ := Option.filter_eq_some_iff.1 hcontent
    rw [hcontent] at hfile
    obtain ⟨ret, h', hrun, hs'⟩ := ispSendBufToRam_denied (O := O) he hden hs
      (((L.session id).sys O).object h.env (ramBuffer ((L.session id).sys O) h.env (content.take ramMaxSize)))
      (argValue addr) (UInt32.ofNat (wholeWords (content.take ramMaxSize).length)) (argMode mode)
    exact ⟨ret, h', (ispCmdWriteToRam_eq halign (hfile h.env) (by simpa using hne)).trans hrun, hs'⟩
  | readMemory addr count name mode => cases hout

end Denied

section Opened

theorem IspCommand.lookup_name (c : IspCommand) : lookup ispCmdsList c.name = some c := by
  cases c <;> decide

/-- A run of a command that comes to its end. -/
theorem lpcisp_of_run {order : Order} {ret : ℤ} {h' : Host (Wire (Session δ))}
    (hrun : order.command.run ((S.line.session S.identity).sys (w.over b.files _)) order.args
      (.start b.wire 0 0 0) = .ok ret h') : b.lpcisp S w order = some h' := by
  simp only [Bench.lpcisp, Bench.run, Invocation.run, ispHandleCommand, IspCommand.lookup_name]
  rw [← World.over, bind_ok hrun]
  rfl

theorem Represents.ready (hr : Represents S b s) (hopened : s.mode = .opened) :
    Line.Stands (.start b.wire 0 0 0) (.ready b.wire.dev.dev) [] := by
  have hm := hr.mode
  have hs := hr.stands
  rw [hopened] at hm
  rwa [show b.wire.dev = .ready b.wire.dev.dev from hm] at hs

/-- A command that only the device sees runs in an open session as on the bare line. -/
theorem Represents.ordered (hr : Represents S b s) (hopened : s.mode = .opened) (w : World) :
    ∃ k : Host (Wire δ), Idle S.chip k ∧ k.env.dev = b.wire.dev.dev ∧ k.resendRequestedForBlock = 0 ∧
      savedCells k.log = [] ∧ Twin (fun w s => s = w.inSession) k (.start b.wire 0 0 0) ∧
      ∀ (order : Order) {ret : ℤ} {k' : Host (Wire δ)}, Alike (Twin fun w s => s = w.inSession)
          (order.command.run (S.line.sys (w.over b.files _)) order.args k)
          (order.command.run ((S.line.session S.identity).sys (w.over b.files _)) order.args
            (.start b.wire 0 0 0)) →
        order.command.run (S.line.sys (w.over b.files _)) order.args k = .ok ret k' →
        ∃ h', b.lpcisp S w order = some h' ∧ h'.env = k'.env.inSession ∧ h'.log = k'.log := by
  have hs := hr.ready hopened
  refine ⟨Line.Stands.bare (.start b.wire 0 0 0) b.wire.dev.dev, ⟨rfl, rfl, hr.expects⟩, rfl, rfl, rfl,
    hs.twin, ?_⟩
  intro order ret k' halike hk
  obtain ⟨h', hh, htwin⟩ := halike.eq_ok hk
  exact ⟨h', lpcisp_of_run hh, htwin.env, htwin.log.symm⟩

/-- A command that changes the flash at most. -/
theorem Represents.commanded (hr : Represents S b s) (hopened : s.mode = .opened) (order : Order)
    (hout : order.output = none)
    (hspoken : order.command.Says (S.line.sys (w.over b.files _)) Delegated order.args) {c : Command}
    (hobeyed : ∀ k : Host (Wire δ), Idle S.chip k → ∃ ret st k',
      order.command.run (S.line.sys (w.over b.files _)) order.args k = .ok ret k' ∧
        Obeyed S.line S.part.sectorAt S.chip c k st k')
    (hholds : c.Holds S.part.sectorAt (S.chip b.wire.dev.dev))
    (hframe : (c.effect S.part.sectorAt (S.chip b.wire.dev.dev)).expects = (S.chip b.wire.dev.dev).expects ∧
      (c.effect S.part.sectorAt (S.chip b.wire.dev.dev)).ram = (S.chip b.wire.dev.dev).ram) :
    ∃ b', b.turn S (w, .isp order) = some b' ∧ Represents S b' { s with
      flash := S.part.contents (c.effect S.part.sectorAt (S.chip b.wire.dev.dev)).flash } := by
  obtain ⟨k, hi, hdev, -, -, htwin, hlift⟩ := hr.ordered hopened w
  obtain ⟨ret, st, k', hrun, ho⟩ := hobeyed k hi
  obtain rfl := ho.willing S.willing hi (by rwa [hdev])
  have hchip := (ho.done rfl).2
  rw [hdev] at hchip
  obtain ⟨h', hisp, henv, -⟩ := hlift order
    (alike_ispCommand (session_mirrors S.line S.identity (w.sys b.files)) htwin hspoken) hrun
  obtain ⟨files, flash, ram, mode⟩ := s
  obtain rfl : mode = .opened := hopened
  obtain ⟨bfiles, wire⟩ := b
  obtain rfl : bfiles = files := hr.files
  refine ⟨⟨bfiles, h'.env⟩, by simp only [Bench.turn, hisp, hout, Option.map_some, Option.map_none,
    Option.getD_none], ?_⟩
  rw [henv]
  refine .of_wire rfl ho.pending_zero ?_ ?_ ?_
  · rw [hchip, hframe.1, hr.expects]
  · rw [hchip]
  · rw [hchip, hframe.2]
    exact hr.ram

theorem turn_unlock (hr : Represents S b s) (hopened : s.mode = .opened) :
    ∃ b', b.turn S (w, .isp .unlock) = some b' ∧ Represents S b' s := by
  obtain ⟨b', hturn, hr'⟩ := hr.commanded (w := w) hopened .unlock rfl
    (delegated_cons (by decide) _) (c := .unlock) (fun k hi => by
      obtain ⟨st, k', hrun, ho⟩ := ispCmdUnlock_obeyed (w.over b.files _) S.faithful hi 0
      exact ⟨_, st, k', hrun, ho⟩) trivial ⟨rfl, rfl⟩
  have hsame : S.part.contents (Command.unlock.effect S.part.sectorAt (S.chip b.wire.dev.dev)).flash =
      s.flash := hr.flash
  rw [hsame] at hr'
  exact ⟨b', hturn, hr'⟩

theorem ispCmdSectorsSkel_obeyed {L : Line δ} {O : Sys (Wire δ)} {sector : UInt32 → Option ℕ} {uu : ℕ}
    {chip : δ → Chip} (F : Faithful L sector uu chip) {first last : List UInt8}
    (hle : toInt (argValue first) ≤ toInt (argValue last)) {cmd : UInt8} {c : Command}
    (htext : c.text =
      twoArgsText cmd (UInt32.ofNat (argValue first)).toNat (UInt32.ofNat (argValue last)).toNat)
    (k : Host (Wire δ)) (hi : Idle chip k) : ∃ ret st k',
      ispCmdSectorsSkel (L.sys O) [first, last] cmd k = .ok ret k' ∧ Obeyed L sector chip c k st k' := by
  obtain ⟨st, k', hrun, ho⟩ := ispSendCmdSectors_obeyed O F hi 0 hle
    (show c.text = twoArgsText cmd _ _ by rw [toUnsigned_toInt, toUnsigned_toInt, htext])
  exact ⟨_, st, k', hrun, ho⟩

theorem turn_prepareForWrite (hr : Represents S b s) (hopened : s.mode = .opened) {first last : List UInt8}
    (hle : toInt (argValue first) ≤ toInt (argValue last)) :
    ∃ b', b.turn S (w, .isp (.prepareForWrite [first, last])) = some b' ∧ Represents S b' s := by
  obtain ⟨b', hturn, hr'⟩ := hr.commanded (w := w) hopened (.prepareForWrite [first, last]) rfl
    (saysTwo_delegated (by decide)) (c := .prepare _ _)
    (ispCmdSectorsSkel_obeyed S.faithful hle rfl) trivial ⟨rfl, rfl⟩
  have hsame : S.part.contents ((Command.prepare (UInt32.ofNat (argValue first))
      (UInt32.ofNat (argValue last))).effect S.part.sectorAt (S.chip b.wire.dev.dev)).flash = s.flash :=
    hr.flash
  rw [hsame] at hr'
  exact ⟨b', hturn, hr'⟩

theorem turn_erase (hr : Represents S b s) (hopened : s.mode = .opened) {first last : List UInt8}
    (hle : toInt (argValue first) ≤ toInt (argValue last)) :
    ∃ b', b.turn S (w, .isp (.erase [first, last])) = some b' ∧ Represents S b'
      (s.erase S.part (UInt32.ofNat (argValue first)) (UInt32.ofNat (argValue last))) := by
  obtain ⟨b', hturn, hr'⟩ := hr.commanded (w := w) hopened (.erase [first, last]) rfl
    (saysTwo_delegated (by decide)) (c := .erase _ _)
    (ispCmdSectorsSkel_obeyed S.faithful hle rfl) trivial ⟨rfl, rfl⟩
  rw [contents_erase, hr.flash] at hr'
  exact ⟨b', hturn, hr'⟩

theorem turn_copy (hr : Represents S b s) (hopened : s.mode = .opened) {dst src count : List UInt8}
    (hc : ¬ (addressWrapper [dst, src, count] 'C'.toUInt8).Refuses)
    (hknown : ∀ k < UInt32.ofNat (argValue count), (s.ram (UInt32.ofNat (argValue src) + k)).isSome) :
    ∃ b', b.turn S (w, .isp (.copyRamToFlash [dst, src, count])) = some b' ∧ Represents S b'
      (s.copy S.part (UInt32.ofNat (argValue dst)) (UInt32.ofNat (argValue src))
        (UInt32.ofNat (argValue count))) := by
  obtain ⟨b', hturn, hr'⟩ := hr.commanded (w := w) hopened (.copyRamToFlash [dst, src, count]) rfl
    (saysAddress_delegated (by decide)) (c := .copy _ _ _) (fun k hi => by
      obtain ⟨st, k', hrun, ho⟩ := ispSendCmdAddress_obeyed (w.over b.files _) S.faithful hi
        (c := .copy (UInt32.ofNat (argValue dst)) (UInt32.ofNat (argValue src)) (UInt32.ofNat (argValue count)))
        rfl
      exact ⟨_, st, k', (ispCmdAddressWrapper_sends hc k).trans hrun, ho⟩) trivial ⟨rfl, rfl⟩
  rw [contents_copy hr.ram hknown, hr.flash] at hr'
  exact ⟨b', hturn, hr'⟩

/-- What the boot ROM answers itself. -/
theorem turn_identify (hr : Represents S b s) (hopened : s.mode = .opened) {order : Order}
    (hout : order.output = none) {cmd : List UInt8} {m n : ℕ} {ns : List ℕ} {value : List ℕ → ℤ}
    (hcmd : (cmd, m, n) ∈ idRequests) (hns : S.identity.answer cmd = some ns)
    (hrun : order.command.run ((S.line.session S.identity).sys (w.over b.files _)) order.args =
      readReply ((S.line.session S.identity).sys (w.over b.files _)) cmd 0 m n value) :
    ∃ b', b.turn S (w, .isp order) = some b' ∧ Represents S b' s := by
  obtain ⟨h', hreply, hs'⟩ := Line.Stands.reply (O := w.over b.files _) S.eager (hr.ready hopened) hcmd hns 0
    value
  rw [← hrun] at hreply
  obtain ⟨files, flash, ram, mode⟩ := s
  obtain rfl : mode = .opened := hopened
  obtain ⟨bfiles, wire⟩ := b
  obtain rfl : bfiles = files := hr.files
  refine ⟨⟨bfiles, h'.env⟩, ?_, .of_wire hs'.dev hs'.pending hr.expects hr.flash hr.ram⟩
  simp only [Bench.turn, lpcisp_of_run hreply, hout, Option.map_some, Option.map_none, Option.getD_none]

end Opened

section Write

theorem delegated_of_words {text : List UInt8} (h : text.length % 4 = 0) : Delegated text := by
  intro hmem
  simp only [List.mem_cons, List.not_mem_nil, or_false] at hmem
  rcases hmem with rfl | rfl | rfl | rfl | rfl <;> exact absurd h (by decide)

/-- The bytes that become known. -/
theorem Store.write_ram {r : UInt32 → UInt8} (hram : ∀ a c, s.ram a = some c → r a = c) {addr : UInt32}
    {content bs : List UInt8} (hlen : bs.length = wholeWords (content.take ramMaxSize).length)
    (hbs : bs.take (content.take ramMaxSize).length = content.take ramMaxSize) {a : UInt32} {c : UInt8}
    (hc : (s.write addr content).ram a = some c) : place r addr bs a = c := by
  simp only [Store.write] at hc
  split_ifs at hc with hin
  · rw [← hbs] at hc
    obtain ⟨hlt, hc⟩ := List.getElem?_eq_some_iff.1 hc
    rw [List.getElem_take] at hc
    rw [place_of_lt (by rw [hlen]; exact hin), hc]
  · rw [place_of_le (by rw [hlen]; omega)]
    exact hram a c hc

theorem turn_writeToRam (hr : Represents S b s) (hopened : s.mode = .opened) {addr : List UInt8}
    {name : FileName} {mode : List (List UInt8)} {content : List UInt8} (halign : argValue addr % 4 = 0)
    (hcontent : s.files name = some content) (hne : content ≠ [])
    (hmode : argMode mode = 0 ↔ S.part.uuencode.toNat = 0) :
    ∃ b', b.turn S (w, .isp (.writeToRam addr name mode)) = some b' ∧
      Represents S b' (s.write (UInt32.ofNat (argValue addr)) content) := by
  obtain ⟨k, hi, hdev, hrequested, -, htwin, hlift⟩ := hr.ordered hopened w
  have hbare := w.fileIs S.line b.files name
  have hsession := w.fileIs (S.line.session S.identity) b.files name
  rw [hr.files, hcontent] at hbare hsession
  rw [← hr.files] at hbare hsession
  have himage : (content.take ramMaxSize).length ≤ ramMaxSize := List.length_take_le ..
  obtain ⟨hle, -, hwords⟩ := wholeWords_bounds (content.take ramMaxSize).length
  have hsize := toNat_ofNat_ram (wholeWords_le himage)
  have halike : Alike (Twin fun w s => s = w.inSession)
      ((Order.writeToRam addr name mode).command.run (S.line.sys (w.over b.files _))
        (Order.writeToRam addr name mode).args k)
      ((Order.writeToRam addr name mode).command.run ((S.line.session S.identity).sys (w.over b.files _))
        (Order.writeToRam addr name mode).args (.start b.wire 0 0 0)) := by
    -- the runs are those of the sender, with the same data
    simp only [Order.command, Order.args, IspCommand.run]
    rw [ispCmdWriteToRam_eq (h := k) halign (hbare k.env) hne,
      ispCmdWriteToRam_eq (h := .start b.wire 0 0 0) halign (hsession b.wire) hne]
    exact alike_ispSendBufToRam (session_mirrors S.line S.identity (w.sys b.files)) htwin
      (saysTwo_delegated (by decide) _ _) (fun _ => saysBlocks_delegated _)
      (fun _ bs hbs => delegated_of_words (by rw [hbs, hsize, hwords])) _
  obtain ⟨hfault, -⟩ | ⟨m, ret, k', hslice, hrun, hst⟩ := ispCmdWriteToRam_stored (O := w.over b.files _)
    S.refusals (S.faithful.of_mode hmode) hi halign (hbare k.env) hne
  · obtain ⟨-, -, i, hi2, hnone⟩ := hfault
    exact absurd hnone ((w.shows b.files).beyond i hi2)
  obtain ⟨rfl, -⟩ := hst.willing S.willing hrequested
  obtain ⟨h', hisp, henv, -⟩ := hlift _ halike hrun
  have hidle := hst.idle rfl
  have hflash : (S.chip k'.env.dev).flash = (S.chip k.env.dev).flash :=
    hst.passed.last (P := Unwritten S.chip k) rfl
  have hram := hst.ram rfl
  rw [hsize, hslice, hdev] at hram
  rw [hdev] at hflash
  have hbuffer : (ramBuffer (w.over b.files (Wire δ)) k.env (content.take ramMaxSize)).length = ramMaxSize :=
    ramBuffer_length himage
  obtain ⟨files, flash, ram, smode⟩ := s
  obtain rfl : smode = .opened := hopened
  obtain ⟨bfiles, wire⟩ := b
  obtain rfl : bfiles = files := hr.files
  refine ⟨⟨bfiles, h'.env⟩, by simp only [Bench.turn, hisp, Order.output, Option.map_some, Option.map_none,
    Option.getD_none], ?_⟩
  rw [henv]
  refine .of_wire rfl hidle.pending hidle.expects (by rw [hflash, hr.flash]) fun a c hc => ?_
  rw [hram]
  refine Store.write_ram hr.ram ?_ ?_ hc
  · rw [List.length_take, hbuffer, Nat.min_eq_left (wholeWords_le himage)]
  · rw [List.take_take, Nat.min_eq_left hle, ramBuffer_take]

end Write

section Read

variable {L : Line δ} {O : Sys (Wire δ)} {sector : UInt32 → Option ℕ} {chip : δ → Chip} {sends : δ → List UInt8}
  {h h' : Host (Wire δ)} {addrArg countArg filename : List UInt8} {rest : List (List UInt8)}

/-- A read that is served leaves the line and the target as they were. -/
theorem ispCmdReadMemory_idle (hp : Line.Prompt L.arrive) (serves : Serves L sector (argMode rest) chip sends)
    (hi : Idle chip h) (halign : argValue addrArg % 4 = 0 ∧ argValue countArg % 4 = 0)
    (hpos : 0 < argValue countArg) (hlt : argValue countArg < 2 ^ 31)
    (hmalloc : ∀ env n, O.malloc env n = true) {ret : ℤ}
    (hrun : ispCmdReadMemory (L.sys O) (addrArg :: countArg :: filename :: rest) h = .ok ret h') :
    Idle chip h' ∧ chip h'.env.dev = chip h.env.dev := by
  have hcount : (UInt32.ofNat (argValue countArg)).toNat = argValue countArg := by
    rw [UInt32.toNat_ofNat', Nat.mod_eq_of_lt (by omega)]
  have hne : UInt32.ofNat (argValue countArg) ≠ 0 := fun h0 => by
    rw [h0, UInt32.toNat_zero] at hcount
    omega
  obtain ⟨h₁, hread, hi₁, hchip⟩ := ispReadMemory_served hp serves hi O (UInt32.ofNat (argValue addrArg)) hne
    (by rwa [hcount]) (show (List.replicate (argValue countArg) (none : Cell)).length = _ by
      rw [List.length_replicate, hcount])
  unfold ispCmdReadMemory at hrun
  simp only [halign.1, halign.2, ne_eq, not_true_eq_false, or_self, if_false] at hrun
  rw [bind_ok (get_apply _), show (L.sys O).malloc h.env (argValue countArg) = true from hmalloc _ _,
    if_neg (by simp), ← argMode, bind_ok hread] at hrun
  obtain ⟨_, h₂, hsaved, he⟩ := ispBuffToFile_saved (E := L.sys O) _ (toUnsigned (toInt (UInt32.ofNat
    (argValue countArg)).toNat)) filename h₁
  rw [hsaved] at hrun
  cases hrun
  rcases he with rfl | ⟨n, -, rfl⟩
  · exact ⟨hi₁, hchip⟩
  · exact ⟨⟨hi₁.nextReadChar, hi₁.pending, hi₁.expects⟩, hchip⟩

theorem turn_readMemory (hr : Represents S b s) (hopened : s.mode = .opened) {addr count : List UInt8}
    {name : FileName} {mode : List (List UInt8)} (halign : argValue addr % 4 = 0 ∧ argValue count % 4 = 0)
    (hmode : argMode mode = 0 ↔ S.part.uuencode.toNat = 0) (hpos : 0 < argValue count)
    (hlt : argValue count < 2 ^ 31) (hknown : ∀ i < argValue count,
      (s.memory S.part (UInt32.ofNat (argValue addr) + UInt32.ofNat i)).isSome) :
    ∃ b', b.turn S (w, .isp (.readMemory addr count name mode)) = some b' ∧ Represents S b' { s with
      files := s.files.put name
        (s.read S.part (UInt32.ofNat (argValue addr)) (UInt32.ofNat (argValue count))) } := by
  obtain ⟨k, hi, hdev, -, hsaved, htwin, hlift⟩ := hr.ordered hopened w
  have hcount : (UInt32.ofNat (argValue count)).toNat = argValue count := by
    rw [UInt32.toNat_ofNat', Nat.mod_eq_of_lt (by omega)]
  obtain ⟨k', hrun, hcells⟩ := ispCmdReadMemory_served (O := w.over b.files _) S.faithful.prompt
    (S.serves.of_mode hmode) hi halign.1 halign.2 (by omega) hlt (fun _ n => (w.shows b.files).malloc n)
    (fun _ => (w.shows b.files).saves name ()) name.isFile
  obtain ⟨hi', hchip⟩ := ispCmdReadMemory_idle S.faithful.prompt (S.serves.of_mode hmode) hi halign hpos hlt
    (fun _ n => (w.shows b.files).malloc n) hrun
  obtain ⟨h', hisp, henv, hlog⟩ := hlift (.readMemory addr count name mode)
    (alike_ispCommand (session_mirrors S.line S.identity (w.sys b.files)) htwin saysReads_delegated) hrun
  have hbytes : slice ((S.chip k.env.dev).memoryFrom S.part.sectorAt (UInt32.ofNat (argValue addr))) 0
      (argValue count) = s.read S.part (UInt32.ofNat (argValue addr)) (UInt32.ofNat (argValue count)) := by
    rw [Store.read, hcount, hdev]
    refine List.map_congr_left fun i hi => ?_
    obtain ⟨c, hc⟩ := Option.isSome_iff_exists.1 (hknown i (List.mem_range.1 hi))
    rw [hc, Option.getD_some, Nat.zero_add, Chip.memoryFrom, hr.memory hc]
  obtain ⟨bs, hbs⟩ : ∃ bs, s.read S.part (UInt32.ofNat (argValue addr)) (UInt32.ofNat (argValue count)) = bs :=
    ⟨_, rfl⟩
  rw [hsaved, List.nil_append, hbytes, ← hlog, hbs] at hcells
  rw [hbs]
  obtain ⟨files, flash, ram, smode⟩ := s
  obtain rfl : smode = .opened := hopened
  obtain ⟨bfiles, wire⟩ := b
  obtain rfl : bfiles = files := hr.files
  refine ⟨⟨bfiles.put name bs, h'.env⟩, by simp only [Bench.turn, hisp, Order.output, Option.map_some,
    Option.getD_some, Files.keep_single bfiles name hcells], ?_⟩
  rw [henv]
  rw [hdev] at hchip
  refine .of_wire rfl hi'.pending hi'.expects ?_ ?_
  · rw [hchip, hr.flash]
  · rw [hchip]
    exact hr.ram

end Read

section Turns

/-- An open session carries out what it is asked for. -/
theorem turn_opened (hr : Represents S b s) (hopened : s.mode = .opened) {order : Order}
    (hdef : order.Defined S.part s) {s' : Store} (hsome : order.obeyed S.part s = some s') :
    ∃ b', b.turn S (w, .isp order) = some b' ∧ Represents S b' s' := by
  cases order with
  | unlock =>
    cases hsome
    exact turn_unlock hr hopened
  | readPartId =>
    cases hsome
    exact turn_identify hr hopened rfl (show (readPartId, 15, 1) ∈ idRequests by simp [idRequests]) rfl rfl
  | readBootVersion =>
    cases hsome
    exact turn_identify hr hopened rfl (show (readBootVersion, 20, 2) ∈ idRequests by simp [idRequests]) rfl rfl
  | readUid =>
    cases hsome
    exact turn_identify hr hopened rfl (show (readUid, 50, 4) ∈ idRequests by simp [idRequests]) rfl rfl
  | prepareForWrite args =>
    rcases sectorRange_cases args with ⟨hnone, -⟩ | ⟨first, last, rfl, hle, hrange⟩
    · simp [Order.obeyed, hnone] at hsome
    · rw [Order.obeyed, hrange] at hsome
      cases hsome
      exact turn_prepareForWrite hr hopened hle
  | erase args =>
    rcases sectorRange_cases args with ⟨hnone, -⟩ | ⟨first, last, rfl, hle, hrange⟩
    · simp [Order.obeyed, hnone] at hsome
    · rw [Order.obeyed, hrange] at hsome
      cases hsome
      exact turn_erase hr hopened hle
  | copyRamToFlash args =>
    rcases copyRange_cases args with ⟨hnone, -⟩ | ⟨dst, src, count, rfl, hc, hrange⟩
    · simp [Order.obeyed, hnone] at hsome
    · rw [Order.obeyed, hrange] at hsome
      cases hsome
      exact turn_copy hr hopened hc (hdef hopened _ _ _ hrange)
  | writeToRam addr name mode =>
    simp only [Order.obeyed] at hsome
    split_ifs at hsome with halign
    obtain ⟨content, hfilter, rfl⟩ := Option.map_eq_some_iff.1 hsome
    obtain ⟨hcontent, hne⟩ := Option.filter_eq_some_iff.1 hfilter
    exact turn_writeToRam hr hopened halign hcontent (by simpa using hne) ((hdef halign).2 hopened)
  | readMemory addr count name mode =>
    simp only [Order.obeyed] at hsome
    split_ifs at hsome with halign
    cases hsome
    obtain ⟨-, hmode, hpos, hlt, hknown⟩ := hdef halign
    exact turn_readMemory hr hopened halign hmode hpos hlt hknown

theorem World.fileIs_store (hr : Represents S b s) {δ' : Type} (L : Line δ') (w : World) (name : FileName) :
    FileIs (L.sys (w.over b.files _)) name.text (s.files name) := by
  have hfile := w.fileIs L b.files name
  rwa [hr.files] at hfile ⊢

/-- Only the session has changed. -/
theorem Represents.session (hr : Represents S b s) {h' : Host (Wire (Session δ))} {d' : Session δ}
    (hs : Line.Stands h' d' []) (hd : d'.dev = b.wire.dev.dev) {mode : Mode} (hmode : mode.Of d') :
    Represents S ⟨b.files, h'.env⟩ { s with mode := mode } := by
  have hdev : h'.env.dev = d' := hs.dev
  refine ⟨hr.files, ?_, ?_, ?_, hs.pending, ?_⟩
  · change S.part.contents (S.chip h'.env.dev.dev).flash = _
    rw [hdev, hd, hr.flash]
  · change ∀ a c, s.ram a = some c → (S.chip h'.env.dev.dev).ram a = c
    rw [hdev, hd]
    exact hr.ram
  · change (S.chip h'.env.dev.dev).expects = none
    rw [hdev, hd, hr.expects]
  · change mode.Of h'.env.dev
    rwa [hdev]

/-- An order of which the request comes to nothing. -/
theorem turn_denied (hr : Represents S b s) {order : Order} {d' : Session δ}
    (hden : b.wire.dev.Denies S.identity S.line d') (hd : d'.dev = b.wire.dev.dev) (hout : order.output = none)
    {s' : Store} (hsome : order.obeyed S.part s = some s') {mode : Mode} (hmode : mode.Of d') :
    ∃ b', b.turn S (w, .isp order) = some b' ∧ Represents S b' { s with mode := mode } := by
  obtain ⟨ret, h', hrun, hs'⟩ := Order.denied (O := w.over b.files _) S.eager hden hr.stands
    (World.fileIs_store hr (S.line.session S.identity) w) hout hsome
  exact ⟨⟨b.files, h'.env⟩, by simp only [Bench.turn, lpcisp_of_run hrun, hout, Option.map_some,
    Option.map_none, Option.getD_none], hr.session hs' hd hmode⟩

theorem turn_isp (hr : Represents S b s) {order : Order} (hdef : order.Defined S.part s) :
    ∃ b', b.turn S (w, .isp order) = some b' ∧ Represents S b' (order.perform S.part s) := by
  rcases hobeyed : order.obeyed S.part s with _ | s'
  · obtain ⟨ret, hrun⟩ := Order.unasked (h := .start b.wire 0 0 0)
      (World.fileIs_store hr (S.line.session S.identity) w) hdef hobeyed
    refine ⟨b, ?_, by rwa [Order.perform, hobeyed]⟩
    simp only [Bench.turn, lpcisp_of_run hrun, Option.map_some]
    rcases order.output with _ | name
    · rfl
    · rw [Option.map_some, Option.getD_some, Files.keep_nil b.files name rfl]
      rfl
  · have hout (hne : s.mode ≠ .opened) : order.output = none := by
      cases order with
      | readMemory addr count name mode =>
        simp only [Order.obeyed] at hobeyed
        split_ifs at hobeyed with halign
        exact absurd (hdef halign).1 hne
      | _ => rfl
    have hm := hr.mode
    rw [Order.perform, hobeyed]
    rcases hmode : s.mode with _ | _ | _ <;> rw [hmode] at hm
    · obtain ⟨b', hturn, hr'⟩ := turn_denied (w := w) hr (Session.denies_waiting S.identity S.line hm) rfl
        (hout (by simp [hmode])) hobeyed hm
      rw [← hmode] at hr'
      exact ⟨b', hturn, hr'⟩
    · exact turn_opened hr hmode hdef hobeyed
    · have hden := Session.denies_spoiled S.identity S.line b.wire.dev.dev
      rw [← show b.wire.dev = _ from hm] at hden
      exact turn_denied hr hden rfl (hout (by simp [hmode])) hobeyed rfl

/-- A session is opened with a boot ROM that waits, and one that is open is spoiled. -/
theorem turn_synchronize (hr : Represents S b s) :
    ∃ b', b.turn S (w, .synchronize) = some b' ∧ Represents S b' (Job.perform S.part s .synchronize) := by
  have hrun {ret : ℤ} {h' : Host (Wire (Session δ))} (hconnect : ispConnect ((S.line.session S.identity).sys
      (w.over b.files _)) S.fuel ispCrystalFreq (.start b.wire 0 0 0) = .ok (some ret) h') :
      b.turn S (w, .synchronize) = some ⟨b.files, h'.env⟩ := by
    simp only [Bench.turn, Bench.run, Invocation.run]
    rw [← World.over, bind_ok hconnect]
    rfl
  have hspoil (hne : s.mode ≠ .waiting) {spoiled : Bool}
      (hs : Line.Stands (.start b.wire 0 0 0) ⟨.commanding, false, spoiled, b.wire.dev.dev⟩ []) :
      ∃ b', b.turn S (w, .synchronize) = some b' ∧
        Represents S b' (Job.perform S.part s .synchronize) := by
    obtain ⟨h', hconnect, hs'⟩ := ispConnect_open (O := w.over b.files _) S.fuel ispCrystalFreq S.eager hs
      (w.shows b.files).stack
    refine ⟨_, hrun hconnect, ?_⟩
    rw [Job.perform, if_neg hne]
    exact hr.session hs' rfl rfl
  have hm := hr.mode
  have hs := hr.stands
  rcases hmode : s.mode with _ | _ | _ <;> rw [hmode] at hm
  · obtain ⟨h', hconnect, hs'⟩ := ispConnect_waiting (O := w.over b.files _) S.eager
      (show ispCrystalFreq.toNat < 10 ^ 5 by decide) S.fuel_le hm hs
    refine ⟨_, hrun hconnect, ?_⟩
    rw [Job.perform, if_pos hmode]
    exact hr.session hs' rfl rfl
  · rw [show b.wire.dev = _ from hm] at hs
    exact hspoil (by simp [hmode]) hs
  · rw [show b.wire.dev = _ from hm] at hs
    exact hspoil (by simp [hmode]) hs

/-- Every job that is defined comes to its end and does what it is for. -/
theorem bench_keeps (S : Setup δ) :
    Refine.Keeps (Bench.turn S) (fun s j => Job.perform S.part s j.2) (fun s j => j.2.Defined S.part s)
      (Represents S) := by
  rintro b s ⟨w, job⟩ hr hdef
  cases job with
  | reset => exact turn_reset hr
  | check name calcUserCode checkCrp => exact turn_check hr hdef
  | synchronize => exact turn_synchronize hr
  | isp order => exact turn_isp hr hdef
  | id => exact turn_id hr
  | blank => exact turn_blank hr
  | dump name => exact turn_dump hr name
  | flash name calcUserCode => exact turn_flash hr name calcUserCode

end Turns

end LpcTools
