import LpcTools.Proofs.Bench
import LpcTools.Proofs.CheckBounds

/-!
# The jobs on a bench do what they are for

Every job comes to its end, and is seen by what it does to the files and to the content of the flash. So
is a whole history of jobs, in whatever states of the session and whichever worlds they find.
-/

namespace LpcTools

open Run Decimal Refine

variable {δ : Type} {S : Setup δ} {b : Bench δ} {s : Store} {w : World}

section Files

theorem Files.keep_nil (files : Files) (name : FileName) {log : List Event} (h : savedCells log = []) :
    files.keep name log = files := by
  rw [Files.keep, h]
  rfl

theorem Files.keep_single (files : Files) (name : FileName) {log : List Event} {content : List UInt8}
    (h : savedCells log = [content.map some]) : files.keep name log = files.put name content := by
  have hcells : (content.map some).map (fun c : Cell => c.getD 0) = content := by
    rw [List.map_map]
    exact List.map_id _
  rw [Files.keep, h, List.foldl_cons, List.foldl_nil, hcells]

end Files

/-- The system of a process on the line. -/
def World.over (w : World) (files : Files) (σ : Type) : Sys σ := (w.sys files).over σ

theorem World.fileIs (L : Line δ) (w : World) (files : Files) (name : FileName) :
    FileIs (L.sys (w.over files _)) name.text (files name) := by
  have hfile := (w.shows files).file name
  rcases hcontent : files name with _ | content
  · rw [hcontent] at hfile
    exact ⟨hfile.1, fun _ => hfile.2 ()⟩
  · rw [hcontent] at hfile
    intro env
    obtain ⟨hname, hopened⟩ := hfile ()
    exact ⟨hname, hopened⟩

section Sessions

theorem Represents.stands (hr : Represents S b s) :
    Line.Stands (.start b.wire 0 0 0) b.wire.dev [] := by
  refine ⟨rfl, ?_, ?_, rfl, rfl, rfl⟩
  · change b.wire.pending.flatten = []
    rw [hr.pending]
    rfl
  · intro c hc
    change c ∈ b.wire.pending at hc
    rw [hr.pending] at hc
    cases hc

theorem Represents.phase (hr : Represents S b s) :
    b.wire.dev.phase = .waiting ∨ b.wire.dev.phase = .commanding ∧ b.wire.dev.echo = false := by
  have hm := hr.mode
  rcases hmode : s.mode with _ | _ | _ <;> rw [hmode] at hm
  · exact .inl hm
  · exact .inr (by rw [show b.wire.dev = _ from hm]; exact ⟨rfl, rfl⟩)
  · exact .inr (by rw [show b.wire.dev = _ from hm]; exact ⟨rfl, rfl⟩)

/-- What is known of the memories, of a device that has a session open. -/
theorem Represents.of_wire {wire : Wire (Session δ)} {d : δ} {files : Files} {flash : List UInt8}
    {ram : UInt32 → Option UInt8} (hdev : wire.dev = .ready d) (hpending : wire.pending = [])
    (hexpects : (S.chip d).expects = none) (hflash : S.part.contents (S.chip d).flash = flash)
    (hram : ∀ a c, ram a = some c → (S.chip d).ram a = c) :
    Represents S ⟨files, wire⟩ ⟨files, flash, ram, .opened⟩ := by
  have hd : wire.dev.dev = d := by
    rw [hdev]
    rfl
  refine ⟨rfl, ?_, ?_, ?_, hpending, ?_⟩
  · change S.part.contents (S.chip wire.dev.dev).flash = flash
    rw [hd, hflash]
  · change ∀ a c, ram a = some c → (S.chip wire.dev.dev).ram a = c
    rw [hd]
    exact hram
  · change (S.chip wire.dev.dev).expects = none
    rw [hd, hexpects]
  · change wire.dev = .ready wire.dev.dev
    rw [hd, hdev]

/-- Nothing is known of the RAM. -/
theorem unknown_ram {m : UInt32 → UInt8} (a : UInt32) (c : UInt8) :
    (fun _ => none : UInt32 → Option UInt8) a = some c → m a = c := fun h => by cases h

/-- A process comes to its command in an open session, with nothing written yet. -/
theorem Represents.opened (hr : Represents S b s) (w : World) : ∃ h₁,
    Line.Stands h₁ (.ready b.wire.dev.dev) [] ∧ savedCells h₁.log = [] ∧
    ∀ {cmd : String} {command : ProgCommand} {calcUserCode : ℤ} {args : List FileName} {ret h'},
      lookup progCmdsList (bytes cmd.toList) = some command →
      command.run ((S.line.session S.identity).sys (w.over b.files _)) S.part calcUserCode
        (args.map FileName.text) h₁ = .ok ret h' →
      b.lpcprog S w calcUserCode cmd args = some h' := by
  obtain ⟨h₁, hconnect, hs₁⟩ := progConnectAndId_session (O := w.over b.files _) S.eager S.freq_lt
    S.fuel_le hr.stands hr.phase fun _ => (w.shows b.files).stack
  have hsaved := unsaved_progConnectAndId (E := (S.line.session S.identity).sys (w.over b.files _))
    S.fuel S.freq (.start b.wire 0 0 0)
  rw [hconnect] at hsaved
  refine ⟨h₁, hs₁, hsaved, fun {cmd command calcUserCode args ret h'} hcmd hrun => ?_⟩
  have hpart := S.found
  simp only [Bench.lpcprog, Bench.run, Invocation.run]
  unfold LpcTools.lpcprog progHandleCommand
  rw [← World.over, bind_ok hconnect]
  simp only [if_neg (show ¬ (S.identity.partId : ℤ) < 0 by omega), hpart, hcmd]
  rw [bind_ok hrun]
  rfl

/-- A command that only the device sees runs as on the bare line. -/
theorem Represents.delegated (hr : Represents S b s) (w : World) (calcUserCode : ℤ)
    (args : List FileName) {cmd : String} {command : ProgCommand}
    (hcmd : lookup progCmdsList (bytes cmd.toList) = some command)
    (hspoken : command.Says (S.line.sys (w.over b.files _)) Delegated S.part) : ∃ k : Host (Wire δ),
    Idle S.chip k ∧ k.env.dev = b.wire.dev.dev ∧ k.resendRequestedForBlock = 0 ∧ savedCells k.log = [] ∧
    ∀ {ret k'}, command.run (S.line.sys (w.over b.files _)) S.part calcUserCode (args.map FileName.text) k =
        .ok ret k' →
      ∃ h', b.lpcprog S w calcUserCode cmd args = some h' ∧ h'.env = k'.env.inSession ∧
        h'.log = k'.log := by
  obtain ⟨h₁, hs₁, hsaved, hrun⟩ := hr.opened w
  refine ⟨Line.Stands.bare h₁ b.wire.dev.dev, ⟨rfl, rfl, hr.expects⟩, rfl, rfl, hsaved, ?_⟩
  intro ret k' hk
  have halike := alike_progCommand (session_mirrors S.line S.identity (w.sys b.files)) hs₁.twin hspoken
    calcUserCode (args.map FileName.text)
  obtain ⟨h', hh, htwin⟩ := halike.eq_ok hk
  exact ⟨h', hrun hcmd hh, htwin.env, htwin.log.symm⟩

end Sessions

section Jobs

theorem lookup_commands : lookup progCmdsList (bytes "id".toList) = some .id ∧
    lookup progCmdsList (bytes "blank".toList) = some .blank ∧
    lookup progCmdsList (bytes "dump".toList) = some .dump ∧
    lookup progCmdsList (bytes "flash".toList) = some .flash := by
  decide

theorem turn_reset (hr : Represents S b s) :
    ∃ b', b.turn S (w, .reset) = some b' ∧ Represents S b' (Job.perform S.part s .reset) :=
  ⟨_, rfl, hr.files, hr.flash, unknown_ram, hr.expects, rfl, rfl⟩

/-- A file is given its user code, or left as it is. -/
theorem binaryCheck_keeps {σ : Type} {E : Sys σ} {h : Host σ} {filename content : List UInt8}
    (calcUserCode checkCrp : Bool) (hmalloc : ∀ env n, E.malloc env n = true)
    (hfile : Gives E h.env filename content) (hsave : Saves E filename) (hlow : 0x300 ≤ content.length)
    (hhigh : content.length < 2 ^ 31) :
    ∃ ret, binaryCheck E calcUserCode checkCrp (some content.length) filename h =
      .ok ret (if calcUserCode then h.emit (.saved ((stamped content).map some)) else h) := by
  obtain ⟨cksum, v₇, crp, hi⟩ := exists_image hlow
  have hload : 0 < toInt content.length := by
    rw [toInt_of_lt hhigh]
    omega
  rw [binaryCheck_load hmalloc hfile hload (by omega)]
  rcases calcUserCode with _ | _
  · rw [map_ok (checkImage_compare _ filename hi.userCode hi.code fun _ => hi.crp)]
    exact ⟨_, rfl⟩
  · have hlen := withUserCode_length hi
    have hstamped : stamped content = withUserCode content cksum := by
      rw [stamped, hi.userCode]
      rfl
    have hsaved := ispBuffToFile_saves (h := h) hsave hfile.name
      (show (withUserCode content cksum).length < 2 ^ 32 by omega)
    rw [hlen] at hsaved
    rw [hstamped, map_ok]
    · exact ⟨_, rfl⟩
    · unfold checkImage
      rw [hi.userCode, hi.code]
      simp only [if_true]
      rw [← withUserCode, bind_ok hsaved, bind_ok (verifyCrp_eq (fun _ => hi.patched.crp) 0)]
      rfl

theorem turn_check (hr : Represents S b s) {name : FileName} {calcUserCode checkCrp : Bool}
    (hdef : (Job.check name calcUserCode checkCrp).Defined S.part s) :
    ∃ b', b.turn S (w, .check name calcUserCode checkCrp) = some b' ∧
      Represents S b' (Job.perform S.part s (.check name calcUserCode checkCrp)) := by
  obtain ⟨files, wire⟩ := b
  obtain rfl : files = s.files := hr.files
  have hfile := (w.shows s.files).file name
  simp only [Bench.turn, Bench.binaryCheck, Job.perform]
  rcases hcontent : s.files name with _ | content
  · refine ⟨⟨s.files, wire⟩, rfl, ?_⟩
    rcases calcUserCode with _ | _ <;> exact hr
  · rw [hcontent] at hfile
    obtain ⟨hlow, hhigh⟩ := hdef content hcontent
    obtain ⟨ret, hrun⟩ := binaryCheck_keeps (h := .start () 0 0 0) calcUserCode checkCrp
      (fun _ n => (w.shows s.files).malloc n) (hfile ()) ((w.shows s.files).saves name) hlow hhigh
    simp only [Option.map_some, Option.getD_some, hrun]
    refine ⟨_, rfl, ?_⟩
    rcases calcUserCode with _ | _
    · exact hr
    · rw [Files.keep_single s.files name (show savedCells _ = [(stamped content).map some] from rfl)]
      exact ⟨rfl, hr.flash, hr.ram, hr.expects, hr.pending, hr.mode⟩

theorem turn_id (hr : Represents S b s) :
    ∃ b', b.turn S (w, .id) = some b' ∧ Represents S b' (Job.perform S.part s .id) := by
  obtain ⟨files, wire⟩ := b
  obtain rfl : files = s.files := hr.files
  obtain ⟨h₁, hs₁, -, hrun⟩ := hr.opened w
  obtain ⟨h₂, hpart, hs₂⟩ := Line.Stands.partId (O := w.over s.files _) S.identity S.eager hs₁ 0
  obtain ⟨h₃, huid, hs₃⟩ := Line.Stands.reply (O := w.over s.files _) (m := 50) (n := 4) S.eager hs₂
    (show (readUid, 50, 4) ∈ idRequests by simp [idRequests])
    (show S.identity.answer readUid = some S.identity.uid from rfl) 0 fun _ => 0
  obtain ⟨h₄, hboot, hs₄⟩ := Line.Stands.reply (O := w.over s.files _) (m := 20) (n := 2) S.eager hs₃
    (show (readBootVersion, 20, 2) ∈ idRequests by simp [idRequests])
    (show S.identity.answer readBootVersion = some S.identity.bootVersion from rfl) 0 fun _ => 0
  have hids : ProgCommand.run ((S.line.session S.identity).sys (w.over s.files _)) S.part 0
      (([] : List FileName).map FileName.text) .id h₁ = .ok 0 h₄ := by
    simp only [ProgCommand.run, getIds, ispCmdReadUid, ispCmdBootVersion]
    rw [bind_ok hpart, bind_ok huid, bind_ok hboot]
    rfl
  refine ⟨⟨s.files, h₄.env⟩, ?_, .of_wire hs₄.dev hs₄.pending hr.expects hr.flash hr.ram⟩
  simp only [Bench.turn, hrun lookup_commands.1 hids, Option.map_some]

theorem turn_blank (hr : Represents S b s) :
    ∃ b', b.turn S (w, .blank) = some b' ∧ Represents S b' (Job.perform S.part s .blank) := by
  obtain ⟨files, wire⟩ := b
  obtain rfl : files = s.files := hr.files
  obtain ⟨k, hi, -, -, -, hrun⟩ := hr.delegated w 0 [] lookup_commands.2.1
    saysErases_delegated
  obtain ⟨k', herase, hi', hcontents, -⟩ := eraseFlash_erased (O := w.over s.files _) S.faithful S.willing
    S.sound hi
  obtain ⟨h', hprog, henv, -⟩ := hrun herase
  refine ⟨⟨s.files, h'.env⟩, by simp only [Bench.turn, hprog, Option.map_some], ?_⟩
  rw [henv]
  exact .of_wire rfl hi'.pending hi'.expects hcontents unknown_ram

theorem saysFlash_delegated (S : Setup δ) {σ : Type} (E : Sys σ) :
    ProgCommand.flash.Says E Delegated S.part := by
  refine ⟨saysErases_delegated, saysAddress_delegated (by decide), saysWrites_delegated E ?_⟩
  rintro n rfl
  have := (S.part.writeSize_bounds S.sound.writes).1
  rw [PartDesc.writeSize, PartDesc.sectorSize] at this
  omega

theorem turn_flash (hr : Represents S b s) (name : FileName) (calcUserCode : ℤ) :
    ∃ b', b.turn S (w, .flash name calcUserCode) = some b' ∧
      Represents S b' (Job.perform S.part s (.flash name calcUserCode)) := by
  obtain ⟨files, wire⟩ := b
  obtain rfl : files = s.files := hr.files
  obtain ⟨k, hi, -, hrequested, hsaved, hrun⟩ := hr.delegated w calcUserCode [name]
    lookup_commands.2.2.2 (saysFlash_delegated S _)
  obtain ⟨ret, k', hflash, hi', hcontents⟩ := flashTarget_flashed (O := w.over s.files _) S.faithful
    S.willing S.sound hi hrequested (fun _ n => (w.shows s.files).malloc n)
    (fun _ => (w.shows s.files).beyond) (w.fileIs S.line s.files name) calcUserCode
  have hkept : savedCells (final (flashTarget (S.line.sys (w.over s.files _)) S.part name.text
      calcUserCode k)).log = savedCells k.log := unsaved_flashTarget name.text calcUserCode k
  rw [hflash, final_ok, hsaved] at hkept
  obtain ⟨h', hprog, henv, hlog⟩ := hrun hflash
  refine ⟨⟨s.files, h'.env⟩, ?_, ?_⟩
  · simp only [Bench.turn, hprog, Option.map_some, hlog, Files.keep_nil s.files name hkept]
  · rw [henv]
    exact .of_wire rfl hi'.pending hi'.expects hcontents unknown_ram

end Jobs

section Dump

variable {L : Line δ} {O : Sys (Wire δ)} {part : PartDesc} {chip : δ → Chip} {sends : δ → List UInt8}
  {k : Host (Wire δ)} {filename : List UInt8}

theorem PartDesc.Sound.slice_contents {part : PartDesc} (hs : part.Sound) (c : Chip) :
    slice (c.memoryFrom part.sectorAt part.flashBase) 0 part.flashSize.toNat = part.contents c.flash := by
  refine List.map_congr_left fun i hi => ?_
  obtain ⟨sec, -, hat⟩ := hs.sectorAt (List.mem_range.1 hi)
  rw [Nat.zero_add, Chip.memoryFrom, Chip.memory, hat]
  rfl

/-- The content of the flash is dumped. -/
theorem dumpToFile_contents (hp : Line.Prompt L.arrive)
    (hserves : Serves L part.sectorAt part.uuencode.toNat chip sends) (hs : part.Sound) (hi : Idle chip k)
    (hmalloc : ∀ env n, O.malloc env n = true) (hsave : Saves O filename)
    (hname : isStdStream filename = false) : ∃ k',
    dumpToFile (L.sys O) part filename k = .ok (toInt part.flashSize.toNat) k' ∧ Idle chip k' ∧
      chip k'.env.dev = chip k.env.dev ∧
      savedCells k'.log = savedCells k.log ++ [(part.contents (chip k.env.dev).flash).map some] := by
  have hlow := hs.low
  have hne : part.flashSize ≠ 0 := fun h0 => by
    rw [h0] at hlow
    exact absurd hlow (by decide)
  obtain ⟨k₁, hread, hi₁, hchip⟩ := ispReadMemory_served hp hserves hi O part.flashBase hne hs.high
    (show (List.replicate part.flashSize.toNat (none : Cell)).length = _ from List.length_replicate)
  rw [hs.slice_contents] at hread
  have hkept := ispReadMemory_saved (E := L.sys O) (.replicate part.flashSize.toNat none) part.flashBase
    part.flashSize part.uuencode.toNat k
  rw [hread, final_ok] at hkept
  have hlen : (part.contents (chip k.env.dev).flash).length = part.flashSize.toNat :=
    PartDesc.contents_length
  have hsaved := ispBuffToFile_saves (E := L.sys O) (h := k₁) hsave hname
    (show (part.contents (chip k.env.dev).flash).length < 2 ^ 32 by
      rw [hlen]
      exact part.flashSize.toNat_lt)
  rw [hlen, toUnsigned_toInt, UInt32.ofNat_toNat] at hsaved
  refine ⟨k₁.emit (.saved ((part.contents (chip k.env.dev).flash).map some)), ?_,
    ⟨hi₁.nextReadChar, hi₁.pending, hi₁.expects⟩, hchip, ?_⟩
  · unfold dumpToFile
    rw [bind_ok (get_apply _), if_neg (by simp [Line.sys, hmalloc]), bind_ok hread]
    exact hsaved
  · rw [Host.emit_log, savedCells_append, hkept]
    rfl

theorem turn_dump (hr : Represents S b s) (name : FileName) :
    ∃ b', b.turn S (w, .dump name) = some b' ∧ Represents S b' (Job.perform S.part s (.dump name)) := by
  obtain ⟨files, wire⟩ := b
  obtain rfl : files = s.files := hr.files
  obtain ⟨k, hi, hdev, -, hsaved, hrun⟩ := hr.delegated w 0 [name]
    lookup_commands.2.2.1 saysReads_delegated
  have hflash := hr.flash
  have hram := hr.ram
  rw [← hdev] at hflash hram
  obtain ⟨k', hdump, hi', hchip, hkept⟩ := dumpToFile_contents (O := w.over s.files _)
    S.faithful.prompt S.serves S.sound hi (fun _ n => (w.shows s.files).malloc n)
    (fun _ => (w.shows s.files).saves name ()) name.isFile
  rw [hsaved, hflash, List.nil_append] at hkept
  obtain ⟨h', hprog, henv, hlog⟩ := hrun hdump
  refine ⟨⟨s.files.put name s.flash, h'.env⟩, ?_, ?_⟩
  · simp only [Bench.turn, hprog, Option.map_some, hlog, Files.keep_single s.files name hkept]
  · rw [henv]
    exact .of_wire rfl hi'.pending hi'.expects (by rw [← hflash, ← hchip]) (by rwa [← hchip] at hram)

end Dump

end LpcTools
