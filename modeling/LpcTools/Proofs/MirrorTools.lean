import LpcTools.Programs
import LpcTools.Proofs.Mirror

/-!
# What the tools see of the system

The commands of `lpcisp` and `lpcprog` and the connection, as they depend on the system: as `Mirror`
says it of the transfers.
-/

namespace LpcTools

open Run Decimal Uuencode

variable {σ τ : Type} {E : Sys σ} {F : Sys τ} {R : σ → τ → Prop} {V : List UInt8 → Prop}
  {h : Host σ} {k : Host τ}

/-- The requests with two numbers that a letter starts. -/
def SaysTwo (V : List UInt8 → Prop) (cmd : UInt8) : Prop :=
  ∀ a b : UInt32, V (twoArgsText cmd a.toNat b.toNat)

def SaysAddress (V : List UInt8 → Prop) (cmd : UInt8) : Prop :=
  ∀ a b c : UInt32, V (addressText cmd a.toNat b.toNat c.toNat)

def SaysGo (V : List UInt8 → Prop) : Prop :=
  ∀ a : UInt32, V (goText a.toNat 'T'.toUInt8) ∧ V (goText a.toNat 'A'.toUInt8)

/-- The transfers to the RAM: the request, and `n` bytes in blocks or as they are. -/
structure SaysWrites (E : Sys σ) (V : List UInt8 → Prop) (uu : ℕ) (n : ℕ → Prop) : Prop where
  request : SaysTwo V 'W'.toUInt8
  blocks : uu ≠ 0 → SaysBlocks E V
  raw : uu = 0 → ∀ bs : List UInt8, n bs.length → V bs

/-- The transfers from the device. -/
structure SaysReads (V : List UInt8 → Prop) : Prop where
  request : SaysTwo V 'R'.toUInt8
  acknowledges : Acknowledges V

/-- The requests for what the device is. -/
structure SaysIds (V : List UInt8 → Prop) : Prop where
  partId : V readPartId
  uid : V readUid
  bootVersion : V readBootVersion

/-- The requests of `erase_flash`. -/
structure SaysErases (V : List UInt8 → Prop) : Prop where
  unlock : V unlock
  blankCheck : SaysTwo V 'I'.toUInt8
  prepare : SaysTwo V 'P'.toUInt8
  erase : SaysTwo V 'E'.toUInt8

/-- The messages that open a session. -/
structure SaysConnect (V : List UInt8 → Prop) (freq : UInt32) : Prop where
  start : V synchroStart
  synchro : V synchro
  freq : V (freqText freq)
  echoOff : V synchroEchoOff

section Files

theorem Mirrors.object (K : Mirrors E F R V) {s : σ} {t : τ} (hst : R s t) (data : List UInt8) :
    E.object s data = F.object t data := by
  funext i
  rw [Sys.object, Sys.object, K.beyond hst]

variable (K : Mirrors E F R V) (p : Twin R h k)

include K p

theorem alike_ispFileToBuff (len : ℕ) (filename : List UInt8) :
    Alike (Twin R) (ispFileToBuff E len filename h) (ispFileToBuff F len filename k) := by
  unfold ispFileToBuff
  refine .get (.ite (fun _ => ?_) fun _ => ?_)
  · rw [K.stdin p.env]
    exact .pure _ p
  · rw [K.openInput p.env]
    rcases F.openInput k.env filename with _ | reads
    · exact .pure _ p
    · exact .pure _ p

theorem alike_ispBuffToFile (data : List Cell) (len : UInt32) (filename : List UInt8) :
    Alike (Twin R) (ispBuffToFile E data len filename h) (ispBuffToFile F data len filename k) := by
  unfold ispBuffToFile
  refine .get ?_
  rw [K.openOutput p.env, K.save p.env]
  refine .ite (fun _ => .pure _ p) fun _ => ?_
  rcases F.save k.env len.toNat with _ | n
  · exact .pure _ p
  · exact alike_emit _ (.pure _ (p.emit _))

end Files

section Isp

variable (K : Mirrors E F R V) (p : Twin R h k)

include K p

theorem alike_ispCmdReadMemory (hspoken : SaysReads V) (args : List (List UInt8)) :
    Alike (Twin R) (ispCmdReadMemory E args h) (ispCmdReadMemory F args k) := by
  rcases args with _ | ⟨arg₀, _ | ⟨arg₁, _ | ⟨outFileName, rest⟩⟩⟩
  · exact .pure _ p
  · exact .pure _ p
  · exact .pure _ p
  · unfold ispCmdReadMemory
    refine .ite (fun _ => .pure _ p) fun _ => .get ?_
    rw [K.malloc p.env]
    refine .ite (fun _ => .pure _ p) fun _ => ?_
    refine .bind (alike_ispReadMemory K p hspoken.acknowledges (hspoken.request _ _) _ _) ?_
    rintro ⟨len, data⟩ _ _ - q
    exact alike_ispBuffToFile K q _ _ _

theorem alike_ispCmdWriteToRam {uu : ℕ} {args : List (List UInt8)} {n : ℕ → Prop}
    (hspoken : SaysWrites E V uu n) (huu : ((args.drop 2).head?.map argValue).getD 1 % 2 ^ 32 = uu)
    (hn : ∀ m, n (UInt32.ofNat m).toNat) :
    Alike (Twin R) (ispCmdWriteToRam E args h) (ispCmdWriteToRam F args k) := by
  rcases args with _ | ⟨arg₀, _ | ⟨inFileName, rest⟩⟩
  · exact .pure _ p
  · exact .pure _ p
  · unfold ispCmdWriteToRam
    refine .ite (fun _ => .pure _ p) fun _ => .bind (alike_uninit K p _) fun fileBuff _ _ _ q => .get ?_
    have hobject := K.object q.env
    refine .bind (alike_ispFileToBuff K q _ _) ?_
    rintro ⟨ret, got⟩ _ _ - q
    refine .ite (fun _ => .pure _ q) fun _ => ?_
    rw [hobject]
    change ((rest.head?.map argValue).getD 1 % 2 ^ 32) = uu at huu
    rw [huu]
    refine alike_ispSendBufToRam K q (hspoken.request _ _) hspoken.blocks (fun h0 bs hbs => ?_) _
    refine hspoken.raw h0 bs ?_
    rw [hbs]
    exact hn _

theorem alike_ispCmdAddressWrapper {cmd : UInt8} (hspoken : SaysAddress V cmd)
    (args : List (List UInt8)) :
    Alike (Twin R) (ispCmdAddressWrapper E args cmd h) (ispCmdAddressWrapper F args cmd k) := by
  rcases args with _ | ⟨arg₀, _ | ⟨arg₁, _ | ⟨arg₂, _ | ⟨arg₃, rest⟩⟩⟩⟩
  · exact .pure _ p
  · exact .pure _ p
  · exact .pure _ p
  · have hsend := alike_ispSendCmdAddress K p (hspoken (UInt32.ofNat (argValue arg₀))
      (UInt32.ofNat (argValue arg₁)) (UInt32.ofNat (argValue arg₂)))
    unfold ispCmdAddressWrapper
    refine .ite (fun _ => .ite (fun _ => .pure _ p) fun _ => hsend) fun _ => ?_
    refine .ite (fun _ => .ite (fun _ => .pure _ p) fun _ => ?_) fun _ => .pure _ p
    exact .ite (fun _ => .pure _ p) fun _ => hsend
  · exact .pure _ p

theorem alike_readResult (n : ℕ) : Alike (Twin R) (readResult E n h) (readResult F n k) := by
  unfold readResult
  refine .bind (alike_uninit K p _) fun buf _ _ _ q => .bind (alike_readMore K q _ _) ?_
  rintro ⟨len, got⟩ _ _ - q
  refine .ite (fun _ => .pure _ q) fun _ => ?_
  rcases readNumbers n (overlay buf 0 got) with _ | vs
  · exact .throw _ q
  · exact .pure _ q

theorem alike_ispCmdCompare (hspoken : SaysAddress V 'M'.toUInt8) (args : List (List UInt8)) :
    Alike (Twin R) (ispCmdCompare E args h) (ispCmdCompare F args k) := by
  unfold ispCmdCompare
  refine .bind (alike_ispCmdAddressWrapper K p hspoken args) fun ret _ _ _ q => .ite (fun _ => .pure _ q) fun _ => ?_
  exact .ite (fun _ => alike_readResult K q 1) fun _ => .pure _ q

theorem alike_ispCmdGo (hspoken : SaysGo V) (args : List (List UInt8)) :
    Alike (Twin R) (ispCmdGo E args h) (ispCmdGo F args k) := by
  rcases args with _ | ⟨arg₀, _ | ⟨mode, _ | ⟨arg₂, rest⟩⟩⟩
  · exact .pure _ p
  · exact .pure _ p
  · unfold ispCmdGo
    refine .ite (fun _ => .pure _ p) fun _ => .ite (fun _ => ?_) fun _ => .ite (fun _ => ?_) fun _ => .pure _ p
    · exact alike_ispSendCmdGo K p (hspoken _).1
    · exact alike_ispSendCmdGo K p (hspoken _).2
  · exact .pure _ p

theorem alike_ispCmdSectorsSkel {cmd : UInt8} (hspoken : SaysTwo V cmd) (args : List (List UInt8)) :
    Alike (Twin R) (ispCmdSectorsSkel E args cmd h) (ispCmdSectorsSkel F args cmd k) := by
  rcases args with _ | ⟨arg₀, _ | ⟨arg₁, _ | ⟨arg₂, rest⟩⟩⟩
  · exact .pure _ p
  · exact .pure _ p
  · exact alike_ispSendCmdSectors K p (hspoken _ _) 0
  · exact .pure _ p

theorem alike_ispCmdBlankCheck (hspoken : SaysTwo V 'I'.toUInt8) (args : List (List UInt8)) :
    Alike (Twin R) (ispCmdBlankCheck E args h) (ispCmdBlankCheck F args k) := by
  unfold ispCmdBlankCheck
  refine .bind (alike_ispCmdSectorsSkel K p hspoken args) fun ret _ _ _ q => .ite (fun _ => .pure _ q) fun _ => ?_
  refine .ite (fun _ => alike_readResult K q 2) fun _ => .ite (fun _ => .pure _ q) fun _ => ?_
  exact .ite (fun _ => .pure _ q) fun _ => .pure _ q

end Isp

section Prog

variable (K : Mirrors E F R V) (p : Twin R h k)

include K p

theorem alike_ispCmdPartId (htext : V readPartId) (quiet : ℤ) :
    Alike (Twin R) (ispCmdPartId E quiet h) (ispCmdPartId F quiet k) :=
  alike_readReply K p htext quiet 15 1 _

theorem alike_getIds (hspoken : SaysIds V) : Alike (Twin R) (getIds E h) (getIds F k) := by
  unfold getIds
  refine .bind (alike_ispCmdPartId K p hspoken.partId 0) fun _ _ _ _ q => ?_
  refine .bind (alike_readReply K q hspoken.uid 0 50 4 _) fun _ _ _ _ q => ?_
  exact .bind (alike_readReply K q hspoken.bootVersion 0 20 2 _) fun _ _ _ _ q => .pure _ q

theorem alike_dumpToFile (hspoken : SaysReads V) (part : PartDesc) (filename : List UInt8) :
    Alike (Twin R) (dumpToFile E part filename h) (dumpToFile F part filename k) := by
  unfold dumpToFile
  refine .get ?_
  rw [K.malloc p.env]
  refine .ite (fun _ => .pure _ p) fun _ => ?_
  refine .bind (alike_ispReadMemory K p hspoken.acknowledges (hspoken.request _ _) _ _) ?_
  rintro ⟨len, data⟩ _ _ - q
  exact alike_ispBuffToFile K q _ _ _

omit p in
theorem alike_eraseSectors (hspoken : SaysErases V) : ∀ (n i : ℕ) {h : Host σ} {k : Host τ},
    Twin R h k → Alike (Twin R) (eraseSectors E n i h) (eraseSectors F n i k)
  | 0, _, _, _, p => .pure _ p
  | n + 1, i, _, _, p => by
    unfold eraseSectors
    refine .bind (alike_ispSendCmdSectors K p (hspoken.blankCheck _ _) 1) fun ret _ _ _ q => ?_
    refine .ite (fun _ => alike_eraseSectors hspoken n (i + 1) q) fun _ => .ite (fun _ => .pure _ q) fun _ => ?_
    refine .bind (alike_readMore K q _ _) fun _ _ _ _ q => ?_
    refine .bind (alike_ispSendCmdSectors K q (hspoken.prepare _ _) 1) fun ret _ _ _ q => ?_
    refine .ite (fun _ => .pure _ q) fun _ => ?_
    refine .bind (alike_ispSendCmdSectors K q (hspoken.erase _ _) 1) fun ret _ _ _ q => ?_
    exact .ite (fun _ => .pure _ q) fun _ => alike_eraseSectors hspoken n (i + 1) q

theorem alike_eraseFlash (hspoken : SaysErases V) (part : PartDesc) :
    Alike (Twin R) (eraseFlash E part h) (eraseFlash F part k) := by
  unfold eraseFlash
  refine .bind (alike_ispCmdUnlock K p hspoken.unlock 1) fun ret _ _ _ q => ?_
  exact .ite (fun _ => .pure _ q) fun _ => alike_eraseSectors K hspoken _ 0 q

theorem alike_startProg (hreads : SaysReads V) (hunlock : V unlock) (hgo : SaysGo V)
    (part : PartDesc) : Alike (Twin R) (startProg E part h) (startProg F part k) := by
  unfold startProg
  refine .bind (alike_ispReadMemory K p hreads.acknowledges (hreads.request _ _) _ _) ?_
  rintro ⟨len, data⟩ _ _ - q
  refine .ite (fun _ => .pure _ q) fun _ => .bind (alike_ispCmdUnlock K q hunlock 1) fun ret _ _ _ q => ?_
  refine .ite (fun _ => .pure _ q) fun _ => .ite (fun _ => ?_) fun _ => ?_
  · exact alike_ispSendCmdGo K q (hgo _).1
  · exact alike_ispSendCmdGo K q (hgo _).2

omit p in
theorem alike_flashBlocks {part : PartDesc} {writeSize : UInt32}
    (hwrites : SaysWrites E V part.uuencode.toNat (· = writeSize.toNat))
    (hprepare : SaysTwo V 'P'.toUInt8) (hcopy : SaysAddress V 'C'.toUInt8) (data : List UInt8)
    (sectorSize ramAddr : UInt32) : ∀ (n i : ℕ) {h : Host σ} {k : Host τ}, Twin R h k →
      Alike (Twin R) (flashBlocks E part data writeSize sectorSize ramAddr n i h)
        (flashBlocks F part data writeSize sectorSize ramAddr n i k)
  | 0, _, _, _, p => .pure _ p
  | n + 1, i, _, _, p => by
    unfold flashBlocks
    refine .ite (fun _ => .throw _ p) fun _ => ?_
    refine .bind (alike_ispSendCmdSectors K p (hprepare _ _) 1) fun ret _ _ _ q => ?_
    refine .ite (fun _ => .pure _ q) fun _ => .get ?_
    rw [K.object q.env]
    refine .bind (alike_ispSendBufToRam K q (hwrites.request _ _) hwrites.blocks
      (fun h0 bs hbs => hwrites.raw h0 bs hbs) _) fun ret _ _ _ q => ?_
    refine .ite (fun _ => .pure _ q) fun _ => ?_
    refine .bind (alike_ispSendCmdAddress K q (hcopy _ _ _)) fun ret _ _ _ q => ?_
    refine .ite (fun _ => .pure _ q) fun _ => ?_
    exact alike_flashBlocks hwrites hprepare hcopy data sectorSize ramAddr n (i + 1) q

omit K in
theorem alike_patchUserCode (data : List UInt8) (calcUserCode : ℤ) :
    Alike (Twin R) (patchUserCode data calcUserCode h) (patchUserCode data calcUserCode k) := by
  rcases patchUserCode_cases data calcUserCode with ⟨r, hr⟩ | hr
  · rw [hr, hr]
    exact .ok r p
  · rw [hr, hr]
    exact .error _ p

theorem alike_flashImage {part : PartDesc} {writeSize : UInt32}
    (hwrites : SaysWrites E V part.uuencode.toNat (· = writeSize.toNat))
    (hprepare : SaysTwo V 'P'.toUInt8) (hcopy : SaysAddress V 'C'.toUInt8) (image : List UInt8)
    (sectorSize ramAddr : UInt32) (calcUserCode : ℤ) :
    Alike (Twin R) (flashImage E part image writeSize sectorSize ramAddr calcUserCode h)
      (flashImage F part image writeSize sectorSize ramAddr calcUserCode k) := by
  unfold flashImage
  refine .bind (alike_patchUserCode p _ _) fun r _ _ _ q => ?_
  rcases r with _ | data
  · exact .pure _ q
  · simp only []
    rcases word data (crpOffset / 4) with _ | crp
    · exact .throw _ q
    · refine .ite (fun _ => .pure _ q) fun _ => .ite (fun _ => .throw _ q) fun _ => ?_
      refine .ite (fun _ => .pure _ q) fun _ => ?_
      exact alike_flashBlocks K hwrites hprepare hcopy data sectorSize ramAddr _ 0 q

theorem alike_flashTarget {part : PartDesc}
    (hwrites : SaysWrites E V part.uuencode.toNat (· =
      (calcWriteSize (part.flashSize / part.flashNbSectors) part.ramBuffSize).toNat))
    (herases : SaysErases V) (hcopy : SaysAddress V 'C'.toUInt8) (filename : List UInt8)
    (calcUserCode : ℤ) : Alike (Twin R) (flashTarget E part filename calcUserCode h)
      (flashTarget F part filename calcUserCode k) := by
  unfold flashTarget
  refine .ite (fun _ => .throw _ p) fun _ => .ite (fun _ => .pure _ p) fun _ => ?_
  refine .ite (fun _ => .pure _ p) fun _ => .bind (alike_eraseFlash K p herases part) fun ret _ _ _ q => ?_
  refine .ite (fun _ => .pure _ q) fun _ => .get ?_
  rw [K.malloc q.env]
  refine .ite (fun _ => .pure _ q) fun _ => .bind (alike_ispFileToBuff K q _ _) ?_
  rintro ⟨size, image⟩ _ _ - q
  refine .ite (fun _ => .pure _ q) fun _ => ?_
  exact alike_flashImage K q hwrites herases.prepare hcopy image _ _ calcUserCode

end Prog

section Connect

variable (K : Mirrors E F R V)

include K

theorem alike_drainLine : ∀ (fuel : ℕ) (unused : UInt8) (loops : ℕ) {h : Host σ} {k : Host τ},
    Twin R h k → Alike (Twin R) (drainLine E fuel unused loops h) (drainLine F fuel unused loops k)
  | 0, _, _, _, _, p => .pure _ p
  | fuel + 1, unused, loops, h, k, p => by
    unfold drainLine
    rcases hr : E.read h.env 1 with ⟨r, s'⟩
    obtain ⟨t', hr', hst⟩ := K.read p.env hr
    simp only [hr']
    have q := p.of_env hst
    rcases r with (_ | ⟨c, bs⟩) | _ | _
    · exact .ok _ q
    · simp only []
      split_ifs
      · exact .ok _ q
      · exact alike_drainLine fuel c loops q
    · simp only []
      split_ifs
      · exact .ok _ (q.emit _)
      · exact .ok _ q
      · exact alike_drainLine fuel unused (loops + 1) q
    · exact .ok _ q

variable (p : Twin R h k)

include p

theorem alike_readBehind (unused : UInt8) :
    Alike (Twin R) (readBehind E unused h) (readBehind F unused k) := by
  unfold readBehind
  split_ifs
  · rcases hr : E.read h.env 1 with ⟨r, s'⟩
    obtain ⟨t', hr', hst⟩ := K.read p.env hr
    simp only [hr']
    have q := p.of_env hst
    rcases r with (_ | ⟨c, bs⟩) | _ | _ <;> exact .ok _ q
  · exact .ok _ p

theorem alike_ispSerialEmptyBuffer (fuel : ℕ) :
    Alike (Twin R) (ispSerialEmptyBuffer E fuel h) (ispSerialEmptyBuffer F fuel k) := by
  unfold ispSerialEmptyBuffer
  refine .bind (alike_drainLine K fuel 0 0 p) fun r _ _ _ q => ?_
  rcases r with _ | _ | unused
  · exact .pure _ q
  · exact .pure _ q
  · refine .bind (alike_readBehind K q unused) fun unused _ _ _ q => .ite (fun _ => .pure _ q) fun _ => ?_
    exact .bind (.modify (q.keep unused)) fun _ _ _ _ q => .pure _ q

theorem alike_exchange {message : List UInt8} (hspoken : V message) (fuel minRead : ℕ)
    (buf : List UInt8) : Alike (Twin R) (exchange E fuel message minRead buf h)
      (exchange F fuel message minRead buf k) := by
  unfold exchange
  refine .bind (alike_write K p hspoken) fun _ _ _ _ q => ?_
  refine .bind (alike_ispSerialEmptyBuffer K q fuel) fun done _ _ _ q => .ite (fun _ => ?_) fun _ => .pure _ q
  refine .bind (alike_read K q _ _) ?_
  rintro ⟨len, got⟩ _ _ - q
  exact .pure _ q

theorem alike_ispConnect {freq : UInt32} (hspoken : SaysConnect V freq) (fuel : ℕ) :
    Alike (Twin R) (ispConnect E fuel freq h) (ispConnect F fuel freq k) := by
  unfold ispConnect
  refine .bind (alike_uninit K p _) fun buf _ _ _ q => .bind (alike_write K q hspoken.start) fun n _ _ _ q => ?_
  refine .ite (fun _ => .pure _ q) fun _ => .bind (alike_read K q _ _) ?_
  rintro ⟨len, got⟩ _ _ - q
  refine .ite (fun _ => .pure _ q) fun _ => .ite (fun _ => .pure _ q) fun _ => ?_
  refine .bind (alike_exchange K q hspoken.synchro fuel _ _) fun r _ _ _ q => ?_
  rcases r with _ | buf
  · exact .pure _ q
  refine .ite (fun _ => .pure _ q) fun _ => ?_
  refine .bind (alike_exchange K q hspoken.freq fuel _ _) fun r _ _ _ q => ?_
  rcases r with _ | buf
  · exact .pure _ q
  refine .ite (fun _ => .pure _ q) fun _ => ?_
  refine .bind (alike_exchange K q hspoken.echoOff fuel _ _) fun r _ _ _ q => ?_
  rcases r with _ | buf
  · exact .pure _ q
  · exact .pure _ q

theorem alike_progConnectAndId {freq : UInt32} (hspoken : SaysConnect V freq) (hid : V readPartId)
    (fuel : ℕ) :
    Alike (Twin R) (progConnectAndId E fuel freq h) (progConnectAndId F fuel freq k) := by
  unfold progConnectAndId syncTarget
  refine .bind (.bind (alike_ispConnect K p hspoken fuel) fun r _ _ _ q => ?_) fun done _ _ _ q => ?_
  · rcases r with _ | syncRet
    · exact .pure _ q
    · refine .ite (fun _ => ?_) fun _ => .pure _ q
      exact .bind (alike_ispCmdPartId K q hid 1) fun _ _ _ _ q => .pure _ q
  · exact .ite (fun _ => .map _ (alike_ispCmdPartId K q hid 1)) fun _ => .pure _ q

end Connect

section Tables

/-- What a command of `lpcisp` says with these arguments. -/
def IspCommand.Says (E : Sys σ) (V : List UInt8 → Prop) (args : List (List UInt8)) : IspCommand → Prop
  | .unlock => V LpcTools.unlock
  | .writeToRam =>
    SaysWrites E V (((args.drop 2).head?.map argValue).getD 1 % 2 ^ 32) fun _ => True
  | .readMemory => SaysReads V
  | .prepareForWrite => SaysTwo V 'P'.toUInt8
  | .copyRamToFlash => SaysAddress V 'C'.toUInt8
  | .go => SaysGo V
  | .erase => SaysTwo V 'E'.toUInt8
  | .blankCheck => SaysTwo V 'I'.toUInt8
  | .readPartId => V LpcTools.readPartId
  | .readBootVersion => V LpcTools.readBootVersion
  | .compare => SaysAddress V 'M'.toUInt8
  | .readUid => V LpcTools.readUid

/-- What a command of `lpcprog` says about a part. -/
def ProgCommand.Says (E : Sys σ) (V : List UInt8 → Prop) (part : PartDesc) : ProgCommand → Prop
  | .dump => SaysReads V
  | .flash => SaysErases V ∧ SaysAddress V 'C'.toUInt8 ∧ SaysWrites E V part.uuencode.toNat
      (· = (calcWriteSize (part.flashSize / part.flashNbSectors) part.ramBuffSize).toNat)
  | .id => SaysIds V
  | .blank => SaysErases V
  | .go => SaysReads V ∧ V LpcTools.unlock ∧ SaysGo V

/-- What a program says: of `lpcprog`, what opens the session, and what its command says about a part
that can be found. -/
def Invocation.Says (E : Sys σ) (V : List UInt8 → Prop) : Invocation → Prop
  | synchronize => SaysConnect V ispCrystalFreq
  | isp cmd args => ∀ command, lookup ispCmdsList cmd = some command → command.Says E V args
  | prog freq find _ cmd _ => SaysConnect V freq ∧ V readPartId ∧ ∀ command id entry,
      lookup progCmdsList cmd = some command → find id = some entry → command.Says E V entry.desc

variable (K : Mirrors E F R V) (p : Twin R h k)

include K p

theorem alike_ispCommand {command : IspCommand} {args : List (List UInt8)}
    (hspoken : command.Says E V args) :
    Alike (Twin R) (command.run E args h) (command.run F args k) := by
  cases command with
  | unlock => exact alike_ispCmdUnlock K p hspoken 0
  | writeToRam => exact alike_ispCmdWriteToRam K p hspoken rfl fun _ => trivial
  | readMemory => exact alike_ispCmdReadMemory K p hspoken args
  | prepareForWrite => exact alike_ispCmdSectorsSkel K p hspoken args
  | copyRamToFlash => exact alike_ispCmdAddressWrapper K p hspoken args
  | go => exact alike_ispCmdGo K p hspoken args
  | erase => exact alike_ispCmdSectorsSkel K p hspoken args
  | blankCheck => exact alike_ispCmdBlankCheck K p hspoken args
  | readPartId => exact alike_ispCmdPartId K p hspoken 0
  | readBootVersion => exact alike_readReply K p hspoken 0 20 2 _
  | compare => exact alike_ispCmdCompare K p hspoken args
  | readUid => exact alike_readReply K p hspoken 0 50 4 _

theorem alike_progCommand {command : ProgCommand} {part : PartDesc} (hspoken : command.Says E V part)
    (calcUserCode : ℤ) (args : List (List UInt8)) :
    Alike (Twin R) (command.run E part calcUserCode args h)
      (command.run F part calcUserCode args k) := by
  cases command with
  | dump =>
    rcases args with _ | ⟨filename, _ | ⟨arg, rest⟩⟩
    · exact .pure _ p
    · exact alike_dumpToFile K p hspoken part filename
    · exact .pure _ p
  | flash =>
    rcases args with _ | ⟨filename, _ | ⟨arg, rest⟩⟩
    · exact .pure _ p
    · exact alike_flashTarget K p hspoken.2.2 hspoken.1 hspoken.2.1 filename calcUserCode
    · exact .pure _ p
  | id => exact alike_getIds K p hspoken
  | blank => exact alike_eraseFlash K p hspoken part
  | go => exact alike_startProg K p hspoken.1 hspoken.2.1 hspoken.2.2 part

theorem alike_invocation {invocation : Invocation} (hspoken : invocation.Says E V) (fuel : ℕ) :
    Alike (Twin R) (invocation.run E fuel h) (invocation.run F fuel k) := by
  cases invocation with
  | synchronize =>
    unfold Invocation.run
    refine .bind (alike_ispConnect K p hspoken fuel) fun r _ _ _ q => ?_
    rcases r with _ | ret
    · exact .pure _ q
    · exact .pure _ q
  | isp cmd args =>
    unfold Invocation.run ispHandleCommand
    refine .bind ?_ fun _ _ _ _ q => .pure _ q
    simp only []
    rcases hlookup : lookup ispCmdsList cmd with _ | command
    · exact .pure _ p
    · exact alike_ispCommand K p (hspoken command hlookup)
  | prog freq find calcUserCode cmd args =>
    unfold Invocation.run lpcprog progHandleCommand
    refine .bind (alike_progConnectAndId K p hspoken.1 hspoken.2.1 fuel) fun r _ _ _ q => ?_
    rcases r with _ | devId
    · exact .pure _ q
    refine .ite (fun _ => .pure _ q) fun _ => .bind ?_ fun _ _ _ _ q => .pure _ q
    simp only []
    rcases hfind : find (toUint64 devId) with _ | entry
    · exact .pure _ q
    simp only [Option.map_some]
    rcases hlookup : lookup progCmdsList cmd with _ | command
    · exact .pure _ q
    · exact alike_progCommand K q (hspoken.2.2 command _ entry hlookup hfind) calcUserCode args

end Tables

end LpcTools
