import LpcTools.Lib.Refine
import LpcTools.Check
import LpcTools.Proofs.CopyRequests
import LpcTools.Proofs.Delegating
import LpcTools.Proofs.Flashed
import LpcTools.Proofs.RamFile
import LpcTools.Proofs.Serving
import LpcTools.Proofs.Unsaved

/-!
# A bench with a target and a directory

The three programs are run one after the other, each as a process of its own, on one target and on the
files of one directory. Besides that the target may be reset. `Bench.turn` runs the programs, on the line
with the session and the device behind it; of a process only the line and the files are left to the next.
`Job.perform` says what is to come of it: to the files, to the flash, to what is known of the RAM, and to
the session, which decides what comes of the next command of `lpcisp`.
-/

namespace LpcTools

open Run Decimal

/-- A name that stands for a file. -/
structure FileName where
  text : List UInt8
  isFile : isStdStream text = false
  deriving DecidableEq

abbrev Files := FileName → Option (List UInt8)

def Files.put (files : Files) (name : FileName) (content : List UInt8) : Files :=
  Function.update files name (some content)

/-- What a process has written of a file is its content then. -/
def Files.keep (files : Files) (name : FileName) (log : List Event) : Files :=
  (savedCells log).foldl (fun files cells => files.put name (cells.map (·.getD 0))) files

/-- A system with these files, that can be written. There is memory for all that is asked for, behind an
object too, and the stack does not happen to hold the answer of a boot ROM. -/
structure Shows (O : Sys Unit) (files : Files) : Prop where
  file : ∀ name : FileName, FileIs O name.text (files name)
  saves : ∀ name : FileName, Saves O name.text
  malloc : ∀ n, O.malloc () n = true
  beyond : ∀ i < 2, O.beyond () i ≠ none
  stack : ((List.range repBufsize).map (O.stack ())).take synchro.length ≠ synchro

/-- What a process may find, for each state of the directory. -/
structure World where
  sys : Files → Sys Unit
  shows : ∀ files, Shows (sys files) files

/-- A target that does all that it is asked for, behind a line whose polls find what waits, with a part
of the parts file that describes it. -/
structure Setup (δ : Type) where
  line : Line δ
  identity : Identity
  chip : δ → Chip
  refusals : δ → ℕ
  sends : δ → List UInt8
  find : UInt64 → Option PartEntry
  part : PartDesc
  freq : UInt32
  fuel : ℕ
  eager : Line.Eager line.arrive
  faithful : Faithful line part.sectorAt part.uuencode.toNat chip
  willing : Willing line part.sectorAt chip refusals
  serves : Serves line part.sectorAt part.uuencode.toNat chip sends
  found : (find (toUint64 identity.partId)).map PartEntry.desc = some part
  sound : part.Sound
  freq_lt : freq.toNat < 10 ^ 5
  fuel_le : 14 ≤ fuel

/-- What `lpcisp` is told to do in a session. A file is named, the other arguments are as they are typed. -/
inductive Order where
  | unlock
  | readPartId
  | readBootVersion
  | readUid
  | prepareForWrite (args : List (List UInt8))
  | erase (args : List (List UInt8))
  | copyRamToFlash (args : List (List UInt8))
  | writeToRam (addr : List UInt8) (name : FileName) (mode : List (List UInt8))
  | readMemory (addr count : List UInt8) (name : FileName) (mode : List (List UInt8))

namespace Order

def command : Order → IspCommand
  | unlock => .unlock
  | readPartId => .readPartId
  | readBootVersion => .readBootVersion
  | readUid => .readUid
  | prepareForWrite _ => .prepareForWrite
  | erase _ => .erase
  | copyRamToFlash _ => .copyRamToFlash
  | writeToRam _ _ _ => .writeToRam
  | readMemory _ _ _ _ => .readMemory

def args : Order → List (List UInt8)
  | prepareForWrite args | erase args | copyRamToFlash args => args
  | writeToRam addr name mode => addr :: name.text :: mode
  | readMemory addr count name mode => addr :: count :: name.text :: mode
  | _ => []

/-- The file that is written. -/
def output : Order → Option FileName
  | readMemory _ _ name _ => some name
  | _ => none

end Order

/-- The name of a command. -/
def IspCommand.name (c : IspCommand) : List UInt8 :=
  bytes (((ispCmdsList.find? fun entry => entry.1 = c).map Prod.snd).getD "").toList

inductive Job where
  | reset
  | check (name : FileName) (calcUserCode checkCrp : Bool)
  | synchronize
  | isp (order : Order)
  | id
  | blank
  | dump (name : FileName)
  | flash (name : FileName) (calcUserCode : ℤ)

/-- The line and the files between two jobs. -/
structure Bench (δ : Type) where
  files : Files
  wire : Wire (Session δ)

variable {δ : Type}

/-- The device is reset, and the line with it. -/
def Wire.reset (w : Wire (Session δ)) : Wire (Session δ) :=
  { w with dev := ⟨.waiting, false, false, w.dev.dev⟩, pending := [] }

namespace Bench

/-- A run on the line, which is to come to its end. -/
def run (S : Setup δ) (w : World) (b : Bench δ) (invocation : Invocation) :
    Option (Host (Wire (Session δ))) :=
  match invocation.run ((S.line.session S.identity).sys ((w.sys b.files).over _)) S.fuel
    (.start b.wire 0 0 0) with
  | .ok (some 0) h => some h
  | _ => none

def lpcprog (S : Setup δ) (w : World) (b : Bench δ) (calcUserCode : ℤ) (cmd : String)
    (args : List FileName) : Option (Host (Wire (Session δ))) :=
  b.run S w (.prog S.freq S.find calcUserCode (bytes cmd.toList) (args.map FileName.text))

def lpcisp (S : Setup δ) (w : World) (b : Bench δ) (order : Order) : Option (Host (Wire (Session δ))) :=
  b.run S w (.isp order.command.name order.args)

/-- A run of `lpc_binary_check`. -/
def binaryCheck (w : World) (b : Bench δ) (calcUserCode checkCrp : Bool) (name : FileName) :
    Option (Host Unit) :=
  match LpcTools.binaryCheck (w.sys b.files) calcUserCode checkCrp ((b.files name).map List.length)
    name.text (.start () 0 0 0) with
  | .ok _ h => some h
  | .error _ _ => none

def turn (S : Setup δ) (b : Bench δ) : World × Job → Option (Bench δ)
  | (_, .reset) => some ⟨b.files, b.wire.reset⟩
  | (w, .check name calcUserCode checkCrp) =>
    (binaryCheck w b calcUserCode checkCrp name).map fun h => ⟨b.files.keep name h.log, b.wire⟩
  | (w, .synchronize) => (b.run S w .synchronize).map fun h => ⟨b.files, h.env⟩
  | (w, .isp order) =>
    (lpcisp S w b order).map fun h => ⟨(order.output.map (b.files.keep · h.log)).getD b.files, h.env⟩
  | (w, .id) => (lpcprog S w b 0 "id" []).map fun h => ⟨b.files, h.env⟩
  | (w, .blank) => (lpcprog S w b 0 "blank" []).map fun h => ⟨b.files, h.env⟩
  | (w, .dump name) =>
    (lpcprog S w b 0 "dump" [name]).map fun h => ⟨b.files.keep name h.log, h.env⟩
  | (w, .flash name calcUserCode) =>
    (lpcprog S w b calcUserCode "flash" [name]).map fun h => ⟨b.files.keep name h.log, h.env⟩

end Bench

/-- The session between two processes. -/
inductive Mode where
  | waiting
  | opened
  /-- The next request is refused. -/
  | spoiled
  deriving DecidableEq

def Mode.Of (s : Session δ) : Mode → Prop
  | waiting => s.phase = .waiting
  | opened => s = .ready s.dev
  | spoiled => s = ⟨.commanding, false, true, s.dev⟩

/-- What there is to it. Of the RAM some bytes are known. -/
structure Store where
  files : Files
  flash : List UInt8
  ram : UInt32 → Option UInt8
  mode : Mode

namespace Store

variable (part : PartDesc) (s : Store)

def erase (first last : UInt32) : Store :=
  { s with
    flash := s.flash.mapIdx fun i c =>
      let sec := i / part.sectorSize.toNat
      if first.toNat ≤ sec ∧ sec ≤ last.toNat then 0xFF else c }

def copy (dst src count : UInt32) : Store :=
  { s with
    flash := s.flash.mapIdx fun i c =>
      let k := part.flashBase + UInt32.ofNat i - dst
      if k < count then (s.ram (src + k)).getD 0 else c }

/-- As much of a file as the buffer holds. What is behind it in the last word is not known. -/
def write (addr : UInt32) (content : List UInt8) : Store :=
  { s with
    ram := fun a =>
      if (a - addr).toNat < wholeWords (content.take ramMaxSize).length then
        (content.take ramMaxSize)[(a - addr).toNat]?
      else s.ram a }

def memory (a : UInt32) : Option UInt8 :=
  if a - part.flashBase < part.flashSize then s.flash[(a - part.flashBase).toNat]? else s.ram a

def read (addr count : UInt32) : List UInt8 :=
  (List.range count.toNat).map fun i => (s.memory part (addr + UInt32.ofNat i)).getD 0

end Store

/-- A range of sectors that is in order. -/
def sectorRange : List (List UInt8) → Option (UInt32 × UInt32)
  | [first, last] =>
    if toInt (argValue first) ≤ toInt (argValue last) then
      some (UInt32.ofNat (argValue first), UInt32.ofNat (argValue last))
    else none
  | _ => none

/-- The destination, the source and the count of a copy that passes the checks. -/
def copyRange : List (List UInt8) → Option (UInt32 × UInt32 × UInt32)
  | [dst, src, count] =>
    if argValue dst % 256 = 0 ∧ argValue src % 4 = 0 ∧ copyBits (argValue count) = 1 then
      some (UInt32.ofNat (argValue dst), UInt32.ofNat (argValue src), UInt32.ofNat (argValue count))
    else none
  | _ => none

namespace Order

/-- What an open session makes of an order. Nothing is asked for if the checks refuse it or there is
nothing to send. -/
def obeyed (part : PartDesc) (s : Store) : Order → Option Store
  | prepareForWrite args => (sectorRange args).map fun _ => s
  | erase args => (sectorRange args).map fun (first, last) => s.erase part first last
  | copyRamToFlash args => (copyRange args).map fun (dst, src, count) => s.copy part dst src count
  | writeToRam addr name _ =>
    if argValue addr % 4 = 0 then
      ((s.files name).filter (· ≠ [])).map (s.write (UInt32.ofNat (argValue addr)))
    else none
  | readMemory addr count name _ =>
    if argValue addr % 4 = 0 ∧ argValue count % 4 = 0 then
      some { s with
        files := s.files.put name
          (s.read part (UInt32.ofNat (argValue addr)) (UInt32.ofNat (argValue count))) }
    else none
  | _ => some s

def perform (part : PartDesc) (s : Store) (order : Order) : Store :=
  match order.obeyed part s with
  | none => s
  | some s' =>
    match s.mode with
    | .waiting => s
    | .opened => s'
    | .spoiled => { s with mode := .opened }

/-- The bytes that are copied or read are known, and the data goes over the line as the target takes it.
A file that is not there is sent as if it were there, and a read that fails is written to its file. -/
def Defined (part : PartDesc) (s : Store) : Order → Prop
  | copyRamToFlash args => s.mode = .opened → ∀ dst src count : UInt32,
      copyRange args = some (dst, src, count) → ∀ k < count, (s.ram (src + k)).isSome
  | writeToRam addr name mode => argValue addr % 4 = 0 →
      (s.files name).isSome ∧ (s.mode = .opened → (argMode mode = 0 ↔ part.uuencode.toNat = 0))
  | readMemory addr count _ mode => argValue addr % 4 = 0 ∧ argValue count % 4 = 0 →
      s.mode = .opened ∧ (argMode mode = 0 ↔ part.uuencode.toNat = 0) ∧ 0 < argValue count ∧
        argValue count < 2 ^ 31 ∧ ∀ i < argValue count,
          (s.memory part (UInt32.ofNat (argValue addr) + UInt32.ofNat i)).isSome
  | _ => True

end Order

/-- A file with its user code. -/
def stamped (content : List UInt8) : List UInt8 :=
  withUserCode content ((userCode content).getD 0)

/-- What `lpcprog` leaves in the RAM is not said. -/
def Job.perform (part : PartDesc) (s : Store) : Job → Store
  | reset => { s with ram := fun _ => none, mode := .waiting }
  | check name calcUserCode _ =>
    if calcUserCode then
      { s with files := ((s.files name).map fun content => s.files.put name (stamped content)).getD s.files }
    else s
  | synchronize => { s with mode := if s.mode = .waiting then .opened else .spoiled }
  | isp order => order.perform part s
  | id => { s with mode := .opened }
  | blank => { s with flash := part.erased, ram := fun _ => none, mode := .opened }
  | dump name => { s with files := s.files.put name s.flash, mode := .opened }
  | flash name calcUserCode =>
    { s with flash := part.flashed calcUserCode (s.files name), ram := fun _ => none, mode := .opened }

/-- The checker reads past the end of a file that is shorter. -/
def Job.Defined (part : PartDesc) (s : Store) : Job → Prop
  | check name _ _ => ∀ content, s.files name = some content → 0x300 ≤ content.length ∧ content.length < 2 ^ 31
  | isp order => order.Defined part s
  | _ => True

/-- Between two jobs nothing is left on the line. -/
structure Represents (S : Setup δ) (b : Bench δ) (s : Store) : Prop where
  files : b.files = s.files
  flash : S.part.contents (S.chip b.wire.dev.dev).flash = s.flash
  ram : ∀ a c, s.ram a = some c → (S.chip b.wire.dev.dev).ram a = c
  expects : (S.chip b.wire.dev.dev).expects = none
  pending : b.wire.pending = []
  mode : s.mode.Of b.wire.dev

end LpcTools
