import LpcTools.Proofs.BenchHistory
import LpcTools.Proofs.CommandLines
import LpcTools.Proofs.PartsRead

/-!
# Command lines at a bench

The jobs of a bench are asked for in command lines, each of them in many ways. `Terminal.act` runs `main` of
the program that is called, and `Terminal.Asks` says which job a line asks for, by how it is written. Whatever
is typed, its jobs are what becomes of it (`Terminal.typed`).
-/

namespace LpcTools

open Run Decimal Refine Getopt

variable {δ : Type}

/-- What there is where the lines are typed. At its own speed the line of the bench is as it is. -/
structure Terminal (δ : Type) where
  setup : Setup δ
  tty : Word
  setAttr : ℤ → Wire (Session δ) → Wire (Session δ)
  posixlyCorrect : Bool
  partsFile : Word → Option (List UInt8)
  einval : Bool
  stale : ℕ → ℕ → UInt8
  setAttr_serialBaud : ∀ wire, setAttr serialBaud wire = wire

inductive Act where
  | reset
  | lpcisp (argv : List Word)
  | lpcprog (argv : List Word)
  | lpcBinaryCheck (argv : List Word)

def FileName.of (text : Word) : Option FileName :=
  if h : isStdStream text = false then some ⟨text, h⟩ else none

/-- The commands of `lpcisp` that look at no arguments. -/
def bareCommands : List IspCommand := [.unlock, .readPartId, .readBootVersion, .readUid]

section Outputs

/-- The file that is written by a line, as its operands name it. -/
def ispOutput (ordered : Bool) (argv : List Word) : Option FileName :=
  match parameters ispTable IspOptions.take .default ordered argv with
  | .ok (_, _ :: cmd :: _ :: _ :: name :: _) =>
    if lookup ispCmdsList cmd = some .readMemory then FileName.of name else none
  | _ => none

def progOutput (ordered : Bool) (argv : List Word) : Option FileName :=
  match parameters progTable ProgOptions.take .default ordered argv with
  | .ok (o, [name]) =>
    if o.command.bind (lookup progCmdsList) ∈ [some .dump, some .flash] then FileName.of name else none
  | _ => none

def checkOutput (ordered : Bool) (argv : List Word) : Option FileName :=
  match parameters checkTable CheckOptions.take .default ordered argv with
  | .ok (_, [name]) => FileName.of name
  | _ => none

end Outputs

def Files.keepIn (files : Files) (output : Option FileName) (log : List Event) : Files :=
  (output.map (files.keep · log)).getD files

/-- What a process leaves that was to come to its end. -/
def Bench.after (b : Bench δ) (output : Option FileName) :
    Outcome (Wire (Session δ)) → Option (Bench δ)
  | .exit _ => some b
  | .ran (.ok (some _) h) => some ⟨b.files.keepIn output h.log, h.env⟩
  | .ran _ => none

namespace Terminal

variable (T : Terminal δ)

def shell (w : World) (b : Bench δ) : Shell (Wire (Session δ)) where
  sys := (T.setup.line.session T.setup.identity).sys ((w.sys b.files).over _)
  posixlyCorrect := T.posixlyCorrect
  openDevice := fun device => if device = T.tty then some b.wire else none
  setAttr := T.setAttr
  partsFile := T.partsFile
  einval := T.einval
  stale := T.stale

def act (b : Bench δ) : World × Act → Option (Bench δ)
  | (_, .reset) => some ⟨b.files, b.wire.reset⟩
  | (w, .lpcisp argv) =>
    b.after (ispOutput T.posixlyCorrect argv) (lpcispMain (T.shell w b) T.setup.fuel argv)
  | (w, .lpcprog argv) =>
    b.after (progOutput T.posixlyCorrect argv) (lpcprogMain (T.shell w b) T.setup.fuel argv)
  | (w, .lpcBinaryCheck argv) =>
    match checkMain (w.sys b.files) T.posixlyCorrect
      (fun text => ((FileName.of text).bind b.files).map List.length) argv (.start () 0 0 0) with
    | .ok _ h => some ⟨b.files.keepIn (checkOutput T.posixlyCorrect argv) h.log, b.wire⟩
    | .error _ _ => none

/-- A line of `lpcisp` for the target, with these operands behind the device. -/
structure IspLine (fs : List Found) (operands argv : List Word) : Prop where
  writes : ispTable.Writes T.posixlyCorrect fs (T.tty :: operands) argv
  plain : ∀ f ∈ fs, informs f = false
  speed : ((lastArg 'b'.toUInt8 fs).map atoi).getD serialBaud = serialBaud

/-- A line of `lpcprog` for the target, with a command and a parts file that describes it. -/
structure ProgLine (fs : List Found) (os argv : List Word) (command : Word) : Prop where
  writes : progTable.Writes T.posixlyCorrect fs os argv
  plain : ∀ f ∈ fs, informs f = false
  command : lastArg 'c'.toUInt8 fs = some command
  device : lastArg 'd'.toUInt8 fs = some T.tty
  speed : ((lastArg 'b'.toUInt8 fs).map atoi).getD serialBaud = serialBaud
  freq : (toUnsigned (((lastArg 'f'.toUInt8 fs).map atoi).getD 10000)).toNat < 10 ^ 5
  parts : ∃ name, partsFileNameOf T.partsFile (lastArg 'p'.toUInt8 fs) = some name ∧
    (findPart T.einval T.stale (T.partsFile name) (toUint64 T.setup.identity.partId)).map PartEntry.desc =
      some T.setup.part

/-- What is asked for. A line asks for nothing if it is written wrong, or asks for help or the version, or
leaves out what is needed, or has a command too many or one that is not known. -/
inductive Asks : Act → List Job → Prop
  | reset : Asks .reset [.reset]
  | synchronize {fs argv} (hline : T.IspLine fs [] argv) (hs : given 's'.toUInt8 fs = true) :
    Asks (.lpcisp argv) [.synchronize]
  | isp {fs argv cmd args order} (hline : T.IspLine fs (cmd :: args) argv) (hs : given 's'.toUInt8 fs = false)
    (hcmd : lookup ispCmdsList cmd = some order.command)
    (hargs : args = order.args ∨ order.command ∈ bareCommands) : Asks (.lpcisp argv) [.isp order]
  | ispNothing {argv} (h : ∀ fs os, ispTable.Writes T.posixlyCorrect fs os argv →
      (∃ f ∈ fs, informs f = true) ∨ os.head? ≠ some T.tty) : Asks (.lpcisp argv) []
  | ispMisused {fs operands argv} (hline : T.IspLine fs operands argv)
      (h : given 's'.toUInt8 fs = true ↔ operands ≠ []) : Asks (.lpcisp argv) []
  | ispUnknown {fs argv cmd args} (hline : T.IspLine fs (cmd :: args) argv) (hs : given 's'.toUInt8 fs = false)
      (hcmd : lookup ispCmdsList cmd = none) : Asks (.lpcisp argv) []
  | id {fs os argv cmd} (hline : T.ProgLine fs os argv cmd) (hcmd : lookup progCmdsList cmd = some .id) :
    Asks (.lpcprog argv) [.id]
  | blank {fs os argv cmd} (hline : T.ProgLine fs os argv cmd) (hcmd : lookup progCmdsList cmd = some .blank) :
    Asks (.lpcprog argv) [.blank]
  | dump {fs argv cmd} {name : FileName} (hline : T.ProgLine fs [name.text] argv cmd)
    (hcmd : lookup progCmdsList cmd = some .dump) : Asks (.lpcprog argv) [.dump name]
  | flash {fs argv cmd} {name : FileName} (hline : T.ProgLine fs [name.text] argv cmd)
    (hcmd : lookup progCmdsList cmd = some .flash) :
    Asks (.lpcprog argv) [.flash name (if given 'n'.toUInt8 fs then 0 else 1)]
  | progNothing {argv} (h : ∀ fs os, progTable.Writes T.posixlyCorrect fs os argv →
      (∃ f ∈ fs, informs f = true) ∨ lastArg 'c'.toUInt8 fs = none ∨ lastArg 'd'.toUInt8 fs ≠ some T.tty ∨
        partsFileNameOf T.partsFile (lastArg 'p'.toUInt8 fs) = none) : Asks (.lpcprog argv) []
  | check {fs argv} {name : FileName} (hw : checkTable.Writes T.posixlyCorrect fs [name.text] argv)
    (hplain : ∀ f ∈ fs, informs f = false) :
    Asks (.lpcBinaryCheck argv) [.check name (!given 'n'.toUInt8 fs) (!given 's'.toUInt8 fs)]
  | checkNothing {argv} (h : ∀ fs os, checkTable.Writes T.posixlyCorrect fs os argv →
      (∃ f ∈ fs, informs f = true) ∨ os.length ≠ 1) : Asks (.lpcBinaryCheck argv) []

end Terminal

section Lines

variable {T : Terminal δ} {S : Setup δ} {b b' : Bench δ} {s : Store} {w : World} {fs : List Found}
  {os argv args operands : List Word} {cmd : Word} {order : Order}

theorem FileIs.withTrace {σ : Type} {E : Sys σ} {name : List UInt8} {content : Option (List UInt8)}
    (h : FileIs E name content) (traceOn : Bool) : FileIs (E.withTrace traceOn) name content := by
  rcases content with _ | content
  · exact h
  · exact fun env => ⟨(h env).name, (h env).opened⟩

/-- The system of a process that was asked to trace. -/
def World.traced (w : World) (traceOn : Bool) : World where
  sys := fun files => (w.sys files).withTrace traceOn
  shows := fun files =>
    have h := w.shows files
    ⟨fun name => (h.file name).withTrace traceOn, h.saves, h.malloc, h.beyond, h.stack⟩

/-- A setup with what a line names. -/
def Setup.asked (S : Setup δ) {freq : UInt32} (hfreq : freq.toNat < 10 ^ 5) {find : UInt64 → Option PartEntry}
    (hfound : (find (toUint64 S.identity.partId)).map PartEntry.desc = some S.part) : Setup δ :=
  { S with freq := freq, find := find, found := hfound, freq_lt := hfreq }

theorem Represents.asked (hr : Represents S b s) {freq : UInt32} (hfreq : freq.toNat < 10 ^ 5)
    {find : UInt64 → Option PartEntry}
    (hfound : (find (toUint64 S.identity.partId)).map PartEntry.desc = some S.part) :
    Represents (S.asked hfreq hfound) b s :=
  ⟨hr.files, hr.flash, hr.ram, hr.expects, hr.pending, hr.mode⟩

theorem Represents.of_asked {freq : UInt32} {hfreq : freq.toNat < 10 ^ 5} {find : UInt64 → Option PartEntry}
    {hfound : (find (toUint64 S.identity.partId)).map PartEntry.desc = some S.part}
    (hr : Represents (S.asked hfreq hfound) b s) : Represents S b s :=
  ⟨hr.files, hr.flash, hr.ram, hr.expects, hr.pending, hr.mode⟩

theorem FileName.of_text (name : FileName) : FileName.of name.text = some name := dif_pos name.isFile

theorem ispLine_parameters (h : T.IspLine fs operands argv) :
    parameters ispTable IspOptions.take .default T.posixlyCorrect argv =
      .ok (IspOptions.default.asked fs, T.tty :: operands) :=
  (parameters_ok_iff (fun _ => ⟨_, rfl⟩) ispOptions_written).2 ⟨fs, h.writes, h.plain, rfl⟩

theorem progLine_parameters (h : T.ProgLine fs os argv cmd) :
    parameters progTable ProgOptions.take .default T.posixlyCorrect argv =
      .ok (ProgOptions.default.asked fs, os) :=
  (parameters_ok_iff (fun _ => ⟨_, rfl⟩) progOptions_written).2 ⟨fs, h.writes, h.plain, rfl⟩

theorem ispLine_main (h : T.IspLine fs operands argv) (w : World) (b : Bench δ) :
    lpcispMain (T.shell w b) T.setup.fuel argv = .ran (ispServe ((T.setup.line.session T.setup.identity).sys
      (((w.traced (given 't'.toUInt8 fs)).sys b.files).over _)) T.setup.fuel (given 's'.toUInt8 fs) operands
        (.start b.wire 0 0 0)) := by
  refine lpcispMain_ran_iff.2 ⟨_, _, ispLine_parameters h,
    ispStart_ran_iff.2 ⟨T.tty, operands, b.wire, rfl, if_pos rfl, ?_⟩⟩
  simp only [IspOptions.asked, IspOptions.default, h.speed, Bool.or_false]
  change _ = ispServe _ _ _ _ (.start (T.setAttr serialBaud b.wire) 0 0 0)
  rw [T.setAttr_serialBaud]
  rfl

theorem progLine_main (h : T.ProgLine fs os argv cmd) {name : Word}
    (hname : partsFileNameOf T.partsFile (lastArg 'p'.toUInt8 fs) = some name) (w : World) (b : Bench δ) :
    lpcprogMain (T.shell w b) T.setup.fuel argv = .ran ((Invocation.prog
      (toUnsigned (((lastArg 'f'.toUInt8 fs).map atoi).getD 10000))
      (findPart T.einval T.stale (T.partsFile name)) (if given 'n'.toUInt8 fs then 0 else 1) cmd os).run
        ((T.setup.line.session T.setup.identity).sys (((w.traced (given 't'.toUInt8 fs)).sys b.files).over _))
        T.setup.fuel (.start b.wire 0 0 0)) := by
  refine lpcprogMain_ran_iff.2 ⟨_, _, progLine_parameters h, progStart_ran_iff.2 ⟨cmd, T.tty, name, b.wire,
    ?_, ?_, ?_, if_pos rfl, ?_⟩⟩
  · simp only [ProgOptions.asked, ProgOptions.default, h.command, Option.or_none]
  · simp only [ProgOptions.asked, ProgOptions.default, h.device, Option.or_none]
  · simp only [ProgOptions.asked, ProgOptions.default, Option.or_none]
    exact hname
  · simp only [ProgOptions.asked, ProgOptions.default, h.speed, Bool.or_false]
    change _ = Invocation.run _ _ _ (.start (T.setAttr serialBaud b.wire) 0 0 0)
    rw [T.setAttr_serialBaud]
    rfl

/-- A command runs by what is found of its name. -/
theorem lpcprog_congr {σ : Type} {E : Sys σ} {freq : UInt32} {find : UInt64 → Option PartEntry} {fuel : ℕ}
    {calcUserCode calcUserCode' : ℤ} {cmd' : Word} {args' : List Word} {c : ProgCommand}
    (hcmd : lookup progCmdsList cmd = some c) (hcmd' : lookup progCmdsList cmd' = some c)
    (hrun : ∀ part, c.run E part calcUserCode args = c.run E part calcUserCode' args') :
    lpcprog E fuel freq find calcUserCode cmd args = lpcprog E fuel freq find calcUserCode' cmd' args' := by
  unfold lpcprog progHandleCommand
  simp only [hcmd, hcmd', hrun]

theorem isp_congr {σ : Type} {E : Sys σ} {fuel : ℕ} (hcmd : lookup ispCmdsList cmd = some order.command)
    (hargs : args = order.args ∨ order.command ∈ bareCommands) :
    (Invocation.isp cmd args).run E fuel = (Invocation.isp order.command.name order.args).run E fuel := by
  have hrun : order.command.run E args = order.command.run E order.args := by
    rcases hargs with rfl | hbare
    · rfl
    · cases order <;> first | rfl | exact absurd hbare (by simp [Order.command, bareCommands])
  simp only [Invocation.run, ispHandleCommand, hcmd, IspCommand.lookup_name, hrun]

theorem Bench.run_eq_some {invocation : Invocation} {h : Host (Wire (Session δ))}
    (hrun : b.run S w invocation = some h) : invocation.run ((S.line.session S.identity).sys
      ((w.sys b.files).over _)) S.fuel (.start b.wire 0 0 0) = .ok (some 0) h := by
  unfold Bench.run at hrun
  split at hrun
  · next hok =>
    cases hrun
    exact hok
  · cases hrun

/-- What a line of `lpcisp` does is what its invocation does. -/
theorem ispLine_act (hline : T.IspLine fs operands argv) {invocation : Invocation}
    {h : Host (Wire (Session δ))}
    (hserve : ∀ E : Sys (Wire (Session δ)), ispServe E T.setup.fuel (given 's'.toUInt8 fs) operands =
      invocation.run E T.setup.fuel)
    (hrun : b.run T.setup (w.traced (given 't'.toUInt8 fs)) invocation = some h) :
    T.act b (w, .lpcisp argv) =
      some ⟨b.files.keepIn (ispOutput T.posixlyCorrect argv) h.log, h.env⟩ := by
  have hmain := ispLine_main hline w b
  rw [hserve, Bench.run_eq_some hrun] at hmain
  simp only [Terminal.act, hmain, Bench.after]

theorem Files.keepIn_nil (files : Files) (output : Option FileName) {log : List Event}
    (h : savedCells log = []) : files.keepIn output log = files := by
  rcases output with _ | name
  · rfl
  · exact Files.keep_nil files name h

/-- A line on which nothing is said. -/
theorem ispLine_still (hline : T.IspLine fs operands argv) (w : World) (b : Bench δ)
    (hserve : ∀ E : Sys (Wire (Session δ)), ∃ ret : ℤ,
      ispServe E T.setup.fuel (given 's'.toUInt8 fs) operands = pure (some ret)) :
    T.act b (w, .lpcisp argv) = some b := by
  have hmain := ispLine_main hline w b
  obtain ⟨ret, hret⟩ := hserve ((T.setup.line.session T.setup.identity).sys
    (((w.traced (given 't'.toUInt8 fs)).sys b.files).over _))
  rw [hret] at hmain
  simp only [Terminal.act, hmain]
  change some (⟨b.files.keepIn _ [], b.wire⟩ : Bench δ) = some b
  rw [Files.keepIn_nil b.files _ rfl]

theorem ispOutput_bare (hline : T.IspLine fs [] argv) : ispOutput T.posixlyCorrect argv = none := by
  unfold ispOutput
  rw [ispLine_parameters hline]

/-- Only `read-memory` writes a file. -/
theorem ispOutput_order (hline : T.IspLine fs (cmd :: args) argv)
    (hcmd : lookup ispCmdsList cmd = some order.command)
    (hargs : args = order.args ∨ order.command ∈ bareCommands) :
    ispOutput T.posixlyCorrect argv = order.output := by
  unfold ispOutput
  rw [ispLine_parameters hline]
  by_cases hread : order.command = .readMemory
  · rw [hread] at hcmd hargs
    obtain rfl | hbare := hargs
    · cases order with
      | readMemory addr count name mode => simp only [Order.args, hcmd, if_true, FileName.of_text, Order.output]
      | _ => cases hread
    · exact absurd hbare (by decide)
  · have hout : order.output = none := by
      cases order with
      | readMemory addr count name mode => exact absurd rfl hread
      | _ => rfl
    rw [hout]
    rcases args with _ | ⟨_, _ | ⟨_, _ | ⟨name, mode⟩⟩⟩
    · rfl
    · rfl
    · rfl
    · exact if_neg (by rw [hcmd]; simpa using hread)

/-- What a line of `lpcprog` does is what is done with the name that a job has for its command. -/
theorem progLine_act (hline : T.ProgLine fs os argv cmd) (w : World) : ∃ S : Setup δ,
    S.part = T.setup.part ∧ (∀ {b s}, Represents S b s ↔ Represents T.setup b s) ∧
    ∀ {b : Bench δ} {calcUserCode : ℤ} {cmd' : String} {c : ProgCommand} {args : List FileName} {h},
      lookup progCmdsList cmd = some c → lookup progCmdsList (bytes cmd'.toList) = some c →
      (∀ (E : Sys (Wire (Session δ))) part, c.run E part (if given 'n'.toUInt8 fs then 0 else 1) os =
        c.run E part calcUserCode (args.map FileName.text)) →
      b.lpcprog S (w.traced (given 't'.toUInt8 fs)) calcUserCode cmd' args = some h →
      T.act b (w, .lpcprog argv) =
        some ⟨b.files.keepIn (progOutput T.posixlyCorrect argv) h.log, h.env⟩ := by
  obtain ⟨name, hname, hfound⟩ := hline.parts
  refine ⟨T.setup.asked hline.freq hfound, rfl, ⟨Represents.of_asked, fun hr => hr.asked hline.freq hfound⟩, ?_⟩
  intro b calcUserCode cmd' c args h hcmd hcmd' hsame hrun
  have hmain := progLine_main hline hname w b
  have hprog := Bench.run_eq_some hrun
  simp only [Invocation.run] at hmain hprog
  rw [lpcprog_congr hcmd hcmd' fun part => hsame _ part] at hmain
  simp only [Terminal.act, hmain.trans (congrArg Outcome.ran hprog), Bench.after]

theorem progOutput_eq (hline : T.ProgLine fs os argv cmd) {c : ProgCommand}
    (hcmd : lookup progCmdsList cmd = some c) :
    ((c ≠ .dump ∧ c ≠ .flash) → progOutput T.posixlyCorrect argv = none) ∧
      ∀ name : FileName, (c = .dump ∨ c = .flash) → os = [name.text] →
        progOutput T.posixlyCorrect argv = some name := by
  have hlookup : (ProgOptions.default.asked fs).command.bind (lookup progCmdsList) = some c := by
    simp only [ProgOptions.asked, ProgOptions.default, hline.command, Option.or_none, Option.bind_some, hcmd]
  unfold progOutput
  rw [progLine_parameters hline]
  refine ⟨fun hc => ?_, ?_⟩
  · rcases os with _ | ⟨name, _ | ⟨other, os⟩⟩
    · rfl
    · exact if_neg (by simp [hlookup, hc])
    · rfl
  · rintro name hc rfl
    simp only [hlookup, FileName.of_text]
    exact if_pos (by simpa using hc)

/-- No line is opened. -/
theorem ispNothing_act (w : World) (b : Bench δ) (h : ∀ fs os, ispTable.Writes T.posixlyCorrect fs os argv →
    (∃ f ∈ fs, informs f = true) ∨ os.head? ≠ some T.tty) : T.act b (w, .lpcisp argv) = some b := by
  rcases hmain : lpcispMain (T.shell w b) T.setup.fuel argv with code | r
  · simp only [Terminal.act, hmain, Bench.after]
  · obtain ⟨o, os, ho, hstart⟩ := lpcispMain_ran_iff.1 hmain
    obtain ⟨fs, hw, hplain, rfl⟩ := (parameters_ok_iff (fun _ => ⟨_, rfl⟩) ispOptions_written).1 ho
    obtain ⟨device, operands, env, rfl, hopen, -⟩ := ispStart_ran_iff.1 hstart
    rcases h fs _ hw with ⟨f, hf, hinforms⟩ | hhead
    · rw [hplain f hf] at hinforms
      cases hinforms
    · simp only [Terminal.shell] at hopen
      split_ifs at hopen with hdevice
      exact absurd (by rw [hdevice, List.head?_cons]) hhead

theorem progNothing_act (w : World) (b : Bench δ) (h : ∀ fs os, progTable.Writes T.posixlyCorrect fs os argv →
    (∃ f ∈ fs, informs f = true) ∨ lastArg 'c'.toUInt8 fs = none ∨ lastArg 'd'.toUInt8 fs ≠ some T.tty ∨
      partsFileNameOf T.partsFile (lastArg 'p'.toUInt8 fs) = none) : T.act b (w, .lpcprog argv) = some b := by
  rcases hmain : lpcprogMain (T.shell w b) T.setup.fuel argv with code | r
  · simp only [Terminal.act, hmain, Bench.after]
  · obtain ⟨o, os, ho, hstart⟩ := lpcprogMain_ran_iff.1 hmain
    obtain ⟨fs, hw, hplain, rfl⟩ := (parameters_ok_iff (fun _ => ⟨_, rfl⟩) progOptions_written).1 ho
    obtain ⟨command, device, partsFileName, env, hcommand, hdevice, hparts, hopen, -⟩ :=
      progStart_ran_iff.1 hstart
    simp only [ProgOptions.asked, ProgOptions.default, Option.or_none] at hcommand hdevice hparts
    rcases h fs _ hw with ⟨f, hf, hinforms⟩ | hnone | hother | hnone
    · rw [hplain f hf] at hinforms
      cases hinforms
    · rw [hcommand] at hnone
      cases hnone
    · simp only [Terminal.shell] at hopen
      split_ifs at hopen with htty
      exact absurd (by rw [hdevice, htty]) hother
    · rw [show partsFileNameOf T.partsFile _ = _ from hparts] at hnone
      cases hnone

theorem check_act (w : World) (b : Bench δ) {name : FileName}
    (hw : checkTable.Writes T.posixlyCorrect fs [name.text] argv) (hplain : ∀ f ∈ fs, informs f = false)
    {h : Host Unit} (hrun : b.binaryCheck w (!given 'n'.toUInt8 fs) (!given 's'.toUInt8 fs) name = some h) :
    T.act b (w, .lpcBinaryCheck argv) = some ⟨b.files.keep name h.log, b.wire⟩ := by
  have hfind : fs.find? informs = none := List.find?_eq_none.2 fun f hf => by simp [hplain f hf]
  have hout : checkOutput T.posixlyCorrect argv = some name := by
    unfold checkOutput parameters
    rw [hw.scan, checkOptions_written hw, hfind]
    exact FileName.of_text name
  unfold Bench.binaryCheck at hrun
  split at hrun
  · next ret h' hok =>
    cases hrun
    simp only [Terminal.act, checkMain_written hw, hfind, FileName.of_text, Option.bind_some, hok, hout]
    rfl
  · cases hrun

theorem checkNothing_act (w : World) (b : Bench δ)
    (h : ∀ fs os, checkTable.Writes T.posixlyCorrect fs os argv →
      (∃ f ∈ fs, informs f = true) ∨ os.length ≠ 1) : T.act b (w, .lpcBinaryCheck argv) = some b := by
  obtain ⟨code, hmain⟩ : ∃ code : ℤ, ∀ (E : Sys Unit) fileSize,
      checkMain E T.posixlyCorrect fileSize argv = pure code := by
    rcases scan_cases checkTable T.posixlyCorrect argv with ⟨fs, os, hscan, hknown⟩ | ⟨fs, os, hscan, hw⟩
    · have htake (o : CheckOptions) : ∃ code, o.take .unknown = .error code := ⟨_, rfl⟩
      obtain ⟨code, hcode⟩ := foldlM_unknown htake hknown .default
      refine ⟨code, fun E fileSize => ?_⟩
      unfold checkMain parameters
      rw [hscan, hcode]
      rfl
    · rcases hfind : fs.find? informs with _ | f
      · refine ⟨-1, fun E fileSize => ?_⟩
        rw [checkMain_written hw, hfind]
        rcases h fs os hw with ⟨f, hf, hinforms⟩ | hlen
        · exact absurd hinforms (by simpa using List.find?_eq_none.1 hfind f hf)
        · rcases os with _ | ⟨name, _ | ⟨other, os⟩⟩
          · rfl
          · exact absurd rfl hlen
          · rfl
      · exact ⟨_, fun E fileSize => by rw [checkMain_written hw, hfind]⟩
  simp only [Terminal.act, hmain]
  change some (⟨b.files.keepIn _ [], b.wire⟩ : Bench δ) = some b
  rw [Files.keepIn_nil b.files _ rfl]

end Lines

section History

/-- What comes of a line is what comes of the jobs it asks for. -/
theorem act_keeps (T : Terminal δ) :
    KeepsAll T.act (fun a jobs => T.Asks a.2 jobs) (Job.perform T.setup.part) (Job.Defined T.setup.part)
      (Represents T.setup) := by
  rintro b s ⟨w, act⟩ jobs hr hasks halong
  cases hasks with
  | reset => exact turn_reset (w := w) hr
  | @synchronize fs argv hline hs =>
    obtain ⟨b', hturn, hr'⟩ := turn_synchronize (w := w.traced (given 't'.toUInt8 fs)) hr
    obtain ⟨h, hrun, rfl⟩ := Option.map_eq_some_iff.1 hturn
    refine ⟨_, (ispLine_act hline (fun E => by rw [hs]; rfl) hrun).trans ?_, hr'⟩
    rw [ispOutput_bare hline]
    rfl
  | @isp fs argv cmd args order hline hs hcmd hargs =>
    obtain ⟨b', hturn, hr'⟩ := turn_isp (w := w.traced (given 't'.toUInt8 fs)) hr halong.1
    obtain ⟨h, hrun, rfl⟩ := Option.map_eq_some_iff.1 hturn
    refine ⟨_, (ispLine_act hline (fun E => ?_) hrun).trans ?_, hr'⟩
    · rw [hs]
      exact isp_congr hcmd hargs
    · rw [ispOutput_order hline hcmd hargs]
      rfl
  | ispNothing h => exact ⟨b, ispNothing_act w b h, hr⟩
  | @ispMisused fs operands argv hline h =>
    refine ⟨b, ispLine_still hline w b fun E => ⟨-1, ?_⟩, hr⟩
    rcases operands with _ | ⟨cmd, args⟩
    · rw [show given 's'.toUInt8 fs = false by simpa using h]
      rfl
    · rw [show given 's'.toUInt8 fs = true from h.2 (List.cons_ne_nil cmd args)]
      rfl
  | ispUnknown hline hs hcmd =>
    refine ⟨b, ispLine_still hline w b fun E => ⟨0, ?_⟩, hr⟩
    simp only [ispServe, hs, Invocation.run, ispHandleCommand, hcmd]
    rfl
  | @id fs os argv cmd hline hcmd =>
    obtain ⟨S, hpart, hrep, hact⟩ := progLine_act hline w
    obtain ⟨b', hturn, hr'⟩ := turn_id (w := w.traced (given 't'.toUInt8 fs)) (hrep.2 hr)
    obtain ⟨h, hrun, rfl⟩ := Option.map_eq_some_iff.1 hturn
    rw [hpart] at hr'
    refine ⟨_, (hact hcmd lookup_commands.1 (fun _ _ => rfl) hrun).trans ?_, hrep.1 hr'⟩
    rw [(progOutput_eq hline hcmd).1 ⟨by simp, by simp⟩]
    rfl
  | @blank fs os argv cmd hline hcmd =>
    obtain ⟨S, hpart, hrep, hact⟩ := progLine_act hline w
    obtain ⟨b', hturn, hr'⟩ := turn_blank (w := w.traced (given 't'.toUInt8 fs)) (hrep.2 hr)
    obtain ⟨h, hrun, rfl⟩ := Option.map_eq_some_iff.1 hturn
    rw [hpart] at hr'
    refine ⟨_, (hact hcmd lookup_commands.2.1 (fun _ _ => rfl) hrun).trans ?_, hrep.1 hr'⟩
    rw [(progOutput_eq hline hcmd).1 ⟨by simp, by simp⟩]
    rfl
  | @dump fs argv cmd name hline hcmd =>
    obtain ⟨S, hpart, hrep, hact⟩ := progLine_act hline w
    obtain ⟨b', hturn, hr'⟩ := turn_dump (w := w.traced (given 't'.toUInt8 fs)) (hrep.2 hr) name
    obtain ⟨h, hrun, rfl⟩ := Option.map_eq_some_iff.1 hturn
    rw [hpart] at hr'
    refine ⟨_, (hact hcmd lookup_commands.2.2.1 (fun _ _ => rfl) hrun).trans ?_, hrep.1 hr'⟩
    rw [(progOutput_eq hline hcmd).2 name (.inl rfl) rfl]
    rfl
  | @flash fs argv cmd name hline hcmd =>
    obtain ⟨S, hpart, hrep, hact⟩ := progLine_act hline w
    obtain ⟨b', hturn, hr'⟩ := turn_flash (w := w.traced (given 't'.toUInt8 fs)) (hrep.2 hr) name
      (if given 'n'.toUInt8 fs then 0 else 1)
    obtain ⟨h, hrun, rfl⟩ := Option.map_eq_some_iff.1 hturn
    rw [hpart] at hr'
    refine ⟨_, (hact hcmd lookup_commands.2.2.2 (fun _ _ => rfl) hrun).trans ?_, hrep.1 hr'⟩
    rw [(progOutput_eq hline hcmd).2 name (.inr rfl) rfl]
    rfl
  | progNothing h => exact ⟨b, progNothing_act w b h, hr⟩
  | check hw hplain =>
    obtain ⟨b', hturn, hr'⟩ := turn_check (w := w) hr halong.1
    obtain ⟨h, hrun, rfl⟩ := Option.map_eq_some_iff.1 hturn
    exact ⟨_, check_act w b hw hplain hrun, hr'⟩
  | checkNothing h => exact ⟨b, checkNothing_act w b h, hr⟩

/-- Whatever lines are typed, and however each of them is written, no process is without an end, and the
files, the memories and the session are what the jobs that the lines ask for have made of them. -/
theorem Terminal.typed (T : Terminal δ) {b : Bench δ} {s : Store} (hr : Represents T.setup b s)
    {history : List (World × Act)} {jobs : List (List Job)}
    (hasks : List.Forall₂ (fun a js => T.Asks a.2 js) history jobs)
    (hdef : Along (Job.perform T.setup.part) (Job.Defined T.setup.part) s jobs.flatten) : ∃ b',
    history.foldlM T.act b = some b' ∧
      Represents T.setup b' (jobs.flatten.foldl (Job.perform T.setup.part) s) :=
  (act_keeps T).run hasks hr hdef

end History

section Sample

def sampleParts : List UInt8 :=
  printedLine 271786064 (bytes "LPC1114".toList) [0, 32768, 8, 4, 268435456, 8192, 2048, 1024, 1]

/-- Where the parts file is the default one. -/
noncomputable def sampleTerminal : Terminal (Chip × List UInt8) where
  setup := sampleSetup
  tty := bytes "/dev/ttyUSB0".toList
  setAttr := fun _ wire => wire
  posixlyCorrect := false
  partsFile := fun name => if name = defaultPartFileNameCurrent then some sampleParts else none
  einval := false
  stale := fun _ _ => 0
  setAttr_serialBaud := fun _ => rfl

theorem findPart_sampleParts (einval : Bool) (stale : ℕ → ℕ → UInt8) :
    (findPart einval stale (some sampleParts) 271786064).map PartEntry.desc = some lpc1114 := by
  have hname : IsName (bytes "LPC1114".toList) :=
    ⟨⟨bytes "1114".toList, rfl⟩, by decide, by decide, by decide⟩
  have hline : plain.Line sampleParts 271786064 (bytes "LPC1114".toList)
      [0, 32768, 8, 4, 268435456, 8192, 2048, 1024, 1] := line_printed (by simp) hname rfl (by simp)
  have hlines : linesOf sampleParts = [] ++ sampleParts :: [] := by decide
  have hwell : ∀ l ∈ linesOf sampleParts, WellWritten l := by
    rw [hlines]
    intro l hl
    rw [List.mem_singleton.1 hl]
    exact ⟨by decide, .inr (.inr ⟨_, _, _, hline⟩)⟩
  rw [findPart, findPartInFile_line hwell einval stale 271786064 hlines (by simp) hline]
  rfl

def typedWords (line : List String) : List Word := line.map fun w => bytes w.toList

theorem sampleTerminal_line {fs : List Found} {os argv : List Word} {cmd : Word}
    (hw : progTable.Writes false fs os argv) (hplain : ∀ f ∈ fs, informs f = false)
    (hcmd : lastArg 'c'.toUInt8 fs = some cmd)
    (hdevice : lastArg 'd'.toUInt8 fs = some (bytes "/dev/ttyUSB0".toList))
    (hrest : lastArg 'b'.toUInt8 fs = none ∧ lastArg 'f'.toUInt8 fs = none ∧ lastArg 'p'.toUInt8 fs = none) :
    sampleTerminal.ProgLine fs os argv cmd := by
  refine ⟨hw, hplain, hcmd, hdevice, by rw [hrest.1]; rfl, by rw [hrest.2.1]; decide,
    defaultPartFileNameCurrent, ?_, ?_⟩
  · rw [hrest.2.2]
    simp [partsFileNameOf, sampleTerminal]
  · simp only [sampleTerminal, if_true]
    exact findPart_sampleParts false fun _ _ => 0

def sampleTyped : List (World × Act) := [
  (plainWorld, .lpcBinaryCheck (typedWords ["--no-user", "f"])),
  (plainWorld, .lpcprog (typedWords ["-tcflash", "--dev", "/dev/ttyUSB0", "f"])),
  (plainWorld, .lpcprog (typedWords ["g", "-d/dev/ttyUSB0", "--command=dump"])),
  (plainWorld, .lpcisp (typedWords ["--sync", "/dev/ttyUSB0"])),
  (plainWorld, .lpcisp (typedWords ["/dev/ttyUSB0", "unlock"])),
  (plainWorld, .lpcisp (typedWords ["-hs", "/dev/ttyUSB0"])),
  (plainWorld, .reset),
  (plainWorld, .lpcprog (typedWords ["-n", "-c", "flash", "-d", "/dev/ttyUSB0", "--", "g"]))]

def sampleJobs : List (List Job) := [[.check sampleName false true], [.flash sampleName 1], [.dump otherName],
  [.synchronize], [.isp .unlock], [], [.reset], [.flash otherName 0]]

theorem Terminal.typed_sample : ∃ b', sampleTyped.foldlM sampleTerminal.act sampleBench = some b' ∧
    Represents sampleSetup b' (sampleJobs.flatten.foldl (Job.perform lpc1114) sampleStore) := by
  have hcheck : checkTable.Writes false [.option 'n'.toUInt8 none] [sampleName.text]
      (typedWords ["--no-user", "f"]) := Table.writes_iff.2 (by decide)
  have hflash : sampleTerminal.ProgLine _ [sampleName.text]
      (typedWords ["-tcflash", "--dev", "/dev/ttyUSB0", "f"]) _ :=
    sampleTerminal_line (Table.writes_iff.2 ⟨rfl, by decide⟩) (by decide) rfl rfl ⟨rfl, rfl, rfl⟩
  have hdump : sampleTerminal.ProgLine _ [otherName.text]
      (typedWords ["g", "-d/dev/ttyUSB0", "--command=dump"]) _ :=
    sampleTerminal_line (Table.writes_iff.2 ⟨rfl, by decide⟩) (by decide) rfl rfl ⟨rfl, rfl, rfl⟩
  have hsync : sampleTerminal.IspLine [.option 's'.toUInt8 none] [] (typedWords ["--sync", "/dev/ttyUSB0"]) :=
    ⟨Table.writes_iff.2 ⟨rfl, by decide⟩, by decide, rfl⟩
  have hunlock : sampleTerminal.IspLine [] (typedWords ["unlock"]) (typedWords ["/dev/ttyUSB0", "unlock"]) :=
    ⟨Table.writes_iff.2 ⟨rfl, by decide⟩, by decide, rfl⟩
  have hhelp fs os (hw : ispTable.Writes false fs os (typedWords ["-hs", "/dev/ttyUSB0"])) :
      (∃ f ∈ fs, informs f = true) ∨ os.head? ≠ some sampleTerminal.tty := by
    have hscan : ispTable.scan false none (typedWords ["-hs", "/dev/ttyUSB0"]) =
      ([.option 'h'.toUInt8 none, .option 's'.toUInt8 none], typedWords ["/dev/ttyUSB0"]) := rfl
    obtain ⟨rfl, -⟩ := Prod.mk.inj (hw.scan.symm.trans hscan)
    exact .inl ⟨_, List.mem_cons_self, rfl⟩
  have hback : sampleTerminal.ProgLine _ [otherName.text]
      (typedWords ["-n", "-c", "flash", "-d", "/dev/ttyUSB0", "--", "g"]) _ :=
    sampleTerminal_line (Table.writes_iff.2 ⟨rfl, by decide⟩) (by decide) rfl rfl ⟨rfl, rfl, rfl⟩
  have hdef : Job.Defined lpc1114 sampleStore (.check sampleName false true) := by
    intro content hcontent
    obtain rfl : zerosFile = content := Option.some.inj hcontent
    rw [zerosFile_length]
    omega
  have hplain : ∀ f ∈ [Found.option 'n'.toUInt8 none], informs f = false := by decide
  have hasks : List.Forall₂ (fun a js => sampleTerminal.Asks a.2 js) sampleTyped sampleJobs :=
    .cons (.check hcheck hplain) (.cons (.flash hflash lookup_commands.2.2.2)
      (.cons (.dump hdump lookup_commands.2.2.1) (.cons (.synchronize hsync rfl)
        (.cons (.isp hunlock rfl (by decide) (.inl rfl)) (.cons (.ispNothing hhelp)
          (.cons .reset (.cons (.flash hback lookup_commands.2.2.2) .nil)))))))
  exact Terminal.typed sampleTerminal sampleBench_represents hasks
    ⟨hdef, trivial, trivial, trivial, trivial, trivial, trivial, trivial⟩

end Sample

end LpcTools
