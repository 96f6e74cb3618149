import LpcTools.Mains

/-!
# What the programs are asked for

A command line may be written in many ways. Each of the programs takes the last argument of an option, in
whatever way and order the options are written and wherever the operands stand between them. `lpcisp` and
`lpcprog` come to an open line if that is asked for without a mistake, and not otherwise; what they then do
is the invocation of `Programs` (`lpcisp_ran_iff`, `lpcprog_ran_iff`).
-/

namespace LpcTools

open Decimal Getopt

variable {σ : Type} {S : Shell σ} {fuel : ℕ} {fs : List Found} {os argv : List Word}
  {r : EStateM.Result Fault (Host σ) (Option ℤ)}

section Options

/-- An option that asks for help or for the version. -/
def informs (f : Found) : Bool := f.isOf 'h'.toUInt8 || f.isOf 'v'.toUInt8

/-- The options there are, with those that are found. -/
def IspOptions.asked (o : IspOptions) (fs : List Found) : IspOptions where
  baudrate := ((lastArg 'b'.toUInt8 fs).map atoi).getD o.baudrate
  synchronize := given 's'.toUInt8 fs || o.synchronize
  traceOn := given 't'.toUInt8 fs || o.traceOn

def ProgOptions.asked (o : ProgOptions) (fs : List Found) : ProgOptions where
  partsFileName := (lastArg 'p'.toUInt8 fs).or o.partsFileName
  command := (lastArg 'c'.toUInt8 fs).or o.command
  device := (lastArg 'd'.toUInt8 fs).or o.device
  baudrate := ((lastArg 'b'.toUInt8 fs).map atoi).getD o.baudrate
  traceOn := given 't'.toUInt8 fs || o.traceOn
  crystalFreq := ((lastArg 'f'.toUInt8 fs).map atoi).getD o.crystalFreq
  calcUserCode := if given 'n'.toUInt8 fs then 0 else o.calcUserCode

def CheckOptions.asked (o : CheckOptions) (fs : List Found) : CheckOptions where
  calcUserCode := !given 'n'.toUInt8 fs && o.calcUserCode
  checkCrp := !given 's'.toUInt8 fs && o.checkCrp

theorem tables_consistent :
    ispTable.Consistent ∧ progTable.Consistent ∧ checkTable.Consistent := by
  decide

theorem IspOptions.take_eq {f : Found} (hf : f.Fits ispTable) (o : IspOptions) :
    o.take f = if informs f then .error 0 else .ok (o.asked [f]) := by
  rcases f with ⟨c, arg⟩ | _
  · have hmem : c ∈ bytes "sb:thv".toList := Table.mem_optstring hf
    have hletters : bytes "sb:thv".toList = ['s'.toUInt8, 'b'.toUInt8, ':'.toUInt8, 't'.toUInt8,
      'h'.toUInt8, 'v'.toUInt8] := rfl
    simp only [hletters, List.mem_cons, List.not_mem_nil, or_false] at hmem
    rcases hmem with rfl | rfl | rfl | rfl | rfl | rfl <;> rcases arg with _ | arg <;>
      first | rfl | cases hf
  · cases hf

theorem ProgOptions.take_eq {f : Found} (hf : f.Fits progTable) (o : ProgOptions) :
    o.take f = if informs f then .error 0 else .ok (o.asked [f]) := by
  rcases f with ⟨c, arg⟩ | _
  · have hmem : c ∈ bytes "p:c:d:b:tf:nhv".toList := Table.mem_optstring hf
    have hletters : bytes "p:c:d:b:tf:nhv".toList = ['p'.toUInt8, ':'.toUInt8, 'c'.toUInt8, ':'.toUInt8,
      'd'.toUInt8, ':'.toUInt8, 'b'.toUInt8, ':'.toUInt8, 't'.toUInt8, 'f'.toUInt8, ':'.toUInt8,
      'n'.toUInt8, 'h'.toUInt8, 'v'.toUInt8] := rfl
    simp only [hletters, List.mem_cons, List.not_mem_nil, or_false] at hmem
    rcases hmem with rfl | rfl | rfl | rfl | rfl | rfl | rfl | rfl | rfl | rfl | rfl | rfl | rfl | rfl <;>
      rcases arg with _ | arg <;> first | rfl | cases hf
  · cases hf

theorem CheckOptions.take_eq {f : Found} (hf : f.Fits checkTable) (o : CheckOptions) :
    o.take f = if informs f then .error (if f.isOf 'v'.toUInt8 then 0 else -1) else .ok (o.asked [f]) := by
  rcases f with ⟨c, arg⟩ | _
  · have hmem : c ∈ bytes "nshv".toList := Table.mem_optstring hf
    have hletters : bytes "nshv".toList = ['n'.toUInt8, 's'.toUInt8, 'h'.toUInt8, 'v'.toUInt8] := rfl
    simp only [hletters, List.mem_cons, List.not_mem_nil, or_false] at hmem
    rcases hmem with rfl | rfl | rfl | rfl <;> rfl
  · cases hf

theorem IspOptions.foldl_asked (o : IspOptions) (fs : List Found) :
    fs.foldl (fun o f => o.asked [f]) o = o.asked fs := by
  induction fs generalizing o with
  | nil => simp [asked]
  | cons f fs ih =>
    rw [List.foldl_cons, ih]
    simp only [asked, lastArg_cons, given_cons, lastArg_nil, given_nil]
    cases lastArg 'b'.toUInt8 fs <;> simp [Bool.or_left_comm, Bool.or_assoc]

theorem ProgOptions.foldl_asked (o : ProgOptions) (fs : List Found) :
    fs.foldl (fun o f => o.asked [f]) o = o.asked fs := by
  induction fs generalizing o with
  | nil => simp [asked]
  | cons f fs ih =>
    rw [List.foldl_cons, ih]
    simp only [asked, lastArg_cons, given_cons, lastArg_nil, given_nil]
    cases lastArg 'b'.toUInt8 fs <;> cases lastArg 'f'.toUInt8 fs <;>
      cases given 'n'.toUInt8 fs <;> cases f.isOf 'n'.toUInt8 <;>
      simp [Bool.or_left_comm, Bool.or_assoc, Option.or_assoc]

theorem CheckOptions.foldl_asked (o : CheckOptions) (fs : List Found) :
    fs.foldl (fun o f => o.asked [f]) o = o.asked fs := by
  induction fs generalizing o with
  | nil => simp [asked]
  | cons f fs ih =>
    rw [List.foldl_cons, ih]
    simp only [asked, given_cons, given_nil]
    simp [Bool.and_left_comm, Bool.and_assoc]

end Options

section Mains

variable {ordered : Bool}

/-- What `getopt_long` finds in a line is what the line was written for, or there is a mistake. -/
theorem scan_cases (T : Table) (ordered : Bool) (argv : List Word) :
    (∃ fs os, T.scan ordered none argv = (fs, os) ∧ Found.unknown ∈ fs) ∨
      ∃ fs os, T.scan ordered none argv = (fs, os) ∧ T.Writes ordered fs os argv := by
  obtain ⟨⟨fs, os⟩, hscan⟩ : ∃ p, T.scan ordered none argv = p := ⟨_, rfl⟩
  by_cases hknown : Found.unknown ∈ fs
  · exact .inl ⟨fs, os, hscan, hknown⟩
  · exact .inr ⟨fs, os, hscan, Table.writes_iff.2 ⟨hscan, hknown⟩⟩

/-- An error that is the same at all options that end the program. -/
theorem informed_eq {α : Type} (fs : List Found) (code : ℤ) (a : α) :
    (match fs.find? informs with
      | some _ => Except.error code
      | none => .ok a) = if fs.any informs then .error code else .ok a := by
  rcases hfind : fs.find? informs with _ | f
  · rw [if_neg]
    simpa using hfind
  · rw [if_pos (List.any_eq_true.2 ⟨f, List.mem_of_find?_eq_some hfind, List.find?_some hfind⟩)]

theorem ispOptions_written (hw : ispTable.Writes ordered fs os argv) :
    fs.foldlM IspOptions.take .default =
      if fs.any informs then .error 0 else .ok (IspOptions.default.asked fs) := by
  rw [foldlM_take (fun o f hf => IspOptions.take_eq (hw.fits tables_consistent.1 f hf) o),
    IspOptions.foldl_asked]
  exact informed_eq fs 0 _

theorem progOptions_written (hw : progTable.Writes ordered fs os argv) :
    fs.foldlM ProgOptions.take .default =
      if fs.any informs then .error 0 else .ok (ProgOptions.default.asked fs) := by
  rw [foldlM_take (fun o f hf => ProgOptions.take_eq (hw.fits tables_consistent.2.1 f hf) o),
    ProgOptions.foldl_asked]
  exact informed_eq fs 0 _

theorem checkOptions_written (hw : checkTable.Writes ordered fs os argv) :
    fs.foldlM CheckOptions.take .default =
      match fs.find? informs with
      | some f => .error (if f.isOf 'v'.toUInt8 then 0 else -1)
      | none => .ok (CheckOptions.default.asked fs) := by
  have hfold := foldlM_take (fun o f hf => CheckOptions.take_eq (hw.fits tables_consistent.2.2 f hf) o)
    CheckOptions.default
  rw [CheckOptions.foldl_asked] at hfold
  exact hfold

theorem ispStart_ran_iff {o : IspOptions} : ispStart S fuel o os = .ran r ↔
    ∃ device operands env, os = device :: operands ∧ S.openDevice device = some env ∧
      r = ispServe (S.sys.withTrace o.traceOn) fuel o.synchronize operands
        (.start (S.setAttr o.baudrate env) 0 0 0) := by
  constructor
  · intro h
    unfold ispStart ispSerialOpen at h
    rcases os with _ | ⟨device, operands⟩
    · cases h
    · rcases hopen : S.openDevice device with _ | env
      · simp only [hopen] at h
        cases h
      · simp only [hopen] at h
        cases h
        exact ⟨device, operands, env, rfl, hopen, rfl⟩
  · rintro ⟨device, operands, env, rfl, hopen, rfl⟩
    simp only [ispStart, ispSerialOpen, hopen]
    rfl

theorem progStart_ran_iff {o : ProgOptions} : progStart S fuel o os = .ran r ↔
    ∃ command device partsFileName env, o.command = some command ∧ o.device = some device ∧
      partsFileNameOf S.partsFile o.partsFileName = some partsFileName ∧ S.openDevice device = some env ∧
      r = (Invocation.prog (toUnsigned o.crystalFreq)
        (findPart S.einval S.stale (S.partsFile partsFileName)) o.calcUserCode command os).run
          (S.sys.withTrace o.traceOn) fuel (.start (S.setAttr o.baudrate env) 0 0 0) := by
  constructor
  · intro h
    unfold progStart ispSerialOpen at h
    rcases hcommand : o.command with _ | command
    · simp only [hcommand] at h
      cases h
    · rcases hparts : partsFileNameOf S.partsFile o.partsFileName with _ | partsFileName
      · simp only [hcommand, hparts] at h
        cases h
      · rcases hdevice : o.device with _ | device
        · simp only [hcommand, hparts, hdevice] at h
          cases h
        · rcases hopen : S.openDevice device with _ | env
          · simp only [hcommand, hparts, hdevice, hopen] at h
            cases h
          · simp only [hcommand, hparts, hdevice, hopen] at h
            cases h
            exact ⟨command, device, partsFileName, env, rfl, rfl, rfl, hopen, rfl⟩
  · rintro ⟨command, device, partsFileName, env, hcommand, hdevice, hparts, hopen, rfl⟩
    simp only [progStart, ispSerialOpen, hcommand, hdevice, hparts, hopen]
    rfl

/-- A program gets past its options if they are written without a mistake, and ask for no help. -/
theorem parameters_ok_iff {α : Type} {T : Table} {take : α → Found → Except ℤ α} {o o' : α}
    {asked : List Found → α} (htake : ∀ o, ∃ code, take o .unknown = .error code)
    (hwritten : ∀ {fs os}, T.Writes ordered fs os argv →
      fs.foldlM take o = if fs.any informs then .error 0 else .ok (asked fs)) :
    parameters T take o ordered argv = .ok (o', os) ↔
      ∃ fs, T.Writes ordered fs os argv ∧ (∀ f ∈ fs, informs f = false) ∧ o' = asked fs := by
  unfold parameters
  constructor
  · intro h
    rcases scan_cases T ordered argv with ⟨fs, operands, hscan, hknown⟩ | ⟨fs, operands, hscan, hw⟩
    · obtain ⟨code, hcode⟩ := foldlM_unknown htake hknown o
      rw [hscan, hcode] at h
      cases h
    · rw [hscan, hwritten hw] at h
      rcases hany : fs.any informs with _ | _
      · simp only [hany, Bool.false_eq_true, if_false] at h
        cases h
        refine ⟨fs, hw, fun f hf => ?_, rfl⟩
        simpa using List.any_eq_false.1 hany f hf
      · simp only [hany, if_true] at h
        cases h
  · rintro ⟨fs, hw, hinforms, rfl⟩
    have hany : fs.any informs = false := List.any_eq_false.2 fun f hf => by simp [hinforms f hf]
    rw [hw.scan, hwritten hw, hany]
    rfl

/-- Without a session to open or a command to carry out the line is left alone, and so it is with both. -/
theorem ispServe_apply (E : Sys σ) (synchronize : Bool) (operands : List Word) (h : Host σ) :
    ispServe E fuel synchronize operands h =
      match synchronize, operands with
      | true, [] => Invocation.synchronize.run E fuel h
      | false, command :: args => (Invocation.isp command args).run E fuel h
      | _, _ => .ok (some (-1)) h := by
  cases synchronize <;> cases operands <;> rfl

theorem lpcispMain_ran_iff : lpcispMain S fuel argv = .ran r ↔
    ∃ o os, parameters ispTable IspOptions.take .default S.posixlyCorrect argv = .ok (o, os) ∧
      ispStart S fuel o os = .ran r := by
  unfold lpcispMain
  rcases parameters ispTable IspOptions.take .default S.posixlyCorrect argv with code | ⟨o, os⟩
  · simp
  · simp

theorem lpcprogMain_ran_iff : lpcprogMain S fuel argv = .ran r ↔
    ∃ o os, parameters progTable ProgOptions.take .default S.posixlyCorrect argv = .ok (o, os) ∧
      progStart S fuel o os = .ran r := by
  unfold lpcprogMain
  rcases parameters progTable ProgOptions.take .default S.posixlyCorrect argv with code | ⟨o, os⟩
  · simp
  · simp

/-- `lpcisp` opens a line if a device is named in a line without a mistake that asks for no help. On the
line it opens a session if that is all that is asked for, carries out a command if no session is asked for,
and otherwise ends with -1 and leaves the line as it is. -/
theorem lpcisp_ran_iff : lpcispMain S fuel argv = .ran r ↔
    ∃ fs device operands env, ispTable.Writes S.posixlyCorrect fs (device :: operands) argv ∧
      (∀ f ∈ fs, informs f = false) ∧ S.openDevice device = some env ∧
      let E := S.sys.withTrace (given 't'.toUInt8 fs)
      let h := Host.start (S.setAttr (((lastArg 'b'.toUInt8 fs).map atoi).getD serialBaud) env) 0 0 0
      r = match given 's'.toUInt8 fs, operands with
        | true, [] => Invocation.synchronize.run E fuel h
        | false, command :: args => (Invocation.isp command args).run E fuel h
        | _, _ => .ok (some (-1)) h := by
  rw [lpcispMain_ran_iff]
  constructor
  · rintro ⟨o, os, ho, hstart⟩
    obtain ⟨fs, hw, hinforms, rfl⟩ := (parameters_ok_iff (fun o => ⟨_, rfl⟩) ispOptions_written).1 ho
    obtain ⟨device, operands, env, rfl, hopen, hr⟩ := ispStart_ran_iff.1 hstart
    refine ⟨fs, device, operands, env, hw, hinforms, hopen, ?_⟩
    rw [ispServe_apply] at hr
    simpa [IspOptions.asked, IspOptions.default] using hr
  · rintro ⟨fs, device, operands, env, hw, hinforms, hopen, hr⟩
    refine ⟨_, _, (parameters_ok_iff (fun o => ⟨_, rfl⟩) ispOptions_written).2 ⟨fs, hw, hinforms, rfl⟩,
      ispStart_ran_iff.2 ⟨device, operands, env, rfl, hopen, ?_⟩⟩
    rw [ispServe_apply]
    simpa [IspOptions.asked, IspOptions.default] using hr

/-- `lpcprog` opens a line if a command and a device are named, and a parts file or one of the defaults can
be read, in a line without a mistake that asks for no help. It then carries out the command. -/
theorem lpcprog_ran_iff : lpcprogMain S fuel argv = .ran r ↔
    ∃ fs os command device partsFileName env, progTable.Writes S.posixlyCorrect fs os argv ∧
      (∀ f ∈ fs, informs f = false) ∧ lastArg 'c'.toUInt8 fs = some command ∧
      lastArg 'd'.toUInt8 fs = some device ∧
      partsFileNameOf S.partsFile (lastArg 'p'.toUInt8 fs) = some partsFileName ∧
      S.openDevice device = some env ∧
      r = (Invocation.prog (toUnsigned (((lastArg 'f'.toUInt8 fs).map atoi).getD 10000))
        (findPart S.einval S.stale (S.partsFile partsFileName)) (if given 'n'.toUInt8 fs then 0 else 1)
        command os).run (S.sys.withTrace (given 't'.toUInt8 fs)) fuel
          (.start (S.setAttr (((lastArg 'b'.toUInt8 fs).map atoi).getD serialBaud) env) 0 0 0) := by
  rw [lpcprogMain_ran_iff]
  constructor
  · rintro ⟨o, os, ho, hstart⟩
    obtain ⟨fs, hw, hinforms, rfl⟩ := (parameters_ok_iff (fun o => ⟨_, rfl⟩) progOptions_written).1 ho
    obtain ⟨command, device, partsFileName, env, hcommand, hdevice, hparts, hopen, hr⟩ :=
      progStart_ran_iff.1 hstart
    refine ⟨fs, os, command, device, partsFileName, env, hw, hinforms, ?_⟩
    simp only [ProgOptions.asked, ProgOptions.default, Option.or_none, Bool.or_false] at hcommand hdevice
    simp only [ProgOptions.asked, ProgOptions.default, Option.or_none, Bool.or_false] at hparts hr
    exact ⟨hcommand, hdevice, hparts, hopen, hr⟩
  · rintro ⟨fs, os, command, device, partsFileName, env, hw, hinforms, hrest⟩
    refine ⟨_, _, (parameters_ok_iff (fun o => ⟨_, rfl⟩) progOptions_written).2 ⟨fs, hw, hinforms, rfl⟩,
      progStart_ran_iff.2 ⟨command, device, partsFileName, env, ?_⟩⟩
    simpa [ProgOptions.asked, ProgOptions.default] using hrest

example : progTable.scan false none
    (["-tncflash", "--dev", "/dev/ttyUSB0", "prog.bin", "--baud=9600"].map fun w => bytes w.toList) =
      ([.option 't'.toUInt8 none, .option 'n'.toUInt8 none, .option 'c'.toUInt8 (some (bytes "flash".toList)),
        .option 'd'.toUInt8 (some (bytes "/dev/ttyUSB0".toList)),
        .option 'b'.toUInt8 (some (bytes "9600".toList))], [bytes "prog.bin".toList]) := by
  decide

/-- `lpc_binary_check` ends at the first option that asks for help or for the version, and takes one file
name, which it checks as it is asked to. -/
theorem checkMain_written {E : Sys σ} {fileSize : Word → Option ℕ}
    (hw : checkTable.Writes ordered fs os argv) :
    checkMain E ordered fileSize argv =
      match fs.find? informs, os with
      | some f, _ => pure (if f.isOf 'v'.toUInt8 then 0 else -1)
      | none, [filename] =>
        binaryCheck E (!given 'n'.toUInt8 fs) (!given 's'.toUInt8 fs) (fileSize filename) filename
      | none, _ => pure (-1) := by
  unfold checkMain parameters
  simp only [hw.scan, checkOptions_written hw]
  rcases fs.find? informs with _ | f
  · simp only [CheckOptions.asked, CheckOptions.default, Bool.and_true]
    rcases os with _ | ⟨filename, _ | ⟨other, os⟩⟩ <;> rfl
  · rfl

end Mains

end LpcTools
