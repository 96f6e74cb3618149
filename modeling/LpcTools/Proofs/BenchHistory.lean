import LpcTools.Proofs.BenchOrders
import LpcTools.Proofs.Reader

/-!
# Whole histories on a bench

After any history of jobs the files and the flash are what the jobs are for (`Bench.history`). So a dump
restores the flash whatever is done in between, if it is an image that `flash` accepts
(`Bench.restores`), and the user code may be left to either of the programs (`Bench.stamps`).
-/

namespace LpcTools

open Run Decimal Refine

variable {δ : Type} {S : Setup δ} {b : Bench δ} {s : Store} {w w' : World}

/-- What is to come of a history. -/
def Setup.perform (S : Setup δ) (s : Store) (j : World × Job) : Store := Job.perform S.part s j.2

/-- Every job of the history is defined when it is done. -/
def Setup.Defined (S : Setup δ) (s : Store) (history : List (World × Job)) : Prop :=
  Along S.perform (fun s j => j.2.Defined S.part s) s history

/-- Every history of jobs comes to its end without a fault, each run of `lpcprog` and of `lpcisp` with the
exit value 0, and the files, the memories and the session are what the jobs have made of them. -/
theorem Bench.history (S : Setup δ) {b : Bench δ} {s : Store} (hr : Represents S b s)
    {history : List (World × Job)} (hdef : S.Defined s history) : ∃ b',
    history.foldlM (Bench.turn S) b = some b' ∧ Represents S b' (history.foldl S.perform s) :=
  (bench_keeps S).run hr hdef

section Restore

/-- The job writes the file. -/
def Job.Writes (name : FileName) : Job → Prop
  | check name' calcUserCode _ => calcUserCode = true ∧ name' = name
  | isp order => order.output = some name
  | dump name' => name' = name
  | _ => False

/-- An order is carried out, or changes the session at most. -/
theorem Order.perform_cases (order : Order) (part : PartDesc) (s : Store) :
    (∃ mode, order.perform part s = { s with mode := mode }) ∨
      order.obeyed part s = some (order.perform part s) := by
  unfold perform
  rcases h : order.obeyed part s with _ | s'
  · exact .inl ⟨s.mode, rfl⟩
  · rcases s.mode with _ | _ | _
    · exact .inl ⟨s.mode, rfl⟩
    · exact .inr rfl
    · exact .inl ⟨.opened, rfl⟩

theorem Order.perform_file {part : PartDesc} {name : FileName} {order : Order}
    (horder : order.output ≠ some name) (s : Store) : (order.perform part s).files name = s.files name := by
  rcases order.perform_cases part s with ⟨mode, hperform⟩ | hobeyed
  · rw [hperform]
  · cases order with
    | prepareForWrite args | erase args | copyRamToFlash args =>
      obtain ⟨range, -, hs⟩ := Option.map_eq_some_iff.1 hobeyed
      exact (congrArg (fun s : Store => s.files name) hs.symm).trans rfl
    | writeToRam addr name' mode =>
      simp only [obeyed] at hobeyed
      split_ifs at hobeyed
      obtain ⟨content, -, hs⟩ := Option.map_eq_some_iff.1 hobeyed
      exact (congrArg (fun s : Store => s.files name) hs.symm).trans rfl
    | readMemory addr count name' mode =>
      simp only [obeyed] at hobeyed
      split_ifs at hobeyed
      rw [← Option.some.inj hobeyed]
      exact Function.update_of_ne (fun he => horder (by rw [he, output])) _ _
    | _ => rw [← Option.some.inj hobeyed]

theorem Job.perform_file {part : PartDesc} {name : FileName} {job : Job} (hjob : ¬ job.Writes name)
    (s : Store) : (job.perform part s).files name = s.files name := by
  have hput (files : Files) (name' : FileName) (content : List UInt8) (hne : ¬ name' = name) :
      files.put name' content name = files name :=
    Function.update_of_ne (fun he => hne he.symm) _ _
  cases job with
  | check name' calcUserCode checkCrp =>
    simp only [perform]
    rcases calcUserCode with _ | _
    · rfl
    · rcases s.files name' with _ | content
      · rfl
      · exact hput _ _ _ fun he => hjob ⟨rfl, he⟩
  | dump name' => exact hput _ _ _ hjob
  | isp order => exact Order.perform_file hjob s
  | synchronize => rfl
  | reset => rfl
  | id => rfl
  | blank => rfl
  | flash name' calcUserCode => rfl

theorem Setup.perform_files {name : FileName} (S : Setup δ) {between : List (World × Job)}
    (hkept : ∀ j ∈ between, ¬ j.2.Writes name) (s : Store) :
    (between.foldl S.perform s).files name = s.files name := by
  induction between generalizing s with
  | nil => rfl
  | cons j between ih =>
    rw [List.foldl_cons, ih fun k hk => hkept k (List.mem_cons_of_mem j hk)]
    exact Job.perform_file (hkept j List.mem_cons_self) s

/-- The flash is dumped, anything may be done that leaves the file alone, and the file is programmed:
the flash is as it was, if it is an image that passes the checks, and blank otherwise. -/
theorem Bench.restores (S : Setup δ) {b : Bench δ} {s : Store} (hr : Represents S b s) (w w' : World)
    (name : FileName) {between : List (World × Job)} {calcUserCode : ℤ} (hcalc : calcUserCode ≠ 1)
    (hkept : ∀ j ∈ between, ¬ j.2.Writes name)
    (hdef : S.Defined (S.perform s (w, .dump name)) between) : ∃ b',
    ((w, Job.dump name) :: between ++ [(w', Job.flash name calcUserCode)]).foldlM (Bench.turn S) b = some b' ∧
      S.part.contents (S.chip b'.wire.dev.dev).flash =
        if S.part.acceptable calcUserCode (S.part.contents (S.chip b.wire.dev.dev).flash) then
          S.part.contents (S.chip b.wire.dev.dev).flash
        else S.part.erased := by
  have hall : S.Defined s ((w, Job.dump name) :: between ++ [(w', Job.flash name calcUserCode)]) :=
    Along.append ⟨trivial, hdef⟩ ⟨trivial, trivial⟩
  obtain ⟨b', hrun, hr'⟩ := (bench_keeps S).run hr hall
  refine ⟨b', hrun, ?_⟩
  have hfile : (((w, Job.dump name) :: between).foldl S.perform s).files name = some s.flash := by
    rw [List.foldl_cons, S.perform_files hkept]
    exact Function.update_self _ _ _
  have hflash := hr'.flash
  rw [List.foldl_append] at hflash
  change _ = S.part.flashed calcUserCode ((((w, Job.dump name) :: between).foldl S.perform s).files name)
    at hflash
  rw [hflash, hfile, hr.flash]
  refine S.sound.flashed_whole ?_ hcalc
  rw [← hr.flash]
  exact PartDesc.contents_length

end Restore

section Stamp

variable {part : PartDesc} {content : List UInt8} {cksum v₇ crp : UInt32}

/-- What fits the flash of an image has the words that are looked at. -/
theorem Image.take (hi : Image content cksum v₇ crp) {n : ℕ} (hn : 0x300 ≤ n) :
    Image (content.take n) cksum v₇ crp := by
  have hlow := hi.length
  have hword (k : ℕ) (hk : 4 * k + 4 ≤ 0x300) : word (content.take n) k = word content k :=
    word_congr fun i hi => by rw [List.getElem?_take_of_lt (by omega)]
  refine ⟨by rw [List.length_take]; omega, ?_, ?_, ?_⟩
  · rw [userCode_congr fun k hk => hword k (by omega), hi.userCode]
  · rw [hword 7 (by omega), hi.code]
  · rw [hword _ (by decide), hi.crp]

theorem Image.take_stamped (hi : Image content cksum v₇ crp) {n : ℕ} (hn : 0x300 ≤ n) :
    (stamped content).take n = withUserCode (content.take n) cksum := by
  have hlow := hi.length
  have hfour : (bytesOfWord cksum).length = 4 := rfl
  rw [stamped, hi.userCode, Option.getD_some]
  refine List.ext_getElem? fun i => ?_
  by_cases hin : i < n
  · rw [List.getElem?_take_of_lt hin, withUserCode, withUserCode, getElem?_overlay (by omega),
      getElem?_overlay (by rw [List.length_take]; omega), List.getElem?_take_of_lt hin]
  · rw [List.getElem?_take_eq_none (by omega), List.getElem?_eq_none]
    rw [withUserCode, overlay_length (by rw [List.length_take]; omega), List.length_take]
    omega

/-- The user code of the file is the one that is computed for the buffer. -/
theorem PartDesc.Sound.flashed_stamped (hs : part.Sound) (hlow : 0x300 ≤ content.length) :
    part.flashed 0 (some (stamped content)) = part.flashed 1 (some content) := by
  obtain ⟨cksum, v₇, crp, hcontent⟩ := exists_image hlow
  have hstamped := hcontent.take_stamped hs.low
  have hi := hcontent.take hs.low
  obtain ⟨image, himage⟩ : ∃ image, content.take part.flashSize.toNat = image := ⟨_, rfl⟩
  rw [himage] at hi hstamped
  have hlen := withUserCode_length hi
  have hlow' := hi.length
  have hfill : Image (filled part image) cksum v₇ crp := hi.fill
  have hfill' : Image (filled part (withUserCode image cksum)) cksum cksum crp := hi.patched.fill
  have hne : image ≠ [] := List.ne_nil_of_length_pos (by omega)
  have hne' : withUserCode image cksum ≠ [] := List.ne_nil_of_length_pos (by omega)
  have hsame : part.acceptable 0 (withUserCode image cksum) = part.acceptable 1 image := by
    rw [Bool.eq_iff_iff, hfill'.acceptable_iff, hfill.acceptable_iff]
    simp [hne, hne']
  have hwritten : part.written (withUserCode image cksum) = part.written image := by
    rw [PartDesc.written, PartDesc.written, nbWrites, nbWrites, hlen]
  have hexpected : part.expected (withUserCode image cksum) 0 = part.expected image 1 := by
    have hpadded : userCode (part.padded image) = some cksum := by
      rw [PartDesc.padded, userCode_append (by omega), hi.userCode]
    obtain ⟨sum, hsum, hcode⟩ := userCode_eq_sub (show 28 ≤ (part.padded image).length by
      rw [PartDesc.padded, List.length_append]
      omega)
    rw [hpadded] at hcode
    have hfits : 28 + (bytesOfWord cksum).length ≤ image.length := by
      rw [show (bytesOfWord cksum).length = 4 from rfl]
      omega
    rw [PartDesc.expected, PartDesc.expected, if_neg (by decide), if_pos rfl, hsum, Option.getD_some,
      ← Option.some.inj hcode, PartDesc.padded, PartDesc.padded, hwritten, hlen, withUserCode, withUserCode,
      overlay_append_right hfits]
  simp only [PartDesc.flashed, himage, hstamped, hsame, hwritten, hexpected]

/-- A file that the checker has given its user code is programmed as `flash` programs the file with a
user code of its own, however long the file is. -/
theorem Bench.stamps (S : Setup δ) {b : Bench δ} {s : Store} (hr : Represents S b s) (w w' : World)
    {name : FileName} {content : List UInt8} (checkCrp : Bool) (hfile : b.files name = some content)
    (hlow : 0x300 ≤ content.length) (hhigh : content.length < 2 ^ 31) : ∃ b₁ b₂,
    [(w, .check name true checkCrp), (w', .flash name 0)].foldlM (Bench.turn S) b = some b₁ ∧
      [(w, .flash name 1)].foldlM (Bench.turn S) b = some b₂ ∧
      S.part.contents (S.chip b₁.wire.dev.dev).flash = S.part.contents (S.chip b₂.wire.dev.dev).flash := by
  rw [hr.files] at hfile
  have hdef : Job.Defined S.part s (.check name true checkCrp) := by
    intro content' hcontent
    rw [hfile] at hcontent
    cases hcontent
    exact ⟨hlow, hhigh⟩
  have hdef₁ : S.Defined s [(w, .check name true checkCrp), (w', .flash name 0)] := ⟨hdef, trivial, trivial⟩
  have hdef₂ : S.Defined s [(w, .flash name 1)] := ⟨trivial, trivial⟩
  obtain ⟨b₁, hrun₁, hr₁⟩ := (bench_keeps S).run hr hdef₁
  obtain ⟨b₂, hrun₂, hr₂⟩ := (bench_keeps S).run hr hdef₂
  refine ⟨b₁, b₂, hrun₁, hrun₂, ?_⟩
  have hput : s.files.put name (stamped content) name = some (stamped content) :=
    Function.update_self _ _ _
  rw [hr₁.flash, hr₂.flash]
  simp only [List.foldl_cons, List.foldl_nil, Job.perform, hfile, if_true, Option.map_some,
    Option.getD_some, hput]
  exact S.sound.flashed_stamped hlow

end Stamp

section Sample

theorem zeros_ne_synchro :
    ((List.range repBufsize).map fun _ => (0 : UInt8)).take synchro.length ≠ synchro := by
  decide

/-- Files that are read in one piece, with zeros behind every object. -/
def plainWorld : World where
  sys := fun files =>
    { Sys.plain Unit with
      beyond := fun _ _ => some 0
      openInput := fun _ text =>
        if h : isStdStream text = false then
          (files ⟨text, h⟩).map fun content => if content = [] then [] else [.data content]
        else none }
  shows := by
    intro files
    refine ⟨fun name => ?_, fun _ _ => ⟨rfl, fun _ => rfl⟩, fun _ => rfl, fun _ _ => by simp, zeros_ne_synchro⟩
    have hopen (text : List UInt8) (htext : isStdStream text = false) : (if h : isStdStream text = false then
        (files ⟨text, h⟩).map fun content => if content = [] then [] else [ReadOutcome.data content]
        else none) = (files ⟨text, htext⟩).map fun content => if content = [] then [] else [.data content] :=
      dif_pos htext
    have hname := hopen name.text name.isFile
    rcases hcontent : files name with _ | content
    · refine ⟨name.isFile, fun _ => ?_⟩
      rw [hcontent] at hname
      exact hname
    · rw [hcontent] at hname
      intro _
      by_cases hnil : content = []
      · rw [Option.map_some, if_pos hnil] at hname
        exact ⟨name.isFile, [], hname, by simp, hnil.symm⟩
      · rw [Option.map_some, if_neg hnil] at hname
        exact .single name.isFile hname hnil

/-- The files are changed by hand. -/
theorem Represents.withFiles (hr : Represents S b s) (files : Files) :
    Represents S ⟨files, b.wire⟩ { s with files := files } :=
  ⟨rfl, hr.flash, hr.ram, hr.expects, hr.pending, hr.mode⟩

/-- A boot ROM in front of the device of `Reader`, an LPC1114. -/
noncomputable def sampleSetup : Setup (Chip × List UInt8) where
  line := reader lpc1114.sectorAt lpc1114.uuencode.toNat
  identity := sampleIdentity
  chip := Prod.fst
  refusals := fun _ => 0
  sends := Prod.snd
  find := fun _ => some ⟨271786064, [], lpc1114⟩
  part := lpc1114
  freq := 14748
  fuel := 14
  eager := fun _ => Nat.one_pos
  faithful := reader_faithful
  willing := reader_willing
  serves := reader_serves _ _
  found := rfl
  sound := ⟨by decide, by decide, by decide, by decide, by decide, by decide⟩
  freq_lt := by decide
  fuel_le := Nat.le_refl _

/-- A device full of zeros that has just been powered, and files of zeros. -/
def sampleBench : Bench (Chip × List UInt8) where
  files := fun _ => some zerosFile
  wire := .quiet ⟨.waiting, false, false, ⟨fun _ => 0, fun _ => 0, none⟩, []⟩

def sampleStore : Store := ⟨fun _ => some zerosFile, lpc1114.contents fun _ => 0, fun _ => none, .waiting⟩

theorem sampleBench_represents : Represents sampleSetup sampleBench sampleStore := by
  have hflash : (sampleSetup.chip sampleBench.wire.dev.dev).flash = fun _ => 0 := rfl
  refine ⟨rfl, ?_, unknown_ram, rfl, rfl, rfl⟩
  rw [hflash]
  simp only [sampleStore, sampleSetup]

def sampleName : FileName := ⟨['f'.toUInt8], rfl⟩

def otherName : FileName := ⟨['g'.toUInt8], rfl⟩

/-- A file is programmed and dumped to another, and that one is programmed after a reset. In between the
target is erased by hand, in a session that is asked for twice, so that the first command is refused. -/
def sampleHistory : List (World × Job) := [(plainWorld, .flash sampleName 1), (plainWorld, .dump otherName),
  (plainWorld, .reset), (plainWorld, .synchronize), (plainWorld, .synchronize), (plainWorld, .isp .unlock),
  (plainWorld, .isp .unlock), (plainWorld, .isp (.prepareForWrite [bytes ['0'], bytes ['7']])),
  (plainWorld, .isp (.erase [bytes ['0'], bytes ['7']])), (plainWorld, .reset),
  (plainWorld, .flash otherName 0)]

theorem Bench.history_sample : ∃ b', sampleHistory.foldlM (Bench.turn sampleSetup) sampleBench = some b' ∧
    Represents sampleSetup b' (sampleHistory.foldl sampleSetup.perform sampleStore) :=
  Bench.history sampleSetup sampleBench_represents
    ⟨trivial, trivial, trivial, trivial, trivial, trivial, trivial, trivial, trivial, trivial, trivial, trivial⟩

theorem Bench.restores_sample : ∃ b',
    [(plainWorld, Job.dump otherName), (plainWorld, .flash sampleName 1), (plainWorld, .reset),
      (plainWorld, .flash otherName 0)].foldlM (Bench.turn sampleSetup) sampleBench = some b' ∧
      lpc1114.contents b'.wire.dev.dev.1.flash =
        if lpc1114.acceptable 0 (lpc1114.contents fun _ => 0) then lpc1114.contents fun _ => 0
        else lpc1114.erased := by
  have hkept : ∀ j ∈ [(plainWorld, Job.flash sampleName 1), (plainWorld, .reset)],
      ¬ j.2.Writes otherName := by
    simp [Job.Writes]
  exact Bench.restores sampleSetup sampleBench_represents plainWorld plainWorld otherName (by decide) hkept
    ⟨trivial, trivial, trivial⟩

theorem Bench.stamps_sample : ∃ b₁ b₂,
    [(plainWorld, Job.check sampleName true true), (plainWorld, .flash sampleName 0)].foldlM
        (Bench.turn sampleSetup) sampleBench = some b₁ ∧
      [(plainWorld, Job.flash sampleName 1)].foldlM (Bench.turn sampleSetup) sampleBench = some b₂ ∧
      lpc1114.contents b₁.wire.dev.dev.1.flash = lpc1114.contents b₂.wire.dev.dev.1.flash :=
  Bench.stamps sampleSetup sampleBench_represents plainWorld plainWorld true rfl
    (by rw [zerosFile_length]; omega) (by rw [zerosFile_length]; omega)

end Sample

end LpcTools
