import Mathlib.Data.List.TakeWhile
import LpcTools.Lib.Decimal

/-!
# Options on a command line

`Table.scan` goes over the words of a command line as `getopt_long` does. Letters may stand together in one
word, the last of them with an argument in the rest of the word or in the next one, a long name may be cut
short as long as it is told from the others, and `--` ends the options. Operands may stand between the
options, unless `ordered`, as `POSIXLY_CORRECT` asks for, makes the first of them the end.

`Table.Writes` is the grammar of the command lines without a mistake. `Table.writes_iff` says that these
are read for what they are, and that there are no others.
-/

namespace Getopt

abbrev Word := List UInt8

/-- An option of the table with its argument, or a mistake. -/
inductive Found where
  | option (val : UInt8) (arg : Option Word)
  | unknown
  deriving DecidableEq

structure LongOption where
  name : Word
  hasArg : Bool
  val : UInt8
  deriving DecidableEq

structure Table where
  optstring : Word
  longopts : List LongOption
  dash : '-'.toUInt8 ∉ optstring

/-- Whether a letter takes an argument, if it is an option. -/
def Table.letter (T : Table) (c : UInt8) : Option Bool :=
  if c = ':'.toUInt8 ∨ c = ';'.toUInt8 then none
  else
    match T.optstring.dropWhile (· ≠ c) with
    | [] => none
    | _ :: rest => some (rest.head? == some ':'.toUInt8)

/-- The option of a name, or of the start of one if it stands for a single option. -/
def Table.long (T : Table) (name : Word) : Option LongOption :=
  match T.longopts.find? (·.name = name) with
  | some o => some o
  | none =>
    match T.longopts.filter (name.isPrefixOf ·.name) with
    | [] => none
    | o :: os => if os.all fun p => p.hasArg = o.hasArg ∧ p.val = o.val then some o else none

/-- The options in the letters of a word, and the one that is to have the next word. -/
def Table.letters (T : Table) : Word → List Found × Option UInt8
  | [] => ([], none)
  | c :: cs =>
    match T.letter c with
    | none => (.unknown :: (T.letters cs).1, (T.letters cs).2)
    | some false => (.option c none :: (T.letters cs).1, (T.letters cs).2)
    | some true => if cs = [] then ([], some c) else ([.option c (some cs)], none)

/-- The same for what is behind two dashes. -/
def Table.longWord (T : Table) (text : Word) : List Found × Option UInt8 :=
  match T.long (text.takeWhile (· ≠ '='.toUInt8)), text.dropWhile (· ≠ '='.toUInt8) with
  | none, _ => ([.unknown], none)
  | some o, [] => if o.hasArg then ([], some o.val) else ([.option o.val none], none)
  | some o, _ :: arg => if o.hasArg then ([.option o.val (some arg)], none) else ([.unknown], none)

def dashes : Word := ['-'.toUInt8, '-'.toUInt8]

/-- A single dash is none. -/
def isOption : Word → Bool
  | d :: _ :: _ => d = '-'.toUInt8
  | _ => false

def Table.word (T : Table) : Word → List Found × Option UInt8
  | _ :: d :: text => if d = '-'.toUInt8 then T.longWord text else T.letters (d :: text)
  | _ => ([], none)

/-- The options and the operands of a line, of which the first word is an argument if it is wanted. -/
def Table.scan (T : Table) (ordered : Bool) : Option UInt8 → List Word → List Found × List Word
  | none, [] => ([], [])
  | some _, [] => ([.unknown], [])
  | some val, w :: ws =>
    (.option val (some w) :: (T.scan ordered none ws).1, (T.scan ordered none ws).2)
  | none, w :: ws =>
    if w = dashes then ([], ws)
    else if isOption w then
      ((T.word w).1 ++ (T.scan ordered (T.word w).2 ws).1, (T.scan ordered (T.word w).2 ws).2)
    else if ordered then ([], w :: ws)
    else ((T.scan ordered none ws).1, w :: (T.scan ordered none ws).2)

/-- Options without an argument. -/
def flags (cs : Word) : List Found := cs.map fun c => .option c none

/-- The ways to write options, in one word or in two. -/
inductive Table.Spells (T : Table) : List Found → List Word → Prop
  | flags {cs : Word} (hne : cs ≠ []) (hcs : ∀ c ∈ cs, T.letter c = some false) :
      Spells T (flags cs) ['-'.toUInt8 :: cs]
  | attached {cs arg : Word} {c : UInt8} (hcs : ∀ c ∈ cs, T.letter c = some false)
      (hc : T.letter c = some true) (harg : arg ≠ []) :
      Spells T (Getopt.flags cs ++ [.option c (some arg)]) ['-'.toUInt8 :: (cs ++ c :: arg)]
  | apart {cs : Word} {c : UInt8} (hcs : ∀ c ∈ cs, T.letter c = some false)
      (hc : T.letter c = some true) (arg : Word) :
      Spells T (Getopt.flags cs ++ [.option c (some arg)]) ['-'.toUInt8 :: (cs ++ [c]), arg]
  | long {name : Word} {o : LongOption} (ho : T.long name = some o) (hname : '='.toUInt8 ∉ name)
      (hne : name ≠ []) (harg : o.hasArg = false) : Spells T [.option o.val none] [dashes ++ name]
  | longAttached {name : Word} {o : LongOption} (ho : T.long name = some o) (hname : '='.toUInt8 ∉ name)
      (harg : o.hasArg = true) (arg : Word) :
      Spells T [.option o.val (some arg)] [dashes ++ (name ++ '='.toUInt8 :: arg)]
  | longApart {name : Word} {o : LongOption} (ho : T.long name = some o) (hname : '='.toUInt8 ∉ name)
      (hne : name ≠ []) (harg : o.hasArg = true) (arg : Word) :
      Spells T [.option o.val (some arg)] [dashes ++ name, arg]

/-- A line with these options and operands. -/
inductive Table.Writes (T : Table) (ordered : Bool) : List Found → List Word → List Word → Prop
  | done : Writes T ordered [] [] []
  | dashes (ws : List Word) : Writes T ordered [] ws (dashes :: ws)
  | stop {w : Word} (hordered : ordered = true) (hw : isOption w = false) (ws : List Word) :
      Writes T ordered [] (w :: ws) (w :: ws)
  | operand {fs : List Found} {os ws : List Word} {w : Word} (hordered : ordered = false)
      (hw : isOption w = false) (hws : Writes T ordered fs os ws) : Writes T ordered fs (w :: os) (w :: ws)
  | options {fs fs' : List Found} {os ws ws' : List Word} (hspelt : T.Spells fs' ws')
      (hws : Writes T ordered fs os ws) : Writes T ordered (fs' ++ fs) os (ws' ++ ws)

section Words

variable {T : Table} {cs arg name text : Word} {c : UInt8} {o : LongOption}

theorem Table.letter_dash (T : Table) : T.letter '-'.toUInt8 = none := by
  rw [letter, if_neg (by decide), List.dropWhile_eq_nil_iff.2]
  intro c hc
  simpa using fun he : c = '-'.toUInt8 => T.dash (he ▸ hc)

theorem isOption_cons {w : Word} (hw : w ≠ []) : isOption ('-'.toUInt8 :: w) = true := by
  obtain ⟨c, w, rfl⟩ := List.exists_cons_of_ne_nil hw
  rfl

theorem Table.letters_flags (hcs : ∀ c ∈ cs, T.letter c = some false) (rest : Word) :
    T.letters (cs ++ rest) = (flags cs ++ (T.letters rest).1, (T.letters rest).2) := by
  induction cs with
  | nil => rfl
  | cons c cs ih =>
    rw [List.cons_append, letters, hcs c List.mem_cons_self]
    simp only [ih fun d hd => hcs d (List.mem_cons_of_mem c hd)]
    rfl

/-- The words of letters, from the first letter on. -/
theorem Table.word_letters {w : Word} (hw : w ≠ []) (hhead : ∀ c ∈ w.head?, (T.letter c).isSome) :
    T.word ('-'.toUInt8 :: w) = T.letters w := by
  obtain ⟨c, w, rfl⟩ := List.exists_cons_of_ne_nil hw
  have hc : c ≠ '-'.toUInt8 := by
    rintro rfl
    simp [T.letter_dash] at hhead
  rw [word, if_neg hc]

theorem Table.letters_attached (hc : T.letter c = some true) (harg : arg ≠ []) :
    T.letters (c :: arg) = ([.option c (some arg)], none) := by
  rw [letters, hc]
  exact if_neg harg

theorem Table.letters_apart (hc : T.letter c = some true) : T.letters [c] = ([], some c) := by
  rw [letters, hc]
  rfl

/-- The first letter of a group is one of the table. -/
theorem Table.head_letter (rest : Word) {b : Bool} (hcs : ∀ c ∈ cs, T.letter c = some false)
    (hc : T.letter c = some b) : ∀ d ∈ (cs ++ c :: rest).head?, (T.letter d).isSome := by
  intro d hd
  rcases cs with _ | ⟨e, cs⟩
  · rw [List.nil_append, List.head?_cons, Option.mem_some_iff] at hd
    rw [← hd, hc]
    rfl
  · rw [List.cons_append, List.head?_cons, Option.mem_some_iff] at hd
    rw [← hd, hcs e List.mem_cons_self]
    rfl

theorem takeWhile_name (hname : '='.toUInt8 ∉ name) (rest : Word) :
    (name ++ '='.toUInt8 :: rest).takeWhile (· ≠ '='.toUInt8) = name ∧
      (name ++ '='.toUInt8 :: rest).dropWhile (· ≠ '='.toUInt8) = '='.toUInt8 :: rest := by
  have hall : ∀ c ∈ name, decide (c ≠ '='.toUInt8) = true := by
    intro c hc
    simpa using fun he : c = '='.toUInt8 => hname (he ▸ hc)
  rw [List.takeWhile_append_of_pos hall, List.dropWhile_append_of_pos hall]
  simp

theorem takeWhile_bare (hname : '='.toUInt8 ∉ name) :
    name.takeWhile (· ≠ '='.toUInt8) = name ∧ name.dropWhile (· ≠ '='.toUInt8) = [] := by
  have hall : ∀ c ∈ name, decide (c ≠ '='.toUInt8) = true := by
    intro c hc
    simpa using fun he : c = '='.toUInt8 => hname (he ▸ hc)
  exact ⟨List.takeWhile_eq_self_iff.2 hall, List.dropWhile_eq_nil_iff.2 hall⟩

end Words

section Spells

variable {T : Table} {ordered : Bool} {fs : List Found} {os ws : List Word}

theorem Table.word_long (T : Table) (text : Word) : T.word (dashes ++ text) = T.longWord text := rfl

theorem scan_option {w : Word} (hdashes : w ≠ dashes) (hw : isOption w = true) (ws : List Word) :
    T.scan ordered none (w :: ws) =
      ((T.word w).1 ++ (T.scan ordered (T.word w).2 ws).1, (T.scan ordered (T.word w).2 ws).2) := by
  rw [Table.scan, if_neg hdashes, if_pos hw]

/-- A word in which options are complete. -/
theorem scan_whole {w : Word} (hdashes : w ≠ dashes) (hw : isOption w = true)
    (hword : T.word w = (fs, none)) (ws : List Word) :
    T.scan ordered none (w :: ws) = (fs ++ (T.scan ordered none ws).1, (T.scan ordered none ws).2) := by
  rw [scan_option hdashes hw, hword]

/-- A word that wants the next one. -/
theorem scan_wanting {w arg : Word} {val : UInt8} (hdashes : w ≠ dashes) (hw : isOption w = true)
    (hword : T.word w = (fs, some val)) (ws : List Word) :
    T.scan ordered none (w :: arg :: ws) =
      (fs ++ .option val (some arg) :: (T.scan ordered none ws).1, (T.scan ordered none ws).2) := by
  rw [scan_option hdashes hw, hword]
  rfl

theorem letters_ne_dashes {w : Word} (hhead : ∀ c ∈ w.head?, (T.letter c).isSome) :
    '-'.toUInt8 :: w ≠ dashes := by
  rintro he
  rw [(List.cons.inj he).2] at hhead
  simp [T.letter_dash] at hhead

theorem dashes_append_ne {text : Word} (hne : text ≠ []) : dashes ++ text ≠ dashes := by
  simpa using hne

/-- Options are read as they are spelt, whatever follows them. -/
theorem scan_spells {ws' : List Word} (hspelt : T.Spells fs ws') (ws : List Word) :
    T.scan ordered none (ws' ++ ws) =
      (fs ++ (T.scan ordered none ws).1, (T.scan ordered none ws).2) := by
  cases hspelt with
  | @flags cs hne hcs =>
    obtain ⟨c, cs, rfl⟩ := List.exists_cons_of_ne_nil hne
    have hhead : ∀ d ∈ (c :: cs).head?, (T.letter d).isSome := by
      simp [hcs c List.mem_cons_self]
    refine scan_whole (letters_ne_dashes hhead) rfl ?_ ws
    have hletters := Table.letters_flags hcs []
    rw [List.append_nil] at hletters
    rw [Table.word_letters hne hhead, hletters]
    simp [Table.letters]
  | @attached cs arg c hcs hc harg =>
    have hhead := Table.head_letter arg hcs hc
    refine scan_whole (letters_ne_dashes hhead) (isOption_cons (by simp)) ?_ ws
    rw [Table.word_letters (by simp) hhead, Table.letters_flags hcs, Table.letters_attached hc harg]
  | @apart cs c hcs hc arg =>
    have hhead := Table.head_letter [] hcs hc
    have hword : T.word ('-'.toUInt8 :: (cs ++ [c])) = (Getopt.flags cs, some c) := by
      rw [Table.word_letters (by simp) hhead, Table.letters_flags hcs, Table.letters_apart hc,
        List.append_nil]
    have hscan : T.scan ordered none (('-'.toUInt8 :: (cs ++ [c])) :: arg :: ws) = _ :=
      scan_wanting (letters_ne_dashes hhead) (isOption_cons (by simp)) hword ws
    simpa using hscan
  | @long name o ho hname hne harg =>
    refine scan_whole (dashes_append_ne hne) rfl ?_ ws
    rw [Table.word_long, Table.longWord, (takeWhile_bare hname).1, (takeWhile_bare hname).2, ho]
    simp [harg]
  | @longAttached name o ho hname harg arg =>
    refine scan_whole (dashes_append_ne (by simp)) rfl ?_ ws
    rw [Table.word_long, Table.longWord, (takeWhile_name hname arg).1, (takeWhile_name hname arg).2, ho]
    simp [harg]
  | @longApart name o ho hname hne harg arg =>
    have hword : T.word (dashes ++ name) = ([], some o.val) := by
      rw [Table.word_long, Table.longWord, (takeWhile_bare hname).1, (takeWhile_bare hname).2, ho]
      simp [harg]
    exact scan_wanting (dashes_append_ne hne) rfl hword ws

/-- A line is read for what it was written. -/
theorem Table.Writes.scan (hw : T.Writes ordered fs os ws) : T.scan ordered none ws = (fs, os) := by
  induction hw with
  | done => rfl
  | dashes ws => rw [Table.scan, if_pos rfl]
  | stop hordered hw ws =>
    rw [Table.scan, if_neg (by rintro rfl; cases hw), if_neg (by simp [hw]), if_pos hordered]
  | operand hordered hw hws ih =>
    rw [Table.scan, if_neg (by rintro rfl; cases hw), if_neg (by simp [hw]), if_neg (by simp [hordered]), ih]
  | options hspelt hws ih => rw [scan_spells hspelt, ih]

/-- The letters of a word: options without an argument, and at most one with. -/
theorem Table.letters_eq {cs : Word} {wants : Option UInt8} (hletters : T.letters cs = (fs, wants))
    (hknown : Found.unknown ∉ fs) : ∃ pre : Word, (∀ c ∈ pre, T.letter c = some false) ∧
      (cs = pre ∧ fs = Getopt.flags pre ∧ wants = none ∨
        ∃ c arg, cs = pre ++ c :: arg ∧ T.letter c = some true ∧
          (arg ≠ [] ∧ fs = Getopt.flags pre ++ [.option c (some arg)] ∧ wants = none ∨
            arg = [] ∧ fs = Getopt.flags pre ∧ wants = some c)) := by
  induction cs generalizing fs with
  | nil =>
    cases hletters
    exact ⟨[], by simp, .inl ⟨rfl, rfl, rfl⟩⟩
  | cons c cs ih =>
    rw [letters] at hletters
    rcases hc : T.letter c with _ | _ | _
    · rw [hc] at hletters
      cases hletters
      exact absurd List.mem_cons_self hknown
    · rw [hc] at hletters
      cases hletters
      obtain ⟨pre, hpre, hcase⟩ := ih rfl fun hmem => hknown (List.mem_cons_of_mem _ hmem)
      have hpre' : ∀ d ∈ c :: pre, T.letter d = some false := by
        intro d hd
        rcases List.mem_cons.1 hd with rfl | hd
        · exact hc
        · exact hpre d hd
      refine ⟨c :: pre, hpre', ?_⟩
      rcases hcase with ⟨hcs, hfs, hwants⟩ | ⟨d, arg, hcs, hd, harg⟩
      · exact .inl ⟨by rw [← hcs], by rw [hfs]; rfl, hwants⟩
      · refine .inr ⟨d, arg, by rw [hcs]; rfl, hd, ?_⟩
        rcases harg with ⟨hne, hfs, hwants⟩ | ⟨hnil, hfs, hwants⟩
        · exact .inl ⟨hne, by rw [hfs]; rfl, hwants⟩
        · exact .inr ⟨hnil, by rw [hfs]; rfl, hwants⟩
    · rw [hc] at hletters
      by_cases hcs : cs = []
      · simp only [if_pos hcs] at hletters
        cases hletters
        exact ⟨[], by simp, .inr ⟨c, cs, rfl, hc, .inr ⟨hcs, rfl, rfl⟩⟩⟩
      · simp only [if_neg hcs] at hletters
        cases hletters
        exact ⟨[], by simp, .inr ⟨c, cs, rfl, hc, .inl ⟨hcs, rfl, rfl⟩⟩⟩

/-- What a word says is spelt by it, or by it and the next word if it wants one. -/
def Table.Says (T : Table) (w : Word) (fs : List Found) : Option UInt8 → Prop
  | none => T.Spells fs [w]
  | some val => ∀ arg, T.Spells (fs ++ [.option val (some arg)]) [w, arg]

theorem Table.letters_spelt {cs : Word} {wants : Option UInt8} (hne : cs ≠ [])
    (hletters : T.letters cs = (fs, wants)) (hknown : Found.unknown ∉ fs) :
    T.Says ('-'.toUInt8 :: cs) fs wants := by
  obtain ⟨pre, hpre, ⟨rfl, rfl, rfl⟩ | ⟨c, arg, rfl, hc, ⟨hne, rfl, rfl⟩ | ⟨rfl, rfl, rfl⟩⟩⟩ :=
    Table.letters_eq hletters hknown
  · exact .flags hne hpre
  · exact .attached hpre hc hne
  · exact fun arg => .apart hpre hc arg

theorem not_mem_takeWhile (text : Word) : '='.toUInt8 ∉ text.takeWhile (· ≠ '='.toUInt8) := by
  intro hmem
  simpa using List.mem_takeWhile_imp hmem

theorem Table.longWord_spelt {text : Word} {wants : Option UInt8} (hne : text ≠ [])
    (hlong : T.longWord text = (fs, wants)) (hknown : Found.unknown ∉ fs) :
    T.Says (dashes ++ text) fs wants := by
  have hsplit := List.takeWhile_append_dropWhile (p := (· ≠ '='.toUInt8)) (l := text)
  have hname := not_mem_takeWhile text
  obtain ⟨name, hn⟩ : ∃ name, text.takeWhile (· ≠ '='.toUInt8) = name := ⟨_, rfl⟩
  rw [longWord, hn] at hlong
  rw [hn] at hsplit hname
  rcases ho : T.long name with _ | o
  · rw [ho] at hlong
    cases hlong
    exact absurd List.mem_cons_self hknown
  · rcases hrest : text.dropWhile (· ≠ '='.toUInt8) with _ | ⟨d, arg⟩
    · rw [hrest, List.append_nil] at hsplit
      subst hsplit
      rcases harg : o.hasArg with _ | _
      · simp only [ho, hrest, harg, Bool.false_eq_true, if_false, Prod.mk.injEq] at hlong
        obtain ⟨rfl, rfl⟩ := hlong
        exact .long ho hname hne harg
      · simp only [ho, hrest, harg, if_true, Prod.mk.injEq] at hlong
        obtain ⟨rfl, rfl⟩ := hlong
        exact fun arg => .longApart ho hname hne harg arg
    · have hd : d = '='.toUInt8 := by
        have hhead := List.head?_dropWhile_not (· ≠ '='.toUInt8) text
        rw [hrest] at hhead
        simpa using hhead
      rw [hrest, hd] at hsplit
      subst hsplit
      rcases harg : o.hasArg with _ | _
      · simp only [ho, hrest, harg, Bool.false_eq_true, if_false, Prod.mk.injEq] at hlong
        obtain ⟨rfl, rfl⟩ := hlong
        exact absurd List.mem_cons_self hknown
      · simp only [ho, hrest, harg, if_true, Prod.mk.injEq] at hlong
        obtain ⟨rfl, rfl⟩ := hlong
        exact .longAttached ho hname harg arg

theorem Table.word_spelt {w : Word} {wants : Option UInt8} (hdashes : w ≠ dashes) (hw : isOption w = true)
    (hword : T.word w = (fs, wants)) (hknown : Found.unknown ∉ fs) : T.Says w fs wants := by
  rcases w with _ | ⟨d, _ | ⟨c, text⟩⟩
  · cases hw
  · cases hw
  · obtain rfl : d = '-'.toUInt8 := by simpa [isOption] using hw
    rw [word] at hword
    by_cases hc : c = '-'.toUInt8
    · subst hc
      rw [if_pos rfl] at hword
      exact Table.longWord_spelt (fun hnil => hdashes (by rw [hnil]; rfl)) hword hknown
    · rw [if_neg hc] at hword
      exact Table.letters_spelt (by simp) hword hknown

/-- The same of a line, of which the first word is an argument if it is wanted. -/
def Table.Reads (T : Table) (ordered : Bool) (fs : List Found) (os ws : List Word) : Option UInt8 → Prop
  | none => T.Writes ordered fs os ws
  | some val => ∃ arg ws' fs', ws = arg :: ws' ∧ fs = .option val (some arg) :: fs' ∧
      T.Writes ordered fs' os ws'

/-- A line in which no mistake is found is a line of the grammar. -/
theorem Table.reads_of_scan {wants : Option UInt8} (hscan : T.scan ordered wants ws = (fs, os))
    (hknown : Found.unknown ∉ fs) : T.Reads ordered fs os ws wants := by
  induction ws generalizing wants fs os with
  | nil =>
    rcases wants with _ | val
    · cases hscan
      exact .done
    · cases hscan
      exact absurd List.mem_cons_self hknown
  | cons w ws ih =>
    rcases wants with _ | val
    · rw [Table.scan] at hscan
      split_ifs at hscan with hdashes hw hordered
      · cases hscan
        rw [hdashes]
        exact .dashes ws
      · obtain ⟨⟨fs', wants'⟩, hword⟩ : ∃ r, T.word w = r := ⟨_, rfl⟩
        obtain ⟨⟨fs'', os'⟩, hrest⟩ : ∃ r, T.scan ordered wants' ws = r := ⟨_, rfl⟩
        rw [hword] at hscan
        simp only [hrest, Prod.mk.injEq] at hscan
        obtain ⟨rfl, rfl⟩ := hscan
        rw [List.mem_append, not_or] at hknown
        have hspelt := Table.word_spelt hdashes hw hword hknown.1
        have hws := ih hrest hknown.2
        rcases wants' with _ | val
        · exact .options hspelt hws
        · obtain ⟨arg, ws', fs₁, rfl, rfl, hwrites⟩ := hws
          have := Table.Writes.options (hspelt arg) hwrites
          rwa [List.append_assoc] at this
      · cases hscan
        exact .stop hordered (by simpa using hw) ws
      · cases hscan
        exact .operand (by simpa using hordered) (by simpa using hw) (ih rfl hknown)
    · cases hscan
      exact ⟨w, ws, _, rfl, rfl, ih rfl fun hmem => hknown (List.mem_cons_of_mem _ hmem)⟩

theorem Table.Spells.known {ws' : List Word} (hspelt : T.Spells fs ws') : Found.unknown ∉ fs := by
  cases hspelt <;> simp [Getopt.flags]

theorem Table.Writes.known (hw : T.Writes ordered fs os ws) : Found.unknown ∉ fs := by
  induction hw with
  | done => exact List.not_mem_nil
  | dashes ws => exact List.not_mem_nil
  | stop hordered hw ws => exact List.not_mem_nil
  | operand hordered hw hws ih => exact ih
  | options hspelt hws ih => simpa using ⟨hspelt.known, ih⟩

/-- The lines that are read without a mistake are those of the grammar. -/
theorem Table.writes_iff : T.Writes ordered fs os ws ↔
    T.scan ordered none ws = (fs, os) ∧ Found.unknown ∉ fs :=
  ⟨fun hw => ⟨hw.scan, hw.known⟩, fun h => Table.reads_of_scan h.1 h.2⟩

end Spells

section Meaning

/-- The argument that an option gives to a letter. -/
def Found.argOf (c : UInt8) : Found → Option Word
  | .option d arg => if d = c then arg else none
  | .unknown => none

/-- The argument of the last option of a letter. -/
def lastArg (c : UInt8) (fs : List Found) : Option Word := fs.reverse.findSome? (·.argOf c)

def Found.isOf (c : UInt8) : Found → Bool
  | .option d _ => d = c
  | .unknown => false

def given (c : UInt8) (fs : List Found) : Bool := fs.any (·.isOf c)

/-- A letter of the table, with an argument if it takes one. -/
def Found.Fits (T : Table) : Found → Prop
  | .option c arg => T.letter c = some arg.isSome
  | .unknown => False

/-- The long options are other names of the letters. -/
def Table.Consistent (T : Table) : Prop := ∀ o ∈ T.longopts, T.letter o.val = some o.hasArg

instance (T : Table) : Decidable T.Consistent :=
  inferInstanceAs (Decidable (∀ o ∈ T.longopts, T.letter o.val = some o.hasArg))

variable {T : Table} {ordered : Bool} {fs : List Found} {os ws : List Word}

@[simp] theorem lastArg_nil (c : UInt8) : lastArg c [] = none := rfl

@[simp] theorem given_nil (c : UInt8) : given c [] = false := rfl

theorem lastArg_cons (c : UInt8) (f : Found) (fs : List Found) :
    lastArg c (f :: fs) = (lastArg c fs).or (f.argOf c) := by
  simp [lastArg, List.findSome?_append]

theorem given_cons (c : UInt8) (f : Found) (fs : List Found) :
    given c (f :: fs) = (f.isOf c || given c fs) := by
  simp [given]

theorem Table.long_mem {name : Word} {o : LongOption} (ho : T.long name = some o) : o ∈ T.longopts := by
  unfold long at ho
  split at ho
  · rename_i p hfind
    cases ho
    exact List.mem_of_find?_eq_some hfind
  · split at ho
    · cases ho
    · rename_i p ps hfilter
      split_ifs at ho
      cases ho
      exact (List.mem_filter.1 (hfilter ▸ List.mem_cons_self)).1

theorem Table.Spells.fits (hT : T.Consistent) (hspelt : T.Spells fs ws) : ∀ f ∈ fs, f.Fits T := by
  have hflags {cs : Word} (hcs : ∀ c ∈ cs, T.letter c = some false) : ∀ f ∈ Getopt.flags cs, f.Fits T := by
    intro f hf
    obtain ⟨c, hc, rfl⟩ := List.mem_map.1 hf
    exact hcs c hc
  have hwith {cs arg : Word} {c : UInt8} (hcs : ∀ c ∈ cs, T.letter c = some false)
      (hc : T.letter c = some true) : ∀ f ∈ Getopt.flags cs ++ [.option c (some arg)], f.Fits T := by
    intro f hf
    rcases List.mem_append.1 hf with hf | hf
    · exact hflags hcs f hf
    · rw [List.mem_singleton.1 hf]
      exact hc
  have hlong {name : Word} {o : LongOption} {arg : Option Word} (ho : T.long name = some o)
      (harg : o.hasArg = arg.isSome) : ∀ f ∈ [Found.option o.val arg], f.Fits T := by
    intro f hf
    rw [List.mem_singleton.1 hf, Found.Fits, ← harg]
    exact hT o (Table.long_mem ho)
  cases hspelt with
  | flags hne hcs => exact hflags hcs
  | attached hcs hc harg => exact hwith hcs hc
  | apart hcs hc arg => exact hwith hcs hc
  | long ho hname hne harg => exact hlong ho harg
  | longAttached ho hname harg arg => exact hlong ho harg
  | longApart ho hname hne harg arg => exact hlong ho harg

theorem Table.Writes.fits (hT : T.Consistent) (hw : T.Writes ordered fs os ws) : ∀ f ∈ fs, f.Fits T := by
  induction hw with
  | done => simp
  | dashes ws => simp
  | stop hordered hw ws => simp
  | operand hordered hw hws ih => exact ih
  | options hspelt hws ih =>
    intro f hf
    rcases List.mem_append.1 hf with hf | hf
    · exact hspelt.fits hT f hf
    · exact ih f hf

theorem Table.mem_optstring {c : UInt8} {b : Bool} (hc : T.letter c = some b) : c ∈ T.optstring := by
  unfold letter at hc
  split_ifs at hc
  split at hc
  · cases hc
  · rename_i d rest hdrop
    have hd := List.head?_dropWhile_not (· ≠ c) T.optstring
    rw [hdrop] at hd
    obtain rfl : d = c := by simpa using hd
    exact (List.dropWhile_sublist _).subset (hdrop ▸ List.mem_cons_self)

/-- A program that ends at a mistake does not get past one. -/
theorem foldlM_unknown {α ε : Type} {take : α → Found → Except ε α}
    (htake : ∀ a, ∃ e, take a .unknown = .error e) (hmem : Found.unknown ∈ fs) (a : α) :
    ∃ e, fs.foldlM take a = .error e := by
  induction fs generalizing a with
  | nil => cases hmem
  | cons f fs ih =>
    rw [List.foldlM_cons]
    rcases ha : take a f with e | a'
    · exact ⟨e, rfl⟩
    · rcases List.mem_cons.1 hmem with rfl | hmem
      · obtain ⟨e, he⟩ := htake a
        rw [he] at ha
        cases ha
      · exact ih hmem a'

/-- What an option of the table changes, or the value of one that ends the program. -/
theorem foldlM_take {α ε : Type} {take : α → Found → Except ε α} {ends : Found → Bool} {code : Found → ε}
    {asked : α → Found → α}
    (htake : ∀ a, ∀ f ∈ fs, take a f = if ends f then .error (code f) else .ok (asked a f)) (a : α) :
    fs.foldlM take a =
      match fs.find? ends with
      | some f => .error (code f)
      | none => .ok (fs.foldl asked a) := by
  induction fs generalizing a with
  | nil => rfl
  | cons f fs ih =>
    rw [List.foldlM_cons, htake a f List.mem_cons_self, List.find?_cons]
    rcases hends : ends f with _ | _
    · exact ih (fun a g hg => htake a g (List.mem_cons_of_mem f hg)) (asked a f)
    · rfl

end Meaning

end Getopt
