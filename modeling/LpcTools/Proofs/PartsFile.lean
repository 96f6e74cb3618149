import LpcTools.Parts
import LpcTools.Lib.Numerals

/-!
# The parts file

The format of a line of the parts file, as its comment documents it, over what may stand for a number
and between the items. A line in it is read back by `find_part_in_file` whatever follows in the
buffer. The pieces `fgets` cuts the file into are its lines as long as these fit.
-/

namespace LpcTools

open Decimal

/-- How a line is written: its id, its values, what may stand before an item and behind the last. -/
structure Format where
  Id : List UInt8 → ℕ → Prop
  Value : List UInt8 → ℕ → Prop
  Gap : List UInt8 → Prop
  Trail : List UInt8 → Prop

variable {F F' : Format}

/-- The values of a line, each but the last immediately followed by a comma. -/
inductive Format.Values (F : Format) : List UInt8 → List ℕ → Prop
  | last {w t trail : List UInt8} {v : ℕ} :
      F.Gap w → F.Value t v → F.Trail trail → F.Values (w ++ (t ++ trail)) [v]
  | next {w t rest : List UInt8} {v : ℕ} {vs : List ℕ} : F.Gap w → F.Value t v →
      F.Values rest vs → F.Values (w ++ (t ++ ','.toUInt8 :: rest)) (v :: vs)

/-- A name of a part. -/
structure IsName (name : List UInt8) : Prop where
  starts : bytes ['L', 'P', 'C'] <+: name
  length : name.length < partNameLength
  comma : ','.toUInt8 ∉ name
  ended : 0 ∉ name

/-- A line with the id and the name of a part, and its values. -/
def Format.Line (F : Format) (line : List UInt8) (id : ℕ) (name : List UInt8) (vs : List ℕ) :
    Prop :=
  ∃ w t w' rest, line = w ++ (t ++ ','.toUInt8 :: (w' ++ (name ++ ','.toUInt8 :: rest))) ∧
    F.Gap w ∧ F.Id t id ∧ F.Gap w' ∧ IsName name ∧ F.Values rest vs ∧ vs.length = nval

/-- The documented format: numbers as in C, values that fit 32 bits, white space before items. -/
def documented : Format where
  Id := fun t v => numberValue t = some v
  Value := fun t v => numberValue t = some v ∧ v < 2 ^ 32
  Gap := Blank
  Trail := Blank

/-- A number in `0x` form, or in decimal as it is printed. -/
def Written (t : List UInt8) (v : ℕ) : Prop :=
  t = decimal v ∨ ∃ d ds, t = '0'.toUInt8 :: 'x'.toUInt8 :: d :: ds ∧ digitsValue 16 (d :: ds) = some v

/-- A line as it is written: spaces and tabs before items, and nothing behind the last. -/
def plain : Format where
  Id := fun t v => Written t v ∧ v < 2 ^ 32
  Value := fun t v => Written t v ∧ v < 2 ^ 32
  Gap := fun w => ∀ c ∈ w, c = ' '.toUInt8 ∨ c = '\t'.toUInt8
  Trail := fun trail => trail = []

section Formats

theorem Format.Line.length {l name : List UInt8} {id : ℕ} {vs : List ℕ} (h : F.Line l id name vs) :
    vs.length = nval := by
  obtain ⟨w, t, w', rest, -, -, -, -, -, -, hlen⟩ := h
  exact hlen

theorem Format.Values.mono (hvalue : ∀ t v, F.Value t v → F'.Value t v)
    (hgap : ∀ w, F.Gap w → F'.Gap w) (htrail : ∀ w, F.Trail w → F'.Trail w) {rest : List UInt8}
    {vs : List ℕ} (h : F.Values rest vs) : F'.Values rest vs := by
  induction h with
  | last hw ht htr => exact .last (hgap _ hw) (hvalue _ _ ht) (htrail _ htr)
  | next hw ht _ ih => exact .next (hgap _ hw) (hvalue _ _ ht) ih

theorem numberValue_of_written {t : List UInt8} {v : ℕ} (h : Written t v) :
    numberValue t = some v := by
  rcases h with rfl | ⟨d, ds, rfl, hv⟩
  · exact numberValue_decimal v
  · exact hv

theorem blank_of_spaces {w : List UInt8} (h : plain.Gap w) : Blank w := by
  intro c hc
  rcases h c hc with rfl | rfl <;> rfl

/-- A line as it is written is in the documented format. -/
theorem documented_of_plain {line name : List UInt8} {id : ℕ} {vs : List ℕ}
    (h : plain.Line line id name vs) : documented.Line line id name vs := by
  obtain ⟨w, t, w', rest, hline, hw, ht, hw', hname, hvs, hlen⟩ := h
  refine ⟨w, t, w', rest, hline, blank_of_spaces hw, numberValue_of_written ht.1,
    blank_of_spaces hw', hname, hvs.mono ?_ (fun _ => blank_of_spaces) ?_, hlen⟩
  · exact fun t v hv => ⟨numberValue_of_written hv.1, hv.2⟩
  · rintro trail rfl c hc
    cases hc

end Formats

section Scan

variable (einval : Bool)

theorem endsNumber_of_isSpace {c : UInt8} (hc : isSpace c = true) : EndsNumber c := by
  have hlt : c.toNat ≤ 13 ∨ c.toNat = 32 := by
    simp only [isSpace, Bool.or_eq_true, beq_iff_eq, Bool.and_eq_true, decide_eq_true_eq,
      UInt8.le_iff_toNat_le] at hc
    rcases hc with rfl | ⟨-, hc⟩
    · exact .inr rfl
    · exact .inl hc
  have hdigit : digitValue c = none := by
    simp only [digitValue, UInt8.le_iff_toNat_le]
    rw [if_neg, if_neg, if_neg]
    · rintro ⟨h, -⟩
      change 65 ≤ c.toNat at h
      omega
    · rintro ⟨h, -⟩
      change 97 ≤ c.toNat at h
      omega
    · rintro ⟨h, -⟩
      change 48 ≤ c.toNat at h
      omega
  refine ⟨by rw [digitIn, hdigit]; rfl, ?_, ?_⟩
  · rintro rfl
    exact absurd hdigit (by decide)
  · rintro rfl
    exact absurd hdigit (by decide)

/-- What may follow the text of a line: its line feed, or only the end of the string. -/
def LineEnd (e : List UInt8) : Prop := e = [0] ∨ e = ['\n'.toUInt8, 0]

theorem LineEnd.head {e : List UInt8} (he : LineEnd e) {trail : List UInt8} (ht : Blank trail) :
    ∃ c r, trail ++ e = c :: r ∧ EndsNumber c := by
  rcases trail with _ | ⟨c, trail⟩
  · rcases he with rfl | rfl
    · exact ⟨0, [], rfl, by decide⟩
    · exact ⟨'\n'.toUInt8, [0], rfl, by decide⟩
  · exact ⟨c, trail ++ e, rfl, endsNumber_of_isSpace (ht c List.mem_cons_self)⟩

/-- One value is read off the text behind the character that is passed over. -/
theorem readValues_number {w t : List UInt8} {v : ℕ} (hw : Blank w) (ht : numberValue t = some v)
    (hv : v < 2 ^ 32) {c : UInt8} (hc : EndsNumber c) (r : List UInt8) (n : ℕ) (p : UInt8) :
    readValues einval (n + 1) (p :: (w ++ (t ++ c :: r))) =
      (UInt32.ofNat v :: ·) <$> readValues einval n (c :: r) := by
  have hne : t ≠ [] := by
    rintro rfl
    simp [numberValue] at ht
  have hlen : ¬ (c :: r).length = (w ++ (t ++ c :: r)).length := by
    have := List.length_pos_iff.2 hne
    simp only [List.length_append]
    omega
  have hread := strtoul_number hw ht (by rw [ulongMax]; omega) hc r
  rw [readValues, if_neg (List.cons_ne_nil _ _), List.tail_cons]
  simp only [ofOption, pure_bind, hread, hlen, and_false, if_false]
  rfl

theorem readValues_of_values {rest : List UInt8} {vs : List ℕ} (h : documented.Values rest vs)
    {e : List UInt8} (he : LineEnd e) (p : UInt8) :
    readValues einval vs.length (p :: (rest ++ e)) = .ok (vs.map UInt32.ofNat) := by
  induction h generalizing p with
  | last hw ht htrail =>
    obtain ⟨c, r, hcr, hc⟩ := he.head htrail
    rw [List.append_assoc, List.append_assoc, hcr, List.length_singleton,
      readValues_number einval hw ht.1 ht.2 hc]
    rfl
  | next hw ht _ ih =>
    rw [List.append_assoc, List.append_assoc, List.cons_append, List.length_cons,
      readValues_number einval hw ht.1 ht.2 (by decide), ih]
    rfl

theorem skipToName_gap {w : List UInt8} (hw : Blank w) (r : List UInt8) :
    skipToName (w ++ 'L'.toUInt8 :: r) = .ok ('L'.toUInt8 :: r) := by
  induction w with
  | nil => rfl
  | cons c w ih =>
    have hspace := hw c List.mem_cons_self
    have hc : c ≠ 0 ∧ c ≠ 'L'.toUInt8 := by
      constructor <;> rintro rfl <;> exact absurd hspace (by decide)
    rw [List.cons_append, skipToName, if_pos hc]
    exact ih fun d hd => hw d (List.mem_cons_of_mem _ hd)

theorem copyName_eq : ∀ {name : List UInt8} {n : ℕ}, name.length ≤ n → ','.toUInt8 ∉ name →
    0 ∉ name → ∀ r, copyName n (name ++ ','.toUInt8 :: r) = .ok (name, ','.toUInt8 :: r)
  | [], 0, _, _, _, r => rfl
  | [], n + 1, _, _, _, r => rfl
  | c :: name, 0, hlen, _, _, r => absurd hlen (by simp)
  | c :: name, n + 1, hlen, hcomma, hzero, r => by
    have hc : c ≠ 0 := fun he => hzero (he ▸ List.mem_cons_self)
    have hc' : c ≠ ','.toUInt8 := fun he => hcomma (he ▸ List.mem_cons_self)
    rw [List.cons_append, copyName, if_neg hc, if_neg hc', copyName_eq
      (Nat.le_of_succ_le_succ hlen) (fun hm => hcomma (List.mem_cons_of_mem _ hm))
      (fun hm => hzero (List.mem_cons_of_mem _ hm))]
    rfl

/-- What is scanned of a line in the documented format: its id first, and its name and values from
there. -/
theorem scan_of_line {line name : List UInt8} {id : ℕ} {vs : List ℕ}
    (h : documented.Line line id name vs) (hid : id < 2 ^ 64) {e : List UInt8} (he : LineEnd e) :
    ∃ u, strtoul 0 (line ++ e) = some (id, u) ∧
      readPart einval u = .ok (name, vs.map UInt32.ofNat) := by
  obtain ⟨w, t, w', rest, rfl, hw, ht, hw', hname, hvs, hlen⟩ := h
  refine ⟨','.toUInt8 :: (w' ++ (name ++ ','.toUInt8 :: rest)) ++ e, ?_, ?_⟩
  · rw [List.append_assoc, List.append_assoc]
    exact strtoul_number hw ht (by rw [ulongMax]; omega) (by decide) _
  · obtain ⟨tail, rfl⟩ := hname.starts
    have hskip : skipToName (','.toUInt8 :: (w' ++
        (bytes ['L', 'P', 'C'] ++ tail ++ ','.toUInt8 :: rest)) ++ e) =
        .ok (bytes ['L', 'P', 'C'] ++ tail ++ ','.toUInt8 :: (rest ++ e)) := by
      rw [List.cons_append, List.append_assoc, List.append_assoc, List.cons_append, skipToName,
        if_pos (by decide)]
      exact skipToName_gap hw' _
    have hcopy := copyName_eq (Nat.le_of_lt hname.length) hname.comma hname.ended (rest ++ e)
    have hvalues := readValues_of_values einval hvs he ','.toUInt8
    rw [hlen] at hvalues
    unfold readPart
    rw [hskip]
    change (copyName partNameLength _ >>= fun copied =>
      readValues einval nval copied.2 >>= fun values => pure (copied.1, values)) = _
    rw [hcopy]
    change (readValues einval nval _ >>= fun values => pure (_, values)) = _
    rw [hvalues]
    rfl

end Scan

/-- The lines of a file, of which the last may be empty. -/
def linesOf : List UInt8 → List (List UInt8)
  | [] => [[]]
  | c :: file =>
    if c = '\n'.toUInt8 then [] :: linesOf file
    else (c :: (linesOf file).headD []) :: (linesOf file).tail

section Pieces

theorem linesOf_ne_nil (file : List UInt8) : linesOf file ≠ [] := by
  rcases file with _ | ⟨c, file⟩
  · simp [linesOf]
  · rw [linesOf]
    split_ifs <;> simp

/-- The first line with what `fgets` makes of it, if it has room for it. -/
theorem takeLine_linesOf : ∀ {n : ℕ} {file l : List UInt8} {ls : List (List UInt8)},
    linesOf file = l :: ls → l.length < n →
    ls = [] ∧ takeLine n file = (file, []) ∧ file = l ∨
      ∃ rest, takeLine n file = (l ++ ['\n'.toUInt8], rest) ∧ linesOf rest = ls
  | 0, file, l, ls, _, hlt => absurd hlt (Nat.not_lt_zero _)
  | n + 1, [], l, ls, h, _ => by
    cases h
    exact .inl ⟨rfl, rfl, rfl⟩
  | n + 1, c :: file, l, ls, h, hlt => by
    rw [linesOf] at h
    by_cases hc : c = '\n'.toUInt8
    · rw [if_pos hc] at h
      cases h
      refine .inr ⟨file, ?_, rfl⟩
      rw [takeLine, if_pos hc, hc]
      rfl
    · rw [if_neg hc] at h
      cases h
      rcases hfile : linesOf file with _ | ⟨l, ls⟩
      · exact absurd hfile (linesOf_ne_nil file)
      · rw [hfile] at hlt
        rw [takeLine, if_neg hc]
        simp only [List.headD_cons, List.tail_cons, List.length_cons] at hlt ⊢
        rcases takeLine_linesOf hfile (Nat.lt_of_succ_lt_succ hlt) with ⟨rfl, ht, rfl⟩ | ⟨rest, ht, hr⟩
        · exact .inl ⟨rfl, by rw [ht], rfl⟩
        · exact .inr ⟨rest, by rw [ht]; rfl, hr⟩

/-- The lines as `fgets` gives them. -/
def lineFed : List (List UInt8) → List (List UInt8)
  | [] => []
  | [l] => if l = [] then [] else [l]
  | l :: ls => (l ++ ['\n'.toUInt8]) :: lineFed ls

/-- Where every line fits, the pieces are the lines. -/
theorem pieces_eq (file : List UInt8)
    (hfit : ∀ l ∈ linesOf file, l.length < confReadBufSize - 1) :
    pieces file = lineFed (linesOf file) := by
  induction hn : file.length using Nat.strongRecOn generalizing file with
  | ind n ih =>
    rcases file with _ | ⟨c, file⟩
    · rw [pieces]
      rfl
    · rcases hlines : linesOf (c :: file) with _ | ⟨l, ls⟩
      · exact absurd hlines (linesOf_ne_nil _)
      · have hlt : l.length < confReadBufSize - 1 := hfit l (by rw [hlines]; exact List.mem_cons_self)
        rw [pieces]
        rcases takeLine_linesOf hlines hlt with ⟨rfl, ht, rfl⟩ | ⟨rest, ht, rfl⟩
        · rw [ht, pieces]
          rfl
        · have happ := congrArg List.length (takeLine_append (confReadBufSize - 1) (c :: file))
          rw [ht, List.length_append, List.length_append, List.length_singleton] at happ
          have hrest := ih rest.length (by simp only [] at happ; omega) rest (fun l' hl' => hfit l' (by
            rw [hlines]
            exact List.mem_cons_of_mem _ hl')) rfl
          rw [ht, hrest]
          rcases hr : linesOf rest with _ | ⟨l', ls'⟩
          · exact absurd hr (linesOf_ne_nil rest)
          · rfl

theorem lineFed_append (pre : List (List UInt8)) (l : List UInt8) (ls : List (List UInt8)) :
    lineFed (pre ++ l :: ls) = pre.map (· ++ ['\n'.toUInt8]) ++ lineFed (l :: ls) := by
  induction pre with
  | nil => rfl
  | cons l' pre ih =>
    rw [List.cons_append, List.map_cons, List.cons_append, ← ih]
    rcases pre with _ | ⟨l'', pre⟩ <;> rfl

/-- A piece is a line, with its line feed but for the last. -/
theorem mem_lineFed {p : List UInt8} : ∀ {ls : List (List UInt8)}, p ∈ lineFed ls →
    ∃ l ∈ ls, p = l ++ ['\n'.toUInt8] ∨ p = l ∧ l ≠ []
  | [], h => by cases h
  | [l], h => by
    rw [lineFed] at h
    split_ifs at h with hl
    · cases h
    · rw [List.mem_singleton.1 h]
      exact ⟨l, List.mem_cons_self, .inr ⟨rfl, hl⟩⟩
  | l :: l' :: ls, h => by
    rcases List.mem_cons.1 h with rfl | h
    · exact ⟨l, List.mem_cons_self, .inl rfl⟩
    · obtain ⟨m, hm, hp⟩ := mem_lineFed h
      exact ⟨m, List.mem_cons_of_mem _ hm, hp⟩

end Pieces

end LpcTools
