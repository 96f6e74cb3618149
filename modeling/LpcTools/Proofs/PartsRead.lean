import LpcTools.Proofs.PartsFile

/-!
# What `find_part_in_file` finds

It looks at the first piece of the file that starts with the id. Where the file is written in the
documented format, in lines that fit the buffer, this is the first line with the id, and what is read
off it are its name and its values.
-/

namespace LpcTools

open Decimal

section Append

variable {s t : List UInt8}

theorem skipToName_append {s' : List UInt8} (h : skipToName s = .ok s') (t : List UInt8) :
    skipToName (s ++ t) = .ok (s' ++ t) := by
  induction s with
  | nil => cases h
  | cons c s ih =>
    rw [skipToName] at h
    rw [List.cons_append, skipToName]
    split_ifs at h ⊢
    · exact ih h
    · cases h
      rfl

theorem skipToName_ne_refused (s : List UInt8) : skipToName s ≠ .error .refused := by
  induction s with
  | nil => simp [skipToName, throw, throwThe, MonadExceptOf.throw]
  | cons c s ih =>
    rw [skipToName]
    split_ifs
    · exact ih
    · exact fun h => by cases h

theorem copyName_append (t : List UInt8) : ∀ (n : ℕ) (s : List UInt8),
    (∀ name e, copyName n s = .ok (name, e) → copyName n (s ++ t) = .ok (name, e ++ t)) ∧
      (copyName n s = .error .refused → copyName n (s ++ t) = .error .refused)
  | 0, [] => ⟨fun _ _ h => (by cases h), fun h => (by cases h)⟩
  | _ + 1, [] => ⟨fun _ _ h => (by cases h), fun h => (by cases h)⟩
  | 0, c :: s => by
    rw [List.cons_append, copyName, copyName]
    split_ifs
    · exact ⟨fun name e h => by cases h; rfl, fun h => by cases h⟩
    · exact ⟨fun name e h => (by cases h), fun _ => rfl⟩
  | n + 1, c :: s => by
    obtain ⟨ihok, ihref⟩ := copyName_append t n s
    rw [List.cons_append, copyName, copyName]
    split_ifs
    · exact ⟨fun name e h => (by cases h), fun _ => rfl⟩
    · exact ⟨fun name e h => by cases h; rfl, fun h => by cases h⟩
    · rcases hr : copyName n s with _ | ⟨name, e⟩
      · rename_i err
        cases err
        · exact ⟨fun _ _ h => (by cases h), fun h => (by cases h)⟩
        · rw [ihref hr]
          exact ⟨fun _ _ h => (by cases h), fun h => h⟩
      · rw [ihok name e hr]
        exact ⟨fun _ _ h => by cases h; rfl, fun h => (by cases h)⟩

/-- What is scanned without running out of the text is scanned of any text that goes on. -/
theorem readValues_append (einval : Bool) (t : List UInt8) : ∀ (n : ℕ) (s : List UInt8),
    readValues einval n s ≠ .error .past → readValues einval n (s ++ t) = readValues einval n s
  | 0, _, _ => rfl
  | n + 1, [], h => absurd rfl h
  | n + 1, c :: s, h => by
    rw [readValues, if_neg (List.cons_ne_nil _ _), List.tail_cons] at h
    rw [List.cons_append, readValues, readValues, if_neg (List.cons_ne_nil _ _),
      if_neg (List.cons_ne_nil _ _), List.tail_cons, List.tail_cons]
    simp only [ofOption, pure_bind] at h ⊢
    rcases hr : strtoul 0 s with _ | ⟨v, e⟩
    · rw [hr] at h
      exact absurd rfl h
    · rw [hr] at h
      rw [strtoul_append hr t]
      simp only [pure_bind, List.length_append, Nat.add_right_cancel_iff] at h ⊢
      split_ifs at h ⊢
      · rfl
      · have hne : readValues einval n e ≠ .error .past := by
          intro hpast
          rw [hpast] at h
          exact h rfl
        rw [readValues_append einval t n e hne]

theorem readPart_append (einval : Bool) {s : List UInt8} (t : List UInt8)
    (h : readPart einval s ≠ .error .past) : readPart einval (s ++ t) = readPart einval s := by
  unfold readPart at h ⊢
  rcases hskip : skipToName s with err | s₁
  · rw [hskip] at h
    cases err
    · exact absurd rfl h
    · exact absurd hskip (skipToName_ne_refused s)
  · rw [hskip] at h
    rw [skipToName_append hskip t]
    change (copyName partNameLength s₁ >>= _) ≠ _ at h
    change copyName partNameLength (s₁ ++ t) >>= _ = copyName partNameLength s₁ >>= _
    obtain ⟨hok, href⟩ := copyName_append t partNameLength s₁
    rcases hcopy : copyName partNameLength s₁ with err | ⟨name, e⟩
    · rw [hcopy] at h
      cases err
      · exact absurd rfl h
      · rw [href hcopy]
    · rw [hcopy] at h
      rw [hok name e hcopy]
      change (readValues einval nval e >>= _) ≠ _ at h
      change readValues einval nval (e ++ t) >>= _ = readValues einval nval e >>= _
      rw [readValues_append einval t nval e fun hpast => h (by rw [hpast]; rfl)]

end Append

section Find

variable (einval : Bool) {buffer : ℕ → List UInt8 → List UInt8} {id line : ℕ}
  {p : List UInt8} {ps : List (List UInt8)}

/-- A buffer holds the piece it is asked for as a string. -/
def Holds (buffer : ℕ → List UInt8 → List UInt8) : Prop := ∀ line p, ∃ t, buffer line p = p ++ [0] ++ t

theorem holds_lineBuffer (stale : ℕ → ℕ → UInt8) : Holds (lineBuffer stale) := fun line p =>
  ⟨(List.range (confReadBufSize - 1 - p.length)).map (stale line), by simp [lineBuffer]⟩

/-- The piece is no comment, and starts with the id; `u` is what follows it. -/
def StartsWith (id : ℕ) (p u : List UInt8) : Prop :=
  isSkipped p = false ∧ strtoul 0 (p ++ [0]) = some (id, u)

theorem findIn_other (hbuffer : Holds buffer) (hp : ∀ u, ¬ StartsWith id p u) :
    findIn einval buffer id line (p :: ps) = findIn einval buffer id (line + 1) ps := by
  rw [findIn]
  by_cases hskip : isSkipped p = true
  · rw [if_pos hskip]
  · rw [if_neg hskip]
    obtain ⟨t, ht⟩ := hbuffer line p
    obtain ⟨v, u, hv⟩ := strtoul_terminated 0 p
    have hne : v ≠ id := by
      rintro rfl
      exact hp _ ⟨Bool.eq_false_iff.2 hskip, hv⟩
    rw [ht, strtoul_append hv t]
    simp only [ofOption, pure_bind, if_pos hne]

theorem findIn_others (hbuffer : Holds buffer) : ∀ {pre : List (List UInt8)} {line : ℕ},
    (∀ p ∈ pre, ∀ u, ¬ StartsWith id p u) →
    findIn einval buffer id line (pre ++ ps) = findIn einval buffer id (line + pre.length) ps
  | [], line, _ => rfl
  | p :: pre, line, h => by
    rw [List.cons_append, findIn_other einval hbuffer (h p List.mem_cons_self),
      findIn_others hbuffer fun q hq => h q (List.mem_cons_of_mem _ hq), List.length_cons]
    congr 1
    omega

/-- The search ends at the first piece with the id. -/
theorem findIn_first (hbuffer : Holds buffer) {u : List UInt8} (hp : StartsWith id p u) :
    ∃ t, buffer line p = p ++ [0] ++ t ∧ findIn einval buffer id line (p :: ps) =
      (fun r => PartEntry.mk id r.1 (.ofValues r.2)) <$> readPart einval (u ++ t) := by
  obtain ⟨hskip, hv⟩ := hp
  obtain ⟨t, ht⟩ := hbuffer line p
  refine ⟨t, ht, ?_⟩
  rw [findIn, if_neg (by simp [hskip]), ht, strtoul_append hv t]
  simp only [ofOption, pure_bind, ne_eq, not_true_eq_false, if_false]
  rfl

end Find

section WellWritten

/-- A line that fits the buffer, and is a comment, empty, or a part as it is written. -/
structure WellWritten (l : List UInt8) : Prop where
  fits : l.length < confReadBufSize - 1
  kind : l = [] ∨ l.head? = some '#'.toUInt8 ∨ ∃ id name vs, plain.Line l id name vs

theorem Format.Line.ne_nil {F : Format} {l name : List UInt8} {id : ℕ} {vs : List ℕ}
    (h : F.Line l id name vs) : l ≠ [] := by
  obtain ⟨w, t, w', rest, rfl, -⟩ := h
  simp

/-- A piece of the file that is all of a line, with its line feed or at the end of the file. -/
def Whole (l p : List UInt8) : Prop := p = l ++ ['\n'.toUInt8] ∨ p = l

theorem Whole.lineEnd {l p : List UInt8} (h : Whole l p) : ∃ e, LineEnd e ∧ p ++ [0] = l ++ e := by
  rcases h with rfl | rfl
  · exact ⟨['\n'.toUInt8, 0], .inr rfl, List.append_assoc _ _ _⟩
  · exact ⟨[0], .inl rfl, rfl⟩

theorem Whole.head {l p : List UInt8} (h : Whole l p) (hl : l ≠ []) : p.head? = l.head? := by
  rcases h with rfl | rfl
  · rcases l with _ | ⟨c, l⟩
    · exact absurd rfl hl
    · rfl
  · rfl

/-- A line of a part does not start as a comment does. -/
theorem head_of_line {l name : List UInt8} {id : ℕ} {vs : List ℕ}
    (h : documented.Line l id name vs) : l.head? ≠ some '#'.toUInt8 := by
  obtain ⟨w, t, w', rest, rfl, hw, ht, -⟩ := h
  rcases w with _ | ⟨c, w⟩
  · obtain ⟨base, -, d, ds, -, -, e, es, rfl, he⟩ :=
      takePrefix_number ht (show EndsNumber 0 by decide) []
    rintro ⟨⟩
    exact absurd he (by decide)
  · rintro ⟨⟩
    exact absurd (hw _ List.mem_cons_self) (by decide)

theorem not_skipped_of_line {l p name : List UInt8} {id : ℕ} {vs : List ℕ}
    (h : documented.Line l id name vs) (hfeed : '\n'.toUInt8 ∉ l) (hp : Whole l p) :
    isSkipped p = false := by
  have hne : l.head? ≠ some '\n'.toUInt8 := fun he => hfeed (List.mem_of_mem_head? he)
  rw [isSkipped, hp.head h.ne_nil, decide_eq_false (head_of_line h), decide_eq_false hne]
  rfl

/-- What the search finds where a line of a part is all of a piece. -/
theorem startsWith_of_line {l p name : List UInt8} {id : ℕ} {vs : List ℕ}
    (h : documented.Line l id name vs) (hid : id < 2 ^ 64) (hfeed : '\n'.toUInt8 ∉ l)
    (hp : Whole l p) (einval : Bool) : ∃ u, StartsWith id p u ∧
      readPart einval u = .ok (name, vs.map UInt32.ofNat) := by
  obtain ⟨e, he, hpe⟩ := hp.lineEnd
  obtain ⟨u, hv, hread⟩ := scan_of_line einval h hid he
  exact ⟨u, ⟨not_skipped_of_line h hfeed hp, hpe ▸ hv⟩, hread⟩

theorem StartsWith.unique {p u u' : List UInt8} {id id' : ℕ} (h : StartsWith id p u)
    (h' : StartsWith id' p u') : id = id' ∧ u = u' := by
  have heq := h.2.symm.trans h'.2
  cases heq
  exact ⟨rfl, rfl⟩

theorem feed_not_mem : ∀ {file l : List UInt8}, l ∈ linesOf file → '\n'.toUInt8 ∉ l
  | [], l, h => by
    rw [linesOf, List.mem_singleton] at h
    rw [h]
    exact List.not_mem_nil
  | c :: file, l, h => by
    rw [linesOf] at h
    split_ifs at h with hc
    · rcases List.mem_cons.1 h with rfl | h
      · exact List.not_mem_nil
      · exact feed_not_mem h
    · rcases hfile : linesOf file with _ | ⟨l', ls⟩
      · exact absurd hfile (linesOf_ne_nil file)
      · have hrest : ∀ l ∈ l' :: ls, '\n'.toUInt8 ∉ l := fun l hl => feed_not_mem (hfile ▸ hl)
        rw [hfile] at h
        rcases List.mem_cons.1 h with rfl | h
        · intro hm
          rcases List.mem_cons.1 hm with he | hm
          · exact hc he.symm
          · exact hrest l' List.mem_cons_self hm
        · exact hrest l (List.mem_cons_of_mem _ h)

/-- A piece that is another line. -/
theorem WellWritten.other {l : List UInt8} (hl : WellWritten l) (hfeed : '\n'.toUInt8 ∉ l) {id : ℕ}
    (hid : ∀ name vs, ¬ plain.Line l id name vs) {p : List UInt8}
    (hp : p = l ++ ['\n'.toUInt8] ∨ p = l ∧ l ≠ []) (u : List UInt8) : ¬ StartsWith id p u := by
  intro hs
  have hwhole : Whole l p := hp.imp_right And.left
  rcases hl.kind with rfl | hhead | ⟨id', name, vs, hline⟩
  · rcases hp with rfl | ⟨-, hne⟩
    · exact absurd hs.1 (by decide)
    · exact hne rfl
  · have hne : l ≠ [] := by
      rintro rfl
      cases hhead
    have hskip := hs.1
    rw [isSkipped, hwhole.head hne, hhead] at hskip
    exact absurd hskip (by decide)
  · have hid' : id' < 2 ^ 64 := by
      obtain ⟨w, t, w', rest, -, -, ht, -⟩ := hline
      have := ht.2
      omega
    obtain ⟨u', hs', -⟩ := startsWith_of_line (documented_of_plain hline) hid' hfeed hwhole true
    obtain ⟨rfl, -⟩ := hs'.unique hs
    exact hid name vs hline

end WellWritten

section Read

variable {file : List UInt8} (hfile : ∀ l ∈ linesOf file, WellWritten l) (einval : Bool)
  (stale : ℕ → ℕ → UInt8) (id : UInt64)

include hfile

/-- The first line with the id is found and read. -/
theorem findPartInFile_line {pre post : List (List UInt8)} {l name : List UInt8} {vs : List ℕ}
    (hsplit : linesOf file = pre ++ l :: post)
    (hpre : ∀ l' ∈ pre, ∀ name' vs', ¬ plain.Line l' id.toNat name' vs')
    (hline : plain.Line l id.toNat name vs) : findPartInFile einval stale id (some file) =
      some (some ⟨id.toNat, name, .ofValues (vs.map UInt32.ofNat)⟩) := by
  have hmem : ∀ l' ∈ pre ++ l :: post, l' ∈ linesOf file := fun l' hl' => hsplit ▸ hl'
  have hfeed : ∀ l' ∈ pre ++ l :: post, '\n'.toUInt8 ∉ l' := fun l' hl' => feed_not_mem (hmem l' hl')
  have hl := List.mem_append_right pre (List.mem_cons_self (a := l) (l := post))
  obtain ⟨p, ps, hlast, hwhole⟩ : ∃ p ps, lineFed (l :: post) = p :: ps ∧ Whole l p := by
    rcases post with _ | ⟨l', post⟩
    · exact ⟨l, [], if_neg hline.ne_nil, .inr rfl⟩
    · exact ⟨_, _, rfl, .inl rfl⟩
  obtain ⟨u, hs, hread⟩ := startsWith_of_line (documented_of_plain hline) id.toNat_lt (hfeed l hl)
    hwhole einval
  have hothers : ∀ p ∈ pre.map (· ++ ['\n'.toUInt8]), ∀ u, ¬ StartsWith id.toNat p u := by
    intro q hq u
    obtain ⟨l', hl', rfl⟩ := List.mem_map.1 hq
    have hl'' := List.mem_append_left (l :: post) hl'
    exact (hfile l' (hmem l' hl'')).other (hfeed l' hl'') (hpre l' hl') (.inl rfl) u
  have hfind : findIn einval (lineBuffer stale) id.toNat 1 (pieces file) =
      .ok ⟨id.toNat, name, .ofValues (vs.map UInt32.ofNat)⟩ := by
    rw [pieces_eq file fun l' hl' => (hfile l' hl').fits, hsplit, lineFed_append, hlast,
      findIn_others einval (holds_lineBuffer stale) hothers]
    obtain ⟨t, -, ht⟩ := findIn_first einval (holds_lineBuffer stale) hs
    rw [ht, readPart_append einval t (by rw [hread]; exact fun h => by cases h), hread]
    rfl
  rw [findPartInFile, hfind]
  rfl

/-- Nothing is found where no line has the id. -/
theorem findPartInFile_none (hnone : ∀ l ∈ linesOf file, ∀ name vs, ¬ plain.Line l id.toNat name vs) :
    findPartInFile einval stale id (some file) = some none := by
  have hothers : ∀ p ∈ pieces file, ∀ u, ¬ StartsWith id.toNat p u := by
    intro p hp u
    rw [pieces_eq file fun l' hl' => (hfile l' hl').fits] at hp
    obtain ⟨l, hl, hwhole⟩ := mem_lineFed hp
    exact (hfile l hl).other (feed_not_mem hl) (hnone l hl) hwhole u
  have hfind : findIn einval (lineBuffer stale) id.toNat 1 (pieces file ++ []) = .error .refused := by
    rw [findIn_others einval (holds_lineBuffer stale) hothers]
    rfl
  rw [List.append_nil] at hfind
  rw [findPartInFile, hfind]
  rfl

/-- A file written in the documented format is read back: the first line with the id, or nothing
where there is none. -/
theorem findPartInFile_reads :
    (∀ pre l post name vs, linesOf file = pre ++ l :: post →
      (∀ l' ∈ pre, ∀ name' vs', ¬ plain.Line l' id.toNat name' vs') →
      plain.Line l id.toNat name vs → findPartInFile einval stale id (some file) =
        some (some ⟨id.toNat, name, .ofValues (vs.map UInt32.ofNat)⟩)) ∧
    (findPartInFile einval stale id (some file) = some none ↔
      ∀ l ∈ linesOf file, ∀ name vs, ¬ plain.Line l id.toNat name vs) := by
  refine ⟨fun pre l post name vs hsplit hpre hline =>
    findPartInFile_line hfile einval stale id hsplit hpre hline, ?_,
    fun hnone => findPartInFile_none hfile einval stale id hnone⟩
  intro hfind l hl name vs hline
  classical
  obtain ⟨l, hfirst⟩ : ∃ l, (linesOf file).find? (fun l => decide (∃ name vs,
      plain.Line l id.toNat name vs)) = some l :=
    Option.isSome_iff_exists.1 (List.find?_isSome.2 ⟨l, hl, decide_eq_true ⟨name, vs, hline⟩⟩)
  obtain ⟨hcarries, pre, post, hsplit, hpre⟩ := List.find?_eq_some_iff_append.1 hfirst
  obtain ⟨name, vs, hline⟩ := of_decide_eq_true hcarries
  rw [findPartInFile_line hfile einval stale id hsplit ?_ hline] at hfind
  · cases hfind
  · intro l' hl' name' vs' hline'
    have := hpre l' hl'
    rw [decide_eq_true ⟨name', vs', hline'⟩] at this
    cases this

end Read

section Printed

/-- Values in decimal, with the commas. -/
def printed : List ℕ → List UInt8
  | [] => []
  | [v] => decimal v
  | v :: vs => decimal v ++ ','.toUInt8 :: printed vs

def printedLine (id : ℕ) (name : List UInt8) (vs : List ℕ) : List UInt8 :=
  decimal id ++ ','.toUInt8 :: (name ++ ','.toUInt8 :: printed vs)

theorem values_printed : ∀ {vs : List ℕ}, vs ≠ [] → (∀ v ∈ vs, v < 2 ^ 32) →
    plain.Values (printed vs) vs
  | [], h, _ => absurd rfl h
  | [v], _, hlt => by
    have h : plain.Values ([] ++ (decimal v ++ [])) [v] :=
      .last (fun _ hc => by cases hc) ⟨.inl rfl, hlt v List.mem_cons_self⟩ rfl
    rw [List.nil_append, List.append_nil] at h
    exact h
  | v :: v' :: vs, _, hlt => .next (w := []) (fun _ hc => by cases hc)
      ⟨.inl rfl, hlt v List.mem_cons_self⟩
      (values_printed (List.cons_ne_nil v' vs) fun u hu => hlt u (List.mem_cons_of_mem _ hu))

/-- A part that is printed is a line as it is written. -/
theorem line_printed {id : ℕ} {name : List UInt8} {vs : List ℕ} (hid : id < 2 ^ 32)
    (hname : IsName name) (hlen : vs.length = nval) (hvs : ∀ v ∈ vs, v < 2 ^ 32) :
    plain.Line (printedLine id name vs) id name vs := by
  have hne : vs ≠ [] := by
    rintro rfl
    cases hlen
  exact ⟨[], decimal id, [], printed vs, rfl, fun _ hc => (by cases hc), ⟨.inl rfl, hid⟩,
    fun _ hc => (by cases hc), hname, values_printed hne hvs, hlen⟩

/-- A file of a comment and one part, which has that part and no other. -/
theorem findPartInFile_reads_part :
    (let file := bytes "#\n4,LPC1,1,2,3,4,5,6,7,8,0\n".toList
    findPartInFile false (fun _ _ => 0) 4 (some file) =
      some (some ⟨4, bytes "LPC1".toList, .ofValues [1, 2, 3, 4, 5, 6, 7, 8, 0]⟩)) := by
  have hname : IsName (bytes "LPC1".toList) := ⟨⟨['1'.toUInt8], rfl⟩, by decide, by decide, by decide⟩
  have hline : plain.Line (printedLine 4 (bytes "LPC1".toList) [1, 2, 3, 4, 5, 6, 7, 8, 0]) 4
      (bytes "LPC1".toList) [1, 2, 3, 4, 5, 6, 7, 8, 0] := line_printed (by simp) hname rfl (by simp)
  change plain.Line (bytes "4,LPC1,1,2,3,4,5,6,7,8,0".toList) _ _ _ at hline
  have hlines : linesOf (bytes "#\n4,LPC1,1,2,3,4,5,6,7,8,0\n".toList) =
      [bytes ['#'], bytes "4,LPC1,1,2,3,4,5,6,7,8,0".toList, []] := rfl
  have hcomment (id' : ℕ) name vs : ¬ plain.Line (bytes ['#']) id' name vs := fun h =>
    head_of_line (documented_of_plain h) rfl
  refine (findPartInFile_reads (fun l hl => ?_) false (fun _ _ => 0) 4).1 [bytes ['#']] _ [[]] _ _
    hlines (fun l' hl' => ?_) hline
  · rw [hlines] at hl
    simp only [List.mem_cons, List.not_mem_nil, or_false] at hl
    rcases hl with rfl | rfl | rfl
    · exact ⟨by decide, .inr (.inl rfl)⟩
    · exact ⟨by decide, .inr (.inr ⟨_, _, _, hline⟩)⟩
    · exact ⟨by decide, .inl rfl⟩
  · rw [List.mem_singleton.1 hl']
    exact hcomment _

end Printed

end LpcTools
