import LpcTools.Proofs.PartsRead

/-!
# What `find_part_in_file` lets pass

The values are scanned by `strtoul` alone: nothing asks for the commas, for a digit, or for a number
that fits, and a piece of a long line is taken for a line. So a part is found that is not in the file,
unless the first piece with the id has no name to be had, or spells the name and the values of a line
that is there.
-/

namespace LpcTools

open Decimal

/-- What the text spells as the loop scans it: a character is passed over before each value, and what
has no digits is the value 0. -/
inductive Spelled : List UInt8 → List UInt32 → Prop
  | done {s : List UInt8} : Spelled s []
  | value {c : UInt8} {s e : List UInt8} {v : ℕ} {vs : List UInt32} :
      strtoul 0 s = some (v, e) → Spelled e vs → Spelled (c :: s) (UInt32.ofNat v :: vs)

/-- The name found in the text behind the id, and what follows its comma. -/
def Named (u name rest : List UInt8) : Prop :=
  ∃ gap, u = gap ++ (name ++ ','.toUInt8 :: rest) ∧ (∀ c ∈ gap, c ≠ 0 ∧ c ≠ 'L'.toUInt8) ∧
    name.head? = some 'L'.toUInt8 ∧ ','.toUInt8 ∉ name ∧ 0 ∉ name ∧ name.length ≤ partNameLength

/-- The first of the pieces with the id, and what follows the id in it. -/
def FirstWith (id : ℕ) (ps : List (List UInt8)) (p u : List UInt8) : Prop :=
  ∃ pre post, ps = pre ++ p :: post ∧ (∀ q ∈ pre, ∀ v, ¬ StartsWith id q v) ∧ StartsWith id p u

/-- What the format has the search do: it stays within the text of the lines, and finds no part but
one that a line of the file has. -/
structure Keeps (einval : Bool) (stale : ℕ → ℕ → UInt8) (id : UInt64) (file : List UInt8) : Prop where
  within : findIn einval (fun _ p => p ++ [0]) id.toNat 1 (pieces file) ≠ .error .past
  found : ∀ part, findPartInFile einval stale id (some file) = some (some part) →
    ∃ l ∈ linesOf file, l.head? ≠ some '#'.toUInt8 ∧ ∃ name vs,
      documented.Line l id.toNat name vs ∧ part = ⟨id.toNat, name, .ofValues (vs.map UInt32.ofNat)⟩

section Scan

variable {einval : Bool} {u name rest : List UInt8}

/-- One value, where missing digits are not reported. -/
theorem readValues_cons (n : ℕ) (c : UInt8) (s : List UInt8) :
    strtoul 0 s = none ∧ readValues false (n + 1) (c :: s) = .error .past ∨
      ∃ v e, strtoul 0 s = some (v, e) ∧ readValues false (n + 1) (c :: s) =
        (UInt32.ofNat v :: ·) <$> readValues false n e := by
  rw [readValues, if_neg (List.cons_ne_nil _ _), List.tail_cons]
  simp only [ofOption, pure_bind, Bool.false_eq_true, false_and, and_false, if_false]
  rcases hr : strtoul 0 s with _ | ⟨v, e⟩
  · exact .inl ⟨rfl, rfl⟩
  · exact .inr ⟨v, e, rfl, rfl⟩

theorem readValues_spelled : ∀ {n : ℕ} {s : List UInt8} {vs : List UInt32},
    readValues false n s = .ok vs → Spelled s vs ∧ vs.length = n
  | 0, _, _, h => by
    cases h
    exact ⟨.done, rfl⟩
  | n + 1, [], _, h => by cases h
  | n + 1, c :: s, vs, h => by
    rcases readValues_cons n c s with ⟨-, he⟩ | ⟨v, e, hr, he⟩
    · rw [he] at h
      cases h
    · rcases hvs : readValues false n e with err | vs' <;> rw [he, hvs] at h <;> cases h
      obtain ⟨hs, hlen⟩ := readValues_spelled hvs
      exact ⟨.value hr hs, by rw [List.length_cons, hlen]⟩

theorem Spelled.readValues {s : List UInt8} {vs : List UInt32} (h : Spelled s vs) :
    LpcTools.readValues false vs.length s = .ok vs := by
  induction h with
  | done => rfl
  | @value c s _ _ _ hr _ ih =>
    rcases readValues_cons _ c s with ⟨hnone, -⟩ | ⟨v', e', hr', he⟩
    · rw [hr] at hnone
      cases hnone
    · rw [hr] at hr'
      cases hr'
      rw [List.length_cons, he, ih]
      rfl

/-- Without a report of missing digits no value is refused. -/
theorem readValues_ne_refused : ∀ (n : ℕ) (s : List UInt8), readValues false n s ≠ .error .refused
  | 0, _ => fun h => by cases h
  | n + 1, [] => fun h => by cases h
  | n + 1, c :: s => fun h => by
    rcases readValues_cons n c s with ⟨-, he⟩ | ⟨v, e, -, he⟩
    · rw [he] at h
      cases h
    · rcases hvs : readValues false n e with err | vs <;> rw [he, hvs] at h <;> cases h
      exact readValues_ne_refused n e hvs

/-- A report of missing digits only ever ends the scan sooner. -/
theorem readValues_einval (einval : Bool) : ∀ (n : ℕ) (s : List UInt8),
    readValues einval n s = readValues false n s ∨ readValues einval n s = .error .refused
  | 0, _ => .inl rfl
  | n + 1, [] => .inl rfl
  | n + 1, c :: s => by
    rw [readValues, readValues, if_neg (List.cons_ne_nil _ _), List.tail_cons]
    simp only [ofOption, pure_bind, Bool.false_eq_true, false_and, and_false, if_false]
    rcases hr : strtoul 0 s with _ | ⟨v, e⟩
    · exact .inl rfl
    · simp only [pure_bind]
      split_ifs
      · exact .inr rfl
      · rcases readValues_einval einval n e with h | h
        · exact .inl (by rw [h])
        · exact .inr (by rw [h]; rfl)

theorem skipToName_found : ∀ {u : List UInt8}, 0 ∈ u → ∃ gap c s, u = gap ++ c :: s ∧
    (∀ d ∈ gap, d ≠ 0 ∧ d ≠ 'L'.toUInt8) ∧ (c = 0 ∨ c = 'L'.toUInt8) ∧ 0 ∈ c :: s ∧
    skipToName u = .ok (c :: s)
  | [], h => by cases h
  | d :: u, h => by
    by_cases hd : d ≠ 0 ∧ d ≠ 'L'.toUInt8
    · have hu : 0 ∈ u := (List.mem_cons.1 h).resolve_left fun he => hd.1 he.symm
      obtain ⟨gap, c, s, hsplit, hgap, hc, hs, hfound⟩ := skipToName_found hu
      refine ⟨d :: gap, c, s, by rw [hsplit]; rfl, ?_, hc, hs, ?_⟩
      · intro d' hd'
        rcases List.mem_cons.1 hd' with rfl | hd'
        · exact hd
        · exact hgap d' hd'
      · rw [skipToName, if_pos hd, hfound]
    · refine ⟨[], d, u, rfl, fun _ hc => (by cases hc), ?_, h, by rw [skipToName, if_neg hd]; rfl⟩
      rw [not_and_or, not_not, not_not] at hd
      exact hd

/-- A name is copied up to its comma, or refused at the end of the text or for its length. -/
theorem copyName_found : ∀ {n : ℕ} {s : List UInt8}, 0 ∈ s →
    (∃ name rest, s = name ++ ','.toUInt8 :: rest ∧ ','.toUInt8 ∉ name ∧ 0 ∉ name ∧ name.length ≤ n) ∨
      copyName n s = .error .refused
  | _, [], h => by cases h
  | 0, c :: s, _ => by
    rw [copyName]
    split_ifs with hc
    · exact .inl ⟨[], s, by rw [hc]; rfl, by simp, by simp, le_rfl⟩
    · exact .inr rfl
  | n + 1, c :: s, h => by
    rw [copyName]
    split_ifs with hzero hcomma
    · exact .inr rfl
    · exact .inl ⟨[], s, by rw [hcomma]; rfl, by simp, by simp, by simp⟩
    · have hs : 0 ∈ s := (List.mem_cons.1 h).resolve_left fun he => hzero he.symm
      rcases copyName_found (n := n) hs with ⟨name, rest, rfl, hc, hz, hlen⟩ | href
      · refine .inl ⟨c :: name, rest, rfl, ?_, ?_, by simpa using hlen⟩
        · simpa [Ne.symm hcomma] using hc
        · simpa [Ne.symm hzero] using hz
      · exact .inr (by rw [href]; rfl)

/-- Behind a name it is the scan of the values that decides. -/
theorem Named.readPart (h : Named u name rest) (einval : Bool) : LpcTools.readPart einval u =
    (fun values => (name, values)) <$> readValues einval nval (','.toUInt8 :: rest) := by
  obtain ⟨gap, rfl, hgap, hhead, hcomma, hzero, hlen⟩ := h
  have hskip : skipToName (gap ++ (name ++ ','.toUInt8 :: rest)) = .ok (name ++ ','.toUInt8 :: rest) := by
    induction gap with
    | nil =>
      rcases name with _ | ⟨c, name⟩
      · cases hhead
      · cases hhead
        rfl
    | cons d gap ih =>
      rw [List.cons_append, skipToName, if_pos (hgap d List.mem_cons_self)]
      exact ih fun c hc => hgap c (List.mem_cons_of_mem _ hc)
  unfold LpcTools.readPart
  rw [hskip]
  change (copyName partNameLength _ >>= _) = _
  rw [copyName_eq hlen hcomma hzero]
  rfl

theorem readPart_unnamed (hu : 0 ∈ u) (h : ∀ name rest, ¬ Named u name rest) (einval : Bool) :
    readPart einval u = .error .refused := by
  obtain ⟨gap, c, s, rfl, hgap, hc, hs, hskip⟩ := skipToName_found hu
  have hcopy : copyName partNameLength (c :: s) = .error .refused := by
    rcases hc with rfl | rfl
    · rfl
    · rcases copyName_found hs with ⟨name, rest, heq, hcomma, hzero, hlen⟩ | href
      · refine absurd ⟨gap, by rw [heq], hgap, ?_, hcomma, hzero, hlen⟩ (h name rest)
        rcases name with _ | ⟨d, name⟩
        · cases heq
        · cases heq
          rfl
      · exact href
  unfold readPart
  rw [hskip]
  change (copyName partNameLength (c :: s) >>= _) = _
  rw [hcopy]
  rfl

end Scan

section Find

variable {einval : Bool} {buffer : ℕ → List UInt8 → List UInt8} {id line : ℕ}
  {p u : List UInt8} {ps : List (List UInt8)}

theorem exists_firstWith (id : ℕ) (ps : List (List UInt8)) :
    (∀ p ∈ ps, ∀ u, ¬ StartsWith id p u) ∨ ∃ p u, FirstWith id ps p u := by
  induction ps with
  | nil => exact .inl fun p hp => by cases hp
  | cons q ps ih =>
    by_cases hq : ∃ u, StartsWith id q u
    · obtain ⟨u, hu⟩ := hq
      exact .inr ⟨q, u, [], ps, rfl, fun _ h => (by cases h), hu⟩
    · have hq' : ∀ v, ¬ StartsWith id q v := fun v hv => hq ⟨v, hv⟩
      rcases ih with hnone | ⟨p, u, pre, post, rfl, hpre, hp⟩
      · refine .inl fun p hp => ?_
        rcases List.mem_cons.1 hp with rfl | hp
        · exact hq'
        · exact hnone p hp
      · refine .inr ⟨p, u, q :: pre, post, rfl, fun r hr => ?_, hp⟩
        rcases List.mem_cons.1 hr with rfl | hr
        · exact hq'
        · exact hpre r hr

theorem FirstWith.starts (h : FirstWith id ps p u) : StartsWith id p u := by
  obtain ⟨pre, post, -, -, hstarts⟩ := h
  exact hstarts

theorem findIn_none (hbuffer : Holds buffer) (h : ∀ p ∈ ps, ∀ u, ¬ StartsWith id p u) :
    findIn einval buffer id line ps = .error .refused := by
  rw [← List.append_nil ps, findIn_others einval hbuffer h]
  rfl

/-- The search reads what the first piece with the id has, and what the buffer has behind it. -/
theorem FirstWith.findIn (hbuffer : Holds buffer) (h : FirstWith id ps p u) :
    ∃ line' t, buffer line' p = p ++ [0] ++ t ∧ LpcTools.findIn einval buffer id line ps =
      (fun r => PartEntry.mk id r.1 (.ofValues r.2)) <$> readPart einval (u ++ t) := by
  obtain ⟨pre, post, rfl, hpre, hp⟩ := h
  have hfirst : ∃ t, buffer (line + pre.length) p = p ++ [0] ++ t ∧
      LpcTools.findIn einval buffer id (line + pre.length) (p :: post) =
        (fun r => PartEntry.mk id r.1 (.ofValues r.2)) <$> readPart einval (u ++ t) :=
    findIn_first einval hbuffer hp
  obtain ⟨t, ht, hfind⟩ := hfirst
  exact ⟨_, t, ht, (findIn_others einval hbuffer hpre).trans hfind⟩

theorem holds_text : Holds fun _ p => p ++ [0] := fun _ _ => ⟨[], (List.append_nil _).symm⟩

theorem FirstWith.findIn_text (h : FirstWith id ps p u) :
    LpcTools.findIn einval (fun _ p => p ++ [0]) id line ps =
      (fun r => PartEntry.mk id r.1 (.ofValues r.2)) <$> readPart einval u := by
  obtain ⟨line', t, ht, hfind⟩ := h.findIn holds_text
  rw [List.self_eq_append_right] at ht
  rw [hfind, ht, List.append_nil]

/-- Where the scan stays in the text, what the buffer has behind it does not matter. -/
theorem FirstWith.findIn_eq (hbuffer : Holds buffer) (h : FirstWith id ps p u)
    (hin : readPart einval u ≠ .error .past) : LpcTools.findIn einval buffer id line ps =
      (fun r => PartEntry.mk id r.1 (.ofValues r.2)) <$> readPart einval u := by
  obtain ⟨line', t, -, hfind⟩ := h.findIn hbuffer
  rw [hfind, readPart_append einval t hin]

theorem StartsWith.ended (h : StartsWith id p u) : 0 ∈ u := by
  obtain ⟨v, u', hv⟩ := strtoul_terminated 0 p
  have heq := h.2.symm.trans hv
  simp only [Option.some.injEq, Prod.mk.injEq] at heq
  rw [heq.2]
  exact List.mem_append_right _ List.mem_cons_self

theorem PartDesc.ofValues_inj : ∀ {vs ws : List UInt32}, vs.length = nval → ws.length = nval →
    PartDesc.ofValues vs = .ofValues ws → vs = ws
  | [_, _, _, _, _, _, _, _, _], [_, _, _, _, _, _, _, _, _], _, _, h => by
    simpa [ofValues] using h

end Find

section Keeps

variable {file : List UInt8} {id : UInt64} {p u name rest : List UInt8}

/-- One value at a time: the values the text has, or a report of missing digits. -/
theorem keeps_of_spelled {l : List UInt8} {vs : List ℕ} (hp : FirstWith id.toNat (pieces file) p u)
    (hname : Named u name rest) (hl : l ∈ linesOf file) (hline : documented.Line l id.toNat name vs)
    (hspelled : readValues false nval (','.toUInt8 :: rest) = .ok (vs.map UInt32.ofNat))
    (einval : Bool) (stale : ℕ → ℕ → UInt8) : Keeps einval stale id file := by
  have hpart : readPart einval u = .ok (name, vs.map UInt32.ofNat) ∨
      readPart einval u = .error .refused := by
    rw [hname.readPart einval]
    rcases readValues_einval einval nval (','.toUInt8 :: rest) with h | h
    · exact .inl (by rw [h, hspelled]; rfl)
    · exact .inr (by rw [h]; rfl)
  have hin : readPart einval u ≠ .error .past := by
    rcases hpart with h | h <;> simp [h]
  refine ⟨?_, fun part hpart' => ?_⟩
  · rw [hp.findIn_text]
    rcases hpart with h | h <;> rw [h] <;> exact fun he => by cases he
  · rw [findPartInFile, hp.findIn_eq (holds_lineBuffer stale) hin] at hpart'
    rcases hpart with h | h
    · rw [h] at hpart'
      cases hpart'
      exact ⟨l, hl, head_of_line hline, name, vs, hline, rfl⟩
    · rw [h] at hpart'
      cases hpart'

theorem keeps_of_unnamed (hp : FirstWith id.toNat (pieces file) p u)
    (hname : ∀ name rest, ¬ Named u name rest) (einval : Bool) (stale : ℕ → ℕ → UInt8) :
    Keeps einval stale id file := by
  have hpart := readPart_unnamed hp.starts.ended hname einval
  have hin : readPart einval u ≠ .error .past := by simp [hpart]
  refine ⟨?_, fun part hpart' => ?_⟩
  · rw [hp.findIn_text, hpart]
    exact fun he => by cases he
  · rw [findPartInFile, hp.findIn_eq (holds_lineBuffer stale) hin, hpart] at hpart'
    cases hpart'

theorem keeps_of_none (hnone : ∀ p ∈ pieces file, ∀ u, ¬ StartsWith id.toNat p u) (einval : Bool)
    (stale : ℕ → ℕ → UInt8) : Keeps einval stale id file := by
  refine ⟨by simp [findIn_none holds_text hnone], fun part hpart => ?_⟩
  rw [findPartInFile, findIn_none (holds_lineBuffer stale) hnone] at hpart
  cases hpart

/-- What a piece that is all of a line is scanned for. -/
theorem readValues_of_line {l : List UInt8} {vs : List ℕ} (hp : StartsWith id.toNat p u)
    (hname : Named u name rest) (hl : l ∈ linesOf file) (hline : documented.Line l id.toNat name vs)
    (hwhole : Whole l p) : readValues false nval (','.toUInt8 :: rest) = .ok (vs.map UInt32.ofNat) := by
  obtain ⟨u', hu', hread⟩ := startsWith_of_line hline id.toNat_lt (feed_not_mem hl) hwhole false
  obtain ⟨-, rfl⟩ := hu'.unique hp
  rw [hname.readPart] at hread
  rcases hvs : readValues false nval (','.toUInt8 :: rest) with err | values
  · rw [hvs] at hread
    cases hread
  · rw [hvs] at hread
    cases hread
    rfl

/-- The search keeps to the format exactly where the first piece with the id has no name to be had,
is a line in the documented format, or spells what another such line with the id and the name has. -/
theorem findPartInFile_keeps_iff (file : List UInt8) (id : UInt64) :
    (∀ einval stale, Keeps einval stale id file) ↔
      ∀ p u name rest, FirstWith id.toNat (pieces file) p u → Named u name rest →
        ∃ l ∈ linesOf file, ∃ vs, documented.Line l id.toNat name vs ∧
          (Whole l p ∨ Spelled (','.toUInt8 :: rest) (vs.map UInt32.ofNat)) := by
  constructor
  · intro hkeeps p u name rest hp hname
    have hread := hname.readPart false
    obtain ⟨values, hvalues⟩ : ∃ values, readValues false nval (','.toUInt8 :: rest) = .ok values := by
      rcases hvs : readValues false nval (','.toUInt8 :: rest) with (_ | _) | values
      · have hpast := (hkeeps false fun _ _ => 0).within
        rw [hp.findIn_text, hread, hvs] at hpast
        exact absurd rfl hpast
      · exact absurd hvs (readValues_ne_refused nval _)
      · exact ⟨values, rfl⟩
    rw [hvalues] at hread
    have hin : readPart false u ≠ .error .past := by
      rw [hread]
      exact fun he => by cases he
    have hfind : findPartInFile false (fun _ _ => 0) id (some file) =
        some (some ⟨id.toNat, name, .ofValues values⟩) := by
      rw [findPartInFile, hp.findIn_eq (holds_lineBuffer _) hin, hread]
      rfl
    obtain ⟨l, hl, -, name', vs, hline, hpart⟩ := (hkeeps false fun _ _ => 0).found _ hfind
    simp only [PartEntry.mk.injEq, true_and] at hpart
    obtain ⟨rfl, hdesc⟩ := hpart
    obtain ⟨hspelled, hlen⟩ := readValues_spelled hvalues
    have hvs : values = vs.map UInt32.ofNat :=
      PartDesc.ofValues_inj hlen ((List.length_map _).trans hline.length) hdesc
    exact ⟨l, hl, vs, hline, .inr (hvs ▸ hspelled)⟩
  · intro h einval stale
    rcases exists_firstWith id.toNat (pieces file) with hnone | ⟨p, u, hp⟩
    · exact keeps_of_none hnone einval stale
    · by_cases hname : ∃ name rest, Named u name rest
      · obtain ⟨name, rest, hname⟩ := hname
        obtain ⟨l, hl, vs, hline, hspelled⟩ := h p u name rest hp hname
        refine keeps_of_spelled hp hname hl hline ?_ einval stale
        rcases hspelled with hwhole | hspelled
        · exact readValues_of_line hp.starts hname hl hline hwhole
        · have hlen : (vs.map UInt32.ofNat).length = nval := (List.length_map _).trans hline.length
          exact hlen ▸ hspelled.readValues
      · exact keeps_of_unnamed hp (fun name rest hn => hname ⟨name, rest, hn⟩) einval stale

theorem Format.Values.commas {F : Format} {rest : List UInt8} {vs : List ℕ} (h : F.Values rest vs) :
    vs.length ≤ rest.count ','.toUInt8 + 1 := by
  induction h with
  | last => simp
  | next _ _ _ ih =>
    rw [List.count_append, List.count_append, List.count_cons_self, List.length_cons]
    omega

set_option maxRecDepth 4000 in
/-- The last of the values is not there. -/
theorem findPartInFile_missing_value :
    ¬ ∀ einval stale, Keeps einval stale 1 (bytes "1,LPC1,1,2,3,4,5,6,7,8\n".toList) := by
  intro h
  have hlines : linesOf (bytes "1,LPC1,1,2,3,4,5,6,7,8\n".toList) =
      [bytes "1,LPC1,1,2,3,4,5,6,7,8".toList, []] := rfl
  have hfind : findPartInFile false (fun _ _ => 0) 1
      (some (bytes "1,LPC1,1,2,3,4,5,6,7,8\n".toList)) =
      some (some ⟨1, bytes "LPC1".toList, .ofValues [1, 2, 3, 4, 5, 6, 7, 8, 0]⟩) := by
    rw [findPartInFile, pieces_eq _ (by rw [hlines]; decide)]
    rfl
  obtain ⟨l, hl, -, name, vs, ⟨w, t, w', rest, hsplit, -, -, -, -, hvalues, hlen⟩, -⟩ :=
    (h false fun _ _ => 0).found _ hfind
  have hcommas := hvalues.commas
  have hcount : l.count ','.toUInt8 ≤ 9 := by
    rw [hlines] at hl
    simp only [List.mem_cons, List.not_mem_nil, or_false] at hl
    rcases hl with rfl | rfl <;> decide
  rw [hsplit] at hcount
  simp only [List.count_append, List.count_cons_self] at hcount
  have : nval = 9 := rfl
  omega

end Keeps

end LpcTools
