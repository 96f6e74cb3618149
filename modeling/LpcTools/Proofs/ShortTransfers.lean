import LpcTools.Files
import LpcTools.Proofs.Connecting

/-!
# Short transfers

A call may take or give less than it is asked for, or nothing yet. Here every outcome on the line is
kept in the order the calls had them, and what they handed over is set against what
`isp_serial_write`, `isp_serial_read` and `isp_file_to_buff` return.
-/

namespace LpcTools

open Run

/-- A call on the line with its outcome; a write, with what was offered. -/
inductive Poll where
  | read (r : ReadOutcome)
  | write (offered : List UInt8) (r : WriteOutcome)

namespace Poll

def taken : Poll → List UInt8
  | write offered (.wrote n) => offered.take n
  | _ => []

def came : Poll → List UInt8
  | read (.data bs) => bs
  | _ => []

def vain : Poll → Bool
  | read .again => true
  | write _ .again => true
  | _ => false

end Poll

variable {σ : Type}

/-- The system, keeping the outcome of each call on the line. -/
def Sys.traced (E : Sys σ) : Sys (σ × List Poll) where
  read := fun s n => ((E.read s.1 n).1, (E.read s.1 n).2, s.2 ++ [.read (E.read s.1 n).1])
  write := fun s bs => ((E.write s.1 bs).1, (E.write s.1 bs).2, s.2 ++ [.write bs (E.write s.1 bs).1])
  stack := fun s => E.stack s.1
  beyond := fun s => E.beyond s.1
  malloc := fun s => E.malloc s.1
  openInput := fun s => E.openInput s.1
  stdin := fun s => E.stdin s.1
  openOutput := fun s => E.openOutput s.1
  save := fun s => E.save s.1
  traceOn := E.traceOn
  read_le := by
    intro s n bs t h
    rcases hr : E.read s.1 n with ⟨r, env⟩
    rw [hr] at h
    cases h
    exact E.read_le hr
  write_le := by
    intro s bs n t h
    rcases hw : E.write s.1 bs with ⟨r, env⟩
    rw [hw] at h
    cases h
    exact E.write_le hw
  save_le := E.save_le
  write_pos := by
    intro s bs n t h
    rcases hw : E.write s.1 bs with ⟨r, env⟩
    rw [hw] at h
    cases h
    exact E.write_pos hw

section Outcomes

variable {E : Sys σ} {s t : σ × List Poll}

theorem traced_read {n : ℕ} {r : ReadOutcome} (hr : E.traced.read s n = (r, t)) :
    t.2 = s.2 ++ [.read r] := by
  cases hr
  rfl

theorem traced_write {bs : List UInt8} {r : WriteOutcome} (hw : E.traced.write s bs = (r, t)) :
    t.2 = s.2 ++ [.write bs r] := by
  cases hw
  rfl

theorem polls_snoc {ps qs : List Poll} {p : Poll} (hps : s.2 = qs ++ ps) (ht : t.2 = s.2 ++ [p]) :
    t.2 = qs ++ (ps ++ [p]) := by
  rw [ht, hps, List.append_assoc]

/-- What was taken, what came and how often there was nothing yet. -/
def takenIn (ps : List Poll) : List UInt8 := ps.flatMap Poll.taken

def cameIn (ps : List Poll) : List UInt8 := ps.flatMap Poll.came

def vainIn (ps : List Poll) : ℕ := ps.countP Poll.vain

@[simp] theorem cameIn_nil : cameIn [] = [] := rfl

@[simp] theorem takenIn_snoc (ps : List Poll) (p : Poll) : takenIn (ps ++ [p]) = takenIn ps ++ p.taken := by
  simp [takenIn]

@[simp] theorem cameIn_snoc (ps : List Poll) (p : Poll) : cameIn (ps ++ [p]) = cameIn ps ++ p.came := by
  simp [cameIn]

@[simp] theorem vainIn_snoc (ps : List Poll) (p : Poll) :
    vainIn (ps ++ [p]) = vainIn ps + if p.vain then 1 else 0 := by
  simp [vainIn, List.countP_singleton]

end Outcomes

section Lines

variable {E : Sys σ}

/-- The call gave up: its polls were in vain a hundred and two times. -/
def GaveUp (ps : List Poll) (h h' : Host (σ × List Poll)) : Prop :=
  vainIn ps = 102 ∧ h'.log = h.log ++ [.timeout]

/-- What a write that returned `r` has handed over with these polls. -/
structure WriteKeeps (buf : List UInt8) (h : Host (σ × List Poll)) (r : ℤ)
    (h' : Host (σ × List Poll)) (ps : List Poll) : Prop where
  polls : h'.env.2 = h.env.2 ++ ps
  vain_le : vainIn ps ≤ 102
  le : r ≤ buf.length
  taken : 0 ≤ r → takenIn ps = buf.take r.toNat
  short : 0 ≤ r → r < buf.length → GaveUp ps h h'

theorem WriteKeeps.of_count {buf : List UInt8} {h h' : Host (σ × List Poll)} {ps : List Poll} {k : ℕ}
    (hlt : buf.length < 2 ^ 32) (hk : k ≤ buf.length) (hpolls : h'.env.2 = h.env.2 ++ ps)
    (hvain : vainIn ps ≤ 102) (htaken : takenIn ps = buf.take k)
    (hshort : k < buf.length → GaveUp ps h h') : WriteKeeps buf h (toInt k) h' ps := by
  have hle := toInt_le k
  have hcount : 0 ≤ toInt k → toInt k = k := toInt_of_nonneg (by omega)
  refine ⟨hpolls, hvain, by omega, fun hr => ?_, fun hr hsize => hshort ?_⟩
  · rw [htaken, hcount hr, Int.toNat_natCast]
  · rw [hcount hr] at hsize
    omega

theorem ispSerialWrite_keeps {buf : List UInt8} (hbuf : buf ≠ []) (hlt : buf.length < 2 ^ 32)
    (h : Host (σ × List Poll)) : Ends (ispSerialWrite E.traced buf h)
      (fun r h' => ∃ ps, WriteKeeps buf h r h' ps) (fun _ _ => False) := by
  have hpos := List.length_pos_iff.2 hbuf
  refine Loop.ends (I := fun l t => t.log = h.log ∧ l.count < buf.length ∧ l.loops ≤ 101 ∧
    ∃ ps, t.env.2 = h.env.2 ++ ps ∧ takenIn ps = buf.take l.count ∧ vainIn ps = l.loops) ?_
    ⟨rfl, hpos, Nat.zero_le _, [], (List.append_nil _).symm, rfl, rfl⟩
  rintro l t ⟨hlog, hcount, hloops, ps, hps, htaken, hvain⟩
  simp only [serialWriteLoop]
  split
  · rename_i nb env hw
    have hnb := E.traced.write_le hw
    rw [List.length_drop] at hnb
    set p := Poll.write (buf.drop l.count) (.wrote nb)
    have hmore : env.2 = h.env.2 ++ (ps ++ [p]) := polls_snoc hps (traced_write hw)
    have hmine : takenIn (ps ++ [p]) = buf.take (l.count + nb) := by
      rw [takenIn_snoc, htaken, List.take_add]
      rfl
    have hsame : vainIn (ps ++ [p]) = l.loops := by
      rw [vainIn_snoc, hvain]
      rfl
    split_ifs with hgo
    · exact ⟨hlog, hgo, hloops, _, hmore, hmine, hsame⟩
    · exact ⟨_, .of_count hlt (by omega) hmore (by omega) hmine fun hshort => absurd hshort hgo⟩
  · rename_i env hw
    set p := Poll.write (buf.drop l.count) .again
    have hmore : env.2 = h.env.2 ++ (ps ++ [p]) := polls_snoc hps (traced_write hw)
    have hmine : takenIn (ps ++ [p]) = buf.take l.count := by
      rw [takenIn_snoc, htaken]
      exact List.append_nil _
    have hone : vainIn (ps ++ [p]) = l.loops + 1 := by
      rw [vainIn_snoc, hvain]
      rfl
    split_ifs with hgive
    · refine ⟨_, .of_count hlt (by omega) hmore (by omega) hmine fun _ => ⟨by omega, ?_⟩⟩
      rw [← hlog]
      rfl
    · exact ⟨hlog, hcount, by simp only []; omega, _, hmore, hmine, hone⟩
  · rename_i env hw
    have hmore := polls_snoc hps (traced_write hw)
    have hsame : vainIn (ps ++ [.write (buf.drop l.count) .error]) = l.loops := by
      rw [vainIn_snoc, hvain]
      rfl
    exact ⟨_, hmore, by omega, by omega, fun hr => absurd hr (by decide),
      fun hr => absurd hr (by decide)⟩

/-- What a read into a buffer of `n` bytes that returned `r` has stored, with these polls. -/
structure ReadKeeps (n m : ℕ) (h : Host (σ × List Poll)) (r : ℤ × List UInt8)
    (h' : Host (σ × List Poll)) (ps : List Poll) : Prop where
  polls : h'.env.2 = h.env.2 ++ ps
  vain_le : vainIn ps ≤ 102
  stored : 0 < r.1 → r.2 = keptBack h.nextReadChar ++ cameIn ps ∧ h'.nextReadChar = 0
  length : 0 < r.1 → r.1 = r.2.length ∧ r.2.length ≤ n
  short : 0 < r.1 → r.1 < m → GaveUp ps h h'

theorem ReadKeeps.of_count {n m : ℕ} {h h' : Host (σ × List Poll)} {got : List UInt8} {ps : List Poll}
    (hlt : n < 2 ^ 32) (hle : got.length ≤ n) (hpolls : h'.env.2 = h.env.2 ++ ps)
    (hvain : vainIn ps ≤ 102) (hgot : got = keptBack h.nextReadChar ++ cameIn ps)
    (hnext : h'.nextReadChar = 0) (hshort : got.length < m → GaveUp ps h h') :
    ReadKeeps n m h (toInt got.length, got) h' ps := by
  have hcount : 0 < toInt got.length → toInt got.length = got.length := fun hr =>
    toInt_of_nonneg (by omega) hr.le
  refine ⟨hpolls, hvain, fun _ => ⟨hgot, hnext⟩, fun hr => ⟨hcount hr, hle⟩, fun hr hmin => hshort ?_⟩
  simp only [hcount hr] at hmin
  omega

theorem ReadKeeps.of_nonpos {n m : ℕ} {h h' : Host (σ × List Poll)} {r : ℤ × List UInt8}
    {ps : List Poll} (hpolls : h'.env.2 = h.env.2 ++ ps) (hvain : vainIn ps ≤ 102) (hr : r.1 ≤ 0) :
    ReadKeeps n m h r h' ps :=
  ⟨hpolls, hvain, fun h0 => absurd h0 (Int.not_lt.2 hr), fun h0 => absurd h0 (Int.not_lt.2 hr),
    fun h0 => absurd h0 (Int.not_lt.2 hr)⟩

theorem serialReadLoop_keeps {n m : ℕ} {h h₀ : Host (σ × List Poll)} {got : List UInt8}
    (hlt : n < 2 ^ 32) (hle : got.length ≤ n) (hgot : got = keptBack h.nextReadChar)
    (henv : h₀.env = h.env) (hlog : h₀.log = h.log) (hnext : h₀.nextReadChar = 0) :
    Ends ((serialReadLoop E.traced n m).run ⟨got, 0⟩ h₀)
      (fun r h' => ∃ ps, ReadKeeps n m h r h' ps) (fun _ _ => False) := by
  refine Loop.ends (I := fun l t => t.log = h.log ∧ t.nextReadChar = 0 ∧ l.got.length ≤ n ∧
    l.loops ≤ 101 ∧ ∃ ps, t.env.2 = h.env.2 ++ ps ∧ l.got = keptBack h.nextReadChar ++ cameIn ps ∧
      vainIn ps = l.loops) ?_
    ⟨hlog, hnext, hle, Nat.zero_le _, [], by simp [henv], by simp [hgot], rfl⟩
  rintro l t ⟨hlog, hnext, hle, hloops, ps, hps, hcame, hvain⟩
  simp only [serialReadLoop, ReadLocals.test]
  split
  · rename_i bs env hr
    have hbs := E.traced.read_le hr
    have hmore := polls_snoc hps (traced_read hr)
    have hmine : l.got ++ bs = keptBack h.nextReadChar ++ cameIn (ps ++ [.read (.data bs)]) := by
      rw [cameIn_snoc, hcame, List.append_assoc]
      rfl
    have hsame : vainIn (ps ++ [.read (.data bs)]) = l.loops := by
      rw [vainIn_snoc, hvain]
      rfl
    have hfits : (l.got ++ bs).length ≤ n := by
      rw [List.length_append]
      omega
    split_ifs with hnil hgo
    · exact ⟨_, .of_nonpos hmore (by omega) le_rfl⟩
    · exact ⟨hlog, hnext, hfits, hloops, _, hmore, hmine, hsame⟩
    · exact ⟨_, .of_count hlt hfits hmore (by omega) hmine hnext fun hshort => absurd hshort hgo⟩
  · rename_i env hr
    have hmore := polls_snoc hps (traced_read hr)
    have hmine : l.got = keptBack h.nextReadChar ++ cameIn (ps ++ [.read .again]) := by
      rw [cameIn_snoc, hcame]
      exact (congrArg _ (List.append_nil _)).symm
    have hone : vainIn (ps ++ [.read .again]) = l.loops + 1 := by
      rw [vainIn_snoc, hvain]
      rfl
    split_ifs with hgive hgo
    · refine ⟨_, .of_count hlt hle hmore (by omega) hmine hnext fun _ => ⟨by omega, ?_⟩⟩
      rw [← hlog]
      rfl
    · exact ⟨hlog, hnext, hle, by simp only []; omega, _, hmore, hmine, hone⟩
    · exact ⟨_, .of_count hlt hle hmore (by omega) hmine hnext fun hshort => absurd hshort hgo⟩
  · rename_i env hr
    have hmore := polls_snoc hps (traced_read hr)
    have hsame : vainIn (ps ++ [.read .error]) = l.loops := by
      rw [vainIn_snoc, hvain]
      rfl
    exact ⟨_, .of_nonpos hmore (by omega) (Int.negSucc_le_zero 0)⟩

theorem ispSerialRead_keeps {n m : ℕ} (hpos : 0 < n) (hlt : n < 2 ^ 32) (h : Host (σ × List Poll)) :
    Ends (ispSerialRead E.traced n m h) (fun r h' => ∃ ps, ReadKeeps n m h r h' ps)
      (fun _ _ => False) := by
  unfold ispSerialRead
  split_ifs with hmin hnext hn
  · exact ⟨[], .of_nonpos (List.append_nil _).symm (Nat.zero_le _) (by decide)⟩
  · exact serialReadLoop_keeps hlt (Nat.zero_le n) (by rw [keptBack, if_pos hnext]) rfl rfl hnext
  · exact absurd hn (Nat.ne_of_gt hpos)
  · exact serialReadLoop_keeps hlt hpos (by rw [keptBack, if_neg hnext]) rfl rfl rfl

end Lines

section Files

variable {E : Sys σ}

/-- The bytes of a file, from what its reads give. -/
def fileBytes : List ReadOutcome → List UInt8
  | [] => []
  | .data bs :: reads => if bs = [] then [] else bs ++ fileBytes reads
  | .again :: reads => fileBytes reads
  | .error :: _ => []

/-- The reads come to the end of the file. -/
def endsFile : List ReadOutcome → Bool
  | [] => true
  | .data bs :: reads => bs = [] || endsFile reads
  | .again :: reads => endsFile reads
  | .error :: _ => false

/-- What a load of at most `len` bytes that returned `r` has stored of a file; `ended` says that its
end was come to. -/
structure FileKeeps (len : ℕ) (file : List UInt8) (ended : Prop) (r : ℤ × List UInt8) : Prop where
  le : r.1 ≤ len
  length : 0 ≤ r.1 → r.1 = r.2.length
  stored : 0 ≤ r.1 → r.2 = file.take r.1.toNat
  short : 0 ≤ r.1 → r.1 < len → r.2 = file ∧ ended

theorem FileKeeps.of_count {len : ℕ} {file got : List UInt8} {ended : Prop} (hlt : len < 2 ^ 32)
    (hle : got.length ≤ len) (hgot : got <+: file) (hshort : got.length < len → got = file ∧ ended) :
    FileKeeps len file ended (toInt got.length, got) := by
  have hint := toInt_le got.length
  have hcount : 0 ≤ toInt got.length → toInt got.length = got.length := toInt_of_nonneg (by omega)
  refine ⟨by simp only []; omega, hcount, fun hr => ?_, fun hr hsize => hshort ?_⟩
  · simp only [hcount hr, Int.toNat_natCast]
    exact List.prefix_iff_eq_take.1 hgot
  · simp only [hcount hr] at hsize
    omega

theorem FileKeeps.of_neg {len : ℕ} {file : List UInt8} {ended : Prop} {r : ℤ × List UInt8}
    (hr : r.1 < 0) : FileKeeps len file ended r :=
  ⟨by omega, fun h0 => absurd h0 (Int.not_le.2 hr), fun h0 => absurd h0 (Int.not_le.2 hr),
    fun h0 => absurd h0 (Int.not_le.2 hr)⟩

/-- What is stored and what is still to come are the file. -/
theorem readFile_keeps {len : ℕ} (hlt : len < 2 ^ 32) : ∀ (reads : List ReadOutcome) (got : List UInt8),
    got.length ≤ len → FileKeeps len (got ++ fileBytes reads) (endsFile reads) (readFile len reads got)
  | [], got, hle => by
    refine .of_count hlt hle (List.prefix_append _ _) fun _ => ⟨?_, rfl⟩
    rw [fileBytes, List.append_nil]
  | .error :: _, _, _ => .of_neg (show (-12 : ℤ) < 0 by decide)
  | .again :: reads, got, hle => by
    rw [readFile]
    split_ifs with hgo
    · exact readFile_keeps hlt reads got hle
    · exact .of_count hlt hle (List.prefix_append _ _) fun hshort => absurd hshort hgo
  | .data bs :: reads, got, hle => by
    simp only [readFile]
    split_ifs with hnil hgo
    · refine .of_count hlt hle (List.prefix_append _ _) fun hshort => ?_
      -- there is room, so the read gave nothing
      have hbs : bs = [] := by
        rcases List.take_eq_nil_iff.1 hnil with hroom | hbs
        · omega
        · exact hbs
      simp [fileBytes, endsFile, hbs]
    · -- what does not fill the buffer is all that the read gave
      have hbs : bs.take (len - got.length) = bs := by
        rw [List.length_take] at hgo
        exact List.take_of_length_le (by omega)
      rw [hbs] at hnil hgo ⊢
      have hmore := readFile_keeps hlt reads (got ++ bs) (by rw [List.length_append]; omega)
      rw [List.append_assoc] at hmore
      simpa [fileBytes, endsFile, hnil] using hmore
    · have hbs : bs ≠ [] := fun he => hnil (by rw [he, List.take_nil])
      have hfull : (got ++ bs.take (len - got.length)).length = len := by
        rw [List.length_append]
        have := List.length_take_le (len - got.length) bs
        omega
      rw [← List.length_append]
      refine .of_count hlt hfull.le ?_ fun hshort => absurd hshort (by omega)
      rw [fileBytes, if_neg hbs]
      exact List.prefix_append_right_inj got |>.2
        ((List.take_prefix _ _).trans (List.prefix_append _ _))

/-- What is read of a file of that name, if it can be opened. -/
def inputReads (E : Sys σ) (filename : List UInt8) (s : σ) : Option (List ReadOutcome) :=
  if isStdStream filename then some (E.stdin s) else E.openInput s filename

theorem ispFileToBuff_keeps {len : ℕ} (hlt : len < 2 ^ 32) (filename : List UInt8) (h : Host σ) :
    Ends (ispFileToBuff E len filename h) (fun r _ => 0 ≤ r.1 →
      ∃ reads, inputReads E filename h.env = some reads ∧
        FileKeeps len (fileBytes reads) (endsFile reads) r) (fun _ _ => False) := by
  unfold ispFileToBuff inputReads
  refine Ends.bind_ok (get_apply h) (Ends.ite (fun hstd => fun _ => ?_) fun hstd => ?_)
  · rw [if_pos hstd]
    exact ⟨_, rfl, readFile_keeps hlt _ [] (Nat.zero_le _)⟩
  · rw [if_neg hstd]
    rcases E.openInput h.env filename with _ | reads
    · exact fun hr => absurd hr (by decide)
    · exact fun _ => ⟨reads, rfl, readFile_keeps hlt reads [] (Nat.zero_le _)⟩

end Files

/-- Short transfers lose nothing. -/
theorem shortTransfers_keep (E : Sys σ) (buf : List UInt8) (n m len : ℕ) (filename : List UInt8)
    (hbuf : buf ≠ []) (hsize : buf.length < 2 ^ 32) (hpos : 0 < n) (hn : n < 2 ^ 32)
    (hlen : len < 2 ^ 32) (h : Host (σ × List Poll)) :
    Ends (ispSerialWrite E.traced buf h) (fun r h' => ∃ ps, WriteKeeps buf h r h' ps)
        (fun _ _ => False) ∧
      Ends (ispSerialRead E.traced n m h) (fun r h' => ∃ ps, ReadKeeps n m h r h' ps)
        (fun _ _ => False) ∧
      Ends (ispFileToBuff E.traced len filename h) (fun r _ => 0 ≤ r.1 →
        ∃ reads, inputReads E.traced filename h.env = some reads ∧
          FileKeeps len (fileBytes reads) (endsFile reads) r) (fun _ _ => False) :=
  ⟨ispSerialWrite_keeps hbuf hsize h, ispSerialRead_keeps hpos hn h,
    ispFileToBuff_keeps hlen filename h⟩

/-- Three characters, one kept back and two that come one by one. -/
theorem shortTransfers_keep_singles :
    let E := (scripted fun _ => 100).sys (Sys.plain _)
    let h : Host (Wire (List (List UInt8)) × List Poll) := .start (⟨[], [[66], [67]], 0, []⟩, []) 65 0 0
    ∃ h' ps, ispSerialRead E.traced 4 3 h = .ok (3, [65, 66, 67]) h' ∧
      ReadKeeps 4 3 h (3, [65, 66, 67]) h' ps := by
  intro E h
  have hkeep := (shortTransfers_keep E [0] 4 3 1 [] (by decide) (by decide) (by decide) (by decide)
    (by decide) h).2.1
  have hvalue : value (ispSerialRead E.traced 4 3 h) = some (3, [65, 66, 67]) := by decide +kernel
  rcases hrun : ispSerialRead E.traced 4 3 h with ⟨r, h'⟩ | ⟨f, h'⟩ <;> rw [hrun] at hvalue hkeep
  · cases hvalue
    obtain ⟨ps, hps⟩ := hkeep
    exact ⟨h', ps, rfl, hps⟩
  · cases hvalue

end LpcTools
