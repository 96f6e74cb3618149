import LpcTools.Proofs.Checking
import LpcTools.Proofs.Dump
import LpcTools.Proofs.ReadProtection

/-!
# What the checker looks at

The words of the vector table and the CRP word are read at fixed offsets of a buffer of the file's
size. What is read behind the file is outside the buffer, or, where the length of the file does not
fit 32 bits, whatever the memory held before (`checksFile_iff`).
-/

namespace LpcTools

open Run

/-- How much of the file is loaded. -/
def loadedSize (content : List UInt8) : ℕ := content.length % 2 ^ 32

/-- The checker stays inside its buffer, and what it returns, prints and writes back comes from the
file. -/
def ChecksFile (calcUserCode checkCrp : Bool) (content : List UInt8) : Prop :=
  ∃ ret reports written, ∀ {σ : Type} (E : Sys σ) (h : Host σ) (filename : List UInt8),
    Gives E h.env filename content → E.malloc h.env content.length = true →
    ∃ h', binaryCheckReport E calcUserCode checkCrp (some content.length) filename h =
        .ok (ret, reports) h' ∧
      (h' = h ∨ ∃ n, h' = h.emit (.saved (cellsAt written n)))

/-- The buffer with the file in it. -/
def checkBuffer {σ : Type} (E : Sys σ) (env : σ) (content : List UInt8) : List UInt8 :=
  overlay ((List.range content.length).map (E.stack env)) 0 (content.take (loadedSize content))

/-- The value and the reports of the last check. -/
def crpVerdict (checkCrp : Bool) (crp : UInt32) (ret : ℤ) : ℤ × List Report :=
  if checkCrp then if isCrp crp then (-4, [.crp crp, .activated crp]) else (ret, [.crp crp])
  else (ret, [])

section Image

variable {σ : Type} {E : Sys σ} {h : Host σ} {calcUserCode checkCrp : Bool} {size ret : ℤ}
  {data filename : List UInt8} {reports : List Report} {cksum v₇ crp : UInt32}

theorem verifyCrp_eq (hcrp : checkCrp = true → word data (crpOffset / 4) = some crp) (ret : ℤ) :
    verifyCrp checkCrp data ret h = .ok (crpVerdict checkCrp crp ret) h := by
  unfold verifyCrp crpVerdict
  rcases checkCrp with _ | _
  · rfl
  · rw [hcrp rfl]
    simp only [if_true]
    split_ifs <;> rfl

theorem ispBuffToFile_saved (data : List Cell) (len : UInt32) (filename : List UInt8) (h : Host σ) :
    ∃ ret h', ispBuffToFile E data len filename h = .ok ret h' ∧
      (h' = h ∨ ∃ n ≤ len.toNat, h' = h.emit (.saved (cellsAt data n))) := by
  unfold ispBuffToFile
  rw [bind_ok (get_apply _)]
  split_ifs
  · exact ⟨_, h, rfl, .inl rfl⟩
  · rcases hsave : E.save h.env len.toNat with _ | n
    · exact ⟨_, h, rfl, .inl rfl⟩
    · exact ⟨_, _, rfl, .inr ⟨n, E.save_le hsave, rfl⟩⟩

/-- An image that is given its user code. -/
theorem checkImage_calc (size : ℤ) (filename : List UInt8) (hcode : userCode data = some cksum)
    (hseven : word data 7 = some v₇)
    (hcrp : checkCrp = true → word data (crpOffset / 4) = some crp) : ∃ h',
      checkImage E true checkCrp size data filename h =
        .ok ((crpVerdict checkCrp crp 0).1, .updated :: (crpVerdict checkCrp crp 0).2) h' ∧
      (h' = h ∨ ∃ n ≤ (toUnsigned size).toNat,
        h' = h.emit (.saved (cellsAt ((overlay data 28 (bytesOfWord cksum)).map some) n))) := by
  obtain ⟨ret, h', hfile, hsaved⟩ := ispBuffToFile_saved (E := E)
    ((overlay data 28 (bytesOfWord cksum)).map some) (toUnsigned size) filename h
  have hlen := length_of_word hseven
  have hkept : checkCrp = true → word (overlay data 28 (bytesOfWord cksum)) (crpOffset / 4) = some crp :=
    fun hc => (word_overlay_other (k := 7) hlen (by decide)).trans (hcrp hc)
  refine ⟨h', ?_, hsaved⟩
  unfold checkImage
  rw [hcode, hseven]
  simp only [if_true]
  rw [bind_ok hfile, bind_ok (verifyCrp_eq hkept 0)]
  rfl

/-- An image whose user code is only compared. -/
theorem checkImage_compare (size : ℤ) (filename : List UInt8) (hcode : userCode data = some cksum)
    (hseven : word data 7 = some v₇)
    (hcrp : checkCrp = true → word data (crpOffset / 4) = some crp) :
    checkImage E false checkCrp size data filename h =
      .ok (if cksum ≠ v₇ then ((crpVerdict checkCrp crp (-3)).1,
          .checksum v₇ cksum :: (crpVerdict checkCrp crp (-3)).2)
        else crpVerdict checkCrp crp 0) h := by
  unfold checkImage
  rw [hcode, hseven]
  simp only [Bool.false_eq_true, if_false]
  split_ifs
  · rw [bind_ok (verifyCrp_eq hcrp (-3))]
    rfl
  · exact verifyCrp_eq hcrp 0

/-- A check that comes to a verdict has looked at the words it needs. -/
theorem checkImage_words {h' : Host σ}
    (hrun : checkImage E calcUserCode checkCrp size data filename h = .ok (ret, reports) h') :
    (∃ cksum v₇, userCode data = some cksum ∧ word data 7 = some v₇) ∧
      (checkCrp = true → ∃ crp, word data (crpOffset / 4) = some crp) := by
  unfold checkImage at hrun
  rcases hcode : userCode data with _ | cksum <;> rw [hcode] at hrun
  · cases hrun
  · rcases hseven : word data 7 with _ | v₇ <;> rw [hseven] at hrun
    · cases hrun
    · refine ⟨⟨cksum, v₇, rfl, rfl⟩, ?_⟩
      rintro rfl
      have hlen := length_of_word hseven
      have hkept : word (overlay data 28 (bytesOfWord cksum)) (crpOffset / 4) =
          word data (crpOffset / 4) := word_overlay_other (k := 7) hlen (by decide)
      rcases hcrp : word data (crpOffset / 4) with _ | crp
      · have hnone (data : List UInt8) (ret : ℤ) (h : Host σ) (hd : word data (crpOffset / 4) = none) :
            verifyCrp true data ret h = .error .image h := by
          unfold verifyCrp
          rw [hd]
          rfl
        simp only [] at hrun
        split_ifs at hrun
        · obtain ⟨ret', h₁, -, hrun⟩ := bind_eq_ok.1 hrun
          rw [bind_error (hnone _ _ _ (hkept.trans hcrp))] at hrun
          cases hrun
        · rw [bind_error (hnone _ _ _ hcrp)] at hrun
          cases hrun
        · rw [hnone _ _ _ hcrp] at hrun
          cases hrun
      · exact ⟨crp, rfl⟩

/-- The CRP word is printed. -/
theorem crp_mem_verdict (ret : ℤ) (w : UInt32) :
    Report.crp w ∈ (crpVerdict true crp ret).2 ↔ w = crp := by
  rw [crpVerdict, if_pos rfl]
  split_ifs <;> simp

/-- The CRP word can be read off the reports. -/
theorem checkImage_crp {h' : Host σ}
    (hrun : checkImage E calcUserCode true size data filename h = .ok (ret, reports) h') :
    ∃ crp, word data (crpOffset / 4) = some crp ∧ ∀ w, Report.crp w ∈ reports ↔ w = crp := by
  obtain ⟨⟨cksum, v₇, hcode, hseven⟩, hall⟩ := checkImage_words hrun
  obtain ⟨crp, hcrp⟩ := hall rfl
  refine ⟨crp, hcrp, fun w => ?_⟩
  rcases calcUserCode with _ | _
  · rw [checkImage_compare size filename hcode hseven fun _ => hcrp] at hrun
    split_ifs at hrun with hne
    · cases hrun
      rw [List.mem_cons, crp_mem_verdict]
      simp
    · have hreports : (crpVerdict true crp 0).2 = reports :=
        congrArg Prod.snd (EStateM.Result.ok.inj hrun).1
      rw [← hreports]
      exact crp_mem_verdict _ _
  · obtain ⟨h₁, hcalc, -⟩ := checkImage_calc (E := E) (h := h) size filename
      hcode hseven fun _ => hcrp
    rw [hcalc] at hrun
    cases hrun
    rw [List.mem_cons, crp_mem_verdict]
    simp

/-- The word that is compared can be read off the reports where it is not the user code. -/
theorem compare_reports {h' : Host σ} (hcode : userCode data = some cksum)
    (hseven : word data 7 = some v₇)
    (hrun : checkImage E false false size data filename h = .ok (ret, reports) h') :
    reports = if cksum ≠ v₇ then [.checksum v₇ cksum] else [] := by
  have hskip : false = true → word data (crpOffset / 4) = some 0 := fun hc => by cases hc
  rw [checkImage_compare size filename hcode hseven hskip] at hrun
  split_ifs at hrun ⊢ with hne <;> cases hrun <;> rfl

end Image

section Buffer

variable {σ : Type} {E : Sys σ} {h : Host σ} {env : σ} {calcUserCode checkCrp : Bool}
  {content filename : List UInt8}

theorem loadedSize_le (content : List UInt8) : loadedSize content ≤ content.length := Nat.mod_le _ _

theorem loadedSize_lt (content : List UInt8) : loadedSize content < 2 ^ 32 := Nat.mod_lt _ (by decide)

theorem length_loaded : (content.take (loadedSize content)).length = loadedSize content :=
  List.length_take_of_le (loadedSize_le content)

theorem checkBuffer_eq : checkBuffer E env content = content.take (loadedSize content) ++
    ((List.range content.length).map (E.stack env)).drop (loadedSize content) := by
  rw [checkBuffer, overlay_zero, length_loaded]

theorem checkBuffer_length : (checkBuffer E env content).length = content.length := by
  have := loadedSize_le content
  rw [checkBuffer, overlay_length]
  · simp
  · simp [this]

theorem getElem?_checkBuffer_fresh {i : ℕ} (hi : loadedSize content ≤ i) (hlt : i < content.length) :
    (checkBuffer E env content)[i]? = some (E.stack env i) := by
  rw [checkBuffer_eq, List.getElem?_append_right (by rwa [length_loaded]), length_loaded,
    List.getElem?_drop, Nat.add_sub_cancel' hi, List.getElem?_map, List.getElem?_range hlt]
  rfl

theorem binaryCheckReport_load (hfile : Gives E h.env filename content)
    (hmalloc : E.malloc h.env content.length = true) :
    binaryCheckReport E calcUserCode checkCrp (some content.length) filename h =
      (if toInt (loadedSize content) ≤ 0 then pure (-2, [])
      else checkImage E calcUserCode checkCrp (toInt (loadedSize content))
        (checkBuffer E h.env content) filename : Prog σ _) h := by
  have hloaded := ispFileToBuff_gives hfile (loadedSize content)
  rw [length_loaded] at hloaded
  unfold binaryCheckReport
  simp only [show content.length % 2 ^ 32 = loadedSize content from rfl]
  rw [bind_ok (get_apply _), hmalloc, if_neg (by simp), bind_ok (uninit_apply _ _ _),
    bind_ok hloaded]
  rfl

/-- The start of two images that have been given a code. -/
theorem take_overlay_congr {d d₀ new new₀ : List UInt8} {k n : ℕ} (hnew : new.length = new₀.length)
    (hd : k + new.length ≤ d.length) (hd₀ : k + new.length ≤ d₀.length)
    (hsame : ∀ i < n, d[i]? = d₀[i]?) (hcode : k < n → new = new₀) :
    (overlay d k new).take n = (overlay d₀ k new₀).take n := by
  refine List.ext_getElem? fun i => ?_
  rw [List.getElem?_take, List.getElem?_take]
  split_ifs with hi
  · rw [getElem?_overlay hd, getElem?_overlay (by rwa [← hnew]), ← hnew]
    split_ifs with hk
    · rw [hcode (by omega)]
    · exact hsame i hi
  · rfl

/-- A file that is long enough for the words that are looked at, or of which only the start is
written back. -/
theorem checksFile_of_loaded (hpos : 0 < toInt (loadedSize content))
    (hcrp : checkCrp = true → 0x300 ≤ loadedSize content)
    (hcode : calcUserCode = false → 32 ≤ loadedSize content) (hlen : 32 ≤ content.length) :
    ChecksFile calcUserCode checkCrp content := by
  -- the image with zeros behind it
  let image := content.take (loadedSize content) ++ .replicate 0x300 (0 : UInt8)
  have hlt : loadedSize content < 2 ^ 31 := by
    by_contra hle
    rw [toInt_of_le (by omega) (loadedSize_lt content)] at hpos
    have := loadedSize_lt content
    omega
  have himage : 0x300 ≤ image.length := by
    rw [List.length_append, List.length_replicate]
    omega
  obtain ⟨cksum, hcksum⟩ := exists_userCode (a := image) (by omega)
  obtain ⟨v₇, hseven⟩ : ∃ v₇, word image 7 = some v₇ := ⟨_, word_eq (by omega)⟩
  obtain ⟨crp, hword⟩ : ∃ crp, word image (crpOffset / 4) = some crp :=
    ⟨_, word_eq (by rw [crpOffset]; omega)⟩
  have hsame {σ : Type} (E : Sys σ) (env : σ) {k : ℕ} (hk : 4 * k + 4 ≤ loadedSize content) :
      word (checkBuffer E env content) k = word image k := by
    rw [checkBuffer_eq, word_append (by rwa [length_loaded]), word_append (by rwa [length_loaded])]
  have hcrp' {σ : Type} (E : Sys σ) (env : σ) (hc : checkCrp = true) :
      word (checkBuffer E env content) (crpOffset / 4) = some crp :=
    (hsame E env (by have := hcrp hc; rw [crpOffset]; omega)).trans hword
  rcases calcUserCode with _ | _
  · have hle := hcode rfl
    let verdict := if cksum ≠ v₇ then ((crpVerdict checkCrp crp (-3)).1,
        Report.checksum v₇ cksum :: (crpVerdict checkCrp crp (-3)).2)
      else crpVerdict checkCrp crp 0
    refine ⟨verdict.1, verdict.2, [], ?_⟩
    intro σ E h filename hfile hmalloc
    refine ⟨h, ?_, .inl rfl⟩
    have hcode' : userCode (checkBuffer E h.env content) = some cksum :=
      (userCode_congr fun k hk => hsame E h.env (by omega)).trans hcksum
    rw [binaryCheckReport_load hfile hmalloc, if_neg (Int.not_le.2 hpos),
      checkImage_compare _ _ hcode' ((hsame E h.env (by omega)).trans hseven) (hcrp' E h.env)]
  · let verdict := crpVerdict checkCrp crp 0
    refine ⟨verdict.1, .updated :: verdict.2, (overlay image 28 (bytesOfWord cksum)).map some, ?_⟩
    intro σ E h filename hfile hmalloc
    have hbuffer : (checkBuffer E h.env content).length = content.length := checkBuffer_length
    obtain ⟨cksum', hcode'⟩ := exists_userCode (a := checkBuffer E h.env content) (by omega)
    obtain ⟨h', hrun, hsaved⟩ := checkImage_calc (E := E) (h := h) (toInt (loadedSize content)) filename
      hcode' (word_eq (k := 7) (by omega)) (hcrp' E h.env)
    refine ⟨h', ?_, ?_⟩
    · rw [binaryCheckReport_load hfile hmalloc, if_neg (Int.not_le.2 hpos), hrun]
    · rcases hsaved with rfl | ⟨n, hn, rfl⟩
      · exact .inl rfl
      · right
        have hfour (w : UInt32) : (bytesOfWord w).length = 4 := rfl
        rw [toUnsigned_toInt, UInt32.toNat_ofNat_of_lt' (loadedSize_lt content)] at hn
        have hle := loadedSize_le content
        refine ⟨n, ?_⟩
        have hpatched : (overlay (checkBuffer E h.env content) 28 (bytesOfWord cksum')).take n =
            (overlay image 28 (bytesOfWord cksum)).take n := by
          refine take_overlay_congr rfl (by rw [hfour]; omega) (by rw [hfour]; omega) (fun i hi => ?_)
            fun hlow => ?_
          · rw [checkBuffer_eq, List.getElem?_append_left (by rw [length_loaded]; omega),
              List.getElem?_append_left (by rw [length_loaded]; omega)]
          · have hcodes : userCode (checkBuffer E h.env content) = userCode image :=
              userCode_congr fun k hk => hsame E h.env (by omega)
            rw [hcode', hcksum] at hcodes
            rw [Option.some.inj hcodes]
        have hlength {d : List UInt8} (hd : n ≤ d.length) (hd' : 32 ≤ d.length) (w : UInt32) :
            cellsAt ((overlay d 28 (bytesOfWord w)).map some) n =
              ((overlay d 28 (bytesOfWord w)).take n).map some := by
          rw [cellsAt_of_le, List.map_take]
          rw [List.length_map, overlay_length (by rw [hfour]; omega)]
          exact hd
        rw [hlength (by omega) (by omega), hpatched, hlength _ (by omega)]
        rw [List.length_append, length_loaded]
        omega

/-- What is found where nothing has been loaded depends on the memory. -/
def dirtySys (content : List UInt8) (j : ℕ) (x : UInt8) : Sys Unit :=
  { Sys.plain Unit with
    openInput := fun _ _ => some [.data content]
    stack := fun _ i => if i = j then x else 0 }

theorem dirtySys_gives (hne : content ≠ []) (j : ℕ) (x : UInt8) :
    Gives (dirtySys content j x) () ['f'.toUInt8] content := .single rfl rfl hne

theorem wordOf_inj {a b c d a' b' c' d' : UInt8} (h : wordOf a b c d = wordOf a' b' c' d') : d = d' := by
  have hval := congrArg UInt32.toNat h
  rw [wordOf_toNat, wordOf_toNat] at hval
  have := a.toNat_lt
  have := b.toNat_lt
  have := c.toNat_lt
  have := a'.toNat_lt
  have := b'.toNat_lt
  have := c'.toNat_lt
  apply UInt8.toNat_inj.1
  omega

/-- The word that ends with a byte nothing has been loaded over. -/
theorem word_dirty_ne (content : List UInt8) {k : ℕ} (hk : loadedSize content ≤ 4 * k + 3) (hlt : 4 * k + 3 < content.length) :
    word (checkBuffer (dirtySys content (4 * k + 3) 0) () content) k ≠
      word (checkBuffer (dirtySys content (4 * k + 3) 1) () content) k := by
  have hlen (x : UInt8) : (checkBuffer (dirtySys content (4 * k + 3) x) () content).length =
      content.length := checkBuffer_length
  have hlast (x : UInt8) : (checkBuffer (dirtySys content (4 * k + 3) x) () content)[4 * k + 3]? =
      some x := (getElem?_checkBuffer_fresh hk hlt).trans (by simp [dirtySys])
  intro he
  rw [word_eq (by have := hlen 0; omega), word_eq (by have := hlen 1; omega)] at he
  have hd := wordOf_inj (Option.some.inj he)
  have h0 := hlast 0
  have h1 := hlast 1
  rw [List.getElem?_eq_getElem (by have := hlen 0; omega)] at h0
  rw [List.getElem?_eq_getElem (by have := hlen 1; omega)] at h1
  rw [Option.some.inj h0, Option.some.inj h1] at hd
  exact absurd hd (by decide)

theorem userCode_dirty (content : List UInt8) {j : ℕ} (hj : 28 ≤ j) (x y : UInt8) :
    userCode (checkBuffer (dirtySys content j x) () content) =
      userCode (checkBuffer (dirtySys content j y) () content) := by
  refine userCode_congr fun k hk => word_congr fun i hi => ?_
  unfold checkBuffer
  rw [overlay_zero, overlay_zero, List.getElem?_append, List.getElem?_append, List.getElem?_drop,
    List.getElem?_drop, List.getElem?_map, List.getElem?_map]
  split_ifs with hlt
  · rfl
  · rcases lt_or_ge ((content.take (loadedSize content)).length +
      (4 * k + i - (content.take (loadedSize content)).length)) content.length with hin | hin
    · rw [List.getElem?_range hin]
      simp only [Option.map_some, dirtySys]
      rw [if_neg (by omega), if_neg (by omega)]
    · rw [List.getElem?_eq_none (by simpa using hin)]
      rfl

/-- The run of the checker on a file of which something is looked at. -/
theorem checksFile_run (hpos : 0 < toInt (loadedSize content))
    (hfile : ChecksFile calcUserCode checkCrp content) : ∃ ret reports, ∀ j x, ∃ h',
      checkImage (dirtySys content j x) calcUserCode checkCrp (toInt (loadedSize content))
        (checkBuffer (dirtySys content j x) () content) ['f'.toUInt8] (.start () 0 0 0) =
          .ok (ret, reports) h' := by
  have hne : content ≠ [] := by
    rintro rfl
    exact absurd hpos (by decide)
  obtain ⟨ret, reports, written, hall⟩ := hfile
  refine ⟨ret, reports, fun j x => ?_⟩
  obtain ⟨h', hrun, -⟩ := hall (dirtySys content j x) (.start () 0 0 0) _ (dirtySys_gives hne j x) rfl
  rw [binaryCheckReport_load (dirtySys_gives hne j x) rfl, if_neg (Int.not_le.2 hpos)] at hrun
  exact ⟨h', hrun⟩

/-- The checker stays inside its buffer, with a result that comes from the file, exactly when nothing
is loaded, when less than nothing seems to be, or when all that it looks at is loaded; the user code
of a file that is so long that it wraps may come from anywhere, since it is not written back. -/
theorem checksFile_iff (calcUserCode checkCrp : Bool) (content : List UInt8) :
    ChecksFile calcUserCode checkCrp content ↔
      loadedSize content = 0 ∨ 2 ^ 31 ≤ loadedSize content ∨ 0x300 ≤ loadedSize content ∨
        checkCrp = false ∧ (32 ≤ loadedSize content ∨ calcUserCode = true ∧ 2 ^ 32 ≤ content.length) := by
  have hlt := loadedSize_lt content
  have hle := loadedSize_le content
  by_cases hpos : 0 < toInt (loadedSize content)
  · have hrange : 0 < loadedSize content ∧ loadedSize content < 2 ^ 31 := by
      by_cases hhigh : loadedSize content < 2 ^ 31
      · rw [toInt_of_lt hhigh] at hpos
        omega
      · rw [toInt_of_le (by omega) hlt] at hpos
        omega
    constructor
    · intro hfile
      obtain ⟨ret, reports, hrun⟩ := checksFile_run hpos hfile
      -- a short file is left
      by_contra hcond
      simp only [not_or, not_and_or, Bool.not_eq_false, not_le] at hcond
      obtain ⟨-, -, hshort, hcond⟩ := hcond
      obtain ⟨h₀, hrun₀⟩ := hrun (4 * 7 + 3) 0
      obtain ⟨⟨cksum, v₇, hcode, hseven⟩, hcrp⟩ := checkImage_words hrun₀
      have hlen := length_of_word hseven
      rw [checkBuffer_length] at hlen
      rcases checkCrp with _ | _
      · obtain ⟨hlow, hcalc⟩ := hcond.resolve_left (by simp)
        have hcalc : calcUserCode = false := by
          rcases hcalc with hcalc | hcalc
          · simpa using hcalc
          · have : loadedSize content = content.length := Nat.mod_eq_of_lt hcalc
            omega
        subst hcalc
        obtain ⟨h₁, hrun₁⟩ := hrun (4 * 7 + 3) 1
        obtain ⟨⟨cksum', v₇', hcode', hseven'⟩, -⟩ := checkImage_words hrun₁
        have hne := word_dirty_ne content (k := 7) (by omega) (by omega)
        have hsame := userCode_dirty content (j := 4 * 7 + 3) (by omega) 0 1
        rw [hcode, hcode'] at hsame
        cases hsame
        rw [hseven, hseven'] at hne
        have he := (compare_reports hcode hseven hrun₀).symm.trans
          (compare_reports hcode' hseven' hrun₁)
        split_ifs at he with h0 h1 h1
        · cases he
          exact hne rfl
        · exact hne (congrArg some ((not_not.1 h0).symm.trans (not_not.1 h1)))
      · obtain ⟨crp, hword⟩ := hcrp rfl
        have hlen' := length_of_word hword
        rw [checkBuffer_length] at hlen'
        obtain ⟨h₀, hrun₀⟩ := hrun (4 * (crpOffset / 4) + 3) 0
        obtain ⟨h₁, hrun₁⟩ := hrun (4 * (crpOffset / 4) + 3) 1
        obtain ⟨crp₀, hword₀, hmem₀⟩ := checkImage_crp hrun₀
        obtain ⟨crp₁, hword₁, hmem₁⟩ := checkImage_crp hrun₁
        have hne := word_dirty_ne content (k := crpOffset / 4)
          (by rw [crpOffset]; omega) (by omega)
        rw [hword₀, hword₁] at hne
        exact hne (congrArg some ((hmem₁ crp₀).1 ((hmem₀ crp₀).2 rfl)))
    · rintro (hzero | hhigh | hlow | ⟨rfl, hlow⟩)
      · omega
      · omega
      · exact checksFile_of_loaded hpos (fun _ => hlow) (fun _ => by omega) (by omega)
      · refine checksFile_of_loaded hpos (fun he => by cases he) ?_ (by omega)
        rintro rfl
        simpa using hlow
  · refine iff_of_true ⟨-2, [], [], ?_⟩ ?_
    · intro σ E h filename hfile hmalloc
      refine ⟨h, ?_, .inl rfl⟩
      rw [binaryCheckReport_load hfile hmalloc, if_pos (Int.not_lt.1 hpos)]
      rfl
    · by_cases hhigh : loadedSize content < 2 ^ 31
      · rw [toInt_of_lt hhigh] at hpos
        omega
      · omega

/-- A file of four bytes: the words 1 to 7 are outside the buffer. -/
theorem checksFile_short :
    let content : List UInt8 := [1, 2, 3, 4]
    Run.fault (binaryCheckReport (dirtySys content 0 0) true true (some content.length) ['f'.toUInt8]
        (.start () 0 0 0)) = some .image ∧
      ¬ ChecksFile true true content := by
  intro content
  have hfault : Run.fault (binaryCheckReport (dirtySys content 0 0) true true (some content.length)
      ['f'.toUInt8] (.start () 0 0 0)) = some .image := by decide
  refine ⟨hfault, ?_⟩
  rintro ⟨ret, reports, written, hall⟩
  obtain ⟨h', hrun, -⟩ := hall (dirtySys content 0 0) (.start () 0 0 0) ['f'.toUInt8]
    (dirtySys_gives (by simp [content]) 0 0) rfl
  rw [hrun] at hfault
  cases hfault

end Buffer

end LpcTools
