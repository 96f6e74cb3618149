import LpcTools.ProgCommands

/-!
# The image in the buffer

A file that can be read is loaded up to the length of the buffer, however the reads cut it. The words
of an image in a longer buffer are its own.
-/

namespace LpcTools

open Run

/-- What the reads of a file come to. -/
def contents : List ReadOutcome → List UInt8
  | [] => []
  | .data bs :: reads => bs ++ contents reads
  | .again :: reads => contents reads
  | .error :: reads => contents reads

/-- The name is that of a file that holds this, and that can be read. -/
structure Gives {σ : Type} (E : Sys σ) (env : σ) (filename content : List UInt8) : Prop where
  name : isStdStream filename = false
  opened : ∃ reads, E.openInput env filename = some reads ∧
    (∀ r ∈ reads, r ≠ .error ∧ r ≠ .data []) ∧ contents reads = content

/-- A file that is read in one piece. -/
theorem Gives.single {σ : Type} {E : Sys σ} {env : σ} {filename content : List UInt8}
    (hname : isStdStream filename = false) (hopen : E.openInput env filename = some [.data content])
    (hne : content ≠ []) : Gives E env filename content := by
  refine ⟨hname, _, hopen, fun r hr => ?_, List.append_nil _⟩
  rw [List.mem_singleton.1 hr]
  simp [hne]

section Load

theorem readFile_eq (len : ℕ) : ∀ (reads : List ReadOutcome) (got : List UInt8),
    (∀ r ∈ reads, r ≠ .error ∧ r ≠ .data []) → got.length ≤ len → readFile len reads got =
      (toInt ((got ++ contents reads).take len).length, (got ++ contents reads).take len)
  | [], got, _, hle => by
    rw [readFile, contents, List.append_nil, List.take_of_length_le hle]
  | .data bs :: reads, got, hreads, hle => by
    have hbs : bs ≠ [] := fun he => (hreads _ List.mem_cons_self).2 (by rw [he])
    have hrest : ∀ r ∈ reads, r ≠ .error ∧ r ≠ .data [] := fun r hr => hreads r (List.mem_cons_of_mem _ hr)
    rw [readFile, contents]
    by_cases hfull : got.length = len
    · have htake : bs.take (len - got.length) = [] := by rw [hfull, Nat.sub_self, List.take_zero]
      rw [if_pos htake, ← hfull, List.take_left]
    · have hne : bs.take (len - got.length) ≠ [] := by
        rw [Ne, List.take_eq_nil_iff, not_or]
        exact ⟨by omega, hbs⟩
      rw [if_neg hne]
      have hlen : (bs.take (len - got.length)).length = min (len - got.length) bs.length :=
        List.length_take
      by_cases hlt : got.length + (bs.take (len - got.length)).length < len
      · have hall : bs.take (len - got.length) = bs := List.take_of_length_le (by omega)
        rw [hall] at hlt ⊢
        rw [if_pos hlt, readFile_eq len reads (got ++ bs) hrest (by
          rw [List.length_append]
          omega), List.append_assoc]
      · have htake : (got ++ (bs ++ contents reads)).take len = got ++ bs.take (len - got.length) := by
          rw [List.take_append, List.take_of_length_le hle, List.take_append_of_le_length (by omega)]
        rw [if_neg hlt, htake, List.length_append]
  | .again :: reads, got, hreads, hle => by
    rw [readFile, contents]
    split_ifs with hlt
    · exact readFile_eq len reads got (fun r hr => hreads r (List.mem_cons_of_mem _ hr)) hle
    · have hfull : got.length = len := by omega
      rw [← hfull, List.take_left]
  | .error :: reads, got, hreads, _ => absurd rfl (hreads _ List.mem_cons_self).1

/-- A file is loaded up to the length of the buffer. -/
theorem ispFileToBuff_gives {σ : Type} {E : Sys σ} {h : Host σ} {filename content : List UInt8}
    (hfile : Gives E h.env filename content) (len : ℕ) : ispFileToBuff E len filename h =
      .ok (toInt (content.take len).length, content.take len) h := by
  obtain ⟨reads, hopen, hreads, rfl⟩ := hfile.opened
  unfold ispFileToBuff
  change (if isStdStream filename = true then _ else _ : Prog σ _) h = _
  rw [hfile.name, if_neg Bool.false_ne_true, hopen]
  change EStateM.Result.ok (readFile len reads []) h = _
  rw [readFile_eq len reads [] hreads (Nat.zero_le _)]
  rfl

/-- The value returned is the number of bytes stored, or an error. -/
theorem readFile_size (len : ℕ) : ∀ (reads : List ReadOutcome) (got : List UInt8),
    (readFile len reads got).1 = toInt (readFile len reads got).2.length ∨
      (readFile len reads got).1 < 0
  | [], got => .inl rfl
  | .data bs :: reads, got => by
    rw [readFile]
    split_ifs
    · exact .inl rfl
    · exact readFile_size len reads _
    · left
      rw [List.length_append]
  | .again :: reads, got => by
    rw [readFile]
    split_ifs
    · exact readFile_size len reads got
    · exact .inl rfl
  | .error :: reads, got => .inr (Int.negSucc_lt_zero 11)

theorem ispFileToBuff_size {σ : Type} {E : Sys σ} {h h' : Host σ} {filename image : List UInt8}
    {len : ℕ} {size : ℤ} (hr : ispFileToBuff E len filename h = .ok (size, image) h')
    (hsize : 0 < size) : size = toInt image.length := by
  have hread (reads : List ReadOutcome) (he : readFile len reads [] = (size, image)) :
      size = toInt image.length := by
    have := readFile_size len reads []
    rw [he] at this
    exact this.resolve_right (by simp only []; omega)
  unfold ispFileToBuff at hr
  rw [bind_ok (get_apply _)] at hr
  split_ifs at hr
  · exact hread _ (EStateM.Result.ok.inj hr).1
  · rcases hopen : E.openInput h.env filename with _ | reads <;> rw [hopen] at hr
    · have he := Prod.mk.inj (EStateM.Result.ok.inj hr).1
      rw [← he.1] at hsize
      exact absurd hsize (by decide)
    · exact hread _ (EStateM.Result.ok.inj hr).1

end Load

section Words

variable {a b t : List UInt8} {k : ℕ}

theorem word_eq (h : 4 * k + 4 ≤ a.length) : word a k =
    some (wordOf a[4 * k] a[4 * k + 1] a[4 * k + 2] a[4 * k + 3]) := by
  unfold word
  rw [List.getElem?_eq_getElem (by omega), List.getElem?_eq_getElem (by omega),
    List.getElem?_eq_getElem (by omega), List.getElem?_eq_getElem (by omega)]
  rfl

theorem length_of_word {w : UInt32} (h : word a k = some w) : 4 * k + 4 ≤ a.length := by
  simp only [word, Option.bind_eq_bind, Option.bind_eq_some_iff] at h
  obtain ⟨-, -, -, -, -, -, d, hd, -⟩ := h
  have := List.getElem?_eq_some_iff.1 hd
  obtain ⟨hlt, -⟩ := this
  omega

theorem word_replicate {n : ℕ} (h : 4 * k + 4 ≤ n) : word (.replicate n 0) k = some 0 := by
  rw [word_eq (by rw [List.length_replicate]; exact h)]
  simp only [List.getElem_replicate]
  rfl

/-- A word is its four bytes. -/
theorem word_congr (h : ∀ i < 4, a[4 * k + i]? = b[4 * k + i]?) : word a k = word b k := by
  unfold word
  rw [← h 1 (by omega), ← h 2 (by omega), ← h 3 (by omega)]
  have := h 0 (by omega)
  rw [Nat.add_zero] at this
  rw [this]

theorem word_append (h : 4 * k + 4 ≤ a.length) (t : List UInt8) : word (a ++ t) k = word a k :=
  word_congr fun i hi => List.getElem?_append_left (by omega)

theorem userCode_congr (h : ∀ k < 7, word a k = word b k) : userCode a = userCode b := by
  have hrange : List.range 7 = [0, 1, 2, 3, 4, 5, 6] := rfl
  unfold userCode
  rw [hrange]
  simp only [List.foldlM_cons, List.foldlM_nil, h 0 (by omega), h 1 (by omega), h 2 (by omega),
    h 3 (by omega), h 4 (by omega), h 5 (by omega), h 6 (by omega)]

theorem userCode_append (h : 28 ≤ a.length) (t : List UInt8) : userCode (a ++ t) = userCode a :=
  userCode_congr fun _ hk => word_append (by omega) t

theorem exists_userCode (h : 28 ≤ a.length) : ∃ cksum, userCode a = some cksum := by
  have hrange : List.range 7 = [0, 1, 2, 3, 4, 5, 6] := rfl
  unfold userCode
  rw [hrange]
  simp only [List.foldlM_cons, List.foldlM_nil]
  rw [word_eq (by omega), word_eq (by omega), word_eq (by omega), word_eq (by omega),
    word_eq (by omega), word_eq (by omega), word_eq (by omega)]
  exact ⟨_, rfl⟩

theorem wordOf_bytesOfWord (w : UInt32) : bytesOfWord w = [UInt8.ofNat w.toNat,
    UInt8.ofNat (w.toNat / 2 ^ 8), UInt8.ofNat (w.toNat / 2 ^ 16), UInt8.ofNat (w.toNat / 2 ^ 24)] ∧
    wordOf (UInt8.ofNat w.toNat) (UInt8.ofNat (w.toNat / 2 ^ 8)) (UInt8.ofNat (w.toNat / 2 ^ 16))
      (UInt8.ofNat (w.toNat / 2 ^ 24)) = w := by
  refine ⟨rfl, ?_⟩
  apply UInt32.toNat_inj.1
  have := w.toNat_lt
  rw [wordOf, UInt32.toNat_ofNat', UInt8.toNat_ofNat', UInt8.toNat_ofNat', UInt8.toNat_ofNat',
    UInt8.toNat_ofNat']
  omega

/-- The bytes of an image with some of them replaced. -/
theorem getElem?_overlay {new : List UInt8} (hle : k + new.length ≤ a.length) (i : ℕ) :
    (overlay a k new)[i]? = if k ≤ i ∧ i < k + new.length then new[i - k]? else a[i]? := by
  have htake : (a.take k).length = k := by rw [List.length_take]; omega
  rw [overlay, List.getElem?_append, List.getElem?_append, List.length_append, htake]
  split_ifs with h1 h2 h3 h3 h4
  · omega
  · rw [List.getElem?_take, if_pos h2]
  · rfl
  · omega
  · omega
  · rw [List.getElem?_drop]
    congr 1
    omega

theorem overlay_append_right {new : List UInt8} (hle : k + new.length ≤ a.length) (t : List UInt8) :
    overlay (a ++ t) k new = overlay a k new ++ t := by
  unfold overlay
  rw [List.take_append_of_le_length (by omega), List.drop_append_of_le_length hle]
  simp only [List.append_assoc]

variable {w : UInt32}

theorem word_overlay_self (hle : 4 * k + 4 ≤ a.length) :
    word (overlay a (4 * k) (bytesOfWord w)) k = some w := by
  obtain ⟨hbytes, hword⟩ := wordOf_bytesOfWord w
  have hget (i : ℕ) (hi : i < 4) : (overlay a (4 * k) (bytesOfWord w))[4 * k + i]? =
      (bytesOfWord w)[i]? := by
    rw [getElem?_overlay (by rw [hbytes]; exact hle), if_pos (by rw [hbytes]; exact ⟨by omega, by
      rw [show [_, _, _, _].length = 4 from rfl]; omega⟩)]
    congr 1
    omega
  unfold word
  have h0 := hget 0 (by omega)
  rw [Nat.add_zero] at h0
  rw [h0, hget 1 (by omega), hget 2 (by omega), hget 3 (by omega), hbytes]
  exact congrArg some hword

theorem word_overlay_other {j : ℕ} (hle : 4 * k + 4 ≤ a.length) (hj : j ≠ k) :
    word (overlay a (4 * k) (bytesOfWord w)) j = word a j := by
  refine word_congr fun i hi => ?_
  rw [getElem?_overlay (by exact hle), if_neg]
  rw [show (bytesOfWord w).length = 4 from rfl]
  omega

end Words

end LpcTools
