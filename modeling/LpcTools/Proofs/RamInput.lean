import LpcTools.Lib.Pairs
import LpcTools.Proofs.ImageBuffer
import LpcTools.Proofs.Layout

/-!
# Which file `isp_cmd_write_to_ram` sends

The value of `isp_file_to_buff` is stored in an `unsigned int`, so that an error is a large number of
bytes to send (`ispCmdWriteToRam_unread_iff`). And what a word or a group of three takes from behind
the file is whatever the memory holds there (`sendsFile_iff`).
-/

namespace LpcTools

open Run Decimal

variable {σ : Type}

/-- What loading the input file returns. -/
def loadCode (E : Sys σ) (args : List (List UInt8)) (h : Host σ) : Option ℤ :=
  args[1]?.bind fun filename => (value (ispFileToBuff E ramMaxSize filename h)).map Prod.fst

section Code

variable {E : Sys σ} {h h' : Host σ} {arg₀ filename got : List UInt8} {rest : List (List UInt8)} {ret : ℤ}

/-- A load fails with one of two codes. -/
theorem readFile_code {len : ℕ} (hlen : len < 2 ^ 31) : ∀ (reads : List ReadOutcome) (got : List UInt8),
    got.length ≤ len → -12 ≤ (readFile len reads got).1 ∧ (readFile len reads got).1 ≤ len
  | [], got, hle => by
    rw [readFile, toInt_of_lt (by omega)]
    omega
  | .data bs :: reads, got, hle => by
    have hfit : (bs.take (len - got.length)).length ≤ len - got.length := List.length_take_le _ _
    rw [readFile]
    split_ifs
    · rw [toInt_of_lt (by omega)]
      omega
    · exact readFile_code hlen reads _ (by rw [List.length_append]; omega)
    · rw [toInt_of_lt (by omega)]
      simp only []
      omega
  | .again :: reads, got, hle => by
    rw [readFile]
    split_ifs
    · exact readFile_code hlen reads got hle
    · rw [toInt_of_lt (by omega)]
      omega
  | .error :: reads, got, hle => by
    rw [readFile]
    omega

theorem ispFileToBuff_code (hload : ispFileToBuff E ramMaxSize filename h = .ok (ret, got) h') :
    -13 ≤ ret := by
  have hread (reads : List ReadOutcome) (he : readFile ramMaxSize reads [] = (ret, got)) : -13 ≤ ret := by
    have := (readFile_code (show ramMaxSize < 2 ^ 31 by decide) reads [] (Nat.zero_le _)).1
    rw [he] at this
    simp only [] at this
    omega
  unfold ispFileToBuff at hload
  rw [bind_ok (get_apply _)] at hload
  split_ifs at hload
  · exact hread _ (EStateM.Result.ok.inj hload).1
  · rcases hopen : E.openInput h.env filename with _ | reads <;> rw [hopen] at hload
    · cases hload
      exact Int.le_refl _
    · exact hread _ (EStateM.Result.ok.inj hload).1

/-- An error is a number of bytes. -/
theorem toUnsigned_ne_zero (hne : ret ≠ 0) (hge : -2 ^ 32 < ret) (hlt : ret < 2 ^ 32) :
    (toUnsigned ret).toNat ≠ 0 := by
  rw [toUnsigned, UInt32.toNat_ofNat']
  omega

/-- A transfer to the device leaves its request in the log. -/
theorem ispSendBufToRam_ne (data : Mem) (addr : ℕ) (count : UInt32) (uu : ℕ) (h : Host σ) (ret : ℤ) :
    ispSendBufToRam E data addr count uu h ≠ .ok ret h := by
  intro hrun
  obtain ⟨a, hoff, -⟩ := (ispSendBufToRam_ends (E := E) data addr uu h).ok hrun
  have := congrArg List.length hoff
  rw [List.length_append, List.length_singleton] at this
  omega

/-- What a load comes to decides what is sent. -/
theorem ispCmdWriteToRam_load (halign : argValue arg₀ % 4 = 0)
    (hload : ispFileToBuff E ramMaxSize filename h = .ok (ret, got) h) :
    ispCmdWriteToRam E (arg₀ :: filename :: rest) h =
      (if (toUnsigned ret).toNat = 0 then pure (-13)
      else ispSendBufToRam E (E.object h.env (ramBuffer E h.env got)) (argValue arg₀)
        (UInt32.ofNat (wholeWords (toUnsigned ret).toNat)) (argMode rest) : Prog σ ℤ) h := by
  unfold ispCmdWriteToRam
  simp only [halign, ne_eq, not_true_eq_false, if_false]
  rw [bind_ok (uninit_apply _ _ _), bind_ok (get_apply _), bind_ok hload]
  rfl

end Code

/-- A file that cannot be loaded, or is empty, is refused without a byte sent exactly when the load
does not fail, or the arguments are refused before it. -/
theorem ispCmdWriteToRam_unread_iff (E : Sys σ) (args : List (List UInt8)) (h : Host σ) :
    ((∀ code ∈ loadCode E args h, code ≤ 0) → ∃ ret < 0, ispCmdWriteToRam E args h = .ok ret h) ↔
      args.length < 2 ∨ argValue (args.headD []) % 4 ≠ 0 ∨ ∀ code ∈ loadCode E args h, 0 ≤ code := by
  rcases args with _ | ⟨arg₀, _ | ⟨filename, rest⟩⟩
  · exact iff_of_true (fun _ => ⟨-15, by decide, rfl⟩) (.inl (by decide))
  · exact iff_of_true (fun _ => ⟨-15, by decide, rfl⟩) (.inl (by simp))
  · by_cases halign : argValue arg₀ % 4 = 0
    · obtain ⟨⟨code, got⟩, hload⟩ := ispFileToBuff_eq (E := E) ramMaxSize filename h
      have hcode : loadCode E (arg₀ :: filename :: rest) h = some code := by
        simp [loadCode, hload]
      have hge := ispFileToBuff_code hload
      rw [ispCmdWriteToRam_load halign hload, hcode]
      constructor
      · intro hquiet
        refine .inr (.inr fun code' he => ?_)
        cases he
        by_contra hneg
        obtain ⟨ret, -, hrun⟩ := hquiet fun code' he => by
          cases he
          omega
        rw [if_neg (toUnsigned_ne_zero (by omega) (by omega) (by omega))] at hrun
        exact ispSendBufToRam_ne _ _ _ _ h ret hrun
      · rintro (hlen | hodd | hpos) hle
        · exact absurd hlen (by simp)
        · exact absurd halign hodd
        · obtain rfl : code = 0 := Int.le_antisymm (hle code rfl) (hpos code rfl)
          exact ⟨-13, by decide, rfl⟩
    · refine iff_of_true (fun _ => ⟨-14, by decide, ?_⟩) (.inr (.inl halign))
      unfold ispCmdWriteToRam
      simp only [if_pos halign]
      rfl

/-- For a file that does not exist the device is asked to take all but twelve bytes of the address
space. -/
theorem ispCmdWriteToRam_missing :
    let E := (scripted fun _ => 100).sys (Sys.plain _)
    let h := Host.start (.quiet [statusText 1]) 0 0 0
    let args := [bytes "0".toList, bytes "missing".toList]
    loadCode E args h = some (-13) ∧
      (final (ispCmdWriteToRam E args h)).requested = [bytes "W 0 4294967284\r\n".toList] ∧
      ¬ ∃ ret < 0, ispCmdWriteToRam E args h = .ok ret h := by
  intro E h args
  have hcode : loadCode E args h = some (-13) := by decide
  refine ⟨hcode, by decide +kernel, ?_⟩
  rintro ⟨ret, -, hrun⟩
  have hlog : (final (ispCmdWriteToRam E args h)).log ≠ [] := by decide +kernel
  rw [hrun] at hlog
  exact hlog rfl

section Same

variable {E : Sys σ} {data data' : Mem} {count : UInt32} {uu : ℕ} {l l' : SendLocals} {h h' : Host σ}

theorem mapM_congr {f g : ℕ → Option UInt8} : ∀ {is : List ℕ}, (∀ i ∈ is, f i = g i) →
    is.mapM f = is.mapM g
  | [], _ => rfl
  | i :: is, h => by
    rw [List.mapM_cons, List.mapM_cons, h i List.mem_cons_self,
      mapM_congr fun j hj => h j (List.mem_cons_of_mem _ hj)]

/-- A block depends on the groups it starts only. -/
theorem blockToSend_congr {n : UInt32} (hsame : ∀ k < wholeGroups n.toNat, data k = data' k) :
    blockToSend E data n = blockToSend E data' n := by
  have hlines : encodeLines data n.toNat 0 = encodeLines data' n.toNat 0 :=
    encodeLines_congr hsame 0 (.inl (Nat.dvd_zero 3))
  have hbytes : (List.range n.toNat).mapM data = (List.range n.toNat).mapM data' :=
    mapM_congr fun k hk => hsame k (by rw [List.mem_range] at hk; rw [wholeGroups]; omega)
  unfold blockToSend
  rw [ispUuEncode, ispUuEncode, hlines, hbytes]

/-- Where the sender stands, in whole blocks. -/
theorem sendTurn_at {blocks : UInt32} (hblocks : blocks = getNbBlocks count) {ds : List Bool}
    (hl : l.At count.toNat ds) (hturn : sendTurn E data count blocks l h = .ok (.inl l') h') :
    ∃ ds', l'.At count.toNat ds' := by
  rcases sendTurn_eq_ok.1 hturn with ⟨-, he, -⟩ | ⟨hi, text, n, h₁, -, -, hk⟩
  · cases he
  · rcases hk with ⟨-, he, -⟩ | ⟨-, len, got, h₂, -, ⟨-, he, -⟩ | ⟨-, hk⟩⟩
    · cases he
    · cases he
    · rcases takeReply_eq_ok.1 hk with ⟨-, he, -⟩ | ⟨-, -, he⟩
      · cases he
        rw [hblocks, UInt32.lt_iff_toNat_lt, getNbBlocks_toNat, hl.i] at hi
        exact ⟨_, hl.next hi⟩
      · split_ifs at he
        cases he
        exact ⟨ds, hl⟩

theorem sendTurn_congr (hsame : ∀ k < wholeGroups count.toNat, data k = data' k) {ds : List Bool}
    (hl : l.At count.toNat ds) :
    sendTurn E data count (getNbBlocks count) l = sendTurn E data' count (getNbBlocks count) l := by
  unfold sendTurn
  by_cases hi : l.i < getNbBlocks count
  · have hlt := hi
    rw [UInt32.lt_iff_toNat_lt, getNbBlocks_toNat, hl.i] at hlt
    obtain ⟨htotal, hsize⟩ := hl.datasize hlt
    rw [nbBlocks] at hlt
    have hblock : blockToSend E (data.drop l.totalBytesSent.toNat) (l.datasize count) =
        blockToSend E (data'.drop l.totalBytesSent.toNat) (l.datasize count) := by
      refine blockToSend_congr fun k hk => hsame _ ?_
      rw [hsize, blockSize, wholeGroups] at hk
      rw [htotal, wholeGroups]
      omega
    rw [SendLocals.datasize] at hblock
    simp only [hblock]
  · rw [if_neg hi, if_neg hi]

/-- A transfer depends on what it reads only. -/
theorem ispSendBufToRam_congr
    (hsame : ∀ k < if uu = 0 then count.toNat else wholeGroups count.toNat, data k = data' k)
    (addr : ℕ) (h : Host σ) :
    ispSendBufToRam E data addr count uu h = ispSendBufToRam E data' addr count uu h := by
  unfold ispSendBufToRam
  rcases hask : ispSendCmdTwoArgs E 'W'.toUInt8 (UInt32.ofNat addr) count h with ⟨ret, h₁⟩ | ⟨f, h₁⟩
  · rw [bind_ok hask, bind_ok hask]
    by_cases hret : ret ≠ 0
    · rw [if_pos hret, if_pos hret]
    · rw [if_neg hret, if_neg hret]
      by_cases huu : uu = 0
      · rw [if_pos huu] at hsame
        rw [if_pos huu, if_pos huu, mapM_congr fun k hk => hsame k (List.mem_range.1 hk)]
      · rw [if_neg huu] at hsame
        rw [if_neg huu, if_neg huu]
        have hpaired : Paired (fun a s a' s' => a = a' ∧ s = s') Eq
            ((sendLoop E data count (getNbBlocks count)).run ⟨0, 0⟩ h₁)
            ((sendLoop E data' count (getNbBlocks count)).run ⟨0, 0⟩ h₁) := by
          refine Loop.paired (L := sendLoop E data count (getNbBlocks count))
            (I := fun l s l' s' => (l = l' ∧ s = s') ∧ ∃ ds, l.At count.toNat ds) ?_
            ⟨⟨rfl, rfl⟩, [], .start⟩
          rintro l s l' s' ⟨⟨rfl, rfl⟩, ds, hl⟩
          change Paired _ _ (sendTurn E data count _ l s) (sendTurn E data' count _ l s)
          rw [← sendTurn_congr hsame hl]
          rcases hturn : sendTurn E data count (getNbBlocks count) l s with ⟨l₁ | b, s₁⟩ | ⟨f, s₁⟩
          · exact ⟨⟨rfl, rfl⟩, sendTurn_at rfl hl hturn⟩
          · exact ⟨rfl, rfl⟩
          · exact ⟨rfl, rfl⟩
        exact hpaired.eq (fun _ _ _ _ he => he) fun _ _ he => he
  · rw [bind_error hask, bind_error hask]

end Same

/-- The file goes out with what its bytes fill up a word with, whatever the memory holds: as the
transfer of an object with nothing around it. -/
def SendsFile (arg₀ : List UInt8) (rest : List (List UInt8)) (content : List UInt8) : Prop :=
  ∃ padding, (content ++ padding).length = wholeWords content.length ∧
    ∀ {σ : Type} (E : Sys σ) (h : Host σ) (filename : List UInt8), Gives E h.env filename content →
      ispCmdWriteToRam E (arg₀ :: filename :: rest) h =
        if argValue arg₀ % 4 ≠ 0 then .ok (-14) h
        else ispSendBufToRam E (Mem.of (content ++ padding)) (argValue arg₀)
          (UInt32.ofNat (wholeWords content.length)) (argMode rest) h

section Sends

variable {arg₀ content : List UInt8} {rest : List (List UInt8)}

/-- A file of whole words, and of whole groups where they are encoded. -/
theorem sendsFile_of_whole (hpos : content ≠ []) (hfit : content.length ≤ ramMaxSize)
    (hcond : argValue arg₀ % 4 ≠ 0 ∨ 4 ∣ content.length ∧ (argMode rest = 0 ∨ 3 ∣ content.length)) :
    SendsFile arg₀ rest content := by
  by_cases halign : argValue arg₀ % 4 = 0
  · obtain ⟨hfour, hthree⟩ := hcond.resolve_left (not_not.2 halign)
    have hwhole : wholeWords content.length = content.length := by
      rw [wholeWords, if_neg (by omega)]
    refine ⟨[], by rw [List.append_nil, hwhole], fun {σ} E h filename hfile => ?_⟩
    rw [if_neg (not_not.2 halign), ispCmdWriteToRam_eq halign hfile hpos,
      List.take_of_length_le hfit, List.append_nil, hwhole]
    refine ispSendBufToRam_congr (fun k hk => ?_) _ _
    rw [toNat_ofNat_ram hfit] at hk
    have hlt : k < content.length := by
      split_ifs at hk with huu
      · exact hk
      · have := hthree.resolve_left huu
        rw [wholeGroups] at hk
        omega
    have hbuffer : (ramBuffer E h.env content)[k]? = content[k]? := by
      rw [ramBuffer, overlay_zero, List.getElem?_append_left hlt]
    rw [Sys.object, if_pos (by rw [ramBuffer_length hfit]; omega), hbuffer, Mem.of]
  · refine ⟨.replicate (wholeWords content.length - content.length) 0, ?_,
      fun {σ} E h filename hfile => ?_⟩
    · have := (wholeWords_bounds content.length).1
      rw [List.length_append, List.length_replicate]
      omega
    · rw [if_pos halign]
      unfold ispCmdWriteToRam
      simp only [if_pos halign]
      rfl

/-- A system with one file on it, and memory full of the same byte. -/
def filledSys {σ : Type} (content : List UInt8) (x : UInt8) : Sys σ :=
  { Sys.plain σ with
    openInput := fun _ _ => some [.data content]
    stack := fun _ _ => x
    beyond := fun _ _ => some x }

/-- The bytes can be read back where they are placed. -/
theorem place_inj {f : UInt32 → UInt8} {addr : UInt32} {bs bs' : List UInt8}
    (hlen : bs.length = bs'.length) (hlt : bs.length < 2 ^ 32)
    (h : place f addr bs = place f addr bs') : bs = bs' := by
  refine List.ext_getElem hlen fun i hi hi' => ?_
  have hoffset := offset_toNat addr (show i < 2 ^ 32 by omega)
  have hbyte := congrFun h (addr + UInt32.ofNat i)
  rw [place_of_lt (by rwa [hoffset]), place_of_lt (by rwa [hoffset])] at hbyte
  simpa only [hoffset] using hbyte

/-- The buffer on such a system. -/
theorem ramBuffer_filled {x : UInt8} {env : σ} {n : ℕ} (hle : content.length ≤ n)
    (hn : n ≤ ramMaxSize) : (ramBuffer (filledSys content x) env content).take n =
      content ++ .replicate (n - content.length) x := by
  have hfill : (List.range ramMaxSize).map ((filledSys content x).stack env) =
      .replicate ramMaxSize x := by
    rw [List.eq_replicate_iff]
    simp [filledSys]
  have hmin : min (n - content.length) (ramMaxSize - content.length) = n - content.length := by omega
  rw [ramBuffer, overlay_zero, hfill, List.drop_replicate, List.take_append,
    List.take_of_length_le hle, List.take_replicate, hmin]

theorem slice_memOf (bs : List UInt8) : slice (fun i => (Mem.of bs i).getD 0) 0 bs.length = bs := by
  refine List.ext_getElem (slice_length ..) fun i hi hi' => ?_
  simp [slice, Mem.of, hi']

theorem whole_of_sendsFile (hpos : content ≠ []) (hfit : content.length ≤ ramMaxSize)
    (hsends : SendsFile arg₀ rest content) (halign : argValue arg₀ % 4 = 0) :
    4 ∣ content.length ∧ (argMode rest = 0 ∨ 3 ∣ content.length) := by
  obtain ⟨padding, hlen, hall⟩ := hsends
  have hcount := wholeWords_le hfit
  have hsize := toNat_ofNat_ram hcount
  obtain ⟨hle, -, hmod⟩ := wholeWords_bounds content.length
  have hne : UInt32.ofNat (wholeWords content.length) ≠ 0 := fun h0 => by
    have := List.length_pos_iff.2 hpos
    rw [h0, UInt32.toNat_zero] at hsize
    omega
  have hdevice : Faithful (bootloader (fun _ => none) (argMode rest)) (fun _ => none) (argMode rest)
    id := bootloader_faithful
  have hidle : Idle id blankHost := ⟨rfl, rfl, rfl⟩
  -- what goes out is what the memory is full of, and it can be read
  have hrun (x : UInt8) : ReadsAll (Mem.of (content ++ padding)) (wholeWords content.length)
        (argMode rest) ∧
      padding = .replicate (wholeWords content.length - content.length) x := by
    have hfile : Gives ((bootloader (fun _ => none) (argMode rest)).sys (filledSys content x))
        blankHost.env ['f'.toUInt8] content := .single rfl rfl hpos
    have hsame := hall _ _ _ hfile
    rw [if_neg (not_not.2 halign)] at hsame
    rcases ispCmdWriteToRam_stored (O := filledSys content x) (fun _ => 0) hdevice hidle halign hfile
      hpos with ⟨⟨-, -, i, -, hnone⟩, -⟩ | ⟨m, ret, h', hslice, hran, hst⟩
    · cases hnone
    · obtain ⟨rfl, -⟩ := hst.willing bootloader_willing rfl
      rw [hsame] at hran
      have hread := (ispSendBufToRam_reads (E := (bootloader (fun _ => none) (argMode rest)).sys
        (filledSys content x)) (Mem.of (content ++ padding)) (argValue arg₀)
        (UInt32.ofNat (wholeWords content.length)) (argMode rest) blankHost).ok hran rfl
      rw [hsize] at hread
      refine ⟨hread, ?_⟩
      rcases ispSendBufToRam_stored (O := filledSys content x) (fun _ => 0) hdevice hidle
        (Mem.getD_eq (Mem.of (content ++ padding))) (argValue arg₀) hne with
        ⟨-, h₁, hfault, -⟩ | ⟨ret, h₁, hran', hst'⟩
      · rw [hran] at hfault
        cases hfault
      · rw [hran] at hran'
        cases hran'
        have hram := (hst.ram rfl).symm.trans (hst'.ram rfl)
        rw [List.take_of_length_le hfit] at hslice hram
        have hobject := slice_memOf (content ++ padding)
        rw [hlen] at hobject
        rw [hsize, hslice, ramBuffer_filled hle hcount, hobject] at hram
        rw [List.length_append] at hlen
        refine (List.append_cancel_left (place_inj ?_ ?_ hram)).symm
        · rw [List.length_append, List.length_append, List.length_replicate]
          omega
        · rw [ramMaxSize] at hcount
          rw [List.length_append, List.length_replicate]
          omega
  obtain ⟨hread, hzero⟩ := hrun 0
  obtain ⟨-, hone⟩ := hrun 1
  have hwhole : wholeWords content.length - content.length = 0 := by
    by_contra hne
    rw [hzero, List.replicate_inj] at hone
    exact absurd (hone.2.resolve_left hne) (by decide)
  refine ⟨by omega, ?_⟩
  by_contra hcond
  obtain ⟨huu, hthree⟩ := not_or.1 hcond
  rw [ReadsAll, if_neg huu] at hread
  refine hread content.length (by rw [wholeGroups]; omega) ?_
  rw [Mem.of, hzero, hwhole, List.replicate_zero, List.append_nil]
  exact List.getElem?_eq_none (Nat.le_refl _)

end Sends

/-- What is sent of a file depends on nothing else exactly when there is nothing to fill up, or the
address is refused. -/
theorem sendsFile_iff (arg₀ : List UInt8) (rest : List (List UInt8)) {content : List UInt8}
    (hpos : content ≠ []) (hfit : content.length ≤ ramMaxSize) :
    SendsFile arg₀ rest content ↔
      argValue arg₀ % 4 ≠ 0 ∨ 4 ∣ content.length ∧ (argMode rest = 0 ∨ 3 ∣ content.length) := by
  refine ⟨fun hsends => ?_, sendsFile_of_whole hpos hfit⟩
  by_cases halign : argValue arg₀ % 4 = 0
  · exact .inr (whole_of_sendsFile hpos hfit hsends halign)
  · exact .inl halign

theorem sendsFile_iff_word : SendsFile ['0'.toUInt8] [['0'.toUInt8]] [1, 2, 3, 4] ↔
    argValue ['0'.toUInt8] % 4 ≠ 0 ∨ 4 ∣ [1, 2, 3, 4].length ∧
      (argMode [['0'.toUInt8]] = 0 ∨ 3 ∣ [1, 2, 3, 4].length) :=
  sendsFile_iff _ _ (by simp) (by decide)

/-- Of a file of one byte, a word goes out with three bytes of the memory in it. -/
theorem sendsFile_oneByte :
    (∀ x ∈ [(0 : UInt8), 1], (final (ispCmdWriteToRam ((scripted fun _ => 100).sys (filledSys [65] x))
        [bytes "0".toList, bytes "f".toList, bytes "0".toList]
        (.start (.quiet [statusText 0]) 0 0 0))).env.heard.map Prod.fst =
          [bytes "W 0 4\r\n".toList, [65, x, x, x]]) ∧
      ¬ SendsFile ['0'.toUInt8] [['0'.toUInt8]] [65] := by
  refine ⟨?_, fun hsends => ?_⟩
  · set h : Host (Wire (List (List UInt8))) := .start (.quiet [statusText 0]) 0 0 0
    -- what is sent is read from four bytes, not from the whole buffer
    have hrun (x : UInt8) : ispCmdWriteToRam ((scripted fun _ => 100).sys (filledSys [65] x))
        [bytes "0".toList, bytes "f".toList, bytes "0".toList] h =
          ispSendBufToRam ((scripted fun _ => 100).sys (filledSys [65] x)) (Mem.of [65, x, x, x]) 0 4 0
            h := by
      set E := (scripted fun _ => 100).sys (filledSys [65] x)
      have hfile : Gives E h.env (bytes "f".toList) [65] := .single rfl rfl (by decide)
      have hbuffer : (ramBuffer (filledSys [65] x) h.env [65]).take 4 = [65, x, x, x] :=
        ramBuffer_filled (by decide) (by decide)
      rw [ispCmdWriteToRam_eq (by decide) hfile (by decide)]
      refine ispSendBufToRam_congr (fun k hk => ?_) 0 h
      have hlt : k < 4 := hk
      rw [Mem.of, ← hbuffer, List.getElem?_take_of_lt hlt]
      exact if_pos (by rw [ramBuffer_length (by decide)]; exact hlt.trans (by decide))
    simp only [hrun]
    decide +kernel
  · have hfour := (whole_of_sendsFile (by simp) (by decide) hsends (by decide)).1
    exact absurd hfour (by decide)

end LpcTools
