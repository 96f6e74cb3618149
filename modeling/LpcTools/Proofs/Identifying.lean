import LpcTools.Identify
import LpcTools.Proofs.Answers
import LpcTools.Proofs.PartsReject

/-!
# Which part `lpcprog` comes to

One `int` carries the id, the status of the request and its errors. So a part is found for a status
that is the id of one, for the low bits of a number that is no id of 32 bits, and none for an id with
the sign bit set.
-/

namespace LpcTools

open Run Decimal

variable {σ : Type}

/-- What comes of the request for the part id: the host breaks off, gets a status or an error, nothing
behind a status 0, or a text. -/
inductive IdReply where
  | broken
  | status (code : ℤ)
  | silent
  | text (got : List UInt8)
  deriving DecidableEq

/-- The reply to the request for the part id, as the host gets it from here. -/
def idReply (E : Sys σ) (h : Host σ) : IdReply :=
  match ispSendCmdNoArgs E readPartId 1 h with
  | .error _ _ => .broken
  | .ok code h₁ =>
    if code ≠ 0 then .status code
    else
      match ispSerialRead E repBufsize 15 h₁ with
      | .error _ _ => .broken
      | .ok (len, got) _ => if len ≤ 0 then .silent else .text got

/-- A part id as a device sends it: a number in decimal, ended by the end of a line. -/
def IdText (got : List UInt8) (v : ℕ) : Prop :=
  ∃ w d ds c rest, got = w ++ (d :: ds ++ c :: rest) ∧ Blank w ∧ digitsValue 10 (d :: ds) = some v ∧
    (c = '\r'.toUInt8 ∨ c = '\n'.toUInt8)

/-- The buffer the text of an id is read into. -/
def idBuffer (E : Sys σ) (h : Host σ) (got : List UInt8) : List UInt8 :=
  overlay ((List.range repBufsize).map (E.stack h.env)) 0 got

section Reply

variable {E : Sys σ} {h : Host σ}

theorem ispCmdPartId_value : value (ispCmdPartId E 1 h) =
    match idReply E h with
    | .broken => none
    | .status code => some code
    | .silent => some (-2)
    | .text got => (strtoul 10 (idBuffer E h got)).map fun r => toInt r.1 := by
  unfold ispCmdPartId readReply idReply
  rw [bind_ok (uninit_apply _ _ _)]
  rcases hsend : ispSendCmdNoArgs E readPartId 1 h with ⟨code, h₁⟩ | ⟨f, h₁⟩
  · rw [bind_ok hsend]
    by_cases hcode : code ≠ 0
    · simp only [if_pos hcode]
      rfl
    · simp only [if_neg hcode]
      rcases hread : ispSerialRead E repBufsize 15 h₁ with ⟨⟨len, got⟩, h₂⟩ | ⟨f, h₂⟩
      · have hmore : readMore E repBufsize 15 h₁ = .ok (len, got) (h₂.emit (.replied (0 < len))) := by
          unfold readMore
          rw [bind_ok hread]
          rfl
        rw [bind_ok hmore]
        by_cases hlen : len ≤ 0
        · simp only [if_pos hlen]
          rfl
        · simp only [if_neg hlen, readNumbers, idBuffer]
          rcases strtoul 10 (overlay ((List.range repBufsize).map (E.stack h.env)) 0 got) with
            _ | ⟨v, rest⟩
          · rfl
          · rfl
      · have hmore : readMore E repBufsize 15 h₁ = .error f h₂ := by
          unfold readMore
          rw [bind_error hread]
        rw [bind_error hmore]
        rfl
  · rw [bind_error hsend]
    rfl

/-- A status is an `int`. -/
theorem idReply_range {code : ℤ} (hreply : idReply E h = .status code) :
    code ≠ 0 ∧ -2 ^ 31 ≤ code ∧ code < 2 ^ 31 := by
  have hends := ispSendCmdNoArgs_ends (E := E) readPartId 1 h
  unfold idReply at hreply
  rcases hsend : ispSendCmdNoArgs E readPartId 1 h with ⟨code', h₁⟩ | ⟨f, h₁⟩ <;>
    rw [hsend] at hreply hends
  · simp only [] at hreply
    split_ifs at hreply with hcode
    · cases hreply
      exact ⟨hcode, hends.1⟩
    · split at hreply
      · cases hreply
      · split_ifs at hreply
  · cases hreply

theorem plain_of_digits {d : UInt8} {ds : List UInt8} {v : ℕ} (h : digitsValue 10 (d :: ds) = some v) :
    isSpace d = false ∧ d ≠ '-'.toUInt8 ∧ d ≠ '+'.toUInt8 := plain_of_digit (digit_of_digitsValue h)

/-- The id is read off the buffer, whatever the buffer held. -/
theorem strtoul_idText {got : List UInt8} {v : ℕ} (hid : IdText got v) (hv : v < 2 ^ 32)
    (t : List UInt8) : ∃ rest, strtoul 10 (got ++ t) = some (v, rest) := by
  obtain ⟨w, d, ds, c, rest, rfl, hw, hvalue, hc⟩ := hid
  refine ⟨c :: (rest ++ t), ?_⟩
  obtain ⟨hspace, hminus, hplus⟩ := plain_of_digits hvalue
  have hstop : digitIn 10 c = none := by
    rcases hc with rfl | rfl <;> rfl
  have hskip : skipSpaces (w ++ (d :: ds ++ c :: (rest ++ t))) = some (d :: ds ++ c :: (rest ++ t)) := by
    induction w with
    | nil => rw [List.nil_append, List.cons_append, skipSpaces, hspace]; rfl
    | cons e w ih =>
      rw [List.cons_append, skipSpaces, hw e List.mem_cons_self]
      exact ih fun e' he' => hw e' (List.mem_cons_of_mem _ he')
  have hsign : takeSign (d :: ds ++ c :: (rest ++ t)) = some (false, d :: ds ++ c :: (rest ++ t)) := by
    rw [List.cons_append, takeSign, if_neg hminus, if_neg hplus]
  have hprefix : takePrefix 10 (d :: ds ++ c :: (rest ++ t)) =
      some (10, d :: ds ++ c :: (rest ++ t)) := by
    rw [List.cons_append, takePrefix_other (by simp)]
    rfl
  have hscan : scanDigits 10 0 (d :: ds ++ c :: (rest ++ t)) = some (v, c :: (rest ++ t)) :=
    scanDigits_value hstop _ hvalue
  have hlen : ¬ (c :: (rest ++ t)).length = (d :: ds ++ c :: (rest ++ t)).length := by
    simp only [List.length_append, List.length_cons]
    omega
  have hmax : ¬ ulongMax < v := by
    rw [ulongMax]
    omega
  have htext : w ++ (d :: ds ++ c :: rest) ++ t = w ++ (d :: ds ++ c :: (rest ++ t)) := by simp
  rw [htext]
  simp only [strtoul, hskip, hsign, hprefix, hscan, Option.bind_eq_bind, Option.bind_some, if_neg hlen,
    if_neg hmax]
  rfl

theorem strtoul_idBuffer {got : List UInt8} {v : ℕ} (hid : IdText got v) (hv : v < 2 ^ 32) :
    ∃ rest, strtoul 10 (idBuffer E h got) = some (v, rest) := by
  rw [idBuffer, overlay_zero]
  exact strtoul_idText hid hv _

end Reply

section Find

theorem findIn_partId {einval : Bool} {buffer : ℕ → List UInt8 → List UInt8} {devId : ℕ} :
    ∀ {ps : List (List UInt8)} {line : ℕ} {part : PartEntry},
      findIn einval buffer devId line ps = .ok part → part.partId = devId
  | [], _, _, h => by cases h
  | p :: ps, line, part, h => by
    rw [findIn] at h
    split_ifs at h
    · exact findIn_partId h
    · rcases hid : strtoul 0 (buffer line p) with _ | ⟨partId, endp⟩
      · rw [hid] at h
        cases h
      · rw [hid] at h
        change (if partId ≠ devId then _ else _) = _ at h
        split_ifs at h with hid
        · exact findIn_partId h
        · rcases hread : readPart einval endp with err | ⟨name, values⟩
          · rw [hread] at h
            cases h
          · rw [hread] at h
            cases h
            exact not_not.1 hid

theorem findPart_partId {einval : Bool} {stale : ℕ → ℕ → UInt8} {partsFile : Option (List UInt8)}
    {devId : UInt64} {part : PartEntry} (h : findPart einval stale partsFile devId = some part) :
    part.partId = devId.toNat := by
  rcases partsFile with _ | file
  · cases h
  · rw [findPart, findPartInFile] at h
    rcases hfind : findIn einval (lineBuffer stale) devId.toNat 1 (pieces file) with (_ | _) | part'
    · rw [hfind] at h
      cases h
    · rw [hfind] at h
      cases h
    · rw [hfind] at h
      cases h
      exact findIn_partId hfind

theorem toUint64_natCast {n : ℕ} (hn : n < 2 ^ 64) : (toUint64 n).toNat = n := by
  rw [toUint64, UInt64.toNat_ofNat']
  omega

end Find

section Select

variable (E : Sys σ) (fuel : ℕ) (freq : UInt32) (h₀ : Host σ) (find : UInt64 → Option PartEntry)

/-- The part that `lpcprog` comes to. -/
def chosenPart : Option PartEntry :=
  (value (progConnectAndId E fuel freq h₀)).join.bind (partFor find)

/-- The part the device has: it answered status 0 and the id of this part. -/
def Connected (h : Host σ) (part : PartEntry) : Prop :=
  part.partId < 2 ^ 32 ∧ find (toUint64 part.partId) = some part ∧
    ∃ got, idReply E h = .text got ∧ IdText got part.partId

/-- Nothing is made of a reply but an id: no status is the id of a part, no part has an id with the
sign bit set, and no part has what is read of a text that is no id. -/
structure Unmistaken (h : Host σ) : Prop where
  status : ∀ code, idReply E h = .status code → 0 < code → find (toUint64 code) = none
  sign : ∀ got v, idReply E h = .text got → IdText got v → v < 2 ^ 32 → 2 ^ 31 ≤ v →
    find (toUint64 v) = none
  text : ∀ got v rest, idReply E h = .text got → (∀ w < 2 ^ 32, ¬ IdText got w) →
    strtoul 10 (idBuffer E h got) = some (v, rest) → 0 ≤ toInt v → find (toUint64 (toInt v)) = none

variable {E find}

/-- `main` and `prog_handle_command` run a command on the part they come to, and nothing without. -/
theorem lpcprog_eq (calcUserCode : ℤ) (command : List UInt8) (args : List (List UInt8)) :
    lpcprog E fuel freq find calcUserCode command args = do
      match ← progConnectAndId E fuel freq with
      | none => return none
      | some devId =>
        match partFor find devId with
        | none => return some (if devId < 0 then -1 else 0)
        | some part => do
          let _ ← match lookup progCmdsList command with
            | none => pure (-3)
            | some command => command.run E part.desc calcUserCode args
          return some 0 := by
  unfold lpcprog
  congr 1
  funext devId?
  rcases devId? with _ | devId
  · rfl
  · simp only [partFor]
    by_cases hneg : devId < 0
    · simp only [if_pos hneg]
    · simp only [if_neg hneg, progHandleCommand]
      rcases find (toUint64 devId) with _ | part
      · rfl
      · rcases lookup progCmdsList command with _ | command
        · simp only [Option.map_some]
        · simp only [Option.map_some]

/-- What is chosen of the reply to the last request. -/
def chosenAt (E : Sys σ) (find : UInt64 → Option PartEntry) (h : Host σ) : Option PartEntry :=
  (value (ispCmdPartId E 1 h)).bind (partFor find)

theorem chosenPart_eq : chosenPart E fuel freq h₀ find = match syncTarget E fuel freq h₀ with
    | .ok true h => chosenAt E find h
    | _ => none := by
  unfold chosenPart progConnectAndId
  rcases hsync : syncTarget E fuel freq h₀ with ⟨done, h⟩ | ⟨f, h⟩
  · rw [bind_ok hsync]
    rcases done with _ | _
    · rfl
    · change (value ((some <$> ispCmdPartId E 1) h)).join.bind (partFor find) = chosenAt E find h
      rw [value_map, chosenAt]
      rcases value (ispCmdPartId E 1 h) with _ | devId <;> rfl
  · rw [bind_error hsync]
    rfl

variable {h : Host σ}

/-- Nobody is connected where the reply is no text. -/
theorem unmistaken_of_status {code : ℤ} (hreply : idReply E h = .status code) :
    (∀ part, chosenAt E find h = some part ↔ Connected E find h part) ↔ Unmistaken E find h := by
  have hnone (part : PartEntry) : ¬ Connected E find h part := by
    rintro ⟨-, -, got, htext, -⟩
    rw [hreply] at htext
    cases htext
  have hchosen : chosenAt E find h = partFor find code := by
    rw [chosenAt, ispCmdPartId_value, hreply]
    rfl
  constructor
  · intro hall
    refine ⟨fun code' hcode hpos => ?_, fun got v htext => ?_, fun got v rest htext => ?_⟩
    · rw [hreply] at hcode
      cases hcode
      rcases hpart : find (toUint64 code) with _ | part
      · rfl
      · refine absurd ((hall part).1 ?_) (hnone part)
        rw [hchosen, partFor, if_neg (by omega), hpart]
    · rw [hreply] at htext
      cases htext
    · rw [hreply] at htext
      cases htext
  · intro hcond part
    refine iff_of_false ?_ (hnone part)
    obtain ⟨hne, -⟩ := idReply_range hreply
    rw [hchosen, partFor]
    split_ifs with hneg
    · exact fun he => by cases he
    · rw [hcond.status code hreply (by omega)]
      exact fun he => by cases he

/-- Nothing is chosen, and there is nothing to choose, where the request fails. -/
theorem unmistaken_of_value (hvalue : value (ispCmdPartId E 1 h) = none ∨
    value (ispCmdPartId E 1 h) = some (-2)) (hstatus : ∀ code, idReply E h ≠ .status code)
    (htext : ∀ got, idReply E h ≠ .text got) :
    (∀ part, chosenAt E find h = some part ↔ Connected E find h part) ↔ Unmistaken E find h := by
  refine iff_of_true (fun part => iff_of_false ?_ ?_) ⟨?_, ?_, ?_⟩
  · rcases hvalue with hvalue | hvalue <;> rw [chosenAt, hvalue] <;> exact fun he => by cases he
  · rintro ⟨-, -, got, hgot, -⟩
    exact htext got hgot
  · exact fun code hcode => absurd hcode (hstatus code)
  · exact fun got v hgot => absurd hgot (htext got)
  · exact fun got v rest hgot => absurd hgot (htext got)

theorem idText_unique {got : List UInt8} {v w : ℕ} (hv : IdText got v) (hw : IdText got w)
    (hv' : v < 2 ^ 32) (hw' : w < 2 ^ 32) : v = w := by
  obtain ⟨rest, hr⟩ := strtoul_idText hv hv' []
  obtain ⟨rest', hr'⟩ := strtoul_idText hw hw' []
  rw [hr] at hr'
  cases hr'
  rfl

/-- A text that is an id of 32 bits. -/
theorem unmistaken_of_id (hfind : ∀ {id part}, find id = some part → part.partId = id.toNat)
    {got : List UInt8} {v : ℕ} (hreply : idReply E h = .text got) (hid : IdText got v)
    (hv : v < 2 ^ 32) :
    (∀ part, chosenAt E find h = some part ↔ Connected E find h part) ↔ Unmistaken E find h := by
  obtain ⟨rest, hread⟩ := strtoul_idBuffer (E := E) (h := h) hid hv
  have hchosen : chosenAt E find h = partFor find (toInt v) := by
    rw [chosenAt, ispCmdPartId_value, hreply]
    simp only [hread, Option.map_some, Option.bind_some]
  have hconnected (part : PartEntry) : Connected E find h part ↔ find (toUint64 v) = some part := by
    constructor
    · rintro ⟨hlt, hpart, got', htext, hid'⟩
      rw [hreply] at htext
      cases htext
      rwa [idText_unique hid hid' hv hlt]
    · intro hpart
      have hpartId : part.partId = v := by rw [hfind hpart, toUint64_natCast (by omega)]
      exact ⟨hpartId ▸ hv, hpartId ▸ hpart, got, hreply, hpartId ▸ hid⟩
  by_cases hsign : v < 2 ^ 31
  · rw [toInt_of_lt hsign, partFor, if_neg (by omega)] at hchosen
    refine iff_of_true (fun part => by rw [hchosen, hconnected]) ⟨?_, ?_, ?_⟩
    · intro code hcode
      rw [hreply] at hcode
      cases hcode
    · intro got' w htext hid' hw hle
      rw [hreply] at htext
      cases htext
      have := idText_unique hid hid' hv hw
      omega
    · intro got' w rest' htext hno
      rw [hreply] at htext
      cases htext
      exact absurd hid (hno v hv)
  · have hneg : toInt v < 0 := by
      rw [toInt_of_le (Nat.le_of_not_lt hsign) hv]
      omega
    rw [partFor, if_pos hneg] at hchosen
    constructor
    · intro hall
      refine ⟨fun code hcode => ?_, fun got' w htext hid' hw hle => ?_,
        fun got' w rest' htext hno => ?_⟩
      · rw [hreply] at hcode
        cases hcode
      · rw [hreply] at htext
        cases htext
        rw [← idText_unique hid hid' hv hw]
        rcases hpart : find (toUint64 v) with _ | part
        · rfl
        · have := (hall part).2 ((hconnected part).2 hpart)
          rw [hchosen] at this
          cases this
      · rw [hreply] at htext
        cases htext
        exact absurd hid (hno v hv)
    · intro hcond part
      rw [hchosen, hconnected, hcond.sign got v hreply hid hv (Nat.le_of_not_lt hsign)]

/-- A text that is no id. -/
theorem unmistaken_of_text {got : List UInt8} (hreply : idReply E h = .text got)
    (hno : ∀ w < 2 ^ 32, ¬ IdText got w) :
    (∀ part, chosenAt E find h = some part ↔ Connected E find h part) ↔ Unmistaken E find h := by
  have hnone (part : PartEntry) : ¬ Connected E find h part := by
    rintro ⟨hlt, -, got', htext, hid⟩
    rw [hreply] at htext
    cases htext
    exact hno _ hlt hid
  have hchosen : chosenAt E find h =
      ((strtoul 10 (idBuffer E h got)).map fun r => toInt r.1).bind (partFor find) := by
    rw [chosenAt, ispCmdPartId_value, hreply]
  constructor
  · intro hall
    refine ⟨fun code hcode => ?_, fun got' w htext hid hw => ?_,
      fun got' w rest htext _ hread hpos => ?_⟩
    · rw [hreply] at hcode
      cases hcode
    · rw [hreply] at htext
      cases htext
      exact absurd hid (hno w hw)
    · rw [hreply] at htext
      cases htext
      rcases hpart : find (toUint64 (toInt w)) with _ | part
      · rfl
      · refine absurd ((hall part).1 ?_) (hnone part)
        rw [hchosen, hread, Option.map_some, Option.bind_some, partFor, if_neg (Int.not_lt.2 hpos), hpart]
  · intro hcond part
    refine iff_of_false ?_ (hnone part)
    rw [hchosen]
    rcases hread : strtoul 10 (idBuffer E h got) with _ | ⟨w, rest⟩
    · exact fun he => by cases he
    · rw [Option.map_some, Option.bind_some, partFor]
      split_ifs with hneg
      · exact fun he => by cases he
      · rw [hcond.text got w rest hreply hno hread (Int.not_lt.1 hneg)]
        exact fun he => by cases he

theorem chosenAt_iff (hfind : ∀ {id part}, find id = some part → part.partId = id.toNat) (h : Host σ) :
    (∀ part, chosenAt E find h = some part ↔ Connected E find h part) ↔ Unmistaken E find h := by
  have hvalue := ispCmdPartId_value (E := E) (h := h)
  rcases hreply : idReply E h with _ | code | _ | got
  · rw [hreply] at hvalue
    exact unmistaken_of_value (.inl hvalue) (by simp [hreply]) (by simp [hreply])
  · exact unmistaken_of_status hreply
  · rw [hreply] at hvalue
    exact unmistaken_of_value (.inr hvalue) (by simp [hreply]) (by simp [hreply])
  · by_cases hid : ∃ v < 2 ^ 32, IdText got v
    · obtain ⟨v, hv, hid⟩ := hid
      exact unmistaken_of_id hfind hreply hid hv
    · exact unmistaken_of_text hreply fun w hw hw' => hid ⟨w, hw, hw'⟩

end Select

section Parts

variable (E : Sys σ) (fuel : ℕ) (freq : UInt32) (h₀ : Host σ) (einval : Bool)
  (stale : ℕ → ℕ → UInt8) (partsFile : Option (List UInt8))

/-- The part that is programmed is the part that is connected, exactly where nothing else is made of
the reply to the last request. -/
theorem chosenPart_connected_iff :
    (∀ part, chosenPart E fuel freq h₀ (findPart einval stale partsFile) = some part ↔
      ∃ h, syncTarget E fuel freq h₀ = .ok true h ∧
        Connected E (findPart einval stale partsFile) h part) ↔
    ∀ h, syncTarget E fuel freq h₀ = .ok true h →
      Unmistaken E (findPart einval stale partsFile) h := by
  rw [chosenPart_eq]
  rcases hsync : syncTarget E fuel freq h₀ with ⟨_ | _, h⟩ | ⟨f, h⟩
  · refine iff_of_true (fun part => iff_of_false (fun he => by cases he) ?_) ?_
    · rintro ⟨h', he, -⟩
      cases he
    · intro h' he
      cases he
  · have hiff : (∀ part, chosenAt E (findPart einval stale partsFile) h = some part ↔
        Connected E (findPart einval stale partsFile) h part) ↔
        Unmistaken E (findPart einval stale partsFile) h := chosenAt_iff findPart_partId h
    constructor
    · intro hall h' he
      cases he
      refine hiff.1 fun part => (hall part).trans ⟨?_, fun hpart => ⟨h, rfl, hpart⟩⟩
      rintro ⟨h', he, hpart⟩
      cases he
      exact hpart
    · intro hcond part
      refine (hiff.2 (hcond h rfl) part).trans ⟨fun hpart => ⟨h, rfl, hpart⟩, ?_⟩
      rintro ⟨h', he, hpart⟩
      cases he
      exact hpart
  · refine iff_of_true (fun part => iff_of_false (fun he => by cases he) ?_) ?_
    · rintro ⟨h', he, -⟩
      cases he
    · intro h' he
      cases he

/-- A device that opens the session and has the id 2147483648. -/
def highId : List (List UInt8) :=
  [synchro, synchro ++ bytes "OK\r\n".toList, bytes "10000\r\nOK\r\n".toList, bytes "A 0\r\n0\r\n".toList,
    bytes "0\r\n2147483648\r\n".toList]

/-- The part has the id of the device, and is refused. -/
theorem chosenPart_refused :
    let E := (scripted fun _ => 100).sys (Sys.plain _)
    let h₀ := Host.start (.quiet highId) 0 0 0
    let find := findPart false (fun _ _ => 0) (some (bytes "2147483648,LPC1,1,2,3,4,5,6,7,8,0\n".toList))
    ¬ ∀ part, chosenPart E 100 10000 h₀ find = some part ↔
      ∃ h, syncTarget E 100 10000 h₀ = .ok true h ∧ Connected E find h part := by
  intro E h₀ find hall
  let part : PartEntry := ⟨2147483648, bytes "LPC1".toList, .ofValues [1, 2, 3, 4, 5, 6, 7, 8, 0]⟩
  have hpart : find (toUint64 2147483648) = some part := by decide +kernel
  have hid : IdText (bytes "2147483648\r\n".toList) 2147483648 :=
    ⟨[], '2'.toUInt8, bytes "147483648".toList, '\r'.toUInt8, ['\n'.toUInt8], rfl,
      fun _ hc => (by cases hc), rfl, .inl rfl⟩
  have hchosen : chosenPart E 100 10000 h₀ find = none := by
    have hvalue : value (progConnectAndId E 100 10000 h₀) = some (some (-2147483648)) := by
      decide +kernel
    rw [chosenPart, hvalue]
    rfl
  have hsync : value (syncTarget E 100 10000 h₀) = some true := by decide +kernel
  have hreply : idReply E (final (syncTarget E 100 10000 h₀)) =
      .text (bytes "2147483648\r\n".toList) := by decide +kernel
  rcases hrun : syncTarget E 100 10000 h₀ with ⟨done, h⟩ | ⟨f, h⟩
  · rw [hrun] at hsync hreply
    cases hsync
    have hconnected : Connected E find h part := ⟨by simp [part], hpart, _, hreply, hid⟩
    have := (hall part).2 ⟨h, hrun, hconnected⟩
    rw [hchosen] at this
    cases this
  · rw [hrun] at hsync
    cases hsync

end Parts

end LpcTools
